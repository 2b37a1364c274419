import Crossgram.Lib.Handover
import Crossgram.Lib.Runs
/-!
# StreamLeases — one live event stream of a session (packages/platform-crossgram/src/index.ts)

The `subscribe` calls of one platform session, through any number of `QQNTPlatform` instances, with the map of leases
that they share.  Each await is a step of its own.  `subscribeLoop` and `subscribeDialogsLoop` catch what their bodies
throw and return only when the signal is aborted, so a loop is here just running or over.  `order` records who took the
lease, newest first, and `unsubscribed` whose unsubscribe function was called; no code reads them.
-/
namespace Crossgram

open Function Option List

/-- Where a `subscribe` call stands. -/
inductive SubscribeStage
  /-- It awaits `cleanupLegacyDialogs`. -/
  | cleaning
  /-- It awaits `ensureReactionCatalog`. -/
  | warming
  /-- `cleanupLegacyDialogs` threw. -/
  | failed
  /-- It has the lease and awaits `predecessor.stop()`. -/
  | waiting (predecessor : Nat)
  | superseded
  | started (subscribeLoop subscribeDialogsLoop : Bool)
deriving DecidableEq

namespace SubscribeStage

def took : SubscribeStage → Bool
  | .cleaning => false
  | .warming  => false
  | .failed   => false
  | _         => true

/-- `started` is resolved and `running` is over. -/
def stopped : SubscribeStage → Bool
  | .superseded          => true
  | .started false false => true
  | _                    => false

def predecessor : SubscribeStage → Option Nat
  | .waiting p => some p
  | _          => none

def settled : SubscribeStage → Bool
  | .cleaning  => false
  | .warming   => false
  | .waiting _ => false
  | _          => true

def runs : SubscribeStage → Bool
  | .started loop dialogs => loop || dialogs
  | _                     => false

end SubscribeStage

structure StreamSubscription (H : Type) where
  platform : Nat
  handler : H
  aborted : Bool
  stage : SubscribeStage

namespace StreamSubscription

variable {H : Type}

def live (sub : StreamSubscription H) : Bool := sub.stage.runs && !sub.aborted

end StreamSubscription

structure StreamLeases (H : Type) where
  subscriptions : Nat → Option (StreamSubscription H)
  /-- `leases.get(leaseKey)` -/
  lease : Option Nat
  /-- `eventHandlers.get(platformSessionId)` of each platform instance -/
  eventHandlers : Nat → Option H
  /-- The calls of unsubscribe functions that await `lease.stop()`. -/
  unsubscribing : Nat → Option Nat
  order : List Nat
  unsubscribed : List Nat

inductive LeaseEvent (H : Type)
  | subscribe (i platform : Nat) (handler : H)
  | cleaned (i : Nat) (ok : Bool)
  | warmed (i : Nat)
  /-- `predecessor.stop()` is over. -/
  | resume (i : Nat)
  | loopEnds (i : Nat)
  | dialogsLoopEnds (i : Nat)
  /-- Call `k` of the function that subscription `i` returned. -/
  | unsubscribe (k i : Nat)
  /-- `lease.stop()` is over. -/
  | released (k : Nat)

namespace StreamLeases

variable {H : Type}

def start : StreamLeases H :=
  { subscriptions := fun _ => none, lease := none, eventHandlers := fun _ => none, unsubscribing := fun _ => none
    order := [], unsubscribed := [] }

def setSubscription (s : StreamLeases H) (i : Nat) (sub : StreamSubscription H) : StreamLeases H :=
  { s with subscriptions := Function.update s.subscriptions i (some sub) }

def setStage (s : StreamLeases H) (i : Nat) (sub : StreamSubscription H) (stage : SubscribeStage) : StreamLeases H :=
  s.setSubscription i { sub with stage := stage }

/-- `controller.abort()` of `lease.stop()`. -/
def abort (s : StreamLeases H) (i : Nat) : StreamLeases H :=
  match s.subscriptions i with
  | none     => s
  | some sub => s.setSubscription i { sub with aborted := true }

/-- `await lease.stop()` can go on. -/
def stopped (s : StreamLeases H) (i : Nat) : Bool := (s.subscriptions i).any (fun sub => sub.stage.stopped)

def begin (s : StreamLeases H) (i : Nat) (sub : StreamSubscription H) : StreamLeases H :=
  { s.setStage i sub (.started true true) with
    eventHandlers := Function.update s.eventHandlers sub.platform (some sub.handler) }

def takeLease (s : StreamLeases H) (i : Nat) (sub : StreamSubscription H) : StreamLeases H :=
  match s.lease with
  | none   => { s with lease := some i, order := i :: s.order }.begin i sub
  | some p => ({ s with lease := some i, order := i :: s.order }.abort p).setStage i sub (.waiting p)

def step [DecidableEq H] (s : StreamLeases H) : LeaseEvent H → Option (StreamLeases H)
  | .subscribe i platform handler =>
    match s.subscriptions i with
    | some _ => none
    | none   => some (s.setSubscription i ⟨platform, handler, false, .cleaning⟩)
  | .cleaned i ok => (s.subscriptions i).bind (fun sub =>
      if sub.stage = .cleaning then some (s.setStage i sub (if ok then .warming else .failed)) else none)
  | .warmed i => (s.subscriptions i).bind (fun sub =>
      if sub.stage = .warming then some (s.takeLease i sub) else none)
  | .resume i => (s.subscriptions i).bind (fun sub =>
      match sub.stage with
      | .waiting p =>
        if s.stopped p then
          if s.lease ≠ some i ∨ sub.aborted = true then some (s.setStage i sub .superseded)
          else some (s.begin i sub)
        else none
      | _ => none)
  | .loopEnds i => (s.subscriptions i).bind (fun sub =>
      match sub.stage with
      | .started true dialogs => if sub.aborted then some (s.setStage i sub (.started false dialogs)) else none
      | _ => none)
  | .dialogsLoopEnds i => (s.subscriptions i).bind (fun sub =>
      match sub.stage with
      | .started loop true => if sub.aborted then some (s.setStage i sub (.started loop false)) else none
      | _ => none)
  | .unsubscribe k i => (s.subscriptions i).bind (fun sub =>
      match sub.stage with
      -- `async () => {}`
      | .superseded  => some { s with unsubscribed := i :: s.unsubscribed }
      | .started _ _ =>
        match s.unsubscribing k with
        | some _ => none
        | none   => some { s.abort i with
          unsubscribing := Function.update s.unsubscribing k (some i), unsubscribed := i :: s.unsubscribed }
      | _ => none)
  | .released k => (s.unsubscribing k).bind (fun i => (s.subscriptions i).bind (fun sub =>
      if s.stopped i then some { s with
        lease := if s.lease = some i then none else s.lease
        eventHandlers := if s.eventHandlers sub.platform = some sub.handler then
          Function.update s.eventHandlers sub.platform none else s.eventHandlers
        unsubscribing := Function.update s.unsubscribing k none }
      else none))

/-! ## The condition on a step -/

def OwnHandler (s : StreamLeases H) : LeaseEvent H → Prop
  | .released k => ∀ i sub, s.unsubscribing k = some i → s.subscriptions i = some sub →
      ∀ j sub', j ≠ i → s.subscriptions j = some sub' → sub'.live = true → sub'.platform = sub.platform →
        sub'.handler ≠ sub.handler
  | _ => True

/-! ## Every run -/

def waits (s : StreamLeases H) (i : Nat) : Option Nat := (s.subscriptions i).bind (fun sub => sub.stage.predecessor)

def Current (sub : StreamSubscription H) : Prop := (∃ p, sub.stage = .waiting p) ∨ sub.stage = .started true true

structure Inv (s : StreamLeases H) : Prop where
  took : ∀ i sub, s.subscriptions i = some sub → (i ∈ s.order ↔ sub.stage.took = true)
  known : ∀ i ∈ s.order, ∃ sub, s.subscriptions i = some sub
  fresh : ∀ i sub, s.subscriptions i = some sub → sub.stage.took = false → sub.aborted = false
  queue : Handover.Ordered s.order s.waits (fun j => s.stopped j = true)
  held : ∀ i, s.lease = some i → ∃ ys, s.order = i :: ys
  free : s.lease = none → ∀ j ∈ s.order, s.stopped j = true
  aborts : ∀ i p, s.waits i = some p → ∃ sub, s.subscriptions p = some sub ∧ sub.aborted = true
  stops : ∀ k i, s.unsubscribing k = some i → i ∈ s.unsubscribed ∧
    ∃ sub loop dialogs, s.subscriptions i = some sub ∧ sub.stage = .started loop dialogs ∧ sub.aborted = true
  runs : ∀ i sub loop dialogs, s.subscriptions i = some sub → sub.stage = .started loop dialogs →
    sub.aborted = false → loop = true ∧ dialogs = true
  newest : ∀ i ys, s.order = i :: ys → i ∉ s.unsubscribed → s.lease = some i ∧
    ∃ sub, s.subscriptions i = some sub ∧ sub.aborted = false ∧ Current sub

variable {s s' : StreamLeases H} {i : Nat} {sub : StreamSubscription H}

theorem inv_start : Inv (start (H := H)) where
  took := fun _ _ h => by cases h
  known := fun _ h => absurd h not_mem_nil
  fresh := fun _ _ h => by cases h
  queue := Handover.ordered_nil
  held := fun _ h => by cases h
  free := fun _ _ h => absurd h not_mem_nil
  aborts := fun _ _ h => by cases h
  stops := fun _ _ h => by cases h
  runs := fun _ _ _ _ h => by cases h
  newest := fun _ _ h => by cases h

theorem setSubscription_self (s : StreamLeases H) (i : Nat) (sub : StreamSubscription H) :
    (s.setSubscription i sub).subscriptions i = some sub := update_self _ _ _

theorem setSubscription_of_ne (s : StreamLeases H) {i j : Nat} (sub : StreamSubscription H) (hij : j ≠ i) :
    (s.setSubscription i sub).subscriptions j = s.subscriptions j := update_of_ne hij _ _

theorem waits_eq (hi : s.subscriptions i = some sub) : s.waits i = sub.stage.predecessor := by
  unfold waits
  rw [hi]
  rfl

theorem stopped_eq (hi : s.subscriptions i = some sub) : s.stopped i = sub.stage.stopped := by
  unfold stopped
  rw [hi]
  rfl

/-- **One subscription changes its state**, and handlers are registered. -/
theorem Inv.update (h : Inv s) (hi : s.subscriptions i = some sub) (sub' : StreamSubscription H)
    (handlers : Nat → Option H) (htook : sub'.stage.took = sub.stage.took)
    (hstopped : sub.stage.stopped = true → sub'.stage.stopped = true)
    (hpred : sub'.stage.predecessor = sub.stage.predecessor ∨ (sub'.stage.predecessor = none ∧
      ∃ p, sub.stage.predecessor = some p ∧ s.waits p = none ∧ s.stopped p = true))
    (haborted : sub.aborted = true → sub'.aborted = true)
    (hfresh : sub'.stage.took = false → sub'.aborted = false)
    (hstarted : ∀ loop dialogs, sub.stage = .started loop dialogs →
      ∃ loop' dialogs', sub'.stage = .started loop' dialogs')
    (hruns : ∀ loop dialogs, sub'.stage = .started loop dialogs → sub'.aborted = false →
      loop = true ∧ dialogs = true)
    (hnewest : ∀ ys, s.order = i :: ys → i ∉ s.unsubscribed → sub'.aborted = false ∧ Current sub') :
    Inv { s.setSubscription i sub' with eventHandlers := handlers } := by
  have hself := setSubscription_self s i sub'
  have hother : ∀ j, j ≠ i → (s.setSubscription i sub').subscriptions j = s.subscriptions j :=
    fun j hj => setSubscription_of_ne s sub' hj
  have hwaits : ∀ j, j ≠ i → (s.setSubscription i sub').waits j = s.waits j := by
    intro j hj
    unfold waits
    rw [hother j hj]
  have hstop : ∀ j, s.stopped j = true → (s.setSubscription i sub').stopped j = true := by
    intro j hj
    by_cases hji : j = i
    · subst hji
      rw [stopped_eq hself]
      exact hstopped ((stopped_eq hi).symm.trans hj)
    · unfold stopped at hj ⊢
      rw [hother j hji]
      exact hj
  have hin : ∀ j p, (s.setSubscription i sub').waits j = some p → s.waits j = some p := by
    intro j p hj
    by_cases hji : j = i
    · subst hji
      rw [waits_eq hself] at hj
      rw [waits_eq hi]
      rcases hpred with heq | ⟨hnone, -⟩
      · exact heq.symm.trans hj
      · rw [hnone] at hj
        cases hj
    · exact (hwaits j hji).symm.trans hj
  refine ⟨fun j subj hj => ?_, fun j hj => ?_, fun j subj hj hnot => ?_,
    h.queue.step (fun j _ hj => hstop j hj) (fun j _ => ?_) (fun j p hj => ?_),
    h.held, fun hfree j hj => hstop j (h.free hfree j hj), fun j p hj => ?_, fun k j hk => ?_,
    fun j subj loop dialogs hj hst hab => ?_, fun j ys hys hnot => ?_⟩
  · by_cases hji : j = i
    · subst hji
      obtain rfl := Option.some.inj (hself.symm.trans hj)
      rw [htook]
      exact h.took j sub hi
    · exact h.took j subj ((hother j hji).symm.trans hj)
  · by_cases hji : j = i
    · exact ⟨sub', hji ▸ hself⟩
    · obtain ⟨subj, hsubj⟩ := h.known j hj
      exact ⟨subj, (hother j hji).trans hsubj⟩
  · by_cases hji : j = i
    · subst hji
      obtain rfl := Option.some.inj (hself.symm.trans hj)
      exact hfresh hnot
    · exact h.fresh j subj ((hother j hji).symm.trans hj) hnot
  · by_cases hji : j = i
    · subst hji
      have hnew : ({ s.setSubscription j sub' with eventHandlers := handlers } : StreamLeases H).waits j =
        sub'.stage.predecessor := waits_eq hself
      rw [hnew, waits_eq hi]
      exact hpred
    · exact .inl (hwaits j hji)
  · obtain ⟨xs, ys, hs⟩ := h.queue.behind j p (hin j p hj)
    rw [hs]
    exact mem_append_right xs mem_cons_self
  · obtain ⟨subp, hp, hab⟩ := h.aborts j p (hin j p hj)
    by_cases hpi : p = i
    · subst hpi
      obtain rfl := Option.some.inj (hi.symm.trans hp)
      exact ⟨sub', hself, haborted hab⟩
    · exact ⟨subp, (hother p hpi).trans hp, hab⟩
  · obtain ⟨hun, subj, loop, dialogs, hj, hst, hab⟩ := h.stops k j hk
    by_cases hji : j = i
    · subst hji
      obtain rfl := Option.some.inj (hi.symm.trans hj)
      obtain ⟨loop', dialogs', hst'⟩ := hstarted loop dialogs hst
      exact ⟨hun, sub', loop', dialogs', hself, hst', haborted hab⟩
    · exact ⟨hun, subj, loop, dialogs, (hother j hji).trans hj, hst, hab⟩
  · by_cases hji : j = i
    · subst hji
      obtain rfl := Option.some.inj (hself.symm.trans hj)
      exact hruns loop dialogs hst hab
    · exact h.runs j subj loop dialogs ((hother j hji).symm.trans hj) hst hab
  · by_cases hji : j = i
    · subst hji
      exact ⟨(h.newest j ys hys hnot).1, sub', hself, hnewest ys hys hnot⟩
    · obtain ⟨hlease, subj, hj, hab, hcur⟩ := h.newest j ys hys hnot
      exact ⟨hlease, subj, (hother j hji).trans hj, hab, hcur⟩

/-- **A newcomer takes the lease**: it waits for the holder, whose signal is aborted, or finds all loops over. -/
theorem Inv.push (h : Inv s) (sub : StreamSubscription H) (hi : i ∉ s.order) (horder : s'.order = i :: s.order) (hlease : s'.lease = some i)
    (hcalls : s'.unsubscribing = s.unsubscribing) (hun : s'.unsubscribed = s.unsubscribed)
    (hself : s'.subscriptions i = some sub) (htook : sub.stage.took = true) (hab : sub.aborted = false)
    (hcur : Current sub)
    (hother : ∀ j, j ≠ i → s'.subscriptions j = (s.subscriptions j).map (fun subj =>
      { subj with aborted := subj.aborted || decide (s.lease = some j) }))
    (hstage : (∃ p, s.lease = some p ∧ sub.stage = .waiting p) ∨ (s.lease = none ∧ sub.stage = .started true true)) :
    Inv s' := by
  have hne : ∀ j ∈ s.order, j ≠ i := fun j hj hji => hi (hji ▸ hj)
  -- every other subscription keeps its stage
  have hkept : ∀ j, j ≠ i → ∀ subj', s'.subscriptions j = some subj' → ∃ subj, s.subscriptions j = some subj ∧
      subj'.stage = subj.stage ∧ subj'.aborted = (subj.aborted || decide (s.lease = some j)) := by
    intro j hji subj' hj
    rw [hother j hji] at hj
    obtain ⟨subj, hsubj, rfl⟩ := map_eq_some_iff.1 hj
    exact ⟨subj, hsubj, rfl, rfl⟩
  have hmap : ∀ j, j ≠ i → ∀ subj, s.subscriptions j = some subj →
      s'.subscriptions j = some { subj with aborted := subj.aborted || decide (s.lease = some j) } := by
    intro j hji subj hj
    rw [hother j hji, hj]
    rfl
  have hwaits : ∀ j, j ≠ i → s'.waits j = s.waits j := by
    intro j hji
    unfold waits
    rw [hother j hji]
    cases s.subscriptions j <;> rfl
  have hstop : ∀ j, j ≠ i → s'.stopped j = s.stopped j := by
    intro j hji
    unfold stopped
    rw [hother j hji]
    cases s.subscriptions j <;> rfl
  have hin : ∀ j p, s.waits j = some p → j ∈ s.order := by
    intro j p hj
    obtain ⟨xs, ys, hs⟩ := h.queue.behind j p hj
    rw [hs]
    exact mem_append_right xs mem_cons_self
  have hqueue : Handover.Ordered s'.order s'.waits (fun j => s'.stopped j = true) := by
    rw [horder]
    refine h.queue.push hi (fun j hj hover => (hstop j (hne j hj)).trans hover) (fun j hj => hwaits j (hne j hj))
      (fun j p hj => ?_) ?_
    · by_cases hji : j = i
      · exact hji ▸ mem_cons_self
      · exact mem_cons_of_mem i (hin j p ((hwaits j hji).symm.trans hj))
    · rcases hstage with ⟨p, hp, hst⟩ | ⟨hnone, hst⟩
      · obtain ⟨ys, hys⟩ := h.held p hp
        refine .inl ⟨p, ys, hys, ?_⟩
        rw [waits_eq hself, hst]
        rfl
      · refine .inr ⟨?_, h.free hnone⟩
        rw [waits_eq hself, hst]
        rfl
  refine ⟨fun j subj hj => ?_, fun j hj => ?_, fun j subj hj hnot => ?_, hqueue, fun j hj => ?_, fun hfree => ?_,
    fun j p hj => ?_, fun k j hk => ?_, fun j subj loop dialogs hj hst habj => ?_, fun j ys hys hnot => ?_⟩
  · rw [horder]
    by_cases hji : j = i
    · subst hji
      obtain rfl := Option.some.inj (hself.symm.trans hj)
      simp [htook]
    · obtain ⟨subj', hj', hst, -⟩ := hkept j hji subj hj
      rw [hst, ← h.took j subj' hj', mem_cons]
      exact ⟨fun hmem => hmem.resolve_left hji, .inr⟩
  · rw [horder] at hj
    by_cases hji : j = i
    · exact ⟨sub, hji ▸ hself⟩
    · obtain ⟨subj, hsubj⟩ := h.known j ((mem_cons.1 hj).resolve_left hji)
      exact ⟨_, hmap j hji subj hsubj⟩
  · by_cases hji : j = i
    · subst hji
      obtain rfl := Option.some.inj (hself.symm.trans hj)
      exact hab
    · obtain ⟨subj', hj', hst, haborted⟩ := hkept j hji subj hj
      have hnot' : subj'.stage.took = false := hst ▸ hnot
      rw [haborted, h.fresh j subj' hj' hnot', Bool.false_or, decide_eq_false_iff_not]
      intro hl
      obtain ⟨ys, hys⟩ := h.held j hl
      have hmem := (h.took j subj' hj').1 (hys ▸ mem_cons_self)
      rw [hnot'] at hmem
      cases hmem
  · obtain rfl := Option.some.inj (hlease.symm.trans hj)
    exact ⟨s.order, horder⟩
  · rw [hlease] at hfree
    cases hfree
  · by_cases hji : j = i
    · subst hji
      rcases hstage with ⟨q, hq, hst⟩ | ⟨-, hst⟩
      · rw [waits_eq hself, hst] at hj
        obtain rfl : q = p := Option.some.inj hj
        obtain ⟨ys, hys⟩ := h.held q hq
        have hmem : q ∈ s.order := hys ▸ mem_cons_self
        obtain ⟨subq, hsubq⟩ := h.known q hmem
        refine ⟨_, hmap q (hne q hmem) subq hsubq, ?_⟩
        simp [hq]
      · rw [waits_eq hself, hst] at hj
        cases hj
    · obtain ⟨subp, hp, habp⟩ := h.aborts j p ((hwaits j hji).symm.trans hj)
      have hpi : p ≠ i := by
        obtain ⟨xs, ys, hs⟩ := h.queue.behind j p ((hwaits j hji).symm.trans hj)
        refine hne p ?_
        rw [hs]
        exact mem_append_right xs (mem_cons_of_mem j mem_cons_self)
      refine ⟨_, hmap p hpi subp hp, ?_⟩
      simp [habp]
  · rw [hcalls] at hk
    obtain ⟨hmem, subj, loop, dialogs, hj, hst, habj⟩ := h.stops k j hk
    have hji : j ≠ i := by
      refine hne j ((h.took j subj hj).2 ?_)
      rw [hst]
      rfl
    refine ⟨hun ▸ hmem, _, loop, dialogs, hmap j hji subj hj, hst, ?_⟩
    simp [habj]
  · by_cases hji : j = i
    · subst hji
      obtain rfl := Option.some.inj (hself.symm.trans hj)
      rcases hstage with ⟨p, -, hst'⟩ | ⟨-, hst'⟩
      · rw [hst'] at hst
        cases hst
      · rw [hst'] at hst
        cases hst
        exact ⟨rfl, rfl⟩
    · obtain ⟨subj', hj', hst', haborted⟩ := hkept j hji subj hj
      rw [haborted, Bool.or_eq_false_iff] at habj
      exact h.runs j subj' loop dialogs hj' (hst' ▸ hst) habj.1
  · obtain rfl : i = j := (List.cons.inj (horder.symm.trans hys)).1
    exact ⟨hlease, sub, hself, hab, hcur⟩

theorem Inv.takeLease (h : Inv s) (hi : s.subscriptions i = some sub) (hw : sub.stage = .warming) :
    Inv (s.takeLease i sub) := by
  have hnot : i ∉ s.order := by
    intro hmem
    have htook := (h.took i sub hi).1 hmem
    rw [hw] at htook
    cases htook
  have hunaborted : sub.aborted = false := h.fresh i sub hi (by rw [hw]; rfl)
  unfold StreamLeases.takeLease
  cases hlease : s.lease with
  | none =>
    simp only
    refine h.push { sub with stage := .started true true } hnot rfl rfl rfl rfl (update_self _ _ _) rfl
      hunaborted (.inr rfl) (fun j hj => ?_) (.inr ⟨hlease, rfl⟩)
    refine (update_of_ne hj _ _).trans ?_
    simp only [hlease]
    cases s.subscriptions j <;> simp
  | some p =>
    simp only
    obtain ⟨ys, hys⟩ := h.held p hlease
    have hpmem : p ∈ s.order := hys ▸ mem_cons_self
    obtain ⟨subp, hp⟩ := h.known p hpmem
    have hpi : p ≠ i := fun hpi => hnot (hpi ▸ hpmem)
    have habort : ({ s with lease := some i, order := i :: s.order } : StreamLeases H).abort p =
        ({ s with lease := some i, order := i :: s.order } : StreamLeases H).setSubscription p
          { subp with aborted := true } := by
      unfold StreamLeases.abort
      simp only [hp]
    rw [habort]
    refine h.push { sub with stage := .waiting p } hnot rfl rfl rfl rfl (update_self _ _ _) rfl
      hunaborted (.inl ⟨p, rfl⟩) (fun j hj => ?_) (.inl ⟨p, hlease, rfl⟩)
    refine (update_of_ne hj _ _).trans ?_
    by_cases hjp : j = p
    · subst hjp
      refine (update_self _ _ _).trans ?_
      simp [hp, hlease]
    · refine (update_of_ne hjp _ _).trans ?_
      have hne : ¬ p = j := fun hpj => hjp hpj.symm
      cases s.subscriptions j <;> simp [hlease, hne]

theorem Inv.subscribe (h : Inv s) (hi : s.subscriptions i = none) (platform : Nat) (handler : H) :
    Inv (s.setSubscription i ⟨platform, handler, false, .cleaning⟩) := by
  have hself := setSubscription_self s i ⟨platform, handler, false, .cleaning⟩
  have hother : ∀ j, j ≠ i → (s.setSubscription i ⟨platform, handler, false, .cleaning⟩).subscriptions j =
      s.subscriptions j := fun j hj => setSubscription_of_ne s _ hj
  have hgone : ∀ j sub, s.subscriptions j = some sub → j ≠ i := by
    intro j sub hj hji
    rw [hji, hi] at hj
    cases hj
  have hkeep : ∀ j sub, s.subscriptions j = some sub →
      (s.setSubscription i ⟨platform, handler, false, .cleaning⟩).subscriptions j = some sub :=
    fun j sub hj => (hother j (hgone j sub hj)).trans hj
  have hwaits : (s.setSubscription i ⟨platform, handler, false, .cleaning⟩).waits = s.waits := by
    funext j
    by_cases hji : j = i
    · rw [hji, waits_eq hself]
      unfold waits
      rw [hi]
      rfl
    · unfold waits
      rw [hother j hji]
  have hstop : (s.setSubscription i ⟨platform, handler, false, .cleaning⟩).stopped = s.stopped := by
    funext j
    by_cases hji : j = i
    · rw [hji, stopped_eq hself]
      unfold stopped
      rw [hi]
      rfl
    · unfold stopped
      rw [hother j hji]
  refine ⟨fun j subj hj => ?_, fun j hj => ?_, fun j subj hj hnot => ?_, ?_, h.held, fun hfree j hj => ?_,
    fun j p hj => ?_, fun k j hk => ?_, fun j subj loop dialogs hj hst hab => ?_, fun j ys hys hun => ?_⟩
  · by_cases hji : j = i
    · subst hji
      obtain rfl := Option.some.inj (hself.symm.trans hj)
      refine ⟨fun hmem => ?_, fun htook => by cases htook⟩
      obtain ⟨sub, hsub⟩ := h.known j hmem
      exact absurd rfl (hgone j sub hsub)
    · exact h.took j subj ((hother j hji).symm.trans hj)
  · obtain ⟨subj, hsubj⟩ := h.known j hj
    exact ⟨subj, hkeep j subj hsubj⟩
  · by_cases hji : j = i
    · subst hji
      obtain rfl := Option.some.inj (hself.symm.trans hj)
      rfl
    · exact h.fresh j subj ((hother j hji).symm.trans hj) hnot
  · rw [hwaits, hstop]
    exact h.queue
  · rw [hstop]
    exact h.free hfree j hj
  · rw [hwaits] at hj
    obtain ⟨subp, hp, hab⟩ := h.aborts j p hj
    exact ⟨subp, hkeep p subp hp, hab⟩
  · obtain ⟨hun, subj, loop, dialogs, hj, hst, hab⟩ := h.stops k j hk
    exact ⟨hun, subj, loop, dialogs, hkeep j subj hj, hst, hab⟩
  · by_cases hji : j = i
    · subst hji
      obtain rfl := Option.some.inj (hself.symm.trans hj)
      cases hst
    · exact h.runs j subj loop dialogs ((hother j hji).symm.trans hj) hst hab
  · obtain ⟨hlease, subj, hj, hab, hcur⟩ := h.newest j ys hys hun
    exact ⟨hlease, subj, hkeep j subj hj, hab, hcur⟩

theorem Inv.prepare (h : Inv s) (hi : s.subscriptions i = some sub) {stage : SubscribeStage}
    (hold : sub.stage.took = false) (hnew : stage.took = false) : Inv (s.setStage i sub stage) := by
  have hstages : ∀ st : SubscribeStage, st.took = false → st.stopped = false ∧ st.predecessor = none ∧
      ∀ loop dialogs, st ≠ .started loop dialogs := by
    intro st hst
    cases st <;> first | exact ⟨rfl, rfl, fun _ _ h => by cases h⟩ | cases hst
  obtain ⟨hstop, hpred, hstarted⟩ := hstages sub.stage hold
  obtain ⟨-, hpred', hstarted'⟩ := hstages stage hnew
  refine h.update hi { sub with stage := stage } _ (hnew.trans hold.symm) (fun hs => ?_) (.inl ?_) id
    (fun _ => h.fresh i sub hi hold) (fun loop dialogs hs => absurd hs (hstarted loop dialogs))
    (fun loop dialogs hs => absurd hs (hstarted' loop dialogs)) (fun ys hys => ?_)
  · rw [hstop] at hs
    cases hs
  · exact hpred'.trans hpred.symm
  · have htook := (h.took i sub hi).1 (hys ▸ mem_cons_self)
    rw [hold] at htook
    cases htook

/-- **The newest that waited for a predecessor that is over begins its loops.** -/
theorem Inv.resume (h : Inv s) (hi : s.subscriptions i = some sub) {p : Nat} (hw : sub.stage = .waiting p)
    (hp : s.stopped p = true) :
    (s.lease = some i → sub.aborted = false → Inv (s.begin i sub)) ∧
      ((s.lease ≠ some i ∨ sub.aborted = true) → Inv (s.setStage i sub .superseded)) := by
  have hpwaits : s.waits p = none := by
    cases hsub : s.subscriptions p with
    | none =>
      unfold waits
      rw [hsub]
      rfl
    | some subp =>
      rw [stopped_eq hsub] at hp
      rw [waits_eq hsub]
      cases hst : subp.stage with
      | waiting q =>
        rw [hst] at hp
        cases hp
      | _ => rfl
  have hpred : ∀ stage : SubscribeStage, stage.predecessor = none →
      stage.predecessor = sub.stage.predecessor ∨ (stage.predecessor = none ∧
        ∃ q, sub.stage.predecessor = some q ∧ s.waits q = none ∧ s.stopped q = true) :=
    fun stage hstage => .inr ⟨hstage, p, by rw [hw]; rfl, hpwaits, hp⟩
  refine ⟨fun hlease hab => ?_, fun hlost => ?_⟩
  · refine h.update hi { sub with stage := .started true true } _ ?_ (fun hs => ?_) (hpred _ rfl) id
      (fun hs => by cases hs) (fun _ _ _ => ⟨true, true, rfl⟩) (fun _ _ hs _ => ?_)
      (fun _ _ _ => ⟨hab, .inr rfl⟩)
    · rw [hw]
      rfl
    · rw [hw] at hs
      cases hs
    · cases hs
      exact ⟨rfl, rfl⟩
  · refine h.update hi { sub with stage := .superseded } _ ?_ (fun _ => rfl) (hpred _ rfl) id
      (fun hs => by cases hs) (fun _ _ hs => ?_) (fun _ _ hs => by cases hs) (fun ys hys hun => ?_)
    · rw [hw]
      rfl
    · rw [hw] at hs
      cases hs
    · obtain ⟨hlease, sub', hsub', hab, -⟩ := h.newest i ys hys hun
      obtain rfl := Option.some.inj (hi.symm.trans hsub')
      rcases hlost with hlost | hlost
      · exact absurd hlease hlost
      · rw [hab] at hlost
        cases hlost

/-- **A loop ends**, which takes an aborted signal. -/
theorem Inv.loopEnds (h : Inv s) (hi : s.subscriptions i = some sub) {loop dialogs loop' dialogs' : Bool}
    (hst : sub.stage = .started loop dialogs) (hab : sub.aborted = true)
    (hover : loop = false → dialogs = false → loop' = false ∧ dialogs' = false) :
    Inv (s.setStage i sub (.started loop' dialogs')) := by
  refine h.update hi { sub with stage := .started loop' dialogs' } _ ?_ (fun hs => ?_) (.inl ?_) id
    (fun hs => by cases hs) (fun _ _ _ => ⟨loop', dialogs', rfl⟩) (fun _ _ _ hs => ?_) (fun ys hys hun => ?_)
  · rw [hst]
    rfl
  · rw [hst] at hs
    cases loop with
    | true => cases hs
    | false =>
      cases dialogs with
      | true => cases hs
      | false =>
        obtain ⟨rfl, rfl⟩ := hover rfl rfl
        rfl
  · rw [hst]
    rfl
  · rw [show sub.aborted = true from hab] at hs
    cases hs
  · obtain ⟨-, sub', hsub', hab', -⟩ := h.newest i ys hys hun
    obtain rfl := Option.some.inj (hi.symm.trans hsub')
    rw [hab] at hab'
    cases hab'

theorem Inv.unsubscribed (h : Inv s) (i : Nat) : Inv { s with unsubscribed := i :: s.unsubscribed } where
  took := h.took
  known := h.known
  fresh := h.fresh
  queue := h.queue
  held := h.held
  free := h.free
  aborts := h.aborts
  stops := fun k j hk => by
    obtain ⟨hmem, hsub⟩ := h.stops k j hk
    exact ⟨mem_cons_of_mem i hmem, hsub⟩
  runs := h.runs
  newest := fun j ys hys hun => h.newest j ys hys (fun hmem => hun (mem_cons_of_mem i hmem))

/-- **An unsubscribe call** aborts the signal of a subscription that has begun. -/
theorem Inv.unsubscribe (h : Inv s) (hi : s.subscriptions i = some sub) {loop dialogs : Bool}
    (hst : sub.stage = .started loop dialogs) (k : Nat) :
    Inv { s.abort i with
      unsubscribing := Function.update s.unsubscribing k (some i), unsubscribed := i :: s.unsubscribed } := by
  have habort : s.abort i = s.setSubscription i { sub with aborted := true } := by
    unfold StreamLeases.abort
    rw [hi]
  rw [habort]
  have hinv := (h.unsubscribed i).update hi { sub with aborted := true } s.eventHandlers rfl id
    (.inl rfl) (fun _ => rfl) (fun hnot => by rw [show sub.stage.took = true by rw [hst]; rfl] at hnot; cases hnot)
    (fun loop' dialogs' hs => ⟨loop', dialogs', hs⟩) (fun _ _ _ hab => by cases hab)
    (fun _ _ hun => absurd mem_cons_self hun)
  refine ⟨hinv.took, hinv.known, hinv.fresh, hinv.queue, hinv.held, hinv.free, hinv.aborts, fun k' j hk => ?_, hinv.runs,
    hinv.newest⟩
  by_cases hkk : k' = k
  · subst hkk
    obtain rfl : i = j := Option.some.inj ((update_self k' (some i) s.unsubscribing).symm.trans hk)
    exact ⟨mem_cons_self, _, loop, dialogs, setSubscription_self s i { sub with aborted := true }, hst, rfl⟩
  · exact hinv.stops k' j ((update_of_ne hkk (some i) s.unsubscribing).symm.trans hk)

/-- **The unsubscribe call is over**: the lease is free when it still was its own. -/
theorem Inv.released [DecidableEq H] (h : Inv s) {k : Nat} (hk : s.unsubscribing k = some i) (hi : s.subscriptions i = some sub)
    (hstop : s.stopped i = true) :
    Inv { s with
      lease := if s.lease = some i then none else s.lease
      eventHandlers := if s.eventHandlers sub.platform = some sub.handler then
        Function.update s.eventHandlers sub.platform none else s.eventHandlers
      unsubscribing := Function.update s.unsubscribing k none } := by
  have hmem : i ∈ s.unsubscribed := (h.stops k i hk).1
  refine ⟨h.took, h.known, h.fresh, h.queue, fun j hj => ?_, fun hfree j hj => ?_, h.aborts, fun k' j hk' => ?_, h.runs,
    fun j ys hys hun => ?_⟩
  · by_cases hli : s.lease = some i
    · simp [hli] at hj
    · simp only [if_neg hli] at hj
      exact h.held j hj
  · by_cases hli : s.lease = some i
    · obtain ⟨ys, hys⟩ := h.held i hli
      obtain ⟨-, sub', loop, dialogs, hi', hst, -⟩ := h.stops k i hk
      have hwaits : s.waits i = none := by
        rw [waits_eq hi', hst]
        rfl
      rw [show ({ s with
        lease := _, eventHandlers := _, unsubscribing := _ } : StreamLeases H).order = i :: ys from hys] at hj
      rcases mem_cons.1 hj with rfl | hj
      · exact hstop
      · exact h.queue.passed [] i ys hys hwaits j hj
    · simp only [if_neg hli] at hfree
      exact h.free hfree j hj
  · by_cases hkk : k' = k
    · subst hkk
      simp only [update_self] at hk'
      cases hk'
    · simp only [update_of_ne hkk] at hk'
      exact h.stops k' j hk'
  · obtain ⟨hlease, subj, hj, hab, hcur⟩ := h.newest j ys hys hun
    have hji : j ≠ i := fun hji => hun (hji ▸ hmem)
    have hne : ¬ s.lease = some i := by
      rw [hlease]
      exact fun heq => hji (Option.some.inj heq)
    exact ⟨by simp only [if_neg hne]; exact hlease, subj, hj, hab, hcur⟩

/-- **One step.** -/
theorem inv_step [DecidableEq H] {e : LeaseEvent H} (h : Inv s) (hstep : step s e = some s') : Inv s' := by
  cases e with
  | subscribe i platform handler =>
    simp only [step] at hstep
    split at hstep
    · cases hstep
    · rename_i hi
      cases hstep
      exact h.subscribe hi platform handler
  | cleaned i ok =>
    obtain ⟨sub, hi, hstep⟩ := bind_eq_some_iff.1 hstep
    split at hstep
    · rename_i hst
      cases hstep
      refine h.prepare hi ?_ ?_
      · rw [hst]
        rfl
      · cases ok <;> rfl
    · cases hstep
  | warmed i =>
    obtain ⟨sub, hi, hstep⟩ := bind_eq_some_iff.1 hstep
    split at hstep
    · rename_i hst
      cases hstep
      exact h.takeLease hi hst
    · cases hstep
  | resume i =>
    obtain ⟨sub, hi, hstep⟩ := bind_eq_some_iff.1 hstep
    split at hstep
    · rename_i p hst
      split at hstep
      · rename_i hstop
        obtain ⟨hbegin, hlost⟩ := h.resume hi hst hstop
        split at hstep
        · rename_i hcond
          cases hstep
          exact hlost hcond
        · rename_i hcond
          cases hstep
          rw [not_or, not_not, Bool.not_eq_true] at hcond
          exact hbegin hcond.1 hcond.2
      · cases hstep
    · cases hstep
  | loopEnds i =>
    obtain ⟨sub, hi, hstep⟩ := bind_eq_some_iff.1 hstep
    split at hstep
    · rename_i dialogs hst
      split at hstep
      · rename_i hab
        cases hstep
        exact h.loopEnds hi hst hab (fun hloop _ => by cases hloop)
      · cases hstep
    · cases hstep
  | dialogsLoopEnds i =>
    obtain ⟨sub, hi, hstep⟩ := bind_eq_some_iff.1 hstep
    split at hstep
    · rename_i loop hst
      split at hstep
      · rename_i hab
        cases hstep
        exact h.loopEnds hi hst hab (fun _ hdialogs => by cases hdialogs)
      · cases hstep
    · cases hstep
  | unsubscribe k i =>
    obtain ⟨sub, hi, hstep⟩ := bind_eq_some_iff.1 hstep
    split at hstep
    · cases hstep
      exact h.unsubscribed i
    · rename_i loop dialogs hst
      split at hstep
      · cases hstep
      · cases hstep
        exact h.unsubscribe hi hst k
    · cases hstep
  | released k =>
    obtain ⟨i, hk, hstep⟩ := bind_eq_some_iff.1 hstep
    obtain ⟨sub, hi, hstep⟩ := bind_eq_some_iff.1 hstep
    split at hstep
    · rename_i hstop
      cases hstep
      exact h.released hk hi hstop
    · cases hstep

/-! ### The registered handler -/

def Registered (s : StreamLeases H) : Prop :=
  ∀ i ys sub, s.order = i :: ys → i ∉ s.unsubscribed → s.subscriptions i = some sub →
    sub.stage = .started true true → s.eventHandlers sub.platform = some sub.handler

theorem Registered.update (h : s.Registered) (i : Nat) (sub' : StreamSubscription H)
    (hsame : sub'.stage = .started true true → ∃ sub, s.subscriptions i = some sub ∧ sub.stage = .started true true ∧
      sub.platform = sub'.platform ∧ sub.handler = sub'.handler) : (s.setSubscription i sub').Registered := by
  intro j ys subj hys hun hj hst
  by_cases hji : j = i
  · subst hji
    obtain rfl := Option.some.inj ((setSubscription_self s j sub').symm.trans hj)
    obtain ⟨sub, hsub, hst', hplatform, hhandler⟩ := hsame hst
    rw [← hplatform, ← hhandler]
    exact h j ys sub hys hun hsub hst'
  · exact h j ys subj hys hun ((setSubscription_of_ne s sub' hji).symm.trans hj) hst

theorem registered_begin (sub : StreamSubscription H) (hnewest : ∃ ys, s.order = i :: ys) :
    (s.begin i sub).Registered := by
  obtain ⟨ys, hys⟩ := hnewest
  intro j ys' subj hys' _ hj _
  obtain rfl : i = j := (List.cons.inj (hys.symm.trans hys')).1
  obtain rfl := Option.some.inj ((setSubscription_self s i { sub with stage := .started true true }).symm.trans hj)
  exact update_self _ _ _

theorem registered_takeLease (sub : StreamSubscription H) : (s.takeLease i sub).Registered := by
  unfold StreamLeases.takeLease
  split
  · exact registered_begin sub ⟨s.order, rfl⟩
  · rename_i p _
    intro j ys subj hys _ hj hst
    have horder : (({ s with lease := some i, order := i :: s.order } : StreamLeases H).abort p).order = i :: s.order := by
      unfold StreamLeases.abort
      split <;> rfl
    obtain rfl : i = j := (List.cons.inj (horder.symm.trans hys)).1
    obtain rfl := Option.some.inj ((setSubscription_self _ i { sub with stage := .waiting p }).symm.trans hj)
    cases hst

/-- **An unsubscribe call leaves the handler of another subscription**, unless it is the same. -/
theorem Registered.released [DecidableEq H] (h : s.Registered) (hinv : Inv s) {k : Nat}
    (hk : s.unsubscribing k = some i) (hi : s.subscriptions i = some sub) (hown : s.OwnHandler (.released k)) :
    Registered { s with
      lease := if s.lease = some i then none else s.lease
      eventHandlers := if s.eventHandlers sub.platform = some sub.handler then
        Function.update s.eventHandlers sub.platform none else s.eventHandlers
      unsubscribing := Function.update s.unsubscribing k none } := by
  intro j ys subj hys hun hj hst
  have hreg := h j ys subj hys hun hj hst
  have hji : j ≠ i := fun hji => hun (hji ▸ (hinv.stops k i hk).1)
  by_cases hreg' : s.eventHandlers sub.platform = some sub.handler
  · simp only [if_pos hreg']
    by_cases hplatform : subj.platform = sub.platform
    · -- the registered handler would be that of both
      obtain ⟨-, subj', hj', hab, -⟩ := hinv.newest j ys hys hun
      obtain rfl := Option.some.inj (hj'.symm.trans hj)
      have hlive : subj'.live = true := by
        unfold StreamSubscription.live SubscribeStage.runs
        rw [hst, hab]
        rfl
      have hdiff := hown i sub hk hi j subj' hji hj hlive hplatform
      rw [hplatform, hreg'] at hreg
      exact absurd (Option.some.inj hreg).symm hdiff
    · rw [update_of_ne hplatform]
      exact hreg
  · simp only [if_neg hreg']
    exact hreg

/-- **One step** keeps the handler registered. -/
theorem registered_step [DecidableEq H] {e : LeaseEvent H} (h : s.Registered) (hinv : Inv s) (hown : s.OwnHandler e)
    (hstep : step s e = some s') : s'.Registered := by
  cases e with
  | subscribe i platform handler =>
    simp only [step] at hstep
    split at hstep
    · cases hstep
    · cases hstep
      exact h.update i _ (fun hst => by cases hst)
  | cleaned i ok =>
    obtain ⟨sub, hi, hstep⟩ := bind_eq_some_iff.1 hstep
    split at hstep
    · cases hstep
      exact h.update i _ (fun hst => by cases ok <;> cases hst)
    · cases hstep
  | warmed i =>
    obtain ⟨sub, hi, hstep⟩ := bind_eq_some_iff.1 hstep
    split at hstep
    · cases hstep
      exact registered_takeLease sub
    · cases hstep
  | resume i =>
    obtain ⟨sub, hi, hstep⟩ := bind_eq_some_iff.1 hstep
    split at hstep
    · split at hstep
      · split at hstep
        · cases hstep
          exact h.update i _ (fun hst => by cases hst)
        · rename_i hcond
          cases hstep
          rw [not_or, not_not] at hcond
          exact registered_begin sub (hinv.held i hcond.1)
      · cases hstep
    · cases hstep
  | loopEnds i =>
    obtain ⟨sub, hi, hstep⟩ := bind_eq_some_iff.1 hstep
    split at hstep
    · split at hstep
      · cases hstep
        exact h.update i _ (fun hst => by cases hst)
      · cases hstep
    · cases hstep
  | dialogsLoopEnds i =>
    obtain ⟨sub, hi, hstep⟩ := bind_eq_some_iff.1 hstep
    split at hstep
    · split at hstep
      · cases hstep
        exact h.update i _ (fun hst => by cases hst)
      · cases hstep
    · cases hstep
  | unsubscribe k i =>
    obtain ⟨sub, hi, hstep⟩ := bind_eq_some_iff.1 hstep
    split at hstep
    · cases hstep
      exact fun j ys subj hys hun hj hst => h j ys subj hys (fun hmem => hun (mem_cons_of_mem i hmem)) hj hst
    · rename_i loop dialogs hst
      split at hstep
      · cases hstep
      · cases hstep
        have habort : s.abort i = s.setSubscription i { sub with aborted := true } := by
          unfold StreamLeases.abort
          rw [hi]
        rw [habort]
        have hreg := h.update i { sub with aborted := true } (fun hst => ⟨sub, hi, hst, rfl, rfl⟩)
        exact fun j ys subj hys hun hj hst =>
          hreg j ys subj hys (fun hmem => hun (mem_cons_of_mem i hmem)) hj hst
    · cases hstep
  | released k =>
    obtain ⟨i, hk, hstep⟩ := bind_eq_some_iff.1 hstep
    obtain ⟨sub, hi, hstep⟩ := bind_eq_some_iff.1 hstep
    split at hstep
    · cases hstep
      exact h.released hinv hk hi hown
    · cases hstep

/-! ### What every run keeps -/

def Settled (s : StreamLeases H) : Prop :=
  (∀ i sub, s.subscriptions i = some sub → sub.stage.settled = true) ∧ ∀ k, s.unsubscribing k = none

theorem inv_reachable [DecidableEq H] {ok : StreamLeases H → LeaseEvent H → Prop}
    (h : Runs.Reachable step ok start s) : Inv s :=
  h.invariant inv_start (fun _ _ _ _ hinv _ hstep => inv_step hinv hstep)

theorem Inv.over_behind (h : Inv s) {xs ys : List Nat} (hs : s.order = xs ++ i :: ys)
    (hi : s.subscriptions i = some sub) {loop dialogs : Bool} (hst : sub.stage = .started loop dialogs) :
    ∀ j ∈ ys, ∃ subj, s.subscriptions j = some subj ∧ subj.stage.stopped = true := by
  intro j hj
  have hover := h.queue.passed xs i ys hs (by rw [waits_eq hi, hst]; rfl) j hj
  obtain ⟨subj, hsubj⟩ := h.known j (hs ▸ mem_append_right xs (mem_cons_of_mem i hj))
  exact ⟨subj, hsubj, (stopped_eq hsubj).symm.trans hover⟩

theorem Inv.one_runs (h : Inv s) {j : Nat} {subj : StreamSubscription H} (hi : s.subscriptions i = some sub)
    (hj : s.subscriptions j = some subj) (hri : sub.stage.runs = true) (hrj : subj.stage.runs = true) : i = j := by
  have hstarted : ∀ {st : SubscribeStage}, st.runs = true → ∃ loop dialogs, st = .started loop dialogs ∧
      st.stopped = false ∧ st.took = true := by
    intro st hst
    cases st with
    | started loop dialogs => cases loop <;> cases dialogs <;> first | exact ⟨_, _, rfl, rfl, rfl⟩ | cases hst
    | _ => cases hst
  obtain ⟨loop, dialogs, hst, hstop, htook⟩ := hstarted hri
  obtain ⟨loop', dialogs', hst', hstop', htook'⟩ := hstarted hrj
  obtain ⟨xs, ys, hs⟩ := append_of_mem ((h.took i sub hi).2 htook)
  have hmem := (h.took j subj hj).2 htook'
  rw [hs] at hmem
  rcases mem_append.1 hmem with hmem | hmem
  · obtain ⟨xs', ys', hs'⟩ := append_of_mem hmem
    have hs'' : s.order = xs' ++ j :: (ys' ++ i :: ys) := by rw [hs, hs', append_assoc, cons_append]
    obtain ⟨sub', hsub', hover⟩ := h.over_behind hs'' hj hst' i (mem_append_right ys' mem_cons_self)
    obtain rfl := Option.some.inj (hi.symm.trans hsub')
    rw [hstop] at hover
    cases hover
  · rcases mem_cons.1 hmem with hji | hmem
    · exact hji.symm
    · obtain ⟨sub', hsub', hover⟩ := h.over_behind hs hi hst j hmem
      obtain rfl := Option.some.inj (hj.symm.trans hsub')
      rw [hstop'] at hover
      cases hover

/-- **One live event stream**: in every run the loops of two subscriptions never run with signals that are not aborted,
what has begun found all before it over, and when all calls have settled the newest subscription runs both loops unless
it was unsubscribed; its handler is the registered one when no unsubscribe call ended while another subscription ran with
the same handler on the same instance. -/
theorem one_live_stream [DecidableEq H] (h : Runs.Reachable step (fun _ _ => True) start s) :
    (∀ i j sub subj, s.subscriptions i = some sub → s.subscriptions j = some subj → sub.live = true →
      subj.live = true → i = j) ∧
    (∀ xs i ys sub loop dialogs, s.order = xs ++ i :: ys → s.subscriptions i = some sub →
      sub.stage = .started loop dialogs → ∀ j ∈ ys, ∃ subj, s.subscriptions j = some subj ∧ subj.stage.stopped = true) ∧
    (s.Settled → ∀ i ys, s.order = i :: ys → i ∉ s.unsubscribed → ∃ sub, s.subscriptions i = some sub ∧
      sub.stage = .started true true ∧ sub.aborted = false ∧
      (Runs.Reachable step OwnHandler start s → s.eventHandlers sub.platform = some sub.handler)) := by
  have hinv := inv_reachable h
  refine ⟨fun i j sub subj hi hj hli hlj => ?_, fun xs i ys sub loop dialogs hs hi hst => hinv.over_behind hs hi hst,
    fun hsettled i ys hys hun => ?_⟩
  · exact hinv.one_runs hi hj (Bool.and_eq_true_iff.1 hli).1 (Bool.and_eq_true_iff.1 hlj).1
  · obtain ⟨-, sub, hi, hab, hcur⟩ := hinv.newest i ys hys hun
    rcases hcur with ⟨p, hw⟩ | hst
    · have hdone := hsettled.1 i sub hi
      rw [hw] at hdone
      cases hdone
    · refine ⟨sub, hi, hst, hab, fun hown => ?_⟩
      have hregistered : Inv s ∧ s.Registered := hown.invariant (I := fun s => Inv s ∧ s.Registered)
        ⟨inv_start, fun _ _ _ hs => by cases hs⟩
        (fun _ _ _ _ hinv hown hstep => ⟨inv_step hinv.1 hstep, registered_step hinv.2 hinv.1 hown hstep⟩)
      exact hregistered.2 i ys sub hys hun hi hst

/-- A `subscribe` call up to the lease. -/
def arrive (i platform : Nat) (handler : String) : List (LeaseEvent String) :=
  [.subscribe i platform handler, .cleaned i true, .warmed i]

def takeover : List (LeaseEvent String) :=
  arrive 0 0 "old" ++ arrive 1 1 "new" ++ [.loopEnds 0, .dialogsLoopEnds 0, .resume 1]

/-- **After a takeover** the new instance runs, with its handler, and the loops of the old one are over. -/
theorem one_live_stream_takeover : ∃ s sub, Runs.run step start takeover = some s ∧ s.subscriptions 1 = some sub ∧
    sub.stage = .started true true ∧ s.eventHandlers sub.platform = some sub.handler ∧
    ∀ j ∈ [0], ∃ subj, s.subscriptions j = some subj ∧ subj.stage.stopped = true := by
  have hrun : Runs.run step start takeover = some ((Runs.run step start takeover).getD start) := rfl
  generalize hs : (Runs.run step start takeover).getD start = s at hrun
  have horder : s.order = [1, 0] := by
    rw [← hs]
    rfl
  have hun : s.unsubscribed = [] := by
    rw [← hs]
    rfl
  have hsettled : s.Settled := by
    rw [← hs]
    refine ⟨fun i sub hi => ?_, fun k => rfl⟩
    match i with
    | 0 =>
      cases hi
      rfl
    | 1 =>
      cases hi
      rfl
    | n + 2 => cases hi
  have hlive := one_live_stream (Runs.reachable_of_run (fun _ _ _ => trivial) .init hrun)
  have hown : Runs.Reachable step OwnHandler start s := by
    refine Runs.reachable_of_run (fun s e he => ?_) .init hrun
    cases e with
    | released k => simp [takeover, arrive] at he
    | _ => trivial
  obtain ⟨sub, hsub, hst, -, hreg⟩ := hlive.2.2 hsettled 1 [0] horder (by rw [hun]; exact not_mem_nil)
  exact ⟨s, sub, hrun, hsub, hst, hreg hown, hlive.2.1 [] 1 [0] sub true true horder hsub hst⟩

def sharedHandler : List (LeaseEvent String) :=
  arrive 0 0 "handler" ++ arrive 1 0 "handler" ++
    [.loopEnds 0, .dialogsLoopEnds 0, .resume 1, .unsubscribe 0 0, .released 0]

/-- **A shared handler is lost**: the old subscription's unsubscribe function takes it from the new one, which runs. -/
theorem shared_handler_lost :
    ¬ ∀ s : StreamLeases String, Runs.Reachable step (fun _ _ => True) start s → s.Settled → ∀ i ys, s.order = i :: ys →
      i ∉ s.unsubscribed → ∃ sub, s.subscriptions i = some sub ∧ sub.stage = .started true true ∧ sub.aborted = false ∧
        s.eventHandlers sub.platform = some sub.handler := by
  intro hall
  have hrun : Runs.run step start sharedHandler = some ((Runs.run step start sharedHandler).getD start) := rfl
  generalize hs : (Runs.run step start sharedHandler).getD start = s at hrun
  have horder : s.order = [1, 0] := by
    rw [← hs]
    rfl
  have hun : 1 ∉ s.unsubscribed := by
    rw [← hs]
    decide
  have hsettled : s.Settled := by
    rw [← hs]
    refine ⟨fun i sub hi => ?_, fun k => ?_⟩
    · match i with
      | 0 =>
        cases hi
        rfl
      | 1 =>
        cases hi
        rfl
      | n + 2 => cases hi
    · match k with
      | 0 => rfl
      | n + 1 => rfl
  obtain ⟨sub, hsub, -, -, hreg⟩ :=
    hall s (Runs.reachable_of_run (fun _ _ _ => trivial) .init hrun) hsettled 1 [0] horder hun
  rw [← hs] at hsub hreg
  cases hsub
  cases hreg

/-! ### Nothing waits for ever -/

/-- The steps that end an await; the other two are calls. -/
def EndsAwait : LeaseEvent H → Prop
  | .subscribe _ _ _ => False
  | .unsubscribe _ _ => False
  | _                => True

variable [DecidableEq H]

def GoesOn (s : StreamLeases H) : Prop := ∃ e, EndsAwait e ∧ (step s e).isSome = true

theorem Inv.over (h : Inv s) (hgo : ¬s.GoesOn) (hi : s.subscriptions i = some sub) (hab : sub.aborted = true)
    (hw : sub.stage.predecessor = none) : s.stopped i = true := by
  rw [stopped_eq hi]
  have hfresh := h.fresh i sub hi
  rw [hab] at hfresh
  cases hst : sub.stage with
  | waiting p => rw [hst] at hw; cases hw
  | superseded => rfl
  | started loop dialogs =>
    cases loop with
    | true => exact absurd ⟨.loopEnds i, trivial, by simp [step, hi, hst, hab]⟩ hgo
    | false =>
      cases dialogs with
      | true => exact absurd ⟨.dialogsLoopEnds i, trivial, by simp [step, hi, hst, hab]⟩ hgo
      | false => rfl
  | _ => cases hfresh (by rw [hst]; rfl)

/-- **No deadlock**: in every run, while a call is not settled, one of the awaits can end. -/
theorem settled_or_goes_on (h : Runs.Reachable step (fun _ _ => True) start s) : s.Settled ∨ s.GoesOn := by
  have hinv := inv_reachable h
  by_cases hgo : s.GoesOn
  · exact .inr hgo
  refine .inl ⟨fun i sub hi => ?_, fun k => ?_⟩
  · cases hst : sub.stage with
    | cleaning => exact absurd ⟨.cleaned i true, trivial, by simp [step, hi, hst]⟩ hgo
    | warming => exact absurd ⟨.warmed i, trivial, by simp [step, hi, hst]⟩ hgo
    | waiting p =>
      -- the predecessor that waits for nobody was aborted, so it is over
      obtain ⟨xs, ys, hs⟩ := append_of_mem ((hinv.took i sub hi).2 (by rw [hst]; rfl))
      obtain ⟨j, q, hj, hq⟩ := hinv.queue.exists_next hs ((waits_eq hi).trans (by rw [hst]; rfl))
      obtain ⟨subq, hsubq, hab⟩ := hinv.aborts j q hj
      obtain ⟨subj, hsubj, hw⟩ := bind_eq_some_iff.1 hj
      have hstop := hinv.over hgo hsubq hab ((waits_eq hsubq).symm.trans hq)
      cases hstj : subj.stage with
      | waiting p' =>
        rw [hstj] at hw
        obtain rfl := Option.some.inj hw
        refine absurd ⟨.resume j, trivial, ?_⟩ hgo
        simp only [step, hsubj, Option.bind_some, hstj, hstop, if_true]
        split <;> rfl
      | _ => rw [hstj] at hw; cases hw
    | _ => rfl
  · cases hk : s.unsubscribing k with
    | none => rfl
    | some i =>
      obtain ⟨-, sub, loop, dialogs, hi, hst, hab⟩ := hinv.stops k i hk
      have hstop := hinv.over hgo hi hab (by rw [hst]; rfl)
      exact absurd ⟨.released k, trivial, by simp [step, hk, hi, hstop]⟩ hgo

/-- The newer of two instances waits, and the older goes on. -/
theorem goes_on_takeover : ∃ s, Runs.run step start (arrive 0 0 "old" ++ arrive 1 1 "new") = some s ∧ s.GoesOn := by
  have hrun : Runs.run step start (arrive 0 0 "old" ++ arrive 1 1 "new") = some _ := rfl
  have hreachable := Runs.reachable_of_run (fun _ _ _ => trivial) .init hrun
  refine ⟨_, hrun, (settled_or_goes_on hreachable).resolve_left (fun hsettled => ?_)⟩
  cases hsettled.1 1 _ rfl

end StreamLeases
end Crossgram
