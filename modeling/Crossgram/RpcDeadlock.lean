import Mathlib.Data.Finset.Lattice.Fold
import Mathlib.Data.Set.Insert
import Crossgram.Lib.Waits
import Crossgram.RpcSession
/-!
# RpcDeadlock — when `invokeAfter` blocks a connection

A call takes its slot before it looks up what it is to be invoked after, and every message of a container is registered
before any runs, so that calls can wait for each other.  They cannot when each look-up finds only messages that are past
theirs: the waits then go back in the order of the look-ups (`Sound`).
-/
namespace Crossgram

open List

namespace RpcPhase

def past : RpcPhase → Bool
  | waiting _ | running | settling | completing | done => true
  | _                                                  => false

def order : RpcPhase → Nat
  | queued _    => 0
  | joined _    => 1
  | slotQueued  => 1
  | holding     => 2
  | waiting _   => 3
  | running     => 4
  | settling    => 5
  | completing  => 6
  | container _ => 6
  | done        => 7

/-- A task that neither awaits a transition, nor another task's request, nor the messages in it. -/
def started : RpcPhase → Bool
  | queued _ | joined _ | container _ => false
  | _                                 => true

theorem started_of_executing {p : RpcPhase} (h : p.executing = true) : p.started = true := by
  cases p <;> first | rfl | cases h

theorem started_of_later {p p' : RpcPhase} (h : p.started = true) (hlt : p.order < p'.order)
    (hc : ∀ ms, p' ≠ .container ms) : p'.started = true := by
  cases p' with
  | queued => cases p <;> simp [order] at hlt
  | joined => cases p <;> first | (simp [order] at hlt; done) | cases h
  | container ms => exact absurd rfl (hc ms)
  | _ => rfl

theorem past_of_later {p p' : RpcPhase} (h : p.past = true) (hlt : p.order < p'.order) (hc : ∀ ms, p' ≠ .container ms) :
    p'.past = true ∧ ∀ ds, p' ≠ .waiting ds := by
  cases p' with
  | container ms => exact absurd rfl (hc ms)
  | running => exact ⟨rfl, by simp⟩
  | settling => exact ⟨rfl, by simp⟩
  | completing => exact ⟨rfl, by simp⟩
  | done => exact ⟨rfl, by simp⟩
  | _ => cases p <;> first | (simp [order] at hlt; done) | cases h

end RpcPhase

namespace ServerSession

variable {s s' : ServerSession}

/-! ## The condition -/

inductive PastLookUp (s : ServerSession) : Nat → Prop
  | past {task : Nat} (h : (s.phase task).past = true) : PastLookUp s task
  | container {task : Nat} {members : List Nat} (h : s.phase task = .container members)
      (hm : ∀ member ∈ members, PastLookUp s member) : PastLookUp s task

def Orderly (s : ServerSession) : SessionEvent → Prop
  | .lookUp task sharedCompleted sharedProcessing =>
    ∀ own ∈ s.msgIdOf task, ∀ request ∈ s.requestOf task, request.method ≠ bindTempAuthKey →
      ∀ waits ∈ s.findDependencies own sharedCompleted sharedProcessing request.afterMessageIds,
        ∀ other ∈ waits, s.PastLookUp other
  | _ => True

/-! ## The invariant -/

inductive Below (s : ServerSession) (rank : Nat → Nat) (n : Nat) : Nat → Prop
  | past {task : Nat} (h : (s.phase task).past = true) (hr : ∀ ds, s.phase task = .waiting ds → rank task < n) :
      Below s rank n task
  | container {task : Nat} {members : List Nat} (h : s.phase task = .container members)
      (hm : ∀ member ∈ members, Below s rank n member) : Below s rank n task

def Callable (s : ServerSession) (task : Nat) : Prop := task < s.tasks.length ∧ ∀ ms, s.phase task ≠ .container ms

structure Sound (s : ServerSession) : Prop where
  queued : ∀ t p, s.phase t = .queued (some p) → p < t ∧ ∀ ms, s.phase p ≠ .container ms
  joined : ∀ t u, s.phase t = .joined u → u < s.tasks.length ∧ (s.phase u).started = true
  container : ∀ t ms, s.phase t = .container ms → ∀ m ∈ ms, t < m ∧ m < s.tasks.length
  ranked : ∃ rank : Nat → Nat, ∀ t ds, s.phase t = .waiting ds → ∀ w ∈ ds, w < s.tasks.length ∧ s.Below rank (rank t) w
  transition : ∀ p ∈ s.authorizationTransitionProcessing, s.Callable p
  processing : ∀ e ∈ s.processingMessages, e.2 < s.tasks.length

def Waiters (s : ServerSession) : Prop := s.rpcWaiters.Nodup ∧ ∀ w ∈ s.rpcWaiters, s.phase w = .slotQueued

/-! ## No set is blocked -/

section Ends

open Waits (Ends)

theorem Below.ends {rank : Nat → Nat}
    (hr : ∀ t ds, s.phase t = .waiting ds → ∀ w ∈ ds, w < s.tasks.length ∧ s.Below rank (rank t) w) (n : Nat) : ∀ {w : Nat}, s.Below rank n w → Ends s.Awaits w := by
  induction n using Nat.strong_induction_on with
  | _ n ih =>
    intro w hw
    induction hw with
    | @past w hp hlt =>
      refine .intro (fun u hu => ?_)
      cases hphase : s.phase w with
      | waiting ds =>
        simp only [Awaits, hphase] at hu
        exact ih (rank w) (hlt ds hphase) (hr w ds hphase u hu.1).2
      | _ => simp_all [Awaits, RpcPhase.past]
    | @container w ms hc _ ihm =>
      refine .intro (fun u hu => ?_)
      simp only [Awaits, hc] at hu
      exact ihm u hu.1

theorem Sound.ends_started (h : Sound s) {t : Nat} (ht : (s.phase t).started = true) : Ends s.Awaits t := by
  obtain ⟨rank, hr⟩ := h.ranked
  have hholder : ∀ {u}, (s.phase u).holdsSlot = true → Ends s.Awaits u := fun {u} hu => by
    cases hphase : s.phase u with
    | waiting ds =>
      refine .intro (fun w hw => ?_)
      simp only [Awaits, hphase] at hw
      exact (hr u ds hphase w hw.1).2.ends hr _
    | holding => exact .of_none (fun w hw => by simp [Awaits, hphase] at hw)
    | running => exact .of_none (fun w hw => by simp [Awaits, hphase] at hw)
    | _ => simp [hphase, RpcPhase.holdsSlot] at hu
  cases hphase : s.phase t with
  | slotQueued =>
    refine .intro (fun u hu => hholder ?_)
    simpa only [Awaits, hphase] using hu
  | holding => exact hholder (by rw [hphase]; rfl)
  | waiting => exact hholder (by rw [hphase]; rfl)
  | running => exact hholder (by rw [hphase]; rfl)
  | settling => exact .of_none (fun w hw => by simp [Awaits, hphase] at hw)
  | completing => exact .of_none (fun w hw => by simp [Awaits, hphase] at hw)
  | done => exact .of_none (fun w hw => by simp [Awaits, hphase] at hw)
  | _ => simp [hphase, RpcPhase.started] at ht

theorem Sound.ends_call (h : Sound s) (t : Nat) (ht : ∀ ms, s.phase t ≠ .container ms) : Ends s.Awaits t := by
  induction t using Nat.strong_induction_on with
  | _ t ih =>
    by_cases hs : (s.phase t).started = true
    · exact h.ends_started hs
    · refine .intro (fun u hu => ?_)
      cases hphase : s.phase t with
      | queued preceding =>
        simp only [Awaits, hphase] at hu
        obtain ⟨rfl, -⟩ := hu
        obtain ⟨hlt, hc⟩ := h.queued t u hphase
        exact ih u hlt hc
      | joined v =>
        simp only [Awaits, hphase] at hu
        obtain ⟨rfl, -⟩ := hu
        exact h.ends_started (h.joined t v hphase).2
      | container ms => exact absurd hphase (ht ms)
      | _ => simp [hphase, RpcPhase.started] at hs

/-- **Every chain of waits of a sound session ends.** -/
theorem Sound.ends (h : Sound s) (t : Nat) : Ends s.Awaits t := by
  have key : ∀ n t, s.tasks.length - t ≤ n → Ends s.Awaits t := by
    intro n
    induction n with
    | zero =>
      intro t hn
      refine h.ends_call t (fun ms hc => ?_)
      rw [s.phase_of_length (by omega)] at hc
      cases hc
    | succ n ih =>
      intro t hn
      cases hphase : s.phase t with
      | container ms =>
        refine .intro (fun u hu => ih u ?_)
        simp only [Awaits, hphase] at hu
        have := h.container t ms hphase u hu.1
        omega
      | _ => exact h.ends_call t (by simp [hphase])
  exact key _ t (le_refl _)

end Ends

/-! ## Phases go up -/

structure Moves (s s' : ServerSession) : Prop where
  length : s'.tasks.length = s.tasks.length
  forward : ∀ t, s'.phase t = s.phase t ∨ (s.phase t).order < (s'.phase t).order
  container : ∀ t ms, s'.phase t = .container ms → s.phase t = .container ms
  joined : ∀ t u, s'.phase t = .joined u → s.phase t = .joined u ∨ (s.phase u).executing = true
  waiting : ∀ t ds, s'.phase t = .waiting ds → s.phase t = .waiting ds ∨
    (s.phase t).past = false ∧ ∀ w ∈ ds, w < s.tasks.length ∧ s.PastLookUp w
  transition : s'.authorizationTransitionProcessing = s.authorizationTransitionProcessing
  processing : ∀ e ∈ s'.processingMessages, e ∈ s.processingMessages

theorem Moves.of_tasks (ht : s'.tasks = s.tasks)
    (ha : s'.authorizationTransitionProcessing = s.authorizationTransitionProcessing)
    (hp : ∀ e ∈ s'.processingMessages, e ∈ s.processingMessages) : Moves s s' := by
  have hphase : ∀ t, s'.phase t = s.phase t := fun t => by
    unfold phase
    rw [ht]
  exact {
    length := by rw [ht]
    forward := fun t => Or.inl (hphase t)
    container := fun t ms h => (hphase t).symm.trans h
    joined := fun t u h => Or.inl ((hphase t).symm.trans h)
    waiting := fun t ds h => Or.inl ((hphase t).symm.trans h)
    transition := ha
    processing := hp }

variable {t : Nat}

theorem Moves.started (h : Moves s s') (ht : (s.phase t).started = true) : (s'.phase t).started = true := by
  rcases h.forward t with heq | hlt
  · rw [heq]
    exact ht
  · refine RpcPhase.started_of_later ht hlt (fun ms hc => ?_)
    rw [h.container t ms hc] at ht
    cases ht

theorem Moves.past (h : Moves s s') (ht : (s.phase t).past = true) :
    (s'.phase t).past = true ∧ ∀ ds, s'.phase t = .waiting ds → s.phase t = .waiting ds := by
  rcases h.forward t with heq | hlt
  · rw [heq]
    exact ⟨ht, fun ds hd => hd⟩
  · have hc : ∀ ms, s'.phase t ≠ .container ms := fun ms hc => by
      rw [h.container t ms hc] at ht
      cases ht
    obtain ⟨hp, hw⟩ := RpcPhase.past_of_later ht hlt hc
    exact ⟨hp, fun ds hd => absurd hd (hw ds)⟩

theorem Moves.of_container (h : Moves s s') {ms : List Nat} (ht : s.phase t = .container ms) :
    s'.phase t = .container ms ∨ (s'.phase t).past = true ∧ ∀ ds, s'.phase t ≠ .waiting ds := by
  rcases h.forward t with heq | hlt
  · exact Or.inl (heq.trans ht)
  · rw [ht] at hlt
    cases hphase : s'.phase t with
    | done => exact Or.inr ⟨rfl, by simp⟩
    | _ => simp [hphase, RpcPhase.order] at hlt

theorem Below.moves (h : Moves s s') {rank rank' : Nat → Nat} {n n' : Nat}
    (hrank : ∀ t ds, s.phase t = .waiting ds → rank t < n → rank' t < n') {w : Nat} (hw : s.Below rank n w) :
    s'.Below rank' n' w := by
  induction hw with
  | @past w hp hr =>
    obtain ⟨hp', hds⟩ := h.past hp
    exact .past hp' (fun ds hd => hrank w ds (hds ds hd) (hr ds (hds ds hd)))
  | @container w ms hc _ ih =>
    rcases h.of_container hc with hc' | ⟨hp, hds⟩
    · exact .container hc' ih
    · exact .past hp (fun ds hd => absurd hd (hds ds))

theorem PastLookUp.toBelow {rank : Nat → Nat} {n : Nat} (hrank : ∀ t ds, s.phase t = .waiting ds → rank t < n) {w : Nat}
    (hw : s.PastLookUp w) : s.Below rank n w := by
  induction hw with
  | past hp => exact .past hp (fun ds hd => hrank _ ds hd)
  | container hc _ ih => exact .container hc ih

theorem exists_above (rank : Nat → Nat) (n : Nat) : ∃ top, ∀ t < n, rank t < top :=
  ⟨(Finset.range n).sup rank + 1, fun _ ht => Nat.lt_succ_of_le (Finset.le_sup (Finset.mem_range.2 ht))⟩

/-- **A step of tasks that are there keeps the waits going back**: who starts to wait gets the highest rank. -/
theorem Sound.moves (h : Sound s) (hm : Moves s s') : Sound s' := by
  obtain ⟨rank, hrank⟩ := h.ranked
  have hcontainer : ∀ t, (∀ ms, s.phase t ≠ .container ms) → ∀ ms, s'.phase t ≠ .container ms := fun t ht ms hc =>
    ht ms (hm.container t ms hc)
  obtain ⟨top, htop⟩ : ∃ top, ∀ t ds, s.phase t = .waiting ds → rank t < top := by
    obtain ⟨top, htop⟩ := exists_above rank s.tasks.length
    refine ⟨top, fun t ds ht => htop t ?_⟩
    by_contra hge
    rw [s.phase_of_length (Nat.le_of_not_lt hge)] at ht
    cases ht
  exact {
    queued := fun t p ht => by
      rcases hm.forward t with heq | hlt
      · obtain ⟨hp, hc⟩ := h.queued t p (heq.symm.trans ht)
        exact ⟨hp, hcontainer p hc⟩
      · simp [ht, RpcPhase.order] at hlt
    joined := fun t u ht => by
      rw [hm.length]
      rcases hm.joined t u ht with hold | hex
      · exact ⟨(h.joined t u hold).1, hm.started (h.joined t u hold).2⟩
      · refine ⟨?_, hm.started (RpcPhase.started_of_executing hex)⟩
        by_contra hge
        rw [s.phase_of_length (Nat.le_of_not_lt hge)] at hex
        cases hex
    container := fun t ms ht m hmem => by
      rw [hm.length]
      exact h.container t ms (hm.container t ms ht) m hmem
    ranked := by
      refine ⟨fun t => if (s.phase t).past = true then rank t else top, fun t ds ht w hw => ?_⟩
      have hpast : ∀ t ds, s.phase t = .waiting ds → (s.phase t).past = true := fun t ds h => by rw [h]; rfl
      rw [hm.length]
      rcases hm.waiting t ds ht with hold | ⟨hfresh, hall⟩
      · obtain ⟨hlt, hb⟩ := hrank t ds hold w hw
        refine ⟨hlt, ?_⟩
        show s'.Below _ (if (s.phase t).past = true then rank t else top) w
        rw [if_pos (hpast t ds hold)]
        exact hb.moves hm (fun u ds' hu hlt => by rw [if_pos (hpast u ds' hu)]; exact hlt)
      · refine ⟨(hall w hw).1, ?_⟩
        show s'.Below _ (if (s.phase t).past = true then rank t else top) w
        rw [hfresh, if_neg (by simp)]
        exact ((hall w hw).2.toBelow htop).moves hm (fun u ds' hu hlt => by rw [if_pos (hpast u ds' hu)]; exact hlt)
    transition := fun p hp => by
      obtain ⟨hlt, hc⟩ := h.transition p (hm.transition ▸ hp)
      exact ⟨hm.length ▸ hlt, hcontainer p hc⟩
    processing := fun e he => hm.length ▸ h.processing e (hm.processing e he) }

variable {p : RpcPhase}

theorem moves_setPhase (hlt : (s.phase t).order < p.order) (hc : ∀ ms, p ≠ .container ms)
    (hj : ∀ u, p = .joined u → (s.phase u).executing = true)
    (hw : ∀ ds, p = .waiting ds → (s.phase t).past = false ∧ ∀ w ∈ ds, w < s.tasks.length ∧ s.PastLookUp w) :
    Moves s (s.setPhase t p) where
  length := s.length_setPhase t p
  forward := fun u => by
    rw [phase_setPhase]
    by_cases h : u = t ∧ t < s.tasks.length
    · rw [if_pos h, h.1]
      exact Or.inr hlt
    · rw [if_neg h]
      exact Or.inl rfl
  container := fun u ms hu => by
    rw [phase_setPhase] at hu
    split at hu
    · exact absurd hu (hc ms)
    · exact hu
  joined := fun u v hu => by
    rw [phase_setPhase] at hu
    split at hu
    · exact Or.inr (hj v hu)
    · exact Or.inl hu
  waiting := fun u ds hu => by
    rw [phase_setPhase] at hu
    split at hu
    · rename_i h
      rw [h.1]
      exact Or.inr (hw ds hu)
    · exact Or.inl hu
  transition := rfl
  processing := fun _ he => he

theorem Sound.setPhase (h : Sound s) (hlt : (s.phase t).order < p.order)
    (hp : p.started = true) (hw : ∀ ds, p ≠ .waiting ds) : Sound (s.setPhase t p) :=
  h.moves (moves_setPhase hlt (fun ms hc => by rw [hc] at hp; cases hp) (fun u hj => by rw [hj] at hp; cases hp)
    (fun ds hd => absurd hd (hw ds)))

theorem Sound.of_tasks (h : Sound s) (ht : s'.tasks = s.tasks)
    (ha : s'.authorizationTransitionProcessing = s.authorizationTransitionProcessing)
    (hp : ∀ e ∈ s'.processingMessages, e ∈ s.processingMessages) : Sound s' := h.moves (.of_tasks ht ha hp)

theorem Waiters.setPhase (h : Waiters s) (ht : s.phase t ≠ .slotQueued) :
    Waiters (s.setPhase t p) := by
  refine ⟨h.1, fun w hw => ?_⟩
  rw [phase_setPhase, if_neg]
  · exact h.2 w hw
  · rintro ⟨rfl, -⟩
    exact ht (h.2 w hw)

theorem sound_releaseRpcSlot (h : Sound s) (hw : Waiters s) : Sound s.releaseRpcSlot ∧ Waiters s.releaseRpcSlot := by
  unfold releaseRpcSlot
  split
  · exact ⟨h.of_tasks rfl rfl (fun _ he => he), hw.1, hw.2⟩
  · rename_i next rest hqueue
    obtain ⟨hnodup, hphase⟩ := hw
    rw [hqueue] at hnodup hphase
    have hnext := hphase next mem_cons_self
    have hrest : ∀ (p : RpcPhase), ∀ w ∈ rest, (s.setPhase next p).phase w = .slotQueued := fun p w hmem => by
      rw [phase_setPhase, if_neg]
      · exact hphase w (mem_cons_of_mem _ hmem)
      · rintro ⟨rfl, -⟩
        exact (nodup_cons.1 hnodup).1 hmem
    split
    · have hs : Sound (s.setPhase next .completing) := h.setPhase (by rw [hnext]; decide) rfl (by simp)
      exact ⟨hs.of_tasks rfl rfl (fun _ he => he), (nodup_cons.1 hnodup).2, hrest _⟩
    · have hs : Sound (s.setPhase next .holding) := h.setPhase (by rw [hnext]; decide) rfl (by simp)
      exact ⟨hs.of_tasks rfl rfl (fun _ he => he), (nodup_cons.1 hnodup).2, hrest _⟩

theorem sound_respond (h : Sound s) (hw : Waiters s) (hlt : (s.phase t).order < RpcPhase.order .settling)
    (ht : s.phase t ≠ .slotQueued) :
    Sound (s.setPhase t .settling).releaseRpcSlot ∧ Waiters (s.setPhase t .settling).releaseRpcSlot :=
  sound_releaseRpcSlot (h.setPhase hlt rfl (by simp)) (hw.setPhase ht)

theorem sound_close (h : Sound s) (hw : Waiters s) : Sound s.close ∧ Waiters s.close := by
  have key : ∀ (waiters : List Nat) (s : ServerSession), Sound s → waiters.Nodup →
      (∀ w ∈ waiters, s.phase w = .slotQueued) →
        Sound (waiters.foldl (fun s task => s.setPhase task .completing) s) := by
    intro waiters
    induction waiters with
    | nil => exact fun s h _ _ => h
    | cons w waiters ih =>
      intro s h hnodup hphase
      have hnodup := nodup_cons.1 hnodup
      refine ih _ (h.setPhase (by rw [hphase w mem_cons_self]; decide) rfl (by simp)) hnodup.2 (fun v hv => ?_)
      rw [phase_setPhase, if_neg]
      · exact hphase v (mem_cons_of_mem _ hv)
      · rintro ⟨rfl, -⟩
        exact hnodup.1 hv
  have hsound := key s.rpcWaiters s h hw.1 hw.2
  exact ⟨hsound.of_tasks rfl rfl (fun _ he => he), nodup_nil, fun _ hm => (nomatch hm)⟩

theorem sound_acquireRpcSlot (h : Sound s) (hw : Waiters s) {preceding : Option Nat}
    (ht : s.phase t = .queued preceding) : Sound (s.acquireRpcSlot t) ∧ Waiters (s.acquireRpcSlot t) := by
  have hne : s.phase t ≠ .slotQueued := by simp [ht]
  have hup : ∀ p : RpcPhase, 0 < p.order → p.started = true → (∀ ds, p ≠ .waiting ds) → Sound (s.setPhase t p) :=
    fun p hp => h.setPhase (by rw [ht]; exact hp)
  unfold acquireRpcSlot
  split
  · exact ⟨(hup .holding (by decide) rfl (by simp)).of_tasks rfl rfl (fun _ he => he), hw.setPhase hne⟩
  · split
    · exact ⟨hup .settling (by decide) rfl (by simp), hw.setPhase hne⟩
    · refine ⟨(hup .slotQueued (by decide) rfl (by simp)).of_tasks rfl rfl (fun _ he => he), ?_, fun w hmem => ?_⟩
      · refine nodup_append.2 ⟨hw.1, pairwise_singleton _ _, fun v hv u hu => ?_⟩
        rw [mem_singleton.1 hu]
        exact fun heq => hne (heq ▸ hw.2 v hv)
      · show (s.setPhase t .slotQueued).phase w = .slotQueued
        rw [phase_setPhase]
        split
        · rfl
        · rename_i hno
          rcases mem_append.1 hmem with hmem | hmem
          · exact hw.2 w hmem
          · rw [mem_singleton] at hmem
            have hge : ¬t < s.tasks.length := fun hlt => hno ⟨hmem, hlt⟩
            rw [s.phase_of_length (Nat.le_of_not_lt hge)] at ht
            cases ht

theorem findDependencies_processing {own : Int} {sharedCompleted sharedProcessing : List Int} :
    ∀ {ids : List Int} {waits : List Nat}, s.findDependencies own sharedCompleted sharedProcessing ids = some waits →
      ∀ w ∈ waits, ∃ e ∈ s.processingMessages, e.2 = w
  | [], waits, h, w, hw => by
    cases h
    cases hw
  | dependency :: ids, waits, h, w, hw => by
    rw [findDependencies] at h
    cases hrest : s.findDependencies own sharedCompleted sharedProcessing ids with
    | none => simp [hrest] at h
    | some rest =>
      have ih := findDependencies_processing hrest
      rw [hrest] at h
      simp only at h
      split at h
      · cases h
      · split at h
        · cases h
          exact ih w hw
        · split at h
          · rename_i task hget
            cases h
            rcases mem_cons.1 hw with rfl | hw
            · exact ⟨_, Maps.mem_of_get hget, rfl⟩
            · exact ih w hw
          · split at h
            · cases h
              exact ih w hw
            · cases h

/-! ## Arrival -/

/-- The tasks a message adds: calls behind an earlier one, containers of later ones. -/
def Fresh (s : ServerSession) (task : Nat) : Prop :=
  match s.phase task with
  | .queued preceding  => ∀ p ∈ preceding, p < task ∧ ∀ ms, s.phase p ≠ .container ms
  | .container members => ∀ m ∈ members, task < m ∧ m < s.tasks.length
  | .completing        => True
  | _                  => False

structure Received (s s' : ServerSession) : Prop where
  length : s.tasks.length ≤ s'.tasks.length
  old : ∀ t < s.tasks.length, s'.phase t = s.phase t
  fresh : ∀ t, s.tasks.length ≤ t → t < s'.tasks.length → s'.Fresh t
  transition : ∀ p ∈ s'.authorizationTransitionProcessing, s'.Callable p
  processing : ∀ e ∈ s'.processingMessages, e ∈ s.processingMessages ∨ e.2 < s'.tasks.length
  rpcWaiters : s'.rpcWaiters = s.rpcWaiters

theorem Received.refl (h : ∀ p ∈ s.authorizationTransitionProcessing, s.Callable p) : Received s s where
  length := le_refl _
  old := fun _ _ => rfl
  fresh := fun t h h' => by omega
  transition := h
  processing := fun _ he => Or.inl he
  rpcWaiters := rfl

theorem Received.trans {s'' : ServerSession} (h : Received s s') (h' : Received s' s'') : Received s s'' where
  length := le_trans h.length h'.length
  old := fun t ht => (h'.old t (lt_of_lt_of_le ht h.length)).trans (h.old t ht)
  fresh := fun t hge hlt => by
    by_cases hin : t < s'.tasks.length
    · have hf := h.fresh t hge hin
      unfold Fresh at hf ⊢
      rw [h'.old t hin]
      cases hphase : s'.phase t with
      | queued preceding =>
        rw [hphase] at hf
        intro p hp
        refine ⟨(hf p hp).1, fun ms => ?_⟩
        rw [h'.old p (lt_trans (hf p hp).1 hin)]
        exact (hf p hp).2 ms
      | container members =>
        rw [hphase] at hf
        exact fun m hm => ⟨(hf m hm).1, lt_of_lt_of_le (hf m hm).2 h'.length⟩
      | completing => trivial
      | _ => rw [hphase] at hf; exact hf
    · exact h'.fresh t (Nat.le_of_not_lt hin) hlt
  transition := h'.transition
  processing := fun e he => (h'.processing e he).elim
    (fun he => (h.processing e he).imp id (fun hlt => lt_of_lt_of_le hlt h'.length)) Or.inr
  rpcWaiters := h'.rpcWaiters.trans h.rpcWaiters

variable {request : Option RpcRequest} {msgId : Int}

theorem phase_register (t : Nat) :
    (s.register msgId request p).phase t = if t = s.tasks.length then p else s.phase t := by
  unfold register phase
  rw [getElem?_append]
  by_cases hlt : t < s.tasks.length
  · rw [if_pos hlt, if_neg (Nat.ne_of_lt hlt)]
  · rw [if_neg hlt, getElem?_eq_none (Nat.le_of_not_lt hlt)]
    by_cases heq : t = s.tasks.length
    · simp [heq]
    · rw [if_neg heq, getElem?_eq_none (by simp; omega)]

theorem length_register :
    (s.register msgId request p).tasks.length = s.tasks.length + 1 := by
  simp [register]

theorem received_register (ht : ∀ p ∈ s.authorizationTransitionProcessing, s.Callable p)
    (hf : (s.register msgId request p).Fresh s.tasks.length) : Received s (s.register msgId request p) where
  length := by
    rw [length_register]
    exact Nat.le_succ _
  old := fun t hlt => by rw [phase_register, if_neg (Nat.ne_of_lt hlt)]
  fresh := fun t hge hlt => by
    rw [length_register] at hlt
    have heq : t = s.tasks.length := by omega
    rw [heq]
    exact hf
  transition := fun q hq => by
    obtain ⟨hlt, hc⟩ := ht q hq
    refine ⟨by rw [length_register]; omega, fun ms => ?_⟩
    rw [phase_register, if_neg (Nat.ne_of_lt hlt)]
    exact hc ms
  processing := fun e he => by
    have he : e ∈ Maps.set s.processingMessages msgId s.tasks.length := he
    unfold Maps.set at he
    split at he
    · obtain ⟨e', he', heq⟩ := mem_map.1 he
      split at heq
      · rw [← heq, length_register]
        exact Or.inr (Nat.lt_succ_self _)
      · exact Or.inl (heq ▸ he')
    · rcases mem_append.1 he with he | he
      · exact Or.inl he
      · rw [mem_singleton.1 he, length_register]
        exact Or.inr (Nat.lt_succ_self _)
  rpcWaiters := rfl

theorem received_enqueueRpcCall (msgId : Int) (request : RpcRequest)
    (ht : ∀ p ∈ s.authorizationTransitionProcessing, s.Callable p) :
    Received s (s.enqueueRpcCall msgId request) ∧ (s.enqueueRpcCall msgId request).tasks.length = s.tasks.length + 1 := by
  have hr : Received s (s.register msgId (some request) (.queued s.authorizationTransitionProcessing)) := by
    refine received_register ht ?_
    unfold Fresh
    rw [phase_register, if_pos rfl]
    intro p hp
    obtain ⟨hlt, hc⟩ := ht p hp
    refine ⟨hlt, fun ms => ?_⟩
    rw [phase_register, if_neg (Nat.ne_of_lt hlt)]
    exact hc ms
  unfold enqueueRpcCall
  simp only
  split
  · refine ⟨{ hr with transition := fun p hp => ?_ }, length_register⟩
    cases hp
    refine ⟨?_, fun ms => ?_⟩
    · show s.tasks.length < (s.register msgId (some request) (.queued s.authorizationTransitionProcessing)).tasks.length
      rw [length_register]
      exact Nat.lt_succ_self _
    · show (s.register msgId (some request) (.queued s.authorizationTransitionProcessing)).phase s.tasks.length ≠ _
      rw [phase_register, if_pos rfl]
      simp
  · exact ⟨hr, length_register⟩

theorem Received.members (h : Received s s') {members : List Nat}
    (hc : s'.phase s.tasks.length = .container []) (hlt : s.tasks.length < s'.tasks.length)
    (hm : ∀ m ∈ members, s.tasks.length < m ∧ m < s'.tasks.length) :
    Received s (s'.setPhase s.tasks.length (.container members)) := by
  have hother : ∀ t, t ≠ s.tasks.length → (s'.setPhase s.tasks.length (.container members)).phase t = s'.phase t :=
    fun t ht => by rw [phase_setPhase, if_neg (fun hc => ht hc.1)]
  have hcall : ∀ p, (∀ ms, s'.phase p ≠ .container ms) →
      ∀ ms, (s'.setPhase s.tasks.length (.container members)).phase p ≠ .container ms := fun p hp ms => by
    rw [hother p (fun heq => hp [] (heq ▸ hc))]
    exact hp ms
  exact {
    length := by rw [length_setPhase]; exact h.length
    old := fun t ht => by rw [hother t (Nat.ne_of_lt ht), h.old t ht]
    fresh := fun t hge hlt' => by
      rw [length_setPhase] at hlt'
      unfold Fresh
      by_cases heq : t = s.tasks.length
      · rw [phase_setPhase, if_pos ⟨heq, hlt⟩, heq]
        intro m hmem
        rw [length_setPhase]
        exact hm m hmem
      · have hf := h.fresh t hge hlt'
        unfold Fresh at hf
        rw [hother t heq]
        cases hphase : s'.phase t with
        | queued preceding =>
          rw [hphase] at hf
          exact fun p hp => ⟨(hf p hp).1, hcall p (hf p hp).2⟩
        | container ms =>
          rw [hphase] at hf
          intro m hmem
          rw [length_setPhase]
          exact hf m hmem
        | completing => trivial
        | _ => rw [hphase] at hf; exact hf
    transition := fun p hp => by
      obtain ⟨hlt', hc'⟩ := h.transition p hp
      exact ⟨by rw [length_setPhase]; exact hlt', hcall p hc'⟩
    processing := fun e he => by
      rw [length_setPhase]
      exact h.processing e he
    rpcWaiters := h.rpcWaiters }

mutual

theorem received_receive : ∀ (message : ClientMessage) (s : ServerSession),
    (∀ p ∈ s.authorizationTransitionProcessing, s.Callable p) →
      Received s (receive message s) ∧ s.tasks.length < (receive message s).tasks.length
  | .container msgId messages, s, ht => by
    have hr : Received s (s.register msgId none (.container [])) := by
      refine received_register ht ?_
      unfold Fresh
      rw [phase_register, if_pos rfl]
      exact fun m hm => (nomatch hm)
    have hlen : (s.register msgId none (.container [])).tasks.length = s.tasks.length + 1 := length_register
    obtain ⟨hinner, hmembers⟩ := received_receiveAll messages _ hr.transition
    have hlt : s.tasks.length < (receiveAll messages (s.register msgId none (.container []))).1.tasks.length := by
      have := hinner.length
      omega
    rw [receive]
    refine ⟨(hr.trans hinner).members ?_ hlt (fun m hm => ?_), by rw [length_setPhase]; exact hlt⟩
    · rw [hinner.old _ (by omega), phase_register, if_pos rfl]
    · have := hmembers m hm
      omega
  | .rpc msgId request, s, ht => by
    rw [receive]
    obtain ⟨hr, hlen⟩ := received_enqueueRpcCall msgId request ht
    exact ⟨hr, by omega⟩
  | .other msgId, s, ht => by
    rw [receive, length_register]
    refine ⟨received_register ht ?_, Nat.lt_succ_self _⟩
    unfold Fresh
    rw [phase_register, if_pos rfl]
    trivial

theorem received_receiveAll : ∀ (messages : List ClientMessage) (s : ServerSession),
    (∀ p ∈ s.authorizationTransitionProcessing, s.Callable p) → Received s (receiveAll messages s).1 ∧
      ∀ m ∈ (receiveAll messages s).2, s.tasks.length ≤ m ∧ m < (receiveAll messages s).1.tasks.length
  | [], s, ht => ⟨.refl ht, fun _ hm => (nomatch hm)⟩
  | message :: messages, s, ht => by
    obtain ⟨hfirst, hlt⟩ := received_receive message s ht
    obtain ⟨hrest, hmembers⟩ := received_receiveAll messages _ hfirst.transition
    rw [receiveAll]
    refine ⟨hfirst.trans hrest, fun m hm => ?_⟩
    have hlen := hrest.length
    rcases mem_cons.1 hm with rfl | hm
    · exact ⟨le_refl _, lt_of_lt_of_le hlt hlen⟩
    · exact ⟨le_trans (le_of_lt hlt) (hmembers m hm).1, (hmembers m hm).2⟩

end

/-- **An arrival keeps the waits going back.** -/
theorem Sound.received (h : Sound s) (hr : Received s s') : Sound s' := by
  obtain ⟨rank, hrank⟩ := h.ranked
  have hold : ∀ {t}, t < s.tasks.length → s'.phase t = s.phase t := fun ht => hr.old _ ht
  have hcases : ∀ t, t < s.tasks.length ∨ (s.tasks.length ≤ t ∧ t < s'.tasks.length ∧ s'.Fresh t) ∨
      s'.phase t = .done := fun t => by
    by_cases hlt : t < s.tasks.length
    · exact Or.inl hlt
    · by_cases hlt' : t < s'.tasks.length
      · exact Or.inr (Or.inl ⟨by omega, hlt', hr.fresh t (by omega) hlt'⟩)
      · exact Or.inr (Or.inr (s'.phase_of_length (by omega)))
  have hbelow : ∀ {n w}, w < s.tasks.length → s.Below rank n w → s'.Below rank n w := fun {n w} hw hb => by
    induction hb with
    | @past w hp hlt => exact .past (by rw [hold hw]; exact hp) (fun ds hd => hlt ds (by rw [← hold hw]; exact hd))
    | @container w ms hc _ ih =>
      exact .container (by rw [hold hw]; exact hc) (fun m hm => ih m hm (h.container w ms hc m hm).2)
  exact {
    queued := fun t p ht => by
      rcases hcases t with hlt | ⟨hge, hlt, hf⟩ | hdone
      · rw [hold hlt] at ht
        obtain ⟨hp, hc⟩ := h.queued t p ht
        refine ⟨hp, fun ms => ?_⟩
        rw [hold (lt_trans hp hlt)]
        exact hc ms
      · simp only [Fresh, ht] at hf
        exact hf p rfl
      · rw [hdone] at ht
        cases ht
    joined := fun t u ht => by
      rcases hcases t with hlt | ⟨hge, hlt, hf⟩ | hdone
      · rw [hold hlt] at ht
        obtain ⟨hult, hu⟩ := h.joined t u ht
        exact ⟨lt_of_lt_of_le hult hr.length, by rw [hold hult]; exact hu⟩
      · simp only [Fresh, ht] at hf
      · rw [hdone] at ht
        cases ht
    container := fun t ms ht m hm => by
      rcases hcases t with hlt | ⟨hge, hlt, hf⟩ | hdone
      · rw [hold hlt] at ht
        exact ⟨(h.container t ms ht m hm).1, lt_of_lt_of_le (h.container t ms ht m hm).2 hr.length⟩
      · simp only [Fresh, ht] at hf
        exact hf m hm
      · rw [hdone] at ht
        cases ht
    ranked := by
      refine ⟨rank, fun t ds ht w hw => ?_⟩
      rcases hcases t with hlt | ⟨hge, hlt, hf⟩ | hdone
      · rw [hold hlt] at ht
        obtain ⟨hwlt, hb⟩ := hrank t ds ht w hw
        exact ⟨lt_of_lt_of_le hwlt hr.length, hbelow hwlt hb⟩
      · simp only [Fresh, ht] at hf
      · rw [hdone] at ht
        cases ht
    transition := hr.transition
    processing := fun e he => (hr.processing e he).elim
      (fun he => lt_of_lt_of_le (h.processing e he) hr.length) id }

/-! ## Runs -/

theorem sound_empty : Sound empty := by
  have hdone : ∀ t, empty.phase t = .done := fun t => empty.phase_of_length (Nat.zero_le t)
  exact {
    queued := fun t p ht => by rw [hdone] at ht; cases ht
    joined := fun t u ht => by rw [hdone] at ht; cases ht
    container := fun t ms ht => by rw [hdone] at ht; cases ht
    ranked := ⟨fun _ => 0, fun t ds ht => by rw [hdone] at ht; cases ht⟩
    transition := fun _ hp => (nomatch hp)
    processing := fun _ he => (nomatch he) }

theorem sound_handleRpcCall (h : Sound s) (hw : Waiters s) {preceding : Option Nat} {request : RpcRequest}
    {outcome : CallOutcome} (ht : s.phase t = .queued preceding) (hs : s.handleRpcCall t request outcome = some s') :
    Sound s' ∧ Waiters s' := by
  have hne : s.phase t ≠ .slotQueued := by simp [ht]
  have hup : ∀ p : RpcPhase, 0 < p.order → (s.phase t).order < p.order := fun p hp => by rw [ht]; exact hp
  cases outcome with
  | executes =>
    cases hs
    exact sound_acquireRpcSlot h hw ht
  | joins other =>
    simp only [handleRpcCall] at hs
    split at hs
    · rename_i hok
      cases hs
      refine ⟨h.moves (moves_setPhase (hup _ (by simp [RpcPhase.order])) (by simp) (fun u hu => ?_) (by simp)), hw.setPhase hne⟩
      cases hu
      exact hok.2.2.2
    · cases hs
  | answered =>
    simp only [handleRpcCall] at hs
    split at hs
    · cases hs
      exact ⟨h.setPhase (hup _ (by simp [RpcPhase.order])) rfl (by simp), hw.setPhase hne⟩
    · cases hs

theorem sound_executeRpcCall (h : Sound s) (hw : Waiters s) {own : Int} {request : RpcRequest}
    {sharedCompleted sharedProcessing : List Int} (ht : s.phase t = .holding)
    (hok : request.method ≠ bindTempAuthKey →
      ∀ waits ∈ s.findDependencies own sharedCompleted sharedProcessing request.afterMessageIds,
        ∀ other ∈ waits, s.PastLookUp other) :
    Sound (s.executeRpcCall t own request sharedCompleted sharedProcessing) ∧
      Waiters (s.executeRpcCall t own request sharedCompleted sharedProcessing) := by
  have hne : s.phase t ≠ .slotQueued := by simp [ht]
  have hrunning : Sound (s.setPhase t .running) ∧ Waiters (s.setPhase t .running) :=
    ⟨h.setPhase (by simp [ht, RpcPhase.order]) rfl (by simp), hw.setPhase hne⟩
  unfold executeRpcCall
  by_cases hbind : request.method = bindTempAuthKey
  · rw [if_pos hbind]
    exact hrunning
  · rw [if_neg hbind]
    cases hfind : s.findDependencies own sharedCompleted sharedProcessing request.afterMessageIds with
    | none => exact sound_respond h hw (by simp [ht, RpcPhase.order]) hne
    | some waits =>
      cases waits with
      | nil => exact hrunning
      | cons w ws =>
        refine ⟨h.moves (moves_setPhase (by simp [ht, RpcPhase.order]) (by simp) (by simp) (fun ds hd => ?_)), hw.setPhase hne⟩
        cases hd
        refine ⟨by rw [ht]; rfl, fun v hv => ⟨?_, hok hbind _ hfind v hv⟩⟩
        obtain ⟨e, he, rfl⟩ := findDependencies_processing hfind v hv
        exact h.processing e he

theorem sound_complete (h : Sound s) (hw : Waiters s) (hlt : (s.phase t).order < 7)
    (hne : s.phase t ≠ .slotQueued) : Sound (s.complete t msgId) ∧ Waiters (s.complete t msgId) := by
  have hdone : Sound (s.setPhase t .done) := h.setPhase hlt rfl (by simp)
  have hwaiters : Waiters (s.setPhase t .done) := hw.setPhase hne
  refine ⟨hdone.of_tasks rfl rfl (fun e he => ?_), hwaiters.1, hwaiters.2⟩
  simp only [complete] at he
  split at he
  · exact (Maps.mem_delete.1 he).1
  · exact he

/-- **One step keeps the waits going back**, when its look-up is orderly. -/
theorem sound_step (h : Sound s) (hw : Waiters s) {event : SessionEvent} (hok : s.Orderly event)
    (hs : s.step event = some s') : Sound s' ∧ Waiters s' := by
  cases event with
  | receive message =>
    simp only [step] at hs
    split at hs
    · cases hs
    · cases hs
      obtain ⟨hr, -⟩ := received_receive message s h.transition
      refine ⟨h.received hr, hr.rpcWaiters ▸ hw.1, fun w hmem => ?_⟩
      have hphase := hw.2 w (hr.rpcWaiters ▸ hmem)
      rw [hr.old w]
      · exact hphase
      · by_contra hge
        rw [s.phase_of_length (Nat.le_of_not_lt hge)] at hphase
        cases hphase
  | call t outcome =>
    simp only [step] at hs
    split at hs
    · rename_i preceding request ht _
      split at hs
      · split at hs
        · cases hs
          exact ⟨h.setPhase (by simp [ht, RpcPhase.order]) rfl (by simp), hw.setPhase (by simp [ht])⟩
        · exact sound_handleRpcCall h hw ht hs
      · cases hs
    · cases hs
  | lookUp t sharedCompleted sharedProcessing =>
    simp only [step] at hs
    split at hs
    · rename_i request own ht hrequest hown
      cases hs
      exact sound_executeRpcCall h hw ht (hok own hown request hrequest)
    · cases hs
  | resume t =>
    simp only [step] at hs
    split at hs
    · rename_i ds ht
      split at hs
      · cases hs
        exact ⟨h.setPhase (by simp [ht, RpcPhase.order]) rfl (by simp), hw.setPhase (by simp [ht])⟩
      · cases hs
    · cases hs
  | respond t =>
    simp only [step] at hs
    split at hs
    · rename_i ht
      cases hs
      exact sound_respond h hw (by simp [ht, RpcPhase.order]) (by simp [ht])
    · rename_i ht
      cases hs
      exact sound_respond h hw (by simp [ht, RpcPhase.order]) (by simp [ht])
    · cases hs
  | settle t =>
    simp only [step] at hs
    split at hs
    · rename_i ht
      cases hs
      exact ⟨h.setPhase (by simp [ht, RpcPhase.order]) rfl (by simp), hw.setPhase (by simp [ht])⟩
    · rename_i other ht
      split at hs
      · cases hs
        exact ⟨h.setPhase (by simp [ht, RpcPhase.order]) rfl (by simp), hw.setPhase (by simp [ht])⟩
      · cases hs
    · cases hs
  | complete t =>
    simp only [step] at hs
    split at hs
    · rename_i ht _
      cases hs
      exact sound_complete h hw (by simp [ht, RpcPhase.order]) (by simp [ht])
    · rename_i members _ ht _
      split at hs
      · cases hs
        exact sound_complete h hw (by simp [ht, RpcPhase.order]) (by simp [ht])
      · cases hs
    · cases hs
  | close =>
    simp only [step] at hs
    split at hs
    · cases hs
    · cases hs
      exact sound_close h hw

/-- **Orderly look-ups never block a connection.**  In every run whose look-ups find only messages past theirs, no set of
tasks has each member waiting for a member: for an earlier transition, a joined request, a slot, a dependency, or a message
of a container. -/
theorem orderly_never_blocked {s : ServerSession} (h : Runs.Reachable step Orderly empty s) (blocked : Set Nat) :
    ¬Waits.Blocked s.Awaits blocked := by
  have hsound : Sound s ∧ Waiters s :=
    Runs.Reachable.invariant (I := fun s => Sound s ∧ Waiters s)
      ⟨sound_empty, nodup_nil, fun _ hm => (nomatch hm)⟩
      (fun _ _ _ _ hi hok hs => sound_step hi.1 hi.2 hok hs) h
  exact Waits.not_blocked hsound.1.ends blocked

def orderlyNow (s : ServerSession) : SessionEvent → Bool
  | .lookUp task sharedCompleted sharedProcessing =>
    match s.msgIdOf task, s.requestOf task with
    | some own, some request =>
      ((s.findDependencies own sharedCompleted sharedProcessing request.afterMessageIds).getD []).all
        (fun other => (s.phase other).past)
    | _, _ => true
  | _ => true

theorem orderly_of_now (s : ServerSession) (event : SessionEvent) (h : s.orderlyNow event = true) : s.Orderly event := by
  cases event with
  | lookUp task sharedCompleted sharedProcessing =>
    intro own hown request hrequest _ waits hwaits other hother
    rw [Option.mem_def] at hown hrequest hwaits
    simp only [orderlyNow, hown, hrequest, hwaits, Option.getD_some, all_eq_true] at h
    exact .past (h other hother)
  | _ => trivial

def orderedContainer : List SessionEvent :=
  [.receive (.container 0 [.rpc 1 ⟨"messages.sendMessage", []⟩, .rpc 2 ⟨"messages.sendMessage", [1]⟩]),
    .call 1 .executes, .call 2 .executes, .lookUp 1 [] [], .lookUp 2 [] []]

theorem ordered_container_not_blocked : ∃ s, Runs.Reachable step Orderly empty s ∧ s.phase 2 = .waiting [1] ∧
    ¬Waits.Blocked s.Awaits {1, 2} := by
  have hrun : (Runs.run (fun s a => if orderlyNow s a then step s a else none) empty orderedContainer).map
      (fun s => s.phase 2) = some (.waiting [1]) := by decide +kernel
  obtain ⟨s, hs, hphase⟩ := Option.map_eq_some_iff.1 hrun
  have hreach : Runs.Reachable step Orderly empty s := Runs.reachable_of_tested_run orderly_of_now .init hs
  exact ⟨s, hreach, hphase, orderly_never_blocked hreach {1, 2}⟩

def mutualContainer : List SessionEvent :=
  [.receive (.container 0 [.rpc 1 ⟨"messages.sendMessage", [2]⟩, .rpc 2 ⟨"messages.sendMessage", [1]⟩]),
    .call 1 .executes, .call 2 .executes, .lookUp 1 [] [], .lookUp 2 [] []]

/-- **Two calls that name each other block for good.** -/
theorem mutual_container_blocked : ∃ s, Runs.Reachable step (fun _ _ => True) empty s ∧ Waits.Blocked s.Awaits {1, 2} := by
  have hrun : (Runs.run step empty mutualContainer).map (fun s => (s.phase 1, s.phase 2)) =
      some (.waiting [2], .waiting [1]) := by decide +kernel
  obtain ⟨s, hs, hphase⟩ := Option.map_eq_some_iff.1 hrun
  obtain ⟨h1, h2⟩ := Prod.mk.injEq _ _ _ _ ▸ hphase
  refine ⟨s, Runs.reachable_of_run (fun _ _ _ => trivial) .init hs, ⟨1, by simp⟩, fun t ht => ?_⟩
  rcases ht with rfl | rfl
  · exact ⟨2, by simp, by simp [Awaits, h1, h2]⟩
  · exact ⟨1, by simp, by simp [Awaits, h1, h2]⟩

end ServerSession

end Crossgram
