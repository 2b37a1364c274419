import Mathlib.Logic.Function.Basic
import Crossgram.EventStream
/-!
# ReadMarkers — the read boundaries of the dialog list (packages/platform-crossgram/src/index.ts)

A dialog with unread messages names its first unread one; the message before it has to be loaded.  `ensureReadMarker`
keeps one marker a conversation, and writes it without a message before the load that is to bring the message.  A load
that ends without a page, or for a sequence that is no longer the marker's, leaves the marker as it is: `EndsKnown` is
what keeps a conversation from being left so.
-/
namespace Crossgram
namespace ReadMarkers

open Function List
open Runs (Reachable)

def READ_MARKER_CONCURRENCY : Nat := 3

def numericSequence (value : String) : Option Nat :=
  if EventStream.QQNTPlatform.isNumeric value then some (value.toList.foldl (fun n c => 10 * n + (c.toNat - 48)) 0) else none

/-- A message's `msgSeq`, and the message it is mapped to in a conversation. -/
structure Mapping (W M : Type) where
  msgSeq : W → Option String
  mapMessage : W → String → M

structure Marker (M : Type) where
  seq : String
  message : Option M

inductive Stage
  /-- It is in `readMarkerWaiters`. -/
  | waiting
  | woken
  | loading
  /-- `run()` has settled. -/
  | settled
  | left
deriving DecidableEq

structure Load where
  seq : String
  stage : Stage
deriving DecidableEq

/-- The maps by conversation id, the slots, and the pages that loads have got so far. -/
structure State (W M : Type) where
  readMarkers : String → Option (Marker M)
  readMarkerLoads : String → Option Load
  readMarkerInFlight : Nat
  readMarkerWaiters : List String
  pages : List (String × String × List W)

inductive Action (W : Type)
  | ensure (conversationId : String) (firstUnread : Option String) (unreadCount : Option Nat)
  | resume (conversationId : String)
  /-- The page of a load, `none` when it is rejected. -/
  | answer (conversationId : String) (page : Option (List W))
  /-- `finally` in `queueReadMarker` -/
  | leave (conversationId : String)
  /-- `finally` behind the load -/
  | finish (conversationId : String)

variable {W M : Type}

namespace State

def empty : State W M :=
  { readMarkers := fun _ => none, readMarkerLoads := fun _ => none, readMarkerInFlight := 0, readMarkerWaiters := [], pages := [] }

def setMarker (s : State W M) (id : String) (marker : Marker M) : State W M :=
  { s with readMarkers := Function.update s.readMarkers id (some marker) }

def setLoad (s : State W M) (id : String) (load : Option Load) : State W M :=
  { s with readMarkerLoads := Function.update s.readMarkerLoads id load }

/-- `queueReadMarker` from its look at the limit on; a load of a sequence that is no number settles at once. -/
def queueReadMarker (s : State W M) (id seq : String) : State W M :=
  if s.readMarkerInFlight ≥ READ_MARKER_CONCURRENCY then
    { s.setLoad id (some ⟨seq, .waiting⟩) with readMarkerWaiters := s.readMarkerWaiters ++ [id] }
  else
    { s.setLoad id (some ⟨seq, if (numericSequence seq).isSome then .loading else .settled⟩) with
      readMarkerInFlight := s.readMarkerInFlight + 1 }

def release (s : State W M) : State W M :=
  match s.readMarkerWaiters with
  | [] => { s with readMarkerInFlight := s.readMarkerInFlight - 1 }
  | waiter :: waiters =>
    { s.setLoad waiter ((s.readMarkerLoads waiter).map (fun load => { load with stage := .woken })) with
      readMarkerInFlight := s.readMarkerInFlight - 1, readMarkerWaiters := waiters }

def ensureReadMarker (s : State W M) (id : String) (firstUnread : Option String) (unreadCount : Option Nat) :
    Option M × State W M :=
  match firstUnread with
  | none => (none, s)
  | some seq =>
    if seq = "" ∨ unreadCount.getD 0 = 0 then (none, s)
    else if (s.readMarkers id).map (fun marker => marker.seq) = some seq then
      ((s.readMarkers id).bind (fun marker => marker.message), s)
    else
      let s := s.setMarker id ⟨seq, none⟩
      -- one load a conversation, of whatever sequence
      match s.readMarkerLoads id with
      | some _ => (none, s)
      | none => (none, s.queueReadMarker id seq)

end State

namespace Mapping

variable (p : Mapping W M)

def sequenceOf (message : W) : Option Nat := (p.msgSeq message).bind numericSequence

def consider (firstUnread : Nat) (found : Option (W × Nat)) (message : W) : Option (W × Nat) :=
  match p.sequenceOf message with
  | none => found
  | some sequence =>
    if sequence ≥ firstUnread then found
    else if found.any (fun boundary => sequence ≤ boundary.2) then found
    else some (message, sequence)

def boundaryOf (firstUnread : Nat) (messages : List W) : Option (W × Nat) := messages.foldl (p.consider firstUnread) none

structure Newest (firstUnread : Nat) (seen : List W) (found : Option (W × Nat)) : Prop where
  mem : ∀ boundary, found = some boundary →
    boundary.1 ∈ seen ∧ p.sequenceOf boundary.1 = some boundary.2 ∧ boundary.2 < firstUnread
  greatest : ∀ message ∈ seen, ∀ sequence, p.sequenceOf message = some sequence → sequence < firstUnread →
    ∃ boundary, found = some boundary ∧ sequence ≤ boundary.2

variable {p}

theorem Newest.consider {firstUnread : Nat} {seen : List W} {found : Option (W × Nat)}
    (h : p.Newest firstUnread seen found) (message : W) :
    p.Newest firstUnread (seen ++ [message]) (p.consider firstUnread found message) := by
  have hkept (hnew : ∀ sequence, p.sequenceOf message = some sequence → sequence < firstUnread →
      ∃ boundary, found = some boundary ∧ sequence ≤ boundary.2) : p.Newest firstUnread (seen ++ [message]) found := by
    refine ⟨fun boundary hfound => ?_, fun m hm => ?_⟩
    · obtain ⟨hmem, hrest⟩ := h.mem boundary hfound
      exact ⟨mem_append_left _ hmem, hrest⟩
    · rcases mem_append.1 hm with hm | hm
      · exact h.greatest m hm
      · rw [mem_singleton.1 hm]
        exact hnew
  unfold Mapping.consider
  split
  · rename_i hsequence
    exact hkept (fun _ hn => by rw [hsequence] at hn; cases hn)
  · rename_i sequence hsequence
    split
    · rename_i hge
      refine hkept (fun n hn hlt => ?_)
      rw [hsequence] at hn
      cases hn
      omega
    · rename_i hlt
      split
      · rename_i hany
        refine hkept (fun n hn _ => ?_)
        rw [hsequence] at hn
        cases hn
        obtain ⟨boundary, hfound, hle⟩ := (Option.any_eq_true _ _).1 hany
        exact ⟨boundary, hfound, of_decide_eq_true hle⟩
      · rename_i hnone
        refine ⟨fun boundary hfound => ?_, fun m hm n hn hltn => ?_⟩
        · cases hfound
          exact ⟨mem_append_right _ (mem_singleton_self _), hsequence, Nat.lt_of_not_le hlt⟩
        · refine ⟨_, rfl, ?_⟩
          rcases mem_append.1 hm with hm | hm
          · obtain ⟨boundary, hfound, hle⟩ := h.greatest m hm n hn hltn
            rw [hfound, Option.any_some, decide_eq_true_eq] at hnone
            exact Nat.le_trans hle (Nat.le_of_not_le hnone)
          · rw [mem_singleton.1 hm, hsequence] at hn
            cases hn
            exact Nat.le_refl _

theorem Newest.foldl {firstUnread : Nat} : ∀ (messages : List W) {seen : List W} {found : Option (W × Nat)},
    p.Newest firstUnread seen found →
      p.Newest firstUnread (seen ++ messages) (messages.foldl (p.consider firstUnread) found)
  | [], seen, _, h => by rwa [append_nil]
  | message :: messages, seen, found, h => by
    rw [foldl_cons, ← singleton_append, ← append_assoc]
    exact Newest.foldl messages (h.consider message)

/-- **The loop finds the newest message of the page below the first unread one.** -/
theorem newest_boundaryOf (firstUnread : Nat) (messages : List W) :
    p.Newest firstUnread messages (p.boundaryOf firstUnread messages) := by
  have hnone : p.Newest firstUnread [] none := ⟨fun _ h => (by cases h), fun _ h => (by cases h)⟩
  exact hnone.foldl messages

variable (p)

/-- `loadReadMarker` behind the page. -/
def loaded (s : State W M) (id seq : String) (messages : List W) : State W M :=
  let s := { s with pages := s.pages ++ [(id, seq, messages)] }
  match (numericSequence seq).bind (fun firstUnread => p.boundaryOf firstUnread messages) with
  | none => s
  | some boundary =>
    if (s.readMarkers id).map (fun marker => marker.seq) ≠ some seq then s
    else s.setMarker id ⟨seq, some (p.mapMessage boundary.1 id)⟩

def step (s : State W M) : Action W → Option (State W M)
  | .ensure id firstUnread unreadCount => some (s.ensureReadMarker id firstUnread unreadCount).2
  | .resume id => match s.readMarkerLoads id with
    | some ⟨seq, .woken⟩ => some (s.queueReadMarker id seq)
    | _ => none
  | .answer id page => match s.readMarkerLoads id with
    | some ⟨seq, .loading⟩ =>
      let s := s.setLoad id (some ⟨seq, .settled⟩)
      some (match page with
        | none => s
        | some messages => p.loaded s id seq messages)
    | _ => none
  | .leave id => match s.readMarkerLoads id with
    | some ⟨seq, .settled⟩ => some (s.setLoad id (some ⟨seq, .left⟩)).release
    | _ => none
  | .finish id => match s.readMarkerLoads id with
    | some ⟨_, .left⟩ => some (s.setLoad id none)
    | _ => none

/-! ## What is promised of a boundary -/

structure IsBoundary (id seq : String) (window : List W) (m : M) : Prop where
  newest : ∃ firstUnread, numericSequence seq = some firstUnread ∧ ∃ message ∈ window, m = p.mapMessage message id ∧
    ∃ sequence, p.sequenceOf message = some sequence ∧ sequence < firstUnread ∧
      ∀ message' ∈ window, ∀ sequence', p.sequenceOf message' = some sequence' →
        sequence' < firstUnread → sequence' ≤ sequence

/-- What a call returns is of the sequence it asks for. -/
def ReturnsBoundary (s : State W M) : Prop :=
  ∀ id seq unreadCount m, (s.ensureReadMarker id (some seq) unreadCount).1 = some m →
    ∃ window, (id, seq, window) ∈ s.pages ∧ p.IsBoundary id seq window m

end Mapping

namespace State

def HasPage (s : State W M) (id seq : String) : Prop := ∃ page, (id, seq, page) ∈ s.pages

/-- A call for a sequence that no page was returned for starts a load, when the conversation has none. -/
def AsksUntilKnown (s : State W M) : Prop :=
  ∀ id seq unreadCount, seq ≠ "" → unreadCount ≠ 0 → s.readMarkerLoads id = none → ¬ s.HasPage id seq →
    (s.ensureReadMarker id (some seq) (some unreadCount)).2.readMarkerLoads id ≠ none

/-- A load ends when a page was returned, to it or before, for the sequence that the marker is of. -/
def EndsKnown (s : State W M) : Action W → Prop
  | .finish id => ∀ marker, s.readMarkers id = some marker → s.HasPage id marker.seq
  | _ => True

end State

/-! ## What a step does to the maps -/

namespace State

variable {s s' : State W M} {id seq : String}

theorem setMarker_same (s : State W M) (id : String) (marker : Marker M) :
    (s.setMarker id marker).readMarkers id = some marker := update_self ..

theorem setMarker_other {id id' : String} (h : id' ≠ id) (s : State W M) (marker : Marker M) :
    (s.setMarker id marker).readMarkers id' = s.readMarkers id' := update_of_ne h ..

theorem readMarkers_queueReadMarker (s : State W M) (id seq : String) :
    (s.queueReadMarker id seq).readMarkers = s.readMarkers ∧ (s.queueReadMarker id seq).pages = s.pages := by
  unfold queueReadMarker
  split <;> exact ⟨rfl, rfl⟩

theorem load_queueReadMarker (s : State W M) (id seq : String) : ∃ stage,
    (s.queueReadMarker id seq).readMarkerLoads = Function.update s.readMarkerLoads id (some ⟨seq, stage⟩) := by
  unfold queueReadMarker
  split <;> exact ⟨_, rfl⟩

theorem release_spec (s : State W M) : s.release.readMarkers = s.readMarkers ∧ s.release.pages = s.pages ∧
    ∀ id, s.release.readMarkerLoads id = none ↔ s.readMarkerLoads id = none := by
  unfold release
  split
  · exact ⟨rfl, rfl, fun _ => Iff.rfl⟩
  · rename_i waiter waiters _
    refine ⟨rfl, rfl, fun id => ?_⟩
    by_cases hid : id = waiter
    · subst hid
      refine Iff.trans (b := (s.readMarkerLoads id).map (fun load => { load with stage := .woken }) = none) ?_
        Option.map_eq_none_iff
      exact Eq.congr_left (update_self ..)
    · exact Eq.congr_left (update_of_ne hid ..)

theorem setLoad_none {load load' : Load} (h : s.readMarkerLoads id = some load) (id' : String) :
    (s.setLoad id (some load')).readMarkerLoads id' = none ↔ s.readMarkerLoads id' = none := by
  by_cases hid : id' = id
  · subst hid
    rw [h]
    exact iff_of_eq (by simp [setLoad])
  · exact Eq.congr_left (update_of_ne hid ..)

end State

inductive Effect (p : Mapping W M) (s : State W M) : Action W → State W M → Prop
  | quiet {a : Action W} {s' : State W M} : s'.readMarkers = s.readMarkers → s'.pages = s.pages →
      (∀ id, s'.readMarkerLoads id = none ↔ s.readMarkerLoads id = none) → Effect p s a s'
  | placeholder {a : Action W} {s' : State W M} {id seq : String} : seq ≠ "" →
      (∀ id' marker, s'.readMarkers id' = some marker →
        (id' = id ∧ marker = ⟨seq, none⟩) ∨ s.readMarkers id' = some marker) →
      s'.pages = s.pages → (∀ id', s'.readMarkerLoads id' = none → id' ≠ id ∧ s.readMarkerLoads id' = none) → Effect p s a s'
  | page {a : Action W} {s' : State W M} {id seq : String} {messages : List W} :
      s'.pages = s.pages ++ [(id, seq, messages)] →
      (∀ id, s'.readMarkerLoads id = none ↔ s.readMarkerLoads id = none) →
      (∀ id' marker, s'.readMarkers id' = some marker → s.readMarkers id' = some marker ∨
        ∃ message m, id' = id ∧ marker = ⟨seq, some m⟩ ∧ s.readMarkers id = some ⟨seq, message⟩ ∧
          p.IsBoundary id seq messages m) → Effect p s a s'
  | finish {id : String} {s' : State W M} : s'.readMarkers = s.readMarkers → s'.pages = s.pages →
      s'.readMarkerLoads = Function.update s.readMarkerLoads id none → Effect p s (.finish id) s'

variable {p : Mapping W M} {s s' : State W M} {id seq : String}

theorem isBoundary_boundaryOf {messages : List W} {boundary : W × Nat}
    (h : (numericSequence seq).bind (fun firstUnread => p.boundaryOf firstUnread messages) = some boundary) :
    p.IsBoundary id seq messages (p.mapMessage boundary.1 id) := by
  obtain ⟨firstUnread, hnumber, hboundary⟩ := Option.bind_eq_some_iff.1 h
  have hnewest := p.newest_boundaryOf firstUnread messages
  obtain ⟨hmem, hsequence, hlt⟩ := hnewest.mem _ hboundary
  refine ⟨firstUnread, hnumber, boundary.1, hmem, rfl, boundary.2, hsequence, hlt, fun message' hmem' n hn hltn => ?_⟩
  obtain ⟨boundary', hboundary', hle⟩ := hnewest.greatest message' hmem' n hn hltn
  rw [hboundary] at hboundary'
  cases hboundary'
  exact hle

theorem effect_ensure (s : State W M) (id : String) (firstUnread : Option String) (unreadCount : Option Nat) (a : Action W) :
    Effect p s a (s.ensureReadMarker id firstUnread unreadCount).2 := by
  have hnone : Effect p s a s := .quiet rfl rfl (fun _ => Iff.rfl)
  unfold State.ensureReadMarker
  split
  · exact hnone
  · rename_i seq
    split
    · exact hnone
    · rename_i hseq
      have hne : seq ≠ "" := fun h => hseq (.inl h)
      split
      · exact hnone
      · dsimp only
        have hmarker : ∀ id' marker, (s.setMarker id ⟨seq, none⟩).readMarkers id' = some marker →
            (id' = id ∧ marker = ⟨seq, none⟩) ∨ s.readMarkers id' = some marker := by
          intro id' marker h
          by_cases hid : id' = id
          · subst hid
            rw [State.setMarker_same, Option.some.injEq] at h
            exact .inl ⟨rfl, h.symm⟩
          · rw [State.setMarker_other hid] at h
            exact .inr h
        split
        · rename_i load hload
          refine .placeholder hne hmarker rfl (fun id' h => ⟨?_, h⟩)
          rintro rfl
          rw [hload] at h
          cases h
        · obtain ⟨hmarkers, hpages⟩ := (s.setMarker id ⟨seq, none⟩).readMarkers_queueReadMarker id seq
          obtain ⟨stage, hloads⟩ := (s.setMarker id ⟨seq, none⟩).load_queueReadMarker id seq
          refine .placeholder hne (hmarkers ▸ hmarker) hpages (fun id' h => ?_)
          rw [hloads] at h
          by_cases hid : id' = id
          · subst hid
            rw [update_self] at h
            cases h
          · rw [update_of_ne hid] at h
            exact ⟨hid, h⟩

theorem effect_loaded {t : State W M} (hmarkers : t.readMarkers = s.readMarkers) (hpages : t.pages = s.pages)
    (hloads : ∀ id, t.readMarkerLoads id = none ↔ s.readMarkerLoads id = none) (a : Action W) (id seq : String)
    (messages : List W) : Effect p s a (p.loaded t id seq messages) := by
  have hkept : Effect p s a { t with pages := t.pages ++ [(id, seq, messages)] } :=
    .page (congrArg (· ++ _) hpages) hloads (fun _ _ h => .inl (hmarkers ▸ h))
  unfold Mapping.loaded
  dsimp only
  split
  · exact hkept
  · rename_i boundary hboundary
    split
    · exact hkept
    · rename_i hseq
      refine .page (congrArg (· ++ _) hpages) hloads (fun id' marker h => ?_)
      by_cases hid : id' = id
      · subst hid
        obtain ⟨⟨seq', message⟩, hmarker, rfl⟩ := Option.map_eq_some_iff.1 (not_not.1 hseq)
        rw [State.setMarker_same, Option.some.injEq] at h
        exact .inr ⟨message, _, rfl, h.symm, hmarkers ▸ hmarker, isBoundary_boundaryOf hboundary⟩
      · rw [State.setMarker_other hid] at h
        exact .inl (hmarkers ▸ h)

variable {a : Action W}

/-- **What every step does.** -/
theorem step_effect (hs : p.step s a = some s') : Effect p s a s' := by
  cases a with
  | ensure id firstUnread unreadCount =>
    cases hs
    exact effect_ensure s id firstUnread unreadCount _
  | resume id =>
    unfold Mapping.step at hs
    dsimp only at hs
    split at hs
    · rename_i seq hload
      cases hs
      obtain ⟨hmarkers, hpages⟩ := s.readMarkers_queueReadMarker id seq
      obtain ⟨stage, hloads⟩ := s.load_queueReadMarker id seq
      refine .quiet hmarkers hpages (fun id' => ?_)
      rw [hloads]
      exact State.setLoad_none hload id'
    · cases hs
  | answer id page =>
    unfold Mapping.step at hs
    dsimp only at hs
    split at hs
    · rename_i seq hload
      have hkept : ∀ id', (s.setLoad id (some ⟨seq, .settled⟩)).readMarkerLoads id' = none ↔ s.readMarkerLoads id' = none :=
        State.setLoad_none hload
      cases page with
      | none =>
        cases hs
        exact .quiet rfl rfl hkept
      | some messages =>
        cases hs
        exact effect_loaded (s := s) (t := s.setLoad id (some ⟨seq, .settled⟩)) rfl rfl hkept _ id seq messages
    · cases hs
  | leave id =>
    unfold Mapping.step at hs
    dsimp only at hs
    split at hs
    · rename_i seq hload
      cases hs
      obtain ⟨hmarkers, hpages, hloads⟩ := (s.setLoad id (some ⟨seq, .left⟩)).release_spec
      exact .quiet hmarkers hpages (fun id' => (hloads id').trans (State.setLoad_none hload id'))
    · cases hs
  | finish id =>
    unfold Mapping.step at hs
    dsimp only at hs
    split at hs
    · cases hs
      exact .finish rfl rfl rfl
    · cases hs

/-! ## The boundaries that are returned, and the loads that are started -/

structure Sound (p : Mapping W M) (s : State W M) : Prop where
  named : ∀ id marker, s.readMarkers id = some marker → marker.seq ≠ ""
  shown : ∀ id marker m, s.readMarkers id = some marker → marker.message = some m →
    ∃ window, (id, marker.seq, window) ∈ s.pages ∧ p.IsBoundary id marker.seq window m

theorem Sound.step (h : Sound p s) (hs : p.step s a = some s') : Sound p s' := by
  cases step_effect hs with
  | quiet hmarkers hpages hloads => exact ⟨hmarkers ▸ h.named, hmarkers ▸ hpages ▸ h.shown⟩
  | finish hmarkers hpages hloads => exact ⟨hmarkers ▸ h.named, hmarkers ▸ hpages ▸ h.shown⟩
  | placeholder hne hmarkers hpages _ =>
    refine ⟨fun id' marker hmarker => ?_, fun id' marker m hmarker hm => ?_⟩
    · rcases hmarkers id' marker hmarker with ⟨-, rfl⟩ | hmarker
      · exact hne
      · exact h.named id' marker hmarker
    · rcases hmarkers id' marker hmarker with ⟨-, rfl⟩ | hmarker
      · cases hm
      · rw [hpages]
        exact h.shown id' marker m hmarker hm
  | page hpages hloads hmarkers =>
    refine ⟨fun id' marker hmarker => ?_, fun id' marker m hmarker hm => ?_⟩
    · rcases hmarkers id' marker hmarker with hmarker | ⟨message, m, rfl, rfl, hold, -⟩
      · exact h.named id' marker hmarker
      · exact h.named id' ⟨_, message⟩ hold
    · rw [hpages]
      rcases hmarkers id' marker hmarker with hmarker | ⟨message, m', rfl, rfl, -, hboundary⟩
      · obtain ⟨window, hmem, hboundary⟩ := h.shown id' marker m hmarker hm
        exact ⟨window, mem_append_left _ hmem, hboundary⟩
      · cases hm
        exact ⟨_, mem_append_right _ (mem_singleton_self _), hboundary⟩

theorem Sound.returnsBoundary (h : Sound p s) : p.ReturnsBoundary s := by
  intro id seq unreadCount m hm
  unfold State.ensureReadMarker at hm
  dsimp only at hm
  split at hm
  · cases hm
  · split at hm
    · rename_i hseq
      obtain ⟨marker, hmarker, hmessage⟩ := Option.bind_eq_some_iff.1 hm
      rw [hmarker, Option.map_some, Option.some.injEq] at hseq
      rw [← hseq]
      exact h.shown id marker m hmarker hmessage
    · split at hm <;> cases hm

def Known (s : State W M) : Prop :=
  ∀ id marker, s.readMarkers id = some marker → s.readMarkerLoads id = none → s.HasPage id marker.seq

theorem hasPage_congr (hpages : s'.pages = s.pages) : s'.HasPage id seq ↔ s.HasPage id seq := by
  unfold State.HasPage
  rw [hpages]

theorem Known.step (h : Known s) (hok : s.EndsKnown a) (hs : p.step s a = some s') : Known s' := by
  intro id' marker hmarker hnone
  cases step_effect hs with
  | quiet hmarkers hpages hloads =>
    rw [hmarkers] at hmarker
    exact (hasPage_congr hpages).2 (h id' marker hmarker ((hloads id').1 hnone))
  | @finish id _ hmarkers hpages hloads =>
    rw [hmarkers] at hmarker
    by_cases hid : id' = id
    · subst hid
      exact (hasPage_congr hpages).2 (hok marker hmarker)
    · rw [hloads, update_of_ne hid] at hnone
      exact (hasPage_congr hpages).2 (h id' marker hmarker hnone)
  | placeholder hne hmarkers hpages hloads =>
    obtain ⟨hid, hnone⟩ := hloads id' hnone
    rcases hmarkers id' marker hmarker with ⟨hid', -⟩ | hmarker
    · exact absurd hid' hid
    · exact (hasPage_congr hpages).2 (h id' marker hmarker hnone)
  | page hpages hloads hmarkers =>
    rcases hmarkers id' marker hmarker with hmarker | ⟨message, m, rfl, rfl, hold, hboundary⟩
    · obtain ⟨window, hmem⟩ := h id' marker hmarker ((hloads id').1 hnone)
      exact ⟨window, hpages ▸ mem_append_left _ hmem⟩
    · exact ⟨_, hpages ▸ mem_append_right _ (mem_singleton_self _)⟩

/-- **Loads are asked for exactly where no marker stands in their way.** -/
theorem asksUntilKnown_iff (h : Sound p s) : s.AsksUntilKnown ↔ Known s := by
  constructor
  · intro hasks id marker hmarker hnone
    by_contra hpage
    refine hasks id marker.seq 1 (h.named id marker hmarker) Nat.one_ne_zero hnone hpage ?_
    have hgiven : ¬ (marker.seq = "" ∨ (some 1).getD 0 = 0) := not_or.2 ⟨h.named id marker hmarker, Nat.one_ne_zero⟩
    unfold State.ensureReadMarker
    dsimp only
    rw [if_neg hgiven, hmarker, Option.map_some, if_pos rfl]
    exact hnone
  · intro hknown id seq unreadCount hne hunread hnone hpage
    have hstale : (s.readMarkers id).map (fun marker => marker.seq) ≠ some seq := by
      intro hseq
      obtain ⟨marker, hmarker, rfl⟩ := Option.map_eq_some_iff.1 hseq
      exact hpage (hknown id marker hmarker hnone)
    have hload : (s.setMarker id ⟨seq, none⟩).readMarkerLoads id = none := hnone
    obtain ⟨stage, hloads⟩ := (s.setMarker id ⟨seq, none⟩).load_queueReadMarker id seq
    have hgiven : ¬ (seq = "" ∨ (some unreadCount).getD 0 = 0) := not_or.2 ⟨hne, hunread⟩
    unfold State.ensureReadMarker
    dsimp only
    rw [if_neg hgiven, if_neg hstale]
    rw [hload]
    dsimp only
    rw [hloads, update_self]
    exact Option.some_ne_none _

theorem sound_empty : Sound p State.empty :=
  ⟨fun _ _ h => (by cases h), fun _ _ _ h => (by cases h)⟩

theorem Sound.of_reachable {ok : State W M → Action W → Prop} (h : Reachable p.step ok State.empty s) : Sound p s :=
  h.invariant sound_empty (fun _ _ _ _ hI _ hs => hI.step hs)

/-- **Read boundaries.**  In every run what is returned is the boundary of its own sequence; while every load ends at a
marker for whose sequence there is a page, a boundary that is not known is asked for; and the first load that ends
otherwise leaves a boundary that is not asked for. -/
theorem read_boundaries (p : Mapping W M) :
    (∀ s, Reachable p.step (fun _ _ => True) State.empty s → p.ReturnsBoundary s) ∧
    (∀ s, Reachable p.step State.EndsKnown State.empty s → s.AsksUntilKnown) ∧
    (∀ s a s', Reachable p.step State.EndsKnown State.empty s → p.step s a = some s' → s'.AsksUntilKnown →
      s.EndsKnown a) := by
  refine ⟨fun s hr => (Sound.of_reachable hr).returnsBoundary, fun s hr => ?_, fun s a s' hr hs hasks => ?_⟩
  · refine (asksUntilKnown_iff (Sound.of_reachable hr)).2 ?_
    exact hr.invariant (fun _ _ h => (by cases h)) (fun _ _ _ _ hI hok hs => hI.step hok hs)
  · have hknown := (asksUntilKnown_iff ((Sound.of_reachable hr).step hs)).1 hasks
    cases a with
    | finish id =>
      intro marker hmarker
      unfold Mapping.step at hs
      dsimp only at hs
      split at hs
      · cases hs
        exact hknown id marker hmarker (update_self ..)
      · cases hs
    | _ => trivial

def plainMapping : Mapping String String := { msgSeq := some, mapMessage := fun message _ => message }

theorem read_boundaries_of_page : ∃ s : State String String, (s.ensureReadMarker "c" (some "5") (some 2)).1 = some "4" ∧
    plainMapping.ReturnsBoundary s ∧ s.AsksUntilKnown := by
  have hrun : (Runs.run plainMapping.step .empty [.ensure "c" (some "5") (some 2), .answer "c" (some ["3", "4", "6"])]).map
      (fun s => (s.ensureReadMarker "c" (some "5") (some 2)).1) = some (some "4") := by decide +kernel
  obtain ⟨s, hrun, hmessage⟩ := Option.map_eq_some_iff.1 hrun
  obtain ⟨hreturns, hasks, -⟩ := read_boundaries plainMapping
  refine ⟨s, hmessage, hreturns s (Runs.reachable_of_run (fun _ _ _ => trivial) .init hrun),
    hasks s (Runs.reachable_of_run (fun _ a ha => ?_) .init hrun)⟩
  rcases mem_cons.1 ha with rfl | ha
  · trivial
  · rw [mem_singleton.1 ha]
    trivial

/-- **A load that fails leaves a boundary that is not asked for again.** -/
theorem failed_load_not_repeated : ¬ ∀ s, Reachable plainMapping.step (fun _ _ => True) State.empty s → s.AsksUntilKnown := by
  intro hall
  have hrun : (Runs.run plainMapping.step .empty
      [.ensure "c" (some "5") (some 2), .answer "c" none, .leave "c", .finish "c"]).map
      (fun s => (s.pages, s.readMarkerLoads "c", (s.ensureReadMarker "c" (some "5") (some 2)).2.readMarkerLoads "c")) =
      some ([], none, none) := by decide +kernel
  obtain ⟨s, hrun, hs⟩ := Option.map_eq_some_iff.1 hrun
  obtain ⟨hpages, hnone, hload⟩ := by simpa only [Prod.mk.injEq] using hs
  refine hall s (Runs.reachable_of_run (fun _ _ _ => trivial) .init hrun) "c" "5" 2 (by decide) (by decide) hnone ?_ hload
  rintro ⟨window, hmem⟩
  rw [hpages] at hmem
  cases hmem

end ReadMarkers
end Crossgram
