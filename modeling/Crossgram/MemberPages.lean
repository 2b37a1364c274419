import Crossgram.Lib.Runs
import Crossgram.Lib.Walks
/-!
# MemberPages — one walk through a conversation's members for all callers (packages/bridge/src/dialogs.ts)

`_memberPage` and `_allMembers` load pages of members from the platform into a state that all calls of a conversation
share, one page at a time: a call that finds a page under way waits for it and looks again.  The state is that of a
conversation while no role is changed.
-/
namespace Crossgram
namespace MemberPages

open List

variable {α : Type}

/-- `IMConversationMemberPage`. -/
structure MemberPage (α : Type) where
  members : List α
  total : Option Int
  nextCursor : Option String

structure MemberPageState (α : Type) where
  members : List α := []
  nextCursor : Option String := none
  total : Option Int := none
  complete : Bool := false
  seenCursors : List String := []

def maximum : Nat := 10000

def MemberPage.cursor (page : MemberPage α) : Option String := page.nextCursor.filter (fun cursor => decide (cursor ≠ ""))

def MemberPageState.repeats (state : MemberPageState α) (nextCursor : String) : Bool :=
  decide (some nextCursor = state.nextCursor) || decide (nextCursor ∈ state.seenCursors)

/-- `_loadNextMemberPage` once the page is there. -/
def MemberPageState.add (state : MemberPageState α) (page : MemberPage α) : MemberPageState α :=
  let members := state.members ++ page.members
  let total := page.total.or state.total
  if page.cursor.isNone || page.members.isEmpty || page.cursor.any state.repeats ||
      total.any (fun total : Int => decide (total ≤ (members.length : Int))) then
    { state with members := members, total := total, complete := true, nextCursor := none }
  else
    { state with
      members := members
      total := total
      nextCursor := page.cursor
      seenCursors := state.seenCursors ++ page.cursor.toList }

inductive Request
  | recent (offset limit : Int)
  | all

/-- `Math.max(0, n)` -/
def atLeastZero (n : Int) : Nat := n.toNat

/-- `Math.min(10_000, Math.max(0, endOffset))` -/
def Request.requestedEnd : Request → Nat
  | .recent offset limit => min maximum (atLeastZero offset + atLeastZero limit)
  | .all                 => maximum

structure Reply (α : Type) where
  members : List α
  total : Option Int
  nextCursor : Option Nat

/-- `_memberPage` once the members are there. -/
def memberPage (state : MemberPageState α) (offset limit : Nat) : Reply α :=
  let members := (state.members.drop offset).take limit
  let nextOffset := offset + members.length
  { members := members
    total := state.total.or (if state.complete then some state.members.length else none)
    nextCursor := if nextOffset < state.members.length ∨ state.complete = false then some nextOffset else none }

def Request.reply (state : MemberPageState α) : Request → Reply α
  | .recent offset limit => memberPage state (atLeastZero offset) (atLeastZero limit)
  | .all                 => ⟨state.members, none, none⟩

inductive CallPhase (α : Type)
  | checking
  | waiting
  | loaded
  | replied (reply : Reply α)
  | failed

/-- `checks` counts the turns of the loop. -/
structure Call (α : Type) where
  request : Request
  phase : CallPhase α
  checks : Nat

/-- The page under way: it is asked for, or its users are being stored. -/
inductive Loading
  | requesting (cursor : Option String) (limit : Nat)
  | persisting
deriving DecidableEq

/-- The shared state and the calls; `log`, `requests` and `settled` are kept for the statements: the pages that came, the
cursors that were asked for, and how many pages were stored. -/
structure State (α : Type) where
  state : MemberPageState α := {}
  pending : Option Loading := none
  calls : List (Call α) := []
  log : Walks.Log α String := []
  requests : List (Option String) := []
  settled : Nat := 0

inductive Event (α : Type)
  | call (request : Request)
  | resume (i : Nat)
  | reply (i : Nat)
  | answers (page : MemberPage α)
  | refuses
  | persisted
  | persistFails

def Request.start : Request → CallPhase α
  | .recent _ limit => if limit ≤ 0 then .replied ⟨[], none, none⟩ else .checking
  | .all            => .checking

def Call.wake (phase : CallPhase α) (call : Call α) : Call α :=
  match call.phase with
  | .waiting => { call with phase := phase }
  | _        => call

def State.settle (s : State α) (phase : CallPhase α) : State α :=
  { s with pending := none, calls := s.calls.map (Call.wake phase) }

def State.setCall (s : State α) (i : Nat) (call : Call α) (phase : CallPhase α) : State α :=
  { s with calls := s.calls.set i { call with phase := phase, checks := call.checks + 1 } }

def requestLimit (requestedEnd loaded : Nat) : Nat := min 500 (max 100 (requestedEnd - loaded))

def step (s : State α) : Event α → Option (State α)
  | .call request  => some { s with calls := s.calls ++ [⟨request, request.start, 0⟩] }
  | .resume i      =>
    match s.calls[i]? with
    | some ⟨request, .checking, checks⟩ =>
      let call : Call α := ⟨request, .checking, checks⟩
      if s.state.complete = true ∨ request.requestedEnd ≤ s.state.members.length then some (s.setCall i call .loaded)
      else
        match s.pending with
        | some _ => some (s.setCall i call .waiting)
        | none   => some { s.setCall i call .waiting with
            pending := some (.requesting s.state.nextCursor (requestLimit request.requestedEnd s.state.members.length))
            requests := s.requests ++ [s.state.nextCursor] }
    | _ => none
  | .reply i       =>
    match s.calls[i]? with
    | some ⟨request, .loaded, checks⟩ =>
      some { s with calls := s.calls.set i ⟨request, .replied (request.reply s.state), checks⟩ }
    | _ => none
  | .answers page  =>
    match s.pending with
    | some (.requesting cursor _) => some { s with
        state := s.state.add page
        pending := some .persisting
        log := s.log ++ [(cursor, ⟨page.members, page.total, page.cursor⟩)] }
    | _ => none
  | .refuses       =>
    match s.pending with
    | some (.requesting _ _) => some (s.settle .failed)
    | _                      => none
  | .persisted     =>
    match s.pending with
    | some .persisting => some { s.settle .checking with settled := s.settled + 1 }
    | _                => none
  | .persistFails  =>
    match s.pending with
    | some .persisting => some { s.settle .failed with settled := s.settled + 1 }
    | _                => none

/-! ## The walk -/

structure Shows (state : MemberPageState α) (log : Walks.Log α String) : Prop where
  members : state.members = Walks.items log
  total : state.total = Walks.total log
  cursor : state.complete = false → state.nextCursor = Walks.cursor log
  seen : state.complete = false → log.map Prod.fst ++ [Walks.cursor log] = none :: state.seenCursors.map some

theorem shows_start : Shows ({} : MemberPageState α) [] :=
  ⟨rfl, rfl, fun _ => rfl, fun _ => rfl⟩

variable {state : MemberPageState α}

theorem Shows.repeats {log : Walks.Log α String} (h : Shows state log)
    (hopen : state.complete = false) (nextCursor : String) :
    state.repeats nextCursor = true ↔ some nextCursor ∈ log.map Prod.fst ++ [Walks.cursor log] := by
  have hmem : some nextCursor ∈ log.map Prod.fst ++ [Walks.cursor log] ↔ nextCursor ∈ state.seenCursors := by
    rw [h.seen hopen, mem_cons]
    simp
  unfold MemberPageState.repeats
  rw [Bool.or_eq_true, decide_eq_true_eq, decide_eq_true_eq]
  refine ⟨fun heither => ?_, fun hin => .inr (hmem.1 hin)⟩
  rcases heither with heq | hin
  · rw [h.cursor hopen] at heq
    exact heq ▸ mem_append_right _ (mem_singleton_self _)
  · exact hmem.2 hin

/-- **A page that is added is the next one of the walk**, and it completes the members if it is the last one. -/
theorem Shows.add {log : Walks.Log α String} (h : Shows state log)
    (hopen : state.complete = false) (page : MemberPage α) :
    Shows (state.add page) (log ++ [(Walks.cursor log, ⟨page.members, page.total, page.cursor⟩)]) ∧
      (state.add page).complete = Walks.ends log ⟨page.members, page.total, page.cursor⟩ := by
  have hmembers : state.members ++ page.members =
      Walks.items (log ++ [(Walks.cursor log, ⟨page.members, page.total, page.cursor⟩)]) := by
    rw [Walks.items_concat, h.members]
  have htotal : page.total.or state.total =
      Walks.total (log ++ [(Walks.cursor log, ⟨page.members, page.total, page.cursor⟩)]) := by
    rw [Walks.total_concat, h.total]
  have hlast : (page.cursor.isNone || page.members.isEmpty || page.cursor.any state.repeats ||
      (page.total.or state.total).any (fun total : Int => decide (total ≤ ((state.members ++ page.members).length : Int)))) =
        Walks.ends log ⟨page.members, page.total, page.cursor⟩ := by
    unfold Walks.ends
    dsimp only
    rw [← hmembers, ← htotal]
    cases hcursor : page.cursor with
    | none            => rfl
    | some nextCursor =>
      have hrepeats : state.repeats nextCursor = decide (some nextCursor ∈ log.map Prod.fst ++ [Walks.cursor log]) := by
        rw [Bool.eq_iff_iff, decide_eq_true_eq]
        exact h.repeats hopen nextCursor
      rw [map_append]
      show (false || page.members.isEmpty || state.repeats nextCursor || _) =
        (false || page.members.isEmpty || decide (some nextCursor ∈ log.map Prod.fst ++ [Walks.cursor log]) || _)
      rw [hrepeats]
  unfold MemberPageState.add
  dsimp only
  rw [hlast]
  split
  · rename_i hends
    exact ⟨⟨hmembers, htotal, fun h => (by cases h), fun h => (by cases h)⟩, hends.symm⟩
  · rename_i hends
    have hends := Bool.eq_false_iff.2 hends
    refine ⟨⟨hmembers, htotal, fun _ => ?_, fun _ => ?_⟩, hopen.trans hends.symm⟩
    · rw [Walks.cursor_concat]
    · obtain ⟨nextCursor, hnext⟩ := Option.ne_none_iff_exists'.1 (Walks.not_ends hends).2.1
      have hnext : page.cursor = some nextCursor := hnext
      rw [Walks.cursor_concat, map_append, map_append]
      show log.map Prod.fst ++ [Walks.cursor log] ++ [page.cursor] =
        none :: (state.seenCursors.map some ++ page.cursor.toList.map some)
      rw [h.seen hopen, hnext]
      rfl

/-! ## What holds between the steps -/

def Covered (state : MemberPageState α) (request : Request) : Prop :=
  state.complete = true ∨ request.requestedEnd ≤ state.members.length

def Request.idle : Request → Prop
  | .recent _ limit => limit ≤ 0
  | .all            => False

def Told (state : MemberPageState α) (request : Request) (reply : Reply α) : Prop :=
  reply.members = (request.reply state).members ∧ (request.idle ∨ Covered state request)

/-- What holds of a call; `pending` is whether a page is under way. -/
def CallInv (state : MemberPageState α) (pending : Bool) (settled : Nat) (call : Call α) : Prop :=
  match call.phase with
  | .checking      => call.checks ≤ settled
  | .waiting       => call.checks ≤ settled + 1 ∧ pending = true
  | .loaded        => call.checks ≤ settled + 1 ∧ Covered state call.request
  | .replied reply => call.checks ≤ settled + 1 ∧ Told state call.request reply
  | .failed        => call.checks ≤ settled + 1

structure Inv (s : State α) : Prop where
  walk : Walks.Walk maximum s.log s.state.complete
  shows : Shows s.state s.log
  requesting : ∀ cursor limit, s.pending = some (.requesting cursor limit) →
    s.state.complete = false ∧ s.state.members.length < maximum ∧ cursor = Walks.cursor s.log
  settled : s.settled + (if s.pending = some .persisting then 1 else 0) ≤ s.log.length
  calls : ∀ call ∈ s.calls, CallInv s.state s.pending.isSome s.settled call

theorem Inv.start : Inv ({} : State α) :=
  ⟨.start, shows_start, fun _ _ h => (by cases h), Nat.le_refl 0, fun _ h => absurd h not_mem_nil⟩

theorem slice_append {l m : List α} {offset limit : Nat} (h : offset + limit ≤ l.length) :
    ((l ++ m).drop offset).take limit = (l.drop offset).take limit := by
  rw [drop_append_of_le_length (by omega), take_append_of_le_length (by rw [length_drop]; omega)]

variable {s s' : State α}

theorem members_add (state : MemberPageState α) (page : MemberPage α) :
    (state.add page).members = state.members ++ page.members := by
  unfold MemberPageState.add
  dsimp only
  split <;> rfl

variable {request : Request}

theorem Covered.add (h : Covered state request)
    (hopen : state.complete = false) (page : MemberPage α) : Covered (state.add page) request := by
  rcases h with hcomplete | hend
  · rw [hopen] at hcomplete
    cases hcomplete
  · refine .inr ?_
    rw [members_add, length_append]
    omega

/-- **A page that comes changes no reply.** -/
theorem Told.add {reply : Reply α} (h : Told state request reply)
    (hopen : state.complete = false) (hfew : state.members.length < maximum) (page : MemberPage α) :
    Told (state.add page) request reply := by
  refine ⟨h.1.trans ?_, h.2.imp_right (fun hcovered => hcovered.add hopen page)⟩
  cases request with
  | all                 =>
    rcases h.2 with hidle | hcomplete | hend
    · exact hidle.elim
    · rw [hopen] at hcomplete
      cases hcomplete
    · exact absurd hend (Nat.not_le.2 hfew)
  | recent offset limit =>
    show ((state.members.drop (atLeastZero offset)).take (atLeastZero limit)) =
      (((state.add page).members.drop (atLeastZero offset)).take (atLeastZero limit))
    rw [members_add]
    rcases h.2 with hidle | hcomplete | hend
    · have hnone : atLeastZero limit = 0 := Int.toNat_of_nonpos hidle
      rw [hnone, take_zero, take_zero]
    · rw [hopen] at hcomplete
      cases hcomplete
    · have hend : min maximum (atLeastZero offset + atLeastZero limit) ≤ state.members.length := hend
      exact (slice_append (by omega)).symm

theorem CallInv.mono {pending pending' : Bool} {settled settled' : Nat} {call : Call α}
    (h : CallInv state pending settled call) (hsettled : settled ≤ settled')
    (hpending : call.phase = .waiting → pending = true → pending' = true) :
    CallInv state pending' settled' call := by
  unfold CallInv at h ⊢
  split at h
  · exact Nat.le_trans h hsettled
  · rename_i hphase
    exact ⟨Nat.le_trans h.1 (Nat.succ_le_succ hsettled), hpending hphase h.2⟩
  · exact ⟨Nat.le_trans h.1 (Nat.succ_le_succ hsettled), h.2⟩
  · exact ⟨Nat.le_trans h.1 (Nat.succ_le_succ hsettled), h.2⟩
  · exact Nat.le_trans h (Nat.succ_le_succ hsettled)

theorem CallInv.add {pending : Bool} {settled : Nat} {call : Call α}
    (h : CallInv state pending settled call) (hopen : state.complete = false) (hfew : state.members.length < maximum)
    (page : MemberPage α) : CallInv (state.add page) true settled call := by
  unfold CallInv at h ⊢
  split at h
  · exact h
  · exact ⟨h.1, rfl⟩
  · exact ⟨h.1, h.2.add hopen page⟩
  · exact ⟨h.1, h.2.add hopen hfew page⟩
  · exact h

theorem CallInv.wake {pending : Bool} {settled settled' : Nat} {call : Call α}
    (h : CallInv state pending settled call) {phase : CallPhase α}
    (hphase : (phase = .checking ∧ settled' = settled + 1) ∨ (phase = .failed ∧ settled ≤ settled')) :
    CallInv state false settled' (call.wake phase) := by
  have hsettled : settled ≤ settled' := by omega
  by_cases hwaiting : call.phase = .waiting
  · have hwake : call.wake phase = { call with phase := phase } := by
      unfold Call.wake
      rw [hwaiting]
    unfold CallInv at h
    rw [hwaiting] at h
    rw [hwake]
    rcases hphase with ⟨rfl, rfl⟩ | ⟨rfl, hle⟩
    · exact h.1
    · exact Nat.le_trans h.1 (Nat.succ_le_succ hle)
  · have hwake : call.wake phase = call := by
      unfold Call.wake
      split
      · rename_i heq
        exact absurd heq hwaiting
      · rfl
    rw [hwake]
    exact h.mono hsettled (fun hin => absurd hin hwaiting)

theorem calls_set {P : Call α → Prop} {calls : List (Call α)} (h : ∀ call ∈ calls, P call) (i : Nat) {call : Call α}
    (hcall : P call) : ∀ call' ∈ calls.set i call, P call' := by
  intro call' hmem
  rcases mem_or_eq_of_mem_set hmem with hmem | rfl
  · exact h call' hmem
  · exact hcall

theorem Inv.call (h : Inv s) (request : Request) : Inv { s with calls := s.calls ++ [⟨request, request.start, 0⟩] } := by
  refine ⟨h.walk, h.shows, h.requesting, h.settled, fun call hmem => ?_⟩
  rcases mem_append.1 hmem with hmem | hmem
  · exact h.calls call hmem
  · rw [mem_singleton.1 hmem]
    cases request with
    | all                 => exact Nat.zero_le _
    | recent offset limit =>
      unfold Request.start
      dsimp only
      split
      · rename_i hidle
        refine ⟨Nat.zero_le _, ?_, .inl hidle⟩
        have hnone : atLeastZero limit = 0 := Int.toNat_of_nonpos hidle
        show [] = (s.state.members.drop (atLeastZero offset)).take (atLeastZero limit)
        rw [hnone, take_zero]
      · exact Nat.zero_le _

def Fresh (s s' : State α) : Prop :=
  s'.requests = s.requests ∨ ∃ cursor, s'.requests = s.requests ++ [cursor] ∧ cursor ∉ s.log.map Prod.fst

theorem Inv.resume (h : Inv s) {i : Nat} (hs : step s (.resume i) = some s') : Inv s' ∧ Fresh s s' := by
  dsimp only [step] at hs
  split at hs
  · rename_i request checks hi
    have hcall := h.calls _ (mem_of_getElem? hi)
    have hchecks : checks ≤ s.settled := hcall
    split at hs
    · rename_i hcovered
      cases hs
      exact ⟨⟨h.walk, h.shows, h.requesting, h.settled, calls_set h.calls i ⟨Nat.succ_le_succ hchecks, hcovered⟩⟩, .inl rfl⟩
    · rename_i hmore
      have hopen : s.state.complete = false := Bool.eq_false_iff.2 (fun hcomplete => hmore (.inl hcomplete))
      split at hs
      · rename_i loading hpending
        cases hs
        refine ⟨⟨h.walk, h.shows, h.requesting, h.settled, calls_set h.calls i ⟨Nat.succ_le_succ hchecks, ?_⟩⟩, .inl rfl⟩
        rw [hpending]
        rfl
      · rename_i hpending
        cases hs
        have hcursor := h.shows.cursor hopen
        have hend : request.requestedEnd ≤ maximum := by
          cases request with
          | all                 => exact Nat.le_refl _
          | recent offset limit => exact Nat.min_le_left _ _
        have hfew : s.state.members.length < maximum := by
          have hlt := Nat.not_le.1 (fun hle => hmore (.inr hle))
          omega
        have hsettled := h.settled
        rw [hpending] at hsettled
        refine ⟨⟨h.walk, h.shows, fun cursor limit heq => ?_, hsettled, ?_⟩, .inr ⟨_, rfl, ?_⟩⟩
        · cases heq
          exact ⟨hopen, hfew, hcursor⟩
        · refine calls_set (fun call hmem => ?_) i ⟨Nat.succ_le_succ hchecks, rfl⟩
          exact (h.calls call hmem).mono (Nat.le_refl _) (fun _ _ => rfl)
        · rw [hcursor]
          exact h.walk.nodup.2 hopen
  · cases hs

theorem Inv.reply (h : Inv s) {i : Nat} (hs : step s (.reply i) = some s') : Inv s' := by
  dsimp only [step] at hs
  split at hs
  · rename_i request checks hi
    cases hs
    have hcall : checks ≤ s.settled + 1 ∧ Covered s.state request := h.calls _ (mem_of_getElem? hi)
    exact ⟨h.walk, h.shows, h.requesting, h.settled, calls_set h.calls i ⟨hcall.1, rfl, .inr hcall.2⟩⟩
  · cases hs

theorem Inv.answers (h : Inv s) {page : MemberPage α} (hs : step s (.answers page) = some s') : Inv s' := by
  dsimp only [step] at hs
  split at hs
  · rename_i cursor limit hpending
    cases hs
    obtain ⟨hopen, hfew, rfl⟩ := h.requesting cursor limit hpending
    obtain ⟨hshows, hcomplete⟩ := h.shows.add hopen page
    have hwalk := h.walk
    rw [hopen] at hwalk
    have hsettled := h.settled
    rw [hpending] at hsettled
    refine ⟨?_, hshows, fun _ _ heq => (by cases heq), ?_, fun call hmem => (h.calls call hmem).add hopen hfew page⟩
    · show Walks.Walk maximum _ (s.state.add page).complete
      rw [hcomplete]
      exact .page _ hwalk (h.shows.members ▸ hfew)
    · rw [if_pos rfl, length_append, length_singleton]
      exact Nat.succ_le_succ (Nat.le_trans (Nat.le_add_right _ _) hsettled)
  · cases hs

theorem Inv.settle (h : Inv s) {phase : CallPhase α} {settled : Nat}
    (hphase : (phase = .checking ∧ settled = s.settled + 1) ∨ (phase = .failed ∧ s.settled ≤ settled))
    (hlog : settled ≤ s.log.length) : Inv { s.settle phase with settled := settled } := by
  refine ⟨h.walk, h.shows, fun _ _ heq => (by cases heq), hlog, fun call hmem => ?_⟩
  obtain ⟨call', hmem', rfl⟩ := mem_map.1 hmem
  exact (h.calls call' hmem').wake hphase

variable {e : Event α}

/-- **A step keeps the walk and what was told of it.** -/
theorem Inv.step (h : Inv s) (hs : step s e = some s') : Inv s' := by
  cases e with
  | call request =>
    cases hs
    exact h.call request
  | resume i     => exact (h.resume hs).1
  | reply i      => exact h.reply hs
  | answers page => exact h.answers hs
  | refuses      =>
    dsimp only [MemberPages.step] at hs
    split at hs
    · cases hs
      exact h.settle (.inr ⟨rfl, Nat.le_refl _⟩) (Nat.le_trans (Nat.le_add_right _ _) h.settled)
    · cases hs
  | persisted    =>
    dsimp only [MemberPages.step] at hs
    split at hs
    · rename_i hpending
      cases hs
      have hsettled := h.settled
      rw [hpending, if_pos rfl] at hsettled
      exact h.settle (.inl ⟨rfl, rfl⟩) hsettled
    · cases hs
  | persistFails =>
    dsimp only [MemberPages.step] at hs
    split at hs
    · rename_i hpending
      cases hs
      have hsettled := h.settled
      rw [hpending, if_pos rfl] at hsettled
      exact h.settle (.inr ⟨rfl, Nat.le_succ _⟩) hsettled
    · cases hs

theorem Inv.reachable {ok : State α → Event α → Prop} (hr : Runs.Reachable MemberPages.step ok {} s) : Inv s :=
  hr.invariant .start (fun _ _ _ _ h _ hs => h.step hs)

/-! ## What is asked for -/

theorem Inv.fresh (h : Inv s) (hs : MemberPages.step s e = some s') : Fresh s s' := by
  cases e with
  | resume i     => exact (h.resume hs).2
  | call request =>
    cases hs
    exact .inl rfl
  | reply i      =>
    dsimp only [MemberPages.step] at hs
    split at hs
    · cases hs
      exact .inl rfl
    · cases hs
  | _            =>
    dsimp only [MemberPages.step] at hs
    split at hs
    · cases hs
      exact .inl rfl
    · cases hs

def Loading.cursors : Option Loading → List (Option String)
  | some (.requesting cursor _) => [cursor]
  | _                           => []

def Answered (_ : State α) (e : Event α) : Prop := match e with
  | .refuses => False
  | _        => True

theorem requests_step (h : s.requests = s.log.map Prod.fst ++ Loading.cursors s.pending)
    (hok : Answered s e) (hs : MemberPages.step s e = some s') :
    s'.requests = s'.log.map Prod.fst ++ Loading.cursors s'.pending := by
  cases e with
  | call request =>
    cases hs
    exact h
  | resume i     =>
    dsimp only [MemberPages.step] at hs
    split at hs
    · split at hs
      · cases hs
        exact h
      · split at hs
        · cases hs
          exact h
        · rename_i hpending
          cases hs
          rw [hpending] at h
          show s.requests ++ [s.state.nextCursor] = s.log.map Prod.fst ++ [s.state.nextCursor]
          rw [h]
          exact congrArg (· ++ [s.state.nextCursor]) (append_nil _)
    · cases hs
  | reply i      =>
    dsimp only [MemberPages.step] at hs
    split at hs
    · cases hs
      exact h
    · cases hs
  | answers page =>
    dsimp only [MemberPages.step] at hs
    split at hs
    · rename_i cursor limit hpending
      cases hs
      rw [hpending] at h
      show s.requests = (s.log ++ [(cursor, _)]).map Prod.fst ++ []
      rw [h, map_append, append_nil]
      rfl
    · cases hs
  | refuses      => exact hok.elim
  | persisted    =>
    dsimp only [MemberPages.step] at hs
    split at hs
    · rename_i hpending
      cases hs
      rw [hpending] at h
      exact h
    · cases hs
  | persistFails =>
    dsimp only [MemberPages.step] at hs
    split at hs
    · rename_i hpending
      cases hs
      rw [hpending] at h
      exact h
    · cases hs

/-- **Where nothing is refused, no page is asked for twice.** -/
theorem requests_nodup (hr : Runs.Reachable MemberPages.step Answered {} s) : s.requests.Nodup := by
  have h := Inv.reachable hr
  have hrequests := hr.invariant (I := fun s => s.requests = s.log.map Prod.fst ++ Loading.cursors s.pending) rfl
    (fun _ _ _ _ h hok hs => requests_step h hok hs)
  obtain ⟨hnodup, hfresh⟩ := h.walk.nodup
  rw [hrequests]
  cases hpending : s.pending with
  | none         => exact append_nil _ ▸ hnodup
  | some loading =>
    cases loading with
    | persisting              => exact append_nil _ ▸ hnodup
    | requesting cursor limit =>
      obtain ⟨hopen, _, rfl⟩ := h.requesting cursor limit hpending
      refine nodup_append.2 ⟨hnodup, pairwise_singleton _ _, fun c hc c' hc' heq => hfresh hopen ?_⟩
      rw [heq, mem_singleton.1 hc'] at hc
      exact hc

/-! ## What is told -/

def slice (members : List α) (offset limit : Int) : List α :=
  (members.drop (atLeastZero offset)).take (atLeastZero limit)

theorem told_step (h : Inv s) {reply : Reply α} (htold : Told s.state request reply)
    (hs : MemberPages.step s e = some s') : Told s'.state request reply := by
  cases e with
  | call request =>
    cases hs
    exact htold
  | answers page =>
    dsimp only [MemberPages.step] at hs
    split at hs
    · rename_i cursor limit hpending
      cases hs
      obtain ⟨hopen, hfew, _⟩ := h.requesting cursor limit hpending
      exact htold.add hopen hfew page
    · cases hs
  | resume i     =>
    dsimp only [MemberPages.step] at hs
    split at hs
    · split at hs
      · cases hs
        exact htold
      · split at hs <;> (cases hs; exact htold)
    · cases hs
  | _            =>
    dsimp only [MemberPages.step] at hs
    split at hs
    · cases hs
      exact htold
    · cases hs

/-- **What is told is a stretch of the whole walk.** -/
theorem Inv.told_full (h : Inv s) {offset limit : Int} {reply : Reply α} (htold : Told s.state (.recent offset limit) reply)
    {pages : Option String → Walks.Page α String} (hpages : Walks.Answers pages s.log) :
    reply.members = slice (Walks.items (Walks.full pages maximum)) offset limit := by
  obtain ⟨hstart, hfinal⟩ := h.walk.prefix_full hpages
  have hmembers : reply.members = slice (Walks.items s.log) offset limit := by
    rw [← h.shows.members]
    exact htold.1
  have hwhole : Walks.Final maximum s.log s.state.complete →
      reply.members = slice (Walks.items (Walks.full pages maximum)) offset limit := fun hend => by
    rw [hmembers, hfinal hend]
  rcases htold.2 with hidle | hcomplete | hend
  · have hnone : atLeastZero limit = 0 := Int.toNat_of_nonpos hidle
    rw [hmembers, slice, slice, hnone, take_zero, take_zero]
  · exact hwhole (.inl hcomplete)
  · have hend : min maximum (atLeastZero offset + atLeastZero limit) ≤ s.state.members.length := hend
    rw [h.shows.members] at hend
    by_cases hmany : maximum ≤ (Walks.items s.log).length
    · exact hwhole (.inr hmany)
    · obtain ⟨rest, hrest⟩ := Walks.items_start hstart
      rw [hmembers, ← hrest]
      exact (slice_append (by omega)).symm

/-- **What holds in every state of the calls of a conversation.** -/
structure MemberLaws (s : State α) : Prop where
  /-- The members are those of the pages that came, and these are one walk, over when the state is complete. -/
  walk : s.state.members = Walks.items s.log ∧ Walks.Walk maximum s.log s.state.complete
  /-- Where a cursor always leads to the same page, they are the beginning of the whole walk. -/
  prefixed : ∀ pages, Walks.Answers pages s.log → s.state.members <+: Walks.items (Walks.full pages maximum)
  fresh : ∀ e s', step s e = some s' → Fresh s s'
  /-- The loops end: there are at most so many pages and turns, and a call only waits for a page that is under way. -/
  ends : s.log.length ≤ maximum ∧
    ∀ call ∈ s.calls, call.checks ≤ maximum + 1 ∧ (call.phase = .waiting → s.pending.isSome = true)
  /-- A reply has the members between its offset and limit, whatever comes later, and those of the whole walk. -/
  replies : ∀ call ∈ s.calls, ∀ offset limit reply, call.request = .recent offset limit → call.phase = .replied reply →
    (∀ s', Runs.Reachable step (fun _ _ => True) s s' → reply.members = slice s'.state.members offset limit) ∧
    ∀ pages, Walks.Answers pages s.log → reply.members = slice (Walks.items (Walks.full pages maximum)) offset limit

/-- **The calls of a conversation share one walk**, which asks for no page twice where nothing is refused. -/
theorem memberLaws (α : Type) : (∀ s : State α, Runs.Reachable step (fun _ _ => True) {} s → MemberLaws s) ∧
    ∀ s : State α, Runs.Reachable step Answered {} s → s.requests.Nodup := by
  refine ⟨fun s hr => ?_, fun s hr => requests_nodup hr⟩
  have h := Inv.reachable hr
  refine ⟨⟨h.shows.members, h.walk⟩, fun pages hpages => ?_, fun e s' hs => h.fresh hs, ⟨h.walk.length_le, ?_⟩, ?_⟩
  · rw [h.shows.members]
    exact Walks.items_start (h.walk.prefix_full hpages).1
  · intro call hmem
    have hcall := h.calls call hmem
    have hsettled := Nat.le_trans (Nat.le_add_right _ _) h.settled
    have hlength := h.walk.length_le
    unfold CallInv at hcall
    split at hcall
    · rename_i hphase
      exact ⟨by omega, fun hwaiting => (by rw [hphase] at hwaiting; cases hwaiting)⟩
    · exact ⟨by omega, fun _ => hcall.2⟩
    · rename_i hphase
      exact ⟨by omega, fun hwaiting => (by rw [hphase] at hwaiting; cases hwaiting)⟩
    · rename_i hphase
      exact ⟨by omega, fun hwaiting => (by rw [hphase] at hwaiting; cases hwaiting)⟩
    · rename_i hphase
      exact ⟨by omega, fun hwaiting => (by rw [hphase] at hwaiting; cases hwaiting)⟩
  · intro call hmem offset limit reply hrequest hphase
    have hcall := h.calls call hmem
    unfold CallInv at hcall
    rw [hphase] at hcall
    have htold : Told s.state (.recent offset limit) reply := hrequest ▸ hcall.2
    refine ⟨fun s' hr' => ?_, fun pages hpages => h.told_full htold hpages⟩
    have hlater := hr'.invariant (I := fun s => Inv s ∧ Told s.state (.recent offset limit) reply) ⟨h, htold⟩
      (fun _ _ _ _ hboth _ hs => ⟨hboth.1.step hs, told_step hboth.1 hboth.2 hs⟩)
    exact hlater.2.1

def overshoot (members : List Nat) : List (Event Nat) :=
  [.call (.recent 10000 1), .resume 0, .answers ⟨members, none, some "next"⟩, .persisted, .resume 0, .reply 0]

def overshot (members : List Nat) : MemberPageState Nat :=
  { members := members, nextCursor := some "next", seenCursors := ["next"] }

def overshotWith (members : List Nat) (phase : CallPhase Nat) (checks : Nat) : State Nat :=
  ⟨overshot members, none, [⟨.recent 10000 1, phase, checks⟩], [(none, ⟨members, none, some "next"⟩)], [none], 1⟩

theorem overshoot_told (members : List Nat) (h : members.length = 10001) :
    ∃ s, Runs.run step {} (overshoot members) = some s ∧ ∃ call ∈ s.calls, call.request = .recent 10000 1 ∧
      ∃ reply, call.phase = .replied reply ∧ reply.members = slice members 10000 1 := by
  have hadd : ({} : MemberPageState Nat).add ⟨members, none, some "next"⟩ = overshot members := by
    cases members with
    | nil      => cases h
    | cons a l => rfl
  have hanswers : step ⟨{}, some (.requesting none 500), [⟨.recent 10000 1, .waiting, 1⟩], [], [none], 0⟩
      (.answers ⟨members, none, some "next"⟩) = some ⟨overshot members, some .persisting,
        [⟨.recent 10000 1, .waiting, 1⟩], [(none, ⟨members, none, some "next"⟩)], [none], 0⟩ := by
    rw [← hadd]
    rfl
  have hloaded : step (overshotWith members .checking 1) (.resume 0) = some (overshotWith members .loaded 2) := by
    have hend : (Request.recent 10000 1).requestedEnd ≤ members.length := by
      rw [h]
      decide
    exact if_pos (.inr hend)
  let reply : Reply Nat := (Request.recent 10000 1).reply (overshot members)
  refine ⟨overshotWith members (.replied reply) 2, ?_, _, mem_singleton_self _, rfl, reply, rfl, rfl⟩
  show (step ⟨{}, some (.requesting none 500), [⟨.recent 10000 1, .waiting, 1⟩], [], [none], 0⟩
    (.answers ⟨members, none, some "next"⟩)).bind (fun s => Runs.run step s [.persisted, .resume 0, .reply 0]) = _
  rw [hanswers]
  show (step (overshotWith members .checking 1) (.resume 0)).bind (fun s => Runs.run step s [.reply 0]) = _
  rw [hloaded]
  rfl

theorem overshoot_not_cut :
    ∃ s, Runs.run step {} (overshoot (List.replicate 10001 7)) = some s ∧ ∃ call ∈ s.calls, call.request = .recent 10000 1 ∧
      ∃ reply, call.phase = .replied reply ∧ reply.members ≠ slice ((List.replicate 10001 7).take maximum) 10000 1 := by
  obtain ⟨s, hrun, call, hcall, hrequest, reply, hphase, hmembers⟩ :=
    overshoot_told (List.replicate 10001 7) length_replicate
  refine ⟨s, hrun, call, hcall, hrequest, reply, hphase, fun heq => ?_⟩
  have hlengths := congrArg List.length (hmembers.symm.trans heq)
  unfold slice at hlengths
  rw [length_take, length_drop, length_take, length_drop, length_take, length_replicate] at hlengths
  exact absurd hlengths (by decide)

end MemberPages
end Crossgram
