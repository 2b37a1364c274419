import Mathlib.Data.List.Basic
import Mathlib.Algebra.BigOperators.Group.List.Basic
import Mathlib.Algebra.GroupWithZero.Nat
import Mathlib.Algebra.Order.Group.Unbundled.Int
import Mathlib.Algebra.Order.Ring.Int
import Crossgram.Lib.Runs
/-!
# MentionCounts — the unread mention counts of dialogs (packages/bridge/src/dialogs.ts, message-store.ts)

One conversation of one `DialogRpc`: its mention rows in the store, the count cached for it, and the calls that are
under way.  A call of `getDialogs` or `getPeerDialogs` reads the count and caches it, then brings the mention of the
conversation's last message up to date, and answers with the cached count and what it changed itself.  Between the
awaits other calls write the same entry.  Each call of the store is one step, and so is what a call does after it.

What the rows counted is kept as a history, and with the cached count the moment of that history it stands for.
-/
namespace Crossgram

open List

/-! ## The rows -/

structure MentionRow where
  messageId : Nat
  tlMessageId : Int
  unread : Bool
deriving DecidableEq

def countUnreadMentions (rows : List MentionRow) : Nat := rows.countP (fun row => row.unread)

/-- `setMessageMentioned`; `messageOf` is the message whose first part has a Telegram id in the conversation. -/
def setMessageMentioned (messageOf : Int → Option Nat) (rows : List MentionRow) (tlMessageId : Int)
    (mentioned unreadIfNew : Bool) : List MentionRow × Bool :=
  match messageOf tlMessageId with
  | none           => (rows, false)
  | some messageId =>
    if mentioned = false then (rows.filter (fun row => row.messageId ≠ messageId), false)
    else if rows.any (fun row => row.messageId = messageId) then
      (rows.map (fun row => if row.messageId = messageId then { row with tlMessageId := tlMessageId } else row), false)
    else (rows ++ [⟨messageId, tlMessageId, unreadIfNew⟩], unreadIfNew)

/-- `markMentionsRead`, with the number of rows it changed. -/
def markMentionsRead (rows : List MentionRow) : List MentionRow × Nat :=
  (rows.map (fun row => { row with unread := false }), countUnreadMentions rows)

/-- `markMentionIdsRead`, with the number of rows it changed. -/
def markMentionIdsRead (rows : List MentionRow) (ids : List Int) : List MentionRow × Nat :=
  (rows.map (fun row => if row.tlMessageId ∈ ids then { row with unread := false } else row),
    rows.countP (fun row => row.unread && row.tlMessageId ∈ ids))

/-! ## The cached count -/

structure CountSource where
  moment : Nat
  adjustments : List Int
deriving DecidableEq

structure CachedCount where
  count : Int
  source : Option CountSource
deriving DecidableEq

def CountSource.add (source : CountSource) (δ : Int) : CountSource :=
  if δ = 0 then source else { source with adjustments := source.adjustments ++ [δ] }

def CachedCount.add (cached : CachedCount) (δ : Int) : CachedCount :=
  ⟨cached.count + δ, cached.source.map (fun source => source.add δ)⟩

/-- `Math.max(0, count - changedIds.length)`; a count cut off at zero has no source. -/
def CachedCount.lower (cached : CachedCount) (changed : Nat) : CachedCount :=
  if cached.count < changed then ⟨0, none⟩ else cached.add (-changed)

def changes : List Nat → List Int
  | a :: b :: l => ((b : Int) - a) :: changes (b :: l)
  | _           => []

def changesBetween (counts : List Nat) (moment stop : Nat) : List Int :=
  (changes (counts.drop moment)).take (stop - moment)

/-- **The count is of a moment not before `start`**: what was added to it since it was read is, in some order, how the
rows changed up to that moment. -/
def CachedCount.isFresh (counts : List Nat) (start : Nat) (cached : CachedCount) : Bool :=
  match cached.source with
  | none        => false
  | some source => (List.range counts.length).any (fun m =>
      source.moment ≤ m && start ≤ m && (changesBetween counts source.moment m).isPerm source.adjustments)

/-! ## Calls under way -/

/-- The message a dialog shows, as `_syncMentionStates` looks at it. -/
structure TopMessage where
  tlId : Int
  ordinal : Nat
  outgoing : Bool
  mentioned : Bool
deriving DecidableEq

/-- Where a call stands: before the preload; with the count read; before the mentions are brought up to date; about to
count, to mark or to create; before the cached count is used; about to count again; with that count. -/
inductive DialogPhase
  | started
  | preloaded (count moment : Nat)
  | materializing
  | counting
  | marking
  | creating (tlId : Int) (unreadIfNew : Bool)
  | synced (created : Int)
  | recounting
  | recounted (count moment : Nat)
deriving DecidableEq

/-- A call of `getDialogs` or `getPeerDialogs`, since the moment `start`. -/
structure DialogCall where
  top : Option TopMessage
  unreadCount : Nat
  start : Nat
  phase : DialogPhase
deriving DecidableEq

inductive MentionReader
  | all
  | allMarked (moment : Nat)
  | contents (ids : List Int)
  | contentsMarked (changed : Nat)
deriving DecidableEq

/-- The `unreadMentionsCount` of a returned dialog, with the moments its call began and ended. -/
structure MentionAnswer where
  start : Nat
  stop : Nat
  count : Int
deriving DecidableEq

structure MentionState where
  rows : List MentionRow
  counts : List Nat
  cache : Option CachedCount
  calls : List DialogCall
  readers : List MentionReader
  answers : List MentionAnswer
deriving DecidableEq

inductive MentionAction
  | getDialogs (top : Option TopMessage) (unreadCount : Nat)
  | dialogs (index : Nat)
  | readMentions
  | readMessageContents (ids : List Int)
  | reader (index : Nat)
  | publish (tlMessageId : Int)

namespace MentionState

def now (s : MentionState) : Nat := s.counts.length - 1

def write (s : MentionState) (rows : List MentionRow) : MentionState :=
  { s with
    rows := rows
    counts := if countUnreadMentions rows = countUnreadMentions s.rows then s.counts
      else s.counts ++ [countUnreadMentions rows] }

def setCall (s : MentionState) (index : Nat) (call : DialogCall) (phase : DialogPhase) : MentionState :=
  { s with calls := s.calls.set index { call with phase := phase } }

def answer (s : MentionState) (index : Nat) (call : DialogCall) (cached : CachedCount) : MentionState :=
  { s with
    cache := some cached
    calls := s.calls.eraseIdx index
    answers := s.answers ++ [⟨call.start, s.now, cached.count⟩] }

section Steps

variable (direct : Bool) (messageOf : Int → Option Nat)

/-- The next step of a call: `_preloadUnreadMentionCounts`, `_syncMentionStates` for the last message, and the count of
`_materializeDialog`. -/
def stepCall (s : MentionState) (index : Nat) (call : DialogCall) : MentionState :=
  match call.phase with
  | .started => s.setCall index call (.preloaded (countUnreadMentions s.rows) s.now)
  | .preloaded count moment => { s with cache := some ⟨count, some ⟨moment, []⟩⟩ }.setCall index call .materializing
  | .materializing =>
    match call.top with
    | none      => s.setCall index call (.synced 0)
    | some item =>
      if direct then
        match s.cache with
        | none        => s.setCall index call .counting
        | some cached => s.setCall index call (if cached.count = 0 then .synced 0 else .marking)
      else if item.ordinal = 0 ∧ item.mentioned then
        s.setCall index call (.creating item.tlId (!item.outgoing && 0 < call.unreadCount))
      else s.setCall index call (.synced 0)
  | .counting => s.setCall index call (if countUnreadMentions s.rows = 0 then .synced 0 else .marking)
  | .marking =>
    (s.write (markMentionsRead s.rows).1).setCall index call (.synced (-(markMentionsRead s.rows).2))
  | .creating tlId unreadIfNew =>
    let set := setMessageMentioned messageOf s.rows tlId true unreadIfNew
    (s.write set.1).setCall index call (.synced (if set.2 then 1 else 0))
  | .synced created =>
    match s.cache with
    | none        => s.setCall index call .recounting
    | some cached => s.answer index call (cached.add created)
  | .recounting => s.setCall index call (.recounted (countUnreadMentions s.rows) s.now)
  | .recounted count moment => s.answer index call ⟨count, some ⟨moment, []⟩⟩

def stepReader (s : MentionState) (index : Nat) : MentionReader → MentionState
  | .all =>
    let written := s.write (markMentionsRead s.rows).1
    { written with readers := s.readers.set index (.allMarked written.now) }
  | .allMarked moment => { s with cache := some ⟨0, some ⟨moment, []⟩⟩, readers := s.readers.eraseIdx index }
  | .contents ids =>
    let marked := markMentionIdsRead s.rows ids
    { s.write marked.1 with readers := s.readers.set index (.contentsMarked marked.2) }
  | .contentsMarked changed =>
    { s with
      cache := if changed = 0 then s.cache else s.cache.map (fun cached => cached.lower changed)
      readers := s.readers.eraseIdx index }

def step (s : MentionState) : MentionAction → Option MentionState
  | .getDialogs top unreadCount => some { s with calls := s.calls ++ [⟨top, unreadCount, s.now, .started⟩] }
  | .dialogs index => (s.calls[index]?).map (stepCall direct messageOf s index)
  | .readMentions => some { s with readers := s.readers ++ [.all] }
  | .readMessageContents ids => some { s with readers := s.readers ++ [.contents ids] }
  | .reader index => (s.readers[index]?).map (stepReader s index)
  | .publish tlMessageId => some (s.write (setMessageMentioned messageOf s.rows tlMessageId true true).1)

end Steps

def init (rows : List MentionRow) : MentionState := ⟨rows, [countUnreadMentions rows], none, [], [], []⟩

/-! ## When an answer is a count -/

def returnsFresh (s : MentionState) : MentionAction → Bool
  | .dialogs index =>
    match s.calls[index]? with
    | none      => true
    | some call =>
      match call.phase, s.cache with
      | .synced created, some cached => (cached.add created).isFresh s.counts call.start
      | _,               _           => true
  | _ => true

def StandsFor (counts : List Nat) (cached : CachedCount) : Prop :=
  ∀ source, cached.source = some source →
    ∃ n, counts[source.moment]? = some n ∧ cached.count = n + source.adjustments.sum

variable {counts : List Nat}

theorem standsFor_of_count {n m : Nat} (h : counts[m]? = some n) :
    StandsFor counts ⟨n, some ⟨m, []⟩⟩ := by
  intro source hs
  cases hs
  exact ⟨n, h, by simp⟩

variable {cached : CachedCount}

theorem StandsFor.add (h : StandsFor counts cached) (δ : Int) :
    StandsFor counts (cached.add δ) := by
  intro source hs
  obtain ⟨before, hbefore, rfl⟩ := Option.map_eq_some_iff.1 hs
  obtain ⟨n, hn, hcount⟩ := h before hbefore
  unfold CountSource.add CachedCount.add
  split
  · rename_i hzero
    exact ⟨n, hn, by dsimp only; omega⟩
  · refine ⟨n, hn, ?_⟩
    rw [sum_append, sum_singleton]
    dsimp only
    omega

theorem StandsFor.lower (h : StandsFor counts cached) (changed : Nat) :
    StandsFor counts (cached.lower changed) := by
  unfold CachedCount.lower
  split
  · intro source hs
    cases hs
  · exact h.add _

theorem changes_sum : ∀ (k : Nat) (l : List Nat) {a n : Nat}, l[0]? = some a → l[k]? = some n →
    (n : Int) = a + ((changes l).take k).sum
  | 0,     l,           a, n, ha, hn => by
    rw [ha, Option.some.injEq] at hn
    simp [hn]
  | k + 1, [],          _, _, ha, _  => by cases ha
  | k + 1, [x],         _, _, _,  hn => by cases hn
  | k + 1, x :: y :: l, a, n, ha, hn => by
    cases ha
    have ih := changes_sum k (y :: l) rfl (getElem?_cons_succ ▸ hn)
    rw [changes, take_succ_cons, sum_cons, ih]
    omega

theorem changesBetween_sum {moment stop a n : Nat} (h : moment ≤ stop)
    (ha : counts[moment]? = some a) (hn : counts[stop]? = some n) :
    (n : Int) = a + (changesBetween counts moment stop).sum := by
  have hstop : moment + (stop - moment) = stop := by omega
  refine changes_sum (stop - moment) (counts.drop moment) ?_ ?_
  · rw [getElem?_drop, Nat.add_zero]
    exact ha
  · rw [getElem?_drop, hstop]
    exact hn

variable {start : Nat}

/-- **A fresh count is the count of its moment.** -/
theorem StandsFor.of_isFresh (h : StandsFor counts cached)
    (hfresh : cached.isFresh counts start = true) :
    ∃ m n, start ≤ m ∧ counts[m]? = some n ∧ cached.count = n := by
  unfold CachedCount.isFresh at hfresh
  split at hfresh
  · cases hfresh
  · rename_i source hsource
    obtain ⟨m, hm, htest⟩ := any_eq_true.1 hfresh
    rw [Bool.and_eq_true, Bool.and_eq_true, decide_eq_true_eq, decide_eq_true_eq, isPerm_iff] at htest
    obtain ⟨⟨hle, hstart⟩, hperm⟩ := htest
    obtain ⟨a, ha, hcount⟩ := h source hsource
    obtain ⟨n, hget⟩ : ∃ n, counts[m]? = some n := ⟨_, getElem?_eq_getElem (mem_range.1 hm)⟩
    refine ⟨m, n, hstart, hget, ?_⟩
    rw [changesBetween_sum hle ha hget, hperm.sum_eq, hcount]

theorem getElem?_append_of_some {m n : Nat} (h : counts[m]? = some n) (more : List Nat) :
    (counts ++ more)[m]? = some n := by
  obtain ⟨hlt, _⟩ := List.getElem?_eq_some_iff.1 h
  rw [List.getElem?_append_left hlt]
  exact h

theorem StandsFor.append (h : StandsFor counts cached) (more : List Nat) :
    StandsFor (counts ++ more) cached := by
  intro source hs
  obtain ⟨n, hn, hcount⟩ := h source hs
  exact ⟨n, getElem?_append_of_some hn more, hcount⟩

structure PhaseHolds (counts : List Nat) (start : Nat) (phase : DialogPhase) : Prop where
  preloaded : ∀ count m, phase = .preloaded count m → counts[m]? = some count
  recounted : ∀ count m, phase = .recounted count m → counts[m]? = some count ∧ start ≤ m

variable {phase : DialogPhase}

theorem PhaseHolds.append (h : PhaseHolds counts start phase)
    (more : List Nat) : PhaseHolds (counts ++ more) start phase where
  preloaded := fun count m hphase => getElem?_append_of_some (h.preloaded count m hphase) more
  recounted := fun count m hphase =>
    ⟨getElem?_append_of_some (h.recounted count m hphase).1 more, (h.recounted count m hphase).2⟩

/-- The answer is the count of a moment between the start and the end of its call. -/
def IsCount (counts : List Nat) (answer : MentionAnswer) : Prop :=
  ∃ m n, answer.start ≤ m ∧ m ≤ answer.stop ∧ counts[m]? = some n ∧ answer.count = n

theorem IsCount.append {answer : MentionAnswer} (h : IsCount counts answer) (more : List Nat) :
    IsCount (counts ++ more) answer := by
  obtain ⟨m, n, hstart, hstop, hn, hcount⟩ := h
  exact ⟨m, n, hstart, hstop, getElem?_append_of_some hn more, hcount⟩

structure Inv (s : MentionState) : Prop where
  current : s.counts[s.now]? = some (countUnreadMentions s.rows)
  cache : ∀ cached, s.cache = some cached → StandsFor s.counts cached
  starts : ∀ call ∈ s.calls, call.start ≤ s.now
  phases : ∀ call ∈ s.calls, PhaseHolds s.counts call.start call.phase
  marked : ∀ m, MentionReader.allMarked m ∈ s.readers → s.counts[m]? = some 0
  answers : ∀ answer ∈ s.answers, IsCount s.counts answer

theorem inv_init (rows : List MentionRow) : Inv (init rows) where
  current := rfl
  cache := fun _ h => by cases h
  starts := fun _ h => by cases h
  phases := fun _ h => by cases h
  marked := fun _ h => by cases h
  answers := fun _ h => by cases h

variable {s : MentionState}

theorem le_now {m n : Nat} (h : s.counts[m]? = some n) : m ≤ s.now := by
  obtain ⟨hlt, _⟩ := List.getElem?_eq_some_iff.1 h
  unfold now
  omega

/-! ### What one step keeps -/

theorem Inv.write (h : Inv s) (rows : List MentionRow) : Inv (s.write rows) := by
  unfold MentionState.write
  by_cases hcount : countUnreadMentions rows = countUnreadMentions s.rows
  · rw [if_pos hcount]
    refine ⟨?_, h.cache, h.starts, h.phases, h.marked, h.answers⟩
    rw [hcount]
    exact h.current
  · rw [if_neg hcount]
    refine ⟨?_, fun cached hc => (h.cache cached hc).append _, fun call hcall => ?_,
      fun call hcall => (h.phases call hcall).append _, fun m hm => getElem?_append_of_some (h.marked m hm) _,
      fun answer ha => (h.answers answer ha).append _⟩
    · simp [now]
    · have hstart := h.starts call hcall
      unfold now at hstart ⊢
      simp only [length_append, length_singleton]
      omega

variable {index : Nat} {call : DialogCall}

theorem Inv.setCall (h : Inv s) (hcall : s.calls[index]? = some call)
    (hphase : PhaseHolds s.counts call.start phase) : Inv (s.setCall index call phase) := by
  have hmem : ∀ c ∈ s.calls.set index { call with phase := phase },
      c ∈ s.calls ∨ c = { call with phase := phase } := fun c hc => mem_or_eq_of_mem_set hc
  refine ⟨h.current, h.cache, fun c hc => ?_, fun c hc => ?_, h.marked, h.answers⟩
  · rcases hmem c hc with hold | rfl
    · exact h.starts c hold
    · exact h.starts call (mem_of_getElem? hcall)
  · rcases hmem c hc with hold | rfl
    · exact h.phases c hold
    · exact hphase

theorem Inv.setCache (h : Inv s) {cache : Option CachedCount}
    (hc : ∀ cached, cache = some cached → StandsFor s.counts cached) : Inv { s with cache := cache } where
  current := h.current
  cache := hc
  starts := h.starts
  phases := h.phases
  marked := h.marked
  answers := h.answers

/-- **A returned count that is the count of a moment of its call.** -/
theorem Inv.answer (h : Inv s) (hc : StandsFor s.counts cached)
    (hm : ∃ m n, call.start ≤ m ∧ s.counts[m]? = some n ∧ cached.count = n) : Inv (s.answer index call cached) := by
  have herase : ∀ c ∈ s.calls.eraseIdx index, c ∈ s.calls := fun c hcc => mem_of_mem_eraseIdx hcc
  refine ⟨h.current, fun c hcc => ?_, fun c hcc => h.starts c (herase c hcc), fun c hcc => h.phases c (herase c hcc),
    h.marked, fun a ha => ?_⟩
  · cases hcc
    exact hc
  · rcases mem_append.1 ha with ha | ha
    · exact h.answers a ha
    · rw [mem_singleton.1 ha]
      obtain ⟨m, n, hstart, hn, hcount⟩ := hm
      exact ⟨m, n, hstart, le_now hn, hn, hcount⟩

theorem phaseHolds_idle
    (hp : ∀ count m, phase ≠ .preloaded count m) (hr : ∀ count m, phase ≠ .recounted count m) :
    PhaseHolds counts start phase where
  preloaded := fun count m h => absurd h (hp count m)
  recounted := fun count m h => absurd h (hr count m)

variable {direct : Bool} {messageOf : Int → Option Nat}

theorem Inv.stepCall (h : Inv s) (hcall : s.calls[index]? = some call)
    (hok : s.returnsFresh (.dialogs index) = true) : Inv (s.stepCall direct messageOf index call) := by
  have hmem : call ∈ s.calls := mem_of_getElem? hcall
  have hidle : ∀ {counts : List Nat} {start : Nat} {phase : DialogPhase}, (∀ count m, phase ≠ .preloaded count m) →
      (∀ count m, phase ≠ .recounted count m) → PhaseHolds counts start phase := phaseHolds_idle
  unfold MentionState.stepCall
  cases hphase : call.phase with
  | started =>
    refine h.setCall hcall ⟨fun count m he => ?_, fun count m he => (by cases he)⟩
    cases he
    exact h.current
  | preloaded count moment =>
    have hread := (h.phases call hmem).preloaded count moment hphase
    have hcached := h.setCache (fun cached he => Option.some.inj he ▸ standsFor_of_count hread)
    exact hcached.setCall hcall (hidle (fun _ _ he => by cases he) (fun _ _ he => by cases he))
  | materializing =>
    dsimp only
    split
    · exact h.setCall hcall (hidle (fun _ _ he => by cases he) (fun _ _ he => by cases he))
    · split
      · split
        · exact h.setCall hcall (hidle (fun _ _ he => by cases he) (fun _ _ he => by cases he))
        · refine h.setCall hcall (hidle (fun _ _ he => ?_) (fun _ _ he => ?_))
          · split at he <;> cases he
          · split at he <;> cases he
      · split
        · exact h.setCall hcall (hidle (fun _ _ he => by cases he) (fun _ _ he => by cases he))
        · exact h.setCall hcall (hidle (fun _ _ he => by cases he) (fun _ _ he => by cases he))
  | counting =>
    refine h.setCall hcall (hidle (fun _ _ he => ?_) (fun _ _ he => ?_))
    · split at he <;> cases he
    · split at he <;> cases he
  | marking =>
    exact (h.write _).setCall hcall (hidle (fun _ _ he => by cases he) (fun _ _ he => by cases he))
  | creating tlId unreadIfNew =>
    exact (h.write _).setCall hcall (hidle (fun _ _ he => by cases he) (fun _ _ he => by cases he))
  | synced created =>
    dsimp only
    cases hcache : s.cache with
    | none => exact h.setCall hcall (hidle (fun _ _ he => by cases he) (fun _ _ he => by cases he))
    | some cached =>
      simp only [returnsFresh, hcall, hphase, hcache] at hok
      have hadded := (h.cache cached hcache).add created
      exact h.answer hadded (hadded.of_isFresh hok)
  | recounting =>
    refine h.setCall hcall ⟨fun count m he => (by cases he), fun count m he => ?_⟩
    cases he
    exact ⟨h.current, h.starts call hmem⟩
  | recounted count moment =>
    obtain ⟨hread, hstart⟩ := (h.phases call hmem).recounted count moment hphase
    exact h.answer (standsFor_of_count hread) ⟨moment, count, hstart, hread, rfl⟩

theorem Inv.setReaders (h : Inv s) {readers : List MentionReader}
    (hr : ∀ m, MentionReader.allMarked m ∈ readers → s.counts[m]? = some 0) : Inv { s with readers := readers } where
  current := h.current
  cache := h.cache
  starts := h.starts
  phases := h.phases
  marked := hr
  answers := h.answers

theorem countUnreadMentions_markMentionsRead (rows : List MentionRow) :
    countUnreadMentions (markMentionsRead rows).1 = 0 := by
  simp [countUnreadMentions, markMentionsRead, countP_map, countP_eq_zero]

theorem Inv.stepReader (h : Inv s) {reader : MentionReader} (hreader : s.readers[index]? = some reader) :
    Inv (s.stepReader index reader) := by
  have herase : ∀ m, MentionReader.allMarked m ∈ s.readers.eraseIdx index → s.counts[m]? = some 0 :=
    fun m hm => h.marked m (mem_of_mem_eraseIdx hm)
  unfold MentionState.stepReader
  cases reader with
  | all =>
    have hw := h.write (markMentionsRead s.rows).1
    refine hw.setReaders (fun m hm => ?_)
    rcases mem_or_eq_of_mem_set hm with hold | heq
    · exact hw.marked m hold
    · cases heq
      have hcurrent := hw.current
      rwa [show (s.write (markMentionsRead s.rows).1).rows = (markMentionsRead s.rows).1 from rfl,
        countUnreadMentions_markMentionsRead] at hcurrent
  | allMarked moment =>
    have hzero := h.marked moment (mem_of_getElem? hreader)
    exact (h.setCache (fun cached he => Option.some.inj he ▸ standsFor_of_count hzero)).setReaders herase
  | contents ids =>
    have hw := h.write (markMentionIdsRead s.rows ids).1
    refine hw.setReaders (fun m hm => ?_)
    rcases mem_or_eq_of_mem_set hm with hold | heq
    · exact hw.marked m hold
    · cases heq
  | contentsMarked changed =>
    refine Inv.setReaders (s := { s with
      cache := if changed = 0 then s.cache else s.cache.map (fun cached => cached.lower changed) })
      (h.setCache (fun cached he => ?_)) herase
    split at he
    · exact h.cache cached he
    · obtain ⟨before, hbefore, rfl⟩ := Option.map_eq_some_iff.1 he
      exact (h.cache before hbefore).lower changed

theorem Inv.step (h : Inv s) {action : MentionAction} (hok : s.returnsFresh action = true) {s' : MentionState}
    (hs : s.step direct messageOf action = some s') : Inv s' := by
  cases action with
  | getDialogs top unreadCount =>
    cases hs
    refine ⟨h.current, h.cache, fun call hcall => ?_, fun call hcall => ?_, h.marked, h.answers⟩
    · rcases mem_append.1 hcall with hcall | hcall
      · exact h.starts call hcall
      · rw [mem_singleton.1 hcall]
        exact Nat.le_refl _
    · rcases mem_append.1 hcall with hcall | hcall
      · exact h.phases call hcall
      · rw [mem_singleton.1 hcall]
        exact phaseHolds_idle (fun _ _ he => by cases he) (fun _ _ he => by cases he)
  | dialogs index =>
    obtain ⟨call, hcall, rfl⟩ := Option.map_eq_some_iff.1 hs
    exact h.stepCall hcall hok
  | readMentions =>
    cases hs
    refine h.setReaders (fun m hm => ?_)
    rcases mem_append.1 hm with hm | hm
    · exact h.marked m hm
    · cases mem_singleton.1 hm
  | readMessageContents ids =>
    cases hs
    refine h.setReaders (fun m hm => ?_)
    rcases mem_append.1 hm with hm | hm
    · exact h.marked m hm
    · cases mem_singleton.1 hm
  | reader index =>
    obtain ⟨reader, hreader, rfl⟩ := Option.map_eq_some_iff.1 hs
    exact h.stepReader hreader
  | publish tlMessageId =>
    cases hs
    exact h.write _

def mentioningTop : TopMessage := ⟨7, 0, false, true⟩

def overlappingCalls : List MentionAction :=
  [.getDialogs (some mentioningTop) 1, .getDialogs (some mentioningTop) 1, .dialogs 0, .dialogs 0, .dialogs 0, .dialogs 0,
    .dialogs 1, .dialogs 1, .dialogs 0]

def loneCall : List MentionAction :=
  [.getDialogs (some mentioningTop) 1, .dialogs 0, .dialogs 0, .dialogs 0, .dialogs 0, .dialogs 0]

end MentionState

end Crossgram
