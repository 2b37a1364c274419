import Crossgram.Lib.Coalescing
import Crossgram.Lib.Runs
/-!
# HistoryLoads — history loads that calls share (packages/bridge/src/platform-manager.ts, `_coalescedHistoryLoad`)

`getHistory` and `syncHistory` wait for a load of a conversation: for the one that is active under their key, or for one
they begin.  A load reads the conversation, asks upstream once unless the conversation is local, stores the page and, for
`getHistory`, reads what is stored.  The key leaves two fields of the query out, `latest` and `beforeSequence`: a call
that differs in them waits for a request that was not made for its query.
-/
namespace Crossgram
namespace HistoryLoads

open List

structure IMHistoryAnchor where
  id : String
  timestamp : Int
deriving DecidableEq

structure IMHistoryQuery where
  cursor : Option String := none
  limit : Option Int := none
  afterId : Option String := none
  before : Option IMHistoryAnchor := none
  after : Option IMHistoryAnchor := none
  latest : Option Bool := none
  beforeSequence : Option String := none
deriving DecidableEq

/-- The arguments of `_coalescedHistoryLoad`. -/
structure HistoryLoad where
  conversationId : String
  query : IMHistoryQuery
  readStored : Bool
deriving DecidableEq

/-- The array that `historyLoadKey` turns to text; texts of such arrays are equal only for equal arrays. -/
structure HistoryLoadKey where
  conversationId : String
  readStored : Bool
  cursor : Option String
  limit : Option Int
  afterId : Option String
  beforeId : Option String
  beforeTimestamp : Option Int
  afterAnchorId : Option String
  afterAnchorTimestamp : Option Int
deriving DecidableEq

def historyLoadKey (load : HistoryLoad) : HistoryLoadKey :=
  { conversationId := load.conversationId
    readStored := load.readStored
    cursor := load.query.cursor
    limit := load.query.limit
    afterId := load.query.afterId
    beforeId := load.query.before.map (·.id)
    beforeTimestamp := load.query.before.map (·.timestamp)
    afterAnchorId := load.query.after.map (·.id)
    afterAnchorTimestamp := load.query.after.map (·.timestamp) }

/-- What `_loadHistory` looks at of a conversation. -/
structure IMConversation where
  localOnly : Bool

inductive LoadStage
  | reading
  | dialogs
  | rereading
  | upstream
  | storing
  | answering
  | settled
  | done
deriving DecidableEq

def LoadStage.asked : LoadStage → Bool
  | .reading | .dialogs | .rereading => false
  | _                                => true

/-- A call of the platform's `getHistory`, by the load that made it. -/
structure HistoryRequest where
  load : Nat
  conversationId : String
  query : IMHistoryQuery
deriving DecidableEq

/-- The service: `historyLoads` with the calls and the loads, the stage of each load, and the upstream requests, which no
code reads. -/
structure PlatformDataService where
  historyLoads : Coalescing.State HistoryLoadKey HistoryLoad
  stages : List LoadStage
  requests : List HistoryRequest

inductive HistoryEvent
  | getHistory (conversationId : String) (query : Option IMHistoryQuery)
  | syncHistory (conversationId : String) (query : Option IMHistoryQuery)
  | conversationRead (load : Nat) (conversation : Option IMConversation)
  | dialogsFetched (load : Nat)
  | pageFetched (load : Nat)
  | pageStored (load : Nat)
  | storedRead (load : Nat)
  | failed (load : Nat)
  | forgotten (load : Nat)

/-- `query: IMHistoryQuery = { limit: 100 }`. -/
def defaultQuery : IMHistoryQuery := { limit := some 100 }

def HistoryEvent.load? : HistoryEvent → Option HistoryLoad
  | .getHistory conversationId query  => some ⟨conversationId, query.getD defaultQuery, true⟩
  | .syncHistory conversationId query => some ⟨conversationId, query.getD defaultQuery, false⟩
  | _                                 => none

namespace PlatformDataService

def start : PlatformDataService := ⟨.empty, [], []⟩

variable (s : PlatformDataService)

def coalescedHistoryLoad (load : HistoryLoad) : PlatformDataService :=
  { s with
    historyLoads := s.historyLoads.join historyLoadKey load
    stages := if (Maps.get s.historyLoads.active (historyLoadKey load)).isSome then s.stages
      else s.stages ++ [.reading] }

def advance (id : Nat) (stages : List LoadStage) (next : HistoryLoad → LoadStage) : Option PlatformDataService :=
  match s.stages[id]?, s.historyLoads.jobs[id]? with
  | some stage, some load => if stage ∈ stages then some { s with stages := s.stages.set id (next load) } else none
  | _,          _         => none

def afterUpstream (load : HistoryLoad) : LoadStage := if load.readStored then .answering else .settled

/-- `_loadHistory` with a conversation at hand; `history` is that the platform has `getHistory`. -/
def withConversation (history : Bool) (id : Nat) (stages : List LoadStage) (conversation : IMConversation) :
    Option PlatformDataService :=
  if conversation.localOnly = false ∧ history = true then
    (s.advance id stages (fun _ => .upstream)).bind (fun s' =>
      s.historyLoads.jobs[id]?.map (fun load =>
        { s' with requests := s.requests ++ [⟨id, load.conversationId, load.query⟩] }))
  else s.advance id stages afterUpstream

def step (history : Bool) : HistoryEvent → Option PlatformDataService
  | .getHistory conversationId query  => some (s.coalescedHistoryLoad ⟨conversationId, query.getD defaultQuery, true⟩)
  | .syncHistory conversationId query => some (s.coalescedHistoryLoad ⟨conversationId, query.getD defaultQuery, false⟩)
  | .conversationRead id (some conversation) => s.withConversation history id [.reading, .rereading] conversation
  | .conversationRead id none =>
    -- not even `getDialogs` brought the conversation: a direct one stands in for it
    if s.stages[id]? = some .rereading then s.withConversation history id [.rereading] ⟨false⟩
    else s.advance id [.reading] (fun _ => .dialogs)
  | .dialogsFetched id => s.advance id [.dialogs] (fun _ => .rereading)
  | .pageFetched id    => s.advance id [.upstream] (fun _ => .storing)
  | .pageStored id     => s.advance id [.storing] afterUpstream
  | .storedRead id     => s.advance id [.answering] (fun _ => .settled)
  | .failed id         =>
    s.advance id [.reading, .dialogs, .rereading, .upstream, .storing, .answering] (fun _ => .settled)
  | .forgotten id      =>
    (s.advance id [.settled] (fun _ => .done)).bind (fun s' => s.historyLoads.jobs[id]?.map (fun load =>
      { s' with historyLoads := s.historyLoads.leave (historyLoadKey load) id }))

/-! ## The law -/

structure AnswersItsOwn : Prop where
  waited : ∀ call ∈ s.historyLoads.calls, ∀ request ∈ s.requests, request.load = call.2 →
    request.conversationId = call.1.conversationId ∧ request.query = call.1.query
  once : (s.requests.map (·.load)).Nodup
  shared : ∀ call ∈ s.historyLoads.calls, ∀ other ∈ s.historyLoads.calls, call.2 = other.2 → call.1 = other.1

/-- The load that a call would join was begun with the call's own `latest` and `beforeSequence`. -/
def joinsItsOwn (e : HistoryEvent) : Bool :=
  e.load?.all (fun load => (s.historyLoads.joined historyLoadKey load).all (fun begun =>
    begun.query.latest = load.query.latest && begun.query.beforeSequence = load.query.beforeSequence))

/-! ## The invariant -/

structure Inv : Prop where
  agrees : Coalescing.Agrees historyLoadKey Eq s.historyLoads
  staged : s.stages.length = s.historyLoads.jobs.length
  made : ∀ request ∈ s.requests, ∃ load, s.historyLoads.jobs[request.load]? = some load ∧
    request.conversationId = load.conversationId ∧ request.query = load.query
  asked : ∀ request ∈ s.requests, ∃ stage, s.stages[request.load]? = some stage ∧ stage.asked = true
  once : (s.requests.map (·.load)).Nodup

theorem inv_start : start.Inv :=
  ⟨Coalescing.agrees_empty, rfl, fun _ h => (by cases h), fun _ h => (by cases h), nodup_nil⟩

variable {s} {s' : PlatformDataService} {history : Bool} {id : Nat} {stages : List LoadStage}
  {next : HistoryLoad → LoadStage} {e : HistoryEvent}

/-- **The invariant is the law.** -/
theorem Inv.law (h : s.Inv) : s.AnswersItsOwn := by
  refine ⟨fun call hcall request hrequest hload => ?_, h.once, fun call hcall other hother heq => ?_⟩
  · obtain ⟨load, hjob, hconversation, hquery⟩ := h.made request hrequest
    obtain ⟨begun, hbegun, hcallLoad⟩ := h.agrees.calls call hcall
    rw [hload, hbegun] at hjob
    cases hjob
    rw [hcallLoad]
    exact ⟨hconversation, hquery⟩
  · obtain ⟨begun, hbegun, hcallLoad⟩ := h.agrees.calls call hcall
    obtain ⟨begun', hbegun', hotherLoad⟩ := h.agrees.calls other hother
    rw [heq, hbegun'] at hbegun
    cases hbegun
    rw [hcallLoad, hotherLoad]

theorem eq_of_historyLoadKey {load begun : HistoryLoad} (hkey : historyLoadKey begun = historyLoadKey load)
    (hlatest : begun.query.latest = load.query.latest)
    (hsequence : begun.query.beforeSequence = load.query.beforeSequence) : load = begun := by
  obtain ⟨conversationId, ⟨cursor, limit, afterId, before, after, latest, beforeSequence⟩, readStored⟩ := load
  obtain ⟨conversationId', ⟨cursor', limit', afterId', before', after', latest', beforeSequence'⟩, readStored'⟩ := begun
  have hanchor : ∀ {a b : Option IMHistoryAnchor}, a.map (·.id) = b.map (·.id) →
      a.map (·.timestamp) = b.map (·.timestamp) → a = b := fun {a b} hid htime => by
    rcases a with _ | ⟨id, timestamp⟩ <;> rcases b with _ | ⟨id', timestamp'⟩ <;>
      simp_all only [Option.map_none, Option.map_some, Option.some.injEq, reduceCtorEq]
  simp only [historyLoadKey, HistoryLoadKey.mk.injEq] at hkey
  obtain ⟨rfl, rfl, rfl, rfl, rfl, hbefore, hbeforeTime, hafter, hafterTime⟩ := hkey
  cases hanchor hbefore hbeforeTime
  cases hanchor hafter hafterTime
  cases hlatest
  cases hsequence
  rfl

theorem advance_eq (h : s.advance id stages next = some s') : ∃ stage ∈ stages, ∃ load, s.stages[id]? = some stage ∧
    s.historyLoads.jobs[id]? = some load ∧ s' = { s with stages := s.stages.set id (next load) } := by
  unfold advance at h
  split at h
  · rename_i stage load hstage hload
    split at h
    · rename_i hmem
      cases h
      exact ⟨stage, hmem, load, hstage, hload, rfl⟩
    · cases h
  · cases h

theorem Inv.advance (h : s.Inv)
    (hnext : (∀ load, (next load).asked = true) ∨ ∀ stage ∈ stages, stage.asked = false)
    (hs : s.advance id stages next = some s') : s'.Inv := by
  obtain ⟨stage, hmem, load, hstage, -, rfl⟩ := advance_eq hs
  refine ⟨h.agrees, ?_, h.made, fun request hrequest => ?_, h.once⟩
  · show (s.stages.set id (next load)).length = _
    rw [length_set]
    exact h.staged
  · obtain ⟨stage', hstage', hasked⟩ := h.asked request hrequest
    show ∃ stage, (s.stages.set id (next load))[request.load]? = some stage ∧ _
    by_cases heq : id = request.load
    · subst heq
      rw [hstage] at hstage'
      cases hstage'
      obtain ⟨hlt, -⟩ := List.getElem?_eq_some_iff.1 hstage
      refine ⟨next load, List.getElem?_set_self hlt, ?_⟩
      rcases hnext with hnext | hbefore
      · exact hnext load
      · rw [hbefore stage hmem] at hasked
        cases hasked
    · exact ⟨stage', by rw [getElem?_set_ne heq]; exact hstage', hasked⟩

theorem asked_afterUpstream (load : HistoryLoad) : (afterUpstream load).asked = true := by
  unfold afterUpstream
  split <;> rfl

/-- **The request of a load** is its first. -/
theorem Inv.withConversation (h : s.Inv) {conversation : IMConversation} (hbefore : ∀ stage ∈ stages, stage.asked = false)
    (hs : s.withConversation history id stages conversation = some s') : s'.Inv := by
  unfold PlatformDataService.withConversation at hs
  split at hs
  · obtain ⟨t, ht, hs⟩ := Option.bind_eq_some_iff.1 hs
    obtain ⟨load, hload, rfl⟩ := Option.map_eq_some_iff.1 hs
    have hinv := h.advance (.inr hbefore) ht
    obtain ⟨stage, hmem, load', hstage, hload', rfl⟩ := advance_eq ht
    obtain ⟨hlt, -⟩ := List.getElem?_eq_some_iff.1 hstage
    refine ⟨hinv.agrees, hinv.staged, fun request hrequest => ?_, fun request hrequest => ?_, ?_⟩
    · rcases List.mem_append.1 hrequest with hrequest | hrequest
      · exact h.made request hrequest
      · rw [mem_singleton.1 hrequest]
        exact ⟨load, hload, rfl, rfl⟩
    · rcases List.mem_append.1 hrequest with hrequest | hrequest
      · exact hinv.asked request hrequest
      · rw [mem_singleton.1 hrequest]
        exact ⟨.upstream, List.getElem?_set_self hlt, rfl⟩
    · -- a load that stands before upstream has made no request
      have hfresh : id ∉ s.requests.map (·.load) := fun hc => by
        obtain ⟨request, hrequest, heq⟩ := mem_map.1 hc
        obtain ⟨stage', hstage', hasked⟩ := h.asked request hrequest
        rw [heq, hstage] at hstage'
        cases hstage'
        rw [hbefore stage hmem] at hasked
        cases hasked
      rw [map_append, nodup_append]
      refine ⟨h.once, pairwise_singleton _ _, fun x hx y hy heq => ?_⟩
      rw [map_singleton, mem_singleton] at hy
      subst heq hy
      exact hfresh hx
  · exact h.advance (.inr hbefore) hs

/-- **A call keeps the invariant** when it joins a load of its own. -/
theorem Inv.call (h : s.Inv) {load : HistoryLoad}
    (hown : (s.historyLoads.joined historyLoadKey load).all (fun begun =>
      begun.query.latest = load.query.latest && begun.query.beforeSequence = load.query.beforeSequence) = true) :
    (s.coalescedHistoryLoad load).Inv := by
  have hagrees : Coalescing.Agrees historyLoadKey Eq (s.historyLoads.join historyLoadKey load) :=
    h.agrees.join rfl (fun begun hbegun hkey => by
      rw [hbegun, Option.all_some, Bool.and_eq_true, decide_eq_true_eq, decide_eq_true_eq] at hown
      exact eq_of_historyLoadKey hkey hown.1 hown.2)
  refine ⟨hagrees, ?_, fun request hrequest => ?_, fun request hrequest => ?_, h.once⟩
  · have hstaged := h.staged
    unfold coalescedHistoryLoad Coalescing.State.join
    cases Maps.get s.historyLoads.active (historyLoadKey load) with
    | some _ => exact hstaged
    | none   => simp [hstaged]
  · obtain ⟨begun, hbegun, hmade⟩ := h.made request hrequest
    exact ⟨begun, Coalescing.get_join hbegun, hmade⟩
  · obtain ⟨stage, hstage, hasked⟩ := h.asked request hrequest
    refine ⟨stage, ?_, hasked⟩
    unfold coalescedHistoryLoad
    cases Maps.get s.historyLoads.active (historyLoadKey load) with
    | some _ => exact hstage
    | none   =>
      obtain ⟨hlt, -⟩ := List.getElem?_eq_some_iff.1 hstage
      show (s.stages ++ [LoadStage.reading])[request.load]? = some stage
      rw [List.getElem?_append_left hlt]
      exact hstage

/-- **Each step keeps the invariant.** -/
theorem Inv.step (h : s.Inv) (hown : s.joinsItsOwn e = true) (hs : s.step history e = some s') : s'.Inv := by
  have hbefore : ∀ stage ∈ [LoadStage.reading, .rereading], stage.asked = false := by decide
  cases e with
  | getHistory conversationId query =>
    cases hs
    exact h.call hown
  | syncHistory conversationId query =>
    cases hs
    exact h.call hown
  | conversationRead id conversation =>
    cases conversation with
    | some conversation => exact h.withConversation hbefore hs
    | none =>
      unfold PlatformDataService.step at hs
      dsimp only at hs
      split at hs
      · exact h.withConversation (by decide) hs
      · exact h.advance (.inr (by decide)) hs
  | dialogsFetched id => exact h.advance (.inr (by decide)) hs
  | pageFetched id => exact h.advance (.inl (fun _ => rfl)) hs
  | pageStored id => exact h.advance (.inl asked_afterUpstream) hs
  | storedRead id => exact h.advance (.inl (fun _ => rfl)) hs
  | failed id => exact h.advance (.inl (fun _ => rfl)) hs
  | forgotten id =>
    obtain ⟨t, ht, hs⟩ := Option.bind_eq_some_iff.1 hs
    obtain ⟨load, -, rfl⟩ := Option.map_eq_some_iff.1 hs
    have hinv := h.advance (.inl (fun _ => rfl)) ht
    obtain ⟨-, -, -, -, -, rfl⟩ := advance_eq ht
    have hjobs : (s.historyLoads.leave (historyLoadKey load) id).jobs = s.historyLoads.jobs := by
      unfold Coalescing.State.leave
      split <;> rfl
    refine ⟨h.agrees.leave _ _, ?_, ?_, hinv.asked, h.once⟩
    · rw [hjobs]
      exact hinv.staged
    · rw [hjobs]
      exact h.made

/-- **A history load answers its own query**, in every run whose calls join only loads begun with their own `latest` and
`beforeSequence`. -/
theorem historyLoad_answersItsOwn (h : Runs.Reachable (fun s e => step s history e) (fun s e => s.joinsItsOwn e = true) start s) :
    s.AnswersItsOwn :=
  (h.invariant inv_start (fun _ _ _ _ hinv hown hs => hinv.step hown hs)).law

/-! ## Runs -/

def opening (latest : Option Bool) : List HistoryEvent :=
  [.syncHistory "room" (some { limit := some 50 }), .syncHistory "room" (some { limit := some 50, latest := latest }),
    .conversationRead 0 (some ⟨false⟩)]

def opened (latest : Option Bool) : PlatformDataService :=
  ((opening latest).foldl (fun s e => s.bind (fun s => s.step true e)) (some start)).getD start

theorem answersItsOwn_opened : (opened none).requests.length = 1 ∧ (opened none).AnswersItsOwn := by
  have hrun : Runs.run (fun s e => if joinsItsOwn s e then step s true e else none) start (opening none) =
      some (opened none) := rfl
  exact ⟨by decide, historyLoad_answersItsOwn (Runs.reachable_of_tested_run (fun _ _ h => h) .init hrun)⟩

/-- **A call for the newest page waits for a request that is not.** -/
theorem answers_another : ¬∀ s, Runs.Reachable (fun s e => step s true e) (fun _ _ => True) start s → s.AnswersItsOwn := by
  intro hall
  have hrun : Runs.run (fun s e => step s true e) start (opening (some true)) = some (opened (some true)) := rfl
  have hwaited := (hall _ (Runs.reachable_of_run (fun _ _ _ => trivial) .init hrun)).waited
    (⟨"room", { limit := some 50, latest := some true }, false⟩, 0) (by decide) ⟨0, "room", { limit := some 50 }⟩
    (by decide) rfl
  exact absurd hwaited.2 (by decide)

end PlatformDataService
end HistoryLoads
end Crossgram
