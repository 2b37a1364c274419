import Crossgram.Lib.Relay
import Crossgram.VoiceEvents
/-!
# VoicePump — the client's event pump (packages/bridge/src/voice/voice-worker-client.ts, packages/voice-worker/src/worker.rs)

The pump of one active call polls, passes each event it has not seen to `onEvent`, and acknowledges it.  Any other request may
come between its steps, and any answer may be lost.
-/
namespace Crossgram
namespace Voice

open List
open VoiceIpc (FixedBytes Response DH_PUBLIC_BYTES)

namespace BackendCall

def takenSignal : BackendCall → Option (List UInt8)
  | .pollEvent _ (.ok (some (.outboundSignal signal))) => some signal
  | _ => none

def FoundFull : BackendCall → Prop
  | .pollEvent waiting _ => waiting = MAX_OUTBOUND_EVENTS
  | _ => False

instance (c : BackendCall) : Decidable c.FoundFull := by
  cases c <;> unfold FoundFull <;> infer_instance

def keptSignal (c : BackendCall) : Option (List UInt8) := if c.FoundFull then none else c.takenSignal

end BackendCall

def takenSignals (calls : List BackendCall) : List (List UInt8) := calls.filterMap BackendCall.takenSignal

def keptSignals (calls : List BackendCall) : List (List UInt8) := calls.filterMap BackendCall.keptSignal

def MediaEvent.signal? : MediaEvent → Option (List UInt8)
  | .outboundSignal signal => some signal
  | .nativeError           => none

/-! ## The pump -/

inductive PumpPhase
  | polling
  | received (eventId : UInt64) (event : VoiceIpc.WorkerEvent)
  | acking (eventId : UInt64) (event : VoiceIpc.WorkerEvent)
  | ended

/-- A worker and the pump of a call: what was asked of the backend while the call was active, `_deliveredEvents` of the call,
where `_drainEvents` is, and the signals that were passed to `onEvent`. -/
structure PumpedCall (β H P : Type) where
  worker : VoiceWorker β H P
  period : List BackendCall
  delivered : List UInt64
  phase : PumpPhase
  passed : List (List UInt8)

inductive PumpAction
  | request (a : Arrival)
  | poll (now : Nanoseconds) (random : Option (FixedBytes DH_PUBLIC_BYTES)) (answered : Bool)
  | deliver
  | ack (now : Nanoseconds) (random : Option (FixedBytes DH_PUBLIC_BYTES)) (answered : Bool)
  | again

def Acknowledges (callId : UInt64) : VoiceIpc.Request → Prop
  | .ackEvent callId' _ => callId' = callId
  | _ => False

instance (callId : UInt64) (request : VoiceIpc.Request) : Decidable (Acknowledges callId request) := by
  cases request <;> unfold Acknowledges <;> infer_instance

/-- The signal of an event as it is passed to `onEvent`. -/
def workerSignal? : VoiceIpc.WorkerEvent → Option (List UInt8)
  | .outboundSignal signal => some signal
  | .nativeError           => none

namespace PumpedCall

variable {β H P : Type} (B : MediaBackend β H P) (hashes : Hashes) (callId : UInt64)

def serve (s : PumpedCall β H P) (a : Arrival) : Option (PumpedCall β H P × Response) :=
  let (worker, response) := VoiceWorker.step B hashes s.worker a
  if s.worker.activeId? ≠ some callId ∧ worker.activeId? = some callId then none
  else
    let period := if s.worker.activeId? = some callId then s.period ++ worker.calls.drop s.worker.calls.length else s.period
    some ({ s with worker, period }, response)

def polled (s : PumpedCall β H P) : Response → PumpedCall β H P
  | .event eventId event => { s with phase := .received eventId event }
  | _                    => s

def deliver (s : PumpedCall β H P) (eventId : UInt64) (event : VoiceIpc.WorkerEvent) : PumpedCall β H P :=
  if eventId ∈ s.delivered then { s with phase := .acking eventId event }
  else { s with
    phase := .acking eventId event
    delivered := eventId :: s.delivered
    passed := s.passed ++ (workerSignal? event).toList }

def acknowledged (s : PumpedCall β H P) (eventId : UInt64) (event : VoiceIpc.WorkerEvent) : Response → PumpedCall β H P
  | .eventAcknowledged eventId' =>
    if eventId' = eventId then { s with
      delivered := s.delivered.erase eventId
      phase := if event = .nativeError then .ended else .polling }
    else { s with phase := .polling }
  | _ => { s with phase := .polling }

def step (s : PumpedCall β H P) : PumpAction → Option (PumpedCall β H P)
  | .request a => if Acknowledges callId a.request then none else (serve B hashes callId s a).map Prod.fst
  | .poll now random answered =>
    match s.phase with
    | .polling =>
      (serve B hashes callId s ⟨now, random, .pollEvent callId⟩).map fun served =>
        if answered then served.1.polled served.2 else served.1
    | _ => none
  | .deliver =>
    match s.phase with
    | .received eventId event => some (s.deliver eventId event)
    | _ => none
  | .ack now random answered =>
    match s.phase with
    | .acking eventId event =>
      (serve B hashes callId s ⟨now, random, .ackEvent callId eventId⟩).map fun served =>
        if answered then served.1.acknowledged eventId event served.2 else served.1
    | _ => none
  -- a failed acknowledgement, or a pump that is started anew
  | .again =>
    match s.phase with
    | .acking _ _ => some { s with phase := .polling }
    | .ended      => some { s with phase := .polling }
    | _           => none

def start (worker : VoiceWorker β H P) : PumpedCall β H P :=
  { worker, period := [], delivered := [], phase := .polling, passed := [] }

end PumpedCall

/-! ## The queue and the relay -/

def pendingOf (callId : UInt64) (entry : UInt64 × List UInt8) : PendingEvent :=
  { callId, id := entry.1, event := .outboundSignal entry.2 }

structure EventQueue.Ordered (q : EventQueue) : Prop where
  below : ∀ e ∈ q.events, e.id.toNat < q.next.toNat
  acked : ∀ callId id, q.acked = some (callId, id) → id.toNat < q.next.toNat
  remembered : ∀ response ∈ q.recent, ¬ IsEventAnswer response

structure Fits (callId : UInt64) (q : EventQueue) (period : List BackendCall) (r : Relay UInt64 (List UInt8)) : Prop where
  ordered : q.Ordered
  inv : r.Inv
  kept : r.pushed.map Prod.snd = keptSignals period
  below : ∀ p ∈ r.pushed, p.1.toNat < q.next.toNat
  seen : ∀ id ∈ r.seen, id.toNat < q.next.toNat
  active : q.active = some callId →
    q.events.filter (fun e => e.callId = callId) = (r.pushed.drop r.popped).map (pendingOf callId)
  inactive : q.active ≠ some callId → ∀ e ∈ q.events, e.callId = callId →
    e.event = .nativeError ∧ e.id ∉ r.pushed.map Prod.fst
  gone : ∀ id, q.acked = some (callId, id) → id ∉ (r.pushed.drop r.popped).map Prod.fst

/-- The counter of the events is at its end. -/
def IsLastId (id : UInt64) : Prop := id.toNat = 18446744073709551615

theorem nextId_lt {id : UInt64} (h : ¬ IsLastId id) : id.toNat < (nextId id).toNat := by
  unfold IsLastId at h
  unfold nextId
  rw [if_neg h, UInt64.toNat_add]
  have hlt := id.toNat_lt
  have hone : (1 : UInt64).toNat = 1 := rfl
  omega

theorem nextId_last {id : UInt64} (h : IsLastId id) : nextId id = id := if_pos h

structure WentOn (next : UInt64) (r r' : Relay UInt64 (List UInt8)) : Prop where
  seen : r'.seen = r.seen
  passed : r'.passed = r.passed
  pushed : ∃ added, r'.pushed = r.pushed ++ added ∧ ∀ p ∈ added, next.toNat ≤ p.1.toNat

theorem WentOn.refl (next : UInt64) (r : Relay UInt64 (List UInt8)) : WentOn next r r :=
  ⟨rfl, rfl, [], (append_nil _).symm, (fun _ hp => by cases hp)⟩

theorem WentOn.trans {next next' : UInt64} {r r' r'' : Relay UInt64 (List UInt8)} (h : WentOn next r r')
    (h' : WentOn next' r' r'') (hle : next.toNat ≤ next'.toNat) : WentOn next r r'' := by
  obtain ⟨added, hadded, hnew⟩ := h.pushed
  obtain ⟨added', hadded', hnew'⟩ := h'.pushed
  refine ⟨h'.seen.trans h.seen, h'.passed.trans h.passed, added ++ added', ?_, fun p hp => ?_⟩
  · rw [hadded', hadded, append_assoc]
  · rcases mem_append.1 hp with hp | hp
    · exact hnew p hp
    · exact Nat.le_trans hle (hnew' p hp)

/-! ## Moves of the queue -/

theorem keptSignals_append (calls calls' : List BackendCall) :
    keptSignals (calls ++ calls') = keptSignals calls ++ keptSignals calls' := filterMap_append

theorem keptSignals_quiet {calls : List BackendCall} (h : ∀ c ∈ calls, ¬ c.IsPoll) : keptSignals calls = [] := by
  unfold keptSignals
  rw [filterMap_eq_nil_iff]
  intro c hc
  have hquiet := h c hc
  unfold BackendCall.keptSignal
  cases c with
  | pollEvent _ _ => exact absurd trivial hquiet
  | _ => rfl

theorem keptSignal_of_taken {c : BackendCall} (h : c.takenSignal = none) : c.keptSignal = none := by
  unfold BackendCall.keptSignal
  rw [h, ite_self]

variable {callId : UInt64} {q q' : EventQueue} {period : List BackendCall} {r : Relay UInt64 (List UInt8)}

theorem next_move (h : QueueMove q q') : q.next.toNat ≤ q'.next.toNat ∧ (IsLastId q.next → IsLastId q'.next) := by
  have hnext : q.next.toNat ≤ (nextId q.next).toNat ∧ (IsLastId q.next → IsLastId (nextId q.next)) := by
    by_cases hlast : IsLastId q.next
    · rw [nextId_last hlast]
      exact ⟨Nat.le_refl _, id⟩
    · exact ⟨Nat.le_of_lt (nextId_lt hlast), fun h => absurd h hlast⟩
  cases h with
  | take => exact hnext
  | fail => exact hnext
  | _ => exact ⟨Nat.le_refl _, id⟩

theorem next_moves (h : QueueMoves q q') : q.next.toNat ≤ q'.next.toNat ∧ (IsLastId q.next → IsLastId q'.next) := by
  induction h with
  | refl => exact ⟨Nat.le_refl _, id⟩
  | tail _ hm ih => exact ⟨Nat.le_trans ih.1 (next_move hm).1, fun hl => (next_move hm).2 (ih.2 hl)⟩

theorem active_move (h : QueueMove q q') : q'.active = q.active ∨ q'.active = none := by
  cases h with
  | clear => exact .inr rfl
  | fail => exact .inr rfl
  | _ => exact .inl rfl

namespace EventQueue.Ordered

theorem move (h : q.Ordered) (hm : QueueMove q q') (hlast : ¬ IsLastId q'.next) : q'.Ordered := by
  have hremembered := remembered_move hm h.remembered
  have hlast₀ : ¬ IsLastId q.next := fun hl => hlast ((next_move hm).2 hl)
  have hlt := nextId_lt hlast₀
  cases hm with
  | clear => exact ⟨(fun e he => by cases he), (fun _ _ hc => by cases hc), hremembered⟩
  | fail =>
    refine ⟨fun e he => ?_, (fun _ _ hc => by cases hc), hremembered⟩
    rw [mem_singleton.1 he]
    exact hlt
  | take =>
    refine ⟨fun e he => ?_, fun c id hacked => Nat.lt_trans (h.acked c id hacked) hlt, hremembered⟩
    rcases mem_append.1 he with he | he
    · exact Nat.lt_trans (h.below e he) hlt
    · rw [mem_singleton.1 he]
      exact hlt
  | _ => exact ⟨h.below, h.acked, hremembered⟩

theorem moves (h : q.Ordered) (hm : QueueMoves q q') (hlast : ¬ IsLastId q'.next) : q'.Ordered := by
  induction hm with
  | refl => exact h
  | tail _ hm ih => exact (ih (fun hl => hlast ((next_move hm).2 hl))).move hm hlast

theorem ack (h : q.Ordered) {event : PendingEvent} {events : List PendingEvent} (hevents : q.events = event :: events) :
    EventQueue.Ordered { q with events, acked := some (event.callId, event.id) } := by
  refine ⟨fun e he => h.below e (hevents ▸ mem_cons_of_mem _ he), fun c id hc => ?_, h.remembered⟩
  cases hc
  exact h.below event (hevents ▸ mem_cons_self)

end EventQueue.Ordered

namespace Fits

theorem same (h : Fits callId q period r) {new : List BackendCall} {recent : Option Response} {calls : List BackendCall}
    (hkept : keptSignals new = []) (hordered : EventQueue.Ordered { q with recent, calls }) :
    Fits callId { q with recent, calls } (period ++ new) r := by
  refine ⟨hordered, h.inv, ?_, h.below, h.seen, h.active, h.inactive, h.gone⟩
  rw [keptSignals_append, hkept, append_nil]
  exact h.kept

theorem fresh (h : Fits callId q period r) : q.next ∉ r.pushed.map Prod.fst := by
  intro hmem
  obtain ⟨p, hp, heq⟩ := mem_map.1 hmem
  have hlt := h.below p hp
  rw [heq] at hlt
  exact Nat.lt_irrefl _ hlt

theorem ended (h : Fits callId q period r) {events : List PendingEvent} {next : UInt64} {new calls : List BackendCall}
    (hkept : keptSignals new = []) (hle : q.next.toNat ≤ next.toNat)
    (hevents : ∀ e ∈ events, e.event = .nativeError ∧ e.id = q.next)
    (hordered : EventQueue.Ordered { q with active := none, events, next, acked := none, calls }) :
    Fits callId { q with active := none, events, next, acked := none, calls } (period ++ new) r := by
  refine ⟨hordered, h.inv, ?_,
    fun p hp => Nat.lt_of_lt_of_le (h.below p hp) hle, fun id hid => Nat.lt_of_lt_of_le (h.seen id hid) hle,
    (fun hc => by cases hc), fun _ e he _ => ?_, (fun _ hc => by cases hc)⟩
  · rw [keptSignals_append, hkept, append_nil]
    exact h.kept
  · obtain ⟨herror, hid⟩ := hevents e he
    exact ⟨herror, hid ▸ h.fresh⟩

/-- **A move while the call is active**, or has ended within the request. -/
theorem own (h : Fits callId q period r) (hactive : q.active = some callId ∨ q.active = none) (hm : QueueMove q q')
    (hlast : ¬ IsLastId q'.next) : ∃ r' new, q'.calls = q.calls ++ new ∧ Fits callId q' (period ++ new) r' ∧
      WentOn q.next r r' ∧ r'.popped = r.popped := by
  have hlast₀ : ¬ IsLastId q.next := fun hl => hlast ((next_move hm).2 hl)
  have hordered := h.ordered.move hm hlast
  cases hm with
  | silent calls hquiet => exact ⟨r, calls, rfl, h.same (keptSignals_quiet hquiet) hordered, .refl _ _, rfl⟩
  | clear calls hquiet =>
    exact ⟨r, calls, rfl, h.ended (keptSignals_quiet hquiet) (Nat.le_refl _) (fun e he => by cases he) hordered, .refl _ _, rfl⟩
  | forget => exact ⟨r, [], (append_nil _).symm, h.same rfl hordered, .refl _ _, rfl⟩
  | remember response hnot => exact ⟨r, [], (append_nil _).symm, h.same rfl hordered, .refl _ _, rfl⟩
  | nothing =>
    refine ⟨r, _, rfl, h.same ?_ hordered, .refl _ _, rfl⟩
    unfold keptSignals
    rw [filterMap_cons, keptSignal_of_taken rfl]
    rfl
  | drop signal hfull =>
    refine ⟨r, _, rfl, h.same ?_ hordered, .refl _ _, rfl⟩
    have hnone : BackendCall.keptSignal (.pollEvent q.events.length (.ok (some (.outboundSignal signal)))) = none := if_pos hfull
    unfold keptSignals
    rw [filterMap_cons, hnone]
    rfl
  | fail callId' event calls hcall hevent hquiet =>
    refine ⟨r, _, rfl, h.ended ?_ (Nat.le_of_lt (nextId_lt hlast₀)) (fun e he => ?_) hordered, .refl _ _, rfl⟩
    · have hnone : BackendCall.keptSignal (.pollEvent q.events.length event) = none := by
        refine keptSignal_of_taken ?_
        cases event with
        | error _ => rfl
        | ok event =>
          cases hevent
          rfl
      unfold keptSignals
      rw [filterMap_cons, hnone]
      exact keptSignals_quiet hquiet
    · rw [mem_singleton.1 he]
      exact ⟨rfl, rfl⟩
  | take callId' signal hcall hroom =>
    have hid : callId' = callId := by
      rcases hactive with ha | ha <;> rw [ha] at hcall <;> cases hcall
      rfl
    subst hid
    have hlt := nextId_lt hlast₀
    have hunseen : q.next ∉ r.seen := fun hmem => Nat.lt_irrefl _ (h.seen _ hmem)
    have hpopped : r.popped ≤ r.pushed.length := Nat.le_trans h.inv.popped_le h.inv.passed_le
    refine ⟨{ r with pushed := r.pushed ++ [(q.next, signal)] }, _, rfl, ⟨hordered, h.inv.push h.fresh hunseen, ?_, fun p hp => ?_, fun id hid => Nat.lt_trans (h.seen id hid) hlt,
      fun _ => ?_, fun hne => absurd hcall hne, fun id hacked hmem => ?_⟩, ⟨rfl, rfl, _, rfl, fun p hp => ?_⟩, rfl⟩
    · have hsome : BackendCall.keptSignal (.pollEvent q.events.length (.ok (some (.outboundSignal signal)))) = some signal :=
        if_neg hroom
      rw [map_append, h.kept, keptSignals_append]
      unfold keptSignals
      rw [filterMap_cons, hsome]
      rfl
    · rcases mem_append.1 hp with hp | hp
      · exact Nat.lt_trans (h.below p hp) hlt
      · rw [mem_singleton.1 hp]
        exact hlt
    · dsimp only
      rw [filter_append, h.active hcall, drop_append_of_le_length hpopped, map_append]
      congr 1
      rw [filter_cons_of_pos (by simp)]
      rfl
    · dsimp only at hmem
      rw [drop_append_of_le_length hpopped, map_append] at hmem
      rcases mem_append.1 hmem with hmem | hmem
      · exact h.gone id hacked hmem
      · have hne := h.ordered.acked _ id hacked
        rw [mem_singleton.1 hmem] at hne
        exact Nat.lt_irrefl _ hne
    · rw [mem_singleton.1 hp]

/-- **A move while the call is not active.** -/
theorem other (h : Fits callId q period r) (hne : q.active ≠ some callId) (hm : QueueMove q q') (hlast : ¬ IsLastId q'.next) :
    Fits callId q' period r := by
  have hlast₀ : ¬ IsLastId q.next := fun hl => hlast ((next_move hm).2 hl)
  have hordered := h.ordered.move hm hlast
  have hnil : ∀ {q' : EventQueue}, Fits callId q' (period ++ []) r → Fits callId q' period r :=
    fun hfits => by rwa [append_nil] at hfits
  cases hm with
  | silent calls _ => exact hnil (h.same rfl hordered)
  | clear calls _ => exact hnil (h.ended rfl (Nat.le_refl _) (fun e he => by cases he) hordered)
  | forget => exact hnil (h.same rfl hordered)
  | remember response hnot => exact hnil (h.same rfl hordered)
  | nothing => exact hnil (h.same rfl hordered)
  | drop signal _ => exact hnil (h.same rfl hordered)
  | fail callId' event calls _ _ _ =>
    refine hnil (h.ended rfl (Nat.le_of_lt (nextId_lt hlast₀)) (fun e he => ?_) hordered)
    rw [mem_singleton.1 he]
    exact ⟨rfl, rfl⟩
  | take callId' signal hcall _ =>
    have hlt := nextId_lt hlast₀
    have hother : callId' ≠ callId := fun heq => hne (heq ▸ hcall)
    refine ⟨hordered, h.inv, h.kept, fun p hp => Nat.lt_trans (h.below p hp) hlt, fun id hid => Nat.lt_trans (h.seen id hid) hlt,
      fun hactive => absurd hactive hne, fun _ e he hid => ?_, h.gone⟩
    rcases mem_append.1 he with he | he
    · exact h.inactive hne e he hid
    · rw [mem_singleton.1 he] at hid
      exact absurd hid hother

theorem own_moves (h : Fits callId q period r) (hactive : q.active = some callId ∨ q.active = none) (hm : QueueMoves q q')
    (hlast : ¬ IsLastId q'.next) : ∃ r' new, q'.calls = q.calls ++ new ∧ Fits callId q' (period ++ new) r' ∧
      WentOn q.next r r' ∧ r'.popped = r.popped ∧ (q'.active = some callId ∨ q'.active = none) := by
  induction hm with
  | refl => exact ⟨r, [], (append_nil _).symm, (append_nil _).symm ▸ h, .refl _ _, rfl, hactive⟩
  | @tail q₁ q₂ hmoves hm ih =>
    obtain ⟨r₁, new, hcalls, hfits, hwent, hpopped, hactive₁⟩ := ih (fun hl => hlast ((next_move hm).2 hl))
    obtain ⟨r₂, new', hcalls', hfits', hwent', hpopped'⟩ := hfits.own hactive₁ hm hlast
    refine ⟨r₂, new ++ new', ?_, ?_, hwent.trans hwent' (next_moves hmoves).1, hpopped'.trans hpopped, ?_⟩
    · rw [hcalls', hcalls, append_assoc]
    · rw [← append_assoc]
      exact hfits'
    · rcases active_move hm with hsame | hnone
      · rw [hsame]
        exact hactive₁
      · exact .inr hnone

theorem other_moves (h : Fits callId q period r) (hne : q.active ≠ some callId) (hm : QueueMoves q q')
    (hlast : ¬ IsLastId q'.next) : Fits callId q' period r ∧ q'.active ≠ some callId := by
  induction hm with
  | refl => exact ⟨h, hne⟩
  | @tail q₁ q₂ hmoves hm ih =>
    obtain ⟨hfits, hne₁⟩ := ih (fun hl => hlast ((next_move hm).2 hl))
    refine ⟨hfits.other hne₁ hm hlast, ?_⟩
    rcases active_move hm with hsame | hnone
    · rw [hsame]
      exact hne₁
    · rw [hnone]
      exact fun hc => by cases hc

theorem acked (h : Fits callId q period r) {event : PendingEvent} {events : List PendingEvent}
    (hevents : q.events = event :: events) (hpassed : event.callId = callId → ∀ (i : Nat) (p : UInt64 × List UInt8),
      r.pushed[i]? = some p → p.1 = event.id → i < r.passed.length) :
    ∃ r', Fits callId { q with events, acked := some (event.callId, event.id) } period r' ∧ WentOn q.next r r' ∧
      (event.callId ≠ callId → r'.popped = r.popped) := by
  have hmem : event ∈ q.events := hevents ▸ mem_cons_self
  have hordered := h.ordered.ack hevents
  by_cases hid : event.callId = callId
  · by_cases hactive : q.active = some callId
    · -- the front is the first signal that waits
      have hwaiting := h.active hactive
      rw [hevents, filter_cons_of_pos (by simpa using hid)] at hwaiting
      have hlt : r.popped < r.pushed.length := by
        by_contra hge
        rw [drop_eq_nil_of_le (Nat.not_lt.1 hge)] at hwaiting
        cases hwaiting
      rw [drop_eq_getElem_cons hlt, map_cons] at hwaiting
      obtain ⟨hfront, hrest⟩ := List.cons.inj hwaiting
      have hkey : (r.pushed[r.popped]).1 = event.id := by rw [hfront]; rfl
      have hread := hpassed hid r.popped _ (getElem?_eq_getElem hlt) hkey
      refine ⟨{ r with popped := r.popped + 1 }, ⟨hordered, h.inv.pop hread, h.kept, h.below, h.seen, fun _ => hrest,
        fun hne => absurd hactive hne, fun id hc hgone => ?_⟩, ⟨rfl, rfl, [], (append_nil _).symm, (fun _ hp => by cases hp)⟩, fun hne => absurd hid hne⟩
      cases hc
      have hnodup := h.inv.nodup
      rw [← take_append_drop r.popped r.pushed, map_append, drop_eq_getElem_cons hlt, map_cons] at hnodup
      have hnot := (nodup_cons.1 (nodup_append.1 hnodup).2.1).1
      rw [hkey] at hnot
      exact hnot hgone
    · have herror := h.inactive hactive event hmem hid
      refine ⟨r, ⟨hordered, h.inv, h.kept, h.below, h.seen, fun hc => absurd hc hactive,
        fun _ e he => h.inactive hactive e (hevents ▸ mem_cons_of_mem _ he), fun id hc hgone => ?_⟩, .refl _ _, fun _ => rfl⟩
      cases hc
      obtain ⟨p, hp, heq⟩ := mem_map.1 hgone
      exact herror.2 (heq ▸ mem_map_of_mem (mem_of_mem_drop hp))
  · refine ⟨r, ⟨hordered, h.inv, h.kept, h.below, h.seen, fun hactive => ?_,
      fun hne e he => h.inactive hne e (hevents ▸ mem_cons_of_mem _ he), fun id hc => ?_⟩, .refl _ _, fun _ => rfl⟩
    · have hwaiting := h.active hactive
      rw [hevents, filter_cons_of_neg (by simpa using hid)] at hwaiting
      exact hwaiting
    · cases hc
      exact absurd rfl hid

end Fits

/-! ## Requests -/

section Requests

open VoiceWorker

variable {β H P : Type} {B : MediaBackend β H P} {hashes : Hashes} {w : VoiceWorker β H P} {a : Arrival}

/-- **A request keeps the queue and the relay together.**  An acknowledgement of the call's is about what was passed on. -/
theorem Fits.served (h : Fits callId w.queue period r) (hinv : w.ledger.Inv)
    (hstay : ¬(w.activeId? ≠ some callId ∧ (VoiceWorker.step B hashes w a).1.activeId? = some callId))
    (hlast : ¬ IsLastId (VoiceWorker.step B hashes w a).1.nextEventId)
    (hack : ∀ id, a.request = .ackEvent callId id → id.toNat < w.nextEventId.toNat ∧
      ∀ (i : Nat) (p : UInt64 × List UInt8), r.pushed[i]? = some p → p.1 = id → i < r.passed.length) :
    ∃ r', Fits callId (VoiceWorker.step B hashes w a).1.queue
        (if w.activeId? = some callId then period ++ (VoiceWorker.step B hashes w a).1.calls.drop w.calls.length else period) r' ∧
      WentOn w.nextEventId r r' ∧ (¬ Acknowledges callId a.request → r'.popped = r.popped) := by
  have hmoved : ∀ {q : EventQueue}, QueueMoves w.queue q → ¬ IsLastId q.next →
      ∃ r', Fits callId q (if w.activeId? = some callId then period ++ q.calls.drop w.calls.length else period) r' ∧
        WentOn w.nextEventId r r' ∧ r'.popped = r.popped := by
    intro q hmoves hl
    by_cases hactive : w.activeId? = some callId
    · obtain ⟨r', new, hcalls, hfits, hwent, hpopped, -⟩ := h.own_moves (.inl hactive) hmoves hl
      rw [if_pos hactive, hcalls]
      refine ⟨r', ?_, hwent, hpopped⟩
      rw [show w.queue.calls = w.calls from rfl, drop_left]
      exact hfits
    · rw [if_neg hactive]
      exact ⟨r, (h.other_moves hactive hmoves hl).1, .refl _ _, rfl⟩
  have hstep : QueueStep w.state a.request w.queue (VoiceWorker.step B hashes w a).1.queue := queueStep_step hinv
  cases hstep with
  | moved hmoves =>
    obtain ⟨r', hfits, hwent, hpopped⟩ := hmoved hmoves hlast
    exact ⟨r', hfits, hwent, fun _ => hpopped⟩
  | @started q₁ c hmoves hactive hidle hc hq =>
    have hnone : w.activeId? = none := activeId?_eq_none hactive
    have hne : w.activeId? ≠ some callId := fun hs => by rw [hnone] at hs; cases hs
    have hl₁ : ¬ IsLastId q₁.next := by
      have hnext := congrArg EventQueue.next hq
      exact hnext ▸ hlast
    obtain ⟨hfits, hne₁⟩ := h.other_moves hne hmoves hl₁
    have hother : some (callIdOf a.request) ≠ some callId := by
      intro hs
      have hactive' := congrArg EventQueue.active hq
      exact hstay ⟨hne, hactive'.trans hs⟩
    refine ⟨r, ?_, .refl _ _, fun _ => rfl⟩
    rw [if_neg hne, hq]
    exact ⟨⟨hfits.ordered.below, hfits.ordered.acked, hfits.ordered.remembered⟩, hfits.inv, hfits.kept, hfits.below, hfits.seen, fun hs => absurd hs hother,
      fun _ => hfits.inactive hne₁, hfits.gone⟩
  | @acked q₁ event events hmoves hevents hrequest hq =>
    have hnext := congrArg EventQueue.next hq
    have hcalls := congrArg EventQueue.calls hq
    obtain ⟨r₁, hfits, hwent, hpopped⟩ := hmoved hmoves (hnext ▸ hlast)
    have hpassed : event.callId = callId → ∀ (i : Nat) (p : UInt64 × List UInt8),
        r₁.pushed[i]? = some p → p.1 = event.id → i < r₁.passed.length := by
      intro hid i p hp hkey
      obtain ⟨hlt, hread⟩ := hack event.id (hid ▸ hrequest)
      obtain ⟨added, hadded, hnew⟩ := hwent.pushed
      rw [hwent.passed]
      rw [hadded] at hp
      by_cases hi : i < r.pushed.length
      · rw [List.getElem?_append_left hi] at hp
        exact hread i p hp hkey
      · rw [getElem?_append_right (Nat.not_lt.1 hi)] at hp
        have hge := hnew p (mem_of_getElem? hp)
        rw [hkey] at hge
        exact absurd hlt (Nat.not_lt.2 hge)
    obtain ⟨r₂, hfits', hwent', hpopped'⟩ := hfits.acked hevents hpassed
    have hcalls' : (VoiceWorker.step B hashes w a).1.calls = q₁.calls := hcalls
    refine ⟨r₂, ?_, hwent.trans hwent' (next_moves hmoves).1, fun hnot => ?_⟩
    · rw [hq, hcalls']
      exact hfits'
    · rw [hrequest] at hnot
      exact (hpopped' hnot).trans hpopped

end Requests

/-! ## Whole runs of a call -/

def PhaseFits (r : Relay UInt64 (List UInt8)) (next : UInt64) : PumpPhase → Prop
  | .received id (.outboundSignal signal) => id.toNat < next.toNat ∧ r.pushed[r.popped]? = some (id, signal)
  | .received id .nativeError             => id.toNat < next.toNat ∧ id ∉ r.pushed.map Prod.fst
  | .acking id (.outboundSignal signal)   => id.toNat < next.toNat ∧ ∃ i, i < r.passed.length ∧ r.pushed[i]? = some (id, signal)
  | .acking id .nativeError               => id.toNat < next.toNat ∧ id ∉ r.pushed.map Prod.fst
  | _ => True

namespace PumpedCall

open VoiceWorker

variable {β H P : Type} {B : MediaBackend β H P} {hashes : Hashes} {s s' : PumpedCall β H P}

/-- **The invariant of a call and its pump.** -/
structure Inv (callId : UInt64) (s : PumpedCall β H P) : Prop where
  ledger : s.worker.ledger.Inv
  relay : ¬ IsLastId s.worker.nextEventId → ∃ r, Fits callId s.worker.queue s.period r ∧ r.seen = s.delivered ∧
    r.passed = s.passed ∧ PhaseFits r s.worker.nextEventId s.phase

theorem phase_wentOn {r r' : Relay UInt64 (List UInt8)} {next next' : UInt64} {phase : PumpPhase} (h : PhaseFits r next phase)
    (hwent : WentOn next r r') (hle : next.toNat ≤ next'.toNat)
    (hpopped : ∀ id event, phase = .received id event → r'.popped = r.popped) : PhaseFits r' next' phase := by
  obtain ⟨added, hadded, hnew⟩ := hwent.pushed
  have hget : ∀ {i : Nat} {p : UInt64 × List UInt8}, r.pushed[i]? = some p → r'.pushed[i]? = some p := by
    intro i p hp
    obtain ⟨hlt, -⟩ := List.getElem?_eq_some_iff.1 hp
    rw [hadded, List.getElem?_append_left hlt]
    exact hp
  have hnot : ∀ {id : UInt64}, id.toNat < next.toNat → id ∉ r.pushed.map Prod.fst → id ∉ r'.pushed.map Prod.fst := by
    intro id hlt hid hmem
    rw [hadded, map_append] at hmem
    rcases mem_append.1 hmem with hmem | hmem
    · exact hid hmem
    · obtain ⟨p, hp, heq⟩ := mem_map.1 hmem
      have hge := hnew p hp
      rw [heq] at hge
      exact absurd hlt (Nat.not_lt.2 hge)
  cases phase with
  | polling => exact trivial
  | ended => exact trivial
  | received id event =>
    cases event with
    | outboundSignal signal =>
      refine ⟨Nat.lt_of_lt_of_le h.1 hle, ?_⟩
      rw [hpopped id _ rfl]
      exact hget h.2
    | nativeError => exact ⟨Nat.lt_of_lt_of_le h.1 hle, hnot h.1 h.2⟩
  | acking id event =>
    cases event with
    | outboundSignal signal =>
      obtain ⟨hlt, i, hi, hp⟩ := h
      exact ⟨Nat.lt_of_lt_of_le hlt hle, i, hwent.passed ▸ hi, hget hp⟩
    | nativeError => exact ⟨Nat.lt_of_lt_of_le h.1 hle, hnot h.1 h.2⟩

theorem nextEventId_step {w : VoiceWorker β H P} {a : Arrival} (h : w.ledger.Inv) :
    w.nextEventId.toNat ≤ (VoiceWorker.step B hashes w a).1.nextEventId.toNat ∧
      (IsLastId w.nextEventId → IsLastId (VoiceWorker.step B hashes w a).1.nextEventId) := by
  have hstep : QueueStep w.state a.request w.queue (VoiceWorker.step B hashes w a).1.queue := queueStep_step h
  cases hstep with
  | moved hmoves => exact next_moves hmoves
  | @started q₁ c hmoves _ _ _ hq =>
    have hnext : (VoiceWorker.step B hashes w a).1.nextEventId = q₁.next := congrArg EventQueue.next hq
    rw [hnext]
    exact next_moves hmoves
  | @acked q₁ event events hmoves _ _ hq =>
    have hnext : (VoiceWorker.step B hashes w a).1.nextEventId = q₁.next := congrArg EventQueue.next hq
    rw [hnext]
    exact next_moves hmoves

variable {served : PumpedCall β H P × Response}

theorem Inv.serve (h : Inv callId s) {a : Arrival} (hs : PumpedCall.serve B hashes callId s a = some served)
    (hack : ∀ id, a.request = .ackEvent callId id → ∃ event, s.phase = .acking id event) :
    Inv callId served.1 ∧ served.1.phase = s.phase ∧ served.2 = (VoiceWorker.step B hashes s.worker a).2 ∧
      served.1.worker = (VoiceWorker.step B hashes s.worker a).1 ∧
      (IsLastId s.worker.nextEventId → IsLastId served.1.worker.nextEventId) := by
  unfold PumpedCall.serve at hs
  dsimp only at hs
  split at hs
  · cases hs
  · rename_i hstay
    cases hs
    obtain ⟨hle, hstill⟩ : s.worker.nextEventId.toNat ≤ (VoiceWorker.step B hashes s.worker a).1.nextEventId.toNat ∧
        (IsLastId s.worker.nextEventId → IsLastId (VoiceWorker.step B hashes s.worker a).1.nextEventId) :=
      nextEventId_step h.ledger
    refine ⟨⟨h.ledger.moves (moves_handle B hashes), fun hlast => ?_⟩, rfl, rfl, rfl, hstill⟩
    obtain ⟨r, hfits, hseen, hpassed, hphase⟩ := h.relay (fun hl => hlast (hstill hl))
    have hread : ∀ id, a.request = .ackEvent callId id → id.toNat < s.worker.nextEventId.toNat ∧
        ∀ (i : Nat) (p : UInt64 × List UInt8), r.pushed[i]? = some p → p.1 = id → i < r.passed.length := by
      intro id hrequest
      obtain ⟨event, hacking⟩ := hack id hrequest
      rw [hacking] at hphase
      cases event with
      | nativeError =>
        refine ⟨hphase.1, fun i p hp hkey => absurd ?_ hphase.2⟩
        rw [← hkey]
        exact mem_map_of_mem (mem_of_getElem? hp)
      | outboundSignal signal =>
        obtain ⟨hlt, j, hj, hpj⟩ := hphase
        refine ⟨hlt, fun i p hp hkey => ?_⟩
        have hsame : (r.pushed.map Prod.fst)[i]? = (r.pushed.map Prod.fst)[j]? := by
          rw [getElem?_map, getElem?_map, hp, hpj, Option.map_some, Option.map_some, hkey]
        have hlen : i < (r.pushed.map Prod.fst).length := by
          rw [List.length_map]
          exact (List.getElem?_eq_some_iff.1 hp).1
        rw [(List.getElem?_inj hlen hfits.inv.nodup).1 hsame]
        exact hj
    obtain ⟨r', hfits', hwent, hpopped⟩ := hfits.served h.ledger hstay hlast hread
    refine ⟨r', hfits', hwent.seen.trans hseen, hwent.passed.trans hpassed, ?_⟩
    refine phase_wentOn hphase hwent hle (fun id event hreceived => hpopped (fun hacks => ?_))
    cases hrequest : a.request with
    | ackEvent callId' id' =>
      rw [hrequest] at hacks
      obtain rfl : callId' = callId := hacks
      obtain ⟨event', hacking⟩ := hack id' hrequest
      rw [hreceived] at hacking
      cases hacking
    | _ =>
      rw [hrequest] at hacks
      exact hacks

theorem Inv.polled (h : Inv callId s) {now : Nanoseconds} {random : Option (FixedBytes DH_PUBLIC_BYTES)}
    (hs : PumpedCall.serve B hashes callId s ⟨now, random, .pollEvent callId⟩ = some served) :
    Inv callId (served.1.polled served.2) := by
  obtain ⟨hserved, -, hreply, hworker, hstill⟩ := h.serve hs (fun id hc => by cases hc)
  cases hresponse : served.2 with
  | event eventId event =>
    refine ⟨hserved.ledger, fun hlast => ?_⟩
    obtain ⟨r, hfits, hseen, hpassed, -⟩ := hserved.relay hlast
    obtain ⟨r₀, hfits₀, -⟩ := h.relay (fun hl => hlast (hstill hl))
    obtain ⟨pending, hfind, hid, hsignal⟩ := step_pollEvent rfl h.ledger hfits₀.ordered.remembered (hreply.symm.trans hresponse)
    rw [← hworker] at hfind
    have hmem := mem_of_find?_eq_some hfind
    have hcall : pending.callId = callId := by simpa using find?_some hfind
    have hlt : eventId.toNat < served.1.worker.nextEventId.toNat := hid ▸ hfits.ordered.below pending hmem
    refine ⟨r, hfits, hseen, hpassed, ?_⟩
    by_cases hactive : served.1.worker.activeId? = some callId
    · have hwaiting := hfits.active hactive
      have hhead : (served.1.worker.events.filter (fun e => e.callId = callId)).head? = some pending := by
        rw [head?_filter]
        exact hfind
      have hwaiting' : served.1.worker.events.filter (fun e => e.callId = callId) =
        (r.pushed.drop r.popped).map (pendingOf callId) := hwaiting
      rw [hwaiting', head?_map, head?_drop, Option.map_eq_some_iff] at hhead
      obtain ⟨entry, hentry, rfl⟩ := hhead
      have hevent := (hsignal entry.2).2 rfl
      rw [hevent]
      refine ⟨hlt, ?_⟩
      rw [hentry, ← hid]
      rfl
    · have herror := hfits.inactive hactive pending hmem hcall
      cases event with
      | outboundSignal signal =>
        have hpending := (hsignal signal).1 rfl
        rw [herror.1] at hpending
        cases hpending
      | nativeError => exact ⟨hlt, hid ▸ herror.2⟩
  | _ =>
    refine ⟨hserved.ledger, fun hlast => ?_⟩
    obtain ⟨r, hfits, hseen, hpassed, hphase'⟩ := hserved.relay hlast
    exact ⟨r, hfits, hseen, hpassed, hphase'⟩

theorem Inv.deliver (h : Inv callId s) {eventId : UInt64} {event : VoiceIpc.WorkerEvent}
    (hphase : s.phase = .received eventId event) : Inv callId (s.deliver eventId event) := by
  unfold PumpedCall.deliver
  split
  · rename_i hseen₀
    refine ⟨h.ledger, fun hlast => ?_⟩
    obtain ⟨r, hfits, hseen, hpassed, hfit⟩ := h.relay hlast
    refine ⟨r, hfits, hseen, hpassed, ?_⟩
    rw [hphase] at hfit
    cases event with
    | nativeError => exact hfit
    | outboundSignal signal =>
      refine ⟨hfit.1, r.popped, ?_, hfit.2⟩
      -- a seen id at the front was passed on
      refine Nat.lt_of_not_le (fun hle => ?_)
      have hmem : (eventId, signal) ∈ r.pushed.drop r.passed.length := by
        refine mem_of_getElem? (i := r.popped - r.passed.length) ?_
        rw [getElem?_drop, Nat.add_sub_cancel' hle]
        exact hfit.2
      exact hfits.inv.unseen _ hmem (hseen ▸ hseen₀)
  · rename_i hunseen
    refine ⟨h.ledger, fun hlast => ?_⟩
    obtain ⟨r, hfits, hseen, hpassed, hfit⟩ := h.relay hlast
    rw [hphase] at hfit
    have hunseen' : eventId ∉ r.seen := hseen ▸ hunseen
    cases event with
    | nativeError =>
      refine ⟨{ r with seen := eventId :: r.seen }, ⟨hfits.ordered, hfits.inv.see hfit.2, hfits.kept, hfits.below, fun id hid => ?_,
        hfits.active, hfits.inactive, hfits.gone⟩, congrArg (eventId :: ·) hseen, ?_, hfit⟩
      · rcases mem_cons.1 hid with rfl | hid
        · exact hfit.1
        · exact hfits.seen id hid
      · exact hpassed.trans (append_nil _).symm
    | outboundSignal signal =>
      refine ⟨{ r with seen := eventId :: r.seen, passed := r.passed ++ [signal] }, ⟨hfits.ordered,
        hfits.inv.pass hfit.2 hunseen', hfits.kept, hfits.below, fun id hid => ?_, hfits.active, hfits.inactive, hfits.gone⟩,
        congrArg (eventId :: ·) hseen, congrArg (· ++ [signal]) hpassed, ⟨hfit.1, r.popped, ?_, hfit.2⟩⟩
      · rcases mem_cons.1 hid with rfl | hid
        · exact hfit.1
        · exact hfits.seen id hid
      · dsimp only
        rw [length_append, length_singleton]
        exact Nat.lt_succ_of_le hfits.inv.popped_le

theorem Inv.again (h : Inv callId s) (phase : PumpPhase) (hphase : phase = .polling ∨ phase = .ended) :
    Inv callId { s with phase } := by
  refine ⟨h.ledger, fun hlast => ?_⟩
  obtain ⟨r, hfits, hseen, hpassed, -⟩ := h.relay hlast
  refine ⟨r, hfits, hseen, hpassed, ?_⟩
  rcases hphase with rfl | rfl <;> exact trivial

theorem Inv.acknowledged (h : Inv callId s) {now : Nanoseconds} {random : Option (FixedBytes DH_PUBLIC_BYTES)} {eventId : UInt64}
    {event : VoiceIpc.WorkerEvent} (hphase : s.phase = .acking eventId event)
    (hs : PumpedCall.serve B hashes callId s ⟨now, random, .ackEvent callId eventId⟩ = some served) :
    Inv callId served.1 ∧ Inv callId (served.1.acknowledged eventId event served.2) := by
  obtain ⟨hserved, -, hreply, hworker, hstill⟩ := h.serve hs (fun id hc => by cases hc; exact ⟨event, hphase⟩)
  refine ⟨hserved, ?_⟩
  cases hresponse : served.2 with
  | eventAcknowledged eventId' =>
    unfold PumpedCall.acknowledged
    dsimp only
    split
    · refine ⟨hserved.ledger, fun hlast => ?_⟩
      obtain ⟨r, hfits, hseen, hpassed, -⟩ := hserved.relay hlast
      obtain ⟨r₀, hfits₀, -⟩ := h.relay (fun hl => hlast (hstill hl))
      obtain ⟨-, hacked⟩ := step_ackEvent rfl h.ledger hfits₀.ordered.remembered (hreply.symm.trans hresponse)
      have hgone : eventId ∉ (r.pushed.drop r.popped).map Prod.fst := by
        refine hfits.gone eventId ?_
        rw [← hworker] at hacked
        exact hacked
      refine ⟨{ r with seen := r.seen.erase eventId }, ⟨hfits.ordered, hfits.inv.forget hgone, hfits.kept, hfits.below,
        fun id hid => hfits.seen id (mem_of_mem_erase hid), hfits.active, hfits.inactive, hfits.gone⟩,
        congrArg (·.erase eventId) hseen, hpassed, ?_⟩
      dsimp only
      split <;> exact trivial
    · exact hserved.again .polling (.inl rfl)
  | _ => exact hserved.again .polling (.inl rfl)

/-- **Every step keeps the invariant.** -/
theorem Inv.step (h : Inv callId s) {action : PumpAction} (hs : PumpedCall.step B hashes callId s action = some s') :
    Inv callId s' := by
  cases action with
  | request a =>
    unfold PumpedCall.step at hs
    dsimp only at hs
    split at hs
    · cases hs
    · rename_i hnot
      rw [Option.map_eq_some_iff] at hs
      obtain ⟨served, hserved, rfl⟩ := hs
      refine (h.serve hserved (fun id hrequest => absurd ?_ hnot)).1
      rw [hrequest]
      rfl
  | poll now random answered =>
    unfold PumpedCall.step at hs
    dsimp only at hs
    split at hs
    · rw [Option.map_eq_some_iff] at hs
      obtain ⟨served, hserved, rfl⟩ := hs
      split
      · exact h.polled hserved
      · exact (h.serve hserved (fun id hc => by cases hc)).1
    · cases hs
  | deliver =>
    unfold PumpedCall.step at hs
    dsimp only at hs
    split at hs
    · rename_i hphase
      cases hs
      exact h.deliver hphase
    · cases hs
  | ack now random answered =>
    unfold PumpedCall.step at hs
    dsimp only at hs
    split at hs
    · rename_i hphase
      rw [Option.map_eq_some_iff] at hs
      obtain ⟨served, hserved, rfl⟩ := hs
      split
      · exact (h.acknowledged hphase hserved).2
      · exact (h.acknowledged hphase hserved).1
    · cases hs
  | again =>
    unfold PumpedCall.step at hs
    dsimp only at hs
    split at hs
    · cases hs
      exact h.again .polling (.inl rfl)
    · cases hs
      exact h.again .polling (.inl rfl)
    · cases hs

end PumpedCall

end Voice
end Crossgram
