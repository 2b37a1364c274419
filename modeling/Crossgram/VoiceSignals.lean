import Crossgram.VoiceExchange
import Crossgram.VoicePump
/-!
# VoiceSignals — signals of a call are passed on once and in order (packages/voice-worker/src/worker.rs,
packages/bridge/src/voice/voice-worker-client.ts)

From a worker that any requests have brought to an active call, and any run of the call's pump.
-/
namespace Crossgram
namespace Voice

open List
open VoiceIpc (FixedBytes Response DH_PUBLIC_BYTES)
open VoiceWorker

variable {β H P : Type} {B : MediaBackend β H P} {hashes : Hashes}

theorem ordered_step {w : VoiceWorker β H P} {a : Arrival} (h : w.queue.Ordered) (hinv : w.ledger.Inv)
    (hlast : ¬ IsLastId (VoiceWorker.step B hashes w a).1.nextEventId) : (VoiceWorker.step B hashes w a).1.queue.Ordered := by
  have hstep : QueueStep w.state a.request w.queue (VoiceWorker.step B hashes w a).1.queue := queueStep_step hinv
  cases hstep with
  | moved hmoves => exact h.moves hmoves hlast
  | @started q₁ c hmoves _ _ _ hq =>
    have hnext := congrArg EventQueue.next hq
    have hordered := h.moves hmoves (hnext ▸ hlast : ¬ IsLastId q₁.next)
    rw [hq]
    exact ⟨hordered.below, hordered.acked, hordered.remembered⟩
  | @acked q₁ event events hmoves hevents _ hq =>
    have hnext := congrArg EventQueue.next hq
    have hordered := h.moves hmoves (hnext ▸ hlast : ¬ IsLastId q₁.next)
    rw [hq]
    exact hordered.ack hevents

theorem ordered_final (backend : β) (ttl : Nanoseconds) (arrivals : List Arrival)
    (hlast : ¬ IsLastId (Runs.final (VoiceWorker.step B hashes) (withTtl backend ttl) arrivals).nextEventId) :
    (Runs.final (VoiceWorker.step B hashes) (withTtl backend ttl) arrivals).queue.Ordered := by
  induction arrivals using List.reverseRecOn with
  | nil => exact ⟨(fun e he => by cases he), (fun _ _ hc => by cases hc), (fun _ hr => by cases hr)⟩
  | append_singleton arrivals a ih =>
    have hinv : (Runs.final (VoiceWorker.step B hashes) (withTtl backend ttl) arrivals).ledger.Inv :=
      (reached backend ttl arrivals).2
    unfold Runs.final at hlast ⊢
    rw [foldl_append] at hlast ⊢
    refine ordered_step (ih (fun hl => hlast ?_)) hinv hlast
    exact (PumpedCall.nextEventId_step hinv).2 hl

def waitingSignals (callId : UInt64) (events : List PendingEvent) : List (List UInt8) :=
  (events.filter (fun e => e.callId = callId)).filterMap (fun e => e.event.signal?)

theorem waitingSignals_pending (callId : UInt64) (entries : List (UInt64 × List UInt8)) :
    (entries.map (pendingOf callId)).filterMap (fun e => e.event.signal?) = entries.map Prod.snd := by
  induction entries with
  | nil => rfl
  | cons entry entries ih =>
    rw [map_cons, filterMap_cons, ih]
    rfl

/-- **Outbound signals are passed on once and in order.** -/
theorem outbound_signals_delivered (backend : β) (ttl : Nanoseconds) (arrivals : List Arrival) (callId : UInt64)
    {w : VoiceWorker β H P} {s : PumpedCall β H P} (hw : w = Runs.final (VoiceWorker.step B hashes) (withTtl backend ttl) arrivals)
    (hactive : w.activeId? = some callId) (hevents : ∀ e ∈ w.events, e.callId ≠ callId)
    (hs : Runs.Reachable (PumpedCall.step B hashes callId) (fun _ _ => True) (.start w) s)
    (hlast : ¬ IsLastId s.worker.nextEventId) :
    s.passed <+: keptSignals s.period ∧
    (s.worker.activeId? = some callId →
      ∃ done, keptSignals s.period = done ++ waitingSignals callId s.worker.events ∧ done <+: s.passed) ∧
    (keptSignals s.period).Sublist (takenSignals s.period) ∧
    ((∀ c ∈ s.period, ¬ c.FoundFull) → keptSignals s.period = takenSignals s.period) := by
  have hstart : PumpedCall.Inv callId (PumpedCall.start w) := by
    refine ⟨hw ▸ (reached backend ttl arrivals).2, fun hl => ?_⟩
    have hordered : w.queue.Ordered := by
      rw [hw]
      refine ordered_final backend ttl arrivals ?_
      rw [← hw]
      exact hl
    refine ⟨⟨[], 0, [], []⟩, ⟨hordered, ⟨nodup_nil, rfl, Nat.le_refl _, Nat.zero_le _, (fun _ hp => by cases hp),
      (fun _ hp => by cases hp)⟩, rfl, (fun _ hp => by cases hp), (fun _ hp => by cases hp), fun _ => ?_,
      fun hne => absurd hactive hne, (fun _ _ hmem => by cases hmem)⟩, rfl, rfl, trivial⟩
    exact filter_eq_nil_iff.2 (fun e he => by simpa using hevents e he)
  have hinv : PumpedCall.Inv callId s :=
    hs.invariant hstart (fun _ _ _ _ h _ hstep => h.step hstep)
  obtain ⟨r, hfits, -, hpassed, -⟩ := hinv.relay hlast
  refine ⟨?_, fun ha => ?_, ?_, fun hroom => ?_⟩
  · rw [← hfits.kept, ← hpassed]
    exact hfits.inv.passed_upTo
  · obtain ⟨done, hsplit, hdone⟩ := hfits.inv.split
    have hwaiting : s.worker.events.filter (fun e => e.callId = callId) = _ := hfits.active ha
    refine ⟨done, ?_, hpassed ▸ hdone⟩
    unfold waitingSignals
    rw [hwaiting, waitingSignals_pending, ← hfits.kept, hsplit]
  · unfold keptSignals takenSignals BackendCall.keptSignal
    induction s.period with
    | nil => exact .refl _
    | cons c calls ih =>
      rw [filterMap_cons, filterMap_cons]
      by_cases hfull : c.FoundFull
      · rw [if_pos hfull]
        cases c.takenSignal with
        | none        => exact ih
        | some signal => exact ih.cons _
      · rw [if_neg hfull]
        cases c.takenSignal with
        | none        => exact ih
        | some signal => exact ih.cons_cons _
  · exact filterMap_congr (fun c hc => if_neg (hroom c hc))

/-! ## A signal that is dropped -/

def chattyBackend : MediaBackend Nat Unit Unit where
  start n _ := (n, .ok ())
  pollEvent n := (n + 1, .ok (some (.outboundSignal [n.toUInt8])))
  forwardSignal n _ _ := ((n, ()), .ok ())
  attachPcm n _ := ((n, ()), .ok ())
  sendPcm n _ _ := ((n, ()), .ok ())
  receivePcm n _ := ((n, ()), .ok none)
  closePcm n _ := n
  stop n _ := n

def chattyWorker : VoiceWorker Nat Unit Unit :=
  Runs.final (VoiceWorker.step chattyBackend zeroHashes) (new 0) [prepareOne 0, completeOne 0 middleValue]

def chattyRun (actions : List PumpAction) : Option (PumpedCall Nat Unit Unit) :=
  Runs.run (PumpedCall.step chattyBackend zeroHashes 1) (.start chattyWorker) actions

theorem outbound_signal_delivered : ∃ s, chattyRun [.poll 0 none true, .deliver, .ack 0 none true] = some s ∧
    s.passed = [[0]] ∧ s.passed <+: keptSignals s.period := by
  obtain ⟨s, hs⟩ := Option.isSome_iff_exists.1
    (by decide +kernel : (chattyRun [.poll 0 none true, .deliver, .ack 0 none true]).isSome = true)
  have hpassed : (chattyRun [.poll 0 none true, .deliver, .ack 0 none true]).map (fun s => s.passed) = some [[0]] := by
    decide +kernel
  have hnext : (chattyRun [.poll 0 none true, .deliver, .ack 0 none true]).map (fun s => s.worker.nextEventId) = some 4 := by
    decide +kernel
  rw [hs, Option.map_some, Option.some_inj] at hpassed hnext
  refine ⟨s, hs, hpassed, ?_⟩
  refine (outbound_signals_delivered 0 CALL_TTL [prepareOne 0, completeOne 0 middleValue] 1 rfl (by decide +kernel)
    (fun e he => ?_) (Runs.reachable_of_run (fun _ _ _ => trivial) .init hs) ?_).1
  · have hnone : chattyWorker.events = [] := by decide +kernel
    have he : e ∈ chattyWorker.events := he
    rw [hnone] at he
    cases he
  · rw [hnext]
    unfold IsLastId
    decide

/-- **A signal is dropped** while 16 wait: 17 were taken, none was passed on, and the call is active. -/
theorem full_queue_drops_signal : (chattyRun (List.replicate 17 (.request ⟨0, none, .ackEvent 2 0⟩))).map
    (fun s => (s.worker.activeId?, (takenSignals s.period).length, s.worker.events.length, s.passed)) =
      some (some 1, 17, 16, []) := by
  decide +kernel

end Voice
end Crossgram
