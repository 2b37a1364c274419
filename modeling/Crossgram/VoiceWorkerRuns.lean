import Crossgram.VoiceWorkerOwnership
/-!
# VoiceWorkerRuns — the worker from its start to its drop (packages/voice-worker/src/worker.rs)

A run is a list of requests, each with the instant it is handled at and what the random source has then.
-/
namespace Crossgram
namespace Voice

open List
open Ownership (Event Lawful)
open VoiceIpc (FixedBytes Response DH_PUBLIC_BYTES)

namespace BackendCall

def given? : BackendCall → Option Nat
  | .start _ given     => given
  | .attachPcm _ given => given
  | _                  => none

def givesBack (thing : Thing) : BackendCall → Bool
  | .stop n     => thing = .handle n
  | .closePcm m => thing = .pcm m
  | _           => false

/-- **Native media is owned once**: what the backend handed out is given back exactly once, an endpoint before its handle, and
nothing of a handle is used after its stop. -/
structure OwnedOnce (calls : List BackendCall) : Prop where
  place : ∀ (i n : Nat) (c : BackendCall), calls[i]? = some c → c.given? = some n → n = i
  stopped : ∀ config n, .start config (some n) ∈ calls → calls.countP (givesBack (.handle n)) = 1
  closed : ∀ n m, .attachPcm n (some m) ∈ calls → calls.countP (givesBack (.pcm m)) = 1
  closedFirst : ∀ n m, .attachPcm n (some m) ∈ calls → ∀ before after, calls = before ++ .stop n :: after → .closePcm m ∈ before
  unused : ∀ n before after, calls = before ++ .stop n :: after → ∀ c ∈ after, ¬ c.Uses n calls

theorem count_release (thing : Thing) (calls : List BackendCall) :
    (calls.flatMap events).count (.release thing) = calls.countP (givesBack thing) := by
  induction calls with
  | nil => rfl
  | cons c calls ih =>
    rw [flatMap_cons, count_append, ih, countP_cons, Nat.add_comm]
    congr 1
    cases c with
    | start config given => cases given <;> rfl
    | attachPcm n given => cases given <;> rfl
    | closePcm m =>
      unfold events givesBack
      rw [count_singleton]
      by_cases h : thing = .pcm m
      · simp [h]
      · simp [h, Ne.symm h]
    | stop n =>
      unfold events givesBack
      rw [count_singleton]
      by_cases h : thing = .handle n
      · simp [h]
      · simp [h, Ne.symm h]
    | _ => rfl

theorem mem_events {calls : List BackendCall} {c : BackendCall} {e : Event Thing} (hc : c ∈ calls) (he : e ∈ c.events) :
    e ∈ calls.flatMap events := mem_flatMap.2 ⟨c, hc, he⟩

/-- **A lawful trace that holds nothing at its end owns its media once.** -/
theorem ownedOnce_of_lawful {calls : List BackendCall} (h : Lawful (calls.flatMap events) [])
    (hplace : ∀ (i n : Nat) (c : BackendCall), calls[i]? = some c → c.given? = some n → n = i) : OwnedOnce calls := by
  have hattached : ∀ {n m : Nat}, .attachPcm n (some m) ∈ calls →
      .acquire (some (.handle n)) (.pcm m) ∈ calls.flatMap events :=
    fun hmem => mem_events hmem (mem_cons_of_mem _ (mem_singleton_self _))
  have hfirst : ∀ n m, .attachPcm n (some m) ∈ calls → ∀ before after, calls = before ++ .stop n :: after →
      .closePcm m ∈ before := by
    intro n m hmem before after hsplit
    have htrace : calls.flatMap events = before.flatMap events ++ .release (.handle n) :: after.flatMap events := by
      rw [hsplit, flatMap_append, flatMap_cons]
      rfl
    have hreleased := h.parts_first (hattached hmem) htrace
    obtain ⟨c, hc, hrel⟩ := mem_flatMap.1 hreleased
    cases c with
    | closePcm k =>
      cases mem_singleton.1 hrel
      exact hc
    | stop k => cases mem_singleton.1 hrel
    | start config given => cases given <;> simp [events] at hrel
    | attachPcm k given => cases given <;> simp [events] at hrel
    | pollEvent _ _ => cases hrel
    | _ => cases mem_singleton.1 hrel
  refine ⟨hplace, fun config n hmem => ?_, fun n m hmem => ?_, hfirst, fun n before after hsplit c hc huses => ?_⟩
  · rw [← count_release]
    exact h.count_release (mem_events hmem (mem_singleton_self _))
  · rw [← count_release]
    exact h.count_release (hattached hmem)
  · have hpair := h.after_release
    rw [hsplit, flatMap_append, flatMap_cons] at hpair
    have hlater := (pairwise_append.1 hpair).2.1
    have hstop : ∀ e ∈ after.flatMap events, e.thing ≠ .handle n :=
      fun e he => (pairwise_cons.1 hlater).1 e he _ rfl
    have hclosed : ∀ m, .attachPcm n (some m) ∈ calls → ∀ e ∈ after.flatMap events, e.thing ≠ .pcm m := by
      intro m hmem e he
      have hbefore := mem_events (hfirst n m hmem before after hsplit) (mem_singleton_self _)
      refine (pairwise_append.1 hpair).2.2 _ hbefore e ?_ _ rfl
      exact mem_append_right _ he
    cases c with
    | forwardSignal k signal =>
      cases huses
      exact hstop _ (mem_events hc (mem_singleton_self _)) rfl
    | attachPcm k given =>
      cases huses
      refine hstop (.use (.handle n)) (mem_events hc ?_) rfl
      cases given <;> exact mem_cons_self
    | sendPcm m frame => exact hclosed m huses _ (mem_events hc (mem_singleton_self _)) rfl
    | receivePcm m => exact hclosed m huses _ (mem_events hc (mem_singleton_self _)) rfl
    | _ => exact huses

end BackendCall

namespace Ledger

variable {l : Ledger}

theorem mem_givenBack {c : BackendCall}
    (h : c ∈ (l.pcm.map BackendCall.closePcm).toList ++ (l.handle.map BackendCall.stop).toList) :
    (∃ m, c = .closePcm m) ∨ ∃ n, c = .stop n := by
  rcases mem_append.1 h with h | h
  · rw [Option.mem_toList, Option.map_eq_some_iff] at h
    obtain ⟨m, -, rfl⟩ := h
    exact .inl ⟨m, rfl⟩
  · rw [Option.mem_toList, Option.map_eq_some_iff] at h
    obtain ⟨n, -, rfl⟩ := h
    exact .inr ⟨n, rfl⟩

/-- A place is that of the call that handed it out. -/
def Placed (l : Ledger) : Prop := ∀ (i n : Nat) (c : BackendCall), l.calls[i]? = some c → c.given? = some n → n = i

theorem Placed.append (h : Placed l) {calls : List BackendCall}
    (hnew : ∀ (i n : Nat) (c : BackendCall), calls[i]? = some c → c.given? = some n → n = l.calls.length + i) :
    ∀ (i n : Nat) (c : BackendCall), (l.calls ++ calls)[i]? = some c → c.given? = some n → n = i := by
  intro i n c hi hn
  by_cases hlt : i < l.calls.length
  · rw [getElem?_append_left hlt] at hi
    exact h i n c hi hn
  · have hle := Nat.not_lt.1 hlt
    rw [getElem?_append_right hle] at hi
    rw [hnew _ n c hi hn, Nat.add_sub_cancel' hle]

theorem Placed.call (h : Placed l) {c : BackendCall}
    (hc : ∀ n, c.given? = some n → n = l.calls.length) : Placed (l.call c) := by
  refine h.append (fun i n x hi hn => ?_)
  rcases i with - | i
  · cases hi
    exact hc n hn
  · cases hi

theorem Placed.move {l l' : Ledger} (h : Placed l) (hm : Move l l') : Placed l' := by
  cases hm with
  | start config _ => exact h.call (fun n hn => by cases hn; rfl)
  | attach n _ _ => exact h.call (fun n hn => by cases hn; rfl)
  | teardown =>
    refine h.append (fun i n c hi hn => ?_)
    rcases mem_givenBack (mem_of_getElem? hi) with ⟨m, rfl⟩ | ⟨k, rfl⟩ <;> cases hn
  | _ => exact h.call (fun n hn => by cases hn)

theorem Placed.moves {l l' : Ledger} (h : Placed l) (hm : Moves l l') : Placed l' := by
  induction hm with
  | refl => exact h
  | tail _ hstep ih => exact ih.move hstep

end Ledger

namespace VoiceWorker

variable {β H P : Type} (B : MediaBackend β H P) (hashes : Hashes)

def step (w : VoiceWorker β H P) (a : Arrival) : VoiceWorker β H P × Response := handle B hashes w a.now a.random a.request

def drop (w : VoiceWorker β H P) : VoiceWorker β H P := teardown B w

/-! ## Requests beside the active call -/

/-- What a request beside the active call does with the calls it adds; `lapsed` says that the call has lasted its time. -/
structure Aside (lapsed : Prop) (added : List BackendCall) (w w' : VoiceWorker β H P) : Prop where
  calls : w'.calls = w.calls ++ added
  unused : ∀ c ∈ added, ¬ c.UsesMedia
  kept : ∀ callId, w.activeId? = some callId →
    (w'.activeId? = some callId ∧ w'.media = w.media ∧ w'.endpoint = w.endpoint) ∨ lapsed ∨ ∃ c ∈ added, c.IsNativeError

variable {lapsed : Prop} {w w' w'' : VoiceWorker β H P} {now : Nanoseconds} {callId : UInt64} {added added' : List BackendCall}

theorem Aside.refl : Aside lapsed [] w w :=
  ⟨(append_nil _).symm, (fun _ hc => by cases hc), fun _ hid => .inl ⟨hid, rfl, rfl⟩⟩

theorem Aside.trans (h : Aside lapsed added w w') (h' : Aside lapsed added' w' w'') : Aside lapsed (added ++ added') w w'' := by
  refine ⟨?_, fun c hc => ?_, fun callId hid => ?_⟩
  · rw [h'.calls, h.calls, append_assoc]
  · exact (mem_append.1 hc).elim (h.unused c) (h'.unused c)
  · rcases h.kept callId hid with ⟨hid', hmedia, hendpoint⟩ | hover | ⟨c, hc, hnative⟩
    · rcases h'.kept callId hid' with ⟨hid'', hmedia', hendpoint'⟩ | hover | ⟨c, hc, hnative⟩
      · exact .inl ⟨hid'', hmedia'.trans hmedia, hendpoint'.trans hendpoint⟩
      · exact .inr (.inl hover)
      · exact .inr (.inr ⟨c, mem_append_right _ hc, hnative⟩)
    · exact .inr (.inl hover)
    · exact .inr (.inr ⟨c, mem_append_left _ hc, hnative⟩)

theorem Aside.inactive (hid : w.activeId? = none) (hcalls : w'.calls = w.calls ++ added)
    (hunused : ∀ c ∈ added, ¬ c.UsesMedia) : Aside lapsed added w w' := by
  refine ⟨hcalls, hunused, fun callId hid' => ?_⟩
  rw [hid] at hid'
  cases hid'

theorem refreshActive_of_ne (h : w.activeId? ≠ some callId) : w.refreshActive now callId = w := by
  unfold refreshActive
  split
  · rename_i call hstate
    rw [if_neg]
    rintro ⟨hcall, -⟩
    refine h ?_
    unfold activeId?
    rw [hstate, ← hcall]
    rfl
  · rfl

theorem calls_teardownMedia : ∃ added, (teardownMedia B w).calls = w.calls ++ added ∧ ∀ c ∈ added, ¬ c.UsesMedia := by
  have hledger := congrArg Ledger.calls (ledger_teardownMedia B (w := w))
  refine ⟨_, hledger, fun c hc => ?_⟩
  rcases Ledger.mem_givenBack hc with ⟨m, rfl⟩ | ⟨n, rfl⟩ <;> exact fun huses => huses

theorem calls_teardown : ∃ added, (teardown B w).calls = w.calls ++ added ∧ ∀ c ∈ added, ¬ c.UsesMedia :=
  calls_teardownMedia B (w := { w with events := [], lastAckedEvent := none })

theorem aside_forgetRecent : Aside lapsed [] w (w.forgetRecent now) := by
  unfold forgetRecent
  split
  · exact .refl
  · split
    · exact ⟨(append_nil _).symm, (fun _ hc => by cases hc), fun _ hid => .inl ⟨hid, rfl, rfl⟩⟩
    · exact .refl

theorem aside_expire : ∃ added, Aside (w.IsOver now) added w (expire B w now) := by
  unfold expire
  by_cases h : w.IsOver now
  · rw [if_pos h]
    obtain ⟨added, hcalls, hunused⟩ := calls_teardown B (w := w)
    have hover : Aside (w.IsOver now) added w (teardown B w) := ⟨hcalls, hunused, fun _ _ => .inr (.inl h)⟩
    exact ⟨_, hover.trans aside_forgetRecent⟩
  · rw [if_neg h]
    exact ⟨_, aside_forgetRecent⟩

theorem aside_collectNativeEvents : ∃ added, Aside lapsed added w (collectNativeEvents B w) := by
  unfold collectNativeEvents
  split
  · exact ⟨_, .refl⟩
  · have hpoll : ∀ c ∈ [BackendCall.pollEvent w.events.length (polled B w).2], ¬ c.UsesMedia := by
      intro c hc
      rw [mem_singleton.1 hc]
      exact fun h => h
    have hpolled : Aside lapsed [.pollEvent w.events.length (polled B w).2] w (polled B w).1 :=
      ⟨rfl, hpoll, fun _ hid => .inl ⟨hid, rfl, rfl⟩⟩
    dsimp only
    split
    · rename_i event callId hevent _
      cases event with
      | outboundSignal signal =>
        refine ⟨_, hpolled.trans (?_ : Aside lapsed [] _ _)⟩
        unfold queueEvent
        dsimp only
        by_cases hlen : (polled B w).1.events.length = MAX_OUTBOUND_EVENTS
        · rw [if_pos hlen]
          exact .refl
        · rw [if_neg hlen]
          exact ⟨(append_nil _).symm, (fun _ hc => by cases hc), fun _ hid => .inl ⟨hid, rfl, rfl⟩⟩
      | nativeError =>
        unfold queueEvent
        obtain ⟨added, hcalls, hunused⟩ := calls_teardownMedia B (w := { (polled B w).1 with
          events := [{ callId, id := (polled B w).1.nextEventId, event := .nativeError }]
          lastAckedEvent := none
          nextEventId := nextId (polled B w).1.nextEventId })
        refine ⟨.pollEvent w.events.length (polled B w).2 :: added, ?_, fun c hc => ?_, fun _ _ => .inr (.inr ?_)⟩
        · rw [hcalls]
          exact append_assoc _ _ _
        · rcases mem_cons.1 hc with rfl | hc
          · exact hpoll _ (mem_singleton_self _)
          · exact hunused c hc
        · exact ⟨_, mem_cons_self, hevent⟩
    · exact ⟨_, hpolled⟩

theorem aside_settle {request : VoiceIpc.Request} (h : w.activeId? ≠ some (callIdOf request)) :
    ∃ added, Aside (w.IsOver now) added w (settle B w now request) := by
  unfold settle
  rw [refreshActive_of_ne h]
  obtain ⟨added, hexpire⟩ : ∃ added, Aside (w.IsOver now) added w (expire B w now) := aside_expire B
  obtain ⟨added', hcollect⟩ : ∃ added, Aside (w.IsOver now) added (expire B w now) (collectNativeEvents B (expire B w now)) :=
    aside_collectNativeEvents B
  exact ⟨_, hexpire.trans hcollect⟩

theorem activeId?_eq_none (h : w.state.active? = none) : w.activeId? = none := by
  unfold activeId?
  rw [h]
  rfl

theorem aside_taken {w' : VoiceWorker β H P} (hactive : w.state.active? = none) (h : w'.calls = w.calls) : Aside lapsed [] w w' :=
  .inactive (activeId?_eq_none hactive) (h.trans (append_nil _).symm) (fun _ hc => by cases hc)

theorem aside_start {w' : VoiceWorker β H P} {config : MediaStartConfig} {given : Option Nat} (hactive : w.state.active? = none)
    (h : w'.calls = w.calls ++ [.start config given]) : Aside lapsed [.start config given] w w' := by
  refine .inactive (activeId?_eq_none hactive) h (fun c hc => ?_)
  rw [mem_singleton.1 hc]
  exact fun huses => huses

theorem aside_outcome {a : Arrival} {result : VoiceWorker β H P × Response} (h : Outcome B hashes a w result)
    (hne : w.activeId? ≠ some (callIdOf a.request)) : ∃ added, Aside lapsed added w result.1 := by
  cases h with
  | refused | recalled | acknowledged => exact ⟨_, .refl⟩
  | acked => exact ⟨_, (append_nil _).symm, (fun _ hc => by cases hc), fun _ hid => .inl ⟨hid, rfl, rfl⟩⟩
  | drawn hidle _ _ _ => exact ⟨_, aside_taken (by rw [hidle]; rfl) rfl⟩
  | rejected _ _ hactive => exact ⟨_, aside_taken hactive rfl⟩
  | startRefused hagreed => exact ⟨_, aside_taken (agreed_callId hagreed).2.1 rfl⟩
  | startFailed _ hagreed => exact ⟨_, aside_start (agreed_callId hagreed).2.1 rfl⟩
  | started _ _ hagreed _ _ _ => exact ⟨_, aside_start (agreed_callId hagreed).2.1 rfl⟩
  | forwarded _ _ _ ha hstate _ _ _ => exact absurd (by rw [ha]; exact activeId?_of_active hstate) hne
  | attached _ _ _ ha hstate _ _ => exact absurd (by rw [ha]; exact activeId?_of_active hstate) hne
  | handleFailed _ _ _ _ hid _ => exact absurd hid hne
  | pcmFailed _ _ _ _ hid _ => exact absurd hid hne
  | pcmUsed _ _ _ _ _ hid _ => exact absurd hid hne
  | closed ha hid => exact absurd (by rw [ha]; exact hid) hne
  | hungUp _ hid =>
    have hnone : w.activeId? = none := by
      refine Option.eq_none_iff_forall_ne_some.2 (fun id hactive => hne ?_)
      rw [hactive, ← callId?_of_activeId? hactive, hid]
    obtain ⟨added, hcalls, hunused⟩ := calls_teardown B (w := w)
    exact ⟨_, .inactive hnone hcalls hunused⟩
  | polled _ _ => exact aside_collectNativeEvents B

theorem aside_dispatch {random : Option (FixedBytes DH_PUBLIC_BYTES)} (request : VoiceIpc.Request)
    (h : w.activeId? ≠ some (callIdOf request)) :
    ∃ added, Aside lapsed added w (dispatch B hashes w now random request).1 :=
  aside_outcome B hashes (dispatch_outcome B hashes (a := ⟨now, random, request⟩)) h

theorem state_teardownMedia : (teardownMedia B w).state = .idle := by
  unfold teardownMedia closeEndpoint stopMedia
  cases w.endpoint <;> cases w.media <;> rfl

theorem activeId?_teardownMedia : (teardownMedia B w).activeId? = none :=
  activeId?_eq_none (by rw [state_teardownMedia]; rfl)

theorem activeId?_forgetRecent : (w.forgetRecent now).activeId? = w.activeId? := by
  unfold forgetRecent
  split
  · rfl
  · split <;> rfl

theorem activeId?_expire (h : (expire B w now).activeId? = some callId) : w.activeId? = some callId := by
  unfold expire at h
  rw [activeId?_forgetRecent] at h
  split at h
  · have hnone : (teardown B w).activeId? = none := activeId?_teardownMedia B
    rw [hnone] at h
    cases h
  · exact h

theorem activeId?_collectNativeEvents (h : (collectNativeEvents B w).activeId? = some callId) :
    w.activeId? = some callId := by
  unfold collectNativeEvents at h
  split at h
  · exact h
  · dsimp only at h
    split at h
    · rename_i event _ _ _
      unfold queueEvent at h
      cases event with
      | nativeError =>
        dsimp only at h
        rw [activeId?_teardownMedia] at h
        cases h
      | outboundSignal signal =>
        dsimp only at h
        split at h <;> exact h
    · exact h

theorem activeId?_settle_ne {request : VoiceIpc.Request} (h : w.activeId? ≠ some (callIdOf request)) :
    (settle B w now request).activeId? ≠ some (callIdOf request) := by
  intro hsettled
  unfold settle at hsettled
  rw [refreshActive_of_ne h] at hsettled
  exact h (activeId?_expire B (activeId?_collectNativeEvents B hsettled))

/-- **A request beside the active call** uses no media and ends nothing. -/
theorem aside_step {a : Arrival} (h : w.activeId? ≠ some (callIdOf a.request)) :
    ∃ added, Aside (w.IsOver a.now) added w (step B hashes w a).1 := by
  obtain ⟨added, hsettle⟩ : ∃ added, Aside (w.IsOver a.now) added w (settle B w a.now a.request) := aside_settle B h
  unfold step handle
  dsimp only
  split
  · exact ⟨_, hsettle⟩
  · obtain ⟨added', hdispatch⟩ : ∃ added', Aside (w.IsOver a.now) added' (settle B w a.now a.request)
        (dispatch B hashes (settle B w a.now a.request) a.now a.random a.request).1 :=
      aside_dispatch B hashes a.request (activeId?_settle_ne B h)
    exact ⟨_, hsettle.trans hdispatch⟩

/-! ## Whole runs -/

theorem placed_start (backend : β) (ttl : Nanoseconds) : (withTtl backend ttl : VoiceWorker β H P).ledger.Placed := by
  intro i n c hi
  cases hi

theorem inv_start (backend : β) (ttl : Nanoseconds) : (withTtl backend ttl : VoiceWorker β H P).ledger.Inv :=
  ⟨rfl, (fun h => by cases h), (fun e he => by cases he), .nil⟩

/-- **Native media is owned once**, whatever the backend, the requests and the time do. -/
theorem native_media_owned_once (backend : β) (ttl : Nanoseconds) (arrivals : List Arrival) :
    (∀ w, w = Runs.final (step B hashes) (withTtl backend ttl) arrivals →
      w.media.isSome = w.isActive ∧ (w.endpoint.isSome = true → w.isActive = true) ∧ BackendCall.OwnedOnce (drop B w).calls) ∧
    ∀ c ∈ Runs.calls (step B hashes) (withTtl backend ttl) arrivals, c.before.activeId? ≠ some (callIdOf c.op.request) →
      ∃ added, Aside (c.before.IsOver c.op.now) added c.before c.after := by
  refine ⟨fun w hw => ?_, fun c hc => ?_⟩
  · have hinv : w.ledger.Inv ∧ w.ledger.Placed := by
      rw [hw]
      refine Runs.final_invariant (I := fun w : VoiceWorker β H P => w.ledger.Inv ∧ w.ledger.Placed) (fun w a h => ?_) _ _
        ⟨inv_start backend ttl, placed_start backend ttl⟩
      exact ⟨h.1.moves (moves_handle B hashes), h.2.moves (moves_handle B hashes)⟩
    obtain ⟨hinv, hplaced⟩ := hinv
    refine ⟨?_, fun hendpoint => ?_, ?_⟩
    · have h := hinv.handle
      unfold ledger at h
      rwa [Option.isSome_map] at h
    · refine hinv.pcm ?_
      unfold ledger
      rwa [Option.isSome_map]
    · have hcalls : (drop B w).calls = w.ledger.torn.calls := congrArg Ledger.calls (ledger_teardown B)
      rw [hcalls]
      exact BackendCall.ownedOnce_of_lawful hinv.torn.lawful (hplaced.move (.teardown _))
  · exact Runs.calls_forall (I := fun _ => True)
      (P := fun c => c.before.activeId? ≠ some (callIdOf c.op.request) →
        ∃ added, Aside (c.before.IsOver c.op.now) added c.before c.after)
      (fun _ _ _ => trivial) (fun w a _ h => aside_step B hashes h) arrivals _ trivial c hc

end VoiceWorker

end Voice
end Crossgram
