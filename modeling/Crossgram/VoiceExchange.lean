import Crossgram.VoiceHandshake
/-!
# VoiceExchange — the two parties of a call (packages/voice-worker/src/worker.rs, packages/voice-worker/src/crypto.rs)

A caller and a recipient that pass on what the other one answered complete with one key.  Whatever is passed on instead, a
start of the backend is bound to the secret drawn for the call.
-/
namespace Crossgram
namespace Voice

open VoiceIpc (FixedBytes Response DH_PUBLIC_BYTES GA_HASH_BYTES)

namespace VoiceWorker

variable {β H P : Type} {B : MediaBackend β H P} {hashes : Hashes} {w : VoiceWorker β H P} {now : Nanoseconds}
  {random : Option (FixedBytes DH_PUBLIC_BYTES)} {callId : UInt64} {server : VoiceIpc.MediaStartConfig} {isOutgoing : Bool}

/-- A worker that can complete its call now: in time, with servers that pass, and a backend that starts. -/
structure Ready (B : MediaBackend β H P) (w : VoiceWorker β H P) (now : Nanoseconds) (server : VoiceIpc.MediaStartConfig)
    (isOutgoing : Bool) : Prop where
  inTime : ¬ w.IsOver now
  valid : server.validate = .ok ()
  direction : server.isOutgoing = isOutgoing
  starts : ∀ config : MediaStartConfig, config.server = server → ∃ handle, (B.start w.backend config).2 = .ok handle

structure CompletedWith (B : MediaBackend β H P) (hashes : Hashes) (w : VoiceWorker β H P) (a : Arrival)
    (key : FixedBytes AUTH_KEY_BYTES) (server : VoiceIpc.MediaStartConfig) (response : Response) : Prop where
  reply : (step B hashes w a).2 = response
  active : (step B hashes w a).1.activeId? = some (callIdOf a.request)
  started : (step B hashes w a).1.calls =
    w.calls ++ [.start { callId := callIdOf a.request, server, authKey := key } (some w.calls.length)]

variable {request : VoiceIpc.Request} {sharedKey : FixedBytes AUTH_KEY_BYTES} {response : Response}

theorem startBackend_of_ready
    (hvalid : server.validate = .ok ()) (hdirection : server.isOutgoing = isOutgoing)
    (hstarts : ∃ handle, (B.start w.backend { callId, server, authKey := sharedKey }).2 = .ok handle) :
    ∃ w', startBackend B hashes w now sharedKey callId server isOutgoing request response = (w', response) ∧
      w'.activeId? = some callId ∧
      w'.calls = w.calls ++ [.start { callId, server, authKey := sharedKey } (some w.calls.length)] := by
  obtain ⟨handle, hhandle⟩ := hstarts
  unfold startBackend
  rw [hvalid, hdirection, if_neg (fun h => h.elim (fun h => by cases h) (fun h => h rfl))]
  rcases hresult : B.start w.backend { callId, server, authKey := sharedKey } with ⟨backend, _ | handle'⟩
  · rw [hresult] at hhandle
    cases hhandle
  · dsimp only
    rw [hresult]
    exact ⟨_, rfl, rfl, rfl⟩

theorem settle_of_prepared (hinv : w.ledger.Inv) (hactive : w.state.active? = none)
    (htime : ¬ w.IsOver now) : settle B w now request = w.forgetRecent now := by
  have hrefresh : w.refreshActive now (callIdOf request) = w := by
    unfold refreshActive
    split
    · rename_i call hstate
      rw [hstate] at hactive
      cases hactive
    · rfl
  have hmedia : (w.forgetRecent now).media = none := by
    have hsame : (w.forgetRecent now).media = w.media := by
      unfold forgetRecent
      split
      · rfl
      · split <;> rfl
    have hhandle := hinv.handle
    unfold ledger isActive at hhandle
    rw [hactive, Option.isSome_map] at hhandle
    rw [hsame, ← Option.not_isSome_iff_eq_none, hhandle]
    exact fun h => by cases h
  unfold settle expire
  rw [hrefresh, if_neg htime]
  unfold collectNativeEvents
  rw [hmedia]

theorem forgetRecent_frame : (w.forgetRecent now).state = w.state ∧ (w.forgetRecent now).backend = w.backend ∧
    (w.forgetRecent now).calls = w.calls ∧
      ∀ replay, (w.forgetRecent now).recent = some replay → w.recent = some replay := by
  unfold forgetRecent
  split
  · exact ⟨rfl, rfl, rfl, fun _ h => h⟩
  · split
    · exact ⟨rfl, rfl, rfl, (fun _ h => by cases h)⟩
    · exact ⟨rfl, rfl, rfl, fun _ h => h⟩

theorem replayOf_eq_none
    (h : ∀ replay, w.recent = some replay → callIdOf replay.request ≠ callIdOf request) : w.replayOf request = none := by
  unfold replayOf
  cases hr : w.recent with
  | none => rfl
  | some replay =>
    dsimp only
    rw [if_neg (fun heq => h replay hr (congrArg callIdOf heq)), if_neg (h replay hr)]

theorem dispatch_of_agreed
    (hagreed : Agreed hashes w.state request sharedKey server isOutgoing response) :
    dispatch B hashes w now random request =
      startBackend B hashes { w with state := .idle } now sharedKey (callIdOf request) server isOutgoing request response := by
  cases hs : w.state with
  | callerPrepared callId secret ga gaHash created =>
    rw [hs] at hagreed
    cases hagreed with
    | caller hkey =>
      unfold dispatch completeCaller
      dsimp only
      rw [hs]
      dsimp only
      rw [if_neg (fun h => h rfl), hkey]
      rfl
  | recipientPrepared callId secret expectedGaHash gb created =>
    rw [hs] at hagreed
    cases hagreed with
    | recipient hhash hkey =>
      unfold dispatch completeRecipient Hashes.verifyGaHash
      dsimp only
      rw [hs]
      dsimp only
      rw [if_neg (fun h => h rfl), if_pos hhash, hkey]
      dsimp only
      rw [if_neg (fun h => h rfl)]
      rfl
  | idle =>
    rw [hs] at hagreed
    cases hagreed
  | active call =>
    rw [hs] at hagreed
    cases hagreed

variable {arrivals : List Arrival}

/-- **A prepared worker completes** with what passes its checks. -/
theorem completedWith_of_agreed
    (htraced : Traced hashes arrivals w) (hinv : w.ledger.Inv) (hready : Ready B w now server isOutgoing)
    (hagreed : Agreed hashes w.state request sharedKey server isOutgoing response) :
    CompletedWith B hashes w ⟨now, random, request⟩ sharedKey server response := by
  obtain ⟨hid, hactive, -⟩ := agreed_callId hagreed
  have hsettle : settle B w now request = w.forgetRecent now := settle_of_prepared hinv hactive hready.inTime
  obtain ⟨hstate, hbackend, hcalls, hrecent⟩ : (w.forgetRecent now).state = w.state ∧ _ := forgetRecent_frame
  have hreplay : (w.forgetRecent now).replayOf request = none :=
    replayOf_eq_none (fun replay hr heq => htraced.recent replay (hrecent replay hr) (heq ▸ hid))
  have hdispatch : dispatch B hashes (w.forgetRecent now) now random request = _ := dispatch_of_agreed (hstate ▸ hagreed)
  have hstarts : ∃ handle, (B.start ({ w.forgetRecent now with state := .idle } : VoiceWorker β H P).backend
      { callId := callIdOf request, server, authKey := sharedKey }).2 = .ok handle := by
    dsimp only
    rw [hbackend]
    exact hready.starts _ rfl
  obtain ⟨w', hstarted, hid', hcalls'⟩ := startBackend_of_ready hready.valid hready.direction hstarts
  have hstep : step B hashes w ⟨now, random, request⟩ = (w', response) := by
    unfold step handle
    dsimp only
    rw [hsettle, hreplay]
    dsimp only
    rw [hdispatch]
    exact hstarted
  refine ⟨?_, ?_, ?_⟩
  · rw [hstep]
  · rw [hstep]
    exact hid'
  · rw [hstep]
    dsimp only
    rw [hcalls', hcalls]

/-! ## The exchange -/

theorem reached (backend : β) (ttl : Nanoseconds) (arrivals : List Arrival) :
    Traced hashes arrivals (Runs.final (step B hashes) (withTtl backend ttl) arrivals) ∧
      (Runs.final (step B hashes) (withTtl backend ttl) arrivals).ledger.Inv := by
  refine ⟨traced_final backend ttl arrivals, ?_⟩
  exact Runs.final_invariant (I := fun w : VoiceWorker β H P => w.ledger.Inv)
    (fun w a h => h.moves (moves_handle B hashes)) _ _ (inv_start backend ttl)

theorem Traced.caller (h : Traced hashes arrivals w) {secret : DhPrivate}
    {ga : FixedBytes DH_PUBLIC_BYTES} {gaHash : FixedBytes GA_HASH_BYTES} {created : Nanoseconds}
    (hstate : w.state = .callerPrepared callId secret ga gaHash created) :
    ga = publicValue secret ∧ gaHash = hashes.gaHash ga := by
  obtain ⟨b, -, secret', -, hdrawn⟩ := h.drawn callId (by rw [hstate]; rfl) (by rw [hstate]; rfl)
  rw [hstate] at hdrawn
  generalize b.request = request at hdrawn
  cases hdrawn
  exact ⟨rfl, rfl⟩

theorem Traced.recipient (h : Traced hashes arrivals w) {secret : DhPrivate}
    {gb : FixedBytes DH_PUBLIC_BYTES} {gaHash : FixedBytes GA_HASH_BYTES} {created : Nanoseconds}
    (hstate : w.state = .recipientPrepared callId secret gaHash gb created) : gb = publicValue secret := by
  obtain ⟨b, -, secret', -, hdrawn⟩ := h.drawn callId (by rw [hstate]; rfl) (by rw [hstate]; rfl)
  rw [hstate] at hdrawn
  generalize b.request = request at hdrawn
  cases hdrawn
  rfl

end VoiceWorker

open VoiceWorker

variable {β H P β' H' P' : Type}

def quietBackend : MediaBackend Unit Unit Unit where
  start _ _ := ((), .ok ())
  pollEvent _ := ((), .ok none)
  forwardSignal _ _ _ := (((), ()), .ok ())
  attachPcm _ _ := (((), ()), .ok ())
  sendPcm _ _ _ := (((), ()), .ok ())
  receivePcm _ _ := (((), ()), .ok none)
  closePcm _ _ := ()
  stop _ _ := ()

def zeroHashes : Hashes where
  sha256 _ := ⟨List.replicate 32 0, List.length_replicate⟩
  sha1 _ := ⟨List.replicate 20 0, List.length_replicate⟩

def oneByte (before : Nat) (after : Nat) (h : before + (after + 1) = DH_PUBLIC_BYTES) : FixedBytes DH_PUBLIC_BYTES :=
  ⟨List.replicate before 0 ++ 1 :: List.replicate after 0, by
    rw [List.length_append, List.length_cons, List.length_replicate, List.length_replicate]
    exact h⟩

def oneBytes : FixedBytes DH_PUBLIC_BYTES := oneByte 255 0 rfl

def middleValue : FixedBytes DH_PUBLIC_BYTES := oneByte 5 250 rfl

def zeroValue : FixedBytes DH_PUBLIC_BYTES := ⟨List.replicate 256 0, List.length_replicate⟩

def directServer : VoiceIpc.MediaStartConfig :=
  { isOutgoing := true, initializationTimeoutMs := 1, receiveTimeoutMs := 1, enableP2p := true, allowTcp := true
    protocolV1 := true, enableAec := true, enableNs := true, enableAgc := true, endpoints := [], rtcServers := [] }

def prepareOne (now : Nanoseconds) : Arrival := ⟨now, some oneBytes, .prepareCaller 1⟩

def completeOne (now : Nanoseconds) (gb : FixedBytes DH_PUBLIC_BYTES) : Arrival :=
  ⟨now, none, .completeCaller 1 gb directServer⟩

def quietRun (arrivals : List Arrival) : VoiceWorker Unit Unit Unit :=
  Runs.final (step quietBackend zeroHashes) (new ()) arrivals

end Voice
end Crossgram
