import Crossgram.VoiceMemory
import Mathlib.Data.List.Basic
/-!
# VoiceRetries — a request that comes again (packages/voice-worker/src/worker.rs)

Once a request is answered, its answer is `Held` where the worker looks for it: with its call, as the last
acknowledgement, or as the record.  A copy is answered from there and causes nothing; other requests leave it there,
but for those that take the place of the one acknowledgement or of the one record.
-/
namespace Crossgram
namespace Voice

open List
open VoiceIpc (FixedBytes Response DH_PUBLIC_BYTES)

def IsPreparation : VoiceIpc.Request → Prop
  | .prepareCaller _ | .prepareRecipient _ _ => True
  | _ => False

instance : DecidablePred IsPreparation
  | .prepareCaller _ => .isTrue trivial
  | .prepareRecipient _ _ => .isTrue trivial
  | .completeCaller .. | .completeRecipient .. | .signal .. | .hangup _ | .attachMedia .. | .sendPcm .. | .receivePcm ..
  | .closeMedia .. | .pollEvent _ | .ackEvent .. => .isFalse (fun h => h)

def GoesOn : VoiceIpc.Request → Prop
  | .sendPcm _ _ _ | .receivePcm _ _ | .pollEvent _ | .signal _ _ _ => True
  | _ => False

def IsHangup : VoiceIpc.Request → Prop
  | .hangup _ => True
  | _ => False

instance : DecidablePred GoesOn
  | .sendPcm .. | .receivePcm .. | .pollEvent _ | .signal .. => .isTrue trivial
  | .prepareCaller _ | .prepareRecipient .. | .completeCaller .. | .completeRecipient .. | .hangup _ | .attachMedia ..
  | .closeMedia .. | .ackEvent .. => .isFalse (fun h => h)

instance : DecidablePred IsHangup
  | .hangup _ => .isTrue trivial
  | .prepareCaller _ | .prepareRecipient .. | .completeCaller .. | .completeRecipient .. | .signal .. | .attachMedia ..
  | .sendPcm .. | .receivePcm .. | .closeMedia .. | .pollEvent _ | .ackEvent .. => .isFalse (fun h => h)

instance : DecidablePred BackendCall.IsNativeError
  | .pollEvent _ event => inferInstanceAs (Decidable (VoiceWorker.eventOf event = some .nativeError))
  | .start .. | .forwardSignal .. | .attachPcm .. | .sendPcm .. | .receivePcm _ | .closePcm _ | .stop _ => .isFalse (fun h => h)

abbrev Served (β H P : Type) := Runs.Call (VoiceWorker β H P) Arrival Response

section Served

variable {β H P : Type}

def addedCalls (c : Served β H P) : List BackendCall := c.after.calls.drop c.before.calls.length

/-- The request comes to `DhPrivate::generate`. -/
def Draws (B : MediaBackend β H P) (c : Served β H P) : Prop :=
  IsPreparation c.op.request ∧ (VoiceWorker.settle B c.before c.op.now c.op.request).replayOf c.op.request = none ∧
    (VoiceWorker.settle B c.before c.op.now c.op.request).state = .idle

instance (B : MediaBackend β H P) : DecidablePred (Draws B) := fun _ => inferInstanceAs (Decidable (_ ∧ _ ∧ _))

def Ends (c : Served β H P) : Prop :=
  (c.before.refreshActive c.op.now (callIdOf c.op.request)).IsOver c.op.now ∨ c.reply = .mediaClosed ∨
    (c.reply = mediaUnavailable ∧ ¬ IsCompletion c.op.request)

/-- **What may come after a request** and its copies, in the time of its answer: requests of other calls but no hangup, and PCM
requests, polls and signals of its call; no native error is found. -/
structure Between (request : VoiceIpc.Request) (since ttl : Nanoseconds) (c : Served β H P) : Prop where
  later : since ≤ c.op.now
  inTime : c.op.now < since + ttl
  request : c.op.request = request ∨ (callIdOf c.op.request ≠ callIdOf request ∧ ¬ IsHangup c.op.request) ∨
    (callIdOf c.op.request = callIdOf request ∧ GoesOn c.op.request)
  noError : ∀ x ∈ addedCalls c, ¬ x.IsNativeError

instance (request : VoiceIpc.Request) (since ttl : Nanoseconds) (c : Served β H P) : Decidable (Between request since ttl c) :=
  decidable_of_iff (since ≤ c.op.now ∧ c.op.now < since + ttl ∧
      (c.op.request = request ∨ (callIdOf c.op.request ≠ callIdOf request ∧ ¬ IsHangup c.op.request) ∨
        (callIdOf c.op.request = callIdOf request ∧ GoesOn c.op.request)) ∧ ∀ x ∈ addedCalls c, ¬ x.IsNativeError)
    ⟨fun ⟨hlater, htime, hrequest, hnone⟩ => ⟨hlater, htime, hrequest, hnone⟩,
      fun h => ⟨h.later, h.inTime, h.request, h.noError⟩⟩

/-- **What makes the worker forget an answer**: for an acknowledgement, the next one or the end of a call; for a hangup, a
completion that fails; for the other requests, a backend that fails for their call. -/
def Forgets (request : VoiceIpc.Request) (c : Served β H P) : Prop :=
  match request with
  | .ackEvent _ _ => (c.op.request ≠ request ∧ ∃ eventId, c.reply = .eventAcknowledged eventId) ∨ Ends c
  | .hangup _     => IsCompletion c.op.request ∧ (c.reply = cryptoError ∨ c.reply = mediaUnavailable)
  | _             => callIdOf c.op.request = callIdOf request ∧ c.reply = mediaUnavailable

def Caused (calls : List BackendCall) : VoiceIpc.Request → Prop
  | .completeCaller callId _ server => ∃ authKey given, calls = [.start { callId, server, authKey } given]
  | .completeRecipient callId _ _ server => ∃ authKey given, calls = [.start { callId, server, authKey } given]
  | .signal _ _ signal => ∃ handle, calls = [.forwardSignal handle signal]
  | .attachMedia _ _ => ∃ handle given, calls = [.attachPcm handle given]
  | _ => calls = []

end Served

inductive Held (hashes : Hashes) (since : Nanoseconds) (request : VoiceIpc.Request) (response : Response) (m : Memory) : Prop
  | ofCall : CallRecalls hashes m.toCallView request response → (∀ created, m.state.created? = some created → since ≤ created) →
      (∀ replay, m.recent = some replay → callIdOf replay.request ≠ callIdOf request) → Held hashes since request response m
  | ofEvent {callId eventId} : request = .ackEvent callId eventId → response = .eventAcknowledged eventId →
      m.acked = some (callId, eventId) → (∀ replay, m.recent = some replay → callIdOf replay.request ≠ callIdOf request) →
      Held hashes since request response m
  | ofRecord {callId replay} : request = .hangup callId → m.recent = some replay → replay.request = request →
      replay.response = response → since + m.ttl ≤ replay.expires → Held hashes since request response m

namespace VoiceWorker

variable {β H P : Type} {B : MediaBackend β H P} {hashes : Hashes} {w : VoiceWorker β H P} {a : Arrival} {since now : Nanoseconds}
  {request : VoiceIpc.Request} {response : Response}

variable {calls : List BackendCall}

theorem addedCalls_eq (h : (step B hashes w a).1.calls = w.calls ++ calls) :
    addedCalls (Runs.callAt (step B hashes) w a) = calls := by
  unfold addedCalls Runs.callAt
  dsimp only
  rw [h, drop_left]

theorem replayOf_cases (h : w.replayOf request = some response) :
    (∃ replay, w.recent = some replay ∧ replay.request = request ∧ replay.response = response) ∨ response = invalidState := by
  unfold replayOf at h
  split at h
  · cases h
  · rename_i replay hrecent
    split at h
    · rename_i hsame
      exact .inl ⟨replay, hrecent, hsame, Option.some.inj h⟩
    · split at h
      · exact .inr (Option.some.inj h).symm
      · cases h

theorem not_about_of_replayOf (h : w.replayOf request = none) :
    ∀ replay, w.recent = some replay → callIdOf replay.request ≠ callIdOf request := by
  intro replay hrecent
  unfold replayOf at h
  rw [hrecent] at h
  dsimp only at h
  split at h
  · cases h
  · split at h
    · cases h
    · rename_i hne
      exact hne

/-! ## Before a request -/

theorem created?_refreshed {s s' : CallState} (h : Refreshed now s s')
    (hsince : ∀ created, s.created? = some created → since ≤ created) (hlater : since ≤ now) :
    ∀ created, s'.created? = some created → since ≤ created := by
  cases h with
  | same => exact hsince
  | active call =>
    intro created hcreated
    cases hcreated
    exact hlater

theorem not_isOver (hsince : ∀ created, w.state.created? = some created → since ≤ created) (hlater : since ≤ now)
    (htime : now < since + w.ttl) {callId : UInt64} : ¬ (w.refreshActive now callId).IsOver now := by
  obtain ⟨hrefreshed, hmemory, -⟩ : Refreshed now w.state (w.refreshActive now callId).state ∧ _ := refreshed_refreshActive
  have httl : (w.refreshActive now callId).ttl = w.ttl := congrArg Memory.ttl hmemory
  rintro ⟨created, hcreated, hover⟩
  have hle := created?_refreshed hrefreshed hsince hlater created hcreated
  have hlt : ∀ n c s t : Nat, s ≤ c → s ≤ n → n < s + t → ¬ t ≤ n - c := by omega
  rw [httl] at hover
  exact hlt _ _ _ _ hle hlater htime hover

theorem created_of_settled {call : ActiveCall} (hstate : (settle B w now request).state = .active call)
    (hid : call.callId = callIdOf request) : call.created = now := by
  have hstays : ∀ {w w' : VoiceWorker β H P}, w'.memory = w.memory ∨ w'.memory = w.memory.torn → w'.state = .active call →
      w.state = .active call := by
    intro w w' hmemory hactive
    rcases hmemory with hmemory | hmemory
    · rw [← hactive]
      exact (congrArg (fun m => m.state) hmemory).symm
    · have hidle : w'.state = .idle := congrArg (fun m => m.state) hmemory
      rw [hactive] at hidle
      cases hidle
  unfold settle at hstate
  obtain ⟨_, -, -, hcollected⟩ := collectNativeEvents_spec B (w := expire B (w.refreshActive now (callIdOf request)) now)
  have hexpired := hstays (hcollected.imp_right And.right) hstate
  unfold expire at hexpired
  rw [forgetRecent_frame.1] at hexpired
  split at hexpired
  · have hidle : (teardown B (w.refreshActive now (callIdOf request))).state = .idle := state_teardownMedia B
    rw [hidle] at hexpired
    cases hexpired
  · rename_i hover
    unfold refreshActive at hover hexpired
    split at hexpired
    · rename_i call' hcall
      split at hexpired
      · cases hexpired
        rfl
      · rename_i hcond
        rw [hcall] at hexpired
        cases hexpired
        refine absurd ⟨hid, Nat.not_le.1 (fun hle => hover ?_)⟩ hcond
        rw [hcall]
        dsimp only
        rw [if_neg hcond]
        exact ⟨call.created, by rw [hcall]; rfl, hle⟩
    · rename_i hne
      exact absurd hexpired (hne call)

theorem callRecalls_refreshed {v v' : CallView} (h : CallRecalls hashes v request response) (hstate : Refreshed now v.state v'.state)
    (hattached : v'.attached = v.attached) : CallRecalls hashes v' request response := by
  cases h with
  | callerPrepared hcall =>
    rw [hcall] at hstate
    cases hs : v'.state <;> rw [hs] at hstate <;> cases hstate
    exact .callerPrepared hs
  | recipientPrepared hcall =>
    rw [hcall] at hstate
    cases hs : v'.state <;> rw [hs] at hstate <;> cases hstate
    exact .recipientPrepared hs
  | @completed call hcompletion hcall hid =>
    rw [hcall] at hstate
    generalize hs : v'.state = s at hstate
    cases hstate with
    | same => exact .completed hcompletion hs hid
    | active => exact @CallRecalls.completed hashes v' { call with created := now } hcompletion hs hid
  | @forwarded call requestId signal replay hlength hcall hfind hdigest =>
    rw [hcall] at hstate
    generalize hs : v'.state = s at hstate
    cases hstate with
    | same => exact .forwarded hlength hs hfind hdigest
    | active => exact @CallRecalls.forwarded hashes v' { call with created := now } requestId signal replay hlength hs hfind hdigest
  | @attached call requestId capability hcall hendpoint =>
    rw [hcall] at hstate
    generalize hs : v'.state = s at hstate
    cases hstate with
    | same => exact .attached hs (hattached.trans hendpoint)
    | active => exact @CallRecalls.attached hashes v' { call with created := now } requestId capability hs (hattached.trans hendpoint)

theorem unexpired_some {recent : Option Replay} {replay : Replay} (h : unexpired now recent = some replay) :
    recent = some replay := (Option.filter_eq_some_iff.1 h).1

/-- **An answer is held while the worker settles.** -/
theorem held_settled (h : Held hashes since request response w.memory) (hlater : since ≤ a.now) (htime : a.now < since + w.ttl)
    (hover : (∃ callId eventId, request = .ackEvent callId eventId) → ¬ (w.refreshActive a.now (callIdOf a.request)).IsOver a.now)
    (hcalls : (settle B w a.now a.request).calls = w.calls ++ calls)
    (hnone : ∀ c ∈ calls, ¬ c.IsNativeError) : Held hashes since request response (settle B w a.now a.request).memory := by
  obtain ⟨calls', hcalls', -, hrecent, httl, hrest⟩ := @settle_spec β H P B w a.now a.request
  obtain rfl := append_cancel_left (hcalls'.symm.trans hcalls)
  have habout : (∀ replay, w.recent = some replay → callIdOf replay.request ≠ callIdOf request) →
      ∀ replay, (settle B w a.now a.request).recent = some replay → callIdOf replay.request ≠ callIdOf request := by
    intro hbefore replay hreplay
    rw [hrecent] at hreplay
    exact hbefore replay (unexpired_some hreplay)
  cases h with
  | ofCall hrecalls hsince hnot =>
    obtain ⟨hstate, hattached, -⟩ := hrest (not_isOver hsince hlater htime) hnone
    exact .ofCall (callRecalls_refreshed hrecalls hstate hattached) (created?_refreshed hstate hsince hlater) (habout hnot)
  | ofEvent hrequest hresponse hacked hnot =>
    obtain ⟨-, -, hsame⟩ := hrest (hover ⟨_, _, hrequest⟩) hnone
    exact .ofEvent hrequest hresponse (hsame.trans hacked) (habout hnot)
  | @ofRecord callId replay hrequest hrecord hsame hresponse hexpires =>
    refine .ofRecord hrequest (?_ : (settle B w a.now a.request).recent = some replay) hsame hresponse ?_
    · have hrecord : w.recent = some replay := hrecord
      rw [hrecent, hrecord]
      exact Option.filter_eq_some_iff.2 ⟨rfl, decide_eq_true (Nat.lt_of_lt_of_le htime hexpires)⟩
    · have hsettled : (settle B w a.now a.request).memory.ttl = w.ttl := httl
      rw [hsettled]
      exact hexpires

/-! ## A copy -/

theorem dispatch_of_callRecalls (h : CallRecalls hashes w.view request response) (random : Option (FixedBytes DH_PUBLIC_BYTES)) :
    dispatch B hashes w now random request = (w, response) := by
  cases h with
  | callerPrepared hstate =>
    have hstate : w.state = _ := hstate
    unfold dispatch prepareCaller
    dsimp only
    rw [hstate]
    exact if_pos rfl
  | recipientPrepared hstate =>
    have hstate : w.state = _ := hstate
    unfold dispatch prepareRecipient
    dsimp only
    rw [hstate]
    exact if_pos ⟨rfl, rfl⟩
  | @completed call hcompletion hstate hid =>
    have hstate : w.state = .active call := hstate
    have hanswer : completedAnswer call (callIdOf call.completedRequest) call.completedRequest = call.completedResponse :=
      if_pos ⟨hid, rfl⟩
    cases hrequest : call.completedRequest with
    | completeCaller callId gb config =>
      rw [hrequest] at hanswer
      unfold dispatch completeCaller
      dsimp only
      rw [hstate]
      exact congrArg (Prod.mk w) hanswer
    | completeRecipient callId ga fingerprint config =>
      rw [hrequest] at hanswer
      unfold dispatch completeRecipient
      dsimp only
      rw [hstate]
      exact congrArg (Prod.mk w) hanswer
    | _ =>
      rw [hrequest] at hcompletion
      exact absurd hcompletion (fun hc => hc)
  | @forwarded call requestId signal replay hlength hstate hfind hdigest =>
    have hstate : w.state = .active call := hstate
    unfold dispatch forwardSignal
    dsimp only
    rw [if_neg (Nat.not_lt.2 hlength), hstate]
    dsimp only
    rw [if_neg (fun hne => hne rfl), hfind]
    dsimp only
    rw [if_pos hdigest]
  | @attached call requestId capability hstate hattached =>
    have hstate : w.state = .active call := hstate
    unfold dispatch attachMedia
    dsimp only
    rw [hstate]
    dsimp only
    rw [if_neg (fun hne => hne rfl)]
    obtain ⟨endpoint, hendpoint, heq⟩ := Option.map_eq_some_iff.1 hattached
    cases heq
    rw [hendpoint]
    dsimp only
    rw [if_pos rfl]

variable {c : Served β H P}

theorem not_draws_of_callId?
    (h : (settle B c.before c.op.now c.op.request).state.callId? = some (callIdOf c.op.request)) : ¬ Draws B c := by
  rintro ⟨-, -, hidle⟩
  rw [hidle] at h
  cases h

/-- **A copy is answered with what is held**, and causes nothing. -/
theorem held_answered (h : Held hashes since request response (settle B w a.now a.request).memory) (ha : a.request = request) :
    step B hashes w a = (settle B w a.now a.request, response) ∧ ¬ Draws B (Runs.callAt (step B hashes) w a) := by
  subst ha
  have hunrecorded : (∀ replay, (settle B w a.now a.request).recent = some replay → callIdOf replay.request ≠ callIdOf a.request) →
      step B hashes w a = dispatch B hashes (settle B w a.now a.request) a.now a.random a.request := by
    intro hnot
    unfold step handle
    dsimp only
    rw [replayOf_eq_none hnot]
  cases h with
  | ofCall hrecalls _ hnot =>
    refine ⟨?_, not_draws_of_callId? hrecalls.callId?⟩
    rw [hunrecorded hnot]
    exact dispatch_of_callRecalls hrecalls a.random
  | @ofEvent callId eventId hrequest hresponse hacked hnot =>
    refine ⟨?_, fun hdraws => ?_⟩
    · rw [hunrecorded hnot, hresponse]
      generalize settle B w a.now a.request = settled at hacked
      rw [hrequest]
      unfold dispatch ackEvent
      dsimp only
      exact if_pos hacked
    · have hpreparation : IsPreparation a.request := hdraws.1
      rw [hrequest] at hpreparation
      exact hpreparation
  | @ofRecord callId replay hrequest hrecord hsame hresponse _ =>
    have hreplay : (settle B w a.now a.request).replayOf a.request = some response := by
      have hrecord : (settle B w a.now a.request).recent = some replay := hrecord
      unfold replayOf
      rw [hrecord]
      dsimp only
      rw [if_pos hsame, hresponse]
    refine ⟨?_, fun hdraws => ?_⟩
    · unfold step handle
      dsimp only
      rw [hreplay]
    · have hnone : (settle B w a.now a.request).replayOf a.request = none := hdraws.2.1
      rw [hreplay] at hnone
      cases hnone

/-! ## Another request -/

theorem forgets_of_callRecalls {v : CallView} (h : CallRecalls hashes v request response)
    (hid : callIdOf c.op.request = callIdOf request) (hreply : c.reply = mediaUnavailable) : Forgets request c := by
  cases h with
  | @completed call hcompletion _ _ =>
    cases hrequest : call.completedRequest with
    | completeCaller callId gb config =>
      rw [hrequest] at hid
      exact ⟨hid, hreply⟩
    | completeRecipient callId ga fingerprint config =>
      rw [hrequest] at hid
      exact ⟨hid, hreply⟩
    | _ =>
      rw [hrequest] at hcompletion
      exact absurd hcompletion (fun hc => hc)
  | _ => exact ⟨hid, hreply⟩

theorem callRecalls_forwarded {v v' : CallView} {call : ActiveCall} {replay : SignalReplay}
    (h : CallRecalls hashes v request response) (hstate : v.state = .active call)
    (hstate' : v'.state = .active { call with signalReplays := call.signalReplays ++ [replay] })
    (hattached' : v'.attached = v.attached) : CallRecalls hashes v' request response := by
  cases h with
  | callerPrepared hcall =>
    rw [hstate] at hcall
    cases hcall
  | recipientPrepared hcall =>
    rw [hstate] at hcall
    cases hcall
  | completed hcompletion hcall hid =>
    rw [hstate] at hcall
    cases hcall
    exact @CallRecalls.completed hashes v' { call with signalReplays := call.signalReplays ++ [replay] } hcompletion hstate' hid
  | @forwarded _ requestId signal found hlength hcall hfind hdigest =>
    rw [hstate] at hcall
    cases hcall
    refine @CallRecalls.forwarded hashes v' { call with signalReplays := call.signalReplays ++ [replay] } requestId signal found
      hlength hstate' ?_ hdigest
    rw [find?_append, hfind]
    rfl
  | attached hcall hattached =>
    rw [hstate] at hcall
    cases hcall
    exact @CallRecalls.attached hashes v' { call with signalReplays := call.signalReplays ++ [replay] } _ _ hstate'
      (hattached'.trans hattached)

variable {ttl : Nanoseconds}

theorem between_goesOn (h : Between request since ttl c) (hne : c.op.request ≠ request)
    (hid : callIdOf c.op.request = callIdOf request) : GoesOn c.op.request := by
  rcases h.request with hsame | ⟨hother, -⟩ | ⟨-, hgoes⟩
  · exact absurd hsame hne
  · exact absurd hid hother
  · exact hgoes

theorem not_goesOn_of_completion (h : IsCompletion request) : ¬ GoesOn request := by
  cases request with
  | completeCaller => exact fun hgoes => hgoes
  | completeRecipient => exact fun hgoes => hgoes
  | _ => exact absurd h (fun hc => hc)

theorem between_not_hangup (h : Between request since ttl c) (hne : c.op.request ≠ request)
    (callId : UInt64) : c.op.request ≠ .hangup callId := by
  intro hhangup
  rcases h.request with hsame | ⟨-, hother⟩ | ⟨-, hgoes⟩
  · exact hne hsame
  · rw [hhangup] at hother
    exact hother trivial
  · rw [hhangup] at hgoes
    exact hgoes

/-- **Another request leaves the answer where it is.** -/
theorem held_effect {m m' : Memory}
    (h : Held hashes since request response m) (heffect : Effect hashes c.op c.reply calls m m') (hne : c.op.request ≠ request)
    (hbetween : Between request since ttl c) (hnone : ∀ x ∈ calls, ¬ x.IsNativeError) (hkept : ¬ Forgets request c) :
    Held hashes since request response m' := by
  cases h with
  | ofCall hrecalls hsince hnot =>
    have hcall := hrecalls.callId?
    have hown : ∀ {id : UInt64}, m.state.callId? = some id → id = callIdOf request := by
      intro id hid
      exact Option.some.inj (hid.symm.trans hcall)
    cases heffect with
    | kept => exact .ofCall hrecalls hsince hnot
    | polledError _ _ herror _ =>
      obtain ⟨x, hx, herror⟩ := herror
      exact absurd herror (hnone x hx)
    | closed _ _ _ hid _ hclose =>
      obtain ⟨callId, capability, hrequest⟩ := hclose
      have hgoes := between_goesOn hbetween hne (hown hid)
      rw [hrequest] at hgoes
      exact absurd hgoes (fun hc => hc)
    | failed _ _ hid hreply _ => exact absurd (forgets_of_callRecalls hrecalls (hown hid) hreply) hkept
    | hungUp _ _ _ hrequest _ => exact absurd hrequest (between_not_hangup hbetween hne _)
    | rejected _ _ hid hcompletion _ =>
      exact absurd (between_goesOn hbetween hne (hown hid)) (not_goesOn_of_completion hcompletion)
    | acknowledged => exact .ofCall hrecalls hsince hnot
    | forwarded _ call _ _ _ _ _ hstate _ _ _ =>
      refine .ofCall (callRecalls_forwarded hrecalls hstate rfl rfl) (fun created hcreated => hsince created ?_) hnot
      rw [hstate]
      exact hcreated
    | attached _ call requestId _ _ hrequest hstate _ =>
      have hid : m.state.callId? = some (callIdOf c.op.request) := by
        rw [hstate, hrequest]
        rfl
      have hgoes := between_goesOn hbetween hne (hown hid)
      rw [hrequest] at hgoes
      exact absurd hgoes (fun hc => hc)
    | callerDrawn _ _ hidle _ _ _ =>
      rw [hidle] at hcall
      cases hcall
    | recipientDrawn _ _ _ hidle _ _ _ =>
      rw [hidle] at hcall
      cases hcall
    | started _ _ _ _ _ hagreed =>
      have hid := (agreed_callId hagreed).1
      exact absurd (between_goesOn hbetween hne (hown hid)) (not_goesOn_of_completion (completion_of_agreed hagreed))
  | @ofEvent callId eventId hrequest hresponse hacked hnot =>
    subst hrequest
    have hends : ¬ Ends c := fun hends => hkept (.inr hends)
    cases heffect with
    | polledError _ _ herror _ =>
      obtain ⟨x, hx, herror⟩ := herror
      exact absurd herror (hnone x hx)
    | closed _ _ _ _ hreply _ => exact absurd (.inr (.inl hreply)) hends
    | failed _ _ _ hreply hcompletion => exact absurd (.inr (.inr ⟨hreply, hcompletion⟩)) hends
    | hungUp _ _ _ hrequest _ => exact absurd hrequest (between_not_hangup hbetween hne _)
    | rejected _ _ _ hcompletion _ =>
      refine .ofEvent rfl hresponse hacked (fun replay hreplay => ?_)
      cases hreplay
      exact fun hid => not_goesOn_of_completion hcompletion (between_goesOn hbetween hne hid)
    | acknowledged _ _ _ _ hreply => exact absurd (.inl ⟨hne, _, hreply⟩) hkept
    | _ => exact .ofEvent rfl hresponse hacked hnot
  | @ofRecord callId replay hrequest hrecord hsame hresponse hexpires =>
    subst hrequest
    cases heffect with
    | hungUp _ _ _ hrequest _ => exact absurd hrequest (between_not_hangup hbetween hne _)
    | rejected _ _ _ hcompletion hreply => exact absurd ⟨hcompletion, hreply⟩ hkept
    | _ => exact .ofRecord rfl hrecord hsame hresponse hexpires

/-! ## The first request -/

theorem filter_isCaused_append {quiet calls : List BackendCall} (h : ∀ c ∈ quiet, c.isCaused = false) :
    (quiet ++ calls).filter BackendCall.isCaused = calls.filter BackendCall.isCaused := by
  rw [filter_append, filter_eq_nil_iff.2 (fun c hc => by rw [h c hc]; exact Bool.false_ne_true), nil_append]

/-- **An answer that is not an error is held**, and what the request causes is caused. -/
theorem held_first (hkind : IsRemembered a.request)
    (hfirst : ∀ response, ¬ Recalls hashes (settle B w a.now a.request).memory a.request response)
    (hok : ∀ code, (step B hashes w a).2 ≠ .error code) :
    Held hashes a.now a.request (step B hashes w a).2 (step B hashes w a).1.memory ∧
      Caused ((addedCalls (Runs.callAt (step B hashes) w a)).filter BackendCall.isCaused) a.request ∧
      (Draws B (Runs.callAt (step B hashes) w a) ↔ IsPreparation a.request) := by
  obtain ⟨quiet, hquiet, hunused, -⟩ := @settle_spec β H P B w a.now a.request
  cases hreplay : (settle B w a.now a.request).replayOf a.request with
  | some response =>
    have hstep : step B hashes w a = (settle B w a.now a.request, response) := by
      unfold step handle
      dsimp only
      rw [hreplay]
    rw [hstep] at hok
    rcases replayOf_cases hreplay with ⟨replay, hrecord, hsame, -⟩ | hinvalid
    · refine absurd ?_ (hfirst replay.response)
      have hrecalls : Recalls hashes (settle B w a.now a.request).memory replay.request replay.response := .recorded hrecord
      exact hsame ▸ hrecalls
    · exact absurd hinvalid (hok _)
  | none =>
    have hnot := not_about_of_replayOf hreplay
    have hstep : step B hashes w a = dispatch B hashes (settle B w a.now a.request) a.now a.random a.request := by
      unfold step handle
      dsimp only
      rw [hreplay]
    obtain ⟨calls, hcalls, heffect⟩ : Dispatches hashes a (settle B w a.now a.request) _ := dispatches B hashes
    rw [← hstep] at hcalls heffect
    have hadded : (addedCalls (Runs.callAt (step B hashes) w a)).filter BackendCall.isCaused =
        calls.filter BackendCall.isCaused := by
      have hall : (step B hashes w a).1.calls = w.calls ++ (quiet ++ calls) := by rw [hcalls, hquiet, append_assoc]
      rw [addedCalls_eq hall, filter_isCaused_append hunused]
    have hdraws : Draws B (Runs.callAt (step B hashes) w a) ↔
        (IsPreparation a.request ∧ (settle B w a.now a.request).memory.state = .idle) :=
      ⟨fun h => ⟨h.1, h.2.2⟩, fun h => ⟨h.1, hreplay, h.2⟩⟩
    rw [hadded, hdraws]
    have hcreated : ∀ call, (settle B w a.now a.request).memory.state = .active call → call.callId = callIdOf a.request →
        call.created = a.now := fun call hstate hid => created_of_settled hstate hid
    have hnot : ∀ replay, (settle B w a.now a.request).memory.recent = some replay →
        callIdOf replay.request ≠ callIdOf a.request := hnot
    generalize (settle B w a.now a.request).memory = m at heffect hfirst hnot hdraws hcreated ⊢
    generalize (step B hashes w a).1.memory = m' at heffect ⊢
    generalize (step B hashes w a).2 = response at heffect hok ⊢
    clear hdraws hadded hcalls hstep hreplay hunused hquiet
    cases heffect with
    | kept _ _ _ hanswer => exact absurd (hanswer hkind hok).2 (hfirst response)
    | polledError _ _ _ hnotRemembered => exact absurd hkind hnotRemembered
    | closed _ _ hnotRemembered => exact absurd hkind hnotRemembered
    | failed _ _ _ hreply _ => exact absurd hreply (hok _)
    | rejected _ _ _ _ hreply => exact hreply.elim (fun hreply => absurd hreply (hok _)) (fun hreply => absurd hreply (hok _))
    | hungUp _ _ _ hrequest hquiet =>
      have hnone : calls.filter BackendCall.isCaused = [] :=
        filter_eq_nil_iff.2 (fun c hc => by rw [hquiet c hc]; exact Bool.false_ne_true)
      refine ⟨.ofRecord hrequest rfl rfl rfl (Nat.le_refl _), ?_, ?_⟩
      · rw [hnone, hrequest]
        rfl
      · rw [hrequest]
        exact ⟨fun h => h.1, fun h => h.elim⟩
    | acknowledged _ callId eventId hrequest hreply =>
      refine ⟨.ofEvent hrequest hreply rfl hnot, ?_, ?_⟩
      · rw [hrequest]
        rfl
      · rw [hrequest]
        exact ⟨fun h => h.1, fun h => h.elim⟩
    | forwarded _ call requestId signal handle hlength hrequest hstate hfind _ hreply =>
      refine ⟨.ofCall ?_ (fun created hc => ?_) hnot, ?_, ?_⟩
      · rw [hrequest, hreply]
        refine @CallRecalls.forwarded hashes _ { call with
          signalReplays := call.signalReplays ++ [signalRecord hashes call.callId requestId signal] } requestId signal
          (signalRecord hashes call.callId requestId signal) hlength rfl ?_ rfl
        rw [find?_append, hfind, Option.none_or]
        exact find?_cons_of_pos (decide_eq_true ⟨rfl, rfl⟩)
      · cases hc
        exact Nat.le_of_eq (hcreated call hstate (by rw [hrequest]; rfl)).symm
      · rw [hrequest]
        exact ⟨handle, rfl⟩
      · rw [hrequest]
        exact ⟨fun h => h.1, fun h => h.elim⟩
    | attached _ call requestId handle given hrequest hstate hreply =>
      refine ⟨.ofCall ?_ (fun created hc => ?_) hnot, ?_, ?_⟩
      · rw [hrequest, hreply]
        exact .attached hstate rfl
      · rw [hstate] at hc
        cases hc
        exact Nat.le_of_eq (hcreated call hstate (by rw [hrequest]; rfl)).symm
      · rw [hrequest]
        exact ⟨handle, _, rfl⟩
      · rw [hrequest]
        exact ⟨fun h => h.1, fun h => h.elim⟩
    | callerDrawn _ secret hidle _ hrequest hreply =>
      refine ⟨.ofCall ?_ (fun created hc => ?_) hnot, ?_, ?_⟩
      · rw [hreply]
        generalize callIdOf a.request = callId at hrequest ⊢
        rw [hrequest]
        exact .callerPrepared rfl
      · cases hc
        exact Nat.le_refl _
      · rw [hrequest]
        rfl
      · refine ⟨fun h => h.1, fun h => ⟨h, hidle⟩⟩
    | recipientDrawn _ secret gaHash hidle _ hrequest hreply =>
      refine ⟨.ofCall ?_ (fun created hc => ?_) hnot, ?_, ?_⟩
      · rw [hreply]
        generalize callIdOf a.request = callId at hrequest ⊢
        rw [hrequest]
        exact .recipientPrepared rfl
      · cases hc
        exact Nat.le_refl _
      · rw [hrequest]
        rfl
      · refine ⟨fun h => h.1, fun h => ⟨h, hidle⟩⟩
    | started _ sharedKey server isOutgoing place hagreed =>
      have hcompletion := completion_of_agreed hagreed
      have hstate := (agreed_callId hagreed).1
      refine ⟨.ofCall ?_ (fun created hc => ?_) hnot, ?_, ?_⟩
      · exact @CallRecalls.completed hashes _ (startedCall hashes a sharedKey response) hcompletion rfl rfl
      · cases hc
        exact Nat.le_refl _
      · generalize callIdOf a.request = callId, a.request = request, m.state = s at hagreed ⊢
        cases hagreed with
        | caller => exact ⟨sharedKey, _, rfl⟩
        | recipient => exact ⟨sharedKey, _, rfl⟩
      · refine ⟨fun h => h.1, fun h => ⟨h, ?_⟩⟩
        generalize a.request = request at h hcompletion
        cases request with
        | completeCaller => exact h.elim
        | completeRecipient => exact h.elim
        | _ => exact hcompletion.elim

/-! ## A window of requests -/

theorem effect_ttl {m m' : Memory} (h : Effect hashes a response calls m m') : m'.ttl = m.ttl := by
  cases h <;> rfl

theorem ttl_step : (step B hashes w a).1.ttl = w.ttl := by
  obtain ⟨_, -, -, -, httl, -⟩ := @settle_spec β H P B w a.now a.request
  obtain ⟨_, _, -, -, -, ⟨hsame, -⟩ | heffect⟩ := @step_effect β H P B hashes w a
  · rw [hsame, httl]
  · exact (effect_ttl heffect).trans httl

/-- **One request after the first**: the answer stays held, and a copy gets it and causes nothing. -/
theorem held_step (h : Held hashes since request response w.memory)
    (hbetween : Between request since w.ttl (Runs.callAt (step B hashes) w a))
    (hkept : ¬ Forgets request (Runs.callAt (step B hashes) w a)) :
    Held hashes since request response (step B hashes w a).1.memory ∧
      (a.request = request → (step B hashes w a).2 = response ∧
        (addedCalls (Runs.callAt (step B hashes) w a)).filter BackendCall.isCaused = [] ∧
        ¬ Draws B (Runs.callAt (step B hashes) w a)) := by
  obtain ⟨quiet, calls, hquiet, hunused, hcalls, heffect⟩ := @step_effect β H P B hashes w a
  have hnone := hbetween.noError
  rw [addedCalls_eq hcalls] at hnone
  have hover : (∃ callId eventId, request = .ackEvent callId eventId) →
      ¬ (w.refreshActive a.now (callIdOf a.request)).IsOver a.now := by
    rintro ⟨callId, eventId, rfl⟩ hover
    exact hkept (.inr (.inl hover))
  have hsettled := held_settled h hbetween.later hbetween.inTime hover hquiet (fun c hc => hnone c (mem_append_left _ hc))
  by_cases hcopy : a.request = request
  · obtain ⟨hstep, hdraws⟩ : step B hashes w a = (settle B w a.now a.request, response) ∧ _ := held_answered hsettled hcopy
    refine ⟨?_, fun _ => ⟨?_, ?_, hdraws⟩⟩
    · rw [hstep]
      exact hsettled
    · rw [hstep]
    · have hadded : addedCalls (Runs.callAt (step B hashes) w a) = quiet := addedCalls_eq (by rw [hstep]; exact hquiet)
      rw [hadded]
      exact filter_eq_nil_iff.2 (fun c hc => by rw [hunused c hc]; exact Bool.false_ne_true)
  · refine ⟨?_, fun hsame => absurd hsame hcopy⟩
    rcases heffect with ⟨hsame, -⟩ | heffect
    · rw [hsame]
      exact hsettled
    · exact held_effect (c := Runs.callAt (step B hashes) w a) hsettled heffect hcopy hbetween
        (fun c hc => hnone c (mem_append_right _ hc)) hkept

/-- **Every copy in a window** gets the answer and causes nothing. -/
theorem held_window : ∀ (window : List Arrival) {w : VoiceWorker β H P}, Held hashes since request response w.memory →
    (∀ c ∈ Runs.calls (step B hashes) w window, Between request since w.ttl c ∧ ¬ Forgets request c) →
    ∀ c ∈ Runs.calls (step B hashes) w window, c.op.request = request →
      c.reply = response ∧ (addedCalls c).filter BackendCall.isCaused = [] ∧ ¬ Draws B c
  | [], _, _, _ => fun _ hc => by cases hc
  | a :: window, w, h, hwindow => by
    obtain ⟨hbetween, hkept⟩ := hwindow _ mem_cons_self
    obtain ⟨hafter, hcopy⟩ := held_step h hbetween hkept
    intro c hc
    rcases mem_cons.1 hc with rfl | hc
    · exact hcopy
    · refine held_window window hafter (fun c hc => ?_) c hc
      rw [ttl_step]
      exact hwindow c (mem_cons_of_mem _ hc)

def copies (request : VoiceIpc.Request) (calls : List (Served β H P)) : List (Served β H P) :=
  calls.filter (fun c => c.op.request = request)

/-- **A request that comes again repeats nothing.** -/
theorem copies_repeat_nothing (w : VoiceWorker β H P) (first : Arrival) (window : List Arrival) (hkind : IsRemembered first.request)
    (hfirst : ∀ response, ¬ Recalls hashes (settle B w first.now first.request).memory first.request response)
    (hok : ∀ code, (step B hashes w first).2 ≠ .error code)
    (hwindow : ∀ c ∈ Runs.calls (step B hashes) (step B hashes w first).1 window,
      Between first.request first.now w.ttl c ∧ ¬ Forgets first.request c) :
    (∀ c ∈ copies first.request (Runs.calls (step B hashes) w (first :: window)), c.reply = (step B hashes w first).2) ∧
    Caused (((copies first.request (Runs.calls (step B hashes) w (first :: window))).flatMap addedCalls).filter
      BackendCall.isCaused) first.request ∧
    (copies first.request (Runs.calls (step B hashes) w (first :: window))).countP (fun c => Draws B c) =
      if IsPreparation first.request then 1 else 0 := by
  obtain ⟨hheld, hcaused, hdraws⟩ := held_first hkind hfirst hok
  have hcopies : ∀ c ∈ copies first.request (Runs.calls (step B hashes) (step B hashes w first).1 window),
      c.reply = (step B hashes w first).2 ∧ (addedCalls c).filter BackendCall.isCaused = [] ∧ ¬ Draws B c := by
    intro c hc
    obtain ⟨hc, hsame⟩ := mem_filter.1 hc
    exact held_window window hheld (by rwa [ttl_step]) c hc (of_decide_eq_true hsame)
  have hall : copies first.request (Runs.calls (step B hashes) w (first :: window)) =
      Runs.callAt (step B hashes) w first :: copies first.request (Runs.calls (step B hashes) (step B hashes w first).1 window) :=
    filter_cons_of_pos (decide_eq_true rfl)
  rw [hall]
  generalize copies first.request (Runs.calls (step B hashes) (step B hashes w first).1 window) = rest at hcopies ⊢
  refine ⟨fun c hc => ?_, ?_, ?_⟩
  · rcases mem_cons.1 hc with rfl | hc
    · rfl
    · exact (hcopies c hc).1
  · have hnone : (rest.flatMap addedCalls).filter BackendCall.isCaused = [] := by
      rw [filter_flatMap]
      exact flatMap_eq_nil_iff.2 (fun c hc => (hcopies c hc).2.1)
    rw [flatMap_cons, filter_append, hnone, append_nil]
    exact hcaused
  · have hnone : rest.countP (fun c => Draws B c) = 0 :=
      countP_eq_zero.2 (fun c hc hd => (hcopies c hc).2.2 (of_decide_eq_true hd))
    rw [countP_cons, hnone, Nat.zero_add]
    by_cases hpreparation : IsPreparation first.request
    · rw [if_pos hpreparation, if_pos (decide_eq_true (hdraws.2 hpreparation))]
    · rw [if_neg hpreparation, if_neg (fun hd => hpreparation (hdraws.1 (of_decide_eq_true hd)))]

/-! ## Answers that are forgotten -/

def hasNothingFor (w : VoiceWorker β H P) : VoiceIpc.Request → Bool
  | .hangup _ => true
  | .ackEvent callId eventId => w.lastAckedEvent != some (callId, eventId)
  | .signal _ _ _ => w.state.active?.all (fun call => call.signalReplays.isEmpty)
  | .attachMedia _ _ => w.endpoint.isNone
  | _ => false

theorem not_recalls (hrecent : w.recent = none) (h : w.hasNothingFor request = true) :
    ¬ Recalls hashes w.memory request response := by
  intro hrecalls
  cases hrecalls with
  | ofCall hcall =>
    cases hcall with
    | completed hcompletion =>
      generalize ActiveCall.completedRequest _ = completed at h hcompletion
      cases completed <;> first | exact hcompletion | cases h
    | @forwarded call _ _ _ _ hstate hfind =>
      have hstate : w.state = _ := hstate
      have hreplays : w.state.active?.all (fun call => call.signalReplays.isEmpty) = true := h
      rw [hstate] at hreplays
      have hnone : call.signalReplays = [] := isEmpty_iff.1 hreplays
      rw [hnone] at hfind
      cases hfind
    | attached _ hsame =>
      have hsame : w.endpoint.map (fun endpoint => (endpoint.requestId, endpoint.capability)) = some _ := hsame
      rw [Option.isNone_iff_eq_none.1 h] at hsame
      cases hsame
    | callerPrepared => cases h
    | recipientPrepared => cases h
  | acknowledged hsame => exact bne_iff_ne.1 h hsame
  | recorded hrecord =>
    have hrecord : w.recent = _ := hrecord
    rw [hrecent] at hrecord
    cases hrecord

variable (B hashes) in
structure AnswersAnew (w : VoiceWorker β H P) (first : Arrival) (window : List Arrival) : Prop where
  kind : IsRemembered first.request
  unanswered : ∀ response, ¬ Recalls hashes (settle B w first.now first.request).memory first.request response
  ok : ∀ code, (step B hashes w first).2 ≠ .error code
  between : ∀ c ∈ Runs.calls (step B hashes) (step B hashes w first).1 window, Between first.request first.now w.ttl c
  anew : ∃ c ∈ copies first.request (Runs.calls (step B hashes) w (first :: window)), c.reply ≠ (step B hashes w first).2

end VoiceWorker

open VoiceWorker

def completeTwo (gb : FixedBytes DH_PUBLIC_BYTES) : Arrival := ⟨0, none, .completeCaller 2 gb directServer⟩

def prepareTwo : Arrival := ⟨0, some oneBytes, .prepareCaller 2⟩

def brokenBackend : MediaBackend Nat Unit Unit where
  start n _ := (n, .ok ())
  pollEvent n := (n + 1, if n = 0 then .error .mediaError else .ok (some (.outboundSignal [1])))
  forwardSignal n _ _ := ((n, ()), .ok ())
  attachPcm n _ := ((n, ()), .ok ())
  sendPcm n _ _ := ((n, ()), .ok ())
  receivePcm n _ := ((n, ()), .ok none)
  closePcm n _ := n
  stop n _ := n

def brokenWorker : VoiceWorker Nat Unit Unit :=
  Runs.final (step brokenBackend zeroHashes) (new 0) [prepareOne 0, completeOne 0 middleValue, ⟨0, none, .pollEvent 1⟩]

def deafBackend : MediaBackend Unit Unit Unit := { quietBackend with sendPcm := fun _ _ _ => (((), ()), .error .mediaError) }

def deafWorker : VoiceWorker Unit Unit Unit :=
  Runs.final (step deafBackend zeroHashes) (new ()) [prepareOne 0, completeOne 0 middleValue]

def zeroFrame : FixedBytes VoiceIpc.PCM_FRAME_BYTES := ⟨List.replicate VoiceIpc.PCM_FRAME_BYTES 0, List.length_replicate⟩

def zeroCapability : FixedBytes VoiceIpc.PCM_CAPABILITY_BYTES :=
  ⟨List.replicate VoiceIpc.PCM_CAPABILITY_BYTES 0, List.length_replicate⟩

def quietCall : VoiceWorker Unit Unit Unit := quietRun [prepareOne 0, completeOne 0 middleValue]

def firstSignal : Arrival := ⟨0, none, .signal 1 7 [4]⟩

def signalWindow : List Arrival := [⟨0, none, .signal 1 8 [5]⟩, firstSignal]

theorem signal_repeats_nothing :
    (∀ c ∈ copies firstSignal.request (Runs.calls (step quietBackend zeroHashes) quietCall (firstSignal :: signalWindow)),
      c.reply = .signalForwarded 7) ∧
    Caused (((copies firstSignal.request (Runs.calls (step quietBackend zeroHashes) quietCall (firstSignal :: signalWindow))).flatMap
      addedCalls).filter BackendCall.isCaused) firstSignal.request := by
  have hreply : (step quietBackend zeroHashes quietCall firstSignal).2 = .signalForwarded 7 := by decide +kernel
  have hwindow : ∀ c ∈ Runs.calls (step quietBackend zeroHashes) (step quietBackend zeroHashes quietCall firstSignal).1 signalWindow,
      Between firstSignal.request 0 quietCall.ttl c ∧ ¬ (callIdOf c.op.request = 1 ∧ c.reply = mediaUnavailable) := by
    decide +kernel
  obtain ⟨hsame, hcaused, -⟩ := copies_repeat_nothing quietCall firstSignal signalWindow trivial
    (fun response => not_recalls (by decide +kernel) (by decide +kernel))
    (fun code => by rw [hreply]; exact fun hc => by cases hc) hwindow
  exact ⟨fun c hc => (hsame c hc).trans hreply, hcaused⟩

/-- **Answers that are forgotten**: that to a hangup once the completion of another call fails, that to an acknowledgement once
another call's event is acknowledged, and that to an attachment once the backend fails for the call. -/
theorem forgotten_answers :
    AnswersAnew quietBackend zeroHashes (quietRun [prepareOne 0]) ⟨0, none, .hangup 1⟩
      [prepareTwo, completeTwo zeroValue, ⟨0, none, .hangup 1⟩] ∧
    AnswersAnew brokenBackend zeroHashes brokenWorker ⟨0, none, .ackEvent 1 1⟩
      [prepareTwo, completeTwo middleValue, ⟨0, none, .pollEvent 2⟩, ⟨0, none, .ackEvent 2 2⟩, ⟨0, none, .ackEvent 1 1⟩] ∧
    AnswersAnew deafBackend zeroHashes deafWorker ⟨0, none, .attachMedia 1 1⟩
      [⟨0, none, .sendPcm 1 zeroCapability zeroFrame⟩, ⟨0, none, .attachMedia 1 1⟩] := by
  refine ⟨?_, ?_, ?_⟩
  · have hreply : (step quietBackend zeroHashes (quietRun [prepareOne 0]) ⟨0, none, .hangup 1⟩).2 = .hungUp := by decide +kernel
    refine ⟨trivial, fun response => not_recalls (by decide +kernel) rfl, fun code => ?_, by decide +kernel, by decide +kernel⟩
    rw [hreply]
    exact fun hc => by cases hc
  · have hreply : (step brokenBackend zeroHashes brokenWorker ⟨0, none, .ackEvent 1 1⟩).2 = .eventAcknowledged 1 := by
      decide +kernel
    refine ⟨trivial, fun response => not_recalls (by decide +kernel) (by decide +kernel), fun code => ?_,
      by decide +kernel, by decide +kernel⟩
    rw [hreply]
    exact fun hc => by cases hc
  · have hreply : (step deafBackend zeroHashes deafWorker ⟨0, none, .attachMedia 1 1⟩).2 = .mediaAttached 1 zeroCapability := by
      decide +kernel
    refine ⟨trivial, fun response => not_recalls (by decide +kernel) (by decide +kernel), fun code => ?_,
      by decide +kernel, by decide +kernel⟩
    rw [hreply]
    exact fun hc => by cases hc

end Voice
end Crossgram
