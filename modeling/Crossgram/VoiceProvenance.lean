import Crossgram.VoiceCallView
/-!
# VoiceProvenance — whose request brought what the worker has (packages/voice-worker/src/worker.rs)

The requests of a run are named by the call they were made for.  What the worker has under a call id is traced back to
requests of one call: the secret and the key of the state, the capability, the record, the events (`Owned`).  It goes on
being so for as long as an id changes its call only when the worker has nothing under it.
-/
namespace Crossgram
namespace Voice

open List
open VoiceIpc (FixedBytes Response DH_PUBLIC_BYTES PCM_CAPABILITY_BYTES)

def CallState.secret? : CallState → Option DhPrivate
  | .callerPrepared _ secret _ _ _    => some secret
  | .recipientPrepared _ secret _ _ _ => some secret
  | _                                => none

def completionAnswer (hashes : Hashes) (secret : DhPrivate) (config : MediaStartConfig) : VoiceIpc.Request → Response
  | .completeCaller .. => .callerCompleted (publicValue secret) (hashes.keyFingerprint config.authKey)
  | _                  => .recipientCompleted (hashes.keyFingerprint config.authKey)

/-- **What is behind a state**: of some requests one drew the secret of a prepared call; of an active call one drew the secret,
one brought the other value of the key, and each signal that was answered came with one. -/
inductive Behind (hashes : Hashes) (requests : List Arrival) : CallState → Prop
  | prepared {s b secret} : b ∈ requests → DhPrivate.generate b.random = .ok secret →
      Drawn hashes b.now secret b.request s → Behind hashes requests s
  | active {call b b' secret config} : b ∈ requests → b' ∈ requests → DhPrivate.generate b.random = .ok secret →
      VoiceWorker.Bound hashes secret b.request b'.request config → call.callId = config.callId →
      call.endpointKey = VoiceWorker.endpointKeyOf hashes config.authKey → call.completedRequest = b'.request →
      call.completedResponse = completionAnswer hashes secret config b'.request →
      (∀ replay ∈ call.signalReplays, ∃ c ∈ requests, ∃ requestId signal,
        c.request = .signal call.callId requestId signal ∧ replay = signalRecord hashes call.callId requestId signal) →
      Behind hashes requests (.active call)

def Attached (hashes : Hashes) (requests : List Arrival) (call : ActiveCall)
    (attached : UInt64 × FixedBytes PCM_CAPABILITY_BYTES) : Prop :=
  (∃ b ∈ requests, b.request = .attachMedia call.callId attached.1) ∧
    attached.2 = endpointCapability hashes call.endpointKey call.callId attached.1

variable {hashes : Hashes} {requests requests' : List Arrival} {s : CallState}

theorem Behind.mono (h : Behind hashes requests s) (hsub : requests ⊆ requests') : Behind hashes requests' s := by
  cases h with
  | prepared hb hsecret hdrawn => exact .prepared (hsub hb) hsecret hdrawn
  | active hb hb' hsecret hbound hid hkey hrequest hresponse hreplays =>
    refine .active (hsub hb) (hsub hb') hsecret hbound hid hkey hrequest hresponse (fun replay hreplay => ?_)
    obtain ⟨c, hc, hsignal⟩ := hreplays replay hreplay
    exact ⟨c, hsub hc, hsignal⟩

theorem Behind.ne_nil (h : Behind hashes requests s) : requests ≠ [] := by
  cases h with
  | prepared hb => exact ne_nil_of_mem hb
  | active hb => exact ne_nil_of_mem hb

theorem Attached.mono {call : ActiveCall} {attached : UInt64 × FixedBytes PCM_CAPABILITY_BYTES}
    (h : Attached hashes requests call attached) (hsub : requests ⊆ requests') : Attached hashes requests' call attached := by
  obtain ⟨⟨b, hb, hrequest⟩, hcapability⟩ := h
  exact ⟨⟨b, hsub hb, hrequest⟩, hcapability⟩

theorem drawn_secret {now : Nanoseconds} {secret : DhPrivate} {request : VoiceIpc.Request}
    (h : Drawn hashes now secret request s) : s.secret? = some secret := by
  cases h <;> rfl

theorem Behind.secret {secret : DhPrivate} (h : Behind hashes requests s) (hsecret : s.secret? = some secret) :
    ∃ b ∈ requests, b.random = some secret.bytes := by
  cases h with
  | @prepared _ b drawnSecret hb hdraw hdrawn =>
    obtain rfl := Option.some.inj ((drawn_secret hdrawn).symm.trans hsecret)
    refine ⟨b, hb, ?_⟩
    unfold DhPrivate.generate at hdraw
    split at hdraw
    · cases hdraw
    · rename_i bytes hrandom
      split at hdraw
      · cases hdraw
        exact hrandom
      · cases hdraw
  | active => cases hsecret

/-! ## Events -/

structure EventsFrom (q q' : EventQueue) : Prop where
  active : q'.active = q.active ∨ q'.active = none
  next : q.next.toNat ≤ q'.next.toNat
  events : ∃ added, q'.calls = q.calls ++ added ∧ ∀ e ∈ q'.events, e ∈ q.events ∨
    (q.active = some e.callId ∧ q.next.toNat ≤ e.id.toNat ∧
      ∃ waiting polled, .pollEvent waiting polled ∈ added ∧ VoiceWorker.eventOf polled = some e.event)

namespace EventsFrom

variable {q q' q'' : EventQueue}

theorem refl (q : EventQueue) : EventsFrom q q :=
  ⟨.inl rfl, Nat.le_refl _, [], (append_nil _).symm, fun _ he => .inl he⟩

theorem trans (h : EventsFrom q q') (h' : EventsFrom q' q'') : EventsFrom q q'' := by
  obtain ⟨added, hcalls, hevents⟩ := h.events
  obtain ⟨added', hcalls', hevents'⟩ := h'.events
  refine ⟨?_, Nat.le_trans h.next h'.next, added ++ added', ?_, fun e he => ?_⟩
  · rcases h'.active with hsame | hnone
    · rw [hsame]
      exact h.active
    · exact .inr hnone
  · rw [hcalls', hcalls, append_assoc]
  · rcases hevents' e he with hold | ⟨hactive, hnext, waiting, polled, hpoll, hevent⟩
    · rcases hevents e hold with hold | ⟨hactive, hnext, waiting, polled, hpoll, hevent⟩
      · exact .inl hold
      · exact .inr ⟨hactive, hnext, waiting, polled, mem_append_left _ hpoll, hevent⟩
    · refine .inr ⟨?_, Nat.le_trans h.next hnext, waiting, polled, mem_append_right _ hpoll, hevent⟩
      rcases h.active with hsame | hnone
      · rw [← hsame]
        exact hactive
      · rw [hnone] at hactive
        cases hactive

theorem of_move (hm : QueueMove q q') : EventsFrom q q' := by
  refine ⟨active_move hm, (next_move hm).1, ?_⟩
  cases hm with
  | silent calls _ => exact ⟨calls, rfl, fun _ he => .inl he⟩
  | clear calls _ => exact ⟨calls, rfl, fun _ he => (nomatch he)⟩
  | forget => exact ⟨[], (append_nil _).symm, fun _ he => .inl he⟩
  | remember response _ => exact ⟨[], (append_nil _).symm, fun _ he => .inl he⟩
  | nothing => exact ⟨_, rfl, fun _ he => .inl he⟩
  | take callId signal hactive _ =>
    refine ⟨_, rfl, fun e he => ?_⟩
    rcases mem_append.1 he with he | he
    · exact .inl he
    · rw [mem_singleton.1 he]
      exact .inr ⟨hactive, Nat.le_refl _, _, _, mem_singleton_self _, rfl⟩
  | drop signal _ => exact ⟨_, rfl, fun _ he => .inl he⟩
  | fail callId event calls hactive hevent _ =>
    refine ⟨_, rfl, fun e he => ?_⟩
    rw [mem_singleton.1 he]
    exact .inr ⟨hactive, Nat.le_refl _, _, event, mem_cons_self, hevent⟩

theorem of_moves (hm : QueueMoves q q') : EventsFrom q q' := by
  induction hm with
  | refl => exact refl q
  | tail _ hstep ih => exact ih.trans (of_move hstep)

end EventsFrom

variable {q q' : EventQueue}

theorem eventsFrom_queueStep {state : CallState} {request : VoiceIpc.Request}
    (h : VoiceWorker.QueueStep state request q q') : ∃ q₁, EventsFrom q q₁ ∧ (∃ later, q'.calls = q₁.calls ++ later) ∧
      (∀ e ∈ q'.events, e ∈ q₁.events) ∧ q'.next = q₁.next := by
  cases h with
  | moved hmoves => exact ⟨q', .of_moves hmoves, ⟨[], (append_nil _).symm⟩, fun _ he => he, rfl⟩
  | @started q₁ c hmoves _ _ _ hq => exact ⟨q₁, .of_moves hmoves, hq ▸ ⟨⟨[c], rfl⟩, fun _ he => he, rfl⟩⟩
  | @acked q₁ event events hmoves hevents _ hq =>
    refine ⟨q₁, .of_moves hmoves, hq ▸ ⟨⟨[], (append_nil _).symm⟩, fun e he => ?_, rfl⟩⟩
    rw [hevents]
    exact mem_cons_of_mem _ he

def UniqueIds (q : EventQueue) : Prop := ∀ e ∈ q.events, ∀ e' ∈ q.events, e.id = e'.id → e = e'

theorem uniqueIds_move (h : UniqueIds q) (hordered : q.Ordered) (hm : QueueMove q q') : UniqueIds q' := by
  cases hm with
  | take callId signal _ _ =>
    intro e he e' he' hid
    rcases mem_append.1 he with he | he <;> rcases mem_append.1 he' with he' | he'
    · exact h e he e' he' hid
    · have hlt := hordered.below e he
      rw [hid, mem_singleton.1 he'] at hlt
      exact absurd hlt (Nat.lt_irrefl _)
    · have hlt := hordered.below e' he'
      rw [← hid, mem_singleton.1 he] at hlt
      exact absurd hlt (Nat.lt_irrefl _)
    · rw [mem_singleton.1 he, mem_singleton.1 he']
  | clear => exact fun _ he => (nomatch he)
  | fail =>
    intro e he e' he' _
    rw [mem_singleton.1 he, mem_singleton.1 he']
  | _ => exact h

theorem uniqueIds_moves (h : UniqueIds q) (hordered : q.Ordered) (hm : QueueMoves q q')
    (hlast : ¬ IsLastId q'.next) : UniqueIds q' := by
  induction hm with
  | refl => exact h
  | @tail q₁ q₂ hmoves hstep ih =>
    have hlast₁ : ¬ IsLastId q₁.next := fun hl => hlast ((next_move hstep).2 hl)
    exact uniqueIds_move (ih hlast₁) (hordered.moves hmoves hlast₁) hstep

/-! ## Named requests -/

section Named

variable {κ : Type} {k k' : κ} {a : Arrival} {history history' : List (κ × Arrival)} {id : UInt64}

def lastUser (history : List (κ × Arrival)) (id : UInt64) : Option κ :=
  (history.reverse.find? (fun n => callIdOf n.2.request = id)).map Prod.fst

theorem lastUser_append (history : List (κ × Arrival)) (k : κ) (a : Arrival) (id : UInt64) :
    lastUser (history ++ [(k, a)]) id = if callIdOf a.request = id then some k else lastUser history id := by
  unfold lastUser
  rw [reverse_append, reverse_singleton, singleton_append, find?_cons]
  by_cases hid : callIdOf a.request = id
  · rw [if_pos hid, decide_eq_true hid]
    rfl
  · rw [if_neg hid, decide_eq_false hid]

theorem lastUser_mem (h : lastUser history id = some k) : ∃ a, (k, a) ∈ history ∧ callIdOf a.request = id := by
  unfold lastUser at h
  obtain ⟨⟨k', a⟩, hfind, rfl⟩ := Option.map_eq_some_iff.1 h
  have hid := find?_some hfind
  exact ⟨a, mem_reverse.1 (mem_of_find?_eq_some hfind), of_decide_eq_true hid⟩

theorem owned_append {P P' : κ → Prop} (h : ∃ k', lastUser history id = some k' ∧ P k')
    (hmono : ∀ k', P k' → P' k') (hsame : callIdOf a.request = id → lastUser history id = some k) :
    ∃ k', lastUser (history ++ [(k, a)]) id = some k' ∧ P' k' := by
  obtain ⟨k', hlast, hk'⟩ := h
  refine ⟨k', ?_, hmono k' hk'⟩
  rw [lastUser_append]
  split
  · rename_i hid
    rw [← hsame hid, hlast]
  · exact hlast

variable [DecidableEq κ]

def ofCall (k : κ) (history : List (κ × Arrival)) : List Arrival := (history.filter (fun n => n.1 = k)).map Prod.snd

theorem mem_ofCall : a ∈ ofCall k history ↔ (k, a) ∈ history := by
  unfold ofCall
  rw [mem_map]
  constructor
  · rintro ⟨⟨k', a'⟩, hmem, rfl⟩
    obtain ⟨hmem, hk⟩ := mem_filter.1 hmem
    exact of_decide_eq_true hk ▸ hmem
  · intro hmem
    exact ⟨(k, a), mem_filter.2 ⟨hmem, decide_eq_true rfl⟩, rfl⟩

theorem ofCall_subset : ofCall k history ⊆ ofCall k (history ++ history') :=
  fun _ ha => mem_ofCall.2 (mem_append_left _ (mem_ofCall.1 ha))

end Named

namespace VoiceWorker

variable {β H P : Type} (B : MediaBackend β H P) (hashes : Hashes) (start : VoiceWorker β H P)

section Named

variable {κ : Type}

def after (history : List (κ × Arrival)) : VoiceWorker β H P := Runs.final (step B hashes) start (history.map Prod.snd)

def Recorded (history : List (κ × Arrival)) (k : κ) (replay : Replay) : Prop :=
  ∃ before b rest, history = before ++ (k, b) :: rest ∧ b.request = replay.request ∧
    (step B hashes (after B hashes start before) b).2 = replay.response

variable {B hashes start}
variable {k : κ} {a : Arrival} {history rest : List (κ × Arrival)} {v v' : CallView} {response : Response}

theorem after_append (history : List (κ × Arrival)) (k : κ) (a : Arrival) :
    after B hashes start (history ++ [(k, a)]) = (step B hashes (after B hashes start history) a).1 := by
  unfold after Runs.final
  rw [map_append, foldl_append]
  rfl

theorem Recorded.append {replay : Replay} (h : Recorded B hashes start history k replay) :
    Recorded B hashes start (history ++ rest) k replay := by
  obtain ⟨before, b, later, rfl, hb⟩ := h
  exact ⟨before, b, later ++ rest, by rw [append_assoc, cons_append], hb⟩

variable (B hashes start) [DecidableEq κ]

/-- An event was polled while the call of its id was active and was that of `k`. -/
def Came (history : List (κ × Arrival)) (k : κ) (event : PendingEvent) : Prop :=
  ∃ before next rest, history = before ++ next :: rest ∧
    (after B hashes start before).activeId? = some event.callId ∧
    Behind hashes (ofCall k before) (after B hashes start before).state ∧
    ∃ waiting polled, .pollEvent waiting polled ∈
        (after B hashes start (before ++ [next])).calls.drop (after B hashes start before).calls.length ∧
      eventOf polled = some event.event

structure ViewOwned (history : List (κ × Arrival)) (v : CallView) : Prop where
  state : ∀ id, v.state.callId? = some id →
    ∃ k, lastUser history id = some k ∧ Behind hashes (ofCall k history) v.state
  attached : ∀ c, v.attached = some c → ∃ call, v.state = .active call ∧
    ∃ k, lastUser history call.callId = some k ∧ Attached hashes (ofCall k history) call c
  recent : ∀ replay, v.recent = some replay →
    ∃ k, lastUser history (callIdOf replay.request) = some k ∧ Recorded B hashes start history k replay

variable {B hashes start}

theorem Came.append {event : PendingEvent} (h : Came B hashes start history k event) :
    Came B hashes start (history ++ rest) k event := by
  obtain ⟨before, next, later, rfl, hcame⟩ := h
  exact ⟨before, next, later ++ rest, by rw [append_assoc, cons_append], hcame⟩

namespace ViewOwned

theorem move (h : ViewOwned B hashes start history v) (hm : ViewMove v v') : ViewOwned B hashes start history v' := by
  cases hm with
  | refreshed call created hactive =>
    refine ⟨fun id hid => ?_, fun c hc => ?_, h.recent⟩
    · obtain ⟨k, hlast, hbehind⟩ := h.state id (by rw [hactive]; exact hid)
      refine ⟨k, hlast, ?_⟩
      rw [hactive] at hbehind
      cases hbehind with
      | active hb hb' hsecret hbound hid hkey hrequest hresponse hreplays =>
        exact .active hb hb' hsecret hbound hid hkey hrequest hresponse hreplays
      | prepared _ _ hdrawn => exact absurd (drawn_callId hdrawn).2 (fun hnone => by cases hnone)
    · obtain ⟨call', hcall, k, hlast, hattached⟩ := h.attached c hc
      cases hactive.symm.trans hcall
      exact ⟨_, rfl, k, hlast, hattached⟩
  | ended => exact ⟨fun _ hid => (nomatch hid), fun _ hc => (nomatch hc), h.recent⟩
  | forgot => exact ⟨h.state, h.attached, fun _ hreplay => (nomatch hreplay)⟩

theorem moves (h : ViewOwned B hashes start history v) (hm : ViewMoves v v') : ViewOwned B hashes start history v' := by
  induction hm with
  | refl => exact h
  | tail _ hstep ih => exact ih.move hstep

theorem prepared {v : CallView} {requests : List Arrival} (h : Behind hashes requests v.state) (hactive : v.state.active? = none) :
    ∃ b ∈ requests, ∃ secret, DhPrivate.generate b.random = .ok secret ∧ Drawn hashes b.now secret b.request v.state := by
  cases hstate : v.state with
  | active call =>
    rw [hstate] at hactive
    cases hactive
  | _ =>
    rw [hstate] at h
    cases h with
    | prepared hb hsecret hdrawn => exact ⟨_, hb, _, hsecret, hdrawn⟩

theorem behind_started {s : CallState} {requests : List Arrival} {sharedKey : FixedBytes AUTH_KEY_BYTES}
    {server : VoiceIpc.MediaStartConfig} {isOutgoing : Bool}
    (h : ∃ b ∈ requests, ∃ secret, DhPrivate.generate b.random = .ok secret ∧ Drawn hashes b.now secret b.request s)
    (ha : a ∈ requests) (hagreed : Agreed hashes s a.request sharedKey server isOutgoing response) :
    Behind hashes requests (.active (startedCall hashes a sharedKey response)) := by
  obtain ⟨b, hb, secret, hsecret, hdrawn⟩ := h
  refine .active hb ha hsecret (bound_of_agreed hdrawn hagreed) rfl rfl rfl ?_ (fun _ hreplay => (nomatch hreplay))
  unfold startedCall
  dsimp only
  generalize a.request = request at hagreed
  generalize b.request = prepare at hdrawn
  cases hagreed with
  | caller hkey =>
    cases hdrawn
    rfl
  | recipient hhash hkey => rfl

/-- **A request of a call keeps what belongs to each call**, when what it meets under its id is of that call. -/
theorem step (h : ViewOwned B hashes start history v)
    (hstate : v.state.callId? = some (callIdOf a.request) → lastUser history (callIdOf a.request) = some k)
    (hrecent : ∀ replay, v.recent = some replay → callIdOf replay.request = callIdOf a.request →
      lastUser history (callIdOf a.request) = some k)
    (hrecorded : ∀ expires, Recorded B hashes start (history ++ [(k, a)]) k { request := a.request, response, expires })
    (hstep : ViewStep hashes a response v v') : ViewOwned B hashes start (history ++ [(k, a)]) v' := by
  have hmine : a ∈ ofCall k (history ++ [(k, a)]) := mem_ofCall.2 (mem_append_right _ (mem_singleton_self _))
  have hlast : lastUser (history ++ [(k, a)]) (callIdOf a.request) = some k := by rw [lastUser_append, if_pos rfl]
  have hkept : ViewOwned B hashes start (history ++ [(k, a)]) v := by
    refine ⟨fun id hid => ?_, fun c hc => ?_, fun replay hreplay => ?_⟩
    · exact owned_append (h.state id hid) (fun _ hb => hb.mono ofCall_subset) (fun hsame => hsame ▸ hstate (hsame ▸ hid))
    · obtain ⟨call, hcall, howned⟩ := h.attached c hc
      refine ⟨call, hcall, owned_append howned (fun _ hb => hb.mono ofCall_subset) (fun hsame => ?_)⟩
      rw [← hsame]
      exact hstate (by rw [hcall, hsame]; rfl)
    · refine owned_append (h.recent replay hreplay) (fun _ hb => hb.append) (fun hsame => ?_)
      rw [← hsame]
      exact hrecent replay hreplay hsame.symm
  have hidle : ∀ {v : CallView}, v.state.active? = none → ViewOwned B hashes start history v → v.attached = none := by
    intro v hnone hv
    rw [Option.eq_none_iff_forall_ne_some]
    intro c hc
    obtain ⟨call, hcall, -⟩ := hv.attached c hc
    rw [hcall] at hnone
    cases hnone
  cases hstep with
  | kept => exact hkept
  | ended => exact ⟨fun _ hid => (nomatch hid), fun _ hc => (nomatch hc), hkept.recent⟩
  | hungUp expires hid =>
    refine ⟨fun _ hid => (nomatch hid), fun _ hc => (nomatch hc), fun replay hreplay => ?_⟩
    cases hreplay
    exact ⟨k, hlast, hrecorded expires⟩
  | rejected expires hid hnone =>
    refine ⟨fun _ hid => (nomatch hid), fun c hc => ?_, fun replay hreplay => ?_⟩
    · rw [hidle hnone h] at hc
      cases hc
    · cases hreplay
      exact ⟨k, hlast, hrecorded expires⟩
  | forwarded call requestId signal ha hactive =>
    have hid : v.state.callId? = some (callIdOf a.request) := by rw [hactive, ha]; rfl
    refine ⟨fun id hid' => ?_, fun c hc => ?_, hkept.recent⟩
    · obtain ⟨k', hlast', hbehind⟩ := hkept.state id (by rw [hactive]; exact hid')
      have hsame : id = callIdOf a.request := by
        rw [ha]
        exact (Option.some.inj hid').symm
      rw [hsame, hlast] at hlast'
      cases hlast'
      refine ⟨k, hsame ▸ hlast, ?_⟩
      rw [hactive] at hbehind
      cases hbehind with
      | prepared _ _ hdrawn => exact absurd (drawn_callId hdrawn).2 (fun hnone => by cases hnone)
      | active hb hb' hsecret hbound hcall hkey hrequest hresponse hreplays =>
        refine .active hb hb' hsecret hbound hcall hkey hrequest hresponse (fun replay hreplay => ?_)
        rcases mem_append.1 hreplay with hreplay | hreplay
        · exact hreplays replay hreplay
        · exact ⟨a, hmine, requestId, signal, ha, mem_singleton.1 hreplay⟩
    · obtain ⟨call', hcall, howned⟩ := hkept.attached c hc
      cases hactive.symm.trans hcall
      exact ⟨_, rfl, howned⟩
  | attached call requestId ha hactive =>
    have hid : v.state.callId? = some (callIdOf a.request) := by rw [hactive, ha]; rfl
    refine ⟨hkept.state, fun c hc => ?_, hkept.recent⟩
    cases hc
    have hcall : callIdOf a.request = call.callId := by rw [ha]; rfl
    exact ⟨call, hactive, k, hcall ▸ hlast, ⟨a, hmine, ha⟩, rfl⟩
  | drawn state secret hnone hsecret hdrawn =>
    refine ⟨fun id hid => ?_, fun c hc => ?_, hkept.recent⟩
    · have hsame := (drawn_callId hdrawn).1.symm.trans hid
      cases hsame
      exact ⟨k, hlast, .prepared hmine hsecret hdrawn⟩
    · have hc : v.attached = some c := hc
      rw [hidle (by rw [hnone]; rfl) h] at hc
      cases hc
  | started sharedKey server isOutgoing hagreed =>
    obtain ⟨hid, hnone, -⟩ := agreed_callId hagreed
    refine ⟨fun id hid' => ?_, fun c hc => ?_, hkept.recent⟩
    · cases hid'
      obtain ⟨k', hlast', hbehind⟩ := hkept.state _ hid
      rw [hlast] at hlast'
      cases hlast'
      exact ⟨k, hlast, behind_started (prepared hbehind hnone) hmine hagreed⟩
    · have hc : v.attached = some c := hc
      rw [hidle hnone h] at hc
      cases hc

end ViewOwned

/-! ## One request -/

def Holds (w : VoiceWorker β H P) (id : UInt64) : Prop :=
  w.state.callId? = some id ∨ (∃ replay, w.recent = some replay ∧ callIdOf replay.request = id) ∨ ∃ e ∈ w.events, e.callId = id

instance (w : VoiceWorker β H P) (id : UInt64) : Decidable (Holds w id) :=
  decidable_of_iff (w.state.callId? = some id ∨ w.recent.any (fun replay => callIdOf replay.request = id) = true ∨
      w.events.any (fun e => e.callId = id) = true) (by
    unfold Holds
    rw [List.any_eq_true, Option.any_eq_true]
    simp only [decide_eq_true_eq])

structure CallBelongs (hashes : Hashes) (requests : List Arrival) (v : CallView) (id : UInt64) : Prop where
  state : v.state.callId? = some id → Behind hashes requests v.state
  capability : ∀ call c, v.state = .active call → call.callId = id → v.attached = some c → Attached hashes requests call c

/-- **What a request of a call meets, leaves and gets is of that call**: the secret and the key of the state, the capability,
the record, every event under its id, what is started for it, and the event it is answered with. -/
structure ServedOwn (B : MediaBackend β H P) (hashes : Hashes) (start : VoiceWorker β H P) (before : List (κ × Arrival)) (k : κ)
    (a : Arrival) : Prop where
  met : CallBelongs hashes (ofCall k before) (settle B (after B hashes start before) a.now a.request).view (callIdOf a.request)
  metRecord : ∀ replay, (settle B (after B hashes start before) a.now a.request).recent = some replay →
    callIdOf replay.request = callIdOf a.request → Recorded B hashes start before k replay
  metEvents : ∀ e ∈ (settle B (after B hashes start before) a.now a.request).events, e.callId = callIdOf a.request →
    Came B hashes start (before ++ [(k, a)]) k e
  left : CallBelongs hashes (ofCall k (before ++ [(k, a)])) (step B hashes (after B hashes start before) a).1.view
    (callIdOf a.request)
  starts : StartsBound hashes (ofCall k (before ++ [(k, a)])) a.request (after B hashes start before)
    (step B hashes (after B hashes start before) a).1
  answered : ∀ eventId event, a.request = .pollEvent (callIdOf a.request) →
    (step B hashes (after B hashes start before) a).2 = .event eventId event →
    ∃ e, e.callId = callIdOf a.request ∧ e.id = eventId ∧
      (∀ signal, event = .outboundSignal signal ↔ e.event = .outboundSignal signal) ∧
      Came B hashes start (before ++ [(k, a)]) k e

structure Owned (B : MediaBackend β H P) (hashes : Hashes) (start : VoiceWorker β H P) (history : List (κ × Arrival)) : Prop where
  view : ViewOwned B hashes start history (after B hashes start history).view
  events : ∀ e ∈ (after B hashes start history).events,
    ∃ k, lastUser history e.callId = some k ∧ Came B hashes start history k e
  remembered : ∀ response ∈ (after B hashes start history).queue.recent, ¬ IsEventAnswer response
  ledger : (after B hashes start history).ledger.Inv

theorem ViewOwned.belongs (h : ViewOwned B hashes start history v) {id : UInt64}
    (hstate : v.state.callId? = some id → lastUser history id = some k) : CallBelongs hashes (ofCall k history) v id := by
  refine ⟨fun hid => ?_, fun call c hcall hid hc => ?_⟩
  · obtain ⟨k', hlast, hbehind⟩ := h.state id hid
    rw [hstate hid] at hlast
    cases hlast
    exact hbehind
  · obtain ⟨call', hcall', k', hlast, hattached⟩ := h.attached c hc
    cases hcall.symm.trans hcall'
    rw [hid, hstate (by rw [hcall, ← hid]; rfl)] at hlast
    cases hlast
    exact hattached

theorem remembered_queueStep {state : CallState} {request : VoiceIpc.Request} {q q' : EventQueue}
    (h : QueueStep state request q q') (hq : ∀ response ∈ q.recent, ¬ IsEventAnswer response) :
    ∀ response ∈ q'.recent, ¬ IsEventAnswer response := by
  cases h with
  | moved hmoves => exact remembered_moves hmoves hq
  | @started q₁ c hmoves _ _ _ heq =>
    have hremembered : ∀ response ∈ q₁.recent, ¬ IsEventAnswer response := remembered_moves hmoves hq
    rw [heq]
    exact hremembered
  | @acked q₁ event events hmoves _ _ heq =>
    have hremembered : ∀ response ∈ q₁.recent, ¬ IsEventAnswer response := remembered_moves hmoves hq
    rw [heq]
    exact hremembered

namespace Owned

variable (h : Owned B hashes start history)
include h

theorem came {q : EventQueue} (hfrom : EventsFrom (after B hashes start history).queue q)
    (hcalls : ∃ added, (VoiceWorker.step B hashes (after B hashes start history) a).1.calls = q.calls ++ added) :
    ∀ e ∈ q.events, ∃ k', lastUser history e.callId = some k' ∧ Came B hashes start (history ++ [(k, a)]) k' e := by
  intro e he
  obtain ⟨added, hadded, hevents⟩ := hfrom.events
  rcases hevents e he with hold | ⟨hactive, _, waiting, polled, hpoll, hevent⟩
  · obtain ⟨k', hlast, hcame⟩ := h.events e hold
    exact ⟨k', hlast, hcame.append⟩
  · have hid : (after B hashes start history).state.callId? = some e.callId := callId?_of_activeId? hactive
    obtain ⟨k', hlast, hbehind⟩ := h.view.state e.callId hid
    refine ⟨k', hlast, history, (k, a), [], rfl, hactive, hbehind, waiting, polled, ?_, hevent⟩
    obtain ⟨later, hlater⟩ := hcalls
    have hadded : q.calls = (after B hashes start history).calls ++ added := hadded
    rw [after_append, hlater, hadded, append_assoc, drop_left]
    exact mem_append_left _ hpoll

theorem came_both : ∃ q₁, EventsFrom (settle B (after B hashes start history) a.now a.request).queue q₁ ∧
    (VoiceWorker.step B hashes (after B hashes start history) a).1.nextEventId = q₁.next ∧
    (∀ e ∈ (settle B (after B hashes start history) a.now a.request).events, ∃ k', lastUser history e.callId = some k' ∧
      Came B hashes start (history ++ [(k, a)]) k' e) ∧
    ∀ e ∈ (VoiceWorker.step B hashes (after B hashes start history) a).1.events, e ∈ q₁.events ∧
      ∃ k', lastUser history e.callId = some k' ∧ Came B hashes start (history ++ [(k, a)]) k' e := by
  have hsettle : EventsFrom (after B hashes start history).queue
      (settle B (after B hashes start history) a.now a.request).queue := .of_moves (queueMoves_settle B h.ledger)
  obtain ⟨q₁, hfrom, ⟨later, hlater⟩, hsub, hnext⟩ : ∃ q₁,
      EventsFrom (settle B (after B hashes start history) a.now a.request).queue q₁ ∧
      (∃ later, (VoiceWorker.step B hashes (after B hashes start history) a).1.queue.calls = q₁.calls ++ later) ∧
      (∀ e ∈ (VoiceWorker.step B hashes (after B hashes start history) a).1.queue.events, e ∈ q₁.events) ∧
      (VoiceWorker.step B hashes (after B hashes start history) a).1.queue.next = q₁.next := by
    rcases step_view B hashes (w := after B hashes start history) (a := a) with ⟨_, _, _, hstep⟩ | ⟨_, hstep⟩
    · rw [hstep]
      exact ⟨_, .refl _, ⟨[], (append_nil _).symm⟩, fun _ he => he, rfl⟩
    · rw [hstep]
      exact eventsFrom_queueStep (queueStep_dispatch a.request (ledger_settle h.ledger))
  refine ⟨q₁, hfrom, hnext, ?_, fun e he => ⟨hsub e he, ?_⟩⟩
  · obtain ⟨added, hadded, -⟩ := hfrom.events
    refine h.came hsettle ⟨added ++ later, ?_⟩
    rw [← append_assoc, ← hadded]
    exact hlater
  · exact h.came (hsettle.trans hfrom) ⟨later, hlater⟩ e (hsub e he)

theorem starts (hstate : (settle B (after B hashes start history) a.now a.request).state.callId? = some (callIdOf a.request) →
    lastUser history (callIdOf a.request) = some k) :
    StartsBound hashes (ofCall k (history ++ [(k, a)])) a.request (after B hashes start history)
      (VoiceWorker.step B hashes (after B hashes start history) a).1 := by
  have hmet := (h.view.moves (view_settle B)).belongs hstate
  exact startsBound_step ofCall_subset (fun hid hactive => ViewOwned.prepared (hmet.state hid) hactive)

/-- **What a request of a call meets, leaves and gets is of that call**, when whatever the worker has under its id was last
used by that call. -/
theorem step (hfree : Holds (settle B (after B hashes start history) a.now a.request) (callIdOf a.request) →
    lastUser history (callIdOf a.request) = some k) :
    Owned B hashes start (history ++ [(k, a)]) ∧ ServedOwn B hashes start history k a := by
  have hsettled : ViewOwned B hashes start history (settle B (after B hashes start history) a.now a.request).view :=
    h.view.moves (view_settle B)
  have hlast : lastUser (history ++ [(k, a)]) (callIdOf a.request) = some k := by rw [lastUser_append, if_pos rfl]
  have hstep : ViewStep hashes a (VoiceWorker.step B hashes (after B hashes start history) a).2
      (settle B (after B hashes start history) a.now a.request).view
      (VoiceWorker.step B hashes (after B hashes start history) a).1.view := by
    rcases step_view B hashes (w := after B hashes start history) (a := a) with ⟨_, _, _, hsame⟩ | ⟨_, hsame⟩
    · rw [hsame]
      exact .kept _
    · rw [hsame]
      exact view_dispatch B hashes
  have hview : ViewOwned B hashes start (history ++ [(k, a)])
      (VoiceWorker.step B hashes (after B hashes start history) a).1.view :=
    hsettled.step (fun hid => hfree (.inl hid)) (fun replay hreplay hid => hfree (.inr (.inl ⟨replay, hreplay, hid⟩)))
      (fun _ => ⟨history, a, [], rfl, rfl, rfl⟩) hstep
  obtain ⟨q₁, hfrom, -, hmet, hleft⟩ := h.came_both (k := k) (a := a)
  have hevents : ∀ e ∈ (VoiceWorker.step B hashes (after B hashes start history) a).1.events,
      ∃ k', lastUser (history ++ [(k, a)]) e.callId = some k' ∧ Came B hashes start (history ++ [(k, a)]) k' e := by
    intro e he
    obtain ⟨hqueue, howned⟩ := hleft e he
    refine owned_append howned (fun _ hcame => hcame) (fun hid => ?_)
    rw [← hid]
    obtain ⟨_, _, hold⟩ := hfrom.events
    rcases hold e hqueue with hwaits | ⟨hactive, -⟩
    · exact hfree (.inr (.inr ⟨e, hwaits, hid.symm⟩))
    · exact hfree (.inl (hid ▸ callId?_of_activeId? hactive))
  have howned : Owned B hashes start (history ++ [(k, a)]) := by
    refine ⟨?_, ?_, ?_, ?_⟩
    · rw [after_append]
      exact hview
    · rw [after_append]
      exact hevents
    · rw [after_append]
      exact remembered_queueStep (queueStep_step h.ledger) h.remembered
    · rw [after_append]
      exact h.ledger.moves (moves_handle B hashes)
  refine ⟨howned, ?_, fun replay hreplay hid => ?_, fun e he hid => ?_, ?_, h.starts (fun hid => hfree (.inl hid)),
    fun eventId event ha hreply => ?_⟩
  · exact hsettled.belongs (fun hid => hfree (.inl hid))
  · obtain ⟨k', hlast', hrecorded⟩ := hsettled.recent replay hreplay
    rw [hid, hfree (.inr (.inl ⟨replay, hreplay, hid⟩))] at hlast'
    cases hlast'
    exact hrecorded
  · obtain ⟨k', hlast', hcame⟩ := hmet e he
    rw [hid, hfree (.inr (.inr ⟨e, he, hid⟩))] at hlast'
    cases hlast'
    exact hcame
  · exact hview.belongs (fun _ => hlast)
  · obtain ⟨e, hfind, hid, hevent⟩ := step_pollEvent ha h.ledger h.remembered hreply
    have hcall := find?_some hfind
    have hcall : e.callId = callIdOf a.request := of_decide_eq_true hcall
    obtain ⟨k', hlast', hcame⟩ := hevents e (mem_of_find?_eq_some hfind)
    rw [hcall, hlast] at hlast'
    cases hlast'
    exact ⟨e, hcall, hid, hevent, hcame⟩

end Owned

end Named

end VoiceWorker

end Voice
end Crossgram
