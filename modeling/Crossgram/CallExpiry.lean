import Mathlib.Data.List.Nodup
import Crossgram.Lib.Maps
/-!
# CallExpiry — expiring calls (packages/bridge/src/voice/call-registry.ts)

`expire` walks the calls in the order they were remembered, delivers what is pending and discards what is overdue.  The
first error ends the walk: the calls behind it keep their sessions.
-/
namespace Crossgram
namespace CallExpiry

open List

inductive VoiceCallState
  | initializing
  | requested
  | received
  | accepted
  | active
  | discarded
deriving DecidableEq

inductive TelegramCallRole
  | caller
  | recipient
deriving DecidableEq

inductive PhoneCallDiscardReason
  | missed
  | disconnect
  | hangup
  | busy

inductive PlatformOperation
  | accept
  | reject
  | hangup

structure PhoneCallDiscarded where
  id : UInt64
  reason : PhoneCallDiscardReason
  duration : Nat

/-- What is published of a call; `P` stands for the forms of a call that goes on. -/
inductive PhoneCall (P : Type)
  | ongoing (phoneCall : P)
  | discarded (phoneCall : PhoneCallDiscarded)

structure StoredCall (P : Type) where
  id : UInt64
  accessHash : UInt64
  platformSessionId : String
  adminId : Int
  participantId : Int
  telegramRole : TelegramCallRole
  randomId : Option Int := none
  incomingCorrelationDigest : Option String := none
  pendingDelivery : Option P := none
  pendingDeliveryExcludeAuthKeyId : Option String := none
  state : VoiceCallState
  deadline : Int
  platformControl : Bool := false

structure CallTombstone where
  id : UInt64
  accessHash : UInt64
  sessionId : String
  adminId : Int
  participantId : Int
  telegramRole : TelegramCallRole
  randomId : Option Int
  incomingCorrelationDigest : Option String
  phoneCall : PhoneCallDiscarded
  pendingDelivery : Bool
  expiresAt : Int

def MAX_CALL_DURATION_SECONDS : Nat := 86400
def TOMBSTONE_TTL_MS : Int := 5 * 60000
def MAX_TOMBSTONES : Nat := 256

/-- The registry; a call or a tombstone that another map refers to stands there with its id. -/
structure CallRegistry (P : Type) where
  calls : List (StoredCall P) := []
  sessionCalls : List (String × UInt64) := []
  incomingCalls : List (String × UInt64) := []
  tombstones : List CallTombstone := []
  incomingTombstones : List (String × UInt64) := []
  occupiedIncomingReceipts : List (String × Int) := []
  distinct : (calls.map StoredCall.id).Nodup

/-- What may fail outside of the registry: a call's platform control, and publishing. -/
structure Outside (P ε : Type) where
  control : UInt64 → PlatformOperation → Except ε Unit
  publish : UInt64 → PhoneCall P → Option String → Except ε Int

inductive CallError (ε : Type)
  | code (code : String)
  | raised (e : ε)

namespace CallRegistry

variable {P ε : Type}

def get (r : CallRegistry P) (id : UInt64) : Option (StoredCall P) := r.calls.find? (fun call => call.id = id)

/-! ## Tombstones -/

def dropTombstone (r : CallRegistry P) (tombstone : CallTombstone) : CallRegistry P :=
  { r with
    tombstones := r.tombstones.filter (fun t => decide (t.id ≠ tombstone.id))
    incomingTombstones := match tombstone.incomingCorrelationDigest with
      | some digest =>
        if Maps.get r.incomingTombstones digest = some tombstone.id then Maps.delete r.incomingTombstones digest
        else r.incomingTombstones
      | none        => r.incomingTombstones }

def pruneTombstones (r : CallRegistry P) (now : Int) : CallRegistry P :=
  let r := (r.tombstones.filter (fun t => decide (t.expiresAt ≤ now))).foldl dropTombstone r
  { r with occupiedIncomingReceipts := r.occupiedIncomingReceipts.filter (fun e => decide (¬ e.2 ≤ now)) }

/-! ## Calls -/

def release (r : CallRegistry P) (call : StoredCall P) : CallRegistry P :=
  { r with
    sessionCalls := if Maps.get r.sessionCalls call.platformSessionId = some call.id then
      Maps.delete r.sessionCalls call.platformSessionId else r.sessionCalls
    incomingCalls := match call.incomingCorrelationDigest with
      | some digest =>
        if Maps.get r.incomingCalls digest = some call.id then Maps.delete r.incomingCalls digest else r.incomingCalls
      | none        => r.incomingCalls }

def forget (r : CallRegistry P) (call : StoredCall P) : CallRegistry P :=
  release { r with
    calls := r.calls.filter (fun c => decide (c.id ≠ call.id))
    distinct := r.distinct.sublist (List.filter_sublist.map _) } call

def retire (r : CallRegistry P) (now : Int) (call : StoredCall P) (phoneCall : PhoneCallDiscarded)
    (pendingDelivery : Bool) : CallRegistry P :=
  let tombstone : CallTombstone :=
    { id := call.id, accessHash := call.accessHash, sessionId := call.platformSessionId, adminId := call.adminId
      participantId := call.participantId, telegramRole := call.telegramRole, randomId := call.randomId
      incomingCorrelationDigest := call.incomingCorrelationDigest, phoneCall, pendingDelivery
      expiresAt := now + TOMBSTONE_TTL_MS }
  let r := r.forget call
  let r := { r with
    tombstones := r.tombstones.filter (fun t : CallTombstone => decide (t.id ≠ call.id)) ++ [tombstone]
    incomingTombstones := match call.incomingCorrelationDigest with
      | some digest => Maps.set r.incomingTombstones digest call.id
      | none        => r.incomingTombstones }
  let r := r.pruneTombstones now
  (r.tombstones.take (r.tombstones.length - MAX_TOMBSTONES)).foldl dropTombstone r

/-- `_publishCall` -/
def publishCall (outside : Outside P ε) (id : UInt64) (phoneCall : PhoneCall P) (excludeAuthKeyId : Option String) :
    Except ε Int :=
  (outside.publish id phoneCall excludeAuthKeyId).map (fun delivered => if delivered > 0 then delivered else 0)

def controlPlatformCall (outside : Outside P ε) (call : StoredCall P) (operation : PlatformOperation) : Except ε Unit :=
  if call.platformControl then outside.control call.id operation else .ok ()

def deliveredCall (call : StoredCall P) : StoredCall P :=
  { call with pendingDelivery := none, pendingDeliveryExcludeAuthKeyId := none }

def delivered (r : CallRegistry P) (id : UInt64) : CallRegistry P :=
  { r with
    calls := r.calls.map (fun c => if c.id = id then deliveredCall c else c)
    distinct := by
      have hids : ∀ c ∈ r.calls, (StoredCall.id ∘ fun c => if c.id = id then deliveredCall c else c) c = c.id := by
        intro c _
        dsimp only [Function.comp_apply]
        split <;> rfl
      rw [List.map_map, List.map_congr_left hids]
      exact r.distinct }

/-- `_deliverPending`: what was delivered is pending no more. -/
def deliverPending (outside : Outside P ε) (r : CallRegistry P) (call : StoredCall P) : CallRegistry P × Except ε Unit :=
  match call.pendingDelivery with
  | none           => (r, .ok ())
  | some phoneCall =>
    match publishCall outside call.id (.ongoing phoneCall) call.pendingDeliveryExcludeAuthKeyId with
    | .error e => (r, .error e)
    | .ok n    => if n > 0 then (r.delivered call.id, .ok ()) else (r, .ok ())

def deliverTombstone (outside : Outside P ε) (r : CallRegistry P) (tombstone : CallTombstone)
    (excludeAuthKeyId : Option String) : CallRegistry P × Except ε Unit :=
  if !tombstone.pendingDelivery then (r, .ok ())
  else match publishCall outside tombstone.id (.discarded tombstone.phoneCall) excludeAuthKeyId with
    | .error e      => (r, .error e)
    | .ok delivered =>
      if delivered > 0 then
        ({ r with tombstones := r.tombstones.map (fun t => if t.id = tombstone.id then
          { t with pendingDelivery := false } else t) }, .ok ())
      else (r, .ok ())

def ringingIncoming (call : StoredCall P) : Bool :=
  decide (call.telegramRole = .recipient) &&
    (decide (call.state = .initializing) || decide (call.state = .requested) || decide (call.state = .received))

def discardOperation (call : StoredCall P) : PlatformOperation := if ringingIncoming call then .reject else .hangup

def discardedOf (call : StoredCall P) (reason : PhoneCallDiscardReason) (duration : Nat) : PhoneCallDiscarded :=
  if ringingIncoming call then { id := call.id, reason := .busy, duration := 0 } else { id := call.id, reason, duration }

/-- `discard`, at one reading of the clock.  The call is retired even when it cannot be published. -/
def discard (outside : Outside P ε) (r : CallRegistry P) (now : Int) (platformSessionId : String) (id accessHash : UInt64)
    (reason : PhoneCallDiscardReason) (duration : Nat) (excludeAuthKeyId : Option String) :
    CallRegistry P × Except (CallError ε) PhoneCallDiscarded :=
  if duration > MAX_CALL_DURATION_SECONDS then (r, .error (.code "CALL_DURATION_INVALID"))
  else
    let r := r.pruneTombstones now
    match (r.get id).filter (fun call => call.platformSessionId = platformSessionId ∧ call.accessHash = accessHash) with
    | some call =>
      match controlPlatformCall outside call (discardOperation call) with
      | .error e => (r, .error (.raised e))
      | .ok ()   =>
        let discarded := discardedOf call reason duration
        match publishCall outside call.id (.discarded discarded) excludeAuthKeyId with
        | .error e      => (r.retire now call discarded true, .error (.raised e))
        | .ok delivered => (r.retire now call discarded (decide (delivered ≤ 0)), .ok discarded)
    | none =>
      match r.tombstones.find? (fun t => t.id = id ∧ t.sessionId = platformSessionId ∧ t.accessHash = accessHash) with
      | none           => (r, .error (.code "CALL_PEER_INVALID"))
      | some tombstone =>
        match deliverTombstone outside r tombstone excludeAuthKeyId with
        | (r, .error e) => (r, .error (.raised e))
        | (r, .ok ())   => (r, .ok tombstone.phoneCall)

/-- The condition under which `expire` delivers what is pending. -/
def redelivers (now : Int) (call : StoredCall P) : Bool :=
  decide (call.state ≠ .discarded) && call.pendingDelivery.isSome &&
    (decide (call.state = .active) || decide (now < call.deadline))

def overdue (now : Int) (call : StoredCall P) : Bool :=
  !(decide (call.state = .discarded) || decide (call.state = .active) || decide (now < call.deadline))

/-- The round of the loop of `expire` for one call. -/
def expireCall (outside : Outside P ε) (now : Int) (r : CallRegistry P) (call : StoredCall P) :
    CallRegistry P × Except (CallError ε) Unit :=
  match (if redelivers now call then deliverPending outside (r.pruneTombstones now) call else (r, .ok ())) with
  | (r, .error e) => (r, .error (.raised e))
  | (r, .ok ())   =>
    if overdue now call then
      match discard outside r now call.platformSessionId call.id call.accessHash .missed 0 none with
      | (r, .error e) => (r, .error e)
      | (r, .ok _)    => (r, .ok ())
    else (r, .ok ())

/-- The loop of `expire` over the calls that are in the map when they are reached. -/
def expireCalls (outside : Outside P ε) (now : Int) : List UInt64 → CallRegistry P →
    CallRegistry P × Except (CallError ε) Unit
  | [],       r => (r, .ok ())
  | id :: ids, r =>
    match r.get id with
    | none      => expireCalls outside now ids r
    | some call =>
      match expireCall outside now r call with
      | (r, .error e) => (r, .error e)
      | (r, .ok ())   => expireCalls outside now ids r

def expire (outside : Outside P ε) (r : CallRegistry P) (now : Int) : CallRegistry P × Except (CallError ε) Unit :=
  expireCalls outside now (r.calls.map StoredCall.id) (r.pruneTombstones now)

/-! ## The calls of a registry -/

structure SameCalls (r r' : CallRegistry P) : Prop where
  calls : r'.calls = r.calls
  sessions : r'.sessionCalls = r.sessionCalls
  incoming : r'.incomingCalls = r.incomingCalls

theorem SameCalls.refl (r : CallRegistry P) : SameCalls r r := ⟨rfl, rfl, rfl⟩

theorem SameCalls.trans {r r' r'' : CallRegistry P} (h : SameCalls r r') (h' : SameCalls r' r'') : SameCalls r r'' :=
  ⟨h'.calls.trans h.calls, h'.sessions.trans h.sessions, h'.incoming.trans h.incoming⟩

variable {r r' : CallRegistry P}

theorem SameCalls.get (h : SameCalls r r') (id : UInt64) : r'.get id = r.get id := by
  unfold CallRegistry.get
  rw [h.calls]

theorem sameCalls_dropTombstones : ∀ (tombstones : List CallTombstone) (r : CallRegistry P),
    SameCalls r (tombstones.foldl dropTombstone r)
  | [],      r => SameCalls.refl r
  | t :: ts, r => by
    have hdrop : SameCalls r (r.dropTombstone t) := ⟨rfl, rfl, rfl⟩
    exact hdrop.trans (sameCalls_dropTombstones ts _)

theorem sameCalls_pruneTombstones (r : CallRegistry P) (now : Int) : SameCalls r (r.pruneTombstones now) := by
  have h := sameCalls_dropTombstones (r.tombstones.filter (fun t => decide (t.expiresAt ≤ now))) r
  exact ⟨h.calls, h.sessions, h.incoming⟩

theorem sameCalls_retire (r : CallRegistry P) (now : Int) (call : StoredCall P) (phoneCall : PhoneCallDiscarded)
    (pendingDelivery : Bool) : SameCalls (r.forget call) (r.retire now call phoneCall pendingDelivery) := by
  unfold retire
  refine SameCalls.trans ?_ (sameCalls_dropTombstones _ _)
  refine SameCalls.trans ?_ (sameCalls_pruneTombstones _ now)
  exact ⟨rfl, rfl, rfl⟩

variable {call : StoredCall P}

theorem get_of_mem (r : CallRegistry P) (hmem : call ∈ r.calls) : r.get call.id = some call := by
  obtain ⟨pre, post, hcalls⟩ := append_of_mem hmem
  have hdistinct := r.distinct
  rw [hcalls, map_append, map_cons, nodup_append] at hdistinct
  unfold CallRegistry.get
  rw [hcalls, find?_append, find?_eq_none.2, Option.none_or, find?_cons_of_pos (by simp)]
  intro c hc
  have hne := hdistinct.2.2 c.id (mem_map_of_mem hc) call.id mem_cons_self
  simpa using hne

theorem get_forget (r : CallRegistry P) (call : StoredCall P) (id : UInt64) :
    (r.forget call).get id = if id = call.id then none else r.get id := by
  unfold CallRegistry.get
  show (r.calls.filter _).find? _ = _
  rw [find?_filter]
  by_cases hid : id = call.id
  · rw [if_pos hid, find?_eq_none]
    intro c _
    simp [hid]
  · rw [if_neg hid]
    congr 1
    funext c
    by_cases hc : c.id = id
    · simp [hc, hid]
    · simp [hc]

theorem get_delivered (r : CallRegistry P) (id id' : UInt64) :
    (r.delivered id).get id' = (r.get id').map (fun c => if c.id = id then deliveredCall c else c) := by
  unfold CallRegistry.get delivered
  rw [find?_map]
  congr 2
  funext c
  dsimp only [Function.comp_apply]
  split <;> rfl

/-! ## Retired calls -/

structure Retired (r : CallRegistry P) (call : StoredCall P) : Prop where
  unknown : r.get call.id = none
  session : Maps.get r.sessionCalls call.platformSessionId ≠ some call.id
  incoming : ∀ digest, call.incomingCorrelationDigest = some digest → Maps.get r.incomingCalls digest ≠ some call.id

structure Shrinks (r r' : CallRegistry P) : Prop where
  unknown : ∀ id, r.get id = none → r'.get id = none
  session : ∀ key id, Maps.get r'.sessionCalls key = some id → Maps.get r.sessionCalls key = some id
  incoming : ∀ key id, Maps.get r'.incomingCalls key = some id → Maps.get r.incomingCalls key = some id

theorem Shrinks.trans {r r' r'' : CallRegistry P} (h : Shrinks r r') (h' : Shrinks r' r'') : Shrinks r r'' :=
  ⟨fun id hid => h'.unknown id (h.unknown id hid), fun key id hid => h.session key id (h'.session key id hid),
    fun key id hid => h.incoming key id (h'.incoming key id hid)⟩

theorem SameCalls.shrinks (h : SameCalls r r') : Shrinks r r' := by
  refine ⟨fun id hid => (h.get id).trans hid, fun key id hid => ?_, fun key id hid => ?_⟩
  · rwa [h.sessions] at hid
  · rwa [h.incoming] at hid

theorem Retired.shrinks (hretired : Retired r call) (h : Shrinks r r') :
    Retired r' call :=
  ⟨h.unknown _ hretired.unknown, fun hid => hretired.session (h.session _ _ hid),
    fun digest hdigest hid => hretired.incoming digest hdigest (h.incoming _ _ hid)⟩

theorem shrinks_delivered (r : CallRegistry P) (id : UInt64) : Shrinks r (r.delivered id) := by
  refine ⟨fun id' hid' => ?_, fun _ _ h => h, fun _ _ h => h⟩
  rw [get_delivered, hid', Option.map_none]

theorem get_of_get_delete {κ α : Type} [DecidableEq κ] {m : List (κ × α)} {k k' : κ} {v : α}
    (h : Maps.get (Maps.delete m k) k' = some v) : Maps.get m k' = some v := by
  rw [Maps.get_delete] at h
  split at h
  · cases h
  · exact h

theorem shrinks_forget (r : CallRegistry P) (call : StoredCall P) : Shrinks r (r.forget call) := by
  refine ⟨fun id hid => ?_, fun key id h => ?_, fun key id h => ?_⟩
  · rw [get_forget, hid, ite_self]
  · dsimp only [forget, release] at h
    split at h
    · exact get_of_get_delete h
    · exact h
  · dsimp only [forget, release] at h
    split at h
    · split at h
      · exact get_of_get_delete h
      · exact h
    · exact h

theorem retired_forget (r : CallRegistry P) (call : StoredCall P) : Retired (r.forget call) call := by
  refine ⟨by rw [get_forget, if_pos rfl], fun h => ?_, fun digest hdigest h => ?_⟩
  · dsimp only [forget, release] at h
    split at h
    · rw [Maps.get_delete, if_pos rfl] at h
      cases h
    · rename_i hother
      exact hother h
  · dsimp only [forget, release] at h
    rw [hdigest] at h
    dsimp only at h
    split at h
    · rw [Maps.get_delete, if_pos rfl] at h
      cases h
    · rename_i hother
      exact hother h

/-! ## What may fail of a call -/

def deliverable (outside : Outside P ε) (call : StoredCall P) : Bool :=
  call.pendingDelivery.all (fun phoneCall =>
    (publishCall outside call.id (.ongoing phoneCall) call.pendingDeliveryExcludeAuthKeyId).isOk)

def controllable (outside : Outside P ε) (call : StoredCall P) : Bool :=
  (controlPlatformCall outside call (discardOperation call)).isOk

def publishable (outside : Outside P ε) (call : StoredCall P) : Bool :=
  (publishCall outside call.id (.discarded (discardedOf call .missed 0)) none).isOk

/-- A call at which `expire` breaks off. -/
def failing (outside : Outside P ε) (now : Int) (call : StoredCall P) : Bool :=
  (redelivers now call && !deliverable outside call) ||
    (overdue now call && !(controllable outside call && publishable outside call))

theorem not_overdue_of_redelivers {now : Int} (h : redelivers now call = true) :
    overdue now call = false := by
  unfold redelivers at h
  unfold overdue
  simp only [Bool.and_eq_true, Bool.or_eq_true, decide_eq_true_eq] at h
  rcases h.2 with hactive | hdeadline
  · simp [hactive]
  · simp [hdeadline]

theorem deliverPending_cases (outside : Outside P ε) (r : CallRegistry P) (call : StoredCall P) :
    ((deliverPending outside r call).1 = r ∨ (deliverPending outside r call).1 = r.delivered call.id) ∧
      (deliverPending outside r call).2.isOk = deliverable outside call := by
  unfold deliverPending deliverable
  cases call.pendingDelivery with
  | none           => exact ⟨.inl rfl, rfl⟩
  | some phoneCall =>
    dsimp only [Option.all_some]
    cases publishCall outside call.id (.ongoing phoneCall) call.pendingDeliveryExcludeAuthKeyId with
    | error e => exact ⟨.inl rfl, rfl⟩
    | ok n    =>
      dsimp only
      split
      · exact ⟨.inr rfl, rfl⟩
      · exact ⟨.inl rfl, rfl⟩

/-- **What discarding a call that is there does**: an error of its control leaves it, an error of publishing does not. -/
theorem discard_cases (outside : Outside P ε) (r : CallRegistry P) (now : Int) (hget : r.get call.id = some call) :
    let x := discard outside r now call.platformSessionId call.id call.accessHash .missed 0 none
    (controllable outside call = true ∧ SameCalls (r.forget call) x.1 ∧ x.2.isOk = publishable outside call) ∨
      (controllable outside call = false ∧ SameCalls r x.1 ∧ x.2.isOk = false) := by
  have hpruned := sameCalls_pruneTombstones r now
  have hfound : ((r.pruneTombstones now).get call.id).filter
      (fun c => c.platformSessionId = call.platformSessionId ∧ c.accessHash = call.accessHash) = some call := by
    rw [hpruned.get, hget]
    simp
  have hforget : SameCalls (r.forget call) ((r.pruneTombstones now).forget call) := by
    refine ⟨?_, ?_, ?_⟩
    · show List.filter _ _ = List.filter _ _
      rw [hpruned.calls]
    · dsimp only [forget, release]
      rw [hpruned.sessions]
    · dsimp only [forget, release]
      rw [hpruned.incoming]
  dsimp only [discard]
  rw [if_neg (by decide), hfound]
  unfold controllable publishable
  dsimp only
  cases controlPlatformCall outside call (discardOperation call) with
  | error e => exact .inr ⟨rfl, hpruned, rfl⟩
  | ok u    =>
    refine .inl ⟨rfl, ?_⟩
    dsimp only
    cases publishCall outside call.id (.discarded (discardedOf call .missed 0)) none with
    | error e =>
      dsimp only
      exact ⟨hforget.trans (sameCalls_retire _ now call _ true), rfl⟩
    | ok n    =>
      dsimp only
      exact ⟨hforget.trans (sameCalls_retire _ now call _ _), rfl⟩

/-! ## A round of the loop -/

inductive Round (outside : Outside P ε) (now : Int) (r : CallRegistry P) (call : StoredCall P) :
    CallRegistry P × Except (CallError ε) Unit → Prop
  | kept {r' : CallRegistry P} {e : Except (CallError ε) Unit} (hsame : SameCalls r r')
    (hleft : ¬ (overdue now call = true ∧ controllable outside call = true)) (he : e.isOk = !failing outside now call) :
    Round outside now r call (r', e)
  | delivered {r' : CallRegistry P} {e : Except (CallError ε) Unit} (hsame : SameCalls (r.delivered call.id) r')
    (hleft : overdue now call = false) (he : e.isOk = !failing outside now call) : Round outside now r call (r', e)
  | discarded {r' : CallRegistry P} {e : Except (CallError ε) Unit} (hsame : SameCalls (r.forget call) r')
    (he : e.isOk = !failing outside now call) : Round outside now r call (r', e)

theorem round_expireCall (outside : Outside P ε) (now : Int) {r : CallRegistry P}
    (hget : r.get call.id = some call) : Round outside now r call (expireCall outside now r call) := by
  unfold expireCall
  by_cases hredelivers : redelivers now call = true
  · have hover := not_overdue_of_redelivers hredelivers
    have hpruned := sameCalls_pruneTombstones r now
    have hfailing : failing outside now call = !deliverable outside call := by simp [failing, hredelivers, hover]
    obtain ⟨hstate, hok⟩ := deliverPending_cases outside (r.pruneTombstones now) call
    rw [if_pos hredelivers]
    have hmaps : SameCalls r (deliverPending outside (r.pruneTombstones now) call).1 ∨
        SameCalls (r.delivered call.id) (deliverPending outside (r.pruneTombstones now) call).1 := by
      rcases hstate with hsame | hdelivered
      · rw [hsame]
        exact .inl hpruned
      · rw [hdelivered]
        refine .inr ⟨?_, hpruned.sessions, hpruned.incoming⟩
        show List.map _ _ = List.map _ _
        rw [hpruned.calls]
    generalize deliverPending outside (r.pruneTombstones now) call = x at hok hmaps
    obtain ⟨r', e⟩ := x
    have hround : ∀ e' : Except (CallError ε) Unit, e'.isOk = e.isOk → Round outside now r call (r', e') := by
      intro e' he'
      have he : e'.isOk = !failing outside now call := by rw [he', hfailing, Bool.not_not]; exact hok
      rcases hmaps with hsame | hsame
      · exact .kept hsame (by simp [hover]) he
      · exact .delivered hsame hover he
    cases e with
    | error e => exact hround _ rfl
    | ok u    =>
      dsimp only
      rw [if_neg (by simp [hover])]
      exact hround _ rfl
  · rw [if_neg hredelivers]
    dsimp only
    by_cases hover : overdue now call = true
    · rw [if_pos hover]
      have hfailing : failing outside now call = !(controllable outside call && publishable outside call) := by
        simp [failing, hredelivers, hover]
      have hcases := discard_cases outside r now hget
      dsimp only at hcases
      generalize discard outside r now call.platformSessionId call.id call.accessHash .missed 0 none = x at hcases
      obtain ⟨r', e⟩ := x
      have hround : ∀ e' : Except (CallError ε) Unit, e'.isOk = e.isOk → Round outside now r call (r', e') := by
        intro e' he'
        rcases hcases with ⟨hcontrol, hsame, hok⟩ | ⟨hcontrol, hsame, hok⟩
        · exact .discarded hsame (by rw [he', hok, hfailing, hcontrol, Bool.true_and, Bool.not_not])
        · exact .kept hsame (by simp [hcontrol]) (by rw [he', hok, hfailing, hcontrol]; rfl)
      cases e with
      | error e => exact hround _ rfl
      | ok u    => exact hround _ rfl
    · rw [if_neg hover]
      exact .kept (SameCalls.refl r) (by simp [hover]) (by simp [failing, hredelivers, hover, Except.isOk, Except.toBool])

variable {outside : Outside P ε} {now : Int} {r : CallRegistry P} {call : StoredCall P}
  {x : CallRegistry P × Except (CallError ε) Unit}

theorem Round.isOk (h : Round outside now r call x) : x.2.isOk = !failing outside now call := by
  cases h with
  | kept _ _ he      => exact he
  | delivered _ _ he => exact he
  | discarded _ he   => exact he

theorem Round.shrinks (h : Round outside now r call x) : Shrinks r x.1 := by
  cases h with
  | kept hsame _ _      => exact hsame.shrinks
  | delivered hsame _ _ => exact (shrinks_delivered r call.id).trans hsame.shrinks
  | discarded hsame _   => exact (shrinks_forget r call).trans hsame.shrinks

theorem Round.get_other (h : Round outside now r call x) {id : UInt64} (hne : id ≠ call.id) : x.1.get id = r.get id := by
  cases h with
  | kept hsame _ _      => exact hsame.get id
  | delivered hsame _ _ =>
    rw [hsame.get, get_delivered]
    cases hget : r.get id with
    | none   => rfl
    | some c =>
      have hc : c.id = id := by simpa using find?_some hget
      rw [Option.map_some, if_neg (by rw [hc]; exact hne)]
  | discarded hsame _   => rw [hsame.get, get_forget, if_neg hne]

theorem Round.retired (h : Round outside now r call x) (hover : overdue now call = true)
    (hcontrol : controllable outside call = true) : Retired x.1 call := by
  cases h with
  | kept _ hleft _      => exact absurd ⟨hover, hcontrol⟩ hleft
  | delivered _ hleft _ => rw [hleft] at hover; cases hover
  | discarded hsame _   => exact (retired_forget r call).shrinks hsame.shrinks

/-! ## The loop -/

theorem expireCalls_cons (outside : Outside P ε) (now : Int) {r : CallRegistry P}
    (hget : r.get call.id = some call) (ids : List UInt64) :
    (expireCalls outside now (call.id :: ids) r).1 =
      if failing outside now call then (expireCall outside now r call).1
      else (expireCalls outside now ids (expireCall outside now r call).1).1 := by
  rw [expireCalls, hget]
  dsimp only
  have hok := (round_expireCall outside now hget).isOk
  generalize expireCall outside now r call = x at hok ⊢
  obtain ⟨r', e⟩ := x
  cases e with
  | error e =>
    rw [if_pos (by simpa [Except.isOk, Except.toBool] using hok)]
  | ok u    =>
    rw [if_neg (by simpa [Except.isOk, Except.toBool] using hok)]

theorem shrinks_expireCalls (outside : Outside P ε) (now : Int) : ∀ (ids : List UInt64) (r : CallRegistry P),
    Shrinks r (expireCalls outside now ids r).1
  | [],        r => (SameCalls.refl r).shrinks
  | id :: ids, r => by
    cases hget : r.get id with
    | none      =>
      rw [expireCalls, hget]
      exact shrinks_expireCalls outside now ids r
    | some call =>
      have hid : call.id = id := by simpa using find?_some hget
      subst hid
      have hround := (round_expireCall outside now hget).shrinks
      rw [expireCalls_cons outside now hget]
      split
      · exact hround
      · exact hround.trans (shrinks_expireCalls outside now ids _)

/-- **A call is reached** when no call in front of it fails. -/
theorem retired_expireCalls (outside : Outside P ε) (now : Int) (hover : overdue now call = true)
    (hcontrol : controllable outside call = true) (ids : List UInt64) : ∀ (pre : List (StoredCall P)) (r : CallRegistry P),
    ((pre ++ [call]).map StoredCall.id).Nodup → (∀ c ∈ pre ++ [call], r.get c.id = some c) →
      (∀ b ∈ pre, failing outside now b = false) →
      Retired (expireCalls outside now (pre.map StoredCall.id ++ call.id :: ids) r).1 call
  | [],       r, _, hget, _ => by
    have hround := round_expireCall outside now (hget call mem_cons_self)
    have hretired := hround.retired hover hcontrol
    rw [map_nil, nil_append, expireCalls_cons outside now (hget call mem_cons_self)]
    split
    · exact hretired
    · exact hretired.shrinks (shrinks_expireCalls outside now ids _)
  | b :: pre, r, hdistinct, hget, hfine => by
    have hb := hget b mem_cons_self
    rw [cons_append, map_cons, nodup_cons] at hdistinct
    rw [map_cons, cons_append, expireCalls_cons outside now hb, hfine b mem_cons_self]
    refine retired_expireCalls outside now hover hcontrol ids pre _ hdistinct.2 (fun c hc => ?_)
      (fun c hc => hfine c (mem_cons_of_mem _ hc))
    have hne : c.id ≠ b.id := fun h => hdistinct.1 (h ▸ mem_map_of_mem hc)
    rw [(round_expireCall outside now hb).get_other hne]
    exact hget c (mem_cons_of_mem _ hc)

/-- **A call is not reached** when a call in front of it fails. -/
theorem get_expireCalls (outside : Outside P ε) (now : Int) (id : UInt64) (ids : List UInt64) :
    ∀ (pre : List (StoredCall P)) (r : CallRegistry P), (pre.map StoredCall.id).Nodup →
      (∀ c ∈ pre, r.get c.id = some c) → id ∉ pre.map StoredCall.id → (∃ b ∈ pre, failing outside now b = true) →
      (expireCalls outside now (pre.map StoredCall.id ++ ids) r).1.get id = r.get id
  | [],       _, _, _, _, hfails => by
    obtain ⟨b, hb, _⟩ := hfails
    cases hb
  | b :: pre, r, hdistinct, hget, hid, hfails => by
    have hb := hget b mem_cons_self
    rw [map_cons, nodup_cons] at hdistinct
    rw [map_cons, mem_cons, not_or] at hid
    have hother := (round_expireCall outside now hb).get_other hid.1
    rw [map_cons, cons_append, expireCalls_cons outside now hb]
    by_cases hfailing : failing outside now b = true
    · rw [if_pos hfailing]
      exact hother
    · rw [if_neg hfailing, ← hother]
      refine get_expireCalls outside now id ids pre _ hdistinct.2 (fun c hc => ?_) hid.2 ?_
      · have hne : c.id ≠ b.id := fun h => hdistinct.1 (h ▸ mem_map_of_mem hc)
        rw [(round_expireCall outside now hb).get_other hne]
        exact hget c (mem_cons_of_mem _ hc)
      · obtain ⟨c, hc, hcf⟩ := hfails
        rcases mem_cons.1 hc with rfl | hc
        · exact absurd hcf hfailing
        · exact ⟨c, hc, hcf⟩

/-- **Expiry reaches every overdue call whose control succeeds** exactly if no call remembered before it fails. -/
theorem retired_expire_iff (outside : Outside P ε) (r : CallRegistry P) (now : Int) :
    (∀ call ∈ r.calls, overdue now call = true → controllable outside call = true →
        Retired (expire outside r now).1 call) ↔
      ∀ pre call post, r.calls = pre ++ call :: post → overdue now call = true → controllable outside call = true →
        ∀ b ∈ pre, failing outside now b = false := by
  have hpruned := sameCalls_pruneTombstones r now
  have hsplit : ∀ pre call post, r.calls = pre ++ call :: post →
      (∀ c ∈ pre ++ [call], (r.pruneTombstones now).get c.id = some c) ∧ ((pre ++ [call]).map StoredCall.id).Nodup := by
    intro pre call post hcalls
    have hsub : List.Sublist (pre ++ [call]) r.calls := by
      rw [hcalls]
      exact List.Sublist.append_left (List.Sublist.cons_cons call (nil_sublist post)) pre
    refine ⟨fun c hc => ?_, r.distinct.sublist (hsub.map _)⟩
    rw [hpruned.get]
    exact r.get_of_mem (hsub.subset hc)
  unfold expire
  constructor
  · intro hall pre call post hcalls hover hcontrol b hb
    obtain ⟨hget, hdistinct⟩ := hsplit pre call post hcalls
    by_contra hfails
    have hretired := hall call (by rw [hcalls]; simp) hover hcontrol
    have hunknown := hretired.unknown
    rw [map_append, map_cons, map_nil, nodup_append] at hdistinct
    have hid : call.id ∉ pre.map StoredCall.id := fun h => hdistinct.2.2 _ h _ mem_cons_self rfl
    rw [hcalls, map_append, get_expireCalls outside now call.id _ pre _ hdistinct.1
      (fun c hc => hget c (mem_append_left _ hc)) hid ⟨b, hb, by simpa using hfails⟩,
      hget call (mem_append_right _ mem_cons_self)] at hunknown
    cases hunknown
  · intro hfine call hcall hover hcontrol
    obtain ⟨pre, post, hcalls⟩ := append_of_mem hcall
    obtain ⟨hget, hdistinct⟩ := hsplit pre call post hcalls
    rw [hcalls, map_append, map_cons]
    exact retired_expireCalls outside now hover hcontrol _ pre _ hdistinct hget (hfine pre call post hcalls hover hcontrol)

def ringing (id : UInt64) : StoredCall Unit :=
  { id, accessHash := id, platformSessionId := toString id, adminId := 1, participantId := 2, telegramRole := .recipient
    state := .requested, deadline := 10, platformControl := true }

/-- The control of the first of two overdue calls fails: the second call keeps its session. -/
theorem overdue_call_kept :
    let outside : Outside Unit Unit :=
      { control := fun id _ => if id = 1 then .error () else .ok (), publish := fun _ _ _ => .ok 1 }
    let r : CallRegistry Unit :=
      { calls := [ringing 1, ringing 2], sessionCalls := [("1", 1), ("2", 2)], distinct := by decide }
    overdue 20 (ringing 2) = true ∧ controllable outside (ringing 2) = true ∧
      Maps.get (expire outside r 20).1.sessionCalls "2" = some 2 := by
  decide

end CallRegistry

end CallExpiry
end Crossgram
