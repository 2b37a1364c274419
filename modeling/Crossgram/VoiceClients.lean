import Crossgram.Lib.Maps
import Crossgram.VoiceProvenance
import Mathlib.Data.List.Pairwise
/-!
# VoiceClients — clients of one worker, one after another (packages/bridge/src/voice/voice-worker-client.ts)

A client numbers its calls from one on, and so does the next.  A request reaches the worker at any time after it was
sent, and perhaps more than once.  Calls never mix when a request under an id that another client used last finds nothing
under it.
-/
namespace Crossgram
namespace Voice

open List
open VoiceIpc (FixedBytes Response DH_PUBLIC_BYTES)
open VoiceWorker

abbrev CallKey := List UInt16

deriving instance DecidableEq for Arrival

structure CallName where
  client : Nat
  key : CallKey
deriving DecidableEq

structure VoiceWorkerSocketClient where
  nextCallId : UInt64 := 0
  callIds : List (CallKey × UInt64) := []

namespace VoiceWorkerSocketClient

/-- `_nextId` -/
def takeId (next : UInt64) : Option UInt64 := if next.toNat ≥ 0xffffffffffffffff then none else some (next + 1)

/-- `_callId` -/
def callId (client : VoiceWorkerSocketClient) (key : CallKey) : Option (VoiceWorkerSocketClient × UInt64) :=
  if key = [] ∨ 128 < key.length then none
  else match Maps.get client.callIds key with
    | some callId => some (client, callId)
    | none        =>
      match takeId client.nextCallId with
      | none        => none
      | some callId => some ({ nextCallId := callId, callIds := Maps.set client.callIds key callId }, callId)

theorem takeId_toNat {next id : UInt64} (h : takeId next = some id) : id.toNat = next.toNat + 1 := by
  unfold takeId at h
  split at h
  · cases h
  · rename_i hlt
    cases h
    have hone : (1 : UInt64).toNat = 1 := rfl
    rw [UInt64.toNat_add, hone]
    omega

theorem callId_cases {client client' : VoiceWorkerSocketClient} {key : CallKey} {id : UInt64}
    (h : client.callId key = some (client', id)) : (Maps.get client.callIds key = some id ∧ client' = client) ∨
      (id.toNat = client.nextCallId.toNat + 1 ∧ client' = { nextCallId := id, callIds := Maps.set client.callIds key id }) := by
  unfold callId at h
  split at h
  · cases h
  · split at h
    · rename_i hget
      cases h
      exact .inl ⟨hget, rfl⟩
    · split at h
      · cases h
      · rename_i htaken
        cases h
        exact .inr ⟨takeId_toNat htaken, rfl⟩

/-- The end of `discardCall`. -/
def forget (client : VoiceWorkerSocketClient) (key : CallKey) : VoiceWorkerSocketClient :=
  { client with callIds := Maps.delete client.callIds key }

end VoiceWorkerSocketClient

/-- The worker, the client of the hour, what was sent to the worker and what it has served.  The ids that calls were
given, and the events that polls were answered with, are remembered for all clients. -/
structure CallRelay (β H P : Type) where
  worker : VoiceWorker β H P
  clientNo : Nat := 0
  client : VoiceWorkerSocketClient := {}
  given : List (CallName × UInt64) := []
  sent : List (CallName × VoiceIpc.Request) := []
  polled : List (CallName × UInt64 × UInt64) := []
  history : List (CallName × Arrival) := []

inductive RelayAction
  | newClient
  | callId (key : CallKey)
  /-- A request for a call, under an id the client gave it; an acknowledgement is of an event that was fetched for it. -/
  | send (key : CallKey) (request : VoiceIpc.Request)
  | forget (key : CallKey)
  | deliver (n : Nat) (now : Nanoseconds) (random : Option (FixedBytes DH_PUBLIC_BYTES))

def fetched (k : CallName) (request : VoiceIpc.Request) (response : Response) : List (CallName × UInt64 × UInt64) :=
  match request, response with
  | .pollEvent callId, .event eventId _ => [(k, callId, eventId)]
  | _,                 _                => []

theorem mem_fetched {k : CallName} {request : VoiceIpc.Request} {response : Response} {x : CallName × UInt64 × UInt64}
    (h : x ∈ fetched k request response) : ∃ callId eventId event, request = .pollEvent callId ∧
      response = .event eventId event ∧ x = (k, callId, eventId) := by
  unfold fetched at h
  split at h
  · exact ⟨_, _, _, rfl, rfl, mem_singleton.1 h⟩
  · cases h

def acknowledged? : VoiceIpc.Request → Option (UInt64 × UInt64)
  | .ackEvent callId eventId => some (callId, eventId)
  | _                        => none

def MaySend (polled : List (CallName × UInt64 × UInt64)) (k : CallName) (request : VoiceIpc.Request) : Prop :=
  ∀ event ∈ acknowledged? request, (k, event) ∈ polled

instance (polled : List (CallName × UInt64 × UInt64)) (k : CallName) (request : VoiceIpc.Request) :
    Decidable (MaySend polled k request) := Option.decidableForallMem (acknowledged? request)

namespace CallRelay

variable {β H P : Type} (B : MediaBackend β H P) (hashes : Hashes)

def start (backend : β) (ttl : Nanoseconds) : CallRelay β H P := { worker := withTtl backend ttl }

def step (r : CallRelay β H P) : RelayAction → Option (CallRelay β H P)
  | .newClient        => some { r with clientNo := r.clientNo + 1, client := {} }
  | .callId key       => (r.client.callId key).map (fun taken =>
      { r with client := taken.1, given := r.given ++ [(⟨r.clientNo, key⟩, taken.2)] })
  | .send key request =>
    if (⟨r.clientNo, key⟩, callIdOf request) ∈ r.given ∧ MaySend r.polled ⟨r.clientNo, key⟩ request then
      some { r with sent := r.sent ++ [(⟨r.clientNo, key⟩, request)] }
    else none
  | .forget key       => some { r with client := r.client.forget key }
  | .deliver n now random =>
    (r.sent[n]?).map (fun named =>
      let a : Arrival := { now, random, request := named.2 }
      let served := VoiceWorker.step B hashes r.worker a
      { r with
        worker := served.1
        polled := r.polled ++ fetched named.1 named.2 served.2
        history := r.history ++ [(named.1, a)] })

/-- **A request finds nothing of another client**: when its id was last used by another client, the worker, what has expired
being dropped, has no state, record or event under it. -/
def FindsNothing (r : CallRelay β H P) : RelayAction → Prop
  | .deliver n now _ => ∀ k request, r.sent[n]? = some (k, request) →
      ∀ k', lastUser r.history (callIdOf request) = some k' → k'.client ≠ k.client →
        ¬ Holds (VoiceWorker.settle B r.worker now request) (callIdOf request)
  | _ => True

instance (r : CallRelay β H P) : ∀ action, Decidable (FindsNothing B r action)
  | .deliver n now _ =>
    decidable_of_iff (∀ named ∈ r.sent[n]?, ∀ k' ∈ lastUser r.history (callIdOf named.2), k'.client ≠ named.1.client →
        ¬ Holds (VoiceWorker.settle B r.worker now named.2) (callIdOf named.2))
      ⟨fun h k request hsent k' hlast => h (k, request) hsent k' hlast, fun h _ hsent k' hlast => h _ _ hsent k' hlast⟩
  | .newClient => .isTrue trivial
  | .callId _  => .isTrue trivial
  | .send _ _  => .isTrue trivial
  | .forget _  => .isTrue trivial

end CallRelay

/-! ## Numbers of events -/

section Numbers

variable {β H P κ : Type} (B : MediaBackend β H P) (hashes : Hashes) (start : VoiceWorker β H P)

def Answered (history : List (κ × Arrival)) (k : κ) (callId eventId : UInt64) : Prop :=
  ∃ before b rest event, history = before ++ (k, b) :: rest ∧ b.request = .pollEvent callId ∧
    (VoiceWorker.step B hashes (after B hashes start before) b).2 = .event eventId event

variable {B hashes start} {history rest : List (κ × Arrival)} {k k' : κ} {a : Arrival} {callId eventId : UInt64}

theorem Answered.append (h : Answered B hashes start history k callId eventId) :
    Answered B hashes start (history ++ rest) k callId eventId := by
  obtain ⟨before, b, later, event, rfl, hb⟩ := h
  exact ⟨before, b, later ++ rest, event, by rw [append_assoc, cons_append], hb⟩

theorem append_singleton_split {α : Type} {l before rest : List α} {x y : α} (h : l ++ [x] = before ++ y :: rest) :
    (before = l ∧ y = x ∧ rest = []) ∨ ∃ later, rest = later ++ [x] ∧ l = before ++ y :: later := by
  rcases eq_nil_or_concat rest with rfl | ⟨later, z, rfl⟩
  · obtain ⟨rfl, hlast⟩ := append_inj' h rfl
    exact .inl ⟨rfl, (singleton_inj.1 hlast).symm, rfl⟩
  · rw [concat_eq_append, ← cons_append, ← append_assoc] at h
    obtain ⟨hl, hlast⟩ := append_inj' h rfl
    exact .inr ⟨later, by rw [concat_eq_append, singleton_inj.1 hlast], hl⟩

theorem answered_append (h : Answered B hashes start (history ++ [(k, a)]) k' callId eventId) :
    Answered B hashes start history k' callId eventId ∨
      (k' = k ∧ a.request = .pollEvent callId ∧
        ∃ event, (VoiceWorker.step B hashes (after B hashes start history) a).2 = .event eventId event) := by
  obtain ⟨before, b, later, event, hsplit, hrequest, hreply⟩ := h
  rcases append_singleton_split hsplit with ⟨rfl, hsame, -⟩ | ⟨later', rfl, rfl⟩
  · cases hsame
    exact .inr ⟨rfl, hrequest, event, hreply⟩
  · exact .inl ⟨before, b, later', event, rfl, hrequest, hreply⟩

variable (B hashes start) [DecidableEq κ]

structure Numbered (history : List (κ × Arrival)) : Prop where
  ordered : (after B hashes start history).queue.Ordered
  unique : UniqueIds (after B hashes start history).queue
  below : ∀ k callId eventId, Answered B hashes start history k callId eventId →
    eventId.toNat < (after B hashes start history).nextEventId.toNat
  waiting : ∀ k callId eventId, Answered B hashes start history k callId eventId →
    ∀ e ∈ (after B hashes start history).events, e.id = eventId → lastUser history e.callId = some k
  owner : ∀ k k' callId callId' eventId, Answered B hashes start history k callId eventId →
    Answered B hashes start history k' callId' eventId → k = k'
  acked : ∀ callId eventId, (after B hashes start history).lastAckedEvent = some (callId, eventId) →
    ∃ k, ∃ b ∈ ofCall k history, b.request = .ackEvent callId eventId

variable {B hashes start} {q q' : EventQueue}

theorem acked_moves (hm : QueueMoves q q') : q'.acked = q.acked ∨ q'.acked = none := by
  induction hm with
  | refl => exact .inl rfl
  | tail _ hstep ih =>
    cases hstep with
    | clear => exact .inr rfl
    | fail => exact .inr rfl
    | _ => exact ih

theorem uniqueIds_queueStep {state : CallState} {request : VoiceIpc.Request}
    (h : QueueStep state request q q') (hq : UniqueIds q) (hordered : q.Ordered) (hlast : ¬ IsLastId q'.next) :
    UniqueIds q' := by
  cases h with
  | moved hmoves => exact uniqueIds_moves hq hordered hmoves hlast
  | @started q₁ c hmoves _ _ _ heq =>
    rw [heq] at hlast ⊢
    have hunique : UniqueIds q₁ := uniqueIds_moves hq hordered hmoves hlast
    exact hunique
  | @acked q₁ event events hmoves hevents _ heq =>
    rw [heq] at hlast ⊢
    have hunique : UniqueIds q₁ := uniqueIds_moves hq hordered hmoves hlast
    intro e he e' he' hid
    exact hunique e (hevents ▸ mem_cons_of_mem _ he) e' (hevents ▸ mem_cons_of_mem _ he') hid

theorem acked_queueStep {state : CallState} {request : VoiceIpc.Request} (h : QueueStep state request q q')
    (hacked : q'.acked = some (callId, eventId)) : q.acked = some (callId, eventId) ∨ request = .ackEvent callId eventId := by
  have hkept : ∀ {q₁ : EventQueue}, QueueMoves q q₁ → q₁.acked = some (callId, eventId) → q.acked = some (callId, eventId) := by
    intro q₁ hmoves hq₁
    rcases acked_moves hmoves with hsame | hnone
    · rw [← hsame]
      exact hq₁
    · rw [hnone] at hq₁
      cases hq₁
  cases h with
  | moved hmoves => exact .inl (hkept hmoves hacked)
  | @started q₁ c hmoves _ _ _ heq =>
    rw [heq] at hacked
    have hacked : q₁.acked = some (callId, eventId) := hacked
    exact .inl (hkept hmoves hacked)
  | @acked q₁ event events hmoves _ hrequest heq =>
    rw [heq] at hacked
    cases hacked
    exact .inr hrequest

/-- **A request keeps the numbers apart.** -/
theorem Numbered.step (h : Numbered B hashes start history) (howned : Owned B hashes start history)
    (hfree : Holds (VoiceWorker.settle B (after B hashes start history) a.now a.request) (callIdOf a.request) →
      lastUser history (callIdOf a.request) = some k)
    (hlast : ¬ IsLastId (VoiceWorker.step B hashes (after B hashes start history) a).1.nextEventId) :
    Numbered B hashes start (history ++ [(k, a)]) := by
  have hqueue : QueueStep (after B hashes start history).state a.request (after B hashes start history).queue
      (VoiceWorker.step B hashes (after B hashes start history) a).1.queue := queueStep_step howned.ledger
  have hordered := ordered_step h.ordered howned.ledger hlast
  have hunique := uniqueIds_queueStep hqueue h.unique h.ordered hlast
  have hmine : lastUser (history ++ [(k, a)]) (callIdOf a.request) = some k := by rw [lastUser_append, if_pos rfl]
  have hsettled : (after B hashes start history).nextEventId.toNat ≤
      (VoiceWorker.settle B (after B hashes start history) a.now a.request).nextEventId.toNat :=
    (next_moves (queueMoves_settle B howned.ledger)).1
  obtain ⟨q₁, hfrom, hnext, -, hleft⟩ := howned.came_both (k := k) (a := a)
  have hgrows : (after B hashes start history).nextEventId.toNat ≤
      (VoiceWorker.step B hashes (after B hashes start history) a).1.nextEventId.toNat := by
    rw [hnext]
    exact Nat.le_trans hsettled hfrom.next
  -- an event that was given away before waits since then
  have hold : ∀ k' callId eventId, Answered B hashes start history k' callId eventId →
      ∀ e ∈ (VoiceWorker.step B hashes (after B hashes start history) a).1.events, e.id = eventId →
        lastUser (history ++ [(k, a)]) e.callId = some k' := by
    intro k' callId eventId hanswered e he hid
    have hlt := h.below k' callId eventId hanswered
    obtain ⟨he₁, -⟩ := hleft e he
    obtain ⟨_, -, hevents⟩ := hfrom.events
    have hwaits : e ∈ (VoiceWorker.settle B (after B hashes start history) a.now a.request).events := by
      rcases hevents e he₁ with hwaits | ⟨-, hnew, -⟩
      · exact hwaits
      · have hnew : (VoiceWorker.settle B (after B hashes start history) a.now a.request).nextEventId.toNat ≤ e.id.toNat := hnew
        rw [hid] at hnew
        omega
    have hbefore : e ∈ (after B hashes start history).events := by
      have hmoves : EventsFrom (after B hashes start history).queue
          (VoiceWorker.settle B (after B hashes start history) a.now a.request).queue := .of_moves (queueMoves_settle B howned.ledger)
      obtain ⟨_, -, hsettledEvents⟩ := hmoves.events
      rcases hsettledEvents e hwaits with hbefore | ⟨-, hnew, -⟩
      · exact hbefore
      · have hnew : (after B hashes start history).nextEventId.toNat ≤ e.id.toNat := hnew
        rw [hid] at hnew
        omega
    have huser := h.waiting k' callId eventId hanswered e hbefore hid
    rw [lastUser_append]
    split
    · rename_i hsame
      have hfound := hfree (.inr (.inr ⟨e, hwaits, hsame.symm⟩))
      rw [hsame] at hfound
      rw [← hfound, huser]
    · exact huser
  have hnew : ∀ callId eventId, a.request = .pollEvent callId →
      (∃ event, (VoiceWorker.step B hashes (after B hashes start history) a).2 = .event eventId event) →
      ∃ e ∈ (VoiceWorker.step B hashes (after B hashes start history) a).1.events,
        e.id = eventId ∧ lastUser (history ++ [(k, a)]) e.callId = some k := by
    rintro callId eventId ha ⟨event, hreply⟩
    obtain ⟨e, hfind, hid, -⟩ := step_pollEvent ha howned.ledger howned.remembered hreply
    have hcall := find?_some hfind
    have hcall : e.callId = callId := of_decide_eq_true hcall
    refine ⟨e, mem_of_find?_eq_some hfind, hid, ?_⟩
    rw [hcall, ← hmine, ha]
    rfl
  refine ⟨?_, ?_, ?_, ?_, ?_, ?_⟩
  · rw [after_append]
    exact hordered
  · rw [after_append]
    exact hunique
  · rw [after_append]
    intro k' callId eventId hanswered
    rcases answered_append hanswered with hanswered | ⟨-, ha, hreply⟩
    · exact Nat.lt_of_lt_of_le (h.below k' callId eventId hanswered) hgrows
    · obtain ⟨e, he, rfl, -⟩ := hnew callId eventId ha hreply
      exact hordered.below e he
  · rw [after_append]
    intro k' callId eventId hanswered e he hid
    rcases answered_append hanswered with hanswered | ⟨rfl, ha, hreply⟩
    · exact hold k' callId eventId hanswered e he hid
    · obtain ⟨e', he', hid', huser⟩ := hnew callId eventId ha hreply
      rw [hunique e he e' he' (hid.trans hid'.symm)]
      exact huser
  · intro k₁ k₂ callId callId' eventId h₁ h₂
    rcases answered_append h₁ with hd₁ | ⟨hk₁, ha, hreply⟩ <;> rcases answered_append h₂ with hd₂ | ⟨hk₂, ha', hreply'⟩
    · exact h.owner k₁ k₂ callId callId' eventId hd₁ hd₂
    · obtain ⟨e, he, hid, huser⟩ := hnew callId' eventId ha' hreply'
      rw [hk₂]
      exact Option.some.inj ((hold k₁ callId eventId hd₁ e he hid).symm.trans huser)
    · obtain ⟨e, he, hid, huser⟩ := hnew callId eventId ha hreply
      rw [hk₁]
      exact Option.some.inj (huser.symm.trans (hold k₂ callId' eventId hd₂ e he hid))
    · rw [hk₁, hk₂]
  · rw [after_append]
    intro callId eventId hacked
    rcases acked_queueStep hqueue hacked with hbefore | hrequest
    · obtain ⟨k', b, hb, hrequest⟩ := h.acked callId eventId hbefore
      exact ⟨k', b, ofCall_subset hb, hrequest⟩
    · exact ⟨k, a, mem_ofCall.2 (mem_append_right _ (mem_singleton_self _)), hrequest⟩

theorem VoiceWorker.Owned.user (h : Owned B hashes start history)
    (hholds : Holds (VoiceWorker.settle B (after B hashes start history) a.now a.request) (callIdOf a.request)) :
    ∃ k, lastUser history (callIdOf a.request) = some k := by
  have hsettled : ViewOwned B hashes start history (VoiceWorker.settle B (after B hashes start history) a.now a.request).view :=
    h.view.moves (view_settle B)
  rcases hholds with hid | ⟨replay, hreplay, hid⟩ | ⟨e, he, hid⟩
  · obtain ⟨k, hlast, -⟩ := hsettled.state _ hid
    exact ⟨k, hlast⟩
  · obtain ⟨k, hlast, -⟩ := hsettled.recent replay hreplay
    exact ⟨k, hid ▸ hlast⟩
  · have hmoves : EventsFrom (after B hashes start history).queue
        (VoiceWorker.settle B (after B hashes start history) a.now a.request).queue := .of_moves (queueMoves_settle B h.ledger)
    obtain ⟨_, -, hevents⟩ := hmoves.events
    rcases hevents e he with hold | ⟨hactive, -⟩
    · obtain ⟨k, hlast, -⟩ := h.events e hold
      exact ⟨k, hid ▸ hlast⟩
    · obtain ⟨k, hlast, -⟩ := h.view.state _ (callId?_of_activeId? hactive)
      exact ⟨k, hid ▸ hlast⟩

end Numbers

/-! ## Runs -/

def DrawsApart {κ : Type} (history : List (κ × Arrival)) : Prop :=
  history.Pairwise (fun n n' => ∀ bytes, n.2.random = some bytes → n'.2.random ≠ some bytes)

/-- **Calls never mix**: what a request meets, leaves and gets is of its call; an event is given to one call only; an
acknowledgement that is answered again was that call's; and with the draws apart no two calls are given one secret. -/
structure NeverMix {β H P κ : Type} [DecidableEq κ] (B : MediaBackend β H P) (hashes : Hashes)
    (start : VoiceWorker β H P) (history : List (κ × Arrival)) : Prop where
  served : ∀ before k a rest, history = before ++ (k, a) :: rest → ServedOwn B hashes start before k a
  events : ∀ k k' callId callId' eventId, Answered B hashes start history k callId eventId →
    Answered B hashes start history k' callId' eventId → k = k'
  acks : ∀ before k a rest callId eventId, history = before ++ (k, a) :: rest → a.request = .ackEvent callId eventId →
    (VoiceWorker.settle B (after B hashes start before) a.now a.request).lastAckedEvent = some (callId, eventId) →
      ∃ b ∈ ofCall k before, b.request = .ackEvent callId eventId
  secrets : DrawsApart history → ∀ before k a rest before' k' a' rest', history = before ++ (k, a) :: rest →
    history = before' ++ (k', a') :: rest' → k ≠ k' → ∀ secret,
      (after B hashes start (before ++ [(k, a)])).state.callId? = some (callIdOf a.request) →
      (after B hashes start (before ++ [(k, a)])).state.secret? = some secret →
      (after B hashes start (before' ++ [(k', a')])).state.callId? = some (callIdOf a'.request) →
      (after B hashes start (before' ++ [(k', a')])).state.secret? ≠ some secret

theorem VoiceWorker.ServedOwn.drawn {β H P κ : Type} [DecidableEq κ] {B : MediaBackend β H P} {hashes : Hashes}
    {start : VoiceWorker β H P} {before rest : List (κ × Arrival)} {k : κ} {a : Arrival} {secret : DhPrivate} (h : ServedOwn B hashes start before k a)
    (hid : (after B hashes start (before ++ [(k, a)])).state.callId? = some (callIdOf a.request))
    (hsecret : (after B hashes start (before ++ [(k, a)])).state.secret? = some secret) :
    ∃ b, (k, b) ∈ before ++ (k, a) :: rest ∧ b.random = some secret.bytes := by
  rw [after_append] at hid hsecret
  obtain ⟨b, hb, hrandom⟩ := (h.left.state hid).secret hsecret
  refine ⟨b, ?_, hrandom⟩
  rw [show before ++ (k, a) :: rest = (before ++ [(k, a)]) ++ rest by rw [append_assoc]; rfl]
  exact mem_append_left _ (mem_ofCall.1 hb)

theorem secrets_apart {β H P κ : Type} [DecidableEq κ] {B : MediaBackend β H P} {hashes : Hashes}
    {start : VoiceWorker β H P} {history : List (κ × Arrival)}
    (h : ∀ before k a rest, history = before ++ (k, a) :: rest → ServedOwn B hashes start before k a)
    (hapart : DrawsApart history) {before rest before' rest' : List (κ × Arrival)} {k k' : κ} {a a' : Arrival}
    (hsplit : history = before ++ (k, a) :: rest) (hsplit' : history = before' ++ (k', a') :: rest') (hne : k ≠ k')
    {secret : DhPrivate} (hid : (after B hashes start (before ++ [(k, a)])).state.callId? = some (callIdOf a.request))
    (hsecret : (after B hashes start (before ++ [(k, a)])).state.secret? = some secret)
    (hid' : (after B hashes start (before' ++ [(k', a')])).state.callId? = some (callIdOf a'.request)) :
    (after B hashes start (before' ++ [(k', a')])).state.secret? ≠ some secret := by
  intro hsecret'
  obtain ⟨b, hb, hrandom⟩ : ∃ b, (k, b) ∈ history ∧ b.random = some secret.bytes := by
    rw [hsplit]
    exact (h before k a rest hsplit).drawn hid hsecret
  obtain ⟨b', hb', hrandom'⟩ : ∃ b, (k', b) ∈ history ∧ b.random = some secret.bytes := by
    rw [hsplit']
    exact (h before' k' a' rest' hsplit').drawn hid' hsecret'
  have hsymm : Std.Symm (fun n n' : κ × Arrival => ∀ bytes, n.2.random = some bytes → n'.2.random ≠ some bytes) :=
    ⟨fun _ _ h bytes hy hx => h bytes hx hy⟩
  exact List.Pairwise.forall hapart hb hb' (fun heq => hne (congrArg Prod.fst heq)) _ hrandom hrandom'

namespace CallRelay

variable {β H P : Type} {B : MediaBackend β H P} {hashes : Hashes} {backend : β} {ttl : Nanoseconds} {r r' : CallRelay β H P}

structure Named (r : CallRelay β H P) : Prop where
  fresh : ∀ k id, (k, id) ∈ r.given →
    k.client < r.clientNo ∨ (k.client = r.clientNo ∧ id.toNat ≤ r.client.nextCallId.toNat)
  one : ∀ k k' id, (k, id) ∈ r.given → (k', id) ∈ r.given → k.client = k'.client → k = k'
  known : ∀ key id, Maps.get r.client.callIds key = some id → (⟨r.clientNo, key⟩, id) ∈ r.given
  sent : ∀ k request, (k, request) ∈ r.sent → (k, callIdOf request) ∈ r.given ∧ MaySend r.polled k request
  history : ∀ k a, (k, a) ∈ r.history → (k, callIdOf a.request) ∈ r.given

theorem Named.step {action : RelayAction} (h : Named r) (hstep : step B hashes r action = some r') : Named r' := by
  cases action with
  | newClient =>
    cases hstep
    refine ⟨fun k id hmem => ?_, h.one, fun _ _ hget => (nomatch hget), h.sent, h.history⟩
    dsimp only
    rcases h.fresh k id hmem with hlt | ⟨heq, -⟩ <;> exact .inl (by omega)
  | callId key =>
    obtain ⟨⟨client, id⟩, htaken, rfl⟩ := Option.map_eq_some_iff.1 hstep
    dsimp only at htaken ⊢
    have hsent : ∀ k request, (k, request) ∈ r.sent →
        (k, callIdOf request) ∈ r.given ++ [(⟨r.clientNo, key⟩, id)] ∧ MaySend r.polled k request :=
      fun k request hmem => ⟨mem_append_left _ (h.sent k request hmem).1, (h.sent k request hmem).2⟩
    have hhistory : ∀ k a, (k, a) ∈ r.history → (k, callIdOf a.request) ∈ r.given ++ [(⟨r.clientNo, key⟩, id)] :=
      fun k a hmem => mem_append_left _ (h.history k a hmem)
    rcases VoiceWorkerSocketClient.callId_cases htaken with ⟨hget, rfl⟩ | ⟨hid, rfl⟩
    · have hknown := h.known key id hget
      have hsub : ∀ n ∈ r.given ++ [(⟨r.clientNo, key⟩, id)], n ∈ r.given := by
        intro n hn
        rcases mem_append.1 hn with hn | hn
        · exact hn
        · rw [mem_singleton.1 hn]
          exact hknown
      exact ⟨fun k i hmem => h.fresh k i (hsub _ hmem), fun k k' i hmem hmem' => h.one k k' i (hsub _ hmem) (hsub _ hmem'),
        fun key' i hget' => mem_append_left _ (h.known key' i hget'), hsent, hhistory⟩
    · have hnew : ∀ k, (k, id) ∈ r.given → k.client ≠ r.clientNo := by
        intro k hmem hclient
        rcases h.fresh k id hmem with hlt | ⟨-, hle⟩ <;> omega
      refine ⟨fun k i hmem => ?_, fun k k' i hmem hmem' hclient => ?_, fun key' i hget => ?_, hsent, hhistory⟩
      · rcases mem_append.1 hmem with hmem | hmem
        · rcases h.fresh k i hmem with hlt | ⟨hclient, hle⟩
          · exact .inl hlt
          · exact .inr ⟨hclient, by dsimp only; omega⟩
        · cases mem_singleton.1 hmem
          exact .inr ⟨rfl, Nat.le_refl _⟩
      · rcases mem_append.1 hmem with hmem | hmem <;> rcases mem_append.1 hmem' with hmem' | hmem'
        · exact h.one k k' i hmem hmem' hclient
        · cases mem_singleton.1 hmem'
          exact absurd hclient (hnew k hmem)
        · cases mem_singleton.1 hmem
          exact absurd hclient.symm (hnew k' hmem')
        · cases mem_singleton.1 hmem
          cases mem_singleton.1 hmem'
          rfl
      · dsimp only at hget
        rw [Maps.get_set] at hget
        split at hget
        · rename_i hkey
          cases hget
          rw [hkey]
          exact mem_append_right _ (mem_singleton_self _)
        · exact mem_append_left _ (h.known key' i hget)
  | send key request =>
    unfold CallRelay.step at hstep
    dsimp only at hstep
    split at hstep
    · rename_i hmay
      cases hstep
      refine ⟨h.fresh, h.one, h.known, fun k request' hmem => ?_, h.history⟩
      rcases mem_append.1 hmem with hmem | hmem
      · exact h.sent k request' hmem
      · cases mem_singleton.1 hmem
        exact hmay
    · cases hstep
  | forget key =>
    cases hstep
    refine ⟨h.fresh, h.one, fun key' id hget => ?_, h.sent, h.history⟩
    have hget : Maps.get (Maps.delete r.client.callIds key) key' = some id := hget
    rw [Maps.get_delete] at hget
    split at hget
    · cases hget
    · exact h.known key' id hget
  | deliver n now random =>
    obtain ⟨⟨k, request⟩, hsent, rfl⟩ := Option.map_eq_some_iff.1 hstep
    refine ⟨h.fresh, h.one, h.known, fun k' request' hmem => ?_, fun k' a hmem => ?_⟩
    · obtain ⟨hgiven, hmay⟩ := h.sent k' request' hmem
      exact ⟨hgiven, fun event hevent => mem_append_left _ (hmay event hevent)⟩
    · rcases mem_append.1 hmem with hmem | hmem
      · exact h.history k' a hmem
      · cases mem_singleton.1 hmem
        exact (h.sent k request (mem_of_getElem? hsent)).1

structure Inv (B : MediaBackend β H P) (hashes : Hashes) (backend : β) (ttl : Nanoseconds) (r : CallRelay β H P) : Prop where
  worker : r.worker = after B hashes (withTtl backend ttl) r.history
  named : Named r
  polled : ∀ k callId eventId, (k, callId, eventId) ∈ r.polled →
    Answered B hashes (withTtl backend ttl) r.history k callId eventId
  owned : Owned B hashes (withTtl backend ttl) r.history
  served : ∀ before k a rest, r.history = before ++ (k, a) :: rest → ServedOwn B hashes (withTtl backend ttl) before k a
  fetched : ∀ before k a rest callId eventId, r.history = before ++ (k, a) :: rest → a.request = .ackEvent callId eventId →
    Answered B hashes (withTtl backend ttl) before k callId eventId
  numbered : ¬ IsLastId r.worker.nextEventId → Numbered B hashes (withTtl backend ttl) r.history ∧
    ∀ before k a rest callId eventId, r.history = before ++ (k, a) :: rest → a.request = .ackEvent callId eventId →
      (VoiceWorker.settle B (after B hashes (withTtl backend ttl) before) a.now a.request).lastAckedEvent = some (callId, eventId) →
        ∃ b ∈ ofCall k before, b.request = .ackEvent callId eventId

theorem Inv.free (h : Inv B hashes backend ttl r) {n : Nat} {now : Nanoseconds} {random : Option (FixedBytes DH_PUBLIC_BYTES)}
    {k : CallName} {request : VoiceIpc.Request} (hsent : r.sent[n]? = some (k, request))
    (hok : FindsNothing B r (.deliver n now random))
    (hholds : Holds (VoiceWorker.settle B (after B hashes (withTtl backend ttl) r.history) now request) (callIdOf request)) :
    lastUser r.history (callIdOf request) = some k := by
  obtain ⟨k', hlast⟩ := h.owned.user (a := ⟨now, random, request⟩) hholds
  obtain ⟨a, ha, hid⟩ := lastUser_mem hlast
  have hgiven := h.named.history k' a ha
  rw [hid] at hgiven
  have hmine := (h.named.sent k request (mem_of_getElem? hsent)).1
  by_cases hclient : k'.client = k.client
  · rw [← h.named.one k' k _ hgiven hmine hclient]
    exact hlast
  · rw [← h.worker] at hholds
    exact absurd hholds (hok k request hsent k' hlast hclient)

theorem Inv.start (backend : β) (ttl : Nanoseconds) : Inv B hashes backend ttl (start backend ttl) := by
  have hempty : ∀ {before rest : List (CallName × Arrival)} {n : CallName × Arrival}, [] ≠ before ++ n :: rest :=
    (append_ne_nil_of_right_ne_nil _ (cons_ne_nil _ _)).symm
  have hnever : ∀ {k callId eventId}, ¬ Answered B hashes (withTtl backend ttl) ([] : List (CallName × Arrival)) k callId eventId :=
    fun ⟨_, _, _, _, hsplit, _⟩ => hempty hsplit
  refine ⟨rfl, ?_, fun _ _ _ hmem => (nomatch hmem), ?_, fun _ _ _ _ hsplit => absurd hsplit hempty,
    fun _ _ _ _ _ _ hsplit => absurd hsplit hempty, fun _ => ⟨?_, fun _ _ _ _ _ _ hsplit => absurd hsplit hempty⟩⟩
  · exact ⟨fun _ _ hmem => (nomatch hmem), fun _ _ _ hmem => (nomatch hmem), fun _ _ hget => (nomatch hget),
      fun _ _ hmem => (nomatch hmem), fun _ _ hmem => (nomatch hmem)⟩
  · exact ⟨⟨fun _ hid => (nomatch hid), fun _ hc => (nomatch hc), fun _ hreplay => (nomatch hreplay)⟩,
      fun _ he => (nomatch he), fun _ hr => (nomatch hr), inv_start backend ttl⟩
  · exact ⟨⟨fun _ he => (nomatch he), fun _ _ hacked => (nomatch hacked), fun _ hr => (nomatch hr)⟩,
      fun _ he => (nomatch he), fun _ _ _ h => absurd h hnever, fun _ _ _ h => absurd h hnever,
      fun _ _ _ _ _ h => absurd h hnever, fun _ _ hacked => (nomatch hacked)⟩

theorem Inv.of_same (h : Inv B hashes backend ttl r) (hworker : r'.worker = r.worker) (hhistory : r'.history = r.history)
    (hpolled : r'.polled = r.polled) (hnamed : Named r') : Inv B hashes backend ttl r' := by
  refine ⟨?_, hnamed, ?_, ?_, ?_, ?_, ?_⟩
  · rw [hworker, hhistory, h.worker]
  · rw [hpolled, hhistory]
    exact h.polled
  · rw [hhistory]
    exact h.owned
  · rw [hhistory]
    exact h.served
  · rw [hhistory]
    exact h.fetched
  · rw [hworker, hhistory]
    exact h.numbered

/-- **What a delivery keeps.** -/
theorem Inv.deliver {n : Nat} {now : Nanoseconds} {random : Option (FixedBytes DH_PUBLIC_BYTES)} (h : Inv B hashes backend ttl r)
    (hok : FindsNothing B r (.deliver n now random)) (hstep : CallRelay.step B hashes r (.deliver n now random) = some r') :
    Inv B hashes backend ttl r' := by
  have hnamed := h.named.step hstep
  obtain ⟨⟨k, request⟩, hsent, rfl⟩ := Option.map_eq_some_iff.1 hstep
  dsimp only at hnamed ⊢
  obtain ⟨hgiven, hmay⟩ := h.named.sent k request (mem_of_getElem? hsent)
  have hfree := h.free hsent hok
  obtain ⟨howned, hserved⟩ := h.owned.step (a := ⟨now, random, request⟩) hfree
  have hfetched : ∀ callId eventId, request = .ackEvent callId eventId →
      Answered B hashes (withTtl backend ttl) r.history k callId eventId := by
    rintro callId eventId rfl
    exact h.polled k callId eventId (hmay _ rfl)
  refine ⟨?_, hnamed, fun k' callId eventId hmem => ?_, howned, fun before k' a rest hsplit => ?_,
    fun before k' a rest callId eventId hsplit ha => ?_, fun hlast => ?_⟩
  · rw [h.worker, after_append]
  · rcases mem_append.1 hmem with hmem | hmem
    · exact (h.polled k' callId eventId hmem).append
    · obtain ⟨callId', eventId', event, hrequest, hreply, hsame⟩ := mem_fetched hmem
      cases hsame
      rw [h.worker] at hreply
      exact ⟨r.history, _, [], event, rfl, hrequest, hreply⟩
  · rcases append_singleton_split hsplit with ⟨rfl, hsame, -⟩ | ⟨later, rfl, hbefore⟩
    · cases hsame
      exact hserved
    · exact h.served before k' a later hbefore
  · rcases append_singleton_split hsplit with ⟨rfl, hsame, -⟩ | ⟨later, rfl, hbefore⟩
    · cases hsame
      exact hfetched callId eventId ha
    · exact h.fetched before k' a later callId eventId hbefore ha
  · have hlast₀ : ¬ IsLastId r.worker.nextEventId := fun hl =>
      hlast ((PumpedCall.nextEventId_step (h.worker ▸ h.owned.ledger)).2 hl)
    obtain ⟨hnumbered, hacks⟩ := h.numbered hlast₀
    rw [h.worker] at hlast
    refine ⟨hnumbered.step h.owned hfree hlast, fun before k' a rest callId eventId hsplit ha hacked => ?_⟩
    rcases append_singleton_split hsplit with ⟨rfl, hsame, -⟩ | ⟨later, rfl, hbefore⟩
    · cases hsame
      have hbefore : (after B hashes (withTtl backend ttl) r.history).lastAckedEvent = some (callId, eventId) := by
        have hmoves : QueueMoves (after B hashes (withTtl backend ttl) r.history).queue
            (VoiceWorker.settle B (after B hashes (withTtl backend ttl) r.history) now request).queue := queueMoves_settle B h.owned.ledger
        rcases acked_moves hmoves with hsame | hnone
        · exact hsame.symm.trans hacked
        · exact absurd (hnone.symm.trans hacked) (fun hc => by cases hc)
      -- the acknowledgement that is remembered was of an event fetched for the same call
      obtain ⟨k', b, hb, hrequest⟩ := hnumbered.acked callId eventId hbefore
      obtain ⟨before, rest, hsplit⟩ := append_of_mem (mem_ofCall.1 hb)
      have hanswered : Answered B hashes (withTtl backend ttl) r.history k' callId eventId := by
        rw [hsplit]
        exact (h.fetched before k' b rest callId eventId hsplit hrequest).append
      rw [hnumbered.owner k k' callId callId eventId (hfetched callId eventId ha) hanswered]
      exact ⟨b, hb, hrequest⟩
    · exact hacks before k' a later callId eventId hbefore ha hacked

theorem Inv.step {action : RelayAction} (h : Inv B hashes backend ttl r) (hok : FindsNothing B r action)
    (hstep : CallRelay.step B hashes r action = some r') : Inv B hashes backend ttl r' := by
  have hnamed := h.named.step hstep
  cases action with
  | newClient =>
    cases hstep
    exact h.of_same rfl rfl rfl hnamed
  | callId key =>
    obtain ⟨taken, -, rfl⟩ := Option.map_eq_some_iff.1 hstep
    exact h.of_same rfl rfl rfl hnamed
  | send key request =>
    unfold CallRelay.step at hstep
    dsimp only at hstep
    split at hstep
    · cases hstep
      exact h.of_same rfl rfl rfl hnamed
    · cases hstep
  | forget key =>
    cases hstep
    exact h.of_same rfl rfl rfl hnamed
  | deliver n now random => exact h.deliver hok hstep

/-- **Calls of one client after another never mix** in a run whose requests find nothing of other clients. -/
theorem calls_never_mix (hr : Runs.Reachable (CallRelay.step B hashes) (FindsNothing B) (CallRelay.start backend ttl) r)
    (hlast : ¬ IsLastId r.worker.nextEventId) : NeverMix B hashes (withTtl backend ttl) r.history := by
  have h : Inv B hashes backend ttl r := hr.invariant (Inv.start backend ttl) (fun _ _ _ _ h hok hstep => h.step hok hstep)
  obtain ⟨hnumbered, hacks⟩ := h.numbered hlast
  exact ⟨h.served, hnumbered.owner, hacks, fun hapart _ _ _ _ _ _ _ _ hsplit hsplit' hne _ hid hsecret hid' =>
    secrets_apart h.served hapart hsplit hsplit' hne hid hsecret hid'⟩

/-! ## Two clients -/

def firstCall : CallName := ⟨0, [97]⟩
def secondCall : CallName := ⟨1, [98]⟩

/-- The requests of two clients: each prepares its first call, and the first one hangs up when `hangup` says so. -/
def twoClients (hangup : Bool) (later : Nanoseconds) : List RelayAction :=
  [.callId [97], .send [97] (.prepareCaller 1), .deliver 0 0 (some oneBytes)] ++
    (if hangup then [.send [97] (.hangup 1), .deliver 1 0 none] else []) ++
    [.newClient, .callId [98], .send [98] (.prepareCaller 1), .deliver (if hangup then 2 else 1) later (some middleValue)]

theorem calls_never_mix_later_client :
    ∃ r, Runs.Reachable (CallRelay.step quietBackend zeroHashes) (FindsNothing quietBackend) (CallRelay.start () CALL_TTL) r ∧
      r.history.map Prod.fst = [firstCall, firstCall, secondCall] ∧
      NeverMix quietBackend zeroHashes (withTtl () CALL_TTL) r.history := by
  have hrun : (Runs.run (fun r action => if decide (FindsNothing quietBackend r action) = true then
      CallRelay.step quietBackend zeroHashes r action else none) (CallRelay.start () CALL_TTL) (twoClients true CALL_TTL)).map
        (fun r => (r.history.map Prod.fst, r.worker.nextEventId)) = some ([firstCall, firstCall, secondCall], 1) := by
    decide +kernel
  obtain ⟨r, hr, hfacts⟩ := Option.map_eq_some_iff.1 hrun
  obtain ⟨hhistory, hnext⟩ := Prod.mk.inj hfacts
  have hreach : Runs.Reachable (CallRelay.step quietBackend zeroHashes) (FindsNothing quietBackend) (CallRelay.start () CALL_TTL) r :=
    Runs.reachable_of_tested_run (fun _ _ htest => of_decide_eq_true htest) .init hr
  refine ⟨r, hreach, hhistory, calls_never_mix hreach ?_⟩
  rw [hnext]
  unfold IsLastId
  decide

def firstPrepare : Arrival := ⟨0, some oneBytes, .prepareCaller 1⟩
def secondPrepare : Arrival := ⟨1, some middleValue, .prepareCaller 1⟩

/-- **The second client's call is given the secret of the first one's**: both are numbered 1, and the worker still has the
state of the first. -/
theorem second_client_meets_first_call :
    ∃ r, Runs.run (CallRelay.step quietBackend zeroHashes) (CallRelay.start () CALL_TTL) (twoClients false 1) = some r ∧
      r.history = [(firstCall, firstPrepare), (secondCall, secondPrepare)] ∧
      r.worker.state.secret?.map (fun secret => secret.bytes) = some oneBytes ∧
      ¬ NeverMix quietBackend zeroHashes (withTtl () CALL_TTL) r.history := by
  have hrun : (Runs.run (CallRelay.step quietBackend zeroHashes) (CallRelay.start () CALL_TTL) (twoClients false 1)).map
      (fun r => (r.history, r.worker.state.secret?.map (fun secret => secret.bytes))) =
        some ([(firstCall, firstPrepare), (secondCall, secondPrepare)], some oneBytes) := by
    decide +kernel
  obtain ⟨r, hr, hfacts⟩ := Option.map_eq_some_iff.1 hrun
  obtain ⟨hhistory, hsecret⟩ := Prod.mk.inj hfacts
  refine ⟨r, hr, hhistory, hsecret, fun h => ?_⟩
  have hserved := h.served [(firstCall, firstPrepare)] secondCall secondPrepare [] hhistory
  have hmet : (VoiceWorker.settle quietBackend (after quietBackend zeroHashes (withTtl () CALL_TTL) [(firstCall, firstPrepare)])
      secondPrepare.now secondPrepare.request).view.state.callId? = some (callIdOf secondPrepare.request) := by
    decide +kernel
  have hnone : ofCall secondCall [(firstCall, firstPrepare)] = [] := by decide +kernel
  exact (hserved.met.state hmet).ne_nil hnone

end CallRelay

end Voice
end Crossgram
