import Crossgram.Lib.Runs
import Crossgram.AuthKeyStore
/-!
# AuthKeyRaces — auth keys under way (packages/mtproto/src/service.ts, session/server-session.ts)

Remembering an API layer, binding a temporary key, revoking a key and adopting a stored one each await the store several
times, and every await lets the others run.  A step is one answer of the store, or the end of a call that others can see.
The store forgets a tombstone when a revocation finishes: what was read before it is then written as if it were new.
-/
namespace Crossgram

open List

/-- What `auth.bindTempAuthKey` reads of its request and its session: the session's own permanent key, once it has one,
and whether a key verifies the inner message. -/
structure BindTempAuthKey where
  permAuthKeyId : List UInt8
  permAuthKey : Option (List UInt8)
  tempAuthKey : List UInt8
  expiresAt : Int
  verifyBindInner : List UInt8 → Bool

inductive BindResult
  | boolTrue
  | error (errorCode : Nat) (errorMessage : String)

inductive AuthKeyCall
  | beginAuthKeyRevocation (authKeyId : List UInt8)
  | finishAuthKeyRevocation (authKeyId : List UInt8)
  | rememberApiLayer (authKeyId : List UInt8) (layer : Int)
  | bindTempAuthKey (req : BindTempAuthKey)
  | resumeStoredAuthKey (keyId : List UInt8)
  | adoptStoredAuthKey (keyId : List UInt8) (record : StoredAuthKey)

/-- Where a call stands: what it awaits next, with what it holds.  `since` is how many revocations had taken effect
(for `rememberSave`) or ended (for `authorize`) at its last read. -/
inductive AuthKeyTask
  | beginRevocation (authKeyId : List UInt8)
  | finishRevocation (authKeyId : List UInt8)
  | finished (authKeyId : List UInt8)
  | rememberGet (authKeyId : List UInt8) (layer : Int)
  | rememberSave (authKeyId : List UInt8) (record : StoredAuthKey) (since : Nat)
  | bindGet (req : BindTempAuthKey)
  | bindSave (req : BindTempAuthKey) (candidate : List UInt8) (own : Bool)
  | bindRevalidate (req : BindTempAuthKey) (candidate : List UInt8)
  | bound (result : BindResult)
  | resume (keyId : List UInt8)
  | adopt (keyId : List UInt8) (record : StoredAuthKey)
  | adoptPermanent (keyId permanentKeyId : List UInt8)
  | authorize (keyId permanentKeyId : List UInt8) (since : Nat)
  | done

/-- The store and the calls under way, with a log of the revocations that took effect in the store and one of those whose
`finishAuthKeyRevocation` has completed. -/
structure AuthKeyService where
  store : MemoryAuthKeyStore
  tasks : List AuthKeyTask
  finishes : List (List UInt8)
  completions : List (List UInt8)

namespace AuthKeyService

-- The id of a key, the tail of its digest.
variable (authKeyIdOf : List UInt8 → List UInt8)

def ofStore (store : MemoryAuthKeyStore) : AuthKeyService := { store := store, tasks := [], finishes := [], completions := [] }

/-! ## The steps of a call -/

/-- `_rememberApiLayer` after its read. -/
def rememberRead (authKeyId : List UInt8) (layer : Int) (stored : Option StoredAuthKey) (since : Nat) : AuthKeyTask :=
  match stored with
  | none        => .done
  | some stored =>
    if stored.permanentKeyId = none ∧ stored.apiLayer ≠ some layer then
      .rememberSave authKeyId { stored with apiLayer := some layer } since
    else .done

/-- `_handleBindTempAuthKey` once it has its candidate. -/
def bindCandidate (req : BindTempAuthKey) (candidate : List UInt8) (own : Bool) : AuthKeyTask :=
  if req.verifyBindInner candidate then .bindSave req candidate own
  else .bound (.error 400 "ENCRYPTED_MESSAGE_INVALID")

def bindStart (req : BindTempAuthKey) : AuthKeyTask :=
  match req.permAuthKey with
  | some own => if authKeyIdOf own = req.permAuthKeyId then bindCandidate req own true else .bindGet req
  | none     => .bindGet req

def bindRead (req : BindTempAuthKey) (storedPermanent : Option StoredAuthKey) : AuthKeyTask :=
  match storedPermanent with
  | none        => .bound (.error 400 "ENCRYPTED_MESSAGE_INVALID")
  | some stored =>
    if stored.permanentKeyId = none ∧ authKeyIdOf stored.key = req.permAuthKeyId then bindCandidate req stored.key false
    else .bound (.error 400 "ENCRYPTED_MESSAGE_INVALID")

def bindRecord (req : BindTempAuthKey) (candidate : List UInt8) : StoredAuthKey :=
  { key := req.tempAuthKey, permanentKeyId := some (authKeyIdOf candidate), expiresAt := some req.expiresAt, apiLayer := none }

def bindRevalidated (candidate : List UInt8) (revalidated : Option StoredAuthKey) : BindResult :=
  match revalidated with
  | none        => .error 401 "AUTH_KEY_UNREGISTERED"
  | some stored =>
    if stored.permanentKeyId = none ∧ stored.key = candidate then .boolTrue else .error 401 "AUTH_KEY_UNREGISTERED"

/-- `_resumeStoredAuthKey` after its read. -/
def resumeRead (keyId : List UInt8) (stored : Option StoredAuthKey) : AuthKeyTask :=
  match stored with
  | none        => .done
  | some record => .adopt keyId record

/-- `_adoptStoredAuthKey` after it has read the presented key once more. -/
def adoptRead (keyId : List UInt8) (record : StoredAuthKey) (stored : Option StoredAuthKey) (since : Nat) : AuthKeyTask :=
  match record.permanentKeyId, stored with
  | _,                   none           => .done
  | some permanentKeyId, some temporary =>
    if temporary.permanentKeyId = some permanentKeyId then .adoptPermanent keyId permanentKeyId else .done
  | none,                some permanent =>
    if permanent.permanentKeyId = none ∧ permanent.key = record.key then .authorize keyId keyId since else .done

def adoptPermanentRead (keyId permanentKeyId : List UInt8) (permanent : Option StoredAuthKey) (since : Nat) : AuthKeyTask :=
  match permanent with
  | none           => .done
  | some permanent => if permanent.permanentKeyId = none then .authorize keyId permanentKeyId since else .done

def start : AuthKeyCall → AuthKeyTask
  | .beginAuthKeyRevocation authKeyId  => .beginRevocation authKeyId
  | .finishAuthKeyRevocation authKeyId => .finishRevocation authKeyId
  | .rememberApiLayer authKeyId layer  => .rememberGet authKeyId layer
  | .bindTempAuthKey req               => bindStart authKeyIdOf req
  | .resumeStoredAuthKey keyId         => .resume keyId
  | .adoptStoredAuthKey keyId record   => .adopt keyId record

/-- The task's next step at `now`; `none` when it has ended. -/
def perform (s : AuthKeyService) (now : Int) : AuthKeyTask → Option (AuthKeyService × AuthKeyTask)
  | .beginRevocation authKeyId  => some ({ s with store := s.store.beginRevocation authKeyId }, .done)
  | .finishRevocation authKeyId =>
    some ({ s with
      store := (s.store.finishRevocation authKeyId).2
      finishes := s.finishes ++ [authKeyId] }, .finished authKeyId)
  | .finished authKeyId => some ({ s with completions := s.completions ++ [authKeyId] }, .done)
  | .rememberGet authKeyId layer =>
    let (stored, store) := s.store.get authKeyId now
    some ({ s with store := store }, rememberRead authKeyId layer stored s.finishes.length)
  | .rememberSave authKeyId record _ =>
    match s.store.save authKeyId record with
    | .ok store => some ({ s with store := store }, .done)
    | .error _  => some (s, .done)
  | .bindGet req =>
    let (stored, store) := s.store.get req.permAuthKeyId now
    some ({ s with store := store }, bindRead authKeyIdOf req stored)
  | .bindSave req candidate own =>
    match s.store.save (authKeyIdOf req.tempAuthKey) (bindRecord authKeyIdOf req candidate) with
    | .ok store => some ({ s with store := store }, if own then .bound .boolTrue else .bindRevalidate req candidate)
    | .error _  => some (s, .bound (.error 500 "INTERNAL"))
  | .bindRevalidate req candidate =>
    let (revalidated, store) := s.store.get req.permAuthKeyId now
    some ({ s with store := store }, .bound (bindRevalidated candidate revalidated))
  | .resume keyId =>
    let (stored, store) := s.store.get keyId now
    some ({ s with store := store }, resumeRead keyId stored)
  | .adopt keyId record =>
    let (stored, store) := s.store.get keyId now
    some ({ s with store := store }, adoptRead keyId record stored s.completions.length)
  | .adoptPermanent keyId permanentKeyId =>
    let (permanent, store) := s.store.get permanentKeyId now
    some ({ s with store := store }, adoptPermanentRead keyId permanentKeyId permanent s.completions.length)
  | .authorize _ _ _ => some (s, .done)
  | .bound _ => none
  | .done => none

inductive Action
  | call (c : AuthKeyCall)
  | advance (task : Nat) (now : Int)

def step (s : AuthKeyService) : Action → Option AuthKeyService
  | .call c           => some { s with tasks := s.tasks ++ [start authKeyIdOf c] }
  | .advance task now => (s.tasks[task]?).bind (fun t => (s.perform authKeyIdOf now t).map (fun (s', t') =>
    { s' with tasks := s.tasks.set task t' }))

/-! ## What a revoked key meets -/

/-- The step authorizes a session that presented `keyId` for the permanent key. -/
def Authorizes (s : AuthKeyService) (a : Action) (keyId permanentKeyId : List UInt8) : Prop :=
  ∃ task now since, a = .advance task now ∧ s.tasks[task]? = some (.authorize keyId permanentKeyId since)

/-- Nothing was revoked between a task's read and what it does with it: no revocation of its key took effect between
the layer writer's read and its save, unless a tombstone refuses the save; none was completed between the last read of an
adoption and its end; and a temporary key that is bound does not have the id of a revoked permanent key. -/
def Current (s : AuthKeyService) : AuthKeyTask → Prop
  | .rememberSave authKeyId record since =>
    Maps.has s.store.revoked (s.store.permanentId authKeyId record) = true ∨ authKeyId ∉ s.finishes.drop since
  | .bindSave req _ _ => authKeyIdOf req.tempAuthKey ∉ s.finishes
  | .authorize _ permanentKeyId since => permanentKeyId ∉ s.completions.drop since
  | _ => True

def Undisturbed (s : AuthKeyService) (a : Action) : Prop :=
  ∀ task now t, a = .advance task now → s.tasks[task]? = some t → Current authKeyIdOf s t

/-! ## The store -/

section Store

variable {store store' : MemoryAuthKeyStore} {id id' : List UInt8}

def Gone (store : MemoryAuthKeyStore) (id : List UInt8) : Prop := Maps.get store.keys (toHex id) = none

theorem toHex_ne (h : id ≠ id') : toHex id ≠ toHex id' := fun hc => h (Hex.ofBytes_injective hc)

theorem get_of_gone (h : Gone store id) (now : Int) : (store.get id now).1 = none := by
  unfold MemoryAuthKeyStore.get
  rw [Gone] at h
  simp only [h]
  split <;> rfl

theorem gone_get (h : Gone store id) (id' : List UInt8) (now : Int) : Gone (store.get id' now).2 id := by
  unfold MemoryAuthKeyStore.get
  simp only
  split
  · exact h
  · split
    · rw [Gone, Maps.get_delete, h, ite_self]
    · exact h

theorem gone_save {record : StoredAuthKey} (h : Gone store id) (hid : id ≠ id')
    (hsave : store.save id' record = .ok store') : Gone store' id := by
  unfold MemoryAuthKeyStore.save at hsave
  split at hsave
  · cases hsave
  · rw [← Except.ok.inj hsave, Gone, Maps.get_set, if_neg (toHex_ne hid)]
    exact h

theorem gone_filter {keys : List (String × StoredAuthKey)} {f : String × StoredAuthKey → Bool}
    (h : Maps.get keys (toHex id) = none) : Maps.get (keys.filter f) (toHex id) = none :=
  Maps.get_eq_none.2 (fun e he => Maps.get_eq_none.1 h e (mem_filter.1 he).1)

theorem gone_finishRevocation (h : Gone store id ∨ id = id') : Gone (store.finishRevocation id').2 id := by
  refine gone_filter ?_
  rw [Maps.get_delete]
  rcases h with h | rfl
  · rw [h, ite_self]
  · rw [if_pos rfl]

end Store

/-! ## The invariant -/

variable {authKeyIdOf} {s s' : AuthKeyService}

def Timely (s : AuthKeyService) : AuthKeyTask → Prop
  | .finished authKeyId => authKeyId ∈ s.finishes
  | .rememberSave authKeyId _ since => since ≤ s.finishes.length ∧ authKeyId ∉ s.finishes.take since
  | .authorize _ permanentKeyId since => since ≤ s.completions.length ∧ permanentKeyId ∉ s.completions.take since
  | _ => True

/-- **Revoked keys are gone.** -/
structure Revoked (s : AuthKeyService) : Prop where
  gone : ∀ id ∈ s.finishes, Gone s.store id
  completions : ∀ id ∈ s.completions, id ∈ s.finishes
  tasks : ∀ t ∈ s.tasks, Timely s t

/-- The logs of `s'` extend those of `s`. -/
def Extends (s s' : AuthKeyService) : Prop := s.finishes <+: s'.finishes ∧ s.completions <+: s'.completions

theorem Timely.extends {t : AuthKeyTask} (he : Extends s s') (h : Timely s t) : Timely s' t := by
  obtain ⟨⟨finishes, hf⟩, ⟨completions, hc⟩⟩ := he
  cases t with
  | finished authKeyId =>
    show authKeyId ∈ s'.finishes
    rw [← hf]
    exact mem_append_left _ h
  | rememberSave authKeyId record since =>
    show since ≤ s'.finishes.length ∧ authKeyId ∉ s'.finishes.take since
    rw [← hf, take_append_of_le_length h.1, length_append]
    exact ⟨Nat.le_add_right_of_le h.1, h.2⟩
  | authorize keyId permanentKeyId since =>
    show since ≤ s'.completions.length ∧ permanentKeyId ∉ s'.completions.take since
    rw [← hc, take_append_of_le_length h.1, length_append]
    exact ⟨Nat.le_add_right_of_le h.1, h.2⟩
  | _ => trivial

variable {record : StoredAuthKey} {now : Int} {id : List UInt8}

/-- **A key the store returns has not been revoked.** -/
theorem Revoked.not_mem_of_get (h : Revoked s)
    (hget : (s.store.get id now).1 = some record) : id ∉ s.finishes := fun hid => by
  rw [get_of_gone (h.gone id hid) now] at hget
  cases hget

structure Kept (s s' : AuthKeyService) : Prop where
  gone : ∀ id ∈ s'.finishes, Gone s'.store id
  completions : ∀ id ∈ s'.completions, id ∈ s'.finishes
  logs : Extends s s'
  tasks : s'.tasks = s.tasks

theorem Revoked.get (h : Revoked s) (id : List UInt8) (now : Int) : Kept s { s with store := (s.store.get id now).2 } :=
  ⟨fun id' hid' => gone_get (h.gone id' hid') id now, h.completions, ⟨prefix_rfl, prefix_rfl⟩, rfl⟩

theorem Revoked.refl (h : Revoked s) : Kept s s := ⟨h.gone, h.completions, ⟨prefix_rfl, prefix_rfl⟩, rfl⟩

theorem Revoked.save (h : Revoked s) {store' : MemoryAuthKeyStore}
    (hid : id ∉ s.finishes) (hsave : s.store.save id record = .ok store') : Kept s { s with store := store' } :=
  ⟨fun id' hid' => gone_save (h.gone id' hid') (fun (hc : id' = id) => hid (hc ▸ hid')) hsave, h.completions,
    ⟨prefix_rfl, prefix_rfl⟩, rfl⟩

theorem timely_rememberRead (h : Revoked s) {layer now : Int} :
    Timely s (rememberRead id layer (s.store.get id now).1 s.finishes.length) := by
  cases hget : (s.store.get id now).1 with
  | none => trivial
  | some stored =>
    unfold rememberRead
    simp only
    split
    · refine ⟨Nat.le_refl _, ?_⟩
      rw [take_length]
      exact h.not_mem_of_get hget
    · trivial

theorem timely_authorize (h : Revoked s) {keyId id : List UInt8}
    (hget : (s.store.get id now).1 = some record) : Timely s (.authorize keyId id s.completions.length) := by
  refine ⟨Nat.le_refl _, ?_⟩
  rw [take_length]
  exact fun hc => h.not_mem_of_get hget (h.completions id hc)

theorem timely_resumeRead {keyId : List UInt8} {stored : Option StoredAuthKey} : Timely s (resumeRead keyId stored) := by
  cases stored <;> trivial

theorem timely_adoptRead (h : Revoked s) {keyId : List UInt8} :
    Timely s (adoptRead keyId record (s.store.get keyId now).1 s.completions.length) := by
  cases hget : (s.store.get keyId now).1 with
  | none =>
    unfold adoptRead
    cases record.permanentKeyId <;> trivial
  | some stored =>
    unfold adoptRead
    cases record.permanentKeyId with
    | none =>
      simp only
      split
      · exact timely_authorize h hget
      · trivial
    | some permanentKeyId =>
      simp only
      split <;> trivial

theorem timely_adoptPermanentRead (h : Revoked s) {keyId id : List UInt8} :
    Timely s (adoptPermanentRead keyId id (s.store.get id now).1 s.completions.length) := by
  cases hget : (s.store.get id now).1 with
  | none => trivial
  | some permanent =>
    unfold adoptPermanentRead
    simp only
    split
    · exact timely_authorize h hget
    · trivial

theorem timely_bindCandidate {req : BindTempAuthKey} {candidate : List UInt8} {own : Bool} :
    Timely s (bindCandidate req candidate own) := by
  unfold bindCandidate
  split <;> trivial

theorem timely_start (c : AuthKeyCall) : Timely s (start authKeyIdOf c) := by
  cases c with
  | bindTempAuthKey req =>
    show Timely s (bindStart authKeyIdOf req)
    unfold bindStart
    split
    · split
      · exact timely_bindCandidate
      · trivial
    · trivial
  | _ => trivial

theorem timely_bindRead {req : BindTempAuthKey} {stored : Option StoredAuthKey} :
    Timely s (bindRead authKeyIdOf req stored) := by
  unfold bindRead
  split
  · trivial
  · split
    · exact timely_bindCandidate
    · trivial

/-- **One answer of the store keeps revoked keys gone.** -/
theorem perform_keeps {t t' : AuthKeyTask} (h : Revoked s) (ht : Timely s t) (hcurrent : Current authKeyIdOf s t)
    (hp : s.perform authKeyIdOf now t = some (s', t')) : Kept s s' ∧ Timely s' t' := by
  cases t with
  | beginRevocation id =>
    cases hp
    exact ⟨⟨h.gone, h.completions, ⟨prefix_rfl, prefix_rfl⟩, rfl⟩, trivial⟩
  | finishRevocation id =>
    cases hp
    refine ⟨⟨fun id' hid' => ?_, fun id' hid' => mem_append_left _ (h.completions id' hid'),
      ⟨prefix_append _ _, prefix_rfl⟩, rfl⟩, mem_append_right _ (mem_singleton.2 rfl)⟩
    rcases mem_append.1 hid' with hid' | hid'
    · exact gone_finishRevocation (.inl (h.gone id' hid'))
    · exact gone_finishRevocation (.inr (mem_singleton.1 hid'))
  | finished id =>
    cases hp
    refine ⟨⟨h.gone, fun id' hid' => ?_, ⟨prefix_rfl, prefix_append _ _⟩, rfl⟩, trivial⟩
    rcases mem_append.1 hid' with hid' | hid'
    · exact h.completions id' hid'
    · rw [mem_singleton.1 hid']
      exact ht
  | rememberGet id layer =>
    cases hp
    exact ⟨h.get id now, timely_rememberRead h⟩
  | rememberSave id record since =>
    unfold perform at hp
    simp only at hp
    split at hp
    · rename_i store' hsave
      cases hp
      refine ⟨h.save ?_ hsave, trivial⟩
      have hnot : ¬Maps.has s.store.revoked (s.store.permanentId id record) = true := fun hc => by
        unfold MemoryAuthKeyStore.save at hsave
        rw [if_pos hc] at hsave
        cases hsave
      have hdrop := hcurrent.resolve_left hnot
      intro hid
      rw [← take_append_drop since s.finishes] at hid
      rcases mem_append.1 hid with hid | hid
      · exact ht.2 hid
      · exact hdrop hid
    · cases hp
      exact ⟨h.refl, trivial⟩
  | bindGet req =>
    cases hp
    exact ⟨h.get _ now, timely_bindRead⟩
  | bindSave req candidate own =>
    unfold perform at hp
    simp only at hp
    split at hp
    · rename_i store' hsave
      cases hp
      refine ⟨h.save hcurrent hsave, ?_⟩
      cases own <;> trivial
    · cases hp
      exact ⟨h.refl, trivial⟩
  | bindRevalidate req candidate =>
    cases hp
    exact ⟨h.get _ now, trivial⟩
  | bound result => cases hp
  | resume keyId =>
    cases hp
    exact ⟨h.get _ now, timely_resumeRead⟩
  | adopt keyId record =>
    cases hp
    exact ⟨h.get _ now, timely_adoptRead h⟩
  | adoptPermanent keyId permanentKeyId =>
    cases hp
    exact ⟨h.get _ now, timely_adoptPermanentRead h⟩
  | authorize keyId permanentKeyId since =>
    cases hp
    exact ⟨h.refl, trivial⟩
  | done => cases hp

theorem revoked_step {a : Action} (h : Revoked s) (hok : Undisturbed authKeyIdOf s a)
    (hs : s.step authKeyIdOf a = some s') : Revoked s' := by
  cases a with
  | call c =>
    cases hs
    refine ⟨h.gone, h.completions, fun t ht => ?_⟩
    have hsame : Extends s { s with tasks := s.tasks ++ [start authKeyIdOf c] } := ⟨prefix_rfl, prefix_rfl⟩
    rcases mem_append.1 ht with ht | ht
    · exact (h.tasks t ht).extends hsame
    · rw [mem_singleton.1 ht]
      exact timely_start c
  | advance task now =>
    obtain ⟨t, ht, hs⟩ := Option.bind_eq_some_iff.1 hs
    obtain ⟨⟨s₁, t'⟩, hp, hs⟩ := Option.map_eq_some_iff.1 hs
    have htimely := h.tasks t (mem_of_getElem? ht)
    obtain ⟨hkept, ht'⟩ := perform_keeps h htimely (hok task now t rfl ht) hp
    subst hs
    have hsame : Extends s₁ { s₁ with tasks := s.tasks.set task t' } := ⟨prefix_rfl, prefix_rfl⟩
    refine ⟨hkept.gone, hkept.completions, fun t ht => ?_⟩
    rcases mem_or_eq_of_mem_set ht with ht | rfl
    · exact ((h.tasks t ht).extends hkept.logs).extends hsame
    · exact ht'.extends hsame

theorem revoked_ofStore {store : MemoryAuthKeyStore} : Revoked (ofStore store) :=
  ⟨fun _ hid => absurd hid not_mem_nil, fun _ hid => absurd hid not_mem_nil,
    fun _ ht => absurd ht not_mem_nil⟩

/-- **Undisturbed, a revoked key is not seen again**: in every run whose steps meet the condition, once a
`finishAuthKeyRevocation` has completed the store returns nothing for its key, and no session is authorized for it. -/
theorem undisturbed_revocation_final {store : MemoryAuthKeyStore}
    (h : Runs.Reachable (step authKeyIdOf) (Undisturbed authKeyIdOf) (ofStore store) s) :
    (∀ id ∈ s.completions, ∀ now, (s.store.get id now).1 = none) ∧
      ∀ a s', Undisturbed authKeyIdOf s a → s.step authKeyIdOf a = some s' →
        ∀ keyId permanentKeyId, Authorizes s a keyId permanentKeyId → permanentKeyId ∉ s.completions := by
  have hrevoked : Revoked s := h.invariant revoked_ofStore
    (fun _ _ _ _ hI hok hs => revoked_step hI hok hs)
  refine ⟨fun id hid now => get_of_gone (hrevoked.gone id (hrevoked.completions id hid)) now, ?_⟩
  rintro a s' hok - keyId permanentKeyId ⟨task, now, since, rfl, ht⟩ hc
  have htimely := hrevoked.tasks _ (mem_of_getElem? ht)
  have hcurrent := hok task now _ rfl ht
  rw [← take_append_drop since s.completions] at hc
  rcases mem_append.1 hc with hc | hc
  · exact htimely.2 hc
  · exact hcurrent hc

instance (t : AuthKeyTask) : Decidable (Current authKeyIdOf s t) := by
  cases t <;> unfold Current <;> infer_instance

/-- `Undisturbed`, tested. -/
def undisturbedNow (authKeyIdOf : List UInt8 → List UInt8) (s : AuthKeyService) : Action → Bool
  | .call _         => true
  | .advance task _ => (s.tasks[task]?).all (fun t => decide (Current authKeyIdOf s t))

theorem undisturbed_of_now (s : AuthKeyService) (a : Action) (h : undisturbedNow authKeyIdOf s a = true) :
    Undisturbed authKeyIdOf s a := by
  rintro task now t rfl ht
  rw [undisturbedNow, ht] at h
  exact of_decide_eq_true h

def rememberedAndRevoked : List Action :=
  [.call (.rememberApiLayer [1] 200), .call (.beginAuthKeyRevocation [1]), .call (.finishAuthKeyRevocation [1])]

def oneKey : AuthKeyService := ofStore { keys := [(toHex [1], ⟨[1, 2], none, none, some 100⟩)], revoked := [] }

def savedFirst : List Action :=
  rememberedAndRevoked ++ [.advance 0 0, .advance 0 0, .advance 1 0, .advance 2 0, .advance 2 0]

theorem saved_layer_revoked : ∃ s, Runs.Reachable (step (List.take 1)) (Undisturbed (List.take 1)) oneKey s ∧
    s.completions = [[1]] ∧ (s.store.get [1] 0).1 = none := by
  have hrun : (Runs.run (fun s a => if undisturbedNow (List.take 1) s a then step (List.take 1) s a else none) oneKey
      savedFirst).map (fun s => s.completions) = some [[1]] := by decide +kernel
  obtain ⟨s, hs, hcompletions⟩ := Option.map_eq_some_iff.1 hrun
  have hreach : Runs.Reachable (step (List.take 1)) (Undisturbed (List.take 1)) oneKey s :=
    Runs.reachable_of_tested_run undisturbed_of_now .init hs
  refine ⟨s, hreach, hcompletions, ?_⟩
  exact (undisturbed_revocation_final hreach).1 [1] (by rw [hcompletions]; decide) 0

def savedLast : List Action :=
  rememberedAndRevoked ++ [.advance 0 0, .advance 1 0, .advance 2 0, .advance 2 0, .advance 0 0,
    .call (.resumeStoredAuthKey [1]), .advance 3 0, .advance 3 0]

def authorizing : Option AuthKeyTask → Option (List UInt8 × List UInt8)
  | some (.authorize keyId permanentKeyId _) => some (keyId, permanentKeyId)
  | _ => none

/-- **A revoked key comes back**: the store returns it, and the session is authorized for it. -/
theorem remembered_layer_resurrects : ∃ s, Runs.Reachable (step (List.take 1)) (fun _ _ => True) oneKey s ∧
    s.completions = [[1]] ∧ (s.store.get [1] 0).1 = some ⟨[1, 2], none, none, some 200⟩ ∧
    Authorizes s (.advance 3 0) [1] [1] := by
  have hrun : (Runs.run (step (List.take 1)) oneKey savedLast).map (fun s =>
      (s.completions, (s.store.get [1] 0).1, authorizing s.tasks[3]?)) =
      some ([[1]], some ⟨[1, 2], none, none, some 200⟩, some ([1], [1])) := by decide +kernel
  obtain ⟨s, hs, hfacts⟩ := Option.map_eq_some_iff.1 hrun
  simp only [Prod.mk.injEq] at hfacts
  obtain ⟨hcompletions, hget, htask⟩ := hfacts
  refine ⟨s, Runs.reachable_of_run (fun _ _ _ => trivial) .init hs, hcompletions, hget, 3, 0, ?_⟩
  unfold authorizing at htask
  split at htask
  · rename_i keyId permanentKeyId since ht
    simp only [Option.some.injEq, Prod.mk.injEq] at htask
    rw [htask.1, htask.2] at ht
    exact ⟨since, rfl, ht⟩
  · cases htask

end AuthKeyService

end Crossgram
