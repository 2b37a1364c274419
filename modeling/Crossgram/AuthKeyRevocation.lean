import Crossgram.Lib.Runs
import Crossgram.AuthKeyStore
/-!
# AuthKeyRevocation — what a revocation leaves, whatever fails

A commit either leaves file and memory as they were or has put the new snapshot in place; memory follows the file in
every process that lives (`Settled`).  A revoked key is hidden by its tombstone until the snapshot without its records is
in place, so it stays hidden in every state in between.
-/
namespace Crossgram

open Maps List Triples

namespace FileAuthKeyStore

/-! ## What a commit leaves -/

section Commit

def Of (R : AuthKeyFile → FileAuthKeyStore → Prop) (p : Process) : Prop := R p.file p.store

def Plain (e : Interruption) : Prop := e = .threw .fileSystem ∨ e = .died

variable {R : AuthKeyFile → FileAuthKeyStore → Prop}

theorem nextOutcome_of {E : Interruption → Process → Prop} : Triple (Of R) nextOutcome (fun _ => Of R) E := fun _ hp => hp

theorem fileSystemCall_of : Triple (Of R) fileSystemCall (fun _ => Of R) (fun e p => Of R p ∧ Plain e) := by
  refine Triple.bind nextOutcome_of (fun outcome => ?_)
  cases outcome with
  | completes => exact Triple.pure (fun _ hp => hp)
  | fails => exact Triple.throw (fun _ hp => ⟨hp, .inl rfl⟩)
  | diesBefore => exact Triple.throw (fun _ hp => ⟨hp, .inr rfl⟩)
  | diesAfter => exact Triple.throw (fun _ hp => ⟨hp, .inr rfl⟩)

theorem syncPath_of : Triple (Of R) syncPath (fun _ => Of R) (fun e p => Of R p ∧ Plain e) := by
  refine Triple.bind fileSystemCall_of (fun _ => ?_)
  refine Triple.bind (Q := fun e p => Of R p ∧ ∀ e', e = some e' → Plain e') ?_ (fun e => ?_)
  · refine Triple.tryCatch (Triple.bind fileSystemCall_of (fun _ => Triple.pure (fun _ hp => ⟨hp, nofun⟩))) (fun e => ?_)
    refine Triple.pure (fun _ hp => ⟨hp.1, fun e' he => ?_⟩)
    rw [← Option.some.inj he]
    exact hp.2
  · rcases e with _ | e
    · exact fileSystemCall_of.weaken (fun _ hp => hp.1) (fun _ _ hp => hp) (fun _ _ hp => hp)
    · cases e with
      | died => exact Triple.throw (fun _ hp => ⟨hp.1, .inr rfl⟩)
      | threw error =>
        refine Triple.bind (Q := fun _ => Of (fun f s => R f s ∧ Plain (.threw error))) ?_ (fun _ => ?_)
        · exact (fileSystemCall_of (R := fun f s => R f s ∧ Plain (.threw error))).weaken
            (fun _ hp => ⟨hp.1, hp.2 _ rfl⟩) (fun _ _ hp => hp) (fun _ _ hp => ⟨hp.1.1, hp.2⟩)
        · exact Triple.throw (fun _ hp => hp)

theorem renameSync_of (file : AuthKeyFile) : Triple (Of R) (renameSync file) (fun _ p => p.file = file)
    (fun e p => Of R p ∧ Plain e ∨ p.file = file ∧ e = .died) := by
  refine Triple.bind nextOutcome_of (fun outcome => ?_)
  cases outcome with
  | completes => exact Triple.modify (fun _ _ => rfl)
  | fails => exact Triple.throw (fun _ hp => .inl ⟨hp, .inl rfl⟩)
  | diesBefore => exact Triple.throw (fun _ hp => .inl ⟨hp, .inr rfl⟩)
  | diesAfter =>
    refine Triple.bind (Q := fun _ p => p.file = file) (Triple.modify (fun _ _ => rfl)) (fun _ => ?_)
    exact Triple.throw (fun _ hp => .inr ⟨hp, rfl⟩)

/-- **A commit changes nothing or puts its snapshot in place**; memory follows unless the process died. -/
theorem commit_of (next : FileAuthKeyStore) :
    Triple (Of R) (commit next) (fun _ p => p.file = next.snapshot ∧ p.store = next)
      (fun e p => Of R p ∧ Plain e ∨
        p.file = next.snapshot ∧ (e = .died ∨ e = .threw .published ∧ p.store = next)) := by
  have quiet : ∀ {m : StoreM Unit}, Triple (Of R) m (fun _ => Of R) (fun e p => Of R p ∧ Plain e) →
      Triple (Of R) m (fun _ => Of R) (fun e p => Of R p ∧ Plain e ∨
        p.file = next.snapshot ∧ (e = .died ∨ e = .threw .published ∧ p.store = next)) :=
    fun h => h.weaken (fun _ hp => hp) (fun _ _ hp => hp) (fun _ _ hp => .inl hp)
  refine Triple.bind (quiet fileSystemCall_of) (fun _ => ?_)
  refine Triple.bind (quiet fileSystemCall_of) (fun _ => ?_)
  refine Triple.bind (quiet syncPath_of) (fun _ => ?_)
  refine Triple.bind ((renameSync_of _).weaken (fun _ hp => hp) (fun _ _ hp => hp) (fun e p hp => ?_)) (fun _ => ?_)
  · rcases hp with hp | ⟨hp, rfl⟩
    · exact .inl hp
    · exact .inr ⟨hp, .inl rfl⟩
  · refine Triple.bind (Q := fun _ => Of (fun f s => f = next.snapshot ∧ s = next))
      (Triple.modify (fun _ hp => ⟨hp, rfl⟩)) (fun _ => ?_)
    refine Triple.tryCatch syncPath_of (fun e => ?_)
    cases e with
    | threw error => exact Triple.throw (fun p hp => .inr ⟨hp.1.1, .inr ⟨rfl, hp.1.2⟩⟩)
    | died => exact Triple.throw (fun p hp => .inr ⟨hp.1.1, .inl rfl⟩)

end Commit

/-! ## Memory and file -/

def Tidy (s : FileAuthKeyStore) : Prop := Maps.Distinct s.keys ∧ Maps.Distinct s.revoked

theorem tidy_load (file : AuthKeyFile) : Tidy file.load := by
  cases file with
  | absent => exact ⟨.nil, .nil⟩
  | unreadable => exact ⟨.nil, .nil⟩
  | legacy keys => exact ⟨distinct_ofList _, .nil⟩
  | envelope keys revoked => exact ⟨distinct_ofList _, distinct_ofList _⟩

/-- **A snapshot is read back as it was written.** -/
theorem load_snapshot {s : FileAuthKeyStore} (h : Tidy s) : s.snapshot.load = s := by
  have hkeys : readKeys (s.keys.map (fun e => (e.1, .inr e.2))) = s.keys := by
    unfold readKeys
    rw [map_map]
    exact (congrArg Maps.ofList (map_id' s.keys)).trans (ofList_of_distinct h.1)
  have hrevoked : Maps.ofList ((s.revoked.map Prod.fst).map (fun id => (id, ()))) = s.revoked := by
    rw [map_map]
    exact (congrArg Maps.ofList (map_id' s.revoked)).trans (ofList_of_distinct h.2)
  show FileAuthKeyStore.mk (readKeys (s.keys.map (fun e => (e.1, .inr e.2))))
    (Maps.ofList ((s.revoked.map Prod.fst).map (fun id => (id, ())))) = s
  rw [hkeys, hrevoked]

section Keeps

variable {I : FileAuthKeyStore → Prop} {id : List UInt8}

def Kept (I : FileAuthKeyStore → Prop) (p : Process) : Prop := p.store = p.file.load ∧ I p.store

def Left (I : FileAuthKeyStore → Prop) (e : Interruption) (p : Process) : Prop :=
  I p.file.load ∧ (e ≠ .died → p.store = p.file.load)

theorem commit_keeps {P : Process → Prop} (next : FileAuthKeyStore) (h : ∀ p, P p → Kept I p ∧ Tidy next ∧ I next) :
    Triple P (commit next) (fun _ p => p.store = next ∧ Kept I p)
      (fun e p => Left I e p ∧ (e = .threw .published → p.store = next)) := by
  intro p hp
  obtain ⟨hkept, htidy, hnext⟩ := h p hp
  refine (commit_of (R := fun f s => s = f.load ∧ I s) next).weaken (fun _ hp => hp) (fun _ p hp => ?_)
    (fun e p hp => ?_) p hkept
  · obtain ⟨hf, hs⟩ := hp
    refine ⟨hs, ?_, hs ▸ hnext⟩
    rw [hs, hf, load_snapshot htidy]
  · rcases hp with ⟨⟨hs, hI⟩, hplain⟩ | ⟨hf, he⟩
    · refine ⟨⟨hs ▸ hI, fun _ => hs⟩, fun he => ?_⟩
      rcases hplain with rfl | rfl <;> cases he
    · rw [Left, hf, load_snapshot htidy]
      rcases he with rfl | ⟨rfl, hs⟩
      · exact ⟨⟨hnext, fun hc => absurd rfl hc⟩, nofun⟩
      · exact ⟨⟨hnext, fun _ => hs⟩, fun _ => hs⟩

theorem commit_unchanged {next : FileAuthKeyStore} {p₀ : Process} : Triple (fun p => p = p₀) (commit next)
    (fun _ _ => True) (fun e p => ∀ error, e = .threw error → error ≠ .published →
      p.file = p₀.file ∧ p.store = p₀.store) := by
  refine (commit_of (R := fun f s => f = p₀.file ∧ s = p₀.store) next).weaken (fun p hp => hp ▸ ⟨rfl, rfl⟩)
    (fun _ _ _ => trivial) (fun e p hp error he hne => ?_)
  rcases hp with ⟨hp, -⟩ | ⟨-, hd | ⟨ht, -⟩⟩
  · exact hp
  · rw [he] at hd
    cases hd
  · rw [he] at ht
    exact absurd (Interruption.threw.inj ht) hne

def Erased (id : List UInt8) (s : FileAuthKeyStore) : Prop :=
  ∀ e ∈ s.keys, e.1 ≠ toHex id ∧ e.2.permanentKeyId ≠ some (toHex id)

structure Closed (I : FileAuthKeyStore → Prop) : Prop where
  withTombstone : ∀ {s} id, I s → I (s.withTombstone id)
  withoutKeys : ∀ {s} id, I s → I (s.withoutKeys id)
  withoutTombstone : ∀ {s} id, I s → Erased id s → I (s.withoutTombstone id)

variable {s : FileAuthKeyStore}

theorem tidy_withRecord {record : StoredAuthKey} (h : Tidy s) : Tidy (s.withRecord id record) :=
  ⟨h.1.set _ _, h.2⟩

theorem tidy_withTombstone (h : Tidy s) : Tidy (s.withTombstone id) := ⟨h.1, h.2.set _ _⟩

theorem tidy_withoutKeys (h : Tidy s) : Tidy (s.withoutKeys id) :=
  ⟨List.Pairwise.filter _ (h.1.delete _), h.2⟩

theorem tidy_withoutTombstone (h : Tidy s) : Tidy (s.withoutTombstone id) := ⟨h.1, h.2.delete _⟩

theorem mem_withoutKeys {e : String × SerializedAuthKey} :
    e ∈ (s.withoutKeys id).keys ↔ e ∈ s.keys ∧ e.1 ≠ toHex id ∧ e.2.permanentKeyId ≠ some (toHex id) := by
  simp only [FileAuthKeyStore.withoutKeys, mem_filter, mem_delete, FileAuthKeyStore.boundTo, Bool.not_eq_true',
    decide_eq_false_iff_not, and_assoc, ne_eq]

theorem erased_withoutKeys (s : FileAuthKeyStore) : Erased id (s.withoutKeys id) := fun _ he => (mem_withoutKeys.1 he).2

theorem Kept.tidy {p : Process} (h : Kept I p) : Tidy p.store := h.1 ▸ tidy_load _

theorem beginRevocation_keeps (hI : Closed I) : Triple (Kept I) (FileAuthKeyStore.beginRevocation id)
    (fun _ p => Kept I p ∧ Maps.has p.store.revoked (toHex id) = true)
    (fun e p => Left I e p ∧ (e = .threw .published → Maps.has p.store.revoked (toHex id) = true)) := by
  have htombstone : ∀ s : FileAuthKeyStore, Maps.has (s.withTombstone id).revoked (toHex id) = true := fun s => by
    show Maps.has (Maps.set s.revoked (toHex id) ()) (toHex id) = true
    rw [has_eq_isSome, get_set, if_pos rfl]
    rfl
  refine Triple.bind (Q := fun a p => Kept I p ∧ a = p) (Triple.get (fun _ hp => ⟨hp, rfl⟩)) (fun a => ?_)
  refine (commit_keeps (I := I) _ (fun p hp => ?_)).weaken (fun _ hp => hp) (fun _ p hp => ?_) (fun e p hp => ?_)
  · obtain ⟨hp, rfl⟩ := hp
    exact ⟨hp, tidy_withTombstone hp.tidy, hI.withTombstone id hp.2⟩
  · exact ⟨hp.2, hp.1 ▸ htombstone _⟩
  · exact ⟨hp.1, fun he => hp.2 he ▸ htombstone _⟩

theorem finishRevocation_keeps (id : List UInt8) (hI : Closed I) :
    Triple (Kept I) (FileAuthKeyStore.finishRevocation id) (fun _ => Kept I) (Left I) := by
  refine Triple.bind (Q := fun a p => Kept I p ∧ a = p) (Triple.get (fun _ hp => ⟨hp, rfl⟩)) (fun a => ?_)
  have hkeys : Triple (fun p => Kept I p ∧ a = p) (commit (a.store.withoutKeys id))
      (fun _ p => p.store = a.store.withoutKeys id ∧ Kept I p) (Left I) := by
    refine (commit_keeps (I := I) _ (fun p hp => ?_)).weaken (fun _ hp => hp) (fun _ _ hp => hp) (fun _ _ hp => hp.1)
    obtain ⟨hp, rfl⟩ := hp
    exact ⟨hp, tidy_withoutKeys hp.tidy, hI.withoutKeys id hp.2⟩
  refine Triple.bind hkeys (fun _ => ?_)
  refine Triple.bind (Q := fun b p => (Kept I p ∧ Erased id p.store) ∧ b = p)
    (Triple.get (fun _ hp => ⟨⟨hp.2, hp.1 ▸ erased_withoutKeys _⟩, rfl⟩)) (fun b => ?_)
  have htombstone : Triple (fun p => (Kept I p ∧ Erased id p.store) ∧ b = p) (commit (b.store.withoutTombstone id))
      (fun _ => Kept I) (Left I) := by
    refine (commit_keeps (I := I) _ (fun p hp => ?_)).weaken (fun _ hp => hp) (fun _ _ hp => hp.2) (fun _ _ hp => hp.1)
    obtain ⟨⟨hp, herased⟩, rfl⟩ := hp
    exact ⟨hp, tidy_withoutTombstone hp.tidy, hI.withoutTombstone id hp.2 herased⟩
  exact Triple.bind htombstone (fun _ => Triple.pure (fun _ hp => hp))

theorem delete_keeps (hI : Closed I) :
    Triple (Kept I) (FileAuthKeyStore.delete id) (fun _ => Kept I) (Left I) :=
  Triple.bind ((beginRevocation_keeps hI).weaken (fun _ hp => hp) (fun _ _ hp => hp.1) (fun _ _ hp => hp.1))
    (fun _ => finishRevocation_keeps _ hI)

theorem recoverPendingRevocations_keeps (hI : Closed I) :
    Triple (Kept I) FileAuthKeyStore.recoverPendingRevocations (fun _ => Kept I) (Left I) := by
  refine Triple.bind (Q := fun _ => Kept I) (Triple.get (fun _ hp => hp)) (fun p => ?_)
  exact Triple.forM (fun id => Triple.bind (finishRevocation_keeps _ hI) (fun _ => Triple.pure (fun _ hp => hp))) _

theorem save_keeps {record : StoredAuthKey} {p₀ : Process} (hkept : Kept I p₀) (hI : I (p₀.store.withRecord id record)) :
    Triple (fun p => p = p₀) (FileAuthKeyStore.save id record) (fun _ => Kept I) (fun e p => Left I e p ∧
      ∀ error, e = .threw error → error ≠ .published → p.file = p₀.file ∧ p.store = p₀.store) := by
  refine Triple.bind (Q := fun a p => p = p₀ ∧ a = p₀) (Triple.get (fun _ hp => ⟨hp, hp⟩)) (fun a => ?_)
  have hcommit : Triple (fun p => p = p₀ ∧ a = p₀) (commit (a.store.withRecord id record)) (fun _ => Kept I)
      (fun e p => Left I e p ∧
        ∀ error, e = .threw error → error ≠ .published → p.file = p₀.file ∧ p.store = p₀.store) := by
    intro p hp
    obtain ⟨hp, ha⟩ := hp
    rw [ha]
    have hkeeps := commit_keeps (P := fun p => p = p₀) (I := I) (p₀.store.withRecord id record)
      (fun p hp => ⟨hp.symm ▸ hkept, tidy_withRecord hkept.tidy, hI⟩)
    exact (hkeeps.and commit_unchanged).weaken (fun _ hp => hp) (fun _ _ hp => hp.1.2) (fun _ _ hp => ⟨hp.1.1, hp.2⟩) p hp
  show Triple _ (if Maps.has a.store.revoked (a.store.permanentId id record) = true then _ else _) _ _
  split
  · refine Triple.bind (Q := fun _ p => p = p₀ ∧ a = p₀) (Triple.throw (fun p hp => ?_)) (fun _ => hcommit)
    obtain ⟨rfl, -⟩ := hp
    exact ⟨⟨hkept.1 ▸ hkept.2, fun _ => hkept.1⟩, fun _ _ _ => ⟨rfl, rfl⟩⟩
  · exact hcommit

end Keeps

end FileAuthKeyStore

/-! ## Runs -/

namespace AuthKeyHost

open FileAuthKeyStore

variable {I : FileAuthKeyStore → Prop} {id : List UInt8}

structure Sound (I : FileAuthKeyStore → Prop) (h : AuthKeyHost) : Prop where
  memory : ∀ s, h.store = some s → s = h.file.load
  file : I h.file.load

variable {h : AuthKeyHost} {outcomes : List Outcome} {p : Process}

theorem run_of_exec {m : StoreM Bool} {store : FileAuthKeyStore}
    {result : Except Interruption Bool} (hstore : h.store = some store)
    (hexec : exec m { file := h.file, store := store, outcomes := outcomes } = (result, p)) :
    h.run m outcomes =
      ({ file := p.file, store := if result = .error .died then none else some p.store }, some result) := by
  unfold run
  rw [hstore]
  simp only [hexec]

theorem sound_of_error {e : Interruption} (h : Left I e p) :
    Sound I { file := p.file, store := if (Except.error e : Except Interruption Bool) = .error .died then none else some p.store } := by
  refine ⟨fun s hsome => ?_, h.1⟩
  by_cases he : e = .died
  · simp [he] at hsome
  · rw [if_neg (fun hc => he (Except.error.inj hc)), Option.some.injEq] at hsome
    exact hsome ▸ h.2 he

theorem sound_of_ok {a : Bool} (h : Kept I p) :
    Sound I { file := p.file, store := if (Except.ok a : Except Interruption Bool) = .error .died then none else some p.store } := by
  refine ⟨fun s hsome => ?_, h.1 ▸ h.2⟩
  rw [if_neg nofun, Option.some.injEq] at hsome
  exact hsome ▸ h.1

theorem Sound.kept (hs : h.Sound I) {store : FileAuthKeyStore} (hstore : h.store = some store)
    (outcomes : List Outcome) : Kept I { file := h.file, store := store, outcomes := outcomes } :=
  have hload := hs.memory store hstore
  ⟨hload, hload ▸ hs.file⟩

theorem sound_run {m : StoreM Bool}
    (hm : Triple (Kept I) m (fun _ => Kept I) (Left I)) (hs : h.Sound I) : (h.run m outcomes).1.Sound I := by
  cases hstore : h.store with
  | none =>
    unfold run
    rw [hstore]
    exact hs
  | some store =>
    have hends := hm _ (hs.kept hstore outcomes)
    rcases hexec : exec m { file := h.file, store := store, outcomes := outcomes } with ⟨e | a, p⟩
    · rw [hexec] at hends
      rw [run_of_exec hstore hexec]
      exact sound_of_error hends
    · rw [hexec] at hends
      rw [run_of_exec hstore hexec]
      exact sound_of_ok hends

theorem sound_started {file : AuthKeyFile} (h : I file.load) : (started file).Sound I :=
  ⟨fun _ hs => (Option.some.inj hs).symm, h⟩

theorem save_run {record : StoredAuthKey} (hs : h.Sound I)
    (hI : I (h.file.load.withRecord id record)) :
    (h.step ⟨.save id record, outcomes⟩).1.Sound I ∧
      ∀ error, (h.step ⟨.save id record, outcomes⟩).2 = some (.error (.threw error)) → error ≠ .published →
        (h.step ⟨.save id record, outcomes⟩).1 = h := by
  unfold step
  simp only
  cases hstore : h.store with
  | none =>
    unfold run
    rw [hstore]
    exact ⟨hs, nofun⟩
  | some store =>
    have hkept := hs.kept hstore outcomes
    have hload := hs.memory store hstore
    have hsave : Triple (fun p => p = ⟨h.file, store, outcomes⟩) (do FileAuthKeyStore.save id record; pure true)
        (fun _ => Kept I) (fun e p => Left I e p ∧
          ∀ error, e = .threw error → error ≠ .published → p.file = h.file ∧ p.store = store) :=
      Triple.bind (save_keeps hkept (hload ▸ hI)) (fun _ => Triple.pure (fun _ hp => hp))
    have hends := hsave _ rfl
    rcases hexec : exec (do FileAuthKeyStore.save id record; pure true) (⟨h.file, store, outcomes⟩ : Process)
      with ⟨e | a, p⟩
    · rw [hexec] at hends
      rw [run_of_exec hstore hexec]
      refine ⟨sound_of_error hends.1, fun error he hne => ?_⟩
      have he : e = .threw error := Except.error.inj (Option.some.inj he)
      obtain ⟨hf, hm⟩ := hends.2 error he hne
      rw [he, if_neg nofun, hf, hm, ← hstore]
    · rw [hexec] at hends
      rw [run_of_exec hstore hexec]
      exact ⟨sound_of_ok hends, nofun⟩

/-- **Every call keeps what revocations keep**, if a save's record does not break it. -/
theorem sound_step (hI : Closed I) {r : Request} (hs : h.Sound I)
    (hsave : ∀ id record, r.operation = .save id record → I (h.file.load.withRecord id record)) : (h.step r).1.Sound I := by
  obtain ⟨operation, outcomes⟩ := r
  cases operation with
  | save id record => exact (save_run hs (hsave id record rfl)).1
  | beginRevocation id =>
    exact sound_run (Triple.bind ((beginRevocation_keeps hI).weaken (fun _ hp => hp) (fun _ _ hp => hp.1)
      (fun _ _ hp => hp.1)) (fun _ => Triple.pure (fun _ hp => hp))) hs
  | finishRevocation id => exact sound_run (finishRevocation_keeps _ hI) hs
  | delete id => exact sound_run (delete_keeps hI) hs
  | restart =>
    refine sound_run (Triple.bind (recoverPendingRevocations_keeps hI) (fun _ => Triple.pure (fun _ hp => hp))) ?_
    exact ⟨fun _ hs => (Option.some.inj hs).symm, hs.file⟩

end AuthKeyHost

/-! ## What is hidden -/

namespace FileAuthKeyStore

section Hidden

variable {id : List UInt8}

/-- Bound ids are written as `toHex` writes them. -/
def Canonical (s : FileAuthKeyStore) : Prop := ∀ e ∈ s.keys, ∀ p, e.2.permanentKeyId = some p → ∃ id, p = toHex id

def Hidden (id : List UInt8) (s : FileAuthKeyStore) : Prop := Maps.has s.revoked (toHex id) = true ∨ Erased id s

theorem toHex_injective : Function.Injective toHex := Hex.ofBytes_injective

theorem closed_true : Closed (fun _ => True) := ⟨fun _ _ => trivial, fun _ _ => trivial, fun _ _ _ => trivial⟩

theorem canonical_closed : Closed Canonical :=
  ⟨fun _ h => h, fun _ h e he => h e (mem_withoutKeys.1 he).1, fun _ h _ => h⟩

variable {s : FileAuthKeyStore}

theorem canonical_withRecord {record : StoredAuthKey} (hs : Tidy s) (h : Canonical s) :
    Canonical (s.withRecord id record) := by
  intro e he p hp
  rcases (mem_set hs.1).1 he with rfl | ⟨he, -⟩
  · obtain ⟨b, -, hb⟩ := Option.map_eq_some_iff.1 hp
    exact ⟨b, hb.symm⟩
  · exact h e he p hp

theorem hidden_closed : Closed (Hidden id) where
  withTombstone := by
    rintro s id' (h | h)
    · left
      show Maps.has (Maps.set s.revoked (toHex id') ()) (toHex id) = true
      rw [has_eq_isSome, get_set]
      split
      · rfl
      · rwa [← has_eq_isSome]
    · exact .inr h
  withoutKeys := by
    rintro s id' (h | h)
    · exact .inl h
    · exact .inr (fun e he => h e (mem_withoutKeys.1 he).1)
  withoutTombstone := by
    rintro s id' (h | h) herased
    · by_cases hid : toHex id = toHex id'
      · right
        rw [toHex_injective hid]
        exact herased
      · left
        show Maps.has (Maps.delete s.revoked (toHex id')) (toHex id) = true
        rwa [has_eq_isSome, get_delete, if_neg hid, ← has_eq_isSome]
    · exact .inr h

theorem hidden_withRecord {id' : List UInt8} {record : StoredAuthKey} (hs : Tidy s)
    (h : Hidden id s) (hrecord : Maps.has s.revoked (toHex id) = true ∨ id' ≠ id ∧ record.permanentKeyId ≠ some id) :
    Hidden id (s.withRecord id' record) := by
  rcases hrecord with ht | ⟨hid, hbound⟩
  · exact .inl ht
  · rcases h with ht | herased
    · exact .inl ht
    · right
      intro e he
      rcases (mem_set hs.1).1 he with rfl | ⟨he, -⟩
      · refine ⟨fun hc => hid (toHex_injective hc), fun hc => ?_⟩
        obtain ⟨b, hb, hhex⟩ := Option.map_eq_some_iff.1 hc
        exact hbound (hb.trans (congrArg some (toHex_injective hhex)))
      · exact herased e he

/-- **What is hidden is not returned**: not under the key's id, nor bound to it. -/
theorem get_of_hidden (hid : id ≠ []) (hcanonical : Canonical s) (h : Hidden id s) (now : Int) :
    s.get id now = none ∧ ∀ t r, s.get t now = some r → r.permanentKeyId ≠ some id := by
  have hempty : toHex id ≠ "" := fun hc => hid (Hex.ofBytes_eq_empty.1 hc)
  constructor
  · unfold FileAuthKeyStore.get
    cases hg : Maps.get s.keys (toHex id) with
    | none => rfl
    | some value =>
      rcases h with h | h
      · simp [h]
      · exact absurd rfl (h _ (mem_of_get hg)).1
  · intro t r hr hbound
    unfold FileAuthKeyStore.get at hr
    cases hg : Maps.get s.keys (toHex t) with
    | none =>
      rw [hg] at hr
      cases hr
    | some value =>
      rw [hg] at hr
      simp only at hr
      split at hr
      · cases hr
      · rename_i hvisible
        split at hr
        · cases hr
        · rw [← Option.some.inj hr] at hbound
          obtain ⟨p, hp, hfrom⟩ := Option.map_eq_some_iff.1 hbound
          obtain ⟨hp, -⟩ := Option.filter_eq_some_iff.1 hp
          obtain ⟨b, rfl⟩ := hcanonical _ (mem_of_get hg) p hp
          have hb : b = id := (Hex.toBytes_ofBytes b).symm.trans hfrom
          subst hb
          rcases h with h | h
          · exact hvisible (by simp [hp, hempty, h])
          · exact (h _ (mem_of_get hg)).2 hp

end Hidden

end FileAuthKeyStore

/-! ## Revoked keys -/

namespace AuthKeyHost

open FileAuthKeyStore

abbrev StoreCall := Runs.Call AuthKeyHost Request Reply

/-- The tombstone came into place: `beginRevocation` (that of a `delete` too) returned or threw
`AuthKeyStorePublishedError`. -/
def Began (id : List UInt8) (c : StoreCall) : Prop :=
  (c.op.operation = .beginRevocation id ∨ c.op.operation = .delete id) ∧
    ∃ reply, (c.before.step ⟨.beginRevocation id, c.op.outcomes⟩).2 = some reply ∧
      ∀ e, reply = .error e → e = .threw .published

/-- A save of the key, or of a record bound to it, whose snapshot came into place after the revocation had finished. -/
def Republished (id : List UInt8) (c : StoreCall) : Prop :=
  ∃ id' record, c.op.operation = .save id' record ∧ (id' = id ∨ record.permanentKeyId = some id) ∧
    Maps.has c.before.file.load.revoked (toHex id) = false ∧ c.after.file ≠ c.before.file

variable {id : List UInt8} {h : AuthKeyHost} {r : Request}

theorem beginRevocation_hides (id : List UInt8) : Triple (Kept (fun _ => True)) (FileAuthKeyStore.beginRevocation id)
    (fun _ => Kept (Hidden id)) (fun e p => e = .threw .published → Left (Hidden id) e p) := by
  refine (beginRevocation_keeps closed_true).weaken (fun _ hp => hp) (fun _ _ hp => ⟨hp.1.1, .inl hp.2⟩)
    (fun e p hp he => ?_)
  have hload := hp.1.2 (he ▸ nofun)
  exact ⟨.inl (hload ▸ hp.2 he), fun _ => hload⟩

/-- **A revocation that has begun hides its key.** -/
theorem sound_of_began (hs : h.Sound (fun _ => True)) (hb : Began id (Runs.callAt step h r)) :
    (h.step r).1.Sound (Hidden id) := by
  obtain ⟨operation, outcomes⟩ := r
  obtain ⟨hop, reply, hreply, hpublished⟩ := hb
  change operation = _ ∨ operation = _ at hop
  change (h.run (do FileAuthKeyStore.beginRevocation id; pure true) outcomes).2 = _ at hreply
  cases hstore : h.store with
  | none =>
    unfold run at hreply
    rw [hstore] at hreply
    cases hreply
  | some store =>
    have hends := beginRevocation_hides id _ (hs.kept hstore outcomes)
    rcases hbegin : exec (FileAuthKeyStore.beginRevocation id) (⟨h.file, store, outcomes⟩ : Process) with ⟨e | a, p⟩
    · rw [hbegin] at hends
      have hfirst : exec (do FileAuthKeyStore.beginRevocation id; pure true) (⟨h.file, store, outcomes⟩ : Process) =
          (.error e, p) := by rw [exec_bind, hbegin]
      have hdelete : exec (FileAuthKeyStore.delete id) (⟨h.file, store, outcomes⟩ : Process) = (.error e, p) := by
        rw [FileAuthKeyStore.delete, exec_bind, hbegin]
      rw [run_of_exec hstore hfirst] at hreply
      have hleft := hends (hpublished e (Option.some.inj hreply).symm)
      rcases hop with rfl | rfl
      · show (h.run _ outcomes).1.Sound _
        rw [run_of_exec hstore hfirst]
        exact sound_of_error hleft
      · show (h.run _ outcomes).1.Sound _
        rw [run_of_exec hstore hdelete]
        exact sound_of_error hleft
    · rw [hbegin] at hends
      rcases hop with rfl | rfl
      · have hfirst : exec (do FileAuthKeyStore.beginRevocation id; pure true) (⟨h.file, store, outcomes⟩ : Process) =
            (.ok true, p) := by rw [exec_bind, hbegin]; rfl
        show (h.run _ outcomes).1.Sound _
        rw [run_of_exec hstore hfirst]
        exact sound_of_ok hends
      · have hdelete : exec (FileAuthKeyStore.delete id) (⟨h.file, store, outcomes⟩ : Process) =
            exec (FileAuthKeyStore.finishRevocation id) p := by rw [FileAuthKeyStore.delete, exec_bind, hbegin]
        have hfinish := finishRevocation_keeps id hidden_closed p hends
        show (h.run _ outcomes).1.Sound _
        rcases hexec : exec (FileAuthKeyStore.finishRevocation id) p with ⟨e | a, p'⟩
        · rw [hexec] at hfinish
          rw [run_of_exec hstore (hdelete.trans hexec)]
          exact sound_of_error hfinish
        · rw [hexec] at hfinish
          rw [run_of_exec hstore (hdelete.trans hexec)]
          exact sound_of_ok hfinish

theorem canonical_step (hs : h.Sound Canonical) : (h.step r).1.Sound Canonical :=
  sound_step canonical_closed hs (fun _ _ _ => canonical_withRecord (tidy_load _) hs.file)

/-- **A hidden key stays hidden** until a record of it is published anew. -/
theorem hidden_step (hs : h.Sound (Hidden id)) (hno : ¬Republished id (Runs.callAt step h r)) :
    (h.step r).1.Sound (Hidden id) := by
  by_cases hsave : ∀ id' record, r.operation = .save id' record → Hidden id (h.file.load.withRecord id' record)
  · exact sound_step hidden_closed hs hsave
  · simp only [not_forall] at hsave
    obtain ⟨id', record, hop, hvisible⟩ := hsave
    have hany := sound_step (r := r) closed_true ⟨hs.memory, trivial⟩ (fun _ _ _ => trivial)
    refine ⟨hany.memory, ?_⟩
    -- the record would show, so the save is one of the key's own; its snapshot is not in place
    have hrecord : ¬(Maps.has h.file.load.revoked (toHex id) = true ∨ id' ≠ id ∧ record.permanentKeyId ≠ some id) :=
      fun hr => hvisible (hidden_withRecord (tidy_load _) hs.file hr)
    rw [not_or, Bool.not_eq_true] at hrecord
    have hfile : (h.step r).1.file = h.file := by
      by_contra hne
      refine hno ⟨id', record, hop, ?_, hrecord.1, hne⟩
      by_cases hid : id' = id
      · exact .inl hid
      · exact .inr (by_contra (fun hbound => hrecord.2 ⟨hid, hbound⟩))
    rw [hfile]
    exact hs.file

theorem hidden_final : ∀ (requests : List Request) (h : AuthKeyHost), h.Sound (Hidden id) → h.Sound Canonical →
    (∀ c ∈ Runs.calls step h requests, ¬Republished id c) →
      (Runs.final step h requests).Sound (Hidden id) ∧ (Runs.final step h requests).Sound Canonical
  | [], _, hh, hc, _ => ⟨hh, hc⟩
  | r :: requests, h, hh, hc, hno => by
    rw [Runs.final_cons]
    exact hidden_final requests _ (hidden_step hh (hno _ mem_cons_self)) (canonical_step hc)
      (fun c hc => hno c (mem_cons_of_mem _ hc))

/-- What every call leaves: memory is what was last renamed into place, and a save that threw before the rename has
changed neither. -/
def Faithful (c : StoreCall) : Prop :=
  (∀ s, c.after.store = some s → s = c.after.file.load) ∧
    ∀ id record e, c.op.operation = .save id record → c.reply = some (.error (.threw e)) → e ≠ .published →
      c.after = c.before

theorem faithful_call (hs : h.Sound (fun _ => True)) : Faithful (Runs.callAt step h r) := by
  refine ⟨(sound_step closed_true hs (fun _ _ _ => trivial)).memory, fun id record e hop hreply hne => ?_⟩
  obtain ⟨operation, outcomes⟩ := r
  change operation = _ at hop
  subst hop
  exact (save_run hs trivial).2 e hreply hne

/-- **A revoked key stays revoked**: whatever file system calls fail and wherever the process dies, no record of a key
whose revocation has begun is returned again, nor one bound to it, before one is published anew. -/
theorem revoked_stays_revoked {file : AuthKeyFile} (hfile : Canonical file.load) (requests : List Request) :
    (∀ c ∈ Runs.calls step (started file) requests, Faithful c) ∧
      ∀ (first rest : List Request) (request : Request) (id : List UInt8), id ≠ [] →
        requests = first ++ request :: rest →
        Began id (Runs.callAt step (Runs.final step (started file) first) request) →
        (∀ c ∈ Runs.calls step (Runs.final step (started file) (first ++ [request])) rest, ¬Republished id c) →
        ∀ now, (Runs.final step (started file) requests).get id now = none ∧
          ∀ t record, (Runs.final step (started file) requests).get t now = some record →
            record.permanentKeyId ≠ some id := by
  refine ⟨?_, fun first rest request id hid hrequests hbegan hno now => ?_⟩
  · exact Runs.calls_forall (I := Sound (fun _ => True)) (fun h r hs => sound_step closed_true hs (fun _ _ _ => trivial))
      (fun h r hs => faithful_call hs) requests _ (sound_started trivial)
  · have hfirst : (Runs.final step (started file) first).Sound Canonical :=
      Runs.final_invariant (fun h r hs => canonical_step hs) first _ (sound_started hfile)
    have hlast : Runs.final step (started file) (first ++ [request]) =
        (step (Runs.final step (started file) first) request).1 := by
      unfold Runs.final
      rw [foldl_append]
      rfl
    have hfinal : Runs.final step (started file) requests =
        Runs.final step (Runs.final step (started file) (first ++ [request])) rest := by
      unfold Runs.final
      rw [hrequests, ← foldl_append, append_assoc]
      rfl
    obtain ⟨hhidden, hcanonical⟩ := hidden_final rest _
      (hlast ▸ sound_of_began ⟨hfirst.memory, trivial⟩ hbegan) (hlast ▸ canonical_step hfirst) hno
    rw [hfinal]
    unfold get
    cases hstore : (Runs.final step (Runs.final step (started file) (first ++ [request])) rest).store with
    | none => exact ⟨rfl, nofun⟩
    | some store =>
      have hload := hhidden.memory store hstore
      exact get_of_hidden hid (hload ▸ hcanonical.file) (hload ▸ hhidden.file) now

def bothSaved : List Request :=
  [⟨.save [1] ⟨[10], none, none, none⟩, []⟩, ⟨.save [2] ⟨[20], some [1], some 5000, none⟩, []⟩]

/-- A revocation whose directory sync fails, a `finishRevocation` that dies on its second rename, and a restart. -/
theorem interrupted_revocation_stays_revoked :
    let requests := bothSaved ++ ⟨.beginRevocation [1], [.completes, .completes, .completes, .completes, .completes,
      .completes, .fails]⟩ :: [⟨.finishRevocation [1], List.replicate 14 .completes ++ [.diesBefore]⟩, ⟨.restart, []⟩]
    ∀ now, (Runs.final step (started .absent) requests).get [1] now = none ∧
      ∀ t record, (Runs.final step (started .absent) requests).get t now = some record →
        record.permanentKeyId ≠ some [1] := by
  refine (@revoked_stays_revoked .absent (fun e he => (nomatch he)) _).2 bothSaved _ _ [1] (by decide) rfl ?_ ?_
  · refine ⟨.inl rfl, .error (.threw .published), by decide +kernel, fun e he => (Except.error.inj he).symm⟩
  · intro c hc
    rcases mem_cons.1 hc with rfl | hc
    · rintro ⟨id', record, hop, -⟩
      cases hop
    · rw [mem_singleton.1 hc]
      rintro ⟨id', record, hop, -⟩
      cases hop

def savedAfterRevocation : List Request :=
  [⟨.beginRevocation [1], []⟩, ⟨.finishRevocation [1], []⟩,
    ⟨.save [1] ⟨[10], none, none, none⟩, List.replicate 6 .completes ++ [.fails]⟩]

def boundToNothing : List Request := [⟨.save [2] ⟨[20], some [], none, none⟩, []⟩, ⟨.beginRevocation [], []⟩]

/-- A save that ended in `AuthKeyStorePublishedError` did not succeed, and its record is returned; and nothing hides a
record bound to the empty id, which `get` takes for no id. -/
theorem unsuccessful_save_returned :
    ((Runs.calls step (started .absent) savedAfterRevocation).map (fun c => c.reply) =
        [some (.ok true), some (.ok false), some (.error (.threw .published))] ∧
      (Runs.final step (started .absent) savedAfterRevocation).get [1] 0 = some ⟨[10], none, none, none⟩) ∧
    ((Runs.calls step (started .absent) boundToNothing).map (fun c => c.reply) = [some (.ok true), some (.ok true)] ∧
      (Runs.final step (started .absent) boundToNothing).get [2] 0 = some ⟨[20], none, none, none⟩) := by
  decide +kernel

end AuthKeyHost

end Crossgram
