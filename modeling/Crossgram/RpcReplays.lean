import Mathlib.Data.List.Nodup
import Mathlib.Tactic.IntervalCases
import Crossgram.RpcRegistry
/-!
# RpcReplays — the books of the replay registry

The counters of the registry are sums over what is there: the requests of the generation whose `finally` has not run, and
the bytes of the completed entries (`Books`).  A prune keeps the requests under way and leaves both limits met.
-/
namespace Crossgram

open Maps List RpcDependencyRegistry

/-! ## Keys -/

theorem eq_of_append_cons {α : Type} {c : α} {r r' : List α} : ∀ {l l' : List α}, c ∉ l → c ∉ l' →
    l ++ c :: r = l' ++ c :: r' → l = l' ∧ r = r'
  | [], [], _, _, h => ⟨rfl, (List.cons.inj h).2⟩
  | [], x :: l', _, hl', h => absurd (mem_cons.2 (Or.inl (List.cons.inj h).1)) hl'
  | x :: l, [], hl, _, h => absurd (mem_cons.2 (Or.inl (List.cons.inj h).1.symm)) hl
  | x :: l, y :: l', hl, hl', h => by
    obtain ⟨hxy, hrest⟩ := List.cons.inj h
    rw [mem_cons, not_or] at hl hl'
    obtain ⟨hll, hr⟩ := eq_of_append_cons hl.2 hl'.2 hrest
    exact ⟨by rw [hxy, hll], hr⟩

theorem append_separator {s t s' t' : String} (hs : ':' ∉ s.toList) (hs' : ':' ∉ s'.toList)
    (h : s ++ ":" ++ t = s' ++ ":" ++ t') : s = s' ∧ t = t' := by
  have hl := congrArg String.toList h
  simp only [String.toList_append, append_assoc] at hl
  have hcolon : ":".toList = [':'] := rfl
  rw [hcolon, singleton_append, singleton_append] at hl
  obtain ⟨h1, h2⟩ := eq_of_append_cons hs hs' hl
  exact ⟨String.toList_inj.1 h1, String.toList_inj.1 h2⟩

theorem digitChar_ne_separator {n : Nat} (hn : n < 16) : Nat.digitChar n ≠ ':' := by
  interval_cases n <;> decide

theorem authScopeOf_separator (authKeyId : List UInt8) : ':' ∉ (authScopeOf authKeyId).toList := by
  intro h
  obtain ⟨digit, hdigit, hc⟩ := Hex.mem_ofBytes h
  exact digitChar_ne_separator hdigit hc.symm

theorem repr_separator (msgId : Int) : ':' ∉ msgId.repr.toList := by
  have hnat : ∀ n : Nat, ':' ∉ n.repr.toList := fun n hn => by
    rw [Nat.toList_repr] at hn
    exact absurd (Nat.isDigit_of_mem_toDigits (by decide) (by decide) hn) (by decide)
  rw [Int.repr_eq_if]
  split
  · exact hnat _
  · rw [String.toList_append, mem_append, not_or]
    exact ⟨by decide, hnat _⟩

/-- **A replay key is its request's own.** -/
theorem replayKey_injective {a a' : List UInt8} {m m' : Int} {f f' : String}
    (h : replayKey a m f = replayKey a' m' f') : a = a' ∧ m = m' ∧ f = f' := by
  have hkey : ∀ (a : List UInt8) (m : Int) (f : String),
      replayKey a m f = authScopeOf a ++ ":" ++ (m.repr ++ ":" ++ f) := fun a m f => by
    simp only [replayKey, messageKey, String.append_assoc]
  rw [hkey, hkey] at h
  obtain ⟨hscope, hrest⟩ := append_separator (authScopeOf_separator a) (authScopeOf_separator a') h
  obtain ⟨hid, hf⟩ := append_separator (repr_separator m) (repr_separator m') hrest
  exact ⟨Hex.ofBytes_injective hscope, Int.repr_injective hid, hf⟩

/-! ## Prune -/

def completedBytes (entry : RpcReplayEntry) : Int := if entry.completedAt.isSome then entry.bytes else 0

namespace RpcDependencyRegistry

structure Ledger (r : RpcDependencyRegistry) : Prop where
  distinct : Maps.Distinct r.replays
  bytes : r.replayBytes = Maps.sum completedBytes r.replays
  nonneg : ∀ e ∈ r.replays, 0 ≤ e.2.bytes

def Covers (r : RpcDependencyRegistry) (entries : List (String × RpcReplayEntry)) : Prop :=
  ∀ e ∈ entries, ∀ completedAt ∈ e.2.completedAt,
    ∃ deadline, r.nextReplayExpiry = some deadline ∧ deadline ≤ completedAt + rpcReplayTtlMs + 1

/-- What `prune` does not write. -/
structure SameCounters (r r' : RpcDependencyRegistry) : Prop where
  inFlight : r'.inFlight = r.inFlight
  inFlightByAuth : r'.inFlightByAuth = r.inFlightByAuth
  generation : r'.generation = r.generation

theorem SameCounters.refl (r : RpcDependencyRegistry) : SameCounters r r := ⟨rfl, rfl, rfl⟩

theorem SameCounters.trans {r r' r'' : RpcDependencyRegistry} (h : SameCounters r r') (h' : SameCounters r' r'') :
    SameCounters r r'' :=
  ⟨h'.inFlight.trans h.inFlight, h'.inFlightByAuth.trans h.inFlightByAuth, h'.generation.trans h.generation⟩

variable {r r' : RpcDependencyRegistry} {now : Int}

theorem earlier_le (next : Option Int) (deadline : Int) :
    ∃ n, earlier next deadline = some n ∧ n ≤ deadline ∧ ∀ previous ∈ next, n ≤ previous := by
  cases next with
  | none => exact ⟨deadline, rfl, le_refl _, by simp⟩
  | some previous => exact ⟨min previous deadline, rfl, min_le_right _ _, by simp⟩

theorem delete_middle {kept rest : List (String × RpcReplayEntry)} {key : String} {entry : RpcReplayEntry}
    (h : Maps.Distinct (kept ++ (key, entry) :: rest)) : Maps.delete (kept ++ (key, entry) :: rest) key = kept ++ rest := by
  obtain ⟨-, hrest, hkept⟩ := pairwise_append.1 h
  rw [Maps.delete, filter_append, filter_cons_of_neg (by simp)]
  congr 1
  · exact filter_eq_self.2 (fun e he => by simpa using hkept e he _ mem_cons_self)
  · exact filter_eq_self.2 (fun e he => by simpa using Ne.symm (rel_of_pairwise_cons hrest he))

theorem deleteReplay_of_get {key : String} {entry : RpcReplayEntry} (hl : r.Ledger)
    (hg : Maps.get r.replays key = some entry) :
    (r.deleteReplay key entry).Ledger ∧ (r.deleteReplay key entry).replays = Maps.delete r.replays key ∧
      (r.deleteReplay key entry).replayBytes = r.replayBytes - completedBytes entry ∧
      (r.deleteReplay key entry).nextReplayExpiry = r.nextReplayExpiry ∧ SameCounters r (r.deleteReplay key entry) := by
  have hbytes : (if entry.completedAt.isSome then r.replayBytes - entry.bytes else r.replayBytes) =
      r.replayBytes - completedBytes entry := by
    unfold completedBytes
    split <;> omega
  unfold deleteReplay
  rw [hg, Option.map_some, if_pos rfl]
  refine ⟨⟨hl.distinct.delete key, ?_, fun e he => hl.nonneg e (mem_delete.1 he).1⟩, rfl, hbytes, rfl, ⟨rfl, rfl, rfl⟩⟩
  rw [sum_delete completedBytes hl.distinct, hg, ← hl.bytes]
  exact hbytes

/-- What the loop of `prune` does to the entries it has not passed yet. -/
structure Swept (now : Int) (kept rest left : List (String × RpcReplayEntry)) (r r' : RpcDependencyRegistry) : Prop where
  ledger : r'.Ledger
  counters : SameCounters r r'
  replays : r'.replays = kept ++ left
  sublist : left.Sublist rest
  pending : ∀ e ∈ rest, e.2.completedAt = none → e ∈ left
  unexpired : ∀ e ∈ left, ∀ completedAt ∈ e.2.completedAt, now - completedAt ≤ rpcReplayTtlMs
  covered : r'.Covers left
  expiry : ∀ deadline ∈ r.nextReplayExpiry, ∃ n, r'.nextReplayExpiry = some n ∧ n ≤ deadline
  within : r.withinLimits = true → r'.withinLimits = true
  limits : r'.withinLimits = true ∨ ∀ e ∈ left, e.2.completedAt = none

/-- **The loop keeps what is under way, drops what is old, and stops dropping once the limits are met.** -/
theorem pruneEntries_swept (now : Int) : ∀ (rest kept : List (String × RpcReplayEntry)) (r : RpcDependencyRegistry),
    r.Ledger → r.replays = kept ++ rest → ∃ left, Swept now kept rest left r (pruneEntries now rest r)
  | [], kept, r, hl, hr => ⟨[], {
      ledger := hl
      counters := .refl r
      replays := hr
      sublist := .slnil
      pending := fun _ he => (nomatch he)
      unexpired := fun _ he => (nomatch he)
      covered := fun _ he => (nomatch he)
      expiry := fun deadline h => ⟨deadline, h, le_refl _⟩
      within := id
      limits := .inr (fun _ he => (nomatch he)) }⟩
  | (key, entry) :: rest, kept, r, hl, hr => by
    rw [pruneEntries]
    cases hc : entry.completedAt with
    | none =>
      -- a request under way stays
      obtain ⟨left, h⟩ := pruneEntries_swept now rest (kept ++ [(key, entry)]) r hl (by rw [hr, append_assoc]; rfl)
      refine ⟨(key, entry) :: left, { h with
        replays := by rw [h.replays, append_assoc]; rfl
        sublist := h.sublist.cons_cons _
        pending := fun e he hn => ?_
        unexpired := fun e he c hec => ?_
        covered := fun e he c hec => ?_
        limits := h.limits.imp id (fun hnone e he => ?_) }⟩
      · rcases mem_cons.1 he with rfl | he
        · exact mem_cons_self
        · exact mem_cons_of_mem _ (h.pending e he hn)
      · rcases mem_cons.1 he with rfl | he
        · rw [hc] at hec
          cases hec
        · exact h.unexpired e he c hec
      · rcases mem_cons.1 he with rfl | he
        · rw [hc] at hec
          cases hec
        · exact h.covered e he c hec
      · rcases mem_cons.1 he with rfl | he
        · exact hc
        · exact hnone e he
    | some completedAt =>
      simp only
      split
      · -- a completed entry that stays is counted in the next deadline
        rename_i hkeep
        obtain ⟨n, hn, hle, hprev⟩ := earlier_le r.nextReplayExpiry (completedAt + rpcReplayTtlMs + 1)
        obtain ⟨left, h⟩ := pruneEntries_swept now rest (kept ++ [(key, entry)])
          { r with nextReplayExpiry := earlier r.nextReplayExpiry (completedAt + rpcReplayTtlMs + 1) }
          ⟨hl.distinct, hl.bytes, hl.nonneg⟩ (by rw [hr, append_assoc]; rfl)
        obtain ⟨n', hn', hle'⟩ := h.expiry n hn
        have hwithin := h.within hkeep.2
        refine ⟨(key, entry) :: left, { h with
          counters := ⟨h.counters.inFlight, h.counters.inFlightByAuth, h.counters.generation⟩
          replays := by rw [h.replays, append_assoc]; rfl
          sublist := h.sublist.cons_cons _
          pending := fun e he hn => ?_
          unexpired := fun e he c hec => ?_
          covered := fun e he c hec => ?_
          expiry := fun deadline hd => ⟨n', hn', le_trans hle' (hprev deadline hd)⟩
          within := fun _ => hwithin
          limits := .inl hwithin }⟩
        · rcases mem_cons.1 he with rfl | he
          · exact mem_cons_self
          · exact mem_cons_of_mem _ (h.pending e he hn)
        · rcases mem_cons.1 he with rfl | he
          · rw [hc, Option.mem_some_iff] at hec
            exact hec ▸ hkeep.1
          · exact h.unexpired e he c hec
        · rcases mem_cons.1 he with rfl | he
          · rw [hc, Option.mem_some_iff] at hec
            exact ⟨n', hn', hec ▸ le_trans hle' hle⟩
          · exact h.covered e he c hec
      · -- an old one, or one too many, goes
        have hg : Maps.get r.replays key = some entry :=
          get_of_mem hl.distinct (by rw [hr]; exact mem_append_right _ mem_cons_self)
        obtain ⟨hl', hreplays, hbytes, hnext, hsame⟩ := deleteReplay_of_get hl hg
        have hdel : (r.deleteReplay key entry).replays = kept ++ rest := by
          rw [hreplays, hr]
          exact delete_middle (hr ▸ hl.distinct)
        obtain ⟨left, h⟩ := pruneEntries_swept now rest kept _ hl' hdel
        refine ⟨left, { h with
          counters := hsame.trans h.counters
          sublist := h.sublist.cons _
          pending := fun e he hn => ?_
          expiry := fun deadline hd => h.expiry deadline (hnext ▸ hd)
          within := fun hw => h.within ?_ }⟩
        · rcases mem_cons.1 he with rfl | he
          · rw [hc] at hn
            cases hn
          · exact h.pending e he hn
        · simp only [withinLimits, decide_eq_true_eq] at hw ⊢
          have hentry := hl.nonneg _ (mem_of_get hg)
          have hweight : 0 ≤ completedBytes entry := by
            unfold completedBytes
            split
            · exact hentry
            · exact le_refl _
          have hlen : (kept ++ rest).length ≤ r.replays.length := by
            rw [hr]
            simp
          rw [hdel, hbytes]
          omega

/-- What `prune` leaves. -/
structure Pruned (now : Int) (r r' : RpcDependencyRegistry) : Prop where
  ledger : r'.Ledger
  counters : SameCounters r r'
  sublist : r'.replays.Sublist r.replays
  pending : ∀ e ∈ r.replays, e.2.completedAt = none → e ∈ r'.replays
  unexpired : ∀ e ∈ r'.replays, ∀ completedAt ∈ e.2.completedAt, now - completedAt ≤ rpcReplayTtlMs
  covered : r'.Covers r'.replays
  limits : r'.withinLimits = true ∨ ∀ e ∈ r'.replays, e.2.completedAt = none

/-- **A prune drops every expired entry, the early return included.** -/
theorem prune_pruned (now : Int) (hl : r.Ledger) (hc : r.Covers r.replays) : Pruned now r (r.prune now) := by
  unfold prune
  split
  · rename_i hskip
    refine ⟨hl, .refl r, List.Sublist.refl _, fun e he _ => he, fun e he completedAt hec => ?_, hc, .inl hskip.2⟩
    obtain ⟨deadline, hd, hle⟩ := hc e he completedAt hec
    have := hskip.1 deadline hd
    omega
  · obtain ⟨left, h⟩ := pruneEntries_swept now r.replays [] { r with nextReplayExpiry := none }
      ⟨hl.distinct, hl.bytes, hl.nonneg⟩ rfl
    have hleft : (pruneEntries now r.replays { r with nextReplayExpiry := none }).replays = left := h.replays
    exact {
      ledger := h.ledger
      counters := ⟨h.counters.inFlight, h.counters.inFlightByAuth, h.counters.generation⟩
      sublist := hleft ▸ h.sublist
      pending := fun e he hn => hleft ▸ h.pending e he hn
      unexpired := hleft ▸ h.unexpired
      covered := hleft ▸ h.covered
      limits := hleft ▸ h.limits }

end RpcDependencyRegistry

/-! ## The books -/

namespace RpcCalls

/-- The requests of the generation whose `finally` has not run. -/
def current (s : RpcCalls) : List RpcExecution := s.running.filter (fun x => x.generation = s.registry.generation)

/-- **The invariant**: each counter is a sum over what is there. -/
structure Books (s : RpcCalls) : Prop where
  ledger : s.registry.Ledger
  covered : s.registry.Covers s.registry.replays
  promises : (s.running.map (fun x => x.promise)).Nodup
  issued : ∀ x ∈ s.running, x.promise < s.nextPromise
  generations : ∀ x ∈ s.running, x.generation ≤ s.registry.generation
  unsettled : ∀ x ∈ s.current, x.settled = false → Maps.get s.registry.replays x.key = some ⟨x.promise, none, 0⟩
  entries : ∀ e ∈ s.registry.replays, e.2.completedAt = none → ∃ x ∈ s.current, x.settled = false ∧ x.key = e.1
  inFlight : s.registry.inFlight = s.current.length
  byAuth : Maps.Distinct s.registry.inFlightByAuth ∧ Maps.sum id s.registry.inFlightByAuth = s.registry.inFlight
  ofAuth : ∀ scope, (Maps.get s.registry.inFlightByAuth scope).getD 0 =
    (s.current.filter (fun x => x.authScope = scope)).length
  limits : s.registry.inFlight ≤ maxSharedRpcInflight ∧
    ∀ e ∈ s.registry.inFlightByAuth, e.2 ≤ maxSharedRpcInflightPerAuthKey

variable {s : RpcCalls}

theorem mem_current {x : RpcExecution} : x ∈ s.current ↔ x ∈ s.running ∧ x.generation = s.registry.generation := by
  simp [current]

theorem books_empty (startedAtSeconds : Int) : Books (empty startedAtSeconds) where
  ledger := ⟨.nil, rfl, fun _ he => (nomatch he)⟩
  covered := fun _ he => (nomatch he)
  promises := .nil
  issued := fun _ hx => (nomatch hx)
  generations := fun _ hx => (nomatch hx)
  unsettled := fun _ hx => (nomatch hx)
  entries := fun _ he => (nomatch he)
  inFlight := rfl
  byAuth := ⟨.nil, rfl⟩
  ofAuth := fun _ => rfl
  limits := ⟨show (0 : Int) ≤ maxSharedRpcInflight by decide, fun _ he => (nomatch he)⟩

namespace Books

theorem eq_of_promise (h : Books s) {x y : RpcExecution} (hx : x ∈ s.running) (hy : y ∈ s.running)
    (hp : x.promise = y.promise) : x = y := inj_on_of_nodup_map h.promises hx hy hp

/-- **A prune keeps the books.** -/
theorem prune (h : Books s) {r : RpcDependencyRegistry} {now : Int} (hp : Pruned now s.registry r) :
    Books { s with registry := r } := by
  have hcurrent : current { s with registry := r } = s.current := by
    unfold current
    rw [hp.counters.generation]
  exact {
    ledger := hp.ledger
    covered := hp.covered
    promises := h.promises
    issued := h.issued
    generations := fun x hx => by
      rw [hp.counters.generation]
      exact h.generations x hx
    unsettled := fun x hx hs => by
      rw [hcurrent] at hx
      have hmem := mem_of_get (h.unsettled x hx hs)
      exact get_of_mem hp.ledger.distinct (hp.pending _ hmem rfl)
    entries := fun e he hn => by
      rw [hcurrent]
      exact h.entries e (hp.sublist.subset he) hn
    inFlight := by
      rw [hcurrent, hp.counters.inFlight]
      exact h.inFlight
    byAuth := by
      rw [hp.counters.inFlight, hp.counters.inFlightByAuth]
      exact h.byAuth
    ofAuth := fun scope => by
      rw [hcurrent, hp.counters.inFlightByAuth]
      exact h.ofAuth scope
    limits := by
      rw [hp.counters.inFlight, hp.counters.inFlightByAuth]
      exact h.limits }

theorem moved (h : Books s) {key : String} {existing : RpcReplayEntry}
    (hg : Maps.get s.registry.replays key = some existing) :
    Books { s with registry := { s.registry with
      replays := Maps.set (Maps.delete s.registry.replays key) key existing } } := by
  have hd := h.ledger.distinct.delete key
  have hperm : (Maps.set (Maps.delete s.registry.replays key) key existing).Perm s.registry.replays := by
    refine (set_perm hd key existing).trans ?_
    rw [delete_of_get_none (by rw [get_delete, if_pos rfl])]
    exact (perm_of_get h.ledger.distinct hg).symm
  have hdistinct := hd.set key existing
  exact {
    ledger := ⟨hdistinct, h.ledger.bytes.trans (sum_perm _ hperm).symm,
      fun e he => h.ledger.nonneg e (hperm.mem_iff.1 he)⟩
    covered := fun e he => h.covered e (hperm.mem_iff.1 he)
    promises := h.promises
    issued := h.issued
    generations := h.generations
    unsettled := fun x hx hs =>
      get_of_mem hdistinct (hperm.mem_iff.2 (mem_of_get (h.unsettled x hx hs)))
    entries := fun e he => h.entries e (hperm.mem_iff.1 he)
    inFlight := h.inFlight
    byAuth := h.byAuth
    ofAuth := h.ofAuth
    limits := h.limits }

/-- **A request that starts is on the books.** -/
theorem started (h : Books s) {authKeyId : List UInt8} {msgId : Int} {requestFingerprint : String}
    (hg : Maps.get s.registry.replays (replayKey authKeyId msgId requestFingerprint) = none)
    (hfew : s.registry.inFlight < maxSharedRpcInflight)
    (hfewOfAuth : (Maps.get s.registry.inFlightByAuth (authScopeOf authKeyId)).getD 0 < maxSharedRpcInflightPerAuthKey) :
    Books ⟨{ s.registry with
        inFlight := s.registry.inFlight + 1
        inFlightByAuth := Maps.set s.registry.inFlightByAuth (authScopeOf authKeyId)
          ((Maps.get s.registry.inFlightByAuth (authScopeOf authKeyId)).getD 0 + 1)
        replays := Maps.set s.registry.replays (replayKey authKeyId msgId requestFingerprint) ⟨s.nextPromise, none, 0⟩ },
      s.running ++ [⟨s.nextPromise, authKeyId, msgId, requestFingerprint, s.registry.generation, false⟩],
      s.nextPromise + 1⟩ := by
  have hrunning : ∀ {g : Nat} {x : RpcExecution}, g = s.registry.generation → x.generation = s.registry.generation →
      (s.running ++ [x]).filter (fun x => x.generation = g) = s.current ++ [x] := fun hgen hx => by
    rw [filter_append, filter_cons_of_pos (by simp [hx, hgen]), filter_nil, hgen]
    rfl
  have hmem : ∀ {e}, e ∈ Maps.set s.registry.replays (replayKey authKeyId msgId requestFingerprint)
      ⟨s.nextPromise, none, 0⟩ → e = (replayKey authKeyId msgId requestFingerprint, ⟨s.nextPromise, none, 0⟩) ∨
        e ∈ s.registry.replays := fun he => ((mem_set h.ledger.distinct).1 he).imp id And.left
  exact {
    ledger := by
      refine ⟨h.ledger.distinct.set _ _, ?_, fun e he => ?_⟩
      · rw [sum_set _ h.ledger.distinct, hg, ← h.ledger.bytes]
        simp [completedBytes]
      · rcases hmem he with rfl | he
        · exact le_refl _
        · exact h.ledger.nonneg e he
    covered := fun e he completedAt hc => by
      rcases hmem he with rfl | he
      · cases hc
      · exact h.covered e he completedAt hc
    promises := by
      rw [map_append, map_singleton]
      refine nodup_append.2 ⟨h.promises, nodup_singleton _, fun p hp q hq => ?_⟩
      obtain ⟨x, hx, rfl⟩ := mem_map.1 hp
      rw [mem_singleton.1 hq]
      exact Nat.ne_of_lt (h.issued x hx)
    issued := fun x hx => by
      rcases mem_append.1 hx with hx | hx
      · exact Nat.lt_succ_of_lt (h.issued x hx)
      · rw [mem_singleton.1 hx]
        exact Nat.lt_succ_self _
    generations := fun x hx => by
      rcases mem_append.1 hx with hx | hx
      · exact h.generations x hx
      · rw [mem_singleton.1 hx]
    unsettled := fun x hx hs => by
      rw [current, hrunning rfl rfl, mem_append, mem_singleton] at hx
      rw [get_set]
      rcases hx with hx | rfl
      · have hother := h.unsettled x hx hs
        rw [if_neg (fun hk => by rw [hk, hg] at hother; cases hother), hother]
      · exact if_pos rfl
    entries := fun e he hn => by
      rw [current, hrunning rfl rfl]
      rcases hmem he with rfl | he
      · exact ⟨_, mem_append_right _ (mem_singleton.2 rfl), rfl, rfl⟩
      · obtain ⟨x, hx, hs⟩ := h.entries e he hn
        exact ⟨x, mem_append_left _ hx, hs⟩
    inFlight := by
      rw [current, hrunning rfl rfl, length_append, length_singleton, h.inFlight]
      rfl
    byAuth := by
      refine ⟨h.byAuth.1.set _ _, ?_⟩
      rw [sum_set _ h.byAuth.1, h.byAuth.2, Option.map_id]
      simp only [id]
      omega
    ofAuth := fun scope => by
      rw [current, hrunning rfl rfl, filter_append, length_append, get_set]
      by_cases hscope : scope = authScopeOf authKeyId
      · rw [if_pos hscope, ← hscope, filter_cons_of_pos (by simp [RpcExecution.authScope, hscope]), filter_nil,
          h.ofAuth scope]
        rfl
      · rw [if_neg hscope, filter_cons_of_neg (by simp [RpcExecution.authScope, Ne.symm hscope]), filter_nil,
          h.ofAuth scope]
        rfl
    limits := by
      refine ⟨Int.add_one_le_of_lt hfew, fun e he => ?_⟩
      rcases (mem_set h.byAuth.1).1 he with rfl | ⟨he, -⟩
      · exact Int.add_one_le_of_lt hfewOfAuth
      · exact h.limits.2 e he }

theorem promises_settle (promise : Nat) :
    (s.settle promise).map (fun x => x.promise) = s.running.map (fun x => x.promise) := by
  rw [settle, map_map]
  exact map_congr_left (fun x _ => RpcExecution.settle_promise promise x)

variable {x : RpcExecution}

theorem settled (h : Books s) (hx : x ∈ s.running) {r : RpcDependencyRegistry} (hl : r.Ledger)
    (hc : r.Covers r.replays) (hsame : SameCounters s.registry r)
    (hothers : ∀ y ∈ s.current, y.settled = false → y.promise ≠ x.promise →
      Maps.get r.replays y.key = Maps.get s.registry.replays y.key)
    (hentries : ∀ e ∈ r.replays, e.2.completedAt = none → e ∈ s.registry.replays ∧ (x ∈ s.current → e.1 ≠ x.key)) :
    Books { s with registry := r, running := s.settle x.promise } := by
  have hcurrent : current { s with registry := r, running := s.settle x.promise } =
      s.current.map (fun y => y.settle x.promise) := by
    unfold current settle
    rw [hsame.generation, filter_map]
    congr 1
    exact filter_congr (fun y _ => by simp only [Function.comp, RpcExecution.settle_generation])
  exact {
    ledger := hl
    covered := hc
    promises := by
      show ((s.settle x.promise).map (fun x => x.promise)).Nodup
      rw [promises_settle]
      exact h.promises
    issued := fun y hy => by
      obtain ⟨z, hz, rfl⟩ := mem_map.1 hy
      rw [RpcExecution.settle_promise]
      exact h.issued z hz
    generations := fun y hy => by
      obtain ⟨z, hz, rfl⟩ := mem_map.1 hy
      rw [RpcExecution.settle_generation, hsame.generation]
      exact h.generations z hz
    unsettled := fun y hy hys => by
      rw [hcurrent] at hy
      obtain ⟨z, hz, rfl⟩ := mem_map.1 hy
      obtain ⟨hzp, hzs⟩ := RpcExecution.settled_settle hys
      rw [RpcExecution.settle_key, RpcExecution.settle_promise, hothers z hz hzs hzp]
      exact h.unsettled z hz hzs
    entries := fun e he hn => by
      obtain ⟨hmem, hk⟩ := hentries e he hn
      obtain ⟨y, hy, hys, hyk⟩ := h.entries e hmem hn
      rw [hcurrent]
      refine ⟨y, mem_map.2 ⟨y, hy, RpcExecution.settle_of_ne (fun hp => ?_)⟩, hys, hyk⟩
      have hyx := h.eq_of_promise (mem_current.1 hy).1 hx hp
      exact hk (hyx ▸ hy) (hyx ▸ hyk.symm)
    inFlight := by
      rw [hcurrent, length_map, hsame.inFlight]
      exact h.inFlight
    byAuth := by
      rw [hsame.inFlight, hsame.inFlightByAuth]
      exact h.byAuth
    ofAuth := fun scope => by
      rw [hcurrent, hsame.inFlightByAuth, h.ofAuth scope, filter_map, length_map]
      congr 2
      exact filter_congr (fun y _ => by simp only [Function.comp, RpcExecution.settle_authScope])
    limits := by
      rw [hsame.inFlight, hsame.inFlightByAuth]
      exact h.limits }

theorem settled_before (h : Books s) (hx : x ∈ s.running)
    (hgen : x.generation ≠ s.registry.generation) : Books { s with running := s.settle x.promise } :=
  h.settled hx h.ledger h.covered (.refl _) (fun _ _ _ _ => rfl)
    (fun _ he _ => ⟨he, fun hc => absurd (mem_current.1 hc).2 hgen⟩)

theorem key_ne (h : Books s) {x y : RpcExecution} (hx : x ∈ s.current) (hxs : x.settled = false) (hy : y ∈ s.current)
    (hys : y.settled = false) (hne : y.promise ≠ x.promise) : y.key ≠ x.key := fun hk => by
  have hyentry := h.unsettled y hy hys
  rw [hk, h.unsettled x hx hxs] at hyentry
  exact hne (by simpa using hyentry.symm)

theorem fulfilled (h : Books s) (hx : x ∈ s.running) (hs : x.settled = false) (byteLength : Nat)
    (now : Int) : Books { s with registry := s.registry.fulfilled x byteLength now, running := s.settle x.promise } := by
  unfold RpcDependencyRegistry.fulfilled
  by_cases hgen : x.generation = s.registry.generation
  · rw [if_neg (by simpa using hgen)]
    have hcur : x ∈ s.current := mem_current.2 ⟨hx, hgen⟩
    have hd := h.ledger.distinct.delete x.key
    have hgone : Maps.get (Maps.delete s.registry.replays x.key) x.key = none := by
      rw [get_delete, if_pos rfl]
    have hmem : ∀ {e}, e ∈ Maps.set (Maps.delete s.registry.replays x.key) x.key ⟨x.promise, some now, byteLength⟩ →
        e = (x.key, ⟨x.promise, some now, byteLength⟩) ∨ e ∈ s.registry.replays ∧ e.1 ≠ x.key := fun he => by
      rcases (mem_set hd).1 he with rfl | ⟨he, hne⟩
      · exact Or.inl rfl
      · exact Or.inr ⟨(mem_delete.1 he).1, hne⟩
    obtain ⟨deadline, hdeadline, hle, hprev⟩ := earlier_le s.registry.nextReplayExpiry (now + rpcReplayTtlMs + 1)
    have hbooks := h.settled (r := { s.registry with
        nextReplayExpiry := earlier s.registry.nextReplayExpiry (now + rpcReplayTtlMs + 1)
        replayBytes := s.registry.replayBytes + byteLength
        replays := Maps.set (Maps.delete s.registry.replays x.key) x.key ⟨x.promise, some now, byteLength⟩ }) hx
      ⟨hd.set _ _, by
        have hunder : completedBytes ⟨x.promise, none, 0⟩ = 0 := rfl
        rw [sum_set _ hd, sum_delete _ h.ledger.distinct, hgone, h.unsettled x hcur hs, ← h.ledger.bytes,
          Option.map_some, Option.map_none, Option.getD_none, Option.getD_some, hunder]
        simp [completedBytes], fun e he => by
        rcases hmem he with rfl | ⟨he, -⟩
        · exact Int.natCast_nonneg _
        · exact h.ledger.nonneg e he⟩
      (fun e he completedAt hec => by
        rcases hmem he with rfl | ⟨he, -⟩
        · cases hec
          exact ⟨deadline, hdeadline, hle⟩
        · obtain ⟨previous, hp, hple⟩ := h.covered e he completedAt hec
          exact ⟨deadline, hdeadline, le_trans (hprev previous hp) hple⟩)
      ⟨rfl, rfl, rfl⟩
      (fun y hy hys hne => by
        rw [get_set, if_neg (h.key_ne hcur hs hy hys hne), get_delete, if_neg (h.key_ne hcur hs hy hys hne)])
      (fun e he hn => by
        rcases hmem he with rfl | ⟨he, hne⟩
        · cases hn
        · exact ⟨he, fun _ => hne⟩)
    exact hbooks.prune (prune_pruned now hbooks.ledger hbooks.covered)
  · rw [if_pos (by simpa using hgen)]
    exact h.settled_before hx hgen

theorem rejected (h : Books s) (hx : x ∈ s.running) (hs : x.settled = false) :
    Books { s with registry := s.registry.rejected x, running := s.settle x.promise } := by
  unfold RpcDependencyRegistry.rejected
  by_cases hgen : x.generation = s.registry.generation
  · rw [if_neg (by simpa using hgen)]
    have hcur : x ∈ s.current := mem_current.2 ⟨hx, hgen⟩
    obtain ⟨hl, hreplays, -, hnext, hsame⟩ := deleteReplay_of_get h.ledger (h.unsettled x hcur hs)
    have hmem : ∀ {e}, e ∈ (s.registry.deleteReplay x.key ⟨x.promise, none, 0⟩).replays →
        e ∈ s.registry.replays ∧ e.1 ≠ x.key := fun he => mem_delete.1 (hreplays ▸ he)
    refine h.settled hx hl (fun e he completedAt hec => ?_) hsame (fun y hy hys hne => ?_)
      (fun e he _ => ⟨(hmem he).1, fun _ => (hmem he).2⟩)
    · rw [hnext]
      exact h.covered e (hmem he).1 completedAt hec
    · rw [hreplays, get_delete, if_neg (h.key_ne hcur hs hy hys hne)]
  · rw [if_pos (by simpa using hgen)]
    exact h.settled_before hx hgen

theorem length_without (h : Books s) (hx : x ∈ s.current) (p : RpcExecution → Bool) :
    (s.current.filter p).length =
      ((s.current.filter (fun y => y.promise ≠ x.promise)).filter p).length + if p x then 1 else 0 := by
  have hperm : s.current.Perm (x :: s.current.filter (fun y => y.promise ≠ x.promise)) := by
    have hnodup : s.current.Nodup := (List.Nodup.of_map _ h.promises).filter _
    rw [perm_ext_iff_of_nodup hnodup (nodup_cons.2 ⟨by simp, hnodup.filter _⟩)]
    intro y
    rw [mem_cons, mem_filter, decide_eq_true_eq]
    constructor
    · intro hy
      by_cases hp : y.promise = x.promise
      · exact Or.inl (h.eq_of_promise (mem_current.1 hy).1 (mem_current.1 hx).1 hp)
      · exact Or.inr ⟨hy, hp⟩
    · rintro (rfl | ⟨hy, -⟩)
      · exact hx
      · exact hy
  rw [(hperm.filter p).length_eq, filter_cons]
  split <;> simp

theorem finished (h : Books s) (hx : x ∈ s.running) (hs : x.settled = true) :
    Books { s with registry := s.registry.finished x
                   running := s.running.filter (fun y => y.promise ≠ x.promise) } := by
  have hcurrent : (s.running.filter (fun y => y.promise ≠ x.promise)).filter
      (fun y => y.generation = s.registry.generation) = s.current.filter (fun y => y.promise ≠ x.promise) := by
    rw [current, filter_filter, filter_filter]
    exact filter_congr (fun y _ => Bool.and_comm _ _)
  have hsub : ∀ {y}, y ∈ s.running.filter (fun y => y.promise ≠ x.promise) → y ∈ s.running := fun hy =>
    (mem_filter.1 hy).1
  have hpromises : ((s.running.filter (fun y => y.promise ≠ x.promise)).map (fun y => y.promise)).Nodup :=
    h.promises.sublist (filter_sublist.map _)
  have hentries : ∀ e ∈ s.registry.replays, e.2.completedAt = none →
      ∃ y ∈ s.current.filter (fun y => y.promise ≠ x.promise), y.settled = false ∧ y.key = e.1 := fun e he hn => by
    obtain ⟨y, hy, hys, hyk⟩ := h.entries e he hn
    refine ⟨y, mem_filter.2 ⟨hy, decide_eq_true (fun hp => ?_)⟩, hys, hyk⟩
    rw [h.eq_of_promise (mem_current.1 hy).1 hx hp, hs] at hys
    cases hys
  have hunsettled : ∀ y ∈ s.current.filter (fun y => y.promise ≠ x.promise), y.settled = false →
      Maps.get s.registry.replays y.key = some ⟨y.promise, none, 0⟩ := fun y hy =>
    h.unsettled y (mem_filter.1 hy).1
  unfold RpcDependencyRegistry.finished
  by_cases hgen : x.generation = s.registry.generation
  · rw [if_neg (by simpa using hgen)]
    have hcur : x ∈ s.current := mem_current.2 ⟨hx, hgen⟩
    have hcount : ∀ scope, ((s.current.filter (fun y => y.promise ≠ x.promise)).filter
        (fun y => y.authScope = scope)).length = (Maps.get s.registry.inFlightByAuth scope).getD 0 -
          if x.authScope = scope then 1 else 0 := fun scope => by
      rw [h.ofAuth scope, h.length_without hcur (fun y => y.authScope = scope)]
      by_cases hscope : x.authScope = scope
      · rw [if_pos hscope, if_pos (decide_eq_true hscope)]
        omega
      · rw [if_neg hscope, if_neg (by simpa using hscope)]
        omega
    -- the request is still counted, so its auth key has a row
    obtain ⟨n, hn⟩ : ∃ n, Maps.get s.registry.inFlightByAuth x.authScope = some n := by
      rw [← Option.isSome_iff_exists, Option.isSome_iff_ne_none]
      intro hnone
      have := hcount x.authScope
      rw [hnone, if_pos rfl] at this
      simp only [Option.getD_none] at this
      omega
    have hremaining : (Maps.get s.registry.inFlightByAuth x.authScope).getD 1 - 1 = n - 1 := by rw [hn]; rfl
    have hnonneg : 0 ≤ n - 1 := by
      have := hcount x.authScope
      rw [hn, if_pos rfl, Option.getD_some] at this
      omega
    have hrows : Maps.Distinct (if 0 < n - 1 then Maps.set s.registry.inFlightByAuth x.authScope (n - 1)
          else Maps.delete s.registry.inFlightByAuth x.authScope) ∧
        Maps.sum id (if 0 < n - 1 then Maps.set s.registry.inFlightByAuth x.authScope (n - 1)
          else Maps.delete s.registry.inFlightByAuth x.authScope) = s.registry.inFlight - 1 ∧
        ∀ scope, (Maps.get (if 0 < n - 1 then Maps.set s.registry.inFlightByAuth x.authScope (n - 1)
          else Maps.delete s.registry.inFlightByAuth x.authScope) scope).getD 0 =
            (Maps.get s.registry.inFlightByAuth scope).getD 0 - if x.authScope = scope then 1 else 0 := by
      split
      · refine ⟨h.byAuth.1.set _ _, ?_, fun scope => ?_⟩
        · rw [sum_set _ h.byAuth.1, h.byAuth.2, hn]
          simp only [Option.map_some, Option.getD_some, id]
          omega
        · rw [get_set]
          by_cases hscope : scope = x.authScope
          · rw [if_pos hscope, hscope, hn, if_pos rfl]
            rfl
          · rw [if_neg hscope, if_neg (Ne.symm hscope), Int.sub_zero]
      · refine ⟨h.byAuth.1.delete _, ?_, fun scope => ?_⟩
        · rw [sum_delete _ h.byAuth.1, h.byAuth.2, hn]
          simp only [Option.map_some, Option.getD_some, id]
          omega
        · rw [get_delete]
          by_cases hscope : scope = x.authScope
          · rw [if_pos hscope, hscope, hn, if_pos rfl]
            simp only [Option.getD_none, Option.getD_some]
            omega
          · rw [if_neg hscope, if_neg (Ne.symm hscope), Int.sub_zero]
    simp only [hremaining]
    exact {
      ledger := ⟨h.ledger.distinct, h.ledger.bytes, h.ledger.nonneg⟩
      covered := h.covered
      promises := hpromises
      issued := fun y hy => h.issued y (hsub hy)
      generations := fun y hy => h.generations y (hsub hy)
      unsettled := fun y hy => hunsettled y (hcurrent ▸ hy)
      entries := fun e he hn => by
        rw [current, hcurrent]
        exact hentries e he hn
      inFlight := by
        rw [current, hcurrent]
        have := h.length_without hcur (fun _ => true)
        simp only [filter_true, if_true] at this
        show s.registry.inFlight - 1 = _
        rw [h.inFlight, this]
        omega
      byAuth := ⟨hrows.1, hrows.2.1⟩
      ofAuth := fun scope => by
        rw [current, hcurrent, hrows.2.2 scope]
        exact (hcount scope).symm
      limits := by
        refine ⟨?_, fun e he => ?_⟩
        · have := h.limits.1
          show s.registry.inFlight - 1 ≤ _
          omega
        · have hown := h.limits.2 _ (mem_of_get hn)
          have he : e ∈ (if 0 < n - 1 then Maps.set s.registry.inFlightByAuth x.authScope (n - 1)
            else Maps.delete s.registry.inFlightByAuth x.authScope) := he
          split at he
          · rcases (mem_set h.byAuth.1).1 he with rfl | ⟨he, -⟩
            · simp only
              omega
            · exact h.limits.2 e he
          · exact h.limits.2 e (mem_delete.1 he).1 }
  · rw [if_pos (by simpa using hgen)]
    have hother : s.current.filter (fun y => y.promise ≠ x.promise) = s.current :=
      filter_eq_self.2 (fun y hy => decide_eq_true (fun hp => hgen (by
        rw [← h.eq_of_promise (mem_current.1 hy).1 hx hp]
        exact (mem_current.1 hy).2)))
    exact {
      ledger := h.ledger
      covered := h.covered
      promises := hpromises
      issued := fun y hy => h.issued y (hsub hy)
      generations := fun y hy => h.generations y (hsub hy)
      unsettled := fun y hy => hunsettled y (hcurrent ▸ hy)
      entries := fun e he hn => by
        rw [current, hcurrent]
        exact hentries e he hn
      inFlight := by
        rw [current, hcurrent, hother]
        exact h.inFlight
      byAuth := h.byAuth
      ofAuth := fun scope => by
        rw [current, hcurrent, hother]
        exact h.ofAuth scope
      limits := h.limits }

/-- **A cleared registry has none of the requests still under way on its books.** -/
theorem clear (h : Books s) : Books { s with registry := s.registry.clear } := by
  have hcurrent : current { s with registry := s.registry.clear } = [] := by
    refine filter_eq_nil_iff.2 (fun x hx => ?_)
    have hgen : x.generation ≠ s.registry.generation + 1 := by
      have := h.generations x hx
      omega
    rw [decide_eq_true_eq]
    exact hgen
  exact {
    ledger := ⟨.nil, rfl, fun _ he => (nomatch he)⟩
    covered := fun _ he => (nomatch he)
    promises := h.promises
    issued := h.issued
    generations := fun x hx => Nat.le_succ_of_le (h.generations x hx)
    unsettled := fun x hx => by
      rw [hcurrent] at hx
      cases hx
    entries := fun _ he => (nomatch he)
    inFlight := by
      rw [hcurrent]
      rfl
    byAuth := ⟨.nil, rfl⟩
    ofAuth := fun scope => by
      rw [hcurrent]
      rfl
    limits := ⟨show (0 : Int) ≤ maxSharedRpcInflight by decide, fun _ he => (nomatch he)⟩ }

/-- **One call or callback keeps the books.** -/
theorem step (h : Books s) (event : RpcEvent) : Books (s.step event).1 := by
  have hdue : ∀ {promise settled x}, s.due promise settled = some x →
      x ∈ s.running ∧ x.promise = promise ∧ x.settled = settled := fun hx =>
    ⟨mem_of_find?_eq_some hx, by simpa using find?_some hx⟩
  cases event with
  | register => exact { h with ledger := ⟨h.ledger.distinct, h.ledger.bytes, h.ledger.nonneg⟩ }
  | complete => exact { h with ledger := ⟨h.ledger.distinct, h.ledger.bytes, h.ledger.nonneg⟩ }
  | execute authKeyId msgId requestFingerprint now =>
    have hpruned := h.prune (prune_pruned now h.ledger h.covered)
    simp only [RpcCalls.step, execute]
    cases hg : Maps.get (s.registry.prune now).replays (replayKey authKeyId msgId requestFingerprint) with
    | some existing =>
      by_cases hcompleted : existing.completedAt.isSome = true
      · simp only [if_pos hcompleted]
        exact hpruned.moved hg
      · simp only [if_neg hcompleted]
        exact hpruned
    | none =>
      by_cases hfull : maxSharedRpcInflight ≤ (s.registry.prune now).inFlight ∨ maxSharedRpcInflightPerAuthKey ≤
          (Maps.get (s.registry.prune now).inFlightByAuth (authScopeOf authKeyId)).getD 0
      · simp only [if_pos hfull]
        exact hpruned
      · simp only [if_neg hfull]
        rw [not_or, not_le, not_le] at hfull
        exact hpruned.started hg hfull.1 hfull.2
  | fulfilled promise byteLength now =>
    simp only [RpcCalls.step]
    cases hx : s.due promise false with
    | none => exact h
    | some x =>
      obtain ⟨hmem, rfl, hs⟩ := hdue hx
      exact h.fulfilled hmem hs byteLength now
  | rejected promise =>
    simp only [RpcCalls.step]
    cases hx : s.due promise false with
    | none => exact h
    | some x =>
      obtain ⟨hmem, rfl, hs⟩ := hdue hx
      exact h.rejected hmem hs
  | finished promise =>
    simp only [RpcCalls.step]
    cases hx : s.due promise true with
    | none => exact h
    | some x =>
      obtain ⟨hmem, rfl, hs⟩ := hdue hx
      exact h.finished hmem hs
  | prune now => exact h.prune (prune_pruned now h.ledger h.covered)
  | clear => exact h.clear

/-- **The books are kept in every run.** -/
theorem final (startedAtSeconds : Int) (events : List RpcEvent) :
    Books (Runs.final RpcCalls.step (empty startedAtSeconds) events) :=
  Runs.final_invariant (fun _ event h => h.step event) events _ (books_empty startedAtSeconds)

/-! ## What the books say -/

theorem length_unsettled (h : Books s) : (s.registry.replays.filter (fun e => e.2.completedAt = none)).length =
    (s.current.filter (fun x => x.settled = false)).length := by
  have hnodup : s.current.Nodup := (List.Nodup.of_map _ h.promises).filter _
  have hkeys : ((s.current.filter (fun x => x.settled = false)).map (fun x => x.key)).Nodup := by
    refine List.Nodup.map_on (fun x hx y hy hk => ?_) (hnodup.filter _)
    rw [mem_filter, decide_eq_true_eq] at hx hy
    by_contra hne
    have hp : y.promise ≠ x.promise := fun hp =>
      hne (h.eq_of_promise (mem_current.1 hx.1).1 (mem_current.1 hy.1).1 hp.symm)
    exact h.key_ne hx.1 hx.2 hy.1 hy.2 hp hk.symm
  have hentries : ((s.registry.replays.filter (fun e => e.2.completedAt = none)).map Prod.fst).Nodup := by
    have hp := h.ledger.distinct.filter (fun e => e.2.completedAt = none)
    rw [List.Nodup, pairwise_map]
    exact hp
  have hperm : ((s.registry.replays.filter (fun e => e.2.completedAt = none)).map Prod.fst).Perm
      ((s.current.filter (fun x => x.settled = false)).map (fun x => x.key)) := by
    rw [perm_ext_iff_of_nodup hentries hkeys]
    intro key
    simp only [mem_map, mem_filter, decide_eq_true_eq]
    constructor
    · rintro ⟨e, ⟨he, hn⟩, rfl⟩
      obtain ⟨x, hx, hs, hk⟩ := h.entries e he hn
      exact ⟨x, ⟨hx, hs⟩, hk⟩
    · rintro ⟨x, ⟨hx, hs⟩, rfl⟩
      exact ⟨_, ⟨mem_of_get (h.unsettled x hx hs), rfl⟩, rfl⟩
  simpa using hperm.length_eq

/-- **`_inFlight` is the entries under way and the settled requests whose `finally` is still due.** -/
theorem inFlight_eq (h : Books s) :
    s.registry.inFlight = ((s.registry.replays.filter (fun e => e.2.completedAt = none)).length : Int) +
      (s.current.filter (fun x => x.settled = true)).length := by
  rw [h.length_unsettled, h.inFlight]
  have := length_eq_length_filter_add (l := s.current) (fun x => decide (x.settled = true))
  rw [this]
  push_cast
  rw [Int.add_comm]
  congr 3
  exact filter_congr (fun x _ => by cases x.settled <;> rfl)

/-- **After a prune both limits hold**: what is under way fits them. -/
theorem limits_prune (h : Books s) (now : Int) :
    (s.registry.prune now).replays.length ≤ maxRpcReplayEntries ∧
      (s.registry.prune now).replayBytes ≤ maxRpcReplayBytes := by
  have hp := prune_pruned now h.ledger h.covered
  rcases hp.limits with hw | hnone
  · simpa [withinLimits] using hw
  · have hb := h.prune hp
    have hall : (s.registry.prune now).replays.filter (fun e => e.2.completedAt = none) =
        (s.registry.prune now).replays := filter_eq_self.2 (fun e he => decide_eq_true (hnone e he))
    have hlen : (s.registry.prune now).inFlight = ((s.registry.prune now).replays.filter
        (fun e => e.2.completedAt = none)).length + _ := hb.inFlight_eq
    have hlim : (s.registry.prune now).inFlight ≤ maxSharedRpcInflight := hb.limits.1
    rw [hall] at hlen
    have hzero : ∀ (l : List (String × RpcReplayEntry)), (∀ e ∈ l, e.2.completedAt = none) →
        Maps.sum completedBytes l = 0 := by
      intro l hl
      induction l with
      | nil => rfl
      | cons e l ih =>
        rw [Maps.sum, ih (fun e' he' => hl e' (mem_cons_of_mem _ he')), completedBytes, hl e mem_cons_self]
        rfl
    refine ⟨?_, ?_⟩
    · unfold maxSharedRpcInflight at hlim
      unfold maxRpcReplayEntries
      omega
    · rw [hp.ledger.bytes, hzero _ hnone]
      decide

end Books

/-- **The registry keeps exact books and runs each request once.**  Of every run: the counters are sums over what is
there and stay within their limits; a prune misses no expired entry and leaves the limits met; and a request with an entry
is answered by it, so that no request of the generation is under way twice. -/
theorem rpc_replays_keep_books (startedAtSeconds : Int) (events : List RpcEvent) :
    let s := Runs.final step (empty startedAtSeconds) events
    let r := s.registry
    (r.inFlight = ((r.replays.filter (fun e => e.2.completedAt = none)).length : Int) +
        (s.current.filter (fun x => x.settled = true)).length ∧
      r.inFlight = Maps.sum id r.inFlightByAuth ∧ r.inFlight ≤ 512 ∧ ∀ e ∈ r.inFlightByAuth, e.2 ≤ 64) ∧
    r.replayBytes = Maps.sum completedBytes r.replays ∧
    (∀ now, ∀ e ∈ r.replays, ∀ completedAt ∈ e.2.completedAt, rpcReplayTtlMs < now - completedAt →
      ∃ deadline, r.nextReplayExpiry = some deadline ∧ deadline ≤ now) ∧
    (∀ now, (r.prune now).replays.length ≤ maxRpcReplayEntries ∧ (r.prune now).replayBytes ≤ maxRpcReplayBytes ∧
      (∀ e ∈ (r.prune now).replays, ∀ completedAt ∈ e.2.completedAt, now - completedAt ≤ rpcReplayTtlMs) ∧
      ∀ e ∈ r.replays, e.2.completedAt = none → e ∈ (r.prune now).replays) ∧
    (∀ authKeyId msgId requestFingerprint now, ∀ entry ∈
        Maps.get (r.prune now).replays (replayKey authKeyId msgId requestFingerprint),
      (s.step (.execute authKeyId msgId requestFingerprint now)).2 = some (.ok entry.promise) ∧
        (s.step (.execute authKeyId msgId requestFingerprint now)).1.running = s.running ∧
        (entry.completedAt = none → ∃ x ∈ s.current, x.promise = entry.promise ∧ x.authKeyId = authKeyId ∧
          x.msgId = msgId ∧ x.requestFingerprint = requestFingerprint)) ∧
    ∀ x ∈ s.current, ∀ y ∈ s.current, x.settled = false → y.settled = false →
      x.authKeyId = y.authKeyId → x.msgId = y.msgId → x.requestFingerprint = y.requestFingerprint → x = y := by
  intro s r
  have h : Books s := Books.final startedAtSeconds events
  refine ⟨⟨h.inFlight_eq, h.byAuth.2.symm, h.limits⟩, h.ledger.bytes, fun now e he completedAt hc hold => ?_,
    fun now => ?_, fun authKeyId msgId requestFingerprint now entry hentry => ?_,
    fun x hx y hy hxs hys ha hm hf => ?_⟩
  · obtain ⟨deadline, hd, hle⟩ := h.covered e he completedAt hc
    exact ⟨deadline, hd, by omega⟩
  · have hp := prune_pruned now h.ledger h.covered
    obtain ⟨hlen, hbytes⟩ := h.limits_prune now
    exact ⟨hlen, hbytes, hp.unexpired, hp.pending⟩
  · have hg : Maps.get (s.registry.prune now).replays (replayKey authKeyId msgId requestFingerprint) = some entry := hentry
    refine ⟨by simp only [step, execute, hg], by simp only [step, execute, hg], fun hn => ?_⟩
    have hmem := (prune_pruned now h.ledger h.covered).sublist.subset (mem_of_get hg)
    obtain ⟨x, hx, hs, hk⟩ := h.entries _ hmem hn
    have hown := h.unsettled x hx hs
    rw [hk, get_of_mem h.ledger.distinct hmem, Option.some.injEq] at hown
    obtain ⟨ha, hm, hf⟩ := replayKey_injective hk
    exact ⟨x, hx, by rw [hown], ha, hm, hf⟩
  · by_contra hne
    have hk : y.key = x.key := by
      unfold RpcExecution.key
      rw [ha, hm, hf]
    exact h.key_ne hx hxs hy hys (fun hp => hne (h.eq_of_promise (mem_current.1 hx).1 (mem_current.1 hy).1 hp.symm)) hk

/-- Between the two callbacks of a request no entry is under way and the request is still counted. -/
theorem inFlight_counts_settled :
    let s := Runs.final step (empty 0) [.execute [1] 1 "a" 0, .fulfilled 0 5 0]
    s.registry.inFlight ≠ ((s.registry.replays.filter (fun e => e.2.completedAt = none)).length : Int) := by
  decide +kernel

end RpcCalls

end Crossgram
