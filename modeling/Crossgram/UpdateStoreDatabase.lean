import Mathlib.Data.List.Nodup
import Mathlib.Data.List.Perm.Subperm
import Std.Data.String.ToNat
import Crossgram.Lib.Maps
import Crossgram.Lib.Runs
import Crossgram.UpdateStore
/-!
# UpdateStoreDatabase — retention in the database backend (packages/update-store-database/src/index.ts)

The backend trims a scope when a count it caches says so.  The count is taken when the scope is first written, goes up
with every row, and never comes down with the rows that are removed or expire: it is never below the number of rows.
-/
namespace Crossgram

open List

def UpdateScope.name : UpdateScope → String
  | .account           => "account"
  | .channel channelId => "channel:" ++ channelId.repr

namespace UpdateStoreDatabase

def PRUNE_BATCH_SLACK : Nat := 512

structure Config where
  retention : Nat := 10000
  retentionSeconds : Nat := 3 * 24 * 3600

def Config.slack (config : Config) : Nat := if config.retention ≥ 4 * PRUNE_BATCH_SLACK then PRUNE_BATCH_SLACK else 0

/-- `_scopeKey` -/
def scopeKey (platformSessionId : String) (scope : UpdateScope) : String :=
  platformSessionId ++ "\x00" ++ scope.name

/-! ## Scope keys -/

theorem append_cons_cancel {α : Type} {l l' r r' : List α} {a : α} (hr : a ∉ r) (hr' : a ∉ r')
    (h : l ++ a :: r = l' ++ a :: r') : l = l' ∧ r = r' := by
  rcases append_eq_append_iff.1 h with ⟨t, hl, ht⟩ | ⟨t, hl, ht⟩
  · cases t with
    | nil =>
      cases ht
      exact ⟨by simpa using hl.symm, rfl⟩
    | cons x t =>
      obtain ⟨-, rfl⟩ := List.cons.inj ht
      exact absurd (mem_append_right t mem_cons_self) hr
  · cases t with
    | nil =>
      cases ht
      exact ⟨by simpa using hl, rfl⟩
    | cons x t =>
      obtain ⟨-, rfl⟩ := List.cons.inj ht
      exact absurd (mem_append_right t mem_cons_self) hr'

theorem name_toList (channelId : Nat) :
    (UpdateScope.channel channelId).name.toList = "channel:".toList ++ channelId.repr.toList := String.toList_append

theorem nul_notMem_name (scope : UpdateScope) : '\x00' ∉ scope.name.toList := by
  cases scope with
  | account => decide
  | channel channelId =>
    rw [name_toList, mem_append]
    rintro (h | h)
    · exact absurd h (by decide)
    · rw [Nat.toList_repr] at h
      have hdigit := Nat.isDigit_of_mem_toDigits (by decide) (by decide) h
      exact absurd hdigit (by decide)

theorem name_ne (channelId : Nat) : UpdateScope.account.name ≠ (UpdateScope.channel channelId).name := by
  intro h
  have hhead := congrArg (fun s => s.toList.head?) h
  have hchannel : "channel:".toList.head? = some 'c' := rfl
  rw [name_toList, head?_append, hchannel, Option.some_or] at hhead
  exact absurd hhead (by decide)

variable {scope scope' : UpdateScope}

theorem name_injective (h : scope.name = scope'.name) : scope = scope' := by
  cases scope with
  | account =>
    cases scope' with
    | account => rfl
    | channel n => exact absurd h (name_ne n)
  | channel m =>
    cases scope' with
    | account => exact absurd h.symm (name_ne m)
    | channel n =>
      have hlist := congrArg String.toList h
      rw [name_toList, name_toList] at hlist
      rw [Nat.repr_injective (String.toList_injective (append_cancel_left hlist))]

theorem scopeKey_toList (platformSessionId : String) (scope : UpdateScope) :
    (scopeKey platformSessionId scope).toList = platformSessionId.toList ++ '\x00' :: scope.name.toList := by
  unfold scopeKey
  rw [String.toList_append, String.toList_append, append_assoc]
  rfl

/-- **A key is the key of one scope of one session.** -/
theorem scopeKey_inj {p p' : String} :
    scopeKey p scope = scopeKey p' scope' ↔ p = p' ∧ scope = scope' := by
  constructor
  · intro h
    have hlist := congrArg String.toList h
    rw [scopeKey_toList, scopeKey_toList] at hlist
    obtain ⟨hp, hscope⟩ := append_cons_cancel (nul_notMem_name scope) (nul_notMem_name scope') hlist
    exact ⟨String.toList_injective hp, name_injective (String.toList_injective hscope)⟩
  · rintro ⟨rfl, rfl⟩
    rfl

/-! ## The backend -/

variable {J : Type}

def inScope (platformSessionId : String) (scope : UpdateScope) (d : UpdateDelivery J) : Bool :=
  decide (d.platformSessionId = platformSessionId ∧ d.scope = scope)

def scopeRows (l : UpdateLog J) (platformSessionId : String) (scope : UpdateScope) : List (UpdateDelivery J) :=
  l.rows.filter (inScope platformSessionId scope)

/-- `orderBy('messageId', 'desc')` -/
def newestFirst (a b : UpdateDelivery J) : Prop := b.messageId ≤ a.messageId

instance : DecidableRel (newestFirst (J := J)) := fun a b => inferInstanceAs (Decidable (b.messageId ≤ a.messageId))
instance : Std.Total (newestFirst (J := J)) := ⟨fun a b => Nat.le_total b.messageId a.messageId⟩
instance : IsTrans (UpdateDelivery J) newestFirst := ⟨fun _ _ _ h h' => Nat.le_trans h' h⟩

/-- `_pruneTo`: the newest row beyond `keep` and all older rows of the scope go. -/
def pruneTo (l : UpdateLog J) (platformSessionId : String) (scope : UpdateScope) (keep : Nat) : UpdateLog J :=
  match ((scopeRows l platformSessionId scope).insertionSort newestFirst)[keep]? with
  | none                => l
  | some oldestOverflow =>
    l.prune (fun d => !(inScope platformSessionId scope d && decide (d.messageId ≤ oldestOverflow.messageId)))

structure Backend (J : Type) where
  log : UpdateLog J
  scopeCounts : List (String × Nat) := []

namespace Backend

variable (config : Config)

/-- `_trim` -/
def trim (b : Backend J) (platformSessionId : String) (scope : UpdateScope) : Backend J :=
  let key := scopeKey platformSessionId scope
  if config.retention = 0 then
    { log := b.log.prune (fun d => !inScope platformSessionId scope d), scopeCounts := Maps.delete b.scopeCounts key }
  else
    let count := match Maps.get b.scopeCounts key with
      | none       => (scopeRows b.log platformSessionId scope).length
      | some known => known + 1
    if count ≤ config.retention + config.slack then { b with scopeCounts := Maps.set b.scopeCounts key count }
    else
      { log := pruneTo b.log platformSessionId scope config.retention
        scopeCounts := Maps.set b.scopeCounts key config.retention }

def create (b : Backend J) (d : NewUpdateDelivery J) : Backend J × UpdateDelivery J :=
  match h : b.log.get d.eventKey with
  | some existing => (b, existing)
  | none          => (trim config { b with log := b.log.append d h } d.platformSessionId d.scope, b.log.rowOf d)

def remove (b : Backend J) (eventKey : String) : Backend J := { b with log := b.log.remove eventKey }

def prune (b : Backend J) (platformSessionId : String) (scope : UpdateScope) : Backend J :=
  let key := scopeKey platformSessionId scope
  let counts := Maps.delete b.scopeCounts key
  if config.retention = 0 then
    { log := b.log.prune (fun d => !inScope platformSessionId scope d), scopeCounts := counts }
  else
    let log := pruneTo b.log platformSessionId scope config.retention
    { log, scopeCounts := Maps.set counts key (scopeRows log platformSessionId scope).length }

/-- `pruneExpired`, with the number of rows it removed. -/
def pruneExpired (b : Backend J) (now : Int) : Backend J × Nat :=
  if config.retentionSeconds = 0 then (b, 0)
  else
    let cutoff := now / 1000 - config.retentionSeconds
    ({ b with log := b.log.prune (fun d => decide (¬ d.date < cutoff)) },
      (b.log.rows.filter (fun d => decide (d.date < cutoff))).length)

end Backend

inductive StoreCall (J : Type)
  | create (delivery : NewUpdateDelivery J)
  | remove (eventKey : String)
  | prune (platformSessionId : String) (scope : UpdateScope)
  | pruneExpired (now : Int)

inductive StoreReply (J : Type)
  | delivery (d : UpdateDelivery J)
  | removed (n : Nat)
  | done

def step (config : Config) (b : Backend J) : StoreCall J → Backend J × StoreReply J
  | .create d       => ((b.create config d).1, .delivery (b.create config d).2)
  | .remove k       => (b.remove k, .done)
  | .prune p scope  => (b.prune config p scope, .done)
  | .pruneExpired t => ((b.pruneExpired config t).1, .removed (b.pruneExpired config t).2)

/-! ## What trimming deletes -/

def newest (l : UpdateLog J) (platformSessionId : String) (scope : UpdateScope) (n : Nat) : List (UpdateDelivery J) :=
  Windows.window newestFirst n (scopeRows l platformSessionId scope)

variable {scope : UpdateScope} {l : UpdateLog J} {p : String}

theorem mem_scopeRows {d : UpdateDelivery J} :
    d ∈ scopeRows l p scope ↔ d ∈ l.rows ∧ d.platformSessionId = p ∧ d.scope = scope := by
  unfold scopeRows inScope
  rw [mem_filter, decide_eq_true_eq]

theorem nodup_rows (l : UpdateLog J) : l.rows.Nodup :=
  l.idsIncrease.imp (fun {a b} h heq => by rw [heq] at h; exact Nat.lt_irrefl _ h)

theorem nodup_scopeRows (l : UpdateLog J) (p : String) (scope : UpdateScope) : (scopeRows l p scope).Nodup :=
  (nodup_rows l).filter _

variable {keep : Nat}

/-- **A row of the scope stays exactly when it is among the newest ones.** -/
theorem mem_pruneTo {d : UpdateDelivery J} :
    d ∈ (pruneTo l p scope keep).rows ↔ d ∈ l.rows ∧ (inScope p scope d = true → d ∈ newest l p scope keep) := by
  have hsorted : ((scopeRows l p scope).insertionSort newestFirst).Pairwise newestFirst :=
    pairwise_insertionSort _ _
  have hnodup : ((scopeRows l p scope).insertionSort newestFirst).Nodup :=
    (perm_insertionSort _ _).nodup_iff.2 (nodup_scopeRows l p scope)
  have hmem : ∀ {x}, x ∈ (scopeRows l p scope).insertionSort newestFirst ↔ x ∈ scopeRows l p scope :=
    mem_insertionSort _
  unfold newest Windows.window
  generalize hS : (scopeRows l p scope).insertionSort newestFirst = S at hsorted hnodup hmem
  have hin : ∀ {x}, x ∈ l.rows → inScope p scope x = true → x ∈ S := fun hx hscope =>
    hmem.2 (mem_filter.2 ⟨hx, hscope⟩)
  unfold pruneTo
  rw [hS]
  cases hover : S[keep]? with
  | none =>
    have hshort : S.length ≤ keep := getElem?_eq_none_iff.1 hover
    rw [take_of_length_le hshort]
    exact ⟨fun hd => ⟨hd, hin hd⟩, And.left⟩
  | some o =>
    have hlt : keep < S.length := (List.getElem?_eq_some_iff.1 hover).1
    have hsplit : S = S.take keep ++ o :: S.drop (keep + 1) := by
      rw [← (List.getElem?_eq_some_iff.1 hover).2, ← List.drop_eq_getElem_cons hlt, List.take_append_drop]
    -- the rows before the overflow are newer, the rows after it are not
    have hnewer : ∀ x ∈ S.take keep, o.messageId < x.messageId := fun x hx => by
      have hle : o.messageId ≤ x.messageId := by
        rw [hsplit] at hsorted
        exact (pairwise_append.1 hsorted).2.2 x hx o mem_cons_self
      have hne : x ≠ o := by
        rw [hsplit] at hnodup
        exact (nodup_append.1 hnodup).2.2 x hx o mem_cons_self
      have hxl : x ∈ l.rows := (mem_scopeRows.1 (hmem.1 (mem_of_mem_take hx))).1
      have hol : o ∈ l.rows := (mem_scopeRows.1 (hmem.1 (mem_of_getElem? hover))).1
      have hid : x.messageId ≠ o.messageId := fun h => hne (UpdateLog.eq_of_messageId hxl hol h)
      omega
    have holder : ∀ x ∈ S, x ∉ S.take keep → x.messageId ≤ o.messageId := fun x hx hout => by
      rw [hsplit] at hx hsorted
      rcases mem_append.1 hx with h | h
      · exact absurd h hout
      · rcases mem_cons.1 h with rfl | h
        · exact Nat.le_refl _
        · exact rel_of_pairwise_cons (pairwise_append.1 hsorted).2.1 h
    rw [UpdateLog.mem_prune]
    refine and_congr_right (fun hd => ?_)
    cases hscope : inScope p scope d with
    | false => simp
    | true =>
      rw [Bool.true_and, Bool.not_eq_true', decide_eq_false_iff_not]
      constructor
      · intro hkept _
        by_contra hout
        exact hkept (holder d (hin hd hscope) hout)
      · intro hkept hle
        have := hnewer d (hkept rfl)
        omega

theorem length_pruneTo_le (l : UpdateLog J) (p : String) (scope : UpdateScope) (keep : Nat) :
    (scopeRows (pruneTo l p scope keep) p scope).length ≤ keep := by
  have hsub : scopeRows (pruneTo l p scope keep) p scope ⊆ newest l p scope keep := fun d hd => by
    obtain ⟨hkept, hp, hscope⟩ := mem_scopeRows.1 hd
    exact (mem_pruneTo.1 hkept).2 (decide_eq_true ⟨hp, hscope⟩)
  exact Nat.le_trans (subperm_of_subset (nodup_scopeRows _ p scope) hsub).length_le (Windows.length_window_le _ _)

theorem scopeRows_pruneTo_of_ne {p p' : String}
    (hne : ¬ (p' = p ∧ scope' = scope)) : scopeRows (pruneTo l p scope keep) p' scope' = scopeRows l p' scope' := by
  unfold pruneTo
  cases ((scopeRows l p scope).insertionSort newestFirst)[keep]? with
  | none => rfl
  | some o =>
    unfold scopeRows UpdateLog.prune
    dsimp only
    rw [filter_filter]
    refine filter_congr (fun d _ => ?_)
    cases hd : inScope p' scope' d with
    | false => rfl
    | true =>
      obtain ⟨rfl, rfl⟩ := of_decide_eq_true hd
      have hother : inScope p scope d = false := decide_eq_false hne
      rw [hother]
      rfl

/-! ## The cached counts -/

/-- **A cached count is not below the number of rows**, and not above the limit. -/
def Counted (config : Config) (b : Backend J) : Prop :=
  ∀ p scope n, Maps.get b.scopeCounts (scopeKey p scope) = some n →
    (scopeRows b.log p scope).length ≤ n ∧ n ≤ config.retention + config.slack

variable {config : Config} {b : Backend J}

theorem Counted.set (h : Counted config b) {log : UpdateLog J}
    {n : Nat} (hn : (scopeRows log p scope).length ≤ n) (hle : n ≤ config.retention + config.slack)
    (hothers : ∀ p' scope', ¬ (p' = p ∧ scope' = scope) →
      (scopeRows log p' scope').length ≤ (scopeRows b.log p' scope').length) :
    Counted config { log, scopeCounts := Maps.set b.scopeCounts (scopeKey p scope) n } := by
  intro p' scope' n' hget
  dsimp only at hget
  rw [Maps.get_set] at hget
  by_cases hsame : p' = p ∧ scope' = scope
  · obtain ⟨rfl, rfl⟩ := hsame
    rw [if_pos rfl] at hget
    cases hget
    exact ⟨hn, hle⟩
  · rw [if_neg (fun hkey => hsame (scopeKey_inj.1 hkey))] at hget
    obtain ⟨hlen, hmax⟩ := h p' scope' n' hget
    exact ⟨Nat.le_trans (hothers p' scope' hsame) hlen, hmax⟩

theorem Counted.prune (h : Counted config b) (retained : UpdateDelivery J → Bool) :
    Counted config { b with log := b.log.prune retained } := by
  intro p scope n hget
  obtain ⟨hlen, hmax⟩ := h p scope n hget
  refine ⟨Nat.le_trans ?_ hlen, hmax⟩
  have hsub : List.Sublist (scopeRows (b.log.prune retained) p scope) (scopeRows b.log p scope) :=
    List.Sublist.filter _ filter_sublist
  exact hsub.length_le

theorem scopeRows_append (l : UpdateLog J) (d : NewUpdateDelivery J) (hnew : l.get d.eventKey = none) (p : String)
    (scope : UpdateScope) : scopeRows (l.append d hnew) p scope =
      scopeRows l p scope ++ if inScope p scope (l.rowOf d) then [l.rowOf d] else [] := by
  unfold scopeRows UpdateLog.append
  dsimp only
  rw [filter_append, filter_singleton]
  cases inScope p scope (l.rowOf d) <;> rfl

theorem length_scopeRows_append (l : UpdateLog J) (d : NewUpdateDelivery J) (hnew : l.get d.eventKey = none) :
    (scopeRows (l.append d hnew) d.platformSessionId d.scope).length =
      (scopeRows l d.platformSessionId d.scope).length + 1 := by
  have hin : inScope d.platformSessionId d.scope (l.rowOf d) = true := decide_eq_true ⟨rfl, rfl⟩
  rw [scopeRows_append, hin, if_pos rfl, length_append]
  rfl

theorem scopeRows_append_of_ne (l : UpdateLog J) (d : NewUpdateDelivery J) (hnew : l.get d.eventKey = none)
    (hne : ¬ (p = d.platformSessionId ∧ scope = d.scope)) :
    scopeRows (l.append d hnew) p scope = scopeRows l p scope := by
  have hout : inScope p scope (l.rowOf d) = false := decide_eq_false (fun h => hne ⟨h.1.symm, h.2.symm⟩)
  rw [scopeRows_append, hout]
  exact append_nil _

/-! ## Every call -/

section Calls

variable {config : Config}

variable {b : Backend J}

/-- **Trimming after a row**: the scope is within its limit, counts stay upper bounds, and only what is not among the
newest rows of the scope goes. -/
theorem Counted.trim (h : Counted config b) (hret : 1 ≤ config.retention) {d : NewUpdateDelivery J}
    (hnew : b.log.get d.eventKey = none) :
    let after := ({ b with log := b.log.append d hnew } : Backend J).trim config d.platformSessionId d.scope
    Counted config after ∧
    (scopeRows after.log d.platformSessionId d.scope).length ≤ config.retention + config.slack ∧
    (after.log = b.log.append d hnew ∨
      after.log = pruneTo (b.log.append d hnew) d.platformSessionId d.scope config.retention) := by
  intro after
  have hafter : after = ({ b with log := b.log.append d hnew } : Backend J).trim config d.platformSessionId d.scope := rfl
  clear_value after
  unfold Backend.trim at hafter
  rw [if_neg (by omega)] at hafter
  dsimp only at hafter
  generalize hcount : (match Maps.get b.scopeCounts (scopeKey d.platformSessionId d.scope) with
    | none       => (scopeRows (b.log.append d hnew) d.platformSessionId d.scope).length
    | some known => known + 1) = count at hafter
  have hover : (scopeRows (b.log.append d hnew) d.platformSessionId d.scope).length ≤ count := by
    cases hget : Maps.get b.scopeCounts (scopeKey d.platformSessionId d.scope) with
    | none =>
      rw [hget] at hcount
      exact Nat.le_of_eq hcount
    | some known =>
      rw [hget] at hcount
      have hknown := (h _ _ _ hget).1
      rw [length_scopeRows_append, ← hcount]
      exact Nat.add_le_add_right hknown 1
  by_cases hle : count ≤ config.retention + config.slack
  · rw [if_pos hle] at hafter
    subst hafter
    refine ⟨h.set hover hle (fun p' scope' hne => ?_), Nat.le_trans hover hle, .inl rfl⟩
    rw [scopeRows_append_of_ne b.log d hnew hne]
  · rw [if_neg hle] at hafter
    subst hafter
    have hkept := length_pruneTo_le (b.log.append d hnew) d.platformSessionId d.scope config.retention
    have hlimit := Nat.le_trans hkept (Nat.le_add_right _ config.slack)
    refine ⟨h.set hkept (Nat.le_add_right _ _) (fun p' scope' hne => ?_), hlimit, .inr rfl⟩
    rw [scopeRows_pruneTo_of_ne hne, scopeRows_append_of_ne b.log d hnew hne]

theorem create_of_get_some {d : NewUpdateDelivery J} {existing : UpdateDelivery J}
    (h : b.log.get d.eventKey = some existing) : b.create config d = (b, existing) := by
  unfold Backend.create
  split
  · rename_i e he
    rw [h] at he
    cases he
    rfl
  · rename_i he
    rw [h] at he
    cases he

theorem create_of_get_none {d : NewUpdateDelivery J} (h : b.log.get d.eventKey = none) :
    b.create config d = (({ b with log := b.log.append d h } : Backend J).trim config d.platformSessionId d.scope,
      b.log.rowOf d) := by
  unfold Backend.create
  split
  · rename_i e he
    rw [h] at he
    cases he
  · rfl

theorem Counted.create (h : Counted config b) (hret : 1 ≤ config.retention) (d : NewUpdateDelivery J) :
    Counted config (b.create config d).1 := by
  cases hget : b.log.get d.eventKey with
  | none =>
    rw [create_of_get_none hget]
    exact (h.trim hret hget).1
  | some existing =>
    rw [create_of_get_some hget]
    exact h

theorem Counted.pruneScope (h : Counted config b) (hret : 1 ≤ config.retention) (p : String)
    (scope : UpdateScope) : Counted config (b.prune config p scope) := by
  have hkept := length_pruneTo_le b.log p scope config.retention
  have hcounts : Counted config { b with scopeCounts := Maps.delete b.scopeCounts (scopeKey p scope) } := by
    intro p' scope' n hget
    dsimp only at hget
    rw [Maps.get_delete] at hget
    split at hget
    · cases hget
    · exact h p' scope' n hget
  unfold Backend.prune
  rw [if_neg (by omega)]
  exact hcounts.set (Nat.le_refl _) (Nat.le_trans hkept (Nat.le_add_right _ _))
    (fun p' scope' hne => Nat.le_of_eq (congrArg List.length (scopeRows_pruneTo_of_ne hne)))

/-- **Every call keeps the cached counts upper bounds.** -/
theorem Counted.step (h : Counted config b) (hret : 1 ≤ config.retention) (call : StoreCall J) :
    Counted config (step config b call).1 := by
  cases call with
  | create d      => exact h.create hret d
  | remove k      => exact h.prune _
  | prune p scope => exact h.pruneScope hret p scope
  | pruneExpired now =>
    change Counted config (b.pruneExpired config now).1
    unfold Backend.pruneExpired
    split
    · exact h
    · exact h.prune _

end Calls

structure KeepsWindow (config : Config) (c : Runs.Call (Backend J) (StoreCall J) (StoreReply J)) : Prop where
  existing : ∀ d e, c.op = .create d → c.before.log.get d.eventKey = some e → c.after = c.before
  bounded : ∀ d, c.op = .create d → c.before.log.get d.eventKey = none →
    (scopeRows c.after.log d.platformSessionId d.scope).length ≤ config.retention + config.slack
  created : ∀ d, c.op = .create d → ∀ hnew : c.before.log.get d.eventKey = none,
    ∀ e ∈ (c.before.log.append d hnew).rows, e ∉ c.after.log.rows →
      e.platformSessionId = d.platformSessionId ∧ e.scope = d.scope ∧
      e ∉ newest (c.before.log.append d hnew) d.platformSessionId d.scope config.retention
  pruned : ∀ p scope, c.op = .prune p scope → ∀ e ∈ c.before.log.rows, e ∉ c.after.log.rows →
    e.platformSessionId = p ∧ e.scope = scope ∧ e ∉ newest c.before.log p scope config.retention

theorem notMem_pruneTo {e : UpdateDelivery J}
    (he : e ∈ l.rows) (hgone : e ∉ (pruneTo l p scope keep).rows) :
    e.platformSessionId = p ∧ e.scope = scope ∧ e ∉ newest l p scope keep := by
  rw [mem_pruneTo] at hgone
  have hdeleted : ¬ (inScope p scope e = true → e ∈ newest l p scope keep) := fun h => hgone ⟨he, h⟩
  obtain ⟨hscope, hout⟩ := Classical.not_imp.1 hdeleted
  obtain ⟨hp, hs⟩ := of_decide_eq_true hscope
  exact ⟨hp, hs, hout⟩

theorem keepsWindow_call (h : Counted config b) (hret : 1 ≤ config.retention)
    (call : StoreCall J) : KeepsWindow config (Runs.callAt (step config) b call) where
  existing := by
    rintro d e rfl hget
    exact congrArg Prod.fst (create_of_get_some hget)
  bounded := by
    rintro d rfl (hget : b.log.get d.eventKey = none)
    change (scopeRows (b.create config d).1.log d.platformSessionId d.scope).length ≤ _
    rw [create_of_get_none hget]
    exact (h.trim hret hget).2.1
  created := by
    rintro d rfl (hget : b.log.get d.eventKey = none) e (he : e ∈ (b.log.append d hget).rows) hgone
    change e ∉ (b.create config d).1.log.rows at hgone
    rw [create_of_get_none hget] at hgone
    rcases (h.trim hret hget).2.2 with hsame | hpruned
    · exact absurd he (by rw [← hsame]; exact hgone)
    · rw [hpruned] at hgone
      exact notMem_pruneTo he hgone
  pruned := by
    rintro p scope rfl e he hgone
    change e ∉ (b.prune config p scope).log.rows at hgone
    unfold Backend.prune at hgone
    rw [if_neg (by omega)] at hgone
    exact notMem_pruneTo he hgone

/-- **Retention never eats into the window**, over every sequence of calls from the start of the process. -/
theorem retention_keeps_window (config : Config) (hret : 1 ≤ config.retention) (log : UpdateLog J)
    (ops : List (StoreCall J)) : ∀ c ∈ Runs.calls (step config) { log } ops, KeepsWindow config c :=
  Runs.calls_forall (fun _ call h => Counted.step h hret call) (fun _ call h => keepsWindow_call h hret call) ops { log }
    (fun _ _ _ hget => by cases hget)

def twoRows : UpdateLog Unit where
  rows :=
    [⟨⟨⟨"a", "s", .account, 1, 1, 1, 0⟩, true, none, none⟩, 1⟩, ⟨⟨⟨"b", "s", .account, 2, 1, 2, 0⟩, true, none, none⟩, 2⟩]
  nextMessageId := 3
  keysDistinct := by decide
  idsIncrease := by decide
  idsFresh := by decide

def rowAndPrune : List (StoreCall Unit) :=
  [.create ⟨⟨"c", "s", .account, 3, 1, 3, 0⟩, false, none, none⟩, .prune "s" .account]

theorem retention_keeps_window_one_row :
    (Runs.calls (step { retention := 1 }) { log := twoRows } rowAndPrune).map (fun c => c.after.log.rows.length) =
      [1, 1] ∧
    ∀ c ∈ Runs.calls (step { retention := 1 }) { log := twoRows } rowAndPrune, KeepsWindow { retention := 1 } c :=
  ⟨by decide, retention_keeps_window { retention := 1 } (Nat.le_refl 1) twoRows rowAndPrune⟩

/-- A create that finds its event key trims nothing: the scope of a store that keeps one row still has two. -/
theorem create_existing_leaves_overflow :
    let config : Config := { retention := 1 }
    let c := Runs.callAt (step config) { log := twoRows } (.create ⟨⟨"a", "s", .account, 1, 1, 1, 0⟩, false, none, none⟩)
    config.retention + config.slack < (scopeRows c.after.log "s" .account).length := by
  decide

end UpdateStoreDatabase
end Crossgram
