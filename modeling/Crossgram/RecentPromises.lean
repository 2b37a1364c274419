import Crossgram.Lib.Recency
import Crossgram.Lib.Runs
/-!
# RecentPromises — sends that are under way or were made lately (packages/bridge/src/recent-promise-cache.ts)

A cache keeps promises under string keys.  Setting, reading and fulfilment move an entry to the end; past the maximum the
oldest settled entry goes, an entry under way never.  `sendMessage` and `_sendMediaOnce` look their random id up before
they send (packages/bridge/src/dialogs.ts).
-/
namespace Crossgram
namespace RecentPromises

open Maps List

variable {κ : Type} [DecidableEq κ]

/-- `id` tells entry objects apart. -/
structure PromiseCacheEntry where
  id : Nat
  promise : Nat
  settled : Bool
deriving DecidableEq

structure RecentPromiseCache (κ : Type) where
  maximum : Nat
  positive : 1 ≤ maximum
  entries : List (κ × PromiseCacheEntry)
  nextId : Nat
  watched : List (κ × Nat)
  used : List κ

def newCache (κ : Type) (maximum : Nat) (positive : 1 ≤ maximum) : RecentPromiseCache κ :=
  { maximum, positive, entries := [], nextId := 0, watched := [], used := [] }

/-- A call, or a handler of the entry `id` that was set under `key`. -/
inductive CacheEvent (κ : Type)
  | get (key : κ)
  | set (key : κ) (promise : Nat)
  | fulfilled (key : κ) (id : Nat)
  | rejected (key : κ) (id : Nat)

namespace RecentPromiseCache

def trim (c : RecentPromiseCache κ) (entries : List (κ × PromiseCacheEntry)) : List (κ × PromiseCacheEntry) :=
  Recency.trim c.maximum PromiseCacheEntry.settled entries.length entries

def isCurrent (c : RecentPromiseCache κ) (key : κ) (id : Nat) : Option PromiseCacheEntry :=
  (Maps.get c.entries key).filter (fun entry => decide (entry.id = id))

def step (c : RecentPromiseCache κ) : CacheEvent κ → Option (RecentPromiseCache κ)
  | .get key          =>
    match Maps.get c.entries key with
    | none       => some c
    | some entry => some { c with entries := Recency.touch c.entries key entry, used := c.used ++ [key] }
  | .set key promise  =>
    some { c with
      entries := c.trim (Recency.touch c.entries key ⟨c.nextId, promise, false⟩)
      nextId := c.nextId + 1
      watched := c.watched ++ [(key, c.nextId)]
      used := c.used ++ [key] }
  | .fulfilled key id =>
    if (key, id) ∈ c.watched then
      match c.isCurrent key id with
      | none       => some { c with watched := c.watched.erase (key, id) }
      | some entry => some { c with
          entries := c.trim (Recency.touch c.entries key { entry with settled := true })
          watched := c.watched.erase (key, id)
          used := c.used ++ [key] }
    else none
  | .rejected key id  =>
    if (key, id) ∈ c.watched then
      match c.isCurrent key id with
      | none   => some { c with watched := c.watched.erase (key, id) }
      | some _ => some { c with entries := Maps.delete c.entries key, watched := c.watched.erase (key, id) }
    else none

/-- The other keys that are under way or were used since the last use of `key`. -/
def rivals (c : RecentPromiseCache κ) (key : κ) : List κ := Recency.rivals PromiseCacheEntry.settled key c.entries c.used

end RecentPromiseCache

/-! ## Sending once -/

inductive SendEvent (κ : Type)
  | send (randomId : κ)
  | fulfilled (randomId : κ) (id : Nat)
  | rejected (randomId : κ) (id : Nat)

def SendEvent.cacheEvent (c : RecentPromiseCache κ) : SendEvent κ → CacheEvent κ
  | .send randomId         => if (Maps.get c.entries randomId).isSome then .get randomId else .set randomId c.nextId
  | .fulfilled randomId id => .fulfilled randomId id
  | .rejected randomId id  => .rejected randomId id

def sendStep (c : RecentPromiseCache κ) (a : SendEvent κ) : Option (RecentPromiseCache κ) := c.step (a.cacheEvent c)

def answer (c : RecentPromiseCache κ) (randomId : κ) : Nat × Bool :=
  match Maps.get c.entries randomId with
  | some entry => (entry.promise, false)
  | none       => (c.nextId, true)

/-! ## The invariant -/

structure Inv (c : RecentPromiseCache κ) : Prop where
  distinct : Maps.Distinct c.entries
  order : Recency.InOrder c.entries c.used
  fits : c.entries.length ≤ c.maximum ∨ ∀ e ∈ c.entries, e.2.settled = false
  ids : ∀ e ∈ c.entries, e.2.id < c.nextId
  watchedIds : ∀ w ∈ c.watched, w.2 < c.nextId
  watchedOnce : c.watched.Nodup
  underWay : ∀ e ∈ c.entries, e.2.settled = false ↔ (e.1, e.2.id) ∈ c.watched
  latest : ∀ w ∈ c.watched, ∀ e ∈ c.entries, e.1 = w.1 → w.2 ≤ e.2.id

theorem Inv.empty (maximum : Nat) (positive : 1 ≤ maximum) : Inv (newCache κ maximum positive) where
  distinct := List.Pairwise.nil
  order := List.Pairwise.nil
  fits := .inl (Nat.zero_le _)
  ids := fun _ h => absurd h not_mem_nil
  watchedIds := fun _ h => absurd h not_mem_nil
  watchedOnce := nodup_nil
  underWay := fun _ h => absurd h not_mem_nil
  latest := fun _ h => absurd h not_mem_nil

variable {c c' : RecentPromiseCache κ}

variable {key : κ} {entry : PromiseCacheEntry} {id : Nat}

theorem isCurrent_some (h : c.isCurrent key id = some entry) :
    (key, entry) ∈ c.entries ∧ entry.id = id := by
  obtain ⟨hget, hid⟩ := Option.filter_eq_some_iff.1 h
  exact ⟨mem_of_get hget, of_decide_eq_true hid⟩

theorem isCurrent_none (hd : Maps.Distinct c.entries) (h : c.isCurrent key id = none) :
    ∀ e ∈ c.entries, e.1 = key → e.2.id ≠ id := by
  intro e he hkey hid
  have hget := get_of_mem hd (k := e.1) (v := e.2) he
  rw [hkey] at hget
  rw [RecentPromiseCache.isCurrent, hget, Option.filter_some, decide_eq_true hid] at h
  cases h

theorem mem_of_mem_trim {m : List (κ × PromiseCacheEntry)} {e : κ × PromiseCacheEntry} (h : e ∈ c.trim m) : e ∈ m :=
  (Recency.trim_sublist _ m).subset h

theorem trim_fits (c : RecentPromiseCache κ) (m : List (κ × PromiseCacheEntry)) :
    (c.trim m).length ≤ c.maximum ∨ ∀ e ∈ c.trim m, e.2.settled = false := Recency.trim_fits _ (Nat.le_refl _)

theorem mem_watched_erase (h : Inv c) {w w' : κ × Nat} : w ∈ c.watched.erase w' ↔ w ≠ w' ∧ w ∈ c.watched :=
  h.watchedOnce.mem_erase_iff

theorem Inv.get (h : Inv c) (hget : Maps.get c.entries key = some entry) :
    Inv { c with entries := Recency.touch c.entries key entry, used := c.used ++ [key] } := by
  have hmem := mem_of_get hget
  have hsame : ∀ e, e ∈ Recency.touch c.entries key entry ↔ e ∈ c.entries := by
    intro e
    rw [Recency.mem_touch]
    refine ⟨fun he => ?_, fun he => ?_⟩
    · rcases he with he | rfl
      · exact he.1
      · exact hmem
    · by_cases hkey : e.1 = key
      · have hget' := get_of_mem h.distinct (k := e.1) (v := e.2) he
        rw [hkey, hget] at hget'
        exact .inr (Prod.ext hkey (Option.some.inj hget').symm)
      · exact .inl ⟨he, hkey⟩
  have hlength : (Recency.touch c.entries key entry).length = c.entries.length := by
    rw [Recency.touch, (perm_of_get h.distinct hget).length_eq, length_append, length_singleton,
      length_cons]
  exact {
    distinct := Recency.distinct_touch h.distinct key entry
    order := h.order.touch key entry
    fits := h.fits.imp (fun hfits => hlength ▸ hfits) (fun hall e he => hall e ((hsame e).1 he))
    ids := fun e he => h.ids e ((hsame e).1 he)
    watchedIds := h.watchedIds
    watchedOnce := h.watchedOnce
    underWay := fun e he => h.underWay e ((hsame e).1 he)
    latest := fun w hw e he => h.latest w hw e ((hsame e).1 he) }

theorem Inv.set (h : Inv c) (key : κ) (promise : Nat) :
    Inv { c with
      entries := c.trim (Recency.touch c.entries key ⟨c.nextId, promise, false⟩)
      nextId := c.nextId + 1
      watched := c.watched ++ [(key, c.nextId)]
      used := c.used ++ [key] } := by
  have hcases : ∀ e ∈ c.trim (Recency.touch c.entries key ⟨c.nextId, promise, false⟩),
      (e ∈ c.entries ∧ e.1 ≠ key) ∨ e = (key, ⟨c.nextId, promise, false⟩) :=
    fun e he => Recency.mem_touch.1 (mem_of_mem_trim he)
  exact {
    distinct := (Recency.distinct_touch h.distinct key _).sublist (Recency.trim_sublist _ _)
    order := (h.order.touch key _).sublist (Recency.trim_sublist _ _)
    fits := trim_fits c _
    ids := fun e he => by
      rcases hcases e he with ⟨hold, _⟩ | rfl
      · exact Nat.lt_succ_of_lt (h.ids e hold)
      · exact Nat.lt_succ_self _
    watchedIds := fun w hw => by
      rcases mem_append.1 hw with hw | hw
      · exact Nat.lt_succ_of_lt (h.watchedIds w hw)
      · rw [mem_singleton.1 hw]
        exact Nat.lt_succ_self _
    watchedOnce := by
      refine nodup_append.2 ⟨h.watchedOnce, pairwise_singleton _ _, fun w hw w' hw' heq => ?_⟩
      have hlt := h.watchedIds w hw
      rw [heq, mem_singleton.1 hw'] at hlt
      exact Nat.lt_irrefl _ hlt
    underWay := fun e he => by
      rcases hcases e he with ⟨hold, hkey⟩ | rfl
      · rw [h.underWay e hold, mem_append, mem_singleton]
        refine ⟨.inl, fun hw => hw.resolve_right (fun heq => ?_)⟩
        exact hkey (congrArg Prod.fst heq)
      · exact ⟨fun _ => mem_append_right _ mem_cons_self, fun _ => rfl⟩
    latest := fun w hw e he hkey => by
      rcases hcases e he with ⟨hold, hother⟩ | rfl
      · rcases mem_append.1 hw with hw | hw
        · exact h.latest w hw e hold hkey
        · rw [mem_singleton.1 hw] at hkey
          exact absurd hkey hother
      · rcases mem_append.1 hw with hw | hw
        · exact Nat.le_of_lt (h.watchedIds w hw)
        · exact Nat.le_of_eq (congrArg Prod.snd (mem_singleton.1 hw)) }

theorem Inv.late (h : Inv c) (hnone : c.isCurrent key id = none) :
    Inv { c with watched := c.watched.erase (key, id) } where
  distinct := h.distinct
  order := h.order
  fits := h.fits
  ids := h.ids
  watchedIds := fun w hw => h.watchedIds w (mem_of_mem_erase hw)
  watchedOnce := h.watchedOnce.erase _
  underWay := fun e he => by
    show _ ↔ (e.1, e.2.id) ∈ c.watched.erase (key, id)
    rw [h.underWay e he, mem_watched_erase h]
    refine ⟨fun hw => ⟨fun heq => ?_, hw⟩, And.right⟩
    exact isCurrent_none h.distinct hnone e he (congrArg Prod.fst heq) (congrArg Prod.snd heq)
  latest := fun w hw => h.latest w (mem_of_mem_erase hw)

theorem Inv.fulfilled (h : Inv c) (hcurrent : c.isCurrent key id = some entry) :
    Inv { c with
      entries := c.trim (Recency.touch c.entries key { entry with settled := true })
      watched := c.watched.erase (key, id)
      used := c.used ++ [key] } := by
  obtain ⟨hmem, hid⟩ := isCurrent_some hcurrent
  have hcases : ∀ e ∈ c.trim (Recency.touch c.entries key { entry with settled := true }),
      (e ∈ c.entries ∧ e.1 ≠ key) ∨ e = (key, { entry with settled := true }) :=
    fun e he => Recency.mem_touch.1 (mem_of_mem_trim he)
  exact {
    distinct := (Recency.distinct_touch h.distinct key _).sublist (Recency.trim_sublist _ _)
    order := (h.order.touch key _).sublist (Recency.trim_sublist _ _)
    fits := trim_fits c _
    ids := fun e he => by
      rcases hcases e he with ⟨hold, _⟩ | rfl
      · exact h.ids e hold
      · exact h.ids (key, entry) hmem
    watchedIds := fun w hw => h.watchedIds w (mem_of_mem_erase hw)
    watchedOnce := h.watchedOnce.erase _
    underWay := fun e he => by
      show _ ↔ (e.1, e.2.id) ∈ c.watched.erase (key, id)
      rw [mem_watched_erase h]
      rcases hcases e he with ⟨hold, hkey⟩ | rfl
      · rw [h.underWay e hold]
        exact ⟨fun hw => ⟨fun heq => hkey (congrArg Prod.fst heq), hw⟩, And.right⟩
      · refine ⟨fun hsettled => (by cases hsettled), fun hw => absurd ?_ hw.1⟩
        show (key, entry.id) = (key, id)
        rw [hid]
    latest := fun w hw e he hkey => by
      rcases hcases e he with ⟨hold, _⟩ | rfl
      · exact h.latest w (mem_of_mem_erase hw) e hold hkey
      · exact h.latest w (mem_of_mem_erase hw) (key, entry) hmem hkey }

theorem Inv.rejected (h : Inv c) :
    Inv { c with entries := Maps.delete c.entries key, watched := c.watched.erase (key, id) } where
  distinct := h.distinct.delete key
  order := h.order.sublist filter_sublist
  fits := h.fits.imp (fun hfits => Nat.le_trans (length_filter_le _ _) hfits)
    (fun hall e he => hall e (mem_delete.1 he).1)
  ids := fun e he => h.ids e (mem_delete.1 he).1
  watchedIds := fun w hw => h.watchedIds w (mem_of_mem_erase hw)
  watchedOnce := h.watchedOnce.erase _
  underWay := fun e he => by
    obtain ⟨hold, hkey⟩ := mem_delete.1 he
    show _ ↔ (e.1, e.2.id) ∈ c.watched.erase (key, id)
    rw [h.underWay e hold, mem_watched_erase h]
    exact ⟨fun hw => ⟨fun heq => hkey (congrArg Prod.fst heq), hw⟩, And.right⟩
  latest := fun w hw e he => h.latest w (mem_of_mem_erase hw) e (mem_delete.1 he).1

variable {a : CacheEvent κ}

/-- **Every event keeps the invariant.** -/
theorem Inv.step (h : Inv c) (hs : c.step a = some c') : Inv c' := by
  cases a with
  | get key          =>
    dsimp only [RecentPromiseCache.step] at hs
    split at hs
    · cases hs
      exact h
    · rename_i entry hget
      cases hs
      exact h.get hget
  | set key promise  =>
    cases hs
    exact h.set key promise
  | fulfilled key id =>
    dsimp only [RecentPromiseCache.step] at hs
    split at hs
    · split at hs
      · rename_i hnone
        cases hs
        exact h.late hnone
      · rename_i entry hcurrent
        cases hs
        exact h.fulfilled hcurrent
    · cases hs
  | rejected key id  =>
    dsimp only [RecentPromiseCache.step] at hs
    split at hs
    · split at hs
      · rename_i hnone
        cases hs
        exact h.late hnone
      · cases hs
        exact h.rejected
    · cases hs

variable {maximum : Nat} {positive : 1 ≤ maximum}

theorem Inv.reachable {ok : RecentPromiseCache κ → CacheEvent κ → Prop}
    (hr : Runs.Reachable RecentPromiseCache.step ok (newCache κ maximum positive) c) : Inv c :=
  hr.invariant (Inv.empty maximum positive) (fun _ _ _ _ h _ hs => h.step hs)

/-! ## What a step keeps -/

/-- The event replaces the entry `id` of the key, or is its rejection. -/
def CacheEvent.Ends (key : κ) (id : Nat) (a : CacheEvent κ) : Prop := (∃ promise, a = .set key promise) ∨ a = .rejected key id

/-- The entry `id` of the key is there, with its promise; it is settled once its handler ran. -/
structure Holds (c : RecentPromiseCache κ) (key : κ) (id promise : Nat) : Prop where
  entry : ∃ entry, Maps.get c.entries key = some entry ∧ entry.id = id ∧ entry.promise = promise

theorem holds_touch {m : List (κ × PromiseCacheEntry)} (hd : Maps.Distinct m)
    (hmem : (key, entry) ∈ c.trim m) {c' : RecentPromiseCache κ} (hentries : c'.entries = c.trim m) :
    Holds c' key entry.id entry.promise := by
  have hd' : Maps.Distinct c'.entries := by
    rw [hentries]
    exact hd.sublist (Recency.trim_sublist _ _)
  exact ⟨entry, get_of_mem hd' (by rw [hentries]; exact hmem), rfl, rfl⟩

/-- **A step keeps an entry** that is under way, unless it ends it; a settled one too, while it has fewer rivals than the
maximum. -/
theorem Holds.step (h : Inv c) {id promise : Nat} (hholds : Holds c key id promise)
    (hs : c.step a = some c') (hends : ¬ a.Ends key id)
    (hroom : (key, id) ∈ c'.watched ∨ (c'.rivals key).length < c'.maximum) : Holds c' key id promise := by
  obtain ⟨entry, hget, rfl, rfl⟩ := hholds
  have hmem := mem_of_get hget
  -- What a trim leaves of an entry that is among the entries before it.
  have htrim : ∀ (m : List (κ × PromiseCacheEntry)) (used : List κ) (own : PromiseCacheEntry), own.id = entry.id →
      own.promise = entry.promise → Maps.Distinct m → Recency.InOrder m used → (key, own) ∈ m →
      c'.entries = c.trim m → c'.used = used → c'.maximum = c.maximum → (own.settled = false ↔ (key, entry.id) ∈ c'.watched) →
      Holds c' key entry.id entry.promise := by
    intro m used own hid hpromise hd ho hin hentries hused hmaximum hwatched
    have hkept : (key, own) ∈ c.trim m := by
      rcases hroom with hw | hfew
      · exact Recency.mem_trim_of_kept _ hd hin (hwatched.2 hw)
      · rw [RecentPromiseCache.rivals, hentries, hused, hmaximum] at hfew
        exact Recency.mem_trim_of_rivals hd ho hin hfew
    rw [← hid, ← hpromise]
    exact holds_touch hd hkept hentries
  have hunder := h.underWay (key, entry) hmem
  cases a with
  | get key'           =>
    dsimp only [RecentPromiseCache.step] at hs
    split at hs
    · cases hs
      exact ⟨entry, hget, rfl, rfl⟩
    · rename_i entry' hget'
      cases hs
      refine ⟨entry, ?_, rfl, rfl⟩
      show Maps.get (Recency.touch c.entries key' entry') key = some entry
      rw [Recency.get_touch]
      split
      · rename_i heq
        rw [← heq, hget] at hget'
        exact hget'.symm
      · exact hget
  | set key' promise'  =>
    have hne : key ≠ key' := fun heq => hends (.inl ⟨promise', by rw [heq]⟩)
    cases hs
    refine htrim _ _ entry rfl rfl (Recency.distinct_touch h.distinct key' _) (h.order.touch key' _)
      (Recency.mem_touch.2 (.inl ⟨hmem, hne⟩)) rfl rfl rfl ?_
    rw [hunder, mem_append, mem_singleton]
    exact ⟨.inl, fun hw => hw.resolve_right (fun heq => hne (congrArg Prod.fst heq))⟩
  | fulfilled key' id' =>
    dsimp only [RecentPromiseCache.step] at hs
    split at hs
    · split at hs
      · cases hs
        exact ⟨entry, hget, rfl, rfl⟩
      · rename_i entry' hcurrent
        obtain ⟨hmem', hid'⟩ := isCurrent_some hcurrent
        cases hs
        by_cases hkey : key = key'
        · subst hkey
          have hsame : entry = entry' := by
            rw [get_of_mem h.distinct hmem'] at hget
            exact (Option.some.inj hget).symm
          subst hsame
          refine htrim _ _ { entry with settled := true } rfl rfl (Recency.distinct_touch h.distinct key _)
            (h.order.touch key _) (Recency.mem_touch.2 (.inr rfl)) rfl rfl rfl ?_
          refine ⟨fun hsettled => (by cases hsettled), fun hw => absurd ?_ ((mem_watched_erase h).1 hw).1⟩
          rw [hid']
        · refine htrim _ _ entry rfl rfl (Recency.distinct_touch h.distinct key' _) (h.order.touch key' _)
            (Recency.mem_touch.2 (.inl ⟨hmem, hkey⟩)) rfl rfl rfl ?_
          rw [hunder, mem_watched_erase h]
          exact ⟨fun hw => ⟨fun heq => hkey (congrArg Prod.fst heq), hw⟩, And.right⟩
    · cases hs
  | rejected key' id'  =>
    dsimp only [RecentPromiseCache.step] at hs
    split at hs
    · split at hs
      · cases hs
        exact ⟨entry, hget, rfl, rfl⟩
      · rename_i entry' hcurrent
        obtain ⟨hmem', hid'⟩ := isCurrent_some hcurrent
        cases hs
        refine ⟨entry, ?_, rfl, rfl⟩
        show Maps.get (Maps.delete c.entries key') key = some entry
        rw [get_delete, if_neg (fun heq => ?_)]
        · exact hget
        · subst heq
          rw [get_of_mem h.distinct hmem'] at hget
          rw [← Option.some.inj hget, hid'] at hends
          exact hends (.inr rfl)
    · cases hs

theorem step_maximum (hs : c.step a = some c') : c'.maximum = c.maximum := by
  cases a <;> dsimp only [RecentPromiseCache.step] at hs
  case get key          => split at hs <;> (cases hs; rfl)
  case set key promise  => cases hs; rfl
  case fulfilled key id =>
    split at hs
    · split at hs <;> (cases hs; rfl)
    · cases hs
  case rejected key id  =>
    split at hs
    · split at hs <;> (cases hs; rfl)
    · cases hs

theorem watched_step (h : Inv c) (hw : (key, id) ∈ c.watched)
    (hs : c.step a = some c') (hfulfilled : a ≠ .fulfilled key id) (hrejected : a ≠ .rejected key id) :
    (key, id) ∈ c'.watched := by
  have herase : ∀ key' id', (key, id) ≠ (key', id') → (key, id) ∈ c.watched.erase (key', id') := fun key' id' hne =>
    (mem_watched_erase h).2 ⟨hne, hw⟩
  cases a with
  | get key'           =>
    dsimp only [RecentPromiseCache.step] at hs
    split at hs <;> (cases hs; exact hw)
  | set key' promise'  =>
    cases hs
    exact mem_append_left _ hw
  | fulfilled key' id' =>
    have hne : (key, id) ≠ (key', id') := fun heq => hfulfilled (by cases heq; rfl)
    dsimp only [RecentPromiseCache.step] at hs
    split at hs
    · split at hs <;> (cases hs; exact herase key' id' hne)
    · cases hs
  | rejected key' id'  =>
    have hne : (key, id) ≠ (key', id') := fun heq => hrejected (by cases heq; rfl)
    dsimp only [RecentPromiseCache.step] at hs
    split at hs
    · split at hs <;> (cases hs; exact herase key' id' hne)
    · cases hs

theorem entry_of_step (hs : c.step a = some c') {entry' : PromiseCacheEntry}
    (hget : Maps.get c'.entries key = some entry') :
    (∃ entry, (key, entry) ∈ c.entries ∧ entry.id = entry'.id) ∨ entry'.id = c.nextId := by
  have hmem := mem_of_get hget
  cases a with
  | get key'           =>
    dsimp only [RecentPromiseCache.step] at hs
    split at hs
    · cases hs
      exact .inl ⟨entry', hmem, rfl⟩
    · rename_i entry hget'
      cases hs
      rcases Recency.mem_touch.1 hmem with ⟨hold, _⟩ | heq
      · exact .inl ⟨entry', hold, rfl⟩
      · cases heq
        exact .inl ⟨entry', mem_of_get hget', rfl⟩
  | set key' promise'  =>
    cases hs
    rcases Recency.mem_touch.1 (mem_of_mem_trim hmem) with ⟨hold, _⟩ | heq
    · exact .inl ⟨entry', hold, rfl⟩
    · cases heq
      exact .inr rfl
  | fulfilled key' id' =>
    dsimp only [RecentPromiseCache.step] at hs
    split at hs
    · split at hs
      · cases hs
        exact .inl ⟨entry', hmem, rfl⟩
      · rename_i entry hcurrent
        cases hs
        rcases Recency.mem_touch.1 (mem_of_mem_trim hmem) with ⟨hold, _⟩ | heq
        · exact .inl ⟨entry', hold, rfl⟩
        · cases heq
          exact .inl ⟨entry, (isCurrent_some hcurrent).1, rfl⟩
    · cases hs
  | rejected key' id'  =>
    dsimp only [RecentPromiseCache.step] at hs
    split at hs
    · split at hs
      · cases hs
        exact .inl ⟨entry', hmem, rfl⟩
      · cases hs
        exact .inl ⟨entry', (mem_delete.1 hmem).1, rfl⟩
    · cases hs

/-! ## A rejected promise -/

/-- What stands under the key was set after the entry `id`. -/
structure SetAfter (key : κ) (id : Nat) (c : RecentPromiseCache κ) : Prop where
  past : id < c.nextId
  later : ∀ entry, (key, entry) ∈ c.entries → id < entry.id

theorem nextId_le_step (hs : c.step a = some c') : c.nextId ≤ c'.nextId := by
  cases a <;> dsimp only [RecentPromiseCache.step] at hs
  case get key          => split at hs <;> (cases hs; exact Nat.le_refl _)
  case set key promise  => cases hs; exact Nat.le_succ _
  case fulfilled key id =>
    split at hs
    · split at hs <;> (cases hs; exact Nat.le_refl _)
    · cases hs
  case rejected key id  =>
    split at hs
    · split at hs <;> (cases hs; exact Nat.le_refl _)
    · cases hs

theorem SetAfter.step (hafter : SetAfter key id c) (h : Inv c) (hs : c.step a = some c') : SetAfter key id c' := by
  refine ⟨Nat.lt_of_lt_of_le hafter.past (nextId_le_step hs), fun entry' hmem => ?_⟩
  rcases entry_of_step hs (get_of_mem (h.step hs).distinct hmem) with ⟨entry, hold, hid⟩ | hnew
  · rw [← hid]
    exact hafter.later entry hold
  · rw [hnew]
    exact hafter.past

/-- **A rejected promise is gone**: what stands under its key afterwards was set later. -/
theorem setAfter_rejected (h : Inv c) (hs : c.step (.rejected key id) = some c') :
    SetAfter key id c' := by
  dsimp only [RecentPromiseCache.step] at hs
  split at hs
  · rename_i hw
    split at hs
    · rename_i hnone
      cases hs
      refine ⟨h.watchedIds _ hw, fun entry hmem => Nat.lt_of_le_of_ne (h.latest _ hw (key, entry) hmem rfl) ?_⟩
      exact fun heq => isCurrent_none h.distinct hnone (key, entry) hmem rfl heq.symm
    · cases hs
      exact ⟨h.watchedIds _ hw, fun entry hmem => absurd rfl (mem_delete.1 hmem).2⟩
  · cases hs

/-! ## Runs -/

/-- A step leaves the entry `id` of the key alone, and it is under way or has fewer rivals than the maximum. -/
def Spares (key : κ) (id : Nat) (c : RecentPromiseCache κ) (a : CacheEvent κ) : Prop :=
  ¬ a.Ends key id ∧ ∀ c', c.step a = some c' → (key, id) ∈ c'.watched ∨ (c'.rivals key).length < c'.maximum

/-- **A promise stays** through every run that spares it. -/
theorem Holds.run (h : Inv c) {id promise : Nat} (hholds : Holds c key id promise)
    (hr : Runs.Reachable RecentPromiseCache.step (Spares key id) c c') : Inv c' ∧ Holds c' key id promise :=
  hr.invariant (I := fun c => Inv c ∧ Holds c key id promise) ⟨h, hholds⟩
    (fun _ _ c' _ hboth hok hs => ⟨hboth.1.step hs, hboth.2.step hboth.1 hs hok.1 (hok.2 c' hs)⟩)

def SparesSend (randomId : κ) (id : Nat) (c : RecentPromiseCache κ) (a : SendEvent κ) : Prop :=
  a ≠ .rejected randomId id ∧ ∀ c', sendStep c a = some c' → (randomId, id) ∈ c'.watched ∨
    (c'.rivals randomId).length < c'.maximum

theorem cacheEvent_send (c : RecentPromiseCache κ) (randomId : κ) :
    (SendEvent.send randomId).cacheEvent c =
      if (Maps.get c.entries randomId).isSome then .get randomId else .set randomId c.nextId := rfl

theorem Holds.sendStep (h : Inv c) {id promise : Nat} (hholds : Holds c key id promise) {a : SendEvent κ}
    (hok : SparesSend key id c a) (hs : sendStep c a = some c') : Inv c' ∧ Holds c' key id promise := by
  have hends : ¬ (a.cacheEvent c).Ends key id := by
    obtain ⟨entry, hget, _⟩ := hholds.entry
    cases a with
    | send randomId          =>
      rw [cacheEvent_send]
      by_cases hfound : (Maps.get c.entries randomId).isSome = true
      · rw [if_pos hfound]
        rintro (⟨_, heq⟩ | heq) <;> cases heq
      · rw [if_neg hfound]
        rintro (⟨_, heq⟩ | heq)
        · cases heq
          rw [hget] at hfound
          exact hfound rfl
        · cases heq
    | fulfilled randomId id' => rintro (⟨_, heq⟩ | heq) <;> cases heq
    | rejected randomId id'  =>
      rintro (⟨_, heq⟩ | heq)
      · cases heq
      · cases heq
        exact hok.1 rfl
  exact ⟨h.step hs, hholds.step h hs hends (hok.2 c' hs)⟩

theorem Inv.sendReachable {ok : RecentPromiseCache κ → SendEvent κ → Prop}
    (hr : Runs.Reachable sendStep ok (newCache κ maximum positive) c) : Inv c :=
  hr.invariant (Inv.empty maximum positive) (fun _ _ _ _ h _ hs => h.step hs)

theorem holds_send {randomId : κ} (hs : sendStep c (.send randomId) = some c')
    (hget : Maps.get c'.entries randomId = some entry) : Holds c' randomId entry.id (answer c randomId).1 := by
  refine ⟨entry, hget, rfl, ?_⟩
  unfold sendStep at hs
  rw [cacheEvent_send] at hs
  unfold answer
  cases hold : Maps.get c.entries randomId with
  | some own =>
    rw [hold, if_pos (by rfl)] at hs
    dsimp only [RecentPromiseCache.step] at hs
    rw [hold] at hs
    cases hs
    rw [Recency.get_touch, if_pos rfl] at hget
    exact congrArg PromiseCacheEntry.promise (Option.some.inj hget).symm
  | none     =>
    rw [hold, if_neg (by exact Bool.false_ne_true)] at hs
    cases hs
    rcases Recency.mem_touch.1 (mem_of_mem_trim (mem_of_get hget)) with ⟨_, hne⟩ | heq
    · exact absurd rfl hne
    · cases heq
      rfl

/-! ## The cache and the sends -/

/-- **What holds of a cache with this maximum in every run.** -/
structure RecentLaws (κ : Type) [DecidableEq κ] (maximum : Nat) (positive : 1 ≤ maximum) : Prop where
  /-- It fits, unless everything in it is under way. -/
  size : ∀ c, Runs.Reachable RecentPromiseCache.step (fun _ _ => True) (newCache κ maximum positive) c →
    c.entries.length ≤ maximum ∨ ∀ e ∈ c.entries, e.2.settled = false
  /-- What is under way stays until its promise settles or its key is set again. -/
  underWay : ∀ c c' a, Runs.Reachable RecentPromiseCache.step (fun _ _ => True) (newCache κ maximum positive) c →
    c.step a = some c' → ∀ key entry, Maps.get c.entries key = some entry → entry.settled = false →
    ¬ a.Ends key entry.id → a ≠ .fulfilled key entry.id →
      ∃ entry', Maps.get c'.entries key = some entry' ∧ entry'.id = entry.id ∧ entry'.promise = entry.promise ∧
        entry'.settled = false
  /-- Under the key of a rejected promise there is only what was set later. -/
  rejected : ∀ c c' key id, Runs.Reachable RecentPromiseCache.step (fun _ _ => True) (newCache κ maximum positive) c →
    c.step (.rejected key id) = some c' → ∀ c'', Runs.Reachable RecentPromiseCache.step (fun _ _ => True) c' c'' →
      ∀ entry, Maps.get c''.entries key = some entry → id < entry.id
  /-- A promise stays while fewer than `maximum` other keys are under way or were used since. -/
  fulfilled : ∀ c c' key entry, Runs.Reachable RecentPromiseCache.step (fun _ _ => True) (newCache κ maximum positive) c →
    Maps.get c.entries key = some entry → Runs.Reachable RecentPromiseCache.step (Spares key entry.id) c c' →
      ∃ entry', Maps.get c'.entries key = some entry' ∧ entry'.promise = entry.promise
  /-- A send repeated meanwhile gets the promise of the first one and does not call the platform. -/
  sent : ∀ c c' randomId entry, Runs.Reachable sendStep (fun _ _ => True) (newCache κ maximum positive) c →
    sendStep c (.send randomId) = some c' → Maps.get c'.entries randomId = some entry →
    ∀ c'', Runs.Reachable sendStep (SparesSend randomId entry.id) c' c'' →
      answer c'' randomId = ((answer c randomId).1, false)

theorem reachable_maximum {ok : RecentPromiseCache κ → CacheEvent κ → Prop}
    (hr : Runs.Reachable RecentPromiseCache.step ok (newCache κ maximum positive) c) : c.maximum = maximum :=
  hr.invariant (I := fun c => c.maximum = maximum) rfl (fun _ _ _ _ h _ hs => (step_maximum hs).trans h)

/-- **Promises that are under way or recent are kept**, and a repeated send finds them. -/
theorem recentLaws (maximum : Nat) (positive : 1 ≤ maximum) : RecentLaws κ maximum positive where
  size := fun c hr => by
    have hfits := (Inv.reachable hr).fits
    rwa [reachable_maximum hr] at hfits
  underWay := fun c c' a hr hs key entry hget hsettled hends hfulfilled => by
    have h := Inv.reachable hr
    have hw := (h.underWay (key, entry) (mem_of_get hget)).1 hsettled
    have hw' := watched_step h hw hs hfulfilled (fun heq => hends (.inr heq))
    obtain ⟨entry', hget', hid, hpromise⟩ := (Holds.step h ⟨entry, hget, rfl, rfl⟩ hs hends (.inl hw')).entry
    refine ⟨entry', hget', hid, hpromise, ((h.step hs).underWay (key, entry') (mem_of_get hget')).2 ?_⟩
    show (key, entry'.id) ∈ c'.watched
    rw [hid]
    exact hw'
  rejected := fun c c' key id hr hs c'' hr' entry hget => by
    have h := Inv.reachable hr
    have hlater := hr'.invariant (I := fun c => Inv c ∧ SetAfter key id c) ⟨h.step hs, setAfter_rejected h hs⟩
      (fun _ _ _ _ hboth _ hs => ⟨hboth.1.step hs, hboth.2.step hboth.1 hs⟩)
    exact hlater.2.later entry (mem_of_get hget)
  fulfilled := fun c c' key entry hr hget hr' => by
    obtain ⟨_, entry', hget', _, hpromise⟩ := Holds.run (Inv.reachable hr) ⟨entry, hget, rfl, rfl⟩ hr'
    exact ⟨entry', hget', hpromise⟩
  sent := fun c c' randomId entry hr hs hget c'' hr' => by
    have h := Inv.sendReachable hr
    have hrun := hr'.invariant (I := fun c₁ => Inv c₁ ∧ Holds c₁ randomId entry.id (answer c randomId).1)
      ⟨h.step hs, holds_send hs hget⟩ (fun _ _ _ _ hboth hok hs => hboth.2.sendStep hboth.1 hok hs)
    obtain ⟨entry', hget', _, hpromise⟩ := hrun.2.entry
    have hanswer : answer c'' randomId = (entry'.promise, false) := by
      unfold answer
      rw [hget']
    rw [hanswer, hpromise]

theorem recentLaws_two : RecentLaws Nat 2 (by decide) := recentLaws 2 (by decide)

/-- With one place, and another promise under way, a promise goes as soon as it is fulfilled: nothing was set or read since,
and the send that is repeated calls the platform. -/
theorem fulfilled_goes :
    ((Runs.run RecentPromiseCache.step (newCache Nat 1 (by decide)) [.set 0 0, .set 1 1, .fulfilled 1 1]).map
        (fun c => (Maps.get c.entries 1, Recency.usedSince 1 c.used))) = some (none, []) ∧
      ((Runs.run sendStep (newCache Nat 1 (by decide)) [.send 0, .send 1, .fulfilled 1 1]).map
        (fun c => answer c 1)) = some (2, true) := by
  decide

end RecentPromises
end Crossgram
