import Crossgram.AnchorWalks
import Crossgram.Lib.Maps
import Crossgram.Lib.Runs
/-!
# DialogFolders — the pinned conversations of two folders (packages/bridge/src/dialog-folders.ts)

The rows of a session keep, by conversation, the folder and the place among the pinned ones of both folders; the main
folder is 0 and the archive 1.  `listAfter` and `folderAfter` are the two ordered lists the store stands for.
-/
namespace Crossgram
namespace DialogFolders

open List
open AnchorWalk (Collation oneCollation)

structure PeerRow where
  folderId : Fin 2
  pinnedOrder : Option Int
deriving DecidableEq

abbrev PeerTable := List (String × PeerRow)

/-- The row of a conversation; without one it is in the main folder, and not pinned. -/
def peerRow (db : PeerTable) (peerId : String) : PeerRow := (Maps.get db peerId).getD ⟨0, none⟩

def writePeerRow (db : PeerTable) (peerId : String) (row : PeerRow) : PeerTable :=
  if row.folderId = 0 ∧ row.pinnedOrder = none then Maps.delete db peerId else Maps.set db peerId row

def writeAll (db : PeerTable) (rows : PeerTable) : PeerTable := rows.foldl (fun db e => writePeerRow db e.1 e.2) db

def setPeerFolders (db : PeerTable) (peers : List (String × Fin 2)) : List String × PeerTable :=
  let unique := Maps.ofList peers
  let changed := unique.filter (fun peer => (peerRow db peer.1).folderId ≠ peer.2)
  (changed.map Prod.fst, writeAll db (changed.map (fun peer => (peer.1, ⟨peer.2, none⟩))))

def precedes (c : Collation) (left right : String × PeerRow) : Bool :=
  left.2.pinnedOrder.getD 0 < right.2.pinnedOrder.getD 0 ||
    (left.2.pinnedOrder.getD 0 = right.2.pinnedOrder.getD 0 && c.compare left.1 right.1 ≤ 0)

def pinnedPeerIds (c : Collation) (db : PeerTable) : List String :=
  ((db.filter (fun e => e.2.pinnedOrder.isSome)).mergeSort (precedes c)).map Prod.fst

/-- The place in front of every pinned conversation, of either folder. -/
def front (db : PeerTable) : Int := ((db.filterMap (fun e => e.2.pinnedOrder)).min?.map (· - 1)).getD 0

def setPeerPinned (db : PeerTable) (peerId : String) (pinned : Bool) : Bool × PeerTable :=
  let existing := peerRow db peerId
  if existing.pinnedOrder.isSome = pinned then (false, db)
  else
    (true, writePeerRow db peerId ⟨existing.folderId, if pinned then some (front db) else none⟩)

/-- The rows of a new order, and of what is no longer pinned. -/
def reordered (db : PeerTable) (next removed : List String) : PeerTable :=
  next.zipIdx.map (fun e => (e.1, ⟨(peerRow db e.1).folderId, some e.2⟩)) ++
    removed.map (fun peerId => (peerId, ⟨(peerRow db peerId).folderId, none⟩))

def reorderPinnedPeers (db : PeerTable) (order previous : List String) (force : Bool) : List String × PeerTable :=
  let requested := Maps.distinct order
  let kept := if force then [] else previous.filter (fun peerId => peerId ∉ requested)
  let next := requested ++ kept
  let removed := previous.filter (fun peerId => peerId ∉ next)
  (next, writeAll db (reordered db next removed))

/-- The pinned list of a folder. -/
def pinnedIn (c : Collation) (db : PeerTable) (folder : Fin 2) : List String :=
  (pinnedPeerIds c db).filter (fun peerId => (peerRow db peerId).folderId = folder)

inductive Operation
  | setPeerPinned (peerId : String) (pinned : Bool)
  | setPeerFolders (peers : List (String × Fin 2))
  /-- Meant for a folder, with its pinned list as `previous`. -/
  | reorderPinnedPeers (folder : Fin 2) (order : List String) (force : Bool)

def step (c : Collation) (db : PeerTable) : Operation → Option PeerTable
  | .setPeerPinned peerId pinned            => some (setPeerPinned db peerId pinned).2
  | .setPeerFolders peers                   => some (setPeerFolders db peers).2
  | .reorderPinnedPeers folder order force  => some (reorderPinnedPeers db order (pinnedIn c db folder) force).2

/-! ## The two lists -/

def folderAfter (db : PeerTable) (peerId : String) : Operation → Fin 2
  | .setPeerFolders peers => (Maps.get (Maps.ofList peers) peerId).getD (peerRow db peerId).folderId
  | _                     => (peerRow db peerId).folderId

def listAfter (c : Collation) (db : PeerTable) (f : Fin 2) : Operation → List String
  | .setPeerPinned peerId true =>
    if (peerRow db peerId).folderId = f ∧ peerId ∉ pinnedIn c db f then peerId :: pinnedIn c db f else pinnedIn c db f
  | .setPeerPinned peerId false => (pinnedIn c db f).filter (fun p => p ≠ peerId)
  | .setPeerFolders peers => (pinnedIn c db f).filter (fun p => (Maps.get (Maps.ofList peers) p).getD f = f)
  | .reorderPinnedPeers folder order force =>
    if folder = f then
      (Maps.distinct order).filter (fun p => (peerRow db p).folderId = f) ++
        if force then [] else (pinnedIn c db f).filter (fun p => p ∉ order)
    else pinnedIn c db f

structure Follows (c : Collation) (db : PeerTable) (op : Operation) (db' : PeerTable) : Prop where
  lists : ∀ f, pinnedIn c db' f = listAfter c db f op
  folders : ∀ p, (peerRow db' p).folderId = folderAfter db p op
  rows : ∀ p, (Maps.get db' p).isSome = true ↔ (peerRow db' p).folderId = 1 ∨ ∃ f, p ∈ pinnedIn c db' f

/-- A reorder names conversations of its own folder only. -/
def OwnOrder (db : PeerTable) : Operation → Prop
  | .reorderPinnedPeers folder order _ => ∀ p ∈ order, (peerRow db p).folderId = folder
  | _                                  => True

/-! ## Rows -/

section

variable {c : Collation} {db : PeerTable} {f : Fin 2} {l : List String}

structure Tidy (db : PeerTable) : Prop where
  distinct : Maps.Distinct db
  kept : ∀ e ∈ db, ¬(e.2.folderId = 0 ∧ e.2.pinnedOrder = none)

theorem Tidy.write (h : Tidy db) (p : String) (row : PeerRow) : Tidy (writePeerRow db p row) := by
  unfold writePeerRow
  split
  · exact ⟨h.distinct.delete p, fun e he => h.kept e (Maps.mem_delete.1 he).1⟩
  · rename_i hrow
    refine ⟨h.distinct.set p row, fun e he => ?_⟩
    rcases Maps.mem_set_imp he with rfl | he
    · exact hrow
    · exact h.kept e he

theorem Tidy.writeAll : ∀ {db : PeerTable}, Tidy db → ∀ rows : PeerTable, Tidy (writeAll db rows)
  | _, h, []        => h
  | _, h, e :: rows => Tidy.writeAll (h.write e.1 e.2) rows

theorem peerRow_write (db : PeerTable) (p q : String) (row : PeerRow) :
    peerRow (writePeerRow db p row) q = if q = p then row else peerRow db q := by
  obtain ⟨folderId, pinnedOrder⟩ := row
  unfold peerRow writePeerRow
  split
  · rename_i hrow
    obtain ⟨rfl, rfl⟩ := hrow
    rw [Maps.get_delete]
    split <;> rfl
  · rw [Maps.get_set]
    split <;> rfl

theorem peerRow_writeAll (q : String) : ∀ {rows : PeerTable} (db : PeerTable), Maps.Distinct rows →
    peerRow (writeAll db rows) q = (Maps.get rows q).getD (peerRow db q)
  | [],        _,  _ => rfl
  | e :: rows, db, h => by
    obtain ⟨hfirst, hrest⟩ := pairwise_cons.1 h
    rw [writeAll, foldl_cons, ← writeAll, peerRow_writeAll q _ hrest, peerRow_write, Maps.get_cons]
    by_cases hq : e.1 = q
    · rw [if_pos hq, if_pos hq.symm, Maps.get_eq_none.2 (fun x hx heq => hfirst x hx (hq.trans heq.symm))]
      rfl
    · rw [if_neg hq, if_neg (fun h => hq h.symm)]

theorem mem_of_pinned {p : String} (hp : (peerRow db p).pinnedOrder.isSome = true) : (p, peerRow db p) ∈ db := by
  unfold peerRow at hp ⊢
  cases hg : Maps.get db p with
  | none =>
    rw [hg] at hp
    cases hp
  | some row => exact Maps.mem_of_get hg

theorem mem_pinnedIn (h : Tidy db) {p : String} :
    p ∈ pinnedIn c db f ↔ (peerRow db p).folderId = f ∧ (peerRow db p).pinnedOrder.isSome = true := by
  unfold pinnedIn pinnedPeerIds
  rw [mem_filter, decide_eq_true_eq, and_comm]
  refine and_congr_right (fun _ => ?_)
  simp only [mem_map, mem_mergeSort, mem_filter]
  constructor
  · rintro ⟨⟨q, row⟩, ⟨hmem, hrow⟩, rfl⟩
    unfold peerRow
    rw [Maps.get_of_mem h.distinct hmem]
    exact hrow
  · exact fun hp => ⟨_, ⟨mem_of_pinned hp, hp⟩, rfl⟩

/-! ## Order -/

def order (db : PeerTable) (p : String) : Int := (peerRow db p).pinnedOrder.getD 0

/-- The pinned conversations of a folder, in order. -/
structure Lists (db : PeerTable) (f : Fin 2) (l : List String) : Prop where
  mem : ∀ p, p ∈ l ↔ (peerRow db p).folderId = f ∧ (peerRow db p).pinnedOrder.isSome = true
  sorted : l.Pairwise (fun p q => order db p < order db q)

theorem Lists.nodup_orders (h : Lists db f l) : (l.map (order db)).Nodup := pairwise_map.2 (h.sorted.imp Int.ne_of_lt)

theorem Lists.apart (h : Lists db f l) {p q : String} (hp : p ∈ l) (hq : q ∈ l) (horder : order db p = order db q) :
    p = q := inj_on_of_nodup_map h.nodup_orders hp hq horder

theorem Lists.nodup (h : Lists db f l) : l.Nodup := h.nodup_orders.of_map

/-- **A list in order is the pinned list.** -/
theorem Lists.eq (h : Lists db f l) (htidy : Tidy db) : pinnedIn c db f = l := by
  have hperm := mergeSort_perm (db.filter (fun e => e.2.pinnedOrder.isSome)) (precedes c)
  have hdistinct := Maps.distinct_of_perm hperm (htidy.distinct.filter _)
  have hnodup : (pinnedIn c db f).Nodup := (pairwise_map.2 hdistinct).filter _
  have hsorted : (pinnedIn c db f).Pairwise (fun p q => order db p ≤ order db q) := by
    have hle := c.pairwise_sorted (fun e : String × PeerRow => e.2.pinnedOrder.getD 0) Prod.fst
      (db.filter (fun e => e.2.pinnedOrder.isSome))
    refine (pairwise_map.2 (hle.imp_of_mem (fun {x y} hx hy hxy => ?_))).filter _
    have hrow : ∀ e ∈ (db.filter (fun e => e.2.pinnedOrder.isSome)).mergeSort (precedes c),
        order db e.1 = e.2.pinnedOrder.getD 0 := by
      intro e he
      unfold order peerRow
      rw [Maps.get_of_mem htidy.distinct (mem_of_mem_filter (mem_mergeSort.1 he))]
      rfl
    rw [hrow x hx, hrow y hy]
    exact hxy
  have hmem : ∀ p, p ∈ pinnedIn c db f ↔ p ∈ l := fun p => (mem_pinnedIn htidy).trans (h.mem p).symm
  refine Perm.eq_of_pairwise (fun p q hp hq hpq hqp => ?_) hsorted (h.sorted.imp Int.le_of_lt)
    ((perm_ext_iff_of_nodup hnodup h.nodup).2 hmem)
  exact h.apart ((hmem p).1 hp) hq (Int.le_antisymm hpq hqp)

variable {db' : PeerTable} {l' : List String} {op : Operation}

/-- What is left of a list whose places have not changed. -/
theorem Lists.sub (h : Lists db f l) (hsub : l'.Sublist l)
    (hmem : ∀ p, p ∈ l' ↔ (peerRow db' p).folderId = f ∧ (peerRow db' p).pinnedOrder.isSome = true)
    (hsame : ∀ p ∈ l', peerRow db' p = peerRow db p) : Lists db' f l' := by
  refine ⟨hmem, (h.sorted.sublist hsub).imp_of_mem (fun hp hq hlt => ?_)⟩
  unfold order
  rw [hsame _ hp, hsame _ hq]
  exact hlt

/-! ## The invariant -/

structure Inv (c : Collation) (db : PeerTable) : Prop where
  tidy : Tidy db
  lists : ∀ f, Lists db f (pinnedIn c db f)

theorem follows_of (htidy : Tidy db') (hlists : ∀ f, Lists db' f (listAfter c db f op))
    (hfolders : ∀ p, (peerRow db' p).folderId = folderAfter db p op) : Inv c db' ∧ Follows c db op db' := by
  have heq : ∀ f, pinnedIn c db' f = listAfter c db f op := fun f => (hlists f).eq htidy
  refine ⟨⟨htidy, fun f => (heq f).symm ▸ hlists f⟩, heq, hfolders, fun p => ?_⟩
  have hpinned : (∃ f, p ∈ pinnedIn c db' f) ↔ (peerRow db' p).pinnedOrder.isSome = true := by
    simp [mem_pinnedIn htidy]
  rw [hpinned]
  unfold peerRow
  cases hg : Maps.get db' p with
  | none => simp
  | some row =>
    have hkept := htidy.kept _ (Maps.mem_of_get hg)
    have hfolder : row.folderId = 0 ∨ row.folderId = 1 := by omega
    rcases hfolder with hfolder | hfolder
    · simpa [hfolder, Option.isSome_iff_ne_none] using hkept
    · simp [hfolder]

theorem front_lt {q : String} {n : Int} (hq : (peerRow db q).pinnedOrder = some n) : front db < n := by
  have hmem : n ∈ db.filterMap (fun e => e.2.pinnedOrder) :=
    mem_filterMap.2 ⟨_, mem_of_pinned (Option.isSome_of_eq_some hq), hq⟩
  unfold front
  cases hmin : (db.filterMap (fun e => e.2.pinnedOrder)).min? with
  | none =>
    rw [min?_eq_none_iff.1 hmin] at hmem
    cases hmem
  | some least =>
    have := (min?_eq_some_iff.1 hmin).2 n hmem
    simp only [Option.map_some, Option.getD_some]
    omega

theorem Lists.unpin (h : Lists db f l) (p : String) (folderId : Fin 2) :
    Lists (writePeerRow db p ⟨folderId, none⟩) f (l.filter (fun q => q ≠ p)) := by
  refine h.sub filter_sublist (fun q => ?_) (fun q hq => ?_)
  · rw [peerRow_write, mem_filter, h.mem]
    by_cases hq : q = p
    · simp [hq]
    · simp [hq]
  · rw [peerRow_write, if_neg (of_decide_eq_true (mem_filter.1 hq).2)]

theorem Lists.pin (h : Lists db f l) {p : String} (hp : (peerRow db p).pinnedOrder.isSome = false) :
    Lists (writePeerRow db p ⟨(peerRow db p).folderId, some (front db)⟩) f
      (if (peerRow db p).folderId = f then p :: l else l) := by
  have hnew : p ∉ l := fun hmem => Bool.false_ne_true (hp.symm.trans ((h.mem p).1 hmem).2)
  have hkept : ∀ q, q ≠ p → peerRow (writePeerRow db p ⟨(peerRow db p).folderId, some (front db)⟩) q = peerRow db q :=
    fun q hq => (peerRow_write db p q _).trans (if_neg hq)
  have hpinned : peerRow (writePeerRow db p ⟨(peerRow db p).folderId, some (front db)⟩) p =
      ⟨(peerRow db p).folderId, some (front db)⟩ := (peerRow_write db p p _).trans (if_pos rfl)
  have hne : ∀ q ∈ l, q ≠ p := fun q hq heq => hnew (heq ▸ hq)
  by_cases hfolder : (peerRow db p).folderId = f
  · rw [if_pos hfolder]
    refine ⟨fun q => ?_, pairwise_cons.2 ⟨fun q hq => ?_, h.sorted.imp_of_mem (fun ha hb hlt => ?_)⟩⟩
    · by_cases hq : q = p
      · rw [hq, hpinned]
        simp [hfolder]
      · rw [hkept q hq, ← h.mem, mem_cons, or_iff_right hq]
    · obtain ⟨n, hn⟩ := Option.isSome_iff_exists.1 ((h.mem q).1 hq).2
      unfold order
      rw [hpinned, hkept q (hne q hq), hn]
      exact front_lt hn
    · unfold order
      rw [hkept _ (hne _ ha), hkept _ (hne _ hb)]
      exact hlt
  · rw [if_neg hfolder]
    refine h.sub (Sublist.refl l) (fun q => ?_) (fun q hq => hkept q (hne q hq))
    by_cases hq : q = p
    · rw [hq, hpinned]
      simp [hfolder, hnew]
    · rw [hkept q hq, h.mem]

theorem follows_setPeerPinned (h : Inv c db) (p : String) (pinned : Bool) :
    Inv c (setPeerPinned db p pinned).2 ∧ Follows c db (.setPeerPinned p pinned) (setPeerPinned db p pinned).2 := by
  unfold setPeerPinned
  dsimp only
  split
  · rename_i hsame
    refine follows_of h.tidy (fun f => ?_) (fun _ => rfl)
    cases pinned with
    | true =>
      have hlist : listAfter c db f (.setPeerPinned p true) = pinnedIn c db f :=
        if_neg (fun hnew => hnew.2 (((h.lists f).mem p).2 ⟨hnew.1, hsame⟩))
      exact hlist ▸ h.lists f
    | false =>
      have hlist : listAfter c db f (.setPeerPinned p false) = pinnedIn c db f := by
        refine filter_eq_self.2 (fun q hq => decide_eq_true (fun heq => ?_))
        exact Bool.false_ne_true (hsame.symm.trans (heq ▸ ((h.lists f).mem q).1 hq).2)
      exact hlist ▸ h.lists f
  rename_i hother
  refine follows_of (h.tidy.write _ _) (fun f => ?_) (fun q => ?_)
  · cases pinned with
    | false => exact (h.lists f).unpin p _
    | true =>
      have hnone := Bool.eq_false_of_not_eq_true hother
      have hnew : p ∉ pinnedIn c db f := fun hmem =>
        Bool.false_ne_true (hnone.symm.trans (((h.lists f).mem p).1 hmem).2)
      have hlist : listAfter c db f (.setPeerPinned p true) =
          if (peerRow db p).folderId = f then p :: pinnedIn c db f else pinnedIn c db f := by
        unfold listAfter
        simp [hnew]
      exact hlist ▸ (h.lists f).pin hnone
  · rw [peerRow_write]
    split
    · rename_i heq
      rw [heq]
      rfl
    · rfl

theorem peerRow_setPeerFolders (db : PeerTable) (peers : List (String × Fin 2)) (q : String) :
    peerRow (setPeerFolders db peers).2 q =
      if folderAfter db q (.setPeerFolders peers) = (peerRow db q).folderId then peerRow db q
      else ⟨folderAfter db q (.setPeerFolders peers), none⟩ := by
  have hunique := Maps.distinct_ofList peers
  have hdistinct := hunique.filter (fun peer => (peerRow db peer.1).folderId ≠ peer.2)
  unfold setPeerFolders
  dsimp only
  rw [peerRow_writeAll q db (pairwise_map.2 hdistinct), Maps.get_map_values (fun _ folder => (⟨folder, none⟩ : PeerRow))]
  cases hg : Maps.get (Maps.ofList peers) q with
  | none =>
    have hafter : folderAfter db q (.setPeerFolders peers) = (peerRow db q).folderId := congrArg (Option.getD · _) hg
    rw [hafter, if_pos rfl, Maps.get_eq_none.2 (fun e he => Maps.get_eq_none.1 hg e (mem_of_mem_filter he))]
    rfl
  | some folder =>
    have hafter : folderAfter db q (.setPeerFolders peers) = folder := congrArg (Option.getD · _) hg
    rw [hafter]
    split
    · rename_i hsame
      rw [Maps.get_eq_none.2]
      · rfl
      intro e he heq
      obtain ⟨hmem, hmoved⟩ := mem_filter.1 he
      have hget := Maps.get_of_mem hunique hmem
      rw [heq, hg] at hget
      cases hget
      exact of_decide_eq_true hmoved (heq ▸ hsame.symm)
    · rename_i hmoved
      rw [Maps.get_of_mem hdistinct (mem_filter.2 ⟨Maps.mem_of_get hg, decide_eq_true (fun h => hmoved h.symm)⟩)]
      rfl

theorem follows_setPeerFolders (h : Inv c db) (peers : List (String × Fin 2)) :
    Inv c (setPeerFolders db peers).2 ∧ Follows c db (.setPeerFolders peers) (setPeerFolders db peers).2 := by
  have hrow := peerRow_setPeerFolders db peers
  have hstays : ∀ f q, (peerRow db q).folderId = f → (folderAfter db q (.setPeerFolders peers) = (peerRow db q).folderId ↔
      decide ((Maps.get (Maps.ofList peers) q).getD f = f) = true) := by
    rintro _ q rfl
    exact decide_eq_true_iff.symm
  refine follows_of (h.tidy.writeAll _) (fun f => (h.lists f).sub filter_sublist (fun q => ?_) (fun q hq => ?_)) (fun q => ?_)
  · refine mem_filter.trans ?_
    rw [(h.lists f).mem, hrow]
    have := hstays f q
    split
    · grind
    · grind
  · obtain ⟨hmem, hkept⟩ := mem_filter.1 hq
    rw [hrow, if_pos ((hstays f q (((h.lists f).mem q).1 hmem).1).2 hkept)]
  · rw [hrow]
    split
    · rename_i hsame
      exact hsame.symm
    · rfl

theorem peerRow_reordered {next removed : List String} (hnext : next.Nodup) (hremoved : removed.Nodup)
    (happart : ∀ p ∈ removed, p ∉ next) (q : String) : peerRow (writeAll db (reordered db next removed)) q =
      ⟨(peerRow db q).folderId,
        if q ∈ next then some (next.idxOf q) else if q ∈ removed then none else (peerRow db q).pinnedOrder⟩ := by
  have hkeys : (reordered db next removed).map Prod.fst = next ++ removed := by
    unfold reordered
    simp [Function.comp_def]
  have hdistinct : Maps.Distinct (reordered db next removed) := by
    refine pairwise_map.1 (hkeys ▸ ?_)
    exact nodup_append.2 ⟨hnext, hremoved, fun p hp q hq heq => happart q hq (heq ▸ hp)⟩
  have hget := fun row hmem => (peerRow_writeAll q db hdistinct).trans
    (congrArg (fun o => Option.getD o (peerRow db q)) (Maps.get_of_mem (v := row) hdistinct hmem))
  split
  · rename_i hq
    exact hget _ (mem_append_left _ (mem_map.2 ⟨(q, _), mem_zipIdx_iff_getElem?.2 (getElem?_idxOf hq), rfl⟩))
  split
  · rename_i hq
    exact hget _ (mem_append_right _ (mem_map.2 ⟨q, hq, rfl⟩))
  · rename_i hq hq'
    rw [peerRow_writeAll q db hdistinct, Maps.get_eq_none.2]
    · rfl
    intro e he heq
    have hmem := heq ▸ hkeys ▸ mem_map_of_mem he
    exact (mem_append.1 hmem).elim hq hq'

theorem follows_reorderPinnedPeers (h : Inv c db) (folder : Fin 2) (order : List String) (force : Bool)
    (hown : ∀ p ∈ order, (peerRow db p).folderId = folder) :
    Inv c (reorderPinnedPeers db order (pinnedIn c db folder) force).2 ∧
      Follows c db (.reorderPinnedPeers folder order force)
        (reorderPinnedPeers db order (pinnedIn c db folder) force).2 := by
  have hlists := h.lists folder
  unfold reorderPinnedPeers
  dsimp only
  generalize hkept : (if force = true then [] else
    (pinnedIn c db folder).filter (fun p => p ∉ Maps.distinct order)) = kept
  have hold : kept.Sublist (pinnedIn c db folder) ∧ ∀ p ∈ kept, p ∉ Maps.distinct order := by
    rw [← hkept]
    split
    · exact ⟨nil_sublist _, fun p hp => absurd hp not_mem_nil⟩
    · exact ⟨filter_sublist, fun p hp => of_decide_eq_true (mem_filter.1 hp).2⟩
  generalize hnext : Maps.distinct order ++ kept = next
  have hnodup : next.Nodup := by
    rw [← hnext]
    exact nodup_append.2 ⟨Maps.nodup_distinct order, hlists.nodup.sublist hold.1, fun p hp q hq heq => hold.2 q hq (heq ▸ hp)⟩
  have hin : ∀ p ∈ next, (peerRow db p).folderId = folder := by
    rw [← hnext]
    intro p hp
    rcases mem_append.1 hp with hp | hp
    · exact hown p (Maps.mem_distinct.1 hp)
    · exact ((hlists.mem p).1 (hold.1.subset hp)).1
  have hrow := @peerRow_reordered db next _ hnodup (hlists.nodup.filter _)
    (fun p hp => of_decide_eq_true (mem_filter.1 hp).2)
  have htidy := h.tidy.writeAll (reordered db next ((pinnedIn c db folder).filter (fun p => p ∉ next)))
  generalize writeAll db (reordered db next ((pinnedIn c db folder).filter (fun p => p ∉ next))) = db' at hrow htidy ⊢
  have hsame : ∀ q, (peerRow db' q).folderId = (peerRow db q).folderId := fun q => by rw [hrow]
  refine follows_of htidy (fun f => ?_) hsame
  unfold listAfter
  dsimp only
  by_cases hf : folder = f
  · subst hf
    have hlist : ((Maps.distinct order).filter (fun p => (peerRow db p).folderId = folder) ++
        if force = true then [] else (pinnedIn c db folder).filter (fun p => p ∉ order)) = next := by
      rw [← hnext, ← hkept, filter_eq_self.2 (fun p hp => decide_eq_true (hown p (Maps.mem_distinct.1 hp)))]
      simp only [Maps.mem_distinct]
    rw [if_pos rfl, hlist]
    refine ⟨fun q => ?_, pairwise_iff_getElem.2 (fun i j hi hj hij => ?_)⟩
    · rw [hrow]
      by_cases hq : q ∈ next
      · simp [hq, hin]
      · simp [hq, hlists.mem]
        grind
    · unfold DialogFolders.order
      rw [hrow, hrow]
      simp [hnodup.idxOf_getElem, hij]
  · rw [if_neg hf]
    have hkeeps : ∀ q, (peerRow db q).folderId = f → peerRow db' q = peerRow db q := by
      intro q hq
      rw [hrow, if_neg (fun hmem => hf ((hin q hmem).symm.trans hq)), if_neg]
      exact fun hmem => hf (((hlists.mem q).1 (mem_of_mem_filter hmem)).1.symm.trans hq)
    refine (h.lists f).sub (Sublist.refl _) (fun q => ?_) (fun q hq => hkeeps q (((h.lists f).mem q).1 hq).1)
    rw [(h.lists f).mem, hsame]
    exact and_congr_right (fun hq => by rw [hkeeps q hq])

end

/-! ## Runs -/

theorem inv_empty (c : Collation) : Inv c [] := by
  have htidy : Tidy [] := ⟨.nil, fun _ h => absurd h not_mem_nil⟩
  refine ⟨htidy, fun f => ⟨fun p => mem_pinnedIn htidy, ?_⟩⟩
  simp [pinnedIn, pinnedPeerIds]

theorem follows_step {c : Collation} {db db' : PeerTable} (h : Inv c db) (op : Operation) (hown : OwnOrder db op)
    (hstep : step c db op = some db') : Inv c db' ∧ Follows c db op db' := by
  cases op with
  | setPeerPinned p pinned => exact Option.some.inj hstep ▸ follows_setPeerPinned h p pinned
  | setPeerFolders peers => exact Option.some.inj hstep ▸ follows_setPeerFolders h peers
  | reorderPinnedPeers folder order force => exact Option.some.inj hstep ▸ follows_reorderPinnedPeers h folder order force hown

/-- **Pinned conversations are two ordered lists**, where every reorder names conversations of its own folder. -/
theorem pinned_are_lists (c : Collation) {db db' : PeerTable} {op : Operation}
    (hrun : Runs.Reachable (step c) OwnOrder [] db) (hown : OwnOrder db op) (hstep : step c db op = some db') :
    Follows c db op db' :=
  (follows_step (hrun.invariant (inv_empty c) (fun _ _ _ _ hinv hop hs => (follows_step hinv _ hop hs).1)) op hown hstep).2

theorem pinned_are_lists_one : Follows oneCollation [("a", ⟨0, some 0⟩)] (.reorderPinnedPeers 0 ["a"] true)
    (reorderPinnedPeers [("a", ⟨0, some 0⟩)] ["a"] (pinnedIn oneCollation [("a", ⟨0, some 0⟩)] 0) true).2 := by
  have hpin : step oneCollation [] (.setPeerPinned "a" true) = some [("a", ⟨0, some 0⟩)] := by decide
  have hown : OwnOrder [] (.setPeerPinned "a" true) := trivial
  exact pinned_are_lists oneCollation (.tail .init hown hpin) (by simp [OwnOrder, peerRow, Maps.get]) rfl

/-- An archived conversation is named in an order of the main folder: the archive gets a pinned conversation. -/
theorem reorder_pins_elsewhere :
    step oneCollation [] (.setPeerFolders [("a", 1)]) = some [("a", ⟨1, none⟩)] ∧
      ¬ Follows oneCollation [("a", ⟨1, none⟩)] (.reorderPinnedPeers 0 ["a"] false)
        (reorderPinnedPeers [("a", ⟨1, none⟩)] ["a"] (pinnedIn oneCollation [("a", ⟨1, none⟩)] 0) false).2 := by
  refine ⟨by decide, fun h => ?_⟩
  have hlist := h.lists 1
  simp [listAfter, pinnedIn, pinnedPeerIds, reorderPinnedPeers, reordered, writeAll, writePeerRow, peerRow, Maps.distinct,
    Maps.get, Maps.set, Maps.has] at hlist

end DialogFolders
end Crossgram
