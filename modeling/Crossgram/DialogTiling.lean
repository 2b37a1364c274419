import Crossgram.DialogPages
/-!
# DialogTiling — what a client gets that pages through the dialogs (packages/bridge/src/dialogs.ts)

A page is a stretch of the folder's dialogs that are not pinned, and the first one has the pinned ones in front.  The
client stops at an empty page, so it gets every dialog of the folder once as long as no window it runs into is full of
what a page leaves out (`dialog_pages_tile`); a window of sub-channels ends the list before its end
(`dialogs_after_subchannels_lost`).
-/
namespace Crossgram

open Maps List

namespace DialogList

variable (list : DialogList) (folderId : Option DialogFolder)

def topLevel (dialog : IMDialog) : Bool := !list.isSubchannel dialog.conversation

def inFolder (dialog : IMDialog) : Bool :=
  folderId.all (fun folderId => decide (list.effectiveFolderId dialog.conversation = folderId))

def shown (dialog : IMDialog) : Bool := list.topLevel dialog && list.inFolder folderId dialog

def ordinary (dialog : IMDialog) : Bool := list.shown folderId dialog && decide (dialog.id ∉ list.pinnedPeerIds)

def Offset (offset : Option String) : Prop :=
  offset = none ∨ ∃ dialog ∈ list.upstream.dialogs, list.ordinary folderId dialog = true ∧ offset = some dialog.id

def request (limit : Int) (offset : Option String) : GetDialogsRequest :=
  { offsetPeer := offset, limit := limit, folderId := folderId }

def firstDialogs (limit : Int) : List IMDialog :=
  if list.direct (request folderId limit none) then list.upstream.window (list.queryLimit limit) none
  else (list.upstream.dialogs.filter (list.shown folderId)).take (list.queryLimit limit)

/-- **When pages tile the list.**  Pinned dialogs are dialogs of the list that the first page can show; a total counts
the dialogs shown; no window that is asked for is full of what is left out while others follow; and the bound of the
folder scan is not reached. -/
structure Tileable (stored : Nat → List IMDialog) (limit : Int) : Prop where
  pins_distinct : list.pinnedPeerIds.Nodup
  stored_distinct : ∀ call, ((stored call).map IMDialog.id).Nodup
  pins_listed : ∀ call, ∀ dialog ∈ stored call, dialog.id ∈ list.pinnedPeerIds → list.inFolder folderId dialog = true →
    ∃ listed ∈ list.upstream.dialogs, listed.conversation = dialog.conversation ∧ list.shown folderId listed = true
  pins_shown : ∀ dialog ∈ list.upstream.dialogs, list.shown folderId dialog = true → dialog.id ∈ list.pinnedPeerIds →
    (∃ known ∈ stored 0, known.conversation = dialog.conversation) ∨ dialog ∈ list.firstDialogs folderId limit
  total : ∀ total, list.upstream.total = some total → ((list.upstream.dialogs.filter (list.shown folderId)).length : Int) ≤ total
  windows : ∀ offset, list.Offset folderId offset → list.direct (request folderId limit offset) = true →
    (∃ dialog ∈ list.upstream.rest offset, list.ordinary folderId dialog = true) →
    ∃ dialog ∈ list.upstream.window (list.queryLimit limit) offset, list.ordinary folderId dialog = true
  batches : (∃ offset, list.Offset folderId offset ∧ list.direct (request folderId limit offset) = false) →
    ∀ offset, (offset = none ∨ ∃ dialog ∈ list.upstream.dialogs, list.topLevel dialog = true ∧ offset = some dialog.id) →
    (∃ dialog ∈ list.upstream.rest offset, list.topLevel dialog = true) →
    ∃ dialog ∈ list.upstream.window (max 100 (list.queryLimit limit)) offset, list.topLevel dialog = true
  bounded : (∃ offset, list.Offset folderId offset ∧ list.direct (request folderId limit offset) = false) →
    (list.upstream.dialogs.filter list.topLevel).length < 100000

variable {list} {folderId} {limit : Nat} {dialog : IMDialog}

theorem topLevel_of_shown (h : list.shown folderId dialog = true) : list.topLevel dialog = true :=
  (Bool.and_eq_true_iff.1 h).1

theorem shown_of_ordinary (h : list.ordinary folderId dialog = true) :
    list.shown folderId dialog = true :=
  (Bool.and_eq_true_iff.1 h).1

theorem filter_shown_eq_nil {l : List IMDialog} (h : l.filter list.topLevel = []) : l.filter (list.shown folderId) = [] :=
  filter_eq_nil_iff.2 (fun dialog hd hs => filter_eq_nil_iff.1 h dialog hd (topLevel_of_shown hs))

theorem rest_sublist (offset : Option String) : (list.upstream.rest offset).Sublist list.upstream.dialogs :=
  (Paging.after_suffix _ _).sublist

variable {offset : Option String}

theorem rest_of_split {before after : List IMDialog}
    (h : list.upstream.rest offset = before ++ dialog :: after) : list.upstream.rest (some dialog.id) = after := by
  have hsuffix : list.upstream.rest offset <:+ list.upstream.dialogs := Paging.after_suffix _ _
  obtain ⟨skipped, hskipped⟩ := hsuffix
  rw [h, ← append_assoc] at hskipped
  exact Paging.after_of_split list.upstream.distinct hskipped.symm

theorem window_prefixed (size : Nat) (offset : Option String) :
    list.upstream.window size offset <+: list.upstream.rest offset :=
  take_prefix _ _

theorem window_eq_rest {size : Nat}
    (h : (list.upstream.getDialogsPage size offset).nextCursor = false) :
    list.upstream.window size offset = list.upstream.rest offset := by
  refine (window_prefixed size offset).eq_of_length_le ?_
  exact Nat.le_of_not_lt (of_decide_eq_false h)

theorem dialogs_loadDialogPage (size : Nat) (offset : Option String) :
    (list.loadDialogPage size offset).dialogs = (list.upstream.window size offset).filter list.topLevel := rfl

/-! ## The folder scan -/

/-- Where the scan of what follows an offset stands: `seen` was scanned, `rest` follows. -/
structure Scanning (list : DialogList) (folderId : DialogFolder) (limit : Nat) (offset : Option String)
    (scan : FolderScan) (seen rest : List IMDialog) : Prop where
  split : list.upstream.rest offset = seen ++ rest
  behind : list.upstream.rest scan.afterId = rest
  afterId : scan.afterId = offset ∨ ∃ dialog ∈ seen, list.topLevel dialog = true ∧ scan.afterId = some dialog.id
  selected : scan.selected = (seen.filter (list.shown folderId)).take limit
  matching : scan.matching = (seen.filter (list.shown folderId)).length
  scanned : scan.scanned = (seen.filter list.topLevel).length
  exhausted : scan.exhausted = false
  visited : ∀ known ∈ scan.visitedOffsets, known = offset ∨ ∃ dialog ∈ seen, known = some dialog.id
  fresh : scan.afterId ∉ scan.visitedOffsets

structure Scanned (list : DialogList) (folderId : DialogFolder) (limit : Nat) (offset : Option String)
    (scan : FolderScan) (seen rest : List IMDialog) : Prop where
  split : list.upstream.rest offset = seen ++ rest
  selected : scan.selected = (seen.filter (list.shown folderId)).take limit
  matching : scan.matching = (seen.filter (list.shown folderId)).length
  ends : scan.exhausted = true → rest.filter (list.shown folderId) = []
  full : scan.exhausted = false → limit ≤ scan.selected.length

theorem filter_shown {folderId : DialogFolder} (l : List IMDialog) :
    (l.filter list.topLevel).filter (fun dialog => list.effectiveFolderId dialog.conversation = folderId) =
      l.filter (list.shown (some folderId)) := by
  rw [filter_filter]
  refine filter_congr (fun dialog _ => ?_)
  unfold shown inFolder
  rw [Option.all_some, Bool.and_comm]

variable {seen rest : List IMDialog} {scan : FolderScan}

/-- **One round of the scan.** -/
theorem scan_window {folderId : DialogFolder}
    (h : Scanning list folderId limit offset scan seen rest) {page : List IMDialog} {last : IMDialog}
    (hpage : page = (list.upstream.window (max 100 limit) scan.afterId).filter list.topLevel)
    (hlast : page.getLast? = some last) :
    ∃ seen' rest', rest = seen' ++ rest' ∧ page = seen'.filter list.topLevel ∧ last ∈ seen' ∧ list.topLevel last = true ∧
      list.upstream.rest (some last.id) = rest' ∧
      ((list.upstream.getDialogsPage (max 100 limit) scan.afterId).nextCursor = false →
        rest'.filter list.topLevel = []) := by
  obtain ⟨init, hinit⟩ := getLast?_eq_some_iff.1 hlast
  rw [hinit] at hpage
  obtain ⟨before, back, hwindow, hbefore, hback⟩ := filter_eq_append_iff.1 hpage.symm
  obtain ⟨skip, left, hsplit, hskip, htop, hleft⟩ := filter_eq_cons_iff.1 hback
  have hpre : list.upstream.window (max 100 limit) scan.afterId <+: list.upstream.rest scan.afterId := window_prefixed _ _
  obtain ⟨more, hmore⟩ := hpre
  rw [h.behind] at hmore
  have hrest : rest = (before ++ skip ++ [last]) ++ (left ++ more) := by
    rw [← hmore, hwindow, hsplit]
    simp
  refine ⟨before ++ skip ++ [last], left ++ more, hrest, ?_, by simp, htop, ?_, fun hnext => ?_⟩
  · have hskip' : skip.filter list.topLevel = [] := filter_eq_nil_iff.2 hskip
    rw [hinit, filter_append, filter_append, hbefore, hskip', append_nil,
      filter_cons_of_pos htop, filter_nil]
  · have hbehind : list.upstream.rest scan.afterId = (before ++ skip) ++ last :: (left ++ more) := by
      rw [h.behind, hrest]
      simp
    exact rest_of_split hbehind
  · have hall := window_eq_rest hnext
    rw [h.behind, ← hmore] at hall
    have hnone : more = [] := by simpa using hall
    rw [hnone, append_nil, hleft]

theorem Scanning.next {folderId : DialogFolder}
    (h : Scanning list folderId limit offset scan seen rest) {seen' rest' : List IMDialog} {last : IMDialog}
    (hrest : rest = seen' ++ rest') (hlast : last ∈ seen') (htop : list.topLevel last = true)
    (hbehind : list.upstream.rest (some last.id) = rest') :
    Scanning list folderId limit offset
      { selected := scan.selected ++ ((seen'.filter list.topLevel).filter (fun dialog =>
          list.effectiveFolderId dialog.conversation = folderId)).take (limit - scan.selected.length)
        matching := scan.matching + ((seen'.filter list.topLevel).filter (fun dialog =>
          list.effectiveFolderId dialog.conversation = folderId)).length
        afterId := some last.id, scanned := scan.scanned + (seen'.filter list.topLevel).length, exhausted := false,
        visitedOffsets := scan.visitedOffsets ++ [scan.afterId] } (seen ++ seen') rest' := by
  have hknown : ∀ known ∈ scan.visitedOffsets ++ [scan.afterId], known = offset ∨ ∃ dialog ∈ seen, known = some dialog.id := by
    intro known hk
    rcases mem_append.1 hk with hk | hk
    · exact h.visited known hk
    · rw [mem_singleton.1 hk]
      rcases h.afterId with ha | ⟨dialog, hd, -, ha⟩
      · exact Or.inl ha
      · exact Or.inr ⟨dialog, hd, ha⟩
  have hsplit : list.upstream.rest offset = (seen ++ seen') ++ rest' := by
    rw [h.split, hrest, append_assoc]
  refine ⟨hsplit, hbehind, Or.inr ⟨last, mem_append_right _ hlast, htop, rfl⟩, ?_, ?_, ?_, rfl, ?_, ?_⟩
  · dsimp only
    rw [filter_shown, filter_append, take_append, h.selected, length_take]
    congr 2
    omega
  · dsimp only
    rw [filter_shown, filter_append, length_append, h.matching]
  · dsimp only
    rw [filter_append, length_append, h.scanned]
  · intro known hk
    rcases hknown known hk with hk | ⟨dialog, hd, hk⟩
    · exact Or.inl hk
    · exact Or.inr ⟨dialog, mem_append_left _ hd, hk⟩
  · intro hvisited
    have hmem : last ∈ list.upstream.rest offset := by
      rw [hsplit]
      exact mem_append_left _ (mem_append_right _ hlast)
    rcases hknown _ hvisited with hk | ⟨dialog, hd, hk⟩
    · rw [← hk] at hmem
      exact Paging.key_ne_of_mem_after list.upstream.distinct hmem rfl
    · have hnd := ((rest_sublist offset).map IMDialog.id).nodup list.upstream.distinct
      rw [hsplit, append_assoc, map_append] at hnd
      refine (nodup_append.1 hnd).2.2 dialog.id (mem_map_of_mem hd) last.id
        (mem_map_of_mem (mem_append_left _ hlast)) ?_
      exact (Option.some.inj hk).symm

/-- **The scan.**  `hbatches` and `hbound` are what it relies on. -/
theorem scanFolder_spec {folderId : DialogFolder} (hlimit : 0 < limit)
    (hoffset : offset = none ∨ ∃ dialog ∈ list.upstream.dialogs, list.topLevel dialog = true ∧ offset = some dialog.id)
    (hbatches : ∀ offset, (offset = none ∨ ∃ dialog ∈ list.upstream.dialogs, list.topLevel dialog = true ∧
      offset = some dialog.id) → (∃ dialog ∈ list.upstream.rest offset, list.topLevel dialog = true) →
      ∃ dialog ∈ list.upstream.window (max 100 limit) offset, list.topLevel dialog = true)
    (hbound : (list.upstream.dialogs.filter list.topLevel).length < 100000) :
    ∀ (rounds : Nat) {scan : FolderScan} {seen rest : List IMDialog},
      Scanning list folderId limit offset scan seen rest → 100000 < rounds + scan.scanned →
      ∃ seen rest, Scanned list folderId limit offset (list.scanFolder limit folderId rounds scan) seen rest := by
  have hfew : ∀ {scan : FolderScan} {seen rest : List IMDialog}, Scanning list folderId limit offset scan seen rest →
      scan.scanned < 100000 := by
    intro scan seen rest h
    have hsub : (seen.filter list.topLevel).Sublist (list.upstream.dialogs.filter list.topLevel) :=
      ((prefix_append seen rest).sublist.trans (h.split ▸ rest_sublist offset)).filter _
    have := hsub.length_le
    rw [h.scanned]
    omega
  intro rounds
  induction rounds with
  | zero =>
    intro scan seen rest h hrounds
    exact absurd (hfew h) (by omega)
  | succ rounds ih =>
    intro scan seen rest h hrounds
    unfold scanFolder
    by_cases hgo : (list.qq = true ∨ scan.selected.length < limit) ∧ scan.scanned < 100000 ∧
        scan.afterId ∉ scan.visitedOffsets
    · rw [if_pos hgo]
      dsimp only
      rw [dialogs_loadDialogPage]
      cases hlast : ((list.upstream.window (max 100 limit) scan.afterId).filter list.topLevel).getLast? with
      | none =>
        have hempty := getLast?_eq_none_iff.1 hlast
        have hbehind : scan.afterId = none ∨ ∃ dialog ∈ list.upstream.dialogs, list.topLevel dialog = true ∧
            scan.afterId = some dialog.id := by
          rcases h.afterId with ha | ⟨dialog, hd, htop, ha⟩
          · rw [ha]
            exact hoffset
          · refine Or.inr ⟨dialog, (rest_sublist offset).subset ?_, htop, ha⟩
            rw [h.split]
            exact mem_append_left _ hd
        have hrest : rest.filter list.topLevel = [] := by
          refine filter_eq_nil_iff.2 (fun dialog hd htop => ?_)
          obtain ⟨found, hfound, hfoundTop⟩ := hbatches scan.afterId hbehind ⟨dialog, h.behind ▸ hd, htop⟩
          exact filter_eq_nil_iff.1 hempty found hfound hfoundTop
        exact ⟨seen, rest, h.split, h.selected, h.matching, fun _ => filter_shown_eq_nil hrest, fun hc => by cases hc⟩
      | some last =>
        obtain ⟨seen', rest', hrest, hpage, hmem, htop, hbehind, hend⟩ := scan_window h rfl hlast
        have hnext := h.next hrest hmem htop hbehind
        dsimp only
        rw [hpage]
        by_cases hstop : ((list.loadDialogPage (max 100 limit) scan.afterId).nextCursor ||
            (list.loadDialogPage (max 100 limit) scan.afterId).total.any (fun total =>
              decide (((scan.scanned + (seen'.filter list.topLevel).length : Nat) : Int) < total)) ||
            decide (max 100 limit ≤ (seen'.filter list.topLevel).length)) = false ∨ some last.id = scan.afterId
        · rw [if_pos hstop]
          rcases hstop with hstop | hsame
          · rw [Bool.or_eq_false_iff, Bool.or_eq_false_iff] at hstop
            exact ⟨seen ++ seen', rest', hnext.split, hnext.selected, hnext.matching,
              fun _ => filter_shown_eq_nil (hend hstop.1.1), fun hc => by cases hc⟩
          · refine absurd ?_ hnext.fresh
            rw [hsame]
            exact mem_append_right _ (mem_singleton_self _)
        · rw [if_neg hstop]
          refine ih hnext ?_
          have hpos : 0 < (seen'.filter list.topLevel).length :=
            length_pos_of_mem (mem_filter.2 ⟨hmem, htop⟩)
          dsimp only
          omega
    · rw [if_neg hgo]
      refine ⟨seen, rest, h.split, h.selected, h.matching, fun hc => absurd (h.exhausted.symm.trans hc) (by simp),
        fun _ => ?_⟩
      by_contra hlt
      exact hgo ⟨Or.inr (by omega), hfew h, h.fresh⟩

/-! ## What is loaded -/

structure Loads (list : DialogList) (folderId : Option DialogFolder) (offset : Option String) (page : IMDialogPage) :
    Prop where
  prefixed : page.dialogs <+: (list.upstream.rest offset).filter (list.shown folderId)
  ends : page.nextCursor = false → page.dialogs = (list.upstream.rest offset).filter (list.shown folderId)
  ordinary : (∃ dialog ∈ list.upstream.rest offset, list.ordinary folderId dialog = true) →
    ∃ dialog ∈ page.dialogs, list.ordinary folderId dialog = true
  total : ∀ total, page.total = some total →
    ((list.upstream.dialogs.filter (list.shown folderId)).length : Int) ≤ total

theorem exists_ordinary {dialogs : List IMDialog} (hd : (dialogs.map IMDialog.id).Nodup)
    (hshown : ∀ dialog ∈ dialogs, list.shown folderId dialog = true) (hlen : list.pinnedPeerIds.length < dialogs.length) :
    ∃ dialog ∈ dialogs, list.ordinary folderId dialog = true := by
  by_contra hnone
  have hsub : dialogs.map IMDialog.id ⊆ list.pinnedPeerIds := by
    intro id hid
    obtain ⟨dialog, hmem, rfl⟩ := mem_map.1 hid
    by_contra hout
    exact hnone ⟨dialog, hmem, Bool.and_eq_true_iff.2 ⟨hshown dialog hmem, decide_eq_true hout⟩⟩
  have := (hd.subperm hsub).length_le
  rw [length_map] at this
  omega

theorem Scanned.selected_eq {folderId : DialogFolder}
    (h : Scanned list folderId limit offset scan seen rest) :
    scan.selected = ((list.upstream.rest offset).filter (list.shown folderId)).take limit := by
  rw [h.split, filter_append]
  cases hex : scan.exhausted with
  | true => rw [h.ends hex, append_nil, h.selected]
  | false =>
    have hfull := h.full hex
    rw [h.selected, length_take] at hfull
    rw [h.selected, take_append_of_le_length (by omega)]

variable {stored : Nat → List IMDialog} {size : Int} {offset : Option String}

theorem queryLimit_pos : 0 < list.queryLimit size := Nat.succ_pos _

theorem topLevel_offset (h : list.Offset folderId offset) :
    offset = none ∨ ∃ dialog ∈ list.upstream.dialogs, list.topLevel dialog = true ∧ offset = some dialog.id := by
  rcases h with h | ⟨dialog, hd, ho, h⟩
  · exact Or.inl h
  · exact Or.inr ⟨dialog, hd, topLevel_of_shown (shown_of_ordinary ho), h⟩

theorem scanned_folder {folderId : DialogFolder} (h : list.Tileable folderId stored size)
    (hoffset : list.Offset folderId offset) (hscan : list.direct (request folderId size offset) = false) :
    ∃ seen rest, Scanned list folderId (list.queryLimit size) offset
      (list.scanFolder (list.queryLimit size) folderId 100001 (FolderScan.start offset)) seen rest := by
  have hscans : ∃ offset, list.Offset folderId offset ∧ list.direct (request folderId size offset) = false :=
    ⟨offset, hoffset, hscan⟩
  have hstart : Scanning list folderId (list.queryLimit size) offset (FolderScan.start offset) []
      (list.upstream.rest offset) := by
    refine ⟨rfl, rfl, Or.inl rfl, ?_, rfl, rfl, rfl, ?_, ?_⟩
    · exact take_nil.symm
    · exact fun _ hk => by cases hk
    · exact fun hk => by cases hk
  refine scanFolder_spec queryLimit_pos (topLevel_offset hoffset) (h.batches hscans) (h.bounded hscans) 100001 hstart ?_
  show 100000 < 100001 + 0
  omega

theorem shown_sublist (offset : Option String) : ((list.upstream.rest offset).filter (list.shown folderId)).Sublist
    list.upstream.dialogs :=
  filter_sublist.trans (rest_sublist offset)

theorem loads_folder {folderId : DialogFolder} (h : list.Tileable folderId stored size)
    (hoffset : list.Offset folderId offset) (hscan : list.direct (request folderId size offset) = false) :
    Loads list folderId offset (list.loadDialogFolderPage (list.queryLimit size) offset folderId) ∧
      (list.loadDialogFolderPage (list.queryLimit size) offset folderId).dialogs =
        ((list.upstream.rest offset).filter (list.shown folderId)).take (list.queryLimit size) := by
  obtain ⟨seen, rest, hscanned⟩ := scanned_folder h hoffset hscan
  have hlimit : max 1 (list.queryLimit size) = list.queryLimit size := max_eq_right queryLimit_pos
  unfold loadDialogFolderPage
  dsimp only
  rw [hlimit]
  generalize list.scanFolder (list.queryLimit size) folderId 100001 _ = scan at hscanned
  have hselected := hscanned.selected_eq
  refine ⟨⟨?_, fun hnext => ?_, fun hordinary => ?_, fun total htotal => ?_⟩, hselected⟩
  · dsimp only
    rw [hselected]
    exact take_prefix _ _
  · have hpos : 0 < list.queryLimit size := queryLimit_pos
    dsimp only at hnext ⊢
    rw [Bool.and_eq_false_iff, Bool.or_eq_false_iff, Bool.or_eq_false_iff, decide_eq_false_iff_not] at hnext
    rw [hselected, take_of_length_le]
    rcases hnext with ⟨hle, hex⟩ | ⟨-, hempty⟩
    · have hrest := hscanned.ends (by simpa using hex)
      rw [hscanned.split, filter_append, hrest, append_nil, ← hscanned.matching]
      omega
    · have hnil : scan.selected = [] := by simpa using hempty
      rw [hselected, take_eq_nil_iff] at hnil
      rw [hnil.resolve_left (by omega)]
      exact Nat.zero_le _
  · obtain ⟨dialog, hmem, ho⟩ := hordinary
    dsimp only
    by_cases hall : ((list.upstream.rest offset).filter (list.shown folderId)).length ≤ list.queryLimit size
    · rw [hselected, take_of_length_le hall]
      exact ⟨dialog, mem_filter.2 ⟨hmem, shown_of_ordinary ho⟩, ho⟩
    · rw [hselected]
      refine exists_ordinary ?_ (fun d hd => (mem_filter.1 (mem_of_mem_take hd)).2) ?_
      · exact (((take_sublist _ _).trans (shown_sublist offset)).map IMDialog.id).nodup list.upstream.distinct
      · rw [length_take, Nat.min_eq_left (by omega)]
        unfold queryLimit
        omega
  · dsimp only at htotal
    split at htotal
    · rename_i hex
      obtain ⟨hex, rfl⟩ := hex
      have hrest := hscanned.ends hex
      have hall : list.upstream.dialogs.filter (list.shown folderId) = seen.filter (list.shown folderId) := by
        have hsplit : list.upstream.dialogs = seen ++ rest := hscanned.split
        rw [hsplit, filter_append, hrest, append_nil]
      rw [← Option.some.inj htotal, hscanned.matching, hall]
    · cases htotal

theorem window_shown (hdirect : list.direct (request folderId size offset) = true) :
    (list.loadDialogPage (list.queryLimit size) offset).dialogs =
      (list.upstream.window (list.queryLimit size) offset).filter (list.shown folderId) := by
  rw [dialogs_loadDialogPage]
  refine filter_congr (fun dialog hd => ?_)
  unfold shown
  rcases folderId with _ | (_ | _)
  · exact (Bool.and_true _).symm
  · cases htop : list.topLevel dialog with
    | false => rfl
    | true =>
      have hall := (Bool.and_eq_true_iff.1 hdirect).2
      rw [all_eq_true] at hall
      exact (hall dialog (mem_filter.2 ⟨hd, htop⟩)).symm
  · cases hdirect

theorem loads_window (h : list.Tileable folderId stored size) (hoffset : list.Offset folderId offset)
    (hdirect : list.direct (request folderId size offset) = true) :
    Loads list folderId offset (list.loadDialogPage (list.queryLimit size) offset) := by
  have hshown := window_shown hdirect
  refine ⟨?_, fun hnext => ?_, fun hordinary => ?_, fun total htotal => h.total total htotal⟩
  · rw [hshown]
    exact (window_prefixed _ _).filter _
  · rw [hshown, window_eq_rest hnext]
  · obtain ⟨dialog, hmem, ho⟩ := h.windows offset hoffset hdirect hordinary
    rw [hshown]
    exact ⟨dialog, mem_filter.2 ⟨hmem, shown_of_ordinary ho⟩, ho⟩

/-- **What a request of the client loads.** -/
theorem loads (h : list.Tileable folderId stored size) (hoffset : list.Offset folderId offset) :
    Loads list folderId offset (list.load (request folderId size offset)) := by
  unfold load
  by_cases hdirect : list.direct (request folderId size offset) = true
  · rw [if_pos hdirect]
    exact loads_window h hoffset hdirect
  · rw [if_neg hdirect]
    rcases folderId with _ | folder
    · exact absurd rfl hdirect
    · exact (loads_folder h hoffset (by simpa using hdirect)).1

theorem selected_scanFolder {folderId : DialogFolder} : ∀ (rounds : Nat) (scan : FolderScan),
    (∀ dialog ∈ scan.selected, dialog ∈ list.upstream.dialogs ∧ list.shown folderId dialog = true) →
    ∀ dialog ∈ (list.scanFolder limit folderId rounds scan).selected,
      dialog ∈ list.upstream.dialogs ∧ list.shown folderId dialog = true
  | 0, _, h => h
  | rounds + 1, scan, h => by
    have hnext : ∀ dialog ∈ scan.selected ++ ((list.loadDialogPage (max 100 limit) scan.afterId).dialogs.filter (fun dialog =>
        list.effectiveFolderId dialog.conversation = folderId)).take (limit - scan.selected.length),
        dialog ∈ list.upstream.dialogs ∧ list.shown folderId dialog = true := by
      intro dialog hd
      rcases mem_append.1 hd with hd | hd
      · exact h dialog hd
      · rw [dialogs_loadDialogPage, filter_shown] at hd
        obtain ⟨hwindow, hs⟩ := mem_filter.1 (mem_of_mem_take hd)
        exact ⟨(rest_sublist _).subset ((window_prefixed _ _).subset hwindow), hs⟩
    unfold scanFolder
    split
    · dsimp only
      split
      · exact h
      · split
        · exact hnext
        · exact selected_scanFolder rounds _ hnext
    · exact h

theorem mem_load (h : dialog ∈ (list.load (request folderId size offset)).dialogs) :
    dialog ∈ list.upstream.dialogs ∧ list.shown folderId dialog = true := by
  unfold load at h
  by_cases hdirect : list.direct (request folderId size offset) = true
  · rw [if_pos hdirect] at h
    obtain ⟨hwindow, hs⟩ := mem_filter.1 (window_shown hdirect ▸ h)
    exact ⟨(rest_sublist _).subset ((window_prefixed _ _).subset hwindow), hs⟩
  · rw [if_neg hdirect] at h
    rcases folderId with _ | folder
    · exact absurd rfl hdirect
    · exact selected_scanFolder 100001 _ (fun dialog hd => by cases hd) dialog h

/-! ## Pinned dialogs -/

section Pinned

variable (list folderId) (known loaded : List IMDialog)

def pinned (peerId : String) : Option IMDialog :=
  ((Maps.get ((known.filter (fun dialog => dialog.id ∈ list.pinnedPeerIds.filter (fun peerId =>
      !Maps.has (Maps.ofList (loaded.map (fun dialog => (dialog.id, dialog)))) peerId))).map
        (fun dialog => (dialog.id, dialog))) peerId).or
    (Maps.get (loaded.map (fun dialog => (dialog.id, dialog))) peerId)).filter (list.inFolder folderId)

variable {known loaded}

theorem distinct_entries {dialogs : List IMDialog} (h : (dialogs.map IMDialog.id).Nodup) :
    Maps.Distinct (dialogs.map (fun dialog => (dialog.id, dialog))) := by
  unfold Maps.Distinct
  rw [pairwise_map]
  exact pairwise_map.1 h

theorem pinnedDialogs_eq (hknown : (known.map IMDialog.id).Nodup) (hloaded : (loaded.map IMDialog.id).Nodup) :
    list.pinnedDialogs known folderId loaded = list.pinnedPeerIds.filterMap (list.pinned folderId known loaded) := by
  have hsub := (hknown.sublist ((filter_sublist (p := fun dialog => decide (dialog.id ∈ list.pinnedPeerIds.filter
    (fun peerId => !Maps.has (Maps.ofList (loaded.map (fun dialog => (dialog.id, dialog)))) peerId)))).map IMDialog.id))
  unfold pinnedDialogs
  refine filterMap_congr (fun peerId _ => ?_)
  unfold pinned
  refine congrArg (fun found => Option.filter (list.inFolder folderId) found) ?_
  rw [← get_ofList_of_distinct (distinct_entries hsub), ← get_ofList_of_distinct (distinct_entries hloaded),
    get_ofList, ← get_foldl_set, foldl_map]

variable {list folderId}

theorem has_loaded {peerId : String} : Maps.has (Maps.ofList (loaded.map (fun dialog => (dialog.id, dialog)))) peerId = true ↔
    ∃ dialog ∈ loaded, dialog.id = peerId := by
  rw [has_eq_isSome, get_ofList, ← has_eq_isSome, has_iff]
  constructor
  · rintro ⟨e, he, hid⟩
    obtain ⟨dialog, hd, rfl⟩ := mem_map.1 (mem_reverse.1 he)
    exact ⟨dialog, hd, hid⟩
  · rintro ⟨dialog, hd, hid⟩
    exact ⟨(dialog.id, dialog), mem_reverse.2 (mem_map_of_mem hd), hid⟩

variable {dialog : IMDialog}

theorem pinned_eq_some {peerId : String} (h : list.pinned folderId known loaded peerId = some dialog) :
    dialog.id = peerId ∧ list.inFolder folderId dialog = true ∧
      (dialog ∈ known ∧ dialog.id ∈ list.pinnedPeerIds ∨ dialog ∈ loaded) := by
  obtain ⟨hfound, hin⟩ := Option.filter_eq_some_iff.1 h
  have hentry : ∀ {dialogs : List IMDialog}, (peerId, dialog) ∈ dialogs.map (fun dialog => (dialog.id, dialog)) →
      dialog.id = peerId ∧ dialog ∈ dialogs := by
    intro dialogs he
    obtain ⟨found, hmem, heq⟩ := mem_map.1 he
    obtain ⟨hid, rfl⟩ := Prod.mk.inj heq
    exact ⟨hid, hmem⟩
  rcases Option.or_eq_some_iff.1 hfound with hg | ⟨-, hg⟩
  · obtain ⟨hid, hmem⟩ := hentry (mem_of_get hg)
    obtain ⟨hmem, hmissing⟩ := mem_filter.1 hmem
    exact ⟨hid, hin, Or.inl ⟨hmem, mem_of_mem_filter (of_decide_eq_true hmissing)⟩⟩
  · obtain ⟨hid, hmem⟩ := hentry (mem_of_get hg)
    exact ⟨hid, hin, Or.inr hmem⟩

theorem pinned_of_loaded (hloaded : (loaded.map IMDialog.id).Nodup) (hd : dialog ∈ loaded)
    (hin : list.inFolder folderId dialog = true) : list.pinned folderId known loaded dialog.id = some dialog := by
  unfold pinned
  have hnone : Maps.get ((known.filter (fun dialog => dialog.id ∈ list.pinnedPeerIds.filter (fun peerId =>
      !Maps.has (Maps.ofList (loaded.map (fun dialog => (dialog.id, dialog)))) peerId))).map
        (fun dialog => (dialog.id, dialog))) dialog.id = none := by
    refine get_eq_none.2 (fun e he hid => ?_)
    obtain ⟨found, hmem, rfl⟩ := mem_map.1 he
    have hmissing := (mem_filter.1 (of_decide_eq_true (mem_filter.1 hmem).2)).2
    rw [Bool.not_eq_true', has_loaded.2 ⟨dialog, hd, hid.symm⟩] at hmissing
    cases hmissing
  rw [hnone, Option.none_or, get_of_mem (distinct_entries hloaded) (mem_map_of_mem hd), Option.filter_some,
    if_pos hin]

theorem pinned_of_known (hknown : (known.map IMDialog.id).Nodup) (hd : dialog ∈ known)
    (hpin : dialog.id ∈ list.pinnedPeerIds) (hout : ∀ other ∈ loaded, other.id ≠ dialog.id)
    (hin : list.inFolder folderId dialog = true) : list.pinned folderId known loaded dialog.id = some dialog := by
  have hmissing : dialog.id ∈ list.pinnedPeerIds.filter (fun peerId =>
      !Maps.has (Maps.ofList (loaded.map (fun dialog => (dialog.id, dialog)))) peerId) := by
    refine mem_filter.2 ⟨hpin, ?_⟩
    rw [Bool.not_eq_true', Bool.eq_false_iff]
    intro hhas
    obtain ⟨other, ho, hid⟩ := has_loaded.1 hhas
    exact hout other ho hid
  have hsub := hknown.sublist ((filter_sublist (p := fun dialog => decide (dialog.id ∈ list.pinnedPeerIds.filter
    (fun peerId => !Maps.has (Maps.ofList (loaded.map (fun dialog => (dialog.id, dialog)))) peerId)))).map IMDialog.id)
  unfold pinned
  rw [get_of_mem (distinct_entries hsub) (mem_map_of_mem (mem_filter.2 ⟨hd, decide_eq_true hmissing⟩)),
    Option.some_or, Option.filter_some, if_pos hin]

theorem pinned_ids (hknown : (known.map IMDialog.id).Nodup) (hloaded : (loaded.map IMDialog.id).Nodup) :
    (list.pinnedDialogs known folderId loaded).map IMDialog.id =
      list.pinnedPeerIds.filter (fun peerId => (list.pinned folderId known loaded peerId).isSome) := by
  rw [pinnedDialogs_eq list folderId hknown hloaded, map_filterMap, ← filterMap_eq_filter]
  refine filterMap_congr (fun peerId _ => ?_)
  cases hp : list.pinned folderId known loaded peerId with
  | none => simp [Option.guard, hp]
  | some dialog => simp [Option.guard, hp, (pinned_eq_some hp).1]

end Pinned

def pinnedShown (list : DialogList) (folderId : Option DialogFolder) : List IMDialog :=
  (list.upstream.dialogs.filter (list.shown folderId)).filter (fun dialog => dialog.id ∈ list.pinnedPeerIds)

theorem mem_pinnedShown : dialog ∈ list.pinnedShown folderId ↔
    dialog ∈ list.upstream.dialogs ∧ list.shown folderId dialog = true ∧ dialog.id ∈ list.pinnedPeerIds := by
  unfold pinnedShown
  rw [mem_filter, mem_filter, decide_eq_true_eq, and_assoc]

theorem eq_of_id {dialog other : IMDialog} (hd : dialog ∈ list.upstream.dialogs) (ho : other ∈ list.upstream.dialogs)
    (hid : dialog.id = other.id) : dialog = other :=
  inj_on_of_nodup_map list.upstream.distinct hd ho hid

variable {page : IMDialogPage}

theorem Loads.nodup (h : Loads list folderId offset page) : (page.dialogs.map IMDialog.id).Nodup :=
  ((h.prefixed.sublist.trans (shown_sublist offset)).map IMDialog.id).nodup list.upstream.distinct

theorem Loads.mem (h : Loads list folderId offset page)
    (hd : dialog ∈ page.dialogs) : dialog ∈ list.upstream.dialogs ∧ list.shown folderId dialog = true := by
  obtain ⟨hrest, hs⟩ := mem_filter.1 (h.prefixed.subset hd)
  exact ⟨(rest_sublist offset).subset hrest, hs⟩

/-- **A pinned dialog that is shown is one of the list's.** -/
theorem pinned_listed (h : list.Tileable folderId stored size) (hl : Loads list folderId offset page)
    (call : Nat) {peerId : String}
    (hp : list.pinned folderId (stored call) page.dialogs peerId = some dialog) (hpin : peerId ∈ list.pinnedPeerIds) :
    peerId ∈ (list.pinnedShown folderId).map IMDialog.id := by
  obtain ⟨hid, hin, ⟨hknown, hpinned⟩ | hloaded⟩ := pinned_eq_some hp
  · obtain ⟨listed, hmem, hsame, hs⟩ := h.pins_listed call dialog hknown hpinned hin
    have hlisted : listed.id = peerId := (congrArg IMConversation.id hsame).trans hid
    exact mem_map.2 ⟨listed, mem_pinnedShown.2 ⟨hmem, hs, hlisted ▸ hpin⟩, hlisted⟩
  · obtain ⟨hmem, hs⟩ := hl.mem hloaded
    exact mem_map.2 ⟨dialog, mem_pinnedShown.2 ⟨hmem, hs, hid ▸ hpin⟩, hid⟩

theorem length_pinned_le (h : list.Tileable folderId stored size)
    (hl : Loads list folderId offset page) (call : Nat) :
    (list.pinnedDialogs (stored call) folderId page.dialogs).length ≤ (list.pinnedShown folderId).length := by
  have hids : (list.pinnedDialogs (stored call) folderId page.dialogs).map IMDialog.id =
      list.pinnedPeerIds.filter (fun peerId => (list.pinned folderId (stored call) page.dialogs peerId).isSome) :=
    pinned_ids (h.stored_distinct call) hl.nodup
  have hsub : (list.pinnedDialogs (stored call) folderId page.dialogs).map IMDialog.id ⊆
      (list.pinnedShown folderId).map IMDialog.id := by
    intro peerId hmem
    rw [hids, mem_filter] at hmem
    obtain ⟨dialog, hp⟩ := Option.isSome_iff_exists.1 hmem.2
    exact pinned_listed h hl call hp hmem.1
  have hnodup : ((list.pinnedDialogs (stored call) folderId page.dialogs).map IMDialog.id).Nodup := by
    rw [hids]
    exact h.pins_distinct.filter _
  have := (hnodup.subperm hsub).length_le
  rwa [length_map, length_map] at this

/-- **The pinned dialogs of the first page** are those of the folder. -/
theorem pinned_first (h : list.Tileable folderId stored size) :
    ((list.pinnedDialogs (stored 0) folderId (list.load (request folderId size none)).dialogs).map IMDialog.id).Perm
      ((list.pinnedShown folderId).map IMDialog.id) := by
  have hl := loads h (Or.inl rfl : list.Offset folderId none)
  have hnodup : ((list.pinnedShown folderId).map IMDialog.id).Nodup :=
    (((filter_sublist.trans filter_sublist).map IMDialog.id).nodup list.upstream.distinct)
  rw [pinned_ids (h.stored_distinct 0) hl.nodup]
  refine (perm_ext_iff_of_nodup (h.pins_distinct.filter _) hnodup).2 (fun peerId => ⟨fun hmem => ?_, fun hmem => ?_⟩)
  · obtain ⟨hpin, hsome⟩ := mem_filter.1 hmem
    obtain ⟨dialog, hp⟩ := Option.isSome_iff_exists.1 hsome
    exact pinned_listed h hl 0 hp hpin
  · obtain ⟨dialog, hd, rfl⟩ := mem_map.1 hmem
    obtain ⟨hlisted, hs, hpin⟩ := mem_pinnedShown.1 hd
    have hin : list.inFolder folderId dialog = true := (Bool.and_eq_true_iff.1 hs).2
    refine mem_filter.2 ⟨hpin, ?_⟩
    have hfound : dialog ∈ (list.load (request folderId size none)).dialogs →
        (list.pinned folderId (stored 0) (list.load (request folderId size none)).dialogs dialog.id).isSome = true := by
      intro hload
      rw [pinned_of_loaded hl.nodup hload hin]
      rfl
    rcases h.pins_shown dialog hlisted hs hpin with ⟨known, hknown, hsame⟩ | hfirst
    · by_cases hload : dialog ∈ (list.load (request folderId size none)).dialogs
      · exact hfound hload
      · have hid : known.id = dialog.id := congrArg IMConversation.id hsame
        have hout : ∀ other ∈ (list.load (request folderId size none)).dialogs, other.id ≠ known.id := by
          intro other ho hc
          have := eq_of_id (hl.mem ho).1 hlisted (hc.trans hid)
          exact hload (this ▸ ho)
        have hknownIn : list.inFolder folderId known = true := by
          unfold inFolder at hin ⊢
          rw [hsame]
          exact hin
        rw [← hid, pinned_of_known (h.stored_distinct 0) hknown (hid ▸ hpin) hout hknownIn]
        rfl
    · refine hfound ?_
      unfold firstDialogs at hfirst
      unfold load
      by_cases hdirect : list.direct (request folderId size none) = true
      · rw [if_pos hdirect] at hfirst ⊢
        exact (window_shown hdirect).symm ▸ mem_filter.2 ⟨hfirst, hs⟩
      · rw [if_neg hdirect] at hfirst ⊢
        rcases folderId with _ | folder
        · exact absurd rfl hdirect
        · exact (loads_folder h (Or.inl rfl) (by simpa using hdirect)).2.symm ▸ hfirst

/-! ## Pages -/

theorem filter_ordinary (l : List IMDialog) : (l.filter (list.shown folderId)).filter (fun dialog : IMDialog =>
    decide (dialog.id ∉ list.pinnedPeerIds)) = l.filter (list.ordinary folderId) := by
  rw [filter_filter]
  exact filter_congr (fun dialog _ => Bool.and_comm _ _)

theorem length_shown : (list.upstream.dialogs.filter (list.shown folderId)).length =
    (list.pinnedShown folderId).length + (list.upstream.dialogs.filter (list.ordinary folderId)).length := by
  rw [← filter_ordinary]
  unfold pinnedShown
  have hsplit := length_eq_length_filter_add (l := list.upstream.dialogs.filter (list.shown folderId))
    (fun dialog => decide (dialog.id ∈ list.pinnedPeerIds))
  simpa only [decide_not] using hsplit

theorem stretch_of_loads (hl : Loads list folderId offset page) {count : Nat} (hcount : 0 < count)
    {front : Nat} (hfront : front ≤ (list.pinnedShown folderId).length) {sliced : Bool}
    (hends : sliced = false → page.total = none → page.nextCursor = false ∧
      (page.dialogs.filter (fun dialog => dialog.id ∉ list.pinnedPeerIds)).length ≤ count)
    (htotal : ∀ total, page.total = some total → sliced = false → total ≤ front +
      ((page.dialogs.filter (fun dialog => dialog.id ∉ list.pinnedPeerIds)).take count).length) :
    Paging.Stretch ((list.upstream.rest offset).filter (list.ordinary folderId))
      ((page.dialogs.filter (fun dialog => dialog.id ∉ list.pinnedPeerIds)).take count, sliced) := by
  have hpre : (page.dialogs.filter (fun dialog => dialog.id ∉ list.pinnedPeerIds)).take count <+:
      (list.upstream.rest offset).filter (list.ordinary folderId) := by
    rw [← filter_ordinary]
    have htake := take_prefix count (page.dialogs.filter (fun dialog => dialog.id ∉ list.pinnedPeerIds))
    exact htake.trans (hl.prefixed.filter _)
  refine ⟨hpre, fun hne hc => ?_, fun hlast => ?_⟩
  · obtain ⟨dialog, hd⟩ := exists_mem_of_ne_nil _ hne
    obtain ⟨hmem, ho⟩ := mem_filter.1 hd
    obtain ⟨found, hfound, hfo⟩ := hl.ordinary ⟨dialog, hmem, ho⟩
    have hin : found ∈ page.dialogs.filter (fun dialog => dialog.id ∉ list.pinnedPeerIds) :=
      mem_filter.2 ⟨hfound, (Bool.and_eq_true_iff.1 hfo).2⟩
    rcases take_eq_nil_iff.1 hc with hzero | hnil
    · omega
    · rw [hnil] at hin
      cases hin
  · cases ht : page.total with
    | none =>
      obtain ⟨hnext, hlen⟩ := hends hlast ht
      dsimp only
      rw [take_of_length_le hlen, hl.ends hnext, filter_ordinary]
    | some total =>
      have hall := hl.total total ht
      have hshown := htotal total ht hlast
      rw [length_shown] at hall
      refine hpre.eq_of_length_le ?_
      have hsub : ((list.upstream.rest offset).filter (list.ordinary folderId)).length ≤
          (list.upstream.dialogs.filter (list.ordinary folderId)).length := ((rest_sublist offset).filter _).length_le
      push_cast at hall
      omega

theorem start_eq_zero {front tail : List IMDialog} (hfront : offset ≠ none → front = [])
    (htail : ∀ dialog ∈ tail, dialog ∈ list.upstream.rest offset) :
    list.start (request folderId size offset) (front ++ tail) = 0 := by
  unfold start request
  cases offset with
  | none => rfl
  | some offsetPeer =>
    have hnone : (front ++ tail).findIdx? (fun dialog => dialog.id = offsetPeer) = none := by
      rw [hfront (by simp), nil_append, findIdx?_eq_none_iff]
      intro dialog hd
      exact decide_eq_false (Paging.key_ne_of_mem_after list.upstream.distinct (htail dialog hd))
    dsimp only
    rw [hnone]
    rfl

theorem leadingPinned_request (known : List IMDialog) : list.leadingPinned known (request folderId size offset) =
    if offset = none then list.folderPinned known (request folderId size offset) else [] := by
  unfold leadingPinned request
  by_cases hoffset : offset = none
  · rw [if_pos hoffset, if_pos ⟨⟨hoffset, rfl, rfl⟩, rfl⟩]
  · rw [if_neg hoffset, if_neg (fun hc => hoffset hc.1.1)]

/-- **A page for an offset of the client**: the pinned dialogs, if it is the first one, and a stretch of what follows. -/
theorem getDialogs_page (h : list.Tileable folderId stored size) (hsize : 1 ≤ size) (hoffset : list.Offset folderId offset)
    (call : Nat) : ∃ rows, (list.getDialogs (stored call) (request folderId size offset)).dialogs =
      list.leadingPinned (stored call) (request folderId size offset) ++ rows ∧
      Paging.Stretch ((list.upstream.rest offset).filter (list.ordinary folderId))
        (rows, (list.getDialogs (stored call) (request folderId size offset)).sliced) := by
  have hl := loads h hoffset
  have hpinned : (list.folderPinned (stored call) (request folderId size offset)).length ≤ (list.pinnedShown folderId).length :=
    length_pinned_le h hl call
  have hlimit : 0 < clampLimit size := by
    unfold clampLimit
    omega
  have hfront : offset ≠ none → list.leadingPinned (stored call) (request folderId size offset) = [] := by
    intro hne
    rw [leadingPinned_request, if_neg hne]
  have hleading : list.leadingPinned (stored call) (request folderId size offset) = [] ∨
      list.leadingPinned (stored call) (request folderId size offset) =
        list.folderPinned (stored call) (request folderId size offset) := by
    rw [leadingPinned_request]
    split
    · exact Or.inr rfl
    · exact Or.inl rfl
  have hstart : list.start (request folderId size offset) (list.leadingPinned (stored call) (request folderId size offset) ++
      list.unpinned (request folderId size offset)) = 0 := by
    refine start_eq_zero hfront (fun dialog hd => ?_)
    exact mem_of_mem_filter (hl.prefixed.subset (mem_of_mem_filter hd))
  obtain ⟨count, hcount, hpageLimit⟩ : ∃ count, 0 < count ∧
      pageLimit (request folderId size offset) (list.leadingPinned (stored call) (request folderId size offset)).length =
        (list.leadingPinned (stored call) (request folderId size offset)).length + count := by
    unfold pageLimit request
    split
    · rename_i hzero
      exact ⟨clampLimit size, hlimit, by rw [hzero, Nat.zero_add]⟩
    · exact ⟨_, Nat.lt_of_lt_of_le Nat.one_pos (Nat.le_max_left 1 _), rfl⟩
  have hdialogs : (list.getDialogs (stored call) (request folderId size offset)).dialogs =
      list.leadingPinned (stored call) (request folderId size offset) ++
        (list.unpinned (request folderId size offset)).take count := by
    unfold getDialogs
    dsimp only
    rw [hstart, drop_zero, hpageLimit, take_length_add_append]
  have hsliced : (list.getDialogs (stored call) (request folderId size offset)).sliced = false →
      list.pageTotal (stored call) (request folderId size offset) ≤
        (list.leadingPinned (stored call) (request folderId size offset)).length +
          ((list.unpinned (request folderId size offset)).take count).length := by
    intro hlast
    have hlen := (Bool.or_eq_false_iff.1 hlast).2
    have hle := Int.not_lt.1 (of_decide_eq_false hlen)
    refine hle.trans (le_of_eq ?_)
    rw [hstart, drop_zero, hpageLimit, take_length_add_append, length_append]
    push_cast
    rfl
  refine ⟨_, hdialogs, ?_⟩
  have hfolder : (list.leadingPinned (stored call) (request folderId size offset)).length ≤
      (list.folderPinned (stored call) (request folderId size offset)).length := by
    rcases hleading with hleading | hleading
    · rw [hleading]
      exact Nat.zero_le _
    · rw [hleading]
  refine stretch_of_loads hl hcount hpinned (fun hlast htotal => ?_) (fun total htotal hlast => ?_)
  · have hle := hsliced hlast
    unfold pageTotal at hle
    rw [htotal] at hle
    dsimp only at hle
    rw [length_append, length_take] at hle
    unfold unpinned at hle
    cases hnext : (list.load (request folderId size offset)).nextCursor with
    | true =>
      rw [hnext, if_pos rfl] at hle
      push_cast at hle
      omega
    | false =>
      rw [hnext, if_neg Bool.false_ne_true] at hle
      push_cast at hle
      exact ⟨rfl, by omega⟩
  · have hle := hsliced hlast
    unfold pageTotal at hle
    rw [htotal] at hle
    dsimp only at hle
    unfold unpinned at hle
    omega

theorem getDialogs_pinned (hnone : list.upstream.dialogs.filter (list.ordinary folderId) = []) (known : List IMDialog)
    (peerId : String) : (list.getDialogs known (request folderId size (some peerId))).dialogs = [] := by
  have hunpinned : list.unpinned (request folderId size (some peerId)) = [] := by
    refine filter_eq_nil_iff.2 (fun dialog hd hout => ?_)
    obtain ⟨hmem, hs⟩ := mem_load hd
    exact filter_eq_nil_iff.1 hnone dialog hmem (Bool.and_eq_true_iff.2 ⟨hs, hout⟩)
  unfold getDialogs
  dsimp only
  rw [leadingPinned_request, if_neg (by simp), hunpinned, append_nil, drop_nil, take_nil]

def pages (list : DialogList) (stored : Nat → List IMDialog) (size : Int) (folderId : Option DialogFolder) (call : Nat)
    (offset : Option String) : List IMDialog × Bool :=
  ((list.getDialogs (stored call) (request folderId size offset)).dialogs,
    (list.getDialogs (stored call) (request folderId size offset)).sliced)

theorem client_after (h : list.Tileable folderId stored size) (hsize : 1 ≤ size) {fuel call : Nat} {pre post : List IMDialog}
    (hsplit : list.upstream.dialogs = pre ++ dialog :: post)
    (ho : list.ordinary folderId dialog = true) (hfuel : post.length < fuel) :
    Paging.collect IMDialog.id (list.pages stored size folderId) fuel call (some dialog.id) =
      some (post.filter (list.ordinary folderId)) := by
  refine Paging.collect_after (list.ordinary folderId) (fun pre dialog post call hsplit ho => ?_) fuel call pre dialog post
    hsplit ho hfuel
  have hmem : dialog ∈ list.upstream.dialogs := by
    rw [hsplit]
    exact mem_append_right _ mem_cons_self
  obtain ⟨rows, hrows, hstretch⟩ := getDialogs_page h hsize (Or.inr ⟨dialog, hmem, ho, rfl⟩) call
  rw [leadingPinned_request, if_neg (by simp), nil_append] at hrows
  unfold pages
  rw [hrows]
  have hrest : list.upstream.rest (some dialog.id) = post := Paging.after_of_split list.upstream.distinct hsplit
  rwa [hrest] at hstretch

/-- **Dialog pages tile the list.**  The client stops, and it has got every dialog of the folder that is not a
sub-channel, and each once. -/
theorem dialog_pages_tile (list : DialogList) (folderId : Option DialogFolder) (stored : Nat → List IMDialog) (limit : Int)
    (hlimit : 1 ≤ limit) (h : list.Tileable folderId stored limit) :
    ∃ received, list.client stored limit folderId (list.upstream.dialogs.length + 2) = some received ∧
      (received.map IMDialog.id).Perm ((list.upstream.dialogs.filter (list.shown folderId)).map IMDialog.id) := by
  obtain ⟨rows, hrows, hstretch⟩ := getDialogs_page h hlimit (Or.inl rfl : list.Offset folderId none) 0
  have hfirst := pinned_first h
  rw [leadingPinned_request, if_pos rfl] at hrows
  generalize hpinned : list.folderPinned (stored 0) (request folderId limit none) = pinned at hrows
  have hids : (pinned.map IMDialog.id).Perm ((list.pinnedShown folderId).map IMDialog.id) := by
    rw [← hpinned]
    exact hfirst
  -- it is enough that the client gets the pinned dialogs and the others in order
  suffices hclient : list.client stored limit folderId (list.upstream.dialogs.length + 2) =
      some (pinned ++ list.upstream.dialogs.filter (list.ordinary folderId)) by
    refine ⟨_, hclient, ?_⟩
    rw [map_append]
    refine (hids.append_right _).trans ?_
    rw [← map_append, ← filter_ordinary]
    refine List.Perm.map _ ?_
    have hperm := filter_append_perm (fun dialog : IMDialog => decide (dialog.id ∈ list.pinnedPeerIds))
      (list.upstream.dialogs.filter (list.shown folderId))
    simpa only [pinnedShown, decide_not] using hperm
  have hpage : list.pages stored limit folderId 0 none = (pinned ++ rows,
      (list.getDialogs (stored 0) (request folderId limit none)).sliced) := by
    unfold pages
    rw [hrows]
  show Paging.collect IMDialog.id (list.pages stored limit folderId) (list.upstream.dialogs.length + 2) 0 none = _
  unfold Paging.collect
  rw [hpage]
  dsimp only
  have hall : rows = [] → list.upstream.dialogs.filter (list.ordinary folderId) = [] := by
    intro hnil
    by_contra hne
    exact hstretch.nonempty hne hnil
  by_cases hstop : pinned ++ rows = [] ∨ (list.getDialogs (stored 0) (request folderId limit none)).sliced = false
  · rw [if_pos hstop]
    rcases hstop with hempty | hlast
    · obtain ⟨hpin, hnil⟩ := append_eq_nil_iff.1 hempty
      rw [hpin, hnil, hall hnil]
    · have hends := hstretch.ends hlast
      dsimp only at hends
      rw [hends]
      rfl
  · rw [if_neg hstop]
    rcases eq_nil_or_concat rows with hnil | ⟨init, last, hlast⟩
    · -- all dialogs of the folder are pinned
      rw [hnil, append_nil] at hstop ⊢
      obtain ⟨init, last, hlast⟩ := (eq_nil_or_concat pinned).resolve_left (fun hc => hstop (Or.inl hc))
      have hnext : Paging.collect IMDialog.id (list.pages stored limit folderId) (list.upstream.dialogs.length + 1) 1
          (some last.id) = some [] := by
        unfold Paging.collect pages
        rw [getDialogs_pinned (hall hnil)]
        rfl
      rw [hall hnil, hlast, concat_eq_append, getLast?_concat]
      show (Paging.collect IMDialog.id (list.pages stored limit folderId) (list.upstream.dialogs.length + 1) 1
        (some last.id)).map _ = _
      rw [hnext]
      rfl
    · rw [concat_eq_append] at hlast
      obtain ⟨tail, htail⟩ := hstretch.prefixed
      have hrest : list.upstream.rest none = list.upstream.dialogs := rfl
      dsimp only at htail
      rw [hlast, append_assoc, hrest] at htail
      obtain ⟨before, back, hsplit, hbefore, hback⟩ := filter_eq_append_iff.1 htail.symm
      obtain ⟨skip, post, hpost, hskip, ho, htailEq⟩ := filter_eq_cons_iff.1 hback
      have hdialogs : list.upstream.dialogs = (before ++ skip) ++ last :: post := by
        rw [hsplit, hpost, append_assoc]
      have hfuel : post.length < list.upstream.dialogs.length + 1 := by
        rw [hdialogs, length_append, length_cons]
        omega
      rw [hlast, ← append_assoc, getLast?_concat]
      show (Paging.collect IMDialog.id (list.pages stored limit folderId) (list.upstream.dialogs.length + 1) 1
        (some last.id)).map _ = _
      rw [client_after h hlimit hdialogs ho hfuel, htailEq, ← htail]
      simp

/-! ## Lists of a few dialogs -/

def plainUpstream (dialogs : List IMDialog) (hd : (dialogs.map IMDialog.id).Nodup) : DialogUpstream where
  dialogs := dialogs
  distinct := hd
  size := fun limit _ => limit
  size_le := fun limit _ => Nat.le_refl limit
  total := none

def plainDialogs (upstream : DialogUpstream) (pinnedPeerIds : List String) : DialogList where
  qq := false
  upstream := upstream
  archivedPeerIds := []
  pinnedPeerIds := pinnedPeerIds
  conversations := fun id => if id = "forum" then some { id := "forum", kind := .channel } else none
  qqGroupMsgMask := fun _ => none
  topMessage := fun _ => 0

def groupDialog (id : String) : IMDialog :=
  { conversation := { id := id, kind := .group }, unreadCount := 0, lastMessage := none, readInboxMaxMessage := none }

def subchannelDialog (id : String) : IMDialog :=
  { groupDialog id with conversation := { id := id, kind := .channel, parentId := some "forum" } }

def fewDialogs : DialogList :=
  plainDialogs (plainUpstream [groupDialog "one", subchannelDialog "topic", groupDialog "pinned", groupDialog "two",
    groupDialog "three"] (by decide)) ["pinned"]

theorem tileable_fewDialogs : fewDialogs.Tileable none (fun _ => [groupDialog "pinned"]) 1 where
  pins_distinct := by decide
  stored_distinct := fun _ => by decide
  pins_listed := by
    intro _ dialog hd _ _
    rw [mem_singleton.1 hd]
    exact ⟨groupDialog "pinned", by simp [fewDialogs, plainDialogs, plainUpstream], rfl, by decide⟩
  pins_shown := by
    intro dialog hd _ hpin
    refine Or.inl ⟨groupDialog "pinned", mem_singleton_self _, ?_⟩
    have hid : dialog.id = "pinned" := mem_singleton.1 hpin
    have hmem : groupDialog "pinned" ∈ fewDialogs.upstream.dialogs := by simp [fewDialogs, plainDialogs, plainUpstream]
    exact congrArg IMDialog.conversation (eq_of_id hmem hd hid.symm)
  total := fun _ ht => by cases ht
  windows := by
    rintro offset (rfl | ⟨dialog, hd, ho, rfl⟩) -
    · decide +kernel
    · revert dialog
      decide +kernel
  batches := by
    rintro ⟨offset, -, hdirect⟩
    cases hdirect
  bounded := by
    rintro ⟨offset, -, hdirect⟩
    cases hdirect

theorem tile_fewDialogs : ∃ received, fewDialogs.client (fun _ => [groupDialog "pinned"]) 1 none 7 = some received ∧
    (received.map IMDialog.id).Perm ["one", "pinned", "two", "three"] :=
  dialog_pages_tile fewDialogs none (fun _ => [groupDialog "pinned"]) 1 (by decide) tileable_fewDialogs

def fewSubchannels : DialogList :=
  plainDialogs (plainUpstream [groupDialog "one", subchannelDialog "topic", subchannelDialog "news", groupDialog "two"]
    (by decide)) []

/-- **A window of sub-channels is an empty page**, and the client stops before the last group. -/
theorem dialogs_after_subchannels_lost :
    (fewSubchannels.client (fun _ => []) 1 none 6).map (List.map IMDialog.id) = some ["one"] ∧
      (fewSubchannels.upstream.dialogs.filter (fewSubchannels.shown none)).map IMDialog.id = ["one", "two"] := by
  decide +kernel

end DialogList

end Crossgram
