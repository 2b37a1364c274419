import Crossgram.AnchorSearch
import Crossgram.Lib.Paging
import Crossgram.Lib.Utf16
/-!
# OwnedDialogs — the dialogs of the bridge in front of the platform's (packages/bridge/src/platform-manager.ts)

`_loadDialogsPage` puts the conversations that the bridge owns in front of the list of the platform, under a cursor of
their own.  They take slots of a page; a page that they fill asks upstream for one dialog, to learn the total, and keeps
the answer's `nextCursor`.  So without a total a page that they fill says that more follow only where two upstream
dialogs do.
-/
namespace Crossgram
namespace OwnedDialogs

open List

/-! ## Dialogs -/

structure IMMessage where
  id : String
  timestamp : Int
deriving DecidableEq

/-- What is read of `metadata`. -/
structure ConversationMetadata where
  bridgeOwned : Option Bool
deriving DecidableEq

structure IMConversation where
  id : String
  metadata : Option ConversationMetadata
deriving DecidableEq

structure IMDialog where
  conversation : IMConversation
  unreadCount : Nat
  lastMessage : Option IMMessage
  readInboxMaxMessage : Option IMMessage
deriving DecidableEq

def IMDialog.id (dialog : IMDialog) : String := dialog.conversation.id

/-- `metadata?.bridgeOwned === true`. -/
def IMDialog.bridgeOwned (dialog : IMDialog) : Bool :=
  dialog.conversation.metadata.any (fun metadata => metadata.bridgeOwned == some true)

structure IMPageQuery where
  limit : Option Nat
  afterId : Option String

/-- `nextCursor` says whether it is set. -/
structure IMDialogPage where
  dialogs : List IMDialog
  nextCursor : Bool
  total : Option Nat

def isLaterDialogMessage (candidate current : Option IMMessage) : Bool :=
  match candidate, current with
  | none,           _            => false
  | some _,         none         => true
  | some candidate, some current => current.timestamp < candidate.timestamp ||
      (candidate.timestamp = current.timestamp &&
        Utf16.encode current.id.toList ≤ Utf16.encode candidate.id.toList)

def laterDialogMessage (left right : Option IMMessage) : Option IMMessage :=
  if isLaterDialogMessage right left then right else left

/-- What `uniqueDialogsByConversationId` makes of a dialog that comes again. -/
def mergeDialog (previous dialog : IMDialog) : IMDialog :=
  { conversation :=
      { id := dialog.conversation.id
        metadata := some ⟨(dialog.conversation.metadata.bind (·.bridgeOwned)).or
          (previous.conversation.metadata.bind (·.bridgeOwned))⟩ }
    unreadCount :=
      if isLaterDialogMessage dialog.lastMessage previous.lastMessage then dialog.unreadCount else previous.unreadCount
    lastMessage := laterDialogMessage previous.lastMessage dialog.lastMessage
    readInboxMaxMessage := laterDialogMessage previous.readInboxMaxMessage dialog.readInboxMaxMessage }

def uniqueDialogsByConversationId (dialogs : List IMDialog) : List IMDialog :=
  dialogs.foldl (fun unique dialog =>
    if unique.any (fun previous => previous.id = dialog.id) then
      unique.map (fun previous => if previous.id = dialog.id then mergeDialog previous dialog else previous)
    else unique ++ [dialog]) []

/-! ## The store -/

/-- A row of `mtproto_im_conversation`, with the dialog it is read as. -/
structure ConversationRow where
  id : Nat
  updatedAt : Int
  dialog : IMDialog

structure DialogStore where
  rows : List ConversationRow
  ids : (rows.map (·.id)).Nodup
  keys : (rows.map (·.dialog.id)).Nodup

/-- `orderBy('updatedAt', 'desc').orderBy('id', 'desc')`. -/
def ConversationRow.Before (left right : ConversationRow) : Prop :=
  right.updatedAt < left.updatedAt ∨ (right.updatedAt = left.updatedAt ∧ right.id ≤ left.id)

instance (left right : ConversationRow) : Decidable (left.Before right) := inferInstanceAs (Decidable (_ ∨ _))

namespace DialogStore

variable (store : DialogStore)

def listDialogs (limit : Option Nat) (afterConversationId : Option String) : List IMDialog :=
  let anchor := (afterConversationId.filter (fun id => id ≠ "")).bind (fun id =>
    store.rows.find? (fun row => row.dialog.id = id))
  let matching := match anchor with
    | none        => store.rows
    | some anchor => store.rows.filter (fun row => row.updatedAt < anchor.updatedAt ∨
        (row.updatedAt = anchor.updatedAt ∧ row.id < anchor.id))
  (Windows.window ConversationRow.Before (clampDatabaseLimit (limit.getD 100)) matching).map (·.dialog)

def readDialog (id : String) : Option IMDialog := (store.rows.find? (fun row => row.dialog.id = id)).map (·.dialog)

def addOwned (dialogs batch : List IMDialog) : List IMDialog :=
  batch.foldl (fun dialogs dialog =>
    if dialog.bridgeOwned && !dialogs.any (fun seen => seen.id = dialog.id) then dialogs ++ [dialog] else dialogs) dialogs

/-- The loop of `_bridgeOwnedDialogs`. -/
def bridgeOwnedFrom : Nat → List IMDialog → Option String → List IMDialog
  | 0,        dialogs, _                   => dialogs
  | fuel + 1, dialogs, afterConversationId =>
    let batch := store.listDialogs (some 100) afterConversationId
    match batch.getLast? with
    | none      => dialogs
    | some last =>
      let dialogs := addOwned dialogs batch
      if batch.length < 100 ∨ some last.id = afterConversationId then dialogs
      else bridgeOwnedFrom fuel dialogs (some last.id)

def bridgeOwnedDialogs : List IMDialog := store.bridgeOwnedFrom (store.rows.length + 1) [] none

end DialogStore

/-! ## A page -/

def withStored (previous : Option IMDialog) (dialog : IMDialog) : IMDialog :=
  { dialog with
    conversation := { dialog.conversation with
      metadata := dialog.conversation.metadata.or (previous.bind (·.conversation.metadata)) }
    lastMessage := dialog.lastMessage.or (previous.bind (·.lastMessage))
    readInboxMaxMessage := dialog.readInboxMaxMessage.or (previous.bind (·.readInboxMaxMessage)) }

section Query

variable (allBridgeOwned : List IMDialog) (query : IMPageQuery)

def ownedAnchor : Option Nat :=
  query.afterId.bind (fun id => allBridgeOwned.findIdx? (fun dialog => dialog.id = id))

def bridgeOwnedSlice : List IMDialog :=
  if query.afterId = none ∨ (ownedAnchor allBridgeOwned query).isSome then
    (allBridgeOwned.drop (((ownedAnchor allBridgeOwned query).map (· + 1)).getD 0)).take (query.limit.getD 100)
  else []

def upstreamQuery : IMPageQuery :=
  let bridgeOwned := bridgeOwnedSlice allBridgeOwned query
  let slots := max 1 (query.limit.getD 100 - bridgeOwned.length)
  match ownedAnchor allBridgeOwned query with
  | some anchor =>
    let bridgeOwnedRemaining := anchor + 1 + bridgeOwned.length < allBridgeOwned.length
    { afterId := none, limit := some (if bridgeOwnedRemaining then 1 else slots) }
  | none => if bridgeOwned ≠ [] then { query with limit := some slots } else query

end Query

/-- `_loadDialogsPage`; a platform without dialogs is `none`. -/
def loadDialogsPage (store : DialogStore) (platform : Option (IMPageQuery → Except String IMDialogPage))
    (query : IMPageQuery) : Except String IMDialogPage :=
  let stored := store.listDialogs query.limit query.afterId
  match platform with
  | none            => .ok ⟨stored, false, some stored.length⟩
  | some getDialogs =>
    let allBridgeOwned := store.bridgeOwnedDialogs
    let bridgeOwned := bridgeOwnedSlice allBridgeOwned query
    match getDialogs (upstreamQuery allBridgeOwned query) with
    | .error error => if stored = [] then .error error else .ok ⟨stored, false, some stored.length⟩
    | .ok upstreamPage =>
      let upstreamDialogs := (uniqueDialogsByConversationId upstreamPage.dialogs).filter (fun dialog => !dialog.bridgeOwned)
      let dialogs := upstreamDialogs.map (fun dialog => withStored (store.readDialog dialog.id) dialog)
      let pageDialogs :=
        if bridgeOwned ≠ [] then dialogs.take (query.limit.getD 100 - bridgeOwned.length) else dialogs
      .ok
        { dialogs := bridgeOwned ++ pageDialogs
          nextCursor := upstreamPage.nextCursor
          total := upstreamPage.total.map (· + allBridgeOwned.length) }

/-! ## Paging -/

/-- A platform's list: it answers with some of the dialogs that follow the cursor, not more than the limit, and always or
never with the total. -/
structure DialogUpstream where
  dialogs : List IMDialog
  distinct : (dialogs.map IMDialog.id).Nodup
  foreign : ∀ dialog ∈ dialogs, dialog.bridgeOwned = false
  size : Nat → List IMDialog → Nat
  size_le : ∀ limit rest, size limit rest ≤ limit
  size_pos : ∀ limit rest, 0 < limit → rest ≠ [] → 0 < size limit rest
  hasTotal : Bool

def DialogUpstream.getDialogs (upstream : DialogUpstream) (query : IMPageQuery) : Except String IMDialogPage :=
  let rest := Paging.after IMDialog.id upstream.dialogs query.afterId
  let page := rest.take (upstream.size (query.limit.getD 100) rest)
  .ok
    { dialogs := page
      nextCursor := decide (page.length < rest.length)
      total := if upstream.hasTotal then some upstream.dialogs.length else none }

/-- What a client gets that follows the last dialog while the page says that more follow, by its cursor or by its total;
`none` when it has not come to an end or a page fails. -/
def pageThrough (load : Nat → Option String → Except String IMDialogPage) :
    Nat → Nat → Nat → Option String → Option (List IMDialog)
  | 0,        _,    _,        _       => none
  | fuel + 1, call, received, afterId => match load call afterId with
    | .error _ => none
    | .ok page => match page.dialogs.getLast? with
      | none      => some []
      | some last =>
        let received := received + page.dialogs.length
        if page.nextCursor = true ∨ page.total.any (fun total => decide (received < total)) = true then
          (pageThrough load fuel (call + 1) received (some last.id)).map (fun rest => page.dialogs ++ rest)
        else some page.dialogs

def pagesOf (stores : Nat → DialogStore) (upstream : DialogUpstream) (limit : Nat) (call : Nat) (afterId : Option String) :
    Except String IMDialogPage :=
  loadDialogsPage (stores call) (some upstream.getDialogs) ⟨some limit, afterId⟩

/-- A client that pages from the start gets the conversations of the bridge and then those of the platform, each once and
in order, and stops. -/
def PagedAsOne (stores : Nat → DialogStore) (upstream : DialogUpstream) (owned : List IMDialog) (limit : Nat) : Prop :=
  ∃ fuel out, pageThrough (pagesOf stores upstream limit) fuel 0 0 none = some out ∧
    out.map IMDialog.id = (owned ++ upstream.dialogs).map IMDialog.id

/-! ## Lists without repetitions -/

section Lists

variable {l pre post batch : List IMDialog} {dialog : IMDialog}

theorem uniqueDialogs_of_nodup (h : (l.map IMDialog.id).Nodup) : uniqueDialogsByConversationId l = l := by
  have hgo : ∀ (rest unique : List IMDialog), ((unique ++ rest).map IMDialog.id).Nodup →
      rest.foldl (fun unique dialog =>
        if unique.any (fun previous => previous.id = dialog.id) then
          unique.map (fun previous => if previous.id = dialog.id then mergeDialog previous dialog else previous)
        else unique ++ [dialog]) unique = unique ++ rest := by
    intro rest
    induction rest with
    | nil => intro unique _; simp
    | cons dialog rest ih =>
      intro unique hnodup
      have hnew : ¬unique.any (fun previous => previous.id = dialog.id) = true := by
        rw [any_eq_true]
        rintro ⟨previous, hmem, heq⟩
        rw [map_append, nodup_append] at hnodup
        exact hnodup.2.2 previous.id (mem_map_of_mem hmem) dialog.id mem_cons_self (of_decide_eq_true heq)
      rw [foldl_cons, if_neg hnew, ih (unique ++ [dialog]) (by rw [append_assoc]; exact hnodup),
        append_assoc]
      rfl
  exact hgo l [] h

theorem findIdx?_of_split : ∀ {l pre : List IMDialog}, (l.map IMDialog.id).Nodup → l = pre ++ dialog :: post →
    l.findIdx? (fun other => other.id = dialog.id) = some pre.length
  | l, [], _, hl => by
    rw [hl, nil_append, findIdx?_cons]
    simp
  | l, first :: pre, hd, hl => by
    subst hl
    have hne : first.id ≠ dialog.id := fun he => by
      rw [cons_append, map_cons, nodup_cons] at hd
      exact hd.1 (he ▸ mem_map_of_mem (mem_append_right _ mem_cons_self))
    have ih := findIdx?_of_split (nodup_cons.1 hd).2 rfl
    have hrest : (pre ++ dialog :: post).findIdx? (fun other => other.id = dialog.id) = some pre.length := ih
    rw [cons_append, findIdx?_cons, hrest]
    simp [hne]

theorem addOwned_spec : ∀ {batch dialogs : List IMDialog}, (dialogs.map IMDialog.id).Nodup →
    ((DialogStore.addOwned dialogs batch).map IMDialog.id).Nodup
  | [], _, h => h
  | dialog :: batch, dialogs, h => by
    show ((DialogStore.addOwned _ batch).map IMDialog.id).Nodup
    refine addOwned_spec ?_
    dsimp only
    split
    · rename_i hadd
      rw [map_append, nodup_append]
      refine ⟨h, pairwise_singleton _ _, fun x hx y hy heq => ?_⟩
      rw [map_singleton, mem_singleton] at hy
      subst heq hy
      obtain ⟨seen, hseen, hid⟩ := mem_map.1 hx
      rw [Bool.and_eq_true, Bool.not_eq_true', any_eq_false] at hadd
      exact hadd.2 seen hseen (decide_eq_true hid)
    · exact h

theorem nodup_bridgeOwned (store : DialogStore) : (store.bridgeOwnedDialogs.map IMDialog.id).Nodup := by
  have hgo : ∀ (fuel : Nat) (dialogs : List IMDialog) (after : Option String), (dialogs.map IMDialog.id).Nodup →
      ((store.bridgeOwnedFrom fuel dialogs after).map IMDialog.id).Nodup := by
    intro fuel
    induction fuel with
    | zero => exact fun _ _ h => h
    | succ fuel ih =>
      intro dialogs after h
      unfold DialogStore.bridgeOwnedFrom
      dsimp only
      cases (store.listDialogs (some 100) after).getLast? with
      | none => exact h
      | some last =>
        dsimp only
        split
        · exact addOwned_spec h
        · exact ih _ _ (addOwned_spec h)
  exact hgo _ _ _ nodup_nil

end Lists

/-! ## The dialogs of the bridge -/

section Store

variable {store : DialogStore}

instance : Std.Total ConversationRow.Before :=
  ⟨fun a b => by simp only [ConversationRow.Before]; omega⟩

instance : IsTrans ConversationRow ConversationRow.Before :=
  ⟨fun a b c hab hbc => by simp only [ConversationRow.Before] at *; omega⟩

end Store

/-! ## Pages of upstream -/

section Pages

variable {stores : Nat → DialogStore} {upstream : DialogUpstream} {owned : List IMDialog} {limit : Nat}

def DialogUpstream.taken (upstream : DialogUpstream) (limit : Nat) (rest : List IMDialog) : Nat :=
  min (upstream.size limit rest) rest.length

theorem ids_upstreamDialogs (store : DialogStore) {page : List IMDialog} (hsub : page.Sublist upstream.dialogs) :
    (((uniqueDialogsByConversationId page).filter (fun dialog => !dialog.bridgeOwned)).map
      (fun dialog => withStored (store.readDialog dialog.id) dialog)).map IMDialog.id = page.map IMDialog.id := by
  have hnodup : (page.map IMDialog.id).Nodup := (hsub.map IMDialog.id).nodup upstream.distinct
  have hforeign : page.filter (fun dialog => !dialog.bridgeOwned) = page :=
    filter_eq_self.2 (fun dialog hdialog => by rw [upstream.foreign dialog (hsub.subset hdialog)]; rfl)
  rw [uniqueDialogs_of_nodup hnodup, hforeign, map_map]
  rfl

structure Shows (page : IMDialogPage) (dialogs : List IMDialog) (more : Bool) (total : Option Nat) : Prop where
  ids : page.dialogs.map IMDialog.id = dialogs.map IMDialog.id
  more : page.nextCursor = more
  total : page.total = total

def DialogUpstream.totalWith (upstream : DialogUpstream) (owned : List IMDialog) : Option Nat :=
  if upstream.hasTotal then some (upstream.dialogs.length + owned.length) else none

theorem rest_sublist (afterId : Option String) : (Paging.after IMDialog.id upstream.dialogs afterId).Sublist upstream.dialogs :=
  (Paging.after_suffix _ _).sublist

theorem shows_of_upstream (howned : ∀ call, (stores call).bridgeOwnedDialogs = owned) {query : IMPageQuery} {call asked : Nat}
    {afterId : Option String} (hquery : query = ⟨some limit, afterId⟩) {asks : Option String}
    (hasked : upstreamQuery owned query = ⟨some asked, asks⟩)
    (hslots : bridgeOwnedSlice owned query = [] → asked ≤ limit) :
    ∃ page, pagesOf stores upstream limit call afterId = .ok page ∧
      Shows page
        (bridgeOwnedSlice owned query ++
          ((Paging.after IMDialog.id upstream.dialogs asks).take
            (upstream.taken asked (Paging.after IMDialog.id upstream.dialogs asks))).take
              (limit - (bridgeOwnedSlice owned query).length))
        (decide (upstream.taken asked (Paging.after IMDialog.id upstream.dialogs asks) <
          (Paging.after IMDialog.id upstream.dialogs asks).length))
        (upstream.totalWith owned) := by
  subst hquery
  generalize hrest : Paging.after IMDialog.id upstream.dialogs asks = rest
  have hsub : (rest.take (upstream.size asked rest)).Sublist upstream.dialogs :=
    (take_sublist _ _).trans (hrest ▸ rest_sublist asks)
  have htake : rest.take (upstream.size asked rest) = rest.take (upstream.taken asked rest) := by
    rw [DialogUpstream.taken, take_eq_take_iff]
    omega
  have hids := ids_upstreamDialogs (stores call) hsub
  unfold pagesOf loadDialogsPage
  dsimp only
  rw [howned, hasked]
  simp only [DialogUpstream.getDialogs, hrest, Option.getD_some]
  refine ⟨_, rfl, ⟨?_, ?_, ?_⟩⟩
  · dsimp only
    rw [map_append, map_append]
    congr 1
    split
    · rw [map_take, hids, ← map_take, htake]
    · rename_i hempty
      have hempty : bridgeOwnedSlice owned ⟨some limit, afterId⟩ = [] := not_not.1 hempty
      have hle := hslots hempty
      have hsize := upstream.size_le asked rest
      rw [hids, htake, hempty, length_nil, Nat.sub_zero, take_of_length_le (l := List.take _ rest)]
      rw [length_take, DialogUpstream.taken]
      omega
  · dsimp only
    rw [length_take]
    rfl
  · unfold DialogUpstream.totalWith
    cases upstream.hasTotal <;> rfl

/-- **A page after a dialog of the platform.** -/
theorem page_foreign (limit : Nat) (howned : ∀ call, (stores call).bridgeOwnedDialogs = owned)
    {pre post : List IMDialog} {dialog : IMDialog} (hsplit : upstream.dialogs = pre ++ dialog :: post)
    (hother : ∀ other ∈ owned, other.id ≠ dialog.id) (call : Nat) :
    ∃ page, pagesOf stores upstream limit call (some dialog.id) = .ok page ∧
      Shows page (post.take (upstream.taken limit post)) (decide (upstream.taken limit post < post.length))
        (upstream.totalWith owned) := by
  have hrest : Paging.after IMDialog.id upstream.dialogs (some dialog.id) = post :=
    Paging.after_of_split upstream.distinct hsplit
  have hanchor : ownedAnchor owned ⟨some limit, some dialog.id⟩ = none := by
    show owned.findIdx? (fun other => other.id = dialog.id) = none
    rw [findIdx?_eq_none_iff]
    exact fun other hmem => decide_eq_false (hother other hmem)
  have hslice : bridgeOwnedSlice owned ⟨some limit, some dialog.id⟩ = [] := by
    unfold bridgeOwnedSlice
    rw [hanchor]
    rfl
  have hquery : upstreamQuery owned ⟨some limit, some dialog.id⟩ = ⟨some limit, some dialog.id⟩ := by
    unfold upstreamQuery
    rw [hanchor, hslice]
    rfl
  obtain ⟨page, hpage, hshows⟩ := @shows_of_upstream stores upstream owned limit howned _ call _ _ rfl _ hquery (fun _ => le_rfl)
  rw [hrest, hslice, nil_append, length_nil, Nat.sub_zero] at hshows
  refine ⟨page, hpage, ⟨?_, hshows.more, hshows.total⟩⟩
  have hsize := upstream.size_le limit post
  rw [hshows.ids, take_of_length_le]
  rw [length_take, DialogUpstream.taken]
  omega

variable {pre rest : List IMDialog}

theorem ownedAnchor_of_split (hnodup : (owned.map IMDialog.id).Nodup) (hsplit : owned = pre ++ rest) :
    ownedAnchor owned ⟨some limit, pre.getLast?.map IMDialog.id⟩ = if pre = [] then none else some (pre.length - 1) := by
  rcases eq_nil_or_concat pre with rfl | ⟨front, last, rfl⟩
  · rfl
  · have hfind : owned.findIdx? (fun other => other.id = last.id) = some front.length :=
      findIdx?_of_split hnodup (by rw [hsplit, concat_eq_append, append_assoc]; rfl)
    unfold ownedAnchor
    rw [concat_eq_append, getLast?_concat, Option.map_some, Option.bind_some, hfind]
    simp

theorem bridgeOwnedSlice_of_split (hnodup : (owned.map IMDialog.id).Nodup) (hsplit : owned = pre ++ rest) :
    bridgeOwnedSlice owned ⟨some limit, pre.getLast?.map IMDialog.id⟩ = rest.take limit := by
  unfold bridgeOwnedSlice
  rw [ownedAnchor_of_split hnodup hsplit]
  rcases eq_nil_or_concat pre with rfl | ⟨front, last, rfl⟩
  · rw [hsplit]
    rfl
  · rw [hsplit]
    simp

theorem upstreamQuery_of_split (hlimit : 1 ≤ limit) (hnodup : (owned.map IMDialog.id).Nodup)
    (hsplit : owned = pre ++ rest) :
    upstreamQuery owned ⟨some limit, pre.getLast?.map IMDialog.id⟩ = ⟨some (max 1 (limit - rest.length)), none⟩ := by
  have hslots : limit - (rest.take limit).length = limit - rest.length := by
    rw [length_take]
    omega
  unfold upstreamQuery
  rw [bridgeOwnedSlice_of_split hnodup hsplit, ownedAnchor_of_split hnodup hsplit]
  dsimp only [Option.getD_some]
  rw [hslots]
  rcases eq_nil_or_concat pre with rfl | ⟨front, last, rfl⟩
  · rw [if_pos rfl]
    dsimp only
    split
    · rfl
    · rename_i hempty
      have hempty : rest.take limit = [] := not_not.1 hempty
      have hrest : rest = [] := (take_eq_nil_iff.1 hempty).resolve_left (by omega)
      rw [hrest, length_nil, Nat.sub_zero, max_eq_right hlimit]
      rfl
  · have hne : front.concat last ≠ [] := by simp
    rw [if_neg hne]
    dsimp only
    -- where dialogs of the bridge remain, they have filled the page
    have hslot : (if (front.concat last).length - 1 + 1 + (rest.take limit).length < owned.length then 1
        else max 1 (limit - rest.length)) = max 1 (limit - rest.length) := by
      split
      · rename_i hremaining
        rw [hsplit, length_append, length_take, length_concat] at hremaining
        have : limit - rest.length = 0 := by omega
        rw [this]
        rfl
      · rfl
    rw [hslot]

/-- **A page after a dialog of the bridge**, or at the start. -/
theorem page_owned (upstream : DialogUpstream) (hlimit : 1 ≤ limit) (howned : ∀ call, (stores call).bridgeOwnedDialogs = owned)
    (hsplit : owned = pre ++ rest) (call : Nat) :
    ∃ page, pagesOf stores upstream limit call (pre.getLast?.map IMDialog.id) = .ok page ∧
      Shows page
        (rest.take limit ++
          (upstream.dialogs.take (upstream.taken (max 1 (limit - rest.length)) upstream.dialogs)).take (limit - rest.length))
        (decide (upstream.taken (max 1 (limit - rest.length)) upstream.dialogs < upstream.dialogs.length))
        (upstream.totalWith owned) := by
  have hnodup : (owned.map IMDialog.id).Nodup := howned 0 ▸ nodup_bridgeOwned (stores 0)
  have hslice : bridgeOwnedSlice owned ⟨some limit, pre.getLast?.map IMDialog.id⟩ = rest.take limit :=
    bridgeOwnedSlice_of_split hnodup hsplit
  have hquery := upstreamQuery_of_split hlimit hnodup hsplit
  have hslots : limit - (rest.take limit).length = limit - rest.length := by
    rw [length_take]
    omega
  obtain ⟨page, hpage, hshows⟩ := @shows_of_upstream stores upstream owned limit howned _ call _ _ rfl _ hquery (fun _ => by omega)
  have hall : Paging.after IMDialog.id upstream.dialogs none = upstream.dialogs := rfl
  rw [hslice, hall, hslots] at hshows
  exact ⟨page, hpage, hshows⟩

/-! ## The client's walk -/

theorem taken_le (asked : Nat) (rest : List IMDialog) : upstream.taken asked rest ≤ rest.length := min_le_right _ _

theorem taken_pos {asked : Nat} {rest : List IMDialog} (hasked : 0 < asked) (hne : rest ≠ []) : 0 < upstream.taken asked rest :=
  lt_min (upstream.size_pos asked rest hasked hne) (length_pos_of_ne_nil hne)

theorem getLast?_of_ids {shown dialogs : List IMDialog} (h : shown.map IMDialog.id = dialogs.map IMDialog.id) :
    shown.getLast?.map IMDialog.id = dialogs.getLast?.map IMDialog.id := by
  rw [← getLast?_map, h, getLast?_map]

/-- **A page that is the last one.** -/
theorem pageThrough_last (fuel received : Nat) {load : Nat → Option String → Except String IMDialogPage} {call : Nat}
    {afterId : Option String} {page : IMDialogPage} {dialogs : List IMDialog} {more : Bool} {total : Option Nat}
    (hpage : load call afterId = .ok page) (hshows : Shows page dialogs more total) (hmore : more = false)
    (htotal : total.any (fun total => decide (received + dialogs.length < total)) = false) :
    ∃ out, pageThrough load (fuel + 1) call received afterId = some out ∧ out.map IMDialog.id = dialogs.map IMDialog.id := by
  have hlength : page.dialogs.length = dialogs.length := by simpa using congrArg List.length hshows.ids
  unfold pageThrough
  rw [hpage]
  dsimp only
  cases hlast : page.dialogs.getLast? with
  | none =>
    rw [getLast?_eq_none_iff] at hlast
    exact ⟨[], rfl, by rw [← hshows.ids, hlast]⟩
  | some last =>
    dsimp only
    rw [hshows.more, hshows.total, hlength, hmore, htotal, if_neg (by simp)]
    exact ⟨page.dialogs, rfl, hshows.ids⟩

/-- **A page that is followed by another.** -/
theorem pageThrough_next {load : Nat → Option String → Except String IMDialogPage} {fuel call received : Nat}
    {afterId : Option String} {page : IMDialogPage} {dialogs others : List IMDialog} {more : Bool} {total : Option Nat}
    (hpage : load call afterId = .ok page) (hshows : Shows page dialogs more total) (hne : dialogs ≠ [])
    (hmore : more = true ∨ total.any (fun total => decide (received + dialogs.length < total)) = true)
    (hrest : ∃ out, pageThrough load fuel (call + 1) (received + dialogs.length) (dialogs.getLast?.map IMDialog.id) = some out ∧
      out.map IMDialog.id = others.map IMDialog.id) :
    ∃ out, pageThrough load (fuel + 1) call received afterId = some out ∧
      out.map IMDialog.id = (dialogs ++ others).map IMDialog.id := by
  have hlength : page.dialogs.length = dialogs.length := by simpa using congrArg List.length hshows.ids
  have hlastId := getLast?_of_ids hshows.ids
  obtain ⟨out, hout, hids⟩ := hrest
  unfold pageThrough
  rw [hpage]
  dsimp only
  cases hlast : page.dialogs.getLast? with
  | none =>
    rw [getLast?_eq_none_iff] at hlast
    rw [hlast] at hlength
    exact absurd (length_eq_zero_iff.1 hlength.symm) hne
  | some last =>
    rw [hlast, Option.map_some] at hlastId
    dsimp only
    rw [hshows.more, hshows.total, hlength, if_pos hmore, hlastId, hout]
    exact ⟨page.dialogs ++ out, rfl, by rw [map_append, map_append, hshows.ids, hids]⟩

theorem totalWith_any (received : Nat) : (upstream.totalWith owned).any (fun total => decide (received < total)) =
    (upstream.hasTotal && decide (received < upstream.dialogs.length + owned.length)) := by
  unfold DialogUpstream.totalWith
  cases upstream.hasTotal <;> rfl

theorem take_split {l : List IMDialog} {n : Nat} (hpos : 0 < n) (hle : n ≤ l.length) :
    ∃ front last, l.take n = front ++ [last] ∧ l = front ++ last :: l.drop n := by
  have hne : l.take n ≠ [] := fun he => by
    have := congrArg List.length he
    rw [length_take, length_nil] at this
    omega
  obtain ⟨front, last, htake⟩ := eq_nil_or_concat (l.take n) |>.resolve_left hne
  rw [concat_eq_append] at htake
  refine ⟨front, last, htake, ?_⟩
  calc l = l.take n ++ l.drop n := (take_append_drop n l).symm
    _ = front ++ last :: l.drop n := by rw [htake, append_assoc]; rfl

/-- **From a dialog of the platform on** the client gets what follows it. -/
theorem walk_foreign (hlimit : 1 ≤ limit) (howned : ∀ call, (stores call).bridgeOwnedDialogs = owned)
    (hother : ∀ other ∈ owned, ∀ dialog ∈ upstream.dialogs, other.id ≠ dialog.id) :
    ∀ (fuel call received : Nat) (pre : List IMDialog) (dialog : IMDialog) (post : List IMDialog),
      upstream.dialogs = pre ++ dialog :: post → post.length < fuel → received = owned.length + pre.length + 1 →
        ∃ out, pageThrough (pagesOf stores upstream limit) fuel call received (some dialog.id) = some out ∧
          out.map IMDialog.id = post.map IMDialog.id
  | 0, _, _, _, _, _, _, hfuel, _ => absurd hfuel (Nat.not_lt_zero _)
  | fuel + 1, call, received, pre, dialog, post, hsplit, hfuel, hreceived => by
    have hmem : dialog ∈ upstream.dialogs := hsplit ▸ mem_append_right _ mem_cons_self
    obtain ⟨page, hpage, hshows⟩ := page_foreign limit howned hsplit (fun other ho => hother other ho dialog hmem) call
    have hlength : upstream.dialogs.length = pre.length + (post.length + 1) := by
      rw [hsplit, length_append, length_cons]
    have hle : upstream.taken limit post ≤ post.length := taken_le limit post
    have htaken : (post.take (upstream.taken limit post)).length = upstream.taken limit post := by
      rw [length_take, min_eq_left hle]
    by_cases hlast : upstream.taken limit post < post.length
    · have hpos : 0 < upstream.taken limit post := taken_pos hlimit (fun he => by rw [he] at hlast; exact absurd hlast (Nat.not_lt_zero _))
      obtain ⟨front, last, htake, hpost⟩ := take_split hpos hle
      have hfront : front.length + 1 = upstream.taken limit post := by
        rw [← htaken, htake, length_append, length_singleton]
      have hsplit' : upstream.dialogs = (pre ++ dialog :: front) ++ last :: post.drop (upstream.taken limit post) := by
        rw [hsplit, append_assoc, cons_append, ← hpost]
      have hrest := walk_foreign hlimit howned hother fuel (call + 1) (received + (post.take (upstream.taken limit post)).length)
        _ last _ hsplit' (by rw [length_drop]; omega)
        (by rw [htaken, length_append, length_cons]; omega)
      have hgetLast : (post.take (upstream.taken limit post)).getLast?.map IMDialog.id = some last.id := by
        rw [htake, getLast?_concat, Option.map_some]
      rw [← hgetLast] at hrest
      obtain ⟨out, hout, hids⟩ := pageThrough_next hpage hshows (by rw [htake]; simp) (.inl (decide_eq_true hlast)) hrest
      rw [take_append_drop] at hids
      exact ⟨out, hout, hids⟩
    · have heq : upstream.taken limit post = post.length := le_antisymm hle (not_lt.1 hlast)
      obtain ⟨out, hout, hids⟩ := pageThrough_last fuel received hpage hshows (decide_eq_false hlast) (by
        rw [totalWith_any, htaken, heq, Bool.and_eq_false_iff]
        exact .inr (decide_eq_false (by omega)))
      rw [heq, take_length] at hids
      exact ⟨out, hout, hids⟩

/-- When a full page of the bridge's dialogs does not look like the last one before its time: the total is given, or two
upstream dialogs are there, or no page is filled, or one is and nothing follows it. -/
def Followed (upstream : DialogUpstream) (rest : List IMDialog) (limit : Nat) : Prop :=
  upstream.hasTotal = true ∨ 2 ≤ upstream.dialogs.length ∨ rest.length < limit ∨
    (rest.length = limit ∧ upstream.dialogs = [])

/-- **From a dialog of the bridge on**, or from the start, the client gets what follows. -/
theorem walk_owned (hlimit : 1 ≤ limit) (howned : ∀ call, (stores call).bridgeOwnedDialogs = owned)
    (hother : ∀ other ∈ owned, ∀ dialog ∈ upstream.dialogs, other.id ≠ dialog.id) :
    ∀ (fuel call received : Nat) (pre rest : List IMDialog), owned = pre ++ rest → Followed upstream rest limit →
      rest.length + upstream.dialogs.length < fuel → received = pre.length →
        ∃ out, pageThrough (pagesOf stores upstream limit) fuel call received (pre.getLast?.map IMDialog.id) = some out ∧
          out.map IMDialog.id = (rest ++ upstream.dialogs).map IMDialog.id
  | 0, _, _, _, _, _, _, hfuel, _ => absurd hfuel (Nat.not_lt_zero _)
  | fuel + 1, call, received, pre, rest, hsplit, hfollowed, hfuel, hreceived => by
    obtain ⟨page, hpage, hshows⟩ := page_owned upstream hlimit howned hsplit call
    have hlength : owned.length = pre.length + rest.length := by rw [hsplit, length_append]
    by_cases hfull : limit ≤ rest.length
    · -- the page is full of dialogs of the bridge
      have hslots : limit - rest.length = 0 := by omega
      rw [hslots, take_zero, append_nil, max_eq_left (Nat.zero_le 1)] at hshows
      have htaken : (rest.take limit).length = limit := by rw [length_take, min_eq_left hfull]
      have hone : upstream.taken 1 upstream.dialogs ≤ 1 := (min_le_left _ _).trans (upstream.size_le 1 _)
      by_cases hend : rest.length = limit ∧ upstream.dialogs = []
      · obtain ⟨out, hout, hids⟩ := pageThrough_last fuel received hpage hshows
          (by rw [hend.2]; simp) (by
            rw [totalWith_any, htaken, hend.2, length_nil, Bool.and_eq_false_iff]
            exact .inr (decide_eq_false (by omega)))
        refine ⟨out, hout, ?_⟩
        rw [hids, hend.2, append_nil, take_of_length_le hend.1.le]
      · have hmore : decide (upstream.taken 1 upstream.dialogs < upstream.dialogs.length) = true ∨
            (upstream.totalWith owned).any (fun total => decide (received + (rest.take limit).length < total)) = true := by
          rcases hfollowed with htotal | htwo | hless | hended
          · refine .inr ?_
            rw [totalWith_any, htaken, htotal, Bool.true_and, decide_eq_true_eq]
            by_cases hempty : upstream.dialogs = []
            · have : rest.length ≠ limit := fun he => hend ⟨he, hempty⟩
              omega
            · have := length_pos_of_ne_nil hempty
              omega
          · exact .inl (decide_eq_true (by omega))
          · omega
          · exact absurd hended hend
        have hstill : Followed upstream (rest.drop limit) limit := by
          rcases hfollowed with htotal | htwo | hless | hended
          · exact .inl htotal
          · exact .inr (.inl htwo)
          · omega
          · exact absurd hended hend
        have hpre : (pre ++ rest.take limit).getLast? = (rest.take limit).getLast? := by
          obtain ⟨front, last, htake, -⟩ := take_split hlimit hfull
          rw [htake, ← append_assoc, getLast?_concat, getLast?_concat]
        have hrest := walk_owned hlimit howned hother fuel (call + 1) (received + (rest.take limit).length)
          (pre ++ rest.take limit) (rest.drop limit) (by rw [append_assoc, take_append_drop]; exact hsplit) hstill
          (by rw [length_drop]; omega) (by rw [length_append, hreceived])
        rw [hpre] at hrest
        obtain ⟨out, hout, hids⟩ := pageThrough_next hpage hshows
          (fun he => by rw [he, length_nil] at htaken; omega) hmore hrest
        refine ⟨out, hout, ?_⟩
        rw [hids, ← append_assoc, take_append_drop]
    · -- the dialogs of the platform begin on this page
      have hslots : max 1 (limit - rest.length) = limit - rest.length := max_eq_right (by omega)
      have hall : rest.take limit = rest := take_of_length_le (by omega)
      rw [hslots, hall] at hshows
      generalize hs : upstream.taken (limit - rest.length) upstream.dialogs = n at hshows
      have hle : n ≤ upstream.dialogs.length := hs ▸ taken_le _ _
      have hsize : n ≤ limit - rest.length := hs ▸ (min_le_left _ _).trans (upstream.size_le _ _)
      have hcut : (upstream.dialogs.take n).take (limit - rest.length) = upstream.dialogs.take n :=
        take_of_length_le (by rw [length_take]; omega)
      rw [hcut] at hshows
      have htaken : (upstream.dialogs.take n).length = n := by rw [length_take, min_eq_left hle]
      by_cases hlast : n < upstream.dialogs.length
      · have hpos : 0 < n := hs ▸ taken_pos (by omega) (fun he => by rw [he] at hlast; exact absurd hlast (Nat.not_lt_zero _))
        obtain ⟨front, last, htake, hdialogs⟩ := take_split hpos hle
        have hfront : front.length + 1 = n := by
          rw [← htaken, htake, length_append, length_singleton]
        have hrest := walk_foreign hlimit howned hother fuel (call + 1)
          (received + (rest ++ upstream.dialogs.take n).length) front last (upstream.dialogs.drop n) hdialogs
          (by rw [length_drop]; omega) (by rw [length_append, htaken]; omega)
        have hgetLast : (rest ++ upstream.dialogs.take n).getLast?.map IMDialog.id = some last.id := by
          rw [htake, ← append_assoc, getLast?_concat, Option.map_some]
        rw [← hgetLast] at hrest
        obtain ⟨out, hout, hids⟩ := pageThrough_next hpage hshows (by rw [htake]; simp) (.inl (decide_eq_true hlast)) hrest
        rw [append_assoc, take_append_drop] at hids
        exact ⟨out, hout, hids⟩
      · have heq : n = upstream.dialogs.length := le_antisymm hle (not_lt.1 hlast)
        obtain ⟨out, hout, hids⟩ := pageThrough_last fuel received hpage hshows
          (decide_eq_false hlast) (by
            rw [totalWith_any, length_append, htaken, heq, Bool.and_eq_false_iff]
            exact .inr (decide_eq_false (by omega)))
        rw [heq, take_length] at hids
        exact ⟨out, hout, hids⟩

theorem followed_of_pagedAsOne (hlimit : 1 ≤ limit) (howned : ∀ call, (stores call).bridgeOwnedDialogs = owned)
    (h : PagedAsOne stores upstream owned limit) : Followed upstream owned limit := by
  by_contra hnot
  unfold Followed at hnot
  simp only [not_or, not_and, not_lt, Bool.not_eq_true] at hnot
  obtain ⟨htotal, hfew, hfull, hended⟩ := hnot
  obtain ⟨page, hpage, hshows⟩ := page_owned upstream hlimit howned (nil_append owned).symm 0
  have hslots : limit - owned.length = 0 := by omega
  rw [hslots, take_zero, append_nil, max_eq_left (Nat.zero_le 1)] at hshows
  have hnone : ¬upstream.taken 1 upstream.dialogs < upstream.dialogs.length := fun hlt => by
    have hne : upstream.dialogs ≠ [] := fun he => by
      rw [he] at hlt
      exact absurd hlt (Nat.not_lt_zero _)
    have hpos : 0 < upstream.taken 1 upstream.dialogs := taken_pos Nat.one_pos hne
    omega
  obtain ⟨fuel, out, hout, hids⟩ := h
  cases fuel with
  | zero => cases hout
  | succ fuel =>
    obtain ⟨out', hout', hids'⟩ := pageThrough_last fuel 0 hpage hshows (decide_eq_false hnone) (by
      rw [totalWith_any, htotal, Bool.false_and])
    have hsame : some out = some out' := hout.symm.trans hout'
    cases hsame
    have hlength := congrArg List.length (hids.symm.trans hids')
    rw [length_map, length_map, length_append, length_take, min_eq_left hfull] at hlength
    exact hended (by omega) (length_eq_zero_iff.1 (by omega))

/-- **The dialogs of the bridge and those of the platform are paged as one list** exactly when no full page of the
bridge's dialogs looks like the last one. -/
theorem pagedAsOne_iff (hlimit : 1 ≤ limit) (howned : ∀ call, (stores call).bridgeOwnedDialogs = owned)
    (hother : ∀ other ∈ owned, ∀ dialog ∈ upstream.dialogs, other.id ≠ dialog.id) :
    PagedAsOne stores upstream owned limit ↔ Followed upstream owned limit := by
  constructor
  · exact followed_of_pagedAsOne hlimit howned
  · intro hfollowed
    obtain ⟨out, hout, hids⟩ := walk_owned hlimit howned hother (owned.length + upstream.dialogs.length + 1) 0 0 [] owned rfl
      hfollowed (Nat.lt_succ_self _) rfl
    exact ⟨_, out, hout, hids⟩

end Pages

/-! ## A bot of the bridge and a friend -/

def botDialog : IMDialog := ⟨⟨"bridge:botfather", some ⟨some true⟩⟩, 0, none, none⟩

def friendDialog : IMDialog := ⟨⟨"alice", none⟩, 0, none, none⟩

def botStore : DialogStore := ⟨[⟨1, 1700000000, botDialog⟩], by decide, by decide⟩

def friendUpstream : DialogUpstream :=
  { dialogs := [friendDialog]
    distinct := by decide
    foreign := by decide
    size := fun limit _ => limit
    size_le := fun _ _ => le_rfl
    size_pos := fun _ _ h _ => h
    hasTotal := false }

theorem pagedAsOne_pair : PagedAsOne (fun _ => botStore) friendUpstream [botDialog] 2 :=
  (pagedAsOne_iff (by decide) (fun _ => (by decide : botStore.bridgeOwnedDialogs = [botDialog])) (by decide)).2 (.inr (.inr (.inl (by decide))))

/-- **A page that the bridge fills ends the list.** -/
theorem page_of_bridge_ends : ¬∀ (stores : Nat → DialogStore) (upstream : DialogUpstream) (owned : List IMDialog) (limit : Nat),
    1 ≤ limit → (∀ call, (stores call).bridgeOwnedDialogs = owned) →
      (∀ other ∈ owned, ∀ dialog ∈ upstream.dialogs, other.id ≠ dialog.id) → PagedAsOne stores upstream owned limit := by
  intro hall
  have hbot : botStore.bridgeOwnedDialogs = [botDialog] := by decide
  have howned : ∀ call : Nat, ((fun _ => botStore) call : DialogStore).bridgeOwnedDialogs = [botDialog] := fun _ => hbot
  have hfollowed := followed_of_pagedAsOne (by decide) howned
    (hall (fun _ => botStore) friendUpstream [botDialog] 1 (by decide) howned (by decide))
  rcases hfollowed with h | h | h | ⟨-, h⟩
  · exact absurd h (by decide)
  · exact absurd h (by decide)
  · exact absurd h (by decide)
  · exact absurd h (by decide)

end OwnedDialogs
end Crossgram
