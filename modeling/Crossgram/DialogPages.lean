import Crossgram.Lib.Maps
import Crossgram.Lib.Paging
import Crossgram.MessageIngest
/-!
# DialogPages — `messages.getDialogs` over a static upstream list (packages/bridge/src/dialogs.ts)

An upstream page is a window of the platform's list.  `getDialogs` drops the sub-channels of a window, scans windows for
the dialogs of one folder, puts pinned dialogs in front of the first page and takes them out of the others, and tells by
the page's length whether more follow.
-/
namespace Crossgram

inductive DialogFolder
  | main | archive
deriving DecidableEq

def clampLimit (limit : Int) : Nat := (max 0 (min limit 100)).toNat

def IMDialog.id (dialog : IMDialog) : String := dialog.conversation.id

/-- `nextCursor` says whether it is set. -/
structure IMDialogPage where
  dialogs : List IMDialog
  nextCursor : Bool
  total : Option Int

/-- A platform's list of dialogs.  `size` is how many of the dialogs that follow an offset a page has. -/
structure DialogUpstream where
  dialogs : List IMDialog
  distinct : (dialogs.map IMDialog.id).Nodup
  size : Nat → List IMDialog → Nat
  size_le : ∀ limit rest, size limit rest ≤ limit
  total : Option Int

namespace DialogUpstream

variable (upstream : DialogUpstream)

def rest (afterId : Option String) : List IMDialog := Paging.after IMDialog.id upstream.dialogs afterId

def window (limit : Nat) (afterId : Option String) : List IMDialog :=
  (upstream.rest afterId).take (upstream.size limit (upstream.rest afterId))

def getDialogsPage (limit : Nat) (afterId : Option String) : IMDialogPage :=
  { dialogs := upstream.window limit afterId
    nextCursor := decide ((upstream.window limit afterId).length < (upstream.rest afterId).length)
    total := upstream.total }

end DialogUpstream

/-- What a `DialogRpc` knows while a client pages: its platform, folders and pins, the conversations of parents, and the
`qqGroupMsgMask` of each conversation. -/
structure DialogList where
  qq : Bool
  upstream : DialogUpstream
  archivedPeerIds : List String
  pinnedPeerIds : List String
  conversations : String → Option IMConversation
  qqGroupMsgMask : String → Option Nat
  topMessage : IMDialog → Int

/-- `QQ_GROUP_MSG_MASK_POLICIES`, down to the folder. -/
def qqGroupMsgMaskFolder : Nat → Option DialogFolder
  | 1 => some .main
  | 2 => some .archive
  | 4 => some .main
  | _ => none

structure GetDialogsRequest where
  offsetPeer : Option String := none
  offsetId : Int := 0
  offsetDate : Int := 0
  limit : Int
  folderId : Option DialogFolder := none
  excludePinned : Bool := false

/-- `sliced` tells `messages.dialogsSlice` from `messages.dialogs`. -/
structure DialogsResponse where
  sliced : Bool
  count : Int
  dialogs : List IMDialog

structure FolderScan where
  selected : List IMDialog
  matching : Nat
  afterId : Option String
  scanned : Nat
  exhausted : Bool
  visitedOffsets : List (Option String)

def FolderScan.start (afterId : Option String) : FolderScan :=
  { selected := [], matching := 0, afterId := afterId, scanned := 0, exhausted := false, visitedOffsets := [] }

namespace DialogList

variable (list : DialogList)

def isSubchannel (conversation : IMConversation) : Bool :=
  decide (conversation.kind = .channel) &&
    match conversation.parentId.filter (fun parentId => parentId ≠ "") with
    | some parentId => decide ((list.conversations parentId).map IMConversation.kind = some .channel)
    | none          => false

def loadDialogPage (limit : Nat) (afterId : Option String) : IMDialogPage :=
  let page := list.upstream.getDialogsPage limit afterId
  { page with dialogs := page.dialogs.filter (fun dialog => !list.isSubchannel dialog.conversation) }

def effectiveFolderId (conversation : IMConversation) : DialogFolder :=
  (if conversation.kind = .group then (list.qqGroupMsgMask conversation.id).bind qqGroupMsgMaskFolder else none).getD
    (if conversation.id ∈ list.archivedPeerIds then .archive else .main)

/-- The loop of `_loadDialogFolderPage`; every round scans a dialog, so there are at most as many as the bound. -/
def scanFolder (limit : Nat) (folderId : DialogFolder) : Nat → FolderScan → FolderScan
  | 0, scan          => scan
  | rounds + 1, scan =>
    if (list.qq ∨ scan.selected.length < limit) ∧ scan.scanned < 100000 ∧ scan.afterId ∉ scan.visitedOffsets then
      let batchLimit := max 100 limit
      let page := list.loadDialogPage batchLimit scan.afterId
      let visitedOffsets := scan.visitedOffsets ++ [scan.afterId]
      match page.dialogs.getLast? with
      | none      => { scan with visitedOffsets := visitedOffsets, exhausted := true }
      | some last =>
        let scanned := scan.scanned + page.dialogs.length
        let matches' := page.dialogs.filter (fun dialog => list.effectiveFolderId dialog.conversation = folderId)
        let matching := scan.matching + matches'.length
        let selected := scan.selected ++ matches'.take (limit - scan.selected.length)
        let hasMore := page.nextCursor || page.total.any (fun total => decide ((scanned : Int) < total))
          || decide (batchLimit ≤ page.dialogs.length)
        if hasMore = false ∨ some last.id = scan.afterId then
          { selected := selected, matching := matching, afterId := scan.afterId, scanned := scanned, exhausted := true,
            visitedOffsets := visitedOffsets }
        else
          scanFolder limit folderId rounds
            { selected := selected, matching := matching, afterId := some last.id, scanned := scanned, exhausted := false,
              visitedOffsets := visitedOffsets }
    else scan

def loadDialogFolderPage (limit : Nat) (afterId : Option String) (folderId : DialogFolder) : IMDialogPage :=
  let limit := max 1 limit
  let scan := list.scanFolder limit folderId 100001 (FolderScan.start afterId)
  { dialogs := scan.selected
    nextCursor := (decide (limit < scan.matching) || !scan.exhausted) && (scan.afterId.isSome || !scan.selected.isEmpty)
    total := if scan.exhausted ∧ afterId = none then some (scan.matching : Int) else none }

/-- `_pinnedDialogs`: those loaded, and those the store has. -/
def pinnedDialogs (stored : List IMDialog) (folderId : Option DialogFolder) (loaded : List IMDialog) : List IMDialog :=
  let byId := Maps.ofList (loaded.map (fun dialog => (dialog.id, dialog)))
  let missing := list.pinnedPeerIds.filter (fun peerId => !Maps.has byId peerId)
  let byId := (stored.filter (fun dialog => dialog.id ∈ missing)).foldl (fun byId dialog => Maps.set byId dialog.id dialog) byId
  list.pinnedPeerIds.filterMap (fun peerId => (Maps.get byId peerId).filter (fun dialog =>
    folderId.all (fun folderId => decide (list.effectiveFolderId dialog.conversation = folderId))))

def queryLimit (limit : Int) : Nat := clampLimit limit + list.pinnedPeerIds.length + 1

/-- A window is answered as it is: no folder is asked for, or the main one and nothing in the window is elsewhere. -/
def direct (req : GetDialogsRequest) : Bool :=
  match req.folderId with
  | none          => true
  | some .archive => false
  | some .main    => !list.qq && list.archivedPeerIds.isEmpty &&
      (list.loadDialogPage (list.queryLimit req.limit) req.offsetPeer).dialogs.all (fun dialog =>
        decide (list.effectiveFolderId dialog.conversation = .main))

def load (req : GetDialogsRequest) : IMDialogPage :=
  if list.direct req then list.loadDialogPage (list.queryLimit req.limit) req.offsetPeer
  else list.loadDialogFolderPage (list.queryLimit req.limit) req.offsetPeer (req.folderId.getD .main)

def start (req : GetDialogsRequest) (all : List IMDialog) : Nat :=
  match req.offsetPeer with
  | some offsetPeer => ((all.findIdx? (fun dialog => dialog.id = offsetPeer)).map (fun index => index + 1)).getD 0
  | none            =>
    if 0 < req.offsetId ∨ 0 < req.offsetDate then
      ((all.findIdx? (fun dialog => list.topMessage dialog = req.offsetId ∨
        dialog.lastMessage.map IMMessage.timestamp = some req.offsetDate)).map (fun index => index + 1)).getD 0
    else 0

section Response

variable (stored : List IMDialog) (req : GetDialogsRequest)

/-- The pinned dialogs of the folder; `stored` are the dialogs in the store. -/
def folderPinned : List IMDialog := list.pinnedDialogs stored req.folderId (list.load req).dialogs

def leadingPinned : List IMDialog :=
  if (req.offsetPeer = none ∧ req.offsetId = 0 ∧ req.offsetDate = 0) ∧ req.excludePinned = false then
    list.folderPinned stored req
  else []

def unpinned : List IMDialog := (list.load req).dialogs.filter (fun dialog => dialog.id ∉ list.pinnedPeerIds)

def pageLimit (leading : Nat) : Nat :=
  if leading = 0 then clampLimit req.limit else leading + max 1 (clampLimit req.limit - leading)

def pageTotal : Int :=
  match (list.load req).total with
  | some total => total - (list.folderPinned stored req).length + (list.leadingPinned stored req).length
  | none       =>
    let all := list.leadingPinned stored req ++ list.unpinned req
    if (list.load req).nextCursor then all.length + 1 else all.length

def getDialogs : DialogsResponse :=
  let leadingPinned := list.leadingPinned stored req
  let all := leadingPinned ++ list.unpinned req
  let page := (all.drop (list.start req all)).take (pageLimit req leadingPinned.length)
  let total := list.pageTotal stored req
  { sliced := decide (0 < list.start req all) || decide ((page.length : Int) < total), count := total, dialogs := page }

end Response

def client (stored : Nat → List IMDialog) (limit : Int) (folderId : Option DialogFolder) :
    Nat → Option (List IMDialog) :=
  fun fuel => Paging.collect IMDialog.id (fun call offset =>
    let response := list.getDialogs (stored call) { offsetPeer := offset, limit := limit, folderId := folderId }
    (response.dialogs, response.sliced)) fuel 0 none

end DialogList

end Crossgram
