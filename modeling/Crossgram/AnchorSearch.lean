import Mathlib.Data.Finset.Max
import Crossgram.MessageIdentity
import Crossgram.ReplyTargets
/-!
# AnchorSearch — the nearest message below an id (packages/bridge/src/message-store.ts, `findProjectedBeforeTlId`)

A client that pages towards newer messages sends the greatest id it has, plus one.  The message that has the id below it
answers; else the newest message, when its first part is below the id; else the first live one of the sixteen parts
nearest below.  The newest by time need not be the nearest by id, and sixteen parts of recalled messages hide the rest.
-/
namespace Crossgram

open Option List

def PRECEDING_ANCHOR_CANDIDATES : Nat := 16

def clampDatabaseLimit (limit : Nat) : Nat := max 1 (min limit 500)

section Conversation

variable (db : Database) (conversation : IMConversationRow)

def newestMessages (limit : Nat) : List IMMessageRow :=
  Windows.window (fun a b => b.timestamp ≤ a.timestamp) (clampDatabaseLimit limit)
    (db.tables.messages.get (fun row => row.conversationId = conversation.id ∧ row.deleted = false))

def partsBelow (platformSessionId : String) (tlMessageId : Int) : List TlMessagePartRow :=
  db.tables.parts.get (fun part => part.platformSessionId = platformSessionId ∧ part.conversationId = conversation.id ∧
    part.tlMessageId < tlMessageId)

def precedingCandidates (platformSessionId : String) (tlMessageId : Int) : List TlMessagePartRow :=
  Windows.window (fun a b => b.tlMessageId ≤ a.tlMessageId) PRECEDING_ANCHOR_CANDIDATES
    (partsBelow db conversation platformSessionId tlMessageId)

end Conversation

def isAlive (db : Database) (part : TlMessagePartRow) : Bool :=
  (db.tables.messageById part.messageId).any (fun row => !row.deleted)

section Store

variable (contentOf : Json → HydratedContent) (db : Database) (platformSessionId platformConversationId : String)

/-- `readProjectedHistory` without a time. -/
def readProjectedHistory (limit : Nat) : List ProjectedMessage :=
  match db.conversations.first (isConversation platformSessionId platformConversationId) with
  | none              => []
  | some conversation => (newestMessages db conversation limit).filterMap (fun row => projectedMessage contentOf db row.id)

def findProjectedBeforeTlId (tlMessageId : Int) : Option ProjectedMessage :=
  if isSafeInteger tlMessageId = false ∨ tlMessageId ≤ 1 then none
  else
    match findProjectedByTlId contentOf db platformSessionId (tlMessageId - 1) platformConversationId with
    | some preceding => some preceding
    | none           =>
      let newest := (readProjectedHistory contentOf db platformSessionId platformConversationId 1).head?
      match newest.filter (fun newest => newest.parts.head?.any (fun part => part.tlMessageId < tlMessageId)) with
      | some newest => some newest
      | none        =>
        (db.conversations.first (isConversation platformSessionId platformConversationId)).bind (fun conversation =>
          ((precedingCandidates db conversation platformSessionId tlMessageId).find? (isAlive db)).bind (fun candidate =>
            findProjectedByTlId contentOf db platformSessionId candidate.tlMessageId platformConversationId))

end Store

/-! ## What is asked for -/

section Nearest

variable (db : Database) (platformSessionId platformConversationId : String) (tlMessageId : Int)

def livePartsBelow : List TlMessagePartRow :=
  match db.conversations.first (isConversation platformSessionId platformConversationId) with
  | none              => []
  | some conversation => (partsBelow db conversation platformSessionId tlMessageId).filter (isAlive db)

structure IsNearest (part : TlMessagePartRow) : Prop where
  live : part ∈ livePartsBelow db platformSessionId platformConversationId tlMessageId
  greatest : ∀ other ∈ livePartsBelow db platformSessionId platformConversationId tlMessageId,
    other.tlMessageId ≤ part.tlMessageId

def FindsNearest (contentOf : Json → HydratedContent) : Option ProjectedMessage → Prop
  | some message => ∃ part, IsNearest db platformSessionId platformConversationId tlMessageId part ∧
      projectedMessage contentOf db part.messageId = some message
  | none         => livePartsBelow db platformSessionId platformConversationId tlMessageId = []

def firstPart : Option TlMessagePartRow :=
  (db.conversations.first (isConversation platformSessionId platformConversationId)).bind (fun conversation =>
    db.tables.parts.first (fun part => part.platformSessionId = platformSessionId ∧ part.tlMessageId = tlMessageId ∧
      part.conversationId = conversation.id))

def newestBelow : Option IMMessageRow :=
  (db.conversations.first (isConversation platformSessionId platformConversationId)).bind (fun conversation =>
    (newestMessages db conversation 1).head?.filter (fun newest =>
      (partsOf db.tables.parts newest.id).head?.any (fun part => part.tlMessageId < tlMessageId)))

def partsBetween (low : Int) : List TlMessagePartRow :=
  match db.conversations.first (isConversation platformSessionId platformConversationId) with
  | none              => []
  | some conversation =>
    (partsBelow db conversation platformSessionId tlMessageId).filter (fun part => low < part.tlMessageId)

/-- When the search finds the nearest message: the id below leads to a live one; or the newest message is below the id and
has the greatest live part there; or it is not below, and fewer than sixteen parts stand between the id and the nearest
live part, to which its id leads. -/
def NearestInReach : Prop :=
  if isSafeInteger tlMessageId = false then
    livePartsBelow db platformSessionId platformConversationId tlMessageId = []
  else
    (firstPart db platformSessionId platformConversationId (tlMessageId - 1)).any (isAlive db) = true ∨
    match newestBelow db platformSessionId platformConversationId tlMessageId with
    | some newest => ∃ part, IsNearest db platformSessionId platformConversationId tlMessageId part ∧ part.messageId = newest.id
    | none        => ∀ part, IsNearest db platformSessionId platformConversationId tlMessageId part →
        (partsBetween db platformSessionId platformConversationId tlMessageId part.tlMessageId).length <
          PRECEDING_ANCHOR_CANDIDATES ∧
        (firstPart db platformSessionId platformConversationId part.tlMessageId).any (isAlive db) = true

end Nearest

/-! ## Live parts -/

instance descending_total : Std.Total (fun a b : TlMessagePartRow => b.tlMessageId ≤ a.tlMessageId) :=
  ⟨fun _ _ => Int.le_total _ _⟩

instance descending_trans : IsTrans TlMessagePartRow (fun a b => b.tlMessageId ≤ a.tlMessageId) :=
  ⟨fun _ _ _ hab hbc => Int.le_trans hbc hab⟩

section Search

variable {contentOf : Json → HydratedContent} {db : Database} {platformSessionId platformConversationId : String}
  {tlMessageId : Int} {part : TlMessagePartRow} {message : ProjectedMessage}

theorem findProjectedByTlId_eq : findProjectedByTlId contentOf db platformSessionId tlMessageId platformConversationId =
    (firstPart db platformSessionId platformConversationId tlMessageId).bind (fun part =>
      projectedMessage contentOf db part.messageId) := by
  unfold findProjectedByTlId firstPart
  rw [bind_assoc]

theorem findsNearest_none : FindsNearest db platformSessionId platformConversationId tlMessageId contentOf none ↔
    livePartsBelow db platformSessionId platformConversationId tlMessageId = [] := Iff.rfl

theorem not_findsNearest_none {n : Nat} {found : Option ProjectedMessage} (hnone : found = none)
    (hlive : (livePartsBelow db platformSessionId platformConversationId tlMessageId).length = n + 1) :
    ¬FindsNearest db platformSessionId platformConversationId tlMessageId contentOf found := by
  intro h
  rw [hnone, findsNearest_none] at h
  rw [h] at hlive
  cases hlive

theorem projectedMessage_isSome (contentOf : Json → HydratedContent) :
    (projectedMessage contentOf db part.messageId).isSome = isAlive db part := by
  unfold projectedMessage isAlive
  cases db.tables.messageById part.messageId with
  | none     => rfl
  | some row => cases hd : row.deleted <;> simp [hd, Option.filter]

theorem any_isAlive (contentOf : Json → HydratedContent) :
    (firstPart db platformSessionId platformConversationId tlMessageId).any (isAlive db) =
    ((firstPart db platformSessionId platformConversationId tlMessageId).bind (fun part =>
      projectedMessage contentOf db part.messageId)).isSome := by
  cases firstPart db platformSessionId platformConversationId tlMessageId with
  | none      => rfl
  | some part => exact (projectedMessage_isSome contentOf).symm

theorem exists_isNearest (h : livePartsBelow db platformSessionId platformConversationId tlMessageId ≠ []) :
    ∃ part, IsNearest db platformSessionId platformConversationId tlMessageId part := by
  obtain ⟨part, hpart, hgreatest⟩ := Finset.exists_max_image
    (livePartsBelow db platformSessionId platformConversationId tlMessageId).toFinset (fun part => part.tlMessageId)
    (toFinset_nonempty_iff _ |>.2 h)
  exact ⟨part, mem_toFinset.1 hpart, fun other hother => hgreatest other (mem_toFinset.2 hother)⟩

theorem projectedMessage_parts {messageId : Nat} (h : projectedMessage contentOf db messageId = some message) :
    message.parts = partsOf db.tables.parts messageId := by
  unfold projectedMessage at h
  obtain ⟨row, hrow, rfl⟩ := map_eq_some_iff.1 h
  obtain ⟨hrow, -⟩ := filter_eq_some_iff.1 hrow
  have hid : row.id = messageId := by simpa using (Table.mem_of_first hrow).2
  rw [hid]

/-- **What is read back names its message**, once it has a part. -/
theorem messageId_of_projectedMessage {messageId : Nat} (hpart : part ∈ db.tables.parts.rows)
    (h : projectedMessage contentOf db part.messageId = some message)
    (h' : projectedMessage contentOf db messageId = some message) : part.messageId = messageId := by
  have hmem : part ∈ partsOf db.tables.parts part.messageId := mem_partsOf.2 ⟨hpart, rfl⟩
  rw [← projectedMessage_parts h, projectedMessage_parts h'] at hmem
  exact (mem_partsOf.1 hmem).2

section Conversation

variable {conversation : IMConversationRow}
  (hc : db.conversations.first (isConversation platformSessionId platformConversationId) = some conversation)
include hc

theorem mem_livePartsBelow : part ∈ livePartsBelow db platformSessionId platformConversationId tlMessageId ↔
    part ∈ partsBelow db conversation platformSessionId tlMessageId ∧ isAlive db part = true := by
  unfold livePartsBelow
  rw [hc]
  exact mem_filter

theorem partsBetween_eq (low : Int) : partsBetween db platformSessionId platformConversationId tlMessageId low =
    (partsBelow db conversation platformSessionId tlMessageId).filter (fun part => low < part.tlMessageId) := by
  unfold partsBetween
  rw [hc]

theorem firstPart_eq : firstPart db platformSessionId platformConversationId tlMessageId =
    db.tables.parts.first (fun part => part.platformSessionId = platformSessionId ∧ part.tlMessageId = tlMessageId ∧
      part.conversationId = conversation.id) := by
  unfold firstPart
  rw [hc]
  rfl

omit hc in
theorem mem_partsBelow : part ∈ partsBelow db conversation platformSessionId tlMessageId ↔ part ∈ db.tables.parts.rows ∧
    part.platformSessionId = platformSessionId ∧ part.conversationId = conversation.id ∧ part.tlMessageId < tlMessageId := by
  unfold partsBelow Table.get
  rw [mem_filter, decide_eq_true_eq]

theorem firstPart_some (h : firstPart db platformSessionId platformConversationId tlMessageId = some part) :
    part ∈ db.tables.parts.rows ∧ part.platformSessionId = platformSessionId ∧ part.conversationId = conversation.id ∧
      part.tlMessageId = tlMessageId := by
  rw [firstPart_eq hc] at h
  obtain ⟨hmem, hp⟩ := Table.mem_of_first h
  obtain ⟨hs, hn, hcid⟩ := of_decide_eq_true hp
  exact ⟨hmem, hs, hcid, hn⟩

theorem isNearest_of_preceding (h : firstPart db platformSessionId platformConversationId (tlMessageId - 1) = some part)
    (ha : isAlive db part = true) : IsNearest db platformSessionId platformConversationId tlMessageId part := by
  obtain ⟨hmem, hs, hcid, hn⟩ := firstPart_some hc h
  refine ⟨(mem_livePartsBelow hc).2 ⟨mem_partsBelow.2 ⟨hmem, hs, hcid, by omega⟩, ha⟩, fun other hother => ?_⟩
  have hlt := (mem_partsBelow.1 ((mem_livePartsBelow hc).1 hother).1).2.2.2
  omega

/-! ## The parts nearest below -/

/-- **The part that the nearest id leads to is among the sixteen** when fewer than sixteen parts are above it. -/
theorem firstPart_mem_candidates {low : Int} (hlow : low < tlMessageId)
    (hfirst : firstPart db platformSessionId platformConversationId low = some part)
    (hfew : (partsBetween db platformSessionId platformConversationId tlMessageId low).length < PRECEDING_ANCHOR_CANDIDATES) :
    part ∈ precedingCandidates db conversation platformSessionId tlMessageId := by
  obtain ⟨hmem, hs, hcid, rfl⟩ := firstPart_some hc hfirst
  have hbelow : part ∈ partsBelow db conversation platformSessionId tlMessageId :=
    mem_partsBelow.2 ⟨hmem, hs, hcid, hlow⟩
  have hnodup : (partsBelow db conversation platformSessionId tlMessageId).Nodup := by
    have hids : (partsBelow db conversation platformSessionId tlMessageId).Pairwise (fun a b => Row.id a < Row.id b) :=
      db.tables.parts.idsIncrease.filter _
    exact hids.imp (fun {a b} hlt heq => absurd hlt (by rw [heq]; exact Nat.lt_irrefl _))
  -- no row before it in the table has its id, or the id would lead to that row
  obtain ⟨-, rows, rest, hrows, hnone⟩ := find?_eq_some_iff_append.1 (by rw [firstPart_eq hc] at hfirst; exact hfirst)
  have hsplit : partsBelow db conversation platformSessionId tlMessageId =
      rows.filter (fun part => part.platformSessionId = platformSessionId ∧ part.conversationId = conversation.id ∧
        part.tlMessageId < tlMessageId) ++
      part :: rest.filter (fun part => part.platformSessionId = platformSessionId ∧ part.conversationId = conversation.id ∧
        part.tlMessageId < tlMessageId) := by
    unfold partsBelow Table.get
    rw [hrows, filter_append, filter_cons_of_pos (by simp [hs, hcid, hlow])]
  unfold precedingCandidates
  refine Windows.mem_window_of_few hnodup hsplit (fun y hy hboth => ?_) ?_
  · have hyrows := mem_filter.1 hy
    have hye := of_decide_eq_true hyrows.2
    have hno := hnone y hyrows.1
    rw [Bool.not_eq_true', decide_eq_false_iff_not] at hno
    exact hno ⟨hye.1, Int.le_antisymm hboth.1 hboth.2, hye.2.1⟩
  · rw [partsBetween_eq hc] at hfew
    simpa only [Int.not_le] using hfew

/-- **The first live candidate has the nearest id**, and fewer than sixteen parts are above it. -/
theorem candidate_nearest {candidate : TlMessagePartRow}
    (h : (precedingCandidates db conversation platformSessionId tlMessageId).find? (isAlive db) = some candidate)
    (hpart : IsNearest db platformSessionId platformConversationId tlMessageId part) :
    candidate.tlMessageId = part.tlMessageId ∧
      (partsBetween db platformSessionId platformConversationId tlMessageId part.tlMessageId).length <
        PRECEDING_ANCHOR_CANDIDATES := by
  obtain ⟨hbelow, halive⟩ := (mem_livePartsBelow hc).1 hpart.live
  obtain ⟨hcalive, before, after, hwindow, hdead⟩ := find?_eq_some_iff_append.1 h
  have hcmem : candidate ∈ precedingCandidates db conversation platformSessionId tlMessageId := mem_of_find?_eq_some h
  have hle : candidate.tlMessageId ≤ part.tlMessageId :=
    hpart.greatest candidate ((mem_livePartsBelow hc).2 ⟨Windows.mem_of_mem_window hcmem, hcalive⟩)
  have hge : part.tlMessageId ≤ candidate.tlMessageId := by
    by_cases hin : part ∈ precedingCandidates db conversation platformSessionId tlMessageId
    · have hsorted := Windows.pairwise_window (r := fun a b : TlMessagePartRow => b.tlMessageId ≤ a.tlMessageId)
        PRECEDING_ANCHOR_CANDIDATES (partsBelow db conversation platformSessionId tlMessageId)
      rw [precedingCandidates] at hwindow hin
      rw [hwindow] at hsorted hin
      rcases mem_append.1 hin with hin | hin
      · have hno := hdead part hin
        rw [halive] at hno
        cases hno
      · rcases mem_cons.1 hin with rfl | hin
        · exact Int.le_refl _
        · exact rel_of_pairwise_cons (pairwise_append.1 hsorted).2.1 hin
    · exact (Windows.window_left_out hbelow hin).2 candidate hcmem
  have heq := Int.le_antisymm hle hge
  refine ⟨heq, ?_⟩
  have hfew := Windows.few_of_mem_window hcmem
  rw [partsBetween_eq hc, ← heq]
  simpa only [Int.not_le] using hfew

/-- **The last stage** finds the nearest message when it is among the candidates and its id leads to it. -/
theorem findsNearest_candidate (contentOf : Json → HydratedContent) :
    FindsNearest db platformSessionId platformConversationId tlMessageId contentOf
        ((some conversation).bind (fun conversation =>
          ((precedingCandidates db conversation platformSessionId tlMessageId).find? (isAlive db)).bind (fun candidate =>
            findProjectedByTlId contentOf db platformSessionId candidate.tlMessageId platformConversationId))) ↔
      ∀ part, IsNearest db platformSessionId platformConversationId tlMessageId part →
        (partsBetween db platformSessionId platformConversationId tlMessageId part.tlMessageId).length <
          PRECEDING_ANCHOR_CANDIDATES ∧
        (firstPart db platformSessionId platformConversationId part.tlMessageId).any (isAlive db) = true := by
  rw [bind_some]
  cases hfind : (precedingCandidates db conversation platformSessionId tlMessageId).find? (isAlive db) with
  | none =>
    have hno : ∀ part ∈ precedingCandidates db conversation platformSessionId tlMessageId, isAlive db part = false := by
      simpa using hfind
    rw [bind_none]
    constructor
    · intro hnil part hpart
      have hlive := hpart.live
      rw [findsNearest_none.1 hnil] at hlive
      cases hlive
    · intro hreach
      by_contra hne
      obtain ⟨part, hpart⟩ := exists_isNearest hne
      obtain ⟨hfew, hfirst⟩ := hreach part hpart
      obtain ⟨first, hget, halive⟩ := (any_eq_true _ _).1 hfirst
      have hlow := (mem_partsBelow.1 ((mem_livePartsBelow hc).1 hpart.live).1).2.2.2
      rw [hno first (firstPart_mem_candidates hc hlow hget hfew)] at halive
      cases halive
  | some candidate =>
    have hclive : candidate ∈ livePartsBelow db platformSessionId platformConversationId tlMessageId :=
      (mem_livePartsBelow hc).2
        ⟨Windows.mem_of_mem_window (mem_of_find?_eq_some hfind), find?_some hfind⟩
    have hne : livePartsBelow db platformSessionId platformConversationId tlMessageId ≠ [] := ne_nil_of_mem hclive
    obtain ⟨nearest, hnearest⟩ := exists_isNearest hne
    rw [bind_some, findProjectedByTlId_eq]
    have heq : ∀ part, IsNearest db platformSessionId platformConversationId tlMessageId part →
        candidate.tlMessageId = part.tlMessageId := fun part hpart => (candidate_nearest hc hfind hpart).1
    cases hread : (firstPart db platformSessionId platformConversationId candidate.tlMessageId).bind (fun part =>
        projectedMessage contentOf db part.messageId) with
    | none =>
      refine iff_of_false hne (fun hreach => ?_)
      have hfirst := (hreach nearest hnearest).2
      rw [← heq nearest hnearest, any_isAlive contentOf, hread] at hfirst
      cases hfirst
    | some message =>
      obtain ⟨first, hget, hmessage⟩ := bind_eq_some_iff.1 hread
      have halive : isAlive db first = true := by
        rw [← projectedMessage_isSome contentOf, hmessage]
        rfl
      obtain ⟨hrow, hs, hcid, hn⟩ := firstPart_some hc hget
      have hclow := (mem_partsBelow.1 ((mem_livePartsBelow hc).1 hclive).1).2.2.2
      refine iff_of_true ⟨first, ⟨?_, fun other hother => ?_⟩, hmessage⟩ (fun part hpart => ⟨?_, ?_⟩)
      · exact (mem_livePartsBelow hc).2 ⟨mem_partsBelow.2 ⟨hrow, hs, hcid, by omega⟩, halive⟩
      · rw [hn, heq nearest hnearest]
        exact hnearest.greatest other hother
      · exact (candidate_nearest hc hfind hpart).2
      · rw [← heq part hpart, hget]
        exact halive

/-! ## The newest message -/

theorem newestBelow_eq : newestBelow db platformSessionId platformConversationId tlMessageId =
    (newestMessages db conversation 1).head?.filter (fun newest =>
      (partsOf db.tables.parts newest.id).head?.any (fun part => part.tlMessageId < tlMessageId)) := by
  unfold newestBelow
  rw [hc]
  rfl

omit hc in
theorem projectedMessage_of_newest (contentOf : Json → HydratedContent) {limit : Nat} {row : IMMessageRow}
    (h : row ∈ newestMessages db conversation limit) :
    ∃ message, projectedMessage contentOf db row.id = some message := by
  obtain ⟨hmem, hp⟩ := mem_filter.1 (Windows.mem_of_mem_window h)
  unfold projectedMessage MessageTables.messageById
  have hfirst : db.tables.messages.first (fun other => other.id = row.id) = some row := Table.first_id_of_mem hmem
  rw [hfirst]
  simp [Option.filter, (of_decide_eq_true hp).2]

theorem readProjectedHistory_newest (contentOf : Json → HydratedContent) :
    (readProjectedHistory contentOf db platformSessionId platformConversationId 1).head?.filter
        (fun newest => newest.parts.head?.any (fun part => part.tlMessageId < tlMessageId)) =
      (newestBelow db platformSessionId platformConversationId tlMessageId).bind (fun newest =>
        projectedMessage contentOf db newest.id) := by
  have hlength : (newestMessages db conversation 1).length ≤ 1 := Windows.length_window_le _ _
  have hread : ∀ row ∈ newestMessages db conversation 1, ∃ message, projectedMessage contentOf db row.id = some message :=
    fun row hrow => projectedMessage_of_newest contentOf hrow
  rw [newestBelow_eq hc]
  unfold readProjectedHistory
  rw [hc]
  dsimp only
  generalize newestMessages db conversation 1 = newest at hlength hread ⊢
  match newest, hlength with
  | [],    _ => rfl
  | [row], _ =>
    obtain ⟨message, hmessage⟩ := hread row mem_cons_self
    have hparts := projectedMessage_parts hmessage
    cases hany : (partsOf db.tables.parts row.id).head?.any (fun part => part.tlMessageId < tlMessageId) with
    | true  => simp [Option.filter, hparts, hmessage, hany]
    | false => simp [Option.filter, hparts, hmessage, hany]

end Conversation

/-! ## The search -/

/-- **The search finds the nearest live message exactly when it is in reach.** -/
theorem findProjectedBeforeTlId_nearest_iff (contentOf : Json → HydratedContent) (db : Database)
    (platformSessionId platformConversationId : String) {tlMessageId : Int} (h : 1 < tlMessageId) :
    FindsNearest db platformSessionId platformConversationId tlMessageId contentOf
        (findProjectedBeforeTlId contentOf db platformSessionId platformConversationId tlMessageId) ↔
      NearestInReach db platformSessionId platformConversationId tlMessageId := by
  unfold findProjectedBeforeTlId NearestInReach
  by_cases hsafe : isSafeInteger tlMessageId = false
  · rw [if_pos (Or.inl hsafe), if_pos hsafe]
    exact Iff.rfl
  rw [if_neg (by rintro (hc | hc); exacts [hsafe hc, by omega]), if_neg hsafe, findProjectedByTlId_eq]
  cases hc : db.conversations.first (isConversation platformSessionId platformConversationId) with
  | none =>
    have hno : ∀ part, ¬IsNearest db platformSessionId platformConversationId tlMessageId part := by
      intro part hpart
      have hlive := hpart.live
      unfold livePartsBelow at hlive
      rw [hc] at hlive
      cases hlive
    simp [firstPart, newestBelow, readProjectedHistory, hc, FindsNearest, livePartsBelow, hno]
  | some conversation =>
    cases hpreceding : (firstPart db platformSessionId platformConversationId (tlMessageId - 1)).bind (fun part =>
        projectedMessage contentOf db part.messageId) with
    | some message =>
      obtain ⟨part, hpart, hmessage⟩ := bind_eq_some_iff.1 hpreceding
      have halive : isAlive db part = true := by
        rw [← projectedMessage_isSome contentOf, hmessage]
        rfl
      refine iff_of_true ⟨part, isNearest_of_preceding hc hpart halive, hmessage⟩ (Or.inl ?_)
      rw [hpart]
      exact halive
    | none =>
      have hdead : ¬(firstPart db platformSessionId platformConversationId (tlMessageId - 1)).any (isAlive db) = true := by
        rw [any_isAlive contentOf, hpreceding]
        exact Bool.false_ne_true
      rw [or_iff_right hdead]
      dsimp only
      rw [readProjectedHistory_newest hc contentOf]
      cases hnewest : newestBelow db platformSessionId platformConversationId tlMessageId with
      | some newest =>
        have hmem : newest ∈ newestMessages db conversation 1 := by
          rw [newestBelow_eq hc] at hnewest
          exact mem_of_mem_head? (filter_eq_some_iff.1 hnewest).1
        obtain ⟨message, hmessage⟩ := projectedMessage_of_newest contentOf hmem
        rw [bind_some, hmessage]
        constructor
        · rintro ⟨part, hpart, hread⟩
          have hrow := (mem_partsBelow.1 ((mem_livePartsBelow hc).1 hpart.live).1).1
          exact ⟨part, hpart, messageId_of_projectedMessage hrow hread hmessage⟩
        · rintro ⟨part, hpart, hid⟩
          exact ⟨part, hpart, by rw [hid]; exact hmessage⟩
      | none => exact findsNearest_candidate hc contentOf

end Search

/-! ## Runs of a group -/

def recalledMessages (recalled : Nat) : List (MessageReader × StoreOperation) :=
  (List.range (recalled + 2)).map (fun i => (plainReader,
      .ingest plainSession plainGroup { plainMessage (toString i) [.text "" []] with timestamp := 1700000000 + i } .live)) ++
    [(plainReader, .deleteMessages plainSession plainGroup ((List.range recalled).map (fun i => toString (i + 1))))]

def recalledStore (recalled : Nat) : Database := Runs.final MessageStore.step Database.empty (recalledMessages recalled)

theorem findProjectedBeforeTlId_past_recalled :
    (findProjectedBeforeTlId (fun _ => { parts := [] }) (recalledStore 1) "session" "group" 1073741841).isSome = true ∧
      (FindsNearest (recalledStore 1) "session" "group" 1073741841 (fun _ => { parts := [] })
          (findProjectedBeforeTlId (fun _ => { parts := [] }) (recalledStore 1) "session" "group" 1073741841) ↔
        NearestInReach (recalledStore 1) "session" "group" 1073741841) :=
  ⟨by decide +kernel, findProjectedBeforeTlId_nearest_iff _ _ _ _ (by decide)⟩

/-- **Sixteen recalled messages hide the live one below them.** -/
theorem findProjectedBeforeTlId_misses : ¬∀ (db : Database) (tlMessageId : Int), 1 < tlMessageId →
    FindsNearest db "session" "group" tlMessageId (fun _ => { parts := [] })
      (findProjectedBeforeTlId (fun _ => { parts := [] }) db "session" "group" tlMessageId) := by
  intro hall
  have hrun : (findProjectedBeforeTlId (fun _ => { parts := [] }) (recalledStore 16) "session" "group" 1073742081).isNone = true ∧
      (livePartsBelow (recalledStore 16) "session" "group" 1073742081).length = 1 := by decide +kernel
  obtain ⟨hnone, hlive⟩ := hrun
  rw [isNone_iff_eq_none] at hnone
  generalize recalledStore 16 = db at hnone hlive
  have hfound := hall db 1073742081 (by decide)
  exact not_findsNearest_none hnone hlive hfound

end Crossgram
