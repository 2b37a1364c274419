import Crossgram.DialogPersistence
/-!
# MessageViews — what a reader sees of a stored message, and what storing it again does to that

A view is what `hydrateMessage` shows of a row, JSON up to the order of fields and reactions by their keys.  Storing a
message again in the row it is found in either leaves the row and takes the reactions over, or writes what the message
reports (`MessageView.settled`).  `Agrees` is when that changes nothing.
-/
namespace Crossgram

/-! ## Views -/

structure ReactionValue where
  count : Nat
  selected : Bool
  selectedOrder : Nat
  recentActors : List String
  definition : Json

def IMMessageReactionRow.value (row : IMMessageReactionRow) : ReactionValue :=
  { count := row.count, selected := row.selected, selectedOrder := row.selectedOrder, recentActors := row.recentActors
    definition := row.definition.canonical }

def MessageTables.reactionAt (t : MessageTables) (messageId : Nat) (key : String) : Option ReactionValue :=
  (t.reactions.first (fun row => isReaction messageId key row && isRecord row.definition)).map IMMessageReactionRow.value

@[ext] structure MessageView where
  sender : Option String
  content : Json
  outgoing : Bool
  recalled : Bool
  replyToId : Option String
  metadata : String → Option Json
  reactions : String → Option ReactionValue

def senderOf (users : Table IMUserRow) (row : IMMessageRow) : Option String :=
  (users.first (fun user => user.id = row.senderUserId)).map (fun user => user.platformUserId)

def messageView (users : Table IMUserRow) (t : MessageTables) (row : IMMessageRow) : MessageView :=
  { sender := senderOf users row
    content := row.content.canonical
    outgoing := row.outgoing
    recalled := hydratedFlag (Json.property (.obj row.metadata) storedRecalledKey)
    replyToId := hydratedString (Json.property (.obj row.metadata) storedReplyToKey)
    metadata := fun key => (Json.property (.obj (hydratedMetadata row.metadata)) key).map Json.canonical
    reactions := t.reactionAt row.id }

def isPublicMessageKey (key : String) : Bool :=
  key ≠ storedReplyToKey ∧ key ≠ storedSenderTitleKey ∧ key ≠ storedRecalledKey

/-- The key `_replaceReactions` writes to the metadata. -/
def reactionMaxSelectedKey : String := "reactionMaxSelected"

def IMMessage.reported (source : IMMessage) (key : String) : Option Json :=
  Json.property (.obj (Json.spread [] (messageMetadata source))) key

def IMReactionContext.offered (context : IMReactionContext) : List (String × Json) :=
  Maps.ofList (context.available.map (fun d => (d.key, d.toJson)))

def IMReactionContext.reactionFor (context : IMReactionContext) (key : String) (stored : Option ReactionValue) :
    Option ReactionValue :=
  (Maps.get context.summaries key).bind (fun s =>
    (((Maps.get context.offered key).map Json.canonical).or (stored.map (fun r => r.definition))).map (fun definition =>
      { count := s.count, selected := s.selected, selectedOrder := s.selectedOrder, recentActors := s.recentActors
        definition := definition }))

namespace MessageView

variable (v : MessageView)

def written (source : IMMessage) : MessageView :=
  { sender := some source.senderId
    content := (persistMessageContent source.content).canonical
    outgoing := source.outgoing
    recalled := ((source.reported storedRecalledKey).map (fun j => hydratedFlag (some j))).getD v.recalled
    replyToId := ((source.reported storedReplyToKey).map (fun j => hydratedString (some j))).getD v.replyToId
    metadata := fun key =>
      if isPublicMessageKey key then ((source.reported key).map Json.canonical).or (v.metadata key) else v.metadata key
    reactions := v.reactions }

def reacted : Option IMReactionContext → MessageView
  | none         => v
  | some context => { v with
      metadata := fun key => if key = reactionMaxSelectedKey then some (.num context.maxSelected) else v.metadata key
      reactions := fun key => context.reactionFor key (v.reactions key) }

def settled (kept : Bool) (source : IMMessage) : MessageView :=
  (if kept then v else v.written source).reacted source.reactionContext

end MessageView

/-! ## Agreement -/

structure ReactionMatches (context : IMReactionContext) (key : String) (stored : Option ReactionValue) : Prop where
  shown : ∀ r, stored = some r → ∃ s, Maps.get context.summaries key = some s ∧ s.count = r.count ∧
    s.selected = r.selected ∧ s.selectedOrder = r.selectedOrder ∧ s.recentActors = r.recentActors
  defined : ∀ r d, stored = some r → Maps.get context.offered key = some d → d.canonical = r.definition
  absent : stored = none → Maps.get context.summaries key = none ∨ Maps.get context.offered key = none

structure RestatesReactions (context : IMReactionContext) (v : MessageView) : Prop where
  maxSelected : v.metadata reactionMaxSelectedKey = some (.num context.maxSelected)
  reactions : ∀ key, ReactionMatches context key (v.reactions key)

structure Restates (source : IMMessage) (v : MessageView) : Prop where
  sender : v.sender = some source.senderId
  content : v.content = (persistMessageContent source.content).canonical
  outgoing : v.outgoing = source.outgoing
  recalled : ∀ j, source.reported storedRecalledKey = some j → v.recalled = hydratedFlag (some j)
  replyToId : ∀ j, source.reported storedReplyToKey = some j → v.replyToId = hydratedString (some j)
  metadata : ∀ key j, isPublicMessageKey key = true →
    (source.reactionContext.isSome = true → key ≠ reactionMaxSelectedKey) →
    source.reported key = some j → v.metadata key = some j.canonical

structure Agrees (kept : Bool) (source : IMMessage) (v : MessageView) : Prop where
  restates : kept = true ∨ Restates source v
  reactions : ∀ context, source.reactionContext = some context → RestatesReactions context v

variable {context : IMReactionContext}

theorem reactionFor_eq_iff {key : String} {stored : Option ReactionValue} :
    context.reactionFor key stored = stored ↔ ReactionMatches context key stored := by
  unfold IMReactionContext.reactionFor
  constructor
  · intro h
    refine ⟨fun r hr => ?_, fun r d hr hd => ?_, fun hr => ?_⟩
    · subst hr
      obtain ⟨s, hs, hmap⟩ := Option.bind_eq_some_iff.1 h
      obtain ⟨definition, -, rfl⟩ := Option.map_eq_some_iff.1 hmap
      exact ⟨s, hs, rfl, rfl, rfl, rfl⟩
    · subst hr
      obtain ⟨s, -, hmap⟩ := Option.bind_eq_some_iff.1 h
      rw [hd] at hmap
      obtain ⟨definition, hdef, rfl⟩ := Option.map_eq_some_iff.1 hmap
      exact Option.some.inj hdef
    · subst hr
      cases hs : Maps.get context.summaries key with
      | none => exact Or.inl rfl
      | some s =>
        rw [hs] at h
        refine Or.inr ?_
        cases hd : Maps.get context.offered key with
        | none => rfl
        | some d => rw [hd] at h; cases h
  · rintro ⟨hshown, hdefined, habsent⟩
    cases hr : stored with
    | none =>
      rcases habsent hr with hs | hd
      · rw [hs]; rfl
      · rw [hd]
        cases Maps.get context.summaries key <;> rfl
    | some r =>
      obtain ⟨s, hs, hcount, hsel, horder, hactors⟩ := hshown r hr
      rw [hs, Option.bind_some, hcount, hsel, horder, hactors]
      cases hd : Maps.get context.offered key with
      | none => rfl
      | some d =>
        have hdef : d.canonical = r.definition := hdefined r d hr hd
        rw [Option.map_some, hdef]
        rfl

variable {v : MessageView}

theorem reacted_maxSelected :
    (v.reacted (some context)).metadata reactionMaxSelectedKey = some (.num context.maxSelected) := by
  show (if reactionMaxSelectedKey = reactionMaxSelectedKey then some (Json.num context.maxSelected)
    else v.metadata reactionMaxSelectedKey) = _
  exact if_pos rfl

theorem reacted_eq_iff :
    v.reacted (some context) = v ↔ RestatesReactions context v := by
  constructor
  · intro h
    have hmetadata := congrArg MessageView.metadata h
    have hreactions := congrArg MessageView.reactions h
    refine ⟨?_, fun key => reactionFor_eq_iff.1 (congrFun hreactions key)⟩
    exact (congrFun hmetadata reactionMaxSelectedKey).symm.trans reacted_maxSelected
  · rintro ⟨hmax, hreactions⟩
    refine MessageView.ext rfl rfl rfl rfl rfl (funext fun key => ?_)
      (funext fun key => reactionFor_eq_iff.2 (hreactions key))
    by_cases hkey : key = reactionMaxSelectedKey
    · subst hkey
      exact reacted_maxSelected.trans hmax.symm
    · exact if_neg hkey

theorem reacted_all_eq_iff {context : Option IMReactionContext} :
    v.reacted context = v ↔ ∀ c, context = some c → RestatesReactions c v := by
  cases context with
  | none => exact ⟨fun _ c hc => (by cases hc), fun _ => rfl⟩
  | some context =>
    rw [reacted_eq_iff]
    exact ⟨fun h c hc => Option.some.inj hc ▸ h, fun h => h context rfl⟩

namespace MessageView

variable {v : MessageView} {context : Option IMReactionContext} {source : IMMessage}

@[simp] theorem reacted_sender : (v.reacted context).sender = v.sender := by cases context <;> rfl

@[simp] theorem reacted_content : (v.reacted context).content = v.content := by cases context <;> rfl

@[simp] theorem reacted_outgoing : (v.reacted context).outgoing = v.outgoing := by cases context <;> rfl

@[simp] theorem reacted_recalled : (v.reacted context).recalled = v.recalled := by cases context <;> rfl

@[simp] theorem reacted_replyToId : (v.reacted context).replyToId = v.replyToId := by cases context <;> rfl

theorem reacted_metadata_other {key : String} (h : context.isSome = true → key ≠ reactionMaxSelectedKey) :
    (v.reacted context).metadata key = v.metadata key := by
  cases context with
  | none => rfl
  | some context => exact if_neg (h rfl)

theorem getD_eq_iff {α β : Type} {o : Option α} {f : α → β} {b : β} :
    (o.map f).getD b = b ↔ ∀ a, o = some a → b = f a := by
  cases o with
  | none => exact ⟨fun _ a ha => (by cases ha), fun _ => rfl⟩
  | some a => exact ⟨fun h _ ha => Option.some.inj ha ▸ h.symm, fun h => (h a rfl).symm⟩

theorem written_metadata_iff {key : String} : (v.written source).metadata key = v.metadata key ↔
    ∀ j, isPublicMessageKey key = true → source.reported key = some j → v.metadata key = some j.canonical := by
  unfold written
  dsimp only
  split
  · rename_i hpublic
    cases hj : source.reported key with
    | none => exact ⟨fun _ j _ hc => (by cases hc), fun _ => rfl⟩
    | some j =>
      refine ⟨fun h j' _ hj' => ?_, fun h => (h j hpublic rfl).symm⟩
      cases hj'
      exact h.symm
  · rename_i hpublic
    exact ⟨fun _ j hc => absurd hc hpublic, fun _ => rfl⟩

/-- **Storing a message again leaves its row as it is seen exactly where the message agrees with it.** -/
theorem settled_eq_iff {kept : Bool} : v.settled kept source = v ↔ Agrees kept source v := by
  unfold settled
  cases kept with
  | true =>
    rw [if_pos rfl, reacted_all_eq_iff]
    exact ⟨fun h => ⟨Or.inl rfl, h⟩, fun h => h.reactions⟩
  | false =>
    rw [if_neg Bool.false_ne_true]
    constructor
    · intro h
      have hmetadata : ∀ key, ((v.written source).reacted source.reactionContext).metadata key = v.metadata key :=
        fun key => by rw [h]
      refine ⟨Or.inr ⟨?_, ?_, ?_, ?_, ?_, fun key j hpublic hother hj => ?_⟩, fun c hc => ?_⟩
      · rw [← h, reacted_sender]; rfl
      · rw [← h, reacted_content]; rfl
      · rw [← h, reacted_outgoing]; rfl
      · have hrecalled := congrArg MessageView.recalled h
        rw [reacted_recalled] at hrecalled
        exact getD_eq_iff.1 hrecalled
      · have hreply := congrArg MessageView.replyToId h
        rw [reacted_replyToId] at hreply
        exact getD_eq_iff.1 hreply
      · have hkey := hmetadata key
        rw [reacted_metadata_other hother] at hkey
        exact written_metadata_iff.1 hkey j hpublic hj
      · rw [hc] at h hmetadata
        have hreactions := congrArg MessageView.reactions h
        refine ⟨?_, fun key => reactionFor_eq_iff.1 (congrFun hreactions key)⟩
        exact (hmetadata reactionMaxSelectedKey).symm.trans reacted_maxSelected
    · rintro ⟨hkept | hsame, hreactions⟩
      · cases hkept
      refine MessageView.ext ?_ ?_ ?_ ?_ ?_ (funext fun key => ?_) ?_
      · rw [reacted_sender, hsame.sender]; rfl
      · rw [reacted_content, hsame.content]; rfl
      · rw [reacted_outgoing, hsame.outgoing]; rfl
      · rw [reacted_recalled]
        exact getD_eq_iff.2 hsame.recalled
      · rw [reacted_replyToId]
        exact getD_eq_iff.2 hsame.replyToId
      · by_cases hkey : source.reactionContext.isSome = true ∧ key = reactionMaxSelectedKey
        · obtain ⟨hsome, rfl⟩ := hkey
          obtain ⟨c, hc⟩ := Option.isSome_iff_exists.1 hsome
          rw [hc]
          exact reacted_maxSelected.trans (hreactions c hc).maxSelected.symm
        · have hother : source.reactionContext.isSome = true → key ≠ reactionMaxSelectedKey :=
            fun hsome heq => hkey ⟨hsome, heq⟩
          rw [reacted_metadata_other hother]
          exact written_metadata_iff.2 (fun j hpublic hj => hsame.metadata key j hpublic hother hj)
      · cases hc : source.reactionContext with
        | none => rfl
        | some c => exact funext fun key => reactionFor_eq_iff.2 ((hreactions c hc).reactions key)

end MessageView

end Crossgram
