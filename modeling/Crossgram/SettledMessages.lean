import Crossgram.MessageViews
import Crossgram.MessageRewrites
/-!
# SettledMessages — a message stored in the row it is found in (packages/bridge/src/message-store.ts)

`_replaceReactions` leaves of each key what the context says of it; the update of a row spreads the metadata a message
reports over the stored one.  So the row is seen afterwards as `MessageView.settled` says, and no other row is touched.
-/
namespace Crossgram

open Maps List
open Results (bind_ok)

/-! ## Reactions replaced -/

section Reactions

variable {context : IMReactionContext} {key : String}

def IMReactionContext.keepDefinition (context : IMReactionContext) (definitions : List (String × Json))
    (row : IMMessageReactionRow) : List (String × Json) :=
  if !Maps.has definitions row.nativeReactionKey && Maps.has context.summaries row.nativeReactionKey
      && isRecord row.definition then Maps.set definitions row.nativeReactionKey row.definition
  else definitions

theorem definitions_eq (context : IMReactionContext) (existing : List IMMessageReactionRow) :
    context.definitions existing = existing.foldl context.keepDefinition
      (Maps.ofList ((context.available.filter (fun d => Maps.has context.summaries d.key)).map
        (fun d => (d.key, d.toJson)))) := rfl

def definedUnder (key : String) (row : IMMessageReactionRow) : Bool :=
  decide (row.nativeReactionKey = key) && isRecord row.definition

theorem get_keepDefinitions : ∀ (rows : List IMMessageReactionRow) (definitions : List (String × Json)),
    Maps.get (rows.foldl context.keepDefinition definitions) key = (Maps.get definitions key).or
      (if Maps.has context.summaries key = true then (rows.find? (definedUnder key)).map (fun row => row.definition)
      else none)
  | [], definitions => by simp
  | row :: rows, definitions => by
    rw [foldl_cons, get_keepDefinitions rows, find?_cons]
    by_cases hk : row.nativeReactionKey = key
    · subst hk
      cases hhas : Maps.has context.summaries row.nativeReactionKey with
      | false => simp [IMReactionContext.keepDefinition, hhas]
      | true =>
        cases hrecord : isRecord row.definition with
        | false => simp [IMReactionContext.keepDefinition, definedUnder, hrecord]
        | true =>
          cases hget : Maps.get definitions row.nativeReactionKey with
          | none => simp [IMReactionContext.keepDefinition, definedUnder, hhas, hrecord, has_eq_isSome, hget]
          | some d => simp [IMReactionContext.keepDefinition, has_eq_isSome, hget]
    · have hother : Maps.get (context.keepDefinition definitions row) key = Maps.get definitions key := by
        unfold IMReactionContext.keepDefinition
        split
        · rw [get_set, if_neg (Ne.symm hk)]
        · rfl
      rw [hother]
      simp [definedUnder, hk]

theorem get_offered_shown : Maps.get (Maps.ofList ((context.available.filter (fun d =>
      Maps.has context.summaries d.key)).map (fun d => (d.key, d.toJson)))) key =
    if Maps.has context.summaries key = true then Maps.get context.offered key else none := by
  have hfilter : (context.available.filter (fun d => Maps.has context.summaries d.key)).map (fun d => (d.key, d.toJson)) =
      (context.available.map (fun d => (d.key, d.toJson))).filter (fun e => Maps.has context.summaries e.1) := by
    rw [filter_map]
    rfl
  rw [hfilter, get_ofList, ← filter_reverse, get_filter_keys, IMReactionContext.offered, get_ofList]

/-- **The definition stored under a key**: of a shown reaction, as the context offers it or as it was stored. -/
theorem get_definitions (existing : List IMMessageReactionRow) : Maps.get (context.definitions existing) key =
    if Maps.has context.summaries key = true then
      (Maps.get context.offered key).or ((existing.find? (definedUnder key)).map (fun row => row.definition))
    else none := by
  rw [definitions_eq, get_keepDefinitions, get_offered_shown]
  by_cases hhas : Maps.has context.summaries key = true
  · rw [if_pos hhas, if_pos hhas, if_pos hhas]
  · rw [if_neg hhas, if_neg hhas, if_neg hhas, Option.or_none]

theorem distinct_definitions (existing : List IMMessageReactionRow) : Maps.Distinct (context.definitions existing) := by
  rw [definitions_eq]
  refine List.foldlRecOn existing _ (distinct_ofList _) (fun definitions hd row _ => ?_)
  unfold IMReactionContext.keepDefinition
  split
  · exact hd.set _ _
  · exact hd

theorem isRecord_definitions {existing : List IMMessageReactionRow} {d : Json}
    (h : Maps.get (context.definitions existing) key = some d) : isRecord d = true := by
  rw [get_definitions] at h
  split at h
  · cases ho : Maps.get context.offered key with
    | some d' =>
      rw [ho] at h
      cases h
      obtain ⟨definition, -, he⟩ := mem_map.1 (mem_of_mem_ofList (mem_of_get ho))
      cases he
      rfl
    | none =>
      rw [ho] at h
      obtain ⟨row, hrow, rfl⟩ := Option.map_eq_some_iff.1 h
      have hdefined := find?_some hrow
      rw [definedUnder, Bool.and_eq_true] at hdefined
      exact hdefined.2
  · cases h

variable {t : MessageTables} {messageId : Nat}

theorem find_reactionsOf : (t.reactionsOf messageId).find? (definedUnder key) =
    t.reactions.first (fun row => isReaction messageId key row && isRecord row.definition) := by
  unfold MessageTables.reactionsOf Table.get Table.first
  rw [find?_filter]
  refine find?_congr (fun row _ => ?_)
  simp [definedUnder, isReaction, Bool.and_assoc]

theorem reactionFor_eq : context.reactionFor key (t.reactionAt messageId key) =
    (Maps.get context.summaries key).bind (fun s =>
      (Maps.get (context.definitions (t.reactionsOf messageId)) key).map (fun d =>
        ReactionValue.mk s.count s.selected s.selectedOrder s.recentActors d.canonical)) := by
  unfold IMReactionContext.reactionFor
  cases hs : Maps.get context.summaries key with
  | none => rfl
  | some s =>
    have hhas : Maps.has context.summaries key = true := by rw [has_eq_isSome, hs]; rfl
    rw [get_definitions, if_pos hhas, find_reactionsOf, MessageTables.reactionAt]
    cases Maps.get context.offered key with
    | some d => rfl
    | none =>
      cases t.reactions.first (fun row => isReaction messageId key row && isRecord row.definition) <;> rfl

/-- **The reactions of a message after they are replaced.** -/
theorem reactionAt_replaceReactions : (replaceReactions t messageId (some context)).reactionAt messageId key =
    context.reactionFor key (t.reactionAt messageId key) := by
  rw [reactionFor_eq]
  have hdistinct : Maps.Distinct (context.definitions (t.reactionsOf messageId)) := distinct_definitions _
  -- a row of the message under the key is the one that is written
  have hwritten : ∀ r ∈ (replaceReactions t messageId (some context)).reactions.rows,
      isReaction messageId key r = true → ∃ d n, Maps.get (context.definitions (t.reactionsOf messageId)) key = some d ∧
        r = reactionRow messageId context.summaries key d n := by
    intro r hr hkey
    obtain ⟨hm, hk⟩ := isReaction_iff.1 hkey
    rcases mem_replaceReactions hr with ⟨-, hne⟩ | ⟨e, he, n, rfl⟩
    · exact absurd hm hne
    · have hek : e.1 = key := hk
      subst hek
      exact ⟨e.2, n, get_of_mem hdistinct he, rfl⟩
  cases hd : Maps.get (context.definitions (t.reactionsOf messageId)) key with
  | none =>
    have hnone : (replaceReactions t messageId (some context)).reactionAt messageId key = none := by
      unfold MessageTables.reactionAt
      rw [Option.map_eq_none_iff, Table.first_eq_none]
      intro r hr
      rw [Bool.and_eq_false_iff]
      left
      rw [Bool.eq_false_iff]
      intro hkey
      obtain ⟨d, n, hget, -⟩ := hwritten r hr hkey
      rw [hd] at hget
      cases hget
    rw [hnone]
    cases Maps.get context.summaries key <;> rfl
  | some d =>
    have hshown : Maps.has context.summaries key = true := by
      by_contra hno
      rw [get_definitions, if_neg hno] at hd
      cases hd
    obtain ⟨s, hs⟩ := Option.isSome_iff_exists.1 (has_eq_isSome context.summaries key ▸ hshown)
    have hexists : ∃ n, reactionRow messageId context.summaries key d n ∈
        (replaceReactions t messageId (some context)).reactions.rows :=
      exists_mem_upsertReactions _ hdistinct (mem_of_get hd)
    obtain ⟨n, hn⟩ := hexists
    have hrecord : isRecord d = true := isRecord_definitions hd
    unfold MessageTables.reactionAt
    cases hfirst : (replaceReactions t messageId (some context)).reactions.first
        (fun row => isReaction messageId key row && isRecord row.definition) with
    | none =>
      have hno := Table.first_eq_none.1 hfirst _ hn
      have hkey : isReaction messageId key (reactionRow messageId context.summaries key d n) = true :=
        isReaction_iff.2 ⟨rfl, rfl⟩
      rw [hkey, Bool.true_and] at hno
      exact absurd hrecord (by rw [Bool.not_eq_true]; exact hno)
    | some r =>
      obtain ⟨hr, hq⟩ := Table.mem_of_first hfirst
      rw [Bool.and_eq_true] at hq
      obtain ⟨d', n', hget, rfl⟩ := hwritten r hr hq.1
      rw [hd] at hget
      cases hget
      simp [reactionRow, IMMessageReactionRow.value, hs]

theorem reactionAt_replaceReactions_of_other {id : Nat} (h : id ≠ messageId) (context : Option IMReactionContext) :
    (replaceReactions t messageId context).reactionAt id key = t.reactionAt id key := by
  cases context with
  | none => rfl
  | some context =>
    have hupsert : ∀ (definitions : List (String × Json)) (reactions : Table IMMessageReactionRow),
        (upsertReactions messageId context.summaries definitions reactions).first
          (fun row => isReaction id key row && isRecord row.definition) =
        reactions.first (fun row => isReaction id key row && isRecord row.definition) := by
      intro definitions
      induction definitions with
      | nil => exact fun _ => rfl
      | cons e definitions ih =>
        intro reactions
        refine (ih _).trans (Table.first_upsert_of_other (fun row _ hrow => ?_) (fun n => ?_))
        · have hm := (isReaction_iff.1 hrow).1
          simp [isReaction, reactionRow, hm, Ne.symm h]
        · simp [isReaction, reactionRow, Ne.symm h]
    unfold MessageTables.reactionAt
    refine congrArg (Option.map IMMessageReactionRow.value)
      ((hupsert _ _).trans (Table.first_remove_of_other (fun row _ hrow => ?_)))
    have hm : row.messageId = messageId := by
      rw [decide_eq_true_eq] at hrow
      exact hrow.1
    simp [isReaction, hm, Ne.symm h]

end Reactions

/-! ## The row after a message is stored in it -/

def IMMessageRow.reacted (row : IMMessageRow) : Option IMReactionContext → IMMessageRow
  | none         => row
  | some context => { row with
      metadata := Json.setField row.metadata reactionMaxSelectedKey (.num context.maxSelected) }

theorem property_hydratedMetadata (metadata : JsonObject) (key : String) :
    Json.property (.obj (hydratedMetadata metadata)) key =
      if isPublicMessageKey key = true then Json.property (.obj metadata) key else none :=
  Json.property_filter isPublicMessageKey metadata key

section Views

variable {users users' : Table IMUserRow} {t t' : MessageTables} {row : IMMessageRow} {source : IMMessage}

theorem messageView_reacted (users : Table IMUserRow) (t : MessageTables) (row : IMMessageRow)
    (context : Option IMReactionContext) :
    messageView users (replaceReactions t row.id context) (row.reacted context) =
      (messageView users t row).reacted context := by
  cases context with
  | none => rfl
  | some context =>
    have hrecalled : storedRecalledKey ≠ reactionMaxSelectedKey := by decide
    have hreply : storedReplyToKey ≠ reactionMaxSelectedKey := by decide
    refine MessageView.ext rfl rfl rfl ?_ ?_ (funext fun key => ?_) (funext fun key => reactionAt_replaceReactions)
    · simp [messageView, IMMessageRow.reacted, MessageView.reacted, hrecalled]
    · simp [messageView, IMMessageRow.reacted, MessageView.reacted, hreply]
    · simp only [messageView, IMMessageRow.reacted, MessageView.reacted, property_hydratedMetadata, Json.property_setField]
      by_cases hkey : key = reactionMaxSelectedKey
      · have hpublic : isPublicMessageKey reactionMaxSelectedKey = true := by decide
        subst hkey
        rw [if_pos hpublic, if_pos rfl, if_pos rfl]
        rfl
      · rw [if_neg hkey, if_neg hkey]

theorem messageView_written {reader : MessageReader} {senderUserId searchKinds : Nat}
    (hreactions : ∀ key, t'.reactionAt row.id key = t.reactionAt row.id key)
    (hsender : (users'.first (fun user => user.id = senderUserId)).map (fun user => user.platformUserId) =
      some source.senderId) :
    messageView users' t' (writeMessage reader source senderUserId searchKinds
        (Json.spread row.metadata (messageMetadata source)) row) = (messageView users t row).written source := by
  refine MessageView.ext hsender rfl rfl ?_ ?_ (funext fun key => ?_) (funext hreactions)
  · show hydratedFlag (Json.property (.obj (Json.spread row.metadata (messageMetadata source))) storedRecalledKey) = _
    rw [Json.property_spread]
    show hydratedFlag ((source.reported storedRecalledKey).or _) =
      ((source.reported storedRecalledKey).map (fun j => hydratedFlag (some j))).getD _
    cases source.reported storedRecalledKey <;> rfl
  · show hydratedString (Json.property (.obj (Json.spread row.metadata (messageMetadata source))) storedReplyToKey) = _
    rw [Json.property_spread]
    show hydratedString ((source.reported storedReplyToKey).or _) =
      ((source.reported storedReplyToKey).map (fun j => hydratedString (some j))).getD _
    cases source.reported storedReplyToKey <;> rfl
  · show (Json.property (.obj (hydratedMetadata (Json.spread row.metadata (messageMetadata source)))) key).map
        Json.canonical =
      if isPublicMessageKey key then ((source.reported key).map Json.canonical).or
        ((Json.property (.obj (hydratedMetadata row.metadata)) key).map Json.canonical)
      else (Json.property (.obj (hydratedMetadata row.metadata)) key).map Json.canonical
    rw [property_hydratedMetadata, property_hydratedMetadata, Json.property_spread]
    by_cases hpublic : isPublicMessageKey key = true
    · rw [if_pos hpublic, if_pos hpublic, if_pos hpublic]
      show ((source.reported key).or _).map Json.canonical = _
      cases source.reported key <;> rfl
    · rw [if_neg hpublic, if_neg hpublic, if_neg hpublic]

end Views

/-! ## One message -/

structure Touches (id : Nat) (f : IMMessageRow → IMMessageRow) (t t' : MessageTables) : Prop where
  rows : t'.messages.rows = t.messages.rows.map (fun row => if row.id = id then f row else row)
  nextId : t'.messages.nextId = t.messages.nextId
  keyed : ∀ row, (f row).id = row.id ∧ (f row).platformSessionId = row.platformSessionId ∧
    (f row).conversationId = row.conversationId ∧ (f row).primaryPlatformMessageId = row.primaryPlatformMessageId
  reactions : ∀ other key, other ≠ id → t'.reactionAt other key = t.reactionAt other key

theorem replaceReactions_rows (t : MessageTables) (id : Nat) (context : Option IMReactionContext) :
    (replaceReactions t id context).messages.rows =
      t.messages.rows.map (fun row => if row.id = id then row.reacted context else row) := by
  cases context with
  | none => simp [replaceReactions, IMMessageRow.reacted]
  | some context => simp [replaceReactions, Table.set, IMMessageRow.reacted, reactionMaxSelectedKey]

theorem replaceReactions_nextId (t : MessageTables) (id : Nat) (context : Option IMReactionContext) :
    (replaceReactions t id context).messages.nextId = t.messages.nextId := by
  cases context <;> rfl

theorem replaceReactions_aliases (t : MessageTables) (id : Nat) (context : Option IMReactionContext) :
    (replaceReactions t id context).aliases = t.aliases := by
  cases context <;> rfl

theorem Touches.replaceReactions {id : Nat} {f : IMMessageRow → IMMessageRow} {t t' : MessageTables}
    (h : Touches id f t t') (context : Option IMReactionContext) :
    Touches id (fun row => (f row).reacted context) t (replaceReactions t' id context) where
  rows := by
    rw [replaceReactions_rows, h.rows, map_map]
    refine map_congr_left (fun row _ => ?_)
    have hid : (f row).id = row.id := (h.keyed row).1
    by_cases hrow : row.id = id
    · simp [hrow, hid]
    · simp [hrow]
  nextId := (replaceReactions_nextId _ _ _).trans h.nextId
  keyed := fun row => by cases context <;> exact h.keyed row
  reactions := fun other key hother =>
    (reactionAt_replaceReactions_of_other hother context).trans (h.reactions other key hother)

theorem touches_of_set {id : Nat} {f : IMMessageRow → IMMessageRow} {t t' : MessageTables}
    (hf : ∀ row, Row.id (f row) = Row.id row) (hkeyed : ∀ row, (f row).platformSessionId = row.platformSessionId ∧
      (f row).conversationId = row.conversationId ∧ (f row).primaryPlatformMessageId = row.primaryPlatformMessageId)
    (hmessages : t'.messages = t.messages.set (fun row => row.id = id) f hf) (hreactions : t'.reactions = t.reactions) :
    Touches id f t t' where
  rows := by
    rw [hmessages]
    simp [Table.set]
  nextId := by rw [hmessages]; rfl
  keyed := fun row => ⟨hf row, hkeyed row⟩
  reactions := fun other key _ => by rw [MessageTables.reactionAt, hreactions]; rfl

theorem touches_refl (id : Nat) (t : MessageTables) : Touches id (fun row => row) t t where
  rows := by simp
  nextId := rfl
  keyed := fun _ => ⟨rfl, rfl, rfl, rfl⟩
  reactions := fun _ _ _ => rfl

namespace Projecting

variable {p : Projecting}

theorem aliases_ensureProjection {t t' : MessageTables} {cache cache' : List (String × Int)} {projected : Projected}
    (h : p.ensureProjection t cache = .ok ((t', cache'), projected)) :
    t'.aliases = t.aliases ∧ t'.reactions = t.reactions := by
  obtain ⟨-, ⟨t₁, t₂, groupedId, hgroup, hadd, rfl⟩, -, -⟩ := steps h
  have h₁ : t₁.aliases = t.aliases ∧ t₁.reactions = t.reactions := by
    obtain ⟨counters, parts, rfl, -⟩ := regroup_ok hgroup
    exact ⟨rfl, rfl⟩
  rcases addParts_ok hadd with ⟨-, rfl, -, -⟩ | ⟨-, preferredId, epochs, -, -, rfl⟩
  · exact h₁
  · exact h₁

end Projecting

def staysAsIs (reader : MessageReader) (source : IMMessage) (senderUserId : Nat) (existing : Option IMMessageAliasRow)
    (row : IMMessageRow) : Bool :=
  existing.isSome && !row.deleted && !isChanged reader source senderUserId row

namespace Ingesting

variable {g : Ingesting} {source : IMMessage} {senderUserId : Nat} {existing : Option IMMessageAliasRow} {row : IMMessageRow}
  {projectionOf : Nat → Option (List TlMessagePartRow)} {t : MessageTables} {cache : List (String × Int)}
  {s : StoredMessage}

structure StoredIn (g : Ingesting) (source : IMMessage) (senderUserId : Nat) (existing : Option IMMessageAliasRow)
    (row : IMMessageRow) (t : MessageTables) (s : StoredMessage) (f : IMMessageRow → IMMessageRow) : Prop where
  touches : Touches row.id f t s.tables
  answers : s.result.message.id = row.id
  aliases : s.tables.aliases = if staysAsIs g.reader source senderUserId existing row = true then t.aliases
    else upsertAliases g.session.platformSessionId g.conversation.id row.id 0 source.allSourceIds t.aliases
  view : ∀ users users', senderOf users' row = senderOf users row →
    (users'.first (fun user => user.id = senderUserId)).map (fun user => user.platformUserId) = some source.senderId →
    messageView users' s.tables (f row) =
      (messageView users t row).settled (staysAsIs g.reader source senderUserId existing row) source

theorem keepMessage_fills (g : Ingesting) (source : IMMessage) (row : IMMessageRow)
    (projectionOf : Nat → Option (List TlMessagePartRow)) (t : MessageTables) (cache : List (String × Int))
    (searchKinds : Nat) : ∃ (f : IMMessageRow → IMMessageRow) (t₀ : MessageTables),
    Touches row.id f t t₀ ∧ t₀.aliases = t.aliases ∧ t₀.reactions = t.reactions ∧
    (∀ users t', messageView users t' (f row) = messageView users t' row) ∧
    (g.keepMessage source row searchKinds projectionOf t cache).tables = replaceReactions t₀ row.id source.reactionContext ∧
    (g.keepMessage source row searchKinds projectionOf t cache).result.message.id = row.id := by
  unfold keepMessage
  dsimp only
  generalize decide (row.searchKinds ≠ some searchKinds) = stale
  cases stale with
  | true =>
    refine ⟨fun other => { other with searchText := g.reader.messageSearchText source, searchKinds := some searchKinds },
      _, ?_, ?_, ?_, fun _ _ => rfl, rfl, rfl⟩
    · refine touches_of_set (fun _ => rfl) (fun _ => ⟨rfl, rfl, rfl⟩) ?_ ?_ <;> rfl
    · rfl
    · rfl
  | false => exact ⟨_, t, touches_refl row.id t, rfl, rfl, fun _ _ => rfl, rfl, rfl⟩

theorem storedIn_keepMessage (searchKinds : Nat) (hkept : staysAsIs g.reader source senderUserId existing row = true) :
    ∃ f, g.StoredIn source senderUserId existing row t (g.keepMessage source row searchKinds projectionOf t cache) f := by
  obtain ⟨f, t₀, htouches, haliases, hreactions, hfill, htables, hid⟩ :=
    keepMessage_fills g source row projectionOf t cache searchKinds
  have hrow : (f row).id = row.id := (htouches.keyed row).1
  refine ⟨fun other => (f other).reacted source.reactionContext, ?_, hid, ?_, fun users users' hsender _ => ?_⟩
  · rw [htables]
    exact htouches.replaceReactions source.reactionContext
  · rw [htables, replaceReactions_aliases, haliases, if_pos hkept]
  · have hbase : messageView users' t₀ (f row) = messageView users t row := by
      rw [hfill]
      refine MessageView.ext hsender rfl rfl rfl rfl rfl (funext fun key => ?_)
      show t₀.reactionAt row.id key = t.reactionAt row.id key
      rw [MessageTables.reactionAt, hreactions]
      rfl
    have hreacted := messageView_reacted users' t₀ (f row) source.reactionContext
    rw [hrow, hbase] at hreacted
    rw [htables, hreacted, hkept]
    rfl

theorem storedIn_writeStored {searchKinds : Nat} {changed : Bool}
    (hkept : staysAsIs g.reader source senderUserId existing row = false)
    (h : g.writeStored source senderUserId searchKinds (some row) changed t cache = .ok s) :
    ∃ f, g.StoredIn source senderUserId existing row t s f := by
  unfold writeStored at h
  simp only [bind_ok] at h
  obtain ⟨⟨messages, message⟩, hsave, ⟨⟨t₁, cache₁⟩, projected⟩, hproj, hret⟩ := h
  cases hret
  have hmessages : t₁.messages = messages := Projecting.messages_ensureProjection hproj
  obtain ⟨haliases, hreactions⟩ := Projecting.aliases_ensureProjection hproj
  simp only [saveMessage] at hsave
  split at hsave
  · rename_i written hwritten
    cases hsave
    have hid : message.id = row.id := of_decide_eq_true (Table.mem_of_first hwritten).2
    have htouches : Touches row.id (writeMessage g.reader source senderUserId searchKinds
        (Json.spread row.metadata (messageMetadata source))) t t₁ :=
      touches_of_set (fun _ => rfl) (fun _ => ⟨rfl, rfl, rfl⟩) hmessages hreactions
    refine ⟨fun other => (writeMessage g.reader source senderUserId searchKinds
      (Json.spread row.metadata (messageMetadata source)) other).reacted source.reactionContext, ?_, hid, ?_,
      fun users users' hsender hwrote => ?_⟩
    · rw [hid]
      exact htouches.replaceReactions source.reactionContext
    · rw [replaceReactions_aliases, haliases, hkept, if_neg Bool.false_ne_true, hid]
    · have hview : messageView users' t₁ (writeMessage g.reader source senderUserId searchKinds
          (Json.spread row.metadata (messageMetadata source)) row) = (messageView users t row).written source := by
        refine messageView_written (fun key => ?_) hwrote
        rw [MessageTables.reactionAt, hreactions]
        rfl
      have hreacted := messageView_reacted users' t₁ (writeMessage g.reader source senderUserId
        searchKinds (Json.spread row.metadata (messageMetadata source)) row) source.reactionContext
      rw [hview] at hreacted
      rw [hkept, hid]
      exact hreacted
  · cases hsave

/-- **Storing a message in the row it is found in.** -/
theorem storedIn_settle
    (h : g.settle source senderUserId existing (some row) projectionOf t cache = .ok s) :
    ∃ f, g.StoredIn source senderUserId existing row t s f := by
  unfold settle at h
  simp only at h
  split at h
  · rename_i hkept
    cases h
    refine storedIn_keepMessage _ ?_
    simp [staysAsIs, hkept.1, hkept.2.1, hkept.2.2]
  · rename_i hkept
    refine storedIn_writeStored ?_ h
    rw [staysAsIs, Bool.eq_false_iff]
    intro hall
    simp only [Bool.and_eq_true, Bool.not_eq_true'] at hall
    exact hkept ⟨hall.1.1, hall.1.2, hall.2⟩

theorem settle_new (h : g.settle source senderUserId existing none projectionOf t cache = .ok s) :
    s.result.message.id = t.messages.nextId ∧
      (∀ m ∈ t.messages.rows, m ∈ s.tables.messages.rows) ∧
      (∀ other key, other ≠ t.messages.nextId → s.tables.reactionAt other key = t.reactionAt other key) ∧
      ∀ m ∈ t.messages.rows, m.conversationId = g.conversation.id → m.primaryPlatformMessageId ≠ source.id := by
  unfold settle writeStored at h
  simp only [bind_ok] at h
  obtain ⟨⟨messages, message⟩, hsave, ⟨⟨t₁, cache₁⟩, projected⟩, hproj, hret⟩ := h
  cases hret
  have hmessages : t₁.messages = messages := Projecting.messages_ensureProjection hproj
  obtain ⟨-, hreactions⟩ := Projecting.aliases_ensureProjection hproj
  simp only [saveMessage] at hsave
  split at hsave
  · cases hsave
  · rename_i hfresh
    cases hsave
    refine ⟨rfl, fun m hm => ?_, fun other key hother => ?_, fun m hm hc hp => hfresh ?_⟩
    · rw [replaceReactions_rows, hmessages]
      have hne : m.id ≠ t.messages.nextId := Nat.ne_of_lt (t.messages.idsFresh m hm)
      exact mem_map.2 ⟨m, Table.mem_insert.2 (Or.inl hm), if_neg hne⟩
    · refine (reactionAt_replaceReactions_of_other hother _).trans ?_
      rw [MessageTables.reactionAt, hreactions]
      rfl
    · exact any_eq_true.2 ⟨m, hm, by simp [hc, hp]⟩

end Ingesting

end Crossgram
