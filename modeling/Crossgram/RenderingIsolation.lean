import Crossgram.Lib.Purging
import Crossgram.MessageIdentity
import Crossgram.MessageIndex
/-!
# RenderingIsolation — what one conversation shows of a run (packages/bridge/src/dialogs.ts)

The indexes from Telegram ids are of the whole `DialogRpc`, and ids of different conversations coincide.  A conversation
is shown the same whatever was remembered of others as long as no id that its replies lead to was remembered for another
conversation's message, and no index has forgotten an entry (`rendering_is_local`).  Without that a reply can be taken
for one to the account's own message elsewhere (`rendering_leaks`).
-/
namespace Crossgram

open Option List

def IndexKey.conversationId : IndexKey → String
  | .message conversationId _ _  => conversationId
  | .qqSequence conversationId _ => conversationId

/-! ## Runs -/

/-- What the indexes go through: messages shown or loaded, and pages prepared. -/
inductive IndexEvent
  | remember (items : List MaterializedMessage)
  | rememberReplyTargets (store : ReplyStore) (messages : List HydratedMessage)

namespace IndexEvent

def step (limit : Option Nat) (i : MessageIndex) : IndexEvent → MessageIndex
  | .remember items                      => items.foldl (MessageIndex.rememberMessage limit) i
  | .rememberReplyTargets store messages => store.rememberReplyTargets limit i messages

def own (conversationId : String) : IndexEvent → Option IndexEvent
  | .remember items =>
    let items := items.filter (fun item => item.source.conversationId = conversationId)
    if items.isEmpty then none else some (.remember items)
  | .rememberReplyTargets store messages =>
    let messages := messages.filter (fun message => message.conversationId = conversationId)
    if messages.isEmpty then none else some (.rememberReplyTargets store messages)

end IndexEvent

def MessageIndex.run (limit : Option Nat) (events : List IndexEvent) : MessageIndex :=
  events.foldl (IndexEvent.step limit) MessageIndex.empty

/-! ## Room

Without a limit the indexes only grow; a run that fits at its end has forgotten nothing. -/

namespace MessageIndex

def Sound (i : MessageIndex) : Prop :=
  Maps.Distinct i.messageToTl ∧ Maps.Distinct i.tlToMessage ∧ Maps.Distinct i.messageOutgoingByTl

def Room (limit : Option Nat) (i : MessageIndex) : Prop :=
  BoundedMaps.Fits limit i.messageToTl ∧ BoundedMaps.Fits limit i.tlToMessage ∧
    BoundedMaps.Fits limit i.messageOutgoingByTl

instance (limit : Option Nat) (i : MessageIndex) : Decidable (i.Room limit) := by unfold Room; infer_instance

variable (limit : Option Nat)

theorem write_follows : BoundedMaps.Follows Sound (Room limit) (write limit) (write none) where
  keep := by
    rintro i w ⟨hk, hr, ho⟩
    cases w with
    | messageToTl key tlId => exact ⟨BoundedMaps.distinct_set_none hk _ _, hr, ho⟩
    | tlToMessage tlId ref => exact ⟨hk, BoundedMaps.distinct_set_none hr _ _, ho⟩
    | outgoing tlId outgoing => exact ⟨hk, hr, BoundedMaps.distinct_set_none ho _ _⟩
  back := by
    rintro i w ⟨hk, hr, ho⟩ ⟨hk', hr', ho'⟩
    cases w with
    | messageToTl key tlId => exact ⟨BoundedMaps.fits_of_set hk hk', hr', ho'⟩
    | tlToMessage tlId ref => exact ⟨hk', BoundedMaps.fits_of_set hr hr', ho'⟩
    | outgoing tlId outgoing => exact ⟨hk', hr', BoundedMaps.fits_of_set ho ho'⟩
  same := by
    rintro i w - ⟨hk', hr', ho'⟩
    cases w with
    | messageToTl key tlId => exact congrArg (fun m => { i with messageToTl := m }) (BoundedMaps.set_of_fits hk')
    | tlToMessage tlId ref => exact congrArg (fun m => { i with tlToMessage := m }) (BoundedMaps.set_of_fits hr')
    | outgoing tlId outgoing =>
      exact congrArg (fun m => { i with messageOutgoingByTl := m }) (BoundedMaps.set_of_fits ho')

theorem writeAll_follows : BoundedMaps.Follows Sound (Room limit) (writeAll limit) (writeAll none) :=
  (write_follows limit).foldl

theorem rememberMessage_follows : BoundedMaps.Follows Sound (Room limit) (rememberMessage limit) (rememberMessage none) where
  keep := fun i item => (writeAll_follows limit).keep i item.writes
  back := fun i item => (writeAll_follows limit).back i item.writes
  same := fun i item => (writeAll_follows limit).same i item.writes

end MessageIndex

namespace ReplyStore

variable (limit : Option Nat) (store : ReplyStore)

def lookUp (search : ReplySearch) (message : HydratedMessage) : ReplySearch :=
  let search := match replyKey message with
    | some key => noteKnown key message true search
    | none     => search
  match sequenceKey message with
  | some key => noteKnown key message false search
  | none     => search

def directWrites (i : MessageIndex) (message : HydratedMessage) : List IndexWrite :=
  ((store.directTarget i message).map (fun projected => projected.writes none)).getD []

theorem noteKnown_index (key : IndexKey) (message : HydratedMessage) (wanted : Bool) (search : ReplySearch) :
    (noteKnown key message wanted search).index = search.index := by
  unfold noteKnown
  split
  · split <;> rfl
  · split <;> rfl

theorem lookUp_index (search : ReplySearch) (message : HydratedMessage) : (lookUp search message).index = search.index := by
  unfold lookUp
  cases replyKey message <;> cases sequenceKey message <;> simp only [noteKnown_index]

theorem searchMessage_eq (search : ReplySearch) (message : HydratedMessage) :
    store.searchMessage limit search message =
      { lookUp search message with index := search.index.writeAll limit (store.directWrites search.index message) } := by
  have hsearch : store.searchMessage limit search message = { lookUp search message with
      index := (lookUp search message).index.writeAll limit (store.directWrites (lookUp search message).index message) } := rfl
  rw [hsearch, lookUp_index]

theorem searchMessage_follows : BoundedMaps.Follows (fun search => search.index.Sound)
    (fun search => search.index.Room limit) (store.searchMessage limit) (store.searchMessage none) where
  keep := fun search message h => by
    rw [searchMessage_eq]
    exact (MessageIndex.writeAll_follows none).keep _ _ h
  back := fun search message h hr => by
    rw [searchMessage_eq] at hr
    exact (MessageIndex.writeAll_follows limit).back _ _ h hr
  same := fun search message h hr => by
    rw [searchMessage_eq] at hr
    rw [searchMessage_eq, searchMessage_eq, (MessageIndex.writeAll_follows limit).same _ _ h hr]

theorem bindTarget_follows (found : HydratedMessage → Option ProjectedMessage) :
    BoundedMaps.Follows MessageIndex.Sound (MessageIndex.Room limit) (bindTarget limit found) (bindTarget none found) where
  keep := fun i _ => (MessageIndex.writeAll_follows none).keep i _
  back := fun i _ => (MessageIndex.writeAll_follows limit).back i _
  same := fun i _ => (MessageIndex.writeAll_follows limit).same i _

def bindTargets (search : ReplySearch) : MessageIndex :=
  search.sidecars.foldl (bindTarget limit (findReplyTarget store.contentOf store.fetched store.platformSessionId))
    (search.targets.foldl (bindTarget limit store.target) search.index)

theorem bindTargets_follows {search : ReplySearch} (hs : search.index.Sound) :
    (store.bindTargets none search).Sound ∧ ((store.bindTargets none search).Room limit → search.index.Room limit ∧
      store.bindTargets limit search = store.bindTargets none search) := by
  have htargets := (bindTarget_follows limit store.target).foldl
  have hsidecars := (bindTarget_follows limit
    (findReplyTarget store.contentOf store.fetched store.platformSessionId)).foldl
  have hs' := htargets.keep search.index search.targets hs
  refine ⟨hsidecars.keep _ search.sidecars hs', fun hr => ?_⟩
  have hr' := hsidecars.back _ search.sidecars hs' hr
  refine ⟨htargets.back _ _ hs hr', ?_⟩
  unfold bindTargets
  rw [htargets.same _ _ hs hr']
  exact hsidecars.same _ _ hs' hr

theorem rememberReplyTargets_follows : BoundedMaps.Follows MessageIndex.Sound (MessageIndex.Room limit)
    (store.rememberReplyTargets limit) (store.rememberReplyTargets none) := by
  have hsearch := (searchMessage_follows limit store).foldl
  have hsound : ∀ (i : MessageIndex) (messages : List HydratedMessage), i.Sound →
      (messages.foldl (store.searchMessage none) { index := i, targets := [], sidecars := [] }).index.Sound :=
    fun i messages hs => hsearch.keep { index := i, targets := [], sidecars := [] } messages hs
  refine ⟨fun i messages hs => ?_, fun i messages hs hr => ?_, fun i messages hs hr => ?_⟩
  · exact (store.bindTargets_follows limit (hsound i messages hs)).1
  · exact hsearch.back { index := i, targets := [], sidecars := [] } messages hs
      ((store.bindTargets_follows limit (hsound i messages hs)).2 hr).1
  · obtain ⟨hroom, hbind⟩ := (store.bindTargets_follows limit (hsound i messages hs)).2 hr
    show store.bindTargets limit (messages.foldl (store.searchMessage limit) _) = _
    rw [hsearch.same { index := i, targets := [], sidecars := [] } messages hs hroom]
    exact hbind

end ReplyStore

theorem step_follows (limit : Option Nat) :
    BoundedMaps.Follows MessageIndex.Sound (MessageIndex.Room limit) (IndexEvent.step limit) (IndexEvent.step none) := by
  refine ⟨fun i e hs => ?_, fun i e hs hr => ?_, fun i e hs hr => ?_⟩
  · cases e with
    | remember items => exact (MessageIndex.rememberMessage_follows none).foldl.keep i items hs
    | rememberReplyTargets store messages => exact (store.rememberReplyTargets_follows none).keep i messages hs
  · cases e with
    | remember items => exact (MessageIndex.rememberMessage_follows limit).foldl.back i items hs hr
    | rememberReplyTargets store messages => exact (store.rememberReplyTargets_follows limit).back i messages hs hr
  · cases e with
    | remember items => exact (MessageIndex.rememberMessage_follows limit).foldl.same i items hs hr
    | rememberReplyTargets store messages => exact (store.rememberReplyTargets_follows limit).same i messages hs hr

/-! ## Without a limit -/

namespace MessageIndex

theorem writeAll_keys (tlId : Int) : ∀ (keys : List IndexKey) (i : MessageIndex),
    i.writeAll none (keys.map (fun key => IndexWrite.messageToTl key tlId)) =
      { i with messageToTl := keys.foldl (fun m key => BoundedMaps.set none m key tlId) i.messageToTl }
  | [], _ => rfl
  | key :: keys, i => by
    rw [map_cons, foldl_cons]
    exact writeAll_keys tlId keys { i with messageToTl := BoundedMaps.set none i.messageToTl key tlId }

theorem rememberMessage_eq (i : MessageIndex) (item : MaterializedMessage) : i.rememberMessage none item =
    { messageToTl := item.keys.foldl (fun m key => BoundedMaps.set none m key item.tlId) i.messageToTl
      tlToMessage := BoundedMaps.set none i.tlToMessage item.tlId item.ref
      messageOutgoingByTl := BoundedMaps.set none i.messageOutgoingByTl item.tlId item.source.outgoing } := by
  unfold rememberMessage MaterializedMessage.writes writeAll
  rw [foldl_append]
  exact congrArg (fun i => write none (write none i (.tlToMessage item.tlId item.ref))
    (.outgoing item.tlId item.source.outgoing)) (writeAll_keys item.tlId item.keys i)

variable (i : MessageIndex) (item : MaterializedMessage)

theorem messageToTl_remember (key : IndexKey) : Maps.get (i.rememberMessage none item).messageToTl key =
    if key ∈ item.keys then some item.tlId else Maps.get i.messageToTl key := by
  rw [rememberMessage_eq]
  exact BoundedMaps.get_foldl_set_none item.tlId key item.keys i.messageToTl

theorem tlToMessage_remember (n : Int) : Maps.get (i.rememberMessage none item).tlToMessage n =
    if n = item.tlId then some item.ref else Maps.get i.tlToMessage n := by
  rw [rememberMessage_eq]
  exact BoundedMaps.get_set_none i.tlToMessage item.tlId item.ref n

theorem outgoing_remember (n : Int) : Maps.get (i.rememberMessage none item).messageOutgoingByTl n =
    if n = item.tlId then some item.source.outgoing else Maps.get i.messageOutgoingByTl n := by
  rw [rememberMessage_eq]
  exact BoundedMaps.get_set_none i.messageOutgoingByTl item.tlId item.source.outgoing n

/-- `_rememberProjection`'s last line. -/
def bindKey (i : MessageIndex) (key : IndexKey) (tlId : Int) : MessageIndex :=
  { i with messageToTl := BoundedMaps.set none i.messageToTl key tlId }

theorem writeAll_items (items : List MaterializedMessage) (i : MessageIndex) :
    i.writeAll none (items.flatMap MaterializedMessage.writes) = items.foldl (rememberMessage none) i := by
  induction items generalizing i with
  | nil => rfl
  | cons item items ih =>
    rw [flatMap_cons, foldl_cons, ← ih]
    exact foldl_append

theorem writeAll_projected (projected : ProjectedMessage) (key : IndexKey) :
    i.writeAll none (projected.writes (some key)) = match projected.primary with
      | some part => (projected.items.foldl (rememberMessage none) i).bindKey key part.tlMessageId
      | none      => projected.items.foldl (rememberMessage none) i := by
  unfold ProjectedMessage.writes writeAll
  rw [foldl_append]
  cases projected.primary with
  | none => exact writeAll_items projected.items i
  | some part => exact congrArg (fun i => bindKey i key part.tlMessageId) (writeAll_items projected.items i)

theorem writeAll_projected_none (projected : ProjectedMessage) :
    i.writeAll none (projected.writes none) = projected.items.foldl (rememberMessage none) i := by
  unfold ProjectedMessage.writes
  rw [bind_none, toList_none, append_nil]
  exact writeAll_items projected.items i

def Knows (i : MessageIndex) (n : Int) : Prop := (Maps.get i.messageOutgoingByTl n).isSome

variable {i}

theorem Knows.write {n : Int} (h : i.Knows n) (w : IndexWrite) : (i.write none w).Knows n := by
  cases w with
  | messageToTl key tlId => exact h
  | tlToMessage tlId ref => exact h
  | outgoing tlId outgoing =>
    unfold Knows
    refine (congrArg Option.isSome (BoundedMaps.get_set_none i.messageOutgoingByTl tlId outgoing n)).trans ?_
    by_cases hn : n = tlId
    · rw [if_pos hn]
      rfl
    · rw [if_neg hn]
      exact h

theorem Knows.writeAll {n : Int} (h : i.Knows n) (ws : List IndexWrite) : (i.writeAll none ws).Knows n :=
  List.foldlRecOn (motive := fun i => i.Knows n) ws (MessageIndex.write none) h (fun _ hi w _ => Knows.write hi w)

theorem knows_remember (item : MaterializedMessage) : (i.rememberMessage none item).Knows item.tlId := by
  unfold Knows
  rw [outgoing_remember, if_pos rfl]
  rfl

theorem knows_items {item : MaterializedMessage} : ∀ {items : List MaterializedMessage} {i : MessageIndex}, item ∈ items →
    (items.foldl (rememberMessage none) i).Knows item.tlId
  | first :: items, i, h => by
    rw [foldl_cons]
    rcases mem_cons.1 h with rfl | h
    · exact List.foldlRecOn (motive := fun i => i.Knows item.tlId) items (rememberMessage none) (knows_remember item)
        (fun _ hi item _ => Knows.writeAll hi item.writes)
    · exact knows_items h

end MessageIndex

variable {projected : ProjectedMessage}

theorem ProjectedMessage.mem_of_primary {part : TlMessagePartRow}
    (h : projected.primary = some part) : part ∈ projected.parts := by
  rcases or_eq_some_iff.1 h with h | ⟨-, h⟩
  · exact mem_of_find?_eq_some h
  · exact mem_of_head? h

theorem ProjectedMessage.mem_items {part : TlMessagePartRow} (h : part ∈ projected.parts) :
    ∃ item ∈ projected.items, item.tlId = part.tlMessageId :=
  ⟨_, mem_map_of_mem h, rfl⟩

variable {key : IndexKey}

theorem MaterializedMessage.conversationId_of_mem_keys {item : MaterializedMessage} (h : key ∈ item.keys) :
    key.conversationId = item.source.conversationId := by
  unfold MaterializedMessage.keys at h
  rcases mem_append.1 h with h | h
  · rcases mem_append.1 h with h | h
    · rw [mem_singleton.1 h]
      rfl
    · obtain ⟨id, -, rfl⟩ := map_eq_some_iff.1 (mem_toList.1 h)
      rfl
  · obtain ⟨sequence, -, rfl⟩ := map_eq_some_iff.1 (mem_toList.1 h)
    rfl

theorem ProjectedMessage.source_of_mem_items {item : MaterializedMessage}
    (h : item ∈ projected.items) : item.source = projected.source := by
  obtain ⟨part, -, rfl⟩ := mem_map.1 h
  rfl

/-! ## What a conversation's replies lead to -/

/-- The keys that replies of a conversation are looked up under, the ids they lead to, and which of these the account
sent. -/
structure ReplyRegion where
  conversationId : String
  keys : IndexKey → Prop
  ids : Int → Prop
  sent : Int → Bool
  own_keys : ∀ key, keys key → key.conversationId = conversationId

def ReplyStore.answers (store : ReplyStore) (message : HydratedMessage) : List ProjectedMessage :=
  ((qqReplySequenceFromMetadata message.metadata).bind (fun sequence =>
      findProjectedByNativeSequence store.contentOf store.db store.platformSessionId message.conversationId sequence)).toList
    ++ ((telegramReplyToMessageId message).bind (fun tlId =>
      findProjectedByTlId store.contentOf store.db store.platformSessionId tlId message.conversationId)).toList
    ++ (findReplyTarget store.contentOf store.db store.platformSessionId message).toList
    ++ (findReplyTarget store.contentOf store.fetched store.platformSessionId message).toList

namespace ReplyRegion

variable (region : ReplyRegion)

structure Keeps (item : MaterializedMessage) : Prop where
  named : item.source.conversationId = region.conversationId → ∀ key ∈ item.keys, region.keys key → region.ids item.tlId
  sent : item.source.conversationId = region.conversationId → region.ids item.tlId →
    item.source.outgoing = region.sent item.tlId
  apart : item.source.conversationId ≠ region.conversationId → ¬region.ids item.tlId

structure Asks (store : ReplyStore) (message : HydratedMessage) : Prop where
  reply : ∀ key, replyKey message = some key → region.keys key
  sequence : ∀ key, sequenceKey message = some key → region.keys key
  native : ∀ n, nativeReplyTo message = some n → region.ids n
  bound : ∀ projected ∈ store.answers message, ∀ part, projected.primary = some part → region.ids part.tlMessageId

/-- **No id that the conversation's replies lead to is remembered for another conversation's message.** -/
def Apart : IndexEvent → Prop
  | .remember items => ∀ item ∈ items, region.Keeps item
  | .rememberReplyTargets store messages => Filed store.db ∧ Filed store.fetched ∧ ∀ message ∈ messages,
      (message.conversationId = region.conversationId → region.Asks store message) ∧
        ∀ projected ∈ store.answers message, ∀ item ∈ projected.items, region.Keeps item

def Informed (store : ReplyStore) (message : HydratedMessage) : Prop :=
  ∀ n, nativeReplyTo message = some n → region.sent n = true →
    (findProjectedByTlId store.contentOf store.db store.platformSessionId n message.conversationId).isSome

structure Agree (i j : MessageIndex) : Prop where
  keys : ∀ key, region.keys key → Maps.get i.messageToTl key = Maps.get j.messageToTl key
  refs : ∀ n, region.ids n → Maps.get i.tlToMessage n = Maps.get j.tlToMessage n
  outgoing : ∀ n, region.ids n → Maps.get i.messageOutgoingByTl n = Maps.get j.messageOutgoingByTl n
  leads : ∀ key n, region.keys key → Maps.get i.messageToTl key = some n → region.ids n
  sent : ∀ n o, region.ids n → Maps.get i.messageOutgoingByTl n = some o → o = region.sent n
  known : ∀ key n, region.keys key → Maps.get i.messageToTl key = some n → (Maps.get i.messageOutgoingByTl n).isSome

variable {region} {i j k : MessageIndex}

theorem agree_empty : region.Agree MessageIndex.empty MessageIndex.empty where
  keys := fun _ _ => rfl
  refs := fun _ _ => rfl
  outgoing := fun _ _ => rfl
  leads := fun _ _ _ h => by cases h
  sent := fun _ _ _ h => by cases h
  known := fun _ _ _ h => by cases h

theorem Agree.symm (h : region.Agree i j) : region.Agree j i where
  keys := fun key hk => (h.keys key hk).symm
  refs := fun n hn => (h.refs n hn).symm
  outgoing := fun n hn => (h.outgoing n hn).symm
  leads := fun key n hk hg => h.leads key n hk ((h.keys key hk).trans hg)
  sent := fun n o hn hg => h.sent n o hn ((h.outgoing n hn).trans hg)
  known := fun key n hk hg => by
    have hi := (h.keys key hk).trans hg
    rw [← h.outgoing n (h.leads key n hk hi)]
    exact h.known key n hk hi

theorem Agree.trans (h : region.Agree i j) (h' : region.Agree j k) : region.Agree i k where
  keys := fun key hk => (h.keys key hk).trans (h'.keys key hk)
  refs := fun n hn => (h.refs n hn).trans (h'.refs n hn)
  outgoing := fun n hn => (h.outgoing n hn).trans (h'.outgoing n hn)
  leads := h.leads
  sent := h.sent
  known := h.known

theorem Agree.remember_both (h : region.Agree i j) {item : MaterializedMessage}
    (hown : item.source.conversationId = region.conversationId) (hitem : region.Keeps item) :
    region.Agree (i.rememberMessage none item) (j.rememberMessage none item) where
  keys := fun key hk => by
    rw [MessageIndex.messageToTl_remember, MessageIndex.messageToTl_remember, h.keys key hk]
  refs := fun n hn => by
    rw [MessageIndex.tlToMessage_remember, MessageIndex.tlToMessage_remember, h.refs n hn]
  outgoing := fun n hn => by
    rw [MessageIndex.outgoing_remember, MessageIndex.outgoing_remember, h.outgoing n hn]
  leads := fun key n hk hg => by
    rw [MessageIndex.messageToTl_remember] at hg
    by_cases hkey : key ∈ item.keys
    · rw [if_pos hkey, Option.some.injEq] at hg
      exact hg ▸ hitem.named hown key hkey hk
    · rw [if_neg hkey] at hg
      exact h.leads key n hk hg
  sent := fun n o hn hg => by
    rw [MessageIndex.outgoing_remember] at hg
    by_cases hid : n = item.tlId
    · rw [if_pos hid, Option.some.injEq] at hg
      rw [← hg, hid]
      exact hitem.sent hown (hid ▸ hn)
    · rw [if_neg hid] at hg
      exact h.sent n o hn hg
  known := fun key n hk hg => by
    rw [MessageIndex.messageToTl_remember] at hg
    rw [MessageIndex.outgoing_remember]
    by_cases hid : n = item.tlId
    · rw [if_pos hid]
      rfl
    · by_cases hkey : key ∈ item.keys
      · rw [if_pos hkey, Option.some.injEq] at hg
        exact absurd hg.symm hid
      · rw [if_neg hkey] at hg
        rw [if_neg hid]
        exact h.known key n hk hg

theorem Agree.remember_left (h : region.Agree i j) {item : MaterializedMessage}
    (hother : item.source.conversationId ≠ region.conversationId) (hitem : region.Keeps item) :
    region.Agree (i.rememberMessage none item) j := by
  have hkeys : ∀ key, region.keys key →
      Maps.get (i.rememberMessage none item).messageToTl key = Maps.get i.messageToTl key := by
    intro key hk
    rw [MessageIndex.messageToTl_remember, if_neg (fun hmem => hother ?_)]
    exact (MaterializedMessage.conversationId_of_mem_keys hmem).symm.trans (region.own_keys key hk)
  have hids : ∀ n, region.ids n → n ≠ item.tlId := fun n hn hc => hitem.apart hother (hc ▸ hn)
  have houtgoing : ∀ n, region.ids n →
      Maps.get (i.rememberMessage none item).messageOutgoingByTl n = Maps.get i.messageOutgoingByTl n := by
    intro n hn
    rw [MessageIndex.outgoing_remember, if_neg (hids n hn)]
  refine ⟨fun key hk => (hkeys key hk).trans (h.keys key hk), fun n hn => ?_,
    fun n hn => (houtgoing n hn).trans (h.outgoing n hn), fun key n hk hg => h.leads key n hk ((hkeys key hk).symm.trans hg),
    fun n o hn hg => h.sent n o hn ((houtgoing n hn).symm.trans hg), fun key n hk hg => ?_⟩
  · rw [MessageIndex.tlToMessage_remember, if_neg (hids n hn)]
    exact h.refs n hn
  · have hi := (hkeys key hk).symm.trans hg
    rw [houtgoing n (h.leads key n hk hi)]
    exact h.known key n hk hi

theorem Agree.remember_items : ∀ {items : List MaterializedMessage} {i j : MessageIndex},
    (∀ item ∈ items, region.Keeps item) → region.Agree i j →
    region.Agree (items.foldl (MessageIndex.rememberMessage none) i)
      ((items.filter (fun item => item.source.conversationId = region.conversationId)).foldl
        (MessageIndex.rememberMessage none) j)
  | [], _, _, _, h => h
  | item :: items, i, j, hitems, h => by
    have hrest : ∀ item ∈ items, region.Keeps item := fun item hi => hitems item (mem_cons_of_mem _ hi)
    have hitem := hitems item mem_cons_self
    by_cases hown : item.source.conversationId = region.conversationId
    · rw [filter_cons_of_pos (by simpa using hown), foldl_cons, foldl_cons]
      exact Agree.remember_items hrest (h.remember_both hown hitem)
    · rw [filter_cons_of_neg (by simpa using hown), foldl_cons]
      exact Agree.remember_items hrest (h.remember_left hown hitem)

variable {key : IndexKey}

theorem Agree.bindKey_both (h : region.Agree i j) {tlId : Int} (hid : region.ids tlId)
    (hknown : (Maps.get i.messageOutgoingByTl tlId).isSome) : region.Agree (i.bindKey key tlId) (j.bindKey key tlId) := by
  have hset : ∀ (i : MessageIndex) (k : IndexKey), Maps.get (i.bindKey key tlId).messageToTl k =
      if k = key then some tlId else Maps.get i.messageToTl k :=
    fun i k => BoundedMaps.get_set_none i.messageToTl key tlId k
  refine ⟨fun k hk => ?_, h.refs, h.outgoing, fun k n hk hg => ?_, h.sent, fun k n hk hg => ?_⟩
  · rw [hset, hset, h.keys k hk]
  · rw [hset] at hg
    by_cases hkey : k = key
    · rw [if_pos hkey, Option.some.injEq] at hg
      exact hg ▸ hid
    · rw [if_neg hkey] at hg
      exact h.leads k n hk hg
  · rw [hset] at hg
    by_cases hkey : k = key
    · rw [if_pos hkey, Option.some.injEq] at hg
      exact hg ▸ hknown
    · rw [if_neg hkey] at hg
      exact h.known k n hk hg

theorem Agree.bindKey_left (h : region.Agree i j) {tlId : Int}
    (hother : key.conversationId ≠ region.conversationId) : region.Agree (i.bindKey key tlId) j := by
  have hset : ∀ k, region.keys k → Maps.get (i.bindKey key tlId).messageToTl k = Maps.get i.messageToTl k := by
    intro k hk
    refine (BoundedMaps.get_set_none i.messageToTl key tlId k).trans (if_neg (fun hc => hother ?_))
    exact hc ▸ region.own_keys k hk
  exact ⟨fun k hk => (hset k hk).trans (h.keys k hk), h.refs, h.outgoing,
    fun k n hk hg => h.leads k n hk ((hset k hk).symm.trans hg), h.sent,
    fun k n hk hg => h.known k n hk ((hset k hk).symm.trans hg)⟩

variable {projected : ProjectedMessage}

theorem Agree.items_both (hown : projected.source.conversationId = region.conversationId)
    (hitems : ∀ item ∈ projected.items, region.Keeps item) (h : region.Agree i j) :
    region.Agree (projected.items.foldl (MessageIndex.rememberMessage none) i)
      (projected.items.foldl (MessageIndex.rememberMessage none) j) := by
  have hall : projected.items.filter (fun item => item.source.conversationId = region.conversationId) = projected.items := by
    refine filter_eq_self.2 (fun item hi => decide_eq_true ?_)
    rw [ProjectedMessage.source_of_mem_items hi]
    exact hown
  have := Agree.remember_items hitems h
  rwa [hall] at this

theorem Agree.items_left (hother : projected.source.conversationId ≠ region.conversationId)
    (hitems : ∀ item ∈ projected.items, region.Keeps item) (h : region.Agree i j) :
    region.Agree (projected.items.foldl (MessageIndex.rememberMessage none) i) j := by
  have hnone : projected.items.filter (fun item => item.source.conversationId = region.conversationId) = [] := by
    refine filter_eq_nil_iff.2 (fun item hi hc => hother ?_)
    rw [← ProjectedMessage.source_of_mem_items hi]
    exact of_decide_eq_true hc
  have := Agree.remember_items hitems h
  rwa [hnone] at this

theorem Agree.answer_both (hown : projected.source.conversationId = region.conversationId)
    (hitems : ∀ item ∈ projected.items, region.Keeps item)
    (hbound : ∀ part, projected.primary = some part → region.ids part.tlMessageId) (key : IndexKey) (h : region.Agree i j) :
    region.Agree (i.writeAll none (projected.writes (some key))) (j.writeAll none (projected.writes (some key))) := by
  have hboth := Agree.items_both hown hitems h
  rw [MessageIndex.writeAll_projected, MessageIndex.writeAll_projected]
  cases hp : projected.primary with
  | none => exact hboth
  | some part =>
    obtain ⟨item, hmem, hid⟩ := ProjectedMessage.mem_items (ProjectedMessage.mem_of_primary hp)
    exact hboth.bindKey_both (hbound part hp) (hid ▸ MessageIndex.knows_items hmem)

theorem Agree.answer_left (hother : projected.source.conversationId ≠ region.conversationId)
    (hitems : ∀ item ∈ projected.items, region.Keeps item)
    (hkey : key.conversationId ≠ region.conversationId) (h : region.Agree i j) :
    region.Agree (i.writeAll none (projected.writes (some key))) j := by
  have hleft := Agree.items_left hother hitems h
  rw [MessageIndex.writeAll_projected]
  cases hp : projected.primary with
  | none => exact hleft
  | some part => exact hleft.bindKey_left hkey

/-! ## A page -/

structure SearchAgree (region : ReplyRegion) (messages : List HydratedMessage) (s t : ReplySearch) : Prop where
  index : region.Agree s.index t.index
  targets : t.targets = s.targets.filter (fun e => e.1.conversationId = region.conversationId)
  sidecars : t.sidecars = s.sidecars.filter (fun e => e.1.conversationId = region.conversationId)
  asked : ∀ e ∈ s.targets ++ s.sidecars, e.2 ∈ messages ∧ e.1.conversationId = e.2.conversationId

variable {messages : List HydratedMessage} {s t : ReplySearch} {message : HydratedMessage} {key : IndexKey}

theorem asked_noteKnown (h : SearchAgree region messages s t) (hmem : message ∈ messages)
    (hkey : key.conversationId = message.conversationId) (wanted : Bool) :
    ∀ e ∈ (ReplyStore.noteKnown key message wanted s).targets ++ (ReplyStore.noteKnown key message wanted s).sidecars,
      e.2 ∈ messages ∧ e.1.conversationId = e.2.conversationId := by
  unfold ReplyStore.noteKnown
  split
  · split
    · intro e he
      rcases mem_append.1 he with he | he
      · rcases Maps.mem_set_imp he with rfl | he
        · exact ⟨hmem, hkey⟩
        · exact h.asked e (mem_append_left _ he)
      · exact h.asked e (mem_append_right _ he)
    · exact h.asked
  · split
    · intro e he
      rcases mem_append.1 he with he | he
      · exact h.asked e (mem_append_left _ he)
      · rcases mem_append.1 he with he | he
        · exact h.asked e (mem_append_right _ he)
        · rw [mem_singleton.1 he]
          exact ⟨hmem, hkey⟩
    · exact h.asked

theorem SearchAgree.noteKnown_both (h : SearchAgree region messages s t) (hmem : message ∈ messages)
    (hkey : key.conversationId = message.conversationId) (hk : region.keys key) (wanted : Bool) :
    SearchAgree region messages (ReplyStore.noteKnown key message wanted s) (ReplyStore.noteKnown key message wanted t) := by
  have hasked := asked_noteKnown h hmem hkey wanted
  have hown : decide (key.conversationId = region.conversationId) = true := decide_eq_true (region.own_keys key hk)
  refine ⟨by rw [ReplyStore.noteKnown_index, ReplyStore.noteKnown_index]; exact h.index, ?_, ?_, hasked⟩
  · unfold ReplyStore.noteKnown
    rw [← h.index.keys key hk]
    cases hg : Maps.get s.index.messageToTl key with
    | none =>
      cases wanted with
      | true =>
        show Maps.set t.targets key message = (Maps.set s.targets key message).filter _
        rw [Maps.filter_set (fun k : IndexKey => decide (k.conversationId = region.conversationId)), if_pos hown, h.targets]
      | false => exact h.targets
    | some known =>
      dsimp only
      split <;> split <;> exact h.targets
  · unfold ReplyStore.noteKnown
    rw [← h.index.keys key hk]
    cases hg : Maps.get s.index.messageToTl key with
    | none => cases wanted <;> exact h.sidecars
    | some known =>
      have hservice : t.index.leadsToService known = s.index.leadsToService known := by
        unfold MessageIndex.leadsToService
        rw [h.index.refs known (h.index.leads key known hk hg)]
      dsimp only
      rw [hservice]
      split
      · show t.sidecars ++ [(key, message)] = (s.sidecars ++ [(key, message)]).filter _
        rw [filter_append, h.sidecars]
        simp [region.own_keys key hk]
      · exact h.sidecars

theorem SearchAgree.noteKnown_left (h : SearchAgree region messages s t) (hmem : message ∈ messages)
    (hkey : key.conversationId = message.conversationId) (hother : key.conversationId ≠ region.conversationId)
    (wanted : Bool) : SearchAgree region messages (ReplyStore.noteKnown key message wanted s) t := by
  have hasked := asked_noteKnown h hmem hkey wanted
  have hnot : ¬decide (key.conversationId = region.conversationId) = true := fun hc => hother (of_decide_eq_true hc)
  refine ⟨by rw [ReplyStore.noteKnown_index]; exact h.index, ?_, ?_, hasked⟩
  · unfold ReplyStore.noteKnown
    split
    · split
      · show t.targets = (Maps.set s.targets key message).filter _
        rw [Maps.filter_set (fun k : IndexKey => decide (k.conversationId = region.conversationId)), if_neg hnot, h.targets]
      · exact h.targets
    · split <;> exact h.targets
  · unfold ReplyStore.noteKnown
    split
    · split <;> exact h.sidecars
    · split
      · show t.sidecars = (s.sidecars ++ [(key, message)]).filter _
        rw [filter_append, h.sidecars]
        simp [hother]
      · exact h.sidecars

end ReplyRegion

theorem conversationId_replyKey {message : HydratedMessage} (h : replyKey message = some key) :
    key.conversationId = message.conversationId := by
  obtain ⟨id, -, rfl⟩ := map_eq_some_iff.1 h
  rfl

theorem conversationId_sequenceKey {message : HydratedMessage} (h : sequenceKey message = some key) :
    key.conversationId = message.conversationId := by
  obtain ⟨sequence, -, rfl⟩ := map_eq_some_iff.1 h
  rfl

namespace ReplyStore

variable {store : ReplyStore} {message : HydratedMessage} {projected : ProjectedMessage}

theorem mem_answers_of_direct {i : MessageIndex} (h : store.directTarget i message = some projected) :
    projected ∈ store.answers message := by
  unfold directTarget at h
  unfold answers
  cases hseq : qqReplySequenceFromMetadata message.metadata with
  | some sequence =>
    rw [hseq] at h
    dsimp only at h
    split at h
    · cases h
    · rw [bind_some, h]
      simp
  | none =>
    rw [hseq] at h
    dsimp only at h
    cases htl : telegramReplyToMessageId message with
    | none =>
      rw [htl] at h
      cases h
    | some tlId =>
      rw [htl] at h
      dsimp only at h
      split at h
      · cases h
      · rw [bind_some, h]
        simp

theorem mem_answers_of_target (h : store.target message = some projected) : projected ∈ store.answers message := by
  unfold answers
  rcases or_eq_some_iff.1 h with h | ⟨-, h⟩
  · simp [h]
  · split at h
    · simp [h]
    · cases h

theorem mem_answers_of_fetched
    (h : findReplyTarget store.contentOf store.fetched store.platformSessionId message = some projected) :
    projected ∈ store.answers message := by
  simp [answers, h]

theorem conversationId_answer (hdb : Filed store.db) (hfetched : Filed store.fetched) (h : projected ∈ store.answers message) :
    projected.source.conversationId = message.conversationId := by
  unfold answers at h
  rcases mem_append.1 h with h | h
  · rcases mem_append.1 h with h | h
    · rcases mem_append.1 h with h | h
      · obtain ⟨sequence, -, h⟩ := bind_eq_some_iff.1 (mem_toList.1 h)
        exact conversationId_of_nativeSequence hdb h
      · obtain ⟨tlId, -, h⟩ := bind_eq_some_iff.1 (mem_toList.1 h)
        exact (conversationId_of_tlId hdb h).1
    · exact conversationId_of_replyTarget hdb (mem_toList.1 h)
  · exact conversationId_of_replyTarget hfetched (mem_toList.1 h)

end ReplyStore

namespace ReplyRegion

variable {region : ReplyRegion} {i j : MessageIndex} {store : ReplyStore} {messages : List HydratedMessage}
  {message : HydratedMessage} {s t : ReplySearch}

theorem SearchAgree.lookUp_both (h : SearchAgree region messages s t) (hmem : message ∈ messages)
    (hasks : region.Asks store message) :
    SearchAgree region messages (ReplyStore.lookUp s message) (ReplyStore.lookUp t message) := by
  have hreply : SearchAgree region messages
      (match replyKey message with | some key => ReplyStore.noteKnown key message true s | none => s)
      (match replyKey message with | some key => ReplyStore.noteKnown key message true t | none => t) := by
    cases hkey : replyKey message with
    | none => exact h
    | some key => exact h.noteKnown_both hmem (conversationId_replyKey hkey) (hasks.reply key hkey) true
  unfold ReplyStore.lookUp
  cases hkey : sequenceKey message with
  | none => exact hreply
  | some key => exact hreply.noteKnown_both hmem (conversationId_sequenceKey hkey) (hasks.sequence key hkey) false

theorem SearchAgree.lookUp_left (h : SearchAgree region messages s t) (hmem : message ∈ messages)
    (hother : message.conversationId ≠ region.conversationId) :
    SearchAgree region messages (ReplyStore.lookUp s message) t := by
  have hreply : SearchAgree region messages
      (match replyKey message with | some key => ReplyStore.noteKnown key message true s | none => s) t := by
    cases hkey : replyKey message with
    | none => exact h
    | some key => exact h.noteKnown_left hmem (conversationId_replyKey hkey) (conversationId_replyKey hkey ▸ hother) true
  unfold ReplyStore.lookUp
  cases hkey : sequenceKey message with
  | none => exact hreply
  | some key =>
    exact hreply.noteKnown_left hmem (conversationId_sequenceKey hkey) (conversationId_sequenceKey hkey ▸ hother) false

theorem Agree.directTarget (h : region.Agree i j) (hasks : region.Asks store message) :
    store.directTarget i message = store.directTarget j message := by
  unfold ReplyStore.directTarget
  cases hseq : qqReplySequenceFromMetadata message.metadata with
  | some sequence =>
    have hkey : sequenceKey message = some (.qqSequence message.conversationId sequence) := by rw [sequenceKey, hseq]; rfl
    dsimp only
    rw [h.keys _ (hasks.sequence _ hkey)]
  | none =>
    cases htl : telegramReplyToMessageId message with
    | none => rfl
    | some tlId =>
      have hnative : nativeReplyTo message = some tlId := by
        rw [nativeReplyTo, hseq, htl]
        rfl
      dsimp only
      rw [Maps.has_eq_isSome, Maps.has_eq_isSome, h.outgoing tlId (hasks.native tlId hnative)]

theorem SearchAgree.search_both (h : SearchAgree region messages s t) (hmem : message ∈ messages)
    (hown : message.conversationId = region.conversationId) (hdb : Filed store.db) (hfetched : Filed store.fetched)
    (hasks : region.Asks store message)
    (hitems : ∀ projected ∈ store.answers message, ∀ item ∈ projected.items, region.Keeps item) :
    SearchAgree region messages (store.searchMessage none s message) (store.searchMessage none t message) := by
  have hlook := h.lookUp_both hmem hasks
  rw [ReplyStore.searchMessage_eq, ReplyStore.searchMessage_eq]
  refine ⟨?_, hlook.targets, hlook.sidecars, hlook.asked⟩
  unfold ReplyStore.directWrites
  rw [← h.index.directTarget hasks]
  cases hdirect : store.directTarget s.index message with
  | none => exact h.index
  | some projected =>
    have hanswer := ReplyStore.mem_answers_of_direct hdirect
    rw [map_some, getD_some, MessageIndex.writeAll_projected_none, MessageIndex.writeAll_projected_none]
    exact Agree.items_both ((ReplyStore.conversationId_answer hdb hfetched hanswer).trans hown) (hitems _ hanswer) h.index

theorem SearchAgree.search_left (h : SearchAgree region messages s t) (hmem : message ∈ messages)
    (hother : message.conversationId ≠ region.conversationId) (hdb : Filed store.db) (hfetched : Filed store.fetched)
    (hitems : ∀ projected ∈ store.answers message, ∀ item ∈ projected.items, region.Keeps item) :
    SearchAgree region messages (store.searchMessage none s message) t := by
  have hlook := h.lookUp_left hmem hother
  rw [ReplyStore.searchMessage_eq]
  refine ⟨?_, hlook.targets, hlook.sidecars, hlook.asked⟩
  unfold ReplyStore.directWrites
  cases hdirect : store.directTarget s.index message with
  | none => exact h.index
  | some projected =>
    have hanswer := ReplyStore.mem_answers_of_direct hdirect
    rw [map_some, getD_some, MessageIndex.writeAll_projected_none]
    exact Agree.items_left (by rw [ReplyStore.conversationId_answer hdb hfetched hanswer]; exact hother)
      (hitems _ hanswer) h.index

/-- **The search of a page.** -/
theorem SearchAgree.search (hapart : region.Apart (.rememberReplyTargets store messages)) :
    ∀ (rest : List HydratedMessage) {s t : ReplySearch}, rest ⊆ messages → SearchAgree region messages s t →
      SearchAgree region messages (rest.foldl (store.searchMessage none) s)
        ((rest.filter (fun message => message.conversationId = region.conversationId)).foldl (store.searchMessage none) t)
  | [], _, _, _, h => h
  | message :: rest, s, t, hsub, h => by
    obtain ⟨hdb, hfetched, hmessages⟩ := hapart
    have hmem := hsub mem_cons_self
    obtain ⟨hasks, hitems⟩ := hmessages message hmem
    have hrest : rest ⊆ messages := fun m hm => hsub (mem_cons_of_mem _ hm)
    by_cases hown : message.conversationId = region.conversationId
    · rw [filter_cons_of_pos (by simpa using hown), foldl_cons, foldl_cons]
      exact SearchAgree.search ⟨hdb, hfetched, hmessages⟩ rest hrest
        (h.search_both hmem hown hdb hfetched (hasks hown) hitems)
    · rw [filter_cons_of_neg (by simpa using hown), foldl_cons]
      exact SearchAgree.search ⟨hdb, hfetched, hmessages⟩ rest hrest (h.search_left hmem hown hdb hfetched hitems)

/-- **What is bound after the search of a page.** -/
theorem Agree.bindTargets (hapart : region.Apart (.rememberReplyTargets store messages))
    {found : HydratedMessage → Option ProjectedMessage}
    (hfound : ∀ message projected, found message = some projected → projected ∈ store.answers message) :
    ∀ (entries : List (IndexKey × HydratedMessage)) {i j : MessageIndex},
      (∀ e ∈ entries, e.2 ∈ messages ∧ e.1.conversationId = e.2.conversationId) → region.Agree i j →
      region.Agree (entries.foldl (ReplyStore.bindTarget none found) i)
        ((entries.filter (fun e => e.1.conversationId = region.conversationId)).foldl
          (ReplyStore.bindTarget none found) j)
  | [], _, _, _, h => h
  | entry :: entries, i, j, hentries, h => by
    obtain ⟨hdb, hfetched, hmessages⟩ := hapart
    obtain ⟨hmem, hkey⟩ := hentries entry mem_cons_self
    obtain ⟨hasks, hitems⟩ := hmessages entry.2 hmem
    have hrest : ∀ e ∈ entries, e.2 ∈ messages ∧ e.1.conversationId = e.2.conversationId :=
      fun e he => hentries e (mem_cons_of_mem _ he)
    have hconv : ∀ projected, found entry.2 = some projected →
        projected.source.conversationId = entry.2.conversationId :=
      fun projected hp => ReplyStore.conversationId_answer hdb hfetched (hfound _ _ hp)
    by_cases hown : entry.1.conversationId = region.conversationId
    · rw [filter_cons_of_pos (by simpa using hown), foldl_cons, foldl_cons]
      refine Agree.bindTargets ⟨hdb, hfetched, hmessages⟩ hfound entries hrest ?_
      unfold ReplyStore.bindTarget
      cases hp : found entry.2 with
      | none => exact h
      | some projected =>
        exact h.answer_both ((hconv projected hp).trans (hkey.symm.trans hown)) (hitems _ (hfound _ _ hp))
          ((hasks (hkey.symm.trans hown)).bound _ (hfound _ _ hp)) entry.1
    · rw [filter_cons_of_neg (by simpa using hown), foldl_cons]
      refine Agree.bindTargets ⟨hdb, hfetched, hmessages⟩ hfound entries hrest ?_
      unfold ReplyStore.bindTarget
      cases hp : found entry.2 with
      | none => exact h
      | some projected =>
        exact h.answer_left (by rw [hconv projected hp, ← hkey]; exact hown) (hitems _ (hfound _ _ hp)) hown

theorem Agree.rememberReplyTargets (hapart : region.Apart (.rememberReplyTargets store messages)) (h : region.Agree i j) :
    region.Agree (store.rememberReplyTargets none i messages)
      (store.rememberReplyTargets none j (messages.filter (fun message => message.conversationId = region.conversationId))) := by
  have hstart : SearchAgree region messages { index := i, targets := [], sidecars := [] }
      { index := j, targets := [], sidecars := [] } := ⟨h, rfl, rfl, fun e he => by cases he⟩
  have hsearch := SearchAgree.search hapart messages (List.Subset.refl _) hstart
  unfold ReplyStore.rememberReplyTargets
  dsimp only
  rw [hsearch.targets, hsearch.sidecars]
  refine Agree.bindTargets hapart (fun _ _ => ReplyStore.mem_answers_of_fetched) _
    (fun e he => hsearch.asked e (mem_append_right _ he)) ?_
  exact Agree.bindTargets hapart (fun _ _ => ReplyStore.mem_answers_of_target) _
    (fun e he => hsearch.asked e (mem_append_left _ he)) hsearch.index

/-- **A step and what is left of it without other conversations.** -/
theorem Agree.step {e : IndexEvent} (hapart : region.Apart e) (h : region.Agree i j) :
    region.Agree (IndexEvent.step none i e)
      (Purging.purgedStep (IndexEvent.step none) (IndexEvent.own region.conversationId) j e) := by
  unfold Purging.purgedStep
  cases e with
  | remember items =>
    have hitems := Agree.remember_items hapart h
    unfold IndexEvent.own
    dsimp only
    by_cases hempty : (items.filter (fun item => item.source.conversationId = region.conversationId)).isEmpty
    · rw [if_pos hempty]
      rwa [isEmpty_iff.1 hempty] at hitems
    · rw [if_neg hempty]
      exact hitems
  | rememberReplyTargets store messages =>
    have htargets := Agree.rememberReplyTargets hapart h
    unfold IndexEvent.own
    dsimp only
    by_cases hempty : (messages.filter (fun message => message.conversationId = region.conversationId)).isEmpty
    · rw [if_pos hempty]
      rwa [isEmpty_iff.1 hempty] at htargets
    · rw [if_neg hempty]
      exact htargets

end ReplyRegion

/-! ## Rendering a page -/

namespace ReplyStore

variable {store : ReplyStore} {message : HydratedMessage} {n : Int}

theorem knows_search {search : ReplySearch} (h : search.index.Knows n) (messages : List HydratedMessage) :
    (messages.foldl (store.searchMessage none) search).index.Knows n := by
  refine List.foldlRecOn (motive := fun search => search.index.Knows n) messages (store.searchMessage none) h ?_
  intro search hs message _
  rw [searchMessage_eq]
  exact MessageIndex.Knows.writeAll hs _

theorem knows_bindTargets {search : ReplySearch} (h : search.index.Knows n) : (store.bindTargets none search).Knows n := by
  have hbind : ∀ (found : HydratedMessage → Option ProjectedMessage) (entries : List (IndexKey × HydratedMessage))
      {i : MessageIndex}, i.Knows n → (entries.foldl (bindTarget none found) i).Knows n := by
    intro found entries i hi
    exact List.foldlRecOn (motive := fun i => i.Knows n) entries (bindTarget none found) hi
      (fun _ hi _ _ => MessageIndex.Knows.writeAll hi _)
  exact hbind _ _ (hbind _ _ h)

theorem knows_native (hdb : Filed store.db) (hn : nativeReplyTo message = some n)
    (hstored : (findProjectedByTlId store.contentOf store.db store.platformSessionId n message.conversationId).isSome)
    (search : ReplySearch) : (store.searchMessage none search message).index.Knows n := by
  rw [searchMessage_eq]
  obtain ⟨projected, hp⟩ := isSome_iff_exists.1 hstored
  obtain ⟨hseq, htl⟩ : qqReplySequenceFromMetadata message.metadata = none ∧ telegramReplyToMessageId message = some n := by
    unfold nativeReplyTo at hn
    split at hn
    · rename_i hseq
      exact ⟨isNone_iff_eq_none.1 hseq, hn⟩
    · cases hn
  have hdirect : store.directTarget search.index message =
      if Maps.has search.index.messageOutgoingByTl n then none else some projected := by
    unfold directTarget
    rw [hseq, htl]
    exact hp ▸ rfl
  dsimp only
  unfold directWrites
  rw [hdirect]
  by_cases hhas : Maps.has search.index.messageOutgoingByTl n = true
  · refine MessageIndex.Knows.writeAll ?_ _
    rw [Maps.has_eq_isSome] at hhas
    exact hhas
  · rw [if_neg hhas, map_some, getD_some, MessageIndex.writeAll_projected_none]
    obtain ⟨-, part, hpart, hid⟩ := conversationId_of_tlId hdb hp
    obtain ⟨item, hitem, htlId⟩ := ProjectedMessage.mem_items hpart
    rw [← hid, ← htlId]
    exact MessageIndex.knows_items hitem

theorem knows_target (hdb : Filed store.db) (hn : nativeReplyTo message = some n)
    (hstored : (findProjectedByTlId store.contentOf store.db store.platformSessionId n message.conversationId).isSome)
    {messages : List HydratedMessage} (hmem : message ∈ messages) (i : MessageIndex) :
    (store.rememberReplyTargets none i messages).Knows n := by
  obtain ⟨before, after, rfl⟩ := append_of_mem hmem
  refine knows_bindTargets ?_
  rw [foldl_append, foldl_cons]
  exact knows_search (knows_native hdb hn hstored _) after

end ReplyStore

namespace ReplyRegion

variable {region : ReplyRegion} {i j : MessageIndex} {store : ReplyStore} {source : HydratedMessage}

theorem Agree.messageReplyHeader (h : region.Agree i j) (hasks : region.Asks store source) :
    i.messageReplyHeader source = j.messageReplyHeader source := by
  have hkey : ∀ key : Option IndexKey, (∀ k, key = some k → region.keys k) →
      key.bind (Maps.get i.messageToTl) = key.bind (Maps.get j.messageToTl) := by
    intro key hk
    cases key with
    | none => rfl
    | some k => exact h.keys k (hk k rfl)
  unfold MessageIndex.messageReplyHeader
  rw [hkey _ hasks.reply, hkey _ hasks.sequence]

theorem Agree.header (h : region.Agree i j) (hasks : region.Asks store source) {id : Int}
    (hid : i.messageReplyHeader source = some id) :
    region.ids id ∧ (i.Knows id ∨ nativeReplyTo source = some id) := by
  have hkey : ∀ key : Option IndexKey, (∀ k, key = some k → region.keys k) →
      (key.bind (Maps.get i.messageToTl)).filter (fun id => id ≠ 0) = some id → region.ids id ∧ i.Knows id := by
    intro key hk hg
    obtain ⟨k, hkey, hlead⟩ := bind_eq_some_iff.1 (filter_eq_some_iff.1 hg).1
    exact ⟨h.leads k id (hk k hkey) hlead, h.known k id (hk k hkey) hlead⟩
  unfold MessageIndex.messageReplyHeader at hid
  rcases or_eq_some_iff.1 hid with hg | ⟨-, hg⟩
  · exact (hkey _ hasks.reply hg).imp_right Or.inl
  · rcases or_eq_some_iff.1 hg with hg | ⟨-, hg⟩
    · exact (hkey _ hasks.sequence hg).imp_right Or.inl
    · exact ⟨hasks.native id hg, Or.inr hg⟩

variable {ρ : Type}

theorem Agree.messageMentioned (h : region.Agree i j) (hasks : region.Asks store source) (r : Renderer ρ) :
    i.messageMentioned r source (i.messageReplyHeader source) =
      j.messageMentioned r source (i.messageReplyHeader source) := by
  unfold MessageIndex.messageMentioned
  cases hid : i.messageReplyHeader source with
  | none => rfl
  | some id => rw [bind_some, bind_some, h.outgoing id (h.header hasks hid).1]

theorem Agree.makeMessage (h : region.Agree i j) {item : MaterializedMessage}
    (hasks : region.Asks store item.source) (r : Renderer ρ) : i.makeMessage r item = j.makeMessage r item := by
  unfold MessageIndex.makeMessage
  dsimp only
  rw [h.messageMentioned hasks r, h.messageReplyHeader hasks]

/-- **When a message is shown as a mention.** -/
theorem Agree.mentioned_iff (h : region.Agree i j) {item : MaterializedMessage}
    (hasks : region.Asks store item.source)
    (hnative : ∀ n, nativeReplyTo item.source = some n → region.sent n = true → i.Knows n) (r : Renderer ρ) :
    (i.makeMessage r item).mentioned = true ↔
      item.ordinal = 0 ∧ (r.conversation item.source.conversationId).kind ≠ .direct ∧ item.source.outgoing = false ∧
        (messageMentionsUser item.source r.userId = true ∨
          ∃ id, (i.makeMessage r item).replyToTlId = some id ∧ region.sent id = true) := by
  have hsent : ((i.messageReplyHeader item.source).bind (Maps.get i.messageOutgoingByTl)).getD false = true ↔
      ∃ id, i.messageReplyHeader item.source = some id ∧ region.sent id = true := by
    cases hid : i.messageReplyHeader item.source with
    | none => simp
    | some id =>
      obtain ⟨hids, hknown⟩ := h.header hasks hid
      rw [bind_some]
      cases hg : Maps.get i.messageOutgoingByTl id with
      | some o =>
        rw [getD_some, h.sent id o hids hg]
        simp
      | none =>
        have hnot : ¬i.Knows id := fun hk => by
          unfold MessageIndex.Knows at hk
          rw [hg] at hk
          cases hk
        have hfalse : ¬region.sent id = true := fun hs => hnot (hknown.elim (fun hk => hk) (fun hn => hnative id hn hs))
        simp [hfalse]
  show (decide (item.ordinal = 0) && i.messageMentioned r item.source (i.messageReplyHeader item.source)) = true ↔ _
  unfold MessageIndex.messageMentioned
  rw [Bool.and_eq_true, Bool.and_eq_true, Bool.and_eq_true, Bool.or_eq_true, hsent, decide_eq_true_eq, decide_eq_true_eq,
    Bool.not_eq_true', and_assoc]
  rfl

theorem Agree.syncMentionStates (h : region.Agree i j) {history : List MaterializedMessage}
    (hasks : ∀ item ∈ history, region.Asks store item.source) (r : Renderer ρ) (unreadCount : Nat) :
    i.syncMentionStates r history unreadCount = j.syncMentionStates r history unreadCount := by
  have hlogical : ∀ item ∈ MessageIndex.logical history, item ∈ history := by
    intro item hitem
    obtain ⟨e, he, rfl⟩ := mem_map.1 ((mem_insertionSort _).1 hitem)
    obtain ⟨item', hitem', rfl⟩ := mem_map.1 (Maps.mem_of_mem_ofList he)
    exact mem_of_mem_filter hitem'
  unfold MessageIndex.syncMentionStates
  refine congrArg (List.map _) (filter_congr (fun item hitem => ?_))
  have hitem := hasks item (hlogical item hitem)
  rw [h.messageMentioned hitem r, h.messageReplyHeader hitem]

end ReplyRegion

def pageRun (store : ReplyStore) (page : List MaterializedMessage) (before : List IndexEvent) : List IndexEvent :=
  before ++ [.rememberReplyTargets store (page.map (fun item => item.source))]

theorem run_eq_of_room {limit : Option Nat} {events : List IndexEvent} (h : (MessageIndex.run none events).Room limit) :
    MessageIndex.run limit events = MessageIndex.run none events :=
  (step_follows limit).foldl.same MessageIndex.empty events ⟨Maps.Distinct.nil, Maps.Distinct.nil, Maps.Distinct.nil⟩ h

def plainFriend : IMConversation := { id := "friend", kind := .direct }

def plainRenderer : Renderer Unit where
  platformSessionId := "session"
  userId := "self"
  conversation := fun id => if id = "friend" then plainFriend else plainGroup
  topicId := fun _ _ => none
  rest := fun _ => ()

def shownMessage (conversationId id : String) (outgoing : Bool) : HydratedMessage :=
  { id := id, sourceIds := [id], conversationId := conversationId, senderId := "member", senderTitle := none,
    content := { parts := [] }, timestamp := 1700000000, outgoing := outgoing, recalled := false, replyToId := none,
    metadata := [] }

def shownItem (message : HydratedMessage) (tlId : Int) : MaterializedMessage :=
  { source := message, tlId := tlId, ordinal := 0 }

def emptyReplyStore : ReplyStore :=
  { contentOf := fun _ => { parts := [] }, platformSessionId := "session", db := Database.empty, fetched := Database.empty }

def shownQuestion : List IndexEvent := [.remember [shownItem (shownMessage "group" "question" true) 5]]

def shownAnswer : MaterializedMessage :=
  shownItem { shownMessage "group" "answer" false with replyToId := some "question" } 6

def shownElsewhere : List IndexEvent := .remember [shownItem (shownMessage "friend" "mine" true) 6] :: shownQuestion

def questionRegion : ReplyRegion where
  conversationId := "group"
  keys := fun key => key = .message "group" "question" 0
  ids := fun n => n = 5
  sent := fun n => n = 5
  own_keys := by
    rintro key rfl
    rfl

theorem apart_of_question : ∀ e ∈ pageRun emptyReplyStore [shownAnswer] shownElsewhere, questionRegion.Apart e := by
  intro e he
  have hanswers : emptyReplyStore.answers shownAnswer.source = [] := rfl
  have hcases : e = .remember [shownItem (shownMessage "friend" "mine" true) 6] ∨
      e = .remember [shownItem (shownMessage "group" "question" true) 5] ∨
      e = .rememberReplyTargets emptyReplyStore [shownAnswer.source] := by
    simpa [pageRun, shownElsewhere, shownQuestion] using he
  rcases hcases with rfl | rfl | rfl
  · intro item hitem
    rw [mem_singleton.1 hitem]
    refine ⟨fun hc => ?_, fun hc => ?_, fun _ hc => ?_⟩
    · exact absurd hc (by decide)
    · exact absurd hc (by decide)
    · exact absurd (show (6 : Int) = 5 from hc) (by decide)
  · intro item hitem
    rw [mem_singleton.1 hitem]
    exact ⟨fun _ _ _ _ => rfl, fun _ _ => rfl, fun hc => absurd rfl hc⟩
  · refine ⟨filed_empty, filed_empty, fun message hmem => ?_⟩
    rw [mem_singleton.1 hmem, hanswers]
    refine ⟨fun _ => ⟨fun key hk => ?_, fun key hk => ?_, fun n hn => ?_, fun projected hp => ?_⟩, fun projected hp => ?_⟩
    · exact (Option.some.inj hk).symm
    · cases hk
    · cases hn
    · rw [hanswers] at hp
      cases hp
    · cases hp

def coincidingStore : Database :=
  (MessageStore.step (MessageStore.step Database.empty
    (plainReader, .ingest plainSession plainGroup (plainMessage "theirs" [.text "theirs" []]) .live)).1
    (plainReader, .ingest plainSession plainFriend
      { plainMessage "mine" [.text "mine" []] with conversationId := "friend", senderId := "self", outgoing := true } .live)).1

def coincidingReplies : ReplyStore :=
  { contentOf := fun _ => { parts := [] }, platformSessionId := "session", db := coincidingStore, fetched := coincidingStore }

def showStored (conversationId id : String) : IndexEvent :=
  .remember (((findProjectedByPlatformId coincidingReplies.contentOf coincidingStore "session" conversationId id).map
    ProjectedMessage.items).getD [])

def nativeAnswer : MaterializedMessage :=
  shownItem { shownMessage "group" "answer" false with metadata := [("telegramReplyToMessageId", .num 1073741824)] } 1073741900

end Crossgram
