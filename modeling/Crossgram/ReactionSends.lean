import Crossgram.Lib.Ranks
import Crossgram.Lib.Results
import Crossgram.ReactionRows
/-!
# ReactionSends — reacting to a message (packages/bridge/src/dialogs.ts, reaction-rpc.ts, blocked-peers.ts)

`sendReaction` resolves the reactions of a request, lets the platform apply them, and marks the platform's answer with
one map of orders: those of the stored selection, then the reactions selected upstream, then the new ones.  A key in
that map is shown as selected.  The stored selection enters the map whether or not the request still names it.

The list of recently used reactions, which `markUsed` refreshes, is left out.
-/
namespace Crossgram

open List

inductive ReactionError
  | rpc (code : Nat) (text : String)
  | typeError

inductive TypeReaction
  | reactionEmoji (emoticon : String)
  | reactionCustomEmoji (documentId : Nat)
  | other

inductive Presentation
  | emoji (emoticon : String)
  | custom
deriving DecidableEq

def IMReactionDefinition.presentation (definition : IMReactionDefinition) : Option Presentation :=
  let type := hydratedString (definition.details.property "type")
  if type = some "emoji" then (hydratedString (definition.details.property "emoticon")).map Presentation.emoji
  else if type = some "custom" then some .custom
  else none

/-! ## Orders -/

/-- `reaction.selectedOrder ?? index + 1`; a stored order of 0 is read as none. -/
def keptOrder (index : Nat) (reaction : IMReactionSummary) : Nat :=
  if reaction.selectedOrder = 0 then index + 1 else reaction.selectedOrder

def keepOrders : List IMReactionSummary → Nat → Ranks String → Ranks String
  | [],            _,     r => r
  | reaction :: l, index, r => keepOrders l (index + 1) (r.keep reaction.key (keptOrder index reaction))

/-- `selectedOrder` with `nextSelectedOrder`, after the three loops. -/
def selectedOrders (persistedSelected : List IMReactionSummary) (previouslySelected selected : List String) :
    Ranks String :=
  let kept := keepOrders persistedSelected 0 Ranks.empty
  let previous := selected.foldl (fun r key =>
    if !r.has key && previouslySelected.contains key then r.raise key else r) kept
  previous.raiseAll (selected.filter (fun key => !previouslySelected.contains key))

def markSummary (orders : Ranks String) (summary : IMReactionSummary) : IMReactionSummary :=
  match orders.get summary.key with
  | some order => { summary with selected := true, selectedOrder := order }
  | none       => { summary with selectedOrder := 0 }

def markContext (orders : Ranks String) (updated : IMReactionContext) : IMReactionContext :=
  { updated with reactions := updated.reactions.map (markSummary orders) }

@[simp] theorem markSummary_key (orders : Ranks String) (s : IMReactionSummary) : (markSummary orders s).key = s.key := by
  unfold markSummary
  split <;> rfl

@[simp] theorem markSummary_count (orders : Ranks String) (s : IMReactionSummary) :
    (markSummary orders s).count = s.count := by
  unfold markSummary
  split <;> rfl

@[simp] theorem markSummary_recentActors (orders : Ranks String) (s : IMReactionSummary) :
    (markSummary orders s).recentActors = s.recentActors := by
  unfold markSummary
  split <;> rfl

theorem markSummary_selected {orders : Ranks String} {s : IMReactionSummary} :
    (markSummary orders s).selected = true ↔ (orders.get s.key).isSome = true ∨ s.selected = true := by
  unfold markSummary
  split
  · rename_i h
    simp [h]
  · rename_i h
    simp [h]

theorem markSummary_order {orders : Ranks String} {s : IMReactionSummary} {n : Nat} (h : orders.get s.key = some n) :
    (markSummary orders s).selectedOrder = n := by
  unfold markSummary
  rw [h]

theorem markContext_distinct {orders : Ranks String} {updated : IMReactionContext} (h : updated.Distinct) :
    (markContext orders updated).Distinct := by
  refine pairwise_map.2 (h.imp (fun {a b} hab => ?_))
  rw [markSummary_key, markSummary_key]
  exact hab

abbrev PersistedReaction := IMReactionSummary × Nat

def PersistedReaction.order (reaction : PersistedReaction) : Nat := keptOrder reaction.2 reaction.1

section Orders

variable {l persistedSelected : List IMReactionSummary} {previouslySelected selected : List String} {k k' : String}

theorem bounded_keepOrders : ∀ (l : List IMReactionSummary) (index : Nat) {r : Ranks String}, r.Bounded →
    (keepOrders l index r).Bounded
  | [],            _,     _, h => h
  | _ :: l,        index, _, h => bounded_keepOrders l (index + 1) (h.keep _ _)

theorem get_keepOrders_of_other : ∀ (l : List IMReactionSummary) (index : Nat) (r : Ranks String),
    (∀ reaction ∈ l, reaction.key ≠ k) → (keepOrders l index r).get k = r.get k
  | [],            _,     _, _ => rfl
  | reaction :: l, index, r, h => by
    rw [keepOrders, get_keepOrders_of_other l (index + 1) _ (fun s hs => h s (mem_cons_of_mem _ hs)),
      Ranks.get_keep, if_neg (Ne.symm (h reaction mem_cons_self))]

theorem get_keepOrders {e : PersistedReaction} : ∀ (l : List IMReactionSummary) (index : Nat) (r : Ranks String),
    l.Pairwise (fun a b => a.key ≠ b.key) → e ∈ l.zipIdx index → (keepOrders l index r).get e.1.key = some e.order
  | [],            _,     _, _,  h => by cases h
  | reaction :: l, index, r, hd, h => by
    rw [zipIdx_cons] at h
    rcases mem_cons.1 h with rfl | h
    · rw [keepOrders, get_keepOrders_of_other l _ _ (fun s hs => Ne.symm (rel_of_pairwise_cons hd hs)),
        Ranks.get_keep, if_pos rfl]
      rfl
    · exact get_keepOrders l (index + 1) _ hd.of_cons h

theorem mem_of_get_keepOrders {n : Nat} (hd : l.Pairwise (fun a b => a.key ≠ b.key))
    (h : (keepOrders l 0 Ranks.empty).get k = some n) : ∃ e ∈ l.zipIdx, e.1.key = k ∧ PersistedReaction.order e = n := by
  by_cases hk : ∃ reaction ∈ l, reaction.key = k
  · obtain ⟨reaction, hr, rfl⟩ := hk
    obtain ⟨e, he, rfl⟩ : ∃ e ∈ l.zipIdx, e.1 = reaction := by
      have hmem : reaction ∈ (l.zipIdx).map Prod.fst := by rw [zipIdx_map_fst]; exact hr
      exact mem_map.1 hmem
    refine ⟨e, he, rfl, ?_⟩
    have hget : (keepOrders l 0 Ranks.empty).get e.1.key = some (PersistedReaction.order e) := get_keepOrders l 0 _ hd he
    rw [h, Option.some.injEq] at hget
    exact hget.symm
  · rw [get_keepOrders_of_other l 0 _ (fun s hs hc => hk ⟨s, hs, hc⟩)] at h
    cases h

theorem previous_eq_raiseMissing (r : Ranks String) : selected.foldl (fun r key =>
      if !r.has key && previouslySelected.contains key then r.raise key else r) r =
    r.raiseMissing (selected.filter (fun key => previouslySelected.contains key)) := by
  rw [Ranks.raiseMissing, foldl_filter]
  congr 1
  funext r key
  cases r.has key <;> cases previouslySelected.contains key <;> rfl

theorem selectedOrders_eq : selectedOrders persistedSelected previouslySelected selected =
    ((keepOrders persistedSelected 0 Ranks.empty).raiseMissing
      (selected.filter (fun key => previouslySelected.contains key))).raiseAll
        (selected.filter (fun key => !previouslySelected.contains key)) := by
  rw [selectedOrders, previous_eq_raiseMissing]

theorem selectedOrders_of_notMem (hk : k ∉ selected) :
    (selectedOrders persistedSelected previouslySelected selected).get k =
      (keepOrders persistedSelected 0 Ranks.empty).get k := by
  rw [selectedOrders_eq, Ranks.get_raiseAll_of_notMem _ _ (fun h => hk (mem_of_mem_filter h)),
    Ranks.get_raiseMissing_of_notMem _ _ (fun h => hk (mem_of_mem_filter h))]

theorem selectedOrders_of_previous (hk : k ∈ previouslySelected) :
    (selectedOrders persistedSelected previouslySelected selected).get k =
      ((keepOrders persistedSelected 0 Ranks.empty).raiseMissing
        (selected.filter (fun key => previouslySelected.contains key))).get k := by
  rw [selectedOrders_eq, Ranks.get_raiseAll_of_notMem]
  simp [hk]

theorem selectedOrders_of_new (persistedSelected : List IMReactionSummary) (hk : k ∈ selected) (hnot : k ∉ previouslySelected) :
    ∃ n, (selectedOrders persistedSelected previouslySelected selected).get k = some n ∧
      ((keepOrders persistedSelected 0 Ranks.empty).raiseMissing
        (selected.filter (fun key => previouslySelected.contains key))).top < n := by
  have hmem : k ∈ selected.filter (fun key => !previouslySelected.contains key) :=
    mem_filter.2 ⟨hk, by simpa using hnot⟩
  rw [selectedOrders_eq]
  exact Ranks.get_raiseAll_of_mem _ _ hmem

/-- **Every requested reaction has an order.** -/
theorem exists_selectedOrder (persistedSelected : List IMReactionSummary) (hk : k ∈ selected) :
    ∃ n, (selectedOrders persistedSelected previouslySelected selected).get k = some n := by
  by_cases hp : k ∈ previouslySelected
  · rw [selectedOrders_of_previous hp]
    exact Ranks.get_raiseMissing_of_mem _ (mem_filter.2 ⟨hk, by simpa using hp⟩)
  · obtain ⟨n, hn, _⟩ := selectedOrders_of_new persistedSelected hk hp
    exact ⟨n, hn⟩

theorem selectedOrders_of_kept (hd : persistedSelected.Pairwise (fun a b => a.key ≠ b.key)) {e : PersistedReaction}
    (he : e ∈ persistedSelected.zipIdx) (hp : e.1.key ∈ previouslySelected) :
    (selectedOrders persistedSelected previouslySelected selected).get e.1.key = some e.order := by
  rw [selectedOrders_of_previous hp]
  exact Ranks.get_raiseMissing_of_has _ (get_keepOrders _ 0 _ hd he)

theorem selectedOrders_isSome (hd : persistedSelected.Pairwise (fun a b => a.key ≠ b.key)) :
    ((selectedOrders persistedSelected previouslySelected selected).get k).isSome = true ↔
      k ∈ selected ∨ ∃ reaction ∈ persistedSelected, reaction.key = k := by
  by_cases hk : k ∈ selected
  · refine ⟨fun _ => Or.inl hk, fun _ => ?_⟩
    rw [Option.isSome_iff_exists]
    exact exists_selectedOrder _ hk
  · rw [selectedOrders_of_notMem hk]
    constructor
    · intro h
      obtain ⟨n, hn⟩ := Option.isSome_iff_exists.1 h
      obtain ⟨e, he, hkey, _⟩ := mem_of_get_keepOrders hd hn
      exact Or.inr ⟨e.1, fst_mem_of_mem_zipIdx he, hkey⟩
    · rintro (h | ⟨reaction, hr, rfl⟩)
      · exact absurd h hk
      · obtain ⟨e, he, rfl⟩ : ∃ e ∈ persistedSelected.zipIdx, e.1 = reaction := by
          have hmem : reaction ∈ (persistedSelected.zipIdx).map Prod.fst := by rw [zipIdx_map_fst]; exact hr
          exact mem_map.1 hmem
        rw [get_keepOrders _ 0 _ hd he]
        rfl

/-- **The new reactions come after those selected before.** -/
theorem selectedOrders_lt {n n' : Nat} (hnew : k' ∈ selected) (hnot : k' ∉ previouslySelected)
    (hp : k ∈ previouslySelected) (hn : (selectedOrders persistedSelected previouslySelected selected).get k = some n)
    (hn' : (selectedOrders persistedSelected previouslySelected selected).get k' = some n') : n < n' := by
  rw [selectedOrders_of_previous hp] at hn
  have hbounded := (Ranks.raised_raiseMissing (selected.filter (fun key => previouslySelected.contains key)) _).bounded
    (bounded_keepOrders persistedSelected 0 Ranks.bounded_empty)
  have hle := hbounded k n hn
  obtain ⟨m, hm, htop⟩ := selectedOrders_of_new persistedSelected hnew hnot
  rw [hn', Option.some.injEq] at hm
  omega

/-- **Two requested reactions share an order only when their stored orders were one.** -/
theorem selectedOrders_own {n : Nat} (hd : persistedSelected.Pairwise (fun a b => a.key ≠ b.key))
    (hk : k ∈ selected) (hk' : k' ∈ selected)
    (hn : (selectedOrders persistedSelected previouslySelected selected).get k = some n)
    (hn' : (selectedOrders persistedSelected previouslySelected selected).get k' = some n) :
    k = k' ∨ ∃ e ∈ persistedSelected.zipIdx, ∃ e' ∈ persistedSelected.zipIdx, e.1.key = k ∧ e'.1.key = k' ∧
      k ∈ previouslySelected ∧ k' ∈ previouslySelected ∧
      PersistedReaction.order e = n ∧ PersistedReaction.order e' = n := by
  have hbounded := bounded_keepOrders persistedSelected 0 Ranks.bounded_empty
  have hmissing := Ranks.raised_raiseMissing (selected.filter (fun key => previouslySelected.contains key))
    (keepOrders persistedSelected 0 Ranks.empty)
  have hraised : Ranks.Raised (keepOrders persistedSelected 0 Ranks.empty)
      (selectedOrders persistedSelected previouslySelected selected) := by
    rw [selectedOrders_eq]
    exact hmissing.trans (Ranks.raised_raiseAll _ _)
  by_cases htop : (keepOrders persistedSelected 0 Ranks.empty).top < n
  · exact Or.inl (hraised.own hbounded k k' n hn hn' htop)
  · -- an order that is not above the stored ones is a stored one
    have hstored : ∀ k₀ ∈ selected, (selectedOrders persistedSelected previouslySelected selected).get k₀ = some n →
        k₀ ∈ previouslySelected ∧ ∃ e ∈ persistedSelected.zipIdx, e.1.key = k₀ ∧ PersistedReaction.order e = n := by
      intro k₀ hmem hget
      constructor
      · by_contra hnot
        obtain ⟨m, hm, hlt⟩ := selectedOrders_of_new persistedSelected hmem hnot
        rw [hget, Option.some.injEq] at hm
        exact htop (hm ▸ Nat.lt_of_le_of_lt hmissing.top hlt)
      · rcases hraised.kept k₀ with heq | ⟨m, hm, hlt⟩
        · exact mem_of_get_keepOrders hd (heq ▸ hget)
        · rw [hget, Option.some.injEq] at hm
          exact absurd (hm ▸ hlt) htop
    obtain ⟨hp, e, he, hkey, hen⟩ := hstored k hk hn
    obtain ⟨hp', e', he', hkey', hen'⟩ := hstored k' hk' hn'
    exact Or.inr ⟨e, he, e', he', hkey, hkey', hp, hp', hen, hen'⟩

end Orders

/-! ## Blocked actors -/

inductive BlockedContentMode
  | shown | hideUser | hideRelated
deriving DecidableEq

structure BlockedPeers where
  mode : BlockedContentMode
  blocked : List String

def BlockedPeers.isBlocked (peers : BlockedPeers) (userId : String) : Bool := peers.blocked.contains userId

def BlockedPeers.blockedActors (peers : BlockedPeers) (summary : IMReactionSummary) : Nat :=
  (summary.recentActors.filter peers.isBlocked).length

def BlockedPeers.filterSummary (peers : BlockedPeers) (summary : IMReactionSummary) : Option IMReactionSummary :=
  let count := summary.count - peers.blockedActors summary
  if count = 0 then none
  else some { summary with count := count, recentActors := summary.recentActors.filter (fun id => !peers.isBlocked id) }

def BlockedPeers.filterReactionContext (peers : BlockedPeers) (context : IMReactionContext) : IMReactionContext :=
  if peers.mode = .shown then context
  else if context.reactions.any (fun summary => 0 < peers.blockedActors summary) then
    { context with reactions := context.reactions.filterMap peers.filterSummary }
  else context

/-- `this._blockedPeers?.filterMessageReactions(…) ?? result.message`, down to the reactions. -/
def visibleContext (peers : Option BlockedPeers) (context : Option IMReactionContext) : Option IMReactionContext :=
  match peers with
  | some peers => context.map peers.filterReactionContext
  | none       => context

section Blocked

variable {peers : BlockedPeers} {context : IMReactionContext} {s : IMReactionSummary}

theorem filterSummary_eq_some {s₀ : IMReactionSummary} (h : peers.filterSummary s₀ = some s) :
    peers.blockedActors s₀ < s₀.count ∧ s.key = s₀.key ∧ s.selected = s₀.selected ∧ s.selectedOrder = s₀.selectedOrder := by
  unfold BlockedPeers.filterSummary at h
  dsimp only at h
  split at h
  · cases h
  · cases h
    exact ⟨by omega, rfl, rfl, rfl⟩

theorem filterSummary_isSome (h : peers.blockedActors s < s.count) : ∃ s', peers.filterSummary s = some s' := by
  unfold BlockedPeers.filterSummary
  dsimp only
  rw [if_neg (by omega)]
  exact ⟨_, rfl⟩

@[simp] theorem filterReactionContext_available (peers : BlockedPeers) (context : IMReactionContext) :
    (peers.filterReactionContext context).available = context.available := by
  unfold BlockedPeers.filterReactionContext
  split
  · rfl
  · split <;> rfl

theorem mem_filterReactionContext (h : s ∈ (peers.filterReactionContext context).reactions) :
    ∃ s₀ ∈ context.reactions, s.key = s₀.key ∧ s.selected = s₀.selected ∧ s.selectedOrder = s₀.selectedOrder ∧
      (0 < s₀.count → peers.mode = .shown ∨ peers.blockedActors s₀ < s₀.count) := by
  unfold BlockedPeers.filterReactionContext at h
  split at h
  · rename_i hmode
    exact ⟨s, h, rfl, rfl, rfl, fun _ => Or.inl hmode⟩
  · split at h
    · obtain ⟨s₀, hs₀, hs⟩ := mem_filterMap.1 h
      obtain ⟨hlt, hkey, hsel, horder⟩ := filterSummary_eq_some hs
      exact ⟨s₀, hs₀, hkey, hsel, horder, fun _ => Or.inr hlt⟩
    · rename_i hnone
      refine ⟨s, h, rfl, rfl, rfl, fun hcount => Or.inr ?_⟩
      have hzero : ¬0 < peers.blockedActors s := fun hpos =>
        hnone (any_eq_true.2 ⟨s, h, decide_eq_true hpos⟩)
      omega

theorem exists_filterReactionContext (hs : s ∈ context.reactions)
    (h : peers.mode = .shown ∨ peers.blockedActors s < s.count) :
    ∃ s' ∈ (peers.filterReactionContext context).reactions, s'.key = s.key ∧ s'.selected = s.selected := by
  unfold BlockedPeers.filterReactionContext
  split
  · exact ⟨s, hs, rfl, rfl⟩
  · rename_i hmode
    split
    · obtain ⟨s', hs'⟩ := filterSummary_isSome (h.resolve_left hmode)
      obtain ⟨_, hkey, hsel, _⟩ := filterSummary_eq_some hs'
      exact ⟨s', mem_filterMap.2 ⟨s, hs, hs'⟩, hkey, hsel⟩
    · exact ⟨s, hs, rfl, rfl⟩

end Blocked

/-! ## The answer -/

/-- A `reactionCount`, with the definition it shows. -/
structure ReactionCount where
  definition : IMReactionDefinition
  reaction : TypeReaction
  chosenOrder : Option Nat
  count : Nat

structure MessageReactions where
  results : List ReactionCount
  recentReactions : List (TypeReaction × String)

section Rpc

-- `customReactionDocumentId` of the session: a hash of the key and the version of the resource.
variable (documentId : IMReactionDefinition → Nat)

def toTlReaction (definition : IMReactionDefinition) : TypeReaction :=
  match definition.presentation with
  | some (.emoji emoticon) => .reactionEmoji emoticon
  | _                      => .reactionCustomEmoji (documentId definition)

def reactionCount (summary : IMReactionSummary) (definition : IMReactionDefinition) : ReactionCount :=
  { definition := definition, reaction := toTlReaction documentId definition,
    chosenOrder := if summary.selected then some summary.selectedOrder else none, count := summary.count }

def definitionsByKey (context : Option IMReactionContext) : List (String × IMReactionDefinition) :=
  Maps.ofList (((context.map (fun context => context.available)).getD []).map (fun d => (d.key, d)))

def messageReactions (context : Option IMReactionContext) : MessageReactions :=
  { results := (shownReactions context).filterMap (fun summary =>
      (Maps.get (definitionsByKey context) summary.key).map (reactionCount documentId summary))
    recentReactions := (shownReactions context).flatMap (fun summary =>
      match Maps.get (definitionsByKey context) summary.key with
      | some definition => (summary.recentActors.take 3).map (fun actor => (toTlReaction documentId definition, actor))
      | none            => []) }

theorem get_definitionsByKey {context : Option IMReactionContext} {k : String} {d : IMReactionDefinition}
    (h : Maps.get (definitionsByKey context) k = some d) : d.key = k := by
  obtain ⟨d', _, he⟩ := mem_map.1 (Maps.mem_of_mem_ofList (Maps.mem_of_get h))
  cases he
  rfl

theorem exists_definitionsByKey {context : IMReactionContext} {k : String} (h : ∃ d ∈ context.available, d.key = k) :
    ∃ d, Maps.get (definitionsByKey (some context)) k = some d := by
  obtain ⟨d, hd, rfl⟩ := h
  rw [← Option.isSome_iff_exists, ← Maps.has_eq_isSome, definitionsByKey, Maps.has_eq_isSome, Maps.get_ofList,
    ← Maps.has_eq_isSome, Maps.has_iff]
  exact ⟨(d.key, d), mem_reverse.2 (mem_map.2 ⟨d, hd, rfl⟩), rfl⟩

variable {documentId} in
theorem mem_results {context : Option IMReactionContext} {c : ReactionCount} :
    c ∈ (messageReactions documentId context).results ↔ ∃ s ∈ shownReactions context, ∃ d,
      Maps.get (definitionsByKey context) s.key = some d ∧ reactionCount documentId s d = c := by
  simp [messageReactions]

/-! ## The request -/

def matchesInput (reaction : TypeReaction) (definition : IMReactionDefinition) : Bool :=
  match reaction with
  | .reactionEmoji emoticon          => definition.presentation = some (.emoji emoticon)
  | .reactionCustomEmoji requestedId => definition.presentation = some .custom ∧ documentId definition = requestedId
  | .other                           => false

/-- `resolveInput`.  The entries are those known before: what `registerContext` adds is found in the context itself. -/
def resolveInput (entry : Nat → Option IMReactionDefinition) (context : IMReactionContext) (reaction : TypeReaction) :
    Except ReactionError IMReactionDefinition :=
  match context.available.find? (matchesInput documentId reaction) with
  | some found => .ok found
  | none       =>
    match reaction with
    | .reactionCustomEmoji requestedId =>
      match (entry requestedId).bind (fun retired => context.available.find? (fun d => d.key = retired.key)) with
      | some current => .ok current
      | none         => .error (.rpc 400 "REACTION_INVALID")
    | _ => .error (.rpc 400 "REACTION_INVALID")

/-- What the platform answers: its reactions for the message, when it has the method, and the context after it
applied some keys, unless the message is gone. -/
structure ReactionPlatform where
  write : Bool
  available : Option IMReactionContext
  setMessageReactions : List String → Option IMReactionContext

/-- What a request comes to before the platform applies it. -/
structure ReactionRequest where
  targetId : String
  persistedSelected : List IMReactionSummary
  previouslySelected : List String
  selected : List String

def ReactionRequest.orders (request : ReactionRequest) : Ranks String :=
  selectedOrders request.persistedSelected request.previouslySelected request.selected

/-- The live message a Telegram id stands for in a conversation (`findProjectedByTlId`). -/
def messageByTlId (db : Database) (session : PlatformSession) (conversation : IMConversation) (msgId : Int) :
    Option IMMessageRow :=
  (db.conversations.first (isConversation session.platformSessionId conversation.id)).bind (fun row =>
    (db.tables.parts.first (fun part => part.platformSessionId = session.platformSessionId ∧ part.tlMessageId = msgId ∧
      part.conversationId = row.id)).bind (fun part =>
        (db.tables.messageById part.messageId).filter (fun message => message.deleted = false)))

/-- `sourceIds?.[0] ?? id`. -/
def targetIdOf (t : MessageTables) (row : IMMessageRow) : String :=
  (((t.aliases.get (fun known => known.messageId = row.id)).insertionSort (fun a b => a.ordinal ≤ b.ordinal)).map
    (fun known => known.platformMessageId)).head?.getD row.primaryPlatformMessageId

section Session

variable (platform : ReactionPlatform) (peers : Option BlockedPeers) (entry : Nat → Option IMReactionDefinition)
  (session : PlatformSession) (conversation : IMConversation) (readOnly : Bool) (hidden : IMMessageRow → Bool)

/-- `sendReaction`, up to the call of the platform. -/
def readRequest (db : Database) (msgId : Int) (reactions : List TypeReaction) : Except ReactionError ReactionRequest :=
  if !platform.write then .error (.rpc 400 "REACTION_INVALID")
  else if readOnly then .error (.rpc 400 "CHAT_WRITE_FORBIDDEN")
  else
    match (messageByTlId db session conversation msgId).filter (fun row => !hidden row) with
    | none     => .error (.rpc 400 "MSG_ID_INVALID")
    | some row =>
      let persisted := hydrateReactionContext db.tables.reactions row
      let context := (platform.available.or persisted).getD { available := [], reactions := [], maxSelected := 0 }
      (reactions.mapM (resolveInput documentId entry context)).bind (fun selected =>
        if context.maxSelected < selected.length then .error (.rpc 400 "REACTIONS_TOO_MANY")
        else .ok
          { targetId := targetIdOf db.tables row
            persistedSelected := (shownReactions persisted).filter (fun reaction => reaction.selected)
            previouslySelected := (context.reactions.filter (fun reaction => reaction.selected)).map (fun r => r.key)
            selected := selected.map (fun definition => definition.key) })

def targetRow (db : Database) (targetId : String) : Option IMMessageRow :=
  let row := (upsertConversation db session conversation none).2
  (db.tables.aliases.first (isAlias session.platformSessionId row.id targetId)).bind (fun known =>
    (db.tables.messageById known.messageId).filter (fun message => message.deleted = false))

/-- `setReactions`, down to the message of its result. -/
def setReactions (db : Database) (targetId : String) (context : IMReactionContext) : Database × Option IMMessageRow :=
  let upserted := (upsertConversation db session conversation none).1
  match targetRow session conversation db targetId with
  | none     => (upserted, none)
  | some row => ({ upserted with tables := replaceReactions upserted.tables row.id (some context) }, some row)

structure ReactionOutcome where
  database : Database
  row : IMMessageRow
  reactions : MessageReactions

def ReactionOutcome.stored (outcome : ReactionOutcome) : Option IMReactionContext :=
  hydrateReactionContext outcome.database.tables.reactions outcome.row

/-- `sendReaction`: the request is read from one state of the store and written to a later one. -/
def sendReaction (db dbAtWrite : Database) (msgId : Int) (reactions : List TypeReaction) :
    Except ReactionError ReactionOutcome :=
  (readRequest documentId platform entry session conversation readOnly hidden db msgId reactions).bind (fun request =>
    match platform.setMessageReactions request.selected with
    | none         => .error (.rpc 400 "REACTION_INVALID")
    | some updated =>
      match setReactions session conversation dbAtWrite request.targetId (markContext request.orders updated) with
      | (_,        none)     => .error .typeError
      | (database, some row) =>
        .ok { database := database, row := row
              reactions := messageReactions documentId
                (visibleContext peers (hydrateReactionContext database.tables.reactions row)) })

end Session

/-! ## What was asked is what is selected -/

structure Truthful (selected : List String) (updated : IMReactionContext) : Prop where
  distinct : updated.Distinct
  selected_iff : ∀ s ∈ updated.reactions, s.selected = true ↔ s.key ∈ selected
  present : ∀ k ∈ selected, ∃ s ∈ updated.reactions, s.key = k
  counted : ∀ s ∈ updated.reactions, s.selected = true → 0 < s.count

def ReactionRequest.stillSelected (request : ReactionRequest) : List PersistedReaction :=
  request.persistedSelected.zipIdx.filter (fun e => e.1.key ∈ request.selected ∧ e.1.key ∈ request.previouslySelected)

structure Selects (request : ReactionRequest) (outcome : ReactionOutcome) : Prop where
  stored : ∀ k, (∃ s ∈ shownReactions outcome.stored, s.key = k ∧ s.selected = true) ↔ k ∈ request.selected
  update : ∀ k, (∃ c ∈ outcome.reactions.results, c.definition.key = k ∧ c.chosenOrder.isSome = true) ↔
    k ∈ request.selected
  agree : ∀ c ∈ outcome.reactions.results, ∃ s ∈ shownReactions outcome.stored, s.key = c.definition.key ∧
    c.chosenOrder = if s.selected then some s.selectedOrder else none
  distinct : ∀ s ∈ shownReactions outcome.stored, ∀ s' ∈ shownReactions outcome.stored,
    s.selected = true → s'.selected = true → s.selectedOrder = s'.selectedOrder → s.key = s'.key
  kept : ∀ s ∈ shownReactions outcome.stored, ∀ s' ∈ shownReactions outcome.stored,
    ∀ e ∈ request.stillSelected, ∀ e' ∈ request.stillSelected, e.1.key = s.key → e'.1.key = s'.key →
      e.order < e'.order → s.selectedOrder < s'.selectedOrder
  newLast : ∀ s ∈ shownReactions outcome.stored, ∀ s' ∈ shownReactions outcome.stored,
    s.selected = true → s'.selected = true → s.key ∈ request.previouslySelected →
      s'.key ∉ request.previouslySelected → s.selectedOrder < s'.selectedOrder

def Unblocked (peers : Option BlockedPeers) (summary : IMReactionSummary) : Prop :=
  ∀ p, peers = some p → p.mode = .shown ∨ p.blockedActors summary < summary.count

structure CarriesOut (peers : Option BlockedPeers) (t : MessageTables) (row : IMMessageRow) (request : ReactionRequest)
    (updated : IMReactionContext) : Prop where
  /-- No stored selection that the request drops is still among the reactions of the answer. -/
  dropped : ∀ reaction ∈ request.persistedSelected, reaction.key ∉ request.selected →
    (∃ s ∈ updated.reactions, s.key = reaction.key) → ¬Defined t row.id updated reaction.key
  defined : ∀ k ∈ request.selected, Defined t row.id updated k
  orders : (request.stillSelected.map PersistedReaction.order).Nodup
  unblocked : ∀ s ∈ updated.reactions, s.key ∈ request.selected → Unblocked peers s

section Stored

variable {request : ReactionRequest} {peers : Option BlockedPeers} {t : MessageTables} {row : IMMessageRow}
  {updated : IMReactionContext} {stored : Option IMReactionContext}

structure StoredAs (request : ReactionRequest) (t : MessageTables) (row : IMMessageRow) (updated : IMReactionContext)
    (stored : Option IMReactionContext) : Prop where
  mem : ∀ s, s ∈ shownReactions stored ↔ s ∈ (markContext request.orders updated).reactions ∧
    (0 < s.count ∨ s.selected = true) ∧ Defined t row.id updated s.key
  distinct : (shownReactions stored).Pairwise (fun a b => a.key ≠ b.key)
  available : ∀ context, stored = some context → ∀ s ∈ context.reactions, ∃ d ∈ context.available, d.key = s.key

variable {s : IMReactionSummary}

theorem mem_visible (hs : s ∈ shownReactions (visibleContext peers stored)) :
    ∃ s₀ ∈ shownReactions stored, s.key = s₀.key ∧ s.selected = s₀.selected ∧ s.selectedOrder = s₀.selectedOrder ∧
      (0 < s₀.count → Unblocked peers s₀) := by
  cases peers with
  | none => exact ⟨s, hs, rfl, rfl, rfl, fun _ p hp => by cases hp⟩
  | some peers =>
    cases stored with
    | none => cases hs
    | some context =>
      have hin : s ∈ (peers.filterReactionContext context).reactions := hs
      obtain ⟨s₀, hs₀, hkey, hsel, horder, hleft⟩ := mem_filterReactionContext hin
      refine ⟨s₀, hs₀, hkey, hsel, horder, fun hcount p hp => ?_⟩
      cases hp
      exact hleft hcount

theorem exists_visible (hs : s ∈ shownReactions stored) (h : Unblocked peers s) :
    ∃ s' ∈ shownReactions (visibleContext peers stored), s'.key = s.key ∧ s'.selected = s.selected := by
  cases peers with
  | none => exact ⟨s, hs, rfl, rfl⟩
  | some peers =>
    cases stored with
    | none => cases hs
    | some context =>
      have hin : s ∈ context.reactions := hs
      exact exists_filterReactionContext hin (h peers rfl)

theorem StoredAs.visible (hstored : StoredAs request t row updated stored)
    (hs : s ∈ shownReactions (visibleContext peers stored)) :
    ∃ d, Maps.get (definitionsByKey (visibleContext peers stored)) s.key = some d := by
  obtain ⟨s₀, hs₀, hkey, _⟩ := mem_visible hs
  rw [hkey]
  cases stored with
  | none => cases hs₀
  | some context =>
    have hav := hstored.available context rfl s₀ hs₀
    cases peers with
    | none => exact exists_definitionsByKey hav
    | some peers => exact exists_definitionsByKey (filterReactionContext_available peers context ▸ hav)

theorem visible_agree {c : ReactionCount}
    (hc : c ∈ (messageReactions documentId (visibleContext peers stored)).results) :
    ∃ s ∈ shownReactions stored, s.key = c.definition.key ∧
      c.chosenOrder = if s.selected then some s.selectedOrder else none := by
  obtain ⟨s, hs, d, hd, rfl⟩ := mem_results.1 hc
  obtain ⟨s₀, hs₀, hkey, hsel, horder, _⟩ := mem_visible hs
  refine ⟨s₀, hs₀, hkey.symm.trans (get_definitionsByKey hd).symm, ?_⟩
  rw [← hsel, ← horder]
  rfl

theorem StoredAs.result_iff (hstored : StoredAs request t row updated stored) (k : String) :
    (∃ c ∈ (messageReactions documentId (visibleContext peers stored)).results,
      c.definition.key = k ∧ c.chosenOrder.isSome = true) ↔
    ∃ s ∈ shownReactions (visibleContext peers stored), s.key = k ∧ s.selected = true := by
  constructor
  · rintro ⟨c, hc, rfl, hchosen⟩
    obtain ⟨s, hs, d, hd, rfl⟩ := mem_results.1 hc
    refine ⟨s, hs, (get_definitionsByKey hd).symm, ?_⟩
    by_contra hnot
    rw [reactionCount, if_neg hnot] at hchosen
    cases hchosen
  · rintro ⟨s, hs, rfl, hsel⟩
    obtain ⟨d, hd⟩ := hstored.visible hs
    refine ⟨_, mem_results.2 ⟨s, hs, d, hd, rfl⟩, get_definitionsByKey hd, ?_⟩
    rw [reactionCount, if_pos hsel]
    rfl

variable (hp : request.persistedSelected.Pairwise (fun a b => a.key ≠ b.key)) (ht : Truthful request.selected updated)
  (hstored : StoredAs request t row updated stored)
include hp ht hstored

/-- **What is stored as selected**: the request and the stored selection, as far as the answer has them. -/
theorem StoredAs.selected_iff (k : String) : (∃ s ∈ shownReactions stored, s.key = k ∧ s.selected = true) ↔
    (k ∈ request.selected ∨ ∃ reaction ∈ request.persistedSelected, reaction.key = k) ∧
      (∃ s ∈ updated.reactions, s.key = k) ∧ Defined t row.id updated k := by
  constructor
  · rintro ⟨s, hs, rfl, hsel⟩
    obtain ⟨hmem, _, hdefined⟩ := (hstored.mem s).1 hs
    obtain ⟨s₀, hs₀, rfl⟩ := mem_map.1 hmem
    rw [markSummary_key] at hdefined ⊢
    refine ⟨?_, ⟨s₀, hs₀, rfl⟩, hdefined⟩
    rcases markSummary_selected.1 hsel with hget | hown
    · exact (selectedOrders_isSome hp).1 hget
    · exact Or.inl ((ht.selected_iff s₀ hs₀).1 hown)
  · rintro ⟨hk, ⟨s₀, hs₀, rfl⟩, hdefined⟩
    have hsel : (markSummary request.orders s₀).selected = true :=
      markSummary_selected.2 (Or.inl ((selectedOrders_isSome hp).2 hk))
    refine ⟨markSummary request.orders s₀, (hstored.mem _).2 ⟨mem_map.2 ⟨s₀, hs₀, rfl⟩, Or.inr hsel, ?_⟩,
      markSummary_key _ _, hsel⟩
    rw [markSummary_key]
    exact hdefined

theorem StoredAs.stored_iff : (∀ k, (∃ s ∈ shownReactions stored, s.key = k ∧ s.selected = true) ↔ k ∈ request.selected) ↔
    (∀ reaction ∈ request.persistedSelected, reaction.key ∉ request.selected →
      (∃ s ∈ updated.reactions, s.key = reaction.key) → ¬Defined t row.id updated reaction.key) ∧
    ∀ k ∈ request.selected, Defined t row.id updated k := by
  constructor
  · intro h
    refine ⟨fun reaction hr hnot hthere hdefined => hnot ((h reaction.key).1 ?_), fun k hk => ?_⟩
    · exact (hstored.selected_iff hp ht reaction.key).2 ⟨Or.inr ⟨reaction, hr, rfl⟩, hthere, hdefined⟩
    · exact ((hstored.selected_iff hp ht k).1 ((h k).2 hk)).2.2
  · rintro ⟨hdropped, hdefined⟩ k
    rw [hstored.selected_iff hp ht k]
    constructor
    · rintro ⟨hk | ⟨reaction, hr, rfl⟩, hthere, hdef⟩
      · exact hk
      · by_contra hnot
        exact hdropped reaction hr hnot hthere hdef
    · intro hk
      exact ⟨Or.inl hk, ht.present k hk, hdefined k hk⟩

omit hp ht in
theorem StoredAs.order (hs : s ∈ shownReactions stored) {n : Nat}
    (h : request.orders.get s.key = some n) : s.selectedOrder = n := by
  obtain ⟨s₀, _, rfl⟩ := mem_map.1 ((hstored.mem s).1 hs).1
  rw [markSummary_key] at h
  exact markSummary_order h

omit ht in
theorem StoredAs.kept {s s' : IMReactionSummary} (hs : s ∈ shownReactions stored) (hs' : s' ∈ shownReactions stored)
    {e e' : PersistedReaction} (he : e ∈ request.stillSelected) (he' : e' ∈ request.stillSelected)
    (hkey : e.1.key = s.key) (hkey' : e'.1.key = s'.key) (hlt : e.order < e'.order) :
    s.selectedOrder < s'.selectedOrder := by
  have horder : ∀ (x : PersistedReaction) (r : IMReactionSummary), x ∈ request.stillSelected →
      r ∈ shownReactions stored → x.1.key = r.key → r.selectedOrder = x.order := by
    intro x r hx hr hk
    obtain ⟨hmem, hboth⟩ := mem_filter.1 hx
    have hprev : x.1.key ∈ request.previouslySelected := (of_decide_eq_true hboth).2
    refine hstored.order hr ?_
    rw [← hk]
    exact selectedOrders_of_kept hp hmem hprev
  rw [horder e s he hs hkey, horder e' s' he' hs' hkey']
  exact hlt

variable (hsel : ∀ k, (∃ s ∈ shownReactions stored, s.key = k ∧ s.selected = true) ↔ k ∈ request.selected)
include hsel

omit hp ht in
theorem StoredAs.newLast {s s' : IMReactionSummary} (hs : s ∈ shownReactions stored) (hs' : s' ∈ shownReactions stored)
    (h : s.selected = true) (h' : s'.selected = true) (hprev : s.key ∈ request.previouslySelected)
    (hnew : s'.key ∉ request.previouslySelected) : s.selectedOrder < s'.selectedOrder := by
  have hk : s.key ∈ request.selected := (hsel s.key).1 ⟨s, hs, rfl, h⟩
  have hk' : s'.key ∈ request.selected := (hsel s'.key).1 ⟨s', hs', rfl, h'⟩
  obtain ⟨n, hn⟩ := exists_selectedOrder request.persistedSelected hk
  obtain ⟨n', hn'⟩ := exists_selectedOrder request.persistedSelected hk'
  rw [hstored.order hs hn, hstored.order hs' hn']
  exact selectedOrders_lt hk' hnew hprev hn hn'

omit ht in
/-- **The orders are distinct when those of the reactions that stay selected were.** -/
theorem StoredAs.distinct_iff : (∀ s ∈ shownReactions stored, ∀ s' ∈ shownReactions stored,
      s.selected = true → s'.selected = true → s.selectedOrder = s'.selectedOrder → s.key = s'.key) ↔
    (request.stillSelected.map PersistedReaction.order).Nodup := by
  constructor
  · intro h
    have hkeys : request.stillSelected.Pairwise (fun e e' => e.1.key ≠ e'.1.key) := by
      have hzip : request.persistedSelected.zipIdx.Pairwise (fun e e' => e.1.key ≠ e'.1.key) := by
        rw [← zipIdx_map_fst 0 request.persistedSelected, pairwise_map] at hp
        exact hp
      exact hzip.filter _
    refine pairwise_map.2 (hkeys.imp_of_mem (fun {e e'} he he' hne horder => hne ?_))
    -- both are stored as selected, with the orders they had
    have hshown : ∀ x ∈ request.stillSelected, ∃ s ∈ shownReactions stored, s.key = x.1.key ∧ s.selected = true ∧
        s.selectedOrder = x.order := by
      intro x hx
      obtain ⟨hmem, hboth⟩ := mem_filter.1 hx
      obtain ⟨hreq, hprev⟩ := of_decide_eq_true hboth
      obtain ⟨s, hs, hk, hss⟩ := (hsel x.1.key).2 hreq
      exact ⟨s, hs, hk, hss, hstored.order hs (by rw [hk]; exact selectedOrders_of_kept hp hmem hprev)⟩
    obtain ⟨s, hs, hk, hss, hso⟩ := hshown e he
    obtain ⟨s', hs', hk', hss', hso'⟩ := hshown e' he'
    rw [← hk, ← hk']
    exact h s hs s' hs' hss hss' (by rw [hso, hso', horder])
  · intro h s hs s' hs' hss hss' horder
    have hk : s.key ∈ request.selected := (hsel s.key).1 ⟨s, hs, rfl, hss⟩
    have hk' : s'.key ∈ request.selected := (hsel s'.key).1 ⟨s', hs', rfl, hss'⟩
    obtain ⟨n, hn⟩ := exists_selectedOrder request.persistedSelected hk
    obtain ⟨n', hn'⟩ := exists_selectedOrder request.persistedSelected hk'
    have hnn : n' = n := by rw [← hstored.order hs hn, ← hstored.order hs' hn', horder]
    subst hnn
    rcases selectedOrders_own hp hk hk' hn hn' with heq | ⟨e, he, e', he', hek, hek', hprev, hprev', heo, heo'⟩
    · exact heq
    · have hstill : ∀ (x : PersistedReaction) (k : String), x ∈ request.persistedSelected.zipIdx → x.1.key = k →
          k ∈ request.selected → k ∈ request.previouslySelected → x ∈ request.stillSelected := by
        intro x k hx hxk hin hpr
        subst hxk
        exact mem_filter.2 ⟨hx, decide_eq_true ⟨hin, hpr⟩⟩
      have hee : e = e' := inj_on_of_nodup_map h (hstill e _ he hek hk hprev) (hstill e' _ he' hek' hk' hprev')
        (heo.trans heo'.symm)
      rw [← hek, ← hek', hee]

omit hp in
/-- **The update shows what is stored as selected unless blocked actors take a reaction's whole count.** -/
theorem StoredAs.update_iff : (∀ k, (∃ c ∈ (messageReactions documentId (visibleContext peers stored)).results,
      c.definition.key = k ∧ c.chosenOrder.isSome = true) ↔ k ∈ request.selected) ↔
    ∀ s ∈ updated.reactions, s.key ∈ request.selected → Unblocked peers s := by
  have hmark : ∀ s₀, Unblocked peers (markSummary request.orders s₀) ↔ Unblocked peers s₀ := fun s₀ => by
    simp [Unblocked, BlockedPeers.blockedActors]
  constructor
  · intro h s hs hk
    obtain ⟨s₁, hs₁, hkey₁, _⟩ := (hstored.result_iff documentId s.key).1 ((h s.key).2 hk)
    obtain ⟨s₂, hs₂, hkey₂, _, _, hleft⟩ := mem_visible hs₁
    obtain ⟨s₀, hs₀, rfl⟩ := mem_map.1 ((hstored.mem s₂).1 hs₂).1
    rw [markSummary_key, hkey₁] at hkey₂
    have heq : s = s₀ := inj_on_of_nodup_map (pairwise_map.2 ht.distinct) hs hs₀ hkey₂
    subst heq
    rw [markSummary_count, hmark] at hleft
    exact hleft (ht.counted s hs ((ht.selected_iff s hs).2 hk))
  · intro h k
    rw [hstored.result_iff documentId k]
    constructor
    · rintro ⟨s, hs, rfl, hss⟩
      obtain ⟨s₀, hs₀, hkey, hsel₀, _⟩ := mem_visible hs
      exact (hsel s.key).1 ⟨s₀, hs₀, hkey.symm, hsel₀ ▸ hss⟩
    · intro hk
      obtain ⟨s, hs, rfl, hss⟩ := (hsel k).2 hk
      obtain ⟨s₀, hs₀, rfl⟩ := mem_map.1 ((hstored.mem s).1 hs).1
      rw [markSummary_key] at hk
      obtain ⟨s', hs', hkey, hsel'⟩ := exists_visible hs ((hmark s₀).2 (h s₀ hs₀ hk))
      exact ⟨s', hs', hkey, hsel'.trans hss⟩

end Stored

section Session

variable {platform : ReactionPlatform} {peers : Option BlockedPeers} {entry : Nat → Option IMReactionDefinition}
  {session : PlatformSession} {conversation : IMConversation} {readOnly : Bool} {hidden : IMMessageRow → Bool}
  {db dbAtWrite : Database} {msgId : Int} {reactions : List TypeReaction} {request : ReactionRequest}
  {updated : IMReactionContext} {row : IMMessageRow}

variable {documentId} in
theorem persistedSelected_distinct (hkeyed : ReactionsKeyed db.tables.reactions)
    (h : readRequest documentId platform entry session conversation readOnly hidden db msgId reactions = .ok request) :
    request.persistedSelected.Pairwise (fun a b => a.key ≠ b.key) := by
  unfold readRequest at h
  split at h
  · cases h
  · split at h
    · cases h
    · split at h
      · cases h
      · obtain ⟨selected, _, h⟩ := Results.bind_ok.1 h
        split at h
        · cases h
        · cases h
          exact (hkeyed.distinct _).filter _

variable {documentId} in
theorem sendReaction_eq
    (hrequest : readRequest documentId platform entry session conversation readOnly hidden db msgId reactions = .ok request)
    (hupdated : platform.setMessageReactions request.selected = some updated)
    (hrow : targetRow session conversation dbAtWrite request.targetId = some row) :
    sendReaction documentId platform peers entry session conversation readOnly hidden db dbAtWrite msgId reactions =
      .ok { database := { (upsertConversation dbAtWrite session conversation none).1 with
              tables := replaceReactions dbAtWrite.tables row.id (some (markContext request.orders updated)) }
            row := row
            reactions := messageReactions documentId (visibleContext peers (hydrateReactionContext
              (replaceReactions dbAtWrite.tables row.id (some (markContext request.orders updated))).reactions row)) } := by
  have htables : (upsertConversation dbAtWrite session conversation none).1.tables = dbAtWrite.tables := by
    unfold upsertConversation
    dsimp only
    split <;> rfl
  unfold sendReaction setReactions
  rw [hrequest]
  simp only [Except.bind, hupdated, hrow, htables]

/-- **A reaction request selects what was asked exactly when it drops no stored reaction that the platform still
lists**, its reactions have definitions and counts that are not all blocked, and the orders that stay are distinct. -/
theorem sendReaction_selects_iff (hkeyed : ReactionsKeyed db.tables.reactions)
    (hkeyedAtWrite : ReactionsKeyed dbAtWrite.tables.reactions)
    (hrequest : readRequest documentId platform entry session conversation readOnly hidden db msgId reactions = .ok request)
    (hupdated : platform.setMessageReactions request.selected = some updated)
    (hrow : targetRow session conversation dbAtWrite request.targetId = some row)
    (ht : Truthful request.selected updated) :
    ∃ outcome, sendReaction documentId platform peers entry session conversation readOnly hidden db dbAtWrite msgId
        reactions = .ok outcome ∧ outcome.row = row ∧
      (Selects request outcome ↔ CarriesOut peers dbAtWrite.tables row request updated) := by
  have hp := persistedSelected_distinct hkeyed hrequest
  have hstored : StoredAs request dbAtWrite.tables row updated (hydrateReactionContext
      (replaceReactions dbAtWrite.tables row.id (some (markContext request.orders updated))).reactions row) := by
    refine ⟨fun s => ?_, (replaceReactions_keyed hkeyedAtWrite row.id _).distinct row, fun context hc s hs => ?_⟩
    · exact mem_shown_replaceReactions hkeyedAtWrite (markContext_distinct ht.distinct)
    · exact (replaceReactions_keyed hkeyedAtWrite row.id _).available hc hs
  refine ⟨_, sendReaction_eq hrequest hupdated hrow, rfl, ?_⟩
  constructor
  · intro h
    obtain ⟨hdropped, hdefined⟩ := (hstored.stored_iff hp ht).1 h.stored
    refine ⟨hdropped, hdefined, ?_, ?_⟩
    · exact (hstored.distinct_iff hp h.stored).1 h.distinct
    · exact (hstored.update_iff documentId ht h.stored).1 h.update
  · intro h
    have hsel := (hstored.stored_iff hp ht).2 ⟨h.dropped, h.defined⟩
    refine ⟨hsel, ?_, fun c hc => visible_agree documentId hc, ?_, ?_, ?_⟩
    · exact (hstored.update_iff documentId ht hsel).2 h.unblocked
    · exact (hstored.distinct_iff hp hsel).2 h.orders
    · exact fun s hs s' hs' e he e' he' => hstored.kept hp hs hs' he he'
    · exact fun s hs s' hs' => hstored.newLast hsel hs hs'

end Session

end Rpc

/-! A message liked by the account and by two others, whose reaction is replaced by another. -/

def likeDefinition : IMReactionDefinition :=
  { key := "like", details := .obj [("type", .str "emoji"), ("emoticon", .str "👍")] }

def fireDefinition : IMReactionDefinition :=
  { key := "fire", details := .obj [("type", .str "emoji"), ("emoticon", .str "🔥")] }

def likedContext : IMReactionContext :=
  { available := [likeDefinition, fireDefinition], reactions := [⟨"like", 3, true, 1, []⟩], maxSelected := 1 }

def firedContext (others : Nat) : IMReactionContext :=
  { available := [likeDefinition, fireDefinition]
    reactions := if others = 0 then [⟨"fire", 1, true, 0, []⟩] else [⟨"like", others, false, 0, []⟩, ⟨"fire", 1, true, 0, []⟩]
    maxSelected := 1 }

def firingPlatform (others : Nat) : ReactionPlatform :=
  { write := true, available := some likedContext, setMessageReactions := fun _ => some (firedContext others) }

def likedRow : IMMessageRow :=
  { id := 1, platformSessionId := "s", conversationId := 1, primaryPlatformMessageId := "m", senderUserId := 1, text := "",
    content := .null, timestamp := 0, outgoing := false, deleted := false, platformGroupId := none, metadata := [],
    searchText := "", searchKinds := none }

def likedPart (id : Nat) : TlMessagePartRow :=
  ⟨id, "s", 1, 1, none, "", 7, none, none, none, none, 0⟩

def likedTables : MessageTables :=
  { MessageTables.empty with
    messages := Table.empty.insert (fun id => { likedRow with id := id }) (fun _ => rfl)
    aliases := Table.empty.insert (fun id => ⟨id, "s", 1, "m", 1, 0⟩) (fun _ => rfl)
    parts := Table.empty.insert likedPart (fun _ => rfl) }

def likedDatabase : Database :=
  { Database.empty with
    conversations := Table.empty.insert (fun id => ⟨id, "s", "c", .group, none, 0, none⟩) (fun _ => rfl)
    tables := replaceReactions likedTables 1 (some likedContext) }

def fireRequest : ReactionRequest :=
  { targetId := "m", persistedSelected := [⟨"like", 3, true, 1, []⟩], previouslySelected := ["like"], selected := ["fire"] }

theorem likedDatabase_keyed : ReactionsKeyed likedDatabase.tables.reactions :=
  replaceReactions_keyed reactionsKeyed_empty 1 _

theorem readRequest_fire (others : Nat) : readRequest (fun _ => 0) (firingPlatform others) (fun _ => none)
    ⟨"s", "qq", "self"⟩ { id := "c", kind := .group } false (fun _ => false) likedDatabase 7 [.reactionEmoji "🔥"] =
      .ok fireRequest := by
  rfl

def likedRowStored : IMMessageRow := { likedRow with metadata := [("reactionMaxSelected", .num 1)] }

theorem targetRow_liked : targetRow ⟨"s", "qq", "self"⟩ { id := "c", kind := .group } likedDatabase "m" =
    some likedRowStored := by
  rfl

theorem firedContext_truthful (others : Nat) : Truthful ["fire"] (firedContext others) := by
  unfold firedContext
  constructor
  · unfold IMReactionContext.Distinct
    dsimp only
    split <;> simp
  · dsimp only
    split <;> simp
  · dsimp only
    split <;> simp
  · dsimp only
    split <;> simp

/-- **The like stays selected** when it is replaced while others like the message too. -/
theorem sendReaction_keeps_dropped : ∃ outcome,
    readRequest (fun _ => 0) (firingPlatform 2) (fun _ => none) ⟨"s", "qq", "self"⟩ { id := "c", kind := .group } false
      (fun _ => false) likedDatabase 7 [.reactionEmoji "🔥"] = .ok fireRequest ∧
    (firingPlatform 2).setMessageReactions fireRequest.selected = some (firedContext 2) ∧
    Truthful fireRequest.selected (firedContext 2) ∧ ReactionsKeyed likedDatabase.tables.reactions ∧
    sendReaction (fun _ => 0) (firingPlatform 2) none (fun _ => none) ⟨"s", "qq", "self"⟩ { id := "c", kind := .group } false
      (fun _ => false) likedDatabase likedDatabase 7 [.reactionEmoji "🔥"] = .ok outcome ∧
    ¬Selects fireRequest outcome := by
  refine ⟨_, readRequest_fire 2, rfl, firedContext_truthful 2, likedDatabase_keyed,
    sendReaction_eq (readRequest_fire 2) rfl targetRow_liked, fun h => ?_⟩
  have hlike : "like" ∈ fireRequest.selected := by
    refine (h.stored "like").1 ⟨⟨"like", 2, true, 1, []⟩, ?_, rfl, rfl⟩
    exact mem_cons_self
  simp [fireRequest] at hlike

theorem sendReaction_selects_alone : ∃ outcome,
    sendReaction (fun _ => 0) (firingPlatform 0) none (fun _ => none) ⟨"s", "qq", "self"⟩ { id := "c", kind := .group } false
      (fun _ => false) likedDatabase likedDatabase 7 [.reactionEmoji "🔥"] = .ok outcome ∧ outcome.row = likedRowStored ∧
    (Selects fireRequest outcome ↔ CarriesOut none likedDatabase.tables likedRowStored fireRequest (firedContext 0)) :=
  sendReaction_selects_iff (fun _ => 0) likedDatabase_keyed likedDatabase_keyed (readRequest_fire 0) rfl targetRow_liked
    (firedContext_truthful 0)

end Crossgram
