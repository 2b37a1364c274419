import Crossgram.Lib.Maps
import Mathlib.Algebra.BigOperators.Group.List.Basic
import Mathlib.Algebra.GroupWithZero.Nat
import Mathlib.Data.List.Perm.Basic
/-!
# LarkReactions — the reactions of a Lark message (packages/platform-lark/src/index.ts, packages/platform-lark/src/client.ts)

Upstream tells of one reaction at a time, so the platform lists a message's reactions at its first event and counts from
there.  The listing is made behind the change that the event tells of, and every page of it is asked for without a page
token; a message without reactions is not reported.  `reactions_follow_iff` says when the counts are right all the same.
The state is that of one message, whose events change no other's; its listings and its conversation are answered.
-/
namespace Crossgram
namespace LarkReactions

open List

/-- `value || undefined` -/
def given (value : Option String) : Option String := value.filter (fun text => text ≠ "")

theorem given_some {text : String} (h : text ≠ "") : given (some text) = some text := Option.filter_some_pos (decide_eq_true h)

structure Entry where
  operatorId : String
  isBot : Bool
  reactionId : Option String
deriving DecidableEq

/-- The entries by emoji key. -/
abbrev ReactionState := List (String × List Entry)

/-! ## The listing -/

structure Item where
  reactionId : Option String
  operatorId : Option String
  operatorType : Option String
  emojiType : Option String

structure Page where
  items : Option (List Item)
  hasMore : Option Bool
  pageToken : Option String

def addItem (state : ReactionState) (item : Item) : ReactionState :=
  match given item.emojiType with
  | none => state
  | some key =>
    let isBot := item.operatorType == some "app"
    let entry : Entry := {
      operatorId := item.operatorId.getD "unknown", isBot
      reactionId := if isBot then given item.reactionId else none }
    Maps.set state key ((Maps.get state key).getD [] ++ [entry])

/-- The loop of `syncReactionState`, with the answer to `listReactions(token, messageId)`. -/
def syncReactionState (page : Page) : Nat → ReactionState → Option ReactionState
  | 0, _ => none
  | fuel + 1, state =>
    let state := (page.items.getD []).foldl addItem state
    match if page.hasMore = some true then given page.pageToken else none with
    | some _ => syncReactionState page fuel state
    | none => some state

/-! ## An event -/

structure LarkReactionEventData where
  messageId : Option String
  chatId : Option String
  emojiKey : Option String
  operatorId : Option String
  operatorType : Option String

structure IMReactionSummary where
  key : String
  count : Nat
  selected : Bool
  recentActors : List String
deriving DecidableEq

structure LarkPlatform where
  larkKeyToEmoticon : String → Option String
  selfId : Option String

structure State where
  reactionState : Option ReactionState := none
  contexts : List (List IMReactionSummary) := []

def removeEntry (entries : List Entry) (operatorId : Option String) : List Entry :=
  match operatorId.bind (fun operatorId => entries.findIdx? (fun entry => entry.operatorId = operatorId)) with
  | some index => entries.eraseIdx index
  | none => entries.dropLast

def store (state : ReactionState) (key : String) (entries : List Entry) : ReactionState :=
  if entries = [] then Maps.delete state key else Maps.set state key entries

namespace LarkPlatform

variable (p : LarkPlatform)

def summaryKey (emojiKey : String) : String := (p.larkKeyToEmoticon emojiKey).getD ("[" ++ emojiKey ++ "]")

def summaryOf (e : String × List Entry) : IMReactionSummary :=
  { key := p.summaryKey e.1, count := e.2.length, selected := e.2.any (fun entry => entry.isBot)
    recentActors := (e.2.drop (e.2.length - 5)).map (fun entry => entry.operatorId) }

def buildReactionContext (state : ReactionState) : Option (List IMReactionSummary) :=
  if state = [] then none else some (state.map p.summaryOf)

def entriesAfter (entries : List Entry) (data : LarkReactionEventData) (created : Bool) : List Entry :=
  match created, given data.operatorId with
  | true, some operatorId =>
    entries ++ [⟨operatorId, data.operatorType == some "app" || p.selfId == some operatorId, none⟩]
  | _, operatorId => removeEntry entries operatorId

def handOver (s : State) (state : ReactionState) : State :=
  { reactionState := some state, contexts := s.contexts ++ (p.buildReactionContext state).toList }

/-- `handleReactionEvent`, with the page that a listing is answered with; `none` while it still lists. -/
def handleReactionEvent (page : Page) (fuel : Nat) (s : State) (data : LarkReactionEventData) (created : Bool) : Option State :=
  match given data.messageId, given data.emojiKey, given data.chatId with
  | some _, some emojiKey, some _ =>
    (s.reactionState.or (syncReactionState page fuel [])).map (fun state =>
      p.handOver s (store state emojiKey (p.entriesAfter ((Maps.get state emojiKey).getD []) data created)))
  | _, _, _ => some s

end LarkPlatform

/-! ## Upstream -/

structure Reaction where
  reactionId : String
  operatorId : String
  operatorType : String
  emojiType : String
  operated : operatorId ≠ ""
  named : emojiType ≠ ""
deriving DecidableEq

def Reaction.item (r : Reaction) : Item :=
  { reactionId := some r.reactionId, operatorId := some r.operatorId, operatorType := some r.operatorType
    emojiType := some r.emojiType }

def Reaction.entry (r : Reaction) : Entry :=
  { operatorId := r.operatorId, isBot := r.operatorType == "app"
    reactionId := if r.operatorType == "app" then given (some r.reactionId) else none }

inductive Change
  | added (r : Reaction)
  | removed (r : Reaction)
deriving DecidableEq

namespace Change

def reaction : Change → Reaction
  | added r   => r
  | removed r => r

def created : Change → Bool
  | added _   => true
  | removed _ => false

def apply (reactions : List Reaction) : Change → List Reaction
  | added r   => reactions ++ [r]
  | removed r => reactions.erase r

def Possible : List Reaction → List Change → Prop
  | _, [] => True
  | reactions, c :: cs => (∀ r, c = removed r → r ∈ reactions) ∧ Possible (c.apply reactions) cs

def NeverBare : List Reaction → List Change → Prop
  | _, [] => True
  | reactions, c :: cs => c.apply reactions ≠ [] ∧ NeverBare (c.apply reactions) cs

end Change

/-- A message, and how the listing of its reactions is cut. -/
structure Upstream where
  messageId : String
  chatId : String
  pageToken : String
  pageLength : List Reaction → Nat
  identified : messageId ≠ "" ∧ chatId ≠ "" ∧ pageToken ≠ ""

namespace Upstream

variable (u : Upstream)

def listReactions (reactions : List Reaction) : Page :=
  let more := decide (u.pageLength reactions < reactions.length)
  { items := some ((reactions.take (u.pageLength reactions)).map Reaction.item), hasMore := some more
    pageToken := if more then some u.pageToken else none }

def event (c : Change) : LarkReactionEventData :=
  { messageId := some u.messageId, chatId := some u.chatId, emojiKey := some c.reaction.emojiType
    operatorId := some c.reaction.operatorId, operatorType := some c.reaction.operatorType }

end Upstream

/-! ## What is promised -/

def shown (x : String) (context : List IMReactionSummary) : Nat :=
  ((context.filter (fun summary => summary.key = x)).map (fun summary => summary.count)).sum

def LarkPlatform.present (p : LarkPlatform) (x : String) (reactions : List Reaction) : Nat :=
  reactions.countP (fun r => p.summaryKey r.emojiType = x)

def LoadsOnce (u : Upstream) (reactions : List Reaction) : Prop :=
  ∃ fuel state, syncReactionState (u.listReactions reactions) fuel [] = some state ∧
    ∀ key, (Maps.get state key).getD [] = (reactions.filter (fun r => r.emojiType = key)).map Reaction.entry

def Follows (p : LarkPlatform) (u : Upstream) : List Reaction → State → List Change → Prop
  | _, _, [] => True
  | reactions, s, c :: cs => (s.reactionState = none → LoadsOnce u (c.apply reactions)) ∧
    ∃ fuel s', p.handleReactionEvent (u.listReactions (c.apply reactions)) fuel s (u.event c)
        c.created = some s' ∧
      (∃ context, s'.contexts.getLast? = some context ∧ ∀ x, shown x context = p.present x (c.apply reactions)) ∧
      Follows p u (c.apply reactions) s' cs

/-! ## The entries of a state -/

variable {state : ReactionState} {reactions : List Reaction} {key : String}

def keysOf (state : ReactionState) : List String := state.flatMap (fun e => replicate e.2.length e.1)

def entriesOf (state : ReactionState) (key : String) : List Entry := (Maps.get state key).getD []

structure Synced (state : ReactionState) (keys : List String) : Prop where
  distinct : Maps.Distinct state
  filled : ∀ e ∈ state, e.2 ≠ []
  counted : keysOf state ~ keys

theorem keysOf_split (h : Maps.Distinct state) (key : String) :
    keysOf state ~ replicate (entriesOf state key).length key ++ keysOf (Maps.delete state key) := by
  unfold entriesOf
  cases hg : Maps.get state key with
  | none =>
    rw [Maps.delete_of_get_none hg]
    exact Perm.refl _
  | some entries => exact (Maps.perm_of_get h hg).flatMap_right _

theorem keysOf_store (h : Maps.Distinct state) (key : String) (entries : List Entry) :
    keysOf (store state key entries) ~ replicate entries.length key ++ keysOf (Maps.delete state key) := by
  unfold store
  split
  · rename_i hnil
    rw [hnil]
    exact Perm.refl _
  · exact (Maps.set_perm h key entries).flatMap_right _

variable {keys : List String}

theorem Synced.store (h : Synced state keys) {entries : List Entry} {keys' : List String}
    (hkeys : replicate entries.length key ++ keysOf (Maps.delete state key) ~ keys') : Synced (store state key entries) keys' := by
  refine ⟨?_, fun e he => ?_, (keysOf_store h.distinct key entries).trans hkeys⟩
  · unfold LarkReactions.store
    split
    · exact h.distinct.delete key
    · exact h.distinct.set key entries
  · unfold LarkReactions.store at he
    split at he
    · exact h.filled e (Maps.mem_delete.1 he).1
    · rename_i hne
      rcases (Maps.mem_set h.distinct).1 he with rfl | ⟨he, -⟩
      · exact hne
      · exact h.filled e he

theorem Synced.eq_nil (h : Synced state []) : state = [] := by
  rw [eq_nil_iff_forall_not_mem]
  intro e he
  have hnil := h.counted.eq_nil
  have hlen := flatMap_eq_nil_iff.1 hnil e he
  rw [replicate_eq_nil_iff, length_eq_zero_iff] at hlen
  exact h.filled e he hlen

/-- **One more entry under a key.** -/
theorem Synced.push (h : Synced state keys) (key : String) (entry : Entry) :
    Synced (LarkReactions.store state key (entriesOf state key ++ [entry])) (key :: keys) := by
  refine h.store ?_
  rw [length_append, length_singleton, replicate_succ, cons_append]
  exact (((keysOf_split h.distinct key).symm.trans h.counted)).cons key

theorem notMem_delete (state : ReactionState) (key : String) : key ∉ keysOf (Maps.delete state key) := by
  intro h
  obtain ⟨e, he, hkey⟩ := mem_flatMap.1 h
  exact (Maps.mem_delete.1 he).2 (mem_replicate.1 hkey).2.symm

theorem length_removeEntry (entries : List Entry) (operatorId : Option String) :
    (removeEntry entries operatorId).length = entries.length - 1 := by
  unfold removeEntry
  split
  · rename_i index hindex
    obtain ⟨_, -, hfound⟩ := Option.bind_eq_some_iff.1 hindex
    rw [length_eraseIdx, if_pos (findIdx?_eq_some_iff_getElem.1 hfound).1]
  · exact length_dropLast

/-- **One entry less under a key**, where there is one. -/
theorem Synced.erase (h : Synced state keys) (key : String) (operatorId : Option String) :
    Synced (LarkReactions.store state key (removeEntry (entriesOf state key) operatorId)) (keys.erase key) := by
  refine h.store ?_
  have hsplit := ((keysOf_split h.distinct key).symm.trans h.counted).erase key
  rw [length_removeEntry]
  cases hlen : (entriesOf state key).length with
  | zero =>
    rw [hlen, replicate_zero, nil_append, erase_of_not_mem (notMem_delete state key)] at hsplit
    exact hsplit
  | succ n =>
    rw [hlen, replicate_succ, cons_append, erase_cons_head] at hsplit
    exact hsplit

theorem Synced.pop (h : Synced state (key :: keys)) (operatorId : Option String) :
    Synced (LarkReactions.store state key (removeEntry (entriesOf state key) operatorId)) keys := by
  rw [← erase_cons_head (a := key) (l := keys)]
  exact h.erase key operatorId

/-! ## The listing is loaded -/

theorem addItem_item (state : ReactionState) (r : Reaction) :
    addItem state r.item = store state r.emojiType (entriesOf state r.emojiType ++ [r.entry]) := by
  unfold addItem store
  rw [if_neg (by simp)]
  show (match given (some r.emojiType) with | none => _ | some _ => _) = _
  rw [given_some r.named]
  rfl

theorem entriesOf_store_self (state : ReactionState) (key : String) (entries : List Entry) :
    entriesOf (store state key entries) key = entries := by
  unfold entriesOf store
  split
  · rename_i hnil
    rw [Maps.get_delete, if_pos rfl, hnil]
    rfl
  · rw [Maps.get_set, if_pos rfl]
    rfl

theorem entriesOf_store_other {key' : String} (h : key' ≠ key) (state : ReactionState) (entries : List Entry) :
    entriesOf (store state key entries) key' = entriesOf state key' := by
  unfold entriesOf store
  split
  · rw [Maps.get_delete, if_neg h]
  · rw [Maps.get_set, if_neg h]

/-- **Each item of a page is entered once, behind what is there.** -/
theorem foldl_addItem : ∀ (reactions : List Reaction) {state : ReactionState} {keys : List String}, Synced state keys →
    Synced ((reactions.map Reaction.item).foldl addItem state) (reactions.reverse.map Reaction.emojiType ++ keys) ∧
      ∀ key, entriesOf ((reactions.map Reaction.item).foldl addItem state) key =
        entriesOf state key ++ (reactions.filter (fun r => r.emojiType = key)).map Reaction.entry
  | [], state, keys, h => ⟨h, fun key => (append_nil _).symm⟩
  | r :: reactions, state, keys, h => by
    obtain ⟨hsynced, hentries⟩ := foldl_addItem reactions (h.push r.emojiType r.entry)
    rw [map_cons, foldl_cons, addItem_item]
    refine ⟨?_, fun key => ?_⟩
    · rw [reverse_cons, map_append, append_assoc]
      exact hsynced
    · rw [hentries key]
      by_cases hkey : r.emojiType = key
      · subst hkey
        rw [entriesOf_store_self, filter_cons_of_pos (by simp), append_assoc]
        rfl
      · rw [entriesOf_store_other (Ne.symm hkey), filter_cons_of_neg (by simpa using hkey)]

theorem synced_nil : Synced [] [] := ⟨Maps.Distinct.nil, fun _ h => (by cases h), Perm.refl _⟩

variable {u : Upstream}

/-- **A listing of more than a page never ends**: every request is for its first page. -/
theorem sync_of_more (h : u.pageLength reactions < reactions.length) : ∀ (fuel : Nat) (state : ReactionState),
    syncReactionState (u.listReactions reactions) fuel state = none
  | 0, _ => rfl
  | fuel + 1, state => by
    have hmore : (u.listReactions reactions).hasMore = some true := congrArg some (decide_eq_true h)
    have htoken : given (u.listReactions reactions).pageToken = some u.pageToken := by
      have hpage : (u.listReactions reactions).pageToken = some u.pageToken := if_pos (decide_eq_true h)
      rw [hpage]
      exact given_some u.identified.2.2
    rw [syncReactionState, if_pos hmore, htoken]
    exact sync_of_more h fuel _

theorem sync_of_all (h : reactions.length ≤ u.pageLength reactions) (fuel : Nat) (state : ReactionState) :
    syncReactionState (u.listReactions reactions) (fuel + 1) state =
      some ((reactions.map Reaction.item).foldl addItem state) := by
  have hmore : (u.listReactions reactions).hasMore = some false := congrArg some (decide_eq_false (Nat.not_lt.2 h))
  have hitems : (u.listReactions reactions).items = some (reactions.map Reaction.item) := by
    unfold Upstream.listReactions
    dsimp only
    rw [take_of_length_le h]
  rw [syncReactionState, hmore, if_neg (by decide), hitems]
  rfl

/-- **A listing that ends has each reaction once.** -/
theorem sync_eq_some {fuel : Nat} (h : syncReactionState (u.listReactions reactions) fuel [] = some state) :
    reactions.length ≤ u.pageLength reactions ∧ Synced state (reactions.map Reaction.emojiType) := by
  have hall : reactions.length ≤ u.pageLength reactions := by
    by_contra hmore
    rw [sync_of_more (Nat.lt_of_not_le hmore)] at h
    cases h
  cases fuel with
  | zero => cases h
  | succ fuel =>
    rw [sync_of_all hall, Option.some.injEq] at h
    obtain ⟨⟨hdistinct, hfilled, hcounted⟩, -⟩ := foldl_addItem reactions synced_nil
    rw [append_nil, h] at hcounted
    rw [h] at hdistinct hfilled
    exact ⟨hall, hdistinct, hfilled, hcounted.trans ((reverse_perm _).map _)⟩

/-! ## An event is counted -/

variable {p : LarkPlatform} {s s' : State} {c : Change} {keys : List String}

def Change.after (p : LarkPlatform) (u : Upstream) (state : ReactionState) (c : Change) : ReactionState :=
  store state c.reaction.emojiType (p.entriesAfter (entriesOf state c.reaction.emojiType) (u.event c) c.created)

theorem handle_event (page : Page) (fuel : Nat) : p.handleReactionEvent page fuel s (u.event c) c.created =
    (s.reactionState.or (syncReactionState page fuel [])).map (fun state => p.handOver s (c.after p u state)) := by
  unfold LarkPlatform.handleReactionEvent Upstream.event
  dsimp only
  rw [given_some u.identified.1, given_some u.identified.2.1, given_some c.reaction.named]
  rfl

theorem after_added (state : ReactionState) (r : Reaction) : ∃ entry,
    (Change.added r).after p u state = store state r.emojiType (entriesOf state r.emojiType ++ [entry]) := by
  unfold Change.after LarkPlatform.entriesAfter Upstream.event
  dsimp only
  rw [given_some (Change.added r).reaction.operated]
  exact ⟨_, rfl⟩

theorem after_removed (state : ReactionState) (r : Reaction) : (Change.removed r).after p u state =
    store state r.emojiType (removeEntry (entriesOf state r.emojiType) (some r.operatorId)) := by
  unfold Change.after LarkPlatform.entriesAfter Upstream.event
  dsimp only
  rw [given_some (Change.removed r).reaction.operated]
  rfl

theorem shown_map (x : String) : ∀ state : ReactionState,
    shown x (state.map p.summaryOf) = (keysOf state).countP (fun key => p.summaryKey key = x)
  | [] => rfl
  | e :: state => by
    have ih := shown_map x state
    unfold shown keysOf at ih ⊢
    rw [map_cons, flatMap_cons, countP_append, countP_replicate, ← ih]
    by_cases hkey : p.summaryKey e.1 = x
    · have hshown : (p.summaryOf e).key = x := hkey
      rw [filter_cons_of_pos (by simpa using hshown), if_pos (decide_eq_true hkey)]
      rfl
    · have hshown : (p.summaryOf e).key ≠ x := hkey
      rw [filter_cons_of_neg (by simpa using hshown), if_neg (by simpa using hkey), Nat.zero_add]

/-- **The context shows the entries**, and there is one when there is an entry. -/
theorem Synced.context (h : Synced state keys) (hne : keys ≠ []) : ∃ context, p.buildReactionContext state = some context ∧
    ∀ x, shown x context = keys.countP (fun key => p.summaryKey key = x) := by
  have hstate : state ≠ [] := by
    rintro rfl
    exact hne h.counted.symm.eq_nil
  refine ⟨_, if_neg hstate, fun x => ?_⟩
  rw [shown_map, h.counted.countP_eq]

theorem present_eq (x : String) (reactions : List Reaction) :
    p.present x reactions = (reactions.map Reaction.emojiType).countP (fun key => p.summaryKey key = x) := by
  rw [countP_map]
  rfl

def Shows (p : LarkPlatform) (s : State) (reactions : List Reaction) : Prop :=
  ∃ context, s.contexts.getLast? = some context ∧ ∀ x, shown x context = p.present x reactions

theorem Synced.perm {keys' : List String} (h : Synced state keys) (hp : keys ~ keys') : Synced state keys' :=
  ⟨h.distinct, h.filled, h.counted.trans hp⟩

theorem Synced.after (h : Synced state (reactions.map Reaction.emojiType)) (hpossible : ∀ r, c = .removed r → r ∈ reactions) :
    Synced (c.after p u state) ((c.apply reactions).map Reaction.emojiType) := by
  cases c with
  | added r =>
    obtain ⟨entry, hafter⟩ := after_added state r
    rw [hafter, Change.apply, map_append]
    exact (h.push r.emojiType entry).perm (perm_append_singleton _ _).symm
  | removed r =>
    rw [after_removed]
    exact (h.perm ((perm_cons_erase (hpossible r rfl)).map _)).pop _

theorem shows_handOver (h : Synced state (reactions.map Reaction.emojiType)) (hne : reactions ≠ []) :
    Shows p (p.handOver s state) reactions := by
  obtain ⟨context, hcontext, hshown⟩ := h.context (fun hnil => hne (map_eq_nil_iff.1 hnil))
  refine ⟨context, ?_, fun x => (hshown x).trans (present_eq x reactions).symm⟩
  unfold LarkPlatform.handOver
  rw [hcontext]
  exact getLast?_concat

theorem contexts_handOver (h : Synced state []) : (p.handOver s state).contexts = s.contexts := by
  unfold LarkPlatform.handOver
  rw [h.eq_nil]
  exact append_nil _

/-- **From a right state on the counts stay right until no reaction is left.** -/
theorem follows_synced : ∀ (changes : List Change) {reactions : List Reaction} {s : State} {state : ReactionState},
    s.reactionState = some state → Synced state (reactions.map Reaction.emojiType) → Shows p s reactions →
      Change.Possible reactions changes → (Follows p u reactions s changes ↔ Change.NeverBare reactions changes)
  | [], _, _, _, _, _, _, _ => Iff.rfl
  | c :: changes, reactions, s, state, hstate, hsynced, hshows, ⟨hpossible, hrest⟩ => by
    have hafter : Synced (c.after p u state) ((c.apply reactions).map Reaction.emojiType) := hsynced.after hpossible
    have hhandled : ∀ page fuel, p.handleReactionEvent page fuel s (u.event c) c.created = some (p.handOver s (c.after p u state)) := by
      intro page fuel
      rw [handle_event, hstate]
      rfl
    by_cases hbare : c.apply reactions = []
    · refine iff_of_false ?_ (fun h => h.1 hbare)
      rintro ⟨-, fuel, s', hs', ⟨context, hlast, hcontext⟩, -⟩
      rw [hhandled, Option.some.injEq] at hs'
      obtain ⟨context', hlast', hcontext'⟩ := hshows
      rw [hbare] at hafter hcontext
      rw [← hs', contexts_handOver hafter, hlast', Option.some.injEq] at hlast
      -- what was shown before cannot show that nothing is left
      have hnone : ∀ r ∈ reactions, False := by
        intro r hr
        have hpos : 0 < p.present (p.summaryKey r.emojiType) reactions := countP_pos_iff.2 ⟨r, hr, decide_eq_true rfl⟩
        rw [← hcontext', hlast, hcontext] at hpos
        exact absurd hpos (Nat.lt_irrefl 0)
      cases c with
      | added r => exact append_ne_nil_of_right_ne_nil _ (cons_ne_nil _ _) hbare
      | removed r => exact hnone r (hpossible r rfl)
    · have hshows' : Shows p (p.handOver s (c.after p u state)) (c.apply reactions) := shows_handOver hafter hbare
      have ih := follows_synced changes (s := p.handOver s (c.after p u state)) rfl hafter hshows' hrest
      constructor
      · rintro ⟨-, fuel, s', hs', -, hfollows⟩
        rw [hhandled, Option.some.injEq] at hs'
        rw [← hs'] at hfollows
        exact ⟨hbare, ih.1 hfollows⟩
      · rintro ⟨-, hnever⟩
        refine ⟨fun hnone => ?_, 0, _, hhandled _ 0, hshows', ih.2 hnever⟩
        rw [hstate] at hnone
        cases hnone

/-! ## When the counts are right -/

/-- What has to come together for the counts of a message to be right: its listing is one page, the first change takes the
last reaction of an emoji, and some reaction is left after every change. -/
def CountsRight (u : Upstream) (reactions : List Reaction) : List Change → Prop
  | [] => True
  | c :: changes => (c.apply reactions).length ≤ u.pageLength (c.apply reactions) ∧
    (c.created = false ∧ ∀ r ∈ c.apply reactions, r.emojiType ≠ c.reaction.emojiType) ∧
    Change.NeverBare reactions (c :: changes)

theorem loadsOnce_of_all (h : reactions.length ≤ u.pageLength reactions) : LoadsOnce u reactions :=
  ⟨1, _, sync_of_all h 0 [], fun key => (foldl_addItem reactions synced_nil).2 key⟩

theorem counted_of_shows (h : Synced state keys) (hshows : Shows p (p.handOver {} state) reactions) :
    keys ≠ [] ∧ ∀ x, keys.countP (fun key => p.summaryKey key = x) = p.present x reactions := by
  obtain ⟨context, hlast, hcontext⟩ := hshows
  have hne : keys ≠ [] := by
    rintro rfl
    rw [contexts_handOver h] at hlast
    cases hlast
  obtain ⟨context', hcontext', hshown⟩ := h.context hne
  unfold LarkPlatform.handOver at hlast
  rw [hcontext'] at hlast
  cases hlast
  exact ⟨hne, fun x => (hshown x).symm.trans (hcontext x)⟩

/-- A first change that leaves its emoji in use is counted twice. -/
theorem removed_of_shows (h : Synced state ((c.apply reactions).map Reaction.emojiType))
    (hshows : Shows p (p.handOver {} (c.after p u state)) (c.apply reactions)) :
    c.created = false ∧ ∀ r ∈ c.apply reactions, r.emojiType ≠ c.reaction.emojiType := by
  have hcons : ∀ (keys : List String) (emoji : String), (emoji :: keys).countP (fun key => p.summaryKey key = p.summaryKey emoji) =
      keys.countP (fun key => p.summaryKey key = p.summaryKey emoji) + 1 := fun _ _ => countP_cons_of_pos (decide_eq_true rfl)
  cases c with
  | added r =>
    obtain ⟨entry, hafter⟩ := after_added state r
    rw [hafter] at hshows
    have hcount := (counted_of_shows (h.push r.emojiType entry) hshows).2 (p.summaryKey r.emojiType)
    rw [hcons, present_eq] at hcount
    omega
  | removed r =>
    refine ⟨rfl, fun r' hr' hkey => ?_⟩
    have hmem : r.emojiType ∈ ((Change.removed r).apply reactions).map Reaction.emojiType := mem_map.2 ⟨r', hr', hkey⟩
    rw [after_removed] at hshows
    have hcount := (counted_of_shows ((h.perm (perm_cons_erase hmem)).pop _) hshows).2 (p.summaryKey r.emojiType)
    rw [present_eq, (perm_cons_erase hmem).countP_eq, hcons] at hcount
    omega

theorem Synced.after_first (h : Synced state ((c.apply reactions).map Reaction.emojiType)) (hremoved : c.created = false)
    (hlast : ∀ r ∈ c.apply reactions, r.emojiType ≠ c.reaction.emojiType) :
    Synced (c.after p u state) ((c.apply reactions).map Reaction.emojiType) := by
  cases c with
  | added r => cases hremoved
  | removed r =>
    rw [after_removed]
    have herase := h.erase r.emojiType r.operatorId
    rw [erase_of_not_mem (fun hmem => ?_)] at herase
    · exact herase
    obtain ⟨r', hr', hkey⟩ := mem_map.1 hmem
    exact hlast r' hr' hkey

/-- **The counts follow upstream exactly then.** -/
theorem reactions_follow_iff (p : LarkPlatform) (u : Upstream) (reactions : List Reaction) (changes : List Change)
    (h : Change.Possible reactions changes) : Follows p u reactions {} changes ↔ CountsRight u reactions changes := by
  cases changes with
  | nil => exact Iff.rfl
  | cons c changes =>
    constructor
    · rintro ⟨-, fuel, s', hs', hshows, hfollows⟩
      rw [handle_event] at hs'
      obtain ⟨state, hsync, rfl⟩ := Option.map_eq_some_iff.1 hs'
      obtain ⟨hall, hsynced⟩ := sync_eq_some hsync
      obtain ⟨hremoved, hlast⟩ := removed_of_shows hsynced hshows
      have hafter := hsynced.after_first (p := p) (u := u) hremoved hlast
      have hne : c.apply reactions ≠ [] := fun hnil => (counted_of_shows hafter hshows).1 (by rw [hnil]; rfl)
      exact ⟨hall, ⟨hremoved, hlast⟩, hne, (follows_synced changes rfl hafter hshows h.2).1 hfollows⟩
    · rintro ⟨hall, ⟨hremoved, hlast⟩, hne, hnever⟩
      have hsync := sync_of_all hall 0 []
      have hafter := (sync_eq_some hsync).2.after_first (p := p) (u := u) hremoved hlast
      have hshows : Shows p (p.handOver {} _) _ := shows_handOver hafter hne
      refine ⟨fun _ => loadsOnce_of_all hall, 1, _, ?_, hshows, (follows_synced changes rfl hafter hshows h.2).2 hnever⟩
      rw [handle_event, hsync]
      rfl

def aliceLikes : Reaction := ⟨"1", "alice", "user", "THUMBSUP", by decide, by decide⟩

def bobHeart : Reaction := ⟨"2", "bob", "user", "HEART", by decide, by decide⟩

def onePlatform : LarkPlatform := { larkKeyToEmoticon := fun _ => none, selfId := none }

def fiftyUpstream : Upstream :=
  { messageId := "m", chatId := "c", pageToken := "next", pageLength := fun _ => 50, identified := by decide }

/-- A heart is all that is left when the only thumb is taken back. -/
theorem reactions_follow_removed :
    Follows onePlatform fiftyUpstream [aliceLikes, bobHeart] {} [.removed aliceLikes, .added aliceLikes] := by
  have hpossible : Change.Possible [aliceLikes, bobHeart] [.removed aliceLikes, .added aliceLikes] :=
    ⟨fun r hr => by cases hr; exact mem_cons_self, fun r hr => (by cases hr), trivial⟩
  refine (reactions_follow_iff onePlatform fiftyUpstream _ _ hpossible).2 ?_
  exact ⟨by decide, ⟨rfl, by decide⟩, by decide, by decide, trivial⟩

/-- **The first reaction of a message is shown twice.** -/
theorem first_reaction_counted_twice : ¬ Follows onePlatform fiftyUpstream [] {} [.added aliceLikes] := by
  rintro ⟨-, fuel, s', hs', hshows, -⟩
  rw [handle_event] at hs'
  obtain ⟨state, hsync, rfl⟩ := Option.map_eq_some_iff.1 hs'
  cases (removed_of_shows (sync_eq_some hsync).2 hshows).1

end LarkReactions
end Crossgram
