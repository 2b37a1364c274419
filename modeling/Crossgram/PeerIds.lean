import Crossgram.Lib.Maps
import Crossgram.Lib.Runs
import Crossgram.Lib.Utf16
import Mathlib.Data.Set.Basic
import Mathlib.Logic.Function.Iterate
/-!
# PeerIds — the Telegram id of a conversation (packages/bridge/src/dialogs.ts, update-manager.ts)

A dialog component gives a conversation the first free id from its hash on and keeps it for as long as the process
lives; the update manager, the message projection and packages/group-auto-kick/src/plan.ts take the hash itself.  What is left out of a
channel is what does not depend on the conversation's id: its rights, photo and participant count.
-/
namespace Crossgram
namespace PeerIds

/-- A string, by its UTF-16 code units. -/
abbrev JsString := List UInt16

def text (s : List Char) : JsString := Utf16.encode s

/-- The row id of a platform session is drawn at random and is not empty. -/
structure PlatformSession where
  platformSessionId : JsString
  nonempty : platformSessionId ≠ []

inductive ConversationKind
  | direct | group | channel
deriving DecidableEq

structure IMConversation where
  id : JsString
  kind : ConversationKind
  title : JsString := []
  broadcast : Bool := false
  owned : Bool := false

/-! ## Hashes -/

def fnvRound (hash : UInt32) (unit : UInt16) : UInt32 := (hash ^^^ unit.toUInt32) * 0x01000193

def stableId (value : JsString) : Nat := (value.foldl fnvRound 0x811c9dc5).toNat % 0x7ffffffe + 1

def peerTlSeed (platformSessionId platformPeerId : JsString) : JsString :=
  text ['p', 'e', 'e', 'r', ':'] ++ platformSessionId ++ text [':'] ++ platformPeerId

theorem stableId_pos (value : JsString) : 1 ≤ stableId value := Nat.le_add_left _ _

/-! ## The components that take the hash -/

inductive TlPeer
  | peerUser (userId : Nat)
  | peerChannel (channelId : Nat)

structure TlChannel where
  id : Nat
  title : JsString
  creator : Bool
  broadcast : Bool
  megagroup : Bool
  forum : Bool

/-- `makeUpdateChat` of the update manager. -/
def makeUpdateChat (platformSessionId : JsString) (conversation : IMConversation) (forum : Bool) : TlChannel where
  id := stableId (peerTlSeed platformSessionId conversation.id)
  title := conversation.title
  creator := conversation.owned
  broadcast := conversation.broadcast
  megagroup := !conversation.broadcast
  forum := forum

def projectTlMessagePeer (platformSessionId : JsString) (conversation : Option IMConversation) (peerId : Option TlPeer) :
    Option TlPeer :=
  peerId.or (conversation.map (fun c =>
    let conversationId :=
      stableId (if platformSessionId ≠ [] then peerTlSeed platformSessionId c.id else text ['p', 'e', 'e', 'r', ':'] ++ c.id)
    if c.kind = .direct then .peerUser conversationId else .peerChannel conversationId))

def telegramChannelIdFor (platformSessionId platformConversationId : JsString) : Nat :=
  stableId (text ['p', 'e', 'e', 'r', ':'] ++ platformSessionId ++ text [':'] ++ platformConversationId)

def TlPeer.id : TlPeer → Nat
  | .peerUser userId       => userId
  | .peerChannel channelId => channelId

/-! ## The dialog component -/

structure DialogRpc where
  session : PlatformSession
  /-- `0` until the account's user is known. -/
  selfId : Nat := 0
  peerToTl : List (JsString × Nat) := []
  tlToPeer : List (Nat × JsString) := []

def nextCandidate (candidate : Nat) : Nat := if candidate = 0x7fffffff then 1 else candidate + 1

def probe (taken : Nat → Bool) : Nat → Nat → Option Nat
  | 0, _         => none
  | n + 1, candidate => if taken candidate then probe taken n (nextCandidate candidate) else some candidate

namespace DialogRpc

variable (d : DialogRpc)

def taken (candidate : Nat) : Bool := decide (candidate = d.selfId) || Maps.has d.tlToPeer candidate

/-- `_allocate`; without a free id the search would go round for ever, and there is no result. -/
def allocate (seed : JsString) : Option Nat := probe d.taken 0x7fffffff (stableId seed)

/-- `_peerId`. -/
def peerId (platformPeerId : JsString) : DialogRpc × Option Nat :=
  match Maps.get d.peerToTl platformPeerId with
  | some existing => (d, some existing)
  | none =>
    match d.allocate (peerTlSeed d.session.platformSessionId platformPeerId) with
    | none    => (d, none)
    | some id => ({ d with
        peerToTl := Maps.set d.peerToTl platformPeerId id
        tlToPeer := Maps.set d.tlToPeer id platformPeerId }, some id)

def makeChat (conversation : IMConversation) (forum : Bool) : DialogRpc × Option TlChannel :=
  let (d', id) := d.peerId conversation.id
  (d', id.map (fun id =>
    { id
      title := conversation.title
      creator := conversation.owned
      broadcast := conversation.broadcast
      megagroup := !conversation.broadcast
      forum := !conversation.broadcast && forum }))

end DialogRpc

inductive PeerEvent
  | hydrateUsers
  | peerId (platformPeerId : JsString)
  | restart

/-- One event, for an account whose own id is `own`. -/
def step (own : Nat) (d : DialogRpc) : PeerEvent → DialogRpc × Option Nat
  | .hydrateUsers  => ({ d with selfId := own }, none)
  | .peerId peerId => d.peerId peerId
  | .restart       => ({ session := d.session }, none)

def run (session : PlatformSession) (own : Nat) (events : List PeerEvent) : List (Runs.Call DialogRpc PeerEvent (Option Nat)) :=
  Runs.calls (step own) { session } events

def LearnsOnly (conversations : Set JsString) (events : List PeerEvent) : Prop :=
  ∀ p, PeerEvent.peerId p ∈ events → p ∈ conversations

/-! ## The search for a free id -/

theorem probe_eq_some {taken : Nat → Bool} {id : Nat} : ∀ {n c : Nat}, probe taken n c = some id → taken id = false
  | 0, _, h     => by cases h
  | n + 1, c, h => by
    rw [probe] at h
    split at h
    · exact probe_eq_some h
    · rename_i hfree
      cases h
      exact Bool.eq_false_iff.2 hfree

variable {d d' : DialogRpc} {p q : JsString} {id own : Nat} {seed : JsString}

theorem free_of_allocate (h : d.allocate seed = some id) : id ≠ d.selfId ∧ Maps.get d.tlToPeer id = none := by
  have hfree := probe_eq_some h
  unfold DialogRpc.taken at hfree
  rw [Bool.or_eq_false_iff, decide_eq_false_iff_not] at hfree
  refine ⟨hfree.1, Maps.get_eq_none.2 (fun e he hkey => ?_)⟩
  exact absurd (Maps.has_iff.2 ⟨e, he, hkey⟩) (Bool.eq_false_iff.1 hfree.2)

theorem allocate_of_free (h : d.taken (stableId seed) = false) : d.allocate seed = some (stableId seed) := by
  unfold DialogRpc.allocate
  rw [show (0x7fffffff : Nat) = 0x7ffffffe + 1 from rfl, probe, if_neg (Bool.eq_false_iff.1 h)]

/-! ## One process -/

def Inverse (d : DialogRpc) : Prop := ∀ p id, Maps.get d.peerToTl p = some id ↔ Maps.get d.tlToPeer id = some p

/-- **What naming a conversation does**: the id it has, or a free one that it is given, or nothing. -/
theorem peerId_cases (d : DialogRpc) (p : JsString) :
    (∃ id, Maps.get d.peerToTl p = some id ∧ d.peerId p = (d, some id)) ∨
    (∃ id, Maps.get d.peerToTl p = none ∧ d.allocate (peerTlSeed d.session.platformSessionId p) = some id ∧
      d.peerId p = ({ d with peerToTl := Maps.set d.peerToTl p id, tlToPeer := Maps.set d.tlToPeer id p }, some id)) ∨
    (Maps.get d.peerToTl p = none ∧ d.allocate (peerTlSeed d.session.platformSessionId p) = none ∧
      d.peerId p = (d, none)) := by
  unfold DialogRpc.peerId
  cases hget : Maps.get d.peerToTl p with
  | some id => exact .inl ⟨id, rfl, rfl⟩
  | none =>
    cases halloc : d.allocate (peerTlSeed d.session.platformSessionId p) with
    | some id => exact .inr (.inl ⟨id, rfl, rfl, rfl⟩)
    | none => exact .inr (.inr ⟨rfl, rfl, rfl⟩)

theorem Inverse.set (h : Inverse d) (hp : Maps.get d.peerToTl p = none) (hid : Maps.get d.tlToPeer id = none) :
    Inverse { d with peerToTl := Maps.set d.peerToTl p id, tlToPeer := Maps.set d.tlToPeer id p } := by
  intro q i
  dsimp only
  rw [Maps.get_set, Maps.get_set]
  by_cases hq : q = p
  · subst hq
    rw [if_pos rfl]
    by_cases hi : i = id
    · rw [if_pos hi, hi]
      exact ⟨fun _ => rfl, fun _ => rfl⟩
    · rw [if_neg hi, ← h q i, hp]
      exact ⟨fun heq => absurd (Option.some.inj heq).symm hi, fun heq => nomatch heq⟩
  · rw [if_neg hq]
    by_cases hi : i = id
    · rw [if_pos hi, h q i, hi, hid]
      exact ⟨fun heq => (nomatch heq), fun heq => absurd (Option.some.inj heq).symm hq⟩
    · rw [if_neg hi]
      exact h q i

/-! ## One id everywhere -/

def NamedBy (session : PlatformSession) (p : JsString) (id : Nat) : Prop :=
  (∀ conversation : IMConversation, conversation.id = p →
    (∀ forum, (makeUpdateChat session.platformSessionId conversation forum).id = id) ∧
    (projectTlMessagePeer session.platformSessionId (some conversation) none).map TlPeer.id = some id) ∧
  telegramChannelIdFor session.platformSessionId p = id

/-- **A conversation has one peer id everywhere**: in every run over the set, whatever a conversation is given is not the
account's id, is the id by which all the other components name it, and in every run is given to it and to no other. -/
def OnePeerId (session : PlatformSession) (own : Nat) (conversations : Set JsString) : Prop :=
  ∀ events, LearnsOnly conversations events → ∀ c ∈ run session own events, ∀ p, c.op = .peerId p →
    ∃ id, c.reply = some id ∧ id ≠ own ∧ NamedBy session p id ∧
      ∀ events', LearnsOnly conversations events' → ∀ c' ∈ run session own events', ∀ q, c'.op = .peerId q →
        (c'.reply = some id ↔ q = p)

def hashOf (session : PlatformSession) (p : JsString) : Nat := stableId (peerTlSeed session.platformSessionId p)

def HashesApart (session : PlatformSession) (own : Nat) (conversations : Set JsString) : Prop :=
  conversations.InjOn (hashOf session) ∧ ∀ p ∈ conversations, hashOf session p ≠ own

variable {session : PlatformSession} {conversations : Set JsString}

theorem namedBy_iff : NamedBy session p id ↔ id = hashOf session p := by
  constructor
  · intro h
    exact h.2.symm
  · rintro rfl
    refine ⟨fun conversation hid => ⟨fun forum => by rw [← hid]; rfl, ?_⟩, rfl⟩
    unfold projectTlMessagePeer
    rw [Option.none_or, Option.map_some, Option.map_some, if_pos session.nonempty, hid]
    split <;> rfl

structure Hashed (session : PlatformSession) (own : Nat) (conversations : Set JsString) (d : DialogRpc) : Prop where
  inverse : Inverse d
  ofSession : d.session = session
  selfId : d.selfId = 0 ∨ d.selfId = own
  hash : ∀ p id, Maps.get d.peerToTl p = some id → p ∈ conversations ∧ id = hashOf session p

theorem Hashed.new (session : PlatformSession) (own : Nat) (conversations : Set JsString) :
    Hashed session own conversations { session } where
  inverse _ _ := ⟨fun heq => (nomatch heq), fun heq => (nomatch heq)⟩
  ofSession := rfl
  selfId := .inl rfl
  hash _ _ heq := nomatch heq

theorem Hashed.free (h : Hashed session own conversations d) (hapart : HashesApart session own conversations)
    (hp : p ∈ conversations) (hnone : Maps.get d.peerToTl p = none) : d.taken (hashOf session p) = false := by
  unfold DialogRpc.taken
  rw [Bool.or_eq_false_iff, decide_eq_false_iff_not]
  constructor
  · intro heq
    rcases h.selfId with hself | hself
    · have hpos : 1 ≤ hashOf session p := stableId_pos _
      omega
    · exact hapart.2 p hp (heq.trans hself)
  · rw [Bool.eq_false_iff]
    intro hhas
    obtain ⟨q, hq⟩ : ∃ q, Maps.get d.tlToPeer (hashOf session p) = some q := by
      rw [← Option.isSome_iff_exists, ← Option.ne_none_iff_isSome]
      intro hget
      obtain ⟨e, he, hkey⟩ := Maps.has_iff.1 hhas
      exact Maps.get_eq_none.1 hget e he hkey
    have hgiven := (h.inverse q _).2 hq
    obtain ⟨hmem, hhash⟩ := h.hash q _ hgiven
    rw [hapart.1 hp hmem hhash, hgiven] at hnone
    cases hnone

/-- **What a conversation is given**: its hash. -/
theorem Hashed.peerId (h : Hashed session own conversations d) (hapart : HashesApart session own conversations)
    (hp : p ∈ conversations) :
    (d.peerId p).2 = some (hashOf session p) ∧ Hashed session own conversations (d.peerId p).1 := by
  have hfree (hnone : Maps.get d.peerToTl p = none) :
      d.allocate (peerTlSeed d.session.platformSessionId p) = some (hashOf session p) := by
    have hseed : stableId (peerTlSeed d.session.platformSessionId p) = hashOf session p := by rw [h.ofSession]; rfl
    rw [← hseed]
    exact allocate_of_free (hseed ▸ h.free hapart hp hnone)
  rcases peerId_cases d p with ⟨id, hget, heq⟩ | ⟨id, hnone, halloc, heq⟩ | ⟨hnone, halloc, heq⟩
  · rw [heq]
    refine ⟨?_, h⟩
    rw [← (h.hash p id hget).2]
  · rw [hfree hnone] at halloc
    cases halloc
    rw [heq]
    refine ⟨rfl, h.inverse.set hnone (free_of_allocate (hfree hnone)).2, h.ofSession, h.selfId, fun q id hget => ?_⟩
    dsimp only at hget
    rw [Maps.get_set] at hget
    split at hget
    · rename_i hq
      cases hget
      exact ⟨hq ▸ hp, by rw [hq]⟩
    · exact h.hash q id hget
  · rw [hfree hnone] at halloc
    cases halloc

theorem Hashed.step (h : Hashed session own conversations d) (hapart : HashesApart session own conversations)
    {event : PeerEvent} (hevent : ∀ p, event = .peerId p → p ∈ conversations) :
    Hashed session own conversations (step own d event).1 := by
  cases event with
  | hydrateUsers => exact ⟨h.inverse, h.ofSession, .inr rfl, h.hash⟩
  | restart =>
    have hnew := Hashed.new session own conversations
    exact ⟨hnew.inverse, h.ofSession, .inl rfl, hnew.hash⟩
  | peerId p => exact (h.peerId hapart (hevent p rfl)).2

/-- **With the hashes apart every run hands out hashes.** -/
theorem reply_eq_hashOf (hapart : HashesApart session own conversations) {events : List PeerEvent}
    (hlearns : LearnsOnly conversations events) {c : Runs.Call DialogRpc PeerEvent (Option Nat)}
    (hc : c ∈ run session own events) (hop : c.op = .peerId p) : c.reply = some (hashOf session p) := by
  have hreplies : ∀ c ∈ run session own events, ∀ p, c.op = .peerId p → c.reply = some (hashOf session p) := by
    refine Runs.calls_forall_within (I := Hashed session own conversations) (fun d event hevent hd => ?_)
      (fun d event hevent hd p hop => ?_) (Hashed.new session own conversations)
    · exact hd.step hapart (fun p hp => hlearns p (hp ▸ hevent))
    · obtain rfl : event = .peerId p := hop
      exact (hd.peerId hapart (hlearns p hevent)).1
  exact hreplies c hc p hop

theorem mem_run_peerId (session : PlatformSession) (own : Nat) (p : JsString) :
    Runs.callAt (step own) { session } (.peerId p) ∈ run session own [.peerId p] := List.mem_singleton.2 rfl

/-- **A conversation has one peer id everywhere exactly when no two of the set have one hash and none has the account's
id for its hash.** -/
theorem onePeerId_iff_hashesApart (session : PlatformSession) (own : Nat) (conversations : Set JsString) :
    OnePeerId session own conversations ↔ HashesApart session own conversations := by
  have hlearns {p : JsString} (hp : p ∈ conversations) : LearnsOnly conversations [.peerId p] := fun q hq => by
    cases List.mem_singleton.1 hq
    exact hp
  constructor
  · intro h
    refine ⟨fun p hp q hq hhash => ?_, fun p hp => ?_⟩
    · obtain ⟨id, _, _, hid, hall⟩ := h _ (hlearns hp) _ (mem_run_peerId session own p) p rfl
      obtain ⟨id', hreply, _, hid', _⟩ := h _ (hlearns hq) _ (mem_run_peerId session own q) q rfl
      have heq : id' = id := by rw [namedBy_iff.1 hid, namedBy_iff.1 hid', hhash]
      exact ((hall _ (hlearns hq) _ (mem_run_peerId session own q) q rfl).1 (heq ▸ hreply)).symm
    · obtain ⟨id, _, hself, hid, _⟩ := h _ (hlearns hp) _ (mem_run_peerId session own p) p rfl
      rw [← namedBy_iff.1 hid]
      exact hself
  · intro hapart events hev c hc p hop
    have hp : p ∈ conversations := hev p (by
      have hmem := Runs.op_mem hc
      rwa [hop] at hmem)
    refine ⟨hashOf session p, reply_eq_hashOf hapart hev hc hop, hapart.2 p hp, namedBy_iff.2 rfl, ?_⟩
    intro events' hev' c' hc' q hop'
    have hq : q ∈ conversations := hev' q (by
      have hmem := Runs.op_mem hc'
      rwa [hop'] at hmem)
    rw [reply_eq_hashOf hapart hev' hc' hop']
    constructor
    · intro heq
      exact hapart.1 hq hp (Option.some.inj heq)
    · rintro rfl
      rfl

/-! ## Two conversations with one hash -/

def qqSession : PlatformSession := ⟨text ['q', 'q'], by decide⟩
def firstGroup : JsString := text ['2', '8', '9', '2', '5', '9']
def secondGroup : JsString := text ['3', '1', '0', '9', '2', '4']

/-- Learnt first, a group is given the hash, which is what the live updates name it by; learnt second, it is given the
id after that, and the live updates of the two groups name one chat. -/
theorem second_group_given_another_id :
    (run qqSession 42 [.hydrateUsers, .peerId firstGroup, .peerId secondGroup]).map (·.reply) =
      [none, some 1527242393, some 1527242394] ∧
    (run qqSession 42 [.hydrateUsers, .peerId secondGroup, .peerId firstGroup]).map (·.reply) =
      [none, some 1527242393, some 1527242394] ∧
    telegramChannelIdFor qqSession.platformSessionId firstGroup = 1527242393 ∧
    telegramChannelIdFor qqSession.platformSessionId secondGroup = 1527242393 ∧
    ¬ OnePeerId qqSession 42 {firstGroup, secondGroup} := by
  have hfirst : telegramChannelIdFor qqSession.platformSessionId firstGroup = 1527242393 := by decide +kernel
  have hsecond : telegramChannelIdFor qqSession.platformSessionId secondGroup = 1527242393 := by decide +kernel
  refine ⟨by decide +kernel, by decide +kernel, hfirst, hsecond, fun h => ?_⟩
  have hnamed (p : JsString) (hp : p ∈ ({firstGroup, secondGroup} : Set JsString)) :
      LearnsOnly {firstGroup, secondGroup} [.peerId p] := fun q hq => by
    cases List.mem_singleton.1 hq
    exact hp
  have hlearn := hnamed firstGroup (.inl rfl)
  have hlearn' := hnamed secondGroup (.inr rfl)
  obtain ⟨id, _, _, hid, hall⟩ := h _ hlearn _ (mem_run_peerId qqSession 42 firstGroup) firstGroup rfl
  obtain ⟨id', hreply, _, hid', _⟩ := h _ hlearn' _ (mem_run_peerId qqSession 42 secondGroup) secondGroup rfl
  obtain rfl : id = 1527242393 := hid.2.symm.trans hfirst
  obtain rfl : id' = 1527242393 := hid'.2.symm.trans hsecond
  have hsame := (hall _ hlearn' _ (mem_run_peerId qqSession 42 secondGroup) secondGroup rfl).1 hreply
  exact absurd hsame (by decide)

end PeerIds
end Crossgram
