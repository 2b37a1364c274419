import Crossgram.Lib.Windows
/-!
# UpdateStore — the delivery log (packages/update-store)

A delivery is a pts reservation with its publication state.  `UpdateLog` is the log every backend implements: rows in
creation order, event keys distinct, message ids handed out in creation order.  Which rows retention drops is the
backend's own choice, so `create` and `prune` take it as an argument (`retained`); `UpdateStoreMemory` shows what the
memory backend chooses.  What a row was reserved with (`Reservation`) is never rewritten.
-/
namespace Crossgram

open List

/-- An update scope: `account`, or `channel:` followed by the channel id. -/
inductive UpdateScope
  | account
  | channel (channelId : Nat)
deriving DecidableEq

/-- `scope.startsWith('channel:')`. -/
def UpdateScope.isChannel : UpdateScope → Bool
  | .account   => false
  | .channel _ => true

structure Reservation where
  eventKey : String
  platformSessionId : String
  scope : UpdateScope
  pts : Int
  ptsCount : Nat
  seq : Nat
  date : Int
deriving DecidableEq

/-- A delivery before the store gives it its `messageId`; `J` is the stored form of a payload (`UpdateJson`). -/
structure NewUpdateDelivery (J : Type) extends Reservation where
  published : Bool
  claimedAt : Option Int
  payload : Option J
deriving DecidableEq

structure UpdateDelivery (J : Type) extends NewUpdateDelivery J where
  messageId : Nat
deriving DecidableEq

/-- Ascending `pts`, then `messageId`: the order of `getAfter` and `getFirst`. -/
def byPts {J : Type} (a b : UpdateDelivery J) : Prop := a.pts < b.pts ∨ a.pts = b.pts ∧ a.messageId ≤ b.messageId

/-- Ascending `seq`, then `messageId`: the order of `getPending` and `getSince`. -/
def bySeq {J : Type} (a b : UpdateDelivery J) : Prop := a.seq < b.seq ∨ a.seq = b.seq ∧ a.messageId ≤ b.messageId

section Orders

variable {J : Type}

instance : DecidableRel (byPts (J := J)) := fun a b => by unfold byPts; infer_instance
instance : DecidableRel (bySeq (J := J)) := fun a b => by unfold bySeq; infer_instance
instance : Std.Total (byPts (J := J)) := ⟨fun a b => by unfold byPts; omega⟩
instance : IsTrans (UpdateDelivery J) byPts := ⟨fun a b c => by unfold byPts; omega⟩

end Orders

structure UpdateLog (J : Type) where
  rows : List (UpdateDelivery J)
  nextMessageId : Nat
  keysDistinct : rows.Pairwise (fun a b => a.eventKey ≠ b.eventKey)
  idsIncrease : rows.Pairwise (fun a b => a.messageId < b.messageId)
  idsFresh : ∀ d ∈ rows, d.messageId < nextMessageId

/-- A channel changed since a date: its newest `pts`, ordered by its oldest row. -/
structure ChannelScopeUpdate where
  scope : UpdateScope
  pts : Int
  firstDeliveryId : Nat

namespace UpdateLog

variable {J : Type} (l : UpdateLog J)

def empty (nextMessageId : Nat) : UpdateLog J where
  rows := []
  nextMessageId := nextMessageId
  keysDistinct := .nil
  idsIncrease := .nil
  idsFresh := by simp

def get (eventKey : String) : Option (UpdateDelivery J) := l.rows.find? (fun d => d.eventKey = eventKey)

def prune (retained : UpdateDelivery J → Bool) : UpdateLog J where
  rows := l.rows.filter retained
  nextMessageId := l.nextMessageId
  keysDistinct := l.keysDistinct.filter retained
  idsIncrease := l.idsIncrease.filter retained
  idsFresh := fun d hd => l.idsFresh d (List.mem_filter.1 hd).1

def remove (eventKey : String) : UpdateLog J := l.prune (fun d => d.eventKey ≠ eventKey)

def modify (eventKey : String) (f : UpdateDelivery J → UpdateDelivery J)
    (hf : ∀ d, (f d).toReservation = d.toReservation ∧ (f d).messageId = d.messageId) : UpdateLog J where
  rows := l.rows.map (fun d => if d.eventKey = eventKey then f d else d)
  nextMessageId := l.nextMessageId
  keysDistinct := by
    have hk : ∀ d, (if d.eventKey = eventKey then f d else d).eventKey = d.eventKey := fun d => by
      split
      · exact congrArg Reservation.eventKey (hf d).1
      · rfl
    rw [List.pairwise_map]
    exact l.keysDistinct.imp (fun {a b} h => by rw [hk a, hk b]; exact h)
  idsIncrease := by
    have hi : ∀ d, (if d.eventKey = eventKey then f d else d).messageId = d.messageId := fun d => by
      split
      · exact (hf d).2
      · rfl
    rw [List.pairwise_map]
    exact l.idsIncrease.imp (fun {a b} h => by rw [hi a, hi b]; exact h)
  idsFresh := fun d hd => by
    obtain ⟨e, he, rfl⟩ := List.mem_map.1 hd
    split
    · rw [(hf e).2]; exact l.idsFresh e he
    · exact l.idsFresh e he

def markPublished (eventKey : String) : UpdateLog J :=
  l.modify eventKey (fun d => { d with published := true }) (fun _ => ⟨rfl, rfl⟩)

def claim (eventKey : String) (claimedAt : Int) : UpdateLog J :=
  l.modify eventKey (fun d => { d with claimedAt := some claimedAt }) (fun _ => ⟨rfl, rfl⟩)

def setPayload (eventKey : String) (payload : J) : UpdateLog J :=
  l.modify eventKey (fun d => { d with payload := some payload }) (fun _ => ⟨rfl, rfl⟩)

def rowOf (d : NewUpdateDelivery J) : UpdateDelivery J := { d with messageId := l.nextMessageId }

variable {k : String}

theorem get_eq_none {l : UpdateLog J} : l.get k = none ↔ ∀ d ∈ l.rows, d.eventKey ≠ k := by
  simp [get, find?_eq_none]

def append (d : NewUpdateDelivery J) (h : l.get d.eventKey = none) : UpdateLog J where
  rows := l.rows ++ [l.rowOf d]
  nextMessageId := l.nextMessageId + 1
  keysDistinct := List.pairwise_append.2 ⟨l.keysDistinct, List.pairwise_singleton _ _, fun a ha b hb => by
    rw [List.mem_singleton.1 hb]; exact get_eq_none.1 h a ha⟩
  idsIncrease := List.pairwise_append.2 ⟨l.idsIncrease, List.pairwise_singleton _ _, fun a ha b hb => by
    rw [List.mem_singleton.1 hb]; exact l.idsFresh a ha⟩
  idsFresh := fun a ha => by
    rcases List.mem_append.1 ha with ha | ha
    · exact Nat.lt_succ_of_lt (l.idsFresh a ha)
    · rw [List.mem_singleton.1 ha]; exact Nat.lt_succ_self _

def create (d : NewUpdateDelivery J) (retained : UpdateDelivery J → Bool) : UpdateLog J × UpdateDelivery J :=
  match h : l.get d.eventKey with
  | some existing => (l, existing)
  | none          => ((l.append d h).prune retained, l.rowOf d)

def getAfter (platformSessionId : String) (scope : UpdateScope) (pts : Int) (limit : Nat) : List (UpdateDelivery J) :=
  Windows.window byPts limit
    (l.rows.filter (fun d => d.platformSessionId = platformSessionId ∧ d.scope = scope ∧ pts < d.pts))

def getSince (platformSessionId : String) (date : Int) (limit : Nat) : List (UpdateDelivery J) :=
  Windows.window bySeq limit (l.rows.filter (fun d => d.platformSessionId = platformSessionId ∧ date ≤ d.date))

/-- The rows `getChangedChannelScopes` reads: channel rows that move `pts`, with a payload, dated from `date` on. -/
def announces (platformSessionId : String) (date : Int) (d : UpdateDelivery J) : Bool :=
  d.platformSessionId = platformSessionId ∧ date ≤ d.date ∧ 0 < d.ptsCount ∧ d.payload.isSome ∧ d.scope.isChannel

/-- One row of `getChangedChannelScopes`: the entry of its scope takes the larger `pts` and the smaller id. -/
def mergeScope (byScope : List ChannelScopeUpdate) (d : UpdateDelivery J) : List ChannelScopeUpdate :=
  if byScope.any (fun e => e.scope = d.scope) then
    byScope.map (fun e => if e.scope = d.scope
      then { e with pts := max e.pts d.pts, firstDeliveryId := min e.firstDeliveryId d.messageId } else e)
  else byScope ++ [{ scope := d.scope, pts := d.pts, firstDeliveryId := d.messageId }]

def getChangedChannelScopes (platformSessionId : String) (date : Int) : List ChannelScopeUpdate :=
  ((l.rows.filter (announces platformSessionId date)).foldl mergeScope []).insertionSort
    (fun a b => a.firstDeliveryId ≤ b.firstDeliveryId)

/-! ## What the operations do to the rows -/

variable {d : UpdateDelivery J}

theorem mem_of_get {l : UpdateLog J} (h : l.get k = some d) :
    d ∈ l.rows ∧ d.eventKey = k :=
  ⟨mem_of_find?_eq_some h, by simpa using find?_some h⟩

/-- **A row is the row of its key.** -/
theorem get_of_mem {l : UpdateLog J} (hd : d ∈ l.rows) : l.get d.eventKey = some d := by
  obtain ⟨x, hx⟩ : ∃ x, l.get d.eventKey = some x := by
    cases hg : l.get d.eventKey with
    | some x => exact ⟨x, rfl⟩
    | none => exact absurd rfl (get_eq_none.1 hg d hd)
  obtain ⟨hxm, hxk⟩ := mem_of_get hx
  by_cases hxd : x = d
  · rw [hx, hxd]
  · rcases Windows.rel_or_rel_of_mem l.keysDistinct hxm hd hxd with h | h
    · exact absurd hxk h
    · exact absurd hxk.symm h

theorem eq_of_messageId {l : UpdateLog J} {d e : UpdateDelivery J} (hd : d ∈ l.rows) (he : e ∈ l.rows)
    (h : d.messageId = e.messageId) : d = e := by
  by_contra hne
  rcases Windows.rel_or_rel_of_mem l.idsIncrease hd he hne with hlt | hlt <;> omega

@[simp] theorem mem_prune {retained : UpdateDelivery J → Bool} :
    d ∈ (l.prune retained).rows ↔ d ∈ l.rows ∧ retained d = true := mem_filter

@[simp] theorem prune_nextMessageId (retained : UpdateDelivery J → Bool) :
    (l.prune retained).nextMessageId = l.nextMessageId := rfl

@[simp] theorem mem_remove : d ∈ (l.remove k).rows ↔ d ∈ l.rows ∧ d.eventKey ≠ k := by
  simp [remove]

@[simp] theorem remove_nextMessageId (k : String) : (l.remove k).nextMessageId = l.nextMessageId := rfl

@[simp] theorem modify_nextMessageId (k : String) (f : UpdateDelivery J → UpdateDelivery J) (hf) :
    (l.modify k f hf).nextMessageId = l.nextMessageId := rfl

theorem mem_modify {f : UpdateDelivery J → UpdateDelivery J} {hf} :
    d ∈ (l.modify k f hf).rows ↔ ∃ e ∈ l.rows, d = if e.eventKey = k then f e else e := by
  simp only [modify, mem_map]
  exact ⟨fun ⟨e, he, h⟩ => ⟨e, he, h.symm⟩, fun ⟨e, he, h⟩ => ⟨e, he, h.symm⟩⟩

theorem mem_markPublished :
    d ∈ (l.markPublished k).rows ↔ ∃ e ∈ l.rows, d = if e.eventKey = k then { e with published := true } else e :=
  mem_modify l

theorem mem_claim {now : Int} :
    d ∈ (l.claim k now).rows ↔ ∃ e ∈ l.rows, d = if e.eventKey = k then { e with claimedAt := some now } else e :=
  mem_modify l

theorem mem_setPayload {p : J} :
    d ∈ (l.setPayload k p).rows ↔ ∃ e ∈ l.rows, d = if e.eventKey = k then { e with payload := some p } else e :=
  mem_modify l

theorem create_of_get_none {d : NewUpdateDelivery J} {retained : UpdateDelivery J → Bool}
    (h : l.get d.eventKey = none) : l.create d retained = ((l.append d h).prune retained, l.rowOf d) := by
  unfold create
  split
  · rename_i e' h'
    rw [h] at h'; cases h'
  · rfl

@[simp] theorem mem_append {d : NewUpdateDelivery J} {h} {e : UpdateDelivery J} :
    e ∈ (l.append d h).rows ↔ e ∈ l.rows ∨ e = l.rowOf d := by
  simp [append]

@[simp] theorem append_nextMessageId (d : NewUpdateDelivery J) (h) :
    (l.append d h).nextMessageId = l.nextMessageId + 1 := rfl

def entries : List (Reservation × Nat) := l.rows.map (fun d => (d.toReservation, d.messageId))

@[simp] theorem entries_modify (k : String) (f : UpdateDelivery J → UpdateDelivery J) (hf) :
    (l.modify k f hf).entries = l.entries := by
  simp only [entries, modify, map_map]
  refine map_congr_left (fun d _ => ?_)
  simp only [Function.comp_apply]
  split
  · rw [(hf d).1, (hf d).2]
  · rfl

@[simp] theorem entries_append (d : NewUpdateDelivery J) (h) :
    (l.append d h).entries = l.entries ++ [(d.toReservation, l.nextMessageId)] := by
  simp [entries, append, rowOf]

theorem entries_prune (retained : UpdateDelivery J → Bool) :
    List.Sublist (l.prune retained).entries l.entries := filter_sublist.map _

/-! ## What the queries return -/

variable {s : String}

theorem mem_getAfter {c : UpdateScope} {p : Int} {n : Nat}
    (h : d ∈ l.getAfter s c p n) : d ∈ l.rows ∧ d.platformSessionId = s ∧ d.scope = c ∧ p < d.pts := by
  simpa using Windows.mem_of_mem_window h

theorem getAfter_sorted (s : String) (c : UpdateScope) (p : Int) (n : Nat) : (l.getAfter s c p n).Pairwise byPts :=
  Windows.pairwise_window _ _

/-- **A row past `pts` that `getAfter` leaves out**: the window is full, of rows at or before it. -/
theorem getAfter_left_out {c : UpdateScope} {p : Int} {n : Nat} (hd : d ∈ l.rows)
    (hs : d.platformSessionId = s) (hc : d.scope = c) (hp : p < d.pts) (hout : d ∉ l.getAfter s c p n) :
    (l.getAfter s c p n).length = n ∧ ∀ e ∈ l.getAfter s c p n, byPts e d :=
  Windows.window_left_out (by simp [hd, hs, hc, hp]) hout

theorem mergeScope_covers (byScope : List ChannelScopeUpdate) (d : UpdateDelivery J) :
    (∃ e ∈ mergeScope byScope d, e.scope = d.scope ∧ d.pts ≤ e.pts) ∧
    ∀ e ∈ byScope, ∃ e' ∈ mergeScope byScope d, e'.scope = e.scope ∧ e.pts ≤ e'.pts := by
  unfold mergeScope
  split
  · rename_i h
    obtain ⟨x, hx, hxs⟩ := any_eq_true.1 h
    have hxs : x.scope = d.scope := by simpa using hxs
    constructor
    · refine ⟨_, mem_map.2 ⟨x, hx, rfl⟩, ?_⟩
      rw [if_pos hxs]
      exact ⟨hxs, le_max_right _ _⟩
    · intro e he
      refine ⟨_, mem_map.2 ⟨e, he, rfl⟩, ?_⟩
      split
      · exact ⟨rfl, le_max_left _ _⟩
      · exact ⟨rfl, le_refl _⟩
  · exact ⟨⟨_, mem_append_right _ (mem_singleton.2 rfl), rfl, le_refl _⟩,
      fun e he => ⟨e, mem_append_left _ he, rfl, le_refl _⟩⟩

theorem foldl_mergeScope_covers : ∀ (ds : List (UpdateDelivery J)) (byScope : List ChannelScopeUpdate),
    (∀ e ∈ byScope, ∃ e' ∈ ds.foldl mergeScope byScope, e'.scope = e.scope ∧ e.pts ≤ e'.pts) ∧
    ∀ d ∈ ds, ∃ e ∈ ds.foldl mergeScope byScope, e.scope = d.scope ∧ d.pts ≤ e.pts
  | [], byScope => ⟨fun e he => ⟨e, he, rfl, le_refl _⟩, fun d hd => by cases hd⟩
  | d :: ds, byScope => by
    obtain ⟨hnew, hold⟩ := mergeScope_covers byScope d
    obtain ⟨ih1, ih2⟩ := foldl_mergeScope_covers ds (mergeScope byScope d)
    have carry : ∀ e ∈ mergeScope byScope d, ∀ x : Int, ∀ c, e.scope = c → x ≤ e.pts →
        ∃ e' ∈ (d :: ds).foldl mergeScope byScope, e'.scope = c ∧ x ≤ e'.pts := by
      intro e he x c hc hx
      obtain ⟨e', he', hs, hp⟩ := ih1 e he
      exact ⟨e', he', hs.trans hc, le_trans hx hp⟩
    refine ⟨fun e he => ?_, fun x hx => ?_⟩
    · obtain ⟨e', he', hs, hp⟩ := hold e he
      exact carry e' he' _ _ hs hp
    · rcases mem_cons.1 hx with rfl | hx
      · obtain ⟨e, he, hs, hp⟩ := hnew
        exact carry e he _ _ hs hp
      · exact ih2 x hx

/-- **Every row that announces is covered**: its scope is among the changed ones, with a `pts` at or past its own. -/
theorem getChangedChannelScopes_covers {date : Int} (hd : d ∈ l.rows)
    (ha : announces s date d = true) : ∃ e ∈ l.getChangedChannelScopes s date, e.scope = d.scope ∧ d.pts ≤ e.pts := by
  obtain ⟨e, he, hs, hp⟩ := (foldl_mergeScope_covers (l.rows.filter (announces s date)) []).2 d
    (mem_filter.2 ⟨hd, ha⟩)
  exact ⟨e, (mem_insertionSort _).2 he, hs, hp⟩

end UpdateLog

end Crossgram
