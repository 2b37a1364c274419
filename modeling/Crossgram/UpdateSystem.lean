import Crossgram.UpdateDifference
import Crossgram.UpdateReservations
/-!
# UpdateSystem — publishers and readers of one store

`prepareUpdateDelivery` is two steps here: its transaction (`begin`) and the row it creates (`create`).  `_write` holds
its lock over both, so no other write runs between them, while reads do.  A `Ledger` is the tables, the reservation in
flight, and what the store has done so far, which no code reads: the intervals reserved, the deliveries created, the
payloads written, the rows retention dropped and the clock dates handed out for want of a state row.
-/
namespace Crossgram

open Option List

structure Ledger (J : Type) where
  tables : UpdateTables J
  writing : Option (NewUpdateDelivery J)
  reserved : List (String × UpdateScope × (Int × Nat))
  created : List (Reservation × Nat)
  written : List (Nat × J)
  pruned : List Nat
  clockDates : List (String × Int)

/-- A write from outside: a step of `prepareUpdateDelivery`, or any other write. -/
inductive LedgerWrite (J : Type)
  | begin (eventKey platformSessionId : String) (ptsCount : Nat) (date : Int) (channelId : Option Nat) (now : Int)
  | create (retained : UpdateDelivery J → Bool)
  | other (op : UpdateOp J)

def UpdateOp.isPrepare {J : Type} : UpdateOp J → Bool
  | .prepare .. => true
  | _           => false

namespace Ledger

variable {J : Type} (L : Ledger J)

def start (tables : UpdateTables J) : Ledger J := ⟨tables, none, [], [], [], [], []⟩

def reservedBy (t : UpdateTables J) (op : UpdateOp J) : List (String × UpdateScope × (Int × Nat)) :=
  ((t.taken op).map (fun k => (k.1, k.2.1, (t.counter k.1 k.2.1 + (k.2.2 : Int), k.2.2)))).toList

def writtenBy (t : UpdateTables J) : UpdateOp J → List (Nat × J)
  | .setPayload k p => (t.deliveries.get k).toList.map (fun d => (d.messageId, p))
  | _               => []

def prunedBy (t : UpdateTables J) : UpdateOp J → List Nat
  | .prune retained => (t.deliveries.rows.filter (fun d => !retained d)).map (fun d => d.messageId)
  | _               => []

def afterWrite (op : UpdateOp J) : Ledger J :=
  { L with
    tables := (L.tables.apply op).1
    reserved := L.reserved ++ reservedBy L.tables op
    written := L.written ++ writtenBy L.tables op
    pruned := L.pruned ++ prunedBy L.tables op }

def afterBegin (t : UpdateTables J) (d : NewUpdateDelivery J) : Ledger J :=
  { L with
    tables := t
    writing := some d
    reserved := L.reserved ++ [(d.platformSessionId, d.scope, (d.pts, d.ptsCount))] }

def afterCreate (d : NewUpdateDelivery J) (retained : UpdateDelivery J → Bool) : Ledger J :=
  { L with
    tables := (L.tables.finishPrepare d retained).1
    writing := none
    created := L.created ++ [(d.toReservation, L.tables.deliveries.nextMessageId)]
    pruned := L.pruned ++
      ((L.tables.deliveries.rows ++ [L.tables.deliveries.rowOf d]).filter (fun e => !retained e)).map
        (fun e => e.messageId) }

def write : LedgerWrite J → Option (Ledger J)
  | .begin k s n date c now =>
    if L.writing.isSome then none
    else match L.tables.beginPrepare k s n date c now with
      | (t, .inr _) => some { L with tables := t }
      | (t, .inl d) => some (L.afterBegin t d)
  | .create retained => L.writing.map (fun d => L.afterCreate d retained)
  | .other op => if L.writing.isSome || op.isPrepare then none else some (L.afterWrite op)

/-- A read, or a reader's write, at a clock of `ms` milliseconds. -/
def exec : (e : UpdateRead) → (ms : Int) → Ledger J → Option (Ledger J × e.Answer J)
  | .getUpdateState s, ms, L =>
    some ({ L with clockDates :=
        if (L.tables.updateState s).isNone then L.clockDates ++ [(s, ms / 1000)] else L.clockDates },
      L.tables.getUpdateState s (ms / 1000))
  | .getChannelUpdateStateRow s c, _, L => some (L, L.tables.channelUpdateState s c)
  | .getUpdateDeliveriesAfter s pts limit c, _, L => some (L, L.tables.getUpdateDeliveriesAfter s pts limit c)
  | .getUpdateDelivery k, _, L => some (L, L.tables.deliveries.get k)
  | .discardAbandonedUpdateDelivery k, ms, L =>
    if L.writing.isSome then none
    else some ({ L with tables := (L.tables._discardUpdateDelivery k true (ms / 1000)).1 },
      (L.tables._discardUpdateDelivery k true (ms / 1000)).2)
  | .getChangedChannelScopes s date, _, L => some (L, L.tables.deliveries.getChangedChannelScopes s date)
  | .getChannelUpdateDeliveriesSince s date limit, _, L =>
    some (L, L.tables.getChannelUpdateDeliveriesSince s date limit)
  | .markUpdatePublished k, _, L =>
    if L.writing.isSome then none else some ({ L with tables := L.tables.markUpdatePublished k }, ())
  | .now, ms, L => some (L, ms)

/-! ## What always holds -/

def entries : List (Reservation × Nat) := L.tables.deliveries.entries

def Gone (id : Nat) : Prop := id < L.tables.deliveries.nextMessageId ∧ ∀ e ∈ L.entries, e.2 ≠ id

def intervalOf (r : Reservation) : String × UpdateScope × (Int × Nat) := (r.platformSessionId, r.scope, (r.pts, r.ptsCount))

def Before (i j : String × UpdateScope × (Int × Nat)) : Prop := i.1 = j.1 → i.2.1 = j.2.1 → i.2.2.1 ≤ j.2.2.1 - j.2.2.2

structure WellFormed : Prop where
  rowsCreated : ∀ e ∈ L.entries, e ∈ L.created
  idsSpent : ∀ e ∈ L.created, e.2 < L.tables.deliveries.nextMessageId
  idsIncrease : L.created.Pairwise (fun e e' => e.2 < e'.2)
  ordered : L.reserved.Pairwise Before
  below : ∀ i ∈ L.reserved, i.2.2.1 ≤ L.tables.counter i.1 i.2.1
  createdReserved : List.Sublist ((L.created.map (fun e => intervalOf e.1)) ++
    L.writing.toList.map (fun d => intervalOf d.toReservation)) L.reserved
  inFlight : ∀ d, L.writing = some d → d.pts = L.tables.counter d.platformSessionId d.scope ∧
    L.tables.deliveries.get d.eventKey = none ∧ d.payload = none
  writtenRow : ∀ w ∈ L.written, w.1 ∈ L.pruned ∨ ∃ d ∈ L.tables.deliveries.rows, d.messageId = w.1 ∧ d.payload.isSome
  rowWritten : ∀ d ∈ L.tables.deliveries.rows, ∀ p, d.payload = some p → (d.messageId, p) ∈ L.written
  writtenSpent : ∀ w ∈ L.written, w.1 < L.tables.deliveries.nextMessageId

/-- What a run only adds to: nothing created, reserved, written or pruned is forgotten, counters and ids go up, a
delivery that is gone stays gone, and what is new was reserved past the counters met, or was in flight. -/
structure Grows (L L' : Ledger J) : Prop where
  created : ∀ e ∈ L.created, e ∈ L'.created
  reserved : ∀ i ∈ L.reserved, i ∈ L'.reserved
  written : ∀ w ∈ L.written, w ∈ L'.written
  pruned : ∀ id ∈ L.pruned, id ∈ L'.pruned
  clockDates : ∀ x ∈ L.clockDates, x ∈ L'.clockDates
  counters : ∀ s scope, L.tables.counter s scope ≤ L'.tables.counter s scope
  nextMessageId : L.tables.deliveries.nextMessageId ≤ L'.tables.deliveries.nextMessageId
  gone : ∀ id, L.Gone id → L'.Gone id
  newReserved : ∀ i ∈ L'.reserved, i ∈ L.reserved ∨ L.tables.counter i.1 i.2.1 ≤ i.2.2.1 - i.2.2.2
  newCreated : ∀ e ∈ L'.created, e ∈ L.created ∨ L.tables.deliveries.nextMessageId ≤ e.2 ∧
    ((∃ d, L.writing = some d ∧ e.1 = d.toReservation) ∨
      L.tables.counter e.1.platformSessionId e.1.scope ≤ e.1.pts - e.1.ptsCount)
  newWriting : ∀ d, L'.writing = some d → L.writing = some d ∨
    L.tables.counter d.platformSessionId d.scope ≤ d.pts - d.ptsCount
  newWritten : ∀ x ∈ L'.written, x ∈ L.written ∨ ¬ L.Gone x.1

theorem Grows.refl (L : Ledger J) : Grows L L :=
  ⟨fun _ h => h, fun _ h => h, fun _ h => h, fun _ h => h, fun _ h => h, fun _ _ => le_refl _, le_refl _, fun _ h => h,
    fun _ h => Or.inl h, fun _ h => Or.inl h, fun _ h => Or.inl h, fun _ h => Or.inl h⟩

theorem Grows.trans {L L' L'' : Ledger J} (h : Grows L L') (h' : Grows L' L'') : Grows L L'' := by
  refine ⟨fun e he => h'.created e (h.created e he), fun i hi => h'.reserved i (h.reserved i hi),
    fun w hw => h'.written w (h.written w hw), fun id hid => h'.pruned id (h.pruned id hid),
    fun x hx => h'.clockDates x (h.clockDates x hx),
    fun s c => le_trans (h.counters s c) (h'.counters s c), le_trans h.nextMessageId h'.nextMessageId,
    fun id hid => h'.gone id (h.gone id hid), fun i hi => ?_, fun e he => ?_, fun d hd => ?_, fun x hx => ?_⟩
  · rcases h'.newReserved i hi with hi | hi
    · exact h.newReserved i hi
    · exact Or.inr (le_trans (h.counters _ _) hi)
  · rcases h'.newCreated e he with he | ⟨hid, ⟨d, hd, hed⟩ | hlt⟩
    · exact h.newCreated e he
    · refine Or.inr ⟨le_trans h.nextMessageId hid, ?_⟩
      rcases h.newWriting d hd with hd | hlt
      · exact Or.inl ⟨d, hd, hed⟩
      · rw [hed]
        exact Or.inr hlt
    · exact Or.inr ⟨le_trans h.nextMessageId hid, Or.inr (le_trans (h.counters _ _) hlt)⟩
  · rcases h'.newWriting d hd with hd | hlt
    · exact h.newWriting d hd
    · exact Or.inr (le_trans (h.counters _ _) hlt)
  · rcases h'.newWritten x hx with hx | hrow
    · exact h.newWritten x hx
    · exact Or.inr (fun hgone => hrow (h.gone x.1 hgone))

def Moves (L L' : Ledger J) : Prop := L'.WellFormed ∧ Grows L L'

theorem isRely_moves : Programs.IsRely (Moves (J := J)) :=
  ⟨fun h h' => ⟨h'.1, h.2.trans h'.2⟩, fun h => ⟨h.1, .refl _⟩⟩

end Ledger

/-! ## Rows under a write -/

namespace UpdateTables

variable {J : Type} {t : UpdateTables J}

theorem row_origin {op : UpdateOp J} (hc : t.created op = none) {d : UpdateDelivery J}
    (hd : d ∈ (t.apply op).1.deliveries.rows) :
    ∃ e ∈ t.deliveries.rows, e.toReservation = d.toReservation ∧ e.messageId = d.messageId ∧
      (d.payload = e.payload ∨ ∃ k p, op = .setPayload k p ∧ t.deliveries.get k = some e ∧ d.payload = some p) := by
  have kept : ∀ {d}, d ∈ t.deliveries.rows → ∃ e ∈ t.deliveries.rows, e.toReservation = d.toReservation ∧
      e.messageId = d.messageId ∧ (d.payload = e.payload ∨ ∃ k p, op = .setPayload k p ∧
        t.deliveries.get k = some e ∧ d.payload = some p) := fun hd => ⟨_, hd, rfl, rfl, Or.inl rfl⟩
  cases op with
  | prepare k s n date c now retained =>
    cases hk : t.deliveries.get k with
    | none => simp [created, hk] at hc
    | some x =>
      rw [apply_prepare_existing hk] at hd
      obtain ⟨e, he, rfl⟩ := (UpdateLog.mem_claim t.deliveries).1 hd
      split <;> exact ⟨e, he, rfl, rfl, Or.inl rfl⟩
  | advancePts s n date c =>
    rw [apply_advancePts_deliveries] at hd
    exact kept hd
  | advanceUpdateState s n date => exact kept hd
  | setPayload k p =>
    obtain ⟨e, he, rfl⟩ := (UpdateLog.mem_setPayload t.deliveries).1 hd
    split
    · rename_i hk
      exact ⟨e, he, rfl, rfl, Or.inr ⟨k, p, rfl, hk ▸ UpdateLog.get_of_mem he, rfl⟩⟩
    · exact kept he
  | markPublished k =>
    obtain ⟨e, he, rfl⟩ := (UpdateLog.mem_markPublished t.deliveries).1 hd
    split <;> exact ⟨e, he, rfl, rfl, Or.inl rfl⟩
  | discard k a now =>
    simp only [apply, _discardUpdateDelivery] at hd
    split at hd
    · exact kept ((UpdateLog.mem_remove _).1 hd).1
    · exact kept hd
  | prune retained => exact kept ((UpdateLog.mem_prune _).1 hd).1

theorem row_fate {op : UpdateOp J} (hc : t.created op = none) {e : UpdateDelivery J} (he : e ∈ t.deliveries.rows)
    (hp : e.payload.isSome) :
    (∃ d ∈ (t.apply op).1.deliveries.rows, d.toReservation = e.toReservation ∧ d.messageId = e.messageId ∧
      d.payload.isSome) ∨ ∃ retained, op = .prune retained ∧ retained e = false := by
  cases op with
  | prepare k s n date c now retained =>
    cases hk : t.deliveries.get k with
    | none => simp [created, hk] at hc
    | some x =>
      rw [apply_prepare_existing hk]
      refine Or.inl ⟨_, (UpdateLog.mem_claim t.deliveries).2 ⟨e, he, rfl⟩, ?_⟩
      split <;> exact ⟨rfl, rfl, hp⟩
  | advancePts s n date c =>
    rw [apply_advancePts_deliveries]
    exact Or.inl ⟨e, he, rfl, rfl, hp⟩
  | advanceUpdateState s n date => exact Or.inl ⟨e, he, rfl, rfl, hp⟩
  | setPayload k p =>
    refine Or.inl ⟨_, (UpdateLog.mem_setPayload t.deliveries).2 ⟨e, he, rfl⟩, ?_⟩
    split
    · exact ⟨rfl, rfl, rfl⟩
    · exact ⟨rfl, rfl, hp⟩
  | markPublished k =>
    refine Or.inl ⟨_, (UpdateLog.mem_markPublished t.deliveries).2 ⟨e, he, rfl⟩, ?_⟩
    split <;> exact ⟨rfl, rfl, hp⟩
  | discard k a now =>
    left
    simp only [apply, _discardUpdateDelivery]
    split
    · rename_i hdis
      refine ⟨e, (UpdateLog.mem_remove _).2 ⟨he, fun hk => ?_⟩, rfl, rfl, hp⟩
      subst hk
      obtain ⟨p, hp⟩ := isSome_iff_exists.1 hp
      simp [discardable, UpdateLog.get_of_mem he, hp] at hdis
    · exact ⟨e, he, rfl, rfl, hp⟩
  | prune retained =>
    by_cases hr : retained e = true
    · exact Or.inl ⟨e, (UpdateLog.mem_prune _).2 ⟨he, hr⟩, rfl, rfl, hp⟩
    · exact Or.inr ⟨retained, rfl, Bool.eq_false_iff.2 hr⟩

end UpdateTables

namespace Ledger

variable {J : Type} {L : Ledger J}

theorem wellFormed_start (t : UpdateTables J) (h : t.deliveries.rows = []) : (start t).WellFormed where
  rowsCreated e he := by simp [start, entries, UpdateLog.entries, h] at he
  idsSpent e he := absurd he not_mem_nil
  idsIncrease := .nil
  ordered := .nil
  below i hi := absurd hi not_mem_nil
  createdReserved := List.Sublist.refl _
  inFlight d hd := by cases hd
  writtenRow w hw := absurd hw not_mem_nil
  rowWritten d hd := by simp [start, h] at hd
  writtenSpent w hw := absurd hw not_mem_nil

theorem entry_mem {d : UpdateDelivery J} (hd : d ∈ L.tables.deliveries.rows) :
    (d.toReservation, d.messageId) ∈ L.entries := UpdateTables.mem_entries_of_mem hd

theorem gone_of_sub {L L' : Ledger J} (hnext : L.tables.deliveries.nextMessageId ≤ L'.tables.deliveries.nextMessageId)
    (hsub : ∀ e ∈ L'.entries, e ∈ L.entries ∨ L.tables.deliveries.nextMessageId ≤ e.2) {id : Nat} (h : L.Gone id) :
    L'.Gone id := by
  refine ⟨lt_of_lt_of_le h.1 hnext, fun e he hid => ?_⟩
  rcases hsub e he with he | hle
  · exact h.2 e he hid
  · have := h.1
    omega

variable {op : UpdateOp J}

theorem reservedBy_spec {t : UpdateTables J} {i : String × UpdateScope × (Int × Nat)}
    (hi : i ∈ reservedBy t op) :
    t.taken op = some (i.1, i.2.1, i.2.2.2) ∧ i.2.2.1 = t.counter i.1 i.2.1 + i.2.2.2 := by
  rw [reservedBy, mem_toList] at hi
  obtain ⟨k, hk, rfl⟩ := map_eq_some_iff.1 hi
  exact ⟨hk, rfl⟩

theorem row_of_writtenBy {x : Nat × J} (hx : x ∈ writtenBy L.tables op) :
    ∃ d ∈ L.tables.deliveries.rows, d.messageId = x.1 := by
  cases op with
  | setPayload k p =>
    obtain ⟨d, hd, rfl⟩ := mem_map.1 hx
    exact ⟨d, (UpdateLog.mem_of_get (mem_toList.1 hd)).1, rfl⟩
  | _ => cases hx

/-- **A write that creates nothing moves the ledger.** -/
theorem moves_afterWrite (hL : L.WellFormed) (hfree : L.writing = none)
    (hc : L.tables.created op = none) : Moves L (L.afterWrite op) := by
  have hentries : ∀ e ∈ (L.afterWrite op).entries, e ∈ L.entries := by
    intro e he
    rcases UpdateTables.entries_apply_cases he with he | ⟨d, hd, -⟩
    · exact he
    · rw [hc] at hd; cases hd
  have hnext : (L.afterWrite op).tables.deliveries.nextMessageId = L.tables.deliveries.nextMessageId := by
    simp only [afterWrite, UpdateTables.nextMessageId_apply, hc, isSome_none, Bool.false_eq_true, if_false,
      Nat.add_zero]
  have hcounters : ∀ s scope, L.tables.counter s scope ≤ (L.afterWrite op).tables.counter s scope :=
    UpdateTables.counter_le_apply op
  have hnew : ∀ i ∈ reservedBy L.tables op, L.tables.counter i.1 i.2.1 = i.2.2.1 - i.2.2.2 ∧
      i.2.2.1 = (L.afterWrite op).tables.counter i.1 i.2.1 := by
    intro i hi
    obtain ⟨htaken, hpts⟩ := reservedBy_spec hi
    have := UpdateTables.counter_apply_of_taken htaken
    exact ⟨by omega, by simp only [afterWrite]; omega⟩
  refine ⟨⟨fun e he => hL.rowsCreated e (hentries e he), fun e he => hnext ▸ hL.idsSpent e he, hL.idsIncrease, ?_, ?_,
    hL.createdReserved.trans (sublist_append_left _ _), fun d hd => ?_, ?_, ?_, ?_⟩,
    ⟨fun _ h => h, fun i hi => mem_append_left _ hi, fun w hw => mem_append_left _ hw,
      fun id hid => mem_append_left _ hid, fun _ h => h, hcounters, le_of_eq hnext.symm,
      fun id hid => gone_of_sub (le_of_eq hnext.symm) (fun e he => Or.inl (hentries e he)) hid, ?_,
      fun e he => Or.inl he, fun d hd => Or.inl hd, fun x hx => ?_⟩⟩
  · refine pairwise_append.2 ⟨hL.ordered, ?_, fun i hi j hj hs hscope => ?_⟩
    · unfold reservedBy
      cases L.tables.taken op <;> simp
    · have := hL.below i hi
      have := (hnew j hj).1
      rw [hs, hscope] at *
      omega
  · intro i hi
    rcases mem_append.1 hi with hi | hi
    · exact le_trans (hL.below i hi) (hcounters _ _)
    · exact le_of_eq (hnew i hi).2
  · simp only [afterWrite, hfree] at hd
    cases hd
  · intro w hw
    rcases mem_append.1 hw with hw | hw
    · rcases hL.writtenRow w hw with hp | ⟨d, hd, hid, hpay⟩
      · exact Or.inl (mem_append_left _ hp)
      · rcases UpdateTables.row_fate hc hd hpay with ⟨d', hd', -, hid', hpay'⟩ | ⟨retained, rfl, hr⟩
        · exact Or.inr ⟨d', hd', hid'.trans hid, hpay'⟩
        · refine Or.inl (mem_append_right _ (mem_map.2 ⟨d, mem_filter.2 ⟨hd, by simp [hr]⟩, hid⟩))
    · right
      cases op with
      | setPayload k p =>
        obtain ⟨d, hd, rfl⟩ := mem_map.1 hw
        obtain ⟨hmem, hkey⟩ := UpdateLog.mem_of_get (mem_toList.1 hd)
        refine ⟨{ d with payload := some p }, ?_, rfl, rfl⟩
        exact (UpdateLog.mem_setPayload _).2 ⟨d, hmem, by rw [if_pos hkey]⟩
      | _ => simp [writtenBy] at hw
  · intro d hd p hp
    obtain ⟨e, he, -, hid, hpay | ⟨k, q, rfl, hget, hpay⟩⟩ := UpdateTables.row_origin hc hd
    · rw [← hid]
      exact mem_append_left _ (hL.rowWritten e he p (hpay ▸ hp))
    · rw [hpay] at hp
      cases hp
      refine mem_append_right _ ?_
      simp only [writtenBy, hget, toList_some, map_cons, map_nil, mem_singleton, hid]
  · intro w hw
    rw [hnext]
    rcases mem_append.1 hw with hw | hw
    · exact hL.writtenSpent w hw
    · obtain ⟨d, hd, hid⟩ := row_of_writtenBy hw
      exact hid ▸ L.tables.deliveries.idsFresh d hd
  · intro i hi
    rcases mem_append.1 hi with hi | hi
    · exact Or.inl hi
    · exact Or.inr (le_of_eq (hnew i hi).1)
  · refine (mem_append.1 hx).imp id (fun hx hgone => ?_)
    obtain ⟨d, hd, hid⟩ := row_of_writtenBy hx
    exact hgone.2 _ (entry_mem hd) hid

theorem reserve_spec {t : UpdateTables J} {k : String} (hk : t.deliveries.get k = none) (s : String) (n : Nat)
    (date : Int) (c : Option Nat) (now : Int) :
    let r := t.reserveDelivery k s n date c now
    r.2.pts = t.counter r.2.platformSessionId r.2.scope + r.2.ptsCount ∧
    r.1.counter r.2.platformSessionId r.2.scope = r.2.pts ∧
    ∀ s' scope, t.counter s' scope ≤ r.1.counter s' scope := by
  let op : UpdateOp J := .prepare k s n date c now (fun _ => true)
  have hcounter : ∀ s' scope, (t.apply op).1.counter s' scope =
      (t.reserveDelivery k s n date c now).1.counter s' scope := fun s' scope => by
    rw [UpdateTables.apply_prepare_new hk]
    cases scope <;> rfl
  have hcreated : t.created op = some (t.deliveries.rowOf (t.reserveDelivery k s n date c now).2) := by
    simp [op, UpdateTables.created, hk]
  obtain ⟨htaken, hpts, -⟩ := UpdateTables.created_spec hcreated
  refine ⟨hpts, ?_, fun s' scope => hcounter s' scope ▸ UpdateTables.counter_le_apply op s' scope⟩
  rw [← hcounter]
  exact (UpdateTables.counter_apply_of_taken htaken).trans hpts.symm

/-- **A new reservation moves the ledger.** -/
theorem moves_afterBegin (hL : L.WellFormed) (hfree : L.writing = none) {k : String}
    (hk : L.tables.deliveries.get k = none) (s : String) (n : Nat) (date : Int) (c : Option Nat) (now : Int) :
    Moves L (L.afterBegin (L.tables.reserveDelivery k s n date c now).1
      (L.tables.reserveDelivery k s n date c now).2) := by
  obtain ⟨hpts, hcounter, hmono⟩ := reserve_spec hk s n date c now
  have hlog := UpdateTables.reserveDelivery_deliveries (t := L.tables) k s n date c now
  have hkey := UpdateTables.reserveDelivery_eventKey (t := L.tables) k s n date c now
  have hpay : (L.tables.reserveDelivery k s n date c now).2.payload = none := by cases c <;> rfl
  generalize L.tables.reserveDelivery k s n date c now = r at *
  have hentries : (L.afterBegin r.1 r.2).entries = L.entries := by simp only [entries, afterBegin, hlog]
  have hnext : (L.afterBegin r.1 r.2).tables.deliveries.nextMessageId = L.tables.deliveries.nextMessageId := by
    simp only [afterBegin, hlog]
  refine ⟨?_, ?_⟩
  · exact
    { rowsCreated := fun e he => hL.rowsCreated e (hentries ▸ he)
      idsSpent := fun e he => hnext ▸ hL.idsSpent e he
      idsIncrease := hL.idsIncrease
      ordered := pairwise_append.2 ⟨hL.ordered, pairwise_singleton _ _, fun i hi j hj hs hscope => by
        rw [mem_singleton.1 hj] at hs hscope ⊢
        have := hL.below i hi
        rw [hs, hscope] at this
        simp only at this ⊢
        omega⟩
      below := fun i hi => by
        rcases mem_append.1 hi with hi | hi
        · exact le_trans (hL.below i hi) (hmono _ _)
        · rw [mem_singleton.1 hi]
          exact le_of_eq hcounter.symm
      createdReserved := by
        have hsub := hL.createdReserved
        simp only [hfree, toList_none, map_nil, append_nil] at hsub
        exact hsub.append (List.Sublist.refl _)
      inFlight := fun d hd => by
        obtain rfl : r.2 = d := Option.some.inj hd
        refine ⟨hcounter.symm, ?_, hpay⟩
        simp only [afterBegin, hlog, hkey]
        exact hk
      writtenRow := fun w hw => by
        simp only [afterBegin, hlog]
        exact hL.writtenRow w hw
      rowWritten := fun d hd => by
        simp only [afterBegin, hlog] at hd
        exact hL.rowWritten d hd
      writtenSpent := fun w hw => by
        rw [hnext]
        exact hL.writtenSpent w hw }
  · exact
    { created := fun _ h => h
      reserved := fun i hi => mem_append_left _ hi
      written := fun _ h => h
      pruned := fun _ h => h
      clockDates := fun _ h => h
      counters := hmono
      nextMessageId := le_of_eq hnext.symm
      gone := fun id hid => gone_of_sub (le_of_eq hnext.symm) (fun e he => Or.inl (hentries ▸ he)) hid
      newReserved := fun i hi => by
        rcases mem_append.1 hi with hi | hi
        · exact Or.inl hi
        · rw [mem_singleton.1 hi]
          exact Or.inr (by simp only; omega)
      newCreated := fun e he => Or.inl he
      newWriting := fun d hd => by
        obtain rfl : r.2 = d := Option.some.inj hd
        exact Or.inr (by omega)
      newWritten := fun x hx => Or.inl hx }

/-- **Creating the row of the reservation in flight moves the ledger.** -/
theorem moves_afterCreate (hL : L.WellFormed) {d : NewUpdateDelivery J} (hd : L.writing = some d)
    (retained : UpdateDelivery J → Bool) : Moves L (L.afterCreate d retained) := by
  obtain ⟨-, hkey, hpay⟩ := hL.inFlight d hd
  have hlog : (L.afterCreate d retained).tables.deliveries = (L.tables.deliveries.append d hkey).prune retained := by
    simp only [afterCreate, UpdateTables.finishPrepare, UpdateLog.create_of_get_none _ hkey]
  have hcounters : ∀ s scope, (L.afterCreate d retained).tables.counter s scope = L.tables.counter s scope :=
    fun s scope => by cases scope <;> rfl
  have hnext : (L.afterCreate d retained).tables.deliveries.nextMessageId = L.tables.deliveries.nextMessageId + 1 := by
    rw [hlog]; rfl
  have hentries : ∀ e ∈ (L.afterCreate d retained).entries, e ∈ L.entries ∨
      e = (d.toReservation, L.tables.deliveries.nextMessageId) := by
    intro e he
    simp only [entries, hlog] at he
    have := (UpdateLog.entries_prune _ retained).subset he
    rw [UpdateLog.entries_append] at this
    exact (mem_append.1 this).imp id mem_singleton.1
  have hrows : ∀ x ∈ (L.afterCreate d retained).tables.deliveries.rows, x ∈ L.tables.deliveries.rows ∨
      x = L.tables.deliveries.rowOf d := by
    intro x hx
    rw [hlog] at hx
    exact (UpdateLog.mem_append _).1 ((UpdateLog.mem_prune _).1 hx).1
  refine ⟨?_, ?_⟩
  · exact
    { rowsCreated := fun e he => by
        rcases hentries e he with he | rfl
        · exact mem_append_left _ (hL.rowsCreated e he)
        · exact mem_append_right _ (mem_singleton.2 rfl)
      idsSpent := fun e he => by
        rw [hnext]
        rcases mem_append.1 he with he | he
        · exact Nat.lt_succ_of_lt (hL.idsSpent e he)
        · rw [mem_singleton.1 he]
          exact Nat.lt_succ_self _
      idsIncrease := pairwise_append.2 ⟨hL.idsIncrease, pairwise_singleton _ _, fun e he e' he' => by
        rw [mem_singleton.1 he']
        exact hL.idsSpent e he⟩
      ordered := hL.ordered
      below := fun i hi => by rw [hcounters]; exact hL.below i hi
      createdReserved := by
        have hsub := hL.createdReserved
        rw [hd] at hsub
        simpa [afterCreate] using hsub
      inFlight := fun x hx => by cases hx
      writtenRow := fun w hw => by
        rcases hL.writtenRow w hw with hp | ⟨x, hx, hid, hxp⟩
        · exact Or.inl (mem_append_left _ hp)
        · by_cases hr : retained x = true
          · refine Or.inr ⟨x, ?_, hid, hxp⟩
            rw [hlog]
            exact (UpdateLog.mem_prune _).2 ⟨(UpdateLog.mem_append _).2 (Or.inl hx), hr⟩
          · refine Or.inl (mem_append_right _ (mem_map.2 ⟨x, mem_filter.2 ⟨?_, by simp [hr]⟩, hid⟩))
            exact mem_append_left _ hx
      rowWritten := fun x hx p hp => by
        rcases hrows x hx with hx | rfl
        · exact hL.rowWritten x hx p hp
        · simp only [UpdateLog.rowOf, hpay] at hp
          cases hp
      writtenSpent := fun w hw => by
        rw [hnext]
        exact Nat.lt_succ_of_lt (hL.writtenSpent w hw) }
  · exact
    { created := fun e he => mem_append_left _ he
      reserved := fun _ h => h
      written := fun _ h => h
      pruned := fun id hid => mem_append_left _ hid
      clockDates := fun _ h => h
      counters := fun s scope => le_of_eq (hcounters s scope).symm
      nextMessageId := by omega
      gone := fun id hid => gone_of_sub (by omega) (fun e he => (hentries e he).imp (fun h => h) (fun h => by rw [h])) hid
      newReserved := fun i hi => Or.inl hi
      newCreated := fun e he => by
        rcases mem_append.1 he with he | he
        · exact Or.inl he
        · rw [mem_singleton.1 he]
          exact Or.inr ⟨le_refl _, Or.inl ⟨d, hd, rfl⟩⟩
      newWriting := fun x hx => by cases hx
      newWritten := fun x hx => Or.inl hx }

theorem afterWrite_of_quiet (op : UpdateOp J) (htaken : L.tables.taken op = none) (hw : writtenBy L.tables op = [])
    (hp : prunedBy L.tables op = []) : L.afterWrite op = { L with tables := (L.tables.apply op).1 } := by
  simp [afterWrite, reservedBy, htaken, hw, hp]

/-- **Every write from outside moves the ledger.** -/
theorem write_moves (hL : L.WellFormed) {o : LedgerWrite J} {L' : Ledger J} (h : L.write o = some L') : Moves L L' := by
  cases o with
  | begin k s n date c now =>
    simp only [write] at h
    split at h
    · cases h
    · rename_i hfree
      have hfree : L.writing = none := by simpa using hfree
      cases hk : L.tables.deliveries.get k with
      | some e =>
        simp only [UpdateTables.beginPrepare, hk, Option.some.injEq] at h
        have hc : L.tables.created (.prepare k s n date c now (fun _ => true)) = none := by
          simp [UpdateTables.created, hk]
        have hquiet := afterWrite_of_quiet (L := L) (.prepare k s n date c now (fun _ => true))
          (by simp [UpdateTables.taken, hk]) rfl rfl
        rw [UpdateTables.apply_prepare_existing hk] at hquiet
        rw [← h, ← hquiet]
        exact moves_afterWrite hL hfree hc
      | none =>
        simp only [UpdateTables.beginPrepare, hk, Option.some.injEq] at h
        rw [← h]
        exact moves_afterBegin hL hfree hk s n date c now
  | create retained =>
    obtain ⟨d, hd, rfl⟩ := map_eq_some_iff.1 h
    exact moves_afterCreate hL hd retained
  | other op =>
    simp only [write] at h
    split at h
    · cases h
    · rename_i hfree
      cases h
      simp only [Bool.or_eq_true, not_or, Bool.not_eq_true, isSome_eq_false_iff, isNone_iff_eq_none]
        at hfree
      refine moves_afterWrite hL hfree.1 ?_
      cases op with
      | prepare k s n date c now retained => cases hfree.2
      | _ => rfl

/-- **Every call of a reader moves the ledger.** -/
theorem exec_moves (hL : L.WellFormed) {e : UpdateRead} {ms : Int} {L' : Ledger J} {a : e.Answer J}
    (h : exec e ms L = some (L', a)) : Moves L L' := by
  cases e with
  | getUpdateState s =>
    simp only [exec, Option.some.injEq] at h
    obtain ⟨rfl, -⟩ := h
    have hclock : ∀ x ∈ L.clockDates, x ∈ (if (L.tables.updateState s).isNone then L.clockDates ++ [(s, ms / 1000)]
        else L.clockDates) := by
      intro x hx
      split
      · exact mem_append_left _ hx
      · exact hx
    exact ⟨{ hL with }, { Grows.refl L with clockDates := hclock }⟩
  | discardAbandonedUpdateDelivery k =>
    simp only [exec] at h
    split at h
    · cases h
    · rename_i hfree
      simp only [Option.some.injEq] at h
      obtain ⟨rfl, -⟩ := h
      have hquiet := afterWrite_of_quiet (L := L) (.discard k true (ms / 1000)) rfl rfl rfl
      exact hquiet ▸ moves_afterWrite hL (by simpa using hfree) rfl
  | markUpdatePublished k =>
    simp only [exec] at h
    split at h
    · cases h
    · rename_i hfree
      simp only [Option.some.injEq] at h
      obtain ⟨rfl, -⟩ := h
      have hquiet := afterWrite_of_quiet (L := L) (.markPublished k) rfl rfl rfl
      exact hquiet ▸ moves_afterWrite hL (by simpa using hfree) rfl
  | _ =>
    simp only [exec, Option.some.injEq] at h
    obtain ⟨rfl, -⟩ := h
    exact ⟨hL, Grows.refl L⟩

end Ledger

/-! ## The system -/

inductive ReadRequest
  | difference (platformSessionId : String) (request : GetDifferenceRequest)
  | channelDifference (platformSessionId : String) (request : GetChannelDifferenceRequest)

inductive ReadResponse (J T D : Type)
  | difference (response : Difference T)
  | channelDifference (response : ChannelDifference J T D)

def updateSystem {J T D : Type} (codec : TlCodec J T) (buildTooLong : Nat → Int → Option D) :
    Programs.System (Ledger J) (LedgerWrite J) Int ReadRequest (ReadResponse J T D) UpdateRead (UpdateRead.Answer J) where
  write := Ledger.write
  exec := Ledger.exec
  program
    | .difference s request => do
      let response ← getDifference codec s request
      pure (.difference response)
    | .channelDifference s request => do
      let response ← getChannelDifference codec s request buildTooLong
      pure (.channelDifference response)

abbrev UpdateWorld (J T D : Type) :=
  Programs.World (Ledger J) ReadRequest (ReadResponse J T D) UpdateRead (UpdateRead.Answer J)

abbrev UpdateAction (J : Type) := Programs.Action (LedgerWrite J) Int ReadRequest

abbrev Calls (J : Type) := List (Programs.Performed (Ledger J) UpdateRead (UpdateRead.Answer J))

def plainCodec : TlCodec (RawUpdates Nat) Nat := ⟨id, toString⟩

/-- A session nothing was reserved in, read with `plainCodec`. -/
def freshLedger : Ledger (RawUpdates Nat) := .start (.ofCounters (fun _ => none) (fun _ _ => none) 1)

abbrev plainSystem := updateSystem plainCodec (fun channelId pts => some (channelId, pts))

end Crossgram
