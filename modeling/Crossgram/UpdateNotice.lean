import Crossgram.UpdateReads
/-!
# UpdateNotice — channel updates a client is not told of

`getDifference` finds changed channels by date alone, so a channel delivery is noticed only while the client's date is at
or before its own.  One client's calls are the thread `client`, each passing back the pts and date last given
(`holds`).  `NoticeSafe` is what keeps a delivery from falling behind the date unnoticed: no write dates the account
before a date already handed out, retention keeps a channel's newest row until the client is past it, and a call answers
only a date that no incomplete reservation is behind.
-/
namespace Crossgram

open Function List Programs Ledger

variable {J T D : Type}

/-! ## One client -/

structure Given where
  pts : Int
  date : Int

def Given.next (given : Given) : Difference T → Given
  | .differenceEmpty date _  => { given with date := date }
  | .difference _ state      => { pts := state.pts, date := state.date }
  | .differenceSlice _ state => { pts := state.pts, date := state.date }

def Given.hear (client : Nat) (given : Given)
    (f : Finished (Ledger J) ReadRequest (ReadResponse J T D) UpdateRead (UpdateRead.Answer J)) : Given :=
  match f.response with
  | .difference response => if f.thread = client then given.next response else given
  | .channelDifference _ => given

def holds (client : Nat) (given : Given) (finished : List (Finished (Ledger J) ReadRequest (ReadResponse J T D) UpdateRead
    (UpdateRead.Answer J))) : Given := finished.foldl (Given.hear client) given

def Difference.otherUpdates : Difference T → List (TlUpdate T)
  | .differenceEmpty _ _       => []
  | .difference content _      => content.otherUpdates
  | .differenceSlice content _ => content.otherUpdates

/-- A response of the client's says that the channel is at `pts` or past it. -/
def Announced (client : Nat) (finished : List (Finished (Ledger J) ReadRequest (ReadResponse J T D) UpdateRead
    (UpdateRead.Answer J))) (channelId : Nat) (pts : Int) : Prop :=
  ∃ f ∈ finished, f.thread = client ∧ ∃ response, f.response = .difference response ∧
    ∃ pts', pts ≤ pts' ∧ .updateChannelTooLong channelId pts' ∈ response.otherUpdates

structure CountsIn (s : String) (channelId : Nat) (r : Reservation) : Prop where
  session : r.platformSessionId = s
  scope : r.scope = .channel channelId
  counts : 0 < r.ptsCount

/-- **No lost channel notification**: a published channel delivery dated below the client's date was announced. -/
def NoneUnnoticed (client : Nat) (s : String) (given : Given) (w : UpdateWorld J T D) : Prop :=
  ∀ e ∈ w.shared.created, ∀ channelId, CountsIn s channelId e.1 → (∃ json, (e.2, json) ∈ w.shared.written) →
    e.1.date < (holds client given w.finished).date → Announced client w.finished channelId e.1.pts

/-! ## The condition -/

def Reached (s : String) (L : Ledger J) (x : Int) : Prop :=
  (∃ row, L.tables.updateState s = some row ∧ x ≤ row.date) ∨ (L.tables.updateState s = none ∧ (s, x) ∈ L.clockDates)

def KeepsReached (s : String) (L L' : Ledger J) : Prop :=
  ∀ row, L'.tables.updateState s = some row → ∀ x, Reached s L x → x ≤ row.date

def Drops (o : LedgerWrite J) (d : UpdateDelivery J) : Prop :=
  match o with
  | .create retained         => retained d = false
  | .other (.prune retained) => retained d = false
  | _                        => False

/-- A published row of a channel at or past `pts` and dated at or past `date`. -/
structure Covers (s : String) (channelId : Nat) (pts date : Int) (d : UpdateDelivery J) : Prop where
  countsIn : CountsIn s channelId d.toReservation
  published : d.payload.isSome
  pts : pts ≤ d.pts
  date : date ≤ d.date

def KeepsNewest (s : String) (date : Int) (o : LedgerWrite J) (L L' : Ledger J) : Prop :=
  ∀ d ∈ L.tables.deliveries.rows, Drops o d → ∀ channelId, Covers s channelId d.pts d.date d →
    d.date < date ∨ ∃ d' ∈ L'.tables.deliveries.rows, Covers s channelId d.pts d.date d'

/-- The date `getDifference` hands out for what it has read. -/
def handedDate (request : GetDifferenceRequest) (state : UpdateStateRow) (deliveries : List (UpdateDelivery J)) : Int :=
  if (pageOf request.limit deliveries).length < deliveries.length then
    ((pageOf request.limit deliveries).getLast?.map (fun last => last.date)).getD request.date
  else state.date

/-- No channel reservation of the session that is incomplete is dated behind `date`. -/
structure NoneIncomplete (s : String) (date : Int) (L : Ledger J) : Prop where
  rows : ∀ d ∈ L.tables.deliveries.rows, ∀ channelId, CountsIn s channelId d.toReservation → d.payload = none →
    date ≤ d.date
  inFlight : ∀ d, L.writing = some d → ∀ channelId, CountsIn s channelId d.toReservation → date ≤ d.date

def ReadsBehind (s : String) (request : GetDifferenceRequest) (h : Calls J) : Prop :=
  ∀ state ∈ h.filterMap stateRead, ∀ read ∈ rowsRead none h, ∀ scopes ∈ h.filterMap scopesRead,
    (∀ last ∈ (pageOf request.limit read.2.2).getLast?, last.platformSessionId = s) ∧
    NoneIncomplete s (handedDate request state.2 read.2.2) scopes.1

def PassesBack (client : Nat) (s : String) (given : Given) (w : UpdateWorld J T D) : UpdateAction J → Prop
  | .start i q => i = client → ∃ request, q = .difference s request ∧
      request.pts = (holds client given w.finished).pts ∧ request.date = (holds client given w.finished).date
  | _ => True

def NoticeSafe (client : Nat) (s : String) (given : Given) (w : UpdateWorld J T D) : UpdateAction J → Prop
  | .write o => ∀ L', w.shared.write o = some L' →
      KeepsReached s w.shared L' ∧ KeepsNewest s (holds client given w.finished).date o w.shared L'
  | .start i q => PassesBack client s given w (.start i q)
  | .perform _ _ => True
  | .finish i => i = client → ∀ th, w.threads i = some th → ∀ request, th.request = .difference s request →
      ReadsBehind s request th.history

/-! ## Dates under a step -/

structure Dated (s : String) (L : Ledger J) : Prop where
  created : ∀ e ∈ L.created, e.1.platformSessionId = s →
    ∃ row, L.tables.updateState s = some row ∧ e.1.date ≤ row.date
  writing : ∀ d, L.writing = some d → d.platformSessionId = s →
    ∃ row, L.tables.updateState s = some row ∧ d.date ≤ row.date
  clock : ∀ x, (s, x) ∈ L.clockDates → ∀ row, L.tables.updateState s = some row → x ≤ row.date

structure NoticeMoves (s : String) (L L' : Ledger J) : Prop where
  moves : Moves L L'
  dated : Dated s L'
  reached : ∀ x, Reached s L x → Reached s L' x
  newCreated : ∀ e ∈ L'.created, e.1.platformSessionId = s → e ∈ L.created ∨
    (∃ d, L.writing = some d ∧ e.1 = d.toReservation) ∨ ∀ x, Reached s L x → x ≤ e.1.date
  newWriting : ∀ d, L'.writing = some d → d.platformSessionId = s → L.writing = some d ∨
    ∀ x, Reached s L x → x ≤ d.date

variable {s : String}

theorem NoticeMoves.trans {L L' L'' : Ledger J} (h : NoticeMoves s L L') (h' : NoticeMoves s L' L'') :
    NoticeMoves s L L'' := by
  refine ⟨isRely_moves.trans h.moves h'.moves, h'.dated, fun x hx => h'.reached x (h.reached x hx),
    fun e he hs => ?_, fun d hd hs => ?_⟩
  · rcases h'.newCreated e he hs with he | ⟨d, hd, hed⟩ | hpast
    · exact h.newCreated e he hs
    · rw [hed] at hs
      rcases h.newWriting d hd hs with hd | hpast
      · exact Or.inr (Or.inl ⟨d, hd, hed⟩)
      · rw [hed]
        exact Or.inr (Or.inr hpast)
    · exact Or.inr (Or.inr (fun x hx => hpast x (h.reached x hx)))
  · rcases h'.newWriting d hd hs with hd | hpast
    · exact h.newWriting d hd hs
    · exact Or.inr (fun x hx => hpast x (h.reached x hx))

theorem NoticeMoves.refl {L : Ledger J} (hL : L.WellFormed) (hdated : Dated s L) : NoticeMoves s L L :=
  ⟨⟨hL, .refl L⟩, hdated, fun _ hx => hx, fun _ he _ => Or.inl he, fun _ hd _ => Or.inl hd⟩

variable {L L' : Ledger J} {e : UpdateRead} {ms : Int} {a : e.Answer J}

theorem exec_updateState
    (h : exec e ms L = some (L', a)) (s : String) : L'.tables.updateState s = L.tables.updateState s ∧
      ∀ x, (s, x) ∈ L'.clockDates → (s, x) ∈ L.clockDates ∨ L.tables.updateState s = none := by
  cases e with
  | getUpdateState s' =>
    simp only [exec, Option.some.injEq] at h
    obtain ⟨rfl, -⟩ := h
    refine ⟨rfl, fun x hx => ?_⟩
    split at hx
    · rename_i hnone
      rcases mem_append.1 hx with hx | hx
      · exact Or.inl hx
      · obtain ⟨rfl, -⟩ := Prod.mk.inj (mem_singleton.1 hx)
        exact Or.inr (by simpa using hnone)
    · exact Or.inl hx
  | discardAbandonedUpdateDelivery k =>
    simp only [exec] at h
    split at h
    · cases h
    · cases h
      refine ⟨?_, fun x hx => Or.inl hx⟩
      simp only [UpdateTables._discardUpdateDelivery]
      split <;> rfl
  | markUpdatePublished k =>
    simp only [exec] at h
    split at h
    · cases h
    · cases h
      exact ⟨rfl, fun x hx => Or.inl hx⟩
  | _ =>
    simp only [exec, Option.some.injEq] at h
    cases h
    exact ⟨rfl, fun x hx => Or.inl hx⟩

theorem noticeMoves_exec
    (hL : L.WellFormed) (hdated : Dated s L) (h : exec e ms L = some (L', a)) : NoticeMoves s L L' := by
  obtain ⟨hcreated, hwriting, -⟩ := exec_keeps h
  obtain ⟨hstate, hclock⟩ := exec_updateState h s
  have hmoves := exec_moves hL h
  refine ⟨hmoves, ⟨?_, ?_, fun x hx row hrow => ?_⟩, fun x hx => ?_, fun e he _ => Or.inl (hcreated ▸ he),
    fun d hd _ => Or.inl (hwriting ▸ hd)⟩
  · rw [hcreated, hstate]
    exact hdated.created
  · rw [hwriting, hstate]
    exact hdated.writing
  · rw [hstate] at hrow
    rcases hclock x hx with hx | hnone
    · exact hdated.clock x hx row hrow
    · rw [hnone] at hrow
      cases hrow
  · unfold Reached
    rw [hstate]
    exact hx.imp id (fun hx => ⟨hx.1, hmoves.2.clockDates _ hx.2⟩)

theorem reserveDelivery_dated (t : UpdateTables J) (k s : String) (n : Nat) (date : Int) (c : Option Nat) (now : Int) :
    ∃ row, (t.reserveDelivery k s n date c now).1.updateState s = some row ∧
      (t.reserveDelivery k s n date c now).2.platformSessionId = s ∧
      (t.reserveDelivery k s n date c now).2.date = row.date := by
  cases c with
  | none => exact ⟨_, UpdateTables.setUpdateState_self _ _, rfl, rfl⟩
  | some c => exact ⟨_, UpdateTables.setUpdateState_self _ _, rfl, rfl⟩

structure WriteEffect (L L' : Ledger J) : Prop where
  rows : ∀ s row, L.tables.updateState s = some row → ∃ row', L'.tables.updateState s = some row'
  clockDates : L'.clockDates = L.clockDates
  created : ∀ e ∈ L'.created, e ∈ L.created ∨ ∃ d, L.writing = some d ∧ e.1 = d.toReservation
  writing : ∀ d, L'.writing = some d → L.writing = some d ∨
    ∃ row, L'.tables.updateState d.platformSessionId = some row ∧ d.date = row.date

theorem updateState_stays {t : UpdateTables J} (op : UpdateOp J) {row : UpdateStateRow}
    (h : t.updateState s = some row) : ∃ row', (t.apply op).1.updateState s = some row' := by
  rcases UpdateTables.updateState_apply (t := t) op s with hk | ⟨row', hs⟩
  · exact ⟨row, hk.kept.trans h⟩
  · exact ⟨row', hs.stored⟩

variable {o : LedgerWrite J}

theorem writeEffect (h : L.write o = some L') : WriteEffect L L' := by
  cases o with
  | begin k s n date c now =>
    simp only [write] at h
    split at h
    · cases h
    · have hstays := fun s' row (hrow : L.tables.updateState s' = some row) =>
        updateState_stays (.prepare k s n date c now (fun _ => true)) hrow
      cases hk : L.tables.deliveries.get k with
      | some e =>
        simp only [UpdateTables.beginPrepare, hk, Option.some.injEq] at h
        rw [← h]
        exact ⟨fun s' row hrow => ⟨row, hrow⟩, rfl, fun e he => Or.inl he, fun d hd => Or.inl hd⟩
      | none =>
        simp only [UpdateTables.beginPrepare, hk, Option.some.injEq] at h
        simp only [UpdateTables.apply_prepare_new hk] at hstays
        rw [← h]
        refine ⟨hstays, rfl, fun e he => Or.inl he, fun d hd => Or.inr ?_⟩
        obtain rfl : _ = d := Option.some.inj hd
        obtain ⟨row, hrow, hs, hdate⟩ := reserveDelivery_dated L.tables k s n date c now
        exact ⟨row, by rw [hs]; exact hrow, hdate⟩
  | create retained =>
    obtain ⟨d, hd, rfl⟩ := Option.map_eq_some_iff.1 h
    refine ⟨fun s row hrow => ⟨row, hrow⟩, rfl, fun e he => ?_, fun x hx => by cases hx⟩
    rcases mem_append.1 he with he | he
    · exact Or.inl he
    · rw [mem_singleton.1 he]
      exact Or.inr ⟨d, hd, rfl⟩
  | other op =>
    simp only [write] at h
    split at h
    · cases h
    · cases h
      exact ⟨fun s row hrow => updateState_stays op hrow, rfl, fun e he => Or.inl he, fun d hd => Or.inl hd⟩

/-- **A write that keeps the dates handed out.** -/
theorem noticeMoves_write (hL : L.WellFormed) (hdated : Dated s L)
    (hkeeps : KeepsReached s L L') (h : L.write o = some L') : NoticeMoves s L L' := by
  have heffect := writeEffect h
  -- what was dated by a row stays dated by the row in its place
  have carry : ∀ {x : Int}, (∃ row, L.tables.updateState s = some row ∧ x ≤ row.date) →
      ∃ row, L'.tables.updateState s = some row ∧ x ≤ row.date := by
    rintro x ⟨row, hrow, hx⟩
    obtain ⟨row', hrow'⟩ := heffect.rows s row hrow
    exact ⟨row', hrow', hkeeps row' hrow' x (Or.inl ⟨row, hrow, hx⟩)⟩
  refine ⟨write_moves hL h, ⟨fun e he hs => ?_, fun d hd hs => ?_, fun x hx row' hrow' => ?_⟩, fun x hx => ?_,
    fun e he _ => (heffect.created e he).imp id Or.inl, fun d hd hs => ?_⟩
  · rcases heffect.created e he with he | ⟨d, hd, hed⟩
    · exact carry (hdated.created e he hs)
    · rw [hed] at hs ⊢
      exact carry (hdated.writing d hd hs)
  · rcases heffect.writing d hd with hd | ⟨row, hrow, hdate⟩
    · exact carry (hdated.writing d hd hs)
    · exact ⟨row, hs ▸ hrow, le_of_eq hdate⟩
  · rw [heffect.clockDates] at hx
    refine hkeeps row' hrow' x ?_
    cases hrow : L.tables.updateState s with
    | none => exact Or.inr ⟨hrow, hx⟩
    | some row => exact Or.inl ⟨row, hrow, hdated.clock x hx row hrow⟩
  · cases hrow' : L'.tables.updateState s with
    | some row' => exact Or.inl ⟨row', hrow', hkeeps row' hrow' x hx⟩
    | none =>
      rcases hx with hrow | ⟨-, hclock⟩
      · obtain ⟨row', hrow'', -⟩ := carry hrow
        rw [hrow'] at hrow''
        cases hrow''
      · exact Or.inr ⟨hrow', heffect.clockDates ▸ hclock⟩
  · rcases heffect.writing d hd with hd | ⟨row, hrow, hdate⟩
    · exact Or.inl hd
    · rw [hs] at hrow
      exact Or.inr (fun x hx => hdate ▸ hkeeps row hrow x hx)

theorem keepsReached_of_row {row : UpdateStateRow}
    (hrow : L.tables.updateState s = some row) (hdate : ∀ op, o = .other op → L.tables.keepsDate op = true)
    (h : L.write o = some L') : KeepsReached s L L' := by
  have hreached : ∀ x, Reached s L x → x ≤ row.date := by
    rintro x (⟨row', hrow', hx⟩ | ⟨hnone, -⟩)
    · obtain rfl : row = row' := Option.some.inj (hrow.symm.trans hrow')
      exact hx
    · rw [hrow] at hnone
      cases hnone
  -- an account row a write stores, or leaves, is dated at or past the one it replaces
  have hkeep : ∀ op row', L.tables.keepsDate op = true → (L.tables.apply op).1.updateState s = some row' →
      row.date ≤ row'.date := by
    intro op row' hkeeps hrow'
    rcases UpdateTables.updateState_apply (t := L.tables) op s with hk | ⟨stored, hs⟩
    · obtain rfl : row = row' := Option.some.inj (hrow.symm.trans (hk.kept.symm.trans hrow'))
      exact le_refl _
    · obtain rfl : stored = row' := Option.some.inj (hs.stored.symm.trans hrow')
      exact (hs.date row hrow).2 hkeeps
  intro row' hrow' x hx
  refine le_trans (hreached x hx) ?_
  cases o with
  | begin k s' n date c now =>
    refine hkeep (.prepare k s' n date c now (fun _ => true)) row' rfl ?_
    simp only [write] at h
    split at h
    · cases h
    · cases hk : L.tables.deliveries.get k with
      | some e =>
        simp only [UpdateTables.beginPrepare, hk, Option.some.injEq] at h
        rw [← h] at hrow'
        rw [UpdateTables.apply_prepare_existing hk]
        exact hrow'
      | none =>
        simp only [UpdateTables.beginPrepare, hk, Option.some.injEq] at h
        rw [← h] at hrow'
        rw [UpdateTables.apply_prepare_new hk]
        exact hrow'
  | create retained =>
    obtain ⟨d, -, rfl⟩ := Option.map_eq_some_iff.1 h
    exact le_of_eq (congrArg UpdateStateRow.date (Option.some.inj (hrow.symm.trans hrow')))
  | other op =>
    simp only [write] at h
    split at h
    · cases h
    · cases h
      exact hkeep op row' (hdate op rfl) hrow'

theorem interference_noticeMoves (s : String) : Interference (NoticeMoves (J := J) s) where
  isRely := ⟨fun h h' => h.trans h', fun h => .refl h.moves.1 h.dated⟩
  moves h := h.moves
  called h he := noticeMoves_exec h.moves.1 h.dated he

/-! ## Rows under a step -/

theorem published_row_write (hL : L.WellFormed) (h : L.write o = some L')
    {d : UpdateDelivery J} (hd : d ∈ L.tables.deliveries.rows) (hp : d.payload.isSome) :
    (∃ d' ∈ L'.tables.deliveries.rows, d'.toReservation = d.toReservation ∧ d'.payload.isSome) ∨ Drops o d := by
  cases o with
  | begin k s n date c now =>
    simp only [write] at h
    split at h
    · cases h
    · cases hk : L.tables.deliveries.get k with
      | some e =>
        simp only [UpdateTables.beginPrepare, hk, Option.some.injEq] at h
        rw [← h]
        refine Or.inl ⟨_, (UpdateLog.mem_claim L.tables.deliveries).2 ⟨d, hd, rfl⟩, ?_⟩
        split <;> exact ⟨rfl, hp⟩
      | none =>
        simp only [UpdateTables.beginPrepare, hk, Option.some.injEq] at h
        rw [← h]
        refine Or.inl ⟨d, ?_, rfl, hp⟩
        simp only [afterBegin, UpdateTables.reserveDelivery_deliveries]
        exact hd
  | create retained =>
    obtain ⟨x, hx, rfl⟩ := Option.map_eq_some_iff.1 h
    obtain ⟨-, hkey, -⟩ := hL.inFlight x hx
    by_cases hr : retained d = true
    · refine Or.inl ⟨d, ?_, rfl, hp⟩
      simp only [afterCreate, UpdateTables.finishPrepare, UpdateLog.create_of_get_none _ hkey]
      exact (UpdateLog.mem_prune _).2 ⟨(UpdateLog.mem_append _).2 (Or.inl hd), hr⟩
    · exact Or.inr (Bool.eq_false_iff.2 hr)
  | other op =>
    simp only [write] at h
    split at h
    · cases h
    · rename_i hfree
      cases h
      have hc : L.tables.created op = none := by
        cases op with
        | prepare k s n date c now retained => simp [UpdateOp.isPrepare] at hfree
        | _ => rfl
      rcases UpdateTables.row_fate hc hd hp with ⟨d', hd', hres, -, hp'⟩ | ⟨retained, rfl, hr⟩
      · exact Or.inl ⟨d', hd', hres, hp'⟩
      · exact Or.inr hr

theorem published_row_exec
    (h : exec e ms L = some (L', a)) {d : UpdateDelivery J} (hd : d ∈ L.tables.deliveries.rows) (hp : d.payload.isSome) :
    ∃ d' ∈ L'.tables.deliveries.rows, d'.toReservation = d.toReservation ∧ d'.payload.isSome := by
  cases e with
  | discardAbandonedUpdateDelivery k =>
    simp only [exec] at h
    split at h
    · cases h
    · cases h
      have hc : L.tables.created (.discard k true (ms / 1000)) = none := rfl
      rcases UpdateTables.row_fate hc hd hp with ⟨d', hd', hres, -, hp'⟩ | ⟨retained, hop, -⟩
      · exact ⟨d', hd', hres, hp'⟩
      · cases hop
  | markUpdatePublished k =>
    simp only [exec] at h
    split at h
    · cases h
    · cases h
      have hc : L.tables.created (.markPublished k) = none := rfl
      rcases UpdateTables.row_fate hc hd hp with ⟨d', hd', hres, -, hp'⟩ | ⟨retained, hop, -⟩
      · exact ⟨d', hd', hres, hp'⟩
      · cases hop
  | _ =>
    simp only [exec, Option.some.injEq] at h
    cases h
    exact ⟨d, hd, rfl, hp⟩

theorem written_row_write (h : L.write o = some L') {x : Nat × J} (hx : x ∈ L'.written) :
    x ∈ L.written ∨ ∃ d ∈ L'.tables.deliveries.rows, d.messageId = x.1 ∧ d.payload.isSome := by
  cases o with
  | begin k s n date c now =>
    simp only [write] at h
    split at h
    · cases h
    · split at h <;> cases h <;> exact Or.inl hx
  | create retained =>
    obtain ⟨y, -, rfl⟩ := Option.map_eq_some_iff.1 h
    exact Or.inl hx
  | other op =>
    simp only [write] at h
    split at h
    · cases h
    · cases h
      refine (mem_append.1 hx).imp id (fun hx => ?_)
      cases op with
      | setPayload k p =>
        obtain ⟨d, hd, rfl⟩ := List.mem_map.1 hx
        obtain ⟨hmem, hkey⟩ := UpdateLog.mem_of_get (Option.mem_toList.1 hd)
        refine ⟨{ d with payload := some p }, ?_, rfl, rfl⟩
        exact (UpdateLog.mem_setPayload _).2 ⟨d, hmem, by rw [if_pos hkey]⟩
      | _ => cases hx

/-! ## What is announced -/

section Announcing

variable {client : Nat} {s : String} {finished : List (Finished (Ledger J) ReadRequest (ReadResponse J T D) UpdateRead
  (UpdateRead.Answer J))}

variable {channelId : Nat}

theorem Announced.mono {pts : Int} (h : Announced client finished channelId pts)
    (added : List (Finished (Ledger J) ReadRequest (ReadResponse J T D) UpdateRead (UpdateRead.Answer J))) :
    Announced client (finished ++ added) channelId pts := by
  obtain ⟨f, hf, hrest⟩ := h
  exact ⟨f, mem_append_left _ hf, hrest⟩

theorem Announced.le {pts pts' : Int} (h : Announced client finished channelId pts') (hle : pts ≤ pts') :
    Announced client finished channelId pts := by
  obtain ⟨f, hf, hclient, response, hresponse, p, hp, hu⟩ := h
  exact ⟨f, hf, hclient, response, hresponse, p, le_trans hle hp, hu⟩

def Tracked (client : Nat) (finished : List (Finished (Ledger J) ReadRequest (ReadResponse J T D) UpdateRead
    (UpdateRead.Answer J))) (s : String) (L : Ledger J) : Prop :=
  ∀ e ∈ L.created, ∀ channelId, CountsIn s channelId e.1 → (∃ json, (e.2, json) ∈ L.written) →
    Announced client finished channelId e.1.pts ∨ ∃ d ∈ L.tables.deliveries.rows, Covers s channelId e.1.pts e.1.date d

/-- The date `date` is safe to hold: it was handed out, and every channel delivery behind it was announced, or will never
be published. -/
structure Passed (client : Nat) (finished : List (Finished (Ledger J) ReadRequest (ReadResponse J T D) UpdateRead
    (UpdateRead.Answer J))) (s : String) (date : Int) (L : Ledger J) : Prop where
  reached : Reached s L date
  created : ∀ e ∈ L.created, ∀ channelId, CountsIn s channelId e.1 → e.1.date < date →
    Announced client finished channelId e.1.pts ∨ (L.Gone e.2 ∧ ∀ json, (e.2, json) ∉ L.written)
  inFlight : ∀ d, L.writing = some d → ∀ channelId, CountsIn s channelId d.toReservation → date ≤ d.date

variable {L : Ledger J}

theorem Tracked.mono (h : Tracked client finished s L)
    (added : List (Finished (Ledger J) ReadRequest (ReadResponse J T D) UpdateRead (UpdateRead.Answer J))) :
    Tracked client (finished ++ added) s L :=
  fun e he channelId hcounts hwritten => (h e he channelId hcounts hwritten).imp (fun ha => ha.mono added) id

variable {date : Int}

theorem Passed.mono (h : Passed client finished s date L)
    (added : List (Finished (Ledger J) ReadRequest (ReadResponse J T D) UpdateRead (UpdateRead.Answer J))) :
    Passed client (finished ++ added) s date L :=
  { h with created := fun e he channelId hcounts hlt =>
      (h.created e he channelId hcounts hlt).imp (fun ha => ha.mono added) id }

variable {L L' : Ledger J}

/-- **A date that is passed stays passed**: what is reserved later is dated at or past it. -/
theorem Passed.move (h : Passed client finished s date L) (hmove : NoticeMoves s L L') :
    Passed client finished s date L' := by
  refine ⟨hmove.reached date h.reached, fun e he channelId hcounts hlt => ?_, fun d hd channelId hcounts => ?_⟩
  · rcases hmove.newCreated e he hcounts.session with hold | ⟨d, hd, hed⟩ | hpast
    · refine (h.created e hold channelId hcounts hlt).imp id (fun ⟨hgone, hnever⟩ => ?_)
      refine ⟨hmove.moves.2.gone _ hgone, fun json hjson => ?_⟩
      rcases hmove.moves.2.newWritten _ hjson with hold | hrow
      · exact hnever json hold
      · exact hrow hgone
    · rw [hed] at hcounts hlt
      have := h.inFlight d hd channelId hcounts
      omega
    · have := hpast date h.reached
      omega
  · rcases hmove.newWriting d hd hcounts.session with hd | hpast
    · exact h.inFlight d hd channelId hcounts
    · exact hpast date h.reached

theorem Covers.of_same {pts date : Int} {d d' : UpdateDelivery J} (h : Covers s channelId pts date d)
    (hres : d'.toReservation = d.toReservation) (hp : d'.payload.isSome) : Covers s channelId pts date d' :=
  ⟨hres ▸ h.countsIn, hp, by rw [show d'.pts = d.pts from congrArg Reservation.pts hres]; exact h.pts,
    by rw [show d'.date = d.date from congrArg Reservation.date hres]; exact h.date⟩

/-- **A write keeps what is tracked**, when retention keeps the newest row of a channel. -/
theorem tracked_write {o : LedgerWrite J} (hL : L.WellFormed)
    (h : Tracked client finished s L) (hpassed : Passed client finished s date L) (hmoves : Moves L L')
    (hnewest : KeepsNewest s date o L L') (ho : L.write o = some L') : Tracked client finished s L' := by
  intro e he channelId hcounts ⟨json, hjson⟩
  have hown : ∀ d ∈ L'.tables.deliveries.rows, d.messageId = e.2 → d.payload.isSome →
      Covers s channelId e.1.pts e.1.date d := fun d hd hid hp => by
    have hres : d.toReservation = e.1 :=
      congrArg Prod.fst (hmoves.1.created_eq (hmoves.1.rowsCreated _ (entry_mem hd)) he hid)
    exact ⟨hres ▸ hcounts, hp, le_of_eq (congrArg Reservation.pts hres.symm),
      le_of_eq (congrArg Reservation.date hres.symm)⟩
  rcases written_row_write ho hjson with hold | ⟨d, hd, hid, hp⟩
  · -- published before: what covered it stands, unless retention dropped it
    have hcreated : e ∈ L.created := by
      rcases hmoves.2.newCreated e he with hc | ⟨hfresh, -⟩
      · exact hc
      · exact absurd (hL.writtenSpent _ hold) (Nat.not_lt.2 hfresh)
    rcases h e hcreated channelId hcounts ⟨json, hold⟩ with ha | ⟨d, hd, hcovers⟩
    · exact Or.inl ha
    · rcases published_row_write hL ho hd hcovers.published with ⟨d', hd', hres, hp'⟩ | hdrops
      · exact Or.inr ⟨d', hd', hcovers.of_same hres hp'⟩
      · rcases hnewest d hd hdrops channelId ⟨hcovers.countsIn, hcovers.published, le_refl _, le_refl _⟩ with
          hbehind | ⟨d', hd', hcovers'⟩
        · rcases hpassed.created _ (hL.rowsCreated _ (entry_mem hd)) channelId hcovers.countsIn hbehind with
            ha | ⟨hgone, -⟩
          · exact Or.inl (ha.le hcovers.pts)
          · exact absurd rfl (hgone.2 _ (entry_mem hd))
        · exact Or.inr ⟨d', hd', ⟨hcovers'.countsIn, hcovers'.published, le_trans hcovers.pts hcovers'.pts,
            le_trans hcovers.date hcovers'.date⟩⟩
  · exact Or.inr ⟨d, hd, hown d hd hid hp⟩

theorem tracked_exec {e : UpdateRead} {ms : Int} {a : e.Answer J} (h : Tracked client finished s L)
    (he : exec e ms L = some (L', a)) : Tracked client finished s L' := by
  obtain ⟨hcreated, -, hwritten⟩ := exec_keeps he
  intro x hx channelId hcounts hpublished
  rw [hcreated] at hx
  rw [hwritten] at hpublished
  refine (h x hx channelId hcounts hpublished).imp id (fun ⟨d, hd, hcovers⟩ => ?_)
  obtain ⟨d', hd', hres, hp'⟩ := published_row_exec he hd hcovers.published
  exact ⟨d', hd', hcovers.of_same hres hp'⟩

/-! ## What a call announces -/

theorem setChangedChannel_covers (changed : List (Nat × Int)) (scope : ChannelScopeUpdate) :
    (∀ channelId, scope.scope = .channel channelId → ∃ x ∈ setChangedChannel changed scope, x.1 = channelId ∧
      scope.pts ≤ x.2) ∧
    ∀ x ∈ changed, ∃ x' ∈ setChangedChannel changed scope, x'.1 = x.1 ∧ x.2 ≤ x'.2 := by
  unfold setChangedChannel
  cases hscope : scope.scope with
  | account => exact ⟨fun channelId h => (by cases h), fun x hx => ⟨x, hx, rfl, le_refl _⟩⟩
  | channel c =>
    simp only [channelScopeId]
    split
    · rename_i hany
      obtain ⟨y, hy, hyc⟩ := any_eq_true.1 hany
      have hyc : y.1 = c := by simpa using hyc
      refine ⟨fun channelId h => ?_, fun x hx => ?_⟩
      · obtain rfl : c = channelId := UpdateScope.channel.inj h
        refine ⟨_, List.mem_map.2 ⟨y, hy, rfl⟩, ?_⟩
        rw [if_pos hyc]
        exact ⟨rfl, le_max_right _ _⟩
      · refine ⟨_, List.mem_map.2 ⟨x, hx, rfl⟩, ?_⟩
        split
        · rename_i hxc
          exact ⟨hxc.symm, le_max_left _ _⟩
        · exact ⟨rfl, le_refl _⟩
    · refine ⟨fun channelId h => ?_, fun x hx => ⟨x, mem_append_left _ hx, rfl, le_refl _⟩⟩
      obtain rfl : c = channelId := UpdateScope.channel.inj h
      exact ⟨_, mem_append_right _ (mem_singleton_self _), rfl, le_max_right _ _⟩

theorem foldl_setChangedChannel_covers : ∀ (scopes : List ChannelScopeUpdate) (changed : List (Nat × Int)),
    (∀ x ∈ changed, ∃ x' ∈ scopes.foldl setChangedChannel changed, x'.1 = x.1 ∧ x.2 ≤ x'.2) ∧
    ∀ scope ∈ scopes, ∀ channelId, scope.scope = .channel channelId →
      ∃ x ∈ scopes.foldl setChangedChannel changed, x.1 = channelId ∧ scope.pts ≤ x.2
  | [],              changed => ⟨fun x hx => ⟨x, hx, rfl, le_refl _⟩, fun scope h => by cases h⟩
  | scope :: scopes, changed => by
    obtain ⟨hnew, hold⟩ := setChangedChannel_covers changed scope
    obtain ⟨ih₁, ih₂⟩ := foldl_setChangedChannel_covers scopes (setChangedChannel changed scope)
    have carry : ∀ x ∈ setChangedChannel changed scope, ∃ x' ∈ (scope :: scopes).foldl setChangedChannel changed,
        x'.1 = x.1 ∧ x.2 ≤ x'.2 := ih₁
    refine ⟨fun x hx => ?_, fun scope' hscope' channelId hc => ?_⟩
    · obtain ⟨x', hx', hid, hle⟩ := hold x hx
      obtain ⟨x'', hx'', hid', hle'⟩ := carry x' hx'
      exact ⟨x'', hx'', hid'.trans hid, le_trans hle hle'⟩
    · rcases List.mem_cons.1 hscope' with rfl | hscope'
      · obtain ⟨x, hx, hid, hle⟩ := hnew channelId hc
        obtain ⟨x', hx', hid', hle'⟩ := carry x hx
        exact ⟨x', hx', hid'.trans hid, le_trans hle hle'⟩
      · exact ih₂ scope' hscope' channelId hc

theorem tooLong_of_scope {scopes : List ChannelScopeUpdate} {scope : ChannelScopeUpdate} (h : scope ∈ scopes)
    (hc : scope.scope = .channel channelId) :
    ∃ pts, scope.pts ≤ pts ∧ (.updateChannelTooLong channelId pts : TlUpdate T) ∈ tooLongUpdates scopes := by
  obtain ⟨x, hx, rfl, hle⟩ := (foldl_setChangedChannel_covers scopes []).2 scope h channelId hc
  exact ⟨x.2, hle, List.mem_map.2 ⟨x, hx, rfl⟩⟩

variable {request : GetDifferenceRequest} {response : Difference T} {c : DifferenceCall J} {codec : TlCodec J T}

theorem answers_spec (h : c.Answers codec request response) :
    (∀ u ∈ tooLongUpdates c.scopes, u ∈ response.otherUpdates) ∧
    ∀ given : Given, (given.next response).date = handedDate request c.state c.deliveries := by
  rcases h with ⟨hempty, hscopes, -, rfl⟩ | ⟨content, rfl, -, htoolong⟩
  · refine ⟨fun u hu => ?_, fun given => ?_⟩
    · rw [hscopes] at hu
      cases hu
    · rw [hempty]
      rfl
  · unfold handedDate
    by_cases hcut : (c.page request).length < c.deliveries.length
    · obtain ⟨state, hcutoff, -, hdate⟩ := differenceOf_cut request c.state hcut content
      rw [hcutoff]
      refine ⟨htoolong, fun given => ?_⟩
      rw [if_pos (show (pageOf request.limit c.deliveries).length < c.deliveries.length from hcut)]
      exact hdate
    · rw [differenceOf_whole hcut]
      refine ⟨htoolong, fun given => ?_⟩
      rw [if_neg (show ¬ (pageOf request.limit c.deliveries).length < c.deliveries.length from hcut)]
      rfl

variable {h : Calls J}

/-- **A row a call reads among the changed channels is announced by its answer.** -/
theorem announced_of_covers (hc : SawDifference (NoticeMoves s) codec s request h response L c)
    {d : UpdateDelivery J} (hd : d ∈ c.atScopes.tables.deliveries.rows) {pts date : Int}
    (hcovers : Covers s channelId pts date d) (hdate : request.date ≤ date)
    {f : Finished (Ledger J) ReadRequest (ReadResponse J T D) UpdateRead (UpdateRead.Answer J)}
    (hclient : f.thread = client) (hresponse : f.response = .difference response) :
    Announced client (finished ++ [f]) channelId pts := by
  have hannounces : UpdateLog.announces s request.date d = true := by
    simp only [UpdateLog.announces, decide_eq_true_eq]
    exact ⟨hcovers.countsIn.session, le_trans hdate hcovers.date, hcovers.countsIn.counts, hcovers.published, by
      rw [show d.scope = .channel channelId from hcovers.countsIn.scope]; rfl⟩
  obtain ⟨scope, hscope, hsame, hle⟩ := UpdateLog.getChangedChannelScopes_covers _ hd hannounces
  rw [← hc.scopes] at hscope
  obtain ⟨pts', hpts', htoolong⟩ := tooLong_of_scope (T := T) hscope (hsame.trans hcovers.countsIn.scope)
  have := hcovers.pts
  exact ⟨f, mem_append_right _ (mem_singleton_self _), hclient, response, hresponse, pts', by omega,
    (answers_spec hc.answers).1 _ htoolong⟩

theorem handedDate_reached (hc : SawDifference (NoticeMoves s) codec s request h response L c)
    (hlast : ∀ last ∈ (pageOf request.limit c.deliveries).getLast?, last.platformSessionId = s) :
    handedDate request c.state c.deliveries = request.date ∨
      Reached s c.atScopes (handedDate request c.state c.deliveries) := by
  unfold handedDate
  split
  · cases hpage : (pageOf request.limit c.deliveries).getLast? with
    | none => exact Or.inl rfl
    | some last =>
      right
      obtain ⟨hmem, -⟩ := mem_pageOf (mem_of_getLast? hpage)
      exact Or.inl (hc.rows.moved.dated.created _ (hc.rows.kept.2 last hmem).1 (hlast last hpage))
  · right
    refine hc.rows.moved.reached _ ?_
    rw [hc.state]
    cases hrow : c.atState.tables.updateState s with
    | some row =>
      refine hc.stateMoved.reached _ (Or.inl ⟨row, hrow, ?_⟩)
      simp [UpdateTables.getUpdateState, hrow]
    | none =>
      have hclock := hc.clocked hrow
      simp only [UpdateTables.getUpdateState, hrow, Option.getD_none]
      cases hrow' : c.atWindow.tables.updateState s with
      | none => exact Or.inr ⟨hrow', hclock⟩
      | some row => exact Or.inl ⟨row, hrow', hc.stateMoved.dated.clock _ hclock row hrow'⟩

/-- **The date an answer hands out is passed once it is received.** -/
theorem passed_of_answer (hc : SawDifference (NoticeMoves s) codec s request h response L c)
    (hpassed : Passed client finished s request.date L) (htracked : Tracked client finished s c.atScopes)
    (hlast : ∀ last ∈ (pageOf request.limit c.deliveries).getLast?, last.platformSessionId = s)
    (hnone : NoneIncomplete s (handedDate request c.state c.deliveries) c.atScopes)
    {f : Finished (Ledger J) ReadRequest (ReadResponse J T D) UpdateRead (UpdateRead.Answer J)}
    (hclient : f.thread = client) (hresponse : f.response = .difference response) :
    Passed client (finished ++ [f]) s (handedDate request c.state c.deliveries) L := by
  have hreached := handedDate_reached hc hlast
  generalize handedDate request c.state c.deliveries = date at hnone hreached
  have hpassed' := hpassed.mono [f]
  refine ⟨?_, fun e he channelId hcounts hlt => ?_, fun d hd channelId hcounts => ?_⟩
  · rcases hreached with heq | hreached
    · exact heq ▸ hpassed.reached
    · exact hc.scopesMoved.reached _ hreached
  · by_cases hbehind : e.1.date < request.date
    · exact hpassed'.created e he channelId hcounts hbehind
    have hreached : Reached s c.atScopes date := hreached.resolve_left (by omega)
    rcases hc.scopesMoved.newCreated e he hcounts.session with hold | ⟨d, hd, hed⟩ | hpast
    · by_cases hrow : ∃ d ∈ c.atScopes.tables.deliveries.rows, d.messageId = e.2
      · -- its row was there when the changed scopes were read
        obtain ⟨d, hd, hid⟩ := hrow
        have hwf := hc.rows.moved.moves.1
        have hres : d.toReservation = e.1 :=
          congrArg Prod.fst (hwf.created_eq (hwf.rowsCreated _ (entry_mem hd)) hold hid)
        have hdate : d.date = e.1.date := congrArg Reservation.date hres
        cases hp : d.payload with
        | none =>
          have := hnone.rows d hd channelId (hres ▸ hcounts) hp
          omega
        | some p =>
          have hcovers : Covers s channelId e.1.pts e.1.date d := ⟨hres ▸ hcounts, by rw [hp]; rfl,
            le_of_eq (congrArg Reservation.pts hres.symm), le_of_eq hdate.symm⟩
          exact Or.inl (announced_of_covers hc hd hcovers (by omega) hclient hresponse)
      · push Not at hrow
        have hgone : c.atScopes.Gone e.2 := by
          refine ⟨hc.rows.moved.moves.1.idsSpent e hold, fun x hx hid => ?_⟩
          obtain ⟨d, hd, rfl⟩ := List.mem_map.1 hx
          exact hrow d hd hid
        by_cases hwritten : ∃ json, (e.2, json) ∈ L.written
        · obtain ⟨json, hjson⟩ := hwritten
          have hjson : (e.2, json) ∈ c.atScopes.written :=
            (hc.scopesMoved.moves.2.newWritten _ hjson).resolve_right (fun hno => hno hgone)
          rcases htracked e hold channelId hcounts ⟨json, hjson⟩ with ha | ⟨d, hd, hcovers⟩
          · exact Or.inl (ha.mono [f])
          · exact Or.inl (announced_of_covers hc hd hcovers (by omega) hclient hresponse)
        · push Not at hwritten
          exact Or.inr ⟨hc.scopesMoved.moves.2.gone _ hgone, hwritten⟩
    · rw [hed] at hcounts hlt
      have := hnone.inFlight d hd channelId hcounts
      omega
    · have := hpast date hreached
      omega
  · rcases hreached with heq | hreached
    · exact heq ▸ hpassed.inFlight d hd channelId hcounts
    · rcases hc.scopesMoved.newWriting d hd hcounts.session with hd | hpast
      · exact hnone.inFlight d hd channelId hcounts
      · exact hpast date hreached

end Announcing

/-! ## Every run -/

/-- What holds of a client in every world: the date it holds is passed, what it has not been told of still stands, and
its call, if it is in one, passes that date back and has found it so at every step. -/
structure Noticed (client : Nat) (s : String) (given : Given) (w : UpdateWorld J T D) : Prop where
  passed : Passed client w.finished s (holds client given w.finished).date w.shared
  tracked : Tracked client w.finished s w.shared
  calls : ∀ th, w.threads client = some th → ∃ request, th.request = .difference s request ∧
    request.date = (holds client given w.finished).date ∧ ∀ r ∈ th.history, Tracked client w.finished s r.before

/-- **One step keeps the client noticed.** -/
theorem noticed_step (codec : TlCodec J T) (buildTooLong : Nat → Int → Option D) {client : Nat}
    {given : Given} {w w' : UpdateWorld J T D} {a : UpdateAction J} (hok : NoticeSafe client s given w a)
    (hstep : (updateSystem codec buildTooLong).step w a = some w') (hstay : NoticeMoves s w.shared w.shared)
    (hsaw : ∀ f ∈ w'.finished, Saw (NoticeMoves s) codec buildTooLong f.request f.history f.response w'.shared)
    (h : Noticed client s given w) : Noticed client s given w' := by
  rcases System.step_cases hstep with ⟨o, L', rfl, ho, rfl⟩ | ⟨i, q, rfl, hi, rfl⟩ |
    ⟨i, x, q, e, next, hist, L', ans, rfl, hi, he, rfl⟩ | ⟨i, q, r, hist, rfl, hi, rfl⟩
  · -- a write from outside
    have ho : w.shared.write o = some L' := ho
    obtain ⟨hkeeps, hnewest⟩ := hok L' ho
    have hmove := noticeMoves_write hstay.moves.1 hstay.dated hkeeps ho
    exact ⟨h.passed.move hmove, tracked_write hstay.moves.1 h.tracked h.passed hmove.moves hnewest ho, h.calls⟩
  · -- a call is started
    refine ⟨h.passed, h.tracked, fun th hth => ?_⟩
    by_cases hic : i = client
    · subst hic
      simp only [update_self, Option.some.injEq] at hth
      subst hth
      obtain ⟨request, hq, -, hdate⟩ := hok rfl
      exact ⟨request, hq, hdate, fun r hr => absurd hr List.not_mem_nil⟩
    · simp only [update_of_ne (Ne.symm hic)] at hth
      exact h.calls th hth
  · -- a thread reads
    have he : exec e x w.shared = some (L', ans) := he
    have hmove := noticeMoves_exec hstay.moves.1 hstay.dated he
    refine ⟨h.passed.move hmove, tracked_exec h.tracked he, fun th hth => ?_⟩
    by_cases hic : i = client
    · subst hic
      simp only [update_self, Option.some.injEq] at hth
      subst hth
      obtain ⟨request, hq, hdate, hhist⟩ := h.calls _ hi
      refine ⟨request, hq, hdate, fun r hr => ?_⟩
      rcases mem_append.1 hr with hr | hr
      · exact hhist r hr
      · rw [mem_singleton.1 hr]
        exact h.tracked
    · simp only [update_of_ne (Ne.symm hic)] at hth
      exact h.calls th hth
  · -- a thread answers
    have hholds : holds client given (w.finished ++ [⟨i, q, hist, r⟩]) =
        (holds client given w.finished).hear client ⟨i, q, hist, r⟩ := foldl_append
    by_cases hic : i = client
    · subst hic
      obtain ⟨request, hq, hdate, hhist⟩ := h.calls _ hi
      obtain rfl : q = .difference s request := hq
      obtain ⟨response, c, hr, hc⟩ := hsaw ⟨i, .difference s request, hist, r⟩
        (mem_append_right _ (mem_singleton_self _))
      obtain rfl : r = .difference response := hr
      have hscopes : (c.atScopes, c.scopes) ∈ hist.filterMap scopesRead := by
        rw [hc.seen.scopes]
        exact mem_singleton_self _
      obtain ⟨hlast, hnone⟩ := hok rfl _ hi request rfl (c.atState, c.state)
        (by rw [hc.seen.states]; exact mem_singleton_self _) _ (by rw [hc.rows.reads.rowsRead_eq]; rfl) _ hscopes
      have htracked : Tracked i w.finished s c.atScopes := by
        obtain ⟨read, hread, hsame⟩ := mem_filterMap.1 hscopes
        have hat : read.before = c.atScopes := by
          obtain ⟨e, L, ans⟩ := read
          cases e with
          | getChangedChannelScopes s' date => exact congrArg Prod.fst (Option.some.inj hsame)
          | _ => cases hsame
        exact hat ▸ hhist read hread
      refine ⟨?_, h.tracked.mono _, fun th hth => ?_⟩
      · have hgiven : (holds i given (w.finished ++ [⟨i, .difference s request, hist, .difference response⟩])).date =
            handedDate request c.state c.deliveries := by
          rw [hholds, ← (answers_spec hc.answers).2 (holds i given w.finished)]
          simp only [Given.hear, if_true]
        rw [hgiven]
        exact passed_of_answer hc (hdate ▸ h.passed) htracked hlast hnone rfl rfl
      · simp only [update_self] at hth
        cases hth
    · have hsame : holds client given (w.finished ++ [⟨i, q, hist, r⟩]) = holds client given w.finished := by
        rw [hholds]
        cases r with
        | difference response => simp only [Given.hear, if_neg hic]
        | channelDifference response => rfl
      refine ⟨?_, h.tracked.mono _, fun th hth => ?_⟩
      · rw [hsame]
        exact h.passed.mono _
      · simp only [update_of_ne (Ne.symm hic)] at hth
        obtain ⟨request, hq, hdate, hhist⟩ := h.calls th hth
        exact ⟨request, hq, by rw [hsame]; exact hdate, fun r hr => (hhist r hr).mono _⟩

theorem noticed_of_reachable (codec : TlCodec J T) (buildTooLong : Nat → Int → Option D) {client : Nat}
    {given : Given} {L₀ : Ledger J} (hL₀ : NoticeMoves s L₀ L₀) (hcreated : L₀.created = []) (hwriting : L₀.writing = none)
    (hgiven : Reached s L₀ given.date) {w : UpdateWorld J T D}
    (h : Runs.Reachable (updateSystem codec buildTooLong).step (NoticeSafe client s given) (System.idle L₀) w) :
    Noticed client s given w := by
  have hsafe := fun {w : UpdateWorld J T D} (h : Runs.Reachable (updateSystem codec buildTooLong).step
      (NoticeSafe client s given) (System.idle L₀) w) =>
    saw_of_reachable (interference_noticeMoves s) codec buildTooLong hL₀
      (fun w o L hok hstay ho => noticeMoves_write hstay.moves.1 hstay.dated (hok L ho).1 ho) h
  have hnone : ∀ e ∈ (System.idle L₀ : UpdateWorld J T D).shared.created, False := fun e he => by
    rw [show (System.idle L₀ : UpdateWorld J T D).shared.created = [] from hcreated] at he
    cases he
  refine h.invariant ⟨⟨hgiven, fun e he => (hnone e he).elim, fun d hd => ?_⟩, fun e he => (hnone e he).elim,
    fun th hth => (by cases hth)⟩ ?_
  · rw [show (System.idle L₀ : UpdateWorld J T D).shared.writing = none from hwriting] at hd
    cases hd
  · intro w a w' hreach hw hok hstep
    exact noticed_step codec buildTooLong hok hstep (hsafe hreach).1 (hsafe (hreach.tail hok hstep)).2 hw

/-- **No channel update goes unnoticed**, in any run of publishers and readers that is `NoticeSafe` for the client. -/
theorem channel_updates_noticed (codec : TlCodec J T) (buildTooLong : Nat → Int → Option D) (client : Nat) (s : String)
    {t : UpdateTables J} (ht : t.deliveries.rows = []) {ms : Int} {L₀ : Ledger J} {state : UpdateStateRow}
    (hstate : exec (.getUpdateState s) ms (start t) = some (L₀, state)) {w : UpdateWorld J T D}
    (h : Runs.Reachable (updateSystem codec buildTooLong).step (NoticeSafe client s ⟨state.pts, state.date⟩)
      (System.idle L₀) w) : NoneUnnoticed client s ⟨state.pts, state.date⟩ w := by
  obtain ⟨hcreated, hwriting, -⟩ := exec_keeps hstate
  have hdated : Dated s (start t) := ⟨fun e he => absurd he List.not_mem_nil, fun d hd => (by cases hd),
    fun x hx => absurd hx List.not_mem_nil⟩
  have hL₀ := (interference_noticeMoves s).isRely.stay (noticeMoves_exec (wellFormed_start t ht) hdated hstate)
  obtain ⟨htables, hread, hclock⟩ := exec_getUpdateState hstate
  have hgiven : Reached s L₀ state.date := by
    unfold Reached
    rw [htables, hread]
    cases hrow : (start t).tables.updateState s with
    | some row => exact Or.inl ⟨row, rfl, by simp [UpdateTables.getUpdateState, hrow]⟩
    | none => exact Or.inr ⟨rfl, by simpa [UpdateTables.getUpdateState, hrow] using hclock hrow⟩
  have hnoticed := noticed_of_reachable codec buildTooLong hL₀ hcreated hwriting hgiven h
  intro e he channelId hcounts hpublished hlt
  refine (hnoticed.passed.created e he channelId hcounts hlt).resolve_right (fun hnever => ?_)
  obtain ⟨json, hjson⟩ := hpublished
  exact hnever.2 json hjson

theorem channel_update_of_one_call : ∃ w : UpdateWorld (RawUpdates Nat) Nat (Nat × Int),
    (∃ e ∈ w.shared.created, CountsIn "session" 7 e.1 ∧ (∃ json, (e.2, json) ∈ w.shared.written) ∧
      e.1.date < (holds 0 ⟨1, 1800000000⟩ w.finished).date) ∧ NoneUnnoticed 0 "session" ⟨1, 1800000000⟩ w := by
  let tables : UpdateTables (RawUpdates Nat) :=
    .ofCounters (fun _ => some { pts := 1, qts := 0, seq := 0, date := 1800000000 }) (fun _ _ => none) 1
  let request : GetDifferenceRequest := { pts := 1, date := 1800000000 }
  let channelMessage : RawUpdates Nat := ⟨[.updateNewChannelMessage 16 2 1], [], [7], 1800000001, 1⟩
  obtain ⟨w₁, w₂, w₃, w, hwrites, hstart, hreads, hfinish, hnone, ⟨th, L, hth, hasked, hrows, hscopes, hclean, hidle⟩, e, he, hplace, hdate, hwritten, hheld⟩ :
      ∃ w₁ w₂ w₃ w, Runs.run plainSystem.step (System.idle (start tables))
        [.write (.begin "channel message" "session" 1 1800000001 (some 7) 1800000001), .write (.create (fun _ => true)),
          .write (.other (.setPayload "channel message" channelMessage)),
          .write (.other (.advanceUpdateState "session" 0 1800000002))] = some w₁ ∧
        plainSystem.step w₁ (.start 0 (.difference "session" request)) = some w₂ ∧
        Runs.run plainSystem.step w₂ [.perform 0 1800000003000, .perform 0 1800000003000, .perform 0 1800000003000,
          .perform 0 1800000003000] = some w₃ ∧
        plainSystem.step w₃ (.finish 0) = some w ∧ w₁.finished = [] ∧
        (∃ th L, w₃.threads 0 = some th ∧ th.request = .difference "session" request ∧
          (rowsRead none th.history).map (fun read => read.2.2) = some [] ∧
          (th.history.filterMap scopesRead).map Prod.fst = [L] ∧
          L.tables.deliveries.rows.all (fun d => d.payload.isSome) = true ∧ L.writing = none) ∧
        ∃ e ∈ w.shared.created, (e.1.platformSessionId = "session" ∧ e.1.scope = .channel 7 ∧ e.1.ptsCount = 1) ∧
          e.1.date = 1800000001 ∧ (e.2, channelMessage) ∈ w.shared.written ∧
          (holds 0 ⟨1, 1800000000⟩ w.finished).date = 1800000002 :=
    ⟨_, _, _, _, rfl, rfl, rfl, rfl, rfl, ⟨_, _, rfl, rfl, rfl, rfl, rfl, rfl⟩, _, mem_cons_self, ⟨rfl, rfl, rfl⟩,
      rfl, mem_cons_self, rfl⟩
  have hreached₁ : Runs.Reachable plainSystem.step (NoticeSafe 0 "session" ⟨1, 1800000000⟩)
      (System.idle (start tables)) w₁ := by
    refine Runs.reachable_of_run_within (I := fun w => ∃ row, w.shared.tables.updateState "session" = some row)
      (fun w ⟨row, hrow⟩ a ha => ?_) (fun w ⟨row, hrow⟩ a ha w' hw' => ?_) ⟨_, rfl⟩ .init hwrites
    · have hwrite : ∃ o, a = .write o ∧ (∀ op, o = .other op → w.shared.tables.keepsDate op = true) ∧
          ∀ d, ¬ Drops o d := by
        simp only [List.mem_cons, List.not_mem_nil, or_false] at ha
        rcases ha with rfl | rfl | rfl | rfl
        all_goals refine ⟨_, rfl, fun op hop => ?_, fun d hd => ?_⟩
        all_goals first | (cases hop; rfl) | cases hop | cases hd
      obtain ⟨o, rfl, hkeeps, hdrops⟩ := hwrite
      exact fun L' hL' => ⟨keepsReached_of_row hrow hkeeps hL', fun d _ hd => absurd hd (hdrops d)⟩
    · rcases System.step_cases hw' with ⟨o, L', rfl, ho, rfl⟩ | ⟨i, q, rfl, -⟩ | ⟨i, x, q, e, next, hist, s, ans, rfl, -⟩ |
        ⟨i, q, r, hist, rfl, -⟩
      · exact (writeEffect ho).rows _ _ hrow
      all_goals simp at ha
  have hcall : NoticeSafe 0 "session" ⟨1, 1800000000⟩ w₁ (.start 0 (.difference "session" request)) :=
    fun _ => ⟨request, rfl, by rw [hnone]; rfl, by rw [hnone]; rfl⟩
  have hreached₃ := Runs.reachable_of_run (fun _ a ha => by
      simp only [List.mem_cons, List.not_mem_nil, or_false, or_self] at ha
      subst ha
      exact trivial) (hreached₁.tail hcall hstart) hreads
  have hread : NoticeSafe 0 "session" ⟨1, 1800000000⟩ w₃ (.finish 0) := by
    intro _ th' hth' request' hrequest' state' _ read hread scopes hscopes'
    obtain rfl : th = th' := Option.some.inj (hth.symm.trans hth')
    obtain rfl : request = request' := by
      rw [hasked] at hrequest'
      cases hrequest'
      rfl
    rw [Option.mem_def] at hread
    rw [hread, Option.map_some, Option.some.injEq] at hrows
    have hat : scopes.1 = L := by
      have := mem_map_of_mem (f := Prod.fst) hscopes'
      rw [hscopes, mem_singleton] at this
      exact this
    rw [hrows, hat]
    refine ⟨fun last hlast => ?_, fun x hx _ _ hp => ?_, fun x hx => ?_⟩
    · cases hlast
    · have := List.all_eq_true.1 hclean x hx
      rw [hp] at this
      cases this
    · rw [hidle] at hx
      cases hx
  refine ⟨w, ⟨e, he, ⟨hplace.1, hplace.2.1, by rw [hplace.2.2]; decide⟩, ⟨_, hwritten⟩, by rw [hdate, hheld]; decide⟩, ?_⟩
  have hstate : exec (.getUpdateState "session") 1800000000000 (start tables) =
      some (start tables, ⟨1, 0, 0, 1800000000⟩) := rfl
  exact channel_updates_noticed _ _ 0 "session" rfl hstate (hreached₃.tail hread hfinish)

/-- A channel reservation completed only after an account message moved the client's date past it: no response has said a
word of its channel. -/
theorem channel_update_unnoticed : ¬ ∀ (L₀ : Ledger (RawUpdates Nat)) (state : UpdateStateRow),
    exec (.getUpdateState "session") 1800000000000 freshLedger = some (L₀, state) →
    ∀ w : UpdateWorld (RawUpdates Nat) Nat (Nat × Int),
    Runs.Reachable plainSystem.step (PassesBack 0 "session" ⟨state.pts, state.date⟩) (System.idle L₀) w →
    NoneUnnoticed 0 "session" ⟨state.pts, state.date⟩ w := by
  intro h
  let request : GetDifferenceRequest := { pts := 1, date := 1800000000 }
  let channelMessage : RawUpdates Nat := ⟨[.updateNewChannelMessage 16 2 1], [], [7], 1800000001, 1⟩
  let message : RawUpdates Nat := ⟨[.updateNewMessage 32 2 1], [], [7], 1800000002, 2⟩
  let L₀ : Ledger (RawUpdates Nat) := { freshLedger with clockDates := [("session", 1800000000)] }
  let slow : Reservation := ⟨"channel message", "session", .channel 7, 2, 1, 1, 1800000001⟩
  let silent : ReadResponse (RawUpdates Nat) Nat (Nat × Int) → Bool := fun response =>
    match response with
    | .difference response => response.otherUpdates.isEmpty
    | .channelDifference _ => true
  have h := h L₀ ⟨1, 0, 0, 1800000000⟩ rfl
  have hrun : (Runs.run plainSystem.step (System.idle L₀)
      [.write (.begin "channel message" "session" 1 1800000001 (some 7) 1800000001), .write (.create (fun _ => true)),
        .write (.begin "message" "session" 1 1800000002 none 1800000002), .write (.create (fun _ => true)),
        .write (.other (.setPayload "message" message))]).any (fun w₁ =>
      w₁.finished.isEmpty && (plainSystem.step w₁ (.start 0 (.difference "session" request))).any (fun w₂ =>
        (Runs.run plainSystem.step w₂ [.perform 0 1800000003000, .perform 0 1800000003000, .perform 0 1800000003000,
          .perform 0 1800000003000, .perform 0 1800000003000, .finish 0,
          .write (.other (.setPayload "channel message" channelMessage))]).any (fun w =>
            w.shared.created.contains (slow, 1) && (w.shared.written.map Prod.fst).contains 1 &&
            (holds 0 ⟨1, 1800000000⟩ w.finished).date == 1800000002 && w.finished.all (fun f => silent f.response)))) =
      true := by decide +kernel
  simp only [Option.any_eq_true, Bool.and_eq_true, List.isEmpty_iff, List.contains_iff_mem, List.all_eq_true,
    beq_iff_eq, List.mem_map] at hrun
  obtain ⟨w₁, hwrites, hnone, w₂, hstart, w, hrest, ⟨⟨hslow, ⟨x, hx, hid⟩⟩, hheld⟩, hsilent⟩ := hrun
  have hreached₁ : Runs.Reachable plainSystem.step (PassesBack 0 "session" ⟨1, 1800000000⟩) (System.idle L₀) w₁ :=
    Runs.reachable_of_run (fun _ a ha => by
      simp only [List.mem_cons, List.not_mem_nil, or_false] at ha
      rcases ha with rfl | rfl | rfl | rfl | rfl <;> exact trivial) .init hwrites
  have hcall : PassesBack 0 "session" ⟨1, 1800000000⟩ w₁ (.start 0 (.difference "session" request)) :=
    fun _ => ⟨request, rfl, by rw [hnone]; rfl, by rw [hnone]; rfl⟩
  have hreached := Runs.reachable_of_run (fun _ a ha => by
      simp only [List.mem_cons, List.not_mem_nil, or_false] at ha
      rcases ha with rfl | rfl | rfl | rfl | rfl | rfl | rfl <;> exact trivial)
    (hreached₁.tail hcall hstart) hrest
  obtain ⟨f, hf, -, response, hresponse, pts, -, htold⟩ := h w hreached _ hslow 7 ⟨rfl, rfl, by decide⟩
    ⟨x.2, by rw [← hid]; exact hx⟩ (by rw [hheld]; decide)
  have hnothing := hsilent f hf
  rw [hresponse] at hnothing
  rw [List.isEmpty_iff.1 hnothing] at htold
  cases htold

end Crossgram
