import Crossgram.UpdateReads
/-!
# UpdateAccount — account updates a difference loses

A response that moves a client from `p` to `q` must bring every account delivery in `(p, q]`.  It does when its page ends
at a row of the window, or, where it moves to the state's pts, when the window holds every row up to there and no
reservation was in flight (`ReadsAll`).  Both need every account reservation to count pts: rows then have distinct pts.
-/
namespace Crossgram

open List Programs Ledger

variable {J T D : Type}

def Difference.movesTo : Difference T → Option (Int × DifferenceContent T)
  | .differenceEmpty _ _           => none
  | .difference content state      => some (state.pts, content)
  | .differenceSlice content state => some (state.pts, content)

/-- No account delivery between the client's pts and the one it is moved to is lost: if it ever gets a payload and
retention does not drop it, the response brings the updates of its payload. -/
def NoneLost (codec : TlCodec J T) (L : Ledger J) (s : String) (p : Int) (response : Difference T) : Prop :=
  ∀ move ∈ response.movesTo, ∀ e ∈ L.created, e.1.platformSessionId = s → e.1.scope = .account → p < e.1.pts →
    e.1.pts ≤ move.1 → (∃ json, (e.2, json) ∈ L.written) → e.2 ∉ L.pruned →
    ∃ json, (e.2, json) ∈ L.written ∧ ∀ u ∈ (codec.updateFromJson json).updates, move.2.Brings u

/-- Every account row up to `pts` is in the window, and no account reservation up to `pts` is in flight. -/
structure WindowCovers (s : String) (p pts : Int) (L : Ledger J) (window : List (UpdateDelivery J)) : Prop where
  inFlight : ∀ d, L.writing = some d → d.platformSessionId = s → d.scope = .account → p < d.pts → pts < d.pts
  rows : ∀ d ∈ L.tables.deliveries.rows, d.platformSessionId = s → d.scope = .account → p < d.pts → d.pts ≤ pts →
    d ∈ window

def ReadsAll (s : String) (request : GetDifferenceRequest) (h : Calls J) : Prop :=
  ∀ state ∈ h.filterMap stateRead, ∀ read ∈ rowsRead none h,
    if (pageOf request.limit read.2.2).length < read.2.2.length then
      ∀ last ∈ (pageOf request.limit read.2.2).getLast?, last.messageId < read.1.tables.deliveries.nextMessageId
    else WindowCovers s request.pts state.2.pts read.1 read.2.1

/-- The steps that keep account updates from being lost: new account reservations count pts, and readers answer when
they have read all. -/
def AccountSafe (s : String) (w : UpdateWorld J T D) : UpdateAction J → Prop
  | .write (.begin k s' n _ none _) => s' = s → w.shared.tables.deliveries.get k = none → 0 < n
  | .finish i => ∀ th, w.threads i = some th → ∀ request, th.request = .difference s request →
      ReadsAll s request th.history
  | _ => True

/-! ## Account reservations that count -/

structure AccountCounts (s : String) (L : Ledger J) : Prop where
  created : ∀ e ∈ L.created, e.1.platformSessionId = s → e.1.scope = .account → 0 < e.1.ptsCount
  writing : ∀ d, L.writing = some d → d.platformSessionId = s → d.scope = .account → 0 < d.ptsCount

def AccountMoves (s : String) (L L' : Ledger J) : Prop := Moves L L' ∧ AccountCounts s L'

theorem interference_accountMoves (s : String) : Interference (AccountMoves (J := J) s) where
  isRely := ⟨fun h h' => ⟨isRely_moves.trans h.1 h'.1, h'.2⟩, fun h => ⟨isRely_moves.stay h.1, h.2⟩⟩
  moves h := h.1
  called {e ms L L' a} h he := by
    obtain ⟨hcreated, hwriting, -⟩ := exec_keeps he
    exact ⟨exec_moves h.1.1 he, ⟨hcreated ▸ h.2.created, hwriting ▸ h.2.writing⟩⟩

variable {s : String}

theorem accountCounts_write {w : UpdateWorld J T D} {o : LedgerWrite J} {L' : Ledger J}
    (hok : AccountSafe s w (.write o)) (h : AccountCounts s w.shared) (ho : w.shared.write o = some L') :
    AccountCounts s L' := by
  cases o with
  | begin k s' n date c now =>
    simp only [write] at ho
    split at ho
    · cases ho
    · cases hk : w.shared.tables.deliveries.get k with
      | some e =>
        simp only [UpdateTables.beginPrepare, hk, Option.some.injEq] at ho
        rw [← ho]
        exact ⟨h.created, h.writing⟩
      | none =>
        simp only [UpdateTables.beginPrepare, hk, Option.some.injEq] at ho
        rw [← ho]
        refine ⟨h.created, fun d hd hs hc => ?_⟩
        obtain rfl : _ = d := Option.some.inj hd
        cases c with
        | none => exact hok hs hk
        | some c => cases hc
  | create retained =>
    obtain ⟨d, hd, rfl⟩ := Option.map_eq_some_iff.1 ho
    refine ⟨fun e he hs hc => ?_, fun x hx => by cases hx⟩
    rcases mem_append.1 he with he | he
    · exact h.created e he hs hc
    · rw [mem_singleton.1 he] at hs hc ⊢
      exact h.writing d hd hs hc
  | other op =>
    simp only [write] at ho
    split at ho
    · cases ho
    · cases ho
      exact ⟨h.created, h.writing⟩

variable {L : Ledger J}

theorem account_eq_of_pts (hL : L.WellFormed) (hcounts : AccountCounts s L)
    {e e' : Reservation × Nat} (he : e ∈ L.created) (he' : e' ∈ L.created) (hs : e.1.platformSessionId = s)
    (hc : e.1.scope = .account) (hs' : e'.1.platformSessionId = s) (hc' : e'.1.scope = .account)
    (hpts : e.1.pts = e'.1.pts) : e = e' := by
  by_contra hne
  have hordered : L.created.Pairwise (fun e e' => Before (intervalOf e.1) (intervalOf e'.1)) :=
    pairwise_map.1 (hL.ordered.sublist ((sublist_append_left _ _).trans hL.createdReserved))
  have hpos := hcounts.created e he hs hc
  have hpos' := hcounts.created e' he' hs' hc'
  rcases Windows.rel_or_rel_of_mem hordered he he' hne with h | h
  · have : e.1.pts ≤ e'.1.pts - e'.1.ptsCount := h (hs.trans hs'.symm) (hc.trans hc'.symm)
    omega
  · have : e'.1.pts ≤ e.1.pts - e.1.ptsCount := h (hs'.trans hs.symm) (hc'.trans hc.symm)
    omega

variable {e : Reservation × Nat}

theorem account_lt_of_writing (hL : L.WellFormed) (hcounts : AccountCounts s L)
    (he : e ∈ L.created) (hs : e.1.platformSessionId = s) (hc : e.1.scope = .account)
    {d : NewUpdateDelivery J} (hd : L.writing = some d) (hds : d.platformSessionId = s) (hdc : d.scope = .account) :
    e.1.pts < d.pts := by
  have hordered := hL.ordered.sublist hL.createdReserved
  rw [hd, Option.toList_some, map_singleton, pairwise_append] at hordered
  have hbefore : e.1.pts ≤ d.pts - d.ptsCount :=
    hordered.2.2 _ (mem_map.2 ⟨e, he, rfl⟩) _ (mem_singleton_self _) (hs.trans hds.symm) (hc.trans hdc.symm)
  have := hcounts.writing d hd hds hdc
  omega

/-! ## What is read, and what is not -/

variable {L₀ L : Ledger J}

theorem created_or_past (hmove : AccountMoves s L₀ L)
    (he : e ∈ L.created) (hs : e.1.platformSessionId = s) (hc : e.1.scope = .account) :
    e ∈ L₀.created ∨ (∃ d, L₀.writing = some d ∧ e.1 = d.toReservation) ∨ L₀.tables.counter s .account < e.1.pts := by
  rcases hmove.1.2.newCreated e he with hold | ⟨-, hflight | hpast⟩
  · exact Or.inl hold
  · exact Or.inr (Or.inl hflight)
  · have := hmove.2.created e he hs hc
    rw [hs, hc] at hpast
    exact Or.inr (Or.inr (by omega))

theorem row_of_written (hL₀ : L₀.WellFormed) (hL : L.WellFormed) (hg : Grows L₀ L)
    (he : e ∈ L₀.created) (hwritten : ∃ json, (e.2, json) ∈ L.written) (hpruned : e.2 ∉ L.pruned) :
    ¬ L.Gone e.2 ∧ ∃ d ∈ L₀.tables.deliveries.rows, d.toReservation = e.1 ∧ d.messageId = e.2 := by
  have hstays : ¬ L.Gone e.2 := by
    intro hgone
    obtain ⟨json, hjson⟩ := hwritten
    rcases hL.writtenRow _ hjson with h | ⟨d, hd, hid, -⟩
    · exact hpruned h
    · exact hgone.2 _ (entry_mem hd) hid
  refine ⟨hstays, ?_⟩
  by_contra hno
  push Not at hno
  refine hstays (hg.gone _ ⟨hL₀.idsSpent e he, fun x hx hid => ?_⟩)
  obtain ⟨d, hd, rfl⟩ := mem_map.1 hx
  have := hL₀.created_eq (hL₀.rowsCreated _ (entry_mem hd)) he hid
  exact hno d hd (congrArg Prod.fst this) hid

variable {content : DifferenceContent T} {codec : TlCodec J T}

/-- **A row of a page brings its payload.** -/
theorem brought_of_page
    {page : List (UpdateDelivery J)} (hbrings : ∀ json ∈ payloads page, ∀ u ∈ (codec.updateFromJson json).updates,
      content.Brings u) {k : UpdateDelivery J} (hk : k ∈ page) (hpayload : k.payload.isSome) (hgenuine : L.Genuine k) :
    ∃ json, (k.messageId, json) ∈ L.written ∧ ∀ u ∈ (codec.updateFromJson json).updates, content.Brings u := by
  obtain ⟨json, hjson⟩ := Option.isSome_iff_exists.1 hpayload
  exact ⟨json, hgenuine.2 json hjson, hbrings json (mem_filterMap.2 ⟨k, hk, hjson⟩)⟩

theorem mem_window_of_le {p : Int} {L₀ : Ledger J} (hL₀ : L₀.WellFormed) (hcounts : AccountCounts s L₀)
    {d x : UpdateDelivery J} (hd : d ∈ L₀.tables.getUpdateDeliveriesAfter s p 101 none)
    (hx : x ∈ L₀.tables.deliveries.rows) (hs : x.platformSessionId = s) (hc : x.scope = .account) (hp : p < x.pts)
    (hle : x.pts ≤ d.pts) : x ∈ L₀.tables.getUpdateDeliveriesAfter s p 101 none := by
  obtain ⟨hdrow, hds, hdc, -⟩ := UpdateLog.mem_getAfter _ hd
  by_contra hout
  have hafter : byPts d x := (UpdateLog.getAfter_left_out _ hx hs hc hp hout).2 d hd
  have hpts : x.pts = d.pts := by
    rcases hafter with h | h <;> omega
  have := account_eq_of_pts hL₀ hcounts (hL₀.rowsCreated _ (entry_mem hx)) (hL₀.rowsCreated _ (entry_mem hdrow))
    hs hc hds hdc hpts
  exact hout (UpdateLog.eq_of_messageId hx hdrow (congrArg Prod.snd this) ▸ hd)

/-- **A page cut off at a row of the window** brings every account delivery up to it. -/
theorem brought_up_to_last {p : Int} {h : Calls J}
    {window page rest : List (UpdateDelivery J)} (hrows : ReadRows (AccountMoves s) s p none h L₀ L window (page ++ rest))
    (hcounts : AccountCounts s L₀) (hL₀ : L₀.WellFormed) (hready : ∀ k ∈ page, k.payload.isSome)
    (hbrings : ∀ json ∈ payloads page, ∀ u ∈ (codec.updateFromJson json).updates, content.Brings u)
    {last : UpdateDelivery J} (hlast : last ∈ page) (hold : last.messageId < L₀.tables.deliveries.nextMessageId)
    (he : e ∈ L.created) (hs : e.1.platformSessionId = s) (hc : e.1.scope = .account)
    (hp : p < e.1.pts) (hle : e.1.pts ≤ last.pts) (hwritten : ∃ json, (e.2, json) ∈ L.written)
    (hpruned : e.2 ∉ L.pruned) :
    ∃ json, (e.2, json) ∈ L.written ∧ ∀ u ∈ (codec.updateFromJson json).updates, content.Brings u := by
  have hL : L.WellFormed := hrows.moved.1.1
  have hg : Grows L₀ L := hrows.moved.1.2
  obtain ⟨ds₁, ds₂, hsplit, hsettled, -⟩ := hrows.kept.1.split
  -- the last row of the page is a row of the window
  obtain ⟨d, hd, hres, -⟩ := (hsettled.origin hlast).resolve_right (by omega)
  have hdw : d ∈ window := hsplit ▸ mem_append_left _ hd
  rw [hrows.read] at hdw
  obtain ⟨hdrow, hds, hdc, -⟩ := UpdateLog.mem_getAfter _ hdw
  have hpts : last.pts = d.pts := congrArg Reservation.pts hres
  have hbelow : d.pts ≤ L₀.tables.counter s .account := by
    have := hL₀.below _ (hL₀.createdReserved.subset (mem_append_left _ (mem_map.2
      ⟨_, hL₀.rowsCreated _ (entry_mem hdrow), rfl⟩)))
    simp only [intervalOf, hds, hdc, scopeOf] at this
    exact this
  have hcreated : e ∈ L₀.created := by
    rcases created_or_past hrows.moved he hs hc with hold | ⟨x, hx, hex⟩ | hpast
    · exact hold
    · have hxs : x.platformSessionId = s := hex ▸ hs
      have hxc : x.scope = .account := hex ▸ hc
      have := account_lt_of_writing hL₀ hcounts (hL₀.rowsCreated _ (entry_mem hdrow)) hds hdc hx hxs hxc
      rw [hex] at hle
      simp only at this
      omega
    · omega
  obtain ⟨hstays, x, hx, hxres, hxid⟩ := row_of_written hL₀ hL hg hcreated hwritten hpruned
  have hxs : x.platformSessionId = s := (congrArg Reservation.platformSessionId hxres).trans hs
  have hxc : x.scope = .account := (congrArg Reservation.scope hxres).trans hc
  have hxpts : x.pts = e.1.pts := congrArg Reservation.pts hxres
  have hxw := mem_window_of_le hL₀ hcounts hdw hx hxs hxc (by omega) (by omega)
  have hsorted := UpdateLog.getAfter_sorted L₀.tables.deliveries s (scopeOf none) p 101
  rw [← hrows.read, hsplit] at hxw
  have hx₁ : x ∈ ds₁ := by
    rcases mem_append.1 hxw with h₁ | h₂
    · exact h₁
    · -- a row after the cut has a larger pts
      have hread : window = L₀.tables.deliveries.getAfter s (scopeOf none) p 101 := hrows.read
      rw [← hread, hsplit] at hsorted
      have hafter := (pairwise_append.1 hsorted).2.2 d hd x h₂
      have hpts' : x.pts = d.pts := by
        rcases hafter with h | h <;> omega
      have heq := account_eq_of_pts hL₀ hcounts (hL₀.rowsCreated _ (entry_mem hx))
        (hL₀.rowsCreated _ (entry_mem hdrow)) hxs hxc hds hdc hpts'
      exact UpdateLog.eq_of_messageId hx hdrow (congrArg Prod.snd heq) ▸ hd
  rcases hsettled.mem hx₁ with hgone | ⟨k, hk, -, hkid⟩
  · exact absurd (hxid ▸ hgone) hstays
  · have hgenuine := hrows.kept.2 k (mem_append_left _ hk)
    have := brought_of_page hbrings hk (hready k hk) hgenuine
    rw [hkid, hxid] at this
    exact this

/-- **A whole window that covers the state's pts** brings every account delivery up to them. -/
theorem brought_up_to_state {p pts : Int} {h : Calls J}
    {window page : List (UpdateDelivery J)} (hrows : ReadRows (AccountMoves s) s p none h L₀ L window page)
    (hL₀ : L₀.WellFormed) (hcovers : WindowCovers s p pts L₀ window) (hpts : pts ≤ L₀.tables.counter s .account)
    (hready : ∀ k ∈ page, k.payload.isSome)
    (hbrings : ∀ json ∈ payloads page, ∀ u ∈ (codec.updateFromJson json).updates, content.Brings u)
    (he : e ∈ L.created) (hs : e.1.platformSessionId = s) (hc : e.1.scope = .account)
    (hp : p < e.1.pts) (hle : e.1.pts ≤ pts) (hwritten : ∃ json, (e.2, json) ∈ L.written) (hpruned : e.2 ∉ L.pruned) :
    ∃ json, (e.2, json) ∈ L.written ∧ ∀ u ∈ (codec.updateFromJson json).updates, content.Brings u := by
  have hcreated : e ∈ L₀.created := by
    rcases created_or_past hrows.moved he hs hc with hold | ⟨d, hd, hed⟩ | hpast
    · exact hold
    · rw [hed] at hs hc hp hle
      have := hcovers.inFlight d hd hs hc hp
      omega
    · omega
  obtain ⟨hstays, x, hx, hxres, hxid⟩ := row_of_written hL₀ hrows.moved.1.1 hrows.moved.1.2 hcreated hwritten hpruned
  rw [← hxres] at hs hc hp hle
  rcases hrows.kept.1.mem (hcovers.rows x hx hs hc hp hle) with hgone | ⟨k, hk, -, hkid⟩
  · exact absurd (hxid ▸ hgone) hstays
  · have := brought_of_page hbrings hk (hready k hk) (hrows.kept.2 k hk)
    rw [hkid, hxid] at this
    exact this

/-! ## Every run -/

/-- **No account update is lost**, in any run of publishers and readers whose account reservations count pts and whose
readers answer when they have read all. -/
theorem account_updates_not_lost (codec : TlCodec J T) (buildTooLong : Nat → Int → Option D) (s : String)
    {t : UpdateTables J} (ht : t.deliveries.rows = []) {w : UpdateWorld J T D}
    (h : Runs.Reachable (updateSystem codec buildTooLong).step (AccountSafe s) (System.idle (start t)) w) :
    ∀ f ∈ w.finished, ∀ request response, f.request = .difference s request → f.response = .difference response →
      NoneLost codec w.shared s request.pts response := by
  intro f hf request response hrequest hresponse
  have hstart : AccountMoves s (start t) (start t) :=
    ⟨⟨wellFormed_start t ht, .refl _⟩, ⟨fun e he => absurd he not_mem_nil, fun d hd => by cases hd⟩⟩
  have hreads := System.finished_of_reachable
    (P := fun q h => ∀ request, q = .difference s request → ReadsAll s request h)
    (fun w i th hok hth => hok th hth) h f hf request hrequest
  obtain ⟨-, hsaw⟩ := saw_of_reachable (interference_accountMoves s) codec buildTooLong hstart
    (fun w o L hok hstay ho => ⟨write_moves hstay.1.1 ho, accountCounts_write hok hstay.2 ho⟩) h
  have hsaw := hsaw f hf
  rw [hrequest] at hsaw
  obtain ⟨answer, c, hanswer, hc⟩ := hsaw
  obtain rfl : answer = response := ReadResponse.difference.inj (hanswer.symm.trans hresponse)
  have hrows := hc.rows.grow (interference_accountMoves s) hc.scopesMoved
  have hL₀ : c.atWindow.WellFormed := hc.stateMoved.1.1
  have hall := hreads (c.atState, c.state) (by rw [hc.seen.states]; exact mem_singleton_self _) _
    (by rw [hrows.reads.rowsRead_eq]; rfl)
  rcases hc.answers with ⟨-, -, -, rfl⟩ | ⟨content, rfl, hbrings, -⟩
  · intro move hmove
    cases hmove
  · obtain ⟨rest, hrest⟩ := pageOf_prefix request.limit c.deliveries
    have hready : ∀ k ∈ pageOf request.limit c.deliveries, k.payload.isSome := fun k hk => (mem_pageOf hk).2
    change ∀ json ∈ payloads (pageOf request.limit c.deliveries), _ at hbrings
    intro move hmove e he hs hscope hp hle hwritten hpruned
    simp only [DifferenceCall.page] at hmove
    by_cases hcut : (pageOf request.limit c.deliveries).length < c.deliveries.length
    · simp only [if_pos hcut] at hall
      obtain ⟨state, hcutoff, hpts, -⟩ := differenceOf_cut request c.state hcut content
      rw [hcutoff] at hmove
      obtain rfl : (state.pts, content) = move := Option.some.inj hmove
      cases hlast : (pageOf request.limit c.deliveries).getLast? with
      | none =>
        rw [hlast, Option.map_none, Option.getD_none] at hpts
        simp only at hle
        omega
      | some last =>
        rw [hlast, Option.map_some, Option.getD_some] at hpts
        rw [hrest] at hrows
        exact brought_up_to_last hrows hc.stateMoved.2 hL₀ hready hbrings (mem_of_getLast? hlast)
          (hall last hlast) he hs hscope hp (hpts ▸ hle) hwritten hpruned
    · simp only [if_neg hcut] at hall
      rw [differenceOf_whole hcut] at hmove
      obtain rfl : (c.state.pts, content) = move := Option.some.inj hmove
      have hwhole : pageOf request.limit c.deliveries = c.deliveries := by
        have hlength := congrArg List.length hrest
        rw [length_append] at hlength
        have hnil : rest = [] := length_eq_zero_iff.1 (by omega)
        rw [hnil, append_nil] at hrest
        exact hrest.symm
      rw [← hwhole] at hrows
      have hpts : c.state.pts ≤ c.atWindow.tables.counter s .account := by
        rw [hc.state, UpdateTables.getUpdateState_pts]
        exact hc.stateMoved.1.2.counters s .account
      exact brought_up_to_state hrows hL₀ hall hpts hready hbrings he hs hscope hp hle hwritten hpruned

theorem account_update_of_one_message : ∃ w : UpdateWorld (RawUpdates Nat) Nat (Nat × Int), ∃ f ∈ w.finished,
    ∃ content state, f.response = .difference (.difference content state) ∧ state.pts = 2 ∧ w.shared.created ≠ [] ∧
      NoneLost plainCodec w.shared "session" 1 (.difference content state) := by
  let request : GetDifferenceRequest := { pts := 1, date := 1800000000 }
  let message : RawUpdates Nat := ⟨[.updateNewMessage 16 2 1], [], [7], 1800000000, 1⟩
  obtain ⟨w, w', hw, hfinish, ⟨th, state, L, d, hth, hasked, hstate, hrows, hwriting, hstored, hpage⟩, f, hf, hrequest,
      content, answered, hresponse, hmoved, hcreated⟩ :
      ∃ w w', Runs.run plainSystem.step (System.idle freshLedger)
        [.write (.begin "message" "session" 1 1800000000 none 1800000000), .write (.create (fun _ => true)),
          .write (.other (.setPayload "message" message)), .start 0 (.difference "session" request),
          .perform 0 1800000000000, .perform 0 1800000000000, .perform 0 1800000000000, .perform 0 1800000000000,
          .perform 0 1800000000000] = some w ∧ plainSystem.step w (.finish 0) = some w' ∧
        (∃ th state L d, w.threads 0 = some th ∧ th.request = .difference "session" request ∧
          th.history.filterMap stateRead = [state] ∧ rowsRead none th.history = some (L, [d], [d]) ∧
          L.writing = none ∧ L.tables.deliveries.rows = [d] ∧ pageOf request.limit [d] = [d]) ∧
        ∃ f ∈ w'.finished, f.request = .difference "session" request ∧ ∃ content answered,
          f.response = .difference (.difference content answered) ∧ answered.pts = 2 ∧ w'.shared.created ≠ [] :=
    ⟨_, _, rfl, rfl, ⟨_, _, _, _, rfl, rfl, rfl, rfl, rfl, rfl, rfl⟩, _, mem_singleton_self _, rfl, _, _, rfl, rfl,
      by decide⟩
  have hreached : Runs.Reachable plainSystem.step (AccountSafe "session") (System.idle freshLedger) w := by
    refine Runs.reachable_of_run (fun w a ha => ?_) .init hw
    simp only [mem_cons, not_mem_nil, or_false] at ha
    rcases ha with rfl | rfl | rfl | rfl | rfl | rfl | rfl | rfl | rfl
    · exact fun _ _ => by decide
    all_goals exact trivial
  have hread : AccountSafe "session" w (.finish 0) := by
    intro th' hth' request' hrequest' read₁ _ read₂ hread₂
    obtain rfl : th = th' := Option.some.inj (hth.symm.trans hth')
    obtain rfl : request = request' := by
      rw [hasked] at hrequest'
      cases hrequest'
      rfl
    rw [hrows, Option.mem_some_iff] at hread₂
    rw [← hread₂, if_neg (by simp only [hpage, Nat.lt_irrefl, not_false_iff])]
    refine ⟨fun x hx => ?_, fun x hx _ _ _ _ => ?_⟩
    · rw [hwriting] at hx
      cases hx
    · rw [hstored] at hx
      exact hx
  exact ⟨w', f, hf, content, answered, hresponse, hmoved, hcreated,
    account_updates_not_lost _ _ "session" rfl (.tail hreached hread hfinish) f hf request _ hrequest hresponse⟩

/-- A reservation of one account message, read between its transaction and its row: the state is at pts 2, the log holds
nothing, and the client is moved past the message that is then published. -/
theorem account_update_lost : ¬ ∀ w : UpdateWorld (RawUpdates Nat) Nat (Nat × Int),
    Runs.Reachable plainSystem.step (fun _ _ => True) (System.idle freshLedger) w →
    ∀ f ∈ w.finished, ∀ s request response, f.request = .difference s request → f.response = .difference response →
      NoneLost plainCodec w.shared s request.pts response := by
  intro h
  let request : GetDifferenceRequest := { pts := 1, date := 1800000000 }
  let message : RawUpdates Nat := ⟨[.updateNewMessage 16 2 1], [], [7], 1800000000, 1⟩
  obtain ⟨w, hw, f, hf, hrequest, content, state, e, hresponse, hmessages, hpts, he, hwritten, hpruned, hplace⟩ :
      ∃ w, Runs.run plainSystem.step (System.idle freshLedger)
        [.write (.begin "message" "session" 1 1800000000 none 1800000000), .start 0 (.difference "session" request),
          .perform 0 1800000000000, .perform 0 1800000000000, .perform 0 1800000000000, .perform 0 1800000000000,
          .finish 0, .write (.create (fun _ => true)), .write (.other (.setPayload "message" message))] = some w ∧
        ∃ f ∈ w.finished, f.request = .difference "session" request ∧ ∃ content state e,
          f.response = .difference (.difference content state) ∧ content.newMessages = [] ∧ state.pts = 2 ∧
          w.shared.created = [e] ∧ w.shared.written = [(e.2, message)] ∧ w.shared.pruned = [] ∧
          (e.1.platformSessionId = "session" ∧ e.1.scope = .account ∧ e.1.pts = 2) :=
    ⟨_, rfl, _, mem_singleton_self _, rfl, _, _, _, rfl, rfl, rfl, rfl, rfl, rfl, rfl, rfl, rfl⟩
  obtain ⟨json, hjson, hbrings⟩ := h w (Runs.reachable_of_run (fun _ _ _ => trivial) .init hw) f hf "session" request _
    hrequest hresponse _ rfl e (by rw [he]; exact mem_singleton_self _) hplace.1 hplace.2.1
    (by rw [hplace.2.2]; decide) (by rw [hplace.2.2, hpts]) ⟨message, by rw [hwritten]; exact mem_singleton_self _⟩
    (by rw [hpruned]; exact not_mem_nil)
  rw [hwritten, mem_singleton] at hjson
  obtain rfl : json = message := congrArg Prod.snd hjson
  have hbrought : 16 ∈ content.newMessages := hbrings (.updateNewMessage 16 2 1) mem_cons_self
  rw [hmessages] at hbrought
  cases hbrought

end Crossgram
