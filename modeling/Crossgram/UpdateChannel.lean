import Crossgram.Lib.Intervals
import Crossgram.UpdateReads
/-!
# UpdateChannel — what a channel difference skips

The gap check of `_channelResetReason` and the page are all that stands between a client and a skipped channel update.
A page whose counted rows lead from the client's pts to the pts handed out skips nothing (`LeavesNoGap`).  Three kinds of
calls do not: a row read again under its key in another scope, a client at the latest pts, whose rows are not checked,
and a page that ends in a row without pts of its own past a gap.
-/
namespace Crossgram

open List Programs Ledger Intervals

variable {J T D : Type}

def counted (ds : List (UpdateDelivery J)) : List (Int × Nat) :=
  (ds.filter (fun d => 0 < d.ptsCount)).map (fun d => (d.pts, d.ptsCount))

/-- The pts of the last row that counts any, `p` without one. -/
def countedEnd (p : Int) (ds : List (UpdateDelivery J)) : Int :=
  ((ds.filter (fun d => 0 < d.ptsCount)).getLast?.map (fun d => d.pts)).getD p

/-- A channel difference that moves a client from `p` to `q` skips nothing: the deliveries it returned are the channel's
and carry payloads, the counted ones tile `(p, q]`, and every interval reserved inside is one of theirs. -/
structure LeavesNoGap (L : Ledger J) (s : String) (channelId : Nat) (p q : Int) (returned : List (UpdateDelivery J)) :
    Prop where
  inScope : ∀ d ∈ returned, d.platformSessionId = s ∧ d.scope = .channel channelId
  tiles : Tiles p (counted returned) q
  payloads : ∀ d ∈ returned, d.payload.isSome
  reserved : ∀ i ∈ L.reserved, i.1 = s → i.2.1 = .channel channelId → 0 < i.2.2.2 → p ≤ i.2.2.1 - i.2.2.2 →
    i.2.2.1 ≤ q → i.2.2 ∈ counted returned

/-- What a call must have read: a page of the channel's own rows, without a gap where the check is left out, and not
ending in an uncounted row past the counted ones. -/
structure PageLeadsOn (s : String) (channelId : Nat) (p latest : Int) (page : List (UpdateDelivery J)) : Prop where
  inScope : ∀ d ∈ page, d.platformSessionId = s ∧ d.scope = .channel channelId
  unchecked : latest = p → (gapCursor p page).isSome
  lastUncounted : ∀ last ∈ page.getLast?, last.ptsCount = 0 → last.pts = countedEnd p page

def LeadsOn (s : String) (channelId : Nat) (request : GetChannelDifferenceRequest) (h : Calls J) : Prop :=
  ∀ latest ∈ h.filterMap latestRead, ∀ read ∈ rowsRead (some channelId) h,
    PageLeadsOn s channelId request.pts latest (pageOf request.limit read.2.2)

/-! ## The gap check -/

theorem counted_cons_of_zero {d : UpdateDelivery J} (h : d.ptsCount = 0) (ds : List (UpdateDelivery J)) :
    counted (d :: ds) = counted ds := by simp [counted, h]

theorem counted_cons_of_pos {d : UpdateDelivery J} (h : d.ptsCount ≠ 0) (ds : List (UpdateDelivery J)) :
    counted (d :: ds) = (d.pts, d.ptsCount) :: counted ds := by simp [counted, Nat.pos_of_ne_zero h]

/-- **The gap loop computes where the counted rows lead.** -/
theorem gapCursor_eq_some_iff : ∀ {ds : List (UpdateDelivery J)} {p q : Int},
    gapCursor p ds = some q ↔ Tiles p (counted ds) q
  | [],      p, q => by simp [gapCursor, counted]
  | d :: ds, p, q => by
    unfold gapCursor
    by_cases hzero : d.ptsCount = 0
    · rw [if_pos hzero, counted_cons_of_zero hzero, gapCursor_eq_some_iff]
    · rw [if_neg hzero, counted_cons_of_pos hzero, tiles_cons]
      by_cases hmeet : d.pts - d.ptsCount = p
      · rw [if_pos hmeet, gapCursor_eq_some_iff, and_iff_right hmeet]
      · rw [if_neg hmeet]
        exact ⟨fun h => (by cases h), fun h => absurd h.1 hmeet⟩

theorem countedEnd_cons (p : Int) (d : UpdateDelivery J) (ds : List (UpdateDelivery J)) :
    countedEnd p (d :: ds) = countedEnd (if d.ptsCount = 0 then p else d.pts) ds := by
  by_cases hzero : d.ptsCount = 0
  · simp [countedEnd, hzero]
  · simp only [countedEnd, filter_cons, Nat.pos_of_ne_zero hzero, decide_true, if_true, if_neg hzero,
      getLast?_cons, Option.map_some, Option.getD_some]
    cases (ds.filter (fun d => 0 < d.ptsCount)).getLast? <;> rfl

theorem countedEnd_of_gapCursor : ∀ {ds : List (UpdateDelivery J)} {p q : Int},
    gapCursor p ds = some q → countedEnd p ds = q
  | [],      p, q, h => Option.some.inj h
  | d :: ds, p, q, h => by
    unfold gapCursor at h
    rw [countedEnd_cons]
    split at h
    · rename_i hzero
      rw [if_pos hzero]
      exact countedEnd_of_gapCursor h
    · rename_i hpos
      split at h
      · rw [if_neg hpos]
        exact countedEnd_of_gapCursor h
      · cases h

theorem countedEnd_of_last {ds : List (UpdateDelivery J)} {last : UpdateDelivery J} (h : ds.getLast? = some last)
    (hpos : last.ptsCount ≠ 0) (p : Int) : countedEnd p ds = last.pts := by
  obtain ⟨front, rfl⟩ : ∃ front, ds = front ++ [last] := ⟨ds.dropLast, (dropLast_append_getLast? last h).symm⟩
  simp [countedEnd, Nat.pos_of_ne_zero hpos]

theorem gapCursor_isSome_append : ∀ {ds ds' : List (UpdateDelivery J)} {p : Int},
    (gapCursor p (ds ++ ds')).isSome → (gapCursor p ds).isSome
  | [],      _, _, _ => rfl
  | d :: ds, ds', p, h => by
    simp only [cons_append, gapCursor] at h ⊢
    split
    · rename_i hzero
      rw [if_pos hzero] at h
      exact gapCursor_isSome_append h
    · rename_i hpos
      rw [if_neg hpos] at h
      split
      · rename_i hmeet
        rw [if_pos hmeet] at h
        exact gapCursor_isSome_append h
      · rename_i hgap
        rw [if_neg hgap] at h
        cases h

/-! ## What is handed out -/

theorem gapCursor_of_unreset {p latest : Int} {ds : List (UpdateDelivery J)}
    (h : _channelResetReason p latest ds = none) (hne : latest ≠ p) : (gapCursor p ds).isSome := by
  unfold _channelResetReason at h
  split at h
  · cases h
  · split at h
    · rename_i heq
      exact absurd heq.symm hne
    · split at h
      · cases h
      · rename_i hgap
        simpa [← Option.ne_none_iff_isSome] using hgap

theorem unreset_of_empty {p latest : Int} (h : _channelResetReason (J := J) p latest [] = none) : latest = p := by
  unfold _channelResetReason at h
  split at h
  · cases h
  · split at h
    · rename_i heq
      exact heq.symm
    · simp [gapCursor] at h

theorem unreset_of_built {buildTooLong : Nat → Int → Option D} (hbuild : ∀ channelId pts, (buildTooLong channelId pts).isSome)
    {c : ChannelCall J} {p : Int}
    (h : _channelResetReason p c.latest c.deliveries = none ∨ buildTooLong c.channelId c.latest = none) :
    _channelResetReason p c.latest c.deliveries = none :=
  h.resolve_right (Option.ne_none_iff_isSome.2 (hbuild c.channelId c.latest))

variable {L : Ledger J}

theorem Ledger.WellFormed.reserved_of_created (hL : L.WellFormed) {e : Reservation × Nat}
    (he : e ∈ L.created) : intervalOf e.1 ∈ L.reserved :=
  hL.createdReserved.subset (mem_append_left _ (mem_map.2 ⟨e, he, rfl⟩))

/-- **No reserved interval inside a tiling of deliveries is missing from it.** -/
theorem reserved_mem_of_tiles (hL : L.WellFormed) {s : String} {channelId : Nat} {p q : Int}
    {returned : List (UpdateDelivery J)} (hscope : ∀ d ∈ returned, d.platformSessionId = s ∧ d.scope = .channel channelId)
    (hgenuine : ∀ d ∈ returned, L.Genuine d) (htiles : Tiles p (counted returned) q)
    {i : String × UpdateScope × (Int × Nat)} (hi : i ∈ L.reserved) (his : i.1 = s) (hic : i.2.1 = .channel channelId)
    (hpos : 0 < i.2.2.2) (hlo : p ≤ i.2.2.1 - i.2.2.2) (hhi : i.2.2.1 ≤ q) : i.2.2 ∈ counted returned := by
  refine htiles.mem_of_inside hpos hlo hhi (fun tile htile hne => ?_)
  obtain ⟨d, hd, rfl⟩ := mem_map.1 htile
  have hd := (mem_filter.1 hd).1
  have hres := hL.reserved_of_created (hgenuine d hd).1
  obtain ⟨hds, hdc⟩ := hscope d hd
  have hdiff : intervalOf d.toReservation ≠ i := fun h => hne (congrArg (fun x => x.2.2) h)
  rcases Windows.rel_or_rel_of_mem hL.ordered hres hi hdiff with hbefore | hbefore
  · exact Or.inr (hbefore (hds.trans his.symm) (hdc.trans hic.symm))
  · exact Or.inl (hbefore (his.trans hds.symm) (hic.trans hdc.symm))

/-- **A page skips nothing exactly when it leads on.** -/
theorem leavesNoGap_iff (hL : L.WellFormed) {s : String} {channelId : Nat} {p latest limit : Int}
    {deliveries : List (UpdateDelivery J)} (hgenuine : ∀ d ∈ deliveries, L.Genuine d)
    (hreset : _channelResetReason p latest deliveries = none) {last : UpdateDelivery J}
    (hlast : (pageOf limit deliveries).getLast? = some last) :
    LeavesNoGap L s channelId p last.pts (pageOf limit deliveries) ↔
      PageLeadsOn s channelId p latest (pageOf limit deliveries) := by
  obtain ⟨rest, hrest⟩ := pageOf_prefix limit deliveries
  have hmem : ∀ d ∈ pageOf limit deliveries, d ∈ deliveries ∧ d.payload.isSome := fun d hd => mem_pageOf hd
  generalize pageOf limit deliveries = page at *
  constructor
  · intro h
    have hcursor := gapCursor_eq_some_iff.2 h.tiles
    refine ⟨h.inScope, fun _ => by rw [hcursor]; rfl, fun last' hlast' _ => ?_⟩
    rw [hlast, Option.mem_some_iff] at hlast'
    rw [← hlast', countedEnd_of_gapCursor hcursor]
  · intro h
    have hsome : (gapCursor p page).isSome := by
      by_cases hlatest : latest = p
      · exact h.unchecked hlatest
      · have hall := gapCursor_of_unreset hreset hlatest
        rw [hrest] at hall
        exact gapCursor_isSome_append hall
    obtain ⟨q, hq⟩ := Option.isSome_iff_exists.1 hsome
    have hend : last.pts = q := by
      rw [← countedEnd_of_gapCursor hq]
      by_cases hzero : last.ptsCount = 0
      · exact h.lastUncounted last hlast hzero
      · exact (countedEnd_of_last hlast hzero p).symm
    have htiles := gapCursor_eq_some_iff.1 hq
    rw [hend]
    exact ⟨h.inScope, htiles, fun d hd => (hmem d hd).2, fun i hi his hic hpos hlo hhi =>
      reserved_mem_of_tiles hL h.inScope (fun d hd => hgenuine d (hmem d hd).1) htiles hi his hic hpos hlo hhi⟩

theorem interference_moves : Interference (Moves (J := J)) := ⟨isRely_moves, fun h => h, fun h he => exec_moves h.1 he⟩

end Crossgram
