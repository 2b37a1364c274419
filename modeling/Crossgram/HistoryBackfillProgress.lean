import Mathlib.Data.Int.Interval
import Crossgram.HistoryBackfill
import Crossgram.Lib.Runs
/-!
# HistoryBackfillProgress — backfill by sequence number ends with everything stored

A static conversation is served by a host that stores and reports the records asked for.  Whatever is covered has been
fetched, and a request asks for the greatest number that is not covered: the requests descend, so there are finitely
many, and where none is left to make every visible record is stored.
-/
namespace Crossgram

open Maps List

/-! ## Stored sequence numbers -/

variable {rows : List Int} {x : Int} {below : Option Int}

@[simp] theorem mem_withoutRepeats : ∀ {l : List Int}, x ∈ withoutRepeats l ↔ x ∈ l
  | []          => Iff.rfl
  | [_]         => Iff.rfl
  | a :: b :: l => by
    unfold withoutRepeats
    split
    · rename_i hab
      subst hab
      rw [mem_withoutRepeats]
      simp
    · rw [mem_cons, mem_withoutRepeats, mem_cons (a := x) (b := a)]

theorem mem_of_mem_readNativeSequences {limit : Nat}
    (h : x ∈ readNativeSequences rows below limit) : x ∈ rows ∧ 0 < x ∧ ∀ b ∈ below, x < b := by
  have h := mem_filter.1 (Windows.mem_of_mem_window (mem_withoutRepeats.1 h))
  simp only [Bool.and_eq_true, decide_eq_true_eq] at h
  refine ⟨h.1, h.2.1, fun b hb => ?_⟩
  cases hb
  simpa using h.2.2

theorem exists_ge_readNativeSequences (limit : Nat) (hx : x ∈ rows) (hpos : 0 < x) :
    ∃ y ∈ readNativeSequences rows none limit, x ≤ y := by
  have hmem : x ∈ rows.filter (fun row => decide (0 < row) && (none : Option Int).all (fun below => decide (row < below))) :=
    mem_filter.2 ⟨hx, by simp [hpos]⟩
  by_cases hin : x ∈ readNativeSequences rows none limit
  · exact ⟨x, hin, le_rfl⟩
  · have hout : x ∉ Windows.window (fun left right : Int => right ≤ left) (max 1 (min limit 10000)) _ := fun hc =>
      hin (mem_withoutRepeats.2 hc)
    have hleft := @Windows.window_left_out Int (fun left right : Int => right ≤ left) _
      ⟨fun a b => le_total b a⟩ ⟨fun a b c hab hbc => le_trans hbc hab⟩ _ _ _ hmem hout
    obtain ⟨y, hy⟩ := exists_mem_of_length_pos (l := Windows.window (fun left right : Int => right ≤ left)
      (max 1 (min limit 10000)) (rows.filter _)) (by rw [hleft.1]; omega)
    exact ⟨y, mem_withoutRepeats.2 hy, hleft.2 y hy⟩

theorem mem_of_mem_bootstrapPages {batch : Nat} : ∀ {fuel : Nat} {below : Option Int},
    x ∈ bootstrapPages rows batch fuel below → x ∈ rows ∧ 0 < x
  | 0, _, h => by cases h
  | fuel + 1, below, h => by
    have hpage : x ∈ readNativeSequences rows below batch → x ∈ rows ∧ 0 < x := fun h =>
      ⟨(mem_of_mem_readNativeSequences h).1, (mem_of_mem_readNativeSequences h).2.1⟩
    simp only [bootstrapPages] at h
    split at h
    · exact hpage h
    · split at h
      · exact hpage h
      · split at h
        · exact hpage h
        · rcases mem_append.1 h with h | h
          · exact hpage h
          · exact mem_of_mem_bootstrapPages h

theorem mem_bootstrapPages_of_mem {batch fuel : Nat}
    (h : x ∈ readNativeSequences rows below batch) : x ∈ bootstrapPages rows batch (fuel + 1) below := by
  simp only [bootstrapPages]
  split
  · exact h
  · split
    · exact h
    · split
      · exact h
      · exact mem_append_left _ h

def rowsBelow (rows : List Int) (below : Option Int) : List Int :=
  rows.filter (fun row => decide (0 < row) && below.all (fun below => decide (row < below)))

theorem rowsBelow_next {next : Int} (h : next ∈ rowsBelow rows below) :
    rowsBelow rows (some next) = (rowsBelow rows below).filter (fun row => decide (row < next)) := by
  have hbelow : ∀ row, row < next → below.all (fun below => decide (row < below)) = true := fun row hrow => by
    have hnext := (mem_filter.1 h).2
    cases below with
    | none => rfl
    | some b =>
      simp only [Option.all_some, Bool.and_eq_true, decide_eq_true_eq] at hnext ⊢
      exact hrow.trans hnext.2
  unfold rowsBelow
  rw [filter_filter]
  refine filter_congr (fun row _ => ?_)
  by_cases hrow : row < next
  · simp [hrow, hbelow row hrow]
  · simp [hrow]

theorem length_rowsBelow_lt {next : Int} (h : next ∈ rowsBelow rows below) :
    (rowsBelow rows (some next)).length < (rowsBelow rows below).length := by
  rw [rowsBelow_next h, length_filter_lt_length_iff_exists]
  exact ⟨next, h, by simp⟩

theorem mem_rowsBelow {limit : Nat}
    (h : x ∈ readNativeSequences rows below limit) : x ∈ rowsBelow rows below :=
  Windows.mem_of_mem_window (mem_withoutRepeats.1 h)

/-- **The pages end**: with as many rounds as there are rows the loop has come to its end. -/
theorem bootstrapPages_ends {batch : Nat} : ∀ {fuel : Nat} {below : Option Int},
    (rowsBelow rows below).length < fuel →
      bootstrapPages rows batch (fuel + 1) below = bootstrapPages rows batch fuel below
  | 0, _, h => by cases h
  | fuel + 1, below, h => by
    rw [bootstrapPages, bootstrapPages]
    split
    · rfl
    · split
      · rfl
      · rename_i next hnext
        have hlt := length_rowsBelow_lt (mem_rowsBelow (mem_of_getLast? hnext))
        have hends : bootstrapPages rows batch (fuel + 1) (some next) = bootstrapPages rows batch fuel (some next) :=
          bootstrapPages_ends (by omega)
        rw [hends]

/-! ## A static conversation -/

/-- A conversation as it stays upstream, and what is stored of it at first: its records, which of them are hidden, and the
sequence number of its last message where the list of conversations says it. -/
structure SequenceUpstream where
  records : Int → Bool
  isHidden : Int → Bool
  upper : Option Int
  stored : List Int
  records_pos : ∀ x, records x = true → 1 ≤ x
  upper_ok : ∀ x ∈ upper, 1 ≤ x ∧ isSafeInteger x = true
  stored_ok : ∀ x ∈ stored, 1 ≤ x ∧ isSafeInteger x = true
  known : upper ≠ none ∨ stored ≠ []

namespace SequenceUpstream

variable (u : SequenceUpstream)

def top : Int := (u.upper.toList ++ u.stored).foldr max 0

/-- The `limit` greatest records up to `high`, from the highest down. -/
def page (high limit : Int) : List Int :=
  (((List.range (high.toNat + 1)).reverse.map Int.ofNat).filter u.records).take limit.toNat

def visible (high limit : Int) : List Int := (u.page high limit).filter (fun x => !u.isHidden x)

variable {u} {x high limit : Int}

theorem le_foldr_max : ∀ {l : List Int}, x ∈ l → x ≤ l.foldr max 0
  | y :: l, h => by
    rcases mem_cons.1 h with rfl | h
    · exact le_max_left _ _
    · exact (le_foldr_max h).trans (le_max_right _ _)

theorem foldr_max_mem : ∀ {l : List Int}, (∀ x ∈ l, 1 ≤ x) → l ≠ [] → l.foldr max 0 ∈ l
  | [y], h, _ => by
    have : max y 0 = y := max_eq_left (by have := h y mem_cons_self; omega)
    simp [this]
  | y :: z :: l, h, _ => by
    have hmem := foldr_max_mem (l := z :: l) (fun x hx => h x (mem_cons_of_mem _ hx)) (cons_ne_nil _ _)
    rcases le_total y ((z :: l).foldr max 0) with hle | hle
    · rw [foldr_cons, max_eq_right hle]
      exact mem_cons_of_mem _ hmem
    · rw [foldr_cons, max_eq_left hle]
      exact mem_cons_self

theorem bounds_ok (h : x ∈ u.upper.toList ++ u.stored) : 1 ≤ x ∧ isSafeInteger x = true := by
  rcases mem_append.1 h with h | h
  · exact u.upper_ok x (Option.mem_toList.1 h)
  · exact u.stored_ok x h

theorem top_mem (u : SequenceUpstream) : u.top ∈ u.upper.toList ++ u.stored := by
  refine foldr_max_mem (fun x hx => (bounds_ok hx).1) (fun hnil => ?_)
  obtain ⟨hupper, hstored⟩ := append_eq_nil_iff.1 hnil
  rcases u.known with h | h
  · exact h (Option.toList_eq_nil_iff.1 hupper)
  · exact h hstored

theorem top_ok (u : SequenceUpstream) : 1 ≤ u.top ∧ isSafeInteger u.top = true := bounds_ok (top_mem u)

theorem upper_le_top {upper : Int} (h : upper ∈ u.upper) : upper ≤ u.top :=
  le_foldr_max (mem_append_left _ (Option.mem_toList.2 h))

theorem stored_le_top (h : x ∈ u.stored) : x ≤ u.top := le_foldr_max (mem_append_right _ h)

theorem safe_of_bounds (h1 : 1 ≤ x) (h2 : x ≤ u.top) : isSafeInteger x = true := by
  have := top_ok u
  simp only [isSafeInteger, decide_eq_true_eq] at this ⊢
  omega

theorem mem_candidates : x ∈ ((List.range (high.toNat + 1)).reverse.map Int.ofNat).filter u.records ↔
    x ≤ high ∧ u.records x = true := by
  rw [mem_filter, mem_map]
  constructor
  · rintro ⟨⟨n, hn, rfl⟩, hr⟩
    have hpos := u.records_pos _ hr
    rw [mem_reverse, mem_range] at hn
    refine ⟨?_, hr⟩
    simp only [Int.ofNat_eq_natCast] at hpos ⊢
    omega
  · rintro ⟨hx, hr⟩
    have hpos := u.records_pos _ hr
    refine ⟨⟨x.toNat, ?_, Int.toNat_of_nonneg (by omega)⟩, hr⟩
    rw [mem_reverse, mem_range]
    omega

theorem pairwise_candidates (u : SequenceUpstream) (high : Int) :
    (((List.range (high.toNat + 1)).reverse.map Int.ofNat).filter u.records).Pairwise (fun x y => y < x) := by
  refine List.Pairwise.filter _ (pairwise_map.2 (pairwise_reverse.2 ?_))
  exact pairwise_lt_range.imp (fun h => Int.ofNat_lt.2 h)

theorem records_of_mem_page (h : x ∈ u.page high limit) : x ≤ high ∧ u.records x = true :=
  mem_candidates.1 (mem_of_mem_take h)

/-- **A page is contiguous**: it has every record from its lowest to `high`. -/
theorem mem_page {low : Int} (hlow : (u.page high limit).getLast? = some low) (hle : low ≤ x) (hx : x ≤ high)
    (hr : u.records x = true) : x ∈ u.page high limit := by
  have hmem := mem_candidates.2 ⟨hx, hr⟩
  have hpairwise := pairwise_candidates u high
  rw [← take_append_drop limit.toNat (((List.range (high.toNat + 1)).reverse.map Int.ofNat).filter u.records)]
    at hmem hpairwise
  rcases mem_append.1 hmem with hin | hout
  · exact hin
  · have := (pairwise_append.1 hpairwise).2.2 low (mem_of_getLast? hlow) x hout
    omega

theorem not_records (hlimit : 1 ≤ limit) (h : (u.page high limit).getLast? = none) (hx : x ≤ high) :
    u.records x = false := by
  refine Bool.eq_false_iff.2 (fun hr => ?_)
  have hmem := mem_candidates.2 ⟨hx, hr⟩
  rw [getLast?_eq_none_iff, page, take_eq_nil_iff] at h
  rcases h with h | h
  · omega
  · rw [h] at hmem
    cases hmem

end SequenceUpstream

/-- A host serves the conversation: it says of it what it is, and stores and reports just the records asked for. -/
structure Serves (u : SequenceUpstream) (session conversationId : String) (stored : List Int) (host : BackfillHost) :
    Prop where
  sequences : host.supportsSequenceHistory session = true
  listed : ∀ e ∈ host.listConversations session, e.conversationId = conversationId →
    e.kind ≠ .direct ∧ e.sequence = u.upper
  stored : ∀ x, x ∈ host.nativeSequences session conversationId ↔ x ∈ stored
  backfill : ∀ high limit, ∃ page, host.backfill session conversationId (.beforeSequence high limit) = .ok page ∧
    page.minSequence = (u.page high limit).getLast?

/-! ## The state of the conversation -/

/-- **What the state of the conversation says is so.**  `requested` are the numbers that requests were made for, the last
one first; `before` are numbers that were covered at some earlier time. -/
structure Sound (u : SequenceUpstream) (stored requested : List Int) (before : Int → Prop) (state : ConversationState) :
    Prop where
  mode : state.mode = .sequence
  upper : state.upperSequence = u.upper
  bounds : ∀ x, state.coverage.Has x → 1 ≤ x ∧ x ≤ u.top
  fresh : state.bootstrapped = false → state.coverage.spans = [] ∧ requested = [] ∧ state.floorReached = false
  within : state.bootstrapped = true → state.coverage.Within u.upper u.top
  fetched : ∀ x, state.coverage.Has x → u.records x = true → u.isHidden x = false → x ∈ stored
  floor : state.floorReached = true → state.coverage.Has 1
  above : ∀ h ∈ requested, ∀ x, h ≤ x → x ≤ u.top → state.coverage.Has x
  kept : ∀ x, before x → state.coverage.Has x

def StoredOk (u : SequenceUpstream) (stored : List Int) : Prop :=
  (∀ x ∈ stored, 1 ≤ x ∧ x ≤ u.top) ∧ ∀ x ∈ u.stored, x ∈ stored

structure Due (u : SequenceUpstream) (state : ConversationState) (high : Int) : Prop where
  pos : 1 ≤ high
  le_top : high ≤ u.top
  missing : ¬ state.coverage.Has high
  above : ∀ x, high < x → x ≤ u.top → state.coverage.Has x

section States

variable {u : SequenceUpstream} {stored requested : List Int} {before : Int → Prop} {state : ConversationState}

theorem within_iff (h : Sound u stored requested before state) (hb : state.bootstrapped = true) {x : Int} :
    state.coverage.Within u.upper x ↔ x ≤ u.top := by
  constructor
  · rintro (⟨upper, hmem, hx⟩ | ⟨y, hy, hx⟩)
    · exact hx.trans (SequenceUpstream.upper_le_top hmem)
    · exact hx.trans (h.bounds y hy).2
  · intro hx
    rcases h.within hb with ⟨upper, hmem, htop⟩ | ⟨y, hy, htop⟩
    · exact .inl ⟨upper, hmem, hx.trans htop⟩
    · exact .inr ⟨y, hy, hx.trans htop⟩

theorem upper_safe (u : SequenceUpstream) : ∀ upper ∈ u.upper, isSafeInteger upper = true := fun upper h =>
  (u.upper_ok upper h).2

theorem upper_pos (u : SequenceUpstream) : ∀ upper ∈ u.upper, 1 ≤ upper := fun upper h => (u.upper_ok upper h).1

/-- **A gap is due.** -/
theorem due_of_gap (h : Sound u stored requested before state) (hb : state.bootstrapped = true) {gap : SequenceGap}
    (hgap : state.coverage.highestGap state.upperSequence = some gap) :
    Due u state gap.high ∧ 1 ≤ gap.low ∧ gap.low ≤ gap.high := by
  rw [h.upper] at hgap
  have hspec := SequenceCoverage.highestGap_some (upper_safe u) hgap
  have hlow : 1 ≤ gap.low := by
    rcases hspec.below with hlow | ⟨x, hx, hcovered⟩
    · exact hlow.ge
    · have := (h.bounds x hcovered).1
      omega
  exact ⟨⟨hlow.trans hspec.nonempty, (within_iff h hb).1 hspec.within, hspec.missing _ hspec.nonempty le_rfl,
    fun x hx htop => hspec.above x hx ((within_iff h hb).2 htop)⟩, hlow, hspec.nonempty⟩

theorem min_ne_none (h : Sound u stored requested before state) (hb : state.bootstrapped = true)
    (hgap : state.coverage.highestGap state.upperSequence = none) : state.coverage.min ≠ none := by
  intro hmin
  have hmax := SequenceCoverage.max_eq_none.2 hmin
  have hnone : ∀ x, ¬ state.coverage.Has x := fun x hx => by
    rw [SequenceCoverage.min, Spans.least_eq_none] at hmin
    rw [SequenceCoverage.Has, hmin] at hx
    exact Spans.covers_nil x hx
  rcases h.within hb with ⟨upper, hmem, -⟩ | ⟨y, hy, -⟩
  · rw [h.upper] at hgap
    unfold SequenceCoverage.highestGap at hgap
    rw [SequenceCoverage.filter_safe (upper_safe u), hmem, hmax] at hgap
    simp [upper_pos u upper hmem] at hgap
  · exact hnone y hy

/-- **Where there is no gap, what lies below the lowest number is due.** -/
theorem due_of_floor (h : Sound u stored requested before state) (hb : state.bootstrapped = true)
    (hgap : state.coverage.highestGap state.upperSequence = none) {bottom : Int} (hmin : state.coverage.min = some bottom)
    (hlt : 1 < bottom) : Due u state (bottom - 1) := by
  have hbottom := SequenceCoverage.has_min hmin
  rw [h.upper] at hgap
  have hcovered := SequenceCoverage.highestGap_none (upper_safe u) (upper_pos u) hgap bottom hbottom
  refine ⟨by omega, by have := (h.bounds bottom hbottom).2; omega, fun hx => ?_, fun x hx htop => ?_⟩
  · have := SequenceCoverage.min_le hmin hx
    omega
  · exact hcovered x (by omega) ((within_iff h hb).2 htop)

/-- **Where there is no gap and the floor is reached, every visible record is stored.** -/
theorem complete_of_sound (h : Sound u stored requested before state) (hfloor : state.floorReached = true)
    (hgap : state.coverage.highestGap state.upperSequence = none) {x : Int} (hx : x ≤ u.top) (hr : u.records x = true)
    (hv : u.isHidden x = false) : x ∈ stored := by
  have hb : state.bootstrapped = true := by
    cases hb : state.bootstrapped with
    | true => rfl
    | false =>
      rw [(h.fresh hb).2.2] at hfloor
      cases hfloor
  have hwithin := (within_iff h hb).2 hx
  rw [h.upper] at hgap
  have hcovered := SequenceCoverage.highestGap_none (upper_safe u) (upper_pos u) hgap 1 (h.floor hfloor) x
    (u.records_pos x hr) hwithin
  exact h.fetched x hcovered hr hv

theorem Sound.congr (h : Sound u stored requested before state) {state' : ConversationState}
    (hmode : state'.mode = state.mode) (hupper : state'.upperSequence = state.upperSequence)
    (hcoverage : state'.coverage = state.coverage) (hboot : state'.bootstrapped = state.bootstrapped)
    (hfloor : state'.floorReached = true → state.floorReached = true ∨ state.coverage.Has 1) (hnew : state.bootstrapped = false →
      state'.floorReached = false) : Sound u stored requested before state' := by
  refine ⟨hmode.trans h.mode, hupper.trans h.upper, ?_, fun hb => ?_, fun hb => ?_, ?_, fun hf => ?_, ?_, ?_⟩
  · rw [hcoverage]
    exact h.bounds
  · rw [hboot] at hb
    rw [hcoverage]
    exact ⟨(h.fresh hb).1, (h.fresh hb).2.1, hnew hb⟩
  · rw [hboot] at hb
    rw [hcoverage]
    exact h.within hb
  · rw [hcoverage]
    exact h.fetched
  · rw [hcoverage]
    exact (hfloor hf).elim h.floor id
  · rw [hcoverage]
    exact h.above
  · rw [hcoverage]
    exact h.kept

theorem sound_init (hrequested : requested = []) (hbefore : ∀ x, ¬ before x) :
    Sound u stored requested before { ConversationState.init .sequence with upperSequence := u.upper } := by
  have hnone : ∀ x, ¬ SequenceCoverage.empty.Has x := fun x hx => Spans.covers_nil x hx
  exact ⟨rfl, rfl, fun x hx => (hnone x hx).elim, fun _ => ⟨rfl, hrequested, rfl⟩, nofun, fun x hx => (hnone x hx).elim,
    nofun, fun h hh => (not_mem_nil (hrequested ▸ hh)).elim, fun x hx => (hbefore x hx).elim⟩

theorem refresh_init (e : HistorySyncConversation) (he : e.sequence = u.upper) :
    ConversationState.refresh .sequence e none = { ConversationState.init .sequence with upperSequence := u.upper } := by
  unfold ConversationState.refresh
  rw [he]
  cases u.upper <;> rfl

theorem refresh_known (h : Sound u stored requested before state) (e : HistorySyncConversation)
    (he : e.sequence = u.upper) : ConversationState.refresh .sequence e (some state) = state := by
  have hmode : ¬ (state.mode ≠ .sequence ∧ state.demoted = false) := fun hc => hc.1 h.mode
  unfold ConversationState.refresh
  rw [he]
  simp only [if_neg hmode]
  cases hupper : u.upper with
  | none => rfl
  | some upper =>
    simp only [h.upper, hupper, Option.all_some, lt_self_iff_false, decide_false, Bool.false_eq_true, if_false]

/-- **What is stored is covered to begin with.** -/
theorem Sound.bootstrap (h : Sound u stored requested before state) (hb : state.bootstrapped = false)
    (hstored : StoredOk u stored) {rows : List Int} (hrows : ∀ x, x ∈ rows ↔ x ∈ stored) (batch : Nat) :
    Sound u stored requested before (state.bootstrap rows batch) := by
  obtain ⟨hspans, hrequested, hfloor⟩ := h.fresh hb
  have hhas : ∀ x, (state.bootstrap rows batch).coverage.Has x ↔
      x ∈ bootstrapPages rows batch (rows.length + 1) none ∧ isSafeInteger x = true ∧ 0 < x := fun x => by
    unfold ConversationState.bootstrap
    rw [hspans]
    exact SequenceCoverage.has_fromSequences
  have hmem : ∀ x, (state.bootstrap rows batch).coverage.Has x → x ∈ stored := fun x hx =>
    (hrows x).1 (mem_of_mem_bootstrapPages ((hhas x).1 hx).1).1
  have hnone : ∀ x, ¬ state.coverage.Has x := fun x hx => by
    rw [SequenceCoverage.Has, hspans] at hx
    exact Spans.covers_nil x hx
  refine ⟨h.mode, h.upper, fun x hx => hstored.1 x (hmem x hx), fun hc => (by cases hc), fun _ => ?_,
    fun x hx _ _ => hmem x hx,
    fun hf => ?_, fun y hy => ?_, fun x hx => (hnone x (h.kept x hx)).elim⟩
  · -- the top is the upper sequence or stored, and the greatest stored number is on the first page
    rcases mem_append.1 (SequenceUpstream.top_mem u) with htop | htop
    · exact .inl ⟨u.top, Option.mem_toList.1 htop, le_rfl⟩
    · have hrow := (hrows _).2 (hstored.2 _ htop)
      obtain ⟨y, hy, hle⟩ := exists_ge_readNativeSequences batch hrow (by
        have := (SequenceUpstream.top_ok u).1
        omega)
      have hbounds := hstored.1 y ((hrows y).1 (mem_of_mem_readNativeSequences hy).1)
      exact .inr ⟨y, (hhas y).2 ⟨mem_bootstrapPages_of_mem hy, SequenceUpstream.safe_of_bounds hbounds.1 hbounds.2,
        by omega⟩, hle⟩
  · exact absurd (hfloor.symm.trans hf) Bool.false_ne_true
  · rw [hrequested] at hy
    cases hy

/-- **A request is answered**: the numbers from `low` to the one it was due for are covered. -/
theorem Sound.grow (h : Sound u stored requested before state) {high low : Int} (hdue : Due u state high)
    (hb : state.bootstrapped = true) {state' : ConversationState} {stored' : List Int}
    (hmode : state'.mode = state.mode) (hupper : state'.upperSequence = state.upperSequence)
    (hboot : state'.bootstrapped = state.bootstrapped) (hlow : low ≤ high)
    (hhas : ∀ x, state'.coverage.Has x ↔ (max 1 low ≤ x ∧ x ≤ high) ∨ state.coverage.Has x)
    (hsub : ∀ x ∈ stored, x ∈ stored')
    (hfetched : ∀ x, low ≤ x → x ≤ high → u.records x = true → u.isHidden x = false → x ∈ stored')
    (hfloor : state'.floorReached = true → state.floorReached = true ∨ low ≤ 1) :
    Sound u stored' (high :: requested) before state' := by
  have hpos := hdue.pos
  refine ⟨hmode.trans h.mode, hupper.trans h.upper, fun x hx => ?_, fun hb' => ?_, fun _ => ?_, fun x hx hr hv => ?_,
    fun hf => ?_, fun y hy x hyx hx => ?_, fun x hx => (hhas x).2 (.inr (h.kept x hx))⟩
  · rcases (hhas x).1 hx with ⟨h1, h2⟩ | hx
    · have := hdue.le_top
      omega
    · exact h.bounds x hx
  · rw [hboot, hb] at hb'
    cases hb'
  · rcases h.within hb with hupper | ⟨y, hy, htop⟩
    · exact .inl hupper
    · exact .inr ⟨y, (hhas y).2 (.inr hy), htop⟩
  · rcases (hhas x).1 hx with ⟨h1, h2⟩ | hx
    · exact hfetched x (by omega) h2 hr hv
    · exact hsub x (h.fetched x hx hr hv)
  · refine (hhas 1).2 ((hfloor hf).elim (fun hf => .inr (h.floor hf)) (fun hlow => .inl ⟨?_, hpos⟩))
    omega
  · rcases mem_cons.1 hy with rfl | hy
    · by_cases hxy : x = y
      · exact (hhas x).2 (.inl ⟨by omega, hxy.le⟩)
      · exact (hhas x).2 (.inr (hdue.above x (by omega) hx))
    · exact (hhas x).2 (.inr (h.above y hy x hyx hx))

variable {work : Work}

open HistoryBackfillWorker in
/-- **What a page covers**: the numbers from `low` to the one asked for, and it has the records among them. -/
theorem cover_spec {high limit : Int} (hhigh : 1 ≤ high) (hsafe : ∀ x, 1 ≤ x → x ≤ high → isSafeInteger x = true)
    (hlimit : 1 ≤ limit) {page : HistoryBackfillPage}
    (hpage : page.minSequence = (u.page high limit).getLast?)
    (hgap : ∀ id low high', work = .gap id low high' → 1 ≤ low ∧ low ≤ high) (state : ConversationState) :
    let state' := cover work (.beforeSequence high limit) page state
    (state'.mode = state.mode ∧ state'.upperSequence = state.upperSequence ∧ state'.bootstrapped = state.bootstrapped) ∧
    ∃ low ≤ high, (∀ x, state'.coverage.Has x ↔ (max 1 low ≤ x ∧ x ≤ high) ∨ state.coverage.Has x) ∧
      (∀ x, low ≤ x → x ≤ high → u.records x = true → x ∈ u.page high limit) ∧
      (state'.floorReached = true → state.floorReached = true ∨ low ≤ 1) := by
  intro state'
  have hhighSafe := hsafe high hhigh le_rfl
  cases hlast : (u.page high limit).getLast? with
  | some rawMin =>
    obtain ⟨hle, hr⟩ := SequenceUpstream.records_of_mem_page (mem_of_getLast? hlast)
    have hfilter : page.minSequence.filter (fun rawMin => decide (rawMin ≤ high)) = some rawMin := by
      rw [hpage, hlast]
      exact Option.filter_eq_some_iff.2 ⟨rfl, decide_eq_true hle⟩
    have hhas := fun x => SequenceCoverage.has_add (c := state.coverage) (x := x)
      (hsafe rawMin (u.records_pos _ hr) hle) hhighSafe hle hhigh
    have hstate : state' = if rawMin ≤ 1 then { state with coverage := state.coverage.add rawMin high }.floor .start
        else { state with coverage := state.coverage.add rawMin high } := by
      show cover work (.beforeSequence high limit) page state = _
      simp only [cover, hfilter]
    by_cases hfloor : rawMin ≤ 1
    · rw [if_pos hfloor] at hstate
      rw [hstate]
      exact ⟨⟨rfl, rfl, rfl⟩, rawMin, hle, hhas, fun x h1 h2 => SequenceUpstream.mem_page hlast h1 h2, fun _ => .inr hfloor⟩
    · rw [if_neg hfloor] at hstate
      rw [hstate]
      exact ⟨⟨rfl, rfl, rfl⟩, rawMin, hle, hhas, fun x h1 h2 => SequenceUpstream.mem_page hlast h1 h2, .inl⟩
  | none =>
    have hnone : ∀ low x, low ≤ x → x ≤ high → u.records x = true → x ∈ u.page high limit := fun _ x _ hx hr => by
      rw [SequenceUpstream.not_records hlimit hlast hx] at hr
      cases hr
    have hfilter : page.minSequence.filter (fun rawMin => decide (rawMin ≤ high)) = none := by
      rw [hpage, hlast]
      rfl
    cases work with
    | gap id low high' =>
      obtain ⟨hlow, hle⟩ := hgap id low high' rfl
      have hstate : state' = { state with coverage := state.coverage.add low high } := by
        show cover _ (.beforeSequence high limit) page state = _
        simp only [cover, hfilter]
      rw [hstate]
      exact ⟨⟨rfl, rfl, rfl⟩, low, hle, fun x => SequenceCoverage.has_add (hsafe low hlow hle) hhighSafe hle hhigh,
        hnone low, .inl⟩
    | floor id =>
      have hstate : state' = { state with coverage := state.coverage.add 1 high }.floor .start := by
        show cover _ (.beforeSequence high limit) page state = _
        simp only [cover, hfilter]
      rw [hstate]
      exact ⟨⟨rfl, rfl, rfl⟩, 1, hhigh, fun x => SequenceCoverage.has_add (hsafe 1 le_rfl hhigh) hhighSafe hhigh hhigh,
        hnone 1, fun _ => .inr le_rfl⟩

variable {options : BackfillOptions}

open HistoryBackfillWorker in
theorem succeed_eq (hage : options.maxAgeDays ≤ 0) (now : Int) (work : Work)
    (query : IMHistoryQuery) (page : HistoryBackfillPage) (state : ConversationState) :
    succeed options now work query page state = cover work query page (count page state) := by
  have hyoung : ∀ timestamp, beyondAge options timestamp now = false := fun timestamp => by
    unfold beyondAge
    exact decide_eq_false (fun h => absurd h.1 (not_lt.2 hage))
  unfold succeed
  cases work with
  | gap id low high => rfl
  | floor id => simp [hyoung]

open HistoryBackfillWorker in
/-- **A page is taken in.** -/
theorem Sound.succeed (h : Sound u stored requested before state) {high limit : Int} (hdue : Due u state high)
    (hb : state.bootstrapped = true) (hlimit : 1 ≤ limit) (hage : options.maxAgeDays ≤ 0)
    {now : Int} {page : HistoryBackfillPage} (hpage : page.minSequence = (u.page high limit).getLast?)
    (hgap : ∀ id low high', work = .gap id low high' → 1 ≤ low ∧ low ≤ high) :
    Sound u (stored ++ u.visible high limit) (high :: requested) before
      (succeed options now work (.beforeSequence high limit) page state) := by
  obtain ⟨⟨hmode, hupper, hboot⟩, low, hle, hhas, hrecords, hfloor⟩ := cover_spec hdue.pos
    (fun x h1 h2 => SequenceUpstream.safe_of_bounds h1 (h2.trans hdue.le_top)) hlimit hpage hgap (count page state)
  rw [succeed_eq hage]
  refine h.grow hdue hb hmode hupper hboot hle hhas (fun x hx => mem_append_left _ hx) (fun x h1 h2 hr hv => ?_) hfloor
  exact mem_append_right _ (mem_filter.2 ⟨hrecords x h1 h2 hr, by simp [hv]⟩)

open HistoryBackfillWorker in
/-- **What a piece of work does to the conversation it is for**: it asks for the number that is due, or finds the floor. -/
theorem Sound.runState (h : Sound u stored requested before state) (hb : state.bootstrapped = true)
    (hpageSize : 1 ≤ options.pageSize) (hage : options.maxAgeDays ≤ 0) {host : BackfillHost}
    {session conversationId : String} (hserves : Serves u session conversationId stored host) (now : Int)
    (hconversation : workConversation work = conversationId)
    (hwork : (∃ gap, state.coverage.highestGap state.upperSequence = some gap ∧
        work = .gap conversationId gap.low gap.high) ∨
      (work = .floor conversationId ∧ state.coverage.highestGap state.upperSequence = none)) :
    let after := HistoryBackfillWorker.runState options host now session work state
    (after.2 = none ∧ Sound u stored requested before after.1) ∨
      ∃ high limit, after.2 = some (.beforeSequence high limit) ∧ Due u state high ∧
        Sound u (stored ++ u.visible high limit) (high :: requested) before after.1 := by
  have hsound : Sound u stored requested before { state with requests := state.requests + 1 } :=
    h.congr rfl rfl rfl rfl .inl (fun hc => by rw [hc] at hb; cases hb)
  have hsend : ∀ high limit, Due u state high → 1 ≤ limit →
      (∀ id low high', work = .gap id low high' → 1 ≤ low ∧ low ≤ high) →
      plan options now (host.oldestStoredMessage session (workConversation work)) work state =
        (state, some (.beforeSequence high limit)) →
      ∃ high limit, (HistoryBackfillWorker.runState options host now session work state).2 =
        some (.beforeSequence high limit) ∧ Due u state high ∧
        Sound u (stored ++ u.visible high limit) (high :: requested) before
          (HistoryBackfillWorker.runState options host now session work state).1 := by
    intro high limit hdue hlimit hgap hplan
    obtain ⟨page, hbackfill, hpage⟩ := hserves.backfill high limit
    refine ⟨high, limit, ?_⟩
    rw [hconversation] at hplan
    unfold HistoryBackfillWorker.runState
    simp only [hconversation, hplan, hbackfill]
    exact ⟨trivial, hdue, hsound.succeed ⟨hdue.pos, hdue.le_top, hdue.missing, hdue.above⟩ hb hlimit hage hpage hgap⟩
  rcases hwork with ⟨gap, hgap, rfl⟩ | ⟨rfl, hgap⟩
  · obtain ⟨hdue, hlow, hle⟩ := due_of_gap h hb hgap
    refine .inr (hsend gap.high _ hdue (le_max_left _ _) (fun id low high' heq => ?_) rfl)
    cases heq
    exact ⟨hlow, hle⟩
  · obtain ⟨bottom, hmin⟩ := Option.ne_none_iff_exists'.1 (min_ne_none h hb hgap)
    by_cases hone : bottom ≤ 1
    · have hplan : plan options now (host.oldestStoredMessage session (workConversation (.floor conversationId)))
          (.floor conversationId) state = (state.floor .start, none) := by
        simp only [plan, h.mode, hmin, if_pos hone]
      have hbottom := SequenceCoverage.has_min hmin
      have hfloor : state.coverage.Has 1 := by
        have := (h.bounds bottom hbottom).1
        rwa [show bottom = 1 by omega] at hbottom
      refine .inl ?_
      unfold HistoryBackfillWorker.runState
      simp only [hplan]
      exact ⟨trivial, h.congr rfl rfl rfl rfl (fun _ => .inr hfloor) (fun hc => by rw [hc] at hb; cases hb)⟩
    · have hplan : plan options now (host.oldestStoredMessage session (workConversation (.floor conversationId)))
          (.floor conversationId) state = (state, some (.beforeSequence (bottom - 1) options.pageSize)) := by
        simp only [plan, h.mode, hmin, if_neg hone]
      exact .inr (hsend _ _ (due_of_floor h hb hgap hmin (by omega)) hpageSize nofun hplan)

end States

/-! ## Sessions and ticks -/

structure SessionSound (u : SequenceUpstream) (conversationId : String) (stored requested : List Int)
    (before : Int → Prop) (s : SessionState) : Prop where
  absent : Maps.get s.conversations conversationId = none → requested = [] ∧ ∀ x, ¬ before x
  present : ∀ state, Maps.get s.conversations conversationId = some state → Sound u stored requested before state

section Sessions

open HistoryBackfillWorker

variable {u : SequenceUpstream} {stored requested : List Int} {before : Int → Prop} {session conversationId : String}
  {options : BackfillOptions} {host : BackfillHost} {now : Int} {s : SessionState}

theorem SessionSound.set (h : SessionSound u conversationId stored requested before s) (id : String)
    (state : ConversationState) (hstate : id = conversationId → Sound u stored requested before state) :
    SessionSound u conversationId stored requested before
      { s with conversations := Maps.set s.conversations id state } := by
  refine ⟨fun hnone => ?_, fun state' hget => ?_⟩
  · rw [get_set] at hnone
    split at hnone
    · cases hnone
    · exact h.absent hnone
  · rw [get_set] at hget
    split at hget
    · rename_i hid
      cases hget
      exact hstate hid.symm
    · exact h.present state' hget

theorem SessionSound.refresh (h : SessionSound u conversationId stored requested before s)
    (options : BackfillOptions) (now : Int) (hserves : Serves u session conversationId stored host) :
    SessionSound u conversationId stored requested before (refreshConversations options host now session s) := by
  unfold refreshConversations
  split
  · exact h
  · refine List.foldlRecOn _ _ ⟨h.absent, h.present⟩ (fun s hs e he => ?_)
    have hset := hs.set e.conversationId (ConversationState.refresh
      (if host.supportsSequenceHistory session = true ∧ e.kind ≠ .direct then BackfillMode.sequence else .anchor) e
      (Maps.get s.conversations e.conversationId)) (fun hid => by
        obtain ⟨hkind, hsequence⟩ := hserves.listed e (mem_filter.1 he).1 hid
        rw [if_pos ⟨hserves.sequences, hkind⟩, hid]
        cases hget : Maps.get s.conversations conversationId with
        | none =>
          obtain ⟨hrequested, hbefore⟩ := hs.absent hget
          rw [refresh_init e hsequence]
          exact sound_init hrequested hbefore
        | some state =>
          rw [refresh_known (hs.present state hget) e hsequence]
          exact hs.present state hget)
    exact ⟨hset.absent, hset.present⟩

def WorkFor (conversationId : String) (s : SessionState) (work : Work) : Prop :=
  workConversation work = conversationId → ∃ state, Maps.get s.conversations conversationId = some state ∧
    state.bootstrapped = true ∧
    ((∃ gap, state.coverage.highestGap state.upperSequence = some gap ∧
        work = .gap conversationId gap.low gap.high) ∨
      (work = .floor conversationId ∧ state.coverage.highestGap state.upperSequence = none))

def NoGap (conversationId : String) (s : SessionState) : Prop :=
  ∀ state, Maps.get s.conversations conversationId = some state →
    state.bootstrapped = true ∧ state.coverage.highestGap state.upperSequence = none

theorem bootstrapped_readied (id : String) (state : ConversationState) :
    (readied options host session id state).bootstrapped = true := by
  unfold readied
  split
  · assumption
  · rfl

theorem Sound.readied {state : ConversationState} (h : Sound u stored requested before state)
    (hserves : Serves u session conversationId stored host) (hstored : StoredOk u stored) :
    Sound u stored requested before (readied options host session conversationId state) := by
  unfold HistoryBackfillWorker.readied
  by_cases hb : state.bootstrapped = true
  · rw [if_pos hb]
    exact h
  · rw [if_neg hb]
    exact h.bootstrap (Bool.eq_false_iff.2 hb) hstored hserves.stored _

/-- **What the first loop of `_nextWork` does.** -/
theorem firstGap_spec (options : BackfillOptions) (hserves : Serves u session conversationId stored host) (hstored : StoredOk u stored) :
    ∀ (ids : List String) (s : SessionState), SessionSound u conversationId stored requested before s →
      let after := firstGap options host session ids s
      SessionSound u conversationId stored requested before after.1 ∧
      (∀ work, after.2 = some work → WorkFor conversationId after.1 work) ∧
      (after.2 = none → (NoGap conversationId s ∨ conversationId ∈ ids) → NoGap conversationId after.1)
  | [], s, h => ⟨h, fun _ hc => (by cases hc), fun _ hgap => hgap.elim id (fun hc => by cases hc)⟩
  | id :: ids, s, h => by
    intro after
    have hskip : (id = conversationId → NoGap conversationId s) → after = firstGap options host session ids s → _ :=
      fun hid hafter => by
        obtain ⟨hsound, hwork, hgap⟩ := firstGap_spec options hserves hstored ids s h
        have hresult : SessionSound u conversationId stored requested before after.1 ∧
            (∀ work, after.2 = some work → WorkFor conversationId after.1 work) ∧
            (after.2 = none → (NoGap conversationId s ∨ conversationId ∈ id :: ids) → NoGap conversationId after.1) := by
          rw [hafter]
          refine ⟨hsound, hwork, fun hnone hcases => hgap hnone ?_⟩
          rcases hcases with hno | hmem
          · exact .inl hno
          · rcases mem_cons.1 hmem with heq | hmem
            · exact .inl (hid heq.symm)
            · exact .inr hmem
        exact hresult
    cases hget : Maps.get s.conversations id with
    | none =>
      refine hskip (fun hid state hstate => ?_) (by show firstGap options host session (id :: ids) s = _; simp only [firstGap, hget])
      rw [hid, hstate] at hget
      cases hget
    | some state =>
      by_cases hmode : state.mode = .sequence
      · have hset : SessionSound u conversationId stored requested before
            { s with conversations := Maps.set s.conversations id (readied options host session id state) } :=
          h.set id _ (fun hid => by
            subst hid
            exact (h.present state hget).readied hserves hstored)
        cases hgap : (readied options host session id state).coverage.highestGap
            (readied options host session id state).upperSequence with
        | some gap =>
          have hafter : after = ({ s with conversations := Maps.set s.conversations id (readied options host session id state) },
              some (.gap id gap.low gap.high)) := by
            show firstGap options host session (id :: ids) s = _
            simp only [firstGap, hget, if_pos hmode, hgap]
          rw [hafter]
          refine ⟨hset, fun work hwork hid => ?_, fun hc => by cases hc⟩
          cases hwork
          have hid : id = conversationId := hid
          subst hid
          exact ⟨_, by rw [get_set, if_pos rfl], bootstrapped_readied id state, .inl ⟨gap, hgap, rfl⟩⟩
        | none =>
          have hafter : after = firstGap options host session ids
              { s with conversations := Maps.set s.conversations id (readied options host session id state) } := by
            show firstGap options host session (id :: ids) s = _
            simp only [firstGap, hget, if_pos hmode, hgap]
          obtain ⟨hsound, hwork, hno⟩ := firstGap_spec options hserves hstored ids _ hset
          rw [hafter]
          refine ⟨hsound, hwork, fun hnone hcases => hno hnone ?_⟩
          by_cases hid : id = conversationId
          · subst hid
            refine .inl (fun state' hstate' => ?_)
            rw [get_set, if_pos rfl] at hstate'
            cases hstate'
            exact ⟨bootstrapped_readied id state, hgap⟩
          · rcases hcases with hno | hmem
            · refine .inl (fun state' hstate' => ?_)
              rw [get_set, if_neg (Ne.symm hid)] at hstate'
              exact hno state' hstate'
            · exact .inr ((mem_cons.1 hmem).resolve_left (Ne.symm hid))
      · refine hskip (fun hid => ?_) (by
          show firstGap options host session (id :: ids) s = _
          simp only [firstGap, hget, if_neg hmode])
        rw [hid] at hget
        exact absurd (h.present state hget).mode hmode

/-- **What `_nextWork` finds.** -/
theorem nextWork_spec (options : BackfillOptions) (now : Int) (hserves : Serves u session conversationId stored host) (hstored : StoredOk u stored)
    (h : SessionSound u conversationId stored requested before s) :
    let after := nextWork options host now session s
    SessionSound u conversationId stored requested before after.1 ∧
      ∀ work, after.2 = some work → WorkFor conversationId after.1 work := by
  intro after
  have hspec := firstGap_spec options hserves hstored (s.order.filter (fun id =>
      (Maps.get s.conversations id).any (fun state => decide (state.nextAttemptAt ≤ now)))) s h
  cases hfirst : firstGap options host session (s.order.filter (fun id =>
      (Maps.get s.conversations id).any (fun state => decide (state.nextAttemptAt ≤ now)))) s with
  | mk s' found =>
    rw [hfirst] at hspec
    obtain ⟨hsound, hwork, hgap⟩ := hspec
    cases found with
    | some work =>
      have hafter : after = (s', some work) := by
        show nextWork options host now session s = _
        simp only [nextWork, hfirst]
      rw [hafter]
      exact ⟨hsound, hwork⟩
    | none =>
      have hafter : after = (s', ((s.order.filter (fun id =>
          (Maps.get s.conversations id).any (fun state => decide (state.nextAttemptAt ≤ now)))).find? (fun id =>
          (Maps.get s'.conversations id).any (fun state => !state.floorReached))).map .floor) := by
        show nextWork options host now session s = _
        simp only [nextWork, hfirst]
      rw [hafter]
      refine ⟨hsound, fun work hwork hid => ?_⟩
      obtain ⟨id, hfind, rfl⟩ := Option.map_eq_some_iff.1 hwork
      have hid : id = conversationId := hid
      subst hid
      have hopen := find?_some (p := fun id =>
        (Maps.get s'.conversations id).any (fun state => !state.floorReached)) hfind
      obtain ⟨state, hget, -⟩ := (Option.any_eq_true _ _).1 hopen
      obtain ⟨hb, hno⟩ := hgap rfl (.inr (mem_of_find?_eq_some hfind)) state hget
      exact ⟨state, hget, hb, .inr ⟨rfl, hno⟩⟩

/-- A request was made for the conversation: its number was not covered before, is less than those of the requests
before it, and everything from it up is covered now. -/
structure Requested (u : SequenceUpstream) (requested : List Int) (before : Int → Prop) (high : Int) : Prop where
  pos : 1 ≤ high
  le_top : high ≤ u.top
  missing : ¬ before high
  below : ∀ h ∈ requested, high < h

theorem Due.made {state : ConversationState} {high : Int} (hdue : Due u state high)
    (h : Sound u stored requested before state) : Requested u requested before high := by
  refine ⟨hdue.pos, hdue.le_top, fun hb => hdue.missing (h.kept high hb), fun y hy => ?_⟩
  by_contra hle
  exact hdue.missing (h.above y hy high (not_lt.1 hle) hdue.le_top)

/-- **What a piece of work leaves of a session.** -/
theorem run_spec (now : Int) (hserves : Serves u session conversationId stored host) (hpageSize : 1 ≤ options.pageSize)
    (hage : options.maxAgeDays ≤ 0) {work : Work} (hwork : WorkFor conversationId s work)
    (h : SessionSound u conversationId stored requested before s) :
    let after := run options host now session work s
    (SessionSound u conversationId stored requested before after.1 ∧
      ∀ request, after.2 = some request → request.conversationId ≠ conversationId) ∨
    ∃ high limit, after.2 = some ⟨session, conversationId, .beforeSequence high limit⟩ ∧
      Requested u requested before high ∧
      SessionSound u conversationId (stored ++ u.visible high limit) (high :: requested) before after.1 := by
  intro after
  by_cases hid : workConversation work = conversationId
  · obtain ⟨state, hget, hb, hkind⟩ := hwork hid
    have hsound := h.present state hget
    have hafter : after = ({ s with
        conversations := Maps.set s.conversations conversationId (runState options host now session work state).1
        requestsToday := s.requestsToday +
          (if (runState options host now session work state).2.isSome then 1 else 0) },
        (runState options host now session work state).2.map (fun query => ⟨session, conversationId, query⟩)) := by
      show run options host now session work s = _
      simp only [run, hid, hget]
    rcases hsound.runState hb hpageSize hage hserves now hid hkind with ⟨hnone, hstate⟩ | hsome
    · have hset := h.set conversationId _ (fun _ => hstate)
      rw [hafter, hnone]
      exact .inl ⟨⟨hset.absent, hset.present⟩, fun _ hc => by cases hc⟩
    · obtain ⟨high, limit, hquery, hdue, hstate⟩ := hsome
      rw [hafter, hquery]
      refine .inr ⟨high, limit, rfl, hdue.made hsound, fun hnone => ?_, fun state' hget' => ?_⟩
      · rw [get_set, if_pos rfl] at hnone
        cases hnone
      · rw [get_set, if_pos rfl] at hget'
        cases hget'
        exact hstate
  · left
    cases hget : Maps.get s.conversations (workConversation work) with
    | none =>
      have hafter : after = (s, none) := by
        show run options host now session work s = _
        simp only [run, hget]
      rw [hafter]
      exact ⟨h, fun _ hc => by cases hc⟩
    | some state =>
      have hset := h.set (workConversation work) (runState options host now session work state).1
        (fun hc => absurd hc hid)
      have hafter : after = ({ s with
          conversations := Maps.set s.conversations (workConversation work) (runState options host now session work state).1
          requestsToday := s.requestsToday +
            (if (runState options host now session work state).2.isSome then 1 else 0) },
          (runState options host now session work state).2.map
            (fun query => ⟨session, workConversation work, query⟩)) := by
        show run options host now session work s = _
        simp only [run, hget]
      rw [hafter]
      refine ⟨⟨hset.absent, hset.present⟩, fun request hrequest => ?_⟩
      obtain ⟨query, -, rfl⟩ := Option.map_eq_some_iff.1 hrequest
      exact hid

structure WorkerSound (u : SequenceUpstream) (session conversationId : String) (stored requested : List Int)
    (before : Int → Prop) (w : HistoryBackfillWorker) : Prop where
  absent : Maps.get w.sessions session = none → requested = [] ∧ ∀ x, ¬ before x
  present : ∀ s, Maps.get w.sessions session = some s → SessionSound u conversationId stored requested before s

variable {w : HistoryBackfillWorker}

theorem WorkerSound.set (h : WorkerSound u session conversationId stored requested before w) (id : String)
    (s : SessionState) (hs : id = session → SessionSound u conversationId stored requested before s) :
    WorkerSound u session conversationId stored requested before (w.setSession id s) := by
  refine ⟨fun hnone => ?_, fun s' hget => ?_⟩
  · unfold setSession at hnone
    rw [get_set] at hnone
    split at hnone
    · cases hnone
    · exact h.absent hnone
  · unfold setSession at hget
    rw [get_set] at hget
    split at hget
    · rename_i hid
      cases hget
      exact hs hid.symm
    · exact h.present s' hget

theorem WorkerSound.sessionAt (h : WorkerSound u session conversationId stored requested before w) (now : Int) :
    SessionSound u conversationId stored requested before (w.session session now) := by
  unfold HistoryBackfillWorker.session
  cases hget : Maps.get w.sessions session with
  | none =>
    refine ⟨fun _ => h.absent hget, fun state hstate => ?_⟩
    cases hstate
  | some s =>
    have hs := h.present s hget
    simp only
    split
    · exact ⟨hs.absent, hs.present⟩
    · exact hs

variable {request : BackfillRequest}

theorem platformSessionId_run {work : Work}
    (h : (run options host now session work s).2 = some request) : request.platformSessionId = session := by
  unfold run at h
  split at h
  · cases h
  · obtain ⟨query, -, rfl⟩ := Option.map_eq_some_iff.1 h
    rfl

/-- **What the turns of a tick do**: they send no request for the conversation, or one that was due. -/
theorem tickSessions_spec (hserves : Serves u session conversationId stored host) (hstored : StoredOk u stored)
    (hpageSize : 1 ≤ options.pageSize) (hage : options.maxAgeDays ≤ 0) :
    ∀ (turns : List (String × Nat)) (w : HistoryBackfillWorker),
      WorkerSound u session conversationId stored requested before w →
      let after := tickSessions options host now turns w
      (WorkerSound u session conversationId stored requested before after.1 ∧ ∀ request, after.2 = some request →
        ¬ (request.platformSessionId = session ∧ request.conversationId = conversationId)) ∨
      ∃ high limit, after.2 = some ⟨session, conversationId, .beforeSequence high limit⟩ ∧
        Requested u requested before high ∧
        WorkerSound u session conversationId (stored ++ u.visible high limit) (high :: requested) before after.1
  | [], w, h => .inl ⟨h, nofun⟩
  | (id, cursor) :: rest, w, h => by
    intro after
    have hafter : after = tickSessions options host now ((id, cursor) :: rest) w := rfl
    simp only [tickSessions] at hafter
    split at hafter
    · -- what the session is found to do, if it is this one
      have hfound := fun hid : id = session => nextWork_spec options now hserves hstored
        (SessionSound.refresh (hid ▸ h.sessionAt now) options now hserves)
      cases hnext : nextWork options host now id (refreshConversations options host now id (w.session id now)) with
      | mk s' found =>
        rw [hnext] at hafter
        cases found with
        | none =>
          rw [hafter]
          refine tickSessions_spec hserves hstored hpageSize hage rest _ (h.set id _ (fun hid => ?_))
          have := (hfound hid).1
          subst hid
          rwa [hnext] at this
        | some work =>
          have hafter : after = ({ w.setSession id (run options host now id work s').1 with cursor := cursor },
            (run options host now id work s').2) := hafter
          by_cases hid : id = session
          · obtain ⟨hsound, hwork⟩ := hfound hid
            subst hid
            rw [hnext] at hsound hwork
            rcases run_spec now hserves hpageSize hage (hwork work rfl) hsound with hother | hsent
            · have hset := h.set id _ (fun _ => hother.1)
              rw [hafter]
              exact .inl ⟨⟨hset.absent, hset.present⟩, fun request hrequest hc => hother.2 request hrequest hc.2⟩
            · obtain ⟨high, limit, hquery, hrequested, hset⟩ := hsent
              rw [hafter]
              refine .inr ⟨high, limit, hquery, hrequested, fun hnone => ?_, fun s hget => ?_⟩
              · simp [setSession] at hnone
              · have : (run options host now id work s').1 = s := by simpa [setSession] using hget
                rw [← this]
                exact hset
          · have hset := h.set id (run options host now id work s').1 (fun hc => absurd hc hid)
            rw [hafter]
            refine .inl ⟨⟨hset.absent, hset.present⟩, fun request hrequest hc => hid ?_⟩
            rw [← platformSessionId_run hrequest, hc.1]
    · rw [hafter]
      refine tickSessions_spec hserves hstored hpageSize hage rest _ (h.set id _ (fun hid => ?_))
      rw [hid]
      exact h.sessionAt now

theorem platformSessionId_tickSessions : ∀ {turns : List (String × Nat)}
    {w : HistoryBackfillWorker}, (tickSessions options host now turns w).2 = some request →
      request.platformSessionId ∈ turns.map Prod.fst
  | [], _, h => by cases h
  | (id, cursor) :: rest, w, h => by
    rw [map_cons]
    simp only [tickSessions] at h
    split at h
    · split at h
      · exact mem_cons_of_mem _ (platformSessionId_tickSessions h)
      · rw [platformSessionId_run h]
        exact mem_cons_self
    · exact mem_cons_of_mem _ (platformSessionId_tickSessions h)

theorem platformSessionId_tick (h : (w.tick options host now).2 = some request) :
    request.platformSessionId ∈ host.sessions := by
  obtain ⟨turn, hturn, hid⟩ := mem_map.1 (platformSessionId_tickSessions h)
  obtain ⟨offset, -, hoffset⟩ := mem_filterMap.1 hturn
  obtain ⟨id, hget, rfl⟩ := Option.map_eq_some_iff.1 hoffset
  rw [← hid]
  exact mem_of_getElem? hget

theorem get_forgetInactive (sessions : List String) (id : String) :
    Maps.get (w.forgetInactive sessions).sessions id = if id ∈ sessions then Maps.get w.sessions id else none := by
  refine (get_filter_keys (fun id => decide (id ∈ sessions)) id w.sessions).trans ?_
  by_cases h : id ∈ sessions
  · rw [if_pos h, if_pos (decide_eq_true h)]
  · rw [if_neg h, if_neg (by simp [h])]

theorem WorkerSound.weaken (h : WorkerSound u session conversationId stored requested before w) :
    WorkerSound u session conversationId stored requested (fun _ => False) w := by
  refine ⟨fun hnone => ⟨(h.absent hnone).1, fun _ => id⟩, fun ss hss => ⟨fun hnone => ?_, fun state hstate => ?_⟩⟩
  · exact ⟨((h.present ss hss).absent hnone).1, fun _ => id⟩
  · exact { (h.present ss hss).present state hstate with kept := fun _ => False.elim }

theorem WorkerSound.reset (h : WorkerSound u session conversationId stored requested before w) (id id' : String) :
    WorkerSound u session conversationId stored requested before (w.resetConversation id id') := by
  unfold resetConversation
  cases hget : Maps.get w.sessions id with
  | none => exact h
  | some s =>
    cases hstate : Maps.get s.conversations id' with
    | none =>
      simp only [hstate]
      exact h
    | some state =>
      simp only [hstate]
      refine h.set id _ (fun hid => (h.present s (hid ▸ hget)).set id' _ (fun hid' => ?_))
      have hsound := (h.present s (hid ▸ hget)).present state (hid' ▸ hstate)
      exact hsound.congr rfl rfl rfl rfl (fun hc => by cases hc) (fun _ => rfl)

end Sessions

/-! ## Whole runs -/

/-- A worker and what is stored of the conversation; `requested` are the numbers that requests were made for since the
worker has known the session, the last one first. -/
structure BackfillRun where
  worker : HistoryBackfillWorker
  stored : List Int
  requested : List Int

/-- A `tick` is answered by a host; `resetConversation` and `enabled` come from the settings page. -/
inductive BackfillEvent
  | tick (host : BackfillHost) (now : Int)
  | resetConversation (session conversationId : String)
  | enable (enabled : Bool)

namespace BackfillRun

variable (options : BackfillOptions) (u : SequenceUpstream) (session conversationId : String)

def start : BackfillRun := ⟨⟨true, [], 0⟩, u.stored, []⟩

def step (s : BackfillRun) : BackfillEvent → Option BackfillRun
  | .tick host now =>
    let (worker, request) := s.worker.tick options host now
    let requested := if session ∈ host.sessions then s.requested else []
    match request with
    | some ⟨platformSessionId, id, .beforeSequence high limit⟩ =>
      if platformSessionId = session ∧ id = conversationId then
        some ⟨worker, s.stored ++ u.visible high limit, high :: requested⟩
      else some { s with worker := worker, requested := requested }
    | _ => some { s with worker := worker, requested := requested }
  | .resetConversation platformSessionId id =>
    some { s with worker := s.worker.resetConversation platformSessionId id }
  | .enable enabled => some { s with worker := { s.worker with enabled := enabled } }

def Served (s : BackfillRun) : BackfillEvent → Prop
  | .tick host _ => Serves u session conversationId s.stored host
  | _ => True

def Covered (w : HistoryBackfillWorker) (x : Int) : Prop :=
  ∃ s state, Maps.get w.sessions session = some s ∧ Maps.get s.conversations conversationId = some state ∧
    state.coverage.Has x

/-- **What holds between the events of a run.** -/
structure Inv (s : BackfillRun) : Prop where
  worker : WorkerSound u session conversationId s.stored s.requested (fun _ => False) s.worker
  stored : StoredOk u s.stored
  descending : s.requested.Pairwise (· < ·)
  bounds : ∀ h ∈ s.requested, 1 ≤ h ∧ h ≤ u.top

variable {options u session conversationId} {s s' : BackfillRun} {host : BackfillHost}

theorem Inv.forget (h : Inv u session conversationId s) (sessions : List String) :
    WorkerSound u session conversationId s.stored (if session ∈ sessions then s.requested else [])
      (fun x => session ∈ sessions ∧ Covered session conversationId s.worker x) (s.worker.forgetInactive sessions) := by
  by_cases hin : session ∈ sessions
  · have hget : Maps.get (s.worker.forgetInactive sessions).sessions session = Maps.get s.worker.sessions session := by
      rw [get_forgetInactive, if_pos hin]
    rw [if_pos hin]
    refine ⟨fun hnone => ?_, fun ss hss => ?_⟩
    · rw [hget] at hnone
      refine ⟨(h.worker.absent hnone).1, fun x hx => ?_⟩
      obtain ⟨-, ss, state, hss, -⟩ := hx
      rw [hnone] at hss
      cases hss
    · rw [hget] at hss
      have hsound := h.worker.present ss hss
      refine ⟨fun hnone => ⟨(hsound.absent hnone).1, fun x hx => ?_⟩, fun state hstate => ?_⟩
      · obtain ⟨-, ss', state, hss', hstate, -⟩ := hx
        rw [hss] at hss'
        cases hss'
        rw [hnone] at hstate
        cases hstate
      · have hstateSound := hsound.present state hstate
        refine { hstateSound with kept := fun x hx => ?_ }
        obtain ⟨-, ss', state', hss', hstate', hcovered⟩ := hx
        rw [hss] at hss'
        cases hss'
        rw [hstate] at hstate'
        cases hstate'
        exact hcovered
  · have hget : Maps.get (s.worker.forgetInactive sessions).sessions session = none := by
      rw [get_forgetInactive, if_neg hin]
    rw [if_neg hin]
    refine ⟨fun _ => ⟨rfl, fun x hx => hin hx.1⟩, fun ss hss => ?_⟩
    rw [hget] at hss
    cases hss

/-- **What one tick does.** -/
theorem tick_spec (now : Int) (h : Inv u session conversationId s) (hserves : Serves u session conversationId s.stored host)
    (hpageSize : 1 ≤ options.pageSize) (hage : options.maxAgeDays ≤ 0) :
    let after := s.worker.tick options host now
    let requested := if session ∈ host.sessions then s.requested else []
    let before := fun x => session ∈ host.sessions ∧ Covered session conversationId s.worker x
    (WorkerSound u session conversationId s.stored requested before after.1 ∧ ∀ request, after.2 = some request →
      ¬ (request.platformSessionId = session ∧ request.conversationId = conversationId)) ∨
    ∃ high limit, after.2 = some ⟨session, conversationId, .beforeSequence high limit⟩ ∧
      Requested u requested before high ∧
      WorkerSound u session conversationId (s.stored ++ u.visible high limit) (high :: requested) before after.1 :=
  tickSessions_spec hserves h.stored hpageSize hage _ _ (h.forget host.sessions)

theorem storedOk_append (h : StoredOk u s.stored) {high : Int} (hle : high ≤ u.top) (limit : Int) :
    StoredOk u (s.stored ++ u.visible high limit) := by
  refine ⟨fun x hx => ?_, fun x hx => mem_append_left _ (h.2 x hx)⟩
  rcases mem_append.1 hx with hx | hx
  · exact h.1 x hx
  · obtain ⟨hle', hr⟩ := SequenceUpstream.records_of_mem_page (mem_filter.1 hx).1
    exact ⟨u.records_pos x hr, hle'.trans hle⟩

theorem Inv.step (hpageSize : 1 ≤ options.pageSize) (hage : options.maxAgeDays ≤ 0) {e : BackfillEvent}
    (h : Inv u session conversationId s) (hok : Served u session conversationId s e)
    (hstep : step options u session conversationId s e = some s') : Inv u session conversationId s' := by
  cases e with
  | tick host now =>
    have hrequested : ∀ y ∈ (if session ∈ host.sessions then s.requested else []), y ∈ s.requested := fun y hy => by
      split at hy
      · exact hy
      · cases hy
    have hdescending : (if session ∈ host.sessions then s.requested else []).Pairwise (· < ·) := by
      split
      · exact h.descending
      · exact List.Pairwise.nil
    rcases tick_spec now h hok hpageSize hage with ⟨hworker, hother⟩ | ⟨high, limit, hrequest, hmade, hworker⟩
    · have hs' : s' = { s with
          worker := (s.worker.tick options host now).1
          requested := if session ∈ host.sessions then s.requested else [] } := by
        simp only [BackfillRun.step] at hstep
        split at hstep
        · rename_i request platformSessionId id high limit hsome
          rw [if_neg (hother _ hsome)] at hstep
          cases hstep
          rfl
        · cases hstep
          rfl
      rw [hs']
      exact ⟨hworker.weaken, h.stored, hdescending, fun y hy => h.bounds y (hrequested y hy)⟩
    · have hs' : s' = ⟨(s.worker.tick options host now).1, s.stored ++ u.visible high limit,
          high :: if session ∈ host.sessions then s.requested else []⟩ := by
        simp only [BackfillRun.step, hrequest] at hstep
        rw [if_pos ⟨trivial, trivial⟩] at hstep
        cases hstep
        rfl
      rw [hs']
      refine ⟨hworker.weaken, storedOk_append h.stored hmade.le_top limit, pairwise_cons.2 ⟨hmade.below, hdescending⟩,
        fun y hy => ?_⟩
      rcases mem_cons.1 hy with rfl | hy
      · exact ⟨hmade.pos, hmade.le_top⟩
      · exact h.bounds y (hrequested y hy)
  | resetConversation platformSessionId id =>
    cases hstep
    exact ⟨h.worker.reset platformSessionId id, h.stored, h.descending, h.bounds⟩
  | enable enabled =>
    cases hstep
    exact ⟨⟨h.worker.absent, h.worker.present⟩, h.stored, h.descending, h.bounds⟩

theorem inv_start : Inv u session conversationId (start u) :=
  ⟨⟨fun _ => ⟨rfl, fun _ => id⟩, nofun⟩,
    ⟨fun x hx => ⟨(u.stored_ok x hx).1, SequenceUpstream.stored_le_top hx⟩, fun _ => id⟩, List.Pairwise.nil, nofun⟩

theorem inv_of_reachable (hpageSize : 1 ≤ options.pageSize) (hage : options.maxAgeDays ≤ 0)
    (h : Runs.Reachable (step options u session conversationId) (Served u session conversationId) (start u) s) :
    Inv u session conversationId s :=
  h.invariant inv_start (fun _ _ _ _ hinv hok hstep => hinv.step hpageSize hage hok hstep)

theorem length_le_of_bounds {l : List Int} {top : Int} (hl : l.Pairwise (· < ·)) (hb : ∀ x ∈ l, 1 ≤ x ∧ x ≤ top) :
    l.length ≤ top.toNat := by
  have hnodup : l.Nodup := hl.imp ne_of_lt
  have hsub : l.toFinset ⊆ Finset.Icc 1 top := fun x hx => Finset.mem_Icc.2 (hb x (mem_toFinset.1 hx))
  have hcard := Finset.card_le_card hsub
  rw [toFinset_card_of_nodup hnodup, Int.card_Icc] at hcard
  omega

/-- **Backfill by sequence number makes progress and is complete.**  In every state of a run, a tick that sends a request
for the conversation asks for a number of `[1, top]` that was not covered before and covers it, with everything above it;
the requests descend, and there are `top` of them at most; and where no gap is left and the floor is reached, every visible
record up to `top` is stored. -/
theorem backfill_progress_and_complete (hpageSize : 1 ≤ options.pageSize) (hage : options.maxAgeDays ≤ 0)
    (h : Runs.Reachable (step options u session conversationId) (Served u session conversationId) (start u) s) :
    (∀ host now, Serves u session conversationId s.stored host → ∀ request,
      (s.worker.tick options host now).2 = some request → request.platformSessionId = session →
      request.conversationId = conversationId → ∃ high limit, request.query = .beforeSequence high limit ∧
        1 ≤ high ∧ high ≤ u.top ∧ ¬ Covered session conversationId s.worker high ∧ (∀ y ∈ s.requested, high < y) ∧
        ∀ x, high ≤ x → x ≤ u.top → Covered session conversationId (s.worker.tick options host now).1 x) ∧
    s.requested.Pairwise (· < ·) ∧ s.requested.length ≤ u.top.toNat ∧
    ∀ ss state, Maps.get s.worker.sessions session = some ss → Maps.get ss.conversations conversationId = some state →
      state.coverage.highestGap state.upperSequence = none → state.floorReached = true →
      ∀ x, x ≤ u.top → u.records x = true → u.isHidden x = false → x ∈ s.stored := by
  have hinv := inv_of_reachable hpageSize hage h
  refine ⟨fun host now hserves request hrequest hsession hconversation => ?_, hinv.descending,
    length_le_of_bounds hinv.descending hinv.bounds, fun ss state hss hstate hgap hfloor x hx hr hv => ?_⟩
  · rcases tick_spec now hinv hserves hpageSize hage with ⟨-, hother⟩ | ⟨high, limit, hsome, hmade, hworker⟩
    · exact absurd ⟨hsession, hconversation⟩ (hother request hrequest)
    · have hin : session ∈ host.sessions := hsession ▸ platformSessionId_tick hrequest
      rw [hrequest] at hsome
      cases hsome
      rw [if_pos hin] at hmade hworker
      refine ⟨high, limit, rfl, hmade.pos, hmade.le_top, fun hc => hmade.missing ⟨hin, hc⟩, hmade.below, fun x hx htop => ?_⟩
      cases hss : Maps.get (s.worker.tick options host now).1.sessions session with
      | none => exact absurd (hworker.absent hss).1 (cons_ne_nil _ _)
      | some ss =>
        have hsound := hworker.present ss hss
        cases hstate : Maps.get ss.conversations conversationId with
        | none => exact absurd (hsound.absent hstate).1 (cons_ne_nil _ _)
        | some state =>
          exact ⟨ss, state, hss, hstate, (hsound.present state hstate).above high mem_cons_self x hx htop⟩
  · exact complete_of_sound ((hinv.worker.present ss hss).present state hstate) hfloor hgap hx hr hv

def hostOf (u : SequenceUpstream) (session conversationId : String) (stored : List Int) : BackfillHost :=
  { sessions := [session]
    lastActivityAt := fun _ => none
    supportsHistory := fun _ => true
    supportsSequenceHistory := fun _ => true
    listConversations := fun _ => [⟨conversationId, .group, false, u.upper⟩]
    nativeSequences := fun _ _ => stored
    oldestStoredMessage := fun _ _ => none
    backfill := fun _ _ query => match query with
      | .beforeSequence high limit =>
        .ok ⟨(u.visible high limit).length, (u.visible high limit).length, none, (u.page high limit).getLast?⟩
      | .before _ _ => .error "anchor" }

theorem serves_hostOf (stored : List Int) :
    Serves u session conversationId stored (hostOf u session conversationId stored) :=
  ⟨rfl, fun e he _ => by
      rw [mem_singleton.1 he]
      exact ⟨IMConversationKind.noConfusion, rfl⟩,
    fun _ => Iff.rfl, fun _ _ => ⟨_, rfl, rfl⟩⟩

def smallOptions (pageSize : Int) : BackfillOptions := ⟨60000, pageSize, 1000, 0, 600000, 5000⟩

def threeRecords : SequenceUpstream :=
  { records := fun x => 1 ≤ x ∧ x ≤ 3
    isHidden := fun x => x = 2
    upper := some 3
    stored := []
    records_pos := fun x hx => (of_decide_eq_true hx).1
    upper_ok := fun x hx => by
      cases hx
      decide
    stored_ok := nofun
    known := .inl (Option.some_ne_none 3) }

def ticked (options : BackfillOptions) (u : SequenceUpstream) (session conversationId : String) : BackfillRun :=
  (step options u session conversationId (start u) (.tick (hostOf u session conversationId u.stored) 0)).getD (start u)

theorem ticked_reachable (options : BackfillOptions) (u : SequenceUpstream) (session conversationId : String)
    (hsome : (step options u session conversationId (start u)
      (.tick (hostOf u session conversationId u.stored) 0)).isSome = true) :
    Runs.Reachable (step options u session conversationId) (Served u session conversationId) (start u)
      (ticked options u session conversationId) := by
  obtain ⟨s, hs⟩ := Option.isSome_iff_exists.1 hsome
  have hticked : ticked options u session conversationId = s := by
    unfold ticked
    rw [hs]
    rfl
  rw [hticked]
  have hserves : Served u session conversationId (start u) (.tick (hostOf u session conversationId u.stored) 0) :=
    serves_hostOf u.stored
  exact .tail .init hserves hs

theorem threeRecords_complete :
    1 ∈ (ticked (smallOptions 50) threeRecords "qq" "room").stored ∧
      3 ∈ (ticked (smallOptions 50) threeRecords "qq" "room").stored := by
  have hcomplete := (backfill_progress_and_complete (by decide) (by decide)
    (ticked_reachable (smallOptions 50) threeRecords "qq" "room" rfl)).2.2.2 _ _ rfl rfl (by decide) (by decide)
  exact ⟨hcomplete 1 (by decide) rfl rfl, hcomplete 3 (by decide) rfl rfl⟩

def staleList : SequenceUpstream :=
  { threeRecords with
    upper := some 1
    stored := [3]
    upper_ok := fun x hx => by
      cases hx
      decide
    stored_ok := fun x hx => by
      rw [List.mem_singleton.1 hx]
      decide
    known := .inl (Option.some_ne_none 1) }

/-- **The upper sequence alone bounds nothing**: with a stored number past it, a request may cover none of `[1, upper]`. -/
theorem request_past_upper :
    ¬ ∀ (u : SequenceUpstream) (upper : Int), u.upper = some upper → ∀ (options : BackfillOptions), 1 ≤ options.pageSize →
      options.maxAgeDays ≤ 0 → ∀ s, Runs.Reachable (step options u "qq" "room") (Served u "qq" "room") (start u) s →
      ∀ host now, Serves u "qq" "room" s.stored host → ∀ request, (s.worker.tick options host now).2 = some request →
      request.platformSessionId = "qq" → request.conversationId = "room" →
      ∃ x, 1 ≤ x ∧ x ≤ upper ∧ ¬ Covered "qq" "room" s.worker x ∧
        Covered "qq" "room" (s.worker.tick options host now).1 x := by
  intro h
  obtain ⟨x, hpos, hle, -, ss, state, hss, hstate, hcovered⟩ := h staleList 1 rfl (smallOptions 1) (by decide) (by decide)
    (start staleList) .init (hostOf staleList "qq" "room" [3]) 0 (serves_hostOf [3]) _ rfl rfl rfl
  have hone : x = 1 := by omega
  subst hone
  cases hss
  cases hstate
  exact absurd hcovered (by decide)

end BackfillRun

end Crossgram
