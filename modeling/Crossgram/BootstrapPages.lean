import Mathlib.Data.Finset.Max
import Crossgram.HistoryBackfillProgress
/-!
# BootstrapPages — which stored sequence numbers are read back (packages/history-backfill/src/worker.ts, `_bootstrap`)

The store takes the greatest rows below a bound, at most a batch of them, and leaves out repeated numbers; the worker
takes a page shorter than a batch for the last one.  So a page whose rows repeat a number ends the loop.  Every number
is read exactly when the repetitions fit: cut the numbers, from the greatest, into blocks of a batch; above each number
its own block has fewer rows than a batch.
-/
namespace Crossgram

open List

/-! ## Pages -/

/-- The loop of `_bootstrap` from a bound on comes to its end with these numbers. -/
inductive PagesEnd (rows : List Int) (batch : Nat) : Option Int → List Int → Prop
  | short {below : Option Int} (hshort : (readNativeSequences rows below batch).length < batch) :
      PagesEnd rows batch below (readNativeSequences rows below batch)
  | stuck {below : Option Int} {next bound : Int} (hlast : (readNativeSequences rows below batch).getLast? = some next)
      (hbelow : below = some bound) (hle : bound ≤ next) : PagesEnd rows batch below (readNativeSequences rows below batch)
  | more {below : Option Int} {next : Int} {rest : List Int}
      (hfull : batch ≤ (readNativeSequences rows below batch).length)
      (hlast : (readNativeSequences rows below batch).getLast? = some next) (hlt : ∀ bound ∈ below, next < bound)
      (hrest : PagesEnd rows batch (some next) rest) :
      PagesEnd rows batch below (readNativeSequences rows below batch ++ rest)

def storedPage (batch : Nat) (rows : List Int) : List Int :=
  withoutRepeats (Windows.window (fun left right => right ≤ left) batch rows)

theorem readNativeSequences_eq {rows : List Int} {below : Option Int} {batch : Nat} (h1 : 1 ≤ batch) (h2 : batch ≤ 10000) :
    readNativeSequences rows below batch = storedPage batch (rowsBelow rows below) := by
  have hlimit : max 1 (min batch 10000) = batch := by omega
  unfold readNativeSequences
  rw [hlimit]
  rfl

theorem length_withoutRepeats_le : ∀ l : List Int, (withoutRepeats l).length ≤ l.length
  | []          => le_rfl
  | [_]         => le_rfl
  | a :: b :: l => by
    have ih := length_withoutRepeats_le (b :: l)
    unfold withoutRepeats
    split
    · exact ih.trans (Nat.le_succ _)
    · exact Nat.succ_le_succ ih

theorem pairwise_withoutRepeats : ∀ {l : List Int}, l.Pairwise (fun a b => b ≤ a) →
    (withoutRepeats l).Pairwise (fun a b => b < a)
  | [],          _ => List.Pairwise.nil
  | [a],         _ => pairwise_singleton _ a
  | a :: b :: l, h => by
    obtain ⟨hle, hrest⟩ := pairwise_cons.1 h
    have ih := pairwise_withoutRepeats hrest
    unfold withoutRepeats
    split
    · exact ih
    · rename_i hne
      refine pairwise_cons.2 ⟨fun x hx => ?_, ih⟩
      have hab : b < a := lt_of_le_of_ne (hle b mem_cons_self) (Ne.symm hne)
      rcases mem_cons.1 (mem_withoutRepeats.1 hx) with rfl | hx
      · exact hab
      · exact (rel_of_pairwise_cons hrest hx).trans_lt hab

section Page

variable {batch : Nat} {rows : List Int} {x next : Int}

instance latestFirst_total : Std.Total (fun left right : Int => right ≤ left) := ⟨fun a b => le_total b a⟩

instance latestFirst_trans : IsTrans Int (fun left right : Int => right ≤ left) := ⟨fun _ _ _ hab hbc => le_trans hbc hab⟩

theorem mem_storedPage : x ∈ storedPage batch rows ↔ x ∈ Windows.window (fun left right => right ≤ left) batch rows :=
  mem_withoutRepeats

theorem mem_of_mem_storedPage (h : x ∈ storedPage batch rows) : x ∈ rows := Windows.mem_of_mem_window (mem_storedPage.1 h)

theorem pairwise_storedPage : (storedPage batch rows).Pairwise (fun a b => b < a) :=
  pairwise_withoutRepeats (Windows.pairwise_window _ _)

theorem pairwise_bootstrapPages : ∀ {fuel : Nat} {below : Option Int},
    (bootstrapPages rows batch fuel below).Pairwise (fun a b => b < a) ∧
      ∀ x ∈ bootstrapPages rows batch fuel below, ∀ b ∈ below, x < b
  | 0, _ => ⟨.nil, nofun⟩
  | fuel + 1, below => by
    have hpage : (readNativeSequences rows below batch).Pairwise (fun a b => b < a) ∧
        ∀ x ∈ readNativeSequences rows below batch, ∀ b ∈ below, x < b :=
      ⟨pairwise_storedPage, fun _ hx => (mem_of_mem_readNativeSequences hx).2.2⟩
    rw [bootstrapPages]
    split
    · exact hpage
    split
    · exact hpage
    split
    · exact hpage
    rename_i next hnext _
    obtain ⟨hrest, hless⟩ := @pairwise_bootstrapPages fuel (some next)
    obtain ⟨page, heq⟩ := getLast?_eq_some_iff.1 hnext
    rw [heq] at hpage ⊢
    refine ⟨pairwise_append.2 ⟨hpage.1, hrest, fun a ha b hb => ?_⟩, fun x hx b hb => ?_⟩
    · rcases mem_append.1 ha with ha | ha
      · exact (hless b hb next rfl).trans ((pairwise_append.1 hpage.1).2.2 a ha next mem_cons_self)
      · exact mem_singleton.1 ha ▸ hless b hb next rfl
    · rcases mem_append.1 hx with hx | hx
      · exact hpage.2 x hx b hb
      · exact (hless x hx next rfl).trans (hpage.2 next (by simp) b hb)

/-- **The bootstrap ends**, whatever is stored and in whatever batches, and reads no number twice. -/
theorem bootstrapPages_descend (rows : List Int) (n : Nat) : ∀ rounds : Nat,
    bootstrapPages rows (n + 1) (rows.length + 1 + rounds) none = bootstrapPages rows (n + 1) (rows.length + 1) none ∧
      (bootstrapPages rows (n + 1) (rows.length + 1) none).Pairwise (fun a b => b < a)
  | 0          => ⟨rfl, pairwise_bootstrapPages.1⟩
  | rounds + 1 => by
    have hlength : (rowsBelow rows none).length ≤ rows.length := length_filter_le _ _
    obtain ⟨hends, hpairwise⟩ := bootstrapPages_descend rows n rounds
    exact ⟨by rw [← Nat.add_assoc, bootstrapPages_ends (by omega), hends], hpairwise⟩

theorem length_storedPage_le : (storedPage batch rows).length ≤ batch :=
  (length_withoutRepeats_le _).trans (Windows.length_window_le _ _)

theorem few_above_of_mem (h : x ∈ storedPage batch rows) : (rows.filter (fun row => x < row)).length < batch := by
  have hfew := Windows.few_of_mem_window (mem_storedPage.1 h)
  have hfilter : rows.filter (fun row => ¬row ≤ x) = rows.filter (fun row => x < row) :=
    filter_congr (fun row _ => by simp)
  rw [← hfilter]
  exact hfew

theorem many_above_of_notMem (hx : x ∈ rows) (hout : x ∉ storedPage batch rows) :
    batch ≤ (rows.filter (fun row => x < row)).length ∧ ∀ y ∈ storedPage batch rows, x < y := by
  obtain ⟨hfull, hleft⟩ := Windows.window_left_out hx (fun hc => hout (mem_storedPage.2 hc))
  have habove : ∀ y ∈ Windows.window (fun left right : Int => right ≤ left) batch rows, x < y := fun y hy =>
    lt_of_le_of_ne (hleft y hy) (fun he => hout (mem_storedPage.2 (he ▸ hy)))
  refine ⟨?_, fun y hy => habove y (mem_storedPage.1 hy)⟩
  have hall : (Windows.window (fun left right : Int => right ≤ left) batch rows).filter (fun row => x < row) =
      Windows.window (fun left right : Int => right ≤ left) batch rows :=
    filter_eq_self.2 (fun y hy => decide_eq_true (habove y hy))
  have hsub := (Windows.window_sublist (fun left right : Int => right ≤ left) batch rows).filter (fun row => x < row)
  rw [hall] at hsub
  have hperm := ((perm_insertionSort (fun left right : Int => right ≤ left) rows).filter (fun row => x < row)).length_eq
  have := hsub.length_le
  omega

/-! ## Blocks -/

def above (rows : List Int) (x : Int) : Nat := (rows.toFinset.filter (fun row => x < row)).card

def block (batch : Nat) (rows : List Int) (x : Int) : Nat := above rows x / batch

/-- Above each number its own block has fewer rows than a batch. -/
def BlocksFit (batch : Nat) (rows : List Int) : Prop :=
  ∀ x ∈ rows, (rows.filter (fun row => x < row ∧ block batch rows row = block batch rows x)).length < batch

instance (batch : Nat) (rows : List Int) : Decidable (BlocksFit batch rows) :=
  inferInstanceAs (Decidable (∀ x ∈ rows, _))

theorem above_le_of_lt {y : Int} (h : x < y) : above rows y ≤ above rows x :=
  Finset.card_le_card (Finset.monotone_filter_right _ (fun _ _ hrow => h.trans hrow))

theorem above_le_length (h : ∀ y ∈ rows, x < y → y ∈ storedPage batch rows) : above rows x ≤ (storedPage batch rows).length := by
  have hsub : rows.toFinset.filter (fun row => x < row) ⊆ (storedPage batch rows).toFinset := fun y hy => by
    obtain ⟨hmem, hlt⟩ := Finset.mem_filter.1 hy
    exact mem_toFinset.2 (h y (mem_toFinset.1 hmem) hlt)
  exact (Finset.card_le_card hsub).trans (toFinset_card_le _)

theorem rows_above_of_block_zero (h : block batch rows x = 0) (hb : 1 ≤ batch) :
    rows.filter (fun row => x < row ∧ block batch rows row = block batch rows x) = rows.filter (fun row => x < row) := by
  refine filter_congr (fun row _ => ?_)
  by_cases hlt : x < row
  · have hzero : block batch rows row = 0 := by
      have hx := (Nat.div_eq_zero_iff_lt hb).1 h
      exact (Nat.div_eq_zero_iff_lt hb).2 ((above_le_of_lt hlt).trans_lt hx)
    simp [hlt, hzero, h]
  · simp [hlt]

/-- **A page shorter than a batch** has all the rows exactly when they fit. -/
theorem fit_of_short (hb : 1 ≤ batch) (hshort : (storedPage batch rows).length < batch) :
    (∀ x ∈ rows, x ∈ storedPage batch rows) ↔ BlocksFit batch rows := by
  constructor
  · intro hall x hx
    have hzero : block batch rows x = 0 :=
      (Nat.div_eq_zero_iff_lt hb).2 ((above_le_length (fun y hy _ => hall y hy)).trans_lt hshort)
    rw [rows_above_of_block_zero hzero hb]
    exact few_above_of_mem (hall x hx)
  · intro hfit
    -- the greatest number that was left out would have all the rows of the page in its block
    by_contra hout
    simp only [not_forall] at hout
    obtain ⟨x, hx, hgreatest⟩ := (rows.toFinset.filter (fun row => row ∉ storedPage batch rows)).exists_max_image id
      (by obtain ⟨x, hx, hxo⟩ := hout
          exact ⟨x, Finset.mem_filter.2 ⟨mem_toFinset.2 hx, hxo⟩⟩)
    obtain ⟨hmem, hxo⟩ := Finset.mem_filter.1 hx
    have hmem : x ∈ rows := mem_toFinset.1 hmem
    have hread : ∀ y ∈ rows, x < y → y ∈ storedPage batch rows := fun y hy hlt => by
      by_contra hyo
      have := hgreatest y (Finset.mem_filter.2 ⟨mem_toFinset.2 hy, hyo⟩)
      exact absurd hlt (not_lt.2 this)
    have hzero : block batch rows x = 0 := (Nat.div_eq_zero_iff_lt hb).2 ((above_le_length hread).trans_lt hshort)
    have hfew := hfit x hmem
    rw [rows_above_of_block_zero hzero hb] at hfew
    have := (many_above_of_notMem hmem hxo).1
    omega

theorem le_of_mem_storedPage (hlast : (storedPage batch rows).getLast? = some next) (hx : x ∈ storedPage batch rows) :
    next ≤ x := by
  obtain ⟨before, heq⟩ := getLast?_eq_some_iff.1 hlast
  have hpair : (storedPage batch rows).Pairwise (fun a b => b < a) := pairwise_storedPage
  rw [heq] at hpair hx
  rcases mem_append.1 hx with hx | hx
  · exact ((pairwise_append.1 hpair).2.2 x hx next (by simp)).le
  · rw [mem_singleton.1 hx]

theorem mem_storedPage_of_le (hlast : (storedPage batch rows).getLast? = some next) (hx : x ∈ rows) (hle : next ≤ x) :
    x ∈ storedPage batch rows := by
  by_contra hout
  have := (many_above_of_notMem hx hout).2 next (mem_of_getLast? hlast)
  omega

theorem above_below_page (hfull : batch ≤ (storedPage batch rows).length)
    (hlast : (storedPage batch rows).getLast? = some next) (hlt : x < next) :
    above rows x = above (rows.filter (fun row => row < next)) x + batch := by
  have hlength : (storedPage batch rows).length = batch := le_antisymm length_storedPage_le hfull
  have hnodup : (storedPage batch rows).Nodup := pairwise_storedPage.imp (fun h => ne_of_gt h)
  have hpage : rows.toFinset.filter (fun row => next ≤ row) = (storedPage batch rows).toFinset := by
    ext y
    rw [Finset.mem_filter, mem_toFinset, mem_toFinset]
    exact ⟨fun h => mem_storedPage_of_le hlast h.1 h.2, fun h => ⟨mem_of_mem_storedPage h, le_of_mem_storedPage hlast h⟩⟩
  have hsplit : rows.toFinset.filter (fun row => x < row) =
      (rows.filter (fun row => row < next)).toFinset.filter (fun row => x < row) ∪ (storedPage batch rows).toFinset := by
    rw [← hpage]
    ext y
    simp only [Finset.mem_filter, Finset.mem_union, mem_toFinset, mem_filter, decide_eq_true_eq]
    constructor
    · rintro ⟨hmem, hxy⟩
      rcases lt_or_ge y next with hy | hy
      · exact .inl ⟨⟨hmem, hy⟩, hxy⟩
      · exact .inr ⟨hmem, hy⟩
    · rintro (⟨⟨hmem, -⟩, hxy⟩ | ⟨hmem, hy⟩)
      · exact ⟨hmem, hxy⟩
      · exact ⟨hmem, hlt.trans_le hy⟩
  have hdisjoint : Disjoint ((rows.filter (fun row => row < next)).toFinset.filter (fun row => x < row))
      (storedPage batch rows).toFinset := by
    refine Finset.disjoint_left.2 (fun y hy hpage => ?_)
    have hbelow : y < next := by simpa using (mem_filter.1 (mem_toFinset.1 (Finset.mem_filter.1 hy).1)).2
    have := le_of_mem_storedPage hlast (mem_toFinset.1 hpage)
    omega
  unfold above
  rw [hsplit, Finset.card_union_of_disjoint hdisjoint, toFinset_card_of_nodup hnodup, hlength]

/-- **A full page** is a block: the rows fit exactly when the rows below it do. -/
theorem fit_of_full (hb : 1 ≤ batch) (hfull : batch ≤ (storedPage batch rows).length)
    (hlast : (storedPage batch rows).getLast? = some next) :
    BlocksFit batch rows ↔ BlocksFit batch (rows.filter (fun row => row < next)) := by
  have hlength : (storedPage batch rows).length = batch := le_antisymm length_storedPage_le hfull
  -- what is at or above the least number of the page is in the first block
  have hzero : ∀ y, next ≤ y → block batch rows y = 0 := fun y hy => by
    refine (Nat.div_eq_zero_iff_lt hb).2 ?_
    have hsub : rows.toFinset.filter (fun row => y < row) ⊆ (storedPage batch rows).toFinset.erase next := fun z hz => by
      obtain ⟨hmem, hlt⟩ := Finset.mem_filter.1 hz
      have hmem : z ∈ rows := mem_toFinset.1 hmem
      exact Finset.mem_erase.2 ⟨by omega, mem_toFinset.2 (mem_storedPage_of_le hlast hmem (by omega))⟩
    have hmem : next ∈ (storedPage batch rows).toFinset := mem_toFinset.2 (mem_of_getLast? hlast)
    have hcard := Finset.card_le_card hsub
    rw [Finset.card_erase_of_mem hmem] at hcard
    have := toFinset_card_le (storedPage batch rows)
    show above rows y < batch
    unfold above
    omega
  have hsucc : ∀ y, y < next → block batch rows y = block batch (rows.filter (fun row => row < next)) y + 1 := fun y hy => by
    unfold block
    rw [above_below_page hfull hlast hy, Nat.add_div_right _ hb]
  have hsame : ∀ x, x < next →
      rows.filter (fun row => x < row ∧ block batch rows row = block batch rows x) =
        (rows.filter (fun row => row < next)).filter (fun row => x < row ∧
          block batch (rows.filter (fun row => row < next)) row = block batch (rows.filter (fun row => row < next)) x) := by
    intro x hx
    rw [filter_filter]
    refine filter_congr (fun row _ => ?_)
    by_cases hrow : row < next
    · simp [hrow, hsucc row hrow, hsucc x hx]
    · simp [hrow, hzero row (by omega), hsucc x hx]
  constructor
  · intro hfit x hx
    obtain ⟨hmem, hlt⟩ := mem_filter.1 hx
    have hlt : x < next := of_decide_eq_true hlt
    rw [← hsame x hlt]
    exact hfit x hmem
  · intro hfit x hx
    rcases lt_or_ge x next with hlt | hle
    · rw [hsame x hlt]
      exact hfit x (mem_filter.2 ⟨hx, decide_eq_true hlt⟩)
    · rw [rows_above_of_block_zero (hzero x hle) hb]
      exact few_above_of_mem (mem_storedPage_of_le hlast hx hle)

end Page

/-! ## The loop -/

/-- **What the loop reads**, from a bound on: it ends, with all the rows below the bound exactly when they fit. -/
theorem bootstrapPages_iff {rows : List Int} {batch : Nat} (h1 : 1 ≤ batch) (h2 : batch ≤ 10000) :
    ∀ {fuel : Nat} {below : Option Int}, (rowsBelow rows below).length < fuel →
      PagesEnd rows batch below (bootstrapPages rows batch fuel below) ∧
        ((∀ x ∈ rowsBelow rows below, x ∈ bootstrapPages rows batch fuel below) ↔ BlocksFit batch (rowsBelow rows below))
  | 0,        _,     h => by cases h
  | fuel + 1, below, h => by
    have hpage : readNativeSequences rows below batch = storedPage batch (rowsBelow rows below) :=
      readNativeSequences_eq h1 h2
    rw [bootstrapPages]
    by_cases hshort : (readNativeSequences rows below batch).length < batch
    · rw [if_pos hshort]
      refine ⟨.short hshort, ?_⟩
      rw [hpage] at hshort ⊢
      exact fit_of_short h1 hshort
    · rw [if_neg hshort]
      have hfull : batch ≤ (readNativeSequences rows below batch).length := not_lt.1 hshort
      cases hlast : (readNativeSequences rows below batch).getLast? with
      | none =>
        rw [getLast?_eq_none_iff] at hlast
        rw [hlast] at hfull
        exact absurd hfull (Nat.not_le.2 h1)
      | some next =>
        have hmem : next ∈ readNativeSequences rows below batch := mem_of_getLast? hlast
        have hbelow : ∀ bound ∈ below, next < bound := (mem_of_mem_readNativeSequences hmem).2.2
        have hgo : below.any (fun below => decide (below ≤ next)) = false := by
          cases below with
          | none => rfl
          | some bound => simpa using hbelow bound rfl
        have hlt := length_rowsBelow_lt (mem_rowsBelow hmem)
        obtain ⟨hends, hiff⟩ := @bootstrapPages_iff rows batch h1 h2 fuel (some next) (by omega)
        dsimp only
        rw [hgo, if_neg Bool.false_ne_true]
        refine ⟨.more hfull hlast hbelow hends, ?_⟩
        rw [hpage] at hfull hlast
        rw [rowsBelow_next (mem_rowsBelow hmem)] at hiff
        rw [fit_of_full h1 hfull hlast, ← hiff, hpage]
        constructor
        · intro hall x hx
          obtain ⟨hxr, hxn⟩ := mem_filter.1 hx
          have hxn : x < next := of_decide_eq_true hxn
          rcases mem_append.1 (hall x hxr) with hxp | hxp
          · have := le_of_mem_storedPage hlast hxp
            omega
          · exact hxp
        · intro hall x hx
          rcases lt_or_ge x next with hxn | hxn
          · exact mem_append_right _ (hall x (mem_filter.2 ⟨hx, decide_eq_true hxn⟩))
          · exact mem_append_left _ (mem_storedPage_of_le hlast hx hxn)

/-! ## The bootstrap of a fresh conversation -/

def numberedRows (parts : List (Option Int)) : List Int := parts.filterMap id

def storedNumbers (parts : List (Option Int)) : List Int := (numberedRows parts).filter (fun row => 0 < row)

/-- The loop ends, and the coverage of a fresh state is the set of the positive numbers stored. -/
def ReadsBack (parts : List (Option Int)) (batch : Nat) : Prop :=
  PagesEnd (numberedRows parts) batch none
      (bootstrapPages (numberedRows parts) batch ((numberedRows parts).length + 1) none) ∧
    ∀ mode x, ((ConversationState.init mode).bootstrap (numberedRows parts) batch).coverage.Has x ↔
      some x ∈ parts ∧ 0 < x

theorem mem_storedNumbers {parts : List (Option Int)} {x : Int} : x ∈ storedNumbers parts ↔ some x ∈ parts ∧ 0 < x := by
  unfold storedNumbers numberedRows
  rw [mem_filter, decide_eq_true_eq, mem_filterMap]
  simp

theorem coverage_bootstrap_init (mode : BackfillMode) (rows : List Int) (batch : Nat) :
    ((ConversationState.init mode).bootstrap rows batch).coverage =
      SequenceCoverage.fromSequences (bootstrapPages rows batch (rows.length + 1) none) := rfl

/-- **The bootstrap reads back what is stored exactly when the repeated numbers fit** and the numbers are safe ones. -/
theorem bootstrap_readsBack_iff {parts : List (Option Int)} {batch : Nat} (h1 : 1 ≤ batch) (h2 : batch ≤ 10000) :
    ReadsBack parts batch ↔
      BlocksFit batch (storedNumbers parts) ∧ ∀ x ∈ storedNumbers parts, isSafeInteger x = true := by
  have hstored : rowsBelow (numberedRows parts) none = storedNumbers parts := by
    unfold rowsBelow storedNumbers
    refine filter_congr (fun row _ => ?_)
    simp
  have hlength : (rowsBelow (numberedRows parts) none).length < (numberedRows parts).length + 1 :=
    Nat.lt_succ_of_le (length_filter_le _ _)
  obtain ⟨hends, hiff⟩ := bootstrapPages_iff h1 h2 hlength
  rw [hstored] at hiff
  rw [← hiff]
  constructor
  · rintro ⟨-, hhas⟩
    refine ⟨fun x hx => ?_, fun x hx => ?_⟩
    · have hx := (hhas .sequence x).2 (mem_storedNumbers.1 hx)
      rw [coverage_bootstrap_init, SequenceCoverage.has_fromSequences] at hx
      exact hx.1
    · have hx := (hhas .sequence x).2 (mem_storedNumbers.1 hx)
      rw [coverage_bootstrap_init, SequenceCoverage.has_fromSequences] at hx
      exact hx.2.1
  · rintro ⟨hall, hsafe⟩
    refine ⟨hends, fun mode x => ?_⟩
    rw [coverage_bootstrap_init, SequenceCoverage.has_fromSequences, ← mem_storedNumbers]
    constructor
    · rintro ⟨hx, -, hpos⟩
      exact mem_storedNumbers.2 ⟨by simpa [numberedRows] using (mem_of_mem_bootstrapPages hx).1, hpos⟩
    · intro hx
      exact ⟨hall x hx, hsafe x hx, (mem_storedNumbers.1 hx).2⟩

theorem bootstrap_readsBack_album : ReadsBack [some 5, some 4, some 4, none, some 0, some 3] 2 :=
  (bootstrap_readsBack_iff (by decide) (by decide)).2 ⟨by decide, by decide⟩

/-- **An album at the start of a page hides what is older.** -/
theorem bootstrap_misses : ¬∀ (parts : List (Option Int)) (batch : Nat), 1 ≤ batch → batch ≤ 10000 →
    ReadsBack parts batch := by
  intro hall
  have hhas := ((hall [some 5, some 5, some 3] 2 (by decide) (by decide)).2 .sequence 3).2 (by decide)
  exact absurd hhas (by decide)

end Crossgram
