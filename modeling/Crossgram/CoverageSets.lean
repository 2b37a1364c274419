import Crossgram.HistoryCoverage
import Crossgram.Lib.Doubles
import Crossgram.Lib.SpanRuns
/-!
# CoverageSets — the coverage is the set of what was added (packages/history-backfill/src/coverage.ts)

The spans after any calls of `add` are the longest runs of the numbers the calls name, so the order of the calls does
not show.  `highestGap` and `gapStats` speak of the longest runs of what is missing.  `covered` adds up doubles, and is
the size of the set as long as the sums stay exact.
-/
namespace Crossgram
namespace SequenceCoverage

open List
open Spans (Span Ordered Covers IsRun)

structure GapStats where
  count : Nat
  missing : Int

variable (c : SequenceCoverage)

/-- `covered`: every sum is a double. -/
def covered : Int :=
  c.spans.foldl (fun sum span => Doubles.round (Doubles.round (Doubles.round (sum + span.stop) - span.start) + 1)) 0

/-- The loop of `gapStats` over the spans, the one before at hand. -/
def countGaps : GapStats → List Span → GapStats
  | stats, lower :: upper :: spans =>
    let width := upper.start - lower.stop - 1
    countGaps (if 0 < width then ⟨stats.count + 1, stats.missing + width⟩ else stats) (upper :: spans)
  | stats, _ => stats

def gapStats (upperBound : Option Int) : GapStats :=
  let between := countGaps ⟨0, 0⟩ c.spans
  match upperBound, c.max with
  | some upperBound, some top =>
    if top < upperBound then ⟨between.count + 1, between.missing + (upperBound - top)⟩ else between
  | _, _ => between

/-- The bounds of a call of `add`. -/
structure AddCall where
  low : Int
  high : Int

def AddCall.Adds (call : AddCall) (sequence : Int) : Prop :=
  isSafeInteger call.low = true ∧ isSafeInteger call.high = true ∧
    Min.min call.low call.high ≤ sequence ∧ sequence ≤ Max.max call.low call.high

instance (call : AddCall) (sequence : Int) : Decidable (call.Adds sequence) := inferInstanceAs (Decidable (_ ∧ _))

def addAll (calls : List AddCall) : SequenceCoverage := calls.foldl (fun c call => c.add call.low call.high) c

/-! ## Sets of numbers -/

def missingNumbers (S : Set Int) (upperBound : Option Int) : Set Int :=
  {x | 1 ≤ x ∧ ((∃ upper ∈ upperBound, x ≤ upper) ∨ ∃ y ∈ S, x ≤ y) ∧ x ∉ S ∧ (S = ∅ ∨ ∃ y ∈ S, y < x)}

structure IsSetOf (c : SequenceCoverage) (S : Set Int) : Prop where
  ordered : Ordered c.spans
  positive : ∀ span ∈ c.spans, 1 ≤ span.start
  has_iff : ∀ n, c.Has n ↔ n ∈ S
  min_eq : ∀ n, c.min = some n ↔ IsLeast S n
  max_eq : ∀ n, c.max = some n ↔ IsGreatest S n
  covered_eq : (∀ n ∈ S, n + S.ncard ≤ 2 ^ 53) → c.covered = S.ncard
  highestGap_eq : ∀ upperBound, (∀ upper ∈ upperBound, isSafeInteger upper = true) → ∀ gap,
    c.highestGap upperBound = some gap ↔
      IsRun (missingNumbers S upperBound) ⟨gap.low, gap.high⟩ ∧ IsGreatest (missingNumbers S upperBound) gap.high
  highestGap_none : ∀ upperBound, (∀ upper ∈ upperBound, isSafeInteger upper = true) →
    (c.highestGap upperBound = none ↔ missingNumbers S upperBound = ∅)
  gapStats_eq : S.Nonempty → ∀ upperBound, (∀ upper ∈ upperBound, isSafeInteger upper = true) →
    (c.gapStats upperBound).count = {run | IsRun (missingNumbers S upperBound) run}.ncard ∧
      (c.gapStats upperBound).missing = (missingNumbers S upperBound).ncard

/-! ## The numbers of a coverage -/

variable {c} {x : Int}

/-- **What one call adds.** -/
theorem has_add_iff {low high : Int} : (c.add low high).Has x ↔ c.Has x ∨ (0 < x ∧ AddCall.Adds ⟨low, high⟩ x) := by
  unfold add AddCall.Adds
  by_cases hsafe : isSafeInteger low = true ∧ isSafeInteger high = true
  · rw [if_neg (not_not_intro hsafe)]
    by_cases hpos : Max.max low high < 1
    · rw [dif_pos hpos]
      refine (or_iff_left ?_).symm
      rintro ⟨hx, -, -, -, hle⟩
      have hle : x ≤ Max.max low high := hle
      omega
    · rw [dif_neg hpos]
      have hm : Max.max 1 (Min.min low high) ≤ Max.max low high := by omega
      show Covers (c.addSpan ⟨Max.max 1 (Min.min low high), Max.max low high⟩) x ↔ _
      rw [addSpan_eq c hm, Spans.covers_insert c.ordered hm, or_comm]
      refine or_congr_right ?_
      show Max.max 1 (Min.min low high) ≤ x ∧ x ≤ Max.max low high ↔
        0 < x ∧ isSafeInteger low = true ∧ isSafeInteger high = true ∧ Min.min low high ≤ x ∧ x ≤ Max.max low high
      rw [and_iff_right hsafe.1, and_iff_right hsafe.2, max_le_iff, Int.lt_iff_add_one_le, zero_add, and_assoc]
  · rw [if_pos hsafe]
    refine (or_iff_left ?_).symm
    rintro ⟨-, hlow, hhigh, -⟩
    exact hsafe ⟨hlow, hhigh⟩

/-- **What any calls add.** -/
theorem has_addAll : ∀ {calls : List AddCall} {c : SequenceCoverage},
    (c.addAll calls).Has x ↔ c.Has x ∨ (0 < x ∧ ∃ call ∈ calls, call.Adds x)
  | [],            c => by simp [addAll]
  | call :: calls, c => by
    have hrest : c.addAll (call :: calls) = (c.add call.low call.high).addAll calls := rfl
    rw [hrest, has_addAll, has_add_iff, or_assoc, ← and_or_left]
    simp only [mem_cons, exists_eq_or_imp]

theorem has_empty : ¬empty.Has x := Spans.covers_nil x

theorem eq_of_has {d : SequenceCoverage} (h : ∀ x, c.Has x ↔ d.Has x) : c = d := by
  cases c with | mk spans ordered =>
  cases d with | mk spans' ordered' =>
  have hspans : spans = spans' := ordered.ext ordered' h
  subst hspans
  rfl

def single (sequence : Int) : AddCall := ⟨sequence, sequence⟩

theorem adds_single {sequence : Int} : (single sequence).Adds x ↔ x = sequence ∧ isSafeInteger x = true := by
  show (_ ∧ _ ∧ Min.min sequence sequence ≤ x ∧ x ≤ Max.max sequence sequence) ↔ _
  rw [min_self, max_self]
  constructor
  · rintro ⟨hsafe, -, hle, hge⟩
    have heq : x = sequence := le_antisymm hge hle
    exact ⟨heq, heq ▸ hsafe⟩
  · rintro ⟨rfl, hsafe⟩
    exact ⟨hsafe, hsafe, le_rfl, le_rfl⟩

/-- **`fromSequences` adds its numbers one by one**, in any order. -/
theorem addAll_single {sequences other : List Int} (h : other.Perm sequences) :
    empty.addAll (other.map single) = fromSequences sequences := by
  refine eq_of_has (fun x => ?_)
  rw [has_addAll, or_iff_right has_empty, has_fromSequences]
  constructor
  · rintro ⟨hpos, call, hcall, hadds⟩
    obtain ⟨sequence, hmem, rfl⟩ := mem_map.1 hcall
    obtain ⟨rfl, hsafe⟩ := adds_single.1 hadds
    exact ⟨h.mem_iff.1 hmem, hsafe, hpos⟩
  · rintro ⟨hmem, hsafe, hpos⟩
    exact ⟨hpos, single x, mem_map_of_mem (h.mem_iff.2 hmem), adds_single.2 ⟨rfl, hsafe⟩⟩

/-! ## The size -/

theorem foldl_covered : ∀ {l : List Span} {sum : Int}, Ordered l → (∀ s ∈ l, 1 ≤ s.start) → 0 ≤ sum →
    (∀ s ∈ l, sum + Spans.total l + s.stop ≤ 2 ^ 53) →
    l.foldl (fun sum span => Doubles.round (Doubles.round (Doubles.round (sum + span.stop) - span.start) + 1)) sum =
      sum + Spans.total l
  | [],     sum, _, _, _, _ => by simp [Spans.total]
  | s :: l, sum, h, hstart, hsum, hexact => by
    obtain ⟨hle, -, hl⟩ := Spans.ordered_cons.1 h
    have hpos := hstart s mem_cons_self
    have htotal := Spans.total_nonneg hl
    have hfirst := hexact s mem_cons_self
    rw [Spans.total_cons] at hfirst
    have hplus : Doubles.round (sum + s.stop) = sum + s.stop := Doubles.round_eq (by omega) (by omega)
    have hminus : Doubles.round (sum + s.stop - s.start) = sum + s.stop - s.start :=
      Doubles.round_eq (by omega) (by omega)
    have hone : Doubles.round (sum + s.stop - s.start + 1) = sum + (s.stop - s.start + 1) := by
      rw [Doubles.round_eq (by omega) (by omega)]
      omega
    rw [foldl_cons, hplus, hminus, hone, Spans.total_cons,
      foldl_covered hl (fun t ht => hstart t (mem_cons_of_mem _ ht)) (by omega) (fun t ht => ?_)]
    · omega
    · have := hexact t (mem_cons_of_mem _ ht)
      rw [Spans.total_cons] at this
      omega

/-- **`covered` is the size of the set** where its sums are exact. -/
theorem covered_eq_ncard (hpos : ∀ span ∈ c.spans, 1 ≤ span.start)
    (hexact : ∀ n, c.Has n → n + ({x | c.Has x}.ncard : Int) ≤ 2 ^ 53) : c.covered = ({x | c.Has x}.ncard : Int) := by
  have htotal : Spans.total c.spans = ({x | c.Has x}.ncard : Int) := Spans.total_eq_ncard c.ordered
  unfold covered
  rw [foldl_covered c.ordered hpos le_rfl (fun s hs => ?_), zero_add, htotal]
  have := hexact s.stop ⟨s, hs, c.ordered.nonempty s hs, le_rfl⟩
  omega

/-! ## The gaps -/

def gapSpans (c : SequenceCoverage) (upperBound : Option Int) : List Span :=
  Spans.gaps c.spans ++ match upperBound, c.max with
    | some upper, some top => if top < upper then [⟨top + 1, upper⟩] else []
    | some upper, none     => if 1 ≤ upper then [⟨1, upper⟩] else []
    | none,       _        => []

theorem has_empty_iff : {x | c.Has x} = ∅ ↔ c.max = none := by
  rw [SequenceCoverage.max, Spans.greatest_eq_none]
  exact Spans.covers_eq_empty c.ordered

theorem gapSpans_of_max {top : Int} (hmax : c.max = some top) (upperBound : Option Int) :
    c.gapSpans upperBound = Spans.gaps c.spans ++
      ((upperBound.filter (fun upper => top < upper)).map (fun upper => Span.mk (top + 1) upper)).toList := by
  unfold gapSpans
  rw [hmax]
  cases upperBound with
  | none => rfl
  | some upper => by_cases hlt : top < upper <;> simp [hlt, Option.filter]

theorem gapSpans_of_empty (hmax : c.max = none) (upperBound : Option Int) :
    c.gapSpans upperBound =
      ((upperBound.filter (fun upper => 1 ≤ upper)).map (fun upper => Span.mk 1 upper)).toList := by
  have hspans : c.spans = [] := Spans.greatest_eq_none.1 hmax
  unfold gapSpans
  rw [hmax, hspans]
  cases upperBound with
  | none => rfl
  | some upper => by_cases hle : 1 ≤ upper <;> simp [hle, Option.filter, Spans.gaps]

theorem ordered_gapSpans (upperBound : Option Int) : Ordered (c.gapSpans upperBound) := by
  cases hmax : c.max with
  | none =>
    rw [gapSpans_of_empty hmax]
    cases hupper : upperBound.filter (fun upper => 1 ≤ upper) with
    | none => exact Ordered.nil
    | some upper =>
      have hle : 1 ≤ upper := of_decide_eq_true (Option.filter_eq_some_iff.1 hupper).2
      exact Spans.ordered_cons.2 ⟨hle, nofun, Ordered.nil⟩
  | some top =>
    have hgaps := Spans.ordered_gaps c.ordered
    rw [gapSpans_of_max hmax]
    cases hupper : upperBound.filter (fun upper => top < upper) with
    | none =>
      rw [Option.map_none, Option.toList_none, append_nil]
      exact hgaps
    | some upper =>
      have hlt : top < upper := of_decide_eq_true (Option.filter_eq_some_iff.1 hupper).2
      refine Spans.ordered_concat hgaps hlt (fun g hg => ?_)
      have := Spans.stop_lt_of_mem_gaps c.ordered hmax g hg
      show g.stop + 1 < top + 1
      omega

/-- **The gap spans cover what is missing.** -/
theorem covers_gapSpans (hpos : ∀ span ∈ c.spans, 1 ≤ span.start) (upperBound : Option Int) :
    Covers (c.gapSpans upperBound) x ↔ x ∈ missingNumbers {y | c.Has y} upperBound := by
  cases hmax : c.max with
  | none =>
    have hempty : {y | c.Has y} = ∅ := has_empty_iff.2 hmax
    rw [gapSpans_of_empty hmax, hempty]
    cases upperBound with
    | none => simp [missingNumbers]
    | some upper =>
      by_cases hle : 1 ≤ upper
      · simp [missingNumbers, Option.filter, hle, Spans.Span.Has]
      · simp only [Option.filter, hle, decide_false, missingNumbers]
        refine iff_of_false (Spans.covers_nil x) ?_
        rintro ⟨hx, ⟨upper', hmem, hxu⟩ | ⟨y, hy, -⟩, -⟩
        · cases hmem
          omega
        · exact hy
  | some top =>
    have htop : c.Has top := has_max hmax
    have hone : ∀ y, c.Has y → 1 ≤ y := by
      rintro y ⟨s, hs, hle, -⟩
      exact (hpos s hs).trans hle
    have hnonempty : {y | c.Has y} ≠ ∅ := fun he => by
      rw [has_empty_iff.1 he] at hmax
      cases hmax
    rw [gapSpans_of_max hmax, Spans.covers_append, Spans.covers_gaps c.ordered]
    have hpast : Covers ((upperBound.filter (fun upper => top < upper)).map (fun upper => Span.mk (top + 1) upper)).toList x ↔
        top < x ∧ ∃ upper ∈ upperBound, x ≤ upper := by
      cases upperBound with
      | none => simp
      | some upper =>
        by_cases hlt : top < upper
        · simp [Option.filter, hlt, Spans.Span.Has, Int.add_one_le_iff]
        · simp only [Option.filter, hlt, decide_false]
          refine iff_of_false (Spans.covers_nil x) ?_
          rintro ⟨htx, upper', hmem, hxu⟩
          cases hmem
          omega
    rw [hpast]
    constructor
    · rintro (⟨hnot, ⟨y, hy, hcy⟩, z, hz, hcz⟩ | ⟨htx, hupper⟩)
      · have := hone y hcy
        exact ⟨by omega, .inr ⟨z, hcz, hz.le⟩, hnot, .inr ⟨y, hcy, hy⟩⟩
      · have := hone top htop
        refine ⟨by omega, .inl hupper, fun hx => ?_, .inr ⟨top, htop, htx⟩⟩
        have := le_max hmax hx
        omega
    · rintro ⟨-, hwithin, hnot, hbelow⟩
      have hbelow := hbelow.resolve_left hnonempty
      obtain ⟨y, hcy, hy⟩ := hbelow
      by_cases htx : top < x
      · refine .inr ⟨htx, hwithin.resolve_right ?_⟩
        rintro ⟨z, hcz, hxz⟩
        have := le_max hmax hcz
        omega
      · have hne : x ≠ top := fun he => hnot (he ▸ htop)
        exact .inl ⟨hnot, ⟨y, hy, hcy⟩, top, by omega, htop⟩

theorem setOf_covers_gapSpans (hpos : ∀ span ∈ c.spans, 1 ≤ span.start) (upperBound : Option Int) :
    {x | Covers (c.gapSpans upperBound) x} = missingNumbers {y | c.Has y} upperBound :=
  Set.ext (fun _ => covers_gapSpans hpos upperBound)

/-- **`highestGap` is the last of the gap spans.** -/
theorem highestGap_eq_getLast? {upperBound : Option Int} (hsafe : ∀ upper ∈ upperBound, isSafeInteger upper = true) :
    c.highestGap upperBound = (c.gapSpans upperBound).getLast?.map (fun g => SequenceGap.mk g.start g.stop) := by
  have hbetween : (Spans.topGap c.spans.reverse).map (fun gap => SequenceGap.mk gap.1 gap.2) =
      (Spans.gaps c.spans).getLast?.map (fun g => SequenceGap.mk g.start g.stop) := by
    rw [Spans.topGap_reverse c.ordered, Option.map_map]
    rfl
  unfold highestGap
  rw [filter_safe hsafe, hbetween]
  cases hmax : c.max with
  | none =>
    have hspans : c.spans = [] := Spans.greatest_eq_none.1 hmax
    rw [gapSpans_of_empty hmax, hspans]
    cases upperBound with
    | none => rfl
    | some upper => by_cases hle : 1 ≤ upper <;> simp [hle, Option.filter]
  | some top =>
    rw [gapSpans_of_max hmax]
    cases upperBound with
    | none => simp
    | some upper => by_cases hlt : top < upper <;> simp [hlt, Option.filter]

/-- **`gapStats` counts the gap spans.** -/
theorem countGaps_eq : ∀ {l : List Span} {stats : GapStats}, Ordered l →
    countGaps stats l = ⟨stats.count + (Spans.gaps l).length, stats.missing + Spans.total (Spans.gaps l)⟩
  | [],                    stats, _ => by simp [countGaps, Spans.gaps, Spans.total]
  | [_],                   stats, _ => by simp [countGaps, Spans.gaps, Spans.total]
  | lower :: upper :: l, stats, h => by
    obtain ⟨-, hlt, hl⟩ := Spans.ordered_cons.1 h
    have hwidth : 0 < upper.start - lower.stop - 1 := by
      have := hlt upper mem_cons_self
      omega
    rw [countGaps, countGaps_eq hl]
    simp only [hwidth, if_true, Spans.gaps, length_cons, Spans.total_cons, GapStats.mk.injEq]
    omega

theorem gapStats_eq_gapSpans {top : Int} (hmax : c.max = some top) (upperBound : Option Int) :
    c.gapStats upperBound = ⟨(c.gapSpans upperBound).length, Spans.total (c.gapSpans upperBound)⟩ := by
  unfold gapStats
  rw [countGaps_eq c.ordered, hmax, gapSpans_of_max hmax]
  cases upperBound with
  | none => simp
  | some upper =>
    by_cases hlt : top < upper
    · simp only [hlt, Option.filter, decide_true, if_true, Option.map_some, Option.toList_some, length_append,
        length_singleton, Spans.total, map_append, sum_append, map_singleton, sum_singleton,
        GapStats.mk.injEq]
      omega
    · simp [hlt, Option.filter]

/-! ## The coverage of a set -/

theorem isLeast_iff {n : Int} : c.min = some n ↔ IsLeast {x | c.Has x} n := by
  constructor
  · exact Spans.isLeast_least c.ordered
  · intro hleast
    cases hmin : c.min with
    | none =>
      have hempty := has_empty_iff.2 (max_eq_none.2 hmin)
      have := hleast.1
      rw [hempty] at this
      exact this.elim
    | some bottom => rw [(Spans.isLeast_least c.ordered hmin).unique hleast]

theorem isGreatest_iff {n : Int} : c.max = some n ↔ IsGreatest {x | c.Has x} n := by
  constructor
  · exact Spans.isGreatest_greatest c.ordered
  · intro hgreatest
    cases hmax : c.max with
    | none =>
      have := hgreatest.1
      rw [has_empty_iff.2 hmax] at this
      exact this.elim
    | some top => rw [(Spans.isGreatest_greatest c.ordered hmax).unique hgreatest]

/-- **A coverage of positive numbers is their set.** -/
theorem isSetOf_has (hpositive : ∀ n, c.Has n → 0 < n) : c.IsSetOf {n | c.Has n} := by
  have hpos : ∀ span ∈ c.spans, 1 ≤ span.start := fun span hspan =>
    hpositive span.start ⟨span, hspan, le_rfl, c.ordered.nonempty span hspan⟩
  refine
    { ordered := c.ordered
      positive := hpos
      has_iff := fun n => Iff.rfl
      min_eq := fun n => isLeast_iff
      max_eq := fun n => isGreatest_iff
      covered_eq := fun hexact => covered_eq_ncard hpos hexact
      highestGap_eq := fun upperBound hsafe gap => ?_
      highestGap_none := fun upperBound hsafe => ?_
      gapStats_eq := fun hnonempty upperBound hsafe => ?_ }
  · rw [highestGap_eq_getLast? hsafe, ← setOf_covers_gapSpans hpos, Option.map_eq_some_iff]
    constructor
    · rintro ⟨g, hlast, rfl⟩
      exact (Spans.getLast?_eq_some_iff (ordered_gapSpans upperBound)).1 hlast
    · intro hgap
      exact ⟨⟨gap.low, gap.high⟩, (Spans.getLast?_eq_some_iff (ordered_gapSpans upperBound)).2 hgap, rfl⟩
  · rw [highestGap_eq_getLast? hsafe, ← setOf_covers_gapSpans hpos, Option.map_eq_none_iff, getLast?_eq_none_iff,
      Spans.covers_eq_empty (ordered_gapSpans upperBound)]
  · obtain ⟨top, hmax⟩ : ∃ top, c.max = some top := by
      rw [← Option.ne_none_iff_exists']
      intro hnone
      rw [has_empty_iff.2 hnone] at hnonempty
      exact Set.not_nonempty_empty hnonempty
    have hordered := c.ordered_gapSpans upperBound
    rw [gapStats_eq_gapSpans hmax, ← setOf_covers_gapSpans hpos]
    exact ⟨(Spans.length_eq_ncard hordered).symm, Spans.total_eq_ncard hordered⟩

def addedNumbers (sequences : List Int) (calls : List AddCall) : Set Int :=
  {n | 0 < n ∧ ((n ∈ sequences ∧ isSafeInteger n = true) ∨ ∃ call ∈ calls, call.Adds n)}

/-- **The interval set is a set**: whatever it was built from and whatever was added. -/
theorem coverage_isSetOf (sequences other : List Int) (calls : List AddCall) :
    ((fromSequences sequences).addAll calls).IsSetOf (addedNumbers sequences calls) ∧
      (empty.addAll calls).IsSetOf (addedNumbers [] calls) ∧
      (other.Perm sequences → empty.addAll (other.map single) = fromSequences sequences) := by
  have hfrom : ∀ n, ((fromSequences sequences).addAll calls).Has n ↔ n ∈ addedNumbers sequences calls := by
    intro n
    rw [has_addAll, has_fromSequences, ← and_assoc, and_comm, ← and_or_left]
    rfl
  have hempty : ∀ n, (empty.addAll calls).Has n ↔ n ∈ addedNumbers [] calls := by
    intro n
    rw [has_addAll, or_iff_right has_empty]
    simp [addedNumbers]
  refine ⟨?_, ?_, addAll_single⟩
  · have hset : {n | ((fromSequences sequences).addAll calls).Has n} = addedNumbers sequences calls := Set.ext hfrom
    rw [← hset]
    exact isSetOf_has (fun n hn => ((hfrom n).1 hn).1)
  · have hset : {n | (empty.addAll calls).Has n} = addedNumbers [] calls := Set.ext hempty
    rw [← hset]
    exact isSetOf_has (fun n hn => ((hempty n).1 hn).1)

theorem add_unsafe : ¬∀ (calls : List AddCall) (n : Int), (empty.addAll calls).Has n ↔
    0 < n ∧ ∃ call ∈ calls, Min.min call.low call.high ≤ n ∧ n ≤ Max.max call.low call.high := by
  intro hall
  have hhas := (hall [⟨9007199254740992, 9007199254740992⟩] 9007199254740992).2 (by decide)
  exact absurd hhas (by decide)

/-- **Only the numbers count**: two lists of calls leave the same coverage exactly when they add the same numbers to it. -/
theorem addAll_eq_iff (c : SequenceCoverage) (calls calls' : List AddCall) : c.addAll calls = c.addAll calls' ↔
    ∀ x, 0 < x → ¬c.Has x → ((∃ call ∈ calls, call.Adds x) ↔ ∃ call ∈ calls', call.Adds x) := by
  constructor
  · intro heq x hpos hnot
    have hsame : (c.addAll calls).Has x ↔ (c.addAll calls').Has x := by rw [heq]
    rwa [has_addAll, has_addAll, or_iff_right hnot, or_iff_right hnot, and_iff_right hpos, and_iff_right hpos] at hsame
  · intro hadds
    refine eq_of_has (fun x => ?_)
    rw [has_addAll, has_addAll]
    by_cases hnew : 0 < x ∧ ¬c.Has x
    · rw [hadds x hnew.1 hnew.2]
    · rw [not_and_not_right] at hnew
      exact or_congr_right' (fun hnot => and_congr_right (fun hpos => absurd (hnew hpos) hnot))

end SequenceCoverage
end Crossgram
