import Crossgram.Lib.Maps
import Crossgram.Lib.Spans
import Crossgram.MessageId
/-!
# HistoryCoverage — the sequence numbers taken from upstream (packages/history-backfill/src/coverage.ts)

The spans of a conversation's sequence numbers that are known to have been fetched.  The loop of `add` puts a span where
it belongs and joins what it touches.
-/
namespace Crossgram

open List
open Spans (Span Ordered Covers)

structure SequenceGap where
  low : Int
  high : Int

/-- The loop of `add` over the spans: what it has put out, the span that grows, whether that is out already. -/
structure SpanMerge where
  output : List Span
  merged : Span
  inserted : Bool

namespace SpanMerge

def step (m : SpanMerge) (span : Span) : SpanMerge :=
  if span.stop + 1 < m.merged.start then { m with output := m.output ++ [span] }
  else if m.merged.stop + 1 < span.start then
    { m with output := m.output ++ (if m.inserted then [span] else [m.merged, span]), inserted := true }
  else { m with merged := ⟨min span.start m.merged.start, max span.stop m.merged.stop⟩ }

def finish (m : SpanMerge) : List Span := if m.inserted then m.output else m.output ++ [m.merged]

variable {l : List Span} {output : List Span} {merged : Span}

theorem foldl_inserted (hm : merged.start ≤ merged.stop) : ∀ {l output : List Span},
    (∀ t ∈ l, merged.stop + 1 < t.start ∧ t.start ≤ t.stop) →
      (l.foldl step ⟨output, merged, true⟩).finish = output ++ l
  | [], output, _ => by simp [finish]
  | s :: l, output, h => by
    obtain ⟨hlt, hs⟩ := h s mem_cons_self
    have hstep : step ⟨output, merged, true⟩ s = ⟨output ++ [s], merged, true⟩ := by
      unfold step
      rw [if_neg (show ¬ s.stop + 1 < merged.start by omega), if_pos hlt, if_pos rfl]
    rw [foldl_cons, hstep, foldl_inserted hm (fun t ht => h t (mem_cons_of_mem _ ht)), append_assoc]
    rfl

/-- **The loop inserts the span.** -/
theorem foldl_step : ∀ {l output : List Span} {merged : Span}, Ordered l → merged.start ≤ merged.stop →
    (l.foldl step ⟨output, merged, false⟩).finish = output ++ Spans.insert merged l
  | [], output, merged, _, _ => by simp [finish, Spans.insert]
  | s :: l, output, merged, hl, hm => by
    obtain ⟨hs, hlt, hrest⟩ := Spans.ordered_cons.1 hl
    rw [foldl_cons, Spans.insert]
    by_cases hleft : s.stop + 1 < merged.start
    · have hstep : step ⟨output, merged, false⟩ s = ⟨output ++ [s], merged, false⟩ := if_pos hleft
      rw [if_pos hleft, hstep, foldl_step hrest hm, append_assoc]
      rfl
    · by_cases hright : merged.stop + 1 < s.start
      · have hstep : step ⟨output, merged, false⟩ s = ⟨output ++ [merged, s], merged, true⟩ := by
          unfold step
          rw [if_neg hleft, if_pos hright, if_neg Bool.false_ne_true]
        have hpast : ∀ t ∈ l, merged.stop + 1 < t.start ∧ t.start ≤ t.stop := fun t ht =>
          ⟨by have := hlt t ht; omega, hrest.nonempty t ht⟩
        rw [if_neg hleft, if_pos hright, hstep, foldl_inserted hm hpast, append_assoc]
        rfl
      · have hstep : step ⟨output, merged, false⟩ s = ⟨output, Spans.join s merged, false⟩ := by
          unfold step
          rw [if_neg hleft, if_neg hright]
          rfl
        rw [if_neg hleft, if_neg hright, hstep, foldl_step hrest (Spans.join_nonempty hs hm)]

end SpanMerge

/-- Ascending spans that neither overlap nor touch. -/
structure SequenceCoverage where
  spans : List Span
  ordered : Ordered spans

namespace SequenceCoverage

def empty : SequenceCoverage := ⟨[], Ordered.nil⟩

variable (c : SequenceCoverage)

def min : Option Int := Spans.least c.spans

def max : Option Int := Spans.greatest c.spans

def Has (sequence : Int) : Prop := Covers c.spans sequence

instance (sequence : Int) : Decidable (c.Has sequence) := inferInstanceAs (Decidable (Covers c.spans sequence))

/-- The spans with one more of them, by the loop of `add`. -/
def addSpan (merged : Span) : List Span := (c.spans.foldl SpanMerge.step ⟨[], merged, false⟩).finish

theorem addSpan_eq {merged : Span} (hm : merged.start ≤ merged.stop) :
    c.addSpan merged = Spans.insert merged c.spans := SpanMerge.foldl_step c.ordered hm

def add (low high : Int) : SequenceCoverage :=
  if ¬ (isSafeInteger low = true ∧ isSafeInteger high = true) then c
  else if h : Max.max low high < 1 then c
  else
    let merged : Span := ⟨Max.max 1 (Min.min low high), Max.max low high⟩
    ⟨c.addSpan merged, by
      have hm : merged.start ≤ merged.stop := by
        show Max.max 1 (Min.min low high) ≤ Max.max low high
        omega
      rw [addSpan_eq c hm]
      exact Spans.ordered_insert c.ordered hm⟩

/-- `highestGap`: above the highest span first, then between the spans. -/
def highestGap (upperBound : Option Int) : Option SequenceGap :=
  let between := (Spans.topGap c.spans.reverse).map (fun gap => ⟨gap.1, gap.2⟩)
  match upperBound.filter isSafeInteger with
  | none => between
  | some upperBound => match c.max with
    | none     => if 1 ≤ upperBound then some ⟨1, upperBound⟩ else none
    | some top => if top < upperBound then some ⟨top + 1, upperBound⟩ else between

/-- `[...new Set(sequences)]`, filtered and sorted. -/
def ascending (sequences : List Int) : List Int :=
  ((Maps.distinct sequences).filter (fun value => isSafeInteger value && decide (0 < value))).insertionSort (· ≤ ·)

theorem pairwise_ascending (sequences : List Int) : (ascending sequences).Pairwise (· < ·) := by
  have hnodup : (ascending sequences).Nodup :=
    (perm_insertionSort _ _).nodup_iff.2 ((Maps.nodup_distinct sequences).filter _)
  exact ((pairwise_insertionSort (· ≤ ·) _).and hnodup).imp (fun h => lt_of_le_of_ne h.1 h.2)

def fromSequences (sequences : List Int) : SequenceCoverage :=
  ⟨Spans.ofAscending (ascending sequences), Spans.ordered_ofAscending (pairwise_ascending sequences)⟩

/-! ## What is covered -/

variable {c} {x : Int}

theorem has_add {low high : Int} (hlow : isSafeInteger low = true) (hhigh : isSafeInteger high = true) (hle : low ≤ high)
    (hpos : 1 ≤ high) : (c.add low high).Has x ↔ (Max.max 1 low ≤ x ∧ x ≤ high) ∨ c.Has x := by
  have hmin : Min.min low high = low := min_eq_left hle
  have hmax : Max.max low high = high := max_eq_right hle
  have hm : Max.max 1 low ≤ high := max_le hpos hle
  unfold add Has
  rw [if_neg (not_not_intro ⟨hlow, hhigh⟩), dif_neg (by omega)]
  show Covers (c.addSpan ⟨Max.max 1 (Min.min low high), Max.max low high⟩) x ↔ _
  rw [hmin, hmax, addSpan_eq c hm, Spans.covers_insert c.ordered hm]
  rfl

theorem has_fromSequences {sequences : List Int} :
    (fromSequences sequences).Has x ↔ x ∈ sequences ∧ isSafeInteger x = true ∧ 0 < x := by
  unfold fromSequences Has
  rw [Spans.covers_ofAscending, ascending, mem_insertionSort, mem_filter, Maps.mem_distinct, Bool.and_eq_true,
    decide_eq_true_eq]

theorem max_eq_none : c.max = none ↔ c.min = none := Spans.greatest_eq_none.trans Spans.least_eq_none.symm

variable {top : Int}

theorem le_max (h : c.max = some top) (hx : c.Has x) : x ≤ top := Spans.le_greatest c.ordered h hx

theorem has_max (h : c.max = some top) : c.Has top := Spans.covers_greatest c.ordered h

theorem min_le {bottom : Int} (h : c.min = some bottom) (hx : c.Has x) : bottom ≤ x := Spans.least_le c.ordered h hx

theorem has_min {bottom : Int} (h : c.min = some bottom) : c.Has bottom := Spans.covers_least c.ordered h

def Within (c : SequenceCoverage) (upperBound : Option Int) (x : Int) : Prop :=
  (∃ upper ∈ upperBound, x ≤ upper) ∨ ∃ y, c.Has y ∧ x ≤ y

variable {upperBound : Option Int}

theorem filter_safe (hsafe : ∀ upper ∈ upperBound, isSafeInteger upper = true) :
    upperBound.filter isSafeInteger = upperBound := by
  cases upperBound with
  | none => rfl
  | some upper => exact Option.filter_eq_some_iff.2 ⟨rfl, hsafe upper rfl⟩

variable {gap : SequenceGap}

theorem between_some
    (h : (Spans.topGap c.spans.reverse).map (fun gap => SequenceGap.mk gap.1 gap.2) = some gap) :
    gap.low ≤ gap.high ∧ (∀ x, gap.low ≤ x → x ≤ gap.high → ¬ c.Has x) ∧ (∃ x < gap.low, c.Has x) ∧
      ∀ top, c.max = some top → gap.high ≤ top ∧ ∀ x, gap.high < x → x ≤ top → c.Has x := by
  obtain ⟨⟨low, high⟩, htop, rfl⟩ := Option.map_eq_some_iff.1 h
  obtain ⟨hle, hnot, hbelow, ⟨y, hy, hcovered⟩, habove⟩ := (Spans.topGap_spec c.ordered).1 low high htop
  refine ⟨hle, hnot, hbelow, fun top hmax => ⟨?_, habove top hmax⟩⟩
  have := le_max hmax hcovered
  show high ≤ top
  omega

structure IsHighestGap (c : SequenceCoverage) (upperBound : Option Int) (gap : SequenceGap) : Prop where
  nonempty : gap.low ≤ gap.high
  missing : ∀ x, gap.low ≤ x → x ≤ gap.high → ¬ c.Has x
  below : gap.low = 1 ∨ ∃ x < gap.low, c.Has x
  within : c.Within upperBound gap.high
  above : ∀ x, gap.high < x → c.Within upperBound x → c.Has x

theorem isHighestGap_between (hmax : c.max = some top)
    (hupper : ∀ upper ∈ upperBound, upper ≤ top)
    (h : (Spans.topGap c.spans.reverse).map (fun gap => SequenceGap.mk gap.1 gap.2) = some gap) :
    c.IsHighestGap upperBound gap := by
  obtain ⟨hle, hnot, hbelow, habove⟩ := between_some h
  obtain ⟨hhigh, habove⟩ := habove top hmax
  refine ⟨hle, hnot, .inr hbelow, .inr ⟨top, has_max hmax, hhigh⟩, fun x hx hwithin => habove x hx ?_⟩
  rcases hwithin with ⟨upper, hmem, hxu⟩ | ⟨y, hy, hxy⟩
  · exact hxu.trans (hupper upper hmem)
  · exact hxy.trans (le_max hmax hy)

/-- **What `highestGap` finds.** -/
theorem highestGap_some (hsafe : ∀ upper ∈ upperBound, isSafeInteger upper = true)
    (h : c.highestGap upperBound = some gap) : c.IsHighestGap upperBound gap := by
  unfold highestGap at h
  rw [filter_safe hsafe] at h
  cases hmax : c.max with
  | none =>
    have hnone : ∀ x, ¬ c.Has x := fun x hx => by
      rw [SequenceCoverage.max, Spans.greatest_eq_none] at hmax
      rw [Has, hmax] at hx
      exact Spans.covers_nil x hx
    cases upperBound with
    | none =>
      obtain ⟨-, -, ⟨y, -, hy⟩, -⟩ := between_some h
      exact (hnone y hy).elim
    | some upper =>
      simp only [hmax] at h
      split at h
      · rename_i hpos
        cases h
        refine ⟨hpos, fun x _ _ => hnone x, .inl rfl, .inl ⟨upper, rfl, le_rfl⟩, fun x hx hwithin => ?_⟩
        rcases hwithin with ⟨upper', hmem, hxu⟩ | ⟨y, hy, -⟩
        · cases hmem
          exact absurd hxu (not_le.2 hx)
        · exact (hnone y hy).elim
      · cases h
  | some top =>
    cases upperBound with
    | none => exact isHighestGap_between hmax nofun h
    | some upper =>
      simp only [hmax] at h
      split at h
      · rename_i hlt
        cases h
        refine ⟨hlt, fun x hlow _ hx => ?_, .inr ⟨top, by show top < top + 1; omega, has_max hmax⟩,
          .inl ⟨upper, rfl, le_rfl⟩, fun x hx hwithin => ?_⟩
        · have := le_max hmax hx
          have : top + 1 ≤ x := hlow
          omega
        · have hx : upper < x := hx
          rcases hwithin with ⟨upper', hmem, hxu⟩ | ⟨y, hy, hxy⟩
          · cases hmem
            omega
          · have := le_max hmax hy
            omega
      · rename_i hle
        exact isHighestGap_between hmax (fun upper' hmem => by cases hmem; omega) h

/-- **What it says when it finds nothing**: the upper bound is reached and the spans are one. -/
theorem highestGap_none (hsafe : ∀ upper ∈ upperBound, isSafeInteger upper = true)
    (hpos : ∀ upper ∈ upperBound, 1 ≤ upper) (h : c.highestGap upperBound = none) :
    ∀ bottom, c.Has bottom → ∀ x, bottom ≤ x → c.Within upperBound x → c.Has x := by
  intro bottom hbottom x hx hwithin
  have hmax : c.max ≠ none := fun hc => by
    rw [SequenceCoverage.max, Spans.greatest_eq_none] at hc
    rw [Has, hc] at hbottom
    exact Spans.covers_nil bottom hbottom
  obtain ⟨top, hmax⟩ := Option.ne_none_iff_exists'.1 hmax
  have hmin : c.min ≠ none := fun hc => by
    rw [max_eq_none.2 hc] at hmax
    cases hmax
  obtain ⟨least, hmin⟩ := Option.ne_none_iff_exists'.1 hmin
  unfold highestGap at h
  rw [filter_safe hsafe, hmax] at h
  have hcovered : (Spans.topGap c.spans.reverse).map (fun gap => SequenceGap.mk gap.1 gap.2) = none →
      (∀ upper ∈ upperBound, upper ≤ top) → c.Has x := fun hbetween hupper => by
    refine (Spans.topGap_spec c.ordered).2 (Option.map_eq_none_iff.1 hbetween) least top hmin hmax x
      ((min_le hmin hbottom).trans hx) ?_
    rcases hwithin with ⟨upper, hmem, hxu⟩ | ⟨y, hy, hxy⟩
    · exact hxu.trans (hupper upper hmem)
    · exact hxy.trans (le_max hmax hy)
  cases upperBound with
  | none => exact hcovered h nofun
  | some upper =>
    simp only at h
    split at h
    · cases h
    · rename_i hle
      exact hcovered h (fun upper' hmem => by cases hmem; omega)

end SequenceCoverage
end Crossgram
