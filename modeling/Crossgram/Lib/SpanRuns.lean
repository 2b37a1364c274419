import Mathlib.Data.Int.ConditionallyCompleteOrder
import Mathlib.Data.Int.Interval
import Mathlib.Data.Set.Card
import Mathlib.Algebra.Order.Ring.Int
import Crossgram.Lib.Spans
/-!
# SpanRuns — ordered spans are the longest runs of a set

The spans of an `Ordered` list are exactly the longest runs of the set they cover, so the list is determined by the set.
The numbers left out between two spans are ordered spans again, and the highest gap is the last of them.
-/
namespace Spans

open List

structure IsRun (S : Set Int) (s : Span) : Prop where
  nonempty : s.start ≤ s.stop
  subset : ∀ x, s.Has x → x ∈ S
  before : s.start - 1 ∉ S
  after : s.stop + 1 ∉ S

variable {l r : List Span} {s t : Span} {S : Set Int} {x : Int}

theorem IsRun.start_le (hs : IsRun S s) (ht : IsRun S t) (hsx : s.Has x) (htx : t.Has x) : s.start ≤ t.start := by
  by_contra hlt
  refine hs.before (ht.subset _ ⟨by omega, ?_⟩)
  have := hsx.1.trans htx.2
  omega

theorem IsRun.le_stop (hs : IsRun S s) (ht : IsRun S t) (hsx : s.Has x) (htx : t.Has x) : t.stop ≤ s.stop := by
  by_contra hlt
  refine hs.after (ht.subset _ ⟨?_, by omega⟩)
  have := htx.1.trans hsx.2
  omega

theorem IsRun.eq_of_has (hs : IsRun S s) (ht : IsRun S t) (hsx : s.Has x) (htx : t.Has x) : s = t := by
  have hstart : s.start = t.start := le_antisymm (hs.start_le ht hsx htx) (ht.start_le hs htx hsx)
  have hstop : s.stop = t.stop := le_antisymm (ht.le_stop hs htx hsx) (hs.le_stop ht hsx htx)
  cases s
  cases t
  rw [Span.mk.injEq]
  exact ⟨hstart, hstop⟩

theorem Ordered.apart_or_eq (h : Ordered l) (hs : s ∈ l) (ht : t ∈ l) :
    s = t ∨ s.stop + 1 < t.start ∨ t.stop + 1 < s.start := by
  by_cases heq : s = t
  · exact .inl heq
  · have happart : l.Pairwise (fun s t => s.stop + 1 < t.start ∨ t.stop + 1 < s.start) := h.apart.imp Or.inl
    have : Std.Symm (fun s t : Span => s.stop + 1 < t.start ∨ t.stop + 1 < s.start) := ⟨fun _ _ => Or.symm⟩
    exact .inr (happart.forall hs ht heq)

theorem isRun_of_mem (h : Ordered l) (hs : s ∈ l) : IsRun {x | Covers l x} s := by
  have hle := h.nonempty s hs
  refine ⟨hle, fun x hx => ⟨s, hs, hx⟩, ?_, ?_⟩
  · rintro ⟨t, ht, htx⟩
    have := htx.1
    have := htx.2
    rcases h.apart_or_eq hs ht with rfl | hlt | hlt <;> omega
  · rintro ⟨t, ht, htx⟩
    have := htx.1
    have := htx.2
    rcases h.apart_or_eq hs ht with rfl | hlt | hlt <;> omega

/-- **The spans are the longest runs** of what they cover. -/
theorem mem_iff_isRun (h : Ordered l) : s ∈ l ↔ IsRun {x | Covers l x} s := by
  constructor
  · exact isRun_of_mem h
  · intro hs
    obtain ⟨t, ht, htx⟩ := hs.subset s.start ⟨le_rfl, hs.nonempty⟩
    rw [hs.eq_of_has (isRun_of_mem h ht) ⟨le_rfl, hs.nonempty⟩ htx]
    exact ht

theorem Ordered.nodup (h : Ordered l) : l.Nodup := by
  refine (List.Pairwise.and_mem.1 h.apart).imp ?_
  rintro s t ⟨hs, -, hlt⟩ rfl
  have := h.nonempty s hs
  omega

/-- **The spans are determined by what they cover.** -/
theorem Ordered.ext (hl : Ordered l) (hr : Ordered r) (h : ∀ x, Covers l x ↔ Covers r x) : l = r := by
  have hset : {x | Covers l x} = {x | Covers r x} := Set.ext h
  have hmem : ∀ s, s ∈ l ↔ s ∈ r := fun s => by rw [mem_iff_isRun hl, mem_iff_isRun hr, hset]
  refine List.Perm.eq_of_pairwise (fun s t hs ht hst hts => ?_) hl.apart hr.apart
    ((perm_ext_iff_of_nodup hl.nodup hr.nodup).2 hmem)
  have := hl.nonempty s hs
  have := hr.nonempty t ht
  omega

/-! ## Ends and size -/

theorem isLeast_least {b : Int} (h : Ordered l) (hb : least l = some b) : IsLeast {x | Covers l x} b :=
  ⟨covers_least h hb, fun _ hx => least_le h hb hx⟩

theorem isGreatest_greatest {t : Int} (h : Ordered l) (ht : greatest l = some t) : IsGreatest {x | Covers l x} t :=
  ⟨covers_greatest h ht, fun _ hx => le_greatest h ht hx⟩

theorem covers_eq_empty (h : Ordered l) : {x | Covers l x} = ∅ ↔ l = [] := by
  constructor
  · intro he
    refine eq_nil_iff_forall_not_mem.2 (fun s hs => ?_)
    have : s.start ∈ {x | Covers l x} := ⟨s, hs, le_rfl, h.nonempty s hs⟩
    rw [he] at this
    exact this
  · rintro rfl
    exact Set.eq_empty_of_forall_notMem covers_nil

def total (l : List Span) : Int := (l.map (fun s => s.stop - s.start + 1)).sum

@[simp] theorem total_cons : total (s :: l) = s.stop - s.start + 1 + total l := by
  simp [total]

theorem has_eq_Icc (s : Span) : {x | s.Has x} = (Finset.Icc s.start s.stop : Finset Int) := by
  ext x
  simp [Span.Has]

theorem finite_covers : ∀ l : List Span, {x | Covers l x}.Finite
  | []     => by simp
  | s :: l => by
    have hunion : {x | Covers (s :: l) x} = {x | s.Has x} ∪ {x | Covers l x} := by
      ext x
      exact covers_cons
    rw [hunion, has_eq_Icc]
    exact (Finset.finite_toSet _).union (finite_covers l)

/-- **The spans hold as many numbers as they cover.** -/
theorem total_eq_ncard : ∀ {l : List Span}, Ordered l → total l = ({x | Covers l x}.ncard : Int)
  | [],     _ => by simp [total]
  | s :: l, h => by
    obtain ⟨hs, hlt, hl⟩ := ordered_cons.1 h
    have hunion : {x | Covers (s :: l) x} = {x | s.Has x} ∪ {x | Covers l x} := by
      ext x
      exact covers_cons
    have hdisjoint : Disjoint {x | s.Has x} {x | Covers l x} := by
      refine Set.disjoint_left.2 (fun x hsx hlx => ?_)
      have := lt_of_covers hlt hlx
      have := hsx.2
      omega
    have hcard : ({x | s.Has x}.ncard : Int) = s.stop - s.start + 1 := by
      rw [has_eq_Icc, Set.ncard_coe_finset, Int.card_Icc]
      omega
    have hfinite : {x | s.Has x}.Finite := by
      rw [has_eq_Icc]
      exact Finset.finite_toSet _
    rw [total_cons, total_eq_ncard hl, hunion, Set.ncard_union_eq hdisjoint hfinite (finite_covers l), Nat.cast_add, hcard]

theorem total_nonneg (h : Ordered l) : 0 ≤ total l := by
  rw [total_eq_ncard h]
  exact Int.natCast_nonneg _

theorem length_eq_ncard (h : Ordered l) : {s | IsRun {x | Covers l x} s}.ncard = l.length := by
  have hruns : {s | IsRun {x | Covers l x} s} = (l.toFinset : Set Span) := by
    ext s
    rw [Finset.mem_coe, mem_toFinset]
    exact (mem_iff_isRun h).symm
  rw [hruns, Set.ncard_coe_finset, toFinset_card_of_nodup h.nodup]

theorem ordered_concat (h : Ordered l) (hs : s.start ≤ s.stop) (hlt : ∀ t ∈ l, t.stop + 1 < s.start) :
    Ordered (l ++ [s]) := by
  refine ⟨fun t ht => ?_, pairwise_append.2 ⟨h.apart, pairwise_singleton _ _, fun t ht t' ht' => ?_⟩⟩
  · rcases mem_append.1 ht with ht | ht
    · exact h.nonempty t ht
    · rw [mem_singleton.1 ht]
      exact hs
  · rw [mem_singleton.1 ht']
    exact hlt t ht

/-- **The last span** is the run that has the greatest number. -/
theorem getLast?_eq_some_iff (h : Ordered l) :
    l.getLast? = some s ↔ IsRun {x | Covers l x} s ∧ IsGreatest {x | Covers l x} s.stop := by
  constructor
  · intro hlast
    refine ⟨isRun_of_mem h (mem_of_getLast? hlast), isGreatest_greatest h ?_⟩
    rw [greatest, hlast]
    rfl
  · rintro ⟨hrun, hgreatest⟩
    have hmem : s ∈ l := (mem_iff_isRun h).2 hrun
    obtain ⟨last, hlast⟩ := Option.isSome_iff_exists.1 (getLast?_isSome.2 (ne_nil_of_mem hmem))
    have hlastmem : last ∈ l := mem_of_getLast? hlast
    have hstop : last.stop = s.stop := by
      refine (isGreatest_greatest h ?_).unique hgreatest
      rw [greatest, hlast]
      rfl
    rw [hlast, (isRun_of_mem h hlastmem).eq_of_has hrun ⟨h.nonempty last hlastmem, le_rfl⟩
      ⟨by rw [hstop]; exact hrun.nonempty, hstop.le⟩]

/-! ## What lies between -/

def gaps : List Span → List Span
  | s :: t :: l => ⟨s.stop + 1, t.start - 1⟩ :: gaps (t :: l)
  | _           => []

theorem lt_start_of_mem_gaps : ∀ {s : Span} {l : List Span}, Ordered (s :: l) → ∀ g ∈ gaps (s :: l), s.stop < g.start
  | _, [],     _, g, hg => by cases hg
  | s, t :: l, h, g, hg => by
    obtain ⟨-, hlt, hl⟩ := ordered_cons.1 h
    rcases mem_cons.1 hg with rfl | hg
    · show s.stop < s.stop + 1
      omega
    · have := hlt t mem_cons_self
      have := (ordered_cons.1 hl).1
      have := lt_start_of_mem_gaps hl g hg
      omega

/-- **The gaps are ordered spans.** -/
theorem ordered_gaps : ∀ {l : List Span}, Ordered l → Ordered (gaps l)
  | [],          _ => Ordered.nil
  | [_],         _ => Ordered.nil
  | s :: t :: l, h => by
    obtain ⟨-, hlt, hl⟩ := ordered_cons.1 h
    have hapart := hlt t mem_cons_self
    refine ordered_cons.2 ⟨?_, fun g hg => ?_, ordered_gaps hl⟩
    · show s.stop + 1 ≤ t.start - 1
      omega
    · have := (ordered_cons.1 hl).1
      have := lt_start_of_mem_gaps hl g hg
      show t.start - 1 + 1 < g.start
      omega

/-- **What the gaps cover**: what the spans do not, above some number and below another that they do. -/
theorem covers_gaps : ∀ {l : List Span}, Ordered l →
    (Covers (gaps l) x ↔ ¬Covers l x ∧ (∃ y < x, Covers l y) ∧ ∃ y > x, Covers l y)
  | [],          _ => by simp [gaps]
  | [s],         h => by
    refine iff_of_false (covers_nil x) ?_
    rintro ⟨hnot, ⟨y, hy, hcy⟩, z, hz, hcz⟩
    have hy' := ((covers_cons.1 hcy).resolve_right (covers_nil y)).1
    have hz' := ((covers_cons.1 hcz).resolve_right (covers_nil z)).2
    exact hnot (covers_cons.2 (.inl ⟨by omega, by omega⟩))
  | s :: t :: l, h => by
    obtain ⟨hs, hlt, hl⟩ := ordered_cons.1 h
    have hapart := hlt t mem_cons_self
    have ht := (ordered_cons.1 hl).1
    have hstart : Covers (t :: l) t.start := covers_cons.2 (.inl ⟨le_rfl, ht⟩)
    rw [gaps, covers_cons, covers_gaps hl]
    constructor
    · rintro (⟨hlow, hhigh⟩ | ⟨hnot, ⟨y, hy, hcy⟩, z, hz, hcz⟩)
      · have hlow : s.stop + 1 ≤ x := hlow
        have hhigh : x ≤ t.start - 1 := hhigh
        refine ⟨fun hc => ?_, ⟨s.stop, by omega, covers_cons.2 (.inl ⟨hs, le_rfl⟩)⟩,
          t.start, by omega, covers_cons.2 (.inr hstart)⟩
        rcases covers_cons.1 hc with hc | hc
        · have := hc.2
          omega
        · rcases covers_cons.1 hc with hc | hc
          · have := hc.1
            omega
          · have := lt_of_covers (ordered_cons.1 hl).2.1 hc
            omega
      · refine ⟨fun hc => ?_, ⟨y, hy, covers_cons.2 (.inr hcy)⟩, z, hz, covers_cons.2 (.inr hcz)⟩
        rcases covers_cons.1 hc with hc | hc
        · have := lt_of_covers hlt hcy
          have := hc.2
          omega
        · exact hnot hc
    · rintro ⟨hnot, ⟨y, hy, hcy⟩, z, hz, hcz⟩
      rw [covers_cons, not_or] at hnot
      have hpast : s.stop < x := by
        rcases covers_cons.1 hcy with hcy | hcy
        · by_contra hle
          have := hcy.1
          exact hnot.1 ⟨by omega, by omega⟩
        · have := lt_of_covers hlt hcy
          omega
      by_cases hbelow : x < t.start
      · exact .inl ⟨by show s.stop + 1 ≤ x; omega, by show x ≤ t.start - 1; omega⟩
      · have hne : x ≠ t.start := fun he => hnot.2 (he ▸ hstart)
        refine .inr ⟨hnot.2, ⟨t.start, by omega, hstart⟩, z, hz, (covers_cons.1 hcz).resolve_left (fun hc => ?_)⟩
        have := hc.2
        omega

theorem stop_lt_of_mem_gaps {t : Int} (h : Ordered l) (ht : greatest l = some t) : ∀ g ∈ gaps l, g.stop < t := by
  intro g hg
  have hcovers : Covers (gaps l) g.stop := ⟨g, hg, (ordered_gaps h).nonempty g hg, le_rfl⟩
  obtain ⟨-, -, y, hy, hcy⟩ := (covers_gaps h).1 hcovers
  exact hy.trans_le (le_greatest h ht hcy)

theorem gaps_append (lower upper : Span) : ∀ l : List Span,
    gaps (l ++ [lower, upper]) = gaps (l ++ [lower]) ++ [⟨lower.stop + 1, upper.start - 1⟩]
  | []          => rfl
  | [s]         => rfl
  | s :: t :: l => by
    have ih := gaps_append lower upper (t :: l)
    simp only [cons_append, gaps] at ih ⊢
    rw [ih]

/-- **The highest gap is the last one.** -/
theorem topGap_reverse (h : Ordered l) : topGap l.reverse = (gaps l).getLast?.map (fun g => (g.start, g.stop)) := by
  rcases eq_nil_or_concat l with rfl | ⟨l₁, upper, rfl⟩
  · rfl
  rcases eq_nil_or_concat l₁ with rfl | ⟨l₂, lower, rfl⟩
  · rfl
  · have hlist : (l₂.concat lower).concat upper = l₂ ++ [lower, upper] := by simp
    rw [hlist] at h ⊢
    rw [topGap_append h, gaps_append, getLast?_concat]
    rfl

end Spans
