import Mathlib.Data.List.Sort
/-!
# Spans — sets of integers kept as ascending runs

A span is a run of integers, both ends included.  A list of spans is `Ordered` when its spans are not empty and each
lies past its predecessor with a number left out between them; it stands for the numbers it `Covers`.  `insert` joins a
span with those it overlaps or touches; `topGap` finds the highest numbers left out between two spans.
-/
namespace Spans

open List

structure Span where
  start : Int
  stop : Int
deriving DecidableEq

def Span.Has (s : Span) (x : Int) : Prop := s.start ≤ x ∧ x ≤ s.stop

instance (s : Span) (x : Int) : Decidable (s.Has x) := inferInstanceAs (Decidable (_ ∧ _))

def Covers (l : List Span) (x : Int) : Prop := ∃ s ∈ l, s.Has x

instance (l : List Span) (x : Int) : Decidable (Covers l x) := inferInstanceAs (Decidable (∃ s ∈ l, s.Has x))

structure Ordered (l : List Span) : Prop where
  nonempty : ∀ s ∈ l, s.start ≤ s.stop
  apart : l.Pairwise (fun s t => s.stop + 1 < t.start)

@[simp] theorem covers_nil (x : Int) : ¬ Covers [] x := nofun

variable {l : List Span} {x : Int}

@[simp] theorem covers_cons {s : Span} : Covers (s :: l) x ↔ s.Has x ∨ Covers l x := by
  simp [Covers]

theorem covers_append {l r : List Span} : Covers (l ++ r) x ↔ Covers l x ∨ Covers r x := by
  simp [Covers, or_and_right, exists_or]

theorem Ordered.nil : Ordered [] := ⟨nofun, List.Pairwise.nil⟩

theorem ordered_cons {s : Span} :
    Ordered (s :: l) ↔ s.start ≤ s.stop ∧ (∀ t ∈ l, s.stop + 1 < t.start) ∧ Ordered l := by
  constructor
  · intro h
    obtain ⟨happart, hrest⟩ := pairwise_cons.1 h.apart
    exact ⟨h.nonempty s mem_cons_self, happart, fun t ht => h.nonempty t (mem_cons_of_mem _ ht), hrest⟩
  · rintro ⟨hs, hlt, hl⟩
    refine ⟨fun t ht => ?_, pairwise_cons.2 ⟨hlt, hl.apart⟩⟩
    rcases mem_cons.1 ht with rfl | ht
    · exact hs
    · exact hl.nonempty t ht

theorem lt_of_covers {b x : Int} (hl : ∀ t ∈ l, b < t.start) (h : Covers l x) : b < x := by
  obtain ⟨t, ht, hx⟩ := h
  exact (hl t ht).trans_le hx.1

/-! ## Inserting a span -/

def join (s t : Span) : Span := ⟨min s.start t.start, max s.stop t.stop⟩

def insert (m : Span) : List Span → List Span
  | []     => [m]
  | s :: l =>
    if s.stop + 1 < m.start then s :: insert m l
    else if m.stop + 1 < s.start then m :: s :: l
    else insert (join s m) l

theorem has_join {s m : Span} (hs : s.start ≤ s.stop) (hm : m.start ≤ m.stop) (h : ¬ s.stop + 1 < m.start)
    (h' : ¬ m.stop + 1 < s.start) : (join s m).Has x ↔ m.Has x ∨ s.Has x := by
  simp only [Span.Has, join]
  omega

theorem join_nonempty {s m : Span} (hs : s.start ≤ s.stop) (hm : m.start ≤ m.stop) :
    (join s m).start ≤ (join s m).stop := by
  simp only [join]
  omega

/-- **The numbers of a list with a span put in.** -/
theorem covers_insert : ∀ {l : List Span} {m : Span} {x : Int}, Ordered l → m.start ≤ m.stop →
    (Covers (insert m l) x ↔ m.Has x ∨ Covers l x)
  | [], m, x, _, _ => by simp [insert]
  | s :: l, m, x, hl, hm => by
    obtain ⟨hs, -, hl⟩ := ordered_cons.1 hl
    unfold insert
    split
    · rw [covers_cons, covers_insert hl hm, covers_cons, or_left_comm]
    · rename_i hleft
      split
      · rw [covers_cons]
      · rename_i hright
        rw [covers_insert hl (join_nonempty hs hm), has_join hs hm hleft hright, covers_cons, or_assoc]

theorem lt_start_of_mem_insert : ∀ {l : List Span} {m : Span} {b : Int}, (∀ t ∈ l, b < t.start) → b < m.start →
    ∀ t ∈ insert m l, b < t.start
  | [], m, b, _, hm, t, ht => by
    rw [mem_singleton.1 ht]
    exact hm
  | s :: l, m, b, hl, hm, t, ht => by
    have hs := hl s mem_cons_self
    have hrest : ∀ t ∈ l, b < t.start := fun t ht => hl t (mem_cons_of_mem _ ht)
    unfold insert at ht
    split at ht
    · rcases mem_cons.1 ht with rfl | ht
      · exact hs
      · exact lt_start_of_mem_insert hrest hm t ht
    · split at ht
      · rcases mem_cons.1 ht with rfl | ht
        · exact hm
        · exact hl t ht
      · exact lt_start_of_mem_insert hrest (lt_min hs hm) t ht

theorem ordered_insert : ∀ {l : List Span} {m : Span}, Ordered l → m.start ≤ m.stop → Ordered (insert m l)
  | [], m, _, hm => ordered_cons.2 ⟨hm, nofun, Ordered.nil⟩
  | s :: l, m, hl, hm => by
    obtain ⟨hs, hlt, hrest⟩ := ordered_cons.1 hl
    unfold insert
    split
    · rename_i hleft
      exact ordered_cons.2 ⟨hs, lt_start_of_mem_insert hlt hleft, ordered_insert hrest hm⟩
    · split
      · rename_i hright
        refine ordered_cons.2 ⟨hm, fun t ht => ?_, hl⟩
        rcases mem_cons.1 ht with rfl | ht
        · exact hright
        · have := hlt t ht
          omega
      · exact ordered_insert hrest (join_nonempty hs hm)

/-! ## Ascending numbers -/

def runs (s : Span) : List Int → List Span
  | []     => [s]
  | v :: l => if v = s.stop + 1 then runs ⟨s.start, v⟩ l else s :: runs ⟨v, v⟩ l

theorem lt_start_of_mem_runs : ∀ {l : List Int} {s : Span} {b : Int}, (∀ v ∈ l, b < v) → b < s.start →
    ∀ t ∈ runs s l, b < t.start
  | [], s, b, _, hs, t, ht => by
    rw [mem_singleton.1 ht]
    exact hs
  | v :: l, s, b, hl, hs, t, ht => by
    have hrest : ∀ v ∈ l, b < v := fun v hv => hl v (mem_cons_of_mem _ hv)
    unfold runs at ht
    split at ht
    · exact lt_start_of_mem_runs (s := ⟨s.start, v⟩) hrest hs t ht
    · rcases mem_cons.1 ht with rfl | ht
      · exact hs
      · exact lt_start_of_mem_runs (s := ⟨v, v⟩) hrest (hl v mem_cons_self) t ht

theorem ordered_runs : ∀ {l : List Int} {s : Span}, s.start ≤ s.stop → (s.stop :: l).Pairwise (· < ·) →
    Ordered (runs s l)
  | [], s, hs, _ => ordered_cons.2 ⟨hs, nofun, Ordered.nil⟩
  | v :: l, s, hs, hl => by
    obtain ⟨hlt, hrest⟩ := pairwise_cons.1 hl
    have hv := hlt v mem_cons_self
    unfold runs
    split
    · exact ordered_runs (s := ⟨s.start, v⟩) (hs.trans hv.le) hrest
    · rename_i hne
      have happart : s.stop + 1 < v := by omega
      refine ordered_cons.2 ⟨hs, lt_start_of_mem_runs (fun w hw => ?_) happart, ordered_runs (s := ⟨v, v⟩) le_rfl hrest⟩
      exact happart.trans (rel_of_pairwise_cons hrest hw)

theorem covers_runs : ∀ {l : List Int} {s : Span} {x : Int}, s.start ≤ s.stop →
    (Covers (runs s l) x ↔ s.Has x ∨ x ∈ l)
  | [], s, x, _ => by simp [runs]
  | v :: l, s, x, hs => by
    unfold runs
    split
    · rename_i hv
      rw [covers_runs (s := ⟨s.start, v⟩) (show s.start ≤ v by omega), mem_cons, ← or_assoc]
      refine or_congr_left ?_
      simp only [Span.Has]
      omega
    · rw [covers_cons, covers_runs (s := ⟨v, v⟩) le_rfl, mem_cons]
      refine or_congr_right (or_congr_left ?_)
      simp only [Span.Has]
      omega

def ofAscending : List Int → List Span
  | []     => []
  | v :: l => runs ⟨v, v⟩ l

theorem ordered_ofAscending {l : List Int} (h : l.Pairwise (· < ·)) : Ordered (ofAscending l) := by
  cases l with
  | nil => exact Ordered.nil
  | cons v l => exact ordered_runs (s := ⟨v, v⟩) le_rfl h

theorem covers_ofAscending {l : List Int} : Covers (ofAscending l) x ↔ x ∈ l := by
  cases l with
  | nil => simp [ofAscending]
  | cons v l =>
    rw [ofAscending, covers_runs (s := ⟨v, v⟩) le_rfl, mem_cons]
    refine or_congr_left ?_
    simp only [Span.Has]
    omega

/-! ## Ends and gaps -/

def least (l : List Span) : Option Int := l.head?.map Span.start

def greatest (l : List Span) : Option Int := l.getLast?.map Span.stop

theorem least_eq_none : least l = none ↔ l = [] := by
  simp [least]

theorem greatest_eq_none : greatest l = none ↔ l = [] := by
  simp [greatest]

theorem least_le {b x : Int} (h : Ordered l) (hb : least l = some b) (hx : Covers l x) : b ≤ x := by
  cases l with
  | nil => cases hb
  | cons s l =>
    cases hb
    obtain ⟨hs, hlt, -⟩ := ordered_cons.1 h
    rcases covers_cons.1 hx with hx | hx
    · exact hx.1
    · have := lt_of_covers hlt hx
      omega

theorem covers_least {b : Int} (h : Ordered l) (hb : least l = some b) : Covers l b := by
  cases l with
  | nil => cases hb
  | cons s l =>
    cases hb
    exact covers_cons.2 (.inl ⟨le_rfl, (ordered_cons.1 h).1⟩)

theorem le_greatest : ∀ {l : List Span} {t x : Int}, Ordered l → greatest l = some t → Covers l x → x ≤ t
  | [], _, _, _, ht, _ => by cases ht
  | [s], t, x, _, ht, hx => by
    cases ht
    exact ((covers_cons.1 hx).resolve_right (covers_nil x)).2
  | s :: s' :: l, t, x, h, ht, hx => by
    obtain ⟨-, hlt, hl⟩ := ordered_cons.1 h
    have ht' : greatest (s' :: l) = some t := ht
    rcases covers_cons.1 hx with hx | hx
    · have := le_greatest hl ht' (covers_cons.2 (.inl ⟨le_rfl, (ordered_cons.1 hl).1⟩))
      have := hlt s' mem_cons_self
      have := hx.2
      omega
    · exact le_greatest hl ht' hx

theorem covers_greatest {t : Int} (h : Ordered l) (ht : greatest l = some t) : Covers l t := by
  obtain ⟨s, hs, rfl⟩ := Option.map_eq_some_iff.1 ht
  have hmem := mem_of_getLast? hs
  exact ⟨s, hmem, h.nonempty s hmem, le_rfl⟩

def topGap : List Span → Option (Int × Int)
  | upper :: lower :: rest =>
    if lower.stop + 1 < upper.start then some (lower.stop + 1, upper.start - 1) else topGap (lower :: rest)
  | _ => none

/-- **The highest gap of two or more spans** lies under the last of them. -/
theorem topGap_append {lower upper : Span} (h : Ordered (l ++ [lower, upper])) :
    topGap (l ++ [lower, upper]).reverse = some (lower.stop + 1, upper.start - 1) := by
  have hlt : lower.stop + 1 < upper.start :=
    rel_of_pairwise_cons (pairwise_append.1 h.apart).2.1 mem_cons_self
  rw [reverse_append]
  simp [topGap, hlt]

/-- **What the highest gap says**: nothing in it is covered, and everything past it up to the greatest number is; with no
gap the list has one span at most. -/
theorem topGap_spec (h : Ordered l) :
    (∀ lo hi, topGap l.reverse = some (lo, hi) → lo ≤ hi ∧ (∀ x, lo ≤ x → x ≤ hi → ¬ Covers l x) ∧
      (∃ x < lo, Covers l x) ∧ (∃ x > hi, Covers l x) ∧ ∀ t, greatest l = some t → ∀ x, hi < x → x ≤ t → Covers l x) ∧
    (topGap l.reverse = none → ∀ b t, least l = some b → greatest l = some t → ∀ x, b ≤ x → x ≤ t → Covers l x) := by
  rcases eq_nil_or_concat l with rfl | ⟨l₁, upper, rfl⟩
  · exact ⟨nofun, nofun⟩
  rcases eq_nil_or_concat l₁ with rfl | ⟨l₂, lower, rfl⟩
  · refine ⟨nofun, fun _ b t hb ht x hbx hxt => ?_⟩
    cases hb
    cases ht
    exact covers_cons.2 (.inl ⟨hbx, hxt⟩)
  · have hlist : (l₂.concat lower).concat upper = l₂ ++ [lower, upper] := by simp
    rw [hlist] at h ⊢
    have htop := topGap_append h
    have hpair := pairwise_append.1 h.apart
    have hlower : lower.start ≤ lower.stop := h.nonempty lower (by simp)
    refine ⟨fun lo hi hgap => ?_, fun hgap => ?_⟩
    · rw [htop] at hgap
      cases hgap
      have hlt : lower.stop + 1 < upper.start := rel_of_pairwise_cons hpair.2.1 mem_cons_self
      have hupper : upper.start ≤ upper.stop := h.nonempty upper (by simp)
      refine ⟨by omega, fun x hlo hhi hx => ?_, ⟨lower.stop, by omega, lower, by simp, hlower, le_rfl⟩,
        ⟨upper.start, by omega, upper, by simp, le_rfl, hupper⟩, fun t ht x hhi hxt => ⟨upper, by simp, by omega, ?_⟩⟩
      · rcases covers_append.1 hx with ⟨s, hs, hsx⟩ | hx
        · -- what comes before the lower span ends before it
          have := hpair.2.2 s hs lower mem_cons_self
          have := hsx.2
          omega
        · rcases covers_cons.1 hx with hx | hx
          · have := hx.2
            omega
          · have := ((covers_cons.1 hx).resolve_right (covers_nil x)).1
            omega
      · have : upper.stop = t := by simpa [greatest] using ht
        omega
    · rw [htop] at hgap
      cases hgap

end Spans
