import Mathlib.Data.List.Basic
/-!
# Walks — pages that are fetched one after another by opaque cursors

A walk asks without a cursor first and then with the cursor of the page before.  It ends with an empty page, a page
without a cursor or with one that was asked for before, or once the announced total is reached; and no page is asked for
when there are `limit` items.  A walk asks for no cursor twice (`Walk.nodup`) and for at most `limit` pages
(`Walk.length_le`); where a cursor always leads to the same page there is one walk (`full`), and every walk is the
beginning of it.
-/
namespace Walks

open List

variable {α κ : Type} [DecidableEq κ]

structure Page (α κ : Type) where
  items : List α
  total : Option Int
  next : Option κ

abbrev Log (α κ : Type) := List (Option κ × Page α κ)

def items (log : Log α κ) : List α := log.flatMap (fun e => e.2.items)

def total (log : Log α κ) : Option Int := log.foldl (fun total e => e.2.total.or total) none

def cursor (log : Log α κ) : Option κ := log.getLast?.bind (fun e => e.2.next)

def ends (log : Log α κ) (page : Page α κ) : Bool :=
  let log' := log ++ [(cursor log, page)]
  page.next.isNone || page.items.isEmpty || decide (page.next ∈ log'.map Prod.fst) ||
    (total log').any (fun total : Int => decide (total ≤ ((items log').length : Int)))

inductive Walk (limit : Nat) : Log α κ → Bool → Prop
  | start : Walk limit [] false
  | page {log : Log α κ} (page : Page α κ) : Walk limit log false → (items log).length < limit →
    Walk limit (log ++ [(cursor log, page)]) (ends log page)

omit [DecidableEq κ] in
theorem items_concat (log : Log α κ) (e : Option κ × Page α κ) : items (log ++ [e]) = items log ++ e.2.items := by
  rw [items, flatMap_append, flatMap_singleton]
  rfl

omit [DecidableEq κ] in
theorem cursor_concat (log : Log α κ) (e : Option κ × Page α κ) : cursor (log ++ [e]) = e.2.next := by
  rw [cursor, getLast?_concat]
  rfl

omit [DecidableEq κ] in
theorem total_concat (log : Log α κ) (e : Option κ × Page α κ) : total (log ++ [e]) = e.2.total.or (total log) := by
  rw [total, foldl_append]
  rfl

variable {limit : Nat} {log : Log α κ} {ended : Bool}

theorem not_ends {page : Page α κ} (h : ends log page = false) :
    page.items ≠ [] ∧ page.next ≠ none ∧ page.next ∉ (log ++ [(cursor log, page)]).map Prod.fst := by
  unfold ends at h
  simp only [Bool.or_eq_false_iff, decide_eq_false_iff_not] at h
  obtain ⟨⟨⟨hnext, hitems⟩, hfresh⟩, _⟩ := h
  refine ⟨fun hnil => ?_, fun hnone => ?_, hfresh⟩
  · rw [hnil] at hitems
    cases hitems
  · rw [hnone] at hnext
    cases hnext

/-- **A walk asks for no cursor twice.** -/
theorem Walk.nodup (h : Walk limit log ended) :
    (log.map Prod.fst).Nodup ∧ (ended = false → cursor log ∉ log.map Prod.fst) := by
  generalize hf : ended = e at h ⊢
  induction h generalizing ended with
  | start => exact ⟨nodup_nil, fun _ => not_mem_nil⟩
  | @page log page _ _ ih =>
    obtain ⟨hnodup, hfresh⟩ := ih rfl
    refine ⟨?_, fun hnot => ?_⟩
    · rw [map_append]
      refine nodup_append.2 ⟨hnodup, pairwise_singleton _ _, fun c hc c' hc' heq => hfresh rfl ?_⟩
      rw [heq, mem_singleton.1 hc'] at hc
      exact hc
    · rw [cursor_concat]
      exact (not_ends hnot).2.2

theorem Walk.length_le_items (h : Walk limit log ended) : ended = false → log.length ≤ (items log).length := by
  induction h with
  | start => exact fun _ => Nat.le_refl _
  | @page log page _ _ ih =>
    intro hnot
    have hitems := length_pos_iff.2 (not_ends hnot).1
    have hlog := ih rfl
    rw [items_concat, length_append, length_append, length_singleton]
    show log.length + 1 ≤ (items log).length + page.items.length
    omega

/-- **A walk has at most `limit` pages.** -/
theorem Walk.length_le (h : Walk limit log ended) : log.length ≤ limit := by
  cases h with
  | start => exact Nat.zero_le _
  | @page log page hwalk hfew =>
    have hlog := hwalk.length_le_items rfl
    rw [length_append, length_singleton]
    omega

def Final (limit : Nat) (log : Log α κ) (ended : Bool) : Prop := ended = true ∨ limit ≤ (items log).length

instance : Decidable (Final limit log ended) := inferInstanceAs (Decidable (_ ∨ _))

/-! ## Where a cursor always leads to the same page -/

section
variable (pages : Option κ → Page α κ) (limit : Nat)

def walkOn : Nat → Log α κ → Bool → Log α κ
  | 0,        log, _     => log
  | fuel + 1, log, ended =>
    if Final limit log ended then log
    else walkOn fuel (log ++ [(cursor log, pages (cursor log))]) (ends log (pages (cursor log)))

def full : Log α κ := walkOn pages limit (limit + 1) [] false

def Answers (log : Log α κ) : Prop := ∀ e ∈ log, e.2 = pages e.1

end

variable {pages : Option κ → Page α κ}

theorem prefix_walkOn : ∀ (fuel : Nat) (log : Log α κ) (ended : Bool), log <+: walkOn pages limit fuel log ended
  | 0,        log, _     => prefix_refl log
  | fuel + 1, log, ended => by
    rw [walkOn]
    split
    · exact prefix_refl log
    · exact (prefix_append _ _).trans (prefix_walkOn fuel _ _)

theorem walkOn_of_walk (h : Walk limit log ended) (hpages : Answers pages log) :
    ∀ fuel, walkOn pages limit (fuel + log.length) [] false = walkOn pages limit fuel log ended := by
  induction h with
  | start => exact fun _ => rfl
  | @page log page _ hfew ih =>
    intro fuel
    have hpage : page = pages (cursor log) := hpages (cursor log, page) (mem_append_right _ (mem_singleton_self _))
    have hnot : ¬ Final limit log false := by
      rintro (hended | hmany)
      · cases hended
      · omega
    have hlog := ih (fun e he => hpages e (mem_append_left _ he)) (fuel + 1)
    rw [walkOn, if_neg hnot, ← hpage] at hlog
    rw [← hlog, length_append, length_singleton]
    congr 1
    omega

/-- **Every walk is the beginning of the whole one**, and a walk that goes no further is the whole one. -/
theorem Walk.prefix_full (h : Walk limit log ended) (hpages : Answers pages log) :
    log <+: full pages limit ∧ (Final limit log ended → log = full pages limit) := by
  have hlength := h.length_le
  obtain ⟨rest, hrest⟩ := Nat.le.dest hlength
  have hfull : full pages limit = walkOn pages limit (rest + 1) log ended := by
    rw [full, ← walkOn_of_walk h hpages (rest + 1)]
    congr 1
    omega
  rw [hfull]
  refine ⟨prefix_walkOn _ _ _, fun hfinal => ?_⟩
  rw [walkOn, if_pos hfinal]

omit [DecidableEq κ] in
theorem items_start {log' : Log α κ} (h : log <+: log') : items log <+: items log' := by
  obtain ⟨rest, rfl⟩ := h
  unfold items
  rw [flatMap_append]
  exact prefix_append _ _

end Walks
