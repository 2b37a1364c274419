import Mathlib.Data.List.Basic
/-!
# Paging — a client that asks for what follows the last row it got

The rows after a key are those behind the row that has it (`after`).  A client asks from the start, then from the last
row of each page, until a page is the last one or empty (`collect`).  When every page is a stretch of the rows that
belong to the list, not empty while some follow, the client gets each of them once and stops (`collect_after`).
-/
namespace Paging

open List

variable {α κ : Type} [DecidableEq κ] (key : α → κ)

def after (l : List α) : Option κ → List α
  | none   => l
  | some k => (l.dropWhile (fun a => key a ≠ k)).tail

variable {key}

theorem after_of_split {l pre post : List α} {a : α} (hd : (l.map key).Nodup) (hl : l = pre ++ a :: post) :
    after key l (some (key a)) = post := by
  have hpre : ∀ b ∈ pre, key b ≠ key a := by
    intro b hb hc
    rw [hl, map_append, map_cons] at hd
    exact (nodup_append.1 hd).2.2 (key b) (mem_map_of_mem hb) (key a) mem_cons_self hc
  show (l.dropWhile (fun b => key b ≠ key a)).tail = post
  rw [hl, dropWhile_append_of_pos (fun b hb => decide_eq_true (hpre b hb)), dropWhile_cons_of_neg (by simp)]
  rfl

theorem after_suffix (l : List α) (k : Option κ) : after key l k <:+ l := by
  cases k with
  | none => exact suffix_refl l
  | some k => exact (tail_suffix _).trans (dropWhile_suffix _)

theorem key_ne_of_mem_after {l : List α} (hd : (l.map key).Nodup) {k : κ} {a : α} (h : a ∈ after key l (some k)) :
    key a ≠ k := by
  intro hc
  unfold after at h
  dsimp only at h
  cases hdrop : l.dropWhile (fun a => key a ≠ k) with
  | nil =>
    rw [hdrop] at h
    cases h
  | cons b rest =>
    rw [hdrop] at h
    have hb : key b = k := by
      have := head?_dropWhile_not (fun a => decide (key a ≠ k)) l
      rw [hdrop] at this
      simpa using this
    have hsub : (b :: rest).map key <:+ l.map key := (hdrop ▸ dropWhile_suffix _).map key
    have hnd := hsub.sublist.nodup hd
    rw [map_cons, nodup_cons] at hnd
    exact hnd.1 (hb ▸ hc ▸ mem_map_of_mem h)

/-- What a client gets that passes back the key of the last row, page by page.  A page is its rows and whether it says
that more follow; `call` counts the requests. -/
def collect (key : α → κ) (page : Nat → Option κ → List α × Bool) : Nat → Nat → Option κ → Option (List α)
  | 0, _, _               => none
  | fuel + 1, call, offset =>
    let rows := (page call offset).1
    if rows = [] ∨ (page call offset).2 = false then some rows
    else (collect key page fuel (call + 1) (rows.getLast?.map key)).map (fun rest => rows ++ rest)

structure Stretch (rest : List α) (page : List α × Bool) : Prop where
  prefixed : page.1 <+: rest
  nonempty : rest ≠ [] → page.1 ≠ []
  ends : page.2 = false → page.1 = rest

omit [DecidableEq κ] in
/-- **A client that pages through the rows with `p`** gets what follows its offset, in order, and stops. -/
theorem collect_after {l : List α} (p : α → Bool) {page : Nat → Option κ → List α × Bool}
    (hpage : ∀ pre a post call, l = pre ++ a :: post → p a = true →
      Stretch (post.filter p) (page call (some (key a)))) :
    ∀ (fuel call : Nat) (pre : List α) (a : α) (post : List α), l = pre ++ a :: post → p a = true → post.length < fuel →
      collect key page fuel call (some (key a)) = some (post.filter p)
  | 0, _, _, _, _, _, _, hlt => absurd hlt (Nat.not_lt_zero _)
  | fuel + 1, call, pre, a, post, hl, ha, hlt => by
    obtain ⟨hpre, hnonempty, hends⟩ := hpage pre a post call hl ha
    unfold collect
    dsimp only
    by_cases hstop : (page call (some (key a))).1 = [] ∨ (page call (some (key a))).2 = false
    · rw [if_pos hstop]
      rcases hstop with hempty | hlast
      · rw [hempty]
        by_contra hne
        exact hnonempty (fun hc => hne (by rw [hc])) hempty
      · rw [hends hlast]
    · rw [if_neg hstop, not_or] at *
      obtain ⟨rows, last, hrows⟩ := eq_nil_or_concat (page call (some (key a))).1 |>.resolve_left hstop.1
      rw [concat_eq_append] at hrows
      obtain ⟨tail, htail⟩ := hpre
      rw [hrows, append_assoc] at htail
      obtain ⟨mid, rest, hpost, hmid, hrest⟩ := filter_eq_append_iff.1 htail.symm
      obtain ⟨skip, rest', hrest', hskip, hlast, htl⟩ := filter_eq_cons_iff.1 hrest
      have hl' : l = (pre ++ a :: (mid ++ skip)) ++ last :: rest' := by
        rw [hl, hpost, hrest']
        simp
      have hlen : rest'.length < fuel := by
        rw [hpost, hrest'] at hlt
        simp only [length_append, length_cons] at hlt
        omega
      have hnext := collect_after p hpage fuel (call + 1) _ last rest' hl' hlast hlen
      rw [hrows, getLast?_concat, Option.map_some, hnext, Option.map_some, ← htail, htl]
      simp

end Paging
