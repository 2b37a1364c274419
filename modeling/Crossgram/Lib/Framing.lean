import Mathlib.Data.List.Basic
/-!
# Framing — frames read off the front of a stream

A decoder is shown what has arrived and finds a frame and its size, waits for more, or fails.  It is `Stable` when more
input does not change an answer already given and a frame takes some of the input and no more than all of it.  The frames
of a stream are then the same however much of it each look at the decoder shows (`frames_extend`), and what arrives in
pieces gives the frames of the whole, each piece read behind what the ones before left (`frames_append`).
-/
namespace Framing

open List

variable {α β : Type}

inductive Outcome (β : Type)
  | incomplete
  | frame (data : β) (size : Nat)
  | fails

structure Stable (decode : List α → Outcome β) : Prop where
  stable : ∀ xs ys, decode xs ≠ .incomplete → decode (xs ++ ys) = decode xs
  size : ∀ xs data size, decode xs = .frame data size → 0 < size ∧ size ≤ xs.length

variable (decode : List α → Outcome β)

@[grind =] def framesWithin : Nat → List α → List β
  | 0,     _  => []
  | n + 1, xs =>
    match decode xs with
    | .frame data size => data :: framesWithin n (xs.drop size)
    | _ => []

/-- The frames of a stream: each takes at least one symbol. -/
def frames (xs : List α) : List β := framesWithin decode xs.length xs

@[grind =] def restWithin : Nat → List α → List α
  | 0,     xs => xs
  | n + 1, xs =>
    match decode xs with
    | .frame _ size => restWithin n (xs.drop size)
    | _ => xs

variable {decode}

theorem within_congr (h : Stable decode) : ∀ (n m : Nat) (xs : List α), xs.length ≤ n → xs.length ≤ m →
    framesWithin decode n xs = framesWithin decode m xs ∧ restWithin decode n xs = restWithin decode m xs
  | 0,     0,     _,  _,  _  => ⟨rfl, rfl⟩
  | 0,     m + 1, xs, hn, _  => by
    rw [framesWithin, framesWithin, restWithin, restWithin]
    cases hd : decode xs with
    | frame data size =>
      have := h.size xs _ _ hd
      omega
    | _ => exact ⟨rfl, rfl⟩
  | n + 1, 0,     xs, _,  hm => by
    rw [framesWithin, framesWithin, restWithin, restWithin]
    cases hd : decode xs with
    | frame data size =>
      have := h.size xs _ _ hd
      omega
    | _ => exact ⟨rfl, rfl⟩
  | n + 1, m + 1, xs, hn, hm => by
    rw [framesWithin, framesWithin, restWithin, restWithin]
    cases hd : decode xs with
    | frame data size =>
      have := h.size xs _ _ hd
      obtain ⟨hframes, hrest⟩ :=
        within_congr h n m (xs.drop size) (by rw [length_drop]; omega) (by rw [length_drop]; omega)
      exact ⟨congrArg (data :: ·) hframes, hrest⟩
    | _ => exact ⟨rfl, rfl⟩

variable {xs : List α}

theorem framesWithin_eq (h : Stable decode) {n : Nat} (hn : xs.length ≤ n) :
    framesWithin decode n xs = frames decode xs :=
  (within_congr h n _ xs hn (Nat.le_refl _)).1

variable {data : β} {size : Nat}

theorem frames_of_frame (h : Stable decode) (hd : decode xs = .frame data size) :
    frames decode xs = data :: frames decode (xs.drop size) := by
  have hsize := h.size xs data size hd
  rw [← framesWithin_eq h (Nat.le_succ _), framesWithin, hd]
  simp only
  rw [framesWithin_eq h (by rw [length_drop]; omega)]

theorem frames_of_incomplete (hd : decode xs = .incomplete) : frames decode xs = [] := by
  unfold frames
  cases hn : xs.length with
  | zero => rfl
  | succ n => rw [framesWithin, hd]

theorem frames_of_fails (hd : decode xs = .fails) : frames decode xs = [] := by
  unfold frames
  cases hn : xs.length with
  | zero => rfl
  | succ n => rw [framesWithin, hd]

variable {xs ys : List α}

theorem Stable.extend (h : Stable decode) (hp : xs <+: ys) (hd : decode xs ≠ .incomplete) :
    decode ys = decode xs := by
  obtain ⟨rest, rfl⟩ := hp
  exact h.stable xs rest hd

/-- **A frame found in what has arrived** is the first of the whole stream. -/
theorem frames_extend (h : Stable decode) (hp : xs <+: ys)
    (hd : decode xs = .frame data size) : frames decode ys = data :: frames decode (ys.drop size) :=
  frames_of_frame h ((h.extend hp (by simp [hd])).trans hd)

theorem frames_extend_fails (h : Stable decode) (hp : xs <+: ys) (hd : decode xs = .fails) :
    frames decode ys = [] :=
  frames_of_fails ((h.extend hp (by simp [hd])).trans hd)

/-- **Round trip**: where the decoder finds what was encoded, the frames of the encodings are what was encoded. -/
theorem frames_encode (h : Stable decode) (hnil : decode [] = .incomplete) {encode : β → List α} : ∀ {datas : List β},
    (∀ data ∈ datas, ∀ rest, decode (encode data ++ rest) = .frame data (encode data).length) →
    frames decode (datas.flatMap encode) = datas
  | [],            _ => frames_of_incomplete hnil
  | data :: datas, hd => by
    rw [flatMap_cons, frames_of_frame h (hd data mem_cons_self _), drop_left,
      frames_encode h hnil (fun d hm => hd d (mem_cons_of_mem _ hm))]

/-! ## What is left -/

variable (decode) in
def rest (xs : List α) : List α := restWithin decode xs.length xs

theorem rest_of_frame (h : Stable decode) (hd : decode xs = .frame data size) :
    rest decode xs = rest decode (xs.drop size) := by
  have hsize := h.size xs data size hd
  unfold rest
  rw [(within_congr h xs.length (xs.length + 1) xs (Nat.le_refl _) (Nat.le_succ _)).2, restWithin, hd]
  exact (within_congr h _ _ _ (by rw [length_drop]; omega) (Nat.le_refl _)).2

theorem rest_of_incomplete (hd : decode xs = .incomplete) : rest decode xs = xs := by
  unfold rest
  cases hn : xs.length with
  | zero => rfl
  | succ n => rw [restWithin, hd]

theorem rest_of_fails (hd : decode xs = .fails) : rest decode xs = xs := by
  unfold rest
  cases hn : xs.length with
  | zero => rfl
  | succ n => rw [restWithin, hd]

/-- **No frame is found in what is left.** -/
theorem decode_rest (h : Stable decode) : ∀ (n : Nat) (xs : List α), xs.length ≤ n →
    decode (rest decode xs) = .incomplete ∨ decode (rest decode xs) = .fails
  | n, xs, hn => by
    cases hd : decode xs with
    | incomplete =>
      rw [rest_of_incomplete hd]
      exact .inl hd
    | fails =>
      rw [rest_of_fails hd]
      exact .inr hd
    | frame data size =>
      have hsize := h.size xs data size hd
      cases n with
      | zero => omega
      | succ n =>
        rw [rest_of_frame h hd]
        exact decode_rest h n (xs.drop size) (by rw [length_drop]; omega)

/-- **What arrives in two pieces**: the frames of the first, then those of what it left with the second behind it. -/
theorem frames_append (h : Stable decode) : ∀ (n : Nat) (xs ys : List α), xs.length ≤ n →
    frames decode (xs ++ ys) = frames decode xs ++ frames decode (rest decode xs ++ ys) ∧
      rest decode (xs ++ ys) = rest decode (rest decode xs ++ ys)
  | n, xs, ys, hn => by
    cases hd : decode xs with
    | incomplete =>
      rw [frames_of_incomplete hd, rest_of_incomplete hd]
      exact ⟨rfl, rfl⟩
    | fails =>
      rw [frames_of_fails hd, rest_of_fails hd]
      exact ⟨rfl, rfl⟩
    | frame data size =>
      have hsize := h.size xs data size hd
      have hmore : decode (xs ++ ys) = .frame data size := (h.stable xs ys (by simp [hd])).trans hd
      have hdrop : (xs ++ ys).drop size = xs.drop size ++ ys := drop_append_of_le_length hsize.2
      cases n with
      | zero => omega
      | succ n =>
        obtain ⟨hframes, hrest⟩ := frames_append h n (xs.drop size) ys (by rw [length_drop]; omega)
        rw [frames_of_frame h hd, rest_of_frame h hd, frames_of_frame h hmore, rest_of_frame h hmore, hdrop]
        exact ⟨by rw [hframes, cons_append], hrest⟩

end Framing
