import Mathlib.Data.List.Basic
/-!
# Utf16 — strings of UTF-16 code units

Text whose code units need not pair up.  `decode` reads the scalar values, with `none` for a surrogate that has no
partner; what is encoded from scalar values is read back, and only that has no `none`.
-/
namespace Utf16

open List

def isHigh (u : UInt16) : Bool := decide (0xD800 ≤ u.toNat) && decide (u.toNat < 0xDC00)
def isLow (u : UInt16) : Bool := decide (0xDC00 ≤ u.toNat) && decide (u.toNat < 0xE000)

def combine (high low : UInt16) : Char :=
  Char.ofNat (0x10000 + 0x400 * (high.toNat - 0xD800) + (low.toNat - 0xDC00))

def decode : List UInt16 → List (Option Char)
  | []      => []
  | u :: us =>
    if isHigh u then
      match us with
      | []      => [none]
      | v :: vs => if isLow v then some (combine u v) :: decode vs else none :: decode (v :: vs)
    else if isLow u then none :: decode us
    else some (Char.ofNat u.toNat) :: decode us

def units (c : Char) : List UInt16 :=
  if c.toNat < 0x10000 then [UInt16.ofNat c.toNat]
  else [UInt16.ofNat (0xD800 + (c.toNat - 0x10000) / 0x400), UInt16.ofNat (0xDC00 + (c.toNat - 0x10000) % 0x400)]

def encode (cs : List Char) : List UInt16 := cs.flatMap units

def isWellFormed (us : List UInt16) : Bool := (decode us).all (fun c => c.isSome)

def scalars (us : List UInt16) : List Char := (decode us).map (fun c => c.getD (Char.ofNat 0xFFFD))

theorem char_cases (c : Char) : c.toNat < 0xD800 ∨ (0xDFFF < c.toNat ∧ c.toNat < 0x110000) := c.valid

theorem toNat_ofNat16 {n : Nat} (h : n < 65536) : (UInt16.ofNat n).toNat = n := by
  rw [UInt16.toNat_ofNat']
  exact Nat.mod_eq_of_lt h

/-- **A scalar value is read back.** -/
theorem decode_units (c : Char) (us : List UInt16) : decode (units c ++ us) = some c :: decode us := by
  have hc := char_cases c
  unfold units
  by_cases hsmall : c.toNat < 0x10000
  · rw [if_pos hsmall, singleton_append, decode.eq_def]
    dsimp only
    have hu := toNat_ofNat16 hsmall
    have hhigh : isHigh (UInt16.ofNat c.toNat) = false := by
      unfold isHigh
      rw [hu, Bool.and_eq_false_iff, decide_eq_false_iff_not, decide_eq_false_iff_not]
      omega
    have hlow : isLow (UInt16.ofNat c.toNat) = false := by
      unfold isLow
      rw [hu, Bool.and_eq_false_iff, decide_eq_false_iff_not, decide_eq_false_iff_not]
      omega
    rw [hhigh, hlow, hu, Char.ofNat_toNat]
    rfl
  · rw [if_neg hsmall]
    have hh := toNat_ofNat16 (n := 0xD800 + (c.toNat - 0x10000) / 0x400) (by omega)
    have hl := toNat_ofNat16 (n := 0xDC00 + (c.toNat - 0x10000) % 0x400) (by omega)
    have hhigh : isHigh (UInt16.ofNat (0xD800 + (c.toNat - 0x10000) / 0x400)) = true := by
      unfold isHigh
      rw [hh, Bool.and_eq_true, decide_eq_true_eq, decide_eq_true_eq]
      omega
    have hlow : isLow (UInt16.ofNat (0xDC00 + (c.toNat - 0x10000) % 0x400)) = true := by
      unfold isLow
      rw [hl, Bool.and_eq_true, decide_eq_true_eq, decide_eq_true_eq]
      omega
    rw [cons_append, singleton_append, decode.eq_def]
    dsimp only
    rw [if_pos hhigh]
    rw [if_pos hlow]
    unfold combine
    rw [hh, hl]
    have hvalue : 0x10000 + 0x400 * (0xD800 + (c.toNat - 0x10000) / 0x400 - 0xD800) +
        (0xDC00 + (c.toNat - 0x10000) % 0x400 - 0xDC00) = c.toNat := by omega
    rw [hvalue, Char.ofNat_toNat]

/-- **Text is read back.** -/
theorem decode_encode : ∀ cs : List Char, decode (encode cs) = cs.map some
  | []      => rfl
  | c :: cs => by
    rw [encode, flatMap_cons, decode_units, ← encode, decode_encode cs, map_cons]

theorem units_ofNat {n : Nat} (hsmall : n < 0x10000) (h : n < 0xD800 ∨ 0xDFFF < n) :
    units (Char.ofNat n) = [UInt16.ofNat n] := by
  have hvalid : n.isValidChar := h.imp_right (fun hn => ⟨hn, by omega⟩)
  have hn : (Char.ofNat n).toNat = n := by
    rw [Char.ofNat, dif_pos hvalid]
    rfl
  unfold units
  rw [hn, if_pos hsmall]

theorem units_combine {u v : UInt16} (hu : isHigh u = true) (hv : isLow v = true) : units (combine u v) = [u, v] := by
  unfold isHigh at hu
  unfold isLow at hv
  rw [Bool.and_eq_true, decide_eq_true_eq, decide_eq_true_eq] at hu hv
  have hvalid : (0x10000 + 0x400 * (u.toNat - 0xD800) + (v.toNat - 0xDC00)).isValidChar := .inr (by omega)
  have hn : (combine u v).toNat = 0x10000 + 0x400 * (u.toNat - 0xD800) + (v.toNat - 0xDC00) := by
    unfold combine
    rw [Char.ofNat, dif_pos hvalid]
    rfl
  unfold units
  rw [hn, if_neg (by omega)]
  have hhigh : 0xD800 + (0x10000 + 0x400 * (u.toNat - 0xD800) + (v.toNat - 0xDC00) - 0x10000) / 0x400 = u.toNat := by
    omega
  have hlow : 0xDC00 + (0x10000 + 0x400 * (u.toNat - 0xD800) + (v.toNat - 0xDC00) - 0x10000) % 0x400 = v.toNat := by
    omega
  rw [hhigh, hlow, UInt16.ofNat_toNat, UInt16.ofNat_toNat]

/-- **Well-formed text is the text of its scalar values.** -/
theorem encode_of_decode : ∀ (us : List UInt16) (cs : List Char), decode us = cs.map some → encode cs = us
  | [],      cs, h => by
    rw [decode] at h
    rw [map_eq_nil_iff.1 h.symm]
    rfl
  | u :: us, cs, h => by
    rw [decode.eq_def] at h
    dsimp only at h
    split at h
    · rename_i hhigh
      split at h
      · cases cs <;> cases h
      · rename_i v vs
        split at h
        · rename_i hlow
          cases cs with
          | nil => cases h
          | cons c cs =>
            obtain ⟨hc, hcs⟩ := List.cons.inj h
            rw [encode, flatMap_cons, ← encode, encode_of_decode vs cs hcs, ← Option.some.inj hc,
              units_combine hhigh hlow]
            rfl
        · cases cs <;> cases h
    · rename_i hhigh
      split at h
      · cases cs <;> cases h
      · rename_i hlow
        cases cs with
        | nil => cases h
        | cons c cs =>
          obtain ⟨hc, hcs⟩ := List.cons.inj h
          have hn : u.toNat < 0xD800 ∨ 0xDFFF < u.toNat := by
            unfold isHigh at hhigh
            unfold isLow at hlow
            rw [Bool.and_eq_true, decide_eq_true_eq, decide_eq_true_eq] at hhigh hlow
            omega
          rw [encode, flatMap_cons, ← encode, encode_of_decode us cs hcs, ← Option.some.inj hc,
            units_ofNat u.toNat_lt hn, UInt16.ofNat_toNat]
          rfl

variable {us : List UInt16}

theorem decode_of_wellFormed (h : isWellFormed us = true) : decode us = (scalars us).map some := by
  unfold scalars
  rw [map_map]
  refine (map_id _).symm.trans (map_congr_left (fun c hc => ?_))
  obtain ⟨d, rfl⟩ := Option.isSome_iff_exists.1 (all_eq_true.1 h c hc)
  rfl

theorem encode_scalars (h : isWellFormed us = true) : encode (scalars us) = us :=
  encode_of_decode us _ (decode_of_wellFormed h)

theorem scalars_encode (cs : List Char) : scalars (encode cs) = cs := by
  unfold scalars
  rw [decode_encode, map_map]
  exact (map_congr_left (fun c _ => rfl)).trans (map_id cs)

theorem isWellFormed_encode (cs : List Char) : isWellFormed (encode cs) = true := by
  unfold isWellFormed
  rw [decode_encode, all_map]
  exact all_eq_true.2 (fun _ _ => rfl)

theorem isWellFormed_iff : isWellFormed us = true ↔ ∃ cs, us = encode cs :=
  ⟨fun h => ⟨scalars us, (encode_scalars h).symm⟩, fun ⟨cs, h⟩ => h ▸ isWellFormed_encode cs⟩

theorem scalars_eq_nil : scalars us = [] ↔ us = [] := by
  unfold scalars
  rw [map_eq_nil_iff]
  constructor
  · intro h
    cases us with
    | nil => rfl
    | cons u us =>
      rw [decode.eq_def] at h
      dsimp only at h
      split at h
      · split at h
        · cases h
        · split at h <;> cases h
      · split at h <;> cases h
  · rintro rfl
    rfl

theorem nul_mem_encode {cs : List Char} : (0 : UInt16) ∈ encode cs ↔ Char.ofNat 0 ∈ cs := by
  unfold encode
  rw [mem_flatMap]
  have hunit : ∀ c : Char, (0 : UInt16) ∈ units c ↔ c = Char.ofNat 0 := by
    intro c
    have hc := char_cases c
    have hzero : ∀ {n : Nat}, n < 65536 → ((0 : UInt16) = UInt16.ofNat n ↔ n = 0) := by
      intro n hn
      rw [← UInt16.toNat_inj, toNat_ofNat16 hn]
      exact eq_comm
    unfold units
    by_cases hsmall : c.toNat < 0x10000
    · rw [if_pos hsmall, mem_singleton, hzero hsmall]
      constructor
      · intro h
        rw [← h, Char.ofNat_toNat]
      · rintro rfl
        rfl
    · rw [if_neg hsmall, mem_cons, mem_singleton, hzero (by omega), hzero (by omega)]
      constructor
      · intro h
        omega
      · rintro rfl
        exact absurd (by decide) hsmall
  constructor
  · rintro ⟨c, hc, hmem⟩
    exact (hunit c).1 hmem ▸ hc
  · intro hmem
    exact ⟨_, hmem, (hunit _).2 rfl⟩

end Utf16
