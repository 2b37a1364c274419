import Mathlib.Data.List.Basic
/-!
# Readers — what a reader of bytes accepts

A reader takes bytes off the front of its input or throws.  `ReadsAs d R` says that it answers `a` exactly when what it took
and `a` are related by `R`: that it accepts every such encoding, and nothing else.  A reader that is put together from
others reads what they read one after another, so that a decoder's relation can be compared with its encoder.
-/
namespace Readers

open List

abbrev Reader (ε : Type) := StateT (List UInt8) (Except ε)

variable {ε α β : Type}

def ReadsAs (d : Reader ε α) (R : List UInt8 → α → Prop) : Prop :=
  ∀ input a rest, d.run input = .ok (a, rest) ↔ ∃ bytes, R bytes a ∧ input = bytes ++ rest

/-- The next `n` bytes. -/
def take (error : ε) (n : Nat) : Reader ε (List UInt8) := fun input =>
  if n ≤ input.length then .ok (input.take n, input.drop n) else .error error

def times (d : Reader ε α) : Nat → Reader ε (List α)
  | 0     => pure []
  | n + 1 => do
    let a ← d
    let rest ← times d n
    pure (a :: rest)

def all (error : ε) (d : Reader ε α) (input : List UInt8) : Except ε α :=
  match d.run input with
  | .error e        => .error e
  | .ok (a, [])     => .ok a
  | .ok (_, _ :: _) => .error error

variable {R R' : List UInt8 → α → Prop}

variable {d : Reader ε α}

theorem ReadsAs.congr (h : ReadsAs d R) (hR : ∀ bytes a, R bytes a ↔ R' bytes a) : ReadsAs d R' := by
  intro input a rest
  rw [h input a rest]
  exact exists_congr (fun bytes => and_congr_left' (hR bytes a))

theorem reads_pure (c : α) : ReadsAs (pure c : Reader ε α) (fun bytes a => bytes = [] ∧ a = c) := by
  intro input a rest
  rw [StateT.run_pure]
  constructor
  · intro h
    cases h
    exact ⟨[], ⟨rfl, rfl⟩, rfl⟩
  · rintro ⟨bytes, ⟨rfl, rfl⟩, rfl⟩
    rfl

theorem reads_throw (e : ε) : ReadsAs (throw e : Reader ε α) (fun _ _ => False) := by
  intro input a rest
  constructor
  · intro h
    cases h
  · rintro ⟨_, h, _⟩
    cases h

variable {k : α → Reader ε β}

/-- **One reader after another.** -/
theorem ReadsAs.bind {S : α → List UInt8 → β → Prop} (h : ReadsAs d R)
    (hk : ∀ a, ReadsAs (k a) (S a)) :
    ReadsAs (d >>= k) (fun bytes b => ∃ first second a, bytes = first ++ second ∧ R first a ∧ S a second b) := by
  intro input b rest
  rw [StateT.run_bind]
  constructor
  · intro hrun
    cases hd : d.run input with
    | error e =>
      rw [hd] at hrun
      cases hrun
    | ok result =>
      obtain ⟨a, middle⟩ := result
      rw [hd] at hrun
      obtain ⟨first, hfirst, rfl⟩ := (h input a middle).1 hd
      obtain ⟨second, hsecond, rfl⟩ := (hk a middle b rest).1 hrun
      exact ⟨first ++ second, ⟨first, second, a, rfl, hfirst, hsecond⟩, (append_assoc _ _ _).symm⟩
  · rintro ⟨_, ⟨first, second, a, rfl, hfirst, hsecond⟩, rfl⟩
    rw [(h _ a (second ++ rest)).2 ⟨first, hfirst, append_assoc _ _ _⟩]
    exact (hk a (second ++ rest) b rest).2 ⟨second, hsecond, rfl⟩

theorem ReadsAs.field {enc : α → List UInt8} {S : α → List UInt8 → β → Prop}
    (h : ReadsAs d (fun bytes a => bytes = enc a)) (hk : ∀ a, ReadsAs (k a) (S a)) :
    ReadsAs (d >>= k) (fun bytes b => ∃ a rest, bytes = enc a ++ rest ∧ S a rest b) := by
  refine (h.bind hk).congr (fun bytes b => ⟨?_, ?_⟩)
  · rintro ⟨_, rest, a, rfl, rfl, hrest⟩
    exact ⟨a, rest, rfl, hrest⟩
  · rintro ⟨a, rest, rfl, hrest⟩
    exact ⟨_, rest, a, rfl, rfl, hrest⟩

theorem ReadsAs.via {γ : Type} {enc : γ → List UInt8} {c : γ → α}
    {S : γ → List UInt8 → β → Prop} (h : ReadsAs d (fun bytes a => ∃ v, bytes = enc v ∧ a = c v))
    (hk : ∀ v, ReadsAs (k (c v)) (S v)) :
    ReadsAs (d >>= k) (fun bytes b => ∃ v rest, bytes = enc v ++ rest ∧ S v rest b) := by
  intro input b rest
  rw [StateT.run_bind]
  constructor
  · intro hrun
    cases hd : d.run input with
    | error e =>
      rw [hd] at hrun
      cases hrun
    | ok result =>
      obtain ⟨a, middle⟩ := result
      rw [hd] at hrun
      obtain ⟨_, ⟨v, rfl, rfl⟩, rfl⟩ := (h input a middle).1 hd
      obtain ⟨second, hsecond, rfl⟩ := (hk v middle b rest).1 hrun
      exact ⟨enc v ++ second, ⟨v, second, rfl, hsecond⟩, (append_assoc _ _ _).symm⟩
  · rintro ⟨_, ⟨v, second, rfl, hsecond⟩, rfl⟩
    rw [(h _ (c v) (second ++ rest)).2 ⟨enc v, ⟨v, rfl, rfl⟩, append_assoc _ _ _⟩]
    exact (hk v (second ++ rest) b rest).2 ⟨second, hsecond, rfl⟩

theorem ReadsAs.last {f : α → β} (h : ReadsAs d R) :
    ReadsAs (d >>= fun a => pure (f a)) (fun bytes b => ∃ a, R bytes a ∧ b = f a) := by
  refine (h.bind (fun a => reads_pure (f a))).congr (fun bytes b => ⟨?_, ?_⟩)
  · rintro ⟨bytes, _, a, rfl, hfirst, rfl, rfl⟩
    rw [append_nil]
    exact ⟨a, hfirst, rfl⟩
  · rintro ⟨a, hfirst, rfl⟩
    exact ⟨bytes, [], a, (append_nil _).symm, hfirst, rfl, rfl⟩

theorem ReadsAs.unless (h : ReadsAs d R) (c : Prop) [Decidable c] (e : ε) :
    ReadsAs (if c then throw e else d) (fun bytes a => ¬ c ∧ R bytes a) := by
  by_cases hc : c
  · rw [if_pos hc]
    exact (reads_throw e).congr (fun _ _ => ⟨False.elim, fun hnot => hnot.1 hc⟩)
  · rw [if_neg hc]
    exact h.congr (fun _ _ => ⟨fun hr => ⟨hc, hr⟩, And.right⟩)

theorem reads_take (e : ε) (n : Nat) : ReadsAs (take e n) (fun bytes a => bytes = a ∧ a.length = n) := by
  intro input a rest
  show (if n ≤ input.length then .ok (input.take n, input.drop n) else .error e : Except ε (List UInt8 × List UInt8)) =
    .ok (a, rest) ↔ _
  by_cases hn : n ≤ input.length
  · rw [if_pos hn]
    constructor
    · intro h
      cases h
      exact ⟨_, ⟨rfl, length_take_of_le hn⟩, (take_append_drop n input).symm⟩
    · rintro ⟨_, ⟨rfl, rfl⟩, rfl⟩
      rw [take_left, drop_left]
  · rw [if_neg hn]
    constructor
    · intro h
      cases h
    · rintro ⟨_, ⟨rfl, rfl⟩, rfl⟩
      rw [length_append] at hn
      exact absurd (Nat.le_add_right _ _) hn

inductive Each (R : List UInt8 → α → Prop) : List UInt8 → List α → Prop
  | nil : Each R [] []
  | cons {bytes rest : List UInt8} {a : α} {as : List α} : R bytes a → Each R rest as → Each R (bytes ++ rest) (a :: as)

theorem reads_times (h : ReadsAs d R) :
    ∀ n, ReadsAs (times d n) (fun bytes as => as.length = n ∧ Each R bytes as)
  | 0 => by
    refine (reads_pure []).congr (fun bytes as => ⟨?_, ?_⟩)
    · rintro ⟨rfl, rfl⟩
      exact ⟨rfl, .nil⟩
    · rintro ⟨hlen, heach⟩
      cases heach with
      | nil => exact ⟨rfl, rfl⟩
      | cons _ _ => cases hlen
  | n + 1 => by
    refine (h.bind (fun a => (reads_times h n).bind (fun as => reads_pure (a :: as)))).congr (fun bytes as => ⟨?_, ?_⟩)
    · rintro ⟨first, second, a, rfl, hfirst, rest, last, as, rfl, ⟨hlen, heach⟩, rfl, rfl⟩
      rw [append_nil]
      exact ⟨congrArg Nat.succ hlen, .cons hfirst heach⟩
    · rintro ⟨hlen, heach⟩
      cases heach with
      | nil => cases hlen
      | @cons bytes rest a as hfirst heach =>
        exact ⟨bytes, rest, a, rfl, hfirst, rest, [], as, (append_nil _).symm, ⟨Nat.succ.inj hlen, heach⟩, rfl, rfl⟩

/-- **A whole input.** -/
theorem ReadsAs.all (h : ReadsAs d R) (e : ε) (input : List UInt8) (a : α) :
    Readers.all e d input = .ok a ↔ R input a := by
  unfold Readers.all
  have hnil := h input a []
  rw [exists_congr (fun bytes => by rw [append_nil])] at hnil
  have hR : (∃ bytes, R bytes a ∧ input = bytes) ↔ R input a := by
    constructor
    · rintro ⟨_, hr, rfl⟩
      exact hr
    · exact fun hr => ⟨input, hr, rfl⟩
  rw [← hR, ← hnil]
  cases hd : d.run input with
  | error e' => exact ⟨fun hc => (by cases hc), fun hc => (by cases hc)⟩
  | ok result =>
    obtain ⟨b, rest⟩ := result
    cases rest with
    | nil =>
      constructor
      · intro hc
        cases hc
        rfl
      · intro hc
        cases hc
        rfl
    | cons x xs => exact ⟨fun hc => (by cases hc), fun hc => (by cases hc)⟩

end Readers
