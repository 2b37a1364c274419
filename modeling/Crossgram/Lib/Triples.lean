import Mathlib.Logic.Basic
/-!
# Triples — stateful programs that can stop

A program runs on a state and ends with a value or is stopped by an exception; either way it leaves a state behind.
`Triple P m Q E`: from a state with `P` the program ends with `Q`, or is stopped with `E`.
-/
namespace Triples

/-- A program over the state `σ` that exceptions `ε` can stop. -/
abbrev Program (σ ε α : Type) := ExceptT ε (StateM σ) α

variable {σ ε α β : Type}

def exec (m : Program σ ε α) (s : σ) : Except ε α × σ := m.run s

theorem exec_bind (m : Program σ ε α) (f : α → Program σ ε β) (s : σ) :
    exec (m >>= f) s = match exec m s with
      | (.ok a, s')    => exec (f a) s'
      | (.error e, s') => (.error e, s') := by
  show (ExceptT.bindCont f (exec m s).1).run (exec m s).2 = _
  rcases exec m s with ⟨_ | _, s'⟩ <;> rfl

theorem exec_tryCatch (m : Program σ ε α) (f : ε → Program σ ε α) (s : σ) :
    exec (tryCatch m f) s = match exec m s with
      | (.ok a, s')    => (.ok a, s')
      | (.error e, s') => exec (f e) s' := by
  show ((match (exec m s).1 with
    | .ok a    => pure (.ok a)
    | .error e => f e : StateM σ (Except ε α))).run (exec m s).2 = _
  rcases exec m s with ⟨_ | _, s'⟩ <;> rfl

def Ends (Q : α → σ → Prop) (E : ε → σ → Prop) : Except ε α × σ → Prop
  | (.ok a, s)    => Q a s
  | (.error e, s) => E e s

def Triple (P : σ → Prop) (m : Program σ ε α) (Q : α → σ → Prop) (E : ε → σ → Prop) : Prop :=
  ∀ s, P s → Ends Q E (exec m s)

variable {P P' : σ → Prop} {Q Q' : α → σ → Prop} {E E' : ε → σ → Prop} {R : β → σ → Prop}

namespace Triple

variable {m : Program σ ε α}

theorem weaken (h : Triple P' m Q' E') (hP : ∀ s, P s → P' s) (hQ : ∀ a s, Q' a s → Q a s)
    (hE : ∀ e s, E' e s → E e s) : Triple P m Q E := by
  intro s hs
  have := h s (hP s hs)
  revert this
  rcases exec m s with ⟨_ | _, s'⟩
  · exact hE _ _
  · exact hQ _ _

theorem pure {a : α} (h : ∀ s, P s → Q a s) : Triple P (Pure.pure a : Program σ ε α) Q E := fun s hs => h s hs

theorem throw {e : ε} (h : ∀ s, P s → E e s) : Triple P (throw e : Program σ ε α) Q E := fun s hs => h s hs

theorem bind {f : α → Program σ ε β} (hm : Triple P m Q E) (hf : ∀ a, Triple (Q a) (f a) R E) :
    Triple P (m >>= f) R E := by
  intro s hs
  have := hm s hs
  rw [exec_bind]
  revert this
  rcases exec m s with ⟨e | a, s'⟩
  · exact id
  · exact hf a s'

theorem tryCatch {f : ε → Program σ ε α} (hm : Triple P m Q E') (hf : ∀ e, Triple (E' e) (f e) Q E) :
    Triple P (tryCatch m f) Q E := by
  intro s hs
  have := hm s hs
  rw [exec_tryCatch]
  revert this
  rcases exec m s with ⟨e | a, s'⟩
  · exact hf e s'
  · exact id

theorem get {Q : σ → σ → Prop} (h : ∀ s, P s → Q s s) : Triple P (getThe σ : Program σ ε σ) Q E := fun s hs => h s hs

theorem modify {f : σ → σ} {Q : PUnit → σ → Prop} (h : ∀ s, P s → Q ⟨⟩ (f s)) :
    Triple P (modify f : Program σ ε PUnit) Q E := fun s hs => h s hs

theorem and (h : Triple P m Q E) (h' : Triple P m Q' E') :
    Triple P m (fun a s => Q a s ∧ Q' a s) (fun e s => E e s ∧ E' e s) := by
  intro s hs
  have hs' := h' s hs
  have hs := h s hs
  revert hs hs'
  rcases exec m s with ⟨_ | _, s'⟩
  · exact fun hs' hs => ⟨hs, hs'⟩
  · exact fun hs' hs => ⟨hs, hs'⟩

/-- **A loop keeps what each turn keeps.** -/
theorem forM {ι : Type} {f : ι → Program σ ε PUnit} (h : ∀ i, Triple P (f i) (fun _ => P) E) :
    ∀ is : List ι, Triple P (is.forM f) (fun _ => P) E
  | []      => pure (fun _ hs => hs)
  | i :: is => bind (h i) (fun _ => forM h is)

end Triple

end Triples
