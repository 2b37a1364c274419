import Crossgram.Lib.Runs
import Mathlib.Logic.Function.Basic
/-!
# Programs — threads that call a shared state, under interference

A program is a tree of calls, each answered by a shared state.  Threads run programs and are interleaved call by call
with each other and with writes from outside; each thread carries the history of its calls.  `Safe rely post` is what a
program guarantees when everything else only moves the shared state along `rely`: after any calls, whatever it returns
meets `post`, and keeps meeting it.  `safe_of_reachable` is the rely-guarantee rule: when every step of a system moves
along `rely`, every finished thread has met the postcondition of its request.
-/
namespace Programs

open Function List

/-- A program over calls `E` answered in `A`. -/
inductive Prog (E : Type) (A : E → Type) (α : Type) : Type
  | done (a : α)
  | call (e : E) (next : A e → Prog E A α)

namespace Prog

variable {E : Type} {A : E → Type} {α β : Type}

def bind : Prog E A α → (α → Prog E A β) → Prog E A β
  | done a,      k => k a
  | call e next, k => call e (fun a => bind (next a) k)

instance : Monad (Prog E A) where
  pure := done
  bind := bind

def perform (e : E) : Prog E A (A e) := call e done

/-- The program makes no other calls than `ok` ones. -/
def Only (ok : E → Prop) : Prog E A α → Prop
  | done _      => True
  | call e next => ok e ∧ ∀ a, Only ok (next a)

theorem Only.bind {ok : E → Prop} {k : α → Prog E A β} (hk : ∀ a, Only ok (k a)) :
    ∀ {p : Prog E A α}, Only ok p → Only ok (p.bind k)
  | done a,    _ => hk a
  | call _ _, hp => ⟨hp.1, fun a => Only.bind hk (hp.2 a)⟩

@[simp] theorem pure_eq (a : α) : (pure a : Prog E A α) = done a := rfl

@[simp] theorem bind_eq (p : Prog E A α) (k : α → Prog E A β) : p >>= k = bind p k := rfl

end Prog

structure Performed (σ E : Type) (A : E → Type) where
  effect : E
  before : σ
  answer : A effect

structure IsRely {σ : Type} (rely : σ → σ → Prop) : Prop where
  trans : ∀ {s s' s''}, rely s s' → rely s' s'' → rely s s''
  stay : ∀ {s s'}, rely s s' → rely s' s'

/-- `h'` is `h` and then calls that are `ok`. -/
def Extends {σ E : Type} {A : E → Type} (ok : E → Prop) (h h' : List (Performed σ E A)) : Prop :=
  ∃ added, h' = h ++ added ∧ ∀ r ∈ added, ok r.effect

theorem Extends.trans {σ E : Type} {A : E → Type} {ok : E → Prop} {h h' h'' : List (Performed σ E A)}
    (h₁ : Extends ok h h') (h₂ : Extends ok h' h'') : Extends ok h h'' := by
  obtain ⟨l, rfl, hl⟩ := h₁
  obtain ⟨r, rfl, hr⟩ := h₂
  refine ⟨l ++ r, by rw [append_assoc], fun x hx => ?_⟩
  rcases mem_append.1 hx with hx | hx
  · exact hl x hx
  · exact hr x hx

theorem Extends.filterMap_eq {σ E γ : Type} {A : E → Type} {ok : E → Prop} {h h' : List (Performed σ E A)}
    (hext : Extends ok h h') {f : Performed σ E A → Option γ} (hf : ∀ r, ok r.effect → f r = none) :
    h'.filterMap f = h.filterMap f := by
  obtain ⟨added, rfl, hadded⟩ := hext
  have hnil : added.filterMap f = [] := by
    rw [filterMap_eq_nil_iff]
    exact fun r hr => hf r (hadded r hr)
  rw [filterMap_append, hnil, append_nil]

section Safe

variable {σ ι E : Type} {A : E → Type} {α β : Type}
variable (exec : (e : E) → ι → σ → Option (σ × A e)) (rely : σ → σ → Prop)

/-- Whatever the program returns, between calls that meet states moved along `rely`, meets `post` from then on. -/
def Safe (post : List (Performed σ E A) → α → σ → Prop) : Prog E A α → List (Performed σ E A) → σ → Prop
  | .done a,      h, s => ∀ s', rely s s' → post h a s'
  | .call e next, h, s => ∀ s', rely s s' → ∀ x s'' a, exec e x s' = some (s'', a) →
      Safe post (next a) (h ++ [⟨e, s', a⟩]) s''

variable {exec rely}

variable {post : List (Performed σ E A) → α → σ → Prop}

theorem Safe.moved (hr : IsRely rely) :
    ∀ {p : Prog E A α} {h : List (Performed σ E A)} {s s' : σ}, Safe exec rely post p h s → rely s s' →
    Safe exec rely post p h s'
  | .done _,   _, _, _, hp, hs => fun s'' hs' => hp s'' (hr.trans hs hs')
  | .call _ _, _, _, _, hp, hs => fun s'' hs' => hp s'' (hr.trans hs hs')

theorem Safe.of_moved (hr : IsRely rely) :
    ∀ {p : Prog E A α} {h : List (Performed σ E A)} {s : σ}, (∀ s', rely s s' → Safe exec rely post p h s') →
    Safe exec rely post p h s
  | .done _,   _, _, hp => fun s' hs => hp s' hs s' (hr.stay hs)
  | .call _ _, _, _, hp => fun s' hs => hp s' hs s' (hr.stay hs)

theorem Safe.mono {post post' : List (Performed σ E A) → α → σ → Prop} (hpost : ∀ h a s, post h a s → post' h a s) :
    ∀ {p : Prog E A α} {h : List (Performed σ E A)} {s : σ}, Safe exec rely post p h s → Safe exec rely post' p h s
  | .done _,      _, _, hp => fun s' hs => hpost _ _ _ (hp s' hs)
  | .call _ next, _, _, hp => fun s' hs x s'' a he => Safe.mono hpost (p := next a) (hp s' hs x s'' a he)

/-- **Sequencing**: the first program's postcondition is that the second is safe. -/
theorem Safe.bind (hr : IsRely rely) {post : List (Performed σ E A) → β → σ → Prop} {k : α → Prog E A β} :
    ∀ {p : Prog E A α} {h : List (Performed σ E A)} {s : σ},
    Safe exec rely (fun h a s => Safe exec rely post (k a) h s) p h s → Safe exec rely post (p.bind k) h s
  | .done _,      _, _, hp => Safe.of_moved hr hp
  | .call _ next, _, _, hp => fun s' hs x s'' a he => Safe.bind hr (p := next a) (hp s' hs x s'' a he)

theorem Safe.and {post post' : List (Performed σ E A) → α → σ → Prop} :
    ∀ {p : Prog E A α} {h : List (Performed σ E A)} {s : σ}, Safe exec rely post p h s → Safe exec rely post' p h s →
    Safe exec rely (fun h a s => post h a s ∧ post' h a s) p h s
  | .done _,      _, _, hp, hp' => fun s' hs => ⟨hp s' hs, hp' s' hs⟩
  | .call _ next, _, _, hp, hp' => fun s' hs x s'' a he =>
    Safe.and (p := next a) (hp s' hs x s'' a he) (hp' s' hs x s'' a he)

theorem safe_moved (hr : IsRely rely) (hcall : ∀ e x s s' a, rely s s → exec e x s = some (s', a) → rely s s') :
    ∀ (p : Prog E A α) (h : List (Performed σ E A)) (s : σ), Safe exec rely (fun _ _ s' => rely s s') p h s
  | .done _,      _, _ => fun _ hs => hs
  | .call _ next, h, _ => fun s' hs _ s'' a he =>
    Safe.mono (fun _ _ _ ht => hr.trans (hr.trans hs (hcall _ _ _ _ _ (hr.stay hs) he)) ht)
      (safe_moved hr hcall (next a) (h ++ [⟨_, s', a⟩]) s'')

theorem safe_extends {ok : E → Prop} : ∀ {p : Prog E A α} {h : List (Performed σ E A)} {s : σ}, p.Only ok →
    Safe exec rely (fun h' _ _ => Extends ok h h') p h s
  | .done _,      h, _, _  => fun _ _ => ⟨[], (append_nil h).symm, fun _ hr => absurd hr not_mem_nil⟩
  | .call e next, h, _, hp => fun s' _ x s'' a _ =>
    Safe.mono (fun _ _ _ ht => .trans ⟨[⟨e, s', a⟩], rfl, fun r hr => by rw [mem_singleton.1 hr]; exact hp.1⟩ ht)
      (safe_extends (hp.2 a))

theorem Safe.perform_bind {e : E} {k : A e → Prog E A α} {h : List (Performed σ E A)} {s : σ}
    (hk : ∀ s', rely s s' → ∀ x s'' a, exec e x s' = some (s'', a) →
      Safe exec rely post (k a) (h ++ [⟨e, s', a⟩]) s'') :
    Safe exec rely post ((Prog.perform e).bind k) h s := hk

end Safe

/-! ## Systems of threads -/

structure System (σ ω ι ρ α E : Type) (A : E → Type) where
  write : σ → ω → Option σ
  exec : (e : E) → ι → σ → Option (σ × A e)
  program : ρ → Prog E A α

structure Thread (σ ρ α E : Type) (A : E → Type) where
  request : ρ
  prog : Prog E A α
  history : List (Performed σ E A)

structure Finished (σ ρ α E : Type) (A : E → Type) where
  thread : Nat
  request : ρ
  history : List (Performed σ E A)
  response : α

structure World (σ ρ α E : Type) (A : E → Type) where
  shared : σ
  threads : Nat → Option (Thread σ ρ α E A)
  finished : List (Finished σ ρ α E A)

inductive Action (ω ι ρ : Type)
  | write (o : ω)
  | start (i : Nat) (q : ρ)
  | perform (i : Nat) (x : ι)
  | finish (i : Nat)

namespace System

variable {σ ω ι ρ α E : Type} {A : E → Type} (S : System σ ω ι ρ α E A)

def idle (s : σ) : World σ ρ α E A := ⟨s, fun _ => none, []⟩

def step (w : World σ ρ α E A) : Action ω ι ρ → Option (World σ ρ α E A)
  | .write o => (S.write w.shared o).map (fun s => { w with shared := s })
  | .start i q =>
    match w.threads i with
    | some _ => none
    | none   => some { w with threads := Function.update w.threads i (some ⟨q, S.program q, []⟩) }
  | .perform i x =>
    match w.threads i with
    | some ⟨q, .call e next, h⟩ =>
      (S.exec e x w.shared).map (fun r =>
        { w with shared := r.1,
                 threads := Function.update w.threads i (some ⟨q, next r.2, h ++ [⟨e, w.shared, r.2⟩]⟩) })
    | _ => none
  | .finish i =>
    match w.threads i with
    | some ⟨q, .done a, h⟩ =>
      some { w with threads := Function.update w.threads i none, finished := w.finished ++ [⟨i, q, h, a⟩] }
    | _ => none

variable {S}

theorem step_cases {w w' : World σ ρ α E A} {a : Action ω ι ρ} (h : S.step w a = some w') :
    (∃ o s, a = .write o ∧ S.write w.shared o = some s ∧ w' = { w with shared := s }) ∨
    (∃ i q, a = .start i q ∧ w.threads i = none ∧
      w' = { w with threads := Function.update w.threads i (some ⟨q, S.program q, []⟩) }) ∨
    (∃ i x q e next hist s ans, a = .perform i x ∧ w.threads i = some ⟨q, .call e next, hist⟩ ∧
      S.exec e x w.shared = some (s, ans) ∧
      w' = { w with shared := s,
                    threads := Function.update w.threads i (some ⟨q, next ans, hist ++ [⟨e, w.shared, ans⟩]⟩) }) ∨
    (∃ i q r hist, a = .finish i ∧ w.threads i = some ⟨q, .done r, hist⟩ ∧
      w' = { w with threads := Function.update w.threads i none, finished := w.finished ++ [⟨i, q, hist, r⟩] }) := by
  cases a with
  | write o =>
    obtain ⟨s, hs, rfl⟩ := Option.map_eq_some_iff.1 h
    exact Or.inl ⟨o, s, rfl, hs, rfl⟩
  | start i q =>
    right; left
    simp only [step] at h
    split at h
    · cases h
    · rename_i hi
      cases h
      exact ⟨i, q, rfl, hi, rfl⟩
  | perform i x =>
    right; right; left
    simp only [step] at h
    split at h
    · rename_i q e next hist hi
      obtain ⟨r, hr, rfl⟩ := Option.map_eq_some_iff.1 h
      exact ⟨i, x, q, e, next, hist, r.1, r.2, rfl, hi, hr, rfl⟩
    · cases h
  | finish i =>
    right; right; right
    simp only [step] at h
    split at h
    · rename_i q r hist hi
      cases h
      exact ⟨i, q, r, hist, rfl, hi, rfl⟩
    · cases h

structure AllSafe (S : System σ ω ι ρ α E A) (rely : σ → σ → Prop)
    (post : ρ → List (Performed σ E A) → α → σ → Prop) (w : World σ ρ α E A) : Prop where
  stays : rely w.shared w.shared
  threads : ∀ i th, w.threads i = some th → Safe S.exec rely (post th.request) th.prog th.history w.shared
  finished : ∀ f ∈ w.finished, ∀ s, rely w.shared s → post f.request f.history f.response s

variable {w : World σ ρ α E A}

theorem AllSafe.moved {rely : σ → σ → Prop} (hr : IsRely rely) {post : ρ → List (Performed σ E A) → α → σ → Prop}
    (h : AllSafe S rely post w) {s : σ} (hs : rely w.shared s) :
    AllSafe S rely post { w with shared := s } :=
  ⟨hr.stay hs, fun i th hi => (h.threads i th hi).moved hr hs, fun f hf s' hs' => h.finished f hf s' (hr.trans hs hs')⟩

/-- **The rely-guarantee rule.**  When every allowed write and every call moves the shared state along `rely`, and every
request's program is safe, then so is every world a run reaches. -/
theorem safe_of_reachable {rely : σ → σ → Prop} (hr : IsRely rely)
    {post : ρ → List (Performed σ E A) → α → σ → Prop} {ok : World σ ρ α E A → Action ω ι ρ → Prop} {s₀ : σ}
    (hinit : rely s₀ s₀)
    (hwrite : ∀ w o s, ok w (.write o) → rely w.shared w.shared → S.write w.shared o = some s → rely w.shared s)
    (hexec : ∀ w i x e s a, ok w (.perform i x) → rely w.shared w.shared → S.exec e x w.shared = some (s, a) →
      rely w.shared s)
    (hprog : ∀ q s, rely s s → Safe S.exec rely (post q) (S.program q) [] s)
    (h : Runs.Reachable S.step ok (idle s₀) w) : AllSafe S rely post w := by
  have hidle : AllSafe S rely post (idle s₀) :=
    { stays := hinit
      threads := fun i th hi => by cases hi
      finished := fun f hf => absurd hf not_mem_nil }
  refine h.invariant hidle ?_
  intro w a w' _ hw hok hstep
  rcases step_cases hstep with ⟨o, s, rfl, hs, rfl⟩ | ⟨i, q, rfl, hi, rfl⟩ |
    ⟨i, x, q, e, next, hist, s, ans, rfl, hi, hs, rfl⟩ | ⟨i, q, r, hist, rfl, hi, rfl⟩
  · exact hw.moved hr (hwrite w o s hok hw.stays hs)
  · refine ⟨hw.stays, fun j th hj => ?_, hw.finished⟩
    by_cases hji : j = i
    · subst hji
      simp only [update_self, Option.some.injEq] at hj
      subst hj
      exact hprog q w.shared hw.stays
    · simp only [update_of_ne hji] at hj
      exact hw.threads j th hj
  · have hmove := hexec w i x e s ans hok hw.stays hs
    refine ⟨hr.stay hmove, fun j th hj => ?_, (hw.moved hr hmove).finished⟩
    by_cases hji : j = i
    · subst hji
      simp only [update_self, Option.some.injEq] at hj
      subst hj
      exact hw.threads j _ hi w.shared hw.stays x s ans hs
    · simp only [update_of_ne hji] at hj
      exact (hw.threads j th hj).moved hr hmove
  · refine ⟨hw.stays, fun j th hj => ?_, fun f hf s hs => ?_⟩
    · by_cases hji : j = i
      · subst hji
        simp only [update_self] at hj
        cases hj
      · simp only [update_of_ne hji] at hj
        exact hw.threads j th hj
    · rcases mem_append.1 hf with hf | hf
      · exact hw.finished f hf s hs
      · rw [mem_singleton.1 hf]
        exact hw.threads i _ hi s hs

theorem finished_of_reachable {P : ρ → List (Performed σ E A) → Prop}
    {ok : World σ ρ α E A → Action ω ι ρ → Prop}
    (hok : ∀ w i th, ok w (.finish i) → w.threads i = some th → P th.request th.history) {s₀ : σ}
    (h : Runs.Reachable S.step ok (idle s₀) w) : ∀ f ∈ w.finished, P f.request f.history := by
  refine h.invariant (I := fun w => ∀ f ∈ w.finished, P f.request f.history) (fun f hf => absurd hf not_mem_nil) ?_
  intro w a w' _ hw ha hstep
  rcases step_cases hstep with ⟨o, s, rfl, hs, rfl⟩ | ⟨i, q, rfl, hi, rfl⟩ |
    ⟨i, x, q, e, next, hist, s, ans, rfl, hi, hs, rfl⟩ | ⟨i, q, r, hist, rfl, hi, rfl⟩
  · exact hw
  · exact hw
  · exact hw
  · intro f hf
    rcases mem_append.1 hf with hf | hf
    · exact hw f hf
    · rw [mem_singleton.1 hf]
      exact hok w i _ ha hi

end System

end Programs
