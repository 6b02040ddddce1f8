import Mathlib.Logic.Function.Basic

/-!
Runs of machines which answer requests.

`Refines` says that a machine answers as another one does from related states, `Refines.run` that it
does so over whole runs. `family` is a machine with one memory and a handle for each of its clients;
it refines a machine in which the clients share nothing when a request of one client keeps what the
others see. `beside` adds steps which no one waits for.
-/

namespace ExfatEmbedded.Library.Runs

variable {σ τ q r p : Type*}

/-- The answers to a sequence of requests, and the state they leave. -/
def run (m : q → σ → r × σ) : List q → σ → List r × σ
  | [], s => ([], s)
  | x :: xs, s => ((m x s).1 :: (run m xs (m x s).2).1, (run m xs (m x s).2).2)

/-- Each request of a run is admitted where it is made. -/
def Admits (m : q → σ → r × σ) (A : q → σ → Prop) : List q → σ → Prop
  | [], _ => True
  | x :: xs, s => A x s ∧ Admits m A xs (m x s).2

instance Admits.decidable (m : q → σ → r × σ) (A : q → σ → Prop) [∀ x s, Decidable (A x s)] :
    ∀ xs s, Decidable (Admits m A xs s)
  | [], _ => inferInstanceAs (Decidable True)
  | x :: xs, s => @instDecidableAnd _ _ _ (Admits.decidable m A xs (m x s).2)

/-- Where a request is admitted, `m` answers it as `m'` does from a related state, and the states
stay related. -/
def Refines (m : q → σ → r × σ) (m' : q → τ → r × τ) (A : q → σ → Prop) (R : σ → τ → Prop) : Prop :=
  ∀ x s t, R s t → A x s → (m x s).1 = (m' x t).1 ∧ R (m x s).2 (m' x t).2

variable {m : q → σ → r × σ} {m' : q → τ → r × τ} {A : q → σ → Prop} {R : σ → τ → Prop}

@[simp] lemma run_cons (x : q) (xs : List q) (s : σ) :
    run m (x :: xs) s = ((m x s).1 :: (run m xs (m x s).2).1, (run m xs (m x s).2).2) := rfl

/-- **Refinement of runs.** -/
theorem Refines.run (h : Refines m m' A R) (xs : List q) {s : σ} {t : τ} (hR : R s t)
    (hA : Admits m A xs s) :
    (Runs.run m xs s).1 = (Runs.run m' xs t).1 ∧ R (Runs.run m xs s).2 (Runs.run m' xs t).2 := by
  induction xs generalizing s t with
  | nil => exact ⟨rfl, hR⟩
  | cons x xs ih =>
    obtain ⟨hx, hxs⟩ := hA
    obtain ⟨hanswer, hnext⟩ := h x s t hR hx
    obtain ⟨hanswers, hlast⟩ := ih hnext hxs
    simp only [run_cons]
    exact ⟨by rw [hanswer, hanswers], hlast⟩

/-- A machine with requests whose outcome is not looked at. -/
def beside (m : q → σ → r × σ) (n : p → σ → σ) : q ⊕ p → σ → Option r × σ
  | .inl x, s => (some (m x s).1, (m x s).2)
  | .inr y, s => (none, n y s)

/-- What keeps the states related does not disturb a refinement. -/
theorem Refines.beside {n : p → σ → σ} {B : p → σ → Prop} (h : Refines m m' A R)
    (hn : ∀ y s t, R s t → B y s → R (n y s) t) :
    Refines (beside m n) (beside m' fun _ t => t) (fun x s => x.elim (A · s) (B · s)) R := by
  rintro (x | y) s t hR hA
  · obtain ⟨hanswer, hnext⟩ := h x s t hR hA
    exact ⟨congrArg some hanswer, hnext⟩
  · exact ⟨rfl, hn y s t hR hA⟩

/-! ### Clients of one memory -/

section Family

variable {ι μ φ α : Type*} [DecidableEq ι]

/-- A memory with a handle for each client. -/
def family (m : ι → q → μ × φ → r × (μ × φ)) (x : ι × q) (s : μ × (ι → φ)) : r × (μ × (ι → φ)) :=
  let a := m x.1 x.2 (s.1, s.2 x.1)
  (a.1, a.2.1, Function.update s.2 x.1 a.2.2)

/-- Clients which share nothing. -/
def separate (m : q → α → r × α) (x : ι × q) (s : ι → α) : r × (ι → α) :=
  let a := m x.2 (s x.1)
  (a.1, Function.update s x.1 a.2)

/-- **A family refines separate clients** when each client does, and a request of one of them keeps
what the others see. -/
theorem family_refines {m : ι → q → μ × φ → r × (μ × φ)} {m' : q → α → r × α}
    {A : ι → q → μ × φ → Prop} {R : ι → μ → φ → α → Prop}
    (hstep : ∀ i x u f a, R i u f a → A i x (u, f) → (m i x (u, f)).1 = (m' x a).1 ∧
      R i (m i x (u, f)).2.1 (m i x (u, f)).2.2 (m' x a).2)
    (hframe : ∀ i j x u f a g b, i ≠ j → R i u f a → A i x (u, f) → R j u g b →
      R j (m i x (u, f)).2.1 g b) :
    Refines (family m) (separate m') (fun x s => A x.1 x.2 (s.1, s.2 x.1))
      fun s t => ∀ i, R i s.1 (s.2 i) (t i) := by
  rintro ⟨i, x⟩ ⟨u, f⟩ t hR hA
  obtain ⟨hanswer, hself⟩ := hstep i x u (f i) (t i) (hR i) hA
  refine ⟨hanswer, fun j => ?_⟩
  simp only [family, separate]
  by_cases hj : j = i
  · subst hj
    simpa only [Function.update_self] using hself
  · simp only [Function.update_of_ne hj]
    exact hframe i j x u (f i) (t i) (f j) (t j) (Ne.symm hj) (hR i) hA (hR j)

end Family

end ExfatEmbedded.Library.Runs
