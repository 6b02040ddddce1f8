import ExfatEmbedded.Library.Exec

/-!
Invariants of programs that may fail or panic.

`leaves` is the weakest precondition which allows a panic, and `Preserves I` says that a program
keeps `I` whatever its outcome.
-/

namespace ExfatEmbedded.Library.Exec

variable {σ τ ε α β ρ : Type}

/-- A value satisfies `Q`; a run which ends otherwise leaves a state with `R`. -/
def leaves (m : Exec σ ε α) (Q : α → σ → Prop) (R : σ → Prop) (s : σ) : Prop :=
  match m s with
  | (.ok a, t) => Q a t
  | (.err _, t) => R t
  | (.panic, t) => R t

section Rules

variable {Q Q' : α → σ → Prop} {R R' : σ → Prop} {s : σ}

@[simp] lemma leaves_pure (a : α) : leaves (pure a : Exec σ ε α) Q R = Q a := rfl
@[simp] lemma leaves_throw (e : ε) : leaves (throw e : Exec σ ε α) Q R = R := rfl
@[simp] lemma leaves_panic : leaves (panic : Exec σ ε α) Q R = R := rfl
@[simp] lemma leaves_get {Q : σ → σ → Prop} : leaves (get : Exec σ ε σ) Q R = fun s => Q s s := rfl
@[simp] lemma leaves_modify {Q : Unit → σ → Prop} (f : σ → σ) :
    leaves (modify f : Exec σ ε Unit) Q R = fun s => Q () (f s) := rfl

@[simp] lemma leaves_bind {Q : β → σ → Prop} (m : Exec σ ε α) (f : α → Exec σ ε β) :
    leaves (m >>= f) Q R = leaves m (fun a => leaves (f a) Q R) R := by
  funext s
  unfold leaves
  rw [bind_apply]
  rcases m s with ⟨_ | _ | _, t⟩ <;> rfl

@[simp] lemma leaves_map {Q : β → σ → Prop} (f : α → β) (m : Exec σ ε α) :
    leaves (f <$> m) Q R = leaves m (fun a => Q (f a)) R := by
  change leaves (m >>= fun a => pure (f a)) Q R = _
  rw [leaves_bind]
  rfl

@[simp] lemma leaves_ite (p : Prop) [Decidable p] (m n : Exec σ ε α) :
    leaves (if p then m else n) Q R =
      fun s => (p → leaves m Q R s) ∧ (¬ p → leaves n Q R s) := by
  by_cases h : p <;> simp [h]

@[simp] lemma leaves_assert {Q : Unit → σ → Prop} (p : Prop) [Decidable p] :
    leaves (assert p : Exec σ ε Unit) Q R = fun s => (p → Q () s) ∧ (¬ p → R s) := by
  by_cases h : p <;> simp [assert, h]

@[simp] lemma leaves_when {Q : Unit → σ → Prop} (p : Prop) [Decidable p] (m : Exec σ ε Unit) :
    leaves (when p m) Q R = fun s => (p → leaves m Q R s) ∧ (¬ p → Q () s) := by
  simp [when]

@[simp] lemma leaves_okOr (e : ε) (o : Option α) :
    leaves (okOr e o : Exec σ ε α) Q R =
      fun s => (∀ a, o = some a → Q a s) ∧ (o = none → R s) := by
  cases o <;> simp [okOr]

lemma leaves_mono (m : Exec σ ε α) (h : leaves m Q R s) (hQ : ∀ a t, Q a t → Q' a t)
    (hR : ∀ t, R t → R' t) : leaves m Q' R' s := by
  unfold leaves at h ⊢
  rcases hm : m s with ⟨_ | _ | _, t⟩ <;> rw [hm] at h <;> simp only at h ⊢
  · exact hQ _ _ h
  · exact hR _ h
  · exact hR _ h

lemma leaves_of_wp {E : ε → σ → Prop} {m : Exec σ ε α} (h : wp m Q E s)
    (hE : ∀ e t, E e t → R t) : leaves m Q R s := by
  unfold wp at h
  unfold leaves
  rcases hm : m s with ⟨_ | _ | _, t⟩ <;> rw [hm] at h <;> simp only at h ⊢
  · exact h
  · exact hE _ _ h

lemma leaves_run {m : Exec σ ε α} (h : leaves m Q R s) :
    leaves m (fun a t => Q a t ∧ m s = (.ok a, t)) R s := by
  unfold leaves at h ⊢
  rcases hm : m s with ⟨_ | _ | _, t⟩ <;> rw [hm] at h
  · exact ⟨h, rfl⟩
  · exact h
  · exact h

@[simp] lemma leaves_lift {Q : α → σ × τ → Prop} {R : σ × τ → Prop} (m : Exec σ ε α) :
    leaves (liftM m : Exec (σ × τ) ε α) Q R =
      fun s => leaves m (fun a t => Q a (t, s.2)) (fun t => R (t, s.2)) s.1 := by
  funext s
  change leaves (onFst m) Q R s = _
  unfold leaves onFst
  rcases m s.1 with ⟨_ | _ | _, t⟩ <;> rfl

@[simp] lemma leaves_getSnd {Q : τ → σ × τ → Prop} {R : σ × τ → Prop} :
    leaves (getSnd : Exec (σ × τ) ε τ) Q R = fun s => Q s.2 s := rfl
@[simp] lemma leaves_modifySnd {Q : Unit → σ × τ → Prop} {R : σ × τ → Prop} (f : τ → τ) :
    leaves (modifySnd f : Exec (σ × τ) ε Unit) Q R = fun s => Q () (s.1, f s.2) := rfl

@[simp] lemma leaves_withSnd {Q : α × τ → σ → Prop} (t : τ) (m : Exec (σ × τ) ε α) :
    leaves (withSnd t m) Q R =
      fun s => leaves m (fun a u => Q (a, u.2) u.1) (fun u => R u.1) (s, t) := by
  funext s
  unfold leaves withSnd
  rcases m (s, t) with ⟨_ | _ | _, u⟩ <;> rfl

lemma leaves_restoreSnd {Q : α → σ × τ → Prop} {R R' : σ × τ → Prop} {s : σ × τ} (t : τ)
    {m : Exec (σ × τ) ε α} (h : leaves m Q R s) (hR : ∀ u, R u → R' u ∧ R' (u.1, t)) :
    leaves (restoreSnd t m) Q R' s := by
  unfold leaves at h
  unfold leaves restoreSnd
  rcases hm : m s with ⟨_ | _ | _, u⟩ <;> rw [hm] at h
  · exact h
  · exact (hR u h).2
  · exact (hR u h).1

lemma leaves_attempt {Q : Except ε α → σ → Prop} {m : Exec σ ε α}
    (h : leaves m (fun a => Q (.ok a)) (fun t => R t ∧ ∀ e, Q (.error e) t) s) :
    leaves (attempt m) Q R s := by
  unfold leaves at h
  unfold leaves attempt
  rcases hm : m s with ⟨_ | e | _, u⟩ <;> rw [hm] at h
  · exact h
  · exact h.2 e
  · exact h.1

/-- The loop rule. -/
theorem leaves_loop {body : ℕ → β → Exec σ ε (ρ ⊕ β)} {Q : ρ ⊕ β → σ → Prop}
    (I : ℕ → β → σ → Prop) {i n : ℕ} {b : β} (h0 : I i b s)
    (hstep : ∀ j b s, i ≤ j → j < i + n → I j b s →
      leaves (body j b) (Sum.elim (fun r => Q (.inl r)) (I (j + 1))) R s)
    (hend : ∀ b s, I (i + n) b s → Q (.inr b) s) : leaves (loop body i n b) Q R s := by
  induction n generalizing i b s with
  | zero => exact hend b s h0
  | succ n ih =>
    rw [loop, leaves_bind]
    refine leaves_mono _ (hstep i b s (Nat.le_refl i) (by omega) h0) ?_ (fun _ h => h)
    rintro (r | b') t ht
    · exact ht
    · refine ih ht (fun j b s h1 h2 => hstep j b s (by omega) (by omega)) fun b s h => ?_
      exact hend b s (by rwa [show i + 1 + n = i + (n + 1) by omega] at h)

end Rules

/-- `m` keeps `I`. -/
def Preserves (I : σ → Prop) (m : Exec σ ε α) : Prop := ∀ s, I s → leaves m (fun _ => I) I s

namespace Preserves

variable {I : σ → Prop}

lemma pure (a : α) : Preserves I (pure a : Exec σ ε α) := fun _ h => h
lemma throw (e : ε) : Preserves I (throw e : Exec σ ε α) := fun _ h => h
lemma panic : Preserves I (panic : Exec σ ε α) := fun _ h => h
lemma get : Preserves I (get : Exec σ ε σ) := fun _ h => h

lemma bind {m : Exec σ ε α} {f : α → Exec σ ε β} (h : Preserves I m)
    (hf : ∀ a, Preserves I (f a)) : Preserves I (m >>= f) := by
  intro s hs
  rw [leaves_bind]
  exact leaves_mono _ (h s hs) (fun a t ht => hf a t ht) fun _ h => h

lemma map {m : Exec σ ε α} (f : α → β) (h : Preserves I m) : Preserves I (f <$> m) :=
  bind h fun _ => pure _

lemma ite {p : Prop} [Decidable p] {m n : Exec σ ε α} (hm : p → Preserves I m)
    (hn : ¬ p → Preserves I n) : Preserves I (if p then m else n) := by
  by_cases h : p
  · rw [if_pos h]
    exact hm h
  · rw [if_neg h]
    exact hn h

lemma assert (p : Prop) [Decidable p] : Preserves I (assert p : Exec σ ε Unit) :=
  ite (fun _ => pure ()) fun _ => panic

lemma when {p : Prop} [Decidable p] {m : Exec σ ε Unit} (h : Preserves I m) :
    Preserves I (when p m) := ite (fun _ => h) fun _ => pure ()

lemma okOr (e : ε) (o : Option α) : Preserves I (okOr e o : Exec σ ε α) := by
  cases o
  · exact throw e
  · exact pure _

lemma modify {f : σ → σ} (h : ∀ s, I s → I (f s)) : Preserves I (modify f : Exec σ ε Unit) := h

lemma loop {body : ℕ → β → Exec σ ε (ρ ⊕ β)} (h : ∀ i b, Preserves I (body i b)) (i n : ℕ)
    (b : β) : Preserves I (loop body i n b) := by
  intro s hs
  refine leaves_loop (fun _ _ => I) hs (fun j b t _ _ ht => ?_) fun _ _ h => h
  refine leaves_mono _ (h j b t ht) ?_ fun _ h => h
  rintro (r | b') u hu <;> exact hu

lemma lift {m : Exec σ ε α} (h : Preserves I m) :
    Preserves (fun s : σ × τ => I s.1) (liftM m : Exec (σ × τ) ε α) := by
  intro s hs
  rw [leaves_lift]
  exact h s.1 hs

lemma getSnd : Preserves (fun s : σ × τ => I s.1) (getSnd : Exec (σ × τ) ε τ) := fun _ h => h

lemma modifySnd (f : τ → τ) :
    Preserves (fun s : σ × τ => I s.1) (modifySnd f : Exec (σ × τ) ε Unit) := fun _ h => h

lemma run {m : Exec σ ε α} (h : Preserves I m) {s : σ} (hs : I s) : I (m s).2 := by
  have hm := h s hs
  unfold leaves at hm
  rcases hr : m s with ⟨_ | _ | _, t⟩ <;> rw [hr] at hm <;> exact hm

end Preserves

end ExfatEmbedded.Library.Exec
