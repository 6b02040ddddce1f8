import ExfatEmbedded.Library.Exec

/-!
The weakest liberal precondition: what holds of a run that returns.
-/

namespace ExfatEmbedded.Library.Exec

variable {σ ε α β ρ : Type}

/-- A run that returns a value satisfies `Q`. -/
def wlp (m : Exec σ ε α) (Q : α → σ → Prop) (s : σ) : Prop :=
  ∀ a t, m s = (.ok a, t) → Q a t

variable {Q Q' : α → σ → Prop} {s : σ}

@[simp] lemma wlp_pure (a : α) : wlp (pure a : Exec σ ε α) Q = Q a := by
  funext s
  refine propext ⟨fun h => h a s rfl, ?_⟩
  rintro h b t heq
  cases heq
  exact h

@[simp] lemma wlp_throw (e : ε) : wlp (throw e : Exec σ ε α) Q = fun _ => True := by
  funext s
  exact propext ⟨fun _ => trivial, fun _ _ _ h => nomatch h⟩

@[simp] lemma wlp_panic : wlp (panic : Exec σ ε α) Q = fun _ => True := by
  funext s
  exact propext ⟨fun _ => trivial, fun _ _ _ h => nomatch h⟩

@[simp] lemma wlp_get {Q : σ → σ → Prop} : wlp (get : Exec σ ε σ) Q = fun s => Q s s := by
  funext s
  refine propext ⟨fun h => h s s rfl, ?_⟩
  rintro h b t heq
  cases heq
  exact h

@[simp] lemma wlp_modify {Q : Unit → σ → Prop} (f : σ → σ) :
    wlp (modify f : Exec σ ε Unit) Q = fun s => Q () (f s) := by
  funext s
  refine propext ⟨fun h => h () (f s) rfl, ?_⟩
  rintro h b t heq
  cases heq
  exact h

@[simp] lemma wlp_bind {Q : β → σ → Prop} (m : Exec σ ε α) (f : α → Exec σ ε β) :
    wlp (m >>= f) Q = wlp m fun a => wlp (f a) Q := by
  funext s
  refine propext ⟨fun h a t ha b u hb => h b u (by rw [bind_ok ha, hb]), fun h b u hrun => ?_⟩
  rw [bind_apply] at hrun
  rcases hm : m s with ⟨a | _ | _, t⟩
  · rw [hm] at hrun
    exact h a t hm b u hrun
  · rw [hm] at hrun
    cases hrun
  · rw [hm] at hrun
    cases hrun

@[simp] lemma wlp_map {Q : β → σ → Prop} (f : α → β) (m : Exec σ ε α) :
    wlp (f <$> m) Q = wlp m fun a => Q (f a) := by
  change wlp (m >>= fun a => pure (f a)) Q = _
  rw [wlp_bind]
  simp only [wlp_pure]

@[simp] lemma wlp_ite (p : Prop) [Decidable p] (m n : Exec σ ε α) :
    wlp (if p then m else n) Q = fun s => (p → wlp m Q s) ∧ (¬ p → wlp n Q s) := by
  by_cases h : p <;> simp [h]

@[simp] lemma wlp_assert {Q : Unit → σ → Prop} (p : Prop) [Decidable p] :
    wlp (assert p : Exec σ ε Unit) Q = fun s => p → Q () s := by
  by_cases h : p <;> simp [assert, h]

@[simp] lemma wlp_when {Q : Unit → σ → Prop} (p : Prop) [Decidable p] (m : Exec σ ε Unit) :
    wlp (when p m) Q = fun s => (p → wlp m Q s) ∧ (¬ p → Q () s) := by
  simp [when]

@[simp] lemma wlp_okOr (e : ε) (o : Option α) :
    wlp (okOr e o : Exec σ ε α) Q = fun s => ∀ a, o = some a → Q a s := by
  cases o <;> simp [okOr]

lemma wlp_mono (m : Exec σ ε α) (h : wlp m Q s) (hQ : ∀ a t, Q a t → Q' a t) : wlp m Q' s :=
  fun a t hrun => hQ a t (h a t hrun)

/-- **The loop rule for runs that return.** `I i b` holds before round `i` with loop variables
`b`. -/
theorem wlp_loop {body : ℕ → β → Exec σ ε (ρ ⊕ β)} {Q : ρ ⊕ β → σ → Prop}
    (I : ℕ → β → σ → Prop) {i n : ℕ} {b : β} (h0 : I i b s)
    (hstep : ∀ j b s, i ≤ j → j < i + n → I j b s →
      wlp (body j b) (Sum.elim (fun r => Q (.inl r)) (I (j + 1))) s)
    (hend : ∀ b s, I (i + n) b s → Q (.inr b) s) : wlp (loop body i n b) Q s := by
  induction n generalizing i b s with
  | zero => simpa [loop] using hend b s (by simpa using h0)
  | succ n ih =>
    rw [loop, wlp_bind]
    refine wlp_mono _ (hstep i b s (Nat.le_refl i) (by omega) h0) ?_
    rintro (r | b') t ht
    · simpa using ht
    · refine ih ht (fun j b s h1 h2 => hstep j b s (by omega) (by omega)) fun b s h => ?_
      exact hend b s (by rwa [show i + (n + 1) = i + 1 + n by omega])

end ExfatEmbedded.Library.Exec
