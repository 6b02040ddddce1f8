import ExfatEmbedded.Library.Exec

/-!
Programs which never end with a given error.
-/

namespace ExfatEmbedded.Library.Exec

variable {σ τ ε α β ρ : Type} {e : ε}

/-- No run of `m` ends with the error `e`. -/
def Never (e : ε) (m : Exec σ ε α) : Prop := ∀ s, (m s).1 ≠ .err e

lemma never_pure (a : α) : Never e (pure a : Exec σ ε α) := fun _ => nofun

lemma never_throw {e' : ε} (h : e' ≠ e) : Never e (throw e' : Exec σ ε α) := by
  intro s hs
  cases hs
  exact h rfl

lemma never_panic : Never e (panic : Exec σ ε α) := fun _ => nofun

lemma never_get : Never e (get : Exec σ ε σ) := fun _ => nofun

lemma never_modify (f : σ → σ) : Never e (modify f : Exec σ ε Unit) := fun _ => nofun

lemma never_getSnd : Never e (getSnd : Exec (σ × τ) ε τ) := fun _ => nofun

lemma never_modifySnd (f : τ → τ) : Never e (modifySnd f : Exec (σ × τ) ε Unit) := fun _ => nofun

lemma never_okOr {e' : ε} (h : e' ≠ e) (o : Option α) : Never e (okOr e' o : Exec σ ε α) := by
  cases o with
  | none => exact never_throw h
  | some a => exact never_pure a

lemma never_assert (p : Prop) [Decidable p] : Never e (assert p : Exec σ ε Unit) := by
  unfold assert
  split_ifs
  · exact never_pure ()
  · exact never_panic

lemma Never.bind {m : Exec σ ε α} {f : α → Exec σ ε β} (hm : Never e m) (hf : ∀ a, Never e (f a)) :
    Never e (m >>= f) := by
  intro s
  rw [bind_apply]
  rcases h : m s with ⟨a | e' | _, t⟩
  · exact hf a t
  · intro heq
    apply hm s
    rw [h]
    cases heq
    rfl
  · nofun

lemma Never.ite {p : Prop} [Decidable p] {m n : Exec σ ε α} (hm : p → Never e m)
    (hn : ¬ p → Never e n) : Never e (if p then m else n) := by
  split_ifs with h
  · exact hm h
  · exact hn h

lemma Never.when {p : Prop} [Decidable p] {m : Exec σ ε Unit} (hm : Never e m) :
    Never e (when p m) := Never.ite (fun _ => hm) fun _ => never_pure ()

lemma Never.lift {m : Exec σ ε α} (hm : Never e m) : Never e (liftM m : Exec (σ × τ) ε α) := by
  intro s
  change (onFst m s).1 ≠ _
  unfold onFst
  exact hm s.1

lemma Never.withSnd {m : Exec (σ × τ) ε α} (hm : Never e m) (t : τ) : Never e (withSnd t m) := by
  intro s
  have h := hm (s, t)
  unfold Exec.withSnd
  rcases hrun : m (s, t) with ⟨a | e' | _, u⟩
  · nofun
  · rw [hrun] at h
    intro heq
    apply h
    cases heq
    rfl
  · nofun

lemma never_loop {body : ℕ → β → Exec σ ε (ρ ⊕ β)} (h : ∀ i b, Never e (body i b)) (i n : ℕ)
    (b : β) :
    Never e (loop body i n b) := by
  induction n generalizing i b with
  | zero => exact never_pure _
  | succ n ih =>
    rw [loop_succ]
    refine (h i b).bind fun r => ?_
    cases r with
    | inl r => exact never_pure _
    | inr b' => exact ih (i + 1) b'

end ExfatEmbedded.Library.Exec
