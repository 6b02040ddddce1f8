import Mathlib.Logic.Basic
import Mathlib.Tactic.Common

/-!
Programs over a mutable state that may fail or panic, and the rules of their weakest
preconditions.

An error keeps the state it was raised in, as a function with `&mut` arguments does. A panic is
an outcome of its own, so that a proof of any weakest precondition is a proof that there is none.
-/

namespace ExfatEmbedded.Library

/-- How a run ends: with a value, with an error the caller sees, or in a panic. -/
inductive Outcome (ε α : Type) where
  | ok (a : α)
  | err (e : ε)
  | panic
  deriving DecidableEq, Repr

instance {ε α : Type} {p : α → Prop} [∀ a, Decidable (p a)] :
    ∀ o : Outcome ε α, Decidable (∀ a, o = .ok a → p a)
  | .ok a => decidable_of_iff (p a) ⟨fun h _ ha => by cases ha; exact h, fun h => h a rfl⟩
  | .err _ => .isTrue nofun
  | .panic => .isTrue nofun

/-- A program over the state `σ`. -/
def Exec (σ ε α : Type) : Type := σ → Outcome ε α × σ

namespace Exec

variable {σ τ ε α β ρ : Type}

instance : Monad (Exec σ ε) where
  pure a := fun s => (.ok a, s)
  bind m f := fun s =>
    match m s with
    | (.ok a, t) => f a t
    | (.err e, t) => (.err e, t)
    | (.panic, t) => (.panic, t)

def throw (e : ε) : Exec σ ε α := fun s => (.err e, s)
def panic : Exec σ ε α := fun s => (.panic, s)
def get : Exec σ ε σ := fun s => (.ok s, s)
def modify (f : σ → σ) : Exec σ ε Unit := fun s => (.ok (), f s)

/-- `Option::ok_or` followed by `?`. -/
def okOr (e : ε) : Option α → Exec σ ε α
  | some a => pure a
  | none => throw e

lemma okOr_some (e : ε) (a : α) : (okOr e (some a) : Exec σ ε α) = pure a := rfl

lemma okOr_none (e : ε) : (okOr e none : Exec σ ε α) = throw e := rfl

/-- The value when `p` holds, and a panic when it does not. -/
def assert (p : Prop) [Decidable p] : Exec σ ε Unit := if p then pure () else panic

/-- Run `m` only when `p` holds. -/
def when (p : Prop) [Decidable p] (m : Exec σ ε Unit) : Exec σ ε Unit := if p then m else pure ()

/-- Run on the first part of a pair of states. -/
def onFst (m : Exec σ ε α) : Exec (σ × τ) ε α := fun s =>
  match m s.1 with
  | (o, t) => (o, (t, s.2))

/-- Run on the second part of a pair of states. -/
def onSnd (m : Exec τ ε α) : Exec (σ × τ) ε α := fun s =>
  match m s.2 with
  | (o, t) => (o, (s.1, t))

instance : MonadLift (Exec σ ε) (Exec (σ × τ) ε) := ⟨onFst⟩

def getSnd : Exec (σ × τ) ε τ := fun s => (.ok s.2, s)
def modifySnd (f : τ → τ) : Exec (σ × τ) ε Unit := fun s => (.ok (), (s.1, f s.2))

/-- Run with a second state of its own, which is returned with the value. -/
def withSnd (t : τ) (m : Exec (σ × τ) ε α) : Exec σ ε (α × τ) := fun s =>
  match m (s, t) with
  | (.ok a, s') => (.ok (a, s'.2), s'.1)
  | (.err e, s') => (.err e, s'.1)
  | (.panic, s') => (.panic, s'.1)

/-- Undo the change to the second state when the run ends in an error. -/
def restoreSnd (t : τ) (m : Exec (σ × τ) ε α) : Exec (σ × τ) ε α := fun s =>
  match m s with
  | (.err e, s') => (.err e, (s'.1, t))
  | r => r

/-- A run whose error is a value. -/
def attempt (m : Exec σ ε α) : Exec σ ε (Except ε α) := fun s =>
  match m s with
  | (.ok a, t) => (.ok (.ok a), t)
  | (.err e, t) => (.ok (.error e), t)
  | (.panic, t) => (.panic, t)

/-- At most `n` rounds of `body`, the first numbered `i`. A round ends the loop with `inl`, the
`return` or `break` of the source, or hands its loop variables to the next round with `inr`. -/
def loop (body : ℕ → β → Exec σ ε (ρ ⊕ β)) : ℕ → ℕ → β → Exec σ ε (ρ ⊕ β)
  | _, 0, b => pure (.inr b)
  | i, n + 1, b => do
    match ← body i b with
    | .inl r => pure (.inl r)
    | .inr b' => loop body (i + 1) n b'

lemma bind_apply (m : Exec σ ε α) (f : α → Exec σ ε β) (s : σ) :
    (m >>= f) s = match m s with
      | (.ok a, t) => f a t
      | (.err e, t) => (.err e, t)
      | (.panic, t) => (.panic, t) := rfl

instance : LawfulMonad (Exec σ ε) :=
  LawfulMonad.mk' _
    (fun m => by
      funext s
      change (m >>= pure) s = m s
      rw [bind_apply]
      rcases m s with ⟨_ | _ | _, t⟩ <;> rfl)
    (fun _ _ => rfl)
    (fun m f g => by
      funext s
      rw [bind_apply, bind_apply, bind_apply]
      rcases m s with ⟨_ | _ | _, t⟩ <;> rfl)

lemma bind_ok {m : Exec σ ε α} {f : α → Exec σ ε β} {s t : σ} {a : α} (h : m s = (.ok a, t)) :
    (m >>= f) s = f a t := by rw [bind_apply, h]

lemma bind_ok_iff {m : Exec σ ε α} {f : α → Exec σ ε β} {s : σ} {b : β} :
    ((m >>= f) s).1 = .ok b ↔ ∃ a t, m s = (.ok a, t) ∧ (f a t).1 = .ok b := by
  rw [bind_apply]
  rcases m s with ⟨a | e | _, t⟩ <;> simp

lemma bind_err {m : Exec σ ε α} {f : α → Exec σ ε β} {s t : σ} {e : ε} (h : m s = (.err e, t)) :
    (m >>= f) s = (.err e, t) := by rw [bind_apply, h]

lemma bind_panic {m : Exec σ ε α} {f : α → Exec σ ε β} {s t : σ} (h : m s = (.panic, t)) :
    (m >>= f) s = (.panic, t) := by rw [bind_apply, h]

/-- Two runs have the same outcome when their first parts have, and so have what follows these. -/
lemma bind_outcome {m : Exec σ ε α} {f : α → Exec σ ε β} {s t : σ} (h : (m s).1 = (m t).1)
    (hf : ∀ a s' t', m s = (.ok a, s') → m t = (.ok a, t') → (f a s').1 = (f a t').1) :
    ((m >>= f) s).1 = ((m >>= f) t).1 := by
  rcases hs : m s with ⟨a | e | _, s'⟩ <;> rcases ht : m t with ⟨b | e' | _, t'⟩ <;>
    rw [hs, ht] at h <;> cases h
  · rw [bind_ok hs, bind_ok ht]
    exact hf a s' t' hs ht
  · rw [bind_err hs, bind_err ht]
  · rw [bind_panic hs, bind_panic ht]

lemma map_err {m : Exec σ ε α} (f : α → β) {s t : σ} {e : ε} (h : m s = (.err e, t)) :
    (f <$> m) s = (.err e, t) := bind_err h

lemma lift_ok {m : Exec σ ε α} {a : α} {s t : σ} (h : m s = (.ok a, t)) (u : τ) :
    (liftM m : Exec (σ × τ) ε α) (s, u) = (.ok a, (t, u)) := by
  change onFst m (s, u) = _
  rw [onFst, h]

lemma loop_succ (body : ℕ → β → Exec σ ε (ρ ⊕ β)) (i n : ℕ) (b : β) :
    loop body i (n + 1) b = body i b >>= fun r =>
      match r with
      | .inl r => pure (.inl r)
      | .inr b' => loop body (i + 1) n b' := rfl

lemma loop_err {body : ℕ → β → Exec σ ε (ρ ⊕ β)} {i n : ℕ} {b : β} {s t : σ} {e : ε}
    (h : body i b s = (.err e, t)) (hn : 0 < n) : loop body i n b s = (.err e, t) := by
  obtain ⟨n, rfl⟩ : ∃ k, n = k + 1 := ⟨n - 1, by omega⟩
  rw [loop_succ, bind_err h]

/-- The weakest precondition: a value satisfies `Q`, an error `E`, and there is no panic. -/
def wp (m : Exec σ ε α) (Q : α → σ → Prop) (E : ε → σ → Prop) (s : σ) : Prop :=
  match m s with
  | (.ok a, t) => Q a t
  | (.err e, t) => E e t
  | (.panic, _) => False

variable {Q Q' : α → σ → Prop} {E E' : ε → σ → Prop} {s : σ}

@[simp] lemma wp_pure (a : α) : wp (pure a : Exec σ ε α) Q E = Q a := rfl
@[simp] lemma wp_throw (e : ε) : wp (throw e : Exec σ ε α) Q E = E e := rfl
@[simp] lemma wp_panic : wp (panic : Exec σ ε α) Q E = fun _ => False := rfl
@[simp] lemma wp_get {Q : σ → σ → Prop} : wp (get : Exec σ ε σ) Q E = fun s => Q s s := rfl
@[simp] lemma wp_modify {Q : Unit → σ → Prop} (f : σ → σ) :
    wp (modify f : Exec σ ε Unit) Q E = fun s => Q () (f s) := rfl

@[simp] lemma wp_bind {Q : β → σ → Prop} (m : Exec σ ε α) (f : α → Exec σ ε β) :
    wp (m >>= f) Q E = wp m (fun a => wp (f a) Q E) E := by
  funext s
  unfold wp
  rw [bind_apply]
  rcases m s with ⟨_ | _ | _, t⟩ <;> rfl

@[simp] lemma wp_map {Q : β → σ → Prop} (f : α → β) (m : Exec σ ε α) :
    wp (f <$> m) Q E = wp m (fun a => Q (f a)) E := by
  change wp (m >>= fun a => pure (f a)) Q E = _
  rw [wp_bind]
  rfl

@[simp] lemma wp_ite (p : Prop) [Decidable p] (m n : Exec σ ε α) :
    wp (if p then m else n) Q E = fun s => (p → wp m Q E s) ∧ (¬ p → wp n Q E s) := by
  by_cases h : p <;> simp [h]

@[simp] lemma wp_assert {Q : Unit → σ → Prop} (p : Prop) [Decidable p] :
    wp (assert p : Exec σ ε Unit) Q E = fun s => p ∧ Q () s := by
  by_cases h : p <;> simp [assert, h]

@[simp] lemma wp_when {Q : Unit → σ → Prop} (p : Prop) [Decidable p] (m : Exec σ ε Unit) :
    wp (when p m) Q E = fun s => (p → wp m Q E s) ∧ (¬ p → Q () s) := by
  simp [when]

@[simp] lemma wp_okOr (e : ε) (o : Option α) :
    wp (okOr e o : Exec σ ε α) Q E =
      fun s => (∀ a, o = some a → Q a s) ∧ (o = none → E e s) := by
  cases o <;> simp [okOr]

lemma wp_mono (m : Exec σ ε α) (h : wp m Q E s) (hQ : ∀ a t, Q a t → Q' a t)
    (hE : ∀ e t, E e t → E' e t) : wp m Q' E' s := by
  unfold wp at h ⊢
  rcases hm : m s with ⟨_ | _ | _, t⟩ <;> rw [hm] at h <;> simp only at h ⊢
  · exact hQ _ _ h
  · exact hE _ _ h

lemma wp_and (m : Exec σ ε α) (h : wp m Q E s) (h' : wp m Q' E' s) :
    wp m (fun a t => Q a t ∧ Q' a t) (fun e t => E e t ∧ E' e t) s := by
  unfold wp at h h' ⊢
  rcases hm : m s with ⟨_ | _ | _, t⟩ <;> rw [hm] at h h' <;> simp only at h h' ⊢
  · exact ⟨h, h'⟩
  · exact ⟨h, h'⟩

lemma wp_ok {m : Exec σ ε α} {a : α} {t : σ} (h : m s = (.ok a, t)) : wp m Q E s ↔ Q a t := by
  unfold wp; rw [h]

lemma wp_err {m : Exec σ ε α} {e : ε} {t : σ} (h : m s = (.err e, t)) : wp m Q E s ↔ E e t := by
  unfold wp; rw [h]

lemma wp_run {m : Exec σ ε α} (h : wp m Q E s) :
    wp m (fun a t => Q a t ∧ m s = (.ok a, t)) (fun e t => E e t ∧ m s = (.err e, t)) s := by
  unfold wp at h ⊢
  rcases hm : m s with ⟨_ | _ | _, t⟩ <;> rw [hm] at h
  · exact ⟨h, rfl⟩
  · exact ⟨h, rfl⟩
  · exact h

lemma run_eq {m : Exec σ ε α} {o : Outcome ε α} (h : (m s).1 = o) : m s = (o, (m s).2) := by
  rw [← h]

lemma exists_of_wp {m : Exec σ ε α} (h : wp m Q (fun _ _ => False) s) :
    ∃ a t, m s = (.ok a, t) ∧ Q a t := by
  unfold wp at h
  rcases hm : m s with ⟨_ | _ | _, t⟩ <;> rw [hm] at h
  · exact ⟨_, _, rfl, h⟩
  · exact h.elim
  · exact h.elim

lemma exists_err_of_wp {m : Exec σ ε α} (h : wp m (fun _ _ => False) E s) :
    ∃ e t, m s = (.err e, t) ∧ E e t := by
  unfold wp at h
  rcases hm : m s with ⟨_ | _ | _, t⟩ <;> rw [hm] at h
  · exact h.elim
  · exact ⟨_, _, rfl, h⟩
  · exact h.elim

@[simp] lemma wp_lift {Q : α → σ × τ → Prop} {E : ε → σ × τ → Prop} (m : Exec σ ε α) :
    wp (liftM m : Exec (σ × τ) ε α) Q E =
      fun s => wp m (fun a t => Q a (t, s.2)) (fun e t => E e (t, s.2)) s.1 := by
  funext s
  change wp (onFst m) Q E s = _
  unfold wp onFst
  rcases m s.1 with ⟨_ | _ | _, t⟩ <;> rfl

@[simp] lemma wp_lift_lift {υ : Type} {Q : α → (σ × τ) × υ → Prop} {E : ε → (σ × τ) × υ → Prop}
    (m : Exec σ ε α) :
    wp (liftM m : Exec ((σ × τ) × υ) ε α) Q E = fun s =>
      wp m (fun a t => Q a ((t, s.1.2), s.2)) (fun e t => E e ((t, s.1.2), s.2)) s.1.1 := by
  funext s
  change wp (onFst (onFst m)) Q E s = _
  unfold wp onFst
  rcases m s.1.1 with ⟨_ | _ | _, t⟩ <;> rfl

@[simp] lemma wp_onSnd {Q : α → σ × τ → Prop} {E : ε → σ × τ → Prop} (m : Exec τ ε α) :
    wp (onSnd m : Exec (σ × τ) ε α) Q E =
      fun s => wp m (fun a t => Q a (s.1, t)) (fun e t => E e (s.1, t)) s.2 := by
  funext s
  unfold wp onSnd
  rcases m s.2 with ⟨_ | _ | _, t⟩ <;> rfl

@[simp] lemma wp_getSnd {Q : τ → σ × τ → Prop} {E : ε → σ × τ → Prop} :
    wp (getSnd : Exec (σ × τ) ε τ) Q E = fun s => Q s.2 s := rfl
@[simp] lemma wp_modifySnd {Q : Unit → σ × τ → Prop} {E : ε → σ × τ → Prop} (f : τ → τ) :
    wp (modifySnd f : Exec (σ × τ) ε Unit) Q E = fun s => Q () (s.1, f s.2) := rfl

@[simp] lemma wp_withSnd {Q : α × τ → σ → Prop} (t : τ) (m : Exec (σ × τ) ε α) :
    wp (withSnd t m) Q E =
      fun s => wp m (fun a u => Q (a, u.2) u.1) (fun e u => E e u.1) (s, t) := by
  funext s
  unfold wp withSnd
  rcases m (s, t) with ⟨_ | _ | _, u⟩ <;> rfl

@[simp] lemma wp_restoreSnd {Q : α → σ × τ → Prop} {E : ε → σ × τ → Prop}
    (t : τ) (m : Exec (σ × τ) ε α) :
    wp (restoreSnd t m) Q E = wp m Q (fun e u => E e (u.1, t)) := by
  funext s
  unfold wp restoreSnd
  rcases m s with ⟨_ | _ | _, u⟩ <;> rfl

@[simp] lemma wp_attempt {Q : Except ε α → σ → Prop} (m : Exec σ ε α) :
    wp (attempt m) Q E = wp m (fun a => Q (.ok a)) (fun e => Q (.error e)) := by
  funext s
  unfold wp attempt
  rcases m s with ⟨_ | _ | _, t⟩ <;> rfl

/-- **The loop rule.** `I i b` holds before round `i` with loop variables `b`. -/
theorem wp_loop {body : ℕ → β → Exec σ ε (ρ ⊕ β)} {R : ρ → σ → Prop}
    {I : ℕ → β → σ → Prop} {i n : ℕ} {b : β}
    (hstep : ∀ j b s, i ≤ j → j < i + n → I j b s →
      wp (body j b) (Sum.elim R (I (j + 1))) E s)
    (h0 : I i b s) : wp (loop body i n b) (Sum.elim R (I (i + n))) E s := by
  induction n generalizing i b s with
  | zero => simpa [loop] using h0
  | succ n ih =>
    rw [loop, wp_bind]
    refine wp_mono _ (hstep i b s (Nat.le_refl i) (by omega) h0) ?_ (fun _ _ h => h)
    rintro (r | b') t ht
    · simpa using ht
    · have := ih (i := i + 1) (fun j b s h1 h2 => hstep j b s (by omega) (by omega)) ht
      rwa [show i + 1 + n = i + (n + 1) by omega] at this

/-- The loop rule for an arbitrary postcondition. -/
theorem wp_loop_post {body : ℕ → β → Exec σ ε (ρ ⊕ β)} {Q : ρ ⊕ β → σ → Prop}
    (I : ℕ → β → σ → Prop) {i n : ℕ} {b : β} (h0 : I i b s)
    (hstep : ∀ j b s, i ≤ j → j < i + n → I j b s →
      wp (body j b) (Sum.elim (fun r => Q (.inl r)) (I (j + 1))) E s)
    (hend : ∀ b s, I (i + n) b s → Q (.inr b) s) : wp (loop body i n b) Q E s := by
  refine wp_mono _ (wp_loop hstep h0) ?_ (fun _ _ h => h)
  rintro (r | b') t ht
  · exact ht
  · exact hend _ _ ht

end Exec

end ExfatEmbedded.Library
