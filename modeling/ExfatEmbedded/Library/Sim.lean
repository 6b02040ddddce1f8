import ExfatEmbedded.Library.Exec

/-!
Two runs of programs from related states: the same outcome, and related states after it.
-/

namespace ExfatEmbedded.Library.Exec

variable {σ τ ε α β ρ : Type}

/-- From states related by `R` both programs end alike: with one value and states related by `S`
there, or with one error or a panic and states related by `E`. -/
def Sim (R : σ → σ → Prop) (S : α → σ → σ → Prop) (E : σ → σ → Prop)
    (m m' : Exec σ ε α) : Prop :=
  ∀ s t, R s t → (m s).1 = (m' t).1 ∧ (∀ a, (m s).1 = .ok a → S a (m s).2 (m' t).2) ∧
    ((∀ a, (m s).1 ≠ .ok a) → E (m s).2 (m' t).2)

variable {R : σ → σ → Prop} {S : α → σ → σ → Prop} {E : σ → σ → Prop}

lemma sim_pure {a : α} (h : ∀ s t, R s t → S a s t) :
    Sim R S E (pure a : Exec σ ε α) (pure a) := by
  refine fun s t hR => ⟨rfl, fun b hb => ?_, fun hn => absurd rfl (hn a)⟩
  cases hb
  exact h s t hR

lemma sim_throw {e : ε} (h : ∀ s t, R s t → E s t) :
    Sim R S E (throw e : Exec σ ε α) (throw e) :=
  fun s t hR => ⟨rfl, fun _ hb => (nomatch hb), fun _ => h s t hR⟩

lemma sim_panic (h : ∀ s t, R s t → E s t) :
    Sim R S E (panic : Exec σ ε α) panic :=
  fun s t hR => ⟨rfl, fun _ hb => (nomatch hb), fun _ => h s t hR⟩

lemma Sim.mono {R' : σ → σ → Prop} {S' : α → σ → σ → Prop} {E' : σ → σ → Prop}
    {m m' : Exec σ ε α} (h : Sim R S E m m')
    (hR : ∀ s t, R' s t → R s t) (hS : ∀ a s t, S a s t → S' a s t) (hE : ∀ s t, E s t → E' s t) :
    Sim R' S' E' m m' := fun s t hst =>
  have h := h s t (hR s t hst)
  ⟨h.1, fun a ha => hS _ _ _ (h.2.1 a ha), fun hn => hE _ _ (h.2.2 hn)⟩

lemma sim_bind {T : β → σ → σ → Prop} {m m' : Exec σ ε β} {f f' : β → Exec σ ε α}
    (h : Sim R T E m m') (hf : ∀ b, Sim (T b) S E (f b) (f' b)) :
    Sim R S E (m >>= f) (m' >>= f') := by
  intro s t hR
  obtain ⟨h1, h2, h3⟩ := h s t hR
  rw [bind_apply, bind_apply]
  rcases hm : m s with ⟨o, s'⟩
  rcases hm' : m' t with ⟨o', t'⟩
  rw [hm, hm'] at h1 h2 h3
  simp only at h1 h2 h3
  subst h1
  rcases o with b | e | _
  · exact hf b s' t' (h2 b rfl)
  · exact ⟨rfl, fun _ hb => (nomatch hb), fun _ => h3 fun _ hb => (nomatch hb)⟩
  · exact ⟨rfl, fun _ hb => (nomatch hb), fun _ => h3 fun _ hb => (nomatch hb)⟩

lemma sim_ite {p : Prop} [Decidable p] {m m' n n' : Exec σ ε α} (h : p → Sim R S E m m')
    (h' : ¬ p → Sim R S E n n') :
    Sim R S E (if p then m else n) (if p then m' else n') := by
  by_cases hp : p
  · rw [if_pos hp, if_pos hp]; exact h hp
  · rw [if_neg hp, if_neg hp]; exact h' hp

lemma sim_okOr {e : ε} {o : Option α} (hS : ∀ a s t, R s t → S a s t) (hE : ∀ s t, R s t → E s t) :
    Sim R S E (okOr e o : Exec σ ε α) (okOr e o) := by
  cases o with
  | none => exact sim_throw hE
  | some a => exact sim_pure (hS a)

lemma sim_attempt {m m' : Exec σ ε α} {S' : Except ε α → σ → σ → Prop} (h : Sim R S E m m')
    (hS : ∀ a s t, S a s t → S' (.ok a) s t) (hE : ∀ e s t, E s t → S' (.error e) s t) :
    Sim R S' E (attempt m) (attempt m') := by
  intro s t hR
  obtain ⟨h1, h2, h3⟩ := h s t hR
  unfold attempt
  rcases hm : m s with ⟨o, s'⟩
  rcases hm' : m' t with ⟨o', t'⟩
  rw [hm, hm'] at h1 h2 h3
  simp only at h1 h2 h3
  subst h1
  rcases o with b | e | _
  · refine ⟨rfl, fun a ha => ?_, fun hn => absurd rfl (hn _)⟩
    cases ha
    exact hS _ _ _ (h2 b rfl)
  · refine ⟨rfl, fun a ha => ?_, fun hn => absurd rfl (hn _)⟩
    cases ha
    exact hE _ _ _ (h3 fun _ hb => (nomatch hb))
  · exact ⟨rfl, fun _ hb => (nomatch hb), fun _ => h3 fun _ hb => (nomatch hb)⟩

lemma sim_loop {body body' : ℕ → β → Exec σ ε (ρ ⊕ β)}
    (h : ∀ i b, Sim R (fun _ => R) E (body i b) (body' i b)) (i n : ℕ) (b : β) :
    Sim R (fun _ => R) E (loop body i n b) (loop body' i n b) := by
  induction n generalizing i b with
  | zero => exact sim_pure fun _ _ h => h
  | succ n ih =>
    refine sim_bind (h i b) fun r => ?_
    rcases r with r | b'
    · exact sim_pure fun _ _ h => h
    · exact ih (i + 1) b'

/-- A program which neither reads nor writes the state. -/
def Stateless (m : Exec σ ε α) : Prop := ∃ o, ∀ s, m s = (o, s)

lemma stateless_pure (a : α) : Stateless (pure a : Exec σ ε α) := ⟨.ok a, fun _ => rfl⟩

lemma stateless_throw (e : ε) : Stateless (throw e : Exec σ ε α) := ⟨.err e, fun _ => rfl⟩

lemma stateless_okOr (e : ε) (o : Option α) : Stateless (okOr e o : Exec σ ε α) := by
  cases o with
  | none => exact stateless_throw e
  | some a => exact stateless_pure a

lemma stateless_assert (p : Prop) [Decidable p] : Stateless (assert p : Exec σ ε Unit) := by
  by_cases h : p
  · exact ⟨.ok (), fun s => by rw [assert, if_pos h]; rfl⟩
  · exact ⟨.panic, fun s => by rw [assert, if_neg h]; rfl⟩

lemma Stateless.bind {m : Exec σ ε β} {f : β → Exec σ ε α} (h : Stateless m)
    (hf : ∀ b, Stateless (f b)) : Stateless (m >>= f) := by
  obtain ⟨o, ho⟩ := h
  rcases o with b | e | _
  · obtain ⟨o', ho'⟩ := hf b
    exact ⟨o', fun s => by rw [bind_apply, ho]; exact ho' s⟩
  · exact ⟨.err e, fun s => by rw [bind_apply, ho]⟩
  · exact ⟨.panic, fun s => by rw [bind_apply, ho]⟩

lemma Stateless.ite {p : Prop} [Decidable p] {m n : Exec σ ε α} (h : Stateless m)
    (h' : Stateless n) : Stateless (if p then m else n) := by
  by_cases hp : p
  · rwa [if_pos hp]
  · rwa [if_neg hp]

lemma stateless_checked (p : Prop) [Decidable p] (k : α) :
    Stateless (do assert p; pure k : Exec σ ε α) :=
  (stateless_assert p).bind fun _ => stateless_pure k

lemma sim_stateless {m : Exec σ ε α} (h : Stateless m) : Sim R (fun _ => R) R m m := by
  obtain ⟨o, ho⟩ := h
  intro s t hR
  rw [ho, ho]
  exact ⟨rfl, fun _ _ => hR, fun _ => hR⟩

lemma sim_assume {p : Prop} {m m' : Exec σ ε α} (h : p → Sim R S E m m') :
    Sim (fun s t => p ∧ R s t) S E m m' := fun s t hst => h hst.1 s t hst.2

lemma sim_checked (p : Prop) [Decidable p] (k : α) :
    Sim R (fun v s t => v = k ∧ R s t) R (do assert p; pure k : Exec σ ε α)
    (do assert p; pure k) := by
  refine sim_bind (sim_stateless (stateless_assert p)) fun _ => ?_
  exact sim_pure fun _ _ h => ⟨rfl, h⟩

lemma sim_of_wp {m m' : Exec σ ε α} {v : α} {P P' : σ → Prop}
    (h : ∀ s t, R s t → wp m (fun a s' => a = v ∧ P s') (fun _ _ => False) s)
    (h' : ∀ s t, R s t → wp m' (fun a t' => a = v ∧ P' t') (fun _ _ => False) t) :
    Sim R (fun a s t => a = v ∧ P s ∧ P' t) E m m' := by
  intro s t hR
  obtain ⟨a, s', hrun, rfl, hs'⟩ := exists_of_wp (h s t hR)
  obtain ⟨b, t', hrun', rfl, ht'⟩ := exists_of_wp (h' s t hR)
  rw [hrun, hrun']
  refine ⟨rfl, fun c hc => ?_, fun hn => absurd rfl (hn b)⟩
  cases hc
  exact ⟨rfl, hs', ht'⟩

/-- A program on the first part of the state keeps a relation which wants the first parts equal
and leaves them otherwise alone. -/
lemma sim_lift {R : σ × τ → σ × τ → Prop} (m : Exec σ ε α) (h1 : ∀ s t, R s t → s.1 = t.1)
    (h2 : ∀ x s t, R s t → R (x, s.2) (x, t.2)) :
    Sim R (fun _ => R) R (liftM m : Exec (σ × τ) ε α) (liftM m) := by
  intro s t hR
  change (onFst m s).1 = (onFst m t).1 ∧ (∀ a, _ → R (onFst m s).2 (onFst m t).2) ∧
    (_ → R (onFst m s).2 (onFst m t).2)
  unfold onFst
  rw [h1 s t hR]
  exact ⟨rfl, fun _ _ => h2 _ _ _ hR, fun _ => h2 _ _ _ hR⟩

/-! ### Changes which come into effect later -/

/-- A run which counts up to `k` at most does not notice that the state was changed by `re`. -/
structure Blind (re : σ → σ) (count : σ → ℕ) (k : ℕ) (m : Exec σ ε α) : Prop where
  mono : ∀ s, count s ≤ count (m s).2
  run : ∀ {s a t}, m s = (.ok a, t) → count t ≤ k → m (re s) = (.ok a, re t)

section Blind

variable {re : σ → σ} {count : σ → ℕ} {k : ℕ}

lemma Stateless.blind {m : Exec σ ε α} (h : Stateless m) : Blind re count k m := by
  obtain ⟨o, ho⟩ := h
  refine ⟨fun s => Nat.le_of_eq (congrArg (fun u => count u.2) (ho s)).symm,
    fun {s a t} hrun _ => ?_⟩
  rw [ho] at hrun ⊢
  obtain ⟨rfl, rfl⟩ := Prod.mk.inj hrun
  rfl

lemma Blind.bind {m : Exec σ ε β} {f : β → Exec σ ε α} (h : Blind re count k m)
    (hf : ∀ b, Blind re count k (f b)) : Blind re count k (m >>= f) := by
  constructor
  · intro s
    have hm := h.mono s
    rw [bind_apply]
    rcases hrun : m s with ⟨b | e | _, t⟩
    · rw [hrun] at hm
      exact Nat.le_trans hm ((hf b).mono t)
    · rwa [hrun] at hm
    · rwa [hrun] at hm
  · intro s a t hrun ht
    rw [bind_apply] at hrun
    rcases hm : m s with ⟨b | e | _, u⟩
    · rw [hm] at hrun
      have hu : count u ≤ count t := by
        have h := (hf b).mono u
        rwa [show f b u = _ from hrun] at h
      rw [bind_ok (h.run hm (Nat.le_trans hu ht))]
      exact (hf b).run hrun ht
    · rw [hm] at hrun
      cases hrun
    · rw [hm] at hrun
      cases hrun

lemma Blind.ite {p : Prop} [Decidable p] {m n : Exec σ ε α} (h : p → Blind re count k m)
    (h' : ¬ p → Blind re count k n) : Blind re count k (if p then m else n) := by
  by_cases hp : p
  · rw [if_pos hp]
    exact h hp
  · rw [if_neg hp]
    exact h' hp

lemma blind_loop {body : ℕ → β → Exec σ ε (ρ ⊕ β)} (h : ∀ i b, Blind re count k (body i b))
    (i n : ℕ) (b : β) : Blind re count k (loop body i n b) := by
  induction n generalizing i b with
  | zero => exact (stateless_pure _).blind
  | succ n ih =>
    refine (h i b).bind fun r => ?_
    rcases r with r | b'
    · exact (stateless_pure _).blind
    · exact ih (i + 1) b'

lemma Blind.lift {m : Exec σ ε α} (h : Blind re count k m) :
    Blind (fun s => (re s.1, s.2)) (fun s => count s.1) k (liftM m : Exec (σ × τ) ε α) := by
  constructor
  · intro s
    exact h.mono s.1
  · intro s a t hrun ht
    obtain ⟨s, x⟩ := s
    change onFst m (s, x) = _ at hrun
    rw [onFst] at hrun
    obtain ⟨hval, rfl⟩ := Prod.mk.inj hrun
    exact lift_ok (h.run (run_eq hval) ht) x

lemma blind_getSnd :
    Blind (fun s => (re s.1, s.2)) (fun s => count s.1) k (getSnd : Exec (σ × τ) ε τ) := by
  refine ⟨fun _ => Nat.le_refl _, fun {s a t} hrun _ => ?_⟩
  obtain ⟨hval, rfl⟩ := Prod.mk.inj hrun
  cases hval
  rfl

lemma blind_modifySnd (f : τ → τ) :
    Blind (fun s => (re s.1, s.2)) (fun s => count s.1) k (modifySnd f : Exec (σ × τ) ε Unit) := by
  refine ⟨fun _ => Nat.le_refl _, fun {s a t} hrun _ => ?_⟩
  obtain ⟨hval, rfl⟩ := Prod.mk.inj hrun
  rfl

end Blind

end ExfatEmbedded.Library.Exec
