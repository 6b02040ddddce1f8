import ExfatEmbedded.Decoding
import ExfatEmbedded.Tree

/-!
How a search in a directory ends.

`Finds` says it in terms of the slots on the media and of what each comparison comes to. A search on
a device whose reads do not fail has one such end, so that two searches are compared slot by slot.
-/

namespace ExfatEmbedded.Search

open ExfatEmbedded.Library Exec ExfatEmbedded.Core ExfatEmbedded.Entry ExfatEmbedded.Lookup
open ExfatEmbedded.EntryWrite ExfatEmbedded.Mutation ExfatEmbedded.Mount ExfatEmbedded.Reading
open ExfatEmbedded.Scan ExfatEmbedded.Sets ExfatEmbedded.Listing ExfatEmbedded.ReadSafety
open ExfatEmbedded.MountSafety ExfatEmbedded.Tree ExfatEmbedded.History ExfatEmbedded.Decoding

/-! ### Comparing names -/

/-- What the comparison of an entry with the name wanted comes to. -/
abbrev Judge := DirectoryEntry → Outcome Error Bool

/-- The visitor which goes on while the entries have another name. -/
def seek (j : Judge) (e : DirectoryEntry) (t : Option (Outcome Error DirectoryEntry)) :
    Bool × Option (Outcome Error DirectoryEntry) :=
  match j e with
  | .ok true => (false, some (.ok e))
  | .ok false => (true, t)
  | .err x => (false, some (.err x))
  | .panic => (false, some .panic)

/-- What a search returns which has been stopped. -/
def verdict : Option (Outcome Error DirectoryEntry) → Outcome Error (Option DirectoryEntry)
  | none => .ok none
  | some (.ok e) => .ok (some e)
  | some (.err x) => .err x
  | some .panic => .panic

/-- The comparison on the media of `r`. -/
def judge (vol : Volume) (r : Machine) (wanted : List ℕ) : Judge :=
  fun e => (namesMatch vol e.nameUtf16 wanted r).1

section Media

variable {vol : Volume} {r s : Machine}

section Units

variable {R : Machine → Machine → Prop}
  (hunit : ∀ unit, Sim R (fun _ => R) R (upcaseUnit vol unit) (upcaseUnit vol unit))

include hunit

lemma sim_namesMatchLoop (pairs : List (ℕ × ℕ)) :
    Sim R (fun _ => R) R (namesMatchLoop vol pairs) (namesMatchLoop vol pairs) := by
  induction pairs with
  | nil => exact sim_pure fun _ _ h => h
  | cons p pairs ih =>
    obtain ⟨left, right⟩ := p
    unfold namesMatchLoop
    refine sim_bind (hunit left) fun l => ?_
    refine sim_bind (hunit right) fun r => ?_
    exact sim_ite (fun _ => sim_pure fun _ _ h => h) fun _ => ih

lemma sim_namesMatch (actual wanted : List ℕ) :
    Sim R (fun _ => R) R (namesMatch vol actual wanted) (namesMatch vol actual wanted) := by
  unfold namesMatch
  exact sim_ite (fun _ => sim_pure fun _ _ h => h) fun _ => sim_namesMatchLoop hunit _

end Units

lemma mediaOnly_namesMatch (actual wanted : List ℕ) : MediaOnly r (namesMatch vol actual wanted) :=
  sim_namesMatch (mediaOnly_upcaseUnit vol) actual wanted

lemma namesMatch_judged {e : DirectoryEntry} {wanted : List ℕ} (hready : Ready vol.geometry r)
    (htable : vol.upcaseValid = true → TableSound vol.geometry vol.upcase) (hr : Healthy r)
    (hname : ∀ u ∈ e.name, u < 2 ^ 16) (hwanted : ∀ u ∈ wanted, u < 2 ^ 16)
    (hs : Quiet vol.geometry.partition r s) :
    wp (namesMatch vol e.nameUtf16 wanted)
      (fun b t => judge vol r wanted e = .ok b ∧ Quiet vol.geometry.partition r t)
      (fun x t => judge vol r wanted e = .err x ∧ Quiet vol.geometry.partition r t) s := by
  have hunits : ∀ u ∈ e.nameUtf16, u < 2 ^ 16 := fun u hu => hname u (List.mem_of_mem_take hu)
  have hsafe := namesMatch_safe (hs.ready hready) htable hunits hwanted
  have hmedia := (OnMedia.refl hr).quiet hs
  obtain ⟨hsame, -, -⟩ := @mediaOnly_namesMatch vol r e.nameUtf16 wanted r s
    ⟨OnMedia.refl hr, hmedia⟩
  unfold judge
  rw [hsame]
  unfold wp at hsafe ⊢
  rcases hrun : namesMatch vol e.nameUtf16 wanted s with ⟨b | x | _, t⟩
  · rw [hrun] at hsafe
    exact ⟨rfl, hs.trans hsafe⟩
  · rw [hrun] at hsafe
    exact ⟨rfl, hs.trans hsafe⟩
  · rw [hrun] at hsafe
    exact hsafe

end Media

/-! ### The end of a search -/

section Finds

variable (g : Geometry) (d : Sectors) (dir : Directory) (j : Judge)

/-- The scan of the first `n` clusters. -/
def sought (n : ℕ) : Progress (Option (Outcome Error DirectoryEntry)) :=
  sweep (seek j) (extentSlots g d dir n) (.going EntrySet.new none)

/-- A search has come to cluster number `n`. -/
structure Reaches (n : ℕ) : Prop where
  walked : Walked g d dir n
  first : dir.noFatChain = true → n = 0
  going : ∃ e, sought g d dir j n = .going e none

/-- A search has come to cluster number `n`, which is one. -/
structure Enters (n : ℕ) : Prop extends Reaches g d dir j n where
  heap : g.InHeap (clusterOf g d dir n)
  counted : n < g.clusterCount

/-- A search ends behind cluster number `n` if it has not ended in it. -/
def EndsBehind (n : ℕ) : Prop :=
  EndsWithin g dir (leftAfter g dir n) ∨ dir.noFatChain = true ∨ 0xfffffff8 ≤
    clusterOf g d dir (n + 1)

/-- How a search ends. -/
inductive Finds : Outcome Error (Option DirectoryEntry) → Prop
  | stopped {n : ℕ} {t : Option (Outcome Error DirectoryEntry)} (h : Enters g d dir j n)
      (hstop : sought g d dir j (n + 1) = .stopped t) : Finds (verdict t)
  | failed {n : ℕ} (h : Enters g d dir j n) (hfail : sought g d dir j (n + 1) = .failed) :
      Finds (.err .corrupt)
  | ended {n : ℕ} {e : EntrySet} (h : Enters g d dir j n)
      (hgo : sought g d dir j (n + 1) = .going e none) (hend : EndsBehind g d dir n) :
      Finds (.ok none)
  | broken {n : ℕ} (h : Reaches g d dir j n)
      (hbad : g.clusterCount ≤ n ∨ ¬ g.InHeap (clusterOf g d dir n)) : Finds (.err .corrupt)

variable {g d dir j}

lemma sought_succ (n : ℕ) : sought g d dir j (n + 1) =
    sweep (seek j) (clusterSlots d g dir (heapLba g (clusterOf g d dir n)) (leftAfter g dir n)
      g.sectorsPerCluster) (sought g d dir j n) := by
  unfold sought
  rw [extentSlots_succ, sweep_append]

lemma sought_mono {m n : ℕ} (hmn : m ≤ n) {e : EntrySet} {t : Option (Outcome Error DirectoryEntry)}
    (h : sought g d dir j n = .going e t) : ∃ e' t', sought g d dir j m = .going e' t' := by
  obtain ⟨rest, hrest⟩ := extentSlots_mono g d dir hmn
  unfold sought at h ⊢
  rw [← hrest, sweep_append] at h
  rcases hm : sweep (seek j) (extentSlots g d dir m) (.going EntrySet.new none) with ⟨e',
    t'⟩ | t' | _
  · exact ⟨e', t', rfl⟩
  · rw [hm, sweep_stopped] at h
    cases h
  · rw [hm, sweep_failed] at h
    cases h

lemma Reaches.not_ends {m n : ℕ} (h : Reaches g d dir j n) (hmn : m < n) :
    ¬ EndsBehind g d dir m := by
  have hfat : dir.noFatChain = false := by
    cases hdir : dir.noFatChain with
    | false => rfl
    | true =>
      have := h.first hdir
      omega
  rintro (⟨hdir, hle⟩ | hend | hend)
  · have := h.walked.inside m hmn hdir
    omega
  · rw [hfat] at hend
    cases hend
  · have := h.walked.chain m hmn hfat
    omega

lemma Reaches.le_of_halted {m n : ℕ} (h : Reaches g d dir j n)
    (hm : sought g d dir j (m + 1) = .failed ∨ ∃ t, sought g d dir j (m + 1) = .stopped t) :
    n ≤ m := by
  by_contra hlt
  obtain ⟨e, hgo⟩ := h.going
  obtain ⟨e', t', hgo'⟩ := sought_mono (show m + 1 ≤ n by omega) hgo
  rcases hm with hm | ⟨t, hm⟩
  · rw [hm] at hgo'
    cases hgo'
  · rw [hm] at hgo'
    cases hgo'

lemma Enters.lt_of_broken {m n : ℕ} (h : Enters g d dir j n)
    (hm : g.clusterCount ≤ m ∨ ¬ g.InHeap (clusterOf g d dir m)) : n < m := by
  by_contra hle
  rcases hm with hm | hm
  · have := h.counted
    omega
  · rcases Nat.lt_or_ge m n with hlt | hge
    · exact hm (h.walked.heap m hlt)
    · obtain rfl : n = m := by omega
      exact hm h.heap

/-- What a search returns whose last cluster leaves it so. -/
def returned : Progress (Option (Outcome Error DirectoryEntry)) →
    Outcome Error (Option DirectoryEntry)
  | .going _ _ => .ok none
  | .stopped t => verdict t
  | .failed => .err .corrupt

lemma Finds.last {o : Outcome Error (Option DirectoryEntry)} (h : Finds g d dir j o) :
    (∃ n, Enters g d dir j n ∧ (∀ m, Reaches g d dir j m → m ≤ n) ∧
      o = returned (sought g d dir j (n + 1))) ∨
    ∃ n, Reaches g d dir j n ∧ (g.clusterCount ≤ n ∨ ¬ g.InHeap (clusterOf g d dir n)) ∧
      o = .err .corrupt := by
  cases h with
  | @stopped n t h hstop =>
    exact .inl ⟨n, h, fun m hm => hm.le_of_halted (.inr ⟨t, hstop⟩), by rw [hstop]; rfl⟩
  | @failed n h hfail =>
    exact .inl ⟨n, h, fun m hm => hm.le_of_halted (.inl hfail), by rw [hfail]; rfl⟩
  | @ended n e h hgo hend =>
    refine .inl ⟨n, h, fun m hm => ?_, by rw [hgo]; rfl⟩
    by_contra hlt
    exact hm.not_ends (by omega) hend
  | @broken n h hbad => exact .inr ⟨n, h, hbad, rfl⟩

/-- A search has one end. -/
theorem Finds.unique {o o' : Outcome Error (Option DirectoryEntry)} (h : Finds g d dir j o)
    (h' : Finds g d dir j o') : o = o' := by
  rcases h.last with ⟨n, hin, hlast, rfl⟩ | ⟨n, hn, hbad, rfl⟩
  · rcases h'.last with ⟨n', hin', hlast', rfl⟩ | ⟨n', hn', hbad', rfl⟩
    · rw [Nat.le_antisymm (hlast' n hin.toReaches) (hlast n' hin'.toReaches)]
    · exact absurd (hlast n' hn') (Nat.not_le.mpr (hin.lt_of_broken hbad'))
  · rcases h'.last with ⟨n', hin', hlast', rfl⟩ | ⟨n', hn', hbad', rfl⟩
    · exact absurd (hlast' n hn) (Nat.not_le.mpr (hin'.lt_of_broken hbad))
    · rfl

end Finds

/-! ### The entries a search meets -/

section Meets

variable {j : Judge} {slots : List Slot} {e : EntrySet} {es : List DirectoryEntry}

lemma step_seek {x : DirectoryEntry} {e' : EntrySet} {slot : Slot} (hz : byteAt slot.raw 0 ≠ 0)
    (hp : EntrySet.push slot.raw slot.loc e = (.ok (some x), e')) :
    (Progress.going e none).step (seek j) slot =
      if j x = .ok false then .going e' none else .stopped (seek j x none).2 := by
  unfold Progress.step
  simp only [if_neg hz, hp]
  unfold seek
  rcases j x with (_ | _) | _ | _ <;> rfl

lemma seek_going {t : Option (Outcome Error DirectoryEntry)}
    (h : sweep (seek j) slots (.going EntrySet.new none) = .going e t) :
    t = none ∧ ∃ es, sweep collect slots (.going EntrySet.new []) = .going e es ∧
      ∀ x ∈ es, j x = .ok false := by
  induction slots using List.reverseRecOn generalizing e t with
  | nil =>
    cases h
    exact ⟨rfl, [], rfl, nofun⟩
  | append_singleton slots slot ih =>
    rw [sweep_snoc] at h ⊢
    rcases hbefore : sweep (seek j) slots (.going EntrySet.new none) with ⟨e1, t1⟩ | t1 | _
    · obtain ⟨rfl, es, hlist, hall⟩ := ih hbefore
      rw [hbefore] at h
      rw [hlist]
      have hz : byteAt slot.raw 0 ≠ 0 := by
        intro hz
        unfold Progress.step at h
        simp only [if_pos hz] at h
        cases h
      rcases hp : EntrySet.push slot.raw slot.loc e1 with ⟨(_ | x) | _ | _, e2⟩
      · unfold Progress.step at h ⊢
        simp only [if_neg hz, hp] at h ⊢
        cases h
        exact ⟨rfl, es, rfl, hall⟩
      · rw [step_seek hz hp] at h
        split_ifs at h with hx
        cases h
        refine ⟨rfl, es ++ [x], ?_, ?_⟩
        · unfold Progress.step
          simp only [if_neg hz, hp, collect, if_true]
        · intro y hy
          rcases List.mem_append.mp hy with hy | hy
          · exact hall y hy
          · rw [List.mem_singleton.mp hy]
            exact hx
      · unfold Progress.step at h
        simp only [if_neg hz, hp] at h
        cases h
      · unfold Progress.step at h
        simp only [if_neg hz, hp] at h
        cases h
    · rw [hbefore] at h
      cases h
    · rw [hbefore] at h
      cases h

lemma seek_stopped {o : Outcome Error DirectoryEntry}
    (h : sweep (seek j) slots (.going EntrySet.new none) = .stopped (some o)) :
    ∃ pre es x e, pre <+: slots ∧ sweep collect pre (.going EntrySet.new []) = .going e
      (es ++ [x]) ∧
      (∀ y ∈ es, j y = .ok false) ∧ j x ≠ .ok false ∧ (seek j x none).2 = some o := by
  induction slots using List.reverseRecOn with
  | nil => cases h
  | append_singleton slots slot ih =>
    rw [sweep_snoc] at h
    rcases hbefore : sweep (seek j) slots (.going EntrySet.new none) with ⟨e1, t1⟩ | t1 | _
    · obtain ⟨rfl, es, hlist, hall⟩ := seek_going hbefore
      rw [hbefore] at h
      have hz : byteAt slot.raw 0 ≠ 0 := by
        intro hz
        unfold Progress.step at h
        simp only [if_pos hz] at h
        cases h
      rcases hp : EntrySet.push slot.raw slot.loc e1 with ⟨(_ | x) | _ | _, e2⟩
      · unfold Progress.step at h
        simp only [if_neg hz, hp] at h
        cases h
      · rw [step_seek hz hp] at h
        split_ifs at h with hx
        refine ⟨slots ++ [slot], es, x, e2, List.prefix_rfl, ?_, hall, hx, Progress.stopped.inj h⟩
        rw [sweep_snoc, hlist]
        unfold Progress.step
        simp only [if_neg hz, hp, collect, if_true]
      · unfold Progress.step at h
        simp only [if_neg hz, hp] at h
        cases h
      · unfold Progress.step at h
        simp only [if_neg hz, hp] at h
        cases h
    · rw [hbefore] at h
      obtain ⟨pre, es, x, e, hpre, hrest⟩ := ih (hbefore.trans h)
      exact ⟨pre, es, x, e, hpre.trans (List.prefix_append _ _), hrest⟩
    · rw [hbefore] at h
      cases h

lemma listed_prefix {x : DirectoryEntry} {rest : List DirectoryEntry}
    (h : sweep collect slots (.going EntrySet.new []) = .going e (es ++ x :: rest)) :
    ∃ pre e', pre <+: slots ∧ sweep collect pre (.going EntrySet.new []) = .going e'
      (es ++ [x]) := by
  induction slots using List.reverseRecOn generalizing e rest with
  | nil =>
    have hnil := (Progress.going.inj h).2
    simp at hnil
  | append_singleton slots slot ih =>
    obtain ⟨e1, es1, hbefore⟩ := going_of_append h
    have hstep := h
    rw [sweep_snoc, hbefore] at hstep
    unfold Progress.step at hstep
    simp only at hstep
    split_ifs at hstep with hz
    rcases hp : EntrySet.push slot.raw slot.loc e1 with ⟨(_ | y) | _ | _, e2⟩
    · simp only [hp] at hstep
      cases hstep
      obtain ⟨pre, e', hpre, hrun⟩ := ih hbefore
      exact ⟨pre, e', hpre.trans (List.prefix_append _ _), hrun⟩
    · simp only [hp, collect, if_true] at hstep
      have hlist : es1 ++ [y] = es ++ x :: rest := (Progress.going.inj hstep).2
      rcases List.eq_nil_or_concat rest with rfl | ⟨rest', z, rfl⟩
      · exact ⟨_, _, List.prefix_rfl, h⟩
      · have hinit : es1 = es ++ x :: rest' := by
          have hcut := congrArg List.dropLast hlist
          rw [List.dropLast_concat, List.concat_eq_append, ← List.cons_append, ← List.append_assoc,
            List.dropLast_concat] at hcut
          exact hcut
        obtain ⟨pre, e', hpre, hrun⟩ := ih (hinit ▸ hbefore)
        exact ⟨pre, e', hpre.trans (List.prefix_append _ _), hrun⟩
    · simp only [hp] at hstep
      cases hstep
    · simp only [hp] at hstep
      cases hstep

lemma seek_of_collect (h : sweep collect slots (.going EntrySet.new []) = .going e es)
    (hall : ∀ x ∈ es, j x = .ok false) :
    sweep (seek j) slots (.going EntrySet.new none) = .going e none := by
  induction slots using List.reverseRecOn generalizing e es with
  | nil =>
    cases h
    rfl
  | append_singleton slots slot ih =>
    obtain ⟨e1, es1, hbefore⟩ := going_of_append h
    rw [sweep_snoc, hbefore] at h
    unfold Progress.step at h
    simp only at h
    split_ifs at h with hz
    rcases hp : EntrySet.push slot.raw slot.loc e1 with ⟨(_ | y) | _ | _, e2⟩
    · simp only [hp] at h
      cases h
      rw [sweep_snoc, ih hbefore hall]
      unfold Progress.step
      simp only [if_neg hz, hp]
    · simp only [hp, collect, if_true] at h
      cases h
      rw [sweep_snoc, ih hbefore fun x hx => hall x (by simp [hx]), step_seek hz hp,
        if_pos (hall y (by simp))]
    · simp only [hp] at h
      cases h
    · simp only [hp] at h
      cases h

lemma seek_first {x : DirectoryEntry}
    (h : sweep collect slots (.going EntrySet.new []) = .going e (es ++ [x]))
    (hall : ∀ y ∈ es, j y = .ok false) (hx : j x ≠ .ok false) :
    sweep (seek j) slots (.going EntrySet.new none) = .stopped (seek j x none).2 := by
  induction slots using List.reverseRecOn generalizing e with
  | nil =>
    have hnil := (Progress.going.inj h).2
    simp at hnil
  | append_singleton slots slot ih =>
    obtain ⟨e1, es1, hbefore⟩ := going_of_append h
    rw [sweep_snoc, hbefore] at h
    unfold Progress.step at h
    simp only at h
    split_ifs at h with hz
    rcases hp : EntrySet.push slot.raw slot.loc e1 with ⟨(_ | y) | _ | _, e2⟩
    · simp only [hp] at h
      cases h
      rw [sweep_snoc, ih hbefore]
      rfl
    · simp only [hp, collect, if_true] at h
      obtain ⟨rfl, hlast⟩ := List.append_inj' (Progress.going.inj h).2 rfl
      cases hlast
      rw [sweep_snoc, seek_of_collect hbefore hall, step_seek hz hp, if_neg hx]
    · simp only [hp] at h
      cases h
    · simp only [hp] at h
      cases h

/-- A search in the directory which nothing ends comes to the entry `x`, behind the entries `es`. -/
def Meets (g : Geometry) (d : Sectors) (dir : Directory) (es : List DirectoryEntry)
    (x : DirectoryEntry) : Prop :=
  ∃ n pre e, n < g.clusterCount ∧ Walked g d dir n ∧ g.InHeap (clusterOf g d dir n) ∧
    (dir.noFatChain = true → n = 0) ∧ pre <+: extentSlots g d dir (n + 1) ∧
    sweep collect pre (.going EntrySet.new []) = .going e (es ++ [x])

variable {g : Geometry} {d : Sectors} {dir : Directory} {x : DirectoryEntry}

lemma Meets.front {rest : List DirectoryEntry} {y : DirectoryEntry}
    (h : Meets g d dir (es ++ x :: rest) y) : Meets g d dir es x := by
  obtain ⟨n, pre, e, hn, hw, hheap, hfirst, hpre, hlist⟩ := h
  rw [List.append_assoc, List.cons_append] at hlist
  obtain ⟨pre', e', hpre', hlist'⟩ := listed_prefix hlist
  exact ⟨n, pre', e', hn, hw, hheap, hfirst, hpre'.trans hpre, hlist'⟩

lemma Meets.first (h : Meets g d dir es x) (hx : j x ≠ .ok false) :
    ∃ front y, Meets g d dir front y ∧ (∀ z ∈ front, j z = .ok false) ∧ j y ≠ .ok false ∧
      (y ∈ es ∨ y = x) := by
  classical
  cases hfind : es.find? fun z => decide (j z ≠ .ok false) with
  | none =>
    rw [List.find?_eq_none] at hfind
    exact ⟨es, x, h, fun z hz => by simpa using hfind z hz, hx, .inr rfl⟩
  | some y =>
    obtain ⟨hy, front, rest, rfl, hfront⟩ := List.find?_eq_some_iff_append.mp hfind
    exact ⟨front, y, h.front, fun z hz => by simpa using hfront z hz, by simpa using hy,
      .inl (by simp)⟩

lemma walked_of_le {m n : ℕ} (h : Walked g d dir n) (hmn : m ≤ n) : Walked g d dir m :=
  ⟨fun i hi => h.heap i (by omega), fun i hi => h.chain i (by omega),
    fun i hi => h.more i (by omega), fun i hi => h.inside i (by omega)⟩

/-- An entry met which is not of another name ends the search. -/
theorem Meets.finds (h : Meets g d dir es x) (hall : ∀ y ∈ es, j y = .ok false)
    (hx : j x ≠ .ok false) : Finds g d dir j (verdict (seek j x none).2) := by
  obtain ⟨n, pre, e, hn, hw, hheap, hfirst, hpre, hlist⟩ := h
  have hstop : sought g d dir j (n + 1) = .stopped (seek j x none).2 :=
    sweep_mono hpre (seek_first hlist hall hx)
  -- the first cluster in which the search has ended
  have hex : ∃ m, sought g d dir j (m + 1) = .stopped (seek j x none).2 := ⟨n, hstop⟩
  classical
  have hm := Nat.find_spec hex
  have hle : Nat.find hex ≤ n := Nat.find_min' hex hstop
  have hmin := fun k (hk : k < Nat.find hex) => Nat.find_min hex hk
  generalize Nat.find hex = m at hm hle hmin
  have hgoing : ∃ e, sought g d dir j m = .going e none := by
    cases m with
    | zero => exact ⟨EntrySet.new, rfl⟩
    | succ k =>
      have hk := hmin k (Nat.lt_succ_self k)
      rw [sought_succ] at hm
      rcases hs : sought g d dir j (k + 1) with ⟨e', t⟩ | t | _
      · obtain ⟨rfl, -⟩ := seek_going hs
        exact ⟨e', rfl⟩
      · rw [hs, sweep_stopped] at hm
        rw [hs] at hk
        exact absurd hm hk
      · rw [hs, sweep_failed] at hm
        cases hm
  have hin : g.InHeap (clusterOf g d dir m) := by
    rcases Nat.lt_or_ge m n with hlt | hge
    · exact hw.heap m hlt
    · obtain rfl : m = n := by omega
      exact hheap
  refine .stopped (n := m) ⟨⟨walked_of_le hw hle, fun hfat => ?_, hgoing⟩, hin, by omega⟩ hm
  have := hfirst hfat
  omega

/-- What a search has found it has met behind entries of other names. -/
theorem Finds.meets {o : Outcome Error (Option DirectoryEntry)} (h : Finds g d dir j o) :
    o = .ok none ∨ o = .err .corrupt ∨ ∃ es x, Meets g d dir es x ∧ (∀ y ∈ es, j y = .ok false) ∧
      j x ≠ .ok false ∧ o = verdict (seek j x none).2 := by
  cases h with
  | @stopped n t h hstop =>
    cases t with
    | none => exact .inl rfl
    | some o =>
      obtain ⟨pre, es, x, e, hpre, hlist, hall, hx, hend⟩ := seek_stopped hstop
      exact .inr (.inr ⟨es, x, ⟨n, pre, e, h.counted, h.walked, h.heap, h.first, hpre, hlist⟩,
        hall, hx,
        by rw [hend]⟩)
  | failed => exact .inr (.inl rfl)
  | ended => exact .inl rfl
  | broken => exact .inr (.inl rfl)

end Meets

/-! ### Runs of a search -/

section Run

variable {vol : Volume} {r : Machine} {dir : Directory} {wanted : List ℕ} {len : ℕ}

/-- A search is under way and has gone over `done`. -/
structure Seeks (vol : Volume) (r : Machine) (wanted : List ℕ) (len : ℕ) (done : List Slot)
    (t : Machine × Workspace) : Prop where
  calm : Calm vol r t
  units : t.2.utf16.take len = wanted
  swept : ∃ e, sweep (seek (judge vol r wanted)) done (.going EntrySet.new none) = .going e none ∧
    Alike e t.2.entrySet

/-- A search has ended in `done`. -/
def EndsAs (vol : Volume) (r : Machine) (wanted : List ℕ)
    (o : Outcome Error (Option DirectoryEntry))
    (done : List Slot) : Prop :=
  (∃ t, sweep (seek (judge vol r wanted)) done (.going EntrySet.new none) = .stopped t ∧
      o = verdict t) ∨
    (sweep (seek (judge vol r wanted)) done (.going EntrySet.new none) = .failed ∧
      o = .err .corrupt)

lemma EndsAs.mono {o : Outcome Error (Option DirectoryEntry)} {a b : List Slot}
    (h : EndsAs vol r wanted o a) (hab : a <+: b) : EndsAs vol r wanted o b := by
  rcases h with ⟨t, h, ho⟩ | ⟨h, ho⟩
  · exact .inl ⟨t, sweep_mono hab h, ho⟩
  · obtain ⟨rest, rfl⟩ := hab
    refine .inr ⟨?_, ho⟩
    rw [sweep_append, h, sweep_failed]

lemma Enters.finds {n : ℕ} {o : Outcome Error (Option DirectoryEntry)}
    (h : Enters vol.geometry r.device.sectors dir (judge vol r wanted) n)
    (hends : EndsAs vol r wanted o (extentSlots vol.geometry r.device.sectors dir (n + 1))) :
    Finds vol.geometry r.device.sectors dir (judge vol r wanted) o := by
  rcases hends with ⟨t, hstop, rfl⟩ | ⟨hfail, rfl⟩
  · exact .stopped h hstop
  · exact .failed h hfail

variable (hs : Ready vol.geometry r)
  (htable : vol.upcaseValid = true → TableSound vol.geometry vol.upcase) (hr : Healthy r)

include hs htable hr

lemma findChildSlot_seeks {lba k : ℕ} {done : List Slot} {t : Machine × Workspace}
    (hlba : InPartition vol.geometry.partition lba) (hk : k < vol.geometry.bytesPerSector / 32)
    (ht : Seeks vol r wanted len done t) (hold : Holds vol.geometry.bytesPerSector lba t.1) :
    wp (findChildSlot vol len lba k)
      (Sum.elim
        (fun o u => Calm vol r u ∧
          EndsAs vol r wanted (.ok o) (done ++ [slotAt r.device.sectors lba k]))
        (fun _ u => Seeks vol r wanted len (done ++ [slotAt r.device.sectors lba k]) u ∧
          Holds vol.geometry.bytesPerSector lba u.1))
      (fun x u => Calm vol r u ∧
        EndsAs vol r wanted (.err x) (done ++ [slotAt r.device.sectors lba k])) t := by
  obtain ⟨m, ws⟩ := t
  obtain ⟨hcalm, hunits, e, hswept, halike⟩ := ht
  have hq := hcalm.quiet
  have hsize := hs.sound.size_le
  have hoff : k * 32 + 32 ≤ vol.geometry.bytesPerSector := by omega
  have hslice := hold.slice hoff
  rw [hq.sectors] at hslice
  have hstep := sweep_snoc (seek (judge vol r wanted)) done (slotAt r.device.sectors lba k)
    (.going EntrySet.new none)
  rw [hswept, Progress.step] at hstep
  unfold findChildSlot
  simp only [wp_bind, wp_usize, wp_lift]
  refine ⟨by omega, ?_⟩
  rw [wp_scratchSlice (hq.ready hs) hoff, hslice, wp_ite]
  refine ⟨fun hz => ⟨hcalm, .inl ⟨none, hstep.trans (if_pos hz), rfl⟩⟩, fun hz => ?_⟩
  rw [if_neg (show ¬ byteAt (slotAt r.device.sectors lba k).raw 0 = 0 from hz)] at hstep
  rw [wp_bind, wp_onEntrySet]
  obtain ⟨hout, hnext⟩ := push_alike halike (Image.slice (r.device.sectors lba) (k * 32) 32)
    ⟨lba, k * 32 % 2 ^ 16⟩
  obtain ⟨hname, hentry⟩ := push_bounded (Image.slice (r.device.sectors lba) (k * 32) 32)
    ⟨lba, k * 32 % 2 ^ 16⟩ hcalm.bounded.name
  rcases hp : EntrySet.push (Image.slice (r.device.sectors lba) (k * 32) 32)
    ⟨lba, k * 32 % 2 ^ 16⟩ ws.entrySet with ⟨o, e1⟩
  rcases hp' : EntrySet.push (slotAt r.device.sectors lba k).raw
    (slotAt r.device.sectors lba k).loc e
    with ⟨o', e1'⟩
  rw [hp'] at hstep
  change EntrySet.push (Image.slice (r.device.sectors lba) (k * 32) 32)
    ⟨lba, k * 32 % 2 ^ 16⟩ e = (o', e1') at hp'
  rw [hp, hp'] at hout hnext
  rw [hp] at hname hentry
  simp only at hout hnext hname
  subst hout
  have hcalm' : Calm vol r (m, { ws with entrySet := e1 }) := ⟨hq, hcalm.bounded.utf16, hname⟩
  rcases push_cases (Image.slice_length (r.device.sectors lba) (k * 32) 32)
    ⟨lba, k * 32 % 2 ^ 16⟩ ws.entrySet with ⟨o, ho⟩ | ho
  · rw [hp] at ho
    dsimp only at ho
    subst ho
    refine (wp_ok hp).mpr ?_
    rcases o with _ | entry
    · exact ⟨⟨hcalm', hunits, _, hstep, hnext⟩, hold⟩
    simp only [wp_bind, wp_getSnd, wp_lift]
    unfold findChildEntry
    rw [wp_bind]
    dsimp only at hunits
    rw [hunits]
    have hwanted : ∀ u ∈ wanted, u < 2 ^ 16 :=
      fun u hu => hcalm.bounded.utf16 u (List.mem_of_mem_take (hunits ▸ hu))
    refine wp_mono _ (namesMatch_judged hs htable hr (hentry entry rfl) hwanted hq) ?_ ?_
    · rintro b u ⟨hjudge, hu⟩
      rw [wp_ite]
      refine ⟨fun hb => ?_, fun hb => ?_⟩
      · subst hb
        simp only [seek, hjudge] at hstep
        exact ⟨⟨hu, hcalm'.bounded⟩, .inl ⟨_, hstep, rfl⟩⟩
      · obtain rfl : b = false := by simpa using hb
        simp only [seek, hjudge, if_true] at hstep
        rw [wp_bind]
        refine wp_mono _ (readSector_spec (hu.ready hs) hlba) ?_ fun _ _ h =>
          (Faulted.elim ((OnMedia.refl hr).quiet hu).healthy h).elim
        rintro _ v ⟨hv, hold'⟩
        exact ⟨⟨⟨hu.trans hv, hcalm'.bounded⟩, hunits, _, hstep, hnext⟩, hold'⟩
    · rintro x u ⟨hjudge, hu⟩
      simp only [seek, hjudge] at hstep
      exact ⟨⟨hu, hcalm'.bounded⟩, .inl ⟨_, hstep, rfl⟩⟩
  · rw [hp] at ho
    dsimp only at ho
    subst ho
    exact (wp_err hp).mpr ⟨hcalm', .inr ⟨hstep, rfl⟩⟩

lemma findChildCluster_seeks {n : ℕ} {t : Machine × Workspace}
    (hcount : n < vol.geometry.clusterCount)
    (hw : Walked vol.geometry r.device.sectors dir n) (hfirst : dir.noFatChain = true → n = 0)
    (ht : Seeks vol r wanted len (extentSlots vol.geometry r.device.sectors dir n) t) :
    wp (findChildCluster vol dir len
        (clusterOf vol.geometry r.device.sectors dir n, leftAfter vol.geometry dir n))
      (Sum.elim
        (fun o u => Calm vol r u ∧
          Finds vol.geometry r.device.sectors dir (judge vol r wanted) (.ok o))
        (fun v u => v = (clusterOf vol.geometry r.device.sectors dir (n + 1),
            leftAfter vol.geometry dir (n + 1)) ∧ dir.noFatChain = false ∧
          Walked vol.geometry r.device.sectors dir (n + 1) ∧
          Seeks vol r wanted len (extentSlots vol.geometry r.device.sectors dir (n + 1)) u))
      (fun x u => Calm vol r u ∧
        Finds vol.geometry r.device.sectors dir (judge vol r wanted) (.err x)) t := by
  have hreaches : Reaches vol.geometry r.device.sectors dir (judge vol r wanted) n :=
    ⟨hw, hfirst, ht.swept.imp fun e h => h.1⟩
  unfold findChildCluster
  simp only
  by_cases hc : vol.geometry.InHeap (clusterOf vol.geometry r.device.sectors dir n)
  swap
  · rw [Sound.clusterLba_none hc]
    exact ⟨ht.calm, .broken hreaches (.inr hc)⟩
  have henters : Enters vol.geometry r.device.sectors dir (judge vol r wanted) n :=
    ⟨hreaches, hc, hcount⟩
  have hsector {i : ℕ} (hi : i < vol.geometry.sectorsPerCluster) := hs.sound.heap_sector hc hi
  rw [hs.sound.clusterLba_eq hc, pure_bind, okOr_some, pure_bind, wp_bind, findChildSector_eq]
  have hscan := @clusterScan_wp (Machine × Workspace) (Option DirectoryEntry) vol.geometry
    r.device.sectors dir (heapLba vol.geometry (clusterOf vol.geometry r.device.sectors dir n))
    (leftAfter vol.geometry dir n)
    (fun lba => liftM (readSector vol.geometry.bytesPerSector lba : FsM Unit))
    (findChildSlot vol len) none (Seeks vol r wanted len)
    (fun lba done u => Seeks vol r wanted len done u ∧ Holds vol.geometry.bytesPerSector lba u.1)
    (fun o done u => Calm vol r u ∧ EndsAs vol r wanted (.ok o) done)
    (fun x u => Calm vol r u ∧
      EndsAs vol r wanted (.err x) (extentSlots vol.geometry r.device.sectors dir (n + 1)))
    (extentSlots vol.geometry r.device.sectors dir n) t hs.sound.spc_pos
    (fun i hi => (hs.sound.lt_of_inPartition (hsector hi)).2)
  rw [← extentSlots_succ] at hscan
  refine wp_mono _ (hscan ?_ ?_ (fun _ _ _ h => h.1) ht) ?_ fun x u hx => ⟨hx.1, henters.finds hx.2⟩
  · intro i hi done u hu
    rw [wp_lift]
    have hq := hu.calm.quiet
    refine wp_mono _ (readSector_spec (hq.ready hs) (hsector hi)) ?_ fun _ _ h =>
      (Faulted.elim ((OnMedia.refl hr).quiet hq).healthy h).elim
    rintro _ v ⟨hv, hold⟩
    exact ⟨⟨⟨hq.trans hv, hu.calm.bounded⟩, hu.units, hu.swept⟩, hold⟩
  · intro i hi k done u hk hpre hu
    exact wp_mono _ (findChildSlot_seeks hs htable hr (hsector hi) hk hu.1 hu.2) (fun _ _ h => h)
      fun x v hx => ⟨hx.1, hx.2.mono hpre⟩
  rintro (o | left) u hu
  · rcases hu with ⟨full, hpre, hcalm, hends⟩ | ⟨rfl, hend, hu⟩
    · exact ⟨hcalm, henters.finds (hends.mono hpre)⟩
    · obtain ⟨e, hgo, -⟩ := hu.swept
      exact ⟨hu.calm, .ended henters hgo (.inl hend)⟩
  · obtain ⟨rfl, hinside, hu⟩ := hu
    obtain ⟨e, hgo, halike⟩ := hu.swept
    rw [leftOver_leftAfter]
    simp only
    have hin : dir.dataLength ≠ 0 →
        (vol.geometry.sectorsPerCluster - 1) * vol.geometry.bytesPerSector <
          leftAfter vol.geometry dir n := fun hd => by
      by_contra hle
      exact hinside ⟨hd, by omega⟩
    by_cases hfat : dir.noFatChain = true
    · rw [if_pos hfat]
      exact ⟨hu.calm, .ended henters hgo (.inr (.inl hfat))⟩
    · have hfat' : dir.noFatChain = false := by simpa using hfat
      have hq := hu.calm.quiet
      rw [if_neg hfat, wp_bind, wp_lift]
      refine wp_mono _ (nextCluster_spec (hq.ready hs) hc) ?_ fun _ _ h =>
        (Faulted.elim ((OnMedia.refl hr).quiet hq).healthy h).elim
      rintro next v ⟨rfl, hv⟩
      have hcalm : Calm vol r (v, u.2) := ⟨hq.trans hv, hu.calm.bounded⟩
      rw [hq.sectors, ← clusterOf_succ hfat', wp_ite]
      refine ⟨fun hend => ⟨hcalm, .ended henters hgo (.inr (.inr hend))⟩, fun hchain => ?_⟩
      have hnext : Walked vol.geometry r.device.sectors dir (n + 1) :=
        hw.succ hc (fun _ => by omega) (fun h => absurd h hfat) hin
      rw [wp_ite]
      refine ⟨fun hlow => ⟨hcalm, .broken ⟨hnext, fun h => absurd h hfat, e, hgo⟩ (.inr ?_)⟩,
        fun _ => ⟨rfl, hfat', hnext, hcalm, hu.units, e, hgo, halike⟩⟩
      rw [hs.sound.inHeap_iff]
      omega

/-- **How a search ends** on a device whose reads do not fail. -/
theorem findChild_finds {t : Machine × Workspace} (ht : Calm vol r t)
    (hidle : t.2.entrySet.secondaryLeft = 0) (hunits : t.2.utf16.take len = wanted) :
    wp (findChild vol dir len)
      (fun o u => Calm vol r u ∧
        Finds vol.geometry r.device.sectors dir (judge vol r wanted) (.ok o))
      (fun x u => Calm vol r u ∧
        Finds vol.geometry r.device.sectors dir (judge vol r wanted) (.err x)) t := by
  unfold findChild
  simp only [requireScratch, wp_bind, wp_lift, wp_get, wp_when, wp_throw]
  have hready := ht.quiet.ready hs
  refine ⟨fun hshort => absurd hready.scratch (by omega), fun _ => ?_⟩
  refine wp_loop_post (fun n v u => v = (clusterOf vol.geometry r.device.sectors dir n,
      leftAfter vol.geometry dir n) ∧ (dir.noFatChain = true → n = 0) ∧
      Walked vol.geometry r.device.sectors dir n ∧
      Seeks vol r wanted len (extentSlots vol.geometry r.device.sectors dir n) u) ?_ ?_ ?_
  · exact ⟨by simp [clusterOf_zero, leftAfter], fun _ => rfl, Walked.zero _ _ _, ht, hunits,
      EntrySet.new, rfl, .inr ⟨rfl, hidle⟩⟩
  · rintro n v u - hn ⟨rfl, hfirst, hw, hu⟩
    refine wp_mono _ (findChildCluster_seeks hs htable hr (by omega) hw hfirst hu) ?_ fun _ _ h => h
    rintro (o | v) w hw
    · exact hw
    · exact ⟨hw.1, fun hfat => absurd hw.2.1 (by rw [hfat]; decide), hw.2.2⟩
  · rintro v u ⟨-, hfirst, hw, hu⟩
    rw [Nat.zero_add] at hfirst hw hu
    exact ⟨hu.calm, .broken ⟨hw, hfirst, hu.swept.imp fun e h => h.1⟩ (.inl le_rfl)⟩

end Run

end ExfatEmbedded.Search
