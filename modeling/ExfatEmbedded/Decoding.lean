import ExfatEmbedded.Slots
import Mathlib.Data.List.Induction

/-!
The decoding of a directory around one of its sets.

An entry which a scan lists is of a set between sets; the scan of what follows depends on nothing
in front of it.
-/

namespace ExfatEmbedded.Decoding

open ExfatEmbedded.Library Exec ExfatEmbedded.Core ExfatEmbedded.Entry ExfatEmbedded.Scan
open ExfatEmbedded.Lookup ExfatEmbedded.Reading ExfatEmbedded.Sets ExfatEmbedded.Tree
open ExfatEmbedded.History

/-! ### Scans behind a set -/

/-- Two scans which go on alike, one behind the entries `a` and one behind `b`. -/
inductive Rebased (a b : List DirectoryEntry) :
    Progress (List DirectoryEntry) → Progress (List DirectoryEntry) → Prop
  | going {e e' : EntrySet} (es : List DirectoryEntry) (h : Alike e e') :
      Rebased a b (.going e (a ++ es)) (.going e' (b ++ es))
  | stopped (es : List DirectoryEntry) : Rebased a b (.stopped (a ++ es)) (.stopped (b ++ es))
  | failed : Rebased a b .failed .failed

variable {a b : List DirectoryEntry} {p q : Progress (List DirectoryEntry)}

lemma Rebased.step (h : Rebased a b p q) (x : Slot) :
    Rebased a b (p.step collect x) (q.step collect x) := by
  cases h with
  | stopped es => exact .stopped es
  | failed => exact .failed
  | @going e e' es halike =>
    obtain ⟨hout, hnext⟩ := push_alike halike x.raw x.loc
    unfold Progress.step
    simp only
    by_cases hz : byteAt x.raw 0 = 0
    · rw [if_pos hz, if_pos hz]
      exact .stopped es
    rw [if_neg hz, if_neg hz]
    rcases hp : EntrySet.push x.raw x.loc e with ⟨o, e1⟩
    rcases hq : EntrySet.push x.raw x.loc e' with ⟨o', e1'⟩
    rw [hp, hq] at hout hnext
    simp only at hout hnext
    subst hout
    rcases o with (_ | entry) | _ | _
    · exact .going es hnext
    · simp only [collect, if_true, List.append_assoc]
      exact .going (es ++ [entry]) hnext
    · exact .failed
    · exact .failed

lemma Rebased.sweep (h : Rebased a b p q) (slots : List Slot) :
    Rebased a b (sweep collect slots p) (sweep collect slots q) := by
  induction slots generalizing p q with
  | nil => exact h
  | cons x slots ih => exact ih (h.step x)

lemma rebased_idle {e e' : EntrySet} (h : e.secondaryLeft = 0) (h' : e'.secondaryLeft = 0) :
    Rebased a b (.going e a) (.going e' b) := by
  have hgoing := @Rebased.going a b e e' [] (.inr ⟨h, h'⟩)
  rwa [List.append_nil, List.append_nil] at hgoing

/-! ### Where an entry was listed -/

/-- What a scan which has not failed has listed. -/
def Yields (p : Progress (List DirectoryEntry)) (es : List DirectoryEntry) : Prop :=
  p = .stopped es ∨ ∃ e, p = .going e es

/-- `slots` are the set of `entry` with `pre` in front of it, which the scan has gone over. -/
structure Split (slots pre : List Slot) (prim stream : Slot) (names post : List Slot)
    (entry : DirectoryEntry) (e : EntrySet) (es : List DirectoryEntry) : Prop where
  slots : slots = pre ++ prim :: stream :: names ++ post
  isSet : IsSet prim stream names
  entry : entry = entryOf prim stream names
  before : sweep collect pre (.going EntrySet.new []) = .going e es
  idle : e.secondaryLeft = 0

lemma going_of_append {pre post : List Slot} {e : EntrySet} {es : List DirectoryEntry}
    {p : Progress (List DirectoryEntry)}
    (h : sweep collect (pre ++ post) p = .going e es) :
    ∃ e' es', sweep collect pre p = .going e' es' := by
  rw [sweep_append] at h
  rcases hpre : sweep collect pre p with ⟨e', es'⟩ | es' | _
  · exact ⟨e', es', rfl⟩
  · rw [hpre, sweep_stopped] at h
    cases h
  · rw [hpre, sweep_failed] at h
    cases h

lemma live_of_going {slots : List Slot} {e : EntrySet} {es : List DirectoryEntry}
    {p : Progress (List DirectoryEntry)} (h : sweep collect slots p = .going e es) :
    ∀ x ∈ slots, byteAt x.raw 0 ≠ 0 := by
  intro x hx hz
  obtain ⟨pre, post, rfl⟩ := List.append_of_mem hx
  rw [List.append_cons] at h
  obtain ⟨e', es', hx⟩ := going_of_append h
  obtain ⟨e1, es1, hpre⟩ := going_of_append hx
  rw [sweep_snoc, hpre, Progress.step, if_pos hz] at hx
  cases hx

lemma idle_of_primary {x : Slot} {e e' : EntrySet} {es es' : List DirectoryEntry}
    (hx : byteAt x.raw 0 = 0x85)
    (h : (Progress.going e es).step collect x = .going e' es') : e.secondaryLeft = 0 := by
  by_contra hbusy
  have hpush : (EntrySet.push x.raw x.loc e).1 = .err .corrupt ∨
      (EntrySet.push x.raw x.loc e).1 = .panic := by
    unfold EntrySet.push
    split_ifs with hlen hbad
    · exact Or.inr rfl
    · exact Or.inl rfl
    · exact absurd (Or.inl hbusy) hbad
  unfold Progress.step at h
  simp only at h
  rw [if_neg (by omega)] at h
  rcases hp : EntrySet.push x.raw x.loc e with ⟨o, e1⟩
  rw [hp] at hpush h
  rcases hpush with hpush | hpush
  · simp only at hpush
    subst hpush
    cases h
  · simp only at hpush
    subst hpush
    cases h

lemma parsed_of_sweep {slots : List Slot} (hlen : ∀ x ∈ slots, x.raw.length = 32) {e : EntrySet}
    {es : List DirectoryEntry} (h : sweep collect slots (.going EntrySet.new []) = .going e es) :
    Parsed slots e := by
  induction slots using List.reverseRecOn generalizing e es with
  | nil =>
    cases h
    exact .idle rfl
  | append_singleton slots x ih =>
    obtain ⟨e', es', hbefore⟩ := going_of_append h
    have hparsed := ih (fun y hy => hlen y (List.mem_append_left _ hy)) hbefore
    have hsound := push_sound (x := x) hparsed
      (fun y hy => hlen y (List.mem_append_left _ hy)) (hlen x (by simp))
    rw [sweep_snoc, hbefore, Progress.step] at h
    split_ifs at h with hz
    rcases hp : EntrySet.push x.raw x.loc e' with ⟨(_ | entry) | _ | _, e1⟩
    · rw [hp] at h hsound
      cases h
      exact hsound
    · rw [hp] at h hsound
      simp only [collect, if_true] at h
      cases h
      exact .idle hsound.1
    · rw [hp] at h
      cases h
    · rw [hp] at h
      cases h

/-- **An entry listed is of a set which the scan met between sets.** -/
theorem split_of_mem {slots : List Slot} (hlen : ∀ x ∈ slots, x.raw.length = 32)
    {es : List DirectoryEntry} {x : DirectoryEntry}
    (h : Yields (sweep collect slots (.going EntrySet.new [])) es) (hx : x ∈ es) :
    ∃ pre prim stream names post e es', Split slots pre prim stream names post x e es' := by
  induction slots using List.reverseRecOn generalizing es with
  | nil =>
    rcases h with h | ⟨e, h⟩
    · cases h
    · cases h
      cases hx
  | append_singleton slots y ih =>
    have hlen' : ∀ x ∈ slots, x.raw.length = 32 := fun z hz => hlen z (List.mem_append_left _ hz)
    have hlater {es' : List DirectoryEntry}
        (h' : Yields (sweep collect slots (.going EntrySet.new [])) es') (hx' : x ∈ es') :
        ∃ pre prim stream names post e es',
          Split (slots ++ [y]) pre prim stream names post x e es' := by
      obtain ⟨pre, prim, stream, names, post, e, es', hs⟩ := ih hlen' h' hx'
      refine ⟨pre, prim, stream, names, post ++ [y], e, es', ?_, hs.isSet, hs.entry,
        hs.before, hs.idle⟩
      rw [hs.slots, List.append_assoc]
    rw [sweep_snoc] at h
    rcases hsweep : sweep collect slots (.going EntrySet.new []) with ⟨e, es'⟩ | es' | _
    · rw [hsweep] at h hlater
      have hsound := push_sound (x := y) (parsed_of_sweep hlen' hsweep) hlen' (hlen y (by simp))
      unfold Progress.step at h
      simp only at h
      split_ifs at h with hz
      · obtain rfl : es' = es := by
          rcases h with h | ⟨_, h⟩ <;> cases h
          rfl
        exact hlater (.inr ⟨e, rfl⟩) hx
      rcases hp : EntrySet.push y.raw y.loc e with ⟨(_ | entry) | _ | _, e1⟩
      · rw [hp] at h
        obtain rfl : es' = es := by
          rcases h with h | ⟨_, h⟩ <;> cases h
          rfl
        exact hlater (.inr ⟨e, rfl⟩) hx
      · rw [hp] at h hsound
        obtain rfl : es' ++ [entry] = es := by
          simp only [collect, if_true] at h
          rcases h with h | ⟨_, h⟩ <;> cases h
          rfl
        rcases List.mem_append.mp hx with hx | hx
        · exact hlater (.inr ⟨e, rfl⟩) hx
        obtain rfl := List.mem_singleton.mp hx
        obtain ⟨-, pre, prim, stream, names, hends, hset, hentry⟩ := hsound
        -- the scan had gone over the primary entry
        obtain ⟨front, hfront⟩ := front_of_ends hends
        obtain ⟨e2, es2, hprim⟩ := going_of_append (hfront ▸ hsweep)
        obtain ⟨e3, es3, hpre⟩ := going_of_append hprim
        rw [sweep_snoc, hpre] at hprim
        refine ⟨pre, prim, stream, names, [], e3, es3, ?_, hset, hentry, hpre,
          idle_of_primary hset.primary hprim⟩
        rw [hends, List.append_nil]
      · rw [hp] at h
        rcases h with h | ⟨_, h⟩ <;> cases h
      · rw [hp] at h
        rcases h with h | ⟨_, h⟩ <;> cases h
    · rw [hsweep] at h hlater
      obtain rfl : es' = es := by
        rcases h with h | ⟨_, h⟩ <;> cases h
        rfl
      exact hlater (.inl rfl) hx
    · rw [hsweep] at h
      rcases h with h | ⟨_, h⟩ <;> cases h

/-! ### Scanning a directory again -/

lemma Rebased.yields (h : Rebased a b p q) {es : List DirectoryEntry} (hp : Yields p es) :
    ∃ rest, es = a ++ rest ∧ Yields q (b ++ rest) ∧
      ((∃ e, p = .going e es) ↔ ∃ e, q = .going e (b ++ rest)) := by
  cases h with
  | @going e e' rest halike =>
    obtain rfl : a ++ rest = es := by
      rcases hp with hp | ⟨_, hp⟩ <;> cases hp
      rfl
    exact ⟨rest, rfl, .inr ⟨e', rfl⟩, ⟨fun _ => ⟨e', rfl⟩, fun _ => ⟨e, rfl⟩⟩⟩
  | stopped rest =>
    obtain rfl : a ++ rest = es := by
      rcases hp with hp | ⟨_, hp⟩ <;> cases hp
      rfl
    exact ⟨rest, rfl, .inl rfl, ⟨fun ⟨_, h⟩ => (nomatch h), fun ⟨_, h⟩ => (nomatch h)⟩⟩
  | failed => rcases hp with hp | ⟨_, hp⟩ <;> cases hp

/-- A scan which goes on over a set has met it between sets. -/
lemma Split.of_going {slots pre names post : List Slot} {prim stream : Slot} {e : EntrySet}
    {es : List DirectoryEntry} (hset : IsSet prim stream names)
    (hslots : slots = pre ++ prim :: stream :: names ++ post)
    (h : sweep collect slots (.going EntrySet.new []) = .going e es) :
    ∃ e0 es0, Split slots pre prim stream names post (entryOf prim stream names) e0 es0 := by
  have hparts : slots = (pre ++ [prim]) ++ (stream :: names ++ post) := by simp [hslots]
  obtain ⟨e2, es2, hprim⟩ := going_of_append (hparts ▸ h)
  obtain ⟨e0, es0, hpre⟩ := going_of_append hprim
  rw [sweep_snoc, hpre] at hprim
  exact ⟨e0, es0, hslots, hset, rfl, hpre, idle_of_primary hset.primary hprim⟩

lemma Split.rebased {slots pre names post set : List Slot} {prim stream : Slot}
    {x : DirectoryEntry} {e : EntrySet} {es new : List DirectoryEntry}
    (h : Split slots pre prim stream names post x e es)
    (hset : ∃ e', sweep collect set (.going e es) = .going e' (es ++ new) ∧ e'.secondaryLeft = 0) :
    Rebased (es ++ [x]) (es ++ new) (sweep collect slots (.going EntrySet.new []))
      (sweep collect (pre ++ set ++ post) (.going EntrySet.new [])) := by
  obtain ⟨e', hset, hidle⟩ := hset
  have hold : sweep collect (prim :: stream :: names) (.going e es) =
      .going (afterNames (afterStream prim stream) names) (es ++ [x]) := by
    rw [sweep_set h.isSet h.idle, h.entry]
    rfl
  rw [h.slots, sweep_append, sweep_append, sweep_append, sweep_append, h.before, hold, hset]
  exact (rebased_idle h.isSet.idle hidle).sweep post

/-- A scan which goes on over a set goes on over other slots in its place. -/
lemma Split.going {slots pre names post set : List Slot} {prim stream : Slot}
    {x : DirectoryEntry} {e e1 : EntrySet} {es es1 new : List DirectoryEntry}
    (h : Split slots pre prim stream names post x e es)
    (hset : ∃ e', sweep collect set (.going e es) = .going e' (es ++ new) ∧ e'.secondaryLeft = 0)
    (hgoing : sweep collect slots (.going EntrySet.new []) = .going e1 es1) :
    ∃ rest e', es1 = es ++ [x] ++ rest ∧
      sweep collect (pre ++ set ++ post) (.going EntrySet.new []) =
        .going e' (es ++ new ++ rest) := by
  obtain ⟨rest, hlist, -, hiff⟩ := (h.rebased hset).yields (.inr ⟨e1, hgoing⟩)
  obtain ⟨e', hnew⟩ := hiff.mp ⟨e1, hgoing⟩
  exact ⟨rest, e', hlist, hnew⟩

/-- The last of the entries is the one of the set, or comes behind it. -/
lemma last_cases {x y : DirectoryEntry} {es es' rest : List DirectoryEntry}
    (h : es ++ [x] = es' ++ [y] ++ rest) :
    (rest = [] ∧ es = es' ∧ x = y) ∨ ∃ r, rest = r ++ [x] ∧ es = es' ++ [y] ++ r := by
  rcases List.eq_nil_or_concat rest with rfl | ⟨r, z, rfl⟩
  · rw [List.append_nil] at h
    obtain ⟨hes, hlast⟩ := List.append_inj' h rfl
    exact .inl ⟨rfl, hes, List.singleton_inj.mp hlast⟩
  · rw [List.concat_eq_append, ← List.append_assoc] at h
    obtain ⟨hes, hlast⟩ := List.append_inj' h rfl
    rw [List.singleton_inj] at hlast
    exact .inr ⟨r, by rw [List.concat_eq_append, hlast], hes⟩

lemma sweep_replaced {prim stream : Slot} {names : List Slot} {e : EntrySet}
    {es : List DirectoryEntry} (h : IsSet prim stream names) (hidle : e.secondaryLeft = 0) :
    ∃ e', sweep collect (prim :: stream :: names) (.going e es) =
      .going e' (es ++ [entryOf prim stream names]) ∧ e'.secondaryLeft = 0 :=
  ⟨_, by rw [sweep_set h hidle]; rfl, h.idle⟩

/-! ### A listing is what the slots decode to -/

section Listing

variable {τ : Type} {vol : Volume} {s0 : Machine} {t0 t : τ}
  {visitor : DirectoryEntry → τ → Bool × τ} {dir : Directory} {n : ℕ}

/-- The first `n` clusters of a directory are all a listing goes over. -/
structure Lists (vol : Volume) (s0 : Machine) (t0 : τ) (visitor : DirectoryEntry → τ → Bool × τ)
    (dir : Directory) (n : ℕ) (t : τ) : Prop where
  visited : Visited vol.geometry s0.device.sectors dir n
  swept : sweep visitor (extentSlots vol.geometry s0.device.sectors dir n)
      (.going EntrySet.new t0) = .stopped t ∨
    ∃ e, sweep visitor (extentSlots vol.geometry s0.device.sectors dir n)
      (.going EntrySet.new t0) = .going e t ∧ Ended vol.geometry s0.device.sectors dir n

lemma Lists.readable {slots : List Slot} (h : Lists vol s0 t0 visitor dir n t)
    (hpre : slots <+: extentSlots vol.geometry s0.device.sectors dir n) :
    sweep visitor slots (.going EntrySet.new t0) ≠ .failed := by
  intro hfail
  obtain ⟨rest, hrest⟩ := hpre
  have hsweep := h.swept
  rw [← hrest, sweep_append, hfail, sweep_failed] at hsweep
  rcases hsweep with hsweep | ⟨e, hsweep, -⟩ <;> cases hsweep

lemma not_ended {g : Geometry} {d : Sectors} {m : ℕ} (hw : Walked g d dir m) (hpos : 0 < n)
    (hlt : n ≤ m) : ¬ Ended g d dir n := by
  rintro (⟨hdir, hle⟩ | ⟨hfat, hz⟩ | ⟨hfat, hend⟩)
  · have := hw.inside (n - 1) (by omega) hdir
    omega
  · have := hw.more (n - 1) (by omega) hfat
    rw [show n - 1 + 1 = n by omega] at this
    exact this hz
  · have := hw.chain (n - 1) (by omega) hfat
    rw [show n - 1 + 1 = n by omega] at this
    omega

lemma Lists.unique {m : ℕ} {t' : τ} (h : Lists vol s0 t0 visitor dir n t)
    (h' : Lists vol s0 t0 visitor dir m t') : t = t' := by
  wlog hle : n ≤ m generalizing n m t t'
  · exact (this h' h (by omega)).symm
  rcases hle.eq_or_lt with rfl | hlt
  · rcases h.swept with h1 | ⟨e, h1, -⟩ <;> rcases h'.swept with h2 | ⟨e', h2, -⟩ <;>
      rw [h1] at h2 <;> cases h2 <;> rfl
  · have hw := h'.visited.walked
    rcases h.swept with h1 | ⟨e, -, hend⟩
    · have h2 := sweep_mono (extentSlots_mono vol.geometry s0.device.sectors dir hle) h1
      rcases h'.swept with h3 | ⟨e', h3, -⟩ <;> rw [h2] at h3 <;> cases h3
      rfl
    · exact absurd hend (not_ended hw h.visited.pos (by omega))

variable (hs : Ready vol.geometry s0)

include hs

lemma readDirectorySlot_readable {lba k : ℕ} {done : List Slot}
    {s : (Machine × EntrySet) × τ} (hk : k < vol.geometry.bytesPerSector / 32)
    (hdone : Scan.Listing vol s0 t0 visitor done s)
    (hold : Holds vol.geometry.bytesPerSector lba s.1.1)
    (hread : sweep visitor (done ++ [slotAt s0.device.sectors lba k])
      (.going EntrySet.new t0) ≠ .failed) :
    wp (readDirectorySlot vol visitor lba k) (fun _ _ => True) (fun _ _ => False) s := by
  obtain ⟨⟨m, e⟩, t⟩ := s
  obtain ⟨hq, hsweep⟩ := hdone
  dsimp only at hq hsweep hold
  have hsize := hs.sound.size_le
  have hoff : k * 32 + 32 ≤ vol.geometry.bytesPerSector := by omega
  have hslice := hold.slice hoff
  rw [hq.sectors] at hslice
  rw [sweep_snoc, hsweep, Progress.step] at hread
  unfold readDirectorySlot
  simp only [wp_bind, wp_usize, wp_lift_lift]
  refine ⟨by omega, ?_⟩
  rw [wp_scratchSlice (hq.ready hs) hoff, hslice, wp_ite]
  refine ⟨fun _ => trivial, fun hz => ?_⟩
  rw [if_neg (show ¬ byteAt (slotAt s0.device.sectors lba k).raw 0 = 0 from hz)] at hread
  simp only [wp_bind, wp_lift, wp_onSnd]
  rcases hp : EntrySet.push (Image.slice (s0.device.sectors lba) (k * 32) 32)
    ⟨lba, k * 32 % 2 ^ 16⟩ e with ⟨o, e'⟩
  rw [show EntrySet.push (slotAt s0.device.sectors lba k).raw (slotAt s0.device.sectors lba k).loc e
    = (o, e') from hp] at hread
  rcases o with (_ | entry) | _ | _
  · rw [wp_ok hp]
    trivial
  · rw [wp_ok hp]
    simp only [wp_bind, wp_getSnd, wp_modifySnd, wp_ite]
    exact ⟨fun _ => trivial, fun _ => trivial⟩
  · exact absurd rfl hread
  · exact absurd rfl hread

variable (hr : Listing.Healthy s0)

include hr

lemma readDirectoryCluster_readable {j : ℕ} {s : (Machine × EntrySet) × τ}
    (h : Lists vol s0 t0 visitor dir n t) (hj : j < n)
    (hdone : Scan.Listing vol s0 t0 visitor (extentSlots vol.geometry s0.device.sectors dir j) s) :
    wp (readDirectoryCluster vol visitor dir
        (clusterOf vol.geometry s0.device.sectors dir j, leftAfter vol.geometry dir j))
      (Sum.elim (fun _ _ => True) (fun _ _ => j + 1 < n)) (fun _ _ => False) s := by
  have hc := h.visited.heap hj
  have hsector {i : ℕ} (hi : i < vol.geometry.sectorsPerCluster) := hs.sound.heap_sector hc hi
  unfold readDirectoryCluster
  simp only
  rw [hs.sound.clusterLba_eq hc, pure_bind, okOr_some, pure_bind, wp_bind, readDirectorySector_eq]
  refine wp_mono _ (clusterScan_wp (d := s0.device.sectors)
    (I := Scan.Listing vol s0 t0 visitor)
    (H := fun lba done s => Scan.Listing vol s0 t0 visitor done s ∧
      Holds vol.geometry.bytesPerSector lba s.1.1)
    (S := fun _ => Stopped vol s0 t0 visitor)
    (E := fun _ _ => False) hs.sound.spc_pos
    (fun i hi => (hs.sound.lt_of_inPartition (hsector hi)).2) ?_ ?_ (fun _ _ _ h => h.1) hdone) ?_
    fun _ _ h => h
  · intro i hi done t ht
    rw [wp_lift_lift]
    refine wp_mono _ (readSector_spec (ht.1.ready hs) (hsector hi)) ?_ ?_
    · rintro _ u ⟨hu, hold⟩
      exact ⟨⟨ht.1.trans hu, ht.2⟩, hold⟩
    · rintro _ u ⟨-, -, k, hk⟩
      rw [ht.1.readFails, hr k] at hk
      cases hk
  · intro i hi k done t hk hpre ht
    rw [← extentSlots_succ] at hpre
    have hread := h.readable (hpre.trans (extentSlots_mono _ _ _ hj))
    refine wp_mono _ (wp_and _ (readDirectorySlot_spec hs hk ht.1 ht.2)
      (readDirectorySlot_readable hs hk ht.1 ht.2 hread)) (fun _ _ h => h.1) fun _ _ h => h.2
  rw [← extentSlots_succ]
  rintro (_ | left) u hu
  · trivial
  · obtain ⟨rfl, hinside, hq, hgo⟩ := hu
    rw [leftOver_leftAfter]
    simp only
    -- the scan of all clusters goes on, so that the directory has not ended
    have hlast (hend : Ended vol.geometry s0.device.sectors dir (j + 1) → False) : j + 1 < n := by
      by_contra hge
      obtain rfl : n = j + 1 := by omega
      rcases h.swept with h1 | ⟨e, -, h1⟩
      · rw [hgo] at h1
        cases h1
      · exact hend h1
    have hdir : ¬ (dir.dataLength ≠ 0 ∧ leftAfter vol.geometry dir j ≤
        (vol.geometry.sectorsPerCluster - 1) * vol.geometry.bytesPerSector) := hinside
    cases hfat : dir.noFatChain with
    | true =>
      rw [if_pos rfl, wp_ite]
      refine ⟨fun _ => trivial, fun hz => ?_⟩
      have hmore : j + 1 < n := hlast fun hend => by
        rcases hend with hend | hend | hend
        · exact hdir hend
        · exact hz hend.2
        · exact absurd hend.1 (by rw [hfat]; decide)
      have hnext := hs.sound.inHeap_iff.mp (h.visited.heap hmore)
      have hsum : clusterOf vol.geometry s0.device.sectors dir j + 1 =
          clusterOf vol.geometry s0.device.sectors dir (j + 1) := by
        simp [clusterOf, hfat, Nat.add_assoc]
      simp only [wp_bind, wp_okOr, wp_pure, checkedAdd32]
      rw [hsum, if_pos (by omega)]
      exact ⟨fun _ _ => hmore, fun h => absurd h (Option.some_ne_none _)⟩
    | false =>
      simp only [Bool.false_eq_true, if_false]
      rw [wp_bind, wp_lift_lift]
      refine wp_mono _ (nextCluster_spec (hq.ready hs) hc) ?_ ?_
      · rintro next v ⟨rfl, hv⟩
        rw [hq.sectors, ← clusterOf_succ hfat, wp_ite]
        refine ⟨fun _ => trivial, fun hchain => ?_⟩
        have hmore : j + 1 < n := hlast fun hend => by
          rcases hend with hend | hend | hend
          · exact hdir hend
          · exact absurd hend.1 (by rw [hfat]; decide)
          · exact hchain hend.2
        have hnext := hs.sound.inHeap_iff.mp (h.visited.heap hmore)
        rw [wp_ite]
        exact ⟨fun hlt => absurd hlt (by omega), fun _ => hmore⟩
      · rintro _ v ⟨-, -, k, hk⟩
        rw [hq.readFails, hr k] at hk
        cases hk

/-- **On a device whose reads do not fail, a listing is what the slots decode to.** -/
theorem readDirectory_lists (h : Lists vol s0 t0 visitor dir n t) :
    wp (readDirectory vol dir visitor)
      (fun _ u => Quiet vol.geometry.partition s0 u.1 ∧ u.2 = t) (fun _ _ => False) (s0, t0) := by
  have hok : wp (readDirectory vol dir visitor) (fun _ _ => True) (fun _ _ => False) (s0, t0) := by
    have hscratch := hs.scratch
    rw [wp_readDirectory]
    unfold scanDirectory
    simp only [requireScratch, wp_bind, wp_lift_lift, wp_get, wp_when, wp_throw]
    refine ⟨fun hlt => absurd hscratch (by omega), fun _ => ?_⟩
    refine wp_loop_post (fun j v t => j < n ∧ v = (clusterOf vol.geometry s0.device.sectors dir j,
        leftAfter vol.geometry dir j) ∧ Walked vol.geometry s0.device.sectors dir j ∧
        Scan.Listing vol s0 t0 visitor (extentSlots vol.geometry s0.device.sectors dir j)
          t) ?_ ?_ ?_
    · exact ⟨h.visited.pos, by simp [clusterOf_zero, leftAfter], Walked.zero _ _ _,
        Quiet.refl _ _, rfl⟩
    · rintro j v u - - ⟨hj, rfl, hw, hu⟩
      have hcount := h.visited.le
      refine wp_mono _ (wp_and _ (readDirectoryCluster_spec hs (by omega) hw hu)
        (readDirectoryCluster_readable hs hr h hj hu)) ?_ fun _ _ h => h.2
      rintro (_ | v) w ⟨h1, h2⟩
      · trivial
      · exact ⟨h2, h1⟩
    · rintro v u ⟨hj, -⟩
      have hcount := h.visited.le
      omega
  refine wp_mono _ (wp_and _ (readDirectory_spec hs) hok) ?_ fun _ _ h => h.2
  rintro _ u ⟨⟨hq, m, hvisited, hswept⟩, -⟩
  exact ⟨hq, (h.unique ⟨hvisited, hswept⟩).symm⟩

end Listing

end ExfatEmbedded.Decoding
