import ExfatEmbedded.Reading

/-!
Directories as sequences of slots.

`extentSlots` is what a directory extent holds on the media and `sweep` what a scan makes of it.
The two scans of the program, of `read_directory` and of `find_child`, share the shape of
`sectorScan`.
-/

namespace ExfatEmbedded.Scan

open ExfatEmbedded.Library Exec ExfatEmbedded.Core ExfatEmbedded.Entry ExfatEmbedded.Allocation
open ExfatEmbedded.Lookup ExfatEmbedded.Reading

/-! ### The slots of an extent -/

/-- A directory slot: its 32 bytes and where they are. -/
structure Slot where
  raw : List UInt8
  loc : EntryLocator
  deriving DecidableEq

/-- Slot `k` of sector `lba`. -/
def slotAt (d : Sectors) (lba k : ℕ) : Slot :=
  ⟨Image.slice (d lba) (k * 32) 32, ⟨lba, k * 32 % 2 ^ 16⟩⟩

/-- The first `n` slots of sector `lba`. -/
def sectorSlots (d : Sectors) (lba n : ℕ) : List Slot := (List.range n).map (slotAt d lba)

/-- The bytes of sector `i` of a cluster which belong to a directory with `remaining` bytes left
at the beginning of the cluster. -/
def usableAt (dir : Directory) (size remaining i : ℕ) : ℕ :=
  usableBytes dir size (remaining - i * size)

/-- The slots in the first `n` sectors of a cluster. -/
def clusterSlots (d : Sectors) (g : Geometry) (dir : Directory) (base remaining n : ℕ) :
    List Slot :=
  (List.range n).flatMap fun i =>
    sectorSlots d (base + i) (usableAt dir g.bytesPerSector remaining i / 32)

/-- Cluster `j` of a directory. -/
def clusterOf (g : Geometry) (d : Sectors) (dir : Directory) (j : ℕ) : ℕ :=
  if dir.noFatChain then dir.firstCluster + j else link g d dir.firstCluster j

/-- The bytes of a directory which are left behind its first `j` clusters. -/
def leftAfter (g : Geometry) (dir : Directory) (j : ℕ) : ℕ :=
  dir.dataLength - j * (g.bytesPerSector * g.sectorsPerCluster)

/-- The slots in the first `n` clusters of a directory. -/
def extentSlots (g : Geometry) (d : Sectors) (dir : Directory) (n : ℕ) : List Slot :=
  (List.range n).flatMap fun j =>
    clusterSlots d g dir (heapLba g (clusterOf g d dir j)) (leftAfter g dir j) g.sectorsPerCluster

/-- A walk has gone over the first `j` clusters of a directory, and goes on. -/
structure Walked (g : Geometry) (d : Sectors) (dir : Directory) (j : ℕ) : Prop where
  heap : ∀ i < j, g.InHeap (clusterOf g d dir i)
  chain : ∀ i < j, dir.noFatChain = false → clusterOf g d dir (i + 1) < 0xfffffff8
  more : ∀ i < j, dir.noFatChain = true → leftAfter g dir (i + 1) ≠ 0
  inside : ∀ i < j, dir.dataLength ≠ 0 →
    (g.sectorsPerCluster - 1) * g.bytesPerSector < leftAfter g dir i

/-- A walk ends in cluster number `n`, counted from one. -/
structure Visited (g : Geometry) (d : Sectors) (dir : Directory) (n : ℕ) : Prop where
  pos : 0 < n
  le : n ≤ g.clusterCount
  walked : Walked g d dir (n - 1)
  last : g.InHeap (clusterOf g d dir (n - 1))

/-- Nothing of the directory follows its first `n` clusters. -/
def Ended (g : Geometry) (d : Sectors) (dir : Directory) (n : ℕ) : Prop :=
  (dir.dataLength ≠ 0 ∧ leftAfter g dir (n - 1) ≤ (g.sectorsPerCluster - 1) * g.bytesPerSector) ∨
    (dir.noFatChain = true ∧ leftAfter g dir n = 0) ∨
    (dir.noFatChain = false ∧ 0xfffffff8 ≤ clusterOf g d dir n)

lemma clusterOf_zero (g : Geometry) (d : Sectors) (dir : Directory) :
    clusterOf g d dir 0 = dir.firstCluster := by
  unfold clusterOf
  split_ifs <;> rfl

lemma clusterOf_succ {g : Geometry} {d : Sectors} {dir : Directory} {j : ℕ}
    (h : dir.noFatChain = false) :
    clusterOf g d dir (j + 1) = fatEntry g d (clusterOf g d dir j) := by
  simp [clusterOf, h, link_succ]

lemma Walked.congr {g : Geometry} {d d' : Sectors} {dir : Directory} {n : ℕ}
    (h : Walked g d dir n) (heq : ∀ i ≤ n, clusterOf g d' dir i = clusterOf g d dir i) :
    Walked g d' dir n := by
  refine ⟨fun i hi => ?_, fun i hi hfat => ?_, h.more, h.inside⟩
  · rw [heq i (by omega)]
    exact h.heap i hi
  · rw [heq (i + 1) (by omega)]
    exact h.chain i hi hfat

lemma Visited.heap {g : Geometry} {d : Sectors} {dir : Directory} {n i : ℕ}
    (h : Visited g d dir n) (hi : i < n) : g.InHeap (clusterOf g d dir i) := by
  rcases Nat.lt_or_ge i (n - 1) with hlt | hge
  · exact h.walked.heap i hlt
  · obtain rfl : i = n - 1 := by omega
    exact h.last

lemma Walked.zero (g : Geometry) (d : Sectors) (dir : Directory) : Walked g d dir 0 :=
  ⟨nofun, nofun, nofun, nofun⟩

lemma Walked.succ {g : Geometry} {d : Sectors} {dir : Directory} {j : ℕ} (h : Walked g d dir j)
    (hheap : g.InHeap (clusterOf g d dir j))
    (hchain : dir.noFatChain = false → clusterOf g d dir (j + 1) < 0xfffffff8)
    (hmore : dir.noFatChain = true → leftAfter g dir (j + 1) ≠ 0)
    (hinside : dir.dataLength ≠ 0 →
      (g.sectorsPerCluster - 1) * g.bytesPerSector < leftAfter g dir j) :
    Walked g d dir (j + 1) := by
  have hlast {i : ℕ} (hi : i < j + 1) : i < j ∨ i = j := by omega
  refine ⟨fun i hi => ?_, fun i hi => ?_, fun i hi => ?_, fun i hi => ?_⟩
  · rcases hlast hi with h' | rfl
    exacts [h.heap i h', hheap]
  · rcases hlast hi with h' | rfl
    exacts [h.chain i h', hchain]
  · rcases hlast hi with h' | rfl
    exacts [h.more i h', hmore]
  · rcases hlast hi with h' | rfl
    exacts [h.inside i h', hinside]

lemma sectorSlots_succ (d : Sectors) (lba n : ℕ) :
    sectorSlots d lba (n + 1) = sectorSlots d lba n ++ [slotAt d lba n] := by
  simp [sectorSlots, List.range_succ]

lemma clusterSlots_succ (d : Sectors) (g : Geometry) (dir : Directory) (base remaining n : ℕ) :
    clusterSlots d g dir base remaining (n + 1) = clusterSlots d g dir base remaining n ++
      sectorSlots d (base + n) (usableAt dir g.bytesPerSector remaining n / 32) := by
  simp [clusterSlots, List.range_succ]

lemma extentSlots_succ (g : Geometry) (d : Sectors) (dir : Directory) (n : ℕ) :
    extentSlots g d dir (n + 1) = extentSlots g d dir n ++
      clusterSlots d g dir (heapLba g (clusterOf g d dir n)) (leftAfter g dir n)
        g.sectorsPerCluster := by
  simp [extentSlots, List.range_succ]

lemma sectorSlots_mono (d : Sectors) (lba : ℕ) {m n : ℕ} (h : m ≤ n) :
    sectorSlots d lba m <+: sectorSlots d lba n := by
  induction n, h using Nat.le_induction with
  | base => exact List.prefix_rfl
  | succ n _ ih =>
    rw [sectorSlots_succ]
    exact ih.trans (List.prefix_append _ _)

lemma clusterSlots_mono (d : Sectors) (g : Geometry) (dir : Directory) (base remaining : ℕ)
    {m n : ℕ} (h : m ≤ n) :
    clusterSlots d g dir base remaining m <+: clusterSlots d g dir base remaining n := by
  induction n, h using Nat.le_induction with
  | base => exact List.prefix_rfl
  | succ n _ ih =>
    rw [clusterSlots_succ]
    exact ih.trans (List.prefix_append _ _)

lemma extentSlots_mono (g : Geometry) (d : Sectors) (dir : Directory) {m n : ℕ} (h : m ≤ n) :
    extentSlots g d dir m <+: extentSlots g d dir n := by
  induction n, h using Nat.le_induction with
  | base => exact List.prefix_rfl
  | succ n _ ih =>
    rw [extentSlots_succ]
    exact ih.trans (List.prefix_append _ _)

lemma clusterSlots_exhausted (d : Sectors) (g : Geometry) {dir : Directory} (base : ℕ)
    {remaining m n : ℕ} (hdir : dir.dataLength ≠ 0) (hm : remaining ≤ m * g.bytesPerSector)
    (h : m ≤ n) :
    clusterSlots d g dir base remaining n = clusterSlots d g dir base remaining m := by
  induction n, h using Nat.le_induction with
  | base => rfl
  | succ n hmn ih =>
    have hle : m * g.bytesPerSector ≤ n * g.bytesPerSector := Nat.mul_le_mul_right _ hmn
    have hzero : usableAt dir g.bytesPerSector remaining n = 0 := by
      unfold usableAt usableBytes
      rw [if_neg hdir]
      omega
    rw [clusterSlots_succ, ih, hzero]
    simp [sectorSlots]

/-! ### Sweeps -/

/-- The state of a scan: on its way, stopped by an end marker or by the visitor, or failed. -/
inductive Progress (τ : Type) where
  | going (e : EntrySet) (t : τ)
  | stopped (t : τ)
  | failed

variable {τ : Type}

/-- One slot. -/
def Progress.step (visitor : DirectoryEntry → τ → Bool × τ) : Progress τ → Slot → Progress τ
  | .going e t, slot =>
    if byteAt slot.raw 0 = 0 then .stopped t
    else
      match EntrySet.push slot.raw slot.loc e with
      | (.ok none, e') => .going e' t
      | (.ok (some entry), e') =>
        if (visitor entry t).1 then .going e' (visitor entry t).2
        else .stopped (visitor entry t).2
      | _ => .failed
  | s, _ => s

def sweep (visitor : DirectoryEntry → τ → Bool × τ) (slots : List Slot) (s : Progress τ) :
    Progress τ :=
  slots.foldl (Progress.step visitor) s

@[simp] lemma sweep_nil (visitor : DirectoryEntry → τ → Bool × τ) (s : Progress τ) :
    sweep visitor [] s = s := rfl

lemma sweep_append (visitor : DirectoryEntry → τ → Bool × τ) (a b : List Slot) (s : Progress τ) :
    sweep visitor (a ++ b) s = sweep visitor b (sweep visitor a s) := List.foldl_append

lemma sweep_snoc (visitor : DirectoryEntry → τ → Bool × τ) (slots : List Slot) (slot : Slot)
    (s : Progress τ) : sweep visitor (slots ++ [slot]) s = (sweep visitor slots s).step
    visitor slot :=
  sweep_append visitor slots [slot] s

lemma sweep_stopped (visitor : DirectoryEntry → τ → Bool × τ) (slots : List Slot) (t : τ) :
    sweep visitor slots (.stopped t) = .stopped t := by
  induction slots with
  | nil => rfl
  | cons slot slots ih => exact ih

lemma sweep_failed (visitor : DirectoryEntry → τ → Bool × τ) (slots : List Slot) :
    sweep visitor slots .failed = .failed := by
  induction slots with
  | nil => rfl
  | cons slot slots ih => exact ih

lemma sweep_mono {visitor : DirectoryEntry → τ → Bool × τ} {a b : List Slot}
    {s : Progress τ} {t : τ}
    (h : a <+: b) (ha : sweep visitor a s = .stopped t) : sweep visitor b s = .stopped t := by
  obtain ⟨c, rfl⟩ := h
  rw [sweep_append, ha, sweep_stopped]

/-- The visitor which lists all entries. -/
def collect (e : DirectoryEntry) (es : List DirectoryEntry) : Bool × List DirectoryEntry :=
  (true, es ++ [e])

/-- The visitor which stops at the first entry with `p`. -/
def search (p : DirectoryEntry → Bool) (e : DirectoryEntry) (r : Option DirectoryEntry) :
    Bool × Option DirectoryEntry := if p e then (false, some e) else (true, r)

/-- The entries in a sequence of slots, up to the end marker. -/
def decode (slots : List Slot) : List DirectoryEntry :=
  match sweep collect slots (.going EntrySet.new []) with
  | .going _ es => es
  | .stopped es => es
  | .failed => []

/-- How the two sweeps of a directory go together. -/
inductive Searches (p : DirectoryEntry → Bool) :
    Progress (List DirectoryEntry) → Progress (Option DirectoryEntry) → Prop
  | going {e : EntrySet} {es : List DirectoryEntry} (h : es.find? p = none) :
      Searches p (.going e es) (.going e none)
  | stopped {es : List DirectoryEntry} (h : es.find? p = none) :
      Searches p (.stopped es) (.stopped none)
  | failed : Searches p .failed .failed
  | foundGoing {e : EntrySet} {es : List DirectoryEntry} {x : DirectoryEntry}
      (h : es.find? p = some x) : Searches p (.going e es) (.stopped (some x))
  | foundStopped {es : List DirectoryEntry} {x : DirectoryEntry} (h : es.find? p = some x) :
      Searches p (.stopped es) (.stopped (some x))
  | foundFailed {x : DirectoryEntry} : Searches p .failed (.stopped (some x))

lemma searches_step {p : DirectoryEntry → Bool} {c : Progress (List DirectoryEntry)}
    {f : Progress (Option DirectoryEntry)} (h : Searches p c f) (slot : Slot) :
    Searches p (c.step collect slot) (f.step (search p) slot) := by
  cases h with
  | going h =>
    unfold Progress.step
    simp only
    by_cases hz : byteAt slot.raw 0 = 0
    · rw [if_pos hz, if_pos hz]
      exact .stopped h
    · rw [if_neg hz, if_neg hz]
      rcases EntrySet.push slot.raw slot.loc _ with ⟨(_ | entry) | _ | _, e'⟩
      · exact .going h
      · by_cases hp : p entry = true
        · simp only [collect, search, hp, if_true]
          exact .foundGoing (by simp [List.find?_append, h, hp])
        · simp only [collect, search, hp, if_true]
          exact .going (by simp [List.find?_append, h, hp])
      · exact .failed
      · exact .failed
  | stopped h => exact .stopped h
  | failed => exact .failed
  | foundGoing h =>
    unfold Progress.step
    simp only
    by_cases hz : byteAt slot.raw 0 = 0
    · rw [if_pos hz]
      exact .foundStopped h
    · rw [if_neg hz]
      rcases EntrySet.push slot.raw slot.loc _ with ⟨(_ | entry) | _ | _, e'⟩
      · exact .foundGoing h
      · simp only [collect, if_true]
        exact .foundGoing (by simp [List.find?_append, h])
      · exact .foundFailed
      · exact .foundFailed
  | foundStopped h => exact .foundStopped h
  | foundFailed => exact .foundFailed

lemma searches_sweep {p : DirectoryEntry → Bool} {c : Progress (List DirectoryEntry)}
    {f : Progress (Option DirectoryEntry)} (h : Searches p c f) (slots : List Slot) :
    Searches p (sweep collect slots c) (sweep (search p) slots f) := by
  induction slots generalizing c f with
  | nil => exact h
  | cons slot slots ih => exact ih (searches_step h slot)

lemma searches_slots (p : DirectoryEntry → Bool) (slots : List Slot) :
    Searches p (sweep collect slots (.going EntrySet.new []))
      (sweep (search p) slots (.going EntrySet.new none)) :=
  searches_sweep (.going rfl) slots

lemma collected_of_going {p : DirectoryEntry → Bool} {slots : List Slot} {e : EntrySet}
    (h : sweep (search p) slots (.going EntrySet.new none) = .going e none) :
    ∃ es, sweep collect slots (.going EntrySet.new []) = .going e es := by
  have hsearch := searches_slots p slots
  rw [h] at hsearch
  generalize sweep collect slots (.going EntrySet.new []) = c at hsearch
  cases hsearch
  exact ⟨_, rfl⟩

/-! ### The common shape of the scans -/

section Sectors

variable {σ ρ : Type}

/-- One sector of a directory cluster, for any way to read it and to treat a slot. -/
def sectorScan (read : ℕ → Exec σ Error Unit) (slot : ℕ → ℕ → Exec σ Error (ρ ⊕ Unit)) (stop : ρ)
    (size : ℕ) (dir : Directory) (base sector remaining : ℕ) : Exec σ Error (ρ ⊕ ℕ) := do
  if dir.dataLength ≠ 0 ∧ remaining = 0 then pure (.inl stop)
  else do
    let lba ← u64 (base + sector)
    read lba
    let usable := usableBytes dir size remaining
    match ← loop (fun k _ => slot lba k) 0 (usable / 32) () with
    | .inl r => pure (.inl r)
    | .inr () => pure (.inr (if dir.dataLength ≠ 0 then remaining - usable else remaining))

/-- The directory ends in the cluster, before its last sector. -/
def EndsWithin (g : Geometry) (dir : Directory) (remaining : ℕ) : Prop :=
  dir.dataLength ≠ 0 ∧ remaining ≤ (g.sectorsPerCluster - 1) * g.bytesPerSector

/-- What is left of a directory behind a cluster. -/
def leftOver (g : Geometry) (dir : Directory) (remaining : ℕ) : ℕ :=
  if dir.dataLength ≠ 0 then remaining - g.bytesPerSector * g.sectorsPerCluster else remaining

variable {g : Geometry} {d : Sectors} {dir : Directory} {base remaining : ℕ}
  {read : ℕ → Exec σ Error Unit} {slot : ℕ → ℕ → Exec σ Error (ρ ⊕ Unit)} {stop : ρ}
  {I : List Slot → σ → Prop} {H : ℕ → List Slot → σ → Prop} {S : ρ → List Slot → σ → Prop}
  {E : Error → σ → Prop}

lemma sectorScan_wp {i : ℕ} {done : List Slot} {s : σ} (hbase : base + i < 2 ^ 64)
    (hread : ∀ done s, I done s → wp (read (base + i)) (fun _ => H (base + i) done) E s)
    (hslot : ∀ k done' s, k < g.bytesPerSector / 32 →
      done' ++ [slotAt d (base + i) k] <+:
        done ++ sectorSlots d (base + i) (usableBytes dir g.bytesPerSector remaining / 32) →
      H (base + i) done' s →
      wp (slot (base + i) k) (Sum.elim (fun r => S r (done' ++ [slotAt d (base + i) k]))
        fun _ => H (base + i) (done' ++ [slotAt d (base + i) k])) E s)
    (hkeep : ∀ done s, H (base + i) done s → I done s) (hI : I done s)
    (hopen : ¬ (dir.dataLength ≠ 0 ∧ remaining = 0)) :
    wp (sectorScan read slot stop g.bytesPerSector dir base i remaining)
      (Sum.elim
        (fun r t => ∃ k < usableBytes dir g.bytesPerSector remaining / 32,
          S r (done ++ sectorSlots d (base + i) (k + 1)) t)
        (fun left t => left = (if dir.dataLength ≠ 0 then
            remaining - usableBytes dir g.bytesPerSector remaining else remaining) ∧
          I (done ++ sectorSlots d (base + i) (usableBytes dir g.bytesPerSector remaining / 32)) t))
      E s := by
  have husable : usableBytes dir g.bytesPerSector remaining / 32 ≤ g.bytesPerSector / 32 := by
    refine Nat.div_le_div_right ?_
    unfold usableBytes
    split_ifs <;> omega
  unfold sectorScan
  rw [if_neg hopen]
  simp only [wp_bind, wp_u64]
  refine ⟨hbase, wp_mono _ (hread done s hI) ?_ fun _ _ h => h⟩
  intro _ t ht
  refine wp_loop_post (fun k _ t => H (base + i) (done ++ sectorSlots d (base + i) k) t) ?_ ?_ ?_
  · simpa [sectorSlots] using ht
  · intro k _ t _ hk ht
    have hpre : done ++ sectorSlots d (base + i) k ++ [slotAt d (base + i) k] <+:
        done ++ sectorSlots d (base + i) (usableBytes dir g.bytesPerSector remaining / 32) := by
      rw [List.append_assoc, ← sectorSlots_succ, List.prefix_append_right_inj]
      exact sectorSlots_mono _ _ (by omega)
    refine wp_mono _ (hslot k _ t (by omega) hpre ht) ?_ fun _ _ h => h
    rintro (r | _) u hu
    · refine ⟨k, by omega, ?_⟩
      rw [sectorSlots_succ, ← List.append_assoc]
      exact hu
    · change H (base + i) (done ++ sectorSlots d (base + i) (k + 1)) u
      rw [sectorSlots_succ, ← List.append_assoc]
      exact hu
  · intro _ t ht
    rw [Nat.zero_add] at ht
    exact ⟨rfl, hkeep _ _ ht⟩

/-- **The scan of a cluster.** It stops at a slot, or at the end of the directory, or has gone over
all slots of the cluster. -/
theorem clusterScan_wp {l : List Slot} {s : σ} (hpos : 0 < g.sectorsPerCluster)
    (hbase : ∀ i < g.sectorsPerCluster, base + i < 2 ^ 64)
    (hread : ∀ i < g.sectorsPerCluster, ∀ done s, I done s →
      wp (read (base + i)) (fun _ => H (base + i) done) E s)
    (hslot : ∀ i < g.sectorsPerCluster, ∀ k done' s, k < g.bytesPerSector / 32 →
      done' ++ [slotAt d (base + i) k] <+:
        l ++ clusterSlots d g dir base remaining g.sectorsPerCluster →
      H (base + i) done' s →
      wp (slot (base + i) k) (Sum.elim (fun r => S r (done' ++ [slotAt d (base + i) k]))
        fun _ => H (base + i) (done' ++ [slotAt d (base + i) k])) E s)
    (hkeep : ∀ lba done s, H lba done s → I done s) (hI : I l s) :
    wp (loop (fun sector left => sectorScan read slot stop g.bytesPerSector dir base sector left)
        0 g.sectorsPerCluster remaining)
      (Sum.elim
        (fun r t =>
          (∃ full, full <+: l ++ clusterSlots d g dir base remaining g.sectorsPerCluster ∧
            S r full t) ∨
          (r = stop ∧ EndsWithin g dir remaining ∧
            I (l ++ clusterSlots d g dir base remaining g.sectorsPerCluster) t))
        (fun left t => left = leftOver g dir remaining ∧ ¬ EndsWithin g dir remaining ∧
          I (l ++ clusterSlots d g dir base remaining g.sectorsPerCluster) t)) E s := by
  refine wp_loop_post (fun i left t =>
    left = (if dir.dataLength ≠ 0 then remaining - i * g.bytesPerSector else remaining) ∧
    (∀ j < i, dir.dataLength ≠ 0 → j * g.bytesPerSector < remaining) ∧
    I (l ++ clusterSlots d g dir base remaining i) t) ?_ ?_ ?_
  · refine ⟨by simp, fun j hj => by omega, ?_⟩
    simpa [clusterSlots] using hI
  · rintro i left t - hi ⟨rfl, hopen, ht⟩
    rw [Nat.zero_add] at hi
    by_cases hstop : dir.dataLength ≠ 0 ∧
        (if dir.dataLength ≠ 0 then remaining - i * g.bytesPerSector else remaining) = 0
    · have hend : remaining ≤ i * g.bytesPerSector := by
        have := hstop.2
        rw [if_pos hstop.1] at this
        omega
      unfold sectorScan
      rw [if_pos hstop]
      refine Or.inr ⟨rfl, ⟨hstop.1, hend.trans (Nat.mul_le_mul_right _ (by omega))⟩, ?_⟩
      rw [clusterSlots_exhausted d g base hstop.1 hend hi.le]
      exact ht
    · have husable : usableBytes dir g.bytesPerSector
          (if dir.dataLength ≠ 0 then remaining - i * g.bytesPerSector else remaining) =
          usableAt dir g.bytesPerSector remaining i := by
        unfold usableAt usableBytes
        split_ifs <;> simp_all
      have hpre : l ++ clusterSlots d g dir base remaining i ++
          sectorSlots d (base + i) (usableAt dir g.bytesPerSector remaining i / 32) <+:
          l ++ clusterSlots d g dir base remaining g.sectorsPerCluster := by
        rw [List.append_assoc, ← clusterSlots_succ, List.prefix_append_right_inj]
        exact clusterSlots_mono d g dir base remaining hi
      refine wp_mono _ (sectorScan_wp (hbase i hi) (hread i hi)
        (fun k done' s hk hin => hslot i hi k done' s hk (hin.trans (husable ▸ hpre)))
        (hkeep _) ht hstop) ?_ fun _ _ h => h
      rw [husable]
      rintro (r | left) u hu
      · obtain ⟨k, hk, hS⟩ := hu
        refine Or.inl ⟨_, List.IsPrefix.trans ?_ hpre, hS⟩
        rw [List.prefix_append_right_inj]
        exact sectorSlots_mono _ _ (by omega)
      · obtain ⟨hleft, hu⟩ := hu
        refine ⟨?_, fun j hj hdir => ?_, ?_⟩
        · rw [hleft]
          unfold usableAt usableBytes
          split_ifs with h1
          · rw [Nat.add_mul, Nat.one_mul]
            omega
          · rfl
        · rcases Nat.lt_or_ge j i with hji | hji
          · exact hopen j hji hdir
          · obtain rfl : j = i := by omega
            rw [if_pos hdir] at hstop
            omega
        · rw [clusterSlots_succ, ← List.append_assoc]
          exact hu
  · rintro left t ⟨rfl, hopen, ht⟩
    rw [Nat.zero_add] at hopen ht ⊢
    refine ⟨?_, fun h => ?_, ht⟩
    · unfold leftOver
      rw [Nat.mul_comm]
    · have := hopen (g.sectorsPerCluster - 1) (by omega) h.1
      have := h.2
      omega

end Sectors

/-! ### Listing a directory -/

lemma push_cases {raw : List UInt8} (h : raw.length = 32) (loc : EntryLocator) (e : EntrySet) :
    (∃ o, (EntrySet.push raw loc e).1 = .ok o) ∨ (EntrySet.push raw loc e).1 = .err .corrupt := by
  have hconsume (s : EntrySet) :
      (∃ o, s.consume.1 = .ok o) ∨ s.consume.1 = .err .corrupt := by
    unfold EntrySet.consume EntrySet.complete
    simp only
    split_ifs <;> simp
  unfold EntrySet.push
  rw [if_neg (by omega)]
  split_ifs
  all_goals first
    | exact Or.inr rfl
    | exact Or.inl ⟨_, rfl⟩
    | exact hconsume _

variable {vol : Volume} {s0 : Machine} {t0 : τ} {visitor : DirectoryEntry → τ → Bool × τ}
  {dir : Directory}

/-- The listing is under way and has gone over `done`. -/
def Listing (vol : Volume) (s0 : Machine) (t0 : τ) (visitor : DirectoryEntry → τ → Bool × τ)
    (done : List Slot) (s : (Machine × EntrySet) × τ) : Prop :=
  Quiet vol.geometry.partition s0 s.1.1 ∧
    sweep visitor done (.going EntrySet.new t0) = .going s.1.2 s.2

/-- The listing has been stopped by the last slot of `done`. -/
def Stopped (vol : Volume) (s0 : Machine) (t0 : τ) (visitor : DirectoryEntry → τ → Bool × τ)
    (done : List Slot) (s : (Machine × EntrySet) × τ) : Prop :=
  Quiet vol.geometry.partition s0 s.1.1 ∧
    sweep visitor done (.going EntrySet.new t0) = .stopped s.2

lemma readDirectorySlot_spec (hs : Ready vol.geometry s0) {lba k : ℕ} {done : List Slot}
    {s : (Machine × EntrySet) × τ} (hk : k < vol.geometry.bytesPerSector / 32)
    (hdone : Listing vol s0 t0 visitor done s)
      (hold : Holds vol.geometry.bytesPerSector lba s.1.1) :
    wp (readDirectorySlot vol visitor lba k)
      (Sum.elim
        (fun _ => Stopped vol s0 t0 visitor (done ++ [slotAt s0.device.sectors lba k]))
        (fun _ t => Listing vol s0 t0 visitor (done ++ [slotAt s0.device.sectors lba k]) t ∧
          Holds vol.geometry.bytesPerSector lba t.1.1))
      (fun _ t => Quiet vol.geometry.partition s0 t.1.1) s := by
  obtain ⟨⟨m, e⟩, t⟩ := s
  obtain ⟨hq, hsweep⟩ := hdone
  dsimp only at hq hsweep hold
  have hsize := hs.sound.size_le
  have hoff : k * 32 + 32 ≤ vol.geometry.bytesPerSector := by omega
  have hslice := hold.slice hoff
  rw [hq.sectors] at hslice
  have hraw : (Image.slice (s0.device.sectors lba) (k * 32) 32).length = 32 :=
    Image.slice_length _ _ _
  have hstep := sweep_snoc visitor done (slotAt s0.device.sectors lba k) (.going EntrySet.new t0)
  rw [hsweep, Progress.step] at hstep
  unfold readDirectorySlot
  simp only [wp_bind, wp_usize, wp_lift_lift]
  refine ⟨by omega, ?_⟩
  rw [wp_scratchSlice (hq.ready hs) hoff, hslice, wp_ite]
  refine ⟨fun hz => ⟨hq, hstep.trans (if_pos hz)⟩, fun hz => ?_⟩
  rw [if_neg (show ¬ byteAt (slotAt s0.device.sectors lba k).raw 0 = 0 from hz)] at hstep
  simp only [wp_bind, wp_lift, wp_onSnd]
  rcases hp : EntrySet.push (Image.slice (s0.device.sectors lba) (k * 32) 32)
    ⟨lba, k * 32 % 2 ^ 16⟩ e with ⟨o, e'⟩
  rw [show EntrySet.push (slotAt s0.device.sectors lba k).raw (slotAt s0.device.sectors lba k).loc e
    = (o, e') from hp] at hstep
  rcases push_cases hraw ⟨lba, k * 32 % 2 ^ 16⟩ e with ⟨o', ho⟩ | ho
  · rw [hp] at ho
    dsimp only at ho
    subst ho
    rw [wp_ok hp]
    rcases o' with _ | entry
    · exact ⟨⟨hq, hstep⟩, hold⟩
    · simp only [wp_bind, wp_getSnd, wp_modifySnd, wp_ite] at hstep ⊢
      refine ⟨fun hmore => ?_, fun hmore => ?_⟩
      · rw [if_pos hmore] at hstep
        exact ⟨⟨hq, hstep⟩, hold⟩
      · rw [if_neg hmore] at hstep
        exact ⟨hq, hstep⟩
  · rw [hp] at ho
    dsimp only at ho
    subst ho
    rw [wp_err hp]
    exact hq

lemma leftOver_leftAfter (g : Geometry) (dir : Directory) (j : ℕ) :
    leftOver g dir (leftAfter g dir j) = leftAfter g dir (j + 1) := by
  unfold leftOver leftAfter
  rw [Nat.add_mul, Nat.one_mul]
  split_ifs <;> omega

/-- What a finished listing has made of the extent. -/
def Listed (vol : Volume) (s0 : Machine) (t0 : τ) (visitor : DirectoryEntry → τ → Bool × τ)
    (dir : Directory) (t : τ) : Prop :=
  ∃ n, Visited vol.geometry s0.device.sectors dir n ∧
    (sweep visitor (extentSlots vol.geometry s0.device.sectors dir n) (.going EntrySet.new t0) =
        .stopped t ∨
      ∃ e, sweep visitor (extentSlots vol.geometry s0.device.sectors dir n)
          (.going EntrySet.new t0) = .going e t ∧
        Ended vol.geometry s0.device.sectors dir n)

lemma readDirectorySector_eq (vol : Volume) (visitor : DirectoryEntry → τ → Bool × τ) :
    readDirectorySector vol visitor =
      sectorScan (fun lba => liftM (readSector vol.geometry.bytesPerSector lba : FsM Unit))
        (readDirectorySlot vol visitor) () vol.geometry.bytesPerSector := by
  funext dir base sector remaining
  unfold readDirectorySector sectorScan
  refine if_congr Iff.rfl rfl (bind_congr fun lba => bind_congr fun _ => bind_congr fun r => ?_)
  rcases r with _ | _ <;> rfl

lemma findChildSector_eq (vol : Volume) (dir : Directory) (wantedLen : ℕ) :
    findChildSector vol dir wantedLen =
      sectorScan (fun lba => liftM (readSector vol.geometry.bytesPerSector lba : FsM Unit))
        (findChildSlot vol wantedLen) none vol.geometry.bytesPerSector dir := by
  funext base sector remaining
  unfold findChildSector sectorScan
  refine if_congr Iff.rfl rfl (bind_congr fun lba => bind_congr fun _ => bind_congr fun r => ?_)
  rcases r with _ | _ <;> rfl

lemma readDirectoryCluster_spec (hs : Ready vol.geometry s0) {j : ℕ}
    {s : (Machine × EntrySet) × τ} (hj : j < vol.geometry.clusterCount)
    (hw : Walked vol.geometry s0.device.sectors dir j)
    (hdone : Listing vol s0 t0 visitor (extentSlots vol.geometry s0.device.sectors dir j) s) :
    wp (readDirectoryCluster vol visitor dir
        (clusterOf vol.geometry s0.device.sectors dir j, leftAfter vol.geometry dir j))
      (Sum.elim
        (fun _ t => Quiet vol.geometry.partition s0 t.1.1 ∧ Listed vol s0 t0 visitor dir t.2)
        (fun v t => v = (clusterOf vol.geometry s0.device.sectors dir (j + 1),
            leftAfter vol.geometry dir (j + 1)) ∧
          Walked vol.geometry s0.device.sectors dir (j + 1) ∧
          Listing vol s0 t0 visitor (extentSlots vol.geometry s0.device.sectors dir (j + 1)) t))
      (fun _ t => Quiet vol.geometry.partition s0 t.1.1) s := by
  unfold readDirectoryCluster
  simp only
  by_cases hc : vol.geometry.InHeap (clusterOf vol.geometry s0.device.sectors dir j)
  swap
  · rw [Sound.clusterLba_none hc]
    exact hdone.1
  have hvisited : Visited vol.geometry s0.device.sectors dir (j + 1) := ⟨by omega, hj, hw, hc⟩
  have hsector {i : ℕ} (hi : i < vol.geometry.sectorsPerCluster) := hs.sound.heap_sector hc hi
  rw [hs.sound.clusterLba_eq hc, pure_bind, okOr_some, pure_bind, wp_bind, readDirectorySector_eq]
  refine wp_mono _ (clusterScan_wp (d := s0.device.sectors)
    (I := Listing vol s0 t0 visitor)
    (H := fun lba done s => Listing vol s0 t0 visitor done s ∧
      Holds vol.geometry.bytesPerSector lba s.1.1)
    (S := fun _ => Stopped vol s0 t0 visitor)
    (E := fun _ t => Quiet vol.geometry.partition s0 t.1.1) hs.sound.spc_pos
    (fun i hi => (hs.sound.lt_of_inPartition (hsector hi)).2) ?_ ?_ (fun _ _ _ h => h.1) hdone) ?_
    fun _ _ h => h
  · intro i hi done t ht
    rw [wp_lift_lift]
    refine wp_mono _ (readSector_spec (ht.1.ready hs) (hsector hi)) ?_ fun _ _ h => ht.1.trans h.1
    rintro _ u ⟨hu, hold⟩
    exact ⟨⟨ht.1.trans hu, ht.2⟩, hold⟩
  · intro i hi k done t hk _ ht
    exact readDirectorySlot_spec hs hk ht.1 ht.2
  rw [← extentSlots_succ]
  rintro (_ | left) t ht
  · rcases ht with ⟨full, hpre, hq, hstop⟩ | ⟨-, hend, hq, hgo⟩
    · exact ⟨hq, j + 1, hvisited, Or.inl (sweep_mono hpre hstop)⟩
    · exact ⟨hq, j + 1, hvisited, Or.inr ⟨_, hgo, Or.inl hend⟩⟩
  · obtain ⟨rfl, hinside, hq, hgo⟩ := ht
    rw [leftOver_leftAfter]
    simp only
    have hin : dir.dataLength ≠ 0 →
        (vol.geometry.sectorsPerCluster - 1) * vol.geometry.bytesPerSector <
          leftAfter vol.geometry dir j := fun hd => by
      by_contra hle
      exact hinside ⟨hd, by omega⟩
    by_cases hfat : dir.noFatChain = true
    · rw [if_pos hfat, wp_ite]
      refine ⟨fun hz => ⟨hq, j + 1, hvisited, Or.inr ⟨_, hgo, Or.inr (Or.inl ⟨hfat, hz⟩)⟩⟩,
        fun hz => ?_⟩
      simp only [wp_bind, wp_okOr, wp_pure]
      refine ⟨fun next hnext => ?_, fun _ => hq⟩
      have hnext : next = clusterOf vol.geometry s0.device.sectors dir (j + 1) := by
        unfold checkedAdd32 at hnext
        split_ifs at hnext
        simp only [clusterOf, hfat, if_true] at hnext ⊢
        cases hnext
        omega
      subst hnext
      exact ⟨rfl, hw.succ hc (fun h => by rw [hfat] at h; cases h) (fun _ => hz) hin, hq, hgo⟩
    · rw [if_neg hfat, wp_bind, wp_lift_lift]
      have hfat' : dir.noFatChain = false := by simpa using hfat
      refine wp_mono _ (nextCluster_spec (hq.ready hs) hc) ?_ fun _ _ h => hq.trans h.1
      rintro next u ⟨rfl, hu⟩
      rw [hq.sectors, ← clusterOf_succ hfat', wp_ite]
      refine ⟨fun hend => ⟨hq.trans hu, j + 1, hvisited,
        Or.inr ⟨_, hgo, Or.inr (Or.inr ⟨hfat', hend⟩)⟩⟩, fun hchain => ?_⟩
      rw [wp_ite]
      refine ⟨fun _ => hq.trans hu, fun _ => ⟨rfl, ?_, hq.trans hu, hgo⟩⟩
      exact hw.succ hc (fun _ => by omega) (fun h => absurd h hfat) hin

lemma wp_readDirectory {Q : Unit → Machine × τ → Prop} {E : Error → Machine × τ → Prop}
    (vol : Volume) (dir : Directory) (visitor : DirectoryEntry → τ → Bool × τ) (s : Machine × τ) :
    wp (readDirectory vol dir visitor) Q E s = wp (scanDirectory vol dir visitor)
      (fun r t => Q r (t.1.1, t.2)) (fun e t => E e (t.1.1, t.2)) ((s.1, EntrySet.new), s.2) := by
  unfold readDirectory wp
  beta_reduce
  rcases scanDirectory vol dir visitor ((s.1, EntrySet.new), s.2) with ⟨_ | _ | _, t⟩ <;> rfl

/-- **`read_directory` goes over the slots of the extent in order**, up to the end marker, to the
visitor's wish or to the end of the extent, and reads nothing outside the partition. -/
theorem readDirectory_spec (hs : Ready vol.geometry s0) :
    wp (readDirectory vol dir visitor)
      (fun _ t => Quiet vol.geometry.partition s0 t.1 ∧ Listed vol s0 t0 visitor dir t.2)
      (fun _ t => Quiet vol.geometry.partition s0 t.1) (s0, t0) := by
  have hstart : Listing vol s0 t0 visitor [] ((s0, EntrySet.new), t0) := ⟨Quiet.refl _ _, rfl⟩
  rw [wp_readDirectory]
  unfold scanDirectory
  simp only [requireScratch, wp_bind, wp_lift_lift, wp_get, wp_when, wp_throw]
  refine ⟨fun _ => Quiet.refl _ _, fun _ => ?_⟩
  refine wp_loop_post (fun j v t => v = (clusterOf vol.geometry s0.device.sectors dir j,
      leftAfter vol.geometry dir j) ∧ Walked vol.geometry s0.device.sectors dir j ∧
      Listing vol s0 t0 visitor (extentSlots vol.geometry s0.device.sectors dir j) t) ?_ ?_ ?_
  · exact ⟨by simp [clusterOf_zero, leftAfter], Walked.zero _ _ _, hstart⟩
  · rintro j v t - hj ⟨rfl, hw, ht⟩
    exact readDirectoryCluster_spec hs (by omega) hw ht
  · rintro v t ⟨-, -, ht⟩
    exact ht.1

lemma collect_mono {slots : List Slot} {s : Progress (List DirectoryEntry)}
    {es es' : List DirectoryEntry} (hs : s = .stopped es ∨ ∃ e, s = .going e es)
    (h : sweep collect slots s = .stopped es' ∨ ∃ e, sweep collect slots s = .going e es') :
    es <+: es' := by
  induction slots generalizing s es with
  | nil =>
    simp only [sweep_nil] at h
    rcases hs with rfl | ⟨e, rfl⟩ <;> rcases h with h | ⟨e', h⟩ <;> cases h <;>
      exact List.prefix_rfl
  | cons slot slots ih =>
    change sweep collect slots (s.step collect slot) = _ ∨
      ∃ e, sweep collect slots (s.step collect slot) = _ at h
    rcases hs with rfl | ⟨e, rfl⟩
    · exact ih (Or.inl rfl) h
    · unfold Progress.step at h
      simp only at h
      by_cases hz : byteAt slot.raw 0 = 0
      · rw [if_pos hz] at h
        exact ih (Or.inl rfl) h
      · rw [if_neg hz] at h
        rcases hp : EntrySet.push slot.raw slot.loc e with ⟨(_ | entry) | _ | _, e'⟩ <;>
          rw [hp] at h <;> simp only [collect, if_true] at h
        · exact ih (Or.inr ⟨e', rfl⟩) h
        · exact (List.prefix_append es [entry]).trans (ih (Or.inr ⟨e', rfl⟩) h)
        · rw [sweep_failed] at h
          simp at h
        · rw [sweep_failed] at h
          simp at h

end ExfatEmbedded.Scan
