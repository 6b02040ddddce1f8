import ExfatEmbedded.Mutation
import ExfatEmbedded.Mount

/-!
What a mounted geometry guarantees, and the specifications of the functions which only read.

`Quiet` relates a machine to a later one when nothing but sectors of the partition was read in
between.
-/

namespace ExfatEmbedded.Reading

open ExfatEmbedded.Library Exec ExfatEmbedded.Core ExfatEmbedded.Entry ExfatEmbedded.Allocation
open ExfatEmbedded.Lookup

/-! ### Sound geometries -/

/-- What `parse_boot` and the checks of the partition establish, on a device of `n` sectors. -/
structure Sound (g : Geometry) (n : ℕ) : Prop where
  sector : ∃ k, 9 ≤ k ∧ k ≤ 12 ∧ g.bytesPerSector = 2 ^ k
  cluster : ∃ k, g.sectorsPerCluster = 2 ^ k
  clusterBytes : g.bytesPerSector * g.sectorsPerCluster ≤ 2 ^ 25
  activeFat : g.activeFat < g.numberOfFats
  fats : g.numberOfFats ≤ 2
  fatOffset : 24 ≤ g.fatOffset
  fatRoom : (g.clusterCount + 2) * 4 ≤ g.fatLength * g.bytesPerSector
  fatEnd : g.fatOffset + g.fatLength * g.numberOfFats ≤ g.clusterHeapOffset
  heapEnd : g.clusterHeapOffset + g.clusterCount * g.sectorsPerCluster ≤ g.partition.sectorCount
  partition : g.partition.firstLba + g.partition.sectorCount ≤ n
  device : n < 2 ^ 64
  clusterCount : 0 < g.clusterCount ∧ g.clusterCount < 2 ^ 32
  root : g.InHeap g.rootCluster

/-- The first sector of cluster `c`. -/
def heapLba (g : Geometry) (c : ℕ) : ℕ :=
  g.partition.firstLba + g.clusterHeapOffset + (c - 2) * g.sectorsPerCluster

/-- The first sector of the active FAT. -/
def fatStart (g : Geometry) : ℕ := g.partition.firstLba + g.fatOffset + g.activeFat * g.fatLength

/-- The sector of the active FAT with the entry of cluster `c`. -/
def fatLba (g : Geometry) (c : ℕ) : ℕ := fatStart g + c * 4 / g.bytesPerSector

/-- The FAT entry of cluster `c` on the media `d`. -/
def fatEntry (g : Geometry) (d : Sectors) (c : ℕ) : ℕ :=
  ofLe (Image.slice (d (fatLba g c)) (c * 4 % g.bytesPerSector) 4)

/-- A sector of the partition. -/
def InPartition (p : Partition) (lba : ℕ) : Prop :=
  p.firstLba ≤ lba ∧ lba < p.firstLba + p.sectorCount

namespace Sound

variable {g : Geometry} {n c : ℕ}

lemma size_ge (h : Sound g n) : 512 ≤ g.bytesPerSector := by
  obtain ⟨k, hk, -, hg⟩ := h.sector
  calc 512 = 2 ^ 9 := rfl
    _ ≤ 2 ^ k := Nat.pow_le_pow_right Nat.two_pos hk
    _ = g.bytesPerSector := hg.symm

lemma size_le (h : Sound g n) : g.bytesPerSector ≤ 4096 := by
  obtain ⟨k, -, hk, hg⟩ := h.sector
  calc g.bytesPerSector = 2 ^ k := hg
    _ ≤ 2 ^ 12 := Nat.pow_le_pow_right Nat.two_pos hk

lemma dvd_size (h : Sound g n) {j : ℕ} (hj : j ≤ 9) : 2 ^ j ∣ g.bytesPerSector := by
  obtain ⟨k, hk, -, hg⟩ := h.sector
  rw [hg]
  exact Nat.pow_dvd_pow 2 (by omega)

lemma spc_pos (h : Sound g n) : 0 < g.sectorsPerCluster := by
  obtain ⟨k, hg⟩ := h.cluster
  rw [hg]
  exact Nat.two_pow_pos k

lemma clusterBytes_pos (h : Sound g n) : 0 < g.bytesPerSector * g.sectorsPerCluster :=
  Nat.mul_pos (by have := h.size_ge; omega) h.spc_pos

lemma inHeap_iff (h : Sound g n) :
    g.InHeap c ↔ 2 ≤ c ∧ c < g.clusterCount + 2 ∧ c < 2 ^ 32 - 1 := by
  have := h.clusterCount
  unfold Geometry.InHeap saturatingAdd32
  omega

lemma bytesPerCluster_eq {σ ε : Type} (h : Sound g n) :
    (g.bytesPerCluster : Exec σ ε ℕ) = pure (g.bytesPerSector * g.sectorsPerCluster) := by
  have := h.clusterBytes
  unfold Geometry.bytesPerCluster u32
  rw [assert, if_pos (by omega)]
  rfl

lemma heapLba_add_le (h : Sound g n) (hc : g.InHeap c) :
    heapLba g c + g.sectorsPerCluster ≤ g.partition.firstLba + g.partition.sectorCount := by
  obtain ⟨h2, hlt, -⟩ := h.inHeap_iff.mp hc
  have hend := h.heapEnd
  have : (c - 2 + 1) * g.sectorsPerCluster ≤ g.clusterCount * g.sectorsPerCluster :=
    Nat.mul_le_mul_right _ (by omega)
  rw [Nat.add_mul, Nat.one_mul] at this
  unfold heapLba
  omega

lemma clusterLba_eq {σ ε : Type} (h : Sound g n) (hc : g.InHeap c) :
    (g.clusterLba c : Exec σ ε (Option ℕ)) = pure (some (heapLba g c)) := by
  have hle := h.heapLba_add_le hc
  have := h.partition
  have := h.device
  unfold Geometry.clusterLba u64
  rw [if_pos hc, assert, if_pos (by unfold heapLba at hle; omega)]
  rfl

lemma clusterLba_none {σ ε : Type} (hc : ¬ g.InHeap c) :
    (g.clusterLba c : Exec σ ε (Option ℕ)) = pure none := by
  unfold Geometry.clusterLba
  rw [if_neg hc]

lemma heap_sector (h : Sound g n) (hc : g.InHeap c) {i : ℕ} (hi : i < g.sectorsPerCluster) :
    InPartition g.partition (heapLba g c + i) := by
  have := h.heapLba_add_le hc
  unfold InPartition
  unfold heapLba at *
  omega

lemma lt_of_inPartition (h : Sound g n) {lba : ℕ} (hlba : InPartition g.partition lba) :
    lba < n ∧ lba < 2 ^ 64 := by
  have := h.partition
  have := h.device
  unfold InPartition at hlba
  omega

lemma fat_index (h : Sound g n) (hc : g.InHeap c) : c * 4 / g.bytesPerSector < g.fatLength := by
  have := h.fatRoom
  have hlt := (h.inHeap_iff.mp hc).2.1
  have := h.size_ge
  rw [Nat.div_lt_iff_lt_mul (by omega)]
  omega

lemma fatStart_add_le (h : Sound g n) :
    fatStart g + g.fatLength ≤ g.partition.firstLba + g.clusterHeapOffset := by
  have := h.fatEnd
  have := h.activeFat
  have : (g.activeFat + 1) * g.fatLength ≤ g.fatLength * g.numberOfFats := by
    rw [Nat.mul_comm]
    exact Nat.mul_le_mul_left _ (by omega)
  rw [Nat.add_mul, Nat.one_mul] at this
  unfold fatStart
  omega

lemma fatLba_lt (h : Sound g n) (hc : g.InHeap c) :
    fatLba g c < g.partition.firstLba + g.clusterHeapOffset := by
  have := h.fat_index hc
  have := h.fatStart_add_le
  unfold fatLba
  omega

lemma fat_inPartition (h : Sound g n) (hc : g.InHeap c) :
    InPartition g.partition (fatLba g c) := by
  have := h.fatLba_lt hc
  have := h.heapEnd
  refine ⟨?_, by omega⟩
  unfold fatLba fatStart
  generalize c * 4 / g.bytesPerSector = q
  omega

lemma fatLbaForByte_eq {σ ε : Type} (h : Sound g n) (hc : g.InHeap c) :
    (g.fatLbaForByte (c * 4) : Exec σ ε (Option ℕ)) = pure (some (fatLba g c)) := by
  have hlt := h.lt_of_inPartition (h.fat_inPartition hc)
  have := h.size_ge
  unfold Geometry.fatLbaForByte
  rw [div, assert, if_pos (show g.bytesPerSector ≠ 0 by omega)]
  unfold fatLba fatStart checkedAdd64 checkedMul64 at *
  generalize hq : c * 4 / g.bytesPerSector = q at *
  simp only [show g.partition.firstLba + g.fatOffset < 2 ^ 64 by omega,
    show g.activeFat * g.fatLength < 2 ^ 64 by omega,
    show g.partition.firstLba + g.fatOffset + g.activeFat * g.fatLength < 2 ^ 64 by omega, if_true]
  simp only [pure_bind, hlt.2, if_true]

lemma fat_offset_le (h : Sound g n) (c : ℕ) : c * 4 % g.bytesPerSector + 4 ≤ g.bytesPerSector := by
  obtain ⟨k, hk⟩ := h.dvd_size (j := 2) (by decide)
  have := h.size_ge
  rw [hk, show c * 4 = 2 ^ 2 * c by omega, Nat.mul_mod_mul_left]
  have := Nat.mod_lt c (show 0 < k by omega)
  omega

end Sound

/-! ### Reading -/

/-- From `s` to `t` only sectors of the partition were read. -/
structure Quiet (p : Partition) (s t : Machine) : Prop where
  same : t = { s with
    device := { s.device with reads := t.device.reads }
    scratch := { s.scratch with bytes := t.scratch.bytes } }
  reads : ∃ l, t.device.reads = l ++ s.device.reads ∧ ∀ lba ∈ l, InPartition p lba

/-- A reading which failed: the device did. -/
def Faulted (p : Partition) (s : Machine) (e : Error) (t : Machine) : Prop :=
  Quiet p s t ∧ e = .device .fault ∧ ∃ n, s.device.readFails n = true

/-- A sound geometry for the device, and a scratch buffer which holds a sector. -/
structure Ready (g : Geometry) (s : Machine) : Prop where
  sound : Sound g s.device.sectorCount
  scratch : g.bytesPerSector ≤ s.scratch.len

namespace Quiet

variable {p : Partition} {g : Geometry} {s t u : Machine}

lemma refl (p : Partition) (s : Machine) : Quiet p s s := ⟨rfl, [], rfl, nofun⟩

lemma trans (h : Quiet p s t) (h' : Quiet p t u) : Quiet p s u := by
  obtain ⟨l, hl, hp⟩ := h.reads
  obtain ⟨l', hl', hp'⟩ := h'.reads
  refine ⟨?_, l' ++ l, by rw [hl', hl, List.append_assoc], fun lba hlba => ?_⟩
  · have := h'.same
    rw [h.same] at this
    exact this
  · rcases List.mem_append.mp hlba with hmem | hmem
    · exact hp' lba hmem
    · exact hp lba hmem

lemma sectors (h : Quiet p s t) : t.device.sectors = s.device.sectors := by rw [h.same]
lemma sectorCount (h : Quiet p s t) : t.device.sectorCount = s.device.sectorCount := by rw [h.same]
lemma readFails (h : Quiet p s t) : t.device.readFails = s.device.readFails := by rw [h.same]
lemma writeFails (h : Quiet p s t) : t.device.writeFails = s.device.writeFails := by rw [h.same]
lemma writes (h : Quiet p s t) : t.device.writes = s.device.writes := by rw [h.same]
lemma scratchLen (h : Quiet p s t) : t.scratch.len = s.scratch.len := by rw [h.same]
lemma freeClusters (h : Quiet p s t) : t.freeClusters = s.freeClusters := by rw [h.same]
lemma fatWrites (h : Quiet p s t) : t.fatWrites = s.fatWrites := by rw [h.same]

lemma ready (h : Quiet p s t) (hs : Ready g s) : Ready g t :=
  ⟨h.sectorCount ▸ hs.sound, h.scratchLen ▸ hs.scratch⟩

lemma faulted {e : Error} (h : Quiet p s t) (h' : Faulted p t e u) : Faulted p s e u :=
  ⟨h.trans h'.1, h'.2.1, h.readFails ▸ h'.2.2⟩

end Quiet

/-- The scratch buffer holds sector `lba` of the device. -/
def Holds (size lba : ℕ) (t : Machine) : Prop :=
  ∀ i < size, t.scratch.bytes i = t.device.sectors lba i

lemma Holds.slice {size lba off n : ℕ} {t : Machine} (h : Holds size lba t) (hn : off + n ≤ size) :
    Image.slice t.scratch.bytes off n = Image.slice (t.device.sectors lba) off n :=
  Image.slice_congr fun i _ hi => h i (by omega)

section

variable {g : Geometry} {s : Machine} {lba : ℕ}

lemma readSector_quiet {p : Partition} {size : ℕ} (hsize : size ≤ s.scratch.len)
    (hlba : InPartition p lba) (hlt : lba < s.device.sectorCount) :
    wp (readSector size lba) (fun _ t => Quiet p s t ∧ Holds size lba t) (Faulted p s) s := by
  have hreads : ∃ l, lba :: s.device.reads = l ++ s.device.reads ∧ ∀ x ∈ l, InPartition p x :=
    ⟨[lba], rfl, by simpa using hlba⟩
  unfold wp readSector
  simp only [Nat.not_lt.mpr hsize, if_false, Nat.not_le.mpr hlt]
  by_cases hfail : s.device.readFails s.device.reads.length = true
  · rw [if_pos hfail]
    exact ⟨⟨rfl, hreads⟩, rfl, _, hfail⟩
  · rw [if_neg hfail]
    refine ⟨⟨rfl, hreads⟩, fun i hi => ?_⟩
    change Image.splice _ _ _ i = _
    rw [Image.splice, if_pos hi]

lemma readSector_spec (hs : Ready g s) (hlba : InPartition g.partition lba) :
    wp (readSector g.bytesPerSector lba)
      (fun _ t => Quiet g.partition s t ∧ Holds g.bytesPerSector lba t)
      (Faulted g.partition s) s :=
  readSector_quiet hs.scratch hlba (hs.sound.lt_of_inPartition hlba).1

lemma wp_scratchSlice' {size off n : ℕ} {Q : List UInt8 → Machine → Prop}
    {E : Error → Machine → Prop} (hsize : size ≤ s.scratch.len) (hn : off + n ≤ size) :
    wp (scratchSlice size off n) Q E s ↔ Q (Image.slice s.scratch.bytes off n) s := by
  simp [scratchSlice, hn, hsize]

lemma wp_scratchSlice {off n : ℕ} {Q : List UInt8 → Machine → Prop} {E : Error → Machine → Prop}
    (hs : Ready g s) (hn : off + n ≤ g.bytesPerSector) :
    wp (scratchSlice g.bytesPerSector off n) Q E s ↔ Q (Image.slice s.scratch.bytes off n) s :=
  wp_scratchSlice' hs.scratch hn

end

section

variable {vol : Volume} {s : Machine}

lemma nextCluster_spec {c : ℕ} (hs : Ready vol.geometry s) (hc : vol.geometry.InHeap c) :
    wp (nextCluster vol c)
      (fun v t => v = fatEntry vol.geometry s.device.sectors c ∧ Quiet vol.geometry.partition s t)
      (Faulted vol.geometry.partition s) s := by
  have hlt := (hs.sound.inHeap_iff.mp hc).2.2
  have hsize := hs.sound.size_ge
  have hoff := hs.sound.fat_offset_le c
  unfold nextCluster
  simp only [wp_bind, wp_u64, hs.sound.fatLbaForByte_eq hc, wp_pure, wp_okOr, wp_rem]
  refine ⟨by omega, fun lba hlba => ?_, nofun⟩
  cases hlba
  refine ⟨by omega, wp_mono _ (readSector_spec hs (hs.sound.fat_inPartition hc)) ?_ fun _ _ h => h⟩
  rintro _ t ⟨ht, hold⟩
  rw [wp_scratchSlice (ht.ready hs) hoff, hold.slice hoff, ht.sectors]
  exact ⟨rfl, ht⟩

/-- The cluster `i` links behind `c`. -/
def link (g : Geometry) (d : Sectors) (c i : ℕ) : ℕ := (fatEntry g d)^[i] c

@[simp] lemma link_zero (g : Geometry) (d : Sectors) (c : ℕ) : link g d c 0 = c := rfl

lemma link_succ (g : Geometry) (d : Sectors) (c i : ℕ) :
    link g d c (i + 1) = fatEntry g d (link g d c i) := Function.iterate_succ_apply' _ _ _

lemma link_add (g : Geometry) (d : Sectors) (c i j : ℕ) :
    link g d c (i + j) = link g d (link g d c i) j := by
  unfold link
  rw [Nat.add_comm, Function.iterate_add_apply]

/-- The clusters of the first `n` links behind `c` are in the heap. -/
def Linked (g : Geometry) (d : Sectors) (c n : ℕ) : Prop := ∀ i ≤ n, g.InHeap (link g d c i)

/-- How a walk over FAT links ends: at a cluster of the heap, with `Corrupt` where a link leaves
the heap, or by a fault. -/
lemma clusterAt_spec {first index : ℕ} (hs : Ready vol.geometry s)
    (hfirst : vol.geometry.InHeap first) :
    wp (clusterAt vol first index)
      (fun v t => Quiet vol.geometry.partition s t ∧ index < vol.geometry.clusterCount ∧
        v = link vol.geometry s.device.sectors first index ∧
        Linked vol.geometry s.device.sectors first index)
      (fun e t => Faulted vol.geometry.partition s e t ∨
        Quiet vol.geometry.partition s t ∧ e = .corrupt ∧
          ¬ (index < vol.geometry.clusterCount ∧
            Linked vol.geometry s.device.sectors first index)) s := by
  unfold clusterAt
  rw [wp_ite]
  refine ⟨fun h => Or.inr ⟨Quiet.refl _ _, rfl, by omega⟩, fun hlt => ?_⟩
  rw [wp_bind]
  refine wp_loop_post (fun i c t => Quiet vol.geometry.partition s t ∧
    c = link vol.geometry s.device.sectors first i ∧
    Linked vol.geometry s.device.sectors first i) ?_ ?_ ?_
  · refine ⟨Quiet.refl _ _, rfl, fun i hi => ?_⟩
    obtain rfl : i = 0 := by omega
    exact hfirst
  · rintro i c t - hi ⟨ht, rfl, hlinked⟩
    rw [wp_bind]
    refine wp_mono _ (nextCluster_spec (ht.ready hs) (hlinked i le_rfl)) ?_
      fun _ _ h => Or.inl (ht.faulted h)
    rintro v u ⟨rfl, hu⟩
    rw [ht.sectors, ← link_succ, wp_ite]
    refine ⟨fun hin => ⟨ht.trans hu, rfl, fun j hj => ?_⟩, fun hout => Or.inr ⟨ht.trans hu,
      rfl, ?_⟩⟩
    · rcases Nat.lt_or_ge i j with hij | hij
      · obtain rfl : j = i + 1 := by omega
        exact hin
      · exact hlinked j hij
    · exact fun h => hout (h.2 (i + 1) (by omega))
  · rintro c t ⟨ht, rfl, hlinked⟩
    rw [Nat.zero_add] at hlinked ⊢
    exact ⟨ht, by omega, rfl, hlinked⟩

end

/-! ### Programs on a workspace -/

section

variable {α : Type} {Q : α → Machine × Workspace → Prop} {E : Error → Machine × Workspace → Prop}

lemma wp_onEntrySet (m : Exec EntrySet Error α) (t : Machine × Workspace) :
    wp (onEntrySet m) Q E t = wp m (fun a e => Q a (t.1, { t.2 with entrySet := e }))
      (fun x e => E x (t.1, { t.2 with entrySet := e })) t.2.entrySet := by
  unfold wp onEntrySet
  beta_reduce
  rcases m t.2.entrySet with ⟨_ | _ | _, e⟩ <;> rfl

lemma wp_onUtf16 (m : Exec (List ℕ) Error α) (t : Machine × Workspace) :
    wp (onUtf16 m) Q E t = wp m (fun a u => Q a (t.1, { t.2 with utf16 := u }))
      (fun x u => E x (t.1, { t.2 with utf16 := u })) t.2.utf16 := by
  unfold wp onUtf16
  beta_reduce
  rcases m t.2.utf16 with ⟨_ | _ | _, e⟩ <;> rfl

end

end ExfatEmbedded.Reading
