import ExfatEmbedded.Media

/-!
The geometry of an accepted boot sector is an address map: clusters, FAT entries and the boot
region have sectors and bytes of their own.
-/

namespace ExfatEmbedded.AddressMap

open ExfatEmbedded.Library Exec ExfatEmbedded.Core ExfatEmbedded.Entry ExfatEmbedded.Mount
open ExfatEmbedded.Reading ExfatEmbedded.MountSafety ExfatEmbedded.FatWrites ExfatEmbedded.Media

/-- The sectors from `base` on, `n` of them. -/
def SectorsAt (base n lba : ℕ) : Prop := base ≤ lba ∧ lba < base + n

/-- The cluster `c` begins with sector `l`. -/
def Maps (g : Geometry) (s : Machine) (c l : ℕ) : Prop :=
  (g.clusterLba c : FsM (Option ℕ)) s = (.ok (some l), s)

/-- The bytes of the FAT entry of `c` are those from `off` on in sector `f`. -/
def EntryAt (g : Geometry) (s : Machine) (c f off : ℕ) : Prop :=
  (g.fatLbaForByte (c * 4) : FsM (Option ℕ)) s = (.ok (some f), s) ∧
    off = c * 4 % g.bytesPerSector

/-- What a geometry promises about addresses. -/
structure SoundMap (g : Geometry) (s : Machine) : Prop where
  bytesPerCluster : ∃ n, (g.bytesPerCluster : FsM ℕ) s = (.ok n, s) ∧
    n = g.bytesPerSector * g.sectorsPerCluster
  total : ∀ c, ∃ o, (g.clusterLba c : FsM (Option ℕ)) s = (.ok o, s)
  mapped : ∀ c l, Maps g s c l ↔ 2 ≤ c ∧ c < min (g.clusterCount + 2) (2 ^ 32 - 1) ∧
    l = g.partition.firstLba + g.clusterHeapOffset + (c - 2) * g.sectorsPerCluster
  inside : ∀ c l, Maps g s c l → ∀ lba, SectorsAt l g.sectorsPerCluster lba →
    SectorsAt (g.partition.firstLba + g.clusterHeapOffset)
      (g.partition.sectorCount - g.clusterHeapOffset) lba ∧
    ¬ SectorsAt g.partition.firstLba 24 lba ∧
    ∀ i < g.numberOfFats,
      ¬ SectorsAt (g.partition.firstLba + g.fatOffset + i * g.fatLength) g.fatLength lba
  disjoint : ∀ c c' l l', Maps g s c l → Maps g s c' l' → c ≠ c' → ∀ lba,
    SectorsAt l g.sectorsPerCluster lba → ¬ SectorsAt l' g.sectorsPerCluster lba
  entry : ∀ c l, Maps g s c l → ∃ f off, EntryAt g s c f off ∧
    c * 4 + 4 ≤ 2 ^ 64 ∧ off + 4 ≤ g.bytesPerSector ∧
    SectorsAt (g.partition.firstLba + g.fatOffset + g.activeFat * g.fatLength) g.fatLength f ∧
    g.activeFat < g.numberOfFats
  apart : ∀ c c' l l' f f' off off', Maps g s c l → Maps g s c' l' → c ≠ c' →
    EntryAt g s c f off → EntryAt g s c' f' off' →
      f ≠ f' ∨ off + 4 ≤ off' ∨ off' + 4 ≤ off

section Sound

variable {g : Geometry} {n : ℕ} {s : Machine} {c l : ℕ}

lemma maps_iff (hs : Sound g n) : Maps g s c l ↔ g.InHeap c ∧ l = heapLba g c := by
  unfold Maps
  by_cases hc : g.InHeap c
  · rw [hs.clusterLba_eq hc]
    constructor
    · intro h
      have hl := congrArg Prod.fst h
      exact ⟨hc, (Option.some.inj (Outcome.ok.inj hl)).symm⟩
    · rintro ⟨-, rfl⟩
      rfl
  · rw [Sound.clusterLba_none hc]
    constructor
    · intro h
      cases congrArg Prod.fst h
    · rintro ⟨hin, -⟩
      exact absurd hin hc

lemma entryAt_iff (hs : Sound g n) (hc : g.InHeap c) {f off : ℕ} :
    EntryAt g s c f off ↔ f = fatLba g c ∧ off = c * 4 % g.bytesPerSector := by
  unfold EntryAt
  rw [hs.fatLbaForByte_eq hc]
  constructor
  · rintro ⟨h, hoff⟩
    have hf := congrArg Prod.fst h
    exact ⟨(Option.some.inj (Outcome.ok.inj hf)).symm, hoff⟩
  · rintro ⟨rfl, hoff⟩
    exact ⟨rfl, hoff⟩

/-- **A sound geometry is an address map.** -/
theorem addressMap_of_sound (hs : Sound g n) (s : Machine) : SoundMap g s where
  bytesPerCluster := by
    rw [hs.bytesPerCluster_eq]
    exact ⟨_, rfl, rfl⟩
  total c := by
    by_cases hc : g.InHeap c
    · rw [hs.clusterLba_eq hc]
      exact ⟨_, rfl⟩
    · rw [Sound.clusterLba_none hc]
      exact ⟨_, rfl⟩
  mapped c l := by
    rw [maps_iff hs, hs.inHeap_iff, lt_min_iff, and_assoc, and_assoc, and_assoc]
    rfl
  inside c l hl lba hlba := by
    obtain ⟨hc, rfl⟩ := (maps_iff hs).mp hl
    have hend := hs.heapLba_add_le hc
    have hfats := hs.fatEnd
    have hoffset := hs.fatOffset
    unfold SectorsAt at *
    unfold heapLba at hlba hend
    refine ⟨⟨by omega, by omega⟩, by omega, fun i hi => ?_⟩
    have hmul : (i + 1) * g.fatLength ≤ g.fatLength * g.numberOfFats := by
      rw [Nat.mul_comm]
      exact Nat.mul_le_mul_left _ hi
    rw [Nat.add_mul, Nat.one_mul] at hmul
    omega
  disjoint c c' l l' hl hl' hne lba hlba hlba' := by
    obtain ⟨hc, rfl⟩ := (maps_iff hs).mp hl
    obtain ⟨hc', rfl⟩ := (maps_iff hs).mp hl'
    exact hne (InCluster.unique (hs.inHeap_iff.mp hc).1 (hs.inHeap_iff.mp hc').1 hlba hlba')
  entry c l hl := by
    obtain ⟨hc, rfl⟩ := (maps_iff hs).mp hl
    have hindex := hs.fat_index hc
    have hlt := (hs.inHeap_iff.mp hc).2.2
    refine ⟨_, _, (entryAt_iff hs hc).mpr ⟨rfl, rfl⟩, by omega, hs.fat_offset_le c, ?_,
      hs.activeFat⟩
    change SectorsAt (fatStart g) _ (fatStart g + c * 4 / g.bytesPerSector)
    exact ⟨Nat.le_add_right _ _, Nat.add_lt_add_left hindex _⟩
  apart c c' l l' f f' off off' hl hl' hne hf hf' := by
    obtain ⟨hc, rfl⟩ := (maps_iff hs).mp hl
    obtain ⟨hc', rfl⟩ := (maps_iff hs).mp hl'
    obtain ⟨rfl, rfl⟩ := (entryAt_iff hs hc).mp hf
    obtain ⟨rfl, rfl⟩ := (entryAt_iff hs hc').mp hf'
    by_cases hsame : fatLba g c = fatLba g c'
    · exact Or.inr (entry_disjoint hne hsame)
    · exact Or.inl hsame

end Sound

/-- **The geometry of an accepted boot sector is a sound address map.** -/
theorem parseBoot_addressMap (p : Partition) (boot : List UInt8) (size n : ℕ) (g : Geometry)
    (s : Machine) (hlen : boot.length = size) (hp : Within p n) (hn : n < 2 ^ 64)
    (hboot : (parseBoot p boot size s).1 = .ok g) : g.partition = p ∧ SoundMap g s := by
  have hsound := (wp_ok (run_eq hboot)).mp (parseBoot_sound hlen hp hn)
  exact ⟨hsound.2.1, addressMap_of_sound hsound.2.2.2 s⟩

theorem parseBoot_addressMap_small :
    (smallVolume.geometry.partition = ⟨1, 99⟩ ∧ SoundMap smallVolume.geometry
      (smallMachine smallFat smallFat smallFat)) :=
  parseBoot_addressMap ⟨1, 99⟩ (Image.slice smallBoot 0 512) 512 100 smallVolume.geometry
    (smallMachine smallFat smallFat smallFat) (by simp) (by unfold Within; decide) (by decide)
    (by decide +kernel)

end ExfatEmbedded.AddressMap
