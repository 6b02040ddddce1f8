import ExfatEmbedded.Reading

/-!
`mount` on any device: it returns, it reads nothing outside the device and, once the partition is
selected, nothing outside the partition, and the geometry it returns is sound.
-/

namespace ExfatEmbedded.MountSafety

open ExfatEmbedded.Library Exec ExfatEmbedded.Core ExfatEmbedded.Entry ExfatEmbedded.Allocation
open ExfatEmbedded.Mount ExfatEmbedded.Reading

/-- The sectors of a device of `n` sectors. -/
def whole (n : ℕ) : Partition := ⟨0, n⟩

/-- A partition within a device of `n` sectors. -/
def Within (p : Partition) (n : ℕ) : Prop := p.firstLba + p.sectorCount ≤ n

lemma numAt_lt (raw : List UInt8) (i n : ℕ) : numAt raw i n < 256 ^ n :=
  (ofLe_lt _).trans_le (Nat.pow_le_pow_right (by decide) (by simp))

lemma checkedAdd64_eq {a b n : ℕ} (h : checkedAdd64 a b = some n) : a + b = n := by
  unfold checkedAdd64 at h
  split_ifs at h
  exact Option.some.inj h

lemma checkedMul64_eq {a b n : ℕ} (h : checkedMul64 a b = some n) : a * b = n := by
  unfold checkedMul64 at h
  split_ifs at h
  exact Option.some.inj h

variable {s : Machine} {size : ℕ}

lemma readSector_whole {lba : ℕ} (hsize : size ≤ s.scratch.len)
    (hlba : lba < s.device.sectorCount) :
    wp (readSector size lba) (fun _ t => Quiet (whole s.device.sectorCount) s t)
      (fun _ t => Quiet (whole s.device.sectorCount) s t) s := by
  refine wp_mono _ (readSector_quiet hsize ⟨Nat.zero_le _, ?_⟩ hlba) (fun _ _ h => h.1)
    fun _ _ h => h.1
  change lba < 0 + s.device.sectorCount
  omega

/-! ### Partition tables -/

lemma mbrPartition_safe (sector : List UInt8) :
    wp (mbrPartition sector) (fun _ t => t = s) (fun _ t => t = s) s := by
  unfold mbrPartition
  simp

lemma wp_headerField {header : List UInt8} {i n : ℕ} {Q : ℕ → Machine → Prop}
    {E : Error → Machine → Prop} (h : i + n ≤ header.length) :
    wp (headerField header i n) Q E s = Q (numAt header i n) s := by
  unfold headerField
  simp [h]

lemma gptHeader_safe {header : List UInt8} (hsize : 512 ≤ size) (hlen : header.length = size) :
    wp (gptHeader size header)
      (fun h t => t = s ∧ h.entryCount ≤ 16384 ∧ 128 ≤ h.entrySize ∧ h.entrySize ≤ size)
      (fun _ t => t = s) s := by
  have hover : (overlay header 16 [0, 0, 0, 0]).length = size := by
    rw [overlay_length (by simp; omega), hlen]
  unfold gptHeader
  simp only [wp_bind, wp_assert]
  refine ⟨by omega, ?_⟩
  rw [wp_ite]
  refine ⟨fun _ => rfl, fun _ => ?_⟩
  rw [wp_bind, wp_headerField (by omega), wp_ite]
  refine ⟨fun _ => rfl, fun hheader => ?_⟩
  rw [wp_bind, wp_headerField (by omega)]
  simp only [wp_bind, wp_assert, hover]
  refine ⟨by omega, ?_⟩
  rw [wp_ite]
  refine ⟨fun _ => rfl, fun _ => ?_⟩
  rw [wp_bind, wp_headerField (by omega), wp_bind, wp_headerField (by omega), wp_bind,
    wp_headerField (by omega), wp_bind, wp_headerField (by omega), wp_ite]
  refine ⟨fun _ => rfl, fun h => ⟨rfl, ?_, ?_, ?_⟩⟩ <;> simp only <;> omega

lemma gptEntry_safe {tableBytes entrySize base offset : ℕ} {data : List UInt8}
    {candidate : Option Partition} (hsize : size ≤ 4096) (hlen : data.length = size)
    (hentry : 128 ≤ entrySize ∧ entrySize ≤ size) (hbase : base < 2 ^ 63)
      (hoffset : offset ≤ size) :
    wp (gptEntry size tableBytes entrySize base data (offset, candidate))
      (Sum.elim (fun _ t => t = s) fun v t => t = s ∧ offset < v.1 ∧ v.1 ≤ size)
      (fun _ t => t = s) s := by
  have hbound := s.device.bound
  unfold gptEntry
  simp only [wp_bind, wp_usize, wp_ite, wp_u64, wp_assert, wp_get, wp_throw, wp_pure, wp_sub]
  refine ⟨by omega, fun _ => rfl, fun hstop => ⟨by omega, fun _ => rfl, fun _ => ?_⟩⟩
  refine ⟨by omega, fun _ => ⟨fun _ => trivial, fun hextent => ?_⟩,
    fun _ => ⟨rfl, by omega, by omega⟩⟩
  exact ⟨by omega, by omega, rfl, by omega, by omega⟩

lemma gptSector_safe {tableBytes tableSectors i : ℕ} {h : GptHeader} {v : ℕ × Option Partition}
    (hlo : 512 ≤ size) (hsize : size ≤ 4096) (hscratch : size ≤ s.scratch.len)
    (hentry : 128 ≤ h.entrySize ∧ h.entrySize ≤ size)
    (hsectors : tableSectors = (tableBytes + (size - 1)) / size)
    (htable : tableBytes + (size - 1) < 2 ^ 63)
    (hfits : h.entriesLba + tableSectors ≤ s.device.sectorCount) (hi : i < tableSectors) :
    wp (gptSector size tableBytes h i v)
      (Sum.elim (fun r => r.elim) fun _ t => Quiet (whole s.device.sectorCount) s t)
      (fun _ t => Quiet (whole s.device.sectorCount) s t) s := by
  have hbound := s.device.bound
  have hbase : i * size < tableBytes := by
    have : (i + 1) * size ≤ tableBytes + (size - 1) := by
      rw [hsectors] at hi
      exact (Nat.le_div_iff_mul_le (by omega)).mp hi
    rw [Nat.add_mul] at this
    omega
  obtain ⟨crc, candidate⟩ := v
  unfold gptSector
  simp only [wp_bind, wp_u64]
  refine ⟨by omega, wp_mono _ (readSector_whole hscratch (by omega)) ?_ fun _ _ h => h⟩
  intro _ t ht
  rw [wp_scratchSlice' (by rw [ht.scratchLen]; exact hscratch) (by omega)]
  simp only [wp_sub]
  refine ⟨by omega, by omega, ?_⟩
  refine wp_loop_post (fun j v u => u = t ∧ j ≤ v.1 ∧ v.1 ≤ size) ⟨rfl, le_rfl, by omega⟩ ?_ ?_
  · rintro j ⟨offset, candidate⟩ u - hj ⟨rfl, hle, hoff⟩
    dsimp only at hle hoff
    refine wp_mono _ (gptEntry_safe hsize (by simp) hentry (by omega) hoff) ?_ fun _ _ h => h ▸ ht
    rintro (r | v) w hw
    · cases hw
      exact ht
    · obtain ⟨rfl, hgt, hle'⟩ := hw
      exact ⟨rfl, by omega, hle'⟩
  · rintro ⟨offset, candidate⟩ u ⟨rfl, hle, hoff⟩
    dsimp only at hle hoff
    omega

lemma gptPartition_safe (hlo : 512 ≤ size) (hsize : size ≤ 4096) (hscratch : size ≤ s.scratch.len) :
    wp (gptPartition size) (fun _ t => Quiet (whole s.device.sectorCount) s t)
      (fun _ t => Quiet (whole s.device.sectorCount) s t) s := by
  unfold gptPartition
  simp only [wp_bind, wp_get, wp_ite, wp_throw]
  refine ⟨fun _ => Quiet.refl _ _, fun hcount => ?_⟩
  refine wp_mono _ (readSector_whole hscratch (by omega)) ?_ fun _ _ h => h
  intro _ t ht
  have hcount' := ht.sectorCount
  rw [wp_scratchSlice' (by rw [ht.scratchLen]; exact hscratch) (by omega)]
  refine wp_mono _ (gptHeader_safe hlo (by simp)) ?_ fun _ _ h => h ▸ ht
  rintro h u ⟨rfl, hentries, hentry⟩
  rw [wp_okOr]
  refine ⟨fun tableBytes htable => ?_, fun _ => ht⟩
  simp only [wp_sub, wp_okOr, wp_div]
  refine ⟨by omega, fun rounded hrounded => ⟨by omega, ?_⟩, fun _ => ht⟩
  rw [hcount']
  refine ⟨fun _ => ht, fun hfits => ?_⟩
  have hbytes : h.entryCount * h.entrySize = tableBytes := checkedMul64_eq htable
  have hround : tableBytes + (size - 1) = rounded := checkedAdd64_eq hrounded
  have hle : tableBytes ≤ 16384 * 4096 := by
    rw [← hbytes]
    exact Nat.mul_le_mul hentries (by omega)
  have hend : h.entriesLba + rounded / size ≤ s.device.sectorCount := by
    unfold checkedAdd64 at hfits
    split_ifs at hfits with hlt
    · simp only [Option.any_some, Bool.not_eq_true', decide_eq_false_iff_not] at hfits
      omega
    · simp at hfits
  refine wp_loop_post (fun _ _ t => Quiet (whole s.device.sectorCount) s t) ht ?_ ?_
  · intro i v t _ hi ht'
    have hq := gptSector_safe (i := i) (v := v) (s := t) hlo hsize
      (by rw [ht'.scratchLen]; exact hscratch) hentry (by rw [hround]) (by omega)
      (by rw [ht'.sectorCount]; exact hend) (by omega)
    rw [ht'.sectorCount] at hq
    refine wp_mono _ hq ?_ fun _ _ h => ht'.trans h
    rintro (r | v') w hw
    · exact r.elim
    · exact ht'.trans hw
  · rintro ⟨entriesCrc, candidate⟩ t ht'
    simp only [wp_ite, wp_throw, wp_okOr]
    exact ⟨fun _ => ht', fun _ => ⟨fun _ _ => ht', fun _ => ht'⟩⟩

/-- **The partition selected lies within the device.** -/
theorem selectPartition_safe (hlo : 512 ≤ size) (hsize : size ≤ 4096)
    (hcount : 0 < s.device.sectorCount) :
    wp (selectPartition size)
      (fun p t => Quiet (whole s.device.sectorCount) s t ∧ size ≤ s.scratch.len ∧
        Within p s.device.sectorCount)
      (fun _ t => Quiet (whole s.device.sectorCount) s t) s := by
  have hcheck (p : Partition) (u : Machine) (hu : Quiet (whole s.device.sectorCount) s u)
      (hlen : size ≤ s.scratch.len) :
      (u.device.sectorCount ≤ p.firstLba → Quiet (whole s.device.sectorCount) s u) ∧
        (¬ u.device.sectorCount ≤ p.firstLba → p.firstLba ≤ u.device.sectorCount ∧
          (u.device.sectorCount - p.firstLba < p.sectorCount →
            Quiet (whole s.device.sectorCount) s u) ∧
          (¬ u.device.sectorCount - p.firstLba < p.sectorCount →
            Quiet (whole s.device.sectorCount) s u ∧ size ≤ s.scratch.len ∧
              Within p s.device.sectorCount)) := by
    refine ⟨fun _ => hu, fun _ => ⟨by omega, fun _ => hu, fun _ => ⟨hu, hlen, ?_⟩⟩⟩
    have := hu.sectorCount
    unfold Within
    omega
  unfold selectPartition
  simp only [wp_bind, wp_get, wp_ite, wp_throw, wp_sub, wp_pure]
  refine ⟨fun _ => Quiet.refl _ _, fun hlen => ?_⟩
  have hscratch : size ≤ s.scratch.len := by omega
  refine wp_mono _ (readSector_whole hscratch hcount) ?_ fun _ _ h => h
  intro _ t ht
  rw [wp_scratchSlice' (by rw [ht.scratchLen]; exact hscratch) (by omega)]
  refine ⟨fun _ => ?_, fun _ => ?_⟩
  · have hq := gptPartition_safe (s := t) hlo hsize (by rw [ht.scratchLen]; exact hscratch)
    rw [ht.sectorCount] at hq
    exact wp_mono _ hq (fun p u hu => hcheck p u (ht.trans hu) hscratch) fun _ _ h => ht.trans h
  · exact wp_mono _ (mbrPartition_safe _) (fun p u hu => hcheck p u (hu ▸ ht) hscratch)
      fun _ _ h => h ▸ ht

/-! ### The boot region -/

variable {p : Partition}

lemma readSector_within {lba : ℕ} (hsize : size ≤ s.scratch.len)
    (hp : Within p s.device.sectorCount) (hlba : InPartition p lba) :
    wp (readSector size lba) (fun _ t => Quiet p s t) (fun _ t => Quiet p s t) s := by
  refine wp_mono _ (readSector_quiet hsize hlba ?_) (fun _ _ h => h.1) fun _ _ h => h.1
  unfold Within at hp
  have := hlba.2
  omega

lemma validateBootChecksum_safe {bootOffset : ℕ} (hoffset : bootOffset ≤ 12)
    (hsize : size ≤ s.scratch.len) (hp : Within p s.device.sectorCount) :
    wp (validateBootChecksum p bootOffset size)
      (fun _ t => Quiet p s t ∧ bootOffset + 12 ≤ p.sectorCount) (fun _ t => Quiet p s t) s := by
  have hbound := s.device.bound
  unfold Within at hp
  unfold validateBootChecksum
  simp only [wp_bind, wp_u64, wp_ite, wp_throw]
  refine ⟨by omega, fun _ => Quiet.refl _ _, fun hcount => ?_⟩
  refine wp_loop_post (fun _ _ t => Quiet p s t) (Quiet.refl _ _) ?_ ?_
  · intro i checksum t _ hi ht
    have hin : InPartition p (p.firstLba + bootOffset + i) := ⟨by omega, by omega⟩
    simp only [wp_bind, wp_u64]
    refine ⟨by omega, wp_mono _ (readSector_within (by rw [ht.scratchLen]; exact hsize)
      (by rw [Within, ht.sectorCount]; exact hp) hin) ?_ fun _ _ h => ht.trans h⟩
    intro _ u hu
    rw [wp_scratchSlice' (by rw [hu.scratchLen, ht.scratchLen]; exact hsize) (by omega)]
    exact ht.trans hu
  · intro checksum t ht
    have hin : InPartition p (p.firstLba + bootOffset + 11) := ⟨by omega, by omega⟩
    simp only [wp_bind, wp_u64]
    refine ⟨by omega, wp_mono _ (readSector_within (by rw [ht.scratchLen]; exact hsize)
      (by rw [Within, ht.sectorCount]; exact hp) hin) ?_ fun _ _ h => ht.trans h⟩
    intro _ u hu
    rw [wp_scratchSlice' (by rw [hu.scratchLen, ht.scratchLen]; exact hsize) (by omega)]
    rw [wp_ite]
    exact ⟨fun _ => ht.trans hu, fun _ => ⟨ht.trans hu, by omega⟩⟩

lemma selectBootRegion_safe (hsize : size ≤ s.scratch.len) (hp : Within p s.device.sectorCount) :
    wp (selectBootRegion p size)
      (fun bootOffset t => Quiet p s t ∧ bootOffset + 12 ≤ p.sectorCount)
      (fun _ t => Quiet p s t) s := by
  unfold selectBootRegion
  rw [wp_bind, wp_attempt]
  refine wp_mono _ (validateBootChecksum_safe (by decide) hsize hp) (fun _ _ h => h) ?_
  intro e t ht
  by_cases he : e = .invalidBootSector
  · subst he
    simp only [wp_bind]
    exact wp_mono _ (validateBootChecksum_safe (by decide) (by rw [ht.scratchLen]; exact hsize)
      (by rw [ht.sectorCount]; exact hp)) (fun _ _ h => ⟨ht.trans h.1, h.2⟩) fun _ _ h => ht.trans h
  · cases e <;> first | exact ht | exact absurd rfl he

/-- **`parse_boot` accepts sound geometries only.** -/
theorem parseBoot_sound {boot : List UInt8} {n : ℕ} (hlen : boot.length = size)
    (hp : Within p n) (hn : n < 2 ^ 64) :
    wp (parseBoot p boot size) (fun g t => t = s ∧ g.partition = p ∧ g.bytesPerSector = size ∧
      Sound g n) (fun _ t => t = s) s := by
  have hcount : numAt boot 92 4 < 2 ^ 32 := numAt_lt boot 92 4
  unfold parseBoot
  simp only [wp_ite, wp_throw]
  refine ⟨fun _ => trivial, fun _ => ⟨fun _ => trivial, fun _ => ⟨fun _ => trivial,
    fun hshift => ?_⟩⟩⟩
  refine ⟨fun _ => trivial, fun hsize => ⟨fun _ => trivial, fun hcluster => ?_⟩⟩
  simp only [wp_bind, wp_u32]
  have hspc : 2 ^ byteAt boot 109 ≤ 2 ^ 25 := Nat.pow_le_pow_right Nat.two_pos (by omega)
  refine ⟨by omega, ?_⟩
  simp only [wp_ite, wp_throw, wp_okOr, wp_bind, wp_divCeil, wp_u64, wp_pure]
  refine ⟨fun _ => trivial, fun hfats => ⟨fun _ => trivial, fun hfields => ?_⟩⟩
  refine ⟨fun fats hmul => ⟨fun fatEnd hadd => ⟨fun entries hentries => ⟨fun bytes hbytes => ?_,
    fun _ => trivial⟩, fun _ => trivial⟩, fun _ => trivial⟩, fun _ => trivial⟩
  have hmul' := checkedMul64_eq hmul
  have hadd' := checkedAdd64_eq hadd
  have hentries' := checkedAdd64_eq hentries
  have hbytes' := checkedMul64_eq hbytes
  have hsector : 2 ^ byteAt boot 108 ≠ 0 := (Nat.two_pow_pos _).ne'
  refine ⟨hsector, fun _ => trivial, fun hfat => ?_⟩
  have hheap : numAt boot 92 4 * 2 ^ byteAt boot 109 ≤ 2 ^ 32 * 2 ^ 25 :=
    Nat.mul_le_mul hcount.le hspc
  refine ⟨by omega, fun heapEnd hend => ⟨fun _ => trivial, fun hvolume => ?_⟩, fun _ => trivial⟩
  have hend' := checkedAdd64_eq hend
  refine ⟨trivial, trivial, not_not.mp hsize, ?_⟩
  refine
    { sector := ⟨byteAt boot 108, by omega, by omega, rfl⟩
      cluster := ⟨byteAt boot 109, rfl⟩
      clusterBytes := ?_
      activeFat := ?_
      fats := by simp only; omega
      fatOffset := by simp only; omega
      fatRoom := ?_
      fatEnd := by simp only; omega
      heapEnd := by simp only; omega
      partition := hp
      device := hn
      clusterCount := ⟨by simp only; omega, hcount⟩
      root := ⟨by simp only; omega, by simp only; omega⟩ }
  · simp only
    rw [← pow_add]
    exact Nat.pow_le_pow_right Nat.two_pos (by omega)
  · simp only
    split_ifs <;> omega
  · simp only
    have : bytes ≤ numAt boot 84 4 * 2 ^ byteAt boot 108 := by
      have hle : (bytes + 2 ^ byteAt boot 108 - 1) / 2 ^ byteAt boot 108 ≤ numAt boot 84 4 := by
        omega
      have hlt := (Nat.div_lt_iff_lt_mul (Nat.two_pow_pos _)).mp (Nat.lt_succ_of_le hle)
      rw [Nat.succ_mul] at hlt
      omega
    omega

/-! ### The root directory and the UpCase table -/

variable {g : Geometry}

lemma nextClusterOn_safe {c : ℕ} (hs : Ready g s) (hc : g.InHeap c) :
    wp (nextClusterOn g c)
      (fun v t => v.1 = fatEntry g s.device.sectors c ∧ Quiet g.partition s t)
      (fun _ t => Quiet g.partition s t) s := by
  have hlt := (hs.sound.inHeap_iff.mp hc).2.2
  have hsize := hs.sound.size_ge
  have hoff := hs.sound.fat_offset_le c
  unfold nextClusterOn
  simp only [wp_bind, wp_u64, hs.sound.fatLbaForByte_eq hc, wp_pure, wp_okOr, wp_rem]
  refine ⟨by omega, fun lba hlba => ?_, nofun⟩
  cases hlba
  refine ⟨by omega, wp_mono _ (readSector_spec hs (hs.sound.fat_inPartition hc)) ?_
    fun _ _ h => h.1⟩
  rintro _ t ⟨ht, hold⟩
  rw [wp_scratchSlice (ht.ready hs) hoff, hold.slice hoff, ht.sectors]
  exact ⟨rfl, ht⟩

lemma systemSector_safe {base i : ℕ} {f : FoundSoFar} (hs : Ready g s)
    (hin : InPartition g.partition (base + i)) :
    wp (systemSector g base i f) (fun _ t => Quiet g.partition s t)
      (fun _ t => Quiet g.partition s t) s := by
  have hlba := hs.sound.lt_of_inPartition hin
  unfold systemSector
  simp only [wp_bind, wp_u64]
  refine ⟨hlba.2, wp_mono _ (readSector_spec hs hin) ?_ fun _ _ h => h.1⟩
  rintro _ t ⟨ht, -⟩
  refine wp_loop_post (fun _ _ u => u = t) rfl ?_ fun _ _ h => h ▸ ht
  rintro slot f u - hslot rfl
  unfold systemSlot
  rw [wp_bind, wp_scratchSlice (ht.ready hs) (by omega)]
  split
  · rename_i r _
    rcases r with r | f'
    · exact ht
    · rfl
  · exact ht

lemma systemCluster_safe {c : ℕ} {f : FoundSoFar} (hs : Ready g s) :
    wp (systemCluster g (c, f)) (fun _ t => Quiet g.partition s t)
      (fun _ t => Quiet g.partition s t) s := by
  unfold systemCluster
  simp only
  by_cases hc : g.InHeap c
  swap
  · rw [Sound.clusterLba_none hc]
    exact Quiet.refl _ _
  rw [hs.sound.clusterLba_eq hc, pure_bind, okOr_some, pure_bind, wp_bind]
  refine wp_loop_post (fun _ _ t => Quiet g.partition s t) (Quiet.refl _ _) ?_ ?_
  · intro i f t _ hi ht
    refine wp_mono _ (systemSector_safe (ht.ready hs) (hs.sound.heap_sector hc (by omega))) ?_
      fun _ _ h => ht.trans h
    rintro (r | f) u hu <;> exact ht.trans hu
  · intro f t ht
    simp only [wp_bind]
    refine wp_mono _ (nextClusterOn_safe (ht.ready hs) hc) ?_ fun _ _ h => ht.trans h
    rintro next u ⟨-, hu⟩
    simp only [wp_ite, wp_throw, wp_pure]
    exact ⟨fun _ => ht.trans hu, fun _ => ht.trans hu⟩

lemma discoverRootSystemEntries_safe (hs : Ready g s) :
    wp (discoverRootSystemEntries g) (fun _ t => Quiet g.partition s t)
      (fun _ t => Quiet g.partition s t) s := by
  unfold discoverRootSystemEntries
  rw [wp_bind]
  refine wp_loop_post (fun _ _ t => Quiet g.partition s t) (Quiet.refl _ _) ?_ ?_
  · rintro i ⟨c, f⟩ t - - ht
    refine wp_mono _ (systemCluster_safe (ht.ready hs)) ?_ fun _ _ h => ht.trans h
    rintro (r | v) u hu <;> exact ht.trans hu
  · exact fun _ _ h => h

/-- What the validation of the UpCase table establishes of its descriptor. -/
structure TableSound (g : Geometry) (table : UpCaseTable) : Prop where
  first : g.InHeap table.firstCluster
  length : table.byteLength ≤ g.clusterCount * (g.bytesPerSector * g.sectorsPerCluster)

lemma upcaseSector_safe {base i : ℕ} {v : ℕ × ℕ} (hs : Ready g s)
    (hin : InPartition g.partition (base + i)) :
    wp (upcaseSector g base i v)
      (Sum.elim (fun r t => r = v ∧ v.1 = 0 ∧ t = s)
        (fun w t => w.1 = v.1 - g.bytesPerSector ∧ Quiet g.partition s t))
      (fun _ t => Quiet g.partition s t) s := by
  have hlba := hs.sound.lt_of_inPartition hin
  obtain ⟨remaining, checksum⟩ := v
  unfold upcaseSector
  simp only [wp_ite, wp_bind, wp_u64]
  refine ⟨fun hz => ⟨rfl, hz, rfl⟩, fun _ => ⟨hlba.2, ?_⟩⟩
  refine wp_mono _ (readSector_spec hs hin) ?_ fun _ _ h => h.1
  rintro _ t ⟨ht, -⟩
  rw [wp_scratchSlice (ht.ready hs) (by omega)]
  exact ⟨by simp only; omega, ht⟩

lemma upcaseNext_safe {c remaining : ℕ} (hs : Ready g s) (hc : g.InHeap c)
    (r : (ℕ × ℕ) ⊕ (ℕ × ℕ)) (t : Machine) (ht : Quiet g.partition s t)
    (hr : (r.elim id id).1 = remaining - g.bytesPerSector * g.sectorsPerCluster) :
    wp (do
      let (remaining, checksum) := r.elim id id
      if remaining ≠ 0 then do
        let (next, fatLba, raw) ← nextClusterOn g c
        if g.InHeap next then pure (.inr (next, remaining, checksum))
        else throw (.upcaseChainInvalid c next fatLba raw)
      else pure (.inl checksum) : FsM (ℕ ⊕ (ℕ × ℕ × ℕ)))
    (Sum.elim (fun _ t => Quiet g.partition s t ∧
        (remaining = 0 ∨ g.InHeap c ∧ remaining ≤ g.bytesPerSector * g.sectorsPerCluster))
      (fun w t => Quiet g.partition s t ∧ g.InHeap c ∧
        w.1 = fatEntry g s.device.sectors c ∧ w.2.1 ≠ 0 ∧
        w.2.1 = remaining - g.bytesPerSector * g.sectorsPerCluster))
    (fun _ t => Quiet g.partition s t) t := by
  rw [wp_ite]
  refine ⟨fun hne => ?_, fun hz => ⟨ht, Or.inr ⟨hc, by omega⟩⟩⟩
  rw [wp_bind]
  refine wp_mono _ (nextClusterOn_safe (ht.ready hs) hc) ?_ fun _ _ h => ht.trans h
  rintro ⟨next, fatLba, raw⟩ u ⟨hnext, hu⟩
  rw [ht.sectors] at hnext
  rw [wp_ite]
  exact ⟨fun _ => ⟨ht.trans hu, hc, hnext, hne, hr⟩, fun _ => ht.trans hu⟩

lemma upcaseCluster_safe {c remaining checksum : ℕ} (hs : Ready g s) :
    wp (upcaseCluster g (c, remaining, checksum))
      (Sum.elim (fun _ t => Quiet g.partition s t ∧
          (remaining = 0 ∨ g.InHeap c ∧ remaining ≤ g.bytesPerSector * g.sectorsPerCluster))
        (fun w t => Quiet g.partition s t ∧ g.InHeap c ∧
          w.1 = fatEntry g s.device.sectors c ∧ w.2.1 ≠ 0 ∧
          w.2.1 = remaining - g.bytesPerSector * g.sectorsPerCluster))
      (fun _ t => Quiet g.partition s t) s := by
  unfold upcaseCluster
  simp only
  rw [wp_ite]
  refine ⟨fun hz => ⟨Quiet.refl _ _, Or.inl hz⟩, fun hz => ?_⟩
  by_cases hc : g.InHeap c
  swap
  · rw [Sound.clusterLba_none hc]
    exact Quiet.refl _ _
  rw [hs.sound.clusterLba_eq hc, pure_bind, okOr_some, pure_bind, wp_bind]
  refine wp_loop_post (fun i v t => Quiet g.partition s t ∧ v.1 = remaining - i * g.bytesPerSector)
    ⟨Quiet.refl _ _, by simp⟩ ?_ ?_
  · rintro i v t - hi ⟨ht, hv⟩
    rw [Nat.zero_add] at hi
    refine wp_mono _ (upcaseSector_safe (v := v) (ht.ready hs) (hs.sound.heap_sector hc hi)) ?_
      fun _ _ h => ht.trans h
    rintro (r | w) u hu
    · obtain ⟨rfl, hz', rfl⟩ := hu
      have hle : i * g.bytesPerSector ≤ g.bytesPerSector * g.sectorsPerCluster := by
        rw [Nat.mul_comm]
        exact Nat.mul_le_mul_left _ hi.le
      exact upcaseNext_safe hs hc (.inl r) u ht (by simp only [Sum.elim_inl, id_eq]; omega)
    · refine ⟨ht.trans hu.2, ?_⟩
      rw [hu.1, hv, Nat.add_mul, Nat.one_mul]
      omega
  · rintro v t ⟨ht, hv⟩
    rw [Nat.zero_add, Nat.mul_comm] at hv
    exact upcaseNext_safe hs hc (.inr v) t ht (by simpa using hv)

lemma validateUpcaseTable_safe {table : UpCaseTable} (hs : Ready g s) :
    wp (validateUpcaseTable g table)
      (fun _ t => Quiet g.partition s t ∧ TableSound g table ∧
        ∀ i, i * (g.bytesPerSector * g.sectorsPerCluster) < table.byteLength →
          g.InHeap (link g s.device.sectors table.firstCluster i))
      (fun _ t => Quiet g.partition s t) s := by
  unfold validateUpcaseTable
  rw [wp_ite]
  refine ⟨fun _ => Quiet.refl _ _, fun hdescriptor => ?_⟩
  have hpos := hs.sound.clusterBytes_pos
  rw [wp_bind]
  -- a table with bytes left behind `i` clusters is longer than `i` clusters
  refine wp_loop_post (fun i v t => Quiet g.partition s t ∧ v.2.1 ≠ 0 ∧
    v.2.1 = table.byteLength - i * (g.bytesPerSector * g.sectorsPerCluster) ∧
    v.1 = link g s.device.sectors table.firstCluster i ∧
    ∀ j < i, g.InHeap (link g s.device.sectors table.firstCluster j)) ?_ ?_ ?_
  · exact ⟨Quiet.refl _ _, by simp only; omega, by simp, rfl, nofun⟩
  · rintro i ⟨c, remaining, checksum⟩ t - hi ⟨ht, hne, hrem, hlink, hheap⟩
    dsimp only at hne hrem hlink
    have hin (hc : g.InHeap c) : ∀ j ≤ i, g.InHeap (link g s.device.sectors table.firstCluster j) :=
      fun j hj => by
        rcases Nat.lt_or_eq_of_le hj with hlt | rfl
        · exact hheap j hlt
        · exact hlink ▸ hc
    refine wp_mono _ (upcaseCluster_safe (ht.ready hs)) ?_ fun _ _ h => ht.trans h
    rintro (sum | w) u hu
    · obtain ⟨hq, hz | ⟨hc, hle⟩⟩ := hu
      · exact absurd hz hne
      · have hcover : table.byteLength ≤ (i + 1) * (g.bytesPerSector * g.sectorsPerCluster) := by
          rw [Nat.add_mul, Nat.one_mul]
          omega
        have hlen : table.byteLength ≤ g.clusterCount * (g.bytesPerSector * g.sectorsPerCluster) :=
          hcover.trans (Nat.mul_le_mul_right _ (by omega))
        have hchain (j : ℕ) (hj : j * (g.bytesPerSector * g.sectorsPerCluster) < table.byteLength) :
            g.InHeap (link g s.device.sectors table.firstCluster j) :=
          hin hc j (Nat.lt_succ_iff.mp (Nat.lt_of_mul_lt_mul_right (hj.trans_le hcover)))
        simp only [wp_ite, wp_throw]
        exact ⟨fun _ => ht.trans hq,
          fun _ => ⟨ht.trans hq, ⟨hin hc 0 (Nat.zero_le i), hlen⟩, hchain⟩⟩
    · obtain ⟨hq, hc, hnext, hw, hleft⟩ := hu
      refine ⟨ht.trans hq, hw, ?_, ?_, fun j hj => hin hc j (by omega)⟩
      · rw [hleft, hrem, Nat.add_mul, Nat.one_mul]
        omega
      · rw [hnext, ht.sectors, hlink, link_succ]
  · rintro v t ⟨ht, -⟩
    exact ht

lemma upcaseIsValid_safe {table : UpCaseTable} (hs : Ready g s) :
    wp (upcaseIsValid g table)
      (fun valid t => Quiet g.partition s t ∧ (valid = true → TableSound g table))
      (fun _ t => Quiet g.partition s t) s := by
  unfold upcaseIsValid
  rw [wp_bind, wp_attempt]
  refine wp_mono _ (validateUpcaseTable_safe hs) (fun _ _ h => ⟨h.1, fun _ => h.2.1⟩) ?_
  intro e t ht
  cases e <;> first | exact ⟨ht, nofun⟩ | exact ht

/-! ### Mounting -/

/-- What `mount` establishes of the volume it returns, on a device of `n` sectors. -/
structure VolumeSound (vol : Volume) (n : ℕ) : Prop where
  geometry : Sound vol.geometry n
  table : vol.upcaseValid = true → TableSound vol.geometry vol.upcase

lemma wp_mapCorrupt {α : Type} {Q : α → Machine → Prop} {E : Error → Machine → Prop} {e : Error}
    {m : FsM α} (h : wp m Q (fun _ t => ∀ e', E e' t) s) : wp (mapCorrupt e m) Q E s := by
  unfold mapCorrupt
  rw [wp_bind, wp_attempt]
  refine wp_mono _ h (fun _ _ h => h) ?_
  intro e' t ht
  cases e' <;> exact ht _

/-- **From the selected partition on**, mounting reads inside the partition and returns a sound
volume. -/
theorem mountPartition_safe (hsize : size ≤ s.scratch.len) (hp : Within p s.device.sectorCount) :
    wp (mountPartition p size)
      (fun vol t => Quiet p s t ∧ vol.geometry.partition = p ∧
        vol.geometry.bytesPerSector ≤ s.scratch.len ∧ VolumeSound vol s.device.sectorCount)
      (fun _ t => Quiet p s t) s := by
  have hbound := s.device.bound
  have hp' := hp
  unfold Within at hp'
  unfold mountPartition
  rw [wp_bind]
  refine wp_mono _ (selectBootRegion_safe hsize hp) ?_ fun _ _ h => h
  rintro bootOffset t ⟨ht, hoffset⟩
  have hin : InPartition p (p.firstLba + bootOffset) := ⟨by omega, by omega⟩
  have hsize' : size ≤ t.scratch.len := by rw [ht.scratchLen]; exact hsize
  simp only [wp_bind, wp_u64]
  refine ⟨by omega, wp_mono _ (readSector_within hsize' (ht.sectorCount ▸ hp) hin) ?_
    fun _ _ h => ht.trans h⟩
  intro _ u hu
  have htu := ht.trans hu
  rw [wp_scratchSlice' (by rw [htu.scratchLen]; exact hsize) (by omega)]
  refine wp_mapCorrupt (wp_mono _ (parseBoot_sound (by simp) hp hbound) ?_
    fun _ _ h _ => h ▸ htu)
  rintro g v ⟨rfl, rfl, rfl, hsound⟩
  have hready : Ready g v := ⟨htu.sectorCount ▸ hsound, by rw [htu.scratchLen]; exact hsize⟩
  refine wp_mapCorrupt (wp_mono _ (discoverRootSystemEntries_safe hready) ?_
    fun _ _ h _ => htu.trans h)
  rintro ⟨bitmap, upcase, label⟩ w hw
  refine wp_mono _ (upcaseIsValid_safe (hw.ready hready)) ?_ fun _ _ h => (htu.trans hw).trans h
  rintro valid x ⟨hx, htable⟩
  exact ⟨(htu.trans hw).trans hx, rfl, hsize, hsound, htable⟩

lemma checkedSectorSize_safe (n : ℕ) :
    wp (checkedSectorSize n) (fun size t => size = n ∧ 512 ≤ n ∧ n ≤ 4096 ∧ t = s)
      (fun _ t => t = s) s := by
  unfold checkedSectorSize
  rw [wp_ite]
  exact ⟨fun h => ⟨rfl, by omega, by omega, rfl⟩, fun _ => rfl⟩

lemma quiet_whole {t : Machine} {n : ℕ} (h : Quiet p s t) (hp : Within p n) :
    Quiet (whole n) s t := by
  obtain ⟨l, hl, hin⟩ := h.reads
  refine ⟨h.same, l, hl, fun lba hlba => ⟨Nat.zero_le _, ?_⟩⟩
  have hlt := (hin lba hlba).2
  unfold Within at hp
  change lba < 0 + n
  omega

/-- **`mount` on any device with a sector.** -/
theorem mount_safe (hcount : 0 < s.device.sectorCount) :
    wp mount
      (fun vol t => Quiet (whole s.device.sectorCount) s t ∧
        Within vol.geometry.partition s.device.sectorCount ∧
        vol.geometry.bytesPerSector ≤ s.scratch.len ∧ VolumeSound vol s.device.sectorCount)
      (fun _ t => Quiet (whole s.device.sectorCount) s t) s := by
  unfold mount
  simp only [wp_bind, wp_get]
  refine wp_mono _ (checkedSectorSize_safe _) ?_ fun _ _ h => h ▸ Quiet.refl _ _
  rintro size t ⟨rfl, hlo, hhi, rfl⟩
  refine wp_mono _ (selectPartition_safe hlo hhi hcount) ?_ fun _ _ h => h
  rintro p u ⟨hu, hscratch, hp⟩
  refine wp_mono _ (mountPartition_safe (hu.scratchLen ▸ hscratch) (hu.sectorCount ▸ hp)) ?_
    fun _ _ h => hu.trans (quiet_whole h hp)
  rintro vol v ⟨hv, rfl, hsize, hvol⟩
  exact ⟨hu.trans (quiet_whole hv hp), hp, hu.scratchLen ▸ hsize, hu.sectorCount ▸ hvol⟩

lemma mount_empty (hcount : s.device.sectorCount = 0) :
    wp mount (fun _ _ => False) (fun _ _ => True) s := by
  unfold mount selectPartition
  simp only [wp_bind, wp_get]
  refine wp_mono _ (checkedSectorSize_safe _) ?_ fun _ _ _ => trivial
  rintro size t ⟨rfl, -, -, rfl⟩
  simp only [wp_ite, wp_throw, wp_bind]
  refine ⟨fun _ => trivial, fun hscratch => ?_⟩
  unfold wp readSector
  simp only [if_neg hscratch, hcount, Nat.zero_le, if_true]
  by_cases hfail : t.device.readFails t.device.reads.length = true
  · simp [hfail]
  · simp [hfail]

/-- What a volume satisfies which was mounted from `s`. -/
theorem mount_sound {vol : Volume} (h : (mount s).1 = .ok vol) :
    Within vol.geometry.partition s.device.sectorCount ∧
      vol.geometry.bytesPerSector ≤ s.scratch.len ∧ VolumeSound vol s.device.sectorCount := by
  have hrun := run_eq h
  rcases Nat.eq_zero_or_pos s.device.sectorCount with hzero | hpos
  · exact ((wp_ok hrun).mp (mount_empty hzero)).elim
  · exact ((wp_ok hrun).mp (mount_safe hpos)).2

end ExfatEmbedded.MountSafety
