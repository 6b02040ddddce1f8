import ExfatEmbedded.Formatted

/-!
`mount` on a formatted device. It finds the layout which the formatter has computed, and the UpCase
table is valid.
-/

namespace ExfatEmbedded.FormatMount

open ExfatEmbedded.Library Exec ExfatEmbedded.Core ExfatEmbedded.Entry ExfatEmbedded.Allocation
open ExfatEmbedded.Mount ExfatEmbedded.Format ExfatEmbedded.FormatMedia ExfatEmbedded.Formatted
open ExfatEmbedded.Reading ExfatEmbedded.MountSafety ExfatEmbedded.Listing ExfatEmbedded.Media
open ExfatEmbedded.StreamSafety ExfatEmbedded.Writing ExfatEmbedded.Tree

/-! ### The fields of a sector -/

section Fields

variable {m : Image} {off n : ℕ} {bs : List UInt8} {ps : List (ℕ × List UInt8)}

/-- The ranges of a sector, in ascending order. -/
def Ascending (ps : List (ℕ × List UInt8)) : Prop :=
  ps.Pairwise fun p q => p.1 + p.2.length ≤ q.1

lemma slice_overlaid_outside (h : ∀ p ∈ ps, off + n ≤ p.1 ∨ p.1 + p.2.length ≤ off) :
    Image.slice (overlaid m ps) off n = Image.slice m off n := by
  induction ps generalizing m with
  | nil => rfl
  | cons p ps ih =>
    obtain ⟨start, bs⟩ := p
    rw [overlaid_cons, ih fun q hq => h q (List.mem_cons_of_mem _ hq)]
    refine Image.slice_patch_disjoint ?_
    have := h (start, bs) List.mem_cons_self
    simp only at this
    omega

lemma slice_overlaid (h : Ascending ps) (hmem : (off, bs) ∈ ps) :
    Image.slice (overlaid m ps) off bs.length = bs := by
  induction ps generalizing m with
  | nil => cases hmem
  | cons p ps ih =>
    obtain ⟨hhead, htail⟩ := List.pairwise_cons.mp h
    rcases List.mem_cons.mp hmem with rfl | hmem
    · rw [overlaid_cons, slice_overlaid_outside fun q hq => Or.inl (hhead q hq),
        Image.slice_patch_self]
    · exact ih htail hmem

lemma slice_zero (off n : ℕ) : Image.slice (fun _ => 0) off n = List.replicate n 0 := by
  induction n generalizing off with
  | zero => rfl
  | succ n ih => simp [Image.slice, ih, List.replicate_succ]

lemma slice_shift (m : Image) (a off n : ℕ) :
    Image.slice (fun i => m (a + i)) off n = Image.slice m (a + off) n := by
  induction n generalizing off with
  | zero => rfl
  | succ n ih => simp [Image.slice, ih, Nat.add_assoc]

lemma slice_drop_take {i k : ℕ} (h : i + k ≤ n) :
    ((Image.slice m off n).drop i).take k = Image.slice m (off + i) k := by
  obtain ⟨r, rfl⟩ := Nat.exists_eq_add_of_le h
  rw [Image.slice_add, Image.slice_add, List.append_assoc,
    List.drop_left' (Image.slice_length _ _ _),
    List.take_left' (Image.slice_length _ _ _)]

lemma ofLe_sectorOf {v : ℕ} (h : Ascending ps) (hmem : (off, leBytes n v) ∈ ps)
    (hv : v < 256 ^ n) : ofLe (Image.slice (sectorOf ps) off n) = v := by
  have hslice := slice_overlaid (m := fun _ => 0) h hmem
  rw [leBytes_length] at hslice
  rw [sectorOf, hslice, ofLe_leBytes_of_lt hv]

lemma numAt_slice {i k : ℕ} (h : i + k ≤ n) :
    numAt (Image.slice m off n) i k = ofLe (Image.slice m (off + i) k) := by
  rw [numAt, slice_drop_take h]

lemma byteAt_slice {i : ℕ} (hi : i < n) : byteAt (Image.slice m off n) i = (m (off + i)).toNat := by
  rw [byteAt, Image.slice_getD _ _ _ _ hi]

end Fields
/-! ### The sectors which `mount` reads -/

/-- The media of a formatted volume, as far as something reads it. -/
structure Fresh (g : Geometry) (d : Sectors) : Prop where
  mbr : ∀ i < 512, d 0 i = mbrSector g i
  boot : ∀ k < 11, ∀ i < 512, d (1 + k) i = bootRegion g 1 (1 + k) i
  checksum : ∀ i < 512, d 12 i = checksumSector (bootChecksum g) i
  fat : ∀ k < g.fatLength, ∀ i < 512, d (25 + k) i =
    fatSectors 25 3 (bitmapLen g) (upcaseFirst g) (upcaseLen g) (25 + k) i
  bitmap : ∀ k < (bitmapBytes g + 511) / 512, ∀ i < 512,
    d (heapLba g 3 + k) i = reservedByte (reserved g) (k * 512 + i)
  upcase : ∀ k < 256, ∀ i < 512, d (heapLba g (upcaseFirst g) + k) i = upcaseByte (k * 512 + i)
  root : ∀ i < 512, d (heapLba g 2) i = rootSector g i

section Fresh

variable {sectors fat heap clusters : ℕ}

lemma clusterSectors_pos (sectors : ℕ) : 0 < clusterSectors sectors := by
  rcases clusterSectors_cases sectors with ⟨hspc, -⟩ | ⟨hspc, -⟩ | hspc <;> omega

/-- **The layout is one which `parse_boot` accepts.** -/
theorem sound_formatGeometry (h : Planned sectors fat heap clusters) :
    Sound (formatGeometry sectors fat heap clusters) (sectors + 1) := by
  have hroom := h.room
  have hsmall := h.small
  have hlarge := h.large
  have hcount := h.count
  have hheap := h.heapStart
  have hpos : 0 < clusters := by
    unfold reserved at hroom
    omega
  refine
    { sector := ⟨9, by decide, by decide, rfl⟩
      cluster := ?_
      clusterBytes := ?_
      activeFat := Nat.one_pos
      fats := show 1 ≤ 2 by decide
      fatOffset := show 24 ≤ 24 from le_rfl
      fatRoom := h.fatRoom
      fatEnd := ?_
      heapEnd := h.heapEnd
      partition := (Nat.add_comm 1 sectors).le
      device := by omega
      clusterCount := ⟨hpos, by simp only [formatGeometry]; omega⟩
      root := ⟨le_rfl, ?_⟩ }
  · rcases clusterSectors_cases sectors with ⟨hspc, -⟩ | ⟨hspc, -⟩ | hspc
    · exact ⟨0, hspc⟩
    · exact ⟨4, hspc⟩
    · exact ⟨6, hspc⟩
  · rcases clusterSectors_cases sectors with ⟨hspc, -⟩ | ⟨hspc, -⟩ | hspc <;>
      simp [formatGeometry, hspc]
  · simp only [formatGeometry, Nat.mul_one]
    omega
  · simp only [formatGeometry, saturatingAdd32]
    omega

lemma bitmap_room (h : Planned sectors fat heap clusters) :
    (bitmapBytes (formatGeometry sectors fat heap clusters) + 511) / 512 ≤
      bitmapLen (formatGeometry sectors fat heap clusters) * clusterSectors sectors := by
  have hle := clustersFor_le (sound_formatGeometry h)
    (bitmapBytes (formatGeometry sectors fat heap clusters))
  change _ ≤ bitmapLen (formatGeometry sectors fat heap clusters) * (512 * clusterSectors sectors)
    at hle
  rw [Nat.mul_left_comm] at hle
  omega

/-- **What is read of a formatted device is what the formatter has laid out.** -/
theorem fresh_formatMedia (h : Planned sectors fat heap clusters) (d : Sectors) :
    Fresh (formatGeometry sectors fat heap clusters)
      (formatMedia (formatGeometry sectors fat heap clusters) d) := by
  have hbitmap := bitmap_room h
  have hspc := clusterSectors_pos sectors
  have hheap := h.heapStart
  set g := formatGeometry sectors fat heap clusters with hg
  have h2 : heapLba g 2 = 1 + heap := by simp [heapLba, hg, formatGeometry]
  have h3 : heapLba g 3 = 1 + heap + clusterSectors sectors := by
    simp [heapLba, hg, formatGeometry]
  have hu : heapLba g (upcaseFirst g) = 1 + heap + (1 + bitmapLen g) * clusterSectors sectors := by
    unfold heapLba upcaseFirst
    rw [show 3 + bitmapLen g - 2 = 1 + bitmapLen g by omega]
    rfl
  rw [Nat.add_mul, Nat.one_mul] at hu
  have hfat : g.fatLength = fat := rfl
  unfold fatOffset bootSectors at hheap
  unfold formatMedia tablesMedia bootMedia
  refine ⟨fun i hi => ?_, fun k hk i hi => ?_, fun i hi => ?_, fun k hk i hi => ?_,
    fun k hk i hi => ?_, fun k hk i hi => ?_, fun i hi => ?_⟩
  · repeat rw [laid_outside (by omega)]
    rw [laid_inside le_rfl (by omega) hi]
  · repeat rw [laid_outside (by omega)]
    rw [laid_inside (by omega) (by omega) hi]
  · repeat rw [laid_outside (by omega)]
    rw [laid_inside le_rfl (by omega) hi]
  · repeat rw [laid_outside (by omega)]
    rw [laid_inside (by omega) (by omega) hi]
  · repeat rw [laid_outside (by omega)]
    rw [laid_inside (by omega) (by omega) hi]
    unfold bitmapSectors
    rw [Nat.add_sub_cancel_left]
  · rw [laid_outside (by omega), laid_inside (by omega) (by omega) hi]
    unfold upcaseSectors
    rw [Nat.add_sub_cancel_left]
  · rw [laid_inside le_rfl (by omega) hi]

end Fresh
/-! ### Reading the device -/

/-- A machine with a formatted device whose reads do not fail. -/
structure Opened (sectors fat heap clusters : ℕ) (r : Machine) : Prop where
  planned : Planned sectors fat heap clusters
  fresh : Fresh (formatGeometry sectors fat heap clusters) r.device.sectors
  sectorSize : r.device.sectorSize = 512
  sectorCount : r.device.sectorCount = sectors + 1
  healthy : Healthy r
  scratch : 512 ≤ r.scratch.len

/-- From `r` to `s` sectors of the device were read, and nothing else happened. -/
abbrev Still (r s : Machine) : Prop := Quiet (whole r.device.sectorCount) r s

section Opened

variable {sectors fat heap clusters : ℕ} {r s : Machine} {α : Type}
  {Q : α → Machine → Prop} {E : Error → Machine → Prop}

lemma readSector_opened (ho : Opened sectors fat heap clusters r) (hs : Still r s) {lba : ℕ}
    (hlba : lba < sectors + 1) :
    wp (readSector 512 lba)
      (fun _ t => Still r t ∧ ∀ i < 512, t.scratch.bytes i = r.device.sectors lba i)
      (fun _ _ => False) s := by
  have hcount := ho.sectorCount
  refine wp_mono _ (readSector_quiet (p := whole r.device.sectorCount)
    (by rw [hs.scratchLen]; exact ho.scratch) ⟨Nat.zero_le _, ?_⟩
    (by rw [hs.sectorCount]; omega)) ?_ fun e t h => ?_
  · change lba < 0 + r.device.sectorCount
    omega
  · rintro _ t ⟨ht, hold⟩
    refine ⟨hs.trans ht, fun i hi => ?_⟩
    rw [hold i hi, ht.sectors, hs.sectors]
  · exact Faulted.elim (fun n => by rw [hs.readFails]; exact ho.healthy n) h

lemma wp_readWhole (ho : Opened sectors fat heap clusters r) (hs : Still r s) {lba : ℕ} (m : Image)
    {f : List UInt8 → FsM α} (hlba : lba < sectors + 1)
    (hm : ∀ i < 512, r.device.sectors lba i = m i)
    (hQ : ∀ t, Still r t → wp (f (Image.slice m 0 512)) Q E t) :
    wp (do readSector 512 lba; let sector ← scratchSlice 512 0 512; f sector) Q E s := by
  rw [wp_bind]
  refine wp_mono _ (readSector_opened ho hs hlba) ?_ fun _ _ h => h.elim
  rintro _ t ⟨ht, hbytes⟩
  rw [wp_bind, wp_scratchSlice' (by rw [ht.scratchLen]; exact ho.scratch) (by decide)]
  rw [Image.slice_congr fun i _ hi => (hbytes i (by omega)).trans (hm i (by omega))]
  exact hQ t ht

/-! ### The partition -/

lemma ascending_mbr : Ascending [(450, [0x07]), (454, leBytes 4 1),
    (458, leBytes 4 sectors), (510, [0x55, 0xaa])] := by
  simp [Ascending]

lemma mbrEntries_slice (m : Image) : mbrEntries (Image.slice m 0 512) =
    [Image.slice m 446 16, Image.slice m 462 16, Image.slice m 478 16, Image.slice m 494 16] := by
  simp [mbrEntries, List.range_succ, slice_drop_take]

lemma selectPartition_opened (ho : Opened sectors fat heap clusters r) :
    wp (selectPartition 512) (fun p t => p = ⟨1, sectors⟩ ∧ Still r t) (fun _ _ => False) r := by
  have hcount := ho.sectorCount
  have hsmall := ho.planned.small
  have hlarge := ho.planned.large
  have hmbr := ho.fresh.mbr
  generalize hm : mbrSector (formatGeometry sectors fat heap clusters) = m at hmbr
  have hfirst : ofLe (Image.slice m 454 4) = 1 := by
    rw [← hm]
    exact ofLe_sectorOf ascending_mbr (by simp) (by decide)
  have hlength : ofLe (Image.slice m 458 4) = sectors := by
    rw [← hm]
    exact ofLe_sectorOf ascending_mbr (by simp [formatGeometry]) (by omega)
  have hbytes : m 450 = 0x07 ∧ m 466 = 0 ∧ m 482 = 0 ∧ m 498 = 0 ∧ m 510 = 0x55 ∧ m 511 = 0xaa := by
    rw [← hm]
    simp [mbrSector, sectorOf, overlaid, Image.patch]
  obtain ⟨h450, h466, h482, h498, h510, h511⟩ := hbytes
  have hprotective : hasProtectiveMbr (Image.slice m 0 512) = false := by
    simp [hasProtectiveMbr, mbrEntries_slice, byteAt_slice, h450, h466, h482, h498]
  have hpartition : mbrPartition (Image.slice m 0 512) = pure ⟨1, sectors⟩ := by
    have hzero : sectors ≠ 0 := by omega
    simp [mbrPartition, mbrEntries_slice, byteAt_slice, numAt_slice, h450, h510, h511, hfirst,
      hlength, hzero, okOr]
  unfold selectPartition
  rw [wp_bind, wp_get]
  beta_reduce
  rw [wp_ite]
  refine ⟨fun hlen => absurd ho.scratch (by omega), fun _ => ?_⟩
  refine wp_readWhole ho (Quiet.refl _ _) m (by omega) hmbr fun t ht => ?_
  have hcount' := ht.sectorCount.trans hcount
  rw [hprotective, hpartition]
  simp only [wp_bind, wp_ite, wp_pure, wp_get, wp_throw, wp_sub, hcount']
  exact ⟨fun h => absurd h Bool.false_ne_true, fun _ => ⟨fun hle => by omega, fun _ =>
    ⟨by omega, fun hlt => by omega,
    fun _ => ⟨trivial, ht⟩⟩⟩⟩

/-! ### The boot region -/

lemma rotAdd_lt (sum : ℕ) (b : UInt8) : rotAdd 32 sum b < 2 ^ 32 :=
  Nat.mod_lt _ (by decide)

lemma bootSum_eq_regionSum (k sum : ℕ) (out : List UInt8) :
    bootSum k sum out = regionSum k sum out := by
  unfold bootSum regionSum
  congr 1
  funext sum p
  split_ifs with h1 h2 h2
  · omega
  · rfl
  · rfl
  · omega

lemma regionSum_lt {k sum : ℕ} {out : List UInt8} (h : sum < 2 ^ 32) :
    regionSum k sum out < 2 ^ 32 := by
  unfold regionSum
  generalize out.zipIdx = ps
  induction ps generalizing sum with
  | nil => exact h
  | cons p ps ih =>
    rw [List.foldl_cons]
    refine ih ?_
    split_ifs
    · exact rotAdd_lt _ _
    · exact h

lemma regionChecksum_lt (length fat heap clusters spc n : ℕ) :
    regionChecksum length fat heap clusters spc n < 2 ^ 32 := by
  have hfold (f : ℕ → List UInt8) (l : List ℕ) (sum : ℕ) (h : sum < 2 ^ 32) :
      l.foldl (fun sum k => regionSum k sum (f k)) sum < 2 ^ 32 := by
    induction l generalizing sum with
    | nil => exact h
    | cons k l ih => exact ih _ (regionSum_lt h)
  exact hfold _ _ _ (Nat.two_pow_pos 32)

lemma words_checksumSector {c : ℕ} (hc : c < 2 ^ 32) :
    ((words (Image.slice (checksumSector c) 0 512)).any fun x => decide (x ≠ c)) = false := by
  have hword {i : ℕ} (hi : i < 128) :
      numAt (Image.slice (checksumSector c) 0 512) (4 * i) 4 = c := by
    have hslice : Image.slice (checksumSector c) (4 * i) 4 = leBytes 4 c := by
      have hbyte : ∀ j < (leBytes 4 c).length,
          checksumSector c (4 * i + j) = (leBytes 4 c).getD j 0 := fun j hj => by
        rw [leBytes_length] at hj
        rw [checksumSector, show (4 * i + j) % 4 = j by omega]
      have := Image.slice_ext hbyte
      rwa [leBytes_length] at this
    rw [numAt_slice (by omega), Nat.zero_add, hslice, ofLe_leBytes_of_lt (by omega)]
  rw [List.any_eq_false]
  intro x hx
  unfold words at hx
  rw [Image.slice_length] at hx
  obtain ⟨i, hi, rfl⟩ := List.mem_map.mp hx
  rw [hword (by simpa using hi)]
  simp

lemma validateBootChecksum_opened (ho : Opened sectors fat heap clusters r) (hs : Still r s) :
    wp (validateBootChecksum ⟨1, sectors⟩ 0 512) (fun _ t => Still r t) (fun _ _ => False) s := by
  have hsmall := ho.planned.small
  have hlarge := ho.planned.large
  have hboot := ho.fresh.boot
  have hchecksum := ho.fresh.checksum
  set g := formatGeometry sectors fat heap clusters with hg
  unfold validateBootChecksum
  simp only
  rw [wp_bind, wp_u64]
  refine ⟨by omega, ?_⟩
  rw [wp_ite]
  refine ⟨fun hlt => by omega, fun _ => ?_⟩
  rw [wp_bind]
  refine wp_loop_post (fun k sum t => Still r t ∧ sum = regionChecksum g.partition.sectorCount
    g.fatLength g.clusterHeapOffset g.clusterCount g.sectorsPerCluster k) ⟨hs, rfl⟩ ?_ ?_
  · rintro k sum t - hk ⟨ht, rfl⟩
    rw [wp_bind, wp_u64]
    refine ⟨by omega, wp_readWhole ho ht _ (by omega) (hboot k (by omega)) fun u hu => ?_⟩
    refine ⟨hu, ?_⟩
    rw [bootSum_eq_regionSum]
    unfold regionChecksum
    rw [List.range_succ, List.foldl_append, List.foldl_cons, List.foldl_nil]
    unfold bootRegion regionSectors
    rw [Nat.add_sub_cancel_left]
  · rintro sum t ⟨ht, hsum⟩
    have hlt := regionChecksum_lt g.partition.sectorCount g.fatLength g.clusterHeapOffset
      g.clusterCount g.sectorsPerCluster (0 + 11)
    rw [wp_bind, wp_u64]
    refine ⟨by omega, wp_readWhole ho ht (checksumSector sum) (by omega) ?_ fun u hu => ?_⟩
    · rw [hsum]
      exact hchecksum
    · rw [← hsum] at hlt
      rw [wp_ite, words_checksumSector hlt]
      exact ⟨nofun, fun _ => hu⟩

/-! ### The boot sector -/

lemma trailingZeros_clusterSectors (sectors : ℕ) :
    trailingZeros (clusterSectors sectors) ≤ 6 ∧
      2 ^ trailingZeros (clusterSectors sectors) = clusterSectors sectors := by
  rcases clusterSectors_cases sectors with ⟨h, -⟩ | ⟨h, -⟩ | h <;> rw [h] <;> decide

/-- The fields of the boot sector. -/
def bootFields (g : Geometry) : List (ℕ × List UInt8) :=
  bootPatches g.partition.sectorCount g.fatLength g.clusterHeapOffset g.clusterCount
    g.sectorsPerCluster 0

lemma ascending_boot (g : Geometry) : Ascending (bootFields g) := by
  simp [-List.reduceReplicate, bootFields, bootPatches, Ascending]

/-- A boot sector with the fields of a geometry. -/
structure BootSector (g : Geometry) (m : Image) : Prop where
  jump : Image.slice m 0 3 = jumpBoot
  signature : Image.slice m 3 8 = exfatSignature
  zeros : Image.slice m 11 53 = List.replicate 53 0
  length : ofLe (Image.slice m 72 8) = g.partition.sectorCount
  fatOffset : ofLe (Image.slice m 80 4) = fatOffset
  fatLength : ofLe (Image.slice m 84 4) = g.fatLength
  heap : ofLe (Image.slice m 88 4) = g.clusterHeapOffset
  clusters : ofLe (Image.slice m 92 4) = g.clusterCount
  root : ofLe (Image.slice m 96 4) = 2
  revision : m 104 = 0 ∧ m 105 = 1
  sectorShift : m 108 = 9
  clusterShift : m 109 = UInt8.ofNat (trailingZeros g.sectorsPerCluster)
  fats : m 110 = 1
  percent : m 112 = 0
  zeros' : Image.slice m 113 7 = List.replicate 7 0
  signature' : m 510 = 0x55 ∧ m 511 = 0xaa

lemma bootSector_of_fields {g : Geometry} {m : Image} (hm : m = sectorOf (bootFields g))
    (hlength : g.partition.sectorCount < 2 ^ 32) (hfat : g.fatLength < 2 ^ 32)
    (hheap : g.clusterHeapOffset < 2 ^ 32) (hcount : g.clusterCount < 2 ^ 32) : BootSector g m := by
  have hzero {off n : ℕ} (h : ∀ p ∈ bootFields g, off + n ≤ p.1 ∨ p.1 + p.2.length ≤ off) :
      Image.slice m off n = List.replicate n 0 := by
    rw [hm, sectorOf, slice_overlaid_outside h, slice_zero]
  have hfield {off n v : ℕ} (hmem : (off, leBytes n v) ∈ bootFields g) (hv : v < 256 ^ n) :
      ofLe (Image.slice m off n) = v := by
    rw [hm]
    exact ofLe_sectorOf (ascending_boot g) hmem hv
  have hrange {off : ℕ} (bs : List UInt8) (hmem : (off, bs) ∈ bootFields g) :
      Image.slice m off bs.length = bs := by
    rw [hm]
    exact slice_overlaid (ascending_boot g) hmem
  refine
    { jump := hrange jumpBoot ?_
      signature := hrange exfatSignature ?_
      zeros := hzero ?_
      length := hfield ?_ (by omega)
      fatOffset := hfield ?_ (by decide)
      fatLength := hfield ?_ (by omega)
      heap := hfield ?_ (by omega)
      clusters := hfield ?_ (by omega)
      root := hfield ?_ (by decide)
      revision := ?_
      sectorShift := ?_
      clusterShift := ?_
      fats := ?_
      percent := ?_
      zeros' := hzero ?_
      signature' := ?_ } <;>
    simp [-List.reduceReplicate, hm, bootFields, bootPatches, sectorOf, overlaid, Image.patch,
      leBytes, jumpBoot, exfatSignature]

/-- **`parse_boot` reads the geometry which the formatter wrote.** -/
theorem parseBoot_opened (h : Planned sectors fat heap clusters) {boot : List UInt8}
    (hboot : boot = Image.slice
      (sectorOf (bootFields (formatGeometry sectors fat heap clusters))) 0 512) :
    wp (parseBoot ⟨1, sectors⟩ boot 512)
      (fun g t => g = formatGeometry sectors fat heap clusters ∧ t = s) (fun _ _ => False) s := by
  have hs := sound_formatGeometry h
  have hlarge := h.large
  have hcount := h.count
  have hheap := h.heapStart
  have hend := h.heapEnd
  have hfatRoom := h.fatRoom
  have hsmall := h.small
  have hclusters := hs.clusterCount.1
  have hshift := (trailingZeros_clusterSectors sectors).1
  have hpow := (trailingZeros_clusterSectors sectors).2
  have hmul : clusters ≤ clusters * clusterSectors sectors :=
    Nat.le_mul_of_pos_right _ (clusterSectors_pos sectors)
  change 0 < clusters at hclusters
  generalize hm : sectorOf (bootFields (formatGeometry sectors fat heap clusters)) = m at hboot
  have hb := bootSector_of_fields hm.symm hlarge (show fat < 2 ^ 32 by omega)
    (show heap < 2 ^ 32 by omega) (show clusters < 2 ^ 32 by omega)
  have hspc : byteAt (Image.slice m 0 512) 109 = trailingZeros (clusterSectors sectors) := by
    rw [byteAt_slice (by decide), hb.clusterShift]
    change UInt8.toNat (UInt8.ofNat (trailingZeros (clusterSectors sectors))) = _
    rw [UInt8.toNat_ofNat']
    omega
  have hsector : byteAt (Image.slice m 0 512) 108 = 9 := by
    rw [byteAt_slice (by decide), hb.sectorShift]
    rfl
  have hnumber {i k v : ℕ} (hi : i + k ≤ 512) (hv : ofLe (Image.slice m i k) = v) :
      numAt (Image.slice m 0 512) i k = v := by
    rw [numAt_slice hi, Nat.zero_add, hv]
  have hrange {i k : ℕ} (hi : i + k ≤ 512) :
      bootRange (Image.slice m 0 512) i k = Image.slice m i k := by
    rw [bootRange, slice_drop_take hi, Nat.zero_add]
  have hbyte {i : ℕ} {b : UInt8} (hi : i < 512) (hv : m i = b) :
      byteAt (Image.slice m 0 512) i = b.toNat := by
    rw [byteAt_slice hi, Nat.zero_add, hv]
  unfold parseBoot
  rw [hboot, hsector, hspc, hnumber (by decide) hb.length, hnumber (by decide) hb.fatOffset,
    hnumber (by decide) hb.fatLength, hnumber (by decide) hb.heap, hnumber (by decide) hb.clusters,
    hnumber (by decide) hb.root, hrange (by decide), hb.signature, hrange (by decide), hb.jump,
    hrange (by decide), hb.zeros, hrange (by decide), hb.zeros', hbyte (by decide) hb.signature'.1,
    hbyte (by decide) hb.signature'.2, hbyte (by decide) hb.revision.1,
    hbyte (by decide) hb.revision.2, hbyte (by decide) hb.fats, hbyte (by decide) hb.percent,
    Image.slice_length]
  rw [if_neg (by decide), if_neg (by decide)]
  have h7 : (9 : ℕ) ≤ 9 ∧ 9 ≤ 12 := by decide
  have hcluster : ¬ (25 < trailingZeros (clusterSectors sectors) ∨
      25 < 9 + trailingZeros (clusterSectors sectors)) := by omega
  simp only [if_neg (not_not.mpr h7), if_neg hcluster, hpow]
  rw [if_neg (by decide)]
  have hspc64 : clusterSectors sectors ≤ 64 := by
    rcases clusterSectors_cases sectors with ⟨hc, -⟩ | ⟨hc, -⟩ | hc <;> omega
  have hroot : ¬ saturatingAdd32 clusters 2 ≤ 2 := Nat.not_le.mpr hs.root.2
  have hoffset : fatOffset = 24 := rfl
  have hfats : checkedMul64 fat (UInt8.toNat 1) = some fat :=
    (if_pos (show fat * 1 < 2 ^ 64 by omega)).trans (congrArg some (Nat.mul_one fat))
  have hfatEnd : checkedAdd64 fatOffset fat = some heap := by
    rw [hheap]
    exact if_pos (show fatOffset + fat < 2 ^ 64 by omega)
  have hentries : checkedAdd64 clusters 2 = some (clusters + 2) := if_pos (by omega)
  have hbytes : checkedMul64 (clusters + 2) 4 = some ((clusters + 2) * 4) := if_pos (by omega)
  have hheapEnd : checkedAdd64 heap (clusters * clusterSectors sectors) =
      some (heap + clusters * clusterSectors sectors) := if_pos (by omega)
  simp only [wp_bind, wp_u32, wp_ite, wp_throw, wp_okOr, wp_divCeil, wp_u64, wp_pure]
  simp only [formatGeometry, hfats, hfatEnd, hentries, hbytes, hheapEnd, Option.some.injEq,
    forall_eq', reduceCtorEq, false_implies, and_true]
  refine ⟨by omega, fun hone => hone (Or.inl rfl), fun _ =>
    ⟨by omega, fun _ => ⟨by decide, ?_, ?_⟩⟩⟩
  · omega
  · exact fun _ => ⟨by omega, by omega, fun _ => rfl⟩

/-! ### The root directory -/

lemma foldl_rotAdd_lt {bs : List UInt8} {sum : ℕ} (h : sum < 2 ^ 32) :
    bs.foldl (rotAdd 32) sum < 2 ^ 32 := by
  induction bs generalizing sum with
  | nil => exact h
  | cons b bs ih => exact ih (rotAdd_lt sum b)

/-- The fields of the root directory with the checksum of the UpCase table. -/
def rootFields (g : Geometry) (checksum : ℕ) : List (ℕ × List UInt8) :=
  [(0, [0x81]), (20, leBytes 4 3), (24, leBytes 8 (bitmapBytes g)), (32, [0x82]),
    (36, leBytes 4 checksum), (52, leBytes 4 (upcaseFirst g)), (56, leBytes 8 upcaseBytes)]

/-- The slots of the root directory: the bitmap, the UpCase table and the end. -/
structure RootSlots (g : Geometry) (checksum : ℕ) (m : Image) : Prop where
  bitmap : m 0 = 0x81 ∧ m 1 = 0
  bitmapFirst : ofLe (Image.slice m 20 4) = 3
  bitmapLength : ofLe (Image.slice m 24 8) = bitmapBytes g
  upcase : m 32 = 0x82
  checksum : ofLe (Image.slice m 36 4) = checksum
  upcaseFirst : ofLe (Image.slice m 52 4) = upcaseFirst g
  upcaseLength : ofLe (Image.slice m 56 8) = upcaseBytes
  stop : m 64 = 0

lemma rootSlots_of_fields {g : Geometry} {checksum : ℕ} {m : Image}
    (hm : m = sectorOf (rootFields g checksum)) (hchecksum : checksum < 2 ^ 32)
    (hbitmap : bitmapBytes g < 2 ^ 32) (hupcase : upcaseFirst g < 2 ^ 32) :
    RootSlots g checksum m := by
  have hascending : Ascending (rootFields g checksum) := by simp [rootFields, Ascending]
  have hfield {off n v : ℕ} (hmem : (off, leBytes n v) ∈ rootFields g checksum)
      (hv : v < 256 ^ n) : ofLe (Image.slice m off n) = v := by
    rw [hm]
    exact ofLe_sectorOf hascending hmem hv
  refine
    { bitmap := ?_
      bitmapFirst := hfield ?_ (by decide)
      bitmapLength := hfield ?_ (by omega)
      upcase := ?_
      checksum := hfield ?_ (by omega)
      upcaseFirst := hfield ?_ (by omega)
      upcaseLength := hfield ?_ (by decide)
      stop := ?_ } <;>
    simp [hm, rootFields, sectorOf, overlaid, Image.patch]

variable {g : Geometry} {m : Image} {checksum : ℕ}

lemma systemEntry_bitmap (h : RootSlots g checksum m) (hfats : g.numberOfFats = 1)
    (hactive : g.activeFat = 0) :
    systemEntry g (Image.slice m (0 * 32) 32) {} =
      .ok (.inr { bitmap := some ⟨3, bitmapBytes g⟩ }) := by
  simp [systemEntry, byteAt_slice, numAt_slice, h.bitmap, h.bitmapFirst, h.bitmapLength, hfats,
    hactive]

lemma systemEntry_upcase (h : RootSlots g checksum m) (b : AllocationBitmap) :
    systemEntry g (Image.slice m (1 * 32) 32) { bitmap := some b } =
      .ok (.inr { bitmap := some b, upcase := some ⟨checksum, upcaseFirst g, upcaseBytes⟩ }) := by
  simp [systemEntry, byteAt_slice, numAt_slice, h.upcase, h.checksum, h.upcaseFirst,
    h.upcaseLength]

lemma systemEntry_stop (h : RootSlots g checksum m) (b : AllocationBitmap) (u : UpCaseTable) :
    systemEntry g (Image.slice m (2 * 32) 32) { bitmap := some b, upcase := some u } =
      .ok (.inl (b, u, VolumeLabel.empty)) := by
  simp [systemEntry, byteAt_slice, h.stop]

lemma root_slots (h : Planned sectors fat heap clusters) :
    RootSlots (formatGeometry sectors fat heap clusters) (wordsChecksum 65536)
      (rootSector (formatGeometry sectors fat heap clusters)) := by
  have hcount := h.count
  have hroom := h.room
  refine rootSlots_of_fields rfl (foldl_rotAdd_lt (Nat.two_pow_pos 32)) ?_ ?_
  · change (clusters + 7) / 8 < 2 ^ 32
    omega
  · unfold reserved at hroom
    unfold upcaseFirst
    omega

lemma systemSector_opened (ho : Opened sectors fat heap clusters r) (hs : Still r s) :
    wp (systemSector (formatGeometry sectors fat heap clusters)
        (heapLba (formatGeometry sectors fat heap clusters) 2) 0 {})
      (fun o t => o = .inl ((formatVolume (formatGeometry sectors fat heap clusters)).bitmap,
        (formatVolume (formatGeometry sectors fat heap clusters)).upcase, VolumeLabel.empty) ∧
        Still r t) (fun _ _ => False) s := by
  have hslots := root_slots ho.planned
  have hroot := ho.fresh.root
  have hsound := sound_formatGeometry ho.planned
  have hin := hsound.lt_of_inPartition (hsound.heap_sector hsound.root (i := 0) hsound.spc_pos)
  set g := formatGeometry sectors fat heap clusters with hg
  change heapLba g 2 + 0 < _ ∧ heapLba g 2 + 0 < _ at hin
  unfold systemSector
  rw [wp_bind, wp_u64]
  refine ⟨hin.2, ?_⟩
  rw [wp_bind]
  refine wp_mono _ (readSector_opened ho hs hin.1) ?_ fun _ _ h => h
  rintro _ t ⟨ht, hbytes⟩
  have hslot {k : ℕ} {f : FoundSoFar} {o : SystemEntries ⊕ FoundSoFar} (hk : k < 16)
      (ho' : systemEntry g (Image.slice (rootSector g) (k * 32) 32) f = .ok o) :
      systemSlot g k f t = (.ok o, t) := by
    have hslice : scratchSlice g.bytesPerSector (k * 32) 32 t =
        (.ok (Image.slice (rootSector g) (k * 32) 32), t) := by
      have hsame : Image.slice t.scratch.bytes (k * 32) 32 =
          Image.slice (rootSector g) (k * 32) 32 :=
        Image.slice_congr fun i _ hi => (hbytes i (by omega)).trans (hroot i (by omega))
      have := ho.scratch
      have := ht.scratchLen
      rw [scratchSlice_apply, if_pos ⟨show k * 32 + 32 ≤ 512 by omega, show 512 ≤ _ by omega⟩,
        hsame]
    unfold systemSlot
    rw [bind_ok hslice, ho']
    rfl
  have hsize : g.bytesPerSector / 32 = 13 + 3 := by simp [hg, formatGeometry]
  rw [hsize, loop_succ]
  refine (wp_ok ?_).mpr ⟨rfl, ht⟩
  rw [bind_ok (hslot (by decide) (systemEntry_bitmap hslots rfl rfl))]
  simp only
  rw [loop_succ, bind_ok (hslot (by decide) (systemEntry_upcase hslots _))]
  simp only
  rw [loop_succ, bind_ok (hslot (by decide) (systemEntry_stop hslots _ _))]
  rfl

/-- **The system entries which `mount` discovers are those which the formatter wrote.** -/
theorem discoverRootSystemEntries_opened (ho : Opened sectors fat heap clusters r)
    (hs : Still r s) :
    wp (discoverRootSystemEntries (formatGeometry sectors fat heap clusters))
      (fun o t => o = ((formatVolume (formatGeometry sectors fat heap clusters)).bitmap,
        (formatVolume (formatGeometry sectors fat heap clusters)).upcase, VolumeLabel.empty) ∧
        Still r t) (fun _ _ => False) s := by
  have hsound := sound_formatGeometry ho.planned
  have hsector := systemSector_opened ho hs
  have hroot : (formatGeometry sectors fat heap clusters).InHeap 2 := hsound.root
  obtain ⟨n, hn⟩ := Nat.exists_eq_succ_of_ne_zero hsound.clusterCount.1.ne'
  obtain ⟨k, hk⟩ := Nat.exists_eq_succ_of_ne_zero hsound.spc_pos.ne'
  set g := formatGeometry sectors fat heap clusters with hg
  unfold discoverRootSystemEntries
  rw [hn, wp_bind, loop_succ, wp_bind]
  unfold systemCluster
  simp only
  rw [show g.rootCluster = 2 from rfl, hsound.clusterLba_eq hroot, pure_bind, okOr_some,
    pure_bind, hk, wp_bind, loop_succ, wp_bind]
  refine wp_mono _ hsector ?_ fun _ _ h => h
  rintro o t ⟨rfl, ht⟩
  exact ⟨rfl, ht⟩

/-! ### The FAT -/

lemma fatEntry_fresh {d : Sectors} (h : Planned sectors fat heap clusters)
    (hd : Fresh (formatGeometry sectors fat heap clusters) d) {c : ℕ}
    (hc : c < clusters + 2) :
    fatEntry (formatGeometry sectors fat heap clusters) d c =
      fatValue 3 (bitmapLen (formatGeometry sectors fat heap clusters))
        (upcaseFirst (formatGeometry sectors fat heap clusters))
        (upcaseLen (formatGeometry sectors fat heap clusters)) c := by
  have hcount := h.count
  have hroom := h.room
  have hfat := h.fatRoom
  have hsectors := hd.fat
  set g := formatGeometry sectors fat heap clusters with hg
  have hstart : fatStart g = 25 := by simp [fatStart, hg, formatGeometry, fatOffset, bootSectors]
  have hlt : fatValue 3 (bitmapLen g) (upcaseFirst g) (upcaseLen g) c < 2 ^ 32 := by
    unfold fatValue eoc
    split_ifs <;> omega
  have hlen : c * 4 / 512 < g.fatLength := by
    change _ < fat
    omega
  have hbyte : ∀ i < (leBytes 4 (fatValue 3 (bitmapLen g) (upcaseFirst g) (upcaseLen g) c)).length,
      d (25 + c * 4 / 512) (c * 4 % 512 + i) =
        (leBytes 4 (fatValue 3 (bitmapLen g) (upcaseFirst g) (upcaseLen g) c)).getD i 0 := by
    intro i hi
    rw [leBytes_length] at hi
    rw [hsectors _ hlen _ (by omega)]
    unfold fatSectors
    rw [show (25 + c * 4 / 512 - 25) * 128 + (c * 4 % 512 + i) / 4 = c by omega,
      show (c * 4 % 512 + i) % 4 = i by omega]
  have hslice := Image.slice_ext hbyte
  rw [leBytes_length] at hslice
  unfold fatEntry fatLba
  rw [hstart]
  change ofLe (Image.slice (d (25 + c * 4 / 512)) (c * 4 % 512) 4) = _
  rw [hslice, ofLe_leBytes_of_lt (by omega)]

lemma link_run {g : Geometry} {d : Sectors} {first n : ℕ}
    (h : ∀ i, i + 1 < n → fatEntry g d (first + i) = first + i + 1) {i : ℕ} (hi : i < n) :
    link g d first i = first + i := by
  induction i with
  | zero => rfl
  | succ i ih => rw [link_succ, ih (by omega), h i hi]; rfl

/-- The entries of the bitmap and of the UpCase table are chains of consecutive clusters. -/
structure Chained (g : Geometry) (d : Sectors) (first n : ℕ) : Prop where
  next : ∀ i, i + 1 < n → fatEntry g d (first + i) = first + i + 1
  last : ∀ i, i + 1 = n → fatEntry g d (first + i) = 0xffffffff

lemma Chained.extent {g : Geometry} {d : Sectors} {first n : ℕ} (h : Chained g d first n) :
    extent g d first false n = List.range' first n := by
  unfold Tree.extent
  rw [List.range'_eq_map_range]
  refine List.map_congr_left fun i hi => ?_
  exact link_run h.next (List.mem_range.mp hi)

lemma Chained.ends {g : Geometry} {d : Sectors} {first n : ℕ} (h : Chained g d first n)
    (hn : n ≠ 0) : ChainEnds g d first false n := by
  intro _
  rw [if_neg hn]
  obtain ⟨k, rfl⟩ := Nat.exists_eq_succ_of_ne_zero hn
  change link g d first (k + 1) = _
  rw [link_succ, link_run h.next (Nat.lt_succ_self k), h.last k rfl]

section Chains

variable {d : Sectors} (h : Planned sectors fat heap clusters)
  (hd : Fresh (formatGeometry sectors fat heap clusters) d)

include h hd

lemma chained_root : Chained (formatGeometry sectors fat heap clusters) d 2 1 := by
  have hroom := h.room
  unfold reserved at hroom
  refine ⟨fun i hi => by omega, fun i hi => ?_⟩
  obtain rfl : i = 0 := by omega
  rw [fatEntry_fresh h hd (by omega)]
  simp [fatValue, eoc]

lemma chained_bitmap : Chained (formatGeometry sectors fat heap clusters) d 3
    (bitmapLen (formatGeometry sectors fat heap clusters)) := by
  have hroom := h.room
  unfold reserved at hroom
  refine ⟨fun i hi => ?_, fun i hi => ?_⟩
  · rw [fatEntry_fresh h hd (by omega), fatValue, if_neg (by omega), if_neg (by omega),
      if_pos (by omega), if_pos (by omega)]
  · rw [fatEntry_fresh h hd (by omega), fatValue, if_neg (by omega), if_neg (by omega),
      if_pos (by omega), if_neg (by omega)]
    rfl

lemma chained_upcase : Chained (formatGeometry sectors fat heap clusters) d
    (upcaseFirst (formatGeometry sectors fat heap clusters))
    (upcaseLen (formatGeometry sectors fat heap clusters)) := by
  have hroom := h.room
  have hfirst : upcaseFirst (formatGeometry sectors fat heap clusters) =
    3 + bitmapLen (formatGeometry sectors fat heap clusters) := rfl
  unfold reserved at hroom
  refine ⟨fun i hi => ?_, fun i hi => ?_⟩
  · rw [fatEntry_fresh h hd (by omega), fatValue, if_neg (by omega), if_neg (by omega),
      if_neg (by omega), if_pos (by omega), if_pos (by omega)]
  · rw [fatEntry_fresh h hd (by omega), fatValue, if_neg (by omega), if_neg (by omega),
      if_neg (by omega), if_pos (by omega), if_neg (by omega)]
    rfl

end Chains

/-! ### The UpCase table -/

/-- The checksum of the first `n` bytes of the UpCase table. -/
def tableSum (n : ℕ) : ℕ := (Image.slice upcaseByte 0 n).foldl (rotAdd 32) 0

lemma tableSum_add (a n : ℕ) :
    tableSum (a + n) = (Image.slice upcaseByte a n).foldl (rotAdd 32) (tableSum a) := by
  unfold tableSum
  rw [Image.slice_add, List.foldl_append, Nat.zero_add]

lemma tableSum_words (n : ℕ) : tableSum (n * 2) = wordsChecksum n := by
  have hslice : Image.slice upcaseByte 0 (upcaseWords 0 n).length = upcaseWords 0 n :=
    Image.slice_ext fun i hi => by
      rw [upcaseWords_length] at hi
      rw [upcaseWords_getD hi, Nat.zero_mul]
  rw [upcaseWords_length] at hslice
  unfold tableSum wordsChecksum
  rw [hslice]

lemma upcaseLen_mul (sectors fat heap clusters : ℕ) :
    upcaseLen (formatGeometry sectors fat heap clusters) * clusterSectors sectors = 256 := by
  unfold upcaseLen clustersFor formatGeometry upcaseBytes
  simp only
  rcases clusterSectors_cases sectors with ⟨hspc, -⟩ | ⟨hspc, -⟩ | hspc <;> rw [hspc]
    <;> decide

lemma upcase_end (h : Planned sectors fat heap clusters) :
    heapLba (formatGeometry sectors fat heap clusters)
      (upcaseFirst (formatGeometry sectors fat heap clusters)) + 256 ≤ sectors + 1 := by
  have hend := h.heapEnd
  have hmul := upcaseLen_mul sectors fat heap clusters
  have hle := Nat.mul_le_mul_right (clusterSectors sectors) h.room
  set g := formatGeometry sectors fat heap clusters with hg
  have hfirst : heapLba g (upcaseFirst g) = 1 + heap + (1 + bitmapLen g) * clusterSectors
      sectors := by
    unfold heapLba upcaseFirst
    rw [show 3 + bitmapLen g - 2 = 1 + bitmapLen g by omega]
    rfl
  unfold reserved at hle
  rw [Nat.add_mul, hmul] at hle
  omega

/-- What `validate_upcase_table` has in hand in front of sector `k` of the table. -/
def tableAt (total k : ℕ) : ℕ × ℕ := (total - k * 512, tableSum (k * 512))

lemma upcaseSector_opened (ho : Opened sectors fat heap clusters r) (hs : Still r s) {lba k j : ℕ}
    (hlba : lba + j = heapLba (formatGeometry sectors fat heap clusters)
      (upcaseFirst (formatGeometry sectors fat heap clusters)) + k) (hk : k < 256) :
    wp (upcaseSector (formatGeometry sectors fat heap clusters) lba j (tableAt upcaseBytes k))
      (fun o t => o = .inr (tableAt upcaseBytes (k + 1)) ∧ Still r t) (fun _ _ => False) s := by
  have hend := upcase_end ho.planned
  have hlarge := ho.planned.large
  have hbytes : upcaseBytes = 256 * 512 := rfl
  have hleft : min (upcaseBytes - k * 512) 512 = 512 := by omega
  unfold upcaseSector tableAt
  simp only
  rw [wp_ite]
  refine ⟨fun hz => by omega, fun _ => ?_⟩
  rw [wp_bind, wp_u64]
  refine ⟨by omega, ?_⟩
  change wp (do
    readSector 512 (lba + j)
    let bytes ← scratchSlice 512 0 (min (upcaseBytes - k * 512) 512)
    pure (.inr (upcaseBytes - k * 512 - min (upcaseBytes - k * 512) 512,
      bytes.foldl (rotAdd 32) (tableSum (k * 512)))) : FsM ((ℕ × ℕ) ⊕ (ℕ × ℕ))) _ _ s
  rw [hleft]
  refine wp_readWhole ho hs (fun i => upcaseByte (k * 512 + i)) (by omega) ?_ fun t ht => ?_
  · rw [hlba]
    exact ho.fresh.upcase k hk
  · rw [slice_shift, Nat.add_zero, ← tableSum_add, show k * 512 + 512 = (k + 1) * 512 by omega]
    exact ⟨by rw [show upcaseBytes - k * 512 - 512 = upcaseBytes - (k + 1) * 512 by omega], ht⟩

lemma nextClusterOn_opened (ho : Opened sectors fat heap clusters r) (hs : Still r s) {c : ℕ}
    (hc : (formatGeometry sectors fat heap clusters).InHeap c) :
    wp (nextClusterOn (formatGeometry sectors fat heap clusters) c)
      (fun v t => v.1 = fatEntry (formatGeometry sectors fat heap clusters) r.device.sectors c ∧
        Still r t) (fun _ _ => False) s := by
  have hsound := sound_formatGeometry ho.planned
  have hlt := (hsound.inHeap_iff.mp hc).2.2
  have hoff := hsound.fat_offset_le c
  have hlba := hsound.lt_of_inPartition (hsound.fat_inPartition hc)
  have hscratch := ho.scratch
  set g := formatGeometry sectors fat heap clusters with hg
  have hsize : g.bytesPerSector = 512 := rfl
  unfold nextClusterOn
  simp only [wp_bind, wp_u64, hsound.fatLbaForByte_eq hc, wp_pure, wp_okOr, wp_rem]
  refine ⟨by omega, fun lba hlba' => ?_, nofun⟩
  cases hlba'
  refine ⟨by omega, wp_mono _ (readSector_opened ho hs hlba.1) ?_ fun _ _ h => h⟩
  rintro _ t ⟨ht, hbytes⟩
  have := ht.scratchLen
  rw [wp_scratchSlice' (by omega) hoff]
  refine ⟨?_, ht⟩
  unfold fatEntry
  rw [Image.slice_congr fun i _ hi => hbytes i (by omega)]

lemma upcaseCluster_opened (ho : Opened sectors fat heap clusters r) (hs : Still r s) {i : ℕ}
    (hi : i < upcaseLen (formatGeometry sectors fat heap clusters)) :
    wp (upcaseCluster (formatGeometry sectors fat heap clusters)
        (upcaseFirst (formatGeometry sectors fat heap clusters) + i,
          tableAt upcaseBytes (i * clusterSectors sectors)))
      (Sum.elim
        (fun sum t => sum = wordsChecksum 65536 ∧ Still r t)
        (fun v t => i + 1 < upcaseLen (formatGeometry sectors fat heap clusters) ∧
          v = (upcaseFirst (formatGeometry sectors fat heap clusters) + (i + 1),
            tableAt upcaseBytes ((i + 1) * clusterSectors sectors)) ∧ Still r t))
      (fun _ _ => False) s := by
  have hsound := sound_formatGeometry ho.planned
  have hroom := ho.planned.room
  have hcount := ho.planned.count
  have hmul := upcaseLen_mul sectors fat heap clusters
  have hspc := clusterSectors_pos sectors
  have hle : (i + 1) * clusterSectors sectors ≤ 256 := by
    rw [← hmul]
    exact Nat.mul_le_mul_right _ hi
  have hsectors := fun (t : Machine) (ht : Still r t) (k j lba : ℕ)
    (hlba : lba + j = heapLba (formatGeometry sectors fat heap clusters)
      (upcaseFirst (formatGeometry sectors fat heap clusters)) + k) (hk : k < 256) =>
    upcaseSector_opened ho ht hlba hk
  have hnexts := fun (t : Machine) (ht : Still r t) {c : ℕ}
    (hc : (formatGeometry sectors fat heap clusters).InHeap c) => nextClusterOn_opened ho ht hc
  have hchain := chained_upcase ho.planned ho.fresh
  set g := formatGeometry sectors fat heap clusters with hg
  unfold reserved at hroom
  rw [Nat.add_mul, Nat.one_mul] at hle
  have hbytes : upcaseBytes = 256 * 512 := rfl
  have hheap : g.InHeap (upcaseFirst g + i) := by
    refine hsound.inHeap_iff.mpr ⟨by unfold upcaseFirst; omega, ?_, by unfold upcaseFirst; omega⟩
    change _ < clusters + 2
    unfold upcaseFirst
    omega
  have hlba : heapLba g (upcaseFirst g + i) = heapLba g (upcaseFirst g) +
      i * clusterSectors sectors := by
    unfold heapLba upcaseFirst
    rw [show 3 + bitmapLen g + i - 2 = 3 + bitmapLen g - 2 + i by omega, Nat.add_mul,
      ← Nat.add_assoc]
    rfl
  unfold upcaseCluster tableAt
  simp only
  rw [wp_ite]
  refine ⟨fun hz => by omega, fun _ => ?_⟩
  rw [hsound.clusterLba_eq hheap, pure_bind, okOr_some, pure_bind, wp_bind]
  refine wp_loop_post (fun j v t => v = tableAt upcaseBytes (i * clusterSectors sectors + j) ∧
    Still r t) ⟨rfl, hs⟩ ?_ ?_
  · rintro j v t - hj ⟨rfl, ht⟩
    rw [Nat.zero_add] at hj
    change j < clusterSectors sectors at hj
    refine wp_mono _ (hsectors t ht (i * clusterSectors sectors + j) j _ (by rw [hlba]; omega)
      (by omega)) ?_ fun _ _ h => h
    rintro o u ⟨rfl, hu⟩
    exact ⟨rfl, hu⟩
  · rintro ⟨left, sum⟩ t ⟨hv, ht⟩
    rw [Nat.zero_add] at hv
    change wp (if left ≠ 0 then _ else _) _ _ t
    rw [wp_ite]
    obtain ⟨rfl, rfl⟩ : left =
        upcaseBytes - (i * clusterSectors sectors + clusterSectors sectors) * 512 ∧
        sum = tableSum ((i * clusterSectors sectors + clusterSectors sectors) * 512) :=
      Prod.mk.inj hv
    refine ⟨fun hmore => ?_, fun hdone => ?_⟩
    · have hlt : i + 1 < upcaseLen g := by
        by_contra hge
        have hlast : upcaseLen g = i + 1 := by omega
        rw [hlast, Nat.add_mul, Nat.one_mul] at hmul
        omega
      have hnext : g.InHeap (upcaseFirst g + (i + 1)) := by
        refine hsound.inHeap_iff.mpr ⟨by unfold upcaseFirst; omega,
          ?_, by unfold upcaseFirst; omega⟩
        change _ < clusters + 2
        unfold upcaseFirst
        omega
      rw [wp_bind]
      refine wp_mono _ (hnexts t ht hheap) ?_ fun _ _ h => h
      rintro ⟨next, fatLba, raw⟩ u ⟨hvalue, hu⟩
      rw [hchain.next i hlt] at hvalue
      simp only [Sum.elim_inr, id_eq] at hvalue ⊢
      rw [hvalue, wp_ite]
      refine ⟨fun _ => ⟨hlt, ?_, hu⟩, fun hout => absurd hnext hout⟩
      rw [Nat.add_one_mul i, Nat.add_assoc]
    · refine ⟨?_, ht⟩
      simp only [Sum.elim_inr, id_eq]
      rw [← tableSum_words]
      congr 1
      omega

/-- **The UpCase table is valid.** -/
theorem upcaseIsValid_opened (ho : Opened sectors fat heap clusters r) (hs : Still r s)
    {table : UpCaseTable}
    (hfirst : table.firstCluster = upcaseFirst (formatGeometry sectors fat heap clusters))
    (hlength : table.byteLength = upcaseBytes) (hchecksum : table.checksum = wordsChecksum 65536) :
    wp (upcaseIsValid (formatGeometry sectors fat heap clusters) table)
      (fun valid t => valid = true ∧ Still r t) (fun _ _ => False) s := by
  have hcluster := fun (t : Machine) (ht : Still r t) {i : ℕ}
    (hi : i < upcaseLen (formatGeometry sectors fat heap clusters)) => upcaseCluster_opened ho ht hi
  have hmul := upcaseLen_mul sectors fat heap clusters
  have hroom := ho.planned.room
  have hspc := clusterSectors_pos sectors
  set g := formatGeometry sectors fat heap clusters with hg
  have hpos : 0 < upcaseLen g := by
    by_contra hz
    rw [Nat.eq_zero_of_not_pos hz, Nat.zero_mul] at hmul
    omega
  have hbytes : upcaseBytes = 256 * 512 := rfl
  have hlow : upcaseFirst g = 3 + bitmapLen g := rfl
  unfold reserved at hroom
  unfold upcaseIsValid validateUpcaseTable
  rw [wp_bind, wp_attempt, wp_ite]
  refine ⟨fun hdescriptor => by omega, fun _ => ?_⟩
  rw [wp_bind, hfirst, hlength]
  refine wp_loop_post (fun i v t => i < upcaseLen g ∧ v = (upcaseFirst g + i,
    tableAt upcaseBytes (i * clusterSectors sectors)) ∧ Still r t) ⟨hpos, ?_, hs⟩ ?_ ?_
  · rw [Nat.zero_mul]
    rfl
  · rintro i v t - - ⟨hi, rfl, ht⟩
    refine wp_mono _ (hcluster t ht hi) ?_ fun _ _ h => h.elim
    rintro (sum | v) u hu
    · obtain ⟨hsum, hu⟩ := hu
      simp only [Sum.elim_inl, wp_ite, wp_throw, wp_pure]
      exact ⟨fun hne => absurd (hsum.trans hchecksum.symm) hne, fun _ => ⟨trivial, hu⟩⟩
    · exact hu
  · rintro v t ⟨hi, -, -⟩
    change 0 + clusters < upcaseLen g at hi
    omega

/-! ### Mounting -/

/-- **`mount` accepts a formatted device** and finds the volume which the formatter has made. -/
theorem mount_opened (ho : Opened sectors fat heap clusters r) :
    wp mount (fun vol t => vol = formatVolume (formatGeometry sectors fat heap clusters) ∧
      Still r t) (fun _ _ => False) r := by
  have hboot : ∀ i < 512, r.device.sectors (1 + 0) i =
      sectorOf (bootFields (formatGeometry sectors fat heap clusters)) i := fun i hi => by
    rw [ho.fresh.boot 0 (by decide) i hi]
    rfl
  have hsmall := ho.planned.small
  set g := formatGeometry sectors fat heap clusters with hg
  unfold mount mountPartition selectBootRegion mapCorrupt
  rw [wp_bind, wp_get]
  beta_reduce
  rw [ho.sectorSize]
  change wp (do
    let partition ← selectPartition 512
    _) _ _ r
  rw [wp_bind]
  refine wp_mono _ (selectPartition_opened ho) ?_ fun _ _ h => h
  rintro _ t ⟨rfl, ht⟩
  rw [wp_bind, wp_bind, wp_attempt]
  refine wp_mono _ (validateBootChecksum_opened ho ht) ?_ fun _ _ h => h.elim
  rintro _ u hu
  simp only [wp_pure]
  rw [wp_bind, wp_u64]
  refine ⟨by decide, ?_⟩
  refine wp_readWhole ho hu (sectorOf (bootFields g)) (show 1 + 0 < sectors + 1 by omega) hboot
    fun v hv => ?_
  generalize hsector : Image.slice (sectorOf (bootFields g)) 0 512 = boot
  rw [wp_bind, wp_bind, wp_attempt]
  refine wp_mono _ (parseBoot_opened ho.planned hsector.symm) ?_ fun _ _ h => h.elim
  rintro _ w ⟨rfl, rfl⟩
  simp only [wp_pure]
  rw [wp_bind, wp_bind, wp_attempt]
  refine wp_mono _ (discoverRootSystemEntries_opened ho hv) ?_ fun _ _ h => h.elim
  rintro _ x ⟨rfl, hx⟩
  simp only [wp_pure]
  rw [wp_bind]
  refine wp_mono _ (upcaseIsValid_opened ho hx ?_ ?_ ?_) ?_ fun _ _ h => h
  · simp only [formatVolume]
  · simp only [formatVolume]
  · simp only [formatVolume]
  rintro _ y ⟨rfl, hy⟩
  exact ⟨rfl, hy⟩

end Opened

end ExfatEmbedded.FormatMount
