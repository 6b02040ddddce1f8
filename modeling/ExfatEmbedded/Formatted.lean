import ExfatEmbedded.FormatMedia
import ExfatEmbedded.FreeSpace
import ExfatEmbedded.Tree

/-!
What the formatter leaves is what `mount` accepts.
-/

namespace ExfatEmbedded.Formatted

open ExfatEmbedded.Library Exec ExfatEmbedded.Core ExfatEmbedded.Entry ExfatEmbedded.Allocation
open ExfatEmbedded.Mount ExfatEmbedded.Format ExfatEmbedded.FormatMedia ExfatEmbedded.Reading
open ExfatEmbedded.StreamSafety ExfatEmbedded.Media ExfatEmbedded.Writing ExfatEmbedded.Tree

/-! ### The layout -/

/-- The geometry for a partition of `sectors` sectors with the given layout. -/
def formatGeometry (sectors fat heap clusters : ℕ) : Geometry :=
  ⟨⟨1, sectors⟩, 512, clusterSectors sectors, fatOffset, fat, 1, 0, heap, clusters, 2⟩

section Regions

variable (g : Geometry)

/-- The length of the allocation bitmap. -/
def bitmapBytes : ℕ := (g.clusterCount + 7) / 8

/-- The number of clusters of the allocation bitmap, the first of which is 3. -/
def bitmapLen : ℕ := clustersFor g (bitmapBytes g)

/-- The first cluster of the UpCase table. -/
def upcaseFirst : ℕ := 3 + bitmapLen g

/-- The number of clusters of the UpCase table. -/
def upcaseLen : ℕ := clustersFor g upcaseBytes

/-- The number of clusters of the root directory, the bitmap and the UpCase table. -/
def reserved : ℕ := 1 + bitmapLen g + upcaseLen g

/-- The volume which the formatter makes. -/
def formatVolume : Volume :=
  ⟨g, ⟨3, bitmapBytes g⟩, ⟨wordsChecksum 65536, upcaseFirst g, upcaseBytes⟩, true,
    VolumeLabel.empty⟩

def mbrSector : Image :=
  sectorOf [(450, [0x07]), (454, leBytes 4 1), (458, leBytes 4 g.partition.sectorCount),
    (510, [0x55, 0xaa])]

def rootSector : Image :=
  sectorOf [(0, [0x81]), (20, leBytes 4 3), (24, leBytes 8 (bitmapBytes g)), (32, [0x82]),
    (36, leBytes 4 (wordsChecksum 65536)), (52, leBytes 4 (upcaseFirst g)),
    (56, leBytes 8 upcaseBytes)]

/-- The sectors of the boot region which starts in sector `start`. -/
def bootRegion (start : ℕ) : Sectors :=
  regionSectors g.partition.sectorCount g.fatLength g.clusterHeapOffset g.clusterCount
    g.sectorsPerCluster start

def bootChecksum : ℕ :=
  regionChecksum g.partition.sectorCount g.fatLength g.clusterHeapOffset g.clusterCount
    g.sectorsPerCluster 11

/-- The media with the two boot regions. -/
def bootMedia (d : Sectors) : Sectors :=
  laid (laid (laid (laid (laid d 0 1 fun _ => mbrSector g) 1 11 (bootRegion g 1)) 12 1
    fun _ => checksumSector (bootChecksum g)) 13 11 (bootRegion g 13)) 24 1
    fun _ => checksumSector (bootChecksum g)

/-- The media with the FAT and the bitmap. -/
def tablesMedia (d : Sectors) : Sectors :=
  laid (laid (bootMedia g d) 25 g.fatLength
    (fatSectors 25 3 (bitmapLen g) (upcaseFirst g) (upcaseLen g))) (heapLba g 3)
    ((bitmapBytes g + 511) / 512) (bitmapSectors (heapLba g 3) (reserved g))

/-- The media behind a formatting. -/
def formatMedia (d : Sectors) : Sectors :=
  laid (laid (tablesMedia g d) (heapLba g (upcaseFirst g)) 256
    (upcaseSectors (heapLba g (upcaseFirst g)))) (heapLba g 2) 1 fun _ => rootSector g

end Regions

/-- A layout in which every region has its place. -/
structure Planned (sectors fat heap clusters : ℕ) : Prop where
  small : 536 ≤ sectors
  large : sectors < 2 ^ 32
  heapStart : heap = fatOffset + fat
  heapEnd : heap + clusters * clusterSectors sectors ≤ sectors
  fatRoom : (clusters + 2) * 4 ≤ fat * 512
  count : clusters + 2 < 2 ^ 32
  room : reserved (formatGeometry sectors fat heap clusters) ≤ clusters

lemma clusterSectors_cases (sectors : ℕ) :
    clusterSectors sectors = 1 ∧ sectors < 131072 ∨
      clusterSectors sectors = 16 ∧ sectors < 1048576 ∨ clusterSectors sectors = 64 := by
  unfold clusterSectors
  split_ifs <;> omega

lemma wlp_run {α : Type} {m : FsM α} {Q : α → Machine → Prop} {s : Machine} (h : wlp m Q s) :
    wlp m (fun a t => Q a t ∧ (m s).1 = .ok a) s :=
  fun a t hrun => ⟨h a t hrun, by rw [hrun]⟩

lemma layoutRound_plans {sectors spc fat : ℕ} {s : Machine} :
    wlp (layoutRound sectors spc fat)
      (Sum.elim (fun r t => t = s ∧ spc ≠ 0 ∧ r.2.1 = fatOffset + r.1 ∧ r.2.1 ≤ sectors ∧
          r.2.2 = (sectors - r.2.1) / spc % 2 ^ 32 ∧ r.2.2 + 2 < 2 ^ 32 ∧
          ((r.2.2 + 2) * 4 + 511) / 512 % 2 ^ 32 = r.1)
        (fun _ t => t = s)) s := by
  simp only [layoutRound, wlp_bind, wlp_okOr, wlp_div, wlp_u32, wlp_divCeil, wlp_ite, wlp_pure,
    checkedAdd32, checkedSub]
  intro heap hheap room hroom hspc hfit _
  split_ifs at hheap with h1
  split_ifs at hroom with h2
  cases hheap
  cases hroom
  refine ⟨fun hneeded => ⟨rfl, hspc, rfl, h2, rfl, hfit, ?_⟩, fun _ => rfl⟩
  exact hneeded

lemma layout_plans {sectors spc : ℕ} {s : Machine} :
    wlp (layout sectors spc) (fun r t => t = s ∧ spc ≠ 0 ∧ r.2.1 = fatOffset + r.1 ∧
      r.2.1 ≤ sectors ∧ r.2.2 = (sectors - r.2.1) / spc % 2 ^ 32 ∧ r.2.2 + 2 < 2 ^ 32 ∧
      ((r.2.2 + 2) * 4 + 511) / 512 % 2 ^ 32 = r.1) s := by
  unfold layout
  rw [wlp_bind]
  refine wlp_loop (fun _ _ t => t = s) rfl ?_ ?_
  · rintro _ fat t - - rfl
    refine wlp_mono _ layoutRound_plans ?_
    rintro (r | fat') u hu
    · simp only [Sum.elim_inl] at hu ⊢
      rw [wlp_pure]
      exact hu
    · exact hu
  · rintro fat t -
    simp only [wlp_throw]


/-! ### The media behind a formatting -/

lemma writeBootRegions_lays {length fat heap clusters spc : ℕ} {s : Machine} :
    wlp (writeBootRegions length fat heap clusters spc) (fun _ t => Formats s t
      (laid (laid (laid (laid s.device.sectors 1 11
        (regionSectors length fat heap clusters spc 1)) 12 1
          fun _ => checksumSector (regionChecksum length fat heap clusters spc 11)) 13 11
        (regionSectors length fat heap clusters spc 13)) 24 1
          fun _ => checksumSector (regionChecksum length fat heap clusters spc 11))) s := by
  unfold writeBootRegions
  rw [wlp_bind]
  refine wlp_mono _ writeBootRegion_lays ?_
  rintro sum t ⟨hsum, ht⟩
  rw [hsum]
  rw [wlp_bind]
  refine wlp_mono _ writeBootChecksum_lays ?_
  intro _ u hu
  rw [ht.sectors] at hu
  have hsu := ht.trans hu
  rw [wlp_bind]
  refine wlp_mono _ writeBootRegion_lays ?_
  rintro sum v ⟨hsum, hv⟩
  rw [hsum]
  rw [hsu.sectors] at hv
  have hsv := hsu.trans hv
  refine wlp_mono _ writeBootChecksum_lays ?_
  intro _ w hw
  rw [hsv.sectors] at hw
  exact hsv.trans hw

lemma clustersFor_ceil (g : Geometry) {len : ℕ} (h : len ≠ 0) :
    clustersFor g len = (len + clusterSize g - 1) / clusterSize g := if_neg h

lemma reserved_le {sectors fat heap clusters : ℕ} (hlarge : sectors < 2 ^ 32)
    (hend : heap + clusters * clusterSectors sectors ≤ sectors) :
    reserved (formatGeometry sectors fat heap clusters) ≤ 4096 := by
  have hlen {k len n : ℕ} (hk : 0 < k) (hle : len ≤ n * k) : (len + k - 1) / k ≤ n := by
    rw [← Nat.lt_succ_iff, Nat.div_lt_iff_lt_mul hk, Nat.succ_mul]
    omega
  have hbound {spc a b : ℕ} (hspc : clusterSectors sectors = spc) (hpos : 0 < spc)
      (hbitmap : (clusters + 7) / 8 ≤ a * (512 * spc)) (hupcase : upcaseBytes ≤ b * (512 * spc))
      (hab : 1 + a + b ≤ 4096) : reserved (formatGeometry sectors fat heap clusters) ≤ 4096 := by
    have h1 : bitmapLen (formatGeometry sectors fat heap clusters) ≤ a := by
      unfold bitmapLen clustersFor bitmapBytes
      simp only [formatGeometry, hspc]
      split_ifs
      · exact Nat.zero_le _
      · exact hlen (by omega) hbitmap
    have h2 : upcaseLen (formatGeometry sectors fat heap clusters) ≤ b := by
      unfold upcaseLen clustersFor
      simp only [formatGeometry, hspc]
      split_ifs
      · exact Nat.zero_le _
      · exact hlen (by omega) hupcase
    unfold reserved
    omega
  unfold upcaseBytes at hbound
  rcases clusterSectors_cases sectors with ⟨hspc, hlt⟩ | ⟨hspc, hlt⟩ | hspc
  · rw [hspc] at hend
    exact hbound (a := 32) (b := 256) hspc (by decide) (by omega) (by decide) (by decide)
  · rw [hspc] at hend
    exact hbound (a := 1) (b := 16) hspc (by decide) (by omega) (by decide) (by decide)
  · rw [hspc] at hend
    exact hbound (a := 256) (b := 4) hspc (by decide) (by omega) (by decide) (by decide)

lemma writeVolume_lays {sectors fat heap clusters : ℕ} {s : Machine} (hsmall : 536 ≤ sectors)
    (hlarge : sectors < 2 ^ 32) (hheap : heap = fatOffset + fat)
    (hend : heap + clusters * clusterSectors sectors ≤ sectors)
    (hfat : (clusters + 2) * 4 ≤ fat * 512) (hcount : clusters + 2 < 2 ^ 32)
    (hclusters : clusters ≠ 0) :
    wlp (writeVolume sectors (clusterSectors sectors) fat heap clusters)
      (fun _ t => Planned sectors fat heap clusters ∧
        Formats s t (formatMedia (formatGeometry sectors fat heap clusters) s.device.sectors))
        s := by
  set g := formatGeometry sectors fat heap clusters with hg
  have hreserved : reserved g ≤ 4096 := reserved_le hlarge hend
  have hsize : clusterSize g = clusterSectors sectors * 512 := Nat.mul_comm _ _
  have hbytes : (clusters + 8 - 1) / 8 = bitmapBytes g := rfl
  have hbitmap : (bitmapBytes g + clusterSectors sectors * 512 - 1) /
      (clusterSectors sectors * 512) = bitmapLen g := by
    rw [← hsize]
    exact (clustersFor_ceil g (by rw [← hbytes]; omega)).symm
  have hupcase : (upcaseBytes + clusterSectors sectors * 512 - 1) /
      (clusterSectors sectors * 512) = upcaseLen g := by
    rw [← hsize]
    exact (clustersFor_ceil g (by decide)).symm
  have hsum : reserved g = 1 + bitmapLen g + upcaseLen g := rfl
  unfold writeVolume
  simp only [wlp_bind, wlp_divCeil, wlp_u32, wlp_okOr, wlp_ite, wlp_throw]
  rw [hbytes, hbitmap, hupcase, Nat.mod_eq_of_lt (by omega), Nat.mod_eq_of_lt (by omega)]
  rintro - - - - - stop hstop -
  unfold checkedAdd32 at hstop
  split_ifs at hstop
  cases hstop
  refine ⟨fun _ => trivial, fun hroom => ?_⟩
  refine wlp_mono _ writeMbr_lays ?_
  intro _ t ht
  refine wlp_mono _ writeBootRegions_lays ?_
  intro _ u hu
  rw [ht.sectors] at hu
  have hsu := ht.trans hu
  refine wlp_mono _ writeFat_lays ?_
  intro _ v hv
  rw [hsu.sectors] at hv
  have hsv := hsu.trans hv
  refine wlp_mono _ (writeBitmap_lays hreserved) ?_
  intro _ w hw
  rw [hsv.sectors] at hw
  have hsw := hsv.trans hw
  refine wlp_mono _ writeUpcase_lays ?_
  rintro checksum x ⟨hchecksum, hx⟩
  rw [hchecksum]
  rw [hsw.sectors] at hx
  have hsx := hsw.trans hx
  refine wlp_mono _ writeRoot_lays ?_
  intro _ y hy
  rw [hsx.sectors] at hy
  have hroot : heapLba g 2 = 1 + heap := by
    simp [heapLba, hg, formatGeometry]
  refine ⟨⟨hsmall, hlarge, hheap, hend, hfat, hcount, ?_⟩, ?_⟩
  · change reserved g ≤ clusters
    omega
  · unfold formatMedia
    rw [hroot]
    exact hsx.trans hy

/-- **What a formatting leaves.** -/
theorem formatExfat_lays {s : Machine} :
    wlp formatExfat (fun _ t => ∃ fat heap clusters,
      (layout (s.device.sectorCount - 1) (clusterSectors (s.device.sectorCount - 1)) s).1 =
        .ok (fat, heap, clusters) ∧ s.device.sectorSize = 512 ∧
      Planned (s.device.sectorCount - 1) fat heap clusters ∧
      Formats s t (formatMedia
        (formatGeometry (s.device.sectorCount - 1) fat heap clusters) s.device.sectors)) s := by
  unfold formatExfat
  simp only [wlp_bind, wlp_get, wlp_ite, wlp_throw, requireScratch, wlp_when]
  refine ⟨fun _ => trivial, fun hsize => ⟨fun _ => trivial, fun _ => ⟨fun _ => trivial, ?_⟩⟩⟩
  intro htotal
  rw [not_or] at htotal
  unfold bootSectors at htotal
  refine wlp_mono _ (wlp_run layout_plans) ?_
  rintro ⟨fat, heap, clusters⟩ t ⟨⟨rfl, hspc, hheap, hle, hclusters, hcount, hfat⟩, hlayout⟩
  simp only at hheap hle hclusters hcount hfat
  generalize hsectors : t.device.sectorCount - 1 = sectors at *
  have hpos : 0 < clusterSectors sectors := Nat.pos_of_ne_zero hspc
  have hmod : (sectors - heap) / clusterSectors sectors % 2 ^ 32 =
      (sectors - heap) / clusterSectors sectors :=
    Nat.mod_eq_of_lt ((Nat.div_le_self _ _).trans_lt (by omega))
  rw [hmod] at hclusters
  have hmul := Nat.div_mul_le_self (sectors - heap) (clusterSectors sectors)
  rw [← hclusters] at hmul
  rw [Nat.mod_eq_of_lt (by omega)] at hfat
  by_cases hnone : clusters = 0
  · -- a volume without clusters has no room for the system streams
    subst hnone
    unfold writeVolume
    simp only [wlp_bind, wlp_divCeil, wlp_u32, wlp_okOr, wlp_ite, wlp_throw]
    rintro - - - - - stop hstop -
    unfold checkedAdd32 at hstop
    split_ifs at hstop
    cases hstop
    exact ⟨fun _ => trivial, fun hroom => absurd (show 0 + 2 < _ by omega) hroom⟩
  · change wlp (writeVolume sectors (clusterSectors sectors) fat heap clusters) _ t
    refine wlp_mono _ (writeVolume_lays (by omega) (by omega) hheap (by omega) (by omega) hcount
      hnone) ?_
    rintro _ u ⟨hplanned, hu⟩
    exact ⟨fat, heap, clusters, hlayout, not_not.mp hsize, hplanned, hu⟩

end ExfatEmbedded.Formatted
