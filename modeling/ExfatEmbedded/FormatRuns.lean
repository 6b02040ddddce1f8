import ExfatEmbedded.Emission
import ExfatEmbedded.FatLength

/-!
The formatter as a whole.

The sectors it writes are those of a plan, which depends on the size of the device alone. The plan
is left where the layout does not settle, or where the buffer splits a sector of the UpCase table.
-/

namespace ExfatEmbedded.FormatRuns

open ExfatEmbedded.Library Exec ExfatEmbedded.Core ExfatEmbedded.Entry ExfatEmbedded.Format
open ExfatEmbedded.FormatMedia ExfatEmbedded.Formatted ExfatEmbedded.Reading ExfatEmbedded.Media
open ExfatEmbedded.FormatMount ExfatEmbedded.Emission ExfatEmbedded.FatLength

/-! ### The plan -/

section Plan

variable (g : Geometry)

/-- The sectors in front of the FAT. -/
def bootPlan : List (ℕ × Image) :=
  span 0 1 (fun _ => mbrSector g) ++ bootWrites g.partition.sectorCount g.fatLength
    g.clusterHeapOffset g.clusterCount g.sectorsPerCluster

/-- The sectors of the FAT and of the bitmap. -/
def tablePlan : List (ℕ × Image) :=
  span 25 g.fatLength (fatSectors 25 3 (bitmapLen g) (upcaseFirst g) (upcaseLen g)) ++
    span (heapLba g 3) ((bitmapBytes g + 511) / 512) (bitmapSectors (heapLba g 3) (reserved g))

/-- The sectors of the UpCase table and of the root directory. -/
def heapPlan : List (ℕ × Image) :=
  span (heapLba g (upcaseFirst g)) 256 (upcaseSectors (heapLba g (upcaseFirst g))) ++
    span (heapLba g 2) 1 fun _ => rootSector g

def formatPlan : List (ℕ × Image) := bootPlan g ++ (tablePlan g ++ heapPlan g)

end Plan

section Volume

-- the programs are not to be run where a list of sectors is stated of them
attribute [local irreducible] writeMbr writeBootRegions writeFat writeBitmap writeUpcase writeRoot
  fillSector writeSector

variable {sectors fat heap clusters : ℕ} {s : Machine}

/-- The writes of the formatter, behind its computations. -/
def writePlan (sectors fat heap clusters : ℕ) : FsM Unit := do
  let g := formatGeometry sectors fat heap clusters
  writeMbr sectors
  writeBootRegions sectors fat heap clusters (clusterSectors sectors)
  writeFat 1 fat 3 (bitmapLen g) (upcaseFirst g) (upcaseLen g)
  writeBitmap 1 heap (clusterSectors sectors) 3 (bitmapBytes g) (reserved g)
  let checksum ← writeUpcase 1 heap (clusterSectors sectors) (upcaseFirst g)
  writeRoot 1 heap 3 (bitmapBytes g) (upcaseFirst g) checksum

lemma assert_holds {p : Prop} [Decidable p] (h : p) : (assert p : FsM Unit) = pure () := if_pos h

lemma writeVolume_eq (h : Planned sectors fat heap clusters) :
    writeVolume sectors (clusterSectors sectors) fat heap clusters =
      writePlan sectors fat heap clusters := by
  have hsmall := h.small
  have hlarge := h.large
  have hcount := h.count
  have hroom := h.room
  have hreserved : reserved (formatGeometry sectors fat heap clusters) ≤ 4096 :=
    reserved_le hlarge h.heapEnd
  have hspc := clusterSectors_pos sectors
  set g := formatGeometry sectors fat heap clusters with hg
  have hsum : reserved g = 1 + bitmapLen g + upcaseLen g := rfl
  have hsize : clusterSize g = clusterSectors sectors * 512 := Nat.mul_comm _ _
  have hbytes : (clusters + 8 - 1) / 8 = bitmapBytes g := rfl
  have hbitmap : (bitmapBytes g + clusterSectors sectors * 512 - 1) /
      (clusterSectors sectors * 512) = bitmapLen g := by
    rw [← hsize]
    exact (clustersFor_ceil g (by rw [← hbytes]; omega)).symm
  have hupcase : (upcaseBytes + clusterSectors sectors * 512 - 1) /
      (clusterSectors sectors * 512) = upcaseLen g := by
    rw [← hsize]
    exact (clustersFor_ceil g (by decide)).symm
  have hstop : checkedAdd32 (3 + bitmapLen g) (upcaseLen g) =
      some (3 + bitmapLen g + upcaseLen g) := if_pos (by omega)
  have hbytes0 : clusterSectors sectors * 512 ≠ 0 := by omega
  simp only [writeVolume, divCeil, u32, bind_assoc, pure_bind, assert_holds hbytes0,
    assert_holds (show (8 : ℕ) ≠ 0 by decide)]
  rw [hbytes, hbitmap, hupcase, Nat.mod_eq_of_lt (by omega), Nat.mod_eq_of_lt (by omega),
    assert_holds (by omega), assert_holds (by omega), assert_holds (by omega), hstop]
  simp only [okOr_some, pure_bind]
  rw [if_neg (by omega)]
  rfl

/-! ### The sectors of the plan -/

section Emits

variable (hlen : 512 ≤ s.scratch.len)

include hlen

lemma writeMbr_emits (g : Geometry) : Emits (writeMbr g.partition.sectorCount)
    (span 0 1 fun _ => mbrSector g) (fun _ _ => True) s := by
  unfold writeMbr mbrSector
  exact fillWrite_emits hlen (by simp)

end Emits

section Writes

variable (h : Planned sectors fat heap clusters) (hfat : fat * 128 ≤ 2 ^ 32)
  (hlen : 512 ≤ s.scratch.len)

include h hlen

lemma writeBitmap_planned {g : Geometry} (hg : g = formatGeometry sectors fat heap clusters) :
    Emits (writeBitmap 1 heap (clusterSectors sectors) 3 (bitmapBytes g) (reserved g))
      (span (heapLba g 3) ((bitmapBytes g + 511) / 512) (bitmapSectors (heapLba g 3) (reserved g)))
      (fun _ _ => True) s := by
  subst hg
  have hlarge := h.large
  have hend := h.heapEnd
  have hroom := h.room
  have hsectors := bitmap_room h
  have hsum : reserved (formatGeometry sectors fat heap clusters) = 1 +
    bitmapLen (formatGeometry sectors fat heap clusters) +
    upcaseLen (formatGeometry sectors fat heap clusters) := rfl
  have hheap : (1 + bitmapLen (formatGeometry sectors fat heap clusters)) * clusterSectors sectors ≤
      clusters * clusterSectors sectors := Nat.mul_le_mul_right _ (by omega)
  rw [Nat.add_mul, Nat.one_mul] at hheap
  exact writeBitmap_emits hlen (by decide) (by omega) (reserved_le hlarge hend)

omit hlen in
lemma writeUpcase_planned {g : Geometry} (hg : g = formatGeometry sectors fat heap clusters)
    (hwhole : WholeSectors s.scratch.len) :
    Emits (writeUpcase 1 heap (clusterSectors sectors) (upcaseFirst g))
      (span (heapLba g (upcaseFirst g)) 256 (upcaseSectors (heapLba g (upcaseFirst g))))
      (fun sum _ => sum = wordsChecksum 65536) s := by
  subst hg
  have hlarge := h.large
  have hend := upcase_end h
  change 1 + heap + (upcaseFirst _ - 2) * clusterSectors sectors + 256 ≤ sectors + 1 at hend
  exact writeUpcase_emits hwhole (by unfold upcaseFirst; omega) (by omega)

omit hlen in
lemma writeUpcase_breaks {g : Geometry} (hg : g = formatGeometry sectors fat heap clusters)
    (hwhole : ¬ WholeSectors s.scratch.len) :
    Jams (writeUpcase 1 heap (clusterSectors sectors) (upcaseFirst g)) [] s := by
  subst hg
  have hlarge := h.large
  have hend := upcase_end h
  change 1 + heap + (upcaseFirst _ - 2) * clusterSectors sectors + 256 ≤ sectors + 1 at hend
  exact writeUpcase_jams hwhole (by unfold upcaseFirst; omega) (by omega)

lemma writeRoot_planned {g : Geometry} (hg : g = formatGeometry sectors fat heap clusters) :
    Emits (writeRoot 1 heap 3 (bitmapBytes g) (upcaseFirst g) (wordsChecksum 65536))
      (span (heapLba g 2) 1 fun _ => rootSector g) (fun _ _ => True) s := by
  subst hg
  have hlarge := h.large
  have hend := h.heapEnd
  have hroot := @writeRoot_emits s heap 3 (bitmapBytes (formatGeometry sectors fat heap clusters))
    (upcaseFirst (formatGeometry sectors fat heap clusters)) (wordsChecksum 65536) hlen (by omega)
  have hlba : heapLba (formatGeometry sectors fat heap clusters) 2 = 1 + heap := by
    simp [heapLba, formatGeometry]
  rw [hlba]
  exact hroot

include hfat

/-- The writes are those of the plan. -/
theorem writePlan_emits (hwhole : WholeSectors s.scratch.len) :
    Emits (writePlan sectors fat heap clusters)
      (formatPlan (formatGeometry sectors fat heap clusters)) (fun _ _ => True) s := by
  set g := formatGeometry sectors fat heap clusters with hg
  simp only [formatPlan, bootPlan, tablePlan, heapPlan, List.append_assoc]
  unfold writePlan
  refine (writeMbr_emits hlen g).bind fun _ t ht _ => ?_
  have hlen1 := ht.scratch
  refine (writeBootRegions_emits (by omega)).bind fun _ u hu _ => ?_
  have hlen2 := hu.scratch
  have hsome : u.scratch.len / 512 % 2 ^ 32 ≠ 0 := by
    rw [hlen2, hlen1]
    exact hwhole.some
  refine (writeFat_emits (by omega) hsome hfat).bind fun _ v hv _ => ?_
  have hlen3 := hv.scratch
  refine (writeBitmap_planned h (by omega) hg).bind fun _ w hw _ => ?_
  have hlen4 := hw.scratch
  have hwhole' : WholeSectors w.scratch.len := by
    rw [hlen4, hlen3, hlen2, hlen1]
    exact hwhole
  refine (writeUpcase_planned h hg hwhole').bind fun sum x hx hsum => ?_
  have hlen5 := hx.scratch
  rw [hsum]
  exact writeRoot_planned h (by omega) hg

omit hfat in
/-- Where a batch of the FAT has no sectors, nothing is written behind the boot regions. -/
theorem writePlan_jams_boot (hnone : s.scratch.len / 512 % 2 ^ 32 = 0) :
    Jams (writePlan sectors fat heap clusters)
      (bootPlan (formatGeometry sectors fat heap clusters)) s := by
  have hroom := h.fatRoom
  set g := formatGeometry sectors fat heap clusters with hg
  rw [← List.append_nil (bootPlan g), bootPlan, List.append_assoc]
  unfold writePlan
  refine (writeMbr_emits hlen g).jams fun _ t ht _ => ?_
  have hlen1 := ht.scratch
  refine (writeBootRegions_emits (by omega)).jams fun _ u hu _ => ?_
  have hlen2 := hu.scratch
  exact (writeFat_jams (by omega) (by rw [hlen2, hlen1]; exact hnone) (by omega)).bind _

/-- Where a batch of the UpCase table splits a sector, nothing is written behind the bitmap. -/
theorem writePlan_jams_tables (hsome : s.scratch.len / 512 % 2 ^ 32 ≠ 0)
    (hwhole : ¬ WholeSectors s.scratch.len) :
    Jams (writePlan sectors fat heap clusters)
      (bootPlan (formatGeometry sectors fat heap clusters) ++
      tablePlan (formatGeometry sectors fat heap clusters)) s := by
  set g := formatGeometry sectors fat heap clusters with hg
  rw [← List.append_nil (bootPlan g ++ tablePlan g)]
  simp only [bootPlan, tablePlan, List.append_assoc]
  unfold writePlan
  refine (writeMbr_emits hlen g).jams fun _ t ht _ => ?_
  have hlen1 := ht.scratch
  refine (writeBootRegions_emits (by omega)).jams fun _ u hu _ => ?_
  have hlen2 := hu.scratch
  have hsome' : u.scratch.len / 512 % 2 ^ 32 ≠ 0 := by
    rw [hlen2, hlen1]
    exact hsome
  refine (writeFat_emits (by omega) hsome' hfat).jams fun _ v hv _ => ?_
  have hlen3 := hv.scratch
  refine (writeBitmap_planned h (by omega) hg).jams fun _ w hw _ => ?_
  have hlen4 := hw.scratch
  have hwhole' : ¬ WholeSectors w.scratch.len := by
    rw [hlen4, hlen3, hlen2, hlen1]
    exact hwhole
  exact (writeUpcase_breaks h hg hwhole').bind _

end Writes

/-! ### The requests of the plan -/

section Requests

variable (h : Planned sectors fat heap clusters)

include h

lemma formatPlan_within : ∀ w ∈ formatPlan (formatGeometry sectors fat heap clusters),
    w.1 < sectors + 1 := by
  have hsmall := h.small
  have hheap := h.heapStart
  have hend := h.heapEnd
  have hroom := h.room
  have hbitmap := bitmap_room h
  have hupcase := upcase_end h
  have hspc := clusterSectors_pos sectors
  set g := formatGeometry sectors fat heap clusters with hg
  have hsum : reserved g = 1 + bitmapLen g + upcaseLen g := rfl
  have hle : (1 + bitmapLen g) * clusterSectors sectors ≤ clusters * clusterSectors sectors :=
    Nat.mul_le_mul_right _ (by omega)
  have hlba : heapLba g 3 = 1 + heap + clusterSectors sectors := by
    simp [heapLba, hg, formatGeometry]
  have hroot : heapLba g 2 = 1 + heap := by
    simp [heapLba, hg, formatGeometry]
  have hlen : g.fatLength = fat := rfl
  rw [Nat.add_mul, Nat.one_mul] at hle
  unfold fatOffset bootSectors at hheap
  intro w hw
  simp only [formatPlan, bootPlan, bootWrites, tablePlan, heapPlan, List.mem_append] at hw
  rcases hw with (hw | hw | hw | hw | hw) | (hw | hw) | hw | hw
  all_goals
    have := span_mem hw
    omega

end Requests

lemma bootPlan_length (g : Geometry) : (bootPlan g).length = 25 := by
  simp [bootPlan, bootWrites, span_length]

lemma tablePlan_length (g : Geometry) :
    (tablePlan g).length = g.fatLength + (bitmapBytes g + 511) / 512 := by
  simp [tablePlan, span_length]

end Volume

/-! ### Formatting -/

/-- A device which `format_exfat` does not refuse. -/
structure Accepted (s : Machine) : Prop where
  sectorSize : s.device.sectorSize = 512
  small : 24 + 512 < s.device.sectorCount
  large : s.device.sectorCount - 1 < 2 ^ 32

section Format

attribute [local irreducible] writePlan

variable {s : Machine} {sectors : ℕ}

lemma Accepted.sized (hs : Accepted s) : Sized (s.device.sectorCount - 1) := by
  have hsmall := hs.small
  exact ⟨by omega, hs.large⟩

lemma formatExfat_eq (hs : Accepted s) (hlen : 512 ≤ s.scratch.len) :
    formatExfat s = (do
      let (fat, heap, clusters) ← layout (s.device.sectorCount - 1)
        (clusterSectors (s.device.sectorCount - 1))
      writeVolume (s.device.sectorCount - 1) (clusterSectors (s.device.sectorCount - 1)) fat heap
        clusters : FsM Unit) s := by
  have hsmall := hs.small
  have hlarge := hs.large
  have hguard : ¬ (s.device.sectorCount ≤ bootSectors + 512 ∨ 2 ^ 32 ≤
      s.device.sectorCount - 1) := by
    unfold bootSectors
    omega
  have hscratch : ¬ s.scratch.len < 512 := Nat.not_lt.mpr hlen
  unfold formatExfat requireScratch when
  simp only [bind_apply, Exec.get, hs.sectorSize, ne_eq, not_true_eq_false, if_false]
  rw [if_neg hscratch]
  change (if s.device.sectorCount ≤ bootSectors + 512 ∨ 2 ^ 32 ≤ s.device.sectorCount - 1 then _
    else _ : FsM Unit) s = _
  rw [if_neg hguard]
  rfl

/-- Where the layout does not settle nothing is written. -/
theorem formatExfat_circles (hs : Accepted s) (hlen : 512 ≤ s.scratch.len)
    (hsettles : ¬ Settles (s.device.sectorCount - 1)) : formatExfat s = (.err .corrupt, s) := by
  have hlayout := layout_circles (s := s) hs.sized (sizedBy_clusterSectors _) (not_not.mp hsettles)
  rw [formatExfat_eq hs hlen, bind_err hlayout]

/-- Where it settles the formatter goes on to its writes. -/
theorem formatExfat_settles (hs : Accepted s) (hlen : 512 ≤ s.scratch.len)
    (hsettles : Settles (s.device.sectorCount - 1)) :
    formatExfat s = writePlan (s.device.sectorCount - 1)
      (settledFat (s.device.sectorCount - 1) (clusterSectors (s.device.sectorCount - 1)))
      (24 + settledFat (s.device.sectorCount - 1) (clusterSectors (s.device.sectorCount - 1)))
      (settledClusters (s.device.sectorCount - 1) (clusterSectors (s.device.sectorCount - 1)))
        s := by
  have hlayout := layout_settles (s := s) hs.sized (sizedBy_clusterSectors _) hsettles
  rw [formatExfat_eq hs hlen, bind_ok hlayout]
  exact congrFun (writeVolume_eq (planned_settled hs.sized hsettles)) s

lemma settledFat_le (hn : Sized sectors) :
    settledFat sectors (clusterSectors sectors) * 128 ≤ 2 ^ 32 := by
  have hlarge := hn.large
  unfold settledFat
  rcases sizedBy_clusterSectors sectors with ⟨hspc, hlt⟩ | ⟨hspc, hlt⟩ | hspc <;>
    rw [hspc] <;> omega

/-- The number of sectors which are written before a buffer that splits sectors stops the
formatter. -/
def servedSectors (g : Geometry) (len : ℕ) : ℕ :=
  if len / 512 % 2 ^ 32 = 0 then 25 else 25 + (g.fatLength + (bitmapBytes g + 511) / 512)

/-- The buffer splits no sector, or a request fails before it would. -/
def Served (s : Machine) : Prop :=
  WholeSectors s.scratch.len ∨
    ∃ k < servedSectors (settledGeometry (s.device.sectorCount - 1)) s.scratch.len,
      s.device.writeFails (s.device.writes.length + k) = true

/-- A formatting writes the sectors of the plan. -/
def FollowsPlan (s : Machine) : Prop :=
  (formatExfat s).1 = (emit (formatPlan (settledGeometry (s.device.sectorCount - 1))) s.device).1 ∧
    (formatExfat s).2.device =
      (emit (formatPlan (settledGeometry (s.device.sectorCount - 1))) s.device).2

theorem formatExfat_follows (hs : Accepted s) (hlen : 512 ≤ s.scratch.len)
    (hsettles : Settles (s.device.sectorCount - 1)) (hwhole : WholeSectors s.scratch.len) :
    FollowsPlan s := by
  have hplanned := planned_settled hs.sized hsettles
  have hemits := writePlan_emits hplanned (settledFat_le hs.sized) hlen hwhole
  unfold FollowsPlan
  rw [formatExfat_settles hs hlen hsettles]
  exact hemits.run

/-- The formatter panics where a buffer splits sectors, unless a request fails before. -/
theorem formatExfat_breaks (hs : Accepted s) (hlen : 512 ≤ s.scratch.len)
    (hsettles : Settles (s.device.sectorCount - 1)) (hwhole : ¬ WholeSectors s.scratch.len) :
    ((formatExfat s).1 = .panic ↔ ¬ Served s) ∧ ((formatExfat s).1 ≠ .panic → FollowsPlan s) := by
  have hplanned := planned_settled hs.sized hsettles
  have hsmall := hs.small
  have hin : ∀ w ∈ formatPlan (settledGeometry (s.device.sectorCount - 1)),
      w.1 < s.device.sectorCount := by
    intro w hw
    have hwithin := formatPlan_within hplanned w hw
    omega
  unfold FollowsPlan Served servedSectors
  rw [formatExfat_settles hs hlen hsettles, or_iff_right hwhole]
  by_cases hnone : s.scratch.len / 512 % 2 ^ 32 = 0
  · have hjams := writePlan_jams_boot hplanned hlen hnone
    rw [if_pos hnone, ← bootPlan_length (settledGeometry (s.device.sectorCount - 1))]
    exact hjams.run (fun w hw => hin w (List.mem_append_left _ hw)) _
  · have hjams := writePlan_jams_tables hplanned (settledFat_le hs.sized) hlen hnone hwhole
    rw [if_neg hnone, ← tablePlan_length, ← bootPlan_length (settledGeometry _),
      ← List.length_append]
    unfold formatPlan at hin ⊢
    rw [← List.append_assoc] at hin ⊢
    exact hjams.run (fun w hw => hin w (List.mem_append_left _ hw)) _

end Format

/-! ### Which devices can be formatted -/

/-- The formatter succeeds, with a layout in which every region has its place. -/
def FormatsWell (s : Machine) : Prop :=
  (formatExfat s).1 = .ok () ∧ ∃ fat heap clusters,
    (layout (s.device.sectorCount - 1) (clusterSectors (s.device.sectorCount - 1)) s).1 =
      .ok (fat, heap, clusters) ∧ Planned (s.device.sectorCount - 1) fat heap clusters

/-- The formatter succeeds where the layout settles and the buffer splits no sector. -/
theorem formatExfat_succeeds {s : Machine} (hs : Accepted s) (hlen : 512 ≤ s.scratch.len)
    (hfaults : ∀ k, s.device.writeFails k = false) (hsettles : Settles (s.device.sectorCount - 1))
    (hwhole : WholeSectors s.scratch.len) : (formatExfat s).1 = .ok () := by
  have hplanned := planned_settled hs.sized hsettles
  have hsmall := hs.small
  rw [(formatExfat_follows hs hlen hsettles hwhole).1]
  refine (emit_ok_within fun w hw => ?_).mpr ?_
  · have hwithin := formatPlan_within hplanned w hw
    omega
  · rintro ⟨k, -, hfails⟩
    rw [hfaults] at hfails
    exact Bool.noConfusion hfails

/-- **Which devices can be formatted** with a buffer of whole sectors. The FAT has a length which
asks for itself, and the words of the buffer do not vanish where they are counted in 32 bits. -/
theorem formatExfat_succeeds_iff {s : Machine} (hs : Accepted s)
    (hfaults : ∀ k, s.device.writeFails k = false) (hpos : 0 < s.scratch.len)
    (haligned : s.scratch.len % 512 = 0) :
    FormatsWell s ↔ Settles (s.device.sectorCount - 1) ∧ s.scratch.len % 2 ^ 33 ≠ 0 := by
  have hlen : 512 ≤ s.scratch.len := by omega
  have hwords : WholeSectors s.scratch.len ↔ s.scratch.len % 2 ^ 33 ≠ 0 := by
    unfold WholeSectors tableWords
    omega
  rw [← hwords]
  constructor
  · rintro ⟨hok, -⟩
    by_cases hsettles : Settles (s.device.sectorCount - 1)
    · refine ⟨hsettles, ?_⟩
      by_contra hwhole
      have hserved : Served s := by
        by_contra hnot
        rw [(formatExfat_breaks hs hlen hsettles hwhole).1.mpr hnot] at hok
        exact absurd hok nofun
      obtain hwhole' | ⟨k, -, hfails⟩ := hserved
      · exact hwhole hwhole'
      · rw [hfaults] at hfails
        exact Bool.noConfusion hfails
    · rw [formatExfat_circles hs hlen hsettles] at hok
      exact absurd hok nofun
  · rintro ⟨hsettles, hwhole⟩
    have hlayout := layout_settles (s := s) hs.sized (sizedBy_clusterSectors _) hsettles
    refine ⟨formatExfat_succeeds hs hlen hfaults hsettles hwhole, _, _, _, ?_,
      planned_settled hs.sized hsettles⟩
    rw [hlayout]
    rfl

/-- A device of zeros and a buffer. -/
def blank (sectors len : ℕ) (h : sectors < 2 ^ 64 := by decide) : Machine where
  device := { sectorSize := 512, sectorCount := sectors, sectors := fun _ _ => 0, bound := h }
  scratch := ⟨len, fun _ => 0⟩

lemma accepted_blank {sectors len : ℕ} {h : sectors < 2 ^ 64} (hsmall : 24 + 512 < sectors)
    (hlarge : sectors - 1 < 2 ^ 32) : Accepted (blank sectors len h) := ⟨rfl, hsmall, hlarge⟩

theorem formatExfat_succeeds_iff_small :
    FormatsWell (blank 600 512) ↔ Settles (600 - 1) ∧ 512 % 2 ^ 33 ≠ 0 :=
  formatExfat_succeeds_iff (accepted_blank (by decide) (by decide)) (fun _ => rfl) (by decide)
    (by decide)

/-- In a partition of 668 sectors a FAT of five sectors asks for six, and one of six for five. -/
theorem formatExfat_corrupt : Accepted (blank 669 512) ∧ 0 < 512 ∧ 512 % 512 = 0 ∧
    (∀ k, (blank 669 512).device.writeFails k = false) ∧
    (formatExfat (blank 669 512)).1 = .err .corrupt ∧ ¬ FormatsWell (blank 669 512) := by
  have haccepted : Accepted (blank 669 512) := accepted_blank (by decide) (by decide)
  have hcorrupt : (formatExfat (blank 669 512)).1 = .err .corrupt := by
    rw [formatExfat_circles haccepted le_rfl (show ¬ Settles 668 by decide)]
  refine ⟨haccepted, by decide, by decide, fun _ => rfl, hcorrupt, fun hwell => ?_⟩
  rw [FormatsWell, hcorrupt] at hwell
  exact absurd hwell.1 nofun

/-! ### Which buffers give the same image -/

/-- The formatter does not panic, and gives the same result and the same device with both
buffers. -/
def Agreeing (s s' : Machine) : Prop :=
  (formatExfat s).1 ≠ .panic ∧ (formatExfat s').1 = (formatExfat s).1 ∧
    (formatExfat s').2.device = (formatExfat s).2.device

lemma follows_of_served {s : Machine} (hs : Accepted s) (hlen : 512 ≤ s.scratch.len)
    (hsettles : Settles (s.device.sectorCount - 1)) :
    ((formatExfat s).1 ≠ .panic ↔ Served s) ∧ (Served s → FollowsPlan s) := by
  by_cases hwhole : WholeSectors s.scratch.len
  · have hfollows := formatExfat_follows hs hlen hsettles hwhole
    refine ⟨⟨fun _ => .inl hwhole, fun _ => ?_⟩, fun _ => hfollows⟩
    rw [hfollows.1]
    exact emit_ne_panic _ _
  · obtain ⟨hpanic, hfollows⟩ := formatExfat_breaks hs hlen hsettles hwhole
    exact ⟨hpanic.not.trans not_not, fun hserved => hfollows fun h => hpanic.mp h hserved⟩

/-- **When the image does not depend on the buffer.** Either nothing is written, or neither buffer
splits a sector of the UpCase table which is written. -/
theorem formatExfat_agrees_iff {s s' : Machine} (hdevice : s'.device = s.device) (hs : Accepted s)
    (hlen : 512 ≤ s.scratch.len) (hlen' : 512 ≤ s'.scratch.len) :
    Agreeing s s' ↔ (Settles (s.device.sectorCount - 1) → Served s ∧ Served s') := by
  have hs' : Accepted s' := by
    refine ⟨?_, ?_, ?_⟩ <;> rw [hdevice]
    · exact hs.sectorSize
    · exact hs.small
    · exact hs.large
  unfold Agreeing
  by_cases hsettles : Settles (s.device.sectorCount - 1)
  · have hsettles' : Settles (s'.device.sectorCount - 1) := hdevice ▸ hsettles
    obtain ⟨hpanic, hfollows⟩ := follows_of_served hs hlen hsettles
    obtain ⟨hpanic', hfollows'⟩ := follows_of_served hs' hlen' hsettles'
    constructor
    · rintro ⟨hne, hsame, -⟩ -
      exact ⟨hpanic.mp hne, hpanic'.mp (hsame ▸ hne)⟩
    · intro h
      obtain ⟨hserved, hserved'⟩ := h hsettles
      have hrun := hfollows hserved
      have hrun' := hfollows' hserved'
      unfold FollowsPlan at hrun hrun'
      rw [hdevice] at hrun'
      exact ⟨hpanic.mpr hserved, hrun'.1.trans hrun.1.symm, hrun'.2.trans hrun.2.symm⟩
  · have hcircles := formatExfat_circles hs hlen hsettles
    have hcircles' := formatExfat_circles hs' hlen' (hdevice ▸ hsettles)
    rw [hcircles, hcircles']
    exact ⟨fun _ h => absurd h hsettles, fun _ => ⟨nofun, rfl, hdevice⟩⟩

theorem formatExfat_agrees_iff_small :
    Agreeing (blank 600 512) (blank 600 1024) ↔ (Settles (600 - 1) →
      Served (blank 600 512) ∧ Served (blank 600 1024)) :=
  formatExfat_agrees_iff rfl (accepted_blank (by decide) (by decide)) (by decide) (by decide)

/-- A buffer of 514 bytes has 257 words, and only one whole sector for them. -/
theorem formatExfat_panics : Accepted (blank 600 512) ∧ 512 ≤ 514 ∧
    (formatExfat (blank 600 512)).1 = .ok () ∧ (formatExfat (blank 600 514)).1 = .panic ∧
    ¬ Agreeing (blank 600 512) (blank 600 514) := by
  have haccepted (len : ℕ) : Accepted (blank 600 len) := accepted_blank (by decide) (by decide)
  have hsettles : Settles 599 := by decide
  have hok : (formatExfat (blank 600 512)).1 = .ok () :=
    formatExfat_succeeds (haccepted 512) le_rfl (fun _ => rfl) hsettles (by decide)
  have hpanic : (formatExfat (blank 600 514)).1 = .panic := by
    refine (formatExfat_breaks (haccepted 514) (by decide) hsettles (by decide)).1.mpr ?_
    rintro (hwhole | ⟨k, -, hfails⟩)
    · exact absurd hwhole (by decide)
    · exact Bool.noConfusion hfails
  refine ⟨haccepted 512, by decide, hok, hpanic, fun hagree => ?_⟩
  rw [Agreeing, hok, hpanic] at hagree
  exact absurd hagree.2.1 nofun

end ExfatEmbedded.FormatRuns
