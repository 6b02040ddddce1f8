import Mathlib.Data.List.GetD
import ExfatEmbedded.Format

/-!
What each part of the formatter leaves on the media.
-/

namespace ExfatEmbedded.FormatMedia

open ExfatEmbedded.Library Exec ExfatEmbedded.Core ExfatEmbedded.Format

/-! ### Regions -/

/-- The media with the `n` sectors from `lba` on replaced by those of `c`. -/
def laid (d : Sectors) (lba n : ℕ) (c : Sectors) : Sectors := fun l i =>
  if lba ≤ l ∧ l < lba + n ∧ i < 512 then c l i else d l i

section Laid

variable {d c c' : Sectors} {lba n m l i : ℕ}

lemma laid_zero : laid d lba 0 c = d := by
  funext l i
  exact if_neg (by omega)

lemma laid_inside (h1 : lba ≤ l) (h2 : l < lba + n) (hi : i < 512) : laid d lba n c l i = c l i :=
  if_pos ⟨h1, h2, hi⟩

lemma laid_outside (h : l < lba ∨ lba + n ≤ l) : laid d lba n c l = d l := by
  funext i
  exact if_neg (by omega)

lemma laid_append (h : ∀ l i, lba ≤ l → l < lba + n → i < 512 → c l i = c' l i) :
    laid (laid d lba n c) (lba + n) m c' = laid d lba (n + m) c' := by
  funext l i
  unfold laid
  split_ifs with h1 h2 h3 h4 h5
  · rfl
  · omega
  · exact h l i (by omega) (by omega) (by omega)
  · omega
  · omega
  · rfl

lemma laid_congr (c' : Sectors) (h : ∀ l i, lba ≤ l → l < lba + n → i < 512 → c l i = c' l i) :
    laid d lba n c = laid d lba n c' := by
  funext l i
  unfold laid
  split_ifs with h1
  · exact h l i h1.1 h1.2.1 h1.2.2
  · rfl

end Laid

/-- From `s` to `t` the media became `d`. -/
structure Formats (s t : Machine) (d : Sectors) : Prop where
  sectorSize : t.device.sectorSize = s.device.sectorSize
  sectorCount : t.device.sectorCount = s.device.sectorCount
  readFails : t.device.readFails = s.device.readFails
  scratchLen : t.scratch.len = s.scratch.len
  sectors : t.device.sectors = d

/-- From `s` to `t` only the buffer has changed. -/
structure Buffered (s t : Machine) : Prop where
  device : t.device = s.device
  scratchLen : t.scratch.len = s.scratch.len

variable {s t u : Machine} {d d' : Sectors}

lemma Formats.refl (s : Machine) : Formats s s s.device.sectors := ⟨rfl, rfl, rfl, rfl, rfl⟩

lemma Formats.trans (h : Formats s t d) (h' : Formats t u d') : Formats s u d' :=
  ⟨h'.1.trans h.1, h'.2.trans h.2, h'.3.trans h.3, h'.4.trans h.4, h'.5⟩

lemma Buffered.refl (s : Machine) : Buffered s s := ⟨rfl, rfl⟩

lemma Buffered.trans (h : Buffered s t) (h' : Buffered t u) : Buffered s u :=
  ⟨h'.1.trans h.1, h'.2.trans h.2⟩

lemma Buffered.formats (h : Buffered s t) : Formats s t s.device.sectors := by
  obtain ⟨hd, hl⟩ := h
  exact ⟨by rw [hd], by rw [hd], by rw [hd], hl, by rw [hd]⟩

/-! ### Checked arithmetic and whole sectors -/

section Rules

variable {σ ε : Type} {Q : ℕ → σ → Prop}

@[simp] lemma wlp_u32 (n : ℕ) : wlp (u32 n : Exec σ ε ℕ) Q = fun s => n < 2 ^ 32 → Q n s := by
  simp [u32]
@[simp] lemma wlp_u64 (n : ℕ) : wlp (u64 n : Exec σ ε ℕ) Q = fun s => n < 2 ^ 64 → Q n s := by
  simp [u64]
@[simp] lemma wlp_sub (a b : ℕ) :
    wlp (sub a b : Exec σ ε ℕ) Q = fun s => b ≤ a → Q (a - b) s := by
  simp [sub]
@[simp] lemma wlp_div (a b : ℕ) :
    wlp (div a b : Exec σ ε ℕ) Q = fun s => b ≠ 0 → Q (a / b) s := by
  simp [div]
@[simp] lemma wlp_divCeil (a b : ℕ) :
    wlp (divCeil a b : Exec σ ε ℕ) Q = fun s => b ≠ 0 → Q ((a + b - 1) / b) s := by
  simp [divCeil]

end Rules

lemma wlp_sectorsLen {Q : ℕ → Machine → Prop} :
    wlp sectorsLen Q = fun s => Q (s.scratch.len / 512 * 512) s := by
  simp [sectorsLen]

lemma scratchPatch_lays {size off : ℕ} {bs : List UInt8} :
    wlp (scratchPatch size off bs) (fun _ t => Buffered s t ∧ off + bs.length ≤ size ∧
      t.scratch.bytes = Image.patch s.scratch.bytes off bs) s := by
  simp only [scratchPatch, wlp_bind, wlp_get, wlp_assert, wlp_modify]
  exact fun h => ⟨⟨rfl, rfl⟩, h.1, trivial⟩

lemma wlp_scratchSlice {size off n : ℕ} {Q : List UInt8 → Machine → Prop}
    (h : off + n ≤ size → Q (Image.slice s.scratch.bytes off n) s) :
    wlp (scratchSlice size off n) Q s := by
  simp only [scratchSlice, wlp_bind, wlp_get, wlp_assert, wlp_pure]
  exact fun hfit => h hfit.1

lemma writeChunk_lays {lba off : ℕ} :
    wlp (writeChunk lba off) (fun _ t => t.scratch = s.scratch ∧
      Formats s t (laid s.device.sectors lba 1 fun _ i => s.scratch.bytes (off + i))) s := by
  intro a t h
  unfold writeChunk at h
  simp only at h
  split_ifs at h <;> cases h
  refine ⟨rfl, rfl, rfl, rfl, rfl, ?_⟩
  funext l i
  change (if l = lba then Image.splice (fun i => s.scratch.bytes (off + i))
    (s.device.sectors lba) 512 else s.device.sectors l) i = _
  unfold laid
  split_ifs with h1 h2 h3
  · exact if_pos h2.2.2
  · subst h1
    exact if_neg (by omega)
  · omega
  · rfl

lemma writeSector_lays {lba : ℕ} :
    wlp (writeSector 512 lba) (fun _ t => t.scratch = s.scratch ∧
      Formats s t (laid s.device.sectors lba 1 fun _ => s.scratch.bytes)) s := by
  have hsame : writeSector 512 lba s = writeChunk lba 0 s := by
    unfold writeSector writeChunk
    simp only [Nat.zero_add]
  have hchunk := @writeChunk_lays s lba 0
  simp only [Nat.zero_add] at hchunk
  intro a t h
  rw [hsame] at h
  exact hchunk a t h

lemma writeSectors_lays {lba len : ℕ} :
    wlp (writeSectors lba len) (fun _ t => t.scratch = s.scratch ∧ len % 512 = 0 ∧
      Formats s t (laid s.device.sectors lba (len / 512)
        fun l i => s.scratch.bytes ((l - lba) * 512 + i))) s := by
  simp only [writeSectors, wlp_bind, wlp_sectorsLen, wlp_assert, wlp_pure]
  rintro ⟨-, hlen⟩
  refine wlp_loop (fun k _ t => t.scratch = s.scratch ∧ Formats s t
    (laid s.device.sectors lba k fun l i => s.scratch.bytes ((l - lba) * 512 + i))) ?_ ?_ ?_
  · rw [laid_zero]
    exact ⟨rfl, Formats.refl s⟩
  · rintro k _ t - - ⟨hscratch, ht⟩
    simp only [wlp_bind, wlp_u64, wlp_pure]
    intro _
    refine wlp_mono _ writeChunk_lays ?_
    rintro _ u ⟨hu, hsu⟩
    refine ⟨hu.trans hscratch, ?_⟩
    have := ht.trans hsu
    rw [ht.sectors, hscratch, laid_congr (fun l i => s.scratch.bytes ((l - lba) * 512 + i)),
      laid_append fun _ _ _ _ _ => rfl] at this
    · exact this
    · intro l i h1 h2 _
      obtain rfl : l = lba + k := by omega
      rw [show lba + k - lba = k by omega]
  · rintro _ t ⟨hscratch, ht⟩
    rw [Nat.zero_add] at ht
    exact ⟨hscratch, hlen, ht⟩

/-! ### Filling a sector -/

/-- Bytes laid over a sector, one range after the other. -/
def overlaid (m : Image) (ps : List (ℕ × List UInt8)) : Image :=
  ps.foldl (fun m p => Image.patch m p.1 p.2) m

/-- A sector of zeros with the given bytes at the given offsets. -/
def sectorOf (ps : List (ℕ × List UInt8)) : Image := overlaid (fun _ => 0) ps

lemma overlaid_cons (m : Image) (off : ℕ) (bs : List UInt8) (ps : List (ℕ × List UInt8)) :
    overlaid m ((off, bs) :: ps) = overlaid (Image.patch m off bs) ps := rfl

lemma overlaid_congr {m m' : Image} {ps : List (ℕ × List UInt8)} {i : ℕ} (h : m i = m' i) :
    overlaid m ps i = overlaid m' ps i := by
  induction ps generalizing m m' with
  | nil => exact h
  | cons p ps ih =>
    refine ih ?_
    change (if _ then _ else m i) = if _ then _ else m' i
    rw [h]

lemma patchAll_lays {ps : List (ℕ × List UInt8)} :
    wlp (patchAll ps) (fun _ t => Buffered s t ∧
      t.scratch.bytes = overlaid s.scratch.bytes ps) s := by
  induction ps generalizing s with
  | nil =>
    simp only [patchAll, wlp_pure]
    exact ⟨Buffered.refl s, rfl⟩
  | cons p ps ih =>
    simp only [patchAll, wlp_bind]
    refine wlp_mono _ scratchPatch_lays ?_
    rintro _ t ⟨ht, -, hbytes⟩
    refine wlp_mono _ ih ?_
    rintro _ u ⟨hu, hbytes'⟩
    exact ⟨ht.trans hu, by rw [hbytes', hbytes]; rfl⟩

lemma fillSector_lays {ps : List (ℕ × List UInt8)} :
    wlp (fillSector ps) (fun _ t => Buffered s t ∧
      ∀ i < 512, t.scratch.bytes i = sectorOf ps i) s := by
  refine wlp_mono _ patchAll_lays ?_
  rintro _ t ⟨ht, hbytes⟩
  refine ⟨ht, fun i hi => ?_⟩
  have hzero : Image.patch s.scratch.bytes 0 (List.replicate 512 0) i = 0 := by
    unfold Image.patch
    rw [if_pos (by rw [List.length_replicate]; omega), List.getD_eq_getElem _ _
      (by rwa [List.length_replicate])]
    exact List.getElem_replicate _
  rw [hbytes, overlaid_cons]
  exact overlaid_congr hzero

lemma fillWrite_lays {ps : List (ℕ × List UInt8)} {lba : ℕ} :
    wlp (do fillSector ps; writeSector 512 lba)
      (fun _ t => Formats s t (laid s.device.sectors lba 1 fun _ => sectorOf ps)) s := by
  rw [wlp_bind]
  refine wlp_mono _ fillSector_lays ?_
  rintro _ t ⟨ht, hbytes⟩
  refine wlp_mono _ writeSector_lays ?_
  rintro _ u ⟨-, hu⟩
  have := ht.formats.trans hu
  rw [ht.device] at this
  rwa [laid_congr _ fun _ i _ _ hi => hbytes i hi] at this
/-! ### The boot regions -/

lemma writeMbr_lays {sectors : ℕ} :
    wlp (writeMbr sectors) (fun _ t => Formats s t (laid s.device.sectors 0 1 fun _ =>
      sectorOf [(450, [0x07]), (454, leBytes 4 1), (458, leBytes 4 sectors),
        (510, [0x55, 0xaa])])) s := fillWrite_lays

/-- The checksum of a boot region. -/
def regionChecksum (length fat heap clusters spc n : ℕ) : ℕ :=
  (List.range n).foldl (fun sum k => regionSum k sum
    (Image.slice (sectorOf (bootPatches length fat heap clusters spc k)) 0 512)) 0

/-- The sectors of a boot region. -/
def regionSectors (length fat heap clusters spc start : ℕ) : Sectors := fun l =>
  sectorOf (bootPatches length fat heap clusters spc (l - start))

/-- A sector of a repeated checksum. -/
def checksumSector (checksum : ℕ) : Image := fun i => (leBytes 4 checksum).getD (i % 4) 0

lemma writeBootRegion_lays {start length fat heap clusters spc : ℕ} :
    wlp (writeBootRegion start length fat heap clusters spc)
      (fun checksum t => checksum = regionChecksum length fat heap clusters spc 11 ∧
        Formats s t (laid s.device.sectors start 11
          (regionSectors length fat heap clusters spc start))) s := by
  unfold writeBootRegion
  rw [wlp_bind]
  refine wlp_loop (fun k sum t => sum = regionChecksum length fat heap clusters spc k ∧
    Formats s t (laid s.device.sectors start k
      (regionSectors length fat heap clusters spc start))) ?_ ?_ ?_
  · rw [laid_zero]
    exact ⟨rfl, Formats.refl s⟩
  · rintro k sum t - - ⟨rfl, ht⟩
    rw [wlp_bind]
    refine wlp_mono _ fillSector_lays ?_
    rintro _ u ⟨hu, hbytes⟩
    rw [wlp_bind]
    refine wlp_scratchSlice fun _ => ?_
    simp only [wlp_bind, wlp_u64, wlp_pure]
    intro _
    refine wlp_mono _ writeSector_lays ?_
    rintro _ v ⟨-, hv⟩
    refine ⟨?_, ?_⟩
    · unfold regionChecksum
      rw [List.range_succ, List.foldl_append, List.foldl_cons, List.foldl_nil]
      congr 1
      exact Image.slice_congr fun i _ hi => hbytes i (by omega)
    · have htv := ht.trans (hu.formats.trans hv)
      rw [hu.device, ht.sectors, laid_congr
        (regionSectors length fat heap clusters spc start), laid_append
        fun _ _ _ _ _ => rfl] at htv
      · exact htv
      · intro l i h1 h2 hi
        obtain rfl : l = start + k := by omega
        rw [hbytes i hi, regionSectors, show start + k - start = k by omega]
  · rintro sum t ⟨hsum, ht⟩
    simp only [wlp_pure]
    rw [Nat.zero_add] at hsum ht
    exact ⟨hsum, ht⟩

lemma getD_flatten_replicate {bs : List UInt8} {n w i : ℕ} (hbs : bs.length = w)
    (hi : i < n * w) : (List.replicate n bs).flatten.getD i 0 = bs.getD (i % w) 0 := by
  induction n generalizing i with
  | zero => omega
  | succ n ih =>
    rw [List.replicate_succ, List.flatten_cons]
    rw [Nat.add_mul, Nat.one_mul] at hi
    rcases Nat.lt_or_ge i w with hlt | hge
    · rw [List.getD_append _ _ _ _ (by omega), Nat.mod_eq_of_lt hlt]
    · rw [List.getD_append_right _ _ _ _ (by omega), hbs, ih (by omega),
        ← Nat.mod_eq_sub_mod hge]

lemma writeBootChecksum_lays {lba checksum : ℕ} :
    wlp (writeBootChecksum lba checksum) (fun _ t => Formats s t
      (laid s.device.sectors lba 1 fun _ => checksumSector checksum)) s := by
  unfold writeBootChecksum
  rw [wlp_bind]
  refine wlp_mono _ scratchPatch_lays ?_
  rintro _ t ⟨ht, -, hbytes⟩
  refine wlp_mono _ writeSector_lays ?_
  rintro _ u ⟨-, hu⟩
  have htu := ht.formats.trans hu
  rw [ht.device, laid_congr (fun _ => checksumSector checksum)] at htu
  · exact htu
  · intro l i _ _ hi
    have hlen : (List.replicate 128 (leBytes 4 checksum)).flatten.length = 512 := by
      rw [List.length_flatten, List.map_replicate, List.sum_replicate_nat, leBytes_length]
    rw [hbytes]
    unfold Image.patch
    rw [if_pos (by omega), Nat.sub_zero]
    exact getD_flatten_replicate (leBytes_length _ _) (by omega)

/-! ### The FAT -/

lemma getD_flatMap {f : ℕ → List UInt8} {a n w i : ℕ} (hf : ∀ k, (f k).length = w)
    (hi : i < n * w) :
    ((List.range' a n).flatMap f).getD i 0 = (f (a + i / w)).getD (i % w) 0 := by
  induction n generalizing a i with
  | zero => omega
  | succ n ih =>
    rw [List.range'_succ, List.flatMap_cons]
    rw [Nat.add_mul, Nat.one_mul] at hi
    rcases Nat.lt_or_ge i w with hlt | hge
    · rw [List.getD_append _ _ _ _ (by rw [hf]; omega), Nat.mod_eq_of_lt hlt,
        Nat.div_eq_of_lt hlt, Nat.add_zero]
    · have hw : 0 < w := by
        by_contra hz
        obtain rfl : w = 0 := by omega
        omega
      have hdiv : i / w = (i - w) / w + 1 := by
        rw [← Nat.add_div_right _ hw, Nat.sub_add_cancel hge]
      rw [List.getD_append_right _ _ _ _ (by rw [hf]; omega), hf, ih (by omega),
        ← Nat.mod_eq_sub_mod hge, hdiv, show a + 1 + (i - w) / w = a + ((i - w) / w + 1) by omega]

/-- The sectors of the FAT, from `start` on. -/
def fatSectors (start bitmap bitmapLen upcase upcaseLen : ℕ) : Sectors := fun l i =>
  (leBytes 4 (fatValue bitmap bitmapLen upcase upcaseLen ((l - start) * 128 + i / 4))).getD
    (i % 4) 0

section Fat

variable {bitmap bitmapLen upcase upcaseLen : ℕ}

lemma fatSector_length {sector : ℕ} :
    (fatSector bitmap bitmapLen upcase upcaseLen sector).length = 512 := by
  unfold fatSector
  simp [List.length_flatMap, leBytes_length]

lemma fatSector_getD {sector i : ℕ} (hi : i < 512) :
    (fatSector bitmap bitmapLen upcase upcaseLen sector).getD i 0 =
      (leBytes 4 (fatValue bitmap bitmapLen upcase upcaseLen (sector * 128 + i / 4))).getD
      (i % 4) 0 := by
  unfold fatSector
  rw [List.range_eq_range', getD_flatMap (fun _ => leBytes_length _ _) (by omega), Nat.zero_add]

lemma fatFill_lays {len count first : ℕ} :
    wlp (loop (ρ := Empty) (fun offset _ => do
      let _ ← u32 ((first + offset) * 128 + 127)
      scratchPatch len (offset * 512)
        (fatSector bitmap bitmapLen upcase upcaseLen (first + offset))
      pure (.inr ())) 0 count () : FsM (Empty ⊕ Unit))
      (fun _ t => Buffered s t ∧ ∀ k < count, ∀ i < 512, t.scratch.bytes (k * 512 + i) =
        (fatSector bitmap bitmapLen upcase upcaseLen (first + k)).getD i 0) s := by
  refine wlp_loop (fun n _ t => Buffered s t ∧ ∀ k < n, ∀ i < 512, t.scratch.bytes (k * 512 + i) =
    (fatSector bitmap bitmapLen upcase upcaseLen (first + k)).getD i 0) ?_ ?_ ?_
  · exact ⟨Buffered.refl s, fun k hk => absurd hk (Nat.not_lt_zero k)⟩
  · rintro n _ t - - ⟨ht, hbytes⟩
    simp only [wlp_bind, wlp_u32, wlp_pure]
    intro _
    refine wlp_mono _ scratchPatch_lays ?_
    rintro _ u ⟨hu, -, hpatch⟩
    refine ⟨ht.trans hu, fun k hk i hi => ?_⟩
    rw [hpatch]
    rcases Nat.lt_or_ge k n with hlt | hge
    · rw [Image.patch_of_lt (by omega)]
      exact hbytes k hlt i hi
    · obtain rfl : k = n := by omega
      exact Image.patch_in (by rw [fatSector_length]; exact hi)
  · rintro _ t h
    rwa [Nat.zero_add] at h

lemma writeFat_lays {part fatLen : ℕ} :
    wlp (writeFat part fatLen bitmap bitmapLen upcase upcaseLen) (fun _ t => Formats s t
      (laid s.device.sectors (part + fatOffset) fatLen
        (fatSectors (part + fatOffset) bitmap bitmapLen upcase upcaseLen))) s := by
  unfold writeFat
  simp only [wlp_bind, wlp_get]
  generalize max (s.scratch.len / 512) 1 % 2 ^ 32 = batch
  refine wlp_loop (fun _ first t => first ≤ fatLen ∧ Formats s t
    (laid s.device.sectors (part + fatOffset) first
      (fatSectors (part + fatOffset) bitmap bitmapLen upcase upcaseLen))) ?_ ?_ ?_
  · rw [laid_zero]
    exact ⟨Nat.zero_le _, Formats.refl s⟩
  · rintro _ first t - - ⟨hle, ht⟩
    unfold fatBatch
    rw [wlp_ite]
    refine ⟨fun hdone => ?_, fun hmore => ?_⟩
    · obtain rfl : first = fatLen := by omega
      simp only [wlp_pure, Sum.elim_inl]
      exact ht
    · simp only [wlp_bind, wlp_sectorsLen]
      refine wlp_mono _ fatFill_lays ?_
      rintro _ u ⟨hu, hbytes⟩
      refine wlp_mono _ writeSectors_lays ?_
      rintro _ v ⟨-, -, hv⟩
      simp only [wlp_pure, Sum.elim_inr]
      refine ⟨by omega, ?_⟩
      have htv := ht.trans (hu.formats.trans hv)
      rw [hu.device, ht.sectors, Nat.mul_div_cancel _ (by decide), laid_congr
        (fatSectors (part + fatOffset) bitmap bitmapLen upcase upcaseLen),
        laid_append fun _ _ _ _ _ => rfl] at htv
      · exact htv
      · intro l i h1 h2 hi
        rw [hbytes _ (by omega) i hi, fatSector_getD hi, fatSectors,
          show first + (l - (part + fatOffset + first)) = l - (part + fatOffset) by omega]
  · rintro first t -
    simp only [wlp_panic]

end Fat
/-! ### The heap -/

lemma wlp_clusterLba {part heap spc cluster : ℕ} {Q : ℕ → Machine → Prop}
    (h : 2 ≤ cluster → Q (part + heap + (cluster - 2) * spc) s) :
    wlp (clusterLba part heap spc cluster) Q s := by
  simp only [clusterLba, wlp_bind, wlp_sub, wlp_u64]
  exact fun hle _ => h hle

/-- A byte of the bitmap of the first `reserved` clusters. -/
def reservedByte (reserved j : ℕ) : UInt8 := UInt8.ofNat (2 ^ min 8 (reserved - 8 * j) - 1)

lemma reservedByte_zero (j : ℕ) : reservedByte 0 j = 0 := by simp [reservedByte]

lemma reservedByte_succ (k : ℕ) :
    leBytes 1 (ofLe [reservedByte k (k / 8)] ||| 2 ^ (k % 8)) = [reservedByte (k + 1) (k / 8)] := by
  have hk : k - 8 * (k / 8) = k % 8 := by omega
  have hk' : k + 1 - 8 * (k / 8) = k % 8 + 1 := by omega
  unfold reservedByte
  rw [hk, hk']
  have hlt : k % 8 < 8 := Nat.mod_lt _ (by decide)
  generalize k % 8 = m at hlt
  revert m
  decide

lemma reservedByte_other {k j : ℕ} (h : j ≠ k / 8) : reservedByte (k + 1) j = reservedByte k j := by
  unfold reservedByte
  congr 3
  omega

lemma markReserved_lays {reserved n : ℕ} (hzero : ∀ j < n, s.scratch.bytes j = 0) :
    wlp (markReserved reserved) (fun _ t => Buffered s t ∧
      ∀ j < n, t.scratch.bytes j = reservedByte reserved j) s := by
  unfold markReserved
  simp only [wlp_bind, wlp_sectorsLen, wlp_pure]
  refine wlp_loop (fun k _ t => Buffered s t ∧
    ∀ j < n, t.scratch.bytes j = reservedByte k j) ?_ ?_ ?_
  · exact ⟨Buffered.refl s, fun j hj => by rw [hzero j hj, reservedByte_zero]⟩
  · rintro k _ t - - ⟨ht, hbytes⟩
    rw [wlp_bind]
    refine wlp_scratchSlice fun _ => ?_
    simp only [wlp_bind, wlp_pure]
    refine wlp_mono _ scratchPatch_lays ?_
    rintro _ u ⟨hu, -, hpatch⟩
    refine ⟨ht.trans hu, fun j hj => ?_⟩
    rw [hpatch]
    by_cases hjk : j = k / 8
    · subst hjk
      have hone : Image.slice t.scratch.bytes (k / 8) 1 = [reservedByte k (k / 8)] := by
        rw [← hbytes _ hj]
        rfl
      rw [hone, reservedByte_succ]
      exact Image.patch_in (i := 0) (by simp)
    · have hside : j < k / 8 ∨ k / 8 + (leBytes 1
          (ofLe (Image.slice t.scratch.bytes (k / 8) 1) ||| 2 ^ (k % 8))).length ≤ j := by
        rw [leBytes_length]
        omega
      rw [reservedByte_other hjk, ← hbytes j hj]
      rcases hside with h | h
      · exact Image.patch_of_lt h
      · exact Image.patch_of_ge h
  · rintro _ t h
    rwa [Nat.zero_add] at h

/-- The sectors of the bitmap, from `start` on. -/
def bitmapSectors (start reserved : ℕ) : Sectors := fun l i =>
  reservedByte reserved ((l - start) * 512 + i)

lemma reservedByte_past {reserved j : ℕ} (h : reserved ≤ 8 * j) : reservedByte reserved j = 0 := by
  unfold reservedByte
  rw [show reserved - 8 * j = 0 by omega]
  rfl

lemma bitmapBatch_fills {firstLba reserved lba len n : ℕ} (hreserved : reserved ≤ 4096)
    (hlba : firstLba ≤ lba) :
    wlp (do
      scratchPatch len 0 (List.replicate n 0)
      when (lba = firstLba) (markReserved reserved))
      (fun _ t => Buffered s t ∧ ∀ j < n, t.scratch.bytes j =
        reservedByte reserved ((lba - firstLba) * 512 + j)) s := by
  rw [wlp_bind]
  refine wlp_mono _ scratchPatch_lays ?_
  rintro _ t ⟨ht, -, hbytes⟩
  have hzero : ∀ j < n, t.scratch.bytes j = 0 := fun j hj => by
    rw [hbytes]
    unfold Image.patch
    rw [if_pos (by rw [List.length_replicate]; omega),
      List.getD_eq_getElem _ _ (by rwa [List.length_replicate])]
    exact List.getElem_replicate _
  rw [wlp_when]
  refine ⟨fun hfirst => ?_, fun hlater => ⟨ht, fun j hj => ?_⟩⟩
  · refine wlp_mono _ (markReserved_lays hzero) ?_
    rintro _ u ⟨hu, hmarked⟩
    refine ⟨ht.trans hu, fun j hj => ?_⟩
    rw [hmarked j hj, hfirst, Nat.sub_self, Nat.zero_mul, Nat.zero_add]
  · rw [hzero j hj, reservedByte_past (by omega)]

lemma writeBitmap_lays {part heap spc cluster bytes reserved : ℕ} (hreserved : reserved ≤ 4096) :
    wlp (writeBitmap part heap spc cluster bytes reserved) (fun _ t => Formats s t
      (laid s.device.sectors (part + heap + (cluster - 2) * spc) ((bytes + 511) / 512)
        (bitmapSectors (part + heap + (cluster - 2) * spc) reserved))) s := by
  unfold writeBitmap
  rw [wlp_bind]
  refine wlp_clusterLba fun _ => ?_
  generalize part + heap + (cluster - 2) * spc = firstLba
  rw [wlp_bind]
  refine wlp_loop (fun _ v t => ∃ n, v.2 = firstLba + n ∧ v.1 = bytes - n * 512 ∧
    n ≤ (bytes + 511) / 512 ∧ Formats s t
      (laid s.device.sectors firstLba n (bitmapSectors firstLba reserved))) ?_ ?_ ?_
  · refine ⟨0, rfl, rfl, Nat.zero_le _, ?_⟩
    rw [laid_zero]
    exact Formats.refl s
  · rintro - ⟨left, lba⟩ t - - ⟨n, hlba, hleft, hle, ht⟩
    simp only at hlba hleft
    subst hlba
    unfold bitmapBatch
    rw [wlp_ite]
    refine ⟨fun hdone => ?_, fun hmore => ?_⟩
    · rw [wlp_pure]
      simp only [Sum.elim_inl, wlp_pure]
      rwa [show (bytes + 511) / 512 = n by omega]
    · simp only [wlp_bind, wlp_sectorsLen]
      have hlen : t.scratch.len / 512 * 512 / 512 = t.scratch.len / 512 :=
        Nat.mul_div_cancel _ (by decide)
      rw [hlen]
      have hfill := @bitmapBatch_fills t firstLba reserved (firstLba + n)
        (t.scratch.len / 512 * 512)
        (min ((left + 511) / 512) (t.scratch.len / 512) * 512) hreserved (by omega)
      generalize hcount : min ((left + 511) / 512) (t.scratch.len / 512) = count at hfill ⊢
      rw [wlp_bind] at hfill
      refine wlp_mono _ hfill ?_
      intro _ u hu
      refine wlp_mono _ hu ?_
      rintro _ v ⟨hv, hbytes⟩
      refine wlp_mono _ writeSectors_lays ?_
      rintro _ w ⟨-, -, hw⟩
      simp only [wlp_u64, wlp_pure, Sum.elim_inr]
      intro _
      refine ⟨n + count, (Nat.add_assoc _ _ _), by omega, by omega, ?_⟩
      have htw := ht.trans (hv.formats.trans hw)
      rw [hv.device, ht.sectors, Nat.mul_div_cancel _ (by decide),
        laid_congr (bitmapSectors firstLba reserved),
        laid_append fun _ _ _ _ _ => rfl] at htw
      · exact htw
      · intro l i h1 h2 hi
        have hpos : (firstLba + n - firstLba) * 512 + ((l - (firstLba + n)) * 512 + i) =
            (l - firstLba) * 512 + i := by omega
        rw [hbytes _ (by omega), bitmapSectors, hpos]
  · rintro v t -
    simp only [wlp_panic]
/-- Byte `j` of the UpCase table. -/
def upcaseByte (j : ℕ) : UInt8 := (leBytes 2 (upcaseOf (j / 2))).getD (j % 2) 0

/-- The sectors of the UpCase table, from `start` on. -/
def upcaseSectors (start : ℕ) : Sectors := fun l i => upcaseByte ((l - start) * 512 + i)

/-- The checksum of the first `n` words of the UpCase table. -/
def wordsChecksum (n : ℕ) : ℕ := (upcaseWords 0 n).foldl (rotAdd 32) 0

lemma upcaseWords_length (code count : ℕ) : (upcaseWords code count).length = count * 2 := by
  simp [upcaseWords, List.length_flatMap, leBytes_length]

lemma upcaseWords_add (a b : ℕ) :
    upcaseWords 0 (a + b) = upcaseWords 0 a ++ upcaseWords a b := by
  unfold upcaseWords
  rw [← List.range'_append_1, List.flatMap_append, Nat.zero_add]

lemma upcaseWords_getD {code count j : ℕ} (hj : j < count * 2) :
    (upcaseWords code count).getD j 0 = upcaseByte (code * 2 + j) := by
  unfold upcaseWords upcaseByte
  rw [getD_flatMap (fun _ => leBytes_length _ _) hj, show (code * 2 + j) / 2 = code +
    j / 2 by omega,
    show (code * 2 + j) % 2 = j % 2 by omega]

lemma writeUpcase_lays {part heap spc cluster : ℕ} :
    wlp (writeUpcase part heap spc cluster) (fun sum t => sum = wordsChecksum 65536 ∧ Formats s t
      (laid s.device.sectors (part + heap + (cluster - 2) * spc) 256
        (upcaseSectors (part + heap + (cluster - 2) * spc)))) s := by
  unfold writeUpcase
  rw [wlp_bind]
  refine wlp_clusterLba fun _ => ?_
  generalize part + heap + (cluster - 2) * spc = start
  rw [wlp_bind]
  refine wlp_loop (fun _ v t => ∃ n ≤ 256, v = (wordsChecksum (n * 256), n * 256, start + n) ∧
    Formats s t (laid s.device.sectors start n (upcaseSectors start))) ?_ ?_ ?_
  · refine ⟨0, by omega, rfl, ?_⟩
    rw [laid_zero]
    exact Formats.refl s
  · rintro - v t - - ⟨n, hn, rfl, ht⟩
    unfold upcaseBatch
    rw [wlp_ite]
    refine ⟨fun hdone => ?_, fun hmore => ?_⟩
    · obtain rfl : n = 256 := by omega
      rw [wlp_pure]
      simp only [Sum.elim_inl, wlp_pure]
      exact ⟨trivial, ht⟩
    · simp only [wlp_bind, wlp_sectorsLen, wlp_get]
      generalize hcount : min (65536 - n * 256) (t.scratch.len / 2 % 2 ^ 32) = count
      refine wlp_mono _ scratchPatch_lays ?_
      rintro _ u ⟨hu, -, hbytes⟩
      refine wlp_mono _ writeSectors_lays ?_
      rintro _ v ⟨-, hwhole, hv⟩
      simp only [wlp_u64, wlp_pure, Sum.elim_inr]
      intro _
      obtain ⟨m, rfl⟩ : ∃ m, count = m * 256 := ⟨count / 256, by omega⟩
      have hsectors : m * 256 * 2 / 512 = m := by omega
      refine ⟨n + m, by omega, ?_, ?_⟩
      · rw [hsectors]
        refine Prod.ext ?_ (Prod.ext ?_ ?_)
        · change _ = wordsChecksum ((n + m) * 256)
          unfold wordsChecksum
          rw [Nat.add_mul, upcaseWords_add, List.foldl_append]
        · change n * 256 + m * 256 = (n + m) * 256
          omega
        · exact Nat.add_assoc _ _ _
      · have htv := ht.trans (hu.formats.trans hv)
        rw [hu.device, ht.sectors, hsectors, laid_congr (upcaseSectors start),
          laid_append fun _ _ _ _ _ => rfl] at htv
        · exact htv
        · intro l i h1 h2 hi
          rw [hbytes]
          unfold Image.patch
          rw [if_pos (by rw [upcaseWords_length]; omega), Nat.sub_zero,
            upcaseWords_getD (by omega), upcaseSectors]
          congr 1
          omega
  · rintro v t -
    simp only [wlp_panic]

lemma writeRoot_lays {part heap bitmap bitmapBytes upcase checksum : ℕ} :
    wlp (writeRoot part heap bitmap bitmapBytes upcase checksum) (fun _ t => Formats s t
      (laid s.device.sectors (part + heap) 1 fun _ => sectorOf [(0, [0x81]),
        (20, leBytes 4 bitmap), (24, leBytes 8 bitmapBytes), (32, [0x82]),
        (36, leBytes 4 checksum), (52, leBytes 4 upcase), (56, leBytes 8 upcaseBytes)])) s := by
  unfold writeRoot
  rw [wlp_bind]
  refine wlp_mono _ fillSector_lays ?_
  rintro _ t ⟨ht, hbytes⟩
  rw [wlp_bind]
  refine wlp_clusterLba fun _ => ?_
  rw [Nat.sub_self, Nat.zero_mul, Nat.add_zero]
  refine wlp_mono _ writeSector_lays ?_
  rintro _ u ⟨-, hu⟩
  have htu := ht.formats.trans hu
  rw [ht.device] at htu
  rwa [laid_congr _ fun _ i _ _ hi => hbytes i hi] at htu

end ExfatEmbedded.FormatMedia
