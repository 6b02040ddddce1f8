import ExfatEmbedded.FormatMount

/-!
The search of the GPT entry array sector by sector, against the array as one string of bytes.
-/

namespace ExfatEmbedded.Gpt

open ExfatEmbedded.Library Exec ExfatEmbedded.Core ExfatEmbedded.Entry ExfatEmbedded.Allocation
open ExfatEmbedded.Mount ExfatEmbedded.Reading ExfatEmbedded.MountSafety ExfatEmbedded.Listing
open ExfatEmbedded.FormatMedia ExfatEmbedded.FormatMount

/-! ### The array as a whole -/

/-- The sectors from `lba` on as one string of bytes. -/
def arrayImage (size lba : ℕ) (d : Sectors) : Image := fun i => d (lba + i / size) (i % size)

/-- The bytes at `p` begin with the GUID of a basic data partition. -/
def carries (a : Image) (p : ℕ) : Bool := Image.slice a p 16 = basicDataGuidLe

def firstLbaAt (a : Image) (p : ℕ) : ℕ := ofLe (Image.slice a (p + 32) 8)
def lastLbaAt (a : Image) (p : ℕ) : ℕ := ofLe (Image.slice a (p + 40) 8)

/-- The extent named at `p` lies within a device of `n` sectors. -/
def ExtentFits (a : Image) (n p : ℕ) : Prop :=
  firstLbaAt a p ≠ 0 ∧ firstLbaAt a p ≤ lastLbaAt a p ∧ lastLbaAt a p < n

instance (a : Image) (n p : ℕ) : Decidable (ExtentFits a n p) := by
  unfold ExtentFits
  infer_instance

def extentAt (a : Image) (p : ℕ) : Partition :=
  ⟨firstLbaAt a p, lastLbaAt a p - firstLbaAt a p + 1⟩

/-- The outcome when the entries at the places `ps` are searched in this order. -/
def chosen (a : Image) (n : ℕ) (ps : List ℕ) : Outcome Error Partition :=
  match ps.find? (carries a) with
  | none => .err .partitionNotFound
  | some p => if ExtentFits a n p then .ok (extentAt a p) else .err .invalidGpt

/-- The places of the entries of the array. -/
def places (h : GptHeader) : List ℕ := (List.range h.entryCount).map (· * h.entrySize)

/-- What the array as a whole says. -/
def wholeArray (size : ℕ) (h : GptHeader) (dev : Device) : Outcome Error Partition :=
  chosen (arrayImage size h.entriesLba dev.sectors) dev.sectorCount (places h)

def tableSectors (size : ℕ) (h : GptHeader) : ℕ := (h.entryCount * h.entrySize + (size - 1)) / size

/-- A device whose GPT passes the checks, with the header `h`. -/
structure Discovers (size : ℕ) (s : Machine) (h : GptHeader) : Prop where
  scratch : size ≤ s.scratch.len
  healthy : Healthy s
  sectors : 2 ≤ s.device.sectorCount
  header : ∀ t, gptHeader size (Image.slice (s.device.sectors 1) 0 size) t = (.ok h, t)
  start : h.entriesLba ≠ 0
  fits : h.entriesLba + tableSectors size h ≤ s.device.sectorCount
  crc : crc32 (Image.slice (arrayImage size h.entriesLba s.device.sectors) 0
    (h.entryCount * h.entrySize)) = h.entriesCrc

/-! ### The walk -/

/-- The places at which sector `k` of the array is searched. -/
def placesIn (size table entrySize k : ℕ) : List ℕ :=
  ((List.range (size / entrySize)).map fun j => k * size + j * entrySize).filter (· < table)

/-- The places searched in the first `k` sectors. -/
def visited (size table entrySize k : ℕ) : List ℕ :=
  (List.range k).flatMap (placesIn size table entrySize)

lemma visited_succ (size table entrySize k : ℕ) : visited size table entrySize (k + 1) =
    visited size table entrySize k ++ placesIn size table entrySize k := by
  simp [visited, List.range_succ]

lemma placesIn_eq {size table entrySize k j : ℕ} (hj : j ≤ size / entrySize)
    (hin : ∀ i < j, k * size + i * entrySize < table)
    (hout : ∀ i, j ≤ i → i < size / entrySize → table ≤ k * size + i * entrySize) :
    placesIn size table entrySize k = (List.range j).map fun i => k * size + i * entrySize := by
  obtain ⟨r, hr⟩ := Nat.exists_eq_add_of_le hj
  rw [placesIn, hr, List.range_add, List.map_append, List.filter_append,
    List.filter_eq_self.mpr, List.filter_eq_nil_iff.mpr, List.append_nil]
  · simp only [List.map_map, List.mem_map, List.mem_range, Function.comp_apply, decide_eq_true_eq,
      not_lt]
    rintro _ ⟨i, hi, rfl⟩
    exact hout _ (by omega) (by omega)
  · simp only [List.mem_map, List.mem_range, decide_eq_true_eq]
    rintro _ ⟨i, hi, rfl⟩
    exact hin i hi

section Search

variable {a : Image} {n p : ℕ} {ps qs : List ℕ} {candidate : Option Partition}

/-- `candidate` is what the search of the places `ps` has found. -/
structure Searched (a : Image) (n : ℕ) (ps : List ℕ) (candidate : Option Partition) : Prop where
  candidate : candidate = (ps.find? (carries a)).map (extentAt a)
  fits : ∀ p, ps.find? (carries a) = some p → ExtentFits a n p

/-- The first entry found at the places `ps` names no extent of the device. -/
def Misfit (a : Image) (n : ℕ) (ps : List ℕ) : Prop :=
  ∃ p, ps.find? (carries a) = some p ∧ ¬ ExtentFits a n p

lemma Searched.chosen (h : Searched a n ps candidate) :
    chosen a n ps = candidate.elim (.err .partitionNotFound) .ok := by
  rw [h.candidate, Gpt.chosen]
  rcases hfind : ps.find? (carries a) with _ | p
  · rfl
  · exact if_pos (h.fits p hfind)

lemma Misfit.append (h : Misfit a n ps) (qs : List ℕ) : Misfit a n (ps ++ qs) := by
  obtain ⟨p, hfind, hfits⟩ := h
  exact ⟨p, by rw [List.find?_append, hfind, Option.some_or], hfits⟩

lemma Misfit.chosen (h : Misfit a n ps) : chosen a n ps = .err .invalidGpt := by
  obtain ⟨p, hfind, hfits⟩ := h
  rw [Gpt.chosen, hfind]
  exact if_neg hfits

lemma Searched.skip (h : Searched a n ps candidate)
    (hskip : ¬ (carries a p = true ∧ candidate = none)) :
    Searched a n (ps ++ [p]) candidate := by
  have hfind : (ps ++ [p]).find? (carries a) = ps.find? (carries a) := by
    rw [List.find?_append]
    rcases hp : ps.find? (carries a) with _ | q
    · have hnone : candidate = none := by rw [h.candidate, hp]; rfl
      simp [show carries a p = false by simpa [hnone] using hskip]
    · rfl
  exact ⟨by rw [hfind, h.candidate], fun q hq => h.fits q (hfind ▸ hq)⟩

lemma Searched.find_none (h : Searched a n ps none) : ps.find? (carries a) = none := by
  simpa using h.candidate.symm

lemma find_snoc (h : Searched a n ps none) (hp : carries a p = true) :
    (ps ++ [p]).find? (carries a) = some p := by
  rw [List.find?_append, h.find_none]
  simp [hp]

end Search

section Walk

variable {size table entrySize base offset n k : ℕ} {a : Image} {data : List UInt8} {s r : Machine}
  {h : GptHeader} {ps : List ℕ} {candidate : Option Partition}

lemma gptEntry_spec (hsize : size ≤ 4096) (hentry : 128 ≤ entrySize ∧ entrySize ≤ size)
    (hdata : ∀ i l, i + l ≤ size → (data.drop i).take l = Image.slice a (base + i) l)
    (hlen : data.length = size) (hbase : base < 2 ^ 63) (hoffset : offset ≤ size)
    (hs : Searched a s.device.sectorCount ps candidate) :
    wp (gptEntry size table entrySize base data (offset, candidate))
      (Sum.elim
        (fun c t => t = s ∧ c = candidate ∧ (offset + entrySize ≤ size → table ≤ base + offset))
        (fun v t => t = s ∧ v.1 = offset + entrySize ∧ v.1 ≤ size ∧ base + offset < table ∧
          Searched a s.device.sectorCount (ps ++ [base + offset]) v.2))
      (fun e t => t = s ∧ e = .invalidGpt ∧ offset + entrySize ≤ size ∧ base + offset < table ∧
        Misfit a s.device.sectorCount (ps ++ [base + offset])) s := by
  have hbound := s.device.bound
  unfold gptEntry
  simp only [wp_bind, wp_usize, wp_ite, wp_u64, wp_assert, wp_get, wp_throw, wp_pure, wp_sub]
  refine ⟨by omega, fun hstop => ⟨rfl, rfl, fun _ => by omega⟩, fun hstop => ⟨by omega,
    fun hend => ⟨rfl, rfl, fun _ => hend⟩, fun hin => ⟨by omega, ?_⟩⟩⟩
  have hguid : ((data.drop offset).take entrySize).take 16 = Image.slice a (base + offset) 16 := by
    rw [List.take_take, Nat.min_eq_left (by omega), hdata offset 16 (by omega)]
  have hnum (i : ℕ) (hi : i + 8 ≤ entrySize) : numAt ((data.drop offset).take entrySize) i 8 =
      ofLe (Image.slice a (base + offset + i) 8) := by
    rw [hdata offset entrySize (by omega), numAt_slice hi]
  rw [hguid, hnum 32 (by omega), hnum 40 (by omega)]
  refine ⟨fun hmatch => ⟨fun hbad => ?_, fun hgood => ?_⟩, fun hskip => ?_⟩
  · obtain ⟨hguid, rfl⟩ := hmatch
    refine ⟨trivial, trivial, by omega, by omega, base + offset,
      find_snoc hs (by simpa [carries] using hguid),
      fun hfits => ?_⟩
    unfold ExtentFits firstLbaAt lastLbaAt at hfits
    omega
  · obtain ⟨hguid, rfl⟩ := hmatch
    have hfind := find_snoc hs (p := base + offset) (by simpa [carries] using hguid)
    refine ⟨by omega, by omega, rfl, rfl, by omega, by omega, ⟨by rw [hfind]; rfl, ?_⟩⟩
    rintro q hq
    obtain rfl := Option.some.inj (hfind.symm.trans hq)
    unfold ExtentFits firstLbaAt lastLbaAt
    omega
  · exact ⟨rfl, rfl, by omega, by omega, hs.skip (by simpa [carries] using hskip)⟩

lemma crc32Step_append (state : ℕ) (xs ys : List UInt8) :
    crc32Step state (xs ++ ys) = crc32Step (crc32Step state xs) ys := List.foldl_append

/-- The sectors read so far, and what they have shown. -/
structure ArrayRead (size : ℕ) (h : GptHeader) (r : Machine) (k : ℕ) (v : ℕ × Option Partition)
    (t : Machine) : Prop where
  media : OnMedia r t
  crc : v.1 = crc32Step 0xffffffff (Image.slice (arrayImage size h.entriesLba r.device.sectors) 0
    (min (k * size) (h.entryCount * h.entrySize)))
  searched : Searched (arrayImage size h.entriesLba r.device.sectors) r.device.sectorCount
    (visited size (h.entryCount * h.entrySize) h.entrySize k) v.2

lemma arrayImage_slice {lba off l : ℕ} {d : Sectors} (hfit : off + l ≤ size) :
    Image.slice (arrayImage size lba d) (k * size + off) l = Image.slice (d (lba + k)) off l := by
  rcases Nat.eq_zero_or_pos l with rfl | hl
  · rfl
  have hpos : 0 < size := by omega
  refine List.ext_getElem (by simp) fun i h1 h2 => ?_
  have hi : i < l := by simpa using h1
  rw [← List.getD_eq_getElem _ 0 h1, ← List.getD_eq_getElem _ 0 h2, Image.slice_getD _ _ _ _ hi,
    Image.slice_getD _ _ _ _ hi]
  unfold arrayImage
  rw [Nat.add_assoc, Nat.mul_comm, Nat.mul_add_div hpos, Nat.mul_add_mod,
    Nat.div_eq_of_lt (by omega), Nat.mod_eq_of_lt (by omega), Nat.add_zero]

lemma gptEntries_spec (hsize : size ≤ 4096)
    (hentry : 128 ≤ entrySize ∧ entrySize ≤ size)
    (hdata : ∀ i l, i + l ≤ size → (data.drop i).take l = Image.slice a (k * size + i) l)
    (hlen : data.length = size) (hbase : k * size < 2 ^ 63)
    (hs : Searched a s.device.sectorCount ps candidate) :
    wp (loop (fun _ v => gptEntry size table entrySize (k * size) data v) 0 (size + 1)
        (0, candidate))
      (Sum.elim (fun c t => t = s ∧
        Searched a s.device.sectorCount (ps ++ placesIn size table entrySize k) c) fun _ _ => False)
      (fun e t => t = s ∧ e = .invalidGpt ∧
        Misfit a s.device.sectorCount (ps ++ placesIn size table entrySize k)) s := by
  have hroom (j : ℕ) : j * entrySize ≤ size ↔ j ≤ size / entrySize :=
    (Nat.le_div_iff_mul_le (by omega)).symm
  -- after `j` rounds the first `j` places are searched, all of them in the table
  refine wp_loop_post (fun j v t => t = s ∧ v.1 = j * entrySize ∧ v.1 ≤ size ∧
    (∀ i < j, k * size + i * entrySize < table) ∧
    Searched a s.device.sectorCount (ps ++ (List.range j).map fun i => k * size + i * entrySize)
      v.2) ⟨rfl, by simp, by simp, nofun, by simpa using hs⟩ ?_ ?_
  · rintro j ⟨offset, candidate⟩ t - - ⟨rfl, hoffset, hle, hin, hsearched⟩
    dsimp only at hoffset hle hsearched
    subst hoffset
    have hj := (hroom j).mp hle
    have hsnoc : (ps ++ (List.range j).map fun i => k * size + i * entrySize) ++
        [k * size + j * entrySize] =
          ps ++ (List.range (j + 1)).map fun i => k * size + i * entrySize := by
      rw [List.range_succ, List.map_append, List.append_assoc]
      rfl
    have hnext : (j + 1) * entrySize = j * entrySize + entrySize := by ring
    have hin' (h : k * size + j * entrySize < table) (i : ℕ) (hi : i < j + 1) :
        k * size + i * entrySize < table := by
      rcases Nat.lt_or_eq_of_le (Nat.le_of_lt_succ hi) with hlt | rfl
      · exact hin i hlt
      · exact h
    refine wp_mono _ (gptEntry_spec hsize hentry hdata hlen hbase hle hsearched) ?_ ?_
    · rintro (c | v) u hu
      · obtain ⟨rfl, rfl, hend⟩ := hu
        refine ⟨rfl, ?_⟩
        rw [placesIn_eq hj hin fun i hji hi => ?_]
        · exact hsearched
        · have hj1 : j * entrySize + entrySize ≤ size := hnext ▸ (hroom (j + 1)).mpr (by omega)
          have := Nat.mul_le_mul_right entrySize hji
          have := hend hj1
          omega
      · obtain ⟨rfl, hv, hle', hlt, hsearched'⟩ := hu
        rw [hsnoc] at hsearched'
        exact ⟨rfl, by rw [hv, hnext], hle', hin' hlt, hsearched'⟩
    · rintro e u ⟨rfl, rfl, hfit, hlt, hmisfit⟩
      refine ⟨rfl, rfl, ?_⟩
      rw [hsnoc] at hmisfit
      -- the places of the sector begin with those searched
      have hj1 : j + 1 ≤ size / entrySize := (hroom (j + 1)).mp (hnext ▸ hfit)
      obtain ⟨l, hl⟩ := Nat.exists_eq_add_of_le hj1
      rw [placesIn, hl, List.range_add, List.map_append, List.filter_append,
        List.filter_eq_self.mpr, ← List.append_assoc]
      · exact hmisfit.append _
      · simp only [List.mem_map, List.mem_range, decide_eq_true_eq]
        rintro _ ⟨i, hi, rfl⟩
        exact hin' hlt i hi
  · rintro ⟨offset, candidate⟩ t ⟨-, hoffset, hle, -⟩
    have := Nat.le_mul_of_pos_right (0 + (size + 1)) (show 0 < entrySize by omega)
    omega

lemma gptSector_spec (hd : Discovers size r h) (hlo : 512 ≤ size) (hsize : size ≤ 4096)
    (hentry : 128 ≤ h.entrySize ∧ h.entrySize ≤ size) (hcount : h.entryCount ≤ 16384)
    (hk : k < tableSectors size h) {v : ℕ × Option Partition} (hs : ArrayRead size h r k v s) :
    wp (gptSector size (h.entryCount * h.entrySize) h k v)
      (Sum.elim (fun r => r.elim) (ArrayRead size h r (k + 1)))
      (fun e _ => e = .invalidGpt ∧ Misfit (arrayImage size h.entriesLba r.device.sectors)
        r.device.sectorCount (visited size (h.entryCount * h.entrySize) h.entrySize (k + 1)))
        s := by
  have hbound := r.device.bound
  have hfits := hd.fits
  have hscratch := hd.scratch
  have htable : h.entryCount * h.entrySize ≤ 16384 * 4096 := Nat.mul_le_mul hcount (by omega)
  have hbase : k * size < h.entryCount * h.entrySize := by
    have : (k + 1) * size ≤ h.entryCount * h.entrySize + (size - 1) :=
      (Nat.le_div_iff_mul_le (by omega)).mp hk
    rw [Nat.add_mul] at this
    omega
  obtain ⟨crc, candidate⟩ := v
  obtain ⟨hmedia, hcrc, hsearched⟩ := hs
  dsimp only at hcrc hsearched
  unfold gptSector
  simp only [wp_bind, wp_u64]
  refine ⟨by omega, wp_mono _ (readSector_quiet (p := whole s.device.sectorCount)
    (hmedia.scratch.symm ▸ hscratch) ⟨Nat.zero_le _, ?_⟩ ?_) ?_ fun _ _ hf =>
      (Faulted.elim hmedia.healthy hf).elim⟩
  · change h.entriesLba + k < 0 + s.device.sectorCount
    rw [hmedia.sectorCount]
    omega
  · rw [hmedia.sectorCount]
    omega
  rintro _ t ⟨hq, hold⟩
  have ht := hmedia.quiet hq
  rw [wp_scratchSlice' (ht.scratch.symm ▸ hscratch) (by omega)]
  simp only [wp_sub]
  refine ⟨by omega, by omega, ?_⟩
  rw [hold.slice (by omega), ht.sectors]
  have hdata (i l : ℕ) (hil : i + l ≤ size) :
      ((Image.slice (r.device.sectors (h.entriesLba + k)) 0 size).drop i).take l =
        Image.slice (arrayImage size h.entriesLba r.device.sectors) (k * size + i) l := by
    rw [slice_drop_take hil, arrayImage_slice hil, Nat.zero_add]
  rw [← ht.sectorCount] at hsearched
  refine wp_mono _ (gptEntries_spec hsize hentry hdata (by simp) (by omega) hsearched) ?_ ?_
  · rintro (c | v) u hu
    · obtain ⟨rfl, hsearched'⟩ := hu
      rw [ht.sectorCount, ← visited_succ] at hsearched'
      refine ⟨ht, ?_, hsearched'⟩
      dsimp only
      have husable := hdata 0 (min size (h.entryCount * h.entrySize - k * size)) (by omega)
      rw [List.drop_zero, Nat.add_zero] at husable
      rw [hcrc, husable, ← crc32Step_append, Nat.min_eq_left hbase.le]
      have hsplit := Image.slice_add (arrayImage size h.entriesLba r.device.sectors) 0 (k * size)
        (min size (h.entryCount * h.entrySize - k * size))
      rw [Nat.zero_add] at hsplit
      rw [← hsplit, Nat.add_mul, Nat.one_mul]
      congr 2
      omega
    · exact hu.elim
  · rintro e u ⟨-, rfl, hmisfit⟩
    rw [ht.sectorCount, ← visited_succ] at hmisfit
    exact ⟨rfl, hmisfit⟩

end Walk

/-! ### The search -/

section Partition

variable {size : ℕ} {s : Machine} {h : GptHeader}

/-- The places which the search of the sectors goes over. -/
def visitedPlaces (size : ℕ) (h : GptHeader) : List ℕ :=
  visited size (h.entryCount * h.entrySize) h.entrySize (tableSectors size h)

lemma Discovers.bounds (hd : Discovers size s h) (hlo : 512 ≤ size) :
    h.entryCount ≤ 16384 ∧ 128 ≤ h.entrySize ∧ h.entrySize ≤ size :=
  ((wp_ok (hd.header s)).mp (gptHeader_safe hlo (by simp))).2

lemma visited_split {table entrySize k k' : ℕ} (hk : k ≤ k') : ∃ qs,
    visited size table entrySize k' = visited size table entrySize k ++ qs := by
  obtain ⟨l, rfl⟩ := Nat.exists_eq_add_of_le hk
  exact ⟨_, by rw [visited, List.range_add, List.flatMap_append]; rfl⟩

lemma table_le (hpos : 0 < size) : h.entryCount * h.entrySize ≤ tableSectors size h * size := by
  have hmod := Nat.mod_lt (h.entryCount * h.entrySize + (size - 1)) hpos
  have hdiv := Nat.div_add_mod (h.entryCount * h.entrySize + (size - 1)) size
  rw [Nat.mul_comm] at hdiv
  unfold tableSectors
  omega

/-- **The partition found is that of the first place visited which carries the GUID.** -/
theorem gptPartition_visits (hd : Discovers size s h) (hlo : 512 ≤ size) (hsize : size ≤ 4096) :
    (gptPartition size s).1 = chosen (arrayImage size h.entriesLba s.device.sectors)
      s.device.sectorCount (visitedPlaces size h) := by
  obtain ⟨hcount, hentry⟩ := hd.bounds hlo
  have hbound := s.device.bound
  have hfits := hd.fits
  have hsectors := hd.sectors
  have htable : h.entryCount * h.entrySize ≤ 16384 * 4096 := Nat.mul_le_mul hcount (by omega)
  have hmul : checkedMul64 h.entryCount h.entrySize = some (h.entryCount * h.entrySize) :=
    if_pos (by omega)
  have hadd : checkedAdd64 (h.entryCount * h.entrySize) (size - 1) =
      some (h.entryCount * h.entrySize + (size - 1)) := if_pos (by omega)
  have hend : checkedAdd64 h.entriesLba (tableSectors size h) =
      some (h.entriesLba + tableSectors size h) := if_pos (by omega)
  suffices hrun : wp (gptPartition size)
      (fun p _ => chosen (arrayImage size h.entriesLba s.device.sectors) s.device.sectorCount
        (visitedPlaces size h) = .ok p)
      (fun e _ => chosen (arrayImage size h.entriesLba s.device.sectors) s.device.sectorCount
        (visitedPlaces size h) = .err e) s by
    unfold wp at hrun
    rcases hm : gptPartition size s with ⟨p | e | _, t⟩ <;> rw [hm] at hrun
    · exact hrun.symm
    · exact hrun.symm
    · exact hrun.elim
  unfold gptPartition
  simp only [wp_bind, wp_get, wp_ite, wp_throw]
  refine ⟨fun hbad => absurd hsectors (by omega), fun _ => ?_⟩
  refine wp_mono _ (readSector_quiet (p := whole s.device.sectorCount) hd.scratch
    ⟨Nat.zero_le _, ?_⟩ (by omega)) ?_ fun _ _ hf => (Faulted.elim hd.healthy hf).elim
  · change 1 < 0 + s.device.sectorCount
    omega
  rintro _ t ⟨hq, hold⟩
  have ht := (OnMedia.refl hd.healthy).quiet hq
  rw [wp_scratchSlice' (ht.scratch.symm ▸ hd.scratch) (by omega), hold.slice (by omega), ht.sectors,
    wp_ok (hd.header t), hmul, okOr_some, wp_pure, wp_sub]
  refine ⟨by omega, ?_⟩
  rw [hadd, okOr_some, wp_pure, wp_div]
  refine ⟨by omega, ?_⟩
  change (h.entriesLba = 0 ∨ (!(checkedAdd64 h.entriesLba (tableSectors size h)).any
    (· ≤ t.device.sectorCount)) = true → _) ∧ _
  rw [hend, ht.sectorCount]
  refine ⟨fun hbad => absurd hbad (by simp [hd.start, hfits]), fun _ => ?_⟩
  refine wp_loop_post (ArrayRead size h s) ⟨ht, by simp [Image.slice, crc32Step], rfl, nofun⟩ ?_ ?_
  · rintro k v u - hk hu
    have hk : k < tableSectors size h := by rwa [Nat.zero_add] at hk
    refine wp_mono _ (gptSector_spec hd hlo hsize hentry hcount hk hu) ?_ ?_
    · rintro (e | w) x hx
      · exact e.elim
      · exact hx
    · rintro e x ⟨rfl, hmisfit⟩
      obtain ⟨qs, hqs⟩ : ∃ qs, visitedPlaces size h = _ ++ qs := visited_split hk
      rw [hqs]
      exact (hmisfit.append qs).chosen
  · rintro ⟨crc, candidate⟩ u ⟨-, hcrc, hsearched⟩
    have hcover := table_le (h := h) (show 0 < size by omega)
    dsimp only at hcrc hsearched
    rw [Nat.zero_add] at hcrc hsearched
    unfold tableSectors at hcover
    rw [Nat.min_eq_right hcover] at hcrc
    have hsearched : Searched _ _ (visitedPlaces size h) candidate := hsearched
    have hchecked : crc ^^^ 0xffffffff = h.entriesCrc := by rw [hcrc, ← hd.crc, crc32]
    simp only [wp_ite, wp_throw, wp_okOr]
    refine ⟨fun hbad => absurd hchecked hbad, fun _ => ⟨fun p hp => ?_, fun hnone => ?_⟩⟩
    · rw [hsearched.chosen, hp]
      rfl
    · rw [hsearched.chosen, hnone]
      rfl

/-! ### When the walk is the array -/

/-- In a sector which begins with the entry `k * (size / entrySize)` its entries are searched. -/
lemma placesIn_aligned {entryCount entrySize k : ℕ} (hpos : 0 < entrySize)
    (hstart : k * size = k * (size / entrySize) * entrySize)
    (hk : k * (size / entrySize) ≤ entryCount) :
    placesIn size (entryCount * entrySize) entrySize k =
      (List.range (min (size / entrySize) (entryCount - k * (size / entrySize)))).map
        fun i => (k * (size / entrySize) + i) * entrySize := by
  have hplace (i : ℕ) : k * size + i * entrySize = (k * (size / entrySize) + i) * entrySize := by
    rw [hstart, Nat.add_mul]
  rw [placesIn_eq (Nat.min_le_left _ _)]
  · exact List.map_congr_left fun i _ => hplace i
  · intro i hi
    rw [hplace]
    exact Nat.mul_lt_mul_of_pos_right (by omega) hpos
  · intro i h1 h2
    rw [hplace]
    exact Nat.mul_le_mul_right _ (by omega)

lemma visited_aligned {entryCount entrySize k : ℕ} (hpos : 0 < entrySize)
    (hstart : ∀ i < k, i * size = i * (size / entrySize) * entrySize) :
    visited size (entryCount * entrySize) entrySize k =
      (List.range (min (k * (size / entrySize)) entryCount)).map (· * entrySize) := by
  induction k with
  | zero => simp [visited]
  | succ k ih =>
    rw [visited_succ, ih fun i hi => hstart i (by omega)]
    have hnext : (k + 1) * (size / entrySize) = k * (size / entrySize) + size / entrySize := by ring
    rcases Nat.le_total (k * (size / entrySize)) entryCount with hle | hge
    · rw [placesIn_aligned hpos (hstart k (by omega)) hle, Nat.min_eq_left hle,
        show min ((k + 1) * (size / entrySize)) entryCount = k * (size / entrySize) +
          min (size / entrySize) (entryCount - k * (size / entrySize)) by omega,
        List.range_add, List.map_append, List.map_map]
      rfl
    · rw [placesIn_eq (Nat.zero_le _) nofun fun i _ _ => ?_]
      · rw [Nat.min_eq_right hge,
          Nat.min_eq_right (hge.trans (Nat.mul_le_mul_right _ (Nat.le_succ k)))]
        simp
      · rw [hstart k (by omega), ← Nat.add_mul]
        exact Nat.mul_le_mul_right _ (by omega)

lemma visitedPlaces_eq (hlo : 0 < size) (hentry : 0 < h.entrySize ∧ h.entrySize ≤ size)
    (hfits : h.entrySize ∣ size ∨ h.entryCount ≤ size / h.entrySize) :
    visitedPlaces size h = places h := by
  have hcover := table_le (h := h) hlo
  unfold visitedPlaces places
  rcases hfits with hdvd | hone
  · have hsize : size / h.entrySize * h.entrySize = size := Nat.div_mul_cancel hdvd
    rw [visited_aligned hentry.1 fun i _ => by rw [Nat.mul_assoc, hsize], Nat.min_eq_right]
    refine Nat.le_of_mul_le_mul_right ?_ hentry.1
    rwa [Nat.mul_assoc, hsize]
  · have hle : h.entryCount * h.entrySize ≤ size := (Nat.le_div_iff_mul_le hentry.1).mp hone
    have hsectors : tableSectors size h < 2 := by
      unfold tableSectors
      rw [Nat.div_lt_iff_lt_mul hlo]
      omega
    rw [visited_aligned hentry.1 fun i hi => by rw [show i = 0 by omega]; simp, Nat.min_eq_right]
    rcases Nat.eq_zero_or_pos (tableSectors size h) with hz | hpos
    · rw [hz, Nat.zero_mul, Nat.le_zero, Nat.mul_eq_zero] at hcover
      have := hcover.resolve_right hentry.1.ne'
      omega
    · rw [show tableSectors size h = 1 by omega, Nat.one_mul]
      exact hone

lemma chosen_append {a : Image} {n : ℕ} {ps : List ℕ} (hsome : ∃ p ∈ ps, carries a p = true)
    (qs : List ℕ) : chosen a n (ps ++ qs) = chosen a n ps := by
  obtain ⟨p, hp⟩ := Option.isSome_iff_exists.mp (List.find?_isSome.mpr hsome)
  unfold chosen
  rw [List.find?_append, hp]
  rfl

/-- **A match among the entries of the first sector is found whatever the size of an entry.** -/
theorem gptPartition_firstSector (hd : Discovers size s h) (hlo : 512 ≤ size) (hsize : size ≤ 4096)
    (hmatch : ∃ i < min (size / h.entrySize) h.entryCount,
      carries (arrayImage size h.entriesLba s.device.sectors) (i * h.entrySize) = true) :
    (gptPartition size s).1 = wholeArray size h s.device := by
  obtain ⟨-, hentry⟩ := hd.bounds hlo
  obtain ⟨i, hi, hcarries⟩ := hmatch
  have hpos : 0 < h.entryCount * h.entrySize := Nat.mul_pos (by omega) (by omega)
  have htable : 1 ≤ tableSectors size h := by
    unfold tableSectors
    rw [Nat.le_div_iff_mul_le (by omega)]
    omega
  have hfirst := @visited_aligned size h.entryCount h.entrySize 1 (by omega) fun k hk => by
    rw [show k = 0 by omega]
    simp
  rw [Nat.one_mul] at hfirst
  have hsome : ∃ p ∈ (List.range (min (size / h.entrySize) h.entryCount)).map (· * h.entrySize),
      carries (arrayImage size h.entriesLba s.device.sectors) p = true :=
    ⟨_, List.mem_map_of_mem (List.mem_range.mpr hi), hcarries⟩
  obtain ⟨qs, hqs⟩ := @visited_split size (h.entryCount * h.entrySize) h.entrySize 1 _ htable
  obtain ⟨l, hl⟩ := Nat.exists_eq_add_of_le (Nat.min_le_right (size / h.entrySize) h.entryCount)
  have hplaces : places h = (List.range (min (size / h.entrySize) h.entryCount)).map
      (· * h.entrySize) ++ ((List.range l).map (min (size / h.entrySize) h.entryCount + ·)).map
        (· * h.entrySize) := by
    unfold places
    nth_rewrite 1 [hl]
    rw [List.range_add, List.map_append]
  rw [gptPartition_visits hd hlo hsize, wholeArray, visitedPlaces, hqs, hfirst, hplaces,
    chosen_append hsome, chosen_append hsome]

end Partition

/-! ### An array which is misread -/

section Hidden

variable {size entryCount entrySize p : ℕ}

/-- The GUID at the first place which crosses a sector border, and nothing else. -/
def hiddenArray (size entrySize : ℕ) : Image :=
  Image.patch (fun _ => 0) (size / entrySize * entrySize) basicDataGuidLe

lemma carries_hidden : carries (hiddenArray size entrySize) p = true ↔
    p = size / entrySize * entrySize := by
  simp only [carries, decide_eq_true_eq]
  refine ⟨fun h => ?_, fun h => h ▸ Image.slice_patch_self _ _ _⟩
  -- no byte of the GUID is zero
  have hbyte (i : ℕ) (hi : i < 16) : size / entrySize * entrySize ≤ p + i ∧
      p + i < size / entrySize * entrySize + 16 := by
    have hget := Image.slice_getD (hiddenArray size entrySize) p 16 i hi
    rw [h] at hget
    by_contra hout
    have hzero : hiddenArray size entrySize (p + i) = 0 := if_neg hout
    have hnonzero : ∀ j < 16, basicDataGuidLe.getD j 0 ≠ 0 := by decide
    exact hnonzero i hi (hget.trans hzero)
  have h0 := hbyte 0 (by decide)
  have h15 := hbyte 15 (by decide)
  omega

lemma firstLba_hidden :
    firstLbaAt (hiddenArray size entrySize) (size / entrySize * entrySize) = 0 := by
  have hzero : Image.slice (hiddenArray size entrySize) (size / entrySize * entrySize + 32) 8 =
      Image.slice (fun _ => 0) (size / entrySize * entrySize + 32) 8 :=
    Image.slice_patch_disjoint (Or.inr (Nat.add_le_add_left (by decide) _))
  have hblank : Image.slice (fun _ => 0) (size / entrySize * entrySize + 32) 8 =
      List.replicate 8 0 := by
    simp only [Image.slice, List.replicate_succ, List.replicate_zero]
  rw [firstLbaAt, hzero, hblank]
  rfl

/-- The header but for its checksum. -/
def plainHeader (entryCount entrySize entriesCrc : ℕ) : Image :=
  sectorOf [(0, gptSignature), (12, leBytes 4 92), (72, leBytes 8 2), (80, leBytes 4 entryCount),
    (84, leBytes 4 entrySize), (88, leBytes 4 entriesCrc)]

def sealedHeader (entryCount entrySize entriesCrc : ℕ) : Image :=
  Image.patch (plainHeader entryCount entrySize entriesCrc) 16
    (leBytes 4 (crc32 (Image.slice (plainHeader entryCount entrySize entriesCrc) 0 92)))

lemma crc32Bits_lt {n state : ℕ} (h : state < 2 ^ 32) : crc32Bits n state < 2 ^ 32 := by
  induction n generalizing state with
  | zero => exact h
  | succ n ih =>
    refine ih ?_
    split_ifs
    · exact Nat.xor_lt_two_pow (by omega) (by decide)
    · omega

lemma crc32Step_lt {state : ℕ} (h : state < 2 ^ 32) (bytes : List UInt8) :
    crc32Step state bytes < 2 ^ 32 := by
  induction bytes generalizing state with
  | nil => exact h
  | cons b bytes ih =>
    have hb := b.toNat_lt
    exact ih (crc32Bits_lt (Nat.xor_lt_two_pow h (by omega)))

lemma crc32_lt (bytes : List UInt8) : crc32 bytes < 2 ^ 32 :=
  Nat.xor_lt_two_pow (crc32Step_lt (by decide) bytes) (by decide)

lemma ascending_plainHeader (entryCount entrySize entriesCrc : ℕ) :
    Ascending [(0, gptSignature), (12, leBytes 4 92), (72, leBytes 8 2), (80, leBytes 4 entryCount),
      (84, leBytes 4 entrySize), (88, leBytes 4 entriesCrc)] := by
  simp [Ascending, gptSignature]

lemma slice_sealedHeader {entriesCrc i n : ℕ} (h : i + n ≤ 16 ∨ 20 ≤ i) :
    Image.slice (sealedHeader entryCount entrySize entriesCrc) i n =
      Image.slice (plainHeader entryCount entrySize entriesCrc) i n :=
  Image.slice_patch_disjoint (by rw [leBytes_length]; exact h)

lemma overlay_sealedHeader {entriesCrc : ℕ} (hsize : 512 ≤ size) :
    overlay (Image.slice (sealedHeader entryCount entrySize entriesCrc) 0 size) 16 [0, 0, 0, 0] =
      Image.slice (plainHeader entryCount entrySize entriesCrc) 0 size := by
  have hzero : Image.slice (plainHeader entryCount entrySize entriesCrc) 16 4 = [0, 0, 0, 0] :=
    slice_overlaid_outside (m := fun _ => 0) (by simp [gptSignature])
  have htake : (Image.slice (sealedHeader entryCount entrySize entriesCrc) 0 size).take 16 =
      Image.slice (plainHeader entryCount entrySize entriesCrc) 0 16 := by
    rw [← List.drop_zero (l := Image.slice _ 0 size), slice_drop_take (by omega),
      slice_sealedHeader (by omega)]
  obtain ⟨l, rfl⟩ := Nat.exists_eq_add_of_le (show 20 ≤ size by omega)
  have hdrop : (Image.slice (sealedHeader entryCount entrySize entriesCrc) 0 (20 + l)).drop 20 =
      Image.slice (plainHeader entryCount entrySize entriesCrc) 20 l := by
    rw [Image.slice_add, List.drop_left' (Image.slice_length _ _ _), slice_sealedHeader (by omega)]
  rw [overlay, htake, ← hzero, Image.slice_length, hdrop, ← Image.slice_add, ← Image.slice_add]

lemma gptHeader_sealed {entriesCrc : ℕ} (hlo : 512 ≤ size) (hhi : size ≤ 4096)
    (hcount : 0 < entryCount ∧ entryCount ≤ 16384)
    (hentry : 128 ≤ entrySize ∧ entrySize ≤ size ∧ entrySize % 8 = 0) (hcrc : entriesCrc < 2 ^ 32)
    (t : Machine) :
    gptHeader size (Image.slice (sealedHeader entryCount entrySize entriesCrc) 0 size) t =
      (.ok ⟨2, entryCount, entrySize, entriesCrc⟩, t) := by
  have hascending := ascending_plainHeader entryCount entrySize entriesCrc
  have hfield (i n v : ℕ) (hi : i + n ≤ 512) (hv : v < 256 ^ n)
      (hmem : (i, leBytes n v) ∈ [(0, gptSignature), (12, leBytes 4 92), (72, leBytes 8 2),
        (80, leBytes 4 entryCount), (84, leBytes 4 entrySize), (88, leBytes 4 entriesCrc)]) :
      numAt (Image.slice (plainHeader entryCount entrySize entriesCrc) 0 size) i n = v := by
    rw [numAt_slice (by omega), Nat.zero_add]
    exact ofLe_sectorOf hascending hmem hv
  have hsealed (i n : ℕ) (hi : i + n ≤ 16) :
      numAt (Image.slice (sealedHeader entryCount entrySize entriesCrc) 0 size) i n =
        numAt (Image.slice (plainHeader entryCount entrySize entriesCrc) 0 size) i n := by
    rw [numAt_slice (by omega), numAt_slice (by omega), slice_sealedHeader (by omega)]
  have hsignature : (Image.slice (sealedHeader entryCount entrySize entriesCrc) 0 size).take 8 =
      gptSignature := by
    rw [← List.drop_zero (l := Image.slice _ 0 size), slice_drop_take (by omega),
      slice_sealedHeader (by omega)]
    exact @slice_overlaid (fun _ => 0) 0 gptSignature _ hascending (by simp)
  have hchecksum : numAt (Image.slice (sealedHeader entryCount entrySize entriesCrc) 0 size) 16 4 =
      crc32 ((Image.slice (plainHeader entryCount entrySize entriesCrc) 0 size).take 92) := by
    rw [numAt_slice (by omega), ← List.drop_zero (l := Image.slice (plainHeader _ _ _) 0 size),
      slice_drop_take (by omega)]
    have hself := Image.slice_patch_self (plainHeader entryCount entrySize entriesCrc) 16
      (leBytes 4 (crc32 (Image.slice (plainHeader entryCount entrySize entriesCrc) 0 92)))
    rw [leBytes_length] at hself
    rw [Nat.zero_add, sealedHeader, hself, ofLe_leBytes_of_lt (crc32_lt _)]
  suffices hrun : wp (gptHeader size
      (Image.slice (sealedHeader entryCount entrySize entriesCrc) 0 size))
      (fun v u => v = ⟨2, entryCount, entrySize, entriesCrc⟩ ∧ u = t) (fun _ _ => False) t by
    obtain ⟨v, u, hm, rfl, rfl⟩ := exists_of_wp hrun
    exact hm
  unfold gptHeader
  simp only [wp_bind, wp_assert, Image.slice_length]
  refine ⟨by omega, ?_⟩
  rw [wp_ite]
  refine ⟨fun hbad => absurd hsignature hbad, fun _ => ?_⟩
  rw [wp_bind, wp_headerField (by simp; omega), hsealed 12 4 (by decide),
    hfield 12 4 92 (by decide) (by decide) (by simp), wp_ite]
  refine ⟨fun hbad => absurd hbad (by omega), fun _ => ?_⟩
  rw [wp_bind, wp_headerField (by simp; omega), hchecksum]
  simp only [overlay_sealedHeader hlo, wp_bind, wp_assert, Image.slice_length]
  refine ⟨by omega, ?_⟩
  rw [wp_ite]
  refine ⟨fun hbad => absurd rfl hbad, fun _ => ?_⟩
  rw [wp_bind, wp_headerField (by simp; omega), hfield 72 8 2 (by decide) (by decide) (by simp),
    wp_bind, wp_headerField (by simp; omega), hfield 80 4 entryCount (by decide) (by omega)
    (by simp),
    wp_bind, wp_headerField (by simp; omega), hfield 84 4 entrySize (by decide) (by omega)
      (by simp),
    wp_bind, wp_headerField (by simp; omega), hfield 88 4 entriesCrc (by decide) hcrc (by simp),
    wp_ite]
  exact ⟨fun hbad => absurd hbad (by omega), fun _ => ⟨rfl, rfl⟩⟩

/-- A device with the bytes `a` for its array. -/
def holding (a : Image) (size entryCount entrySize : ℕ) : Machine where
  device :=
    { sectorSize := size
      sectorCount := 2 ^ 40
      sectors := fun lba =>
        if lba = 1 then sealedHeader entryCount entrySize
          (crc32 (Image.slice a 0 (entryCount * entrySize)))
        else fun i => a ((lba - 2) * size + i) }
  scratch := ⟨size, fun _ => 0⟩

def holdingHeader (a : Image) (entryCount entrySize : ℕ) : GptHeader :=
  ⟨2, entryCount, entrySize, crc32 (Image.slice a 0 (entryCount * entrySize))⟩

lemma arrayImage_holding (a : Image) :
    arrayImage size 2 (holding a size entryCount entrySize).device.sectors = a := by
  funext i
  have hlba : 2 + i / size ≠ 1 := (Nat.lt_add_right (i / size) Nat.one_lt_two).ne'
  unfold arrayImage holding
  simp only
  rw [if_neg hlba, Nat.add_sub_cancel_left, Nat.div_add_mod']

lemma discovers_holding (a : Image) (hlo : 512 ≤ size) (hhi : size ≤ 4096)
    (hcount : 0 < entryCount ∧ entryCount ≤ 16384)
    (hentry : 128 ≤ entrySize ∧ entrySize ≤ size ∧ entrySize % 8 = 0) :
    Discovers size (holding a size entryCount entrySize)
      (holdingHeader a entryCount entrySize) where
  scratch := le_rfl
  healthy _ := rfl
  sectors := show 2 ≤ 2 ^ 40 by decide
  header t := gptHeader_sealed hlo hhi hcount hentry (crc32_lt _) t
  start := show 2 ≠ 0 by decide
  fits := by
    have htable : entryCount * entrySize ≤ 16384 * 4096 := Nat.mul_le_mul hcount.2 (by omega)
    have hle : (entryCount * entrySize + (size - 1)) / size ≤ entryCount * entrySize + (size - 1) :=
      Nat.div_le_self _ _
    change 2 + (entryCount * entrySize + (size - 1)) / size ≤ 2 ^ 40
    omega
  crc := by
    change crc32 (Image.slice
      (arrayImage size 2 (holding a size entryCount entrySize).device.sectors) 0
      (entryCount * entrySize)) = _
    rw [arrayImage_holding]
    rfl

lemma wholeArray_holding (a : Image) :
    wholeArray size (holdingHeader a entryCount entrySize)
    (holding a size entryCount entrySize).device =
      chosen a (2 ^ 40) (places (holdingHeader a entryCount entrySize)) := by
  change chosen (arrayImage size 2 _) _ _ = _
  rw [arrayImage_holding]
  rfl

lemma gptPartition_holding (a : Image) (hlo : 512 ≤ size) (hhi : size ≤ 4096)
    (hcount : 0 < entryCount ∧ entryCount ≤ 16384)
    (hentry : 128 ≤ entrySize ∧ entrySize ≤ size ∧ entrySize % 8 = 0) :
    (gptPartition size (holding a size entryCount entrySize)).1 =
      chosen a (2 ^ 40) (visitedPlaces size (holdingHeader a entryCount entrySize)) := by
  rw [gptPartition_visits (discovers_holding a hlo hhi hcount hentry) hlo hhi]
  change chosen (arrayImage size 2 _) _ _ = _
  rw [arrayImage_holding]
  rfl

lemma not_mem_visited (hpos : 0 < entrySize) (hcross : ¬ entrySize ∣ size) (table k : ℕ) :
    size / entrySize * entrySize ∉ visited size table entrySize k := by
  intro hmem
  obtain ⟨i, -, hi⟩ := List.mem_flatMap.mp hmem
  obtain ⟨j, hj, hplace⟩ := List.mem_map.mp (List.mem_filter.mp hi).1
  have hlt : size / entrySize * entrySize < size := by
    refine lt_of_le_of_ne (Nat.div_mul_le_self _ _) fun heq => hcross ?_
    exact ⟨size / entrySize, by rw [Nat.mul_comm]; exact heq.symm⟩
  rcases Nat.eq_zero_or_pos i with rfl | hi
  · rw [Nat.zero_mul, Nat.zero_add] at hplace
    have := Nat.eq_of_mul_eq_mul_right hpos hplace
    have := List.mem_range.mp hj
    omega
  · have := Nat.le_mul_of_pos_left size hi
    omega

end Hidden

/-- **The search by sectors is the search of the array exactly for the headers whose entries do not
cross a sector border.** -/
theorem gptPartition_whole_iff (size entryCount entrySize : ℕ)
    (hsize : size = 512 ∨ size = 1024 ∨ size = 2048 ∨ size = 4096)
    (hcount : 0 < entryCount ∧ entryCount ≤ 16384)
    (hentry : 128 ≤ entrySize ∧ entrySize ≤ size ∧ entrySize % 8 = 0) :
    (∀ s h, Discovers size s h → h.entryCount = entryCount → h.entrySize = entrySize →
      (gptPartition size s).1 = wholeArray size h s.device) ↔
        (entrySize ∣ size ∨ entryCount ≤ size / entrySize) := by
  have hlo : 512 ≤ size := by omega
  have hhi : size ≤ 4096 := by omega
  constructor
  · intro hall
    by_contra hcross
    obtain ⟨hdvd, hmany⟩ := not_or.mp hcross
    have hrun := hall _ _ (discovers_holding (hiddenArray size entrySize) hlo hhi hcount
      hentry) rfl rfl
    rw [gptPartition_holding _ hlo hhi hcount hentry, wholeArray_holding] at hrun
    have hwalk : (visitedPlaces size (holdingHeader (hiddenArray size entrySize) entryCount
      entrySize)).find?
        (carries (hiddenArray size entrySize)) = none := by
      refine List.find?_eq_none.mpr fun p hp hcarries => ?_
      rw [carries_hidden.mp hcarries] at hp
      exact not_mem_visited (by omega) hdvd _ _ hp
    have hmisfit : Misfit (hiddenArray size entrySize) (2 ^ 40)
        (places (holdingHeader (hiddenArray size entrySize) entryCount entrySize)) := by
      have hplace : size / entrySize * entrySize ∈ places
          (holdingHeader (hiddenArray size entrySize) entryCount entrySize) :=
        List.mem_map_of_mem (List.mem_range.mpr (Nat.lt_of_not_le hmany))
      obtain ⟨p, hfind⟩ := Option.isSome_iff_exists.mp
        (List.find?_isSome.mpr ⟨_, hplace, carries_hidden.mpr rfl⟩)
      refine ⟨p, hfind, fun hfits => hfits.1 ?_⟩
      rw [carries_hidden.mp (List.find?_some hfind)]
      exact firstLba_hidden
    have hwhole := hmisfit.chosen
    rw [chosen, hwalk] at hrun
    cases hrun.trans hwhole
  · rintro hfits s h hd rfl rfl
    rw [gptPartition_visits hd hlo hhi, visitedPlaces_eq (by omega) ⟨by omega, hentry.2.1⟩ hfits]
    rfl

theorem gptPartition_whole_iff_pair :
    (∀ s h, Discovers 512 s h → h.entryCount = 128 → h.entrySize = 128 →
      (gptPartition 512 s).1 = wholeArray 512 h s.device) ∧
    ¬ (∀ s h, Discovers 512 s h → h.entryCount = 3 → h.entrySize = 192 →
      (gptPartition 512 s).1 = wholeArray 512 h s.device) :=
  ⟨(gptPartition_whole_iff 512 128 128 (.inl rfl) (by decide) (by decide)).mpr (by decide),
    fun h => absurd ((gptPartition_whole_iff 512 3 192 (.inl rfl) (by decide) (by decide)).mp h)
      (by decide)⟩

/-- Three entries of 192 bytes, the third one a partition. -/
def crossingArray : Image :=
  Image.patch (hiddenArray 512 192) 416 (leBytes 8 40 ++ leBytes 8 80)

theorem gptPartition_misses :
    Discovers 512 (holding crossingArray 512 3 192) (holdingHeader crossingArray 3 192) ∧
      wholeArray 512 (holdingHeader crossingArray 3 192) (holding crossingArray 512 3 192).device =
        .ok ⟨40, 41⟩ ∧
      (gptPartition 512 (holding crossingArray 512 3 192)).1 = .err .partitionNotFound := by
  refine ⟨discovers_holding _ (by decide) (by decide) (by decide) (by decide), ?_, ?_⟩
  · rw [wholeArray_holding]
    decide +kernel
  · rw [gptPartition_holding _ (by decide) (by decide) (by decide) (by decide)]
    decide +kernel

end ExfatEmbedded.Gpt
