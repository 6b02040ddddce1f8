import ExfatEmbedded.FreeSpace
import ExfatEmbedded.Tree

/-!
What `read` returns: the bytes of the clusters of the stream.
-/

namespace ExfatEmbedded.Readback

open ExfatEmbedded.Library Exec ExfatEmbedded.Core ExfatEmbedded.Entry ExfatEmbedded.Allocation
open ExfatEmbedded.FileIo ExfatEmbedded.Reading ExfatEmbedded.ReadSafety ExfatEmbedded.Listing
open ExfatEmbedded.Media ExfatEmbedded.Tree ExfatEmbedded.FreeSpace

/-- The bytes of the stream in the clusters `cs`, from `pos` to `pos + n`. -/
def streamBytes (g : Geometry) (d : Sectors) (cs : List ℕ) (pos n : ℕ) : List UInt8 :=
  (List.range n).map fun i => streamByte g d cs (pos + i)

section Bytes

variable {g : Geometry} {d : Sectors} {cs : List ℕ} {pos m n : ℕ}

@[simp] lemma streamBytes_length : (streamBytes g d cs pos n).length = n := by simp [streamBytes]

lemma streamBytes_add : streamBytes g d cs pos (m + n) =
    streamBytes g d cs pos m ++ streamBytes g d cs (pos + m) n := by
  unfold streamBytes
  rw [List.range_add, List.map_append, List.map_map]
  refine congrArg _ (List.map_congr_left fun i _ => ?_)
  simp only [Function.comp_apply]
  rw [Nat.add_assoc]

lemma take_streamBytes (h : m ≤ n) :
    (streamBytes g d cs pos n).take m = streamBytes g d cs pos m := by
  rw [show n = m + (n - m) by omega, streamBytes_add, List.take_left' (by simp)]

lemma slice_eq_streamBytes (hsector : (streamPos g cs pos).2 + n ≤ g.bytesPerSector)
    (hcluster : pos % clusterSize g + n ≤ clusterSize g) :
    Image.slice (d (streamPos g cs pos).1) (streamPos g cs pos).2 n = streamBytes g d cs pos n := by
  refine List.ext_getElem (by simp) fun i h1 h2 => ?_
  have hi : i < n := by simpa using h2
  rw [← List.getD_eq_getElem _ 0 h1, slice_streamPos d cs hsector hcluster hi]
  simp [streamBytes]

end Bytes

variable {vol : Volume} {s : Machine} {file : File} {n : ℕ}

/-- The stream of a handle has `n` clusters. -/
structure Streams (g : Geometry) (d : Sectors) (file : File) (n : ℕ) : Prop where
  heap : ∀ i < n, g.InHeap (nthCluster g d file.firstCluster file.noFatChain i)
  short : n ≤ g.clusterCount
  cached : ∀ i, file.cachedClusterIndex = some i → i < n ∧
    file.cachedCluster = nthCluster g d file.firstCluster file.noFatChain i

lemma walkStart_link {g : Geometry} {d : Sectors} {first : ℕ} (hfirst : file.firstCluster = first)
    (hcached : ∀ i, file.cachedClusterIndex = some i → file.cachedCluster = link g d first i)
    (wanted : ℕ) :
    (file.walkStart wanted).2 = link g d first (file.walkStart wanted).1 := by
  unfold File.walkStart
  split
  · rename_i i hi
    split_ifs
    · exact hcached i hi
    · exact hfirst
  · exact hfirst

lemma Streams.lt {g : Geometry} {d : Sectors} {m : ℕ} (h : Streams g d file n) (hs : Sound g m) :
    n * clusterSize g < 2 ^ 64 := by
  have hcount := hs.clusterCount
  have hshort := h.short
  calc n * clusterSize g ≤ 2 ^ 32 * 2 ^ 25 := Nat.mul_le_mul (by omega) hs.clusterBytes
    _ < 2 ^ 64 := by decide

lemma Streams.moved {g : Geometry} {d : Sectors} {f : File} {pos : ℕ} (h : Streams g d file n)
    (hhandle : f = { file with
      position := pos
      cachedClusterIndex := f.cachedClusterIndex
      cachedCluster := f.cachedCluster })
    (hcached : ∀ i, f.cachedClusterIndex = some i → i < n ∧
      f.cachedCluster = nthCluster g d file.firstCluster file.noFatChain i) : Streams g d f n := by
  have hfirst : f.firstCluster = file.firstCluster := by rw [hhandle]
  have hfat : f.noFatChain = file.noFatChain := by rw [hhandle]
  constructor
  · rw [hfirst, hfat]
    exact h.heap
  · exact h.short
  · rw [hfirst, hfat]
    exact hcached

/-- A run which reads from the handle `file` has come to `pos`. -/
structure ReadsAt (vol : Volume) (s : Machine) (file : File) (n pos : ℕ) (t : Machine × File) :
    Prop where
  quiet : Quiet vol.geometry.partition s t.1
  handle : t.2 = { file with
    position := pos
    cachedClusterIndex := t.2.cachedClusterIndex
    cachedCluster := t.2.cachedCluster }
  cached : ∀ i, t.2.cachedClusterIndex = some i → i < n ∧ t.2.cachedCluster =
    nthCluster vol.geometry s.device.sectors file.firstCluster file.noFatChain i

/-- What the code transfers at once: what lies in the sector of `pos`, and no more than is left. -/
def inSector (g : Geometry) (pos left : ℕ) : ℕ :=
  min (g.bytesPerSector - pos % g.bytesPerSector) left

lemma sector_end_le {g : Geometry} {m pos count : ℕ} (hs : Sound g m)
    (hpos : pos < n * clusterSize g) (hcount : pos % g.bytesPerSector + count ≤ g.bytesPerSector) :
    pos + count ≤ n * clusterSize g := by
  have hsize := hs.size_ge
  have hcluster : n * clusterSize g = g.bytesPerSector * (n * g.sectorsPerCluster) := by
    change n * (g.bytesPerSector * g.sectorsPerCluster) = _
    ring
  have hlt : pos / g.bytesPerSector < n * g.sectorsPerCluster := by
    rw [Nat.div_lt_iff_lt_mul (by omega), Nat.mul_comm, ← hcluster]
    exact hpos
  have hdiv := Nat.div_add_mod pos g.bytesPerSector
  calc pos + count ≤ g.bytesPerSector * (pos / g.bytesPerSector + 1) := by
        rw [Nat.mul_add]
        omega
    _ ≤ g.bytesPerSector * (n * g.sectorsPerCluster) := Nat.mul_le_mul_left _ hlt
    _ = n * clusterSize g := hcluster.symm

variable (hs : Ready vol.geometry s)

include hs

lemma walkChain_nth {t : Machine} {first start index count c : ℕ}
    (hc : c = link vol.geometry s.device.sectors start index)
    (hheap : ∀ i ≤ index + count, vol.geometry.InHeap (link vol.geometry s.device.sectors start i))
    (hshort : index + count < 2 ^ 32) (ht : Quiet vol.geometry.partition s t) :
    wp (walkChain vol first index count c)
      (fun v u => v = link vol.geometry s.device.sectors start (index + count) ∧
        Quiet vol.geometry.partition s u) (Faulted vol.geometry.partition s) t := by
  unfold walkChain
  rw [wp_bind]
  refine wp_loop_post (fun i v u => v = link vol.geometry s.device.sectors start i ∧
    Quiet vol.geometry.partition s u) ⟨hc, ht⟩ ?_ fun _ _ h => h
  rintro i v u - hi ⟨rfl, hu⟩
  rw [wp_bind]
  refine wp_mono _ (nextCluster_spec (hu.ready hs) (hheap i (by omega))) ?_ fun _ _ h =>
    hu.faulted h
  rintro next w ⟨rfl, hw⟩
  rw [hu.sectors, ← link_succ]
  simp only [wp_bind, wp_u64, wp_ite, wp_pure]
  exact ⟨by omega, fun _ => ⟨rfl, hu.trans hw⟩, fun hbad => absurd (hheap (i + 1) (by omega)) hbad⟩

lemma fileClusterAt_nth (hfile : Streams vol.geometry s.device.sectors file n) {wanted pos : ℕ}
    (hwanted : wanted < n) {t : Machine × File} (ht : ReadsAt vol s file n pos t) :
    wp (fileClusterAt vol wanted)
      (fun c u => c = nthCluster vol.geometry s.device.sectors file.firstCluster file.noFatChain
        wanted ∧ ReadsAt vol s file n pos u)
      (fun e u => Faulted vol.geometry.partition s e u.1 ∧ u.2 = t.2) t := by
  have hcount := hs.sound.clusterCount
  have hshort := hfile.short
  have hin := hs.sound.inHeap_iff.mp (hfile.heap wanted hwanted)
  have hflag : t.2.noFatChain = file.noFatChain := by rw [ht.handle]
  have hfirst : t.2.firstCluster = file.firstCluster := by rw [ht.handle]
  unfold fileClusterAt
  simp only [wp_bind, wp_getSnd]
  rw [wp_ite]
  refine ⟨fun hle => absurd hwanted (by omega), fun _ => ?_⟩
  rw [wp_ite, hflag, hfirst]
  refine ⟨fun hfat => ?_, fun hfat => ?_⟩
  · have hheap := hfile.heap wanted hwanted
    simp only [nthCluster, hfat, if_true] at hin hheap ⊢
    have htry : tryU32 wanted = some wanted := if_pos (by omega)
    have hadd : checkedAdd32 file.firstCluster wanted = some (file.firstCluster + wanted) :=
      if_pos (by omega)
    rw [htry, okOr_some, pure_bind, hadd, okOr_some, pure_bind, if_pos hheap]
    exact ⟨rfl, ht⟩
  · have hfat' : file.noFatChain = false := by simpa using hfat
    have hheap := hfile.heap
    have hcached := ht.cached
    simp only [hfat', nthCluster, Bool.false_eq_true, if_false] at hheap hcached ⊢
    have hle := walkStart_le t.2 wanted
    have hlink := walkStart_link hfirst (fun i hi => (hcached i hi).2) wanted
    simp only [wp_ite, wp_throw, wp_bind, wp_lift, wp_modifySnd, wp_pure]
    refine ⟨fun hbad => ?_, fun _ => ?_⟩
    · rw [hlink] at hbad
      exact (hbad (hheap _ (by omega))).elim
    refine wp_mono _ (@walkChain_nth vol s hs t.1 file.firstCluster file.firstCluster _
      (wanted - (t.2.walkStart wanted).1) _ hlink (fun i hi => hheap i (by omega)) (by omega)
      ht.quiet) ?_ fun _ _ h => ⟨h, trivial⟩
    rintro c u ⟨rfl, hu⟩
    rw [show (t.2.walkStart wanted).1 + (wanted - (t.2.walkStart wanted).1) = wanted by omega]
    refine ⟨rfl, hu, ?_, fun i hi => ?_⟩
    · conv_lhs => rw [ht.handle]
    · cases hi
      refine ⟨hwanted, ?_⟩
      simp only [nthCluster, hfat', Bool.false_eq_true, if_false]

lemma filePosition_at (hfile : Streams vol.geometry s.device.sectors file n) {pos : ℕ}
    (hpos : pos < n * clusterSize vol.geometry) {t : Machine × File}
    (ht : ReadsAt vol s file n pos t) :
    wp (filePosition vol)
      (fun p u => p = streamPos vol.geometry (extent vol.geometry s.device.sectors file.firstCluster
        file.noFatChain n) pos ∧ InPartition vol.geometry.partition p.1 ∧
        ReadsAt vol s file n pos u)
      (fun e u => Faulted vol.geometry.partition s e u.1 ∧ u.2 = t.2) t := by
  have hcluster := hs.sound.clusterBytes_pos
  have hsize := hs.sound.size_ge
  have hindex : pos / (vol.geometry.bytesPerSector * vol.geometry.sectorsPerCluster) < n := by
    rw [Nat.div_lt_iff_lt_mul hcluster]
    exact hpos
  have hp : t.2.position = pos := by rw [ht.handle]
  unfold filePosition
  simp only [hs.sound.bytesPerCluster_eq, pure_bind, wp_bind, wp_getSnd, wp_div, hp]
  refine ⟨by omega, wp_mono _ (fileClusterAt_nth hs hfile hindex ht) ?_ fun _ _ h => h⟩
  rintro c u ⟨rfl, hu⟩
  have hc := hfile.heap _ hindex
  simp only [wp_rem, hs.sound.clusterLba_eq hc, wp_pure, wp_okOr, wp_u64]
  refine ⟨by omega, fun base hbase => ?_, nofun⟩
  cases hbase
  have hwithin : pos % (vol.geometry.bytesPerSector * vol.geometry.sectorsPerCluster) /
      vol.geometry.bytesPerSector < vol.geometry.sectorsPerCluster := by
    rw [Nat.div_lt_iff_lt_mul (by omega)]
    exact (Nat.mod_lt _ hcluster).trans_eq (Nat.mul_comm _ _)
  have hin := hs.sound.heap_sector hc hwithin
  refine ⟨by omega, (hs.sound.lt_of_inPartition hin).2, by omega, ?_, hin, hu⟩
  unfold streamPos
  rw [extent_getD hindex]

lemma readRound_at (hfile : Streams vol.geometry s.device.sectors file n) {start wanted k : ℕ}
    (hpos : k < wanted → start + k < n * clusterSize vol.geometry) {t : Machine × File}
    (hk : k ≤ wanted) (ht : ReadsAt vol s file n (start + k) t) :
    wp (readRound vol wanted (streamBytes vol.geometry s.device.sectors (extent vol.geometry
        s.device.sectors file.firstCluster file.noFatChain n) start k))
      (Sum.elim
        (fun out u => k = wanted ∧ out = streamBytes vol.geometry s.device.sectors (extent
          vol.geometry s.device.sectors file.firstCluster file.noFatChain n) start wanted ∧
          ReadsAt vol s file n (start + wanted) u)
        (fun out u => ∃ k', k < wanted ∧ k' = k + inSector vol.geometry (start + k) (wanted - k) ∧
          out = streamBytes vol.geometry s.device.sectors (extent vol.geometry s.device.sectors
            file.firstCluster file.noFatChain n) start k' ∧ ReadsAt vol s file n (start + k') u))
      (fun e u => Faulted vol.geometry.partition s e u.1 ∧ ReadsAt vol s file n
        (start + k) u) t := by
  have hvalid := hfile.lt hs.sound
  have hsize := hs.sound.size_ge
  unfold readRound
  rw [wp_ite, streamBytes_length]
  refine ⟨fun hle => ?_, fun hmore => ?_⟩
  · obtain rfl : k = wanted := by omega
    exact ⟨rfl, rfl, ht⟩
  have hlt := hpos (by omega)
  simp only [wp_bind]
  refine wp_mono _ (filePosition_at hs hfile hlt ht) ?_ ?_
  swap
  · rintro e u ⟨hfault, hu⟩
    refine ⟨hfault, hfault.1, ?_, ?_⟩
    · rw [hu]
      exact ht.handle
    · rw [hu]
      exact ht.cached
  rintro _ u ⟨rfl, hin, hu⟩
  simp only [wp_lift]
  refine wp_mono _ (readSector_spec (hu.quiet.ready hs) hin) ?_ fun _ _ h =>
    ⟨hu.quiet.faulted h, hu.quiet.trans h.1, hu.handle, hu.cached⟩
  rintro _ v ⟨hv, hold⟩
  have hq := hu.quiet.trans hv
  have hoff := streamPos_lt hs.sound (extent vol.geometry s.device.sectors file.firstCluster
    file.noFatChain n) (start + k)
  simp only [wp_sub]
  refine ⟨hoff.le, ?_⟩
  set pos := streamPos vol.geometry (extent vol.geometry s.device.sectors file.firstCluster
    file.noFatChain n) (start + k)
  have hmod : pos.2 = (start + k) % vol.geometry.bytesPerSector := by
    change (start + k) % clusterSize vol.geometry % vol.geometry.bytesPerSector = _
    exact Nat.mod_mul_right_mod _ _ _
  have hcount : min (vol.geometry.bytesPerSector - pos.2) (wanted - k) =
      inSector vol.geometry (start + k) (wanted - k) := by
    unfold inSector
    rw [hmod]
  rw [hcount]
  set count := inSector vol.geometry (start + k) (wanted - k)
  have hsector : pos.2 + count ≤ vol.geometry.bytesPerSector := by omega
  have hnext := @sector_end_le n _ _ _ count hs.sound hlt (by omega)
  -- a sector lies in one cluster
  have hcluster : (start + k) % clusterSize vol.geometry + count ≤ clusterSize vol.geometry := by
    have hwithin := Nat.mod_lt (start + k) (show 0 < clusterSize vol.geometry from
      hs.sound.clusterBytes_pos)
    have h := @sector_end_le 1 _ _ _ count hs.sound (by rwa [Nat.one_mul]) hsector
    rwa [Nat.one_mul] at h
  rw [wp_scratchSlice (hq.ready hs) hsector, hold.slice hsector, hq.sectors,
    slice_eq_streamBytes hsector hcluster]
  simp only [advance, wp_bind, wp_getSnd, wp_u64, wp_modifySnd, wp_pure]
  have hp : u.2.position = start + k := by rw [hu.handle]
  rw [hp]
  refine ⟨by omega, k + count, by omega, rfl, streamBytes_add.symm, hq, ?_, hu.cached⟩
  conv_lhs => rw [hu.handle]
  rw [Nat.add_assoc]

lemma read_within (hfile : Streams vol.geometry s.device.sectors file n) {outLen : ℕ}
    (hroom : 0 < min outLen (file.validLength - file.position) → file.position +
      min outLen (file.validLength - file.position) ≤ n * clusterSize vol.geometry) :
    wp (FileIo.read vol outLen)
      (fun out u => out = streamBytes vol.geometry s.device.sectors (extent vol.geometry
        s.device.sectors file.firstCluster file.noFatChain n) file.position
          (min outLen (file.validLength - file.position)) ∧
        Quiet vol.geometry.partition s u.1)
      (fun e u => Faulted vol.geometry.partition s e u.1) (s, file) := by
  have hsize := hs.sound.size_ge
  unfold FileIo.read
  simp only [wp_bind, wp_getSnd]
  rw [wp_ite]
  refine ⟨fun hnone => ?_, fun hsome => ?_⟩
  · have hz : min outLen (file.validLength - file.position) = 0 := by omega
    rw [hz]
    exact ⟨rfl, Quiet.refl _ _⟩
  rw [not_or] at hsome
  simp only [wp_bind, wp_sub]
  refine ⟨by omega, ?_⟩
  have hroom := hroom (by omega)
  set wanted := min outLen (file.validLength - file.position) with hwanted
  refine wp_loop_post (fun i out t => ∃ k, i ≤ k ∧ k ≤ wanted ∧
    out = streamBytes vol.geometry s.device.sectors (extent vol.geometry s.device.sectors
      file.firstCluster file.noFatChain n) file.position k ∧
    ReadsAt vol s file n (file.position + k) t) ?_ ?_ ?_
  · exact ⟨0, le_rfl, Nat.zero_le _, rfl, Quiet.refl _ _, rfl, hfile.cached⟩
  · rintro i out t - - ⟨k, hik, hk, rfl, ht⟩
    refine wp_mono _ (readRound_at hs hfile (by omega) hk ht) ?_ fun _ _ h => h.1
    rintro (out | out) u hu
    · exact ⟨hu.2.1, hu.2.2.quiet⟩
    · obtain ⟨k', hlt, hk', rfl, hu⟩ := hu
      have hmod := Nat.mod_lt (file.position + k) (show 0 < vol.geometry.bytesPerSector by omega)
      unfold inSector at hk'
      exact ⟨k', by omega, by omega, rfl, hu⟩
  · rintro out t ⟨k, hik, hk, -⟩
    omega

/-- **`read` returns the bytes of the stream**, from the position of the handle on. -/
theorem read_yields (hr : Healthy s) (hfile : Streams vol.geometry s.device.sectors file n)
    (hroom : file.validLength ≤ n * clusterSize vol.geometry) (outLen : ℕ) :
    wp (FileIo.read vol outLen)
      (fun out u => out = streamBytes vol.geometry s.device.sectors (extent vol.geometry
        s.device.sectors file.firstCluster file.noFatChain n) file.position
          (min outLen (file.validLength - file.position)) ∧
        Quiet vol.geometry.partition s u.1)
      (fun _ _ => False) (s, file) :=
  wp_mono _ (read_within hs hfile fun _ => by omega) (fun _ _ h => h)
    fun _ _ h => Faulted.elim hr h

end ExfatEmbedded.Readback
