import ExfatEmbedded.Growth

/-!
What `append` leaves of a file when it fails.
-/

namespace ExfatEmbedded.Appending

open ExfatEmbedded.Library Exec ExfatEmbedded.Core ExfatEmbedded.Entry ExfatEmbedded.Allocation
open ExfatEmbedded.Lookup ExfatEmbedded.FileIo ExfatEmbedded.EntryWrite ExfatEmbedded.Mutation
open ExfatEmbedded.Reading ExfatEmbedded.Scan ExfatEmbedded.Sets ExfatEmbedded.Listing
open ExfatEmbedded.ReadSafety ExfatEmbedded.MountSafety ExfatEmbedded.FatWrites
open ExfatEmbedded.StreamSafety ExfatEmbedded.Media ExfatEmbedded.Writing ExfatEmbedded.Tree
open ExfatEmbedded.Commit ExfatEmbedded.Release ExfatEmbedded.Layout ExfatEmbedded.Slots
open ExfatEmbedded.Removal ExfatEmbedded.Replacing ExfatEmbedded.Readback ExfatEmbedded.Truncating
open ExfatEmbedded.Growth ExfatEmbedded.Allocator ExfatEmbedded.Mount

/-! ### Behind the end of a chain -/

section ChainEnd

variable {vol : Volume} {s : Machine} {file : File} {n : ℕ}

/-- The chain of a stream of `n` clusters does not go on. -/
structure StopsAt (g : Geometry) (d : Sectors) (file : File) (n : ℕ) : Prop where
  chained : file.noFatChain = false
  pos : 0 < n
  ended : ¬ g.InHeap (link g d file.firstCluster n)

variable (hs : Ready vol.geometry s) (hr : Healthy s)

include hs hr

lemma walkChain_end {t : Machine} {first start index count c : ℕ} (hcount : 0 < count)
    (hc : c = link vol.geometry s.device.sectors start index)
    (hheap : ∀ i < index + count, vol.geometry.InHeap (link vol.geometry s.device.sectors start i))
    (hend : ¬ vol.geometry.InHeap (link vol.geometry s.device.sectors start (index + count)))
    (hshort : index + count < 2 ^ 32) (ht : Quiet vol.geometry.partition s t) :
    wp (walkChain vol first index count c) (fun _ _ => False)
      (fun _ u => Quiet vol.geometry.partition s u) t := by
  unfold walkChain
  rw [wp_bind]
  refine wp_loop_post (fun i v u => i < index + count ∧
    v = link vol.geometry s.device.sectors start i ∧ Quiet vol.geometry.partition s u)
    ⟨by omega, hc, ht⟩ ?_ fun _ _ h => absurd h.1 (lt_irrefl _)
  rintro i v u - - ⟨hi, rfl, hu⟩
  have hin := hheap i hi
  rw [wp_bind]
  refine wp_mono _ (nextCluster_spec (hu.ready hs) hin) ?_ fun _ _ h =>
    (Faulted.elim ((OnMedia.refl hr).quiet hu).healthy h).elim
  rintro next w ⟨rfl, hw⟩
  rw [hu.sectors, ← link_succ]
  simp only [wp_bind, wp_u64, wp_ite, wp_pure, hs.sound.fatLbaForByte_eq hin, okOr_some, wp_throw]
  have hlt := (hs.sound.inHeap_iff.mp hin).2.2
  refine ⟨by omega, fun hnext => ⟨?_, rfl, hu.trans hw⟩, fun _ => ⟨by omega, hu.trans hw⟩⟩
  by_contra hlast
  rw [show i + 1 = index + count by omega] at hnext
  exact hend hnext

lemma filePosition_end (hfile : Streams vol.geometry s.device.sectors file n)
    (hstops : StopsAt vol.geometry s.device.sectors file n)
    (hpos : file.position = n * clusterSize vol.geometry) :
    wp (filePosition vol) (fun _ _ => False)
      (fun _ u => Quiet vol.geometry.partition s u.1) (s, file) := by
  have hcluster : 0 < clusterSize vol.geometry := hs.sound.clusterBytes_pos
  have hcount := hs.sound.clusterCount
  have hindex : file.position / (vol.geometry.bytesPerSector * vol.geometry.sectorsPerCluster) =
      n := by
    rw [hpos]
    exact Nat.mul_div_left n hcluster
  unfold filePosition
  simp only [hs.sound.bytesPerCluster_eq, pure_bind, wp_bind, wp_getSnd, wp_div, hindex]
  refine ⟨hcluster.ne', ?_⟩
  have hheap := hfile.heap
  have hcached := hfile.cached
  have hpos := hstops.pos
  unfold fileClusterAt
  simp only [wp_bind, wp_getSnd]
  rw [wp_ite]
  refine ⟨fun _ => Quiet.refl _ _, fun hlt => ?_⟩
  rw [wp_ite]
  refine ⟨fun hfat => absurd (hstops.chained.symm.trans hfat) (by decide), fun _ => ?_⟩
  simp only [hstops.chained, nthCluster, Bool.false_eq_true, if_false] at hheap hcached
  have hlink := walkStart_link rfl (fun i hi => (hcached i hi).2) n
  have hle : (file.walkStart n).1 < n := by
    unfold File.walkStart
    split
    · rename_i index hindex
      have hlt := (hcached index hindex).1
      rwa [if_pos hlt.le]
    · exact hpos
  simp only [wp_ite, wp_throw, wp_bind, wp_lift]
  refine ⟨fun _ => Quiet.refl _ _, fun _ => ?_⟩
  refine wp_mono _ (@walkChain_end vol s hs hr s file.firstCluster file.firstCluster _
    (n - (file.walkStart n).1) _ (by omega) hlink (fun i hi => hheap i (by omega)) ?_ (by omega)
    (Quiet.refl _ _)) (fun _ _ h => h.elim) fun _ _ h => h
  rw [show (file.walkStart n).1 + (n - (file.walkStart n).1) = n by omega]
  exact hstops.ended

end ChainEnd

/-! ### Writing -/

section Write

variable {vol : Volume} {bm : List ℕ} {s : Machine} {file : File} {n : ℕ}

lemma relinked_of_wrote {t : Machine} {lba off c : ℕ} {bs : List UInt8} (hs : Base vol bm s)
    (hc : vol.geometry.InHeap c) (hbm : c ∉ bm) (hin : InCluster vol.geometry c lba)
    (h : Wrote s t (put s.device.sectors lba off bs)) : Relinked vol bm s t [] := by
  have hbecame := h.became_cluster hs hc hbm hin
  have hsound := hs.ready.sound
  refine ⟨h.follows, hbecame.base, fun c' hc' _ => ?_, fun c' hc' => ?_⟩
  · rw [h.sectors]
    refine fatEntry_congr hsound hc' fun lba' hbelow => put_of_ne ?_
    rintro rfl
    exact hin.not_below hbelow
  · rw [h.sectors]
    refine hs.mapped.used_congr hsound hc' fun c'' hc'' lba' hin' => put_of_ne ?_
    rintro rfl
    have heq := hin.unique (hsound.inHeap_iff.mp hc).1
      (hsound.inHeap_iff.mp (hs.mapped.heap _ hc'')).1 hin'
    exact hbm (heq ▸ hc'')

lemma sectorPatch_wp {lba off c : ℕ} {bs : List UInt8} {Q : Unit → Machine → Prop}
    {E : Error → Machine → Prop} (hs : Base vol bm s) (hr : ¬ Faulty s)
    (hc : vol.geometry.InHeap c) (hbm : c ∉ bm) (hin : InCluster vol.geometry c lba)
    (hfit : off + bs.length ≤ vol.geometry.bytesPerSector)
    (hQ : ∀ t, Relinked vol bm s t [] → Q () t) :
    (off ≠ 0 ∨ bs.length ≠ vol.geometry.bytesPerSector →
      wp (readSector vol.geometry.bytesPerSector lba) (fun _ t =>
        wp (scratchPatch vol.geometry.bytesPerSector off bs) (fun _ t =>
          wp (writeSector vol.geometry.bytesPerSector lba) Q E t) E t) E s) ∧
    (¬ (off ≠ 0 ∨ bs.length ≠ vol.geometry.bytesPerSector) →
      wp (scratchPatch vol.geometry.bytesPerSector off bs) (fun _ t =>
        wp (writeSector vol.geometry.bytesPerSector lba) Q E t) E s) :=
  sectorPatch_wrote hs.ready (hin.inPartition hs.ready.sound hc) hfit
    (fun t ht _ => hQ t (relinked_of_wrote hs hc hbm hin ht)) fun _ _ h _ => absurd h.faulty hr

/-- A write behind the handle `file` has come to `pos`. -/
structure WritesAt (vol : Volume) (bm : List ℕ) (s : Machine) (file : File) (n pos : ℕ)
    (t : Machine × File) : Prop where
  relinked : Relinked vol bm s t.1 []
  handle : t.2 = { file with
    position := pos
    cachedClusterIndex := t.2.cachedClusterIndex
    cachedCluster := t.2.cachedCluster }
  cached : ∀ i, t.2.cachedClusterIndex = some i → i < n ∧ t.2.cachedCluster =
    nthCluster vol.geometry s.device.sectors file.firstCluster file.noFatChain i

variable (hs : Base vol bm s) (hr : ¬ Faulty s)
  (hfile : Streams vol.geometry s.device.sectors file n)
  (hapart : ∀ i < n, nthCluster vol.geometry s.device.sectors file.firstCluster
    file.noFatChain i ∉ bm)

lemma WritesAt.nth_eq {pos : ℕ} {t : Machine × File} (ht : WritesAt vol bm s file n pos t)
    (hfile : Streams vol.geometry s.device.sectors file n) {i : ℕ} (hi : i ≤ n) :
    nthCluster vol.geometry t.1.device.sectors file.firstCluster file.noFatChain i =
      nthCluster vol.geometry s.device.sectors file.firstCluster file.noFatChain i :=
  @extent_congr _ _ _ _ (n + 1) _ (fun _ j hj => ht.relinked.fat _ (hfile.heap j (by omega))
    List.not_mem_nil) i (by omega)

lemma WritesAt.streams {pos : ℕ} {t : Machine × File} (ht : WritesAt vol bm s file n pos t)
    (hfile : Streams vol.geometry s.device.sectors file n) :
    Streams vol.geometry t.1.device.sectors t.2 n ∧
      ReadsAt vol t.1 t.2 n pos t := by
  have hfirst : t.2.firstCluster = file.firstCluster := by rw [ht.handle]
  have hfat : t.2.noFatChain = file.noFatChain := by rw [ht.handle]
  have hpos : t.2.position = pos := by rw [ht.handle]
  have hcached : ∀ i, t.2.cachedClusterIndex = some i → i < n ∧ t.2.cachedCluster =
      nthCluster vol.geometry t.1.device.sectors t.2.firstCluster t.2.noFatChain i := by
    intro i hi
    obtain ⟨hlt, hcluster⟩ := ht.cached i hi
    rw [hfirst, hfat, ht.nth_eq hfile hlt.le]
    exact ⟨hlt, hcluster⟩
  refine ⟨⟨fun i hi => ?_, hfile.short, hcached⟩, Quiet.refl _ _, ?_, hcached⟩
  · rw [hfirst, hfat, ht.nth_eq hfile hi.le]
    exact hfile.heap i hi
  · rw [← hpos]

include hs hr hfile hapart

lemma writeRound_at {input : List UInt8} {start k : ℕ} {t : Machine × File}
    (hk : k < input.length) (hpos : start + k < n * clusterSize vol.geometry)
    (ht : WritesAt vol bm s file n (start + k) t) :
    wp (writeRound vol input.length input k)
      (Sum.elim (fun _ _ => False) fun k' u => k < k' ∧ k' ≤ input.length ∧
        start + k' ≤ n * clusterSize vol.geometry ∧ WritesAt vol bm s file n (start + k') u)
      (fun _ _ => False) t := by
  have hsound := hs.ready.sound
  have hbound := hfile.lt hsound
  have hsize := hsound.size_ge
  obtain ⟨hstreams, hreads⟩ := ht.streams hfile
  have hrt := Follows.faultless ht.relinked.follows hr
  unfold writeRound
  rw [wp_ite]
  refine ⟨fun hle => absurd hle (by omega), fun _ => ?_⟩
  simp only [wp_bind]
  refine wp_mono _ (filePosition_at ht.relinked.base.ready hstreams hpos hreads) ?_
    fun _ _ h => Faulted.elim (healthy_of_faultless hrt) h.1
  rintro _ u ⟨rfl, hin, hu⟩
  simp only [wp_sub, wp_when, wp_lift]
  set pos := streamPos vol.geometry (extent vol.geometry t.1.device.sectors t.2.firstCluster
    t.2.noFatChain n) (start + k) with hposEq
  have hoff : pos.2 < vol.geometry.bytesPerSector := streamPos_lt hsound _ _
  refine ⟨hoff.le, ?_⟩
  set count := min (vol.geometry.bytesPerSector - pos.2) (input.length - k) with hcount
  have hlength : ((input.drop k).take count).length = count := by
    rw [List.length_take, List.length_drop]
    omega
  -- the sector is of a cluster of the stream
  have hindex : (start + k) / clusterSize vol.geometry < n := by
    rw [Nat.div_lt_iff_lt_mul hsound.clusterBytes_pos]
    exact hpos
  have hfirst : t.2.firstCluster = file.firstCluster := by rw [ht.handle]
  have hfat : t.2.noFatChain = file.noFatChain := by rw [ht.handle]
  have hcluster := streamPos_inCluster hsound (extent vol.geometry t.1.device.sectors
    t.2.firstCluster t.2.noFatChain n) (start + k)
  rw [← hposEq, extent_getD hindex, hfirst, hfat, ht.nth_eq hfile hindex.le] at hcluster
  have hnext : start + k + count ≤ n * clusterSize vol.geometry := by
    have hmod : pos.2 = (start + k) % vol.geometry.bytesPerSector := by
      rw [hposEq]
      change (start + k) % clusterSize vol.geometry % vol.geometry.bytesPerSector = _
      exact Nat.mod_mul_right_mod _ _ _
    exact sector_end_le hsound hpos (by omega)
  have hbase : Base vol bm u.1 := ((wrote_of_quiet hu.quiet).same ht.relinked.base).base
  have hru : ¬ Faulty u.1 := Follows.faultless (wrote_of_quiet hu.quiet).follows hrt
  have hup : u.2.position = start + k := by rw [hu.handle]
  have hpatch := @sectorPatch_wp vol bm u.1 pos.1 pos.2 _ ((input.drop k).take count)
    (fun _ v => wp (advance count) (fun _ w => wp (pure (Sum.inr (k + count)) : FileM (ℕ ⊕ ℕ))
      (Sum.elim (fun _ _ => False) fun k' w => k < k' ∧ k' ≤ input.length ∧
        start + k' ≤ n * clusterSize vol.geometry ∧ WritesAt vol bm s file n (start + k') w)
      (fun _ _ => False) w) (fun _ _ => False) (v, u.2)) (fun _ _ => False) hbase hru
    (hfile.heap _ hindex) (hapart _ hindex) hcluster (by rw [hlength]; omega) ?_
  · rw [hlength] at hpatch
    exact hpatch
  · intro v hv
    simp only [advance, wp_bind, wp_getSnd, wp_u64, wp_modifySnd, wp_pure, hup]
    have hquiet : Relinked vol bm t.1 u.1 [] :=
      ⟨(wrote_of_quiet hu.quiet).follows, hbase, fun _ _ _ => by rw [hu.quiet.sectors],
        fun _ _ => by rw [hu.quiet.sectors]⟩
    refine ⟨by omega, by omega, by omega, by omega, (ht.relinked.trans hquiet).trans hv, ?_,
      fun i hi => ?_⟩
    · obtain ⟨a, b, hu2⟩ : ∃ a b, u.2 = { t.2 with
          position := start + k, cachedClusterIndex := a, cachedCluster := b } :=
        ⟨_, _, hu.handle⟩
      obtain ⟨a', b', ht2⟩ : ∃ a b, t.2 = { file with
          position := start + k, cachedClusterIndex := a, cachedCluster := b } :=
        ⟨_, _, ht.handle⟩
      rw [hu2, ht2, Nat.add_assoc]
    · obtain ⟨hlt, hcached⟩ := hu.cached i hi
      refine ⟨hlt, hcached.trans ?_⟩
      rw [hfirst, hfat, ht.nth_eq hfile hlt.le]

omit hs hapart in
lemma writeRound_end {input : List UInt8} {start k : ℕ} {t : Machine × File}
    (hk : k < input.length) (hpos : start + k = n * clusterSize vol.geometry)
    (hstops : StopsAt vol.geometry s.device.sectors file n)
    (ht : WritesAt vol bm s file n (start + k) t) :
    wp (writeRound vol input.length input k) (fun _ _ => False)
      (fun _ u => Relinked vol bm s u.1 []) t := by
  obtain ⟨hstreams, -⟩ := ht.streams hfile
  have hrt := Follows.faultless ht.relinked.follows hr
  have hlink : link vol.geometry t.1.device.sectors file.firstCluster n =
      link vol.geometry s.device.sectors file.firstCluster n := by
    have h := ht.nth_eq hfile le_rfl
    rw [hstops.chained] at h
    exact h
  have hstops' : StopsAt vol.geometry t.1.device.sectors t.2 n := by
    rw [ht.handle]
    exact ⟨hstops.chained, hstops.pos, by rw [hlink]; exact hstops.ended⟩
  unfold writeRound
  rw [wp_ite]
  refine ⟨fun hle => absurd hle (by omega), fun _ => ?_⟩
  simp only [wp_bind]
  refine wp_mono _ (filePosition_end ht.relinked.base.ready (healthy_of_faultless hrt) hstreams
    hstops' (by rw [ht.handle]; exact hpos)) (fun _ _ h => h.elim) ?_
  intro _ u hu
  have hquiet : Relinked vol bm t.1 u.1 [] :=
    ⟨(wrote_of_quiet hu).follows, ((wrote_of_quiet hu).same ht.relinked.base).base,
      fun _ _ _ => by rw [hu.sectors], fun _ _ => by rw [hu.sectors]⟩
  exact ht.relinked.trans hquiet

/-- **`write` fills its range** when the clusters of the stream hold it, and fails else. -/
theorem write_fills {input : List UInt8} (hinput : input ≠ [])
    (hvalid : file.validLength = file.position + input.length)
    (hpos : file.position ≤ n * clusterSize vol.geometry)
    (hstops : n * clusterSize vol.geometry < file.validLength →
      StopsAt vol.geometry s.device.sectors file n) :
    wp (write vol input)
      (fun k u => k = input.length ∧ file.validLength ≤ n * clusterSize vol.geometry ∧
        WritesAt vol bm s file n file.validLength u)
      (fun _ u => n * clusterSize vol.geometry < file.validLength ∧ Relinked vol bm s u.1 [])
      (s, file) := by
  have hlen := List.length_pos_of_ne_nil hinput
  unfold write
  simp only [wp_bind, wp_getSnd]
  rw [wp_ite]
  refine ⟨fun hnone => ?_, fun _ => ?_⟩
  · rcases hnone with hle | hnil
    · omega
    · exact absurd hnil hinput
  simp only [wp_bind, wp_sub]
  refine ⟨by omega, ?_⟩
  have hwanted : min input.length (file.validLength - file.position) = input.length := by omega
  rw [hwanted]
  refine wp_loop_post (fun i k t => i ≤ k ∧ k ≤ input.length ∧
    file.position + k ≤ n * clusterSize vol.geometry ∧
    WritesAt vol bm s file n (file.position + k) t) ?_ ?_ ?_
  · exact ⟨le_rfl, Nat.zero_le _, hpos, Relinked.refl hs, rfl, hfile.cached⟩
  · rintro i k t - - ⟨hik, hk, hroom, ht⟩
    by_cases hdone : k = input.length
    · subst hdone
      unfold writeRound
      rw [wp_ite]
      refine ⟨fun _ => ⟨rfl, by omega, ?_⟩, fun hmore => absurd le_rfl hmore⟩
      rw [hvalid]
      exact ht
    · rcases hroom.lt_or_eq with hlt | heq
      · refine wp_mono _ (writeRound_at hs hr hfile hapart (by omega) hlt ht) ?_
          fun _ _ h => h.elim
        rintro (k' | k') u hu
        · exact hu.elim
        · obtain ⟨hlt', hle, hroom', hu⟩ := hu
          exact ⟨by omega, hle, hroom', hu⟩
      · have hmore : n * clusterSize vol.geometry < file.validLength := by omega
        refine wp_mono _ (writeRound_end hr hfile (by omega) heq (hstops hmore) ht)
          (fun _ _ h => h.elim) fun _ _ h => ⟨hmore, h⟩
  · rintro k t ⟨hik, hk, -⟩
    omega

end Write

/-! ### After the growth -/

section Commit

variable {vol : Volume} {bm : List ℕ} {m : Machine} {f : File} {n : ℕ} {input : List UInt8}

/-- What `append` does when the stream has grown. -/
def commitAppend (vol : Volume) (input : List UInt8) (stop : ℕ) : FileM ℕ := do
  modifySnd fun file => { file with position := file.validLength, validLength := stop }
  let written ← write vol input
  if written ≠ input.length then throw .corrupt
  else do
    let file ← getSnd
    updateStream vol file
    pure written

lemma commitAppend_fills (hs : Base vol bm m) (hr : ¬ Faulty m)
    (hcs : Freeable vol bm
      (extent vol.geometry m.device.sectors f.firstCluster f.noFatChain n))
    (hplaced : HandlePlaced vol.geometry bm f) (hcached : f.cachedClusterIndex = none)
    (hinput : input ≠ []) (hroom : f.validLength ≤ n * clusterSize vol.geometry)
    (hstops : n * clusterSize vol.geometry < f.validLength + input.length →
      StopsAt vol.geometry m.device.sectors f n) :
    wp (commitAppend vol input (f.validLength + input.length))
      (fun _ _ => f.validLength + input.length ≤ n * clusterSize vol.geometry)
      (fun _ u => n * clusterSize vol.geometry < f.validLength + input.length ∧
        Relinked vol bm m u.1 []) (m, f) := by
  unfold commitAppend
  rw [wp_bind, wp_modifySnd, wp_bind]
  have hstreams : Streams vol.geometry m.device.sectors { f with
      position := f.validLength, validLength := f.validLength + input.length } n := by
    refine ⟨fun i hi => hcs.heap _ (nthCluster_mem hi), ?_, fun i hi => ?_⟩
    · have hlength := hcs.length_le hs.ready.sound
      rwa [extent_length] at hlength
    · have hsome : f.cachedClusterIndex = some i := hi
      rw [hcached] at hsome
      cases hsome
  have hwrite := write_fills hs hr hstreams (fun i hi => hcs.apart _ (nthCluster_mem hi)) hinput rfl
    hroom fun hmore => by
      obtain ⟨h1, h2, h3⟩ := hstops hmore
      exact ⟨h1, h2, h3⟩
  refine wp_mono _ hwrite ?_ fun _ _ h => h
  rintro k u ⟨rfl, hfits, hu⟩
  rw [wp_ite]
  refine ⟨fun hne => absurd rfl hne, fun _ => ?_⟩
  simp only [wp_bind, wp_getSnd, wp_lift, wp_pure]
  have hplaced' : HandlePlaced vol.geometry bm u.2 := by
    rw [hu.handle]
    exact ⟨hplaced.count, hplaced.primary, hplaced.stream, hplaced.locs⟩
  refine wp_mono _ (updateStream_based hu.relinked.base hplaced') (fun _ _ _ => hfits) ?_
  intro _ _ hfail
  exact absurd (hu.relinked.follows.faulty hfail.faulty) hr

end Commit

/-! ### The growth loop -/

section Loop

variable {vol : Volume} {bm cs : List ℕ} {s : Machine} {file : File} {stop : ℕ}

/-- The stream has whole clusters only, or a chain to count them by. -/
structure Regular (g : Geometry) (file : File) : Prop where
  whole : file.noFatChain = true →
    file.dataLength = clustersFor g file.dataLength * clusterSize g
  empty : clustersFor g file.dataLength = 0 → file.firstCluster = 0

lemma lt_clustersFor {g : Geometry} {k len : ℕ} (hs : Sound g k) {i : ℕ} :
    i < clustersFor g len ↔ i * clusterSize g < len := by
  constructor
  · intro h
    by_contra hle
    have := clustersFor_le_of_le hs (Nat.le_of_not_lt hle)
    omega
  · intro h
    by_contra hle
    have hmul := Nat.mul_le_mul_right (clusterSize g) (Nat.le_of_not_lt hle)
    have := clustersFor_le hs len
    omega

lemma Regular.counts {t : Machine × File} (hreg : Regular vol.geometry file)
    (hsound : Sound vol.geometry s.device.sectorCount)
    (hgrown : Grown vol bm s file (clustersFor vol.geometry file.dataLength) cs t)
    (hflat : t.2.noFatChain = true → file.noFatChain = true) :
    Counts vol.geometry t.2 (clustersFor vol.geometry file.dataLength + cs.length) := by
  have hpos : 0 < clusterSize vol.geometry := hsound.clusterBytes_pos
  have hdata := hgrown.fields.1
  have hle := clustersFor_le hsound file.dataLength
  set n := clustersFor vol.geometry file.dataLength with hn
  intro hsome
  rw [hdata]
  split_ifs with hfat
  · rw [hreg.whole (hflat hfat), ← hn, ← Nat.add_mul]
    exact Nat.mul_div_left _ hpos
  · have hlower : n = 0 ∨ (n - 1) * clusterSize vol.geometry < file.dataLength := by
      rcases Nat.eq_zero_or_pos n with hz | hnz
      · exact .inl hz
      · exact .inr ((lt_clustersFor hsound).mp (by omega))
    have hn0 : n = 0 → file.dataLength = 0 := by
      intro hz
      rw [hz, Nat.zero_mul] at hle
      omega
    obtain ⟨j, hj⟩ : ∃ j, n + cs.length = j + 1 := ⟨n + cs.length - 1, by omega⟩
    rw [hj, Nat.add_sub_cancel]
    refine Nat.div_eq_of_lt_le ?_ ?_
    · rcases hlower with hz | hlt
      · have hlen : cs.length = j + 1 := by omega
        have hsucc := Nat.add_one_mul j (clusterSize vol.geometry)
        rw [hn0 hz, hlen]
        omega
      · rcases Nat.eq_zero_or_pos n with hz | hnz
        · have hlen : cs.length = j + 1 := by omega
          have hsucc := Nat.add_one_mul j (clusterSize vol.geometry)
          rw [hlen]
          omega
        · have hsum : j * clusterSize vol.geometry =
              (n - 1) * clusterSize vol.geometry + cs.length * clusterSize vol.geometry := by
            rw [← Nat.add_mul]
            congr 1
            omega
          omega
    · have hsum : (j + 1) * clusterSize vol.geometry =
          n * clusterSize vol.geometry + cs.length * clusterSize vol.geometry := by
        rw [← Nat.add_mul, hj]
      have hsucc := Nat.add_one_mul j (clusterSize vol.geometry)
      omega

/-- The growth loop on a regular stream ends when the stream is long enough or no cluster can be
claimed. -/
lemma growLoop_regular (hs : Base vol bm s) (hr : ¬ Faulty s) (hreg : Regular vol.geometry file)
    (hold : Holding vol bm s file (clustersFor vol.geometry file.dataLength))
    (hcached : file.cachedClusterIndex = none) :
    wp (loop (fun _ _ => growRound vol stop (clusterSize vol.geometry)) 0
        ((stop - file.dataLength) / clusterSize vol.geometry + 2) ())
      (fun r u => r = .inl () ∧ ∃ cs,
        Grown vol bm s file (clustersFor vol.geometry file.dataLength) cs u ∧
        stop ≤ u.2.dataLength)
      (fun _ u => ∃ cs, Grown vol bm s file (clustersFor vol.geometry file.dataLength) cs u ∧
        claimable vol.geometry bm u.1.device.sectors = 0 ∧ u.2.dataLength < stop) (s, file) := by
  have hsound := hs.ready.sound
  have hpos : 0 < clusterSize vol.geometry := hsound.clusterBytes_pos
  refine wp_loop_post (fun i _ t => ∃ cs, cs.length = i ∧
    Grown vol bm s file (clustersFor vol.geometry file.dataLength) cs t ∧
    (t.2.noFatChain = true → file.noFatChain = true) ∧
    (i = 0 ∨ file.dataLength + (i - 1) * clusterSize vol.geometry < stop)) ?_ ?_ ?_
  · exact ⟨[], rfl, Grown.start hs hold.empty hcached, id, .inl rfl⟩
  · rintro i _ t - - ⟨cs, hlen, hgrown, hflat, -⟩
    have hdata := hgrown.fields.1
    by_cases hmore : t.2.dataLength < stop
    · refine wp_mono _ (growRound_grows hgrown hs hr hold (hreg.counts hsound hgrown hflat) hmore)
        ?_ fun _ u hu => ⟨cs, hu.1, ?_, ?_⟩
      · rintro _ u ⟨rfl, c, hu, -, hflag⟩
        refine ⟨cs ++ [c], by simp [hlen], hu, fun hfat => hflat (hflag hfat).1, .inr ?_⟩
        rw [Nat.add_sub_cancel, ← hlen, ← hdata]
        exact hmore
      · have hleft := hu.1.left
        have hleft' := hgrown.left
        rw [hu.2] at hleft'
        omega
      · have hdata' := hu.1.fields.1
        omega
    · unfold growRound
      rw [wp_bind, wp_getSnd]
      beta_reduce
      rw [wp_ite]
      exact ⟨fun _ => ⟨rfl, cs, hgrown, Nat.le_of_not_lt hmore⟩,
        fun hnot => absurd (Nat.le_of_not_lt hmore) hnot⟩
  · rintro _ t ⟨cs, hlen, -, -, hlast⟩
    exfalso
    have hdiv := @Nat.lt_div_mul_add (stop - file.dataLength) _ hpos
    generalize (stop - file.dataLength) / clusterSize vol.geometry = q at hlast hdiv
    rcases hlast with hz | hlt
    · omega
    · rw [show 0 + (q + 2) - 1 = q + 1 by omega, Nat.add_mul] at hlt
      omega

lemma lastCluster_stops {m : Machine} {f : File} {n : ℕ} (hs : Ready vol.geometry m)
    (hr : Healthy m) (hheap : ∀ i < n, vol.geometry.InHeap
      (link vol.geometry m.device.sectors f.firstCluster i))
    (hstops : StopsAt vol.geometry m.device.sectors f n)
    (hindex : (f.dataLength - 1) / clusterSize vol.geometry = n) :
    wp (if f.firstCluster = 0 then pure none
      else some <$> lastCluster vol f (clusterSize vol.geometry) : FsM (Option ℕ))
      (fun _ _ => False) (fun _ u => Wrote m u m.device.sectors) m := by
  have hfirst := hheap 0 hstops.pos
  have hpos : 0 < clusterSize vol.geometry := hs.sound.clusterBytes_pos
  rw [wp_ite]
  refine ⟨fun hz => ?_, fun _ => ?_⟩
  · rw [link_zero, hz] at hfirst
    exact absurd (hs.sound.inHeap_iff.mp hfirst).1 (by decide)
  rw [wp_map]
  unfold lastCluster
  rw [wp_ite]
  refine ⟨fun hfat => absurd (hstops.chained.symm.trans hfat) (by decide), fun _ => ?_⟩
  simp only [wp_bind, wp_div]
  refine ⟨by omega, ?_⟩
  rw [hindex]
  refine wp_mono _ (clusterAt_spec hs hfirst) ?_ ?_
  · rintro _ u ⟨-, -, -, hlinked⟩
    exact hstops.ended (hlinked n le_rfl)
  · rintro e u (hfault | ⟨hquiet, -⟩)
    · exact (Faulted.elim hr hfault).elim
    · exact wrote_of_quiet hquiet

/-- Of a contiguous stream whose last cluster is not full the loop keeps the full ones; it claims
one cluster at most, and does not find its way to the chain after that. -/
lemma growLoop_ragged {kept : ℕ} (hs : Base vol bm s) (hr : ¬ Faulty s)
    (hfat : file.noFatChain = true) (hkept : file.dataLength / clusterSize vol.geometry = kept)
    (hmul : kept * clusterSize vol.geometry < file.dataLength) (hsome : 0 < kept)
    (hold : Holding vol bm s file kept)
    (hlast : used vol.geometry bm s.device.sectors (file.firstCluster + kept) = true)
    (hcached : file.cachedClusterIndex = none) (hmore : file.dataLength < stop) :
    wp (loop (fun _ _ => growRound vol stop (clusterSize vol.geometry)) 0
        ((stop - file.dataLength) / clusterSize vol.geometry + 2) ())
      (fun r u => r = .inl () ∧ ∃ c, Grown vol bm s file kept [c] u ∧
        StopsAt vol.geometry u.1.device.sectors u.2 (kept + 1))
      (fun _ u => ∃ cs, Grown vol bm s file kept cs u ∧
        (cs = [] ∧ claimable vol.geometry bm s.device.sectors = 0 ∨
          cs ≠ [] ∧ (kept + 1) * clusterSize vol.geometry < stop)) (s, file) := by
  have hsound := hs.ready.sound
  have hpos : 0 < clusterSize vol.geometry := hsound.clusterBytes_pos
  refine wp_loop_post (fun i _ t => i = 0 ∧ t = (s, file) ∨ i = 1 ∧ ∃ c,
    Grown vol bm s file kept [c] t ∧ StopsAt vol.geometry t.1.device.sectors t.2 (kept + 1))
    (.inl ⟨rfl, rfl⟩) ?_ ?_
  · rintro i _ t - - (⟨rfl, rfl⟩ | ⟨rfl, c, hgrown, hstops⟩)
    · have hstart := Grown.start hs hold.empty hcached
      have hcounts : Counts vol.geometry file (kept + ([] : List ℕ).length) := by
        intro _
        rw [if_pos hfat]
        exact hkept
      refine wp_mono _ (growRound_grows hstart hs hr hold hcounts hmore) ?_
        fun _ u hu => ⟨[], hu.1, .inl ⟨rfl, hu.2⟩⟩
      rintro _ u ⟨rfl, c, hu, hend, hflag⟩
      have hflat : u.2.noFatChain = false := by
        -- the cluster behind the full ones is the stream's own
        by_contra hflat
        have hc := (hflag (by simpa using hflat)).2 hsome
        simp only [List.length_nil, Nat.add_zero, nthCluster, hfat, if_true] at hc
        have hfresh := hu.fresh c (by simp)
        rw [hc, show file.firstCluster + (kept - 1) + 1 = file.firstCluster + kept by omega,
          hlast] at hfresh
        cases hfresh
      refine .inr ⟨rfl, c, hu, hflat, Nat.succ_pos _, fun hin => ?_⟩
      have hclusters := hu.clusters
      rw [show kept + ([] ++ [c] : List ℕ).length = kept + 1 from rfl, extent_succ,
        hflat] at hclusters
      have hlink : link vol.geometry u.1.device.sectors u.2.firstCluster kept = c :=
        (List.cons.inj (List.append_inj' hclusters rfl).2).1
      rw [link_succ, hlink, hend] at hin
      have := hsound.inHeap_iff.mp hin
      omega
    · have hdata : t.2.dataLength = file.dataLength + 1 * clusterSize vol.geometry := by
        rw [hgrown.handle]
        rfl
      unfold growRound
      rw [wp_bind, wp_getSnd]
      beta_reduce
      rw [wp_ite]
      refine ⟨fun _ => ⟨rfl, c, hgrown, hstops⟩, fun hnot => ?_⟩
      replace hnot : ¬ stop ≤ t.2.dataLength := hnot
      have hfreeable := hgrown.freeable hs hold
      have hrt := Follows.faultless hgrown.follows hr
      have hlt := Nat.lt_div_mul_add hpos (a := file.dataLength)
      rw [hkept] at hlt
      have hindex : (t.2.dataLength - 1) / clusterSize vol.geometry = kept + 1 := by
        have h1 := Nat.add_one_mul kept (clusterSize vol.geometry)
        have h2 := Nat.add_one_mul (kept + 1) (clusterSize vol.geometry)
        refine Nat.div_eq_of_lt_le ?_ ?_ <;> omega
      rw [wp_bind, wp_lift]
      refine wp_mono _ (lastCluster_stops hgrown.base.ready (healthy_of_faultless hrt)
        (fun i hi => ?_) hstops hindex) (fun _ _ h => h.elim) ?_
      · have hmem := @nthCluster_mem vol.geometry t.1.device.sectors t.2.firstCluster (kept + 1)
          t.2.noFatChain i hi
        have hin := hfreeable.heap _ hmem
        rw [hstops.chained] at hin
        exact hin
      · intro _ u hu
        refine ⟨[c], hgrown.moved hu, .inr ⟨List.cons_ne_nil _ _, ?_⟩⟩
        have h1 := Nat.add_one_mul kept (clusterSize vol.geometry)
        omega
  · rintro _ t h
    generalize (stop - file.dataLength) / clusterSize vol.geometry = q at h
    rcases h with ⟨hz, -⟩ | ⟨hone, -⟩
    · omega
    · omega

end Loop

/-! ### A whole `append` -/

section Append

variable {vol : Volume} {bm cs : List ℕ} {s t : Machine} {file : File} {input : List UInt8}

/-- From `s` to `t` the clusters `cs` were claimed, and nothing else happened to the bitmap. -/
structure ClaimsAll (vol : Volume) (bm : List ℕ) (s : Machine) (cs : List ℕ) (t : Machine) :
    Prop where
  still : cs = [] → Wrote s t s.device.sectors
  base : Base vol bm t
  heap : ∀ c ∈ cs, vol.geometry.InHeap c
  fresh : ∀ c ∈ cs, used vol.geometry bm s.device.sectors c = false
  used : ∀ c, Counted vol.geometry c → used vol.geometry bm t.device.sectors c =
    (used vol.geometry bm s.device.sectors c || decide (c ∈ cs))
  left : cs.length ≤ claimable vol.geometry bm s.device.sectors

lemma ClaimsAll.of_grown {f : File} {kept : ℕ} {u : Machine × File}
    (h : Grown vol bm s f kept cs u) : ClaimsAll vol bm s cs u.1 :=
  ⟨h.still, h.base, h.heap, h.fresh, h.used, by have := h.left; omega⟩

lemma ClaimsAll.relinked {u : Machine} (h : ClaimsAll vol bm s cs t) (hne : cs ≠ [])
    (hu : Relinked vol bm t u []) : ClaimsAll vol bm s cs u :=
  ⟨fun hnil => absurd hnil hne, hu.base, h.heap, h.fresh,
    fun c hc => (hu.used c hc).trans (h.used c hc), h.left⟩

lemma wp_appendBody {Q : ℕ → Machine × File → Prop} {E : Error → Machine × File → Prop}
    (hsound : Sound vol.geometry s.device.sectorCount)
    (hstop : file.validLength + input.length < 2 ^ 64)
    (h : wp (loop (fun _ _ => growRound vol (file.validLength + input.length)
        (clusterSize vol.geometry)) 0 ((file.validLength + input.length - file.dataLength) /
          clusterSize vol.geometry + 2) ())
      (fun r u => r = .inl () ∧
        wp (commitAppend vol input (file.validLength + input.length)) Q E u) E
      (s, { file with cachedClusterIndex := none })) :
    wp (appendBody vol input) Q E (s, file) := by
  have hpos := hsound.clusterBytes_pos
  have hadd : checkedAdd64 file.validLength input.length =
      some (file.validLength + input.length) := if_pos hstop
  unfold appendBody
  simp only [hsound.bytesPerCluster_eq, pure_bind, wp_bind, wp_modifySnd, wp_getSnd, hadd,
    okOr_some, wp_div]
  refine ⟨by omega, wp_mono _ h ?_ fun _ _ h => h⟩
  rintro _ u ⟨rfl, hu⟩
  unfold commitAppend at hu
  simpa only [wp_bind, wp_modifySnd] using hu

variable (hs : Base vol bm s) (hr : ¬ Faulty s)
  (hplaced : HandlePlaced vol.geometry bm file) (hinput : input ≠ [])
  (hvalid : file.validLength ≤ file.dataLength)
  (hstop : file.validLength + input.length < 2 ^ 64)

include hs hr hplaced hinput hvalid hstop

lemma append_inPlace (hcs : Freeable vol bm (extent vol.geometry s.device.sectors file.firstCluster
      file.noFatChain (clustersFor vol.geometry file.dataLength)))
    (hfits : file.validLength + input.length ≤ file.dataLength) :
    wp (appendBody vol input) (fun _ _ => True) (fun _ _ => False) (s, file) := by
  have hle := clustersFor_le hs.ready.sound file.dataLength
  refine wp_appendBody hs.ready.sound hstop ?_
  rw [loop_succ, wp_bind]
  unfold growRound
  rw [wp_bind, wp_getSnd]
  beta_reduce
  rw [wp_ite]
  refine ⟨fun _ => ⟨rfl, ?_⟩, fun hmore => absurd hfits hmore⟩
  refine wp_mono _ (@commitAppend_fills vol bm s { file with cachedClusterIndex := none } _ input hs
    hr hcs ⟨hplaced.count, hplaced.primary, hplaced.stream, hplaced.locs⟩ rfl hinput
    (hvalid.trans hle) fun hmore => ?_) (fun _ _ _ => trivial) fun _ _ h => ?_
  · exact absurd hmore (by simp only; omega)
  · exact absurd h.1 (by simp only; omega)

omit hvalid in
/-- An append to a regular stream fails when there are too few clusters to claim, and has claimed
all there were then. -/
lemma append_regular (hreg : Regular vol.geometry file)
    (hold : Holding vol bm s file (clustersFor vol.geometry file.dataLength)) :
    wp (appendBody vol input)
      (fun _ _ => clustersFor vol.geometry (file.validLength + input.length - file.dataLength) ≤
        claimable vol.geometry bm s.device.sectors)
      (fun _ u => claimable vol.geometry bm s.device.sectors <
          clustersFor vol.geometry (file.validLength + input.length - file.dataLength) ∧
        ∃ cs, cs.length = claimable vol.geometry bm s.device.sectors ∧ ClaimsAll vol bm s cs u.1)
      (s, file) := by
  have hsound := hs.ready.sound
  have hle := clustersFor_le hsound file.dataLength
  refine wp_appendBody hsound hstop ?_
  refine wp_mono _ (growLoop_regular hs hr ⟨hreg.whole, hreg.empty⟩
    ⟨hold.freeable, hold.used, hold.empty, hold.length⟩ rfl) ?_ ?_
  · rintro _ ⟨m, f⟩ ⟨rfl, cs, hgrown, hlong⟩
    obtain ⟨hdata, hvalid', hcached, hplaced'⟩ := hgrown.fields
    replace hplaced' : HandlePlaced vol.geometry bm f :=
      hplaced' ⟨hplaced.count, hplaced.primary, hplaced.stream, hplaced.locs⟩
    simp only at hdata hvalid' hcached
    have hleft := hgrown.left
    simp only at hlong hleft
    have hroom : file.validLength + input.length ≤
        (clustersFor vol.geometry file.dataLength + cs.length) * clusterSize vol.geometry := by
      rw [Nat.add_mul]
      omega
    refine ⟨rfl, ?_⟩
    rw [← hvalid']
    refine wp_mono _ (commitAppend_fills hgrown.base (Follows.faultless hgrown.follows hr)
      (hgrown.freeable hs ⟨hold.freeable, hold.used, hold.empty, hold.length⟩) hplaced' hcached
      hinput ?_ fun hmore => ?_) (fun _ _ _ => ?_) fun _ _ h => ?_
    · rw [hvalid']
      change file.validLength ≤ (clustersFor vol.geometry file.dataLength + cs.length) * _
      omega
    · rw [hvalid'] at hmore
      exact absurd hmore (Nat.not_lt.mpr hroom)
    · have hclusters := @clustersFor_le_of_le vol.geometry _ hsound
        (file.validLength + input.length - file.dataLength) cs.length (by omega)
      rw [hvalid']
      omega
    · rw [hvalid'] at h
      exact absurd h.1 (Nat.not_lt.mpr hroom)
  · rintro _ ⟨m, f⟩ ⟨cs, hgrown, hnone, hshort⟩
    have hdata := hgrown.fields.1
    have hleft := hgrown.left
    simp only at hnone hshort hleft hdata
    have hlen : cs.length = claimable vol.geometry bm s.device.sectors := by omega
    refine ⟨?_, cs, hlen, ClaimsAll.of_grown hgrown⟩
    rw [← hlen, lt_clustersFor hsound]
    omega

lemma append_ragged {kept : ℕ} (hfat : file.noFatChain = true)
    (hkept : file.dataLength / clusterSize vol.geometry = kept)
    (hmul : kept * clusterSize vol.geometry < file.dataLength) (hsome : 0 < kept)
    (hold : Holding vol bm s file kept)
    (hlast : used vol.geometry bm s.device.sectors (file.firstCluster + kept) = true)
    (hmore : file.dataLength < file.validLength + input.length) :
    wp (appendBody vol input)
      (fun _ _ => file.validLength + input.length ≤ (kept + 1) * clusterSize vol.geometry)
      (fun _ u => ∃ cs, ClaimsAll vol bm s cs u.1 ∧
        (cs = [] ∧ claimable vol.geometry bm s.device.sectors = 0 ∨
          cs ≠ [] ∧ (kept + 1) * clusterSize vol.geometry < file.validLength + input.length))
      (s, file) := by
  have hsound := hs.ready.sound
  have hpos : 0 < clusterSize vol.geometry := hsound.clusterBytes_pos
  have hlt := Nat.lt_div_mul_add hpos (a := file.dataLength)
  rw [hkept, ← Nat.add_one_mul] at hlt
  refine wp_appendBody hsound hstop ?_
  refine wp_mono _ (growLoop_ragged hs hr hfat hkept hmul hsome
    ⟨hold.freeable, hold.used, hold.empty, hold.length⟩ hlast rfl hmore) ?_ ?_
  · rintro _ ⟨m, f⟩ ⟨rfl, c, hgrown, hstops⟩
    obtain ⟨-, hvalid', hcached, hplaced'⟩ := hgrown.fields
    replace hplaced' : HandlePlaced vol.geometry bm f :=
      hplaced' ⟨hplaced.count, hplaced.primary, hplaced.stream, hplaced.locs⟩
    simp only at hvalid' hcached
    refine ⟨rfl, ?_⟩
    rw [← hvalid']
    refine wp_mono _ (commitAppend_fills hgrown.base (Follows.faultless hgrown.follows hr)
      (hgrown.freeable hs ⟨hold.freeable, hold.used, hold.empty, hold.length⟩) hplaced' hcached
      hinput ?_ fun _ => hstops) (fun _ _ h => ?_) fun _ _ h => ?_
    · rw [hvalid']
      exact hvalid.trans hlt.le
    · rw [hvalid'] at h ⊢
      exact h
    · rw [hvalid'] at h ⊢
      exact ⟨[c], (ClaimsAll.of_grown hgrown).relinked (List.cons_ne_nil _ _) h.2,
        .inr ⟨List.cons_ne_nil _ _, h.1⟩⟩
  · rintro _ u ⟨cs, hgrown, hcs⟩
    exact ⟨cs, ClaimsAll.of_grown hgrown, hcs⟩

omit hs hr hplaced hinput hvalid in
lemma append_panics (hsound : Sound vol.geometry s.device.sectorCount)
    (hfat : file.noFatChain = true) (hfirst : file.firstCluster ≠ 0)
    (hshort : file.dataLength < clusterSize vol.geometry)
    (hmore : file.dataLength < file.validLength + input.length) :
    (appendBody vol input (s, file)).1 = .panic := by
  have hpos : 0 < clusterSize vol.geometry := hsound.clusterBytes_pos
  set f : File := { file with cachedClusterIndex := none } with hf
  have hdiv (a : ℕ) {σ : Type} (u : σ) : (div a (clusterSize vol.geometry) : Exec σ Error ℕ) u =
      (.ok (a / clusterSize vol.geometry), u) := by
    unfold div
    rw [assert, if_pos (by omega)]
    rfl
  have hlast : lastCluster vol f (clusterSize vol.geometry) s = (.panic, s) := by
    unfold lastCluster
    rw [if_pos hfat, bind_ok (hdiv _ s), Nat.div_eq_of_lt hshort]
    rfl
  have hround : growRound vol (file.validLength + input.length) (clusterSize vol.geometry) (s, f) =
      (.panic, (s, f)) := by
    unfold growRound
    rw [bind_ok (show getSnd (s, f) = (.ok f, (s, f)) from rfl), if_neg (by simp only [hf]; omega)]
    refine bind_panic ?_
    change onFst _ (s, f) = _
    rw [onFst, if_neg hfirst]
    exact congrArg (fun p : Outcome Error (Option ℕ) × Machine => (p.1, (p.2, f)))
      (bind_panic hlast)
  have hadd : checkedAdd64 file.validLength input.length =
      some (file.validLength + input.length) := if_pos hstop
  unfold appendBody
  rw [bind_ok (show modifySnd _ (s, file) = (.ok (), (s, f)) from rfl), hsound.bytesPerCluster_eq,
    pure_bind, bind_ok (show getSnd (s, f) = (.ok f, (s, f)) from rfl)]
  change ((okOr _ (checkedAdd64 file.validLength input.length) >>= _) (s, f)).1 = _
  rw [hadd, okOr_some, pure_bind, bind_ok (hdiv _ (s, f)), bind_panic (t := (s, f))]
  rw [loop_succ]
  exact bind_panic hround

end Append

/-! ### What a failed append leaves -/

section Failed

variable {ζ : Horizon} {vol : Volume} {s t : Machine} {path : List Char} {file : File} {P : Dir}
  {e : DirectoryEntry} {input : List UInt8}

lemma opened_still (h : Opened ζ vol s path file P e) (ht : Wrote s t s.device.sectors) :
    Replaced ζ vol s t e e := by
  obtain ⟨own, howners⟩ := h.wf.owners
  have hsound := h.wf.sound
  have hupcase := howners.upcase
  refine ⟨ht.follows.ready h.wf.ready, fun n => ?_, ⟨hupcase.heap,
    length_le_heap hsound hupcase.heap hupcase.nodup, by rw [ht.sectors], fun c _ => ?_⟩,
    fun D _ c _ => by rw [ht.sectors], fun D _ x hx _ => ?_, ?_, rfl, h.isFile⟩
  · rw [ht.follows.readFails]
    exact h.healthy n
  · rw [ht.sectors]
    exact fun _ _ => rfl
  · rw [ht.sectors]
    exact (extentSlots_slotOn hsound (Horizon.mem_of_cut hx)).1.symm
  · obtain ⟨prim, stream, names, hset, rfl⟩ := id h.entry
    refine ⟨prim, stream, names, ?_, hset.isSet, rfl⟩
    rw [entryOf_take_locs hset.isSet, ht.sectors, List.map_map]
    refine (List.map_congr_left fun x hx => ?_).trans (List.map_id _)
    exact (extentSlots_slotOn hsound (Horizon.mem_of_cut (hset.inside.subset hx))).1.symm

/-- An append that fails leaves the handle, the bitmap, the cached count, and the file. -/
def LeaksNothing (vol : Volume) (s : Machine) (path : List Char) (file : File)
    (input : List UInt8) : Prop :=
  ∀ e t, append vol input (s, file) = (.err e, t) →
    t.2 = file ∧ (∀ c, Counted vol.geometry c → marked vol t.1 c = marked vol s c) ∧
    t.1.freeClusters = s.freeClusters ∧ (openFile vol path t.1).1 = (openFile vol path s).1 ∧
    clustersOfFile vol.geometry t.1.device.sectors file =
      clustersOfFile vol.geometry s.device.sectors file ∧
    ∀ n, (readBack vol path n t.1).1 = (readBack vol path n s).1

/-- A contiguous stream whose last cluster is not full. -/
def Ragged (g : Geometry) (file : File) : Prop :=
  file.noFatChain = true ∧ file.firstCluster ≠ 0 ∧
    (file.dataLength = 0 ∨ ¬ clusterSize g ∣ file.dataLength)

/-- An append does not fail after it has claimed a cluster: nothing is written or there is no
cluster to claim, or there are enough clusters; to a stream with a last cluster not full, the bytes
go into its clusters, or it has no full one. -/
def Spared (vol : Volume) (s : Machine) (file : File) (input : List UInt8) : Prop :=
  let bm := bitmapClusters vol s.device.sectors
  let stop := file.validLength + input.length
  input = [] ∨ 2 ^ 64 ≤ stop ∨ claimable vol.geometry bm s.device.sectors = 0 ∨
    (Ragged vol.geometry file → file.dataLength < clusterSize vol.geometry ∨
      stop ≤ clustersFor vol.geometry file.dataLength * clusterSize vol.geometry) ∧
    (¬ Ragged vol.geometry file → clustersFor vol.geometry (stop - file.dataLength) ≤
      claimable vol.geometry bm s.device.sectors)

lemma kept_of_still (h : Opened ζ vol s path file P e) (ht : Wrote s t s.device.sectors) :
    (∀ c, Counted vol.geometry c → marked vol t c = marked vol s c) ∧
    t.freeClusters = s.freeClusters ∧ (openFile vol path t).1 = (openFile vol path s).1 ∧
    clustersOfFile vol.geometry t.device.sectors file =
      clustersOfFile vol.geometry s.device.sectors file ∧
    ∀ n, (readBack vol path n t).1 = (readBack vol path n s).1 := by
  have hreplaced := opened_still h ht
  have hopen : (openFile vol path s).1 = .ok (rewound file) := by
    rw [h.handle]
    exact openFile_ok h.lookup h.isFile
  have hopen' : (openFile vol path t).1 = .ok (rewound file) := by
    have hlookup := hreplaced.lookup h.wf h.inTree h.entry h.healthy h.lookup
    rw [swapped, if_pos rfl] at hlookup
    rw [h.handle]
    exact openFile_ok hlookup h.isFile
  have hstreams := h.streams
  refine ⟨fun c _ => ?_, ht.free, hopen'.trans hopen.symm, by rw [ht.sectors], fun n => ?_⟩
  · unfold marked
    rw [ht.sectors]
  · rw [readBack_yields h.wf.ready (fun hv => h.wf.table hv) h.healthy hopen hstreams h.room n,
      readBack_yields hreplaced.ready (fun hv => h.wf.table hv) hreplaced.healthy hopen'
        (by rw [ht.sectors]; exact hstreams) h.room n, ht.sectors]

lemma wp_append {Q : ℕ → Machine × File → Prop} (E : Machine → Prop) (hinput : input ≠ [])
    (h : wp (appendBody vol input) Q (fun _ u => E u.1) (s, file)) :
    wp (append vol input) Q (fun _ u => u.2 = file ∧ E u.1) (s, file) := by
  unfold append
  rw [if_neg hinput, wp_bind, wp_getSnd]
  beta_reduce
  rw [wp_restoreSnd]
  exact wp_mono _ h (fun _ _ h => h) fun _ _ h => ⟨rfl, h⟩

lemma leaks_of_claims {bm cs : List ℕ} (hs : Base vol bm s)
    (hbm : bm = bitmapClusters vol s.device.sectors) (hclaims : ClaimsAll vol bm s cs t)
    (hne : cs ≠ []) : ∃ c, Counted vol.geometry c ∧ marked vol t c ≠ marked vol s c := by
  obtain ⟨c, cs', rfl⟩ := List.exists_cons_of_ne_nil hne
  have hc := counted_of_inHeap hs.ready.sound (hclaims.heap c (by simp))
  refine ⟨c, hc, ?_⟩
  have hlen : bm.length = clustersFor vol.geometry vol.bitmap.byteLength := by
    rw [hbm]
    exact extent_length
  unfold marked
  rw [Base.bitmapClusters_eq hclaims.base hlen, ← hbm, hclaims.used c hc, hclaims.fresh c (by simp)]
  simp

section Open

variable (h : Opened ζ vol s path file P e)

include h

lemma opened_used {c : ℕ} (hc : c ∈ clustersOfFile vol.geometry s.device.sectors file) :
    used vol.geometry (bitmapClusters vol s.device.sectors) s.device.sectors c = true := by
  obtain ⟨own, howners⟩ := h.wf.owners
  rw [h.clusters_eq] at hc
  exact (howners.entry P e h.inTree h.entry).used c hc

lemma opened_regular (hreg : ¬ Ragged vol.geometry file) : Regular vol.geometry file := by
  obtain ⟨-, -, -, -, hfirst, hdata, -, hfat⟩ := h.fields
  have hsome : file.dataLength ≠ 0 → 2 ≤ file.firstCluster := by
    rw [hdata, hfirst]
    exact h.entry.fields.2.2.1
  constructor
  · intro hflat
    by_cases hzero : file.firstCluster = 0
    · have hlen : file.dataLength = 0 := by
        by_contra hne
        have := hsome hne
        omega
      rw [hlen]
      exact (Nat.zero_mul _).symm
    · have hdvd : clusterSize vol.geometry ∣ file.dataLength := by
        by_contra hnot
        exact hreg ⟨hflat, hzero, .inr hnot⟩
      obtain ⟨k, hk⟩ := hdvd
      rw [hk, Nat.mul_comm, clustersFor_mul h.wf.sound]
  · intro hnone
    have hlen : file.dataLength = 0 := by
      by_contra hne
      have := clustersFor_pos h.wf.sound hne
      omega
    by_cases hflat : file.noFatChain = true
    · by_contra hzero
      exact hreg ⟨hflat, hzero, .inl hlen⟩
    · have hends := (h.wf.entryEnds P e h.inTree h.entry).1
      unfold ChainEnds at hends
      rw [← hfat, ← hdata, hnone, ← hfirst] at hends
      simpa using hends (by simpa using hflat)

lemma opened_holding (hreg : Regular vol.geometry file) :
    Holding vol (bitmapClusters vol s.device.sectors)
    s file (clustersFor vol.geometry file.dataLength) where
  freeable := h.freeable
  used c hc := opened_used h hc
  empty := hreg.empty
  length := by
    have hle := clustersFor_le h.wf.sound file.dataLength
    rw [Nat.add_one_mul]
    omega

lemma opened_holding_ragged {kept : ℕ}
    (hcount : clustersFor vol.geometry file.dataLength = kept + 1)
    (hsome : 0 < kept) : Holding vol (bitmapClusters vol s.device.sectors) s file kept := by
  have hsplit : clustersOfFile vol.geometry s.device.sectors file =
      extent vol.geometry s.device.sectors file.firstCluster file.noFatChain kept ++
        [nthCluster vol.geometry s.device.sectors file.firstCluster file.noFatChain kept] := by
    unfold clustersOfFile
    rw [hcount, extent_succ]
  have hmem : ∀ c ∈ extent vol.geometry s.device.sectors file.firstCluster file.noFatChain kept,
      c ∈ clustersOfFile vol.geometry s.device.sectors file := fun c hc => by
    rw [hsplit]
    exact List.mem_append_left _ hc
  have hnodup := h.freeable.nodup
  rw [hsplit] at hnodup
  refine ⟨⟨fun c hc => h.freeable.heap c (hmem c hc), hnodup.of_append_left,
    fun c hc => h.freeable.apart c (hmem c hc)⟩, fun c hc => opened_used h (hmem c hc),
    fun hz => ?_, ?_⟩
  · omega
  · rw [← hcount]
    exact clustersFor_le h.wf.sound _

end Open

lemma append_overflows (hsound : Sound vol.geometry s.device.sectorCount)
    (hstop : ¬ file.validLength + input.length < 2 ^ 64) :
    wp (appendBody vol input) (fun _ _ => False) (fun _ u => u.1 = s) (s, file) := by
  have hadd : checkedAdd64 file.validLength input.length = none := if_neg hstop
  unfold appendBody
  simp only [hsound.bytesPerCluster_eq, pure_bind, wp_bind, wp_modifySnd, wp_getSnd, hadd,
    okOr_none,
    wp_throw]

lemma ragged_count {n : ℕ} (hsound : Sound vol.geometry n)
    (hpart : file.dataLength = 0 ∨ ¬ clusterSize vol.geometry ∣ file.dataLength)
    (hlong : clusterSize vol.geometry ≤ file.dataLength) :
    ∃ kept, file.dataLength / clusterSize vol.geometry = kept ∧ 0 < kept ∧
      kept * clusterSize vol.geometry < file.dataLength ∧
      clustersFor vol.geometry file.dataLength = kept + 1 := by
  have hpos : 0 < clusterSize vol.geometry := hsound.clusterBytes_pos
  have hle := Nat.div_mul_le_self file.dataLength (clusterSize vol.geometry)
  have hlt := Nat.lt_div_mul_add hpos (a := file.dataLength)
  have hdvd : ¬ clusterSize vol.geometry ∣ file.dataLength := hpart.resolve_left (by omega)
  have hfull : file.dataLength / clusterSize vol.geometry * clusterSize vol.geometry <
      file.dataLength := by
    refine lt_of_le_of_ne hle fun heq => hdvd ?_
    rw [← heq]
    exact Nat.dvd_mul_left _ _
  refine ⟨_, rfl, Nat.div_pos hlong hpos, hfull, Nat.le_antisymm ?_ ?_⟩
  · refine clustersFor_le_of_le hsound ?_
    rw [Nat.add_one_mul]
    exact hlt.le
  · exact (lt_clustersFor hsound).mpr hfull

section Leaks

variable (h : Opened ζ vol s path file P e) (hfaultless : ¬ Faulty s) (hinput : input ≠ [])
  (hstop : file.validLength + input.length < 2 ^ 64)

include h hfaultless hinput hstop

lemma leaksNothing_regular_iff (hragged : ¬ Ragged vol.geometry file) :
    LeaksNothing vol s path file input ↔ Spared vol s file input := by
  have hbase := h.wf.base
  set bm := bitmapClusters vol s.device.sectors with hbm
  set k := clustersFor vol.geometry (file.validLength + input.length - file.dataLength) with hk
  have hreg := opened_regular h hragged
  have hrun := wp_append (fun m => claimable vol.geometry bm s.device.sectors < k ∧
      ∃ cs, cs.length = claimable vol.geometry bm s.device.sectors ∧
      ClaimsAll vol bm s cs m) hinput
    (append_regular hbase hfaultless h.handlePlaced hinput hstop hreg (opened_holding h hreg))
  constructor
  · intro hleaks
    by_contra hspared
    unfold Spared at hspared
    simp only [not_or, hragged, false_implies, true_and, not_false_iff, true_implies] at hspared
    obtain ⟨-, -, hsome, hmore⟩ := hspared
    obtain ⟨e', t, herr, -, -, cs, hlen, hclaims⟩ := exists_err_of_wp
      (wp_mono _ hrun (fun _ _ h => hmore h) fun _ _ h => h)
    obtain ⟨c, hc, hne⟩ :=
      leaks_of_claims hbase hbm hclaims (by rintro rfl; exact hsome hlen.symm)
    exact hne ((hleaks e' t herr).2.1 c hc)
  · intro hspared e' t herr
    obtain ⟨hfile, hmore, cs, hlen, hclaims⟩ := (wp_err herr).mp hrun
    rcases hspared with h1 | h1 | h1 | ⟨-, h1⟩
    · exact absurd h1 hinput
    · omega
    · have hnil := List.eq_nil_of_length_eq_zero (hlen.trans h1)
      exact ⟨hfile, kept_of_still h (hclaims.still hnil)⟩
    · exact absurd (h1 hragged) (Nat.not_le.mpr hmore)

lemma leaksNothing_ragged_iff (hragged : Ragged vol.geometry file)
    (hlong : clusterSize vol.geometry ≤ file.dataLength)
    (hgrows : file.dataLength < file.validLength + input.length) :
    LeaksNothing vol s path file input ↔ Spared vol s file input := by
  have hbase := h.wf.base
  obtain ⟨hfat, -, hpart⟩ := id hragged
  set bm := bitmapClusters vol s.device.sectors with hbm
  obtain ⟨kept, hkept, hsome, hmul, hcount⟩ := ragged_count h.wf.sound hpart hlong
  have hlast : used vol.geometry bm s.device.sectors (file.firstCluster + kept) = true := by
    refine opened_used h ?_
    have hmem := @nthCluster_mem vol.geometry s.device.sectors file.firstCluster _ file.noFatChain
      kept (show kept < clustersFor vol.geometry file.dataLength by omega)
    have hnth : nthCluster vol.geometry s.device.sectors file.firstCluster file.noFatChain kept =
        file.firstCluster + kept := by simp only [nthCluster, hfat, if_true]
    rwa [hnth] at hmem
  have hrun := wp_append (fun m => ∃ cs, ClaimsAll vol bm s cs m ∧
      (cs = [] ∧ claimable vol.geometry bm s.device.sectors = 0 ∨
        cs ≠ [] ∧ (kept + 1) * clusterSize vol.geometry < file.validLength + input.length)) hinput
    (append_ragged hbase hfaultless h.handlePlaced hinput h.valid_le hstop hfat hkept hmul hsome
      (opened_holding_ragged h hcount hsome) hlast hgrows)
  constructor
  · intro hleaks
    by_contra hspared
    unfold Spared at hspared
    simp only [not_or, hragged, not_true, false_implies, and_true, true_implies, hcount] at hspared
    obtain ⟨-, -, hnone, -, hbeyond⟩ := hspared
    obtain ⟨e', t, herr, -, cs, hclaims, hcs⟩ := exists_err_of_wp
      (wp_mono _ hrun (fun _ _ h => hbeyond h) fun _ _ h => h)
    rcases hcs with ⟨-, hzero⟩ | ⟨hne, -⟩
    · exact hnone hzero
    · obtain ⟨c, hc, hne⟩ := leaks_of_claims hbase hbm hclaims hne
      exact hne ((hleaks e' t herr).2.1 c hc)
  · intro hspared e' t herr
    obtain ⟨hfile, cs, hclaims, hcs⟩ := (wp_err herr).mp hrun
    rcases hcs with ⟨rfl, -⟩ | ⟨hne, hbeyond⟩
    · exact ⟨hfile, kept_of_still h (hclaims.still rfl)⟩
    rcases hspared with h1 | h1 | h1 | ⟨h1, -⟩
    · exact absurd h1 hinput
    · omega
    · have hleft := hclaims.left
      rw [h1] at hleft
      exact absurd (List.eq_nil_of_length_eq_zero (Nat.le_zero.mp hleft)) hne
    · rcases h1 hragged with h1 | h1
      · omega
      · rw [hcount] at h1
        omega

end Leaks

/-- **A failed append leaks nothing unless it has claimed a cluster.** -/
theorem append_leaksNothing_iff (vol : Volume) (s : Machine) (path : List Char) (file : File)
    (input : List UInt8) (hwf : WellFormed .live vol s) (hfaultless : ¬ Faulty s)
    (hopen : (openFile vol path s).1 = .ok (rewound file)) :
    LeaksNothing vol s path file input ↔ Spared vol s file input := by
  obtain ⟨P, e, h⟩ := opened_of_run hwf hfaultless hopen
  have hsound := hwf.sound
  by_cases hinput : input = []
  · refine ⟨fun _ => .inl hinput, fun _ e' t hrun => ?_⟩
    unfold append at hrun
    rw [if_pos hinput] at hrun
    cases hrun
  by_cases hstop : file.validLength + input.length < 2 ^ 64
  swap
  · refine ⟨fun _ => .inr (.inl (Nat.le_of_not_lt hstop)), fun _ e' t hrun => ?_⟩
    obtain ⟨hfile, ht⟩ := (wp_err hrun).mp (wp_append (· = s) hinput
      (append_overflows hsound hstop))
    exact ⟨hfile, kept_of_still h (ht ▸ Wrote.refl s)⟩
  by_cases hragged : Ragged vol.geometry file
  swap
  · exact leaksNothing_regular_iff h hfaultless hinput hstop hragged
  obtain ⟨hfat, hfirst, -⟩ := id hragged
  by_cases hfits : file.validLength + input.length ≤ file.dataLength
  · -- no growth
    have hrun := wp_append (fun _ => False) hinput (append_inPlace hwf.base hfaultless
      h.handlePlaced hinput h.valid_le hstop h.freeable hfits)
    refine ⟨fun _ => .inr (.inr (.inr ⟨fun _ => .inr ?_, fun hnot => absurd hragged hnot⟩)), ?_⟩
    · exact hfits.trans (clustersFor_le hsound _)
    · intro _ e' t herr
      exact ((wp_err herr).mp hrun).2.elim
  by_cases hshort : file.dataLength < clusterSize vol.geometry
  · refine ⟨fun _ => .inr (.inr (.inr ⟨fun _ => .inl hshort, fun hnot => absurd hragged hnot⟩)), ?_⟩
    intro _ e' t herr
    have hpanic := append_panics hstop hsound hfat hfirst hshort (Nat.lt_of_not_le hfits)
    unfold append at herr
    rw [if_neg hinput, bind_ok (show getSnd (s, file) = (.ok file, (s, file)) from rfl),
      restoreSnd, run_eq hpanic] at herr
    cases herr
  exact leaksNothing_ragged_iff h hfaultless hinput hstop hragged (Nat.le_of_not_lt hshort)
    (Nat.lt_of_not_le hfits)

end Failed

/-! ### One free cluster -/

/-- The file `A` of two clusters on a volume of which only the cluster 7 is free. -/
def crowded : Machine :=
  smallMachine (Image.patch smallFat 20 (leBytes 4 6 ++ leBytes 4 0xffffffff))
    (sectorWith [(0, [0xdf, 0xff, 0xff, 0x3f])])
    (sectorWith ((64, Listing.setBytes { newFileSet [65] with
      firstCluster := 5, dataLength := 1024, noFatChain := false } 3) :: systemSlots 0))

set_option maxRecDepth 100000 in
lemma wellFormed_crowded : WellFormed .live smallVolume crowded :=
  @small_wellFormed _ _ _ _ pairOwner 1 [Dir.root smallVolume.geometry 1] (by decide +kernel)

lemma openFile_crowded : (openFile smallVolume ['A'] crowded).1 = .ok
    (rewound (pairFile false)) := by
  decide +kernel

lemma faultless_crowded : ¬ Faulty crowded := by
  rintro ⟨n, h | h⟩ <;> cases h

theorem append_leaksNothing_iff_crowded :
    LeaksNothing smallVolume crowded ['A'] (pairFile false) (List.replicate 600 7) ↔
      Spared smallVolume crowded (pairFile false) (List.replicate 600 7) :=
  append_leaksNothing_iff smallVolume crowded ['A'] (pairFile false) (List.replicate 600 7)
    wellFormed_crowded faultless_crowded openFile_crowded

/-- There is no second cluster, and the first remains marked. -/
theorem crowded_leaks : WellFormed .live smallVolume crowded ∧
    (openFile smallVolume ['A'] crowded).1 = .ok (rewound (pairFile false)) ∧
    (append smallVolume (List.replicate 600 7) (crowded, pairFile false)).1 = .err .noSpace ∧
    marked smallVolume crowded 7 = false ∧
    marked smallVolume (append smallVolume (List.replicate 600 7) (crowded, pairFile false)).2.1 7 =
      true ∧
    ¬ LeaksNothing smallVolume crowded ['A'] (pairFile false) (List.replicate 600 7) := by
  have herr : (append smallVolume (List.replicate 600 7) (crowded, pairFile false)).1 =
      .err .noSpace := by decide +kernel
  have hbefore : marked smallVolume crowded 7 = false := by decide +kernel
  have hafter : marked smallVolume (append smallVolume (List.replicate 600 7)
      (crowded, pairFile false)).2.1 7 = true := by decide +kernel
  refine ⟨wellFormed_crowded, openFile_crowded, herr, hbefore, hafter, fun h => ?_⟩
  have hsame := (h _ _ (run_eq herr)).2.1 7 ⟨by decide, by decide⟩
  rw [hbefore, hafter] at hsame
  cases hsame

end ExfatEmbedded.Appending
