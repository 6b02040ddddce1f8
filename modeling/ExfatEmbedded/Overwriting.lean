import ExfatEmbedded.Appending
import ExfatEmbedded.Retrying

/-!
What `read` and `write` leave: the bytes of the range, and everything else as it was.
-/

namespace ExfatEmbedded.Overwriting

open ExfatEmbedded.Library Exec ExfatEmbedded.Core ExfatEmbedded.Entry ExfatEmbedded.Allocation
open ExfatEmbedded.FileIo ExfatEmbedded.Reading ExfatEmbedded.ReadSafety ExfatEmbedded.Listing
open ExfatEmbedded.Media ExfatEmbedded.Writing ExfatEmbedded.Tree ExfatEmbedded.FreeSpace
open ExfatEmbedded.Readback ExfatEmbedded.Growth ExfatEmbedded.Retrying ExfatEmbedded.Appending

/-! ### Bytes put into a stream -/

section Put

variable {g : Geometry} {m pos j : ℕ} {cs : List ℕ} {d : Sectors} {bs : List UInt8}

lemma streamPos_add {i : ℕ} (hsector : (streamPos g cs pos).2 + bs.length ≤ g.bytesPerSector)
    (hcluster : pos % clusterSize g + bs.length ≤ clusterSize g) (hi : i < bs.length) :
    streamPos g cs (pos + i) = ((streamPos g cs pos).1, (streamPos g cs pos).2 + i) := by
  obtain ⟨hmod, hdiv⟩ := mod_div_within hi hcluster
  obtain ⟨hoff, hsec⟩ := mod_div_within (a := pos % clusterSize g) (k := g.bytesPerSector)
    hi hsector
  unfold streamPos
  rw [hmod, hdiv, hoff, hsec]

lemma streamByte_put (hs : Sound g m) (hheap : ∀ c ∈ cs, g.InHeap c) (hnodup : cs.Nodup)
    (hsector : (streamPos g cs pos).2 + bs.length ≤ g.bytesPerSector)
    (hcluster : pos % clusterSize g + bs.length ≤ clusterSize g)
    (hpos : pos / clusterSize g < cs.length) (hj : j / clusterSize g < cs.length) :
    streamByte g (put d (streamPos g cs pos).1 (streamPos g cs pos).2 bs) cs j =
      if pos ≤ j ∧ j < pos + bs.length then bs.getD (j - pos) 0 else streamByte g d cs j := by
  split_ifs with hin
  · obtain ⟨i, rfl⟩ : ∃ i, j = pos + i := ⟨j - pos, by omega⟩
    have hi : i < bs.length := by omega
    rw [streamByte_eq, streamPos_add hsector hcluster hi, Nat.add_sub_cancel_left]
    exact put_inside hi
  · rw [streamByte_eq, streamByte_eq]
    refine put_outside ?_
    by_contra hsame
    rw [not_or, not_or, not_not] at hsame
    obtain ⟨hlba, hge, hlt⟩ := hsame
    have hi : (streamPos g cs j).2 - (streamPos g cs pos).2 < bs.length := by omega
    have hplace := streamPos_add hsector hcluster hi
    have heq : streamPos g cs j =
        streamPos g cs (pos + ((streamPos g cs j).2 - (streamPos g cs pos).2)) := by
      rw [hplace]
      refine Prod.ext hlba ?_
      change _ = (streamPos g cs pos).2 + _
      omega
    have hdiv := (mod_div_within hi hcluster).2
    have := streamPos_inj hs hheap hnodup hj (by rw [hdiv]; exact hpos) heq
    omega

/-- The media with `bs` put at the position `pos` of the stream of the clusters `cs`. -/
def putAt (g : Geometry) (d : Sectors) (cs : List ℕ) (pos : ℕ) (bs : List UInt8) : Sectors :=
  put d (streamPos g cs pos).1 (streamPos g cs pos).2 bs

end Put

/-! ### Writing -/

section Write

variable {vol : Volume} {bm : List ℕ} {s : Machine} {file : File} {n start : ℕ}
  {bs input : List UInt8} {t : Machine × File}

/-- A write behind the handle `file` has put `bs` at `start` of the stream, and has changed nothing
else. -/
structure Overwritten (vol : Volume) (bm : List ℕ) (s : Machine) (file : File) (n start : ℕ)
    (bs : List UInt8) (t : Machine × File) : Prop where
  writes : WritesAt vol bm s file n (start + bs.length) t
  free : t.1.freeClusters = s.freeClusters
  bytes : ∀ j, j / clusterSize vol.geometry < n →
    streamByte vol.geometry t.1.device.sectors
        (extent vol.geometry s.device.sectors file.firstCluster file.noFatChain n) j =
      if start ≤ j ∧ j < start + bs.length then bs.getD (j - start) 0 else
        streamByte vol.geometry s.device.sectors
          (extent vol.geometry s.device.sectors file.firstCluster file.noFatChain n) j
  frame : ∀ lba, (∀ i < n, ¬ InCluster vol.geometry
      (nthCluster vol.geometry s.device.sectors file.firstCluster file.noFatChain i) lba) →
    t.1.device.sectors lba = s.device.sectors lba

lemma Overwritten.refl (hs : Base vol bm s) (hfile : Streams vol.geometry s.device.sectors file n) :
    Overwritten vol bm s file n file.position [] (s, file) where
  writes := ⟨Relinked.refl hs, rfl, hfile.cached⟩
  free := rfl
  bytes j _ := by
    rw [if_neg]
    simp only [List.length_nil]
    omega
  frame _ _ := rfl

lemma getD_chunk {k k' j : ℕ} {b : UInt8} (hlt : k < k') :
    (if start + k ≤ j ∧ j < start + k + (k' - k) then
        ((input.drop k).take (k' - k)).getD (j - (start + k)) 0
      else if start ≤ j ∧ j < start + k then (input.take k).getD (j - start) 0 else b) =
      if start ≤ j ∧ j < start + k' then (input.take k').getD (j - start) 0 else b := by
  simp only [List.getD_eq_getElem?_getD]
  by_cases hnew : start + k ≤ j ∧ j < start + k + (k' - k)
  · rw [if_pos hnew, if_pos (by omega), List.getElem?_take, List.getElem?_take, List.getElem?_drop,
      if_pos (by omega), if_pos (by omega), show k + (j - (start + k)) = j - start by omega]
  · rw [if_neg hnew]
    by_cases hold : start ≤ j ∧ j < start + k
    · rw [if_pos hold, if_pos (by omega), List.getElem?_take, List.getElem?_take,
        if_pos (by omega), if_pos (by omega)]
    · rw [if_neg hold, if_neg (by omega)]

lemma writeRound_drop {wanted k : ℕ} : writeRound vol wanted input k =
    Sum.map (k + ·) (k + ·) <$> writeRound vol (wanted - k) (input.drop k) 0 := by
  unfold writeRound
  by_cases hle : wanted ≤ k
  · rw [if_pos hle, if_pos (by omega), map_pure]
    rfl
  · rw [if_neg hle, if_neg (by omega)]
    simp only [map_bind, map_pure, Nat.sub_zero, List.drop_zero, Nat.zero_add]
    rfl

lemma writeRound_take {wanted k : ℕ} :
    writeRound vol wanted input k = writeRound vol wanted (input.take wanted) k := by
  unfold writeRound
  refine ite_congr rfl (fun _ => rfl) fun _ => ?_
  dsimp only
  refine bind_congr fun p => bind_congr fun inSector => ?_
  have hchunk : (input.drop k).take (min inSector (wanted - k)) =
      ((input.take wanted).drop k).take (min inSector (wanted - k)) := by
    rw [List.drop_take, List.take_take, min_eq_left (Nat.min_le_right _ _)]
  rw [hchunk]

variable (hs : Base vol bm s) (hr : ¬ Faulty s)
  (hfile : Streams vol.geometry s.device.sectors file n)
  (hcs : (extent vol.geometry s.device.sectors file.firstCluster file.noFatChain n).Nodup)
  (hapart : ∀ i < n, nthCluster vol.geometry s.device.sectors file.firstCluster
    file.noFatChain i ∉ bm)

include hs hr hfile hcs hapart

omit hr hapart in
lemma Overwritten.chunk {k k' : ℕ} {u : Machine × File} (hlt : k < k') (hle : k' ≤ input.length)
    (hpos : start + k < n * clusterSize vol.geometry)
    (hin : (start + k) % vol.geometry.bytesPerSector + (k' - k) ≤ vol.geometry.bytesPerSector)
    (ht : Overwritten vol bm s file n start (input.take k) t)
    (hu : WritesAt vol bm s file n (start + k') u) (hfree : u.1.freeClusters = t.1.freeClusters)
    (hput : u.1.device.sectors = putAt vol.geometry t.1.device.sectors
      (extent vol.geometry s.device.sectors file.firstCluster file.noFatChain n) (start + k)
      ((input.drop k).take (k' - k))) :
    Overwritten vol bm s file n start (input.take k') u := by
  have hsound := hs.ready.sound
  have hcluster : 0 < clusterSize vol.geometry := hsound.clusterBytes_pos
  have hlen : (input.take k).length = k := List.length_take_of_le (by omega)
  have hlen' : (input.take k').length = k' := List.length_take_of_le hle
  set cs := extent vol.geometry s.device.sectors file.firstCluster file.noFatChain n with hcsEq
  have hchunk : ((input.drop k).take (k' - k)).length = k' - k := by
    rw [List.length_take, List.length_drop]
    omega
  have hindex : (start + k) / clusterSize vol.geometry < n := by
    rw [Nat.div_lt_iff_lt_mul hcluster]
    exact hpos
  have hmod : (streamPos vol.geometry cs (start + k)).2 =
      (start + k) % vol.geometry.bytesPerSector := Nat.mod_mul_right_mod _ _ _
  have hsector : (streamPos vol.geometry cs (start + k)).2 + ((input.drop k).take (k' - k)).length ≤
      vol.geometry.bytesPerSector := by rwa [hmod, hchunk]
  have hwithin : (start + k) % clusterSize vol.geometry + ((input.drop k).take (k' - k)).length ≤
      clusterSize vol.geometry := by
    have hlt := Nat.mod_lt (start + k) hcluster
    have h := @sector_end_le 1 _ _ _ ((input.drop k).take (k' - k)).length hsound
      (by rwa [Nat.one_mul]) hsector
    rwa [Nat.one_mul] at h
  have hheap : ∀ c ∈ cs, vol.geometry.InHeap c := by
    intro c hc
    obtain ⟨i, hi, rfl⟩ := mem_extent.mp hc
    exact hfile.heap i hi
  constructor
  · rwa [hlen']
  · exact hfree.trans ht.free
  · intro j hj
    have hbytes := ht.bytes j hj
    rw [hlen] at hbytes
    rw [hput, putAt, streamByte_put hsound hheap hcs hsector hwithin (by rwa [extent_length])
      (by rwa [extent_length]), hchunk, hlen', hbytes]
    exact getD_chunk hlt
  · intro lba hlba
    rw [hput, putAt, put_of_ne, ht.frame lba hlba]
    rintro rfl
    have hat := streamPos_inCluster hsound cs (start + k)
    rw [extent_getD hindex] at hat
    exact hlba _ hindex hat

omit hr hcs hapart in
lemma writeRound_wrote {k : ℕ} (hk : k < input.length)
    (hpos : start + k < n * clusterSize vol.geometry)
    (ht : WritesAt vol bm s file n (start + k) t) :
    wp (writeRound vol input.length input k)
      (Sum.elim (fun _ _ => True) fun k' u =>
        k' = k + inSector vol.geometry (start + k) (input.length - k) ∧
        Wrote t.1 u.1 (putAt vol.geometry t.1.device.sectors
          (extent vol.geometry s.device.sectors file.firstCluster file.noFatChain n) (start + k)
          ((input.drop k).take (k' - k))))
      (fun _ _ => True) t := by
  obtain ⟨hstreams, -⟩ := ht.streams hfile
  have hfirst : t.2.firstCluster = file.firstCluster := by rw [ht.handle]
  have hfat : t.2.noFatChain = file.noFatChain := by rw [ht.handle]
  have hpos' : t.2.position = start + k := by rw [ht.handle]
  have hclusters : extent vol.geometry t.1.device.sectors t.2.firstCluster t.2.noFatChain n =
      extent vol.geometry s.device.sectors file.firstCluster file.noFatChain n := by
    rw [hfirst, hfat]
    exact List.map_congr_left fun i hi => ht.nth_eq hfile (List.mem_range.mp hi).le
  have hhere := (standsIn_of_streams hs.ready.sound hstreams (by rwa [hpos'])).streamPos_eq
  rw [hclusters, hpos'] at hhere
  rw [writeRound_drop, wp_map]
  refine wp_mono _ (@writeRound_first vol t.1 t.2 (input.drop k) (input.length - k)
    ht.relinked.base.ready (by omega) (by rw [List.length_drop])) ?_ fun _ _ _ => trivial
  rintro (k' | k') u hu
  · trivial
  obtain ⟨-, hk', -, hwrote, -⟩ := hu
  rw [hpos'] at hk'
  refine ⟨congrArg (k + ·) hk', ?_⟩
  rw [putAt, hhere]
  change Wrote t.1 u.1 (firstWritten _ t.1.device.sectors t.2 (k + k' - k) _)
  rwa [Nat.add_sub_cancel_left]

lemma writeRound_puts {k : ℕ} (hk : k < input.length)
    (hpos : start + k < n * clusterSize vol.geometry)
    (ht : Overwritten vol bm s file n start (input.take k) t) :
    wp (writeRound vol input.length input k)
      (Sum.elim (fun _ _ => False) fun k' u => k < k' ∧ k' ≤ input.length ∧
        start + k' ≤ n * clusterSize vol.geometry ∧
        Overwritten vol bm s file n start (input.take k') u)
      (fun _ _ => False) t := by
  have hsize := hs.ready.sound.size_ge
  have hwrites := ht.writes
  rw [List.length_take_of_le hk.le] at hwrites
  refine wp_mono _ (wp_and _ (writeRound_at hs hr hfile hapart hk hpos hwrites)
    (writeRound_wrote hs hfile hk hpos hwrites)) ?_ fun _ _ h => h.1
  rintro (k' | k') u ⟨hu, hput⟩
  · exact hu
  obtain ⟨hlt, hle, hroom, hu⟩ := hu
  obtain ⟨hk', hwrote⟩ := hput
  have hmod := Nat.mod_lt (start + k) (show 0 < vol.geometry.bytesPerSector by omega)
  have hin : (start + k) % vol.geometry.bytesPerSector + (k' - k) ≤
      vol.geometry.bytesPerSector := by
    unfold inSector at hk'
    omega
  exact ⟨hlt, hle, hroom, ht.chunk hs hfile hcs hlt hle hpos hin hu hwrote.free hwrote.sectors⟩

lemma writeLoop_puts (hpos : file.position + input.length ≤ n * clusterSize vol.geometry) :
    wp (loop (fun _ done => writeRound vol input.length input done) 0 (input.length + 1) 0)
      (fun r u => r = .inl input.length ∧ Overwritten vol bm s file n file.position input u)
      (fun _ _ => False) (s, file) := by
  refine wp_loop_post (fun i k t => i ≤ k ∧ k ≤ input.length ∧
    Overwritten vol bm s file n file.position (input.take k) t) ?_ ?_ ?_
  · exact ⟨le_rfl, Nat.zero_le _, Overwritten.refl hs hfile⟩
  · rintro i k t - - ⟨hik, hk, ht⟩
    by_cases hdone : k = input.length
    · subst hdone
      rw [List.take_length] at ht
      unfold writeRound
      rw [wp_ite]
      exact ⟨fun _ => ⟨rfl, ht⟩, fun hmore => absurd le_rfl hmore⟩
    · refine wp_mono _ (writeRound_puts hs hr hfile hcs hapart (by omega) (by omega) ht) ?_
        fun _ _ h => h
      rintro (k' | k') u hu
      · exact hu.elim
      · obtain ⟨hlt, hle, -, hu⟩ := hu
        exact ⟨by omega, hle, hu⟩
  · rintro k t ⟨hik, hk, -⟩
    omega

/-- **`write` puts the bytes which its range holds into the stream**, and nothing else. -/
theorem write_overwrites (hroom : file.validLength ≤ n * clusterSize vol.geometry) :
    wp (write vol input)
      (fun k u => k = min input.length (file.validLength - file.position) ∧
        Overwritten vol bm s file n file.position (input.take k) u)
      (fun _ _ => False) (s, file) := by
  unfold write
  simp only [wp_bind, wp_getSnd]
  rw [wp_ite]
  refine ⟨fun hnone => ?_, fun hsome => ?_⟩
  · have hz : min input.length (file.validLength - file.position) = 0 := by
      rcases hnone with hle | rfl
      · omega
      · exact Nat.zero_min _
    rw [hz]
    exact ⟨rfl, Overwritten.refl hs hfile⟩
  rw [not_or] at hsome
  simp only [wp_bind, wp_sub]
  refine ⟨by omega, ?_⟩
  set wanted := min input.length (file.validLength - file.position) with hwanted
  have hlen : (input.take wanted).length = wanted := List.length_take_of_le (by omega)
  have hloop : loop (fun _ done => writeRound vol wanted input done) 0 (wanted + 1) 0 =
      loop (fun _ done => writeRound vol (input.take wanted).length (input.take wanted) done) 0
        ((input.take wanted).length + 1) 0 := by
    rw [hlen]
    congr 1
    funext _ k
    exact writeRound_take
  have hfill := @writeLoop_puts vol bm s file n (input.take wanted) hs hr hfile hcs hapart
    (by omega)
  rw [← hloop, hlen] at hfill
  refine wp_mono _ hfill ?_ fun _ _ h => h
  rintro _ u ⟨rfl, hu⟩
  exact ⟨rfl, hu⟩

end Write

/-! ### Reading -/

/-- **`read` returns the bytes of its range** and moves the handle behind them. -/
theorem read_moves {vol : Volume} {s : Machine} {file : File} {n : ℕ} (hs : Ready vol.geometry s)
    (hr : Healthy s) (hfile : Streams vol.geometry s.device.sectors file n)
    (hroom : file.validLength ≤ n * clusterSize vol.geometry) (outLen : ℕ) :
    wp (FileIo.read vol outLen)
      (fun out u => out = streamBytes vol.geometry s.device.sectors (extent vol.geometry
        s.device.sectors file.firstCluster file.noFatChain n) file.position
          (min outLen (file.validLength - file.position)) ∧
        ReadsAt vol s file n (file.position + min outLen (file.validLength - file.position)) u)
      (fun _ _ => False) (s, file) := by
  have hsize := hs.sound.size_ge
  unfold FileIo.read
  simp only [wp_bind, wp_getSnd]
  rw [wp_ite]
  refine ⟨fun hnone => ?_, fun hsome => ?_⟩
  · have hz : min outLen (file.validLength - file.position) = 0 := by omega
    rw [hz]
    exact ⟨rfl, Quiet.refl _ _, rfl, hfile.cached⟩
  rw [not_or] at hsome
  simp only [wp_bind, wp_sub]
  refine ⟨by omega, ?_⟩
  set wanted := min outLen (file.validLength - file.position) with hwanted
  refine wp_loop_post (fun i out t => ∃ k, i ≤ k ∧ k ≤ wanted ∧
    out = streamBytes vol.geometry s.device.sectors (extent vol.geometry s.device.sectors
      file.firstCluster file.noFatChain n) file.position k ∧
    ReadsAt vol s file n (file.position + k) t) ?_ ?_ ?_
  · exact ⟨0, le_rfl, Nat.zero_le _, rfl, Quiet.refl _ _, rfl, hfile.cached⟩
  · rintro i out t - - ⟨k, hik, hk, rfl, ht⟩
    refine wp_mono _ (readRound_at hs hfile (by omega) hk ht) ?_
      fun _ _ h => Faulted.elim hr h.1
    rintro (out | out) u hu
    · exact ⟨hu.2.1, hu.2.2⟩
    · obtain ⟨k', hlt, hk', rfl, hu⟩ := hu
      have hmod := Nat.mod_lt (file.position + k) (show 0 < vol.geometry.bytesPerSector by omega)
      unfold inSector at hk'
      exact ⟨k', by omega, by omega, rfl, hu⟩
  · rintro out t ⟨k, hik, hk, -⟩
    omega

end ExfatEmbedded.Overwriting
