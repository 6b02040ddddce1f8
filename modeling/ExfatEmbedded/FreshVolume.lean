import ExfatEmbedded.FormatRuns

/-!
The volume behind a formatting: which clusters are in use, how much space is free, and that the
root directory has no entries.
-/

namespace ExfatEmbedded.FreshVolume

open ExfatEmbedded.Library Exec ExfatEmbedded.Core ExfatEmbedded.Entry ExfatEmbedded.Allocation
open ExfatEmbedded.Lookup ExfatEmbedded.Mount ExfatEmbedded.Format ExfatEmbedded.FormatMedia
open ExfatEmbedded.Formatted ExfatEmbedded.FormatMount ExfatEmbedded.Reading ExfatEmbedded.Scan
open ExfatEmbedded.MountSafety ExfatEmbedded.Listing ExfatEmbedded.Media ExfatEmbedded.Writing
open ExfatEmbedded.Tree ExfatEmbedded.FreeSpace ExfatEmbedded.FormatRuns

variable {sectors fat heap clusters : ℕ} {d : Sectors}

/-! ### The bitmap -/

lemma reservedByte_testBit {reserved j k : ℕ} (hk : k < 8) :
    (reservedByte reserved j).toNat.testBit k = decide (8 * j + k < reserved) := by
  unfold reservedByte
  have hpow : 2 ^ min 8 (reserved - 8 * j) ≤ 2 ^ 8 :=
    Nat.pow_le_pow_right Nat.two_pos (Nat.min_le_left _ _)
  rw [UInt8.toNat_ofNat', Nat.mod_eq_of_lt (by omega), Nat.testBit_two_pow_sub_one]
  exact decide_eq_decide.mpr (by omega)

section Fresh

variable (h : Planned sectors fat heap clusters)
  (hd : Fresh (formatGeometry sectors fat heap clusters) d)

include h hd

lemma bitmapClusters_fresh :
    bitmapClusters (formatVolume (formatGeometry sectors fat heap clusters)) d =
      List.range' 3 (bitmapLen (formatGeometry sectors fat heap clusters)) :=
  (chained_bitmap h hd).extent

lemma upcaseClusters_fresh :
    upcaseClusters (formatVolume (formatGeometry sectors fat heap clusters)) d =
      List.range' (upcaseFirst (formatGeometry sectors fat heap clusters))
        (upcaseLen (formatGeometry sectors fat heap clusters)) :=
  (chained_upcase h hd).extent

lemma streamByte_fresh {j : ℕ} (hj : j < bitmapBytes (formatGeometry sectors fat heap clusters)) :
    streamByte (formatGeometry sectors fat heap clusters) d
      (List.range' 3 (bitmapLen (formatGeometry sectors fat heap clusters))) j =
        reservedByte (reserved (formatGeometry sectors fat heap clusters)) j := by
  have hs := sound_formatGeometry h
  have hbitmap := hd.bitmap
  have hle := clustersFor_le hs (bitmapBytes (formatGeometry sectors fat heap clusters))
  set g := formatGeometry sectors fat heap clusters with hg
  have hpos := hs.clusterBytes_pos
  have hspc := hs.spc_pos
  change 0 < clusterSize g at hpos
  have hindex : j / clusterSize g < bitmapLen g :=
    (Nat.div_lt_iff_lt_mul hpos).mpr (hj.trans_le hle)
  have hsize : clusterSize g = 512 * g.sectorsPerCluster := rfl
  have hsplit : j / clusterSize g * g.sectorsPerCluster + j % clusterSize g / 512 = j / 512 := by
    rw [hsize, Nat.mod_mul_right_div_self, ← Nat.div_div_eq_div_mul, Nat.mul_comm]
    exact Nat.div_add_mod _ _
  have hwithin : j % clusterSize g % 512 = j % 512 := by
    rw [hsize]
    exact Nat.mod_mul_right_mod _ _ _
  unfold streamByte clusterByte
  rw [List.getD_eq_getElem _ _ (by rwa [List.length_range']), List.getElem_range', Nat.one_mul]
  have hlba : heapLba g (3 + j / clusterSize g) + j % clusterSize g / g.bytesPerSector =
      heapLba g 3 + j / 512 := by
    rw [← hsplit]
    change heapLba g (3 + j / clusterSize g) + j % clusterSize g / 512 = _
    unfold heapLba
    generalize j / clusterSize g = q
    rw [show 3 + q - 2 = 3 - 2 + q by omega, Nat.add_mul]
    omega
  rw [hlba]
  change d (heapLba g 3 + j / 512) (j % clusterSize g % 512) = _
  rw [hwithin, hbitmap (j / 512) (by omega) _ (Nat.mod_lt _ (by decide)), Nat.mul_comm,
    Nat.div_add_mod]

/-- **The clusters in use are those of the root directory, the bitmap and the UpCase table.** -/
theorem used_fresh {c : ℕ} (hc : Counted (formatGeometry sectors fat heap clusters) c) :
    used (formatGeometry sectors fat heap clusters)
      (bitmapClusters (formatVolume (formatGeometry sectors fat heap clusters)) d) d c =
        decide (c < 2 + reserved (formatGeometry sectors fat heap clusters)) := by
  obtain ⟨h2, hlt⟩ := hc
  have hbyte : (c - 2) / 8 < bitmapBytes (formatGeometry sectors fat heap clusters) := by
    unfold bitmapBytes
    omega
  rw [bitmapClusters_fresh h hd]
  unfold used
  rw [streamByte_fresh h hd hbyte, reservedByte_testBit (Nat.mod_lt _ (by decide))]
  exact decide_eq_decide.mpr (by omega)

/-- The free clusters are those behind the reserved ones. -/
theorem freeCount_fresh :
    freeCount (formatGeometry sectors fat heap clusters)
      (bitmapClusters (formatVolume (formatGeometry sectors fat heap clusters)) d) d =
        clusters - reserved (formatGeometry sectors fat heap clusters) := by
  have hroom := h.room
  have hused := fun (c : ℕ) (hc : Counted (formatGeometry sectors fat heap clusters) c) =>
    used_fresh h hd hc
  set g := formatGeometry sectors fat heap clusters with hg
  have hcount : g.clusterCount = reserved g + (clusters - reserved g) := by
    change clusters = _
    omega
  unfold freeCount
  rw [hcount, ← List.range'_append_1, List.countP_append]
  have hcounted {c : ℕ} (h2 : 2 ≤ c) (hlt : c < clusters + 2) : Counted g c := ⟨h2, hlt⟩
  have hlow : (List.range' 2 (reserved g)).countP (fun c => !used g
      (bitmapClusters (formatVolume g) d) d c) = 0 := by
    rw [List.countP_eq_zero]
    intro c hc
    obtain ⟨h2, hlt⟩ := List.mem_range'_1.mp hc
    rw [hused c (hcounted h2 (by omega)), decide_eq_true (by omega)]
    decide
  have hhigh : (List.range' (2 + reserved g) (clusters - reserved g)).countP (fun c => !used g
      (bitmapClusters (formatVolume g) d) d c) = clusters - reserved g := by
    refine Eq.trans (List.countP_eq_length.mpr fun c hc => ?_) List.length_range'
    obtain ⟨hge, hlt⟩ := List.mem_range'_1.mp hc
    rw [hused c (hcounted (by omega) (by omega)), decide_eq_false (by omega)]
    rfl
  rw [hlow, hhigh, Nat.zero_add]

lemma mapped_fresh : Mapped (formatVolume (formatGeometry sectors fat heap clusters))
    (bitmapClusters (formatVolume (formatGeometry sectors fat heap clusters)) d) d := by
  have hs := sound_formatGeometry h
  have hroom := h.room
  have hchain := chained_bitmap h hd
  have hcount := h.count
  rw [bitmapClusters_fresh h hd]
  unfold reserved at hroom
  refine ⟨fun i hi => ?_, fun c hc => ?_, ?_, ?_, ?_, List.nodup_range'⟩
  · rw [List.length_range'] at hi
    rw [List.getD_eq_getElem _ _ (by rwa [List.length_range']), List.getElem_range', Nat.one_mul]
    exact link_run hchain.next hi
  · obtain ⟨h3, hlt⟩ := List.mem_range'_1.mp hc
    refine hs.inHeap_iff.mpr ⟨by omega, ?_, by omega⟩
    change c < clusters + 2
    omega
  · rw [List.length_range']
    exact clustersFor_le hs _
  · change clusters ≤ (clusters + 7) / 8 * 8
    omega
  · rw [List.length_range']
    change _ ≤ clusters
    omega

end Fresh

/-! ### The root directory -/

section Root

variable {r s : Machine} {τ : Type} (visitor : DirectoryEntry → τ → Bool × τ) (t0 : τ)

/-- The buffer holds the first sector of the root directory. -/
def HoldsRoot (g : Geometry) (t : Machine) : Prop :=
  512 ≤ t.scratch.len ∧ ∀ i < 512, t.scratch.bytes i = rootSector g i

/-- The slots of the bitmap and of the UpCase table are no entries; the next one ends the
directory. -/
lemma readDirectorySlot_root (h : Planned sectors fat heap clusters) (lba : ℕ) {k : ℕ} (hk : k ≤ 2)
    (hs : HoldsRoot (formatGeometry sectors fat heap clusters) s) :
    wp (readDirectorySlot (formatVolume (formatGeometry sectors fat heap clusters)) visitor lba k)
      (fun o t => o = (if k = 2 then .inl () else .inr ()) ∧ t = ((s, EntrySet.new), t0))
      (fun _ _ => False) ((s, EntrySet.new), t0) := by
  have hslots := root_slots h
  obtain ⟨hlen, hbytes⟩ := hs
  set g := formatGeometry sectors fat heap clusters with hg
  generalize hm : rootSector g = m at hslots hbytes
  have hbyte : byteAt (Image.slice m (k * 32) 32) 0 = (m (k * 32)).toNat :=
    byteAt_slice (by decide)
  have hsize : (formatVolume g).geometry.bytesPerSector = 512 := rfl
  unfold readDirectorySlot
  simp only [wp_bind, wp_usize, wp_lift_lift, hsize]
  refine ⟨by omega, ?_⟩
  rw [wp_scratchSlice' hlen (show k * 32 + 32 ≤ 512 by omega),
    Image.slice_congr fun i _ hi => hbytes i (by omega), wp_ite, hbyte]
  -- an entry set is not under way, so that no slot but a primary entry is looked at
  have hpush (hne : (m (k * 32)).toNat ≠ 0x85) (loc : EntryLocator) :
      EntrySet.push (Image.slice m (k * 32) 32) loc EntrySet.new = (.ok none, EntrySet.new) := by
    unfold EntrySet.push
    rw [if_neg (by simp), hbyte, if_neg hne]
    rfl
  have hcases : k = 0 ∨ k = 1 ∨ k = 2 := by omega
  rcases hcases with rfl | rfl | rfl
  · have hvalue : (m (0 * 32)).toNat = 0x81 := by rw [Nat.zero_mul, hslots.bitmap.1]; rfl
    refine ⟨fun hz => by omega, fun _ => ?_⟩
    simp only [wp_bind, wp_lift, wp_onSnd]
    exact (wp_ok (hpush (by omega) _)).mpr ⟨rfl, rfl⟩
  · have hvalue : (m (1 * 32)).toNat = 0x82 := by rw [Nat.one_mul, hslots.upcase]; rfl
    refine ⟨fun hz => by omega, fun _ => ?_⟩
    simp only [wp_bind, wp_lift, wp_onSnd]
    exact (wp_ok (hpush (by omega) _)).mpr ⟨rfl, rfl⟩
  · have hvalue : (m (2 * 32)).toNat = 0 := by rw [hslots.stop]; rfl
    exact ⟨fun _ => ⟨rfl, rfl⟩, fun hz => absurd hvalue hz⟩

lemma readDirectorySector_root (ho : Opened sectors fat heap clusters r) (hs : Still r s) (left : ℕ)
    (dir : Directory) (hdir : dir.dataLength = 0) :
    wp (readDirectorySector (formatVolume (formatGeometry sectors fat heap clusters)) visitor dir
        (heapLba (formatGeometry sectors fat heap clusters) 2) 0 left)
      (fun o t => o = .inl () ∧ Still r t.1.1 ∧ t.2 = t0) (fun _ _ => False)
      ((s, EntrySet.new), t0) := by
  have hroot := ho.fresh.root
  have hsound := sound_formatGeometry ho.planned
  have hin := hsound.lt_of_inPartition (hsound.heap_sector hsound.root (i := 0) hsound.spc_pos)
  have hslot := fun (m : Machine) (k : ℕ) (hk : k ≤ 2)
    (hm : HoldsRoot (formatGeometry sectors fat heap clusters) m) =>
    readDirectorySlot_root visitor t0 ho.planned
      (heapLba (formatGeometry sectors fat heap clusters) 2 + 0) hk hm
  set g := formatGeometry sectors fat heap clusters with hg
  change heapLba g 2 + 0 < _ ∧ heapLba g 2 + 0 < _ at hin
  unfold readDirectorySector usableBytes
  simp only [wp_bind, wp_ite, wp_u64, wp_lift_lift, hdir, ne_eq, not_true_eq_false, false_and,
    false_implies, not_false_eq_true, true_implies, true_and, if_true]
  refine ⟨hin.2, wp_mono _ (readSector_opened ho hs hin.1) ?_ fun _ _ h => h⟩
  rintro _ t ⟨ht, hbytes⟩
  have hlen := ht.scratchLen
  have hscratch := ho.scratch
  have hholds : HoldsRoot g t := ⟨by omega, fun i hi => (hbytes i hi).trans (hroot i hi)⟩
  have hsize : (formatVolume g).geometry.bytesPerSector / 32 = 13 + 3 := by
    simp [formatVolume, hg, formatGeometry]
  rw [hsize, loop_succ, wp_bind]
  refine wp_mono _ (hslot t 0 (by decide) hholds) ?_ fun _ _ h => h.elim
  rintro _ _ ⟨rfl, rfl⟩
  rw [if_neg (by decide)]
  simp only
  rw [loop_succ, wp_bind]
  refine wp_mono _ (hslot t 1 (by decide) hholds) ?_ fun _ _ h => h.elim
  rintro _ _ ⟨rfl, rfl⟩
  rw [if_neg (by decide)]
  simp only
  rw [loop_succ, wp_bind]
  refine wp_mono _ (hslot t 2 (by decide) hholds) ?_ fun _ _ h => h.elim
  rintro _ _ ⟨rfl, rfl⟩
  exact ⟨rfl, ht, rfl⟩

/-- **The root directory has no entries**: no visitor is called. -/
theorem readRoot_opened (ho : Opened sectors fat heap clusters r) (hs : Still r s) :
    wp (readRoot (formatVolume (formatGeometry sectors fat heap clusters)) visitor)
      (fun _ t => t.2 = t0) (fun _ _ => False) (s, t0) := by
  have hsound := sound_formatGeometry ho.planned
  have hroot : (formatGeometry sectors fat heap clusters).InHeap 2 := hsound.root
  have hsector := fun left dir hdir =>
    readDirectorySector_root visitor t0 ho hs left dir hdir
  have hlen := hs.scratchLen
  have hscratch := ho.scratch
  obtain ⟨n, hn⟩ := Nat.exists_eq_succ_of_ne_zero hsound.clusterCount.1.ne'
  obtain ⟨k, hk⟩ := Nat.exists_eq_succ_of_ne_zero hsound.spc_pos.ne'
  set g := formatGeometry sectors fat heap clusters with hg
  have hn' : (formatVolume g).geometry.clusterCount = n + 1 := hn
  have hk' : (formatVolume g).geometry.sectorsPerCluster = k + 1 := hk
  unfold readRoot
  rw [wp_readDirectory]
  unfold scanDirectory
  simp only [requireScratch, wp_bind, wp_lift_lift, wp_get, wp_when, wp_throw]
  refine ⟨fun hlt => ?_, fun _ => ?_⟩
  · change s.scratch.len < 512 at hlt
    omega
  rw [hn', loop_succ, wp_bind]
  unfold readDirectoryCluster
  simp only
  have hlba : (formatVolume g).geometry.clusterLba
    (Directory.root (formatVolume g).geometry).firstCluster =
      (pure (some (heapLba g 2)) : Exec ((Machine × EntrySet) × τ) Error (Option ℕ)) :=
    hsound.clusterLba_eq hroot
  rw [hlba, pure_bind, okOr_some, pure_bind, hk', wp_bind, loop_succ, wp_bind]
  refine wp_mono _ (hsector _ _ rfl) ?_ fun _ _ h => h
  rintro o t ⟨rfl, -, ht⟩
  exact ht

end Root

/-! ### Formatting and mounting -/

/-- A machine with the device of `s`. Its requests do not fail, the buffer holds a sector and
nothing is cached. -/
structure Reopened (s t : Machine) : Prop where
  sectorSize : t.device.sectorSize = s.device.sectorSize
  sectorCount : t.device.sectorCount = s.device.sectorCount
  sectors : t.device.sectors = s.device.sectors
  faultless : ¬ Faulty t
  scratch : 512 ≤ t.scratch.len
  fresh : t.freeClusters = none

/-- The formatter and the mounter agree on the volume: its geometry, the valid UpCase table, the
clusters in use, the space that is free, the chains of the system streams and the empty root
directory. -/
structure Agrees (g : Geometry) (t : Machine) : Prop where
  mounts : (mount t).1 = .ok (formatVolume g)
  used : ∀ c, Counted g c →
    (used g (bitmapClusters (formatVolume g) t.device.sectors) t.device.sectors c = true ↔
      c = g.rootCluster ∨ c ∈ bitmapClusters (formatVolume g) t.device.sectors ∨
        c ∈ upcaseClusters (formatVolume g) t.device.sectors)
  free : (freeSpaceBytes (formatVolume g) (mount t).2).1 =
    .ok ((g.clusterCount - reserved g) * clusterSize g)
  root : extent g t.device.sectors g.rootCluster false 1 = [2] ∧
    ChainEnds g t.device.sectors g.rootCluster false 1
  bitmap : bitmapClusters (formatVolume g) t.device.sectors = List.range' 3 (bitmapLen g) ∧
    ChainEnds g t.device.sectors 3 false (bitmapLen g)
  upcase : upcaseClusters (formatVolume g) t.device.sectors =
      List.range' (upcaseFirst g) (upcaseLen g) ∧
    ChainEnds g t.device.sectors (upcaseFirst g) false (upcaseLen g)
  list : ∀ {τ : Type} (visitor : DirectoryEntry → τ → Bool × τ) (t0 : τ), ∃ u,
    readRoot (formatVolume g) visitor ((mount t).2, t0) = (.ok (), (u, t0))

theorem agrees_opened {t : Machine} (ho : Opened sectors fat heap clusters t)
    (hfaultless : ¬ Faulty t) (hfresh : t.freeClusters = none) :
    Agrees (formatGeometry sectors fat heap clusters) t := by
  have h := ho.planned
  have hsound := sound_formatGeometry h
  obtain ⟨_, u, hmount, rfl, hu⟩ := exists_of_wp (mount_opened ho)
  have hbytes : bitmapBytes (formatGeometry sectors fat heap clusters) ≠ 0 := by
    have hcount : 0 < clusters := hsound.clusterCount.1
    change (clusters + 7) / 8 ≠ 0
    omega
  have hbitmap : 0 < bitmapLen (formatGeometry sectors fat heap clusters) :=
    clustersFor_pos hsound hbytes
  have hupcase : 0 < upcaseLen (formatGeometry sectors fat heap clusters) :=
    clustersFor_pos hsound (by decide)
  have hused : ∀ c, Counted (formatGeometry sectors fat heap clusters) c →
      (used (formatGeometry sectors fat heap clusters)
        (bitmapClusters (formatVolume (formatGeometry sectors fat heap clusters)) t.device.sectors)
        t.device.sectors c = true ↔
      c = 2 ∨
        c ∈ bitmapClusters (formatVolume (formatGeometry sectors fat heap clusters))
          t.device.sectors ∨
        c ∈ upcaseClusters (formatVolume (formatGeometry sectors fat heap clusters))
          t.device.sectors) := by
    intro c hc
    rw [used_fresh h ho.fresh hc, bitmapClusters_fresh h ho.fresh, upcaseClusters_fresh h ho.fresh,
      List.mem_range'_1, List.mem_range'_1, decide_eq_true_eq]
    have hlow := hc.1
    unfold reserved upcaseFirst
    omega
  have hbase : Base (formatVolume (formatGeometry sectors fat heap clusters))
      (bitmapClusters (formatVolume (formatGeometry sectors fat heap clusters)) t.device.sectors)
      u := by
    refine ⟨⟨?_, ?_⟩, ?_, fun c hc => ?_, fun n hn => ?_⟩
    · rw [hu.sectorCount, ho.sectorCount]
      exact hsound
    · rw [hu.scratchLen]
      exact ho.scratch
    · rw [hu.sectors]
      exact mapped_fresh h ho.fresh
    · have hmapped := mapped_fresh h ho.fresh
      rw [hu.sectors]
      exact (hused c (counted_of_inHeap hsound (hmapped.heap c hc))).mpr (Or.inr (Or.inl hc))
    · rw [hu.freeClusters, hfresh] at hn
      cases hn
  refine
    { mounts := by rw [hmount]
      used := hused
      free := ?_
      root := ⟨(chained_root h ho.fresh).extent, (chained_root h ho.fresh).ends (by decide)⟩
      bitmap := ⟨bitmapClusters_fresh h ho.fresh, (chained_bitmap h ho.fresh).ends hbitmap.ne'⟩
      upcase := ⟨upcaseClusters_fresh h ho.fresh, (chained_upcase h ho.fresh).ends hupcase.ne'⟩
      list := fun visitor t0 => ?_ }
  · rw [hmount]
    have hfaultless' : ¬ Faulty u := by
      unfold Faulty
      rw [hu.readFails, hu.writeFails]
      exact hfaultless
    obtain ⟨n, v, hrun, rfl, -⟩ := exists_of_wp (wp_mono _ (freeSpaceBytes_based hbase)
      (fun _ _ h => h) fun _ _ hfails => hfaultless' hfails.faulty)
    have hcount := freeCount_fresh h ho.fresh
    rw [← hu.sectors] at hcount
    change (freeSpaceBytes _ u).1 = _
    rw [hrun, ← hu.sectors]
    change Outcome.ok (freeCount (formatGeometry sectors fat heap clusters) _ _ * _) = _
    rw [hcount]
    rfl
  · rw [hmount]
    obtain ⟨_, v, hlist, hv⟩ := exists_of_wp (readRoot_opened visitor t0 ho hu)
    exact ⟨v.1, by rw [hlist, ← hv]⟩

/-- **The formatter and the mounter agree on the whole format.** After a formatting, whatever was on
the device before, the device is mounted with the layout which the formatter computed. -/
theorem formatExfat_mounts (s : Machine) (hformat : (formatExfat s).1 = .ok ()) :
    ∃ fat heap clusters,
      (layout (s.device.sectorCount - 1) (clusterSectors (s.device.sectorCount - 1)) s).1 =
          .ok (fat, heap, clusters) ∧
        ∀ t, Reopened (formatExfat s).2 t →
          Agrees (formatGeometry (s.device.sectorCount - 1) fat heap clusters) t := by
  obtain ⟨fat, heap, clusters, hlayout, hsize, hplanned, hformats⟩ :=
    formatExfat_lays _ _ (run_eq hformat)
  refine ⟨fat, heap, clusters, hlayout, fun t ht => ?_⟩
  have hlarge := hplanned.small
  refine agrees_opened ⟨hplanned, ?_, ?_, ?_, healthy_of_faultless ht.faultless, ht.scratch⟩
    ht.faultless ht.fresh
  · rw [ht.sectors, hformats.sectors]
    exact fresh_formatMedia hplanned _
  · rw [ht.sectorSize, hformats.sectorSize, hsize]
  · rw [ht.sectorCount, hformats.sectorCount]
    omega

/-! ### A small device -/

/-- A device of 600 sectors with arbitrary contents. -/
def usedMachine : Machine where
  device := { sectorSize := 512, sectorCount := 600, sectors := fun _ _ => 0xff }
  scratch := ⟨512, fun _ => 0⟩

/-- The device is formatted, and mounted with clusters of one sector. -/
theorem formatExfat_mounts_small : (formatExfat usedMachine).1 = .ok () ∧
    ∃ fat heap clusters,
      (layout 599 (clusterSectors 599) usedMachine).1 = .ok (fat, heap, clusters) ∧
        ∀ t, Reopened (formatExfat usedMachine).2 t →
          Agrees (formatGeometry 599 fat heap clusters) t :=
  have hformat : (formatExfat usedMachine).1 = .ok () :=
    formatExfat_succeeds ⟨rfl, by decide, by decide⟩ le_rfl (fun _ => rfl)
      (show FatLength.Settles 599 by decide) (show Emission.WholeSectors 512 by decide)
  ⟨hformat, formatExfat_mounts usedMachine hformat⟩

end ExfatEmbedded.FreshVolume
