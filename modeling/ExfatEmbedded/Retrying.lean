import ExfatEmbedded.Truncating

/-!
When a transfer that failed can be made again: what `read` and `write` leave of the position of
the handle.
-/

namespace ExfatEmbedded.Retrying

open ExfatEmbedded.Library Exec ExfatEmbedded.Core ExfatEmbedded.Entry ExfatEmbedded.Allocation
open ExfatEmbedded.FileIo ExfatEmbedded.Reading ExfatEmbedded.ReadSafety ExfatEmbedded.Listing
open ExfatEmbedded.FatWrites ExfatEmbedded.Media ExfatEmbedded.Writing ExfatEmbedded.Tree
open ExfatEmbedded.FreeSpace ExfatEmbedded.Readback ExfatEmbedded.Mount ExfatEmbedded.Layout
open ExfatEmbedded.Removal ExfatEmbedded.Truncating

/-- The machine with these faults to come. -/
def withFaults (readFails writeFails : ℕ → Bool) (s : Machine) : Machine :=
  { s with device := { s.device with readFails := readFails, writeFails := writeFails } }

/-- The machine when its device has recovered. -/
def recovered (s : Machine) : Machine := withFaults (fun _ => false) (fun _ => false) s

lemma healthy_recovered (s : Machine) : Healthy (recovered s) := fun _ => rfl

/-- What `len` bytes at the position of the handle come to lies in one sector. -/
def OneSector (g : Geometry) (file : File) (len : ℕ) : Prop :=
  file.position % g.bytesPerSector + min len (file.validLength - file.position) ≤ g.bytesPerSector

instance (g : Geometry) (file : File) (len : ℕ) : Decidable (OneSector g file len) :=
  inferInstanceAs (Decidable (_ ≤ _))

/-! ### The cluster of the position -/

/-- The cluster of the position of a handle, which `fileClusterAt` counts from the cached cluster
or from the first. -/
def clusterHere (g : Geometry) (d : Sectors) (file : File) : ℕ :=
  let i := file.position / clusterSize g
  if file.noFatChain then file.firstCluster + i
  else link g d (file.walkStart i).2 (i - (file.walkStart i).1)

/-- No chain error lies between a handle and the cluster of its position. -/
def Arrives (g : Geometry) (d : Sectors) (file : File) : Prop :=
  let i := file.position / clusterSize g
  i < g.clusterCount ∧ if file.noFatChain then g.InHeap (file.firstCluster + i)
    else Linked g d (file.walkStart i).2 (i - (file.walkStart i).1)

instance (g : Geometry) (d : Sectors) (file : File) : Decidable (Arrives g d file) := by
  unfold Arrives Linked
  infer_instance

/-- The sector and the offset in it of the position of a handle. -/
def posHere (g : Geometry) (d : Sectors) (file : File) : ℕ × ℕ :=
  (heapLba g (clusterHere g d file) + file.position % clusterSize g / g.bytesPerSector,
    file.position % clusterSize g % g.bytesPerSector)

/-- The clusters `cs` have, where the position of the handle lies, the cluster the handle finds. -/
def StandsIn (g : Geometry) (d : Sectors) (file : File) (cs : List ℕ) : Prop :=
  cs.getD (file.position / clusterSize g) 0 = clusterHere g d file

/-- `file'` is `file`, but that it may have cached the cluster of its position. -/
def Sought (g : Geometry) (d : Sectors) (file file' : File) : Prop :=
  file' = file ∨ Arrives g d file ∧ file.noFatChain = false ∧ file' = { file with
    cachedClusterIndex := some (file.position / clusterSize g)
    cachedCluster := clusterHere g d file }

section Handle

variable {g : Geometry} {d : Sectors} {file file' : File} {m n count : ℕ} {cs : List ℕ}

lemma StandsIn.streamPos_eq (h : StandsIn g d file cs) :
    streamPos g cs file.position = posHere g d file := by
  unfold streamPos posHere
  rw [h]

lemma Sought.position (h : Sought g d file file') : file'.position = file.position := by
  rcases h with rfl | ⟨-, -, rfl⟩ <;> rfl

lemma Sought.validLength (h : Sought g d file file') : file'.validLength = file.validLength := by
  rcases h with rfl | ⟨-, -, rfl⟩ <;> rfl

lemma Arrives.heap (h : Arrives g d file) : g.InHeap (clusterHere g d file) := by
  obtain ⟨-, hwalk⟩ := h
  unfold clusterHere
  dsimp only at hwalk ⊢
  split_ifs at hwalk ⊢ with hfat
  · exact hwalk
  · exact hwalk _ le_rfl

lemma walkStart_cached {i c : ℕ} :
    File.walkStart { file with cachedClusterIndex := some i, cachedCluster := c } i = (i, c) := by
  unfold File.walkStart
  exact if_pos le_rfl

lemma Sought.clusterHere_eq (h : Sought g d file file') :
    clusterHere g d file' = clusterHere g d file := by
  rcases h with rfl | ⟨-, hfat, rfl⟩
  · rfl
  · conv_lhs => unfold clusterHere
    dsimp only
    rw [walkStart_cached, Nat.sub_self, link_zero, if_neg (by simp [hfat])]
    rfl

lemma Sought.posHere_eq (h : Sought g d file file') : posHere g d file' = posHere g d file := by
  unfold posHere
  rw [h.clusterHere_eq, h.position]

lemma Sought.arrives (h : Sought g d file file') (harrives : Arrives g d file) :
    Arrives g d file' := by
  rcases h with rfl | ⟨-, hfat, rfl⟩
  · exact harrives
  · refine ⟨harrives.1, ?_⟩
    dsimp only
    rw [walkStart_cached, Nat.sub_self, if_neg (by simp [hfat])]
    intro i hi
    obtain rfl : i = 0 := by omega
    exact harrives.heap

lemma Arrives.bound (hs : Sound g m) (h : Arrives g d file)
    (hcount : file.position % g.bytesPerSector + count ≤ g.bytesPerSector) :
    file.position + count < 2 ^ 64 := by
  have hclusters := hs.clusterCount
  have hpos : file.position < g.clusterCount * clusterSize g :=
    (Nat.div_lt_iff_lt_mul hs.clusterBytes_pos).mp h.1
  calc file.position + count ≤ g.clusterCount * clusterSize g := sector_end_le hs hpos hcount
    _ ≤ 2 ^ 32 * 2 ^ 25 := Nat.mul_le_mul (by omega) hs.clusterBytes
    _ < 2 ^ 64 := by decide

lemma clusterHere_of_streams (h : Streams g d file n) : clusterHere g d file =
    nthCluster g d file.firstCluster file.noFatChain (file.position / clusterSize g) := by
  have hcached := h.cached
  unfold clusterHere nthCluster at *
  dsimp only
  split_ifs at hcached ⊢ with hfat
  · rfl
  · rw [walkStart_link rfl (fun i hi => (hcached i hi).2), ← link_add,
      Nat.add_sub_of_le (walkStart_le file _)]

lemma standsIn_of_streams (hs : Sound g m) (h : Streams g d file n)
    (hpos : file.position < n * clusterSize g) :
    StandsIn g d file (extent g d file.firstCluster file.noFatChain n) := by
  unfold StandsIn
  rw [clusterHere_of_streams h, extent_getD ((Nat.div_lt_iff_lt_mul hs.clusterBytes_pos).mpr hpos)]

lemma arrives_of_streams (hs : Sound g m) (h : Streams g d file n)
    (hpos : file.position < n * clusterSize g) : Arrives g d file := by
  have hindex : file.position / clusterSize g < n :=
    (Nat.div_lt_iff_lt_mul hs.clusterBytes_pos).mpr hpos
  have hheap := h.heap
  have hcached := h.cached
  refine ⟨hindex.trans_le h.short, ?_⟩
  unfold nthCluster at hheap hcached
  split_ifs at hheap hcached ⊢ with hfat
  · exact hheap _ hindex
  · intro j hj
    have hle := walkStart_le file (file.position / clusterSize g)
    rw [walkStart_link rfl (fun i hi => (hcached i hi).2), ← link_add]
    exact hheap _ (by omega)

end Handle

section Here

variable {vol : Volume} {s : Machine} {file : File} {outLen : ℕ} {cs : List ℕ}

lemma walkChain_linked {first start index count : ℕ} (hs : Ready vol.geometry s)
    (hstart : vol.geometry.InHeap start) (hshort : index + count < 2 ^ 32) :
    wp (walkChain vol first index count start)
      (fun v u => Linked vol.geometry s.device.sectors start count ∧
        v = link vol.geometry s.device.sectors start count ∧ Quiet vol.geometry.partition s u)
      (fun e u => (Linked vol.geometry s.device.sectors start count →
        Faulted vol.geometry.partition s e u) ∧ Quiet vol.geometry.partition s u) s := by
  unfold walkChain
  rw [wp_bind]
  refine wp_loop_post (fun i v u => Linked vol.geometry s.device.sectors start (i - index) ∧
    v = link vol.geometry s.device.sectors start (i - index) ∧
    Quiet vol.geometry.partition s u) ?_ ?_ ?_
  · rw [Nat.sub_self]
    refine ⟨fun i hi => ?_, rfl, Quiet.refl _ _⟩
    obtain rfl : i = 0 := by omega
    exact hstart
  · rintro i v u hge hi ⟨hlinked, rfl, hu⟩
    have hc := hlinked _ le_rfl
    have hlt := (hs.sound.inHeap_iff.mp hc).2.2
    rw [wp_bind]
    refine wp_mono _ (nextCluster_spec (hu.ready hs) hc) ?_ fun _ _ h =>
      ⟨fun _ => hu.faulted h, hu.trans h.1⟩
    rintro next w ⟨rfl, hw⟩
    have hq := hu.trans hw
    rw [hu.sectors, ← link_succ, show i - index + 1 = i + 1 - index by omega]
    have hstop {e : Error} (hbad : ¬ vol.geometry.InHeap
        (link vol.geometry s.device.sectors start (i + 1 - index))) :
        (Linked vol.geometry s.device.sectors start count →
          Faulted vol.geometry.partition s e w) ∧ Quiet vol.geometry.partition s w :=
      ⟨fun h => absurd (h _ (by omega)) hbad, hq⟩
    simp only [wp_bind, wp_u64, wp_ite, wp_pure, wp_throw, hs.sound.fatLbaForByte_eq hc, wp_okOr]
    refine ⟨by omega, fun hin => ⟨fun j hj => ?_, rfl, hq⟩, fun hbad =>
      ⟨by omega, fun _ _ => hstop hbad, fun _ => hstop hbad⟩⟩
    rcases Nat.lt_or_ge j (i + 1 - index) with hj' | hj'
    · exact hlinked j (by omega)
    · obtain rfl : j = i + 1 - index := by omega
      exact hin
  · rintro v u h
    rwa [Nat.add_sub_cancel_left] at h

/-- The cluster of the position is found unless a chain error lies before it or a request fails. -/
lemma fileClusterAt_here (hs : Ready vol.geometry s) :
    wp (fileClusterAt vol (file.position / clusterSize vol.geometry))
      (fun c u => Arrives vol.geometry s.device.sectors file ∧
        c = clusterHere vol.geometry s.device.sectors file ∧
        Quiet vol.geometry.partition s u.1 ∧ Sought vol.geometry s.device.sectors file u.2)
      (fun e u => (Arrives vol.geometry s.device.sectors file →
          Faulted vol.geometry.partition s e u.1) ∧
        Quiet vol.geometry.partition s u.1 ∧ u.2 = file) (s, file) := by
  have hcount := hs.sound.clusterCount
  set i := file.position / clusterSize vol.geometry with hi
  have hstop {e : Error} (h : ¬ Arrives vol.geometry s.device.sectors file) :
      (Arrives vol.geometry s.device.sectors file → Faulted vol.geometry.partition s e s) ∧
        Quiet vol.geometry.partition s s ∧ True :=
    ⟨fun harrives => absurd harrives h, Quiet.refl _ _, trivial⟩
  unfold fileClusterAt
  simp only [wp_bind, wp_getSnd]
  rw [wp_ite]
  refine ⟨fun hle => ⟨fun h => absurd h.1 (Nat.not_lt.mpr hle), Quiet.refl _ _, rfl⟩, fun hlt => ?_⟩
  rw [wp_ite]
  refine ⟨fun hfat => ?_, fun hfat => ?_⟩
  · have htry : tryU32 i = some i := if_pos (by omega)
    have hiff : Arrives vol.geometry s.device.sectors file ↔
        vol.geometry.InHeap (file.firstCluster + i) := by
      unfold Arrives
      dsimp only
      rw [if_pos hfat]
      exact and_iff_right (by omega)
    have hhere : clusterHere vol.geometry s.device.sectors file = file.firstCluster + i :=
      if_pos hfat
    rw [htry, okOr_some, pure_bind]
    simp only [wp_bind, wp_okOr, wp_ite, wp_pure, wp_throw]
    refine ⟨fun c hc => ?_, fun hnone => hstop fun h => ?_⟩
    · obtain rfl : c = file.firstCluster + i := by
        unfold checkedAdd32 at hc
        split_ifs at hc
        exact (Option.some.inj hc).symm
      exact ⟨fun hin => ⟨hiff.mpr hin, hhere.symm, Quiet.refl _ _, .inl rfl⟩,
        fun hbad => hstop fun h => hbad (hiff.mp h)⟩
    · have hlt := (hs.sound.inHeap_iff.mp (hiff.mp h)).2.2
      have hsome : checkedAdd32 file.firstCluster i = some (file.firstCluster + i) :=
        if_pos (by omega)
      rw [hsome] at hnone
      cases hnone
  · have hiff : Arrives vol.geometry s.device.sectors file ↔
        Linked vol.geometry s.device.sectors (file.walkStart i).2 (i - (file.walkStart i).1) := by
      unfold Arrives
      dsimp only
      rw [if_neg hfat]
      exact and_iff_right (by omega)
    have hhere : clusterHere vol.geometry s.device.sectors file =
        link vol.geometry s.device.sectors (file.walkStart i).2 (i - (file.walkStart i).1) :=
      if_neg hfat
    have hle := walkStart_le file i
    simp only [wp_ite, wp_throw, wp_bind, wp_lift, wp_modifySnd, wp_pure]
    refine ⟨fun hbad => hstop fun h => hbad (hiff.mp h 0 (Nat.zero_le _)), fun hstart => ?_⟩
    refine wp_mono _ (@walkChain_linked vol s file.firstCluster _ (file.walkStart i).1
      (i - (file.walkStart i).1) hs (not_not.mp hstart) (by omega)) ?_
      fun _ _ h => ⟨fun harrives => h.1 (hiff.mp harrives), h.2, trivial⟩
    rintro c u ⟨hlinked, rfl, hu⟩
    refine ⟨hiff.mpr hlinked, hhere.symm, hu, .inr ⟨hiff.mpr hlinked, by simpa using hfat, ?_⟩⟩
    rw [hhere]

lemma filePosition_here (hs : Ready vol.geometry s) :
    wp (filePosition vol)
      (fun p u => Arrives vol.geometry s.device.sectors file ∧
        p = posHere vol.geometry s.device.sectors file ∧ InPartition vol.geometry.partition p.1 ∧
        Quiet vol.geometry.partition s u.1 ∧ Sought vol.geometry s.device.sectors file u.2)
      (fun e u => (Arrives vol.geometry s.device.sectors file →
          Faulted vol.geometry.partition s e u.1) ∧
        Quiet vol.geometry.partition s u.1 ∧ u.2 = file) (s, file) := by
  have hcluster := hs.sound.clusterBytes_pos
  have hsize := hs.sound.size_ge
  unfold filePosition
  simp only [hs.sound.bytesPerCluster_eq, pure_bind, wp_bind, wp_getSnd, wp_div]
  refine ⟨by omega, wp_mono _ (fileClusterAt_here hs) ?_ fun _ _ h => h⟩
  rintro c u ⟨harrives, rfl, hu, hsought⟩
  have hc := harrives.heap
  simp only [wp_rem, hs.sound.clusterLba_eq hc, wp_pure, wp_okOr, wp_u64]
  refine ⟨by omega, fun base hbase => ?_, nofun⟩
  cases hbase
  have hwithin : file.position % (vol.geometry.bytesPerSector * vol.geometry.sectorsPerCluster) /
      vol.geometry.bytesPerSector < vol.geometry.sectorsPerCluster := by
    rw [Nat.div_lt_iff_lt_mul (by omega)]
    exact (Nat.mod_lt _ hcluster).trans_eq (Nat.mul_comm _ _)
  have hin := hs.sound.heap_sector hc hwithin
  exact ⟨by omega, (hs.sound.lt_of_inPartition hin).2, by omega, harrives, rfl, hin, hu, hsought⟩

lemma posHere_snd (g : Geometry) (d : Sectors) (file : File) :
    (posHere g d file).2 = file.position % g.bytesPerSector := Nat.mod_mul_right_mod _ _ _

end Here

section Read

variable {vol : Volume} {s : Machine} {file : File} {outLen : ℕ}

/-- A `read` that fails, under whatever faults, leaves the position, and made again it returns the
bytes from there on where no chain error lies before them. -/
def ReadRetries (vol : Volume) (s : Machine) (file : File) (outLen : ℕ) : Prop :=
  ∀ readFails writeFails e t,
    FileIo.read vol outLen (withFaults readFails writeFails s, file) = (.err e, t) →
    t.2.position = file.position ∧ (Arrives vol.geometry s.device.sectors file →
      ∀ cs, StandsIn vol.geometry s.device.sectors file cs →
        (FileIo.read vol outLen (recovered t.1, t.2)).1 =
          .ok (streamBytes vol.geometry s.device.sectors cs file.position
            (min outLen (file.validLength - file.position))))

lemma slice_posHere {g : Geometry} {d : Sectors} {cs : List ℕ} {m k : ℕ} (hs : Sound g m)
    (hcs : StandsIn g d file cs) (hk : file.position % g.bytesPerSector + k ≤ g.bytesPerSector) :
    Image.slice (d (posHere g d file).1) (posHere g d file).2 k =
      streamBytes g d cs file.position k := by
  rw [← hcs.streamPos_eq]
  refine slice_eq_streamBytes ?_ ?_
  · rwa [hcs.streamPos_eq, posHere_snd]
  · have hlt := Nat.mod_lt file.position (show 0 < clusterSize g from hs.clusterBytes_pos)
    have h := @sector_end_le 1 _ _ (file.position % clusterSize g) k hs (by rwa [Nat.one_mul])
      ((Nat.mod_mul_right_mod file.position g.bytesPerSector g.sectorsPerCluster).symm ▸ hk)
    rwa [Nat.one_mul] at h

lemma readRound_first {wanted : ℕ} (hs : Ready vol.geometry s) (hsome : 0 < wanted) :
    wp (readRound vol wanted [])
      (Sum.elim (fun _ _ => False) fun out u => Arrives vol.geometry s.device.sectors file ∧
        out = Image.slice (s.device.sectors (posHere vol.geometry s.device.sectors file).1)
          (posHere vol.geometry s.device.sectors file).2
          (inSector vol.geometry file.position wanted) ∧
        u.2.position = file.position + inSector vol.geometry file.position wanted ∧
        Quiet vol.geometry.partition s u.1)
      (fun e u => (Arrives vol.geometry s.device.sectors file →
          Faulted vol.geometry.partition s e u.1) ∧ Quiet vol.geometry.partition s u.1 ∧
        Sought vol.geometry s.device.sectors file u.2) (s, file) := by
  have hsize := hs.sound.size_ge
  unfold readRound
  rw [wp_ite]
  refine ⟨fun hle => absurd hle (Nat.not_le.mpr hsome), fun _ => ?_⟩
  simp only [wp_bind]
  refine wp_mono _ (filePosition_here hs) ?_ fun _ _ h => ⟨h.1, h.2.1, .inl h.2.2⟩
  rintro _ u ⟨harrives, rfl, hin, hu, hsought⟩
  simp only [wp_lift]
  refine wp_mono _ (readSector_spec (hu.ready hs) hin) ?_ fun _ _ h =>
    ⟨fun _ => hu.faulted h, hu.trans h.1, hsought⟩
  rintro _ v ⟨hv, hold⟩
  have hq := hu.trans hv
  have hmod := Nat.mod_lt file.position (show 0 < vol.geometry.bytesPerSector by omega)
  rw [← posHere_snd vol.geometry s.device.sectors] at hmod
  set pos := posHere vol.geometry s.device.sectors file with hpos
  simp only [wp_sub]
  refine ⟨hmod.le, ?_⟩
  have hcount : min (vol.geometry.bytesPerSector - pos.2) (wanted - 0) =
      inSector vol.geometry file.position wanted := by
    unfold inSector
    rw [Nat.sub_zero, hpos, posHere_snd]
  rw [List.length_nil, hcount]
  set count := inSector vol.geometry file.position wanted with hcountEq
  have hsector : pos.2 + count ≤ vol.geometry.bytesPerSector := by omega
  have hbound := harrives.bound hs.sound (by rwa [← posHere_snd vol.geometry s.device.sectors])
  rw [wp_scratchSlice (hq.ready hs) hsector, hold.slice hsector, hq.sectors]
  simp only [advance, wp_bind, wp_getSnd, wp_u64, wp_modifySnd, wp_pure, hsought.position]
  exact ⟨by omega, harrives, rfl, rfl, hq⟩

/-- A transfer of one sector, or one to which a chain error bars the way, fails where it started. -/
lemma read_settles (hs : Ready vol.geometry s) (h : OneSector vol.geometry file outLen ∨
    ¬ Arrives vol.geometry s.device.sectors file) :
    wp (FileIo.read vol outLen)
      (fun out _ => out = Image.slice
      (s.device.sectors (posHere vol.geometry s.device.sectors file).1)
        (posHere vol.geometry s.device.sectors file).2
        (min outLen (file.validLength - file.position)))
      (fun e u => (Arrives vol.geometry s.device.sectors file →
          Faulted vol.geometry.partition s e u.1) ∧ Quiet vol.geometry.partition s u.1 ∧
        Sought vol.geometry s.device.sectors file u.2) (s, file) := by
  unfold FileIo.read
  simp only [wp_bind, wp_getSnd]
  rw [wp_ite]
  refine ⟨fun hnone => ?_, fun hsome => ?_⟩
  · rw [show min outLen (file.validLength - file.position) = 0 by omega]
    rfl
  rw [not_or] at hsome
  simp only [wp_bind, wp_sub]
  refine ⟨by omega, ?_⟩
  unfold OneSector at h
  set wanted := min outLen (file.validLength - file.position) with hwanted
  rw [show wanted + 1 = wanted - 1 + 1 + 1 by omega, loop_succ, wp_bind]
  refine wp_mono _ (readRound_first hs (by omega)) ?_ fun _ _ h => h
  rintro (out | out) u hu
  · exact hu.elim
  obtain ⟨harrives, hout, -, -⟩ := hu
  have hone := h.resolve_right (not_not.mpr harrives)
  have hcount : inSector vol.geometry file.position wanted = wanted := by
    unfold inSector
    omega
  rw [hcount] at hout
  -- the round has transferred everything
  dsimp only
  rw [loop_succ, wp_bind, readRound, if_pos (by rw [hout, Image.slice_length])]
  exact hout

lemma readRetries_of (hs : Ready vol.geometry s) (h : OneSector vol.geometry file outLen ∨
    ¬ Arrives vol.geometry s.device.sectors file) : ReadRetries vol s file outLen := by
  intro readFails writeFails e t hrun
  obtain ⟨-, ht, hsought⟩ := (wp_err hrun).mp (@read_settles vol (withFaults readFails writeFails s)
    file outLen ⟨hs.sound, hs.scratch⟩ h)
  have hsectors : (recovered t.1).device.sectors = s.device.sectors := ht.sectors
  have hpos := hsought.position
  have hvalid := hsought.validLength
  refine ⟨hpos, fun harrives cs hcs => ?_⟩
  have hone := h.resolve_right (not_not.mpr harrives)
  have hone' : OneSector vol.geometry t.2 outLen := by
    unfold OneSector
    rwa [hpos, hvalid]
  have harrives' : Arrives vol.geometry (recovered t.1).device.sectors t.2 := by
    rw [hsectors]
    exact hsought.arrives harrives
  obtain ⟨out, u, hout, heq⟩ :=
    exists_of_wp (wp_mono _ (@read_settles vol (recovered t.1) t.2 outLen
    ⟨ht.sectorCount ▸ hs.sound, ht.scratchLen ▸ hs.scratch⟩ (.inl hone')) (fun _ _ h => h)
    fun _ _ h => Faulted.elim (healthy_recovered _) (h.1 harrives'))
  have hhere := hsought.posHere_eq
  change posHere vol.geometry s.device.sectors t.2 = posHere vol.geometry s.device.sectors
    file at hhere
  rw [hout, heq, hsectors, hhere, hpos, hvalid, slice_posHere hs.sound hcs hone]

lemma readRound_fails {t : Machine × File} {wanted : ℕ} {out : List UInt8}
    (hs : Ready vol.geometry t.1) (hmore : out.length < wanted)
    (hfails : ∀ k, t.1.device.reads.length ≤ k → t.1.device.readFails k = true) :
    wp (readRound vol wanted out) (fun _ _ => False) (fun _ u => u.2.position =
      t.2.position) t := by
  unfold readRound
  rw [wp_ite]
  refine ⟨fun hle => absurd hle (by omega), fun _ => ?_⟩
  simp only [wp_bind]
  refine wp_mono _ (@filePosition_safe vol t.1 hs t.2 t.2.position t ⟨Quiet.refl _ _, rfl, rfl⟩) ?_
    fun _ _ h => h.position
  rintro p u ⟨hu, -, -⟩
  have hsize := (hu.quiet.ready hs).scratch
  obtain ⟨l, hl, -⟩ := hu.quiet.reads
  have hfail : u.1.device.readFails u.1.device.reads.length = true := by
    rw [hu.quiet.readFails]
    refine hfails _ ?_
    rw [hl, List.length_append]
    omega
  simp only [wp_lift]
  unfold wp readSector
  simp only [Nat.not_lt.mpr hsize, if_false, hfail, if_true]
  exact hu.position

/-- The faults of which none is among the first `k` requests. -/
def failFrom (k : ℕ) : Machine → Machine := withFaults (fun j => decide (k ≤ j)) fun _ => false

/-- A part of `read` which makes fewer than `k` requests does not notice them. -/
def Early (k : ℕ) {α : Type} (m : FsM α) : Prop :=
  Blind (failFrom k) (fun s => s.device.reads.length) k m

/-- The same of the programs on a handle. -/
def EarlyFile (k : ℕ) {α : Type} (m : FileM α) : Prop :=
  Blind (fun s : Machine × File => (failFrom k s.1, s.2)) (fun s => s.1.device.reads.length) k m

lemma early_getSnd (k : ℕ) : EarlyFile k getSnd :=
  @blind_getSnd Machine File Error (failFrom k) (fun s => s.device.reads.length) k

lemma early_modifySnd (k : ℕ) (f : File → File) : EarlyFile k (modifySnd f) :=
  @blind_modifySnd Machine File Error (failFrom k) (fun s => s.device.reads.length) k f

lemma early_readSector (k size lba : ℕ) : Early k (readSector size lba) := by
  constructor
  · intro s
    unfold readSector
    split_ifs
    · exact le_rfl
    · exact Nat.le_succ _
    · exact Nat.le_succ _
    · exact Nat.le_succ _
  · intro s a t hrun ht
    unfold readSector at hrun ⊢
    simp only at hrun
    split_ifs at hrun with hlen hfail hout
    · cases hrun
    · cases hrun
    · cases hrun
    obtain ⟨-, rfl⟩ := Prod.mk.inj hrun
    have hlt : ¬ k ≤ s.device.reads.length := Nat.not_le.mpr ht
    have hgrant : (failFrom k s).device.readFails (failFrom k s).device.reads.length = false :=
      decide_eq_false hlt
    simp only [hgrant, Bool.false_eq_true, if_false]
    exact (if_neg hlen).trans (if_neg hout)

lemma early_scratchSlice (k size off m : ℕ) : Early k (scratchSlice size off m) := by
  have happly (s : Machine) : scratchSlice size off m s =
      if off + m ≤ size ∧ size ≤ s.scratch.len then (.ok (Image.slice s.scratch.bytes off m), s)
      else (.panic, s) := by
    unfold scratchSlice
    change (assert _ >>= fun _ => _) s = _
    rw [bind_apply, assert]
    split_ifs <;> rfl
  constructor
  · intro s
    rw [happly]
    split_ifs <;> exact le_rfl
  · intro s a t hrun _
    rw [happly] at hrun
    split_ifs at hrun with hok
    · obtain ⟨hval, rfl⟩ := Prod.mk.inj hrun
      rw [happly, ← hval]
      exact if_pos hok
    · cases hrun

lemma early_walkChain (k first index count cluster : ℕ) :
    Early k (walkChain vol first index count cluster) := by
  unfold walkChain
  refine Blind.bind (blind_loop (fun _ previous => ?_) _ _ _) fun r => ?_
  · refine Blind.bind ?_ fun _ => (stateless_checked _ _).blind.bind fun _ => ?_
    · unfold nextCluster
      refine (stateless_checked _ _).blind.bind fun _ => ?_
      refine (stateless_fatLbaForByte _ _).blind.bind fun _ => ?_
      refine (stateless_okOr _ _).blind.bind fun _ => (stateless_checked _ _).blind.bind fun _ => ?_
      exact (early_readSector k _ _).bind fun _ => (early_scratchSlice k _ _ _).bind fun _ =>
        (stateless_pure _).blind
    · refine Blind.ite (fun _ => (stateless_pure _).blind) fun _ => ?_
      refine (stateless_checked _ _).blind.bind fun _ => ?_
      refine (stateless_fatLbaForByte _ _).blind.bind fun _ => ?_
      exact (stateless_okOr _ _).blind.bind fun _ => (stateless_throw _).blind
  · rcases r with r | c
    · exact r.elim
    · exact (stateless_pure _).blind

lemma early_filePosition (k : ℕ) : EarlyFile k (filePosition vol) := by
  unfold filePosition
  refine (stateless_bytesPerCluster _).blind.bind fun _ => (early_getSnd k).bind fun _ => ?_
  refine (stateless_checked _ _).blind.bind fun _ => Blind.bind ?_ fun _ => ?_
  · unfold fileClusterAt
    refine (early_getSnd k).bind fun file => Blind.ite (fun _ => (stateless_throw _).blind)
      fun _ => ?_
    refine Blind.ite (fun _ => ?_) fun _ => ?_
    · refine (stateless_okOr _ _).blind.bind fun _ => (stateless_okOr _ _).blind.bind fun _ => ?_
      exact Blind.ite (fun _ => (stateless_pure _).blind) fun _ => (stateless_throw _).blind
    · refine Blind.ite (fun _ => (stateless_throw _).blind) fun _ => ?_
      exact (early_walkChain k _ _ _ _).lift.bind fun _ => (early_modifySnd k _).bind fun _ =>
        (stateless_pure _).blind
  · refine (stateless_checked _ _).blind.bind fun _ => (stateless_clusterLba _ _).blind.bind
      fun _ => ?_
    refine (stateless_okOr _ _).blind.bind fun _ => (stateless_checked _ _).blind.bind fun _ => ?_
    exact (stateless_checked _ _).blind.bind fun _ => (stateless_checked _ _).blind.bind fun _ =>
      (stateless_pure _).blind

lemma early_readRound (k wanted : ℕ) (out : List UInt8) :
    EarlyFile k (readRound vol wanted out) := by
  unfold readRound
  refine Blind.ite (fun _ => (stateless_pure _).blind) fun _ =>
    (early_filePosition k).bind fun p => ?_
  refine (early_readSector k _ _).lift.bind fun _ => (stateless_checked _ _).blind.bind fun _ => ?_
  refine (early_scratchSlice k _ _ _).lift.bind fun _ => Blind.bind ?_ fun _ =>
    (stateless_pure _).blind
  exact (early_getSnd k).bind fun _ => (stateless_checked _ _).blind.bind fun _ =>
    early_modifySnd k _

/-- A transfer of more than one sector cannot be made again: where the device fails behind the
first sector, the handle has moved. -/
lemma read_moves (hs : Ready vol.geometry s) (hone : ¬ OneSector vol.geometry file outLen)
    (harrives : Arrives vol.geometry s.device.sectors file) :
    ∃ k e t, FileIo.read vol outLen (failFrom k s, file) = (.err e, t) ∧
      t.2.position ≠ file.position := by
  have hsize := hs.sound.size_ge
  have hmod := Nat.mod_lt file.position (show 0 < vol.geometry.bytesPerSector by omega)
  unfold OneSector at hone
  set wanted := min outLen (file.validLength - file.position) with hwanted
  obtain ⟨r, u, hrun, hu⟩ := exists_of_wp (wp_mono _ (@readRound_first vol (recovered s) file wanted
    ⟨hs.sound, hs.scratch⟩ (by omega)) (fun _ _ h => h)
    fun _ _ h => Faulted.elim (healthy_recovered s) (h.1 harrives))
  rcases r with out | out
  · exact hu.elim
  obtain ⟨-, hout, hup, hquiet⟩ := hu
  have hlen : out.length = inSector vol.geometry file.position wanted := by
    rw [hout, Image.slice_length]
  set k' := inSector vol.geometry file.position wanted with hk'
  unfold inSector at hk'
  -- the first round does not notice that later requests are going to fail
  set k := u.1.device.reads.length with hk
  have hfirst := (early_readRound k wanted _).run hrun le_rfl
  have hsecond : wp (FileIo.read vol outLen) (fun _ _ => False)
      (fun _ v => v.2.position = file.position + k') (failFrom k s, file) := by
    unfold FileIo.read
    simp only [wp_bind, wp_getSnd]
    rw [wp_ite]
    refine ⟨fun hnone => absurd hnone (by omega), fun _ => ?_⟩
    simp only [wp_bind, wp_sub]
    refine ⟨by omega, ?_⟩
    rw [← hwanted, show wanted + 1 = wanted - 1 + 1 + 1 by omega, loop_succ, wp_bind]
    refine (wp_ok hfirst).mpr ?_
    dsimp only
    rw [loop_succ, wp_bind]
    refine wp_mono _ (@readRound_fails vol (failFrom k u.1, u.2) wanted out ?_ (by omega) ?_)
      (fun _ _ h => h.elim) fun _ _ h => h.trans hup
    · exact ⟨hquiet.sectorCount ▸ hs.sound, hquiet.scratchLen ▸ hs.scratch⟩
    · exact fun j hj => decide_eq_true hj
  obtain ⟨e, t, herr, ht⟩ := exists_err_of_wp hsecond
  exact ⟨k, e, t, herr, by omega⟩

end Read

section Write

variable {vol : Volume} {s : Machine} {file : File} {input : List UInt8}

/-- A `write` that fails, under whatever faults, leaves the position, and made again it leaves on
the media what one successful `write` would have, where no chain error lies before it. -/
def WriteRetries (vol : Volume) (s : Machine) (file : File) (input : List UInt8) : Prop :=
  ∀ readFails writeFails e t,
    FileIo.write vol input (withFaults readFails writeFails s, file) = (.err e, t) →
    t.2.position = file.position ∧ (Arrives vol.geometry s.device.sectors file →
      ∃ k u u', FileIo.write vol input (recovered t.1, t.2) = (.ok k, u) ∧
        FileIo.write vol input (recovered s, file) = (.ok k, u') ∧
        u.2.position = u'.2.position ∧ u.1.device.sectors = u'.1.device.sectors)

/-- A `write` failed at the position of `file`, and neither the media nor the position changed. -/
structure Stopped (vol : Volume) (s : Machine) (file : File) (t : Machine × File) : Prop where
  fault : Arrives vol.geometry s.device.sectors file →
    ¬ Healthy s ∨ s.device.writeFails s.device.writes.length = true
  wrote : Wrote s t.1 s.device.sectors
  sought : Sought vol.geometry s.device.sectors file t.2

/-- The media with the first `k` bytes of `input` put at the position of `file`. -/
def firstWritten (g : Geometry) (d : Sectors) (file : File) (k : ℕ) (input : List UInt8) :
    Sectors :=
  put d (posHere g d file).1 (posHere g d file).2 (input.take k)

lemma writeRound_first {wanted : ℕ} (hs : Ready vol.geometry s) (hsome : 0 < wanted)
    (hlen : wanted ≤ input.length) :
    wp (writeRound vol wanted input 0)
      (Sum.elim (fun _ _ => False) fun k u => Arrives vol.geometry s.device.sectors file ∧
        k = inSector vol.geometry file.position wanted ∧ u.2.position = file.position + k ∧
        Wrote s u.1 (firstWritten vol.geometry s.device.sectors file k input) ∧
        u.1.device.writes.length = s.device.writes.length + 1)
      (fun _ u => Stopped vol s file u) (s, file) := by
  have hsize := hs.sound.size_ge
  unfold writeRound
  rw [wp_ite]
  refine ⟨fun hle => absurd hle (by omega), fun _ => ?_⟩
  simp only [wp_bind]
  refine wp_mono _ (filePosition_here hs) ?_ fun _ _ h =>
    ⟨fun harrives => .inl fun hr => Faulted.elim hr (h.1 harrives), wrote_of_quiet h.2.1,
      .inl h.2.2⟩
  rintro _ u ⟨harrives, rfl, hin, hu, hsought⟩
  have hmod := Nat.mod_lt file.position (show 0 < vol.geometry.bytesPerSector by omega)
  rw [← posHere_snd vol.geometry s.device.sectors] at hmod
  unfold firstWritten
  set pos := posHere vol.geometry s.device.sectors file with hpos
  simp only [wp_sub, wp_when, wp_lift]
  refine ⟨hmod.le, ?_⟩
  have hcount : min (vol.geometry.bytesPerSector - pos.2) (wanted - 0) =
      inSector vol.geometry file.position wanted := by
    unfold inSector
    rw [Nat.sub_zero, hpos, posHere_snd]
  rw [hcount, List.drop_zero]
  set count := inSector vol.geometry file.position wanted with hcountEq
  have hle : pos.2 + count ≤ vol.geometry.bytesPerSector := by omega
  have hbound := harrives.bound hs.sound (by rwa [← posHere_snd vol.geometry s.device.sectors])
  have hlength : (input.take count).length = count := by
    rw [List.length_take]
    omega
  have hquiet := wrote_of_quiet hu
  have hpatch := @sectorPatch_wrote u.1 vol.geometry pos.1 pos.2 (input.take count)
    (fun _ v => wp (advance count) (fun _ w => wp (pure (Sum.inr (0 + count)) : FileM (ℕ ⊕ ℕ))
      (Sum.elim (fun _ _ => False) fun k w => Arrives vol.geometry s.device.sectors file ∧
        k = count ∧ w.2.position = file.position + k ∧
        Wrote s w.1 (put s.device.sectors pos.1 pos.2 (input.take k)) ∧
        w.1.device.writes.length = s.device.writes.length + 1)
      (fun _ w => Stopped vol s file w) w) (fun _ w => Stopped vol s file w) (v, u.2))
    (fun _ v => Stopped vol s file (v, u.2))
    (hu.ready hs) hin (by rw [hlength]; exact hle) ?_ ?_
  · rw [hlength] at hpatch
    exact hpatch
  · intro v hv hwrites
    simp only [advance, wp_bind, wp_getSnd, wp_u64, wp_modifySnd, wp_pure, hsought.position,
      Nat.zero_add]
    refine ⟨by omega, harrives, rfl, rfl, ?_, ?_⟩
    · rw [hquiet.sectors] at hv
      exact hquiet.trans hv
    · rw [hwrites.1, hu.writes]
  · intro e v hv hfault
    refine ⟨fun _ => ?_, hquiet.trans (hquiet.sectors ▸ hv.wrote), hsought⟩
    rw [hu.writeFails, hu.writes] at hfault
    refine hfault.imp_left fun hne hr => hne fun j => ?_
    rw [hu.readFails]
    exact hr j

lemma write_settles (hs : Ready vol.geometry s) (h : OneSector vol.geometry file input.length ∨
    ¬ Arrives vol.geometry s.device.sectors file) :
    wp (FileIo.write vol input)
      (fun k u => k = min input.length (file.validLength - file.position) ∧
        u.2.position = file.position + k ∧ u.1.device.sectors = if k = 0 then s.device.sectors else
          firstWritten vol.geometry s.device.sectors file k input)
      (fun _ u => Stopped vol s file u) (s, file) := by
  unfold FileIo.write
  simp only [wp_bind, wp_getSnd]
  rw [wp_ite]
  refine ⟨fun hnone => ?_, fun hsome => ?_⟩
  · have hz : min input.length (file.validLength - file.position) = 0 := by
      rcases hnone with hle | rfl
      · omega
      · exact Nat.zero_min _
    rw [hz]
    exact ⟨rfl, rfl, rfl⟩
  rw [not_or] at hsome
  have hlen := List.length_pos_of_ne_nil hsome.2
  simp only [wp_bind, wp_sub]
  refine ⟨by omega, ?_⟩
  unfold OneSector at h
  set wanted := min input.length (file.validLength - file.position) with hwanted
  rw [show wanted + 1 = wanted - 1 + 1 + 1 by omega, loop_succ, wp_bind]
  refine wp_mono _ (@writeRound_first vol s file input wanted hs (by omega) (by omega)) ?_
    fun _ _ h => h
  rintro (k | k) u hu
  · exact hu.elim
  obtain ⟨harrives, hk, hup, hwrote, -⟩ := hu
  have hone := h.resolve_right (not_not.mpr harrives)
  have hk : k = wanted := by
    unfold inSector at hk
    omega
  dsimp only
  rw [loop_succ, wp_bind, writeRound, if_pos hk.ge]
  refine ⟨hk, hup, ?_⟩
  rw [if_neg (by omega)]
  exact hwrote.sectors

lemma writeRetries_of (hs : Ready vol.geometry s) (h : OneSector vol.geometry file input.length ∨
    ¬ Arrives vol.geometry s.device.sectors file) : WriteRetries vol s file input := by
  intro readFails writeFails e t hrun
  obtain ⟨-, ht, hsought⟩ :=
    (wp_err hrun).mp (@write_settles vol (withFaults readFails writeFails s)
    file input ⟨hs.sound, hs.scratch⟩ h)
  have hsectors : (recovered t.1).device.sectors = s.device.sectors := ht.sectors
  have hpos := hsought.position
  have hvalid := hsought.validLength
  refine ⟨hpos, fun harrives => ?_⟩
  have hone := h.resolve_right (not_not.mpr harrives)
  have hone' : OneSector vol.geometry t.2 input.length := by
    unfold OneSector
    rwa [hpos, hvalid]
  have harrives' : Arrives vol.geometry (recovered t.1).device.sectors t.2 := by
    rw [hsectors]
    exact hsought.arrives harrives
  have hnot (r : Machine) : ¬ (¬ Healthy (recovered r) ∨
      (recovered r).device.writeFails (recovered r).device.writes.length = true) := by
    rintro (h | h)
    · exact h (healthy_recovered r)
    · cases h
  obtain ⟨k, u, hu, hk, hpos1, hwritten⟩ := exists_of_wp (wp_mono _ (@write_settles vol
    (recovered t.1) t.2 input ⟨ht.follows.sectorCount ▸ hs.sound, ht.follows.scratchLen ▸
    hs.scratch⟩
    (.inl hone')) (fun _ _ h => h) fun _ _ h => hnot _ (h.1 harrives'))
  obtain ⟨k', u', hu', hk', hpos2, hwritten'⟩ := exists_of_wp (wp_mono _ (@write_settles vol
    (recovered s) file input ⟨hs.sound, hs.scratch⟩ (.inl hone))
    (fun _ _ h => h) fun _ _ h => hnot _ (h.1 harrives))
  obtain rfl : k = k' := by rw [hk, hk', hpos, hvalid]
  refine ⟨k, u, u', hu, hu', by rw [hpos1, hpos2, hpos], ?_⟩
  have hhere := hsought.posHere_eq
  change posHere vol.geometry s.device.sectors t.2 = posHere vol.geometry s.device.sectors
    file at hhere
  rw [hwritten, hwritten', firstWritten, firstWritten, hsectors, hhere]
  rfl

lemma writeRound_steady {t : Machine × File} {wanted k : ℕ} (hs : Ready vol.geometry t.1)
    (hmore : k < wanted) (hlen : wanted ≤ input.length)
    (hbound : t.1.device.writeFails t.1.device.writes.length = true ∨
      t.2.position + (wanted - k) < 2 ^ 64) :
    wp (writeRound vol wanted input k)
      (Sum.elim (fun _ _ => False) fun k' u =>
        t.1.device.writeFails t.1.device.writes.length = false ∧ k < k' ∧ k' ≤ wanted ∧
        u.2.position = t.2.position + (k' - k) ∧ Ready vol.geometry u.1)
      (fun _ u => u.2.position = t.2.position) t := by
  unfold writeRound
  rw [wp_ite]
  refine ⟨fun hle => absurd hle (by omega), fun _ => ?_⟩
  simp only [wp_bind]
  refine wp_mono _ (@filePosition_safe vol t.1 hs t.2 t.2.position t ⟨Quiet.refl _ _, rfl, rfl⟩) ?_
    fun _ _ h => h.position
  rintro ⟨lba, off⟩ u ⟨hu, hin, hoff⟩
  dsimp only at hin hoff
  simp only [wp_sub, wp_when, wp_lift]
  refine ⟨hoff.le, ?_⟩
  set count := min (vol.geometry.bytesPerSector - off) (wanted - k) with hcount
  have hlength : ((input.drop k).take count).length = count := by
    rw [List.length_take, List.length_drop]
    omega
  have hready := hu.quiet.ready hs
  have hpatch := @sectorPatch_wrote u.1 vol.geometry lba off ((input.drop k).take count)
    (fun _ v => wp (advance count) (fun _ w => wp (pure (Sum.inr (k + count)) : FileM (ℕ ⊕ ℕ))
      (Sum.elim (fun _ _ => False) fun k' w =>
        t.1.device.writeFails t.1.device.writes.length = false ∧ k < k' ∧ k' ≤ wanted ∧
        w.2.position = t.2.position + (k' - k) ∧ Ready vol.geometry w.1)
      (fun _ w => w.2.position = t.2.position) w)
      (fun _ w => w.2.position = t.2.position) (v, u.2))
    (fun _ v => u.2.position = t.2.position) hready hin (by rw [hlength]; omega) ?_
    fun _ _ _ _ => hu.position
  · rw [hlength] at hpatch
    exact hpatch
  · rintro v hv ⟨-, hok⟩
    rw [hu.quiet.writeFails, hu.quiet.writes] at hok
    have hbound := hbound.resolve_left (by rw [hok]; exact Bool.false_ne_true)
    simp only [advance, wp_bind, wp_getSnd, wp_u64, wp_modifySnd, wp_pure, hu.position]
    refine ⟨by omega, hok, by omega, by omega, ?_, hv.follows.ready hready⟩
    rw [Nat.add_sub_cancel_left]

lemma write_moves (hs : Ready vol.geometry s) (hone : ¬ OneSector vol.geometry file input.length)
    (harrives : Arrives vol.geometry s.device.sectors file) :
    ∃ writeFails e t, FileIo.write vol input (withFaults (fun _ => false) writeFails s, file) =
      (.err e, t) ∧ t.2.position ≠ file.position := by
  have hsize := hs.sound.size_ge
  have hmod := Nat.mod_lt file.position (show 0 < vol.geometry.bytesPerSector by omega)
  unfold OneSector at hone
  set wanted := min input.length (file.validLength - file.position) with hwanted
  set s' := withFaults (fun _ => false) (fun j => decide (j = s.device.writes.length + 1))
    s with hs'
  have hready : Ready vol.geometry s' := ⟨hs.sound, hs.scratch⟩
  have hnot : ¬ (¬ Healthy s' ∨ s'.device.writeFails s'.device.writes.length = true) := by
    rintro (hne | hfail)
    · exact hne fun _ => rfl
    · have hbad : s.device.writes.length = s.device.writes.length + 1 := of_decide_eq_true hfail
      omega
  obtain ⟨k | k, u, hrun, hu⟩ := exists_of_wp (wp_mono _ (@writeRound_first vol s' file input
    wanted hready (by omega) (by omega)) (fun _ _ h => h) fun _ _ h => hnot (h.1 harrives))
  · exact hu.elim
  obtain ⟨-, hk, hup, hwrote, hwrites⟩ := hu
  have hsecond : wp (FileIo.write vol input) (fun _ _ => False)
      (fun _ v => v.2.position = file.position + k) (s', file) := by
    unfold inSector at hk
    unfold FileIo.write
    simp only [wp_bind, wp_getSnd]
    rw [wp_ite]
    refine ⟨fun hnone => ?_, fun _ => ?_⟩
    · rcases hnone with hle | rfl
      · omega
      · exact absurd hwanted (by simp; omega)
    simp only [wp_bind, wp_sub]
    refine ⟨by omega, ?_⟩
    rw [← hwanted, show wanted + 1 = wanted - 1 + 1 + 1 by omega, loop_succ, wp_bind]
    refine (wp_ok hrun).mpr ?_
    dsimp only
    rw [loop_succ, wp_bind]
    have hfail : u.1.device.writeFails u.1.device.writes.length = true := by
      rw [hwrote.follows.writeFails, hwrites]
      exact decide_eq_true rfl
    refine wp_mono _ (@writeRound_steady vol input u wanted k (hwrote.follows.ready hready)
      (by omega) (by omega) (.inl hfail)) ?_ fun _ _ h => h.trans hup
    rintro (k' | k') w hw
    · exact hw
    · rw [hfail] at hw
      exact absurd hw.1 Bool.true_eq_false.mp
  obtain ⟨e, t, herr, ht⟩ := exists_err_of_wp hsecond
  refine ⟨_, e, t, herr, ?_⟩
  unfold inSector at hk
  omega

end Write

/-! ### Where an error leaves the handle -/

/-- **An error of `read` leaves the handle where it was or behind the first sector**: one that comes
in the first sector leaves it where it was. -/
theorem read_stops {vol : Volume} {s : Machine} {file : File} {outLen : ℕ}
    (hs : Ready vol.geometry s) (hvalid : file.validLength < 2 ^ 64) :
    wp (FileIo.read vol outLen) (fun _ _ => True)
      (fun _ u => u.2.position = file.position ∨ file.position + inSector vol.geometry file.position
        (min outLen (file.validLength - file.position)) ≤ u.2.position) (s, file) := by
  unfold FileIo.read
  simp only [wp_bind, wp_getSnd]
  rw [wp_ite]
  refine ⟨fun _ => trivial, fun hsome => ?_⟩
  rw [not_or] at hsome
  simp only [wp_bind, wp_sub]
  refine ⟨by omega, ?_⟩
  set wanted := min outLen (file.validLength - file.position) with hwanted
  have hbound : file.position + wanted < 2 ^ 64 := by omega
  refine wp_loop_post (fun i out t => Steady vol s file (file.position + out.length) t ∧
    i ≤ out.length ∧ out.length ≤ wanted ∧ (t = (s, file) ∧ out = [] ∨
      inSector vol.geometry file.position wanted ≤ out.length)) ?_ ?_ ?_
  · exact ⟨⟨Quiet.refl _ _, rfl, rfl⟩, Nat.zero_le _, Nat.zero_le _, .inl ⟨rfl, rfl⟩⟩
  · rintro i out t - - ⟨ht, hi, hle, hfirst | hbehind⟩
    · obtain ⟨rfl, rfl⟩ := hfirst
      refine wp_mono _ (wp_and _ (readRound_safe hs hbound ht)
        (@readRound_first vol s file wanted hs (by omega))) ?_ fun _ _ h => .inl h.2.2.2.position
      rintro (r | out') u ⟨hu, hround⟩
      · trivial
      · have hlen : out'.length = inSector vol.geometry file.position wanted := by
          rw [hround.2.1, Image.slice_length]
        exact ⟨hu.1, Nat.succ_le_of_lt (Nat.lt_of_le_of_lt hi hu.2.1), hu.2.2, .inr hlen.ge⟩
    · refine wp_mono _ (readRound_safe hs hbound ht) ?_ fun _ _ h => .inr ?_
      · rintro (r | out') u hu
        · trivial
        · have hlt := hu.2.1
          exact ⟨hu.1, by omega, hu.2.2, .inr (by omega)⟩
      · rw [h.position]
        omega
  · rintro out t ⟨-, hi, hle, -⟩
    omega

/-- **An error of `write` leaves the handle where it was or behind the first sector.** -/
theorem write_stops {vol : Volume} {s : Machine} {file : File} {input : List UInt8}
    (hs : Ready vol.geometry s) (hvalid : file.validLength < 2 ^ 64) :
    wp (FileIo.write vol input) (fun _ _ => True)
      (fun _ u => u.2.position = file.position ∨ file.position + inSector vol.geometry file.position
        (min input.length (file.validLength - file.position)) ≤ u.2.position) (s, file) := by
  unfold FileIo.write
  simp only [wp_bind, wp_getSnd]
  rw [wp_ite]
  refine ⟨fun _ => trivial, fun hsome => ?_⟩
  rw [not_or] at hsome
  have hlen := List.length_pos_of_ne_nil hsome.2
  simp only [wp_bind, wp_sub]
  refine ⟨by omega, ?_⟩
  set wanted := min input.length (file.validLength - file.position) with hwanted
  have hbound : file.position + wanted < 2 ^ 64 := by omega
  refine wp_loop_post (fun i k t => Ready vol.geometry t.1 ∧ t.2.position = file.position + k ∧
    i ≤ k ∧ k ≤ wanted ∧ (t = (s, file) ∧ k = 0 ∨
      inSector vol.geometry file.position wanted ≤ k)) ?_ ?_ ?_
  · exact ⟨hs, rfl, le_rfl, Nat.zero_le _, .inl ⟨rfl, rfl⟩⟩
  · rintro i k t - - ⟨ht, hpos, hi, hle, hfirst | hbehind⟩
    · obtain ⟨rfl, rfl⟩ := hfirst
      refine wp_mono _ (wp_and _ (@writeRound_steady vol input (s, file) wanted 0 hs (by omega)
        (by omega) (.inr (by dsimp only; omega)))
        (@writeRound_first vol s file input wanted hs (by omega) (by omega))) ?_
        fun _ _ h => .inl h.1
      rintro (r | k') u ⟨hu, hround⟩
      · trivial
      · obtain ⟨-, hk', hpos', -⟩ := hround
        obtain ⟨-, hlt, hle', -, hready⟩ := hu
        exact ⟨hready, hpos', by omega, hle', .inr hk'.ge⟩
    · rcases Nat.lt_or_ge k wanted with hmore | hdone
      · refine wp_mono _ (@writeRound_steady vol input t wanted k ht hmore (by omega)
          (.inr (by omega))) ?_ fun _ u h => .inr (by rw [h, hpos]; omega)
        rintro (r | k') u hu
        · trivial
        · obtain ⟨-, hlt, hle', hpos', hready⟩ := hu
          exact ⟨hready, by omega, by omega, hle', .inr (by omega)⟩
      · unfold writeRound
        rw [if_pos hdone]
        trivial
  · rintro k t ⟨-, -, hi, hle, -⟩
    omega

/-- **A transfer can be made again after an error when it is one of a single sector or a chain
error bars the way to its position, and only then.** -/
theorem retries_iff (vol : Volume) (s : Machine) (file : File) (outLen : ℕ) (input : List UInt8)
    (hs : Ready vol.geometry s) :
    (ReadRetries vol s file outLen ↔
      OneSector vol.geometry file outLen ∨ ¬ Arrives vol.geometry s.device.sectors file) ∧
    (WriteRetries vol s file input ↔
      OneSector vol.geometry file input.length ∨ ¬ Arrives vol.geometry s.device.sectors file) := by
  refine ⟨⟨fun h => ?_, readRetries_of hs⟩, ⟨fun h => ?_, writeRetries_of hs⟩⟩
  · by_contra hnot
    rw [not_or, not_not] at hnot
    obtain ⟨k, e, t, hrun, hne⟩ := read_moves hs hnot.1 hnot.2
    exact hne (h _ _ e t hrun).1
  · by_contra hnot
    rw [not_or, not_not] at hnot
    obtain ⟨writeFails, e, t, hrun, hne⟩ := write_moves hs hnot.1 hnot.2
    exact hne (h _ writeFails e t hrun).1

/-- **What a `read` of one sector returns when it is made again**: the bytes of the stream of the
file, when the cache of the handle agrees with the media. -/
theorem read_retried {vol : Volume} {s : Machine} {file : File} {n outLen : ℕ} {e : Error}
    {readFails writeFails : ℕ → Bool} {t : Machine × File} (hs : Ready vol.geometry s)
    (hfile : Streams vol.geometry s.device.sectors file n)
    (hpos : file.position < n * clusterSize vol.geometry)
    (hone : OneSector vol.geometry file outLen)
    (hrun : FileIo.read vol outLen (withFaults readFails writeFails s, file) = (.err e, t)) :
    (FileIo.read vol outLen (recovered t.1, t.2)).1 = .ok (streamBytes vol.geometry s.device.sectors
      (extent vol.geometry s.device.sectors file.firstCluster file.noFatChain n) file.position
      (min outLen (file.validLength - file.position))) :=
  (readRetries_of hs (.inl hone) readFails writeFails e t hrun).2
    (arrives_of_streams hs.sound hfile hpos) _ (standsIn_of_streams hs.sound hfile hpos)

/-! ### A file of two sectors -/

/-- A handle whose position lies behind the end of the chain. -/
def beyondEnd : File :=
  { File.ofEntry (pairEntry false) with position := 1024, validLength := 1536 }

theorem retries_iff_pair :
    ReadRetries smallVolume (pair false) (File.ofEntry (pairEntry false)) 512 ∧
    ¬ ReadRetries smallVolume (pair false) (File.ofEntry (pairEntry false)) 513 ∧
    ReadRetries smallVolume (pair false) beyondEnd 512 ∧
    WriteRetries smallVolume (pair false) (File.ofEntry (pairEntry false)) [1, 2, 3] ∧
    ¬ WriteRetries smallVolume (pair false) (File.ofEntry (pairEntry false))
      (List.replicate 513 7) ∧
    WriteRetries smallVolume (pair false) beyondEnd [1, 2, 3] := by
  have hs : Ready smallVolume.geometry (pair false) := (@wellFormed_pair .live false).ready
  have hiff := retries_iff smallVolume (pair false) (File.ofEntry (pairEntry false)) 512
    [1, 2, 3] hs
  have hiff' := retries_iff smallVolume (pair false) (File.ofEntry (pairEntry false)) 513
    (List.replicate 513 7) hs
  have hbeyond := retries_iff smallVolume (pair false) beyondEnd 512 [1, 2, 3] hs
  exact ⟨hiff.1.mpr (by decide +kernel), mt hiff'.1.mp (by decide +kernel),
    hbeyond.1.mpr (.inr (by decide +kernel)), hiff.2.mpr (by decide +kernel),
    mt hiff'.2.mp (by decide +kernel), hbeyond.2.mpr (.inr (by decide +kernel))⟩

/-- The second request fails, and the handle stands behind the first sector. -/
theorem second_sector_fails :
    (openFile smallVolume ['A'] (pair true)).1 = .ok (File.ofEntry (pairEntry true)) ∧
    (FileIo.read smallVolume 1024 (withFaults (fun j => decide (j = 1)) (fun _ => false)
      (pair true),
      File.ofEntry (pairEntry true))).1 = .err (.device .fault) ∧
    (FileIo.read smallVolume 1024 (withFaults (fun j => decide (j = 1)) (fun _ => false)
      (pair true),
      File.ofEntry (pairEntry true))).2.2.position = 512 ∧
    (FileIo.write smallVolume (List.replicate 1024 7) (withFaults (fun _ => false)
      (fun j => decide (j = 1)) (pair true), File.ofEntry (pairEntry true))).1 =
        .err (.device .fault) ∧
    (FileIo.write smallVolume (List.replicate 1024 7) (withFaults (fun _ => false)
      (fun j => decide (j = 1)) (pair true), File.ofEntry (pairEntry true))).2.2.position = 512 ∧
    ¬ ReadRetries smallVolume (pair true) (File.ofEntry (pairEntry true)) 1024 ∧
    ¬ WriteRetries smallVolume (pair true) (File.ofEntry (pairEntry true))
      (List.replicate 1024 7) := by
  have hread : (FileIo.read smallVolume 1024 (withFaults (fun j => decide (j = 1)) (fun _ => false)
      (pair true), File.ofEntry (pairEntry true))).1 = .err (.device .fault) := by decide +kernel
  have hmoved : (FileIo.read smallVolume 1024 (withFaults (fun j => decide (j = 1)) (fun _ => false)
      (pair true), File.ofEntry (pairEntry true))).2.2.position = 512 := by decide +kernel
  have hwrite : (FileIo.write smallVolume (List.replicate 1024 7) (withFaults (fun _ => false)
      (fun j => decide (j = 1)) (pair true), File.ofEntry (pairEntry true))).1 =
        .err (.device .fault) := by decide +kernel
  have hmoved' : (FileIo.write smallVolume (List.replicate 1024 7) (withFaults (fun _ => false)
      (fun j => decide (j = 1)) (pair true), File.ofEntry (pairEntry true))).2.2.position =
      512 := by
    decide +kernel
  refine ⟨openFile_pair true, hread, hmoved, hwrite, hmoved', fun h => ?_, fun h => ?_⟩
  · have hkept := (h _ _ _ _ (run_eq hread)).1
    rw [hmoved] at hkept
    exact absurd hkept (by decide)
  · have hkept := (h _ _ _ _ (run_eq hwrite)).1
    rw [hmoved'] at hkept
    exact absurd hkept (by decide)

end ExfatEmbedded.Retrying
