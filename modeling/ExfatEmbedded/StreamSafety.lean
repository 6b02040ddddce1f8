import ExfatEmbedded.FatWrites

/-!
The FAT writes of the programs which make a stream shorter or longer.

`setFat` checks no bound, so that every loop which calls it has to. Those of `truncate` do not.
-/

namespace ExfatEmbedded.StreamSafety

open ExfatEmbedded.Library Exec ExfatEmbedded.Core ExfatEmbedded.Entry ExfatEmbedded.Allocation
open ExfatEmbedded.Lookup ExfatEmbedded.FileIo ExfatEmbedded.EntryWrite ExfatEmbedded.Mutation
open ExfatEmbedded.Mount ExfatEmbedded.Reading ExfatEmbedded.MountSafety ExfatEmbedded.ReadSafety
open ExfatEmbedded.FatWrites

variable {vol : Volume} {s : Machine}

/-! ### Truncation -/

/-- Cluster number `i` of the stream of a handle. -/
def streamCluster (g : Geometry) (d : Sectors) (file : File) (i : ℕ) : ℕ :=
  if file.noFatChain then file.firstCluster + i else link g d file.firstCluster i

/-- The clusters behind the first `keep - 1` which releasing comes to are in the heap, and no
cluster of a chain comes twice before the last. -/
structure Releasable (g : Geometry) (d : Sectors) (file : File) (keep allocated : ℕ) : Prop where
  heap : ∀ i, keep - 1 ≤ i → i < allocated →
    (file.noFatChain = true → file.firstCluster + i + 1 < 2 ^ 32) →
      g.InHeap (streamCluster g d file i)
  apart : file.noFatChain = false → ∀ i j, keep - 1 ≤ i → i < j → j + 1 < allocated →
    streamCluster g d file i ≠ streamCluster g d file j

/-- The walk from cluster number `i` on finds the links of `d`. -/
def Intact (g : Geometry) (d : Sectors) (file : File) (allocated i : ℕ) (t : Machine) : Prop :=
  file.noFatChain = false → ∀ j, i ≤ j → j + 1 < allocated →
    fatEntry g t.device.sectors (streamCluster g d file j) =
      fatEntry g d (streamCluster g d file j)

lemma streamCluster_succ (g : Geometry) (d : Sectors) (file : File) (i : ℕ) :
    streamCluster g d file (i + 1) =
      if file.noFatChain then streamCluster g d file i + 1
      else fatEntry g d (streamCluster g d file i) := by
  unfold streamCluster
  split_ifs
  · omega
  · exact link_succ _ _ _ _

lemma followCluster_leaves {noFatChain : Bool} {c : ℕ} (h : FatSafe vol s) :
    leaves (followCluster vol noFatChain c)
      (fun next t => FatSafe vol t ∧ t.device.sectors = s.device.sectors ∧
        (noFatChain = true → c + 1 < 2 ^ 32) ∧
        next = if noFatChain then c + 1 else fatEntry vol.geometry s.device.sectors c)
      (FatSafe vol) s := by
  unfold followCluster
  rw [leaves_ite]
  refine ⟨fun hfat => ?_, fun hfat => ?_⟩
  · rw [leaves_okOr]
    refine ⟨fun next hnext => ?_, fun _ => h⟩
    unfold checkedAdd32 at hnext
    split at hnext
    · rename_i hlt
      cases hnext
      exact ⟨h, rfl, fun _ => hlt, (if_pos hfat).symm⟩
    · cases hnext
  · refine leaves_mono _ (nextCluster_leaves h) ?_ fun _ h => h
    rintro next t ⟨ht, hsectors, rfl⟩
    exact ⟨ht, hsectors, fun hf => absurd hf hfat, (if_neg hfat).symm⟩

lemma truncateRound_leaves {d : Sectors} {file : File} {keep allocated i : ℕ} (h : FatSafe vol s)
    (hr : Releasable vol.geometry d file keep allocated) (hkeep : keep - 1 ≤ i)
    (hi : i < allocated) (hintact : Intact vol.geometry d file allocated i s) :
    leaves (truncateRound vol file.noFatChain (streamCluster vol.geometry d file i))
      (Sum.elim (fun r => r.elim) fun c t => FatSafe vol t ∧
        (i + 1 < allocated → c = streamCluster vol.geometry d file (i + 1)) ∧
        Intact vol.geometry d file allocated (i + 1) t)
      (FatSafe vol) s := by
  unfold truncateRound
  rw [leaves_bind]
  refine leaves_mono _ (followCluster_leaves h) ?_ fun _ h => h
  rintro next t ⟨ht, hsectors, hlt, rfl⟩
  have hc : vol.geometry.InHeap (streamCluster vol.geometry d file i) := by
    refine hr.heap i hkeep hi fun hfat => ?_
    have := hlt hfat
    rwa [streamCluster, if_pos hfat] at this
  rw [leaves_bind]
  refine leaves_mono _ (setFat_leaves ht hc) ?_ fun _ h => h
  rintro _ u ⟨hu, hfat⟩
  rw [leaves_bind]
  refine leaves_mono _ (setBitmap_leaves hu) ?_ fun _ h => h
  rintro _ v ⟨hv, hbelow⟩
  refine ⟨hv, fun hnext => ?_, fun hchain j hj hjn => ?_⟩
  · rw [streamCluster_succ]
    split_ifs with hf
    · rfl
    · rw [hintact (by simpa using hf) i le_rfl hnext]
  · have hcj := hr.heap j (by omega) (by omega) fun hf => by rw [hf] at hchain; cases hchain
    rw [fatEntry_congr hv.ready.sound hcj hbelow, hfat,
      fatEntry_setEntry_ne _ _ (hr.apart hchain i j hkeep (by omega) hjn), hsectors]
    exact hintact hchain j (by omega) hjn

lemma releaseLoop_leaves {d : Sectors} {file : File} {keep allocated first n c : ℕ}
    (h : FatSafe vol s) (hr : Releasable vol.geometry d file keep allocated)
    (hkeep : keep - 1 ≤ first) (hn : first + n = allocated)
    (hc : 0 < n → c = streamCluster vol.geometry d file first)
    (hintact : Intact vol.geometry d file allocated first s) :
    leaves (loop (fun _ cluster => truncateRound vol file.noFatChain cluster) first n c)
      (fun _ => FatSafe vol) (FatSafe vol) s := by
  refine leaves_loop (fun i c t => FatSafe vol t ∧
    (i < allocated → c = streamCluster vol.geometry d file i) ∧
    Intact vol.geometry d file allocated i t) ⟨h, fun hlt => hc (by omega), hintact⟩ ?_
    fun _ _ h => h.1
  rintro i c t hi hlt ⟨ht, hc, hintact⟩
  rw [hc (by omega)]
  refine leaves_mono _ (truncateRound_leaves ht hr (by omega) (by omega) hintact) ?_ fun _ h => h
  rintro (r | c') u hu
  · exact r.elim
  · exact hu

lemma releaseAll_leaves {file : File} {allocated : ℕ} (h : FatSafe vol s)
    (hr : Releasable vol.geometry s.device.sectors file 0 allocated) :
    leaves (releaseAll vol file allocated) (fun _ => FatSafe vol) (FatSafe vol) s := by
  have hfirst : file.firstCluster = streamCluster vol.geometry s.device.sectors file 0 := by
    unfold streamCluster
    split_ifs <;> rfl
  unfold releaseAll
  rw [leaves_bind]
  exact releaseLoop_leaves h hr (Nat.zero_le _) (Nat.zero_add _) (fun _ => hfirst)
    fun _ _ _ _ => rfl

lemma lastKept_leaves {file : File} {keep : ℕ} (h : FatSafe vol s) (hkeep : 0 < keep) :
    leaves (lastKept vol file keep)
      (fun last t => FatSafe vol t ∧ t.device.sectors = s.device.sectors ∧
        last = streamCluster vol.geometry s.device.sectors file (keep - 1) ∧
        (file.noFatChain = true → file.firstCluster + (keep - 1) + 1 < 2 ^ 32) ∧
        (file.noFatChain = false → ∀ i, 0 < i → i < keep →
          vol.geometry.InHeap (streamCluster vol.geometry s.device.sectors file i)))
      (FatSafe vol) s := by
  unfold lastKept
  rw [leaves_ite]
  refine ⟨fun hfat => ?_, fun hfat => ?_⟩
  · simp only [leaves_bind, leaves_okOr]
    refine ⟨fun n hn => ⟨fun past hpast => ⟨fun last hlast => ?_, fun _ => h⟩, fun _ => h⟩,
      fun _ => h⟩
    unfold tryU32 at hn
    unfold checkedAdd32 at hpast
    unfold checkedSub at hlast
    split_ifs at hn hpast hlast
    cases hn
    cases hpast
    cases hlast
    refine ⟨h, trivial, ?_, fun _ => by omega, fun hf => by rw [hfat] at hf; cases hf⟩
    rw [streamCluster, if_pos hfat]
    omega
  · refine leaves_mono _ (clusterAt_leaves h) ?_ fun _ h => h
    rintro c t ⟨ht, hsectors, rfl, hin⟩
    refine ⟨ht, hsectors, (if_neg hfat).symm, fun hf => absurd hf hfat, fun _ i h1 h2 => ?_⟩
    rw [streamCluster, if_neg hfat]
    exact hin i h1 (by omega)

lemma releaseTail_leaves {file : File} {keep allocated : ℕ} (h : FatSafe vol s) (hkeep : 0 < keep)
    (hlt : keep < allocated)
    (hr : (file.noFatChain = false → ∀ i, 0 < i → i < keep →
        vol.geometry.InHeap (streamCluster vol.geometry s.device.sectors file i)) →
      Releasable vol.geometry s.device.sectors file keep allocated) :
    leaves (releaseTail vol file keep allocated) (fun _ => FatSafe vol) (FatSafe vol) s := by
  unfold releaseTail
  rw [leaves_bind]
  refine leaves_mono _ (lastKept_leaves h hkeep) ?_ fun _ h => h
  rintro last t ⟨ht, hsectors, rfl, hfit, hreach⟩
  have hr := hr hreach
  have hlast := hr.heap (keep - 1) le_rfl (by omega) hfit
  rw [leaves_bind]
  refine leaves_mono _ (followCluster_leaves ht) ?_ fun _ h => h
  rintro cluster u ⟨hu, hsectors', -, hnext⟩
  rw [leaves_bind]
  refine leaves_mono _ (setFat_leaves hu hlast) ?_ fun _ h => h
  rintro _ v ⟨hv, hfat⟩
  rw [leaves_bind]
  refine releaseLoop_leaves hv hr (by omega) (by omega) (fun _ => ?_) fun hchain j hj hjn => ?_
  · have hsucc := streamCluster_succ vol.geometry s.device.sectors file (keep - 1)
    rw [show keep - 1 + 1 = keep by omega] at hsucc
    rw [hnext, hsucc, hsectors]
  · rw [hfat, fatEntry_setEntry_ne _ _ (hr.apart hchain (keep - 1) j le_rfl (by omega) hjn),
      hsectors', hsectors]

/-- The number of clusters of a stream of `len` bytes. -/
def clustersFor (g : Geometry) (len : ℕ) : ℕ :=
  if len = 0 then 0
  else (len + g.bytesPerSector * g.sectorsPerCluster - 1) / (g.bytesPerSector * g.sectorsPerCluster)

/-- When `truncate` releases clusters, and its walk comes to the last one kept, it releases clusters
of the heap, each once. -/
def TruncateSane (vol : Volume) (d : Sectors) (file : File) (len : ℕ) : Prop :=
  len ≤ file.validLength →
    clustersFor vol.geometry len < clustersFor vol.geometry file.dataLength →
    (file.noFatChain = false → ∀ i, 0 < i → i < clustersFor vol.geometry len →
      vol.geometry.InHeap (streamCluster vol.geometry d file i)) →
    Releasable vol.geometry d file (clustersFor vol.geometry len)
      (clustersFor vol.geometry file.dataLength)

instance (g : Geometry) (d : Sectors) (file : File) (keep allocated : ℕ) :
    Decidable (Releasable g d file keep allocated) :=
  have hheap : Decidable (∀ i < allocated, keep - 1 ≤ i →
    (file.noFatChain = true → file.firstCluster + i + 1 < 2 ^ 32) →
      g.InHeap (streamCluster g d file i)) := inferInstance
  have hapart : Decidable (file.noFatChain = false → ∀ j < allocated, j + 1 < allocated →
    ∀ i < j, keep - 1 ≤ i → streamCluster g d file i ≠ streamCluster g d file j) := inferInstance
  @decidable_of_iff _ _
    ⟨fun ⟨h1, h2⟩ => ⟨fun i hk hi => h1 i hi hk,
        fun hfat i j hk hij hj => h2 hfat j (by omega) hj i hij hk⟩,
      fun h => ⟨fun i hi hk => h.heap i hk hi,
        fun hfat j _ hj i hij hk => h.apart hfat i j hk hij hj⟩⟩
    (@instDecidableAnd _ _ hheap hapart)

instance (vol : Volume) (d : Sectors) (file : File) (len : ℕ) :
    Decidable (TruncateSane vol d file len) :=
  decidable_of_iff (len ≤ file.validLength →
    clustersFor vol.geometry len < clustersFor vol.geometry file.dataLength →
    (file.noFatChain = false → ∀ i < clustersFor vol.geometry len, 0 < i →
      vol.geometry.InHeap (streamCluster vol.geometry d file i)) →
    Releasable vol.geometry d file (clustersFor vol.geometry len)
      (clustersFor vol.geometry file.dataLength))
    ⟨fun h hlen hlt hheap => h hlen hlt fun hfat i hi hpos => hheap hfat i hpos hi,
      fun h hlen hlt hheap => h hlen hlt fun hfat i hpos hi => hheap hfat i hi hpos⟩

lemma clustersOf_leaves {t : Machine × File} {len : ℕ} (h : FileSafe vol t) :
    leaves (clustersOf len (vol.geometry.bytesPerSector * vol.geometry.sectorsPerCluster) : FileM ℕ)
      (fun n u => n = clustersFor vol.geometry len ∧ u = t) (FileSafe vol) t := by
  unfold clustersOf clustersFor
  rw [leaves_lift]
  beta_reduce
  rw [leaves_ite]
  refine ⟨fun hz => ⟨(if_pos hz).symm, rfl⟩, fun hz => ?_⟩
  simp only [divCeil, leaves_bind, leaves_assert, leaves_pure]
  exact ⟨fun _ => ⟨(if_neg hz).symm, trivial⟩, fun _ => h⟩

lemma keeps_shrink (keep clusterBytes : ℕ) :
    Preserves (FileSafe vol) (truncateClusters.shrink keep clusterBytes) :=
  (Preserves.okOr _ _).bind fun _ => Preserves.modifySnd _

lemma truncate_leaves {t : Machine × File} {len : ℕ} (h : FileSafe vol t)
    (hsane : TruncateSane vol t.1.device.sectors t.2 len) :
    leaves (truncate vol len) (fun _ => FileSafe vol) (FileSafe vol) t := by
  unfold truncate
  rw [leaves_bind, leaves_getSnd]
  beta_reduce
  rw [leaves_ite]
  refine ⟨fun _ => h, fun hlen => ?_⟩
  rw [h.ready.sound.bytesPerCluster_eq, pure_bind, leaves_bind]
  refine leaves_mono _ (clustersOf_leaves h) ?_ fun _ h => h
  rintro keep u ⟨rfl, rfl⟩
  rw [leaves_bind]
  refine leaves_mono _ (clustersOf_leaves h) ?_ fun _ h => h
  rintro allocated v ⟨rfl, rfl⟩
  have hrest : Preserves (FileSafe vol) (do
      modifySnd fun file => { file with validLength := len, position := min file.position len }
      let file ← getSnd
      updateStream vol file : FileM Unit) :=
    (Preserves.modifySnd _).bind fun _ => Preserves.getSnd.bind fun _ => (keeps_updateStream _).lift
  rw [leaves_bind, leaves_when]
  refine ⟨fun hlt => ?_, fun _ => hrest v h⟩
  refine leaves_mono _ (R := FileSafe vol) (Q := fun _ => FileSafe vol) ?_
    (fun _ => hrest) fun _ h => h
  unfold truncateClusters
  rw [leaves_bind, leaves_getSnd]
  beta_reduce
  rw [leaves_ite]
  refine ⟨fun hz => ?_, fun hpos => ?_⟩
  · rw [leaves_bind, leaves_lift]
    refine leaves_mono _ (releaseAll_leaves h ?_) ?_ fun _ h => h
    · have hr := hsane (by omega) hlt fun _ i h1 h2 => by omega
      rwa [hz] at hr
    · intro _ u hu
      exact (Preserves.modifySnd _).bind (fun _ => keeps_shrink _ _) (u, v.2) hu
  · rw [leaves_bind, leaves_lift]
    refine leaves_mono _ (releaseTail_leaves h (by omega) hlt (hsane (by omega) hlt)) ?_
      fun _ h => h
    exact fun _ u hu => keeps_shrink _ _ (u, v.2) hu

/-! ### Growth -/

/-- The clusters of a handle to which a growing `append` writes links are in the heap. -/
structure Growable (g : Geometry) (file : File) : Prop where
  empty : file.firstCluster = 0 → file.noFatChain = true →
    file.dataLength < g.bytesPerSector * g.sectorsPerCluster
  extent : file.firstCluster ≠ 0 → file.noFatChain = true →
    ∀ i < file.dataLength / (g.bytesPerSector * g.sectorsPerCluster),
    g.InHeap (file.firstCluster + i)
  chain : file.firstCluster ≠ 0 → file.noFatChain = false →
    g.bytesPerSector * g.sectorsPerCluster < file.dataLength ∨ g.InHeap file.firstCluster

/-- `append` does not grow the stream, or what it grows is in the heap. -/
def AppendSane (g : Geometry) (file : File) (len : ℕ) : Prop :=
  file.dataLength < file.validLength + len → Growable g file

instance (g : Geometry) (file : File) (len : ℕ) : Decidable (AppendSane g file len) :=
  decidable_of_iff (file.dataLength < file.validLength + len →
      (file.firstCluster = 0 → file.noFatChain = true →
        file.dataLength < g.bytesPerSector * g.sectorsPerCluster) ∧
      (file.firstCluster ≠ 0 → file.noFatChain = true →
        ∀ i < file.dataLength / (g.bytesPerSector * g.sectorsPerCluster),
          g.InHeap (file.firstCluster + i)) ∧
      (file.firstCluster ≠ 0 → file.noFatChain = false →
        g.bytesPerSector * g.sectorsPerCluster < file.dataLength ∨ g.InHeap file.firstCluster))
    ⟨fun h hlt => ⟨(h hlt).1, (h hlt).2.1, (h hlt).2.2⟩,
      fun h hlt => ⟨(h hlt).empty, (h hlt).extent, (h hlt).chain⟩⟩

lemma lastCluster_leaves {file : File} (h : FatSafe vol s) (hfirst : file.firstCluster ≠ 0)
    (hg : Growable vol.geometry file) :
    leaves (lastCluster vol file (vol.geometry.bytesPerSector * vol.geometry.sectorsPerCluster))
      (fun last t => FatSafe vol t ∧ vol.geometry.InHeap last ∧ (file.noFatChain = true →
        last = file.firstCluster + (file.dataLength /
            (vol.geometry.bytesPerSector * vol.geometry.sectorsPerCluster) - 1) ∧
          0 < file.dataLength / (vol.geometry.bytesPerSector * vol.geometry.sectorsPerCluster)))
      (FatSafe vol) s := by
  have hpos := h.ready.sound.clusterBytes_pos
  unfold lastCluster
  rw [leaves_ite]
  refine ⟨fun hfat => ?_, fun hfat => ?_⟩
  · simp only [div, sub, leaves_bind, leaves_assert, leaves_pure, leaves_okOr]
    refine ⟨fun _ => ⟨fun hone => ⟨fun n hn => ⟨fun last hlast => ?_, fun _ => h⟩, fun _ => h⟩,
      fun _ => h⟩, fun _ => h⟩
    unfold tryU32 at hn
    unfold checkedAdd32 at hlast
    split_ifs at hn hlast
    cases hn
    cases hlast
    exact ⟨h, hg.extent hfirst hfat _ (by omega), fun _ => ⟨rfl, by omega⟩⟩
  · simp only [div, leaves_bind, leaves_assert, leaves_pure]
    refine ⟨fun _ => ?_, fun _ => h⟩
    refine leaves_mono _ (clusterAt_leaves h) ?_ fun _ h => h
    rintro c t ⟨ht, -, rfl, hin⟩
    refine ⟨ht, ?_, fun hf => absurd hf hfat⟩
    rcases hg.chain hfirst (by simpa using hfat) with hg | hg
    · refine hin _ ?_ le_rfl
      exact Nat.div_pos (by omega) hpos
    · rcases Nat.eq_zero_or_pos ((file.dataLength - 1) /
        (vol.geometry.bytesPerSector * vol.geometry.sectorsPerCluster)) with hz | hlt
      · rw [hz]
        exact hg
      · exact hin _ hlt le_rfl

lemma linkExtent_leaves {file : File} (h : FatSafe vol s)
    (hg : ∀ i < file.dataLength / (vol.geometry.bytesPerSector * vol.geometry.sectorsPerCluster),
      vol.geometry.InHeap (file.firstCluster + i)) :
    leaves (linkExtent vol file (vol.geometry.bytesPerSector * vol.geometry.sectorsPerCluster))
      (fun _ => FatSafe vol) (FatSafe vol) s := by
  unfold linkExtent
  simp only [div, leaves_bind, leaves_assert, leaves_pure]
  refine ⟨fun _ => ?_, fun _ => h⟩
  refine leaves_loop (fun _ _ => FatSafe vol) h (fun i _ t _ hi ht => ?_) fun _ _ h => h
  simp only [leaves_bind, leaves_okOr]
  refine ⟨fun index hindex => ⟨fun c hc => ⟨fun next _ => ?_, fun _ => ht⟩, fun _ => ht⟩,
    fun _ => ht⟩
  unfold tryU32 at hindex
  unfold checkedAdd32 at hc
  split_ifs at hindex hc
  cases hindex
  cases hc
  refine leaves_mono _ (setFat_leaves ht (hg i (by omega))) ?_ fun _ h => h
  exact fun _ _ h => h.1

/-- What `append` knows of the last cluster of a handle with one. -/
def LastOf (g : Geometry) (file : File) (c : ℕ) : Prop :=
  g.InHeap c ∧ (file.noFatChain = true →
    c = file.firstCluster + (file.dataLength / (g.bytesPerSector * g.sectorsPerCluster) - 1) ∧
      0 < file.dataLength / (g.bytesPerSector * g.sectorsPerCluster))

lemma preferredAfter_leaves {last : Option ℕ} (h : FatSafe vol s) :
    leaves (preferredAfter last) (fun p t => t = s ∧ ∀ c, last = some c → p = c + 1)
      (FatSafe vol) s := by
  unfold preferredAfter
  split
  · rw [leaves_okOr]
    refine ⟨fun p hp => ⟨rfl, fun c hc => ?_⟩, fun _ => h⟩
    cases hc
    unfold checkedAdd32 at hp
    split at hp
    · exact (Option.some.inj hp).symm
    · cases hp
  · exact ⟨rfl, nofun⟩

/-- The handle with the length of one more cluster. -/
def longer (g : Geometry) (file : File) : File :=
  { file with dataLength := file.dataLength + g.bytesPerSector * g.sectorsPerCluster }

lemma linkCluster_leaves {file : File} {last : Option ℕ} {preferred new : ℕ} (h : FatSafe vol s)
    (hg : Growable vol.geometry file) (hnew : vol.geometry.InHeap new)
    (hlast : file.firstCluster ≠ 0 →
      ∃ c, last = some c ∧ preferred = c + 1 ∧ LastOf vol.geometry file c) :
    leaves (linkCluster vol last preferred new
        (vol.geometry.bytesPerSector * vol.geometry.sectorsPerCluster))
      (fun _ t => FileSafe vol t ∧ Growable vol.geometry (longer vol.geometry t.2))
      (FileSafe vol) (s, file) := by
  have hpos := h.ready.sound.clusterBytes_pos
  have h2 := (h.ready.sound.inHeap_iff.mp hnew).1
  unfold linkCluster
  rw [leaves_bind, leaves_getSnd]
  beta_reduce
  rw [leaves_ite]
  refine ⟨fun hz => ⟨h, ⟨fun h0 => ?_, fun _ hfat i hi => ?_, fun _ _ => Or.inr hnew⟩⟩,
    fun hne => ?_⟩
  · replace h0 : new = 0 := h0
    omega
  · replace hi : i < (file.dataLength + vol.geometry.bytesPerSector *
      vol.geometry.sectorsPerCluster) / (vol.geometry.bytesPerSector *
        vol.geometry.sectorsPerCluster) := hi
    rw [Nat.add_div_right _ hpos, Nat.div_eq_of_lt (hg.empty hz hfat)] at hi
    obtain rfl : i = 0 := by omega
    exact hnew
  · replace hne : file.firstCluster ≠ 0 := hne
    obtain ⟨c, rfl, rfl, hc, hextent⟩ := hlast hne
    rw [leaves_ite]
    refine ⟨fun ⟨hfat, hcontiguous⟩ => ⟨h, ⟨fun h0 => absurd h0 hne, fun _ _ i hi => ?_,
      fun _ hf => ?_⟩⟩, fun _ => ?_⟩
    · obtain ⟨hceq, hn⟩ := hextent hfat
      replace hi : i < (file.dataLength + vol.geometry.bytesPerSector *
        vol.geometry.sectorsPerCluster) / (vol.geometry.bytesPerSector *
          vol.geometry.sectorsPerCluster) := hi
      rw [Nat.add_div_right _ hpos] at hi
      rcases Nat.lt_or_ge i (file.dataLength /
        (vol.geometry.bytesPerSector * vol.geometry.sectorsPerCluster)) with hlt | hge
      · exact hg.extent hne hfat i hlt
      · change vol.geometry.InHeap (file.firstCluster + i)
        rw [show file.firstCluster + i = new by omega]
        exact hnew
    · exact absurd hfat (by rw [show file.noFatChain = false from hf]; decide)
    · rw [leaves_bind]
      refine leaves_mono _ (Q := fun _ w => FileSafe vol w ∧ w.2.firstCluster = file.firstCluster ∧
        w.2.dataLength = file.dataLength ∧ w.2.noFatChain = false) (R := FileSafe vol) ?_ ?_
        fun _ h => h
      · rw [leaves_when]
        refine ⟨fun hfat => ?_, fun hfat => ⟨h, rfl, rfl, by simpa using hfat⟩⟩
        rw [leaves_bind, leaves_lift]
        exact leaves_mono _ (linkExtent_leaves h (hg.extent hne hfat))
          (fun _ w hw => ⟨hw, rfl, rfl, rfl⟩) fun _ h => h
      · rintro _ ⟨w, file'⟩ ⟨hw, hfirst, hlength, hfat⟩
        rw [okOr_some, pure_bind, leaves_lift]
        refine leaves_mono _ (setFat_leaves hw hc) ?_ fun _ h => h
        rintro _ x ⟨hx, -⟩
        refine ⟨hx, ⟨fun h0 => ?_, fun _ hf => ?_, fun _ _ => ?_⟩⟩
        · exact absurd (hfirst.symm.trans h0) hne
        · exact absurd (hfat.symm.trans hf) (by decide)
        · change _ < file'.dataLength + _ ∨ vol.geometry.InHeap file'.firstCluster
          replace hfirst : file'.firstCluster = file.firstCluster := hfirst
          replace hlength : file'.dataLength = file.dataLength := hlength
          rw [hfirst, hlength]
          by_cases hf : file.noFatChain = true
          · exact Or.inr (hg.extent hne hf 0 (hextent hf).2)
          · exact (hg.chain hne (by simpa using hf)).imp_left fun hlt => by omega

lemma growRound_leaves {file : File} {stop : ℕ} (h : FatSafe vol s)
    (hg : Growable vol.geometry file) :
    leaves (growRound vol stop (vol.geometry.bytesPerSector * vol.geometry.sectorsPerCluster))
      (Sum.elim (fun _ => FileSafe vol) fun _ u => FileSafe vol u ∧ Growable vol.geometry u.2)
      (FileSafe vol) (s, file) := by
  unfold growRound
  rw [leaves_bind, leaves_getSnd]
  beta_reduce
  rw [leaves_ite]
  refine ⟨fun _ => h, fun _ => ?_⟩
  rw [leaves_bind, leaves_lift]
  have hlast : leaves (if file.firstCluster = 0 then pure none
      else some <$> lastCluster vol file
        (vol.geometry.bytesPerSector * vol.geometry.sectorsPerCluster) : FsM (Option ℕ))
      (fun last u => FatSafe vol u ∧ (file.firstCluster ≠ 0 → ∃ c, last = some c ∧
        LastOf vol.geometry file c)) (FatSafe vol) s := by
    rw [leaves_ite]
    refine ⟨fun hz => ⟨h, fun hne => absurd hz hne⟩, fun hne => ?_⟩
    rw [leaves_map]
    exact leaves_mono _ (lastCluster_leaves h hne hg) (fun c u hu => ⟨hu.1, fun _ =>
      ⟨c, rfl, hu.2⟩⟩) fun _ h => h
  refine leaves_mono _ hlast ?_ fun _ h => h
  rintro last u ⟨hu, hlast⟩
  rw [leaves_bind, leaves_lift]
  refine leaves_mono _ (preferredAfter_leaves hu) ?_ fun _ h => h
  rintro preferred _ ⟨rfl, hpref⟩
  rw [leaves_bind, leaves_lift]
  refine leaves_mono _ (allocateClusterPreferred_leaves hu) ?_ fun _ h => h
  rintro new v ⟨hv, hnew⟩
  rw [leaves_bind]
  refine leaves_mono _ (linkCluster_leaves hv hg hnew fun hne => ?_) ?_ fun _ h => h
  · obtain ⟨c, hc, hof⟩ := hlast hne
    exact ⟨c, hc, hpref c hc, hof⟩
  · rintro _ w ⟨hw, hgrow⟩
    rw [leaves_bind, leaves_getSnd]
    simp only [leaves_bind, leaves_okOr, leaves_modifySnd, leaves_pure]
    refine ⟨fun length hlength => ⟨hw, ?_⟩, fun _ => hw⟩
    have := checkedAdd64_eq hlength
    subst this
    exact hgrow

lemma growRound_done (file : File) {stop clusterBytes : ℕ} (hlong : stop ≤ file.dataLength) :
    growRound vol stop clusterBytes (s, file) = (.ok (.inl ()), (s, file)) := by
  change (if stop ≤ file.dataLength then pure (.inl ()) else _ : FileM (Unit ⊕ Unit)) (s, file) = _
  rw [if_pos hlong]
  rfl

lemma append_leaves {file : File} {input : List UInt8} (h : FatSafe vol s)
    (hsane : AppendSane vol.geometry file input.length) :
    leaves (append vol input) (fun _ => FileSafe vol) (FileSafe vol) (s, file) := by
  unfold append
  rw [leaves_ite]
  refine ⟨fun _ => h, fun _ => ?_⟩
  rw [leaves_bind, leaves_getSnd]
  refine leaves_restoreSnd file (R := FileSafe vol) ?_ fun u hu => ⟨hu, hu⟩
  unfold appendBody
  rw [leaves_bind, leaves_modifySnd]
  beta_reduce
  rw [h.ready.sound.bytesPerCluster_eq, pure_bind, leaves_bind, leaves_getSnd]
  simp only [div, leaves_bind, leaves_okOr, leaves_assert, leaves_pure]
  refine ⟨fun stop hstop => ⟨fun _ => ?_, fun _ => h⟩, fun _ => h⟩
  have hstop := checkedAdd64_eq hstop
  refine leaves_mono _ (Q := fun _ => FileSafe vol) (R := FileSafe vol) ?_ ?_ fun _ h => h
  · by_cases hlong : stop ≤ file.dataLength
    · rw [loop_succ, leaves_bind]
      unfold leaves
      rw [growRound_done { file with cachedClusterIndex := none } hlong]
      exact h
    · have hg := hsane (by omega)
      have hg' : Growable vol.geometry { file with cachedClusterIndex := none } :=
        ⟨hg.empty, hg.extent, hg.chain⟩
      refine leaves_loop (fun _ _ u => FileSafe vol u ∧ Growable vol.geometry u.2) ⟨h, hg'⟩ ?_
        fun _ _ h => h.1
      rintro i _ ⟨u, file'⟩ - - ⟨hu, hgu⟩
      refine leaves_mono _ (growRound_leaves hu hgu) ?_ fun _ h => h
      rintro (_ | _) v hv <;> exact hv
  · intro r u hu
    rcases r with _ | _
    · have hrest : Preserves (FileSafe vol) (do
          let written ← write vol input
          if written ≠ input.length then throw .corrupt
          else do
            let file ← getSnd
            updateStream vol file
            pure written : FileM ℕ) := by
        refine (keeps_write input).bind fun written => Preserves.ite (fun _ => Preserves.throw _)
          fun _ => ?_
        exact Preserves.getSnd.bind fun _ => (keeps_updateStream _).lift.bind fun _ =>
          Preserves.pure _
      exact Preserves.bind (Preserves.modifySnd _) (fun _ => hrest) u hu
    · exact hu

end ExfatEmbedded.StreamSafety
