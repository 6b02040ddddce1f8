import ExfatEmbedded.Library.Invariant
import ExfatEmbedded.Listing
import ExfatEmbedded.ReadSafety

/-!
The invariant of FAT writes, and the programs which claim clusters or write no entry.
-/

namespace ExfatEmbedded.FatWrites

open ExfatEmbedded.Library Exec ExfatEmbedded.Core ExfatEmbedded.Entry ExfatEmbedded.Allocation
open ExfatEmbedded.Lookup ExfatEmbedded.FileIo ExfatEmbedded.EntryWrite ExfatEmbedded.Mutation
open ExfatEmbedded.Mount ExfatEmbedded.Reading ExfatEmbedded.MountSafety ExfatEmbedded.ReadSafety

/-! ### FAT entries on the media -/

/-- The media with the FAT entry of cluster `c` replaced. -/
def setEntry (g : Geometry) (d : Sectors) (c v : ℕ) : Sectors := fun lba =>
  if lba = fatLba g c then Image.patch (d lba) (c * 4 % g.bytesPerSector) (leBytes 4 v) else d lba

/-- Sectors of the partition in front of the cluster heap. -/
def BelowHeap (g : Geometry) (lba : ℕ) : Prop :=
  lba < g.partition.firstLba + g.clusterHeapOffset

section Media

variable {g : Geometry} {n : ℕ}

lemma entry_disjoint {c c' : ℕ} (h : c ≠ c') (hlba : fatLba g c = fatLba g c') :
    c * 4 % g.bytesPerSector + 4 ≤ c' * 4 % g.bytesPerSector ∨
      c' * 4 % g.bytesPerSector + 4 ≤ c * 4 % g.bytesPerSector := by
  have hdiv : c * 4 / g.bytesPerSector = c' * 4 / g.bytesPerSector := by
    unfold fatLba at hlba
    omega
  have h1 := Nat.div_add_mod (c * 4) g.bytesPerSector
  have h2 := Nat.div_add_mod (c' * 4) g.bytesPerSector
  rw [hdiv] at h1
  omega

lemma fatEntry_setEntry_ne (d : Sectors) {c c' : ℕ} (v : ℕ) (h : c ≠ c') :
    fatEntry g (setEntry g d c v) c' = fatEntry g d c' := by
  unfold fatEntry setEntry
  by_cases hlba : fatLba g c' = fatLba g c
  · rw [if_pos hlba]
    have hdis := entry_disjoint h hlba.symm
    rw [Image.slice_patch_disjoint (by simp only [leBytes_length]; omega)]
  · rw [if_neg hlba]

lemma fatEntry_setEntry (d : Sectors) {c v : ℕ} (hv : v < 2 ^ 32) :
    fatEntry g (setEntry g d c v) c = v := by
  have h := Image.slice_patch_self (d (fatLba g c)) (c * 4 % g.bytesPerSector) (leBytes 4 v)
  rw [leBytes_length] at h
  unfold fatEntry setEntry
  rw [if_pos rfl, h, ofLe_leBytes_of_lt (by omega)]

lemma fatEntry_congr (hs : Sound g n) {d d' : Sectors} {c : ℕ} (hc : g.InHeap c)
    (h : ∀ lba, BelowHeap g lba → d' lba = d lba) : fatEntry g d' c = fatEntry g d c := by
  unfold fatEntry
  rw [h _ (hs.fatLba_lt hc)]

/-- What `set_fat` is to do: the write is for the entry of a cluster of the heap, that entry lies in
the active FAT, and the write changes nothing else. -/
structure Inside (g : Geometry) (w : FatWrite) : Prop where
  heap : g.InHeap w.cluster
  fat : fatStart g ≤ fatLba g w.cluster ∧ fatLba g w.cluster < fatStart g + g.fatLength
  bytes : ∀ lba i, w.after lba i ≠ w.before lba i → lba = fatLba g w.cluster ∧
    w.cluster * 4 % g.bytesPerSector ≤ i ∧ i < w.cluster * 4 % g.bytesPerSector + 4
  first : ∀ c < 2, fatEntry g w.after c = fatEntry g w.before c

lemma inside_setEntry (hs : Sound g n) (d : Sectors) {c v : ℕ} (hc : g.InHeap c) :
    Inside g ⟨c, d, setEntry g d c v⟩ := by
  have hindex := hs.fat_index hc
  have h2 := (hs.inHeap_iff.mp hc).1
  refine ⟨hc, ⟨by unfold fatLba; exact Nat.le_add_right _ _, by unfold fatLba; simp only; omega⟩,
    fun lba i hne => ?_, fun c' hc' => fatEntry_setEntry_ne d v (by omega)⟩
  simp only [setEntry] at hne
  split at hne
  · rename_i hlba
    refine ⟨hlba, ?_⟩
    unfold Image.patch at hne
    split at hne
    · rename_i hin
      simpa using hin
    · exact absurd rfl hne
  · exact absurd rfl hne

end Media

/-! ### The invariant -/

/-- All FAT writes so far were inside. -/
def AllInside (g : Geometry) (s : Machine) : Prop := ∀ w ∈ s.fatWrites, Inside g w

/-- The invariant of the operations. -/
structure FatSafe (vol : Volume) (s : Machine) : Prop where
  ready : Ready vol.geometry s
  inside : AllInside vol.geometry s

variable {vol : Volume} {s : Machine}

lemma FatSafe.of_eq {t : Machine} (h : FatSafe vol s)
    (hcount : t.device.sectorCount = s.device.sectorCount)
    (hscratch : t.scratch.len = s.scratch.len) (hwrites : t.fatWrites = s.fatWrites) :
    FatSafe vol t :=
  ⟨⟨hcount ▸ h.ready.sound, hscratch ▸ h.ready.scratch⟩, by
    unfold AllInside
    rw [hwrites]
    exact h.inside⟩

lemma FatSafe.quiet {p : Partition} {t : Machine} (h : FatSafe vol s) (hq : Quiet p s t) :
    FatSafe vol t := h.of_eq hq.sectorCount hq.scratchLen hq.fatWrites

/-! ### The primitives -/

lemma readSector_leaves {size lba : ℕ} (h : FatSafe vol s) :
    leaves (readSector size lba)
      (fun _ t => FatSafe vol t ∧ t.device.sectors = s.device.sectors ∧ Holds size lba t)
      (FatSafe vol) s := by
  unfold leaves readSector
  simp only
  split_ifs
  · exact h
  · exact h.of_eq rfl rfl rfl
  · exact h.of_eq rfl rfl rfl
  · refine ⟨h.of_eq rfl rfl rfl, rfl, fun i hi => ?_⟩
    change Image.splice _ _ _ i = _
    rw [Image.splice, if_pos hi]

lemma writeSector_leaves {size lba : ℕ} (h : FatSafe vol s) :
    leaves (writeSector size lba)
      (fun _ t => FatSafe vol t ∧
        t.device.sectors = s.device.sectors.write lba size s.scratch.bytes)
      (FatSafe vol) s := by
  unfold leaves writeSector
  simp only
  split_ifs
  · exact h
  · exact h.of_eq rfl rfl rfl
  · exact h.of_eq rfl rfl rfl
  · exact ⟨h.of_eq rfl rfl rfl, rfl⟩

lemma scratchSlice_leaves {size off n : ℕ} {Q : List UInt8 → Machine → Prop} (h : FatSafe vol s)
    (hQ : off + n ≤ size → Q (Image.slice s.scratch.bytes off n) s) :
    leaves (scratchSlice size off n) Q (FatSafe vol) s := by
  unfold scratchSlice
  simp only [leaves_bind, leaves_get, leaves_assert, leaves_pure]
  exact ⟨fun hp => hQ hp.1, fun _ => h⟩

lemma keeps_readSector (size lba : ℕ) : Preserves (FatSafe vol) (readSector size lba) :=
  fun _ h => leaves_mono _ (readSector_leaves h) (fun _ _ h => h.1) fun _ h => h

lemma keeps_writeSector (size lba : ℕ) : Preserves (FatSafe vol) (writeSector size lba) :=
  fun _ h => leaves_mono _ (writeSector_leaves h) (fun _ _ h => h.1) fun _ h => h

lemma keeps_scratchSlice (size off n : ℕ) :
    Preserves (FatSafe vol) (scratchSlice size off n) :=
  fun _ h => scratchSlice_leaves h fun _ => h

lemma keeps_scratchPatch (size off : ℕ) (bs : List UInt8) :
    Preserves (FatSafe vol) (scratchPatch size off bs) :=
  Preserves.get.bind fun _ => (Preserves.assert _).bind fun _ =>
    Preserves.modify fun _ h => h.of_eq rfl rfl rfl

lemma keeps_checked {σ : Type} {I : σ → Prop} (p : Prop) [Decidable p] (k : ℕ) :
    Preserves I (do assert p; pure k : Exec σ Error ℕ) :=
  (Preserves.assert p).bind fun _ => Preserves.pure k

lemma keeps_bytesPerCluster {σ : Type} {I : σ → Prop} (g : Geometry) :
    Preserves I (g.bytesPerCluster : Exec σ Error ℕ) := keeps_checked _ _

lemma keeps_clusterLba {σ : Type} {I : σ → Prop} (g : Geometry) (cluster : ℕ) :
    Preserves I (g.clusterLba cluster : Exec σ Error (Option ℕ)) :=
  Preserves.ite (fun _ => (keeps_checked _ _).bind fun _ => Preserves.pure _)
    fun _ => Preserves.pure _

lemma keeps_fatLbaForByte {σ : Type} {I : σ → Prop} (g : Geometry) (byte : ℕ) :
    Preserves I (g.fatLbaForByte byte : Exec σ Error (Option ℕ)) := by
  unfold Geometry.fatLbaForByte
  split
  · exact Preserves.pure _
  · split
    · exact Preserves.pure _
    · split
      · exact Preserves.pure _
      · exact (keeps_checked _ _).bind fun _ => Preserves.pure _

lemma fatLbaForByte_leaves {c : ℕ} {R : Machine → Prop} (h : R s) :
    leaves (vol.geometry.fatLbaForByte (c * 4) : FsM (Option ℕ))
      (fun o t => t = s ∧ ∀ lba, o = some lba → lba = fatLba vol.geometry c) R s := by
  unfold Geometry.fatLbaForByte
  split
  · exact ⟨rfl, nofun⟩
  · rename_i start hstart
    split
    · exact ⟨rfl, nofun⟩
    · rename_i skip hskip
      split
      · exact ⟨rfl, nofun⟩
      · rename_i fatStart' hfat
        have h1 := checkedAdd64_eq hstart
        have h2 := checkedMul64_eq hskip
        have h3 := checkedAdd64_eq hfat
        simp only [div, leaves_bind, leaves_assert, leaves_pure]
        refine ⟨fun _ => ⟨trivial, fun lba hlba => ?_⟩, fun _ => h⟩
        have h4 := checkedAdd64_eq hlba
        unfold fatLba fatStart
        omega

lemma nextCluster_leaves {c : ℕ} (h : FatSafe vol s) :
    leaves (nextCluster vol c)
      (fun v t => FatSafe vol t ∧ t.device.sectors = s.device.sectors ∧
        v = fatEntry vol.geometry s.device.sectors c) (FatSafe vol) s := by
  unfold nextCluster
  simp only [u64, rem, leaves_bind, leaves_assert, leaves_pure]
  refine ⟨fun _ => ?_, fun _ => h⟩
  refine leaves_mono _ (fatLbaForByte_leaves (R := FatSafe vol) h) ?_ fun _ h => h
  rintro o t ⟨rfl, ho⟩
  rw [leaves_okOr]
  refine ⟨fun lba hlba => ?_, fun _ => h⟩
  obtain rfl := ho lba hlba
  refine ⟨fun _ => ?_, fun _ => h⟩
  refine leaves_mono _ (readSector_leaves h) ?_ fun _ h => h
  rintro _ u ⟨hu, hsectors, hold⟩
  refine scratchSlice_leaves hu fun hfit => ⟨hu, hsectors, ?_⟩
  rw [hold.slice hfit, hsectors]
  rfl

lemma keeps_nextCluster (c : ℕ) : Preserves (FatSafe vol) (nextCluster vol c) :=
  fun _ h => leaves_mono _ (nextCluster_leaves h) (fun _ _ h => h.1) fun _ h => h

lemma setFat_leaves {c v : ℕ} (h : FatSafe vol s) (hc : vol.geometry.InHeap c) :
    leaves (setFat vol c v)
      (fun _ t => FatSafe vol t ∧
        t.device.sectors = setEntry vol.geometry s.device.sectors c v) (FatSafe vol) s := by
  have hoff := h.ready.sound.fat_offset_le c
  unfold setFat
  simp only [u64, rem, leaves_bind, leaves_assert, leaves_pure]
  refine ⟨fun _ => ?_, fun _ => h⟩
  refine leaves_mono _ (fatLbaForByte_leaves (R := FatSafe vol) h) ?_ fun _ h => h
  rintro o t ⟨rfl, ho⟩
  rw [leaves_okOr]
  refine ⟨fun lba hlba => ?_, fun _ => h⟩
  obtain rfl := ho lba hlba
  refine ⟨fun _ => ?_, fun _ => h⟩
  refine leaves_mono _ (readSector_leaves h) ?_ fun _ h => h
  rintro _ u ⟨hu, hsectors, hold⟩
  simp only [scratchPatch, leaves_bind, leaves_get, leaves_assert, leaves_modify]
  refine ⟨fun _ => ?_, fun _ => hu⟩
  -- the sector written is the one read, with the entry replaced
  have hwrite : u.device.sectors.write (fatLba vol.geometry c) vol.geometry.bytesPerSector
      (Image.patch u.scratch.bytes (c * 4 % vol.geometry.bytesPerSector) (leBytes 4 v)) =
      setEntry vol.geometry t.device.sectors c v := by
    rw [hsectors]
    funext lba i
    unfold Sectors.write setEntry
    split
    · rename_i hlba
      unfold Image.splice Image.patch
      rw [leBytes_length]
      split_ifs
      · rfl
      · rw [hold i (by assumption), hsectors, hlba]
      · omega
      · rw [hlba]
    · rfl
  have hinside := inside_setEntry (v := v) hu.ready.sound t.device.sectors hc
  have hlogged : FatSafe vol { u with
      scratch := { u.scratch with
        bytes := Image.patch u.scratch.bytes (c * 4 % vol.geometry.bytesPerSector) (leBytes 4 v) }
      fatWrites := ⟨c, u.device.sectors,
        u.device.sectors.write (fatLba vol.geometry c) vol.geometry.bytesPerSector
          (Image.patch u.scratch.bytes (c * 4 % vol.geometry.bytesPerSector) (leBytes 4 v))⟩ ::
        u.fatWrites } := by
    refine ⟨⟨hu.ready.sound, hu.ready.scratch⟩, fun w hw => ?_⟩
    rcases List.mem_cons.mp hw with rfl | hw
    · rw [hwrite, hsectors]
      exact hinside
    · exact hu.inside w hw
  refine leaves_mono _ (writeSector_leaves hlogged) ?_ fun _ h => h
  rintro _ w ⟨hw, hafter⟩
  exact ⟨hw, hafter.trans hwrite⟩

/-! ### The bitmap and the allocator -/

/-- An invariant which reading keeps. -/
structure ReadStable (I : Machine → Prop) : Prop where
  read : ∀ size lba, Preserves I (readSector size lba)
  slice : ∀ size off n, Preserves I (scratchSlice size off n)

lemma readStable_fatSafe : ReadStable (FatSafe vol) := ⟨keeps_readSector, keeps_scratchSlice⟩

namespace ReadStable

variable {I : Machine → Prop} (h : ReadStable I)

include h

lemma nextCluster (c : ℕ) : Preserves I (nextCluster vol c) := by
  unfold Allocation.nextCluster
  refine (keeps_checked _ _).bind fun _ => (keeps_fatLbaForByte _ _).bind fun _ => ?_
  refine (Preserves.okOr _ _).bind fun _ => (keeps_checked _ _).bind fun _ => ?_
  exact (h.read _ _).bind fun _ => (h.slice _ _ _).bind fun _ => Preserves.pure _

lemma clusterAt (first index : ℕ) : Preserves I (clusterAt vol first index) := by
  unfold Allocation.clusterAt
  refine Preserves.ite (fun _ => Preserves.throw _) fun _ => ?_
  refine (Preserves.loop (fun _ c => ?_) _ _ _).bind fun r => ?_
  · exact (h.nextCluster c).bind fun _ =>
      Preserves.ite (fun _ => Preserves.pure _) fun _ => Preserves.throw _
  · rcases r with r | c
    · exact r.elim
    · exact Preserves.pure _

lemma upcaseWord (byte : ℕ) : Preserves I (upcaseWord vol byte) := by
  unfold Lookup.upcaseWord
  refine (keeps_checked _ _).bind fun stop => Preserves.ite (fun _ => Preserves.throw _) fun _ => ?_
  refine (keeps_bytesPerCluster _).bind fun _ => (keeps_checked _ _).bind fun index => ?_
  refine (h.clusterAt _ _).bind fun cluster => (keeps_checked _ _).bind fun within => ?_
  refine (keeps_clusterLba _ _).bind fun _ => (Preserves.okOr _ _).bind fun base => ?_
  refine (keeps_checked _ _).bind fun _ => (keeps_checked _ _).bind fun lba => ?_
  refine (keeps_checked _ _).bind fun _ => (keeps_checked _ _).bind fun _ => ?_
  exact Preserves.ite (fun _ => Preserves.throw _) fun _ => (h.read _ _).bind fun _ =>
    (h.slice _ _ _).bind fun _ => Preserves.pure _

lemma upcaseRound (unit : ℕ) (v : ℕ × ℕ) : Preserves I (upcaseRound vol unit v) := by
  obtain ⟨code, byte⟩ := v
  unfold Lookup.upcaseRound
  refine (keeps_checked _ _).bind fun _ => Preserves.ite (fun _ => Preserves.pure _) fun _ => ?_
  refine (h.upcaseWord _).bind fun value => (keeps_checked _ _).bind fun byte => ?_
  refine Preserves.ite (fun _ => ?_) fun _ => Preserves.ite (fun _ => Preserves.pure _) fun _ => ?_
  · refine (keeps_checked _ _).bind fun _ => Preserves.ite (fun _ => Preserves.throw _) fun _ => ?_
    refine (h.upcaseWord _).bind fun _ => (keeps_checked _ _).bind fun _ => ?_
    refine (Preserves.okOr _ _).bind fun _ => ?_
    exact Preserves.ite (fun _ => Preserves.pure _) fun _ => Preserves.pure _
  · exact (keeps_checked _ _).bind fun _ => Preserves.pure _

lemma upcaseUnit (unit : ℕ) : Preserves I (upcaseUnit vol unit) := by
  unfold Lookup.upcaseUnit
  refine Preserves.ite (fun _ => Preserves.ite (fun _ => Preserves.pure _) fun _ =>
    Preserves.pure _) fun _ => Preserves.ite (fun _ => Preserves.throw _) fun _ => ?_
  refine (Preserves.loop (fun _ v => h.upcaseRound unit v) _ _ _).bind fun r => ?_
  rcases r with (_ | v) | _
  · exact Preserves.throw _
  · exact Preserves.pure _
  · exact Preserves.panic

lemma upcaseNameHash (units : List ℕ) (sum : ℕ) : Preserves I (upcaseNameHash vol units sum) := by
  induction units generalizing sum with
  | nil => exact Preserves.pure _
  | cons unit units ih => exact (h.upcaseUnit unit).bind fun _ => ih _

end ReadStable

lemma clusterAt_leaves {first index : ℕ} (h : FatSafe vol s) :
    leaves (clusterAt vol first index)
      (fun c t => FatSafe vol t ∧ t.device.sectors = s.device.sectors ∧
        c = link vol.geometry s.device.sectors first index ∧
        ∀ i, 0 < i → i ≤ index →
          vol.geometry.InHeap (link vol.geometry s.device.sectors first i))
      (FatSafe vol) s := by
  unfold clusterAt
  rw [leaves_ite]
  refine ⟨fun _ => h, fun _ => ?_⟩
  rw [leaves_bind]
  refine leaves_loop (fun i c t => FatSafe vol t ∧ t.device.sectors = s.device.sectors ∧
    c = link vol.geometry s.device.sectors first i ∧
    ∀ j, 0 < j → j ≤ i → vol.geometry.InHeap (link vol.geometry s.device.sectors first j)) ?_ ?_ ?_
  · exact ⟨h, rfl, rfl, fun j h1 h2 => by omega⟩
  · rintro i c t - - ⟨ht, hsectors, rfl, hin⟩
    rw [leaves_bind]
    refine leaves_mono _ (nextCluster_leaves ht) ?_ fun _ h => h
    rintro v u ⟨hu, hsectors', rfl⟩
    rw [hsectors, ← link_succ, leaves_ite]
    refine ⟨fun hheap => ⟨hu, hsectors'.trans hsectors, rfl, fun j h1 h2 => ?_⟩, fun _ => hu⟩
    rcases Nat.lt_or_ge i j with hij | hij
    · obtain rfl : j = i + 1 := by omega
      exact hheap
    · exact hin j h1 hij
  · rintro c t ⟨ht, hsectors, rfl, hin⟩
    rw [Nat.zero_add] at hin ⊢
    exact ⟨ht, hsectors, rfl, hin⟩

lemma bitmapLocation_leaves {byte : ℕ} (h : FatSafe vol s) :
    leaves (bitmapLocation vol byte)
      (fun p t => FatSafe vol t ∧ t.device.sectors = s.device.sectors ∧
        ¬ BelowHeap vol.geometry p.1) (FatSafe vol) s := by
  unfold bitmapLocation
  simp only [h.ready.sound.bytesPerCluster_eq, pure_bind, div, rem, u64, leaves_ite, leaves_throw,
    leaves_bind, leaves_assert, leaves_pure]
  refine ⟨fun _ => h, fun _ => ⟨fun _ => ?_, fun _ => h⟩⟩
  refine leaves_mono _ (clusterAt_leaves h) ?_ fun _ h => h
  rintro c t ⟨ht, hsectors, -⟩
  refine ⟨fun _ => ?_, fun _ => ht⟩
  by_cases hc : vol.geometry.InHeap c
  swap
  · rw [Sound.clusterLba_none hc]
    exact ht
  rw [h.ready.sound.clusterLba_eq hc, leaves_pure, leaves_okOr]
  refine ⟨fun base hbase => ?_, fun h => absurd h (Option.some_ne_none _)⟩
  cases hbase
  refine ⟨fun _ => ⟨fun _ => ⟨fun _ => ⟨ht, hsectors, ?_⟩, fun _ => ht⟩, fun _ => ht⟩, fun _ => ht⟩
  unfold BelowHeap heapLba
  generalize _ / vol.geometry.bytesPerSector = q
  omega

lemma keeps_bitmapLocation (byte : ℕ) : Preserves (FatSafe vol) (bitmapLocation vol byte) :=
  fun _ h => leaves_mono _ (bitmapLocation_leaves h) (fun _ _ h => h.1) fun _ h => h

lemma keeps_bitmapUsed (c : ℕ) : Preserves (FatSafe vol) (bitmapUsed vol c) :=
  (Preserves.okOr _ _).bind fun _ => (keeps_bitmapLocation _).bind fun _ =>
    (keeps_readSector _ _).bind fun _ => (keeps_scratchSlice _ _ _).bind fun _ => Preserves.pure _

lemma setBitmap_leaves {c : ℕ} {used : Bool} (h : FatSafe vol s) :
    leaves (setBitmap vol c used)
      (fun _ t => FatSafe vol t ∧
        ∀ lba, BelowHeap vol.geometry lba → t.device.sectors lba = s.device.sectors lba)
      (FatSafe vol) s := by
  unfold setBitmap
  simp only [leaves_bind, leaves_okOr]
  refine ⟨fun p _ => ?_, fun _ => h⟩
  refine leaves_mono _ (bitmapLocation_leaves h) ?_ fun _ h => h
  rintro ⟨lba, offset⟩ t ⟨ht, hsectors, hheap⟩
  simp only
  refine leaves_mono _ (readSector_leaves ht) ?_ fun _ h => h
  rintro _ u ⟨hu, hsectors', -⟩
  refine scratchSlice_leaves hu fun _ => ?_
  rw [leaves_ite]
  refine ⟨fun _ => ⟨hu, fun _ _ => by rw [hsectors', hsectors]⟩, fun _ => ?_⟩
  have hadjust : leaves (adjustFree vol used u.freeClusters) (fun _ v => v = u)
      (FatSafe vol) u := by
    unfold adjustFree
    split
    · rfl
    · simp only [leaves_ite, leaves_bind, leaves_okOr, leaves_pure, leaves_throw]
      exact ⟨fun _ => ⟨fun _ _ => trivial, fun _ => hu⟩,
        fun _ => ⟨fun _ _ => ⟨fun _ => trivial, fun _ => hu⟩, fun _ => hu⟩⟩
  simp only [leaves_bind, leaves_get]
  refine leaves_mono _ hadjust ?_ fun _ h => h
  rintro free v rfl
  simp only [scratchPatch, leaves_bind, leaves_get, leaves_assert, leaves_modify]
  refine ⟨fun _ => ?_, fun _ => hu⟩
  refine leaves_mono _ (writeSector_leaves (hu.of_eq rfl rfl rfl)) ?_ fun _ h => h
  rintro _ w ⟨hw, hafter⟩
  refine ⟨hw.of_eq rfl rfl rfl, fun lba' hbelow => ?_⟩
  have hne : lba' ≠ lba := by
    rintro rfl
    exact hheap hbelow
  rw [hafter, Sectors.write, if_neg hne]
  change v.device.sectors lba' = _
  rw [hsectors', hsectors]

lemma keeps_setBitmap (c : ℕ) (used : Bool) : Preserves (FatSafe vol) (setBitmap vol c used) :=
  fun _ h => leaves_mono _ (setBitmap_leaves h) (fun _ _ h => h.1) fun _ h => h

lemma claimFreeCluster_leaves {c : ℕ} (h : FatSafe vol s) :
    leaves (claimFreeCluster vol c)
      (fun o t => FatSafe vol t ∧ ∀ c', o = some c' → c' = c ∧ vol.geometry.InHeap c)
      (FatSafe vol) s := by
  unfold claimFreeCluster
  rw [leaves_bind]
  refine leaves_mono _ (keeps_bitmapUsed c s h) ?_ fun _ h => h
  intro used t ht
  rw [leaves_ite]
  refine ⟨fun _ => ⟨ht, nofun⟩, fun _ => ?_⟩
  by_cases hc : vol.geometry.InHeap c
  swap
  · rw [Sound.clusterLba_none hc]
    exact ht
  rw [ht.ready.sound.clusterLba_eq hc, pure_bind, okOr_some, pure_bind, leaves_bind]
  have hzero : Preserves (FatSafe vol) (Exec.loop (ρ := Empty) (fun sector _ => do
      scratchPatch vol.geometry.bytesPerSector 0 (List.replicate vol.geometry.bytesPerSector 0)
      let lba ← u64 (heapLba vol.geometry c + sector)
      writeSector vol.geometry.bytesPerSector lba
      pure (.inr ())) 0 vol.geometry.sectorsPerCluster () : FsM (Empty ⊕ Unit)) :=
    Preserves.loop (fun _ _ => (keeps_scratchPatch _ _ _).bind fun _ =>
      (keeps_checked _ _).bind fun _ => (keeps_writeSector _ _).bind fun _ =>
        Preserves.pure _) _ _ _
  refine leaves_mono _ (hzero t ht) ?_ fun _ h => h
  rintro (r | _) u hu
  · exact r.elim
  simp only [leaves_bind]
  refine leaves_mono _ (keeps_setBitmap c true u hu) ?_ fun _ h => h
  intro _ v hv
  refine leaves_mono _ (setFat_leaves hv hc) ?_ fun _ h => h
  rintro _ w ⟨hw, -⟩
  exact ⟨hw, fun c' hc' => ⟨(Option.some.inj hc').symm, hc⟩⟩

lemma claimFirstFree_leaves {first n : ℕ} (h : FatSafe vol s) :
    leaves (claimFirstFree vol first n)
      (Sum.elim (fun c t => FatSafe vol t ∧ vol.geometry.InHeap c) fun _ => FatSafe vol)
      (FatSafe vol) s := by
  refine leaves_loop (fun _ _ => FatSafe vol) h (fun c _ t _ _ ht => ?_) fun _ _ h => h
  rw [leaves_bind]
  refine leaves_mono _ (claimFreeCluster_leaves ht) ?_ fun _ h => h
  rintro (_ | c') u ⟨hu, hc⟩
  · exact hu
  · obtain ⟨rfl, hin⟩ := hc c' rfl
    exact ⟨hu, hin⟩

lemma allocateClusterPreferred_leaves {preferred : ℕ} (h : FatSafe vol s) :
    leaves (allocateClusterPreferred vol preferred)
      (fun c t => FatSafe vol t ∧ vol.geometry.InHeap c) (FatSafe vol) s := by
  unfold allocateClusterPreferred
  simp only [leaves_bind, leaves_okOr]
  refine ⟨fun stop _ => ?_, fun _ => h⟩
  refine leaves_mono _ (claimFirstFree_leaves h) ?_ fun _ h => h
  rintro (c | _) t ht
  · exact ht
  · rw [leaves_bind]
    refine leaves_mono _ (claimFirstFree_leaves ht) ?_ fun _ h => h
    rintro (c | _) u hu
    · exact hu
    · exact hu

lemma keeps_allocateClusterPreferred (preferred : ℕ) :
    Preserves (FatSafe vol) (allocateClusterPreferred vol preferred) :=
  fun _ h => leaves_mono _ (allocateClusterPreferred_leaves h) (fun _ _ h => h.1) fun _ h => h

/-! ### Programs without a FAT write -/

lemma keeps_upcaseNameHash (units : List ℕ) (sum : ℕ) :
    Preserves (FatSafe vol) (upcaseNameHash vol units sum) :=
  readStable_fatSafe.upcaseNameHash units sum

lemma keeps_patchSlot (locator : EntryLocator) (off : ℕ) (bs : List UInt8) :
    Preserves (FatSafe vol) (patchSlot vol locator off bs) :=
  (keeps_readSector _ _).bind fun _ => (keeps_scratchPatch _ _ _).bind fun _ =>
    keeps_writeSector _ _

lemma keeps_writeSlots (c : NewEntrySet) (count nameHash : ℕ) (locators : List EntryLocator)
    (index checksum : ℕ) :
    Preserves (FatSafe vol) (writeSlots vol c count nameHash locators index checksum) := by
  induction locators generalizing index checksum with
  | nil => exact Preserves.pure _
  | cons locator rest ih =>
    exact Preserves.ite (fun _ => Preserves.throw _) fun _ =>
      (keeps_patchSlot _ _ _).bind fun _ => ih _ _

lemma keeps_writeEntrySet (locators : List EntryLocator) (c : NewEntrySet) :
    Preserves (FatSafe vol) (writeEntrySet vol locators c) :=
  Preserves.ite (fun _ => Preserves.throw _) fun _ => (keeps_upcaseNameHash _ _).bind fun _ =>
    (keeps_writeSlots _ _ _ _ _ _).bind fun _ => keeps_patchSlot _ _ _

lemma keeps_readChecksum (checked : Bool) (locators : List EntryLocator) (primary : Bool)
    (checksum : ℕ) :
    Preserves (FatSafe vol) (readChecksum vol checked locators primary checksum) := by
  induction locators generalizing primary checksum with
  | nil => exact Preserves.pure _
  | cons locator rest ih =>
    exact Preserves.ite (fun _ => Preserves.throw _) fun _ => (keeps_readSector _ _).bind fun _ =>
      (keeps_scratchSlice _ _ _).bind fun _ => ih _ _

lemma keeps_updateStream (file : File) : Preserves (FatSafe vol) (updateStream vol file) := by
  unfold updateStream
  refine Preserves.ite (fun _ => Preserves.throw _) fun _ => (keeps_readSector _ _).bind fun _ => ?_
  refine Preserves.ite (fun _ => Preserves.throw _) fun _ => ?_
  refine (keeps_scratchPatch _ _ _).bind fun _ => (keeps_scratchPatch _ _ _).bind fun _ => ?_
  refine (keeps_scratchPatch _ _ _).bind fun _ => (keeps_scratchPatch _ _ _).bind fun _ => ?_
  refine (keeps_writeSector _ _).bind fun _ => (keeps_readChecksum _ _ _ _).bind fun _ => ?_
  refine (keeps_readSector _ _).bind fun _ => Preserves.ite (fun _ => Preserves.throw _) fun _ => ?_
  exact (keeps_scratchPatch _ _ _).bind fun _ => keeps_writeSector _ _

lemma keeps_retireSlots (locators : List EntryLocator) :
    Preserves (FatSafe vol) (retireSlots vol locators) := by
  induction locators with
  | nil => exact Preserves.pure _
  | cons locator rest ih =>
    exact Preserves.ite (fun _ => Preserves.throw _) fun _ => (keeps_readSector _ _).bind fun _ =>
      (keeps_scratchSlice _ _ _).bind fun _ => (keeps_scratchPatch _ _ _).bind fun _ =>
        (keeps_writeSector _ _).bind fun _ => ih

/-- The invariant of the programs on a handle. -/
abbrev FileSafe (vol : Volume) (t : Machine × File) : Prop := FatSafe vol t.1

lemma keeps_walkChain (first index count cluster : ℕ) :
    Preserves (FatSafe vol) (walkChain vol first index count cluster) := by
  unfold walkChain
  refine (Preserves.loop (fun _ previous => ?_) _ _ _).bind fun r => ?_
  · refine (keeps_nextCluster _).bind fun _ => (keeps_checked _ _).bind fun _ => ?_
    refine Preserves.ite (fun _ => Preserves.pure _) fun _ => ?_
    exact (keeps_checked _ _).bind fun _ => (keeps_fatLbaForByte _ _).bind fun _ =>
      (Preserves.okOr _ _).bind fun _ => Preserves.throw _
  · rcases r with r | c
    · exact r.elim
    · exact Preserves.pure _

lemma keeps_fileClusterAt (wanted : ℕ) : Preserves (FileSafe vol) (fileClusterAt vol wanted) := by
  unfold fileClusterAt
  refine Preserves.getSnd.bind fun file => Preserves.ite (fun _ => Preserves.throw _) fun _ => ?_
  refine Preserves.ite (fun _ => ?_) fun _ => ?_
  · refine (Preserves.okOr _ _).bind fun _ => (Preserves.okOr _ _).bind fun _ => ?_
    exact Preserves.ite (fun _ => Preserves.pure _) fun _ => Preserves.throw _
  · refine Preserves.ite (fun _ => Preserves.throw _) fun _ => ?_
    exact (keeps_walkChain _ _ _ _).lift.bind fun _ => (Preserves.modifySnd _).bind fun _ =>
      Preserves.pure _

lemma keeps_filePosition : Preserves (FileSafe vol) (filePosition vol) := by
  unfold filePosition
  refine (keeps_bytesPerCluster _).bind fun _ => Preserves.getSnd.bind fun _ => ?_
  refine (keeps_checked _ _).bind fun _ => (keeps_fileClusterAt _).bind fun _ => ?_
  refine (keeps_checked _ _).bind fun _ => (keeps_clusterLba _ _).bind fun _ => ?_
  refine (Preserves.okOr _ _).bind fun _ => (keeps_checked _ _).bind fun _ => ?_
  exact (keeps_checked _ _).bind fun _ => (keeps_checked _ _).bind fun _ => Preserves.pure _

lemma keeps_writeRound (wanted : ℕ) (input : List UInt8) (done : ℕ) :
    Preserves (FileSafe vol) (writeRound vol wanted input done) := by
  unfold writeRound
  refine Preserves.ite (fun _ => Preserves.pure _) fun _ => ?_
  refine keeps_filePosition.bind fun p => (keeps_checked _ _).bind fun inSector => ?_
  refine (Preserves.when (keeps_readSector _ _).lift).bind fun _ => ?_
  refine (keeps_scratchPatch _ _ _).lift.bind fun _ => (keeps_writeSector _ _).lift.bind fun _ => ?_
  refine Preserves.bind ?_ fun _ => Preserves.pure _
  exact Preserves.getSnd.bind fun _ => (keeps_checked _ _).bind fun _ => Preserves.modifySnd _

lemma keeps_write (input : List UInt8) : Preserves (FileSafe vol) (write vol input) := by
  unfold write
  refine Preserves.getSnd.bind fun file => Preserves.ite (fun _ => Preserves.pure _) fun _ => ?_
  refine (keeps_checked _ _).bind fun left => ?_
  refine (Preserves.loop (fun _ done => keeps_writeRound _ _ done) _ _ _).bind fun r => ?_
  rcases r with done | _
  · exact Preserves.pure _
  · exact Preserves.panic

/-! ### Programs on a workspace -/

/-- The invariant of the programs on a workspace. -/
structure Tame (vol : Volume) (t : Machine × Workspace) : Prop where
  fat : FatSafe vol t.1
  bounded : Bounded t.2

lemma tame_lift {α : Type} {m : FsM α} (h : Preserves (FatSafe vol) m) :
    Preserves (Tame vol) (liftM m : WsM α) := by
  intro t ht
  rw [leaves_lift]
  exact leaves_mono _ (h t.1 ht.fat) (fun _ _ h => ⟨h, ht.bounded⟩) fun _ h => ⟨h, ht.bounded⟩

lemma tame_of_safe {α : Type} {m : WsM α} (h : ∀ s0, Ready vol.geometry s0 → Safe vol s0 m) :
    Preserves (Tame vol) m := by
  intro t ht
  refine leaves_of_wp (wp_mono _ (h t.1 ht.fat.ready t ⟨Quiet.refl _ _, ht.bounded⟩) ?_
    fun _ _ h => h) fun _ _ h => ⟨ht.fat.quiet h.quiet, h.bounded⟩
  exact fun _ _ h => ⟨ht.fat.quiet h.quiet, h.bounded⟩

lemma tame_getSnd : Preserves (Tame vol) (getSnd : WsM Workspace) := fun _ h => h

lemma tame_modifyLocators (f : List EntryLocator → List EntryLocator) :
    Preserves (Tame vol) (modifyLocators f) := fun _ h => ⟨h.fat, h.bounded.utf16, h.bounded.name⟩

lemma tame_utf8ToUtf16 (name : List Char) :
    Preserves (Tame vol) (onUtf16 (utf8ToUtf16 name)) :=
  tame_of_safe fun _ _ => safe_utf8ToUtf16 name

lemma withNewWorkspace_keeps {α : Type} {m : WsM α} (h : Preserves (Tame vol) m) :
    Preserves (FatSafe vol) (withNewWorkspace m) := by
  intro s hs
  unfold withNewWorkspace
  simp only [leaves_bind, leaves_withSnd]
  exact leaves_mono _ (h (s, Workspace.new) ⟨hs, bounded_new⟩) (fun _ _ h => h.fat) fun _ h => h.fat

lemma tame_freeSlot (wanted lba slot run : ℕ) :
    Preserves (Tame vol) (freeSlot vol wanted lba slot run) := by
  unfold freeSlot
  refine (tame_lift (keeps_scratchSlice _ _ _)).bind fun raw => ?_
  refine Preserves.ite (fun _ => ?_) fun _ => Preserves.pure _
  refine (Preserves.when (tame_modifyLocators _)).bind fun _ => ?_
  exact Preserves.ite (fun _ => tame_getSnd.bind fun _ => Preserves.pure _) fun _ =>
    Preserves.pure _

lemma tame_freeSector (dir : Directory) (wanted base sector : ℕ) (v : ℕ × ℕ) :
    Preserves (Tame vol) (freeSector vol dir wanted base sector v) := by
  obtain ⟨run, remaining⟩ := v
  unfold freeSector
  refine Preserves.ite (fun _ => Preserves.throw _) fun _ => (keeps_checked _ _).bind fun lba => ?_
  refine (tame_lift (keeps_readSector _ _)).bind fun _ => ?_
  refine (Preserves.loop (fun _ _ => tame_freeSlot _ _ _ _) _ _ _).bind fun r => ?_
  rcases r with r | run
  · exact Preserves.pure _
  · exact Preserves.pure _

lemma growDirectory_leaves {dir : Directory} {cluster base : ℕ} (h : FatSafe vol s)
    (hc : vol.geometry.InHeap cluster) :
    leaves (growDirectory vol dir cluster base) (fun _ => FatSafe vol) (FatSafe vol) s := by
  unfold growDirectory
  simp only [leaves_bind, leaves_okOr]
  refine ⟨fun preferred _ => ?_, fun _ => h⟩
  refine leaves_mono _ (allocateClusterPreferred_leaves h) ?_ fun _ h => h
  rintro new t ⟨ht, -⟩
  refine leaves_mono _ (setFat_leaves ht hc) ?_ fun _ h => h
  rintro _ u ⟨hu, -⟩
  have hrest : Preserves (FatSafe vol) (do
      let lastLba ← u64 (base + (← sub vol.geometry.sectorsPerCluster 1))
      readSector vol.geometry.bytesPerSector lastLba
      modify fun s => { s with scratch := { s.scratch with
        bytes := fillEndMarkers s.scratch.bytes vol.geometry.bytesPerSector } }
      writeSector vol.geometry.bytesPerSector lastLba
      if dir.dataLength ≠ 0 then do
        let clusterBytes ← vol.geometry.bytesPerCluster
        let dataLength ← okOr .noSpace (checkedAdd64 dir.dataLength clusterBytes)
        let dir := { dir with dataLength := dataLength }
        let primary ← okOr .corrupt dir.primary
        let stream ← okOr .corrupt dir.stream
        updateStream vol (Directory.meta dir primary stream)
        pure (dir, new)
      else pure (dir, new) : FsM (Directory × ℕ)) := by
    refine (keeps_checked _ _).bind fun _ => (keeps_checked _ _).bind fun lastLba => ?_
    refine (keeps_readSector _ _).bind fun _ => ?_
    refine (Preserves.modify fun _ h => h.of_eq rfl rfl rfl).bind fun _ => ?_
    refine (keeps_writeSector _ _).bind fun _ => Preserves.ite (fun _ => ?_) fun _ =>
      Preserves.pure _
    refine (keeps_bytesPerCluster _).bind fun _ => (Preserves.okOr _ _).bind fun _ => ?_
    refine (Preserves.okOr _ _).bind fun _ => (Preserves.okOr _ _).bind fun _ => ?_
    exact (keeps_updateStream _).bind fun _ => Preserves.pure _
  have := hrest u hu
  simpa only [leaves_bind] using this

lemma tame_freeCluster (dir : Directory) (wanted : ℕ) (v : ℕ × ℕ × ℕ) :
    Preserves (Tame vol) (freeCluster vol dir wanted v) := by
  obtain ⟨cluster, run, remaining⟩ := v
  intro t ht
  unfold freeCluster
  simp only
  by_cases hc : vol.geometry.InHeap cluster
  swap
  · rw [Sound.clusterLba_none hc]
    exact ht
  rw [ht.fat.ready.sound.clusterLba_eq hc, pure_bind, okOr_some, pure_bind]
  refine Preserves.bind (Preserves.loop (fun sector v =>
    tame_freeSector dir wanted (heapLba vol.geometry cluster) sector v) _ _ _) (fun r => ?_) t ht
  rcases r with r | ⟨run, remaining⟩
  · exact Preserves.pure _
  refine Preserves.ite (fun _ => Preserves.throw _) fun _ => ?_
  refine (tame_lift (keeps_nextCluster _)).bind fun next => ?_
  refine Preserves.ite (fun _ => Preserves.ite (fun _ => Preserves.throw _) fun _ =>
    Preserves.pure _) fun _ => ?_
  refine Preserves.bind (tame_lift fun s hs => growDirectory_leaves hs hc) fun p => ?_
  refine Preserves.ite (fun _ => ?_) fun _ => Preserves.pure _
  refine (keeps_clusterLba _ _).bind fun _ => (Preserves.okOr _ _).bind fun newLba => ?_
  refine (keeps_checked _ _).bind fun needed => Preserves.ite (fun _ => ?_) fun _ =>
    Preserves.pure _
  exact (tame_modifyLocators _).bind fun _ => tame_getSnd.bind fun _ => Preserves.pure _

lemma tame_findFreeEntries (dir : Directory) (wanted : ℕ) :
    Preserves (Tame vol) (findFreeEntries vol dir wanted) := by
  have hscan (dir : Directory) : Preserves (Tame vol) (freeScan vol wanted dir) := by
    unfold freeScan
    refine (tame_modifyLocators _).bind fun _ => ?_
    refine (Preserves.loop (fun _ v => tame_freeCluster dir wanted v) _ _ _).bind fun r => ?_
    rcases r with r | _
    · exact Preserves.pure _
    · exact Preserves.throw _
  unfold findFreeEntries
  refine Preserves.ite (fun _ => Preserves.throw _) fun _ => ?_
  refine (Preserves.loop (fun _ dir => hscan dir) _ _ _).bind fun r => ?_
  rcases r with r | _
  · exact Preserves.pure _
  · exact Preserves.panic

end ExfatEmbedded.FatWrites
