import ExfatEmbedded.Layout

/-!
What `remove` and `truncate(0)` leave of the allocation bitmap.
-/

namespace ExfatEmbedded.Removal

open ExfatEmbedded.Library Exec ExfatEmbedded.Core ExfatEmbedded.Entry ExfatEmbedded.Allocation
open ExfatEmbedded.Lookup ExfatEmbedded.FileIo ExfatEmbedded.EntryWrite ExfatEmbedded.Mutation
open ExfatEmbedded.Mount ExfatEmbedded.Reading ExfatEmbedded.Scan ExfatEmbedded.Sets
open ExfatEmbedded.ReadSafety ExfatEmbedded.MountSafety ExfatEmbedded.StreamSafety
open ExfatEmbedded.Media ExfatEmbedded.Writing ExfatEmbedded.Tree ExfatEmbedded.Commit
open ExfatEmbedded.Release ExfatEmbedded.Layout ExfatEmbedded.Listing

variable {ζ : Horizon} {vol : Volume} {s : Machine} {path : List Char} {e : DirectoryEntry}

/-! ### Runs which begin with a lookup -/

lemma wp_withNewWorkspace {α : Type} {Q : α → Machine → Prop} {E : Error → Machine → Prop}
    (m : WsM α) : wp (withNewWorkspace m) Q E s =
      wp m (fun a t => Q a t.1) (fun e t => E e t.1) (s, Workspace.new) := by
  unfold withNewWorkspace
  rw [wp_bind, wp_withSnd]
  rfl

lemma withNewWorkspace_outcome {α : Type} (m : WsM α) (s : Machine) :
    (withNewWorkspace m s).1 = (m (s, Workspace.new)).1 := by
  unfold withNewWorkspace
  rw [bind_apply, withSnd]
  rcases m (s, Workspace.new) with ⟨_ | _ | _, t⟩
  · rfl
  · rfl
  · rfl

lemma lookup_run (h : (lookup vol path s).1 = .ok e) :
    ∃ t, lookupWithWorkspace vol path (s, Workspace.new) = (.ok e, t) := by
  unfold lookup at h
  rw [withNewWorkspace_outcome] at h
  exact ⟨_, run_eq h⟩

lemma wp_lookup {α : Type} {f : DirectoryEntry → WsM α} {Q : α → Machine × Workspace → Prop}
    {E : Error → Machine × Workspace → Prop} (hwf : WellFormed ζ vol s)
    (hlookup : (lookup vol path s).1 = .ok e)
    (hf : ∀ t, Resolved ζ vol s e t → wp (f e) Q E t) :
    wp (lookupWithWorkspace vol path >>= f) Q E (s, Workspace.new) := by
  obtain ⟨t, ht⟩ := lookup_run hlookup
  have hres := @lookup_resolved ζ _ _ hwf.ready hwf.table hwf.allEnd hwf.rootEnds path _
    (calm_new s) rfl
  rw [wp_ok ht] at hres
  rw [wp_bind, wp_ok ht]
  exact hf t hres

/-! ### The bitmap behind a removal -/

lemma isOccupied_based {bm : List ℕ} (hs : Base vol bm s) :
    wp (isOccupied vol e) (fun _ t => Became vol bm s t s.device.sectors) (fun _ _ => True) s := by
  unfold isOccupied
  rcases e.directory with _ | dir
  · exact Became.refl hs
  · unfold firstDirectoryEntry
    simp only [wp_bind, wp_withSnd, wp_pure]
    exact wp_mono _ (readDirectory_spec hs.ready) (fun _ _ h => (wrote_of_quiet h.1).same hs)
      fun _ _ _ => trivial

/-- The media behind a removal. -/
def removedMedia (vol : Volume) (d : Sectors) (e : DirectoryEntry) : Sectors :=
  let retiredSet := retired d (e.entryLocs.take e.entryCount)
  released vol.geometry (bitmapClusters vol d) retiredSet
    (freedBy vol.geometry retiredSet e.firstCluster e.noFatChain
      (clustersFor vol.geometry e.dataLength))

lemma streamOf_onlySlots {L : List EntryLocator} {d d' : Sectors} {bm : List ℕ}
    (h : OnlySlots L d d') {n : ℕ} (hs : Sound vol.geometry n) (hL : AllPlaced vol.geometry bm L)
    (hheap : ∀ c ∈ streamOf vol.geometry d e, vol.geometry.InHeap c) :
    streamOf vol.geometry d' e = streamOf vol.geometry d e :=
  extent_eq fun _ _ hi => h.fatEntry_eq hs hL (hheap _ (nthCluster_mem (Nat.lt_of_succ_lt hi)))

lemma remove_based (hwf : WellFormed ζ vol s)
    (hlookup : (lookup vol (trimSlashes path) s).1 = .ok e) :
    wp (remove vol path)
      (fun _ t => Became vol (bitmapClusters vol s.device.sectors) s t
        (removedMedia vol s.device.sectors e)) (fun _ _ => True) s := by
  unfold remove
  rw [wp_withNewWorkspace]
  refine wp_lookup hwf hlookup fun t ht => ?_
  obtain ⟨D, hD, he⟩ := ht.inTree
  have hplaced := hwf.placed hD he.locs.1
  obtain ⟨hlen, -, hfirst, -⟩ := he.fields
  have hquiet := (wrote_of_quiet ht.calm.quiet).same hwf.base
  have hfree := hwf.freeable hD he
  simp only [removeEntryTree, wp_lift, wp_bind, wp_ite, wp_throw]
  refine wp_mono _ (isOccupied_based hquiet.base) ?_ fun _ _ _ => trivial
  intro occupied u hu
  refine ⟨fun _ => trivial, fun _ => ?_⟩
  have hsu := hquiet.trans hu
  rw [ht.calm.quiet.sectors] at hsu
  refine wp_mono _ (retireSlots_based hsu.base hplaced) ?_ fun _ _ _ => trivial
  intro _ v hv
  rw [hsu.sectors] at hv
  have hsv := hsu.trans hv
  have hstream : streamOf vol.geometry v.device.sectors e =
      streamOf vol.geometry s.device.sectors e := by
    rw [hv.sectors]
    exact streamOf_onlySlots (onlySlots_retired fun _ h => h) hwf.sound hplaced hfree.heap
  refine wp_mono _ (releaseEntryClusters_based hsv.base hlen hfirst (hstream ▸ hfree)) ?_
    fun _ _ _ => trivial
  intro _ w hw
  rw [hsv.sectors] at hw
  exact hsv.trans hw

/-- Open a file and empty it. -/
def emptied (vol : Volume) (path : List Char) : FsM Unit := do
  let file ← openFile vol path
  let _ ← withSnd file (truncate vol 0)
  pure ()

lemma emptied_based (hwf : WellFormed ζ vol s) (hlookup : (lookup vol path s).1 = .ok e) :
    wp (emptied vol path)
      (fun _ t => Became vol (bitmapClusters vol s.device.sectors) s t
        (truncatedMedia vol.geometry (bitmapClusters vol s.device.sectors) s.device.sectors
          (File.ofEntry e) 0)) (fun _ _ => True) s := by
  unfold emptied openFile openWithWorkspace
  rw [wp_bind, wp_withNewWorkspace]
  refine wp_lookup hwf hlookup fun t ht => ?_
  obtain ⟨D, hD, he⟩ := ht.inTree
  have hquiet := (wrote_of_quiet ht.calm.quiet).same hwf.base
  have hsectors := ht.calm.quiet.sectors
  simp only [wp_ite, wp_throw, wp_pure, wp_bind, wp_withSnd]
  refine ⟨fun _ => trivial, fun _ => ?_⟩
  refine wp_mono _ (truncate_based hquiet.base (hwf.handlePlaced hD he) (Nat.zero_le _) ?_) ?_
    fun _ _ _ => trivial
  · rw [hsectors]
    exact hwf.freeable hD he
  · rintro _ u ⟨-, hu⟩
    rw [hsectors] at hu
    exact hquiet.trans hu

/-- The mark of a cluster in the allocation bitmap of the volume. -/
def marked (vol : Volume) (s : Machine) (c : ℕ) : Bool :=
  used vol.geometry (bitmapClusters vol s.device.sectors) s.device.sectors c

/-- The removal of `path` frees the clusters of the stream of `e`, and no others; for a file it
leaves the bitmap which emptying the file leaves. -/
structure Releases (vol : Volume) (path : List Char) (s : Machine) (e : DirectoryEntry) : Prop where
  owned : ∀ c ∈ streamOf vol.geometry s.device.sectors e, marked vol s c = true
  freed : ∀ c, Counted vol.geometry c → marked vol (remove vol path s).2 c =
    (marked vol s c && !decide (c ∈ streamOf vol.geometry s.device.sectors e))
  emptied : e.isDirectory = false → (emptied vol (trimSlashes path) s).1 = .ok () →
    ∀ c, Counted vol.geometry c →
      marked vol (emptied vol (trimSlashes path) s).2 c = marked vol (remove vol path s).2 c

lemma marked_became {bm : List ℕ} {t : Machine} {d : Sectors} {c : ℕ}
    (h : Became vol bm s t d)
    (hlen : bm.length = clustersFor vol.geometry vol.bitmap.byteLength) :
    marked vol t c = used vol.geometry bm d c := by
  unfold marked
  rw [Base.bitmapClusters_eq h.base hlen, h.sectors]

lemma lookup_entry (hwf : WellFormed ζ vol s) (hlookup : (lookup vol path s).1 = .ok e) :
    ∃ D, InTree ζ vol.geometry s.device.sectors D ∧
      HasEntry (D.slots ζ vol.geometry s.device.sectors) e := by
  obtain ⟨t, ht⟩ := lookup_run hlookup
  have hres := @lookup_resolved ζ _ _ hwf.ready hwf.table hwf.allEnd hwf.rootEnds path _
    (calm_new s) rfl
  rw [wp_ok ht] at hres
  exact hres.inTree

lemma mapped_onlySlots {L : List EntryLocator} {d d' : Sectors} {bm : List ℕ} {n : ℕ}
    (h : OnlySlots L d d') (hs : Sound vol.geometry n) (hL : AllPlaced vol.geometry bm L)
    (hm : Mapped vol bm d) : Mapped vol bm d' :=
  hm.congr fun c hc => h.fatEntry_eq hs hL (hm.heap c hc)

lemma remove_marked (hwf : WellFormed ζ vol s)
    (hlookup : (lookup vol (trimSlashes path) s).1 = .ok e)
    (hremove : (remove vol path s).1 = .ok ()) {c : ℕ} (hc : Counted vol.geometry c) :
    marked vol (remove vol path s).2 c = (marked vol s c &&
      !decide (c ∈ freedBy vol.geometry s.device.sectors e.firstCluster e.noFatChain
        (clustersFor vol.geometry e.dataLength))) := by
  obtain ⟨D, hD, he⟩ := lookup_entry hwf hlookup
  have hplaced := hwf.placed hD he.locs.1
  have hfree := hwf.freeable hD he
  have hremoved := (wp_ok (run_eq hremove)).mp (remove_based hwf hlookup)
  have hretired := onlySlots_retired (d := s.device.sectors) (L := e.entryLocs.take e.entryCount)
    fun _ h => h
  have hfreed : freedBy vol.geometry (retired s.device.sectors (e.entryLocs.take e.entryCount))
      e.firstCluster e.noFatChain (clustersFor vol.geometry e.dataLength) =
      freedBy vol.geometry s.device.sectors e.firstCluster e.noFatChain
        (clustersFor vol.geometry e.dataLength) := by
    unfold freedBy
    split_ifs
    · rfl
    · exact streamOf_onlySlots hretired hwf.sound hplaced hfree.heap
  rw [marked_became hremoved extent_length]
  unfold removedMedia
  simp only
  rw [hfreed, used_released (mapped_onlySlots hretired hwf.sound hplaced hwf.base.mapped) hwf.sound
    (fun x hx => hfree.heap x (mem_freedBy hx)) (fun x hx => hfree.apart x (mem_freedBy hx)) hc,
    hretired.used_eq hwf.sound hplaced hwf.base.mapped hc]
  rfl

lemma emptied_marked (hwf : WellFormed ζ vol s) (hlookup : (lookup vol path s).1 = .ok e)
    (hemptied : (emptied vol path s).1 = .ok ()) {c : ℕ} (hc : Counted vol.geometry c) :
    marked vol (emptied vol path s).2 c =
      (marked vol s c && !decide (c ∈ streamOf vol.geometry s.device.sectors e)) := by
  obtain ⟨D, hD, he⟩ := lookup_entry hwf hlookup
  have hfile := hwf.handlePlaced hD he
  have hfree := hwf.freeable hD he
  have hbecame := (wp_ok (run_eq hemptied)).mp (emptied_based hwf hlookup)
  rw [marked_became hbecame extent_length]
  set d := s.device.sectors with hd
  set bm := bitmapClusters vol d with hbm
  have hstream : extent vol.geometry d (File.ofEntry e).firstCluster (File.ofEntry e).noFatChain
      (clustersFor vol.geometry (File.ofEntry e).dataLength) = streamOf vol.geometry d e := rfl
  -- what committing the handle does not change
  have hcommit (d' : Sectors) (hm : Mapped vol bm d') :
      used vol.geometry bm (committed d' (truncatedFile vol.geometry (File.ofEntry e) 0)) c =
        used vol.geometry bm d' c := by
    refine OnlySlots.used_eq (L := e.entryLocs.take e.entryCount) (onlySlots_committed ?_ ?_)
      hwf.sound hfile.locs hm hc
    · unfold truncatedFile
      simp only
      split_ifs <;> exact hfile.primary
    · unfold truncatedFile
      simp only
      split_ifs <;> exact hfile.stream
  have hmapped : Mapped vol bm d := hwf.base.mapped
  unfold truncatedMedia
  simp only
  have hzero : clustersFor vol.geometry 0 = 0 := if_pos rfl
  rw [hzero]
  split_ifs with hsome
  · have hreleased : shortened vol.geometry bm d (File.ofEntry e).firstCluster
        (File.ofEntry e).noFatChain (clustersFor vol.geometry (File.ofEntry e).dataLength) 0 =
        released vol.geometry bm d (streamOf vol.geometry d e) := by
      unfold shortened
      rw [if_pos rfl, List.drop_zero, hstream]
    rw [hreleased, hcommit _ (mapped_released hmapped hwf.sound hfree.heap hfree.apart),
      used_released hmapped hwf.sound hfree.heap hfree.apart hc]
    rfl
  · have hnone : streamOf vol.geometry d e = [] := by
      rw [← hstream, show clustersFor vol.geometry (File.ofEntry e).dataLength = 0 by omega]
      rfl
    rw [hcommit d hmapped, hnone]
    simp [marked, ← hd, ← hbm]

/-- **Removal releases exactly what the stream owned, unless that is an extent without a FAT chain
of more than one cluster.** -/
theorem remove_releases_iff (vol : Volume) (s : Machine) (path : List Char) (e : DirectoryEntry)
    (hwf : WellFormed .live vol s) (hlookup : (lookup vol (trimSlashes path) s).1 = .ok e)
    (hremove : (remove vol path s).1 = .ok ()) :
    Releases vol path s e ↔
      (e.noFatChain = true → clustersFor vol.geometry e.dataLength ≤ 1) := by
  obtain ⟨D, hD, he⟩ := lookup_entry hwf hlookup
  have hfree := hwf.freeable hD he
  have howned : ∀ c ∈ streamOf vol.geometry s.device.sectors e, marked vol s c = true := by
    obtain ⟨own, howners⟩ := hwf.owners
    exact (howners.entry D e hD he).used
  have hmedia {c : ℕ} (hc : Counted vol.geometry c) := remove_marked hwf hlookup hremove hc
  refine ⟨fun h hfat => ?_, fun h => ?_⟩
  · -- a second cluster stays marked
    by_contra hmany
    have hsecond : nthCluster vol.geometry s.device.sectors e.firstCluster e.noFatChain 1 ∈
        streamOf vol.geometry s.device.sectors e := nthCluster_mem (by omega)
    have hcounted := counted_of_inHeap hwf.sound (hfree.heap _ hsecond)
    have hfreed := h.freed _ hcounted
    have hnot : nthCluster vol.geometry s.device.sectors e.firstCluster e.noFatChain 1 ∉
        freedBy vol.geometry s.device.sectors e.firstCluster e.noFatChain
          (clustersFor vol.geometry e.dataLength) := by
      unfold freedBy
      rw [if_pos hfat]
      intro hmem
      have := (List.mem_replicate.mp hmem).2
      simp [nthCluster, hfat] at this
    rw [hmedia hcounted, howned _ hsecond, decide_eq_false hnot, decide_eq_true hsecond] at hfreed
    cases hfreed
  · have hsame (c : ℕ) : c ∈ freedBy vol.geometry s.device.sectors e.firstCluster e.noFatChain
        (clustersFor vol.geometry e.dataLength) ↔ c ∈ streamOf vol.geometry s.device.sectors e := by
      refine ⟨mem_freedBy, fun hc' => ?_⟩
      unfold freedBy
      split_ifs with hfat
      · obtain ⟨i, hi, rfl⟩ := mem_extent.mp hc'
        have := h hfat
        obtain rfl : i = 0 := by omega
        exact List.mem_replicate.mpr ⟨by omega, nthCluster_zero⟩
      · exact hc'
    have hfreed (c : ℕ) (hc : Counted vol.geometry c) : marked vol (remove vol path s).2 c =
        (marked vol s c && !decide (c ∈ streamOf vol.geometry s.device.sectors e)) := by
      rw [hmedia hc]
      simp only [hsame]
    refine ⟨howned, hfreed, fun _ hemptied c hc => ?_⟩
    rw [hfreed c hc, emptied_marked hwf hlookup hemptied hc]

/-! ### A file of two clusters -/

/-- A small volume whose root holds the file `A` of the clusters 5 and 6. -/
def pair (noFatChain : Bool) : Machine :=
  smallMachine (Image.patch smallFat 20 (leBytes 4 6 ++ leBytes 4 0xffffffff))
    (sectorWith [(0, [0x1f])]) (sectorWith ((64, Listing.setBytes { newFileSet [65] with
      firstCluster := 5, dataLength := 1024, noFatChain := noFatChain } 3) :: systemSlots 0))

/-- The entry of `A`. -/
def pairEntry (noFatChain : Bool) : DirectoryEntry :=
  splitEntry { newFileSet [65] with
    firstCluster := 5, dataLength := 1024, noFatChain := noFatChain } false 26 2

def pairOwner : ℕ → Option Owner
  | 2 => some .root
  | 3 => some .bitmap
  | 4 => some .upcase
  | 5 => some (.entry ⟨26, 64⟩)
  | 6 => some (.entry ⟨26, 64⟩)
  | _ => none

set_option maxRecDepth 100000 in
lemma wellFormed_pair (noFatChain : Bool) : WellFormed ζ smallVolume (pair noFatChain) := by
  refine @small_wellFormed _ _ _ _ pairOwner 1 [Dir.root smallVolume.geometry 1] ?_
  cases ζ with
  | live =>
    cases noFatChain
    · decide +kernel
    · decide +kernel
  | whole =>
    cases noFatChain
    · decide +kernel
    · decide +kernel

lemma lookup_pair (noFatChain : Bool) :
    (lookup smallVolume (trimSlashes ['A']) (pair noFatChain)).1 =
    .ok (pairEntry noFatChain) := by
  cases noFatChain
  · decide +kernel
  · decide +kernel

lemma remove_pair (noFatChain : Bool) :
    (remove smallVolume ['A'] (pair noFatChain)).1 = .ok () := by
  cases noFatChain
  · decide +kernel
  · decide +kernel

/-- A volume of which the root holds `A` and, behind its end marker, what is left of an older
volume. -/
def littered : Machine :=
  smallMachine (Image.patch smallFat 20 (leBytes 4 6 ++ leBytes 4 0xffffffff))
    (sectorWith [(0, [0x1f])]) (sectorWith ((320, [0x85]) :: (64, Listing.setBytes
      { newFileSet [65] with firstCluster := 5, dataLength := 1024, noFatChain := false } 3) ::
        systemSlots 0))

set_option maxRecDepth 100000 in
lemma wellFormed_littered : WellFormed .live smallVolume littered :=
  @small_wellFormed _ _ _ _ pairOwner 1 [Dir.root smallVolume.geometry 1] (by decide +kernel)

theorem remove_releases_iff_littered : Releases smallVolume ['A'] littered (pairEntry false) :=
  (remove_releases_iff smallVolume littered ['A'] (pairEntry false) wellFormed_littered
    (by decide +kernel) (by decide +kernel)).mpr (by decide)

/-- Removing the file without a FAT chain leaves its second cluster marked used. -/
theorem second_cluster_leaked : WellFormed .live smallVolume (pair true) ∧
    (lookup smallVolume (trimSlashes ['A']) (pair true)).1 = .ok (pairEntry true) ∧
    (remove smallVolume ['A'] (pair true)).1 = .ok () ∧
    streamOf smallVolume.geometry (pair true).device.sectors (pairEntry true) = [5, 6] ∧
    marked smallVolume (remove smallVolume ['A'] (pair true)).2 6 = true ∧
    ¬ Releases smallVolume ['A'] (pair true) (pairEntry true) := by
  have hstream : streamOf smallVolume.geometry (pair true).device.sectors (pairEntry true) =
      [5, 6] := by
    decide +kernel
  have hmarked : marked smallVolume (remove smallVolume ['A'] (pair true)).2 6 = true := by
    decide +kernel
  refine ⟨wellFormed_pair true, lookup_pair true, remove_pair true, hstream, hmarked, fun h => ?_⟩
  have hfreed := h.freed 6 ⟨by decide, by decide⟩
  rw [hmarked, hstream] at hfreed
  simp at hfreed

end ExfatEmbedded.Removal
