import ExfatEmbedded.StreamSafety

/-!
The FAT writes of the mutating operations, on any media.

`setFat` checks no bound. The loops of `truncate` do not either, and the other operations do not
check the first cluster.
-/

namespace ExfatEmbedded.FatSafety

open ExfatEmbedded.Library Exec ExfatEmbedded.Core ExfatEmbedded.Entry ExfatEmbedded.Allocation
open ExfatEmbedded.Lookup ExfatEmbedded.FileIo ExfatEmbedded.EntryWrite ExfatEmbedded.Mutation
open ExfatEmbedded.Mount ExfatEmbedded.Reading ExfatEmbedded.MountSafety ExfatEmbedded.ReadSafety
open ExfatEmbedded.FatWrites ExfatEmbedded.StreamSafety

variable {vol : Volume} {s : Machine}

/-! ### Release -/

/-- The first cluster of a file with clusters is in the heap. That of a directory is read before
anything is released. -/
def EntrySane (g : Geometry) (entry : DirectoryEntry) : Prop :=
  entry.isDirectory = false → 2 ≤ entry.firstCluster → entry.dataLength ≠ 0 →
    g.InHeap entry.firstCluster

lemma releaseRound_leaves {noFatChain : Bool} {clusters i c : ℕ} (h : FatSafe vol s)
    (hc : vol.geometry.InHeap c) :
    leaves (releaseRound vol noFatChain clusters i c)
      (Sum.elim (fun r => r.elim) fun c t => FatSafe vol t ∧ vol.geometry.InHeap c)
      (FatSafe vol) s := by
  unfold releaseRound
  simp only [u64, leaves_bind, leaves_assert, leaves_pure]
  refine ⟨fun _ => ?_, fun _ => h⟩
  have hnext : Preserves (FatSafe vol) (if noFatChain ∨ i + 1 = clusters then pure none
      else some <$> nextCluster vol c : FsM (Option ℕ)) :=
    Preserves.ite (fun _ => Preserves.pure _) fun _ => (keeps_nextCluster c).map _
  refine leaves_mono _ (hnext s h) ?_ fun _ h => h
  intro next t ht
  refine leaves_mono _ (setFat_leaves ht hc) ?_ fun _ h => h
  rintro _ u ⟨hu, -⟩
  refine leaves_mono _ (keeps_setBitmap c false u hu) ?_ fun _ h => h
  intro _ v hv
  rcases next with _ | next
  · exact ⟨hv, hc⟩
  · simp only [leaves_ite, leaves_throw, leaves_pure]
    refine ⟨fun _ => hv, fun hin => ⟨hv, ?_⟩⟩
    unfold Geometry.InHeap
    omega

lemma releaseEntryClusters_leaves {entry : DirectoryEntry} (h : FatSafe vol s)
    (hfirst : 2 ≤ entry.firstCluster → entry.dataLength ≠ 0 →
      vol.geometry.InHeap entry.firstCluster) :
    leaves (releaseEntryClusters vol entry) (fun _ => FatSafe vol) (FatSafe vol) s := by
  unfold releaseEntryClusters
  rw [leaves_ite]
  refine ⟨fun _ => h, fun hrel => ?_⟩
  rw [h.ready.sound.bytesPerCluster_eq, pure_bind]
  simp only [divCeil, leaves_bind, leaves_assert, leaves_pure]
  refine ⟨fun _ => ?_, fun _ => h⟩
  refine leaves_loop (fun _ c t => FatSafe vol t ∧ vol.geometry.InHeap c)
    ⟨h, hfirst (by omega) (by omega)⟩ (fun i c t _ _ ht => ?_) fun _ _ h => h.1
  refine leaves_mono _ (releaseRound_leaves ht.1 ht.2) ?_ fun _ h => h
  rintro (r | c') u hu
  · exact r.elim
  · exact hu

lemma isOccupied_leaves {entry : DirectoryEntry} (h : FatSafe vol s) :
    leaves (isOccupied vol entry)
      (fun _ t => FatSafe vol t ∧
        (entry.isDirectory = true → vol.geometry.InHeap entry.firstCluster)) (FatSafe vol) s := by
  unfold isOccupied DirectoryEntry.directory
  cases hdir : entry.isDirectory
  · exact ⟨h, nofun⟩
  · simp only [if_true]
    unfold firstDirectoryEntry
    simp only [leaves_bind, leaves_withSnd]
    refine leaves_of_wp (wp_mono _ (Scan.readDirectory_spec h.ready) ?_
      fun _ _ hq => h.quiet hq) fun _ _ h => h
    rintro _ t ⟨hq, n, hvisited, -⟩
    refine ⟨h.quiet hq, fun _ => ?_⟩
    have hstart := Scan.clusterOf_zero vol.geometry s.device.sectors
      { firstCluster := entry.firstCluster, dataLength := entry.dataLength,
        noFatChain := entry.noFatChain, primary := some entry.primary, stream := some entry.stream,
        entryLocs := entry.entryLocs, entryCount := entry.entryCount }
    have hheap := hvisited.heap hvisited.pos
    rwa [hstart] at hheap

/-! ### The operations -/

lemma tame_createFresh (parent : Directory) (name : List Char) :
    Preserves (Tame vol) (createFresh vol parent name) :=
  (tame_utf8ToUtf16 name).bind fun _ => (tame_findFreeEntries parent _).bind fun _ =>
    tame_getSnd.bind fun _ => (tame_lift (keeps_writeEntrySet _ _)).bind fun _ => Preserves.pure _

section

variable (htable : vol.upcaseValid = true → TableSound vol.geometry vol.upcase)

include htable

lemma tame_lookup (path : List Char) : Preserves (Tame vol) (lookupWithWorkspace vol path) :=
  tame_of_safe fun _ hs => lookup_safe hs htable path

lemma tame_enterDirectory (parent : Directory) (name : List Char) :
    Preserves (Tame vol) (enterDirectory vol parent name) := by
  unfold enterDirectory
  refine (tame_utf8ToUtf16 name).bind fun len => ?_
  refine (tame_of_safe fun _ hs => findChild_safe hs htable parent len).bind fun o => ?_
  rcases o with _ | entry
  · refine (tame_findFreeEntries parent _).bind fun _ => ?_
    refine (tame_lift (keeps_allocateClusterPreferred 2)).bind fun _ => ?_
    refine (keeps_bytesPerCluster _).bind fun _ => tame_getSnd.bind fun _ => ?_
    exact (tame_lift (keeps_writeEntrySet _ _)).bind fun _ => Preserves.pure _
  · exact Preserves.okOr _ _

lemma tame_enterDirectories (parent : Directory) (names : List (List Char)) :
    Preserves (Tame vol) (enterDirectories vol parent names) := by
  induction names generalizing parent with
  | nil => exact Preserves.pure _
  | cons name names ih =>
    exact (tame_enterDirectory htable parent name).bind fun parent => ih parent

lemma keeps_createDirAll (path : List Char) : Preserves (FatSafe vol) (createDirAll vol path) := by
  refine withNewWorkspace_keeps ?_
  unfold createDirAllWithWorkspace
  exact Preserves.ite (fun _ => Preserves.throw _) fun _ => tame_enterDirectories htable _ _

lemma remove_leaves {path : List Char} (h : FatSafe vol s)
    (hsane : ∀ entry, (lookup vol (trimSlashes path) s).1 = .ok entry →
      EntrySane vol.geometry entry) :
    leaves (remove vol path) (fun _ => FatSafe vol) (FatSafe vol) s := by
  unfold remove withNewWorkspace removeWithWorkspace
  simp only [leaves_bind, leaves_withSnd]
  refine leaves_mono _ (leaves_run (tame_lookup htable (trimSlashes path) _ ⟨h, bounded_new⟩)) ?_
    fun _ h => h.fat
  rintro entry t ⟨ht, hrun⟩
  have hentry : (lookup vol (trimSlashes path) s).1 = .ok entry := by
    unfold lookup withNewWorkspace
    rw [bind_apply, withSnd, hrun]
    rfl
  rw [leaves_lift]
  unfold removeEntryTree
  beta_reduce
  rw [leaves_bind]
  refine leaves_mono _ (isOccupied_leaves ht.fat) ?_ fun _ h => h
  rintro occupied u ⟨hu, hdir⟩
  rw [leaves_ite]
  refine ⟨fun _ => hu, fun _ => ?_⟩
  rw [leaves_bind]
  refine leaves_mono _ (keeps_retireSlots _ u hu) ?_ fun _ h => h
  refine fun _ v hv => releaseEntryClusters_leaves hv fun hfirst hdata => ?_
  cases hd : entry.isDirectory
  · exact hsane entry hentry hd hfirst hdata
  · exact hdir hd

end

/-- The existing file which `create` opens to empty it. -/
def existingFile (vol : Volume) (path : List Char) : FsM File :=
  withNewWorkspace do
    let _ ← splitPath vol (trimSlashes path)
    openWithWorkspace vol (trimSlashes path)

section

variable (htable : vol.upcaseValid = true → TableSound vol.geometry vol.upcase)

include htable

lemma create_leaves {path : List Char} (h : FatSafe vol s)
    (hsane : ∀ file, (existingFile vol path s).1 = .ok file →
      TruncateSane vol s.device.sectors file 0) :
    leaves (create vol path) (fun _ => FatSafe vol) (FatSafe vol) s := by
  have hsplit : Safe vol s (splitPath vol (trimSlashes path)) := by
    unfold splitPath
    split
    · refine (lookup_safe h.ready htable _).bind fun _ => safe_okOr.bind fun _ => ?_
      exact fun t ht => ht
    · exact fun t ht => ht
  have hopen : Safe vol s (openWithWorkspace vol (trimSlashes path)) := by
    refine (lookup_safe h.ready htable _).bind fun entry t ht => ?_
    rw [wp_ite]
    exact ⟨fun _ => ht, fun _ => ht⟩
  unfold create withNewWorkspace createWithWorkspace
  simp only [leaves_bind, leaves_withSnd]
  rw [leaves_ite]
  refine ⟨fun _ => h, fun _ => ?_⟩
  rw [leaves_bind]
  refine leaves_mono _ (leaves_run (leaves_of_wp (R := fun u => FatSafe vol u.1)
    (hsplit _ (calm_new s)) fun _ _ hu => h.quiet hu.quiet)) ?_ fun _ h => h
  rintro ⟨parent, name⟩ t ⟨ht, hsplitrun⟩
  rw [leaves_bind]
  refine leaves_mono _ (leaves_attempt (Q := fun r u => Calm vol s u ∧ ∀ file, r = .ok file →
    openWithWorkspace vol (trimSlashes path) t = (.ok file, u)) (R := fun u => FatSafe vol u.1)
    ?_) ?_ fun _ h => h
  · refine leaves_mono _ (leaves_run (leaves_of_wp (R := Calm vol s)
      (hopen t ht) fun _ _ h => h)) ?_
      fun u hu => ⟨h.quiet hu.quiet, fun _ => ⟨hu, nofun⟩⟩
    rintro file u ⟨hu, hrun⟩
    refine ⟨hu, fun file' hf => ?_⟩
    cases hf
    exact hrun
  · rintro (e | file) u ⟨hu, hfile⟩
    · have htame : Tame vol u := ⟨h.quiet hu.quiet, hu.bounded⟩
      by_cases he : e = .pathNotFound
      · subst he
        exact leaves_mono _ (tame_createFresh parent name u htame) (fun _ _ h => h.fat)
          fun _ h => h.fat
      · cases e <;> first | exact htame.fat | exact absurd rfl he
    · have hexists : (existingFile vol path s).1 = .ok file := by
        unfold existingFile withNewWorkspace
        rw [bind_apply, withSnd, bind_apply, hsplitrun]
        simp only [hfile file rfl]
        rfl
      have hsane := hsane file hexists
      rw [← hu.quiet.sectors] at hsane
      simp only [leaves_bind, leaves_lift, leaves_withSnd]
      exact leaves_mono _ (truncate_leaves (t := (u.1, file)) (h.quiet hu.quiet) hsane)
        (fun _ _ h => h) fun _ h => h

end

/-! ### Runs -/

/-- An operation. A handle may be any value of its type. -/
inductive Step where
  | truncate (file : File) (len : ℕ)
  | append (file : File) (input : List UInt8)
  | create (path : List Char)
  | remove (path : List Char)
  | createDirAll (path : List Char)

def Step.run (vol : Volume) : Step → FsM Unit
  | .truncate file len => (fun _ => ()) <$> withSnd file (Mutation.truncate vol len)
  | .append file input => (fun _ => ()) <$> withSnd file (Mutation.append vol input)
  | .create path => (fun _ => ()) <$> Mutation.create vol path
  | .remove path => Mutation.remove vol path
  | .createDirAll path => Mutation.createDirAll vol path

/-- What the code does not check before its FAT writes: the clusters a truncation releases, those
to which a growing append writes links, and the first cluster of a file removed. -/
def Step.Sane (vol : Volume) (s : Machine) : Step → Prop
  | .truncate file len => TruncateSane vol s.device.sectors file len
  | .append file input => AppendSane vol.geometry file input.length
  | .create path => ∀ file, (existingFile vol path s).1 = .ok file →
    TruncateSane vol s.device.sectors file 0
  | .remove path => ∀ entry, (lookup vol (trimSlashes path) s).1 = .ok entry →
    EntrySane vol.geometry entry
  | .createDirAll _ => True

/-- The state after the steps, whatever they return. -/
def runSteps (vol : Volume) (steps : List Step) (s : Machine) : Machine :=
  steps.foldl (fun s step => (step.run vol s).2) s

/-- Every step is sane in the state before it. -/
def SaneRun (vol : Volume) : List Step → Machine → Prop
  | [], _ => True
  | step :: rest, s => step.Sane vol s ∧ SaneRun vol rest (step.run vol s).2

instance (vol : Volume) (s : Machine) : ∀ step : Step, Decidable (step.Sane vol s)
  | .truncate file len => inferInstanceAs (Decidable (TruncateSane vol s.device.sectors file len))
  | .append file input => inferInstanceAs (Decidable (AppendSane vol.geometry file input.length))
  | .create path => inferInstanceAs (Decidable (∀ file, (existingFile vol path s).1 = .ok file →
      TruncateSane vol s.device.sectors file 0))
  | .remove path => inferInstanceAs (Decidable (∀ entry,
      (lookup vol (trimSlashes path) s).1 = .ok entry → (_ → _ → _ → _)))
  | .createDirAll _ => inferInstanceAs (Decidable True)

instance SaneRun.decidable (vol : Volume) :
    ∀ (steps : List Step) (s : Machine), Decidable (SaneRun vol steps s)
  | [], _ => inferInstanceAs (Decidable True)
  | step :: rest, s =>
    have := SaneRun.decidable vol rest (step.run vol s).2
    inferInstanceAs (Decidable (step.Sane vol s ∧ _))

lemma state_of_leaves {α : Type} {m : FsM α} (h : leaves m (fun _ => FatSafe vol) (FatSafe vol) s) :
    FatSafe vol (m s).2 := by
  unfold leaves at h
  rcases hm : m s with ⟨_ | _ | _, t⟩ <;> rw [hm] at h <;> exact h

lemma step_safe (htable : vol.upcaseValid = true → TableSound vol.geometry vol.upcase)
    (h : FatSafe vol s) {step : Step} (hsane : step.Sane vol s) :
    FatSafe vol (step.run vol s).2 := by
  refine state_of_leaves ?_
  cases step with
  | truncate file len =>
    unfold Step.run
    rw [leaves_map, leaves_withSnd]
    exact leaves_mono _ (truncate_leaves (t := (s, file)) h hsane) (fun _ _ h => h) fun _ h => h
  | append file input =>
    unfold Step.run
    rw [leaves_map, leaves_withSnd]
    exact leaves_mono _ (append_leaves h hsane) (fun _ _ h => h) fun _ h => h
  | create path =>
    unfold Step.run
    rw [leaves_map]
    exact create_leaves htable h hsane
  | remove path => exact remove_leaves htable h hsane
  | createDirAll path => exact keeps_createDirAll htable path s h

lemma runSteps_safe (htable : vol.upcaseValid = true → TableSound vol.geometry vol.upcase)
    {steps : List Step} (h : FatSafe vol s) (hsane : SaneRun vol steps s) :
    FatSafe vol (runSteps vol steps s) := by
  induction steps generalizing s with
  | nil => exact h
  | cons step steps ih => exact ih (step_safe htable h hsane.1) hsane.2

/-- A file system on the machine a volume was mounted from. -/
def fresh (s : Machine) : Machine := { s with freeClusters := none, fatWrites := [] }

lemma fatSafe_fresh {t : Machine} (h : mount s = (.ok vol, t)) : FatSafe vol (fresh t) := by
  have hfst : (mount s).1 = .ok vol := by rw [h]
  obtain ⟨-, hscratch, hvol⟩ := mount_sound hfst
  rcases Nat.eq_zero_or_pos s.device.sectorCount with hzero | hpos
  · exact ((wp_ok h).mp (mount_empty hzero)).elim
  · have hq := ((wp_ok h).mp (mount_safe hpos)).1
    exact ⟨⟨hq.sectorCount ▸ hvol.geometry, hq.scratchLen ▸ hscratch⟩, nofun⟩

/-- **In a run of sane steps every FAT write is inside**: it is for a cluster of the heap, and
changes the entry of that cluster in the active FAT and nothing else. -/
theorem fatWrites_inside (s t : Machine) (vol : Volume) (hmount : mount s = (.ok vol, t))
    (steps : List Step) (hsane : SaneRun vol steps (fresh t)) :
    AllInside vol.geometry (runSteps vol steps (fresh t)) := by
  have hfst : (mount s).1 = .ok vol := by rw [hmount]
  exact (runSteps_safe (mount_sound hfst).2.2.table (fatSafe_fresh hmount) hsane).inside

/-- The root holds the file `A` of the clusters 5 and 6. -/
def chained : Machine :=
  smallMachine (Image.patch smallFat 20 (leBytes 4 6 ++ leBytes 4 0xffffffff))
    (sectorWith [(0, [0x1f])]) (sectorWith ((64, Listing.setBytes { newFileSet [65] with
      firstCluster := 5, dataLength := 1024, noFatChain := false } 3) :: systemSlots 0))

/-- A handle of `A`, of which it has `len` bytes. -/
def chainedFile (len : ℕ) : File where
  primary := ⟨26, 64⟩
  stream := ⟨26, 96⟩
  entryLocs := overlay noLocators 0 [⟨26, 64⟩, ⟨26, 96⟩, ⟨26, 128⟩]
  entryCount := 3
  firstCluster := 5
  dataLength := len
  validLength := len
  position := 0
  noFatChain := false
  cachedClusterIndex := none
  cachedCluster := 0

/-- `A` loses a cluster, gets it back, is emptied, and goes; a directory comes and goes. -/
def chainedSteps : List Step :=
  [.truncate (chainedFile 1024) 512, .append (chainedFile 512) [1], .create ['A'], .remove ['A'],
    .createDirAll ['B'], .remove ['B']]

set_option maxRecDepth 100000 in
lemma chained_sane : (mount chained).1 = .ok smallVolume ∧
    SaneRun smallVolume chainedSteps (fresh (mount chained).2) := by decide +kernel

theorem fatWrites_inside_chained : AllInside smallVolume.geometry
    (runSteps smallVolume chainedSteps (fresh (mount chained).2)) :=
  fatWrites_inside chained (mount chained).2 smallVolume (run_eq chained_sane.1) chainedSteps
    chained_sane.2

/-- The root holds the file `A` of two clusters, whose chain ends behind its cluster 5 with a zero
link. -/
def short : Machine :=
  smallMachine (Image.patch smallFat 0 (leBytes 4 0xfffffff8)) (sectorWith [(0, [0xf])])
    (sectorWith ((64, Listing.setBytes { newFileSet [65] with
      firstCluster := 5, dataLength := 1024, noFatChain := false } 3) :: systemSlots 0))

set_option maxRecDepth 100000 in
lemma short_emptied : (mount short).1 = .ok smallVolume ∧
    (runSteps smallVolume [.create ['A']] (fresh (mount short).2)).fatWrites.map
      FatWrite.cluster = [0, 5] ∧
    fatEntry smallVolume.geometry short.device.sectors 0 = 0xfffffff8 ∧
    fatEntry smallVolume.geometry
      (runSteps smallVolume [.create ['A']] (fresh (mount short).2)).device.sectors 0 = 0 := by
  decide +kernel

/-- Emptying the file follows the zero link, and frees the FAT entry of cluster 0. -/
theorem fat_entry_zero_written : (mount short).1 = .ok smallVolume ∧
    (runSteps smallVolume [.create ['A']] (fresh (mount short).2)).fatWrites.map
      FatWrite.cluster = [0, 5] ∧
    fatEntry smallVolume.geometry short.device.sectors 0 = 0xfffffff8 ∧
    fatEntry smallVolume.geometry
      (runSteps smallVolume [.create ['A']] (fresh (mount short).2)).device.sectors 0 = 0 ∧
    ¬ AllInside smallVolume.geometry
      (runSteps smallVolume [.create ['A']] (fresh (mount short).2)) := by
  obtain ⟨hmount, hclusters, hbefore, hafter⟩ := short_emptied
  refine ⟨hmount, hclusters, hbefore, hafter, fun hinside => ?_⟩
  have hmem : 0 ∈ (runSteps smallVolume [.create ['A']] (fresh (mount short).2)).fatWrites.map
      FatWrite.cluster := by
    rw [hclusters]
    exact List.mem_cons_self
  obtain ⟨w, hw, hzero⟩ := List.mem_map.mp hmem
  have hheap := (hinside w hw).heap.1
  omega

end ExfatEmbedded.FatSafety
