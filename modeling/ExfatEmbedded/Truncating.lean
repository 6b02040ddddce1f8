import ExfatEmbedded.Codec
import ExfatEmbedded.Readback
import ExfatEmbedded.Removal
import ExfatEmbedded.Replacing

/-!
Truncation keeps a prefix of the file and frees the rest.
-/

namespace ExfatEmbedded.Truncating

open ExfatEmbedded.Library Exec ExfatEmbedded.Core ExfatEmbedded.Entry ExfatEmbedded.Allocation
open ExfatEmbedded.Lookup ExfatEmbedded.FileIo ExfatEmbedded.EntryWrite ExfatEmbedded.Mutation
open ExfatEmbedded.Mount ExfatEmbedded.Reading ExfatEmbedded.Scan ExfatEmbedded.Sets
open ExfatEmbedded.ReadSafety ExfatEmbedded.MountSafety ExfatEmbedded.FatWrites
open ExfatEmbedded.StreamSafety ExfatEmbedded.Media ExfatEmbedded.Writing ExfatEmbedded.Tree
open ExfatEmbedded.Commit ExfatEmbedded.Release ExfatEmbedded.Layout ExfatEmbedded.Listing
open ExfatEmbedded.Slots ExfatEmbedded.Codec ExfatEmbedded.Removal ExfatEmbedded.Search
open ExfatEmbedded.Ownership ExfatEmbedded.Replacing ExfatEmbedded.Readback ExfatEmbedded.Grammar

/-! ### What releasing clusters leaves alone -/

section Released

variable {vol : Volume} {bm cs : List ℕ} {d : Sectors} {n c c' : ℕ}

lemma sameCluster_trans {g : Geometry} {d' d'' : Sectors} (h : SameCluster g d d' c)
    (h' : SameCluster g d' d'' c) : SameCluster g d d'' c :=
  fun lba hin => (h' lba hin).trans (h lba hin)

lemma sameCluster_setEntry {g : Geometry} (hs : Sound g n) (hc : g.InHeap c) (d : Sectors) (v : ℕ)
    (c' : ℕ) : SameCluster g d (setEntry g d c v) c' := by
  intro lba hin
  rw [setEntry_eq_put, put_of_ne]
  rintro rfl
  exact hin.not_below (hs.fatLba_lt hc)

lemma sameCluster_setBit (h : Mapped vol bm d) (hs : Sound vol.geometry n)
    (hc : Counted vol.geometry c) (b : Bool) (hc' : vol.geometry.InHeap c') (hbm : c' ∉ bm) :
    SameCluster vol.geometry d (setBit vol.geometry bm d c b) c' := by
  intro lba hin
  by_cases heq : used vol.geometry bm d c = b
  · rw [setBit_of_eq heq]
  rw [setBit_of_ne heq, put_of_ne]
  rintro rfl
  have hmem := h.getD_mem hs (h.byte_lt hc)
  have heq := hin.unique (hs.inHeap_iff.mp hc').1 (hs.inHeap_iff.mp (h.heap _ hmem)).1
    (streamPos_inCluster hs bm ((c - 2) / 8))
  exact hbm (heq ▸ hmem)

lemma sameCluster_released (h : Mapped vol bm d) (hs : Sound vol.geometry n)
    (hheap : ∀ c ∈ cs, vol.geometry.InHeap c) (hapart : ∀ c ∈ cs, c ∉ bm)
    (hc' : vol.geometry.InHeap c') (hbm : c' ∉ bm) :
    SameCluster vol.geometry d (released vol.geometry bm d cs) c' := by
  induction cs generalizing d with
  | nil => exact fun _ _ => rfl
  | cons c cs ih =>
    have hc := hheap c List.mem_cons_self
    have hcbm := hapart c List.mem_cons_self
    have hrest := ih (mapped_freed h hs hcbm) (fun x hx => hheap x (List.mem_cons_of_mem _ hx))
      fun x hx => hapart x (List.mem_cons_of_mem _ hx)
    refine sameCluster_trans ?_ hrest
    exact sameCluster_trans (sameCluster_setEntry hs hc d 0 c')
      (sameCluster_setBit (mapped_setEntry h hcbm 0) hs (counted_of_inHeap hs hc) false hc' hbm)

lemma fatEntry_released (hs : Sound vol.geometry n) (hc' : vol.geometry.InHeap c')
    (hout : c' ∉ cs) :
    fatEntry vol.geometry (released vol.geometry bm d cs) c' = fatEntry vol.geometry d c' := by
  induction cs generalizing d with
  | nil => rfl
  | cons c cs ih =>
    rw [List.mem_cons, not_or] at hout
    change fatEntry _ (released _ _ (freed _ _ _ _) cs) _ = _
    rw [ih hout.2, fatEntry_freed hs hc' (Ne.symm hout.1)]

lemma fatEntry_released_mem (hs : Sound vol.geometry n) (hheap : ∀ c ∈ cs, vol.geometry.InHeap c)
    (hin : c' ∈ cs) : fatEntry vol.geometry (released vol.geometry bm d cs) c' = 0 := by
  induction cs generalizing d with
  | nil => cases hin
  | cons c cs ih =>
    have hc' := hheap c' hin
    change fatEntry _ (released _ _ (freed _ _ _ _) cs) _ = _
    by_cases hlater : c' ∈ cs
    · exact ih (fun x hx => hheap x (List.mem_cons_of_mem _ hx)) hlater
    · obtain rfl : c' = c := (List.mem_cons.mp hin).resolve_right hlater
      rw [fatEntry_released hs hc' hlater]
      unfold freed
      rw [fatEntry_setBit hs false hc', fatEntry_setEntry d (by decide)]

end Released

/-! ### What shortening a stream leaves -/

section Shortened

variable {vol : Volume} {bm : List ℕ} {d : Sectors} {n m keep first c : ℕ} {noFatChain : Bool}

variable (h : Mapped vol bm d) (hs : Sound vol.geometry n)
  (hcs : Freeable vol bm (extent vol.geometry d first noFatChain m))

include hs hcs

omit hcs in
lemma fatEntry_shortened (hkeep : keep ≤ m) (hc : vol.geometry.InHeap c)
    (hout : c ∉ extent vol.geometry d first noFatChain m) :
    fatEntry vol.geometry (shortened vol.geometry bm d first noFatChain m keep) c =
      fatEntry vol.geometry d c := by
  unfold shortened
  rw [fatEntry_released hs hc fun hmem => hout (List.mem_of_mem_drop hmem)]
  split_ifs with hz
  · rfl
  · refine fatEntry_setEntry_ne _ _ ?_
    rintro rfl
    exact hout (nthCluster_mem (by omega))

lemma fatEntry_shortened_kept {i : ℕ} (hkeep : keep ≤ m) (hi : i + 1 < keep) :
    fatEntry vol.geometry (shortened vol.geometry bm d first noFatChain m keep)
        (nthCluster vol.geometry d first noFatChain i) =
      fatEntry vol.geometry d (nthCluster vol.geometry d first noFatChain i) := by
  have hin := hcs.heap _ (@nthCluster_mem vol.geometry d first m noFatChain i (by omega))
  unfold shortened
  rw [fatEntry_released hs hin, if_neg (by omega), fatEntry_setEntry_ne]
  · intro heq
    have := nthCluster_inj hcs.nodup (by omega) (by omega) heq
    omega
  · rw [← extent_drop, mem_extent]
    rintro ⟨k, hk, heq⟩
    rw [nthCluster_add] at heq
    have := nthCluster_inj hcs.nodup (by omega) (by omega) heq
    omega

lemma fatEntry_shortened_last (hpos : 0 < keep) (hkeep : keep ≤ m) :
    fatEntry vol.geometry (shortened vol.geometry bm d first noFatChain m keep)
      (nthCluster vol.geometry d first noFatChain (keep - 1)) = 0xffffffff := by
  have hin := hcs.heap _ (@nthCluster_mem vol.geometry d first m noFatChain (keep - 1) (by omega))
  unfold shortened
  rw [fatEntry_released hs hin, if_neg (by omega), fatEntry_setEntry _ (by decide)]
  rw [← extent_drop, mem_extent]
  rintro ⟨k, hk, heq⟩
  rw [nthCluster_add] at heq
  have := nthCluster_inj hcs.nodup (by omega) (by omega) heq
  omega

include h

lemma sameCluster_shortened (hkeep : keep ≤ m) (hc : vol.geometry.InHeap c) (hbm : c ∉ bm) :
    SameCluster vol.geometry d (shortened vol.geometry bm d first noFatChain m keep) c := by
  have hdrop := hcs.drop keep
  unfold shortened
  split_ifs with hz
  · exact sameCluster_released h hs hdrop.heap hdrop.apart hc hbm
  · have hmem := @nthCluster_mem vol.geometry d first m noFatChain (keep - 1) (by omega)
    exact sameCluster_trans (sameCluster_setEntry hs (hcs.heap _ hmem) d _ c)
      (sameCluster_released (mapped_setEntry h (hcs.apart _ hmem) _) hs hdrop.heap
      hdrop.apart hc hbm)

lemma used_shortened (hkeep : keep ≤ m) (hc : Counted vol.geometry c) :
    used vol.geometry bm (shortened vol.geometry bm d first noFatChain m keep) c =
      (used vol.geometry bm d c &&
        !decide (c ∈ (extent vol.geometry d first noFatChain m).drop keep)) := by
  have hdrop := hcs.drop keep
  unfold shortened
  split_ifs with hz
  · exact used_released h hs hdrop.heap hdrop.apart hc
  · have hmem := @nthCluster_mem vol.geometry d first m noFatChain (keep - 1) (by omega)
    rw [used_released (mapped_setEntry h (hcs.apart _ hmem) _) hs hdrop.heap hdrop.apart hc,
      used_setEntry h hs (hcs.heap _ hmem) _ hc]

lemma mapped_shortened (hkeep : keep ≤ m) :
    Mapped vol bm (shortened vol.geometry bm d first noFatChain m keep) := by
  have hdrop := hcs.drop keep
  unfold shortened
  split_ifs with hz
  · exact mapped_released h hs hdrop.heap hdrop.apart
  · have hmem := @nthCluster_mem vol.geometry d first m noFatChain (keep - 1) (by omega)
    exact mapped_released (mapped_setEntry h (hcs.apart _ hmem) _) hs hdrop.heap hdrop.apart

end Shortened

/-! ### The stream of the handle -/

lemma nthCluster_succ {g : Geometry} {d : Sectors} {first i : ℕ} {noFatChain : Bool}
    (h : noFatChain = false) : nthCluster g d first noFatChain (i + 1) =
      fatEntry g d (nthCluster g d first noFatChain i) := by
  subst h
  exact link_succ g d first i

/-- The handle at the start of the file, with nothing cached. -/
def rewound (file : File) : File :=
  { file with position := 0, cachedClusterIndex := none, cachedCluster := 0 }

/-- The clusters of the stream of a handle. -/
def clustersOfFile (g : Geometry) (d : Sectors) (file : File) : List ℕ :=
  extent g d file.firstCluster file.noFatChain (clustersFor g file.dataLength)

/-- The media behind the release of the clusters which a truncation frees. -/
def cutMedia (g : Geometry) (bm : List ℕ) (d : Sectors) (file : File) (len : ℕ) : Sectors :=
  if clustersFor g len < clustersFor g file.dataLength then
    shortened g bm d file.firstCluster file.noFatChain (clustersFor g file.dataLength)
      (clustersFor g len)
  else d

section Cut

variable {vol : Volume} {bm : List ℕ} {d : Sectors} {n len c : ℕ} {file : File}

lemma truncatedMedia_eq (g : Geometry) (bm : List ℕ) (d : Sectors) (file : File) (len : ℕ) :
    truncatedMedia g bm d file len = committed (cutMedia g bm d file len)
    (truncatedFile g file len) :=
  rfl

lemma truncatedFile_cases (g : Geometry) (file : File) (len : ℕ) :
    (clustersFor g len < clustersFor g file.dataLength ∧ truncatedFile g file len = { file with
        firstCluster := if clustersFor g len = 0 then 0 else file.firstCluster
        dataLength := clustersFor g len * clusterSize g
        cachedClusterIndex := none
        validLength := len
        position := min file.position len }) ∨
      (¬ clustersFor g len < clustersFor g file.dataLength ∧
        truncatedFile g file len =
          { file with validLength := len, position := min file.position len }) := by
  by_cases hlt : clustersFor g len < clustersFor g file.dataLength
  · refine .inl ⟨hlt, ?_⟩
    simp only [truncatedFile, if_pos hlt]
  · refine .inr ⟨hlt, ?_⟩
    simp only [truncatedFile, if_neg hlt]

lemma truncatedFile_clusters (hs : Sound vol.geometry n) (hlen : len ≤ file.dataLength) :
    clustersFor vol.geometry (truncatedFile vol.geometry file len).dataLength =
      clustersFor vol.geometry len := by
  rcases truncatedFile_cases vol.geometry file len with ⟨-, hfile⟩ | ⟨hge, hfile⟩
  · rw [hfile]
    exact clustersFor_mul hs _
  · rw [hfile]
    have := @clustersFor_mono vol.geometry _ _ hlen
    change clustersFor vol.geometry file.dataLength = _
    omega

lemma truncatedFile_fields (g : Geometry) (file : File) (len : ℕ) :
    (truncatedFile g file len).validLength = len ∧
      (truncatedFile g file len).position = min file.position len ∧
      (truncatedFile g file len).noFatChain = file.noFatChain ∧
      (truncatedFile g file len).primary = file.primary ∧
      (truncatedFile g file len).stream = file.stream ∧
      (truncatedFile g file len).entryLocs = file.entryLocs ∧
      (truncatedFile g file len).entryCount = file.entryCount := by
  rcases truncatedFile_cases g file len with ⟨-, hfile⟩ | ⟨-, hfile⟩ <;> rw [hfile] <;>
    exact ⟨rfl, rfl, rfl, rfl, rfl, rfl, rfl⟩

variable (h : Mapped vol bm d) (hs : Sound vol.geometry n)
  (hcs : Freeable vol bm (clustersOfFile vol.geometry d file)) (hlen : len ≤ file.dataLength)

lemma fatEntry_cut (hs : Sound vol.geometry n) (hlen : len ≤ file.dataLength)
    (hc : vol.geometry.InHeap c) (hout : c ∉ clustersOfFile vol.geometry d file) :
    fatEntry vol.geometry (cutMedia vol.geometry bm d file len) c = fatEntry vol.geometry d c := by
  unfold cutMedia
  split_ifs
  · exact fatEntry_shortened hs (clustersFor_mono hlen) hc hout
  · rfl

include hs hcs hlen

lemma clusters_cut (hends : ChainEnds vol.geometry d file.firstCluster file.noFatChain
    (clustersFor vol.geometry file.dataLength)) :
    extent vol.geometry (cutMedia vol.geometry bm d file len)
        (truncatedFile vol.geometry file len).firstCluster file.noFatChain
        (clustersFor vol.geometry len) =
      (clustersOfFile vol.geometry d file).take (clustersFor vol.geometry len) ∧
      ChainEnds vol.geometry (cutMedia vol.geometry bm d file len)
        (truncatedFile vol.geometry file len).firstCluster file.noFatChain
        (clustersFor vol.geometry len) := by
  have hle := @clustersFor_mono vol.geometry _ _ hlen
  have htake : (clustersOfFile vol.geometry d file).take (clustersFor vol.geometry len) =
      extent vol.geometry d file.firstCluster file.noFatChain (clustersFor vol.geometry len) := by
    unfold clustersOfFile extent
    rw [← List.map_take, List.take_range, min_eq_left hle]
  rw [htake]
  unfold cutMedia
  rcases truncatedFile_cases vol.geometry file len with ⟨hlt, hfile⟩ | ⟨hge, hfile⟩
  · rw [if_pos hlt, hfile]
    by_cases hz : clustersFor vol.geometry len = 0
    · simp only [hz, if_true]
      exact ⟨rfl, fun _ => by simp⟩
    · simp only [if_neg hz]
      have hkept : file.noFatChain = false → ∀ i, i + 1 < clustersFor vol.geometry len →
          fatEntry vol.geometry (shortened vol.geometry bm d file.firstCluster file.noFatChain
            (clustersFor vol.geometry file.dataLength) (clustersFor vol.geometry len))
            (nthCluster vol.geometry d file.firstCluster file.noFatChain i) =
          fatEntry vol.geometry d (nthCluster vol.geometry d file.firstCluster file.noFatChain i) :=
        fun _ i hi => fatEntry_shortened_kept hs hcs hle hi
      refine ⟨extent_eq hkept, fun hfat => ?_⟩
      rw [if_neg hz]
      have hlast := fatEntry_shortened_last hs hcs (by omega) hle
      rw [← extent_congr hkept (by omega), ← nthCluster_succ hfat,
        show clustersFor vol.geometry len - 1 + 1 = clustersFor vol.geometry len by omega] at hlast
      exact hlast
  · rw [if_neg hge, hfile]
    have heq : clustersFor vol.geometry len = clustersFor vol.geometry file.dataLength := by omega
    rw [heq]
    exact ⟨rfl, hends⟩

omit hlen in
lemma fatEntry_cut_mem
    (hc : c ∈ (clustersOfFile vol.geometry d file).drop (clustersFor vol.geometry len)) :
    fatEntry vol.geometry (cutMedia vol.geometry bm d file len) c = 0 := by
  have hlt : clustersFor vol.geometry len < clustersFor vol.geometry file.dataLength := by
    have := List.length_pos_of_mem hc
    rw [List.length_drop] at this
    unfold clustersOfFile at this
    rw [extent_length] at this
    omega
  unfold cutMedia
  rw [if_pos hlt]
  exact fatEntry_released_mem hs (hcs.drop _).heap hc

include h

lemma sameCluster_cut (hc : vol.geometry.InHeap c) (hbm : c ∉ bm) :
    SameCluster vol.geometry d (cutMedia vol.geometry bm d file len) c := by
  unfold cutMedia
  split_ifs
  · exact sameCluster_shortened h hs hcs (clustersFor_mono hlen) hc hbm
  · exact fun _ _ => rfl

lemma used_cut (hc : Counted vol.geometry c) :
    used vol.geometry bm (cutMedia vol.geometry bm d file len) c = (used vol.geometry bm d c &&
      !decide (c ∈ (clustersOfFile vol.geometry d file).drop (clustersFor vol.geometry len))) := by
  unfold cutMedia
  split_ifs with hlt
  · exact used_shortened h hs hcs (clustersFor_mono hlen) hc
  · have hle := @clustersFor_mono vol.geometry _ _ hlen
    have hnil : (clustersOfFile vol.geometry d file).drop (clustersFor vol.geometry len) = [] :=
      List.drop_eq_nil_of_le (by unfold clustersOfFile; rw [extent_length]; omega)
    rw [hnil]
    simp

lemma mapped_cut : Mapped vol bm (cutMedia vol.geometry bm d file len) := by
  unfold cutMedia
  split_ifs
  · exact mapped_shortened h hs hcs (clustersFor_mono hlen)
  · exact h

end Cut

/-! ### Truncating an open file -/

/-- `file` is a handle of the file at `path`, whose entry is `e` in the directory `P`. -/
structure Opened (ζ : Horizon) (vol : Volume) (s : Machine) (path : List Char) (file : File)
    (P : Dir)
    (e : DirectoryEntry) : Prop where
  wf : WellFormed ζ vol s
  faultless : ¬ Faulty s
  lookup : (lookup vol path s).1 = .ok e
  inTree : InTree ζ vol.geometry s.device.sectors P
  entry : HasEntry (P.slots ζ vol.geometry s.device.sectors) e
  isFile : e.isDirectory = false
  handle : rewound file = File.ofEntry e

section Opening

variable {ζ : Horizon} {vol : Volume} {s : Machine} {path : List Char} {file : File}
  {e : DirectoryEntry}

lemma openFile_ok (hlookup : (lookup vol path s).1 = .ok e) (hfile : e.isDirectory = false) :
    (openFile vol path s).1 = .ok (File.ofEntry e) := by
  obtain ⟨t, ht⟩ := lookup_run hlookup
  unfold openFile
  rw [withNewWorkspace_outcome, openWithWorkspace, bind_ok ht, hfile]
  rfl

lemma lookup_of_open {f : File} (hopen : (openFile vol path s).1 = .ok f) :
    ∃ e, (lookup vol path s).1 = .ok e ∧ e.isDirectory = false ∧ f = File.ofEntry e := by
  unfold openFile at hopen
  unfold Lookup.lookup
  rw [withNewWorkspace_outcome] at hopen ⊢
  unfold openWithWorkspace at hopen
  rcases hrun : lookupWithWorkspace vol path (s, Workspace.new) with ⟨e | x | _, t⟩
  · rw [bind_ok hrun] at hopen
    split_ifs at hopen with hdir
    · cases hopen
    · cases hopen
      exact ⟨e, rfl, by simpa using hdir, rfl⟩
  · rw [bind_err hrun] at hopen
    cases hopen
  · rw [bind_apply, hrun] at hopen
    cases hopen

lemma opened_of_run (hwf : WellFormed ζ vol s) (hfaultless : ¬ Faulty s)
    (hopen : (openFile vol path s).1 = .ok (rewound file)) :
    ∃ P e, Opened ζ vol s path file P e := by
  obtain ⟨e, hlookup, hfile, hhandle⟩ := lookup_of_open hopen
  obtain ⟨P, hP, he⟩ := lookup_entry hwf hlookup
  exact ⟨P, e, hwf, hfaultless, hlookup, hP, he, hfile, hhandle⟩

end Opening

namespace Opened

variable {ζ : Horizon} {vol : Volume} {s : Machine} {path : List Char} {file : File} {P : Dir}
  {e : DirectoryEntry}
  {len : ℕ} (h : Opened ζ vol s path file P e)

include h

lemma healthy : Healthy s := healthy_of_faultless h.faultless

lemma fields : file.primary = e.primary ∧ file.stream = e.stream ∧ file.entryLocs = e.entryLocs ∧
    file.entryCount = e.entryCount ∧ file.firstCluster = e.firstCluster ∧
    file.dataLength = e.dataLength ∧ file.validLength = e.validLength ∧
    file.noFatChain = e.noFatChain := by
  have hhandle := h.handle
  simp only [rewound, File.ofEntry, File.mk.injEq] at hhandle
  tauto

lemma clusters_eq (d : Sectors) : clustersOfFile vol.geometry d file =
    streamOf vol.geometry d e := by
  obtain ⟨-, -, -, -, hfirst, hdata, -, hfat⟩ := h.fields
  unfold clustersOfFile streamOf
  rw [hfirst, hdata, hfat]

lemma valid_le : file.validLength ≤ file.dataLength := by
  obtain ⟨-, -, -, -, -, hdata, hvalid, -⟩ := h.fields
  rw [hdata, hvalid]
  exact h.entry.fields.2.1

lemma freeable : Freeable vol (bitmapClusters vol s.device.sectors)
    (clustersOfFile vol.geometry s.device.sectors file) := by
  rw [h.clusters_eq]
  exact h.wf.freeable h.inTree h.entry

lemma handlePlaced : HandlePlaced vol.geometry (bitmapClusters vol s.device.sectors) file := by
  obtain ⟨hprim, hstream, hlocs, hcount, -⟩ := h.fields
  obtain ⟨h1, h2, h3, h4⟩ := h.wf.handlePlaced h.inTree h.entry
  refine ⟨?_, ?_, ?_, ?_⟩
  · rwa [hcount, hlocs]
  · rwa [hprim, hcount, hlocs]
  · rwa [hstream, hcount, hlocs]
  · rwa [hcount, hlocs]

/-- **A truncation of an open file succeeds.** -/
lemma run (hlen : len ≤ file.validLength) : ∃ u,
    truncate vol len (s, file) = (.ok (), (u, truncatedFile vol.geometry file len)) ∧
      Became vol (bitmapClusters vol s.device.sectors) s u
        (truncatedMedia vol.geometry (bitmapClusters vol s.device.sectors) s.device.sectors
          file len) := by
  have hspec := truncate_based h.wf.base h.handlePlaced hlen h.freeable
  obtain ⟨_, ⟨u, f⟩, hrun, hfile, hbecame⟩ := exists_of_wp (wp_mono _ hspec (fun _ _ h => h)
    fun _ _ hf => h.faultless hf.faulty)
  simp only at hfile hbecame
  subst hfile
  exact ⟨u, hrun, hbecame⟩

omit h in
lemma owner_ne_upcase {g : Geometry} {d : Sectors} {D : Dir} (hD : InTree ζ g d D) :
    D.owner ≠ .upcase := by
  cases hD <;> simp [Dir.root, Dir.ofEntry]

lemma no_slot {c : ℕ} (hc : vol.geometry.InHeap c)
    (hout : c ∉ P.clusters vol.geometry s.device.sectors) :
    ∀ loc ∈ e.entryLocs.take e.entryCount, ¬ InCluster vol.geometry c loc.lba := by
  intro loc hloc hin
  obtain ⟨own, howners⟩ := h.wf.owners
  obtain ⟨x, hx, rfl⟩ := List.mem_map.mp (h.entry.locs.1 hloc)
  obtain ⟨-, c', hc', hplaced⟩ := extentSlots_slotOn h.wf.sound (Horizon.mem_of_cut hx)
  have heq := hin.unique (h.wf.sound.inHeap_iff.mp hc).1
    (h.wf.sound.inHeap_iff.mp ((howners.dir h.inTree).heap c' hc')).1 hplaced.inCluster
  exact hout (heq ▸ hc')

lemma placed : AllPlaced vol.geometry (bitmapClusters vol s.device.sectors)
    (e.entryLocs.take e.entryCount) := h.wf.placed h.inTree h.entry.locs.1

lemma aligned : ∀ loc ∈ e.entryLocs.take e.entryCount, 32 ∣ loc.offset := by
  intro loc hloc
  obtain ⟨c, -, -, hplaced⟩ := h.placed loc hloc
  exact hplaced.aligned

lemma names (len : ℕ) : Names (truncatedFile vol.geometry file len) e := by
  obtain ⟨-, -, -, hprim, hstream, hlocs, hcount⟩ := truncatedFile_fields vol.geometry file len
  obtain ⟨hprim', hstream', hlocs', hcount', -⟩ := h.fields
  exact ⟨hprim.trans hprim', hstream.trans hstream', hlocs.trans hlocs', hcount.trans hcount'⟩

lemma only (len : ℕ) (bm : List ℕ) : OnlySlots (e.entryLocs.take e.entryCount)
    (cutMedia vol.geometry bm s.device.sectors file len)
    (truncatedMedia vol.geometry bm s.device.sectors file len) := by
  have hnames := h.names len
  obtain ⟨-, hprim, hstream, -⟩ := h.entry.locs
  rw [truncatedMedia_eq]
  exact onlySlots_committed (hnames.primary ▸ hprim) (hnames.stream ▸ hstream)

lemma streamable (hlen : len ≤ file.validLength) :
    Streamable (truncatedFile vol.geometry file len) := by
  obtain ⟨-, -, -, -, hfirst, hdata, -, -⟩ := h.fields
  obtain ⟨hlt, -, hallocated, hfirstLt⟩ := h.entry.fields
  have hvalid := h.valid_le
  have hsound := h.wf.sound
  rcases truncatedFile_cases vol.geometry file len with ⟨hcut, hfile⟩ | ⟨-, hfile⟩
  · have hlength := h.freeable.length_le hsound
    unfold clustersOfFile at hlength
    rw [extent_length] at hlength
    have hcount := hsound.clusterCount
    have hbytes := hsound.clusterBytes
    have hbound : clustersFor vol.geometry len * clusterSize vol.geometry < 2 ^ 64 :=
      calc clustersFor vol.geometry len * clusterSize vol.geometry ≤ 2 ^ 32 * 2 ^ 25 :=
            Nat.mul_le_mul (by omega) hbytes
        _ < 2 ^ 64 := by decide
    rw [hfile]
    refine ⟨?_, hbound, clustersFor_le hsound len, fun hne => ?_⟩
    · simp only
      split_ifs <;> omega
    · have hkeep : clustersFor vol.geometry len ≠ 0 := fun hz => by
        rw [hz, Nat.zero_mul] at hne
        exact hne rfl
      have hdata0 : file.dataLength ≠ 0 := fun hz => by
        rw [hz] at hcut
        simp [clustersFor] at hcut
      simp only [if_neg hkeep]
      rw [hfirst]
      exact hallocated (hdata ▸ hdata0)
  · rw [hfile, hfirst, hdata]
    have hle : len ≤ e.dataLength := by omega
    exact ⟨hfirstLt, hlt, hle, hallocated⟩

variable (hlen : len ≤ file.validLength)

include hlen

lemma fatEntry_eq {c : ℕ} (hc : vol.geometry.InHeap c)
    (hout : c ∉ streamOf vol.geometry s.device.sectors e) :
    fatEntry vol.geometry (truncatedMedia vol.geometry (bitmapClusters vol s.device.sectors)
      s.device.sectors file len) c = fatEntry vol.geometry s.device.sectors c := by
  have hvalid := h.valid_le
  rw [(h.only len _).fatEntry_eq h.wf.sound h.placed hc]
  exact fatEntry_cut h.wf.sound (by omega) hc (by rwa [h.clusters_eq])

lemma sameCluster {c : ℕ} (hc : vol.geometry.InHeap c)
    (hbm : c ∉ bitmapClusters vol s.device.sectors)
    (hout : c ∉ P.clusters vol.geometry s.device.sectors) :
    SameCluster vol.geometry s.device.sectors (truncatedMedia vol.geometry
      (bitmapClusters vol s.device.sectors) s.device.sectors file len) c := by
  have hvalid := h.valid_le
  exact sameCluster_trans
    (sameCluster_cut h.wf.base.mapped h.wf.sound h.freeable (by omega) hc hbm)
    ((h.only len _).sameCluster (h.no_slot hc hout))

lemma slotOn_cut {D : Dir} (hD : InTree ζ vol.geometry s.device.sectors D) {x : Slot}
    (hx : x ∈ D.slots ζ vol.geometry s.device.sectors) :
    slotOn (cutMedia vol.geometry (bitmapClusters vol s.device.sectors) s.device.sectors file len)
      x.loc = x := by
  have hvalid := h.valid_le
  obtain ⟨own, howners⟩ := h.wf.owners
  have hdir := howners.dir hD
  obtain ⟨hon, c, hc, hplaced⟩ := extentSlots_slotOn h.wf.sound (Horizon.mem_of_cut hx)
  have hbm := (howners.apart hdir (Owners.owner_ne hD)).apart c hc
  have hsame := sameCluster_cut h.wf.base.mapped h.wf.sound h.freeable
    (show len ≤ file.dataLength by omega) (hdir.heap c hc) hbm
  unfold slotOn
  rw [hsame _ hplaced.inCluster]
  exact hon.symm

/-- **The set of the file is that of its shortened stream**, and nothing else of the tree has
changed. -/
theorem replaced {u : Machine} (hu : Became vol (bitmapClusters vol s.device.sectors) s u
      (truncatedMedia vol.geometry (bitmapClusters vol s.device.sectors) s.device.sectors
      file len)) :
    Replaced ζ vol s u e (restream e (truncatedFile vol.geometry file len)) := by
  obtain ⟨own, howners⟩ := h.wf.owners
  have hsound := h.wf.sound
  have hupcase := howners.upcase
  have hupcaseOut {D : Dir} (hD : InTree ζ vol.geometry s.device.sectors D) {c : ℕ}
      (hc : c ∈ upcaseClusters vol s.device.sectors) :
      c ∉ D.clusters vol.geometry s.device.sectors := by
    intro hmem
    have hown := hupcase.own c hc
    rw [(howners.dir hD).own c hmem] at hown
    exact owner_ne_upcase hD (Option.some.inj hown)
  refine ⟨hu.base.ready, fun n => ?_,
    ⟨hupcase.heap, length_le_heap hsound hupcase.heap hupcase.nodup,
    ?_, fun c hc => ?_⟩, fun D hD c hc => ?_, fun D hD x hx hout => ?_, ?_, rfl, h.isFile⟩
  · rw [hu.follows.readFails]
    exact h.healthy n
  · rw [hu.sectors]
    refine extent_eq fun _ i hi => ?_
    have hmem : nthCluster vol.geometry s.device.sectors vol.upcase.firstCluster false i ∈
      upcaseClusters vol s.device.sectors := nthCluster_mem (by omega)
    exact h.fatEntry_eq hlen (hupcase.heap _ hmem) (upcase_apart howners h.inTree h.entry hmem)
  · rw [hu.sectors]
    exact h.sameCluster hlen (hupcase.heap c hc) ((howners.apart hupcase nofun).apart c hc)
      (hupcaseOut h.inTree hc)
  · rw [hu.sectors]
    exact h.fatEntry_eq hlen ((howners.dir hD).heap c hc)
      (file_apart hsound howners h.inTree h.entry h.isFile hD hc)
  · obtain ⟨-, c, -, hplaced⟩ := extentSlots_slotOn hsound (Horizon.mem_of_cut hx)
    rw [hu.sectors, (h.only len _).slotOn_eq h.aligned hplaced.aligned hout]
    exact h.slotOn_cut hlen hD hx
  · obtain ⟨prim, stream, names, hset, hentry⟩ := id h.entry
    have hdec : DecodesAt (cutMedia vol.geometry (bitmapClusters vol s.device.sectors)
        s.device.sectors file len) e := by
      rw [hentry, IsSet.entryOf_group hset.isSet]
      exact decodesAt_of_isSet hset.isSet fun x hx =>
        h.slotOn_cut hlen h.inTree (hset.inside.subset hx)
    have hdec' := committed_decodes hdec h.aligned (h.names len) (h.streamable hlen)
    rw [← truncatedMedia_eq, ← hu.sectors] at hdec'
    obtain ⟨prim', stream', names', hslots', hset', hentry'⟩ := hdec'.isSet
    exact ⟨prim', stream', names', hslots', hset', hentry'.trans (IsSet.entryOf_group hset').symm⟩

omit hlen in
lemma handle_eq (len : ℕ) : rewound (truncatedFile vol.geometry file len) =
    File.ofEntry (restream e (truncatedFile vol.geometry file len)) := by
  obtain ⟨hprim, hstream, hlocs, hcount⟩ := h.names len
  simp only [rewound, File.ofEntry, restream, hprim, hstream, hlocs, hcount]

lemma clusters_truncated :
    clustersOfFile vol.geometry (truncatedMedia vol.geometry
        (bitmapClusters vol s.device.sectors) s.device.sectors file len)
        (truncatedFile vol.geometry file len) =
      (clustersOfFile vol.geometry s.device.sectors file).take (clustersFor vol.geometry len) ∧
    ChainEnds vol.geometry (truncatedMedia vol.geometry (bitmapClusters vol s.device.sectors)
        s.device.sectors file len) (truncatedFile vol.geometry file len).firstCluster
        (truncatedFile vol.geometry file len).noFatChain (clustersFor vol.geometry len) := by
  have hvalid := h.valid_le
  have hsound := h.wf.sound
  obtain ⟨-, -, hfat, -⟩ := truncatedFile_fields vol.geometry file len
  have hends : ChainEnds vol.geometry s.device.sectors file.firstCluster file.noFatChain
      (clustersFor vol.geometry file.dataLength) := by
    obtain ⟨-, -, -, -, hfirst, hdata, -, hfat⟩ := h.fields
    rw [hfirst, hdata, hfat]
    exact (h.wf.entryEnds P e h.inTree h.entry).1
  obtain ⟨hclusters, hchain⟩ := @clusters_cut vol (bitmapClusters vol s.device.sectors) _ _ len file
    hsound h.freeable (show len ≤ file.dataLength by omega) hends
  have hsame : ∀ i < clustersFor vol.geometry len,
      fatEntry vol.geometry (truncatedMedia vol.geometry (bitmapClusters vol s.device.sectors)
          s.device.sectors file len) (nthCluster vol.geometry (cutMedia vol.geometry
          (bitmapClusters vol s.device.sectors) s.device.sectors file len)
          (truncatedFile vol.geometry file len).firstCluster file.noFatChain i) =
        fatEntry vol.geometry (cutMedia vol.geometry (bitmapClusters vol s.device.sectors)
          s.device.sectors file len) (nthCluster vol.geometry (cutMedia vol.geometry
          (bitmapClusters vol s.device.sectors) s.device.sectors file len)
          (truncatedFile vol.geometry file len).firstCluster file.noFatChain i) := by
    intro i hi
    have hmem := @nthCluster_mem vol.geometry (cutMedia vol.geometry
      (bitmapClusters vol s.device.sectors) s.device.sectors file len)
      (truncatedFile vol.geometry file len).firstCluster _ file.noFatChain i hi
    rw [hclusters] at hmem
    exact (h.only len _).fatEntry_eq hsound h.placed (h.freeable.heap _ (List.mem_of_mem_take hmem))
  rw [hfat]
  constructor
  · unfold clustersOfFile
    rw [truncatedFile_clusters hsound (by omega), hfat]
    exact (extent_eq fun _ i hi => hsame i (by omega)).trans hclusters
  · intro hnoFat
    have hcut := hchain hnoFat
    split_ifs at hcut ⊢ with hz
    · exact hcut
    · obtain ⟨k, hk⟩ : ∃ k, clustersFor vol.geometry len = k + 1 := ⟨_, (Nat.succ_pred hz).symm⟩
      rw [hk, nthCluster_succ hnoFat] at hcut ⊢
      rw [extent_congr (fun _ i hi => hsame i (by omega)) (show k < clustersFor vol.geometry len by
        omega), hsame k (by omega)]
      exact hcut

lemma bytes_truncated {k : ℕ} (hk : k ≤ len) :
    streamBytes vol.geometry (truncatedMedia vol.geometry (bitmapClusters vol s.device.sectors)
        s.device.sectors file len) ((clustersOfFile vol.geometry s.device.sectors file).take
        (clustersFor vol.geometry len)) 0 k =
      streamBytes vol.geometry s.device.sectors
        (clustersOfFile vol.geometry s.device.sectors file) 0 k := by
  have hvalid := h.valid_le
  have hsound := h.wf.sound
  have hsize := hsound.size_ge
  have hpos : 0 < clusterSize vol.geometry := hsound.clusterBytes_pos
  obtain ⟨own, howners⟩ := h.wf.owners
  have hle := @clustersFor_mono vol.geometry len file.dataLength (by omega)
  refine List.map_congr_left fun i hi => ?_
  rw [List.mem_range] at hi
  rw [Nat.zero_add]
  have hroom := clustersFor_le hsound len
  have hindex : i / clusterSize vol.geometry < clustersFor vol.geometry len := by
    rw [Nat.div_lt_iff_lt_mul hpos]
    omega
  have hlength : (clustersOfFile vol.geometry s.device.sectors file).length =
    clustersFor vol.geometry file.dataLength := extent_length
  have hcluster : ((clustersOfFile vol.geometry s.device.sectors file).take
      (clustersFor vol.geometry len)).getD (i / clusterSize vol.geometry) 0 =
      (clustersOfFile vol.geometry s.device.sectors file).getD
        (i / clusterSize vol.geometry) 0 := by
    rw [List.getD_eq_getElem?_getD, List.getD_eq_getElem?_getD, List.getElem?_take, if_pos hindex]
  have hmem : (clustersOfFile vol.geometry s.device.sectors file).getD
      (i / clusterSize vol.geometry) 0 ∈ clustersOfFile vol.geometry s.device.sectors file := by
    rw [List.getD_eq_getElem _ _ (by omega)]
    exact List.getElem_mem _
  unfold streamByte
  rw [hcluster]
  refine (h.sameCluster hlen (h.freeable.heap _ hmem) (h.freeable.apart _ hmem) fun hdir => ?_).byte
    (by omega) (Nat.mod_lt _ hpos)
  refine file_apart hsound howners h.inTree h.entry h.isFile h.inTree hdir ?_
  rw [← h.clusters_eq]
  exact hmem

end Opened

/-! ### Reading back -/

/-- Open the file and read from its start. -/
def readBack (vol : Volume) (path : List Char) (n : ℕ) : FsM (List UInt8) := do
  let file ← openFile vol path
  let (bytes, _) ← withSnd file (FileIo.read vol n)
  pure bytes

lemma openFile_quiet {vol : Volume} {s : Machine} {path : List Char} (hs : Ready vol.geometry s)
    (htable : vol.upcaseValid = true → TableSound vol.geometry vol.upcase) :
    wp (openFile vol path) (fun _ t => Quiet vol.geometry.partition s t)
      (fun _ t => Quiet vol.geometry.partition s t) s := by
  refine withNewWorkspace_safe ((lookup_safe hs htable path).bind fun entry t ht => ?_)
  rw [wp_ite]
  exact ⟨fun _ => ht, fun _ => ht⟩

lemma readBack_yields {vol : Volume} {s : Machine} {path : List Char} {f : File} {n : ℕ}
    (hs : Ready vol.geometry s)
    (htable : vol.upcaseValid = true → TableSound vol.geometry vol.upcase) (hr : Healthy s)
    (hopen : (openFile vol path s).1 = .ok f) (hf : Streams vol.geometry s.device.sectors f n)
    (hroom : f.validLength ≤ n * clusterSize vol.geometry) (k : ℕ) : (readBack vol path k s).1 = .ok
      (streamBytes vol.geometry s.device.sectors
      (extent vol.geometry s.device.sectors f.firstCluster f.noFatChain n) f.position
      (min k (f.validLength - f.position))) := by
  have hquiet := (wp_ok (run_eq hopen)).mp (@openFile_quiet vol s path hs htable)
  have hmedia := (OnMedia.refl hr).quiet hquiet
  have hread := @read_yields vol (openFile vol path s).2 f n (hquiet.ready hs) hmedia.healthy
    (by rwa [hmedia.sectors]) hroom k
  obtain ⟨bytes, u, hrun, hbytes, -⟩ := exists_of_wp hread
  unfold readBack
  rw [bind_ok (run_eq hopen), bind_apply, withSnd, hrun, hbytes, hmedia.sectors]
  rfl

namespace Opened

variable {ζ : Horizon} {vol : Volume} {s : Machine} {path : List Char} {file : File} {P : Dir}
  {e : DirectoryEntry}
  {len : ℕ} (h : Opened ζ vol s path file P e)

include h

lemma room : file.validLength ≤ clustersFor vol.geometry file.dataLength * clusterSize
    vol.geometry :=
  h.valid_le.trans (clustersFor_le h.wf.sound _)

lemma streams : Streams vol.geometry s.device.sectors (rewound file)
    (clustersFor vol.geometry file.dataLength) where
  heap i hi := h.freeable.heap _ (nthCluster_mem hi)
  short := by
    have hlength := h.freeable.length_le h.wf.sound
    unfold clustersOfFile at hlength
    rwa [extent_length] at hlength
  cached _ := nofun

lemma room_truncated (len : ℕ) : (rewound (truncatedFile vol.geometry file len)).validLength ≤
    clustersFor vol.geometry len * clusterSize vol.geometry := by
  obtain ⟨hvalid, -⟩ := truncatedFile_fields vol.geometry file len
  change (truncatedFile vol.geometry file len).validLength ≤ _
  rw [hvalid]
  exact clustersFor_le h.wf.sound len

variable (hlen : len ≤ file.validLength)

include hlen

lemma streams_truncated : Streams vol.geometry (truncatedMedia vol.geometry
      (bitmapClusters vol s.device.sectors) s.device.sectors file len)
      (rewound (truncatedFile vol.geometry file len)) (clustersFor vol.geometry len) where
  heap i hi := by
    have hmem := @nthCluster_mem vol.geometry (truncatedMedia vol.geometry
      (bitmapClusters vol s.device.sectors) s.device.sectors file len)
      (truncatedFile vol.geometry file len).firstCluster _
      (truncatedFile vol.geometry file len).noFatChain i hi
    have hclusters := (h.clusters_truncated hlen).1
    have hvalid := h.valid_le
    unfold clustersOfFile at hclusters
    rw [truncatedFile_clusters h.wf.sound (by omega)] at hclusters
    rw [hclusters] at hmem
    exact h.freeable.heap _ (List.mem_of_mem_take hmem)
  short := by
    have hvalid := h.valid_le
    have hle := @clustersFor_mono vol.geometry len file.dataLength (by omega)
    exact hle.trans h.streams.short
  cached _ := nofun

lemma reopened {u : Machine} (hu : Became vol (bitmapClusters vol s.device.sectors) s u
      (truncatedMedia vol.geometry (bitmapClusters vol s.device.sectors) s.device.sectors
      file len)) :
    (openFile vol path u).1 = .ok (rewound (truncatedFile vol.geometry file len)) := by
  have hlookup := (h.replaced hlen hu).lookup h.wf h.inTree h.entry h.healthy h.lookup
  unfold swapped at hlookup
  rw [if_pos rfl] at hlookup
  rw [h.handle_eq len]
  exact openFile_ok hlookup h.isFile

end Opened

/-- The truncation of `file`, the file at `path`, to `len` bytes: the prefix of that length can be
read, the clusters which hold it are those of the stream, in their order, and those behind them are
free. -/
structure Truncates (vol : Volume) (s : Machine) (path : List Char) (file : File) (len : ℕ) :
    Prop where
  ok : (truncate vol len (s, file)).1 = .ok ()
  contents : ∀ n, ∃ bytes, (readBack vol path n s).1 = .ok bytes ∧
    bytes.length = min n file.validLength ∧
    (readBack vol path n (truncate vol len (s, file)).2.1).1 = .ok (bytes.take len)
  owns : clustersOfFile vol.geometry (truncate vol len (s, file)).2.1.device.sectors
      (truncate vol len (s, file)).2.2 =
    (clustersOfFile vol.geometry s.device.sectors file).take (clustersFor vol.geometry len)
  ends : ChainEnds vol.geometry (truncate vol len (s, file)).2.1.device.sectors
    (truncate vol len (s, file)).2.2.firstCluster (truncate vol len (s, file)).2.2.noFatChain
    (clustersFor vol.geometry len)
  freed : ∀ c, Counted vol.geometry c → marked vol (truncate vol len (s, file)).2.1 c =
    (marked vol s c && !decide (c ∈ (clustersOfFile vol.geometry s.device.sectors file).drop
      (clustersFor vol.geometry len)))
  unlinked : ∀ c ∈ (clustersOfFile vol.geometry s.device.sectors file).drop
      (clustersFor vol.geometry len),
    fatEntry vol.geometry (truncate vol len (s, file)).2.1.device.sectors c = 0
  position : (truncate vol len (s, file)).2.2.position = min file.position len
  valid : (truncate vol len (s, file)).2.2.validLength = len
  agrees : (openFile vol path (truncate vol len (s, file)).2.1).1 =
    .ok (rewound (truncate vol len (s, file)).2.2)

section Truncated

variable {ζ : Horizon} {vol : Volume} {s : Machine} {path : List Char} {file : File} {P : Dir}
  {e : DirectoryEntry}
  {len : ℕ}

lemma Opened.contents {u : Machine} (h : Opened ζ vol s path file P e)
    (hlen : len ≤ file.validLength)
    (hu : Became vol (bitmapClusters vol s.device.sectors) s u
      (truncatedMedia vol.geometry (bitmapClusters vol s.device.sectors) s.device.sectors file len))
    (n : ℕ) : ∃ bytes, (readBack vol path n s).1 = .ok bytes ∧
      bytes.length = min n file.validLength ∧
      (readBack vol path n u).1 = .ok (bytes.take len) := by
  have hopen : (openFile vol path s).1 = .ok (rewound file) := by
    rw [h.handle]
    exact openFile_ok h.lookup h.isFile
  have hreplaced := h.replaced hlen hu
  have hread := readBack_yields h.wf.ready (fun hv => h.wf.table hv) h.healthy hopen
    h.streams h.room n
  have hread' := @readBack_yields vol u path _ _ hreplaced.ready (fun hv => h.wf.table hv)
    hreplaced.healthy (h.reopened hlen hu) (by rw [hu.sectors]; exact h.streams_truncated hlen)
    (h.room_truncated len) n
  have hvalid := h.valid_le
  have hclusters := (h.clusters_truncated hlen).1
  unfold clustersOfFile at hclusters
  rw [truncatedFile_clusters h.wf.sound (by omega)] at hclusters
  have hlength : (truncatedFile vol.geometry file len).validLength = len :=
    (truncatedFile_fields vol.geometry file len).1
  refine ⟨_, hread, streamBytes_length, ?_⟩
  rw [hread', hu.sectors]
  simp only [rewound, hlength, Nat.sub_zero]
  rw [hclusters]
  have hbytes := h.bytes_truncated hlen (show min n len ≤ len from Nat.min_le_right _ _)
  unfold clustersOfFile at hbytes
  rw [hbytes]
  refine congrArg Outcome.ok ?_
  rcases Nat.le_total len n with hle | hle
  · rw [min_eq_right hle, take_streamBytes (by omega)]
  · rw [min_eq_left hle, min_eq_left (by omega), List.take_of_length_le (by simpa using hle)]

/-- **Truncation keeps a prefix of the file and frees the rest**, and it does not lengthen a
file. -/
theorem truncate_truncates (vol : Volume) (s : Machine) (path : List Char) (file : File) (len : ℕ)
    (hwf : WellFormed .live vol s) (hfaultless : ¬ Faulty s)
    (hopen : (openFile vol path s).1 = .ok (rewound file)) :
    (len ≤ file.validLength → Truncates vol s path file len) ∧
      (file.validLength < len → truncate vol len (s, file) = (.err .endOfFile, (s, file))) := by
  obtain ⟨P, e, h⟩ := opened_of_run hwf hfaultless hopen
  constructor
  · intro hlen
    have hvalid := h.valid_le
    have hdata : len ≤ file.dataLength := by omega
    obtain ⟨u, hrun, hu⟩ := h.run hlen
    obtain ⟨hlength, hposition, -⟩ := truncatedFile_fields vol.geometry file len
    obtain ⟨hclusters, hends⟩ := h.clusters_truncated hlen
    have hmapped := hwf.base.mapped
    have hcutMapped := @mapped_cut vol _ _ _ len file hmapped hwf.sound h.freeable hdata
    refine ⟨?_, fun n => ?_, ?_, ?_, fun c hc => ?_, fun c hc => ?_, ?_, ?_, ?_⟩ <;> rw [hrun]
    · exact h.contents hlen hu n
    · rw [hu.sectors]
      exact hclusters
    · rw [hu.sectors]
      exact hends
    · rw [marked_became hu extent_length, (h.only len _).used_eq hwf.sound h.placed hcutMapped hc,
        used_cut hmapped hwf.sound h.freeable hdata hc]
      rfl
    · rw [hu.sectors, (h.only len _).fatEntry_eq hwf.sound h.placed
        (h.freeable.heap _ (List.mem_of_mem_drop hc))]
      exact fatEntry_cut_mem hwf.sound h.freeable hc
    · exact hposition
    · exact hlength
    · exact h.reopened hlen hu
  · intro hlt
    unfold truncate
    rw [bind_apply]
    simp only [getSnd, if_pos hlt]
    rfl

end Truncated

/-! ### A file of two clusters, one of which is kept -/

/-- A handle of `A` at the byte 600. -/
def pairFile (noFatChain : Bool) : File :=
  { File.ofEntry (pairEntry noFatChain) with position := 600 }

lemma openFile_pair (noFatChain : Bool) :
    (openFile smallVolume ['A'] (pair noFatChain)).1 = .ok (rewound (pairFile noFatChain)) := by
  cases noFatChain
  · decide +kernel
  · decide +kernel

lemma faultless_pair (noFatChain : Bool) : ¬ Faulty (pair noFatChain) := by
  rintro ⟨n, h | h⟩ <;> cases h

lemma openFile_littered :
    (openFile smallVolume ['A'] littered).1 = .ok (rewound (pairFile false)) := by decide +kernel

lemma faultless_littered : ¬ Faulty littered := by
  rintro ⟨n, h | h⟩ <;> cases h

theorem truncate_pair :
    Truncates smallVolume littered ['A'] (pairFile false) 300 ∧
      Truncates smallVolume (pair true) ['A'] (pairFile true) 300 ∧
      truncate smallVolume 1025 (pair true, pairFile true) =
        (.err .endOfFile, (pair true, pairFile true)) :=
  ⟨(truncate_truncates smallVolume littered ['A'] (pairFile false) 300
      wellFormed_littered faultless_littered openFile_littered).1 (by decide),
    (truncate_truncates smallVolume (pair true) ['A'] (pairFile true) 300
      (wellFormed_pair true) (faultless_pair true) (openFile_pair true)).1 (by decide),
    (truncate_truncates smallVolume (pair true) ['A'] (pairFile true) 1025
      (wellFormed_pair true) (faultless_pair true) (openFile_pair true)).2 (by decide)⟩

end ExfatEmbedded.Truncating
