import ExfatEmbedded.Release

/-!
What a well-formed volume gives the operations.
-/

namespace ExfatEmbedded.Tree

open ExfatEmbedded.Library Exec ExfatEmbedded.Core ExfatEmbedded.Entry ExfatEmbedded.Allocation
open ExfatEmbedded.Lookup ExfatEmbedded.FileIo ExfatEmbedded.Reading ExfatEmbedded.Scan
open ExfatEmbedded.Sets ExfatEmbedded.ReadSafety ExfatEmbedded.MountSafety
open ExfatEmbedded.StreamSafety ExfatEmbedded.Media ExfatEmbedded.Writing ExfatEmbedded.Commit
open ExfatEmbedded.Release ExfatEmbedded.Listing

/-! ### Entries -/

lemma HasEntry.fields {slots : List Slot} {e : DirectoryEntry} (h : HasEntry slots e) :
    e.dataLength < 2 ^ 64 ∧ e.validLength ≤ e.dataLength ∧
      (e.dataLength ≠ 0 → 2 ≤ e.firstCluster) ∧ e.firstCluster < 2 ^ 32 := by
  obtain ⟨prim, stream, names, hset, rfl⟩ := h
  have hok := hset.isSet.streamOk
  have h8 := numAt_lt stream.raw 24 8
  have h4 := numAt_lt stream.raw 20 4
  rw [entryOf_eq]
  change numAt stream.raw 24 8 < 2 ^ 64 ∧ numAt stream.raw 8 8 ≤ numAt stream.raw 24 8 ∧
    (numAt stream.raw 24 8 ≠ 0 → 2 ≤ numAt stream.raw 20 4) ∧ numAt stream.raw 20 4 < 2 ^ 32
  unfold EntrySet.StreamBad at hok
  omega

lemma HasEntry.locs {slots : List Slot} {e : DirectoryEntry} (h : HasEntry slots e) :
    e.entryLocs.take e.entryCount ⊆ slots.map Slot.loc ∧
      e.primary ∈ e.entryLocs.take e.entryCount ∧ e.stream ∈ e.entryLocs.take e.entryCount ∧
      2 ≤ e.entryCount ∧ e.entryCount ≤ e.entryLocs.length := by
  obtain ⟨prim, stream, names, hset, rfl⟩ := h
  have hle := hset.isSet.names_le
  have hlen : (entryOf prim stream names).entryLocs.length = 19 := by
    rw [entryOf_locs hset.isSet, overlay_length]
    · simp [noLocators]
    · simp [noLocators]
      omega
  rw [entryOf_take_locs hset.isSet, entryOf_primary, entryOf_stream, hlen, entryOf_entryCount]
  refine ⟨?_, by simp, by simp, by omega, by omega⟩
  exact List.map_subset _ hset.inside.subset

variable {ζ : Horizon} {vol : Volume} {s : Machine} {D : Dir} {e : DirectoryEntry}

lemma Owners.dir {d : Sectors} {own : ℕ → Option Owner} (h : Owners ζ vol d own)
    (hD : InTree ζ vol.geometry d D) :
    Owned vol.geometry (bitmapClusters vol d) d own D.owner (D.clusters vol.geometry d) := by
  cases hD with
  | root heap ended => exact h.root _ (.root heap ended)
  | @child D e dir parent entry isDir =>
    have howned := h.entry D e parent entry
    unfold DirectoryEntry.directory at isDir
    split_ifs at isDir
    cases isDir
    exact howned

lemma Owners.owner_ne {d : Sectors} (hD : InTree ζ vol.geometry d D) : D.owner ≠ .bitmap := by
  cases hD <;> simp [Dir.root, Dir.ofEntry]

lemma Owners.apart {d : Sectors} {own : ℕ → Option Owner} {o : Owner} {cs : List ℕ}
    (h : Owners ζ vol d own)
    (hcs : Owned vol.geometry (bitmapClusters vol d) d own o cs) (ho : o ≠ .bitmap) :
    Freeable vol (bitmapClusters vol d) cs := by
  refine ⟨hcs.heap, hcs.nodup, fun c hc hbm => ho ?_⟩
  have h1 := hcs.own c hc
  rw [h.bitmap.own c hbm] at h1
  exact (Option.some.inj h1).symm

namespace WellFormed

lemma sound (h : WellFormed ζ vol s) : Sound vol.geometry s.device.sectorCount := h.mounted.sound

lemma ready (h : WellFormed ζ vol s) : Ready vol.geometry s := ⟨h.sound, h.scratch⟩

lemma table (h : WellFormed ζ vol s) : vol.upcaseValid = true →
    TableSound vol.geometry vol.upcase :=
  h.mounted.table

lemma base (h : WellFormed ζ vol s) : Base vol (bitmapClusters vol s.device.sectors) s := by
  obtain ⟨own, howners⟩ := h.owners
  have hbm := howners.bitmap
  have hlen : (bitmapClusters vol s.device.sectors).length =
      clustersFor vol.geometry vol.bitmap.byteLength := extent_length
  refine ⟨h.ready, ⟨fun i hi => ?_, hbm.heap, ?_, h.covers,
    length_le_heap h.sound hbm.heap hbm.nodup,
    hbm.nodup⟩, hbm.used, h.tally⟩
  · rw [hlen] at hi
    unfold bitmapClusters
    rw [extent_getD hi]
    rfl
  · rw [hlen]
    exact clustersFor_le h.sound _

lemma freeable (h : WellFormed ζ vol s) (hD : InTree ζ vol.geometry s.device.sectors D)
    (he : HasEntry (D.slots ζ vol.geometry s.device.sectors) e) :
    Freeable vol (bitmapClusters vol s.device.sectors)
      (streamOf vol.geometry s.device.sectors e) := by
  obtain ⟨own, howners⟩ := h.owners
  exact howners.apart (howners.entry D e hD he) nofun

lemma allEnd (h : WellFormed ζ vol s) : AllEnd ζ vol.geometry s.device.sectors := by
  intro D hD
  cases hD with
  | root heap ended =>
    rename_i n
    have hroot := h.sound.root
    have hn : n ≠ 0 := by
      rintro rfl
      rw [link_zero] at ended
      have := h.sound.inHeap_iff.mp hroot
      omega
    refine ⟨fun _ => ?_, fun hz => absurd hz hn⟩
    rw [if_neg (show ¬ (Dir.root vol.geometry n).count = 0 from hn)]
    exact ended
  | @child D e dir parent entry isDir =>
    obtain ⟨hchain, hempty⟩ := h.entryEnds D e parent entry
    unfold DirectoryEntry.directory at isDir
    split_ifs at isDir with hdir
    cases isDir
    refine ⟨hchain, fun hz => hempty hdir ?_⟩
    by_contra hne
    have := clustersFor_pos h.sound hne
    exact absurd hz (by simp only [Dir.ofEntry]; omega)

lemma placed (h : WellFormed ζ vol s) (hD : InTree ζ vol.geometry s.device.sectors D)
    {locs : List EntryLocator}
    (hlocs : locs ⊆ (D.slots ζ vol.geometry s.device.sectors).map Slot.loc) :
    AllPlaced vol.geometry (bitmapClusters vol s.device.sectors) locs := by
  obtain ⟨own, howners⟩ := h.owners
  have hapart := howners.apart (howners.dir hD) (Owners.owner_ne hD)
  intro loc hloc
  obtain ⟨x, hx, rfl⟩ := List.mem_map.mp (hlocs hloc)
  obtain ⟨-, c, hc, hplaced⟩ := extentSlots_slotOn h.sound (Horizon.mem_of_cut hx)
  exact ⟨c, hapart.heap c hc, hapart.apart c hc, hplaced⟩

lemma handlePlaced (h : WellFormed ζ vol s) (hD : InTree ζ vol.geometry s.device.sectors D)
    (he : HasEntry (D.slots ζ vol.geometry s.device.sectors) e) :
    HandlePlaced vol.geometry (bitmapClusters vol s.device.sectors) (File.ofEntry e) := by
  obtain ⟨hsub, hprim, hstream, hcount⟩ := he.locs
  exact ⟨hcount, hprim, hstream, h.placed hD hsub⟩

end WellFormed

lemma Base.bitmapClusters_eq {bm : List ℕ} (h : Base vol bm s)
    (hlen : bm.length = clustersFor vol.geometry vol.bitmap.byteLength) :
    bitmapClusters vol s.device.sectors = bm := by
  refine List.ext_getElem (by rw [hlen]; exact extent_length) fun i h1 h2 => ?_
  have hchain := h.mapped.chain i h2
  rw [List.getD_eq_getElem _ _ h2] at hchain
  rw [← hchain]
  simp [bitmapClusters, extent, nthCluster]

end ExfatEmbedded.Tree
