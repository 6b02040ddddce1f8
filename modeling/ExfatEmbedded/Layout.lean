import ExfatEmbedded.WellFormed

/-!
A check that a volume is well-formed.
-/

namespace ExfatEmbedded.Layout

open ExfatEmbedded.Library Exec ExfatEmbedded.Core ExfatEmbedded.Entry ExfatEmbedded.Allocation
open ExfatEmbedded.Lookup ExfatEmbedded.FileIo ExfatEmbedded.Reading ExfatEmbedded.Scan
open ExfatEmbedded.Sets ExfatEmbedded.ReadSafety ExfatEmbedded.MountSafety
open ExfatEmbedded.StreamSafety ExfatEmbedded.Media ExfatEmbedded.Writing ExfatEmbedded.Tree
open ExfatEmbedded.Commit ExfatEmbedded.Release ExfatEmbedded.Listing ExfatEmbedded.Mount

variable {ζ : Horizon} {vol : Volume} {s : Machine} {e : DirectoryEntry}

/-! ### Checking well-formedness -/

/-- What may be a set, at each primary entry. -/
def candidates : List Slot → List (Slot × Slot × List Slot)
  | [] => []
  | x :: rest =>
    (if byteAt x.raw 0 = 0x85 then [(x, rest.headD x, rest.tail.take (byteAt x.raw 1 - 1))]
      else []) ++ candidates rest

instance (prim stream : Slot) (names : List Slot) : Decidable (IsSet prim stream names) :=
  decidable_of_iff (byteAt prim.raw 0 = 0x85 ∧ byteAt prim.raw 1 = names.length + 1 ∧
      byteAt stream.raw 0 = 0xc0 ∧ ¬ EntrySet.StreamBad stream.raw ∧
      (∀ x ∈ names, byteAt x.raw 0 = 0xc1) ∧ (byteAt stream.raw 3 + 14) / 15 = names.length ∧
      slotsSum (prim :: stream :: names) true 0 = numAt prim.raw 2 2 ∧
      ∀ x ∈ prim :: stream :: names, x.raw.length = 32)
    ⟨fun ⟨h1, h2, h3, h4, h5, h6, h7, h8⟩ => ⟨h1, h2, h3, h4, h5, h6, h7, h8⟩,
      fun h => ⟨h.1, h.2, h.3, h.4, h.5, h.6, h.7, h.8⟩⟩

lemma mem_candidates {slots names : List Slot} {prim stream : Slot}
    (h : SetIn slots prim stream names) : (prim, stream, names) ∈ candidates slots := by
  obtain ⟨hset, pre, post, rfl⟩ := h
  induction pre with
  | nil =>
    have hcount := hset.count
    simp [candidates, hset.primary, hcount]
  | cons x pre ih => exact List.mem_append_right _ ih

lemma setIn_of_candidates {slots names : List Slot} {prim stream : Slot}
    (h : (prim, stream, names) ∈ candidates slots) (hset : IsSet prim stream names) :
    SetIn slots prim stream names := by
  refine ⟨hset, ?_⟩
  induction slots with
  | nil => simp [candidates] at h
  | cons x rest ih =>
    rcases List.mem_append.mp h with h | h
    · split_ifs at h with hx
      · simp only [List.mem_singleton, Prod.mk.injEq] at h
        obtain ⟨rfl, rfl, rfl⟩ := h
        cases rest with
        | nil =>
          have htype := hset.streamType
          simp only [List.headD_nil] at htype
          omega
        | cons y rest =>
          simp only [List.headD_cons, List.tail_cons]
          exact List.IsPrefix.isInfix (by simp [List.take_prefix])
      · simp at h
    · exact (ih h).trans (List.suffix_cons x rest).isInfix

/-- The entries of the candidates. -/
def candidateEntries (slots : List Slot) : List DirectoryEntry :=
  (candidates slots).map fun p => entryOf p.1 p.2.1 p.2.2

lemma mem_candidateEntries {slots : List Slot} (h : HasEntry slots e) :
    e ∈ candidateEntries slots := by
  obtain ⟨prim, stream, names, hset, rfl⟩ := h
  exact List.mem_map.mpr ⟨_, mem_candidates hset, rfl⟩

/-- What is to be checked of one entry. -/
structure EntryOk (vol : Volume) (d : Sectors) (own : ℕ → Option Owner) (e : DirectoryEntry) :
    Prop where
  owned : Owned vol.geometry (bitmapClusters vol d) d own (.entry e.primary)
    (streamOf vol.geometry d e)
  chain : ChainEnds vol.geometry d e.firstCluster e.noFatChain
    (clustersFor vol.geometry e.dataLength)
  empty : e.isDirectory = true → e.dataLength = 0 → e.firstCluster = 0

/-- The volume with the directories `dirs` and the owners `own` is well-formed. -/
structure Checked (ζ : Horizon) (vol : Volume) (s : Machine) (own : ℕ → Option Owner) (n : ℕ)
    (dirs : List Dir) :
    Prop where
  root : Dir.root vol.geometry n ∈ dirs
  rootHeap : ∀ i < n, vol.geometry.InHeap (link vol.geometry s.device.sectors
    vol.geometry.rootCluster i)
  rootEnds : link vol.geometry s.device.sectors vol.geometry.rootCluster n = 0xffffffff
  closed : ∀ D ∈ dirs, ∀ e ∈ candidateEntries (D.slots ζ vol.geometry s.device.sectors),
    ∀ dir ∈ e.directory, Dir.ofEntry vol.geometry e dir ∈ dirs
  sets : ∀ D ∈ dirs, ∀ p ∈ candidates (D.slots ζ vol.geometry s.device.sectors),
    IsSet p.1 p.2.1 p.2.2
  entries : ∀ D ∈ dirs, ∀ e ∈ candidateEntries (D.slots ζ vol.geometry s.device.sectors),
    EntryOk vol s.device.sectors own e
  bitmap : Owned vol.geometry (bitmapClusters vol s.device.sectors) s.device.sectors own .bitmap
    (bitmapClusters vol s.device.sectors)
  upcase : Owned vol.geometry (bitmapClusters vol s.device.sectors) s.device.sectors own .upcase
    (upcaseClusters vol s.device.sectors)
  rootOwned : Owned vol.geometry (bitmapClusters vol s.device.sectors) s.device.sectors own .root
    ((Dir.root vol.geometry n).clusters vol.geometry s.device.sectors)
  bitmapEnds : ChainEnds vol.geometry s.device.sectors vol.bitmap.firstCluster false
    (clustersFor vol.geometry vol.bitmap.byteLength)
  upcaseEnds : ChainEnds vol.geometry s.device.sectors vol.upcase.firstCluster false
    (clustersFor vol.geometry vol.upcase.byteLength)

lemma mem_candidates_of_type {slots : List Slot} {x : Slot} (hx : x ∈ slots)
    (htype : byteAt x.raw 0 = 0x85) :
    ∃ stream names, (x, stream, names) ∈ candidates slots := by
  induction slots with
  | nil => simp at hx
  | cons y rest ih =>
    rcases List.mem_cons.mp hx with rfl | hx
    · exact ⟨_, _, List.mem_append_left _ (by rw [if_pos htype]; exact List.mem_singleton_self _)⟩
    · obtain ⟨stream, names, h⟩ := ih hx
      exact ⟨stream, names, List.mem_append_right _ h⟩

lemma root_count {g : Geometry} {d : Sectors} {m n k : ℕ} (hs : Sound g k)
    (hm : ∀ i < m, g.InHeap (link g d g.rootCluster i))
    (hmend : link g d g.rootCluster m = 0xffffffff)
    (hn : ∀ i < n, g.InHeap (link g d g.rootCluster i))
    (hnend : link g d g.rootCluster n = 0xffffffff) : m = n := by
  have hnot : ¬ g.InHeap 0xffffffff := fun h => by
    have := hs.inHeap_iff.mp h
    omega
  rcases Nat.lt_trichotomy m n with hlt | heq | hgt
  · exact absurd (hmend ▸ hn m hlt) hnot
  · exact heq
  · exact absurd (hnend ▸ hm n hgt) hnot

/-- **A volume which passes the check is well-formed.** -/
theorem Checked.wellFormed {own : ℕ → Option Owner} {n : ℕ} {dirs : List Dir}
    (h : Checked ζ vol s own n dirs) (hmounted : MountedOn vol s)
    (hscratch : vol.geometry.bytesPerSector ≤ s.scratch.len) (hvalid : vol.upcaseValid = true)
    (hcovers : vol.geometry.clusterCount ≤ vol.bitmap.byteLength * 8)
    (htally : Tally vol.geometry (bitmapClusters vol s.device.sectors) s) : WellFormed ζ vol s := by
  have hsound := hmounted.sound
  have hmem {D : Dir} (hD : InTree ζ vol.geometry s.device.sectors D) : D ∈ dirs := by
    induction hD with
    | root heap ended =>
      rw [root_count hsound heap ended h.rootHeap h.rootEnds]
      exact h.root
    | child parent entry isDir ih => exact h.closed _ ih _ (mem_candidateEntries entry) _ isDir
  have hentry {D : Dir} {e : DirectoryEntry} (hD : InTree ζ vol.geometry s.device.sectors D)
      (he : HasEntry (D.slots ζ vol.geometry s.device.sectors) e) :=
    h.entries D (hmem hD) e (mem_candidateEntries he)
  refine ⟨hmounted, hscratch, hvalid, hcovers, htally, ⟨own, h.bitmap, h.upcase, fun m hm => ?_,
    fun D e hD he => (hentry hD he).owned⟩, h.bitmapEnds, h.upcaseEnds,
    ⟨n, .root h.rootHeap h.rootEnds⟩, fun D hD x hx htype => ?_,
    fun D e hD he => ⟨(hentry hD he).chain, (hentry hD he).empty⟩⟩
  · generalize hroot : Dir.root vol.geometry m = D at hm
    cases hm with
    | root heap ended =>
      rw [root_count hsound heap ended h.rootHeap h.rootEnds] at hroot ⊢
      exact h.rootOwned
    | child parent entry isDir =>
      have := congrArg Dir.owner hroot
      cases this
  · obtain ⟨stream, names, hmem'⟩ := mem_candidates_of_type hx htype
    exact ⟨stream, names, setIn_of_candidates hmem' (h.sets D (hmem hD) _ hmem')⟩

/-! ### Deciding the check -/

instance (g : Geometry) (d : Sectors) (first : ℕ) (noFatChain : Bool) (n : ℕ) :
    Decidable (ChainEnds g d first noFatChain n) := inferInstanceAs (Decidable (_ → _))

instance (g : Geometry) (bm : List ℕ) (d : Sectors) (own : ℕ → Option Owner) (o : Owner)
    (cs : List ℕ) : Decidable (Owned g bm d own o cs) :=
  decidable_of_iff (cs.Nodup ∧ (∀ c ∈ cs, g.InHeap c) ∧ (∀ c ∈ cs, used g bm d c = true) ∧
      ∀ c ∈ cs, own c = some o)
    ⟨fun ⟨h1, h2, h3, h4⟩ => ⟨h1, h2, h3, h4⟩, fun h => ⟨h.1, h.2, h.3, h.4⟩⟩

instance (vol : Volume) (d : Sectors) (own : ℕ → Option Owner) (e : DirectoryEntry) :
    Decidable (EntryOk vol d own e) :=
  decidable_of_iff (Owned vol.geometry (bitmapClusters vol d) d own (.entry e.primary)
        (streamOf vol.geometry d e) ∧
      ChainEnds vol.geometry d e.firstCluster e.noFatChain
        (clustersFor vol.geometry e.dataLength) ∧
      (e.isDirectory = true → e.dataLength = 0 → e.firstCluster = 0))
    ⟨fun ⟨h1, h2, h3⟩ => ⟨h1, h2, h3⟩, fun h => ⟨h.1, h.2, h.3⟩⟩

instance (vol : Volume) (s : Machine) (own : ℕ → Option Owner) (n : ℕ) (dirs : List Dir) :
    Decidable (Checked ζ vol s own n dirs) :=
  decidable_of_iff (Dir.root vol.geometry n ∈ dirs ∧
      (∀ i < n, vol.geometry.InHeap (link vol.geometry s.device.sectors
        vol.geometry.rootCluster i)) ∧
      link vol.geometry s.device.sectors vol.geometry.rootCluster n = 0xffffffff ∧
      (∀ D ∈ dirs, ∀ e ∈ candidateEntries (D.slots ζ vol.geometry s.device.sectors),
        ∀ dir ∈ e.directory, Dir.ofEntry vol.geometry e dir ∈ dirs) ∧
      (∀ D ∈ dirs, ∀ p ∈ candidates (D.slots ζ vol.geometry s.device.sectors),
        IsSet p.1 p.2.1 p.2.2) ∧
      (∀ D ∈ dirs, ∀ e ∈ candidateEntries (D.slots ζ vol.geometry s.device.sectors),
        EntryOk vol s.device.sectors own e) ∧
      Owned vol.geometry (bitmapClusters vol s.device.sectors) s.device.sectors own .bitmap
        (bitmapClusters vol s.device.sectors) ∧
      Owned vol.geometry (bitmapClusters vol s.device.sectors) s.device.sectors own .upcase
        (upcaseClusters vol s.device.sectors) ∧
      Owned vol.geometry (bitmapClusters vol s.device.sectors) s.device.sectors own .root
        ((Dir.root vol.geometry n).clusters vol.geometry s.device.sectors) ∧
      ChainEnds vol.geometry s.device.sectors vol.bitmap.firstCluster false
        (clustersFor vol.geometry vol.bitmap.byteLength) ∧
      ChainEnds vol.geometry s.device.sectors vol.upcase.firstCluster false
        (clustersFor vol.geometry vol.upcase.byteLength))
    ⟨fun ⟨h1, h2, h3, h4, h5, h6, h7, h8, h9, h10, h11⟩ =>
        ⟨h1, h2, h3, h4, h5, h6, h7, h8, h9, h10, h11⟩,
      fun h => ⟨h.1, h.2, h.3, h.4, h.5, h.6, h.7, h.8, h.9, h.10, h.11⟩⟩

/-- A machine with the device of `plain` and other contents of its FAT, bitmap and root. -/
lemma small_wellFormed {fat bitmap root : Image} {own : ℕ → Option Owner} {n : ℕ} {dirs : List Dir}
    (h : Checked ζ smallVolume (smallMachine fat bitmap root) own n dirs) :
    WellFormed ζ smallVolume (smallMachine fat bitmap root) :=
  h.wellFormed ⟨plain, mount_plain, rfl⟩ (Nat.le_refl 512) rfl (by decide) nofun

end ExfatEmbedded.Layout
