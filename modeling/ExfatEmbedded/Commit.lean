import ExfatEmbedded.Tree

/-!
What committing and retiring an entry set write.

The media behind each operation are given as a function of the media in front of it.
-/

namespace ExfatEmbedded.Commit

open ExfatEmbedded.Library Exec ExfatEmbedded.Core ExfatEmbedded.Entry ExfatEmbedded.FileIo
open ExfatEmbedded.EntryWrite ExfatEmbedded.Reading ExfatEmbedded.Scan ExfatEmbedded.Sets
open ExfatEmbedded.MountSafety ExfatEmbedded.FatWrites ExfatEmbedded.Media ExfatEmbedded.Writing
open ExfatEmbedded.Tree

/-! ### Slots on the media -/

/-- The slot at a locator. -/
def slotOn (d : Sectors) (loc : EntryLocator) : Slot := ⟨Image.slice (d loc.lba) loc.offset 32, loc⟩

/-- A locator of a slot in cluster `c`. -/
structure Placed (g : Geometry) (c : ℕ) (loc : EntryLocator) : Prop where
  inCluster : InCluster g c loc.lba
  aligned : 32 ∣ loc.offset
  fits : loc.offset + 32 ≤ g.bytesPerSector

/-- The locators are of slots in clusters of the heap which are not of the bitmap. -/
def AllPlaced (g : Geometry) (bm : List ℕ) (locs : List EntryLocator) : Prop :=
  ∀ loc ∈ locs, ∃ c, g.InHeap c ∧ c ∉ bm ∧ Placed g c loc

lemma slotAt_eq_slotOn {g : Geometry} {n : ℕ} (hs : Sound g n) (d : Sectors) {lba k : ℕ}
    (hk : k < g.bytesPerSector / 32) : slotAt d lba k = slotOn d ⟨lba, k * 32⟩ := by
  have := hs.size_le
  unfold slotAt slotOn
  rw [Nat.mod_eq_of_lt (by omega)]

lemma extentSlots_slotOn {g : Geometry} {d : Sectors} {dir : Directory} {n m : ℕ} {x : Slot}
    (hs : Sound g m) (h : x ∈ extentSlots g d dir n) : x = slotOn d x.loc ∧
      ∃ c ∈ extent g d dir.firstCluster dir.noFatChain n, Placed g c x.loc := by
  obtain ⟨j, hj, i, hi, k, hk, rfl⟩ := mem_extentSlots h
  have hsize := hs.size_le
  rw [slotAt_eq_slotOn hs d hk]
  refine ⟨rfl, _, nthCluster_mem hj, ⟨?_, ?_⟩, ⟨k, Nat.mul_comm _ _⟩, ?_⟩
  · exact Nat.le_add_right _ _
  · exact Nat.add_lt_add_left hi _
  · change k * 32 + 32 ≤ _
    omega

variable {vol : Volume} {bm : List ℕ} {s : Machine}

lemma AllPlaced.head {g : Geometry} {loc : EntryLocator} {locs : List EntryLocator}
    (h : AllPlaced g bm (loc :: locs)) : ∃ c, g.InHeap c ∧ c ∉ bm ∧ Placed g c loc :=
  h loc List.mem_cons_self

lemma AllPlaced.tail {g : Geometry} {loc : EntryLocator} {locs : List EntryLocator}
    (h : AllPlaced g bm (loc :: locs)) : AllPlaced g bm locs :=
  fun x hx => h x (List.mem_cons_of_mem _ hx)

/-! ### Reading a checksum -/

lemma readChecksum_spec {checked : Bool} {locs : List EntryLocator} {primary : Bool} {sum : ℕ}
    (hs : Base vol bm s) (hlocs : AllPlaced vol.geometry bm locs) :
    wp (readChecksum vol checked locs primary sum)
      (fun sum' t => sum' = slotsSum (locs.map (slotOn s.device.sectors)) primary sum ∧
        Became vol bm s t s.device.sectors) (Fails vol bm s) s := by
  induction locs generalizing s primary sum with
  | nil => exact ⟨rfl, Became.refl hs⟩
  | cons loc locs ih =>
    obtain ⟨c, hc, hbm, hplaced⟩ := hlocs.head
    have hfits := hplaced.fits
    have hlba := hplaced.inCluster.inPartition hs.ready.sound hc
    unfold readChecksum
    simp only [wp_ite, wp_throw, wp_bind]
    refine ⟨fun hbad => absurd hbad.2 (by omega), fun _ => ?_⟩
    refine wp_mono _ (readSector_staged hs.ready hlba) ?_ fun _ _ h => h.fails hs
    rintro _ t ⟨ht, hst⟩
    have htb := ht.same hs
    rw [wp_scratchSlice htb.base.ready hfits, hst.slice hfits]
    refine wp_mono _ (ih htb.base hlocs.tail) ?_ fun _ _ h => htb.fails h
    rintro sum' u ⟨rfl, hu⟩
    rw [ht.sectors] at hu ⊢
    exact ⟨rfl, htb.trans hu⟩

/-! ### Stream metadata -/

/-- The media with the stream extension of a handle's set rewritten. -/
def streamPatched (d : Sectors) (file : File) : Sectors :=
  let l := file.stream.lba
  let o := file.stream.offset
  put (put (put (put d l (o + 1) [if file.noFatChain then 0x03 else 0x01])
    l (o + 8) (leBytes 8 file.validLength))
    l (o + 20) (leBytes 4 file.firstCluster))
    l (o + 24) (leBytes 8 file.dataLength)

/-- The media with the checksum of a set stored in its primary entry. -/
def summed (d : Sectors) (primary : EntryLocator) (locs : List EntryLocator) : Sectors :=
  put d primary.lba (primary.offset + 2) (leBytes 2 (slotsSum (locs.map (slotOn d)) true 0))

/-- The media with the stream of a handle committed. -/
def committed (d : Sectors) (file : File) : Sectors :=
  summed (streamPatched d file) file.primary (file.entryLocs.take file.entryCount)

/-- The locators of a handle are of slots. -/
structure HandlePlaced (g : Geometry) (bm : List ℕ) (file : File) : Prop where
  count : 2 ≤ file.entryCount ∧ file.entryCount ≤ file.entryLocs.length
  primary : file.primary ∈ file.entryLocs.take file.entryCount
  stream : file.stream ∈ file.entryLocs.take file.entryCount
  locs : AllPlaced g bm (file.entryLocs.take file.entryCount)

theorem updateStream_based {file : File} (hs : Base vol bm s)
    (hfile : HandlePlaced vol.geometry bm file) :
    wp (updateStream vol file)
      (fun _ t => Became vol bm s t (committed s.device.sectors file)) (Fails vol bm s) s := by
  have hcount := hfile.count
  obtain ⟨c, hc, hbm, hplaced⟩ := hfile.locs _ hfile.stream
  obtain ⟨c', hc', hbm', hplaced'⟩ := hfile.locs _ hfile.primary
  have hfits := hplaced.fits
  have hfits' := hplaced'.fits
  have hlba := hplaced.inCluster.inPartition hs.ready.sound hc
  have hlba' := hplaced'.inCluster.inPartition hs.ready.sound hc'
  unfold updateStream
  simp only [wp_ite, wp_throw, wp_bind]
  refine ⟨fun hbad => absurd hcount (by omega), fun _ => ?_⟩
  refine wp_mono _ (readSector_staged hs.ready hlba) ?_ fun _ _ h => h.fails hs
  rintro _ t ⟨ht, hst⟩
  refine ⟨fun hbad => absurd hfits (by omega), fun _ => ?_⟩
  refine wp_mono _ (scratchPatch_staged (ht.follows.ready hs.ready) hst (by simp; omega)) ?_
    fun _ _ h => h
  rintro _ t1 ⟨ht1, hst1⟩
  have h1 := ht.trans (ht.sectors ▸ ht1)
  refine wp_mono _ (scratchPatch_staged (h1.follows.ready hs.ready) hst1 (by simp; omega)) ?_
    fun _ _ h => h
  rintro _ t2 ⟨ht2, hst2⟩
  have h2 := h1.trans (h1.sectors ▸ ht2)
  refine wp_mono _ (scratchPatch_staged (h2.follows.ready hs.ready) hst2 (by simp; omega)) ?_
    fun _ _ h => h
  rintro _ t3 ⟨ht3, hst3⟩
  have h3 := h2.trans (h2.sectors ▸ ht3)
  refine wp_mono _ (scratchPatch_staged (h3.follows.ready hs.ready) hst3 (by simp; omega)) ?_
    fun _ _ h => h
  rintro _ t4 ⟨ht4, hst4⟩
  have h4 := h3.trans (h3.sectors ▸ ht4)
  refine wp_mono _ (writeSector_staged (h4.follows.ready hs.ready) hlba hst4) ?_
    fun _ _ h => (h4.broke h).fails hs
  intro _ u hu
  have hsu : Wrote s u (streamPatched s.device.sectors file) := h4.trans hu
  have hub : Became vol bm s u (streamPatched s.device.sectors file) := by
    refine hsu.became hs (fun c₁ hc₁ => ?_) fun c₁ hc₁ lba hin => ?_
    · refine fatEntry_congr hs.ready.sound (hs.mapped.heap c₁ hc₁) fun lba hbelow => ?_
      have hne : lba ≠ file.stream.lba := by
        rintro rfl
        exact hplaced.inCluster.not_below hbelow
      simp only [streamPatched, put_of_ne hne]
    · have hne : lba ≠ file.stream.lba := by
        rintro rfl
        have := hin.unique (hs.ready.sound.inHeap_iff.mp (hs.mapped.heap _ hc₁)).1
          (hs.ready.sound.inHeap_iff.mp hc).1 hplaced.inCluster
        exact hbm (this ▸ hc₁)
      simp only [streamPatched, put_of_ne hne]
  refine wp_mono _ (readChecksum_spec hub.base hfile.locs) ?_ fun _ _ h => hub.fails h
  rintro sum v ⟨rfl, hv⟩
  rw [hub.sectors] at hv ⊢
  have hsv := hub.trans hv
  refine wp_mono _ (readSector_staged hsv.base.ready hlba') ?_ fun _ _ h => hsv.fails
    (h.fails hsv.base)
  rintro _ w ⟨hw, hstw⟩
  rw [hsv.sectors] at hw hstw
  refine ⟨fun hbad => absurd hfits' (by omega), fun _ => ?_⟩
  have hwr := hw.follows.ready hsv.base.ready
  refine wp_mono _ (scratchPatch_staged hwr hstw (by simp; omega)) ?_ fun _ _ h => h
  rintro _ x ⟨hx, hstx⟩
  have hvx := hw.trans (hw.sectors ▸ hx)
  have hsvx : Wrote v x v.device.sectors := hsv.sectors ▸ hvx
  refine wp_mono _ (writeSector_staged (hvx.follows.ready hsv.base.ready) hlba' hstx) ?_
    fun _ _ h => hsv.fails ((hsvx.broke h).fails hsv.base)
  intro _ y hy
  have hvy := hvx.trans hy
  have hput : Wrote v y (put v.device.sectors file.primary.lba (file.primary.offset + 2)
      (leBytes 2 (slotsSum ((file.entryLocs.take file.entryCount).map
        (slotOn (streamPatched s.device.sectors file))) true 0))) := by
    rw [hsv.sectors]
    exact hvy
  have hfinal := hput.became_cluster hsv.base hc' hbm' hplaced'.inCluster
  rw [hsv.sectors] at hfinal
  exact hsv.trans hfinal

/-! ### Retiring a set -/

/-- The media with the in-use bit of one slot cleared. -/
def retireOne (d : Sectors) (loc : EntryLocator) : Sectors :=
  put d loc.lba loc.offset (leBytes 1 (ofLe (Image.slice (d loc.lba) loc.offset 1) % 0x80))

/-- The media with the in-use bits of slots cleared. -/
def retired (d : Sectors) (locs : List EntryLocator) : Sectors := locs.foldl retireOne d

lemma retireSlots_based {locs : List EntryLocator} (hs : Base vol bm s)
    (hlocs : AllPlaced vol.geometry bm locs) :
    wp (retireSlots vol locs) (fun _ t => Became vol bm s t (retired s.device.sectors locs))
      (Fails vol bm s) s := by
  induction locs generalizing s with
  | nil => exact Became.refl hs
  | cons loc locs ih =>
    obtain ⟨c, hc, hbm, hplaced⟩ := hlocs.head
    have hfits := hplaced.fits
    have hlba := hplaced.inCluster.inPartition hs.ready.sound hc
    unfold retireSlots
    simp only [wp_ite, wp_throw, wp_bind]
    refine ⟨fun hbad => absurd hfits (by omega), fun _ => ?_⟩
    refine wp_mono _ (readSector_staged hs.ready hlba) ?_ fun _ _ h => h.fails hs
    rintro _ t ⟨ht, hst⟩
    have htr := ht.follows.ready hs.ready
    rw [wp_scratchSlice htr (by omega), hst.slice (by omega)]
    refine wp_mono _ (scratchPatch_staged htr hst (by simp; omega)) ?_ fun _ _ h => h
    rintro _ u ⟨hu, hstu⟩
    have hsu := ht.trans (ht.sectors ▸ hu)
    refine wp_mono _ (writeSector_staged (hsu.follows.ready hs.ready) hlba hstu) ?_
      fun _ _ h => (hsu.broke h).fails hs
    intro _ v hv
    have hsv := (hsu.trans hv).became_cluster hs hc hbm hplaced.inCluster
    refine wp_mono _ (ih hsv.base hlocs.tail) ?_ fun _ _ h => hsv.fails h
    intro _ w hw
    rw [hsv.sectors] at hw
    exact hsv.trans hw

/-! ### Changes confined to slots -/

/-- From `d` to `d'` only bytes of the slots `L` have changed. -/
def OnlySlots (L : List EntryLocator) (d d' : Sectors) : Prop :=
  ∀ lba i, d' lba i ≠ d lba i →
    ∃ loc ∈ L, lba = loc.lba ∧ loc.offset ≤ i ∧ i < loc.offset + 32

namespace OnlySlots

variable {g : Geometry} {n : ℕ} {L L' : List EntryLocator} {d d' d'' : Sectors} {loc : EntryLocator}

lemma refl (d : Sectors) : OnlySlots L d d := fun _ _ h => absurd rfl h

lemma trans (h : OnlySlots L d d') (h' : OnlySlots L d' d'') : OnlySlots L d d'' := by
  intro lba i hne
  by_cases heq : d' lba i = d lba i
  · exact h' lba i (by rwa [heq])
  · exact h lba i heq

lemma mono (h : OnlySlots L d d') (hL : L ⊆ L') : OnlySlots L' d d' := by
  intro lba i hne
  obtain ⟨loc, hloc, hin⟩ := h lba i hne
  exact ⟨loc, hL hloc, hin⟩

lemma put {off : ℕ} {bs : List UInt8} (d : Sectors) (hloc : loc ∈ L)
    (hfit : off + bs.length ≤ 32) : OnlySlots L d (Media.put d loc.lba (loc.offset + off) bs) := by
  intro lba i hne
  obtain ⟨rfl, h1, h2⟩ := put_ne hne
  exact ⟨loc, hloc, rfl, by omega, by omega⟩

lemma fatEntry_eq (h : OnlySlots L d d') (hs : Sound g n) (hL : AllPlaced g bm L) {c : ℕ}
    (hc : g.InHeap c) : fatEntry g d' c = fatEntry g d c := by
  refine fatEntry_congr hs hc fun lba hbelow => funext fun i => ?_
  by_contra hne
  obtain ⟨loc, hloc, rfl, -⟩ := h lba i hne
  obtain ⟨c', -, -, hplaced⟩ := hL loc hloc
  exact hplaced.inCluster.not_below hbelow

lemma sameCluster (h : OnlySlots L d d') {c : ℕ} (hc : ∀ loc ∈ L, ¬ InCluster g c loc.lba) :
    SameCluster g d d' c := by
  intro lba hin
  funext i
  by_contra hne
  obtain ⟨loc, hloc, rfl, -⟩ := h lba i hne
  exact hc loc hloc hin

lemma not_inBitmap (hs : Sound g n) (hL : AllPlaced g bm L) (hbm : ∀ c ∈ bm, g.InHeap c)
    {c : ℕ} (hc : c ∈ bm) : ∀ loc ∈ L, ¬ InCluster g c loc.lba := by
  intro loc hloc hin
  obtain ⟨c', hc', hbm', hplaced⟩ := hL loc hloc
  have := hin.unique (hs.inHeap_iff.mp (hbm c hc)).1 (hs.inHeap_iff.mp hc').1 hplaced.inCluster
  exact hbm' (this ▸ hc)

lemma used_eq (h : OnlySlots L d d') (hs : Sound vol.geometry n)
    (hL : AllPlaced vol.geometry bm L) (hm : Mapped vol bm d) {c : ℕ}
    (hc : Counted vol.geometry c) :
    used vol.geometry bm d' c = used vol.geometry bm d c :=
  hm.used_congr hs hc fun _ hc' => h.sameCluster (not_inBitmap hs hL hm.heap hc')

lemma slotOn_eq (h : OnlySlots L d d') (hL : ∀ loc ∈ L, 32 ∣ loc.offset)
    (halign : 32 ∣ loc.offset) (hloc : loc ∉ L) : slotOn d' loc = slotOn d loc := by
  unfold slotOn
  congr 1
  refine Image.slice_congr fun i h1 h2 => ?_
  by_contra hne
  obtain ⟨loc', hloc', hlba, h3, h4⟩ := h loc.lba i hne
  obtain ⟨a, ha⟩ := halign
  obtain ⟨b, hb⟩ := hL loc' hloc'
  have heq : loc = loc' := by
    obtain ⟨l, o⟩ := loc
    obtain ⟨l', o'⟩ := loc'
    simp only at hlba ha hb h1 h2 h3 h4
    simp only [EntryLocator.mk.injEq]
    omega
  exact hloc (heq ▸ hloc')

end OnlySlots

section Confined

variable {d : Sectors} {L : List EntryLocator}

lemma onlySlots_summed {primary : EntryLocator} {locs : List EntryLocator} (h : primary ∈ L) :
    OnlySlots L d (summed d primary locs) := OnlySlots.put d h (by simp)

lemma onlySlots_streamPatched {file : File} (h : file.stream ∈ L) :
    OnlySlots L d (streamPatched d file) :=
  (((OnlySlots.put d h (by simp)).trans (OnlySlots.put _ h (by simp))).trans
    (OnlySlots.put _ h (by simp))).trans (OnlySlots.put _ h (by simp))

lemma onlySlots_committed {file : File} (hp : file.primary ∈ L) (h : file.stream ∈ L) :
    OnlySlots L d (committed d file) :=
  (onlySlots_streamPatched h).trans (onlySlots_summed hp)

lemma onlySlots_retired {locs : List EntryLocator} (h : locs ⊆ L) :
    OnlySlots L d (retired d locs) := by
  induction locs generalizing d with
  | nil => exact OnlySlots.refl d
  | cons loc locs ih =>
    obtain ⟨hloc, hlocs⟩ := List.cons_subset.mp h
    have hone : OnlySlots L d (retireOne d loc) :=
      @OnlySlots.put L loc 0 _ d hloc (by simp)
    exact hone.trans (ih hlocs)

end Confined

end ExfatEmbedded.Commit
