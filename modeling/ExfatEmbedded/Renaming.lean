import ExfatEmbedded.Codec
import ExfatEmbedded.Decoding
import ExfatEmbedded.Removal

/-!
A rename which reuses the slots of the old name.

The loop goes over all name slots of the old set, so that the set stays one exactly when the new
name needs as many of them.
-/

namespace ExfatEmbedded.Renaming

open ExfatEmbedded.Library Exec ExfatEmbedded.Core ExfatEmbedded.Entry ExfatEmbedded.Lookup
open ExfatEmbedded.EntryWrite ExfatEmbedded.Mutation ExfatEmbedded.Mount ExfatEmbedded.Reading
open ExfatEmbedded.Scan ExfatEmbedded.Sets ExfatEmbedded.Listing ExfatEmbedded.ReadSafety
open ExfatEmbedded.MountSafety ExfatEmbedded.FatWrites ExfatEmbedded.Media ExfatEmbedded.Writing
open ExfatEmbedded.Tree ExfatEmbedded.Commit ExfatEmbedded.Slots ExfatEmbedded.Decoding
open ExfatEmbedded.Grammar ExfatEmbedded.Codec ExfatEmbedded.Layout ExfatEmbedded.Removal

/-! ### The units of a name -/

/-- The UTF-16 units of a name. -/
def utf16Of (name : List Char) : List ℕ := name.flatMap encodeUtf16

/-- A name which `utf8_to_utf16` accepts. -/
structure ValidName (name : List Char) : Prop where
  plain : ¬ (name = [] ∨ name = ['.'] ∨ name = ['.', '.'] ∨
    name.any (fun c => c = '\x00' || c = '/' || c = '\\'))
  length : (utf16Of name).length ≤ 255

lemma writeUnits_takes {name : List Char} {written : ℕ} {out : List ℕ}
    (hfit : written + (utf16Of name).length ≤ 255) (hout : written ≤ out.length) :
    wp (writeUnits name written) (fun len out' => len = written + (utf16Of name).length ∧
      out'.take len = out.take written ++ utf16Of name) (fun _ _ => False) out := by
  induction name generalizing written out with
  | nil => simp [writeUnits, utf16Of]
  | cons c name ih =>
    have hcons : utf16Of (c :: name) = encodeUtf16 c ++ utf16Of name := rfl
    rw [hcons, List.length_append] at hfit
    simp only [writeUnits, wp_ite, wp_throw, wp_bind, wp_modify]
    refine ⟨fun hlong => by omega, fun _ => ?_⟩
    have hlen : written + (encodeUtf16 c).length ≤
        (overlay out written (encodeUtf16 c)).length := by
      simp only [overlay, List.length_append, List.length_take]
      omega
    refine wp_mono _ (ih (by omega) hlen) ?_ fun _ _ h => h
    rintro len out' ⟨rfl, htake⟩
    refine ⟨by rw [hcons, List.length_append]; omega, ?_⟩
    have hfront : (overlay out written (encodeUtf16 c)).take (written + (encodeUtf16 c).length) =
        out.take written ++ encodeUtf16 c := by
      rw [overlay, List.append_assoc, ← List.append_assoc, List.take_append_of_le_length
        (by simp; omega)]
      exact List.take_of_length_le (by simp)
    rw [htake, hfront, hcons, List.append_assoc]

lemma utf8ToUtf16_takes {name : List Char} {out : List ℕ} (h : ValidName name) :
    wp (utf8ToUtf16 name) (fun len out' => len = (utf16Of name).length ∧
      out'.take len = utf16Of name) (fun _ _ => False) out := by
  unfold utf8ToUtf16
  rw [wp_ite]
  refine ⟨fun hbad => absurd hbad h.plain, fun _ => ?_⟩
  refine wp_mono _ (writeUnits_takes (by simpa using h.length) (Nat.zero_le _)) ?_ fun _ _ h => h
  rintro len out' ⟨hlen, htake⟩
  exact ⟨by simpa using hlen, by simpa using htake⟩

lemma utf16Of_lt {name : List Char} : ∀ u ∈ utf16Of name, u < 2 ^ 16 := by
  intro u hu
  obtain ⟨c, -, hc⟩ := List.mem_flatMap.mp hu
  exact encodeUtf16_lt hc

/-! ### The hash of a name -/

section Hash

variable {vol : Volume} {r s : Machine} {units : List ℕ}

lemma upcaseNameHash_spec (hready : Ready vol.geometry r) (hr : Healthy r)
    (htable : vol.upcaseValid = true → TableSound vol.geometry vol.upcase)
    (hlt : ∀ u ∈ units, u < 2 ^ 16) (hfolds : Folds vol r units) {sum : ℕ}
    (hs : Quiet vol.geometry.partition r s) :
    wp (upcaseNameHash vol units sum) (fun _ t => Quiet vol.geometry.partition r t)
      (fun _ _ => False) s := by
  induction units generalizing s sum with
  | nil => exact hs
  | cons u units ih =>
    have hmedia := (OnMedia.refl hr).quiet hs
    have hunit := hfolds u (by simp)
    unfold upcaseNameHash
    rw [wp_bind]
    refine wp_mono _ (wp_and _ (upcaseUnit_spec hr hmedia hunit)
      (upcaseUnit_safe (hs.ready hready) htable (hlt u (by simp)))) ?_ fun _ _ h => h.1
    rintro v t ⟨-, ht⟩
    exact ih (fun u hu => hlt u (by simp [hu])) (fun u hu => hfolds u (by simp [hu])) (hs.trans ht)

lemma folds_of_hash (hr : Healthy r) {sum hash : ℕ} {t : Machine} (hs : OnMedia r s)
    (hrun : upcaseNameHash vol units sum s = (.ok hash, t)) : Folds vol r units := by
  induction units generalizing s sum with
  | nil => exact nofun
  | cons u units ih =>
    obtain ⟨hsame, hkeep, -⟩ := mediaOnly_upcaseUnit vol u r s ⟨OnMedia.refl hr, hs⟩
    unfold upcaseNameHash at hrun
    rcases hu : upcaseUnit vol u s with ⟨v | e | _, s'⟩
    · rw [hu] at hsame hkeep
      rw [bind_ok hu] at hrun
      have hrest := ih (hkeep v hsame).2 hrun
      rintro w hw
      rcases List.mem_cons.mp hw with rfl | hw
      · unfold foldUnit
        rw [hsame]
        rfl
      · exact hrest w hw
    · rw [bind_err hu] at hrun
      cases hrun
    · rw [bind_apply, hu] at hrun
      cases hrun

end Hash

/-! ### What is written -/

/-- The media with one name slot rewritten. -/
def namePut (name : List ℕ) (loc : EntryLocator) (k : ℕ) (d : Sectors) : Sectors :=
  put (put d loc.lba loc.offset [0xc1]) loc.lba (loc.offset + 2)
    (unitBytes ((name.drop (k * 15)).take 15))

/-- The media with the name slots rewritten, `k` being the number of the first. -/
def namesPut (name : List ℕ) : List EntryLocator → ℕ → Sectors → Sectors
  | [], _, d => d
  | loc :: locs, k, d => namesPut name locs (k + 1) (namePut name loc k d)

/-- The media with the length and the hash of a name in a stream extension. -/
def streamNamed (loc : EntryLocator) (len hash : ℕ) (d : Sectors) : Sectors :=
  put (put d loc.lba (loc.offset + 3) [UInt8.ofNat len]) loc.lba (loc.offset + 4) (leBytes 2 hash)

/-- The media behind a rename in place. -/
def renamedMedia (e : DirectoryEntry) (name : List ℕ) (hash : ℕ) (d : Sectors) : Sectors :=
  summed (namesPut name ((e.entryLocs.take e.entryCount).drop 2) 0
    (streamNamed e.stream name.length hash d)) e.primary (e.entryLocs.take e.entryCount)

section Write

variable {vol : Volume} {s : Machine} {name : List ℕ} {locs : List EntryLocator}
    {e : DirectoryEntry}

lemma take_unitBytes_length (name : List ℕ) (k : ℕ) :
    (unitBytes ((name.drop k).take 15)).length = 30 := unitBytes_length (by simp)

lemma renameSlots_wrote (hs : Ready vol.geometry s) (hlocs : AllPlaced vol.geometry [] locs) {k : ℕ}
    (hlong : ∀ j < locs.length, (k + j) * 15 ≤ name.length) :
    wp (renameSlots vol name locs k)
      (fun _ t => Wrote s t (namesPut name locs k s.device.sectors)) (fun _ _ => Faulty s) s := by
  induction locs generalizing s k with
  | nil => exact Wrote.refl s
  | cons loc locs ih =>
    obtain ⟨c, hc, -, hplaced⟩ := hlocs.head
    have hfits := hplaced.fits
    have hlba := hplaced.inCluster.inPartition hs.sound hc
    have hunits := take_unitBytes_length name (k * 15)
    have hstart := hlong 0 (by simp)
    simp only [renameSlots, wp_bind, wp_assert]
    refine wp_mono _ (readSector_staged hs hlba) ?_ fun _ _ h => h.faulty
    rintro _ t ⟨ht, hst⟩
    refine wp_mono _ (scratchPatch_staged (ht.follows.ready hs) hst (by simp; omega)) ?_
      fun _ _ h => h
    rintro _ u ⟨hu, hsu⟩
    have htu := ht.trans (ht.sectors ▸ hu)
    refine ⟨by omega, ?_⟩
    refine wp_mono _ (scratchPatch_staged (htu.follows.ready hs) hsu (by omega)) ?_ fun _ _ h => h
    rintro _ v ⟨hv, hsv⟩
    have htv := htu.trans (htu.sectors ▸ hv)
    refine wp_mono _ (writeSector_staged (htv.follows.ready hs) hlba hsv) ?_
      fun _ _ h => (htv.broke h).faulty
    intro _ w hw
    have htw := htv.trans hw
    have hrest : ∀ j < locs.length, (k + 1 + j) * 15 ≤ name.length := fun j hj => by
      have := hlong (j + 1) (by simpa using hj)
      rwa [show k + 1 + j = k + (j + 1) by omega]
    refine wp_mono _ (ih (htw.follows.ready hs) hlocs.tail hrest) ?_
      fun _ _ h => htw.follows.faulty h
    intro _ x hx
    rw [htw.sectors] at hx
    exact htw.trans hx

lemma readChecksum_wrote {checked primary : Bool} {sum : ℕ} (hs : Ready vol.geometry s)
    (hlocs : AllPlaced vol.geometry [] locs) :
    wp (readChecksum vol checked locs primary sum)
      (fun sum' t => sum' = slotsSum (locs.map (slotOn s.device.sectors)) primary sum ∧
        Wrote s t s.device.sectors) (fun _ _ => Faulty s) s := by
  induction locs generalizing s primary sum with
  | nil => exact ⟨rfl, Wrote.refl s⟩
  | cons loc locs ih =>
    obtain ⟨c, hc, -, hplaced⟩ := hlocs.head
    have hfits := hplaced.fits
    have hlba := hplaced.inCluster.inPartition hs.sound hc
    unfold readChecksum
    simp only [wp_ite, wp_throw, wp_bind]
    refine ⟨fun hbad => absurd hbad.2 (by omega), fun _ => ?_⟩
    refine wp_mono _ (readSector_staged hs hlba) ?_ fun _ _ h => h.faulty
    rintro _ t ⟨ht, hst⟩
    have htr := ht.follows.ready hs
    rw [wp_scratchSlice htr hfits, hst.slice hfits]
    refine wp_mono _ (ih htr hlocs.tail) ?_ fun _ _ h => ht.follows.faulty h
    rintro sum' u ⟨rfl, hu⟩
    rw [ht.sectors] at hu ⊢
    exact ⟨rfl, ht.trans hu⟩

lemma renameInPlace_wrote {r : Machine} (hready : Ready vol.geometry r) (hr : Healthy r)
    (htable : vol.upcaseValid = true → TableSound vol.geometry vol.upcase)
    (hlt : ∀ u ∈ name, u < 2 ^ 16) (hfolds : Folds vol r name)
    (hs : Quiet vol.geometry.partition r s)
    (hlocs : AllPlaced vol.geometry [] (e.entryLocs.take e.entryCount))
    (hprimary : e.primary ∈ e.entryLocs.take e.entryCount)
    (hstream : e.stream ∈ e.entryLocs.take e.entryCount)
    (hlong : ∀ j < ((e.entryLocs.take e.entryCount).drop 2).length, j * 15 ≤ name.length) :
    wp (renameInPlace vol e name)
      (fun _ t => ∃ hash, Wrote r t (renamedMedia e name hash r.device.sectors))
      (fun _ _ => Faulty r) s := by
  obtain ⟨c, hc, -, hplaced⟩ := hlocs _ hstream
  obtain ⟨c', hc', -, hplaced'⟩ := hlocs _ hprimary
  have hfits := hplaced.fits
  have hfits' := hplaced'.fits
  have hlba := hplaced.inCluster.inPartition hready.sound hc
  have hlba' := hplaced'.inCluster.inPartition hready.sound hc'
  unfold renameInPlace
  simp only [wp_bind]
  refine wp_mono _ (upcaseNameHash_spec hready hr htable hlt hfolds hs) ?_ fun _ _ h => h.elim
  intro hash t0 h0
  have hw0 := wrote_of_quiet h0
  have hready0 := hw0.follows.ready hready
  refine wp_mono _ (readSector_staged hready0 hlba) ?_ fun _ _ h => (hw0.broke h).faulty
  rintro _ t1 ⟨h1, hst1⟩
  have hw1 := hw0.trans h1
  rw [hw0.sectors] at hw1 hst1
  refine wp_mono _ (scratchPatch_staged (hw1.follows.ready hready) hst1 (by simp; omega)) ?_
    fun _ _ h => h
  rintro _ t2 ⟨h2, hst2⟩
  have hw2 := hw1.trans (hw1.sectors ▸ h2)
  refine wp_mono _ (scratchPatch_staged (hw2.follows.ready hready) hst2 (by simp; omega)) ?_
    fun _ _ h => h
  rintro _ t3 ⟨h3, hst3⟩
  have hw3 := hw2.trans (hw2.sectors ▸ h3)
  refine wp_mono _ (writeSector_staged (hw3.follows.ready hready) hlba hst3) ?_
    fun _ _ h => (hw3.broke h).faulty
  intro _ t4 h4
  have hw4 := hw3.trans h4
  refine wp_mono _ (renameSlots_wrote (hw4.follows.ready hready)
    (fun loc hloc => hlocs loc (List.mem_of_mem_drop hloc)) ?_) ?_ fun _ _ h => hw4.follows.faulty h
  · simpa using hlong
  intro _ t5 h5
  rw [hw4.sectors] at h5
  have hw5 := hw4.trans h5
  unfold recomputeEntryChecksum
  rw [wp_bind]
  refine wp_mono _ (readChecksum_wrote (hw5.follows.ready hready) hlocs) ?_
    fun _ _ h => hw5.follows.faulty h
  rintro sum t6 ⟨rfl, h6⟩
  rw [hw5.sectors] at h6 ⊢
  have hw6 := hw5.trans h6
  unfold patchSlot
  simp only [wp_bind]
  refine wp_mono _ (readSector_staged (hw6.follows.ready hready) hlba') ?_
    fun _ _ h => hw6.follows.faulty h.faulty
  rintro _ t7 ⟨h7, hst7⟩
  rw [hw6.sectors] at h7 hst7
  have hw7 := hw6.trans h7
  refine wp_mono _ (scratchPatch_staged (hw7.follows.ready hready) hst7 (by simp; omega)) ?_
    fun _ _ h => h
  rintro _ t8 ⟨h8, hst8⟩
  have hw8 := hw7.trans (hw7.sectors ▸ h8)
  refine wp_mono _ (writeSector_staged (hw8.follows.ready hready) hlba' hst8) ?_
    fun _ _ h => hw8.follows.faulty h.faulty
  intro _ t9 h9
  exact ⟨hash, hw8.trans h9⟩

end Write

/-! ### The set behind a rename -/

/-- A stream extension with the length and the hash of a name. -/
def renamedStream (len hash : ℕ) (x : Slot) : Slot :=
  ⟨overlay (overlay x.raw 3 [UInt8.ofNat len]) 4 (leBytes 2 hash), x.loc⟩

/-- A name entry with the units from `15 * k` on. -/
def renamedName (name : List ℕ) (k : ℕ) (x : Slot) : Slot :=
  ⟨overlay (overlay x.raw 0 [0xc1]) 2 (unitBytes ((name.drop (k * 15)).take 15)), x.loc⟩

def renamedNames (name : List ℕ) : List Slot → ℕ → List Slot
  | [], _ => []
  | x :: xs, k => renamedName name k x :: renamedNames name xs (k + 1)

/-- The entry under another name. -/
def renamedEntry (e : DirectoryEntry) (name : List ℕ) : DirectoryEntry :=
  { e with name := overlay (List.replicate 255 0) 0 name, nameLen := name.length }

section Slots

variable {name : List ℕ} {locs : List EntryLocator} {d : Sectors} {loc : EntryLocator} {x : Slot}
  {names : List Slot} {len hash k : ℕ}

lemma slotOn_streamNamed (len hash : ℕ) (d : Sectors) :
    slotOn (streamNamed loc len hash d) loc = renamedStream len hash (slotOn d loc) := by
  unfold streamNamed
  rw [slotOn_put_self (by simp), slotOn_put_self (by simp)]
  rfl

lemma onlySlots_streamNamed (loc : EntryLocator) (len hash : ℕ) (d : Sectors) :
    OnlySlots [loc] d (streamNamed loc len hash d) :=
  (OnlySlots.put d (List.mem_singleton_self loc) (by simp)).trans
    (OnlySlots.put _ (List.mem_singleton_self loc) (by simp))

lemma slotOn_namePut (name : List ℕ) (k : ℕ) (d : Sectors) :
    slotOn (namePut name loc k d) loc = renamedName name k (slotOn d loc) := by
  have hunits := take_unitBytes_length name (k * 15)
  have hfirst : slotOn (put d loc.lba (loc.offset + 0) [0xc1]) loc =
      ⟨overlay (slotOn d loc).raw 0 [0xc1], loc⟩ := slotOn_put_self (by simp)
  unfold namePut
  rw [slotOn_put_self (by omega)]
  rw [Nat.add_zero] at hfirst
  rw [hfirst]
  rfl

lemma onlySlots_namePut (name : List ℕ) (loc : EntryLocator) (k : ℕ) (d : Sectors) :
    OnlySlots [loc] d (namePut name loc k d) := by
  have hunits := take_unitBytes_length name (k * 15)
  have hfirst : OnlySlots [loc] d (put d loc.lba (loc.offset + 0) [0xc1]) :=
    OnlySlots.put d (List.mem_singleton_self loc) (by simp)
  exact hfirst.trans (OnlySlots.put _ (List.mem_singleton_self loc) (by omega))

lemma namesPut_slots (hnodup : locs.Nodup) (halign : ∀ loc ∈ locs, 32 ∣ loc.offset) :
    locs.map (slotOn (namesPut name locs k d)) = renamedNames name (locs.map (slotOn d)) k ∧
      OnlySlots locs d (namesPut name locs k d) := by
  induction locs generalizing k d with
  | nil => exact ⟨rfl, OnlySlots.refl d⟩
  | cons loc locs ih =>
    obtain ⟨hnot, hnodup⟩ := List.nodup_cons.mp hnodup
    have hrest : ∀ loc' ∈ locs, 32 ∣ loc'.offset := fun loc' h => halign loc' (by simp [h])
    have hhead := halign loc (by simp)
    obtain ⟨hslots, honly⟩ := @ih (namePut name loc k d) (k + 1) hnodup hrest
    have hone := onlySlots_namePut name loc k d
    refine ⟨?_, (hone.mono (by simp)).trans (honly.mono (List.subset_cons_self _ _))⟩
    have hself : slotOn (namesPut name locs (k + 1) (namePut name loc k d)) loc =
        renamedName name k (slotOn d loc) := by
      rw [honly.slotOn_eq hrest hhead hnot, slotOn_namePut]
    have hsame : locs.map (slotOn (namePut name loc k d)) = locs.map (slotOn d) := by
      refine List.map_congr_left fun loc' hloc' => ?_
      refine hone.slotOn_eq (by simpa using hhead) (hrest loc' hloc') ?_
      rw [List.mem_singleton]
      rintro rfl
      exact hnot hloc'
    rw [hsame] at hslots
    rw [List.map_cons, List.map_cons, renamedNames, ← hslots, ← hself]
    rfl

lemma renamedNames_length (name : List ℕ) (names : List Slot) (k : ℕ) :
    (renamedNames name names k).length = names.length := by
  induction names generalizing k with
  | nil => rfl
  | cons x names ih => simp [renamedNames, ih]

lemma renamedNames_locs (name : List ℕ) (names : List Slot) (k : ℕ) :
    (renamedNames name names k).map Slot.loc = names.map Slot.loc := by
  induction names generalizing k with
  | nil => rfl
  | cons x names ih => simp [renamedNames, ih, renamedName]

lemma renamedName_length (hx : x.raw.length = 32) : (renamedName name k x).raw.length = 32 := by
  have hunits := take_unitBytes_length name (k * 15)
  have hfirst : (overlay x.raw 0 [0xc1]).length = 32 := by rw [overlay_length (by simp [hx]), hx]
  rw [renamedName, overlay_length (by omega), hfirst]

lemma renamedName_type (hx : x.raw.length = 32) : byteAt (renamedName name k x).raw 0 = 0xc1 := by
  have hunits := take_unitBytes_length name (k * 15)
  have hfirst : (overlay x.raw 0 [0xc1]).length = 32 := by rw [overlay_length (by simp [hx]), hx]
  rw [renamedName, byteAt_overlay_of_out (by omega) (by omega)]
  exact @byteAt_overlay_of_in x.raw [0xc1] 0 0 (by simp [hx]) (by simp)

lemma unitsOf_renamedName (hx : x.raw.length = 32) :
    unitsOf (renamedName name k x).raw = unitsOf (nameEntry name k) := by
  have hunits := take_unitBytes_length name (k * 15)
  have hfirst : (overlay x.raw 0 [0xc1]).length = 32 := by rw [overlay_length (by simp [hx]), hx]
  refine List.map_congr_left fun i hi => ?_
  rw [List.mem_range] at hi
  have hdrop (bs : List UInt8) : ([0xc1, 0] ++ bs).drop (2 + 2 * i) = bs.drop (2 * i) := by
    rw [← List.drop_drop]
    rfl
  rw [renamedName, numAt_overlay_of_in (by omega) (by omega), nameEntry, numAt, numAt,
    Nat.mul_comm 15 k, hdrop]

lemma renamedNames_forall {p : Slot → Prop} (h : ∀ x ∈ names, ∀ k, p (renamedName name k x)) :
    ∀ x ∈ renamedNames name names k, p x := by
  induction names generalizing k with
  | nil => exact nofun
  | cons y names ih =>
    intro x hx
    rcases List.mem_cons.mp hx with rfl | hx
    · exact h y (by simp) k
    · exact ih (fun z hz => h z (by simp [hz])) x hx

lemma unitsIn_renamedNames (h : ∀ x ∈ names, x.raw.length = 32) :
    unitsIn (renamedNames name names k) = unitsIn (nameSlots name (names.map Slot.loc) k) := by
  induction names generalizing k with
  | nil => rfl
  | cons x names ih =>
    have hcons : unitsIn (renamedNames name (x :: names) k) =
        unitsOf (renamedName name k x).raw ++ unitsIn (renamedNames name names (k + 1)) := rfl
    rw [hcons, unitsOf_renamedName (h x (by simp)), ih fun y hy => h y (by simp [hy])]
    rfl

end Slots

section Set

variable {name : List ℕ} {prim stream : Slot} {names : List Slot} {hash : ℕ}

lemma renamedStream_fields {len : ℕ} (h : stream.raw.length = 32) (hlen : len ≤ 255) :
    (renamedStream len hash stream).raw.length = 32 ∧
    byteAt (renamedStream len hash stream).raw 3 = len ∧
    (∀ i < 3, byteAt (renamedStream len hash stream).raw i = byteAt stream.raw i) ∧
    ∀ i n, 6 ≤ i → numAt (renamedStream len hash stream).raw i n = numAt stream.raw i n := by
  have hfirst : (overlay stream.raw 3 [UInt8.ofNat len]).length = 32 := by
    rw [overlay_length (by simp [h]), h]
  refine ⟨?_, ?_, fun i hi => ?_, fun i n hi => ?_⟩
  · rw [renamedStream, overlay_length (by simp [hfirst]), hfirst]
  · rw [renamedStream, byteAt_overlay_of_out (by simp [hfirst]) (by omega)]
    exact (@byteAt_overlay_of_in stream.raw [UInt8.ofNat len] 3 0 (by simp [h]) (by simp)).trans
      (UInt8.toNat_ofNat_of_lt' (show _ < 2 ^ 8 by omega))
  · rw [renamedStream, byteAt_overlay_of_out (by simp [hfirst]) (by omega),
      byteAt_overlay_of_out (by simp [h]) (by omega)]
  · rw [renamedStream, numAt_overlay_of_out (by simp [hfirst]) (by simp; omega),
      numAt_overlay_of_out (by simp [h]) (by simp; omega)]

lemma shaped_renamed (h : IsSet prim stream names) (hpos : 0 < name.length)
    (hlen : name.length ≤ 255)
    (hcount : (name.length + 14) / 15 = names.length) :
    Shaped prim (renamedStream name.length hash stream) (renamedNames name names 0) := by
  have hstream := h.length stream (by simp)
  obtain ⟨hraw, hname, hbyte, hnum⟩ := @renamedStream_fields stream hash _ hstream hlen
  have hnamesLen : ∀ x ∈ names, x.raw.length = 32 := fun x hx => h.length x (by simp [hx])
  refine ⟨h.primary, ?_, ?_, ?_, ?_, ?_, fun x hx => ?_⟩
  · rw [h.count, renamedNames_length]
  · rw [hbyte 0 (by omega), h.streamType]
  · have hok := h.streamOk
    unfold EntrySet.StreamBad at hok ⊢
    simp only [hname, hbyte 1 (by omega), hnum 8 8 (by omega), hnum 20 4 (by omega),
      hnum 24 8 (by omega)]
    omega
  · exact renamedNames_forall fun x hx k => renamedName_type (hnamesLen x hx)
  · rw [hname, renamedNames_length, hcount]
  · simp only [List.mem_cons] at hx
    rcases hx with rfl | rfl | hx
    · exact h.length _ (by simp)
    · exact hraw
    · exact renamedNames_forall (p := fun x => x.raw.length = 32)
        (fun y hy k => renamedName_length (hnamesLen y hy)) x hx

lemma groupEntry_renamed (h : IsSet prim stream names) (hunits : ∀ u ∈ name, u < 2 ^ 16)
    (hlen : name.length ≤ 255) (hcount : (name.length + 14) / 15 = names.length) :
    groupEntry prim (renamedStream name.length hash stream) (renamedNames name names 0) =
      renamedEntry (groupEntry prim stream names) name := by
  have hstream := h.length stream (by simp)
  obtain ⟨-, hname, hbyte, hnum⟩ := @renamedStream_fields stream hash _ hstream hlen
  have hnamesLen : ∀ x ∈ names, x.raw.length = 32 := fun x hx => h.length x (by simp [hx])
  have htake := @unitsIn_nameSlots (names.map Slot.loc) name hunits 0
    (by rw [List.length_map]; omega)
  rw [Nat.mul_zero, Nat.sub_zero, List.drop_zero, ← unitsIn_renamedNames hnamesLen] at htake
  have hloc : (renamedStream name.length hash stream).loc = stream.loc := rfl
  simp only [groupEntry, renamedEntry, hname, htake, hbyte 1 (by omega), hnum 20 4 (by omega),
    hnum 24 8 (by omega), hnum 8 8 (by omega), List.map_cons, renamedNames_locs, hloc]

lemma entryOf_renamed (h : IsSet prim stream names) (hunits : ∀ u ∈ name, u < 2 ^ 16)
    (hpos : 0 < name.length) (hlen : name.length ≤ 255)
    (hcount : (name.length + 14) / 15 = names.length) :
    entryOf (withSum prim (renamedStream name.length hash stream) (renamedNames name names 0))
        (renamedStream name.length hash stream) (renamedNames name names 0) =
      renamedEntry (entryOf prim stream names) name := by
  have hshaped := @shaped_renamed _ _ _ _ hash h hpos hlen hcount
  rw [IsSet.entryOf_group hshaped.isSet, groupEntry_withSum hshaped,
    groupEntry_renamed h hunits hlen hcount, IsSet.entryOf_group h]

end Set

/-! ### A directory with another set in one place -/

section Relist

variable {vol : Volume} {s t : Machine} {dir : Directory} {n : ℕ} {entries : List DirectoryEntry}
  {e e' : DirectoryEntry} {d d' : Sectors} {g : Geometry}

lemma visited_congr (h : ∀ j ≤ n, clusterOf g d' dir j = clusterOf g d dir j)
    (hv : Visited g d dir n) : Visited g d' dir n := by
  refine ⟨hv.pos, hv.le, hv.walked.congr fun i hi => h i (by omega), ?_⟩
  rw [h (n - 1) (by omega)]
  exact hv.last

lemma ended_congr (h : ∀ j ≤ n, clusterOf g d' dir j = clusterOf g d dir j) (he : Ended g d dir n) :
    Ended g d' dir n := by
  unfold Ended at he ⊢
  rwa [h n le_rfl]

/-- The set of an entry in a listing, on the media. -/
structure OnDisk (g : Geometry) (d : Sectors) (e : DirectoryEntry) (prim stream : Slot)
    (names : List Slot) : Prop where
  isSet : IsSet prim stream names
  entry : e = entryOf prim stream names
  locs : e.entryLocs.take e.entryCount = (prim :: stream :: names).map Slot.loc
  on : ∀ x ∈ prim :: stream :: names, slotOn d x.loc = x
  nodup : ((prim :: stream :: names).map Slot.loc).Nodup
  aligned : ∀ x ∈ prim :: stream :: names, 32 ∣ x.loc.offset
  placed : AllPlaced g [] ((prim :: stream :: names).map Slot.loc)

variable (hs : Sound vol.geometry s.device.sectorCount) (h : Lists vol s [] collect dir n entries)
  (hdistinct : ((List.range n).map (clusterOf vol.geometry s.device.sectors dir)).Nodup)

include hs h hdistinct

lemma split_listed (hmem : e ∈ entries) : ∃ pre prim stream names post e0 es,
    Split (extentSlots vol.geometry s.device.sectors dir n) pre prim stream names post e e0 es ∧
      OnDisk vol.geometry s.device.sectors e prim stream names := by
  have hyields : Yields (sweep collect (extentSlots vol.geometry s.device.sectors dir n)
      (.going EntrySet.new [])) entries := h.swept.imp_right fun ⟨e, h, _⟩ => ⟨e, h⟩
  obtain ⟨pre, prim, stream, names, post, e0, es, hsplit⟩ :=
    split_of_mem (fun _ => extentSlots_length32) hyields hmem
  have hsub : ∀ x ∈ prim :: stream :: names,
      x ∈ extentSlots vol.geometry s.device.sectors dir n := by
    intro x hx
    rw [hsplit.slots]
    simp only [List.mem_append]
    exact .inl (.inr hx)
  have hnodup := nodup_extentLocs hs (fun j hj => h.visited.heap hj) hdistinct
  rw [hsplit.slots, List.map_append, List.map_append] at hnodup
  refine ⟨pre, prim, stream, names, post, e0, es, hsplit, hsplit.isSet, hsplit.entry, ?_, ?_,
    ?_, ?_, ?_⟩
  · rw [hsplit.entry, entryOf_take_locs hsplit.isSet]
  · exact fun x hx => (extentSlots_slotOn hs (hsub x hx)).1.symm
  · exact hnodup.of_append_left.of_append_right
  · intro x hx
    obtain ⟨-, c, -, hplaced⟩ := extentSlots_slotOn hs (hsub x hx)
    exact hplaced.aligned
  · intro loc hloc
    obtain ⟨x, hx, rfl⟩ := List.mem_map.mp hloc
    obtain ⟨-, c, hc, hplaced⟩ := extentSlots_slotOn hs (hsub x hx)
    obtain ⟨j, hj, rfl⟩ := mem_extent.mp hc
    exact ⟨_, h.visited.heap hj, List.not_mem_nil, hplaced⟩

/-- **Another set in the place of one.** A write to the slots of an entry which leaves the set of
another there replaces the one by the other in the listing, and nothing else. -/
theorem relisted (hmem : e ∈ entries)
    (honly : OnlySlots (e.entryLocs.take e.entryCount) s.device.sectors t.device.sectors)
    {prim' stream' : Slot} {names' : List Slot} (hset : IsSet prim' stream' names')
    (hslots : (e.entryLocs.take e.entryCount).map (slotOn t.device.sectors) =
      prim' :: stream' :: names') :
    ∃ before after, entries = before ++ e :: after ∧
      Lists vol t [] collect dir n (before ++ entryOf prim' stream' names' :: after) := by
  obtain ⟨pre, prim, stream, names, post, e0, es, hsplit, hdisk⟩ := split_listed hs h hdistinct hmem
  have hyields : Yields (sweep collect (extentSlots vol.geometry s.device.sectors dir n)
      (.going EntrySet.new [])) entries := h.swept.imp_right fun ⟨e, h, _⟩ => ⟨e, h⟩
  rw [hdisk.locs] at honly hslots
  have hin : ∀ x ∈ extentSlots vol.geometry s.device.sectors dir n,
      x = slotOn s.device.sectors x.loc ∧ 32 ∣ x.loc.offset := fun x hx => by
    obtain ⟨hon, c, -, hplaced⟩ := extentSlots_slotOn hs hx
    exact ⟨hon, hplaced.aligned⟩
  have haligned : ∀ loc ∈ (prim :: stream :: names).map Slot.loc, 32 ∣ loc.offset := by
    intro loc hloc
    obtain ⟨x, hx, rfl⟩ := List.mem_map.mp hloc
    exact hdisk.aligned x hx
  -- the clusters of the directory are as they were
  have hclusters : ∀ j ≤ n, clusterOf vol.geometry t.device.sectors dir j =
      clusterOf vol.geometry s.device.sectors dir j := by
    intro j
    induction j with
    | zero => intro; rw [clusterOf_zero, clusterOf_zero]
    | succ j ih =>
      intro hj
      cases hfat : dir.noFatChain with
      | true => simp [clusterOf, hfat]
      | false =>
        rw [clusterOf_succ hfat, clusterOf_succ hfat, ih (by omega)]
        exact honly.fatEntry_eq hs hdisk.placed (h.visited.heap (by omega))
  have hnodup := nodup_extentLocs hs (fun j hj => h.visited.heap hj) hdistinct
  have hextent := @extentSlots_map _ _ t.device.sectors _ _ _ hs fun j hj => hclusters j hj.le
  rw [hsplit.slots] at hnodup hin
  rw [hsplit.slots, List.map_append, List.map_append] at hextent
  rw [List.map_append, List.map_append] at hnodup
  obtain ⟨hfront, hpost, hdisjoint⟩ := List.nodup_append.mp hnodup
  obtain ⟨hpre, -, hdisjoint'⟩ := List.nodup_append.mp hfront
  have hpreSame := @map_slotOn_eq _ _ _ pre honly haligned (fun x hx => hin x (by simp [hx]))
    fun x hx hmem => hdisjoint' _ (List.mem_map_of_mem hx) _ hmem rfl
  have hpostSame := @map_slotOn_eq _ _ _ post honly haligned (fun x hx => hin x (by simp [hx]))
    fun x hx hmem => hdisjoint _ (List.mem_append_right _ hmem) _ (List.mem_map_of_mem hx) rfl
  have hreplaced : (prim :: stream :: names).map (fun x => slotOn t.device.sectors x.loc) =
      prim' :: stream' :: names' := by
    rw [← hslots, List.map_map]
    rfl
  rw [hpreSame, hpostSame, hreplaced] at hextent
  have hrebased := hsplit.rebased (@sweep_replaced _ _ _ _ es hset hsplit.idle)
  rw [← hextent] at hrebased
  obtain ⟨rest, hentries, hnew, hgoing⟩ := hrebased.yields hyields
  rw [List.append_assoc] at hentries hnew
  refine ⟨es, rest, hentries, visited_congr hclusters h.visited, ?_⟩
  rw [List.append_assoc] at hgoing
  rcases h.swept with hstop | ⟨e1, hgo, hended⟩
  · rcases hnew with hnew | ⟨e2, hnew⟩
    · exact .inl hnew
    · obtain ⟨e3, h3⟩ := hgoing.mpr ⟨e2, hnew⟩
      rw [hstop] at h3
      cases h3
  · obtain ⟨e2, hnew⟩ := hgoing.mp ⟨e1, hgo⟩
    exact .inr ⟨e2, hnew, ended_congr hclusters hended⟩

end Relist

/-! ### A renamed entry in its directory -/

section Rename

variable {g : Geometry} {d : Sectors} {e : DirectoryEntry} {prim stream : Slot} {names : List Slot}
  {name : List ℕ} {hash : ℕ}

lemma renamed_slots (h : OnDisk g d e prim stream names) :
    (e.entryLocs.take e.entryCount).map (slotOn (renamedMedia e name hash d)) =
        withSum prim (renamedStream name.length hash stream) (renamedNames name names 0) ::
          renamedStream name.length hash stream :: renamedNames name names 0 ∧
      OnlySlots (e.entryLocs.take e.entryCount) d (renamedMedia e name hash d) := by
  have hnodup := h.nodup
  rw [List.map_cons, List.map_cons, List.nodup_cons, List.nodup_cons] at hnodup
  obtain ⟨hprimNot, hstreamNot, hnamesNodup⟩ := hnodup
  rw [List.mem_cons, not_or] at hprimNot
  have halignPrim := h.aligned prim (by simp)
  have halignStream := h.aligned stream (by simp)
  have halignNames : ∀ loc ∈ names.map Slot.loc, 32 ∣ loc.offset := by
    intro loc hloc
    obtain ⟨x, hx, rfl⟩ := List.mem_map.mp hloc
    exact h.aligned x (by simp [hx])
  have hprimary : e.primary = prim.loc := by rw [h.entry, entryOf_primary]
  have hstream : e.stream = stream.loc := by rw [h.entry, entryOf_stream]
  have hdrop : (e.entryLocs.take e.entryCount).drop 2 = names.map Slot.loc := by
    rw [h.locs]
    rfl
  -- the stream extension
  have hone := onlySlots_streamNamed stream.loc name.length hash d
  have hstreamOn := @slotOn_streamNamed stream.loc name.length hash d
  rw [h.on stream (by simp)] at hstreamOn
  have hnamesOn : (names.map Slot.loc).map (slotOn (streamNamed stream.loc name.length hash d)) =
      names := by
    rw [List.map_map]
    refine (List.map_congr_left fun x hx => ?_).trans (List.map_id names)
    have hne : x.loc ≠ stream.loc := fun heq => hstreamNot (heq ▸ List.mem_map_of_mem hx)
    rw [Function.comp_apply, hone.slotOn_eq (by simpa using halignStream)
      (h.aligned x (by simp [hx]))
      (by simpa using hne), h.on x (by simp [hx]), id]
  have hprimOn : slotOn (streamNamed stream.loc name.length hash d) prim.loc = prim := by
    rw [hone.slotOn_eq (by simpa using halignStream) halignPrim (by simpa using hprimNot.1),
      h.on prim (by simp)]
  -- the name entries
  obtain ⟨hrenamed, honly⟩ := @namesPut_slots name (names.map Slot.loc)
    (streamNamed stream.loc name.length hash d) 0 hnamesNodup halignNames
  rw [hnamesOn] at hrenamed
  have hprimOn' := honly.slotOn_eq halignNames halignPrim hprimNot.2
  have hstreamOn' := honly.slotOn_eq halignNames halignStream hstreamNot
  rw [hprimOn] at hprimOn'
  rw [hstreamOn] at hstreamOn'
  set d2 := namesPut name (names.map Slot.loc) 0
    (streamNamed stream.loc name.length hash d) with hd2
  have hrenamedLocs := renamedNames_locs name names 0
  have hlocs : (prim :: renamedStream name.length hash stream ::
      renamedNames name names 0).map Slot.loc = (prim :: stream :: names).map Slot.loc := by
    simp only [List.map_cons, hrenamedLocs]
    rfl
  have hall : ∀ x ∈ prim :: renamedStream name.length hash stream :: renamedNames name names 0,
      slotOn d2 x.loc = x := by
    intro x hx
    simp only [List.mem_cons] at hx
    rcases hx with rfl | rfl | hx
    · exact hprimOn'
    · exact hstreamOn'
    · rw [← hrenamedLocs, List.map_map] at hrenamed
      have hmap := List.map_inj_left.mp (hrenamed.trans (List.map_id _).symm)
      exact hmap x hx
  have halign : ∀ x ∈ prim :: renamedStream name.length hash stream :: renamedNames name names 0,
      32 ∣ x.loc.offset := by
    intro x hx
    have hmem := List.mem_map_of_mem (f := Slot.loc) hx
    rw [hlocs] at hmem
    obtain ⟨y, hy, heq⟩ := List.mem_map.mp hmem
    rw [← heq]
    exact h.aligned y hy
  have hne : ∀ x ∈ renamedStream name.length hash stream :: renamedNames name names 0,
      x.loc ≠ prim.loc := by
    intro x hx heq
    have hmem := List.mem_map_of_mem (f := Slot.loc) hx
    rw [List.map_cons, hrenamedLocs, heq] at hmem
    exact (List.mem_cons.mp hmem).elim hprimNot.1 hprimNot.2
  have hmedia : renamedMedia e name hash d = summed d2 prim.loc
      ((prim :: renamedStream name.length hash stream :: renamedNames name names 0).map
      Slot.loc) := by
    rw [renamedMedia, hdrop, hprimary, hstream, h.locs, hlocs]
  have hfinal := summed_on halign hne hall
  rw [hmedia, h.locs, ← hlocs]
  constructor
  · rw [List.map_map]
    have hmap := (List.map_congr_left hfinal).trans (List.map_id _)
    exact hmap
  · rw [hlocs]
    refine (hone.mono (by simp)).trans ((honly.mono ?_).trans (onlySlots_summed (by simp)))
    intro loc hloc
    simp [hloc]

end Rename

/-- The name fills all name slots but the last, when the loop over them has not panicked. -/
lemma renameSlots_long {vol : Volume} {name : List ℕ} {locs : List EntryLocator} {k : ℕ}
    {s : Machine} :
    wlp (renameSlots vol name locs k) (fun _ _ => ∀ j < locs.length, (k + j) * 15 ≤
      name.length) s := by
  induction locs generalizing s k with
  | nil => exact fun _ _ _ => nofun
  | cons loc locs ih =>
    simp only [renameSlots, wlp_bind, wlp_assert]
    intro _ t _ _ u _ hstart _ v _ _ w _
    refine wlp_mono _ ih fun _ _ h j hj => ?_
    rcases j with _ | j
    · omega
    · have := h j (by simpa using hj)
      rwa [show k + (j + 1) = k + 1 + j by omega]

lemma renameInPlace_long {vol : Volume} {name : List ℕ} {e : DirectoryEntry} {s : Machine} :
    wlp (renameInPlace vol e name)
      (fun _ _ => ∀ j < ((e.entryLocs.take e.entryCount).drop 2).length,
      j * 15 ≤ name.length) s := by
  simp only [renameInPlace, wlp_bind]
  intro hash t _ _ u _ _ v _ _ w _ _ x _
  refine wlp_mono _ renameSlots_long fun _ y hlong => ?_
  intro _ z _
  simpa using hlong

lemma folds_of_rename {vol : Volume} {name : List ℕ} {e : DirectoryEntry} {r s : Machine}
    (hr : Healthy r) (hs : OnMedia r s) (hok : (renameInPlace vol e name s).1 = .ok ()) :
    Folds vol r name := by
  unfold renameInPlace at hok
  rcases hhash : upcaseNameHash vol name 0 s with ⟨hash | err | _, t⟩
  · exact folds_of_hash hr hs hhash
  · rw [bind_err hhash] at hok
    cases hok
  · rw [bind_apply, hhash] at hok
    cases hok

/-- The clusters a walk over a directory goes over are different. -/
def Distinct (g : Geometry) (d : Sectors) (dir : Directory) : Prop :=
  ∀ n, Visited g d dir n → ((List.range n).map (clusterOf g d dir)).Nodup

/-- The entry has been renamed, and the other entries of its directory are as they were. -/
def Renames (vol : Volume) (path newName : List Char) (s : Machine) (dir : Directory)
    (entries : List DirectoryEntry) (e : DirectoryEntry) : Prop :=
  (rename vol path newName s).1 = .ok () ∧ ∃ before after, entries = before ++ e :: after ∧
    (listDirectory vol dir (rename vol path newName s).2).1 =
      .ok (before ++ renamedEntry e (utf16Of newName) :: after)

section Main

variable {vol : Volume} {path newName : List Char} {s : Machine} {dir : Directory}
  {entries : List DirectoryEntry} {e : DirectoryEntry}

lemma rename_eq (hs : Ready vol.geometry s)
    (htable : vol.upcaseValid = true → TableSound vol.geometry vol.upcase)
    (hlookup : (lookup vol (trimSlashes path) s).1 = .ok e) (hname : ValidName newName)
    (hfit : ((utf16Of newName).length + 14) / 15 + 2 ≤ e.entryCount) :
    ∃ t, Quiet vol.geometry.partition s t ∧
      rename vol path newName s = renameInPlace vol e (utf16Of newName) t := by
  obtain ⟨⟨t, ws⟩, ht⟩ := lookup_run hlookup
  have hcalm := lookup_safe hs htable (trimSlashes path) (s, Workspace.new) (calm_new s)
  rw [wp_ok ht] at hcalm
  obtain ⟨len, u, hunits, hlen, htake⟩ := exists_of_wp (@utf8ToUtf16_takes _ ws.utf16 hname)
  have hconvert : onUtf16 (utf8ToUtf16 newName) (t, ws) =
      (.ok len, (t, { ws with utf16 := u })) := by
    unfold onUtf16
    rw [hunits]
  have hguard : ¬ (newName = [] ∨ '/' ∈ newName) := by
    have hplain := hname.plain
    rintro (hnil | hslash)
    · exact hplain (.inl hnil)
    · exact hplain (.inr (.inr (.inr (List.any_eq_true.mpr ⟨'/', hslash, by decide⟩))))
  refine ⟨t, hcalm.quiet, ?_⟩
  have hrun : renameWithWorkspace vol path newName (s, Workspace.new) =
      ((renameInPlace vol e (utf16Of newName) t).1,
        ((renameInPlace vol e (utf16Of newName) t).2, { ws with utf16 := u })) := by
    unfold renameWithWorkspace
    rw [if_neg hguard, bind_ok ht, bind_ok hconvert, if_neg (by omega)]
    rw [← htake]
    rfl
  unfold rename withNewWorkspace
  rw [bind_apply, withSnd, hrun]
  rcases renameInPlace vol e (utf16Of newName) t with ⟨_ | _ | _, t'⟩ <;> rfl

lemma lists_of_list (hs : Sound vol.geometry s.device.sectorCount)
    (hlist : (listDirectory vol dir s).1 = .ok entries) :
    ∃ n, Lists vol s [] collect dir n entries := by
  have hready : Ready vol.geometry s := ⟨hs, scratch_of_list hlist⟩
  have hspec : wp (listDirectory vol dir) (fun es _ => Listed vol s [] collect dir es)
      (fun _ _ => True) s := by
    rw [wp_listDirectory]
    exact wp_mono _ (readDirectory_spec hready) (fun _ _ h => h.2) fun _ _ _ => trivial
  obtain ⟨n, hvisited, hswept⟩ := (wp_ok (run_eq hlist)).mp hspec
  exact ⟨n, hvisited, hswept⟩

lemma list_of_lists {n : ℕ} (hs : Ready vol.geometry s) (hr : Healthy s)
    (h : Lists vol s [] collect dir n entries) : (listDirectory vol dir s).1 = .ok entries := by
  have hspec : wp (listDirectory vol dir) (fun es _ => es = entries) (fun _ _ => False) s := by
    rw [wp_listDirectory]
    exact wp_mono _ (readDirectory_lists hs hr h) (fun _ _ h => h.2) fun _ _ h => h
  obtain ⟨es, t, hrun, rfl⟩ := exists_of_wp hspec
  rw [hrun]

lemma listed_count (hs : Sound vol.geometry s.device.sectorCount)
    (hlist : (listDirectory vol dir s).1 = .ok entries) (hmem : e ∈ entries) :
    (e.nameLen + 14) / 15 + 2 = e.entryCount := by
  obtain ⟨n, hlists⟩ := lists_of_list hs hlist
  have hyields : Yields (sweep collect (extentSlots vol.geometry s.device.sectors dir n)
      (.going EntrySet.new [])) entries := hlists.swept.imp_right fun ⟨e, h, _⟩ => ⟨e, h⟩
  obtain ⟨_, prim, stream, names, _, _, _, hsplit⟩ :=
    split_of_mem (fun _ => extentSlots_length32) hyields hmem
  have hset := hsplit.isSet
  rw [hsplit.entry, IsSet.entryOf_group hset]
  change (byteAt stream.raw 3 + 14) / 15 + 2 = byteAt prim.raw 1 + 1
  rw [hset.nameCount, hset.count]

lemma utf16Of_pos (h : ValidName newName) : 0 < (utf16Of newName).length := by
  rcases newName with _ | ⟨c, name⟩
  · exact absurd (Or.inl rfl) h.plain
  · have hcons : utf16Of (c :: name) = encodeUtf16 c ++ utf16Of name := rfl
    have hpos : 0 < (encodeUtf16 c).length := by
      unfold encodeUtf16
      split_ifs
      · exact Nat.one_pos
      · exact Nat.two_pos
    rw [hcons, List.length_append]
    omega

/-- **When a rename in place renames.** The new name folds, and needs all name slots of the old. -/
theorem rename_renames_iff (hvol : MountedOn vol s) (hfaults : ¬ Faulty s)
    (hlookup : (lookup vol (trimSlashes path) s).1 = .ok e)
    (hlist : (listDirectory vol dir s).1 = .ok entries) (hmem : e ∈ entries)
    (hdistinct : Distinct vol.geometry s.device.sectors dir) (hname : ValidName newName)
    (hfit : ((utf16Of newName).length + 14) / 15 + 2 ≤ e.entryCount) :
    Renames vol path newName s dir entries e ↔ Folds vol s (utf16Of newName) ∧
      ((utf16Of newName).length + 14) / 15 + 2 = e.entryCount := by
  have hready : Ready vol.geometry s := ⟨hvol.sound, scratch_of_list hlist⟩
  have hr : Healthy s := healthy_of_faultless hfaults
  have htable : vol.upcaseValid = true → TableSound vol.geometry vol.upcase := hvol.table
  obtain ⟨n, hlists⟩ := lists_of_list hvol.sound hlist
  have hdiff := hdistinct n hlists.visited
  obtain ⟨_, prim, stream, names, _, _, _, -, hdisk⟩ := split_listed hvol.sound hlists hdiff hmem
  obtain ⟨t, ht, hrename⟩ := rename_eq hready htable hlookup hname hfit
  have hcount : e.entryCount = names.length + 2 := by
    rw [hdisk.entry, entryOf_entryCount]
  have hnames : ((e.entryLocs.take e.entryCount).drop 2).length = names.length := by
    rw [hdisk.locs]
    simp
  have hplaced := hdisk.placed
  rw [← hdisk.locs] at hplaced
  have hprimary : e.primary ∈ e.entryLocs.take e.entryCount := by
    rw [hdisk.locs, hdisk.entry, entryOf_primary]
    simp
  have hstream : e.stream ∈ e.entryLocs.take e.entryCount := by
    rw [hdisk.locs, hdisk.entry, entryOf_stream]
    simp
  -- a rename in place writes the slots, and nothing else
  have hwrites (hfolds : Folds vol s (utf16Of newName))
      (hlong : ∀ j < names.length, j * 15 ≤ (utf16Of newName).length) :
      ∃ u hash, renameInPlace vol e (utf16Of newName) t = (.ok (), u) ∧
        Wrote s u (renamedMedia e (utf16Of newName) hash s.device.sectors) := by
    have hspec := renameInPlace_wrote (e := e) hready hr htable utf16Of_lt hfolds ht
      hplaced hprimary
      hstream (by rwa [hnames])
    obtain ⟨_, u, hrun, hash, hu⟩ := exists_of_wp
      (wp_mono _ hspec (fun _ _ h => h) fun _ _ h => hfaults h)
    exact ⟨u, hash, hrun, hu⟩
  constructor
  · rintro ⟨hok, before, after, -, hlist'⟩
    rw [hrename] at hok hlist'
    have hfolds := folds_of_rename hr ((OnMedia.refl hr).quiet ht) hok
    have hlong := renameInPlace_long _ _ (run_eq hok)
    rw [hnames] at hlong
    obtain ⟨u, hash, hrun, hu⟩ := hwrites hfolds hlong
    rw [hrun] at hlist'
    have hsound : Sound vol.geometry u.device.sectorCount := hu.follows.sectorCount ▸ hvol.sound
    exact ⟨hfolds, listed_count hsound hlist' (e := renamedEntry e (utf16Of newName)) (by simp)⟩
  · rintro ⟨hfolds, hexact⟩
    obtain ⟨u, hash, hrun, hu⟩ := hwrites hfolds fun j hj => by omega
    have hlen := hname.length
    have hpos := utf16Of_pos hname
    obtain ⟨hslots, honly⟩ := @renamed_slots _ _ _ _ _ _ _ hash hdisk
    rw [← hu.sectors] at hslots honly
    have hshaped := @shaped_renamed _ _ _ _ hash hdisk.isSet hpos hlen (by omega)
    obtain ⟨before, after, hentries, hlists'⟩ :=
      relisted hvol.sound hlists hdiff hmem honly hshaped.isSet hslots
    rw [entryOf_renamed hdisk.isSet utf16Of_lt hpos hlen (by omega), ← hdisk.entry] at hlists'
    refine ⟨by rw [hrename, hrun], before, after, hentries, ?_⟩
    rw [hrename, hrun]
    exact list_of_lists (hu.follows.ready hready) (fun n => hu.follows.readFails ▸ hr n) hlists'

end Main

lemma distinct_smallRoot {fat bitmap root : Image}
    (hend : fatEntry smallVolume.geometry (smallMachine fat bitmap root).device.sectors 2 =
    0xffffffff) :
    Distinct smallVolume.geometry (smallMachine fat bitmap root).device.sectors
      (Directory.root smallVolume.geometry) := by
  intro n hn
  have hone : n = 1 := by
    by_contra hne
    have hpos := hn.pos
    have hchain := hn.walked.chain 0 (by omega) rfl
    rw [clusterOf_succ rfl, clusterOf_zero] at hchain
    rw [show (Directory.root smallVolume.geometry).firstCluster = 2 from rfl, hend] at hchain
    omega
  subst hone
  simp

lemma list_pair : (listDirectory smallVolume (Directory.root smallVolume.geometry) (pair false)).1 =
    .ok [pairEntry false] := by
  decide +kernel

theorem rename_renames_iff_pair :
    Renames smallVolume ['A'] ['B'] (pair false) (Directory.root smallVolume.geometry)
        [pairEntry false] (pairEntry false) ↔
      Folds smallVolume (pair false) (utf16Of ['B']) ∧
        ((utf16Of ['B']).length + 14) / 15 + 2 = (pairEntry false).entryCount :=
  rename_renames_iff (@wellFormed_pair .live false).mounted
    (fun ⟨_, h⟩ => by simp [pair, smallMachine, smallDevice] at h)
    (lookup_pair false) list_pair (by simp) (distinct_smallRoot (by decide +kernel))
    ⟨by decide, by decide⟩ (by decide)

/-- A small volume whose root holds a file of a name which takes two name entries. -/
def wide : Machine :=
  smallMachine smallFat (sectorWith [(0, [0x07])])
    (sectorWith ((64, setBytes (newFileSet (List.replicate 16 97)) 4) :: systemSlots 0))

def wideName : List Char := List.replicate 16 'a'

/-- The entry of the file. -/
def wideEntry : DirectoryEntry :=
  { splitEntry (newFileSet (List.replicate 16 97)) false 26 2 with
    nameLen := 16
    entryLocs := overlay (splitEntry (newFileSet []) false 26 2).entryLocs 3 [⟨26, 160⟩]
    entryCount := 4 }

def wideOwner : ℕ → Option Owner
  | 2 => some .root
  | 3 => some .bitmap
  | 4 => some .upcase
  | _ => none

set_option maxRecDepth 100000 in
lemma wellFormed_wide : WellFormed .whole smallVolume wide := by
  refine @small_wellFormed _ _ _ _ wideOwner 1 [Dir.root smallVolume.geometry 1] ?_
  decide +kernel

/-- The second name entry is asked for units from 15 on: a name of one unit has none there, and a
name of 15 units leaves an entry in which the set is no more decoded. -/
theorem rename_panics : WellFormed .whole smallVolume wide ∧ ¬ Faulty wide ∧
    (lookup smallVolume (trimSlashes wideName) wide).1 = .ok wideEntry ∧
    (listDirectory smallVolume (Directory.root smallVolume.geometry) wide).1 = .ok [wideEntry] ∧
    Distinct smallVolume.geometry wide.device.sectors (Directory.root smallVolume.geometry) ∧
    ValidName ['B'] ∧ ((utf16Of ['B']).length + 14) / 15 + 2 ≤ wideEntry.entryCount ∧
    (rename smallVolume wideName ['B'] wide).1 = .panic ∧
    (rename smallVolume wideName (List.replicate 15 'b') wide).1 = .ok () ∧
    (listDirectory smallVolume (Directory.root smallVolume.geometry)
      (rename smallVolume wideName (List.replicate 15 'b') wide).2).1 = .ok [] ∧
    ¬ Renames smallVolume wideName ['B'] wide (Directory.root smallVolume.geometry)
      [wideEntry] wideEntry := by
  have hpanic : (rename smallVolume wideName ['B'] wide).1 = .panic := by decide +kernel
  refine ⟨wellFormed_wide, ?_, by decide +kernel, by decide +kernel,
    distinct_smallRoot (by decide +kernel), ⟨by decide, by decide⟩, by decide, hpanic,
    by decide +kernel, by decide +kernel, fun h => ?_⟩
  · rintro ⟨n, h⟩
    simp [wide, smallMachine, smallDevice] at h
  · rw [Renames, hpanic] at h
    exact absurd h.1 (by rintro ⟨⟩)

end ExfatEmbedded.Renaming
