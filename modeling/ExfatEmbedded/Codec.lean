import ExfatEmbedded.FormatMedia
import ExfatEmbedded.Grammar
import ExfatEmbedded.Slots

/-!
What is decoded from the slots an entry set was written to.

A run of the encoder which returns leaves a set in its slots, and the decoder yields the entry of a
set. Nothing is asked of the device or of the geometry.
-/

namespace ExfatEmbedded.Codec

open ExfatEmbedded.Library Exec ExfatEmbedded.Core ExfatEmbedded.Entry ExfatEmbedded.Lookup
open ExfatEmbedded.FileIo ExfatEmbedded.EntryWrite ExfatEmbedded.FormatMedia ExfatEmbedded.Scan
open ExfatEmbedded.Sets ExfatEmbedded.Media ExfatEmbedded.Writing ExfatEmbedded.FatWrites
open ExfatEmbedded.Commit ExfatEmbedded.Slots ExfatEmbedded.Grammar ExfatEmbedded.Mount
open ExfatEmbedded.Mutation

/-! ### Requests which return -/

section Requests

variable {s : Machine} {size lba off n : ℕ} {d : Sectors} {bs : List UInt8}

lemma readSector_holds : wlp (readSector size lba)
    (fun _ t => t.device.sectors = s.device.sectors ∧ Staged size lba s.device.sectors t) s := by
  intro _ t h
  unfold readSector at h
  simp only at h
  split_ifs at h with hlen hfail hout
  · cases h
  · cases h
  · cases h
  · cases h
    refine ⟨rfl, fun i hi => ?_, fun _ _ _ => rfl⟩
    exact if_pos hi

lemma scratchPatch_holds (h : Staged size lba d s) : wlp (scratchPatch size off bs)
    (fun _ t => t.device.sectors = s.device.sectors ∧ off + bs.length ≤ size ∧
      Staged size lba (put d lba off bs) t) s := by
  simp only [scratchPatch, wlp_bind, wlp_get, wlp_assert, wlp_modify]
  refine fun hfit => ⟨trivial, hfit.1, fun i hi => ?_, fun l i hi => ?_⟩
  · rw [put_self]
    change Image.patch s.scratch.bytes off bs i = _
    unfold Image.patch
    rw [h.bytes i hi]
  · rw [put_outside (by omega)]
    exact h.rest l i hi

lemma writeSector_holds (h : Staged size lba d s) :
    wlp (writeSector size lba) (fun _ t => t.device.sectors = d) s := by
  intro _ t hrun
  unfold writeSector at hrun
  simp only at hrun
  split_ifs at hrun with hlen hfail hout
  · cases hrun
  · cases hrun
  · cases hrun
  · cases hrun
    funext l i
    change Sectors.write _ _ _ _ l i = _
    unfold Sectors.write
    by_cases hl : l = lba
    · rw [if_pos hl, Image.splice]
      split_ifs with hi
      · rw [h.bytes i hi, hl]
      · rw [h.rest l i (by omega), hl]
    · rw [if_neg hl, h.rest l i (Or.inl hl)]

end Requests

variable {vol : Volume} {s : Machine} {loc : EntryLocator} {locs : List EntryLocator}

lemma patchSlot_holds {off : ℕ} {bs : List UInt8} : wlp (patchSlot vol loc off bs)
    (fun _ t => t.device.sectors = put s.device.sectors loc.lba (loc.offset + off) bs) s := by
  simp only [patchSlot, wlp_bind]
  refine wlp_mono _ readSector_holds fun _ t ht => ?_
  refine wlp_mono _ (scratchPatch_holds ht.2) fun _ u hu => ?_
  exact writeSector_holds hu.2.2

lemma readChecksum_holds {checked primary : Bool} {sum : ℕ} :
    wlp (readChecksum vol checked locs primary sum)
      (fun r t => r = slotsSum (locs.map (slotOn s.device.sectors)) primary sum ∧
        t.device.sectors = s.device.sectors) s := by
  induction locs generalizing s primary sum with
  | nil => simp [readChecksum, slotsSum]
  | cons loc locs ih =>
    simp only [readChecksum, wlp_ite, wlp_throw, wlp_bind]
    refine ⟨fun _ => trivial, fun _ => wlp_mono _ readSector_holds fun _ t ht => ?_⟩
    refine wlp_scratchSlice fun hfit => wlp_mono _ ih fun r u hu => ?_
    have hslice : Image.slice t.scratch.bytes loc.offset 32 =
        (slotOn s.device.sectors loc).raw :=
      Image.slice_congr fun i _ hi => ht.2.bytes i (by omega)
    rw [hslice, ht.1] at hu
    exact hu

lemma upcaseNameHash_holds {units : List ℕ} {sum : ℕ} : wlp (upcaseNameHash vol units sum)
    (fun _ t => t.device.sectors = s.device.sectors) s := by
  have hstable : ReadStable (fun t => t.device.sectors = s.device.sectors) := by
    refine ⟨fun size lba t ht => ?_, fun size off n => ?_⟩
    · unfold leaves readSector
      simp only
      split_ifs
      · exact ht
      · exact ht
      · exact ht
      · exact ht
    · exact Preserves.get.bind fun _ => (Preserves.assert _).bind fun _ =>
        Preserves.get.bind fun _ => Preserves.pure _
  intro sum' t h
  have hkeep := (hstable.upcaseNameHash units sum :
    Preserves _ (upcaseNameHash vol units sum)) s rfl
  unfold leaves at hkeep
  rw [h] at hkeep
  exact hkeep

theorem updateStream_holds {file : File} : wlp (updateStream vol file)
    (fun _ t => t.device.sectors = committed s.device.sectors file) s := by
  simp only [updateStream, wlp_ite, wlp_throw, wlp_bind]
  refine ⟨fun _ => trivial, fun _ => wlp_mono _ readSector_holds fun _ t0 h0 => ?_⟩
  refine ⟨fun _ => trivial, fun _ => wlp_mono _ (scratchPatch_holds h0.2) fun _ t1 h1 => ?_⟩
  refine wlp_mono _ (scratchPatch_holds h1.2.2) fun _ t2 h2 => ?_
  refine wlp_mono _ (scratchPatch_holds h2.2.2) fun _ t3 h3 => ?_
  refine wlp_mono _ (scratchPatch_holds h3.2.2) fun _ t4 h4 => ?_
  refine wlp_mono _ (writeSector_holds h4.2.2) fun _ u hu => ?_
  refine wlp_mono _ readChecksum_holds fun sum v hv => ?_
  refine wlp_mono _ readSector_holds fun _ w hw => ⟨fun _ => trivial, fun _ => ?_⟩
  refine wlp_mono _ (scratchPatch_holds hw.2) fun _ x hx => ?_
  refine wlp_mono _ (writeSector_holds hx.2.2) fun _ y hy => ?_
  rw [hy, hv.2, hv.1, hu]
  rfl

/-! ### Sets at locators -/

variable {prim stream : Slot} {names : List Slot} {d d' : Sectors} {e : DirectoryEntry}

/-- The slots at the locators of `e` decode to `e`, which is yielded at the last of them only. -/
def DecodesAt (d : Sectors) (e : DirectoryEntry) : Prop :=
  (feed ((e.entryLocs.take e.entryCount).map (slotOn d)) EntrySet.new).1 =
    .ok (List.replicate (e.entryCount - 1) none ++ [some e])

lemma feed_isSet (h : IsSet prim stream names) :
    (feed (prim :: stream :: names) EntrySet.new).1 = .ok
      (List.replicate (names.length + 1) none ++ [some (groupEntry prim stream names)]) := by
  obtain ⟨init, x, rfl⟩ : ∃ init x, names = init ++ [x] :=
    ⟨names.dropLast, names.getLast h.names_ne, (List.dropLast_append_getLast _).symm⟩
  have hlast := push_last (feed_names h.expects).2
  rw [← afterNames_snoc] at hlast
  have hentry : (afterNames (afterStream prim stream) (init ++ [x])).entry =
      groupEntry prim stream (init ++ [x]) := IsSet.entryOf_group h
  have hsplit : prim :: stream :: (init ++ [x]) = (prim :: stream :: init) ++ [x] := by simp
  rw [hsplit, feed_append, bind_ok (feed_set h rfl), feed, bind_assoc, bind_ok hlast, hentry]
  simp [feed]
  rfl

lemma IsSet.group_locs (h : IsSet prim stream names) :
    (groupEntry prim stream names).entryLocs.take (groupEntry prim stream names).entryCount =
      (prim :: stream :: names).map Slot.loc := by
  rw [← IsSet.entryOf_group h]
  exact entryOf_take_locs h

lemma IsSet.group_count (h : IsSet prim stream names) :
    (groupEntry prim stream names).entryCount = names.length + 2 := by
  rw [← IsSet.entryOf_group h]
  exact entryOf_entryCount

lemma decodesAt_of_isSet (h : IsSet prim stream names)
    (hon : ∀ x ∈ prim :: stream :: names, slotOn d x.loc = x) :
    DecodesAt d (groupEntry prim stream names) := by
  have hmap : ((prim :: stream :: names).map Slot.loc).map (slotOn d) =
      prim :: stream :: names := by
    rw [List.map_map]
    exact (List.map_congr_left hon).trans (List.map_id _)
  unfold DecodesAt
  rw [IsSet.group_locs h, hmap, feed_isSet h, IsSet.group_count h]
  rfl

lemma DecodesAt.isSet (h : DecodesAt d e) : ∃ prim stream names,
    (e.entryLocs.take e.entryCount).map (slotOn d) = prim :: stream :: names ∧
      IsSet prim stream names ∧ e = groupEntry prim stream names := by
  unfold DecodesAt at h
  rcases hslots : (e.entryLocs.take e.entryCount).map (slotOn d) with _ | ⟨y, ys⟩
  · rw [hslots] at h
    exact absurd (Outcome.ok.inj h) (by simp)
  obtain ⟨init, x, hinit⟩ : ∃ init x, y :: ys = init ++ [x] :=
    ⟨_, _, (List.dropLast_append_getLast (List.cons_ne_nil y ys)).symm⟩
  have hlen : ∀ z ∈ init ++ [x], z.raw.length = 32 := by
    rw [← hinit, ← hslots]
    intro z hz
    obtain ⟨loc, -, rfl⟩ := List.mem_map.mp hz
    exact slotOn_length d loc
  rw [hslots, hinit] at h
  obtain ⟨t, hrun⟩ : ∃ t, feed (init ++ [x]) EntrySet.new =
    (.ok (List.replicate (e.entryCount - 1) none ++ [some e]), t) := ⟨_, run_eq h⟩
  obtain ⟨os, u, o, hfeed, hpush⟩ := feed_snoc hrun
  have ho : o = some e := by
    rw [feed_append, bind_ok hfeed, feed, bind_assoc, bind_ok hpush] at hrun
    have := congrArg Prod.fst hrun
    simp only [feed, pure_bind] at this
    have hlists := Outcome.ok.inj this
    exact (List.append_singleton_inj.mp hlists).2
  obtain ⟨pre, prim, stream, names, hends, -, hset, he⟩ :=
    ends_of_push hlen hfeed (by rw [hpush, ho])
  have hcount : (init ++ [x]).length ≤ e.entryCount := by
    rw [← hinit, ← hslots, List.length_map, List.length_take]
    exact min_le_left _ _
  have hpre : pre = [] := by
    have hgroup := IsSet.group_count hset
    rw [← he] at hgroup
    rw [hends, List.length_append] at hcount
    simp only [List.length_cons] at hcount
    exact List.length_eq_zero_iff.mp (by omega)
  subst hpre
  exact ⟨prim, stream, names, by rw [hinit, hends, List.nil_append], hset, he⟩

/-! ### Storing the checksum -/

/-- A primary entry, a stream extension and name entries, whatever checksum is stored. -/
structure Shaped (prim stream : Slot) (names : List Slot) : Prop where
  primary : byteAt prim.raw 0 = 0x85
  count : byteAt prim.raw 1 = names.length + 1
  streamType : byteAt stream.raw 0 = 0xc0
  streamOk : ¬ EntrySet.StreamBad stream.raw
  nameType : ∀ x ∈ names, byteAt x.raw 0 = 0xc1
  nameCount : (byteAt stream.raw 3 + 14) / 15 = names.length
  length : ∀ x ∈ prim :: stream :: names, x.raw.length = 32

lemma IsSet.shaped (h : IsSet prim stream names) : Shaped prim stream names :=
  ⟨h.primary, h.count, h.streamType, h.streamOk, h.nameType, h.nameCount, h.length⟩

lemma checksumStep_lt (sum : ℕ) {raw : List UInt8} {primary : Bool} (h : sum < 2 ^ 16) :
    checksumStep sum raw primary < 2 ^ 16 := by
  unfold checksumStep
  generalize raw.zipIdx = ps
  induction ps generalizing sum with
  | nil => exact h
  | cons p ps ih =>
    refine ih _ ?_
    dsimp only
    split_ifs
    · exact Nat.mod_lt _ (by decide)
    · exact h

lemma slotsSum_lt {slots : List Slot} {primary : Bool} {sum : ℕ} (h : sum < 2 ^ 16) :
    slotsSum slots primary sum < 2 ^ 16 := by
  induction slots generalizing primary sum with
  | nil => exact h
  | cons x slots ih => exact ih (checksumStep_lt _ h)

/-- The primary entry of slots with their checksum stored. -/
def withSum (prim stream : Slot) (names : List Slot) : Slot :=
  ⟨overlay prim.raw 2 (leBytes 2 (slotsSum (prim :: stream :: names) true 0)), prim.loc⟩

lemma Shaped.isSet (h : Shaped prim stream names) :
    IsSet (withSum prim stream names) stream names := by
  have hprim := h.length prim (by simp)
  have hin : 2 + (leBytes 2 (slotsSum (prim :: stream :: names) true 0)).length ≤
      prim.raw.length := by
    rw [leBytes_length]
    omega
  have hbyte {i : ℕ} (hi : i < 2) : byteAt (withSum prim stream names).raw i = byteAt prim.raw i :=
    byteAt_overlay_of_out hin (Or.inl hi)
  refine ⟨?_, ?_, h.streamType, h.streamOk, h.nameType, h.nameCount, ?_, fun x hx => ?_⟩
  · rw [hbyte (by omega), h.primary]
  · rw [hbyte (by omega), h.count]
  · have hsum : slotsSum (withSum prim stream names :: stream :: names) true 0 =
        slotsSum (prim :: stream :: names) true 0 := by
      unfold withSum
      rw [slotsSum, slotsSum, checksumStep_overlay _ (by omega) (leBytes_length _ _)]
      rfl
    rw [hsum]
    change _ = numAt (overlay _ (2 + 0) _) 2 2
    rw [numAt_overlay_of_in hin (i := 0) (by simp)]
    change _ = ofLe (leBytes 2 _)
    rw [ofLe_leBytes_of_lt (slotsSum_lt (by decide))]
  · rcases List.mem_cons.mp hx with rfl | hx
    · change (overlay _ _ _).length = 32
      rw [overlay_length hin, hprim]
    · exact h.length x (List.mem_cons_of_mem _ hx)

lemma groupEntry_withSum (h : Shaped prim stream names) :
    groupEntry (withSum prim stream names) stream names = groupEntry prim stream names := by
  have hprim := h.length prim (by simp)
  have hin : 2 + (leBytes 2 (slotsSum (prim :: stream :: names) true 0)).length ≤
      prim.raw.length := by
    rw [leBytes_length]
    omega
  have hbyte {i : ℕ} (hi : i < 2 ∨ 4 ≤ i) :
      byteAt (withSum prim stream names).raw i = byteAt prim.raw i :=
    byteAt_overlay_of_out hin (by rwa [leBytes_length])
  have hnum {i n : ℕ} (hi : 4 ≤ i) :
      numAt (withSum prim stream names).raw i n = numAt prim.raw i n :=
    numAt_overlay_of_out hin (by rw [leBytes_length]; omega)
  have hloc : (withSum prim stream names).loc = prim.loc := rfl
  simp only [groupEntry, hloc, List.map_cons]
  simp only [hnum, hbyte, Nat.le_refl, show 4 ≤ 8 by omega, show 4 ≤ 12 by omega,
    show 4 ≤ 16 by omega, show 1 < 2 ∨ 4 ≤ 1 by omega, show 20 < 2 ∨ 4 ≤ 20 by omega,
    show 21 < 2 ∨ 4 ≤ 21 by omega, show 22 < 2 ∨ 4 ≤ 22 by omega, show 23 < 2 ∨ 4 ≤ 23 by omega,
    show 24 < 2 ∨ 4 ≤ 24 by omega]

lemma summed_on (halign : ∀ x ∈ prim :: stream :: names, 32 ∣ x.loc.offset)
    (hne : ∀ x ∈ stream :: names, x.loc ≠ prim.loc)
    (hon : ∀ x ∈ prim :: stream :: names, slotOn d x.loc = x) :
    ∀ x ∈ withSum prim stream names :: stream :: names,
      slotOn (summed d prim.loc ((prim :: stream :: names).map Slot.loc)) x.loc = x := by
  have hmap : ((prim :: stream :: names).map Slot.loc).map (slotOn d) =
      prim :: stream :: names := by
    rw [List.map_map]
    exact (List.map_congr_left hon).trans (List.map_id _)
  have hfit : 2 + (leBytes 2 (slotsSum (prim :: stream :: names) true 0)).length ≤ 32 := by simp
  unfold summed
  rw [hmap]
  intro x hx
  rcases List.mem_cons.mp hx with rfl | hx
  · change slotOn _ prim.loc = _
    rw [slotOn_put_self hfit, hon prim (by simp)]
    rfl
  · rw [slotOn_put_ne hfit (hne x hx) (halign prim (by simp))
      (halign x (List.mem_cons_of_mem _ hx)),
      hon x (List.mem_cons_of_mem _ hx)]

/-- **Slots whose checksum is stored decode to their entry.** -/
theorem decodesAt_summed (h : Shaped prim stream names)
    (halign : ∀ x ∈ prim :: stream :: names, 32 ∣ x.loc.offset)
    (hne : ∀ x ∈ stream :: names, x.loc ≠ prim.loc)
    (hon : ∀ x ∈ prim :: stream :: names, slotOn d x.loc = x) :
    DecodesAt (summed d prim.loc ((prim :: stream :: names).map Slot.loc))
      (groupEntry prim stream names) := by
  rw [← groupEntry_withSum h]
  exact decodesAt_of_isSet h.isSet (summed_on halign hne hon)

/-! ### Committing a stream -/

/-- A stream extension with the flags of a handle. -/
def withFlags (raw : List UInt8) (file : File) : List UInt8 :=
  overlay raw 1 [if file.noFatChain then 0x03 else 0x01]

/-- And with its valid length. -/
def withValid (raw : List UInt8) (file : File) : List UInt8 :=
  overlay (withFlags raw file) 8 (leBytes 8 file.validLength)

/-- And with its first cluster. -/
def withFirst (raw : List UInt8) (file : File) : List UInt8 :=
  overlay (withValid raw file) 20 (leBytes 4 file.firstCluster)

/-- A stream extension with the stream of a handle. -/
def withStream (raw : List UInt8) (file : File) : List UInt8 :=
  overlay (withFirst raw file) 24 (leBytes 8 file.dataLength)

section Stream

variable {raw : List UInt8} {file : File}

lemma withFlags_length (file : File) (h : raw.length = 32) : (withFlags raw file).length = 32 := by
  rw [withFlags, overlay_length (by simp [h]), h]

lemma withValid_length (file : File) (h : raw.length = 32) : (withValid raw file).length = 32 := by
  have hlen := withFlags_length file h
  rw [withValid, overlay_length (by simp [hlen]), hlen]

lemma withFirst_length (file : File) (h : raw.length = 32) : (withFirst raw file).length = 32 := by
  have hlen := withValid_length file h
  rw [withFirst, overlay_length (by simp [hlen]), hlen]

lemma withStream_length (file : File) (h : raw.length = 32) :
    (withStream raw file).length = 32 := by
  have hlen := withFirst_length file h
  rw [withStream, overlay_length (by simp [hlen]), hlen]

lemma byteAt_withStream {i : ℕ} (h : raw.length = 32) (hi : i < 8) :
    byteAt (withStream raw file) i = byteAt (withFlags raw file) i := by
  have h1 := withFlags_length file h
  have h2 := withValid_length file h
  have h3 := withFirst_length file h
  rw [withStream, byteAt_overlay_of_out (by simp [h3]) (by omega), withFirst,
    byteAt_overlay_of_out (by simp [h2]) (by omega), withValid,
    byteAt_overlay_of_out (by simp [h1]) (by omega)]

lemma type_withStream (h : raw.length = 32) :
    byteAt (withStream raw file) 0 = byteAt raw 0 := by
  rw [byteAt_withStream h (by omega), withFlags, byteAt_overlay_of_out (by simp [h]) (by omega)]

lemma nameLen_withStream (h : raw.length = 32) :
    byteAt (withStream raw file) 3 = byteAt raw 3 := by
  rw [byteAt_withStream h (by omega), withFlags,
    byteAt_overlay_of_out (by simp [h]) (Or.inr (by simp))]

lemma flags_withStream (h : raw.length = 32) :
    byteAt (withStream raw file) 1 = if file.noFatChain then 3 else 1 := by
  rw [byteAt_withStream h (by omega), withFlags]
  change byteAt (overlay raw (1 + 0) _) (1 + 0) = _
  rw [byteAt_overlay_of_in (by simp [h]) (by simp)]
  cases file.noFatChain <;> rfl

lemma numAt_overlay_self {off n v : ℕ} (h : off + n ≤ raw.length) (hv : v < 256 ^ n) :
    numAt (overlay raw off (leBytes n v)) off n = v := by
  have hin : numAt (overlay raw off (leBytes n v)) (off + 0) n = numAt (leBytes n v) 0 n :=
    numAt_overlay_of_in (by simpa using h) (by simp)
  rw [Nat.add_zero] at hin
  rw [hin, numAt, List.drop_zero, List.take_of_length_le (by simp), ofLe_leBytes_of_lt hv]

lemma valid_withStream (h : raw.length = 32) (hv : file.validLength < 2 ^ 64) :
    numAt (withStream raw file) 8 8 = file.validLength := by
  have h1 := withFlags_length file h
  have h2 := withValid_length file h
  have h3 := withFirst_length file h
  rw [withStream, numAt_overlay_of_out (by simp [h3]) (by omega), withFirst,
    numAt_overlay_of_out (by simp [h2]) (by omega), withValid,
    numAt_overlay_self (by omega) (by omega)]

lemma first_withStream (h : raw.length = 32) (hv : file.firstCluster < 2 ^ 32) :
    numAt (withStream raw file) 20 4 = file.firstCluster := by
  have h2 := withValid_length file h
  have h3 := withFirst_length file h
  rw [withStream, numAt_overlay_of_out (by simp [h3]) (by omega), withFirst,
    numAt_overlay_self (by omega) (by omega)]

lemma data_withStream (h : raw.length = 32) (hv : file.dataLength < 2 ^ 64) :
    numAt (withStream raw file) 24 8 = file.dataLength := by
  have h3 := withFirst_length file h
  rw [withStream, numAt_overlay_self (by omega) (by omega)]

lemma slotOn_streamPatched (d : Sectors) (file : File) :
    slotOn (streamPatched d file) file.stream =
      ⟨withStream (slotOn d file.stream).raw file, file.stream⟩ := by
  unfold streamPatched
  simp only
  rw [slotOn_put_self (by simp), slotOn_put_self (by simp), slotOn_put_self (by simp),
    slotOn_put_self (by simp)]
  rfl

/-- What a handle asks of an entry set which is to hold its stream. -/
structure Streamable (file : File) : Prop where
  first : file.firstCluster < 2 ^ 32
  length : file.dataLength < 2 ^ 64
  valid : file.validLength ≤ file.dataLength
  allocated : file.dataLength ≠ 0 → 2 ≤ file.firstCluster

/-- The entry with the stream of a handle. -/
def restream (e : DirectoryEntry) (file : File) : DirectoryEntry :=
  { e with
    firstCluster := file.firstCluster
    dataLength := file.dataLength
    validLength := file.validLength
    noFatChain := file.noFatChain }

lemma Shaped.withStream (h : Shaped prim stream names) (hf : Streamable file) :
    Shaped prim ⟨withStream stream.raw file, stream.loc⟩ names := by
  have hlen := h.length stream (by simp)
  have hok := h.streamOk
  have hvalid := hf.valid
  have hlength := hf.length
  unfold EntrySet.StreamBad at hok
  refine ⟨h.primary, h.count, ?_, ?_, h.nameType, ?_, fun x hx => ?_⟩
  · exact (type_withStream hlen).trans h.streamType
  · have halloc := hf.allocated
    unfold EntrySet.StreamBad
    simp only
    rw [nameLen_withStream hlen, flags_withStream hlen, valid_withStream hlen (by omega),
      first_withStream hlen hf.first, data_withStream hlen hf.length]
    cases file.noFatChain <;> simp only [Bool.false_eq_true, if_false, if_true] <;> omega
  · simp only
    rw [nameLen_withStream hlen, h.nameCount]
  · simp only [List.mem_cons] at hx
    rcases hx with rfl | rfl | hx
    · exact h.length _ (by simp)
    · exact withStream_length file hlen
    · exact h.length x (by simp [hx])

lemma groupEntry_withStream (h : Shaped prim stream names) (hf : Streamable file) :
    groupEntry prim ⟨Codec.withStream stream.raw file, stream.loc⟩ names =
      restream (groupEntry prim stream names) file := by
  have hlen := h.length stream (by simp)
  have hvalid := hf.valid
  have hlength := hf.length
  have hflag : (byteAt (Codec.withStream stream.raw file) 1).testBit 1 = file.noFatChain := by
    rw [flags_withStream hlen]
    cases file.noFatChain <;> rfl
  simp only [groupEntry, restream, hflag, nameLen_withStream hlen,
    valid_withStream hlen (show file.validLength < 2 ^ 64 by omega),
    first_withStream hlen hf.first, data_withStream hlen hf.length, List.map_cons]

/-- The bytes of a stream extension which hold the stream. -/
def StreamByte (loc : EntryLocator) (lba i : ℕ) : Prop :=
  lba = loc.lba ∧ (i = loc.offset + 1 ∨ (loc.offset + 8 ≤ i ∧ i < loc.offset + 16) ∨
    (loc.offset + 20 ≤ i ∧ i < loc.offset + 32))

/-- The bytes of a primary entry which hold the checksum. -/
def ChecksumByte (loc : EntryLocator) (lba i : ℕ) : Prop :=
  lba = loc.lba ∧ loc.offset + 2 ≤ i ∧ i < loc.offset + 4

lemma committed_ne {lba i : ℕ} (h : committed d file lba i ≠ d lba i) :
    StreamByte file.stream lba i ∨ ChecksumByte file.primary lba i := by
  by_cases hsum : committed d file lba i = streamPatched d file lba i
  · rw [hsum] at h
    by_contra hnot
    rw [not_or] at hnot
    refine h ?_
    have hout := hnot.1
    unfold StreamByte at hout
    unfold streamPatched
    have hone : [if file.noFatChain then (0x03 : UInt8) else 0x01].length = 1 := rfl
    rw [put_outside (by rw [leBytes_length]; omega), put_outside (by rw [leBytes_length]; omega),
      put_outside (by rw [leBytes_length]; omega), put_outside (by rw [hone]; omega)]
  · obtain ⟨hlba, h1, h2⟩ := put_ne hsum
    rw [leBytes_length] at h2
    exact Or.inr ⟨hlba, h1, by omega⟩

end Stream

/-- The handle names the set of the entry. -/
structure Names (file : File) (e : DirectoryEntry) : Prop where
  primary : file.primary = e.primary
  stream : file.stream = e.stream
  entryLocs : file.entryLocs = e.entryLocs
  entryCount : file.entryCount = e.entryCount

lemma loc_ne_of_type {x y : Slot} (hx : slotOn d x.loc = x) (hy : slotOn d y.loc = y)
    (h : byteAt x.raw 0 ≠ byteAt y.raw 0) : x.loc ≠ y.loc := by
  intro heq
  rw [← hx, ← hy, heq] at h
  exact h rfl

/-- A set in which the stream of a handle was committed is that of the entry with that stream. -/
lemma committed_decodes {file : File} (hdec : DecodesAt d e)
    (halign : ∀ loc ∈ e.entryLocs.take e.entryCount, 32 ∣ loc.offset) (hnames : Names file e)
    (hf : Streamable file) : DecodesAt (committed d file) (restream e file) := by
  obtain ⟨prim, stream, names, hslots, hset, he⟩ := hdec.isSet
  have hlocs : e.entryLocs.take e.entryCount = (prim :: stream :: names).map Slot.loc := by
    rw [he]
    exact IsSet.group_locs hset
  have hon : ∀ x ∈ prim :: stream :: names, slotOn d x.loc = x := by
    rw [← hslots]
    intro x hx
    obtain ⟨loc, -, rfl⟩ := List.mem_map.mp hx
    rfl
  have halign' : ∀ x ∈ prim :: stream :: names, 32 ∣ x.loc.offset := fun x hx =>
    halign x.loc (by rw [hlocs]; exact List.mem_map_of_mem hx)
  have hprim : e.primary = prim.loc := by rw [he]; rfl
  have hstream : e.stream = stream.loc := by rw [he]; rfl
  have hshaped := IsSet.shaped hset
  have hnameType := hshaped.nameType
  have hps : stream.loc ≠ prim.loc := loc_ne_of_type (hon stream (by simp)) (hon prim (by simp))
    (by rw [hshaped.streamType, hshaped.primary]; decide)
  have hpn : ∀ x ∈ names, x.loc ≠ prim.loc := fun x hx =>
    loc_ne_of_type (hon x (by simp [hx])) (hon prim (by simp))
      (by rw [hnameType x hx, hshaped.primary]; decide)
  have hsn : ∀ x ∈ names, x.loc ≠ stream.loc := fun x hx =>
    loc_ne_of_type (hon x (by simp [hx])) (hon stream (by simp))
      (by rw [hnameType x hx, hshaped.streamType]; decide)
  -- the stream extension is rewritten, and no other slot
  have hother : ∀ x ∈ prim :: names, slotOn (streamPatched d file) x.loc = slotOn d x.loc := by
    intro x hx
    have hmem : x ∈ prim :: stream :: names := by
      rcases List.mem_cons.mp hx with rfl | hx
      · simp
      · simp [hx]
    refine (onlySlots_streamPatched (L := [file.stream]) (by simp)).slotOn_eq ?_ (halign' x hmem) ?_
    · rw [hnames.stream, hstream]
      simpa using halign' stream (by simp)
    · rw [hnames.stream, hstream, List.mem_singleton]
      rcases List.mem_cons.mp hx with rfl | hx
      · exact hps.symm
      · exact hsn x hx
  have hpatched : ∀ x ∈ prim :: ⟨withStream stream.raw file, stream.loc⟩ :: names,
      slotOn (streamPatched d file) x.loc = x := by
    intro x hx
    simp only [List.mem_cons] at hx
    rcases hx with rfl | rfl | hx
    · rw [hother _ (by simp), hon _ (by simp)]
    · have hself := slotOn_streamPatched d file
      rw [hnames.stream, hstream, hon stream (by simp)] at hself
      exact hself
    · rw [hother x (by simp [hx]), hon x (by simp [hx])]
  have hdecodes := decodesAt_summed (hshaped.withStream hf) (fun x hx => ?_)
    (fun x hx => ?_) hpatched
  · rw [he, ← groupEntry_withStream hshaped hf]
    have hmap : (prim :: ⟨withStream stream.raw file, stream.loc⟩ :: names).map Slot.loc =
        file.entryLocs.take file.entryCount := by
      rw [hnames.entryLocs, hnames.entryCount, hlocs]
      rfl
    rwa [hmap, ← hprim, ← hnames.primary] at hdecodes
  · simp only [List.mem_cons] at hx
    rcases hx with rfl | rfl | hx
    · exact halign' _ (by simp)
    · exact halign' stream (by simp)
    · exact halign' x (by simp [hx])
  · rcases List.mem_cons.mp hx with rfl | hx
    · exact hps
    · exact hpn x hx

/-- **Committing stream metadata keeps the set decodable and touches nothing else.** -/
theorem updateStream_decodes {file : File} {t : Machine} (hdec : DecodesAt s.device.sectors e)
    (halign : ∀ loc ∈ e.entryLocs.take e.entryCount, 32 ∣ loc.offset) (hnames : Names file e)
    (hf : Streamable file) (hrun : updateStream vol file s = (.ok (), t)) :
    DecodesAt t.device.sectors (restream e file) ∧
      ∀ lba i, t.device.sectors lba i ≠ s.device.sectors lba i →
        StreamByte e.stream lba i ∨ ChecksumByte e.primary lba i := by
  have ht : t.device.sectors = committed s.device.sectors file := updateStream_holds () t hrun
  rw [ht]
  refine ⟨committed_decodes hdec halign hnames hf, fun lba i hne => ?_⟩
  rw [← hnames.stream, ← hnames.primary]
  exact committed_ne hne

/-- A small volume whose root holds an empty file `A`. -/
def single : Machine :=
  smallMachine smallFat (fun _ => 0) (sectorWith [(64, Listing.setBytes (newFileSet [65]) 3)])

def singleEntry : DirectoryEntry := Listing.splitEntry (newFileSet [65]) false 26 2

/-- A handle of the file, which has been given a cluster. -/
def singleFile : File where
  primary := singleEntry.primary
  stream := singleEntry.stream
  entryLocs := singleEntry.entryLocs
  entryCount := singleEntry.entryCount
  firstCluster := 5
  dataLength := 400
  validLength := 300
  position := 0
  noFatChain := true
  cachedClusterIndex := none
  cachedCluster := 0

lemma decodesAt_single : DecodesAt single.device.sectors singleEntry := by
  unfold DecodesAt
  decide +kernel

lemma updateStream_single : (updateStream smallVolume singleFile single).1 = .ok () := by
  decide +kernel

theorem updateStream_decodes_single :
    DecodesAt (updateStream smallVolume singleFile single).2.device.sectors
      (restream singleEntry singleFile) ∧
    ∀ lba i, (updateStream smallVolume singleFile single).2.device.sectors lba i ≠
      single.device.sectors lba i →
        StreamByte singleEntry.stream lba i ∨ ChecksumByte singleEntry.primary lba i :=
  updateStream_decodes decodesAt_single (by decide) ⟨rfl, rfl, rfl, rfl⟩
    ⟨by decide, by decide, by decide, by decide⟩ (run_eq updateStream_single)

/-! ### The slots of a new set -/

/-- The slots written for a set, from slot `index` on. -/
def writtenSlots (c : NewEntrySet) (count nameHash : ℕ) : List EntryLocator → ℕ → List Slot
  | [], _ => []
  | loc :: locs, index => ⟨entrySlot c count nameHash index, loc⟩ ::
      writtenSlots c count nameHash locs (index + 1)

section Written

variable {c : NewEntrySet} {count nameHash : ℕ}

lemma writtenSlots_locs (index : ℕ) :
    (writtenSlots c count nameHash locs index).map Slot.loc = locs := by
  induction locs generalizing index with
  | nil => rfl
  | cons loc locs ih => simp [writtenSlots, ih]

lemma unitBytes_length {units : List ℕ} (h : units.length ≤ 15) :
    (unitBytes units).length = 30 := by
  have hbytes : (units.flatMap (leBytes 2)).length = 2 * units.length := by
    induction units with
    | nil => rfl
    | cons u units ih =>
      rw [List.length_cons] at h
      simp [ih (by omega)]
      omega
  rw [unitBytes, List.length_append, hbytes, List.length_replicate]
  omega

lemma entrySlot_length (c : NewEntrySet) (count nameHash : ℕ) :
    ∀ index, (entrySlot c count nameHash index).length = 32
  | 0 => rfl
  | 1 => rfl
  | k + 2 => by
    change ([0xc1, 0] ++ unitBytes ((c.name.drop (15 * k)).take 15)).length = 32
    rw [List.length_append, unitBytes_length (by simp)]
    rfl

lemma slotOn_put_whole {bs : List UInt8} (h : bs.length = 32) :
    slotOn (put d loc.lba (loc.offset + 0) bs) loc = ⟨bs, loc⟩ := by
  rw [slotOn_put_self (by omega), overlay, List.take_zero, List.drop_of_length_le]
  · simp
  · rw [slotOn_length, h]

lemma writeSlots_holds (hnodup : locs.Nodup) (halign : ∀ loc ∈ locs, 32 ∣ loc.offset)
    {index sum : ℕ} : wlp (writeSlots vol c count nameHash locs index sum)
      (fun r t => r = slotsSum (writtenSlots c count nameHash locs index) (decide (index = 0)) sum ∧
        locs.map (slotOn t.device.sectors) = writtenSlots c count nameHash locs index ∧
        OnlySlots locs s.device.sectors t.device.sectors) s := by
  induction locs generalizing s index sum with
  | nil =>
    simp only [writeSlots, wlp_pure]
    exact ⟨rfl, rfl, OnlySlots.refl _⟩
  | cons loc locs ih =>
    have hlen := entrySlot_length c count nameHash index
    have hrest : ∀ loc' ∈ locs, 32 ∣ loc'.offset := fun loc' h => halign loc' (by simp [h])
    simp only [writeSlots, wlp_ite, wlp_throw, wlp_bind]
    refine ⟨fun _ => trivial, fun _ => wlp_mono _ patchSlot_holds fun _ t ht => ?_⟩
    refine wlp_mono _ (ih hnodup.of_cons hrest) fun r u hu => ?_
    obtain ⟨hr, hslots, honly⟩ := hu
    have hfit : 0 + (entrySlot c count nameHash index).length ≤ 32 := by omega
    refine ⟨?_, ?_, ?_⟩
    · rw [hr, show decide (index + 1 = 0) = false from rfl]
      rfl
    · have hself := honly.slotOn_eq hrest (halign loc (by simp)) (List.nodup_cons.mp hnodup).1
      rw [List.map_cons, hslots, hself, ht, slotOn_put_whole hlen]
      rfl
    · rw [ht] at honly
      exact (OnlySlots.put _ (by simp) hfit).trans (honly.mono (List.subset_cons_self _ _))

end Written

/-! ### Names in name entries -/

lemma ofLe_units {units : List ℕ} (h : ∀ u ∈ units, u < 2 ^ 16) (p i : ℕ) :
    ofLe (((units.flatMap (leBytes 2) ++ List.replicate p 0).drop (2 * i)).take 2) =
      units.getD i 0 := by
  induction units generalizing i with
  | nil =>
    have hzero (n : ℕ) : ofLe (List.replicate n 0) = 0 := by
      induction n with
      | zero => rfl
      | succ n ih => simp [List.replicate_succ, ofLe, ih]
    simp [hzero]
  | cons u units ih =>
    have hu := h u (by simp)
    have hsplit : (u :: units).flatMap (leBytes 2) ++ List.replicate p 0 =
        leBytes 2 u ++ (units.flatMap (leBytes 2) ++ List.replicate p 0) := by simp
    rw [hsplit]
    rcases i with _ | i
    · rw [Nat.mul_zero, List.drop_zero, List.take_append_of_le_length (by simp),
        List.take_of_length_le (by simp), ofLe_leBytes_of_lt (by omega)]
      rfl
    · rw [List.drop_append, List.drop_of_length_le (by simp), List.nil_append,
        leBytes_length, show 2 * (i + 1) - 2 = 2 * i by omega, ih fun u hu => h u (by simp [hu])]
      rfl

lemma unitsOf_nameEntry {name : List ℕ} (h : ∀ u ∈ name, u < 2 ^ 16) (k : ℕ) :
    unitsOf (nameEntry name k) = (name.drop (15 * k)).take 15 ++
      List.replicate (15 - ((name.drop (15 * k)).take 15).length) 0 := by
  set units := (name.drop (15 * k)).take 15 with hunits
  have hbound : ∀ u ∈ units, u < 2 ^ 16 := fun u hu =>
    h u (List.mem_of_mem_drop (List.mem_of_mem_take hu))
  have hlen : units.length ≤ 15 := by simp [hunits]
  have hget (i : ℕ) : numAt (nameEntry name k) (2 + 2 * i) 2 = units.getD i 0 := by
    rw [numAt, Nat.add_comm, ← List.drop_drop]
    rw [List.drop_drop, Nat.add_comm, ← List.drop_drop]
    exact ofLe_units hbound _ i
  refine List.ext_getElem (by simp [unitsOf]; omega) fun i h1 h2 => ?_
  rw [unitsOf_length] at h1
  simp only [unitsOf, List.getElem_map, List.getElem_range, hget, List.getElem_append,
    List.getElem_replicate]
  split_ifs with hi
  · exact List.getD_eq_getElem _ _ hi
  · exact List.getD_eq_default _ _ (by omega)

/-- The name entries of a name, from number `k` on. -/
def nameSlots (name : List ℕ) : List EntryLocator → ℕ → List Slot
  | [], _ => []
  | loc :: locs, k => ⟨nameEntry name k, loc⟩ :: nameSlots name locs (k + 1)

lemma nameSlots_length (name : List ℕ) (k : ℕ) : (nameSlots name locs k).length = locs.length := by
  induction locs generalizing k with
  | nil => rfl
  | cons loc locs ih => simp [nameSlots, ih]

/-- **The name entries of a name hold the name.** -/
lemma unitsIn_nameSlots {name : List ℕ} (h : ∀ u ∈ name, u < 2 ^ 16) (k : ℕ)
    (hlen : name.length ≤ 15 * (k + locs.length)) :
    (unitsIn (nameSlots name locs k)).take (name.length - 15 * k) = name.drop (15 * k) := by
  induction locs generalizing k with
  | nil =>
    rw [List.length_nil] at hlen
    rw [List.drop_of_length_le (by omega)]
    simp [nameSlots, unitsIn]
  | cons loc locs ih =>
    rw [List.length_cons] at hlen
    have hcons : unitsIn (nameSlots name (loc :: locs) k) =
        unitsOf (nameEntry name k) ++ unitsIn (nameSlots name locs (k + 1)) := rfl
    rw [hcons]
    rcases Nat.lt_or_ge (name.length - 15 * k) 15 with hshort | hlong
    · have hall : (name.drop (15 * k)).take 15 = name.drop (15 * k) :=
        List.take_of_length_le (by rw [List.length_drop]; omega)
      rw [List.take_append_of_le_length (by rw [unitsOf_length]; omega), unitsOf_nameEntry h, hall,
        List.take_append_of_le_length (by rw [List.length_drop]),
        List.take_of_length_le (by rw [List.length_drop])]
    · have hfull : ((name.drop (15 * k)).take 15).length = 15 := by
        rw [List.length_take, List.length_drop]
        omega
      have hrest := ih (k + 1) (by omega)
      rw [show name.length - 15 * (k + 1) = name.length - 15 * k - 15 by omega,
        show 15 * (k + 1) = 15 * k + 15 by omega, ← List.drop_drop] at hrest
      rw [List.take_append, unitsOf_length, List.take_of_length_le (by rw [unitsOf_length]; omega),
        unitsOf_nameEntry h, hfull, Nat.sub_self, List.replicate_zero, List.append_nil, hrest,
        List.take_append_drop]

/-! ### The set which is written -/

/-- The values of a new entry set are of the types of its fields. -/
structure Encodable (c : NewEntrySet) : Prop where
  name : ∀ u ∈ c.name, u < 2 ^ 16
  attributes : c.attributes < 2 ^ 16
  firstCluster : c.firstCluster < 2 ^ 32
  dataLength : c.dataLength < 2 ^ 64
  created : c.created.dateTime < 2 ^ 32 ∧ c.created.tenMillis < 2 ^ 8 ∧ c.created.utcOffset < 2 ^ 8
  modified : c.modified.dateTime < 2 ^ 32 ∧ c.modified.tenMillis < 2 ^ 8 ∧
    c.modified.utcOffset < 2 ^ 8
  accessed : c.accessed.dateTime < 2 ^ 32 ∧ c.accessed.utcOffset < 2 ^ 8

/-- The entry which a new set at `locs` stands for. -/
def writtenEntry (locs : List EntryLocator) (c : NewEntrySet) : DirectoryEntry where
  isDirectory := c.attributes.testBit 4
  firstCluster := c.firstCluster
  dataLength := c.dataLength
  validLength := c.dataLength
  noFatChain := c.noFatChain
  created := c.created
  modified := c.modified
  accessed := { c.accessed with tenMillis := 0 }
  name := overlay (List.replicate 255 0) 0 c.name
  nameLen := c.name.length
  primary := locs.getD 0 ⟨0, 0⟩
  stream := locs.getD 1 ⟨0, 0⟩
  entryLocs := overlay noLocators 0 locs
  entryCount := locs.length

section Encode

variable {c : NewEntrySet} {count nameHash : ℕ} {p q : EntryLocator}

lemma nameSlots_eq (c : NewEntrySet) (count nameHash k : ℕ) :
    writtenSlots c count nameHash locs (k + 2) = nameSlots c.name locs k := by
  induction locs generalizing k with
  | nil => rfl
  | cons loc locs ih =>
    rw [writtenSlots, nameSlots, ← ih (k + 1)]
    rfl

lemma nameSlots_mem {name : List ℕ} {k : ℕ} {x : Slot} (h : x ∈ nameSlots name locs k) :
    ∃ j, x.raw = nameEntry name j := by
  induction locs generalizing k with
  | nil => cases h
  | cons loc locs ih =>
    rcases List.mem_cons.mp h with rfl | h
    · exact ⟨k, rfl⟩
    · exact ih h

lemma flags_streamEntry (c : NewEntrySet) (nameHash : ℕ) :
    byteAt (streamEntry c nameHash) 1 = if c.noFatChain then 3 else 1 := by
  change (if c.noFatChain then (0x03 : UInt8) else 0x01).toNat = _
  cases c.noFatChain <;> rfl

lemma nameLen_streamEntry (h : c.name.length ≤ 255) :
    byteAt (streamEntry c nameHash) 3 = c.name.length :=
    UInt8.toNat_ofNat_of_lt' (show _ < 2 ^ 8 by omega)

lemma valid_streamEntry (hc : Encodable c) : numAt (streamEntry c nameHash) 8 8 = c.dataLength := by
  have hdata := hc.dataLength
  change ofLe (leBytes 8 c.dataLength) = _
  rw [ofLe_leBytes_of_lt (by omega)]

lemma data_streamEntry (hc : Encodable c) : numAt (streamEntry c nameHash) 24 8 = c.dataLength := by
  have hdata := hc.dataLength
  change ofLe (leBytes 8 c.dataLength) = _
  rw [ofLe_leBytes_of_lt (by omega)]

lemma first_streamEntry (hc : Encodable c) :
    numAt (streamEntry c nameHash) 20 4 = c.firstCluster := by
  have hcluster := hc.firstCluster
  change ofLe (leBytes 4 c.firstCluster) = _
  rw [ofLe_leBytes_of_lt (by omega)]

lemma numbers_primaryEntry (hc : Encodable c) (count : ℕ) :
    numAt (primaryEntry c count) 4 2 = c.attributes ∧
    numAt (primaryEntry c count) 8 4 = c.created.dateTime ∧
    numAt (primaryEntry c count) 12 4 = c.modified.dateTime ∧
    numAt (primaryEntry c count) 16 4 = c.accessed.dateTime := by
  have h1 := hc.attributes
  have h2 := hc.created.1
  have h3 := hc.modified.1
  have h4 := hc.accessed.1
  refine ⟨?_, ?_, ?_, ?_⟩
  · change ofLe (leBytes 2 c.attributes) = _
    rw [ofLe_leBytes_of_lt (by omega)]
  · change ofLe (leBytes 4 c.created.dateTime) = _
    rw [ofLe_leBytes_of_lt (by omega)]
  · change ofLe (leBytes 4 c.modified.dateTime) = _
    rw [ofLe_leBytes_of_lt (by omega)]
  · change ofLe (leBytes 4 c.accessed.dateTime) = _
    rw [ofLe_leBytes_of_lt (by omega)]

lemma bytes_primaryEntry (hc : Encodable c) (count : ℕ) :
    byteAt (primaryEntry c count) 20 = c.created.tenMillis ∧
    byteAt (primaryEntry c count) 21 = c.modified.tenMillis ∧
    byteAt (primaryEntry c count) 22 = c.created.utcOffset ∧
    byteAt (primaryEntry c count) 23 = c.modified.utcOffset ∧
    byteAt (primaryEntry c count) 24 = c.accessed.utcOffset := by
  refine ⟨?_, ?_, ?_, ?_, ?_⟩
  · change (UInt8.ofNat c.created.tenMillis).toNat = _
    exact UInt8.toNat_ofNat_of_lt' hc.created.2.1
  · change (UInt8.ofNat c.modified.tenMillis).toNat = _
    exact UInt8.toNat_ofNat_of_lt' hc.modified.2.1
  · change (UInt8.ofNat c.created.utcOffset).toNat = _
    exact UInt8.toNat_ofNat_of_lt' hc.created.2.2
  · change (UInt8.ofNat c.modified.utcOffset).toNat = _
    exact UInt8.toNat_ofNat_of_lt' hc.modified.2.2
  · change (UInt8.ofNat c.accessed.utcOffset).toNat = _
    exact UInt8.toNat_ofNat_of_lt' hc.accessed.2

lemma shaped_written (hc : Encodable c) (hfirst : c.dataLength ≠ 0 → 2 ≤ c.firstCluster)
    (hpos : 0 < c.name.length) (hlen : c.name.length ≤ 255)
    (hcount : (c.name.length + 14) / 15 = locs.length) :
    Shaped ⟨primaryEntry c (locs.length + 2), p⟩ ⟨streamEntry c nameHash, q⟩
      (nameSlots c.name locs 0) := by
  have hnames : (nameSlots c.name locs 0).length = _ := nameSlots_length c.name 0
  have hnameLen : byteAt (streamEntry c nameHash) 3 = _ := nameLen_streamEntry hlen
  refine ⟨rfl, ?_, rfl, ?_, fun x hx => ?_, ?_, fun x hx => ?_⟩
  · change (UInt8.ofNat (locs.length + 1)).toNat = _
    rw [hnames, UInt8.toNat_ofNat_of_lt' (show _ < 2 ^ 8 by omega)]
  · unfold EntrySet.StreamBad
    simp only
    rw [flags_streamEntry, hnameLen, data_streamEntry hc, valid_streamEntry hc,
      first_streamEntry hc]
    cases c.noFatChain <;> simp only [Bool.false_eq_true, if_false, if_true] <;> omega
  · obtain ⟨j, hj⟩ := nameSlots_mem hx
    rw [hj]
    rfl
  · simp only
    rw [hnameLen, hcount, hnames]
  · simp only [List.mem_cons] at hx
    rcases hx with rfl | rfl | hx
    · rfl
    · rfl
    · obtain ⟨j, hj⟩ := nameSlots_mem hx
      rw [hj]
      exact entrySlot_length c 0 0 (j + 2)

lemma groupEntry_written (hc : Encodable c) (hlen : c.name.length ≤ 255)
    (hcount : (c.name.length + 14) / 15 = locs.length) :
    groupEntry ⟨primaryEntry c (locs.length + 2), p⟩ ⟨streamEntry c nameHash, q⟩
      (nameSlots c.name locs 0) = writtenEntry (p :: q :: locs) c := by
  have hnameLen : byteAt (streamEntry c nameHash) 3 = _ := nameLen_streamEntry hlen
  have hunits : (unitsIn (nameSlots c.name locs 0)).take _ = _ :=
    unitsIn_nameSlots hc.name 0 (by omega)
  rw [Nat.mul_zero, Nat.sub_zero, List.drop_zero] at hunits
  have hlocs : (nameSlots c.name locs 0).map Slot.loc = locs := by
    rw [← nameSlots_eq c 0 0 0, writtenSlots_locs]
  obtain ⟨h1, h2, h3, h4⟩ := numbers_primaryEntry hc (locs.length + 2)
  obtain ⟨h5, h6, h7, h8, h9⟩ := bytes_primaryEntry hc (locs.length + 2)
  have hflag : (byteAt (streamEntry c nameHash) 1).testBit 1 = c.noFatChain := by
    rw [flags_streamEntry]
    cases c.noFatChain <;> rfl
  have hsecondaries : byteAt (primaryEntry c (locs.length + 2)) 1 + 1 = locs.length + 2 := by
    change (UInt8.ofNat (locs.length + 1)).toNat + 1 = _
    rw [UInt8.toNat_ofNat_of_lt' (show _ < 2 ^ 8 by omega)]
  unfold groupEntry writtenEntry
  simp only [hnameLen, hunits, List.map_cons, hlocs, h1, h2, h3, h4, h5, h6, h7, h8, h9, hflag,
    hsecondaries, data_streamEntry hc, valid_streamEntry hc, first_streamEntry hc, List.length_cons,
    List.getD_cons_zero, List.getD_cons_succ]

/-- **Decoding undoes encoding.** When an entry set has been written, its slots decode to the entry
it was made of, and no other byte has changed. -/
theorem writeEntrySet_decodes {t : Machine} (hc : Encodable c)
    (hfirst : c.dataLength ≠ 0 → 2 ≤ c.firstCluster) (hnodup : locs.Nodup)
    (halign : ∀ loc ∈ locs, 32 ∣ loc.offset) (hrun : writeEntrySet vol locs c s = (.ok (), t)) :
    DecodesAt t.device.sectors (writtenEntry locs c) ∧
      (writtenEntry locs c).nameUtf16 = c.name ∧
      (writtenEntry locs c).entryLocs.take (writtenEntry locs c).entryCount = locs ∧
      OnlySlots locs s.device.sectors t.device.sectors := by
  have hwlp : wlp (writeEntrySet vol locs c) (fun _ t => 3 ≤ locs.length ∧ locs.length ≤ 19 ∧
      (c.name.length + 14) / 15 + 2 = locs.length ∧ ∃ nameHash d,
        locs.map (slotOn d) = writtenSlots c locs.length nameHash locs 0 ∧
        OnlySlots locs s.device.sectors d ∧
        t.device.sectors = summed d (locs.getD 0 ⟨0, 0⟩) locs) s := by
    simp only [writeEntrySet, wlp_ite, wlp_throw, wlp_bind]
    refine ⟨fun _ => trivial, fun hok => wlp_mono _ upcaseNameHash_holds fun nameHash u hu => ?_⟩
    refine wlp_mono _ (writeSlots_holds hnodup halign) fun sum v hv => ?_
    obtain ⟨hsum, hslots, honly⟩ := hv
    refine wlp_mono _ patchSlot_holds fun _ w hw => ?_
    rw [hu] at honly
    refine ⟨by omega, by omega, by omega, nameHash, v.device.sectors, hslots, honly, ?_⟩
    rw [hw, hsum, ← hslots]
    rfl
  obtain ⟨hmin, hmax, hcount, nameHash, d, hslots, honly, ht⟩ := hwlp () t hrun
  rcases locs with _ | ⟨p, _ | ⟨q, rest⟩⟩
  · simp at hmin
  · simp at hmin
  simp only [List.length_cons] at hmin hmax hcount hslots
  have hrest : (c.name.length + 14) / 15 = rest.length := by omega
  have hshaped : Shaped ⟨primaryEntry c (rest.length + 2), p⟩ ⟨streamEntry c nameHash, q⟩
      (nameSlots c.name rest 0) := shaped_written hc hfirst (by omega) (by omega) hrest
  have hwritten : writtenSlots c (rest.length + 2) nameHash (p :: q :: rest) 0 =
      ⟨primaryEntry c (rest.length + 2), p⟩ :: ⟨streamEntry c nameHash, q⟩ ::
        nameSlots c.name rest 0 := by
    rw [← nameSlots_eq c (rest.length + 2) nameHash 0]
    rfl
  have hlocs : (writtenSlots c (rest.length + 2) nameHash (p :: q :: rest) 0).map Slot.loc =
      p :: q :: rest := writtenSlots_locs 0
  have hmem : ∀ x ∈ writtenSlots c (rest.length + 2) nameHash (p :: q :: rest) 0,
      x.loc ∈ p :: q :: rest ∧ slotOn d x.loc = x := by
    intro x hx
    refine ⟨by rw [← hlocs]; exact List.mem_map_of_mem hx, ?_⟩
    rw [← hslots] at hx
    obtain ⟨loc, -, rfl⟩ := List.mem_map.mp hx
    rfl
  rw [hwritten] at hlocs hmem
  have hdecodes := decodesAt_summed hshaped (fun x hx => halign _ (hmem x hx).1)
    (fun x hx heq => ?_)
    fun x hx => (hmem x hx).2
  · rw [hlocs, groupEntry_written hc (by omega) hrest] at hdecodes
    refine ⟨by rw [ht]; exact hdecodes, ?_, ?_, ?_⟩
    · have htake := @take_overlay _ (List.replicate 255 0) 0 c.name
        (by rw [List.length_replicate]; omega)
      rw [Nat.zero_add, List.take_zero, List.nil_append] at htake
      exact htake
    · have htake := @take_overlay _ noLocators 0 (p :: q :: rest) (by simp [noLocators]; omega)
      rw [Nat.zero_add, List.take_zero, List.nil_append] at htake
      exact htake
    · rw [ht]
      exact honly.trans (onlySlots_summed (by simp))
  · -- the primary entry is at none of the other locators
    have hp := (List.nodup_cons.mp hnodup).1
    refine hp ?_
    have hloc : x.loc ∈ (⟨streamEntry c nameHash, q⟩ :: nameSlots c.name rest 0).map Slot.loc :=
      List.mem_map_of_mem hx
    rw [heq] at hloc
    rw [List.map_cons] at hlocs
    rwa [(List.cons.inj hlocs).2] at hloc

end Encode

/-- A directory of a name which takes two name entries, one unit of it in the second. -/
def longSet : NewEntrySet where
  name := List.replicate 16 97
  attributes := 0x10
  firstCluster := 7
  dataLength := 512
  noFatChain := true
  created := ⟨1, 2, 3⟩
  modified := ⟨4, 5, 6⟩
  accessed := ⟨7, 0, 8⟩

/-- Two slots at the end of the root, and two in another cluster. -/
def splitLocs : List EntryLocator := [⟨26, 448⟩, ⟨26, 480⟩, ⟨30, 0⟩, ⟨30, 32⟩]

lemma encodable_longSet : Encodable longSet :=
  ⟨by decide, by decide, by decide, by decide, by decide, by decide, by decide⟩

lemma writeEntrySet_long : (writeEntrySet smallVolume splitLocs longSet single).1 = .ok () := by
  decide +kernel

theorem writeEntrySet_decodes_long :
    DecodesAt (writeEntrySet smallVolume splitLocs longSet single).2.device.sectors
      (writtenEntry splitLocs longSet) ∧
    (writtenEntry splitLocs longSet).nameUtf16 = longSet.name ∧
    (writtenEntry splitLocs longSet).entryLocs.take (writtenEntry splitLocs longSet).entryCount =
      splitLocs ∧
    OnlySlots splitLocs single.device.sectors
      (writeEntrySet smallVolume splitLocs longSet single).2.device.sectors :=
  writeEntrySet_decodes encodable_longSet (by decide) (by decide) (by decide)
    (run_eq writeEntrySet_long)

end ExfatEmbedded.Codec
