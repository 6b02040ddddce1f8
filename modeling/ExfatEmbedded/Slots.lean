import ExfatEmbedded.Commit
import ExfatEmbedded.History

/-!
What a write into a directory slot makes of it, and the slots of a directory as a map of their
locators.
-/

namespace ExfatEmbedded.Slots

open ExfatEmbedded.Library Exec ExfatEmbedded.Core ExfatEmbedded.Entry ExfatEmbedded.Reading
open ExfatEmbedded.Lookup ExfatEmbedded.Scan ExfatEmbedded.Sets ExfatEmbedded.Media
open ExfatEmbedded.Tree ExfatEmbedded.Commit

/-! ### The fields of an overlaid entry -/

section Fields

variable {raw bs : List UInt8} {off i n : ℕ}

lemma byteAt_overlay_of_out (h : off + bs.length ≤ raw.length)
    (hi : i < off ∨ off + bs.length ≤ i) :
    byteAt (overlay raw off bs) i = byteAt raw i := by
  unfold byteAt
  rw [List.getD_eq_getElem?_getD, List.getD_eq_getElem?_getD, getElem?_overlay h, if_neg (by omega)]

lemma byteAt_overlay_of_in (h : off + bs.length ≤ raw.length) (hi : i < bs.length) :
    byteAt (overlay raw off bs) (off + i) = byteAt bs i := by
  unfold byteAt
  rw [List.getD_eq_getElem?_getD, List.getD_eq_getElem?_getD, getElem?_overlay h, if_pos (by omega),
    Nat.add_sub_cancel_left]

lemma numAt_overlay_of_out (h : off + bs.length ≤ raw.length)
    (hi : i + n ≤ off ∨ off + bs.length ≤ i) :
    numAt (overlay raw off bs) i n = numAt raw i n := by
  unfold numAt
  congr 1
  refine List.ext_getElem? fun j => ?_
  rw [List.getElem?_take, List.getElem?_take]
  split_ifs with hj
  · rw [List.getElem?_drop, List.getElem?_drop, getElem?_overlay h, if_neg (by omega)]
  · rfl

lemma numAt_overlay_of_in (h : off + bs.length ≤ raw.length) (hi : i + n ≤ bs.length) :
    numAt (overlay raw off bs) (off + i) n = numAt bs i n := by
  unfold numAt
  congr 1
  refine List.ext_getElem? fun j => ?_
  rw [List.getElem?_take, List.getElem?_take]
  split_ifs with hj
  · rw [List.getElem?_drop, List.getElem?_drop, getElem?_overlay h, if_pos (by omega)]
    congr 1
    omega
  · rfl

lemma checksumStep_overlay (sum : ℕ) (hraw : 4 ≤ raw.length) (hbs : bs.length = 2) :
    checksumStep sum (overlay raw 2 bs) true = checksumStep sum raw true := by
  obtain ⟨a, b, rfl⟩ := List.length_eq_two.mp hbs
  rcases raw with _ | ⟨r0, _ | ⟨r1, _ | ⟨r2, _ | ⟨r3, raw⟩⟩⟩⟩
  · simp at hraw
  · simp at hraw
  · simp at hraw
  · simp at hraw
  · simp [overlay, checksumStep, List.zipIdx_cons]

end Fields

/-! ### Writing into a slot -/

lemma slice_patch_within {m : Image} {o k n : ℕ} {bs : List UInt8} (h : k + bs.length ≤ n) :
    Image.slice (Image.patch m (o + k) bs) o n = overlay (Image.slice m o n) k bs := by
  refine List.ext_getElem? fun i => ?_
  have hlen : k + bs.length ≤ (Image.slice m o n).length := by rwa [Image.slice_length]
  rw [getElem?_overlay hlen]
  rcases Nat.lt_or_ge i n with hi | hi
  · have hget (m' : Image) : (Image.slice m' o n)[i]? = some (m' (o + i)) := by
      rw [List.getElem?_eq_getElem (by rwa [Image.slice_length]), ← Image.slice_getD m' o n i hi,
        List.getD_eq_getElem _ _ (by rwa [Image.slice_length])]
    rw [hget, hget]
    split_ifs with hin
    · have hpatch := @Image.patch_in m (o + k) bs (i - k) (by omega)
      rw [show o + k + (i - k) = o + i by omega] at hpatch
      rw [hpatch, List.getD_eq_getElem _ _ (by omega), List.getElem?_eq_getElem (by omega)]
    · rcases Nat.lt_or_ge i k with hik | hik
      · rw [Image.patch_of_lt (by omega)]
      · rw [Image.patch_of_ge (by omega)]
  · rw [List.getElem?_eq_none (by rwa [Image.slice_length]), if_neg (by omega),
      List.getElem?_eq_none (by rwa [Image.slice_length])]

section Put

variable {d : Sectors} {loc loc' : EntryLocator} {off : ℕ} {bs : List UInt8}

lemma slotOn_length (d : Sectors) (loc : EntryLocator) : (slotOn d loc).raw.length = 32 :=
  Image.slice_length _ _ _

lemma slotOn_put_self (h : off + bs.length ≤ 32) :
    slotOn (put d loc.lba (loc.offset + off) bs) loc =
      ⟨overlay (slotOn d loc).raw off bs, loc⟩ := by
  unfold slotOn
  rw [put_self, slice_patch_within h]

lemma slotOn_put_ne (h : off + bs.length ≤ 32) (hne : loc' ≠ loc) (halign : 32 ∣ loc.offset)
    (halign' : 32 ∣ loc'.offset) :
    slotOn (put d loc.lba (loc.offset + off) bs) loc' = slotOn d loc' :=
  OnlySlots.slotOn_eq (L := [loc]) (OnlySlots.put d (by simp) h) (by simpa using halign) halign'
    (by simpa using hne)

end Put

/-! ### The slots of an extent -/

section Extent

variable {g : Geometry} {d d' : Sectors} {dir : Directory} {n m : ℕ}

lemma sectorSlots_map (hs : Sound g m) (d d' : Sectors) (lba : ℕ) {k : ℕ}
    (hk : k ≤ g.bytesPerSector / 32) :
    sectorSlots d' lba k = (sectorSlots d lba k).map fun x => slotOn d' x.loc := by
  unfold sectorSlots
  rw [List.map_map]
  refine List.map_congr_left fun j hj => ?_
  rw [List.mem_range] at hj
  simp only [Function.comp_apply]
  rw [slotAt_eq_slotOn hs d' (by omega), slotAt_eq_slotOn hs d (by omega)]
  rfl

lemma usableAt_le (dir : Directory) (size remaining i : ℕ) :
    usableAt dir size remaining i / 32 ≤ size / 32 := by
  refine Nat.div_le_div_right ?_
  unfold usableAt usableBytes
  split_ifs
  · exact le_rfl
  · exact min_le_left _ _

lemma extentSlots_map (hs : Sound g m)
    (h : ∀ j < n, clusterOf g d' dir j = clusterOf g d dir j) :
    extentSlots g d' dir n = (extentSlots g d dir n).map fun x => slotOn d' x.loc := by
  unfold extentSlots clusterSlots
  simp only [List.map_flatMap]
  refine List.flatMap_congr fun j hj => List.flatMap_congr fun i _ => ?_
  rw [h j (List.mem_range.mp hj), sectorSlots_map hs d d' _ (usableAt_le dir _ _ _)]

lemma nodup_sectorLocs (hs : Sound g m) (d : Sectors) (lba : ℕ) {k : ℕ}
    (hk : k ≤ g.bytesPerSector / 32) : ((sectorSlots d lba k).map Slot.loc).Nodup := by
  have hsize := hs.size_le
  unfold sectorSlots
  rw [List.map_map]
  refine List.Nodup.map_on (fun i hi j hj heq => ?_) List.nodup_range
  rw [List.mem_range] at hi hj
  simp only [Function.comp_apply, slotAt, EntryLocator.mk.injEq, true_and] at heq
  omega

/-- **Slots of an extent of different clusters are at different places.** -/
theorem nodup_extentLocs (hs : Sound g m) (hheap : ∀ j < n, g.InHeap (clusterOf g d dir j))
    (h : ((List.range n).map (clusterOf g d dir)).Nodup) :
    ((extentSlots g d dir n).map Slot.loc).Nodup := by
  unfold extentSlots clusterSlots
  simp only [List.map_flatMap]
  refine List.nodup_flatMap.mpr ⟨fun j _ => List.nodup_flatMap.mpr ⟨fun i _ => ?_, ?_⟩, ?_⟩
  · exact nodup_sectorLocs hs d _ (usableAt_le dir _ _ _)
  · refine List.nodup_range.imp fun {a b} hne loc ha hb => hne ?_
    simp only [sectorSlots, List.mem_map] at ha hb
    obtain ⟨_, ⟨i, -, rfl⟩, rfl⟩ := ha
    obtain ⟨_, ⟨j, -, rfl⟩, hb⟩ := hb
    have := congrArg EntryLocator.lba hb
    simp only [slotAt] at this
    omega
  · have hpair := List.pairwise_map.mp h
    refine hpair.imp_of_mem fun {a b} ha hb hne loc hla hlb => hne ?_
    rw [List.mem_range] at ha hb
    rw [List.mem_flatMap] at hla hlb
    obtain ⟨i, hi, hla⟩ := hla
    obtain ⟨j, hj, hlb⟩ := hlb
    simp only [sectorSlots, List.mem_map] at hla hlb
    obtain ⟨_, ⟨k, -, rfl⟩, rfl⟩ := hla
    obtain ⟨_, ⟨l, -, rfl⟩, hlb⟩ := hlb
    have hlba := congrArg EntryLocator.lba hlb
    rw [List.mem_range] at hi hj
    have hin : InCluster g (clusterOf g d dir a) (heapLba g (clusterOf g d dir a) + i) := by
      unfold InCluster
      omega
    have hin' : InCluster g (clusterOf g d dir b) (heapLba g (clusterOf g d dir a) + i) := by
      unfold InCluster
      simp only [slotAt] at hlba
      omega
    exact hin.unique (hs.inHeap_iff.mp (hheap a ha)).1 (hs.inHeap_iff.mp (hheap b hb)).1 hin'

end Extent

/-! ### Slots which have not changed -/

lemma map_slotOn_eq {d d' : Sectors} {L : List EntryLocator} {xs : List Slot}
    (h : OnlySlots L d d') (hL : ∀ loc ∈ L, 32 ∣ loc.offset)
    (hxs : ∀ x ∈ xs, x = slotOn d x.loc ∧ 32 ∣ x.loc.offset) (hdis : ∀ x ∈ xs, x.loc ∉ L) :
    (xs.map fun x => slotOn d' x.loc) = xs := by
  refine (List.map_congr_left fun x hx => ?_).trans (List.map_id xs)
  obtain ⟨heq, halign⟩ := hxs x hx
  rw [h.slotOn_eq hL halign (hdis x hx), ← heq, id]

end ExfatEmbedded.Slots
