import ExfatEmbedded.UpcaseTable
import ExfatEmbedded.Vacating

/-!
A volume after the set of a new file was written into free slots of a directory.

The directory has one entry more. Each path leads where it led, and the path of the new file leads
to its entry.
-/

namespace ExfatEmbedded.Filling

open ExfatEmbedded.Library Exec ExfatEmbedded.Core ExfatEmbedded.Entry ExfatEmbedded.Allocation
open ExfatEmbedded.Lookup ExfatEmbedded.FileIo ExfatEmbedded.Mutation ExfatEmbedded.Reading
open ExfatEmbedded.History ExfatEmbedded.Scan ExfatEmbedded.Sets ExfatEmbedded.ReadSafety
open ExfatEmbedded.MountSafety ExfatEmbedded.StreamSafety ExfatEmbedded.Media ExfatEmbedded.Writing
open ExfatEmbedded.Tree ExfatEmbedded.Commit ExfatEmbedded.Release ExfatEmbedded.Layout
open ExfatEmbedded.Listing ExfatEmbedded.Slots ExfatEmbedded.Decoding ExfatEmbedded.Emptiness
open ExfatEmbedded.Search ExfatEmbedded.Components ExfatEmbedded.Ownership ExfatEmbedded.Removal
open ExfatEmbedded.Replacing ExfatEmbedded.Readback ExfatEmbedded.Truncating ExfatEmbedded.Renaming
open ExfatEmbedded.Restreaming ExfatEmbedded.UpcaseTable ExfatEmbedded.Vacating

/-! ### Scans over whole sets -/

section WholeSets

variable {xs slots names : List Slot} {prim stream x : Slot} {e : EntrySet}
    {es : List DirectoryEntry}

/-- Each primary entry among the slots is that of a set among them. -/
def WholeSets (xs : List Slot) : Prop :=
  ∀ x ∈ xs, byteAt x.raw 0 = 0x85 → ∃ stream names, SetIn xs x stream names

lemma whole_tail (h : WholeSets (x :: xs)) (hx : byteAt x.raw 0 ≠ 0x85) : WholeSets xs := by
  intro y hy htype
  obtain ⟨stream, names, hset, hin⟩ := h y (List.mem_cons_of_mem _ hy) htype
  rcases List.infix_cons_iff.mp hin with hpre | hin
  · obtain ⟨rfl, -⟩ := List.cons_prefix_cons.mp hpre
    exact absurd htype hx
  · exact ⟨stream, names, hset, hin⟩

lemma whole_drop (hset : IsSet prim stream names) (hnodup : (prim :: stream :: names ++ xs).Nodup)
    (h : WholeSets (prim :: stream :: names ++ xs)) : WholeSets xs := by
  intro y hy htype
  obtain ⟨st, ns, hin⟩ := h y (List.mem_append_right _ hy) htype
  rcases @setIn_cases [] _ _ _ _ _ _ _ hset hin with ⟨rfl, -, -⟩ | hin | hin
  · exact absurd rfl ((List.nodup_append.mp hnodup).2.2 y List.mem_cons_self y hy)
  · have := hin.inside.length_le
    simp at this
  · exact ⟨st, ns, hin⟩

lemma sweep_whole (hlen : ∀ x ∈ xs, x.raw.length = 32) (huse : ∀ x ∈ xs, byteAt x.raw 0 ≠ 0)
    (hnodup : xs.Nodup) (h : WholeSets xs) (hidle : e.secondaryLeft = 0) :
    ∃ e' more, sweep collect xs (.going e es) = .going e' (es ++ more) ∧ e'.secondaryLeft = 0 := by
  induction hn : xs.length using Nat.strong_induction_on generalizing xs e es with
  | _ n ih =>
    cases xs with
    | nil => exact ⟨e, [], by rw [List.append_nil]; rfl, hidle⟩
    | cons x xs =>
      by_cases hx : byteAt x.raw 0 = 0x85
      · -- a set, and what follows it
        obtain ⟨stream, names, hset, hin⟩ := h x List.mem_cons_self hx
        obtain ⟨rest, hrest⟩ : ∃ rest, x :: xs = x :: stream :: names ++ rest := by
          rcases List.infix_cons_iff.mp hin with ⟨rest, hpre⟩ | hin
          · exact ⟨rest, hpre.symm⟩
          · exact absurd (hin.subset List.mem_cons_self) (List.nodup_cons.mp hnodup).1
        rw [hrest] at hlen huse hnodup h hn ⊢
        have hshort : rest.length < n := by
          rw [← hn]
          simp only [List.length_append, List.length_cons]
          omega
        have hswept : sweep collect (x :: stream :: names) (.going e es) =
            .going (afterNames (afterStream x stream) names)
              (es ++ [entryOf x stream names]) := by
          rw [sweep_set hset hidle]
          rfl
        obtain ⟨e', more, hmore, hidle'⟩ := @ih rest.length hshort rest
          (afterNames (afterStream x stream) names) (es ++ [entryOf x stream names])
          (fun y hy => hlen y (List.mem_append_right _ hy))
          (fun y hy => huse y (List.mem_append_right _ hy)) (List.nodup_append.mp hnodup).2.1
          (whole_drop hset hnodup h) hset.idle rfl
        refine ⟨e', entryOf x stream names :: more, ?_, hidle'⟩
        rw [sweep_append, hswept, hmore]
        simp
      · have hpush := push_between hidle (hlen x List.mem_cons_self) hx
        obtain ⟨e', more, hmore, hidle'⟩ := @ih xs.length (by rw [← hn]; simp) xs e es
          (fun y hy => hlen y (List.mem_cons_of_mem _ hy))
          (fun y hy => huse y (List.mem_cons_of_mem _ hy)) (List.nodup_cons.mp hnodup).2
          (whole_tail h hx) hidle rfl
        refine ⟨e', more, ?_, hidle'⟩
        change sweep collect xs (Progress.step collect (.going e es) x) = _
        unfold Progress.step
        simp only
        rw [if_neg (huse x List.mem_cons_self), hpush]
        exact hmore

lemma rebased_going {a b : List DirectoryEntry} {p q : Progress (List DirectoryEntry)}
    (h : Rebased a b p q) (hp : p = .going e es) (hidle : e.secondaryLeft = 0) :
    ∃ e' rest, es = a ++ rest ∧ q = .going e' (b ++ rest) ∧ e'.secondaryLeft = 0 := by
  cases h with
  | @going e1 e' rest halike =>
    cases hp
    refine ⟨e', rest, rfl, rfl, ?_⟩
    rcases halike with rfl | ⟨-, h⟩
    · exact hidle
    · exact h
  | stopped rest => cases hp
  | failed => cases hp

end WholeSets

/-! ### Another set in a directory -/

section Fills

variable {vol : Volume} {s t : Machine} {e x : DirectoryEntry} {D P : Dir} {c : ℕ} {y : Slot}
  {front block back : List Slot}

/-- From `s` to `t` the set of the empty file `e` was written into the slots `block` of the
directory `P`, which were not in use. -/
structure Filled (vol : Volume) (s t : Machine) (P : Dir) (front block back : List Slot)
    (e : DirectoryEntry) : Prop where
  follows : Follows s t
  base : Base vol (bitmapClusters vol s.device.sectors) t
  inTree : InTree .whole vol.geometry s.device.sectors P
  slots : P.slots .whole vol.geometry s.device.sectors = front ++ (block ++ back)
  free : ∀ x ∈ block, byteAt x.raw 0 < 0x80
  only : OnlySlots (block.map Slot.loc) s.device.sectors t.device.sectors
  set : ∃ prim stream names, block.map (reread t) = prim :: stream :: names ∧
    IsSet prim stream names ∧ e = entryOf prim stream names
  file : e.isDirectory = false
  empty : e.dataLength = 0
  noFatChain : e.noFatChain = true

variable (hwf : WellFormed .whole vol s) (h : Filled vol s t P front block back e)

include hwf h

lemma block_placed : AllPlaced vol.geometry (bitmapClusters vol s.device.sectors)
    (block.map Slot.loc) := by
  refine hwf.placed h.inTree (List.map_subset _ fun x hx => ?_)
  rw [h.slots]
  simp [hx]

lemma fat_filled (hc : vol.geometry.InHeap c) :
    fatEntry vol.geometry t.device.sectors c = fatEntry vol.geometry s.device.sectors c :=
  h.only.fatEntry_eq hwf.sound (block_placed hwf h) hc

lemma extent_filled {first n : ℕ} {noFatChain : Bool}
    (hheap : ∀ c ∈ extent vol.geometry s.device.sectors first noFatChain n, vol.geometry.InHeap c) :
    extent vol.geometry t.device.sectors first noFatChain n =
        extent vol.geometry s.device.sectors first noFatChain n ∧
      (ChainEnds vol.geometry s.device.sectors first noFatChain n →
        ChainEnds vol.geometry t.device.sectors first noFatChain n) :=
  extent_ends fun _ hi => fat_filled hwf h (hheap _ (nthCluster_mem hi))

lemma sameCluster_filled (hc : vol.geometry.InHeap c)
    (hout : c ∉ P.clusters vol.geometry s.device.sectors) :
    SameCluster vol.geometry s.device.sectors t.device.sectors c := by
  apply h.only.sameCluster
  intro loc hloc hin
  obtain ⟨own, howners⟩ := hwf.owners
  obtain ⟨z, hz, rfl⟩ := List.mem_map.mp hloc
  have hzP : z ∈ P.slots .whole vol.geometry s.device.sectors := by
    rw [h.slots]
    simp [hz]
  obtain ⟨-, c', hc', hplaced⟩ := extentSlots_slotOn hwf.sound hzP
  have heq := hin.unique (hwf.sound.inHeap_iff.mp hc).1
    (hwf.sound.inHeap_iff.mp ((howners.dir h.inTree).heap c' hc')).1 hplaced.inCluster
  exact hout (heq ▸ hc')

lemma table_filled : SameTable vol s t := by
  obtain ⟨own, howners⟩ := hwf.owners
  have hupcase := howners.upcase
  refine ⟨hupcase.heap, length_le_heap hwf.sound hupcase.heap hupcase.nodup,
    (extent_filled hwf h hupcase.heap).1, fun c hc => ?_⟩
  refine sameCluster_filled hwf h (hupcase.heap c hc) fun hmem => ?_
  have hown := hupcase.own c hc
  rw [(howners.dir h.inTree).own c hmem] at hown
  exact Opened.owner_ne_upcase h.inTree (Option.some.inj hown)

lemma clusterOf_filled (hD : InTree .whole vol.geometry s.device.sectors D) {j : ℕ}
    (hj : j ≤ D.count) :
    clusterOf vol.geometry t.device.sectors D.dir j =
      clusterOf vol.geometry s.device.sectors D.dir j := by
  obtain ⟨own, howners⟩ := hwf.owners
  induction j with
  | zero => rw [clusterOf_zero, clusterOf_zero]
  | succ j ih =>
    cases hfat : D.dir.noFatChain with
    | true => simp [clusterOf, hfat]
    | false =>
      rw [clusterOf_succ hfat, clusterOf_succ hfat, ih (by omega)]
      exact fat_filled hwf h ((howners.dir hD).heap _ (nthCluster_mem (Nat.lt_of_succ_le hj)))

lemma reread_unwritten (hy : y ∈ D.slots .whole vol.geometry s.device.sectors)
    (hout : y.loc ∉ block.map Slot.loc) :
    reread t y = y := by
  obtain ⟨hon, c, -, hplaced⟩ := extentSlots_slotOn hwf.sound hy
  have halign : ∀ loc ∈ block.map Slot.loc, 32 ∣ loc.offset := by
    intro loc hloc
    obtain ⟨c, -, -, hplaced⟩ := block_placed hwf h loc hloc
    exact hplaced.aligned
  unfold reread
  rw [h.only.slotOn_eq halign hplaced.aligned hout]
  exact hon.symm

lemma slots_filled (hD : InTree .whole vol.geometry s.device.sectors D) :
    D.slots .whole vol.geometry t.device.sectors =
      (D.slots .whole vol.geometry s.device.sectors).map (reread t) := by
  apply extentSlots_map hwf.sound
  intro j hj
  exact clusterOf_filled hwf h hD hj.le

lemma slots_unfilled (hD : InTree .whole vol.geometry s.device.sectors D) (hne : D ≠ P) :
    D.slots .whole vol.geometry t.device.sectors = D.slots .whole vol.geometry
    s.device.sectors := by
  obtain ⟨own, howners⟩ := hwf.owners
  rw [slots_filled hwf h hD]
  refine (List.map_congr_left fun x hx => ?_).trans (List.map_id _)
  refine reread_unwritten hwf h hx fun hin => hne ?_
  obtain ⟨y, hy, hloc⟩ := List.mem_map.mp hin
  refine dir_of_slot hwf.sound howners hD h.inTree hx ?_ (by rw [hloc])
  rw [h.slots]
  simp [hy]

lemma filled_map : (P.slots .whole vol.geometry s.device.sectors).map (reread t) =
      front ++ (block.map (reread t) ++ back) ∧ front.map (reread t) = front ∧
    back.map (reread t) = back := by
  obtain ⟨own, howners⟩ := hwf.owners
  have hnodup := nodup_slots hwf.sound howners h.inTree
  rw [h.slots, List.map_append, List.map_append] at hnodup
  obtain ⟨-, hrest, hfront⟩ := List.nodup_append.mp hnodup
  obtain ⟨-, -, hback⟩ := List.nodup_append.mp hrest
  have hfrontEq : front.map (reread t) = front := by
    refine (List.map_congr_left fun y hy => ?_).trans (List.map_id _)
    refine reread_unwritten hwf h (by rw [h.slots]; simp [hy]) fun hin => ?_
    exact hfront _ (List.mem_map_of_mem hy) _ (List.mem_append_left _ hin) rfl
  have hbackEq : back.map (reread t) = back := by
    refine (List.map_congr_left fun y hy => ?_).trans (List.map_id _)
    refine reread_unwritten hwf h (by rw [h.slots]; simp [hy]) fun hin => ?_
    exact hback _ hin _ (List.mem_map_of_mem hy) rfl
  refine ⟨?_, hfrontEq, hbackEq⟩
  rw [h.slots, List.map_append, List.map_append, hfrontEq, hbackEq]

omit hwf in
lemma block_ne : block ≠ [] := by
  obtain ⟨prim, stream, names, hmap, -⟩ := h.set
  rintro rfl
  cases hmap

/-- **The entries of a directory** are those of before, and in `P` also `e`. -/
theorem hasEntry_filled (hD : InTree .whole vol.geometry s.device.sectors D) :
    HasEntry (D.slots .whole vol.geometry t.device.sectors) x ↔
      HasEntry (D.slots .whole vol.geometry s.device.sectors) x ∨ (D = P ∧ x = e) := by
  by_cases hDP : D = P
  · subst hDP
    obtain ⟨prim, stream, names, hmap, hset, rfl⟩ := h.set
    rw [slots_filled hwf h hD, (filled_map hwf h).1, h.slots, hmap]
    constructor
    · intro hx
      rcases hasEntry_cases hset hx with rfl | hx | hx
      · exact .inr ⟨rfl, rfl⟩
      · exact .inl (hasEntry_front hx)
      · exact .inl (hx.mono (List.IsSuffix.isInfix ⟨front ++ block, by simp⟩))
    · rintro (⟨prim', stream', names', hin, rfl⟩ | ⟨-, rfl⟩)
      · rcases setIn_beside h.free (block_ne h) hin with hin | hin
        · exact hasEntry_front ⟨_, _, _, hin, rfl⟩
        · exact hasEntry_back ⟨_, _, _, hin, rfl⟩
      · exact hasEntry_middle hset
  · rw [slots_unfilled hwf h hD hDP]
    simp [hDP]

/-- **The directories of the tree** are those of before. -/
theorem inTree_filled : InTree .whole vol.geometry t.device.sectors D ↔
    InTree .whole vol.geometry s.device.sectors D := by
  have hlink {n i : ℕ}
      (hroot : InTree .whole vol.geometry s.device.sectors (Dir.root vol.geometry n))
      (hi : i ≤ n) : link vol.geometry t.device.sectors vol.geometry.rootCluster i =
        link vol.geometry s.device.sectors vol.geometry.rootCluster i :=
    clusterOf_filled hwf h hroot hi
  constructor
  · intro hD
    induction hD with
    | @root n heap ended =>
      obtain ⟨m, hroot⟩ := hwf.rootEnds
      generalize hDir : Dir.root vol.geometry m = D at hroot
      cases hroot with
      | child parent entry isDir => cases congrArg Dir.owner hDir
      | @root k heap' ended' =>
        have hcount := root_count hwf.sound heap ended
          (fun i hi => hlink (.root heap' ended') hi.le ▸ heap' i hi)
          (hlink (.root heap' ended') le_rfl ▸ ended')
        subst hcount
        exact .root heap' ended'
    | child parent entry isDir ih =>
      rcases (hasEntry_filled hwf h ih).mp entry with hx | ⟨-, rfl⟩
      · exact .child ih hx isDir
      · unfold DirectoryEntry.directory at isDir
        rw [h.file] at isDir
        cases isDir
  · intro hD
    induction hD with
    | @root n heap ended =>
      have hroot := @InTree.root .whole _ _ _ heap ended
      exact .root (fun i hi => (hlink hroot hi.le).symm ▸ heap i hi)
        ((hlink hroot le_rfl).symm ▸ ended)
    | child parent entry isDir ih =>
      exact .child ih ((hasEntry_filled hwf h parent).mpr (.inl entry)) isDir

lemma decodes_filled (hD : InTree .whole vol.geometry s.device.sectors D) :
    ∀ x ∈ D.slots .whole vol.geometry t.device.sectors, byteAt x.raw 0 = 0x85 →
      ∃ stream names, SetIn (D.slots .whole vol.geometry t.device.sectors) x stream names := by
  by_cases hDP : D = P
  swap
  · rw [slots_unfilled hwf h hD hDP]
    exact hwf.decodes D hD
  subst hDP
  have hdecodes := hwf.decodes D hD
  obtain ⟨prim, stream, names, hmap, hset, -⟩ := h.set
  rw [h.slots] at hdecodes
  rw [slots_filled hwf h hD, (filled_map hwf h).1, hmap]
  intro x hx htype
  have hother (hside : x ∈ front ∨ x ∈ back) : ∃ stream' names',
      SetIn (front ++ (prim :: stream :: names ++ back)) x stream' names' := by
    obtain ⟨st, ns, hxset⟩ := hdecodes x (by simp only [List.mem_append]; tauto) htype
    refine ⟨st, ns, ?_⟩
    rcases setIn_beside h.free (block_ne h) hxset with hin | hin
    · exact ⟨hin.isSet, hin.inside.trans (List.prefix_append _ _).isInfix⟩
    · exact ⟨hin.isSet, hin.inside.trans (List.IsSuffix.isInfix
        ⟨front ++ (prim :: stream :: names), by simp⟩)⟩
  rcases List.mem_append.mp hx with hx | hx
  · exact hother (.inl hx)
  rcases List.mem_append.mp hx with hx | hx
  · rcases List.mem_cons.mp hx with rfl | hx
    · exact ⟨stream, names, hset, List.append_assoc front _ back ▸ List.infix_append front _ back⟩
    · exact absurd htype (IsSet.type_ne hset x hx)
  · exact hother (.inr hx)

/-- **The volume stays well-formed.** -/
theorem wellFormed_filled : WellFormed .whole vol t := by
  obtain ⟨own, howners⟩ := hwf.owners
  have hsound := hwf.sound
  have hbm : bitmapClusters vol t.device.sectors = bitmapClusters vol s.device.sectors :=
    Base.bitmapClusters_eq h.base extent_length
  have hkeeps {o : Owner} {ds : List ℕ}
      (hds : Owned vol.geometry (bitmapClusters vol s.device.sectors) s.device.sectors own o ds) :
      Owned vol.geometry (bitmapClusters vol t.device.sectors) t.device.sectors own o ds := by
    refine ⟨hds.nodup, hds.heap, fun c hc => ?_, hds.own⟩
    rw [hbm, h.only.used_eq hsound (block_placed hwf h) hwf.base.mapped
      (counted_of_inHeap hsound (hds.heap c hc))]
    exact hds.used c hc
  obtain ⟨s0, hmount, hcount⟩ := hwf.mounted
  have hempty : clustersFor vol.geometry e.dataLength = 0 := by
    rw [h.empty]
    exact if_pos rfl
  refine ⟨⟨s0, hmount, hcount.trans h.follows.sectorCount.symm⟩, h.base.ready.scratch,
    hwf.upcaseValid, hwf.covers, ?_, ⟨own, ?_, ?_, fun n hn => ?_, fun D x hD hx => ?_⟩, ?_, ?_, ?_,
    fun D hD => ?_, fun D x hD hx => ?_⟩
  · rw [hbm]
    exact h.base.tally
  · have := hkeeps howners.bitmap
    rwa [hbm] at this ⊢
  · rw [show upcaseClusters vol t.device.sectors = upcaseClusters vol s.device.sectors from
      (extent_filled hwf h howners.upcase.heap).1]
    exact hkeeps howners.upcase
  · have howned := howners.root n ((inTree_filled hwf h).mp hn)
    rw [show (Dir.root vol.geometry n).clusters vol.geometry t.device.sectors =
      (Dir.root vol.geometry n).clusters vol.geometry s.device.sectors from
        (extent_filled hwf h howned.heap).1]
    exact hkeeps howned
  · have hD' := (inTree_filled hwf h).mp hD
    rcases (hasEntry_filled hwf h hD').mp hx with hx | ⟨-, rfl⟩
    · have howned := howners.entry D x hD' hx
      rw [show streamOf vol.geometry t.device.sectors x =
        streamOf vol.geometry s.device.sectors x from
        (extent_filled hwf h howned.heap).1]
      exact hkeeps howned
    · have hnone : streamOf vol.geometry t.device.sectors x = [] := by
        unfold streamOf
        rw [hempty]
        rfl
      rw [hnone]
      exact ⟨List.nodup_nil, by simp, by simp, by simp⟩
  · exact (extent_filled hwf h howners.bitmap.heap).2 hwf.bitmapEnds
  · exact (extent_filled hwf h howners.upcase.heap).2 hwf.upcaseEnds
  · obtain ⟨n, hn⟩ := hwf.rootEnds
    exact ⟨n, (inTree_filled hwf h).mpr hn⟩
  · exact decodes_filled hwf h ((inTree_filled hwf h).mp hD)
  · have hD' := (inTree_filled hwf h).mp hD
    rcases (hasEntry_filled hwf h hD').mp hx with hx | ⟨-, rfl⟩
    · obtain ⟨hends, hno⟩ := hwf.entryEnds D x hD' hx
      exact ⟨(extent_filled hwf h (howners.entry D x hD' hx).heap).2 hends, hno⟩
    · refine ⟨fun hfat => ?_, fun hdir => ?_⟩
      · rw [h.noFatChain] at hfat
        cases hfat
      · rw [h.file] at hdir
        cases hdir

/-! ### Searches -/

lemma whole_front : WholeSets front := by
  obtain ⟨own, howners⟩ := hwf.owners
  have hnodup := List.Nodup.of_map _ (nodup_slots hwf.sound howners h.inTree)
  have hdecodes := hwf.decodes P h.inTree
  rw [h.slots] at hnodup hdecodes
  intro x hx htype
  obtain ⟨st, ns, hset⟩ := hdecodes x (List.mem_append_left _ hx) htype
  refine ⟨st, ns, ?_⟩
  rcases setIn_beside h.free (block_ne h) hset with hin | hin
  · exact hin
  · have hback := List.mem_append_right block (hin.inside.subset List.mem_cons_self)
    exact absurd rfl ((List.nodup_append.mp hnodup).2.2 x hx x hback)

lemma swept_front (huse : ∀ x ∈ front, byteAt x.raw 0 ≠ 0) :
    ∃ e1 es1, sweep collect front (.going EntrySet.new []) = .going e1 es1 ∧
    e1.secondaryLeft = 0 := by
  obtain ⟨own, howners⟩ := hwf.owners
  have hnodup := List.Nodup.of_map _ (nodup_slots hwf.sound howners h.inTree)
  rw [h.slots] at hnodup
  have hlen : ∀ x ∈ front, x.raw.length = 32 := by
    intro x hx
    apply extentSlots_length32 (g := vol.geometry) (d := s.device.sectors)
    change x ∈ P.slots .whole vol.geometry s.device.sectors
    rw [h.slots]
    exact List.mem_append_left _ hx
  obtain ⟨e1, es1, hswept, hidle⟩ := @sweep_whole front EntrySet.new [] hlen huse
    (List.nodup_append.mp hnodup).1 (whole_front hwf h) rfl
  exact ⟨e1, es1, by rw [hswept, List.nil_append], hidle⟩

omit hwf in
lemma swept_block {e1 : EntrySet} {es1 : List DirectoryEntry} (hidle : e1.secondaryLeft = 0) :
    ∃ e2, sweep collect (block.map (reread t)) (.going e1 es1) = .going e2 (es1 ++ [e]) ∧
      e2.secondaryLeft = 0 := by
  obtain ⟨prim, stream, names, hmap, hset, rfl⟩ := h.set
  refine ⟨afterNames (afterStream prim stream) names, ?_, hset.idle⟩
  rw [hmap, sweep_set hset hidle]
  rfl

lemma swept_filled {es : List DirectoryEntry} {n : ℕ} {pre names : List Slot} {prim stream : Slot}
    (hD : InTree .whole vol.geometry s.device.sectors D)
    (hmet : MetAt vol.geometry s.device.sectors D.dir es x n pre prim stream names)
    (hslots : pre ++ (prim :: stream :: names) <+: D.slots .whole vol.geometry s.device.sectors) :
    ∃ es' e0, (∀ y ∈ es', y ∈ es ∨ (D = P ∧ y = e)) ∧
      sweep collect ((pre ++ (prim :: stream :: names)).map (reread t))
        (.going EntrySet.new []) = .going e0 (es' ++ [x]) := by
  obtain ⟨e0, hswept⟩ := hmet.swept
  by_cases hDP : D = P
  swap
  · -- another directory
    obtain ⟨post, hpost⟩ := hslots
    refine ⟨es, e0, fun y hy => .inl hy, ?_⟩
    have hsame := slots_unfilled hwf h hD hDP
    rw [slots_filled hwf h hD, ← hpost, List.map_append] at hsame
    rw [(List.append_inj hsame (by simp)).1]
    exact hswept
  subst hDP
  obtain ⟨post, hpost⟩ := hslots
  obtain ⟨-, hfront, hback⟩ := filled_map hwf h
  rw [h.slots] at hpost
  rcases split_beside h.free (block_ne h) hmet.isSet hpost with ⟨rest, rfl⟩ | ⟨rest, rfl⟩
  · -- the search does not come to the set
    refine ⟨es, e0, fun y hy => .inl hy, ?_⟩
    rw [List.map_append] at hfront
    rw [(List.append_inj hfront (by simp)).1]
    exact hswept
  · -- the search went over the free slots, and goes over the set instead
    obtain ⟨e3, hbefore, hidle3⟩ := hmet.before
    have huse := inUse_of_going hbefore
    obtain ⟨e1, es1, hfront1, hidle1⟩ := swept_front hwf h fun y hy => huse y (by simp [hy])
    have hdead : ∀ y ∈ block, Dead y := by
      intro y hy
      refine ⟨?_, huse y (by simp [hy]), h.free y hy⟩
      apply extentSlots_length32 (g := vol.geometry) (d := s.device.sectors)
      change y ∈ D.slots .whole vol.geometry s.device.sectors
      rw [h.slots]
      simp [hy]
    obtain ⟨e2, hset2, hidle2⟩ := @swept_block _ _ _ _ _ _ _ _ h e1 es1 hidle1
    have hrest : sweep collect rest (.going e1 es1) = .going e3 es := by
      rw [sweep_append, sweep_append, hfront1, sweep_dead hdead hidle1] at hbefore
      exact hbefore
    have hrebased : Rebased es1 (es1 ++ [e]) (.going e1 es1) (.going e2 (es1 ++ [e])) :=
      rebased_idle hidle1 hidle2
    obtain ⟨e4, more, rfl, hnew, hidle4⟩ := rebased_going (hrebased.sweep rest) hrest hidle3
    have hbackEq : back = rest ++ (prim :: stream :: names) ++ post := by
      simpa [List.append_assoc] using hpost.symm
    have hkept : (rest ++ (prim :: stream :: names)).map (reread t) =
        rest ++ (prim :: stream :: names) := by
      rw [hbackEq, List.map_append] at hback
      exact (List.append_inj hback (by simp)).1
    refine ⟨es1 ++ [e] ++ more, afterNames (afterStream prim stream) names, fun y hy => ?_, ?_⟩
    · simp only [List.mem_append, List.mem_singleton] at hy ⊢
      tauto
    · rw [List.append_assoc, List.map_append, List.map_append, hfront, hkept, List.append_assoc,
        sweep_append, hfront1, sweep_append, hset2, sweep_append, hnew, sweep_set hmet.isSet hidle4,
        hmet.entry]
      rfl

lemma meets_filled {es : List DirectoryEntry} {n : ℕ} {pre : List Slot} {e0 : EntrySet}
    (hD : InTree .whole vol.geometry s.device.sectors D) (hcounted : n < vol.geometry.clusterCount)
    (hwalked : Walked vol.geometry s.device.sectors D.dir n)
    (hheap : vol.geometry.InHeap (clusterOf vol.geometry s.device.sectors D.dir n))
    (hfirst : D.dir.noFatChain = true → n = 0) (hlt : n < D.count)
    (hinside : pre <+: extentSlots vol.geometry s.device.sectors D.dir (n + 1))
    (hswept : sweep collect (pre.map (reread t)) (.going EntrySet.new []) = .going e0 (es ++ [x])) :
    Meets vol.geometry t.device.sectors D.dir es x := by
  have hclusters : ∀ i ≤ n + 1, clusterOf vol.geometry t.device.sectors D.dir i =
      clusterOf vol.geometry s.device.sectors D.dir i :=
    fun i hi => clusterOf_filled hwf h hD (by omega)
  exact meets_reread hwf.sound hclusters hcounted hwalked hheap hfirst hinside hswept

/-- **A search which has found another entry** finds it on the media of `t`. -/
theorem finds_filled {j : Judge} (hD : InTree .whole vol.geometry s.device.sectors D)
    (hj : D = P → j e = .ok false)
    (hfinds : Finds vol.geometry s.device.sectors D.dir j (.ok (some x))) :
    Finds vol.geometry t.device.sectors D.dir j (.ok (some x)) := by
  obtain ⟨es, n, pre, prim, stream, names, hmet, hslots, hall, hx⟩ := met_of_finds hwf hD hfinds
  have hlt := (hwf.allEnd D hD).walked_lt hwf.sound hmet.walked hmet.heap hmet.first
  obtain ⟨es', e0, hsub, hswept⟩ := swept_filled hwf h hD hmet hslots
  have hmeets := meets_filled hwf h hD hmet.counted hmet.walked hmet.heap hmet.first hlt
    hmet.inside hswept
  have hothers : ∀ y ∈ es', j y = .ok false := by
    intro y hy
    rcases hsub y hy with hin | ⟨hDP, rfl⟩
    · exact hall y hin
    · exact hj hDP
  have hend := hmeets.finds hothers (by rw [hx]; simp)
  unfold seek at hend
  rw [hx] at hend
  exact hend

end Fills

/-! ### Names -/

section Names

variable {vol : Volume} {s : Machine} {g : Geometry} {d : Sectors} {dir : Directory} {j : Judge}
  {e x : DirectoryEntry} {es : List DirectoryEntry} {w name : List ℕ} {P : Dir}

lemma judged_false (h : Finds g d dir j (.ok none)) (hmeets : Meets g d dir es x) :
    j x = .ok false ∧ ∀ y ∈ es, j y = .ok false := by
  have hlast : ∀ es y, Meets g d dir es y → (∀ z ∈ es, j z = .ok false) → j y = .ok false := by
    intro es y hy hall
    by_contra hne
    have heq := h.unique (hy.finds hall hne)
    unfold seek at heq
    rcases hv : j y with (_ | _) | _ | _ <;> rw [hv] at heq <;> simp [verdict] at heq
    exact hne hv
  have hes : ∀ y ∈ es, j y = .ok false := by
    induction es using List.reverseRecOn generalizing x with
    | nil => simp
    | append_singleton es z ih =>
      have hz : Meets g d dir es z := hmeets.front
      intro y hy
      rcases List.mem_append.mp hy with hy | hy
      · exact ih hz y hy
      · rw [List.mem_singleton.mp hy]
        exact hlast es z hz (ih hz)
  exact ⟨hlast es x hmeets hes, hes⟩

lemma folds_of_match (hs : Healthy s) {a b : List ℕ} (h : (namesMatch vol a b s).1 = .ok true) :
    Folds vol s a ∧ Folds vol s b := by
  have hboth := (namesMatch_true hs).mp h
  have hfold : ∀ u v, SameFold vol s u v →
      (foldUnit vol s u).isSome ∧ (foldUnit vol s v).isSome := by
    rintro u v ⟨image, hu, hv⟩
    simp [foldUnit, hu, hv]
  constructor
  · exact ((List.forall₂_and_left _ _).mp (hboth.imp fun u v huv => ⟨(hfold u v huv).1, huv⟩)).1
  · exact ((List.forall₂_and_left _ _).mp (hboth.flip.imp fun v u huv =>
      ⟨(hfold u v huv).2, huv⟩)).1

lemma judge_other (hwf : WellFormed .whole vol s) (hs : Healthy s)
    (hP : InTree .whole vol.geometry s.device.sectors P)
    (hnew : Finds vol.geometry s.device.sectors P.dir (judge vol s name) (.ok none))
    (hfolds : Folds vol s name) (hname : e.nameUtf16 = name)
    (hfinds : Finds vol.geometry s.device.sectors P.dir (judge vol s w) (.ok (some x))) :
    judge vol s w e = .ok false := by
  obtain ⟨es, n, pre, prim, stream, names, hmet, -, -, hx⟩ := met_of_finds hwf hP hfinds
  obtain ⟨e0, hswept⟩ := hmet.swept
  have hmeets : Meets vol.geometry s.device.sectors P.dir es x :=
    ⟨n, _, e0, hmet.counted, hmet.walked, hmet.heap, hmet.first, hmet.inside, hswept⟩
  obtain ⟨hfalse, -⟩ := judged_false hnew hmeets
  obtain ⟨hxfolds, hwfolds⟩ := folds_of_match hs hx
  have hsame := (namesMatch_folded hs hxfolds hwfolds).mp hx
  obtain ⟨b, t, hrun, hb, -⟩ := exists_of_wp (namesMatch_spec hs (OnMedia.refl hs) hfolds hwfolds)
  have hjudge : judge vol s w e = .ok b := by
    unfold judge
    rw [hname, hrun]
  rw [hjudge]
  cases b with
  | false => rfl
  | true =>
    have hxname : judge vol s name x = .ok true :=
      (namesMatch_folded hs hxfolds hfolds).mpr (hsame.trans (hb.mp rfl).symm)
    rw [hfalse] at hxname
    cases hxname

lemma judge_self (hs : Healthy s) (hfolds : Folds vol s name) (hname : e.nameUtf16 = name) :
    judge vol s name e = .ok true := by
  unfold judge
  rw [hname]
  exact (namesMatch_folded hs hfolds hfolds).mpr rfl

end Names

/-! ### Paths -/

section Components

variable {vol : Volume} {dir : Directory} {name last : List Char} {rest : List (List Char)}

/-- The last component is looked for in the directory which those in front of it lead to. -/
lemma lookupFrom_snoc : Lookup.lookupFrom vol dir name (rest ++ [last]) =
    Lookup.lookupFrom vol dir name rest >>= fun entry => okOr .notDirectory entry.directory >>=
      fun dir => Lookup.lookupFrom vol dir last [] := by
  induction rest generalizing dir name with
  | nil => rw [List.nil_append, lookupFrom_cons, lookupFrom_nil, bind_assoc]
  | cons next rest ih =>
    rw [List.cons_append, lookupFrom_cons, lookupFrom_cons]
    simp only [ih, bind_assoc]

end Components

section Outcomes

variable {vol : Volume} {s : Machine} {dir : Directory} {name : List Char}
  {a b : Machine × Workspace} (hwf : WellFormed .whole vol s) (hs : Healthy s)

lemma lookup_outcome {path : List Char} :
    (Lookup.lookup vol path s).1 = (lookupWithWorkspace vol path (s, Workspace.new)).1 := by
  unfold Lookup.lookup
  rw [withNewWorkspace_outcome]

include hwf hs

lemma seekName_outcome (hname : ValidName name) (ha : Idle vol s a) :
    Finds vol.geometry s.device.sectors dir (judge vol s (utf16Of name))
      (seekName vol dir name a).1 := by
  have hspec := @seekName_finds vol s dir name hwf.ready hwf.table hs hname a ha
  rcases hrun : seekName vol dir name a with ⟨o | err | _, u⟩
  · exact ((wp_ok hrun).mp hspec).1
  · exact (wp_err hrun).mp hspec
  · unfold wp at hspec
    rw [hrun] at hspec
    exact hspec.elim

lemma idle_of_seekName {x : DirectoryEntry} (ha : Idle vol s a)
    (hrun : seekName vol dir name a = (.ok (some x), b)) : Idle vol s b := by
  have hname : ValidName name := by
    by_contra hname
    obtain ⟨err, -, hall⟩ := @seekName_invalid dir name hname
    have herr := hall vol a
    rw [hrun] at herr
    cases herr
  exact ((wp_ok hrun).mp (seekName_finds hwf.ready hwf.table hs hname ha)).2 x rfl

lemma seekName_alike (ha : Idle vol s a) (hb : Idle vol s b) :
    (seekName vol dir name a).1 = (seekName vol dir name b).1 := by
  by_cases hname : ValidName name
  · exact (seekName_outcome hwf hs hname ha).unique (seekName_outcome hwf hs hname hb)
  · obtain ⟨err, -, hall⟩ := @seekName_invalid dir name hname
    rw [hall, hall]

lemma lookupFrom_alike {rest : List (List Char)} (ha : Idle vol s a) (hb : Idle vol s b) :
    (Lookup.lookupFrom vol dir name rest a).1 = (Lookup.lookupFrom vol dir name rest b).1 := by
  induction rest generalizing dir name a b with
  | nil =>
    rw [lookupFrom_nil]
    refine bind_outcome (seekName_alike hwf hs ha hb) fun o _ _ _ _ => ?_
    cases o <;> rfl
  | cons next rest ih =>
    rw [lookupFrom_cons]
    refine bind_outcome (seekName_alike hwf hs ha hb) fun o a' b' ha' hb' => ?_
    cases o with
    | none => rfl
    | some x =>
      rw [okOr_some, pure_bind]
      rcases x.directory with _ | dir'
      · rfl
      · rw [okOr_some, pure_bind]
        exact ih (idle_of_seekName hwf hs ha ha') (idle_of_seekName hwf hs hb hb')

/-- The outcome of a lookup is the same from all states between sets. -/
theorem lookup_alike {path : List Char} (ha : Idle vol s a) (hb : Idle vol s b) :
    (lookupWithWorkspace vol path a).1 = (lookupWithWorkspace vol path b).1 := by
  unfold lookupWithWorkspace
  rcases segments path with _ | ⟨current, rest⟩
  · rfl
  · exact lookupFrom_alike hwf hs ha hb

end Outcomes

section Carries

variable {vol : Volume} {s t : Machine} {x : DirectoryEntry} {D : Dir}

/-- What a search of the tree finds on the media of `s` it finds on that of `t`. -/
structure Carries (vol : Volume) (s t : Machine) : Prop where
  ready : Ready vol.geometry t
  healthy : Healthy t
  judge : ∀ w, Search.judge vol t w = Search.judge vol s w
  finds : ∀ D w x, InTree .whole vol.geometry s.device.sectors D →
    Finds vol.geometry s.device.sectors D.dir (Search.judge vol s w) (.ok (some x)) →
      Finds vol.geometry t.device.sectors D.dir (Search.judge vol s w) (.ok (some x))

variable (hwf : WellFormed .whole vol s) (hs : Healthy s) (h : Carries vol s t)

include hwf hs h

lemma Carries.seekName (hD : InTree .whole vol.geometry s.device.sectors D) {name : List Char}
    {a b a' : Machine × Workspace} (ha : Idle vol s a) (hb : Idle vol t b)
    (hrun : seekName vol D.dir name a = (.ok (some x), a')) :
    Idle vol s a' ∧ HasEntry (D.slots .whole vol.geometry s.device.sectors) x ∧
      ∃ b', seekName vol D.dir name b = (.ok (some x), b') ∧ Idle vol t b' := by
  have hname : ValidName name := by
    by_contra hname
    obtain ⟨err, -, hall⟩ := @seekName_invalid D.dir name hname
    have herr := hall vol a
    rw [hrun] at herr
    cases herr
  obtain ⟨hfinds, hidle⟩ := (wp_ok hrun).mp (seekName_finds hwf.ready hwf.table hs hname ha)
  refine ⟨hidle x rfl, hasEntry_of_finds hwf hD hfinds, ?_⟩
  have hnew := h.finds D _ x hD hfinds
  have hspec := @seekName_finds vol t D.dir name h.ready hwf.table h.healthy hname b hb
  rw [h.judge] at hspec
  rcases hb' : Components.seekName vol D.dir name b with ⟨o | err | _, b'⟩
  · obtain ⟨hfinds', hidle'⟩ := (wp_ok hb').mp hspec
    obtain rfl := Outcome.ok.inj (hfinds'.unique hnew)
    exact ⟨b', rfl, hidle' _ rfl⟩
  · have hfinds' := (wp_err hb').mp hspec
    cases hfinds'.unique hnew
  · unfold wp at hspec
    rw [hb'] at hspec
    exact hspec.elim

lemma Carries.lookupFrom (hD : InTree .whole vol.geometry s.device.sectors D) {name : List Char}
    {rest : List (List Char)} {a b : Machine × Workspace} (ha : Idle vol s a) (hb : Idle vol t b)
    (hrun : (lookupFrom vol D.dir name rest a).1 = .ok x) :
    (lookupFrom vol D.dir name rest b).1 = .ok x := by
  induction rest generalizing D name a b with
  | nil =>
    rw [lookupFrom_nil] at hrun ⊢
    obtain ⟨o, a', hseek, hfound⟩ := bind_ok_iff.mp hrun
    cases o with
    | none => cases hfound
    | some y =>
      cases hfound
      obtain ⟨-, -, b', hseek', -⟩ := h.seekName hwf hs hD ha hb hseek
      exact bind_ok_iff.mpr ⟨_, b', hseek', rfl⟩
  | cons next rest ih =>
    rw [lookupFrom_cons] at hrun ⊢
    obtain ⟨o, a', hseek, hfound⟩ := bind_ok_iff.mp hrun
    cases o with
    | none => cases hfound
    | some y =>
      rw [okOr_some, pure_bind] at hfound
      rcases hdir : y.directory with _ | dir
      · rw [hdir] at hfound
        cases hfound
      rw [hdir, okOr_some, pure_bind] at hfound
      obtain ⟨ha', hy, b', hseek', hb'⟩ := h.seekName hwf hs hD ha hb hseek
      refine bind_ok_iff.mpr ⟨_, b', hseek', ?_⟩
      rw [okOr_some, pure_bind, hdir, okOr_some, pure_bind]
      exact ih (D := Dir.ofEntry vol.geometry y dir) (.child hD hy hdir) ha' hb' hfound

/-- **A path leads where it led**, from whatever state between sets. -/
theorem Carries.lookup {path : List Char} {a b : Machine × Workspace} (ha : Idle vol s a)
    (hb : Idle vol t b) (hlookup : (lookupWithWorkspace vol path a).1 = .ok x) :
    (lookupWithWorkspace vol path b).1 = .ok x := by
  obtain ⟨n, hroot⟩ := hwf.rootEnds
  unfold lookupWithWorkspace at hlookup ⊢
  rcases hpath : segments path with _ | ⟨name, rest⟩
  · rw [hpath] at hlookup
    cases hlookup
  · rw [hpath] at hlookup
    exact h.lookupFrom hwf hs hroot ha hb hlookup

lemma Carries.path {path : List Char} (hlookup : (Lookup.lookup vol path s).1 = .ok x) :
    (Lookup.lookup vol path t).1 = .ok x := by
  rw [lookup_outcome] at hlookup ⊢
  exact h.lookup hwf hs (idle_new vol s) (idle_new vol t) hlookup

end Carries

end ExfatEmbedded.Filling
