import ExfatEmbedded.Restreaming
import ExfatEmbedded.Emptiness

/-!
A volume after an entry of it was removed.

The set of the entry is retired where it lies. The directory has its other sets and no others, each
path to another entry leads where it led, and the volume stays well-formed.
-/

namespace ExfatEmbedded.Vacating

open ExfatEmbedded.Library Exec ExfatEmbedded.Core ExfatEmbedded.Entry ExfatEmbedded.Allocation
open ExfatEmbedded.Lookup ExfatEmbedded.FileIo ExfatEmbedded.Mutation ExfatEmbedded.Reading
open ExfatEmbedded.Scan ExfatEmbedded.Sets ExfatEmbedded.ReadSafety ExfatEmbedded.MountSafety
open ExfatEmbedded.StreamSafety ExfatEmbedded.Media ExfatEmbedded.Writing ExfatEmbedded.Tree
open ExfatEmbedded.Commit ExfatEmbedded.Release ExfatEmbedded.Layout ExfatEmbedded.Listing
open ExfatEmbedded.Slots ExfatEmbedded.Codec ExfatEmbedded.Decoding ExfatEmbedded.Emptiness
open ExfatEmbedded.Search ExfatEmbedded.Components ExfatEmbedded.Ownership ExfatEmbedded.Removal
open ExfatEmbedded.Replacing ExfatEmbedded.Readback ExfatEmbedded.Truncating
open ExfatEmbedded.Restreaming ExfatEmbedded.Renaming ExfatEmbedded.Mount

/-! ### Slots out of use -/

section Dead

variable {front back dead names : List Slot} {prim stream : Slot} {e : EntrySet}
  {es : List DirectoryEntry}

/-- The slot is not in use, and it does not end the directory. -/
def Dead (x : Slot) : Prop := x.raw.length = 32 ∧ byteAt x.raw 0 ≠ 0 ∧ byteAt x.raw 0 < 0x80

lemma live_of_set (h : IsSet prim stream names) :
    ∀ x ∈ prim :: stream :: names, 0x80 ≤ byteAt x.raw 0 := by
  intro x hx
  rcases List.mem_cons.mp hx with rfl | hx
  · have := h.primary
    omega
  rcases List.mem_cons.mp hx with rfl | hx
  · have := h.streamType
    omega
  · have := h.nameType x hx
    omega

lemma split_beside {pre post : List Slot} (hfree : ∀ x ∈ dead, byteAt x.raw 0 < 0x80)
    (hne : dead ≠ []) (hset : IsSet prim stream names)
    (hslots : pre ++ (prim :: stream :: names) ++ post = front ++ (dead ++ back)) :
    (∃ rest, front = pre ++ (prim :: stream :: names) ++ rest) ∨
      ∃ rest, pre = front ++ dead ++ rest := by
  have hlive := live_of_set hset
  rw [List.append_assoc] at hslots
  rcases List.append_eq_append_iff.mp hslots with ⟨a, hfront, hrest⟩ | ⟨a, hpre, hrest⟩
  · rcases List.append_eq_append_iff.mp hrest with ⟨b, ha, -⟩ | ⟨b, hb, hrest'⟩
    · exact .inl ⟨b, by rw [hfront, ha, List.append_assoc]⟩
    · cases b with
      | nil => exact .inl ⟨[], by rw [hb, hfront]; simp⟩
      | cons y b =>
        obtain ⟨z, dead', rfl⟩ := List.exists_cons_of_ne_nil hne
        simp only [List.cons_append, List.cons.injEq] at hrest'
        obtain ⟨rfl, -⟩ := hrest'
        have h1 := hfree z List.mem_cons_self
        have h2 := hlive z (by rw [hb]; simp)
        omega
  · rcases List.append_eq_append_iff.mp hrest with ⟨b, ha, -⟩ | ⟨b, hb, hrest'⟩
    · exact .inr ⟨b, by rw [hpre, ha, List.append_assoc]⟩
    · cases b with
      | nil => exact .inr ⟨[], by rw [hpre, hb]; simp⟩
      | cons y b =>
        simp only [List.cons_append, List.cons.injEq] at hrest'
        obtain ⟨rfl, -⟩ := hrest'
        have h1 := hfree prim (by rw [hb]; simp)
        have h2 := hlive prim List.mem_cons_self
        omega

lemma setIn_beside (hfree : ∀ x ∈ dead, byteAt x.raw 0 < 0x80) (hne : dead ≠ [])
    (hset : SetIn (front ++ (dead ++ back)) prim stream names) :
    SetIn front prim stream names ∨ SetIn back prim stream names := by
  obtain ⟨hset, pre, post, hslots⟩ := hset
  rcases split_beside hfree hne hset hslots with ⟨rest, hfront⟩ | ⟨rest, rfl⟩
  · exact .inl ⟨hset, pre, rest, hfront.symm⟩
  · refine .inr ⟨hset, rest, post, ?_⟩
    simpa [List.append_assoc] using hslots

lemma sweep_dead (hdead : ∀ x ∈ dead, Dead x) (hidle : e.secondaryLeft = 0) :
    sweep collect dead (.going e es) = .going e es := by
  induction dead with
  | nil => rfl
  | cons x dead ih =>
    obtain ⟨hlen, hz, hlt⟩ := hdead x List.mem_cons_self
    change sweep collect dead (Progress.step collect (.going e es) x) = _
    unfold Progress.step
    simp only
    rw [if_neg hz, push_between hidle hlen (by omega)]
    exact ih fun y hy => hdead y (List.mem_cons_of_mem _ hy)

end Dead

/-! ### Retired slots -/

section Retired

variable {d : Sectors} {loc : EntryLocator} {L : List EntryLocator}

lemma retireOne_type (d : Sectors) (loc : EntryLocator) :
    byteAt (slotOn (retireOne d loc) loc).raw 0 = byteAt (slotOn d loc).raw 0 % 0x80 := by
  have hslot := @slotOn_put_self d loc 0
    (leBytes 1 (ofLe (Image.slice (d loc.lba) loc.offset 1) % 0x80)) (by simp)
  rw [Nat.add_zero] at hslot
  unfold retireOne
  rw [hslot]
  have hbyte := @byteAt_overlay_of_in (slotOn d loc).raw
    (leBytes 1 (ofLe (Image.slice (d loc.lba) loc.offset 1) % 0x80)) 0 0
    (by rw [slotOn_length]; simp) (by simp)
  have hfirst : ofLe (Image.slice (d loc.lba) loc.offset 1) = byteAt (slotOn d loc).raw 0 := by
    unfold byteAt slotOn
    simp only
    rw [Image.slice_getD _ _ _ _ (by decide)]
    simp [Image.slice, ofLe]
  rw [Nat.add_zero] at hbyte
  simp only
  rw [hbyte, hfirst]
  simp [byteAt, leBytes]
  omega

lemma retired_type (hnodup : L.Nodup) (halign : ∀ loc ∈ L, 32 ∣ loc.offset) (hloc : loc ∈ L) :
    byteAt (slotOn (retired d L) loc).raw 0 = byteAt (slotOn d loc).raw 0 % 0x80 := by
  induction L generalizing d with
  | nil => cases hloc
  | cons l L ih =>
    obtain ⟨hl, hnodup⟩ := List.nodup_cons.mp hnodup
    have halign' : ∀ loc ∈ L, 32 ∣ loc.offset := fun y hy => halign y (List.mem_cons_of_mem _ hy)
    change byteAt (slotOn (retired (retireOne d l) L) loc).raw 0 = _
    rcases List.mem_cons.mp hloc with rfl | hloc
    · rw [(onlySlots_retired (L := L) fun _ h => h).slotOn_eq halign'
        (halign loc List.mem_cons_self) hl, retireOne_type]
    · have hne : loc ≠ l := fun heq => hl (heq ▸ hloc)
      rw [ih hnodup halign' hloc]
      have hslot := @slotOn_put_ne d l loc 0
        (leBytes 1 (ofLe (Image.slice (d l.lba) l.offset 1) % 0x80)) (by simp) hne
        (halign l List.mem_cons_self) (halign' loc hloc)
      rw [Nat.add_zero] at hslot
      unfold retireOne
      rw [hslot]

end Retired

/-! ### The tree beside an entry -/

/-- The directories to which a path leads that does not go through the entry `e`. -/
inductive Beside (g : Geometry) (d : Sectors) (e : DirectoryEntry) : Dir → Prop
  | root {n : ℕ} (heap : ∀ i < n, g.InHeap (link g d g.rootCluster i))
      (ended : link g d g.rootCluster n = 0xffffffff) : Beside g d e (Dir.root g n)
  | child {D : Dir} {x : DirectoryEntry} {dir : Directory} (parent : Beside g d e D)
      (entry : HasEntry (D.slots .whole g d) x) (ne : x ≠ e) (isDir : x.directory = some dir) :
      Beside g d e (Dir.ofEntry g x dir)

section Depth

variable {g : Geometry} {d : Sectors} {e : DirectoryEntry} {D P : Dir} {k m : ℕ}

lemma Beside.inTree (h : Beside g d e D) : InTree .whole g d D := by
  induction h with
  | root heap ended => exact .root heap ended
  | child parent entry ne isDir ih => exact .child ih entry isDir

variable {vol : Volume} {own : ℕ → Option Owner} {n : ℕ} (hs : Sound vol.geometry n)
  (h : Owners .whole vol d own)

include hs h

lemma Beside.owner_ne (hD : Beside vol.geometry d e D) (hP : InTree .whole vol.geometry d P)
    (he : HasEntry (P.slots .whole vol.geometry d) e) : D.owner ≠ .entry e.primary := by
  cases hD with
  | root heap ended => simp [Dir.root]
  | child parent entry ne isDir =>
    intro howner
    exact ne (entry_unique hs h parent.inTree entry hP he (Owner.entry.inj howner)).2

end Depth

/-! ### The media behind a removal -/

section Vacates

variable {vol : Volume} {s t : Machine} {e x : DirectoryEntry} {D P : Dir} {c : ℕ} {y : Slot}

/-- From `s` to `t` the set of `e` was retired, and of the other clusters nothing but FAT entries
and marks of the stream of `e` has changed. If `e` is a directory, no search in it meets an
entry. -/
structure Vacated (vol : Volume) (s t : Machine) (e : DirectoryEntry) : Prop where
  follows : Follows s t
  base : Base vol (bitmapClusters vol s.device.sectors) t
  used : ∀ c, Counted vol.geometry c → c ∉ streamOf vol.geometry s.device.sectors e →
    used vol.geometry (bitmapClusters vol s.device.sectors) t.device.sectors c =
      used vol.geometry (bitmapClusters vol s.device.sectors) s.device.sectors c
  fat : ∀ c, vol.geometry.InHeap c → c ∉ streamOf vol.geometry s.device.sectors e →
    fatEntry vol.geometry t.device.sectors c = fatEntry vol.geometry s.device.sectors c
  media : ∀ c, vol.geometry.InHeap c → c ∉ bitmapClusters vol s.device.sectors →
    SameCluster vol.geometry (retired s.device.sectors (e.entryLocs.take e.entryCount))
      t.device.sectors c
  closed : ∀ dir, e.directory = some dir → ∀ es x,
    ¬ Meets vol.geometry s.device.sectors dir es x

variable (hwf : WellFormed .whole vol s) (h : Vacated vol s t e)
  (hP : InTree .whole vol.geometry s.device.sectors P)
  (he : HasEntry (P.slots .whole vol.geometry s.device.sectors) e)

include hwf hP he

lemma beside_other (hD : Beside vol.geometry s.device.sectors e D) :
    ∀ c ∈ D.clusters vol.geometry s.device.sectors, Other vol s e c := by
  obtain ⟨own, howners⟩ := hwf.owners
  exact Owners.other howners hP he (howners.dir hD.inTree)
    (Beside.owner_ne hwf.sound howners hD hP he)

lemma locs_aligned : ∀ loc ∈ e.entryLocs.take e.entryCount, 32 ∣ loc.offset := by
  intro loc hloc
  obtain ⟨c, -, -, hplaced⟩ := hwf.placed hP he.locs.1 loc hloc
  exact hplaced.aligned

lemma locs_nodup : (e.entryLocs.take e.entryCount).Nodup := by
  obtain ⟨own, howners⟩ := hwf.owners
  obtain ⟨prim, stream, names, hset, rfl⟩ := he
  rw [entryOf_take_locs hset.isSet]
  exact ((hset.inside.map Slot.loc).sublist).nodup (nodup_slots hwf.sound howners hP)

include h

omit hP he in
lemma slotOn_vacated (hD : InTree .whole vol.geometry s.device.sectors D)
    (hy : y ∈ D.slots .whole vol.geometry s.device.sectors) : slotOn t.device.sectors y.loc =
      slotOn (retired s.device.sectors (e.entryLocs.take e.entryCount)) y.loc := by
  obtain ⟨own, howners⟩ := hwf.owners
  obtain ⟨-, c, hc, hplaced⟩ := extentSlots_slotOn hwf.sound hy
  have hfree := howners.apart (howners.dir hD) (Owners.owner_ne hD)
  unfold slotOn
  rw [h.media c (hfree.heap c hc) (hfree.apart c hc) _ hplaced.inCluster]

lemma reread_kept (hD : InTree .whole vol.geometry s.device.sectors D)
    (hy : y ∈ D.slots .whole vol.geometry s.device.sectors)
    (hout : y.loc ∉ e.entryLocs.take e.entryCount) :
    reread t y = y := by
  obtain ⟨hon, c, -, hplaced⟩ := extentSlots_slotOn hwf.sound hy
  unfold reread
  rw [slotOn_vacated hwf h hD hy, (onlySlots_retired fun _ h => h).slotOn_eq
    (locs_aligned hwf hP he) hplaced.aligned hout]
  exact hon.symm

lemma reread_dead (hD : InTree .whole vol.geometry s.device.sectors D)
    (hy : y ∈ D.slots .whole vol.geometry s.device.sectors)
    (hin : y.loc ∈ e.entryLocs.take e.entryCount)
    (htype : byteAt y.raw 0 % 0x80 ≠ 0) : Dead (reread t y) := by
  obtain ⟨hon, -⟩ := extentSlots_slotOn hwf.sound hy
  have hbyte := retired_type (d := s.device.sectors) (locs_nodup hwf hP he)
    (locs_aligned hwf hP he) hin
  rw [← slotOn_vacated hwf h hD hy, ← hon] at hbyte
  refine ⟨slotOn_length _ _, ?_, ?_⟩
  · unfold reread
    rwa [hbyte]
  · unfold reread
    rw [hbyte]
    exact Nat.mod_lt _ (by decide)

omit h in
lemma sameCluster_vacated (h : Vacated vol s t e) (hc : vol.geometry.InHeap c)
    (hbm : c ∉ bitmapClusters vol s.device.sectors)
    (hout : c ∉ P.clusters vol.geometry s.device.sectors) :
    SameCluster vol.geometry s.device.sectors t.device.sectors c := by
  refine sameCluster_trans ?_ (h.media c hc hbm)
  apply OnlySlots.sameCluster (onlySlots_retired fun _ h => h)
  intro loc hloc hin
  obtain ⟨own, howners⟩ := hwf.owners
  obtain ⟨z, hz, rfl⟩ := List.mem_map.mp (he.locs.1 hloc)
  obtain ⟨-, c', hc', hplaced⟩ := extentSlots_slotOn hwf.sound hz
  have heq := hin.unique (hwf.sound.inHeap_iff.mp hc).1
    (hwf.sound.inHeap_iff.mp ((howners.dir hP).heap c' hc')).1 hplaced.inCluster
  exact hout (heq ▸ hc')

omit hwf hP he in
lemma extent_vacated {first n : ℕ} {noFatChain : Bool}
    (hother : ∀ c ∈ extent vol.geometry s.device.sectors first noFatChain n, Other vol s e c) :
    extent vol.geometry t.device.sectors first noFatChain n =
        extent vol.geometry s.device.sectors first noFatChain n ∧
      (ChainEnds vol.geometry s.device.sectors first noFatChain n →
        ChainEnds vol.geometry t.device.sectors first noFatChain n) :=
  extent_ends fun _ hi => h.fat _ (hother _ (nthCluster_mem hi)).heap
    (hother _ (nthCluster_mem hi)).out

lemma table_vacated : SameTable vol s t := by
  obtain ⟨own, howners⟩ := hwf.owners
  have hupcase := howners.upcase
  have hne : Owner.upcase ≠ .entry e.primary := by simp
  have hapart := howners.apart hupcase (by simp)
  refine ⟨hupcase.heap, length_le_heap hwf.sound hupcase.heap hupcase.nodup,
    (extent_vacated h (Owners.other howners hP he hupcase hne)).1, fun c hc => ?_⟩
  refine sameCluster_vacated hwf hP he h (hupcase.heap c hc) (hapart.apart c hc) fun hmem => ?_
  have hown := hupcase.own c hc
  rw [(howners.dir hP).own c hmem] at hown
  exact Opened.owner_ne_upcase hP (Option.some.inj hown)

lemma clusterOf_vacated (hD : Beside vol.geometry s.device.sectors e D) {j : ℕ} (hj : j ≤ D.count) :
    clusterOf vol.geometry t.device.sectors D.dir j =
      clusterOf vol.geometry s.device.sectors D.dir j := by
  induction j with
  | zero => rw [clusterOf_zero, clusterOf_zero]
  | succ j ih =>
    cases hfat : D.dir.noFatChain with
    | true => simp [clusterOf, hfat]
    | false =>
      have hother := beside_other hwf hP he hD _ (nthCluster_mem (Nat.lt_of_succ_le hj))
      rw [clusterOf_succ hfat, clusterOf_succ hfat, ih (by omega)]
      exact h.fat _ hother.heap hother.out

/-! ### The sets of a directory -/

lemma slots_vacated (hD : Beside vol.geometry s.device.sectors e D) :
    D.slots .whole vol.geometry t.device.sectors =
      (D.slots .whole vol.geometry s.device.sectors).map (reread t) := by
  apply extentSlots_map hwf.sound
  intro j hj
  exact clusterOf_vacated hwf h hP he hD hj.le

lemma slots_beside (hD : Beside vol.geometry s.device.sectors e D) (hne : D ≠ P) :
    D.slots .whole vol.geometry t.device.sectors = D.slots .whole vol.geometry
    s.device.sectors := by
  obtain ⟨own, howners⟩ := hwf.owners
  rw [slots_vacated hwf h hP he hD]
  refine (List.map_congr_left fun x hx => ?_).trans (List.map_id _)
  refine reread_kept hwf h hP he hD.inTree hx fun hin => hne ?_
  obtain ⟨y, hy, hloc⟩ := List.mem_map.mp (he.locs.1 hin)
  exact dir_of_slot hwf.sound howners hD.inTree hP hx hy (by rw [hloc])

omit hwf h hP he in
/-- The slots of a directory around the set of `e`, which `f` takes out of use. -/
structure Gap (slots : List Slot) (f : Slot → Slot) (e : DirectoryEntry) (front : List Slot)
    (prim stream : Slot) (names back : List Slot) : Prop where
  slots : slots = front ++ (prim :: stream :: names ++ back)
  isSet : IsSet prim stream names
  entry : e = entryOf prim stream names
  front : ∀ y ∈ front, f y = y
  back : ∀ y ∈ back, f y = y
  dead : ∀ y ∈ prim :: stream :: names, Dead (f y)

omit hwf h hP he in
lemma Gap.map {slots front names back : List Slot} {f : Slot → Slot} {prim stream : Slot}
    (h : Gap slots f e front prim stream names back) :
    slots.map f = front ++ ((prim :: stream :: names).map f ++ back) := by
  rw [h.slots, List.map_append, List.map_append]
  congr 1
  · exact (List.map_congr_left h.front).trans (List.map_id _)
  · congr 1
    exact (List.map_congr_left h.back).trans (List.map_id _)

omit hwf h hP he in
lemma Gap.all_dead {slots front names back : List Slot} {f : Slot → Slot} {prim stream : Slot}
    (h : Gap slots f e front prim stream names back) :
    ∀ x ∈ (prim :: stream :: names).map f, Dead x := by
  intro x hx
  obtain ⟨y, hy, rfl⟩ := List.mem_map.mp hx
  exact h.dead y hy

lemma gap : ∃ front prim stream names back,
    Gap (P.slots .whole vol.geometry s.device.sectors) (reread t) e front prim stream names
    back := by
  obtain ⟨own, howners⟩ := hwf.owners
  have hnodup := nodup_slots hwf.sound howners hP
  obtain ⟨prim, stream, names, hset, hentry⟩ := id he
  obtain ⟨front, back, hslots⟩ := hset.inside
  have hlocs : e.entryLocs.take e.entryCount = (prim :: stream :: names).map Slot.loc := by
    rw [hentry, entryOf_take_locs hset.isSet]
  rw [List.append_assoc] at hslots
  have hin : ∀ y, y ∈ front ∨ y ∈ prim :: stream :: names ∨ y ∈ back →
      y ∈ P.slots .whole vol.geometry s.device.sectors := by
    intro y hy
    rw [← hslots]
    simpa [or_assoc] using hy
  rw [← hslots, List.map_append, List.map_append] at hnodup
  obtain ⟨-, hrest, hfront⟩ := List.nodup_append.mp hnodup
  obtain ⟨-, -, hback⟩ := List.nodup_append.mp hrest
  refine ⟨front, prim, stream, names, back, hslots.symm, hset.isSet, hentry, fun y hy => ?_,
    fun y hy => ?_, fun y hy => ?_⟩
  · refine reread_kept hwf h hP he hP (hin y (.inl hy)) fun hyL => ?_
    rw [hlocs] at hyL
    exact hfront _ (List.mem_map_of_mem hy) _ (List.mem_append_left _ hyL) rfl
  · refine reread_kept hwf h hP he hP (hin y (.inr (.inr hy))) fun hyL => ?_
    rw [hlocs] at hyL
    exact hback _ hyL _ (List.mem_map_of_mem hy) rfl
  · refine reread_dead hwf h hP he hP (hin y (.inr (.inl hy))) (hlocs ▸ List.mem_map_of_mem hy) ?_
    rcases List.mem_cons.mp hy with rfl | hy
    · rw [hset.isSet.primary]
      decide
    rcases List.mem_cons.mp hy with rfl | hy
    · rw [hset.isSet.streamType]
      decide
    · rw [hset.isSet.nameType y hy]
      decide

/-- **The entries of a directory** are those of before, without `e`. -/
theorem hasEntry_vacated (hD : Beside vol.geometry s.device.sectors e D) :
    HasEntry (D.slots .whole vol.geometry t.device.sectors) x ↔
      HasEntry (D.slots .whole vol.geometry s.device.sectors) x ∧ x ≠ e := by
  obtain ⟨own, howners⟩ := hwf.owners
  by_cases hDP : D = P
  · subst hDP
    obtain ⟨front, prim, stream, names, back, hgap⟩ := gap hwf h hP he
    have hset := hgap.isSet
    have hnodup := nodup_slots hwf.sound howners hP
    rw [slots_vacated hwf h hP he hD, hgap.map, hgap.entry]
    rw [hgap.slots] at hnodup ⊢
    simp only [List.map_append, List.map_cons] at hnodup
    obtain ⟨-, hrest, hfront⟩ := List.nodup_append.mp hnodup
    obtain ⟨-, -, hback⟩ := List.nodup_append.mp hrest
    constructor
    · rintro ⟨prim', stream', names', hset', rfl⟩
      rcases setIn_beside (fun y hy => (hgap.all_dead y hy).2.2) (by simp) hset' with hin | hin
      · refine ⟨hasEntry_front ⟨_, _, _, hin, rfl⟩, fun heq => ?_⟩
        have hloc := congrArg DirectoryEntry.primary heq
        rw [entryOf_primary, entryOf_primary] at hloc
        exact hfront _ (List.mem_map_of_mem (hin.inside.subset List.mem_cons_self)) prim.loc
          (by simp) hloc
      · refine ⟨hasEntry_back ⟨_, _, _, hin, rfl⟩, fun heq => ?_⟩
        have hloc := congrArg DirectoryEntry.primary heq
        rw [entryOf_primary, entryOf_primary] at hloc
        exact hback prim.loc (by simp) _
          (List.mem_map_of_mem (hin.inside.subset List.mem_cons_self)) hloc.symm
    · rintro ⟨hx, hxe⟩
      rcases hasEntry_cases hset hx with rfl | hx | hx
      · exact absurd rfl hxe
      · exact hasEntry_front hx
      · exact hx.mono (List.IsSuffix.isInfix ⟨front ++ (prim :: stream :: names).map
          (reread t), by simp⟩)
  · rw [slots_beside hwf h hP he hD hDP]
    refine ⟨fun hx => ⟨hx, ?_⟩, fun hx => hx.1⟩
    rintro rfl
    exact hDP (entry_unique hwf.sound howners hD.inTree hx hP he rfl).1

/-- **The directories of the tree** are those beside `e`. -/
theorem inTree_vacated : InTree .whole vol.geometry t.device.sectors D ↔
    Beside vol.geometry s.device.sectors e D := by
  have hlink {n i : ℕ} (hroot : Beside vol.geometry s.device.sectors e (Dir.root vol.geometry n))
      (hi : i ≤ n) : link vol.geometry t.device.sectors vol.geometry.rootCluster i =
        link vol.geometry s.device.sectors vol.geometry.rootCluster i :=
    clusterOf_vacated hwf h hP he hroot hi
  constructor
  · intro hD
    induction hD with
    | @root n heap ended =>
      obtain ⟨m, hroot⟩ := hwf.rootEnds
      generalize hDir : Dir.root vol.geometry m = D at hroot
      cases hroot with
      | child parent entry isDir => cases congrArg Dir.owner hDir
      | @root k heap' ended' =>
        have hcount := root_count hwf.sound heap ended
          (fun i hi => hlink (.root heap' ended') hi.le ▸ heap' i hi)
          (hlink (.root heap' ended') le_rfl ▸ ended')
        subst hcount
        exact .root heap' ended'
    | child parent entry isDir ih =>
      obtain ⟨hx, hne⟩ := (hasEntry_vacated hwf h hP he ih).mp entry
      exact .child ih hx hne isDir
  · intro hD
    induction hD with
    | @root n heap ended =>
      have hroot := Beside.root (e := e) heap ended
      exact .root (fun i hi => (hlink hroot hi.le).symm ▸ heap i hi)
        ((hlink hroot le_rfl).symm ▸ ended)
    | child parent entry ne isDir ih =>
      exact .child ih ((hasEntry_vacated hwf h hP he parent).mpr ⟨entry, ne⟩) isDir

lemma decodes_vacated (hD : Beside vol.geometry s.device.sectors e D) :
    ∀ x ∈ D.slots .whole vol.geometry t.device.sectors, byteAt x.raw 0 = 0x85 →
      ∃ stream names, SetIn (D.slots .whole vol.geometry t.device.sectors) x stream names := by
  by_cases hDP : D = P
  swap
  · rw [slots_beside hwf h hP he hD hDP]
    exact hwf.decodes D hD.inTree
  subst hDP
  obtain ⟨own, howners⟩ := hwf.owners
  have hnodup := List.Nodup.of_map _ (nodup_slots hwf.sound howners hP)
  have hdecodes := hwf.decodes D hP
  obtain ⟨front, prim, stream, names, back, hgap⟩ := gap hwf h hP he
  rw [hgap.slots] at hnodup hdecodes
  rw [slots_vacated hwf h hP he hD, hgap.map]
  intro x hx htype
  obtain ⟨-, hrest, hfront⟩ := List.nodup_append.mp hnodup
  obtain ⟨-, -, hback⟩ := List.nodup_append.mp hrest
  have hside : x ∈ front ∨ x ∈ back := by
    rcases List.mem_append.mp hx with hx | hx
    · exact .inl hx
    rcases List.mem_append.mp hx with hx | hx
    · have := (hgap.all_dead x hx).2.2
      omega
    · exact .inr hx
  obtain ⟨st, ns, hxset⟩ := hdecodes x (by simp only [List.mem_append]; tauto) htype
  refine ⟨st, ns, ?_⟩
  rcases setIn_cases hgap.isSet hxset with ⟨rfl, -, -⟩ | hin | hin
  · rcases hside with hside | hside
    · exact absurd rfl (hfront x hside x (by simp))
    · exact absurd rfl (hback x (by simp) x hside)
  · exact ⟨hin.isSet, hin.inside.trans (List.prefix_append _ _).isInfix⟩
  · exact ⟨hin.isSet, hin.inside.trans (List.IsSuffix.isInfix
      ⟨front ++ (prim :: stream :: names).map (reread t), by simp⟩)⟩

/-! ### The volume behind a removal -/

/-- **The volume stays well-formed.** -/
theorem wellFormed_vacated : WellFormed .whole vol t := by
  obtain ⟨own, howners⟩ := hwf.owners
  have hsound := hwf.sound
  have hbm : bitmapClusters vol t.device.sectors = bitmapClusters vol s.device.sectors :=
    Base.bitmapClusters_eq h.base extent_length
  -- the other owners keep their clusters
  have hkeeps {o : Owner} {ds : List ℕ}
      (hds : Owned vol.geometry (bitmapClusters vol s.device.sectors) s.device.sectors own o ds)
      (hother : ∀ c ∈ ds, Other vol s e c) :
      Owned vol.geometry (bitmapClusters vol t.device.sectors) t.device.sectors own o ds := by
    refine ⟨hds.nodup, hds.heap, fun c hc => ?_, hds.own⟩
    rw [hbm, h.used c (counted_of_inHeap hsound (hds.heap c hc)) (hother c hc).out, hds.used c hc]
  have hbitmap := Owners.other howners hP he howners.bitmap (by simp)
  have hupcase := Owners.other howners hP he howners.upcase (by simp)
  have hentry {D : Dir} {x : DirectoryEntry} (hD : Beside vol.geometry s.device.sectors e D)
      (hx : HasEntry (D.slots .whole vol.geometry s.device.sectors) x) (hne : x ≠ e) :=
    entry_other hwf hP he hD.inTree hx hne
  obtain ⟨s0, hmount, hcount⟩ := hwf.mounted
  refine ⟨⟨s0, hmount, hcount.trans h.follows.sectorCount.symm⟩, h.base.ready.scratch,
    hwf.upcaseValid, hwf.covers, ?_, ⟨own, ?_, ?_, fun n hn => ?_, fun D x hD hx => ?_⟩, ?_, ?_, ?_,
    fun D hD => ?_, fun D x hD hx => ?_⟩
  · rw [hbm]
    exact h.base.tally
  · have := hkeeps howners.bitmap hbitmap
    rwa [hbm] at this ⊢
  · rw [show upcaseClusters vol t.device.sectors = upcaseClusters vol s.device.sectors from
      (extent_vacated h hupcase).1]
    exact hkeeps howners.upcase hupcase
  · have hroot := (inTree_vacated hwf h hP he).mp hn
    have hother := beside_other hwf hP he hroot
    rw [show (Dir.root vol.geometry n).clusters vol.geometry t.device.sectors =
      (Dir.root vol.geometry n).clusters vol.geometry s.device.sectors from
        (extent_vacated h hother).1]
    exact hkeeps (howners.root n hroot.inTree) hother
  · have hD' := (inTree_vacated hwf h hP he).mp hD
    obtain ⟨hx', hne⟩ := (hasEntry_vacated hwf h hP he hD').mp hx
    rw [show streamOf vol.geometry t.device.sectors x =
      streamOf vol.geometry s.device.sectors x from
      (extent_vacated h (hentry hD' hx' hne)).1]
    exact hkeeps (howners.entry D x hD'.inTree hx') (hentry hD' hx' hne)
  · exact (extent_vacated h hbitmap).2 hwf.bitmapEnds
  · exact (extent_vacated h hupcase).2 hwf.upcaseEnds
  · obtain ⟨n, hn⟩ := hwf.rootEnds
    refine ⟨n, (inTree_vacated hwf h hP he).mpr ?_⟩
    generalize hDir : Dir.root vol.geometry n = D at hn ⊢
    cases hn with
    | root heap ended => exact .root heap ended
    | child parent entry isDir => cases congrArg Dir.owner hDir
  · exact decodes_vacated hwf h hP he ((inTree_vacated hwf h hP he).mp hD)
  · have hD' := (inTree_vacated hwf h hP he).mp hD
    obtain ⟨hx', hne⟩ := (hasEntry_vacated hwf h hP he hD').mp hx
    obtain ⟨hends, hempty⟩ := hwf.entryEnds D x hD'.inTree hx'
    exact ⟨(extent_vacated h (hentry hD' hx' hne)).2 hends, hempty⟩

end Vacates

/-! ### Looking up the other entries -/

section Lookups

variable {vol : Volume} {s t : Machine} {e x : DirectoryEntry} {D P : Dir} {j : Judge}

lemma met_of_finds (hwf : WellFormed .whole vol s)
    (hD : InTree .whole vol.geometry s.device.sectors D)
    (hfinds : Finds vol.geometry s.device.sectors D.dir j (.ok (some x))) :
    ∃ es n pre prim stream names,
      MetAt vol.geometry s.device.sectors D.dir es x n pre prim stream names ∧
      pre ++ (prim :: stream :: names) <+: D.slots .whole vol.geometry s.device.sectors ∧
      (∀ y ∈ es, j y = .ok false) ∧ j x = .ok true := by
  rcases hfinds.meets with ho | ho | ⟨es, y, hmeets, hall, hy, ho⟩
  · cases ho
  · cases ho
  have hjy : j y = .ok true ∧ y = x := by
    unfold seek at ho
    rcases hv : j y with (_ | _) | _ | _ <;> rw [hv] at ho <;> simp [verdict] at ho
    exact ⟨rfl, ho.symm⟩
  obtain ⟨hx, rfl⟩ := hjy
  obtain ⟨es', n, pre, prim, stream, names, hes, hmet⟩ := Meets.metAt hmeets
  have hlt := (hwf.allEnd D hD).walked_lt hwf.sound hmet.walked hmet.heap hmet.first
  exact ⟨es', n, pre, prim, stream, names, hmet,
    hmet.inside.trans (extentSlots_mono vol.geometry s.device.sectors D.dir hlt),
    fun z hz => hall z (hes.subset hz), hx⟩

lemma hasEntry_of_finds (hwf : WellFormed .whole vol s)
    (hD : InTree .whole vol.geometry s.device.sectors D)
    (hfinds : Finds vol.geometry s.device.sectors D.dir j (.ok (some x))) :
    HasEntry (D.slots .whole vol.geometry s.device.sectors) x := by
  obtain ⟨es, n, pre, prim, stream, names, hmet, hslots, -⟩ := met_of_finds hwf hD hfinds
  refine ⟨prim, stream, names, ⟨hmet.isSet, List.IsInfix.trans ?_ hslots.isInfix⟩, hmet.entry⟩
  exact (List.suffix_append _ _).isInfix

lemma lookupFrom_closed (hwf : WellFormed .whole vol s) (hs : Healthy s) {dir : Directory}
    (hclosed : ∀ es x, ¬ Meets vol.geometry s.device.sectors dir es x) {name : List Char}
    {rest : List (List Char)} {a : Machine × Workspace} (ha : Idle vol s a) :
    (lookupFrom vol dir name rest a).1 ≠ .ok x := by
  have hseek : ∀ z a', Components.seekName vol dir name a ≠ (.ok (some z), a') := by
    intro z a' hrun
    have hname : ValidName name := by
      by_contra hname
      obtain ⟨err, -, hall⟩ := @seekName_invalid dir name hname
      have herr := hall vol a
      rw [hrun] at herr
      cases herr
    obtain ⟨hfinds, -⟩ := (wp_ok hrun).mp (seekName_finds hwf.ready hwf.table hs hname ha)
    rcases hfinds.meets with ho | ho | ⟨es, y, hmeets, -⟩
    · cases ho
    · cases ho
    · exact hclosed es y hmeets
  rw [lookupFrom_goOn]
  intro hrun
  rcases hrun' : Components.seekName vol dir name a with ⟨(_ | y) | err | _, a'⟩
  · rw [bind_ok hrun'] at hrun
    cases hrun
  · exact hseek y a' hrun'
  · rw [bind_err hrun'] at hrun
    cases hrun
  · rw [bind_apply, hrun'] at hrun
    cases hrun

variable (hwf : WellFormed .whole vol s) (h : Vacated vol s t e)
  (hP : InTree .whole vol.geometry s.device.sectors P)
  (he : HasEntry (P.slots .whole vol.geometry s.device.sectors) e)

include hwf h hP he

lemma swept_vacated {es : List DirectoryEntry} {n : ℕ} {pre names : List Slot} {prim stream : Slot}
    (hD : Beside vol.geometry s.device.sectors e D) (hne : x ≠ e)
    (hmet : MetAt vol.geometry s.device.sectors D.dir es x n pre prim stream names)
    (hslots : pre ++ (prim :: stream :: names) <+: D.slots .whole vol.geometry s.device.sectors) :
    ∃ es' e0, es' ⊆ es ∧ sweep collect ((pre ++ (prim :: stream :: names)).map (reread t))
        (.going EntrySet.new []) = .going e0 (es' ++ [x]) := by
  obtain ⟨own, howners⟩ := hwf.owners
  obtain ⟨e1, hswept⟩ := hmet.swept
  obtain ⟨post, hpost⟩ := id hslots
  by_cases hDP : D = P
  swap
  · -- another directory
    refine ⟨es, e1, List.Subset.refl _, ?_⟩
    have hsame := slots_beside hwf h hP he hD hDP
    rw [slots_vacated hwf h hP he hD, ← hpost, List.map_append] at hsame
    rw [(List.append_inj hsame (by simp)).1]
    exact hswept
  subst hDP
  obtain ⟨front, prim1, stream1, names1, back, hgap⟩ := gap hwf h hP he
  have hset1 := hgap.isSet
  have hkept := hgap.front
  rw [List.append_assoc] at hpost
  rcases sets_order hmet.isSet hset1 (hpost.trans hgap.slots) with
    ⟨mid, rfl, -⟩ | ⟨-, rfl, rfl, rfl, -⟩ | ⟨mid, rfl, hback⟩
  · -- the search did not come to the set of `e`
    refine ⟨es, e1, List.Subset.refl _, ?_⟩
    rw [(List.map_congr_left fun y hy => hkept y (List.mem_append_left _ hy)).trans
      (List.map_id _)]
    exact hswept
  · exact absurd (hmet.entry.trans hgap.entry.symm) hne
  · -- the search has gone over the set of `e`, and goes over slots out of use instead
    have hparts : front ++ (prim1 :: stream1 :: names1) ++ mid ++ (prim :: stream :: names) =
        front ++ (prim1 :: stream1 :: names1) ++ (mid ++ (prim :: stream :: names)) :=
      List.append_assoc _ _ _
    rw [hparts] at hswept ⊢
    obtain ⟨e0, es0, hsplit⟩ := Split.of_going hset1 rfl hswept
    have hover : sweep collect ((prim1 :: stream1 :: names1).map (reread t)) (.going e0 es0) =
        .going e0 (es0 ++ []) := by
      rw [List.append_nil]
      exact sweep_dead hgap.all_dead hsplit.idle
    obtain ⟨later, e2, hlist, hnew⟩ := hsplit.going ⟨e0, hover, hsplit.idle⟩ hswept
    have hmap : (front ++ (prim1 :: stream1 :: names1) ++ (mid ++ (prim :: stream :: names))).map
        (reread t) = front ++ (prim1 :: stream1 :: names1).map (reread t) ++
          (mid ++ (prim :: stream :: names)) := by
      rw [List.map_append, List.map_append, (List.map_congr_left hkept).trans (List.map_id _)]
      congr 1
      refine (List.map_congr_left fun y hy => hgap.back y ?_).trans (List.map_id _)
      rw [hback, ← List.append_assoc]
      exact List.mem_append_left _ hy
    rcases last_cases hlist with ⟨-, -, hx⟩ | ⟨r, rfl, rfl⟩
    · exact absurd (hx.trans hgap.entry.symm) hne
    · refine ⟨es0 ++ r, e2, fun y hy => ?_, ?_⟩
      · simp only [List.mem_append] at hy ⊢
        tauto
      · rw [hmap, hnew, List.append_nil, ← List.append_assoc]

/-- **A search which has found another entry** finds it on the media of `t`. -/
theorem finds_vacated (hD : Beside vol.geometry s.device.sectors e D) (hne : x ≠ e)
    (hfinds : Finds vol.geometry s.device.sectors D.dir j (.ok (some x))) :
    Finds vol.geometry t.device.sectors D.dir j (.ok (some x)) := by
  obtain ⟨es, n, pre, prim, stream, names, hmet, hslots, hall, hx⟩ :=
    met_of_finds hwf hD.inTree hfinds
  have hlt := (hwf.allEnd D hD.inTree).walked_lt hwf.sound hmet.walked hmet.heap hmet.first
  obtain ⟨es', e0, hsub, hswept⟩ := swept_vacated hwf h hP he hD hne hmet hslots
  have hclusters : ∀ i ≤ n + 1, clusterOf vol.geometry t.device.sectors D.dir i =
      clusterOf vol.geometry s.device.sectors D.dir i :=
    fun i hi => clusterOf_vacated hwf h hP he hD (by omega)
  have hmeets : Meets vol.geometry t.device.sectors D.dir es' x :=
    meets_reread hwf.sound hclusters hmet.counted hmet.walked hmet.heap hmet.first hmet.inside
      hswept
  have hend := hmeets.finds (fun y hy => hall y (hsub hy)) (by rw [hx]; simp)
  unfold seek at hend
  rw [hx] at hend
  exact hend

lemma seekName_vacated (hs : Healthy s) (hr : Healthy t)
    (hD : Beside vol.geometry s.device.sectors e D) {name : List Char}
    {a b a' : Machine × Workspace}
    (ha : Idle vol s a) (hb : Idle vol t b)
    (hrun : seekName vol D.dir name a = (.ok (some x), a')) :
    Idle vol s a' ∧ HasEntry (D.slots .whole vol.geometry s.device.sectors) x ∧
      (x ≠ e → ∃ b', seekName vol D.dir name b = (.ok (some x), b') ∧ Idle vol t b') := by
  have hname : ValidName name := by
    by_contra hname
    obtain ⟨err, -, hall⟩ := @seekName_invalid D.dir name hname
    have herr := hall vol a
    rw [hrun] at herr
    cases herr
  obtain ⟨hfinds, hidle⟩ := (wp_ok hrun).mp (seekName_finds hwf.ready hwf.table hs hname ha)
  have hready := h.base.ready
  refine ⟨hidle x rfl, hasEntry_of_finds hwf hD.inTree hfinds, fun hne => ?_⟩
  have hnew := finds_vacated hwf h hP he hD hne hfinds
  have hspec := @seekName_finds vol t D.dir name hready hwf.table hr hname b hb
  rw [judge_congr (table_vacated hwf h hP he) hwf.ready hready hs hr (utf16Of name)] at hspec
  rcases hb' : Components.seekName vol D.dir name b with ⟨o | err | _, b'⟩
  · obtain ⟨hfinds', hidle'⟩ := (wp_ok hb').mp hspec
    obtain rfl := Outcome.ok.inj (hfinds'.unique hnew)
    exact ⟨b', rfl, hidle' _ rfl⟩
  · have hfinds' := (wp_err hb').mp hspec
    cases hfinds'.unique hnew
  · unfold wp at hspec
    rw [hb'] at hspec
    exact hspec.elim

lemma lookupFrom_vacated (hs : Healthy s) (hr : Healthy t)
    (hD : Beside vol.geometry s.device.sectors e D) {name : List Char} {rest : List (List Char)}
    {a b : Machine × Workspace} (ha : Idle vol s a) (hb : Idle vol t b) (hne : x ≠ e)
    (hrun : (lookupFrom vol D.dir name rest a).1 = .ok x) :
    (lookupFrom vol D.dir name rest b).1 = .ok x := by
  induction rest generalizing D name a b with
  | nil =>
    rw [lookupFrom_nil] at hrun ⊢
    rcases hseek : Components.seekName vol D.dir name a with ⟨(_ | y) | err | _, a'⟩
    · rw [bind_ok hseek] at hrun
      cases hrun
    · rw [bind_ok hseek] at hrun
      cases hrun
      obtain ⟨-, -, hnew⟩ := seekName_vacated hwf h hP he hs hr hD ha hb hseek
      obtain ⟨b', hseek', -⟩ := hnew hne
      rw [bind_ok hseek']
      rfl
    · rw [bind_err hseek] at hrun
      cases hrun
    · rw [bind_apply, hseek] at hrun
      cases hrun
  | cons next rest ih =>
    rw [lookupFrom_cons] at hrun ⊢
    rcases hseek : Components.seekName vol D.dir name a with ⟨(_ | y) | err | _, a'⟩
    · rw [bind_ok hseek] at hrun
      cases hrun
    · rw [bind_ok hseek, okOr_some, pure_bind] at hrun
      rcases hdir : y.directory with _ | dir
      · rw [hdir] at hrun
        cases hrun
      rw [hdir, okOr_some, pure_bind] at hrun
      obtain ⟨ha', hy, hnew⟩ := seekName_vacated hwf h hP he hs hr hD ha hb hseek
      by_cases hye : y = e
      · -- nothing is found in the directory which was removed
        subst hye
        exact absurd hrun (lookupFrom_closed hwf hs (h.closed dir hdir) ha')
      obtain ⟨b', hseek', hb'⟩ := hnew hye
      rw [bind_ok hseek', okOr_some, pure_bind, hdir, okOr_some, pure_bind]
      exact ih (D := Dir.ofEntry vol.geometry y dir) (.child hD hy hye hdir) ha' hb' hrun
    · rw [bind_err hseek] at hrun
      cases hrun
    · rw [bind_apply, hseek] at hrun
      cases hrun

/-- **A path to another entry leads where it led.** -/
theorem lookup_vacated (hs : Healthy s) (hr : Healthy t) (hne : x ≠ e) {path : List Char}
    (hlookup : (lookup vol path s).1 = .ok x) : (lookup vol path t).1 = .ok x := by
  obtain ⟨own, howners⟩ := hwf.owners
  obtain ⟨n, hroot⟩ := (wellFormed_vacated hwf h hP he).rootEnds
  unfold Lookup.lookup at hlookup ⊢
  rw [withNewWorkspace_outcome] at hlookup ⊢
  unfold lookupWithWorkspace at hlookup ⊢
  rcases hpath : segments path with _ | ⟨name, rest⟩
  · rw [hpath] at hlookup
    cases hlookup
  · rw [hpath] at hlookup
    exact lookupFrom_vacated hwf h hP he hs hr ((inTree_vacated hwf h hP he).mp hroot)
      (idle_new vol s)
      (idle_new vol t) hne hlookup

end Lookups

/-! ### Directories in which nothing is met -/

section Closed

variable {g : Geometry} {d : Sectors} {dir : Directory} {x : DirectoryEntry}
    {es : List DirectoryEntry}
  {xs : List Slot} {a b : EntrySet} {n : ℕ}

lemma silent_lists (h : Silent a xs b) (es : List DirectoryEntry) :
    sweep collect xs (.going a es) = .going b es := by
  induction xs generalizing a with
  | nil =>
    obtain rfl := silent_nil.mp h
    rfl
  | cons x xs ih =>
    have hx := Silent.inUse h x List.mem_cons_self
    obtain ⟨u, hpush, hrest⟩ := (silent_cons hx).mp h
    change sweep collect xs (Progress.step collect (.going a es) x) = _
    unfold Progress.step
    simp only
    rw [if_neg hx, hpush]
    exact ih hrest

lemma inUse_of_going {p : Progress (List DirectoryEntry)} (h : sweep collect xs p = .going b es) :
    ∀ x ∈ xs, byteAt x.raw 0 ≠ 0 := by
  induction xs generalizing p with
  | nil => simp
  | cons x xs ih =>
    refine List.forall_mem_cons.mpr ⟨fun hz => ?_, ih h⟩
    obtain ⟨e', es', hx⟩ := @going_of_append [x] xs b es p h
    change p.step collect x = _ at hx
    unfold Progress.step at hx
    cases p with
    | going e es =>
      simp only at hx
      rw [if_pos hz] at hx
      cases hx
    | stopped es => cases hx
    | failed => cases hx

lemma not_meets (h : Closes g d dir n) (hview : Unshown (view g d dir n)) :
    ¬ Meets g d dir es x := by
  rintro ⟨m, pre, e, -, hw, -, -, hpre, hlist⟩
  obtain ⟨b, hsilent⟩ := (silent_iff (s := EntrySet.new) rfl (view_inUse g d dir n)).mpr hview
  have huse := inUse_of_going hlist
  have hshown : ∀ k, pre <+: extentSlots g d dir k → pre <+: view g d dir k := by
    rintro k ⟨rest, hrest⟩
    unfold view
    rw [← hrest, List.takeWhile_append_of_pos (by simpa using huse)]
    exact List.prefix_append _ _
  have hin : pre <+: view g d dir n := by
    rcases Nat.lt_or_ge m n with hlt | hge
    · exact hshown n (hpre.trans (extentSlots_mono g d dir hlt))
    rcases h.stops with ⟨y, hy, hzero⟩ | hend
    · obtain ⟨rest, hrest⟩ := extentSlots_mono g d dir (show n ≤ m + 1 by omega)
      have hview := hshown (m + 1) hpre
      unfold view at hview ⊢
      rwa [← hrest, takeWhile_append_of_stop ⟨y, hy, by simp [hzero]⟩] at hview
    · exact absurd hend (not_ended hw h.visited.pos hge)
  obtain ⟨post, hpost⟩ := hin
  rw [← hpost] at hsilent
  obtain ⟨u, hfront, -⟩ := silent_append.mp hsilent
  have hnone := silent_lists hfront []
  rw [hlist] at hnone
  simp at hnone

end Closed

/-! ### Removing -/

section Removes

variable {ζ : Horizon} {vol : Volume} {s : Machine} {path : List Char} {e : DirectoryEntry}

/-- If `e` is a directory, then one whose view shows nothing. -/
def ShowsNothing (vol : Volume) (s : Machine) (e : DirectoryEntry) : Prop :=
  ∀ dir, e.directory = some dir → ∃ n, Closes vol.geometry s.device.sectors dir n ∧
    Unshown (view vol.geometry s.device.sectors dir n)

lemma showsNothing_of_remove (hwf : WellFormed .whole vol s) (hs : Healthy s)
    (hlookup : (lookup vol (trimSlashes path) s).1 = .ok e)
    (hremove : (remove vol path s).1 = .ok ()) : ShowsNothing vol s e := by
  intro dir hdir
  obtain ⟨u, hu⟩ := lookup_run hlookup
  have hres := @lookup_resolved .whole _ _ hwf.ready hwf.table hwf.allEnd hwf.rootEnds
    (trimSlashes path) _
    (calm_new s) rfl
  rw [wp_ok hu] at hres
  have hmedia := (OnMedia.refl hs).quiet hres.calm.quiet
  have hfirst := (takenForEmpty_iff hdir hu).mp (.inr hremove)
  have hnone := (firstDirectoryEntry_none (hmedia.ready hwf.ready) hmedia.healthy).mp hfirst
  rwa [hmedia.sectors] at hnone

theorem vacated_of_remove (hwf : WellFormed .whole vol s) (hs : Healthy s)
    (hlookup : (lookup vol (trimSlashes path) s).1 = .ok e)
    (hremove : (remove vol path s).1 = .ok ()) : Vacated vol s (remove vol path s).2 e := by
  obtain ⟨P, hP, he⟩ := lookup_entry hwf hlookup
  have hsound := hwf.sound
  have hplaced := hwf.placed hP he.locs.1
  have hfree := hwf.freeable hP he
  have hremoved := (wp_ok (run_eq hremove)).mp (remove_based hwf hlookup)
  have hretired := onlySlots_retired (d := s.device.sectors) (L := e.entryLocs.take e.entryCount)
    fun _ h => h
  have hmapped := mapped_onlySlots hretired hsound hplaced hwf.base.mapped
  have hstream : streamOf vol.geometry (retired s.device.sectors
    (e.entryLocs.take e.entryCount)) e =
      streamOf vol.geometry s.device.sectors e :=
    streamOf_onlySlots hretired hsound hplaced hfree.heap
  have hfreed : ∀ c ∈ freedBy vol.geometry (retired s.device.sectors
      (e.entryLocs.take e.entryCount)) e.firstCluster e.noFatChain
      (clustersFor vol.geometry e.dataLength), c ∈ streamOf vol.geometry s.device.sectors e := by
    intro c hc
    rw [← hstream]
    exact mem_freedBy hc
  have hheap := fun c hc => hfree.heap c (hfreed c hc)
  have hapart := fun c hc => hfree.apart c (hfreed c hc)
  refine ⟨hremoved.follows, hremoved.base, fun c hc hout => ?_, fun c hc hout => ?_,
    fun c hc hbm => ?_, fun dir hdir es x => ?_⟩
  · rw [hremoved.sectors]
    unfold removedMedia
    simp only
    rw [used_released hmapped hsound hheap hapart hc,
      hretired.used_eq hsound hplaced hwf.base.mapped hc]
    rw [decide_eq_false fun hin => hout (hfreed c hin)]
    simp
  · rw [hremoved.sectors]
    unfold removedMedia
    simp only
    rw [fatEntry_released hsound hc fun hin => hout (hfreed c hin),
      hretired.fatEntry_eq hsound hplaced hc]
  · rw [hremoved.sectors]
    exact sameCluster_released hmapped hsound hheap hapart hc hbm
  · obtain ⟨n, hclosed, hview⟩ := showsNothing_of_remove hwf hs hlookup hremove dir hdir
    exact not_meets hclosed hview

/-- From `s` to `t` the entry `e` was removed. The directories to which a path leads beside it hold
their other entries, and these have their streams and their contents. -/
structure Removed (vol : Volume) (s t : Machine) (e : DirectoryEntry) : Prop where
  wellFormed : WellFormed .whole vol t
  directories : ∀ D, InTree .whole vol.geometry t.device.sectors D ↔
    Beside vol.geometry s.device.sectors e D
  entries : ∀ D, Beside vol.geometry s.device.sectors e D → ∀ x,
    HasEntry (D.slots .whole vol.geometry t.device.sectors) x ↔
      HasEntry (D.slots .whole vol.geometry s.device.sectors) x ∧ x ≠ e
  paths : ∀ path x, (lookup vol path s).1 = .ok x → x ≠ e → (lookup vol path t).1 = .ok x
  streams : ∀ D x, Beside vol.geometry s.device.sectors e D →
    HasEntry (D.slots .whole vol.geometry s.device.sectors) x → x ≠ e →
      streamOf vol.geometry t.device.sectors x = streamOf vol.geometry s.device.sectors x
  contents : ∀ D x, Beside vol.geometry s.device.sectors e D →
    HasEntry (D.slots .whole vol.geometry s.device.sectors) x → x ≠ e → x.isDirectory = false →
      ∀ pos k, pos + k ≤ x.dataLength →
        streamBytes vol.geometry t.device.sectors (streamOf vol.geometry t.device.sectors x) pos k =
          streamBytes vol.geometry s.device.sectors (streamOf vol.geometry s.device.sectors x) pos k

/-- **A removal takes one entry out of the tree and leaves the rest of it alone.** -/
theorem remove_removes (vol : Volume) (s : Machine) (path : List Char) (e : DirectoryEntry)
    (hwf : WellFormed .whole vol s) (hfaultless : ¬ Faulty s)
    (hlookup : (lookup vol (trimSlashes path) s).1 = .ok e)
    (hremove : (remove vol path s).1 = .ok ()) : Removed vol s (remove vol path s).2 e := by
  have hs := healthy_of_faultless hfaultless
  have h := vacated_of_remove hwf hs hlookup hremove
  have hr : Healthy (remove vol path s).2 := healthy_of_faultless
    (Allocator.Follows.faultless h.follows hfaultless)
  obtain ⟨P, hP, he⟩ := lookup_entry hwf hlookup
  obtain ⟨own, howners⟩ := hwf.owners
  have hstream (D : Dir) (x : DirectoryEntry) (hD : Beside vol.geometry s.device.sectors e D)
      (hx : HasEntry (D.slots .whole vol.geometry s.device.sectors) x) (hne : x ≠ e) :=
    (extent_vacated h (entry_other hwf hP he hD.inTree hx hne)).1
  refine ⟨wellFormed_vacated hwf h hP he, fun D => inTree_vacated hwf h hP he,
    fun D hD x => hasEntry_vacated hwf h hP he hD,
    fun path x hx hne => lookup_vacated hwf h hP he hs hr hne hx, hstream,
    fun D x hD hx hne hfile pos k hk => ?_⟩
  rw [show streamOf vol.geometry _ x = streamOf vol.geometry s.device.sectors x from
    hstream D x hD hx hne]
  have hfree := hwf.freeable hD.inTree hx
  refine extent_bytes hwf.sound hk fun c hc => ?_
  exact sameCluster_vacated hwf hP he h (hfree.heap c hc) (hfree.apart c hc) fun hdir =>
    file_apart hwf.sound howners hD.inTree hx hfile hP hdir hc

theorem remove_removes_pair : Removed smallVolume (pair false)
    (remove smallVolume ['A'] (pair false)).2 (pairEntry false) :=
  remove_removes smallVolume (pair false) ['A'] (pairEntry false) (wellFormed_pair false)
    (faultless_pair false) (lookup_pair false) (remove_pair false)

/-! ### What is removed -/

lemma wellFormed_of_quiet {t : Machine} (hwf : WellFormed ζ vol s)
    (ht : Quiet vol.geometry.partition s t) : WellFormed ζ vol t := by
  have htally := ((wrote_of_quiet ht).same hwf.base).base.tally
  obtain ⟨s0, hmount, hcount⟩ := hwf.mounted
  have hsectors := ht.sectors
  refine ⟨⟨s0, hmount, hcount.trans (wrote_of_quiet ht).follows.sectorCount.symm⟩,
    (ht.ready hwf.ready).scratch, hwf.upcaseValid, hwf.covers, ?_, ?_, ?_, ?_, ?_, ?_, ?_⟩
    <;> rw [hsectors]
  · exact htally
  · exact hwf.owners
  · exact hwf.bitmapEnds
  · exact hwf.upcaseEnds
  · exact hwf.rootEnds
  · exact hwf.decodes
  · exact hwf.entryEnds

lemma isOccupied_shows {u : Machine} (hwf : WellFormed ζ vol s) (hs : Healthy s)
    (hu : Quiet vol.geometry.partition s u) :
    wp (isOccupied vol e) (fun b t => Quiet vol.geometry.partition s t ∧
      (b = false ↔ ShowsNothing vol s e))
      (fun _ t => Quiet vol.geometry.partition s t ∧ ¬ ShowsNothing vol s e) u := by
  have hmedia := (OnMedia.refl hs).quiet hu
  unfold isOccupied ShowsNothing
  rcases e.directory with _ | dir
  · exact ⟨hu, by simp⟩
  have hnone := @firstDirectoryEntry_none vol u dir (hmedia.ready hwf.ready) hmedia.healthy
  rw [hmedia.sectors] at hnone
  have hspec : wp (firstDirectoryEntry vol dir) (fun _ t => Quiet vol.geometry.partition u t)
      (fun _ t => Quiet vol.geometry.partition u t) u := by
    unfold firstDirectoryEntry
    simp only [wp_bind, wp_withSnd, wp_pure]
    exact wp_mono _ (readDirectory_spec (hmedia.ready hwf.ready)) (fun _ _ h => h.1) fun _ _ h => h
  simp only [Option.some.injEq, forall_eq', ← hnone]
  rw [wp_bind]
  rcases hfirst : firstDirectoryEntry vol dir u with ⟨o | err | _, v⟩
  · rw [wp_ok hfirst] at hspec ⊢
    refine ⟨hu.trans hspec, ?_⟩
    cases o <;> simp
  · rw [wp_err hfirst] at hspec ⊢
    exact ⟨hu.trans hspec, by simp⟩
  · unfold wp at hspec
    rw [hfirst] at hspec
    exact hspec.elim

lemma remove_decides (hwf : WellFormed ζ vol s) (hfaultless : ¬ Faulty s) (path : List Char) :
    wp (remove vol path)
      (fun _ _ => ∃ e, (lookup vol (trimSlashes path) s).1 = .ok e ∧ ShowsNothing vol s e)
      (fun _ t => Quiet vol.geometry.partition s t ∧
        ¬ ∃ e, (lookup vol (trimSlashes path) s).1 = .ok e ∧ ShowsNothing vol s e) s := by
  have hs := healthy_of_faultless hfaultless
  have hres := @lookup_resolved ζ _ _ hwf.ready hwf.table hwf.allEnd hwf.rootEnds
    (trimSlashes path) _
    (calm_new s) rfl
  have houtcome : (lookup vol (trimSlashes path) s).1 =
      (lookupWithWorkspace vol (trimSlashes path) (s, Workspace.new)).1 :=
    withNewWorkspace_outcome _ _
  unfold remove removeWithWorkspace
  rw [wp_withNewWorkspace, wp_bind]
  rcases hrun : lookupWithWorkspace vol (trimSlashes path) (s, Workspace.new) with ⟨e | err | _, u⟩
  · rw [hrun] at houtcome
    rw [wp_ok hrun] at hres ⊢
    have hquiet := hres.calm.quiet
    have hsame := (wrote_of_quiet hquiet).same hwf.base
    obtain ⟨D, hD, he⟩ := hres.inTree
    have hplaced := hwf.placed hD he.locs.1
    obtain ⟨hlen, -, hfirst, -⟩ := he.fields
    have hfree := hwf.freeable hD he
    have hits : (∃ x, (lookup vol (trimSlashes path) s).1 = .ok x ∧ ShowsNothing vol s x) ↔
        ShowsNothing vol s e := by
      rw [houtcome]
      simp
    simp only [hits, removeEntryTree, wp_lift, wp_bind, wp_ite, wp_throw]
    refine wp_mono _ (isOccupied_shows hwf hs hquiet) ?_ fun _ _ h => h
    rintro occupied v ⟨hv, hocc⟩
    refine ⟨fun htrue => ⟨hv, fun hno => ?_⟩, fun hfalse => ?_⟩
    · rw [hocc.mpr hno] at htrue
      cases htrue
    have hno := hocc.mp (by simpa using hfalse)
    have hsv := (wrote_of_quiet hv).same hwf.base
    have hfaults : ¬ Faulty v := Allocator.Follows.faultless hsv.follows hfaultless
    refine wp_mono _ (retireSlots_based hsv.base hplaced) ?_
      fun _ _ hf => absurd hf.faulty hfaults
    intro _ w hw
    rw [hv.sectors] at hw
    have hstream : streamOf vol.geometry w.device.sectors e =
        streamOf vol.geometry s.device.sectors e := by
      rw [hw.sectors]
      exact streamOf_onlySlots (onlySlots_retired fun _ h => h) hwf.sound hplaced hfree.heap
    exact wp_mono _ (releaseEntryClusters_based hw.base hlen hfirst (hstream ▸ hfree))
      (fun _ _ _ => hno)
      fun _ _ hf => absurd hf.faulty (Allocator.Follows.faultless hw.follows hfaults)
  · rw [hrun] at houtcome
    rw [wp_err hrun] at hres ⊢
    refine ⟨hres.quiet, ?_⟩
    rw [houtcome]
    simp
  · unfold wp at hres
    rw [hrun] at hres
    exact hres.elim

/-- **An entry is removed exactly when it shows nothing**; otherwise an error is returned and the
media stays as it was. -/
theorem remove_succeeds_iff (ζ : Horizon) (vol : Volume) (s : Machine) (path : List Char)
    (hwf : WellFormed ζ vol s) (hfaultless : ¬ Faulty s) :
    ((remove vol path s).1 = .ok () ↔
      ∃ e, (lookup vol (trimSlashes path) s).1 = .ok e ∧ ShowsNothing vol s e) ∧
    ((remove vol path s).1 ≠ .ok () →
      (∃ err, (remove vol path s).1 = .err err) ∧
      (remove vol path s).2.device.sectors = s.device.sectors ∧
      WellFormed ζ vol (remove vol path s).2) := by
  have h := remove_decides hwf hfaultless path
  rcases hrun : remove vol path s with ⟨⟨⟩ | err | _, t⟩
  · rw [wp_ok hrun] at h
    simp [h]
  · rw [wp_err hrun] at h
    refine ⟨⟨fun hok => ?_, fun hno => absurd hno h.2⟩,
      fun _ => ⟨⟨err, rfl⟩, h.1.sectors, wellFormed_of_quiet hwf h.1⟩⟩
    cases hok
  · unfold wp at h
    rw [hrun] at h
    exact h.elim

theorem remove_succeeds_iff_pair :
    (∃ e, (lookup smallVolume (trimSlashes ['A']) (pair false)).1 = .ok e ∧
      ShowsNothing smallVolume (pair false) e) ∧
    (∃ err, (remove smallVolume ['C'] (pair false)).1 = .err err) ∧
    (remove smallVolume ['C'] (pair false)).2.device.sectors = (pair false).device.sectors ∧
    WellFormed .live smallVolume (remove smallVolume ['C'] (pair false)).2 :=
  ⟨(remove_succeeds_iff .live smallVolume (pair false) ['A'] (wellFormed_pair false)
      (faultless_pair false)).1.mp (remove_pair false),
    (remove_succeeds_iff .live smallVolume (pair false) ['C'] (wellFormed_pair false)
      (faultless_pair false)).2 (by decide +kernel)⟩

end Removes

end ExfatEmbedded.Vacating
