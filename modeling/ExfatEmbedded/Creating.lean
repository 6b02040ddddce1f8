import ExfatEmbedded.Filling

/-!
Creating a file in a directory which has free slots for its set.

`find_free_entries` yields the first free slots in a row which are enough, the set is written there,
and from then on the path leads to it.
-/

namespace ExfatEmbedded.Creating

open ExfatEmbedded.Library Exec ExfatEmbedded.Core ExfatEmbedded.Entry ExfatEmbedded.Allocation
open ExfatEmbedded.Lookup ExfatEmbedded.FileIo ExfatEmbedded.EntryWrite ExfatEmbedded.Mutation
open ExfatEmbedded.Reading ExfatEmbedded.History ExfatEmbedded.Scan ExfatEmbedded.Sets
open ExfatEmbedded.ReadSafety ExfatEmbedded.MountSafety ExfatEmbedded.FatWrites ExfatEmbedded.Media
open ExfatEmbedded.Writing ExfatEmbedded.Tree ExfatEmbedded.Commit ExfatEmbedded.Release
open ExfatEmbedded.Layout ExfatEmbedded.Listing ExfatEmbedded.Slots ExfatEmbedded.Codec
open ExfatEmbedded.Decoding ExfatEmbedded.Emptiness ExfatEmbedded.Search ExfatEmbedded.Components
open ExfatEmbedded.Ownership ExfatEmbedded.Removal ExfatEmbedded.Replacing ExfatEmbedded.Readback
open ExfatEmbedded.Truncating ExfatEmbedded.Restreaming ExfatEmbedded.Renaming
open ExfatEmbedded.Vacating ExfatEmbedded.Filling ExfatEmbedded.Mount

/-! ### Free slots in a row -/

section Rows

variable {done front block b : List Slot} {x : Slot} {locs : List EntryLocator} {wanted run : ℕ}

/-- The slot is not in use. -/
def Free (x : Slot) : Prop := byteAt x.raw 0 < 0x80

/-- The slots `done` end with the free slots `block`, which are at the first of `locs`; the slot in
front of them is in use. -/
structure EndsFree (done front block : List Slot) (locs : List EntryLocator) : Prop where
  slots : done = front ++ block
  free : ∀ x ∈ block, Free x
  bound : ∀ x, front.getLast? = some x → ¬ Free x
  locs : locs.take block.length = block.map Slot.loc

/-- There are `wanted` free slots in a row. -/
def Room (slots : List Slot) (wanted : ℕ) : Prop :=
  ∃ b, b <:+: slots ∧ (∀ x ∈ b, Free x) ∧ wanted ≤ b.length

instance (x : Slot) : Decidable (Free x) := inferInstanceAs (Decidable (_ < _))

lemma room_iff {slots : List Slot} : Room slots wanted ↔ ∃ k < slots.length + 1,
    wanted ≤ (slots.drop k).length ∧ ∀ x ∈ (slots.drop k).take wanted, Free x := by
  constructor
  · rintro ⟨b, ⟨pre, post, rfl⟩, hfree, hlong⟩
    refine ⟨pre.length, by simp only [List.length_append]; omega, ?_⟩
    rw [List.append_assoc, List.drop_left, List.take_append_of_le_length hlong]
    exact ⟨by rw [List.length_append]; omega, fun x hx => hfree x (List.mem_of_mem_take hx)⟩
  · rintro ⟨k, -, hlong, hfree⟩
    refine ⟨(slots.drop k).take wanted, ?_, hfree, by rw [List.length_take]; omega⟩
    exact (List.take_prefix _ _).isInfix.trans (List.drop_suffix _ _).isInfix

instance (slots : List Slot) (wanted : ℕ) : Decidable (Room slots wanted) :=
  decidable_of_iff _ room_iff.symm

/-- The scan has gone over the slots `done`, of which the last `run` are free. -/
structure RunScanned (wanted : ℕ) (done : List Slot) (run : ℕ) (locs : List EntryLocator) :
    Prop where
  ends : ∃ front block, EndsFree done front block locs ∧ block.length = run
  short : run < wanted
  none : ¬ Room done wanted

/-- The scan ends with `wanted` free slots. -/
def RunFound (wanted : ℕ) (done : List Slot) (locs : List EntryLocator) : Prop :=
  ∃ front block, EndsFree done front block locs ∧ block.length = wanted

lemma EndsFree.push (h : EndsFree done front block locs) (hx : Free x)
    (hlt : block.length < locs.length) :
    EndsFree (done ++ [x]) front (block ++ [x]) (locs.set block.length x.loc) := by
  refine ⟨by rw [h.slots, List.append_assoc], fun y hy => ?_, h.bound, ?_⟩
  · rcases List.mem_append.mp hy with hy | hy
    · exact h.free y hy
    · rwa [List.mem_singleton.mp hy]
  · have htake : (locs.set block.length x.loc).take block.length = locs.take block.length := by
      rw [List.take_set, List.set_eq_of_length_le (by simp)]
    rw [List.length_append, List.length_singleton,
      List.take_succ_eq_append_getElem (by rwa [List.length_set]), htake, h.locs, List.map_append,
      List.getElem_set_self]
    rfl

lemma EndsFree.longest (h : EndsFree done front block locs) (hb : b <:+ done)
    (hfree : ∀ x ∈ b, Free x) : b.length ≤ block.length := by
  by_contra hlt
  have hblock : block <:+ done := ⟨front, h.slots.symm⟩
  obtain ⟨c, rfl⟩ := List.suffix_of_suffix_length_le hblock hb (by omega)
  obtain ⟨pre, hpre⟩ := hb
  rw [h.slots, ← List.append_assoc] at hpre
  have hfront := List.append_cancel_right hpre
  rcases List.eq_nil_or_concat c with rfl | ⟨c, y, rfl⟩
  · simp at hlt
  · refine h.bound y ?_ (hfree y (by simp))
    rw [← hfront, List.concat_eq_append, ← List.append_assoc]
    exact List.getLast?_concat ..

variable (h : RunScanned wanted done run locs)

include h

lemma RunScanned.found (hx : Free x) (hlast : run + 1 = wanted) (hlocs : run < locs.length) :
    RunFound wanted (done ++ [x]) (locs.set run x.loc) := by
  obtain ⟨front, block, hends, rfl⟩ := h.ends
  exact ⟨front, block ++ [x], hends.push hx hlocs, by simpa using hlast⟩

lemma RunScanned.free (hx : Free x) (hmore : run + 1 < wanted) (hlocs : run < locs.length) :
    RunScanned wanted (done ++ [x]) (run + 1) (locs.set run x.loc) := by
  obtain ⟨front, block, hends, rfl⟩ := h.ends
  have hpush := hends.push hx hlocs
  refine ⟨⟨front, block ++ [x], hpush, by simp⟩, hmore, ?_⟩
  rintro ⟨b, hin, hfree, hlong⟩
  rcases List.infix_concat_iff.mp hin with hsuffix | hin
  · have := hpush.longest hsuffix hfree
    simp only [List.length_append, List.length_singleton] at this
    omega
  · exact h.none ⟨b, hin, hfree, hlong⟩

lemma RunScanned.used (hx : ¬ Free x) : RunScanned wanted (done ++ [x]) 0 locs := by
  refine ⟨⟨done ++ [x], [], ⟨by simp, by simp, fun y hy => ?_, by simp⟩, rfl⟩, by
    have := h.short; omega, ?_⟩
  · rw [List.getLast?_concat] at hy
    rwa [← Option.some.inj hy]
  · rintro ⟨b, hin, hfree, hlong⟩
    rcases List.infix_concat_iff.mp hin with hsuffix | hin
    · rcases List.suffix_concat_iff.mp hsuffix with rfl | ⟨c, rfl, -⟩
      · have := h.short
        simp at hlong
        omega
      · exact hx (hfree x (by simp))
    · exact h.none ⟨b, hin, hfree, hlong⟩

end Rows

/-! ### `find_free_entries` -/

section Finding

variable {vol : Volume} {s0 : Machine} {u0 : List ℕ} {wanted run lba k : ℕ} {dir : Directory}
  {done : List Slot} {t : Machine × Workspace}

/-- The search for free slots is under way and has gone over `done`. -/
structure Under (vol : Volume) (s0 : Machine) (u0 : List ℕ) (wanted : ℕ) (done : List Slot)
    (run : ℕ) (t : Machine × Workspace) : Prop where
  quiet : Quiet vol.geometry.partition s0 t.1
  units : t.2.utf16 = u0
  length : t.2.locators.length = 19
  scanned : RunScanned wanted done run t.2.locators

/-- The search has ended with the slots at `locs`, the last of `done`. -/
structure Finished (vol : Volume) (s0 : Machine) (u0 : List ℕ) (wanted : ℕ) (done : List Slot)
    (locs : List EntryLocator) (t : Machine × Workspace) : Prop where
  quiet : Quiet vol.geometry.partition s0 t.1
  units : t.2.utf16 = u0
  found : RunFound wanted done locs

lemma ofLe_slice_one (m : Image) (off : ℕ) :
    ofLe (Image.slice m off 1) = byteAt (Image.slice m off 32) 0 := by
  simp [Image.slice, ofLe, byteAt]

lemma freeSlot_spec (hs : Ready vol.geometry s0) (hwanted : wanted ≤ 19)
    (hk : k < vol.geometry.bytesPerSector / 32) (h : Under vol s0 u0 wanted done run t)
    (hold : Holds vol.geometry.bytesPerSector lba t.1) :
    wp (freeSlot vol wanted lba k run)
      (Sum.elim
        (fun r => Finished vol s0 u0 wanted (done ++ [slotAt s0.device.sectors lba k]) r)
        (fun run' u => Under vol s0 u0 wanted (done ++ [slotAt s0.device.sectors lba k]) run' u ∧
          Holds vol.geometry.bytesPerSector lba u.1))
      (fun _ u => Quiet vol.geometry.partition s0 u.1) t := by
  have hoff : k * 32 + 1 ≤ vol.geometry.bytesPerSector := by omega
  have hslice := hold.slice hoff
  rw [h.quiet.sectors] at hslice
  have hfree : ofLe (Image.slice (s0.device.sectors lba) (k * 32) 1) < 0x80 ↔
      Free (slotAt s0.device.sectors lba k) := by
    rw [ofLe_slice_one]
    rfl
  have hshort := h.scanned.short
  have hlength := h.length
  unfold freeSlot modifyLocators
  simp only [wp_bind, wp_lift]
  rw [wp_scratchSlice (h.quiet.ready hs) hoff, hslice, wp_ite, hfree]
  refine ⟨fun hx => ?_, fun hx => ⟨⟨h.quiet, h.units, h.length, h.scanned.used hx⟩, hold⟩⟩
  simp only [wp_bind, wp_when, wp_modifySnd, wp_ite, wp_getSnd]
  refine ⟨fun _ => ⟨fun hlast => ?_, fun hmore => ?_⟩, fun hlong => absurd hshort hlong⟩
  · exact ⟨h.quiet, h.units, h.scanned.found hx hlast (by omega)⟩
  · refine ⟨⟨h.quiet, h.units, ?_, h.scanned.free hx (by omega) (by omega)⟩, hold⟩
    simpa using hlength

lemma freeSector_spec (hs : Ready vol.geometry s0) (hwanted : wanted ≤ 19) {base i remaining : ℕ}
    (hlba : InPartition vol.geometry.partition (base + i)) (h : Under vol s0 u0 wanted done run t) :
    wp (freeSector vol dir wanted base i (run, remaining))
      (Sum.elim
        (fun r u => ∃ full, full <+: done ++ sectorSlots s0.device.sectors (base + i)
            (usableBytes dir vol.geometry.bytesPerSector remaining / 32) ∧
          Finished vol s0 u0 wanted full r u)
        (fun v u => ¬ (remaining = 0 ∧ dir.dataLength ≠ 0) ∧
          v.2 = (if dir.dataLength ≠ 0 then remaining - vol.geometry.bytesPerSector
          else remaining) ∧
          Under vol s0 u0 wanted (done ++ sectorSlots s0.device.sectors (base + i)
            (usableBytes dir vol.geometry.bytesPerSector remaining / 32)) v.1 u))
      (fun _ u => Quiet vol.geometry.partition s0 u.1) t := by
  have husable : usableBytes dir vol.geometry.bytesPerSector remaining / 32 ≤
      vol.geometry.bytesPerSector / 32 := by
    refine Nat.div_le_div_right ?_
    unfold usableBytes
    split_ifs <;> omega
  unfold freeSector
  simp only [wp_ite, wp_throw, wp_bind, wp_u64, wp_lift]
  refine ⟨fun _ => h.quiet, fun hopen => ⟨(hs.sound.lt_of_inPartition hlba).2, ?_⟩⟩
  refine wp_mono _ (readSector_spec (h.quiet.ready hs) hlba) ?_ fun _ _ hf => h.quiet.trans hf.1
  rintro _ u ⟨hu, hold⟩
  refine wp_loop_post (fun k run v =>
    Under vol s0 u0 wanted (done ++ sectorSlots s0.device.sectors (base + i) k) run v ∧
      Holds vol.geometry.bytesPerSector (base + i) v.1) ?_ ?_ ?_
  · refine ⟨⟨h.quiet.trans hu, h.units, h.length, ?_⟩, hold⟩
    simpa [sectorSlots] using h.scanned
  · rintro k run v - hk ⟨hv, hold⟩
    rw [Nat.zero_add] at hk
    refine wp_mono _ (freeSlot_spec hs hwanted (by omega) hv hold) ?_ fun _ _ h => h
    rw [List.append_assoc, ← sectorSlots_succ]
    rintro (r | run') w hw
    · refine ⟨_, ?_, hw⟩
      rw [List.prefix_append_right_inj]
      exact sectorSlots_mono _ _ hk
    · exact hw
  · rintro run v ⟨hv, -⟩
    rw [Nat.zero_add] at hv
    exact ⟨hopen, rfl, hv⟩

/-- The slots found in a directory: a search comes to them. -/
structure RunFoundIn (vol : Volume) (s0 : Machine) (dir : Directory) (wanted n : ℕ)
    (done : List Slot)
    (locs : List EntryLocator) : Prop where
  counted : n < vol.geometry.clusterCount
  walked : Walked vol.geometry s0.device.sectors dir n
  heap : vol.geometry.InHeap (clusterOf vol.geometry s0.device.sectors dir n)
  first : dir.noFatChain = true → n = 0
  inside : done <+: extentSlots vol.geometry s0.device.sectors dir (n + 1)
  found : RunFound wanted done locs

/-- What a scan of a directory with room yields. -/
structure Yielded (vol : Volume) (s0 : Machine) (u0 : List ℕ) (dir : Directory) (wanted : ℕ)
    (locs : List EntryLocator) (t : Machine × Workspace) : Prop where
  quiet : Quiet vol.geometry.partition s0 t.1
  units : t.2.utf16 = u0
  found : ∃ n done, RunFoundIn vol s0 dir wanted n done locs

/-- A walk over the directory comes to `wanted` free slots in a row. -/
def HasRoom (vol : Volume) (s0 : Machine) (dir : Directory) (wanted : ℕ) : Prop :=
  ∃ n < vol.geometry.clusterCount, Walked vol.geometry s0.device.sectors dir n ∧
    Room (extentSlots vol.geometry s0.device.sectors dir (n + 1)) wanted

lemma walked_iff {g : Geometry} {d : Sectors} {n : ℕ} : Walked g d dir n ↔
    (∀ i < n, g.InHeap (clusterOf g d dir i)) ∧
    (∀ i < n, dir.noFatChain = false → clusterOf g d dir (i + 1) < 0xfffffff8) ∧
    (∀ i < n, dir.noFatChain = true → leftAfter g dir (i + 1) ≠ 0) ∧
    ∀ i < n, dir.dataLength ≠ 0 →
      (g.sectorsPerCluster - 1) * g.bytesPerSector < leftAfter g dir i :=
  ⟨fun h => ⟨h.heap, h.chain, h.more, h.inside⟩, fun h => ⟨h.1, h.2.1, h.2.2.1, h.2.2.2⟩⟩

instance (g : Geometry) (d : Sectors) (dir : Directory) (n : ℕ) : Decidable (Walked g d dir n) :=
  decidable_of_iff _ walked_iff.symm

instance (vol : Volume) (s0 : Machine) (dir : Directory) (wanted : ℕ) :
    Decidable (HasRoom vol s0 dir wanted) := inferInstanceAs (Decidable (∃ n < _, _))

lemma freeCluster_spec (hs : Ready vol.geometry s0) (hwanted : wanted ≤ 19) {j : ℕ}
    (hroom : HasRoom vol s0 dir wanted)
    (hj : j < vol.geometry.clusterCount) (hw : Walked vol.geometry s0.device.sectors dir j)
    (hfirst : dir.noFatChain = true → j = 0)
    (h : Under vol s0 u0 wanted (extentSlots vol.geometry s0.device.sectors dir j) run t) :
    wp (freeCluster vol dir wanted (clusterOf vol.geometry s0.device.sectors dir j, run,
        leftAfter vol.geometry dir j))
      (Sum.elim
        (fun r u => ∃ locs, r = .inl locs ∧ Yielded vol s0 u0 dir wanted locs u)
        (fun v u => v.1 = clusterOf vol.geometry s0.device.sectors dir (j + 1) ∧
          v.2.2 = leftAfter vol.geometry dir (j + 1) ∧ dir.noFatChain = false ∧
          Walked vol.geometry s0.device.sectors dir (j + 1) ∧
          Under vol s0 u0 wanted (extentSlots vol.geometry s0.device.sectors dir (j + 1)) v.2.1 u))
      (fun _ u => Quiet vol.geometry.partition s0 u.1) t := by
  unfold freeCluster
  simp only
  by_cases hc : vol.geometry.InHeap (clusterOf vol.geometry s0.device.sectors dir j)
  swap
  · rw [Sound.clusterLba_none hc]
    exact h.quiet
  have hsector {i : ℕ} (hi : i < vol.geometry.sectorsPerCluster) := hs.sound.heap_sector hc hi
  have hpos := hs.sound.spc_pos
  rw [hs.sound.clusterLba_eq hc, pure_bind, okOr_some, pure_bind, wp_bind]
  refine wp_loop_post (fun i v u =>
    v.2 = (if dir.dataLength ≠ 0 then
      leftAfter vol.geometry dir j - i * vol.geometry.bytesPerSector
      else leftAfter vol.geometry dir j) ∧
    (∀ i' < i, dir.dataLength ≠ 0 →
      i' * vol.geometry.bytesPerSector < leftAfter vol.geometry dir j) ∧
    Under vol s0 u0 wanted (extentSlots vol.geometry s0.device.sectors dir j ++
      clusterSlots s0.device.sectors vol.geometry dir
        (heapLba vol.geometry (clusterOf vol.geometry s0.device.sectors dir j))
        (leftAfter vol.geometry dir j) i) v.1 u) ?_ ?_ ?_
  · refine ⟨by simp, fun _ h => absurd h (Nat.not_lt_zero _), ?_⟩
    simpa [clusterSlots] using h
  · rintro i ⟨run, remaining⟩ u - hi ⟨hrem, hopen, hu⟩
    rw [Nat.zero_add] at hi
    simp only at hrem hu
    have husable : usableBytes dir vol.geometry.bytesPerSector remaining =
        usableAt dir vol.geometry.bytesPerSector (leftAfter vol.geometry dir j) i := by
      rw [hrem]
      unfold usableAt usableBytes
      split_ifs <;> simp_all
    refine wp_mono _ (freeSector_spec hs hwanted (hsector hi) hu) ?_ fun _ _ h => h
    rw [husable, List.append_assoc, ← clusterSlots_succ]
    rintro (r | ⟨run', remaining'⟩) v hv
    · obtain ⟨full, hfull, hv⟩ := hv
      refine ⟨r, rfl, hv.quiet, hv.units, j, full, hj, hw, hc, hfirst, ?_, hv.found⟩
      rw [extentSlots_succ]
      refine hfull.trans ?_
      rw [List.prefix_append_right_inj]
      exact clusterSlots_mono _ _ _ _ _ hi
    · obtain ⟨hmore, hrem', hv⟩ := hv
      refine ⟨?_, fun i' hi' hdir => ?_, hv⟩
      · simp only at hrem' ⊢
        rw [hrem', hrem, Nat.add_mul, Nat.one_mul]
        split_ifs <;> omega
      · rcases Nat.lt_or_ge i' i with hlt | hge
        · exact hopen i' hlt hdir
        · obtain rfl : i' = i := by omega
          rw [hrem, if_pos hdir] at hmore
          omega
  · rintro ⟨run, remaining⟩ u ⟨hrem, hopen, hu⟩
    rw [Nat.zero_add] at hrem hopen hu
    rw [← extentSlots_succ] at hu
    simp only at hrem hu ⊢
    simp only [wp_ite, wp_throw, wp_bind, wp_lift]
    refine ⟨fun _ => hu.quiet, fun hfat => ?_⟩
    have hfat' : dir.noFatChain = false := by simpa using hfat
    refine wp_mono _ (nextCluster_spec (hu.quiet.ready hs) hc) ?_ fun _ _ hf => hu.quiet.trans hf.1
    rintro next v ⟨rfl, hv⟩
    rw [hu.quiet.sectors, ← clusterOf_succ hfat']
    refine ⟨fun hchain => ⟨fun _ => hu.quiet.trans hv, fun _ => ⟨rfl, ?_, hfat', ?_, ?_⟩⟩,
      fun hend => ?_⟩
    · change remaining = _
      rw [hrem]
      unfold leftAfter
      rw [Nat.add_mul, Nat.one_mul, Nat.mul_comm vol.geometry.bytesPerSector]
      split_ifs <;> omega
    · refine hw.succ hc (fun _ => hchain) (fun htrue => by rw [hfat'] at htrue; cases htrue)
        fun hdir => hopen _ (by omega) hdir
    · exact ⟨hu.quiet.trans hv, hu.units, hu.length, hu.scanned⟩
    · -- the chain ends, and all slots have been gone over
      obtain ⟨n, -, hwalked, b, hin, hfree, hlong⟩ := hroom
      have hn : n ≤ j := by
        by_contra hlt
        exact hend (hwalked.chain j (by omega) hfat')
      refine absurd ⟨b, hin.trans ?_, hfree, hlong⟩ hu.scanned.none
      exact (extentSlots_mono _ _ _ (Nat.succ_le_succ hn)).isInfix

/-- **In a directory with room the search for free slots ends in it**, with the first row of them
which is long enough. -/
theorem findFreeEntries_spec (hs : Ready vol.geometry s0) (hroom : HasRoom vol s0 dir wanted)
    (hq : Quiet vol.geometry.partition s0 t.1) :
    wp (findFreeEntries vol dir wanted)
      (fun locs u => 3 ≤ wanted ∧ Yielded vol s0 t.2.utf16 dir wanted locs u)
      (fun _ u => Quiet vol.geometry.partition s0 u.1) t := by
  unfold findFreeEntries
  simp only [wp_ite, wp_throw, wp_bind]
  refine ⟨fun _ => hq, fun hwanted => ?_⟩
  obtain ⟨hmin, hmax⟩ := not_not.mp hwanted
  have hscan : ∀ u : Machine × Workspace, Quiet vol.geometry.partition s0 u.1 →
      u.2.utf16 = t.2.utf16 → wp (freeScan vol wanted dir)
        (fun r v => ∃ locs, r = .inl locs ∧ Yielded vol s0 t.2.utf16 dir wanted locs v)
        (fun _ u => Quiet vol.geometry.partition s0 u.1) u := by
    intro u hu hunits
    unfold freeScan modifyLocators
    simp only [wp_bind, wp_modifySnd]
    refine wp_loop_post (fun j v w => v.1 = clusterOf vol.geometry s0.device.sectors dir j ∧
      v.2.2 = leftAfter vol.geometry dir j ∧ (dir.noFatChain = true → j = 0) ∧
      Walked vol.geometry s0.device.sectors dir j ∧
      Under vol s0 t.2.utf16 wanted (extentSlots vol.geometry s0.device.sectors dir j) v.2.1 w)
      ?_ ?_ ?_
    · refine ⟨(clusterOf_zero _ _ _).symm, by simp [leftAfter], fun _ => rfl, Walked.zero _ _ _, hu,
        hunits, by simp [noLocators], ⟨[], [], ⟨by simp [extentSlots], by simp, by simp, by simp⟩,
        rfl⟩, Nat.lt_of_lt_of_le (by decide : 0 < 3) hmin, ?_⟩
      rintro ⟨b, hin, -, hlong⟩
      have hlen : b.length ≤ 0 := hin.length_le
      omega
    · rintro j ⟨c, run, left⟩ w - hj ⟨rfl, rfl, hfirst, hw, hunder⟩
      refine wp_mono _ (freeCluster_spec hs hmax hroom (by omega) hw hfirst hunder) ?_
        fun _ _ h => h
      rintro (r | v) x hx
      · exact hx
      · obtain ⟨h1, h2, hfat, h3, h4⟩ := hx
        exact ⟨h1, h2, fun htrue => absurd htrue (by simp [hfat]), h3, h4⟩
    · rintro v w ⟨-, -, -, -, hunder⟩
      exact hunder.quiet
  have hround : ∀ i d u, d = dir → Quiet vol.geometry.partition s0 u.1 → u.2.utf16 = t.2.utf16 →
      wp (freeScan vol wanted d) (Sum.elim (fun r v => Yielded vol s0 t.2.utf16 dir wanted r v)
        (fun _ _ => i = i + 1)) (fun _ u => Quiet vol.geometry.partition s0 u.1) u := by
    rintro i d u rfl hu hunits
    refine wp_mono _ (hscan u hu hunits) ?_ fun _ _ h => h
    rintro r v ⟨locs, rfl, hv⟩
    exact hv
  rw [show vol.geometry.clusterCount + 2 = (vol.geometry.clusterCount + 1) + 1 from rfl,
    loop, wp_bind]
  refine wp_mono _ (hround 0 dir t rfl hq rfl) ?_ fun _ _ h => h
  rintro (locs | d) u hu
  · exact ⟨hmin, hu⟩
  · cases hu

end Finding

/-! ### Writing the set -/

section Writes

variable {vol : Volume} {s : Machine} {bm : List ℕ} {locs : List EntryLocator} {c : NewEntrySet}

/-- The volume is kept by a request which returns. -/
def KeepsBase (vol : Volume) (bm : List ℕ) (s t : Machine) : Prop := Follows s t ∧ Base vol bm t

lemma patchSlot_keeps {loc : EntryLocator} {off : ℕ} {bs : List UInt8} (hs : Base vol bm s)
    (hloc : ∃ c, vol.geometry.InHeap c ∧ c ∉ bm ∧ Placed vol.geometry c loc)
    (hfit : off + bs.length ≤ 32) :
    wp (patchSlot vol loc off bs) (fun _ => KeepsBase vol bm s) (fun _ _ => Faulty s) s := by
  obtain ⟨c, hc, hbm, hplaced⟩ := hloc
  have hfits := hplaced.fits
  exact wp_mono _ (patchSlot_based hs hc hbm hplaced.inCluster (by omega))
    (fun _ _ h => ⟨h.follows, h.base⟩) fun _ _ h => h.faulty

lemma upcaseNameHash_quiet (hready : Ready vol.geometry s)
    (htable : vol.upcaseValid = true → TableSound vol.geometry vol.upcase) {units : List ℕ}
    (hlt : ∀ u ∈ units, u < 2 ^ 16) {t : Machine} {sum : ℕ}
    (ht : Quiet vol.geometry.partition s t) :
    wp (upcaseNameHash vol units sum) (fun _ u => Quiet vol.geometry.partition s u)
      (fun _ u => Quiet vol.geometry.partition s u) t := by
  induction units generalizing t sum with
  | nil => exact ht
  | cons u units ih =>
    unfold upcaseNameHash
    rw [wp_bind]
    refine wp_mono _ (upcaseUnit_safe (ht.ready hready) htable (hlt u List.mem_cons_self)) ?_
      fun _ _ h => ht.trans h
    intro v w hw
    exact ih (fun u hu => hlt u (List.mem_cons_of_mem _ hu)) (ht.trans hw)

lemma writeSlots_keeps (hs : Base vol bm s) (hlocs : AllPlaced vol.geometry bm locs)
    {count hash index sum : ℕ} :
    wp (writeSlots vol c count hash locs index sum) (fun _ => KeepsBase vol bm s)
      (fun _ _ => Faulty s) s := by
  induction locs generalizing s index sum with
  | nil => exact ⟨Follows.refl s, hs⟩
  | cons loc locs ih =>
    have hloc := hlocs loc List.mem_cons_self
    have hpatch := @patchSlot_keeps vol s bm loc 0 (entrySlot c count hash index) hs hloc
      (by rw [entrySlot_length])
    obtain ⟨c', -, -, hplaced⟩ := hloc
    simp only [writeSlots, wp_ite, wp_throw, wp_bind]
    refine ⟨fun hbeyond => absurd hplaced.fits (by omega), fun _ => ?_⟩
    refine wp_mono _ hpatch ?_ fun _ _ h => h
    intro _ t ht
    refine wp_mono _ (ih ht.2 fun loc hloc => hlocs loc (List.mem_cons_of_mem _ hloc)) ?_ ?_
    · exact fun _ u hu => ⟨ht.1.trans hu.1, hu.2⟩
    · exact fun _ _ hf => ht.1.faulty hf

lemma writeEntrySet_keeps (hs : Base vol bm s) (hlocs : AllPlaced vol.geometry bm locs)
    (htable : vol.upcaseValid = true → TableSound vol.geometry vol.upcase)
    (hlt : ∀ u ∈ c.name, u < 2 ^ 16) :
    wp (writeEntrySet vol locs c) (fun _ => KeepsBase vol bm s)
      (fun _ t => Faulty s ∨ Quiet vol.geometry.partition s t) s := by
  simp only [writeEntrySet, wp_ite, wp_throw, wp_bind]
  refine ⟨fun _ => .inr (Quiet.refl _ _), fun hok => ?_⟩
  refine wp_mono _ (upcaseNameHash_quiet hs.ready htable hlt (Quiet.refl _ _)) ?_
    fun _ _ h => .inr h
  intro hash t ht
  have hsame := (wrote_of_quiet ht).same hs
  refine wp_mono _ (writeSlots_keeps hsame.base hlocs) ?_
    fun _ _ hf => .inl (hsame.follows.faulty hf)
  intro sum u hu
  have hprim : locs.getD 0 ⟨0, 0⟩ ∈ locs := by
    rcases locs with _ | ⟨p, rest⟩
    · simp at hok
    · simp
  refine wp_mono _ (patchSlot_keeps hu.2 (hlocs _ hprim) (by simp)) ?_
    fun _ _ hf => .inl (hsame.follows.faulty (hu.1.faulty hf))
  exact fun _ v hv => ⟨hsame.follows.trans (hu.1.trans hv.1), hv.2⟩

end Writes

/-! ### Making a file -/

section Creates

variable {vol : Volume} {s : Machine} {P : Dir} {name : List Char} {a : Machine × Workspace}

/-- The new set of the file `e` in the slots `block` of the directory `P`, to which a search
comes. -/
structure Made (vol : Volume) (s t : Machine) (P : Dir) (name : List Char)
    (front block back : List Slot)
    (e : DirectoryEntry) : Prop where
  filled : Filled vol s t P front block back e
  named : e.nameUtf16 = utf16Of name
  folds : Healthy s → Folds vol s (utf16Of name)
  bound : ∀ x, front.getLast? = some x → ¬ Free x
  reached : ∃ n, n < vol.geometry.clusterCount ∧ Walked vol.geometry s.device.sectors P.dir n ∧
    vol.geometry.InHeap (clusterOf vol.geometry s.device.sectors P.dir n) ∧
    (P.dir.noFatChain = true → n = 0) ∧ n < P.count ∧
    front ++ block <+: extentSlots vol.geometry s.device.sectors P.dir (n + 1)

lemma encodable_newFileSet (name : List Char) : Encodable (newFileSet (utf16Of name)) :=
  ⟨fun _ hu => utf16Of_lt _ hu, by simp [newFileSet], by simp [newFileSet], by simp [newFileSet],
    by simp [newFileSet], by simp [newFileSet], by simp [newFileSet]⟩

lemma file_newFileSet (locs : List EntryLocator) (name : List ℕ) :
    (writtenEntry locs (newFileSet name)).isDirectory = false := by
  unfold writtenEntry
  simp only
  unfold newFileSet
  simp only
  decide

lemma folds_of_write {r t : Machine} {locs : List EntryLocator} {c : NewEntrySet} (hr : Healthy r)
    (hs : OnMedia r s) (hrun : writeEntrySet vol locs c s = (.ok (), t)) : Folds vol r c.name := by
  have hwlp : wlp (writeEntrySet vol locs c) (fun _ _ => Folds vol r c.name) s := by
    simp only [writeEntrySet, wlp_ite, wlp_throw, wlp_bind]
    refine ⟨fun _ => trivial, fun _ hash u hu => ?_⟩
    have hfolds := folds_of_hash hr hs hu
    intro _ _ _ _ _ _
    exact hfolds
  exact hwlp () t hrun

/-- **A new file's set is written into the first free slots which are enough**, or no write is
made. -/
theorem createFresh_made (hwf : WellFormed .whole vol s)
    (hP : InTree .whole vol.geometry s.device.sectors P)
    (hroom : HasRoom vol s P.dir (slotCount (utf16Of name).length))
    (ha : Quiet vol.geometry.partition s a.1) :
    wp (createFresh vol P.dir name)
      (fun _ t => ValidName name ∧ ∃ front block back e, Made vol s t.1 P name front block back e)
      (fun _ t => Faulty s ∨ Quiet vol.geometry.partition s t.1) a := by
  have hsound := hwf.sound
  obtain ⟨own, howners⟩ := hwf.owners
  by_cases hname : ValidName name
  swap
  · obtain ⟨err, -, hinvalid⟩ := utf8ToUtf16_invalid hname
    have herr : onUtf16 (utf8ToUtf16 name) a =
        (.err err, (a.1, { a.2 with utf16 := (utf8ToUtf16 name a.2.utf16).2 })) := by
      unfold onUtf16
      rw [run_eq (hinvalid a.2.utf16)]
    unfold createFresh
    rw [wp_err (bind_err herr)]
    exact .inr ha
  have hunits : wp (onUtf16 (utf8ToUtf16 name)) (fun len u => u.1 = a.1 ∧
      len = (utf16Of name).length ∧ u.2.utf16.take len = utf16Of name) (fun _ _ => False) a := by
    rw [wp_onUtf16]
    exact wp_mono _ (utf8ToUtf16_takes hname) (fun _ _ h => ⟨rfl, h⟩) fun _ _ h => h
  unfold createFresh
  simp only [wp_bind, wp_getSnd, wp_lift, wp_pure]
  refine wp_mono _ hunits ?_ fun _ _ h => h.elim
  rintro len b ⟨hb, rfl, htake⟩
  refine wp_mono _ (findFreeEntries_spec hwf.ready hroom (by rw [hb]; exact ha)) ?_
    fun _ _ h => .inr h
  rintro locs u ⟨hmin, hyield⟩
  obtain ⟨n, done, hfound⟩ := hyield.found
  obtain ⟨front, block, hends, hcount⟩ := hfound.found
  have hlt := (hwf.allEnd P hP).walked_lt hsound hfound.walked hfound.heap hfound.first
  obtain ⟨back, hback⟩ := hfound.inside.trans
    (extentSlots_mono vol.geometry s.device.sectors P.dir hlt)
  have hslots : P.slots .whole vol.geometry s.device.sectors = front ++ (block ++ back) := by
    rw [← List.append_assoc, ← hends.slots]
    exact hback.symm
  have hlocs : locs.take (slotCount (utf16Of name).length) = block.map Slot.loc := by
    rw [← hcount]
    exact hends.locs
  have hsub : block ⊆ P.slots .whole vol.geometry s.device.sectors := by
    intro x hx
    rw [hslots]
    simp [hx]
  have hplaced : AllPlaced vol.geometry (bitmapClusters vol s.device.sectors)
      (block.map Slot.loc) := hwf.placed hP (List.map_subset _ hsub)
  have hnodup : (block.map Slot.loc).Nodup := by
    have hall := nodup_slots hsound howners hP
    rw [hslots, List.map_append, List.map_append] at hall
    exact (List.nodup_append.mp (List.nodup_append.mp hall).2.1).1
  have hbase := (wrote_of_quiet hyield.quiet).same hwf.base
  rw [hyield.units, htake, hlocs]
  refine wp_mono _ (wp_run (writeEntrySet_keeps hbase.base hplaced hwf.table
    (encodable_newFileSet name).name)) ?_
    fun _ _ h => h.1.imp (fun hf => hbase.follows.faulty hf) fun h => hyield.quiet.trans h
  rintro _ t ⟨⟨hfollows, hkept⟩, hrun⟩
  obtain ⟨hdecodes, hnamed, hat, honly⟩ := writeEntrySet_decodes (encodable_newFileSet name)
    (fun h => absurd rfl h) hnodup (fun loc hloc => by
      obtain ⟨c, -, -, hloc⟩ := hplaced loc hloc
      exact hloc.aligned) hrun
  obtain ⟨prim, stream, names, hmap, hset, hentry⟩ := hdecodes.isSet
  rw [hat, List.map_map] at hmap
  refine ⟨hname, front, block, back, _, ⟨⟨hbase.follows.trans hfollows, hkept, hP, hslots,
    hends.free, ?_, ⟨prim, stream, names, hmap, hset, ?_⟩, file_newFileSet _ _, rfl, rfl⟩, hnamed,
    fun hs => ?_, hends.bound, n, hfound.counted, hfound.walked, hfound.heap, hfound.first,
      hlt, ?_⟩⟩
  · rw [← hyield.quiet.sectors]
    exact honly
  · rw [Grammar.IsSet.entryOf_group hset]
    exact hentry
  · exact folds_of_write hs ((OnMedia.refl hs).quiet hyield.quiet) hrun
  · rw [← hends.slots]
    exact hfound.inside

end Creates

/-! ### Searching for the new file -/

section Finds

variable {vol : Volume} {s t : Machine} {P : Dir} {name : List Char} {front block back : List Slot}
  {e : DirectoryEntry}

/-- Behind an end marker no slot is in use. -/
def Tidy (slots : List Slot) : Prop :=
  ∀ pre x post, slots = pre ++ x :: post → byteAt x.raw 0 = 0 → ∀ y ∈ post, Free y

lemma front_inUse {slots rest : List Slot} (htidy : Tidy slots) (hslots : slots = front ++ rest)
    (hbound : ∀ x, front.getLast? = some x → ¬ Free x) : ∀ x ∈ front, byteAt x.raw 0 ≠ 0 := by
  intro x hx hz
  obtain ⟨pre, post, rfl⟩ := List.append_of_mem hx
  rcases List.eq_nil_or_concat post with rfl | ⟨post, y, rfl⟩
  · refine hbound x (List.getLast?_concat ..) ?_
    unfold Free
    omega
  · rw [List.concat_eq_append] at hbound hslots
    refine hbound y ?_ (htidy pre x (post ++ [y] ++ rest) (by rw [hslots]; simp) hz y (by simp))
    rw [← List.cons_append, ← List.append_assoc]
    exact List.getLast?_concat ..

variable (hwf : WellFormed .whole vol s) (hs : Healthy s) (hr : Healthy t)
  (h : Made vol s t P name front block back e)
  (hnew : Finds vol.geometry s.device.sectors P.dir (judge vol s (utf16Of name)) (.ok none))

include hwf hs hr h

lemma Made.judge_eq (w : List ℕ) : judge vol t w = judge vol s w :=
  judge_congr (table_filled hwf h.filled) hwf.ready h.filled.base.ready hs hr w

include hnew

lemma Made.carries : Carries vol s t := by
  refine ⟨h.filled.base.ready, hr, h.judge_eq hwf hs hr, fun D w x hD hfinds => ?_⟩
  refine finds_filled hwf h.filled hD (fun hDP => ?_) hfinds
  subst hDP
  exact judge_other hwf hs hD hnew (h.folds hs) h.named hfinds

omit hr in
/-- **The new file is found under its name.** -/
theorem Made.found (htidy : Tidy (P.slots .whole vol.geometry s.device.sectors)) :
    Finds vol.geometry t.device.sectors P.dir (judge vol s (utf16Of name)) (.ok (some e)) := by
  obtain ⟨n, hn, hwalked, hheap, hfirst, hlt, hinside⟩ := h.reached
  have hP := h.filled.inTree
  obtain ⟨e1, es1, hfront, hidle⟩ := swept_front hwf h.filled
    (front_inUse htidy h.filled.slots h.bound)
  obtain ⟨e2, hblock, -⟩ := @swept_block _ _ _ _ _ _ _ _ h.filled e1 es1 hidle
  have hswept : sweep collect ((front ++ block).map (reread t)) (.going EntrySet.new []) =
      .going e2 (es1 ++ [e]) := by
    rw [List.map_append, (filled_map hwf h.filled).2.1, sweep_append, hfront, hblock]
  have hmeets := meets_filled hwf h.filled hP hn hwalked hheap hfirst hlt hinside hswept
  have hothers : ∀ y ∈ es1, judge vol s (utf16Of name) y = .ok false := by
    intro y hy
    have hlen : ∀ x ∈ front, x.raw.length = 32 := by
      intro x hx
      apply extentSlots_length32 (g := vol.geometry) (d := s.device.sectors)
      exact hinside.subset (List.mem_append_left _ hx)
    obtain ⟨pre, prim, stream, names, post, e3, es3, hsplit⟩ :=
      split_of_mem hlen (.inr ⟨e1, hfront⟩) hy
    have hmet : Meets vol.geometry s.device.sectors P.dir es3 y := by
      refine ⟨n, pre ++ (prim :: stream :: names), afterNames (afterStream prim stream) names, hn,
        hwalked, hheap, hfirst, ?_, ?_⟩
      · refine List.IsPrefix.trans ⟨post, hsplit.slots.symm⟩ ?_
        exact (List.prefix_append _ _).trans hinside
      · rw [sweep_append, hsplit.before, sweep_set hsplit.isSet hsplit.idle, hsplit.entry]
        rfl
    exact (judged_false hnew hmet).1
  have hself := judge_self hs (h.folds hs) h.named
  have hfinds := hmeets.finds hothers (by rw [hself]; simp)
  unfold seek at hfinds
  rw [hself] at hfinds
  exact hfinds

end Finds

/-! ### Comparisons never say that a path was not found -/

section Errors

variable {σ : Type} {x : Error}

lemma never_checked (p : Prop) [Decidable p] (k : ℕ) :
    Never x (do assert p; pure k : Exec σ Error ℕ) := (never_assert p).bind fun _ => never_pure k

lemma never_clusterLba (g : Geometry) (c : ℕ) :
    Never x (g.clusterLba c : Exec σ Error (Option ℕ)) :=
  Never.ite (fun _ => (never_checked _ _).bind fun _ => never_pure _) fun _ => never_pure _

lemma never_fatLbaForByte (g : Geometry) (byte : ℕ) :
    Never x (g.fatLbaForByte byte : Exec σ Error (Option ℕ)) := by
  unfold Geometry.fatLbaForByte
  split
  · exact never_pure _
  · split
    · exact never_pure _
    · split
      · exact never_pure _
      · exact (never_checked _ _).bind fun _ => never_pure _

lemma never_scratchSlice (size off n : ℕ) : Never x (scratchSlice size off n) :=
  never_get.bind fun _ => (never_assert _).bind fun _ => never_get.bind fun _ => never_pure _

lemma never_readSector (size lba : ℕ) : Never .pathNotFound (readSector size lba) := by
  intro s
  unfold readSector
  simp only
  split_ifs
  all_goals rintro ⟨⟩

variable (vol : Volume)

lemma never_nextCluster (c : ℕ) : Never .pathNotFound (nextCluster vol c) :=
  (never_checked _ _).bind fun _ => (never_fatLbaForByte _ _).bind fun _ =>
    (never_okOr (by decide) _).bind fun _ => (never_checked _ _).bind fun _ =>
      (never_readSector _ _).bind fun _ => (never_scratchSlice _ _ _).bind fun _ => never_pure _

lemma never_clusterAt (first index : ℕ) : Never .pathNotFound (clusterAt vol first index) := by
  unfold clusterAt
  refine Never.ite (fun _ => never_throw (by decide)) fun _ =>
    (never_loop (fun i c => ?_) _ _ _).bind ?_
  · refine (never_nextCluster vol c).bind fun next => ?_
    exact Never.ite (fun _ => never_pure _) fun _ => never_throw (by decide)
  · intro r
    cases r with
    | inl r => exact r.elim
    | inr c => exact never_pure c

lemma never_upcaseWord (byte : ℕ) : Never .pathNotFound (upcaseWord vol byte) := by
  unfold upcaseWord
  refine (never_checked _ _).bind fun _ => Never.ite (fun _ => never_throw (by decide)) fun _ => ?_
  refine (never_checked _ _).bind fun _ => (never_checked _ _).bind fun _ =>
    (never_clusterAt vol _ _).bind fun _ => (never_checked _ _).bind fun _ => ?_
  refine (never_clusterLba _ _).bind fun _ => (never_okOr (by decide) _).bind fun _ =>
    (never_checked _ _).bind fun _ => (never_checked _ _).bind fun _ =>
      (never_checked _ _).bind fun _ => (never_checked _ _).bind fun _ => ?_
  exact Never.ite (fun _ => never_throw (by decide)) fun _ => (never_readSector _ _).bind fun _ =>
    (never_scratchSlice _ _ _).bind fun _ => never_pure _

lemma never_upcaseRound (unit : ℕ) (v : ℕ × ℕ) : Never .pathNotFound (upcaseRound vol unit v) := by
  obtain ⟨code, byte⟩ := v
  unfold upcaseRound
  refine (never_checked _ _).bind fun _ => Never.ite (fun _ => never_pure _) fun _ => ?_
  refine (never_upcaseWord vol _).bind fun _ => (never_checked _ _).bind fun _ =>
    Never.ite (fun _ => ?_) fun _ => ?_
  · refine (never_checked _ _).bind fun _ => Never.ite (fun _ => never_throw (by decide))
      fun _ => ?_
    refine (never_upcaseWord vol _).bind fun _ => (never_checked _ _).bind fun _ =>
      (never_okOr (by decide) _).bind fun _ => ?_
    exact Never.ite (fun _ => never_pure _) fun _ => never_pure _
  · exact Never.ite (fun _ => never_pure _) fun _ => (never_checked _ _).bind fun _ => never_pure _

lemma never_upcaseUnit (unit : ℕ) : Never .pathNotFound (upcaseUnit vol unit) := by
  unfold upcaseUnit
  refine Never.ite (fun _ => Never.ite (fun _ => never_pure _) fun _ => never_pure _) fun _ => ?_
  refine Never.ite (fun _ => never_throw (by decide)) fun _ => ?_
  refine (never_loop (fun _ v => never_upcaseRound vol unit v) _ _ _).bind fun r => ?_
  rcases r with (_ | v) | _
  · exact never_throw (by decide)
  · exact never_pure _
  · exact never_panic

lemma never_namesMatch (actual wanted : List ℕ) :
    Never .pathNotFound (namesMatch vol actual wanted) := by
  have hloop : ∀ pairs, Never .pathNotFound (namesMatchLoop vol pairs) := by
    intro pairs
    induction pairs with
    | nil => exact never_pure _
    | cons p pairs ih =>
      exact (never_upcaseUnit vol _).bind fun _ => (never_upcaseUnit vol _).bind fun _ =>
        Never.ite (fun _ => never_pure _) fun _ => ih
  exact Never.ite (fun _ => never_pure _) fun _ => hloop _

variable {vol}

lemma finds_pathNotFound {g : Geometry} {d : Sectors} {dir : Directory} {s : Machine} {w : List ℕ} :
    ¬ Finds g d dir (judge vol s w) (.err .pathNotFound) := by
  intro h
  rcases h.meets with ho | ho | ⟨es, y, -, -, -, ho⟩
  · cases ho
  · cases ho
  · unfold seek at ho
    rcases hv : judge vol s w y with (_ | _) | err | _ <;> rw [hv] at ho <;> simp [verdict] at ho
    subst ho
    exact never_namesMatch vol _ _ s hv

end Errors

/-! ### Paths to a new file -/

section Parts

variable {vol : Volume} {s t : Machine} {p name : List Char} {P : Dir} {dir : Directory}
  {a : Machine × Workspace}

/-- The last component of the path `p` is `name`, and those in front of it lead to `dir`. -/
def Parts (vol : Volume) (s : Machine) (p : List Char) (dir : Directory) (name : List Char) :
    Prop :=
  (segments p = [name] ∧ dir = Directory.root vol.geometry) ∨
    ∃ parent entry, segments p = segments parent ++ [name] ∧
      (lookupWithWorkspace vol parent (s, Workspace.new)).1 = .ok entry ∧
      entry.directory = some dir

lemma segments_plain {name : List Char} (h : ValidName name) : segments name = [name] := by
  have hplain := h.plain
  rw [not_or] at hplain
  have hslash : '/' ∉ name := by
    intro hin
    refine h.plain (.inr (.inr (.inr ?_)))
    rw [List.any_eq_true]
    exact ⟨'/', hin, by decide⟩
  unfold segments
  rw [List.splitOn_eq_singleton hslash]
  simp [hplain.1]

lemma split_cases (hsplit : splitPath vol p (s, Workspace.new) = (.ok (dir, name), a)) :
    (dir = Directory.root vol.geometry ∧ p = name ∧ a = (s, Workspace.new)) ∨
      ∃ parent entry, p = parent ++ '/' :: name ∧
        lookupWithWorkspace vol parent (s, Workspace.new) = (.ok entry, a) ∧
        entry.directory = some dir := by
  unfold splitPath at hsplit
  rcases hlast : rsplitOnce p with _ | ⟨parent, last⟩
  · rw [hlast] at hsplit
    cases hsplit
    exact .inl ⟨rfl, rfl, rfl⟩
  · rw [hlast] at hsplit
    simp only at hsplit
    rcases hrun : lookupWithWorkspace vol parent (s, Workspace.new) with ⟨entry | err | _, b⟩
    · rw [bind_ok hrun] at hsplit
      rcases hdir : entry.directory with _ | dir'
      · rw [hdir] at hsplit
        cases hsplit
      · rw [hdir] at hsplit
        cases hsplit
        exact .inr ⟨parent, entry, eq_of_rsplitOnce hlast, hrun, hdir⟩
    · rw [bind_err hrun] at hsplit
      cases hsplit
    · rw [bind_apply, hrun] at hsplit
      cases hsplit

lemma idle_of_split (hwf : WellFormed .whole vol s)
    (hsplit : splitPath vol p (s, Workspace.new) = (.ok (dir, name), a)) : Idle vol s a := by
  rcases split_cases hsplit with ⟨-, -, rfl⟩ | ⟨parent, entry, -, hrun, -⟩
  · exact idle_new vol s
  · have hres := @lookup_resolved .whole _ _ hwf.ready hwf.table hwf.allEnd hwf.rootEnds parent _
      (calm_new s) rfl
    rw [wp_ok hrun] at hres
    exact ⟨hres.calm, hres.idle⟩

lemma inTree_of_split (hwf : WellFormed .whole vol s)
    (hsplit : splitPath vol p (s, Workspace.new) = (.ok (dir, name), a)) :
    ∃ P, InTree .whole vol.geometry s.device.sectors P ∧ P.dir = dir := by
  rcases split_cases hsplit with ⟨rfl, -, -⟩ | ⟨parent, entry, -, hrun, hdir⟩
  · obtain ⟨n, hroot⟩ := hwf.rootEnds
    exact ⟨_, hroot, rfl⟩
  · have hres := @lookup_resolved .whole _ _ hwf.ready hwf.table hwf.allEnd hwf.rootEnds parent _
      (calm_new s) rfl
    rw [wp_ok hrun] at hres
    obtain ⟨D, hD, hentry⟩ := hres.inTree
    exact ⟨Dir.ofEntry vol.geometry entry dir, .child hD hentry hdir, rfl⟩

lemma parts_of_split (hname : ValidName name)
    (hsplit : splitPath vol p (s, Workspace.new) = (.ok (dir, name), a)) :
    Parts vol s p dir name := by
  rcases split_cases hsplit with ⟨rfl, rfl, -⟩ | ⟨parent, entry, rfl, hrun, hdir⟩
  · exact .inl ⟨segments_plain hname, rfl⟩
  · refine .inr ⟨parent, entry, ?_, by rw [hrun], hdir⟩
    rw [segments_append, segments_plain hname]

lemma Parts.carry (hwf : WellFormed .whole vol s) (hs : Healthy s) (hcarries : Carries vol s t)
    (h : Parts vol s p dir name) : Parts vol t p dir name := by
  rcases h with h | ⟨parent, entry, hpath, hlookup, hdir⟩
  · exact .inl h
  · refine .inr ⟨parent, entry, hpath, ?_, hdir⟩
    exact hcarries.lookup hwf hs (idle_new vol s) (idle_new vol t) hlookup

lemma Parts.lookup (hwf : WellFormed .whole vol s) (h : Parts vol s p dir name) :
    ∃ a, Idle vol s a ∧ (lookupWithWorkspace vol p (s, Workspace.new)).1 =
      (lookupFrom vol dir name [] a).1 := by
  rcases h with ⟨hpath, rfl⟩ | ⟨parent, entry, hpath, hlookup, hdir⟩
  · refine ⟨_, idle_new vol s, ?_⟩
    unfold lookupWithWorkspace
    rw [hpath]
  · have hrun := run_eq hlookup
    have hres := @lookup_resolved .whole _ _ hwf.ready hwf.table hwf.allEnd hwf.rootEnds parent _
      (calm_new s) rfl
    rw [wp_ok hrun] at hres
    refine ⟨_, ⟨hres.calm, hres.idle⟩, ?_⟩
    unfold lookupWithWorkspace at hrun ⊢
    rw [hpath]
    rcases hparent : segments parent with _ | ⟨first, rest⟩
    · rw [hparent] at hrun
      cases hrun
    · rw [hparent] at hrun
      simp only [List.cons_append] at hrun ⊢
      rw [lookupFrom_snoc, bind_ok hrun, hdir, okOr_some, pure_bind]

lemma Parts.finds_none (hwf : WellFormed .whole vol s) (hs : Healthy s) (hname : ValidName name)
    (h : Parts vol s p dir name)
    (hnew : (lookupWithWorkspace vol p (s, Workspace.new)).1 = .err .pathNotFound) :
    Finds vol.geometry s.device.sectors dir (judge vol s (utf16Of name)) (.ok none) := by
  obtain ⟨a, ha, hlookup⟩ := h.lookup hwf
  rw [hnew, lookupFrom_nil] at hlookup
  have hfinds := @seekName_outcome _ _ dir _ _ hwf hs hname ha
  rcases hrun : Components.seekName vol dir name a with ⟨o | err | _, b⟩ <;> rw [hrun] at hfinds
  · rw [bind_ok hrun] at hlookup
    cases o with
    | none => exact hfinds
    | some x => cases hlookup
  · rw [bind_err hrun] at hlookup
    cases hlookup
    exact absurd hfinds finds_pathNotFound
  · rw [bind_panic hrun] at hlookup
    cases hlookup

lemma Parts.finds_some (hwf : WellFormed .whole vol s) (hs : Healthy s) (hname : ValidName name)
    (h : Parts vol s p dir name) {e : DirectoryEntry}
    (hfinds : Finds vol.geometry s.device.sectors dir (judge vol s (utf16Of name)) (.ok (some e))) :
    (lookupWithWorkspace vol p (s, Workspace.new)).1 = .ok e := by
  obtain ⟨a, ha, hlookup⟩ := h.lookup hwf
  have houtcome := (seekName_outcome hwf hs hname ha).unique hfinds
  rcases hrun : Components.seekName vol dir name a with ⟨o, b⟩
  rw [hrun] at houtcome
  cases houtcome
  rw [hlookup, lookupFrom_nil, bind_ok hrun]
  rfl

end Parts

/-! ### Creating -/

section Create

variable {vol : Volume} {s t : Machine} {path name : List Char} {P : Dir}

/-- From `s` to `t` a file was created in the directory `P`, whose entry is `e`. The tree holds its
other entries, and these have their streams and their contents. -/
structure Created (vol : Volume) (s t : Machine) (path name : List Char) (P : Dir)
    (e : DirectoryEntry) : Prop where
  wellFormed : WellFormed .whole vol t
  directories : ∀ D, InTree .whole vol.geometry t.device.sectors D ↔
    InTree .whole vol.geometry s.device.sectors D
  entries : ∀ D, InTree .whole vol.geometry s.device.sectors D → ∀ x,
    HasEntry (D.slots .whole vol.geometry t.device.sectors) x ↔
      HasEntry (D.slots .whole vol.geometry s.device.sectors) x ∨ (D = P ∧ x = e)
  named : e.nameUtf16 = utf16Of name
  file : e.isDirectory = false
  empty : e.dataLength = 0
  found : Tidy (P.slots .whole vol.geometry s.device.sectors) → (lookup vol path t).1 = .ok e
  paths : ∀ path x, (lookup vol path s).1 = .ok x → (lookup vol path t).1 = .ok x
  streams : ∀ D x, InTree .whole vol.geometry s.device.sectors D →
    HasEntry (D.slots .whole vol.geometry s.device.sectors) x →
      streamOf vol.geometry t.device.sectors x = streamOf vol.geometry s.device.sectors x
  contents : ∀ D x, InTree .whole vol.geometry s.device.sectors D →
    HasEntry (D.slots .whole vol.geometry s.device.sectors) x → x.isDirectory = false →
      ∀ pos k, pos + k ≤ x.dataLength →
        streamBytes vol.geometry t.device.sectors (streamOf vol.geometry t.device.sectors x) pos k =
          streamBytes vol.geometry s.device.sectors (streamOf vol.geometry s.device.sectors x) pos k

/-- In the directory of the path there is room for the set of its last component. -/
def RoomFor (vol : Volume) (path : List Char) (s : Machine) : Prop :=
  ∀ p, (splitPath vol (trimSlashes path) (s, Workspace.new)).1 = .ok p →
    HasRoom vol s p.1 (slotCount (utf16Of p.2).length)

instance (vol : Volume) (path : List Char) (s : Machine) : Decidable (RoomFor vol path s) :=
  match h : (splitPath vol (trimSlashes path) (s, Workspace.new)).1 with
  | .ok p => decidable_of_iff (HasRoom vol s p.1 (slotCount (utf16Of p.2).length))
      ⟨fun hroom q hq => by cases h.symm.trans hq; exact hroom, fun hroom => hroom p h⟩
  | .err _ => .isTrue fun q hq => by cases h.symm.trans hq
  | .panic => .isTrue fun q hq => by cases h.symm.trans hq

lemma lookup_of_unopened {a b : Machine × Workspace}
    (hopen : openWithWorkspace vol path a = (.err .pathNotFound, b)) :
    (lookupWithWorkspace vol path a).1 = .err .pathNotFound := by
  unfold openWithWorkspace at hopen
  rcases hrun : lookupWithWorkspace vol path a with ⟨e | err | _, u⟩
  · rw [bind_ok hrun] at hopen
    split_ifs at hopen <;> cases hopen
  · rw [bind_err hrun] at hopen
    cases hopen
    rfl
  · rw [bind_panic hrun] at hopen
    cases hopen

lemma create_made (hwf : WellFormed .whole vol s) (hs : Healthy s)
    (hroom : (lookup vol (trimSlashes path) s).1 = .err .pathNotFound → RoomFor vol path s)
    (hfile : ∀ e, (lookup vol (trimSlashes path) s).1 = .ok e → e.isDirectory = true) :
    wp (createWithWorkspace vol path)
      (fun _ t => (lookup vol (trimSlashes path) s).1 = .err .pathNotFound ∧
        ∃ P name a, splitPath vol (trimSlashes path) (s, Workspace.new) =
          (.ok (P.dir, name), a) ∧ ValidName name ∧
        ∃ front block back e, Made vol s t.1 P name front block back e)
      (fun _ t => Faulty s ∨ Quiet vol.geometry.partition s t.1) (s, Workspace.new) := by
  have hsplitSafe : Safe vol s (splitPath vol (trimSlashes path)) := by
    unfold splitPath
    split
    · refine (lookup_safe hwf.ready hwf.table _).bind fun _ => safe_okOr.bind fun _ => ?_
      exact fun t ht => ht
    · exact fun t ht => ht
  have hopen : Safe vol s (openWithWorkspace vol (trimSlashes path)) := by
    refine (lookup_safe hwf.ready hwf.table _).bind fun entry t ht => ?_
    rw [wp_ite]
    exact ⟨fun _ => ht, fun _ => ht⟩
  simp only [createWithWorkspace, wp_ite, wp_throw, wp_bind]
  refine ⟨fun _ => .inr (Quiet.refl _ _), fun _ => ?_⟩
  refine wp_mono _ (wp_run (hsplitSafe _ (calm_new s))) ?_ fun _ _ h => .inr h.1.quiet
  rintro ⟨dir, name⟩ a ⟨hcalm, hrun⟩
  obtain ⟨P, hP, rfl⟩ := inTree_of_split hwf hrun
  have ha := idle_of_split hwf hrun
  have hsame : (lookup vol (trimSlashes path) s).1 =
      (lookupWithWorkspace vol (trimSlashes path) a).1 := by
    rw [lookup_outcome, lookup_alike hwf hs (idle_new vol s) ha]
  rw [wp_attempt]
  refine wp_mono _ (wp_run (hopen a ha.calm)) ?_ ?_
  · -- a path which does not lead to a file opens none
    rintro file b ⟨-, hopened⟩
    unfold openWithWorkspace at hopened
    obtain ⟨x, u, hx, hpure⟩ := bind_ok_iff.mp (show _ = Outcome.ok file by rw [hopened])
    have hdir := hfile x (by rw [hsame, hx])
    rw [if_pos hdir] at hpure
    cases hpure
  · rintro err b ⟨hb, hopened⟩
    by_cases herr : err = .pathNotFound
    swap
    · cases err <;> first | exact absurd rfl herr | exact .inr hb.quiet
    subst herr
    have hnew := hsame.trans (lookup_of_unopened hopened)
    have hroomy := hroom hnew (P.dir, name) (by rw [hrun])
    refine wp_mono _ (createFresh_made hwf hP hroomy hb.quiet) ?_ fun _ _ h => h
    rintro _ t ⟨hname, hmade⟩
    exact ⟨hnew, P, name, a, hrun, hname, hmade⟩

/-- What such a creation has made. -/
structure MadeAt (vol : Volume) (s t : Machine) (path name : List Char) (P : Dir)
    (front block back : List Slot) (e : DirectoryEntry) : Prop
    extends Made vol s t P name front block back e where
  valid : ValidName name
  parts : Parts vol s (trimSlashes path) P.dir name
  none : Finds vol.geometry s.device.sectors P.dir (judge vol s (utf16Of name)) (.ok none)
  healthy : Healthy t

lemma create_decides (hwf : WellFormed .whole vol s) (hfaultless : ¬ Faulty s)
    (hroom : (lookup vol (trimSlashes path) s).1 = .err .pathNotFound → RoomFor vol path s)
    (hfile : ∀ e, (lookup vol (trimSlashes path) s).1 = .ok e → e.isDirectory = true) :
    wp (create vol path)
      (fun _ t => ∃ P name front block back e, MadeAt vol s t path name P front block back e)
      (fun _ t => Quiet vol.geometry.partition s t) s := by
  have hs := healthy_of_faultless hfaultless
  unfold create
  rw [wp_withNewWorkspace]
  refine wp_mono _ (create_made hwf hs hroom hfile) ?_ fun _ _ h => h.resolve_left hfaultless
  rintro _ t ⟨hnew, P, name, a, hsplit, hname, front, block, back, e, h⟩
  have hparts := parts_of_split hname hsplit
  have hlookup : (lookupWithWorkspace vol (trimSlashes path) (s, Workspace.new)).1 =
      .err .pathNotFound := by rw [← lookup_outcome, hnew]
  exact ⟨P, name, front, block, back, e, h, hname, hparts, hparts.finds_none hwf hs hname hlookup,
    healthy_of_faultless (Allocator.Follows.faultless h.filled.follows hfaultless)⟩

/-- **A creation puts one entry into the tree and leaves the rest of it alone.** -/
theorem create_creates (vol : Volume) (s : Machine) (path : List Char) (file : File)
    (hwf : WellFormed .whole vol s) (hfaultless : ¬ Faulty s) (hroom : RoomFor vol path s)
    (hnew : (lookup vol (trimSlashes path) s).1 = .err .pathNotFound)
    (hcreate : (create vol path s).1 = .ok file) :
    ∃ P name e, Parts vol s (trimSlashes path) P.dir name ∧
      InTree .whole vol.geometry s.device.sectors P ∧ Created vol s (create vol path s).2 path name
      P e := by
  have hs := healthy_of_faultless hfaultless
  obtain ⟨P, name, front, block, back, e, h⟩ :=
    (wp_ok (run_eq hcreate)).mp (create_decides hwf hfaultless (fun _ => hroom) fun e he => by
      rw [hnew] at he
      cases he)
  generalize (create vol path s).2 = t at h
  have hP := h.filled.inTree
  have hwf' := wellFormed_filled hwf h.filled
  have hcarries := h.carries hwf hs h.healthy h.none
  obtain ⟨own, howners⟩ := hwf.owners
  have hstream (D : Dir) (x : DirectoryEntry) (hD : InTree .whole vol.geometry s.device.sectors D)
      (hx : HasEntry (D.slots .whole vol.geometry s.device.sectors) x) :=
    (extent_filled hwf h.filled (howners.entry D x hD hx).heap).1
  refine ⟨P, name, e, h.parts, hP, hwf', fun D => inTree_filled hwf h.filled,
    fun D hD x => hasEntry_filled hwf h.filled hD, h.named, h.filled.file, h.filled.empty,
    fun htidy => ?_, fun path x hx => ?_, hstream, fun D x hD hx hfile pos k hk => ?_⟩
  · have hfound := h.found hwf hs h.none htidy
    rw [← h.judge_eq hwf hs h.healthy] at hfound
    have hparts := h.parts.carry hwf hs hcarries
    have hpath := hparts.finds_some hwf' h.healthy h.valid hfound
    rw [lookup_outcome]
    unfold lookupWithWorkspace at hpath ⊢
    rwa [segments_trimSlashes] at hpath
  · exact hcarries.path hwf hs hx
  · rw [show streamOf vol.geometry t.device.sectors x =
      streamOf vol.geometry s.device.sectors x from
      hstream D x hD hx]
    refine extent_bytes hwf.sound hk fun c hc => ?_
    refine sameCluster_filled hwf h.filled ((howners.entry D x hD hx).heap c hc) fun hin => ?_
    exact file_apart hwf.sound howners hD hx hfile hP hin hc

theorem create_creates_pair : ∃ P name e,
    Parts smallVolume (pair false) (trimSlashes ['C']) P.dir name ∧
      InTree .whole smallVolume.geometry (pair false).device.sectors P ∧
        Created smallVolume (pair false) (create smallVolume ['C'] (pair false)).2 ['C'] name P e :=
  create_creates smallVolume (pair false) ['C']
    (File.new (overlay noLocators 0 [⟨26, 160⟩, ⟨26, 192⟩, ⟨26, 224⟩]) 3) (wellFormed_pair false)
    (faultless_pair false) (by decide +kernel) (by decide +kernel) (by decide +kernel)

/-- **A creation which fails makes no write**, and it does not panic. -/
theorem create_fails (vol : Volume) (s : Machine) (path : List Char) (hwf : WellFormed .whole vol s)
    (hfaultless : ¬ Faulty s)
    (hroom : (lookup vol (trimSlashes path) s).1 = .err .pathNotFound → RoomFor vol path s)
    (hfile : ∀ e, (lookup vol (trimSlashes path) s).1 = .ok e → e.isDirectory = true) :
    (create vol path s).1 ≠ .panic ∧ ∀ err, (create vol path s).1 = .err err →
      (create vol path s).2.device.sectors = s.device.sectors ∧
        WellFormed .whole vol (create vol path s).2 := by
  have h := create_decides hwf hfaultless hroom hfile
  rcases hrun : create vol path s with ⟨file | err | _, t⟩
  · simp
  · rw [wp_err hrun] at h
    simpa using ⟨h.sectors, wellFormed_of_quiet hwf h⟩
  · unfold wp at h
    rw [hrun] at h
    exact h.elim

/-- The root has room for a file of the name `.`, which is none. -/
theorem create_fails_pair : RoomFor smallVolume ['.'] (pair false) ∧
    (create smallVolume ['.'] (pair false)).1 = .err .invalidPath ∧
    (create smallVolume ['.'] (pair false)).2.device.sectors = (pair false).device.sectors ∧
    WellFormed .whole smallVolume (create smallVolume ['.'] (pair false)).2 := by
  have hroom : RoomFor smallVolume ['.'] (pair false) := by decide +kernel
  have herr : (create smallVolume ['.'] (pair false)).1 = .err .invalidPath := by decide +kernel
  have hlookup : (lookup smallVolume (trimSlashes ['.']) (pair false)).1 = .err .invalidPath := by
    decide +kernel
  refine ⟨hroom, herr, (create_fails smallVolume (pair false) ['.'] (wellFormed_pair false)
    (faultless_pair false) (fun _ => hroom) fun e he => ?_).2 .invalidPath herr⟩
  rw [hlookup] at he
  cases he

end Create

end ExfatEmbedded.Creating
