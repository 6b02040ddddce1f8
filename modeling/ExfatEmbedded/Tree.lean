import ExfatEmbedded.Listing
import ExfatEmbedded.Sets
import ExfatEmbedded.Writing
import Mathlib.Data.List.TakeWhile

/-!
The directory tree of a volume and who owns its clusters.

`InTree` are the directories below the root, `HasEntry` the entries of one. What a path resolves to
is an entry of the tree.
-/

namespace ExfatEmbedded.Tree

open ExfatEmbedded.Library Exec ExfatEmbedded.Core ExfatEmbedded.Entry ExfatEmbedded.Allocation
open ExfatEmbedded.Lookup ExfatEmbedded.Reading ExfatEmbedded.Scan ExfatEmbedded.Sets
open ExfatEmbedded.ReadSafety ExfatEmbedded.MountSafety ExfatEmbedded.StreamSafety
open ExfatEmbedded.Media ExfatEmbedded.Writing

/-! ### The entries in a sequence of slots -/

/-- A set in a sequence of slots. -/
structure SetIn (slots : List Slot) (prim stream : Slot) (names : List Slot) : Prop where
  isSet : IsSet prim stream names
  inside : prim :: stream :: names <:+: slots

/-- `e` is the entry of a set in `slots`. -/
def HasEntry (slots : List Slot) (e : DirectoryEntry) : Prop :=
  ∃ prim stream names, SetIn slots prim stream names ∧ e = entryOf prim stream names

lemma HasEntry.mono {a b : List Slot} {e : DirectoryEntry} (h : HasEntry a e) (hab : a <:+: b) :
    HasEntry b e := by
  obtain ⟨prim, stream, names, hset, he⟩ := h
  exact ⟨prim, stream, names, ⟨hset.isSet, hset.inside.trans hab⟩, he⟩

lemma hasEntry_of_endsWith {done slots : List Slot} {e : DirectoryEntry} (h : EndsWith done e)
    (hpre : done <+: slots) : HasEntry slots e := by
  obtain ⟨pre, prim, stream, names, rfl, hset, he⟩ := h
  exact ⟨prim, stream, names, ⟨hset, (List.infix_append' pre _ []).trans
    (by simpa using hpre.isInfix)⟩, he⟩

/-! ### The slots of an extent -/

section Slots

variable {g : Geometry} {d : Sectors} {dir : Directory} {n : ℕ} {x : Slot}

lemma mem_clusterSlots {base remaining m : ℕ}
    (h : x ∈ clusterSlots d g dir base remaining m) :
    ∃ i < m, ∃ k < g.bytesPerSector / 32, x = slotAt d (base + i) k := by
  unfold clusterSlots at h
  rw [List.mem_flatMap] at h
  obtain ⟨i, hi, h⟩ := h
  unfold sectorSlots at h
  rw [List.mem_map] at h
  obtain ⟨k, hk, rfl⟩ := h
  rw [List.mem_range] at hi hk
  refine ⟨i, hi, k, hk.trans_le (Nat.div_le_div_right ?_), rfl⟩
  unfold usableAt usableBytes
  split_ifs
  · exact le_rfl
  · exact min_le_left _ _

lemma mem_extentSlots (h : x ∈ extentSlots g d dir n) :
    ∃ j < n, ∃ i < g.sectorsPerCluster, ∃ k < g.bytesPerSector / 32,
      x = slotAt d (heapLba g (clusterOf g d dir j) + i) k := by
  unfold extentSlots at h
  rw [List.mem_flatMap] at h
  obtain ⟨j, hj, h⟩ := h
  exact ⟨j, List.mem_range.mp hj, mem_clusterSlots h⟩

lemma slotAt_length (d : Sectors) (lba k : ℕ) : (slotAt d lba k).raw.length = 32 :=
  Image.slice_length _ _ _

lemma extentSlots_length32 (h : x ∈ extentSlots g d dir n) : x.raw.length = 32 := by
  obtain ⟨j, -, i, -, k, -, rfl⟩ := mem_extentSlots h
  exact slotAt_length _ _ _

end Slots

/-! ### Slots behind an end marker -/

/-- How far the slots of a directory count: to the end marker, or to the last. -/
inductive Horizon where
  | live
  | whole
  deriving DecidableEq

/-- The slots within the horizon. -/
def Horizon.cut (ζ : Horizon) (l : List Slot) : List Slot :=
  match ζ with
  | .live => l.takeWhile fun x => byteAt x.raw 0 ≠ 0
  | .whole => l

section Cut

variable {ζ : Horizon} {done l l' : List Slot} {x : Slot}

lemma Horizon.cut_prefix : ζ.cut l <+: l := by
  cases ζ with
  | live => exact List.takeWhile_prefix _
  | whole => exact List.prefix_rfl

lemma Horizon.mem_of_cut (h : x ∈ ζ.cut l) : x ∈ l := Horizon.cut_prefix.subset h

lemma Horizon.inUse_of_mem (h : x ∈ Horizon.live.cut l) : byteAt x.raw 0 ≠ 0 :=
  of_decide_eq_true (@List.mem_takeWhile_imp _ (fun x : Slot => byteAt x.raw 0 ≠ 0) l x h)

lemma Horizon.prefix_cut (h : done <+: l) (hlive : ∀ x ∈ done, byteAt x.raw 0 ≠ 0) :
    done <+: ζ.cut l := by
  cases ζ with
  | live =>
    obtain ⟨rest, rfl⟩ := h
    simp only [Horizon.cut]
    rw [List.takeWhile_append_of_pos (by simpa using hlive)]
    exact List.prefix_append _ _
  | whole => exact h

lemma Horizon.cut_mono (h : l <+: l') : ζ.cut l <+: ζ.cut l' := by
  cases ζ with
  | live =>
    obtain ⟨rest, rfl⟩ := h
    simp only [Horizon.cut]
    rw [List.takeWhile_append]
    split_ifs with hall
    · exact (List.takeWhile_prefix _).trans (List.prefix_append _ _)
    · exact List.prefix_rfl
  | whole => exact h

end Cut

/-! ### Finding a child -/

section Find

variable {vol : Volume} {s0 : Machine} {dir : Directory}

/-- A search is under way and has gone over `done`. -/
structure Seeking (vol : Volume) (s0 : Machine) (done : List Slot) (t : Machine × Workspace) :
    Prop where
  calm : Calm vol s0 t
  parsed : Parsed done t.2.entrySet
  live : ∀ x ∈ done, byteAt x.raw 0 ≠ 0

/-- A search has ended at the last slot of `done`. -/
def ChildFound (vol : Volume) (s0 : Machine) (o : Option DirectoryEntry) (done : List Slot)
    (t : Machine × Workspace) : Prop :=
  Calm vol s0 t ∧ ∀ e, o = some e → t.2.entrySet.secondaryLeft = 0 ∧ EndsWith done e ∧
    ∀ x ∈ done, byteAt x.raw 0 ≠ 0

variable (hs : Ready vol.geometry s0)
  (htable : vol.upcaseValid = true → TableSound vol.geometry vol.upcase)

include hs htable

lemma findChildSlot_found {lba k wantedLen : ℕ} {done : List Slot} {t : Machine × Workspace}
    (hlba : InPartition vol.geometry.partition lba) (hk : k < vol.geometry.bytesPerSector / 32)
    (hdone : ∀ y ∈ done, y.raw.length = 32) (ht : Seeking vol s0 done t)
    (hold : Holds vol.geometry.bytesPerSector lba t.1) :
    wp (findChildSlot vol wantedLen lba k)
      (Sum.elim (fun o => ChildFound vol s0 o (done ++ [slotAt s0.device.sectors lba k]))
        (fun _ u => Seeking vol s0 (done ++ [slotAt s0.device.sectors lba k]) u ∧
          Holds vol.geometry.bytesPerSector lba u.1)) (fun _ => Calm vol s0) t := by
  obtain ⟨m, ws⟩ := t
  have hq := ht.calm.quiet
  have hsize := hs.sound.size_le
  have hoff : k * 32 + 32 ≤ vol.geometry.bytesPerSector := by omega
  have hslice := hold.slice hoff
  rw [hq.sectors] at hslice
  unfold findChildSlot
  simp only [wp_bind, wp_usize, wp_lift]
  refine ⟨by omega, ?_⟩
  rw [wp_scratchSlice (hq.ready hs) hoff, hslice, wp_ite]
  refine ⟨fun _ => ⟨ht.calm, nofun⟩, fun hz => ?_⟩
  have hlive : ∀ x ∈ done ++ [slotAt s0.device.sectors lba k], byteAt x.raw 0 ≠ 0 := by
    intro x hx
    rcases List.mem_append.mp hx with hx | hx
    · exact ht.live x hx
    · rwa [List.mem_singleton.mp hx]
  rw [wp_bind, wp_onEntrySet]
  obtain ⟨hname, hentry⟩ := push_bounded (Image.slice (s0.device.sectors lba) (k * 32) 32)
    ⟨lba, k * 32 % 2 ^ 16⟩ ht.calm.bounded.name
  have hsound := push_sound ht.parsed hdone (slotAt_length s0.device.sectors lba k)
  change Decodes _ (EntrySet.push (Image.slice (s0.device.sectors lba) (k * 32) 32)
    ⟨lba, k * 32 % 2 ^ 16⟩ ws.entrySet) at hsound
  rcases hp : EntrySet.push (Image.slice (s0.device.sectors lba) (k * 32) 32)
    ⟨lba, k * 32 % 2 ^ 16⟩ ws.entrySet with ⟨o, e'⟩
  rw [hp] at hname hentry hsound
  have hcalm : Calm vol s0 (m, { ws with entrySet := e' }) := ⟨hq, ht.calm.bounded.utf16, hname⟩
  rcases push_cases (Image.slice_length (s0.device.sectors lba) (k * 32) 32)
    ⟨lba, k * 32 % 2 ^ 16⟩ ws.entrySet with ⟨o', ho⟩ | ho
  · rw [hp] at ho
    dsimp only at ho
    subst ho
    refine (wp_ok hp).mpr ?_
    rcases o' with _ | entry
    · exact ⟨⟨hcalm, hsound, hlive⟩, hold⟩
    · simp only [wp_bind, wp_getSnd, wp_lift]
      unfold findChildEntry
      rw [wp_bind]
      have hunits : ∀ u ∈ entry.nameUtf16, u < 2 ^ 16 :=
        fun u hu => hentry entry rfl u (List.mem_of_mem_take hu)
      have hwanted : ∀ u ∈ ws.utf16.take wantedLen, u < 2 ^ 16 :=
        fun u hu => ht.calm.bounded.utf16 u (List.mem_of_mem_take hu)
      refine wp_mono _ (namesMatch_safe (hq.ready hs) htable hunits hwanted) ?_
        fun _ _ h => ⟨hq.trans h, hcalm.bounded⟩
      intro b u hu
      have hqu := hq.trans hu
      rw [wp_ite]
      refine ⟨fun _ => ⟨⟨hqu, hcalm.bounded⟩, fun e he => ?_⟩, fun _ => ?_⟩
      · cases he
        exact ⟨hsound.1, hsound.2, hlive⟩
      · rw [wp_bind]
        refine wp_mono _ (readSector_spec (hqu.ready hs) hlba) ?_
          fun _ _ h => ⟨hqu.trans h.1, hcalm.bounded⟩
        rintro _ v ⟨hv, hold'⟩
        exact ⟨⟨⟨hqu.trans hv, hcalm.bounded⟩, .idle hsound.1, hlive⟩, hold'⟩
  · rw [hp] at ho
    dsimp only at ho
    subst ho
    exact (wp_err hp).mpr hcalm

/-- An entry found is of a cluster the walk comes to. -/
structure ChildFoundIn (vol : Volume) (s0 : Machine) (dir : Directory) (e : DirectoryEntry)
    (t : Machine × Workspace) (j : ℕ) : Prop where
  idle : t.2.entrySet.secondaryLeft = 0
  walked : Walked vol.geometry s0.device.sectors dir j
  heap : vol.geometry.InHeap (clusterOf vol.geometry s0.device.sectors dir j)
  first : dir.noFatChain = true → j = 0
  entry : ∀ ζ : Horizon, HasEntry (ζ.cut (extentSlots vol.geometry s0.device.sectors dir (j + 1))) e

lemma findChildCluster_found {wantedLen j : ℕ} {t : Machine × Workspace}
    (hfirst : dir.noFatChain = true → j = 0)
    (hw : Walked vol.geometry s0.device.sectors dir j)
    (ht : Seeking vol s0 (extentSlots vol.geometry s0.device.sectors dir j) t) :
    wp (findChildCluster vol dir wantedLen
        (clusterOf vol.geometry s0.device.sectors dir j, leftAfter vol.geometry dir j))
      (Sum.elim
        (fun o u => Calm vol s0 u ∧ ∀ e, o = some e → ∃ j, ChildFoundIn vol s0 dir e u j)
        (fun v u => v = (clusterOf vol.geometry s0.device.sectors dir (j + 1),
            leftAfter vol.geometry dir (j + 1)) ∧ dir.noFatChain = false ∧
          Walked vol.geometry s0.device.sectors dir (j + 1) ∧
          Seeking vol s0 (extentSlots vol.geometry s0.device.sectors dir (j + 1)) u))
      (fun _ => Calm vol s0) t := by
  unfold findChildCluster
  simp only
  by_cases hc : vol.geometry.InHeap (clusterOf vol.geometry s0.device.sectors dir j)
  swap
  · rw [Sound.clusterLba_none hc]
    exact ht.calm
  have hsector {i : ℕ} (hi : i < vol.geometry.sectorsPerCluster) := hs.sound.heap_sector hc hi
  rw [hs.sound.clusterLba_eq hc, pure_bind, okOr_some, pure_bind, wp_bind, findChildSector_eq]
  refine wp_mono _ (clusterScan_wp (d := s0.device.sectors)
    (I := Seeking vol s0)
    (H := fun lba done u => Seeking vol s0 done u ∧ Holds vol.geometry.bytesPerSector lba u.1)
    (S := ChildFound vol s0) (E := fun _ => Calm vol s0) hs.sound.spc_pos
    (fun i hi => (hs.sound.lt_of_inPartition (hsector hi)).2) ?_ ?_ (fun _ _ _ h => h.1) ht) ?_
    fun _ _ h => h
  · intro i hi done u hu
    have hq := hu.calm.quiet
    rw [wp_lift]
    refine wp_mono _ (readSector_spec (hq.ready hs) (hsector hi)) ?_
      fun _ _ h => ⟨hq.trans h.1, hu.calm.bounded⟩
    rintro _ v ⟨hv, hold⟩
    exact ⟨⟨⟨hq.trans hv, hu.calm.bounded⟩, hu.parsed, hu.live⟩, hold⟩
  · intro i hi k done u hk hpre hu
    refine findChildSlot_found hs htable (hsector hi) hk (fun y hy => ?_) hu.1 hu.2
    rw [← extentSlots_succ] at hpre
    exact extentSlots_length32 (hpre.subset (List.mem_append_left _ hy))
  rw [← extentSlots_succ]
  rintro (o | left) u hu
  · rcases hu with ⟨full, hpre, hcalm, hfound⟩ | ⟨rfl, -, hu⟩
    · refine ⟨hcalm, fun e he => ⟨j, ?_⟩⟩
      obtain ⟨hidle, hends, hlive⟩ := hfound e he
      exact ⟨hidle, hw, hc, hfirst, fun ζ =>
        hasEntry_of_endsWith hends (Horizon.prefix_cut hpre hlive)⟩
    · exact ⟨hu.calm, nofun⟩
  · obtain ⟨rfl, hinside, hu⟩ := hu
    rw [leftOver_leftAfter]
    simp only
    have hin : dir.dataLength ≠ 0 →
        (vol.geometry.sectorsPerCluster - 1) * vol.geometry.bytesPerSector <
          leftAfter vol.geometry dir j := fun hd => by
      by_contra hle
      exact hinside ⟨hd, by omega⟩
    by_cases hfat : dir.noFatChain = true
    · rw [if_pos hfat]
      exact ⟨hu.calm, nofun⟩
    · have hfat' : dir.noFatChain = false := by simpa using hfat
      have hq := hu.calm.quiet
      rw [if_neg hfat, wp_bind, wp_lift]
      refine wp_mono _ (nextCluster_spec (hq.ready hs) hc) ?_
        fun _ _ h => ⟨hq.trans h.1, hu.calm.bounded⟩
      rintro next v ⟨rfl, hv⟩
      have hcalm : Calm vol s0 (v, u.2) := ⟨hq.trans hv, hu.calm.bounded⟩
      rw [hq.sectors, ← clusterOf_succ hfat', wp_ite]
      refine ⟨fun hend => ⟨hcalm, nofun⟩, fun hchain => ?_⟩
      rw [wp_ite]
      refine ⟨fun _ => hcalm, fun _ => ⟨rfl, hfat', ?_, hcalm, hu.parsed, hu.live⟩⟩
      exact hw.succ hc (fun _ => by omega) (fun h => absurd h hfat) hin

/-- **An entry found in a directory is the entry of a set in it.** -/
theorem findChild_found {wantedLen : ℕ} {t : Machine × Workspace} (ht : Calm vol s0 t)
    (hidle : t.2.entrySet.secondaryLeft = 0) :
    wp (findChild vol dir wantedLen)
      (fun o u => Calm vol s0 u ∧ ∀ e, o = some e → ∃ j, ChildFoundIn vol s0 dir e u j)
      (fun _ => Calm vol s0) t := by
  unfold findChild
  simp only [requireScratch, wp_bind, wp_lift, wp_get, wp_when, wp_throw]
  refine ⟨fun _ => ht, fun _ => ?_⟩
  refine wp_loop_post (fun j v u => v = (clusterOf vol.geometry s0.device.sectors dir j,
      leftAfter vol.geometry dir j) ∧ (dir.noFatChain = true → j = 0) ∧
      Walked vol.geometry s0.device.sectors dir j ∧
      Seeking vol s0 (extentSlots vol.geometry s0.device.sectors dir j) u) ?_ ?_ ?_
  · exact ⟨by simp [clusterOf_zero, leftAfter], fun _ => rfl, Walked.zero _ _ _, ht, .idle hidle,
      fun _ h => absurd h List.not_mem_nil⟩
  · rintro j v u - - ⟨rfl, hfirst, hw, hu⟩
    refine wp_mono _ (findChildCluster_found hs htable hfirst hw hu) ?_ fun _ _ h => h
    rintro (o | v) w hw
    · exact hw
    · exact ⟨hw.1, fun hfat => absurd hw.2.1 (by rw [hfat]; decide), hw.2.2⟩
  · rintro v u ⟨-, -, -, hu⟩
    exact hu.calm

end Find

/-! ### Streams -/

/-- Cluster number `i` of the stream which begins with cluster `first`. -/
def nthCluster (g : Geometry) (d : Sectors) (first : ℕ) (noFatChain : Bool) (i : ℕ) : ℕ :=
  if noFatChain then first + i else link g d first i

/-- The first `n` clusters of a stream. -/
def extent (g : Geometry) (d : Sectors) (first : ℕ) (noFatChain : Bool) (n : ℕ) : List ℕ :=
  (List.range n).map (nthCluster g d first noFatChain)

/-- The chain of a stream of `n` clusters ends behind them; a chain of none has no first cluster. -/
def ChainEnds (g : Geometry) (d : Sectors) (first : ℕ) (noFatChain : Bool) (n : ℕ) : Prop :=
  noFatChain = false →
    if n = 0 then first = 0 else nthCluster g d first noFatChain n = 0xffffffff

/-- The clusters of the stream of an entry. -/
def streamOf (g : Geometry) (d : Sectors) (e : DirectoryEntry) : List ℕ :=
  extent g d e.firstCluster e.noFatChain (clustersFor g e.dataLength)

/-- The clusters of the allocation bitmap. -/
def bitmapClusters (vol : Volume) (d : Sectors) : List ℕ :=
  extent vol.geometry d vol.bitmap.firstCluster false
    (clustersFor vol.geometry vol.bitmap.byteLength)

/-- The clusters of the UpCase table. -/
def upcaseClusters (vol : Volume) (d : Sectors) : List ℕ :=
  extent vol.geometry d vol.upcase.firstCluster false
    (clustersFor vol.geometry vol.upcase.byteLength)

section Extent

variable {g : Geometry} {d d' : Sectors} {first n m c : ℕ} {noFatChain : Bool}

@[simp] lemma extent_length : (extent g d first noFatChain n).length = n := by simp [extent]

lemma mem_extent : c ∈ extent g d first noFatChain n ↔
    ∃ i < n, nthCluster g d first noFatChain i = c := by simp [extent]

lemma nthCluster_mem {i : ℕ} (hi : i < n) :
    nthCluster g d first noFatChain i ∈ extent g d first noFatChain n := mem_extent.mpr ⟨i, hi, rfl⟩

lemma extent_getD {i : ℕ} (hi : i < n) :
    (extent g d first noFatChain n).getD i 0 = nthCluster g d first noFatChain i := by
  rw [List.getD_eq_getElem _ _ (by simpa using hi)]
  simp [extent]

@[simp] lemma nthCluster_zero : nthCluster g d first noFatChain 0 = first := by
  unfold nthCluster
  split_ifs <;> rfl

lemma nthCluster_inj (h : (extent g d first noFatChain n).Nodup) {i j : ℕ} (hi : i < n) (hj : j < n)
    (heq : nthCluster g d first noFatChain i = nthCluster g d first noFatChain j) : i = j := by
  have hi' : i < (extent g d first noFatChain n).length := by simpa using hi
  have hj' : j < (extent g d first noFatChain n).length := by simpa using hj
  refine (@List.Nodup.getElem_inj_iff _ _ h i hi' j hj').mp ?_
  simpa [extent] using heq

lemma extent_congr (h : noFatChain = false → ∀ i, i + 1 < n →
    fatEntry g d' (nthCluster g d first noFatChain i) =
      fatEntry g d (nthCluster g d first noFatChain i)) {i : ℕ} (hi : i < n) :
    nthCluster g d' first noFatChain i = nthCluster g d first noFatChain i := by
  cases hfat : noFatChain with
  | true => rfl
  | false =>
    subst hfat
    induction i with
    | zero => rfl
    | succ i ih =>
      have hlast := h rfl i hi
      have heq : link g d' first i = link g d first i := ih (by omega)
      change link g d' first (i + 1) = link g d first (i + 1)
      rw [link_succ, link_succ, heq]
      exact hlast

lemma extent_eq (h : noFatChain = false → ∀ i, i + 1 < n →
    fatEntry g d' (nthCluster g d first noFatChain i) =
      fatEntry g d (nthCluster g d first noFatChain i)) :
    extent g d' first noFatChain n = extent g d first noFatChain n :=
  List.map_congr_left fun _ hi => extent_congr h (List.mem_range.mp hi)

lemma clustersFor_le (hs : Sound g m) (len : ℕ) : len ≤ clustersFor g len * clusterSize g := by
  have hpos : 0 < clusterSize g := hs.clusterBytes_pos
  unfold clustersFor
  split_ifs with hz
  · omega
  · change len ≤ (len + clusterSize g - 1) / clusterSize g * clusterSize g
    generalize clusterSize g = k at *
    have h1 := Nat.div_add_mod (len + k - 1) k
    have h2 := Nat.mod_lt (len + k - 1) hpos
    rw [Nat.mul_comm] at h1
    omega

lemma clustersFor_mono {a b : ℕ} (h : a ≤ b) : clustersFor g a ≤ clustersFor g b := by
  unfold clustersFor
  split_ifs
  · exact le_rfl
  · exact Nat.zero_le _
  · omega
  · exact Nat.div_le_div_right (by omega)

lemma clustersFor_mul (hs : Sound g m) (k : ℕ) : clustersFor g (k * clusterSize g) = k := by
  have hpos : 0 < clusterSize g := hs.clusterBytes_pos
  unfold clustersFor
  split_ifs with hz
  · rcases Nat.mul_eq_zero.mp hz with hk | hk
    · exact hk.symm
    · omega
  · change (k * clusterSize g + clusterSize g - 1) / clusterSize g = k
    rw [Nat.add_sub_assoc (by omega), Nat.add_comm, Nat.add_mul_div_right _ _ hpos,
      Nat.div_eq_of_lt (by omega), Nat.zero_add]

lemma clustersFor_le_of_le (hs : Sound g m) {len k : ℕ} (h : len ≤ k * clusterSize g) :
    clustersFor g len ≤ k := (clustersFor_mono h).trans_eq (clustersFor_mul hs k)

lemma clustersFor_pos (hs : Sound g m) {len : ℕ} (hlen : len ≠ 0) : 0 < clustersFor g len := by
  have hle := clustersFor_le hs len
  by_contra hz
  have hz : clustersFor g len = 0 := by omega
  rw [hz] at hle
  omega

end Extent

/-! ### The tree -/

/-- What owns a cluster of the heap. A file or a directory is known by where its entry set is. -/
inductive Owner where
  | root
  | bitmap
  | upcase
  | entry (primary : EntryLocator)
  deriving DecidableEq

/-- A directory of the tree, with the number of its clusters. -/
structure Dir where
  dir : Directory
  count : ℕ
  owner : Owner
  deriving DecidableEq

namespace Dir

variable (ζ : Horizon) (g : Geometry) (d : Sectors)

/-- The root directory, of `n` clusters. -/
def root (n : ℕ) : Dir := ⟨Directory.root g, n, .root⟩

/-- The directory `dir` of an entry. -/
def ofEntry (e : DirectoryEntry) (dir : Directory) : Dir :=
  ⟨dir, clustersFor g e.dataLength, .entry e.primary⟩

/-- The slots of a directory. -/
def slots (D : Dir) : List Slot := ζ.cut (extentSlots g d D.dir D.count)

def clusters (D : Dir) : List ℕ := extent g d D.dir.firstCluster D.dir.noFatChain D.count

/-- A walk over the directory ends with its last cluster. -/
structure Ends (D : Dir) : Prop where
  chain : ChainEnds g d D.dir.firstCluster D.dir.noFatChain D.count
  empty : D.count = 0 → D.dir.firstCluster = 0

end Dir

/-- The directories of the volume: the root, and those with an entry in a directory of the
volume. -/
inductive InTree (ζ : Horizon) (g : Geometry) (d : Sectors) : Dir → Prop
  | root {n : ℕ} (heap : ∀ i < n, g.InHeap (link g d g.rootCluster i))
      (ended : link g d g.rootCluster n = 0xffffffff) : InTree ζ g d (Dir.root g n)
  | child {D : Dir} {e : DirectoryEntry} {dir : Directory} (parent : InTree ζ g d D)
      (entry : HasEntry (D.slots ζ g d) e) (isDir : e.directory = some dir) :
      InTree ζ g d (Dir.ofEntry g e dir)

/-- `o` owns the clusters `cs`, which are in the heap and marked used. -/
structure Owned (g : Geometry) (bm : List ℕ) (d : Sectors) (own : ℕ → Option Owner) (o : Owner)
    (cs : List ℕ) : Prop where
  nodup : cs.Nodup
  heap : ∀ c ∈ cs, g.InHeap c
  used : ∀ c ∈ cs, used g bm d c = true
  own : ∀ c ∈ cs, own c = some o

/-- `own` says who owns which clusters of the volume. -/
structure Owners (ζ : Horizon) (vol : Volume) (d : Sectors) (own : ℕ → Option Owner) : Prop where
  bitmap : Owned vol.geometry (bitmapClusters vol d) d own .bitmap (bitmapClusters vol d)
  upcase : Owned vol.geometry (bitmapClusters vol d) d own .upcase (upcaseClusters vol d)
  root : ∀ n, InTree ζ vol.geometry d (Dir.root vol.geometry n) →
    Owned vol.geometry (bitmapClusters vol d) d own .root ((Dir.root vol.geometry n).clusters
      vol.geometry d)
  entry : ∀ D e, InTree ζ vol.geometry d D → HasEntry (D.slots ζ vol.geometry d) e →
    Owned vol.geometry (bitmapClusters vol d) d own (.entry e.primary) (streamOf vol.geometry d e)

/-- A mounted volume is well-formed: its UpCase table is valid, the bitmap covers every cluster,
every entry set in its directories decodes, and the root, the bitmap, the UpCase table and every
entry own clusters of their own, as many as their length asks for, whose chains end behind them.
With the horizon `whole` sets behind an end marker count too: a creation may bring them back. -/
structure WellFormed (ζ : Horizon) (vol : Volume) (s : Machine) : Prop where
  mounted : Listing.MountedOn vol s
  scratch : vol.geometry.bytesPerSector ≤ s.scratch.len
  upcaseValid : vol.upcaseValid = true
  covers : vol.geometry.clusterCount ≤ vol.bitmap.byteLength * 8
  tally : Tally vol.geometry (bitmapClusters vol s.device.sectors) s
  owners : ∃ own, Owners ζ vol s.device.sectors own
  bitmapEnds : ChainEnds vol.geometry s.device.sectors vol.bitmap.firstCluster false
    (clustersFor vol.geometry vol.bitmap.byteLength)
  upcaseEnds : ChainEnds vol.geometry s.device.sectors vol.upcase.firstCluster false
    (clustersFor vol.geometry vol.upcase.byteLength)
  rootEnds : ∃ n, InTree ζ vol.geometry s.device.sectors (Dir.root vol.geometry n)
  decodes : ∀ D, InTree ζ vol.geometry s.device.sectors D →
    ∀ x ∈ D.slots ζ vol.geometry s.device.sectors, byteAt x.raw 0 = 0x85 →
      ∃ stream names, SetIn (D.slots ζ vol.geometry s.device.sectors) x stream names
  entryEnds : ∀ D e, InTree ζ vol.geometry s.device.sectors D →
    HasEntry (D.slots ζ vol.geometry s.device.sectors) e →
      ChainEnds vol.geometry s.device.sectors e.firstCluster e.noFatChain
        (clustersFor vol.geometry e.dataLength) ∧
      (e.isDirectory = true → e.dataLength = 0 → e.firstCluster = 0)

/-! ### Resolving paths -/

section Paths

variable {ζ : Horizon} {vol : Volume} {s0 : Machine} {D : Dir}

lemma Dir.Ends.walked_lt {g : Geometry} {d : Sectors} {n j : ℕ} (hs : Sound g n) (h : D.Ends g d)
    (hw : Walked g d D.dir j) (hheap : g.InHeap (clusterOf g d D.dir j))
    (hfirst : D.dir.noFatChain = true → j = 0) : j < D.count := by
  by_contra hle
  rcases Nat.eq_zero_or_pos D.count with hz | hpos
  · have hheap0 : g.InHeap (clusterOf g d D.dir 0) := by
      rcases Nat.eq_zero_or_pos j with rfl | hj
      · exact hheap
      · exact hw.heap 0 hj
    rw [clusterOf_zero, h.empty hz] at hheap0
    have := hs.inHeap_iff.mp hheap0
    omega
  · cases hfat : D.dir.noFatChain with
    | true =>
      have := hfirst hfat
      omega
    | false =>
      have hend := h.chain hfat
      rw [if_neg (by omega)] at hend
      have hcluster : clusterOf g d D.dir D.count = 0xffffffff := hend
      rcases Nat.lt_or_ge D.count j with hlt | hge
      · have := hw.chain (D.count - 1) (by omega) hfat
        rw [show D.count - 1 + 1 = D.count by omega] at this
        omega
      · rw [show j = D.count by omega, hcluster] at hheap
        have := hs.inHeap_iff.mp hheap
        omega

/-- Walks over the directories of the tree end. -/
def AllEnd (ζ : Horizon) (g : Geometry) (d : Sectors) : Prop := ∀ D, InTree ζ g d D → D.Ends g d

/-- A path has led to an entry. -/
structure Resolved (ζ : Horizon) (vol : Volume) (s0 : Machine) (e : DirectoryEntry)
    (t : Machine × Workspace) :
    Prop where
  calm : Calm vol s0 t
  idle : t.2.entrySet.secondaryLeft = 0
  inTree : ∃ D, InTree ζ vol.geometry s0.device.sectors D ∧
    HasEntry (D.slots ζ vol.geometry s0.device.sectors) e

lemma ChildFoundIn.hasEntry {e : DirectoryEntry} {t : Machine × Workspace} {j n : ℕ}
    (h : ChildFoundIn vol s0 D.dir e t j) (hs : Sound vol.geometry n)
    (hend : D.Ends vol.geometry s0.device.sectors) :
    HasEntry (D.slots ζ vol.geometry s0.device.sectors) e := by
  have hlt := hend.walked_lt hs h.walked h.heap h.first
  exact (h.entry ζ).mono (Horizon.cut_mono (extentSlots_mono _ _ _ hlt)).isInfix

variable (hs : Ready vol.geometry s0)
  (htable : vol.upcaseValid = true → TableSound vol.geometry vol.upcase)
  (hends : AllEnd ζ vol.geometry s0.device.sectors)

include hs htable hends

lemma component_resolved {α : Type} {current : List Char} {t : Machine × Workspace}
    {f : DirectoryEntry → WsM α} {Q : α → Machine × Workspace → Prop}
    (hD : InTree ζ vol.geometry s0.device.sectors D) (ht : Calm vol s0 t)
    (hidle : t.2.entrySet.secondaryLeft = 0)
    (hf : ∀ e u, Resolved ζ vol s0 e u → HasEntry (D.slots ζ vol.geometry s0.device.sectors) e →
      wp (f e) Q (fun _ => Calm vol s0) u) :
    wp (do
      let wantedLen ← onUtf16 (utf8ToUtf16 current)
      let entry ← okOr .pathNotFound (← findChild vol D.dir wantedLen)
      f entry) Q (fun _ => Calm vol s0) t := by
  have hcalm := @safe_utf8ToUtf16 vol s0 current t ht
  have hset : wp (onUtf16 (utf8ToUtf16 current))
      (fun _ u => u.2.entrySet = t.2.entrySet) (fun _ _ => True) t := by
    rw [wp_onUtf16]
    unfold utf8ToUtf16
    rw [wp_ite]
    exact ⟨fun _ => trivial, fun _ => wp_mono _ (writeUnits_bounded current 0 _ ht.bounded.utf16)
      (fun _ _ _ => rfl) fun _ _ _ => trivial⟩
  rw [wp_bind]
  refine wp_mono _ (wp_and _ hcalm hset) ?_ fun _ _ h => h.1
  rintro len u ⟨hu, hset⟩
  rw [wp_bind]
  refine wp_mono _ (findChild_found hs htable hu (by rw [hset]; exact hidle)) ?_ fun _ _ h => h
  rintro o v ⟨hv, hfound⟩
  rw [wp_bind, wp_okOr]
  refine ⟨fun e he => ?_, fun _ => hv⟩
  obtain ⟨j, hj⟩ := hfound e he
  have hentry : HasEntry (D.slots ζ vol.geometry s0.device.sectors) e :=
    hj.hasEntry hs.sound (hends D hD)
  exact hf e v ⟨hv, hj.idle, D, hD, hentry⟩ hentry

lemma lookupFrom_resolved {current : List Char} {rest : List (List Char)} {t : Machine × Workspace}
    (hD : InTree ζ vol.geometry s0.device.sectors D) (ht : Calm vol s0 t)
    (hidle : t.2.entrySet.secondaryLeft = 0) :
    wp (lookupFrom vol D.dir current rest) (fun e u => Resolved ζ vol s0 e u)
      (fun _ => Calm vol s0) t := by
  induction rest generalizing D current t with
  | nil =>
    unfold lookupFrom
    rw [← bind_pure (onUtf16 (utf8ToUtf16 current) >>= _)]
    simp only [bind_assoc]
    exact component_resolved hs htable hends hD ht hidle fun e u hu _ => hu
  | cons next rest ih =>
    refine component_resolved hs htable hends (f := fun entry => do
      let dir ← okOr .notDirectory entry.directory
      lookupFrom vol dir next rest) hD ht hidle fun e u hu hentry => ?_
    rw [wp_bind, wp_okOr]
    refine ⟨fun dir hdir => ?_, fun _ => hu.calm⟩
    exact ih (D := Dir.ofEntry vol.geometry e dir) (.child hD hentry hdir) hu.calm hu.idle

/-- **A path resolves to an entry of the tree.** -/
theorem lookup_resolved (hroot : ∃ n, InTree ζ vol.geometry s0.device.sectors
    (Dir.root vol.geometry n)) {path : List Char} {t : Machine × Workspace} (ht : Calm vol s0 t)
    (hidle : t.2.entrySet.secondaryLeft = 0) :
    wp (lookupWithWorkspace vol path) (fun e u => Resolved ζ vol s0 e u)
      (fun _ => Calm vol s0) t := by
  obtain ⟨n, hn⟩ := hroot
  unfold lookupWithWorkspace
  rcases segments path with _ | ⟨current, rest⟩
  · exact ht
  · exact lookupFrom_resolved hs htable hends hn ht hidle

end Paths

end ExfatEmbedded.Tree
