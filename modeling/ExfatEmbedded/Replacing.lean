import ExfatEmbedded.Components
import ExfatEmbedded.Ownership

/-!
Looking up a path after the entry set of one file was written over.

`Replaced` is what an operation on a file leaves of the tree: the directories have their clusters,
the slots beside those of the set are as they were, and the set is that of another entry with the
same name. A path leads where it led, and where it led to the file it leads to the other entry.
-/

namespace ExfatEmbedded.Replacing

open ExfatEmbedded.Library Exec ExfatEmbedded.Core ExfatEmbedded.Entry ExfatEmbedded.Allocation
open ExfatEmbedded.Lookup ExfatEmbedded.Reading ExfatEmbedded.Scan ExfatEmbedded.Sets
open ExfatEmbedded.ReadSafety ExfatEmbedded.MountSafety ExfatEmbedded.FatWrites
open ExfatEmbedded.StreamSafety ExfatEmbedded.Media ExfatEmbedded.Writing ExfatEmbedded.Tree
open ExfatEmbedded.Commit ExfatEmbedded.Layout ExfatEmbedded.Listing ExfatEmbedded.Slots
open ExfatEmbedded.Decoding ExfatEmbedded.Renaming ExfatEmbedded.Search ExfatEmbedded.Components
open ExfatEmbedded.Ownership ExfatEmbedded.Removal

/-! ### The same table on other media -/

section Table

variable {vol : Volume} {r r' : Machine}

/-- The UpCase table of `r'` is that of `r`. -/
structure SameTable (vol : Volume) (r r' : Machine) : Prop where
  heap : ∀ c ∈ upcaseClusters vol r.device.sectors, vol.geometry.InHeap c
  short : (upcaseClusters vol r.device.sectors).length ≤ vol.geometry.clusterCount
  chain : upcaseClusters vol r'.device.sectors = upcaseClusters vol r.device.sectors
  same : ∀ c ∈ upcaseClusters vol r.device.sectors,
    SameCluster vol.geometry r.device.sectors r'.device.sectors c

/-- One machine on the media of `r` and one on those of `r'`. -/
def Twins (r r' s t : Machine) : Prop := OnMedia r s ∧ OnMedia r' t

lemma tableCluster_spec {s : Machine} {index : ℕ} (hready : Ready vol.geometry r)
    (hheap : ∀ c ∈ upcaseClusters vol r.device.sectors, vol.geometry.InHeap c)
    (hshort : (upcaseClusters vol r.device.sectors).length ≤ vol.geometry.clusterCount)
    (hindex : index < (upcaseClusters vol r.device.sectors).length) (hs : OnMedia r s) :
    wp (clusterAt vol vol.upcase.firstCluster index)
      (fun c t => c = (upcaseClusters vol r.device.sectors).getD index 0 ∧ OnMedia r t)
      (fun _ _ => False) s := by
  have hlen : (upcaseClusters vol r.device.sectors).length =
      clustersFor vol.geometry vol.upcase.byteLength := extent_length
  have hlink {i : ℕ} (hi : i < (upcaseClusters vol r.device.sectors).length) :
      link vol.geometry s.device.sectors vol.upcase.firstCluster i =
        (upcaseClusters vol r.device.sectors).getD i 0 := by
    rw [hs.sectors]
    unfold upcaseClusters
    rw [extent_getD (by omega)]
    rfl
  have hin {i : ℕ} (hi : i < (upcaseClusters vol r.device.sectors).length) :
      vol.geometry.InHeap (link vol.geometry s.device.sectors vol.upcase.firstCluster i) := by
    rw [hlink hi, List.getD_eq_getElem _ _ hi]
    exact hheap _ (List.getElem_mem hi)
  refine wp_mono _ (clusterAt_spec (hs.ready hready) (hin (i := 0) (by omega))) ?_ ?_
  · rintro c t ⟨hq, -, rfl, -⟩
    exact ⟨hlink hindex, hs.quiet hq⟩
  · rintro e t (hf | ⟨-, -, hno⟩)
    · exact Faulted.elim hs.healthy hf
    · exact hno ⟨by omega, fun i hi => hin (by omega)⟩

lemma tableRead_spec {s : Machine} {lba off : ℕ} (hready : Ready vol.geometry r)
    (hlba : InPartition vol.geometry.partition lba) (hoff : off + 2 ≤ vol.geometry.bytesPerSector)
    (hs : OnMedia r s) :
    wp (do
      readSector vol.geometry.bytesPerSector lba
      pure (ofLe (← scratchSlice vol.geometry.bytesPerSector off 2)) : FsM ℕ)
      (fun v t => v = ofLe (Image.slice (r.device.sectors lba) off 2) ∧ OnMedia r t)
      (fun _ _ => False) s := by
  rw [wp_bind]
  refine wp_mono _ (readSector_spec (hs.ready hready) hlba) ?_
    fun _ _ h => (Faulted.elim hs.healthy h).elim
  rintro _ t ⟨hq, hold⟩
  have ht := hs.quiet hq
  rw [wp_bind, wp_scratchSlice (ht.ready hready) hoff, hold.slice hoff, ht.sectors]
  exact ⟨rfl, ht⟩

lemma SameTable.symm (h : SameTable vol r r') : SameTable vol r' r := by
  obtain ⟨hheap, hshort, hchain, hsame⟩ := h
  refine ⟨by rwa [hchain], by rwa [hchain], hchain.symm, fun c hc lba hin => ?_⟩
  rw [hchain] at hc
  exact (hsame c hc lba hin).symm

lemma sim_tableCluster {index : ℕ} (h : SameTable vol r r') (hready : Ready vol.geometry r)
    (hready' : Ready vol.geometry r')
    (hindex : index < (upcaseClusters vol r.device.sectors).length) :
    Sim (Twins r r')
      (fun c s t => c = (upcaseClusters vol r.device.sectors).getD index 0 ∧ Twins r r' s t)
      (Twins r r') (clusterAt vol vol.upcase.firstCluster index)
      (clusterAt vol vol.upcase.firstCluster index) := by
  refine sim_of_wp (fun s t hst => tableCluster_spec hready h.heap h.short hindex hst.1)
    fun s t hst => ?_
  rw [← h.chain] at hindex ⊢
  exact tableCluster_spec hready' h.symm.heap h.symm.short hindex hst.2

lemma sim_upcaseWord (h : SameTable vol r r') (hready : Ready vol.geometry r)
    (hready' : Ready vol.geometry r') (byte : ℕ) :
    Sim (Twins r r') (fun _ => Twins r r') (Twins r r') (upcaseWord vol byte)
      (upcaseWord vol byte) := by
  have hpos := hready.sound.clusterBytes_pos
  have hlen : (upcaseClusters vol r.device.sectors).length =
      clustersFor vol.geometry vol.upcase.byteLength := extent_length
  unfold upcaseWord
  refine sim_bind (sim_checked _ _) fun stop => sim_assume fun hstop => ?_
  refine sim_ite (fun _ => sim_throw fun _ _ h => h) fun hin => ?_
  subst hstop
  dsimp only
  rw [hready.sound.bytesPerCluster_eq, pure_bind]
  refine sim_bind (sim_checked _ _) fun index => sim_assume fun hindex => ?_
  subst hindex
  have hindex : byte / (vol.geometry.bytesPerSector * vol.geometry.sectorsPerCluster) <
      (upcaseClusters vol r.device.sectors).length := by
    rw [hlen, Nat.div_lt_iff_lt_mul hpos]
    have := clustersFor_le hready.sound vol.upcase.byteLength
    unfold clusterSize at this
    omega
  refine sim_bind (sim_tableCluster h hready hready' hindex) fun cluster =>
    sim_assume fun hcluster => ?_
  have hmem : cluster ∈ upcaseClusters vol r.device.sectors := by
    rw [hcluster, List.getD_eq_getElem _ _ hindex]
    exact List.getElem_mem hindex
  have hc := h.heap _ hmem
  refine sim_bind (sim_checked _ _) fun within => sim_assume fun hwithin => ?_
  rw [hready.sound.clusterLba_eq hc, pure_bind, okOr_some, pure_bind]
  refine sim_bind (sim_checked _ _) fun sector => sim_assume fun hsector => ?_
  refine sim_bind (sim_checked _ _) fun lba => sim_assume fun hlba => ?_
  refine sim_bind (sim_checked _ _) fun off => sim_assume fun hoff => ?_
  refine sim_bind (sim_checked _ _) fun stop => sim_assume fun hstop => ?_
  refine sim_ite (fun _ => sim_throw fun _ _ h => h) fun hfit => ?_
  have hcluster' : InCluster vol.geometry cluster lba := by
    rw [hlba, hsector, hwithin]
    exact inCluster_byte (by have := hready.sound.size_ge; omega) (Nat.mod_lt _ hpos)
  have hpart := hcluster'.inPartition hready.sound hc
  refine Sim.mono (sim_of_wp (R := Twins r r') (E := Twins r r')
    (fun s t hst => tableRead_spec hready hpart (by omega) hst.1) fun s t hst => ?_)
    (fun _ _ h => h) (fun _ _ _ h => h.2) fun _ _ h => h
  rw [← h.same cluster hmem lba hcluster']
  exact tableRead_spec hready' hpart (by omega) hst.2

/-- **A comparison comes to the same on media with the same table.** -/
theorem judge_congr (h : SameTable vol r r') (hready : Ready vol.geometry r)
    (hready' : Ready vol.geometry r') (hr : Healthy r) (hr' : Healthy r') (wanted : List ℕ) :
    judge vol r' wanted = judge vol r wanted := by
  funext e
  have hsim := @sim_namesMatch vol _ (sim_upcaseUnit vol (sim_upcaseWord h hready hready'))
    e.nameUtf16 wanted r r' ⟨OnMedia.refl hr, OnMedia.refl hr'⟩
  exact hsim.1.symm

end Table

/-! ### Where an entry was met -/

section Met

variable {g : Geometry} {d : Sectors} {dir : Directory} {es : List DirectoryEntry}
  {x : DirectoryEntry}

/-- A search comes to the set of `x` between sets, behind the entries `es`. -/
structure MetAt (g : Geometry) (d : Sectors) (dir : Directory) (es : List DirectoryEntry)
    (x : DirectoryEntry) (n : ℕ) (pre : List Slot) (prim stream : Slot) (names : List Slot) :
    Prop where
  counted : n < g.clusterCount
  walked : Walked g d dir n
  heap : g.InHeap (clusterOf g d dir n)
  first : dir.noFatChain = true → n = 0
  inside : pre ++ (prim :: stream :: names) <+: extentSlots g d dir (n + 1)
  isSet : IsSet prim stream names
  entry : x = entryOf prim stream names
  before : ∃ e, sweep collect pre (.going EntrySet.new []) = .going e es ∧ e.secondaryLeft = 0

/-- What a search has met it has met for the first time behind entries it had met before. -/
lemma Meets.metAt (h : Meets g d dir es x) : ∃ es' n pre prim stream names,
    es' <+: es ∧ MetAt g d dir es' x n pre prim stream names := by
  obtain ⟨n, pre, e, hn, hw, hheap, hfirst, hpre, hlist⟩ := h
  have hlen : ∀ y ∈ pre, y.raw.length = 32 := fun y hy => extentSlots_length32 (hpre.subset hy)
  obtain ⟨front, prim, stream, names, post, e', es', hsplit⟩ :=
    split_of_mem hlen (.inr ⟨e, hlist⟩) (show x ∈ es ++ [x] by simp)
  have hshown : sweep collect (front ++ (prim :: stream :: names)) (.going EntrySet.new []) =
      .going (afterNames (afterStream prim stream) names) (es' ++ [x]) := by
    rw [sweep_append, hsplit.before, sweep_set hsplit.isSet hsplit.idle, hsplit.entry]
    rfl
  have hwhole : sweep collect post (sweep collect (front ++ (prim :: stream :: names))
      (.going EntrySet.new [])) = .going e (es ++ [x]) := by
    rw [← sweep_append, ← hsplit.slots]
    exact hlist
  have hfront : es' ++ [x] <+: es ++ [x] := collect_mono (.inr ⟨_, hshown⟩) (.inr ⟨e, hwhole⟩)
  have hes : es' <+: es := by
    refine List.prefix_of_prefix_length_le ((List.prefix_append _ _).trans hfront)
      (List.prefix_append _ _) ?_
    have := hfront.length_le
    simpa using this
  refine ⟨es', n, front, prim, stream, names, hes, hn, hw, hheap, hfirst, ?_, hsplit.isSet,
    hsplit.entry, e', hsplit.before, hsplit.idle⟩
  exact (List.IsPrefix.trans ⟨post, hsplit.slots.symm⟩ hpre)

variable {n : ℕ} {pre names : List Slot} {prim stream : Slot}

lemma MetAt.swept (h : MetAt g d dir es x n pre prim stream names) :
    ∃ e, sweep collect (pre ++ (prim :: stream :: names)) (.going EntrySet.new []) =
      .going e (es ++ [x]) := by
  obtain ⟨e, hbefore, hidle⟩ := h.before
  refine ⟨afterNames (afterStream prim stream) names, ?_⟩
  rw [sweep_append, hbefore, sweep_set h.isSet hidle, h.entry]
  rfl

end Met

/-! ### Another set in the place of a file's -/

section Replaced

variable {ζ : Horizon} {vol : Volume} {s t : Machine} {e e' x : DirectoryEntry} {D P : Dir}

/-- From `s` to `t` the set of the file `e` was written over with that of `e'`. -/
structure Replaced (ζ : Horizon) (vol : Volume) (s t : Machine) (e e' : DirectoryEntry) : Prop where
  ready : Ready vol.geometry t
  healthy : Healthy t
  table : SameTable vol s t
  fat : ∀ D, InTree ζ vol.geometry s.device.sectors D →
    ∀ c ∈ D.clusters vol.geometry s.device.sectors,
      fatEntry vol.geometry t.device.sectors c = fatEntry vol.geometry s.device.sectors c
  slots : ∀ D, InTree ζ vol.geometry s.device.sectors D →
    ∀ x ∈ D.slots ζ vol.geometry s.device.sectors, x.loc ∉ e.entryLocs.take e.entryCount →
      slotOn t.device.sectors x.loc = x
  set : ∃ prim stream names,
    (e.entryLocs.take e.entryCount).map (slotOn t.device.sectors) = prim :: stream :: names ∧
      IsSet prim stream names ∧ e' = entryOf prim stream names
  name : e'.nameUtf16 = e.nameUtf16
  file : e.isDirectory = false

/-- The entry `e'` for `e`. -/
def swapped (e e' x : DirectoryEntry) : DirectoryEntry := if x = e then e' else x

lemma Replaced.clusterOf_eq (h : Replaced ζ vol s t e e')
    (hD : InTree ζ vol.geometry s.device.sectors D)
    {j : ℕ} (hj : j ≤ D.count) : clusterOf vol.geometry t.device.sectors D.dir j =
      clusterOf vol.geometry s.device.sectors D.dir j := by
  induction j with
  | zero => rw [clusterOf_zero, clusterOf_zero]
  | succ j ih =>
    cases hfat : D.dir.noFatChain with
    | true => simp [clusterOf, hfat]
    | false =>
      rw [clusterOf_succ hfat, clusterOf_succ hfat, ih (by omega)]
      exact h.fat D hD _ (nthCluster_mem (by omega))

/-- A slot with its contents on the media of `t`. -/
def reread (t : Machine) (x : Slot) : Slot := slotOn t.device.sectors x.loc

lemma meets_reread {g : Geometry} {m n : ℕ} {dir : Directory} {es : List DirectoryEntry}
    {pre : List Slot} {e0 : EntrySet} (hs : Sound g m)
    (hclusters : ∀ i ≤ n + 1, clusterOf g t.device.sectors dir i =
      clusterOf g s.device.sectors dir i)
    (hcounted : n < g.clusterCount) (hwalked : Walked g s.device.sectors dir n)
    (hheap : g.InHeap (clusterOf g s.device.sectors dir n)) (hfirst : dir.noFatChain = true → n = 0)
    (hinside : pre <+: extentSlots g s.device.sectors dir (n + 1))
    (hswept : sweep collect (pre.map (reread t)) (.going EntrySet.new []) =
      .going e0 (es ++ [x])) :
    Meets g t.device.sectors dir es x := by
  have hmap := @extentSlots_map _ s.device.sectors t.device.sectors dir (n + 1) _ hs
    fun i hi => hclusters i (by omega)
  refine ⟨n, _, e0, hcounted, hwalked.congr fun i hi => hclusters i (by omega), ?_, hfirst, ?_,
    hswept⟩
  · rw [hclusters n (by omega)]
    exact hheap
  · rw [hmap]
    exact hinside.map _

lemma Replaced.reread_eq (h : Replaced ζ vol s t e e')
    (hD : InTree ζ vol.geometry s.device.sectors D)
    {xs : List Slot} (hxs : ∀ x ∈ xs, x ∈ D.slots ζ vol.geometry s.device.sectors)
    (hout : ∀ x ∈ xs, x.loc ∉ e.entryLocs.take e.entryCount) : xs.map (reread t) = xs :=
  (List.map_congr_left fun x hx => h.slots D hD x (hxs x hx) (hout x hx)).trans (List.map_id xs)

variable (hwf : WellFormed ζ vol s) (h : Replaced ζ vol s t e e')
  (hP : InTree ζ vol.geometry s.device.sectors P)
  (he : HasEntry (P.slots ζ vol.geometry s.device.sectors) e)

include hwf h hP he

/-! The slots `front` lie before the set of `e` in its directory, and `rest` behind it. -/

section Over

variable {front rest names : List Slot} {prim stream : Slot}

omit h hP he in
lemma beside_set (hD : InTree ζ vol.geometry s.device.sectors D)
    (hset : IsSet prim stream names) (hentry : e = entryOf prim stream names)
    (hslots : front ++ (prim :: stream :: names) ++ rest <+:
      D.slots ζ vol.geometry s.device.sectors) :
    ∀ y ∈ front ++ rest, y ∈ D.slots ζ vol.geometry s.device.sectors ∧
      y.loc ∉ e.entryLocs.take e.entryCount := by
  obtain ⟨own, howners⟩ := hwf.owners
  obtain ⟨post, hpost⟩ := hslots
  have hnodup := nodup_slots hwf.sound howners hD
  rw [← hpost] at hnodup ⊢
  rw [List.map_append, List.map_append, List.map_append] at hnodup
  obtain ⟨hnodup, -, -⟩ := List.nodup_append.mp hnodup
  obtain ⟨hnodup1, -, hdis⟩ := List.nodup_append.mp hnodup
  obtain ⟨-, -, hdis1⟩ := List.nodup_append.mp hnodup1
  intro y hy
  refine ⟨?_, fun hloc => ?_⟩
  · simp only [List.mem_append] at hy ⊢
    tauto
  rw [hentry, entryOf_take_locs hset] at hloc
  rcases List.mem_append.mp hy with hy | hy
  · exact hdis1 _ (List.mem_map_of_mem hy) _ hloc rfl
  · exact hdis _ (List.mem_append_right _ hloc) _ (List.mem_map_of_mem hy) rfl

omit hP he in
/-- A scan which has gone over the set of `e` goes over that of `e'` on the media of `t`. -/
lemma Replaced.swept_over {e1 : EntrySet} {es : List DirectoryEntry}
    (hD : InTree ζ vol.geometry s.device.sectors D) (hset : IsSet prim stream names)
    (hentry : e = entryOf prim stream names)
    (hslots : front ++ (prim :: stream :: names) ++ rest <+:
      D.slots ζ vol.geometry s.device.sectors)
    (hswept : sweep collect (front ++ (prim :: stream :: names) ++ rest)
      (.going EntrySet.new []) = .going e1 es) :
    ∃ es0 later e2, es = es0 ++ [e] ++ later ∧
      sweep collect ((front ++ (prim :: stream :: names) ++ rest).map (reread t))
        (.going EntrySet.new []) = .going e2 (es0 ++ [e'] ++ later) := by
  have hother := beside_set hwf hD hset hentry hslots
  obtain ⟨e0, es0, hsplit⟩ := Split.of_going hset rfl hswept
  obtain ⟨prim', stream', names', hslots', hset', hentry'⟩ := h.set
  obtain ⟨later, e2, hlist, hnew⟩ :=
    hsplit.going (@sweep_replaced _ _ _ _ es0 hset' hsplit.idle) hswept
  have hmid : (prim :: stream :: names).map (reread t) = prim' :: stream' :: names' := by
    rw [← hslots', hentry, entryOf_take_locs hset, List.map_map]
    rfl
  refine ⟨es0, later, e2, by rw [hlist, hentry], ?_⟩
  rw [List.map_append, List.map_append, hmid,
    h.reread_eq hD (fun y hy => (hother y (List.mem_append_left _ hy)).1)
      fun y hy => (hother y (List.mem_append_left _ hy)).2,
    h.reread_eq hD (fun y hy => (hother y (List.mem_append_right _ hy)).1)
      fun y hy => (hother y (List.mem_append_right _ hy)).2, hnew, hentry']

end Over

lemma Replaced.swept {j : Judge} {es : List DirectoryEntry} {n : ℕ} {pre names : List Slot}
    {prim stream : Slot} (hD : InTree ζ vol.geometry s.device.sectors D)
    (hmet : MetAt vol.geometry s.device.sectors D.dir es x n pre prim stream names)
    (hslots : pre ++ (prim :: stream :: names) <+: D.slots ζ vol.geometry s.device.sectors)
    (hall : ∀ y ∈ es, j y = .ok false) (hx : j x = .ok true) (hj : j e' = j e) :
    ∃ es' e0, sweep collect ((pre ++ (prim :: stream :: names)).map (reread t))
        (.going EntrySet.new []) = .going e0 (es' ++ [swapped e e' x]) ∧
      ∀ y ∈ es', j y = .ok false := by
  obtain ⟨own, howners⟩ := hwf.owners
  obtain ⟨e1, hswept⟩ := hmet.swept
  obtain ⟨post, hpost⟩ := id hslots
  have hin : ∀ y ∈ pre ++ (prim :: stream :: names), y ∈ D.slots ζ vol.geometry s.device.sectors :=
    fun y hy => hpost ▸ List.mem_append_left _ hy
  by_cases hout : ∀ y ∈ pre ++ (prim :: stream :: names), y.loc ∉ e.entryLocs.take e.entryCount
  · -- the search did not come to the set
    have hne : x ≠ e := by
      rintro rfl
      refine hout prim (by simp) ?_
      rw [hmet.entry, entryOf_take_locs hmet.isSet]
      simp
    rw [h.reread_eq hD hin hout]
    exact ⟨es, e1, by rw [hswept, swapped, if_neg hne], hall⟩
  -- the directory is that of the file
  push Not at hout
  obtain ⟨y, hy, hyloc⟩ := hout
  obtain ⟨z, hz, hzloc⟩ := List.mem_map.mp (he.locs.1 hyloc)
  obtain rfl := dir_of_slot hwf.sound howners hD hP (hin y hy) hz (by rw [hzloc])
  obtain ⟨prim1, stream1, names1, hset1, hentry1⟩ := id he
  obtain ⟨front, back, hfront⟩ := hset1.inside
  rw [List.append_assoc] at hfront hpost
  -- what the search has gone over begins with what is in front of the set, and the set
  have hcut : ∃ rest, pre ++ (prim :: stream :: names) =
      front ++ (prim1 :: stream1 :: names1) ++ rest := by
    rcases sets_order hset1.isSet hmet.isSet (hfront.trans hpost.symm) with
      ⟨mid, rfl, -⟩ | ⟨rfl, rfl, rfl, rfl, -⟩ | ⟨mid, rfl, -⟩
    · exact ⟨mid ++ (prim :: stream :: names), by rw [List.append_assoc _ mid]⟩
    · exact ⟨[], (List.append_nil _).symm⟩
    · have hinside : pre ++ (prim :: stream :: names) ++ mid ++
        (prim1 :: stream1 :: names1) ++ [] <+:
          D.slots ζ vol.geometry s.device.sectors :=
        ⟨back, by rw [List.append_nil, List.append_assoc, hfront]⟩
      refine absurd hyloc (beside_set hwf hD hset1.isSet hentry1 hinside y ?_).2
      rw [List.append_nil]
      exact List.mem_append_left _ hy
  obtain ⟨rest, hrest⟩ := hcut
  rw [hrest] at hslots hswept ⊢
  obtain ⟨es0, later, e2, hlist, hnew⟩ :=
    h.swept_over hwf hD hset1.isSet hentry1 hslots hswept
  rw [hnew]
  rcases last_cases hlist with ⟨rfl, rfl, rfl⟩ | ⟨r, rfl, rfl⟩
  · exact ⟨es, e2, by rw [List.append_nil, swapped, if_pos rfl], hall⟩
  · have hje : j e = .ok false := hall e (by simp)
    have hne : x ≠ e := by
      rintro rfl
      rw [hje] at hx
      cases hx
    refine ⟨es0 ++ [e'] ++ r, e2, ?_, fun y hy => ?_⟩
    · rw [swapped, if_neg hne, ← List.append_assoc]
    · simp only [List.mem_append, List.mem_singleton] at hy
      rcases hy with (hy | rfl) | hy
      · exact hall y (by simp [hy])
      · rw [hj, hje]
      · exact hall y (by simp [hy])

/-- **A search which has found an entry** finds it, or the one in its place, on the media of `t`. -/
theorem Replaced.finds {j : Judge} (hD : InTree ζ vol.geometry s.device.sectors D) (hj : j e' = j e)
    (hfinds : Finds vol.geometry s.device.sectors D.dir j (.ok (some x))) :
    HasEntry (D.slots ζ vol.geometry s.device.sectors) x ∧
      Finds vol.geometry t.device.sectors D.dir j (.ok (some (swapped e e' x))) := by
  rcases hfinds.meets with ho | ho | ⟨es, y, hmeets, hall, hy, ho⟩
  · cases ho
  · cases ho
  have hjy : j y = .ok true ∧ y = x := by
    unfold seek at ho
    rcases hv : j y with (_ | _) | _ | _ <;> rw [hv] at ho <;> simp [verdict] at ho
    exact ⟨rfl, ho.symm⟩
  obtain ⟨hx, rfl⟩ := hjy
  obtain ⟨es', n, pre, prim, stream, names, hes, hmet⟩ := Meets.metAt hmeets
  have hlt := (hwf.allEnd D hD).walked_lt hwf.sound hmet.walked hmet.heap hmet.first
  obtain ⟨e1, hgone⟩ := hmet.swept
  have hslots : pre ++ (prim :: stream :: names) <+: D.slots ζ vol.geometry s.device.sectors :=
    Horizon.prefix_cut (hmet.inside.trans (extentSlots_mono _ _ D.dir hlt)) (live_of_going hgone)
  refine ⟨⟨prim, stream, names, ⟨hmet.isSet, ?_⟩, hmet.entry⟩, ?_⟩
  · refine (List.infix_append' pre _ []).trans ?_
    rw [List.append_nil]
    exact hslots.isInfix
  obtain ⟨es2, e0, hswept, hall2⟩ := h.swept hwf hP he hD hmet hslots
    (fun z hz => hall z (hes.subset hz)) hx hj
  have hclusters : ∀ i ≤ n + 1, clusterOf vol.geometry t.device.sectors D.dir i =
      clusterOf vol.geometry s.device.sectors D.dir i :=
    fun i hi => h.clusterOf_eq hD (by omega)
  have hmeets' : Meets vol.geometry t.device.sectors D.dir es2 (swapped e e' y) :=
    meets_reread hwf.sound hclusters hmet.counted hmet.walked hmet.heap hmet.first hmet.inside
      hswept
  have hjs : j (swapped e e' y) = .ok true := by
    unfold swapped
    split_ifs with heq
    · rw [hj, ← heq, hx]
    · exact hx
  have hend := hmeets'.finds hall2 (by rw [hjs]; simp)
  unfold seek at hend
  rw [hjs] at hend
  exact hend

lemma Replaced.seekName (hs : Healthy s) (hD : InTree ζ vol.geometry s.device.sectors D)
    {name : List Char} {a b a' : Machine × Workspace} (ha : Idle vol s a) (hb : Idle vol t b)
    (hrun : seekName vol D.dir name a = (.ok (some x), a')) :
    Idle vol s a' ∧ HasEntry (D.slots ζ vol.geometry s.device.sectors) x ∧
      ∃ b', seekName vol D.dir name b = (.ok (some (swapped e e' x)), b') ∧ Idle vol t b' := by
  have hname : ValidName name := by
    by_contra hname
    obtain ⟨err, -, hall⟩ := @seekName_invalid D.dir name hname
    have herr := hall vol a
    rw [hrun] at herr
    cases herr
  obtain ⟨hfinds, hidle⟩ :=
    (wp_ok hrun).mp (seekName_finds hwf.ready hwf.table hs hname ha)
  have hjudge := judge_congr h.table hwf.ready h.ready hs h.healthy (utf16Of name)
  have hsame : judge vol s (utf16Of name) e' = judge vol s (utf16Of name) e := by
    unfold judge
    rw [h.name]
  obtain ⟨hentry, hnew⟩ := h.finds hwf hP he hD hsame hfinds
  refine ⟨hidle x rfl, hentry, ?_⟩
  have hspec := @seekName_finds vol t D.dir name h.ready hwf.table h.healthy hname b hb
  rw [hjudge] at hspec
  rcases hb' : Components.seekName vol D.dir name b with ⟨o | err | _, b'⟩
  · obtain ⟨hfinds', hidle'⟩ := (wp_ok hb').mp hspec
    have ho := Outcome.ok.inj (hfinds'.unique hnew)
    subst ho
    exact ⟨b', rfl, hidle' _ rfl⟩
  · have hfinds' := (wp_err hb').mp hspec
    cases hfinds'.unique hnew
  · unfold wp at hspec
    rw [hb'] at hspec
    exact hspec.elim

lemma Replaced.lookupFrom (hs : Healthy s) (hD : InTree ζ vol.geometry s.device.sectors D)
    {name : List Char} {rest : List (List Char)} {a b : Machine × Workspace} (ha : Idle vol s a)
    (hb : Idle vol t b) (hrun : (lookupFrom vol D.dir name rest a).1 = .ok x) :
    (lookupFrom vol D.dir name rest b).1 = .ok (swapped e e' x) := by
  induction rest generalizing D name a b with
  | nil =>
    rw [lookupFrom_nil] at hrun ⊢
    rcases hseek : Components.seekName vol D.dir name a with ⟨(_ | y) | err | _, a'⟩
    · rw [bind_ok hseek] at hrun
      cases hrun
    · rw [bind_ok hseek] at hrun
      cases hrun
      obtain ⟨-, -, b', hseek', -⟩ := h.seekName hwf hP he hs hD ha hb hseek
      rw [bind_ok hseek']
      rfl
    · rw [bind_err hseek] at hrun
      cases hrun
    · rw [bind_apply, hseek] at hrun
      cases hrun
  | cons next rest ih =>
    rw [lookupFrom_cons] at hrun ⊢
    rcases hseek : Components.seekName vol D.dir name a with ⟨(_ | y) | err | _, a'⟩
    · rw [bind_ok hseek] at hrun
      cases hrun
    · rw [bind_ok hseek, okOr_some, pure_bind] at hrun
      rcases hdir : y.directory with _ | dir
      · rw [hdir] at hrun
        cases hrun
      rw [hdir, okOr_some, pure_bind] at hrun
      obtain ⟨ha', hy, b', hseek', hb'⟩ := h.seekName hwf hP he hs hD ha hb hseek
      have hne : y ≠ e := by
        rintro rfl
        unfold DirectoryEntry.directory at hdir
        rw [h.file] at hdir
        cases hdir
      rw [swapped, if_neg hne] at hseek'
      rw [bind_ok hseek', okOr_some, pure_bind, hdir, okOr_some, pure_bind]
      exact ih (D := Dir.ofEntry vol.geometry y dir) (.child hD hy hdir) ha' hb' hrun
    · rw [bind_err hseek] at hrun
      cases hrun
    · rw [bind_apply, hseek] at hrun
      cases hrun

/-- **A path leads where it led**, or to the entry in the place of the file's. -/
theorem Replaced.lookup (hs : Healthy s) {path : List Char}
    (hlookup : (lookup vol path s).1 = .ok x) :
    (lookup vol path t).1 = .ok (swapped e e' x) := by
  obtain ⟨n, hroot⟩ := hwf.rootEnds
  unfold Lookup.lookup at hlookup ⊢
  rw [withNewWorkspace_outcome] at hlookup ⊢
  unfold lookupWithWorkspace at hlookup ⊢
  rcases hpath : segments path with _ | ⟨name, rest⟩
  · rw [hpath] at hlookup
    cases hlookup
  · rw [hpath] at hlookup
    exact h.lookupFrom hwf hP he hs hroot (idle_new vol s) (idle_new vol t) hlookup

end Replaced

end ExfatEmbedded.Replacing
