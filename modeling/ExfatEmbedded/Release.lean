import Mathlib.Data.List.Perm.Subperm
import ExfatEmbedded.Commit

/-!
The two release loops of the program: of `remove` and of `truncate`.
-/

namespace ExfatEmbedded.Release

open ExfatEmbedded.Library Exec ExfatEmbedded.Core ExfatEmbedded.Entry ExfatEmbedded.Allocation
open ExfatEmbedded.Lookup ExfatEmbedded.FileIo ExfatEmbedded.EntryWrite ExfatEmbedded.Mutation
open ExfatEmbedded.Reading ExfatEmbedded.Scan ExfatEmbedded.Sets ExfatEmbedded.ReadSafety
open ExfatEmbedded.MountSafety ExfatEmbedded.FatWrites ExfatEmbedded.StreamSafety
open ExfatEmbedded.Media ExfatEmbedded.Writing ExfatEmbedded.Tree ExfatEmbedded.Commit

/-! ### Freeing clusters -/

/-- The media with a cluster unlinked and marked free. -/
def freed (g : Geometry) (bm : List ℕ) (d : Sectors) (c : ℕ) : Sectors :=
  setBit g bm (setEntry g d c 0) c false

/-- The media with clusters freed one after the other. -/
def released (g : Geometry) (bm : List ℕ) (d : Sectors) (cs : List ℕ) : Sectors :=
  cs.foldl (freed g bm) d

variable {vol : Volume} {bm : List ℕ} {s : Machine} {d : Sectors}

section Freed

variable {n c c' : ℕ} {cs : List ℕ}

lemma used_setEntry (h : Mapped vol bm d) (hs : Sound vol.geometry n) (hc : vol.geometry.InHeap c)
    (v : ℕ) (hc' : Counted vol.geometry c') :
    used vol.geometry bm (setEntry vol.geometry d c v) c' = used vol.geometry bm d c' := by
  refine h.used_congr hs hc' fun c'' _ lba hin => ?_
  rw [setEntry_eq_put, put_of_ne]
  rintro rfl
  exact hin.not_below (hs.fatLba_lt hc)

lemma mapped_setEntry (h : Mapped vol bm d) (hbm : c ∉ bm) (v : ℕ) :
    Mapped vol bm (setEntry vol.geometry d c v) := by
  refine h.congr fun c' hc' => fatEntry_setEntry_ne d v ?_
  rintro rfl
  exact hbm hc'

lemma fatEntry_setBit (hs : Sound vol.geometry n) (b : Bool) (hc' : vol.geometry.InHeap c') :
    fatEntry vol.geometry (setBit vol.geometry bm d c b) c' = fatEntry vol.geometry d c' := by
  have hin := streamPos_inCluster hs bm ((c - 2) / 8)
  by_cases heq : used vol.geometry bm d c = b
  · rw [setBit_of_eq heq]
  · refine fatEntry_congr hs hc' fun lba hbelow => ?_
    rw [setBit_of_ne heq, put_of_ne]
    rintro rfl
    exact hin.not_below hbelow

lemma mapped_setBit (h : Mapped vol bm d) (hs : Sound vol.geometry n) (c : ℕ) (b : Bool) :
    Mapped vol bm (setBit vol.geometry bm d c b) :=
  h.congr fun c' hc' => fatEntry_setBit hs b (h.heap c' hc')

lemma mapped_freed (h : Mapped vol bm d) (hs : Sound vol.geometry n) (hbm : c ∉ bm) :
    Mapped vol bm (freed vol.geometry bm d c) :=
  mapped_setBit (mapped_setEntry h hbm 0) hs c false

lemma used_freed (h : Mapped vol bm d) (hs : Sound vol.geometry n) (hc : vol.geometry.InHeap c)
    (hbm : c ∉ bm) (hc' : Counted vol.geometry c') :
    used vol.geometry bm (freed vol.geometry bm d c) c' =
      if c' = c then false else used vol.geometry bm d c' := by
  have hm := mapped_setEntry h hbm 0
  unfold freed
  rw [hm.used_setBit hs (counted_of_inHeap hs hc) false c' hc', used_setEntry h hs hc 0 hc']

lemma fatEntry_freed (hs : Sound vol.geometry n) (hc' : vol.geometry.InHeap c') (hne : c ≠ c') :
    fatEntry vol.geometry (freed vol.geometry bm d c) c' = fatEntry vol.geometry d c' := by
  unfold freed
  rw [fatEntry_setBit hs false hc', fatEntry_setEntry_ne d 0 hne]

lemma used_released (h : Mapped vol bm d) (hs : Sound vol.geometry n)
    (hheap : ∀ c ∈ cs, vol.geometry.InHeap c) (hbm : ∀ c ∈ cs, c ∉ bm)
    (hc' : Counted vol.geometry c') :
    used vol.geometry bm (released vol.geometry bm d cs) c' =
      (used vol.geometry bm d c' && !decide (c' ∈ cs)) := by
  induction cs generalizing d with
  | nil => simp [released]
  | cons c cs ih =>
    have hc := hheap c List.mem_cons_self
    have hcbm := hbm c List.mem_cons_self
    have hrest := ih (mapped_freed h hs hcbm) (fun x hx => hheap x (List.mem_cons_of_mem _ hx))
      fun x hx => hbm x (List.mem_cons_of_mem _ hx)
    have hcons : released vol.geometry bm d (c :: cs) =
      released vol.geometry bm (freed vol.geometry bm d c) cs := rfl
    rw [hcons, hrest, used_freed h hs hc hcbm hc']
    by_cases hcc : c' = c
    · simp [hcc]
    · simp [hcc]

end Freed

lemma mapped_released {n : ℕ} {cs : List ℕ} (h : Mapped vol bm d) (hs : Sound vol.geometry n)
    (hheap : ∀ c ∈ cs, vol.geometry.InHeap c) (hbm : ∀ c ∈ cs, c ∉ bm) :
    Mapped vol bm (released vol.geometry bm d cs) := by
  induction cs generalizing d with
  | nil => exact h
  | cons c cs ih =>
    exact ih (mapped_freed h hs (hbm c List.mem_cons_self))
      (fun x hx => hheap x (List.mem_cons_of_mem _ hx)) fun x hx =>
      hbm x (List.mem_cons_of_mem _ hx)

/-! ### The loops -/

section Loops

variable {first n : ℕ} {noFatChain : Bool}

/-- The clusters which one release loop of the program comes to, and which are its to free. -/
structure Freeable (vol : Volume) (bm cs : List ℕ) : Prop where
  heap : ∀ c ∈ cs, vol.geometry.InHeap c
  nodup : cs.Nodup
  apart : ∀ c ∈ cs, c ∉ bm

lemma freeCluster_based {c : ℕ} (hs : Base vol bm s) (hc : vol.geometry.InHeap c) (hbm : c ∉ bm)
    {Q : Machine → Prop} {E : Error → Machine → Prop} (hE : ∀ e t, Fails vol bm s e t → E e t)
    (hQ : ∀ t, Became vol bm s t (freed vol.geometry bm s.device.sectors c) → Q t) :
    wp (setFat vol c 0) (fun _ => wp (setBitmap vol c false) (fun _ => Q) E) E s := by
  refine wp_mono _ (setFat_based hs hc hbm) ?_ hE
  intro _ t ht
  refine wp_mono _ (setBitmap_based ht.base (counted_of_inHeap hs.ready.sound hc) hbm) ?_
    fun e u h => hE e u (ht.fails h)
  intro _ u hu
  rw [ht.sectors] at hu
  exact hQ u (ht.trans hu)

lemma truncateRound_based {c : ℕ} (hs : Base vol bm s) (hc : vol.geometry.InHeap c)
    (hbm : c ∉ bm) :
    wp (truncateRound vol noFatChain c)
      (fun r t => r = .inr (nthCluster vol.geometry s.device.sectors c noFatChain 1) ∧
        Became vol bm s t (freed vol.geometry bm s.device.sectors c)) (Fails vol bm s) s := by
  have hlt := hs.ready.sound.inHeap_iff.mp hc
  have hrest {next : ℕ} {t : Machine} (ht : Became vol bm s t s.device.sectors) :
      wp (α := Empty ⊕ ℕ) (do setFat vol c 0; setBitmap vol c false; pure (.inr next))
        (fun r u => r = .inr next ∧
          Became vol bm s u (freed vol.geometry bm s.device.sectors c)) (Fails vol bm s) t := by
    simp only [wp_bind]
    refine freeCluster_based ht.base hc hbm (fun _ _ h => ht.fails h) fun u hu => ?_
    rw [ht.sectors] at hu
    exact ⟨rfl, ht.trans hu⟩
  unfold truncateRound followCluster
  cases noFatChain with
  | true =>
    simp only [if_true, checkedAdd32]
    rw [if_pos (by omega), okOr_some, pure_bind]
    exact hrest (Became.refl hs)
  | false =>
    simp only [Bool.false_eq_true, if_false]
    rw [wp_bind]
    refine wp_mono _ (nextCluster_based hs hc) ?_ fun _ _ h => h
    rintro next t ⟨rfl, ht⟩
    exact hrest ht

lemma truncateLoop_based {i : ℕ} (hs : Base vol bm s)
    (hcs : Freeable vol bm (extent vol.geometry s.device.sectors first noFatChain n)) :
    wp (loop (fun _ cluster => truncateRound vol noFatChain cluster) i n first)
      (fun _ t => Became vol bm s t (released vol.geometry bm s.device.sectors
        (extent vol.geometry s.device.sectors first noFatChain n))) (Fails vol bm s) s := by
  set d := s.device.sectors with hd
  have hheap {j : ℕ} (hj : j < n) :=
    hcs.heap _ (@nthCluster_mem vol.geometry d first n noFatChain j hj)
  have hbm {j : ℕ} (hj : j < n) :=
    hcs.apart _ (@nthCluster_mem vol.geometry d first n noFatChain j hj)
  refine wp_loop_post (fun j c t => ∃ k, j = i + k ∧
    (k < n → c = nthCluster vol.geometry d first noFatChain k) ∧
    (∀ l, k ≤ l → l < n → fatEntry vol.geometry t.device.sectors
      (nthCluster vol.geometry d first noFatChain l) =
        fatEntry vol.geometry d (nthCluster vol.geometry d first noFatChain l)) ∧
    Became vol bm s t (released vol.geometry bm d
      (extent vol.geometry d first noFatChain k))) ?_ ?_ ?_
  · exact ⟨0, rfl, fun _ => nthCluster_zero.symm, fun _ _ _ => rfl, Became.refl hs⟩
  · rintro j c t h1 h2 ⟨k, rfl, hc, hlinks, ht⟩
    have hk : k < n := by omega
    obtain rfl := hc hk
    refine wp_mono _ (truncateRound_based ht.base (hheap hk) (hbm hk)) ?_ fun _ _ h => ht.fails h
    rintro r u ⟨rfl, hu⟩
    have hnext : nthCluster vol.geometry t.device.sectors
        (nthCluster vol.geometry d first noFatChain k) noFatChain 1 =
        nthCluster vol.geometry d first noFatChain (k + 1) := by
      cases hfat : noFatChain with
      | true => rfl
      | false =>
        subst hfat
        have hlink := hlinks k le_rfl hk
        change fatEntry vol.geometry t.device.sectors (link vol.geometry d first k) =
          link vol.geometry d first (k + 1)
        rw [link_succ]
        exact hlink
    rw [hnext]
    refine ⟨k + 1, by omega, fun _ => rfl, fun l hl hln => ?_, ?_⟩
    · rw [hu.sectors, fatEntry_freed ht.base.ready.sound (hheap hln), hlinks l (by omega) hln]
      intro heq
      have := nthCluster_inj hcs.nodup hk hln heq
      omega
    · have htu := ht.trans hu
      rw [ht.sectors] at htu
      have hsnoc : extent vol.geometry d first noFatChain (k + 1) =
          extent vol.geometry d first noFatChain k ++
            [nthCluster vol.geometry d first noFatChain k] := by
        simp [extent, List.range_succ]
      rw [hsnoc]
      unfold released at htu ⊢
      rw [List.foldl_append]
      exact htu
  · rintro c t ⟨k, hk, -, -, ht⟩
    obtain rfl : k = n := by omega
    exact ht

end Loops

/-! ### Removal -/

/-- The clusters which `release_entry_clusters` frees: of a chain all, of an extent without one the
first, again and again. -/
def freedBy (g : Geometry) (d : Sectors) (first : ℕ) (noFatChain : Bool) (n : ℕ) : List ℕ :=
  if noFatChain then List.replicate n first else extent g d first noFatChain n

section Removal

variable {first n : ℕ} {noFatChain : Bool}

lemma mem_freedBy {g : Geometry} {c : ℕ} (h : c ∈ freedBy g d first noFatChain n) :
    c ∈ extent g d first noFatChain n := by
  unfold freedBy at h
  split_ifs at h with hfat
  · obtain ⟨hn, rfl⟩ := List.mem_replicate.mp h
    exact mem_extent.mpr ⟨0, by omega, nthCluster_zero⟩
  · exact h

/-- The end of a round of `release_entry_clusters`: the check of the next cluster. -/
def afterFreed (vol : Volume) (cluster : ℕ) : Option ℕ → FsM (Empty ⊕ ℕ)
  | none => pure (.inr cluster)
  | some next =>
    if next < 2 ∨ saturatingAdd32 vol.geometry.clusterCount 2 ≤ next then throw .corrupt
    else pure (.inr next)

lemma releaseRound_eq (noFatChain : Bool) (clusters index cluster : ℕ) :
    releaseRound vol noFatChain clusters index cluster = (do
      let nextIndex ← u64 (index + 1)
      let next ← (if noFatChain ∨ nextIndex = clusters then pure none
        else some <$> nextCluster vol cluster : FsM (Option ℕ))
      setFat vol cluster 0
      setBitmap vol cluster false
      afterFreed vol cluster next) := by
  unfold releaseRound
  refine bind_congr fun _ => bind_congr fun next => bind_congr fun _ => bind_congr fun _ => ?_
  cases next <;> rfl

lemma releaseLoop_based (hs : Base vol bm s) (hn : n < 2 ^ 64)
    (hcs : Freeable vol bm (extent vol.geometry s.device.sectors first noFatChain n)) :
    wp (loop (releaseRound vol noFatChain n) 0 n first)
      (fun _ t => Became vol bm s t (released vol.geometry bm s.device.sectors
        (freedBy vol.geometry s.device.sectors first noFatChain n))) (Fails vol bm s) s := by
  set d := s.device.sectors with hd
  have hsound := hs.ready.sound
  -- the cluster of round `k`
  let nth (k : ℕ) : ℕ := if noFatChain then first else nthCluster vol.geometry d first noFatChain k
  have hmem {k : ℕ} (hk : k < n) : nth k ∈ extent vol.geometry d first noFatChain n := by
    simp only [nth]
    split_ifs
    · exact mem_extent.mpr ⟨0, by omega, nthCluster_zero⟩
    · exact nthCluster_mem hk
  refine wp_loop_post (fun k c t => (k < n → c = nth k) ∧
    (noFatChain = false → ∀ l, k ≤ l → l < n → fatEntry vol.geometry t.device.sectors (nth l) =
      fatEntry vol.geometry d (nth l)) ∧
    Became vol bm s t (released vol.geometry bm d (freedBy vol.geometry d first noFatChain k)))
    ?_ ?_ ?_
  · refine ⟨fun _ => ?_, fun _ _ _ _ => rfl, ?_⟩
    · simp [nth]
    · have hnil : freedBy vol.geometry d first noFatChain 0 = [] := by simp [freedBy, extent]
      rw [hnil]
      exact Became.refl hs
  · rintro k c t - hk ⟨hc, hlinks, ht⟩
    rw [Nat.zero_add] at hk
    obtain rfl := hc hk
    have hheap := hcs.heap _ (hmem hk)
    have hbm := hcs.apart _ (hmem hk)
    have hsnoc : freedBy vol.geometry d first noFatChain (k + 1) =
        freedBy vol.geometry d first noFatChain k ++ [nth k] := by
      unfold freedBy
      simp only [nth]
      split_ifs
      · exact List.replicate_succ'
      · simp [extent, List.range_succ]
    -- the cluster is freed, and what follows it decides on the next round
    have hround {next : Option ℕ} {u : Machine} (hu : Became vol bm t u t.device.sectors)
        (hnext : ∀ c, next = some c → vol.geometry.InHeap c ∧ (k + 1 < n → c = nth (k + 1)))
        (hnone : next = none → k + 1 < n → nth k = nth (k + 1)) :
        wp (setFat vol (nth k) 0) (fun _ => wp (setBitmap vol (nth k) false) (fun _ =>
          wp (afterFreed vol (nth k) next)
            (Sum.elim (fun r u => Became vol bm s u (released vol.geometry bm d
                (freedBy vol.geometry d first noFatChain n)))
              fun c u => (k + 1 < n → c = nth (k + 1)) ∧
                (noFatChain = false → ∀ l, k + 1 ≤ l → l < n →
                  fatEntry vol.geometry u.device.sectors (nth l) =
                    fatEntry vol.geometry d (nth l)) ∧
                Became vol bm s u (released vol.geometry bm d
                  (freedBy vol.geometry d first noFatChain (k + 1)))) (Fails vol bm s))
          (Fails vol bm s)) (Fails vol bm s) u := by
      have htu := ht.trans hu
      rw [ht.sectors] at htu
      refine freeCluster_based htu.base hheap hbm (fun _ _ h => htu.fails h) fun v hv => ?_
      have hlinks' : noFatChain = false → ∀ l, k + 1 ≤ l → l < n →
          fatEntry vol.geometry v.device.sectors (nth l) = fatEntry vol.geometry d (nth l) := by
        intro hfat l hl hln
        rw [hv.sectors, fatEntry_freed hsound (hcs.heap _ (hmem hln)), hu.sectors,
          hlinks hfat l (by omega) hln]
        intro heq
        simp only [nth, hfat, Bool.false_eq_true, if_false] at heq
        have := nthCluster_inj (hfat ▸ hcs.nodup) hk hln heq
        omega
      have hsv := htu.trans hv
      rw [htu.sectors] at hsv
      have hdone : Became vol bm s v (released vol.geometry bm d
          (freedBy vol.geometry d first noFatChain (k + 1))) := by
        rw [hsnoc]
        unfold released at hsv ⊢
        rw [List.foldl_append]
        exact hsv
      cases next with
      | none => exact ⟨fun hlt => hnone rfl hlt, hlinks', hdone⟩
      | some next =>
        obtain ⟨hin, heq⟩ := hnext next rfl
        rw [afterFreed, if_neg (by unfold Geometry.InHeap at hin; omega)]
        exact ⟨heq, hlinks', hdone⟩
    rw [releaseRound_eq]
    simp only [wp_bind, wp_u64]
    refine ⟨by omega, ?_⟩
    by_cases hlast : noFatChain = true ∨ k + 1 = n
    · rw [if_pos hlast, wp_pure]
      refine @hround none _ (Became.refl ht.base) (fun _ h => absurd h.symm (Option.some_ne_none _))
        fun _ hlt => ?_
      have hfat : noFatChain = true := hlast.resolve_right (by omega)
      simp [nth, hfat]
    · rw [not_or] at hlast
      have hfat : noFatChain = false := by simpa using hlast.1
      have hlt : k + 1 < n := by omega
      rw [if_neg (by tauto), wp_map]
      refine wp_mono _ (nextCluster_based ht.base hheap) ?_ fun _ _ h => ht.fails h
      rintro next u ⟨rfl, hu⟩
      have hnext : fatEntry vol.geometry t.device.sectors (nth k) = nth (k + 1) := by
        rw [hlinks hfat k le_rfl hk]
        simp only [nth, hfat, Bool.false_eq_true, if_false]
        exact (link_succ _ _ _ _).symm
      refine @hround (some _) _ hu (fun c hc => ?_) fun h => absurd h (Option.some_ne_none _)
      cases hc
      rw [hnext]
      exact ⟨hcs.heap _ (hmem hlt), fun _ => rfl⟩
  · rintro c t ⟨-, -, ht⟩
    rw [Nat.zero_add] at ht
    exact ht

lemma releaseEntryClusters_based {entry : DirectoryEntry} (hs : Base vol bm s)
    (hlen : entry.dataLength < 2 ^ 64) (hfirst : entry.dataLength ≠ 0 → 2 ≤ entry.firstCluster)
    (hcs : Freeable vol bm (streamOf vol.geometry s.device.sectors entry)) :
    wp (releaseEntryClusters vol entry)
      (fun _ t => Became vol bm s t (released vol.geometry bm s.device.sectors
        (freedBy vol.geometry s.device.sectors entry.firstCluster entry.noFatChain
          (clustersFor vol.geometry entry.dataLength)))) (Fails vol bm s) s := by
  have hpos := hs.ready.sound.clusterBytes_pos
  unfold releaseEntryClusters
  rw [wp_ite]
  refine ⟨fun hnone => ?_, fun hsome => ?_⟩
  · have hz : entry.dataLength = 0 := by
      by_contra hne
      have := hfirst hne
      omega
    have hnil : freedBy vol.geometry s.device.sectors entry.firstCluster entry.noFatChain
        (clustersFor vol.geometry entry.dataLength) = [] := by
      simp [freedBy, clustersFor, hz, extent]
    rw [hnil]
    exact Became.refl hs
  · rw [not_or] at hsome
    have hcount : clustersFor vol.geometry entry.dataLength =
        (entry.dataLength + clusterSize vol.geometry - 1) / clusterSize vol.geometry :=
      if_neg hsome.2
    simp only [hs.ready.sound.bytesPerCluster_eq, wp_bind, wp_pure, wp_divCeil]
    refine ⟨by omega, ?_⟩
    rw [← hcount]
    refine wp_mono _ (releaseLoop_based hs ?_ hcs) (fun _ _ h => h) fun _ _ h => h
    have hle : clustersFor vol.geometry entry.dataLength ≤ entry.dataLength := by
      rw [hcount]
      refine Nat.div_le_of_le_mul ?_
      have hone : 1 ≤ clusterSize vol.geometry := hpos
      obtain ⟨a, ha⟩ : ∃ a, clusterSize vol.geometry = a + 1 := ⟨_, (Nat.sub_add_cancel hone).symm⟩
      have hmul : a ≤ a * entry.dataLength := Nat.le_mul_of_pos_right a (by omega)
      rw [ha, Nat.add_mul, Nat.one_mul]
      omega
    omega

end Removal

/-! ### Truncation -/

section Truncation

variable {first n keep : ℕ} {noFatChain : Bool} {file : File}

lemma nthCluster_add (g : Geometry) (d : Sectors) (first : ℕ) (noFatChain : Bool) (i j : ℕ) :
    nthCluster g d (nthCluster g d first noFatChain i) noFatChain j =
      nthCluster g d first noFatChain (i + j) := by
  unfold nthCluster
  split_ifs
  · omega
  · exact (link_add _ _ _ _ _).symm

lemma extent_drop (g : Geometry) (d : Sectors) (first : ℕ) (noFatChain : Bool) (n keep : ℕ) :
    extent g d (nthCluster g d first noFatChain keep) noFatChain (n - keep) =
      (extent g d first noFatChain n).drop keep := by
  refine List.ext_getElem (by simp) fun i h1 h2 => ?_
  simp [extent, nthCluster_add]

lemma Freeable.drop {cs : List ℕ} (h : Freeable vol bm cs) (k : ℕ) : Freeable vol bm (cs.drop k) :=
  ⟨fun c hc => h.heap c (List.mem_of_mem_drop hc), h.nodup.sublist (List.drop_sublist k cs),
    fun c hc => h.apart c (List.mem_of_mem_drop hc)⟩

lemma length_le_heap {m : ℕ} {g : Geometry} {cs : List ℕ} (hs : Sound g m)
    (hheap : ∀ c ∈ cs, g.InHeap c) (hnodup : cs.Nodup) : cs.length ≤ g.clusterCount := by
  have hsub : cs ⊆ List.range' 2 g.clusterCount := fun c hc => by
    have := hs.inHeap_iff.mp (hheap c hc)
    exact List.mem_range'_1.mpr ⟨this.1, by omega⟩
  simpa using (hnodup.subperm hsub).length_le

lemma Freeable.length_le {cs : List ℕ} (h : Freeable vol bm cs) {m : ℕ}
    (hs : Sound vol.geometry m) : cs.length ≤ vol.geometry.clusterCount :=
  length_le_heap hs h.heap h.nodup

/-- The media with the clusters of a stream behind the first `keep` released. -/
def shortened (g : Geometry) (bm : List ℕ) (d : Sectors) (first : ℕ) (noFatChain : Bool)
    (n keep : ℕ) : Sectors :=
  released g bm
    (if keep = 0 then d else setEntry g d (nthCluster g d first noFatChain (keep - 1)) 0xffffffff)
    ((extent g d first noFatChain n).drop keep)

lemma lastKept_based (hs : Base vol bm s) (hkeep : 0 < keep)
    (hlt : keep < n)
    (hcs : Freeable vol bm (extent vol.geometry s.device.sectors file.firstCluster
      file.noFatChain n)) :
    wp (lastKept vol file keep)
      (fun c t => c = nthCluster vol.geometry s.device.sectors file.firstCluster file.noFatChain
        (keep - 1) ∧ Became vol bm s t s.device.sectors) (Fails vol bm s) s := by
  have hsound := hs.ready.sound
  have hheap {k : ℕ} (hk : k < n) := hsound.inHeap_iff.mp (hcs.heap _
    (@nthCluster_mem vol.geometry s.device.sectors file.firstCluster n file.noFatChain k hk))
  have hlast := hheap hlt
  have hlen := hcs.length_le hsound
  rw [extent_length] at hlen
  have hcount := hsound.clusterCount
  unfold lastKept
  cases hfat : file.noFatChain with
  | true =>
    rw [hfat] at hlast
    simp only [nthCluster, if_true] at hlast
    have hstop : checkedAdd32 file.firstCluster keep = some (file.firstCluster + keep) :=
      if_pos (by omega)
    have htry : tryU32 keep = some keep := if_pos (by omega)
    have hback : checkedSub (file.firstCluster + keep) 1 = some (file.firstCluster + keep - 1) :=
      if_pos (by omega)
    simp only [if_true, htry, okOr_some, pure_bind, hstop, hback]
    refine ⟨?_, Became.refl hs⟩
    simp only [nthCluster, if_true]
    omega
  | false =>
    rw [hfat] at hcs
    simp only [Bool.false_eq_true, if_false]
    refine wp_mono _ (clusterAt_nth hs.ready hcs.heap (fun i hi => ?_) (by simpa using hlen)
      (by rw [extent_length]; omega)) ?_ fun _ _ h => h.fails hs
    · rw [extent_length] at hi
      rw [extent_getD hi]
      rfl
    · rintro c t ⟨rfl, ht⟩
      exact ⟨extent_getD (by omega), ht.same hs⟩

lemma followCluster_based {c : ℕ} (hs : Base vol bm s) (hc : vol.geometry.InHeap c) :
    wp (followCluster vol noFatChain c)
      (fun next t => next = nthCluster vol.geometry s.device.sectors c noFatChain 1 ∧
        Became vol bm s t s.device.sectors) (Fails vol bm s) s := by
  have hlt := hs.ready.sound.inHeap_iff.mp hc
  unfold followCluster
  cases noFatChain with
  | true =>
    simp only [if_true, checkedAdd32]
    rw [if_pos (by omega), okOr_some]
    exact ⟨rfl, Became.refl hs⟩
  | false =>
    simp only [Bool.false_eq_true, if_false]
    exact nextCluster_based hs hc

lemma releaseTail_based (hs : Base vol bm s) (hkeep : 0 < keep) (hlt : keep < n)
    (hcs : Freeable vol bm (extent vol.geometry s.device.sectors file.firstCluster
      file.noFatChain n)) :
    wp (releaseTail vol file keep n)
      (fun _ t => Became vol bm s t (shortened vol.geometry bm s.device.sectors file.firstCluster
        file.noFatChain n keep)) (Fails vol bm s) s := by
  set d := s.device.sectors with hd
  have hsound := hs.ready.sound
  have hmem {k : ℕ} (hk : k < n) :=
    @nthCluster_mem vol.geometry d file.firstCluster n file.noFatChain k hk
  have hlast := hmem (k := keep - 1) (by omega)
  unfold releaseTail
  rw [wp_bind]
  refine wp_mono _ (lastKept_based hs hkeep hlt hcs) ?_ fun _ _ h => h
  rintro last t ⟨rfl, ht⟩
  rw [wp_bind]
  refine wp_mono _ (followCluster_based ht.base (hcs.heap _ hlast)) ?_ fun _ _ h => ht.fails h
  rintro next u ⟨rfl, hu⟩
  rw [ht.sectors, nthCluster_add, show keep - 1 + 1 = keep by omega]
  have htu := ht.trans hu
  rw [ht.sectors] at htu
  rw [wp_bind]
  refine wp_mono _ (setFat_based htu.base (hcs.heap _ hlast) (hcs.apart _ hlast)) ?_
    fun _ _ h => htu.fails h
  intro _ v hv
  rw [htu.sectors] at hv
  have hsv := htu.trans hv
  -- the clusters behind the last kept one are where they were
  have hext : extent vol.geometry v.device.sectors
      (nthCluster vol.geometry d file.firstCluster file.noFatChain keep) file.noFatChain
      (n - keep) =
      (extent vol.geometry d file.firstCluster file.noFatChain n).drop keep := by
    rw [← extent_drop]
    refine extent_eq fun _ i hi => ?_
    rw [hsv.sectors, nthCluster_add]
    refine fatEntry_setEntry_ne _ _ fun heq => ?_
    have := nthCluster_inj hcs.nodup (by omega) (by omega) heq
    omega
  simp only [wp_bind]
  refine wp_mono _ (truncateLoop_based hsv.base (by rw [hext]; exact hcs.drop keep)) ?_
    fun _ _ h => hsv.fails h
  intro _ w hw
  rw [hext, hsv.sectors] at hw
  unfold shortened
  rw [if_neg (by omega)]
  exact hsv.trans hw

/-- The handle behind a truncation. -/
def truncatedFile (g : Geometry) (file : File) (len : ℕ) : File :=
  let keep := clustersFor g len
  let shrunk := if keep < clustersFor g file.dataLength then
    { file with
      firstCluster := if keep = 0 then 0 else file.firstCluster
      dataLength := keep * clusterSize g
      cachedClusterIndex := none }
    else file
  { shrunk with validLength := len, position := min file.position len }

/-- The media behind a truncation. -/
def truncatedMedia (g : Geometry) (bm : List ℕ) (d : Sectors) (file : File) (len : ℕ) : Sectors :=
  let allocated := clustersFor g file.dataLength
  committed
    (if clustersFor g len < allocated then
      shortened g bm d file.firstCluster file.noFatChain allocated (clustersFor g len) else d)
    (truncatedFile g file len)

lemma clustersOf_eq (hs : Ready vol.geometry s) (len : ℕ) :
    clustersOf len (clusterSize vol.geometry) = pure (clustersFor vol.geometry len) := by
  have hpos := hs.sound.clusterBytes_pos
  unfold clustersOf clustersFor divCeil
  split_ifs
  · rfl
  · rw [assert, if_pos hpos.ne']
    rfl

/-- **Truncation** frees the clusters behind those the new length needs and commits the handle. -/
theorem truncate_based {len : ℕ} (hs : Base vol bm s) (hfile : HandlePlaced vol.geometry bm file)
    (hlen : len ≤ file.validLength)
    (hcs : Freeable vol bm (extent vol.geometry s.device.sectors file.firstCluster
      file.noFatChain (clustersFor vol.geometry file.dataLength))) :
    wp (truncate vol len)
      (fun _ u => u.2 = truncatedFile vol.geometry file len ∧
        Became vol bm s u.1 (truncatedMedia vol.geometry bm s.device.sectors file len))
      (fun e u => Fails vol bm s e u.1) (s, file) := by
  have hsound := hs.ready.sound
  have hcommit {t : Machine} {d : Sectors} {shrunk : File} (ht : Became vol bm s t d)
      (hcount : shrunk.entryCount = file.entryCount) (hlocs : shrunk.entryLocs = file.entryLocs)
      (hprim : shrunk.primary = file.primary) (hstream : shrunk.stream = file.stream) :
      wp (updateStream vol shrunk) (fun _ u => shrunk = shrunk ∧
        Became vol bm s u (committed d shrunk)) (Fails vol bm s) t := by
    have hplaced : HandlePlaced vol.geometry bm shrunk := by
      obtain ⟨h1, h2, h3, h4⟩ := hfile
      exact ⟨by rwa [hcount, hlocs], by rwa [hprim, hcount, hlocs], by rwa [hstream, hcount, hlocs],
        by rwa [hcount, hlocs]⟩
    refine wp_mono _ (updateStream_based ht.base hplaced) ?_ fun _ _ h => ht.fails h
    intro _ u hu
    rw [ht.sectors] at hu
    exact ⟨rfl, ht.trans hu⟩
  unfold truncate
  simp only [hsound.bytesPerCluster_eq, pure_bind, wp_bind, wp_getSnd, wp_ite, wp_throw]
  refine ⟨fun hbad => absurd hlen (by omega), fun _ => ?_⟩
  rw [← show clusterSize vol.geometry =
    vol.geometry.bytesPerSector * vol.geometry.sectorsPerCluster from rfl,
    clustersOf_eq hs.ready, clustersOf_eq hs.ready]
  simp only [wp_lift, wp_pure, wp_when, wp_modifySnd]
  refine ⟨fun hlt => ?_, fun hge => ?_⟩
  swap
  · have hmedia : truncatedMedia vol.geometry bm s.device.sectors file len =
        committed s.device.sectors (truncatedFile vol.geometry file len) := by
      simp only [truncatedMedia, if_neg hge]
    have hfile' : { file with validLength := len, position := min file.position len } =
        truncatedFile vol.geometry file len := by
      simp only [truncatedFile, if_neg hge]
    rw [hmedia, hfile']
    refine hcommit (Became.refl hs) ?_ ?_ ?_ ?_ <;> simp only [truncatedFile, if_neg hge]
  have hbound : clustersFor vol.geometry len * clusterSize vol.geometry < 2 ^ 64 := by
    have h1 := hcs.length_le hsound
    rw [extent_length] at h1
    have h2 := hsound.clusterCount.2
    have h3 := hsound.clusterBytes
    calc clustersFor vol.geometry len * clusterSize vol.geometry ≤ 2 ^ 32 * 2 ^ 25 :=
          Nat.mul_le_mul (by omega) h3
      _ < 2 ^ 64 := by decide
  have hmedia : truncatedMedia vol.geometry bm s.device.sectors file len =
      committed (shortened vol.geometry bm s.device.sectors file.firstCluster file.noFatChain
        (clustersFor vol.geometry file.dataLength) (clustersFor vol.geometry len))
        (truncatedFile vol.geometry file len) := by
    simp only [truncatedMedia, if_pos hlt]
  unfold truncateClusters truncateClusters.shrink checkedMul64
  simp only [wp_bind, wp_getSnd, wp_ite, wp_lift, wp_modifySnd]
  rw [if_pos hbound]
  refine ⟨fun hz => ?_, fun hne => ?_⟩
  · unfold releaseAll
    simp only [wp_bind]
    refine wp_mono _ (truncateLoop_based hs hcs) ?_ fun _ _ h => h
    intro _ t ht
    have hfile' : { file with
        firstCluster := 0
        dataLength := clustersFor vol.geometry len * clusterSize vol.geometry
        cachedClusterIndex := none
        validLength := len
        position := min file.position len } = truncatedFile vol.geometry file len := by
      simp only [truncatedFile, if_pos hlt, if_pos hz]
    have hshort : shortened vol.geometry bm s.device.sectors file.firstCluster file.noFatChain
        (clustersFor vol.geometry file.dataLength) (clustersFor vol.geometry len) =
        released vol.geometry bm s.device.sectors (extent vol.geometry s.device.sectors
          file.firstCluster file.noFatChain (clustersFor vol.geometry file.dataLength)) := by
      unfold shortened
      rw [if_pos hz, hz, List.drop_zero]
    simp only [wp_okOr, wp_pure]
    refine ⟨fun len' hlen' => ?_, fun h => absurd h (Option.some_ne_none _)⟩
    cases hlen'
    rw [hmedia, hfile', hshort]
    refine hcommit ht ?_ ?_ ?_ ?_ <;> simp only [truncatedFile, if_pos hlt]
  · refine wp_mono _ (releaseTail_based hs (by omega) hlt hcs) ?_ fun _ _ h => h
    intro _ t ht
    have hfile' : { file with
        dataLength := clustersFor vol.geometry len * clusterSize vol.geometry
        cachedClusterIndex := none
        validLength := len
        position := min file.position len } = truncatedFile vol.geometry file len := by
      simp only [truncatedFile, if_pos hlt, if_neg hne]
    simp only [wp_okOr]
    refine ⟨fun len' hlen' => ?_, fun h => absurd h (Option.some_ne_none _)⟩
    cases hlen'
    rw [hmedia, hfile']
    refine hcommit ht ?_ ?_ ?_ ?_ <;> simp only [truncatedFile, if_pos hlt]

end Truncation

end ExfatEmbedded.Release
