import ExfatEmbedded.Allocator
import ExfatEmbedded.Truncating

/-!
How `append` grows a stream: it claims clusters one at a time and links them.
-/

namespace ExfatEmbedded.Growth

open ExfatEmbedded.Library Exec ExfatEmbedded.Core ExfatEmbedded.Entry ExfatEmbedded.Allocation
open ExfatEmbedded.Lookup ExfatEmbedded.FileIo ExfatEmbedded.EntryWrite ExfatEmbedded.Mutation
open ExfatEmbedded.Reading ExfatEmbedded.Listing ExfatEmbedded.ReadSafety ExfatEmbedded.MountSafety
open ExfatEmbedded.FatWrites ExfatEmbedded.Media ExfatEmbedded.Writing ExfatEmbedded.Tree
open ExfatEmbedded.Commit ExfatEmbedded.Release ExfatEmbedded.Readback ExfatEmbedded.Truncating
open ExfatEmbedded.Allocator

/-! ### Linking -/

/-- From `s` to `t` FAT entries of `cs` and contents of clusters beside the bitmap changed. -/
structure Relinked (vol : Volume) (bm : List ℕ) (s t : Machine) (cs : List ℕ) : Prop where
  follows : Follows s t
  base : Base vol bm t
  fat : ∀ c, vol.geometry.InHeap c → c ∉ cs →
    fatEntry vol.geometry t.device.sectors c = fatEntry vol.geometry s.device.sectors c
  used : ∀ c, Counted vol.geometry c →
    used vol.geometry bm t.device.sectors c = used vol.geometry bm s.device.sectors c

section Linking

variable {vol : Volume} {bm cs cs' : List ℕ} {s t u : Machine}

lemma Relinked.refl (hs : Base vol bm s) : Relinked vol bm s s [] :=
  ⟨Follows.refl s, hs, fun _ _ _ => rfl, fun _ _ => rfl⟩

lemma Relinked.trans (h : Relinked vol bm s t cs) (h' : Relinked vol bm t u cs') :
    Relinked vol bm s u (cs ++ cs') where
  follows := h.follows.trans h'.follows
  base := h'.base
  fat c hc hout := by
    rw [List.mem_append, not_or] at hout
    rw [h'.fat c hc hout.2, h.fat c hc hout.1]
  used c hc := (h'.used c hc).trans (h.used c hc)

lemma setFat_relinks {c v : ℕ} (hs : Base vol bm s) (hr : ¬ Faulty s) (hc : vol.geometry.InHeap c)
    (hbm : c ∉ bm) (hv : v < 2 ^ 32) :
    wp (setFat vol c v)
      (fun _ t => Relinked vol bm s t [c] ∧ fatEntry vol.geometry t.device.sectors c = v)
      (fun _ _ => False) s := by
  refine wp_mono _ (setFat_based hs hc hbm) ?_ fun _ _ h => hr h.faulty
  intro _ t ht
  refine ⟨⟨ht.follows, ht.base, fun c' _ hout => ?_, fun c' hc' => ?_⟩, ?_⟩
  · rw [ht.sectors, fatEntry_setEntry_ne]
    rintro rfl
    exact hout List.mem_cons_self
  · rw [ht.sectors, used_setEntry hs.mapped hs.ready.sound hc _ hc']
  · rw [ht.sectors, fatEntry_setEntry _ hv]

lemma linkExtent_relinks {file : File} {clusterBytes n : ℕ} (hs : Base vol bm s) (hr : ¬ Faulty s)
    (hpos : 0 < clusterBytes) (hn : file.dataLength / clusterBytes = n)
    (hheap : ∀ i < n, vol.geometry.InHeap (file.firstCluster + i) ∧ file.firstCluster + i ∉ bm) :
    wp (linkExtent vol file clusterBytes)
      (fun _ t => Relinked vol bm s t ((List.range (n - 1)).map (file.firstCluster + ·)) ∧
        ∀ i < n - 1, fatEntry vol.geometry t.device.sectors (file.firstCluster + i) =
          file.firstCluster + (i + 1)) (fun _ _ => False) s := by
  unfold linkExtent
  simp only [wp_bind, wp_div]
  refine ⟨by omega, ?_⟩
  rw [hn]
  refine wp_mono _ (wp_loop_post (Q := fun r t => Relinked vol bm s t
      ((List.range (n - 1)).map (file.firstCluster + ·)) ∧ ∀ i < n - 1,
        fatEntry vol.geometry t.device.sectors (file.firstCluster + i) =
          file.firstCluster + (i + 1))
    (fun k _ t => Relinked vol bm s t ((List.range k).map (file.firstCluster + ·)) ∧ ∀ i < k,
      fatEntry vol.geometry t.device.sectors (file.firstCluster + i) = file.firstCluster + (i + 1))
    ⟨Relinked.refl hs, nofun⟩ ?_ ?_) (fun _ _ h => h) fun _ _ h => h
  · rintro k _ t - hk ⟨ht, hlinks⟩
    rw [Nat.zero_add] at hk
    obtain ⟨hin, hbm⟩ := hheap k (by omega)
    have hlt := hs.ready.sound.inHeap_iff.mp hin
    have hindex : tryU32 k = some k := if_pos (by omega)
    have hcluster : checkedAdd32 file.firstCluster k = some (file.firstCluster + k) :=
      if_pos (by omega)
    have hnext : checkedAdd32 (file.firstCluster + k) 1 = some (file.firstCluster + k + 1) :=
      if_pos (by omega)
    rw [hindex, okOr_some, pure_bind, hcluster, okOr_some, pure_bind, hnext, okOr_some, pure_bind,
      wp_bind]
    refine wp_mono _ (setFat_relinks ht.base (Follows.faultless ht.follows hr) hin hbm
      (by omega)) ?_ fun _ _ h => h
    rintro _ u ⟨hu, hlink⟩
    refine ⟨?_, fun i hi => ?_⟩
    · have := ht.trans hu
      rwa [← List.map_singleton (f := (file.firstCluster + ·)), ← List.map_append,
        ← List.range_succ] at this
    · rcases Nat.lt_or_ge i k with hlt' | hge
      · rw [hu.fat _ (hheap i (by omega)).1 (by simp; omega), hlinks i hlt']
      · obtain rfl : i = k := by omega
        exact hlink
  · rintro _ t h
    rwa [Nat.zero_add] at h

end Linking

lemma link_consecutive {g : Geometry} {d : Sectors} {first m : ℕ}
    (h : ∀ i < m, fatEntry g d (first + i) = first + (i + 1)) {j : ℕ} (hj : j ≤ m) :
    link g d first j = first + j := by
  induction j with
  | zero => rfl
  | succ j ih =>
    rw [link_succ, ih (by omega)]
    exact h j (by omega)

lemma extent_succ (g : Geometry) (d : Sectors) (first : ℕ) (noFatChain : Bool) (n : ℕ) :
    extent g d first noFatChain (n + 1) =
      extent g d first noFatChain n ++ [nthCluster g d first noFatChain n] := by
  unfold extent
  rw [List.range_succ, List.map_append]
  rfl

section Link

variable {vol : Volume} {bm : List ℕ} {v : Machine} {f : File} {n c preferred : ℕ} {last : Option ℕ}

/-- What linking the cluster `c` behind the `n` clusters of the handle `f` leaves. -/
structure Links (vol : Volume) (bm : List ℕ) (v : Machine) (f : File) (n preferred c : ℕ)
    (w : Machine × File) : Prop where
  touched : ∃ cs, Relinked vol bm v w.1 cs ∧ c ∉ cs
  handle : w.2 = { f with firstCluster := w.2.firstCluster, noFatChain := w.2.noFatChain }
  clusters : extent vol.geometry w.1.device.sectors w.2.firstCluster w.2.noFatChain (n + 1) =
    extent vol.geometry v.device.sectors f.firstCluster f.noFatChain n ++ [c]
  flag : w.2.noFatChain = true → f.noFatChain = true ∧ (0 < n → c = preferred)

lemma setLast_links {w : Machine} {cs : List ℕ} {file : File} (hs : Base vol bm v)
    (hr : ¬ Faulty v) (hcs : Freeable vol bm
      (extent vol.geometry v.device.sectors f.firstCluster f.noFatChain n))
    (hn : 0 < n) (hc : vol.geometry.InHeap c)
    (hout : c ∉ extent vol.geometry v.device.sectors f.firstCluster f.noFatChain n)
    (hw : Relinked vol bm v w cs) (hcout : c ∉ cs)
    (hfile : file = { f with noFatChain := false })
    (hsame : ∀ i < n, link vol.geometry w.device.sectors f.firstCluster i =
      nthCluster vol.geometry v.device.sectors f.firstCluster f.noFatChain i) :
    wp (setFat vol (nthCluster vol.geometry v.device.sectors f.firstCluster f.noFatChain (n - 1)) c)
      (fun _ u => Links vol bm v f n preferred c (u, file)) (fun _ _ => False) w := by
  have hlast := @nthCluster_mem vol.geometry v.device.sectors f.firstCluster n f.noFatChain (n - 1)
    (by omega)
  have hlt := hs.ready.sound.inHeap_iff.mp hc
  refine wp_mono _ (setFat_relinks hw.base (Follows.faultless hw.follows hr) (hcs.heap _ hlast)
    (hcs.apart _ hlast) (by omega)) ?_ fun _ _ h => h
  rintro _ u ⟨hu, hlink⟩
  have hkept : ∀ i < n, link vol.geometry u.device.sectors f.firstCluster i =
      nthCluster vol.geometry v.device.sectors f.firstCluster f.noFatChain i := by
    intro i hi
    rw [← hsame i hi]
    refine @extent_congr _ _ _ _ n false (fun _ j hj => ?_) i hi
    change fatEntry _ _ (link _ _ _ _) = fatEntry _ _ (link _ _ _ _)
    rw [hsame j (by omega)]
    refine hu.fat _ (hcs.heap _ (nthCluster_mem (by omega))) ?_
    rw [List.mem_singleton]
    intro heq
    have := nthCluster_inj hcs.nodup (by omega) (by omega) heq
    omega
  subst hfile
  refine ⟨⟨cs ++ [_], hw.trans hu, ?_⟩, rfl, ?_, nofun⟩
  · rw [List.mem_append, List.mem_singleton, not_or]
    refine ⟨hcout, ?_⟩
    rintro rfl
    exact hout hlast
  · change extent _ _ f.firstCluster false (n + 1) = _
    rw [extent_succ]
    congr 1
    · exact List.map_congr_left fun i hi => hkept i (List.mem_range.mp hi)
    · obtain ⟨m, rfl⟩ : ∃ m, n = m + 1 := ⟨n - 1, by omega⟩
      change [link _ _ _ (m + 1)] = _
      rw [link_succ, hkept m (by omega)]
      exact congrArg (fun x => [x]) hlink

/-- **Linking a cluster** puts it behind the others. -/
lemma linkCluster_links (hs : Base vol bm v) (hr : ¬ Faulty v)
    (hcs : Freeable vol bm
      (extent vol.geometry v.device.sectors f.firstCluster f.noFatChain n))
    (hc : vol.geometry.InHeap c)
    (hout : c ∉ extent vol.geometry v.device.sectors f.firstCluster f.noFatChain n)
    (hempty : n = 0 → f.firstCluster = 0)
    (hlast : 0 < n → last = some
      (nthCluster vol.geometry v.device.sectors f.firstCluster f.noFatChain (n - 1)))
    (hpref : 0 < n → preferred =
      nthCluster vol.geometry v.device.sectors f.firstCluster f.noFatChain (n - 1) + 1)
    (hdiv : f.noFatChain = true → 0 < n → f.dataLength / clusterSize vol.geometry = n)
    (hcached : f.cachedClusterIndex = none) :
    wp (linkCluster vol last preferred c (clusterSize vol.geometry))
      (fun _ w => Links vol bm v f n preferred c w) (fun _ _ => False) (v, f) := by
  have h2 := (hs.ready.sound.inHeap_iff.mp hc).1
  unfold linkCluster
  rw [wp_bind, wp_getSnd]
  beta_reduce
  rw [wp_ite]
  refine ⟨fun hz => ?_, fun hne => ?_⟩
  · replace hz : f.firstCluster = 0 := hz
    have hn : n = 0 := by
      by_contra hn
      have hin := hcs.heap _ (@nthCluster_mem vol.geometry v.device.sectors f.firstCluster n
        f.noFatChain 0 (by omega))
      rw [nthCluster_zero, hz] at hin
      exact absurd (hs.ready.sound.inHeap_iff.mp hin).1 (by decide)
    subst hn
    refine ⟨⟨[], Relinked.refl hs, by simp⟩, rfl, ?_, fun h => ⟨h, nofun⟩⟩
    change extent _ _ c _ 1 = [c]
    rw [extent_succ, nthCluster_zero]
    rfl
  replace hne : f.firstCluster ≠ 0 := hne
  have hn : 0 < n := by
    by_contra hz
    exact hne (hempty (by omega))
  rw [hlast hn, wp_ite]
  refine ⟨fun ⟨hfat, heq⟩ => ?_, fun hnot => ?_⟩
  · refine ⟨⟨[], Relinked.refl hs, by simp⟩, rfl, ?_, fun h => ⟨h, fun _ => heq⟩⟩
    rw [extent_succ]
    congr 2
    rw [heq, hpref hn]
    change nthCluster _ _ _ f.noFatChain _ = _
    replace hfat : f.noFatChain = true := hfat
    simp only [nthCluster, hfat, if_true]
    omega
  rw [wp_bind, wp_when]
  by_cases hfat : f.noFatChain = true
  · refine ⟨fun _ => ?_, fun hno => absurd hfat hno⟩
    have hnth (i : ℕ) : nthCluster vol.geometry v.device.sectors f.firstCluster f.noFatChain i =
        f.firstCluster + i := by simp [nthCluster, hfat]
    have hmem (i : ℕ) (hi : i < n) : f.firstCluster + i ∈
        extent vol.geometry v.device.sectors f.firstCluster f.noFatChain n :=
      hnth i ▸ nthCluster_mem hi
    rw [wp_bind, wp_lift]
    refine wp_mono _ (linkExtent_relinks hs hr hs.ready.sound.clusterBytes_pos (hdiv hfat hn)
      fun i hi => ⟨hcs.heap _ (hmem i hi), hcs.apart _ (hmem i hi)⟩) ?_ fun _ _ h => h
    rintro _ w ⟨hw, hlinks⟩
    rw [wp_modifySnd]
    rw [okOr_some, pure_bind, wp_lift]
    refine setLast_links hs hr hcs hn hc hout hw ?_ ?_ fun i hi => ?_
    · intro hcmem
      obtain ⟨i, hi, rfl⟩ := List.mem_map.mp hcmem
      rw [List.mem_range] at hi
      exact hout (hmem i (by omega))
    · simp [hcached]
    · rw [hnth, link_consecutive hlinks (by omega)]
  · refine ⟨fun hyes => absurd hyes hfat, fun _ => ?_⟩
    have hfat' : f.noFatChain = false := by simpa using hfat
    rw [okOr_some, pure_bind, wp_lift]
    refine setLast_links hs hr hcs hn hc hout (Relinked.refl hs) (by simp) ?_ fun i _ => ?_
    · conv_rhs => rw [← hfat']
    · rw [hfat']
      rfl

end Link

/-! ### The rounds -/

/-- The first `kept` clusters of the stream of a handle are its own. -/
structure Holding (vol : Volume) (bm : List ℕ) (s : Machine) (file : File) (kept : ℕ) : Prop where
  freeable : Freeable vol bm
    (extent vol.geometry s.device.sectors file.firstCluster file.noFatChain kept)
  used : ∀ c ∈ extent vol.geometry s.device.sectors file.firstCluster file.noFatChain kept,
    used vol.geometry bm s.device.sectors c = true
  empty : kept = 0 → file.firstCluster = 0
  length : file.dataLength ≤ (kept + 1) * clusterSize vol.geometry

/-- `append` on the handle `file` has claimed the clusters `cs`, and has linked them behind the
first `kept` clusters of the stream. -/
structure Grown (vol : Volume) (bm : List ℕ) (s : Machine) (file : File) (kept : ℕ) (cs : List ℕ)
    (t : Machine × File) : Prop where
  still : cs = [] → Wrote s t.1 s.device.sectors
  follows : Follows s t.1
  base : Base vol bm t.1
  handle : t.2 = { file with
    firstCluster := t.2.firstCluster
    noFatChain := t.2.noFatChain
    dataLength := file.dataLength + cs.length * clusterSize vol.geometry
    cachedClusterIndex := none }
  clusters : extent vol.geometry t.1.device.sectors t.2.firstCluster t.2.noFatChain
      (kept + cs.length) =
    extent vol.geometry s.device.sectors file.firstCluster file.noFatChain kept ++ cs
  empty : kept + cs.length = 0 → t.2.firstCluster = 0
  heap : ∀ c ∈ cs, vol.geometry.InHeap c
  fresh : ∀ c ∈ cs, used vol.geometry bm s.device.sectors c = false
  nodup : cs.Nodup
  used : ∀ c, Counted vol.geometry c → used vol.geometry bm t.1.device.sectors c =
    (used vol.geometry bm s.device.sectors c || decide (c ∈ cs))
  left : claimable vol.geometry bm t.1.device.sectors + cs.length =
    claimable vol.geometry bm s.device.sectors

namespace Grown

variable {vol : Volume} {bm cs : List ℕ} {s : Machine} {file : File} {kept stop : ℕ}
  {t : Machine × File}

lemma start (hs : Base vol bm s) (hempty : kept = 0 → file.firstCluster = 0)
    (hcached : file.cachedClusterIndex = none) : Grown vol bm s file kept [] (s, file) where
  still _ := Wrote.refl s
  follows := Follows.refl s
  base := hs
  handle := by
    simp only [List.length_nil, Nat.zero_mul, Nat.add_zero]
    rw [← hcached]
  clusters := by simp
  empty := hempty
  heap := nofun
  fresh := nofun
  nodup := List.nodup_nil
  used _ _ := by simp
  left := rfl

lemma moved {u : Machine} (h : Grown vol bm s file kept cs t)
    (hu : Wrote t.1 u t.1.device.sectors) : Grown vol bm s file kept cs (u, t.2) where
  still hcs := by
    have ht := h.still hcs
    exact ht.trans (ht.sectors ▸ hu)
  follows := h.follows.trans hu.follows
  base := (hu.same h.base).base
  handle := h.handle
  clusters := by
    change extent _ u.device.sectors _ _ _ = _
    rw [hu.sectors]
    exact h.clusters
  empty := h.empty
  heap := h.heap
  fresh := h.fresh
  nodup := h.nodup
  used c hc := by
    change Media.used _ _ u.device.sectors c = _
    rw [hu.sectors]
    exact h.used c hc
  left := by
    change claimable _ _ u.device.sectors + _ = _
    rw [hu.sectors]
    exact h.left

lemma fields (h : Grown vol bm s file kept cs t) :
    t.2.dataLength = file.dataLength + cs.length * clusterSize vol.geometry ∧
      t.2.validLength = file.validLength ∧ t.2.cachedClusterIndex = none ∧
      (HandlePlaced vol.geometry bm file → HandlePlaced vol.geometry bm t.2) := by
  rw [h.handle]
  exact ⟨rfl, rfl, rfl, fun hp => ⟨hp.count, hp.primary, hp.stream, hp.locs⟩⟩

lemma freeable (h : Grown vol bm s file kept cs t) (hs : Base vol bm s)
    (hold : Holding vol bm s file kept) :
    Freeable vol bm (extent vol.geometry t.1.device.sectors t.2.firstCluster t.2.noFatChain
      (kept + cs.length)) := by
  rw [h.clusters]
  refine ⟨fun c hc => ?_, ?_, fun c hc hbm => ?_⟩
  · rcases List.mem_append.mp hc with hc | hc
    · exact hold.freeable.heap c hc
    · exact h.heap c hc
  · refine List.nodup_append.mpr ⟨hold.freeable.nodup, h.nodup, ?_⟩
    rintro c hc c' hc' rfl
    have h1 := hold.used c hc
    rw [h.fresh c hc'] at h1
    cases h1
  · rcases List.mem_append.mp hc with hc | hc
    · exact hold.freeable.apart c hc hbm
    · have h1 := hs.marked c hbm
      rw [h.fresh c hc] at h1
      cases h1

lemma marked (h : Grown vol bm s file kept cs t) (hs : Base vol bm s)
    (hold : Holding vol bm s file kept) {c : ℕ}
    (hc : c ∈ extent vol.geometry t.1.device.sectors t.2.firstCluster t.2.noFatChain
      (kept + cs.length)) : Media.used vol.geometry bm t.1.device.sectors c = true := by
  have hcounted := counted_of_inHeap hs.ready.sound ((h.freeable hs hold).heap c hc)
  rw [h.used c hcounted]
  rw [h.clusters] at hc
  rcases List.mem_append.mp hc with hc | hc
  · rw [hold.used c hc]
    rfl
  · simp [hc]

lemma length_le (h : Grown vol bm s file kept cs t) (hs : Base vol bm s)
    (hold : Holding vol bm s file kept) : kept + cs.length ≤ vol.geometry.clusterCount := by
  have hlength := (h.freeable hs hold).length_le hs.ready.sound
  rwa [extent_length] at hlength

end Grown

/-! ### One round -/

section Round

variable {vol : Volume} {bm cs : List ℕ} {s : Machine} {file : File} {kept stop : ℕ}
  {t : Machine × File}

/-- The length of the handle says how many clusters its stream has. -/
def Counts (g : Geometry) (f : File) (n : ℕ) : Prop :=
  0 < n → if f.noFatChain then f.dataLength / clusterSize g = n
    else (f.dataLength - 1) / clusterSize g = n - 1

lemma lastCluster_nth {f : File} {n : ℕ} {v : Machine} (hs : Base vol bm v) (hr : ¬ Faulty v)
    (hcs : Freeable vol bm
      (extent vol.geometry v.device.sectors f.firstCluster f.noFatChain n))
    (hempty : n = 0 → f.firstCluster = 0) (hcounts : Counts vol.geometry f n) :
    wp (if f.firstCluster = 0 then pure none
      else some <$> lastCluster vol f (clusterSize vol.geometry) : FsM (Option ℕ))
      (fun last u => last = (if n = 0 then none else some
        (nthCluster vol.geometry v.device.sectors f.firstCluster f.noFatChain (n - 1))) ∧
        Wrote v u v.device.sectors) (fun _ _ => False) v := by
  have hsound := hs.ready.sound
  have hpos : 0 < clusterSize vol.geometry := hsound.clusterBytes_pos
  rw [wp_ite]
  refine ⟨fun hz => ?_, fun hne => ?_⟩
  · have hn : n = 0 := by
      by_contra hn
      have hin := hcs.heap _ (@nthCluster_mem vol.geometry v.device.sectors f.firstCluster n
        f.noFatChain 0 (by omega))
      rw [nthCluster_zero, hz] at hin
      exact absurd (hsound.inHeap_iff.mp hin).1 (by decide)
    rw [if_pos hn]
    exact ⟨rfl, Wrote.refl v⟩
  have hn : 0 < n := by
    by_contra hz
    exact hne (hempty (by omega))
  have hcount := hcounts hn
  rw [wp_map, if_neg (by omega)]
  unfold lastCluster
  rw [wp_ite]
  refine ⟨fun hfat => ?_, fun hfat => ?_⟩
  · rw [if_pos hfat] at hcount
    have hin := hcs.heap _ (@nthCluster_mem vol.geometry v.device.sectors f.firstCluster n
      f.noFatChain (n - 1) (by omega))
    simp only [nthCluster, hfat, if_true] at hin ⊢
    have hlt := hsound.inHeap_iff.mp hin
    simp only [wp_bind, wp_div, wp_sub, hcount]
    have hindex : tryU32 (n - 1) = some (n - 1) := if_pos (by omega)
    have hadd : checkedAdd32 f.firstCluster (n - 1) = some (f.firstCluster + (n - 1)) :=
      if_pos (by omega)
    refine ⟨by omega, by omega, ?_⟩
    rw [hindex, okOr_some, wp_pure, hadd, okOr_some]
    exact ⟨rfl, Wrote.refl v⟩
  · have hfat' : f.noFatChain = false := by simpa using hfat
    rw [if_neg hfat] at hcount
    simp only [wp_bind, wp_div]
    refine ⟨by omega, ?_⟩
    rw [hcount]
    rw [hfat'] at hcs ⊢
    have hindex : n - 1 < (extent vol.geometry v.device.sectors f.firstCluster false n).length := by
      rw [extent_length]
      omega
    refine wp_mono _ (clusterAt_nth hs.ready hcs.heap (fun i hi => ?_) (hcs.length_le hsound)
      hindex) ?_ fun _ _ h => hr h.faulty
    · rw [extent_length] at hi
      rw [extent_getD hi]
      rfl
    · rintro c u ⟨rfl, hu⟩
      rw [extent_getD (by omega)]
      exact ⟨rfl, hu⟩

lemma preferredAfter_behind {last : Option ℕ} {n c : ℕ} {v : Machine}
    (hlast : last = if n = 0 then none else some c) (hc : 0 < n → c + 1 < 2 ^ 32) :
    wp (preferredAfter last) (fun p w => w = v ∧ (0 < n → p = c + 1)) (fun _ _ => False) v := by
  unfold preferredAfter
  rw [hlast]
  split_ifs with hz
  · exact ⟨rfl, fun hpos => absurd hz (by omega)⟩
  · have hadd : checkedAdd32 c 1 = some (c + 1) := if_pos (hc (by omega))
    simp only [hadd, okOr_some, wp_pure]
    exact ⟨trivial, fun _ => trivial⟩

/-! A free cluster, which the allocator has marked and zeroed. -/

section Claimed

variable {w : Machine} {x : Machine × File} {c preferred : ℕ}

lemma Grown.room (h : Grown vol bm s file kept cs t) (hs : Base vol bm s)
    (hold : Holding vol bm s file kept) :
    t.2.dataLength + clusterSize vol.geometry < 2 ^ 64 := by
  have hlength := h.length_le hs hold
  have hcount := hs.ready.sound.clusterCount
  have hdl := hold.length
  have hmul : (kept + 1 + cs.length + 1) * clusterSize vol.geometry ≤ (2 ^ 32 + 2) * 2 ^ 25 :=
    Nat.mul_le_mul (by omega) hs.ready.sound.clusterBytes
  have hsplit : (kept + 1 + cs.length + 1) * clusterSize vol.geometry =
      (kept + 1) * clusterSize vol.geometry + cs.length * clusterSize vol.geometry +
        clusterSize vol.geometry := by ring
  rw [h.fields.1]
  omega

lemma Grown.not_mem_bitmap (h : Grown vol bm s file kept cs t)
    (hfree : Media.used vol.geometry bm t.1.device.sectors c = false) : c ∉ bm := fun hbm => by
  have := h.base.marked c hbm
  rw [hfree] at this
  cases this

lemma Grown.not_mem_stream (h : Grown vol bm s file kept cs t) (hs : Base vol bm s)
    (hold : Holding vol bm s file kept)
    (hfree : Media.used vol.geometry bm t.1.device.sectors c = false) :
    c ∉ extent vol.geometry t.1.device.sectors t.2.firstCluster t.2.noFatChain
      (kept + cs.length) := fun hmem => by
  have := h.marked hs hold hmem
  rw [hfree] at this
  cases this

lemma Grown.link_claimed (h : Grown vol bm s file kept cs t) (hs : Base vol bm s)
    (hold : Holding vol bm s file kept)
    (hfree : Media.used vol.geometry bm t.1.device.sectors c = false)
    (hw : w.device.sectors = claimed vol.geometry bm t.1.device.sectors c) :
    ∀ i < kept + cs.length, fatEntry vol.geometry w.device.sectors
        (nthCluster vol.geometry t.1.device.sectors t.2.firstCluster t.2.noFatChain i) =
      fatEntry vol.geometry t.1.device.sectors
        (nthCluster vol.geometry t.1.device.sectors t.2.firstCluster t.2.noFatChain i) := by
  intro i hi
  have hmem := @nthCluster_mem vol.geometry t.1.device.sectors t.2.firstCluster _
    t.2.noFatChain i hi
  rw [hw, fatEntry_claimed_ne hs.ready.sound _ ((h.freeable hs hold).heap _ hmem)]
  rintro rfl
  exact h.not_mem_stream hs hold hfree hmem

/-- The claimed cluster is linked behind the others, and the stream is longer by a cluster. -/
lemma Grown.snoc (h : Grown vol bm s file kept cs t) (hs : Base vol bm s)
    (hold : Holding vol bm s file kept)
    (hsome : 0 < claimable vol.geometry bm t.1.device.sectors) (hc : vol.geometry.InHeap c)
    (hfree : Media.used vol.geometry bm t.1.device.sectors c = false) (htw : Follows t.1 w)
    (hw : w.device.sectors = claimed vol.geometry bm t.1.device.sectors c)
    (hx : Links vol bm w t.2 (kept + cs.length) preferred c x) :
    Grown vol bm s file kept (cs ++ [c])
      (x.1, { x.2 with dataLength := x.2.dataLength + clusterSize vol.geometry }) := by
  have hsound := hs.ready.sound
  have hcounted := counted_of_inHeap hsound hc
  have hclear := h.used c hcounted
  rw [hfree, eq_comm, Bool.or_eq_false_iff, decide_eq_false_iff_not] at hclear
  obtain ⟨touched, htouched, -⟩ := hx.touched
  have hlen : kept + (cs ++ [c]).length = kept + cs.length + 1 := by
    rw [List.length_append, List.length_singleton, Nat.add_assoc]
  have hused : ∀ y, Counted vol.geometry y → Media.used vol.geometry bm x.1.device.sectors y =
      if y = c then true else Media.used vol.geometry bm t.1.device.sectors y := by
    intro y hy
    rw [htouched.used y hy, hw,
      used_claimed h.base.mapped hsound hc (h.not_mem_bitmap hfree) hy]
  constructor
  case still => exact fun hnil => absurd hnil (List.append_ne_nil_of_right_ne_nil _ (by simp))
  case follows => exact (h.follows.trans htw).trans htouched.follows
  case base => exact htouched.base
  case handle =>
    have hhandle := hx.handle
    rw [h.handle] at hhandle
    rw [hhandle, List.length_append, List.length_singleton, Nat.add_mul, Nat.one_mul,
      ← Nat.add_assoc]
  case clusters =>
    rw [hlen]
    refine hx.clusters.trans ?_
    rw [extent_eq fun _ j hj => h.link_claimed hs hold hfree hw j (by omega), h.clusters,
      List.append_assoc]
  case empty => exact fun hz => absurd hz (by omega)
  case heap =>
    intro y hy
    rcases List.mem_append.mp hy with hy | hy
    · exact h.heap y hy
    · rwa [List.mem_singleton.mp hy]
  case fresh =>
    intro y hy
    rcases List.mem_append.mp hy with hy | hy
    · exact h.fresh y hy
    · rw [List.mem_singleton.mp hy]
      exact hclear.1
  case nodup =>
    refine List.nodup_append.mpr ⟨h.nodup, List.nodup_singleton c, ?_⟩
    rintro y hy z hz rfl
    rw [List.mem_singleton.mp hz] at hy
    exact hclear.2 hy
  case used =>
    intro y hy
    rw [hused y hy, h.used y hy]
    by_cases hyc : y = c
    · simp [hyc]
    · simp [hyc]
  case left =>
    have hleft := h.left
    have hcount := freeCount_marked hcounted hfree hused
    change claimable _ _ x.1.device.sectors + _ = _
    unfold claimable at hleft hsome ⊢
    rw [List.length_append, List.length_singleton]
    split_ifs at hleft hsome ⊢ <;> omega

end Claimed

/-- **One round of the growth** claims a cluster and links it, or finds none to claim. -/
theorem growRound_grows (h : Grown vol bm s file kept cs t) (hs : Base vol bm s)
    (hr : ¬ Faulty s) (hold : Holding vol bm s file kept)
    (hcounts : Counts vol.geometry t.2 (kept + cs.length)) (hmore : t.2.dataLength < stop) :
    wp (growRound vol stop (clusterSize vol.geometry))
      (fun r u => r = .inr () ∧ ∃ c, Grown vol bm s file kept (cs ++ [c]) u ∧
        fatEntry vol.geometry u.1.device.sectors c = 0xffffffff ∧
        (u.2.noFatChain = true → t.2.noFatChain = true ∧ (0 < kept + cs.length →
          c = nthCluster vol.geometry t.1.device.sectors t.2.firstCluster t.2.noFatChain
            (kept + cs.length - 1) + 1)))
      (fun _ u => Grown vol bm s file kept cs u ∧ claimable vol.geometry bm t.1.device.sectors = 0)
      t := by
  have hsound := hs.ready.sound
  have hcs := h.freeable hs hold
  have hrt := Follows.faultless h.follows hr
  set n := kept + cs.length with hn
  unfold growRound
  rw [wp_bind, wp_getSnd]
  beta_reduce
  rw [wp_ite]
  refine ⟨fun hle => absurd hle (by omega), fun _ => ?_⟩
  rw [wp_bind, wp_lift]
  refine wp_mono _ (lastCluster_nth h.base hrt hcs h.empty hcounts) ?_ fun _ _ h => h.elim
  rintro last v ⟨hlast, hv⟩
  have hgv := h.moved hv
  have hrv := Follows.faultless hgv.follows hr
  have hlt (hpos : 0 < n) :=
    (hsound.inHeap_iff.mp (hcs.heap _ (nthCluster_mem (show n - 1 < n by omega)))).2
  rw [wp_bind, wp_lift]
  refine wp_mono _ (preferredAfter_behind hlast fun hpos => ?_) ?_ fun _ _ h => h.elim
  · have := hlt hpos
    omega
  rintro preferred _ ⟨rfl, hpref⟩
  rw [wp_bind, wp_lift]
  rcases Nat.eq_zero_or_pos (claimable vol.geometry bm t.1.device.sectors) with hnone | hsome
  · refine wp_mono _ (allocate_refuses hgv.base hrv (by rw [hv.sectors]; exact hnone)) ?_ ?_
    · exact fun _ _ h => h.elim
    · intro e w hw
      exact ⟨hgv.moved hw, hnone⟩
  refine wp_mono _ (allocate_claims hgv.base hrv (by rw [hv.sectors]; exact hsome)) ?_
    fun _ _ h => h.elim
  rintro c w ⟨hc, hfree, hw⟩
  rw [hv.sectors] at hfree
  have htw := hv.follows.trans hw.follows
  have hsectors := hw.sectors
  rw [hv.sectors] at hsectors
  -- the walk over the stream finds the same clusters beside the claimed one
  have hsame := h.link_claimed hs hold hfree hsectors
  have hnth {i : ℕ} (hi : i < n) := extent_congr (fun _ j hj => hsame j (by omega)) hi
  have hextent : extent vol.geometry w.device.sectors t.2.firstCluster t.2.noFatChain n =
      extent vol.geometry t.1.device.sectors t.2.firstCluster t.2.noFatChain n :=
    extent_eq fun _ j hj => hsame j (by omega)
  have hout := h.not_mem_stream hs hold hfree
  rw [wp_bind]
  refine wp_mono _ (@linkCluster_links vol bm w t.2 n c preferred last hw.base
    (Follows.faultless (h.follows.trans htw) hr) (hextent ▸ hcs) hc (hextent ▸ hout) h.empty
    (fun hpos => ?_) (fun hpos => ?_) (fun hfat hpos => ?_) h.fields.2.2.1) ?_ fun _ _ h => h.elim
  · rw [hlast, if_neg (by omega), hnth (by omega)]
  · rw [hpref hpos, hnth (by omega)]
  · have := hcounts hpos
    rwa [if_pos hfat] at this
  rintro _ x hx
  have hadd : checkedAdd64 x.2.dataLength (clusterSize vol.geometry) =
      some (x.2.dataLength + clusterSize vol.geometry) := if_pos (by
    rw [hx.handle]
    exact h.room hs hold)
  simp only [wp_bind, wp_getSnd, hadd, okOr_some, wp_pure, wp_modifySnd]
  refine ⟨trivial, c, h.snoc hs hold hsome hc hfree htw hsectors hx, ?_, fun hfat => ?_⟩
  · obtain ⟨touched, htouched, hctouched⟩ := hx.touched
    rw [htouched.fat c hc hctouched, hsectors, fatEntry_claimed]
  · obtain ⟨hflat, hcontiguous⟩ := hx.flag hfat
    exact ⟨hflat, fun hpos => (hcontiguous hpos).trans (hpref hpos)⟩

end Round

end ExfatEmbedded.Growth
