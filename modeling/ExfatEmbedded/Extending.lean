import ExfatEmbedded.Overwriting
import ExfatEmbedded.Restreaming

/-!
What `append` leaves when it finds room: the bytes of the file with the input behind them, in its
clusters and some which were free, and every other cluster in use as it was.
-/

namespace ExfatEmbedded.Extending

open ExfatEmbedded.Library Exec ExfatEmbedded.Core ExfatEmbedded.Entry ExfatEmbedded.Allocation
open ExfatEmbedded.Lookup ExfatEmbedded.FileIo ExfatEmbedded.EntryWrite ExfatEmbedded.Mutation
open ExfatEmbedded.Reading ExfatEmbedded.Scan ExfatEmbedded.Sets ExfatEmbedded.Listing
open ExfatEmbedded.ReadSafety ExfatEmbedded.MountSafety ExfatEmbedded.FatWrites
open ExfatEmbedded.StreamSafety ExfatEmbedded.Media ExfatEmbedded.Writing ExfatEmbedded.Tree
open ExfatEmbedded.Commit ExfatEmbedded.Release ExfatEmbedded.Layout ExfatEmbedded.Slots
open ExfatEmbedded.Codec ExfatEmbedded.Ownership ExfatEmbedded.Replacing ExfatEmbedded.Readback
open ExfatEmbedded.Truncating ExfatEmbedded.Growth ExfatEmbedded.Allocator ExfatEmbedded.Appending
open ExfatEmbedded.Overwriting ExfatEmbedded.Restreaming

/-! ### What growing a stream leaves alone -/

section Frame

variable {vol : Volume} {bm old : List ℕ} {s t u : Machine} {c v : ℕ}

/-- From `s` to `t` no cluster in use was written, and of these only clusters of `old` were
linked. -/
structure SparesLinks (vol : Volume) (bm old : List ℕ) (s t : Machine) : Prop where
  base : Base vol bm t
  faultless : ¬ Faulty t
  fat : ∀ c, vol.geometry.InHeap c → used vol.geometry bm s.device.sectors c = true → c ∉ old →
    fatEntry vol.geometry t.device.sectors c = fatEntry vol.geometry s.device.sectors c
  same : ∀ c, vol.geometry.InHeap c → used vol.geometry bm s.device.sectors c = true → c ∉ bm →
    SameCluster vol.geometry s.device.sectors t.device.sectors c

lemma SparesLinks.refl (hs : Base vol bm s) (hr : ¬ Faulty s) : SparesLinks vol bm old s s :=
  ⟨hs, hr, fun _ _ _ _ => rfl, fun _ _ _ _ _ _ => rfl⟩

lemma SparesLinks.wrote (h : SparesLinks vol bm old s t) (hu : Wrote t u t.device.sectors) :
    SparesLinks vol bm old s u := by
  refine ⟨(hu.same h.base).base, Follows.faultless hu.follows h.faultless, ?_, ?_⟩
  · rw [hu.sectors]
    exact h.fat
  · rw [hu.sectors]
    exact h.same

/-- The clusters which growing a stream may link. -/
def Linkable (vol : Volume) (bm old : List ℕ) (s : Machine) (c : ℕ) : Prop :=
  vol.geometry.InHeap c ∧ c ∉ bm ∧
    (c ∈ old ∨ used vol.geometry bm s.device.sectors c = false)

lemma setFat_spares (h : SparesLinks vol bm old s t) (hc : Linkable vol bm old s c) :
    wp (setFat vol c v) (fun _ u => SparesLinks vol bm old s u) (fun _ _ => False) t := by
  obtain ⟨hheap, hbm, hlink⟩ := hc
  refine wp_mono _ (setFat_based h.base hheap hbm) ?_ fun _ _ hf => h.faultless hf.faulty
  intro _ u hu
  refine ⟨hu.base, Follows.faultless hu.follows h.faultless, fun x hx hused hout => ?_,
    fun x hx hused hxbm => ?_⟩
  · have hne : c ≠ x := by
      rintro rfl
      rcases hlink with hin | hfree
      · exact hout hin
      · rw [hused] at hfree
        cases hfree
    rw [hu.sectors, fatEntry_setEntry_ne _ _ hne]
    exact h.fat x hx hused hout
  · rw [hu.sectors]
    exact sameCluster_trans (h.same x hx hused hxbm)
      (sameCluster_setEntry h.base.ready.sound hheap _ _ _)

lemma linkExtent_spares {file : File} {clusterBytes n : ℕ} (h : SparesLinks vol bm old s t)
    (hpos : 0 < clusterBytes) (hn : file.dataLength / clusterBytes = n)
    (hlinkable : ∀ i < n, Linkable vol bm old s (file.firstCluster + i)) :
    wp (linkExtent vol file clusterBytes) (fun _ u => SparesLinks vol bm old s u)
      (fun _ _ => False) t := by
  unfold linkExtent
  simp only [wp_bind, wp_div]
  refine ⟨by omega, ?_⟩
  rw [hn]
  refine wp_mono _ (wp_loop_post (Q := fun _ u => SparesLinks vol bm old s u)
    (fun _ _ u => SparesLinks vol bm old s u) h ?_ fun _ _ hu => hu)
    (fun _ _ hu => hu) fun _ _ hf => hf
  rintro k _ u - hk hu
  rw [Nat.zero_add] at hk
  have hcluster := hlinkable k (by omega)
  have hlt := h.base.ready.sound.inHeap_iff.mp hcluster.1
  have hindex : tryU32 k = some k := if_pos (by omega)
  have hadd : checkedAdd32 file.firstCluster k = some (file.firstCluster + k) := if_pos (by omega)
  have hnext : checkedAdd32 (file.firstCluster + k) 1 = some (file.firstCluster + k + 1) :=
    if_pos (by omega)
  simp only [hindex, hadd, hnext, okOr_some, pure_bind, wp_bind]
  exact wp_mono _ (setFat_spares hu hcluster) (fun _ _ hw => hw) fun _ _ hf => hf

lemma linkCluster_spares {f : File} {n preferred new : ℕ} {last : Option ℕ}
    (h : SparesLinks vol bm old s t)
    (hcs : ∀ i < n, Linkable vol bm old s
      (nthCluster vol.geometry t.device.sectors f.firstCluster f.noFatChain i))
    (hempty : n = 0 → f.firstCluster = 0)
    (hlast : 0 < n → last = some
      (nthCluster vol.geometry t.device.sectors f.firstCluster f.noFatChain (n - 1)))
    (hdiv : f.noFatChain = true → 0 < n → f.dataLength / clusterSize vol.geometry = n) :
    wp (linkCluster vol last preferred new (clusterSize vol.geometry))
      (fun _ w => SparesLinks vol bm old s w.1) (fun _ _ => False) (t, f) := by
  unfold linkCluster
  rw [wp_bind, wp_getSnd]
  beta_reduce
  rw [wp_ite]
  refine ⟨fun _ => h, fun hne => ?_⟩
  have hn : 0 < n := by
    by_contra hz
    exact hne (hempty (by omega))
  have hset {w : Machine} (hw : SparesLinks vol bm old s w) :=
    @setFat_spares vol bm old s w _ new hw
    (hcs (n - 1) (by omega))
  rw [hlast hn, wp_ite]
  refine ⟨fun _ => h, fun _ => ?_⟩
  rw [wp_bind, wp_when]
  by_cases hfat : f.noFatChain = true
  · refine ⟨fun _ => ?_, fun hno => absurd hfat hno⟩
    rw [wp_bind, wp_lift]
    refine wp_mono _ (linkExtent_spares h h.base.ready.sound.clusterBytes_pos (hdiv hfat hn)
      fun i hi => ?_) ?_ fun _ _ hf => hf
    · have := hcs i hi
      simpa only [nthCluster, hfat, if_true] using this
    · intro _ w hw
      rw [wp_modifySnd, okOr_some, pure_bind, wp_lift]
      exact hset hw
  · refine ⟨fun hyes => absurd hyes hfat, fun _ => ?_⟩
    rw [okOr_some, pure_bind, wp_lift]
    exact hset h

end Frame

/-! ### One round -/

section Round

variable {vol : Volume} {bm cs : List ℕ} {s : Machine} {file : File} {kept stop : ℕ}
  {t : Machine × File}

lemma claimed_spares {old : List ℕ} {w v : Machine} {c : ℕ} (h : SparesLinks vol bm old s v)
    (hc : vol.geometry.InHeap c) (hcbm : c ∉ bm)
    (hfree : used vol.geometry bm v.device.sectors c = false)
    (hfresh : used vol.geometry bm s.device.sectors c = false)
    (hw : Became vol bm v w (claimed vol.geometry bm v.device.sectors c)) :
    SparesLinks vol bm old s w := by
  have hsound := h.base.ready.sound
  have hmapped := h.base.mapped
  have hne {x : ℕ} (hused : used vol.geometry bm s.device.sectors x = true) : c ≠ x := by
    rintro rfl
    rw [hused] at hfresh
    cases hfresh
  refine ⟨hw.base, Follows.faultless hw.follows h.faultless, fun x hx hused hout => ?_,
    fun x hx hused hxbm => ?_⟩
  · rw [hw.sectors, fatEntry_claimed_ne hsound (hne hused) hx]
    exact h.fat x hx hused hout
  · apply sameCluster_trans (h.same x hx hused hxbm)
    intro lba hin
    rw [hw.sectors]
    funext i
    by_contra hdiff
    rcases claimed_frame hmapped hsound hc hcbm hfree hdiff with hcin | ⟨rfl, -⟩ | hbit
    · exact hne hused (hcin.unique (hsound.inHeap_iff.mp hc).1 (hsound.inHeap_iff.mp hx).1 hin)
    · exact hin.not_below (hsound.fatLba_lt hc)
    · obtain rfl : lba = (streamPos vol.geometry bm (bitByte c)).1 := congrArg Prod.fst hbit
      have hmem := hmapped.getD_mem hsound (hmapped.byte_lt (counted_of_inHeap hsound hc))
      have heq := hin.unique (hsound.inHeap_iff.mp hx).1 (hsound.inHeap_iff.mp
        (hmapped.heap _ hmem)).1 (streamPos_inCluster hsound bm (bitByte c))
      exact hxbm (heq ▸ hmem)

/-- **One round of the growth** spares the other clusters in use. -/
theorem growRound_spares (h : Grown vol bm s file kept cs t) (hs : Base vol bm s)
    (hold : Holding vol bm s file kept) (hcounts : Counts vol.geometry t.2 (kept + cs.length))
    (hsp : SparesLinks vol bm (extent vol.geometry s.device.sectors file.firstCluster
      file.noFatChain kept)
      s t.1) :
    wp (growRound vol stop (clusterSize vol.geometry))
      (fun _ u => SparesLinks vol bm
        (extent vol.geometry s.device.sectors file.firstCluster file.noFatChain kept) s u.1)
      (fun _ _ => True) t := by
  obtain ⟨m, f⟩ := t
  have hsound := hs.ready.sound
  have hcs := h.freeable hs hold
  simp only at hcs hcounts hsp ⊢
  set n := kept + cs.length with hn
  set old := extent vol.geometry s.device.sectors file.firstCluster file.noFatChain kept with holdEq
  unfold growRound
  rw [wp_bind, wp_getSnd]
  beta_reduce
  rw [wp_ite]
  refine ⟨fun _ => hsp, fun _ => ?_⟩
  rw [wp_bind, wp_lift]
  refine wp_mono _ (lastCluster_nth h.base hsp.faultless hcs h.empty hcounts) ?_ fun _ _ _ =>
    trivial
  rintro last v ⟨hlast, hv⟩
  have hspv := hsp.wrote hv
  rw [wp_bind, wp_lift]
  have hpreferred : wp (preferredAfter last) (fun _ w => v = w) (fun _ _ => True) v := by
    unfold preferredAfter
    cases last with
    | none => rfl
    | some l =>
      rw [wp_okOr]
      exact ⟨fun _ _ => rfl, fun _ => trivial⟩
  refine wp_mono _ hpreferred ?_ fun _ _ _ => trivial
  rintro preferred _ rfl
  rw [wp_bind, wp_lift]
  simp only
  rcases Nat.eq_zero_or_pos (claimable vol.geometry bm v.device.sectors) with hnone | hsome
  · exact wp_mono _ (allocate_refuses hspv.base hspv.faultless hnone) (fun _ _ hf => hf.elim)
      fun _ _ _ => trivial
  refine wp_mono _ (allocate_claims hspv.base hspv.faultless hsome) ?_ fun _ _ _ => trivial
  rintro c w ⟨hc, hfree, hw⟩
  have hcounted := counted_of_inHeap hsound hc
  have hfresh : used vol.geometry bm s.device.sectors c = false := by
    have hused := h.used c hcounted
    simp only at hused
    rw [hv.sectors] at hfree
    rw [hfree, eq_comm, Bool.or_eq_false_iff] at hused
    exact hused.1
  have hcbm : c ∉ bm := fun hbm => by
    rw [hs.marked c hbm] at hfresh
    cases hfresh
  have hspw := claimed_spares hspv hc hcbm hfree hfresh hw
  -- the stream of the handle is of the old clusters and the claimed ones
  have hmember {x : ℕ}
      (hx : x ∈ extent vol.geometry m.device.sectors f.firstCluster f.noFatChain n) :
      Linkable vol bm old s x := by
    refine ⟨hcs.heap x hx, hcs.apart x hx, ?_⟩
    have hclusters := h.clusters
    simp only at hclusters
    rw [hclusters] at hx
    rcases List.mem_append.mp hx with hx | hx
    · exact .inl hx
    · exact .inr (h.fresh x hx)
  have hsame : ∀ i < n, fatEntry vol.geometry w.device.sectors (nthCluster vol.geometry
      m.device.sectors f.firstCluster f.noFatChain i) = fatEntry vol.geometry m.device.sectors
        (nthCluster vol.geometry m.device.sectors f.firstCluster f.noFatChain i) := by
    intro i hi
    have hmem := @nthCluster_mem vol.geometry m.device.sectors f.firstCluster _ f.noFatChain i hi
    rw [hw.sectors, hv.sectors, fatEntry_claimed_ne hsound _ (hcs.heap _ hmem)]
    rintro rfl
    have hmarked := h.marked hs hold hmem
    simp only at hmarked
    rw [hv.sectors, hmarked] at hfree
    cases hfree
  have hnth {i : ℕ} (hi : i < n) : nthCluster vol.geometry w.device.sectors f.firstCluster
      f.noFatChain i = nthCluster vol.geometry m.device.sectors f.firstCluster f.noFatChain i :=
    extent_congr (fun _ j hj => hsame j (by omega)) hi
  rw [wp_bind]
  refine wp_mono _ (@linkCluster_spares vol bm old s w f n preferred c last hspw (fun i hi => ?_)
    h.empty (fun hpos => ?_) fun hfat hpos => ?_) ?_ fun _ _ _ => trivial
  · rw [hnth hi]
    exact hmember (nthCluster_mem hi)
  · rw [hlast, if_neg (by omega), hnth (by omega)]
  · have := hcounts hpos
    rwa [if_pos hfat] at this
  · intro _ x hx
    simp only [wp_bind, wp_getSnd, wp_okOr, wp_modifySnd, wp_pure]
    exact ⟨fun _ _ => hx, fun _ => trivial⟩

end Round

/-! ### The growth loop -/

section Loop

variable {vol : Volume} {bm cs : List ℕ} {s : Machine} {file : File} {stop : ℕ}

/-- The growth loop has claimed the clusters `cs` and has spared the others; the chain ends behind
them. -/
structure Extended (vol : Volume) (bm : List ℕ) (s : Machine) (file : File) (cs : List ℕ)
    (u : Machine × File) : Prop where
  start : cs = [] → u = (s, file)
  grown : Grown vol bm s file (clustersFor vol.geometry file.dataLength) cs u
  spares : SparesLinks vol bm (clustersOfFile vol.geometry s.device.sectors file) s u.1
  flat : u.2.noFatChain = true → file.noFatChain = true
  ends : cs ≠ [] → u.2.noFatChain = false → nthCluster vol.geometry u.1.device.sectors
    u.2.firstCluster u.2.noFatChain (clustersFor vol.geometry file.dataLength + cs.length) =
    0xffffffff

lemma growLoop_extends (hs : Base vol bm s) (hr : ¬ Faulty s)
    (hold : Holding vol bm s file (clustersFor vol.geometry file.dataLength))
    (hcached : file.cachedClusterIndex = none)
    (hroom : file.dataLength < stop → Regular vol.geometry file ∧
      clustersFor vol.geometry (stop - file.dataLength) ≤
        claimable vol.geometry bm s.device.sectors) :
    wp (loop (fun _ _ => growRound vol stop (clusterSize vol.geometry)) 0
        ((stop - file.dataLength) / clusterSize vol.geometry + 2) ())
      (fun r u => r = .inl () ∧ ∃ cs, Extended vol bm s file cs u ∧ stop ≤ u.2.dataLength ∧
        cs.length = clustersFor vol.geometry (stop - file.dataLength))
      (fun _ _ => False) (s, file) := by
  have hsound := hs.ready.sound
  have hpos : 0 < clusterSize vol.geometry := hsound.clusterBytes_pos
  refine wp_loop_post (fun i _ t => ∃ cs, cs.length = i ∧ Extended vol bm s file cs t ∧
    (i = 0 ∨ file.dataLength + (i - 1) * clusterSize vol.geometry < stop)) ?_ ?_ ?_
  · exact ⟨[], rfl, ⟨fun _ => rfl, Grown.start hs hold.empty hcached, SparesLinks.refl hs hr, id,
      fun hne => absurd rfl hne⟩, .inl rfl⟩
  · rintro i _ t - - ⟨cs, hlen, ht, hlast⟩
    have hdata := ht.grown.fields.1
    by_cases hmore : t.2.dataLength < stop
    · obtain ⟨hreg, hclaimable⟩ := hroom (by omega)
      have hcounts := hreg.counts hsound ht.grown ht.flat
      refine wp_mono _ (wp_and _ (growRound_grows ht.grown hs hr hold hcounts hmore)
        (growRound_spares ht.grown hs hold hcounts ht.spares)) ?_ ?_
      · rintro _ u ⟨⟨rfl, c, hu, hend, hflag⟩, hspares⟩
        refine ⟨cs ++ [c], by simp [hlen], ⟨by simp, hu, hspares, fun hfat =>
          ht.flat (hflag hfat).1,
          fun _ hchain => ?_⟩, .inr ?_⟩
        · have hclusters := hu.clusters
          rw [List.length_append, List.length_singleton, ← Nat.add_assoc, extent_succ,
            ← List.append_assoc] at hclusters
          have hlast := (List.cons.inj (List.append_inj' hclusters rfl).2).1
          rw [List.length_append, List.length_singleton, ← Nat.add_assoc, nthCluster_succ hchain,
            hlast, hend]
        · rwa [Nat.add_sub_cancel, ← hlen, ← hdata]
      · -- there was a cluster to claim
        rintro _ u ⟨⟨-, hnone⟩, -⟩
        have hleft := ht.grown.left
        rw [hnone, Nat.zero_add] at hleft
        have hle := clustersFor_le hsound (stop - file.dataLength)
        have hmul := Nat.mul_le_mul_right (clusterSize vol.geometry)
          (hclaimable.trans_eq hleft.symm)
        omega
    · unfold growRound
      rw [wp_bind, wp_getSnd]
      beta_reduce
      rw [wp_ite]
      refine ⟨fun _ => ⟨rfl, cs, ht, Nat.le_of_not_lt hmore, ?_⟩,
        fun hnot => absurd (Nat.le_of_not_lt hmore) hnot⟩
      -- no more clusters than are needed, and no fewer
      apply Nat.le_antisymm
      · rcases Nat.eq_zero_or_pos cs.length with hz | hsome
        · omega
        · have hlt : cs.length - 1 < clustersFor vol.geometry (stop - file.dataLength) := by
            rw [lt_clustersFor hsound]
            rw [← hlen] at hlast
            omega
          omega
      · apply clustersFor_le_of_le hsound
        omega
  · rintro _ t ⟨cs, hlen, -, hlast⟩
    exfalso
    have hdiv := @Nat.lt_div_mul_add (stop - file.dataLength) _ hpos
    generalize (stop - file.dataLength) / clusterSize vol.geometry = q at hlast hdiv
    rcases hlast with hz | hlt
    · omega
    · rw [show 0 + (q + 2) - 1 = q + 1 by omega, Nat.add_mul] at hlt
      omega

end Loop

/-! ### Writing behind the old end -/

section Commit

variable {vol : Volume} {bm : List ℕ} {m : Machine} {f : File} {n : ℕ} {input : List UInt8}

/-- The handle which `append` writes through. -/
def behindEnd (f : File) (k : ℕ) : File :=
  { f with position := f.validLength, validLength := f.validLength + k }

lemma behindEnd_streams {k : ℕ} (hs : Base vol bm m)
    (hcs : Freeable vol bm
      (extent vol.geometry m.device.sectors f.firstCluster f.noFatChain n))
    (hcached : f.cachedClusterIndex = none) :
    Streams vol.geometry m.device.sectors (behindEnd f k) n := by
  refine ⟨fun i hi => hcs.heap _ (nthCluster_mem hi), ?_, fun i hi => ?_⟩
  · have hlength := hcs.length_le hs.ready.sound
    rwa [extent_length] at hlength
  · have hsome : f.cachedClusterIndex = some i := hi
    rw [hcached] at hsome
    cases hsome

lemma commitAppend_writes (hs : Base vol bm m) (hr : ¬ Faulty m)
    (hcs : Freeable vol bm
      (extent vol.geometry m.device.sectors f.firstCluster f.noFatChain n))
    (hplaced : HandlePlaced vol.geometry bm f) (hcached : f.cachedClusterIndex = none)
    (hroom : f.validLength + input.length ≤ n * clusterSize vol.geometry) :
    wp (commitAppend vol input (f.validLength + input.length))
      (fun k u => k = input.length ∧ ∃ v,
        Overwritten vol bm m (behindEnd f input.length) n f.validLength input (v, u.2) ∧
        Became vol bm v u.1 (committed v.device.sectors u.2)) (fun _ _ => False) (m, f) := by
  unfold commitAppend
  rw [wp_bind, wp_modifySnd, wp_bind]
  refine wp_mono _ (write_overwrites hs hr (behindEnd_streams hs hcs hcached) hcs.nodup
    (fun i hi => hcs.apart _ (nthCluster_mem hi)) hroom) ?_ fun _ _ h => h
  rintro k ⟨v, g⟩ ⟨hk, hput⟩
  have hwhole : k = input.length := by
    rw [hk]
    change min input.length (f.validLength + input.length - f.validLength) = _
    omega
  subst hwhole
  rw [List.take_length] at hput
  rw [wp_ite]
  refine ⟨fun hne => absurd rfl hne, fun _ => ?_⟩
  simp only [wp_bind, wp_getSnd, wp_lift, wp_pure]
  have hplaced' : HandlePlaced vol.geometry bm g := by
    have hhandle := hput.writes.handle
    simp only at hhandle
    rw [hhandle]
    exact ⟨hplaced.count, hplaced.primary, hplaced.stream, hplaced.locs⟩
  refine wp_mono _ (updateStream_based hput.writes.relinked.base hplaced') ?_ ?_
  · intro _ u hu
    exact ⟨trivial, v, hput, hu⟩
  · intro _ _ hfail
    exact absurd (hput.writes.relinked.follows.faulty hfail.faulty) hr

end Commit

/-! ### A whole append -/

section Append

variable {vol : Volume} {s : Machine} {path : List Char} {file : File} {P : Dir}
  {e : DirectoryEntry} {input : List UInt8}

lemma clustersFor_add {g : Geometry} {m : ℕ} (hs : Sound g m) (len k : ℕ) :
    clustersFor g (len + k * clusterSize g) = clustersFor g len + k := by
  have hle := clustersFor_le hs len
  apply Nat.le_antisymm
  · apply clustersFor_le_of_le hs
    rw [Nat.add_mul]
    omega
  · rcases Nat.eq_zero_or_pos (clustersFor g len) with hz | hpos
    · rw [hz, Nat.zero_add]
      exact (clustersFor_mul hs k).symm.le.trans (clustersFor_mono (by omega))
    · have hlast : (clustersFor g len - 1) * clusterSize g < len :=
        (lt_clustersFor hs).mp (by omega)
      have hlt : clustersFor g len - 1 + k < clustersFor g (len + k * clusterSize g) := by
        rw [lt_clustersFor hs, Nat.add_mul]
        omega
      omega

/-- There is room for an append: it stays within the clusters of the file, or the stream is regular
and enough clusters can be claimed. -/
def Roomy (vol : Volume) (s : Machine) (file : File) (input : List UInt8) : Prop :=
  file.validLength + input.length ≤ file.dataLength ∨
    ¬ Ragged vol.geometry file ∧
      clustersFor vol.geometry (file.validLength + input.length - file.dataLength) ≤
        claimable vol.geometry (bitmapClusters vol s.device.sectors) s.device.sectors

instance (g : Geometry) (file : File) : Decidable (Ragged g file) :=
  inferInstanceAs (Decidable (_ ∧ _))

instance (vol : Volume) (s : Machine) (file : File) (input : List UInt8) :
    Decidable (Roomy vol s file input) := inferInstanceAs (Decidable (_ ∨ _))

/-- What an append of `input` leaves. -/
structure Appended (vol : Volume) (s : Machine) (file : File) (e : DirectoryEntry)
    (input : List UInt8) (u : Machine × File) : Prop where
  restreamed : ∃ cs,
    cs.length = clustersFor vol.geometry (file.validLength + input.length - file.dataLength) ∧
    (∀ c ∈ cs, used vol.geometry (bitmapClusters vol s.device.sectors) s.device.sectors c = false) ∧
      Restreamed vol s u.1 e u.2 (clustersOfFile vol.geometry s.device.sectors file ++ cs)
  streams : Streams vol.geometry u.1.device.sectors u.2 (clustersFor vol.geometry u.2.dataLength)
  position : u.2.position = file.validLength + input.length
  valid : u.2.validLength = file.validLength + input.length
  bytes : streamBytes vol.geometry u.1.device.sectors
      (clustersOfFile vol.geometry u.1.device.sectors u.2) 0 (file.validLength + input.length) =
    streamBytes vol.geometry s.device.sectors (clustersOfFile vol.geometry s.device.sectors file) 0
      file.validLength ++ input

variable (h : Opened .whole vol s path file P e)

include h

lemma roomy_holding (hinput : input ≠ []) (hroom : Roomy vol s file input) :
    Holding vol (bitmapClusters vol s.device.sectors) s file
      (clustersFor vol.geometry file.dataLength) := by
  have hlen := List.length_pos_of_ne_nil hinput
  rcases hroom with hfits | ⟨hragged, -⟩
  · have hpos := clustersFor_pos h.wf.sound (show file.dataLength ≠ 0 by omega)
    refine ⟨h.freeable, fun c hc => opened_used h hc, fun hz => by omega, ?_⟩
    have hle := clustersFor_le h.wf.sound file.dataLength
    rw [Nat.add_one_mul]
    omega
  · exact opened_holding h (opened_regular h hragged)

lemma roomy_lt (hroom : Roomy vol s file input) : file.validLength + input.length < 2 ^ 64 := by
  have hsound := h.wf.sound
  have hcount := hsound.clusterCount
  have hbytes := hsound.clusterBytes
  have hshort := h.streams.short
  have hle := clustersFor_le hsound file.dataLength
  have hbound {k : ℕ} (hk : k ≤ 2 ^ 33) : k * clusterSize vol.geometry ≤ 2 ^ 58 :=
    (Nat.mul_le_mul hk hbytes).trans_eq (by norm_num)
  have hdata := hbound (show clustersFor vol.geometry file.dataLength ≤ 2 ^ 33 by omega)
  rcases hroom with hfits | ⟨-, hclaimable⟩
  · omega
  · have hfree : claimable vol.geometry (bitmapClusters vol s.device.sectors) s.device.sectors ≤
        vol.geometry.clusterCount := by
      unfold claimable freeCount
      split_ifs
      · exact Nat.zero_le _
      · refine (List.countP_le_length).trans ?_
        simp
    have hmore := hbound (hclaimable.trans (hfree.trans (by omega)))
    have hle' := clustersFor_le hsound (file.validLength + input.length - file.dataLength)
    omega

end Append

/-! ### What the append leaves -/

section Behind

variable {vol : Volume} {s m v w : Machine} {path : List Char} {file f g : File} {P : Dir}
  {e : DirectoryEntry} {input : List UInt8} {cs : List ℕ} {c : ℕ}

/-- An append has grown the stream of `file` to that of `f` and has written `input` through the
handle `g`, whose stream it has committed. -/
structure Written (vol : Volume) (s : Machine) (file : File) (input : List UInt8) (cs : List ℕ)
    (m : Machine) (f : File) (v : Machine) (g : File) (w : Machine) : Prop where
  extended : Extended vol (bitmapClusters vol s.device.sectors) s
    { file with cachedClusterIndex := none } cs (m, f)
  holding : Holding vol (bitmapClusters vol s.device.sectors) s
    { file with cachedClusterIndex := none } (clustersFor vol.geometry file.dataLength)
  long : file.validLength + input.length ≤ f.dataLength
  claims : cs.length =
    clustersFor vol.geometry (file.validLength + input.length - file.dataLength)
  put : Overwritten vol (bitmapClusters vol s.device.sectors) m (behindEnd f input.length)
    (clustersFor vol.geometry file.dataLength + cs.length) f.validLength input (v, g)
  committed : Became vol (bitmapClusters vol s.device.sectors) v w (committed v.device.sectors g)

namespace Written

variable (h : Opened .whole vol s path file P e) (hw : Written vol s file input cs m f v g w)

include hw

lemma fields : f.validLength = file.validLength ∧
    f.dataLength = file.dataLength + cs.length * clusterSize vol.geometry ∧
    g = { f with
      position := file.validLength + input.length
      validLength := file.validLength + input.length
      cachedClusterIndex := g.cachedClusterIndex
      cachedCluster := g.cachedCluster } := by
  obtain ⟨hdata, hvalid, -⟩ := hw.extended.grown.fields
  simp only at hdata hvalid
  have hhandle := hw.put.writes.handle
  simp only [behindEnd, hvalid] at hhandle
  exact ⟨hvalid, hdata, hhandle⟩

lemma names (h : Opened .whole vol s path file P e) : Names g e := by
  obtain ⟨-, -, hg⟩ := hw.fields
  have hf := hw.extended.grown.handle
  simp only at hf
  obtain ⟨hprim, hstream, hlocs, hcount, -⟩ := h.fields
  constructor <;> rw [hg, hf]
  · exact hprim
  · exact hstream
  · exact hlocs
  · exact hcount

include h

lemma freeable : Freeable vol (bitmapClusters vol s.device.sectors)
    (clustersOfFile vol.geometry s.device.sectors file ++ cs) := by
  have hfree := hw.extended.grown.freeable h.wf.base hw.holding
  rwa [hw.extended.grown.clusters] at hfree

lemma streams : Streams vol.geometry m.device.sectors (behindEnd f input.length)
    (clustersFor vol.geometry file.dataLength + cs.length) :=
  behindEnd_streams hw.extended.grown.base (hw.extended.grown.freeable h.wf.base hw.holding)
    hw.extended.grown.fields.2.2.1

lemma sameCluster (hc : vol.geometry.InHeap c)
    (hused : used vol.geometry (bitmapClusters vol s.device.sectors) s.device.sectors c = true)
    (hbm : c ∉ bitmapClusters vol s.device.sectors)
    (hout : c ∉ clustersOfFile vol.geometry s.device.sectors file ++ cs) :
    SameCluster vol.geometry s.device.sectors v.device.sectors c := by
  apply sameCluster_trans (hw.extended.spares.same c hc hused hbm)
  intro lba hin
  refine hw.put.frame lba fun i hi hin' => hout ?_
  have hmem := @nthCluster_mem vol.geometry m.device.sectors f.firstCluster _ f.noFatChain i hi
  rw [hw.extended.grown.clusters] at hmem
  have hheap := (hw.freeable h).heap _ hmem
  have heq := hin.unique (h.wf.sound.inHeap_iff.mp hc).1 (h.wf.sound.inHeap_iff.mp hheap).1 hin'
  rwa [heq]

lemma only : OnlySlots (e.entryLocs.take e.entryCount) v.device.sectors w.device.sectors := by
  obtain ⟨-, hprim, hstream, -⟩ := h.entry.locs
  have hnames := hw.names h
  rw [hw.committed.sectors]
  exact onlySlots_committed (hnames.primary ▸ hprim) (hnames.stream ▸ hstream)

lemma fatEntry_eq (hc : vol.geometry.InHeap c) :
    fatEntry vol.geometry w.device.sectors c = fatEntry vol.geometry m.device.sectors c := by
  rw [(hw.only h).fatEntry_eq h.wf.sound h.placed hc]
  exact hw.put.writes.relinked.fat c hc List.not_mem_nil

lemma used_eq (hc : Counted vol.geometry c) :
    used vol.geometry (bitmapClusters vol s.device.sectors) w.device.sectors c =
      (used vol.geometry (bitmapClusters vol s.device.sectors) s.device.sectors c ||
        decide (c ∈ cs)) := by
  rw [(hw.only h).used_eq h.wf.sound h.placed hw.put.writes.relinked.base.mapped hc,
    hw.put.writes.relinked.used c hc, hw.extended.grown.used c hc]

lemma count : clustersFor vol.geometry g.dataLength =
    clustersFor vol.geometry file.dataLength + cs.length := by
  obtain ⟨-, hdata, hg⟩ := hw.fields
  rw [hg]
  change clustersFor vol.geometry f.dataLength = _
  rw [hdata, clustersFor_add h.wf.sound]

lemma clusters : clustersOfFile vol.geometry w.device.sectors g =
      clustersOfFile vol.geometry s.device.sectors file ++ cs ∧
    ∀ i < clustersFor vol.geometry g.dataLength,
      nthCluster vol.geometry w.device.sectors g.firstCluster g.noFatChain i =
        nthCluster vol.geometry m.device.sectors f.firstCluster f.noFatChain i := by
  obtain ⟨-, -, hg⟩ := hw.fields
  have hfirst : g.firstCluster = f.firstCluster := by rw [hg]
  have hfat : g.noFatChain = f.noFatChain := by rw [hg]
  have hsame : ∀ i < clustersFor vol.geometry file.dataLength + cs.length,
      fatEntry vol.geometry w.device.sectors
        (nthCluster vol.geometry m.device.sectors f.firstCluster f.noFatChain i) =
      fatEntry vol.geometry m.device.sectors
        (nthCluster vol.geometry m.device.sectors f.firstCluster f.noFatChain i) :=
    fun i hi => hw.fatEntry_eq h ((hw.streams h).heap i hi)
  unfold clustersOfFile
  rw [hw.count h, hfirst, hfat, extent_eq fun _ i hi => hsame i (by omega)]
  exact ⟨hw.extended.grown.clusters, fun i hi => extent_congr (fun _ j hj => hsame j (by omega)) hi⟩

lemma ends : ChainEnds vol.geometry w.device.sectors g.firstCluster g.noFatChain
    (clustersFor vol.geometry g.dataLength) := by
  obtain ⟨-, -, hg⟩ := hw.fields
  have hfirst : g.firstCluster = f.firstCluster := by rw [hg]
  have hfat : g.noFatChain = f.noFatChain := by rw [hg]
  have hempty := hw.extended.grown.empty
  have hnth := (hw.clusters h).2
  rw [hw.count h] at hnth ⊢
  intro hchain
  split_ifs with hz
  · rw [hfirst]
    exact hempty hz
  obtain ⟨k, hk⟩ : ∃ k, clustersFor vol.geometry file.dataLength + cs.length = k + 1 :=
    ⟨clustersFor vol.geometry file.dataLength + cs.length - 1, by omega⟩
  have hheap := (hw.streams h).heap k (by omega)
  change vol.geometry.InHeap (nthCluster _ _ f.firstCluster f.noFatChain k) at hheap
  rw [hk] at hnth ⊢
  rw [nthCluster_succ hchain, hnth k (by omega), hw.fatEntry_eq h hheap]
  rw [hfat] at hchain
  rw [← nthCluster_succ hchain, ← hk]
  by_cases hcs : cs = []
  · -- nothing was claimed, and the chain is that of the file
    have hstart := hw.extended.start hcs
    subst hcs
    cases hstart
    obtain ⟨-, -, -, -, hfirst', hdata', -, hfat'⟩ := h.fields
    have hends := (h.wf.entryEnds P e h.inTree h.entry).1
    rw [← hfirst', ← hdata', ← hfat'] at hends
    have hend := hends hchain
    rwa [if_neg (by simpa using hz)] at hend
  · exact hw.extended.ends hcs hchain

lemma slots : ∀ x ∈ P.slots .whole vol.geometry s.device.sectors,
    slotOn v.device.sectors x.loc = x := by
  intro x hx
  obtain ⟨own, howners⟩ := h.wf.owners
  obtain ⟨hon, c, hc, hplaced⟩ := extentSlots_slotOn h.wf.sound hx
  have hother := dir_other h.wf h.inTree h.entry h.isFile h.inTree c hc
  have hbm := (howners.apart (howners.dir h.inTree) (Owners.owner_ne h.inTree)).apart c hc
  have hsame := hw.sameCluster h hother.heap hother.used hbm fun hmem => ?_
  · unfold slotOn
    rw [hsame _ hplaced.inCluster]
    exact hon.symm
  · rcases List.mem_append.mp hmem with hin | hin
    · exact hother.out (h.clusters_eq _ ▸ hin)
    · have hfresh := hw.extended.grown.fresh c hin
      rw [hother.used] at hfresh
      cases hfresh

lemma streamable : Streamable g := by
  obtain ⟨-, hdata, hg⟩ := hw.fields
  have hsound := h.wf.sound
  have hstreams := hw.streams h
  have hbound := hstreams.lt hsound
  have hle := clustersFor_le hsound file.dataLength
  have hlong := hw.long
  set n := clustersFor vol.geometry file.dataLength + cs.length with hn
  have hfits : f.dataLength ≤ n * clusterSize vol.geometry := by
    rw [hdata, hn, Nat.add_mul]
    omega
  have hfirst : 0 < n → vol.geometry.InHeap f.firstCluster := fun hpos => by
    have := hstreams.heap 0 hpos
    rwa [nthCluster_zero] at this
  rw [hg]
  refine ⟨?_, ?_, hlong, fun hne => ?_⟩
  · change f.firstCluster < 2 ^ 32
    rcases Nat.eq_zero_or_pos n with hz | hpos
    · have : f.firstCluster = 0 := hw.extended.grown.empty hz
      omega
    · have := hsound.inHeap_iff.mp (hfirst hpos)
      omega
  · exact hfits.trans_lt hbound
  · refine (hsound.inHeap_iff.mp (hfirst ?_)).1
    by_contra hz
    rw [Nat.eq_zero_of_not_pos hz, Nat.zero_mul] at hfits
    exact hne (Nat.le_zero.mp hfits)

/-- **An append gives the file its clusters and the claimed ones.** -/
theorem restreamed : Restreamed vol s w e g
    (clustersOfFile vol.geometry s.device.sectors file ++ cs) := by
  have hfree := hw.freeable h
  have hstream := h.clusters_eq s.device.sectors
  have hfollows := (hw.extended.grown.follows.trans hw.put.writes.relinked.follows).trans
    hw.committed.follows
  refine ⟨hfollows, hw.committed.base, hw.names h, (hw.clusters h).1, hw.ends h, hfree.heap,
    hfree.nodup, fun c hc => ?_, fun c hc => ?_, fun c hc hused hout => ?_, ⟨v.device.sectors,
    fun c hc hused hbm hout => hw.sameCluster h hc hused hbm hout, hw.only h⟩, ?_⟩
  · rcases List.mem_append.mp hc with hin | hin
    · exact .inl (hstream ▸ hin)
    · exact .inr (hw.extended.grown.fresh c hin)
  · rw [hw.used_eq h hc, ← hstream]
    by_cases hin : c ∈ clustersOfFile vol.geometry s.device.sectors file
    · rw [opened_used h hin]
      simp [hin]
    · simp [hin]
  · rw [hw.fatEntry_eq h hc]
    exact hw.extended.spares.fat c hc hused (hstream ▸ hout)
  · rw [hw.committed.sectors]
    exact set_committed h.wf h.inTree h.entry (hw.slots h) (hw.names h) (hw.streamable h)

lemma byte_put {j : ℕ} (hj : j < file.validLength + input.length) :
    streamByte vol.geometry v.device.sectors
        (clustersOfFile vol.geometry s.device.sectors file ++ cs) j =
      if j < file.validLength then streamByte vol.geometry s.device.sectors
        (clustersOfFile vol.geometry s.device.sectors file) j
      else input.getD (j - file.validLength) 0 := by
  obtain ⟨hvalid, hdata, -⟩ := hw.fields
  have hsound := h.wf.sound
  have hsize := hsound.size_ge
  have hpos : 0 < clusterSize vol.geometry := hsound.clusterBytes_pos
  have hle := clustersFor_le hsound file.dataLength
  have hlong := hw.long
  have hindex : j / clusterSize vol.geometry <
      clustersFor vol.geometry file.dataLength + cs.length := by
    rw [Nat.div_lt_iff_lt_mul hpos, Nat.add_mul]
    omega
  have hbytes := hw.put.bytes j hindex
  change streamByte _ _ (extent _ _ f.firstCluster f.noFatChain _) j =
    if _ then _ else streamByte _ _ (extent _ _ f.firstCluster f.noFatChain _) j at hbytes
  have hclusters := hw.extended.grown.clusters
  simp only at hclusters
  rw [hclusters, hvalid] at hbytes
  change streamByte _ _ (clustersOfFile vol.geometry s.device.sectors file ++ cs) j = _ at hbytes
  rw [hbytes]
  by_cases hold : j < file.validLength
  · rw [if_neg (by omega), if_pos hold]
    have hroom := h.room
    have hlast : j / clusterSize vol.geometry <
        (clustersOfFile vol.geometry s.device.sectors file).length := by
      unfold clustersOfFile
      rw [extent_length, Nat.div_lt_iff_lt_mul hpos]
      omega
    have hcluster : (clustersOfFile vol.geometry s.device.sectors file ++ cs).getD
        (j / clusterSize vol.geometry) 0 = (clustersOfFile vol.geometry s.device.sectors file).getD
          (j / clusterSize vol.geometry) 0 := List.getD_append _ _ _ _ hlast
    have hmem : (clustersOfFile vol.geometry s.device.sectors file).getD
        (j / clusterSize vol.geometry) 0 ∈ clustersOfFile vol.geometry s.device.sectors file := by
      rw [List.getD_eq_getElem _ _ hlast]
      exact List.getElem_mem hlast
    change streamByte _ _ (clustersOfFile vol.geometry s.device.sectors file ++ cs) j = _
    unfold streamByte
    rw [hcluster]
    exact (hw.extended.spares.same _ (h.freeable.heap _ hmem) (opened_used h hmem)
      (h.freeable.apart _ hmem)).byte (by omega) (Nat.mod_lt _ hpos)
  · rw [if_pos (by omega), if_neg hold]

/-- **What the append leaves.** -/
theorem appended : Appended vol s file e input (w, g) := by
  obtain ⟨own, howners⟩ := h.wf.owners
  obtain ⟨-, hdata, hg⟩ := hw.fields
  have hsound := h.wf.sound
  have hsize := hsound.size_ge
  have hpos : 0 < clusterSize vol.geometry := hsound.clusterBytes_pos
  have hstreams := hw.streams h
  have hfirst : g.firstCluster = f.firstCluster := by rw [hg]
  have hfat : g.noFatChain = f.noFatChain := by rw [hg]
  have hnth := (hw.clusters h).2
  have hcount := hw.count h
  refine ⟨⟨cs, hw.claims, hw.extended.grown.fresh, hw.restreamed h⟩,
    ⟨fun i hi => ?_, ?_, fun i hi => ?_⟩, by rw [hg], by rw [hg], ?_⟩
  · rw [hnth i hi]
    exact hstreams.heap i (hcount ▸ hi)
  · change clustersFor vol.geometry g.dataLength ≤ _
    rw [hcount]
    exact hstreams.short
  · obtain ⟨hlt, hcluster⟩ := hw.put.writes.cached i hi
    rw [← hcount] at hlt
    refine ⟨hlt, hcluster.trans ?_⟩
    exact (hnth i hlt).symm
  · simp only
    rw [(hw.clusters h).1]
    refine List.ext_getElem (by simp) fun j h1 h2 => ?_
    have hj : j < file.validLength + input.length := by simpa using h1
    have hle := clustersFor_le hsound file.dataLength
    have hlong := hw.long
    -- the commit writes into the directory
    have hcommit : streamByte vol.geometry w.device.sectors
        (clustersOfFile vol.geometry s.device.sectors file ++ cs) j =
      streamByte vol.geometry v.device.sectors
        (clustersOfFile vol.geometry s.device.sectors file ++ cs) j := by
      refine streamByte_congr (by omega) hpos ?_ fun c hc => (hw.only h).sameCluster
        (h.no_slot ((hw.freeable h).heap c hc) fun hdir => ?_)
      · unfold clustersOfFile
        rw [List.length_append, extent_length, Nat.add_mul]
        omega
      · have hother := dir_other h.wf h.inTree h.entry h.isFile h.inTree c hdir
        rcases List.mem_append.mp hc with hin | hin
        · exact hother.out (h.clusters_eq _ ▸ hin)
        · have hfresh := hw.extended.grown.fresh c hin
          rw [hother.used] at hfresh
          cases hfresh
    have hbyte := hw.byte_put h hj
    simp only [streamBytes, List.getElem_map, List.getElem_range, Nat.zero_add]
    rw [hcommit, hbyte]
    split_ifs with hold
    · rw [List.getElem_append_left (by simpa using hold)]
      simp
    · rw [List.getElem_append_right (by simpa using hold)]
      have hlt : j - file.validLength < input.length := by omega
      simp only [List.length_map, List.length_range]
      exact List.getD_eq_getElem _ _ hlt

end Written

/-- **An append which finds room** puts its input behind the bytes of the file. -/
theorem append_extends (h : Opened .whole vol s path file P e) (hinput : input ≠ [])
    (hroom : Roomy vol s file input) :
    wp (append vol input) (fun k u => k = input.length ∧ Appended vol s file e input u)
      (fun _ _ => False) (s, file) := by
  have hbase := h.wf.base
  have hsound := h.wf.sound
  have hplaced := h.handlePlaced
  have hvalid := h.valid_le
  have hholding := roomy_holding h hinput hroom
  have hhold : Holding vol (bitmapClusters vol s.device.sectors) s
      { file with cachedClusterIndex := none } (clustersFor vol.geometry file.dataLength) :=
    ⟨hholding.freeable, hholding.used, hholding.empty, hholding.length⟩
  refine wp_mono _ (wp_append (fun _ => False) hinput (Q := fun k u => k = input.length ∧
    Appended vol s file e input u) ?_) (fun _ _ hu => hu) fun _ _ hf => hf.2
  refine wp_appendBody hsound (roomy_lt h hroom) ?_
  refine wp_mono _ (@growLoop_extends vol _ s { file with cachedClusterIndex := none }
    (file.validLength + input.length) hbase h.faultless hhold rfl fun hmore => ?_) ?_
    fun _ _ hf => hf
  · rcases hroom with hfits | ⟨hragged, hclaimable⟩
    · exact absurd hmore (Nat.not_lt.mpr hfits)
    · have hreg := opened_regular h hragged
      exact ⟨⟨hreg.whole, hreg.empty⟩, hclaimable⟩
  rintro _ ⟨m, f⟩ ⟨rfl, cs, hext, hlong, hclaims⟩
  obtain ⟨hdata, hvalid', hcached, hplaced'⟩ := hext.grown.fields
  simp only at hdata hvalid' hcached hplaced' hlong
  have hle := clustersFor_le hsound file.dataLength
  refine ⟨rfl, ?_⟩
  rw [← hvalid']
  refine wp_mono _ (commitAppend_writes hext.grown.base hext.spares.faultless
    (hext.grown.freeable hbase hhold) (hplaced' ⟨hplaced.count, hplaced.primary, hplaced.stream,
    hplaced.locs⟩) hcached ?_) ?_ fun _ _ hf => hf
  · rw [hvalid', Nat.add_mul]
    change file.validLength + input.length ≤
      clustersFor vol.geometry file.dataLength * clusterSize vol.geometry + _
    omega
  · rintro k ⟨w, g⟩ ⟨rfl, v, hput, hcommitted⟩
    exact ⟨rfl, Written.appended h ⟨hext, hhold, hlong, hclaims, hput, hcommitted⟩⟩

end Behind

end ExfatEmbedded.Extending
