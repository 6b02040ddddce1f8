import ExfatEmbedded.Release

/-!
The allocator claims the first free cluster in its order and touches nothing else.
-/

namespace ExfatEmbedded.Allocator

open ExfatEmbedded.Library Exec ExfatEmbedded.Core ExfatEmbedded.Entry ExfatEmbedded.Allocation
open ExfatEmbedded.Mount ExfatEmbedded.Reading ExfatEmbedded.Listing ExfatEmbedded.ReadSafety
open ExfatEmbedded.FatWrites ExfatEmbedded.Media ExfatEmbedded.Writing ExfatEmbedded.Tree
open ExfatEmbedded.Release

/-! ### A claimed cluster -/

section Claimed

variable {vol : Volume} {bm : List ℕ} {d : Sectors} {n c c' : ℕ}

lemma zeroed_of_outside {g : Geometry} {k lba : ℕ} (hk : k ≤ g.sectorsPerCluster)
    (hout : ¬ InCluster g c lba) : zeroed g d c k lba = d lba := by
  funext i
  unfold zeroed
  rw [if_neg]
  rintro ⟨h1, h2, -⟩
  refine hout ?_
  unfold InCluster
  omega

lemma fatEntry_zeroed (hs : Sound vol.geometry n) (hc' : vol.geometry.InHeap c') :
    fatEntry vol.geometry (zeroed vol.geometry d c vol.geometry.sectorsPerCluster) c' =
      fatEntry vol.geometry d c' := by
  refine fatEntry_congr hs hc' fun lba hbelow => zeroed_of_outside le_rfl fun hin => ?_
  exact hin.not_below hbelow

variable (h : Mapped vol bm d) (hs : Sound vol.geometry n) (hc : vol.geometry.InHeap c)
  (hbm : c ∉ bm)

include h hs

lemma mapped_zeroed : Mapped vol bm (zeroed vol.geometry d c vol.geometry.sectorsPerCluster) :=
  h.congr fun _ hc' => fatEntry_zeroed hs (h.heap _ hc')

include hc hbm

lemma used_zeroed (hc' : Counted vol.geometry c') :
    used vol.geometry bm (zeroed vol.geometry d c vol.geometry.sectorsPerCluster) c' =
      used vol.geometry bm d c' := by
  refine h.used_congr hs hc' fun c'' hc'' lba hin => zeroed_of_outside le_rfl fun hin' => ?_
  have heq := hin'.unique (hs.inHeap_iff.mp hc).1 (hs.inHeap_iff.mp (h.heap _ hc'')).1 hin
  exact hbm (heq ▸ hc'')

lemma used_claimed (hc' : Counted vol.geometry c') :
    used vol.geometry bm (claimed vol.geometry bm d c) c' =
      if c' = c then true else used vol.geometry bm d c' := by
  have hm := @mapped_zeroed _ _ _ _ c h hs
  unfold claimed
  rw [used_setEntry (mapped_setBit hm hs c true) hs hc _ hc',
    hm.used_setBit hs (counted_of_inHeap hs hc) true c' hc', used_zeroed h hs hc hbm hc']

omit h hc hbm in
lemma fatEntry_claimed_ne (hne : c ≠ c') (hc' : vol.geometry.InHeap c') :
    fatEntry vol.geometry (claimed vol.geometry bm d c) c' = fatEntry vol.geometry d c' := by
  unfold claimed
  rw [fatEntry_setEntry_ne _ _ hne, fatEntry_setBit hs true hc', fatEntry_zeroed hs hc']

end Claimed

lemma fatEntry_claimed (g : Geometry) (bm : List ℕ) (d : Sectors) (c : ℕ) :
    fatEntry g (claimed g bm d c) c = 0xffffffff := fatEntry_setEntry _ (by decide)

lemma freeCount_marked {g : Geometry} {bm : List ℕ} {d d' : Sectors} {c : ℕ} (hc : Counted g c)
    (hfree : used g bm d c = false)
    (h : ∀ x, Counted g x → used g bm d' x = if x = c then true else used g bm d x) :
    freeCount g bm d = freeCount g bm d' + 1 := by
  refine countP_update (c := c) List.nodup_range' (counted_iff_mem.mp hc) ?_ ?_ fun x hx hne => ?_
  · simp [hfree]
  · simp [h c hc]
  · simp [h x (counted_iff_mem.mpr hx), hne]

lemma freeCount_eq_zero {g : Geometry} {bm : List ℕ} {d : Sectors} :
    freeCount g bm d = 0 ↔ ∀ c, Counted g c → used g bm d c = true := by
  unfold freeCount
  rw [List.countP_eq_zero]
  constructor
  · intro h c hc
    simpa using h c (counted_iff_mem.mp hc)
  · intro h c hc
    simp [h c (counted_iff_mem.mpr hc)]

/-! ### The allocator -/

section Allocator

variable {vol : Volume} {bm : List ℕ} {s : Machine}

lemma Follows.faultless {s t : Machine} (h : Follows s t) (hs : ¬ Faulty s) : ¬ Faulty t :=
  fun ht => hs (h.faulty ht)

lemma claimFirstFree_full {first n : ℕ} (hs : Base vol bm s) (hr : ¬ Faulty s)
    (hfull : ∀ c, Counted vol.geometry c → used vol.geometry bm s.device.sectors c = true)
    (hrange : ∀ c, first ≤ c → c < first + n → Counted vol.geometry c) :
    wp (claimFirstFree vol first n)
      (fun r t => r = .inr () ∧ Wrote s t s.device.sectors) (fun _ _ => False) s := by
  induction n generalizing first s with
  | zero => exact ⟨rfl, Wrote.refl s⟩
  | succ n ih =>
    have hc := hrange first le_rfl (by omega)
    unfold claimFirstFree
    rw [Exec.loop_succ, bind_assoc, wp_bind]
    have hclaim : wp (claimFreeCluster vol first)
        (fun o t => o = none ∧ Wrote s t s.device.sectors) (fun _ _ => False) s := by
      unfold claimFreeCluster
      rw [wp_bind]
      refine wp_mono _ (bitmapUsed_spec hs.ready hs.mapped hc) ?_ fun _ _ h => hr h.faulty
      rintro b t ⟨rfl, ht⟩
      rw [hfull first hc]
      exact ⟨rfl, ht⟩
    refine wp_mono _ hclaim ?_ fun _ _ h => h
    rintro _ t ⟨rfl, ht⟩
    have hrest := @ih t (first + 1) (ht.same hs).base (Follows.faultless ht.follows hr)
      (by rwa [ht.sectors]) fun c h1 h2 => hrange c (by omega) (by omega)
    refine wp_mono _ hrest ?_ fun _ _ h => h
    rintro r u ⟨rfl, hu⟩
    exact ⟨rfl, ht.trans (ht.sectors ▸ hu)⟩

/-- The number of clusters which the allocator can claim. -/
def claimable (g : Geometry) (bm : List ℕ) (d : Sectors) : ℕ :=
  if 2 ^ 32 ≤ g.clusterCount + 2 then 0 else freeCount g bm d

lemma allocate_refuses {preferred : ℕ} (hs : Base vol bm s) (hr : ¬ Faulty s)
    (hnone : claimable vol.geometry bm s.device.sectors = 0) :
    wp (allocateClusterPreferred vol preferred) (fun _ _ => False)
      (fun _ t => Wrote s t s.device.sectors) s := by
  unfold allocateClusterPreferred
  rw [wp_bind, wp_okOr]
  refine ⟨fun stop hstop => ?_, fun _ => Wrote.refl s⟩
  unfold checkedAdd32 at hstop
  split_ifs at hstop with hlt
  cases hstop
  unfold claimable at hnone
  rw [if_neg (by omega), freeCount_eq_zero] at hnone
  simp only
  generalize hfirst : (if 2 ≤ preferred ∧ preferred < vol.geometry.clusterCount + 2
    then preferred else 2) = first
  have hrange : 2 ≤ first ∧ first ≤ vol.geometry.clusterCount + 2 := by
    split_ifs at hfirst <;> omega
  rw [wp_bind]
  refine wp_mono _ (claimFirstFree_full hs hr hnone fun c h1 h2 => ⟨by omega, by omega⟩) ?_
    fun _ _ h => h.elim
  rintro _ t ⟨rfl, ht⟩
  simp only [wp_bind]
  refine wp_mono _ (claimFirstFree_full (ht.same hs).base (Follows.faultless ht.follows hr)
    (by rwa [ht.sectors]) fun c h1 h2 => ⟨by omega, by omega⟩) ?_ fun _ _ h => h.elim
  rintro _ u ⟨rfl, hu⟩
  exact ht.trans (ht.sectors ▸ hu)

lemma allocate_claims {preferred : ℕ} (hs : Base vol bm s) (hr : ¬ Faulty s)
    (hsome : 0 < claimable vol.geometry bm s.device.sectors) :
    wp (allocateClusterPreferred vol preferred)
      (fun c t => vol.geometry.InHeap c ∧ used vol.geometry bm s.device.sectors c = false ∧
        Became vol bm s t (claimed vol.geometry bm s.device.sectors c)) (fun _ _ => False) s := by
  unfold claimable at hsome
  split_ifs at hsome with hcount
  · omega
  refine wp_mono _ (allocateClusterPreferred_based hs) ?_ ?_
  · rintro c t ⟨hfind, hc, ht⟩
    exact ⟨hc, by simpa using List.find?_some hfind, ht⟩
  · rintro e t (h | ⟨-, hfull, -⟩ | ⟨-, hmany, -⟩)
    · exact hr h.faulty
    · have := freeCount_eq_zero.mpr hfull
      omega
    · exact hcount hmany

end Allocator

/-! ### What a claim changes -/

/-- The byte of the bitmap with the bit of `c`, and where it is. -/
def bitByte (c : ℕ) : ℕ := (c - 2) / 8

section Frame

variable {vol : Volume} {bm : List ℕ} {d : Sectors} {n c : ℕ}

lemma setBit_put (hfree : used vol.geometry bm d c = false) :
    setBit vol.geometry bm d c true = put d (streamPos vol.geometry bm (bitByte c)).1
      (streamPos vol.geometry bm (bitByte c)).2
      (leBytes 1 ((streamByte vol.geometry d bm (bitByte c)).toNat + 2 ^ ((c - 2) % 8))) := by
  rw [setBit_of_ne (by rw [hfree]; decide)]
  rfl

variable (h : Mapped vol bm d) (hs : Sound vol.geometry n) (hc : vol.geometry.InHeap c)
  (hbm : c ∉ bm)

include h hs hc hbm

lemma bit_outside {lba : ℕ} (hin : InCluster vol.geometry c lba) :
    lba ≠ (streamPos vol.geometry bm (bitByte c)).1 := by
  rintro rfl
  have hmem := h.getD_mem hs (h.byte_lt (counted_of_inHeap hs hc))
  have heq := hin.unique (hs.inHeap_iff.mp hc).1 (hs.inHeap_iff.mp (h.heap _ hmem)).1
    (streamPos_inCluster hs bm (bitByte c))
  exact hbm (heq ▸ hmem)

lemma claimed_zero {lba i : ℕ} (hin : InCluster vol.geometry c lba)
    (hi : i < vol.geometry.bytesPerSector) : claimed vol.geometry bm d c lba i = 0 := by
  unfold claimed
  have hfat : lba ≠ fatLba vol.geometry c := by
    rintro rfl
    exact hin.not_below (hs.fatLba_lt hc)
  rw [setEntry_eq_put, put_of_ne hfat]
  have hzero : zeroed vol.geometry d c vol.geometry.sectorsPerCluster lba i = 0 := by
    unfold zeroed
    exact if_pos ⟨hin.1, hin.2, hi⟩
  by_cases hset : used vol.geometry bm (zeroed vol.geometry d c vol.geometry.sectorsPerCluster) c =
    true
  · rw [setBit_of_eq hset, hzero]
  · rw [setBit_put (by simpa using hset), put_of_ne (bit_outside h hs hc hbm hin), hzero]

lemma claimed_frame (hfree : used vol.geometry bm d c = false) {lba i : ℕ}
    (hne : claimed vol.geometry bm d c lba i ≠ d lba i) :
    InCluster vol.geometry c lba ∨
      (lba = fatLba vol.geometry c ∧ c * 4 % vol.geometry.bytesPerSector ≤ i ∧
        i < c * 4 % vol.geometry.bytesPerSector + 4) ∨
      (lba, i) = streamPos vol.geometry bm (bitByte c) := by
  by_contra hout
  rw [not_or, not_or] at hout
  obtain ⟨hin, hfat, hbit⟩ := hout
  refine hne ?_
  unfold claimed
  rw [setEntry_eq_put, put_outside (by rw [leBytes_length]; omega), setBit_put, put_outside,
    zeroed_of_outside le_rfl hin]
  · by_contra hsame
    rw [leBytes_length] at hsame
    refine hbit ?_
    ext
    · omega
    · simp only
      omega
  · rw [used_zeroed h hs hc hbm (counted_of_inHeap hs hc), hfree]

lemma claimed_bit (hfree : used vol.geometry bm d c = false) {c' : ℕ} (h2 : 2 ≤ c')
    (hlt : bitByte c' < vol.bitmap.byteLength) :
    used vol.geometry bm (claimed vol.geometry bm d c) c' =
      if c' = c then true else used vol.geometry bm d c' := by
  have hcounted := counted_of_inHeap hs hc
  have hindex := h.index_lt hs (h.byte_lt hcounted)
  have hindex' := h.index_lt hs hlt
  have hmem' := h.getD_mem hs hlt
  have hne : (streamPos vol.geometry bm (bitByte c')).1 ≠ fatLba vol.geometry c := by
    intro heq
    have hin := streamPos_inCluster hs bm (bitByte c')
    rw [heq] at hin
    exact hin.not_below (hs.fatLba_lt hc)
  have hzeroed (j : ℕ) (hj : j < vol.bitmap.byteLength) :
      streamByte vol.geometry (zeroed vol.geometry d c vol.geometry.sectorsPerCluster) bm j =
        streamByte vol.geometry d bm j := by
    rw [streamByte_eq, streamByte_eq, zeroed_of_outside le_rfl]
    intro hin
    have hmem := h.getD_mem hs hj
    have heq := hin.unique (hs.inHeap_iff.mp hc).1 (hs.inHeap_iff.mp (h.heap _ hmem)).1
      (streamPos_inCluster hs bm j)
    exact hbm (heq ▸ hmem)
  have hfree' : used vol.geometry bm (zeroed vol.geometry d c vol.geometry.sectorsPerCluster) c =
      false := by rw [used_zeroed h hs hc hbm hcounted, hfree]
  unfold claimed
  change (streamByte vol.geometry _ bm (bitByte c')).toNat.testBit ((c' - 2) % 8) = _
  rw [streamByte_eq, setEntry_eq_put, put_of_ne hne, setBit_put hfree']
  by_cases hbyte : bitByte c' = bitByte c
  · have hv := (streamByte vol.geometry d bm (bitByte c)).toNat_lt
    have hk : (c' - 2) % 8 = (c - 2) % 8 ↔ c' = c := by
      have := hcounted.1
      unfold bitByte at hbyte
      omega
    have hbit : (streamByte vol.geometry d bm (bitByte c)).toNat.testBit ((c - 2) % 8) = false :=
      hfree
    rw [hbyte, leBytes, put_head, hzeroed (bitByte c) (h.byte_lt hcounted)]
    obtain ⟨hsum, htest⟩ := testBit_add hv (Nat.mod_lt _ (by decide))
      (Nat.mod_lt (c' - 2) (by decide)) hbit
    rw [UInt8.toNat_ofNat', Nat.mod_eq_of_lt hsum, htest]
    unfold used
    change (if (c' - 2) % 8 = (c - 2) % 8 then true else _) = _
    simp only [hk]
    change _ = if c' = c then true else
      (streamByte vol.geometry d bm (bitByte c')).toNat.testBit ((c' - 2) % 8)
    rw [hbyte]
  · have hcc : c' ≠ c := by
      rintro rfl
      exact hbyte rfl
    rw [if_neg hcc, put_outside]
    · change (streamByte vol.geometry (zeroed vol.geometry d c vol.geometry.sectorsPerCluster) bm
        (bitByte c')).toNat.testBit ((c' - 2) % 8) = _
      rw [hzeroed _ hlt]
      rfl
    · by_contra hsame
      rw [leBytes_length] at hsame
      refine hbyte (streamPos_inj hs h.heap h.nodup hindex' hindex ?_)
      ext
      · omega
      · omega

end Frame

/-! ### Allocation on a mounted volume -/

/-- The allocation bitmap covers the heap, and is in the first `n` clusters of a chain which ends
behind them; they are marked used. -/
structure BitmapChain (vol : Volume) (d : Sectors) (n : ℕ) : Prop where
  covers : vol.geometry.clusterCount ≤ vol.bitmap.byteLength * 8
  room : vol.bitmap.byteLength ≤ n * clusterSize vol.geometry
  heap : ∀ i < n, vol.geometry.InHeap (link vol.geometry d vol.bitmap.firstCluster i)
  ended : ¬ vol.geometry.InHeap (link vol.geometry d vol.bitmap.firstCluster n)
  marked : ∀ i < n, used vol.geometry (extent vol.geometry d vol.bitmap.firstCluster false n) d
    (link vol.geometry d vol.bitmap.firstCluster i) = true

lemma nodup_of_ended {g : Geometry} {d : Sectors} {first n : ℕ}
    (hheap : ∀ i < n, g.InHeap (link g d first i)) (hend : ¬ g.InHeap (link g d first n)) :
    (extent g d first false n).Nodup := by
  have happ (i j : ℕ) : link g d first (i + j) = link g d (link g d first i) j :=
    link_add g d first i j
  have hlt {i j : ℕ} (hi : i < j) (hj : j < n) : link g d first i ≠ link g d first j := by
    intro heq
    -- the chain would go on from `i` as it does from `j`
    refine hend ?_
    rw [show n = j + (n - j) by omega, happ, ← heq, ← happ]
    exact hheap _ (by omega)
  unfold extent
  refine List.Nodup.map_on ?_ List.nodup_range
  intro i hi j hj heq
  rw [List.mem_range] at hi hj
  rcases Nat.lt_trichotomy i j with h | h | h
  · exact absurd heq (hlt h hj)
  · exact h
  · exact absurd heq.symm (hlt h hi)

lemma BitmapChain.base {vol : Volume} {s : Machine} {n : ℕ}
    (h : BitmapChain vol s.device.sectors n) (hs : Ready vol.geometry s)
    (htally : Tally vol.geometry
      (extent vol.geometry s.device.sectors vol.bitmap.firstCluster false n) s) :
    Base vol (extent vol.geometry s.device.sectors vol.bitmap.firstCluster false n) s := by
  have hnodup := nodup_of_ended h.heap h.ended
  have hheap : ∀ c ∈ extent vol.geometry s.device.sectors vol.bitmap.firstCluster false n,
      vol.geometry.InHeap c := by
    intro c hc
    obtain ⟨i, hi, rfl⟩ := mem_extent.mp hc
    exact h.heap i hi
  refine ⟨hs, ⟨fun i hi => ?_, hheap, ?_, h.covers, length_le_heap hs.sound hheap hnodup, hnodup⟩,
    fun c hc => ?_, htally⟩
  · rw [extent_length] at hi
    rw [extent_getD hi]
    rfl
  · rw [extent_length]
    exact h.room
  · obtain ⟨i, hi, rfl⟩ := mem_extent.mp hc
    exact h.marked i hi

/-- From `d` to `d'` the cluster `c` has been claimed: it is zero, marked and the end of a chain,
and nothing else has changed. -/
structure Claims (vol : Volume) (bm : List ℕ) (d d' : Sectors) (c : ℕ) : Prop where
  zero : ∀ lba, InCluster vol.geometry c lba → ∀ i < vol.geometry.bytesPerSector, d' lba i = 0
  bits : ∀ c', 2 ≤ c' → bitByte c' < vol.bitmap.byteLength → used vol.geometry bm d' c' =
    if c' = c then true else used vol.geometry bm d c'
  fat : fatEntry vol.geometry d' c = 0xffffffff
  links : ∀ c', vol.geometry.InHeap c' → c' ≠ c →
    fatEntry vol.geometry d' c' = fatEntry vol.geometry d c'
  frame : ∀ lba i, d' lba i ≠ d lba i → InCluster vol.geometry c lba ∨
    (lba = fatLba vol.geometry c ∧ c * 4 % vol.geometry.bytesPerSector ≤ i ∧
      i < c * 4 % vol.geometry.bytesPerSector + 4) ∨
    (lba, i) = streamPos vol.geometry bm (bitByte c)

lemma claims_claimed {vol : Volume} {bm : List ℕ} {d : Sectors} {n c : ℕ} (h : Mapped vol bm d)
    (hs : Sound vol.geometry n) (hc : vol.geometry.InHeap c) (hbm : c ∉ bm)
    (hfree : used vol.geometry bm d c = false) :
    Claims vol bm d (claimed vol.geometry bm d c) c where
  zero _ hin _ hi := claimed_zero h hs hc hbm hin hi
  bits _ h2 hlt := claimed_bit h hs hc hbm hfree h2 hlt
  fat := fatEntry_claimed _ _ _ _
  links _ hc' hne := fatEntry_claimed_ne hs (Ne.symm hne) hc'
  frame _ _ hne := claimed_frame h hs hc hbm hfree hne

/-- The allocator claims the first free cluster in its order, and fails when there is none. -/
structure Allocates (vol : Volume) (bm : List ℕ) (s : Machine) (preferred : ℕ) : Prop where
  first : ∀ c, (allocateClusterPreferred vol preferred s).1 = .ok c ↔
    (tryOrder vol.geometry preferred).find?
      (fun c => !used vol.geometry bm s.device.sectors c) = some c
  some : (∃ c, (allocateClusterPreferred vol preferred s).1 = .ok c) ↔
    ∃ c, Counted vol.geometry c ∧ used vol.geometry bm s.device.sectors c = false
  claims : ∀ c, (allocateClusterPreferred vol preferred s).1 = .ok c →
    Claims vol bm s.device.sectors (allocateClusterPreferred vol preferred s).2.device.sectors c
  full : (allocateClusterPreferred vol preferred s).1 = .err .noSpace ↔
    ∀ c, Counted vol.geometry c → used vol.geometry bm s.device.sectors c = true
  unchanged : (allocateClusterPreferred vol preferred s).1 = .err .noSpace →
    (allocateClusterPreferred vol preferred s).2.device.sectors = s.device.sectors

lemma mem_tryOrder {g : Geometry} {preferred c : ℕ} : c ∈ tryOrder g preferred ↔ Counted g c := by
  unfold tryOrder Counted
  simp only
  generalize hfirst : (if 2 ≤ preferred ∧ preferred < g.clusterCount + 2 then preferred else 2) =
    first
  have hrange : 2 ≤ first ∧ first ≤ g.clusterCount + 2 := by
    split_ifs at hfirst <;> omega
  rw [List.mem_append, List.mem_range'_1, List.mem_range'_1]
  omega

/-- **The allocator is complete, cyclic and local.** -/
theorem allocateClusterPreferred_allocates (vol : Volume) (s : Machine) (n preferred : ℕ)
    (hvol : MountedOn vol s) (hscratch : vol.geometry.bytesPerSector ≤ s.scratch.len)
    (hcount : vol.geometry.clusterCount + 2 < 2 ^ 32)
    (hbitmap : BitmapChain vol s.device.sectors n)
    (htally : Tally vol.geometry
      (extent vol.geometry s.device.sectors vol.bitmap.firstCluster false n) s)
    (hfaultless : ¬ Faulty s) :
    Allocates vol (extent vol.geometry s.device.sectors vol.bitmap.firstCluster false n) s
      preferred := by
  set bm := extent vol.geometry s.device.sectors vol.bitmap.firstCluster false n with hbm
  have hs : Base vol bm s := hbitmap.base ⟨hvol.sound, hscratch⟩ htally
  have hsound := hs.ready.sound
  have hfind_none : (tryOrder vol.geometry preferred).find?
      (fun c => !used vol.geometry bm s.device.sectors c) = none ↔
        ∀ c, Counted vol.geometry c → used vol.geometry bm s.device.sectors c = true := by
    simp only [List.find?_eq_none, mem_tryOrder, Bool.not_eq_true', Bool.not_eq_false]
  rcases Nat.eq_zero_or_pos (claimable vol.geometry bm s.device.sectors) with hnone | hsome
  · have hfull : ∀ c, Counted vol.geometry c → used vol.geometry bm s.device.sectors c = true := by
      unfold claimable at hnone
      rwa [if_neg (by omega), freeCount_eq_zero] at hnone
    have hfind := hfind_none.mpr hfull
    have hrun := wp_and _ (allocateClusterPreferred_based hs)
      (@allocate_refuses vol bm s preferred hs hfaultless hnone)
    obtain ⟨e, t, hrun, he⟩ : ∃ e t, allocateClusterPreferred vol preferred s = (.err e, t) ∧
        e = .noSpace ∧ t.device.sectors = s.device.sectors := by
      rcases hm : allocateClusterPreferred vol preferred s with ⟨c | e | _, t⟩
      · exact ((wp_ok hm).mp hrun).2.elim
      · obtain ⟨h1, h2⟩ := (wp_err hm).mp hrun
        refine ⟨e, t, rfl, ?_, h2.sectors⟩
        rcases h1 with h | ⟨he, -, -⟩ | ⟨-, hmany, -⟩
        · exact absurd h.faulty hfaultless
        · exact he
        · omega
      · unfold wp at hrun
        rw [hm] at hrun
        exact hrun.elim
    obtain ⟨rfl, hsectors⟩ := he
    refine ⟨fun c => ?_, ?_, fun c hc => ?_, ?_, fun _ => ?_⟩ <;> simp only [hrun] at *
    · rw [hfind]
      simp
    · constructor
      · rintro ⟨c, hc⟩
        cases hc
      · rintro ⟨c, hc, hfree⟩
        rw [hfull c hc] at hfree
        cases hfree
    · cases hc
    · simpa using hfull
    · exact hsectors
  · have hclaims := wp_and _ (allocateClusterPreferred_based hs)
      (@allocate_claims vol bm s preferred hs hfaultless hsome)
    obtain ⟨c, t, hrun, ⟨hfind, hc, -⟩, -, hfree, hbecame⟩ := exists_of_wp (wp_mono _ hclaims
      (fun _ _ h => h) fun _ _ h => h.2)
    have hcbm : c ∉ bm := fun hmem => by
      rw [hs.marked c hmem] at hfree
      cases hfree
    have hcounted := counted_of_inHeap hsound hc
    refine ⟨fun c' => ?_, ?_, fun c' hc' => ?_, ?_, fun h => ?_⟩ <;> simp only [hrun] at *
    · rw [hfind, Outcome.ok.injEq, Option.some.injEq]
    · exact ⟨fun _ => ⟨c, hcounted, hfree⟩, fun _ => ⟨c, rfl⟩⟩
    · cases hc'
      rw [hbecame.sectors]
      exact claims_claimed hs.mapped hsound hc hcbm hfree
    · constructor
      · intro h
        cases h
      · intro hfull
        rw [hfull c hcounted] at hfree
        cases hfree
    · cases h

/-- A small volume with nothing in its root. -/
def blank : Machine :=
  smallMachine smallFat (sectorWith [(0, [0x07])]) (sectorWith (systemSlots 0))

lemma mount_blank : (mount blank).1 = .ok smallVolume := by decide +kernel

lemma bitmapChain_blank : BitmapChain smallVolume blank.device.sectors 1 := by
  refine ⟨by decide, by decide, fun i hi => ?_, by decide +kernel, fun i hi => ?_⟩
  · obtain rfl : i = 0 := by omega
    decide +kernel
  · obtain rfl : i = 0 := by omega
    decide +kernel

theorem allocateClusterPreferred_allocates_blank : Allocates smallVolume
    (extent smallVolume.geometry blank.device.sectors smallVolume.bitmap.firstCluster false 1)
    blank 99 :=
  allocateClusterPreferred_allocates smallVolume blank 1 99 ⟨blank, mount_blank, rfl⟩ (by decide)
    (by decide) bitmapChain_blank nofun (by rintro ⟨n, h | h⟩ <;> cases h)

end ExfatEmbedded.Allocator
