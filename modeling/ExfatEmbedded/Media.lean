import Mathlib.Data.List.GetD
import Mathlib.Data.List.Nodup
import Mathlib.Tactic.IntervalCases
import ExfatEmbedded.StreamSafety

/-!
The media as FAT entries, bitmap bits and bytes of clusters.

Everything the program writes is a string of bytes put into one sector.
-/

namespace ExfatEmbedded.Media

open ExfatEmbedded.Library Exec ExfatEmbedded.Core ExfatEmbedded.Entry ExfatEmbedded.Allocation
open ExfatEmbedded.Reading ExfatEmbedded.FatWrites

/-! ### Bytes put into a sector -/

/-- The media with `bs` at byte `off` of sector `lba`. -/
def put (d : Sectors) (lba off : ℕ) (bs : List UInt8) : Sectors := fun l =>
  if l = lba then Image.patch (d l) off bs else d l

section Put

variable {d : Sectors} {lba off : ℕ} {bs : List UInt8}

lemma put_of_ne {l : ℕ} (h : l ≠ lba) : put d lba off bs l = d l := if_neg h

lemma put_self : put d lba off bs lba = Image.patch (d lba) off bs := if_pos rfl

lemma put_outside {l i : ℕ} (h : l ≠ lba ∨ i < off ∨ off + bs.length ≤ i) :
    put d lba off bs l i = d l i := by
  by_cases hl : l = lba
  · subst hl
    rw [put_self]
    rcases h with h | h | h
    · exact absurd rfl h
    · exact Image.patch_of_lt h
    · exact Image.patch_of_ge h
  · rw [put_of_ne hl]

lemma put_inside {i : ℕ} (h : i < bs.length) : put d lba off bs lba (off + i) = bs.getD i 0 := by
  rw [put_self, Image.patch_in h]

lemma put_head {b : UInt8} : put d lba off (b :: bs) lba off = b := by
  simpa using @put_inside d lba off (b :: bs) 0 (by simp)

lemma put_ne {l i : ℕ} (h : put d lba off bs l i ≠ d l i) :
    l = lba ∧ off ≤ i ∧ i < off + bs.length := by
  by_contra hout
  exact h (put_outside (by omega))

lemma setEntry_eq_put (g : Geometry) (d : Sectors) (c v : ℕ) :
    setEntry g d c v = put d (fatLba g c) (c * 4 % g.bytesPerSector) (leBytes 4 v) := rfl

end Put

/-! ### Clusters -/

/-- The number of bytes in a cluster. -/
abbrev clusterSize (g : Geometry) : ℕ := g.bytesPerSector * g.sectorsPerCluster

/-- Sector `lba` lies in cluster `c`. -/
def InCluster (g : Geometry) (c lba : ℕ) : Prop :=
  heapLba g c ≤ lba ∧ lba < heapLba g c + g.sectorsPerCluster

/-- Byte `i` of cluster `c`. -/
def clusterByte (g : Geometry) (d : Sectors) (c i : ℕ) : UInt8 :=
  d (heapLba g c + i / g.bytesPerSector) (i % g.bytesPerSector)

/-- Byte `j` of the stream in the clusters `cs`. -/
def streamByte (g : Geometry) (d : Sectors) (cs : List ℕ) (j : ℕ) : UInt8 :=
  clusterByte g d (cs.getD (j / clusterSize g) 0) (j % clusterSize g)

/-- The bitmap bit of cluster `c`, the bitmap being in the clusters `bm`. -/
def used (g : Geometry) (bm : List ℕ) (d : Sectors) (c : ℕ) : Bool :=
  (streamByte g d bm ((c - 2) / 8)).toNat.testBit ((c - 2) % 8)

/-- Cluster `c` has a bit. -/
def Counted (g : Geometry) (c : ℕ) : Prop := 2 ≤ c ∧ c < g.clusterCount + 2

lemma counted_of_inHeap {g : Geometry} {n c : ℕ} (hs : Sound g n) (hc : g.InHeap c) : Counted g c :=
  ⟨(hs.inHeap_iff.mp hc).1, (hs.inHeap_iff.mp hc).2.1⟩

/-- The number of clusters whose bit is clear. -/
def freeCount (g : Geometry) (bm : List ℕ) (d : Sectors) : ℕ :=
  (List.range' 2 g.clusterCount).countP fun c => !used g bm d c

section Clusters

variable {g : Geometry} {d d' : Sectors} {c c' lba : ℕ}

lemma InCluster.unique (hc : 2 ≤ c) (hc' : 2 ≤ c') (h : InCluster g c lba)
    (h' : InCluster g c' lba) : c = c' := by
  unfold InCluster heapLba at h h'
  have hlt {a b : ℕ} (ha : (a - 2) * g.sectorsPerCluster ≤ lba -
      (g.partition.firstLba + g.clusterHeapOffset)) (hb : lba - (g.partition.firstLba +
      g.clusterHeapOffset) < (b - 2) * g.sectorsPerCluster + g.sectorsPerCluster) :
      a - 2 ≤ b - 2 := by
    rw [← Nat.succ_mul] at hb
    exact Nat.lt_succ_iff.mp (Nat.lt_of_mul_lt_mul_right (ha.trans_lt hb))
  have h1 := hlt (a := c) (b := c') (by omega) (by omega)
  have h2 := hlt (a := c') (b := c) (by omega) (by omega)
  omega

lemma InCluster.not_below (h : InCluster g c lba) : ¬ BelowHeap g lba := by
  unfold InCluster heapLba at h
  unfold BelowHeap
  omega

lemma inCluster_byte (hpos : 0 < g.bytesPerSector) {i : ℕ} (hi : i < clusterSize g) :
    InCluster g c (heapLba g c + i / g.bytesPerSector) := by
  have : i / g.bytesPerSector < g.sectorsPerCluster := by
    rw [Nat.div_lt_iff_lt_mul hpos, Nat.mul_comm]
    exact hi
  unfold InCluster
  generalize i / g.bytesPerSector = q at *
  omega

lemma InCluster.inPartition {n : ℕ} (hs : Sound g n) (hc : g.InHeap c) (h : InCluster g c lba) :
    InPartition g.partition lba := by
  obtain ⟨h1, h2⟩ := h
  have := hs.heap_sector hc (i := lba - heapLba g c) (by omega)
  rwa [show heapLba g c + (lba - heapLba g c) = lba by omega] at this

/-- The media agree on cluster `c`. -/
def SameCluster (g : Geometry) (d d' : Sectors) (c : ℕ) : Prop :=
  ∀ lba, InCluster g c lba → d' lba = d lba

lemma SameCluster.byte (hpos : 0 < g.bytesPerSector) (h : SameCluster g d d' c) {i : ℕ}
    (hi : i < clusterSize g) : clusterByte g d' c i = clusterByte g d c i := by
  unfold clusterByte
  rw [h _ (inCluster_byte hpos hi)]

lemma streamByte_congr (hpos : 0 < g.bytesPerSector) {cs : List ℕ} {j : ℕ}
    (hsize : 0 < clusterSize g) (hj : j < cs.length * clusterSize g)
    (h : ∀ c ∈ cs, SameCluster g d d' c) : streamByte g d' cs j = streamByte g d cs j := by
  have hlt : j / clusterSize g < cs.length := (Nat.div_lt_iff_lt_mul hsize).mpr hj
  refine (h _ ?_).byte hpos (Nat.mod_lt _ hsize)
  rw [List.getD_eq_getElem _ _ hlt]
  exact List.getElem_mem hlt

end Clusters

/-! ### Bits of a byte -/

lemma testBit_add {v b k : ℕ} (hv : v < 256) (hb : b < 8) (hk : k < 8) (h : v.testBit b = false) :
    v + 2 ^ b < 256 ∧ (v + 2 ^ b).testBit k = if k = b then true else v.testBit k := by
  simp only [Nat.testBit_eq_decide_div_mod_eq, decide_eq_false_iff_not] at h ⊢
  interval_cases b <;> refine ⟨by omega, ?_⟩ <;> interval_cases k <;>
    simp only [reduceIte, decide_eq_decide, decide_eq_true_eq, Nat.reduceEqDiff] <;> omega

lemma testBit_sub {v b k : ℕ} (hv : v < 256) (hb : b < 8) (hk : k < 8) (h : v.testBit b = true) :
    (v - 2 ^ b).testBit k = if k = b then false else v.testBit k := by
  simp only [Nat.testBit_eq_decide_div_mod_eq, decide_eq_true_eq] at h ⊢
  interval_cases b <;> interval_cases k <;>
    simp only [reduceIte, decide_eq_decide, decide_eq_false_iff_not, Nat.reduceEqDiff] <;> omega

/-! ### The bitmap -/

/-- The bitmap of the volume: the FAT chain in `bm`, which is of the heap and covers every
cluster. -/
structure Mapped (vol : Volume) (bm : List ℕ) (d : Sectors) : Prop where
  chain : ∀ i < bm.length, link vol.geometry d vol.bitmap.firstCluster i = bm.getD i 0
  heap : ∀ c ∈ bm, vol.geometry.InHeap c
  room : vol.bitmap.byteLength ≤ bm.length * clusterSize vol.geometry
  covers : vol.geometry.clusterCount ≤ vol.bitmap.byteLength * 8
  short : bm.length ≤ vol.geometry.clusterCount
  nodup : bm.Nodup

namespace Mapped

variable {vol : Volume} {n : ℕ} {bm : List ℕ} {d d' : Sectors} {c : ℕ}

lemma byte_lt (h : Mapped vol bm d) (hc : Counted vol.geometry c) :
    (c - 2) / 8 < vol.bitmap.byteLength := by
  obtain ⟨h1, h2⟩ := hc
  have := h.covers
  omega

lemma index_lt (h : Mapped vol bm d) (hs : Sound vol.geometry n) {byte : ℕ}
    (hbyte : byte < vol.bitmap.byteLength) : byte / clusterSize vol.geometry < bm.length :=
  (Nat.div_lt_iff_lt_mul hs.clusterBytes_pos).mpr (hbyte.trans_le h.room)

lemma getD_mem (h : Mapped vol bm d) (hs : Sound vol.geometry n) {byte : ℕ}
    (hbyte : byte < vol.bitmap.byteLength) :
    bm.getD (byte / clusterSize vol.geometry) 0 ∈ bm := by
  rw [List.getD_eq_getElem _ _ (h.index_lt hs hbyte)]
  exact List.getElem_mem _

lemma used_congr (h : Mapped vol bm d) (hs : Sound vol.geometry n) (hc : Counted vol.geometry c)
    (hsame : ∀ c' ∈ bm, SameCluster vol.geometry d d' c') :
    used vol.geometry bm d' c = used vol.geometry bm d c := by
  have hsize := hs.size_ge
  unfold used
  rw [streamByte_congr (by omega) hs.clusterBytes_pos
    ((h.byte_lt hc).trans_le h.room) hsame]

lemma congr (h : Mapped vol bm d)
    (hfat : ∀ c ∈ bm, fatEntry vol.geometry d' c = fatEntry vol.geometry d c) :
    Mapped vol bm d' := by
  refine ⟨fun i hi => ?_, h.heap, h.room, h.covers, h.short, h.nodup⟩
  rw [← h.chain i hi]
  induction i with
  | zero => rfl
  | succ i ih =>
    have hi' : i < bm.length := by omega
    rw [link_succ, link_succ, ih hi', h.chain i hi', List.getD_eq_getElem _ _ hi']
    exact hfat _ (List.getElem_mem _)

end Mapped

/-! ### One bit -/

/-- The sector and the offset of byte `j` of the stream in the clusters `cs`. -/
def streamPos (g : Geometry) (cs : List ℕ) (j : ℕ) : ℕ × ℕ :=
  (heapLba g (cs.getD (j / clusterSize g) 0) + j % clusterSize g / g.bytesPerSector,
    j % clusterSize g % g.bytesPerSector)

/-- The media with the bit of cluster `c` set or cleared, when it was not. -/
def setBit (g : Geometry) (bm : List ℕ) (d : Sectors) (c : ℕ) (b : Bool) : Sectors :=
  let v := (streamByte g d bm ((c - 2) / 8)).toNat
  let pos := streamPos g bm ((c - 2) / 8)
  if used g bm d c = b then d
  else put d pos.1 pos.2 (leBytes 1 (if b then v + 2 ^ ((c - 2) % 8) else v - 2 ^ ((c - 2) % 8)))

section Bits

variable {vol : Volume} {g : Geometry} {n : ℕ} {bm cs : List ℕ} {d : Sectors} {c c' : ℕ} {b : Bool}

lemma streamByte_eq (g : Geometry) (d : Sectors) (cs : List ℕ) (j : ℕ) :
    streamByte g d cs j = d (streamPos g cs j).1 (streamPos g cs j).2 := rfl

lemma streamPos_inCluster (hs : Sound g n) (cs : List ℕ) (j : ℕ) :
    InCluster g (cs.getD (j / clusterSize g) 0) (streamPos g cs j).1 := by
  have hsize := hs.size_ge
  exact inCluster_byte (by omega) (Nat.mod_lt _ hs.clusterBytes_pos)

lemma streamPos_lt (hs : Sound g n) (cs : List ℕ) (j : ℕ) :
    (streamPos g cs j).2 < g.bytesPerSector := by
  have hsize := hs.size_ge
  exact Nat.mod_lt _ (by omega)

lemma streamPos_inj (hs : Sound g n) (hheap : ∀ c ∈ cs, g.InHeap c) (hnodup : cs.Nodup) {j j' : ℕ}
    (hj : j / clusterSize g < cs.length) (hj' : j' / clusterSize g < cs.length)
    (h : streamPos g cs j = streamPos g cs j') : j = j' := by
  have hin := streamPos_inCluster hs cs j
  have hin' := streamPos_inCluster hs cs j'
  rw [← h] at hin'
  rw [List.getD_eq_getElem _ _ hj] at hin
  rw [List.getD_eq_getElem _ _ hj'] at hin'
  have hcluster := hin.unique (hs.inHeap_iff.mp (hheap _ (List.getElem_mem hj))).1
    (hs.inHeap_iff.mp (hheap _ (List.getElem_mem hj'))).1 hin'
  have hindex : j / clusterSize g = j' / clusterSize g :=
    (List.Nodup.getElem_inj_iff hnodup).mp hcluster
  have hpos := congrArg Prod.fst h
  have hoff := congrArg Prod.snd h
  simp only [streamPos, hindex] at hpos hoff
  have h1 := Nat.div_add_mod (j % clusterSize g) g.bytesPerSector
  have h2 := Nat.div_add_mod (j' % clusterSize g) g.bytesPerSector
  have h3 := Nat.div_add_mod j (clusterSize g)
  have h4 := Nat.div_add_mod j' (clusterSize g)
  rw [Nat.add_left_cancel hpos, hoff] at h1
  rw [hindex] at h3
  omega

lemma setBit_of_eq (h : used g bm d c = b) : setBit g bm d c b = d := if_pos h

lemma setBit_of_ne (h : used g bm d c ≠ b) : setBit g bm d c b =
    put d (streamPos g bm ((c - 2) / 8)).1 (streamPos g bm ((c - 2) / 8)).2
      (leBytes 1 (if b then (streamByte g d bm ((c - 2) / 8)).toNat + 2 ^ ((c - 2) % 8)
        else (streamByte g d bm ((c - 2) / 8)).toNat - 2 ^ ((c - 2) % 8))) := if_neg h

lemma Mapped.used_setBit (h : Mapped vol bm d) (hs : Sound vol.geometry n)
    (hc : Counted vol.geometry c) (b : Bool) :
    ∀ c', Counted vol.geometry c' → used vol.geometry bm (setBit vol.geometry bm d c b) c' =
      if c' = c then b else used vol.geometry bm d c' := by
  intro c' hc'
  by_cases heq : used vol.geometry bm d c = b
  · rw [setBit_of_eq heq]
    split_ifs with hcc
    · rw [hcc, heq]
    · rfl
  rw [setBit_of_ne heq]
  have hj := h.index_lt hs (h.byte_lt hc)
  have hj' := h.index_lt hs (h.byte_lt hc')
  by_cases hbyte : (c' - 2) / 8 = (c - 2) / 8
  · have hv := (streamByte vol.geometry d bm ((c - 2) / 8)).toNat_lt
    have hk : (c' - 2) % 8 = (c - 2) % 8 ↔ c' = c := by
      have := hc.1
      have := hc'.1
      omega
    unfold used at heq ⊢
    rw [hbyte, streamByte_eq _ (put _ _ _ _), leBytes, put_head]
    generalize (streamByte vol.geometry d bm ((c - 2) / 8)).toNat = v at *
    cases b with
    | true =>
      obtain ⟨hlt, hbit⟩ := testBit_add hv (Nat.mod_lt _ (by decide))
        (Nat.mod_lt (c' - 2) (by decide))
        (by simpa using heq)
      simp only [if_true, UInt8.toNat_ofNat']
      rw [Nat.mod_eq_of_lt hlt, hbit]
      simp only [hk]
    | false =>
      have hbit := testBit_sub hv (Nat.mod_lt _ (by decide)) (Nat.mod_lt (c' - 2) (by decide))
        (by simpa using heq)
      simp only [Bool.false_eq_true, if_false, UInt8.toNat_ofNat']
      rw [Nat.mod_eq_of_lt ((Nat.sub_le _ _).trans_lt hv), hbit]
      simp only [hk]
  · have hne : c' ≠ c := by
      rintro rfl
      exact hbyte rfl
    rw [if_neg hne]
    unfold used
    rw [streamByte_eq, put_outside, streamByte_eq]
    by_contra hsame
    simp only [leBytes_length] at hsame
    refine hbyte (streamPos_inj hs h.heap h.nodup hj' hj ?_)
    ext
    · omega
    · omega

lemma countP_update {l : List ℕ} {p q : ℕ → Bool} (hnodup : l.Nodup) (hc : c ∈ l)
    (hp : p c = true) (hq : q c = false) (h : ∀ x ∈ l, x ≠ c → q x = p x) :
    l.countP p = l.countP q + 1 := by
  induction l with
  | nil => simp at hc
  | cons x l ih =>
    obtain ⟨hx, hnodup⟩ := List.nodup_cons.mp hnodup
    rw [List.countP_cons, List.countP_cons]
    by_cases hxc : x = c
    · subst hxc
      have hrest : l.countP q = l.countP p := List.countP_congr fun y hy => by
        rw [h y (List.mem_cons_of_mem _ hy) (by rintro rfl; exact hx hy)]
      simp [hp, hq, hrest]
    · have hcl : c ∈ l := (List.mem_cons.mp hc).resolve_left fun heq => hxc heq.symm
      have := ih hnodup hcl fun y hy => h y (List.mem_cons_of_mem _ hy)
      rw [h x List.mem_cons_self hxc, this]
      omega

lemma counted_iff_mem : Counted g c ↔ c ∈ List.range' 2 g.clusterCount := by
  unfold Counted
  rw [List.mem_range'_1]
  omega

lemma freeCount_congr {d' : Sectors}
    (h : ∀ c, Counted g c → used g bm d' c = used g bm d c) :
    freeCount g bm d' = freeCount g bm d :=
  List.countP_congr fun c hc => by rw [h c (counted_iff_mem.mpr hc)]

lemma Mapped.freeCount_set (h : Mapped vol bm d) (hs : Sound vol.geometry n)
    (hc : Counted vol.geometry c) (hfree : used vol.geometry bm d c = false) :
    freeCount vol.geometry bm d =
      freeCount vol.geometry bm (setBit vol.geometry bm d c true) + 1 := by
  have hused := h.used_setBit hs hc true
  refine countP_update (c := c) List.nodup_range' (counted_iff_mem.mp hc) ?_ ?_ fun x hx hne => ?_
  · simp [hfree]
  · simp [hused c hc]
  · simp [hused x (counted_iff_mem.mpr hx), hne]

lemma Mapped.freeCount_clear (h : Mapped vol bm d) (hs : Sound vol.geometry n)
    (hc : Counted vol.geometry c) (hfull : used vol.geometry bm d c = true) :
    freeCount vol.geometry bm (setBit vol.geometry bm d c false) =
      freeCount vol.geometry bm d + 1 := by
  have hused := h.used_setBit hs hc false
  refine countP_update (c := c) List.nodup_range' (counted_iff_mem.mp hc) ?_ ?_ fun x hx hne => ?_
  · simp [hused c hc]
  · simp [hfull]
  · simp [hused x (counted_iff_mem.mpr hx), hne]

end Bits

end ExfatEmbedded.Media
