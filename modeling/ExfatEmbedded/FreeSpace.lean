import ExfatEmbedded.Writing

/-!
The free-space count: the bitmap scan counts the clear bits of the clusters.
-/

namespace ExfatEmbedded.FreeSpace

open ExfatEmbedded.Library Exec ExfatEmbedded.Core ExfatEmbedded.Allocation ExfatEmbedded.Reading
open ExfatEmbedded.Media ExfatEmbedded.Writing

/-- The number of used clusters among the `n` from bit `b` on. -/
def usedCount (g : Geometry) (bm : List ℕ) (d : Sectors) (b n : ℕ) : ℕ :=
  (List.range' (2 + b) n).countP fun c => used g bm d c

section Count

variable {g : Geometry} {bm : List ℕ} {d : Sectors}

lemma usedCount_zero (b : ℕ) : usedCount g bm d b 0 = 0 := rfl

lemma usedCount_add (b m n : ℕ) :
    usedCount g bm d b (m + n) = usedCount g bm d b m + usedCount g bm d (b + m) n := by
  unfold usedCount
  rw [← List.range'_append_1, List.countP_append, Nat.add_assoc]

lemma usedCount_le (b n : ℕ) : usedCount g bm d b n ≤ n := by
  refine List.countP_le_length.trans ?_
  rw [List.length_range']

lemma freeCount_eq : freeCount g bm d = g.clusterCount - usedCount g bm d 0 g.clusterCount := by
  have h := List.length_eq_countP_add_countP (fun c => used g bm d c)
    (l := List.range' 2 g.clusterCount)
  rw [List.length_range'] at h
  have hnot : (List.range' 2 g.clusterCount).countP (fun c => decide ¬ used g bm d c = true) =
      freeCount g bm d := by
    refine List.countP_congr fun c _ => ?_
    simp
  rw [hnot] at h
  change g.clusterCount = usedCount g bm d 0 g.clusterCount + freeCount g bm d at h
  omega

lemma countOnes_eq {b n : ℕ} (hn : n ≤ 8) :
    countOnes (streamByte g d bm b).toNat n = usedCount g bm d (8 * b) n := by
  unfold countOnes usedCount
  rw [← List.countP_eq_length_filter, List.range'_eq_map_range, List.countP_map]
  refine List.countP_congr fun i hi => ?_
  have hi : i < n := List.mem_range.mp hi
  simp only [Function.comp_apply, used]
  rw [show (2 + 8 * b + i - 2) / 8 = b by omega, show (2 + 8 * b + i - 2) % 8 = i by omega]

lemma countBytes_eq {values : List UInt8} {b bits count : ℕ}
    (hvalues : ∀ i < values.length, values.getD i 0 = streamByte g d bm (b + i))
    (hfit : count + usedCount g bm d (8 * b) (min (8 * values.length) bits) < 2 ^ 32) :
    countBytes values count bits =
      some (count + usedCount g bm d (8 * b) (min (8 * values.length) bits),
        bits - 8 * values.length) := by
  induction values generalizing b bits count with
  | nil => simp [countBytes, usedCount_zero]
  | cons value values ih =>
    unfold countBytes
    rw [List.length_cons] at hvalues hfit ⊢
    split_ifs with hbits
    · subst hbits
      simp [usedCount_zero]
    have hvalue : value = streamByte g d bm b := hvalues 0 (by omega)
    have hsplit : min (8 * (values.length + 1)) bits =
        min bits 8 + min (8 * values.length) (bits - min bits 8) := by omega
    have hrest : usedCount g bm d (8 * b + min bits 8)
        (min (8 * values.length) (bits - min bits 8)) =
        usedCount g bm d (8 * (b + 1)) (min (8 * values.length) (bits - min bits 8)) := by
      rcases Nat.lt_or_ge bits 8 with hlt | hge
      · rw [show bits - min bits 8 = 0 by omega, Nat.min_zero, usedCount_zero, usedCount_zero]
      · rw [show min bits 8 = 8 by omega, show 8 * b + 8 = 8 * (b + 1) by omega]
    rw [hsplit, usedCount_add, hrest] at hfit ⊢
    simp only
    rw [hvalue, countOnes_eq (by omega), checkedAdd32, if_pos (by omega)]
    simp only
    rw [ih (b := b + 1) (fun i hi => ?_) (by omega)]
    · rw [Nat.add_assoc, show bits - min bits 8 - 8 * values.length =
        bits - 8 * (values.length + 1) by omega]
    · have := hvalues (i + 1) (by omega)
      rw [List.getD_cons_succ] at this
      rw [this, show b + (i + 1) = b + 1 + i by omega]

end Count

variable {vol : Volume} {bm : List ℕ} {s : Machine}

/-- The scan has come to byte `byte` of the bitmap. -/
structure Counting (vol : Volume) (bm : List ℕ) (d : Sectors) (v : ℕ × ℕ × ℕ) : Prop where
  bits : v.2.1 = vol.geometry.clusterCount - 8 * v.1
  count : v.2.2 = usedCount vol.geometry bm d 0 (min (8 * v.1) vol.geometry.clusterCount)

lemma mod_div_within {a i len k : ℕ} (hi : i < len) (h : a % k + len ≤ k) :
    (a + i) % k = a % k + i ∧ (a + i) / k = a / k := by
  have hmod : (a + i) % k = a % k + i := by
    rw [Nat.add_mod, Nat.mod_eq_of_lt (show i < k by omega), Nat.mod_eq_of_lt (by omega)]
  refine ⟨hmod, Nat.eq_of_mul_eq_mul_left (show 0 < k by omega) ?_⟩
  have h1 := Nat.div_add_mod (a + i) k
  have h2 := Nat.div_add_mod a k
  omega

lemma slice_streamPos {g : Geometry} {b len : ℕ} (d : Sectors) (cs : List ℕ)
    (hsector : (streamPos g cs b).2 + len ≤ g.bytesPerSector)
    (hcluster : b % clusterSize g + len ≤ clusterSize g) {i : ℕ} (hi : i < len) :
    (Image.slice (d (streamPos g cs b).1) (streamPos g cs b).2 len).getD i 0 =
      streamByte g d cs (b + i) := by
  obtain ⟨hmod, hdiv⟩ := mod_div_within hi hcluster
  obtain ⟨hoff, hsec⟩ := mod_div_within (a := b % clusterSize g) (k := g.bytesPerSector) hi hsector
  rw [Image.slice_getD _ _ _ _ hi, streamByte_eq]
  unfold streamPos
  simp only
  rw [hmod, hdiv, hoff, hsec]

lemma refreshRound_based {v : ℕ × ℕ × ℕ} (hs : Base vol bm s)
    (hv : Counting vol bm s.device.sectors v) :
    wp (refreshRound vol v)
      (Sum.elim
        (fun count t => count = usedCount vol.geometry bm s.device.sectors 0
          vol.geometry.clusterCount ∧ Became vol bm s t s.device.sectors)
        (fun v' t => Counting vol bm s.device.sectors v' ∧ v'.2.1 < v.2.1 ∧
          Became vol bm s t s.device.sectors))
      (Fails vol bm s) s := by
  obtain ⟨byte, bits, count⟩ := v
  obtain ⟨hbits, hcount⟩ := hv
  simp only at hbits hcount
  have hsound := hs.ready.sound
  have hpos := hsound.clusterBytes_pos
  have hcc := hsound.clusterCount
  have hcovers := hs.mapped.covers
  unfold refreshRound
  simp only [wp_ite, wp_pure]
  refine ⟨fun hdone => ⟨?_, Became.refl hs⟩, fun hmore => ?_⟩
  · rw [hcount]
    congr 1
    omega
  have hbyte : byte < vol.bitmap.byteLength := by omega
  rw [wp_bind]
  refine wp_mono _ (bitmapLocation_spec hs.ready hs.mapped hbyte) ?_ fun _ _ h => h.fails hs
  rintro p t ⟨rfl, ht⟩
  have htb := ht.same hs
  have hin := streamPos_inCluster hsound bm byte
  have hlba := hin.inPartition hsound (hs.mapped.heap _ (hs.mapped.getD_mem hsound hbyte))
  have hoff := streamPos_lt hsound bm byte
  have hmod := Nat.mod_lt byte hpos
  simp only [wp_bind]
  refine wp_mono _ (readSector_staged htb.base.ready hlba) ?_ fun _ _ h => htb.fails
    (h.fails htb.base)
  rintro _ u ⟨hu, hst⟩
  have hub := htb.trans (hu.same htb.base)
  rw [ht.sectors] at hub hst
  simp only [hsound.bytesPerCluster_eq, wp_pure, wp_rem, wp_sub, wp_okOr, wp_ite, wp_throw]
  refine ⟨by omega, hmod.le, hoff.le, fun left hleft => ⟨fun hz => ?_, fun hbytes => ?_⟩,
    fun hnone => ?_⟩
  · unfold checkedSub at hleft
    split_ifs at hleft
    cases hleft
    omega
  · unfold checkedSub at hleft
    split_ifs at hleft
    cases hleft
    generalize hlen : min (min (vol.geometry.bytesPerSector -
      (streamPos vol.geometry bm byte).2) (vol.geometry.bytesPerSector *
      vol.geometry.sectorsPerCluster - byte % (vol.geometry.bytesPerSector *
      vol.geometry.sectorsPerCluster))) (vol.bitmap.byteLength - byte) = len at hbytes ⊢
    have hlen1 : (streamPos vol.geometry bm byte).2 + len ≤ vol.geometry.bytesPerSector := by omega
    have hlen2 : byte % clusterSize vol.geometry + len ≤ clusterSize vol.geometry := by
      change byte % (vol.geometry.bytesPerSector * vol.geometry.sectorsPerCluster) + len ≤
        vol.geometry.bytesPerSector * vol.geometry.sectorsPerCluster
      omega
    have hgetD : ∀ i < (Image.slice (s.device.sectors (streamPos vol.geometry bm byte).1)
        (streamPos vol.geometry bm byte).2 len).length,
        (Image.slice (s.device.sectors (streamPos vol.geometry bm byte).1)
          (streamPos vol.geometry bm byte).2 len).getD i 0 =
        streamByte vol.geometry s.device.sectors bm (byte + i) := by
      intro i hi
      rw [Image.slice_length] at hi
      exact slice_streamPos _ bm hlen1 hlen2 hi
    have htotal := @usedCount_add vol.geometry bm s.device.sectors 0
      (min (8 * byte) vol.geometry.clusterCount) (min (8 * len) bits)
    rw [Nat.zero_add, show min (8 * byte) vol.geometry.clusterCount = 8 * byte by omega] at htotal
    have hle := @usedCount_le vol.geometry bm s.device.sectors 0
      (8 * byte + min (8 * len) bits)
    rw [wp_bind, wp_scratchSlice hub.base.ready hlen1, hst.slice hlen1]
    rw [show min (8 * byte) vol.geometry.clusterCount = 8 * byte by omega] at hcount
    rw [countBytes_eq hgetD (by rw [Image.slice_length]; omega), Image.slice_length]
    simp only [wp_bind, wp_okOr, wp_pure]
    refine ⟨fun r hr => ⟨fun byte' hbyte' => ?_, fun hnone => ?_⟩, nofun⟩
    · cases hr
      unfold checkedAdd64 at hbyte'
      split_ifs at hbyte'
      cases hbyte'
      refine ⟨⟨?_, ?_⟩, ?_, hub⟩
      · change bits - 8 * len = _ - 8 * (byte + len)
        omega
      · change count + _ = usedCount _ _ _ 0 (min (8 * (byte + len)) _)
        rw [show min (8 * (byte + len)) vol.geometry.clusterCount =
          8 * byte + min (8 * len) bits by omega, htotal, hcount]
      · change bits - 8 * len < bits
        omega
    · -- the next byte is a byte of the bitmap, or the one behind it
      have hroom := hs.mapped.room
      have hshort := hs.mapped.short
      have hsize := hsound.clusterBytes
      have hmul : bm.length * clusterSize vol.geometry ≤ 2 ^ 32 * 2 ^ 25 :=
        Nat.mul_le_mul (by omega) hsize
      unfold checkedAdd64 at hnone
      split_ifs at hnone
      omega
  · unfold checkedSub at hnone
    split_ifs at hnone
    omega

/-- **The bitmap scan counts the free clusters.** -/
theorem refreshFreeClusters_based (hs : Base vol bm s) :
    wp (refreshFreeClusters vol)
      (fun _ t => Became vol bm s t s.device.sectors ∧
        t.freeClusters = some (freeCount vol.geometry bm s.device.sectors)) (Fails vol bm s) s := by
  unfold refreshFreeClusters
  rw [wp_bind]
  refine wp_loop_post (fun i v t => Counting vol bm s.device.sectors v ∧
    v.2.1 + i ≤ vol.geometry.clusterCount ∧ Became vol bm s t s.device.sectors) ?_ ?_ ?_
  · refine ⟨⟨rfl, ?_⟩, le_rfl, Became.refl hs⟩
    simp [usedCount_zero]
  · rintro i v t - - ⟨hv, hi, ht⟩
    refine wp_mono _ (refreshRound_based ht.base (ht.sectors.symm ▸ hv)) ?_ fun _ _ h => ht.fails h
    rw [ht.sectors]
    rintro (count | v') u hu
    · obtain ⟨rfl, hu⟩ := hu
      have hsu := ht.trans hu
      have hle := @usedCount_le vol.geometry bm s.device.sectors 0
        vol.geometry.clusterCount
      simp only [wp_bind, wp_okOr, wp_modify]
      refine ⟨fun free hfree => ?_, fun hnone => ?_⟩
      · unfold checkedSub at hfree
        split_ifs at hfree
        cases hfree
        have hbase := hsu.base
        refine ⟨⟨⟨hsu.follows.1, hsu.follows.2, hsu.follows.3, hsu.follows.4⟩, hsu.sectors,
          ⟨⟨hbase.ready.sound, hbase.ready.scratch⟩, hbase.mapped, hbase.marked, ?_⟩⟩, ?_⟩
        · intro n hn
          cases hn
          change _ = freeCount vol.geometry bm u.device.sectors
          rw [hsu.sectors, freeCount_eq]
        · rw [freeCount_eq]
      · unfold checkedSub at hnone
        split_ifs at hnone
    · obtain ⟨hv', hlt, hu⟩ := hu
      exact ⟨hv', by omega, ht.trans hu⟩
  · rintro v t ⟨hv, hi, -⟩
    have hcc := hs.ready.sound.clusterCount
    omega

/-- The free space of a volume. -/
theorem freeSpaceBytes_based (hs : Base vol bm s) :
    wp (freeSpaceBytes vol)
      (fun n t => n = freeCount vol.geometry bm s.device.sectors * clusterSize vol.geometry ∧
        Became vol bm s t s.device.sectors) (Fails vol bm s) s := by
  have hbytes := hs.ready.sound.clusterBytes
  have hcc := hs.ready.sound.clusterCount
  have hle : freeCount vol.geometry bm s.device.sectors ≤ vol.geometry.clusterCount := by
    rw [freeCount_eq]
    omega
  -- a cluster has at most `2 ^ 25` bytes
  have hfit : freeCount vol.geometry bm s.device.sectors *
      (vol.geometry.bytesPerSector * vol.geometry.sectorsPerCluster) < 2 ^ 64 :=
    calc freeCount vol.geometry bm s.device.sectors *
          (vol.geometry.bytesPerSector * vol.geometry.sectorsPerCluster)
        ≤ 2 ^ 32 * 2 ^ 25 := Nat.mul_le_mul (by omega) hbytes
      _ < 2 ^ 64 := by decide
  unfold freeSpaceBytes
  simp only [wp_bind, wp_get, wp_when, hs.ready.sound.bytesPerCluster_eq, wp_pure, wp_okOr, wp_u64]
  refine ⟨fun _ => ?_, fun hknown => ⟨fun n hn => ?_, fun hnone => ?_⟩⟩
  · refine wp_mono _ (refreshFreeClusters_based hs) ?_ fun _ _ h => h
    rintro _ t ⟨ht, hfree⟩
    refine ⟨fun n hn => ?_, fun hnone => ?_⟩
    · rw [hfree] at hn
      cases hn
      exact ⟨hfit, rfl, ht⟩
    · rw [hfree] at hnone
      cases hnone
  · obtain rfl := hs.tally n hn
    exact ⟨hfit, rfl, Became.refl hs⟩
  · rw [hnone] at hknown
    exact absurd rfl hknown

end ExfatEmbedded.FreeSpace
