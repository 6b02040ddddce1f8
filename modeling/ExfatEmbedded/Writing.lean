import ExfatEmbedded.Media

/-!
What the writing primitives do to the media, and what a device fault leaves.
-/

namespace ExfatEmbedded.Writing

open ExfatEmbedded.Library Exec ExfatEmbedded.Core ExfatEmbedded.Entry ExfatEmbedded.Allocation
open ExfatEmbedded.EntryWrite ExfatEmbedded.Reading ExfatEmbedded.FatWrites ExfatEmbedded.Media
open ExfatEmbedded.MountSafety ExfatEmbedded.Listing

/-! ### Runs of requests -/

/-- `t` has the device and the buffer of `s`, with other contents. -/
structure Follows (s t : Machine) : Prop where
  sectorCount : t.device.sectorCount = s.device.sectorCount
  readFails : t.device.readFails = s.device.readFails
  writeFails : t.device.writeFails = s.device.writeFails
  scratchLen : t.scratch.len = s.scratch.len

/-- From `s` to `t` the media became `d`. -/
structure Wrote (s t : Machine) (d : Sectors) : Prop where
  follows : Follows s t
  sectors : t.device.sectors = d
  free : t.freeClusters = s.freeClusters

/-- Some request of the device fails. -/
def Faulty (s : Machine) : Prop :=
  ∃ n, s.device.readFails n = true ∨ s.device.writeFails n = true

lemma healthy_of_faultless {s : Machine} (h : ¬ Faulty s) : Healthy s := fun n => by
  by_contra hn
  exact h ⟨n, Or.inl (by simpa using hn)⟩

/-- The request at hand failed, and changed nothing. -/
structure Broke (s : Machine) (e : Error) (t : Machine) : Prop where
  wrote : Wrote s t s.device.sectors
  fault : e = .device .fault
  faulty : Faulty s

namespace Follows

variable {s t u : Machine} {g : Geometry}

lemma refl (s : Machine) : Follows s s := ⟨rfl, rfl, rfl, rfl⟩

lemma trans (h : Follows s t) (h' : Follows t u) : Follows s u :=
  ⟨h'.1.trans h.1, h'.2.trans h.2, h'.3.trans h.3, h'.4.trans h.4⟩

lemma ready (h : Follows s t) (hs : Ready g s) : Ready g t :=
  ⟨h.sectorCount ▸ hs.sound, h.scratchLen ▸ hs.scratch⟩

lemma faulty (h : Follows s t) (ht : Faulty t) : Faulty s := by
  obtain ⟨n, hn⟩ := ht
  rw [h.readFails, h.writeFails] at hn
  exact ⟨n, hn⟩

end Follows

namespace Wrote

variable {s t u : Machine} {d d' : Sectors} {p : Partition}

lemma refl (s : Machine) : Wrote s s s.device.sectors := ⟨Follows.refl s, rfl, rfl⟩

lemma trans (h : Wrote s t d) (h' : Wrote t u d') : Wrote s u d' :=
  ⟨h.follows.trans h'.follows, h'.sectors, h'.free.trans h.free⟩

lemma broke {e : Error} (h : Wrote s t s.device.sectors) (h' : Broke t e u) : Broke s e u :=
  ⟨h.trans (h.sectors ▸ h'.wrote), h'.fault, h.follows.faulty h'.faulty⟩

end Wrote

lemma wrote_of_quiet {s t : Machine} {p : Partition} (h : Quiet p s t) :
    Wrote s t s.device.sectors :=
  ⟨⟨h.sectorCount, h.readFails, h.writeFails, h.scratchLen⟩, h.sectors, h.freeClusters⟩

lemma broke_of_faulted {s t : Machine} {p : Partition} {e : Error} (h : Faulted p s e t) :
    Broke s e t := by
  obtain ⟨hq, he, n, hn⟩ := h
  exact ⟨wrote_of_quiet hq, he, n, Or.inl hn⟩

/-! ### Changing a sector -/

/-- The buffer holds sector `lba` of `d`, which differs from the media there only. -/
structure Staged (size lba : ℕ) (d : Sectors) (s : Machine) : Prop where
  bytes : ∀ i < size, s.scratch.bytes i = d lba i
  rest : ∀ l i, l ≠ lba ∨ size ≤ i → d l i = s.device.sectors l i

section

variable {s : Machine} {g : Geometry} {lba : ℕ} {d : Sectors}

lemma readSector_staged (hs : Ready g s) (hlba : InPartition g.partition lba) :
    wp (readSector g.bytesPerSector lba)
      (fun _ t => Wrote s t s.device.sectors ∧ Staged g.bytesPerSector lba s.device.sectors t)
      (Broke s) s := by
  refine wp_mono _ (readSector_spec hs hlba) ?_ fun _ _ h => broke_of_faulted h
  rintro _ t ⟨hq, hold⟩
  have hsectors := hq.sectors
  refine ⟨wrote_of_quiet hq, fun i hi => ?_, fun l i _ => by rw [hsectors]⟩
  rw [hold i hi, hsectors]

lemma Staged.slice {off n : ℕ} (h : Staged g.bytesPerSector lba d s)
    (hfit : off + n ≤ g.bytesPerSector) :
    Image.slice s.scratch.bytes off n = Image.slice (d lba) off n :=
  Image.slice_congr fun i _ hi => h.bytes i (by omega)

lemma scratchPatch_staged {off : ℕ} {bs : List UInt8} {E : Error → Machine → Prop}
    (hs : Ready g s) (h : Staged g.bytesPerSector lba d s)
    (hfit : off + bs.length ≤ g.bytesPerSector) :
    wp (scratchPatch g.bytesPerSector off bs)
      (fun _ t => Wrote s t s.device.sectors ∧
        Staged g.bytesPerSector lba (put d lba off bs) t) E s := by
  have hscratch := hs.scratch
  unfold scratchPatch
  simp only [wp_bind, wp_get, wp_assert, wp_modify]
  refine ⟨⟨hfit, hscratch⟩, ⟨⟨rfl, rfl, rfl, rfl⟩, rfl, rfl⟩, fun i hi => ?_, fun l i hi => ?_⟩
  · rw [put_self]
    change Image.patch s.scratch.bytes off bs i = _
    unfold Image.patch
    split_ifs
    · rfl
    · exact h.bytes i hi
  · rw [put_outside (by omega)]
    exact h.rest l i hi

lemma scratchPatch_whole {bs : List UInt8} {E : Error → Machine → Prop} (hs : Ready g s)
    (hlen : bs.length = g.bytesPerSector) :
    wp (scratchPatch g.bytesPerSector 0 bs)
      (fun _ t => Wrote s t s.device.sectors ∧
        ∀ lba, Staged g.bytesPerSector lba (put s.device.sectors lba 0 bs) t) E s := by
  have hscratch := hs.scratch
  unfold scratchPatch
  simp only [wp_bind, wp_get, wp_assert, wp_modify]
  refine ⟨⟨by omega, hscratch⟩, ⟨⟨rfl, rfl, rfl, rfl⟩, rfl, rfl⟩, fun lba => ⟨fun i hi => ?_, ?_⟩⟩
  · rw [put_self]
    change Image.patch s.scratch.bytes 0 bs i = _
    unfold Image.patch
    rw [if_pos (by omega), if_pos (by omega)]
  · intro l i hi
    rw [put_outside (by omega)]

lemma writeSector_staged (hs : Ready g s) (hlba : InPartition g.partition lba)
    (h : Staged g.bytesPerSector lba d s) :
    wp (writeSector g.bytesPerSector lba) (fun _ t => Wrote s t d) (Broke s) s := by
  have hscratch := hs.scratch
  have hlt := (hs.sound.lt_of_inPartition hlba).1
  have hafter : s.device.sectors.write lba g.bytesPerSector s.scratch.bytes = d := by
    funext l i
    unfold Sectors.write
    split
    · rename_i hl
      subst hl
      unfold Image.splice
      split
      · exact h.bytes i (by assumption)
      · exact (h.rest l i (by omega)).symm
    · exact (h.rest l i (Or.inl (by assumption))).symm
  unfold wp writeSector
  simp only [Nat.not_lt.mpr hscratch, if_false, Nat.not_le.mpr hlt]
  by_cases hfail : s.device.writeFails s.device.writes.length = true
  · rw [if_pos hfail]
    exact ⟨⟨⟨rfl, rfl, rfl, rfl⟩, rfl, rfl⟩, rfl, _, Or.inr hfail⟩
  · rw [if_neg hfail]
    exact ⟨⟨rfl, rfl, rfl, rfl⟩, hafter, rfl⟩

lemma writeSector_counts (hs : Ready g s) (hlba : InPartition g.partition lba) :
    wp (writeSector g.bytesPerSector lba)
      (fun _ t => t.device.writes.length = s.device.writes.length + 1 ∧
        s.device.writeFails s.device.writes.length = false)
      (fun _ _ => s.device.writeFails s.device.writes.length = true) s := by
  have hlt := (hs.sound.lt_of_inPartition hlba).1
  unfold wp writeSector
  simp only [Nat.not_lt.mpr hs.scratch, if_false, Nat.not_le.mpr hlt]
  by_cases hfail : s.device.writeFails s.device.writes.length = true
  · rw [if_pos hfail]
    exact hfail
  · rw [if_neg hfail]
    exact ⟨rfl, by simpa using hfail⟩

lemma scratchPatch_device {off : ℕ} {bs : List UInt8} (hs : Ready g s)
    (hfit : off + bs.length ≤ g.bytesPerSector) :
    wp (scratchPatch g.bytesPerSector off bs) (fun _ t => t.device = s.device)
      (fun _ _ => False) s := by
  unfold scratchPatch
  simp only [wp_bind, wp_get, wp_assert, wp_modify]
  exact ⟨⟨hfit, hs.scratch⟩, trivial⟩

lemma sectorPatch_wrote {off : ℕ} {bs : List UInt8} {Q : Unit → Machine → Prop}
    {E : Error → Machine → Prop} (hs : Ready g s) (hlba : InPartition g.partition lba)
    (hfit : off + bs.length ≤ g.bytesPerSector)
    (hQ : ∀ t, Wrote s t (put s.device.sectors lba off bs) →
      t.device.writes.length = s.device.writes.length + 1 ∧
        s.device.writeFails s.device.writes.length = false → Q () t)
    (hE : ∀ e t, Broke s e t →
      ¬ Healthy s ∨ s.device.writeFails s.device.writes.length = true → E e t) :
    (off ≠ 0 ∨ bs.length ≠ g.bytesPerSector →
      wp (readSector g.bytesPerSector lba) (fun _ t =>
        wp (scratchPatch g.bytesPerSector off bs) (fun _ t =>
          wp (writeSector g.bytesPerSector lba) Q E t) E t) E s) ∧
    (¬ (off ≠ 0 ∨ bs.length ≠ g.bytesPerSector) →
      wp (scratchPatch g.bytesPerSector off bs) (fun _ t =>
        wp (writeSector g.bytesPerSector lba) Q E t) E s) := by
  have hwrite {t : Machine} (ht : Wrote s t s.device.sectors)
      (hst : Staged g.bytesPerSector lba (put s.device.sectors lba off bs) t)
      (hwrites : t.device.writes = s.device.writes) :
      wp (writeSector g.bytesPerSector lba) Q E t := by
    have hready := ht.follows.ready hs
    refine wp_mono _ (wp_and _ (writeSector_staged hready hlba hst)
      (writeSector_counts hready hlba)) ?_ ?_
    · rintro _ u ⟨hu, hcount⟩
      rw [ht.follows.writeFails, hwrites] at hcount
      exact hQ u (ht.trans hu) hcount
    · rintro e u ⟨hu, hfail⟩
      rw [ht.follows.writeFails, hwrites] at hfail
      exact hE e u (ht.broke hu) (.inr hfail)
  constructor
  · intro _
    refine wp_mono _ (wp_and _ (readSector_staged hs hlba) (readSector_spec hs hlba)) ?_ ?_
    · rintro _ t ⟨⟨ht, hst⟩, hquiet, -⟩
      have hready := ht.follows.ready hs
      refine wp_mono _ (wp_and _ (scratchPatch_staged hready hst hfit)
        (scratchPatch_device hready hfit)) ?_ fun _ _ h => h.1
      rintro _ u ⟨⟨hu, hst'⟩, hdevice⟩
      exact hwrite (ht.trans (ht.sectors ▸ hu)) hst' (by rw [hdevice, hquiet.writes])
    · rintro e t ⟨hbroke, -, -, j, hfault⟩
      refine hE e t hbroke (.inl fun hr => ?_)
      rw [hr j] at hfault
      cases hfault
  · intro hwhole
    obtain ⟨hoff, hlen⟩ := not_or.mp hwhole
    obtain rfl : off = 0 := not_not.mp hoff
    refine wp_mono _ (wp_and _ (scratchPatch_whole hs (not_not.mp hlen))
      (scratchPatch_device hs hfit)) ?_ fun _ _ h => h.1
    rintro _ t ⟨⟨ht, hst⟩, hdevice⟩
    exact hwrite ht (hst lba) (by rw [hdevice])

end

variable {vol : Volume} {s : Machine}

lemma patchSlot_spec {locator : EntryLocator} {off : ℕ} {bs : List UInt8}
    (hs : Ready vol.geometry s) (hlba : InPartition vol.geometry.partition locator.lba)
    (hfit : locator.offset + off + bs.length ≤ vol.geometry.bytesPerSector) :
    wp (patchSlot vol locator off bs)
      (fun _ t => Wrote s t (put s.device.sectors locator.lba (locator.offset + off) bs))
      (Broke s) s := by
  unfold patchSlot
  simp only [wp_bind]
  refine wp_mono _ (readSector_staged hs hlba) ?_ fun _ _ h => h
  rintro _ t ⟨ht, hst⟩
  refine wp_mono _ (scratchPatch_staged (ht.follows.ready hs) hst hfit) ?_ fun _ _ h => h
  rintro _ u ⟨hu, hst'⟩
  have htu := ht.trans (ht.sectors ▸ hu)
  refine wp_mono _ (writeSector_staged (htu.follows.ready hs) hlba hst') ?_
    fun _ _ h => htu.broke h
  exact fun _ v hv => htu.trans hv

/-! ### The FAT -/

lemma setFat_spec {c v : ℕ} (hs : Ready vol.geometry s) (hc : vol.geometry.InHeap c) :
    wp (setFat vol c v) (fun _ t => Wrote s t (setEntry vol.geometry s.device.sectors c v))
      (Broke s) s := by
  have hlt := (hs.sound.inHeap_iff.mp hc).2.2
  have hsize := hs.sound.size_ge
  have hoff := hs.sound.fat_offset_le c
  have hlba := hs.sound.fat_inPartition hc
  unfold setFat
  simp only [wp_bind, wp_u64, hs.sound.fatLbaForByte_eq hc, wp_pure, wp_okOr, wp_rem]
  refine ⟨by omega, fun lba hlba' => ?_, nofun⟩
  cases hlba'
  refine ⟨by omega, wp_mono _ (readSector_staged hs hlba) ?_ fun _ _ h => h⟩
  rintro _ t ⟨ht, hst⟩
  refine wp_mono _ (scratchPatch_staged (ht.follows.ready hs) hst (by simpa using hoff)) ?_
    fun _ _ h => h
  rintro _ u ⟨hu, hst'⟩
  have htu := ht.trans (ht.sectors ▸ hu)
  rw [wp_modify]
  refine wp_mono _ (writeSector_staged ⟨(htu.follows.ready hs).sound,
    (htu.follows.ready hs).scratch⟩
    hlba ⟨hst'.bytes, hst'.rest⟩) ?_ ?_
  · intro _ v hv
    exact htu.trans ⟨⟨hv.1.1, hv.1.2, hv.1.3, hv.1.4⟩, hv.2, hv.3⟩
  · intro e v hv
    exact htu.broke ⟨⟨⟨hv.1.1.1, hv.1.1.2, hv.1.1.3, hv.1.1.4⟩, hv.1.2, hv.1.3⟩, hv.2, hv.3⟩

/-! ### The bitmap -/

variable {bm : List ℕ}

lemma clusterAt_nth {first index : ℕ} {cs : List ℕ} (hs : Ready vol.geometry s)
    (hheap : ∀ c ∈ cs, vol.geometry.InHeap c)
    (hchain : ∀ i < cs.length, link vol.geometry s.device.sectors first i = cs.getD i 0)
    (hshort : cs.length ≤ vol.geometry.clusterCount) (hindex : index < cs.length) :
    wp (clusterAt vol first index) (fun c t => c = cs.getD index 0 ∧ Wrote s t s.device.sectors)
      (Broke s) s := by
  have hin {i : ℕ} (hi : i < cs.length) :
      vol.geometry.InHeap (link vol.geometry s.device.sectors first i) := by
    rw [hchain i hi, List.getD_eq_getElem _ _ hi]
    exact hheap _ (List.getElem_mem hi)
  have hlinked : Linked vol.geometry s.device.sectors first index :=
    fun i hi => hin (hi.trans_lt hindex)
  refine wp_mono _ (clusterAt_spec hs (hin (i := 0) (by omega))) ?_ ?_
  · rintro c t ⟨hq, -, rfl, -⟩
    exact ⟨hchain _ hindex, wrote_of_quiet hq⟩
  · rintro e t (hf | ⟨-, -, hno⟩)
    · exact broke_of_faulted hf
    · exact absurd ⟨by omega, hlinked⟩ hno

lemma bitmapLocation_spec {byte : ℕ} (hs : Ready vol.geometry s)
    (hm : Mapped vol bm s.device.sectors) (hbyte : byte < vol.bitmap.byteLength) :
    wp (bitmapLocation vol byte)
      (fun p t => p = streamPos vol.geometry bm byte ∧ Wrote s t s.device.sectors) (Broke s) s := by
  have hpos := hs.sound.clusterBytes_pos
  have hsize := hs.sound.size_ge
  have hmem := hm.getD_mem hs.sound hbyte
  unfold bitmapLocation
  simp only [hs.sound.bytesPerCluster_eq, wp_bind, wp_pure, wp_ite, wp_throw, wp_div, wp_rem,
    wp_okOr, wp_u64]
  refine ⟨fun hle => absurd hbyte (by omega), fun _ => ⟨by omega, ?_⟩⟩
  refine wp_mono _ (clusterAt_nth hs hm.heap hm.chain hm.short (hm.index_lt hs.sound hbyte)) ?_
    fun _ _ h => h
  rintro c t ⟨rfl, ht⟩
  refine ⟨by omega, ?_⟩
  rw [hs.sound.clusterLba_eq (hm.heap _ hmem), wp_pure]
  refine ⟨fun base hbase => ?_, nofun⟩
  cases hbase
  have hin := streamPos_inCluster hs.sound bm byte
  have hlt := hs.sound.lt_of_inPartition (hin.inPartition hs.sound (hm.heap _ hmem))
  exact ⟨by omega, hlt.2, by omega, rfl, ht⟩

lemma positionFor_eq {c : ℕ} (hm : Mapped vol bm s.device.sectors)
    (hc : Counted vol.geometry c) :
    vol.bitmap.positionFor c = some ((c - 2) / 8, (c - 2) % 8) := if_pos ⟨hc.1, hm.byte_lt hc⟩

lemma readBit_spec {c : ℕ} (hs : Ready vol.geometry s) (hm : Mapped vol bm s.device.sectors)
    (hc : Counted vol.geometry c) {α : Type} {f : ℕ × ℕ → List UInt8 → FsM α}
    {Q : α → Machine → Prop} {E : Error → Machine → Prop} (hE : ∀ e t, Broke s e t → E e t)
    (hf : ∀ t, Wrote s t s.device.sectors →
      Staged vol.geometry.bytesPerSector (streamPos vol.geometry bm ((c - 2) / 8)).1
        s.device.sectors t →
      wp (f (streamPos vol.geometry bm ((c - 2) / 8))
        [streamByte vol.geometry s.device.sectors bm ((c - 2) / 8)]) Q E t) :
    wp (do
      let p ← bitmapLocation vol ((c - 2) / 8)
      readSector vol.geometry.bytesPerSector p.1
      f p (← scratchSlice vol.geometry.bytesPerSector p.2 1)) Q E s := by
  have hbyte := hm.byte_lt hc
  rw [wp_bind]
  refine wp_mono _ (bitmapLocation_spec hs hm hbyte) ?_ hE
  rintro p t ⟨rfl, ht⟩
  have hin := streamPos_inCluster hs.sound bm ((c - 2) / 8)
  have hlba := hin.inPartition hs.sound (hm.heap _ (hm.getD_mem hs.sound hbyte))
  have hoff := streamPos_lt hs.sound bm ((c - 2) / 8)
  rw [wp_bind]
  refine wp_mono _ (readSector_staged (ht.follows.ready hs) hlba) ?_ fun e u h =>
    hE e u (ht.broke h)
  rintro _ u ⟨hu, hst⟩
  rw [ht.sectors] at hu hst
  have hsu := ht.trans hu
  rw [wp_bind, wp_scratchSlice (hsu.follows.ready hs) (by omega), hst.slice (by omega)]
  exact hf u hsu hst

lemma bitmapUsed_spec {c : ℕ} (hs : Ready vol.geometry s) (hm : Mapped vol bm s.device.sectors)
    (hc : Counted vol.geometry c) :
    wp (bitmapUsed vol c)
      (fun b t => b = used vol.geometry bm s.device.sectors c ∧ Wrote s t s.device.sectors)
      (Broke s) s := by
  unfold bitmapUsed
  rw [positionFor_eq hm hc, okOr_some, pure_bind]
  refine readBit_spec hs hm hc (fun _ _ h => h)
    (f := fun _ value => pure ((ofLe value).testBit ((c - 2) % 8))) fun t ht _ => ⟨?_, ht⟩
  simp [ofLe, used]

/-- The cached count is right. -/
def Tally (g : Geometry) (bm : List ℕ) (s : Machine) : Prop :=
  ∀ n, s.freeClusters = some n → n = freeCount g bm s.device.sectors

/-- What every operation needs and keeps: the bitmap is in the clusters `bm`, which are marked used,
and a cached count is the count of its clear bits. -/
structure Base (vol : Volume) (bm : List ℕ) (s : Machine) : Prop where
  ready : Ready vol.geometry s
  mapped : Mapped vol bm s.device.sectors
  marked : ∀ c ∈ bm, used vol.geometry bm s.device.sectors c = true
  tally : Tally vol.geometry bm s

/-- From `s` to `t` the media became `d`. -/
structure Became (vol : Volume) (bm : List ℕ) (s t : Machine) (d : Sectors) : Prop where
  follows : Follows s t
  sectors : t.device.sectors = d
  base : Base vol bm t

/-- A request failed. -/
structure Fails (vol : Volume) (bm : List ℕ) (s : Machine) (e : Error) (t : Machine) : Prop where
  follows : Follows s t
  fault : e = .device .fault
  faulty : Faulty s
  base : Base vol bm t

namespace Became

variable {t u : Machine} {d d' : Sectors} {e : Error}

lemma refl (h : Base vol bm s) : Became vol bm s s s.device.sectors := ⟨Follows.refl s, rfl, h⟩

lemma trans (h : Became vol bm s t d) (h' : Became vol bm t u d') : Became vol bm s u d' :=
  ⟨h.follows.trans h'.follows, h'.sectors, h'.base⟩

lemma fails (h : Became vol bm s t d) (h' : Fails vol bm t e u) : Fails vol bm s e u :=
  ⟨h.follows.trans h'.follows, h'.fault, h.follows.faulty h'.faulty, h'.base⟩

end Became

lemma Wrote.became {t : Machine} {d : Sectors} (h : Wrote s t d) (hs : Base vol bm s)
    (hfat : ∀ c ∈ bm, fatEntry vol.geometry d c = fatEntry vol.geometry s.device.sectors c)
    (hsame : ∀ c ∈ bm, SameCluster vol.geometry s.device.sectors d c) : Became vol bm s t d := by
  have hused {c : ℕ} (hc : Counted vol.geometry c) :
      used vol.geometry bm d c = used vol.geometry bm s.device.sectors c :=
    hs.mapped.used_congr hs.ready.sound hc hsame
  have hcount : freeCount vol.geometry bm d = freeCount vol.geometry bm s.device.sectors :=
    freeCount_congr fun c hc => hused hc
  refine ⟨h.follows, h.sectors, h.follows.ready hs.ready, ?_, fun c hc => ?_, fun n hn => ?_⟩
  · rw [h.sectors]
    exact hs.mapped.congr hfat
  · rw [h.sectors, hused (counted_of_inHeap hs.ready.sound (hs.mapped.heap c hc))]
    exact hs.marked c hc
  · rw [h.sectors, hcount]
    exact hs.tally n (h.free ▸ hn)

lemma Wrote.same {t : Machine} (h : Wrote s t s.device.sectors) (hs : Base vol bm s) :
    Became vol bm s t s.device.sectors := h.became hs (fun _ _ => rfl) fun _ _ _ _ => rfl

lemma Broke.fails {t : Machine} {e : Error} (h : Broke s e t) (hs : Base vol bm s) :
    Fails vol bm s e t := ⟨h.wrote.follows, h.fault, h.faulty, (h.wrote.same hs).base⟩

lemma Wrote.became_cluster {t : Machine} {c lba off : ℕ} {bs : List UInt8}
    (h : Wrote s t (put s.device.sectors lba off bs)) (hs : Base vol bm s)
    (hc : vol.geometry.InHeap c) (hbm : c ∉ bm) (hin : InCluster vol.geometry c lba) :
    Became vol bm s t (put s.device.sectors lba off bs) := by
  have hsound := hs.ready.sound
  refine h.became hs (fun c' hc' => ?_) fun c' hc' lba' hin' => put_of_ne ?_
  · refine fatEntry_congr hsound (hs.mapped.heap c' hc') fun lba' hbelow => put_of_ne ?_
    rintro rfl
    exact hin.not_below hbelow
  · rintro rfl
    have := hin.unique (hsound.inHeap_iff.mp hc).1
      (hsound.inHeap_iff.mp (hs.mapped.heap _ hc')).1 hin'
    exact hbm (this ▸ hc')

lemma setFat_based {c v : ℕ} (hs : Base vol bm s) (hc : vol.geometry.InHeap c) (hbm : c ∉ bm) :
    wp (setFat vol c v)
      (fun _ t => Became vol bm s t (setEntry vol.geometry s.device.sectors c v))
      (Fails vol bm s) s := by
  refine wp_mono _ (setFat_spec hs.ready hc) ?_ fun _ _ h => h.fails hs
  intro _ t ht
  refine ht.became hs (fun c' hc' => ?_) fun c' _ lba hin => ?_
  · exact fatEntry_setEntry_ne _ _ (by rintro rfl; exact hbm hc')
  · rw [setEntry_eq_put, put_of_ne]
    rintro rfl
    exact hin.not_below (hs.ready.sound.fatLba_lt hc)

lemma patchSlot_based {locator : EntryLocator} {c off : ℕ} {bs : List UInt8}
    (hs : Base vol bm s) (hc : vol.geometry.InHeap c) (hbm : c ∉ bm)
    (hin : InCluster vol.geometry c locator.lba)
    (hfit : locator.offset + off + bs.length ≤ vol.geometry.bytesPerSector) :
    wp (patchSlot vol locator off bs)
      (fun _ t => Became vol bm s t
        (put s.device.sectors locator.lba (locator.offset + off) bs)) (Fails vol bm s) s :=
  wp_mono _ (patchSlot_spec hs.ready (hin.inPartition hs.ready.sound hc) hfit)
    (fun _ _ h => h.became_cluster hs hc hbm hin) fun _ _ h => h.fails hs

lemma nextCluster_based {c : ℕ} (hs : Base vol bm s) (hc : vol.geometry.InHeap c) :
    wp (nextCluster vol c)
      (fun v t => v = fatEntry vol.geometry s.device.sectors c ∧
        Became vol bm s t s.device.sectors) (Fails vol bm s) s := by
  refine wp_mono _ (nextCluster_spec hs.ready hc) ?_ fun _ _ h => (broke_of_faulted h).fails hs
  rintro v t ⟨hv, hq⟩
  exact ⟨hv, (wrote_of_quiet hq).same hs⟩

lemma adjustFree_spec {c : ℕ} {b : Bool} {E : Error → Machine → Prop} (hs : Base vol bm s)
    (hc : Counted vol.geometry c) (hne : used vol.geometry bm s.device.sectors c ≠ b) :
    wp (adjustFree vol b s.freeClusters)
      (fun free t => t = s ∧ ∀ n, free = some n →
        n = freeCount vol.geometry bm (setBit vol.geometry bm s.device.sectors c b)) E s := by
  have hsound := hs.ready.sound
  have hcount := hsound.clusterCount
  have hle : freeCount vol.geometry bm (setBit vol.geometry bm s.device.sectors c b) ≤
      vol.geometry.clusterCount := by
    refine List.countP_le_length.trans ?_
    rw [List.length_range']
  rcases hfree : s.freeClusters with _ | n
  · exact ⟨rfl, nofun⟩
  have hn := hs.tally n hfree
  cases b with
  | true =>
    have hset := hs.mapped.freeCount_set hsound hc (by simpa using hne)
    simp only [adjustFree, if_true, wp_bind, wp_okOr, wp_pure, checkedSub]
    rw [if_pos (by omega)]
    refine ⟨fun m hm => ⟨trivial, fun k hk => ?_⟩, nofun⟩
    cases hm
    cases hk
    omega
  | false =>
    have hclear := hs.mapped.freeCount_clear hsound hc (by simpa using hne)
    simp only [adjustFree, Bool.false_eq_true, if_false, wp_bind, wp_okOr, wp_ite, wp_pure,
      wp_throw, checkedAdd32]
    rw [if_pos (by omega)]
    refine ⟨fun m hm => ?_, nofun⟩
    cases hm
    refine ⟨fun _ => ⟨trivial, fun k hk => ?_⟩, fun hgt => absurd hgt (by omega)⟩
    cases hk
    omega

lemma setBitmap_based {c : ℕ} {b : Bool} (hs : Base vol bm s) (hc : Counted vol.geometry c)
    (hbm : c ∉ bm) :
    wp (setBitmap vol c b)
      (fun _ t => Became vol bm s t (setBit vol.geometry bm s.device.sectors c b))
      (Fails vol bm s) s := by
  have hbyte := hs.mapped.byte_lt hc
  have hin := streamPos_inCluster hs.ready.sound bm ((c - 2) / 8)
  have hmem := hs.mapped.getD_mem hs.ready.sound hbyte
  have hlba := hin.inPartition hs.ready.sound (hs.mapped.heap _ hmem)
  have hoff := streamPos_lt hs.ready.sound bm ((c - 2) / 8)
  unfold setBitmap
  rw [positionFor_eq hs.mapped hc, okOr_some, pure_bind]
  refine readBit_spec hs.ready hs.mapped hc (fun _ _ h => h.fails hs) fun t ht hst => ?_
  have hbit : (ofLe [streamByte vol.geometry s.device.sectors bm ((c - 2) / 8)]).testBit
      ((c - 2) % 8) = used vol.geometry bm s.device.sectors c := by
    simp [ofLe, used]
  have htb := ht.same hs
  simp only [hbit, wp_ite, wp_pure, wp_bind, wp_get]
  refine ⟨fun heq => ?_, fun hne => ?_⟩
  · rw [setBit_of_eq heq]
    exact htb
  refine wp_mono _ (adjustFree_spec htb.base hc (by rwa [ht.sectors])) ?_ fun _ _ h => h
  rintro free _ ⟨rfl, hfree⟩
  rw [ht.sectors] at hfree
  refine wp_mono _ (scratchPatch_staged htb.base.ready hst
    (by rw [leBytes_length]; omega)) ?_ fun _ _ h => h
  rintro _ u ⟨hu, hst'⟩
  have hsu := ht.trans (ht.sectors ▸ hu)
  refine wp_mono _ (writeSector_staged (hsu.follows.ready hs.ready) hlba hst') ?_
    fun _ _ h => (hsu.broke h).fails hs
  intro _ v hv
  have hsv := hsu.trans hv
  have hd : put s.device.sectors (streamPos vol.geometry bm ((c - 2) / 8)).1
      (streamPos vol.geometry bm ((c - 2) / 8)).2 (leBytes 1
        (if b = true then (ofLe [streamByte vol.geometry s.device.sectors bm ((c - 2) / 8)]) +
          2 ^ ((c - 2) % 8) else
        (ofLe [streamByte vol.geometry s.device.sectors bm ((c - 2) / 8)]) - 2 ^ ((c - 2) % 8))) =
      setBit vol.geometry bm s.device.sectors c b := by
    rw [setBit_of_ne hne]
    simp [ofLe]
  rw [hd] at hsv
  refine ⟨⟨hsv.follows.1, hsv.follows.2, hsv.follows.3, hsv.follows.4⟩, hsv.sectors,
    ⟨(hsv.follows.ready hs.ready).sound, (hsv.follows.ready hs.ready).scratch⟩, ?_, ?_,
    fun n hn => ?_⟩
  · change Mapped vol bm v.device.sectors
    rw [hsv.sectors]
    refine hs.mapped.congr fun c' hc' => fatEntry_congr hs.ready.sound (hs.mapped.heap c' hc') ?_
    intro lba hbelow
    rw [setBit_of_ne hne, put_of_ne]
    rintro rfl
    exact hin.not_below hbelow
  · intro c' hc'
    change used vol.geometry bm v.device.sectors c' = true
    have hne' : c' ≠ c := by
      rintro rfl
      exact hbm hc'
    rw [hsv.sectors, hs.mapped.used_setBit hs.ready.sound hc b c'
      (counted_of_inHeap hs.ready.sound (hs.mapped.heap c' hc')), if_neg hne']
    exact hs.marked c' hc'
  · change n = freeCount vol.geometry bm v.device.sectors
    rw [hsv.sectors]
    exact hfree n hn

/-! ### The allocator -/

instance (g : Geometry) (c lba : ℕ) : Decidable (InCluster g c lba) :=
  inferInstanceAs (Decidable (_ ∧ _))

/-- The media with the first `n` sectors of cluster `c` zeroed. -/
def zeroed (g : Geometry) (d : Sectors) (c n : ℕ) : Sectors := fun l i =>
  if heapLba g c ≤ l ∧ l < heapLba g c + n ∧ i < g.bytesPerSector then 0 else d l i

/-- The media with a free cluster claimed: zeroed, marked and terminated. -/
def claimed (g : Geometry) (bm : List ℕ) (d : Sectors) (c : ℕ) : Sectors :=
  setEntry g (setBit g bm (zeroed g d c g.sectorsPerCluster) c true) c 0xffffffff

/-- The order in which the allocator tries the clusters. -/
def tryOrder (g : Geometry) (preferred : ℕ) : List ℕ :=
  let first := if 2 ≤ preferred ∧ preferred < g.clusterCount + 2 then preferred else 2
  List.range' first (g.clusterCount + 2 - first) ++ List.range' 2 (first - 2)

lemma zeroed_zero (g : Geometry) (d : Sectors) (c : ℕ) : zeroed g d c 0 = d := by
  funext l i
  unfold zeroed
  rw [if_neg (by omega)]

lemma zeroed_succ (g : Geometry) (d : Sectors) (c n : ℕ) :
    zeroed g d c (n + 1) =
      put (zeroed g d c n) (heapLba g c + n) 0 (List.replicate g.bytesPerSector 0) := by
  funext l i
  by_cases hin : l = heapLba g c + n ∧ i < g.bytesPerSector
  · obtain ⟨rfl, hi⟩ := hin
    have := @put_inside (zeroed g d c n) (heapLba g c + n) 0
      (List.replicate g.bytesPerSector 0) i (by simpa using hi)
    rw [Nat.zero_add] at this
    rw [this]
    unfold zeroed
    rw [if_pos (by omega)]
    simp [hi]
  · rw [put_outside (by simp only [List.length_replicate]; omega)]
    unfold zeroed
    congr 1
    simp only [eq_iff_iff]
    omega

lemma zeroLoop_based {c : ℕ} (hs : Base vol bm s) (hc : vol.geometry.InHeap c) (hbm : c ∉ bm) :
    wp (Exec.loop (ρ := Empty) (fun sector _ => do
      scratchPatch vol.geometry.bytesPerSector 0 (List.replicate vol.geometry.bytesPerSector 0)
      let lba ← u64 (heapLba vol.geometry c + sector)
      writeSector vol.geometry.bytesPerSector lba
      pure (.inr ())) 0 vol.geometry.sectorsPerCluster () : FsM (Empty ⊕ Unit))
      (fun _ t => Became vol bm s t
        (zeroed vol.geometry s.device.sectors c vol.geometry.sectorsPerCluster))
      (Fails vol bm s) s := by
  refine wp_loop_post (fun k _ t => Became vol bm s t
    (zeroed vol.geometry s.device.sectors c k)) ?_ ?_ ?_
  · rw [zeroed_zero]
    exact Became.refl hs
  · intro k _ t _ hk ht
    rw [Nat.zero_add] at hk
    have hin : InCluster vol.geometry c (heapLba vol.geometry c + k) := by
      unfold InCluster
      omega
    have hlba := hin.inPartition hs.ready.sound hc
    simp only [wp_bind, wp_u64]
    refine wp_mono _ (scratchPatch_whole ht.base.ready (by simp)) ?_ fun _ _ h => h
    rintro _ u ⟨hu, hst⟩
    refine ⟨(hs.ready.sound.lt_of_inPartition hlba).2, ?_⟩
    refine wp_mono _ (writeSector_staged (hu.follows.ready ht.base.ready) hlba (hst _)) ?_
      fun _ _ h => ht.fails ((hu.broke h).fails ht.base)
    intro _ v hv
    have htv := (hu.trans hv).became_cluster ht.base hc hbm hin
    rw [ht.sectors, ← zeroed_succ] at htv
    exact ht.trans htv
  · intro _ t ht
    rwa [Nat.zero_add] at ht

lemma claimFreeCluster_based {c : ℕ} (hs : Base vol bm s) (hc : vol.geometry.InHeap c) :
    wp (claimFreeCluster vol c)
      (fun o t =>
        if used vol.geometry bm s.device.sectors c then
          o = none ∧ Became vol bm s t s.device.sectors
        else o = some c ∧ Became vol bm s t (claimed vol.geometry bm s.device.sectors c))
      (Fails vol bm s) s := by
  have hcounted := counted_of_inHeap hs.ready.sound hc
  unfold claimFreeCluster
  rw [wp_bind]
  refine wp_mono _ (bitmapUsed_spec hs.ready hs.mapped hcounted) ?_ fun _ _ h => h.fails hs
  rintro b t ⟨rfl, ht⟩
  have htb := ht.same hs
  by_cases hused : used vol.geometry bm s.device.sectors c = true
  · simp only [if_pos hused]
    exact ⟨rfl, htb⟩
  simp only [if_neg hused]
  rw [hs.ready.sound.clusterLba_eq hc, pure_bind, okOr_some, pure_bind, wp_bind]
  have hbm : c ∉ bm := fun hmem => hused (hs.marked c hmem)
  refine wp_mono _ (zeroLoop_based htb.base hc hbm) ?_ fun _ _ h => htb.fails h
  rintro (r | _) u hu
  · exact r.elim
  rw [ht.sectors] at hu
  simp only [wp_bind, wp_pure]
  refine wp_mono _ (setBitmap_based hu.base hcounted hbm) ?_ fun _ _ h => (htb.trans hu).fails h
  intro _ v hv
  rw [hu.sectors] at hv
  refine wp_mono _ (setFat_based hv.base hc hbm) ?_
    fun _ _ h => ((htb.trans hu).trans hv).fails h
  intro _ w hw
  rw [hv.sectors] at hw
  exact ⟨trivial, ((htb.trans hu).trans hv).trans hw⟩

lemma claimFirstFree_based {first n : ℕ} (hs : Base vol bm s)
    (hheap : ∀ c, first ≤ c → c < first + n → vol.geometry.InHeap c) :
    wp (claimFirstFree vol first n)
      (Sum.elim
        (fun c t => (List.range' first n).find?
        (fun c => !used vol.geometry bm s.device.sectors c) =
          some c ∧ Became vol bm s t (claimed vol.geometry bm s.device.sectors c))
        (fun _ t => (List.range' first n).find?
            (fun c => !used vol.geometry bm s.device.sectors c) = none ∧
          Became vol bm s t s.device.sectors)) (Fails vol bm s) s := by
  induction n generalizing first s with
  | zero => exact ⟨rfl, Became.refl hs⟩
  | succ n ih =>
    unfold claimFirstFree
    rw [Exec.loop_succ, bind_assoc, wp_bind]
    refine wp_mono _ (claimFreeCluster_based hs (hheap first le_rfl (by omega))) ?_ fun _ _ h => h
    intro o t ht
    rw [List.range'_succ, List.find?_cons]
    by_cases hused : used vol.geometry bm s.device.sectors first = true
    · rw [if_pos hused] at ht
      obtain ⟨rfl, ht⟩ := ht
      simp only [hused, Bool.not_true]
      have hrest := @ih _ (first + 1) ht.base fun c h1 h2 => hheap c (by omega) (by omega)
      refine wp_mono _ hrest ?_ fun _ _ h => ht.fails h
      rw [ht.sectors]
      rintro (c | _) u hu
      · exact ⟨hu.1, ht.trans hu.2⟩
      · exact ⟨hu.1, ht.trans hu.2⟩
    · rw [if_neg hused] at ht
      obtain ⟨rfl, ht⟩ := ht
      simp only [hused, Bool.not_false]
      exact ⟨rfl, ht⟩

/-- How an allocation fails. -/
inductive NoCluster (vol : Volume) (bm : List ℕ) (s : Machine) (e : Error) (t : Machine) : Prop
  | fault (h : Fails vol bm s e t)
  | full (he : e = .noSpace) (hfull : ∀ c, Counted vol.geometry c →
      used vol.geometry bm s.device.sectors c = true) (h : Became vol bm s t s.device.sectors)
  | tooMany (he : e = .corrupt) (hcount : 2 ^ 32 ≤ vol.geometry.clusterCount + 2)
      (h : Became vol bm s t s.device.sectors)

/-- **The allocator claims the first free cluster in its order.** -/
theorem allocateClusterPreferred_based {preferred : ℕ} (hs : Base vol bm s) :
    wp (allocateClusterPreferred vol preferred)
      (fun c t => (tryOrder vol.geometry preferred).find?
          (fun c => !used vol.geometry bm s.device.sectors c) = some c ∧
        vol.geometry.InHeap c ∧
        Became vol bm s t (claimed vol.geometry bm s.device.sectors c))
      (NoCluster vol bm s) s := by
  have hsound := hs.ready.sound
  unfold allocateClusterPreferred
  rw [wp_bind, wp_okOr]
  refine ⟨fun stop hstop => ?_, fun hnone => ?_⟩
  swap
  · unfold checkedAdd32 at hnone
    split_ifs at hnone with hlt
    exact .tooMany rfl (by omega) (Became.refl hs)
  unfold checkedAdd32 at hstop
  split_ifs at hstop with hlt
  cases hstop
  have hheap {c : ℕ} (h1 : 2 ≤ c) (h2 : c < vol.geometry.clusterCount + 2) :
      vol.geometry.InHeap c := hsound.inHeap_iff.mpr ⟨h1, h2, by omega⟩
  unfold tryOrder
  simp only
  generalize hfirst : (if 2 ≤ preferred ∧ preferred < vol.geometry.clusterCount + 2
    then preferred else 2) = first
  have hrange : 2 ≤ first ∧ first ≤ vol.geometry.clusterCount + 2 := by
    split_ifs at hfirst <;> omega
  have hfound {c : ℕ} {l : List ℕ} (hl : ∀ x ∈ l, vol.geometry.InHeap x)
      (h : l.find? (fun c => !used vol.geometry bm s.device.sectors c) = some c) :
      vol.geometry.InHeap c := hl c (List.mem_of_find?_eq_some h)
  rw [wp_bind]
  refine wp_mono _ (claimFirstFree_based hs fun c h1 h2 => hheap (by omega) (by omega)) ?_
    fun _ _ h => .fault h
  rintro (c | _) t ⟨hfind, ht⟩
  · refine ⟨by rw [List.find?_append, hfind]; rfl, hfound (fun x hx => ?_) hfind, ht⟩
    rw [List.mem_range'_1] at hx
    exact hheap (by omega) (by omega)
  · rw [wp_bind]
    refine wp_mono _ (claimFirstFree_based ht.base fun c h1 h2 => hheap (by omega) (by omega)) ?_
      fun _ _ h => .fault (ht.fails h)
    rw [ht.sectors]
    rintro (c | _) u ⟨hfind', hu⟩
    · refine ⟨by rw [List.find?_append, hfind]; exact hfind', hfound (fun x hx => ?_) hfind',
        ht.trans hu⟩
      rw [List.mem_range'_1] at hx
      exact hheap (by omega) (by omega)
    · refine .full rfl (fun c hc => ?_) (ht.trans hu)
      rw [List.find?_eq_none] at hfind hfind'
      rcases Nat.lt_or_ge c first with hlt' | hge
      · have := hfind' c (List.mem_range'_1.mpr ⟨hc.1, by omega⟩)
        simpa using this
      · have := hfind c (List.mem_range'_1.mpr ⟨hge, by have := hc.2; omega⟩)
        simpa using this

end ExfatEmbedded.Writing
