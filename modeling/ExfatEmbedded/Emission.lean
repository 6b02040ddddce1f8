import ExfatEmbedded.FormatMount

/-!
The sectors which the formatter writes, one after the other.

A run with a buffer of any suitable length writes the same list of sectors, so that devices end
alike, whichever of their requests fail.
-/

namespace ExfatEmbedded.Emission

open ExfatEmbedded.Library Exec ExfatEmbedded.Core ExfatEmbedded.Entry ExfatEmbedded.Format
open ExfatEmbedded.FormatMedia ExfatEmbedded.Formatted ExfatEmbedded.Reading ExfatEmbedded.Media
open ExfatEmbedded.Writing ExfatEmbedded.FormatMount

/-! ### A list of write requests -/

/-- The device behind a request for contents `d`. -/
def logged (dev : Device) (lba : ℕ) (d : Sectors) : Device :=
  { dev with sectors := d, writes := ⟨lba, d⟩ :: dev.writes }

/-- Write sectors one after the other, until a request fails. -/
def emit : List (ℕ × Image) → Device → Outcome Error Unit × Device
  | [], dev => (.ok (), dev)
  | (lba, m) :: ws, dev =>
    if dev.writeFails dev.writes.length then (.err (.device .fault), logged dev lba dev.sectors)
    else if dev.sectorCount ≤ lba then (.err (.device .outOfRange), logged dev lba dev.sectors)
    else emit ws (logged dev lba (dev.sectors.write lba 512 m))

/-- The sectors of `c` from `lba` on. -/
def span (lba n : ℕ) (c : Sectors) : List (ℕ × Image) :=
  (List.range' lba n).map fun l => (l, c l)

section Emit

variable {ws ws' : List (ℕ × Image)} {dev dev' : Device}

lemma emit_append (ws ws' : List (ℕ × Image)) (dev : Device) :
    emit (ws ++ ws') dev = match emit ws dev with
      | (.ok (), dev') => emit ws' dev'
      | r => r := by
  induction ws generalizing dev with
  | nil => rfl
  | cons w ws ih =>
    obtain ⟨lba, m⟩ := w
    simp only [List.cons_append, emit]
    split_ifs
    · rfl
    · rfl
    · exact ih _

lemma emit_ne_panic (ws : List (ℕ × Image)) (dev : Device) : (emit ws dev).1 ≠ .panic := by
  induction ws generalizing dev with
  | nil => exact nofun
  | cons w ws ih =>
    obtain ⟨lba, m⟩ := w
    simp only [emit]
    split_ifs
    · exact nofun
    · exact nofun
    · exact ih _

lemma emit_ok_iff : (emit ws dev).1 = .ok () ↔
    ∀ k (hk : k < ws.length), dev.writeFails (dev.writes.length + k) = false ∧
      ws[k].1 < dev.sectorCount := by
  induction ws generalizing dev with
  | nil => simp [emit]
  | cons w ws ih =>
    obtain ⟨lba, m⟩ := w
    have hnext := @ih (logged dev lba (dev.sectors.write lba 512 m))
    have hlen : (logged dev lba (dev.sectors.write lba 512 m)).writes.length =
      dev.writes.length + 1 := rfl
    rw [hlen] at hnext
    constructor
    · intro h k hk
      simp only [emit] at h
      split_ifs at h with hfail hout
      rcases k with _ | k
      · exact ⟨by simpa using hfail, Nat.not_le.mp hout⟩
      · rw [List.length_cons] at hk
        have := hnext.mp h k (by omega)
        rwa [show dev.writes.length + 1 + k = dev.writes.length + (k + 1) by omega] at this
    · intro h
      have h0 := h 0 (by simp)
      have hin : ¬ dev.sectorCount ≤ lba := Nat.not_le.mpr h0.2
      simp only [emit]
      rw [if_neg (by simpa using h0.1), if_neg hin]
      refine hnext.mpr fun k hk => ?_
      have := h (k + 1) (by simpa using hk)
      rwa [show dev.writes.length + (k + 1) = dev.writes.length + 1 + k by omega] at this

lemma emit_ok_within (h : ∀ w ∈ ws, w.1 < dev.sectorCount) : (emit ws dev).1 = .ok () ↔
    ¬ ∃ k < ws.length, dev.writeFails (dev.writes.length + k) = true := by
  rw [emit_ok_iff]
  constructor
  · rintro hok ⟨k, hk, hfails⟩
    have hserved := (hok k hk).1
    rw [hfails] at hserved
    exact Bool.noConfusion hserved
  · intro hnone k hk
    exact ⟨Bool.not_eq_true _ ▸ fun hfails => hnone ⟨k, hk, hfails⟩, h _ (List.getElem_mem hk)⟩

lemma span_add (lba a b : ℕ) (c : Sectors) :
    span lba (a + b) c = span lba a c ++ span (lba + a) b c := by
  rw [span, ← List.range'_append_1, List.map_append]
  rfl

lemma span_one (lba : ℕ) (c : Sectors) : span lba 1 c = [(lba, c lba)] := rfl

lemma span_length (lba n : ℕ) (c : Sectors) : (span lba n c).length = n := by simp [span]

lemma span_mem {lba n : ℕ} {c : Sectors} {w : ℕ × Image} (h : w ∈ span lba n c) :
    lba ≤ w.1 ∧ w.1 < lba + n := by
  obtain ⟨l, hl, rfl⟩ := List.mem_map.mp h
  simpa using hl

end Emit

/-! ### Programs which emit sectors -/

/-- From `s` to `t` the sectors have been written. -/
structure Emitted (s : Machine) (ws : List (ℕ × Image)) (t : Machine) : Prop where
  device : emit ws s.device = (.ok (), t.device)
  scratch : t.scratch.len = s.scratch.len

/-- A request for one of the sectors failed. -/
def Stopped (s : Machine) (ws : List (ℕ × Image)) (e : Error) (t : Machine) : Prop :=
  emit ws s.device = (.err e, t.device)

/-- A program writes the sectors; a value comes with `R`. -/
def Emits {α : Type} (m : FsM α) (ws : List (ℕ × Image)) (R : α → Machine → Prop) (s : Machine) :
    Prop := wp m (fun a t => Emitted s ws t ∧ R a t) (Stopped s ws) s

section Rules

variable {α β : Type} {s t u : Machine} {ws ws' : List (ℕ × Image)} {m : FsM α} {f : α → FsM β}
  {R R' : α → Machine → Prop} {Q : β → Machine → Prop} {e : Error}

lemma Emitted.refl (s : Machine) : Emitted s [] s := ⟨rfl, rfl⟩

lemma Emitted.trans (h : Emitted s ws t) (h' : Emitted t ws' u) : Emitted s (ws ++ ws') u := by
  refine ⟨?_, h'.scratch.trans h.scratch⟩
  rw [emit_append, h.device]
  exact h'.device

lemma Emitted.stopped (h : Emitted s ws t) (h' : Stopped t ws' e u) :
    Stopped s (ws ++ ws') e u := by
  unfold Stopped at h' ⊢
  rw [emit_append, h.device]
  exact h'

lemma Stopped.append (h : Stopped s ws e t) (ws' : List (ℕ × Image)) :
    Stopped s (ws ++ ws') e t := by
  unfold Stopped at h ⊢
  rw [emit_append, h]

lemma Buffered.emitted (h : Buffered s t) : Emitted s [] t :=
  ⟨by rw [h.device]; rfl, h.scratchLen⟩

lemma Emits.mono (h : Emits m ws R s) (hR : ∀ a t, Emitted s ws t → R a t → R' a t) :
    Emits m ws R' s :=
  wp_mono _ h (fun _ _ h => ⟨h.1, hR _ _ h.1 h.2⟩) fun _ _ h => h

lemma Emits.run {m : FsM Unit} {R : Unit → Machine → Prop} (h : Emits m ws R s) :
    (m s).1 = (emit ws s.device).1 ∧ (m s).2.device = (emit ws s.device).2 := by
  unfold Emits wp at h
  rcases hrun : m s with ⟨a | e | _, t⟩ <;> rw [hrun] at h
  · rw [h.1.device]
    exact ⟨rfl, rfl⟩
  · rw [show emit ws s.device = _ from h]
    exact ⟨rfl, rfl⟩
  · exact h.elim

lemma Emits.bind (h : Emits m ws R s)
    (hf : ∀ a t, Emitted s ws t → R a t → Emits (f a) ws' Q t) :
    Emits (m >>= f) (ws ++ ws') Q s := by
  unfold Emits
  rw [wp_bind]
  refine wp_mono _ h ?_ fun _ _ h => h.append ws'
  rintro a t ⟨ht, hR⟩
  exact wp_mono _ (hf a t ht hR) (fun _ _ h => ⟨ht.trans h.1, h.2⟩) fun _ _ h => ht.stopped h

lemma Emitted.buffered (h : Emitted s ws t) (h' : Buffered t u) : Emitted s ws u :=
  ⟨by rw [h'.device]; exact h.device, h'.scratchLen.trans h.scratch⟩

lemma emits_after (h : wp m (fun a t => Buffered s t ∧ R a t) (fun _ _ => False) s)
    (hf : ∀ a t, Buffered s t → R a t → Emits (f a) ws Q t) : Emits (m >>= f) ws Q s := by
  unfold Emits
  rw [wp_bind]
  refine wp_mono _ h ?_ fun _ _ h => h.elim
  rintro a t ⟨ht, hR⟩
  have hrefl := Buffered.emitted ht
  exact wp_mono _ (hf a t ht hR) (fun _ _ h => ⟨hrefl.trans h.1, h.2⟩) fun _ _ h => hrefl.stopped h

lemma Emitted.batch {lba n k total : ℕ} {c : Sectors} (h : Emitted s (span lba n c) t)
    (hm : Emits m (span (lba + n) k c) R t) (hle : n + k ≤ total) :
    wp m (fun a u => Emitted s (span lba (n + k) c) u ∧ R a u)
      (Stopped s (span lba total c)) t := by
  refine wp_mono _ hm (fun _ _ hu => ?_) fun _ _ hu => ?_
  · rw [span_add]
    exact ⟨h.trans hu.1, hu.2⟩
  · have hstop := h.stopped hu
    rw [← span_add] at hstop
    rw [show total = n + k + (total - (n + k)) by omega, span_add]
    exact hstop.append _

end Rules

/-! ### Whole sectors -/

section Sectors

variable {s : Machine} {lba off : ℕ} {c : Sectors} {bs : List UInt8} {size : ℕ}

lemma write_congr {d : Sectors} {m m' : Image} (h : ∀ i < 512, m i = m' i) :
    d.write lba 512 m = d.write lba 512 m' := by
  funext l
  unfold Sectors.write
  split
  · funext i
    unfold Image.splice
    split
    · exact h i (by assumption)
    · rfl
  · rfl

lemma writeChunk_emits (hoff : off + 512 ≤ s.scratch.len)
    (hbytes : ∀ i < 512, s.scratch.bytes (off + i) = c lba i) :
    Emits (writeChunk lba off) (span lba 1 c) (fun _ t => t.scratch = s.scratch) s := by
  unfold Emits wp writeChunk
  simp only
  rw [if_neg (by omega), write_congr hbytes]
  by_cases hfail : s.device.writeFails s.device.writes.length = true
  · rw [if_pos hfail]
    unfold Stopped
    rw [span_one, emit, if_pos hfail]
    rfl
  · rw [if_neg hfail]
    by_cases hout : s.device.sectorCount ≤ lba
    · rw [if_pos hout]
      unfold Stopped
      rw [span_one, emit, if_neg hfail, if_pos hout]
      rfl
    · rw [if_neg hout]
      refine ⟨⟨?_, rfl⟩, rfl⟩
      rw [span_one, emit, if_neg hfail, if_neg hout]
      rfl

lemma writeSector_emits (hlen : 512 ≤ s.scratch.len)
    (hbytes : ∀ i < 512, s.scratch.bytes i = c lba i) :
    Emits (writeSector 512 lba) (span lba 1 c) (fun _ t => t.scratch = s.scratch) s := by
  have hsame : writeSector 512 lba s = writeChunk lba 0 s := by
    unfold writeSector writeChunk
    simp only [Nat.zero_add]
  have hchunk : Emits (writeChunk lba 0) (span lba 1 c) (fun _ t => t.scratch = s.scratch) s :=
    writeChunk_emits (by omega) (by simpa using hbytes)
  unfold Emits wp at hchunk ⊢
  rwa [hsame]

lemma writeSectors_emits {n : ℕ} (hfit : n ≤ s.scratch.len / 512)
    (hlba : lba + n ≤ 2 ^ 64)
    (hbytes : ∀ k < n, ∀ i < 512, s.scratch.bytes (k * 512 + i) = c (lba + k) i) :
    Emits (writeSectors lba (n * 512)) (span lba n c) (fun _ _ => True) s := by
  unfold Emits writeSectors sectorsLen
  simp only [wp_bind, wp_get, wp_pure, wp_assert]
  have hroom {k : ℕ} (hk : k < n) : k * 512 + 512 ≤ s.scratch.len := by
    rw [← Nat.succ_mul]
    exact (Nat.le_div_iff_mul_le (by decide)).mp (by omega)
  refine ⟨⟨Nat.mul_le_mul_right _ hfit, Nat.mul_mod_left _ _⟩, ?_⟩
  rw [Nat.mul_div_cancel _ (by decide)]
  refine wp_loop_post (fun k _ t => Emitted s (span lba k c) t ∧ t.scratch = s.scratch)
    ⟨Emitted.refl s, rfl⟩ ?_ ?_
  · rintro k _ t - hk ⟨ht, hscratch⟩
    simp only [wp_bind, wp_u64, wp_pure]
    refine ⟨by omega, ?_⟩
    have hchunk : Emits (writeChunk (lba + k) (k * 512)) (span (lba + k) 1 c)
        (fun _ u => u.scratch = t.scratch) t := by
      refine writeChunk_emits (hscratch ▸ hroom (by omega)) fun i hi => ?_
      rw [hscratch, hbytes k (by omega) i hi]
    refine wp_mono _ (ht.batch hchunk (by omega)) ?_ fun _ _ h => h
    rintro _ u ⟨hu, hsame⟩
    exact ⟨hu, hsame.trans hscratch⟩
  · rintro _ t ⟨ht, -⟩
    rw [Nat.zero_add] at ht
    exact ⟨ht, trivial⟩

/-! ### Filling the buffer -/

-- the programs are not to be run where a precondition is stated of them
attribute [local irreducible] scratchPatch List.replicate

lemma scratchPatch_fills (hoff : off + bs.length ≤ size) (hsize : size ≤ s.scratch.len) :
    wp (scratchPatch size off bs) (fun _ t => Buffered s t ∧
      t.scratch.bytes = Image.patch s.scratch.bytes off bs) (fun _ _ => False) s := by
  simp only [scratchPatch, wp_bind, wp_get, wp_assert, wp_modify]
  exact ⟨⟨hoff, hsize⟩, ⟨rfl, rfl⟩, trivial⟩

lemma wp_wlp {α : Type} {m : FsM α} {Q Q' : α → Machine → Prop} {E : Error → Machine → Prop}
    (h : wp m Q E s) (h' : wlp m Q' s) : wp m Q' E s := by
  refine wp_mono _ (wp_run h) (fun a t ht => h' a t ht.2) fun _ _ h => h.1

lemma patchAll_fills {ps : List (ℕ × List UInt8)} (hlen : 512 ≤ s.scratch.len)
    (h : ∀ p ∈ ps, p.1 + p.2.length ≤ 512) :
    wp (patchAll ps) (fun _ t => Buffered s t) (fun _ _ => False) s := by
  induction ps generalizing s with
  | nil => exact Buffered.refl s
  | cons p ps ih =>
    simp only [patchAll, wp_bind]
    refine wp_mono _ (scratchPatch_fills (h p (by simp)) hlen) ?_ fun _ _ h => h
    rintro _ t ⟨ht, -⟩
    refine wp_mono _ (ih (by rw [ht.scratchLen]; exact hlen) fun q hq => h q (by simp [hq])) ?_
      fun _ _ h => h
    exact fun _ u hu => ht.trans hu

lemma fillSector_fills {ps : List (ℕ × List UInt8)} (hlen : 512 ≤ s.scratch.len)
    (h : ∀ p ∈ ps, p.1 + p.2.length ≤ 512) :
    wp (fillSector ps) (fun _ t => Buffered s t ∧ ∀ i < 512, t.scratch.bytes i = sectorOf ps i)
      (fun _ _ => False) s := by
  have hall : ∀ p ∈ (0, List.replicate 512 0) :: ps, p.1 + p.2.length ≤ 512 := by
    rw [List.forall_mem_cons]
    exact ⟨by simp only [List.length_replicate, Nat.zero_add, le_refl], h⟩
  have htotal := patchAll_fills hlen hall
  have hlays := @fillSector_lays s ps
  exact wp_wlp htotal hlays

lemma fillWrite_emits {ps : List (ℕ × List UInt8)} (hlen : 512 ≤ s.scratch.len)
    (h : ∀ p ∈ ps, p.1 + p.2.length ≤ 512) :
    Emits (do fillSector ps; writeSector 512 lba) (span lba 1 fun _ => sectorOf ps)
      (fun _ _ => True) s := by
  refine emits_after (fillSector_fills hlen h) fun _ t ht hbytes => ?_
  have hwrite : Emits (writeSector 512 lba) (span lba 1 fun _ => sectorOf ps)
      (fun _ u => u.scratch = t.scratch) t :=
    writeSector_emits (by rw [ht.scratchLen]; exact hlen) hbytes
  exact hwrite.mono fun _ _ _ _ => trivial

end Sectors

/-! ### The boot regions -/

attribute [local irreducible] fillSector

section Boot

variable {s : Machine} {length fat heap clusters spc lba : ℕ}

lemma bootPatches_fit (length fat heap clusters spc sector : ℕ) :
    ∀ p ∈ bootPatches length fat heap clusters spc sector, p.1 + p.2.length ≤ 512 := by
  unfold bootPatches
  split_ifs <;> simp [-List.reduceReplicate]

lemma writeBootRegion_emits {start : ℕ} (hlen : 512 ≤ s.scratch.len)
    (hstart : start + 11 ≤ 2 ^ 64) :
    Emits (writeBootRegion start length fat heap clusters spc)
      (span start 11 (regionSectors length fat heap clusters spc start))
      (fun sum _ => sum = regionChecksum length fat heap clusters spc 11) s := by
  have hstart0 : 0 = regionChecksum length fat heap clusters spc 0 := by simp [regionChecksum]
  unfold Emits writeBootRegion
  rw [wp_bind]
  refine wp_loop_post (fun k sum t =>
    Emitted s (span start k (regionSectors length fat heap clusters spc start)) t ∧
      sum = regionChecksum length fat heap clusters spc k) ?_ ?_ ?_
  · exact ⟨Emitted.refl s, hstart0⟩
  · intro k sum t _ hk h
    have ht := h.1
    rw [h.2]
    have hlent : 512 ≤ t.scratch.len := by
      rw [ht.scratch]
      exact hlen
    have hsector : Emits (do
        fillSector (bootPatches length fat heap clusters spc k)
        let out ← scratchSlice 512 0 512
        let lba ← u64 (start + k)
        writeSector 512 lba
        pure (.inr (regionSum k (regionChecksum length fat heap clusters spc k) out)) :
          FsM (Empty ⊕ ℕ)) (span (start + k) 1 (regionSectors length fat heap clusters spc start))
        (fun r _ => r = .inr (regionChecksum length fat heap clusters spc (k + 1))) t := by
      have hfill := fillSector_fills hlent (bootPatches_fit length fat heap clusters spc k)
      refine emits_after hfill fun _ u hu hbytes => ?_
      have hlenu : 512 ≤ u.scratch.len := by
        rw [hu.scratchLen]
        exact hlent
      have hwrite : Emits (writeSector 512 (start + k))
          (span (start + k) 1 (regionSectors length fat heap clusters spc start))
          (fun _ v => v.scratch = u.scratch) u := by
        refine writeSector_emits hlenu fun i hi => ?_
        rw [hbytes i hi, regionSectors, Nat.add_sub_cancel_left]
      unfold Emits
      rw [wp_bind, wp_scratchSlice' hlenu (by decide), wp_bind, wp_u64]
      refine ⟨by omega, ?_⟩
      rw [wp_bind]
      refine wp_mono _ hwrite ?_ fun _ _ h => h
      rintro _ v ⟨hv, -⟩
      refine ⟨hv, ?_⟩
      unfold regionChecksum
      rw [List.range_succ, List.foldl_append, List.foldl_cons, List.foldl_nil]
      congr 2
      exact Image.slice_congr fun i _ hi => hbytes i (by omega)
    refine wp_mono _ (ht.batch hsector (by omega)) ?_ fun _ _ h => h
    intro r u hu
    rw [hu.2]
    exact ⟨hu.1, rfl⟩
  · intro sum t h
    rw [Nat.zero_add] at h
    exact h

set_option maxRecDepth 2000 in
lemma writeBootChecksum_emits {checksum : ℕ} (hlen : 512 ≤ s.scratch.len) :
    Emits (writeBootChecksum lba checksum) (span lba 1 fun _ => checksumSector checksum)
      (fun _ _ => True) s := by
  have hlength : (List.replicate 128 (leBytes 4 checksum)).flatten.length = 512 := by
    rw [List.length_flatten, List.map_replicate, List.sum_replicate_nat, leBytes_length]
  unfold writeBootChecksum
  generalize hrepeated : (List.replicate 128 (leBytes 4 checksum)).flatten = repeated at hlength ⊢
  have hfit : 0 + repeated.length ≤ 512 := by rw [hlength]
  refine emits_after (scratchPatch_fills hfit hlen) fun _ t ht hbytes => ?_
  have hlent : 512 ≤ t.scratch.len := by
    rw [ht.scratchLen]
    exact hlen
  have hwrite : Emits (writeSector 512 lba) (span lba 1 fun _ => checksumSector checksum)
      (fun _ u => u.scratch = t.scratch) t := by
    refine writeSector_emits hlent fun i hi => ?_
    rw [hbytes, Image.patch, if_pos ⟨Nat.zero_le _, by rw [hlength]; omega⟩, Nat.sub_zero,
      ← hrepeated]
    exact getD_flatten_replicate (leBytes_length _ _) (by omega)
  exact hwrite.mono fun _ _ _ _ => trivial

attribute [local irreducible] writeBootRegion writeBootChecksum

/-- The sectors of the two boot regions, with their checksums. -/
def bootWrites (length fat heap clusters spc : ℕ) : List (ℕ × Image) :=
  span 1 11 (regionSectors length fat heap clusters spc 1) ++
    (span 12 1 (fun _ => checksumSector (regionChecksum length fat heap clusters spc 11)) ++
      (span 13 11 (regionSectors length fat heap clusters spc 13) ++
        span 24 1 fun _ => checksumSector (regionChecksum length fat heap clusters spc 11)))

lemma writeBootRegions_emits (hlen : 512 ≤ s.scratch.len) :
    Emits (writeBootRegions length fat heap clusters spc)
      (bootWrites length fat heap clusters spc) (fun _ _ => True) s := by
  have hfirst := @writeBootRegion_emits s length fat heap clusters spc 1 hlen (by norm_num)
  unfold writeBootRegions bootWrites
  refine hfirst.bind fun sum t ht hsum => ?_
  rw [hsum]
  have h1 := ht.scratch ▸ hlen
  refine (writeBootChecksum_emits h1).bind fun _ u hu _ => ?_
  have h2 := hu.scratch ▸ h1
  have hsecond := @writeBootRegion_emits u length fat heap clusters spc 13 h2 (by norm_num)
  refine hsecond.bind fun sum v hv hsum => ?_
  rw [hsum]
  exact writeBootChecksum_emits (hv.scratch ▸ h2)

end Boot

/-! ### The FAT -/

section Fat

variable {s : Machine} {fatLen bitmap bitmapLen upcase upcaseLen : ℕ}

lemma writeFat_emits (hlen : 512 ≤ s.scratch.len) (hsome : s.scratch.len / 512 % 2 ^ 32 ≠ 0)
    (hfat : fatLen * 128 ≤ 2 ^ 32) :
    Emits (writeFat 1 fatLen bitmap bitmapLen upcase upcaseLen)
      (span 25 fatLen (fatSectors 25 bitmap bitmapLen upcase upcaseLen)) (fun _ _ => True) s := by
  unfold Emits writeFat
  simp only [wp_bind, wp_get]
  generalize hbatch : max (s.scratch.len / 512) 1 % 2 ^ 32 = batch
  have hpos : 0 < batch ∧ batch ≤ s.scratch.len / 512 := by omega
  -- every round takes at least one sector
  refine wp_loop_post (fun k first t =>
    Emitted s (span 25 first (fatSectors 25 bitmap bitmapLen upcase upcaseLen)) t ∧
      k ≤ first ∧ first ≤ fatLen) ⟨Emitted.refl s, le_rfl, Nat.zero_le _⟩ ?_ ?_
  · rintro k first t - hk ⟨ht, hle, hge⟩
    unfold fatBatch
    rw [wp_ite]
    refine ⟨fun hdone => ?_, fun hmore => ?_⟩
    · obtain rfl : first = fatLen := by omega
      exact ⟨ht, trivial⟩
    · simp only [wp_bind, sectorsLen, wp_get, wp_pure]
      generalize hcount : min (fatLen - first) batch = count
      have hroom : count ≤ t.scratch.len / 512 := by
        rw [ht.scratch]
        omega
      have hfill : wp (loop (ρ := Empty) (fun offset _ => do
          let _ ← u32 ((first + offset) * 128 + 127)
          scratchPatch (t.scratch.len / 512 * 512) (offset * 512)
            (fatSector bitmap bitmapLen upcase upcaseLen (first + offset))
          pure (.inr ())) 0 count () : FsM (Empty ⊕ Unit))
          (fun _ u => Buffered t u) (fun _ _ => False) t := by
        refine wp_loop_post (fun _ _ u => Buffered t u) (Buffered.refl t) ?_ fun _ _ h => h
        intro j _ u _ hj hu
        simp only [wp_bind, wp_u32, wp_pure]
        refine ⟨by omega, wp_mono _ (scratchPatch_fills ?_ ?_) (fun _ v hv => hu.trans hv.1)
          fun _ _ h => h⟩
        · rw [fatSector_length, ← Nat.succ_mul]
          exact Nat.mul_le_mul_right _ (by omega)
        · rw [hu.scratchLen]
          exact Nat.div_mul_le_self _ _
      refine wp_mono _ (wp_and _ hfill (wp_wlp hfill fatFill_lays)) ?_ fun _ _ h => h.1.elim
      rintro _ u ⟨-, hu, hbytes⟩
      have hwrite : Emits (writeSectors (1 + fatOffset + first) (count * 512))
          (span (25 + first) count (fatSectors 25 bitmap bitmapLen upcase upcaseLen))
          (fun _ _ => True) u := by
        refine writeSectors_emits (by rw [hu.scratchLen]; exact hroom) ?_ fun j hj i hi => ?_
        · unfold fatOffset bootSectors
          omega
        · rw [hbytes j hj i hi, fatSector_getD hi, fatSectors]
          congr 4
          unfold fatOffset bootSectors
          omega
      refine wp_mono _ ((ht.buffered hu).batch hwrite (by omega)) ?_ fun _ _ h => h
      exact fun _ v hv => ⟨hv.1, by omega, by omega⟩
  · rintro first t ⟨-, hle, hge⟩
    omega

end Fat

/-! ### The heap -/

section Heap

variable {s : Machine} {heap spc cluster : ℕ}

lemma wp_clusterLba {part : ℕ} {Q : ℕ → Machine → Prop} {E : Error → Machine → Prop}
    (hcluster : 2 ≤ cluster) (hlba : part + heap + (cluster - 2) * spc < 2 ^ 64)
    (hQ : Q (part + heap + (cluster - 2) * spc) s) :
      wp (clusterLba part heap spc cluster) Q E s := by
  unfold clusterLba
  simp only [wp_bind, wp_sub, wp_u64]
  exact ⟨hcluster, hlba, hQ⟩

lemma markReserved_fills {reserved : ℕ} (hlen : 512 ≤ s.scratch.len) (hreserved : reserved ≤ 4096) :
    wp (markReserved reserved) (fun _ t => Buffered s t) (fun _ _ => False) s := by
  have hsector : 512 ≤ s.scratch.len / 512 * 512 := by
    have := (Nat.le_div_iff_mul_le (by decide)).mpr ((Nat.one_mul 512).le.trans hlen)
    exact (Nat.one_mul 512).ge.trans (Nat.mul_le_mul_right _ this)
  have hfits := Nat.div_mul_le_self s.scratch.len 512
  generalize hsize : s.scratch.len / 512 * 512 = size at hsector hfits
  unfold markReserved sectorsLen
  simp only [wp_bind, wp_get, wp_pure, hsize]
  refine wp_loop_post (fun _ _ t => Buffered s t) (Buffered.refl s) ?_ fun _ _ h => h
  intro bit _ t _ hbit ht
  have hscratch := ht.scratchLen
  rw [wp_bind, wp_scratchSlice' (by omega) (by omega), wp_bind]
  have hfit (bs : List UInt8) (h : bs.length = 1) : bit / 8 + bs.length ≤ size := by omega
  exact wp_mono _ (scratchPatch_fills (hfit _ (leBytes_length _ _)) (by omega))
    (fun _ u hu => ht.trans hu.1) fun _ _ h => h

lemma bitmapBatch_filled {firstLba reserved lba n : ℕ} (hlen : 512 ≤ s.scratch.len)
    (hreserved : reserved ≤ 4096) (hlba : firstLba ≤ lba) (hn : n ≤ s.scratch.len / 512) :
    wp (do
      scratchPatch (s.scratch.len / 512 * 512) 0 (List.replicate (n * 512) 0)
      when (lba = firstLba) (markReserved reserved))
      (fun _ t => Buffered s t ∧ ∀ j < n * 512, t.scratch.bytes j =
        reservedByte reserved ((lba - firstLba) * 512 + j)) (fun _ _ => False) s := by
  have hfit : 0 + (List.replicate (n * 512) (0 : UInt8)).length ≤ s.scratch.len / 512 * 512 := by
    rw [List.length_replicate, Nat.zero_add]
    exact Nat.mul_le_mul_right _ hn
  have htotal : wp (do
      scratchPatch (s.scratch.len / 512 * 512) 0 (List.replicate (n * 512) 0)
      when (lba = firstLba) (markReserved reserved))
      (fun _ t => Buffered s t) (fun _ _ => False) s := by
    rw [wp_bind]
    refine wp_mono _ (scratchPatch_fills hfit (Nat.div_mul_le_self _ _)) ?_ fun _ _ h => h
    rintro _ t ⟨ht, -⟩
    rw [wp_when]
    refine ⟨fun _ => ?_, fun _ => ht⟩
    exact wp_mono _ (markReserved_fills (by rw [ht.scratchLen]; exact hlen) hreserved)
      (fun _ _ hu => ht.trans hu) fun _ _ h => h
  exact wp_wlp htotal (bitmapBatch_fills hreserved hlba)

attribute [local irreducible] markReserved

lemma writeBitmap_emits {bytes reserved : ℕ} (hlarge : 512 ≤ s.scratch.len) (hcluster : 2 ≤ cluster)
    (hlba : 1 + heap + (cluster - 2) * spc + (bytes + 511) / 512 < 2 ^ 64)
    (hreserved : reserved ≤ 4096) :
    Emits (writeBitmap 1 heap spc cluster bytes reserved)
      (span (1 + heap + (cluster - 2) * spc) ((bytes + 511) / 512)
        (bitmapSectors (1 + heap + (cluster - 2) * spc) reserved)) (fun _ _ => True) s := by
  unfold Emits writeBitmap
  rw [wp_bind]
  refine wp_clusterLba hcluster (by omega) ?_
  generalize 1 + heap + (cluster - 2) * spc = first at hlba ⊢
  rw [wp_bind]
  -- every round but the last takes at least one byte
  refine wp_loop_post (fun k v t => ∃ n, v.2 = first + n ∧ v.1 = bytes - n * 512 ∧ v.1 + k ≤ bytes ∧
    n ≤ (bytes + 511) / 512 ∧ Emitted s (span first n (bitmapSectors first reserved)) t) ?_ ?_ ?_
  · exact ⟨0, rfl, rfl, le_rfl, Nat.zero_le _, Emitted.refl s⟩
  · rintro k ⟨left, lba⟩ t - hk ⟨n, hpos, hleft, hfuel, hle, ht⟩
    simp only at hpos hleft hfuel
    unfold bitmapBatch
    rw [wp_ite]
    refine ⟨fun hdone => ?_, fun hmore => ?_⟩
    · rw [wp_pure]
      simp only [Sum.elim_inl, wp_pure]
      rw [show (bytes + 511) / 512 = n by omega]
      exact ⟨ht, trivial⟩
    · have hscratch := ht.scratch
      simp only [wp_bind, sectorsLen, wp_get, wp_pure]
      rw [Nat.mul_div_cancel _ (by decide)]
      generalize hcount : min ((left + 511) / 512) (t.scratch.len / 512) = count
      have hroom : count ≤ t.scratch.len / 512 := by omega
      have hsome : 0 < count := by
        have : 0 < t.scratch.len / 512 := Nat.div_pos (by omega) (by decide)
        omega
      have hfill : wp _ _ _ t := bitmapBatch_filled (by rw [hscratch]; exact hlarge) hreserved
        (show first ≤ lba by omega) hroom
      rw [wp_bind] at hfill
      refine wp_mono _ hfill ?_ fun _ _ h => h.elim
      intro _ u hu
      refine wp_mono _ hu ?_ fun _ _ h => h.elim
      rintro _ v ⟨hv, hbytes⟩
      have hwrite : Emits (writeSectors lba (count * 512))
          (span (first + n) count (bitmapSectors first reserved)) (fun _ _ => True) v := by
        rw [hpos]
        refine writeSectors_emits (by rw [hv.scratchLen]; exact hroom)
          (by omega) fun j hj i hi => ?_
        have hin : j * 512 + i < count * 512 := by
          have := Nat.mul_le_mul_right 512 (show j + 1 ≤ count from hj)
          omega
        rw [hbytes _ hin, bitmapSectors, hpos, Nat.add_assoc first n j, Nat.add_sub_cancel_left,
          Nat.add_sub_cancel_left, Nat.add_mul, Nat.add_assoc]
      refine wp_mono _ ((ht.buffered hv).batch hwrite (by omega)) ?_ fun _ _ h => h
      rintro _ w ⟨hw, -⟩
      simp only [wp_u64, Sum.elim_inr]
      refine ⟨by omega, n + count, by omega, by omega, by omega, by omega, hw⟩
  · rintro v t ⟨n, -, hleft, hfuel, -⟩
    omega

/-- The words of a batch of the UpCase table: their number is a `u32`. -/
def tableWords (len : ℕ) : ℕ := len / 2 % 2 ^ 32

/-- A batch of the UpCase table is the rest of it, or whole sectors. -/
def WholeSectors (len : ℕ) : Prop :=
  65536 ≤ tableWords len ∨ 0 < tableWords len ∧ tableWords len % 256 = 0

instance (len : ℕ) : Decidable (WholeSectors len) := inferInstanceAs (Decidable (_ ∨ _ ∧ _))

lemma WholeSectors.some {len : ℕ} (h : WholeSectors len) : len / 512 % 2 ^ 32 ≠ 0 := by
  unfold WholeSectors tableWords at h
  omega

lemma writeUpcase_emits (hwhole : WholeSectors s.scratch.len)
    (hcluster : 2 ≤ cluster) (hlba : 1 + heap + (cluster - 2) * spc + 256 < 2 ^ 64) :
    Emits (writeUpcase 1 heap spc cluster) (span (1 + heap + (cluster - 2) * spc) 256
      (upcaseSectors (1 + heap + (cluster - 2) * spc)))
      (fun sum _ => sum = wordsChecksum 65536) s := by
  unfold Emits writeUpcase
  rw [wp_bind]
  refine wp_clusterLba hcluster (by omega) ?_
  generalize 1 + heap + (cluster - 2) * spc = first at hlba ⊢
  rw [wp_bind]
  refine wp_loop_post (fun k v t => ∃ n ≤ 256, k ≤ n ∧
    v = (wordsChecksum (n * 256), n * 256, first + n) ∧
    Emitted s (span first n (upcaseSectors first)) t) ?_ ?_ ?_
  · exact ⟨0, by omega, le_rfl, rfl, Emitted.refl s⟩
  · rintro k v t - hk ⟨n, hn, hkn, rfl, ht⟩
    have hscratch := ht.scratch
    unfold upcaseBatch
    rw [wp_ite]
    refine ⟨fun hdone => ?_, fun hmore => ?_⟩
    · obtain rfl : n = 256 := by omega
      rw [wp_pure]
      simp only [Sum.elim_inl, wp_pure]
      exact ⟨ht, trivial⟩
    · simp only [wp_bind, sectorsLen, wp_get, wp_pure]
      obtain ⟨m, hm, hpos, hroom, hmore'⟩ : ∃ m,
          min (65536 - n * 256) (t.scratch.len / 2 % 2 ^ 32) = m * 256 ∧ 0 < m ∧
          m ≤ t.scratch.len / 512 ∧ n + m ≤ 256 := by
        unfold WholeSectors tableWords at hwhole
        refine ⟨min (65536 - n * 256) (t.scratch.len / 2 % 2 ^ 32) / 256, ?_, ?_, ?_, ?_⟩
        all_goals rw [hscratch]; omega
      rw [hm]
      have hfit : 0 + (upcaseWords (n * 256) (m * 256)).length ≤ t.scratch.len / 512 * 512 := by
        rw [upcaseWords_length, Nat.zero_add, Nat.mul_assoc]
        exact Nat.mul_le_mul_right _ hroom
      refine wp_mono _ (scratchPatch_fills hfit (Nat.div_mul_le_self _ _)) ?_ fun _ _ h => h.elim
      rintro _ u ⟨hu, hbytes⟩
      have hwrite : Emits (writeSectors (first + n) (m * 256 * 2))
          (span (first + n) m (upcaseSectors first)) (fun _ _ => True) u := by
        rw [show m * 256 * 2 = m * 512 by omega]
        refine writeSectors_emits (by rw [hu.scratchLen]; exact hroom)
          (by omega) fun j hj i hi => ?_
        rw [hbytes, Image.patch, if_pos (by rw [upcaseWords_length]; omega), Nat.sub_zero,
          upcaseWords_getD (by omega), upcaseSectors]
        congr 1
        omega
      refine wp_mono _ ((ht.buffered hu).batch hwrite hmore') ?_ fun _ _ h => h
      rintro _ v ⟨hv, -⟩
      simp only [wp_u64, Sum.elim_inr]
      refine ⟨by omega, n + m, hmore', by omega, ?_, hv⟩
      refine Prod.ext ?_ (Prod.ext ?_ ?_)
      · change _ = wordsChecksum ((n + m) * 256)
        unfold wordsChecksum
        rw [Nat.add_mul, upcaseWords_add, List.foldl_append]
      · change n * 256 + m * 256 = (n + m) * 256
        omega
      · change first + n + m * 256 * 2 / 512 = first + (n + m)
        omega
  · rintro v t ⟨n, hn, hk, -⟩
    omega

lemma writeRoot_emits {bitmap bitmapBytes upcase checksum : ℕ} (hlen : 512 ≤ s.scratch.len)
    (hlba : 1 + heap < 2 ^ 64) :
    Emits (writeRoot 1 heap bitmap bitmapBytes upcase checksum)
      (span (1 + heap) 1 fun _ => sectorOf [(0, [0x81]), (20, leBytes 4 bitmap),
        (24, leBytes 8 bitmapBytes), (32, [0x82]), (36, leBytes 4 checksum),
        (52, leBytes 4 upcase), (56, leBytes 8 upcaseBytes)]) (fun _ _ => True) s := by
  unfold writeRoot
  refine emits_after (fillSector_fills hlen (by simp)) fun _ t ht hbytes => ?_
  unfold Emits
  rw [wp_bind]
  refine wp_clusterLba le_rfl (by omega) ?_
  rw [Nat.sub_self, Nat.zero_mul, Nat.add_zero]
  have hwrite : Emits (writeSector 512 (1 + heap)) (span (1 + heap) 1 fun _ => _)
      (fun _ u => u.scratch = t.scratch) t :=
    writeSector_emits (by rw [ht.scratchLen]; exact hlen) hbytes
  exact hwrite.mono fun _ _ _ _ => trivial

end Heap

/-! ### Programs which break off -/

/-- A program writes the sectors and then panics, unless a request fails before. -/
def Jams {α : Type} (m : FsM α) (ws : List (ℕ × Image)) (s : Machine) : Prop :=
  match emit ws s.device with
  | (.ok (), _) => (m s).1 = .panic
  | (.err e, d) => (m s).1 = .err e ∧ (m s).2.device = d
  | (.panic, _) => False

section Jams

variable {α β : Type} {s : Machine} {ws ws' : List (ℕ × Image)} {m : FsM α} {f : α → FsM β}
  {R : α → Machine → Prop}

lemma panic_bind (h : (m s).1 = .panic) : ((m >>= f) s).1 = .panic := by
  rw [bind_apply, run_eq h]

lemma panic_of_wp (h : wp m (fun a t => (f a t).1 = .panic) (fun _ _ => False) s) :
    ((m >>= f) s).1 = .panic := by
  obtain ⟨a, t, hrun, hpanic⟩ := exists_of_wp h
  rw [bind_ok hrun]
  exact hpanic

lemma Emits.jams (h : Emits m ws R s)
    (hf : ∀ a t, Emitted s ws t → R a t → Jams (f a) ws' t) : Jams (m >>= f) (ws ++ ws') s := by
  unfold Emits wp at h
  unfold Jams
  rw [emit_append]
  rcases hrun : m s with ⟨a | e | _, t⟩
  · rw [hrun] at h
    rw [h.1.device, bind_ok hrun]
    exact hf a t h.1 h.2
  · rw [hrun] at h
    rw [show emit ws s.device = _ from h, bind_err hrun]
    exact ⟨rfl, rfl⟩
  · rw [hrun] at h
    exact h.elim

/-- A program which breaks off panics unless a request fails, and then it ends as the requests
do. -/
lemma Jams.run {m : FsM Unit} (h : Jams m ws s) (hin : ∀ w ∈ ws, w.1 < s.device.sectorCount)
    (ws' : List (ℕ × Image)) :
    ((m s).1 = .panic ↔ ¬ ∃ k < ws.length, s.device.writeFails (s.device.writes.length +
      k) = true) ∧
      ((m s).1 ≠ .panic → (m s).1 = (emit (ws ++ ws') s.device).1 ∧
        (m s).2.device = (emit (ws ++ ws') s.device).2) := by
  rw [← emit_ok_within hin, emit_append]
  unfold Jams at h
  rcases hemit : emit ws s.device with ⟨_ | e | _, d⟩ <;> rw [hemit] at h
  · exact ⟨⟨fun _ => rfl, fun _ => h⟩, fun hne => absurd h hne⟩
  · rw [h.1]
    exact ⟨⟨nofun, nofun⟩, fun _ => ⟨rfl, h.2⟩⟩
  · exact h.elim

lemma Jams.bind (h : Jams m [] s) (f : α → FsM β) : Jams (m >>= f) [] s := panic_bind h

/-- A batch of no sectors leaves the first sector of the FAT to be written, over and over. -/
lemma writeFat_jams {fatLen bitmap bitmapLen upcase upcaseLen : ℕ} (hlen : 512 ≤ s.scratch.len)
    (hnone : s.scratch.len / 512 % 2 ^ 32 = 0) (hfat : 0 < fatLen) :
    Jams (writeFat 1 fatLen bitmap bitmapLen upcase upcaseLen) [] s := by
  have hbatch : max (s.scratch.len / 512) 1 % 2 ^ 32 = 0 := by omega
  change (writeFat 1 fatLen bitmap bitmapLen upcase upcaseLen s).1 = .panic
  unfold writeFat
  refine panic_of_wp ?_
  rw [wp_get]
  beta_reduce
  rw [hbatch]
  refine panic_of_wp (wp_loop_post (fun _ first _ => first = 0) rfl ?_ fun _ _ _ => rfl)
  rintro k first t - - rfl
  unfold fatBatch writeSectors
  rw [wp_ite]
  refine ⟨fun hdone => by omega, fun _ => ?_⟩
  simp [sectorsLen, loop]

lemma assert_panics {p : Prop} [Decidable p] (h : ¬ p) : (assert p : FsM Unit) s = (.panic, s) := by
  unfold assert
  rw [if_neg h]
  rfl

lemma upcaseBatch_panics {sum lba : ℕ} (hless : tableWords s.scratch.len < 65536)
    (hpart : tableWords s.scratch.len % 256 ≠ 0) : (upcaseBatch (sum, 0, lba) s).1 = .panic := by
  have hcount : min (65536 - 0) (s.scratch.len / 2 % 2 ^ 32) = tableWords s.scratch.len :=
    Nat.min_eq_right hless.le
  have hwrite (t : Machine) : (writeSectors lba (tableWords s.scratch.len * 2) t).1 = .panic := by
    unfold writeSectors
    refine panic_of_wp ?_
    simp only [sectorsLen, wp_bind, wp_get, wp_pure]
    exact panic_bind (by rw [assert_panics (by omega)])
  rw [upcaseBatch, if_neg (by decide)]
  refine panic_of_wp ?_
  simp only [sectorsLen, wp_bind, wp_get, wp_pure]
  refine panic_of_wp ?_
  simp only [wp_get]
  rw [hcount]
  by_cases hfit : 0 + (upcaseWords 0 (tableWords s.scratch.len)).length ≤ s.scratch.len / 512 * 512
  · refine panic_of_wp (wp_mono _ (scratchPatch_fills hfit (Nat.div_mul_le_self _ _)) ?_
      fun _ _ h => h)
    exact fun _ t _ => panic_bind (hwrite t)
  · refine panic_bind ?_
    unfold scratchPatch
    refine panic_of_wp ?_
    rw [wp_get]
    exact panic_bind (by rw [assert_panics fun h => hfit h.1])

/-- A batch of the UpCase table which ends within a sector is not in the buffer, or is not
written. -/
lemma writeUpcase_jams {heap spc cluster : ℕ} (hwhole : ¬ WholeSectors s.scratch.len)
    (hcluster : 2 ≤ cluster)
    (hlba : 1 + heap + (cluster - 2) * spc < 2 ^ 64) :
    Jams (writeUpcase 1 heap spc cluster) [] s := by
  change (writeUpcase 1 heap spc cluster s).1 = .panic
  unfold writeUpcase
  refine panic_of_wp (wp_clusterLba hcluster hlba ?_)
  unfold WholeSectors at hwhole
  by_cases hnone : tableWords s.scratch.len = 0
  · refine panic_of_wp (wp_loop_post (fun _ v t => v.2.1 = 0 ∧ v.2.2 < 2 ^ 64 ∧
      t.scratch.len = s.scratch.len) ⟨rfl, hlba, rfl⟩ ?_ fun _ _ _ => rfl)
    rintro k ⟨sum, code, lba⟩ t - - ⟨rfl, hlt, hscratch⟩
    unfold upcaseBatch writeSectors
    rw [wp_ite]
    refine ⟨fun hdone => absurd hdone (by decide), fun _ => ?_⟩
    have hcount : min (65536 - 0) (t.scratch.len / 2 % 2 ^ 32) = 0 := by
      rw [hscratch]
      exact Nat.min_eq_zero_iff.mpr (.inr hnone)
    simp only [wp_bind, sectorsLen, wp_get, wp_pure]
    rw [hcount]
    refine wp_mono _ (scratchPatch_fills (Nat.zero_le _) (Nat.div_mul_le_self _ _)) ?_ fun _ _ h =>
      h
    rintro _ u ⟨hu, -⟩
    have hkept := hu.scratchLen.trans hscratch
    simp only at hlt
    simp [loop, hkept]
    omega
  · refine panic_bind ?_
    rw [loop_succ]
    exact panic_bind (upcaseBatch_panics (by omega) (by omega))

end Jams

end ExfatEmbedded.Emission
