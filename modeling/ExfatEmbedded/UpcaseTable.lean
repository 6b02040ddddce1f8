import ExfatEmbedded.Readback
import ExfatEmbedded.Replacing

/-!
The streaming UpCase lookup against the expansion of the whole table.
-/

namespace ExfatEmbedded.UpcaseTable

open ExfatEmbedded.Library Exec ExfatEmbedded.Core ExfatEmbedded.Entry ExfatEmbedded.Allocation
open ExfatEmbedded.Lookup ExfatEmbedded.Mount ExfatEmbedded.Reading ExfatEmbedded.MountSafety
open ExfatEmbedded.Listing ExfatEmbedded.FatWrites ExfatEmbedded.StreamSafety ExfatEmbedded.Media
open ExfatEmbedded.Tree ExfatEmbedded.Readback ExfatEmbedded.Replacing ExfatEmbedded.Writing

/-! ### The expansion -/

/-- The units from `code` on with their images, as a table of words lists them. The word `0xffff`
and a count stand for a run of units which are their own images; `0xffff` without a count stands
for nothing. -/
def expand : ℕ → List ℕ → List (ℕ × ℕ)
  | _, [] => []
  | code, [w] => if w = 0xffff then [] else [(code, w)]
  | code, w :: n :: ws =>
    if w = 0xffff then (List.range' code n).map (fun c => (c, c)) ++ expand (code + n) ws
    else (code, w) :: expand (code + 1) (n :: ws)

/-- The 16-bit words of a string of bytes; a byte left over is none. -/
def wordsOf : List UInt8 → List ℕ
  | a :: b :: bytes => ofLe [a, b] :: wordsOf bytes
  | _ => []

lemma expand_literal {code w : ℕ} (ws : List ℕ) (hw : w ≠ 0xffff) :
    expand code (w :: ws) = (code, w) :: expand (code + 1) ws := by
  cases ws <;> simp [expand, hw]

lemma expand_run (code n : ℕ) (ws : List ℕ) : expand code (0xffff :: n :: ws) =
    (List.range' code n).map (fun c => (c, c)) ++ expand (code + n) ws := by simp [expand]

lemma expand_stray (code : ℕ) : expand code [0xffff] = [] := by simp [expand]

lemma le_of_mem_expand {code unit v : ℕ} {ws : List ℕ} (h : (unit, v) ∈ expand code ws) :
    code ≤ unit := by
  induction code, ws using expand.induct with
  | case1 => simp [expand] at h
  | case2 code => simp [expand] at h
  | case3 code w hw =>
    rw [expand_literal _ hw] at h
    simp [expand] at h
    omega
  | case4 code n ws ih =>
    rw [expand_run, List.mem_append] at h
    rcases h with h | h
    · obtain ⟨c, hc, hpair⟩ := List.mem_map.mp h
      obtain ⟨rfl, rfl⟩ := Prod.mk.inj hpair
      exact (List.mem_range'_1.mp hc).1
    · have := ih h
      omega
  | case5 code w n ws hw ih =>
    rw [expand_literal _ hw] at h
    rcases List.mem_cons.mp h with h | h
    · obtain ⟨rfl, -⟩ := Prod.mk.inj h
      exact le_rfl
    · have := ih h
      omega

section Images

variable {code unit v w n : ℕ} {ws : List ℕ}

lemma mem_literal (hw : w ≠ 0xffff) : (code, v) ∈ expand code (w :: ws) ↔ v = w := by
  rw [expand_literal ws hw, List.mem_cons, Prod.mk.injEq]
  refine ⟨?_, fun h => .inl ⟨rfl, h⟩⟩
  rintro (⟨-, h⟩ | h)
  · exact h
  · have := le_of_mem_expand h
    omega

lemma mem_beyond_literal (hw : w ≠ 0xffff) (h : code ≠ unit) :
    (unit, v) ∈ expand code (w :: ws) ↔ (unit, v) ∈ expand (code + 1) ws := by
  rw [expand_literal ws hw, List.mem_cons, Prod.mk.injEq]
  exact ⟨fun hmem => hmem.resolve_left fun hpair => h hpair.1.symm, .inr⟩

lemma mem_run_images : (unit, v) ∈ (List.range' code n).map (fun c => (c, c)) ↔
    (code ≤ unit ∧ unit < code + n) ∧ v = unit := by
  rw [List.mem_map]
  constructor
  · rintro ⟨c, hc, hpair⟩
    obtain ⟨rfl, rfl⟩ := Prod.mk.inj hpair
    exact ⟨List.mem_range'_1.mp hc, rfl⟩
  · rintro ⟨hc, rfl⟩
    exact ⟨v, List.mem_range'_1.mpr hc, rfl⟩

lemma mem_run (h : code ≤ unit ∧ unit < code + n) :
    (unit, v) ∈ expand code (0xffff :: n :: ws) ↔ v = unit := by
  rw [expand_run, List.mem_append, mem_run_images]
  refine ⟨?_, fun hv => .inl ⟨h, hv⟩⟩
  rintro (hmem | hmem)
  · exact hmem.2
  · have := le_of_mem_expand hmem
    omega

lemma mem_beyond_run (h : ¬ (code ≤ unit ∧ unit < code + n)) :
    (unit, v) ∈ expand code (0xffff :: n :: ws) ↔ (unit, v) ∈ expand (code + n) ws := by
  rw [expand_run, List.mem_append, mem_run_images]
  exact ⟨fun hmem => hmem.resolve_left fun hin => h hin.1, .inr⟩

end Images

/-! ### The words of the table -/

variable {vol : Volume} {r s : Machine} {byte code unit : ℕ}

/-- The bytes of the table. -/
def tableBytes (vol : Volume) (d : Sectors) : List UInt8 :=
  streamBytes vol.geometry d (upcaseClusters vol d) 0 vol.upcase.byteLength

/-- The words of the table from a byte on. -/
def wordsFrom (vol : Volume) (d : Sectors) (byte : ℕ) : List ℕ :=
  wordsOf (streamBytes vol.geometry d (upcaseClusters vol d) byte (vol.upcase.byteLength - byte))

/-- The word at a byte of the table. -/
def wordAt (vol : Volume) (d : Sectors) (byte : ℕ) : ℕ :=
  ofLe (streamBytes vol.geometry d (upcaseClusters vol d) byte 2)

lemma wordsFrom_cons {d : Sectors} (h : byte + 2 ≤ vol.upcase.byteLength) :
    wordsFrom vol d byte = wordAt vol d byte :: wordsFrom vol d (byte + 2) := by
  unfold wordsFrom wordAt
  rw [show vol.upcase.byteLength - byte = 2 + (vol.upcase.byteLength - (byte + 2)) by omega,
    streamBytes_add]
  rfl

lemma wordsFrom_nil {d : Sectors} (h : vol.upcase.byteLength < byte + 2) :
    wordsFrom vol d byte = [] := by
  unfold wordsFrom
  rcases show vol.upcase.byteLength - byte = 0 ∨ vol.upcase.byteLength - byte = 1 by omega
    with hn | hn <;> rw [hn] <;> rfl

lemma wordAt_lt {d : Sectors} : wordAt vol d byte < 2 ^ 16 := by
  have h := ofLe_lt (streamBytes vol.geometry d (upcaseClusters vol d) byte 2)
  rw [streamBytes_length] at h
  exact h

/-- The table is whole on the media of `r`, which can be read. -/
structure WholeTable (vol : Volume) (r : Machine) : Prop where
  ready : Ready vol.geometry r
  healthy : Healthy r
  heap : ∀ c ∈ upcaseClusters vol r.device.sectors, vol.geometry.InHeap c
  length : vol.upcase.byteLength ≤ vol.geometry.clusterCount * clusterSize vol.geometry

lemma WholeTable.short (h : WholeTable vol r) :
    (upcaseClusters vol r.device.sectors).length ≤ vol.geometry.clusterCount := by
  rw [upcaseClusters, extent_length]
  exact clustersFor_le_of_le h.ready.sound h.length

lemma WholeTable.lt (h : WholeTable vol r) : vol.upcase.byteLength + 2 < 2 ^ 64 := by
  have hcount := h.ready.sound.clusterCount
  have hle : vol.geometry.clusterCount * clusterSize vol.geometry ≤ 2 ^ 32 * 2 ^ 25 :=
    Nat.mul_le_mul (by omega) h.ready.sound.clusterBytes
  have := h.length
  omega

lemma word_fits {n : ℕ} (hn : 2 ∣ n) (heven : 2 ∣ byte) (hpos : 0 < n) : byte % n + 2 ≤ n := by
  have hlt := Nat.mod_lt byte hpos
  have hmod := (Nat.dvd_mod_iff hn).mpr heven
  omega

lemma upcaseWord_spec (h : WholeTable vol r) (hs : OnMedia r s) (heven : 2 ∣ byte)
    (hbyte : byte + 2 ≤ vol.upcase.byteLength) :
    wp (upcaseWord vol byte) (fun v t => v = wordAt vol r.device.sectors byte ∧ OnMedia r t)
      (fun _ _ => False) s := by
  have hsound := h.ready.sound
  have hpos := hsound.clusterBytes_pos
  have hlt := h.lt
  have hsize := hsound.size_ge
  have hlen : (upcaseClusters vol r.device.sectors).length =
      clustersFor vol.geometry vol.upcase.byteLength := extent_length
  have hindex : byte / clusterSize vol.geometry < (upcaseClusters vol r.device.sectors).length := by
    rw [hlen, Nat.div_lt_iff_lt_mul hpos]
    have := clustersFor_le hsound vol.upcase.byteLength
    unfold clusterSize at this
    omega
  -- a word lies within one sector
  have heven' : 2 ∣ vol.geometry.bytesPerSector := hsound.dvd_size (j := 1) (by decide)
  have hcluster' : byte % clusterSize vol.geometry + 2 ≤ clusterSize vol.geometry :=
    word_fits (heven'.mul_right _) heven hpos
  have hsector' : (streamPos vol.geometry (upcaseClusters vol r.device.sectors) byte).2 + 2 ≤
      vol.geometry.bytesPerSector :=
    word_fits heven' ((Nat.dvd_mod_iff (heven'.mul_right _)).mpr heven) (by omega)
  unfold upcaseWord
  simp only [hsound.bytesPerCluster_eq, pure_bind, wp_bind, wp_u64, wp_ite, wp_div]
  refine ⟨by omega, fun hbad => by omega, fun _ => ⟨hpos.ne', ?_⟩⟩
  refine wp_mono _ (tableCluster_spec h.ready h.heap h.short hindex hs) ?_ fun _ _ h => h
  rintro _ t ⟨rfl, ht⟩
  have hmem := List.getElem_mem hindex
  rw [← List.getD_eq_getElem _ 0 hindex] at hmem
  have hc := h.heap _ hmem
  have hin := streamPos_inCluster hsound (upcaseClusters vol r.device.sectors) byte
  have hpart := hin.inPartition hsound hc
  have hlba := hsound.lt_of_inPartition hpart
  rw [wp_rem]
  refine ⟨hpos.ne', ?_⟩
  rw [hsound.clusterLba_eq hc]
  simp only [wp_rem, wp_usize]
  rw [wp_pure, okOr_some, wp_pure]
  have hoff : byte % (vol.geometry.bytesPerSector * vol.geometry.sectorsPerCluster) %
      vol.geometry.bytesPerSector + 2 ≤ vol.geometry.bytesPerSector := hsector'
  have hle := hsound.size_le
  refine ⟨by omega, hlba.2, by omega, by omega, fun hbad => absurd hoff (by omega), fun _ => ?_⟩
  have hread := tableRead_spec h.ready hpart hsector' ht
  rw [slice_eq_streamBytes hsector' hcluster'] at hread
  simp only [wp_bind] at hread
  exact hread

/-! ### The scan -/

/-- The scan has come to `byte` with every image of `unit` still before it. -/
structure Scanning (vol : Volume) (r : Machine) (unit : ℕ) (v : ℕ × ℕ) (t : Machine) : Prop where
  media : OnMedia r t
  even : 2 ∣ v.2
  inside : v.2 ≤ vol.upcase.byteLength
  code : v.1 ≤ unit
  images : ∀ image, (unit, image) ∈ expand 0 (wordsFrom vol r.device.sectors 0) ↔
    (unit, image) ∈ expand v.1 (wordsFrom vol r.device.sectors v.2)

/-- The value is the one image of `unit` in the table, if there is one. -/
def FindsImage (vol : Volume) (r : Machine) (unit : ℕ) (o : Option ℕ) : Prop :=
  ∀ image, (unit, image) ∈ expand 0 (wordsFrom vol r.device.sectors 0) ↔ o = some image

lemma upcaseRound_spec (h : WholeTable vol r) (hunit : unit < 2 ^ 16) {v : ℕ × ℕ}
    (hs : Scanning vol r unit v s) :
    wp (upcaseRound vol unit v)
      (Sum.elim (fun o t => FindsImage vol r unit o ∧ OnMedia r t)
        (fun w t => v.2 + 2 ≤ w.2 ∧ Scanning vol r unit w t))
      (fun e t => e = .corrupt ∧ FindsImage vol r unit none ∧ OnMedia r t) s := by
  obtain ⟨code, byte⟩ := v
  obtain ⟨hs, heven, hinside, hcode, himages⟩ := hs
  dsimp only at heven hinside hcode himages
  have hlt := h.lt
  have hnone (hnil : expand code (wordsFrom vol r.device.sectors byte) = []) :
      FindsImage vol r unit none := fun image => by rw [himages, hnil]; simp
  unfold upcaseRound
  simp only [wp_bind, wp_u64, wp_ite]
  refine ⟨by omega, fun hend => ⟨hnone (by rw [wordsFrom_nil hend]; rfl), hs⟩, fun hmore => ?_⟩
  have hword := wordsFrom_cons (d := r.device.sectors)
    (show byte + 2 ≤ vol.upcase.byteLength by omega)
  rw [hword] at himages hnone
  refine wp_mono _ (upcaseWord_spec h hs heven (by omega)) ?_ fun _ _ h => h.elim
  rintro _ t ⟨rfl, ht⟩
  refine ⟨by omega, fun hrun => ?_, fun hliteral => ⟨fun hhere => ?_, fun hbeyond => ?_⟩⟩
  · rw [hrun] at himages hnone
    refine ⟨by omega, fun hend => ⟨rfl, hnone (by rw [wordsFrom_nil hend, expand_stray]), ht⟩,
      fun hmore' => ?_⟩
    refine wp_mono _ (upcaseWord_spec h ht (by omega) (by omega)) ?_ fun _ _ h => h.elim
    rintro _ u ⟨rfl, hu⟩
    have hcount := @wordAt_lt vol (byte + 2) r.device.sectors
    have hword' := wordsFrom_cons (d := r.device.sectors)
      (show byte + 2 + 2 ≤ vol.upcase.byteLength by omega)
    rw [hword'] at himages
    have hadd : checkedAdd32 code (wordAt vol r.device.sectors (byte + 2)) =
        some (code + wordAt vol r.device.sectors (byte + 2)) := if_pos (by omega)
    rw [hadd, okOr_some, wp_pure]
    refine ⟨by omega, fun hin => ⟨fun image => ?_, hu⟩, fun hout => ⟨by omega, ?_⟩⟩
    · rw [himages, mem_run hin, Option.some.injEq, eq_comm]
    · exact ⟨hu, by dsimp only; omega, by dsimp only; omega, by dsimp only; omega,
        fun image => by rw [himages, mem_beyond_run hout]⟩
  · subst hhere
    exact ⟨fun image => by rw [himages, mem_literal hliteral, Option.some.injEq, eq_comm], ht⟩
  · rw [wp_u32]
    refine ⟨by omega, le_rfl, ⟨ht, by dsimp only; omega, by dsimp only; omega,
      by dsimp only; omega, fun image => ?_⟩⟩
    rw [himages, mem_beyond_literal hliteral hbeyond]

/-- **The lookup of a unit in the table ends, with its image in the expansion.** -/
theorem upcaseUnit_finds (h : WholeTable vol r) (hvalid : vol.upcaseValid = true) (hs : OnMedia r s)
    (hbeyond : 0x7f < unit) (hunit : unit < 2 ^ 16) :
    wp (upcaseUnit vol unit) (fun v t => FindsImage vol r unit (some v) ∧ OnMedia r t)
      (fun e t => e = .corrupt ∧ FindsImage vol r unit none ∧ OnMedia r t) s := by
  unfold upcaseUnit
  simp only [hvalid, Bool.not_true, Bool.false_eq_true, if_false]
  rw [if_neg (by omega), wp_bind]
  -- a round takes two bytes, of which the table has not enough for all the rounds
  refine wp_loop_post (fun i v t => 2 * i ≤ v.2 ∧ Scanning vol r unit v t) ⟨le_rfl, ?_⟩ ?_ ?_
  · exact ⟨hs, dvd_zero 2, Nat.zero_le _, Nat.zero_le _, fun _ => Iff.rfl⟩
  · rintro i v t - - ⟨hi, ht⟩
    refine wp_mono _ (upcaseRound_spec h hunit ht) ?_ fun _ _ h => h
    rintro ((_ | image) | w) u hu
    · exact ⟨rfl, hu⟩
    · exact hu
    · have hadvance : v.2 + 2 ≤ w.2 := hu.1
      exact ⟨by omega, hu.2⟩
  · rintro v t ⟨hi, ht⟩
    have := ht.inside
    omega

section Units

variable (h : WholeTable vol r) (hvalid : vol.upcaseValid = true) (hbeyond : 0x7f < unit)
  (hunit : unit < 2 ^ 16)

include h hvalid hbeyond hunit

lemma upcaseUnit_ok_iff {image : ℕ} : (upcaseUnit vol unit r).1 = .ok image ↔
    (unit, image) ∈ expand 0 (wordsFrom vol r.device.sectors 0) := by
  have hrun := upcaseUnit_finds h hvalid (OnMedia.refl h.healthy) hbeyond hunit
  rcases hm : upcaseUnit vol unit r with ⟨v | e | _, t⟩
  · rw [((wp_ok hm).mp hrun).1 image, Outcome.ok.injEq, Option.some.injEq]
  · rw [((wp_err hm).mp hrun).2.1 image]
    simp
  · unfold wp at hrun
    rw [hm] at hrun
    exact hrun.elim

lemma upcaseUnit_corrupt_iff : (upcaseUnit vol unit r).1 = .err .corrupt ↔
    ∀ image, (unit, image) ∉ expand 0 (wordsFrom vol r.device.sectors 0) := by
  have hrun := upcaseUnit_finds h hvalid (OnMedia.refl h.healthy) hbeyond hunit
  rcases hm : upcaseUnit vol unit r with ⟨v | e | _, t⟩
  · have hfinds := ((wp_ok hm).mp hrun).1
    simp [hfinds _]
  · obtain ⟨rfl, hfinds, -⟩ := (wp_err hm).mp hrun
    simp [hfinds _]
  · unfold wp at hrun
    rw [hm] at hrun
    exact hrun.elim

end Units

/-! ### Names -/

/-- Both units have the same image. -/
def SameFold (vol : Volume) (r : Machine) (left right : ℕ) : Prop :=
  ∃ v, (upcaseUnit vol left r).1 = .ok v ∧ (upcaseUnit vol right r).1 = .ok v

lemma upcaseUnit_media (hr : Healthy r) (hs : OnMedia r s) (unit : ℕ) :
    (upcaseUnit vol unit s).1 = (upcaseUnit vol unit r).1 ∧
      ∀ v t, upcaseUnit vol unit s = (.ok v, t) → OnMedia r t := by
  obtain ⟨hout, hok, -⟩ := mediaOnly_upcaseUnit vol unit r s ⟨OnMedia.refl hr, hs⟩
  refine ⟨hout.symm, fun v t hrun => ?_⟩
  rw [hrun] at hout hok
  exact (hok v hout).2

lemma namesMatchLoop_true (hr : Healthy r) {pairs : List (ℕ × ℕ)} (hs : OnMedia r s) :
    (namesMatchLoop vol pairs s).1 = .ok true ↔ ∀ p ∈ pairs, SameFold vol r p.1 p.2 := by
  induction pairs generalizing s with
  | nil => simp [namesMatchLoop, show (pure true : FsM Bool) s = (.ok true, s) from rfl]
  | cons p pairs ih =>
    obtain ⟨left, right⟩ := p
    rw [List.forall_mem_cons, namesMatchLoop]
    constructor
    · intro h
      obtain ⟨l, t, hl, h⟩ := bind_ok_iff.mp h
      have ht := (upcaseUnit_media hr hs left).2 l t hl
      obtain ⟨m, u, hm, h⟩ := bind_ok_iff.mp h
      have hu := (upcaseUnit_media hr ht right).2 m u hm
      by_cases hlm : l = m
      · rw [if_neg (not_not.mpr hlm), ih hu] at h
        refine ⟨⟨l, ?_, ?_⟩, h⟩
        · rw [← (upcaseUnit_media hr hs left).1, hl]
        · rw [← (upcaseUnit_media hr ht right).1, hm, hlm]
      · rw [if_pos hlm] at h
        cases h
    · rintro ⟨⟨v, hl, hm⟩, hall⟩
      rw [← (upcaseUnit_media hr hs left).1] at hl
      have hl := run_eq hl
      have ht := (upcaseUnit_media hr hs left).2 v _ hl
      rw [← (upcaseUnit_media hr ht right).1] at hm
      have hm := run_eq hm
      have hu := (upcaseUnit_media hr ht right).2 v _ hm
      refine bind_ok_iff.mpr ⟨v, _, hl, bind_ok_iff.mpr ⟨v, _, hm, ?_⟩⟩
      rw [if_neg (not_not.mpr rfl)]
      exact (ih hu).mpr hall

lemma namesMatch_true (hr : Healthy r) {actual wanted : List ℕ} :
    (namesMatch vol actual wanted r).1 = .ok true ↔
      List.Forall₂ (SameFold vol r) actual wanted := by
  unfold namesMatch
  rw [List.forall₂_iff_zip]
  by_cases hlen : actual.length = wanted.length
  · rw [if_neg (not_not.mpr hlen), namesMatchLoop_true hr (OnMedia.refl hr)]
    exact ⟨fun h => ⟨hlen, fun {a b} hab => h (a, b) hab⟩, fun h p hp => h.2 hp⟩
  · rw [if_pos hlen]
    exact ⟨nofun, fun h => absurd h.1 hlen⟩

/-- The folding of names by the table on the media of `s`. -/
structure FoldsByTable (vol : Volume) (s : Machine) : Prop where
  image : ∀ unit, 0x7f < unit → unit < 2 ^ 16 → ∀ v, (upcaseUnit vol unit s).1 = .ok v ↔
    (unit, v) ∈ expand 0 (wordsOf (tableBytes vol s.device.sectors))
  noImage : ∀ unit, 0x7f < unit → unit < 2 ^ 16 → ((upcaseUnit vol unit s).1 = .err .corrupt ↔
    ∀ v, (unit, v) ∉ expand 0 (wordsOf (tableBytes vol s.device.sectors)))
  names : ∀ actual wanted, (namesMatch vol actual wanted s).1 = .ok true ↔
    actual.length = wanted.length ∧ ∀ p ∈ actual.zip wanted, SameFold vol s p.1 p.2
  equivalence : Equivalence fun a b : {name // Folds vol s name} =>
    (namesMatch vol a.1 b.1 s).1 = .ok true

lemma namesMatch_folded (hr : Healthy r) {a b : List ℕ} (ha : Folds vol r a) (hb : Folds vol r b) :
    (namesMatch vol a b r).1 = .ok true ↔ a.map (foldUnit vol r) = b.map (foldUnit vol r) := by
  obtain ⟨matched, t, hrun, hmatched, -⟩ :=
    exists_of_wp (namesMatch_spec hr (OnMedia.refl hr) ha hb)
  rw [← hmatched, hrun, Outcome.ok.injEq]

lemma equivalence_namesMatch (hr : Healthy r) :
    Equivalence fun a b : {name // Folds vol r name} =>
      (namesMatch vol a.1 b.1 r).1 = .ok true where
  refl a := (namesMatch_folded hr a.2 a.2).mpr rfl
  symm {a b} h := (namesMatch_folded hr b.2 a.2).mpr ((namesMatch_folded hr a.2 b.2).mp h).symm
  trans {a b c} h h' := (namesMatch_folded hr a.2 c.2).mpr
    (((namesMatch_folded hr a.2 b.2).mp h).trans ((namesMatch_folded hr b.2 c.2).mp h'))

lemma whole_of_validated (hs : Ready vol.geometry s) (hr : Healthy s)
    (h : (validateUpcaseTable vol.geometry vol.upcase s).1 = .ok ()) : WholeTable vol s := by
  obtain ⟨-, hsound, hchain⟩ := (wp_ok (run_eq h)).mp (validateUpcaseTable_safe hs)
  refine ⟨hs, hr, fun c hc => ?_, hsound.length⟩
  obtain ⟨i, hi, rfl⟩ := mem_extent.mp hc
  refine hchain i ?_
  by_contra hbeyond
  exact absurd (clustersFor_le_of_le hs.sound (Nat.le_of_not_lt hbeyond)) (by omega)

/-- **The streaming lookup is the lookup in the expanded table.** -/
theorem upcaseUnit_expands (vol : Volume) (s : Machine) (hvol : MountedOn vol s)
    (hscratch : vol.geometry.bytesPerSector ≤ s.scratch.len) (hr : Healthy s)
    (hvalid : vol.upcaseValid = true)
    (htable : (validateUpcaseTable vol.geometry vol.upcase s).1 = .ok ()) :
    FoldsByTable vol s := by
  have h := whole_of_validated ⟨hvol.sound, hscratch⟩ hr htable
  refine ⟨fun unit hbeyond hunit v => upcaseUnit_ok_iff h hvalid hbeyond hunit,
    fun unit hbeyond hunit => upcaseUnit_corrupt_iff h hvalid hbeyond hunit,
    fun actual wanted => ?_, equivalence_namesMatch hr⟩
  rw [namesMatch_true hr, List.forall₂_iff_zip]
  exact and_congr_right fun _ => ⟨fun hall p hp => hall hp, fun hall _ _ hp => hall _ hp⟩

/-- A table of a run of 0xe9 units and an image for the next one. -/
def accentedBytes : List UInt8 := [0xff, 0xff, 0xe9, 0x00, 0xc9, 0x00]

def accented : Machine :=
  let m := smallMachine smallFat (sectorWith [(0, [0x07])])
    (sectorWith ((36, leBytes 4 2281701529) :: (56, leBytes 8 6) :: systemSlots 0))
  { m with device := { m.device with
      sectors := fun lba => if lba = 28 then sectorWith [(0, accentedBytes)]
        else m.device.sectors lba } }

def accentedVolume : Volume := { smallVolume with upcase := ⟨2281701529, 4, 6⟩ }

lemma mount_accented : (mount accented).1 = .ok accentedVolume := by decide +kernel

theorem upcaseUnit_expands_accented : FoldsByTable accentedVolume accented ∧
    (upcaseUnit accentedVolume 0xe9 accented).1 = .ok 0xc9 := by
  have h := upcaseUnit_expands accentedVolume accented ⟨accented, mount_accented, rfl⟩ (by decide)
    (fun _ => rfl) rfl (by decide +kernel)
  exact ⟨h, by decide +kernel⟩

end ExfatEmbedded.UpcaseTable
