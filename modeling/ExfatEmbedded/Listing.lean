import ExfatEmbedded.Library.Sim
import ExfatEmbedded.MountSafety
import ExfatEmbedded.Scan

/-!
Lookup and listing of one directory.

Both go over the same slots, but for a directory without a FAT chain: `read_directory` follows its
extent, `find_child` stops behind the first cluster.
-/

namespace ExfatEmbedded.Listing

open ExfatEmbedded.Library Exec ExfatEmbedded.Core ExfatEmbedded.Entry ExfatEmbedded.Allocation
open ExfatEmbedded.Lookup ExfatEmbedded.EntryWrite ExfatEmbedded.Mutation ExfatEmbedded.Mount
open ExfatEmbedded.Reading ExfatEmbedded.Scan

/-! ### Case folding depends on the media only -/

/-- No read request fails. -/
def Healthy (s : Machine) : Prop := ∀ n, s.device.readFails n = false

/-- `s` has the media of `r`, and its reads do not fail. -/
structure OnMedia (r s : Machine) : Prop where
  sectors : s.device.sectors = r.device.sectors
  sectorCount : s.device.sectorCount = r.device.sectorCount
  scratch : s.scratch.len = r.scratch.len
  healthy : Healthy s

lemma OnMedia.refl {r : Machine} (h : Healthy r) : OnMedia r r := ⟨rfl, rfl, rfl, h⟩

lemma OnMedia.quiet {p : Partition} {r s t : Machine} (h : OnMedia r s) (hq : Quiet p s t) :
    OnMedia r t :=
  ⟨hq.sectors.trans h.sectors, hq.sectorCount.trans h.sectorCount, hq.scratchLen.trans h.scratch,
    fun n => by rw [hq.readFails]; exact h.healthy n⟩

lemma OnMedia.ready {g : Geometry} {r s : Machine} (h : OnMedia r s) (hr : Ready g r) :
    Ready g s :=
  ⟨h.sectorCount ▸ hr.sound, h.scratch ▸ hr.scratch⟩

lemma Faulted.elim {p : Partition} {s t : Machine} {e : Error} (h : Healthy s)
    (hf : Faulted p s e t) : False := by
  obtain ⟨-, -, n, hn⟩ := hf
  rw [h n] at hn
  cases hn

variable {r : Machine}

/-- Two machines on the media of `r`. -/
def Both (r s t : Machine) : Prop := OnMedia r s ∧ OnMedia r t

/-- And with the same sector in their scratch buffers. -/
def BothRead (r : Machine) (size : ℕ) (s t : Machine) : Prop :=
  Both r s t ∧ ∀ i < size, s.scratch.bytes i = t.scratch.bytes i

variable {α : Type}

/-- Runs of `m` on the media of `r` end alike. -/
abbrev MediaOnly (r : Machine) (m : FsM α) : Prop := Sim (Both r) (fun _ => Both r) (Both r) m m

lemma sim_readSector (size lba : ℕ) :
    Sim (Both r) (fun _ => BothRead r size) (Both r) (readSector size lba)
      (readSector size lba) := by
  rintro s t ⟨hs, ht⟩
  unfold readSector
  rw [ht.sectorCount, hs.sectorCount, ht.scratch, hs.scratch, ht.sectors, hs.sectors, hs.healthy,
    ht.healthy]
  simp only [Bool.false_eq_true, if_false]
  have hboth (b b' : Image) : Both r
      { s with
        device := { s.device with reads := lba :: s.device.reads }
        scratch := { s.scratch with bytes := b } }
      { t with
        device := { t.device with reads := lba :: t.device.reads }
        scratch := { t.scratch with bytes := b' } } :=
    ⟨⟨hs.sectors, hs.sectorCount, hs.scratch, hs.healthy⟩,
      ht.sectors, ht.sectorCount, ht.scratch, ht.healthy⟩
  split_ifs with h1 h2
  · exact ⟨rfl, fun _ h => h.elim, fun _ => ⟨hs, ht⟩⟩
  · exact ⟨rfl, fun _ h => h.elim, fun _ => hboth _ _⟩
  · refine ⟨rfl, fun _ _ => ⟨hboth _ _, fun i hi => ?_⟩, fun hn => absurd rfl (hn ())⟩
    simp only [Image.splice, if_pos hi]

lemma scratchSlice_apply (size off n : ℕ) (s : Machine) :
    scratchSlice size off n s =
      if off + n ≤ size ∧ size ≤ s.scratch.len then (.ok (Image.slice s.scratch.bytes off n), s)
      else (.panic, s) := by
  by_cases h : off + n ≤ size ∧ size ≤ s.scratch.len
  · rw [if_pos h]
    change (assert (off + n ≤ size ∧ size ≤ s.scratch.len) >>= _) s = _
    rw [assert, if_pos h]
    rfl
  · rw [if_neg h]
    change (assert (off + n ≤ size ∧ size ≤ s.scratch.len) >>= _) s = _
    rw [assert, if_neg h]
    rfl

lemma sim_scratchSlice (size off n : ℕ) :
    Sim (BothRead r size) (fun _ => Both r) (Both r) (scratchSlice size off n)
      (scratchSlice size off n) := by
  rintro s t ⟨h, hbytes⟩
  rw [scratchSlice_apply, scratchSlice_apply, h.1.scratch, h.2.scratch]
  split_ifs with hp
  · refine ⟨?_, fun _ _ => h, fun _ => h⟩
    exact congrArg Outcome.ok (Image.slice_congr fun i _ hi => hbytes i (by omega))
  · exact ⟨rfl, nofun, fun _ => h⟩

lemma mediaOnly_read (size lba off n : ℕ) {f : List UInt8 → FsM α} (h : ∀ bs, MediaOnly r (f bs)) :
    MediaOnly r (do readSector size lba; f (← scratchSlice size off n)) :=
  sim_bind (sim_readSector size lba) fun _ => sim_bind (sim_scratchSlice size off n) h

lemma mediaOnly_stateless {m : FsM α} (h : Stateless m) : MediaOnly r m := sim_stateless h

lemma mediaOnly_pure (a : α) : MediaOnly r (pure a : FsM α) := sim_pure fun _ _ h => h
lemma mediaOnly_throw (e : Error) : MediaOnly r (throw e : FsM α) := sim_throw fun _ _ h => h
lemma mediaOnly_okOr (e : Error) (o : Option α) : MediaOnly r (okOr e o : FsM α) :=
  sim_okOr (fun _ _ _ h => h) fun _ _ h => h

section

variable {σ ε : Type}

lemma stateless_bytesPerCluster (g : Geometry) : Stateless (g.bytesPerCluster : Exec σ ε ℕ) :=
  stateless_checked _ _

lemma stateless_clusterLba (g : Geometry) (cluster : ℕ) :
    Stateless (g.clusterLba cluster : Exec σ ε (Option ℕ)) :=
  ((stateless_checked _ _).bind fun _ => stateless_pure _).ite (stateless_pure _)

lemma stateless_fatLbaForByte (g : Geometry) (byte : ℕ) :
    Stateless (g.fatLbaForByte byte : Exec σ ε (Option ℕ)) := by
  unfold Geometry.fatLbaForByte
  split
  · exact stateless_pure _
  · split
    · exact stateless_pure _
    · split
      · exact stateless_pure _
      · exact (stateless_checked _ _).bind fun _ => stateless_pure _

end

section

variable (vol : Volume)

lemma mediaOnly_nextCluster (c : ℕ) : MediaOnly r (nextCluster vol c) := by
  unfold nextCluster
  refine sim_bind (mediaOnly_stateless (stateless_checked _ _)) fun byte => ?_
  refine sim_bind (mediaOnly_stateless (stateless_fatLbaForByte _ _)) fun o => ?_
  refine sim_bind (mediaOnly_okOr _ _) fun lba => ?_
  refine sim_bind (mediaOnly_stateless (stateless_checked _ _)) fun offset => ?_
  exact mediaOnly_read _ _ _ _ fun _ => mediaOnly_pure _

lemma mediaOnly_clusterAt (first index : ℕ) : MediaOnly r (clusterAt vol first index) := by
  unfold clusterAt
  refine sim_ite (fun _ => mediaOnly_throw _) fun _ => sim_bind (sim_loop (fun _ c => ?_) _ _ _) ?_
  · refine sim_bind (mediaOnly_nextCluster vol c) fun next => ?_
    exact sim_ite (fun _ => mediaOnly_pure _) fun _ => mediaOnly_throw _
  · rintro (r | c)
    · exact r.elim
    · exact mediaOnly_pure c

lemma mediaOnly_upcaseWord (byte : ℕ) : MediaOnly r (upcaseWord vol byte) := by
  unfold upcaseWord
  refine sim_bind (mediaOnly_stateless (stateless_checked _ _)) fun stop => ?_
  refine sim_ite (fun _ => mediaOnly_throw _) fun _ => ?_
  refine sim_bind (mediaOnly_stateless (stateless_bytesPerCluster _)) fun bytesPerCluster => ?_
  refine sim_bind (mediaOnly_stateless (stateless_checked _ _)) fun index => ?_
  refine sim_bind (mediaOnly_clusterAt vol _ _) fun cluster => ?_
  refine sim_bind (mediaOnly_stateless (stateless_checked _ _)) fun within => ?_
  refine sim_bind (mediaOnly_stateless (stateless_clusterLba _ _)) fun o => ?_
  refine sim_bind (mediaOnly_okOr _ _) fun base => ?_
  refine sim_bind (mediaOnly_stateless (stateless_checked _ _)) fun sector => ?_
  refine sim_bind (mediaOnly_stateless (stateless_checked _ _)) fun lba => ?_
  refine sim_bind (mediaOnly_stateless (stateless_checked _ _)) fun offset => ?_
  refine sim_bind (mediaOnly_stateless (stateless_checked _ _)) fun stop => ?_
  exact sim_ite (fun _ => mediaOnly_throw _) fun _ => mediaOnly_read _ _ _ _ fun _ =>
    mediaOnly_pure _

section Words

variable {R : Machine → Machine → Prop}
  (hword : ∀ byte, Sim R (fun _ => R) R (upcaseWord vol byte) (upcaseWord vol byte))

include hword

lemma sim_upcaseRound (unit : ℕ) (v : ℕ × ℕ) :
    Sim R (fun _ => R) R (upcaseRound vol unit v) (upcaseRound vol unit v) := by
  obtain ⟨code, byte⟩ := v
  unfold upcaseRound
  refine sim_bind (sim_stateless (stateless_checked _ _)) fun stop => ?_
  refine sim_ite (fun _ => sim_pure fun _ _ h => h) fun _ => ?_
  refine sim_bind (hword _) fun value => ?_
  refine sim_bind (sim_stateless (stateless_checked _ _)) fun byte => ?_
  refine sim_ite (fun _ => ?_) fun _ => sim_ite (fun _ => sim_pure fun _ _ h => h) fun _ => ?_
  · refine sim_bind (sim_stateless (stateless_checked _ _)) fun stop => ?_
    refine sim_ite (fun _ => sim_throw fun _ _ h => h) fun _ => ?_
    refine sim_bind (hword _) fun skipped => ?_
    refine sim_bind (sim_stateless (stateless_checked _ _)) fun byte => ?_
    refine sim_bind (sim_okOr (fun _ _ _ h => h) fun _ _ h => h) fun stop => ?_
    exact sim_ite (fun _ => sim_pure fun _ _ h => h) fun _ => sim_pure fun _ _ h => h
  · exact sim_bind (sim_stateless (stateless_checked _ _)) fun code => sim_pure fun _ _ h => h

lemma sim_upcaseUnit (unit : ℕ) :
    Sim R (fun _ => R) R (upcaseUnit vol unit) (upcaseUnit vol unit) := by
  unfold upcaseUnit
  refine sim_ite (fun _ => sim_ite (fun _ => sim_pure fun _ _ h => h) fun _ =>
    sim_pure fun _ _ h => h) fun _ => ?_
  refine sim_ite (fun _ => sim_throw fun _ _ h => h) fun _ => ?_
  refine sim_bind (sim_loop (fun _ v => sim_upcaseRound vol hword unit v) _ _ _) fun r => ?_
  rcases r with (_ | v) | _
  · exact sim_throw fun _ _ h => h
  · exact sim_pure fun _ _ h => h
  · exact sim_panic fun _ _ h => h

end Words

lemma mediaOnly_upcaseUnit (unit : ℕ) : MediaOnly r (upcaseUnit vol unit) :=
  sim_upcaseUnit vol (mediaOnly_upcaseWord vol) unit

/-- The UpCase image of a unit on the media of `r`, when folding succeeds. -/
def foldUnit (r : Machine) (unit : ℕ) : Option ℕ :=
  match (upcaseUnit vol unit r).1 with
  | .ok v => some v
  | _ => none

/-- Folding succeeds on every unit of the name. -/
def Folds (r : Machine) (name : List ℕ) : Prop := ∀ u ∈ name, (foldUnit vol r u).isSome

/-- The folded names are equal. -/
def sameName (r : Machine) (wanted : List ℕ) (entry : DirectoryEntry) : Bool :=
  entry.nameUtf16.map (foldUnit vol r) = wanted.map (foldUnit vol r)

end

variable {vol : Volume} {s : Machine}

lemma upcaseUnit_spec {unit : ℕ} (hr : Healthy r) (hs : OnMedia r s)
    (h : (foldUnit vol r unit).isSome) :
    wp (upcaseUnit vol unit) (fun v t => foldUnit vol r unit = some v ∧ OnMedia r t)
      (fun _ _ => False) s := by
  obtain ⟨hout, hok, -⟩ := mediaOnly_upcaseUnit vol unit r s ⟨OnMedia.refl hr, hs⟩
  unfold foldUnit at h ⊢
  rcases hrun : upcaseUnit vol unit s with ⟨o, t⟩
  rw [hrun] at hout hok
  rcases ho : (upcaseUnit vol unit r).1 with v | e | _
  · rw [ho] at hout hok
    dsimp only at hout hok
    subst hout
    rw [wp_ok hrun]
    exact ⟨rfl, (hok v rfl).2⟩
  · rw [ho] at h
    cases h
  · rw [ho] at h
    cases h

lemma namesMatchLoop_spec {pairs : List (ℕ × ℕ)} (hr : Healthy r) (hs : OnMedia r s)
    (h : ∀ p ∈ pairs, (foldUnit vol r p.1).isSome ∧ (foldUnit vol r p.2).isSome) :
    wp (namesMatchLoop vol pairs)
      (fun b t => (b = true ↔ ∀ p ∈ pairs, foldUnit vol r p.1 = foldUnit vol r p.2) ∧ OnMedia r t)
      (fun _ _ => False) s := by
  induction pairs generalizing s with
  | nil => exact ⟨by simp, hs⟩
  | cons p pairs ih =>
    obtain ⟨left, right⟩ := p
    obtain ⟨hl, hright⟩ := h (left, right) List.mem_cons_self
    unfold namesMatchLoop
    rw [wp_bind]
    refine wp_mono _ (upcaseUnit_spec hr hs hl) ?_ fun _ _ h => h
    rintro l t ⟨hfl, ht⟩
    rw [wp_bind]
    refine wp_mono _ (upcaseUnit_spec hr ht hright) ?_ fun _ _ h => h
    rintro r' u ⟨hfr, hu⟩
    rw [wp_ite]
    refine ⟨fun hne => ⟨?_, hu⟩, fun heq => ?_⟩
    · simp [hfl, hfr, hne]
    · refine wp_mono _ (ih hu fun p hp => h p (List.mem_cons_of_mem _ hp)) ?_ fun _ _ h => h
      rintro b v ⟨hb, hv⟩
      refine ⟨?_, hv⟩
      rw [hb, List.forall_mem_cons]
      simp [hfl, hfr, not_not.mp heq]

lemma map_eq_iff_zip {α β : Type} (f : α → β) {l l' : List α} (h : l.length = l'.length) :
    l.map f = l'.map f ↔ ∀ p ∈ l.zip l', f p.1 = f p.2 := by
  induction l generalizing l' with
  | nil => cases l' <;> simp_all
  | cons a l ih =>
    cases l' with
    | nil => simp at h
    | cons b l' => simp [ih (by simpa using h)]

lemma namesMatch_spec {actual wanted : List ℕ} (hr : Healthy r) (hs : OnMedia r s)
    (ha : Folds vol r actual) (hw : Folds vol r wanted) :
    wp (namesMatch vol actual wanted)
      (fun b t => (b = true ↔ actual.map (foldUnit vol r) = wanted.map (foldUnit vol r)) ∧
        OnMedia r t) (fun _ _ => False) s := by
  unfold namesMatch
  rw [wp_ite]
  refine ⟨fun hne => ⟨?_, hs⟩, fun heq => ?_⟩
  · refine ⟨nofun, fun h => absurd ?_ hne⟩
    simpa using congrArg List.length h
  · have hlen : actual.length = wanted.length := not_not.mp heq
    rw [map_eq_iff_zip _ hlen]
    refine namesMatchLoop_spec hr hs fun p hp => ?_
    exact ⟨ha _ (List.of_mem_zip hp).1, hw _ (List.of_mem_zip hp).2⟩

/-! ### Looking for a child -/

variable {dir : Directory} {wanted : List ℕ}

/-- The search is under way, has gone over `done` and found nothing. -/
structure Searching (vol : Volume) (r : Machine) (wanted : List ℕ) (done : List Slot)
    (s : Machine × Workspace) : Prop where
  media : OnMedia r s.1
  units : s.2.utf16.take wanted.length = wanted
  swept : sweep (search (sameName vol r wanted)) done (.going EntrySet.new none) =
    .going s.2.entrySet none

/-- The search has been stopped by the last slot of `done`, with the result `o`. -/
def Stops (vol : Volume) (r : Machine) (wanted : List ℕ) (o : Option DirectoryEntry)
    (done : List Slot) : Prop :=
  sweep (search (sameName vol r wanted)) done (.going EntrySet.new none) = .stopped o

/-- The slots decode, and the names in them fold. -/
def Readable (vol : Volume) (r : Machine) (slots : List Slot) : Prop :=
  ∃ es, (sweep collect slots (.going EntrySet.new []) = .stopped es ∨
      ∃ e, sweep collect slots (.going EntrySet.new []) = .going e es) ∧
    ∀ x ∈ es, Folds vol r x.nameUtf16

lemma Readable.slot {slots done : List Slot} {slot : Slot} {e : EntrySet}
    (h : Readable vol r slots) (hpre : done ++ [slot] <+: slots)
    (hdone : sweep (search (sameName vol r wanted)) done (.going EntrySet.new none) = .going e none)
    (hz : byteAt slot.raw 0 ≠ 0) :
    (∃ e', EntrySet.push slot.raw slot.loc e = (.ok none, e')) ∨
      ∃ entry e', EntrySet.push slot.raw slot.loc e = (.ok (some entry), e') ∧
        Folds vol r entry.nameUtf16 := by
  obtain ⟨es, hsweep, hfold⟩ := h
  obtain ⟨rest, rfl⟩ := hpre
  rw [sweep_append, sweep_snoc] at hsweep
  obtain ⟨es₀, hgo⟩ := collected_of_going hdone
  rw [hgo, Progress.step, if_neg hz] at hsweep
  rcases hp : EntrySet.push slot.raw slot.loc e with ⟨(_ | entry) | _ | _, e'⟩ <;>
    rw [hp] at hsweep <;> simp only [collect, if_true] at hsweep
  · exact Or.inl ⟨e', rfl⟩
  · refine Or.inr ⟨entry, e', rfl, hfold entry ?_⟩
    exact (collect_mono (Or.inr ⟨e', rfl⟩) hsweep).subset (by simp)
  · rw [sweep_failed] at hsweep
    simp at hsweep
  · rw [sweep_failed] at hsweep
    simp at hsweep

lemma findChildEntry_spec (hs : Ready vol.geometry r) (hr : Healthy r) {lba : ℕ}
    (hlba : InPartition vol.geometry.partition lba) {entry : DirectoryEntry}
    (hentry : Folds vol r entry.nameUtf16) (hw : Folds vol r wanted) (hm : OnMedia r s) :
    wp (findChildEntry vol lba entry wanted)
      (Sum.elim (fun o _ => sameName vol r wanted entry = true ∧ o = some entry)
        (fun _ t => sameName vol r wanted entry = false ∧ OnMedia r t ∧
          Holds vol.geometry.bytesPerSector lba t)) (fun _ _ => False) s := by
  unfold findChildEntry
  rw [wp_bind]
  refine wp_mono _ (namesMatch_spec hr hm hentry hw) ?_ fun _ _ h => h
  rintro b t ⟨hb, ht⟩
  rw [wp_ite]
  refine ⟨fun hmatch => ⟨by simpa [sameName] using hb.mp hmatch, rfl⟩, fun hmatch => ?_⟩
  have hne : sameName vol r wanted entry = false := by
    unfold sameName
    exact decide_eq_false fun h => hmatch (hb.mpr h)
  rw [wp_bind]
  refine wp_mono _ (readSector_spec (ht.ready hs) hlba) ?_
    fun _ _ h => (Faulted.elim ht.healthy h).elim
  rintro _ u ⟨hu, hold⟩
  exact ⟨hne, ht.quiet hu, hold⟩

lemma findChildSlot_spec (hs : Ready vol.geometry r) (hr : Healthy r) (hw : Folds vol r wanted)
    {slots done : List Slot} (hslots : Readable vol r slots) {lba k : ℕ}
    (hlba : InPartition vol.geometry.partition lba)
    {s : Machine × Workspace} (hk : k < vol.geometry.bytesPerSector / 32)
    (hpre : done ++ [slotAt r.device.sectors lba k] <+: slots)
    (hdone : Searching vol r wanted done s) (hold : Holds vol.geometry.bytesPerSector lba s.1) :
    wp (findChildSlot vol wanted.length lba k)
      (Sum.elim
        (fun o _ => Stops vol r wanted o (done ++ [slotAt r.device.sectors lba k]))
        (fun _ t => Searching vol r wanted (done ++ [slotAt r.device.sectors lba k]) t ∧
          Holds vol.geometry.bytesPerSector lba t.1))
      (fun _ _ => False) s := by
  obtain ⟨m, ws⟩ := s
  obtain ⟨hm, hunits, hsweep⟩ := hdone
  dsimp only at hm hunits hsweep hold
  have hsize := hs.sound.size_le
  have hoff : k * 32 + 32 ≤ vol.geometry.bytesPerSector := by omega
  have hslice := hold.slice hoff
  rw [hm.sectors] at hslice
  have hstep := sweep_snoc (search (sameName vol r wanted)) done (slotAt r.device.sectors lba k)
    (.going EntrySet.new none)
  rw [hsweep, Progress.step] at hstep
  unfold findChildSlot
  simp only [wp_bind, wp_usize, wp_lift]
  refine ⟨by omega, ?_⟩
  rw [wp_scratchSlice (hm.ready hs) hoff, hslice, wp_ite]
  refine ⟨fun hz => hstep.trans (if_pos hz), fun hz => ?_⟩
  have hz' : byteAt (slotAt r.device.sectors lba k).raw 0 ≠ 0 := hz
  rw [if_neg hz'] at hstep
  rw [wp_bind, wp_onEntrySet]
  rcases hslots.slot hpre hsweep hz' with ⟨e', hp⟩ | ⟨entry, e', hp, hentry⟩
  · rw [hp] at hstep
    refine (wp_ok hp).mpr ?_
    exact ⟨⟨hm, hunits, hstep⟩, hold⟩
  · rw [hp] at hstep
    refine (wp_ok hp).mpr ?_
    simp only [wp_bind, wp_getSnd, wp_lift, hunits]
    refine wp_mono _ (findChildEntry_spec hs hr hlba hentry hw hm) ?_ fun _ _ h => h
    rintro (o | _) t ht
    · obtain ⟨hsame, rfl⟩ := ht
      simpa [search, hsame, Stops] using hstep
    · obtain ⟨hsame, ht, hold'⟩ := ht
      refine ⟨⟨ht, hunits, ?_⟩, hold'⟩
      simpa [search, hsame] using hstep

/-- What a search comes to which ends with the slots swept. -/
def found : Progress (Option DirectoryEntry) → Option DirectoryEntry
  | .going _ o => o
  | .stopped o => o
  | .failed => none

/-- A walk over an extent whose slots can be read to the end. -/
structure Scanned (vol : Volume) (r : Machine) (dir : Directory) (n : ℕ) : Prop where
  visited : Visited vol.geometry r.device.sectors dir n
  readable : Readable vol r (extentSlots vol.geometry r.device.sectors dir n)
  ended : ∀ e es, sweep collect (extentSlots vol.geometry r.device.sectors dir n)
    (.going EntrySet.new []) = .going e es → Ended vol.geometry r.device.sectors dir n

/-- The number of clusters `find_child` goes over: one of a directory without a FAT chain. -/
def searched (dir : Directory) (n : ℕ) : ℕ := if dir.noFatChain then 1 else n

lemma findChildCluster_spec (hs : Ready vol.geometry r) (hr : Healthy r) (hw : Folds vol r wanted)
    {n j : ℕ} (h : Scanned vol r dir n) (hj : j < searched dir n) {s : Machine × Workspace}
    (hdone : Searching vol r wanted (extentSlots vol.geometry r.device.sectors dir j) s) :
    wp (findChildCluster vol dir wanted.length
        (clusterOf vol.geometry r.device.sectors dir j, leftAfter vol.geometry dir j))
      (Sum.elim
        (fun o _ => o = found (sweep (search (sameName vol r wanted))
          (extentSlots vol.geometry r.device.sectors dir (searched dir n))
          (.going EntrySet.new none)))
        (fun v t => v = (clusterOf vol.geometry r.device.sectors dir (j + 1),
            leftAfter vol.geometry dir (j + 1)) ∧ j + 1 < searched dir n ∧
          Searching vol r wanted (extentSlots vol.geometry r.device.sectors dir (j + 1)) t))
      (fun _ _ => False) s := by
  have hle : searched dir n ≤ n := by
    have := h.visited.pos
    unfold searched
    split_ifs <;> omega
  have hc := h.visited.heap (show j < n by omega)
  have hsector {i : ℕ} (hi : i < vol.geometry.sectorsPerCluster) := hs.sound.heap_sector hc hi
  unfold findChildCluster
  simp only
  rw [hs.sound.clusterLba_eq hc, pure_bind, okOr_some, pure_bind, wp_bind, findChildSector_eq]
  refine wp_mono _ (clusterScan_wp (d := r.device.sectors)
    (I := Searching vol r wanted)
    (H := fun lba done s => Searching vol r wanted done s ∧
      Holds vol.geometry.bytesPerSector lba s.1)
    (S := fun o done _ => Stops vol r wanted o done)
    (E := fun _ _ => False) hs.sound.spc_pos
    (fun i hi => (hs.sound.lt_of_inPartition (hsector hi)).2) ?_ ?_ (fun _ _ _ h => h.1) hdone) ?_
    fun _ _ h => h
  · intro i hi done t ht
    rw [wp_lift]
    refine wp_mono _ (readSector_spec (ht.media.ready hs) (hsector hi)) ?_
      fun _ _ h => (Faulted.elim ht.media.healthy h).elim
    rintro _ u ⟨hu, hold⟩
    exact ⟨⟨ht.media.quiet hu, ht.units, ht.swept⟩, hold⟩
  · intro i hi k done t hk hpre ht
    rw [← extentSlots_succ] at hpre
    exact findChildSlot_spec hs hr hw h.readable (hsector hi) hk
      (hpre.trans (extentSlots_mono _ _ _ (by omega))) ht.1 ht.2
  rw [← extentSlots_succ]
  rintro (o | left) t ht
  · rcases ht with ⟨full, hpre, hstop⟩ | ⟨rfl, hend, hgo⟩
    · have := sweep_mono (hpre.trans (extentSlots_mono _ _ _ (show j + 1 ≤ _ from hj))) hstop
      change o = _
      rw [this]
      rfl
    · have hlast : j + 1 = searched dir n := by
        by_contra hne
        have := h.visited.walked.inside j (by omega) hend.1
        have := hend.2
        omega
      change none = _
      rw [← hlast, hgo.swept]
      rfl
  · obtain ⟨rfl, hinside, hgo⟩ := ht
    simp only
    by_cases hfat : dir.noFatChain = true
    · have hlast : j + 1 = searched dir n := by
        simp only [searched, hfat, if_true] at hj ⊢
        omega
      rw [if_pos hfat]
      change none = _
      rw [← hlast, hgo.swept]
      rfl
    · have hfat' : dir.noFatChain = false := by simpa using hfat
      have hall : searched dir n = n := if_neg hfat
      rw [hall] at hj
      rw [if_neg hfat, wp_bind, wp_lift]
      refine wp_mono _ (nextCluster_spec (hgo.media.ready hs) hc) ?_
        fun _ _ h => (Faulted.elim hgo.media.healthy h).elim
      rintro next u ⟨rfl, hu⟩
      rw [hgo.media.sectors, ← clusterOf_succ hfat', wp_ite, leftOver_leftAfter, hall]
      refine ⟨fun hend => ?_, fun hchain => ?_⟩
      · have hlast : j + 1 = n := by
          by_contra hne
          have := h.visited.walked.chain j (by omega) hfat'
          omega
        change none = _
        rw [← hlast, hgo.swept]
        rfl
      · have hmore : j + 1 < n := by
          by_contra hge
          obtain rfl : n = j + 1 := by omega
          obtain ⟨es, hes⟩ := collected_of_going hgo.swept
          rcases h.ended _ _ hes with hend | hend | hend
          · exact hinside hend
          · exact hfat hend.1
          · exact hchain hend.2
        have h2 := (hs.sound.inHeap_iff.mp (h.visited.heap hmore)).1
        rw [wp_ite]
        refine ⟨fun hlt => by omega, fun _ => ⟨rfl, hmore, hgo.media.quiet hu, hgo.units,
          hgo.swept⟩⟩

/-- **`find_child` searches the slots of the extent in order**, but of a directory without a FAT
chain only those of the first cluster. -/
theorem findChild_spec (hs : Ready vol.geometry r) (hr : Healthy r) (hw : Folds vol r wanted)
    {n : ℕ} (h : Scanned vol r dir n) {w : Workspace} (hws : w.utf16.take wanted.length = wanted)
    (hset : w.entrySet = EntrySet.new) :
    wp (findChild vol dir wanted.length)
      (fun o _ => o = found (sweep (search (sameName vol r wanted))
        (extentSlots vol.geometry r.device.sectors dir (searched dir n))
        (.going EntrySet.new none))) (fun _ _ => False) (r, w) := by
  have hpos : 0 < searched dir n := by
    have := h.visited.pos
    unfold searched
    split_ifs <;> omega
  have hle : searched dir n ≤ vol.geometry.clusterCount := by
    have := h.visited.pos
    have := h.visited.le
    unfold searched
    split_ifs <;> omega
  unfold findChild
  simp only [requireScratch, wp_bind, wp_lift, wp_get, wp_when, wp_throw]
  refine ⟨fun hlt => absurd hs.scratch (by omega), fun _ => ?_⟩
  refine wp_loop_post (fun j v t => j < searched dir n ∧
      v = (clusterOf vol.geometry r.device.sectors dir j, leftAfter vol.geometry dir j) ∧
      Searching vol r wanted (extentSlots vol.geometry r.device.sectors dir j) t) ?_ ?_ ?_
  · refine ⟨hpos, by simp [clusterOf_zero, leftAfter], OnMedia.refl hr, hws, ?_⟩
    rw [hset]
    rfl
  · rintro j v t - - ⟨hj, rfl, ht⟩
    refine wp_mono _ (findChildCluster_spec hs hr hw h hj ht) ?_ fun _ _ h => h
    rintro (o | v) u hu
    · exact hu
    · exact ⟨hu.2.1, hu.1, hu.2.2⟩
  · rintro v t ⟨hj, -⟩
    omega

/-! ### The two scans of a directory -/

lemma decode_of_sweep {slots : List Slot} {es : List DirectoryEntry}
    (h : sweep collect slots (.going EntrySet.new []) = .stopped es ∨
      ∃ e, sweep collect slots (.going EntrySet.new []) = .going e es) : decode slots = es := by
  unfold decode
  rcases h with h | ⟨e, h⟩ <;> rw [h]

lemma found_eq_find {p : DirectoryEntry → Bool} {slots : List Slot} {es : List DirectoryEntry}
    (h : sweep collect slots (.going EntrySet.new []) = .stopped es ∨
      ∃ e, sweep collect slots (.going EntrySet.new []) = .going e es) :
    found (sweep (search p) slots (.going EntrySet.new none)) = es.find? p := by
  have hsearch := searches_slots p slots
  rcases h with h | ⟨e, h⟩ <;> rw [h] at hsearch
  · generalize sweep (search p) slots (.going EntrySet.new none) = f at hsearch
    cases hsearch with
    | stopped hfind => exact hfind.symm
    | foundStopped hfind => exact hfind.symm
  · generalize sweep (search p) slots (.going EntrySet.new none) = f at hsearch
    cases hsearch with
    | going hfind => exact hfind.symm
    | foundGoing hfind => exact hfind.symm

lemma sweep_of_mono {a b : List Slot} {es : List DirectoryEntry} (hab : a <+: b)
    (h : sweep collect b (.going EntrySet.new []) = .stopped es ∨
      ∃ e, sweep collect b (.going EntrySet.new []) = .going e es) :
    ∃ es', es' <+: es ∧ (sweep collect a (.going EntrySet.new []) = .stopped es' ∨
      ∃ e, sweep collect a (.going EntrySet.new []) = .going e es') := by
  obtain ⟨c, rfl⟩ := hab
  rw [sweep_append] at h
  rcases ha : sweep collect a (.going EntrySet.new []) with ⟨e, es'⟩ | es' | _
  · rw [ha] at h
    exact ⟨es', collect_mono (Or.inr ⟨e, rfl⟩) h, Or.inr ⟨e, rfl⟩⟩
  · rw [ha] at h
    exact ⟨es', collect_mono (Or.inl rfl) h, Or.inl rfl⟩
  · rw [ha, sweep_failed] at h
    simp at h

/-- The number of clusters in the extent of a directory without a FAT chain. -/
def extentClusters (g : Geometry) (dir : Directory) : ℕ :=
  if dir.dataLength = 0 then 1
  else (dir.dataLength + g.bytesPerSector * g.sectorsPerCluster - 1) /
    (g.bytesPerSector * g.sectorsPerCluster)

/-- A listing of a directory without a FAT chain goes over the extent up to its end, unless an end
marker stops it. -/
lemma decode_extent {g : Geometry} {d : Sectors} {n : ℕ} {es : List DirectoryEntry} {k : ℕ}
    (hs : Reading.Sound g k) (hfat : dir.noFatChain = true) (hn : Visited g d dir n)
    (h : sweep collect (extentSlots g d dir n) (.going EntrySet.new []) = .stopped es ∨
      ∃ e, sweep collect (extentSlots g d dir n) (.going EntrySet.new []) = .going e es ∧
        Ended g d dir n) :
    decode (extentSlots g d dir (extentClusters g dir)) = es := by
  have hpos := hs.clusterBytes_pos
  have hspc := hs.spc_pos
  have hbytes : (g.sectorsPerCluster - 1) * g.bytesPerSector ≤
      g.bytesPerSector * g.sectorsPerCluster := by
    rw [Nat.mul_comm]
    exact Nat.mul_le_mul_left _ (by omega)
  have hle : n ≤ extentClusters g dir := by
    have hmore := hn.walked.more
    have hn1 := hn.pos
    unfold extentClusters
    rcases Nat.lt_or_ge 1 n with hlt | hge
    · have hleft := hmore (n - 2) (by omega) hfat
      unfold leftAfter at hleft
      rw [show n - 2 + 1 = n - 1 by omega] at hleft
      rw [if_neg (by omega), Nat.le_div_iff_mul_le hpos]
      obtain ⟨m, rfl⟩ : ∃ m, n = m + 1 := ⟨n - 1, by omega⟩
      rw [Nat.add_mul, Nat.one_mul]
      rw [Nat.add_sub_cancel] at hleft
      omega
    · obtain rfl : n = 1 := by omega
      split
      · exact le_rfl
      · rw [Nat.le_div_iff_mul_le hpos]
        omega
  rcases h with h | ⟨e, h, hend⟩
  · exact decode_of_sweep (Or.inl (sweep_mono (extentSlots_mono g d dir hle) h))
  · have hge : extentClusters g dir ≤ n := by
      have hleft : dir.dataLength = 0 ∨ dir.dataLength ≤
          n * (g.bytesPerSector * g.sectorsPerCluster) := by
        obtain ⟨m, rfl⟩ : ∃ m, n = m + 1 := ⟨n - 1, by have := hn.pos; omega⟩
        unfold Ended leftAfter at hend
        rw [Nat.add_sub_cancel] at hend
        rcases hend with ⟨-, hend⟩ | ⟨-, hend⟩ | ⟨hchain, -⟩
        · rw [Nat.add_mul, Nat.one_mul]
          omega
        · omega
        · rw [hfat] at hchain
          cases hchain
      unfold extentClusters
      split
      · exact hn.pos
      · rw [← Nat.lt_succ_iff, Nat.div_lt_iff_lt_mul hpos, Nat.succ_mul]
        omega
    rw [show extentClusters g dir = n by omega]
    exact decode_of_sweep (Or.inr ⟨e, h⟩)

/-- A volume mounted from a device of the size of this one. -/
def MountedOn (vol : Volume) (s : Machine) : Prop :=
  ∃ s0, (mount s0).1 = .ok vol ∧ s0.device.sectorCount = s.device.sectorCount

lemma MountedOn.sound (h : MountedOn vol s) :
    Reading.Sound vol.geometry s.device.sectorCount := by
  obtain ⟨s0, hmount, hcount⟩ := h
  exact hcount ▸ (MountSafety.mount_sound hmount).2.2.geometry

lemma MountedOn.table (h : MountedOn vol s) :
    vol.upcaseValid = true → MountSafety.TableSound vol.geometry vol.upcase := by
  obtain ⟨s0, hmount, -⟩ := h
  exact (MountSafety.mount_sound hmount).2.2.table

/-- In a directory without a FAT chain, a name which an entry of the extent has is the name of an
entry whose set ends in the first cluster. -/
def SeesFirst (vol : Volume) (s : Machine) (dir : Directory) (wanted : List ℕ) : Prop :=
  dir.noFatChain = true →
    (∃ e ∈ decode (extentSlots vol.geometry s.device.sectors dir
      (extentClusters vol.geometry dir)), sameName vol s wanted e = true) →
    ∃ e ∈ decode (extentSlots vol.geometry s.device.sectors dir 1), sameName vol s wanted e = true

lemma wp_listDirectory {Q : List DirectoryEntry → Machine → Prop} {E : Error → Machine → Prop} :
    wp (listDirectory vol dir) Q E s =
      wp (readDirectory vol dir collect) (fun _ t => Q t.2 t.1) (fun e t => E e t.1) (s, []) := by
  unfold listDirectory
  rw [wp_bind, wp_withSnd]
  rfl

lemma scratch_of_list {entries : List DirectoryEntry}
    (h : (listDirectory vol dir s).1 = .ok entries) :
    vol.geometry.bytesPerSector ≤ s.scratch.len := by
  by_contra hlt
  have hrun := run_eq h
  have herr : wp (listDirectory vol dir) (fun _ _ => False) (fun _ _ => True) s := by
    rw [wp_listDirectory, wp_readDirectory]
    unfold scanDirectory
    simp only [requireScratch, wp_bind, wp_lift_lift, wp_get, wp_when, wp_throw]
    exact ⟨fun _ => trivial, fun hge => absurd hge (by omega)⟩
  exact (wp_ok hrun).mp herr

/-- **Lookup and listing see the same directory exactly when the name is not one that only the
clusters behind the first of an extent without a FAT chain have.** -/
theorem findChild_iff (vol : Volume) (s : Machine) (dir : Directory) (units : List ℕ) (len : ℕ)
    (entries : List DirectoryEntry) (hvol : MountedOn vol s) (hs : Healthy s)
    (hlist : (listDirectory vol dir s).1 = .ok entries) (hlen : len ≤ units.length)
    (hwanted : Folds vol s (units.take len)) (hstored : ∀ e ∈ entries, Folds vol s e.nameUtf16) :
    (findChild vol dir len (s, { Workspace.new with utf16 := units })).1 =
        .ok (entries.find? (sameName vol s (units.take len))) ↔
      SeesFirst vol s dir (units.take len) := by
  have hready : Ready vol.geometry s := ⟨hvol.sound, scratch_of_list hlist⟩
  obtain ⟨-, n, hn, hsweep⟩ : Quiet vol.geometry.partition s (listDirectory vol dir s).2 ∧
      Listed vol s [] collect dir entries := by
    refine (wp_ok (Q := fun es t => Quiet vol.geometry.partition s t ∧
      Listed vol s [] collect dir es) (E := fun _ _ => True) (run_eq hlist)).mp ?_
    rw [wp_listDirectory]
    exact wp_mono _ (readDirectory_spec hready) (fun _ _ h => h) fun _ _ _ => trivial
  have hsweep' : sweep collect (extentSlots vol.geometry s.device.sectors dir n)
      (.going EntrySet.new []) = .stopped entries ∨
      ∃ e, sweep collect (extentSlots vol.geometry s.device.sectors dir n)
        (.going EntrySet.new []) = .going e entries :=
    hsweep.imp_right fun ⟨e, h, _⟩ => ⟨e, h⟩
  have hscan : Scanned vol s dir n := by
    refine ⟨hn, ⟨entries, hsweep', hstored⟩, fun e es hes => ?_⟩
    rcases hsweep with h | ⟨_, h, hend⟩
    · rw [h] at hes
      cases hes
    · exact hend
  have hwl : (units.take len).length = len := by rw [List.length_take]; omega
  have hfind := findChild_spec (w := { Workspace.new with utf16 := units }) hready hs hwanted hscan
    (by rw [hwl]) rfl
  rw [hwl] at hfind
  obtain ⟨o, t, hrun, ho⟩ := exists_of_wp hfind
  rw [hrun]
  have hpos := hn.pos
  by_cases hfat : dir.noFatChain = true
  swap
  · have hall : searched dir n = n := if_neg hfat
    rw [hall, found_eq_find hsweep'] at ho
    exact ⟨fun _ h => absurd h hfat, fun _ => congrArg Outcome.ok ho⟩
  · have hone : searched dir n = 1 := if_pos hfat
    obtain ⟨first, hpre, hfirst⟩ := sweep_of_mono
      (extentSlots_mono vol.geometry s.device.sectors dir hpos) hsweep'
    rw [hone, found_eq_find hfirst] at ho
    unfold SeesFirst
    rw [decode_extent hvol.sound hfat hn hsweep, decode_of_sweep hfirst, ho]
    refine ⟨fun heq _ ⟨e, he, hsame⟩ => ?_, fun hsees => ?_⟩
    · have hsome : (first.find? (sameName vol s (units.take len))).isSome := by
        rw [Outcome.ok.inj heq, List.find?_isSome]
        exact ⟨e, he, hsame⟩
      exact List.find?_isSome.mp hsome
    · refine congrArg Outcome.ok ?_
      rcases hentries : entries.find? (sameName vol s (units.take len)) with _ | x
      · rw [List.find?_eq_none] at hentries ⊢
        exact fun e he => hentries e (hpre.subset he)
      · obtain ⟨e, he, hsame⟩ := hsees hfat ⟨x, List.mem_of_find?_eq_some hentries,
          List.find?_some hentries⟩
        rcases hy : first.find? (sameName vol s (units.take len)) with _ | y
        · exact absurd hsame (List.find?_eq_none.mp hy e he)
        · rw [← hentries, hpre.find?_eq_some hy]

/-! ### A directory in two clusters -/

/-- The slots of an entry set with its checksum, one after the other. -/
def setBytes (c : NewEntrySet) (count : ℕ) : List UInt8 :=
  let slots := (List.range count).map (entrySlot c count 0)
  let checksum := slots.zipIdx.foldl (fun sum p => checksumStep sum p.1 (p.2 = 0)) 0
  overlay slots.flatten 2 (leBytes 2 checksum)

/-- The directory `D` has the contiguous clusters 5 and 6. The first holds unused slots, the second
begins with the set of the file `F`. -/
def splitRoot : Image :=
  sectorWith ((64, setBytes { newDirectorySet [68] 5 1024 with noFatChain := true } 3) ::
    systemSlots 0)

def splitDevice : Device :=
  let device := smallDevice smallFat (sectorWith [(0, [0x1f])]) splitRoot
  { device with
    sectors
      | 29 => sectorWith ((List.range 16).map fun k => (32 * k, [5]))
      | 30 => sectorWith [(0, setBytes (newFileSet [70]) 3)]
      | lba => device.sectors lba }

def split : Machine where
  device := splitDevice
  scratch := ⟨512, fun _ => 0⟩

/-- The entry of the set of three slots from `32 * k` of sector `lba` on, of a name of one unit. -/
def splitEntry (c : NewEntrySet) (isDirectory : Bool) (lba k : ℕ) : DirectoryEntry where
  isDirectory := isDirectory
  firstCluster := c.firstCluster
  dataLength := c.dataLength
  validLength := c.dataLength
  noFatChain := c.noFatChain
  created := {}
  modified := {}
  accessed := {}
  name := overlay (List.replicate 255 0) 0 c.name
  nameLen := 1
  primary := ⟨lba, 32 * k⟩
  stream := ⟨lba, 32 * (k + 1)⟩
  entryLocs := overlay noLocators 0 ((List.range 3).map fun i => ⟨lba, 32 * (k + i)⟩)
  entryCount := 3

def splitDirectory : DirectoryEntry :=
  splitEntry { newDirectorySet [68] 5 1024 with noFatChain := true } true 26 2

def splitFile : DirectoryEntry := splitEntry (newFileSet [70]) false 30 0

/-- The extent of `D`. -/
def splitExtent : Directory where
  firstCluster := 5
  dataLength := 1024
  noFatChain := true
  primary := some splitDirectory.primary
  stream := some splitDirectory.stream
  entryLocs := splitDirectory.entryLocs
  entryCount := 3

/-- The units of the name `F`, as `find_child` is given them. -/
def splitUnits : List ℕ := overlay Workspace.new.utf16 0 [70]

set_option maxRecDepth 100000 in
lemma mount_split : (mount split).1 = .ok smallVolume := by decide +kernel

lemma list_split : (listDirectory smallVolume splitExtent split).1 = .ok [splitFile] := by
  decide +kernel

lemma lookup_split : (lookup smallVolume ['D'] split).1 = .ok splitDirectory := by decide +kernel

lemma folds_split (name : List ℕ) (h : ∀ u ∈ name, u ≤ 0x7f) : Folds smallVolume split name := by
  intro u hu
  have hlow := h u hu
  unfold foldUnit upcaseUnit
  rw [if_pos hlow]
  split_ifs <;> rfl

/-- The listing shows `F`, and `find_child` does not find it. -/
theorem child_missed : (mount split).1 = .ok smallVolume ∧ Healthy split ∧
    (lookup smallVolume ['D'] split).1 = .ok splitDirectory ∧
    splitDirectory.directory = some splitExtent ∧
    (listDirectory smallVolume splitExtent split).1 = .ok [splitFile] ∧
    sameName smallVolume split (splitUnits.take 1) splitFile = true ∧
    (findChild smallVolume splitExtent 1
      (split, { Workspace.new with utf16 := splitUnits })).1 = .ok none := by
  refine And.intro mount_split (And.intro (fun _ => rfl) (And.intro lookup_split ?_))
  refine And.intro rfl (And.intro list_split (And.intro ?_ ?_))
  · decide +kernel
  · decide +kernel

theorem findChild_iff_split :
    (findChild smallVolume splitExtent 1
        (split, { Workspace.new with utf16 := splitUnits })).1 =
      .ok ([splitFile].find? (sameName smallVolume split (splitUnits.take 1))) ↔
    SeesFirst smallVolume split splitExtent (splitUnits.take 1) := by
  have hvol : MountedOn smallVolume split := ⟨split, mount_split, rfl⟩
  refine findChild_iff smallVolume split splitExtent splitUnits 1 [splitFile] hvol (fun _ => rfl)
    list_split (by decide +kernel) (folds_split _ (by decide +kernel)) fun e he => ?_
  obtain rfl := List.mem_singleton.mp he
  exact folds_split _ (by decide +kernel)

end ExfatEmbedded.Listing
