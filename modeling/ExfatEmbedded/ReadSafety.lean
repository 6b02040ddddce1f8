import ExfatEmbedded.MountSafety
import ExfatEmbedded.Scan

/-!
The functions which read a mounted volume, on any media: they return, and they read nothing outside
the partition.
-/

namespace ExfatEmbedded.ReadSafety

open ExfatEmbedded.Library Exec ExfatEmbedded.Core ExfatEmbedded.Entry ExfatEmbedded.Allocation
open ExfatEmbedded.Lookup ExfatEmbedded.FileIo ExfatEmbedded.Mount ExfatEmbedded.Reading
open ExfatEmbedded.MountSafety ExfatEmbedded.Scan

variable {vol : Volume} {s : Machine}

/-! ### Case folding -/

lemma upcaseWord_safe {byte : ℕ} (hs : Ready vol.geometry s)
    (ht : TableSound vol.geometry vol.upcase) (hbyte : byte + 2 ≤ vol.upcase.byteLength) :
    wp (upcaseWord vol byte) (fun _ t => Quiet vol.geometry.partition s t)
      (fun _ t => Quiet vol.geometry.partition s t) s := by
  have hsize := hs.sound.size_ge
  have hpos := hs.sound.clusterBytes_pos
  have hcount := hs.sound.clusterCount
  have hlen : vol.upcase.byteLength ≤ 2 ^ 32 * 2 ^ 25 :=
    ht.length.trans (Nat.mul_le_mul hcount.2.le hs.sound.clusterBytes)
  unfold upcaseWord
  simp only [wp_bind, wp_u64, wp_ite, wp_throw, hs.sound.bytesPerCluster_eq, wp_pure, wp_div]
  refine ⟨by omega, fun _ => Quiet.refl _ _, fun _ => ⟨by omega, ?_⟩⟩
  refine wp_mono _ (clusterAt_spec hs ht.first) ?_ fun _ _ h => h.elim (·.1) (·.1)
  rintro c t ⟨hq, -, rfl, hlinked⟩
  have hc := hlinked _ le_rfl
  simp only [wp_rem, hs.sound.clusterLba_eq hc, wp_pure, wp_okOr, wp_usize]
  refine ⟨by omega, fun base hbase => ?_, nofun⟩
  cases hbase
  have hwithin : byte % (vol.geometry.bytesPerSector * vol.geometry.sectorsPerCluster) /
      vol.geometry.bytesPerSector < vol.geometry.sectorsPerCluster := by
    rw [Nat.div_lt_iff_lt_mul (by omega)]
    exact (Nat.mod_lt _ hpos).trans_eq (Nat.mul_comm _ _)
  have hin := hs.sound.heap_sector hc hwithin
  have hoff := Nat.mod_lt
    (byte % (vol.geometry.bytesPerSector * vol.geometry.sectorsPerCluster))
    (show 0 < vol.geometry.bytesPerSector by omega)
  have hle := hs.sound.size_le
  refine ⟨by omega, (hs.sound.lt_of_inPartition hin).2, by omega, by omega, fun _ => hq,
    fun hfit => ?_⟩
  refine wp_mono _ (readSector_spec (hq.ready hs) hin) ?_ fun _ _ h => hq.trans h.1
  rintro _ u ⟨hu, -⟩
  rw [wp_scratchSlice ((hq.trans hu).ready hs) (by omega)]
  exact hq.trans hu

lemma upcaseRound_safe {unit code byte : ℕ} (hs : Ready vol.geometry s)
    (ht : TableSound vol.geometry vol.upcase) (hunit : unit < 2 ^ 16) (hcode : code ≤ unit)
    (hbyte : byte ≤ vol.upcase.byteLength) :
    wp (upcaseRound vol unit (code, byte))
      (Sum.elim (fun _ => Quiet vol.geometry.partition s) fun v t =>
        Quiet vol.geometry.partition s t ∧ v.1 ≤ unit ∧ byte < v.2 ∧ v.2 ≤ vol.upcase.byteLength)
      (fun _ t => Quiet vol.geometry.partition s t) s := by
  have hcount := hs.sound.clusterCount
  have hlen : vol.upcase.byteLength ≤ 2 ^ 32 * 2 ^ 25 :=
    ht.length.trans (Nat.mul_le_mul hcount.2.le hs.sound.clusterBytes)
  unfold upcaseRound
  simp only [wp_bind, wp_u64, wp_ite, wp_throw, wp_pure, wp_okOr, wp_u32]
  refine ⟨by omega, fun _ => Quiet.refl _ _, fun hmore => ?_⟩
  refine wp_mono _ (upcaseWord_safe hs ht (by omega)) ?_ fun _ _ h => h
  intro value t hq
  refine ⟨by omega, fun _ => ⟨by omega, fun _ => hq, fun hmore' => ?_⟩, fun _ => ⟨fun _ => hq, ?_⟩⟩
  · refine wp_mono _ (upcaseWord_safe (hq.ready hs) ht (by omega)) ?_ fun _ _ h => hq.trans h
    intro skipped u hu
    refine ⟨by omega, fun stop hstop => ⟨fun _ => hq.trans hu, fun hpast => ?_⟩, fun _ =>
      hq.trans hu⟩
    exact ⟨hq.trans hu, by simp only; omega, by simp only; omega, by simp only; omega⟩
  · exact fun hne => ⟨by omega, hq, by simp only; omega, by simp only; omega, by simp only; omega⟩

lemma upcaseUnit_safe {unit : ℕ} (hs : Ready vol.geometry s)
    (ht : vol.upcaseValid = true → TableSound vol.geometry vol.upcase) (hunit : unit < 2 ^ 16) :
    wp (upcaseUnit vol unit) (fun _ t => Quiet vol.geometry.partition s t)
      (fun _ t => Quiet vol.geometry.partition s t) s := by
  unfold upcaseUnit
  simp only [wp_ite, wp_throw, wp_pure]
  refine ⟨fun _ => ⟨fun _ => Quiet.refl _ _, fun _ => Quiet.refl _ _⟩, fun _ =>
    ⟨fun _ => Quiet.refl _ _, fun hvalid => ?_⟩⟩
  have ht := ht (by simpa using hvalid)
  rw [wp_bind]
  refine wp_loop_post (fun i v t => Quiet vol.geometry.partition s t ∧ v.1 ≤ unit ∧ i ≤ v.2 ∧
    v.2 ≤ vol.upcase.byteLength) ⟨Quiet.refl _ _, by simp only; omega, by simp, by simp⟩ ?_ ?_
  · rintro i ⟨code, byte⟩ t - - ⟨hq, hcode, hi, hbyte⟩
    dsimp only at hcode hi hbyte
    refine wp_mono _ (upcaseRound_safe (hq.ready hs) ht hunit hcode hbyte) ?_ fun _ _ h =>
      hq.trans h
    rintro ((_ | v) | v) u hu
    · exact hq.trans hu
    · exact hq.trans hu
    · obtain ⟨hu, h1, h2, h3⟩ := hu
      exact ⟨hq.trans hu, h1, by omega, h3⟩
  · rintro ⟨code, byte⟩ t ⟨-, -, hi, hbyte⟩
    dsimp only at hi hbyte
    omega

lemma namesMatchLoop_safe {pairs : List (ℕ × ℕ)} (hs : Ready vol.geometry s)
    (ht : vol.upcaseValid = true → TableSound vol.geometry vol.upcase)
    (h : ∀ p ∈ pairs, p.1 < 2 ^ 16 ∧ p.2 < 2 ^ 16) :
    wp (namesMatchLoop vol pairs) (fun _ t => Quiet vol.geometry.partition s t)
      (fun _ t => Quiet vol.geometry.partition s t) s := by
  induction pairs generalizing s with
  | nil => exact Quiet.refl _ _
  | cons p pairs ih =>
    obtain ⟨left, right⟩ := p
    have hp := h (left, right) List.mem_cons_self
    unfold namesMatchLoop
    rw [wp_bind]
    refine wp_mono _ (upcaseUnit_safe hs ht hp.1) ?_ fun _ _ h => h
    intro l t hq
    rw [wp_bind]
    refine wp_mono _ (upcaseUnit_safe (hq.ready hs) ht hp.2) ?_ fun _ _ h => hq.trans h
    intro r u hu
    have hqu := hq.trans hu
    rw [wp_ite]
    refine ⟨fun _ => hqu, fun _ => ?_⟩
    exact wp_mono _ (ih (hqu.ready hs) fun p hp => h p (List.mem_cons_of_mem _ hp))
      (fun _ _ h => hqu.trans h) fun _ _ h => hqu.trans h

lemma namesMatch_safe {actual wanted : List ℕ} (hs : Ready vol.geometry s)
    (ht : vol.upcaseValid = true → TableSound vol.geometry vol.upcase)
    (ha : ∀ u ∈ actual, u < 2 ^ 16) (hw : ∀ u ∈ wanted, u < 2 ^ 16) :
    wp (namesMatch vol actual wanted) (fun _ t => Quiet vol.geometry.partition s t)
      (fun _ t => Quiet vol.geometry.partition s t) s := by
  unfold namesMatch
  rw [wp_ite]
  exact ⟨fun _ => Quiet.refl _ _, fun _ => namesMatchLoop_safe hs ht fun p hp =>
    ⟨ha _ (List.of_mem_zip hp).1, hw _ (List.of_mem_zip hp).2⟩⟩

/-! ### The units in a workspace -/

/-- The units of a workspace are 16-bit numbers. -/
structure Bounded (ws : Workspace) : Prop where
  utf16 : ∀ u ∈ ws.utf16, u < 2 ^ 16
  name : ∀ u ∈ ws.entrySet.entry.name, u < 2 ^ 16

lemma bounded_new : Bounded Workspace.new :=
  ⟨fun u hu => by rw [List.eq_of_mem_replicate hu]; decide,
    fun u hu => by rw [List.eq_of_mem_replicate hu]; decide⟩

lemma mem_overlay {α : Type} {l xs : List α} {i : ℕ} {x : α} (h : x ∈ overlay l i xs) :
    x ∈ l ∨ x ∈ xs := by
  unfold overlay at h
  rcases List.mem_append.mp h with h | h
  · rcases List.mem_append.mp h with h | h
    · exact Or.inl (List.mem_of_mem_take h)
    · exact Or.inr h
  · exact Or.inl (List.mem_of_mem_drop h)

lemma push_bounded (raw : List UInt8) (loc : EntryLocator) {e : EntrySet}
    (h : ∀ u ∈ e.entry.name, u < 2 ^ 16) :
    (∀ u ∈ (EntrySet.push raw loc e).2.entry.name, u < 2 ^ 16) ∧
      ∀ entry, (EntrySet.push raw loc e).1 = .ok (some entry) →
        ∀ u ∈ entry.name, u < 2 ^ 16 := by
  have hconsume (s : EntrySet) (hs : ∀ u ∈ s.entry.name, u < 2 ^ 16) :
      (∀ u ∈ s.consume.2.entry.name, u < 2 ^ 16) ∧
        ∀ entry, s.consume.1 = .ok (some entry) → ∀ u ∈ entry.name, u < 2 ^ 16 := by
    unfold EntrySet.consume EntrySet.complete
    simp only
    split_ifs
    · exact ⟨hs, nofun⟩
    · refine ⟨hs, fun entry h => ?_⟩
      cases h
      exact hs
    · exact ⟨hs, nofun⟩
  unfold EntrySet.push
  split_ifs
  · exact ⟨h, nofun⟩
  · exact ⟨h, nofun⟩
  · exact ⟨fun u hu => by rw [List.eq_of_mem_replicate hu]; decide, nofun⟩
  · exact ⟨h, nofun⟩
  · exact ⟨h, nofun⟩
  · exact ⟨h, nofun⟩
  · exact hconsume _ h
  · exact ⟨h, nofun⟩
  · refine hconsume _ fun u hu => ?_
    rcases mem_overlay hu with hu | hu
    · exact h u hu
    · obtain ⟨i, -, rfl⟩ := List.mem_map.mp (List.mem_of_mem_take hu)
      exact numAt_lt raw _ 2
  · exact ⟨h, nofun⟩

lemma encodeUtf16_lt {c : Char} {u : ℕ} (h : u ∈ encodeUtf16 c) : u < 2 ^ 16 := by
  have hc : c.toNat < 0xd800 ∨ 0xdfff < c.toNat ∧ c.toNat < 0x110000 := c.valid
  unfold encodeUtf16 at h
  split_ifs at h <;> simp at h <;> omega

lemma writeUnits_bounded (name : List Char) (written : ℕ) (l : List ℕ)
    (h : ∀ u ∈ l, u < 2 ^ 16) : wp (writeUnits name written) (fun _ l => ∀ u ∈ l, u < 2 ^ 16)
      (fun _ l => ∀ u ∈ l, u < 2 ^ 16) l := by
  induction name generalizing written l with
  | nil => exact h
  | cons c name ih =>
    unfold writeUnits
    rw [wp_ite]
    refine ⟨fun _ => h, fun _ => ?_⟩
    simp only [wp_bind, wp_modify]
    refine ih _ _ fun u hu => ?_
    rcases mem_overlay hu with hu | hu
    · exact h u hu
    · exact encodeUtf16_lt hu

/-! ### Lookup -/

/-- Nothing but sectors of the partition was read, and the units of the workspace are bounded. -/
structure Calm (vol : Volume) (s0 : Machine) (t : Machine × Workspace) : Prop where
  quiet : Quiet vol.geometry.partition s0 t.1
  bounded : Bounded t.2

variable {s0 : Machine} {t : Machine × Workspace}

/-- A program on a workspace which keeps a calm state calm. -/
def Safe {α : Type} (vol : Volume) (s0 : Machine) (m : WsM α) : Prop :=
  ∀ t, Calm vol s0 t → wp m (fun _ => Calm vol s0) (fun _ => Calm vol s0) t

lemma safe_okOr {α : Type} {e : Error} {o : Option α} : Safe vol s0 (okOr e o : WsM α) := by
  intro t ht
  rw [wp_okOr]
  exact ⟨fun _ _ => ht, fun _ => ht⟩

lemma Safe.bind {α β : Type} {m : WsM β} {f : β → WsM α} (h : Safe vol s0 m)
    (hf : ∀ b, Safe vol s0 (f b)) : Safe vol s0 (m >>= f) := by
  intro t ht
  rw [wp_bind]
  exact wp_mono _ (h t ht) (fun b u hu => hf b u hu) fun _ _ h => h

lemma safe_lift {α : Type} {m : FsM α} (h : ∀ s, Quiet vol.geometry.partition s0 s →
    wp m (fun _ => Quiet vol.geometry.partition s0) (fun _ => Quiet vol.geometry.partition s0) s) :
    Safe vol s0 (liftM m : WsM α) := by
  intro t ht
  rw [wp_lift]
  exact wp_mono _ (h t.1 ht.quiet) (fun _ _ h => ⟨h, ht.bounded⟩) fun _ _ h => ⟨h, ht.bounded⟩

lemma safe_utf8ToUtf16 (name : List Char) : Safe vol s0 (onUtf16 (utf8ToUtf16 name)) := by
  intro t ht
  rw [wp_onUtf16]
  unfold utf8ToUtf16
  rw [wp_ite]
  refine ⟨fun _ => ht, fun _ => ?_⟩
  exact wp_mono _ (writeUnits_bounded name 0 _ ht.bounded.utf16)
    (fun _ _ h => ⟨ht.quiet, h, ht.bounded.name⟩) fun _ _ h => ⟨ht.quiet, h, ht.bounded.name⟩

section

variable (hs : Ready vol.geometry s0)
  (htable : vol.upcaseValid = true → TableSound vol.geometry vol.upcase)

include hs htable

lemma findChildEntry_safe {lba : ℕ} (hlba : InPartition vol.geometry.partition lba)
    {entry : DirectoryEntry} {wanted : List ℕ} (hq : Quiet vol.geometry.partition s0 s)
    (hentry : ∀ u ∈ entry.nameUtf16, u < 2 ^ 16) (hwanted : ∀ u ∈ wanted, u < 2 ^ 16) :
    wp (findChildEntry vol lba entry wanted) (fun _ => Quiet vol.geometry.partition s0)
      (fun _ => Quiet vol.geometry.partition s0) s := by
  unfold findChildEntry
  rw [wp_bind]
  refine wp_mono _ (namesMatch_safe (hq.ready hs) htable hentry hwanted) ?_ fun _ _ h => hq.trans h
  intro b t ht
  have hqt := hq.trans ht
  rw [wp_ite]
  refine ⟨fun _ => hqt, fun _ => ?_⟩
  rw [wp_bind]
  exact wp_mono _ (readSector_spec (hqt.ready hs) hlba) (fun _ _ h => hqt.trans h.1)
    fun _ _ h => hqt.trans h.1

lemma findChildSlot_safe {lba k wantedLen : ℕ} (hlba : InPartition vol.geometry.partition lba)
    (hk : k < vol.geometry.bytesPerSector / 32) :
    Safe vol s0 (findChildSlot vol wantedLen lba k) := by
  rintro ⟨m, ws⟩ ht
  have hsize := hs.sound.size_le
  have hoff : k * 32 + 32 ≤ vol.geometry.bytesPerSector := by omega
  unfold findChildSlot
  simp only [wp_bind, wp_usize, wp_lift]
  refine ⟨by omega, ?_⟩
  rw [wp_scratchSlice (ht.quiet.ready hs) hoff, wp_ite]
  refine ⟨fun _ => ht, fun hz => ?_⟩
  rw [wp_bind, wp_onEntrySet]
  obtain ⟨hname, hentry⟩ := push_bounded (Image.slice m.scratch.bytes (k * 32) 32)
    ⟨lba, k * 32 % 2 ^ 16⟩ ht.bounded.name
  rcases hp : EntrySet.push (Image.slice m.scratch.bytes (k * 32) 32)
    ⟨lba, k * 32 % 2 ^ 16⟩ ws.entrySet with ⟨o, e'⟩
  rw [hp] at hname hentry
  have ht' : Calm vol s0 (m, { ws with entrySet := e' }) := ⟨ht.quiet, ht.bounded.utf16, hname⟩
  rcases push_cases (Image.slice_length m.scratch.bytes (k * 32) 32)
    ⟨lba, k * 32 % 2 ^ 16⟩ ws.entrySet with ⟨o', ho⟩ | ho
  · rw [hp] at ho
    dsimp only at ho
    subst ho
    refine (wp_ok hp).mpr ?_
    rcases o' with _ | entry
    · exact ht'
    · simp only [wp_bind, wp_getSnd, wp_lift]
      refine wp_mono _ (findChildEntry_safe hs htable hlba ht.quiet
        (fun u hu => hentry entry rfl u (List.mem_of_mem_take hu))
        fun u hu => ht.bounded.utf16 u (List.mem_of_mem_take hu)) ?_ fun _ _ h => ⟨h, ht'.bounded⟩
      rintro (r | _) u hu
      · exact ⟨hu, ht'.bounded⟩
      · exact ⟨hu, ht'.bounded⟩
  · rw [hp] at ho
    dsimp only at ho
    subst ho
    exact (wp_err hp).mpr ht'

lemma findChildCluster_safe {dir : Directory} {wantedLen : ℕ} (v : ℕ × ℕ) :
    Safe vol s0 (findChildCluster vol dir wantedLen v) := by
  obtain ⟨c, remaining⟩ := v
  unfold findChildCluster
  simp only
  by_cases hc : vol.geometry.InHeap c
  swap
  · rw [Sound.clusterLba_none hc]
    exact fun t ht => ht
  rw [hs.sound.clusterLba_eq hc, pure_bind, okOr_some, pure_bind, findChildSector_eq]
  have hsector {i : ℕ} (hi : i < vol.geometry.sectorsPerCluster) := hs.sound.heap_sector hc hi
  refine Safe.bind (fun t ht => ?_) fun r => ?_
  · refine wp_mono _ (clusterScan_wp (d := s0.device.sectors) (l := [])
      (I := fun _ => Calm vol s0) (H := fun _ _ => Calm vol s0) (S := fun _ _ => Calm vol s0)
      hs.sound.spc_pos (fun i hi => (hs.sound.lt_of_inPartition (hsector hi)).2) ?_ ?_
      (fun _ _ _ h => h) ht) ?_ fun _ _ h => h
    · intro i hi _ t ht
      exact safe_lift (fun s hq => wp_mono _ (readSector_spec (hq.ready hs) (hsector hi))
        (fun _ _ h => hq.trans h.1) fun _ _ h => hq.trans h.1) t ht
    · intro i hi k _ t hk _ ht
      refine wp_mono _ (findChildSlot_safe hs htable (hsector hi) hk t ht) ?_ fun _ _ h => h
      rintro (r | _) u hu <;> exact hu
    · rintro (r | left) u hu
      · exact hu.elim (fun ⟨_, _, h⟩ => h) fun h => h.2.2
      · exact hu.2.2
  · rcases r with r | left
    · exact fun t ht => ht
    · by_cases hfat : dir.noFatChain = true
      · simp only [hfat, if_true]
        exact fun t ht => ht
      · simp only [hfat]
        refine Safe.bind (safe_lift fun s hq => ?_) fun next t ht => ?_
        · exact wp_mono _ (nextCluster_spec (hq.ready hs) hc) (fun _ _ h => hq.trans h.2)
            fun _ _ h => hq.trans h.1
        · simp only [wp_ite, wp_throw, wp_pure]
          exact ⟨fun _ => ht, fun _ => ⟨fun _ => ht, fun _ => ht⟩⟩

lemma findChild_safe (dir : Directory) (wantedLen : ℕ) :
    Safe vol s0 (findChild vol dir wantedLen) := by
  intro t ht
  unfold findChild
  simp only [requireScratch, wp_bind, wp_lift, wp_get, wp_when, wp_throw]
  refine ⟨fun _ => ht, fun _ => ?_⟩
  refine wp_loop_post (fun _ _ => Calm vol s0) ht ?_ fun _ _ h => h
  intro _ v u _ _ hu
  refine wp_mono _ (findChildCluster_safe hs htable v u hu) ?_ fun _ _ h => h
  rintro (r | v') w hw <;> exact hw

lemma lookupFrom_safe (dir : Directory) (current : List Char) (rest : List (List Char)) :
    Safe vol s0 (lookupFrom vol dir current rest) := by
  induction rest generalizing dir current with
  | nil =>
    exact (safe_utf8ToUtf16 current).bind fun len =>
      (findChild_safe hs htable dir len).bind fun _ => safe_okOr
  | cons next rest ih =>
    exact (safe_utf8ToUtf16 current).bind fun len => (findChild_safe hs htable dir len).bind
      fun _ => safe_okOr.bind fun _ => safe_okOr.bind fun dir => ih dir next

lemma lookup_safe (path : List Char) : Safe vol s0 (lookupWithWorkspace vol path) := by
  unfold lookupWithWorkspace
  rcases segments path with _ | ⟨current, rest⟩
  · exact fun t ht => ht
  · exact lookupFrom_safe hs htable _ current rest

end

/-! ### Reading a file -/

section

variable (hs : Ready vol.geometry s0)

include hs

lemma walkChain_safe {first index n c : ℕ} (hc : vol.geometry.InHeap c)
    (hn : index + n < 2 ^ 32) (hq : Quiet vol.geometry.partition s0 s) :
    wp (walkChain vol first index n c)
      (fun v t => Quiet vol.geometry.partition s0 t ∧ vol.geometry.InHeap v)
      (fun _ => Quiet vol.geometry.partition s0) s := by
  unfold walkChain
  rw [wp_bind]
  refine wp_loop_post (fun _ c t => Quiet vol.geometry.partition s0 t ∧ vol.geometry.InHeap c)
    ⟨hq, hc⟩ ?_ fun _ _ h => h
  rintro i c t - hi ⟨hq, hc⟩
  have hlt := (hs.sound.inHeap_iff.mp hc).2.2
  rw [wp_bind]
  refine wp_mono _ (nextCluster_spec (hq.ready hs) hc) ?_ fun _ _ h => hq.trans h.1
  rintro next u ⟨-, hu⟩
  have hqu := hq.trans hu
  simp only [wp_bind, wp_u64, wp_ite, wp_pure, wp_throw, hs.sound.fatLbaForByte_eq hc, wp_okOr]
  exact ⟨by omega, fun hin => ⟨hqu, hin⟩, fun _ => ⟨by omega, fun _ _ => hqu, fun _ => hqu⟩⟩

/-- Nothing but sectors of the partition was read, and the cluster numbers cached in the handle
aside it is as in `file`. -/
structure Steady (vol : Volume) (s0 : Machine) (file : File) (position : ℕ)
    (t : Machine × File) : Prop where
  quiet : Quiet vol.geometry.partition s0 t.1
  valid : t.2.validLength = file.validLength
  position : t.2.position = position

omit hs in
lemma walkStart_le (file : File) (wanted : ℕ) : (file.walkStart wanted).1 ≤ wanted := by
  unfold File.walkStart
  split
  · split_ifs with hle
    · exact hle
    · exact Nat.zero_le _
  · exact Nat.zero_le _

lemma fileClusterAt_safe {file : File} {position wanted : ℕ} {t : Machine × File}
    (ht : Steady vol s0 file position t) :
    wp (fileClusterAt vol wanted)
      (fun c u => Steady vol s0 file position u ∧ vol.geometry.InHeap c)
      (fun _ u => Steady vol s0 file position u) t := by
  have hcount := hs.sound.clusterCount
  unfold fileClusterAt
  simp only [wp_bind, wp_getSnd]
  rw [wp_ite]
  refine ⟨fun _ => ht, fun hwanted => ?_⟩
  rw [wp_ite]
  refine ⟨fun _ => ?_, fun _ => ?_⟩
  · simp only [wp_bind, wp_okOr, wp_ite, wp_pure, wp_throw]
    exact ⟨fun _ _ => ⟨fun _ _ => ⟨fun hin => ⟨ht, hin⟩, fun _ => ht⟩, fun _ => ht⟩, fun _ => ht⟩
  · have hstart := walkStart_le t.2 wanted
    simp only [wp_ite, wp_throw, wp_bind, wp_lift, wp_modifySnd, wp_pure]
    refine ⟨fun _ => ht, fun hin => ?_⟩
    refine wp_mono _ (walkChain_safe hs (not_not.mp hin) (by omega) ht.quiet) ?_
      fun _ _ h => ⟨h, ht.valid, ht.position⟩
    rintro c u ⟨hu, hc⟩
    exact ⟨⟨hu, ht.valid, ht.position⟩, hc⟩

lemma filePosition_safe {file : File} {position : ℕ} {t : Machine × File}
    (ht : Steady vol s0 file position t) :
    wp (filePosition vol)
      (fun p u => Steady vol s0 file position u ∧ InPartition vol.geometry.partition p.1 ∧
        p.2 < vol.geometry.bytesPerSector)
      (fun _ u => Steady vol s0 file position u) t := by
  have hpos := hs.sound.clusterBytes_pos
  have hsize := hs.sound.size_ge
  unfold filePosition
  simp only [hs.sound.bytesPerCluster_eq, pure_bind, wp_bind, wp_getSnd, wp_div]
  refine ⟨by omega, wp_mono _ (fileClusterAt_safe hs ht) ?_ fun _ _ h => h⟩
  rintro c u ⟨hu, hc⟩
  simp only [wp_rem, hs.sound.clusterLba_eq hc, wp_pure, wp_okOr, wp_u64]
  refine ⟨by omega, fun base hbase => ?_, nofun⟩
  cases hbase
  have hwithin : t.2.position % (vol.geometry.bytesPerSector * vol.geometry.sectorsPerCluster) /
      vol.geometry.bytesPerSector < vol.geometry.sectorsPerCluster := by
    rw [Nat.div_lt_iff_lt_mul (by omega)]
    exact (Nat.mod_lt _ hpos).trans_eq (Nat.mul_comm _ _)
  have hin := hs.sound.heap_sector hc hwithin
  exact ⟨by omega, (hs.sound.lt_of_inPartition hin).2, by omega, hu, hin, Nat.mod_lt _ (by omega)⟩

lemma readRound_safe {file : File} {position wanted : ℕ} {out : List UInt8} {t : Machine × File}
    (hbound : position + wanted < 2 ^ 64)
    (ht : Steady vol s0 file (position + out.length) t) :
    wp (readRound vol wanted out)
      (Sum.elim (fun _ u => Quiet vol.geometry.partition s0 u.1) fun out' u =>
        Steady vol s0 file (position + out'.length) u ∧ out.length < out'.length ∧
          out'.length ≤ wanted)
      (fun _ u => Steady vol s0 file (position + out.length) u) t := by
  unfold readRound
  rw [wp_ite]
  refine ⟨fun _ => ht.quiet, fun hmore => ?_⟩
  simp only [wp_bind]
  refine wp_mono _ (filePosition_safe hs ht) ?_ fun _ _ h => h
  rintro ⟨lba, off⟩ u ⟨hu, hin, hoff⟩
  dsimp only at hin hoff
  simp only [wp_lift]
  refine wp_mono _ (readSector_spec (hu.quiet.ready hs) hin) ?_
    fun _ _ h => ⟨hu.quiet.trans h.1, hu.valid, hu.position⟩
  rintro _ v ⟨hv, -⟩
  have hq := hu.quiet.trans hv
  simp only [wp_sub]
  refine ⟨hoff.le, ?_⟩
  rw [wp_scratchSlice (hq.ready hs) (by omega)]
  simp only [advance, wp_bind, wp_getSnd, wp_u64, wp_modifySnd, wp_pure]
  have hp := hu.position
  refine ⟨by omega, ⟨hq, hu.valid, ?_⟩, ?_, ?_⟩
  · simp only [List.length_append, Image.slice_length]
    omega
  · simp only [List.length_append, Image.slice_length]
    omega
  · simp only [List.length_append, Image.slice_length]
    omega

lemma read_safe {file : File} (hfile : file.validLength < 2 ^ 64) (outLen : ℕ)
    (hq : Quiet vol.geometry.partition s0 s) :
    wp (FileIo.read vol outLen) (fun _ u => Quiet vol.geometry.partition s0 u.1)
      (fun _ u => Quiet vol.geometry.partition s0 u.1) (s, file) := by
  unfold FileIo.read
  simp only [wp_bind, wp_getSnd]
  rw [wp_ite]
  refine ⟨fun _ => hq, fun hopen => ?_⟩
  simp only [wp_bind, wp_sub]
  refine ⟨by omega, ?_⟩
  have hbound : file.position + min outLen (file.validLength - file.position) < 2 ^ 64 := by omega
  refine wp_loop_post (fun i out t => Steady vol s0 file (file.position + out.length) t ∧
    i ≤ out.length ∧ out.length ≤ min outLen (file.validLength - file.position)) ?_ ?_ ?_
  · exact ⟨⟨hq, rfl, by simp⟩, by simp, by simp⟩
  · rintro i out t - - ⟨ht, hi, hout⟩
    refine wp_mono _ (readRound_safe hs hbound ht) ?_ fun _ _ h => h.quiet
    rintro (r | out') u hu
    · exact hu
    · exact ⟨hu.1, by have := hu.2.1; omega, hu.2.2⟩
  · rintro out t ⟨-, hi, hout⟩
    omega

end

/-! ### Free space -/

lemma clusterAt_zero (first : ℕ) :
    wp (clusterAt vol first 0) (fun c t => c = first ∧ t = s) (fun _ t => t = s) s := by
  unfold clusterAt
  rw [wp_ite]
  exact ⟨fun _ => rfl, fun _ => ⟨rfl, rfl⟩⟩

/-- The first byte of the bitmap is looked for in its first cluster, which nothing has checked. -/
lemma bitmapCluster_safe {index : ℕ} (hs : Ready vol.geometry s)
    (hfirst : index = 0 ∨ vol.geometry.InHeap vol.bitmap.firstCluster) :
    wp (clusterAt vol vol.bitmap.firstCluster index)
      (fun c t => Quiet vol.geometry.partition s t ∧
        (vol.geometry.InHeap c → vol.geometry.InHeap vol.bitmap.firstCluster))
      (fun _ t => Quiet vol.geometry.partition s t) s := by
  rcases hfirst with rfl | hfirst
  · refine wp_mono _ (clusterAt_zero _) ?_ fun _ _ h => h ▸ Quiet.refl _ _
    rintro c t ⟨rfl, rfl⟩
    exact ⟨Quiet.refl _ _, id⟩
  · exact wp_mono _ (clusterAt_spec hs hfirst) (fun _ _ h => ⟨h.1, fun _ => hfirst⟩)
      fun _ _ h => h.elim (·.1) (·.1)

lemma bitmapLocation_safe {byte : ℕ} (hs : Ready vol.geometry s)
    (hfirst : byte = 0 ∨ vol.geometry.InHeap vol.bitmap.firstCluster) :
    wp (bitmapLocation vol byte)
      (fun p t => Quiet vol.geometry.partition s t ∧
        vol.geometry.InHeap vol.bitmap.firstCluster ∧ byte < vol.bitmap.byteLength ∧
        InPartition vol.geometry.partition p.1 ∧ p.2 < vol.geometry.bytesPerSector)
      (fun _ t => Quiet vol.geometry.partition s t) s := by
  have hpos := hs.sound.clusterBytes_pos
  have hsize := hs.sound.size_ge
  unfold bitmapLocation
  simp only [hs.sound.bytesPerCluster_eq, pure_bind, wp_ite, wp_throw, wp_bind, wp_div]
  refine ⟨fun _ => Quiet.refl _ _, fun hbyte => ⟨by omega, ?_⟩⟩
  refine wp_mono _ (bitmapCluster_safe hs (hfirst.imp_left fun h => by rw [h, Nat.zero_div])) ?_
    fun _ _ h => h
  rintro c t ⟨ht, hin⟩
  simp only [wp_rem]
  refine ⟨by omega, ?_⟩
  by_cases hc : vol.geometry.InHeap c
  swap
  · rw [Sound.clusterLba_none hc]
    exact ht
  simp only [hs.sound.clusterLba_eq hc, wp_pure, wp_okOr, wp_u64]
  refine ⟨fun base hbase => ?_, nofun⟩
  cases hbase
  have hwithin : byte % (vol.geometry.bytesPerSector * vol.geometry.sectorsPerCluster) /
      vol.geometry.bytesPerSector < vol.geometry.sectorsPerCluster := by
    rw [Nat.div_lt_iff_lt_mul (by omega)]
    exact (Nat.mod_lt _ hpos).trans_eq (Nat.mul_comm _ _)
  have hsector := hs.sound.heap_sector hc hwithin
  exact ⟨by omega, (hs.sound.lt_of_inPartition hsector).2, by omega, ht, hin hc, by omega, hsector,
    Nat.mod_lt _ (by omega)⟩

lemma countBytes_lt {values : List UInt8} {used bits used' bits' : ℕ} (hbits : bits ≠ 0)
    (hvalues : values ≠ []) (h : countBytes values used bits = some (used', bits')) :
    bits' < bits := by
  have hle (values : List UInt8) (used bits : ℕ)
      (h : countBytes values used bits = some (used', bits')) : bits' ≤ bits := by
    induction values generalizing used bits with
    | nil => cases h; exact le_rfl
    | cons value values ih =>
      unfold countBytes at h
      split at h
      · cases h; exact le_rfl
      · simp only at h
        split at h
        · cases h
        · exact (ih _ _ h).trans (by omega)
  cases values with
  | nil => exact absurd rfl hvalues
  | cons value values =>
    unfold countBytes at h
    rw [if_neg hbits] at h
    simp only at h
    split at h
    · cases h
    · have := hle _ _ _ h
      omega

lemma refreshRound_safe {byte bits used : ℕ} (hs : Ready vol.geometry s)
    (hfirst : byte = 0 ∨ vol.geometry.InHeap vol.bitmap.firstCluster) :
    wp (refreshRound vol (byte, bits, used))
      (Sum.elim (fun _ => Quiet vol.geometry.partition s) fun v t =>
        Quiet vol.geometry.partition s t ∧ vol.geometry.InHeap vol.bitmap.firstCluster ∧
          v.2.1 < bits)
      (fun _ t => Quiet vol.geometry.partition s t) s := by
  have hpos := hs.sound.clusterBytes_pos
  unfold refreshRound
  simp only [wp_ite, wp_pure]
  refine ⟨fun _ => Quiet.refl _ _, fun hbits => ?_⟩
  rw [wp_bind]
  refine wp_mono _ (bitmapLocation_safe hs hfirst) ?_ fun _ _ h => h
  rintro ⟨lba, offset⟩ t ⟨ht, hin, hbyte, hlba, hoffset⟩
  dsimp only at hlba hoffset
  simp only [wp_bind]
  refine wp_mono _ (readSector_spec (ht.ready hs) hlba) ?_ fun _ _ h => ht.trans h.1
  rintro _ u ⟨hu, -⟩
  have hq := ht.trans hu
  have hmod := Nat.mod_lt byte hpos
  simp only [hs.sound.bytesPerCluster_eq, wp_pure, wp_rem, wp_sub, wp_okOr, wp_ite, wp_throw]
  refine ⟨by omega, hmod.le, hoffset.le, fun left hleft => ⟨fun _ => hq, fun hbytes => ?_⟩,
    fun _ => hq⟩
  rw [wp_bind, wp_scratchSlice (hq.ready hs) (by omega)]
  simp only [wp_bind, wp_okOr, wp_pure]
  refine ⟨fun c hc => ⟨fun byte' _ => ⟨hq, hin, ?_⟩, fun _ => hq⟩, fun _ => hq⟩
  refine countBytes_lt hbits ?_ hc
  intro hnil
  have := congrArg List.length hnil
  simp only [Image.slice_length, List.length_nil] at this
  exact hbytes this

/-- The cached count of free clusters is a `u32`. -/
def CountBounded (s : Machine) : Prop := ∀ n, s.freeClusters = some n → n < 2 ^ 32

lemma refreshFreeClusters_safe (hs : Ready vol.geometry s) :
    wp (refreshFreeClusters vol)
      (fun _ t => ∃ u n, Quiet vol.geometry.partition s u ∧ n < 2 ^ 32 ∧
        t = { u with freeClusters := some n })
      (fun _ t => Quiet vol.geometry.partition s t) s := by
  have hcount := hs.sound.clusterCount
  unfold refreshFreeClusters
  rw [wp_bind]
  refine wp_loop_post (fun i v t => Quiet vol.geometry.partition s t ∧
    (v.1 = 0 ∨ vol.geometry.InHeap vol.bitmap.firstCluster) ∧
      v.2.1 + i ≤ vol.geometry.clusterCount) ⟨Quiet.refl _ _, Or.inl rfl, le_rfl⟩ ?_ ?_
  · rintro i ⟨byte, bits, used⟩ t - - ⟨ht, hfirst, hbits⟩
    dsimp only at hfirst hbits
    refine wp_mono _ (refreshRound_safe (ht.ready hs) hfirst) ?_ fun _ _ h => ht.trans h
    rintro (total | v) u hu
    · simp only [Sum.elim_inl] at hu ⊢
      simp only [wp_bind, wp_okOr, wp_modify]
      refine ⟨fun free hfree => ⟨u, free, ht.trans hu, ?_, rfl⟩, fun _ => ht.trans hu⟩
      unfold checkedSub at hfree
      split at hfree
      · cases hfree
        omega
      · cases hfree
    · obtain ⟨hu, hin, hlt⟩ := hu
      exact ⟨ht.trans hu, Or.inr hin, by omega⟩
  · rintro ⟨byte, bits, used⟩ t ⟨-, -, hbits⟩
    dsimp only at hbits
    omega

lemma freeSpaceBytes_safe (hs : Ready vol.geometry s) (hcount : CountBounded s) :
    wp (freeSpaceBytes vol)
      (fun _ t => ∃ u n, Quiet vol.geometry.partition s u ∧ n < 2 ^ 32 ∧
        t = { u with freeClusters := some n })
      (fun _ t => Quiet vol.geometry.partition s t) s := by
  have hbytes := hs.sound.clusterBytes
  -- the count is a `u32`, and a cluster has at most `2 ^ 25` bytes
  have hfit {n : ℕ} (hn : n < 2 ^ 32) :
      n * (vol.geometry.bytesPerSector * vol.geometry.sectorsPerCluster) < 2 ^ 64 :=
    calc n * (vol.geometry.bytesPerSector * vol.geometry.sectorsPerCluster)
        ≤ 2 ^ 32 * 2 ^ 25 := Nat.mul_le_mul hn.le hbytes
      _ < 2 ^ 64 := by decide
  unfold freeSpaceBytes
  simp only [wp_bind, wp_get, wp_when, hs.sound.bytesPerCluster_eq, wp_pure, wp_okOr, wp_u64]
  refine ⟨fun _ => ?_, fun hknown => ⟨fun n hn => ⟨hfit (hcount n hn), s, n, Quiet.refl _ _,
    hcount n hn, ?_⟩, fun hnone => ?_⟩⟩
  · refine wp_mono _ (refreshFreeClusters_safe hs) ?_ fun _ _ h => h
    rintro _ t ⟨u, n, hu, hn, rfl⟩
    exact ⟨fun m hm => ⟨hfit (by cases hm; exact hn), u, n, hu, hn, rfl⟩, fun h => absurd h
      (Option.some_ne_none _)⟩
  · rw [← hn]
  · rw [hnone] at hknown
    exact absurd rfl hknown

/-! ### Runs -/

/-- A call which only reads. A handle and a directory may be any values of their types; a visitor
decides by what it has been shown. -/
inductive ReadRequest where
  | lookup (path : List Char)
  | openFile (path : List Char)
  | read (file : File) (hfile : file.validLength < 2 ^ 64) (outLen : ℕ)
  | readDirectory (dir : Directory)
      (visitor : DirectoryEntry → List DirectoryEntry → Bool)
  | isDirEmpty (path : List Char)
  | freeSpaceBytes

def ReadRequest.run (vol : Volume) : ReadRequest → FsM Unit
  | .lookup path => (fun _ => ()) <$> Lookup.lookup vol path
  | .openFile path => (fun _ => ()) <$> FileIo.openFile vol path
  | .read file _ outLen => (fun _ => ()) <$> withSnd file (FileIo.read vol outLen)
  | .readDirectory dir visitor =>
    (fun _ => ()) <$> withSnd [] (Lookup.readDirectory vol dir fun e es =>
      (visitor e es, es ++ [e]))
  | .isDirEmpty path => (fun _ => ()) <$> Lookup.isDirEmpty vol path
  | .freeSpaceBytes => (fun _ => ()) <$> Allocation.freeSpaceBytes vol

/-- Calls one after the other, each with its own scratch buffer, whatever the earlier ones
returned. -/
def runRequests (vol : Volume) : List (Scratch × ReadRequest) → FsM Unit
  | [] => pure ()
  | (scratch, request) :: rest => do
    modify fun s => { s with scratch := scratch }
    let _ ← attempt (request.run vol)
    runRequests vol rest

/-- From `s` to `t` only sectors `p` were read. -/
def ReadIn (p : Partition) (s t : Machine) : Prop :=
  ∃ l, t.device.reads = l ++ s.device.reads ∧ ∀ lba ∈ l, InPartition p lba

/-- `m` returns, and reads only sectors of `p`. -/
structure ReadsOnly {α : Type} (p : Partition) (m : FsM α) (s : Machine) : Prop where
  run : wp m (fun _ t => ReadIn p s t) (fun _ t => ReadIn p s t) s

/-- A run from `s0` which has only read so far. -/
structure Going (g : Geometry) (s0 t : Machine) : Prop where
  sound : Sound g t.device.sectorCount
  reads : ReadIn g.partition s0 t
  count : CountBounded t

lemma Going.quiet {g : Geometry} {s0 s t : Machine} (h : Going g s0 s)
    (hq : Quiet g.partition s t) : Going g s0 t := by
  obtain ⟨l, hl, hin⟩ := h.reads
  obtain ⟨l', hl', hin'⟩ := hq.reads
  refine ⟨hq.sectorCount ▸ h.sound, ⟨l' ++ l, ?_, fun lba hlba => ?_⟩, fun n hn => ?_⟩
  · rw [hl', hl, List.append_assoc]
  · rcases List.mem_append.mp hlba with hmem | hmem
    · exact hin' lba hmem
    · exact hin lba hmem
  · exact h.count n (hq.freeClusters ▸ hn)

lemma calm_new (s : Machine) : Calm vol s (s, Workspace.new) := ⟨Quiet.refl _ _, bounded_new⟩

lemma withNewWorkspace_safe {α : Type} {m : WsM α} (h : Safe vol s m) :
    wp (withNewWorkspace m) (fun _ t => Quiet vol.geometry.partition s t)
      (fun _ t => Quiet vol.geometry.partition s t) s := by
  unfold withNewWorkspace
  simp only [wp_bind, wp_withSnd]
  exact wp_mono _ (h _ (calm_new s)) (fun _ _ h => h.quiet) fun _ _ h => h.quiet

lemma isDirEmpty_safe (hs : Ready vol.geometry s)
    (ht : vol.upcaseValid = true → TableSound vol.geometry vol.upcase) (path : List Char) :
    Safe vol s (isDirEmptyWithWorkspace vol path) := by
  refine (lookup_safe hs ht _).bind fun entry => safe_okOr.bind fun dir => ?_
  refine Safe.bind (safe_lift fun t hq => ?_) fun _ t ht => ht
  unfold firstDirectoryEntry
  simp only [wp_bind, wp_withSnd]
  exact wp_mono _ (readDirectory_spec (hq.ready hs)) (fun _ _ h => hq.trans h.1)
    fun _ _ h => hq.trans h

lemma request_safe {s0 : Machine} (h : Going vol.geometry s0 s)
    (hscratch : vol.geometry.bytesPerSector ≤ s.scratch.len)
    (ht : vol.upcaseValid = true → TableSound vol.geometry vol.upcase) (request : ReadRequest) :
    wp (request.run vol) (fun _ t => Going vol.geometry s0 t)
      (fun _ t => Going vol.geometry s0 t) s := by
  have hs : Ready vol.geometry s := ⟨h.sound, hscratch⟩
  cases request with
  | lookup path =>
    unfold ReadRequest.run
    rw [wp_map]
    exact wp_mono _ (withNewWorkspace_safe (lookup_safe hs ht path)) (fun _ _ => h.quiet)
      fun _ _ => h.quiet
  | openFile path =>
    have hopen : Safe vol s (openWithWorkspace vol path) := by
      refine (lookup_safe hs ht path).bind fun entry t ht => ?_
      rw [wp_ite]
      exact ⟨fun _ => ht, fun _ => ht⟩
    unfold ReadRequest.run
    rw [wp_map]
    exact wp_mono _ (withNewWorkspace_safe hopen) (fun _ _ => h.quiet) fun _ _ => h.quiet
  | read file hfile outLen =>
    unfold ReadRequest.run
    rw [wp_map, wp_withSnd]
    exact wp_mono _ (read_safe hs hfile outLen (Quiet.refl _ _)) (fun _ _ => h.quiet)
      fun _ _ => h.quiet
  | readDirectory dir visitor =>
    unfold ReadRequest.run
    rw [wp_map, wp_withSnd]
    exact wp_mono _ (readDirectory_spec hs) (fun _ _ ht => h.quiet ht.1) fun _ _ => h.quiet
  | isDirEmpty path =>
    unfold ReadRequest.run
    rw [wp_map]
    exact wp_mono _ (withNewWorkspace_safe (isDirEmpty_safe hs ht path)) (fun _ _ => h.quiet)
      fun _ _ => h.quiet
  | freeSpaceBytes =>
    unfold ReadRequest.run
    rw [wp_map]
    refine wp_mono _ (freeSpaceBytes_safe hs h.count) ?_ fun _ _ => h.quiet
    rintro _ t ⟨u, n, hu, hn, rfl⟩
    obtain ⟨hsound, hreads, -⟩ := h.quiet hu
    exact ⟨hsound, hreads, fun m hm => by cases hm; exact hn⟩

lemma runRequests_safe {s0 : Machine} (h : Going vol.geometry s0 s)
    (ht : vol.upcaseValid = true → TableSound vol.geometry vol.upcase)
    (requests : List (Scratch × ReadRequest))
    (hscratch : ∀ r ∈ requests, vol.geometry.bytesPerSector ≤ r.1.len) :
    wp (runRequests vol requests) (fun _ t => Going vol.geometry s0 t)
      (fun _ t => Going vol.geometry s0 t) s := by
  induction requests generalizing s with
  | nil => exact h
  | cons r requests ih =>
    obtain ⟨scratch, request⟩ := r
    have hrest (t : Machine) (h' : Going vol.geometry s0 t) := ih h' fun r hr =>
      hscratch r (List.mem_cons_of_mem _ hr)
    have h' : Going vol.geometry s0 { s with scratch := scratch } := ⟨h.sound, h.reads, h.count⟩
    unfold runRequests
    simp only [wp_bind, wp_modify, wp_attempt]
    exact wp_mono _ (request_safe h' (hscratch _ List.mem_cons_self) ht request)
      (fun _ t ht => hrest t ht) fun _ t ht => hrest t ht

/-- **Mounting and reading are safe on every device image.** Mounting returns and reads sectors of
the device only, and sectors of the partition once that is selected; so does any sequence of reading
calls on the volume mounted. Nothing in between panics. -/
theorem reading_safe (s : Machine) (hcount : 0 < s.device.sectorCount) :
    ReadsOnly (whole s.device.sectorCount) mount s ∧
      (∀ size p t, checkedSectorSize s.device.sectorSize s = (.ok size, s) →
        selectPartition size s = (.ok p, t) →
          Within p s.device.sectorCount ∧ ReadsOnly p (mountPartition p size) t) ∧
      ∀ vol t, mount s = (.ok vol, t) → ∀ requests : List (Scratch × ReadRequest),
        (∀ r ∈ requests, vol.geometry.bytesPerSector ≤ r.1.len) →
          Within vol.geometry.partition s.device.sectorCount ∧
            ReadsOnly vol.geometry.partition (runRequests vol requests)
              { t with freeClusters := none } := by
  refine ⟨⟨?_⟩, fun size p t hsize hselect => ?_, fun vol t hmount requests hscratch => ?_⟩
  · exact wp_mono _ (mount_safe hcount) (fun _ _ h => h.1.reads) fun _ _ h => h.reads
  · obtain ⟨rfl, hlo, hhi, -⟩ := (wp_ok hsize).mp (checkedSectorSize_safe s.device.sectorSize)
    obtain ⟨hq, hscratch, hp⟩ := (wp_ok hselect).mp (selectPartition_safe hlo hhi hcount)
    refine ⟨hp, ⟨wp_mono _ (mountPartition_safe (hq.scratchLen ▸ hscratch) (hq.sectorCount ▸ hp)) ?_
      fun _ _ h => h.reads⟩⟩
    exact fun _ _ h => h.1.reads
  · obtain ⟨hq, hp, -, hvol⟩ := (wp_ok hmount).mp (mount_safe hcount)
    have hstart : Going vol.geometry { t with freeClusters := none }
        { t with freeClusters := none } :=
      ⟨hq.sectorCount ▸ hvol.geometry, ⟨[], rfl, nofun⟩, nofun⟩
    exact ⟨hp, ⟨wp_mono _ (runRequests_safe hstart hvol.table requests hscratch)
      (fun _ _ h => h.reads) fun _ _ h => h.reads⟩⟩

/-- A volume with nothing in its root. -/
def plain : Machine := smallMachine smallFat (sectorWith [(0, [7])]) (sectorWith (systemSlots 0))

set_option maxRecDepth 100000 in
lemma mount_plain : (mount plain).1 = .ok smallVolume := by decide +kernel

theorem reading_safe_plain : ReadsOnly (whole plain.device.sectorCount) mount plain ∧
    ReadsOnly smallVolume.geometry.partition (runRequests smallVolume
        [(plain.scratch, .lookup ['a']), (plain.scratch, .freeSpaceBytes)])
      { (mount plain).2 with freeClusters := none } := by
  have hcount : 0 < plain.device.sectorCount := by decide
  have hscratch : smallVolume.geometry.bytesPerSector ≤ plain.scratch.len := by decide
  have hrun := (reading_safe plain hcount).2.2 smallVolume (mount plain).2 (run_eq mount_plain)
    [(plain.scratch, .lookup ['a']), (plain.scratch, .freeSpaceBytes)]
  refine And.intro (reading_safe plain hcount).1 (hrun ?_).2
  exact List.forall_mem_cons.mpr ⟨hscratch, List.forall_mem_cons.mpr ⟨hscratch, nofun⟩⟩

end ExfatEmbedded.ReadSafety
