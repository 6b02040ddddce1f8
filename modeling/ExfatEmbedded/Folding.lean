import ExfatEmbedded.Library.Never
import ExfatEmbedded.Renaming
import ExfatEmbedded.Search

/-!
The folding of names with and without the UpCase table.

Units of ASCII fold without the table. A stored name of the length wanted whose first unit beyond
ASCII comes behind units which match needs the table.
-/

namespace ExfatEmbedded.Folding

open ExfatEmbedded.Library Exec ExfatEmbedded.Core ExfatEmbedded.Entry ExfatEmbedded.Allocation
open ExfatEmbedded.Lookup ExfatEmbedded.FileIo ExfatEmbedded.EntryWrite ExfatEmbedded.Mutation
open ExfatEmbedded.Mount ExfatEmbedded.Reading ExfatEmbedded.Scan ExfatEmbedded.Sets
open ExfatEmbedded.Listing ExfatEmbedded.ReadSafety ExfatEmbedded.MountSafety ExfatEmbedded.Tree
open ExfatEmbedded.Decoding ExfatEmbedded.Layout ExfatEmbedded.Search ExfatEmbedded.Renaming
open ExfatEmbedded.Removal

/-! ### Operations which fold no unit -/

section Errors

variable {vol : Volume} {σ : Type}

/-- No run of `m` says that the UpCase table is corrupt. -/
abbrev Folded {α : Type} (m : Exec σ Error α) : Prop := Never Error.upcaseTableCorrupt m

lemma folded_checked (p : Prop) [Decidable p] (k : ℕ) :
    Folded (do assert p; pure k : Exec σ Error ℕ) := (never_assert p).bind fun _ => never_pure k

lemma folded_u32 (n : ℕ) : Folded (u32 n : Exec σ Error ℕ) := folded_checked _ _
lemma folded_u64 (n : ℕ) : Folded (u64 n : Exec σ Error ℕ) := folded_checked _ _
lemma folded_sub (a b : ℕ) : Folded (sub a b : Exec σ Error ℕ) := folded_checked _ _
lemma folded_div (a b : ℕ) : Folded (div a b : Exec σ Error ℕ) := folded_checked _ _
lemma folded_rem (a b : ℕ) : Folded (rem a b : Exec σ Error ℕ) := folded_checked _ _
lemma folded_divCeil (a b : ℕ) : Folded (divCeil a b : Exec σ Error ℕ) := folded_checked _ _

lemma folded_corrupt {α : Type} (o : Option α) : Folded (okOr .corrupt o : Exec σ Error α) :=
  never_okOr (by decide) o

lemma folded_noSpace {α : Type} (o : Option α) : Folded (okOr .noSpace o : Exec σ Error α) :=
  never_okOr (by decide) o

lemma folded_throwCorrupt {α : Type} : Folded (throw .corrupt : Exec σ Error α) :=
  never_throw (by decide)

lemma folded_readSector (size lba : ℕ) : Folded (readSector size lba) := by
  intro s
  unfold readSector
  simp only
  split_ifs
  all_goals rintro ⟨⟩

lemma folded_writeSector (size lba : ℕ) : Folded (writeSector size lba) := by
  intro s
  unfold writeSector
  simp only
  split_ifs
  all_goals rintro ⟨⟩

lemma folded_scratchSlice (size off n : ℕ) : Folded (scratchSlice size off n) :=
  never_get.bind fun _ => (never_assert _).bind fun _ => never_get.bind fun _ => never_pure _

lemma folded_scratchPatch (size off : ℕ) (bs : List UInt8) : Folded (scratchPatch size off bs) :=
  never_get.bind fun _ => (never_assert _).bind fun _ => never_modify _

lemma folded_bytesPerCluster (g : Geometry) : Folded (g.bytesPerCluster : Exec σ Error ℕ) :=
  folded_u32 _

lemma folded_clusterLba (g : Geometry) (c : ℕ) :
    Folded (g.clusterLba c : Exec σ Error (Option ℕ)) :=
  Never.ite (fun _ => (folded_u64 _).bind fun _ => never_pure _) fun _ => never_pure _

lemma folded_fatLbaForByte (g : Geometry) (byte : ℕ) :
    Folded (g.fatLbaForByte byte : Exec σ Error (Option ℕ)) := by
  unfold Geometry.fatLbaForByte
  split
  · exact never_pure _
  · split
    · exact never_pure _
    · split
      · exact never_pure _
      · exact (folded_div _ _).bind fun _ => never_pure _

variable (vol)

lemma folded_nextCluster (c : ℕ) : Folded (nextCluster vol c) :=
  (folded_u64 _).bind fun _ => (folded_fatLbaForByte _ _).bind fun _ => (folded_corrupt _).bind
    fun _ => (folded_rem _ _).bind fun _ => (folded_readSector _ _).bind fun _ =>
      (folded_scratchSlice _ _ _).bind fun _ => never_pure _

lemma folded_setFat (c v : ℕ) : Folded (setFat vol c v) :=
  (folded_u64 _).bind fun _ => (folded_fatLbaForByte _ _).bind fun _ => (folded_corrupt _).bind
    fun _ => (folded_rem _ _).bind fun _ => (folded_readSector _ _).bind fun _ =>
      (folded_scratchPatch _ _ _).bind fun _ => (never_modify _).bind fun _ =>
        folded_writeSector _ _

lemma folded_clusterAt (first index : ℕ) : Folded (clusterAt vol first index) := by
  unfold clusterAt
  refine Never.ite (fun _ => folded_throwCorrupt) fun _ =>
    (never_loop (fun i c => ?_) _ _ _).bind ?_
  · refine (folded_nextCluster vol c).bind fun next => ?_
    exact Never.ite (fun _ => never_pure _) fun _ => folded_throwCorrupt
  · intro r
    cases r with
    | inl r => exact r.elim
    | inr c => exact never_pure c

lemma folded_bitmapLocation (byte : ℕ) : Folded (bitmapLocation vol byte) := by
  unfold bitmapLocation
  refine (folded_bytesPerCluster _).bind fun _ => Never.ite (fun _ => folded_throwCorrupt)
    fun _ => ?_
  refine (folded_div _ _).bind fun _ => (folded_clusterAt vol _ _).bind fun _ => ?_
  refine (folded_rem _ _).bind fun _ => (folded_clusterLba _ _).bind fun _ => ?_
  refine (folded_corrupt _).bind fun _ => (folded_div _ _).bind fun _ => ?_
  exact (folded_u64 _).bind fun _ => (folded_rem _ _).bind fun _ => never_pure _

lemma folded_bitmapUsed (c : ℕ) : Folded (bitmapUsed vol c) := by
  unfold bitmapUsed
  refine (folded_corrupt _).bind fun p => (folded_bitmapLocation vol _).bind fun q => ?_
  exact (folded_readSector _ _).bind fun _ => (folded_scratchSlice _ _ _).bind fun _ => never_pure _

lemma folded_adjustFree (used : Bool) (n : Option ℕ) : Folded (adjustFree vol used n) := by
  unfold adjustFree
  cases n with
  | none => exact never_pure _
  | some n =>
    refine Never.ite (fun _ => (folded_corrupt _).bind fun _ => never_pure _) fun _ => ?_
    refine (folded_corrupt _).bind fun _ => ?_
    exact Never.ite (fun _ => never_pure _) fun _ => folded_throwCorrupt

lemma folded_setBitmap (c : ℕ) (used : Bool) : Folded (setBitmap vol c used) := by
  unfold setBitmap
  refine (folded_corrupt _).bind fun p => (folded_bitmapLocation vol _).bind fun q => ?_
  refine (folded_readSector _ _).bind fun _ => (folded_scratchSlice _ _ _).bind fun _ => ?_
  refine Never.ite (fun _ => never_pure _) fun _ => never_get.bind fun _ => ?_
  refine (folded_adjustFree vol _ _).bind fun _ => (folded_scratchPatch _ _ _).bind fun _ => ?_
  exact (folded_writeSector _ _).bind fun _ => never_modify _

lemma folded_claimFreeCluster (c : ℕ) : Folded (claimFreeCluster vol c) := by
  unfold claimFreeCluster
  refine (folded_bitmapUsed vol c).bind fun _ => Never.ite (fun _ => never_pure _) fun _ => ?_
  refine (folded_clusterLba _ _).bind fun _ => (folded_corrupt _).bind fun _ => ?_
  refine (never_loop (fun i _ => ?_) _ _ _).bind fun r => ?_
  · exact (folded_scratchPatch _ _ _).bind fun _ => (folded_u64 _).bind fun _ =>
      (folded_writeSector _ _).bind fun _ => never_pure _
  · cases r with
    | inl r => exact r.elim
    | inr _ =>
      refine (folded_setBitmap vol _ _).bind fun _ => (folded_setFat vol _ _).bind fun _ => ?_
      exact never_pure _

lemma folded_claimFirstFree (first n : ℕ) : Folded (claimFirstFree vol first n) := by
  unfold claimFirstFree
  refine never_loop (fun c _ => (folded_claimFreeCluster vol c).bind fun r => ?_) _ _ _
  cases r with
  | none => exact never_pure _
  | some c => exact never_pure _

lemma folded_allocateClusterPreferred (preferred : ℕ) :
    Folded (allocateClusterPreferred vol preferred) := by
  unfold allocateClusterPreferred
  refine (folded_corrupt _).bind fun stop => (folded_claimFirstFree vol _ _).bind fun r => ?_
  cases r with
  | inl c => exact never_pure c
  | inr _ =>
    refine (folded_claimFirstFree vol _ _).bind fun r => ?_
    cases r with
    | inl c => exact never_pure c
    | inr _ => exact never_throw (by decide)

lemma folded_readChecksum (checked : Bool) (locs : List EntryLocator) (primary : Bool) (sum : ℕ) :
    Folded (readChecksum vol checked locs primary sum) := by
  induction locs generalizing primary sum with
  | nil => exact never_pure _
  | cons loc locs ih =>
    unfold readChecksum
    refine Never.ite (fun _ => folded_throwCorrupt) fun _ => (folded_readSector _ _).bind
      fun _ => ?_
    exact (folded_scratchSlice _ _ _).bind fun _ => ih _ _

lemma folded_updateStream (file : File) : Folded (updateStream vol file) := by
  unfold updateStream
  refine Never.ite (fun _ => folded_throwCorrupt) fun _ => (folded_readSector _ _).bind fun _ => ?_
  refine Never.ite (fun _ => folded_throwCorrupt) fun _ => (folded_scratchPatch _ _ _).bind
    fun _ => ?_
  refine (folded_scratchPatch _ _ _).bind fun _ => (folded_scratchPatch _ _ _).bind fun _ => ?_
  refine (folded_scratchPatch _ _ _).bind fun _ => (folded_writeSector _ _).bind fun _ => ?_
  refine (folded_readChecksum vol _ _ _ _).bind fun _ => (folded_readSector _ _).bind fun _ => ?_
  refine Never.ite (fun _ => folded_throwCorrupt) fun _ => (folded_scratchPatch _ _ _).bind
    fun _ => ?_
  exact folded_writeSector _ _

lemma folded_growDirectory (dir : Directory) (c base : ℕ) :
    Folded (growDirectory vol dir c base) := by
  unfold growDirectory
  refine (folded_noSpace _).bind fun _ => (folded_allocateClusterPreferred vol _).bind fun _ => ?_
  refine (folded_setFat vol _ _).bind fun _ => (folded_sub _ _).bind fun _ => ?_
  refine (folded_u64 _).bind fun _ => (folded_readSector _ _).bind fun _ => ?_
  refine (never_modify _).bind fun _ => (folded_writeSector _ _).bind fun _ => ?_
  refine Never.ite (fun _ => ?_) fun _ => never_pure _
  refine (folded_bytesPerCluster _).bind fun _ => (folded_noSpace _).bind fun _ => ?_
  refine (folded_corrupt _).bind fun _ => (folded_corrupt _).bind fun _ => ?_
  exact (folded_updateStream vol _).bind fun _ => never_pure _

lemma folded_freeSlot (wanted lba slot run : ℕ) : Folded (freeSlot vol wanted lba slot run) := by
  unfold freeSlot
  refine (folded_scratchSlice _ _ _).lift.bind fun _ => Never.ite (fun _ => ?_) fun _ =>
    never_pure _
  refine (Never.when (never_modifySnd _)).bind fun _ => ?_
  exact Never.ite (fun _ => never_getSnd.bind fun _ => never_pure _) fun _ => never_pure _

lemma folded_freeSector (dir : Directory) (wanted base sector : ℕ) (v : ℕ × ℕ) :
    Folded (freeSector vol dir wanted base sector v) := by
  obtain ⟨run, remaining⟩ := v
  unfold freeSector
  refine Never.ite (fun _ => never_throw (by decide)) fun _ => (folded_u64 _).bind fun _ => ?_
  refine (folded_readSector _ _).lift.bind fun _ => ?_
  refine (never_loop (fun slot run => folded_freeSlot vol _ _ slot run) _ _ _).bind fun r => ?_
  cases r with
  | inl r => exact never_pure _
  | inr run => exact never_pure _

lemma folded_freeCluster (dir : Directory) (wanted : ℕ) (v : ℕ × ℕ × ℕ) :
    Folded (freeCluster vol dir wanted v) := by
  obtain ⟨cluster, run, remaining⟩ := v
  unfold freeCluster
  refine (folded_clusterLba _ _).bind fun _ => (folded_corrupt _).bind fun _ => ?_
  refine (never_loop (fun sector v => folded_freeSector vol _ _ _ sector v) _ _ _).bind fun r => ?_
  rcases r with r | ⟨run, remaining⟩
  · exact never_pure _
  refine Never.ite (fun _ => never_throw (by decide)) fun _ => ?_
  refine (folded_nextCluster vol _).lift.bind fun next => ?_
  refine Never.ite (fun _ => ?_) fun _ => ?_
  · exact Never.ite (fun _ => folded_throwCorrupt) fun _ => never_pure _
  refine (folded_growDirectory vol _ _ _).lift.bind fun p => ?_
  refine Never.ite (fun _ => ?_) fun _ => never_pure _
  refine (folded_clusterLba _ _).bind fun _ => (folded_corrupt _).bind fun _ => ?_
  refine (folded_sub _ _).bind fun _ => Never.ite (fun _ => ?_) fun _ => never_pure _
  exact (never_modifySnd _).bind fun _ => never_getSnd.bind fun _ => never_pure _

lemma folded_findFreeEntries (dir : Directory) (wanted : ℕ) :
    Folded (findFreeEntries vol dir wanted) := by
  unfold findFreeEntries
  refine Never.ite (fun _ => folded_throwCorrupt) fun _ => ?_
  refine (never_loop (fun _ dir => ?_) _ _ _).bind fun r => ?_
  · unfold freeScan
    refine (never_modifySnd _).bind fun _ => ?_
    refine (never_loop (fun _ v => folded_freeCluster vol dir wanted v) _ _ _).bind fun r => ?_
    cases r with
    | inl r => exact never_pure r
    | inr _ => exact folded_throwCorrupt
  · cases r with
    | inl locators => exact never_pure locators
    | inr _ => exact never_panic

lemma folded_followCluster (noFatChain : Bool) (c : ℕ) : Folded (followCluster vol noFatChain c) :=
  Never.ite (fun _ => folded_corrupt _) fun _ => folded_nextCluster vol c

lemma folded_truncateRound (noFatChain : Bool) (c : ℕ) : Folded (truncateRound vol noFatChain c) :=
  (folded_followCluster vol _ _).bind fun _ => (folded_setFat vol _ _).bind fun _ =>
    (folded_setBitmap vol _ _).bind fun _ => never_pure _

lemma folded_truncateClusters (keep allocated clusterBytes : ℕ) :
    Folded (truncateClusters vol keep allocated clusterBytes) := by
  have hshrink : Folded (truncateClusters.shrink keep clusterBytes) :=
    (folded_corrupt _).bind fun _ => never_modifySnd _
  unfold truncateClusters
  refine never_getSnd.bind fun file => Never.ite (fun _ => ?_) fun _ => ?_
  · have hall : Folded (releaseAll vol file allocated) :=
      (never_loop (fun _ c => folded_truncateRound vol _ c) _ _ _).bind fun _ => never_pure _
    exact hall.lift.bind fun _ => (never_modifySnd _).bind fun _ => hshrink
  · have hlast : Folded (lastKept vol file keep) := by
      unfold lastKept
      refine Never.ite (fun _ => ?_) fun _ => folded_clusterAt vol _ _
      exact (folded_corrupt _).bind fun _ => (folded_corrupt _).bind fun _ => folded_corrupt _
    have htail : Folded (releaseTail vol file keep allocated) :=
      hlast.bind fun _ => (folded_followCluster vol _ _).bind fun _ => (folded_setFat vol _ _).bind
        fun _ => (never_loop (fun _ c => folded_truncateRound vol _ c) _ _ _).bind
          fun _ => never_pure _
    exact htail.lift.bind fun _ => hshrink

lemma folded_truncate (len : ℕ) : Folded (truncate vol len) := by
  have hclusters (len bytes : ℕ) : Folded (clustersOf len bytes) :=
    Never.ite (fun _ => never_pure _) fun _ => folded_divCeil _ _
  unfold truncate
  refine never_getSnd.bind fun file => Never.ite (fun _ => never_throw (by decide)) fun _ => ?_
  refine (folded_bytesPerCluster _).bind fun _ => (hclusters _ _).lift.bind fun _ => ?_
  refine (hclusters _ _).lift.bind fun _ => (Never.when (folded_truncateClusters vol _ _ _)).bind ?_
  exact fun _ => (never_modifySnd _).bind fun _ => never_getSnd.bind fun _ =>
    (folded_updateStream vol _).lift

end Errors

/-! ### Comparing with a name of ASCII -/

/-- The UpCase image of a unit of ASCII. -/
def asciiFold (unit : ℕ) : ℕ := if 0x61 ≤ unit ∧ unit ≤ 0x7a then unit - 0x61 + 0x41 else unit

/-- A stored unit of ASCII and the one wanted, the same but for the case of a letter. -/
def FoldAlike (p : ℕ × ℕ) : Prop := p.1 ≤ 0x7f ∧ asciiFold p.1 = asciiFold p.2

/-- The entry has the name wanted, but for the case of letters. -/
def SameAscii (wanted : List ℕ) (e : DirectoryEntry) : Prop :=
  e.nameUtf16.length = wanted.length ∧ ∀ p ∈ e.nameUtf16.zip wanted, FoldAlike p

/-- The name has the length wanted, and its first unit beyond ASCII comes behind units which
agree. -/
def Blocks (wanted : List ℕ) (e : DirectoryEntry) : Prop :=
  e.nameUtf16.length = wanted.length ∧ ∃ front p rest, e.nameUtf16.zip wanted = front ++ p :: rest ∧
    (∀ q ∈ front, FoldAlike q) ∧ 0x7f < p.1

/-- What a comparison comes to without the table. -/
inductive Compared : List (ℕ × ℕ) → Outcome Error Bool → Prop
  | same {pairs : List (ℕ × ℕ)} (h : ∀ p ∈ pairs, FoldAlike p) : Compared pairs (.ok true)
  | other {front rest : List (ℕ × ℕ)} {p : ℕ × ℕ} (h : ∀ q ∈ front, FoldAlike q) (hp : p.1 ≤ 0x7f)
      (hne : asciiFold p.1 ≠ asciiFold p.2) : Compared (front ++ p :: rest) (.ok false)
  | blocked {front rest : List (ℕ × ℕ)} {p : ℕ × ℕ} (h : ∀ q ∈ front, FoldAlike q)
    (hp : 0x7f < p.1) :
      Compared (front ++ p :: rest) (.err .upcaseTableCorrupt)

section Compare

variable {vol vol' : Volume} {s s' : Machine} {unit : ℕ} {pairs : List (ℕ × ℕ)}

lemma upcaseUnit_ascii (h : unit ≤ 0x7f) : upcaseUnit vol unit s = (.ok (asciiFold unit), s) := by
  unfold upcaseUnit asciiFold
  rw [if_pos h]
  split_ifs
  · rfl
  · rfl

lemma upcaseUnit_damaged (hvalid : vol.upcaseValid = false) (h : 0x7f < unit) :
    upcaseUnit vol unit s = (.err .upcaseTableCorrupt, s) := by
  unfold upcaseUnit
  rw [if_neg (by omega), hvalid]
  rfl

lemma Compared.cons {p : ℕ × ℕ} {o : Outcome Error Bool} (hp : FoldAlike p) (h : Compared pairs o) :
    Compared (p :: pairs) o := by
  have hfront {front : List (ℕ × ℕ)} (hall : ∀ q ∈ front, FoldAlike q) : ∀ q ∈ p :: front,
      FoldAlike q :=
    List.forall_mem_cons.mpr ⟨hp, hall⟩
  cases h with
  | same h => exact .same (hfront h)
  | other h hp' hne => exact .other (hfront h) hp' hne
  | blocked h hp' => exact .blocked (hfront h) hp'

lemma namesMatchLoop_damaged (hvalid : vol.upcaseValid = false) (h : ∀ p ∈ pairs, p.2 ≤ 0x7f) :
    ∃ o, namesMatchLoop vol pairs s = (o, s) ∧ Compared pairs o := by
  induction pairs with
  | nil => exact ⟨.ok true, rfl, .same nofun⟩
  | cons p pairs ih =>
    obtain ⟨left, right⟩ := p
    obtain ⟨hright, hrest⟩ := List.forall_mem_cons.mp h
    unfold namesMatchLoop
    rcases Nat.lt_or_ge 0x7f left with hbeyond | hleft
    · refine ⟨_, bind_err (upcaseUnit_damaged hvalid hbeyond), ?_⟩
      exact @Compared.blocked [] pairs (left, right) nofun hbeyond
    · rw [bind_ok (upcaseUnit_ascii hleft), bind_ok (upcaseUnit_ascii hright)]
      by_cases heq : asciiFold left = asciiFold right
      · obtain ⟨o, hrun, ho⟩ := ih hrest
        rw [if_neg (not_not.mpr heq)]
        exact ⟨o, hrun, ho.cons ⟨hleft, heq⟩⟩
      · rw [if_pos heq]
        exact ⟨_, rfl, @Compared.other [] pairs (left, right) nofun hleft heq⟩

lemma namesMatchLoop_intact {b : Bool} (h : ∀ p ∈ pairs, p.2 ≤ 0x7f) (hb : Compared pairs (.ok b)) :
    namesMatchLoop vol pairs s = (.ok b, s) := by
  generalize ho : Outcome.ok b = o at hb
  have hagree {front : List (ℕ × ℕ)} (hall : ∀ q ∈ front, FoldAlike q) (rest : List (ℕ × ℕ))
      (hfront : ∀ q ∈ front, q.2 ≤ 0x7f) :
      namesMatchLoop vol (front ++ rest) s = namesMatchLoop vol rest s := by
    induction front with
    | nil => rfl
    | cons q front ih =>
      obtain ⟨left, right⟩ := q
      obtain ⟨⟨hleft, heq⟩, hall⟩ := List.forall_mem_cons.mp hall
      obtain ⟨hright, hfront⟩ := List.forall_mem_cons.mp hfront
      rw [List.cons_append, namesMatchLoop, bind_ok (upcaseUnit_ascii hleft),
        bind_ok (upcaseUnit_ascii hright), if_neg (not_not.mpr heq)]
      exact ih hall hfront
  cases hb with
  | same hall =>
    cases ho
    have hrun := hagree hall [] h
    rwa [List.append_nil] at hrun
  | @other front rest p hall hp hne =>
    cases ho
    obtain ⟨left, right⟩ := p
    have hright : right ≤ 0x7f := h (left, right) (by simp)
    rw [hagree hall _ fun q hq => h q (by simp [hq]), namesMatchLoop, bind_ok (upcaseUnit_ascii hp),
      bind_ok (upcaseUnit_ascii hright), if_pos hne]
    rfl
  | blocked => cases ho

variable {wanted : List ℕ} {e : DirectoryEntry}

lemma SameAscii.not_blocks (h : SameAscii wanted e) : ¬ Blocks wanted e := by
  rintro ⟨-, front, p, rest, hsplit, -, hbeyond⟩
  have hp : p ∈ e.nameUtf16.zip wanted := by
    rw [hsplit]
    simp
  have hlow := (h.2 p hp).1
  omega

lemma zip_ascii (hw : ∀ u ∈ wanted, u ≤ 0x7f) : ∀ p ∈ e.nameUtf16.zip wanted, p.2 ≤ 0x7f :=
  fun _ hp => hw _ (List.of_mem_zip hp).2

lemma judge_damaged (hvalid : vol.upcaseValid = false) (hw : ∀ u ∈ wanted, u ≤ 0x7f) :
    (judge vol s wanted e = .ok true ∧ SameAscii wanted e) ∨
      (judge vol s wanted e = .ok false ∧ ¬ SameAscii wanted e ∧ ¬ Blocks wanted e) ∨
      (judge vol s wanted e = .err .upcaseTableCorrupt ∧ ¬ SameAscii wanted e ∧
        Blocks wanted e) := by
  unfold judge namesMatch
  by_cases hlen : e.nameUtf16.length = wanted.length
  swap
  · rw [if_pos hlen]
    exact .inr (.inl ⟨rfl, fun h => hlen h.1, fun h => hlen h.1⟩)
  rw [if_neg (not_not.mpr hlen)]
  obtain ⟨o, hrun, ho⟩ := @namesMatchLoop_damaged vol s _ hvalid (zip_ascii (e := e) hw)
  rw [hrun]
  generalize hpairs : e.nameUtf16.zip wanted = pairs at ho
  cases ho with
  | same h => exact .inl ⟨rfl, hlen, fun p hp => h p (hpairs ▸ hp)⟩
  | @other front rest p h hp hne =>
    refine .inr (.inl ⟨rfl, fun hsame => ?_, fun hblocks => ?_⟩)
    · exact hne (hsame.2 p (by rw [hpairs]; simp)).2
    · obtain ⟨-, front', p', rest', hsplit, hagree, hbeyond⟩ := hblocks
      rw [hpairs] at hsplit
      rcases List.append_eq_append_iff.mp hsplit with ⟨mid, hfront, hmid⟩ | ⟨mid, hfront, hmid⟩
      · cases mid with
        | nil =>
          rw [List.nil_append] at hmid
          cases hmid
          omega
        | cons q mid =>
          cases hmid
          exact hne (hagree p (by rw [hfront]; simp)).2
      · cases mid with
        | nil =>
          rw [List.nil_append] at hmid
          cases hmid
          omega
        | cons q mid =>
          cases hmid
          have := (h p' (by rw [hfront]; simp)).1
          omega
  | @blocked front rest p h hp =>
    refine .inr (.inr ⟨rfl, fun hsame => ?_, hlen, front, p, rest, hpairs, h, hp⟩)
    have := (hsame.2 p (by rw [hpairs]; simp)).1
    omega

lemma judge_intact {b : Bool} (hvalid : vol.upcaseValid = false) (hw : ∀ u ∈ wanted, u ≤ 0x7f)
    (h : judge vol s wanted e = .ok b) : judge vol' s' wanted e = .ok b := by
  unfold judge namesMatch at h ⊢
  by_cases hlen : e.nameUtf16.length = wanted.length
  swap
  · rw [if_pos hlen] at h ⊢
    exact h
  rw [if_neg (not_not.mpr hlen)] at h ⊢
  obtain ⟨o, hrun, ho⟩ := @namesMatchLoop_damaged vol s _ hvalid (zip_ascii (e := e) hw)
  rw [hrun] at h
  change o = .ok b at h
  subst h
  rw [namesMatchLoop_intact (zip_ascii hw) ho]

end Compare

end ExfatEmbedded.Folding
