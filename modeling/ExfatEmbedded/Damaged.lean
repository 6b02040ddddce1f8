import ExfatEmbedded.Components

/-!
ASCII paths on a volume whose UpCase table is damaged.

A stored name of the length wanted whose first unit beyond ASCII comes behind units which match
ends the search where it is met.
-/

namespace ExfatEmbedded.Damaged

open ExfatEmbedded.Library Exec ExfatEmbedded.Core ExfatEmbedded.Entry ExfatEmbedded.Allocation
open ExfatEmbedded.Lookup ExfatEmbedded.FileIo ExfatEmbedded.EntryWrite ExfatEmbedded.Mutation
open ExfatEmbedded.Mount ExfatEmbedded.Reading ExfatEmbedded.Scan ExfatEmbedded.Sets
open ExfatEmbedded.Listing ExfatEmbedded.ReadSafety ExfatEmbedded.MountSafety ExfatEmbedded.Tree
open ExfatEmbedded.Decoding ExfatEmbedded.Layout ExfatEmbedded.Search ExfatEmbedded.Renaming
open ExfatEmbedded.Removal ExfatEmbedded.Folding ExfatEmbedded.Components

/-- A search on the path is blocked by a name which goes beyond ASCII. -/
inductive Barred (g : Geometry) (d : Sectors) : Directory → List (List Char) → Prop
  | here {dir : Directory} {name : List Char} {rest : List (List Char)}
      (h : BlockedIn g d dir name) : Barred g d dir (name :: rest)
  | inside {dir dir' : Directory} {name : List Char} {rest : List (List Char)} {e : DirectoryEntry}
      (h : Leads g d dir name e) (hdir : e.directory = some dir') (hrest : Barred g d dir' rest) :
      Barred g d dir (name :: rest)

/-- A volume whose UpCase table is damaged. -/
structure DamagedVolume (vol : Volume) (s : Machine) : Prop where
  mounted : MountedOn vol s
  invalid : vol.upcaseValid = false
  scratch : vol.geometry.bytesPerSector ≤ s.scratch.len
  healthy : Healthy s

/-- The volume with an UpCase table which is intact. -/
structure Repaired (vol : Volume) (s : Machine) (vol' : Volume) (s' : Machine) : Prop where
  mounted : MountedOn vol' s'
  valid : vol'.upcaseValid = true
  geometry : vol'.geometry = vol.geometry
  scratch : vol'.geometry.bytesPerSector ≤ s'.scratch.len
  healthy : Healthy s'
  directories : SameDirectories vol.geometry s.device.sectors s'.device.sectors

section Paths

variable {vol vol' : Volume} {s s' : Machine} {dir : Directory} {name : List Char}
  {t t' : Machine × Workspace}

lemma Barred.append {g : Geometry} {d : Sectors} {names : List (List Char)}
    (h : Barred g d dir names) (rest : List (List Char)) : Barred g d dir (names ++ rest) := by
  induction h with
  | here h => exact .here h
  | inside h hdir _ ih => exact .inside h hdir ih

lemma DamagedVolume.ready (h : DamagedVolume vol s) : Ready vol.geometry s :=
  ⟨h.mounted.sound, h.scratch⟩

lemma DamagedVolume.table (h : DamagedVolume vol s) :
    vol.upcaseValid = true → TableSound vol.geometry vol.upcase := by
  intro hvalid
  rw [h.invalid] at hvalid
  cases hvalid

lemma Repaired.table (h : Repaired vol s vol' s') :
    vol'.upcaseValid = true → TableSound vol'.geometry vol'.upcase := h.mounted.table

variable (hvol : DamagedVolume vol s)

include hvol

lemma seekName_damaged (hascii : ∀ c ∈ name, c.toNat ≤ 0x7f) (ht : Idle vol s t) :
    (BlockedIn vol.geometry s.device.sectors dir name ∧
        (seekName vol dir name t).1 = .err .upcaseTableCorrupt) ∨
      (¬ BlockedIn vol.geometry s.device.sectors dir name ∧
        (seekName vol dir name t).1 ≠ .err .upcaseTableCorrupt ∧
        (∀ e, (seekName vol dir name t).1 = .ok (some e) ↔
          Leads vol.geometry s.device.sectors dir name e) ∧
        (∀ e, (seekName vol dir name t).1 = .ok (some e) → Idle vol s (seekName vol dir name t).2) ∧
        ∀ vol' s', Repaired vol s vol' s' → Reached vol.geometry s.device.sectors dir →
          ∀ t', Idle vol' s' t' → (seekName vol' dir name t').1 = (seekName vol dir name t).1 ∧
            ∀ e, (seekName vol' dir name t').1 = .ok (some e) →
              Idle vol' s' (seekName vol' dir name t').2) := by
  by_cases hname : ValidName name
  swap
  · obtain ⟨x, hx, hrun⟩ := @seekName_invalid dir name hname
    refine .inr ⟨fun h => hname h.1, ?_, fun e => ⟨fun h => ?_, fun h => absurd h.1 hname⟩, ?_, ?_⟩
    · rw [hrun]
      intro heq
      cases heq
      exact hx rfl
    · rw [hrun] at h
      cases h
    · intro e h
      rw [hrun] at h
      cases h
    · intro vol' s' _ _ t' _
      refine ⟨by rw [hrun, hrun], fun e h => ?_⟩
      rw [hrun] at h
      cases h
  -- the outcome of a run, with its end and its state
  have hend {v : Volume} {r : Machine} (hready : Ready v.geometry r)
      (htable : v.upcaseValid = true → TableSound v.geometry v.upcase) (hr : Healthy r)
      {u : Machine × Workspace} (hu : Idle v r u) :
      Finds v.geometry r.device.sectors dir (judge v r (utf16Of name)) (seekName v dir name u).1 ∧
        ∀ e, (seekName v dir name u).1 = .ok (some e) → Idle v r (seekName v dir name u).2 := by
    have hspec := @seekName_finds v r dir name hready htable hr hname u hu
    rcases hrun : seekName v dir name u with ⟨o | x | _, w⟩
    · obtain ⟨hfinds, hidle⟩ := (wp_ok hrun).mp hspec
      refine ⟨hfinds, fun e he => hidle e (Outcome.ok.inj he)⟩
    · exact ⟨(wp_err hrun).mp hspec, nofun⟩
    · unfold wp at hspec
      rw [hrun] at hspec
      exact hspec.elim
  obtain ⟨hfinds, hidle⟩ := hend hvol.ready hvol.table hvol.healthy ht
  rcases finds_damaged hvol.invalid hascii hname hfinds with ⟨hblocked, ho⟩ | ⟨hblocked, ho, hleads⟩
  · exact .inl ⟨hblocked, ho⟩
  refine .inr ⟨hblocked, ho, hleads, hidle, fun vol' s' hrep hreached t' ht' => ?_⟩
  obtain ⟨hfinds', hidle'⟩ := hend ⟨hrep.mounted.sound, hrep.scratch⟩ hrep.table hrep.healthy ht'
  refine ⟨?_, hidle'⟩
  rw [hrep.geometry] at hfinds'
  have hsame : Finds vol.geometry s'.device.sectors dir (judge vol' s' (utf16Of name))
      (seekName vol dir name t).1 := by
    refine finds_transfer hfinds hrep.directories hreached (fun e => ?_) ho
    rcases @judge_damaged vol s (utf16Of name) e hvol.invalid (utf16Of_ascii hascii) with
      ⟨hb, -⟩ | ⟨hb, -⟩ | ⟨hb, -⟩
    · exact .inr ⟨true, hb, judge_intact hvol.invalid (utf16Of_ascii hascii) hb⟩
    · exact .inr ⟨false, hb, judge_intact hvol.invalid (utf16Of_ascii hascii) hb⟩
    · exact .inl hb
  exact hfinds'.unique hsame

/-- How a program which looks for an entry ends with the damaged table, and with one which is
intact. -/
def EndsAlike (vol : Volume) (s : Machine) (barred : Prop) (m : Volume → WsM DirectoryEntry)
    (t : Machine × Workspace) : Prop :=
  (barred ∧ (m vol t).1 = .err .upcaseTableCorrupt) ∨
    (¬ barred ∧ (m vol t).1 ≠ .err .upcaseTableCorrupt ∧
      (∀ e, (m vol t).1 = .ok e → Idle vol s (m vol t).2) ∧
      ∀ vol' s', Repaired vol s vol' s' → ∀ t', Idle vol' s' t' → (m vol' t').1 = (m vol t).1)

omit hvol in
lemma endsAlike_throw (x : Error) (hx : x ≠ .upcaseTableCorrupt) {barred : Prop}
    (h : ¬ barred) : EndsAlike vol s barred (fun _ => throw x) t :=
  .inr ⟨h, fun heq => hx (by cases heq; rfl), by rintro _ ⟨⟩, fun _ _ _ _ _ => rfl⟩

/-- How a lookup ends when a search ends so, without an entry. -/
def stopped : Outcome Error (Option DirectoryEntry) → Outcome Error DirectoryEntry
  | .ok _ => .err .pathNotFound
  | .err x => .err x
  | .panic => .panic

omit hvol in
lemma lookupFrom_stopped {rest : List (List Char)}
    (hno : ∀ e, (seekName vol dir name t).1 ≠ .ok (some e)) :
    (lookupFrom vol dir name rest t).1 = stopped (seekName vol dir name t).1 := by
  rw [lookupFrom_goOn]
  rcases hrun : seekName vol dir name t with ⟨(_ | e) | x | _, u⟩
  · rw [bind_ok hrun]
    rfl
  · exact absurd (congrArg Prod.fst hrun) (hno e)
  · rw [bind_err hrun]
    rfl
  · rw [bind_apply, hrun]
    rfl

omit hvol in
lemma stopped_ne {o : Outcome Error (Option DirectoryEntry)} (h : o ≠ .err .upcaseTableCorrupt) :
    stopped o ≠ .err .upcaseTableCorrupt ∧ ∀ e, stopped o ≠ .ok e := by
  rcases o with o | x | _
  · exact ⟨by rintro ⟨⟩, by rintro e ⟨⟩⟩
  · refine ⟨fun heq => h ?_, by rintro e ⟨⟩⟩
    cases heq
    rfl
  · exact ⟨by rintro ⟨⟩, by rintro e ⟨⟩⟩

omit hvol in
lemma barred_iff {rest : List (List Char)} {e : DirectoryEntry}
    (hblocked : ¬ BlockedIn vol.geometry s.device.sectors dir name)
    (hlead : ∀ x, Leads vol.geometry s.device.sectors dir name x ↔ x = e) :
    Barred vol.geometry s.device.sectors dir (name :: rest) ↔
      ∃ dir', e.directory = some dir' ∧ Barred vol.geometry s.device.sectors dir' rest := by
  constructor
  · rintro (h | ⟨h, hdir, hrest⟩)
    · exact absurd h hblocked
    · rw [(hlead _).mp h] at hdir
      exact ⟨_, hdir, hrest⟩
  · rintro ⟨dir', hdir, hrest⟩
    exact .inside ((hlead e).mpr rfl) hdir hrest

/-- One component, and what the lookup does with its entry. -/
lemma endsAlike_component {rest : List (List Char)}
    (hreached : Reached vol.geometry s.device.sectors dir)
    (hascii : ∀ c ∈ name, c.toNat ≤ 0x7f) (ht : Idle vol s t)
    (hgo : ∀ e u, Leads vol.geometry s.device.sectors dir name e → Idle vol s u →
      EndsAlike vol s (∃ dir', e.directory = some dir' ∧
        Barred vol.geometry s.device.sectors dir' rest) (fun v => goOn v rest e) u) :
    EndsAlike vol s (Barred vol.geometry s.device.sectors dir (name :: rest))
      (fun v => lookupFrom v dir name rest) t := by
  unfold EndsAlike
  beta_reduce
  rcases @seekName_damaged vol s dir name t hvol hascii ht with
    ⟨hblocked, ho⟩ | ⟨hblocked, ho, hleads, hidle, hsame⟩
  · exact .inl ⟨.here hblocked, by rw [lookupFrom_goOn, bind_err (run_eq ho)]⟩
  by_cases hfound : ∃ e, (seekName vol dir name t).1 = .ok (some e)
  swap
  · -- the search ends the lookup
    rw [not_exists] at hfound
    obtain ⟨hne, hno⟩ := stopped_ne ho
    refine .inr ⟨?_, ?_, fun e he => ?_, fun vol' s' hrep t' ht' => ?_⟩
    · rintro (h | ⟨h, -, -⟩)
      · exact hblocked h
      · exact hfound _ ((hleads _).mpr h)
    · rwa [lookupFrom_stopped hfound]
    · rw [lookupFrom_stopped hfound] at he
      exact absurd he (hno e)
    · have hout := (hsame vol' s' hrep hreached t' ht').1
      rw [lookupFrom_stopped hfound, lookupFrom_stopped (by rwa [hout]), hout]
  obtain ⟨e, he⟩ := hfound
  have hlead (x : DirectoryEntry) : Leads vol.geometry s.device.sectors dir name x ↔ x = e := by
    rw [← hleads x, he, Outcome.ok.injEq, Option.some.injEq, eq_comm]
  have hfollow {v : Volume} {u : Machine × Workspace} (hu : (seekName v dir name u).1 = .ok
    (some e)) :
      lookupFrom v dir name rest u = goOn v rest e (seekName v dir name u).2 := by
    rw [lookupFrom_goOn, bind_ok (run_eq hu), okOr_some, pure_bind]
  rw [barred_iff hblocked hlead, hfollow he]
  refine (hgo e _ ((hlead e).mpr rfl) (hidle e he)).imp_right fun ⟨hb, hne, hcalm, halike⟩ => ?_
  refine ⟨hb, hne, hcalm, fun vol' s' hrep t' ht' => ?_⟩
  obtain ⟨hout, hnext⟩ := hsame vol' s' hrep hreached t' ht'
  rw [he] at hout
  rw [hfollow hout]
  exact halike vol' s' hrep _ (hnext e hout)

lemma lookupFrom_damaged {rest : List (List Char)}
    (hreached : Reached vol.geometry s.device.sectors dir)
    (hascii : ∀ n ∈ name :: rest, ∀ c ∈ n, c.toNat ≤ 0x7f) (ht : Idle vol s t) :
    EndsAlike vol s (Barred vol.geometry s.device.sectors dir (name :: rest))
      (fun v => lookupFrom v dir name rest) t := by
  induction rest generalizing dir name t with
  | nil =>
    refine endsAlike_component hvol hreached (hascii name (by simp)) ht fun e u _ hu => ?_
    refine .inr ⟨?_, by rintro ⟨⟩, fun _ _ => hu, fun _ _ _ _ _ => rfl⟩
    rintro ⟨_, -, ⟨⟩⟩
  | cons next rest ih =>
    refine endsAlike_component hvol hreached (hascii name (by simp)) ht fun e u hlead hu => ?_
    simp only [goOn]
    rcases hdir : e.directory with _ | dir'
    · refine endsAlike_throw .notDirectory (by decide) ?_
      rintro ⟨_, ⟨⟩, -⟩
    · have hrest := @ih dir' next u (hlead.reached hreached hdir)
        (fun n hn => hascii n (List.mem_cons_of_mem _ hn)) hu
      simpa only [Option.some.injEq, exists_eq_left', okOr_some, pure_bind] using hrest

/-- How a lookup ends, with the damaged table and with one which is intact. -/
theorem lookup_damaged {path : List Char} (hascii : ∀ c ∈ path, c.toNat ≤ 0x7f)
    (ht : Idle vol s t) :
    (Barred vol.geometry s.device.sectors (Directory.root vol.geometry) (segments path) ∧
        (lookupWithWorkspace vol path t).1 = .err .upcaseTableCorrupt) ∨
      (¬ Barred vol.geometry s.device.sectors (Directory.root vol.geometry) (segments path) ∧
        (lookupWithWorkspace vol path t).1 ≠ .err .upcaseTableCorrupt ∧
        (∀ e, (lookupWithWorkspace vol path t).1 = .ok e →
          Idle vol s (lookupWithWorkspace vol path t).2) ∧
        ∀ vol' s', Repaired vol s vol' s' → ∀ t', Idle vol' s' t' →
          (lookupWithWorkspace vol' path t').1 = (lookupWithWorkspace vol path t).1) := by
  have hnames := segments_ascii hascii
  unfold lookupWithWorkspace
  rcases hpath : segments path with _ | ⟨name, rest⟩
  · refine .inr ⟨nofun, nofun, nofun, fun _ _ _ _ _ => rfl⟩
  · rw [hpath] at hnames
    rcases lookupFrom_damaged hvol .root hnames ht with hbarred | ⟨hbarred, ho, hidle, hsame⟩
    · exact .inl hbarred
    · refine .inr ⟨hbarred, ho, hidle, fun vol' s' hrep t' ht' => ?_⟩
      rw [hrep.geometry]
      exact hsame vol' s' hrep t' ht'

end Paths

/-! ### Creation -/

section Creation

variable {vol : Volume} {s : Machine} {units : List ℕ}

/-- The units of the workspace are `units`. -/
abbrev Has (units : List ℕ) (t : Machine × Workspace) : Prop := t.2.utf16 = units

lemma keeps_lift {α : Type} (m : FsM α) : Preserves (Has units) (liftM m : WsM α) := by
  intro t ht
  rw [leaves_lift]
  unfold leaves
  beta_reduce
  split
  · exact ht
  · exact ht
  · exact ht

lemma keeps_locators (f : List EntryLocator → List EntryLocator) :
    Preserves (Has units) (modifyLocators f) := fun _ h => h

lemma keeps_workspace : Preserves (Has units) (getSnd : WsM Workspace) := fun _ h => h

lemma keeps_clusterLba (g : Geometry) (c : ℕ) :
    Preserves (Has units) (g.clusterLba c : WsM (Option ℕ)) :=
  Preserves.ite (fun _ => Preserves.bind ((Preserves.assert _).bind fun _ => Preserves.pure _)
    fun _ => Preserves.pure _) fun _ => Preserves.pure _

lemma freeSlot_keeps (wanted lba slot run : ℕ) :
    Preserves (Has units) (freeSlot vol wanted lba slot run) := by
  unfold freeSlot
  refine (keeps_lift _).bind fun raw => Preserves.ite (fun _ => ?_) fun _ => Preserves.pure _
  refine (Preserves.when (keeps_locators _)).bind fun _ => ?_
  exact Preserves.ite (fun _ => keeps_workspace.bind fun _ => Preserves.pure _) fun _ =>
    Preserves.pure _

lemma freeSector_keeps (dir : Directory) (wanted base sector : ℕ) (v : ℕ × ℕ) :
    Preserves (Has units) (freeSector vol dir wanted base sector v) := by
  obtain ⟨run, remaining⟩ := v
  unfold freeSector
  refine Preserves.ite (fun _ => Preserves.throw _) fun _ => ?_
  refine ((Preserves.assert _).bind fun _ => Preserves.pure _).bind fun lba => ?_
  refine (keeps_lift _).bind fun _ => ?_
  refine (Preserves.loop (fun slot run => freeSlot_keeps _ _ slot run) _ _ _).bind fun r => ?_
  cases r with
  | inl r => exact Preserves.pure _
  | inr run => exact Preserves.pure _

lemma freeCluster_keeps (dir : Directory) (wanted : ℕ) (v : ℕ × ℕ × ℕ) :
    Preserves (Has units) (freeCluster vol dir wanted v) := by
  obtain ⟨cluster, run, remaining⟩ := v
  unfold freeCluster
  refine (keeps_clusterLba _ _).bind fun _ => (Preserves.okOr _ _).bind fun base => ?_
  refine (Preserves.loop (fun sector v => freeSector_keeps dir wanted base sector v) _ _ _).bind ?_
  rintro (r | ⟨run, remaining⟩)
  · exact Preserves.pure _
  refine Preserves.ite (fun _ => Preserves.throw _) fun _ => (keeps_lift _).bind fun next => ?_
  refine Preserves.ite (fun _ => Preserves.ite (fun _ => Preserves.throw _) fun _ =>
    Preserves.pure _) fun _ => (keeps_lift _).bind fun p => ?_
  refine Preserves.ite (fun _ => ?_) fun _ => Preserves.pure _
  refine (keeps_clusterLba _ _).bind fun _ => (Preserves.okOr _ _).bind fun newLba => ?_
  refine ((Preserves.assert _).bind fun _ => Preserves.pure _).bind fun needed => ?_
  refine Preserves.ite (fun _ => ?_) fun _ => Preserves.pure _
  exact (keeps_locators _).bind fun _ => keeps_workspace.bind fun _ => Preserves.pure _

lemma findFreeEntries_keeps (dir : Directory) (wanted : ℕ) :
    Preserves (Has units) (findFreeEntries vol dir wanted) := by
  have hscan (dir : Directory) : Preserves (Has units) (freeScan vol wanted dir) := by
    unfold freeScan
    refine (keeps_locators _).bind fun _ => ?_
    refine (Preserves.loop (fun _ v => freeCluster_keeps dir wanted v) _ _ _).bind fun r => ?_
    cases r with
    | inl r => exact Preserves.pure _
    | inr _ => exact Preserves.throw _
  unfold findFreeEntries
  refine Preserves.ite (fun _ => Preserves.throw _) fun _ => ?_
  refine (Preserves.loop (fun _ dir => hscan dir) _ _ _).bind fun r => ?_
  cases r with
  | inl r => exact Preserves.pure _
  | inr _ => exact Preserves.panic

lemma folded_upcaseNameHash {name : List ℕ} (h : ∀ u ∈ name, u ≤ 0x7f) (sum : ℕ) :
    Folded (upcaseNameHash vol name sum) := by
  induction name generalizing sum with
  | nil => exact never_pure sum
  | cons u name ih =>
    obtain ⟨hu, hname⟩ := List.forall_mem_cons.mp h
    unfold upcaseNameHash
    refine Never.bind (fun s => ?_) fun folded => ih hname _
    rw [upcaseUnit_ascii hu]
    rintro ⟨⟩

lemma folded_writeEntrySet {locs : List EntryLocator} {c : NewEntrySet}
    (h : ∀ u ∈ c.name, u ≤ 0x7f) :
    Folded (writeEntrySet vol locs c) := by
  have hpatch (loc : EntryLocator) (off : ℕ) (bs : List UInt8) :
      Folded (patchSlot vol loc off bs) :=
    (folded_readSector _ _).bind fun _ => (folded_scratchPatch _ _ _).bind fun _ =>
      folded_writeSector _ _
  have hslots (count hash : ℕ) (ls : List EntryLocator) (index sum : ℕ) :
      Folded (writeSlots vol c count hash ls index sum) := by
    induction ls generalizing index sum with
    | nil => exact never_pure _
    | cons loc ls ih =>
      unfold writeSlots
      exact Never.ite (fun _ => folded_throwCorrupt) fun _ => (hpatch _ _ _).bind fun _ => ih _ _
  unfold writeEntrySet
  refine Never.ite (fun _ => folded_throwCorrupt) fun _ => ?_
  exact (folded_upcaseNameHash h 0).bind fun hash => (hslots _ _ _ _ _).bind fun _ => hpatch _ _ _

lemma folded_createFresh {name : List Char} (h : ∀ c ∈ name, c.toNat ≤ 0x7f) (parent : Directory) :
    Folded (createFresh vol parent name) := by
  intro t
  by_cases hname : ValidName name
  swap
  · obtain ⟨x, hx, hrun⟩ := utf8ToUtf16_invalid hname
    have herr : onUtf16 (utf8ToUtf16 name) t =
        (.err x, (t.1, { t.2 with utf16 := (utf8ToUtf16 name t.2.utf16).2 })) := by
      unfold onUtf16
      rw [run_eq (hrun t.2.utf16)]
    unfold createFresh
    rw [bind_err herr]
    intro heq
    cases heq
    exact hx rfl
  obtain ⟨len, u, hunits, -, htake⟩ := exists_of_wp (@utf8ToUtf16_takes name t.2.utf16 hname)
  have hconvert : onUtf16 (utf8ToUtf16 name) t = (.ok len, (t.1, { t.2 with utf16 := u })) := by
    unfold onUtf16
    rw [hunits]
  unfold createFresh
  rw [bind_ok hconvert]
  have hkeep := (@findFreeEntries_keeps vol u parent (slotCount len)).run
    (s := (t.1, { t.2 with utf16 := u })) rfl
  have hnever := folded_findFreeEntries vol parent (slotCount len) (t.1, { t.2 with utf16 := u })
  rcases hrun : findFreeEntries vol parent (slotCount len) (t.1, { t.2 with utf16 := u }) with
    ⟨locs | x | _, v⟩
  · rw [hrun] at hkeep
    change v.2.utf16 = u at hkeep
    rw [bind_ok hrun]
    have hwrite : Folded (writeEntrySet vol (locs.take (slotCount len))
        (newFileSet (v.2.utf16.take len))) := by
      refine folded_writeEntrySet fun w hw => ?_
      change w ∈ v.2.utf16.take len at hw
      rw [hkeep, htake] at hw
      exact utf16Of_ascii h w hw
    have hrest : Folded (do
        writeEntrySet vol (locs.take (slotCount len)) (newFileSet (v.2.utf16.take len))
        pure (File.new locs (slotCount len)) : WsM File) := hwrite.lift.bind fun _ => never_pure _
    exact hrest v
  · rw [hrun] at hnever
    rw [bind_err hrun]
    exact fun h => hnever (by cases h; rfl)
  · rw [bind_apply, hrun]
    nofun

end Creation

section Main

variable {vol vol' : Volume} {s s' : Machine} {path : List Char}

/-- ASCII paths keep working: the operations on the path do not say that the UpCase table is
corrupt, and the lookup returns what it returns with a table which is intact. -/
structure Works (vol : Volume) (s : Machine) (vol' : Volume) (s' : Machine) (path : List Char) :
    Prop where
  lookup : (lookup vol path s).1 ≠ .err .upcaseTableCorrupt
  openFile : (openFile vol path s).1 ≠ .err .upcaseTableCorrupt
  create : (create vol path s).1 ≠ .err .upcaseTableCorrupt
  same : (Lookup.lookup vol path s).1 = (Lookup.lookup vol' path s').1

lemma folded_open (hvol : DamagedVolume vol s) (hascii : ∀ c ∈ path, c.toNat ≤ 0x7f)
    (hbarred : ¬ Barred vol.geometry s.device.sectors (Directory.root vol.geometry) (segments path))
    {t : Machine × Workspace} (ht : Idle vol s t) :
    (openWithWorkspace vol path t).1 ≠ .err .upcaseTableCorrupt := by
  unfold openWithWorkspace
  rcases lookup_damaged hvol hascii ht with ⟨hb, -⟩ | ⟨-, ho, -, -⟩
  · exact absurd hb hbarred
  rcases hrun : lookupWithWorkspace vol path t with ⟨e | x | _, u⟩
  · rw [bind_ok hrun]
    have hrest : Folded (if e.isDirectory then throw .isDirectory else pure (File.ofEntry e) :
      WsM File) :=
      Never.ite (fun _ => never_throw (by decide)) fun _ => never_pure _
    exact hrest u
  · rw [hrun] at ho
    rw [bind_err hrun]
    exact fun h => ho (by cases h; rfl)
  · rw [bind_apply, hrun]
    rintro ⟨⟩

lemma folded_opened (hvol : DamagedVolume vol s) (hascii : ∀ c ∈ path, c.toNat ≤ 0x7f)
    (hbarred : ¬ Barred vol.geometry s.device.sectors (Directory.root vol.geometry) (segments path))
    (parent : Directory) (name : List Char) (hname : ∀ c ∈ name, c.toNat ≤ 0x7f)
    (t : Machine × Workspace) (ht : Idle vol s t) :
    ((do
      match ← attempt (openWithWorkspace vol path) with
      | .ok file => do
        let (_, file) ← (withSnd file (truncate vol 0) : FsM _)
        pure file
      | .error .pathNotFound => createFresh vol parent name
      | .error e => throw e : WsM File) t).1 ≠ .err .upcaseTableCorrupt := by
  have hopen := folded_open hvol hascii hbarred ht
  rw [bind_apply, attempt]
  rcases hrun : openWithWorkspace vol path t with ⟨file | x | _, u⟩
  · exact (((folded_truncate vol 0).withSnd file).lift.bind fun _ => never_pure _) u
  · rw [hrun] at hopen
    cases x with
    | pathNotFound => exact folded_createFresh hname parent u
    | upcaseTableCorrupt => exact absurd rfl hopen
    | _ => rintro ⟨⟩
  · rintro ⟨⟩

lemma folded_create (hvol : DamagedVolume vol s) (hascii : ∀ c ∈ path, c.toNat ≤ 0x7f)
    (hbarred : ¬ Barred vol.geometry s.device.sectors (Directory.root vol.geometry)
    (segments path)) :
    (createWithWorkspace vol path (s, Workspace.new)).1 ≠ .err .upcaseTableCorrupt := by
  have htrim : ∀ c ∈ trimSlashes path, c.toNat ≤ 0x7f := by
    intro c hc
    unfold trimSlashes at hc
    have h1 := List.mem_reverse.mp hc
    have h2 := (List.dropWhile_sublist _).subset h1
    exact hascii c ((List.dropWhile_sublist _).subset (List.mem_reverse.mp h2))
  rw [← segments_trimSlashes path] at hbarred
  unfold createWithWorkspace
  simp only
  generalize trimSlashes path = p at hbarred htrim
  have hrest := @folded_opened vol s p hvol htrim hbarred
  by_cases hnil : p = []
  · rw [if_pos hnil]
    rintro ⟨⟩
  rw [if_neg hnil]
  unfold splitPath
  rcases hsplit : rsplitOnce p with _ | ⟨parentPath, name⟩
  · simp only [pure_bind]
    exact hrest _ p htrim _ (idle_new vol s)
  have hpath := eq_of_rsplitOnce hsplit
  have hparent : ∀ c ∈ parentPath, c.toNat ≤ 0x7f := fun c hc => htrim c (by rw [hpath]; simp [hc])
  have hname : ∀ c ∈ name, c.toNat ≤ 0x7f := fun c hc => htrim c (by rw [hpath]; simp [hc])
  have hbarred' : ¬ Barred vol.geometry s.device.sectors (Directory.root vol.geometry)
      (segments parentPath) := by
    intro h
    apply hbarred
    rw [hpath, segments_append]
    exact h.append _
  simp only [bind_assoc]
  rcases lookup_damaged hvol hparent (idle_new vol s) with ⟨hb, -⟩ | ⟨-, ho, hidle, -⟩
  · exact absurd hb hbarred'
  rcases hrun : lookupWithWorkspace vol parentPath (s, Workspace.new) with ⟨e | x | _, u⟩
  · rw [hrun] at hidle
    rw [bind_ok hrun]
    rcases e.directory with _ | parent
    · rintro ⟨⟩
    · rw [okOr_some, pure_bind, pure_bind]
      exact hrest parent name hname u (hidle e rfl)
  · rw [hrun] at ho
    rw [bind_err hrun]
    exact fun h => ho (by cases h; rfl)
  · rw [bind_apply, hrun]
    rintro ⟨⟩

/-- **When ASCII paths keep working without the UpCase table.** No search on the path meets a name
which goes beyond ASCII behind units which agree with those wanted. -/
theorem works_iff (hvol : DamagedVolume vol s) (hrep : Repaired vol s vol' s')
    (hascii : ∀ c ∈ path, c.toNat ≤ 0x7f) : Works vol s vol' s' path ↔
      ¬ Barred vol.geometry s.device.sectors (Directory.root vol.geometry) (segments path) := by
  have hlookup := lookup_damaged hvol hascii (idle_new vol s)
  constructor
  · intro hworks hbarred
    rcases hlookup with ⟨-, ho⟩ | ⟨hnot, -⟩
    · apply hworks.lookup
      rw [Lookup.lookup, withNewWorkspace_outcome, ho]
    · exact hnot hbarred
  · intro hbarred
    rcases hlookup with ⟨hb, -⟩ | ⟨-, ho, -, hsame⟩
    · exact absurd hb hbarred
    refine ⟨?_, ?_, ?_, ?_⟩
    · rwa [Lookup.lookup, withNewWorkspace_outcome]
    · rw [FileIo.openFile, withNewWorkspace_outcome]
      exact folded_open hvol hascii hbarred (idle_new vol s)
    · rw [Mutation.create, withNewWorkspace_outcome]
      exact folded_create hvol hascii hbarred
    · rw [Lookup.lookup, Lookup.lookup, withNewWorkspace_outcome, withNewWorkspace_outcome]
      exact (hsame vol' s' hrep _ (idle_new vol' s')).symm

end Main

/-! ### A file with a name beyond ASCII in front of one of ASCII -/

/-- The root of a small volume with the files `é` and `A`, and an UpCase table of two words. -/
def mixedRoot : Image :=
  sectorWith ((64, setBytes (newFileSet [233]) 3) :: (160, setBytes (newFileSet [65]) 3) ::
    (36, leBytes 4 0x200001de) :: (56, leBytes 8 4) :: systemSlots 0)

/-- The volume with the bytes `table` in the cluster of its UpCase table. -/
def mixed (table : List UInt8) : Machine :=
  { smallMachine smallFat (sectorWith [(0, [0x07])]) mixedRoot with
    device := { smallDevice smallFat (sectorWith [(0, [0x07])]) mixedRoot with
      sectors := fun lba => if lba = 28 then sectorWith [(0, table)] else
        (smallDevice smallFat (sectorWith [(0, [0x07])]) mixedRoot).sectors lba } }

/-- The table maps each unit below 0xffff to itself. -/
def intactTable : List UInt8 := List.replicate 4 0xff

def mixedVolume (valid : Bool) : Volume :=
  { smallVolume with
    upcase := ⟨0x200001de, 4, 4⟩
    upcaseValid := valid }

def mixedEntry : DirectoryEntry := splitEntry (newFileSet [65]) false 26 5

lemma mount_mixed : (mount (mixed intactTable)).1 = .ok (mixedVolume true) := by decide +kernel

lemma mount_mixedDamaged : (mount (mixed [])).1 = .ok (mixedVolume false) := by decide +kernel

lemma damaged_mixed : DamagedVolume (mixedVolume false) (mixed []) :=
  ⟨⟨mixed [], mount_mixedDamaged, rfl⟩, rfl, by decide, fun _ => rfl⟩

lemma reached_mixed {dir : Directory}
    (h : Reached smallVolume.geometry (mixed []).device.sectors dir) :
    dir = Directory.root smallVolume.geometry ∧
      ∀ n, Walked smallVolume.geometry (mixed []).device.sectors dir n → n = 0 := by
  have hroot : ∀ n, Walked smallVolume.geometry (mixed []).device.sectors
      (Directory.root smallVolume.geometry) n → n = 0 := by
    intro n hw
    by_contra hne
    have hchain := hw.chain 0 (by omega) rfl
    rw [clusterOf_succ rfl, clusterOf_zero] at hchain
    revert hchain
    decide +kernel
  induction h with
  | root => exact ⟨rfl, hroot⟩
  | @child dir dir' n e h hw hheap he hdir ih =>
    obtain ⟨rfl, hone⟩ := ih
    obtain rfl := hone n hw
    have hfiles : ∀ e ∈ candidateEntries (extentSlots smallVolume.geometry (mixed []).device.sectors
        (Directory.root smallVolume.geometry) 1), e.directory = none := by decide +kernel
    rw [hfiles e (mem_candidateEntries he)] at hdir
    cases hdir

lemma repaired_mixed : Repaired (mixedVolume false) (mixed []) (mixedVolume true)
    (mixed intactTable) := by
  refine ⟨⟨mixed intactTable, mount_mixed, rfl⟩, rfl, rfl, by decide, fun _ => rfl, ?_⟩
  intro dir hreached n hw _
  obtain ⟨rfl, hone⟩ := reached_mixed hreached
  obtain rfl := hone n hw
  have hslots : extentSlots smallVolume.geometry (mixed intactTable).device.sectors
      (Directory.root smallVolume.geometry) 1 = extentSlots smallVolume.geometry
        (mixed []).device.sectors (Directory.root smallVolume.geometry) 1 := by decide +kernel
  constructor
  · rw [clusterOf_succ rfl, clusterOf_succ rfl, clusterOf_zero, clusterOf_zero]
    decide +kernel
  · change List.Forall₂ SameSlot _ (extentSlots smallVolume.geometry
      (mixed intactTable).device.sectors (Directory.root smallVolume.geometry) 1)
    rw [hslots]
    exact List.forall₂_same.mpr fun x _ => .inl rfl

theorem works_iff_mixed :
    Works (mixedVolume false) (mixed []) (mixedVolume true) (mixed intactTable) ['A'] ↔
      ¬ Barred smallVolume.geometry (mixed []).device.sectors (Directory.root smallVolume.geometry)
        (segments ['A']) :=
  works_iff damaged_mixed repaired_mixed fun c hc => by
    rw [List.mem_singleton.mp hc]
    decide

/-- The comparison with `é` needs the table, and `A` is not found. -/
theorem ascii_lost : DamagedVolume (mixedVolume false) (mixed []) ∧
    Repaired (mixedVolume false) (mixed []) (mixedVolume true) (mixed intactTable) ∧
    (lookup (mixedVolume true) ['A'] (mixed intactTable)).1 = .ok mixedEntry ∧
    (lookup (mixedVolume false) ['A'] (mixed [])).1 = .err .upcaseTableCorrupt ∧
    (openFile (mixedVolume false) ['A'] (mixed [])).1 = .err .upcaseTableCorrupt ∧
    (create (mixedVolume false) ['B'] (mixed [])).1 = .err .upcaseTableCorrupt ∧
    ¬ Works (mixedVolume false) (mixed []) (mixedVolume true) (mixed intactTable) ['A'] := by
  have hlost : (lookup (mixedVolume false) ['A'] (mixed [])).1 = .err .upcaseTableCorrupt := by
    decide +kernel
  exact ⟨damaged_mixed, repaired_mixed, by decide +kernel, hlost, by decide +kernel,
    by decide +kernel, fun h => h.lookup hlost⟩

end ExfatEmbedded.Damaged
