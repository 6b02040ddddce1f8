import ExfatEmbedded.Listing

/-!
What a reused `Workspace` carries from one call to the next.

The buffers are written before they are read. The decoder is not reset at the start of a scan, so
that a call sees the difference between a new workspace and one whose last scan stopped in the
middle of an entry set, and only that.
-/

namespace ExfatEmbedded.History

open ExfatEmbedded.Library Exec ExfatEmbedded.Core ExfatEmbedded.Entry ExfatEmbedded.Allocation
open ExfatEmbedded.Lookup ExfatEmbedded.FileIo ExfatEmbedded.EntryWrite ExfatEmbedded.Mutation
open ExfatEmbedded.Mount ExfatEmbedded.Listing

/-- Decoders which no slot tells apart. -/
def Alike (e e' : EntrySet) : Prop := e = e' ∨ (e.secondaryLeft = 0 ∧ e'.secondaryLeft = 0)

lemma push_alike {e e' : EntrySet} (h : Alike e e') (raw : List UInt8) (l : EntryLocator) :
    (EntrySet.push raw l e).1 = (EntrySet.push raw l e').1 ∧
      Alike (EntrySet.push raw l e).2 (EntrySet.push raw l e').2 := by
  rcases h with rfl | ⟨h0, h0'⟩
  · exact ⟨rfl, Or.inl rfl⟩
  · unfold EntrySet.push
    simp only [h0, h0', ne_eq, not_true_eq_false, false_or, if_true]
    split_ifs
    all_goals first
      | exact ⟨rfl, Or.inr ⟨h0, h0'⟩⟩
      | exact ⟨rfl, Or.inl rfl⟩

/-- Workspaces which agree on the first `n` units of the UTF-16 buffer and hold like decoders. -/
structure Agree (n : ℕ) (w w' : Workspace) : Prop where
  decoder : Alike w.entrySet w'.entrySet
  len : w.utf16.length = 255
  len' : w'.utf16.length = 255
  units : ∀ i < n, w.utf16[i]? = w'.utf16[i]?

lemma Agree.take {n k : ℕ} {w w' : Workspace} (h : Agree n w w') (hk : k ≤ n) :
    w.utf16.take k = w'.utf16.take k := by
  refine List.ext_getElem? fun i => ?_
  rw [List.getElem?_take, List.getElem?_take]
  split_ifs with hi
  · exact h.units i (by omega)
  · rfl

/-- The same machine, and workspaces which agree; with `l`, also on the locator buffer. -/
def Rel (n : ℕ) (l : Bool) (s t : Machine × Workspace) : Prop :=
  s.1 = t.1 ∧ Agree n s.2 t.2 ∧ (l → s.2.locators = t.2.locators)

variable {n k : ℕ} {l : Bool} {α : Type}

lemma Rel.mono {s t : Machine × Workspace} (h : Rel n l s t) (hk : k ≤ n) : Rel k l s t :=
  ⟨h.1, ⟨h.2.1.decoder, h.2.1.len, h.2.1.len', fun i hi => h.2.1.units i (by omega)⟩, h.2.2⟩

lemma Rel.weaken {s t : Machine × Workspace} (h : Rel n l s t) : Rel n false s t :=
  ⟨h.1, h.2.1, nofun⟩

lemma Rel.zero {s t : Machine × Workspace} (h : Rel n l s t) : Rel 0 false s t :=
  (h.mono n.zero_le).weaken

/-- Two runs of `m` from related states end alike. -/
def Keeps (n : ℕ) (l : Bool) (m : WsM α) : Prop :=
  Sim (Rel n l) (fun _ => Rel n l) (Rel 0 false) m m

lemma Keeps.bind {β : Type} {m : WsM β} {f : β → WsM α} (h : Keeps n l m)
    (hf : ∀ b, Keeps n l (f b)) : Keeps n l (m >>= f) := sim_bind h hf

lemma Keeps.ite {p : Prop} [Decidable p] {m m' : WsM α} (h : Keeps n l m) (h' : Keeps n l m') :
    Keeps n l (if p then m else m') := sim_ite (fun _ => h) fun _ => h'

lemma Keeps.loop {β ρ : Type} {body : ℕ → β → WsM (ρ ⊕ β)} (h : ∀ i b, Keeps n l (body i b))
    (i m : ℕ) (b : β) : Keeps n l (Exec.loop body i m b) := sim_loop h i m b

lemma keeps_pure {a : α} : Keeps n l (pure a : WsM α) := sim_pure fun _ _ h => h

lemma keeps_throw {e : Error} : Keeps n l (throw e : WsM α) := sim_throw fun _ _ h => h.zero

lemma keeps_panic : Keeps n l (panic : WsM α) := sim_panic fun _ _ h => h.zero

lemma keeps_okOr {e : Error} {o : Option α} : Keeps n l (okOr e o : WsM α) :=
  sim_okOr (fun _ _ _ h => h) fun _ _ h => h.zero

lemma keeps_machine (m : FsM α) : Keeps n l (liftM m : WsM α) :=
  (sim_lift m (fun _ _ h => h.1) (fun _ _ _ h => ⟨rfl, h.2⟩)).mono (fun _ _ h => h)
    (fun _ _ _ h => h) (fun _ _ h => h.zero)

lemma keeps_stateless {m : WsM α} (h : Stateless m) : Keeps n l m :=
  (sim_stateless h).mono (fun _ _ h => h) (fun _ _ _ h => h) fun _ _ h => h.zero

lemma keeps_units (hk : k ≤ n) {f : Workspace → WsM α} {f' : List ℕ → WsM α}
    (hf : ∀ ws, f ws = f' (ws.utf16.take k)) (h : ∀ units, Keeps n l (f' units)) :
    Keeps n l (getSnd >>= f) := by
  rintro ⟨s, w⟩ ⟨t, w'⟩ hR
  have := h (w.utf16.take k) (s, w) (t, w') hR
  rw [bind_apply, bind_apply]
  simp only [getSnd, hf, ← hR.2.1.take hk]
  exact this

/-! ### The buffers -/

lemma writeUnits_agree (name : List Char) (written n : ℕ) (u u' : List ℕ)
    (hl : u.length = 255) (hl' : u'.length = 255) (hn : ∀ i < n, u[i]? = u'[i]?)
    (hw : ∀ i < written, u[i]? = u'[i]?) :
    (writeUnits name written u).1 = (writeUnits name written u').1 ∧
      (writeUnits name written u).2.length = 255 ∧ (writeUnits name written u').2.length = 255 ∧
      (∀ i < n, (writeUnits name written u).2[i]? = (writeUnits name written u').2[i]?) ∧
      ∀ len, (writeUnits name written u).1 = .ok len →
        ∀ i < len, (writeUnits name written u).2[i]? = (writeUnits name written u').2[i]? := by
  induction name generalizing written u u' with
  | nil =>
    refine ⟨rfl, hl, hl', hn, fun len h => ?_⟩
    cases h
    exact hw
  | cons c name ih =>
    by_cases hlen : 255 < written + (encodeUtf16 c).length
    · simp only [writeUnits, if_pos hlen]
      exact ⟨rfl, hl, hl', hn, fun len h => nomatch h⟩
    · simp only [writeUnits, if_neg hlen]
      have hfit : written + (encodeUtf16 c).length ≤ u.length := by omega
      have hfit' : written + (encodeUtf16 c).length ≤ u'.length := by omega
      refine ih _ _ _ (by rw [overlay_length hfit, hl]) (by rw [overlay_length hfit', hl'])
        (fun i hi => ?_) fun i hi => ?_
      · rw [getElem?_overlay hfit, getElem?_overlay hfit']
        split_ifs
        · rfl
        · exact hn i hi
      · rw [getElem?_overlay hfit, getElem?_overlay hfit']
        split_ifs
        · rfl
        · exact hw i (by omega)

lemma sim_utf8ToUtf16 (n : ℕ) (l : Bool) (name : List Char) :
    Sim (Rel n l) (fun len => Rel (max n len) l) (Rel 0 false) (onUtf16 (utf8ToUtf16 name))
      (onUtf16 (utf8ToUtf16 name)) := by
  rintro ⟨s, w⟩ ⟨t, w'⟩ ⟨rfl, h, hloc⟩
  unfold onUtf16 utf8ToUtf16
  by_cases hbad : name = [] ∨ name = ['.'] ∨ name = ['.', '.'] ∨
      name.any (fun c => c = '\x00' || c = '/' || c = '\\')
  · rw [if_pos hbad]
    exact ⟨rfl, fun _ ha => (nomatch ha),
      fun _ => ⟨rfl, ⟨h.decoder, h.len, h.len', fun i hi => absurd hi (by omega)⟩, nofun⟩⟩
  · rw [if_neg hbad]
    obtain ⟨h1, h2, h3, h4, h5⟩ :=
      writeUnits_agree name 0 n w.utf16 w'.utf16 h.len h.len' h.units
        (fun i hi => absurd hi (by omega))
    refine ⟨h1, fun len hlen => ⟨rfl, ⟨h.decoder, h2, h3, fun i hi => ?_⟩, hloc⟩,
      fun _ => ⟨rfl, ⟨h.decoder, h2, h3, fun i hi => absurd hi (by omega)⟩, nofun⟩⟩
    rcases Nat.lt_or_ge i n with hin | hin
    · exact h4 i hin
    · exact h5 len hlen i (by omega)

lemma keeps_utf8ToUtf16 (name : List Char) {f : ℕ → WsM α}
    (h : ∀ len, Keeps (max n len) l (f len)) : Keeps n l (onUtf16 (utf8ToUtf16 name) >>= f) :=
  sim_bind (sim_utf8ToUtf16 n l name) fun len =>
    (h len).mono (fun _ _ h => h) (fun _ _ _ h => h.mono (le_max_left n len)) fun _ _ h => h

variable (vol : Volume)

/-! ### The scans -/

lemma keeps_push (raw : List UInt8) (loc : EntryLocator) :
    Keeps n l (onEntrySet (EntrySet.push raw loc)) := by
  rintro ⟨s, w⟩ ⟨t, w'⟩ ⟨rfl, h, hloc⟩
  obtain ⟨h1, h2⟩ := push_alike h.decoder raw loc
  have hr : Rel n l (s, { w with entrySet := (EntrySet.push raw loc w.entrySet).2 })
      (s, { w' with entrySet := (EntrySet.push raw loc w'.entrySet).2 }) :=
    ⟨rfl, ⟨h2, h.len, h.len', h.units⟩, hloc⟩
  exact ⟨h1, fun _ _ => hr, fun _ => hr.zero⟩

lemma keeps_findChildSlot (hk : k ≤ n) (lba slot : ℕ) :
    Keeps n l (findChildSlot vol k lba slot) := by
  unfold findChildSlot
  refine (keeps_stateless (stateless_checked _ _)).bind fun offset => ?_
  refine (keeps_machine _).bind fun raw => keeps_pure.ite ?_
  refine (keeps_push raw _).bind fun parsed => ?_
  rcases parsed with _ | entry
  · exact keeps_pure
  · exact keeps_units hk (fun _ => rfl) fun units => keeps_machine
      (findChildEntry vol lba entry units)

lemma keeps_findChildSector (hk : k ≤ n) (dir : Directory) (base sector remaining : ℕ) :
    Keeps n l (findChildSector vol dir k base sector remaining) := by
  unfold findChildSector
  refine keeps_pure.ite ?_
  refine (keeps_stateless (stateless_checked _ _)).bind fun lba => ?_
  refine (keeps_machine _).bind fun _ => ?_
  refine (Keeps.loop (fun slot _ => keeps_findChildSlot vol hk lba slot) _ _ _).bind fun r => ?_
  rcases r with r | _
  · exact keeps_pure
  · exact keeps_pure

lemma keeps_findChildCluster (hk : k ≤ n) (dir : Directory) (v : ℕ × ℕ) :
    Keeps n l (findChildCluster vol dir k v) := by
  unfold findChildCluster
  refine (keeps_stateless (stateless_clusterLba _ _)).bind fun o => ?_
  refine keeps_okOr.bind fun base => ?_
  refine (Keeps.loop (fun sector r => keeps_findChildSector vol hk dir base sector r) _ _ _).bind
    fun r => ?_
  rcases r with r | remaining
  · exact keeps_pure
  · refine keeps_pure.ite ?_
    exact (keeps_machine _).bind fun next => keeps_pure.ite (keeps_throw.ite keeps_pure)

lemma keeps_findChild (hk : k ≤ n) (dir : Directory) : Keeps n l (findChild vol dir k) := by
  unfold findChild
  refine (keeps_machine _).bind fun _ => ?_
  refine (Keeps.loop (fun _ v => keeps_findChildCluster vol hk dir v) _ _ _).bind fun r => ?_
  rcases r with r | _
  · exact keeps_pure
  · exact keeps_throw

lemma keeps_lookupFrom (dir : Directory) (current : List Char) (rest : List (List Char)) :
    Keeps n l (lookupFrom vol dir current rest) := by
  induction rest generalizing dir current with
  | nil =>
    refine keeps_utf8ToUtf16 current fun len => ?_
    exact (keeps_findChild vol (le_max_right n len) dir).bind fun _ => keeps_okOr
  | cons next rest ih =>
    refine sim_bind (sim_utf8ToUtf16 n l current) fun len => ?_
    refine sim_bind (keeps_findChild vol (le_max_right n len) dir) fun _ => ?_
    refine sim_bind keeps_okOr fun entry => sim_bind keeps_okOr fun dir => ?_
    exact (ih dir next).mono (fun _ _ h => h.mono (le_max_left n len)) (fun _ _ _ h => h)
      fun _ _ h => h

lemma keeps_lookup (path : List Char) : Keeps n l (lookupWithWorkspace vol path) := by
  unfold lookupWithWorkspace
  rcases segments path with _ | ⟨current, rest⟩
  · exact keeps_throw
  · exact keeps_lookupFrom vol _ current rest

lemma keeps_open (path : List Char) : Keeps n l (openWithWorkspace vol path) :=
  (keeps_lookup vol path).bind fun _ => keeps_throw.ite keeps_pure

/-! ### The slot search -/

lemma keeps_modifyLocators (f : List EntryLocator → List EntryLocator) :
    Keeps n true (modifyLocators f) := by
  rintro ⟨s, w⟩ ⟨t, w'⟩ ⟨rfl, h, hloc⟩
  have hl : w.locators = w'.locators := hloc rfl
  have hr : Rel n true (s, { w with locators := f w.locators })
      (s, { w' with locators := f w'.locators }) :=
    ⟨rfl, ⟨h.decoder, h.len, h.len', h.units⟩, fun _ => congrArg f hl⟩
  exact ⟨rfl, fun _ _ => hr, fun _ => hr.zero⟩

lemma keeps_locators {f : Workspace → WsM α} {f' : List EntryLocator → WsM α}
    (hf : ∀ ws, f ws = f' ws.locators) (h : ∀ locators, Keeps n true (f' locators)) :
    Keeps n true (getSnd >>= f) := by
  rintro ⟨s, w⟩ ⟨t, w'⟩ hR
  have := h w.locators (s, w) (t, w') hR
  have hl : w.locators = w'.locators := hR.2.2 rfl
  rw [bind_apply, bind_apply]
  simp only [getSnd, hf, ← hl]
  exact this

lemma keeps_freeSlot (wanted lba slot run : ℕ) :
    Keeps n true (freeSlot vol wanted lba slot run) := by
  unfold freeSlot
  refine (keeps_machine _).bind fun raw => Keeps.ite ?_ keeps_pure
  refine Keeps.bind (Keeps.ite (keeps_modifyLocators _) keeps_pure) fun _ => ?_
  exact Keeps.ite (keeps_locators (fun _ => rfl) fun locators =>
    keeps_pure (a := Sum.inl locators)) keeps_pure

lemma keeps_freeSector (dir : Directory) (wanted base sector : ℕ) (v : ℕ × ℕ) :
    Keeps n true (freeSector vol dir wanted base sector v) := by
  unfold freeSector
  refine keeps_throw.ite ?_
  refine (keeps_stateless (stateless_checked _ _)).bind fun lba => ?_
  refine (keeps_machine _).bind fun _ => ?_
  refine (Keeps.loop (fun slot run => keeps_freeSlot vol wanted lba slot run) _ _ _).bind
    fun r => ?_
  rcases r with r | _
  · exact keeps_pure
  · exact keeps_pure

lemma keeps_freeCluster (dir : Directory) (wanted : ℕ) (v : ℕ × ℕ × ℕ) :
    Keeps n true (freeCluster vol dir wanted v) := by
  unfold freeCluster
  refine (keeps_stateless (stateless_clusterLba _ _)).bind fun o => ?_
  refine keeps_okOr.bind fun base => ?_
  refine (Keeps.loop (fun sector v => keeps_freeSector vol dir wanted base sector v) _ _ _).bind
    fun r => ?_
  rcases r with r | ⟨run, remaining⟩
  · exact keeps_pure
  · refine keeps_throw.ite ((keeps_machine _).bind fun next => ?_)
    refine (keeps_throw.ite keeps_pure).ite ((keeps_machine _).bind fun grown => ?_)
    refine Keeps.ite ?_ keeps_pure
    refine (keeps_stateless (stateless_clusterLba _ _)).bind fun o => ?_
    refine keeps_okOr.bind fun newLba => ?_
    refine (keeps_stateless (stateless_checked _ _)).bind fun needed => Keeps.ite ?_ keeps_pure
    refine (keeps_modifyLocators _).bind fun _ => ?_
    exact keeps_locators (fun _ => rfl) fun locators =>
      keeps_pure (a := Sum.inl (Sum.inl locators))

lemma keeps_freeScan (wanted : ℕ) (dir : Directory) : Keeps n l (freeScan vol wanted dir) := by
  unfold freeScan
  have hclear : Sim (Rel n l) (fun _ => Rel n true) (Rel 0 false)
      (modifyLocators fun _ => noLocators) (modifyLocators fun _ => noLocators) := by
    rintro ⟨s, w⟩ ⟨t, w'⟩ ⟨rfl, h, -⟩
    have hr : Rel n true (s, { w with locators := noLocators })
        (s, { w' with locators := noLocators }) :=
      ⟨rfl, ⟨h.decoder, h.len, h.len', h.units⟩, fun _ => rfl⟩
    exact ⟨rfl, fun _ _ => hr, fun _ => hr.zero⟩
  refine sim_bind hclear fun _ => Sim.mono (?_ : Keeps n true _)
    (fun _ _ h => h) (fun _ s t h => ⟨h.1, h.2.1, fun _ => h.2.2 rfl⟩) fun _ _ h => h
  refine (Keeps.loop (fun _ v => keeps_freeCluster vol dir wanted v) _ _ _).bind fun r => ?_
  rcases r with r | _
  · exact keeps_pure
  · exact keeps_throw

lemma keeps_findFreeEntries (dir : Directory) (wanted : ℕ) :
    Keeps n l (findFreeEntries vol dir wanted) := by
  unfold findFreeEntries
  refine keeps_throw.ite ?_
  refine (Keeps.loop (fun _ dir => keeps_freeScan vol wanted dir) _ _ _).bind fun r => ?_
  rcases r with r | _
  · exact keeps_pure
  · exact keeps_panic

/-! ### The operations -/

lemma keeps_attempt {m : WsM α} (h : Keeps 0 false m) : Keeps 0 false (attempt m) :=
  sim_attempt h (fun _ _ _ h => h) fun _ _ _ h => h

lemma keeps_splitPath (path : List Char) : Keeps n l (splitPath vol path) := by
  unfold splitPath
  rcases rsplitOnce path with _ | ⟨parentPath, name⟩
  · exact keeps_pure
  · exact (keeps_lookup vol parentPath).bind fun _ => keeps_okOr.bind fun _ => keeps_pure

lemma keeps_createFresh (parent : Directory) (name : List Char) :
    Keeps n l (createFresh vol parent name) := by
  refine keeps_utf8ToUtf16 name fun len => (keeps_findFreeEntries vol parent _).bind fun locs => ?_
  exact keeps_units (le_max_right n len) (fun _ => rfl) fun units =>
    (keeps_machine (writeEntrySet vol (locs.take (slotCount len)) (newFileSet units))).bind
      fun _ => keeps_pure

lemma keeps_create (path : List Char) : Keeps 0 false (createWithWorkspace vol path) := by
  unfold createWithWorkspace
  refine keeps_throw.ite ((keeps_splitPath vol _).bind fun p => ?_)
  refine (keeps_attempt (keeps_open vol _)).bind fun r => ?_
  rcases r with e | file
  · cases e
    all_goals first
      | exact keeps_createFresh vol p.1 p.2
      | exact keeps_throw
  · exact (keeps_machine _).bind fun _ => keeps_pure

lemma keeps_createDirectory (hk : k ≤ n) (parent : Directory) :
    Keeps n l (createDirectory vol parent k) := by
  refine (keeps_findFreeEntries vol parent _).bind fun locs => ?_
  refine (keeps_machine _).bind fun cluster => ?_
  refine (keeps_stateless (stateless_checked _ _)).bind fun clusterBytes => ?_
  exact keeps_units hk (fun _ => rfl) fun units =>
    (keeps_machine (writeEntrySet vol (locs.take (slotCount k))
      (newDirectorySet units cluster clusterBytes))).bind fun _ => keeps_pure

lemma keeps_enterDirectory (parent : Directory) (name : List Char) :
    Keeps n l (enterDirectory vol parent name) := by
  refine keeps_utf8ToUtf16 name fun len => ?_
  refine (keeps_findChild vol (le_max_right n len) parent).bind fun o => ?_
  rcases o with _ | entry
  · exact keeps_createDirectory vol (le_max_right n len) parent
  · exact keeps_okOr

lemma keeps_enterDirectories (parent : Directory) (names : List (List Char)) :
    Keeps n l (enterDirectories vol parent names) := by
  induction names generalizing parent with
  | nil => exact keeps_pure
  | cons name names ih => exact (keeps_enterDirectory vol parent name).bind fun parent => ih parent

lemma keeps_createDirAll (path : List Char) : Keeps n l (createDirAllWithWorkspace vol path) := by
  unfold createDirAllWithWorkspace
  exact keeps_throw.ite (keeps_enterDirectories vol _ _)

lemma keeps_remove (path : List Char) : Keeps n l (removeWithWorkspace vol path) :=
  (keeps_lookup vol _).bind fun entry => keeps_machine (removeEntryTree vol entry)

lemma keeps_parentDirectory (path : List Char) : Keeps n l (parentDirectory vol path) := by
  unfold parentDirectory
  rcases rsplitOnce (trimSlashes path) with _ | ⟨parentPath, name⟩
  · exact keeps_pure
  · exact (keeps_lookup vol parentPath).bind fun _ => keeps_okOr

/-- The new name is converted before the parent is looked up. The lookups overwrite units of it,
but with the same units in both runs. -/
lemma keeps_renameRelocate (hk : k ≤ n) (path : List Char) (entry : DirectoryEntry) :
    Keeps n l (renameRelocate vol path entry k) := by
  refine (keeps_parentDirectory vol path).bind fun parent => ?_
  refine (keeps_findFreeEntries vol parent _).bind fun locs => ?_
  exact keeps_units hk (fun _ => rfl) fun units =>
    (keeps_machine (writeEntrySet vol (locs.take ((k + 14) / 15 + 2))
      (renamedSet entry units))).bind
      fun _ => keeps_machine (retireEntrySet vol entry)

lemma keeps_rename (path newName : List Char) :
    Keeps n l (renameWithWorkspace vol path newName) := by
  unfold renameWithWorkspace
  refine keeps_throw.ite ((keeps_lookup vol _).bind fun entry => ?_)
  refine keeps_utf8ToUtf16 newName fun len => Keeps.ite ?_ ?_
  · exact keeps_renameRelocate vol (le_max_right n len) path entry
  · exact keeps_units (le_max_right n len) (fun _ => rfl) fun units =>
      keeps_machine (renameInPlace vol entry units)

lemma keeps_isDirEmpty (path : List Char) : Keeps n l (isDirEmptyWithWorkspace vol path) :=
  (keeps_lookup vol _).bind fun _ => keeps_okOr.bind fun dir =>
    (keeps_machine (firstDirectoryEntry vol dir)).bind fun _ => keeps_pure

/-! ### Histories -/

/-- An operation on a caller-owned workspace. -/
inductive Call where
  | lookup (path : List Char)
  | openFile (path : List Char)
  | create (path : List Char)
  | createDirAll (path : List Char)
  | remove (path : List Char)
  | rename (path newName : List Char)
  | isDirEmpty (path : List Char)

/-- What an operation returns. -/
inductive Reply where
  | entry (e : DirectoryEntry)
  | file (f : File)
  | empty (b : Bool)
  | done
  deriving DecidableEq

def Call.run : Call → WsM Reply
  | .lookup path => Reply.entry <$> lookupWithWorkspace vol path
  | .openFile path => Reply.file <$> openWithWorkspace vol path
  | .create path => Reply.file <$> createWithWorkspace vol path
  | .createDirAll path => (fun _ => Reply.done) <$> createDirAllWithWorkspace vol path
  | .remove path => (fun _ => Reply.done) <$> removeWithWorkspace vol path
  | .rename path newName => (fun _ => Reply.done) <$> renameWithWorkspace vol path newName
  | .isDirEmpty path => Reply.empty <$> isDirEmptyWithWorkspace vol path

/-- The volumes `mount` returns. -/
def Mounted : Prop := ∃ s, (mount s).1 = .ok vol

/-- The workspaces of a caller: a new one, and what a call on any device leaves in one. -/
inductive Reachable : Workspace → Prop
  | new : Reachable Workspace.new
  | call {ws : Workspace} (h : Reachable ws) (vol : Volume) (hvol : Mounted vol) (s : Machine)
      (c : Call) (hc : (c.run vol (s, ws)).1 ≠ .panic) : Reachable (c.run vol (s, ws)).2.2

/-- On every device, every call with the workspace returns and does what it does with a new
one. -/
def NoHistory (ws : Workspace) : Prop :=
  ∀ (vol : Volume) (s : Machine) (c : Call), Mounted vol →
    (c.run vol (s, ws)).1 = (c.run vol (s, Workspace.new)).1 ∧
      (c.run vol (s, ws)).2.1 = (c.run vol (s, Workspace.new)).2.1

lemma keeps_run (c : Call) : Keeps 0 false (c.run vol) := by
  cases c with
  | lookup path => exact (keeps_lookup vol path).bind fun _ => keeps_pure
  | openFile path => exact (keeps_open vol path).bind fun _ => keeps_pure
  | create path => exact (keeps_create vol path).bind fun _ => keeps_pure
  | createDirAll path => exact (keeps_createDirAll vol path).bind fun _ => keeps_pure
  | remove path => exact (keeps_remove vol path).bind fun _ => keeps_pure
  | rename path newName => exact (keeps_rename vol path newName).bind fun _ => keeps_pure
  | isDirEmpty path => exact (keeps_isDirEmpty vol path).bind fun _ => keeps_pure

lemma Reachable.length {ws : Workspace} (h : Reachable ws) : ws.utf16.length = 255 := by
  induction h with
  | new => exact List.length_replicate
  | @call ws h vol hvol s c hc ih =>
    have hrel : Rel 0 false (s, ws) (s, ws) := ⟨rfl, ⟨Or.inl rfl, ih, ih, fun _ _ => rfl⟩, nofun⟩
    obtain ⟨-, h1, h2⟩ := keeps_run vol c _ _ hrel
    rcases hr : (c.run vol (s, ws)).1 with a | e | _
    · exact (h1 a hr).2.1.len
    · exact (h2 fun a ha => by rw [hr] at ha; cases ha).2.1.len
    · exact absurd hr hc

lemma noHistory_of_idle {ws : Workspace} (hlen : ws.utf16.length = 255)
    (h : ws.entrySet.secondaryLeft = 0) : NoHistory ws := by
  intro vol s c _
  have hrel : Rel 0 false (s, ws) (s, Workspace.new) :=
    ⟨rfl, ⟨Or.inr ⟨h, rfl⟩, hlen, List.length_replicate, fun i hi => absurd hi (by omega)⟩, nofun⟩
  obtain ⟨h0, h1, h2⟩ := keeps_run vol c _ _ hrel
  refine ⟨h0, ?_⟩
  rcases hr : (c.run vol (s, ws)).1 with a | e | _
  · exact (h1 a hr).1
  · exact (h2 fun a ha => by rw [hr] at ha; cases ha).1
  · exact (h2 fun a ha => by rw [hr] at ha; cases ha).1

/-! ### A decoder left in the middle of a set -/

/-- A root whose first slot begins a set, and which ends behind the first slot of another. -/
def tornRoot : Image := sectorWith ([(0, [0x85, 2]), (96, [0x85, 2])] ++ systemSlots 1)

def torn : Machine := smallMachine smallFat (sectorWith [(0, [7])]) tornRoot

set_option maxRecDepth 100000 in
lemma mount_torn : (mount torn).1 = .ok smallVolume := by decide +kernel

/-- The machine after the first sector of the root is read. -/
def tornRead : Machine := ((readSector 512 26) torn).2

lemma push_busy {raw : List UInt8} {loc : EntryLocator} {e : EntrySet} (hraw : raw.length = 32)
    (h : byteAt raw 0 = 0x85) (he : e.secondaryLeft ≠ 0) :
    EntrySet.push raw loc e = (.err .corrupt, e) := by
  unfold EntrySet.push
  rw [if_neg (by omega), if_pos h, if_pos (Or.inl he)]

lemma findChildSlot_busy (ws : Workspace) (h : ws.entrySet.secondaryLeft ≠ 0) :
    findChildSlot smallVolume 1 26 0 (tornRead, ws) = (.err .corrupt, (tornRead, ws)) := by
  have hslice : scratchSlice 512 0 32 tornRead =
    (.ok (Image.slice tornRead.scratch.bytes 0 32), tornRead) := rfl
  refine (bind_ok (a := 0) (t := (tornRead, ws)) rfl).trans ?_
  refine (bind_ok (lift_ok hslice ws)).trans ?_
  have htype : byteAt (Image.slice tornRead.scratch.bytes 0 32) 0 = 0x85 := by decide +kernel
  have hsome : ¬ byteAt (Image.slice tornRead.scratch.bytes 0 32) 0 = 0 := by rw [htype]; decide
  rw [if_neg hsome]
  refine bind_err ?_
  unfold onEntrySet
  rw [push_busy (by simp) htype h]

lemma findChild_busy (ws : Workspace) (h : ws.entrySet.secondaryLeft ≠ 0) :
    findChild smallVolume (Directory.root smallVolume.geometry) 1 (torn, ws) =
      (.err .corrupt, (tornRead, ws)) := by
  have hread : readSector 512 26 torn = (.ok (), tornRead) := rfl
  have hrequire : requireScratch 512 torn = (.ok (), torn) := rfl
  have hsector : findChildSector smallVolume (Directory.root smallVolume.geometry) 1 26 0 0
      (torn, ws) = (.err .corrupt, (tornRead, ws)) := by
    unfold findChildSector
    rw [if_neg (by decide)]
    refine (bind_ok (a := 26) (t := (torn, ws)) rfl).trans ?_
    refine (bind_ok (lift_ok hread ws)).trans ?_
    exact bind_err (loop_err (findChildSlot_busy ws h) (by decide))
  have hcluster : findChildCluster smallVolume (Directory.root smallVolume.geometry) 1 (2, 0)
      (torn, ws) = (.err .corrupt, (tornRead, ws)) := by
    refine (bind_ok (a := some 26) (t := (torn, ws)) rfl).trans ?_
    refine (bind_ok (a := 26) (t := (torn, ws)) rfl).trans ?_
    exact bind_err (loop_err hsector (by decide))
  refine (bind_ok (lift_ok hrequire ws)).trans ?_
  exact bind_err (loop_err hcluster (by decide))

lemma lookup_busy (ws : Workspace) (h : ws.entrySet.secondaryLeft ≠ 0) :
    ((Call.lookup ['a']).run smallVolume (torn, ws)).1 = .err .corrupt := by
  have hname : onUtf16 (utf8ToUtf16 ['a']) (torn, ws) =
      (.ok 1, (torn, { ws with utf16 := overlay ws.utf16 0 [97] })) := rfl
  have hfind := findChild_busy { ws with utf16 := overlay ws.utf16 0 [97] } h
  have hlookup : lookupWithWorkspace smallVolume ['a'] (torn, ws) =
      (.err .corrupt, (tornRead, { ws with utf16 := overlay ws.utf16 0 [97] })) := by
    unfold lookupWithWorkspace
    rw [show segments ['a'] = [['a']] by decide]
    exact (bind_ok hname).trans (bind_err hfind)
  rw [Call.run, map_err Reply.entry hlookup]

/-- A new workspace does not find the name, and is left in the middle of the second set. -/
lemma lookup_torn :
    ((Call.lookup ['a']).run smallVolume (torn, Workspace.new)).1 = .err .pathNotFound ∧
      ((Call.lookup ['a']).run smallVolume (torn, Workspace.new)).2.2.entrySet.secondaryLeft =
      2 := by
  decide +kernel

/-- **A workspace has no history exactly while its decoder is between two entry sets.** A scan
which stops inside a set, at an end marker, at the end of the directory or by an error, leaves the
decoder there, and the next scan does not reset it. -/
theorem noHistory_iff (ws : Workspace) (h : Reachable ws) :
    NoHistory ws ↔ ws.entrySet.secondaryLeft = 0 := by
  refine ⟨fun hws => ?_, noHistory_of_idle h.length⟩
  by_contra hbusy
  have hcall := (hws smallVolume torn (.lookup ['a']) ⟨torn, mount_torn⟩).1
  rw [lookup_busy ws hbusy, lookup_torn.1] at hcall
  cases hcall

/-- What the first lookup leaves. -/
def tornWorkspace : Workspace :=
  ((Call.lookup ['a']).run smallVolume (torn, Workspace.new)).2.2

lemma reachable_torn : Reachable tornWorkspace := by
  refine Reachable.call .new smallVolume ⟨torn, mount_torn⟩ torn (.lookup ['a']) ?_
  rw [lookup_torn.1]
  exact nofun

lemma tornWorkspace_busy : tornWorkspace.entrySet.secondaryLeft ≠ 0 := by
  rw [tornWorkspace, lookup_torn.2]
  decide

/-- What a look into the directory `D` leaves. -/
def usedWorkspace : Workspace :=
  ((Call.isDirEmpty ['D']).run smallVolume (split, Workspace.new)).2.2

lemma reachable_used : Reachable usedWorkspace :=
  .call .new smallVolume ⟨split, mount_split⟩ split (.isDirEmpty ['D']) (by decide +kernel)

theorem noHistory_iff_used : usedWorkspace ≠ Workspace.new ∧ NoHistory usedWorkspace ∧
    ¬ NoHistory tornWorkspace :=
  ⟨by decide +kernel, (noHistory_iff usedWorkspace reachable_used).mpr (by decide +kernel),
    fun h => tornWorkspace_busy ((noHistory_iff tornWorkspace reachable_torn).mp h)⟩

/-- A workspace is reachable whose history shows: after one lookup on the torn root, the same
lookup reports `Corrupt` where it reported `PathNotFound`. -/
theorem history_shows : Reachable tornWorkspace ∧
    ((Call.lookup ['a']).run smallVolume (torn, tornWorkspace)).1 = .err .corrupt ∧
    ((Call.lookup ['a']).run smallVolume (torn, Workspace.new)).1 = .err .pathNotFound ∧
    ¬ NoHistory tornWorkspace := by
  refine ⟨reachable_torn, lookup_busy _ tornWorkspace_busy, lookup_torn.1, fun h => ?_⟩
  have hcall := (h smallVolume torn (.lookup ['a']) ⟨torn, mount_torn⟩).1
  rw [lookup_busy _ tornWorkspace_busy, lookup_torn.1] at hcall
  cases hcall

end ExfatEmbedded.History
