import ExfatEmbedded.Allocation

/-!
Case folding, path lookup and directory listing.
-/

namespace ExfatEmbedded.Lookup

open ExfatEmbedded.Library Exec ExfatEmbedded.Core ExfatEmbedded.Entry ExfatEmbedded.Allocation

variable (vol : Volume)

/-! ### Case folding -/

/-- The 16-bit word at a byte offset of the UpCase table. -/
def upcaseWord (byte : ℕ) : FsM ℕ := do
  let table := vol.upcase
  if table.byteLength < (← u64 (byte + 2)) then throw .corrupt
  else do
    let g := vol.geometry
    let bytesPerCluster ← g.bytesPerCluster
    let cluster ← clusterAt vol table.firstCluster (← div byte bytesPerCluster)
    let within ← rem byte bytesPerCluster
    let size := g.bytesPerSector
    let base ← okOr .corrupt (← g.clusterLba cluster)
    let lba ← u64 (base + (← div within size))
    let offset ← rem within size
    if size < (← usize (offset + 2)) then throw .corrupt
    else do
      readSector size lba
      pure (ofLe (← scratchSlice size offset 2))

/-- One round of the table scan; the loop variables are `code` and `byte`. The round that finds
the table used up breaks with no value. -/
def upcaseRound (unit : ℕ) : ℕ × ℕ → FsM (Option ℕ ⊕ (ℕ × ℕ))
  | (code, byte) => do
    let table := vol.upcase
    if table.byteLength < (← u64 (byte + 2)) then pure (.inl none)
    else do
      let value ← upcaseWord vol byte
      let byte ← u64 (byte + 2)
      if value = 0xffff then
        if table.byteLength < (← u64 (byte + 2)) then throw .corrupt
        else do
          let skipped ← upcaseWord vol byte
          let byte ← u64 (byte + 2)
          let stop ← okOr .corrupt (checkedAdd32 code skipped)
          if code ≤ unit ∧ unit < stop then pure (.inl (some unit))
          else pure (.inr (stop, byte))
      else if code = unit then pure (.inl (some value))
      else do pure (.inr (← u32 (code + 1), byte))

/-- The UpCase image of a code unit. A round takes at least two bytes of the table, so that the
loop has ended after `byte_length` rounds and one more. -/
def upcaseUnit (unit : ℕ) : FsM ℕ := do
  if unit ≤ 0x7f then
    if 0x61 ≤ unit ∧ unit ≤ 0x7a then pure (unit - 0x61 + 0x41) else pure unit
  else if !vol.upcaseValid then throw .upcaseTableCorrupt
  else do
    let r ← loop (fun _ v => upcaseRound vol unit v) 0 (vol.upcase.byteLength + 1) (0, 0)
    match r with
    | .inl (some v) => pure v
    | .inl none => throw .corrupt
    | .inr _ => panic

def namesMatchLoop : List (ℕ × ℕ) → FsM Bool
  | [] => pure true
  | (left, right) :: rest => do
    let l ← upcaseUnit vol left
    let r ← upcaseUnit vol right
    if l ≠ r then pure false else namesMatchLoop rest

def namesMatch (actual wanted : List ℕ) : FsM Bool :=
  if actual.length ≠ wanted.length then pure false
  else namesMatchLoop vol (actual.zip wanted)

/-! ### Finding a child -/

/-- The operations which work on a caller-owned `Workspace`. -/
abbrev WsM := Exec (Machine × Workspace) Error

/-- Run on the decoder of the workspace. -/
def onEntrySet {α : Type} (m : Exec EntrySet Error α) : WsM α := fun s =>
  match m s.2.entrySet with
  | (o, e) => (o, (s.1, { s.2 with entrySet := e }))

/-- Run on the UTF-16 buffer of the workspace. -/
def onUtf16 {α : Type} (m : Exec (List ℕ) Error α) : WsM α := fun s =>
  match m s.2.utf16 with
  | (o, u) => (o, (s.1, { s.2 with utf16 := u }))

/-- Compare a decoded entry with the units wanted. The comparison uses the scratch buffer for the
UpCase table, so that the directory sector is read again before its next slot. -/
def findChildEntry (lba : ℕ) (entry : DirectoryEntry) (wanted : List ℕ) :
    FsM (Option DirectoryEntry ⊕ Unit) := do
  if ← namesMatch vol entry.nameUtf16 wanted then pure (.inl (some entry))
  else do
    readSector vol.geometry.bytesPerSector lba
    pure (.inr ())

/-- One slot of the directory sector in the scratch buffer. -/
def findChildSlot (wantedLen lba slot : ℕ) : WsM (Option DirectoryEntry ⊕ Unit) := do
  let size := vol.geometry.bytesPerSector
  let offset ← usize (slot * 32)
  let raw ← scratchSlice size offset 32
  if byteAt raw 0 = 0 then pure (.inl none)
  else do
    match ← onEntrySet (EntrySet.push raw ⟨lba, offset % 2 ^ 16⟩) with
    | none => pure (.inr ())
    | some entry => do findChildEntry vol lba entry ((← getSnd).utf16.take wantedLen)

/-- The bytes of a sector which belong to the directory. -/
def usableBytes (dir : Directory) (size remaining : ℕ) : ℕ :=
  if dir.dataLength = 0 then size else min size remaining

/-- One sector of a directory cluster; the loop variable is `remaining`. -/
def findChildSector (dir : Directory) (wantedLen base sector remaining : ℕ) :
    WsM (Option DirectoryEntry ⊕ ℕ) := do
  let size := vol.geometry.bytesPerSector
  if dir.dataLength ≠ 0 ∧ remaining = 0 then pure (.inl none)
  else do
    let lba ← u64 (base + sector)
    readSector size lba
    let usable := usableBytes dir size remaining
    match ← loop (fun slot _ => findChildSlot vol wantedLen lba slot) 0 (usable / 32) () with
    | .inl r => pure (.inl r)
    | .inr () => pure (.inr (if dir.dataLength ≠ 0 then remaining - usable else remaining))

/-- One cluster of the directory; the loop variables are `cluster` and `remaining`. -/
def findChildCluster (dir : Directory) (wantedLen : ℕ) :
    ℕ × ℕ → WsM (Option DirectoryEntry ⊕ (ℕ × ℕ))
  | (cluster, remaining) => do
    let g := vol.geometry
    let base ← okOr .corrupt (← g.clusterLba cluster)
    match ← loop (fun sector remaining => findChildSector vol dir wantedLen base sector remaining)
        0 g.sectorsPerCluster remaining with
    | .inl r => pure (.inl r)
    | .inr remaining =>
      if dir.noFatChain then pure (.inl none)
      else do
        let next ← nextCluster vol cluster
        if 0xfffffff8 ≤ next then pure (.inl none)
        else if next < 2 then throw .corrupt
        else pure (.inr (next, remaining))

/-- The `visited` counter lets at most `cluster_count` rounds start. -/
def findChild (dir : Directory) (wantedLen : ℕ) : WsM (Option DirectoryEntry) := do
  requireScratch vol.geometry.bytesPerSector
  match ← loop (fun _ v => findChildCluster vol dir wantedLen v) 0 vol.geometry.clusterCount
      (dir.firstCluster, dir.dataLength) with
  | .inl r => pure r
  | .inr _ => throw .corrupt

/-! ### Paths -/

/-- `path.split('/')` without its empty segments. -/
def segments (path : List Char) : List (List Char) := (path.splitOn '/').filter (· ≠ [])

/-- `path.trim_matches('/')`. -/
def trimSlashes (path : List Char) : List Char :=
  ((path.dropWhile (· = '/')).reverse.dropWhile (· = '/')).reverse

/-- `path.rsplit_once('/')`. -/
def rsplitOnce (path : List Char) : Option (List Char × List Char) :=
  if '/' ∈ path then
    some ((path.reverse.dropWhile (· ≠ '/')).tail.reverse,
      (path.reverse.takeWhile (· ≠ '/')).reverse)
  else none

/-- Resolve `current` in `dir` and the segments after it below. -/
def lookupFrom (dir : Directory) (current : List Char) : List (List Char) → WsM DirectoryEntry
  | [] => do
    let wantedLen ← onUtf16 (utf8ToUtf16 current)
    okOr .pathNotFound (← findChild vol dir wantedLen)
  | next :: rest => do
    let wantedLen ← onUtf16 (utf8ToUtf16 current)
    let entry ← okOr .pathNotFound (← findChild vol dir wantedLen)
    let dir ← okOr .notDirectory entry.directory
    lookupFrom dir next rest

def lookupWithWorkspace (path : List Char) : WsM DirectoryEntry :=
  match segments path with
  | [] => throw .pathNotFound
  | current :: rest => lookupFrom vol (Directory.root vol.geometry) current rest

/-- Run with a new workspace. -/
def withNewWorkspace {α : Type} (m : WsM α) : FsM α := do
  let (a, _) ← withSnd Workspace.new m
  pure a

def lookup (path : List Char) : FsM DirectoryEntry :=
  withNewWorkspace (lookupWithWorkspace vol path)

/-! ### Listing -/

variable {τ : Type}

/-- One slot of the sector in the scratch buffer. The visitor keeps its own state `τ` and says
whether to go on. -/
def readDirectorySlot (visitor : DirectoryEntry → τ → Bool × τ) (lba slot : ℕ) :
    Exec ((Machine × EntrySet) × τ) Error (Unit ⊕ Unit) := do
  let size := vol.geometry.bytesPerSector
  let offset ← usize (slot * 32)
  let raw ← (scratchSlice size offset 32 : FsM _)
  if byteAt raw 0 = 0 then pure (.inl ())
  else do
    let parsed ← (onSnd (EntrySet.push raw ⟨lba, offset % 2 ^ 16⟩) : Exec (Machine × EntrySet) _ _)
    match parsed with
    | none => pure (.inr ())
    | some entry => do
      let (more, t) := visitor entry (← getSnd)
      modifySnd fun _ => t
      if more then pure (.inr ()) else pure (.inl ())

def readDirectorySector (visitor : DirectoryEntry → τ → Bool × τ) (dir : Directory)
    (base sector remaining : ℕ) : Exec ((Machine × EntrySet) × τ) Error (Unit ⊕ ℕ) := do
  let size := vol.geometry.bytesPerSector
  if dir.dataLength ≠ 0 ∧ remaining = 0 then pure (.inl ())
  else do
    let lba ← u64 (base + sector)
    (readSector size lba : FsM _)
    let usable := usableBytes dir size remaining
    match ← loop (fun slot _ => readDirectorySlot vol visitor lba slot) 0 (usable / 32) () with
    | .inl r => pure (.inl r)
    | .inr () => pure (.inr (if dir.dataLength ≠ 0 then remaining - usable else remaining))

def readDirectoryCluster (visitor : DirectoryEntry → τ → Bool × τ) (dir : Directory) :
    ℕ × ℕ → Exec ((Machine × EntrySet) × τ) Error (Unit ⊕ (ℕ × ℕ))
  | (cluster, remaining) => do
    let g := vol.geometry
    let base ← okOr .corrupt (← g.clusterLba cluster)
    match ← loop (fun sector remaining => readDirectorySector vol visitor dir base sector remaining)
        0 g.sectorsPerCluster remaining with
    | .inl r => pure (.inl r)
    | .inr remaining =>
      if dir.noFatChain then
        if remaining = 0 then pure (.inl ())
        else do
          let next ← okOr .corrupt (checkedAdd32 cluster 1)
          pure (.inr (next, remaining))
      else do
        let next ← (nextCluster vol cluster : FsM _)
        if 0xfffffff8 ≤ next then pure (.inl ())
        else if next < 2 then throw .corrupt
        else pure (.inr (next, remaining))

/-- The scan of `read_directory`, with its decoder in the state. -/
def scanDirectory (dir : Directory) (visitor : DirectoryEntry → τ → Bool × τ) :
    Exec ((Machine × EntrySet) × τ) Error Unit := do
  (requireScratch vol.geometry.bytesPerSector : FsM _)
  match ← loop (fun _ v => readDirectoryCluster vol visitor dir v) 0 vol.geometry.clusterCount
      (dir.firstCluster, dir.dataLength) with
  | .inl r => pure r
  | .inr _ => throw .corrupt

/-- Stream the complete entry sets of `dir` to `visitor`. -/
def readDirectory (dir : Directory) (visitor : DirectoryEntry → τ → Bool × τ) :
    Exec (Machine × τ) Error Unit := fun s =>
  match scanDirectory vol dir visitor ((s.1, EntrySet.new), s.2) with
  | (o, t) => (o, (t.1.1, t.2))

def readRoot (visitor : DirectoryEntry → τ → Bool × τ) : Exec (Machine × τ) Error Unit :=
  readDirectory vol (Directory.root vol.geometry) visitor

/-- All entries of `dir`, in the order of the listing. -/
def listDirectory (dir : Directory) : FsM (List DirectoryEntry) := do
  let (_, entries) ← withSnd [] (readDirectory vol dir fun e es => (true, es ++ [e]))
  pure entries

def firstDirectoryEntry (dir : Directory) : FsM (Option DirectoryEntry) := do
  let (_, first) ← withSnd none (readDirectory vol dir fun e _ => (false, some e))
  pure first

def isDirEmptyWithWorkspace (path : List Char) : WsM Bool := do
  let entry ← lookupWithWorkspace vol (trimSlashes path)
  let dir ← okOr .notDirectory entry.directory
  let first ← firstDirectoryEntry vol dir
  pure first.isNone

def isDirEmpty (path : List Char) : FsM Bool := withNewWorkspace (isDirEmptyWithWorkspace vol path)

end ExfatEmbedded.Lookup
