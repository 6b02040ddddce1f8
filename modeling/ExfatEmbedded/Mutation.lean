import ExfatEmbedded.EntryWrite

/-!
The mutating operations: `append`, `truncate`, `create`, `create_dir_all`, `remove`, `rename`.
-/

namespace ExfatEmbedded.Mutation

open ExfatEmbedded.Library Exec ExfatEmbedded.Core ExfatEmbedded.Entry ExfatEmbedded.Allocation
open ExfatEmbedded.Lookup ExfatEmbedded.FileIo ExfatEmbedded.EntryWrite

variable (vol : Volume)

/-! ### Append -/

/-- The last cluster of a file with at least one. -/
def lastCluster (file : File) (clusterBytes : ℕ) : FsM ℕ := do
  if file.noFatChain then do
    let n ← sub (← div file.dataLength clusterBytes) 1
    let n ← okOr .corrupt (tryU32 n)
    okOr .noSpace (checkedAdd32 file.firstCluster n)
  else do
    let lastIndex ← div (file.dataLength - 1) clusterBytes
    clusterAt vol file.firstCluster lastIndex

/-- Write the FAT links a contiguous extent went without. -/
def linkExtent (file : File) (clusterBytes : ℕ) : FsM Unit := do
  let allocated ← div file.dataLength clusterBytes
  let _ ← loop (ρ := Empty) (fun index _ => do
    let index ← okOr .corrupt (tryU32 index)
    let cluster ← okOr .corrupt (checkedAdd32 file.firstCluster index)
    let next ← okOr .corrupt (checkedAdd32 cluster 1)
    setFat vol cluster next
    pure (.inr ())) 0 (allocated - 1) ()
  pure ()

/-- Take the cluster `new` into the stream of the handle. -/
def linkCluster (last : Option ℕ) (preferred new clusterBytes : ℕ) : FileM Unit := do
  let file ← getSnd
  if file.firstCluster = 0 then modifySnd fun file => { file with firstCluster := new }
  else if file.noFatChain ∧ new = preferred then pure ()
  else do
    when file.noFatChain do
      linkExtent vol file clusterBytes
      modifySnd fun file => { file with noFatChain := false, cachedClusterIndex := none }
    let last ← okOr .corrupt last
    setFat vol last new

/-- The cluster an appender asks for. -/
def preferredAfter : Option ℕ → FsM ℕ
  | some last => okOr .noSpace (checkedAdd32 last 1)
  | none => pure 2

/-- One round of the growth loop of `append`. -/
def growRound (stop clusterBytes : ℕ) : FileM (Unit ⊕ Unit) := do
  let file ← getSnd
  if stop ≤ file.dataLength then pure (.inl ())
  else do
    let last ← (if file.firstCluster = 0 then pure none
      else some <$> lastCluster vol file clusterBytes : FsM (Option ℕ))
    let preferred ← preferredAfter last
    let new ← allocateClusterPreferred vol preferred
    linkCluster vol last preferred new clusterBytes
    let dataLength ← okOr .noSpace (checkedAdd64 (← getSnd).dataLength clusterBytes)
    modifySnd fun file => { file with dataLength := dataLength }
    pure (.inr ())

/-- The part of `append` whose errors restore the handle. A round of the growth loop adds a
cluster, so that the given number of rounds ends it. -/
def appendBody (input : List UInt8) : FileM ℕ := do
  modifySnd fun file => { file with cachedClusterIndex := none }
  let clusterBytes ← vol.geometry.bytesPerCluster
  let file ← getSnd
  let stop ← okOr .noSpace (checkedAdd64 file.validLength input.length)
  let rounds ← div (stop - file.dataLength) clusterBytes
  match ← loop (fun _ _ => growRound vol stop clusterBytes) 0 (rounds + 2) () with
  | .inr () => panic
  | .inl () =>
    modifySnd fun file => { file with position := file.validLength, validLength := stop }
    let written ← write vol input
    if written ≠ input.length then throw .corrupt
    else do
      let file ← getSnd
      updateStream vol file
      pure written

def append (input : List UInt8) : FileM ℕ := do
  if input = [] then pure 0
  else do
    let original ← getSnd
    restoreSnd original (appendBody vol input)

/-! ### Truncate -/

/-- The cluster after `cluster` in a stream. -/
def followCluster (noFatChain : Bool) (cluster : ℕ) : FsM ℕ :=
  if noFatChain then okOr .corrupt (checkedAdd32 cluster 1) else nextCluster vol cluster

/-- The last of the `keep` clusters which stay. -/
def lastKept (file : File) (keep : ℕ) : FsM ℕ :=
  if file.noFatChain then do
    let n ← okOr .corrupt (tryU32 keep)
    let past ← okOr .corrupt (checkedAdd32 file.firstCluster n)
    okOr .corrupt (checkedSub past 1)
  else clusterAt vol file.firstCluster (keep - 1)

/-- One round of the release loops of `truncate`; the loop variable is `cluster`. -/
def truncateRound (noFatChain : Bool) (cluster : ℕ) : FsM (Empty ⊕ ℕ) := do
  let next ← followCluster vol noFatChain cluster
  setFat vol cluster 0
  setBitmap vol cluster false
  pure (.inr next)

/-- Release all clusters of the stream. -/
def releaseAll (file : File) (allocated : ℕ) : FsM Unit := do
  let _ ← loop (fun _ cluster => truncateRound vol file.noFatChain cluster) 0 allocated
    file.firstCluster
  pure ()

/-- Terminate the stream behind its first `keep` clusters, and release the others. -/
def releaseTail (file : File) (keep allocated : ℕ) : FsM Unit := do
  let last ← lastKept vol file keep
  let cluster ← followCluster vol file.noFatChain last
  setFat vol last 0xffffffff
  let _ ← loop (fun _ cluster => truncateRound vol file.noFatChain cluster) keep
    (allocated - keep) cluster
  pure ()

/-- Release the clusters behind the first `keep`, when `allocated` is more. -/
def truncateClusters (keep allocated clusterBytes : ℕ) : FileM Unit := do
  let file ← getSnd
  if keep = 0 then do
    releaseAll vol file allocated
    modifySnd fun file => { file with firstCluster := 0 }
    shrink keep clusterBytes
  else do
    releaseTail vol file keep allocated
    shrink keep clusterBytes
where
  /-- The length of the `keep` clusters becomes the length of the stream. -/
  shrink (keep clusterBytes : ℕ) : FileM Unit := do
    let dataLength ← okOr .corrupt (checkedMul64 keep clusterBytes)
    modifySnd fun file => { file with dataLength := dataLength, cachedClusterIndex := none }

/-- `div_ceil` by the cluster size, after the test for zero. -/
def clustersOf (len clusterBytes : ℕ) : FsM ℕ :=
    if len = 0 then pure 0 else divCeil len clusterBytes

def truncate (len : ℕ) : FileM Unit := do
  let file ← getSnd
  if file.validLength < len then throw .endOfFile
  else do
    let clusterBytes ← vol.geometry.bytesPerCluster
    let keep ← clustersOf len clusterBytes
    let allocated ← clustersOf file.dataLength clusterBytes
    when (keep < allocated) (truncateClusters vol keep allocated clusterBytes)
    modifySnd fun file => { file with validLength := len, position := min file.position len }
    let file ← getSnd
    updateStream vol file

/-! ### Creation -/

/-- The number of slots of the entry set of a name. -/
def slotCount (len : ℕ) : ℕ := 2 + (len + 14) / 15

/-- The directory named by everything before the last component, and that component. -/
def splitPath (path : List Char) : WsM (Directory × List Char) :=
  match rsplitOnce path with
  | some (parentPath, name) => do
    let entry ← lookupWithWorkspace vol parentPath
    let parent ← okOr .notDirectory entry.directory
    pure (parent, name)
  | none => pure (Directory.root vol.geometry, path)

/-- The handle of a new empty file at `entryLocs`. -/
def File.new (entryLocs : List EntryLocator) (entries : ℕ) : File where
  primary := entryLocs.getD 0 ⟨0, 0⟩
  stream := entryLocs.getD 1 ⟨0, 0⟩
  entryLocs := entryLocs
  entryCount := entries % 2 ^ 8
  firstCluster := 0
  dataLength := 0
  validLength := 0
  position := 0
  noFatChain := true
  cachedClusterIndex := none
  cachedCluster := 0

/-- The entry set of a new empty file. -/
def newFileSet (name : List ℕ) : NewEntrySet where
  name := name
  attributes := 0
  firstCluster := 0
  dataLength := 0
  noFatChain := true
  created := {}
  modified := {}
  accessed := {}

/-- Make a file in a directory which has none of that name. -/
def createFresh (parent : Directory) (name : List Char) : WsM File := do
  let len ← onUtf16 (utf8ToUtf16 name)
  let entries := slotCount len
  let entryLocs ← findFreeEntries vol parent entries
  let name := (← getSnd).utf16.take len
  writeEntrySet vol (entryLocs.take entries) (newFileSet name)
  pure (File.new entryLocs entries)

def createWithWorkspace (path : List Char) : WsM File := do
  let path := trimSlashes path
  if path = [] then throw .invalidPath
  else do
    let (parent, name) ← splitPath vol path
    match ← attempt (openWithWorkspace vol path) with
    | .ok file => do
      let (_, file) ← (withSnd file (truncate vol 0) : FsM _)
      pure file
    | .error .pathNotFound => createFresh vol parent name
    | .error e => throw e

def create (path : List Char) : FsM File := withNewWorkspace (createWithWorkspace vol path)

/-- The entry set of a new directory of one cluster. -/
def newDirectorySet (name : List ℕ) (cluster clusterBytes : ℕ) : NewEntrySet where
  name := name
  attributes := 0x10
  firstCluster := cluster
  dataLength := clusterBytes
  noFatChain := false
  created := {}
  modified := {}
  accessed := {}

/-- The extent of a new directory whose set is at `entryLocs`. -/
def Directory.new (entryLocs : List EntryLocator) (entries cluster clusterBytes : ℕ) :
    Directory where
  firstCluster := cluster
  dataLength := clusterBytes
  noFatChain := false
  primary := some (entryLocs.getD 0 ⟨0, 0⟩)
  stream := some (entryLocs.getD 1 ⟨0, 0⟩)
  entryLocs := entryLocs
  entryCount := entries % 2 ^ 8

/-- Make one directory in `parent`. -/
def createDirectory (parent : Directory) (len : ℕ) : WsM Directory := do
  let entries := slotCount len
  let entryLocs ← findFreeEntries vol parent entries
  let cluster ← allocateCluster vol
  let clusterBytes ← vol.geometry.bytesPerCluster
  let name := (← getSnd).utf16.take len
  writeEntrySet vol (entryLocs.take entries) (newDirectorySet name cluster clusterBytes)
  pure (Directory.new entryLocs entries cluster clusterBytes)

/-- Find or make one path component in `parent`. -/
def enterDirectory (parent : Directory) (name : List Char) : WsM Directory := do
  let len ← onUtf16 (utf8ToUtf16 name)
  match ← findChild vol parent len with
  | some entry => okOr .notDirectory entry.directory
  | none => createDirectory vol parent len

def enterDirectories : Directory → List (List Char) → WsM Unit
  | _, [] => pure ()
  | parent, name :: rest => do
    let parent ← enterDirectory vol parent name
    enterDirectories parent rest

def createDirAllWithWorkspace (path : List Char) : WsM Unit := do
  let path := trimSlashes path
  if path = [] then throw .invalidPath
  else enterDirectories vol (Directory.root vol.geometry) (segments path)

def createDirAll (path : List Char) : FsM Unit :=
  withNewWorkspace (createDirAllWithWorkspace vol path)

/-! ### Removal -/

/-- Whether `entry` is a directory with an entry in it. -/
def isOccupied (entry : DirectoryEntry) : FsM Bool :=
  match entry.directory with
  | some dir => do
    let first ← firstDirectoryEntry vol dir
    pure first.isSome
  | none => pure false

def removeEntryTree (entry : DirectoryEntry) : FsM Unit := do
  if ← isOccupied vol entry then throw .directoryNotEmpty
  else do
    retireEntrySet vol entry
    releaseEntryClusters vol entry

def removeWithWorkspace (path : List Char) : WsM Unit := do
  let entry ← lookupWithWorkspace vol (trimSlashes path)
  removeEntryTree vol entry

def remove (path : List Char) : FsM Unit := withNewWorkspace (removeWithWorkspace vol path)

/-! ### Renaming -/

/-- The directory which holds the last component of `path`. -/
def parentDirectory (path : List Char) : WsM Directory :=
  match rsplitOnce (trimSlashes path) with
  | some (parentPath, _) => do
    let entry ← lookupWithWorkspace vol parentPath
    okOr .notDirectory entry.directory
  | none => pure (Directory.root vol.geometry)

/-- The entry set which replaces that of `entry` under a new name. -/
def renamedSet (entry : DirectoryEntry) (name : List ℕ) : NewEntrySet where
  name := name
  attributes := if entry.isDirectory then 0x10 else 0
  firstCluster := entry.firstCluster
  dataLength := entry.dataLength
  noFatChain := entry.noFatChain
  created := entry.created
  modified := entry.modified
  accessed := entry.accessed

/-- The branch of `rename` for a name which needs more slots than the old one. -/
def renameRelocate (path : List Char) (entry : DirectoryEntry) (len : ℕ) : WsM Unit := do
  let entries := (len + 14) / 15 + 2
  let parent ← parentDirectory vol path
  let locators ← findFreeEntries vol parent entries
  let name := (← getSnd).utf16.take len
  writeEntrySet vol (locators.take entries) (renamedSet entry name)
  retireEntrySet vol entry

/-- Rewrite the name slots in place, `index` being the number of the first. -/
def renameSlots (name : List ℕ) : List EntryLocator → ℕ → FsM Unit
  | [], _ => pure ()
  | locator :: rest, index => do
    let size := vol.geometry.bytesPerSector
    readSector size locator.lba
    scratchPatch size locator.offset [0xc1]
    -- `workspace.utf16[start..len.min(start + 15)]` is a slice only for `start` up to `len`
    assert (index * 15 ≤ min name.length (index * 15 + 15))
    scratchPatch size (locator.offset + 2) (unitBytes ((name.drop (index * 15)).take 15))
    writeSector size locator.lba
    renameSlots name rest (index + 1)

/-- The branch of `rename` which reuses the slots of the old name. -/
def renameInPlace (entry : DirectoryEntry) (name : List ℕ) : FsM Unit := do
  let hash ← upcaseNameHash vol name 0
  let size := vol.geometry.bytesPerSector
  readSector size entry.stream.lba
  scratchPatch size (entry.stream.offset + 3) [UInt8.ofNat name.length]
  scratchPatch size (entry.stream.offset + 4) (leBytes 2 hash)
  writeSector size entry.stream.lba
  renameSlots vol name ((entry.entryLocs.take entry.entryCount).drop 2) 0
  recomputeEntryChecksum vol entry

def renameWithWorkspace (path newName : List Char) : WsM Unit := do
  if newName = [] ∨ '/' ∈ newName then throw .invalidPath
  else do
    let entry ← lookupWithWorkspace vol (trimSlashes path)
    let len ← onUtf16 (utf8ToUtf16 newName)
    if entry.entryCount < (len + 14) / 15 + 2 then renameRelocate vol path entry len
    else do
      let name := (← getSnd).utf16.take len
      renameInPlace vol entry name

def rename (path newName : List Char) : FsM Unit :=
  withNewWorkspace (renameWithWorkspace vol path newName)

end ExfatEmbedded.Mutation
