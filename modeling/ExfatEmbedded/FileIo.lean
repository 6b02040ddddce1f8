import ExfatEmbedded.Lookup

/-!
Detached file handles, and reading and writing within the valid length of a file.
-/

namespace ExfatEmbedded.FileIo

open ExfatEmbedded.Library Exec ExfatEmbedded.Core ExfatEmbedded.Entry ExfatEmbedded.Allocation
open ExfatEmbedded.Lookup

variable (vol : Volume)

/-- A detached handle for a regular file. `cachedClusterIndex` and `cachedCluster` remember the
last cluster resolved through a FAT chain. -/
structure File where
  primary : EntryLocator
  stream : EntryLocator
  entryLocs : List EntryLocator
  entryCount : ℕ
  firstCluster : ℕ
  dataLength : ℕ
  validLength : ℕ
  position : ℕ
  noFatChain : Bool
  cachedClusterIndex : Option ℕ
  cachedCluster : ℕ
  deriving DecidableEq, Repr

/-- The operations on a file handle; an error keeps what they did to the handle. -/
abbrev FileM := Exec (Machine × File) Error

/-- Where the walk to cluster index `wanted` starts. -/
def File.walkStart (file : File) (wanted : ℕ) : ℕ × ℕ :=
  match file.cachedClusterIndex with
  | some index => if index ≤ wanted then (index, file.cachedCluster) else (0, file.firstCluster)
  | none => (0, file.firstCluster)

/-- The loop of `file_cluster_at`, from cluster index `index` on. -/
def walkChain (first : ℕ) (index count cluster : ℕ) : FsM ℕ := do
  let g := vol.geometry
  let r ← loop (ρ := Empty) (fun index previous => do
    let cluster ← nextCluster vol previous
    let nextIndex ← u64 (index + 1)
    if g.InHeap cluster then pure (.inr cluster)
    else do
      let fatByte ← u64 (previous * 4)
      let fatLba ← okOr .corrupt (← g.fatLbaForByte fatByte)
      throw (.fileChainInvalid first nextIndex previous cluster fatLba)) index count cluster
  match r with
  | .inr cluster => pure cluster

def fileClusterAt (wanted : ℕ) : FileM ℕ := do
  let g := vol.geometry
  let file ← getSnd
  if g.clusterCount ≤ wanted then throw .corrupt
  else if file.noFatChain then do
    let wanted ← okOr .corrupt (tryU32 wanted)
    let cluster ← okOr .corrupt (checkedAdd32 file.firstCluster wanted)
    if g.InHeap cluster then pure cluster else throw .corrupt
  else
    let (index, cluster) := file.walkStart wanted
    if ¬ g.InHeap cluster then throw .corrupt
    else do
      let cluster ← walkChain vol file.firstCluster index (wanted - index) cluster
      modifySnd fun file =>
        { file with cachedClusterIndex := some wanted, cachedCluster := cluster }
      pure cluster

/-- The handle `open` returns for an entry. -/
def File.ofEntry (entry : DirectoryEntry) : File where
  primary := entry.primary
  stream := entry.stream
  entryLocs := entry.entryLocs
  entryCount := entry.entryCount
  firstCluster := entry.firstCluster
  dataLength := entry.dataLength
  validLength := entry.validLength
  position := 0
  noFatChain := entry.noFatChain
  cachedClusterIndex := none
  cachedCluster := 0

def openWithWorkspace (path : List Char) : WsM File := do
  let entry ← lookupWithWorkspace vol path
  if entry.isDirectory then throw .isDirectory
  else pure (File.ofEntry entry)

def openFile (path : List Char) : FsM File := withNewWorkspace (openWithWorkspace vol path)

/-- The sector and the offset in it of the handle's position. -/
def filePosition : FileM (ℕ × ℕ) := do
  let g := vol.geometry
  let size := g.bytesPerSector
  let clusterBytes ← g.bytesPerCluster
  let offset := (← getSnd).position
  let clusterIndex ← div offset clusterBytes
  let cluster ← fileClusterAt vol clusterIndex
  let within ← rem offset clusterBytes
  let base ← okOr .corrupt (← g.clusterLba cluster)
  let lba ← u64 (base + (← div within size))
  let sectorOffset ← rem within size
  pure (lba, sectorOffset)

/-- Advance the handle by `count` bytes. -/
def advance (count : ℕ) : FileM Unit := do
  let position ← u64 ((← getSnd).position + count)
  modifySnd fun file => { file with position := position }

/-- One round of `read`; the loop variable is the bytes read so far. -/
def readRound (wanted : ℕ) (out : List UInt8) : FileM (List UInt8 ⊕ List UInt8) := do
  if wanted ≤ out.length then pure (.inl out)
  else do
    let size := vol.geometry.bytesPerSector
    let (lba, sectorOffset) ← filePosition vol
    readSector size lba
    let inSector ← sub size sectorOffset
    let count := min inSector (wanted - out.length)
    let bytes ← scratchSlice size sectorOffset count
    advance count
    pure (.inr (out ++ bytes))

/-- Read into a buffer of `outLen` bytes. A round reads at least one byte, so that `wanted` rounds
and one more end the loop. -/
def read (outLen : ℕ) : FileM (List UInt8) := do
  let file ← getSnd
  if file.validLength ≤ file.position ∨ outLen = 0 then pure []
  else do
    let left ← sub file.validLength file.position
    let wanted := min outLen left
    match ← loop (fun _ out => readRound vol wanted out) 0 (wanted + 1) [] with
    | .inl out => pure out
    | .inr _ => panic

/-- One round of `write`; the loop variable is the number of bytes written so far. -/
def writeRound (wanted : ℕ) (input : List UInt8) (done : ℕ) : FileM (ℕ ⊕ ℕ) := do
  if wanted ≤ done then pure (.inl done)
  else do
    let size := vol.geometry.bytesPerSector
    let (lba, sectorOffset) ← filePosition vol
    let inSector ← sub size sectorOffset
    let count := min inSector (wanted - done)
    when (sectorOffset ≠ 0 ∨ count ≠ size) (readSector size lba)
    scratchPatch size sectorOffset ((input.drop done).take count)
    writeSector size lba
    advance count
    pure (.inr (done + count))

/-- Write within the already allocated valid range. -/
def write (input : List UInt8) : FileM ℕ := do
  let file ← getSnd
  if file.validLength ≤ file.position ∨ input = [] then pure 0
  else do
    let left ← sub file.validLength file.position
    let wanted := min input.length left
    match ← loop (fun _ done => writeRound vol wanted input done) 0 (wanted + 1) 0 with
    | .inl done => pure done
    | .inr _ => panic

end ExfatEmbedded.FileIo
