import ExfatEmbedded.FileIo

/-!
Writing, growing, retiring and updating directory entry sets.
-/

namespace ExfatEmbedded.EntryWrite

open ExfatEmbedded.Library Exec ExfatEmbedded.Core ExfatEmbedded.Entry ExfatEmbedded.Allocation
open ExfatEmbedded.Lookup ExfatEmbedded.FileIo

variable (vol : Volume)

structure NewEntrySet where
  name : List ℕ
  attributes : ℕ
  firstCluster : ℕ
  dataLength : ℕ
  noFatChain : Bool
  created : ExfatTimestamp
  modified : ExfatTimestamp
  accessed : ExfatTimestamp

/-! ### Encoding -/

/-- Add the two bytes of a folded unit to a name hash. -/
def hashUnit (sum unit : ℕ) : ℕ := (leBytes 2 unit).foldl (rotAdd 16) sum

def upcaseNameHash : List ℕ → ℕ → FsM ℕ
  | [], sum => pure sum
  | unit :: rest, sum => do
    let folded ← upcaseUnit vol unit
    upcaseNameHash rest (hashUnit sum folded)

/-- The primary entry of a set of `count` slots, before its checksum is stored. -/
def primaryEntry (c : NewEntrySet) (count : ℕ) : List UInt8 :=
  [0x85, UInt8.ofNat (count - 1), 0, 0] ++ leBytes 2 c.attributes ++ [0, 0] ++
    leBytes 4 c.created.dateTime ++ leBytes 4 c.modified.dateTime ++
    leBytes 4 c.accessed.dateTime ++
    leBytes 1 c.created.tenMillis ++ leBytes 1 c.modified.tenMillis ++
    leBytes 1 c.created.utcOffset ++ leBytes 1 c.modified.utcOffset ++
    leBytes 1 c.accessed.utcOffset ++ List.replicate 7 0

def streamEntry (c : NewEntrySet) (nameHash : ℕ) : List UInt8 :=
  [0xc0, if c.noFatChain then 0x03 else 0x01, 0, UInt8.ofNat c.name.length] ++
    leBytes 2 nameHash ++ [0, 0] ++ leBytes 8 c.dataLength ++ [0, 0, 0, 0] ++
    leBytes 4 c.firstCluster ++ leBytes 8 c.dataLength

/-- The units as bytes, padded with zeros to the thirty of a name entry. -/
def unitBytes (units : List ℕ) : List UInt8 :=
  units.flatMap (leBytes 2) ++ List.replicate (30 - 2 * units.length) 0

/-- The name entry which holds the units from `15 * k` on. -/
def nameEntry (name : List ℕ) (k : ℕ) : List UInt8 :=
  [0xc1, 0] ++ unitBytes ((name.drop (15 * k)).take 15)

def entrySlot (c : NewEntrySet) (count nameHash : ℕ) : ℕ → List UInt8
  | 0 => primaryEntry c count
  | 1 => streamEntry c nameHash
  | k + 2 => nameEntry c.name k

/-- Read a slot's sector, replace bytes in it and write it back. -/
def patchSlot (locator : EntryLocator) (off : ℕ) (bs : List UInt8) : FsM Unit := do
  let size := vol.geometry.bytesPerSector
  readSector size locator.lba
  scratchPatch size (locator.offset + off) bs
  writeSector size locator.lba

/-- The slots of an entry set, written one by one; returns the checksum. -/
def writeSlots (c : NewEntrySet) (count nameHash : ℕ) :
    List EntryLocator → ℕ → ℕ → FsM ℕ
  | [], _, checksum => pure checksum
  | locator :: rest, index, checksum => do
    let entry := entrySlot c count nameHash index
    let checksum := checksumStep checksum entry (index = 0)
    if vol.geometry.bytesPerSector < locator.offset + 32 then throw .corrupt
    else do
      patchSlot vol locator 0 entry
      writeSlots c count nameHash rest (index + 1) checksum

def writeEntrySet (locators : List EntryLocator) (c : NewEntrySet) : FsM Unit := do
  if ¬ (3 ≤ locators.length ∧ locators.length ≤ 19) ∨
      (c.name.length + 14) / 15 + 2 ≠ locators.length then throw .corrupt
  else do
    let nameHash ← upcaseNameHash vol c.name 0
    let checksum ← writeSlots vol c locators.length nameHash locators 0 0
    patchSlot vol (locators.getD 0 ⟨0, 0⟩) 2 (leBytes 2 checksum)

/-! ### Committing stream metadata -/

/-- The checksum of the slots as they are on the media; `checked` says whether a slot past the
end of its sector is rejected rather than sliced. -/
def readChecksum (checked : Bool) : List EntryLocator → Bool → ℕ → FsM ℕ
  | [], _, checksum => pure checksum
  | locator :: rest, primary, checksum => do
    let size := vol.geometry.bytesPerSector
    if checked ∧ size < locator.offset + 32 then throw .corrupt
    else do
      readSector size locator.lba
      let raw ← scratchSlice size locator.offset 32
      readChecksum checked rest false (checksumStep checksum raw primary)

def updateStream (file : File) : FsM Unit := do
  if file.entryCount < 2 ∨ file.entryLocs.length < file.entryCount then throw .corrupt
  else do
    let size := vol.geometry.bytesPerSector
    readSector size file.stream.lba
    let stream := file.stream.offset
    if size < stream + 32 then throw .corrupt
    else do
      scratchPatch size (stream + 1) [if file.noFatChain then 0x03 else 0x01]
      scratchPatch size (stream + 8) (leBytes 8 file.validLength)
      scratchPatch size (stream + 20) (leBytes 4 file.firstCluster)
      scratchPatch size (stream + 24) (leBytes 8 file.dataLength)
      writeSector size file.stream.lba
      let checksum ← readChecksum vol true (file.entryLocs.take file.entryCount) true 0
      readSector size file.primary.lba
      if size < file.primary.offset + 32 then throw .corrupt
      else do
        scratchPatch size (file.primary.offset + 2) (leBytes 2 checksum)
        writeSector size file.primary.lba

def recomputeEntryChecksum (entry : DirectoryEntry) : FsM Unit := do
  let checksum ← readChecksum vol false (entry.entryLocs.take entry.entryCount) true 0
  patchSlot vol entry.primary 2 (leBytes 2 checksum)

/-! ### Retiring and releasing -/

/-- Clear the in-use bit of each slot. -/
def retireSlots : List EntryLocator → FsM Unit
  | [] => pure ()
  | locator :: rest => do
    let size := vol.geometry.bytesPerSector
    if size < locator.offset + 32 then throw .corrupt
    else do
      readSector size locator.lba
      let raw ← scratchSlice size locator.offset 1
      scratchPatch size locator.offset (leBytes 1 (ofLe raw % 0x80))
      writeSector size locator.lba
      retireSlots rest

def retireEntrySet (entry : DirectoryEntry) : FsM Unit :=
  retireSlots vol (entry.entryLocs.take entry.entryCount)

/-- One round of the release loop; the loop variable is `cluster`. -/
def releaseRound (noFatChain : Bool) (clusters index cluster : ℕ) : FsM (Empty ⊕ ℕ) := do
  let nextIndex ← u64 (index + 1)
  let next ← (if noFatChain ∨ nextIndex = clusters then pure none
    else some <$> nextCluster vol cluster : FsM (Option ℕ))
  setFat vol cluster 0
  setBitmap vol cluster false
  match next with
  | none => pure (.inr cluster)
  | some next =>
    if next < 2 ∨ saturatingAdd32 vol.geometry.clusterCount 2 ≤ next then throw .corrupt
    else pure (.inr next)

def releaseEntryClusters (entry : DirectoryEntry) : FsM Unit := do
  if entry.firstCluster < 2 ∨ entry.dataLength = 0 then pure ()
  else do
    let clusterBytes ← vol.geometry.bytesPerCluster
    let clusters ← divCeil entry.dataLength clusterBytes
    let _ ← loop (releaseRound vol entry.noFatChain clusters) 0 clusters entry.firstCluster
    pure ()

/-! ### Finding free slots -/

/-- Run on the locator buffer of the workspace. -/
def modifyLocators (f : List EntryLocator → List EntryLocator) : WsM Unit :=
  modifySnd fun ws => { ws with locators := f ws.locators }

/-- One slot of the sector in the scratch buffer; the loop variable is `run`. The loop ends with
the locators when the run is long enough. -/
def freeSlot (wanted lba slot run : ℕ) : WsM (List EntryLocator ⊕ ℕ) := do
  let size := vol.geometry.bytesPerSector
  let raw ← scratchSlice size (slot * 32) 1
  if ofLe raw < 0x80 then do
    when (run < wanted) (modifyLocators (·.set run ⟨lba, (slot * 32) % 2 ^ 16⟩))
    if run + 1 = wanted then pure (.inl (← getSnd).locators)
    else pure (.inr (run + 1))
  else pure (.inr 0)

/-- One sector; the loop variables are `run` and `remaining`. -/
def freeSector (dir : Directory) (wanted base sector : ℕ) :
    ℕ × ℕ → WsM (List EntryLocator ⊕ (ℕ × ℕ))
  | (run, remaining) => do
    let size := vol.geometry.bytesPerSector
    if remaining = 0 ∧ dir.dataLength ≠ 0 then throw .noSpace
    else do
      let lba ← u64 (base + sector)
      readSector size lba
      let slots := usableBytes dir size remaining / 32
      match ← loop (fun slot run => freeSlot vol wanted lba slot run) 0 slots run with
      | .inl r => pure (.inl r)
      | .inr run =>
        pure (.inr (run, if dir.dataLength ≠ 0 then remaining - size else remaining))

/-- The zeroed slots of the last sector of a full directory become fillers, so that readers cross
into the cluster linked behind it. -/
def fillEndMarkers (m : Image) (size : ℕ) : Image := fun i =>
  if i < size / 32 * 32 ∧ i % 32 = 0 ∧ m i = 0 then 0x80 else m i

/-- The handle with which a grown directory commits its own stream. -/
def Directory.meta (dir : Directory) (primary stream : EntryLocator) : File where
  primary := primary
  stream := stream
  entryLocs := dir.entryLocs
  entryCount := dir.entryCount
  firstCluster := dir.firstCluster
  dataLength := dir.dataLength
  validLength := dir.dataLength
  position := 0
  noFatChain := false
  cachedClusterIndex := none
  cachedCluster := 0

/-- Link a new cluster behind the last one; returns the directory with its new length, and the
cluster. -/
def growDirectory (dir : Directory) (cluster base : ℕ) : FsM (Directory × ℕ) := do
  let g := vol.geometry
  let size := g.bytesPerSector
  let preferred ← okOr .noSpace (checkedAdd32 cluster 1)
  let new ← allocateClusterPreferred vol preferred
  setFat vol cluster new
  let lastLba ← u64 (base + (← sub g.sectorsPerCluster 1))
  readSector size lastLba
  modify fun s => { s with scratch := { s.scratch with
    bytes := fillEndMarkers s.scratch.bytes size } }
  writeSector size lastLba
  if dir.dataLength ≠ 0 then do
    let clusterBytes ← g.bytesPerCluster
    let dataLength ← okOr .noSpace (checkedAdd64 dir.dataLength clusterBytes)
    let dir := { dir with dataLength := dataLength }
    let primary ← okOr .corrupt dir.primary
    let stream ← okOr .corrupt dir.stream
    updateStream vol (Directory.meta dir primary stream)
    pure (dir, new)
  else pure (dir, new)

/-- The locators of the first `needed` slots of a sector written behind the `run` ones found. -/
def spliceLocators (lba run needed : ℕ) (locators : List EntryLocator) : List EntryLocator :=
  overlay locators run ((List.range needed).map fun index => ⟨lba, (index * 32) % 2 ^ 16⟩)

/-- One cluster; the loop variables are `cluster`, `run` and `remaining`. The walk ends with the
locators, or with the grown directory which is to be scanned again. -/
def freeCluster (dir : Directory) (wanted : ℕ) :
    ℕ × ℕ × ℕ → WsM ((List EntryLocator ⊕ Directory) ⊕ (ℕ × ℕ × ℕ))
  | (cluster, run, remaining) => do
    let g := vol.geometry
    let size := g.bytesPerSector
    let base ← okOr .corrupt (← g.clusterLba cluster)
    match ← loop (fun sector v => freeSector vol dir wanted base sector v)
        0 g.sectorsPerCluster (run, remaining) with
    | .inl r => pure (.inl (.inl r))
    | .inr (run, remaining) =>
      if dir.noFatChain then throw .noSpace
      else do
        let next ← nextCluster vol cluster
        if next < 0xfffffff8 then
          if next < 2 then throw .corrupt
          else pure (.inr (next, run, remaining))
        else do
          let (dir, new) ← growDirectory vol dir cluster base
          if run ≠ 0 then do
            let newLba ← okOr .corrupt (← g.clusterLba new)
            let needed ← sub wanted run
            if needed ≤ size / 32 then do
              modifyLocators (spliceLocators newLba run needed)
              pure (.inl (.inl (← getSnd).locators))
            else pure (.inl (.inr dir))
          else pure (.inl (.inr dir))

/-- One scan of the directory. -/
def freeScan (wanted : ℕ) (dir : Directory) : WsM (List EntryLocator ⊕ Directory) := do
  modifyLocators fun _ => noLocators
  match ← loop (fun _ v => freeCluster vol dir wanted v) 0 vol.geometry.clusterCount
      (dir.firstCluster, 0, dir.dataLength) with
  | .inl r => pure r
  | .inr _ => throw .corrupt

/-- Scan and grow until there is room. A scan which does not return links one more cluster, so
that `cluster_count` scans and two more end the loop. -/
def findFreeEntries (dir : Directory) (wanted : ℕ) : WsM (List EntryLocator) := do
  if ¬ (3 ≤ wanted ∧ wanted ≤ 19) then throw .corrupt
  else do
    match ← loop (fun _ dir => freeScan vol wanted dir) 0 (vol.geometry.clusterCount + 2) dir with
    | .inl locators => pure locators
    | .inr _ => panic

end ExfatEmbedded.EntryWrite
