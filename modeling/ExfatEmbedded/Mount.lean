import ExfatEmbedded.Lookup

/-!
Volume mounting and media discovery.
-/

namespace ExfatEmbedded.Mount

open ExfatEmbedded.Library Exec ExfatEmbedded.Core ExfatEmbedded.Entry ExfatEmbedded.Allocation

/-! ### Partition tables -/

def checkedSectorSize (size : ℕ) : FsM ℕ :=
  if size = 512 ∨ size = 1024 ∨ size = 2048 ∨ size = 4096 then pure size
  else throw .unsupportedSectorSize

/-- The four 16-byte entries of an MBR sector. -/
def mbrEntries (sector : List UInt8) : List (List UInt8) :=
  (List.range 4).map fun i => (sector.drop (446 + 16 * i)).take 16

def hasProtectiveMbr (sector : List UInt8) : Bool :=
  512 ≤ sector.length && (mbrEntries sector).any fun entry => byteAt entry 4 = 0xee

def mbrPartition (sector : List UInt8) : FsM Partition :=
  if sector.length < 512 ∨ byteAt sector 510 ≠ 0x55 ∨ byteAt sector 511 ≠ 0xaa then
    throw .invalidPartitionTable
  else
    okOr .partitionNotFound (((mbrEntries sector).find? fun entry =>
      byteAt entry 4 = 0x07 && numAt entry 8 4 ≠ 0 && numAt entry 12 4 ≠ 0).map fun entry =>
        ⟨numAt entry 8 4, numAt entry 12 4⟩)

/-- Eight rounds of the reflected CRC-32 polynomial. -/
def crc32Bits : ℕ → ℕ → ℕ
  | 0, state => state
  | n + 1, state => crc32Bits n (if state % 2 = 1 then (state / 2) ^^^ 0xedb88320 else state / 2)

def crc32Step (state : ℕ) (bytes : List UInt8) : ℕ :=
  bytes.foldl (fun state byte => crc32Bits 8 (state ^^^ byte.toNat)) state

def crc32 (bytes : List UInt8) : ℕ := crc32Step 0xffffffff bytes ^^^ 0xffffffff

/-- `"EFI PART"`. -/
def gptSignature : List UInt8 := [0x45, 0x46, 0x49, 0x20, 0x50, 0x41, 0x52, 0x54]

def basicDataGuidLe : List UInt8 :=
  [0xa2, 0xa0, 0xd0, 0xeb, 0xe5, 0xb9, 0x33, 0x44, 0x87, 0xc0, 0x68, 0xb6, 0xb7, 0x26, 0x99, 0xc7]

/-- The fields of a GPT header which place and check the entry array. -/
structure GptHeader where
  entriesLba : ℕ
  entryCount : ℕ
  entrySize : ℕ
  entriesCrc : ℕ

/-- `header[from..to]` of a header of `header.len()` bytes. -/
def headerField (header : List UInt8) (i n : ℕ) : FsM ℕ := do
  assert (i + n ≤ header.length)
  pure (numAt header i n)

def gptHeader (sectorSize : ℕ) (header : List UInt8) : FsM GptHeader := do
  assert (8 ≤ header.length)
  if header.take 8 ≠ gptSignature then throw .invalidGpt
  else do
    let headerSize ← headerField header 12 4
    if ¬ (92 ≤ headerSize ∧ headerSize ≤ sectorSize) then throw .invalidGpt
    else do
      let expectedHeaderCrc ← headerField header 16 4
      let header := overlay header 16 [0, 0, 0, 0]
      assert (headerSize ≤ header.length)
      if crc32 (header.take headerSize) ≠ expectedHeaderCrc then throw .invalidGpt
      else do
        let entriesLba ← headerField header 72 8
        let entryCount ← headerField header 80 4
        let entrySize ← headerField header 84 4
        let entriesCrc ← headerField header 88 4
        if entryCount = 0 ∨ 16384 < entryCount ∨ entrySize < 128 ∨ sectorSize < entrySize ∨
            entrySize % 8 ≠ 0 then throw .invalidGpt
        else pure ⟨entriesLba, entryCount, entrySize, entriesCrc⟩

/-- One entry of a sector of the array; the loop variables are `offset` and `candidate`. -/
def gptEntry (sectorSize tableBytes entrySize base : ℕ) (data : List UInt8) :
    ℕ × Option Partition → FsM (Option Partition ⊕ (ℕ × Option Partition))
  | (offset, candidate) => do
    let stop ← usize (offset + entrySize)
    if sectorSize < stop then pure (.inl candidate)
    else do
      let start ← u64 (base + offset)
      if tableBytes ≤ start then pure (.inl candidate)
      else do
        assert (stop ≤ data.length ∧ 48 ≤ entrySize)
        let entry := (data.drop offset).take entrySize
        if entry.take 16 = basicDataGuidLe ∧ candidate = none then do
          let firstLba := numAt entry 32 8
          let lastLba := numAt entry 40 8
          if firstLba = 0 ∨ lastLba < firstLba ∨ (← get).device.sectorCount ≤ lastLba then
            throw .invalidGpt
          else do
            let sectorCount ← u64 ((← sub lastLba firstLba) + 1)
            pure (.inr (stop, some ⟨firstLba, sectorCount⟩))
        else pure (.inr (stop, candidate))

/-- One sector of the array; the loop variables are `entries_crc` and `candidate`. -/
def gptSector (sectorSize tableBytes : ℕ) (h : GptHeader) (sectorIndex : ℕ) :
    ℕ × Option Partition → FsM (Empty ⊕ (ℕ × Option Partition))
  | (entriesCrc, candidate) => do
    let lba ← u64 (h.entriesLba + sectorIndex)
    readSector sectorSize lba
    let data ← scratchSlice sectorSize 0 sectorSize
    let base ← u64 (sectorIndex * sectorSize)
    let usable := min sectorSize (← sub tableBytes base)
    let entriesCrc := crc32Step entriesCrc (data.take usable)
    -- every round advances `offset`, so that the sector is used up after `sector_size` rounds
    match ← loop (fun _ v => gptEntry sectorSize tableBytes h.entrySize base data v) 0
        (sectorSize + 1) (0, candidate) with
    | .inl candidate => pure (.inr (entriesCrc, candidate))
    | .inr _ => panic

def gptPartition (sectorSize : ℕ) : FsM Partition := do
  if (← get).device.sectorCount < 2 then throw .invalidGpt
  else do
    readSector sectorSize 1
    let header ← scratchSlice sectorSize 0 sectorSize
    let h ← gptHeader sectorSize header
    let tableBytes ← okOr .invalidGpt (checkedMul64 h.entryCount h.entrySize)
    let rounded ← okOr .invalidGpt (checkedAdd64 tableBytes (← sub sectorSize 1))
    let tableSectors ← div rounded sectorSize
    let sectorCount := (← get).device.sectorCount
    let fits := (checkedAdd64 h.entriesLba tableSectors).any (· ≤ sectorCount)
    if h.entriesLba = 0 ∨ !fits then throw .invalidGpt
    else do
      match ← loop (fun i v => gptSector sectorSize tableBytes h i v) 0 tableSectors
          (0xffffffff, none) with
      | .inr (entriesCrc, candidate) =>
        if entriesCrc ^^^ 0xffffffff ≠ h.entriesCrc then throw .invalidGpt
        else okOr .partitionNotFound candidate

/-! ### The boot region -/

/-- The boot checksum over one sector; the first leaves out the volume flags and the percentage
in use. -/
def bootSum (sectorIndex : ℕ) (checksum : ℕ) (sector : List UInt8) : ℕ :=
  sector.zipIdx.foldl (fun sum p =>
    if sectorIndex = 0 ∧ (p.2 = 106 ∨ p.2 = 107 ∨ p.2 = 112) then sum
    else rotAdd 32 sum p.1) checksum

/-- The four-byte words of a sector. -/
def words (sector : List UInt8) : List ℕ :=
  (List.range (sector.length / 4)).map fun i => numAt sector (4 * i) 4

def validateBootChecksum (p : Partition) (bootOffset sectorSize : ℕ) : FsM Unit := do
  let needed ← u64 (bootOffset + 12)
  if p.sectorCount < needed then throw .invalidBootSector
  else do
    match ← loop (ρ := Empty) (fun sectorIndex checksum => do
      let lba ← u64 (p.firstLba + bootOffset + sectorIndex)
      readSector sectorSize lba
      let sector ← scratchSlice sectorSize 0 sectorSize
      pure (.inr (bootSum sectorIndex checksum sector))) 0 11 0 with
    | .inr checksum =>
      let lba ← u64 (p.firstLba + bootOffset + 11)
      readSector sectorSize lba
      let sector ← scratchSlice sectorSize 0 sectorSize
      if (words sector).any (· ≠ checksum) then throw .invalidBootSector else pure ()

/-- `"EXFAT   "`. -/
def exfatSignature : List UInt8 := [0x45, 0x58, 0x46, 0x41, 0x54, 0x20, 0x20, 0x20]

def jumpBoot : List UInt8 := [0xeb, 0x76, 0x90]

/-- The bytes `from..to` of a boot sector. -/
def bootRange (boot : List UInt8) (i n : ℕ) : List UInt8 := (boot.drop i).take n

def parseBoot (partition : Partition) (boot : List UInt8) (deviceSectorSize : ℕ) :
    FsM Geometry := do
  if boot.length < 512 ∨ bootRange boot 3 8 ≠ exfatSignature ∨ byteAt boot 510 ≠ 0x55 ∨
      byteAt boot 511 ≠ 0xaa then throw .invalidBootSector
  else if bootRange boot 0 3 ≠ jumpBoot ∨ (bootRange boot 11 53).any (· ≠ 0) ∨
      (bootRange boot 113 7).any (· ≠ 0) ∨ byteAt boot 105 ≠ 1 ∨ 99 < byteAt boot 104 ∨
      ¬ (byteAt boot 112 ≤ 100 ∨ byteAt boot 112 = 0xff) then throw .corrupt
  else do
    let sectorShift := byteAt boot 108
    let clusterShift := byteAt boot 109
    if ¬ (9 ≤ sectorShift ∧ sectorShift ≤ 12) then throw .unsupportedSectorSize
    else do
      let bytesPerSector := 2 ^ sectorShift
      if bytesPerSector ≠ deviceSectorSize then throw .invalidBootSector
      else if 25 < clusterShift ∨ 25 < sectorShift + clusterShift then
        throw .unsupportedClusterSize
      else do
        let sectorsPerCluster ← u32 (2 ^ clusterShift)
        let fatOffset := numAt boot 80 4
        let fatLength := numAt boot 84 4
        let clusterHeapOffset := numAt boot 88 4
        let clusterCount := numAt boot 92 4
        let rootCluster := numAt boot 96 4
        let volumeLength := numAt boot 72 8
        let numberOfFats := byteAt boot 110
        if ¬ (numberOfFats = 1 ∨ numberOfFats = 2) then throw .corrupt
        else do
          let activeFat := if numberOfFats = 2 then numAt boot 106 2 % 2 else 0
          if fatOffset = 0 ∨ fatLength = 0 ∨ clusterCount = 0 ∨ rootCluster < 2 ∨
              saturatingAdd32 clusterCount 2 ≤ rootCluster then throw .corrupt
          else do
            let fats ← okOr .corrupt (checkedMul64 fatLength numberOfFats)
            let fatEnd ← okOr .corrupt (checkedAdd64 fatOffset fats)
            let entries ← okOr .corrupt (checkedAdd64 clusterCount 2)
            let fatBytesRequired ← okOr .corrupt (checkedMul64 entries 4)
            let fatSectorsRequired ← divCeil fatBytesRequired bytesPerSector
            if fatOffset < 24 ∨ fatLength < fatSectorsRequired ∨ clusterHeapOffset < fatEnd then
              throw .corrupt
            else do
              let heap ← u64 (clusterCount * sectorsPerCluster)
              let heapEnd ← okOr .corrupt (checkedAdd64 clusterHeapOffset heap)
              if volumeLength = 0 ∨ volumeLength < heapEnd ∨
                  partition.sectorCount < volumeLength then throw .corrupt
              else
                pure ⟨partition, bytesPerSector, sectorsPerCluster, fatOffset, fatLength,
                  numberOfFats, activeFat, clusterHeapOffset, clusterCount, rootCluster⟩

/-! ### Root system entries and the UpCase table -/

/-- The next cluster, the FAT sector it was read from and the four bytes read. -/
def nextClusterOn (g : Geometry) (cluster : ℕ) : FsM (ℕ × ℕ × List UInt8) := do
  let size := g.bytesPerSector
  let byte ← u64 (cluster * 4)
  let lba ← okOr .corrupt (← g.fatLbaForByte byte)
  let offset ← rem byte size
  readSector size lba
  let raw ← scratchSlice size offset 4
  pure (ofLe raw, lba, raw)

/-- What the root scan has found so far. -/
structure FoundSoFar where
  bitmap : Option AllocationBitmap := none
  upcase : Option UpCaseTable := none
  label : VolumeLabel := VolumeLabel.empty

def labelOf (entry : List UInt8) : VolumeLabel :=
  let len := min (byteAt entry 1) 11
  ⟨(List.range 11).map fun i => if i < len then numAt entry (2 + 2 * i) 2 else 0, len⟩

abbrev SystemEntries := AllocationBitmap × UpCaseTable × VolumeLabel

/-- One root slot. -/
def systemEntry (g : Geometry) (entry : List UInt8) (f : FoundSoFar) :
    Except Error (SystemEntries ⊕ FoundSoFar) :=
  if byteAt entry 0 = 0x00 then
    match f.bitmap, f.upcase with
    | some b, some u => .ok (.inl (b, u, f.label))
    | _, _ => .error .corrupt
  else if byteAt entry 0 = 0x81 then
    if 2 ≤ byteAt entry 1 then .error .corrupt
    else if g.numberOfFats ≤ byteAt entry 1 % 2 then .error .corrupt
    else if byteAt entry 1 % 2 = g.activeFat then
      if f.bitmap.isSome then .error .corrupt
      else .ok (.inr { f with bitmap := some ⟨numAt entry 20 4, numAt entry 24 8⟩ })
    else .ok (.inr f)
  else if byteAt entry 0 = 0x82 ∧ f.upcase.isNone then
    .ok (.inr { f with upcase := some ⟨numAt entry 4 4, numAt entry 20 4, numAt entry 24 8⟩ })
  else if byteAt entry 0 = 0x83 then .ok (.inr { f with label := labelOf entry })
  else .ok (.inr f)

def systemSlot (g : Geometry) (slot : ℕ) (f : FoundSoFar) : FsM (SystemEntries ⊕ FoundSoFar) := do
  let entry ← scratchSlice g.bytesPerSector (slot * 32) 32
  match systemEntry g entry f with
  | .ok r => pure r
  | .error e => throw e

def systemSector (g : Geometry) (lba sector : ℕ) (f : FoundSoFar) :
    FsM (SystemEntries ⊕ FoundSoFar) := do
  let lba ← u64 (lba + sector)
  readSector g.bytesPerSector lba
  loop (fun slot f => systemSlot g slot f) 0 (g.bytesPerSector / 32) f

def systemCluster (g : Geometry) : ℕ × FoundSoFar → FsM (SystemEntries ⊕ (ℕ × FoundSoFar))
  | (cluster, f) => do
    let lba ← okOr .corrupt (← g.clusterLba cluster)
    match ← loop (fun sector f => systemSector g lba sector f) 0 g.sectorsPerCluster f with
    | .inl r => pure (.inl r)
    | .inr f =>
      let (next, _, _) ← nextClusterOn g cluster
      if 0xfffffff8 ≤ next then throw .corrupt else pure (.inr (next, f))

def discoverRootSystemEntries (g : Geometry) : FsM SystemEntries := do
  match ← loop (fun _ v => systemCluster g v) 0 g.clusterCount (g.rootCluster, {}) with
  | .inl r => pure r
  | .inr _ => throw .corrupt

/-- One sector of the table; the loop variables are `remaining` and `checksum`. -/
def upcaseSector (g : Geometry) (lba sector : ℕ) : ℕ × ℕ → FsM ((ℕ × ℕ) ⊕ (ℕ × ℕ))
  | (remaining, checksum) => do
    if remaining = 0 then pure (.inl (remaining, checksum))
    else do
      let size := g.bytesPerSector
      let lba ← u64 (lba + sector)
      readSector size lba
      let count := min remaining size
      let bytes ← scratchSlice size 0 count
      pure (.inr (remaining - count, bytes.foldl (rotAdd 32) checksum))

/-- One cluster of the table; the loop variables are `cluster`, `remaining` and `checksum`. -/
def upcaseCluster (g : Geometry) : ℕ × ℕ × ℕ → FsM (ℕ ⊕ (ℕ × ℕ × ℕ))
  | (cluster, remaining, checksum) => do
    if remaining = 0 then pure (.inl checksum)
    else do
      let lba ← okOr .corrupt (← g.clusterLba cluster)
      let r ← loop (fun sector v => upcaseSector g lba sector v) 0 g.sectorsPerCluster
        (remaining, checksum)
      let (remaining, checksum) := r.elim id id
      if remaining ≠ 0 then do
        let (next, fatLba, raw) ← nextClusterOn g cluster
        if g.InHeap next then pure (.inr (next, remaining, checksum))
        else throw (.upcaseChainInvalid cluster next fatLba raw)
      else pure (.inl checksum)

def validateUpcaseTable (g : Geometry) (table : UpCaseTable) : FsM Unit := do
  if table.firstCluster < 2 ∨ table.byteLength = 0 then
    throw (.upcaseDescriptorInvalid table.firstCluster table.byteLength)
  else do
    match ← loop (fun _ v => upcaseCluster g v) 0 g.clusterCount
        (table.firstCluster, table.byteLength, 0) with
    | .inr _ => throw .corrupt
    | .inl checksum =>
      if checksum ≠ table.checksum then throw (.upcaseChecksumMismatch table.checksum checksum)
      else pure ()

/-! ### Mounting -/

/-- Find the partition, up to the check that it lies within the device. -/
def selectPartition (size : ℕ) : FsM Partition := do
  if (← get).scratch.len < size then throw .invalidSectorSize
  else do
    readSector size 0
    let sector ← scratchSlice size 0 size
    let partition ← (if hasProtectiveMbr sector then gptPartition size
      else mbrPartition sector : FsM Partition)
    let sectorCount := (← get).device.sectorCount
    if sectorCount ≤ partition.firstLba then throw .invalidPartitionTable
    else if (← sub sectorCount partition.firstLba) < partition.sectorCount then
      throw .invalidPartitionTable
    else pure partition

/-- An error with `Corrupt` replaced. -/
def mapCorrupt {α : Type} (e : Error) (m : FsM α) : FsM α := do
  match ← attempt m with
  | .ok a => pure a
  | .error .corrupt => throw e
  | .error e' => throw e'

/-- The boot region to use: the primary one, or the backup when the primary is torn. -/
def selectBootRegion (partition : Partition) (size : ℕ) : FsM ℕ := do
  match ← attempt (validateBootChecksum partition 0 size) with
  | .ok () => pure 0
  | .error .invalidBootSector => do
    validateBootChecksum partition 12 size
    pure 12
  | .error e => throw e

/-- A table which fails validation is only remembered; a device error fails the mount. -/
def upcaseIsValid (g : Geometry) (table : UpCaseTable) : FsM Bool := do
  match ← attempt (validateUpcaseTable g table) with
  | .ok () => pure true
  | .error (.device e) => throw (.device e)
  | .error _ => pure false

/-- Everything after the partition is selected. -/
def mountPartition (partition : Partition) (size : ℕ) : FsM Volume := do
  let bootOffset ← selectBootRegion partition size
  let lba ← u64 (partition.firstLba + bootOffset)
  readSector size lba
  let boot ← scratchSlice size 0 size
  let geometry ← mapCorrupt .bootGeometryCorrupt (parseBoot partition boot size)
  let (bitmap, upcase, label) ← mapCorrupt .rootDirectoryCorrupt
    (discoverRootSystemEntries geometry)
  let upcaseValid ← upcaseIsValid geometry upcase
  pure ⟨geometry, bitmap, upcase, upcaseValid, label⟩

/-- Validate and discover an exFAT volume. -/
def mount : FsM Volume := do
  let size ← checkedSectorSize (← get).device.sectorSize
  let partition ← selectPartition size
  mountPartition partition size

/-! ### A small device

Clusters of one sector, thirty of them: the root in cluster 2, the bitmap in cluster 3 and the
UpCase table in cluster 4. -/

/-- A sector with the given bytes at the given offsets, and zeros elsewhere. -/
def sectorWith (ps : List (ℕ × List UInt8)) : Image :=
  ps.foldr (fun p m => Image.patch m p.1 p.2) fun _ => 0

def smallMbr : Image :=
  sectorWith [(450, [7]), (454, leBytes 4 1), (458, leBytes 4 99), (510, [0x55, 0xaa])]

def smallBoot : Image :=
  sectorWith [(0, jumpBoot), (3, exfatSignature), (72, leBytes 8 99), (80, leBytes 4 24),
    (84, leBytes 4 1), (88, leBytes 4 25), (92, leBytes 4 30), (96, leBytes 4 2), (104, [0, 1]),
    (108, [9, 0, 1]), (510, [0x55, 0xaa])]

def smallFat : Image :=
  sectorWith [(8, leBytes 4 0xffffffff), (12, leBytes 4 0xffffffff), (16, leBytes 4 0xffffffff)]

/-- The slots of the bitmap and of the UpCase table, as slots `i` and `i + 1`. -/
def systemSlots (i : ℕ) : List (ℕ × List UInt8) :=
  [(32 * i, [0x81]), (32 * i + 20, leBytes 4 3), (32 * i + 24, leBytes 8 4), (32 * i + 32, [0x82]),
    (32 * i + 52, leBytes 4 4), (32 * i + 56, leBytes 8 2)]

/-- The boot checksum rotates left to itself over the ten zero sectors behind the boot sector. -/
def smallDevice (fat bitmap root : Image) : Device where
  sectorSize := 512
  sectorCount := 100
  sectors
    | 0 => smallMbr
    | 1 => smallBoot
    | 12 => fun i => (leBytes 4 312245508).getD (i % 4) 0
    | 25 => fat
    | 26 => root
    | 27 => bitmap
    | _ => fun _ => 0

def smallMachine (fat bitmap root : Image) : Machine where
  device := smallDevice fat bitmap root
  scratch := ⟨512, fun _ => 0⟩

def smallVolume : Volume where
  geometry := ⟨⟨1, 99⟩, 512, 1, 24, 1, 1, 0, 25, 30, 2⟩
  bitmap := ⟨3, 4⟩
  upcase := ⟨0, 4, 2⟩
  upcaseValid := true
  label := VolumeLabel.empty

end ExfatEmbedded.Mount
