import ExfatEmbedded.Library.Partial
import ExfatEmbedded.Core
import ExfatEmbedded.Entry

/-!
The formatter: one MBR partition over the whole device, two boot regions, the FAT, the allocation
bitmap, the UpCase table and the root directory.
-/

namespace ExfatEmbedded.Format

open ExfatEmbedded.Library Exec ExfatEmbedded.Core

def bootSectors : ℕ := 24
def fatOffset : ℕ := bootSectors
def eoc : ℕ := 0xffffffff
def upcaseBytes : ℕ := 65536 * 2

/-! ### Whole sectors -/

/-- The length of `scratch.sectors(512)`. -/
def sectorsLen : FsM ℕ := do pure ((← get).scratch.len / 512 * 512)

/-- One sector of `device.write_sectors`, from the bytes of the buffer at `off` on. -/
def writeChunk (lba off : ℕ) : FsM Unit := fun s =>
  let same := { s with device := { s.device with
    writes := ⟨lba, s.device.sectors⟩ :: s.device.writes } }
  let d := Sectors.write s.device.sectors lba 512 fun i => s.scratch.bytes (off + i)
  if s.scratch.len < off + 512 then (.panic, s)
  else if s.device.writeFails s.device.writes.length then (.err (.device .fault), same)
  else if s.device.sectorCount ≤ lba then (.err (.device .outOfRange), same)
  else (.ok (), { s with device := { s.device with
    sectors := d, writes := ⟨lba, d⟩ :: s.device.writes } })

/-- `device.write_sectors(lba, &scratch.sectors(512)[..len])`. -/
def writeSectors (lba len : ℕ) : FsM Unit := do
  assert (len ≤ (← sectorsLen) ∧ len % 512 = 0)
  let _ ← loop (ρ := Empty) (fun index _ => do
    let lba ← u64 (lba + index)
    writeChunk lba (index * 512)
    pure (.inr ())) 0 (len / 512) ()
  pure ()

/-- Replace bytes of the first sector of the buffer, one range after the other. -/
def patchAll : List (ℕ × List UInt8) → FsM Unit
  | [] => pure ()
  | (off, bs) :: rest => do
    scratchPatch 512 off bs
    patchAll rest

/-- `out.fill(0)`, and then the given bytes at the given offsets. -/
def fillSector (ps : List (ℕ × List UInt8)) : FsM Unit :=
  patchAll ((0, List.replicate 512 0) :: ps)

/-! ### The layout -/

def clusterSectors (sectors : ℕ) : ℕ :=
  if 1048576 ≤ sectors then 64 else if 131072 ≤ sectors then 16 else 1

/-- One round of the search for the length of the FAT; the loop variable is `fat`. -/
def layoutRound (sectors spc fat : ℕ) : FsM ((ℕ × ℕ × ℕ) ⊕ ℕ) := do
  let heap ← okOr .corrupt (checkedAdd32 fatOffset fat)
  let room ← okOr .corrupt (checkedSub sectors heap)
  let clusters := (← div room spc) % 2 ^ 32
  let entries ← u32 (clusters + 2)
  let needed := (← divCeil (entries * 4) 512) % 2 ^ 32
  if needed = fat then pure (.inl (fat, heap, clusters)) else pure (.inr needed)

/-- The length of the FAT, the offset of the heap and the number of clusters. -/
def layout (sectors spc : ℕ) : FsM (ℕ × ℕ × ℕ) := do
  match ← loop (fun _ fat => layoutRound sectors spc fat) 0 8 1 with
  | .inl r => pure r
  | .inr _ => throw .corrupt

/-! ### The boot regions -/

def writeMbr (sectors : ℕ) : FsM Unit := do
  fillSector [(450, [0x07]), (454, leBytes 4 1), (458, leBytes 4 sectors), (510, [0x55, 0xaa])]
  writeSector 512 0

/-- `u32::trailing_zeros`. -/
def trailingZeros (n : ℕ) : ℕ := ((List.range 32).find? fun i => n.testBit i).getD 32

/-- What a sector of a boot region holds besides zeros. -/
def bootPatches (length fat heap clusters spc sector : ℕ) : List (ℕ × List UInt8) :=
  if sector = 0 then
    [(0, [0xeb, 0x76, 0x90]), (3, [0x45, 0x58, 0x46, 0x41, 0x54, 0x20, 0x20, 0x20]),
      (64, leBytes 8 1), (72, leBytes 8 length), (80, leBytes 4 fatOffset), (84, leBytes 4 fat),
      (88, leBytes 4 heap), (92, leBytes 4 clusters), (96, leBytes 4 2),
      (100, leBytes 4 0x54455359), (104, leBytes 2 0x0100), (108, [9]),
      (109, leBytes 1 (trailingZeros spc)), (110, [1]), (111, [0x80]),
      -- unused boot code bytes are F4
      (120, List.replicate 390 0xf4), (510, [0x55, 0xaa])]
  else if sector ≤ 8 then [(508, [0x00, 0x00, 0x55, 0xaa])]
  else []

/-- The checksum over one sector of a boot region. -/
def regionSum (sector checksum : ℕ) (out : List UInt8) : ℕ :=
  out.zipIdx.foldl (fun checksum p =>
    if sector ≠ 0 ∨ ¬ (p.2 = 106 ∨ p.2 = 107 ∨ p.2 = 112) then rotAdd 32 checksum p.1
    else checksum) checksum

/-- Returns the checksum. -/
def writeBootRegion (start length fat heap clusters spc : ℕ) : FsM ℕ := do
  match ← loop (ρ := Empty) (fun sector checksum => do
    fillSector (bootPatches length fat heap clusters spc sector)
    let out ← scratchSlice 512 0 512
    let lba ← u64 (start + sector)
    writeSector 512 lba
    pure (.inr (regionSum sector checksum out))) 0 11 0 with
  | .inr checksum => pure checksum

def writeBootChecksum (lba checksum : ℕ) : FsM Unit := do
  scratchPatch 512 0 (List.replicate 128 (leBytes 4 checksum)).flatten
  writeSector 512 lba

/-! ### The FAT -/

/-- The entry of a cluster: the three system streams are chains of consecutive clusters. -/
def fatValue (bitmap bitmapLen upcase upcaseLen cluster : ℕ) : ℕ :=
  if cluster = 0 then 0xfffffff8
  else if cluster = 1 ∨ cluster = 2 then eoc
  else if bitmap ≤ cluster ∧ cluster < bitmap + bitmapLen then
    if cluster + 1 < bitmap + bitmapLen then cluster + 1 else eoc
  else if upcase ≤ cluster ∧ cluster < upcase + upcaseLen then
    if cluster + 1 < upcase + upcaseLen then cluster + 1 else eoc
  else 0

/-- The entries of one sector of the FAT. -/
def fatSector (bitmap bitmapLen upcase upcaseLen sector : ℕ) : List UInt8 :=
  (List.range 128).flatMap fun index =>
    leBytes 4 (fatValue bitmap bitmapLen upcase upcaseLen (sector * 128 + index))

/-- One batch of sectors; the loop variable is `first_sector`. -/
def fatBatch (part fatLen batchSectors bitmap bitmapLen upcase upcaseLen first : ℕ) :
    FsM (Unit ⊕ ℕ) := do
  if fatLen ≤ first then pure (.inl ())
  else do
    let count := min (fatLen - first) batchSectors
    let len ← sectorsLen
    let _ ← loop (ρ := Empty) (fun offset _ => do
      -- the number of the last cluster of the sector must be a `u32`
      let _ ← u32 ((first + offset) * 128 + 127)
      scratchPatch len (offset * 512)
        (fatSector bitmap bitmapLen upcase upcaseLen (first + offset))
      pure (.inr ())) 0 count ()
    writeSectors (part + fatOffset + first) (count * 512)
    pure (.inr (first + count))

/-- A batch has at least one sector, so that `fat_len` rounds and one more end the loop. -/
def writeFat (part fatLen bitmap bitmapLen upcase upcaseLen : ℕ) : FsM Unit := do
  let batchSectors := max ((← get).scratch.len / 512) 1 % 2 ^ 32
  match ← loop (fun _ first =>
      fatBatch part fatLen batchSectors bitmap bitmapLen upcase upcaseLen first) 0
      (fatLen + 1) 0 with
  | .inl () => pure ()
  | .inr _ => panic

/-! ### The heap -/

def clusterLba (part heap spc cluster : ℕ) : FsM ℕ := do
  let index ← sub cluster 2
  u64 (part + heap + index * spc)

/-- Set the bits of the reserved clusters in the buffer. -/
def markReserved (reserved : ℕ) : FsM Unit := do
  let len ← sectorsLen
  let _ ← loop (ρ := Empty) (fun bit _ => do
    let value ← scratchSlice len (bit / 8) 1
    scratchPatch len (bit / 8) (leBytes 1 (ofLe value ||| 2 ^ (bit % 8)))
    pure (.inr ())) 0 reserved ()
  pure ()

/-- One batch of the bitmap; the loop variables are `left` and `lba`. -/
def bitmapBatch (firstLba reserved : ℕ) : ℕ × ℕ → FsM (Unit ⊕ (ℕ × ℕ))
  | (left, lba) => do
    if left = 0 then pure (.inl ())
    else do
      let len ← sectorsLen
      let count := min ((left + 511) / 512) (len / 512)
      scratchPatch len 0 (List.replicate (count * 512) 0)
      when (lba = firstLba) (markReserved reserved)
      writeSectors lba (count * 512)
      let lba ← u64 (lba + count)
      pure (.inr (left - min left (count * 512), lba))

/-- A batch takes at least one byte, so that `bytes` rounds and one more end the loop. -/
def writeBitmap (part heap spc cluster bytes reserved : ℕ) : FsM Unit := do
  let firstLba ← clusterLba part heap spc cluster
  match ← loop (fun _ v => bitmapBatch firstLba reserved v) 0 (bytes + 1) (bytes, firstLba) with
  | .inl () => pure ()
  | .inr _ => panic

/-- The UpCase image of a code unit: only the ASCII letters have one of their own. -/
def upcaseOf (code : ℕ) : ℕ := if 0x61 ≤ code ∧ code ≤ 0x7a then code - 0x61 + 0x41 else code

/-- The words of the table from `code` on. -/
def upcaseWords (code count : ℕ) : List UInt8 :=
  (List.range' code count).flatMap fun code => leBytes 2 (upcaseOf code)

/-- One batch of the table; the loop variables are `sum`, `code` and `lba`. -/
def upcaseBatch : ℕ × ℕ × ℕ → FsM (ℕ ⊕ (ℕ × ℕ × ℕ))
  | (sum, code, lba) => do
    if 65536 ≤ code then pure (.inl sum)
    else do
      let len ← sectorsLen
      let count := min (65536 - code) ((← get).scratch.len / 2 % 2 ^ 32)
      let out := upcaseWords code count
      scratchPatch len 0 out
      writeSectors lba (count * 2)
      let lba ← u64 (lba + count * 2 / 512)
      pure (.inr (out.foldl (rotAdd 32) sum, code + count, lba))

/-- Returns the checksum of the table. A batch takes at least one word, so that 65536 rounds and
one more end the loop. -/
def writeUpcase (part heap spc cluster : ℕ) : FsM ℕ := do
  let lba ← clusterLba part heap spc cluster
  match ← loop (fun _ v => upcaseBatch v) 0 (65536 + 1) (0, 0, lba) with
  | .inl sum => pure sum
  | .inr _ => panic

def writeRoot (part heap bitmap bitmapBytes upcase checksum : ℕ) : FsM Unit := do
  fillSector [(0, [0x81]), (20, leBytes 4 bitmap), (24, leBytes 8 bitmapBytes), (32, [0x82]),
    (36, leBytes 4 checksum), (52, leBytes 4 upcase), (56, leBytes 8 upcaseBytes)]
  let lba ← clusterLba part heap 1 2
  writeSector 512 lba

/-! ### Formatting -/

/-- The two copies of the boot region, with their checksums. -/
def writeBootRegions (length fat heap clusters spc : ℕ) : FsM Unit := do
  let checksum ← writeBootRegion 1 length fat heap clusters spc
  writeBootChecksum (1 + 11) checksum
  let checksum ← writeBootRegion (1 + 12) length fat heap clusters spc
  writeBootChecksum (1 + 23) checksum

/-- Everything behind the computation of the layout. -/
def writeVolume (partitionSectors spc fat heap clusters : ℕ) : FsM Unit := do
  let clusterBytes := spc * 512
  let bitmapBytes ← divCeil clusters 8
  let bitmapClusters := (← divCeil bitmapBytes clusterBytes) % 2 ^ 32
  let upcaseClusters := (← divCeil upcaseBytes clusterBytes) % 2 ^ 32
  let bitmapCluster := 3
  let upcaseCluster ← u32 (bitmapCluster + bitmapClusters)
  let reserved ← u32 (1 + bitmapClusters + upcaseClusters)
  let stop ← okOr .corrupt (checkedAdd32 upcaseCluster upcaseClusters)
  let last ← u32 (clusters + 2)
  if last < stop then throw .corrupt
  else do
    writeMbr partitionSectors
    writeBootRegions partitionSectors fat heap clusters spc
    writeFat 1 fat bitmapCluster bitmapClusters upcaseCluster upcaseClusters
    writeBitmap 1 heap spc bitmapCluster bitmapBytes reserved
    let checksum ← writeUpcase 1 heap spc upcaseCluster
    writeRoot 1 heap bitmapCluster bitmapBytes upcaseCluster checksum

/-- Erase the device and create a fresh volume; `flush` changes nothing of what is read back. -/
def formatExfat : FsM Unit := do
  let size := (← get).device.sectorSize
  if size ≠ 512 then throw .unsupportedSectorSize
  else do
    requireScratch size
    let total := (← get).device.sectorCount
    if total ≤ bootSectors + 512 ∨ 2 ^ 32 ≤ total - 1 then throw .invalidPartitionTable
    else do
      let partitionSectors := total - 1
      let spc := clusterSectors partitionSectors
      let (fat, heap, clusters) ← layout partitionSectors spc
      writeVolume partitionSectors spc fat heap clusters

end ExfatEmbedded.Format
