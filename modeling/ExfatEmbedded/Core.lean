import ExfatEmbedded.Library.Bytes
import ExfatEmbedded.Library.Exec

/-!
The block device, the caller's scratch buffer, the errors and the volume geometry.

Integers are natural numbers. Arithmetic which the source leaves unchecked goes through `u8`,
`u32`, `u64`, `sub`, `div` and `rem` below, which panic where the source would overflow or divide
by zero.
-/

namespace ExfatEmbedded.Core

open ExfatEmbedded.Library Exec

/-- What a block device reports when a request fails. -/
inductive DeviceError where
  | fault
  | outOfRange
  deriving DecidableEq, Repr

inductive Error where
  | device (e : DeviceError)
  | invalidSectorSize
  | invalidPartitionTable
  | partitionNotFound
  | invalidGpt
  | invalidBootSector
  | unsupportedSectorSize
  | unsupportedClusterSize
  | corrupt
  | fileChainInvalid (firstCluster clusterIndex cluster nextCluster fatLba : ℕ)
  | bootGeometryCorrupt
  | rootDirectoryCorrupt
  | upcaseTableCorrupt
  | upcaseChecksumMismatch (expected actual : ℕ)
  | upcaseDescriptorInvalid (firstCluster byteLength : ℕ)
  | upcaseChainInvalid (cluster nextCluster fatLba : ℕ) (raw : List UInt8)
  | pathNotFound
  | notDirectory
  | alreadyExists
  | noSpace
  | readOnly
  | invalidPath
  | nameTooLong
  | isDirectory
  | directoryNotEmpty
  | endOfFile
  deriving DecidableEq, Repr

/-- The contents of a device, by sector and by byte. -/
abbrev Sectors := ℕ → Image

/-- The contents with the first `size` bytes of sector `lba` replaced. -/
def Sectors.write (d : Sectors) (lba size : ℕ) (m : Image) : Sectors := fun l =>
  if l = lba then Image.splice m (d lba) size else d l

/-- A write request and the contents of the device after it. -/
structure Write where
  lba : ℕ
  after : Sectors

/-- A block device. Request number `n` fails when `readFails n` or `writeFails n` says so; a
failed write leaves its sector unchanged. The requests made so far are kept, the newest first. -/
structure Device where
  sectorSize : ℕ
  sectorCount : ℕ
  sectors : Sectors
  readFails : ℕ → Bool := fun _ => false
  writeFails : ℕ → Bool := fun _ => false
  reads : List ℕ := []
  writes : List Write := []
  /-- The count is a `u64`. -/
  bound : sectorCount < 2 ^ 64 := by decide

/-- The caller-owned temporary storage. -/
structure Scratch where
  len : ℕ
  bytes : Image

/-- A FAT entry written by `setFat`, with the contents of the device before the write and those
the write asks for. -/
structure FatWrite where
  cluster : ℕ
  before : Sectors
  after : Sectors

/-- The device and the cached free-cluster count of a `FileSystem`, with the scratch buffer of
the call. `fatWrites` is kept for the statements only; no function reads it. -/
structure Machine where
  device : Device
  scratch : Scratch
  freeClusters : Option ℕ := none
  fatWrites : List FatWrite := []

abbrev FsM := Exec Machine Error

/-! ### Checked arithmetic -/

section Arithmetic

variable {σ ε : Type}

def u32 (n : ℕ) : Exec σ ε ℕ := do assert (n < 2 ^ 32); pure n
def u64 (n : ℕ) : Exec σ ε ℕ := do assert (n < 2 ^ 64); pure n
/-- `usize` of the narrowest target, which has 32 bits. -/
def usize (n : ℕ) : Exec σ ε ℕ := do assert (n < 2 ^ 32); pure n
def sub (a b : ℕ) : Exec σ ε ℕ := do assert (b ≤ a); pure (a - b)
def div (a b : ℕ) : Exec σ ε ℕ := do assert (b ≠ 0); pure (a / b)
def rem (a b : ℕ) : Exec σ ε ℕ := do assert (b ≠ 0); pure (a % b)
/-- `div_ceil`. -/
def divCeil (a b : ℕ) : Exec σ ε ℕ := do assert (b ≠ 0); pure ((a + b - 1) / b)

def checkedAdd32 (a b : ℕ) : Option ℕ := if a + b < 2 ^ 32 then some (a + b) else none
def checkedAdd64 (a b : ℕ) : Option ℕ := if a + b < 2 ^ 64 then some (a + b) else none
def checkedMul64 (a b : ℕ) : Option ℕ := if a * b < 2 ^ 64 then some (a * b) else none
def checkedSub (a b : ℕ) : Option ℕ := if b ≤ a then some (a - b) else none
def saturatingAdd32 (a b : ℕ) : ℕ := min (a + b) (2 ^ 32 - 1)
/-- `u32::try_from`. -/
def tryU32 (n : ℕ) : Option ℕ := if n < 2 ^ 32 then some n else none

variable {Q : ℕ → σ → Prop} {E : ε → σ → Prop}

@[simp] lemma wp_u32 (n : ℕ) : wp (u32 n : Exec σ ε ℕ) Q E = fun s => n < 2 ^ 32 ∧ Q n s := by
  simp [u32]
@[simp] lemma wp_u64 (n : ℕ) : wp (u64 n : Exec σ ε ℕ) Q E = fun s => n < 2 ^ 64 ∧ Q n s := by
  simp [u64]
@[simp] lemma wp_usize (n : ℕ) :
    wp (usize n : Exec σ ε ℕ) Q E = fun s => n < 2 ^ 32 ∧ Q n s := by
  simp [usize]
@[simp] lemma wp_sub (a b : ℕ) :
    wp (sub a b : Exec σ ε ℕ) Q E = fun s => b ≤ a ∧ Q (a - b) s := by
  simp [sub]
@[simp] lemma wp_div (a b : ℕ) :
    wp (div a b : Exec σ ε ℕ) Q E = fun s => b ≠ 0 ∧ Q (a / b) s := by
  simp [div]
@[simp] lemma wp_rem (a b : ℕ) :
    wp (rem a b : Exec σ ε ℕ) Q E = fun s => b ≠ 0 ∧ Q (a % b) s := by
  simp [rem]
@[simp] lemma wp_divCeil (a b : ℕ) :
    wp (divCeil a b : Exec σ ε ℕ) Q E = fun s => b ≠ 0 ∧ Q ((a + b - 1) / b) s := by
  simp [divCeil]

end Arithmetic

/-! ### Device and scratch access -/

/-- `device.read_sector(lba, scratch.sector(size))`. -/
def readSector (size lba : ℕ) : FsM Unit := fun s =>
  let t := { s with device := { s.device with reads := lba :: s.device.reads } }
  if s.scratch.len < size then (.panic, s)
  else if s.device.readFails s.device.reads.length then (.err (.device .fault), t)
  else if s.device.sectorCount ≤ lba then (.err (.device .outOfRange), t)
  else (.ok (), { t with
    scratch := { s.scratch with
      bytes := Image.splice (s.device.sectors lba) s.scratch.bytes size } })

/-- `device.write_sector(lba, scratch.sector(size))`. -/
def writeSector (size lba : ℕ) : FsM Unit := fun s =>
  let same := { s with device := { s.device with
    writes := ⟨lba, s.device.sectors⟩ :: s.device.writes } }
  let d := Sectors.write s.device.sectors lba size s.scratch.bytes
  if s.scratch.len < size then (.panic, s)
  else if s.device.writeFails s.device.writes.length then (.err (.device .fault), same)
  else if s.device.sectorCount ≤ lba then (.err (.device .outOfRange), same)
  else (.ok (), { s with device := { s.device with
    sectors := d, writes := ⟨lba, d⟩ :: s.device.writes } })

/-- `scratch.require(size)`, with the error every caller maps it to. -/
def requireScratch (size : ℕ) : FsM Unit := do
  let len := (← get).scratch.len
  when (len < size) (throw .invalidSectorSize)

/-- `scratch.sector(size)[off..off + n]`. -/
def scratchSlice (size off n : ℕ) : FsM (List UInt8) := do
  assert (off + n ≤ size ∧ size ≤ (← get).scratch.len)
  pure (Image.slice (← get).scratch.bytes off n)

/-- `scratch.sector(size)[off..off + bs.len()].copy_from_slice(bs)`. -/
def scratchPatch (size off : ℕ) (bs : List UInt8) : FsM Unit := do
  assert (off + bs.length ≤ size ∧ size ≤ (← get).scratch.len)
  modify fun s => { s with scratch := { s.scratch with
    bytes := Image.patch s.scratch.bytes off bs } }

/-! ### Geometry -/

structure Partition where
  firstLba : ℕ
  sectorCount : ℕ
  deriving DecidableEq, Repr

structure AllocationBitmap where
  firstCluster : ℕ
  byteLength : ℕ
  deriving DecidableEq, Repr

/-- The bitmap byte offset and bit of a cluster number. -/
def AllocationBitmap.positionFor (b : AllocationBitmap) (cluster : ℕ) : Option (ℕ × ℕ) :=
  if 2 ≤ cluster ∧ (cluster - 2) / 8 < b.byteLength then
    some ((cluster - 2) / 8, (cluster - 2) % 8)
  else none

structure UpCaseTable where
  checksum : ℕ
  firstCluster : ℕ
  byteLength : ℕ
  deriving DecidableEq, Repr

structure Geometry where
  partition : Partition
  bytesPerSector : ℕ
  sectorsPerCluster : ℕ
  fatOffset : ℕ
  fatLength : ℕ
  numberOfFats : ℕ
  activeFat : ℕ
  clusterHeapOffset : ℕ
  clusterCount : ℕ
  rootCluster : ℕ
  deriving DecidableEq, Repr

namespace Geometry

variable {σ ε : Type}

def bytesPerCluster (g : Geometry) : Exec σ ε ℕ := u32 (g.bytesPerSector * g.sectorsPerCluster)

/-- `(2..cluster_count.saturating_add(2)).contains(&cluster)`. -/
def InHeap (g : Geometry) (cluster : ℕ) : Prop :=
  2 ≤ cluster ∧ cluster < saturatingAdd32 g.clusterCount 2

instance (g : Geometry) (cluster : ℕ) : Decidable (g.InHeap cluster) :=
  inferInstanceAs (Decidable (_ ∧ _))

/-- The first sector of a cluster of the heap. -/
def clusterLba (g : Geometry) (cluster : ℕ) : Exec σ ε (Option ℕ) :=
  if g.InHeap cluster then do
    let lba ← u64 (g.partition.firstLba + g.clusterHeapOffset +
      (cluster - 2) * g.sectorsPerCluster)
    pure (some lba)
  else pure none

/-- The sector of the active FAT which holds a byte of it. -/
def fatLbaForByte (g : Geometry) (byte : ℕ) : Exec σ ε (Option ℕ) := do
  match checkedAdd64 g.partition.firstLba g.fatOffset with
  | none => pure none
  | some start =>
    match checkedMul64 g.activeFat g.fatLength with
    | none => pure none
    | some skip =>
      match checkedAdd64 start skip with
      | none => pure none
      | some fatStart =>
        let sector ← div byte g.bytesPerSector
        pure (checkedAdd64 fatStart sector)

end Geometry

/-- UTF-16 volume label of at most 11 code units. -/
structure VolumeLabel where
  units : List ℕ
  len : ℕ
  deriving DecidableEq, Repr

def VolumeLabel.empty : VolumeLabel := ⟨List.replicate 11 0, 0⟩

/-- Read-only metadata discovered while mounting a volume. -/
structure Volume where
  geometry : Geometry
  bitmap : AllocationBitmap
  upcase : UpCaseTable
  upcaseValid : Bool
  label : VolumeLabel
  deriving DecidableEq, Repr

end ExfatEmbedded.Core
