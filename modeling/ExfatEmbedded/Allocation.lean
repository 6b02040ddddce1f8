import ExfatEmbedded.Entry

/-!
FAT, allocation-bitmap and cluster-allocation primitives.
-/

namespace ExfatEmbedded.Allocation

open ExfatEmbedded.Library Exec ExfatEmbedded.Core

variable (vol : Volume)

/-! ### The FAT -/

/-- The value of a FAT entry of any cluster number. -/
def nextCluster (cluster : ℕ) : FsM ℕ := do
  let g := vol.geometry
  let size := g.bytesPerSector
  let fatByte ← u64 (cluster * 4)
  let lba ← okOr .corrupt (← g.fatLbaForByte fatByte)
  let offset ← rem fatByte size
  readSector size lba
  pure (ofLe (← scratchSlice size offset 4))

def setFat (cluster value : ℕ) : FsM Unit := do
  let g := vol.geometry
  let size := g.bytesPerSector
  let byte ← u64 (cluster * 4)
  let lba ← okOr .corrupt (← g.fatLbaForByte byte)
  let offset ← rem byte size
  readSector size lba
  scratchPatch size offset (leBytes 4 value)
  modify fun s => { s with fatWrites := ⟨cluster, s.device.sectors,
    s.device.sectors.write lba size s.scratch.bytes⟩ :: s.fatWrites }
  writeSector size lba

/-- Follow `index` FAT links from `first`. -/
def clusterAt (first index : ℕ) : FsM ℕ := do
  if vol.geometry.clusterCount ≤ index then throw .corrupt
  else do
    let r ← loop (ρ := Empty) (fun _ cluster => do
      let next ← nextCluster vol cluster
      if vol.geometry.InHeap next then pure (.inr next) else throw .corrupt) 0 index first
    match r with
    | .inr cluster => pure cluster

/-! ### The allocation bitmap -/

/-- The sector and offset of a bitmap byte. -/
def bitmapLocation (byte : ℕ) : FsM (ℕ × ℕ) := do
  let g := vol.geometry
  let size := g.bytesPerSector
  let clusterBytes ← g.bytesPerCluster
  if vol.bitmap.byteLength ≤ byte then throw .corrupt
  else do
    let index ← div byte clusterBytes
    let cluster ← clusterAt vol vol.bitmap.firstCluster index
    let within ← rem byte clusterBytes
    let base ← okOr .corrupt (← g.clusterLba cluster)
    let sector ← div within size
    let lba ← u64 (base + sector)
    let offset ← rem within size
    pure (lba, offset)

def bitmapUsed (cluster : ℕ) : FsM Bool := do
  let (byte, bit) ← okOr .corrupt (vol.bitmap.positionFor cluster)
  let size := vol.geometry.bytesPerSector
  let (lba, offset) ← bitmapLocation vol byte
  readSector size lba
  let value ← scratchSlice size offset 1
  pure ((ofLe value).testBit bit)

/-- The cached free count after a cluster becomes used or free. -/
def adjustFree (used : Bool) : Option ℕ → FsM (Option ℕ)
  | none => pure none
  | some n =>
    if used then do pure (some (← okOr .corrupt (checkedSub n 1)))
    else do
      let m ← okOr .corrupt (checkedAdd32 n 1)
      if m ≤ vol.geometry.clusterCount then pure (some m) else throw .corrupt

def setBitmap (cluster : ℕ) (used : Bool) : FsM Unit := do
  let (byte, bit) ← okOr .corrupt (vol.bitmap.positionFor cluster)
  let size := vol.geometry.bytesPerSector
  let (lba, offset) ← bitmapLocation vol byte
  readSector size lba
  let value := ofLe (← scratchSlice size offset 1)
  let wasUsed := value.testBit bit
  if wasUsed = used then pure ()
  else do
    let newFreeClusters ← adjustFree vol used (← get).freeClusters
    -- `|= 1 << bit` on a clear bit, `&= !(1 << bit)` on a set one
    let value' := if used then value + 2 ^ bit else value - 2 ^ bit
    scratchPatch size offset (leBytes 1 value')
    writeSector size lba
    modify fun s => { s with freeClusters := newFreeClusters }

/-! ### Allocation -/

/-- Zero, mark and terminate `cluster` when it is free. -/
def claimFreeCluster (cluster : ℕ) : FsM (Option ℕ) := do
  let g := vol.geometry
  if ← bitmapUsed vol cluster then pure none
  else do
    let firstLba ← okOr .corrupt (← g.clusterLba cluster)
    let size := g.bytesPerSector
    let r ← loop (ρ := Empty) (fun sector _ => do
      scratchPatch size 0 (List.replicate size 0)
      let lba ← u64 (firstLba + sector)
      writeSector size lba
      pure (.inr ())) 0 g.sectorsPerCluster ()
    match r with
    | .inr () =>
      setBitmap vol cluster true
      setFat vol cluster 0xffffffff
      pure (some cluster)

/-- One of `first..end` in order; the loops of the allocator. -/
def claimFirstFree (first n : ℕ) : FsM (ℕ ⊕ Unit) :=
  loop (fun cluster _ => do
    match ← claimFreeCluster vol cluster with
    | some cluster => pure (.inl cluster)
    | none => pure (.inr ())) first n ()

def allocateClusterPreferred (preferred : ℕ) : FsM ℕ := do
  let stop ← okOr .corrupt (checkedAdd32 vol.geometry.clusterCount 2)
  let first := if 2 ≤ preferred ∧ preferred < stop then preferred else 2
  match ← claimFirstFree vol first (stop - first) with
  | .inl cluster => pure cluster
  | .inr () =>
    match ← claimFirstFree vol 2 (first - 2) with
    | .inl cluster => pure cluster
    | .inr () => throw .noSpace

def allocateCluster : FsM ℕ := allocateClusterPreferred vol 2

/-! ### Free space -/

/-- The number of set bits among the `n` low bits of a byte. -/
def countOnes (value n : ℕ) : ℕ := ((List.range n).filter fun i => value.testBit i).length

/-- Count the used clusters of the bitmap bytes of one sector. -/
def countBytes : List UInt8 → ℕ → ℕ → Option (ℕ × ℕ)
  | [], usedClusters, remainingBits => some (usedClusters, remainingBits)
  | value :: rest, usedClusters, remainingBits =>
    if remainingBits = 0 then some (usedClusters, remainingBits)
    else
      let validBits := min remainingBits 8
      match checkedAdd32 usedClusters (countOnes value.toNat validBits) with
      | none => none
      | some used => countBytes rest used (remainingBits - validBits)

/-- One round of the bitmap scan; the loop variables are `byte`, `remaining_bits` and
`used_clusters`. -/
def refreshRound : ℕ × ℕ × ℕ → FsM (ℕ ⊕ (ℕ × ℕ × ℕ))
  | (byte, remainingBits, usedClusters) => do
    if remainingBits = 0 then pure (.inl usedClusters)
    else do
      let size := vol.geometry.bytesPerSector
      let (lba, offset) ← bitmapLocation vol byte
      readSector size lba
      let clusterBytes ← vol.geometry.bytesPerCluster
      let bytesUntilNextCluster ← sub clusterBytes (← rem byte clusterBytes)
      let inSector ← sub size offset
      let left ← okOr .corrupt (checkedSub vol.bitmap.byteLength byte)
      let bytes := min (min inSector bytesUntilNextCluster) left
      if bytes = 0 then throw .corrupt
      else do
        let values ← scratchSlice size offset bytes
        let (used, remaining) ← okOr .corrupt (countBytes values usedClusters remainingBits)
        let byte' ← okOr .corrupt (checkedAdd64 byte bytes)
        pure (.inr (byte', remaining, used))

/-- Every round counts at least one bit, so that `cluster_count` rounds and one more end it. -/
def refreshFreeClusters : FsM Unit := do
  let r ← loop (fun _ v => refreshRound vol v) 0 (vol.geometry.clusterCount + 1)
    (0, vol.geometry.clusterCount, 0)
  match r with
  | .inr _ => panic
  | .inl usedClusters =>
    let free ← okOr .corrupt (checkedSub vol.geometry.clusterCount usedClusters)
    modify fun s => { s with freeClusters := some free }

def freeSpaceBytes : FsM ℕ := do
  let unknown := (← get).freeClusters.isNone
  when unknown (refreshFreeClusters vol)
  let free ← okOr .corrupt (← get).freeClusters
  let clusterBytes ← vol.geometry.bytesPerCluster
  u64 (free * clusterBytes)

def refreshFreeSpace : FsM ℕ := do
  refreshFreeClusters vol
  freeSpaceBytes vol

end ExfatEmbedded.Allocation
