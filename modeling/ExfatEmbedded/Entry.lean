import ExfatEmbedded.Core

/-!
Filename and entry-set codecs, and the decoder of directory entry sets.

A path or a name is the list of its characters. Fixed arrays are lists of their length.
-/

namespace ExfatEmbedded.Entry

open ExfatEmbedded.Library Exec ExfatEmbedded.Core

/-! ### Filename and entry-set codecs -/

/-- The UTF-16 code units of a character. -/
def encodeUtf16 (c : Char) : List ℕ :=
  if c.toNat < 0x10000 then [c.toNat]
  else [0xd800 + (c.toNat - 0x10000) / 0x400, 0xdc00 + (c.toNat - 0x10000) % 0x400]

/-- Write the units of `name` from position `written` on, and return where they end. -/
def writeUnits : List Char → ℕ → Exec (List ℕ) Error ℕ
  | [], written => pure written
  | c :: name, written => do
    let encoded := encodeUtf16 c
    if 255 < written + encoded.length then throw .nameTooLong
    else do
      modify fun out => overlay out written encoded
      writeUnits name (written + encoded.length)

def utf8ToUtf16 (name : List Char) : Exec (List ℕ) Error ℕ :=
  if name = [] ∨ name = ['.'] ∨ name = ['.', '.'] ∨
      name.any (fun c => c = '\x00' || c = '/' || c = '\\') then throw .invalidPath
  else writeUnits name 0

/-- Extend an entry-set checksum with one directory entry. `checksum_step` of the decoder and
`entry_set_checksum_step` of the codec are this one function. -/
def checksumStep (sum : ℕ) (entry : List UInt8) (primary : Bool) : ℕ :=
  entry.zipIdx.foldl (fun sum p =>
    if !primary || !(p.2 = 2 || p.2 = 3) then rotAdd 16 sum p.1 else sum) sum

/-! ### Directories and entries -/

structure EntryLocator where
  lba : ℕ
  offset : ℕ
  deriving DecidableEq, Repr

def noLocators : List EntryLocator := List.replicate 19 ⟨0, 0⟩

/-- A directory extent. `dataLength = 0` denotes the root chain. -/
structure Directory where
  firstCluster : ℕ
  dataLength : ℕ
  noFatChain : Bool
  primary : Option EntryLocator
  stream : Option EntryLocator
  entryLocs : List EntryLocator
  entryCount : ℕ
  deriving DecidableEq, Repr

def Directory.root (g : Geometry) : Directory where
  firstCluster := g.rootCluster
  dataLength := 0
  noFatChain := false
  primary := none
  stream := none
  entryLocs := noLocators
  entryCount := 0

structure ExfatTimestamp where
  dateTime : ℕ := 0
  tenMillis : ℕ := 0
  utcOffset : ℕ := 0
  deriving DecidableEq, Repr

structure DirectoryEntry where
  isDirectory : Bool
  firstCluster : ℕ
  dataLength : ℕ
  validLength : ℕ
  noFatChain : Bool
  created : ExfatTimestamp
  modified : ExfatTimestamp
  accessed : ExfatTimestamp
  name : List ℕ
  nameLen : ℕ
  primary : EntryLocator
  stream : EntryLocator
  entryLocs : List EntryLocator
  entryCount : ℕ
  deriving DecidableEq, Repr

def DirectoryEntry.nameUtf16 (e : DirectoryEntry) : List ℕ := e.name.take e.nameLen

/-- The directory extent when this entry is a directory. -/
def DirectoryEntry.directory (e : DirectoryEntry) : Option Directory :=
  if e.isDirectory then some
    { firstCluster := e.firstCluster
      dataLength := e.dataLength
      noFatChain := e.noFatChain
      primary := some e.primary
      stream := some e.stream
      entryLocs := e.entryLocs
      entryCount := e.entryCount }
  else none

/-! ### The entry-set decoder -/

/-- The decoder state. `ignored` marks a set which is consumed without yielding a file. -/
structure EntrySet where
  secondaryLeft : ℕ
  streamSeen : Bool
  nameWritten : ℕ
  expectedChecksum : ℕ
  checksum : ℕ
  ignored : Bool
  entry : DirectoryEntry
  deriving DecidableEq, Repr

def EntrySet.new : EntrySet where
  secondaryLeft := 0
  streamSeen := false
  nameWritten := 0
  expectedChecksum := 0
  checksum := 0
  ignored := false
  entry :=
    { isDirectory := false
      firstCluster := 0
      dataLength := 0
      validLength := 0
      noFatChain := false
      created := ⟨0, 0, 0x80⟩
      modified := ⟨0, 0, 0x80⟩
      accessed := ⟨0, 0, 0x80⟩
      name := List.replicate 255 0
      nameLen := 0
      primary := ⟨0, 0⟩
      stream := ⟨0, 0⟩
      entryLocs := noLocators
      entryCount := 0 }

/-- The byte at `i` of an entry, as a number. -/
def byteAt (raw : List UInt8) (i : ℕ) : ℕ := (raw.getD i 0).toNat

/-- The `n`-byte number at `i` of an entry: `le_u16`, `le_u32` and `le_u64`. -/
def numAt (raw : List UInt8) (i n : ℕ) : ℕ := ofLe ((raw.drop i).take n)

/-- The fifteen code units of a name entry. -/
def unitsOf (raw : List UInt8) : List ℕ := (List.range 15).map fun i => numAt raw (2 + 2 * i) 2

namespace EntrySet

/-- The state after a primary entry. -/
def start (raw : List UInt8) (locator : EntryLocator) : EntrySet where
  secondaryLeft := byteAt raw 1
  streamSeen := false
  nameWritten := 0
  expectedChecksum := numAt raw 2 2
  checksum := checksumStep 0 raw true
  ignored := 18 < byteAt raw 1
  entry :=
    { isDirectory := (numAt raw 4 2).testBit 4
      firstCluster := 0
      dataLength := 0
      validLength := 0
      noFatChain := false
      created := ⟨numAt raw 8 4, byteAt raw 20, byteAt raw 22⟩
      modified := ⟨numAt raw 12 4, byteAt raw 21, byteAt raw 23⟩
      accessed := ⟨numAt raw 16 4, 0, byteAt raw 24⟩
      name := List.replicate 255 0
      nameLen := 0
      primary := locator
      stream := locator
      entryLocs := noLocators.set 0 locator
      entryCount := 1 }

/-- The entry with the locator of its next slot recorded. -/
def record (e : DirectoryEntry) (locator : EntryLocator) : DirectoryEntry :=
  { e with entryLocs := e.entryLocs.set e.entryCount locator, entryCount := e.entryCount + 1 }

/-- The state after the fields of a stream extension are taken over, before they are checked. -/
def takeStream (s : EntrySet) (raw : List UInt8) (locator : EntryLocator) : EntrySet :=
  { s with
    checksum := checksumStep s.checksum raw false
    streamSeen := true
    entry := { record s.entry locator with
      stream := locator
      noFatChain := (byteAt raw 1).testBit 1
      nameLen := byteAt raw 3
      validLength := numAt raw 8 8
      dataLength := numAt raw 24 8
      firstCluster := numAt raw 20 4 } }

/-- What `push` rejects in a stream extension. -/
def StreamBad (raw : List UInt8) : Prop :=
  4 ≤ byteAt raw 1 ∨ byteAt raw 1 % 2 = 0 ∨ byteAt raw 3 = 0 ∨
    numAt raw 24 8 < numAt raw 8 8 ∨ (numAt raw 24 8 ≠ 0 ∧ numAt raw 20 4 < 2)

instance (raw : List UInt8) : Decidable (StreamBad raw) :=
  inferInstanceAs (Decidable (_ ∨ _))

/-- The state after the units of a name entry are taken over. -/
def takeName (s : EntrySet) (raw : List UInt8) (locator : EntryLocator) : EntrySet :=
  { s with
    checksum := checksumStep s.checksum raw false
    nameWritten := min 255 (s.nameWritten + 15)
    entry := { record s.entry locator with
      name := overlay s.entry.name s.nameWritten
        ((unitsOf raw).take (s.entry.nameLen - s.nameWritten)) } }

def complete (s : EntrySet) : Outcome Error (Option DirectoryEntry) :=
  if !s.streamSeen || s.nameWritten < s.entry.nameLen || s.checksum ≠ s.expectedChecksum then
    .err .corrupt
  else .ok (some s.entry)

/-- One secondary of the set is consumed; the last one completes it. -/
def consume (s : EntrySet) : Outcome Error (Option DirectoryEntry) × EntrySet :=
  let t := { s with secondaryLeft := s.secondaryLeft - 1 }
  if t.secondaryLeft = 0 then (t.complete, t) else (.ok none, t)

/-- Feed the decoder with the 32 bytes of the next directory slot. -/
def push (raw : List UInt8) (locator : EntryLocator) :
    Exec EntrySet Error (Option DirectoryEntry) := fun s =>
  if raw.length ≠ 32 then (.panic, s)
  else if byteAt raw 0 = 0x85 then
    if s.secondaryLeft ≠ 0 ∨ byteAt raw 1 < 2 then (.err .corrupt, s)
    else (.ok none, start raw locator)
  else if s.secondaryLeft = 0 then (.ok none, s)
  else if s.ignored then
    (.ok none, { s with
      secondaryLeft := s.secondaryLeft - 1
      ignored := s.secondaryLeft - 1 ≠ 0 })
  else if byteAt raw 0 = 0xc0 ∧ !s.streamSeen ∧ s.entry.entryCount = 1 then
    if StreamBad raw then (.err .corrupt, s.takeStream raw locator)
    else (s.takeStream raw locator).consume
  else if byteAt raw 0 = 0xc1 ∧ s.streamSeen ∧ s.nameWritten < s.entry.nameLen then
    if 19 ≤ s.entry.entryCount then (.err .corrupt, s)
    else (s.takeName raw locator).consume
  else
    (.ok none, { s with secondaryLeft := s.secondaryLeft - 1, ignored := true })

end EntrySet

/-- The reusable storage for path and directory-entry operations. -/
structure Workspace where
  utf16 : List ℕ
  entrySet : EntrySet
  locators : List EntryLocator
  deriving DecidableEq, Repr

def Workspace.new : Workspace where
  utf16 := List.replicate 255 0
  entrySet := EntrySet.new
  locators := noLocators

end ExfatEmbedded.Entry
