import ChipEight.Storage.EntryName
import ChipEight.Storage.Problem

/-!
# The directory of an archive

An archive ends with a closing record, which tells where the directory of the
archive is and how many entries it has.  The closing record is searched from the end
backwards, as a comment may follow it.  Where the numbers do not fit it, a wide
closing record comes before it, which a locator right in front of the closing record
points at.  Bytes may stand in front of the whole archive; then all places are
counted from the first byte of the archive proper, and the shift is found by
comparing where a record is with where it says it is.

Marks, offsets and widths are those of the records in the ZIP format: the end of central
directory record, its ZIP64 form with its locator, the central directory header and its extra
fields.  The order in which they are checked, and what is an error in them, is that of the archive
reader.

* `Directory.find` locates the directory.
* `Directory.entries` reads its entries.
-/

namespace ChipEight
namespace Storage

/-- The number written in `width` bytes at an offset.  The format has the lowest byte first. -/
def numberAt? (bytes : Array UInt8) (offset : Nat) : Nat → Option Nat
  | 0 => some 0
  | width + 1 =>
    match bytes[offset]?, numberAt? bytes (offset + 1) width with
    | some low, some high => some (low.toNat + 256 * high)
    | _, _ => none

/-- The number at an offset of an archive that has to reach that far.  The reader reports what
reading an exact number of bytes reports at an early end. -/
def numberAt (bytes : Array UInt8) (offset width : Nat) : Except ArchiveProblem Nat :=
  match numberAt? bytes offset width with
  | some value => .ok value
  | none => .error .truncated

/-- Whether the four bytes at an offset are the mark of a kind of record. -/
def markedAt (bytes : Array UInt8) (mark offset : Nat) : Bool :=
  numberAt? bytes offset 4 == some mark

/-- The bytes from an offset on, as many of the wanted ones as there are, as reading up to a
limit gives them. -/
def slice (bytes : Array UInt8) (offset count : Nat) : List UInt8 :=
  (bytes.extract offset (offset + count)).toList

/-- The greatest number for which a condition holds, among `start` and the `count`
numbers before it.  The reader looks for the closing record in this way, from the end on. -/
def lastBefore (condition : Nat → Bool) (start : Nat) : Nat → Option Nat
  | 0 => if condition start then some start else none
  | count + 1 =>
    if condition start then some start
    else if start = 0 then none
    else lastBefore condition (start - 1) count

/-- The least number for which a condition holds, among `count` numbers from `start`
on.  The reader looks for the wide closing record in this way, from its place on. -/
def firstFrom (condition : Nat → Bool) (start : Nat) : Nat → Option Nat
  | 0 => none
  | count + 1 => if condition start then some start else firstFrom condition (start + 1) count

/-- The end of central directory record of the format. -/
structure EndRecord where
  /-- Where the record starts. -/
  place : Nat
  disk : Nat
  directoryDisk : Nat
  /-- The number of entries on this disk. -/
  entriesHere : Nat
  entryCount : Nat
  directorySize : Nat
  /-- Where the directory says it starts. -/
  directoryOffset : Nat
  commentSize : Nat

namespace EndRecord

/-- The length that a closing record has in the format without its comment. -/
def size : Nat := 22

def mark : Nat := 0x06054b50

/-- Where the closing record starts: the last place with its mark that leaves room for
it and for a comment of at most 65535 bytes, which is the longest one that the format allows. -/
def find (bytes : Array UInt8) : Except ArchiveProblem Nat :=
  if bytes.size < size then .error (.defective .tooShort)
  else
    match lastBefore (markedAt bytes mark) (bytes.size - size) 0xFFFF with
    | some place => .ok place
    | none => .error (.defective .noEndRecord)

/-- The closing record of an archive.  The reader reads its comment as well, so that the archive
has to hold all of it. -/
def read (bytes : Array UInt8) : Except ArchiveProblem EndRecord := do
  let place ← find bytes
  let record : EndRecord :=
    { place := place
      disk := ← numberAt bytes (place + 4) 2
      directoryDisk := ← numberAt bytes (place + 6) 2
      entriesHere := ← numberAt bytes (place + 8) 2
      entryCount := ← numberAt bytes (place + 10) 2
      directorySize := ← numberAt bytes (place + 12) 4
      directoryOffset := ← numberAt bytes (place + 16) 4
      commentSize := ← numberAt bytes (place + 20) 2 }
  if bytes.size < place + size + record.commentSize then .error .truncated
  else .ok record

/-- Some number of the archive does not fit the record: the format then has the greatest number
of its width in that field. -/
def overflows (record : EndRecord) : Bool :=
  [record.disk, record.directoryDisk, record.entriesHere, record.entryCount].contains 0xFFFF
    || [record.directorySize, record.directoryOffset].contains 0xFFFFFFFF

end EndRecord

/-- Where the reader finds the directory, and how many entries it expects there. -/
structure Directory where
  /-- The number of bytes in front of the archive proper. -/
  shift : Nat
  start : Nat
  count : Nat

namespace Directory

/-- The greatest number of 64 bits, the width in which the reader adds offsets with a check. -/
def greatest : Nat := 0xFFFFFFFFFFFFFFFF

/-- The directory that a closing record points at.  In the format it ends where the record
begins; the reader takes what else is in front of it for bytes that are not of the archive. -/
def ofEndRecord (record : EndRecord) : Except ArchiveProblem Directory :=
  if record.place < record.directorySize + record.directoryOffset then
    .error (.defective .directoryBounds)
  else
    .ok
      { shift := record.place - record.directorySize - record.directoryOffset
        start := record.place - record.directorySize
        count := record.entriesHere }

def wideMark : Nat := 0x06064b50

/-- The directory that a wide closing record points at.  The reader searches the record from the
offset that the locator gives onwards, up to the last place where it and the locator have room,
and takes the way that it had to go for the bytes in front of the archive. -/
def ofWideEndRecord (bytes : Array UInt8) (record : EndRecord) (nominal : Nat) :
    Except ArchiveProblem Directory := do
  if record.place < 60 then .error (.defective .noRoomForWideEndRecord)
  let bound := record.place - 60
  match firstFrom (markedAt bytes wideMark) nominal (bound + 1 - nominal) with
  | none => .error (.defective .noWideEndRecord)
  | some place =>
    let shift := place - nominal
    let disk ← numberAt bytes (place + 16) 4
    let directoryDisk ← numberAt bytes (place + 20) 4
    let count ← numberAt bytes (place + 32) 8
    let offset ← numberAt bytes (place + 48) 8
    if disk ≠ directoryDisk then .error (.unsupported .severalDisks)
    else if greatest < offset + shift then .error (.defective .directoryBounds)
    else .ok { shift := shift, start := offset + shift, count := count }

def locatorMark : Nat := 0x07064b50

/-- Finds the directory.  The reader looks for a locator in front of every closing record, and
goes by the wide record wherever there is one.  It refuses archives on several disks, which the
format allows. -/
def find (bytes : Array UInt8) : Except ArchiveProblem Directory := do
  let record ← EndRecord.read bytes
  if !record.overflows && record.disk != record.directoryDisk then
    .error (.unsupported .severalDisks)
  let tail := 20 + EndRecord.size + record.commentSize
  if bytes.size < tail then ofEndRecord record
  else
    let locator := bytes.size - tail
    if !markedAt bytes locatorMark locator then ofEndRecord record
    else
      let disk ← numberAt bytes (locator + 4) 4
      let nominal ← numberAt bytes (locator + 8) 8
      if !record.overflows && record.disk != disk then .error (.unsupported .severalDisks)
      else ofWideEndRecord bytes record nominal

end Directory

/-- What the reader keeps of a central directory header. -/
structure Entry where
  name : String
  isEncrypted : Bool
  /-- The number of the way in which the entry is packed. -/
  method : Nat
  checksum : Nat
  packedSize : Nat
  size : Nat
  place : Nat
  /-- Whether the directory tells how the entry is encrypted. -/
  hasEncryptionField : Bool

namespace Entry

/-- The number that the format has in place of one which is given in the wide field. -/
def wideMarker : Nat := 0xFFFFFFFF

/-- The number in the wide field at an offset, if it is given there, and the offset
behind it. -/
def wideNumber (extra : Array UInt8) (offset value : Nat) : Option (Nat × Nat) :=
  if value = wideMarker then (numberAt? extra offset 8).map fun wide => (wide, offset + 8)
  else some (value, offset)

/-- Takes the numbers over that the wide field gives, in the order of the format; the answer is
the offset behind them, or none where the field breaks off. -/
def takeWide (entry : Entry) (extra : Array UInt8) (offset : Nat) : Entry × Option Nat :=
  match wideNumber extra offset entry.size with
  | none => (entry, none)
  | some (size, offset) =>
    let entry := { entry with size := size }
    match wideNumber extra offset entry.packedSize with
    | none => (entry, none)
    | some (packedSize, offset) =>
      let entry := { entry with packedSize := packedSize }
      match wideNumber extra offset entry.place with
      | none => (entry, none)
      | some (place, offset) => ({ entry with place := place }, some offset)

/-- Takes the encryption field over; none where the field breaks off.  Its maker, its versions and
its strengths are those that the reader knows, although it decrypts nothing. -/
def takeEncryption (entry : Entry) (extra : Array UInt8) (offset : Nat) :
    Except ArchiveProblem (Option Entry) :=
  match numberAt? extra offset 2, numberAt? extra (offset + 2) 2,
      numberAt? extra (offset + 4) 1, numberAt? extra (offset + 5) 2 with
  | some version, some vendor, some strength, some method =>
    if vendor ≠ 0x4541 then .error (.defective .encryptionVendor)
    else if version ≠ 1 ∧ version ≠ 2 then .error (.defective .encryptionVersion)
    else if strength = 0 ∨ 3 < strength then .error (.defective .encryptionStrength)
    else .ok (some { entry with method := method, hasEncryptionField := true })
  | _, _, _, _ => .ok none

/-- Takes the further fields of an entry over, from an offset on.  Each of them has in the format
a number for its kind and its length in front.  The reader leaves fields that break off out
without an error, and passes over fields of a kind that it does not know. -/
def takeExtra (extra : Array UInt8) (entry : Entry) (offset : Nat) :
    Except ArchiveProblem Entry :=
  if _ : offset < extra.size then
    match numberAt? extra offset 2, numberAt? extra (offset + 2) 2 with
    | some 0x0001, some length =>
      match entry.takeWide extra (offset + 4) with
      | (entry, some next) => takeExtra extra entry (max (offset + 4 + length) next)
      | (entry, none) => .ok entry
    | some 0x9901, some length =>
      if length ≠ 7 then .error (.unsupported .encryptionField)
      else
        match entry.takeEncryption extra (offset + 4) with
        -- the field is read and then passed over by its length once more
        | .ok (some entry) => takeExtra extra entry (offset + 4 + 7 + 7)
        | .ok none => .ok entry
        | .error problem => .error problem
    | some _, some length => takeExtra extra entry (offset + 4 + length)
    | _, _ => .ok entry
  else .ok entry
termination_by extra.size - offset
decreasing_by all_goals omega

def mark : Nat := 0x02014b50

/-- The length that a header has in the format without its name, further fields and comment. -/
def fixedSize : Nat := 46

/-- The way of packing that stands in the format for an encrypted entry. -/
def encryptedMethod : Nat := 99

/-- Reads the entry of the directory at an offset, which gives the offset behind it
too.  The first bit of its flags says in the format that it is encrypted, and the twelfth one that
its name is in UTF-8. -/
def read (bytes : Array UInt8) (shift offset : Nat) : Except ArchiveProblem (Entry × Nat) := do
  if (← numberAt bytes offset 4) ≠ mark then .error (.defective .directoryEntry)
  let flags ← numberAt bytes (offset + 8) 2
  let nameSize ← numberAt bytes (offset + 28) 2
  let extraSize ← numberAt bytes (offset + 30) 2
  let commentSize ← numberAt bytes (offset + 32) 2
  let entry : Entry :=
    { name := EntryName.ofBytes (flags.testBit 11) (slice bytes (offset + fixedSize) nameSize)
      isEncrypted := flags.testBit 0
      method := ← numberAt bytes (offset + 10) 2
      checksum := ← numberAt bytes (offset + 16) 4
      packedSize := ← numberAt bytes (offset + 20) 4
      size := ← numberAt bytes (offset + 24) 4
      place := ← numberAt bytes (offset + 42) 4
      hasEncryptionField := false }
  let extraStart := offset + fixedSize + nameSize
  let next := extraStart + extraSize + commentSize
  if bytes.size < next then .error .truncated
  let entry ← takeExtra (slice bytes extraStart extraSize).toArray entry 0
  if entry.method = encryptedMethod ∧ !entry.hasEncryptionField then
    .error (.defective .noEncryptionField)
  else if Directory.greatest < entry.place + shift then .error (.defective .entryPlace)
  else .ok ({ entry with place := entry.place + shift }, next)

end Entry

namespace Directory

/-- Reads a number of entries that follow each other.  The first one that is not as it has to be
makes the reader refuse the whole archive. -/
def entriesFrom (bytes : Array UInt8) (shift : Nat) :
    Nat → Nat → Except ArchiveProblem (List Entry)
  | 0, _ => .ok []
  | count + 1, offset => do
    let (entry, next) ← Entry.read bytes shift offset
    let later ← entriesFrom bytes shift count next
    return entry :: later

/-- The entries of a directory in order.  The reader goes by their number, and not by the size of
the directory. -/
def entries (directory : Directory) (bytes : Array UInt8) :
    Except ArchiveProblem (List Entry) :=
  entriesFrom bytes directory.shift directory.count directory.start

end Directory

end Storage
end ChipEight
