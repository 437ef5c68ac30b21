import ChipEight.Program
import ChipEight.Storage.Checksum
import ChipEight.Storage.Directory
import ChipEight.Storage.Inflate

/-!
# Archives of programs

An archive in the ZIP format holds programs under their names, either as they are or
deflated.  Where a name occurs several times, the last entry of that name counts.

The format says what the bytes mean.  Which archives are accepted, in which order they are
looked at and what is reported first is up to the archive reader that the programs are read
with, `zip` 0.6 with deflate and without encryption.

* `Archive.ofBytes` opens an archive by reading its directory.
* `Archive.names` lists the names of its programs.
* `Archive.get` unpacks the program of a name and checks it against its checksum.
-/

namespace ChipEight
namespace Storage

/-- An opened archive.  The reader keeps the bytes, and of the directory what it needs to find
an entry in them. -/
structure Archive where
  bytes : Array UInt8
  /-- The entries of its directory in order. -/
  entries : List Entry

namespace Archive

/-- Opens an archive by reading its directory.  The reader does not look at the entries
themselves before one of them is asked for. -/
def ofBytes (bytes : Array UInt8) : Except Problem Archive :=
  match Directory.find bytes >>= fun directory => directory.entries bytes with
  | .ok entries => .ok ⟨bytes, entries⟩
  | .error problem => .error (.archive problem)

/-- The names of the programs, each of them once.  The reader gives them in no particular order,
and here they are sorted. -/
def names (archive : Archive) : List String :=
  ((archive.entries.map Entry.name).mergeSort fun a b => decide (a ≤ b)).eraseDups

/-- The entry that a name stands for.  The reader looks names up in a table, where a later entry
takes the place of an earlier one. -/
def find? (archive : Archive) (name : String) : Option Entry :=
  archive.entries.reverse.find? fun entry => entry.name == name

/-- The mark that the format puts in front of the local record of an entry. -/
def fileMark : Nat := 0x04034b50

/-- The packed bytes of an entry.  In the format a local record stands in front of them, and the
reader takes nothing from it but the lengths of its name and of its further fields; everything
else is what the directory says.  It refuses encrypted entries before it looks at the record, and
unknown ways of packing after that.  Bytes that the archive breaks off before are missing at the
end, and no error yet. -/
def packed (archive : Archive) (entry : Entry) : Except ArchiveProblem (List UInt8) := do
  if entry.isEncrypted then .error (.unsupported .encrypted)
  if (← numberAt archive.bytes entry.place 4) ≠ fileMark then .error (.defective .fileEntry)
  let nameSize ← numberAt archive.bytes (entry.place + 26) 2
  let extraSize ← numberAt archive.bytes (entry.place + 28) 2
  if entry.method ≠ 0 ∧ entry.method ≠ 8 then .error (.unsupported .packing)
  return slice archive.bytes (entry.place + 30 + nameSize + extraSize) entry.packedSize

/-- The bytes that packed bytes stand for.  The format numbers the ways of packing, zero for
bytes as they are and eight for deflated ones, and the reader compares the checksum once it has
come to the end. -/
def unpacked (entry : Entry) (bytes : List UInt8) : Except ContentProblem (List UInt8) :=
  match if entry.method = 0 then .ok bytes else Inflate.unpack bytes with
  | .error problem => .error problem
  | .ok plain =>
    if (Checksum.ofBytes plain).toNat = entry.checksum then .ok plain else .error .checksum

/-- The program of a name.  A problem with the entry is one of the archive, and a problem in its
bytes shows only as they are read. -/
def get (archive : Archive) (name : String) : Except Problem Program :=
  match archive.find? name with
  | none => .error (.archive .notFound)
  | some entry =>
    match archive.packed entry with
    | .error problem => .error (.archive problem)
    | .ok bytes =>
      match unpacked entry bytes with
      | .error problem => .error (.content problem)
      | .ok plain => .ok ⟨name, plain⟩

end Archive
end Storage
end ChipEight
