/-!
# Problems with stored programs

Why a program cannot be obtained from an archive or from a file.  A problem with
the structure of an archive is told apart from a problem with the bytes of the
program itself, and both have their own report.

The texts inside the reports are those of the archive reader, of its decoder and of the operating
system, whose errors come with their number.
-/

namespace ChipEight
namespace Storage

/-- A part of an archive that is not as it has to be. -/
inductive Defect where
  | tooShort
  | noEndRecord
  | directoryBounds
  | noRoomForWideEndRecord
  | noWideEndRecord
  | directoryEntry
  | entryPlace
  | fileEntry
  | noEncryptionField
  | encryptionVendor
  | encryptionVersion
  | encryptionStrength
deriving DecidableEq

/-- What the archive reader says about a defect. -/
def Defect.message : Defect → String
  | .tooShort => "Invalid zip header"
  | .noEndRecord => "Could not find central directory end"
  | .directoryBounds => "Invalid central directory size or offset"
  | .noRoomForWideEndRecord => "File cannot contain ZIP64 central directory end"
  | .noWideEndRecord => "Could not find ZIP64 central directory end"
  | .directoryEntry => "Invalid Central Directory header"
  | .entryPlace => "Archive header is too large"
  | .fileEntry => "Invalid local file header"
  | .noEncryptionField => "AES encryption without AES extra data field"
  | .encryptionVendor => "Invalid AES vendor"
  | .encryptionVersion => "Invalid AES vendor version"
  | .encryptionStrength => "Invalid AES encryption strength"

/-- Something that an archive may hold but that is not read. -/
inductive Unsupported where
  | severalDisks
  | encryptionField
  | encrypted
  | packing
deriving DecidableEq

/-- What the archive reader says about something that it does not read. -/
def Unsupported.message : Unsupported → String
  | .severalDisks => "Support for multi-disk files is not implemented"
  | .encryptionField => "AES extra data field has an unsupported length"
  | .encrypted => "Password required to decrypt file"
  | .packing => "Compression method not supported"

/-- A problem with the structure of an archive, as the archive reader reports it. -/
inductive ArchiveProblem where
  | notFound
  | truncated
  | defective (defect : Defect)
  | unsupported (feature : Unsupported)
deriving DecidableEq

/-- The text of the archive reader, which names the kind of problem first. -/
def ArchiveProblem.message : ArchiveProblem → String
  | .notFound => "specified file not found in archive"
  | .truncated => "failed to fill whole buffer"
  | .defective defect => "invalid Zip archive: " ++ defect.message
  | .unsupported feature => "unsupported Zip archive: " ++ feature.message

/-- A problem with the bytes of a program: the first three come up while an entry is unpacked, and
the others where a path does not lead to a file. -/
inductive ContentProblem where
  | checksum
  | corrupt
  | incomplete
  | missing
  | notDirectory
  | isDirectory
  | nameTooLong
  | zeroInName
deriving DecidableEq

/-- The text that reading the bytes fails with: of the archive reader, of its decoder or of the
operating system. -/
def ContentProblem.message : ContentProblem → String
  | .checksum => "Invalid checksum"
  | .corrupt => "corrupt deflate stream"
  | .incomplete => "incomplete deflate stream"
  | .missing => "No such file or directory (os error 2)"
  | .notDirectory => "Not a directory (os error 20)"
  | .isDirectory => "Is a directory (os error 21)"
  | .nameTooLong => "File name too long (os error 36)"
  | .zeroInName => "file name contained an unexpected NUL byte"

/-- Why a program cannot be obtained. -/
inductive Problem where
  | archive (problem : ArchiveProblem)
  | content (problem : ContentProblem)
deriving DecidableEq

def Problem.message : Problem → String
  | .archive problem => "Unable to read the rom archive '" ++ problem.message ++ "'."
  | .content problem => "Unable to read the rom '" ++ problem.message ++ "'."

end Storage
end ChipEight
