import ClassDeps.File.Error
import ClassDeps.Text.Hex

namespace ClassDeps

namespace Zip

/-- The records of a zip file that have a fixed beginning. -/
inductive Record where
  | ending
  | ending64
  | locator64
  | line
  | header
deriving DecidableEq, Repr

namespace Record

def name : Record → String
  | ending => "zip::spec::Zip32CDEBlock"
  | ending64 => "zip::spec::Zip64CDEBlock"
  | locator64 => "zip::spec::Zip64CDELocatorBlock"
  | line => "zip::spec::ZipCentralEntryBlock"
  | header => "zip::spec::ZipLocalEntryBlock"

/-- What is said of a record that does not start with its signature. -/
def refusal : Record → String
  | ending | ending64 => "Invalid digital signature header"
  | locator64 => "Invalid zip64 locator digital signature header"
  | line => "Invalid Central Directory header"
  | header => "Invalid local file header"

end Record

/-- What is wrong with the structure of a zip file. -/
inductive Fault where
  | noEnd
  | cut (record : Record)
  | notRecord (record : Record)
  | commentCut
  /-- The directory is said to start behind the record that says so. -/
  | directoryBehindEnd
  | noDirectory
  | textCut
  | headerTooFar
  | noEnd64
  | end64BehindLocator
  | manyDisks
  | end64TooLarge
  | end64Disk
  | end64Length
  | end64Count
  | end64CountHere
  | extraHeaderCut (kind : Nat)
  | extraCut
  | sizesCut
  | unicodeTooSmall
  | unicodeChecksum (given actual : Nat)
  | invalidUtf8
  | cipherCut
  | cipherVendor
  | cipherVersion
  | cipherStrength
  | noCipher
deriving DecidableEq, Repr

namespace Fault

/-- The number of an extra field, with four digits. -/
def kindText (kind : Nat) : String := "0x" ++ Text.hexUpper 4 kind

def message : Fault → String
  | noEnd => "Could not find EOCD"
  | cut record => "Unexpected end of " ++ record.name
  | notRecord record => record.refusal
  | commentCut => "EOCD comment exceeds file boundary"
  | directoryBehindEnd => "Invalid CDFH offset in EOCD"
  | noDirectory => "No CDFH found"
  | textCut => "Variable-length field extends beyond file boundary"
  | headerTooFar => "Archive header is too large"
  | noEnd64 => "Could not find EOCD64"
  | end64BehindLocator => "Invalid EOCD64 Locator CD offset"
  | manyDisks => "Multi-disk ZIP files are not supported"
  | end64TooLarge => "EOCD64 extends beyond EOCD64 locator"
  | end64Disk => "Invalid EOCD64: inconsistency with Locator data"
  | end64Length => "Invalid EOCD64: inconsistent length"
  | end64Count => "Invalid EOCD64: inconsistent number of files"
  | end64CountHere =>
    "ZIP64 footer indicates more files on this disk than in the whole archive"
  | extraHeaderCut kind => "Extra field " ++ kindText kind ++ " header truncated"
  | extraCut => "Extra field content truncated"
  | sizesCut => "ZIP64 extra field truncated"
  | unicodeTooSmall => "Unicode extra field is too small"
  | unicodeChecksum given actual =>
    "CRC32 checksum failed on Unicode extra field, it is '0x" ++ Text.hexUpper 6 given ++
      "' and it should be '0x" ++ Text.hexUpper 6 actual ++ "'"
  | invalidUtf8 => "Invalid UTF-8"
  | cipherCut => "AES extra data field truncated"
  | cipherVendor => "Invalid AES vendor"
  | cipherVersion => "Invalid AES vendor version"
  | cipherStrength => "Invalid AES encryption strength"
  | noCipher => "AES encryption without AES extra data field"

end Fault

/-- What a zip file may hold but is not read here. -/
inductive Feature where
  | password
  | manyDisks
  | fileTimesLength
  | fileTimesTag
  | fileTimesSize
  | cipherLength
deriving DecidableEq, Repr

def Feature.message : Feature → String
  | password => "Password required to decrypt file"
  | manyDisks => "Support for multi-disk files is not implemented"
  | fileTimesLength => "NTFS extra field has an unsupported length"
  | fileTimesTag => "NTFS extra field has an unsupported attribute tag"
  | fileTimesSize => "NTFS extra field has an unsupported attribute size"
  | cipherLength => "AES extra data field has an unsupported length"

/-- Why bytes that are needed were not got. -/
inductive ReadFault where
  /-- Something ends before what it is said to hold. -/
  | endOfData
  | file (error : FileError)
  /-- A field of times is not as long as its flags say. -/
  | timestampFlags (length flags : Nat)
deriving DecidableEq, Repr

def ReadFault.message : ReadFault → String
  | endOfData => "failed to fill whole buffer"
  | file e => e.message
  | timestampFlags length flags =>
    "flags and len don't match in extended timestamp field len=" ++ toString length ++
      " flags=" ++ Text.binary 8 flags

end Zip

inductive ArchiveFault where
  /-- The archive as a whole is out of reach. -/
  | file (error : FileError)
  | invalid (fault : Zip.Fault)
  | unsupported (feature : Zip.Feature)
  | unsupportedMethod (method : Nat)
  | wrongPassword
  | read (fault : Zip.ReadFault)
  | wrongChecksum
  | corruptData
  | incompleteData
deriving DecidableEq, Repr

def ArchiveFault.message : ArchiveFault → String
  | file e => e.message
  | invalid fault => "invalid Zip archive: " ++ fault.message
  | unsupported feature => "unsupported Zip archive: " ++ feature.message
  | unsupportedMethod method => "compression method not supported: " ++ toString method
  | wrongPassword => "provided password is incorrect"
  | read fault => "i/o error: " ++ fault.message
  | wrongChecksum => "Invalid checksum"
  | corruptData => "corrupt deflate stream"
  | incompleteData => "incomplete deflate stream"

end ClassDeps
