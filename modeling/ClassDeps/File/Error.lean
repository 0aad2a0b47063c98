namespace ClassDeps

inductive FileError where
  | notFound
  | notDirectory
  | isDirectory
  | nameTooLong
  /-- A character that no path can hold. -/
  | nulInPath
  | invalidUtf8
  /-- The file is none that can be analyzed. -/
  | unsupported
  /-- A position that no file has. -/
  | invalidPosition
  | other (text : String)
deriving DecidableEq, Repr

def FileError.message : FileError → String
  | notFound => "No such file or directory (os error 2)"
  | notDirectory => "Not a directory (os error 20)"
  | isDirectory => "Is a directory (os error 21)"
  | nameTooLong => "File name too long (os error 36)"
  | nulInPath => "file name contained an unexpected NUL byte"
  | invalidUtf8 => "stream did not contain valid UTF-8"
  | unsupported => "unsupported input file"
  | invalidPosition => "Invalid argument (os error 22)"
  | other text => text

end ClassDeps
