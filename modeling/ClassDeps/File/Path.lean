import ClassDeps.File.Error
import ClassDeps.Text.Split

namespace ClassDeps.Path

/-- The texts between slashes, empty ones included. -/
def pieces (path : String) : List String :=
  (Text.splitAll '/' path.toList).map String.ofList

/-- The pieces that name something. -/
def parts (path : String) : List String :=
  (pieces path).filter fun p => p ≠ "" && p ≠ "."

def isAbsolute (path : String) : Bool :=
  path.toList.head? = some '/'

/-- The number of bytes that a name in a directory may have. -/
def maxName : Nat := 255

/-- The number of bytes that a path may have. -/
def maxLength : Nat := 4095

/-- What no path may be, whatever files there are. -/
def check (path : String) : Except FileError Unit :=
  if path.toList.contains '\x00' then .error .nulInPath
  else if path = "" then .error .notFound
  else if maxLength < path.utf8ByteSize then .error .nameTooLong
  else .ok ()

/-- The entry `name` of the directory at `path`. -/
def join (path name : String) : String :=
  if path = "" || path.toList.getLast? = some '/' then path ++ name else path ++ "/" ++ name

/-- The last part, unless it goes up. -/
def fileName? (path : String) : Option String :=
  (parts path).getLast?.filter (· ≠ "..")

/-- What follows the last dot of the name. A name has none if its only dot comes first. -/
def extension? (path : String) : Option String :=
  match (fileName? path).bind fun name => Text.splitLast? '.' name.toList with
  | some (_ :: _, extension) => some (String.ofList extension)
  | _ => none

/-- `path` has this extension, in upper or lower case. -/
def hasExtension (path extension : String) : Bool :=
  (extension? path).any fun e => e.toList.map Char.toLower = extension.toList

/-- The name is that of an archive. -/
def isArchive (path : String) : Bool :=
  ["jar", "zip", "war", "ear"].any (hasExtension path)

/-- The name is that of a module description, which defines no class. -/
def isModuleInfo (path : String) : Bool :=
  "module-info.class".toList.isSuffixOf path.toList

/-- What tells a path from others: where it starts, and its parts. -/
def components (path : String) : List String :=
  (pieces path).take 1 |>.filter (fun p => p = "" || p = ".") |>.append (parts path)

/-- The parts after steps up are taken, unless they lead out. -/
def inside? (parts : List String) : Option (List String) :=
  parts.foldlM
    (fun done p => if p ≠ ".." then some (done ++ [p]) else if done = [] then none
      else some done.dropLast)
    []

end ClassDeps.Path
