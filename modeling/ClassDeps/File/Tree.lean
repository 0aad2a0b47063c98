import ClassDeps.File.Error
import ClassDeps.File.Path

namespace ClassDeps

inductive FileTree where
  | file (content : Except FileError ByteArray)
  | directory (entries : List (String × FileTree))
  /-- A directory that cannot be listed. -/
  | sealed (error : FileError)

structure FileSystem where
  workingDirectory : String
  find : String → Except FileError FileTree

namespace FileTree

def empty : FileTree := .directory []

/-- Puts a file, or a directory for `none`, at the end of a path. What is in a directory stays. -/
def put (content : Option ByteArray) : List String → Option FileTree → FileTree
  | [], old =>
    match content, old with
    | some bytes, _ => .file (.ok bytes)
    | none, some (.directory entries) => .directory entries
    | none, _ => .empty
  | name :: rest, old =>
    let entries :=
      match old with
      | some (.directory entries) => entries
      | _ => []
    let entry := put content rest (entries.lookup name)
    .directory ((name, entry) :: entries.filter (·.1 ≠ name))

/-- The tree of files by path. A path that ends in a slash is a directory. -/
def ofFiles (files : List (String × ByteArray)) : FileTree :=
  files.foldl
    (fun tree (path, bytes) =>
      put (if path.toList.getLast? = some '/' then none else some bytes) (Path.parts path) tree)
    .empty

/-- Follows the pieces of a path from `here`, which lies in the directories `above`. Nothing is
known of what lies further up, so that it counts as empty. -/
def walk (above : List FileTree) (here : FileTree) : List String → Except FileError FileTree
  | [] => .ok here
  | piece :: rest =>
    match here with
    | .file _ => .error .notDirectory
    | .sealed e => .error e
    | .directory entries =>
      if piece = "" || piece = "." then walk above here rest
      else if piece = ".." then
        match above with
        | [] => walk [] .empty rest
        | parent :: above => walk above parent rest
      else if Path.maxName < piece.utf8ByteSize then .error .nameTooLong
      else
        match entries.lookup piece with
        | none => .error .notFound
        | some entry => walk (here :: above) entry rest

/-- What the pieces of a path lead to. -/
def resolve (root : FileTree) (path : String) (pieces : List String) : Except FileError FileTree :=
  walk [] (if Path.isAbsolute path then .empty else root) pieces

/-- What a path leads to. -/
def find (root : FileTree) (path : String) : Except FileError FileTree := do
  Path.check path
  root.resolve path (Path.pieces path)

/-- Whether a file can be made at a path. -/
def canCreate (root : FileTree) (path : String) : Except FileError Unit := do
  Path.check path
  match ((Path.pieces path).filter (· ≠ "")).reverse with
  | [] => .error .isDirectory
  | name :: parents =>
    if name = "." || name = ".." then
      let _ ← root.resolve path (Path.pieces path)
      .error .isDirectory
    else
      match ← root.resolve path parents.reverse with
      | .file _ => .error .notDirectory
      | .sealed e => .error e
      | .directory entries =>
        if path.toList.getLast? = some '/' then .error .isDirectory
        else if Path.maxName < name.utf8ByteSize then .error .nameTooLong
        else
          match entries.lookup name with
          | none | some (.file _) => .ok ()
          | some _ => .error .isDirectory

/-- Writes a file, in place of the one that is there. What lies outside is not kept. -/
def write (root : FileTree) (path : String) (content : ByteArray) : FileTree :=
  match Path.inside? (Path.parts path) with
  | some parts => if Path.isAbsolute path then root else put (some content) parts root
  | none => root

/-- The file system with `root` as its working directory. -/
def system (root : FileTree) (workingDirectory : String) : FileSystem where
  workingDirectory
  find := root.find

end FileTree

namespace FileSystem

def readText (fs : FileSystem) (path : String) : Except FileError String := do
  match ← fs.find path with
  | .directory _ => .error .isDirectory
  | .sealed e => .error e
  | .file content =>
    match String.fromUTF8? (← content) with
    | some text => .ok text
    | none => .error .invalidUtf8

/-- The address of a path, relative ones being taken from the working directory. -/
def uri (fs : FileSystem) (path : String) : String :=
  "file://" ++ if Path.isAbsolute path then path else Path.join fs.workingDirectory path

end FileSystem

end ClassDeps
