import ClassDeps.Archive.Zip
import ClassDeps.Command.Run

namespace ClassDeps

def fileError : IO.Error → FileError
  | .noFileOrDirectory .. => .notFound
  | .inappropriateType .. => .isDirectory
  | e => .other (toString e)

/-- What is at a path on the disk. -/
partial def readTree (path : String) : IO (Except FileError FileTree) := do
  try
    let place ← IO.FS.realPath path
    if ← place.isDir then
      try
        let entries ← (← place.readDir).toList.mapM fun entry => do
          let tree ← readTree (Path.join path entry.fileName)
          return (entry.fileName, match tree with
            | .ok t => t
            | .error e => .file (.error e))
        return .ok (.directory entries)
      catch e => return .ok (.sealed (fileError e))
    else if ← place.pathExists then
      try return .ok (.file (.ok (← IO.FS.readBinFile path)))
      catch e => return .ok (.file (.error (fileError e)))
    else return .error .notFound
  catch e => return .error (fileError e)

/-- The file system as far as the options name it. -/
def readFiles (o : Options) : IO FileSystem := do
  let found ← (o.inputs ++ o.policy.toList).mapM fun path => return (path, ← readTree path)
  return {
    workingDirectory := (← IO.currentDir).toString
    find := fun path => (found.lookup path).getD (.error .notFound)
  }

def randomId : IO String := do
  let digits ← (List.range 32).mapM fun _ => IO.rand 0 15
  return String.join (digits.map (Text.hex 1))

/-- Writes what the run leaves behind. -/
def deliver (outcome : Outcome) : IO UInt32 := do
  match outcome.file with
  | none =>
    IO.print outcome.stdout
    IO.eprint outcome.stderr
    return outcome.exitCode.toUInt32
  | some (path, text) =>
    try
      IO.FS.writeFile path text
      IO.eprint outcome.stderr
      return outcome.exitCode.toUInt32
    catch e =>
      IO.eprint (Outcome.ofError (.output path (fileError e))).stderr
      return 1

def runOptions (o : Options) (arguments : List String) : IO UInt32 := do
  let started ← IO.monoMsNow
  let host : Host := {
    files := ← readFiles o
    canCreate := fun _ => .ok ()
    unzip := Zip.unzip
    arguments
    traceId := ← randomId
  }
  match ← IO.lazyPure fun _ => o.collect host with
  -- a scan that has no end never comes to this
  | none => return 1
  | some (.error e) => deliver (.ofError e)
  | some (.ok (policy, scan)) =>
    let scanned ← IO.monoMsNow
    match ← IO.lazyPure fun _ => scan.judge policy with
    | .error e => deliver (.ofError e)
    | .ok report =>
      let ended ← IO.monoMsNow
      deliver (.ofReport report o host ⟨ended - started, scanned - started, ended - scanned⟩)

end ClassDeps

open ClassDeps

def main (arguments : List String) : IO UInt32 := do
  match Request.ofArguments arguments with
  | .run o => runOptions o ("classgate" :: arguments)
  | .version => deliver .version
  | .help => deliver .help
  | .usage => deliver .usage
