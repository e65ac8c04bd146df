import TypeIgnore.Command.Basic

/-!
# The program

The command line, on the files of the machine it runs on.
-/

namespace TypeIgnore

/-- The error of the operating system. -/
def osError : IO.Error → OsError
  | .noFileOrDirectory .. => .noEntry
  | .resourceBusy .. => .busy
  | .alreadyExists .. => .alreadyExists
  | .inappropriateType _ code _ => if code = 20 ∨ code = -20 then .notDirectory else .isDirectory
  | e => .other (toString e).toList

/-- What is done, or the error of the operating system. -/
def caught (act : IO α) : IO (Except OsError α) := do
  match ← act.toBaseIO with
  | .ok a => return .ok a
  | .error e => return .error (osError e)

/-- What a path leads to, if it leads anywhere. -/
def fileType? (path : Text) : IO (Option IO.FS.FileType) := do
  match ← caught (do return (← (← IO.FS.realPath (String.ofList path)).metadata).type) with
  | .ok type => return some type
  | .error _ => return none

/-- The files below a directory. -/
partial def filesUnder (directory : Text) : IO (List Text) := do
  let entries ← (← IO.FS.realPath (String.ofList directory)).readDir
  let found ← entries.toList.mapM fun entry => do
    let path := joinText directory entry.fileName.toList
    match (← entry.path.symlinkMetadata).type with
    | .dir => filesUnder path
    | .file => return [path]
    | _ => return []
  return found.flatten

/-- The new content goes to a file beside the old one, which then takes its place. -/
def replaceFile (path : Text) (bytes : List UInt8) : IO Unit := do
  let old ← IO.FS.realPath (String.ofList path)
  if (← old.metadata).type == .dir then
    throw (IO.Error.inappropriateType none 21 "Is a directory")
  let new := old.toString ++ ".new"
  try
    IO.FS.writeBinFile new (ByteArray.mk bytes.toArray)
    IO.FS.rename new old
  catch e =>
    discard (IO.FS.removeFile new).toBaseIO
    throw e

instance : FileAccess IO where
  read path := caught do return (← IO.FS.readBinFile (String.ofList path)).toList
  replace path bytes := caught (replaceFile path bytes)
  write path bytes := caught (IO.FS.writeBinFile (String.ofList path) (ByteArray.mk bytes.toArray))
  makeDirs path := caught (IO.FS.createDirAll (String.ofList path))
  isFile path := do return (← fileType? path) matches some .file
  isDirectory path := do return (← fileType? path) matches some .dir
  canonical? path := do
    match ← caught (IO.FS.realPath (String.ofList path)) with
    | .ok p => return some p.toString.toList
    | .error _ => return none
  filesBelow path := do
    match ← caught (filesUnder path) with
    | .ok files => return files
    | .error _ => return []

/-- The time it is, which a new file carries. -/
def currentTime : IO Timestamp := do
  let (_, path) ← IO.FS.createTempFile
  let time := (← path.metadata).modified
  IO.FS.removeFile path
  return .ofSeconds time.sec.toNat time.nsec.toNat

/-- All that is left of a stream. -/
partial def readRest (stream : IO.FS.Stream) (done : ByteArray) : IO ByteArray := do
  let more ← stream.read 65536
  if more.isEmpty then return done else readRest stream (done ++ more)

def standardInput : IO (List UInt8) := do return (← readRest (← IO.getStdin) .empty).toList

end TypeIgnore

open TypeIgnore in
def main (args : List String) : IO UInt32 := do
  let (result, verbosity) ← runCommandLine currentTime standardInput (args.map String.toList)
  IO.print (String.ofList result.stdout)
  IO.eprint (String.ofList (result.errorText verbosity))
  return result.exit.toUInt32
