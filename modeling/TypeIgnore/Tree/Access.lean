import TypeIgnore.Diagnostic.Reason
import TypeIgnore.Text.Utf8

/-!
# File access

What a run asks of the file system, and the errors it can get.

* `OsError` — why an operation failed;
* `FileAccess m` — the operations, as programs of `m`;
* `SourceError` — why a source cannot be read or written;
* `readSource`, `writeSource` — a source as text.
-/

namespace TypeIgnore

inductive OsError
  | noEntry
  | busy
  | alreadyExists
  | notDirectory
  | isDirectory
  | tooLarge
  | nameTooLong
  | nulInName
  | other (text : Text)
  deriving DecidableEq, Repr

def OsError.message : OsError → Text
  | .noEntry => "No such file or directory (os error 2)"
  | .busy => "Device or resource busy (os error 16)"
  | .alreadyExists => "File exists (os error 17)"
  | .notDirectory => "Not a directory (os error 20)"
  | .isDirectory => "Is a directory (os error 21)"
  | .tooLarge => "File too large (os error 27)"
  | .nameTooLong => "File name too long (os error 36)"
  | .nulInName => "file name contained an unexpected NUL byte"
  | .other text => text

/-- Operations on files, which are named by path texts. -/
class FileAccess (m : Type → Type) where
  read (path : Text) : m (Except OsError (List UInt8))
  /-- Gives a file that exists another content, in one step: it has the old or the new one, even if this fails. -/
  replace (path : Text) (bytes : List UInt8) : m (Except OsError Unit)
  /-- Writes a file, which need not exist. -/
  write (path : Text) (bytes : List UInt8) : m (Except OsError Unit)
  /-- Makes a directory and those on the way to it, where they are missing. -/
  makeDirs (path : Text) : m (Except OsError Unit)
  isFile (path : Text) : m Bool
  isDirectory (path : Text) : m Bool
  /-- The absolute path of what `path` names, without steps that lead nowhere or back. -/
  canonical? (path : Text) : m (Option Text)
  /-- All files below a directory. -/
  filesBelow (path : Text) : m (List Text)

/-! ## Text files -/

/-- A file that cannot be read as text. -/
inductive ReadError
  | os (e : OsError)
  | notUtf8
  deriving DecidableEq, Repr

def ReadError.message : ReadError → Text
  | .os e => e.message
  | .notUtf8 => "stream did not contain valid UTF-8"

/-- The text of bytes read. -/
def readText : Except OsError (List UInt8) → Except ReadError Text
  | .error e => .error (.os e)
  | .ok bytes =>
    match Utf8.decode? bytes with
    | some text => .ok text
    | none => .error .notUtf8

/-! ## Sources -/

inductive SourceFault
  | notFound
  | encoding
  | io (e : OsError)
  deriving DecidableEq, Repr

structure SourceError where
  path : Text
  fault : SourceFault
  deriving DecidableEq, Repr

namespace SourceError

def ofOs (path : Text) : OsError → SourceError
  | .noEntry => ⟨path, .notFound⟩
  | e => ⟨path, .io e⟩

def reason (e : SourceError) : Reason :=
  match e.fault with
  | .notFound => .fileNotFound
  | .encoding => .encodingError
  | .io _ => .ioError

def message (e : SourceError) : Text :=
  e.path ++ ": " ++
    match e.fault with
    | .notFound => "no such file"
    | .encoding => "not valid UTF-8"
    | .io os => os.message

end SourceError

section Sources

variable {m : Type → Type} [Monad m] [FileAccess m]

/-- The text of a source. -/
def readSource (path : Text) : m (Except SourceError Text) := do
  match readText (← FileAccess.read path) with
  | .ok text => return .ok text
  | .error (.os e) => return .error (.ofOs path e)
  | .error .notUtf8 => return .error ⟨path, .encoding⟩

/-- Another text for a source that exists. -/
def writeSource (path text : Text) : m (Except SourceError Unit) := do
  return (← FileAccess.replace path (Utf8.encode text)).mapError (.ofOs path)

end Sources

end TypeIgnore
