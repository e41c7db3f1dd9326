import NativeBridge.Output.Path
import NativeBridge.Plan.Event
import NativeBridge.Text.Newline
import NativeBridge.Text.Quoted

/-!
# Hosts

What a run needs from the world around it: directories, files, staging files that can replace a
file in one step, and a place for reports. Writing and running are stated over any host.
-/
namespace NativeBridge

inductive StorageError where
  | notFound (path : String)
  | alreadyExists (path : String)
  | notADirectory (path : String)
  | isADirectory (path : String)
  | nameTooLong (path : String)
  | device (text : String)
  | emptyName (path : String)
  | nullCharacter (path : String)
  deriving DecidableEq, Repr

namespace StorageError

def message : StorageError → String
  | notFound path => s!"[Errno 2] No such file or directory: {Text.quote path}"
  | alreadyExists path => s!"[Errno 17] File exists: {Text.quote path}"
  | notADirectory path => s!"[Errno 20] Not a directory: {Text.quote path}"
  | isADirectory path => s!"[Errno 21] Is a directory: {Text.quote path}"
  | nameTooLong path => s!"[Errno 36] File name too long: {Text.quote path}"
  | device text => text
  | emptyName path => s!"{Text.quote path} has an empty name"
  | nullCharacter path => s!"{Text.quote path} holds a null character"

/-- Whether the host failed. A path that names nothing is the caller's mistake. -/
def ofHost : StorageError → Bool
  | emptyName _ | nullCharacter _ => false
  | notFound _ | alreadyExists _ | notADirectory _ | isADirectory _ | nameTooLong _
  | device _ => true

end StorageError

class Host (m : Type → Type) where
  /-- A file under a name of its own beside the file that it is to replace. -/
  Staging : Type
  makeDirectory : Path → m Unit
  isDirectory : Path → m Bool
  fileExists : Path → m Bool
  readFile : Path → m String
  createStaging : Path → m Staging
  fillStaging : Staging → String → m Unit
  discardStaging : Staging → m Unit
  replaceFile : Staging → Path → m Unit
  removeFile : Path → m Unit
  report : Event → m Unit

namespace Host

variable {m : Type → Type} [Monad m] [MonadExceptOf StorageError m] [Host m]

/-- A text file with its line ends unified. -/
def readText (path : Path) : m String := do
  let content ← readFile path
  return Text.unified content

/-- A directory that is there already is fine. -/
def ensureDirectory (path : Path) : m Unit :=
  tryCatch (makeDirectory path) fun error => do
    if ← isDirectory path then return else throw error

/-- A directory together with those above it that are missing. -/
def ensureDirectories (path : Path) : m Unit :=
  tryCatch (makeDirectory path) fun error => do
    match error with
    | .notFound _ =>
      if _some : path.parts = [] then throw error
      else
        ensureDirectories path.parent
        ensureDirectory path
    | _ => if ← isDirectory path then return else throw error
termination_by path.parts.length
decreasing_by
  simp only [Path.parent, List.length_dropLast]
  have : path.parts.length ≠ 0 := by simpa using _some
  omega

end Host

end NativeBridge
