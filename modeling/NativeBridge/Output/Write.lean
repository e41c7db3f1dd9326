import NativeBridge.Emit.Bindings
import NativeBridge.Output.Host

/-!
# Writing bindings

Both files are staged beside their destinations and moved into place when both are complete. When
the second move fails, the first file gets its previous content back before the error goes on. A
failure while restoring is not recovered from.
-/
namespace NativeBridge.Host

variable {m : Type → Type} [Monad m] [MonadExceptOf StorageError m] [Host m]

/-- A staging file with the given content; a failed write leaves none. -/
def stage (path : Path) (content : String) : m (Staging m) := do
  let file ← createStaging path
  tryCatch (fillStaging file content) fun error => do
    discardStaging file
    throw error
  return file

/-- Stages files one after another; when one fails, none stays. -/
def stageAll (staged : List (Staging m × Path)) :
    List (Path × String) → m (List (Staging m × Path))
  | [] => return staged
  | (path, content) :: rest => do
    let file ← tryCatch (stage path content) fun error => do
      staged.forM fun (earlier, _) => discardStaging earlier
      throw error
    stageAll (staged ++ [(file, path)]) rest

def previousContent (path : Path) : m (Option String) := do
  if ← fileExists path then some <$> readText path else return none

/-- Puts back what a path held before. -/
def restore (path : Path) (previous : Option String) : m Unit :=
  match previous with
  | none => removeFile path
  | some content => do
    let file ← stage path content
    replaceFile file path

/-- A staged file on its way to its destination, with what the destination held before. -/
structure Move (m : Type → Type) [Host m] where
  file : Staging m
  path : Path
  previous : Option String

def rollBack (moved pending : List (Move m)) : m Unit := do
  report (.rollingBack (moved.map (·.path.text)))
  pending.forM fun move => discardStaging move.file
  moved.forM fun move => restore move.path move.previous

/-- Moves staged files into place; when a move fails, the earlier ones are undone. -/
def moveAll (moved : List (Move m)) : List (Move m) → m Unit
  | [] => return
  | move :: rest => do
    tryCatch (replaceFile move.file move.path) fun error => do
      rollBack moved (move :: rest)
      throw error
    report (.wrote move.path.text)
    moveAll (moved ++ [move]) rest

def scriptPath (base : Path) : Path := base.withName (base.name ++ ".js")

def nativePath (base : Path) : Path := base.withName (base.name ++ ".cpp")

/-- Where the two texts go: the base with a suffix for each. -/
def outputs (bindings : Bindings) (base : Path) : List (Path × String) :=
  [(scriptPath base, bindings.script), (nativePath base, bindings.native)]

def writeBindings (bindings : Bindings) (base : Path) : m (List Path) := do
  ensureDirectories base.parent
  if base.name = "" then throw (.emptyName base.text)
  let staged ← stageAll [] (outputs bindings base)
  let moves ← staged.mapM fun (file, path) => do
    return { file, path, previous := ← previousContent path : Move m }
  moveAll [] moves
  return (outputs bindings base).map (·.1)

end NativeBridge.Host
