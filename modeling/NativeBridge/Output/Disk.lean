import NativeBridge.Output.Host

/-!
# A disk in memory

A host whose files are a value. Their contents are texts that can be encoded: a text with half of a
surrogate pair, which no file can be filled with, is not among them. Places are named by the parts
that lead to them from the current directory. A place outside it starts with `..` or with the root,
which are directories and are not listed. A schedule says which content writes of staging files, and
which replacements, fail.
-/
namespace NativeBridge

inductive Node where
  | directory
  | file (content : String)
  deriving DecidableEq, Repr

structure StagingFile where
  serial : Nat
  directory : List String
  target : String
  content : String
  deriving DecidableEq, Repr

structure Disk where
  nodes : List (List String × Node) := []
  staging : List StagingFile := []
  serial : Nat := 0
  /-- Numbers of the replacements and of the writes that fail. -/
  failingReplaces : List Nat := []
  failingWrites : List Nat := []
  replaces : Nat := 0
  writes : Nat := 0
  log : List Event := []

namespace Disk

/-- A part that leads out of the current directory. -/
def isOutside (part : String) : Bool := part = ".." || part = "/"

def node? (d : Disk) (place : List String) : Option Node :=
  if place.all isOutside then some .directory else d.nodes.lookup place

def erase (d : Disk) (place : List String) : Disk :=
  { d with nodes := d.nodes.filter (·.1 ≠ place) }

def put (d : Disk) (place : List String) (node : Node) : Disk :=
  { d.erase place with nodes := (d.erase place).nodes ++ [(place, node)] }

/-- The place that one more part leads to. -/
def follow (place : List String) (part : String) : List String :=
  if part = ".." then
    match place.getLast? with
    | none | some ".." => place ++ [".."]
    | some "/" => place
    | some _ => place.dropLast
  else place ++ [part]

/-- The most bytes that a name, and that a whole path, may have. -/
def longestName : Nat := 255

def longestPath : Nat := 4095

/-- Where a path starts. -/
def start (path : Path) : List String := if path.root = "" then [] else ["/"]

/-- One step of following a path. -/
def enter (d : Disk) (path : Path) (place : List String) (part : String) :
    Except StorageError (List String) :=
  match d.node? place with
  | some .directory =>
    if longestName < part.utf8ByteSize then .error (.nameTooLong path.text)
    else .ok (follow place part)
  | some (.file _) => .error (.notADirectory path.text)
  | none => .error (.notFound path.text)

/-- The place that a path leads to. Everything on the way has to be a directory. -/
def locate (d : Disk) (path : Path) : Except StorageError (List String) :=
  if path.hasNull then .error (.nullCharacter path.text)
  else if longestPath < path.text.utf8ByteSize then .error (.nameTooLong path.text)
  else path.parts.foldlM (d.enter path) (start path)

def nodeAt (d : Disk) (path : Path) : Option Node :=
  match d.locate path with
  | .ok place => d.node? place
  | .error _ => none

/-- Directories of a place, outermost first. -/
def above (place : List String) : List (List String) :=
  (List.range place.length).map place.take

/-- A disk with a directory, and those above it, added. -/
def addDirectory (d : Disk) (place : List String) : Disk :=
  (above place ++ [place]).foldl (fun d p => if (d.node? p).isSome then d else d.put p .directory) d

def addFile (d : Disk) (place : List String) (content : String) : Disk :=
  (d.addDirectory place.dropLast).put place (.file content)

/-- Starts counting anew, with a new schedule. -/
def schedule (d : Disk) (replaces writes : List Nat) : Disk :=
  { d with failingReplaces := replaces, failingWrites := writes, replaces := 0, writes := 0 }

/-- The name of a staging file: that of its target, with a mark that makes it unique. -/
def stagingName (target mark : String) : String := s!".{target}.{mark}.tmp"

/-- Where the staging file of a path stands. The mark in its name has eight characters. -/
def stagingPath (path : Path) : Path := path.withName (stagingName path.name "********")

/-- All that is below the current directory, sorted by path. A directory ends in a slash and has no
content. -/
def listing (d : Disk) : List (String × Option String) :=
  let shown (place : List String) : String := "/".intercalate place
  let nodes := d.nodes.filterMap fun (place, node) =>
    if place.head?.any isOutside then none
    else
      match node with
      | .directory => some (shown place ++ "/", none)
      | .file content => some (shown place, some content)
  let staging := d.staging.filterMap fun file =>
    if file.directory.head?.any isOutside then none
    else some (shown (file.directory ++ [stagingName file.target "*"]), some file.content)
  (nodes ++ staging).mergeSort fun a b => !(b.1 < a.1)

end Disk

/-- Acting on a disk; what was done before an error stays done. -/
abbrev DiskM := ExceptT StorageError (StateM Disk)

namespace DiskM

def place (path : Path) : DiskM (List String) := do
  match (← get).locate path with
  | .ok place => return place
  | .error e => throw e

def makeDirectory (path : Path) : DiskM Unit := do
  let place ← place path
  let d ← get
  if (d.node? place).isSome then throw (.alreadyExists path.text)
  set (d.put place .directory)

def readFile (path : Path) : DiskM String := do
  let place ← place path
  match (← get).node? place with
  | some (.file content) => return content
  | some .directory => throw (.isADirectory path.text)
  | none => throw (.notFound path.text)

/-- A staging file beside a path. -/
def createStaging (path : Path) : DiskM StagingFile := do
  let place ← place (Disk.stagingPath path)
  let d ← get
  let file : StagingFile :=
    { serial := d.serial, directory := place.dropLast, target := path.name, content := "" }
  set { d with serial := d.serial + 1, staging := d.staging ++ [file] }
  return file

def fillStaging (file : StagingFile) (content : String) : DiskM Unit := do
  let d ← get
  set { d with writes := d.writes + 1 }
  if d.writes ∈ d.failingWrites then throw (.device "disk full")
  modify fun d => { d with staging := d.staging.map fun f =>
    if f.serial = file.serial then { f with content } else f }

def discardStaging (file : StagingFile) : DiskM Unit :=
  modify fun d => { d with staging := d.staging.filter (·.serial ≠ file.serial) }

def replaceFile (file : StagingFile) (path : Path) : DiskM Unit := do
  let d ← get
  set { d with replaces := d.replaces + 1 }
  if d.replaces ∈ d.failingReplaces then throw (.device "disk full")
  let place ← place path
  match d.node? place, d.staging.find? (·.serial = file.serial) with
  | some .directory, _ => throw (.isADirectory path.text)
  | _, none => throw (.notFound path.text)
  | _, some staged =>
    modify fun d => d.put place (.file staged.content)
    discardStaging file

def removeFile (path : Path) : DiskM Unit := do
  let place ← place path
  match (← get).node? place with
  | some (.file _) => modify (·.erase place)
  | some .directory => throw (.isADirectory path.text)
  | none => throw (.notFound path.text)

instance : Host DiskM where
  Staging := StagingFile
  makeDirectory := makeDirectory
  isDirectory path := return (← get).nodeAt path = some .directory
  fileExists path := return ((← get).nodeAt path).isSome
  readFile := readFile
  createStaging := createStaging
  fillStaging := fillStaging
  discardStaging := discardStaging
  replaceFile := replaceFile
  removeFile := removeFile
  report event := modify fun d => { d with log := d.log ++ [event] }

end DiskM

end NativeBridge
