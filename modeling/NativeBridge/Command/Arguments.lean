import NativeBridge.Command.Word
import NativeBridge.Output.Path
import NativeBridge.Plan.Session

/-!
# Reading a command line

Options may stand anywhere, and the last one wins. Two plain words name the input and the output.
They have to stand together: words behind a later option are left over. The mark `--` is never a
value: where one is taken from the word of its option, or as the second plain word, it is dropped.
-/
namespace NativeBridge.Command

structure Settings where
  inputWord : String := ""
  outputWord : String := ""
  idl : String := ""
  output : String := ""
  options : Options := {}
  verbose : Bool := false
  deriving DecidableEq, Repr

/-- How far the two plain words have been read: none yet, one or both with nothing in between, or no
more because something else followed. -/
inductive Phase where
  | fresh
  | one
  | two
  | closed
  deriving DecidableEq, Repr

structure Reading where
  settings : Settings := {}
  phase : Phase := .fresh
  leftOver : List String := []
  deriving DecidableEq, Repr

/-- Why reading stops early. -/
inductive Halt where
  | help
  | misuse (cause : Misuse)
  deriving DecidableEq, Repr

/-- An option and its value, which is empty for a flag. -/
abbrev Setting := Opt × String

/-- A path. Without a value it is not given. -/
def pathValue (text : String) : String := if text = "--" then "" else text

/-- A name. Without a value it is the empty list, which is written in its place. -/
def nameValue (text : String) : String := if text = "--" then "[]" else text

def Settings.apply (s : Settings) : Setting → Except Halt Settings
  | (.help, _) => .error .help
  | (.idl, value) => .ok { s with idl := pathValue value }
  | (.output, value) => .ok { s with output := pathValue value }
  | (.moduleName, value) =>
    .ok { s with options := { s.options with moduleName := nameValue value } }
  | (.entryPrefix, value) =>
    .ok { s with options := { s.options with entryPrefix := nameValue value } }
  | (.verbose, _) => .ok { s with verbose := true }

namespace Reading

def leave (r : Reading) (text : String) : Reading := { r with leftOver := r.leftOver ++ [text] }

def takeWord (r : Reading) (text : String) : Reading :=
  match r.phase with
  | .fresh => { r with settings := { r.settings with inputWord := text }, phase := .one }
  | .one => { r with settings := { r.settings with outputWord := pathValue text }, phase := .two }
  | .two | .closed => { r.leave text with phase := .closed }

def takeSeparator (r : Reading) : Reading :=
  match r.phase with
  | .fresh | .one | .two => r
  | .closed => r.leave "--"

/-- An option ends the stretch of plain words, if one has begun. -/
def close (r : Reading) : Reading :=
  match r.phase with
  | .fresh => r
  | .one | .two | .closed => { r with phase := .closed }

def apply (r : Reading) (settings : List Setting) : Except Halt Reading := do
  return { r with settings := ← settings.foldlM Settings.apply r.settings }

end Reading

/-- Reads the letters joined to the short flag `opt`. Each is another short option, and one that
takes a value takes what follows it; an option that is left without a value comes second in the
answer. -/
def joinedOptions (opt : Opt) : List Char → Except Misuse (List Setting × Option Opt)
  | [] => .error (.ignoredValue opt "")
  | letter :: rest =>
    match Opt.ofSpelling? (String.ofList ['-', letter]), rest with
    | none, _ => .error (.ignoredValue opt (String.ofList (letter :: rest)))
    | some next, [] =>
      if next.takesValue then .ok ([(opt, "")], some next)
      else .ok ([(opt, ""), (next, "")], none)
    | some next, more =>
      if next.takesValue then .ok ([(opt, ""), (next, String.ofList more)], none)
      else do
        let (later, waiting) ← joinedOptions next more
        return ((opt, "") :: later, waiting)

/-- The settings that one option word makes, and the option for which the next word is the value. -/
def Written.expand (w : Written) : Except Misuse (List Setting × Option Opt) :=
  match w.attached with
  | none => .ok (if w.opt.takesValue then ([], some w.opt) else ([(w.opt, "")], none))
  | some text =>
    if w.opt.takesValue then .ok ([(w.opt, text)], none)
    else if "--".toList.isPrefixOf w.spelling.toList then .error (.ignoredValue w.opt text)
    else joinedOptions w.opt text.toList

def readWords (r : Reading) : List Word → Except Halt Reading
  | [] => .ok r
  | .plain text :: rest => readWords (r.takeWord text) rest
  | .separator :: rest => readWords r.takeSeparator rest
  | .unknown text :: rest => readWords (r.close.leave text) rest
  | .option written :: rest =>
    match written.expand with
    | .error cause => .error (.misuse cause)
    | .ok (settings, none) => do readWords (← r.close.apply settings) rest
    | .ok (settings, some opt) =>
      match rest with
      | .plain value :: rest => do readWords (← r.close.apply (settings ++ [(opt, value)])) rest
      | _ => .error (.misuse (.missingValue opt))

/-- What a run is asked to do. Without a path for the output, it goes beside the input. -/
structure Request where
  input : Path
  output : Option Path
  options : Options
  verbose : Bool
  deriving DecidableEq, Repr

/-- The first of two texts that is not empty. -/
def firstGiven (a b : String) : Option String :=
  if a ≠ "" then some a else if b ≠ "" then some b else none

def Settings.request (s : Settings) : Except Misuse Request :=
  match firstGiven s.inputWord s.idl with
  | none => .error .noInput
  | some input => .ok
    { input := Path.ofString input
      output := (firstGiven s.output s.outputWord).map Path.ofString
      options := s.options
      verbose := s.verbose }

/-- The request that a command line makes. -/
def readArguments (arguments : List String) : Except Halt Request := do
  let words ← (classifyAll arguments).mapError .misuse
  let r ← readWords {} words
  if r.leftOver ≠ [] then .error (.misuse (.unrecognized r.leftOver))
  else r.settings.request.mapError .misuse

end NativeBridge.Command
