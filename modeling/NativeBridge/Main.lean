import NativeBridge.Command.Run
import NativeBridge.Command.Usage

/-!
# The program

Runs the request of a command line on the file system. Reports go to the error stream when they are
asked for.
-/
namespace NativeBridge

/-- Acting on the file system; the flag says whether reports are printed. -/
abbrev FileM := ExceptT StorageError (ReaderT Bool IO)

namespace FileM

/-- An error number; some calls give it with a minus sign. -/
def errorNumber (code : UInt32) : Nat := min code.toNat (UInt32.size - code.toNat)

def storageError (path : String) (error : IO.Error) : StorageError :=
  match error with
  | .noFileOrDirectory .. => .notFound path
  | .alreadyExists .. => .alreadyExists path
  | .inappropriateType _ code _ | .invalidArgument _ code _ | .resourceExhausted _ code _ =>
    match errorNumber code with
    | 20 => .notADirectory path
    | 21 => .isADirectory path
    | 36 => .nameTooLong path
    | _ => .device error.toString
  | other => .device other.toString

def attempt {α : Type} (path : Path) (act : IO α) : FileM α :=
  if path.hasNull then throw (.nullCharacter path.text)
  else ExceptT.mk fun _ =>
    tryCatch (.ok <$> act) fun error => pure (.error (storageError path.text error))

def stagingLetters : List Char := "abcdefghijklmnopqrstuvwxyz0123456789_".toList

def stagingName (target : String) : IO String := do
  let letters ← (List.range 8).mapM fun _ => do
    let i ← IO.rand 0 (stagingLetters.length - 1)
    return stagingLetters.getD i 'a'
  return "." ++ target ++ "." ++ String.ofList letters ++ ".tmp"

/-- Creates an empty file under a fresh name; a name that is taken is tried again. -/
def createStaging (path : Path) : Nat → IO Path
  | 0 => do
    let staging := path.withName (← stagingName path.name)
    discard (IO.FS.Handle.mk staging.text .writeNew)
    return staging
  | tries + 1 => do
    let staging := path.withName (← stagingName path.name)
    tryCatch (do
      discard (IO.FS.Handle.mk staging.text .writeNew)
      return staging) fun
      | .alreadyExists .. => createStaging path tries
      | error => throw error

/-- Whether a path leads to something of which the test holds. -/
def whenThere (path : Path) (test : IO Bool) : FileM Bool :=
  ExceptT.mk fun _ => tryCatch (do
    discard (IO.FS.realPath path.text)
    return .ok (← test)) fun _ => pure (.ok false)

instance : Host FileM where
  Staging := Path
  makeDirectory path := attempt path (IO.FS.createDir path.text)
  isDirectory path := whenThere path do (← IO.FS.realPath path.text).isDir
  fileExists path := whenThere path (return true)
  readFile path := attempt path (IO.FS.readFile path.text)
  createStaging path := attempt path (createStaging path 100)
  fillStaging staging content := attempt staging (IO.FS.writeFile staging.text content)
  discardStaging staging := attempt staging (IO.FS.removeFile staging.text)
  replaceFile staging path := attempt path (IO.FS.rename staging.text path.text)
  removeFile path := attempt path (IO.FS.removeFile path.text)
  report event := ExceptT.mk fun verbose => do
    if verbose then IO.eprintln event.text
    return .ok ()

end FileM

/-- Milliseconds with two places. -/
def milliseconds (nanoseconds : Nat) : String :=
  let hundredths := (nanoseconds + 5000) / 10000
  let places := hundredths % 100
  toString (hundredths / 100) ++ "." ++ (if places < 10 then "0" else "") ++ toString places

end NativeBridge

open NativeBridge Command

def main (arguments : List String) : IO UInt32 := do
  let start ← IO.monoNanosNow
  match readArguments arguments with
  | .error halt =>
    IO.print halt.answer
    if halt ≠ .help then
      IO.eprint usageText
      IO.eprintln halt.complaint
    return halt.exitCode.toUInt32
  | .ok request =>
    let act : FileM Outcome := request.run
    match ← act.run.run request.verbose with
    | .ok outcome =>
      let elapsed := (← IO.monoNanosNow) - start
      (outcome.summary (milliseconds elapsed)).forM fun line => IO.println line
      outcome.complaint.forM fun line => IO.eprintln line
      return outcome.exitCode.toUInt32
    | .error error =>
      IO.eprintln error.message
      return 1
