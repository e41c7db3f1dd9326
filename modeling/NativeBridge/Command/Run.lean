import NativeBridge.Command.Arguments
import NativeBridge.Output.Write

/-!
# Running a request

Reads the input, generates bindings and writes them, on any host.
-/
namespace NativeBridge.Command

/-- Where the output goes, without a suffix. -/
def Request.base (r : Request) : Except StorageError Path :=
  match r.output with
  | some base => .ok base
  | none =>
    if r.input.name = "" then .error (.emptyName r.input.text)
    else .ok (Path.ofString (r.input.withName (Path.stem r.input.name)).text)

/-- How a request ends. A refusal of the declarations and an error of the host are reported; a path
without a name, and bindings that planning accepts but that cannot be emitted, are not foreseen. -/
inductive Outcome where
  | generated (paths : List Path)
  | refused (failure : Failure)
  | storage (error : StorageError)
  deriving DecidableEq, Repr

namespace Outcome

def isForeseen : Outcome → Bool
  | generated _ => true
  | refused failure => failure.isRefusal
  | storage error => error.ofHost

def exitCode : Outcome → Nat
  | generated _ => 0
  | refused _ | storage _ => 1

/-- The lines of the output stream. -/
def summary (milliseconds : String) : Outcome → List String
  | generated paths => paths.map (fun path => "Generated: " ++ path.text) ++
      [s!"Generation completed in {milliseconds} ms"]
  | refused _ | storage _ => []

/-- The lines of the error stream. -/
def complaint : Outcome → List String
  | generated _ => []
  | refused failure => ["error: " ++ failure.message]
  | storage error => ["error: " ++ error.message]

end Outcome

namespace Request

variable {m : Type → Type} [Monad m] [MonadExceptOf StorageError m] [Host m]

def generate (r : Request) (text : String) : Except Failure Bindings × List Event :=
  match Idl.parse text with
  | .error fault => (.error (.ofIdl fault), [])
  | .ok declarations => generateBindings declarations r.options

def execute (r : Request) : m Outcome := do
  let base ← MonadExcept.ofExcept r.base
  let (result, events) := r.generate (← Host.readText r.input)
  events.forM Host.report
  match result with
  | .error failure => return .refused failure
  | .ok bindings => .generated <$> Host.writeBindings bindings base

/-- Runs a request to its end, whatever the host does. -/
def run (r : Request) : m Outcome :=
  tryCatch r.execute fun error => return .storage error

end Request

end NativeBridge.Command
