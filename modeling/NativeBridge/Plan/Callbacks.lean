import NativeBridge.Plan.Session

/-!
# Planning callbacks

Arguments of a callback cross from native to script, and its result crosses back. A result is a
scalar, an interface or nothing.
-/
namespace NativeBridge

/-- A marshaling, where a callback can return values of its type. -/
def Marshaling.returnedByCallback (m : Marshaling) : Except Failure (Option Marshaling) :=
  match m.variant with
  | .scalar | .interface | .sharedInterface => .ok (some m)
  | variant => .error (.unmarshalable (.notCallbackResult variant))

namespace Session

open Planning

variable (s : Session)

def planCallbackArgument (c : Callback) (a : Argument) : Planning PlannedArgument :=
  within (.callbackArgument c.name a.name) do
    let marshaling ← s.argument a.type a.flags
    let _ ← check (marshaling.callableParam.mapError .unmarshalable)
    return { name := a.name, marshaling }

/-- The marshaling of a value that a callback returns. -/
def callbackResult (d : Descriptor) : Except Failure (Option Marshaling) := do
  (← s.classify (some d)).returnedByCallback

/-- The result that planning finds for a callback, with the marshaling that is kept for its type. -/
def callbackResultOf (d : Descriptor) : Planning (Option Marshaling) := do
  check (← s.marshalingOf (some d)).returnedByCallback

def planCallbackResult (c : Callback) : Planning (Option Marshaling) :=
  within (.callbackResult c.name) do
    match ← s.resolve c.returnType {} with
    | none => return none
    | some d => s.callbackResultOf d

def callbackPlan (c : Callback) : Planning CallbackPlan := do
  let arguments ← c.arguments.mapM (s.planCallbackArgument c)
  let returns ← s.planCallbackResult c
  return { callback := c, arguments, returns
           shim := s.mangle c.name "__invoke__" c.arguments.length }

/-- The plan of a callback; one that is planned keeps its plan. -/
def planCallback (c : Callback) : Planning CallbackPlan := do
  match (← get).callbacks.find? (·.callback.name = c.name) with
  | some plan => return plan
  | none =>
    let plan ← s.callbackPlan c
    modify fun p => { p with callbacks := p.callbacks ++ [plan] }
    note (.callback c.name plan.shim)
    return plan

end Session

end NativeBridge
