import NativeBridge.Plan.Overload

/-!
# Callback plans

A script function crosses into native code as a token. Native code gets a callable that wraps the
token and forwards to a shim, which looks the function up on the script side.
-/
namespace NativeBridge

structure CallbackPlan where
  callback : Callback
  shim : String
  arguments : List PlannedArgument
  returns : Option Marshaling
  deriving DecidableEq, Repr

namespace CallbackPlan

def shimReturn (p : CallbackPlan) : Except Unmarshalable String :=
  match p.returns with
  | none => .ok "void"
  | some m => m.returnType

/-- The result type of the callable: a shared interface leaves its cell. -/
def callableReturn (p : CallbackPlan) : Except Unmarshalable String :=
  match p.returns with
  | none => .ok "void"
  | some (.sharedInterface _ cpp _ _) => .ok (sharedCell cpp)
  | some m => m.returnType

def signature (p : CallbackPlan) : Except Unmarshalable String := do
  let params ← p.arguments.mapM (·.marshaling.callableParam)
  return (← p.callableReturn) ++ "(" ++ ", ".intercalate params ++ ")"

/-- What the callable does with the shim's answer. -/
def callableBody (p : CallbackPlan) (invoke : String) : Except Unmarshalable String := do
  match p.returns with
  | none => return s!"{invoke};"
  | some m =>
    match m with
    | .sharedInterface .. =>
      let shimType ← p.shimReturn
      let copied := m.callableResult "cell"
      return s!"{shimType} cell = {invoke}; return {copied};"
    | _ => return s!"return {invoke};"

/-- The native expression that wraps a token into a callable. -/
def nativeCallable (p : CallbackPlan) (token : String) (nullable : Bool) :
    Except Unmarshalable String := do
  let types ← p.arguments.mapM (·.marshaling.callableParam)
  let params := ", ".intercalate (types.zipIdx.map fun (type, i) => s!"{type} cb{i}")
  let passed := p.arguments.zipIdx.map fun (a, i) => a.marshaling.forwarded s!"cb{i}"
  let invoke := p.shim ++ "(" ++ ", ".intercalate (token :: passed) ++ ")"
  let body ← p.callableBody invoke
  let result ← p.callableReturn
  let lambda := s!"[{token}]({params}) -> {result} \x7b {body} \x7d"
  if nullable then
    let signature ← p.signature
    let function := s!"std::function<{signature}>"
    return s!"({token} ? {function}({lambda}) : {function}())"
  else return lambda

end CallbackPlan

/-- The expression handed to the native implementation for a parameter. -/
def Marshaling.nativeArgument (plans : List CallbackPlan) (var : String) :
    Marshaling → Except Failure String
  | interface _ _ f _ => .ok (if f.indirect then "*" ++ var else var)
  | sharedInterface _ cpp _ nullable =>
    .ok (if nullable then s!"({var} ? *{var} : {sharedCell cpp}())" else "*" ++ var)
  | valueType .. => .ok ("*" ++ var)
  | callback name _ nullable =>
    match plans.find? (·.callback.name = name) with
    | some plan => (plan.nativeCallable var nullable).mapError .unmarshalable
    | none => .error (.missing name)
  | scalar .. | string .. | sequence .. => .ok var

end NativeBridge
