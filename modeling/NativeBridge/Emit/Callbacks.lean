import NativeBridge.Emit.Native

/-!
# Emitting callbacks

Each planned callback gives a shim on the native side, and on the script side a registry and the
function that the shim calls.
-/
namespace NativeBridge.CallbackPlan

def invokerName (p : CallbackPlan) : String := "__jsbind_invoke_" ++ p.callback.name

/-- The token and the arguments, as both sides of a shim name them. -/
def passedNames (p : CallbackPlan) : List String := "token" :: argumentNames p.arguments.length

def nativeLines (p : CallbackPlan) : Except Failure (List String) := do
  let result ← p.shimReturn.mapError .unmarshalable
  let params := "int token" :: p.arguments.zipIdx.map fun (a, i) =>
    a.marshaling.paramType ++ " " ++ argumentName i
  return [s!"EM_JS({result}, {p.shim}, ({commaSeparated params}), \x7b",
          s!"  return {p.invokerName}({commaSeparated p.passedNames});",
          "\x7d);",
          ""]

def scriptLines (p : CallbackPlan) : List String :=
  let name := p.callback.name
  let registry := registryName name
  let arguments := p.arguments.zipIdx.map fun (a, i) => a.marshaling.scriptArgument (argumentName i)
  let call := s!"fn({commaSeparated arguments})"
  let body :=
    match p.returns with
    | none => [s!"    {call};"]
    | some m => [s!"    let ret = {call};", "    return " ++ m.nativeResult "ret" ++ ";"]
  [s!"var {registry} = new CallbackRegistry(\"{name}\");",
   s!"function {p.invokerName}({commaSeparated p.passedNames}) \x7b",
   s!"  let fn = {registry}.lookup(token);",
   "  ensureCache.depth++;",
   "  try \x7b"] ++ body ++
  ["  \x7d finally \x7b",
   "    ensureCache.depth--;",
   "  \x7d",
   "\x7d",
   ""]

end NativeBridge.CallbackPlan
