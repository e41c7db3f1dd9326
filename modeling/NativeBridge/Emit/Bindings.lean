import NativeBridge.Emit.Callbacks
import NativeBridge.Emit.Records
import NativeBridge.Emit.Support
import NativeBridge.Idl.Source
import NativeBridge.Plan.Interfaces

/-!
# Bindings

The two texts generated for one input: a script module and a native source.
-/
namespace NativeBridge

structure Bindings where
  script : String
  native : String
  deriving DecidableEq, Repr

def unlines (lines : List String) : String := "\n".intercalate lines

namespace Session

variable (s : Session) (p : Progress) (plans : List InterfacePlan)

def exportedNames : List String :=
  s.declarations.valueTypes.map (·.name) ++ plans.map (·.interface.name)

def scriptParts : Except Failure (List ScriptPart) := do
  let order ← s.recordsOrder p.layouts
  let records ← order.mapM (scriptRecord p.layouts)
  let classes ← plans.mapM s.scriptClass
  return (scriptSupport s.options.moduleName).map .line ++ s.layoutParts p.slots ++
    (records.flatten ++ p.callbacks.flatMap CallbackPlan.scriptLines).map .line ++
    classes.flatMap ScriptClass.parts ++
    (scriptExports s.options.moduleName (s.exportedNames plans)).map .line

def nativeParts : Except Failure (List NativePart) := do
  let slots := s.nativeSlots p.layouts
  let shims ← p.callbacks.mapM CallbackPlan.nativeLines
  let layout ← s.layoutEntry p.slots
  let interfaces ← plans.mapM (s.interfaceParts p.callbacks)
  return (nativePrologue ++ (if slots = [] then [] else slots ++ [""]) ++ shims.flatten ++
      ["extern \"C\" \x7b", ""]).map .line ++
    layout.toList.map .entry ++ interfaces.flatten ++ [.line "\x7d  // extern \"C\"", .line ""]

/-- Plans everything, then emits both texts. -/
def generate : Planning Bindings := do
  let plans ← s.prepare
  let p ← get
  let script ← Planning.check (s.scriptParts p plans)
  let native ← Planning.check (s.nativeParts p plans)
  return { script := unlines (script.flatMap ScriptPart.lines)
           native := unlines (native.flatMap NativePart.lines) }

end Session

/-- Bindings for a set of declarations, and what the run reported. -/
def generateBindings (declarations : Declarations) (options : Options) :
    Except Failure Bindings × List Event :=
  match Session.create declarations options with
  | .error failure => (.error failure, [])
  | .ok s =>
    let (result, progress) := s.generate.run.run {}
    (result, progress.log)

end NativeBridge
