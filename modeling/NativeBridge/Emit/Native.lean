import NativeBridge.Plan.Session

/-!
# Native entry points

The native side of an interface is a list of entry points: one for each constructor overload, the
destructor, each method overload, and the accessors of each attribute.
-/
namespace NativeBridge

/-- A native function that script code can call. A receiver is a first parameter named `self`; the
others are named by their position. -/
structure EntryPoint where
  returnType : String
  name : String
  receiver : Option String := none
  parameters : List String := []
  body : List String
  deriving DecidableEq, Repr

def argumentName (position : Nat) : String := s!"arg{position}"

def argumentNames (count : Nat) : List String := (List.range count).map argumentName

def commaSeparated (items : List String) : String := ", ".intercalate items

def indent (pad : String) (lines : List String) : List String := lines.map (pad ++ ·)

namespace EntryPoint

def parameterTexts (e : EntryPoint) : List String :=
  (e.receiver.map (· ++ " self")).toList ++
    e.parameters.zipIdx.map fun (type, i) => type ++ " " ++ argumentName i

/-- The line that starts a definition. -/
def head (e : EntryPoint) : String :=
  s!"{e.returnType} EMSCRIPTEN_KEEPALIVE {e.name}({commaSeparated e.parameterTexts}) \x7b"

theorem head_eq (e : EntryPoint) :
    e.head = e.returnType ++ " EMSCRIPTEN_KEEPALIVE " ++ e.name ++ "(" ++
      ", ".intercalate e.parameterTexts ++ ") \x7b" := by
  simp [head, toString, commaSeparated]

def lines (e : EntryPoint) : List String := e.head :: indent "  " e.body ++ ["\x7d", ""]

end EntryPoint

/-- Native text is made of plain lines and of entry points. -/
inductive NativePart where
  | line (text : String)
  | entry (point : EntryPoint)
  deriving DecidableEq, Repr

namespace NativePart

def lines : NativePart → List String
  | line text => [text]
  | entry point => point.lines

def entry? : NativePart → Option EntryPoint
  | line _ => none
  | entry point => some point

end NativePart

def destructorName : String := "__destroy__"

def getterName (name : String) : String := "__get_" ++ name

def setterName (name : String) : String := "__set_" ++ name

namespace Interface

/-- The native type of a receiver. -/
def selfType (i : Interface) : String :=
  match i.ownership with
  | .shared => sharedCell i.nativeName ++ "*"
  | .raw => i.nativeName ++ "*"

/-- What stands before a member to reach it. -/
def reach (i : Interface) (isStatic : Bool) : String :=
  if isStatic then i.nativeName ++ "::"
  else
    match i.ownership with
    | .shared => "(*self)->"
    | .raw => "self->"

def receiverType (i : Interface) (isStatic : Bool) : Option String :=
  if isStatic then none else some i.selfType

end Interface

def Overload.paramTypes (o : Overload) : List String := o.arguments.map (·.marshaling.paramType)

/-- The expressions handed to the native implementation. -/
def Overload.nativeArguments (callbacks : List CallbackPlan) (o : Overload) :
    Except Failure String := do
  let passed ← o.arguments.zipIdx.mapM fun (a, i) =>
    a.marshaling.nativeArgument callbacks (argumentName i)
  return commaSeparated passed

/-- The native type of a result. -/
def resultType : Option Marshaling → Except Failure String
  | some m => m.returnType.mapError .unmarshalable
  | none => .ok "void"

namespace Session

variable (s : Session) (callbacks : List CallbackPlan)

def constructorEntry (i : Interface) (o : Overload) : Except Failure EntryPoint := do
  let cpp := i.nativeName
  let arguments ← o.nativeArguments callbacks
  let body :=
    match i.ownership with
    | .shared => s!"return new {sharedCell cpp}(std::make_shared<{cpp}>({arguments}));"
    | .raw => s!"return new {cpp}({arguments});"
  return { returnType := i.selfType, name := s.mangle i.name i.name o.arity,
           parameters := o.paramTypes, body := [body] }

/-- Deleting the cell of a shared interface releases one reference. -/
def destructorEntry (i : Interface) : Option EntryPoint :=
  if i.nonDestructible then none
  else
    some { returnType := "void", name := s.mangle i.name destructorName 0,
           receiver := some i.selfType, body := ["delete self;"] }

def methodEntry (i : Interface) (group : OverloadGroup) (o : Overload) :
    Except Failure EntryPoint := do
  let returnType ← resultType group.returns
  let arguments ← o.nativeArguments callbacks
  let call := s!"{i.reach group.isStatic}{o.nativeName}({arguments})"
  let body :=
    match group.returns with
    | some m => m.returnStatements call
    | none => [call ++ ";"]
  return { returnType, name := s.mangle i.name group.name o.arity,
           receiver := i.receiverType group.isStatic, parameters := o.paramTypes, body }

def getterEntry (i : Interface) (a : AttributePlan) : Except Failure EntryPoint :=
  match a.getter with
  | none => .error (.voidAttribute i.name a.decl.name)
  | some m => do
    return { returnType := ← m.returnType.mapError .unmarshalable,
             name := s.mangle i.name (getterName a.decl.name) 0,
             receiver := i.receiverType a.decl.isStatic,
             body := m.returnStatements (i.reach a.decl.isStatic ++ a.decl.name) }

def setterEntry (i : Interface) (a : AttributePlan) (m : Marshaling) :
    Except Failure EntryPoint := do
  let value ← m.nativeArgument callbacks (argumentName 0)
  return { returnType := "void", name := s.mangle i.name (setterName a.decl.name) 1,
           receiver := i.receiverType a.decl.isStatic, parameters := [m.paramType],
           body := [s!"{i.reach a.decl.isStatic}{a.decl.name} = {value};"] }

def attributeEntries (i : Interface) (a : AttributePlan) : Except Failure (List EntryPoint) := do
  let getter ← s.getterEntry i a
  match a.setter with
  | none => return [getter]
  | some m => return [getter, ← s.setterEntry callbacks i a m]

/-- The entry points of one interface, in the order in which they are defined. -/
def entryPoints (plan : InterfacePlan) : Except Failure (List EntryPoint) := do
  let i := plan.interface
  let constructors ← plan.constructors.overloads.mapM (s.constructorEntry callbacks i)
  let methods ← plan.methods.mapM fun g => g.overloads.mapM (s.methodEntry callbacks i g)
  let attributes ← plan.attributes.mapM (s.attributeEntries callbacks i)
  return constructors ++ (s.destructorEntry i).toList ++ methods.flatten ++ attributes.flatten

def interfaceParts (plan : InterfacePlan) : Except Failure (List NativePart) := do
  let entries ← s.entryPoints callbacks plan
  return [.line s!"// {plan.interface.name}", .line ""] ++ entries.map .entry

def nativeInterface (plan : InterfacePlan) : Except Failure (List String) := do
  return (← s.interfaceParts callbacks plan).flatMap NativePart.lines

end Session

end NativeBridge
