import NativeBridge.Plan.Session

/-!
# Planning constructors and operations

Every argument list of a constructor or an operation is expanded into the overloads it stands for,
and the overloads are gathered by name.
-/
namespace NativeBridge.Session

open Planning

variable (s : Session)

def planArgument (callable : Callable) (a : Argument) : Planning PlannedArgument := do
  let marshaling ← within (.argument callable a.name) (s.argument a.type a.flags)
  return { name := a.name, marshaling }

def planArguments (callable : Callable) (arguments : List Argument) :
    Planning (List PlannedArgument) :=
  arguments.mapM (s.planArgument callable)

def addVariant (callable : Callable) (nativeName : String) (group : OverloadGroup)
    (variant : List Argument) : Planning OverloadGroup := do
  let arguments ← s.planArguments callable variant
  check (group.add callable { arguments, nativeName })

/-- Adds one overload for every number of arguments that a list allows. -/
def addVariants (callable : Callable) (nativeName : String) (group : OverloadGroup)
    (arguments : List Argument) : Planning OverloadGroup :=
  (expandOptional arguments).foldlM (s.addVariant callable nativeName) group

/-- The group of constructors; without any the interface cannot be constructed. -/
def planConstructors (i : Interface) : Planning OverloadGroup := do
  let empty : OverloadGroup :=
    { name := i.name, returnType := none, returns := none, isStatic := true }
  let group ← i.constructors.foldlM (s.addVariants (.constructor i.name) i.nativeName) empty
  note (.constructors i.name (group.overloads.map Overload.arity))
  return group

/-- Puts a group in the place of the one of the same name, or last. -/
def putGroup (group : OverloadGroup) : List OverloadGroup → List OverloadGroup
  | [] => [group]
  | g :: rest => if g.name = group.name then group :: rest else g :: putGroup group rest

def planOperation (i : Interface) (groups : List OverloadGroup) (op : Operation) :
    Planning (List OverloadGroup) := do
  let callable := Callable.operation i.name op.name
  if i.attributes.any (·.name = op.name) then
    throw (.invalid (.attributeAndOperation callable))
  let (returnType, returns) ← within (.member i.name op.name) do
    let d ← s.resolve op.returnType op.flags
    return (d, ← s.resultOf d)
  let group := (groups.find? (·.name = op.name)).getD
    { name := op.name, returnType, returns, isStatic := op.isStatic }
  if group.isStatic ≠ op.isStatic then throw (.invalid (.staticness callable))
  if group.returnType ≠ returnType then
    throw (.invalid (.returnTypes callable group.returnType returnType))
  let group ← s.addVariants callable op.nativeName group op.arguments
  return putGroup group groups

def planOperations (i : Interface) : Planning (List OverloadGroup) := do
  let groups ← i.operations.foldlM (s.planOperation i) []
  groups.forM fun group =>
    note (.operations i.name group.name (group.overloads.map Overload.arity))
  return groups

end NativeBridge.Session
