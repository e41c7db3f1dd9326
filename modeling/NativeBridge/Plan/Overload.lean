import NativeBridge.Plan.Fault

/-!
# Overloads

Members of one name form a group, ordered by the number of their arguments. A call is dispatched by
that number alone, so a group holds at most one overload of each arity.
-/
namespace NativeBridge

structure PlannedArgument where
  name : String
  marshaling : Marshaling
  deriving DecidableEq, Repr

/-- One native entry point of a group. -/
structure Overload where
  arguments : List PlannedArgument
  nativeName : String
  deriving DecidableEq, Repr

namespace Overload

def arity (o : Overload) : Nat := o.arguments.length

def stages (o : Overload) : Bool := o.arguments.any (·.marshaling.stages)

/-- Inserts an overload before the first one of greater arity. -/
def insert (o : Overload) : List Overload → List Overload
  | [] => [o]
  | p :: rest => if o.arity < p.arity then o :: p :: rest else p :: insert o rest

end Overload

/-- Same-named members of one interface, in ascending arity. -/
structure OverloadGroup where
  name : String
  returnType : Option Descriptor
  returns : Option Marshaling
  isStatic : Bool
  overloads : List Overload := []
  deriving DecidableEq, Repr

namespace OverloadGroup

def maxArity (g : OverloadGroup) : Nat := (g.overloads.map Overload.arity).foldl max 0

/-- An overload with a guard is taken when the argument at that position is missing; the greatest
arity has no guard and takes the rest. -/
def dispatch (g : OverloadGroup) : List (Option Nat × Overload) :=
  g.overloads.map fun o => (if o.arity ≠ g.maxArity then some o.arity else none, o)

/-- The overload that the dispatch takes for a number of given arguments. -/
def select (g : OverloadGroup) (argc : Nat) : Option Overload :=
  (g.dispatch.find? fun (guard, _) => guard.all (argc ≤ ·)).map (·.2)

def add (callable : Callable) (g : OverloadGroup) (o : Overload) : Except Failure OverloadGroup :=
  if g.overloads.any (·.arity = o.arity) then .error (.invalid (.sameArity callable o.arity))
  else .ok { g with overloads := o.insert g.overloads }

end OverloadGroup

/-- One argument list per number of arguments a caller may give: all required arguments, and from
there one more at a time. -/
def expandOptional (arguments : List Argument) : List (List Argument) :=
  let required := arguments.countP (!·.optional)
  (List.range' required (arguments.length + 1 - required)).map arguments.take

end NativeBridge
