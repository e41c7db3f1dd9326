import NativeBridge.Plan.Callbacks
import NativeBridge.Plan.Members
import NativeBridge.Plan.Records

/-!
# Planning interfaces

Interfaces are put into an order with parents first and planned one by one. Preparing a session
plans everything, so that nothing is emitted before all declarations are known to be in order.
-/
namespace NativeBridge.Session

open Planning

variable (s : Session)

def interfaceNames : List String := s.declarations.interfaces.map (·.name)

theorem mem_interfaceNames {name : String} {i : Interface} (h : s.interface? name = some i) :
    i.name ∈ s.interfaceNames :=
  List.mem_map.2 ⟨i, List.mem_of_find?_eq_some h, rfl⟩

/-- The parent of an interface: a declared interface of the same ownership. -/
def parentOf (i : Interface) : Except Failure (Option Interface) :=
  match i.parent with
  | none => .ok none
  | some parent =>
    if (s.valueType? parent).isSome then .error (.invalid (.extendsValueType i.name parent))
    else
      match s.interface? parent with
      | none => .error (.invalid (.unknownParent i.name parent))
      | some p =>
        if p.ownership = i.ownership then .ok (some p)
        else .error (.invalid (.ownershipMismatch i.name i.ownership p.name p.ownership))

theorem parentOf_declared {i p : Interface} (h : s.parentOf i = .ok (some p)) :
    p.name ∈ s.interfaceNames := by
  simp only [parentOf] at h
  split at h
  · cases h
  · split at h
    · cases h
    · split at h
      · cases h
      · split at h
        · cases h
          exact s.mem_interfaceNames ‹_›
        · cases h

/-- An interface and its ancestors up to those already placed, the most derived first; `visited` are
the names on the way, the one of the interface included. -/
def climb (placed visited : List String) (i : Interface) : Except Failure (List Interface) :=
  match _found : s.parentOf i with
  | .error failure => .error failure
  | .ok none => .ok [i]
  | .ok (some p) =>
    if p.name ∈ placed then .ok [i]
    else if _fresh : p.name ∈ visited then .error (.invalid (.interfaceCycle p.name))
    else do return i :: (← climb placed (p.name :: visited) p)
termination_by unvisited s.interfaceNames visited
decreasing_by exact unvisited_lt (s.parentOf_declared _found) _fresh

/-- Places an interface behind those of its ancestors that are not placed yet. -/
def place (ordered : List Interface) (i : Interface) : Except Failure (List Interface) :=
  let placed := ordered.map (·.name)
  if i.name ∈ placed then .ok ordered
  else do return ordered ++ (← s.climb placed [i.name] i).reverse

/-- The interfaces, every parent ahead of its children. -/
def orderInterfaces : Except Failure (List Interface) :=
  s.declarations.interfaces.foldlM s.place []

/-- Whether an ancestor can be destroyed, from the given parent on. -/
def destroyableFrom (visited : List String) (parent : Option String) : Bool :=
  match parent with
  | none => false
  | some name =>
    if name = "" then false
    else
      match _found : s.interface? name with
      | none => false
      | some p =>
        if !p.nonDestructible then true
        else if _fresh : p.name ∈ visited then false
        else destroyableFrom (p.name :: visited) p.parent
termination_by unvisited s.interfaceNames visited
decreasing_by exact unvisited_lt (s.mem_interfaceNames _found) _fresh

/-- A read-only attribute has no setter. -/
def planSetter (a : Attribute) : Planning (Option Marshaling) :=
  if a.readOnly then pure none else some <$> s.argument a.type a.flags

def planAccessors (a : Attribute) : Planning AttributePlan := do
  let getter ← s.resultOf (← s.resolve a.type a.flags)
  let setter ← s.planSetter a
  return { decl := a, getter, setter }

def planAttribute (i : Interface) (plans : List AttributePlan) (a : Attribute) :
    Planning (List AttributePlan) := do
  if plans.any (·.decl.name = a.name) then throw (.invalid (.attributeTwice i.name a.name))
  let plan ← within (.member i.name a.name) (s.planAccessors a)
  return plans ++ [plan]

def planInterface (i : Interface) : Planning InterfacePlan := do
  let constructors ← s.planConstructors i
  let methods ← s.planOperations i
  let attributes ← i.attributes.foldlM (s.planAttribute i) []
  return { interface := i, constructors, methods, attributes,
           destroyableParent := s.destroyableFrom [] i.parent }

/-- Plans the whole input. -/
def prepare : Planning (List InterfacePlan) := do
  let ordered ← check s.orderInterfaces
  s.declarations.valueTypes.forM fun v => discard (s.register v)
  s.declarations.callbacks.forM fun c => discard (s.planCallback c)
  let plans ← ordered.mapM s.planInterface
  modify fun p => { p with plans }
  let p ← get
  note (.planned plans.length p.layouts.length p.callbacks.length p.slots.length)
  return plans

end NativeBridge.Session
