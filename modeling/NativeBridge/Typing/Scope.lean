import NativeBridge.Typing.Descriptor
import NativeBridge.Unvisited

/-!
# Looking up type names

A scope holds the declared names. Resolving a type expression follows one path: through its nullable
and sequence layers to a name, and through the typedef of that name to another expression. `step`
says what stands at one point of the path, and `Step.inner` names the next point together with what
to make of its answer.
-/
namespace NativeBridge

structure Scope where
  typedefs : List Typedef := []
  interfaces : List String := []
  valueTypes : List String := []
  callbacks : List String := []

inductive Unresolvable where
  | union (type : TypeExpr)
  | nullableVoid
  | element (found : Option Descriptor)
  | notWebIdl (name : String)
  | cycle (name : String)
  | unknown (name : String)
  deriving DecidableEq, Repr

def Unresolvable.message : Unresolvable → String
  | .union type => s!"union type {type.text} is not supported"
  | .nullableVoid => "void cannot be nullable"
  | .element found => s!"sequence element type {describeType found} is not a scalar"
  | .notWebIdl name => s!"{name} is not a WebIDL type"
  | .cycle name => s!"typedef cycle through '{name}'"
  | .unknown name => s!"unknown type '{name}'"

/-- The answer for an expression: a descriptor, `none` for `void`, or the reason why there is
none. -/
abbrev Resolved := Except Unresolvable (Option Descriptor)

inductive Step where
  | answer (result : Resolved)
  | inner (type : TypeExpr) (pending : List String) (finish : Option Descriptor → Resolved)

def nullableOf (flags : Flags) : Option Descriptor → Resolved
  | none => .error .nullableVoid
  | some d => .ok (some { d with nullable := true, flags })

def sequenceOf (flags : Flags) : Option Descriptor → Resolved
  | some { base := .scalar kind, nullable := false, flags := _ } =>
    .ok (some { base := .sequence kind, flags })
  | found => .error (.element found)

/-- Flags written on a typedef name apply to what the typedef stands for. -/
def flagged (flags : Flags) (d : Option Descriptor) : Resolved := .ok (d.map ({ · with flags }))

def stringNames : List String := ["DOMString", "ByteString", "USVString"]

/-- What a name means without any declaration. -/
def builtin? (name : String) (flags : Flags) : Option Resolved :=
  if name = "void" then some (.ok none)
  else if name = "int" || name = "unsigned int" then some (.error (.notWebIdl name))
  else
    match ScalarKind.ofName? name with
    | some kind => some (.ok (some { base := .scalar kind, flags }))
    | none =>
      if name ∈ stringNames then some (.ok (some { base := .string, flags })) else none

namespace Scope

/-- The last typedef of a name counts. -/
def target? (scope : Scope) (name : String) : Option TypeExpr :=
  (scope.typedefs.reverse.find? (·.name = name)).map (·.type)

/-- What a declared name other than a typedef means. -/
def declared (scope : Scope) (name : String) (flags : Flags) : Resolved :=
  if name ∈ scope.interfaces then .ok (some { base := .interface name, flags })
  else if name ∈ scope.valueTypes then .ok (some { base := .valueType name, flags })
  else if name ∈ scope.callbacks then .ok (some { base := .callback name, flags })
  else .error (.unknown name)

def stepName (scope : Scope) (pending : List String) (name : String) (flags : Flags) : Step :=
  match builtin? name flags with
  | some result => .answer result
  | none =>
    match scope.target? name with
    | some target =>
      if name ∈ pending then .answer (.error (.cycle name))
      else .inner target (name :: pending) (flagged flags)
    | none => .answer (scope.declared name flags)

def step (scope : Scope) (pending : List String) (e : TypeExpr) (flags : Flags) : Step :=
  if e.union ≠ [] then .answer (.error (.union e))
  else if e.nullable then .inner { name := e.name, element := e.element } pending (nullableOf flags)
  else
    match e.element with
    | some element => .inner element pending (sequenceOf flags)
    | none => scope.stepName pending e.name flags

def typedefNames (scope : Scope) : List String := scope.typedefs.map (·.name)

theorem mem_typedefNames {scope : Scope} {name : String} {target : TypeExpr}
    (h : scope.target? name = some target) : name ∈ scope.typedefNames := by
  obtain ⟨t, found, -⟩ := Option.map_eq_some_iff.1 h
  have named : t.name = name := by simpa using List.find?_some found
  have member : t ∈ scope.typedefs := by simpa using List.mem_of_find?_eq_some found
  exact List.mem_map.2 ⟨t, member, named⟩

end Scope

/-- Layers left on an expression: two for a sequence, one for a nullable mark. -/
def TypeExpr.weight : TypeExpr → Nat
  | ⟨_, some e, _, nullable⟩ => e.weight + 2 + nullable.toNat
  | ⟨_, none, _, nullable⟩ => nullable.toNat

theorem TypeExpr.weight_strip (e : TypeExpr) (h : e.nullable = true) :
    weight { name := e.name, element := e.element } < e.weight := by
  obtain ⟨name, element, union, nullable⟩ := e
  cases element <;> simp_all [weight]

theorem TypeExpr.weight_element {e inner : TypeExpr} (h : e.element = some inner) :
    inner.weight < e.weight := by
  obtain ⟨name, element, union, nullable⟩ := e
  simp only at h
  subst h
  simp only [weight]
  omega

namespace Scope

/-- The layers of all typedefs. -/
def layers (scope : Scope) : Nat := scope.typedefs.foldr (fun t rest => t.type.weight + rest) 0

theorem weight_target_le {scope : Scope} {name : String} {target : TypeExpr}
    (h : scope.target? name = some target) : target.weight ≤ scope.layers := by
  obtain ⟨t, found, rfl⟩ := Option.map_eq_some_iff.1 h
  have member : t ∈ scope.typedefs := by simpa using List.mem_of_find?_eq_some found
  rw [layers]
  generalize scope.typedefs = typedefs at member ⊢
  induction typedefs with
  | nil => cases member
  | cons first rest ih =>
    rw [List.foldr_cons]
    rcases List.mem_cons.1 member with rfl | later
    · omega
    · have := ih later
      omega

/-- A bound on the steps left: entering a typedef is worth the layers of them all. -/
def stepsLeft (scope : Scope) (pending : List String) (e : TypeExpr) : Nat :=
  unvisited scope.typedefNames pending * (scope.layers + 1) + e.weight

/-- Each step leaves fewer typedefs to enter, or as many and fewer layers. -/
theorem step_decreases {scope : Scope} {pending pending' : List String} {e e' : TypeExpr}
    {flags : Flags} {finish : Option Descriptor → Resolved}
    (h : scope.step pending e flags = .inner e' pending' finish) :
    scope.stepsLeft pending' e' < scope.stepsLeft pending e := by
  simp only [step] at h
  split at h
  · cases h
  · split at h
    · cases h
      exact Nat.add_lt_add_left (e.weight_strip ‹_›) _
    · split at h
      · cases h
        exact Nat.add_lt_add_left (TypeExpr.weight_element ‹_›) _
      · simp only [stepName] at h
        split at h
        · cases h
        · split at h
          · split at h
            · cases h
            · cases h
              have fewer := unvisited_lt (mem_typedefNames ‹_›) ‹_›
              have bound := weight_target_le ‹_›
              have worth := Nat.mul_le_mul_right (scope.layers + 1) (Nat.succ_le_of_lt fewer)
              simp only [stepsLeft, Nat.succ_mul] at worth ⊢
              omega
          · cases h

end Scope

end NativeBridge
