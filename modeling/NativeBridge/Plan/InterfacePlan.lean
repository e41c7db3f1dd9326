import NativeBridge.Plan.Overload

/-!
# Interface plans

All that is emitted for one interface, after every type of its members has been looked at.
-/
namespace NativeBridge

/-- A getter is missing when the attribute is of type `void`, a setter when it is read-only. -/
structure AttributePlan where
  decl : Attribute
  getter : Option Marshaling
  setter : Option Marshaling
  deriving DecidableEq, Repr

structure InterfacePlan where
  interface : Interface
  constructors : OverloadGroup
  methods : List OverloadGroup
  attributes : List AttributePlan
  destroyableParent : Bool
  deriving DecidableEq, Repr

end NativeBridge
