import NativeBridge.Idl.Declaration
import NativeBridge.Typing.Scalar

/-!
# Record layouts

Sizes and field offsets of value types are known to the native compiler only. Each is one slot of a
table that the native side fills and the script side reads by slot number.
-/
namespace NativeBridge

def layoutTable : String := "__jsbind_layout"

/-- A question to the native compiler: the size of a value type, or the offset of a field. -/
structure Slot where
  index : Nat
  valueType : String
  field : Option String := none
  deriving DecidableEq, Repr

def Slot.nativeExpr (slot : Slot) (cpp : String) : String :=
  match slot.field with
  | none => s!"(int)sizeof({cpp})"
  | some field => s!"(int)offsetof({cpp}, {field})"

structure FieldLayout where
  name : String
  kind : ScalarKind
  slot : Nat
  deriving DecidableEq, Repr

namespace FieldLayout

def isBool (f : FieldLayout) : Bool := f.kind = .boolean

/-- The element of a heap view that holds the field of the record at a pointer. -/
def heapRef (f : FieldLayout) (ptr : String) : String :=
  let offset := s!"({ptr} + {layoutTable}[{f.slot}])"
  if f.kind.shift = 0 then s!"{f.kind.heapView}[{offset}]"
  else s!"{f.kind.heapView}[{offset} >> {f.kind.shift}]"

end FieldLayout

/-- The slots of one value type: own fields first, then those of its ancestors. -/
structure RecordLayout where
  valueType : ValueType
  sizeSlot : Nat
  fields : List FieldLayout := []
  deriving DecidableEq, Repr

end NativeBridge
