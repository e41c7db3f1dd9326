import NativeBridge.Idl.Declaration
import NativeBridge.Text.Quoted
import NativeBridge.Typing.Scalar

/-!
# Type descriptors

What a type expression means once its names are looked up. A sequence holds a scalar, a nullable
type wraps something that is not nullable itself, and the flags belong to the outermost layer. No
descriptor stands for `void`: a type is resolved to an optional descriptor.
-/
namespace NativeBridge

inductive Base where
  | scalar (kind : ScalarKind)
  | string
  | sequence (element : ScalarKind)
  | interface (name : String)
  | valueType (name : String)
  | callback (name : String)
  deriving DecidableEq, Repr

structure Descriptor where
  base : Base
  nullable : Bool := false
  flags : Flags := {}
  deriving DecidableEq, Repr

def Base.describe : Base → String
  | .scalar kind => kind.idlName
  | .string => "DOMString"
  | .sequence kind => "sequence<" ++ kind.idlName ++ ">"
  | .interface name => name
  | .valueType name => name
  | .callback name => name

def Descriptor.describe (d : Descriptor) : String :=
  if d.nullable then d.base.describe ++ "?" else d.base.describe

def describeType : Option Descriptor → String
  | none => "void"
  | some d => d.describe

/-- The structural key of a type: a variant, the flags of that layer, and what it is built on. -/
inductive TypeKey where
  | void
  | leaf (variant : String) (flags : Flags) (base : Option String)
  | layer (variant : String) (flags : Flags) (inner : TypeKey)
  deriving DecidableEq, Repr

def Base.key (flags : Flags) : Base → TypeKey
  | .scalar kind => .leaf "Scalar" flags (some kind.idlName)
  | .string => .leaf "StringType" flags none
  | .sequence kind => .layer "SequenceOf" flags (.leaf "Scalar" {} (some kind.idlName))
  | .interface name => .leaf "InterfaceRef" flags (some name)
  | .valueType name => .leaf "ValueTypeRef" flags (some name)
  | .callback name => .leaf "CallbackRef" flags (some name)

def Descriptor.key (d : Descriptor) : TypeKey :=
  if d.nullable then .layer "Nullable" d.flags (d.base.key {}) else d.base.key d.flags

def typeKey : Option Descriptor → TypeKey
  | none => .void
  | some d => d.key

def truthWord (b : Bool) : String := if b then "True" else "False"

def Flags.text (f : Flags) : String :=
  s!"TypeFlags(by_ref={truthWord f.byRef}, by_value={truthWord f.byValue}, " ++
    s!"is_const={truthWord f.isConst})"

def TypeKey.text : TypeKey → String
  | .void => Text.tupled [Text.quote "void"]
  | .leaf variant flags base =>
    Text.tupled [Text.quote variant, flags.text,
      match base with
      | some name => Text.quote name
      | none => "None"]
  | .layer variant flags inner => Text.tupled [Text.quote variant, flags.text, inner.text]

end NativeBridge
