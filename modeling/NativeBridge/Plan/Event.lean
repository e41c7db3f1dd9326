import NativeBridge.Typing.Descriptor

/-!
# Events of a run

What a run reports while it works, and how a report is worded.
-/
namespace NativeBridge

inductive Event where
  | resolved (type : TypeExpr) (result : Option Descriptor)
  | constructors (owner : String) (arities : List Nat)
  | operations (owner name : String) (arities : List Nat)
  | layout (valueType : String) (sizeSlot : Nat) (fields : List (String × Nat))
  | callback (name shim : String)
  | planned (interfaces valueTypes callbacks slots : Nat)
  | wrote (path : String)
  | rollingBack (paths : List String)
  deriving DecidableEq

namespace Event

def source : Event → String
  | resolved .. => "idlbind.type_resolver"
  | constructors .. => "idlbind.overloads"
  | operations .. => "idlbind.overloads"
  | layout .. => "idlbind.layout"
  | callback .. => "idlbind.callback_generator"
  | planned .. => "idlbind.session"
  | wrote .. => "idlbind.generator"
  | rollingBack .. => "idlbind.generator"

def numbers (ns : List Nat) : String := Text.bracketed (ns.map Nat.repr)

def message : Event → String
  | resolved type result => s!"resolved {type.text} -> {(typeKey result).text}"
  | constructors owner arities => s!"{owner}: constructor arities {numbers arities}"
  | operations owner name arities => s!"{owner}.{name}: arities {numbers arities}"
  | layout valueType sizeSlot fields =>
    let slots := fields.map fun (name, slot) => Text.tupled [Text.quote name, slot.repr]
    s!"{valueType}: size slot {sizeSlot}, field slots {Text.bracketed slots}"
  | callback name shim => s!"callback {name}: shim {shim}"
  | planned interfaces valueTypes callbacks slots =>
    s!"planned {interfaces} interfaces, {valueTypes} value types, {callbacks} callbacks, " ++
      s!"{slots} layout slots"
  | wrote path => s!"wrote {path}"
  | rollingBack paths => s!"rolling back {Text.bracketed (paths.map Text.quote)}"

def text (e : Event) : String := e.source ++ ": " ++ e.message

end Event

end NativeBridge
