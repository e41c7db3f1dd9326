import NativeBridge.Typing.Descriptor

/-!
# Marshaling

One way for a value to cross between script and native code. A marshaling knows the native types of
a parameter and of a result, the script expressions around a call, and the reverse direction, in
which native code calls a script function. Directions that a variant does not have are errors.
-/
namespace NativeBridge

inductive Variant where
  | scalar
  | string
  | sequence
  | interface
  | sharedInterface
  | valueType
  | callback
  deriving DecidableEq, Repr

def Variant.word : Variant → String
  | .scalar => "scalar"
  | .string => "string"
  | .sequence => "sequence"
  | .interface => "interface"
  | .sharedInterface => "shared interface"
  | .valueType => "value type"
  | .callback => "callback"

inductive Unmarshalable where
  | void
  | voidArgument
  | nullableScalar (kind : ScalarKind)
  | noStagingView (element : ScalarKind)
  | nullableIndirect (name : String)
  | nullableValueType (name : String)
  | notReturned (base : Base)
  | notCallbackArgument (base : Base)
  | notCallbackResult (variant : Variant)
  deriving DecidableEq, Repr

def Unmarshalable.message : Unmarshalable → String
  | .void => "no marshaling for void"
  | .voidArgument => "void is only valid as a return type"
  | .nullableScalar kind => s!"scalar type {kind.idlName} cannot be nullable"
  | .noStagingView element =>
    s!"{(Base.sequence element).describe} has no staging view for 64-bit elements"
  | .nullableIndirect name => s!"{name} passed by reference or value cannot be nullable"
  | .nullableValueType name => s!"value type {name} cannot be nullable"
  | .notReturned base => s!"{base.describe} is not supported as a return value"
  | .notCallbackArgument base => s!"{base.describe} is not supported as a callback argument"
  | .notCallbackResult variant => s!"{variant.word} is not supported as a callback result"

inductive Marshaling where
  | scalar (kind : ScalarKind) (flags : Flags)
  | string (flags : Flags) (nullable : Bool)
  | sequence (element : ScalarKind) (helper : String) (flags : Flags) (nullable : Bool)
  | interface (name cpp : String) (flags : Flags) (nullable : Bool)
  | sharedInterface (name cpp : String) (flags : Flags) (nullable : Bool)
  | valueType (name cpp slot : String) (flags : Flags)
  | callback (name : String) (flags : Flags) (nullable : Bool)
  deriving DecidableEq, Repr

/-- The script object that maps the functions of one callback type to tokens. -/
def registryName (callback : String) : String := callback ++ "___REGISTRY"

def sharedCell (cpp : String) : String := "std::shared_ptr<" ++ cpp ++ ">"

namespace Flags

def const (f : Flags) : String := if f.isConst then "const " else ""

/-- Passed by reference or by value, so not as a pointer. -/
def indirect (f : Flags) : Bool := f.byRef || f.byValue

end Flags

namespace Marshaling

def variant : Marshaling → Variant
  | scalar .. => .scalar
  | string .. => .string
  | sequence .. => .sequence
  | interface .. => .interface
  | sharedInterface .. => .sharedInterface
  | valueType .. => .valueType
  | callback .. => .callback

def base : Marshaling → Base
  | scalar kind _ => .scalar kind
  | string .. => .string
  | sequence element .. => .sequence element
  | interface name .. => .interface name
  | sharedInterface name .. => .interface name
  | valueType name .. => .valueType name
  | callback name .. => .callback name

def flags : Marshaling → Flags
  | scalar _ f | string f _ | sequence _ _ f _ | interface _ _ f _ | sharedInterface _ _ f _
  | valueType _ _ _ f | callback _ f _ => f

def nullable : Marshaling → Bool
  | scalar .. | valueType .. => false
  | string _ n | sequence _ _ _ n | interface _ _ _ n | sharedInterface _ _ _ n
  | callback _ _ n => n

/-- Whether the statement before a call writes into the staging buffer. -/
def stages : Marshaling → Bool
  | string .. | sequence .. | valueType .. => true
  | scalar .. | interface .. | sharedInterface .. | callback .. => false

/-! ## Script to native arguments -/

/-- The native type of an entry point parameter. -/
def paramType : Marshaling → String
  | scalar kind _ => kind.cppType
  | string .. => "const char*"
  | sequence element _ f _ => f.const ++ element.cppType ++ "*"
  | interface _ cpp f _ => f.const ++ cpp ++ "*"
  | sharedInterface _ cpp _ _ => sharedCell cpp ++ "*"
  | valueType _ cpp _ _ => cpp ++ "*"
  | callback .. => "int"

/-- The script statement that converts a variable before the call. -/
def conversion (var : String) : Marshaling → Option String
  | scalar .. => none
  | string .. => some s!"{var} = ensureString({var});"
  | sequence _ helper _ _ => some s!"{var} = {helper}({var});"
  | interface _ _ _ nullable | sharedInterface _ _ _ nullable =>
    if nullable then some s!"{var} = {var} ? {var}.ptr : 0;" else some s!"{var} = {var}.ptr;"
  | valueType name _ _ _ => some s!"{var} = {name}.__toNative({var});"
  | callback name _ nullable =>
    if nullable then some s!"{var} = {var} ? {registryName name}.tokenFor({var}) : 0;"
    else some s!"{var} = {registryName name}.tokenFor({var});"

/-! ## Native to script results -/

def returnType (m : Marshaling) : Except Unmarshalable String :=
  match m with
  | scalar kind _ => .ok kind.cppType
  | string .. => .ok "const char*"
  | interface _ cpp f _ => .ok (f.const ++ cpp ++ "*")
  | sharedInterface _ cpp _ _ => .ok (sharedCell cpp ++ "*")
  | valueType _ cpp _ _ => .ok (cpp ++ "*")
  | sequence .. | callback .. => .error (.notReturned m.base)

/-- The native statements that return the value of a call. -/
def returnStatements (call : String) : Marshaling → List String
  | string { byValue := true, .. } _ =>
    ["static std::string temp;", s!"temp = {call};", "return temp.c_str();"]
  | interface _ cpp f _ =>
    if f.byValue then [s!"static {cpp} temp;", s!"temp = {call};", "return &temp;"]
    else if f.byRef then [s!"return &{call};"]
    else [s!"return {call};"]
  | sharedInterface _ cpp _ _ =>
    [s!"{sharedCell cpp} result = {call};",
     s!"return result ? new {sharedCell cpp}(std::move(result)) : nullptr;"]
  | valueType _ _ slot _ => [s!"{slot} = {call};", s!"return &{slot};"]
  | scalar .. | string .. | sequence .. | callback .. => [s!"return {call};"]

/-- The script expression for the result of a call. -/
def scriptResult (var : String) : Marshaling → String
  | scalar .boolean _ => s!"!!({var})"
  | string _ nullable =>
    if nullable then s!"({var} ? UTF8ToString({var}) : null)" else s!"UTF8ToString({var})"
  | interface name _ f nullable =>
    -- a result by value lives in a reused temporary and must not alias a cached wrapper
    let wrapped := name ++ (if f.byValue then ".__wrapNoCache(" else ".__wrap(") ++ var ++ ")"
    if nullable then s!"({var} ? {wrapped} : null)" else wrapped
  | sharedInterface name _ _ _ => s!"({var} ? {name}.__wrap({var}) : null)"
  | valueType name _ _ _ => s!"{name}.__fromNative({var})"
  | scalar .. | sequence .. | callback .. => var

/-! ## Native to script callback arguments -/

/-- The parameter type of the callable handed to native code. -/
def callableParam (m : Marshaling) : Except Unmarshalable String :=
  match m with
  | scalar kind _ => .ok kind.cppType
  | string .. => .ok "const char*"
  | interface _ cpp f _ => .ok (f.const ++ cpp ++ if f.indirect then "&" else "*")
  | sharedInterface _ cpp _ _ => .ok (sharedCell cpp ++ "*")
  | valueType _ cpp _ _ => .ok ("const " ++ cpp ++ "&")
  | sequence .. | callback .. => .error (.notCallbackArgument m.base)

/-- What the callable passes on for one of its parameters. -/
def forwarded (var : String) : Marshaling → String
  | interface _ cpp f _ => if f.indirect then s!"const_cast<{cpp}*>(&{var})" else var
  | valueType _ cpp _ _ => s!"const_cast<{cpp}*>(&{var})"
  | scalar .. | string .. | sequence .. | sharedInterface .. | callback .. => var

/-- The script expression handed to a script function. -/
def scriptArgument (var : String) (m : Marshaling) : String :=
  match m with
  | interface name _ _ _ => s!"({var} ? {name}.__wrap({var}) : null)"
  | scalar .. | string .. | sharedInterface .. | valueType .. => m.scriptResult var
  | sequence .. | callback .. => var

/-! ## Script to native callback results -/

/-- The script expression for the result of a script function. -/
def nativeResult (var : String) : Marshaling → String
  | scalar .boolean _ => s!"(({var}) ? 1 : 0)"
  | interface .. | sharedInterface .. => s!"({var} ? {var}.ptr : 0)"
  | scalar .. | string .. | sequence .. | valueType .. | callback .. => var

/-- What the callable returns for the result of a script function. -/
def callableResult (var : String) : Marshaling → String
  | sharedInterface _ cpp _ _ => s!"({var} ? *{var} : {sharedCell cpp}())"
  | scalar .. | string .. | sequence .. | interface .. | valueType .. | callback .. => var

end Marshaling

end NativeBridge
