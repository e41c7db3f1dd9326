import NativeBridge.Idl.Fault
import NativeBridge.Plan.Marshaling
import NativeBridge.Typing.Scope

/-!
# Why declarations are refused

A refusal has a cause, and a place when it arose at the type of one member. The cause is malformed
text, a type that cannot be supported where it stands, or declarations that contradict each other.
-/
namespace NativeBridge

inductive FieldFault where
  | interface (name : String)
  | nested (name : String)
  | string
  | nonScalar (found : Option Descriptor)
  | wideInteger
  deriving DecidableEq, Repr

def FieldFault.message : FieldFault → String
  | .interface name => s!"holds interface {name}"
  | .nested name => s!"nests value type {name}"
  | .string => "is string-valued"
  | .nonScalar found => s!"has non-scalar type {describeType found}"
  | .wideInteger => "is a 64-bit integer"

inductive TypeFault where
  | unresolvable (cause : Unresolvable)
  | unmarshalable (cause : Unmarshalable)
  | field (valueType name : String) (cause : FieldFault)
  deriving DecidableEq, Repr

def TypeFault.message : TypeFault → String
  | .unresolvable cause => cause.message
  | .unmarshalable cause => cause.message
  | .field valueType name cause => s!"value type field {valueType}.{name} {cause.message}"

inductive DeclarationKind where
  | interface
  | valueType
  | callback
  | typedef
  deriving DecidableEq, Repr

def DeclarationKind.word : DeclarationKind → String
  | .interface => "interface"
  | .valueType => "value type"
  | .callback => "callback"
  | .typedef => "typedef"

/-- A member that takes arguments. -/
inductive Callable where
  | constructor (owner : String)
  | operation (owner name : String)
  deriving DecidableEq, Repr

def Callable.text : Callable → String
  | .constructor owner => owner ++ ".constructor"
  | .operation owner name => owner ++ "." ++ name

inductive Invalid where
  | operationInValueType (valueType operation : String)
  | clash (kind : DeclarationKind) (name : String) (earlier : DeclarationKind)
  | interfaceCycle (name : String)
  | extendsValueType (name parent : String)
  | unknownParent (name parent : String)
  | ownershipMismatch (name : String) (own : Ownership) (parent : String) (parents : Ownership)
  | valueTypeParent (name parent : String)
  | valueTypeCycle (parent : String)
  | readOnlyField (valueType field : String)
  | staticField (valueType field : String)
  | shadowedField (owner field derived : String)
  | sameArity (callable : Callable) (arity : Nat)
  | attributeAndOperation (callable : Callable)
  | staticness (callable : Callable)
  | returnTypes (callable : Callable) (first second : Option Descriptor)
  | attributeTwice (owner name : String)
  deriving DecidableEq, Repr

def Invalid.message : Invalid → String
  | .operationInValueType valueType operation =>
    s!"value type {valueType} declares operation '{operation}'"
  | .clash kind name earlier => s!"{kind.word} {name} clashes with {earlier.word} {name}"
  | .interfaceCycle name => s!"interface inheritance cycle through {name}"
  | .extendsValueType name parent => s!"interface {name} cannot extend value type {parent}"
  | .unknownParent name parent => s!"interface {name} extends unknown interface '{parent}'"
  | .ownershipMismatch name own parent parents =>
    s!"interface {name} ({own.word} ownership) cannot extend {parent} ({parents.word} ownership)"
  | .valueTypeParent name parent =>
    s!"value type {name} extends '{parent}', which is not a value type"
  | .valueTypeCycle parent => s!"value type inheritance cycle through {parent}"
  | .readOnlyField valueType field => s!"value type field {valueType}.{field} is read-only"
  | .staticField valueType field => s!"value type field {valueType}.{field} is static"
  | .shadowedField owner field derived =>
    s!"value type field {owner}.{field} is shadowed by {derived}"
  | .sameArity callable arity =>
    s!"{callable.text} has more than one overload taking {arity} argument(s); " ++
      "overloads are dispatched by argument count"
  | .attributeAndOperation callable =>
    s!"{callable.text} is declared as both an attribute and an operation"
  | .staticness callable =>
    s!"Method {callable.text} has same name as a static method, can't handle this"
  | .returnTypes callable first second =>
    s!"Method {callable.text} overload differs in return type " ++
      s!"({describeType first} vs {describeType second})"
  | .attributeTwice owner name => s!"attribute {owner}.{name} is declared twice"

inductive Cause where
  | malformed (cause : Idl.Malformed)
  | unsupported (cause : TypeFault)
  | invalid (cause : Invalid)
  deriving DecidableEq, Repr

def Cause.message : Cause → String
  | .malformed cause => cause.message
  | .unsupported cause => cause.message
  | .invalid cause => cause.message

/-- A member whose type is being looked at. -/
inductive Place where
  | member (owner name : String)
  | argument (callable : Callable) (name : String)
  | callbackArgument (callback name : String)
  | callbackResult (callback : String)
  | named (text : String)
  deriving DecidableEq, Repr

def Place.text : Place → String
  | .member owner name => owner ++ "." ++ name
  | .argument callable name => callable.text ++ "(" ++ name ++ ")"
  | .callbackArgument callback name => "callback " ++ callback ++ "(" ++ name ++ ")"
  | .callbackResult callback => "callback " ++ callback
  | .named text => text

/-- How planning or emission can end without a result: the declarations are refused, a name is asked
for that nothing declares or plans, or a read-only attribute of type `void` is to be emitted. -/
inductive Failure where
  | refused (cause : Cause) (place : Option Place)
  | missing (name : String)
  | voidAttribute (owner name : String)
  deriving DecidableEq, Repr

namespace Failure

def message : Failure → String
  | refused cause none => cause.message
  | refused cause (some place) => place.text ++ ": " ++ cause.message
  | missing name => s!"nothing is planned under the name {name}"
  | voidAttribute owner name => s!"attribute {owner}.{name} has no value to read"

def isRefusal : Failure → Bool
  | refused .. => true
  | missing _ | voidAttribute .. => false

/-- Names the place of a refusal that has none yet. -/
def located (place : Place) : Failure → Failure
  | refused cause none => refused cause (some place)
  | failure => failure

def unresolvable (cause : Unresolvable) : Failure :=
  refused (.unsupported (.unresolvable cause)) none

def unmarshalable (cause : Unmarshalable) : Failure :=
  refused (.unsupported (.unmarshalable cause)) none

def invalid (cause : Invalid) : Failure := refused (.invalid cause) none

def ofIdl : Idl.Fault → Failure
  | .malformed cause => refused (.malformed cause) none
  | .operationInValueType valueType operation =>
    invalid (.operationInValueType valueType operation)

end Failure

end NativeBridge
