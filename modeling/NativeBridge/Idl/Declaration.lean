import NativeBridge.Idl.TypeExpr

/-!
# Declarations

The declarations that bindings are generated from: interfaces, value types, callbacks and typedefs.
They refer to each other by name only.
-/
namespace NativeBridge

/-- Modifiers of a use of a type: passed by reference, by value, or read-only. -/
structure Flags where
  byRef : Bool := false
  byValue : Bool := false
  isConst : Bool := false
  deriving DecidableEq, Repr, Inhabited

/-- Whether an instance crosses as a bare pointer or as a counted reference. -/
inductive Ownership where
  | raw
  | shared
  deriving DecidableEq, Repr

def Ownership.word : Ownership → String
  | .raw => "raw"
  | .shared => "shared"

structure Argument where
  name : String
  type : TypeExpr
  optional : Bool := false
  flags : Flags := {}
  deriving DecidableEq, Repr

/-- An alias counts only when it is not empty. -/
def aliased (name : String) (nativeAlias : Option String) : String :=
  match nativeAlias with
  | some other => if other = "" then name else other
  | none => name

structure Operation where
  name : String
  returnType : TypeExpr
  arguments : List Argument := []
  flags : Flags := {}
  isStatic : Bool := false
  cppName : Option String := none
  deriving DecidableEq, Repr

def Operation.nativeName (o : Operation) : String := aliased o.name o.cppName

structure Attribute where
  name : String
  type : TypeExpr
  flags : Flags := {}
  isStatic : Bool := false
  readOnly : Bool := false
  deriving DecidableEq, Repr

structure Interface where
  name : String
  parent : Option String := none
  ownership : Ownership := .raw
  cppName : Option String := none
  constructors : List (List Argument) := []
  operations : List Operation := []
  attributes : List Attribute := []
  nonDestructible : Bool := false
  deriving DecidableEq, Repr

def Interface.nativeName (i : Interface) : String := aliased i.name i.cppName

/-- A plain record, copied field by field across the boundary. -/
structure ValueType where
  name : String
  parent : Option String := none
  fields : List Attribute := []
  cppName : Option String := none
  deriving DecidableEq, Repr

def ValueType.nativeName (v : ValueType) : String := aliased v.name v.cppName

structure Callback where
  name : String
  returnType : TypeExpr
  arguments : List Argument := []
  deriving DecidableEq, Repr

structure Typedef where
  name : String
  type : TypeExpr
  deriving DecidableEq, Repr

/-- All declarations of one input, each kind in the order of declaration. -/
structure Declarations where
  interfaces : List Interface := []
  valueTypes : List ValueType := []
  callbacks : List Callback := []
  typedefs : List Typedef := []
  deriving DecidableEq, Repr

inductive Declaration where
  | interface (decl : Interface)
  | valueType (decl : ValueType)
  | callback (decl : Callback)
  | typedef (decl : Typedef)
  deriving DecidableEq, Repr

def Declarations.add (ds : Declarations) : Declaration → Declarations
  | .interface i => { ds with interfaces := ds.interfaces ++ [i] }
  | .valueType v => { ds with valueTypes := ds.valueTypes ++ [v] }
  | .callback c => { ds with callbacks := ds.callbacks ++ [c] }
  | .typedef t => { ds with typedefs := ds.typedefs ++ [t] }

def Declarations.ofList (ds : List Declaration) : Declarations := ds.foldl Declarations.add {}

end NativeBridge
