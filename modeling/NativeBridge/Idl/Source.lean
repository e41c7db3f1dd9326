import NativeBridge.Idl.Attributes
import NativeBridge.Text.Comment

/-!
# Declaration text

A source text is a sequence of statements, each ended by a semicolon outside brackets. A statement
is a typedef, a callback or an interface behind its extended attributes. An interface marked as a
value type declares a record and may hold attributes only.
-/
namespace NativeBridge.Idl

open Text

inductive Member where
  | attribute (decl : Attribute)
  | operation (decl : Operation)
  deriving DecidableEq, Repr

/-- `static? readonly? attribute type name`. -/
def attributeShape (body : List Char) : Option (Bool × Bool × List Char × List Char) :=
  optionalKeyword "static"
    (optionalKeyword "readonly" (afterKeyword "attribute" (shortest blankWord))) body

/-- An argument list in parentheses, to the end of the text. -/
def parenthesised (s : List Char) : Option (List Char) :=
  (expect '(' (trimLeft s)).bind (endingWith ')')

/-- Blanks, a name and an argument list in parentheses, to the end of the text. -/
def nameAndArguments (s : List Char) : Option (List Char × List Char) :=
  match s with
  | [] => none
  | c :: _ =>
    if isBlank c then do
      let (name, rest) ← readWord (trimLeft s)
      return (name, ← parenthesised rest)
    else none

/-- `static? type name(arguments)`. -/
def operationShape (body : List Char) :
    Option (Bool × List Char × List Char × List Char) :=
  optionalKeyword "static" (shortest nameAndArguments) body

def readMember (text : List Char) : Except Malformed Member := do
  let (attrs, body) ← takeAttrs text
  match attributeShape body with
  | some (isStatic, readOnly, type, name) =>
    return .attribute { name := String.ofList name, type := ← TypeExpr.parse type,
                        flags := flagsOf attrs, isStatic, readOnly }
  | none =>
    match operationShape body with
    | some (isStatic, returnType, name, arguments) =>
      return .operation { name := String.ofList name, returnType := ← TypeExpr.parse returnType,
                          arguments := ← readArguments arguments, flags := flagsOf attrs, isStatic,
                          cppName := attrValue attrs "CppName" }
    | none => .error (.member (String.ofList body))

/-- `typedef type name`. -/
def typedefShape (body : List Char) : Option (List Char × List Char) :=
  afterKeyword "typedef" (shortest blankWord) body

def readTypedef (body : List Char) : Except Malformed Typedef :=
  match typedefShape body with
  | some (type, name) => do
    return { name := String.ofList name, type := ← TypeExpr.parse type }
  | none => .error (.typedef (String.ofList body))

/-- `callback name = type (arguments)`. -/
def callbackShape (body : List Char) : Option (List Char × List Char × List Char) :=
  afterKeyword "callback" (fun s => do
    let (name, rest) ← readWord s
    let rest ← expect '=' (trimLeft rest)
    return (name, ← afterAnyBlanks (shortest parenthesised) rest)) body

def readCallback (body : List Char) : Except Malformed Callback :=
  match callbackShape body with
  | some (name, returnType, arguments) => do
    return { name := String.ofList name, returnType := ← TypeExpr.parse returnType,
             arguments := ← readArguments arguments }
  | none => .error (.callback (String.ofList body))

/-- A parent behind a colon, which may be missing, and the rest without leading blanks. -/
def readParent (s : List Char) : Option (Option (List Char) × List Char) :=
  match expect ':' (trimLeft s) with
  | none => some (none, trimLeft s)
  | some rest => do
    let (parent, rest) ← readWord (trimLeft rest)
    return (some parent, trimLeft rest)

/-- The name, the parent and the text of the members: `interface name : parent { members }`. -/
def interfaceShape (body : List Char) :
    Option (List Char × Option (List Char) × List Char) :=
  afterKeyword "interface" (fun s => do
    let (name, rest) ← readWord s
    let (parent, rest) ← readParent rest
    let members ← (expect '{' rest).bind (endingWith '}')
    return (name, parent, members)) body

def liftMalformed {α : Type} (x : Except Malformed α) : Except Fault α := x.mapError .malformed

/-- The statements of a text that are not blank. -/
def statements (text : List Char) : Except Malformed (List (List Char)) := do
  return (← splitText [';'] text).filter (trim · ≠ [])

def readField (valueType : String) (text : List Char) : Except Fault Attribute := do
  match ← liftMalformed (readMember text) with
  | .attribute field => return field
  | .operation op => .error (.operationInValueType valueType op.name)

/-- The argument lists of the `Constructor` attributes; without a list there are no arguments. -/
def constructorLists (attrs : List ExtAttr) : List (List Argument) :=
  (attrs.filter (·.name = "Constructor")).map fun a => a.arguments?.getD []

def attributesOf (members : List Member) : List Attribute :=
  members.filterMap fun
    | .attribute a => some a
    | .operation _ => none

def operationsOf (members : List Member) : List Operation :=
  members.filterMap fun
    | .attribute _ => none
    | .operation o => some o

def readInterface (attrs : List ExtAttr) (body : List Char) : Except Fault Declaration :=
  match interfaceShape body with
  | none => .error (.malformed (.interface (excerpt body)))
  | some (name, parent, members) => do
    let name := String.ofList name
    let parent := parent.map String.ofList
    let texts ← liftMalformed (statements members)
    if hasAttr attrs "ValueType" then
      let fields ← texts.mapM (readField name)
      return .valueType { name, parent, fields, cppName := attrValue attrs "CppName" }
    else
      let members ← liftMalformed (texts.mapM readMember)
      return .interface
        { name, parent, ownership := if hasAttr attrs "Shared" then .shared else .raw,
          cppName := attrValue attrs "CppName", constructors := constructorLists attrs,
          operations := operationsOf members, attributes := attributesOf members,
          nonDestructible := hasAttr attrs "NoDestroy" }

def readDeclaration (statement : List Char) : Except Fault Declaration := do
  let (attrs, body) ← liftMalformed (takeAttrs statement)
  if "typedef".toList.isPrefixOf body then return .typedef (← liftMalformed (readTypedef body))
  else if "callback".toList.isPrefixOf body then
    return .callback (← liftMalformed (readCallback body))
  else if "interface".toList.isPrefixOf body then readInterface attrs body
  else .error (.malformed (.declaration (excerpt body)))

/-- All declarations of a source text. -/
def parse (source : String) : Except Fault Declarations := do
  let texts ← liftMalformed (statements (stripComments source.toList))
  return .ofList (← texts.mapM readDeclaration)

end NativeBridge.Idl
