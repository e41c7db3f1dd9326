import NativeBridge.Emit.Native

/-!
# Script classes

The script side of an interface is a class whose members call native entry points. Each call stands
at the end of a sequence: the staging buffer is made ready if an argument needs it, then the
arguments are converted in order, then the entry point is called.
-/
namespace NativeBridge

structure NativeCall where
  entry : String
  receiver : Option String := none
  arguments : List String := []
  deriving DecidableEq, Repr

/-- What a call passes, the receiver first. -/
def NativeCall.passed (c : NativeCall) : List String := c.receiver.toList ++ c.arguments

def NativeCall.text (c : NativeCall) : String := s!"_{c.entry}({commaSeparated c.passed})"

/-- What a call is prepared by, and the text on both sides of it that makes it a statement. -/
structure CallSequence where
  prepares : Bool := false
  conversions : List String := []
  before : String := ""
  call : NativeCall
  after : String := ";"
  deriving DecidableEq, Repr

/-- The statement that makes the staging buffer ready. -/
def prepareStatement : String := "ensureCache.prepare();"

namespace CallSequence

/-- The statements that stand before a call. -/
def lead (c : CallSequence) : List String :=
  (if c.prepares then [prepareStatement] else []) ++ c.conversions

/-- The statement that a call is part of. -/
def statement (c : CallSequence) : String := c.before ++ c.call.text ++ c.after

def lines (c : CallSequence) : List String := c.lead ++ [c.statement]

theorem statement_eq (c : CallSequence) :
    c.statement = c.before ++ "_" ++ c.call.entry ++ "(" ++ ", ".intercalate c.call.passed ++ ")" ++
      c.after := by
  simp [statement, NativeCall.text, toString, commaSeparated, ← String.toList_inj]

/-- A statement starts with what stands before its call, or with the call. -/
theorem head?_statement (c : CallSequence) :
    c.statement.toList.head? = some (c.before.toList.head?.getD '_') := by
  simp [statement_eq]

end CallSequence

/-- Script text is made of plain lines and of indented call sequences. -/
inductive ScriptPart where
  | line (text : String)
  | calls (pad : String) (body : CallSequence)
  deriving DecidableEq, Repr

namespace ScriptPart

def lines : ScriptPart → List String
  | line text => [text]
  | calls pad body => indent pad body.lines

def sequence? : ScriptPart → Option CallSequence
  | line _ => none
  | calls _ body => some body

end ScriptPart

/-- The statements that convert arguments of some marshalings, in their order. -/
def conversions (ms : List Marshaling) : List String :=
  ms.zipIdx.filterMap fun (m, i) => m.conversion (argumentName i)

/-- One way through a dispatch: taken when the guarding argument is undefined, or otherwise. -/
structure Branch where
  guard : Option Nat
  body : CallSequence
  deriving DecidableEq, Repr

def branchHead (first : Bool) : Option Nat → String
  | none => "    \x7d else \x7b"
  | some guard =>
    if first then s!"    if ({argumentName guard} === undefined) \x7b"
    else s!"    \x7d else if ({argumentName guard} === undefined) \x7b"

/-- A single branch is a bare call; several are one conditional. -/
def dispatchParts : List Branch → List ScriptPart
  | [branch] => [.calls "    " branch.body]
  | branches =>
    (branches.zipIdx.flatMap fun (b, i) =>
      [.line (branchHead (i = 0) b.guard), .calls "      " b.body]) ++ [.line "    \x7d"]

inductive ScriptMember where
  | construct (owner : String) (parameters : Nat) (branches : List Branch)
  | method (name : String) (isStatic : Bool) (parameters : Nat) (branches : List Branch)
      (result : Option String)
  | getter (name : String) (isStatic : Bool) (body : CallSequence) (result : String)
  | setter (name : String) (isStatic : Bool) (body : CallSequence)
  | destroy (owner : String) (body : CallSequence)
  | refuseDestroy (owner : String)
  deriving DecidableEq, Repr

def cacheName (interface : String) : String := interface ++ "___CACHE"

def staticWord (isStatic : Bool) : String := if isStatic then "static " else ""

namespace ScriptMember

def parameterList (count : Nat) : String := commaSeparated (argumentNames count)

def parts : ScriptMember → List ScriptPart
  | construct owner parameters branches =>
    [.line s!"  constructor({parameterList parameters}) \x7b"] ++
      (if branches = [] then
        [.line s!"    throw new Error(\"No constructor defined for {owner}\");"]
      else
        [.line "    let ret, obj = Object.create(new.target.prototype);"] ++
          dispatchParts branches ++
          [.line "    obj.ptr = ret;", .line s!"    {owner}.__setCache(obj);",
           .line "    return obj;"]) ++
      [.line "  \x7d", .line ""]
  | method name isStatic parameters branches result =>
    [.line s!"  {staticWord isStatic}{name}({parameterList parameters}) \x7b"] ++
      (if isStatic then [] else [.line "    let self = this.ptr;"]) ++
      (if result.isSome then [.line "    let ret;"] else []) ++ dispatchParts branches ++
      (result.map fun value => .line s!"    return {value};").toList ++ [.line "  \x7d", .line ""]
  | getter name isStatic body result =>
    [.line s!"  {staticWord isStatic}get {name}() \x7b", .calls "    " body,
     .line s!"    return {result};", .line "  \x7d", .line ""]
  | setter name isStatic body =>
    [.line s!"  {staticWord isStatic}set {name}({argumentName 0}) \x7b", .calls "    " body,
     .line "  \x7d", .line ""]
  | destroy owner body =>
    [.line "", .line "  destroy() \x7b", .calls "    " body,
     .line s!"    delete {cacheName owner}[this.ptr];", .line "    delete this.ptr;",
     .line "  \x7d"]
  | refuseDestroy owner =>
    [.line "", .line "  destroy() \x7b",
     .line s!"    throw new Error(\"{owner} cannot be destroyed\");", .line "  \x7d"]

end ScriptMember

/-- A class with its identity cache. Members come before the wrapping helpers, a `destroy` method
after them. -/
structure ScriptClass where
  name : String
  parent : Option String
  members : List ScriptMember
  ending : Option ScriptMember
  deriving DecidableEq, Repr

/-- An empty parent name extends nothing. -/
def extendsClause (parent : Option String) : String :=
  match parent with
  | none => ""
  | some p => if p = "" then "" else s!" extends {p}"

theorem extendsClause_some {name : String} (named : name ≠ "") :
    extendsClause (some name) = " extends " ++ name := (if_neg named).trans rfl

theorem extendsClause_eq_empty_iff {parent : Option String} :
    extendsClause parent = "" ↔ ∀ name, parent = some name → name = "" := by
  cases parent with
  | none => simp [extendsClause]
  | some p =>
    by_cases none : p = ""
    · simp [extendsClause, none]
    · simp [extendsClause_some none, none]

theorem extendsClause_eq_iff {parent : Option String} {name : String} :
    extendsClause parent = " extends " ++ name ↔ parent = some name ∧ name ≠ "" := by
  constructor
  · intro same
    have clause : extendsClause parent ≠ "" := by simp [same]
    simp only [ne_eq, extendsClause_eq_empty_iff, Classical.not_forall] at clause
    obtain ⟨p, rfl, named⟩ := clause
    rw [extendsClause_some named, String.append_right_inj] at same
    exact ⟨congrArg some same, same ▸ named⟩
  · rintro ⟨rfl, named⟩
    exact extendsClause_some named

def wrapLines (name : String) : List String :=
  let cache := cacheName name
  ["  static __setCache(obj) \x7b",
   s!"    {cache}[obj.ptr] = obj;",
   "  \x7d",
   "",
   "  static __wrap(ptr) \x7b",
   s!"    let obj = {cache}[ptr];",
   "    if (!obj) \x7b",
   s!"      obj = Object.create({name}.prototype);",
   "      obj.ptr = ptr;",
   s!"      {cache}[ptr] = obj;",
   "    \x7d",
   "    return obj;",
   "  \x7d",
   "",
   "  static __wrapNoCache(ptr) \x7b",
   s!"    let obj = Object.create({name}.prototype);",
   "    obj.ptr = ptr;",
   "    return obj;",
   "  \x7d"]

def ScriptClass.parts (c : ScriptClass) : List ScriptPart :=
  [.line s!"var {cacheName c.name} = \x7b\x7d;",
   .line s!"class {c.name}{extendsClause c.parent} \x7b"] ++
    c.members.flatMap ScriptMember.parts ++ (wrapLines c.name).map .line ++
    c.ending.toList.flatMap ScriptMember.parts ++ [.line "\x7d", .line ""]

def Overload.marshalings (o : Overload) : List Marshaling := o.arguments.map (·.marshaling)

namespace Session

variable (s : Session)

def callSequence (owner member : String) (receiver : Option String) (assigns : Bool)
    (o : Overload) : CallSequence where
  prepares := o.stages
  conversions := o.arguments.zipIdx.filterMap fun (a, i) => a.marshaling.conversion (argumentName i)
  before := if assigns then "ret = " else ""
  call := { entry := s.mangle owner member o.arity, receiver, arguments := argumentNames o.arity }

/-- A call is led by what the marshalings of its arguments need. -/
theorem lead_callSequence (owner member : String) (receiver : Option String) (assigns : Bool)
    (o : Overload) : (s.callSequence owner member receiver assigns o).lead =
      (if o.marshalings.any Marshaling.stages then [prepareStatement] else []) ++
        conversions o.marshalings := by
  simp [CallSequence.lead, callSequence, conversions, Overload.stages, Overload.marshalings,
    Function.comp_def, List.zipIdx_map, List.filterMap_map]

/-- The call of an overload as it is written. -/
theorem lines_callSequence (owner member : String) (receiver : Option String) (assigns : Bool)
    (o : Overload) : (s.callSequence owner member receiver assigns o).lines =
      (s.callSequence owner member receiver assigns o).lead ++
        [(if assigns then "ret = " else "") ++ "_" ++ s.mangle owner member o.arity ++ "(" ++
          ", ".intercalate (receiver.toList ++ argumentNames o.arity) ++ ");"] := by
  rw [CallSequence.lines, CallSequence.statement_eq]
  simp [callSequence, NativeCall.passed, String.append_assoc]

def branches (owner member : String) (receiver : Option String) (assigns : Bool)
    (group : OverloadGroup) : List Branch :=
  group.dispatch.map fun (guard, o) =>
    { guard, body := s.callSequence owner member receiver assigns o }

def constructMember (plan : InterfacePlan) : ScriptMember :=
  let name := plan.interface.name
  .construct name plan.constructors.maxArity (s.branches name name none true plan.constructors)

def methodMember (i : Interface) (group : OverloadGroup) : ScriptMember :=
  let receiver := if group.isStatic then none else some "self"
  .method group.name group.isStatic group.maxArity
    (s.branches i.name group.name receiver group.returns.isSome group)
    (group.returns.map (·.scriptResult "ret"))

def accessReceiver (isStatic : Bool) : Option String := if isStatic then none else some "this.ptr"

def getterMember (i : Interface) (a : AttributePlan) : Except Failure ScriptMember :=
  match a.getter with
  | none => .error (.voidAttribute i.name a.decl.name)
  | some m =>
    let entry := s.mangle i.name (getterName a.decl.name) 0
    .ok (.getter a.decl.name a.decl.isStatic
      { before := "let ret = ", call := { entry, receiver := accessReceiver a.decl.isStatic } }
      (m.scriptResult "ret"))

def setterMember (i : Interface) (a : AttributePlan) (m : Marshaling) : ScriptMember :=
  .setter a.decl.name a.decl.isStatic
    { prepares := m.stages
      conversions := (m.conversion (argumentName 0)).toList
      call := { entry := s.mangle i.name (setterName a.decl.name) 1
                receiver := accessReceiver a.decl.isStatic
                arguments := argumentNames 1 } }

def attributeMembers (i : Interface) (a : AttributePlan) : Except Failure (List ScriptMember) := do
  return (← s.getterMember i a) :: (a.setter.map (s.setterMember i a)).toList

/-- An interface that cannot be destroyed hides the `destroy` it would inherit. -/
def destroyMember (plan : InterfacePlan) : Option ScriptMember :=
  let name := plan.interface.name
  if !plan.interface.nonDestructible then
    let call := { entry := s.mangle name destructorName 0, receiver := some "this.ptr" }
    some (.destroy name { call })
  else if plan.destroyableParent then some (.refuseDestroy name)
  else none

def scriptClass (plan : InterfacePlan) : Except Failure ScriptClass := do
  let i := plan.interface
  let attributes ← plan.attributes.mapM (s.attributeMembers i)
  return { name := i.name, parent := i.parent,
           members := s.constructMember plan :: plan.methods.map (s.methodMember i) ++
             attributes.flatten,
           ending := s.destroyMember plan }

def scriptInterface (plan : InterfacePlan) : Except Failure (List String) := do
  return (← s.scriptClass plan).parts.flatMap ScriptPart.lines

end Session

end NativeBridge
