import NativeBridge.Plan.CallbackPlan
import NativeBridge.Plan.Event
import NativeBridge.Plan.InterfacePlan
import NativeBridge.Plan.Layout
import NativeBridge.Typing.Resolve

/-!
# Sessions

A session is one set of declarations with pairwise distinct names, and the options of one run. What
planning has found out so far is its progress: it only grows, and a step that fails leaves behind
what it had found out.
-/
namespace NativeBridge

structure Options where
  moduleName : String := "Module"
  entryPrefix : String := "jsbind_"
  deriving DecidableEq, Repr

/-- The name of a native entry point. The arity never counts the receiver. -/
def Options.mangle (o : Options) (owner member : String) (arity : Int) : String :=
  s!"{o.entryPrefix}{owner}_{member}_{arity}"

/-- Kind and name of every declaration, interfaces first. -/
def Declarations.labels (ds : Declarations) : List (DeclarationKind × String) :=
  ds.interfaces.map (.interface, ·.name) ++ ds.valueTypes.map (.valueType, ·.name) ++
    ds.callbacks.map (.callback, ·.name) ++ ds.typedefs.map (.typedef, ·.name)

/-- The first name that was seen before. -/
def firstClash (seen : List (DeclarationKind × String)) :
    List (DeclarationKind × String) → Option Invalid
  | [] => none
  | (kind, name) :: rest =>
    match seen.find? (·.2 = name) with
    | some (earlier, _) => some (.clash kind name earlier)
    | none => firstClash ((kind, name) :: seen) rest

def Declarations.clash? (ds : Declarations) : Option Invalid := firstClash [] ds.labels

structure Session where
  declarations : Declarations
  options : Options
  distinct : declarations.clash? = none

namespace Session

def create (declarations : Declarations) (options : Options) : Except Failure Session :=
  match h : declarations.clash? with
  | some clash => .error (.invalid clash)
  | none => .ok ⟨declarations, options, h⟩

variable (s : Session)

def interface? (name : String) : Option Interface :=
  s.declarations.interfaces.find? (·.name = name)

def valueType? (name : String) : Option ValueType :=
  s.declarations.valueTypes.find? (·.name = name)

def callback? (name : String) : Option Callback :=
  s.declarations.callbacks.find? (·.name = name)

def scope : Scope where
  typedefs := s.declarations.typedefs
  interfaces := s.declarations.interfaces.map (·.name)
  valueTypes := s.declarations.valueTypes.map (·.name)
  callbacks := s.declarations.callbacks.map (·.name)

def mangle (owner member : String) (arity : Int) : String := s.options.mangle owner member arity

/-- The native variable that holds the last result of a value type. -/
def slotName (v : ValueType) : String := s!"{s.options.entryPrefix}slot_{v.name}"

end Session

structure Progress where
  memo : Memo := []
  marshalings : List (Descriptor × Marshaling) := []
  slots : List Slot := []
  layouts : List RecordLayout := []
  callbacks : List CallbackPlan := []
  plans : List InterfacePlan := []
  log : List Event := []

/-- A step of planning. Progress is kept when the step fails. -/
abbrev Planning := ExceptT Failure (StateM Progress)

namespace Planning

variable {α : Type}

def note (event : Event) : Planning Unit := modify fun p => { p with log := p.log ++ [event] }

def check (x : Except Failure α) : Planning α := ExceptT.mk (pure x)

/-- Refusals that arise within a step are about the given place, unless they name one already. -/
def within (place : Place) (step : Planning α) : Planning α := ExceptT.adapt (·.located place) step

end Planning

/-- A marshaling, where values of its type can come back from native code. -/
def Marshaling.returned (m : Marshaling) : Except Failure (Option Marshaling) :=
  match m.returnType with
  | .ok _ => .ok (some m)
  | .error cause => .error (.unmarshalable cause)

namespace Session

variable (s : Session)

def resolve (e : TypeExpr) (flags : Flags) : Planning (Option Descriptor) := do
  let p ← get
  let (result, memo) := s.scope.resolve e flags p.memo
  let found := (memo.drop p.memo.length).map fun r => Event.resolved r.type r.result
  set { p with memo, log := p.log ++ found }
  Planning.check (result.mapError .unresolvable)

/-- The marshaling of a type; flags written on a nullable type apply to what it wraps. -/
def classify : Option Descriptor → Except Failure Marshaling
  | none => .error (.unmarshalable .void)
  | some ⟨base, nullable, flags⟩ =>
    match base with
    | .scalar kind =>
      if nullable then .error (.unmarshalable (.nullableScalar kind)) else .ok (.scalar kind flags)
    | .string => .ok (.string flags nullable)
    | .sequence kind =>
      match kind.stagingHelper with
      | some helper => .ok (.sequence kind helper flags nullable)
      | none => .error (.unmarshalable (.noStagingView kind))
    | .interface name =>
      match s.interface? name with
      | none => .error (.missing name)
      | some i =>
        match i.ownership with
        | .shared => .ok (.sharedInterface name i.nativeName flags nullable)
        | .raw =>
          if nullable && flags.indirect then .error (.unmarshalable (.nullableIndirect name))
          else .ok (.interface name i.nativeName flags nullable)
    | .valueType name =>
      if nullable then .error (.unmarshalable (.nullableValueType name))
      else
        match s.valueType? name with
        | none => .error (.missing name)
        | some v => .ok (.valueType name v.nativeName (s.slotName v) flags)
    | .callback name => .ok (.callback name flags nullable)

/-- The marshaling of a type, looked up among those found before. One that is found now is kept, and
a failure is not. -/
def marshalingOf (d : Option Descriptor) : Planning Marshaling := do
  match d.bind ((← get).marshalings.lookup ·) with
  | some m => return m
  | none =>
    let m ← Planning.check (s.classify d)
    modify fun p => { p with marshalings := p.marshalings ++ d.toList.map (·, m) }
    return m

/-- The marshaling of a value passed from script to native. -/
def argument (e : TypeExpr) (flags : Flags) : Planning Marshaling := do
  match ← s.resolve e flags with
  | none => throw (.unmarshalable .voidArgument)
  | some d => s.marshalingOf (some d)

/-- The marshaling of a value returned from native to script, `none` for `void`. -/
def result (d : Option Descriptor) : Except Failure (Option Marshaling) :=
  match d with
  | none => .ok none
  | some d => do (← s.classify (some d)).returned

/-- The result that planning finds for a type, with the marshaling that is kept for it. -/
def resultOf (d : Option Descriptor) : Planning (Option Marshaling) :=
  match d with
  | none => pure none
  | some d => do Planning.check (← s.marshalingOf (some d)).returned

end Session

end NativeBridge
