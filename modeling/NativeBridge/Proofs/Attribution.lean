import NativeBridge.Proofs.Emission
import NativeBridge.Proofs.Grouping
import NativeBridge.Proofs.ParentOrder

/-!
# Where type errors arise

Types stand at attributes, at results and arguments of operations, at arguments of constructors, at
arguments and results of callbacks, and at fields. What is asked of a type depends on where it
stands and not on what else is planned. If preparing a session fails over a type, then it fails as
this one type does by itself, under the name of the declaration where it stands. Only a field whose
type resolves and does not fit a record is named in the words of the failure.
-/
namespace NativeBridge

/-- A part of the declarations that has a type. -/
inductive Site where
  | accessor (i : Interface) (a : Attribute)
  | result (i : Interface) (op : Operation)
  | argument (i : Interface) (op : Operation) (a : Argument)
  | constructorArgument (i : Interface) (a : Argument)
  | callbackArgument (c : Callback) (a : Argument)
  | callbackResult (c : Callback)
  | field (v : ValueType) (f : Attribute)

namespace Site

def DeclaredIn (ds : Declarations) : Site → Prop
  | accessor i a => i ∈ ds.interfaces ∧ a ∈ i.attributes
  | result i op => i ∈ ds.interfaces ∧ op ∈ i.operations
  | argument i op a => i ∈ ds.interfaces ∧ op ∈ i.operations ∧ a ∈ op.arguments
  | constructorArgument i a =>
    i ∈ ds.interfaces ∧ ∃ arguments ∈ i.constructors, a ∈ arguments
  | callbackArgument c a => c ∈ ds.callbacks ∧ a ∈ c.arguments
  | callbackResult c => c ∈ ds.callbacks
  | field v f => v ∈ ds.valueTypes ∧ f ∈ v.fields

/-- How a message names a site. -/
def text : Site → String
  | accessor i a => i.name ++ "." ++ a.name
  | result i op => i.name ++ "." ++ op.name
  | argument i op a => i.name ++ "." ++ op.name ++ "(" ++ a.name ++ ")"
  | constructorArgument i a => i.name ++ ".constructor" ++ "(" ++ a.name ++ ")"
  | callbackArgument c a => "callback " ++ c.name ++ "(" ++ a.name ++ ")"
  | callbackResult c => "callback " ++ c.name
  | field v f => v.name ++ "." ++ f.name

def place : Site → Place
  | accessor i a => .member i.name a.name
  | result i op => .member i.name op.name
  | argument i op a => .argument (.operation i.name op.name) a.name
  | constructorArgument i a => .argument (.constructor i.name) a.name
  | callbackArgument c a => .callbackArgument c.name a.name
  | callbackResult c => .callbackResult c.name
  | field v f => .member v.name f.name

theorem text_place (site : Site) : site.place.text = site.text := by
  cases site <;> rfl

end Site

namespace Failure

/-- Whether a failure is about a type. -/
def isTypeError : Failure → Bool
  | refused (.unsupported _) _ => true
  | _ => false

/-- A refusal that names no place yet, or no refusal at all. -/
def Unplaced : Failure → Prop
  | refused _ place => place = none
  | missing _ | voidAttribute .. => True

end Failure

namespace Session

open Planning (check within)

/-- What is asked of the type at a site: that it resolves with its flags, and that its values can
cross the way the position needs. Values of an attribute are returned, and passed as well unless it
is read-only. -/
def examine (s : Session) : Site → Planning Unit
  | .accessor _ a => do
    let d ← s.resolve a.type a.flags
    let _ ← s.resultOf d
    if a.readOnly then return () else discard (s.argument a.type a.flags)
  | .result _ op => do
    let d ← s.resolve op.returnType op.flags
    discard (s.resultOf d)
  | .argument _ _ a | .constructorArgument _ a => discard (s.argument a.type a.flags)
  | .callbackArgument _ a => do
    let m ← s.argument a.type a.flags
    discard (check (m.callableParam.mapError .unmarshalable))
  | .callbackResult c => do
    match ← s.resolve c.returnType {} with
    | none => return ()
    | some d => discard (s.callbackResultOf d)
  | .field _ f => discard (s.resolve f.type f.flags)

/-- A scalar other than a 64-bit integer: the types that fields of a record can have. -/
def FitsRecord (d : Option Descriptor) : Prop :=
  ∃ kind flags, d = some ⟨.scalar kind, false, flags⟩ ∧ kind.isWideInteger = false

/-- A failure over a type is what a declared site gives by itself, placed at that site, or it is
about a declared field that does not fit a record. -/
inductive Attributed (s : Session) : Failure → Prop
  | site {site : Site} {fault : TypeFault} (declared : site.DeclaredIn s.declarations)
      (found : (s.examine site).outcome = .error (.refused (.unsupported fault) none)) :
      Attributed s (.refused (.unsupported fault) (some site.place))
  | field {v : ValueType} {f : Attribute} {d : Option Descriptor} {cause : FieldFault}
      (declared : (Site.field v f).DeclaredIn s.declarations)
      (resolved : (s.resolve f.type f.flags).outcome = .ok d) (unfit : ¬ FitsRecord d) :
      Attributed s (.refused (.unsupported (.field v.name f.name cause)) none)
  | other {failure : Failure} (h : failure.isTypeError = false) : Attributed s failure

/-! ## Steps that fail in certain ways only -/

variable {s : Session} {α β : Type} {E : Failure → Prop}

/-- A step that keeps progress sound, and from sound progress has no failures but those in `E`. -/
structure Confined (s : Session) (E : Failure → Prop) (x : Planning α) : Prop where
  sound : ∀ {p}, s.Sound p → s.Sound (x.runFrom p).2
  failure : ∀ {p}, s.Sound p → FailsOnly E (x.runFrom p).1

theorem Steady.confined {x : Planning α} (hx : s.Steady x) (h : FailsOnly E x.outcome) :
    s.Confined E x := by
  refine ⟨hx.sound, fun sound => ?_⟩
  rw [hx.result sound]
  exact h

namespace Confined

theorem pure (a : α) : s.Confined E (Pure.pure a : Planning α) :=
  (Steady.pure a).confined (.of_ok ⟨a, rfl⟩)

theorem check {x : Except Failure α} (h : FailsOnly E x) : s.Confined E (Planning.check x) :=
  (Steady.check x).confined h

theorem note (event : Event) : s.Confined E (Planning.note event) :=
  (Steady.note event).confined (.of_ok ⟨(), rfl⟩)

/-- A change of progress that forgets nothing about types. -/
theorem modify {f : Progress → Progress}
    (kept : ∀ p, (f p).memo = p.memo ∧ (f p).marshalings = p.marshalings) :
    s.Confined E (modify f : Planning PUnit) := by
  refine ⟨fun {p} sound => ?_, fun _ => .of_ok ⟨_, rfl⟩⟩
  change s.Sound (f p)
  rw [Sound, (kept p).1, (kept p).2]
  exact sound

theorem reserve (valueType : String) (field : Option String) :
    s.Confined E (reserve valueType field) :=
  ⟨fun sound => sound, fun _ => .of_ok ⟨_, rfl⟩⟩

theorem get_bind {f : Progress → Planning β} (hf : ∀ p, s.Confined E (f p)) :
    s.Confined E (get >>= f) := by
  constructor <;> intro p sound <;> rw [ExceptT.runFrom_bind_ok (ExceptT.runFrom_get p)]
  · exact (hf p).sound sound
  · exact (hf p).failure sound

/-- The second of two steps need only be looked at for what the first one gives. -/
theorem bind_of_ran {x : Planning α} {f : α → Planning β} (hx : s.Confined E x)
    (hf : ∀ a p, s.Sound p → (x.runFrom p).1 = .ok a → s.Confined E (f a)) :
    s.Confined E (x >>= f) := by
  have step : ∀ {p}, s.Sound p →
      s.Sound ((x >>= f).runFrom p).2 ∧ FailsOnly E ((x >>= f).runFrom p).1 := by
    intro p sound
    have kept := hx.sound sound
    have fails := hx.failure sound
    rcases ran : x.runFrom p with ⟨e | a, q⟩ <;> rw [ran] at kept fails
    · rw [ExceptT.runFrom_bind_error ran]
      refine ⟨kept, fun failure failed => ?_⟩
      cases failed
      exact fails e rfl
    · rw [ExceptT.runFrom_bind_ok ran]
      have next := hf a p sound (congrArg Prod.fst ran)
      exact ⟨next.sound kept, next.failure kept⟩
  exact ⟨fun sound => (step sound).1, fun sound => (step sound).2⟩

theorem bind {x : Planning α} {f : α → Planning β} (hx : s.Confined E x)
    (hf : ∀ a, s.Confined E (f a)) : s.Confined E (x >>= f) :=
  hx.bind_of_ran fun a _ _ _ => hf a

theorem bind_of_outcome {x : Planning α} {f : α → Planning β} (hx : s.Confined E x)
    (steady : s.Steady x) (hf : ∀ a, x.outcome = .ok a → s.Confined E (f a)) :
    s.Confined E (x >>= f) :=
  hx.bind_of_ran fun a _ sound ran => hf a ((steady.result sound).symm.trans ran)

theorem discard {x : Planning α} (hx : s.Confined E x) : s.Confined E (discard x) :=
  hx.bind fun _ => .pure ()

theorem guard {c : Prop} [Decidable c] {e : Failure} {k : PUnit → Planning α} (he : E e)
    (hk : s.Confined E (k ⟨⟩)) : s.Confined E (if c then throw e >>= k else k ⟨⟩) := by
  split
  · refine ⟨fun sound => sound, fun _ failure failed => ?_⟩
    cases failed
    exact he
  · exact hk

theorem foldlM {f : β → α → Planning β} {items : List α}
    (hf : ∀ a ∈ items, ∀ b, s.Confined E (f b a)) (b : β) : s.Confined E (items.foldlM f b) := by
  induction items generalizing b with
  | nil => exact .pure b
  | cons a rest ih =>
    rw [List.forall_mem_cons] at hf
    rw [List.foldlM_cons]
    exact (hf.1 b).bind (ih hf.2)

theorem mapM {f : α → Planning β} {items : List α} (hf : ∀ a ∈ items, s.Confined E (f a)) :
    s.Confined E (items.mapM f) := by
  induction items with
  | nil => exact .pure []
  | cons a rest ih =>
    rw [List.forall_mem_cons] at hf
    rw [List.mapM_cons]
    exact hf.1.bind fun _ => (ih hf.2).bind fun _ => .pure _

theorem forM {f : α → Planning Unit} {items : List α} (hf : ∀ a ∈ items, s.Confined E (f a)) :
    s.Confined E (items.forM f) := by
  rw [ExceptT.forM_eq_foldlM]
  exact foldlM (fun a member _ => hf a member) ()

end Confined

/-! ## A type by itself -/

theorem unplaced_classify (d : Option Descriptor) : FailsOnly Failure.Unplaced (s.classify d) := by
  intro failure failed
  cases d with
  | none =>
    cases failed
    rfl
  | some d =>
    obtain ⟨base, nullable, flags⟩ := d
    cases base <;> simp only [classify] at failed <;> repeat' split at failed
    all_goals cases failed
    all_goals first | rfl | trivial

theorem unplaced_marshalingOf (d : Option Descriptor) :
    s.Confined Failure.Unplaced (s.marshalingOf d) := by
  refine (steady_marshalingOf d).confined ?_
  rw [outcome_marshalingOf]
  exact unplaced_classify d

theorem unplaced_resultOf (d : Option Descriptor) :
    s.Confined Failure.Unplaced (s.resultOf d) := by
  cases d with
  | none => exact .pure none
  | some d =>
    refine (unplaced_marshalingOf (some d)).bind fun m => .check fun failure failed => ?_
    rw [Marshaling.returned] at failed
    split at failed <;> cases failed
    rfl

theorem unplaced_callbackResultOf (d : Descriptor) :
    s.Confined Failure.Unplaced (s.callbackResultOf d) := by
  refine (unplaced_marshalingOf (some d)).bind fun m => .check fun failure failed => ?_
  cases m <;> cases failed <;> rfl

theorem unplaced_resolve (e : TypeExpr) (flags : Flags) :
    s.Confined Failure.Unplaced (s.resolve e flags) := by
  refine (steady_resolve e flags).confined fun failure failed => ?_
  rw [outcome_resolve] at failed
  cases found : s.scope.meaning e flags <;> rw [found] at failed <;> cases failed
  rfl

theorem unplaced_argument (e : TypeExpr) (flags : Flags) :
    s.Confined Failure.Unplaced (s.argument e flags) := by
  refine (unplaced_resolve e flags).bind fun d => ?_
  cases d with
  | none =>
    refine .check fun failure failed => ?_
    cases failed
    rfl
  | some d => exact unplaced_marshalingOf (some d)

/-- The type at a site is refused without mention of the site. -/
theorem unplaced_examine (site : Site) : s.Confined Failure.Unplaced (s.examine site) := by
  cases site with
  | accessor i a =>
    refine (unplaced_resolve a.type a.flags).bind fun d => ?_
    refine (unplaced_resultOf d).bind fun getter => ?_
    split
    · exact .pure ()
    · exact (unplaced_argument a.type a.flags).discard
  | result i op =>
    refine (unplaced_resolve op.returnType op.flags).bind fun d => ?_
    exact (unplaced_resultOf d).discard
  | argument i op a => exact (unplaced_argument a.type a.flags).discard
  | constructorArgument i a => exact (unplaced_argument a.type a.flags).discard
  | callbackArgument c a =>
    refine (unplaced_argument a.type a.flags).bind fun m => ?_
    refine (Confined.check fun failure failed => ?_).discard
    cases handed : m.callableParam <;> rw [handed] at failed <;> cases failed
    rfl
  | callbackResult c =>
    refine (unplaced_resolve c.returnType {}).bind fun d => ?_
    cases d with
    | none => exact .pure ()
    | some d => exact (unplaced_callbackResultOf d).discard
  | field v f => exact (unplaced_resolve f.type f.flags).discard

/-- A step that asks no more than what is asked at a site fails, placed at the site, as the type
there does by itself. -/
theorem attributed_within (site : Site) (declared : site.DeclaredIn s.declarations)
    {x : Planning α} (steady : s.Steady x) (same : discard x = s.examine site) :
    s.Confined s.Attributed (within site.place x) := by
  refine (steady.within site.place).confined fun failure failed => ?_
  rw [Planning.outcome_within] at failed
  cases found : x.outcome with
  | ok a =>
    rw [found] at failed
    cases failed
  | error inner =>
    rw [found] at failed
    cases failed
    have alone : (s.examine site).outcome = .error inner := by
      rw [← same, ExceptT.discard_eq_bind, steady.outcome_bind fun _ => .pure (), found]
      rfl
    have bare : inner.Unplaced := (unplaced_examine site).failure s.sound_empty inner alone
    cases inner with
    | missing name => exact .other rfl
    | voidAttribute owner name => exact .other rfl
    | refused cause nowhere =>
      cases (bare : nowhere = none)
      cases cause with
      | unsupported fault => exact .site declared alone
      | malformed cause => exact .other rfl
      | invalid cause => exact .other rfl

/-! ## Members of interfaces -/

theorem attributed_add (callable : Callable) (g : OverloadGroup) (o : Overload) :
    FailsOnly s.Attributed (g.add callable o) := by
  intro failure failed
  rw [OverloadGroup.add] at failed
  split_ifs at failed
  cases failed
  exact .other rfl

/-- Overloads can only fail at an argument of theirs. -/
theorem attributed_addVariants {callable : Callable} {arguments : List Argument}
    (planned : ∀ a ∈ arguments, s.Confined s.Attributed (s.planArgument callable a))
    (nativeName : String) (g : OverloadGroup) :
    s.Confined s.Attributed (s.addVariants callable nativeName g arguments) := by
  refine Confined.foldlM (fun variant member g => ?_) g
  have taken := (mem_expandOptional member).2
  refine (Confined.mapM fun a inside => planned a ?_).bind fun _ => .check (attributed_add _ _ _)
  rw [taken] at inside
  exact List.mem_of_mem_take inside

theorem attributed_planConstructors {i : Interface} (declared : i ∈ s.declarations.interfaces) :
    s.Confined s.Attributed (s.planConstructors i) := by
  refine
    (Confined.foldlM (fun arguments listed g => attributed_addVariants (fun a member => ?_) _ g)
    _).bind fun g => (Confined.note _).bind fun _ => .pure g
  refine (attributed_within (.constructorArgument i a) ⟨declared, arguments, listed, member⟩
    (steady_argument a.type a.flags) rfl).bind fun _ => .pure _

theorem attributed_planOperation {i : Interface} (declared : i ∈ s.declarations.interfaces)
    {op : Operation} (listed : op ∈ i.operations) (groups : List OverloadGroup) :
    s.Confined s.Attributed (s.planOperation i groups op) := by
  rw [planOperation]
  refine .guard (.other rfl) ?_
  refine (attributed_within (.result i op) ⟨declared, listed⟩
    ((steady_resolve op.returnType op.flags).bind fun d =>
      (steady_resultOf d).bind fun r => .pure (d, r)) ?_).bind fun returned => ?_
  · simp only [ExceptT.discard_eq_bind, examine, bind_assoc, pure_bind]
  · refine .guard (.other rfl) (.guard (.other rfl) ?_)
    refine (attributed_addVariants (fun a member => ?_) _ _).bind fun g => .pure _
    refine (attributed_within (.argument i op a) ⟨declared, listed, member⟩
      (steady_argument a.type a.flags) rfl).bind fun _ => .pure _

theorem attributed_planAttribute {i : Interface} (declared : i ∈ s.declarations.interfaces)
    {a : Attribute} (listed : a ∈ i.attributes) (plans : List AttributePlan) :
    s.Confined s.Attributed (s.planAttribute i plans a) := by
  rw [planAttribute]
  refine .guard (.other rfl) ?_
  refine (attributed_within (.accessor i a) ⟨declared, listed⟩ (steady_planAccessors a) ?_).bind
    fun plan => .pure _
  cases fixed : a.readOnly <;>
    simp [ExceptT.discard_eq_bind, planAccessors, planSetter, examine, fixed]

theorem attributed_planInterface {i : Interface} (declared : i ∈ s.declarations.interfaces) :
    s.Confined s.Attributed (s.planInterface i) := by
  refine (attributed_planConstructors declared).bind fun constructors => ?_
  refine Confined.bind ?_ fun methods => Confined.bind ?_ fun attributes => .pure _
  · refine (Confined.foldlM (fun op listed => attributed_planOperation declared listed) []).bind
      fun groups => ?_
    exact (Confined.forM fun g _ => .note _).bind fun _ => .pure groups
  · exact Confined.foldlM (fun a listed => attributed_planAttribute declared listed) []

/-! ## Callbacks -/

theorem attributed_planCallback {c : Callback} (declared : c ∈ s.declarations.callbacks) :
    s.Confined s.Attributed (s.planCallback c) := by
  refine .get_bind fun p => ?_
  split
  · exact .pure _
  · refine Confined.bind ?_ fun plan => (Confined.modify fun p => ⟨by rfl, by rfl⟩).bind fun _ =>
      (Confined.note _).bind fun _ => .pure plan
    refine (Confined.mapM fun a member => ?_).bind fun arguments => ?_
    · refine attributed_within (.callbackArgument c a) ⟨declared, member⟩
        ((steady_argument a.type a.flags).bind fun m => (Steady.check _).bind fun _ => .pure _) ?_
      simp only [ExceptT.discard_eq_bind, examine, bind_assoc, pure_bind]
    · refine Confined.bind ?_ fun returns => .pure _
      refine attributed_within (.callbackResult c) declared
        ((steady_resolve c.returnType {}).bind fun d => ?_) ?_
      · cases d with
        | none => exact .pure none
        | some d => exact steady_callbackResultOf d
      · rw [ExceptT.discard_eq_bind, examine, bind_assoc]
        congr
        funext d
        cases d <;> rfl

/-! ## Value types -/

theorem attributed_fieldScalar {v : ValueType} {f : Attribute} {d : Option Descriptor}
    (declared : (Site.field v f).DeclaredIn s.declarations)
    (resolved : (s.resolve f.type f.flags).outcome = .ok d) :
    FailsOnly s.Attributed (fieldScalar v f d) := by
  intro failure failed
  have unfit : ¬ FitsRecord d := by
    rintro ⟨kind, flags, same, narrow⟩
    rw [fieldScalar_eq_ok_iff.2 ⟨⟨flags, same⟩, narrow⟩] at failed
    cases failed
  simp only [fieldScalar] at failed
  repeat' split at failed
  all_goals cases failed
  all_goals exact .field declared resolved unfit

theorem attributed_fieldKind {v : ValueType} {f : Attribute}
    (declared : (Site.field v f).DeclaredIn s.declarations) :
    s.Confined s.Attributed (s.fieldKind v f) := by
  have steady := steady_resolve (s := s) f.type f.flags
  rw [fieldKind]
  refine .guard (.other rfl) (.guard (.other rfl) ?_)
  refine (attributed_within (.field v f) declared steady rfl).bind_of_outcome
    (steady.within _) fun d resolved => ?_
  rw [Planning.outcome_within, except_mapError_eq_ok_iff] at resolved
  exact .check (attributed_fieldScalar declared resolved)

theorem invalid_of_lineageFrom {visited : List String} {v : ValueType} {e : Failure}
    (failed : s.lineageFrom visited v = .error e) : ∃ cause, e = .invalid cause := by
  fun_induction lineageFrom s visited v with
  | case1 => cases failed
  | case2 =>
    cases failed
    exact ⟨_, rfl⟩
  | case3 =>
    cases failed
    exact ⟨_, rfl⟩
  | case4 visited v name _ p _ _ ih =>
    obtain above | ⟨chain, -, done⟩ := except_bind_eq_error_iff.1 failed
    · exact ih above
    · cases done

theorem attributed_register {v : ValueType} (declared : v ∈ s.declarations.valueTypes) :
    s.Confined s.Attributed (s.register v) := by
  refine .get_bind fun p => ?_
  split
  · exact .pure _
  · refine (Confined.reserve v.name none).bind fun sizeSlot => ?_
    refine (Confined.check fun e failed => ?_).bind_of_outcome (.check _) fun owners line => ?_
    · obtain ⟨cause, rfl⟩ := invalid_of_lineageFrom failed
      exact .other rfl
    · refine (Confined.foldlM (fun item member fields => ?_) []).bind fun fields =>
        (Confined.modify fun p => ⟨by rfl, by rfl⟩).bind fun _ =>
          (Confined.note _).bind fun _ => .pure _
      obtain ⟨owner, above, own⟩ := List.mem_flatMap.1 member
      obtain ⟨f, field, rfl⟩ := List.mem_map.1 own
      have known := (ancestry_of_lineage line).declared declared owner above
      rw [addField]
      refine .guard (.other rfl) ?_
      refine (attributed_fieldKind ⟨known, field⟩).bind fun kind => ?_
      exact (Confined.reserve v.name (some f.name)).bind fun slot => .pure _

/-! ## All declarations -/

theorem attributed_prepare : s.Confined s.Attributed s.prepare := by
  refine (Confined.check fun e failed => ?_).bind_of_outcome (.check _) fun ordered placed => ?_
  · obtain ⟨i, -, _, climbed⟩ := climb_of_orderInterfaces failed
    obtain ⟨cause, rfl⟩ := invalid_of_climb climbed
    exact .other rfl
  · refine (Confined.forM fun v declared => (attributed_register declared).discard).bind fun _ => ?_
    refine (Confined.forM fun c declared => (attributed_planCallback declared).discard).bind
      fun _ => ?_
    refine (Confined.mapM fun i member =>
      attributed_planInterface ((mem_orderInterfaces placed).1 member)).bind fun plans => ?_
    refine (Confined.modify fun p => ⟨by rfl, by rfl⟩).bind fun _ => .get_bind fun p => ?_
    exact (Confined.note _).bind fun _ => .pure plans

/-- If preparing a session fails over a type, whatever was asked before, then one of two things is
the case. Either the message names a declared site, once, and goes on with the words in which the
type at that site is refused by itself, with nothing planned. Or it is about a declared field whose
type resolves, but not to a scalar other than a 64-bit integer. -/
theorem type_errors_attributed (s : Session) (requests : List Request) {fault : TypeFault}
    {place : Option Place}
    (failed : (s.prepare.runFrom (s.after requests)).1 =
      .error (.refused (.unsupported fault) place)) :
    (∃ site : Site, site.DeclaredIn s.declarations ∧
      (s.examine site).outcome = .error (.refused (.unsupported fault) none) ∧
      (Failure.refused (.unsupported fault) place).message = site.text ++ ": " ++ fault.message) ∨
    ∃ v ∈ s.declarations.valueTypes, ∃ f ∈ v.fields, ∃ d cause,
      (s.resolve f.type f.flags).outcome = .ok d ∧ ¬ FitsRecord d ∧
      (Failure.refused (.unsupported fault) place).message =
        "value type field " ++ v.name ++ "." ++ f.name ++ " " ++ FieldFault.message cause := by
  have attributed := attributed_prepare.failure (s.sound_after requests) _ failed
  cases attributed with
  | @site site _ declared found =>
    refine .inl ⟨site, declared, found, ?_⟩
    rw [← site.text_place]
    rfl
  | field declared resolved unfit =>
    exact .inr ⟨_, declared.1, _, declared.2, _, _, resolved, unfit, rfl⟩
  | other h => cases h

/-- The angle of a turn may be left out but must not be null. -/
def hinges : Session where
  declarations :=
    { interfaces :=
        [{ name := "Hinge", attributes := [{ name := "turned", type := { name := "Angle" } }]
           operations :=
             [{ name := "turn", returnType := { name := "void" }
                arguments := [{ name := "slowly", type := { name := "boolean" } },
                              { name := "angle", type := { name := "Angle", nullable := true }
                                optional := true }] }] }]
      typedefs := [{ name := "Angle", type := { name := "double" } }] }
  options := {}
  distinct := by decide

/-- Badges cannot hold the name of their owner. -/
def badges : Session where
  declarations :=
    { valueTypes := [{ name := "Badge"
                       fields := [{ name := "owner", type := { name := "Owner" } }] }]
      typedefs := [{ name := "Owner", type := { name := "DOMString" } }] }
  options := {}
  distinct := by decide

/-- The second attempt to prepare fails as the first does: the hinges at an argument that can be
left out, the badges at a field that resolves. -/
theorem hinges_and_badges_attributed :
    (∃ fault place,
      (hinges.prepare.runFrom (hinges.after [.prepare])).1 =
        .error (.refused (.unsupported fault) place) ∧
      (Failure.refused (.unsupported fault) place).message =
        "Hinge.turn(angle): scalar type double cannot be nullable" ∧
      ∃ site : Site, site.DeclaredIn hinges.declarations ∧
        (hinges.examine site).outcome = .error (.refused (.unsupported fault) none) ∧
        (Failure.refused (.unsupported fault) place).message = site.text ++ ": " ++ fault.message) ∧
    ∃ fault place,
      (badges.prepare.runFrom (badges.after [.prepare])).1 =
        .error (.refused (.unsupported fault) place) ∧
      (Failure.refused (.unsupported fault) place).message =
        "value type field Badge.owner is string-valued" ∧
      ∃ v ∈ badges.declarations.valueTypes, ∃ f ∈ v.fields, ∃ d cause,
        (badges.resolve f.type f.flags).outcome = .ok d ∧ ¬ FitsRecord d ∧
        (Failure.refused (.unsupported fault) place).message =
          "value type field " ++ v.name ++ "." ++ f.name ++ " " ++ FieldFault.message cause := by
  have null : (hinges.prepare.runFrom (hinges.after [.prepare])).1 =
      .error (.refused (.unsupported (.unmarshalable (.nullableScalar .double)))
        (some (.argument (.operation "Hinge" "turn") "angle"))) := by
    decide +kernel
  have text : (badges.prepare.runFrom (badges.after [.prepare])).1 =
      .error (.refused (.unsupported (.field "Badge" "owner" .string)) none) := by
    decide +kernel
  refine ⟨⟨_, _, null, by decide +kernel, ?_⟩, _, _, text, by decide +kernel, ?_⟩
  · obtain site | ⟨v, listed, -⟩ := type_errors_attributed hinges [.prepare] null
    · exact site
    · cases listed
  · obtain ⟨site, declared, found, -⟩ | field := type_errors_attributed badges [.prepare] text
    · -- the only site is the field, and its type resolves
      cases site with
      | field v f =>
        obtain ⟨here, own⟩ := declared
        cases List.mem_singleton.1 here
        cases List.mem_singleton.1 own
        exact absurd found (by decide +kernel)
      | callbackResult c => cases declared
      | _ => cases declared.1
    · exact field

end Session

end NativeBridge
