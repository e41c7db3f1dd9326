import NativeBridge.Proofs.Independence
import NativeBridge.Proofs.OffsetTable
import NativeBridge.Proofs.Pairing

/-!
# Names of native functions

The name of a native function is made of a prefix, an owner, a member and an arity, with underscores
in between. Nothing compares the names that come out. The arity can be read off a name, but where
the owner ends cannot, so functions of one arity share a name exactly if owner and member read the
same in one piece. Names that keep to a few rules never do.
-/
namespace NativeBridge

/-! ## Reading a name -/

/-- Where a character is absent from what precedes it, its first place divides a text. -/
theorem eq_of_append_cons_eq {front front' back back' : List Char} {c : Char} (absent : c ∉ front)
    (absent' : c ∉ front') (same : front ++ c :: back = front' ++ c :: back') :
    front = front' ∧ back = back' := by
  have before : ∀ {front back : List Char}, c ∉ front →
      (front ++ c :: back).takeWhile (· ≠ c) = front := by
    intro front back absent
    have passed : ∀ a ∈ front, decide (a ≠ c) = true := by
      intro a member
      exact decide_eq_true fun same => absent (same ▸ member)
    rw [List.takeWhile_append_of_pos passed, List.takeWhile_cons_of_neg (by simp), List.append_nil]
  have fronts : front = front' := by rw [← before absent, same, before absent']
  subst fronts
  simpa using same

theorem eq_of_append_cons_eq_last {front front' back back' : List Char} {c : Char}
    (absent : c ∉ back) (absent' : c ∉ back') (same : front ++ c :: back = front' ++ c :: back') :
    front = front' ∧ back = back' := by
  have reversed : back.reverse ++ c :: front.reverse = back'.reverse ++ c :: front'.reverse := by
    simpa using congrArg List.reverse same
  have parts := eq_of_append_cons_eq (by simpa using absent) (by simpa using absent') reversed
  exact ⟨List.reverse_injective parts.2, List.reverse_injective parts.1⟩

theorem underscore_not_mem_repr (n : Nat) : '_' ∉ n.repr.toList :=
  fun member => absurd (isDigit_of_mem_repr member) (by decide)

theorem eq_of_repr_eq {n n' : Nat} (same : n.repr.toList = n'.repr.toList) : n = n' := by
  simpa using congrArg (fun digits => Nat.ofDigitChars 10 digits 0) same

theorem Options.mangle_eq_iff (o : Options) {owner owner' member member' : String} {n n' : Nat} :
    o.mangle owner member n = o.mangle owner' member' n' ↔
      owner ++ "_" ++ member = owner' ++ "_" ++ member' ∧ n = n' := by
  have parts : ∀ (owner member : String) (n : Nat), (o.mangle owner member n).toList =
      o.entryPrefix.toList ++ ((owner ++ "_" ++ member).toList ++ '_' :: n.repr.toList) := by
    intro owner member n
    have joined : o.mangle owner member n =
        o.entryPrefix ++ owner ++ "_" ++ member ++ "_" ++ n.repr := rfl
    simp [joined]
  constructor
  · intro same
    have chars := congrArg String.toList same
    rw [parts, parts] at chars
    have divided :=
      eq_of_append_cons_eq_last (underscore_not_mem_repr n) (underscore_not_mem_repr n')
      (List.append_cancel_left chars)
    exact ⟨String.toList_inj.1 divided.1, eq_of_repr_eq divided.2⟩
  · rintro ⟨same, rfl⟩
    rw [← String.toList_inj, parts, parts, same]

/-! ## The functions of a session -/

inductive NativeFunction where
  | constructor (interface : String) (arity : Nat)
  | destructor (interface : String)
  | method (interface name : String) (arity : Nat)
  | getter (interface name : String)
  | setter (interface name : String)
  | shim (callback : String) (arity : Nat)
  | layoutQuery
  deriving DecidableEq, Repr

namespace NativeFunction

def owner : NativeFunction → String
  | constructor i _ | destructor i | method i _ _ | getter i _ | setter i _ => i
  | shim c _ => c
  | layoutQuery => "_"

def member : NativeFunction → String
  | constructor i _ => i
  | destructor _ => "__destroy__"
  | method _ name _ => name
  | getter _ name => "__get_" ++ name
  | setter _ name => "__set_" ++ name
  | shim _ _ => "__invoke__"
  | layoutQuery => "_layout__"

/-- The arity never counts the receiver. -/
def arity : NativeFunction → Nat
  | constructor _ n | method _ _ n | shim _ n => n
  | destructor _ | getter _ _ | layoutQuery => 0
  | setter _ _ => 1

/-- Owner and member in one piece. -/
def label (f : NativeFunction) : String := f.owner ++ "_" ++ f.member

end NativeFunction

/-- A name that can stand in front of an underscore: it is not empty and has none itself. -/
def PlainName (name : String) : Prop := name ≠ "" ∧ '_' ∉ name.toList

namespace NativeFunction

/-- A function whose name says what it is: its owner has no underscores, and a method is not called
like a function of another kind. -/
def Plain : NativeFunction → Prop
  | method i name _ => PlainName i ∧ name ≠ i ∧ ¬ "__".toList <+: name.toList
  | layoutQuery => True
  | f => PlainName f.owner

/-- The function that has the given owner, member and arity. -/
def named (owner member : String) (arity : Nat) : NativeFunction :=
  if member = owner then constructor owner arity
  else if member = "__destroy__" then destructor owner
  else if member = "__invoke__" then shim owner arity
  else if "__get_".toList <+: member.toList then getter owner (.ofList (member.toList.drop 6))
  else if "__set_".toList <+: member.toList then setter owner (.ofList (member.toList.drop 6))
  else method owner member arity

theorem ne_of_plainName {name text : String} (plain : PlainName name) (holds : '_' ∈ text.toList) :
    text ≠ name := by
  rintro rfl
  exact plain.2 holds

theorem Plain.named_eq {f : NativeFunction} (plain : f.Plain) (other : f ≠ layoutQuery) :
    named f.owner f.member f.arity = f := by
  cases f with
  | constructor i n => simp [named, owner, member, arity]
  | destructor i =>
    have apart : "__destroy__" ≠ i := ne_of_plainName plain (by decide)
    simp [named, owner, member, apart]
  | method i name n =>
    obtain ⟨-, apart, free⟩ := plain
    -- all other members begin with two underscores
    have ne : ∀ text : String, "__".toList <+: text.toList → name ≠ text := by
      rintro text begins rfl
      exact free begins
    have notGetter : ¬ "__get_".toList <+: name.toList :=
      fun h => free (List.IsPrefix.trans (by decide) h)
    have notSetter : ¬ "__set_".toList <+: name.toList :=
      fun h => free (List.IsPrefix.trans (by decide) h)
    change named i name n = method i name n
    rw [named, if_neg apart, if_neg (ne "__destroy__" (by decide)),
      if_neg (ne "__invoke__" (by decide)), if_neg notGetter, if_neg notSetter]
  | getter i name =>
    have apart : "__get_" ++ name ≠ i := ne_of_plainName plain (by simp)
    simp [named, owner, member, apart, ← String.toList_inj]
  | setter i name =>
    have apart : "__set_" ++ name ≠ i := ne_of_plainName plain (by simp)
    simp [named, owner, member, apart, ← String.toList_inj]
  | shim c n =>
    have apart : "__invoke__" ≠ c := ne_of_plainName plain (by decide)
    simp [named, owner, member, arity, apart]
  | layoutQuery => exact absurd rfl other

theorem Plain.owner_plain {f : NativeFunction} (plain : f.Plain) (other : f ≠ layoutQuery) :
    PlainName f.owner := by
  cases f with
  | method => exact plain.1
  | layoutQuery => exact absurd rfl other
  | _ => exact plain

theorem Plain.label_ne_layoutQuery {f : NativeFunction} (plain : f.Plain)
    (other : f ≠ layoutQuery) :
    f.label ≠ layoutQuery.label := by
  obtain ⟨nonempty, absent⟩ := plain.owner_plain other
  intro same
  have chars := congrArg String.toList same
  cases first : f.owner.toList with
  | nil => exact nonempty (String.toList_eq_nil_iff.1 first)
  | cons c rest =>
    simp only [label, String.toList_append, first] at chars
    have underscore : c = '_' := (List.cons.inj chars).1
    exact absent (by simp [first, underscore])

/-- Plain functions of one name are the same function. -/
theorem Plain.injective {f g : NativeFunction} (hf : f.Plain) (hg : g.Plain)
    (label : f.label = g.label) (arity : f.arity = g.arity) : f = g := by
  by_cases queryF : f = layoutQuery <;> by_cases queryG : g = layoutQuery
  · rw [queryF, queryG]
  · exact absurd (label.symm.trans (congrArg _ queryF)) (hg.label_ne_layoutQuery queryG)
  · exact absurd (label.trans (congrArg _ queryG)) (hf.label_ne_layoutQuery queryF)
  · have chars :
        f.owner.toList ++ '_' :: f.member.toList = g.owner.toList ++ '_' :: g.member.toList := by
      simpa [NativeFunction.label] using congrArg String.toList label
    obtain ⟨owners, members⟩ := eq_of_append_cons_eq (hf.owner_plain queryF).2
      (hg.owner_plain queryG).2 chars
    rw [← hf.named_eq queryF, ← hg.named_eq queryG, String.toList_inj.1 owners,
      String.toList_inj.1 members, arity]

end NativeFunction

/-- The native functions that an interface asks for. -/
def Interface.Defines (i : Interface) : NativeFunction → Prop
  | .constructor owner n => i.name = owner ∧ ∃ arguments ∈ i.constructors, n ∈ arityRange arguments
  | .destructor owner => i.name = owner ∧ i.nonDestructible = false
  | .method owner name n =>
    i.name = owner ∧ ∃ op ∈ i.operations, op.name = name ∧ n ∈ arityRange op.arguments
  | .getter owner name => i.name = owner ∧ ∃ a ∈ i.attributes, a.name = name
  | .setter owner name => i.name = owner ∧ ∃ a ∈ i.attributes, a.name = name ∧ a.readOnly = false
  | .shim _ _ | .layoutQuery => False

/-- The native functions that the declarations of a session ask for. -/
def Session.Defines (s : Session) : NativeFunction → Prop
  | .shim name n => ∃ c ∈ s.declarations.callbacks, c.name = name ∧ c.arguments.length = n
  | .layoutQuery => s.declarations.valueTypes ≠ []
  | f => ∃ i ∈ s.declarations.interfaces, i.Defines f

/-! ## Planned functions -/

def AttributePlan.functions (a : AttributePlan) (owner : String) : List NativeFunction :=
  .getter owner a.decl.name :: if a.setter.isSome then [.setter owner a.decl.name] else []

/-- The functions of a planned interface, in the order in which they are defined. -/
def InterfacePlan.functions (plan : InterfacePlan) : List NativeFunction :=
  plan.constructors.arities.map (.constructor plan.interface.name) ++
    (if plan.interface.nonDestructible then [] else [.destructor plan.interface.name]) ++
    plan.methods.flatMap (fun g => g.arities.map (.method plan.interface.name g.name)) ++
    plan.attributes.flatMap (fun a => a.functions plan.interface.name)

namespace Session

variable {s : Session} {callbacks : List CallbackPlan}

def entryName (s : Session) (f : NativeFunction) : String := s.mangle f.owner f.member f.arity

theorem name_constructorEntry {i : Interface} {o : Overload} {e : EntryPoint}
    (made : s.constructorEntry callbacks i o = .ok e) :
    e.name = s.entryName (.constructor i.name o.arity) := by
  obtain ⟨arguments, -, same⟩ := except_bind_eq_ok_iff.1 made
  cases same
  rfl

theorem name_methodEntry {i : Interface} {g : OverloadGroup} {o : Overload} {e : EntryPoint}
    (made : s.methodEntry callbacks i g o = .ok e) :
    e.name = s.entryName (.method i.name g.name o.arity) := by
  obtain ⟨result, -, made⟩ := except_bind_eq_ok_iff.1 made
  obtain ⟨arguments, -, same⟩ := except_bind_eq_ok_iff.1 made
  cases same
  rfl

theorem names_attributeEntries {i : Interface} {a : AttributePlan} {es : List EntryPoint}
    (made : s.attributeEntries callbacks i a = .ok es) :
    es.map (·.name) = (a.functions i.name).map s.entryName := by
  obtain ⟨getter, gets, made⟩ := except_bind_eq_ok_iff.1 made
  have getterName : getter.name = s.entryName (.getter i.name a.decl.name) := by
    rw [getterEntry] at gets
    split at gets
    · cases gets
    · obtain ⟨type, -, same⟩ := except_bind_eq_ok_iff.1 gets
      cases same
      rfl
  rw [AttributePlan.functions]
  cases settable : a.setter with
  | none =>
    rw [settable] at made
    cases made
    simp [getterName]
  | some m =>
    rw [settable] at made
    obtain ⟨setter, sets, same⟩ := except_bind_eq_ok_iff.1 made
    cases same
    obtain ⟨value, -, same⟩ := except_bind_eq_ok_iff.1 sets
    cases same
    simp only [List.map_cons, getterName]
    rfl

/-- The entry points of an interface are named after its functions. -/
theorem names_entryPoints {plan : InterfacePlan} {points : List EntryPoint}
    (made : s.entryPoints callbacks plan = .ok points) :
    points.map (·.name) = plan.functions.map s.entryName := by
  obtain ⟨constructors, built, made⟩ := except_bind_eq_ok_iff.1 made
  obtain ⟨methods, called, made⟩ := except_bind_eq_ok_iff.1 made
  obtain ⟨attributes, accessed, same⟩ := except_bind_eq_ok_iff.1 made
  cases same
  have constructorNames := map_eq_of_forall₂ (except_mapM_eq_ok_iff.1 built)
    fun _ _ made => (name_constructorEntry made).symm
  have methodNames := flatMap_eq_of_forall₂ (except_mapM_eq_ok_iff.1 called) fun _ _ made =>
    map_eq_of_forall₂ (except_mapM_eq_ok_iff.1 made) fun _ _ made => (name_methodEntry made).symm
  have attributeNames := flatMap_eq_of_forall₂ (except_mapM_eq_ok_iff.1 accessed)
    fun _ _ made => (names_attributeEntries made).symm
  have destructorNames : (s.destructorEntry plan.interface).toList.map (·.name) =
      (if plan.interface.nonDestructible then []
        else [NativeFunction.destructor plan.interface.name]).map s.entryName := by
    rw [destructorEntry]
    split <;> rfl
  simp only [InterfacePlan.functions, OverloadGroup.arities, List.map_append, List.map_map,
    List.map_flatMap, List.map_flatten, ← List.flatMap_def, Function.comp_def, constructorNames,
    destructorNames, methodNames, attributeNames]

/-! ## Planned functions are the declared ones -/

theorem functions_of_plansAttribute {a : Attribute} {plan : AttributePlan}
    (h : s.PlansAttribute a plan) (owner : String) :
    plan.functions owner = .getter owner a.name ::
      if a.readOnly then [] else [NativeFunction.setter owner a.name] := by
  rw [AttributePlan.functions, h.decl]
  have setter := h.setter
  cases fixed : a.readOnly with
  | true =>
    rw [if_pos fixed] at setter
    simp [setter]
  | false =>
    rw [if_neg (by simp [fixed])] at setter
    obtain ⟨m, -, made⟩ := setter
    simp [made]

theorem flatMap_functions_of_plansAttribute {attributes : List Attribute}
    {plans : List AttributePlan}
    (h : List.Forall₂ s.PlansAttribute attributes plans) (owner : String) :
    plans.flatMap (·.functions owner) = attributes.flatMap fun a => .getter owner a.name ::
      if a.readOnly then [] else [NativeFunction.setter owner a.name] := by
  symm
  exact flatMap_eq_of_forall₂ h fun _ _ plans => (functions_of_plansAttribute plans owner).symm

theorem nodup_accessors {attributes : List Attribute} (owner : String)
    (distinct : attributes.Pairwise fun a b => a.name ≠ b.name) :
    (attributes.flatMap fun a => .getter owner a.name ::
      if a.readOnly then [] else [NativeFunction.setter owner a.name]).Nodup := by
  rw [List.nodup_flatMap]
  constructor
  · intro a _
    cases a.readOnly <;> simp
  · refine distinct.imp fun {a b} other => ?_
    simp [Function.onFun, List.disjoint_left, other]

theorem nodup_methods {groups : List OverloadGroup} (owner : String)
    (distinct : GroupsDistinct groups) :
    (groups.flatMap fun g => g.arities.map (NativeFunction.method owner g.name)).Nodup := by
  rw [List.nodup_flatMap]
  constructor
  · intro g member
    refine (distinct.arities g member).map ?_
    intro n n' same
    exact (NativeFunction.method.inj same).2.2
  · refine (List.pairwise_map.1 distinct.names).imp fun {g h} other => ?_
    simp [Function.onFun, List.disjoint_left, other.symm]

/-- An interface is planned with each of the functions that it asks for, once. -/
theorem functions_of_planInterface {i : Interface} {plan : InterfacePlan}
    (planned : (s.planInterface i).outcome = .ok plan) :
    plan.functions.Nodup ∧ ∀ f, f ∈ plan.functions ↔ i.Defines f := by
  obtain ⟨rfl, constructors, operations, attributes, -⟩ := outcome_planInterface_eq_ok_iff.1 planned
  obtain ⟨constructorsDistinct, constructorArities⟩ := arities_planConstructors constructors
  obtain ⟨groups, operationArities⟩ := groups_planOperations operations
  have accessors := flatMap_functions_of_plansAttribute (plansAttributes_of_outcome attributes)
    plan.interface.name
  have attributesDistinct := (exists_planAttributes_iff.1 ⟨_, attributes⟩).2
  rw [InterfacePlan.functions, accessors]
  constructor
  · have builds : (plan.constructors.arities.map
        (NativeFunction.constructor plan.interface.name)).Nodup :=
      constructorsDistinct.map fun _ _ same => (NativeFunction.constructor.inj same).2
    have destroys : (if plan.interface.nonDestructible then []
        else [NativeFunction.destructor plan.interface.name]).Nodup := by
      cases plan.interface.nonDestructible <;> simp
    refine List.nodup_append'.2 ⟨List.nodup_append'.2 ⟨List.nodup_append'.2 ⟨builds, destroys, ?_⟩,
      nodup_methods _ groups, ?_⟩, nodup_accessors _ attributesDistinct, ?_⟩
    -- the parts hold functions of different kinds
    all_goals
      intro f
      cases f <;> simp
  · intro f
    cases f with
    | constructor owner n => simp [Interface.Defines, constructorArities, and_comm]
    | destructor owner => simp [Interface.Defines, and_comm, eq_comm (a := owner)]
    | method owner name n =>
      rw [Interface.Defines, ← operationArities]
      constructor
      · intro member
        obtain ⟨g, group, arity, named, same⟩ :
            ∃ g ∈ plan.methods, n ∈ g.arities ∧ plan.interface.name = owner ∧ g.name = name := by
          simpa using member
        exact ⟨named, g, group, same, arity⟩
      · rintro ⟨rfl, g, group, rfl, arity⟩
        simpa using ⟨g, group, arity, rfl⟩
    | getter owner name =>
      constructor
      · intro member
        obtain ⟨a, there, named, same⟩ :
            ∃ a ∈ plan.interface.attributes, owner = plan.interface.name ∧ name = a.name := by
          simpa using member
        exact ⟨named.symm, a, there, same.symm⟩
      · rintro ⟨rfl, a, there, rfl⟩
        simpa using ⟨a, there, rfl⟩
    | setter owner name =>
      constructor
      · intro member
        obtain ⟨a, there, settable, named, same⟩ : ∃ a ∈ plan.interface.attributes,
            a.readOnly = false ∧ owner = plan.interface.name ∧ name = a.name := by
          simpa using member
        exact ⟨named.symm, a, there, same.symm, settable⟩
      · rintro ⟨rfl, a, there, rfl, settable⟩
        simpa using ⟨a, there, settable, rfl⟩
    | shim name n => simp [Interface.Defines]
    | layoutQuery => simp [Interface.Defines]

/-! ## The functions of a whole output -/

/-- The names of the native functions of an output: shims, then entry points. They are read off its
lines by `composed_definedNames`. -/
def definedNames (p : Progress) (native : List NativePart) : List String :=
  p.callbacks.map (·.shim) ++ (entries native).map (·.name)

/-- The lines of a native function of some name, a shim or an entry point. -/
inductive NamedBlock (name : String) (lines : List String) : Prop
  | shim (h : ShimBlock name lines)
  | entry {e : EntryPoint} (h : DefinitionBlock e lines) (named : e.name = name)

/-- The names stand in the native text: each in the first line of a definition, and no other line
defines a function. -/
theorem composed_definedNames {s : Session} {p : Progress} {native : List NativePart}
    (natived : s.nativeParts p p.plans = .ok native) :
    Composed OutsideLine NamedBlock (native.flatMap NativePart.lines) (definedNames p native) := by
  have names : definedNames p native =
      (p.callbacks.map Sum.inl ++ (entries native).map Sum.inr).filterMap
        fun item => some (Sum.elim CallbackPlan.shim EntryPoint.name item) := by
    simp [definedNames, Function.comp_def]
  rw [names]
  refine (composed_native natived).filterMap (fun _ outside => outside) ?_ ?_
  · rintro (c | e) name front found made <;> cases found
    · exact .shim made
    · exact .entry made rfl
  · intro item front none
    cases none

def shimOf (plan : CallbackPlan) : NativeFunction :=
  .shim plan.callback.name plan.callback.arguments.length

/-- The functions of all plans, in the order in which they are defined. -/
def plannedFunctions (p : Progress) : List NativeFunction :=
  p.callbacks.map shimOf ++ (if p.slots = [] then [] else [.layoutQuery]) ++
    p.plans.flatMap InterfacePlan.functions

variable {b : Bindings} {p : Progress}

theorem names_layoutEntry {slots : List Slot} {point : Option EntryPoint}
    (made : s.layoutEntry slots = .ok point) :
    point.toList.map (·.name) =
      (if slots = [] then [] else [NativeFunction.layoutQuery]).map s.entryName := by
  rw [layoutEntry] at made
  split at made
  · cases made
    simp [*]
  · obtain ⟨rows, -, same⟩ := except_bind_eq_ok_iff.1 made
    cases same
    simp only [*, if_false]
    rfl

theorem definedNames_eq {native : List NativePart} (natived : s.nativeParts p p.plans = .ok native)
    (shims : ∀ plan ∈ p.callbacks, plan.shim = s.entryName (shimOf plan)) :
    definedNames p native = (plannedFunctions p).map s.entryName := by
  obtain ⟨_, -, natived⟩ := except_bind_eq_ok_iff.1 natived
  obtain ⟨layout, layoutMade, natived⟩ := except_bind_eq_ok_iff.1 natived
  obtain ⟨interfaces, interfacesMade, same⟩ := except_bind_eq_ok_iff.1 natived
  cases same
  have members : (p.plans.flatMap InterfacePlan.functions).map s.entryName =
      (interfaces.flatMap entries).map (·.name) := by
    rw [List.map_flatMap, List.map_flatMap]
    refine flatMap_eq_of_forall₂ (except_mapM_eq_ok_iff.1 interfacesMade) fun plan parts made => ?_
    obtain ⟨points, emitted, same⟩ := except_bind_eq_ok_iff.1 made
    cases same
    simp [names_entryPoints emitted]
  have shimNames : p.callbacks.map (·.shim) = (p.callbacks.map shimOf).map s.entryName := by
    rw [List.map_map]
    exact List.map_congr_left shims
  simp only [definedNames, plannedFunctions, entries_append, entries_lines, entries_entry,
    entries_flatten, entries_line, entries_nil, List.nil_append, List.append_nil, List.map_append,
    names_layoutEntry layoutMade, members, shimNames, List.append_assoc]

theorem owner_of_defines {i : Interface} {f : NativeFunction} (h : i.Defines f) :
    i.name = f.owner := by
  cases f with
  | constructor => exact h.1
  | destructor => exact h.1
  | method => exact h.1
  | getter => exact h.1
  | setter => exact h.1
  | shim => exact h.elim
  | layoutQuery => exact h.elim

/-- What generating bindings leaves behind, as far as names depend on it. -/
structure Planned (s : Session) (p : Progress) : Prop where
  callbacks : List.Forall₂ (fun c plan => (s.callbackPlan c).outcome = .ok plan)
    s.declarations.callbacks p.callbacks
  interfaceNames : (p.plans.map (·.interface.name)).Nodup
  interfaces : ∀ plan ∈ p.plans, plan.interface ∈ s.declarations.interfaces ∧
    plan.functions.Nodup ∧ ∀ f, f ∈ plan.functions ↔ plan.interface.Defines f
  all : ∀ i ∈ s.declarations.interfaces, ∃ plan ∈ p.plans, plan.interface = i
  slots : p.slots = [] ↔ s.declarations.valueTypes = []

theorem planned_of_generate (generated : s.generate.runFrom {} = (.ok b, p)) : s.Planned p := by
  obtain ⟨script, native, prepared, -⟩ := runFrom_generate_eq_ok_iff.1 generated
  obtain ⟨callbacks, ordered, found, plans⟩ := prepare_tables prepared
  have fits : s.TableFits p := by
    have kept := (invariant_tableFits.generate {} s.sound_empty s.tableFits_empty).2
    rwa [generated] at kept
  refine ⟨callbacks, ?_, ?_, ?_, ?_⟩
  · have same := map_eq_of_forall₂ (f := (·.name)) (g := (·.interface.name)) plans
      fun _ _ planned => congrArg _ (outcome_planInterface_eq_ok_iff.1 planned).1.symm
    rw [← same]
    exact nodup_orderInterfaces found
  · intro plan member
    obtain ⟨declared, planned⟩ := (mem_plans_iff generated).1 member
    exact ⟨declared, functions_of_planInterface planned⟩
  · intro i declared
    obtain ⟨plan, member, planned⟩ :=
      exists_of_forall₂ plans.flip ((mem_orderInterfaces found).2 declared)
    exact ⟨plan, member, (outcome_planInterface_eq_ok_iff.1 planned).1⟩
  · have layouts := prepare_layouts prepared
    constructor
    · intro none
      have empty : p.layouts = [] := by
        cases made : p.layouts with
        | nil => rfl
        | cons l rest =>
          have size := fits.sizes l (by simp [made])
          rw [none] at size
          cases size
      rw [← layouts, empty]
      rfl
    · intro none
      cases made : p.slots with
      | nil => rfl
      | cons slot rest =>
        obtain ⟨v, declared⟩ := fits.owned slot (by simp [made])
        have member := (valueType?_eq_some_iff.1 declared).1
        rw [none] at member
        cases member

theorem Planned.shims (h : s.Planned p) :
    ∀ plan ∈ p.callbacks, plan.shim = s.entryName (shimOf plan) := by
  intro plan member
  obtain ⟨c, -, planned⟩ := exists_of_forall₂ h.callbacks member
  obtain ⟨rfl, named, -⟩ := outcome_callbackPlan_eq_ok_iff.1 planned
  exact named

theorem Planned.nodup (h : s.Planned p) : (plannedFunctions p).Nodup := by
  have shims : (p.callbacks.map shimOf).Nodup := by
    refine List.Nodup.of_map NativeFunction.owner ?_
    have same := map_callback_of_plans h.callbacks
    have names : (p.callbacks.map shimOf).map NativeFunction.owner =
        s.declarations.callbacks.map (·.name) := by
      rw [← same, List.map_map, List.map_map]
      rfl
    rw [names]
    exact s.callback_names_nodup
  have members : (p.plans.flatMap InterfacePlan.functions).Nodup := by
    rw [List.nodup_flatMap]
    refine ⟨fun plan member => (h.interfaces plan member).2.1, ?_⟩
    refine List.Pairwise.imp_of_mem ?_ (List.pairwise_map.1 h.interfaceNames)
    intro plan other member member' apart f here there
    have owner := owner_of_defines (((h.interfaces plan member).2.2 f).1 here)
    have owner' := owner_of_defines (((h.interfaces other member').2.2 f).1 there)
    exact apart (owner.trans owner'.symm)
  have query : (if p.slots = [] then [] else [NativeFunction.layoutQuery]).Nodup := by
    split <;> simp
  refine List.nodup_append'.2 ⟨List.nodup_append'.2 ⟨shims, query, ?_⟩, members, ?_⟩
  · intro f
    cases f <;> simp [shimOf]
  · intro f here there
    obtain ⟨plan, member, inside⟩ := List.mem_flatMap.1 there
    have defined := ((h.interfaces plan member).2.2 f).1 inside
    cases f with
    | shim => exact defined
    | layoutQuery => exact defined
    | _ => simp [shimOf] at here

theorem Planned.mem_flatMap_iff (h : s.Planned p) (f : NativeFunction) :
    f ∈ p.plans.flatMap InterfacePlan.functions ↔ ∃ i ∈ s.declarations.interfaces, i.Defines f := by
  rw [List.mem_flatMap]
  constructor
  · rintro ⟨plan, member, inside⟩
    obtain ⟨declared, -, same⟩ := h.interfaces plan member
    exact ⟨plan.interface, declared, (same f).1 inside⟩
  · rintro ⟨i, declared, defined⟩
    obtain ⟨plan, member, rfl⟩ := h.all i declared
    exact ⟨plan, member, ((h.interfaces plan member).2.2 f).2 defined⟩

theorem Planned.mem_shims_iff (h : s.Planned p) (name : String) (n : Nat) :
    .shim name n ∈ p.callbacks.map shimOf ↔ s.Defines (.shim name n) := by
  have same := map_callback_of_plans h.callbacks
  rw [Defines, ← same]
  simp [shimOf]

/-- The functions of all plans are those that the declarations ask for. -/
theorem Planned.mem_iff (h : s.Planned p) (f : NativeFunction) :
    f ∈ plannedFunctions p ↔ s.Defines f := by
  rw [plannedFunctions, List.mem_append, List.mem_append, h.mem_flatMap_iff]
  cases f with
  | shim name n =>
    rw [h.mem_shims_iff]
    simp [Interface.Defines]
  | layoutQuery => simp [Interface.Defines, Defines, shimOf, h.slots]
  | _ => simp [Defines, shimOf]

/-! ## When names are distinct -/

theorem entryName_eq_iff {f g : NativeFunction} :
    s.entryName f = s.entryName g ↔ f.label = g.label ∧ f.arity = g.arity :=
  s.options.mangle_eq_iff

/-- Names of which no two give native functions of one name. -/
structure PlainNames (s : Session) : Prop where
  interfaces : ∀ i ∈ s.declarations.interfaces, PlainName i.name
  callbacks : ∀ c ∈ s.declarations.callbacks, PlainName c.name
  operations : ∀ i ∈ s.declarations.interfaces, ∀ op ∈ i.operations,
    op.name ≠ i.name ∧ ¬ "__".toList <+: op.name.toList

theorem PlainNames.plain (h : s.PlainNames) {f : NativeFunction} (defined : s.Defines f) :
    f.Plain := by
  cases f with
  | layoutQuery => trivial
  | shim name n =>
    obtain ⟨c, declared, rfl, -⟩ := defined
    exact h.callbacks c declared
  | method owner name n =>
    obtain ⟨i, declared, rfl, op, member, rfl, -⟩ := defined
    exact ⟨h.interfaces i declared, h.operations i declared op member⟩
  | _ =>
    obtain ⟨i, declared, rfl, -⟩ := defined
    exact h.interfaces i declared

/-- Names are distinct if no two functions of one arity read the same in one piece. -/
theorem nodup_definedNames_iff {native : List NativePart}
    (generated : s.generate.runFrom {} = (.ok b, p))
    (natived : s.nativeParts p p.plans = .ok native) :
    (definedNames p native).Nodup ↔
      ∀ f g, s.Defines f → s.Defines g → f.arity = g.arity → f.label = g.label → f = g := by
  have planned := planned_of_generate generated
  rw [definedNames_eq natived planned.shims, List.nodup_map_iff_inj_on planned.nodup]
  simp only [planned.mem_iff]
  constructor
  · intro injective f g hf hg arity label
    exact injective f hf g hg (entryName_eq_iff.2 ⟨label, arity⟩)
  · intro told f hf g hg same
    obtain ⟨label, arity⟩ := entryName_eq_iff.1 same
    exact told f g hf hg arity label

/-- The native functions that the lines of an output define are those that the declarations ask for,
each once, and two of them share a name exactly if they share an arity and owner and member read the
same in one piece. In particular, plain names keep them apart. -/
theorem entry_names_distinct_iff {b : Bindings} {p : Progress}
    (generated : s.generate.runFrom {} = (.ok b, p)) :
    ∃ (native : List NativePart) (functions : List NativeFunction),
      s.nativeParts p p.plans = .ok native ∧
      b.native = "\n".intercalate (native.flatMap NativePart.lines) ∧
      Composed OutsideLine NamedBlock (native.flatMap NativePart.lines) (definedNames p native) ∧
      functions.Nodup ∧ (∀ f, f ∈ functions ↔ s.Defines f) ∧
      definedNames p native = functions.map (fun f => s.mangle f.owner f.member f.arity) ∧
      ((definedNames p native).Nodup ↔ ∀ f g, s.Defines f → s.Defines g →
        f.arity = g.arity → f.owner ++ "_" ++ f.member = g.owner ++ "_" ++ g.member → f = g) ∧
      (s.PlainNames → (definedNames p native).Nodup) := by
  have planned := planned_of_generate generated
  obtain ⟨script, native, -, -, natived, rfl⟩ := runFrom_generate_eq_ok_iff.1 generated
  have apart := nodup_definedNames_iff generated natived
  refine ⟨native, plannedFunctions p, natived, rfl, composed_definedNames natived, planned.nodup,
    planned.mem_iff, definedNames_eq natived planned.shims, apart, ?_⟩
  intro plain
  exact apart.2 fun f g hf hg arity label => (plain.plain hf).injective (plain.plain hg) label arity

theorem widgets_entry_names_distinct :
    ∃ b p, widgets.generate.runFrom {} = (.ok b, p) ∧
      ∃ native, widgets.nativeParts p p.plans = .ok native ∧ (definedNames p native).Nodup := by
  obtain ⟨b, p, generated⟩ :=
    ExceptT.exists_runFrom_of_isSome (x := widgets.generate) (p := {}) (by decide +kernel)
  obtain ⟨native, functions, natived, -, -, -, -, -, -, distinct⟩ :=
    entry_names_distinct_iff generated
  refine ⟨b, p, generated, native, natived, distinct ⟨?_, ?_, ?_⟩⟩
  · simp [widgets, PlainName]
  · simp [widgets, PlainName]
  · simp [widgets]

/-- Two interfaces of which one is called like the other with the beginning of an operation. -/
def branching : Session where
  declarations :=
    { interfaces :=
        [{ name := "Tree"
           operations := [{ name := "leaf_count", returnType := { name := "long" } }] },
         { name := "Tree_leaf"
           operations := [{ name := "count", returnType := { name := "long" } }] }] }
  options := {}
  distinct := by decide

/-- Bindings are generated although two of their native functions have the same name. -/
theorem branching_entry_names_clash :
    ∃ b p native, branching.generate.runFrom {} = (.ok b, p) ∧
      branching.nativeParts p p.plans = .ok native ∧
      b.native = "\n".intercalate (native.flatMap NativePart.lines) ∧
      Composed OutsideLine NamedBlock (native.flatMap NativePart.lines) (definedNames p native) ∧
      ¬ (definedNames p native).Nodup := by
  obtain ⟨b, p, generated⟩ :=
    ExceptT.exists_runFrom_of_isSome (x := branching.generate) (p := {}) (by decide +kernel)
  obtain ⟨script, native, -, -, natived, rfl⟩ := runFrom_generate_eq_ok_iff.1 generated
  refine ⟨_, p, native, generated, natived, rfl, composed_definedNames natived, fun distinct => ?_⟩
  have same := (nodup_definedNames_iff generated natived).1 distinct (.method "Tree" "leaf_count" 0)
    (.method "Tree_leaf" "count" 0) (by simp [Defines, Interface.Defines, branching, arityRange])
    (by simp [Defines, Interface.Defines, branching, arityRange]) rfl (by decide)
  exact absurd same (by decide)

end Session

end NativeBridge
