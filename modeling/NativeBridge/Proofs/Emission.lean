import NativeBridge.Proofs.Bridge
import NativeBridge.Proofs.OffsetTable

/-!
# When a prepared session can be emitted

Emission looks up callbacks, layouts and declarations by name, and asks marshalings for types that
not all of them have. Preparation has seen to all of this but for one thing: it accepts a read-only
attribute of type `void`, which has no value to read. A prepared session is emitted unless it has
such an attribute, and then both sides fail.
-/
namespace NativeBridge

/-! ## Failures of one kind -/

/-- A check that fails only in a given way. -/
def FailsOnly {α : Type} (P : Failure → Prop) (x : Except Failure α) : Prop :=
  ∀ failure, x = .error failure → P failure

namespace FailsOnly

variable {α β : Type} {P : Failure → Prop}

theorem of_ok {x : Except Failure α} (h : ∃ a, x = .ok a) : FailsOnly P x := by
  obtain ⟨a, rfl⟩ := h
  intro failure failed
  cases failed

theorem bind {x : Except Failure α} {f : α → Except Failure β} (hx : FailsOnly P x)
    (hf : ∀ a, FailsOnly P (f a)) : FailsOnly P (x >>= f) := by
  intro failure failed
  cases x with
  | error e =>
    have same : (.error e : Except Failure β) = .error failure := failed
    cases same
    exact hx failure rfl
  | ok a => exact hf a failure failed

theorem bind_ok {x : Except Failure α} {f : α → Except Failure β} {a : α} (hx : x = .ok a)
    (hf : FailsOnly P (f a)) : FailsOnly P (x >>= f) := by
  rw [hx]
  exact hf

theorem mapM {f : α → Except Failure β} {items : List α} (hf : ∀ a ∈ items, FailsOnly P (f a)) :
    FailsOnly P (items.mapM f) := by
  induction items with
  | nil => exact of_ok ⟨[], rfl⟩
  | cons a rest ih =>
    rw [List.forall_mem_cons] at hf
    rw [List.mapM_cons]
    exact hf.1.bind fun b => (ih hf.2).bind fun others => of_ok ⟨_, rfl⟩

theorem mono {Q : Failure → Prop} {x : Except Failure α} (hx : FailsOnly P x)
    (weaker : ∀ failure, P failure → Q failure) : FailsOnly Q x :=
  fun failure failed => weaker failure (hx failure failed)

end FailsOnly

theorem exists_mapM {α β : Type} {f : α → Except Failure β} {items : List α}
    (h : ∀ a ∈ items, ∃ b, f a = .ok b) : ∃ found, items.mapM f = .ok found := by
  obtain ⟨found, all⟩ := exists_forall₂_iff.2 h
  exact ⟨found, except_mapM_eq_ok_iff.2 all⟩

namespace Session

variable {s : Session} {p : Progress} {plans : List InterfacePlan}

/-! ## What plans promise -/

/-- A marshaling that was found for an argument. -/
def Argued (s : Session) (m : Marshaling) : Prop :=
  ∃ e flags, (s.argument e flags).outcome = .ok m

/-- A group whose arguments can be passed and whose result can be returned. -/
structure Sendable (s : Session) (g : OverloadGroup) : Prop where
  arguments : ∀ o ∈ g.overloads, ∀ a ∈ o.arguments, s.Argued a.marshaling
  result : ∃ text, resultType g.returns = .ok text

theorem exists_resultType {d : Option Descriptor} {r : Option Marshaling} (h : s.result d = .ok r) :
    ∃ text, resultType r = .ok text := by
  cases d with
  | none =>
    cases h
    exact ⟨"void", rfl⟩
  | some d =>
    obtain ⟨m, -, back, rfl⟩ := result_some_eq_ok_iff.1 h
    obtain ⟨text, returned⟩ := m.returnType_ok_iff.2 back
    exact ⟨text, by rw [resultType, returned]; rfl⟩

theorem Sendable.addVariant {callable : Callable} {nativeName : String} {g h : OverloadGroup}
    {variant : List Argument} (before : s.Sendable g)
    (added : (s.addVariant callable nativeName g variant).outcome = .ok h) : s.Sendable h := by
  obtain ⟨planned, all, -, rfl⟩ := outcome_addVariant_eq_ok_iff.1 added
  refine ⟨fun o member a argument => ?_, before.result⟩
  rcases List.mem_cons.1 ((Overload.insert_perm _ _).mem_iff.1 member) with rfl | old
  · obtain ⟨written, -, -, passed⟩ := exists_of_forall₂ all argument
    exact ⟨_, _, passed⟩
  · exact before.arguments o old a argument

theorem Sendable.addVariants {callable : Callable} {nativeName : String} {g h : OverloadGroup}
    {arguments : List Argument} (before : s.Sendable g)
    (added : (s.addVariants callable nativeName g arguments).outcome = .ok h) : s.Sendable h := by
  rw [Session.addVariants, Steady.outcome_foldlM (steady_addVariant callable nativeName)] at added
  exact foldlM_invariant (fun _ => s.Sendable) (fun _ _ _ _ _ _ kept taken => kept.addVariant taken)
    before added

theorem sendable_planConstructors {i : Interface} {g : OverloadGroup}
    (planned : (s.planConstructors i).outcome = .ok g) : s.Sendable g := by
  refine foldlM_invariant
    (fun _ => s.Sendable) (fun _ _ _ _ _ _ kept taken => kept.addVariants taken)
    ?_ (outcome_planConstructors_eq_ok_iff.1 planned)
  exact ⟨List.forall_mem_nil _, "void", rfl⟩

theorem sendable_groupFor {groups : List OverloadGroup} {op : Operation} {d : Option Descriptor}
    {r : Option Marshaling} (before : ∀ g ∈ groups, s.Sendable g) (returned : s.result d = .ok r) :
    s.Sendable (groupFor groups op d r) := by
  rw [groupFor]
  cases found : groups.find? (·.name = op.name) with
  | none => exact ⟨List.forall_mem_nil _, exists_resultType returned⟩
  | some g => exact before g (List.mem_of_find?_eq_some found)

theorem sendable_planOperations {i : Interface} {groups : List OverloadGroup}
    (planned : (s.planOperations i).outcome = .ok groups) : ∀ g ∈ groups, s.Sendable g := by
  refine foldlM_invariant (fun _ groups => ∀ g ∈ groups, s.Sendable g) ?_ (List.forall_mem_nil _)
    (outcome_planOperations_eq_ok_iff.1 planned)
  intro done op rest groups groups' _ before taken g member
  obtain ⟨-, d, r, ⟨-, returned⟩, -, -, joined, added, rfl⟩ :=
    outcome_planOperation_eq_ok_iff.1 taken
  rcases mem_putGroup member with rfl | old
  · exact (sendable_groupFor before returned).addVariants added
  · exact before g old

/-! ## Entry points -/

/-- Whatever is passed to an entry point can be handed to native code once all callbacks are
planned. -/
theorem Complete.exists_nativeArgument (h : s.Complete plans p) {m : Marshaling}
    (argued : s.Argued m) (var : String) : ∃ text, m.nativeArgument p.callbacks var = .ok text := by
  obtain ⟨e, flags, passed⟩ := argued
  obtain ⟨d, resolved, found⟩ := outcome_argument_eq_ok_iff.1 passed
  have known : s.scope.Declares m.base := classify_base found ▸ (Scope.meaningIn_some resolved).2
  cases m with
  | callback name flags nullable =>
    obtain ⟨c, declared, rfl⟩ := List.mem_map.1 known
    obtain ⟨plan, member, rfl⟩ := List.mem_map.1 (h.callbacks c declared)
    obtain ⟨b, bridge⟩ := exists_bridge (h.accurate.callbacks plan member).2
    refine ⟨b.callable var nullable, ?_⟩
    rw [Marshaling.nativeArgument, h.accurate.find?_callback member]
    simp only [bridge.nativeCallable]
    rfl
  | scalar | string | sequence | interface | sharedInterface | valueType => exact ⟨_, rfl⟩

theorem Complete.exists_nativeArguments (h : s.Complete plans p) {o : Overload}
    (argued : ∀ a ∈ o.arguments, s.Argued a.marshaling) :
    ∃ text, o.nativeArguments p.callbacks = .ok text := by
  obtain ⟨passed, all⟩ := exists_mapM fun t (member : t ∈ o.arguments.zipIdx) =>
    h.exists_nativeArgument (argued t.1 (List.fst_mem_of_mem_zipIdx member)) (argumentName t.2)
  exact ⟨commaSeparated passed, except_bind_eq_ok_iff.2 ⟨passed, all, rfl⟩⟩

theorem Complete.exists_constructorEntry (h : s.Complete plans p) {i : Interface}
    {g : OverloadGroup} (sendable : s.Sendable g) {o : Overload} (member : o ∈ g.overloads) :
    ∃ entry, s.constructorEntry p.callbacks i o = .ok entry := by
  obtain ⟨arguments, passed⟩ := h.exists_nativeArguments (sendable.arguments o member)
  exact ⟨_, except_bind_eq_ok_iff.2 ⟨arguments, passed, rfl⟩⟩

theorem Complete.exists_methodEntry (h : s.Complete plans p) {i : Interface} {g : OverloadGroup}
    (sendable : s.Sendable g) {o : Overload} (member : o ∈ g.overloads) :
    ∃ entry, s.methodEntry p.callbacks i g o = .ok entry := by
  obtain ⟨arguments, passed⟩ := h.exists_nativeArguments (sendable.arguments o member)
  obtain ⟨type, returned⟩ := sendable.result
  exact ⟨_,
    except_bind_eq_ok_iff.2 ⟨type, returned, except_bind_eq_ok_iff.2 ⟨arguments, passed, rfl⟩⟩⟩

/-! ## Attributes -/

/-- A read-only attribute of a declared interface that has no value to read. -/
structure VoidAttribute (s : Session) (i : Interface) (a : Attribute) : Prop where
  declared : i ∈ s.declarations.interfaces
  member : a ∈ i.attributes
  readOnly : a.readOnly = true
  void : s.scope.meaning a.type a.flags = .ok none

/-- The failure at an attribute of an interface that has no value to read. -/
def VoidFailureIn (s : Session) (i : Interface) (failure : Failure) : Prop :=
  ∃ a, s.VoidAttribute i a ∧ failure = .voidAttribute i.name a.name

/-- The failure at an attribute of any interface that has no value to read. -/
def VoidFailure (s : Session) (failure : Failure) : Prop :=
  ∃ i a, s.VoidAttribute i a ∧ failure = .voidAttribute i.name a.name

section

variable {i : Interface} {a : Attribute} {plan : AttributePlan}

theorem PlansAttribute.getter_eq_none_iff (h : s.PlansAttribute a plan) :
    plan.getter = none ↔ s.scope.meaning a.type a.flags = .ok none := by
  obtain ⟨d, resolved, returned⟩ := h.getter
  rw [resolved]
  cases d with
  | none =>
    have none : none = plan.getter := Except.ok.inj returned
    simp [← none]
  | some d =>
    obtain ⟨m, -, -, found⟩ := result_some_eq_ok_iff.1 returned
    simp [found]

/-- An attribute of type `void` that can be set is refused, so a planned one is read-only. -/
theorem PlansAttribute.readOnly_of_void (h : s.PlansAttribute a plan)
    (void : s.scope.meaning a.type a.flags = .ok none) : a.readOnly = true := by
  by_contra mutable
  have setter := h.setter
  rw [if_neg mutable] at setter
  obtain ⟨m, passed, -⟩ := setter
  obtain ⟨d, resolved, -⟩ := outcome_argument_eq_ok_iff.1 passed
  rw [void] at resolved
  cases resolved

theorem PlansAttribute.exists_returnType {m : Marshaling} (h : s.PlansAttribute a plan)
    (getter : plan.getter = some m) :
    ∃ text, m.returnType.mapError Failure.unmarshalable = .ok text := by
  obtain ⟨d, -, returned⟩ := h.getter
  rw [getter] at returned
  exact exists_resultType returned

/-- A setter passes what an argument of the type of its attribute passes. -/
theorem PlansAttribute.outcome_setter {m : Marshaling} (h : s.PlansAttribute a plan)
    (setter : plan.setter = some m) : (s.argument a.type a.flags).outcome = .ok m := by
  have made := h.setter
  rw [setter] at made
  split at made
  · cases made
  · obtain ⟨m', passed, same⟩ := made
    cases same
    exact passed

theorem voidFailure_of_getter (declared : i ∈ s.declarations.interfaces)
    (member : a ∈ i.attributes) (planned : s.PlansAttribute a plan) (getter : plan.getter = none) :
    s.VoidFailureIn i (.voidAttribute i.name plan.decl.name) := by
  have void := planned.getter_eq_none_iff.1 getter
  exact ⟨a, ⟨declared, member, planned.readOnly_of_void void, void⟩, by rw [planned.decl]⟩

theorem failsOnly_getterMember (declared : i ∈ s.declarations.interfaces)
    (member : a ∈ i.attributes) (planned : s.PlansAttribute a plan) :
    FailsOnly (s.VoidFailureIn i) (s.getterMember i plan) := by
  rw [getterMember]
  cases getter : plan.getter with
  | none =>
    intro failure failed
    cases failed
    exact voidFailure_of_getter declared member planned getter
  | some m => exact .of_ok ⟨_, rfl⟩

theorem failsOnly_getterEntry (declared : i ∈ s.declarations.interfaces)
    (member : a ∈ i.attributes) (planned : s.PlansAttribute a plan) :
    FailsOnly (s.VoidFailureIn i) (s.getterEntry i plan) := by
  rw [getterEntry]
  cases getter : plan.getter with
  | none =>
    intro failure failed
    cases failed
    exact voidFailure_of_getter declared member planned getter
  | some m =>
    obtain ⟨text, returned⟩ := planned.exists_returnType getter
    exact .of_ok ⟨_, except_bind_eq_ok_iff.2 ⟨text, returned, rfl⟩⟩

theorem Complete.failsOnly_attributeEntries (h : s.Complete plans p)
    (declared : i ∈ s.declarations.interfaces) (member : a ∈ i.attributes)
    (planned : s.PlansAttribute a plan) :
    FailsOnly (s.VoidFailureIn i) (s.attributeEntries p.callbacks i plan) := by
  refine (failsOnly_getterEntry declared member planned).bind fun getter => ?_
  cases setter : plan.setter with
  | none => exact .of_ok ⟨_, rfl⟩
  | some m =>
    obtain ⟨value, passed⟩ :=
      h.exists_nativeArgument ⟨_, _, planned.outcome_setter setter⟩ (argumentName 0)
    refine .bind (.of_ok ⟨_, except_bind_eq_ok_iff.2 ⟨value, passed, rfl⟩⟩) fun entry => ?_
    exact .of_ok ⟨_, rfl⟩

end

/-! ## Interfaces -/

theorem Complete.forall_attributes (h : s.Complete plans p) {plan : InterfacePlan}
    (member : plan ∈ plans) :
    List.Forall₂ s.PlansAttribute plan.interface.attributes plan.attributes := by
  obtain ⟨-, -, -, attributes, -⟩ := outcome_planInterface_eq_ok_iff.1 (h.plans plan member).2
  exact plansAttributes_of_outcome attributes

theorem Complete.failsOnly_scriptClass (h : s.Complete plans p) {plan : InterfacePlan}
    (member : plan ∈ plans) : FailsOnly (s.VoidFailureIn plan.interface) (s.scriptClass plan) := by
  refine .bind (.mapM fun accessors there => ?_) fun _ => .of_ok ⟨_, rfl⟩
  obtain ⟨a, declared, planned⟩ := exists_of_forall₂ (h.forall_attributes member) there
  exact (failsOnly_getterMember (h.plans plan member).1 declared planned).bind fun _ =>
    .of_ok ⟨_, rfl⟩

theorem Complete.failsOnly_interfaceParts (h : s.Complete plans p) {plan : InterfacePlan}
    (member : plan ∈ plans) :
    FailsOnly (s.VoidFailureIn plan.interface) (s.interfaceParts p.callbacks plan) := by
  obtain ⟨-, constructors, methods, -, -⟩ :=
    outcome_planInterface_eq_ok_iff.1 (h.plans plan member).2
  have sendable := sendable_planConstructors constructors
  have sendables := sendable_planOperations methods
  refine .bind ?_ fun _ => .of_ok ⟨_, rfl⟩
  refine .bind (.of_ok (exists_mapM fun o there =>
    h.exists_constructorEntry sendable there)) fun _ => ?_
  refine .bind (.of_ok (exists_mapM fun g there => exists_mapM fun o inside =>
    h.exists_methodEntry (sendables g there) inside)) fun _ => ?_
  refine .bind (.mapM fun accessors there => ?_) fun _ => .of_ok ⟨_, rfl⟩
  obtain ⟨a, declared, planned⟩ := exists_of_forall₂ (h.forall_attributes member) there
  exact h.failsOnly_attributeEntries (h.plans plan member).1 declared planned

/-! ## Records -/

theorem mem_appendNew {ordered more : List ValueType} {v : ValueType}
    (member : v ∈ appendNew ordered more) : v ∈ ordered ∨ v ∈ more := by
  rw [appendNew] at member
  induction more generalizing ordered with
  | nil => exact .inl member
  | cons first rest ih =>
    rw [List.foldl_cons] at member
    rcases ih member with old | later
    · split at old
      · exact .inl old
      · rcases List.mem_append.1 old with old | new
        · exact .inl old
        · rw [List.mem_singleton.1 new]
          exact .inr List.mem_cons_self
    · exact .inr (List.mem_cons_of_mem _ later)

/-- The order of the records is found, and all in it are declared. -/
theorem exists_recordsOrder {layouts : List RecordLayout}
    (known : ∀ l ∈ layouts, l.valueType ∈ s.declarations.valueTypes ∧
      ∃ owners, s.lineage l.valueType = .ok owners) :
    ∃ order, s.recordsOrder layouts = .ok order ∧ ∀ v ∈ order, v ∈ s.declarations.valueTypes := by
  suffices general : ∀ ordered : List ValueType, (∀ v ∈ ordered, v ∈ s.declarations.valueTypes) →
      ∃ order, layouts.foldlM (fun ordered layout => do
        return appendNew ordered (← s.lineage layout.valueType).reverse) ordered = .ok order ∧
        ∀ v ∈ order, v ∈ s.declarations.valueTypes from general [] (List.forall_mem_nil _)
  induction layouts with
  | nil => exact fun ordered declared => ⟨ordered, rfl, declared⟩
  | cons l rest ih =>
    rw [List.forall_mem_cons] at known
    obtain ⟨⟨declared, owners, walked⟩, others⟩ := known
    intro ordered before
    have next : ∀ v ∈ appendNew ordered owners.reverse, v ∈ s.declarations.valueTypes := by
      intro v member
      rcases mem_appendNew member with old | new
      · exact before v old
      · exact (ancestry_of_lineage walked).declared declared v (List.mem_reverse.1 new)
    obtain ⟨order, found, all⟩ := ih others _ next
    refine ⟨order, ?_, all⟩
    rw [List.foldlM_cons, walked]
    exact found

theorem Complete.exists_records (h : s.Complete plans p) :
    ∃ order records, s.recordsOrder p.layouts = .ok order ∧
      order.mapM (scriptRecord p.layouts) = .ok records := by
  have known : ∀ l ∈ p.layouts, l.valueType ∈ s.declarations.valueTypes ∧
      ∃ owners, s.lineage l.valueType = .ok owners := by
    intro l layout
    obtain ⟨declared, verdict⟩ := h.accurate.records l.valueType (List.mem_map_of_mem layout)
    obtain ⟨owners, walked, -⟩ := except_bind_eq_ok_iff.1 verdict
    exact ⟨declared, owners, walked⟩
  obtain ⟨order, found, declared⟩ := exists_recordsOrder known
  obtain ⟨records, made⟩ :=
      exists_mapM (f := scriptRecord p.layouts) fun v (member : v ∈ order) => by
    obtain ⟨l, layout, same⟩ := List.mem_map.1 (h.records v (declared v member))
    cases there : p.layouts.find? (·.valueType.name = v.name) with
    | none =>
      exact absurd (List.mem_map.2 ⟨l, layout, by rw [same]⟩) (find?_name_eq_none_iff.1 there)
    | some l' =>
      refine ⟨l'.lines v, ?_⟩
      rw [scriptRecord, there]
  exact ⟨order, records, found, made⟩

/-! ## Both texts -/

theorem Complete.failsOnly_scriptParts (h : s.Complete plans p) :
    FailsOnly s.VoidFailure (s.scriptParts p plans) := by
  obtain ⟨order, records, found, made⟩ := h.exists_records
  refine .bind_ok found (.bind_ok made ?_)
  refine .bind (.mapM fun plan member => ?_) fun _ => .of_ok ⟨_, rfl⟩
  exact (h.failsOnly_scriptClass member).mono fun _ failed => ⟨plan.interface, failed⟩

theorem Complete.failsOnly_nativeParts (h : s.Complete plans p) (fits : s.TableFits p) :
    FailsOnly s.VoidFailure (s.nativeParts p plans) := by
  have shims : ∃ lines, p.callbacks.mapM CallbackPlan.nativeLines = .ok lines := by
    refine exists_mapM fun plan member => ?_
    obtain ⟨b, bridge⟩ := exists_bridge (h.accurate.callbacks plan member).2
    exact ⟨b.shimLines, bridge.nativeLines⟩
  have layout : ∃ entry, s.layoutEntry p.slots = .ok entry := by
    obtain ⟨rows, answered⟩ := fits.exists_rows
    have made := except_mapM_eq_ok_iff.2 (answered.imp fun _ _ => slotRow_eq_ok_iff.2)
    rw [layoutEntry]
    split
    · exact ⟨none, rfl⟩
    · exact ⟨_, except_bind_eq_ok_iff.2 ⟨rows, made, rfl⟩⟩
  refine .bind (.of_ok shims) fun _ => .bind (.of_ok layout) fun _ => ?_
  refine .bind (.mapM fun plan member => ?_) fun _ => .of_ok ⟨_, rfl⟩
  exact (h.failsOnly_interfaceParts member).mono fun _ failed => ⟨plan.interface, failed⟩

/-- An attribute without a value to read is planned without a getter. -/
theorem Complete.exists_accessors_of_void (h : s.Complete plans p) {plan : InterfacePlan}
    (member : plan ∈ plans) {a : Attribute} (void : s.VoidAttribute plan.interface a) :
    ∃ accessors ∈ plan.attributes, accessors.getter = none := by
  obtain ⟨accessors, there, planned⟩ :=
    exists_of_forall₂ (h.forall_attributes member).flip void.member
  exact ⟨accessors, there, planned.getter_eq_none_iff.2 void.void⟩

theorem Complete.scriptClass_ne_ok (h : s.Complete plans p) {plan : InterfacePlan}
    (member : plan ∈ plans) {a : Attribute} (void : s.VoidAttribute plan.interface a)
    (c : ScriptClass) : s.scriptClass plan ≠ .ok c := by
  intro emitted
  obtain ⟨accessors, there, getter⟩ := h.exists_accessors_of_void member void
  obtain ⟨members, each, -⟩ := except_bind_eq_ok_iff.1 emitted
  obtain ⟨written, -, emitted⟩ := exists_of_forall₂ (except_mapM_eq_ok_iff.1 each).flip there
  obtain ⟨read, found, -⟩ := except_bind_eq_ok_iff.1 emitted
  rw [getterMember, getter] at found
  cases found

theorem Complete.scriptParts_ne_ok (h : s.Complete plans p) {i : Interface} {a : Attribute}
    (void : s.VoidAttribute i a) (parts : List ScriptPart) : s.scriptParts p plans ≠ .ok parts := by
  intro made
  obtain ⟨plan, member, rfl⟩ := h.interfaces i void.declared
  obtain ⟨order, -, rest⟩ := except_bind_eq_ok_iff.1 made
  obtain ⟨records, -, rest⟩ := except_bind_eq_ok_iff.1 rest
  obtain ⟨classes, all, -⟩ := except_bind_eq_ok_iff.1 rest
  obtain ⟨c, -, emitted⟩ := exists_of_forall₂ (except_mapM_eq_ok_iff.1 all).flip member
  exact h.scriptClass_ne_ok member void c emitted

theorem Complete.nativeParts_ne_ok (h : s.Complete plans p) {i : Interface} {a : Attribute}
    (void : s.VoidAttribute i a) (parts : List NativePart) : s.nativeParts p plans ≠ .ok parts := by
  intro made
  obtain ⟨plan, member, rfl⟩ := h.interfaces i void.declared
  obtain ⟨accessors, there, getter⟩ := h.exists_accessors_of_void member void
  obtain ⟨shims, -, rest⟩ := except_bind_eq_ok_iff.1 made
  obtain ⟨layout, -, rest⟩ := except_bind_eq_ok_iff.1 rest
  obtain ⟨interfaces, all, -⟩ := except_bind_eq_ok_iff.1 rest
  obtain ⟨part, -, emitted⟩ := exists_of_forall₂ (except_mapM_eq_ok_iff.1 all).flip member
  obtain ⟨entries, points, -⟩ := except_bind_eq_ok_iff.1 emitted
  obtain ⟨constructors, -, rest⟩ := except_bind_eq_ok_iff.1 points
  obtain ⟨methods, -, rest⟩ := except_bind_eq_ok_iff.1 rest
  obtain ⟨attributes, each, -⟩ := except_bind_eq_ok_iff.1 rest
  obtain ⟨written, -, emitted⟩ := exists_of_forall₂ (except_mapM_eq_ok_iff.1 each).flip there
  obtain ⟨read, found, -⟩ := except_bind_eq_ok_iff.1 emitted
  rw [getterEntry, getter] at found
  cases found

/-- A text fails exactly for attributes without a value to read. -/
theorem exists_error_iff_void {α : Type} {x : Except Failure α} (only : FailsOnly s.VoidFailure x)
    (fails : ∀ i a, s.VoidAttribute i a → ∀ made, x ≠ .ok made) :
    (∃ failure, x = .error failure) ↔ ∃ i a, s.VoidAttribute i a := by
  constructor
  · rintro ⟨failure, failed⟩
    obtain ⟨i, a, void, -⟩ := only failure failed
    exact ⟨i, a, void⟩
  · rintro ⟨i, a, void⟩
    cases ends : x with
    | error failure => exact ⟨failure, rfl⟩
    | ok made => exact absurd ends (fails i a void made)

/-- Whatever was asked of a session before it was prepared, emitting each of its texts fails exactly
if it has a read-only attribute of type `void`, and no failure is about anything else. Otherwise
both texts are generated. -/
theorem emission_fails_iff_void_attribute {requests : List Request}
    (prepared : s.prepare.runFrom (s.after requests) = (.ok plans, p)) :
    ((∃ failure, s.scriptParts p plans = .error failure) ↔ ∃ i a, s.VoidAttribute i a) ∧
      ((∃ failure, s.nativeParts p plans = .error failure) ↔ ∃ i a, s.VoidAttribute i a) ∧
      (∀ failure, s.scriptParts p plans = .error failure ∨ s.nativeParts p plans = .error failure →
        ∃ i a, s.VoidAttribute i a ∧ failure = .voidAttribute i.name a.name) ∧
      ((∃ bindings, s.generate.runFrom (s.after requests) = (.ok bindings, p)) ↔
        ¬ ∃ i a, s.VoidAttribute i a) := by
  have complete := complete_of_prepare prepared
  have fits : s.TableFits p := by
    obtain ⟨sound, fits⟩ := (invariant_tableFits (s := s)).after requests
    have kept := (invariant_tableFits.prepare _ sound fits).2
    rwa [prepared] at kept
  have script := complete.failsOnly_scriptParts
  have native := complete.failsOnly_nativeParts fits
  have scriptFails := exists_error_iff_void script fun i a => complete.scriptParts_ne_ok
  have nativeFails := exists_error_iff_void native fun i a => complete.nativeParts_ne_ok
  refine ⟨scriptFails, nativeFails, ?_, ?_⟩
  · rintro failure (failed | failed)
    · exact script failure failed
    · exact native failure failed
  · rw [runFrom_generate_of_ok prepared]
    constructor
    · rintro ⟨bindings, emitted⟩ ⟨i, a, void⟩
      obtain ⟨parts, made, -⟩ := except_bind_eq_ok_iff.1 (congrArg Prod.fst emitted)
      exact complete.scriptParts_ne_ok void parts made
    · intro readable
      cases madeScript : s.scriptParts p plans with
      | error failure => exact absurd (scriptFails.1 ⟨failure, madeScript⟩) readable
      | ok parts =>
        cases madeNative : s.nativeParts p plans with
        | error failure => exact absurd (nativeFails.1 ⟨failure, madeNative⟩) readable
        | ok more =>
          obtain ⟨bindings, made⟩ : ∃ bindings, s.emitted p plans = .ok bindings :=
            ⟨_, except_bind_eq_ok_iff.2 ⟨parts, madeScript,
              except_bind_eq_ok_iff.2 ⟨more, madeNative, rfl⟩⟩⟩
          exact ⟨bindings, by rw [made]⟩

/-- A beacon with a callback, a record and a reading in its members. -/
def beacons : Session where
  declarations :=
    { interfaces :=
        [{ name := "Beacon", constructors := [[{ name := "at", type := { name := "Place" } }]]
           operations :=
             [{ name := "watch", returnType := { name := "Place" }
                arguments := [{ name := "seen", type := { name := "Seen", nullable := true } }] }]
           attributes := [{ name := "level", type := { name := "Reading" }, readOnly := true },
                          { name := "onSeen", type := { name := "DOMString" } }] }]
      valueTypes := [{ name := "Place", fields := [{ name := "x", type := { name := "float" } }] }]
      callbacks := [{ name := "Seen", returnType := { name := "boolean" }
                      arguments := [{ name := "where", type := { name := "Place" } }] }]
      typedefs := [{ name := "Reading", type := { name := "long" } }] }
  options := {}
  distinct := by decide

/-- The same beacons, whose readings say nothing. -/
def dimBeacons : Session where
  declarations :=
    { beacons.declarations with typedefs := [{ name := "Reading", type := { name := "void" } }] }
  options := {}
  distinct := by decide

theorem beacons_emitted_unless_dim :
    (∃ plans p bindings, beacons.prepare.runFrom (beacons.after [.register "Place"]) =
      (.ok plans, p) ∧
      beacons.generate.runFrom (beacons.after [.register "Place"]) = (.ok bindings, p)) ∧
    ∃ plans p, dimBeacons.prepare.runFrom (dimBeacons.after [.generate]) = (.ok plans, p) ∧
      (∃ failure, dimBeacons.scriptParts p plans = .error failure) ∧
      ∃ failure, dimBeacons.nativeParts p plans = .error failure := by
  constructor
  · obtain ⟨plans, p, prepared⟩ := ExceptT.exists_runFrom_of_isSome (x := beacons.prepare)
      (p := beacons.after [.register "Place"]) (by decide +kernel)
    have told : ∀ i ∈ beacons.declarations.interfaces, ∀ a ∈ i.attributes,
        beacons.scope.meaning a.type a.flags ≠ .ok none := by
      decide +kernel
    have readable : ¬ ∃ i a, beacons.VoidAttribute i a := by
      rintro ⟨i, a, void⟩
      exact told i void.declared a void.member void.void
    obtain ⟨-, -, -, generated⟩ := emission_fails_iff_void_attribute prepared
    obtain ⟨bindings, made⟩ := generated.2 readable
    exact ⟨plans, p, bindings, prepared, made⟩
  · obtain ⟨plans, p, prepared⟩ := ExceptT.exists_runFrom_of_isSome (x := dimBeacons.prepare)
      (p := dimBeacons.after [.generate]) (by decide +kernel)
    have void : ∃ i a, dimBeacons.VoidAttribute i a :=
      ⟨_, _, List.mem_cons_self, List.mem_cons_self, rfl, by decide +kernel⟩
    obtain ⟨script, native, -⟩ := emission_fails_iff_void_attribute prepared
    exact ⟨plans, p, prepared, script.2 void, native.2 void⟩

end Session

end NativeBridge
