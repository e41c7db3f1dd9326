import NativeBridge.Proofs.Overloads

/-!
# When an interface can be planned

The members of an interface are planned one by one. None of this depends on what is planned already,
and an interface can be planned when its members are legal and fit together.
-/
namespace NativeBridge.Session

variable {s : Session}

/-! ## Attributes -/

/-- An attribute is planned as its type says: a getter, and a setter unless it is read-only. -/
structure PlansAttribute (s : Session) (a : Attribute) (plan : AttributePlan) : Prop where
  decl : plan.decl = a
  getter : ∃ d, s.scope.meaning a.type a.flags = .ok d ∧ s.result d = .ok plan.getter
  setter : if a.readOnly then plan.setter = none
    else ∃ m, (s.argument a.type a.flags).outcome = .ok m ∧ plan.setter = some m

/-- The type of an attribute can be returned, and passed unless the attribute is read-only. -/
structure LegalAttribute (s : Session) (a : Attribute) : Prop where
  result : s.LegalResult a.type a.flags
  argument : a.readOnly = false → s.LegalArgument a.type a.flags

theorem exists_plansAttribute_iff {a : Attribute} :
    (∃ plan, s.PlansAttribute a plan) ↔ s.LegalAttribute a := by
  constructor
  · rintro ⟨plan, -, ⟨d, resolved, returned⟩, setter⟩
    refine ⟨exists_result_iff.1 ⟨d, _, resolved, returned⟩, ?_⟩
    intro mutable
    rw [if_neg (by simp [mutable])] at setter
    obtain ⟨m, passed, -⟩ := setter
    exact exists_argument_iff.1 ⟨m, passed⟩
  · rintro ⟨result, argument⟩
    obtain ⟨d, r, resolved, returned⟩ := exists_result_iff.2 result
    cases fixed : a.readOnly with
    | true => exact ⟨⟨a, r, none⟩, rfl, ⟨d, resolved, returned⟩, by simp [fixed]⟩
    | false =>
      obtain ⟨m, passed⟩ := exists_argument_iff.2 (argument fixed)
      exact ⟨⟨a, r, some m⟩, rfl, ⟨d, resolved, returned⟩, by simp [fixed, passed]⟩

theorem steady_planSetter (a : Attribute) : s.Steady (s.planSetter a) := by
  rw [planSetter]
  split
  · exact .pure none
  · exact (steady_argument a.type a.flags).bind fun m => .pure (some m)

theorem outcome_planSetter_eq_ok_iff {a : Attribute} {setter : Option Marshaling} :
    (s.planSetter a).outcome = .ok setter ↔
      if a.readOnly then setter = none
      else ∃ m, (s.argument a.type a.flags).outcome = .ok m ∧ setter = some m := by
  rw [planSetter]
  split
  · rw [Planning.outcome_pure, Except.ok.injEq, eq_comm]
  · refine
      ((steady_argument a.type a.flags).outcome_bind_eq_ok_iff fun m => .pure (some m)).trans ?_
    refine exists_congr fun m => and_congr_right fun _ => ?_
    rw [Planning.outcome_pure, Except.ok.injEq, eq_comm]

theorem steady_planAccessors (a : Attribute) : s.Steady (s.planAccessors a) := by
  refine (steady_resolve a.type a.flags).bind fun d => ?_
  refine (steady_resultOf d).bind fun getter => ?_
  exact (steady_planSetter a).bind fun setter => .pure _

theorem outcome_planAccessors_eq_ok_iff {a : Attribute} {plan : AttributePlan} :
    (s.planAccessors a).outcome = .ok plan ↔ s.PlansAttribute a plan := by
  refine ((steady_resolve a.type a.flags).outcome_bind_eq_ok_iff fun d =>
    (steady_resultOf d).bind fun getter =>
      (steady_planSetter a).bind fun setter => .pure _).trans ?_
  simp only [outcome_resolve, except_mapError_eq_ok_iff]
  constructor
  · rintro ⟨d, resolved, rest⟩
    obtain ⟨getter, returned, rest⟩ := ((steady_resultOf d).outcome_bind_eq_ok_iff
      fun getter => (steady_planSetter a).bind fun setter => .pure _).1 rest
    obtain ⟨setter, passed, same⟩ :=
      ((steady_planSetter a).outcome_bind_eq_ok_iff fun setter => .pure _).1 rest
    cases same
    rw [outcome_resultOf] at returned
    exact ⟨rfl, ⟨d, resolved, returned⟩, outcome_planSetter_eq_ok_iff.1 passed⟩
  · rintro ⟨rfl, ⟨d, resolved, returned⟩, setter⟩
    refine ⟨d, resolved, ((steady_resultOf d).outcome_bind_eq_ok_iff
      fun getter => (steady_planSetter plan.decl).bind fun setter => .pure _).2
        ⟨plan.getter, (outcome_resultOf d).trans returned, ?_⟩⟩
    exact ((steady_planSetter plan.decl).outcome_bind_eq_ok_iff fun setter => .pure _).2
      ⟨plan.setter, outcome_planSetter_eq_ok_iff.2 setter, rfl⟩

theorem steady_planAttribute (i : Interface) (plans : List AttributePlan) (a : Attribute) :
    s.Steady (s.planAttribute i plans a) := by
  rw [planAttribute]
  apply Steady.guard
  exact ((steady_planAccessors a).within _).bind fun plan => .pure _

theorem outcome_planAttribute_eq_ok_iff {i : Interface} {plans plans' : List AttributePlan}
    {a : Attribute} :
    (s.planAttribute i plans a).outcome = .ok plans' ↔
      (∀ plan ∈ plans, plan.decl.name ≠ a.name) ∧
        ∃ plan, s.PlansAttribute a plan ∧ plans' = plans ++ [plan] := by
  rw [planAttribute]
  refine Planning.outcome_guard_eq_ok_iff.trans (and_congr (by simp) ?_)
  refine (((steady_planAccessors a).within _).outcome_bind_eq_ok_iff fun plan => .pure _).trans ?_
  simp only [Planning.outcome_within, except_mapError_eq_ok_iff, outcome_planAccessors_eq_ok_iff]
  refine exists_congr fun plan => and_congr_right fun _ => ?_
  rw [Planning.outcome_pure, Except.ok.injEq, eq_comm]

/-- The plans are those of the attributes done so far. -/
def PlannedAttributes (s : Session) (done : List Attribute) (plans : List AttributePlan) : Prop :=
  List.Forall₂ s.PlansAttribute done plans

theorem PlannedAttributes.add {i : Interface} {done : List Attribute}
    {plans plans' : List AttributePlan} {a : Attribute} (before : s.PlannedAttributes done plans)
    (planned : (s.planAttribute i plans a).outcome = .ok plans') :
    s.PlannedAttributes (done ++ [a]) plans' := by
  obtain ⟨-, plan, last, rfl⟩ := outcome_planAttribute_eq_ok_iff.1 planned
  exact List.rel_append before (.cons last .nil)

theorem PlannedAttributes.step {i : Interface} {done : List Attribute} {plans : List AttributePlan}
    {a : Attribute} (before : s.PlannedAttributes done plans) :
    (∃ plans', (s.planAttribute i plans a).outcome = .ok plans') ↔
      s.LegalAttribute a ∧ ∀ other ∈ done, other.name ≠ a.name := by
  have same : (∀ plan ∈ plans, plan.decl.name ≠ a.name) ↔ ∀ other ∈ done, other.name ≠ a.name := by
    have decls : plans.map (·.decl) = done := by
      induction before with
      | nil => rfl
      | cons first _ ih => rw [List.map_cons, first.decl, ih]
    rw [← decls, List.forall_mem_map]
  simp only [outcome_planAttribute_eq_ok_iff, same, ← exists_plansAttribute_iff]
  constructor
  · rintro ⟨_, new, plan, planned, -⟩
    exact ⟨⟨plan, planned⟩, new⟩
  · rintro ⟨⟨plan, planned⟩, new⟩
    exact ⟨_, new, plan, planned, rfl⟩

theorem exists_planAttributes_iff {i : Interface} :
    (∃ plans, (i.attributes.foldlM (s.planAttribute i) []).outcome = .ok plans) ↔
      (∀ a ∈ i.attributes, s.LegalAttribute a) ∧
        i.attributes.Pairwise fun a b => a.name ≠ b.name := by
  have step : ∀ done plans a, s.PlannedAttributes done plans →
      ((∃ plans', (s.planAttribute i plans a).outcome = .ok plans') ↔
        s.LegalAttribute a ∧ ∀ other ∈ done, other.name ≠ a.name) :=
    fun _ _ _ before => before.step
  rw [Steady.outcome_foldlM (steady_planAttribute i)]
  exact foldlM_ok_iff_pairwise s.PlannedAttributes (fun done a _ b _ => step done b a)
    (fun _ _ _ _ _ _ before => before.add) .nil

theorem plansAttributes_of_outcome {i : Interface} {plans : List AttributePlan}
    (planned : (i.attributes.foldlM (s.planAttribute i) []).outcome = .ok plans) :
    List.Forall₂ s.PlansAttribute i.attributes plans := by
  rw [Steady.outcome_foldlM (steady_planAttribute i)] at planned
  exact foldlM_invariant s.PlannedAttributes (fun _ _ _ _ _ _ before => before.add) .nil planned

/-! ## Interfaces -/

/-- An interface whose members are legal and fit together. -/
structure LegalInterface (s : Session) (i : Interface) : Prop where
  constructors : ∀ arguments ∈ i.constructors, ∀ a ∈ arguments, s.LegalArgument a.type a.flags
  constructorArities :
    i.constructors.Pairwise fun a b => Disjoint (arityRange a) (arityRange b)
  operations : ∀ op ∈ i.operations, s.LegalOperation i op
  overloads : i.operations.Pairwise s.OperationsFit
  attributes : ∀ a ∈ i.attributes, s.LegalAttribute a
  attributeNames : i.attributes.Pairwise fun a b => a.name ≠ b.name

theorem steady_planInterface (i : Interface) : s.Steady (s.planInterface i) := by
  refine (steady_planConstructors i).bind fun constructors => ?_
  refine (steady_planOperations i).bind fun methods => ?_
  exact (Steady.foldlM (steady_planAttribute i) i.attributes []).bind fun attributes => .pure _

theorem outcome_planInterface_eq_ok_iff {i : Interface} {plan : InterfacePlan} :
    (s.planInterface i).outcome = .ok plan ↔
      plan.interface = i ∧ (s.planConstructors i).outcome = .ok plan.constructors ∧
        (s.planOperations i).outcome = .ok plan.methods ∧
        (i.attributes.foldlM (s.planAttribute i) []).outcome = .ok plan.attributes ∧
        plan.destroyableParent = s.destroyableFrom [] i.parent := by
  have steadyRest : s.Steady (i.attributes.foldlM (s.planAttribute i) []) :=
    .foldlM (steady_planAttribute i) i.attributes []
  refine ((steady_planConstructors i).outcome_bind_eq_ok_iff fun constructors =>
    (steady_planOperations i).bind fun methods => steadyRest.bind fun attributes =>
      .pure _).trans ?_
  constructor
  · rintro ⟨constructors, h₁, rest⟩
    obtain ⟨methods, h₂, rest⟩ := ((steady_planOperations i).outcome_bind_eq_ok_iff fun methods =>
      steadyRest.bind fun attributes => .pure _).1 rest
    obtain ⟨attributes, h₃, same⟩ :=
      (steadyRest.outcome_bind_eq_ok_iff fun attributes => .pure _).1 rest
    cases same
    exact ⟨rfl, h₁, h₂, h₃, rfl⟩
  · rintro ⟨rfl, h₁, h₂, h₃, destroyable⟩
    refine ⟨plan.constructors, h₁, ((steady_planOperations _).outcome_bind_eq_ok_iff fun methods =>
      steadyRest.bind fun attributes => .pure _).2 ⟨plan.methods, h₂, ?_⟩⟩
    refine (steadyRest.outcome_bind_eq_ok_iff fun attributes => .pure _).2 ⟨plan.attributes, h₃, ?_⟩
    rw [Planning.outcome_pure, ← destroyable]

/-- An interface can be planned when it is legal. -/
theorem exists_planInterface_iff {i : Interface} :
    (∃ plan, (s.planInterface i).outcome = .ok plan) ↔ s.LegalInterface i := by
  simp only [outcome_planInterface_eq_ok_iff]
  constructor
  · rintro ⟨plan, -, constructors, methods, attributes, -⟩
    obtain ⟨legal₁, apart₁⟩ := exists_planConstructors_iff.1 ⟨_, constructors⟩
    obtain ⟨legal₂, apart₂⟩ := exists_planOperations_iff.1 ⟨_, methods⟩
    obtain ⟨legal₃, apart₃⟩ := exists_planAttributes_iff.1 ⟨_, attributes⟩
    exact ⟨legal₁, apart₁, legal₂, apart₂, legal₃, apart₃⟩
  · rintro ⟨legal₁, apart₁, legal₂, apart₂, legal₃, apart₃⟩
    obtain ⟨constructors, h₁⟩ := exists_planConstructors_iff.2 ⟨legal₁, apart₁⟩
    obtain ⟨methods, h₂⟩ := exists_planOperations_iff.2 ⟨legal₂, apart₂⟩
    obtain ⟨attributes, h₃⟩ := exists_planAttributes_iff.2 ⟨legal₃, apart₃⟩
    exact ⟨⟨i, constructors, methods, attributes, _⟩, rfl, h₁, h₂, h₃, rfl⟩

end NativeBridge.Session
