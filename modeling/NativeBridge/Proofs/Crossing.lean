import NativeBridge.Proofs.Names
import NativeBridge.Proofs.Steady

/-!
# What may cross the boundary

Which types can be passed to native code, and which can also come back from it, said of descriptors
alone. A marshaling is found for exactly the first, and marshalings of the second have a return type
and can be arguments of a callback.
-/
namespace NativeBridge

/-- Values that can come from native code as well as go there. -/
def Base.twoWay : Base → Bool
  | .sequence _ | .callback _ => false
  | .scalar _ | .string | .interface _ | .valueType _ => true

theorem Marshaling.returnType_ok_iff (m : Marshaling) :
    (∃ text, m.returnType = .ok text) ↔ m.base.twoWay = true := by
  cases m <;> simp [returnType, base, Base.twoWay]

theorem Marshaling.callableParam_ok_iff (m : Marshaling) :
    (∃ text, m.callableParam = .ok text) ↔ m.base.twoWay = true := by
  cases m <;> simp [callableParam, base, Base.twoWay]

theorem ScalarKind.stagingHelper_isSome (kind : ScalarKind) :
    kind.stagingHelper.isSome = !kind.isWideInteger := by
  cases kind <;> rfl

namespace Session

variable (s : Session)

/-- The types whose values can be passed to native code. A scalar or a value type is not nullable, a
sequence is not of wide integers, and a nullable interface that is passed by reference or by value
is shared. -/
def Passable (d : Descriptor) : Prop :=
  match d.base with
  | .scalar _ | .valueType _ => d.nullable = false
  | .sequence kind => kind.isWideInteger = false
  | .interface name => d.nullable = true → d.flags.indirect = true →
      ∃ i ∈ s.declarations.interfaces, i.name = name ∧ i.ownership = .shared
  | .string | .callback _ => True

variable {s}

/-- A marshaling is found for the types that can be passed, and for no others. -/
theorem classify_ok_iff {d : Descriptor} (declared : s.scope.Declares d.base) :
    (∃ m, s.classify (some d) = .ok m) ↔ s.Passable d := by
  obtain ⟨base, nullable, flags⟩ := d
  cases base with
  | scalar kind => cases nullable <;> simp [classify, Passable]
  | string => simp [classify, Passable]
  | callback name => simp [classify, Passable]
  | sequence kind =>
    have helper := kind.stagingHelper_isSome
    simp only [classify, Passable]
    cases h : kind.stagingHelper <;> simp_all
  | valueType name =>
    obtain ⟨v, member, named⟩ := List.mem_map.1 declared
    have found : s.valueType? name = some v := valueType?_eq_some_iff.2 ⟨member, named⟩
    cases nullable <;> simp [classify, Passable, found]
  | interface name =>
    obtain ⟨i, member, named⟩ := List.mem_map.1 declared
    have found : s.interface? name = some i := interface?_eq_some_iff.2 ⟨member, named⟩
    have unique : ∀ j ∈ s.declarations.interfaces, j.name = name → j = i := by
      intro j memberJ namedJ
      have found' : s.interface? name = some j := interface?_eq_some_iff.2 ⟨memberJ, namedJ⟩
      exact Option.some.inj (found'.symm.trans found)
    simp only [classify, Passable, found]
    cases owned : i.ownership with
    | shared => simpa using fun _ _ => ⟨i, member, named, owned⟩
    | raw =>
      by_cases indirect : nullable = true ∧ flags.indirect = true
      · have none : ¬ ∃ i ∈ s.declarations.interfaces, i.name = name ∧ i.ownership = .shared := by
          rintro ⟨j, memberJ, namedJ, shared⟩
          rw [unique j memberJ namedJ, owned] at shared
          cases shared
        simp [indirect.1, indirect.2, none]
      · have direct : (nullable && flags.indirect) = false := by simpa using indirect
        simp only [direct, Bool.false_eq_true, if_false, Except.ok.injEq, exists_eq', true_iff]
        exact fun null by_ref => absurd ⟨null, by_ref⟩ indirect

/-- A marshaling is of the type that it was found for. -/
theorem classify_base {d : Descriptor} {m : Marshaling} (h : s.classify (some d) = .ok m) :
    m.base = d.base := by
  obtain ⟨base, nullable, flags⟩ := d
  cases base <;> simp only [classify] at h <;> repeat' split at h
  all_goals cases h
  all_goals rfl

/-! ## The types of members -/

variable (s)

def LegalArgument (e : TypeExpr) (flags : Flags) : Prop :=
  ∃ d, s.scope.meaning e flags = .ok (some d) ∧ s.Passable d

def LegalResult (e : TypeExpr) (flags : Flags) : Prop :=
  s.scope.meaning e flags = .ok none ∨
    ∃ d, s.scope.meaning e flags = .ok (some d) ∧ s.Passable d ∧ d.base.twoWay = true

def LegalCallbackArgument (e : TypeExpr) (flags : Flags) : Prop :=
  ∃ d, s.scope.meaning e flags = .ok (some d) ∧ s.Passable d ∧ d.base.twoWay = true

def LegalCallbackResult (e : TypeExpr) : Prop :=
  s.scope.meaning e {} = .ok none ∨
    ∃ d, s.scope.meaning e {} = .ok (some d) ∧
      ((∃ kind, d.base = .scalar kind ∧ d.nullable = false) ∨ ∃ name, d.base = .interface name)

variable {s}

theorem classify_ok_of_meaning {e : TypeExpr} {flags : Flags} {d : Descriptor}
    (h : s.scope.meaning e flags = .ok (some d)) :
    (∃ m, s.classify (some d) = .ok m) ↔ s.Passable d :=
  classify_ok_iff (Scope.meaningIn_some h).2

theorem steady_argument (e : TypeExpr) (flags : Flags) : s.Steady (s.argument e flags) := by
  refine (steady_resolve e flags).bind fun d => ?_
  cases d with
  | none => exact .throw _
  | some d => exact steady_marshalingOf (some d)

theorem outcome_argument_eq_ok_iff {e : TypeExpr} {flags : Flags} {m : Marshaling} :
    (s.argument e flags).outcome = .ok m ↔
      ∃ d, s.scope.meaning e flags = .ok (some d) ∧ s.classify (some d) = .ok m := by
  refine ((steady_resolve e flags).outcome_bind_eq_ok_iff fun d => ?_).trans ?_
  · cases d with
    | none => exact .throw _
    | some d => exact steady_marshalingOf (some d)
  · constructor
    · rintro ⟨d, resolved, found⟩
      rw [outcome_resolve, except_mapError_eq_ok_iff] at resolved
      cases d with
      | none => cases found
      | some d => exact ⟨d, resolved, (outcome_marshalingOf (some d)).symm.trans found⟩
    · rintro ⟨d, resolved, found⟩
      exact ⟨some d, by rw [outcome_resolve, except_mapError_eq_ok_iff, resolved],
        (outcome_marshalingOf (some d)).trans found⟩

/-- An argument is passed when its type is legal. -/
theorem exists_argument_iff {e : TypeExpr} {flags : Flags} :
    (∃ m, (s.argument e flags).outcome = .ok m) ↔ s.LegalArgument e flags := by
  constructor
  · rintro ⟨m, h⟩
    obtain ⟨d, resolved, found⟩ := outcome_argument_eq_ok_iff.1 h
    exact ⟨d, resolved, (classify_ok_of_meaning resolved).1 ⟨m, found⟩⟩
  · rintro ⟨d, resolved, passable⟩
    obtain ⟨m, found⟩ := (classify_ok_of_meaning resolved).2 passable
    exact ⟨m, outcome_argument_eq_ok_iff.2 ⟨d, resolved, found⟩⟩

theorem result_some_eq_ok_iff {d : Descriptor} {r : Option Marshaling} :
    s.result (some d) = .ok r ↔
      ∃ m, s.classify (some d) = .ok m ∧ m.base.twoWay = true ∧ r = some m := by
  simp only [result, except_bind_eq_ok_iff, Marshaling.returned]
  constructor
  · rintro ⟨m, found, returned⟩
    refine ⟨m, found, ?_⟩
    rw [← m.returnType_ok_iff]
    split at returned
    · rename_i text ok
      cases returned
      exact ⟨⟨text, ok⟩, rfl⟩
    · cases returned
  · rintro ⟨m, found, back, rfl⟩
    obtain ⟨text, ok⟩ := m.returnType_ok_iff.2 back
    exact ⟨m, found, by rw [ok]⟩

/-- A type can be returned when it is legal as a result. -/
theorem exists_result_iff {e : TypeExpr} {flags : Flags} :
    (∃ d r, s.scope.meaning e flags = .ok d ∧ s.result d = .ok r) ↔ s.LegalResult e flags := by
  constructor
  · rintro ⟨d, r, resolved, returned⟩
    cases d with
    | none => exact .inl resolved
    | some d =>
      obtain ⟨m, found, back, -⟩ := result_some_eq_ok_iff.1 returned
      exact .inr ⟨d, resolved, (classify_ok_of_meaning resolved).1 ⟨m, found⟩,
        classify_base found ▸ back⟩
  · rintro (resolved | ⟨d, resolved, passable, back⟩)
    · exact ⟨none, none, resolved, rfl⟩
    · obtain ⟨m, found⟩ := (classify_ok_of_meaning resolved).2 passable
      exact ⟨some d, some m, resolved,
        result_some_eq_ok_iff.2 ⟨m, found, (classify_base found).symm ▸ back, rfl⟩⟩

end Session

end NativeBridge
