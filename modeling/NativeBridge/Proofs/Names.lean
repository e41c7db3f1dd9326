import Mathlib.Data.List.Nodup
import NativeBridge.Plan.Interfaces

/-!
# Distinct names

A session refuses a name that is declared twice, so a name has at most one declaration and the
look-ups of a session find it wherever it stands.
-/
namespace NativeBridge

/-- In a list with distinct names, looking a name up finds the one item that has it. -/
theorem find?_name_iff {α : Type} {name : α → String} {items : List α}
    (distinct : (items.map name).Nodup) {n : String} {a : α} :
    items.find? (fun x => decide (name x = n)) = some a ↔ a ∈ items ∧ name a = n := by
  constructor
  · intro found
    exact ⟨List.mem_of_find?_eq_some found, by simpa using List.find?_some found⟩
  · rintro ⟨member, named⟩
    have some : (items.find? fun x => decide (name x = n)).isSome :=
      List.find?_isSome.2 ⟨a, member, decide_eq_true named⟩
    obtain ⟨b, found⟩ := Option.isSome_iff_exists.1 some
    have same : name b = name a := by simpa [named] using List.find?_some found
    rw [found, List.inj_on_of_nodup_map distinct (List.mem_of_find?_eq_some found) member same]

theorem find?_name_eq_none_iff {α : Type} {name : α → String} {items : List α} {n : String} :
    items.find? (fun x => decide (name x = n)) = none ↔ n ∉ items.map name := by
  simp [List.find?_eq_none]

/-- What was found for the items done so far is not about the next one. -/
theorem find?_name_fresh {α β : Type} {name : α → String} {key : β → α} {found : List β}
    {items done rest : List α} {a : α} (distinct : (items.map name).Nodup)
    (split : items = done ++ a :: rest) (keys : found.map key = done) :
    found.find? (fun b => decide (name (key b) = name a)) = none := by
  rw [split, List.map_append, List.map_cons, List.nodup_middle, List.nodup_cons] at distinct
  rw [List.find?_eq_none]
  intro b member same
  have earlier : key b ∈ done := keys ▸ List.mem_map_of_mem member
  apply distinct.1
  exact List.mem_append_left _ (List.mem_map.2 ⟨key b, earlier, of_decide_eq_true same⟩)

namespace Declarations

variable {ds : Declarations} {n : String}

theorem interface_label : (.interface, n) ∈ ds.labels ↔ n ∈ ds.interfaces.map (·.name) := by
  simp [labels]

theorem valueType_label : (.valueType, n) ∈ ds.labels ↔ n ∈ ds.valueTypes.map (·.name) := by
  simp [labels]

theorem callback_label : (.callback, n) ∈ ds.labels ↔ n ∈ ds.callbacks.map (·.name) := by
  simp [labels]

theorem typedef_label : (.typedef, n) ∈ ds.labels ↔ n ∈ ds.typedefs.map (·.name) := by
  simp [labels]

/-- All declared names, interfaces first. -/
def names (ds : Declarations) : List String := ds.labels.map (·.2)

theorem names_eq (ds : Declarations) :
    ds.names = ds.interfaces.map (·.name) ++ ds.valueTypes.map (·.name) ++
      ds.callbacks.map (·.name) ++ ds.typedefs.map (·.name) := by
  simp [names, labels, Function.comp_def]

end Declarations

theorem firstClash_eq_none_iff (seen labels : List (DeclarationKind × String)) :
    firstClash seen labels = none ↔
      (labels.map (·.2)).Nodup ∧ ∀ n ∈ labels.map (·.2), n ∉ seen.map (·.2) := by
  induction labels generalizing seen with
  | nil => simp [firstClash]
  | cons label rest ih =>
    obtain ⟨kind, name⟩ := label
    cases found : seen.find? (·.2 = name) with
    | some earlier =>
      have member : name ∈ seen.map (·.2) := by
        have named : earlier.2 = name := by simpa using List.find?_some found
        exact List.mem_map.2 ⟨earlier, List.mem_of_find?_eq_some found, named⟩
      simp only [firstClash, found, reduceCtorEq, false_iff, not_and]
      intro _ apart
      exact apart name (by simp) member
    | none =>
      have fresh : name ∉ seen.map (·.2) := find?_name_eq_none_iff.1 found
      simp only [firstClash, found, ih, List.map_cons, List.nodup_cons, List.mem_cons]
      constructor
      · rintro ⟨distinct, apart⟩
        refine ⟨⟨fun again => (apart name again) (.inl rfl), distinct⟩, ?_⟩
        rintro n (rfl | later)
        · exact fresh
        · exact fun old => apart n later (.inr old)
      · rintro ⟨⟨new, distinct⟩, apart⟩
        refine ⟨distinct, ?_⟩
        rintro n later (rfl | old)
        · exact new later
        · exact apart n (.inr later) old

/-- Declarations clash unless all their names are distinct. -/
theorem Declarations.clash?_eq_none_iff (ds : Declarations) :
    ds.clash? = none ↔ ds.names.Nodup := by
  simp [clash?, firstClash_eq_none_iff, names]

namespace Session

/-- A session is created from exactly the declarations with distinct names. -/
theorem create_eq_ok_iff {ds : Declarations} {options : Options} {s : Session} :
    create ds options = .ok s ↔ s.declarations = ds ∧ s.options = options := by
  constructor
  · intro created
    simp only [create] at created
    split at created
    · cases created
    · cases created
      exact ⟨rfl, rfl⟩
  · rintro ⟨rfl, rfl⟩
    simp only [create]
    split
    · rename_i clash found
      rw [s.distinct] at found
      cases found
    · rfl

theorem exists_create_iff {ds : Declarations} {options : Options} :
    (∃ s, create ds options = .ok s) ↔ ds.names.Nodup := by
  constructor
  · rintro ⟨s, created⟩
    obtain ⟨rfl, -⟩ := create_eq_ok_iff.1 created
    exact (Declarations.clash?_eq_none_iff _).1 s.distinct
  · intro distinct
    exact ⟨⟨ds, options, (Declarations.clash?_eq_none_iff _).2 distinct⟩,
      create_eq_ok_iff.2 ⟨rfl, rfl⟩⟩

variable (s : Session)

theorem names_nodup : s.declarations.names.Nodup :=
  (Declarations.clash?_eq_none_iff _).1 s.distinct

theorem interface_names_nodup : (s.declarations.interfaces.map (·.name)).Nodup := by
  have distinct := s.names_nodup
  rw [Declarations.names_eq] at distinct
  exact distinct.of_append_left.of_append_left.of_append_left

theorem valueType_names_nodup : (s.declarations.valueTypes.map (·.name)).Nodup := by
  have distinct := s.names_nodup
  rw [Declarations.names_eq] at distinct
  exact distinct.of_append_left.of_append_left.of_append_right

theorem callback_names_nodup : (s.declarations.callbacks.map (·.name)).Nodup := by
  have distinct := s.names_nodup
  rw [Declarations.names_eq] at distinct
  exact distinct.of_append_left.of_append_right

theorem typedef_names_nodup : (s.declarations.typedefs.map (·.name)).Nodup := by
  have distinct := s.names_nodup
  rw [Declarations.names_eq] at distinct
  exact distinct.of_append_right

variable {s}

theorem interface?_eq_some_iff {n : String} {i : Interface} :
    s.interface? n = some i ↔ i ∈ s.declarations.interfaces ∧ i.name = n :=
  find?_name_iff s.interface_names_nodup

theorem valueType?_eq_some_iff {n : String} {v : ValueType} :
    s.valueType? n = some v ↔ v ∈ s.declarations.valueTypes ∧ v.name = n :=
  find?_name_iff s.valueType_names_nodup

theorem target?_eq_some_iff {n : String} {target : TypeExpr} :
    s.scope.target? n = some target ↔
      ∃ t ∈ s.declarations.typedefs, t.name = n ∧ t.type = target := by
  have distinct : (s.declarations.typedefs.reverse.map (·.name)).Nodup := by
    rw [List.map_reverse, List.nodup_reverse]
    exact s.typedef_names_nodup
  simp [Scope.target?, scope, find?_name_iff distinct, and_assoc]

/-- A name is declared as one kind only. -/
theorem kind_unique {kind other : DeclarationKind} {n : String}
    (label : (kind, n) ∈ s.declarations.labels) (label' : (other, n) ∈ s.declarations.labels) :
    kind = other :=
  congrArg Prod.fst (List.inj_on_of_nodup_map s.names_nodup label label' rfl)

/-- No name is declared both as an interface and as a value type. -/
theorem not_interface_and_valueType {i : Interface} {v : ValueType}
    (hi : i ∈ s.declarations.interfaces) (hv : v ∈ s.declarations.valueTypes) :
    i.name ≠ v.name := by
  intro same
  have asInterface : (.interface, i.name) ∈ s.declarations.labels :=
    Declarations.interface_label.2 (List.mem_map_of_mem hi)
  have asValueType : (.valueType, i.name) ∈ s.declarations.labels :=
    Declarations.valueType_label.2 (same ▸ List.mem_map_of_mem hv)
  cases kind_unique asInterface asValueType

end Session

end NativeBridge
