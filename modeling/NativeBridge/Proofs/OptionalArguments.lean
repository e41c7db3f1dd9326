import Mathlib.Data.List.Infix
import Mathlib.Data.List.Intervals
import NativeBridge.Proofs.Overloads
import NativeBridge.Proofs.Reading

/-!
# What a caller may leave out

A caller may stop before an optional argument. What is given then is cut off the declared list by
the number of its required arguments, wherever these stand. Such a cut drops none of them if and
only if all optional arguments come last, and reading an argument list accepts no other order.
-/
namespace NativeBridge

open Idl (lateRequired readArguments)

/-- All required arguments of a list stand in a variant of it, each as often as it is declared. -/
def HoldsRequired (arguments variant : List Argument) : Prop :=
  (arguments.filter (!·.optional)).Sublist variant

instance (arguments variant : List Argument) : Decidable (HoldsRequired arguments variant) :=
  inferInstanceAs (Decidable (List.Sublist _ _))

variable {arguments : List Argument} {n : ℕ}

/-! ## Cutting a list -/

theorem countP_take_add_countP_drop (arguments : List Argument) (n : ℕ) :
    (arguments.take n).countP (!·.optional) + (arguments.drop n).countP (!·.optional) =
      arguments.countP (!·.optional) := by
  rw [← List.countP_append, List.take_append_drop]

theorem countP_required_eq_zero_iff :
    arguments.countP (!·.optional) = 0 ↔ ∀ a ∈ arguments, a.optional = true := by
  simp [List.countP_eq_zero]

theorem holdsRequired_take_iff :
    HoldsRequired arguments (arguments.take n) ↔ ∀ a ∈ arguments.drop n, a.optional = true := by
  have parts := countP_take_add_countP_drop arguments n
  rw [← countP_required_eq_zero_iff]
  constructor
  · intro holds
    -- a list with repetitions can hold an argument and still miss one, so occurrences are counted
    have counted := holds.countP_le (p := (!·.optional))
    simp only [List.countP_filter, Bool.and_self] at counted
    omega
  · intro none
    have cut : arguments.filter (!·.optional) = (arguments.take n).filter (!·.optional) := by
      conv_lhs => rw [← List.take_append_drop n arguments]
      rw [List.filter_append, List.filter_eq_nil_iff.2 (List.countP_eq_zero.1 none),
        List.append_nil]
    rw [HoldsRequired, cut]
    exact List.filter_sublist

theorem countP_required_le (optional : ∀ a ∈ arguments.drop n, a.optional = true) :
    arguments.countP (!·.optional) ≤ n := by
  have parts := countP_take_add_countP_drop arguments n
  have none := countP_required_eq_zero_iff.2 optional
  have given := (arguments.take n).countP_le_length (p := (!·.optional))
  have := List.length_take_le n arguments
  omega

/-- The scan for a required argument behind an optional one finds nothing if and only if the cut by
the number of required arguments leaves out none of them. -/
theorem lateRequired_eq_none_iff (arguments : List Argument) :
    lateRequired arguments = none ↔
      ∀ a ∈ arguments.drop (arguments.countP (!·.optional)), a.optional = true := by
  fun_induction lateRequired arguments with
  | case1 => simp
  | case2 a rest optional =>
    have same : (a :: rest).countP (!·.optional) = rest.countP (!·.optional) := by simp [optional]
    have scan : rest.find? (!·.optional) = none ↔ rest.countP (!·.optional) = 0 := by
      rw [countP_required_eq_zero_iff]
      simp
    rw [same, scan]
    cases count : rest.countP (!·.optional) with
    | zero => simpa [optional] using countP_required_eq_zero_iff.1 count
    | succ k =>
      -- the optional argument in front takes one of the places that are kept
      have short : ¬ ∀ b ∈ rest.drop k, b.optional = true := fun all => by
        have := countP_required_le all
        omega
      simpa using short
  | case3 a rest required ih =>
    have more : (a :: rest).countP (!·.optional) = rest.countP (!·.optional) + 1 := by
      simp [required]
    rw [more, List.drop_succ_cons]
    exact ih

/-! ## All cuts in a row -/

theorem inits_eq_map_take {α : Type} (l : List α) :
    l.inits = (List.range (l.length + 1)).map l.take := by
  apply List.ext_getElem
  · simp
  · intro i inside _
    simp

/-- The variants that a caller may give are the beginnings of the list that hold its required
arguments, in this order, if and only if no required argument stands behind an optional one. -/
theorem expandOptional_eq_iff (arguments : List Argument) :
    expandOptional arguments = arguments.inits.filter (HoldsRequired arguments ·) ↔
      lateRequired arguments = none := by
  rw [lateRequired_eq_none_iff, ← holdsRequired_take_iff]
  constructor
  · intro same
    have least : arguments.countP (!·.optional) ∈ arityRange arguments :=
      Finset.left_mem_Icc.2 List.countP_le_length
    have shortest := take_mem_expandOptional least
    rw [same] at shortest
    exact of_decide_eq_true (List.mem_filter.1 shortest).2
  · intro holds
    have cut : ∀ n, HoldsRequired arguments (arguments.take n) ↔
        arguments.countP (!·.optional) ≤ n := by
      intro n
      refine ⟨fun h => countP_required_le (holdsRequired_take_iff.1 h), fun enough => ?_⟩
      exact holds.trans (List.take_sublist_take_left enough)
    rw [inits_eq_map_take, List.filter_map]
    simp only [Function.comp_def, cut]
    rw [← List.Ico.zero_bot, List.Ico.filter_le, Nat.zero_max]
    rfl

/-! ## Lists that are read -/

theorem lateRequired_of_readArguments {text : List Char}
    (read : readArguments text = .ok arguments) :
    lateRequired arguments = none := by
  rcases Idl.readArguments_eq_ok_iff.1 read with ⟨-, rfl⟩ | ⟨-, parts, -, -, last⟩
  · rfl
  · exact last

/-- Leaving out optional arguments drops no required one. For every argument list that is read, the
variants that a caller may give are exactly the beginnings of it that hold all required arguments.
Each stands there once, and they come one argument longer at a time, from the number of required
arguments to the whole list. -/
theorem expansion_keeps_required (text : List Char) (arguments : List Argument)
    (read : readArguments text = .ok arguments) :
    expandOptional arguments = arguments.inits.filter (HoldsRequired arguments ·) ∧
      (expandOptional arguments).Nodup ∧
      (expandOptional arguments).map List.length =
        List.range' (arguments.countP (!·.optional))
          (arguments.length + 1 - arguments.countP (!·.optional)) :=
  ⟨(expandOptional_eq_iff arguments).2 (lateRequired_of_readArguments read),
    (nodup_map_length_expandOptional arguments).of_map _, map_length_expandOptional arguments⟩

/-- The two ends of a stroke are declared alike, so one of them alone would hold every required
argument by name. -/
def stroke : List Argument :=
  [{ name := "end", type := { name := "Point" }, flags := { byRef := true } },
   { name := "end", type := { name := "Point" }, flags := { byRef := true } },
   { name := "width", type := { name := "float" }, optional := true },
   { name := "style", type := { name := "DOMString", nullable := true }, optional := true }]

theorem wellFormed_stroke : ArgumentsWellFormed stroke := by
  have named : ∀ (n : String) (q : Bool), TypeExpr.isName n.toList = true →
      TypeExpr.Readable { name := n, nullable := q } := by
    intro n q name
    simpa using (TypeExpr.Written.name q name).readable
  refine ⟨?_, by decide⟩
  simp only [stroke, List.mem_cons, List.not_mem_nil, or_false, forall_eq_or_imp, forall_eq]
  exact ⟨⟨by decide, named _ _ (by decide), by decide⟩,
    ⟨by decide, named _ _ (by decide), by decide⟩,
    ⟨by decide, named _ _ (by decide), by decide⟩, ⟨by decide, named _ _ (by decide), by decide⟩⟩

theorem stroke_expansion_keeps_required :
    let text :=
      "[Ref] Point end, [Ref] Point end, optional float width, optional DOMString? style".toList
    readArguments text = .ok stroke ∧
      expandOptional stroke = [stroke.take 2, stroke.take 3, stroke] ∧
      (expandOptional stroke).map List.length = [2, 3, 4] := by
  intro text
  have written : renderArguments stroke = text := by decide +kernel
  have read : readArguments text = .ok stroke :=
    written ▸ Idl.readArguments_render wellFormed_stroke
  obtain ⟨variants, -, lengths⟩ := expansion_keeps_required text stroke read
  exact ⟨read, variants.trans (by decide), lengths⟩

end NativeBridge
