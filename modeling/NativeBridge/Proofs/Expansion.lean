import Mathlib.Data.List.Perm.Subperm
import NativeBridge.Proofs.Checks
import NativeBridge.Proofs.TypedefCycles

/-!
# What typedefs stand for

A typedef is another name for a type. Where a name is a typedef, what it stands for can be put in
its place, and so on until the name that is left is none. The expression that this ends with needs
no typedefs, and resolving it without any gives what the typedefs give.
-/
namespace NativeBridge

open Relation (ReflTransGen TransGen)

/-- An expression with a type in the place of its leaf. A nullable use of a nullable type is
nullable once. -/
def TypeExpr.graft : TypeExpr → TypeExpr → TypeExpr
  | ⟨_, none, _, nullable⟩, target => { target with nullable := target.nullable || nullable }
  | ⟨name, some e, union, nullable⟩, target => ⟨name, some (e.graft target), union, nullable⟩

theorem TypeExpr.leaf?_mark (e : TypeExpr) (nullable : Bool) :
    leaf? { e with nullable } = e.leaf? := by
  obtain ⟨name, element, union, _⟩ := e
  cases element <;> rfl

theorem TypeExpr.leaf?_graft {e : TypeExpr} {name : String} (leaf : e.leaf? = some name)
    (target : TypeExpr) : (e.graft target).leaf? = target.leaf? := by
  fun_induction TypeExpr.leaf? e with
  | case1 => exact leaf?_mark target _
  | case2 => cases leaf
  | case3 _ e _ ih => simpa [graft, leaf?] using ih leaf
  | case4 => cases leaf

namespace Scope

variable {scope : Scope} {e target : TypeExpr} {name : String} {flags : Flags}

/-! ## Replacing leaves -/

/-- The leaf is the name of a typedef, and what the typedef stands for is put in its place. -/
def Replaces (scope : Scope) (e next : TypeExpr) : Prop :=
  ∃ name target, scope.Enters e name target ∧ next = e.graft target

/-- Replacing the leaf as long as it is a typedef ends here. -/
structure Expands (scope : Scope) (e plain : TypeExpr) : Prop where
  reached : ReflTransGen scope.Replaces e plain
  done : ∀ next, ¬ scope.Replaces plain next

theorem replaces_rightUnique : Relator.RightUnique scope.Replaces := by
  rintro e _ _ ⟨name, target, enters, rfl⟩ ⟨name', target', enters', rfl⟩
  obtain ⟨-, rfl⟩ := enters.unique enters'
  rfl

theorem Expands.unique {plain other : TypeExpr} (h : scope.Expands e plain)
    (h' : scope.Expands e other) : other = plain := by
  rcases ReflTransGen.total_of_right_unique replaces_rightUnique h.reached h'.reached with on | on
  · rcases on.cases_head with same | ⟨next, step, -⟩
    · exact same.symm
    · exact absurd step (h.done next)
  · rcases on.cases_head with same | ⟨next, step, -⟩
    · exact same
    · exact absurd step (h'.done next)

theorem Follows.typedef_of_mem {names : List String} (h : scope.Follows e names) :
    ∀ n ∈ names, n ∈ scope.typedefNames := by
  induction h with
  | stop => simp
  | enter first _ ih => exact List.forall_mem_cons.2 ⟨mem_typedefNames first.found, ih⟩

/-- Following a replaced expression is what is left of following the expression. -/
theorem Enters.follows_graft_iff (enters : scope.Enters e name target) {names : List String} :
    scope.Follows (e.graft target) names ↔ scope.Follows e (name :: names) := by
  rw [follows_iff_of_leaf (TypeExpr.leaf?_graft enters.leaf target).symm, enters.follows_cons_iff]
  simp

theorem exists_expands_of_bounded (bound : ℕ)
    (bounded : ∀ names, scope.Follows e names → names.length ≤ bound) :
    ∃ plain, scope.Expands e plain := by
  induction bound generalizing e with
  | zero =>
    refine ⟨e, .refl, ?_⟩
    rintro _ ⟨name, target, enters, -⟩
    have := bounded [name] (.enter enters (.stop target))
    simp at this
  | succ bound ih =>
    by_cases further : ∃ next, scope.Replaces e next
    · obtain ⟨_, name, target, enters, rfl⟩ := further
      obtain ⟨plain, reached, done⟩ := ih fun names follows => by
        simpa using bounded (name :: names) (enters.follows_graft_iff.1 follows)
      exact ⟨plain, .head ⟨name, target, enters, rfl⟩ reached, done⟩
    · exact ⟨e, .refl, not_exists.1 further⟩

/-- Where no typedef is gone through twice, replacing ends: there are no more replacements than
typedefs. -/
theorem exists_expands (acyclic : ∀ names, scope.Follows e names → names.Nodup) :
    ∃ plain, scope.Expands e plain := by
  refine exists_expands_of_bounded scope.typedefNames.length fun names follows => ?_
  exact (List.subperm_of_subset (acyclic names follows) follows.typedef_of_mem).length_le

end Scope

/-! ## Flags -/

/-- Resolutions that find the same, or fail both. -/
def Agree (a b : Resolved) : Prop := ∀ d, a = .ok d ↔ b = .ok d

theorem Agree.trans {a b c : Resolved} (h : Agree a b) (h' : Agree b c) : Agree a c :=
  fun d => (h d).trans (h' d)

theorem Agree.of_eq {a b : Resolved} (h : a = b) : Agree a b := fun d => by rw [h]

theorem Agree.bind {a b : Resolved} (h : Agree a b) (f : Option Descriptor → Resolved) :
    Agree (a.bind f) (b.bind f) := by
  intro d
  change (a >>= f) = .ok d ↔ (b >>= f) = .ok d
  rw [except_bind_eq_ok_iff, except_bind_eq_ok_iff]
  simp only [h _]

theorem Agree.error_iff {a b : Resolved} (h : Agree a b) :
    (∃ cause, a = .error cause) ↔ ∃ cause, b = .error cause := by
  cases a with
  | ok d => simp [(h d).1 rfl]
  | error cause =>
    cases b with
    | ok d => cases (h d).2 rfl
    | error cause' => simp

theorem resolved_bind_bind {a : Resolved} {f g k : Option Descriptor → Resolved}
    (same : ∀ d, (f d).bind g = k d) : (a.bind f).bind g = a.bind k := by
  cases a with
  | error cause => rfl
  | ok d => exact same d

/-- Other flags on what a step ends with. -/
def Step.reflag (flags : Flags) : Step → Step
  | .answer result => .answer (result.bind (flagged flags))
  | .inner type pending finish => .inner type pending fun d => (finish d).bind (flagged flags)

theorem nullableOf_eq (flags : Flags) (d : Option Descriptor) :
    (nullableOf {} d).bind (flagged flags) = nullableOf flags d := by
  cases d <;> rfl

theorem sequenceOf_eq (flags : Flags) (d : Option Descriptor) :
    (sequenceOf {} d).bind (flagged flags) = sequenceOf flags d := by
  simp only [sequenceOf]
  split <;> rfl

theorem flagged_eq (flags other : Flags) (d : Option Descriptor) :
    (flagged other d).bind (flagged flags) = flagged flags d := by
  cases d <;> rfl

theorem builtin?_eq (name : String) (flags : Flags) :
    (builtin? name {}).map (·.bind (flagged flags)) = builtin? name flags := by
  simp only [builtin?]
  repeat' split
  all_goals rfl

namespace Scope

theorem declared_eq (scope : Scope) (name : String) (flags : Flags) :
    (scope.declared name {}).bind (flagged flags) = scope.declared name flags := by
  simp only [declared]
  repeat' split
  all_goals rfl

variable {scope : Scope} {e target : TypeExpr} {name : String} {flags : Flags}

/-- Flags change what a step ends with, and neither where it goes nor whether it fails. -/
theorem step_reflag (scope : Scope) (pending : List String) (e : TypeExpr) (flags : Flags) :
    scope.step pending e flags = (scope.step pending e {}).reflag flags := by
  simp only [step]
  split
  · rfl
  · split
    · simp only [Step.reflag, nullableOf_eq]
    · split
      · simp only [Step.reflag, sequenceOf_eq]
      · simp only [stepName]
        rw [← builtin?_eq _ flags]
        cases builtin? e.name {} with
        | some result => rfl
        | none =>
          simp only [Option.map_none]
          split
          · split
            · rfl
            · simp only [Step.reflag, flagged_eq]
          · simp only [Step.reflag, declared_eq]

theorem meaningIn_reflag (scope : Scope) (pending : List String) (e : TypeExpr) (flags : Flags) :
    scope.meaningIn pending e flags = (scope.meaningIn pending e {}).bind (flagged flags) := by
  have turned := scope.step_reflag pending e flags
  cases step : scope.step pending e {} with
  | answer result =>
    rw [step] at turned
    rw [meaningIn_answer scope step, meaningIn_answer scope turned]
  | inner inner pending' finish =>
    rw [step] at turned
    rw [meaningIn_inner scope step, meaningIn_inner scope turned]
    exact (resolved_bind_bind fun _ => rfl).symm

/-! ## Replacing keeps the meaning -/

theorem meaning_nullable (scope : Scope) (name : String) (element : Option TypeExpr)
    (flags : Flags) :
    scope.meaning ⟨name, element, [], true⟩ flags =
      (scope.meaning { name, element } {}).bind (nullableOf flags) :=
  meaningIn_inner scope (by simp [step])

theorem meaning_sequence (scope : Scope) (name : String) (element : TypeExpr) (flags : Flags) :
    scope.meaning { name, element := some element } flags =
      (scope.meaning element {}).bind (sequenceOf flags) :=
  meaningIn_inner scope (by simp [step])

theorem meaning_union {name : String} {element : Option TypeExpr} {union : List TypeExpr}
    (several : union ≠ []) (scope : Scope) (nullable : Bool) (flags : Flags) :
    scope.meaning ⟨name, element, union, nullable⟩ flags =
      .error (.union ⟨name, element, union, nullable⟩) :=
  meaningIn_answer scope (by simp [step, several])

/-- A typedef means what it stands for. While it is entered it is pending, which shows only where it
comes back, and then there is no meaning. -/
theorem meaning_typedef (free : builtin? name {} = none) (found : scope.target? name = some target)
    (flags : Flags) : Agree (scope.meaning { name } flags) (scope.meaning target flags) := by
  have known := (builtin?_eq_none_iff name {} flags).1 free
  have entered :
      scope.meaning { name } flags = (scope.meaningIn [name] target {}).bind (flagged flags) :=
    meaningIn_inner scope (by simp [step, stepName, known, found])
  have trail : scope.Trail [name] target := by
    simpa [Trail] using TransGen.single (Leads.typedef free found)
  have pending : Agree (scope.meaningIn [name] target {}) (scope.meaning target {}) := by
    intro d
    constructor
    · intro h
      rw [← meaningIn_eq_meaning trail (.inl h), h]
    · intro h
      rw [meaningIn_eq_meaning trail (.inr h), h]
  rw [entered, meaning, meaningIn_reflag scope [] target flags]
  exact pending.bind _

/-- Marking a type as nullable is the same before and after it is resolved, also if it is nullable
already. -/
theorem meaning_mark (scope : Scope) (target : TypeExpr) (flags : Flags) :
    Agree ((scope.meaning target {}).bind (nullableOf flags))
      (scope.meaning { target with nullable := true } flags) := by
  obtain ⟨name, element, union, nullable⟩ := target
  by_cases several : union ≠ []
  · rw [meaning_union several, meaning_union several]
    intro d
    constructor <;> rintro ⟨⟩
  obtain rfl : union = [] := by simpa using several
  refine .of_eq ?_
  rw [meaning_nullable]
  cases nullable with
  | false => rfl
  | true =>
    rw [meaning_nullable]
    refine resolved_bind_bind fun d => ?_
    cases d <;> rfl

theorem Enters.meaning_graft (enters : scope.Enters e name target) (flags : Flags) :
    Agree (scope.meaning e flags) (scope.meaning (e.graft target) flags) := by
  obtain ⟨leaf, free, found⟩ := enters
  fun_induction TypeExpr.leaf? e generalizing flags with
  | case1 leafName nullable =>
    obtain rfl := Option.some.inj leaf
    cases nullable with
    | false =>
      have same : TypeExpr.graft { name := leafName } target = target := by
        cases target
        simp [TypeExpr.graft]
      rw [same]
      exact meaning_typedef free found flags
    | true =>
      have same :
          TypeExpr.graft ⟨leafName, none, [], true⟩ target = { target with nullable := true } := by
        simp [TypeExpr.graft]
      rw [same, meaning_nullable]
      exact ((meaning_typedef free found {}).bind _).trans (meaning_mark scope target flags)
  | case2 => cases leaf
  | case3 outer inner nullable ih =>
    have sequence : ∀ flags, Agree (scope.meaning { name := outer, element := some inner } flags)
        (scope.meaning { name := outer, element := some (inner.graft target) } flags) := by
      intro flags
      rw [meaning_sequence, meaning_sequence]
      exact (ih {} leaf).bind _
    cases nullable with
    | false => exact sequence flags
    | true =>
      simp only [TypeExpr.graft, meaning_nullable]
      exact (sequence {}).bind _
  | case4 => cases leaf

theorem Expands.agree {plain : TypeExpr} (h : scope.Expands e plain) (flags : Flags) :
    Agree (scope.meaning e flags) (scope.meaning plain flags) := by
  obtain ⟨reached, -⟩ := h
  induction reached with
  | refl => exact .of_eq rfl
  | tail _ step ih =>
    obtain ⟨name, target, enters, rfl⟩ := step
    exact ih.trans (enters.meaning_graft flags)

/-! ## Without typedefs -/

/-- The same names without typedefs. -/
def withoutTypedefs (scope : Scope) : Scope := { scope with typedefs := [] }

theorem step_withoutTypedefs (stays : ∀ name target, ¬ scope.Enters e name target)
    (pending : List String) (flags : Flags) :
    scope.withoutTypedefs.step pending e flags = scope.step pending e flags := by
  obtain ⟨name, element, union, nullable⟩ := e
  simp only [step]
  split
  · rfl
  · rename_i plain
    split
    · rfl
    · cases element with
      | some inner => rfl
      | none =>
        have none : builtin? name flags = none → scope.target? name = none := by
          intro unknown
          refine Option.eq_none_iff_forall_ne_some.2 fun target found =>
            stays name target ⟨?_, ?_, found⟩
          · simp_all [TypeExpr.leaf?]
          · exact (builtin?_eq_none_iff name flags {}).1 unknown
        simp only [stepName]
        cases known : builtin? name flags with
        | some result => rfl
        | none =>
          rw [none known]
          rfl

/-- An expression whose leaf is no typedef means the same without typedefs. -/
theorem meaningIn_withoutTypedefs (stays : ∀ name target, ¬ scope.Enters e name target)
    (pending : List String) (flags : Flags) :
    scope.withoutTypedefs.meaningIn pending e flags = scope.meaningIn pending e flags := by
  induction size : scope.stepsLeft pending e using Nat.strongRecOn generalizing pending e flags with
  | ind n ih =>
    have same := step_withoutTypedefs stays pending flags
    cases scope.onward pending e flags with
    | ends step =>
      rw [meaningIn_answer scope step, meaningIn_answer _ (same.trans step)]
    | @layer inner finish step leaf =>
      have stays' : ∀ name target, ¬ scope.Enters inner name target := fun name target enters =>
        stays name target ⟨leaf.symm.trans enters.leaf, enters.free, enters.found⟩
      rw [meaningIn_inner scope step, meaningIn_inner _ (same.trans step),
        ih _ (size ▸ step_decreases step) stays' pending {} rfl]
    | typedef enters => exact absurd enters (stays _ _)

/-- Typedefs are transparent. Replacing the leaf of an expression by what its typedef stands for,
again and again, ends with exactly one expression unless some typedef comes back. Whatever was
resolved before, resolving that one without typedefs finds the same as resolving the expression with
them, and fails if and only if it fails. -/
theorem typedefs_transparent (scope : Scope) (e : TypeExpr) (flags : Flags)
    (acyclic : ∀ names, scope.Follows e names → names.Nodup)
    (earlier other : List (TypeExpr × Flags)) :
    (∃! plain, scope.Expands e plain) ∧ ∀ plain, scope.Expands e plain →
      let found := (scope.resolve e flags (scope.memoAfter earlier)).1
      let bare :=
        (scope.withoutTypedefs.resolve plain flags (scope.withoutTypedefs.memoAfter other)).1
      (∀ d, found = .ok d ↔ bare = .ok d) ∧
        ((∃ cause, found = .error cause) ↔ ∃ cause, bare = .error cause) := by
  obtain ⟨plain, expands⟩ := exists_expands acyclic
  refine ⟨⟨plain, expands, fun other h => expands.unique h⟩, ?_⟩
  intro plain expands found bare
  have stays : ∀ name target, ¬ scope.Enters plain name target := fun name target enters =>
    expands.done _ ⟨name, target, enters, rfl⟩
  have resolved : found = scope.meaning e flags := (resolve_spec (scope.sound_memoAfter earlier)).1
  have bareResolved : bare = scope.meaning plain flags :=
    (resolve_spec (scope.withoutTypedefs.sound_memoAfter other)).1.trans
      (meaningIn_withoutTypedefs stays [] flags)
  have agree : Agree found bare := by
    rw [resolved, bareResolved]
    exact expands.agree flags
  exact ⟨agree, agree.error_iff⟩

/-- Rows are nullable sequences of pixels. The typedef of a built-in name is never entered. -/
def raster : Scope where
  typedefs :=
    [{ name := "Pixel", type := { name := "octet" } },
     { name := "Row", type := { element := some { name := "Pixel" }, nullable := true } },
     { name := "octet", type := { name := "Row" } }]

theorem raster_enters_row :
    raster.Enters { name := "Row", nullable := true } "Row"
      { element := some { name := "Pixel" }, nullable := true } :=
  ⟨rfl, by decide, by decide⟩

theorem raster_enters_pixel :
    raster.Enters { element := some { name := "Pixel" }, nullable := true } "Pixel"
      { name := "octet" } :=
  ⟨rfl, by decide, by decide⟩

theorem raster_stays : ∀ name target,
    ¬ raster.Enters { element := some { name := "octet" }, nullable := true } name target := by
  intro name target enters
  obtain rfl : "octet" = name := Option.some.inj enters.leaf
  exact absurd enters.free (by decide)

theorem rows_resolve_as_octets :
    let row : TypeExpr := { name := "Row", nullable := true }
    let plain : TypeExpr := { element := some { name := "octet" }, nullable := true }
    (∀ names, raster.Follows row names → names.Nodup) ∧ raster.Expands row plain ∧
      (raster.resolve row { byRef := true } (raster.memoAfter [])).1 =
        .ok (some { base := .sequence .octet, nullable := true, flags := { byRef := true } }) := by
  intro row plain
  have acyclic : ∀ names, raster.Follows row names → names.Nodup := by
    intro names follows
    cases follows with
    | stop => exact List.nodup_nil
    | enter first rest =>
      obtain ⟨rfl, rfl⟩ := raster_enters_row.unique first
      cases rest with
      | stop => decide
      | enter second rest =>
        obtain ⟨rfl, rfl⟩ := raster_enters_pixel.unique second
        cases rest with
        | stop => decide
        | enter third => exact absurd third.free (Option.some.inj third.leaf ▸ by decide)
  have expands : raster.Expands row plain := by
    refine ⟨.head ⟨_, _, raster_enters_row, rfl⟩ (.single ⟨_, _, raster_enters_pixel, rfl⟩), ?_⟩
    rintro _ ⟨name, target, enters, -⟩
    exact raster_stays name target enters
  refine ⟨acyclic, expands, ?_⟩
  refine ((typedefs_transparent raster row _ acyclic [] []).2 plain expands).1 _ |>.2 ?_
  have known : builtin? "octet" {} = some (.ok (some { base := .scalar .octet })) := by decide
  have octet : raster.withoutTypedefs.meaning { name := "octet" } {} =
      .ok (some { base := .scalar .octet }) := meaningIn_answer _ (by simp [step, stepName, known])
  rw [(resolve_spec (sound_memoAfter _ _)).1, meaning_nullable, meaning_sequence, octet]
  rfl

end Scope

end NativeBridge
