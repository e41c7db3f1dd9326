import Mathlib.Data.List.Induction
import Mathlib.Data.List.Nodup
import NativeBridge.Proofs.Meaning

/-!
# Typedefs that lead back to themselves

Resolution follows an expression through its layers to a name, and through the typedef of that name
to the next expression. It ends whatever the typedefs say, since a typedef that is being resolved is
not entered again, and it complains of a cycle when the way goes through some typedef twice. What
was resolved before neither hides a cycle nor makes one up.
-/
namespace NativeBridge

/-- The name under the layers of an expression. A union has none. -/
def TypeExpr.leaf? : TypeExpr → Option String
  | ⟨name, none, union, _⟩ => if union = [] then some name else none
  | ⟨_, some e, union, _⟩ => if union = [] then e.leaf? else none

theorem TypeExpr.leaf?_strip {e : TypeExpr} (plain : e.union = []) :
    leaf? { name := e.name, element := e.element } = e.leaf? := by
  obtain ⟨name, element, union, nullable⟩ := e
  cases element <;> simp_all [leaf?]

theorem TypeExpr.leaf?_element {e inner : TypeExpr} (plain : e.union = [])
    (sequence : e.element = some inner) : inner.leaf? = e.leaf? := by
  obtain ⟨name, element, union, nullable⟩ := e
  simp_all [leaf?]

namespace Scope

variable {scope : Scope}

/-! ## The way of an expression -/

/-- The typedef that following an expression goes through first, with what it stands for. -/
structure Enters (scope : Scope) (e : TypeExpr) (name : String) (target : TypeExpr) : Prop where
  leaf : e.leaf? = some name
  free : builtin? name {} = none
  found : scope.target? name = some target

theorem Enters.unique {e target other : TypeExpr} {name last : String}
    (h : scope.Enters e name target) (h' : scope.Enters e last other) :
    last = name ∧ other = target := by
  obtain rfl : last = name := Option.some.inj (h'.leaf.symm.trans h.leaf)
  exact ⟨rfl, Option.some.inj (h'.found.symm.trans h.found)⟩

/-- Following an expression goes through these typedefs one after another, and maybe on from
there. -/
inductive Follows (scope : Scope) : TypeExpr → List String → Prop
  | stop (e : TypeExpr) : Follows scope e []
  | enter {e target : TypeExpr} {name : String} {names : List String}
      (first : scope.Enters e name target) (rest : Follows scope target names) :
      Follows scope e (name :: names)

theorem Follows.of_append {e : TypeExpr} {names more : List String}
    (h : scope.Follows e (names ++ more)) : scope.Follows e names := by
  induction names generalizing e with
  | nil => exact .stop e
  | cons name names ih =>
    cases h with
    | enter first rest => exact .enter first (ih rest)

theorem Enters.follows_cons_iff {e target : TypeExpr} {name last : String} {names : List String}
    (h : scope.Enters e name target) :
    scope.Follows e (last :: names) ↔ last = name ∧ scope.Follows target names := by
  constructor
  · intro follows
    cases follows with
    | enter first rest =>
      obtain ⟨rfl, rfl⟩ := h.unique first
      exact ⟨rfl, rest⟩
  · rintro ⟨rfl, rest⟩
    exact .enter h rest

theorem follows_iff_of_leaf {e inner : TypeExpr} (same : inner.leaf? = e.leaf?)
    {names : List String} : scope.Follows e names ↔ scope.Follows inner names := by
  constructor
  · intro follows
    cases follows with
    | stop => exact .stop inner
    | enter first rest => exact .enter ⟨same.trans first.leaf, first.free, first.found⟩ rest
  · intro follows
    cases follows with
    | stop => exact .stop e
    | enter first rest => exact .enter ⟨same.symm.trans first.leaf, first.free, first.found⟩ rest

/-- The way goes through a typedef for the second time, and through none twice before that. -/
def ComesBack (scope : Scope) (e : TypeExpr) (name : String) : Prop :=
  ∃ names, scope.Follows e (names ++ [name]) ∧ names.Nodup ∧ name ∈ names

/-- A way that goes through some typedef twice has a typedef where this happens first. -/
theorem exists_comesBack_iff {e : TypeExpr} :
    (∃ name, scope.ComesBack e name) ↔ ∃ names, scope.Follows e names ∧ ¬ names.Nodup := by
  constructor
  · rintro ⟨name, names, follows, -, again⟩
    refine ⟨names ++ [name], follows, fun distinct => ?_⟩
    exact (List.nodup_append.1 distinct).2.2 name again name (List.mem_singleton_self name) rfl
  · rintro ⟨names, follows, twice⟩
    induction names using List.reverseRecOn with
    | nil => exact absurd List.nodup_nil twice
    | append_singleton names last ih =>
      by_cases distinct : names.Nodup
      · refine ⟨last, names, follows, distinct, ?_⟩
        by_contra fresh
        exact twice (List.concat_eq_append ▸ distinct.concat fresh)
      · exact ih follows.of_append distinct

/-! ## Where a step goes -/

/-- A step gives an answer that is no cycle where the way ends, goes through a layer, or stands
before a typedef, which it enters unless that one is pending. -/
inductive Onward (scope : Scope) (pending : List String) (e : TypeExpr) (flags : Flags) : Prop
  | ends {result : Resolved} (step : scope.step pending e flags = .answer result)
      (other : ∀ name, result ≠ .error (.cycle name))
      (stays : ∀ name target, ¬ scope.Enters e name target)
  | layer {inner : TypeExpr} {finish : Option Descriptor → Resolved}
      (step : scope.step pending e flags = .inner inner pending finish)
      (same : inner.leaf? = e.leaf?)
  | typedef {name : String} {target : TypeExpr} (enters : scope.Enters e name target)
      (step : scope.step pending e flags =
        if name ∈ pending then .answer (.error (.cycle name))
        else .inner target (name :: pending) (flagged flags))

theorem builtin?_ne_cycle {name : String} {flags : Flags} {result : Resolved}
    (known : builtin? name flags = some result) (cyclic : String) :
    result ≠ .error (.cycle cyclic) := by
  rintro rfl
  simp only [builtin?] at known
  repeat' split at known
  all_goals simp at known

theorem declared_ne_cycle (scope : Scope) (name : String) (flags : Flags) (cyclic : String) :
    scope.declared name flags ≠ .error (.cycle cyclic) := by
  simp only [declared]
  repeat' split
  all_goals simp

theorem onward (scope : Scope) (pending : List String) (e : TypeExpr) (flags : Flags) :
    scope.Onward pending e flags := by
  obtain ⟨name, element, union, nullable⟩ := e
  by_cases several : union ≠ []
  · have refused : scope.step pending ⟨name, element, union, nullable⟩ flags =
        .answer (.error (.union ⟨name, element, union, nullable⟩)) := by simp [step, several]
    refine .ends refused (by simp) ?_
    intro _ _ enters
    have leaf := enters.leaf
    cases element <;> simp [TypeExpr.leaf?, several] at leaf
  obtain rfl : union = [] := by simpa using several
  cases nullable with
  | true =>
    have stripped : scope.step pending ⟨name, element, [], true⟩ flags =
        .inner { name, element } pending (nullableOf flags) := by simp [step]
    exact .layer stripped (TypeExpr.leaf?_strip (e := ⟨name, element, [], true⟩) rfl)
  | false =>
    cases element with
    | some inner =>
      have opened : scope.step pending ⟨name, some inner, [], false⟩ flags =
          .inner inner pending (sequenceOf flags) := by simp [step]
      exact .layer opened (TypeExpr.leaf?_element (e := ⟨name, some inner, [], false⟩) rfl rfl)
    | none =>
      have leaf : TypeExpr.leaf? ⟨name, none, [], false⟩ = some name := by simp [TypeExpr.leaf?]
      cases known : builtin? name flags with
      | some result =>
        have settled : scope.step pending ⟨name, none, [], false⟩ flags = .answer result := by
          simp [step, stepName, known]
        refine .ends settled (builtin?_ne_cycle known) ?_
        intro last _ enters
        obtain rfl : last = name := Option.some.inj (enters.leaf.symm.trans leaf)
        rw [(builtin?_eq_none_iff last {} flags).1 enters.free] at known
        cases known
      | none =>
        cases found : scope.target? name with
        | none =>
          have settled : scope.step pending ⟨name, none, [], false⟩ flags =
              .answer (scope.declared name flags) := by simp [step, stepName, known, found]
          refine .ends settled (declared_ne_cycle scope name flags) ?_
          intro last _ enters
          obtain rfl : last = name := Option.some.inj (enters.leaf.symm.trans leaf)
          rw [enters.found] at found
          cases found
        | some target =>
          have free := (builtin?_eq_none_iff name flags {}).1 known
          exact .typedef ⟨leaf, free, found⟩ (by simp [step, stepName, known, found])

/-- What is made of an inner answer is never a cycle. -/
theorem bind_finish_eq_cycle_iff {pending pending' : List String} {e inner : TypeExpr}
    {flags : Flags} {finish : Option Descriptor → Resolved}
    (step : scope.step pending e flags = .inner inner pending' finish) {result : Resolved}
    {name : String} :
    result.bind finish = .error (.cycle name) ↔ result = .error (.cycle name) := by
  cases result with
  | error cause => exact Iff.rfl
  | ok d =>
    refine ⟨fun finished => ?_, nofun⟩
    change finish d = _ at finished
    rcases finish_cases step with rfl | rfl | rfl
    · cases d <;> cases finished
    · simp only [sequenceOf] at finished
      split at finished <;> cases finished
    · cases finished

/-- While typedefs are pending, a cycle is reported at the first typedef on the way that is pending
or was entered before. The pending ones and those entered together never hold one twice. -/
theorem meaningIn_eq_cycle_iff {pending : List String} {e : TypeExpr} {flags : Flags}
    {name : String} (distinct : pending.Nodup) :
    scope.meaningIn pending e flags = .error (.cycle name) ↔
      ∃ names, scope.Follows e (names ++ [name]) ∧ (names.reverse ++ pending).Nodup ∧
        name ∈ names.reverse ++ pending := by
  induction size : scope.stepsLeft pending e using Nat.strongRecOn generalizing pending e flags with
  | ind n ih =>
    cases scope.onward pending e flags with
    | ends step other stays =>
      rw [meaningIn_answer scope step]
      refine ⟨fun cyclic => absurd cyclic (other name), ?_⟩
      rintro ⟨names, follows, -⟩
      cases names with
      | nil =>
        cases follows with
        | enter first _ => exact absurd first (stays _ _)
      | cons _ _ =>
        cases follows with
        | enter first _ => exact absurd first (stays _ _)
    | layer step same =>
      rw [meaningIn_inner scope step, bind_finish_eq_cycle_iff step,
        ih _ (size ▸ step_decreases step) distinct rfl]
      simp only [follows_iff_of_leaf same]
    | @typedef first target enters step =>
      by_cases blocked : first ∈ pending
      · rw [if_pos blocked] at step
        rw [meaningIn_answer scope step]
        constructor
        · intro cyclic
          cases cyclic
          exact ⟨[], .enter enters (.stop target), distinct, blocked⟩
        · rintro ⟨names, follows, distinct', again⟩
          cases names with
          | nil => rw [(enters.follows_cons_iff.1 follows).1]
          | cons last names =>
            obtain ⟨rfl, -⟩ := enters.follows_cons_iff.1 follows
            -- the pending typedef would be entered a second time
            rw [List.reverse_cons, List.append_assoc] at distinct'
            exact absurd blocked (List.nodup_cons.1 (List.nodup_append.1 distinct').2.1).1
      · rw [if_neg blocked] at step
        rw [meaningIn_inner scope step, bind_finish_eq_cycle_iff step,
          ih _ (size ▸ step_decreases step) (List.nodup_cons.2 ⟨blocked, distinct⟩) rfl]
        constructor
        · rintro ⟨names, follows, facts⟩
          exact ⟨first :: names, .enter enters follows, by simpa using facts⟩
        · rintro ⟨names, follows, facts⟩
          cases names with
          | nil =>
            obtain ⟨rfl, -⟩ := enters.follows_cons_iff.1 follows
            exact absurd facts.2 blocked
          | cons last names =>
            obtain ⟨rfl, rest⟩ := enters.follows_cons_iff.1 follows
            exact ⟨names, rest, by simpa using facts⟩

theorem meaning_eq_cycle_iff {e : TypeExpr} {flags : Flags} {name : String} :
    scope.meaning e flags = .error (.cycle name) ↔ scope.ComesBack e name := by
  rw [meaning, meaningIn_eq_cycle_iff List.nodup_nil]
  simp [ComesBack]

/-! ## Resolution with a bound on its depth -/

/-- Resolution that gives up at a depth of nested resolutions. -/
def resolveWithin (scope : Scope) : ℕ → List String → TypeExpr → Flags → Memo →
    Option (Resolved × Memo)
  | 0, _, _, _, _ => none
  | depth + 1, pending, e, flags, memo =>
    match memo.find? e flags with
    | some result => some (.ok result, memo)
    | none =>
      match scope.step pending e flags with
      | .answer result => some (settle memo e flags result)
      | .inner inner pending' finish =>
        match scope.resolveWithin depth pending' inner {} memo with
        | some (.ok result, memo) => some (settle memo e flags (finish result))
        | some (.error cause, memo) => some (.error cause, memo)
        | none => none

/-- Resolution never goes deeper than there are typedefs to enter and layers to go through. -/
theorem resolveWithin_eq {depth : ℕ} {pending : List String} {e : TypeExpr} {flags : Flags}
    {memo : Memo} (enough : scope.stepsLeft pending e < depth) :
    scope.resolveWithin depth pending e flags memo =
      some (scope.resolveIn pending e flags memo) := by
  obtain ⟨depth, rfl⟩ : ∃ n, depth = n + 1 := ⟨depth - 1, by omega⟩
  fun_induction scope.resolveIn pending e flags memo generalizing depth with
  | case1 pending e flags result hit => simp only [resolveWithin, hit]
  | case2 pending e flags miss result step => simp only [resolveWithin, miss, step]
  | case3 pending e flags miss inner pending' finish step result memo' found ih
  | case4 pending e flags miss inner pending' finish step cause memo' found ih =>
    have shallower := step_decreases step
    obtain ⟨depth, rfl⟩ : ∃ n, depth = n + 1 := ⟨depth - 1, by omega⟩
    have nested := ih depth (by omega)
    rw [found] at nested
    rw [resolveWithin]
    simp only [miss, step, nested]

/-! ## Earlier resolutions -/

/-- What is remembered after some expressions have been resolved, whether they could be or not. -/
def memoAfter (scope : Scope) (earlier : List (TypeExpr × Flags)) : Memo :=
  earlier.foldl (fun memo query => (scope.resolve query.1 query.2 memo).2) []

theorem sound_memoAfter (scope : Scope) (earlier : List (TypeExpr × Flags)) :
    Memo.Sound scope (scope.memoAfter earlier) := by
  suffices general : ∀ memo, Memo.Sound scope memo →
      Memo.Sound scope
        (earlier.foldl (fun memo query => (scope.resolve query.1 query.2 memo).2) memo) from
    general [] (.nil scope)
  induction earlier with
  | nil => exact fun memo sound => sound
  | cons query rest ih => exact fun memo sound => ih _ (resolve_spec sound).2

/-- Whatever has been resolved before, resolving an expression ends, at a depth of nested
resolutions that the typedefs and the expression bound. It complains of a cycle if and only if
following the expression goes through some typedef twice, and names the first one where this
happens. -/
theorem cycles_reported_exactly (scope : Scope) (earlier : List (TypeExpr × Flags)) (e : TypeExpr)
    (flags : Flags) :
    let memo := scope.memoAfter earlier
    let answer := scope.resolve e flags memo
    (∀ depth, scope.typedefs.length * (scope.layers + 1) + e.weight < depth →
      scope.resolveWithin depth [] e flags memo = some answer) ∧
    ((∃ name, answer.1 = .error (.cycle name)) ↔ ∃ names, scope.Follows e names ∧ ¬ names.Nodup) ∧
    ∀ name, (answer.1 = .error (.cycle name) ↔
        ∃ names, scope.Follows e (names ++ [name]) ∧ names.Nodup ∧ name ∈ names) ∧
      (Unresolvable.cycle name).message = "typedef cycle through '" ++ name ++ "'" := by
  intro memo answer
  have found : answer.1 = scope.meaning e flags := (resolve_spec (scope.sound_memoAfter earlier)).1
  have named : ∀ name, answer.1 = .error (.cycle name) ↔ scope.ComesBack e name := by
    intro name
    rw [found, meaning_eq_cycle_iff]
  refine ⟨fun depth enough => resolveWithin_eq ?_, ?_, fun name => ⟨named name, rfl⟩⟩
  · have all : unvisited scope.typedefNames [] = scope.typedefs.length := by
      simp [unvisited, typedefNames]
    rwa [stepsLeft, all]
  · simp only [named, exists_comesBack_iff]

end Scope

end NativeBridge
