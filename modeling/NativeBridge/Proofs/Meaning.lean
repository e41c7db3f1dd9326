import Mathlib.Logic.Relation
import NativeBridge.Typing.Resolve

/-!
# What a type expression means

Resolution answers from a memo where it can. The meaning of an expression is what resolution finds
with nothing remembered, and a sound memo holds meanings only. The path that resolution follows from
an expression is the same whatever typedefs are pending, so an answer from the memo is the answer
that the path would have given: a path that ends cannot come back to a typedef that led to it.
-/
namespace NativeBridge

open Relation (TransGen)

/-- From where every path ends, none comes back. -/
theorem not_cyclic_of_acc {α : Type} {r : α → α → Prop} {a : α} (ends : Acc (fun b a => r a b) a) :
    ¬ TransGen r a a := by
  induction ends with
  | intro a _ ih =>
    intro cycle
    obtain ⟨next, first, rest⟩ := TransGen.head'_iff.1 cycle
    exact ih next first (TransGen.tail' rest first)

namespace Scope

/-- Resolution without a memo, while the typedefs in `pending` are being resolved. -/
def meaningIn (scope : Scope) (pending : List String) (e : TypeExpr) (flags : Flags) : Resolved :=
  match _step : scope.step pending e flags with
  | .answer result => result
  | .inner inner pending' finish =>
    match scope.meaningIn pending' inner {} with
    | .ok result => finish result
    | .error cause => .error cause
termination_by scope.stepsLeft pending e
decreasing_by exact step_decreases _step

variable (scope : Scope)

def meaning (e : TypeExpr) (flags : Flags) : Resolved := scope.meaningIn [] e flags

theorem meaningIn_answer {pending : List String} {e : TypeExpr} {flags : Flags} {result : Resolved}
    (h : scope.step pending e flags = .answer result) :
    scope.meaningIn pending e flags = result := by
  rw [meaningIn]
  split
  · simp_all
  · simp_all

theorem meaningIn_inner {pending pending' : List String} {e inner : TypeExpr} {flags : Flags}
    {finish : Option Descriptor → Resolved}
    (h : scope.step pending e flags = .inner inner pending' finish) :
    scope.meaningIn pending e flags = (scope.meaningIn pending' inner {}).bind finish := by
  rw [meaningIn]
  split
  · simp_all
  · rename_i found
    rw [h] at found
    cases found
    cases scope.meaningIn pending' inner {} <;> rfl

/-- One step along the path of an expression. -/
inductive Leads : TypeExpr → TypeExpr → Prop
  | nullable {e : TypeExpr} (plain : e.union = []) (null : e.nullable = true) :
      Leads e { name := e.name, element := e.element }
  | element {e inner : TypeExpr} (plain : e.union = []) (null : e.nullable = false)
      (sequence : e.element = some inner) : Leads e inner
  | typedef {name : String} {target : TypeExpr} (free : builtin? name {} = none)
      (found : scope.target? name = some target) : Leads { name } target

end Scope

theorem builtin?_eq_none_iff (name : String) (flags flags' : Flags) :
    builtin? name flags = none ↔ builtin? name flags' = none := by
  simp only [builtin?]
  repeat' split
  all_goals simp

namespace Scope

variable {scope : Scope}

/-- Away from the pending typedefs, a step does not depend on them. -/
theorem step_unblocked {e : TypeExpr} {p q : List String} (flags : Flags)
    (hp : ∀ n ∈ p, e ≠ { name := n }) (hq : ∀ n ∈ q, e ≠ { name := n }) :
    (∃ result, scope.step p e flags = .answer result ∧ scope.step q e flags = .answer result) ∨
      ∃ inner more finish, scope.Leads e inner ∧ (∀ n ∈ more, e = { name := n }) ∧
        scope.step p e flags = .inner inner (more ++ p) finish ∧
        scope.step q e flags = .inner inner (more ++ q) finish := by
  obtain ⟨name, element, union, nullable⟩ := e
  by_cases several : union ≠ []
  · refine .inl ⟨.error (.union ⟨name, element, union, nullable⟩), ?_⟩
    simp [step, several]
  obtain rfl : union = [] := by simpa using several
  cases nullable with
  | true =>
    exact .inr ⟨{ name, element }, [], nullableOf flags, .nullable rfl rfl, by simp, by simp [step]⟩
  | false =>
    cases element with
    | some inner =>
      exact .inr ⟨inner, [], sequenceOf flags, .element rfl rfl rfl, by simp, by simp [step]⟩
    | none =>
      cases known : builtin? name flags with
      | some result => exact .inl ⟨result, by simp [step, stepName, known]⟩
      | none =>
        cases found : scope.target? name with
        | none => exact .inl ⟨scope.declared name flags, by simp [step, stepName, known, found]⟩
        | some target =>
          have outP : name ∉ p := fun member => hp name member rfl
          have outQ : name ∉ q := fun member => hq name member rfl
          refine .inr ⟨target, [name], flagged flags,
            .typedef ((builtin?_eq_none_iff name flags {}).1 known) found, by simp, ?_⟩
          simp [step, stepName, known, found, outP, outQ]

/-- What a step leads to lies on the path, and is all that lies there. -/
theorem leads_of_step {pending pending' : List String} {e inner : TypeExpr} {flags : Flags}
    {finish : Option Descriptor → Resolved}
    (h : scope.step pending e flags = .inner inner pending' finish) :
    scope.Leads e inner ∧ (∀ other, scope.Leads e other → other = inner) ∧
      (pending' = pending ∨ ∃ n, e = { name := n } ∧ pending' = n :: pending) := by
  obtain ⟨name, element, union, nullable⟩ := e
  by_cases several : union ≠ []
  · simp [step, several] at h
  obtain rfl : union = [] := by simpa using several
  cases nullable with
  | true =>
    simp only [step, ne_eq, not_true_eq_false, if_false, if_true, Step.inner.injEq] at h
    obtain ⟨rfl, rfl, rfl⟩ := h
    refine ⟨.nullable rfl rfl, ?_, .inl rfl⟩
    intro other leads
    cases leads with
    | nullable => rfl
    | element _ null => cases null
  | false =>
    cases element with
    | some element =>
      simp only [step, ne_eq, not_true_eq_false, if_false, Bool.false_eq_true,
        Step.inner.injEq] at h
      obtain ⟨rfl, rfl, rfl⟩ := h
      refine ⟨.element rfl rfl rfl, ?_, .inl rfl⟩
      intro other leads
      cases leads with
      | nullable _ null => cases null
      | element _ _ sequence => exact (Option.some.inj sequence).symm
    | none =>
      simp only [step, ne_eq, not_true_eq_false, if_false, Bool.false_eq_true, stepName] at h
      split at h
      · cases h
      · rename_i known
        split at h
        · rename_i target found
          split at h
          · cases h
          · simp only [Step.inner.injEq] at h
            obtain ⟨rfl, rfl, rfl⟩ := h
            refine ⟨.typedef ((builtin?_eq_none_iff name flags {}).1 known) found, ?_,
              .inr ⟨name, rfl, rfl⟩⟩
            intro other leads
            cases leads with
            | nullable _ null => cases null
            | element _ _ sequence => cases sequence
            | typedef _ found' => exact Option.some.inj (found'.symm.trans found)
        · cases h

/-- Where a step answers with a descriptor, the path ends. -/
theorem not_leads_of_answer {pending : List String} {e other : TypeExpr} {flags : Flags}
    {d : Option Descriptor} (h : scope.step pending e flags = .answer (.ok d)) :
    ¬ scope.Leads e other := by
  intro leads
  cases leads with
  | nullable plain null => simp [step, plain, null] at h
  | element plain null sequence => simp [step, plain, null, sequence] at h
  | @typedef name target free found =>
    have known := (builtin?_eq_none_iff name {} flags).1 free
    by_cases blocked : name ∈ pending <;> simp [step, stepName, known, found, blocked] at h

/-- The path of an expression ends. -/
def Settled (scope : Scope) (e : TypeExpr) : Prop := Acc (fun inner e => scope.Leads e inner) e

/-- Every pending typedef leads to the expression. -/
def Trail (scope : Scope) (pending : List String) (e : TypeExpr) : Prop :=
  ∀ n ∈ pending, TransGen scope.Leads { name := n } e

theorem trail_nil (e : TypeExpr) : scope.Trail [] e := by
  intro n member
  cases member

/-- A path that ends does not come back to a typedef that is pending. -/
theorem Settled.ne_pending {e : TypeExpr} (settled : scope.Settled e) {pending : List String}
    (trail : scope.Trail pending e) : ∀ n ∈ pending, e ≠ { name := n } := by
  rintro n member rfl
  exact not_cyclic_of_acc settled (trail n member)

theorem Trail.step {e inner : TypeExpr} {pending : List String} (trail : scope.Trail pending e)
    (more : List String) (leads : scope.Leads e inner)
    (entered : ∀ n ∈ more, e = { name := n }) : scope.Trail (more ++ pending) inner := by
  intro n member
  rcases List.mem_append.1 member with new | old
  · exact entered n new ▸ TransGen.single leads
  · exact (trail n old).tail leads

theorem Trail.inner {e inner : TypeExpr} {pending pending' : List String} {flags : Flags}
    {finish : Option Descriptor → Resolved} (trail : scope.Trail pending e)
    (h : scope.step pending e flags = .inner inner pending' finish) :
    scope.Trail pending' inner := by
  obtain ⟨leads, -, rfl | ⟨n, rfl, rfl⟩⟩ := leads_of_step h
  · exact trail.step [] leads (by simp)
  · exact trail.step [n] leads (by simp)

/-- On a path that ends, the meaning does not depend on the typedefs that led there. -/
theorem Settled.meaningIn_eq {e : TypeExpr} (settled : scope.Settled e) {p q : List String}
    (hp : scope.Trail p e) (hq : scope.Trail q e) (flags : Flags) :
    scope.meaningIn p e flags = scope.meaningIn q e flags := by
  have here : scope.Settled e := settled
  induction settled generalizing p q flags with
  | intro e _ ih =>
    obtain ⟨result, stepP, stepQ⟩ | ⟨inner, more, finish, leads, entered, stepP, stepQ⟩ :=
      step_unblocked flags (here.ne_pending hp) (here.ne_pending hq)
    · rw [meaningIn_answer scope stepP, meaningIn_answer scope stepQ]
    · rw [meaningIn_inner scope stepP, meaningIn_inner scope stepQ,
        ih inner leads (hp.step more leads entered) (hq.step more leads entered) {}
          (here.inv leads)]

/-- An expression that has a meaning has a path that ends. -/
theorem settled_of_meaningIn {pending : List String} {e : TypeExpr} {flags : Flags}
    {d : Option Descriptor} (h : scope.meaningIn pending e flags = .ok d) : scope.Settled e := by
  fun_induction scope.meaningIn pending e flags generalizing d with
  | case1 pending e flags result step =>
    subst h
    exact .intro e fun inner leads => absurd leads (not_leads_of_answer step)
  | case2 pending e flags inner pending' finish step result found ih =>
    obtain ⟨-, only, -⟩ := leads_of_step step
    exact .intro e fun other leads => only other leads ▸ ih found
  | case3 pending e flags inner pending' finish step cause found ih => cases h

theorem meaningIn_eq_meaning {pending : List String} {e : TypeExpr} {flags : Flags}
    (trail : scope.Trail pending e) {d : Option Descriptor}
    (h : scope.meaningIn pending e flags = .ok d ∨ scope.meaning e flags = .ok d) :
    scope.meaningIn pending e flags = scope.meaning e flags := by
  have settled : scope.Settled e := h.elim settled_of_meaningIn settled_of_meaningIn
  exact settled.meaningIn_eq trail (trail_nil e) flags

end Scope

/-- What a memo holds is what the expressions mean. -/
def Memo.Sound (scope : Scope) (memo : Memo) : Prop :=
  ∀ r ∈ memo, scope.meaning r.type r.flags = .ok r.result

theorem Memo.Sound.nil (scope : Scope) : Memo.Sound scope [] := by
  intro r member
  cases member

theorem Memo.Sound.find? {scope : Scope} {memo : Memo} (sound : Memo.Sound scope memo)
    {e : TypeExpr} {flags : Flags} {d : Option Descriptor} (found : memo.find? e flags = some d) :
    scope.meaning e flags = .ok d := by
  obtain ⟨r, hit, rfl⟩ := Option.map_eq_some_iff.1 found
  have key : r.type = e ∧ r.flags = flags := by simpa using List.find?_some hit
  have member := sound r (List.mem_of_find?_eq_some hit)
  rwa [key.1, key.2] at member

theorem settle_fst (memo : Memo) (e : TypeExpr) (flags : Flags) (result : Resolved) :
    (settle memo e flags result).1 = result := by
  cases result <;> rfl

theorem Memo.Sound.settle {scope : Scope} {memo : Memo} (sound : Memo.Sound scope memo)
    {e : TypeExpr} {flags : Flags} {result : Resolved}
    (h : ∀ d, result = .ok d → scope.meaning e flags = .ok d) :
    Memo.Sound scope (settle memo e flags result).2 := by
  cases result with
  | error cause => exact sound
  | ok d =>
    intro r member
    rcases List.mem_append.1 member with old | new
    · exact sound r old
    · rw [List.mem_singleton.1 new]
      exact h d rfl

namespace Scope

variable {scope : Scope}

/-- With a sound memo, resolution finds the meaning and keeps the memo sound. -/
theorem resolveIn_spec {pending : List String} {e : TypeExpr} {flags : Flags} {memo : Memo}
    (sound : Memo.Sound scope memo) (trail : scope.Trail pending e) :
    (scope.resolveIn pending e flags memo).1 = scope.meaningIn pending e flags ∧
      Memo.Sound scope (scope.resolveIn pending e flags memo).2 := by
  fun_induction scope.resolveIn pending e flags memo with
  | case1 pending e flags result hit =>
    have known := sound.find? hit
    exact ⟨by rw [meaningIn_eq_meaning trail (.inr known), known], sound⟩
  | case2 pending e flags miss result step =>
    have answer := meaningIn_answer scope step
    refine ⟨by rw [settle_fst, answer], sound.settle ?_⟩
    rintro d rfl
    rw [← meaningIn_eq_meaning trail (.inl answer), answer]
  | case3 pending e flags miss inner pending' finish step result memo' found ih =>
    obtain ⟨same, sound'⟩ := ih (trail.inner step)
    rw [found] at same sound'
    have answer : scope.meaningIn pending e flags = finish result := by
      rw [meaningIn_inner scope step, ← same]
      rfl
    refine ⟨by rw [settle_fst, answer], sound'.settle ?_⟩
    intro d finished
    have known := answer.trans finished
    rw [← meaningIn_eq_meaning trail (.inl known), known]
  | case4 pending e flags miss inner pending' finish step cause memo' found ih =>
    obtain ⟨same, sound'⟩ := ih (trail.inner step)
    rw [found] at same sound'
    refine ⟨?_, sound'⟩
    rw [meaningIn_inner scope step, ← same]
    rfl

/-- From an empty memo on, resolution finds meanings. -/
theorem resolve_spec {e : TypeExpr} {flags : Flags} {memo : Memo} (sound : Memo.Sound scope memo) :
    (scope.resolve e flags memo).1 = scope.meaning e flags ∧
      Memo.Sound scope (scope.resolve e flags memo).2 :=
  resolveIn_spec sound (trail_nil e)

/-! ## What a meaning can be -/

theorem answer_cases {pending : List String} {e : TypeExpr} {flags : Flags} {d : Option Descriptor}
    (h : scope.step pending e flags = .answer (.ok d)) :
    e = { name := e.name } ∧ (builtin? e.name flags = some (.ok d) ∨
      builtin? e.name flags = none ∧ scope.target? e.name = none ∧
        scope.declared e.name flags = .ok d) := by
  obtain ⟨name, element, union, nullable⟩ := e
  simp only [step] at h
  split at h
  · cases h
  · rename_i plain
    split at h
    · cases h
    · rename_i null
      split at h
      · cases h
      · rename_i missing
        refine ⟨by simp_all, ?_⟩
        simp only [stepName] at h
        split at h
        · rename_i known
          simp only [Step.answer.injEq] at h
          exact .inl (h ▸ known)
        · rename_i unknown
          split at h
          · split at h <;> cases h
          · rename_i free
            simp only [Step.answer.injEq] at h
            exact .inr ⟨unknown, free, h⟩

theorem finish_cases {pending pending' : List String} {e inner : TypeExpr} {flags : Flags}
    {finish : Option Descriptor → Resolved}
    (h : scope.step pending e flags = .inner inner pending' finish) :
    finish = nullableOf flags ∨ finish = sequenceOf flags ∨ finish = flagged flags := by
  simp only [step, stepName] at h
  split at h
  · cases h
  · split at h
    · cases h
      exact .inl rfl
    · split at h
      · cases h
        exact .inr (.inl rfl)
      · split at h
        · cases h
        · split at h
          · split at h
            · cases h
            · cases h
              exact .inr (.inr rfl)
          · cases h

/-- The names that a base refers to are declared as what it says. -/
def Declares (scope : Scope) : Base → Prop
  | .scalar _ | .string | .sequence _ => True
  | .interface name => name ∈ scope.interfaces
  | .valueType name => name ∈ scope.valueTypes
  | .callback name => name ∈ scope.callbacks

theorem builtin?_some {name : String} {flags : Flags} {d : Descriptor}
    (h : builtin? name flags = some (.ok (some d))) : d.flags = flags ∧ scope.Declares d.base := by
  simp only [builtin?] at h
  split at h
  · cases h
  · split at h
    · cases h
    · split at h
      · cases h
        exact ⟨rfl, trivial⟩
      · split at h
        · cases h
          exact ⟨rfl, trivial⟩
        · cases h

theorem declared_some {name : String} {flags : Flags} {d : Option Descriptor}
    (h : scope.declared name flags = .ok d) :
    ∃ found, d = some found ∧ found.flags = flags ∧ scope.Declares found.base := by
  simp only [declared] at h
  split at h
  · cases h
    exact ⟨_, rfl, rfl, ‹_›⟩
  · split at h
    · cases h
      exact ⟨_, rfl, rfl, ‹_›⟩
    · split at h
      · cases h
        exact ⟨_, rfl, rfl, ‹_›⟩
      · cases h

/-- A meaning carries the flags that were asked for and refers to declared names only. -/
theorem meaningIn_some {pending : List String} {e : TypeExpr} {flags : Flags} {d : Descriptor}
    (h : scope.meaningIn pending e flags = .ok (some d)) :
    d.flags = flags ∧ scope.Declares d.base := by
  fun_induction scope.meaningIn pending e flags generalizing d with
  | case1 pending e flags result step =>
    subst h
    obtain ⟨-, known | ⟨-, -, found⟩⟩ := answer_cases step
    · exact builtin?_some known
    · obtain ⟨d', same, facts⟩ := declared_some found
      cases same
      exact facts
  | case2 pending e flags inner pending' finish step result found ih =>
    rcases finish_cases step with rfl | rfl | rfl
    · cases result with
      | none => cases h
      | some d' =>
        cases h
        exact ⟨rfl, (ih found).2⟩
    · simp only [sequenceOf] at h
      split at h
      · cases h
        exact ⟨rfl, trivial⟩
      · cases h
    · cases result with
      | none => cases h
      | some d' =>
        cases h
        exact ⟨rfl, (ih found).2⟩
  | case3 pending e flags inner pending' finish step cause found ih => cases h

/-! ## Larger scopes -/

/-- What one scope declares, another declares too, and as the same. -/
structure Within (small large : Scope) : Prop where
  target : ∀ n t, small.target? n = some t → large.target? n = some t
  declared : ∀ n flags d, small.target? n = none → small.declared n flags = .ok d →
    large.target? n = none ∧ large.declared n flags = .ok d

variable {small large : Scope}

theorem Within.step_answer (within : Within small large) {pending : List String} {e : TypeExpr}
    {flags : Flags} {d : Option Descriptor} (h : small.step pending e flags = .answer (.ok d)) :
    large.step pending e flags = .answer (.ok d) := by
  obtain ⟨plain, known | ⟨unknown, free, found⟩⟩ := answer_cases h
  · rw [plain]
    simp [step, stepName, known]
  · obtain ⟨free', found'⟩ := within.declared _ _ _ free found
    rw [plain]
    simp [step, stepName, unknown, free', found']

theorem Within.step_inner (within : Within small large) {pending pending' : List String}
    {e inner : TypeExpr} {flags : Flags} {finish : Option Descriptor → Resolved}
    (h : small.step pending e flags = .inner inner pending' finish) :
    large.step pending e flags = .inner inner pending' finish := by
  simp only [step] at h ⊢
  split at h
  · cases h
  · rename_i plain
    rw [if_neg plain]
    split at h
    · rename_i null
      rw [if_pos null, h]
    · rename_i null
      rw [if_neg null]
      split at h
      · exact h
      · simp only [stepName] at h ⊢
        split at h
        · cases h
        · split at h
          · rename_i target found
            simp only [within.target _ _ found]
            exact h
          · cases h

/-- A meaning stays the same in a larger scope. -/
theorem Within.meaningIn (within : Within small large) {pending : List String} {e : TypeExpr}
    {flags : Flags} {d : Option Descriptor} (h : small.meaningIn pending e flags = .ok d) :
    large.meaningIn pending e flags = .ok d := by
  fun_induction small.meaningIn pending e flags generalizing d with
  | case1 pending e flags result step =>
    subst h
    exact meaningIn_answer large (within.step_answer step)
  | case2 pending e flags inner pending' finish step result found ih =>
    rw [meaningIn_inner large (within.step_inner step), ih found]
    exact h
  | case3 pending e flags inner pending' finish step cause found ih => cases h

end Scope

end NativeBridge
