import NativeBridge.Proofs.Crossing

/-!
# When a callback can be planned

A callback can be planned when native code can hand over its arguments and take its result. Planning
the callbacks of a session leaves one plan for each, in their order.
-/
namespace NativeBridge.Session

variable {s : Session}

theorem steady_planCallbackArgument (c : Callback) (a : Argument) :
    s.Steady (s.planCallbackArgument c a) := by
  refine .within _ ((steady_argument a.type a.flags).bind fun m => ?_)
  exact (Steady.check _).bind fun _ => .pure _

/-- An argument of a callback is passed like any other, and its type can come from native code. -/
theorem outcome_planCallbackArgument_eq_ok_iff {c : Callback} {a : Argument}
    {planned : PlannedArgument} :
    (s.planCallbackArgument c a).outcome = .ok planned ↔
      planned.name = a.name ∧ (s.argument a.type a.flags).outcome = .ok planned.marshaling ∧
        planned.marshaling.base.twoWay = true := by
  rw [planCallbackArgument, Planning.outcome_within, except_mapError_eq_ok_iff]
  refine ((steady_argument a.type a.flags).outcome_bind_eq_ok_iff fun m =>
    (Steady.check _).bind fun _ => .pure _).trans ?_
  constructor
  · rintro ⟨m, passed, rest⟩
    obtain ⟨text, handed, same⟩ :=
      ((Steady.check (s := s) _).outcome_bind_eq_ok_iff fun _ => .pure _).1 rest
    cases same
    rw [Planning.outcome_check, except_mapError_eq_ok_iff] at handed
    exact ⟨rfl, passed, m.callableParam_ok_iff.1 ⟨text, handed⟩⟩
  · rintro ⟨named, passed, back⟩
    obtain ⟨text, handed⟩ := planned.marshaling.callableParam_ok_iff.2 back
    refine ⟨planned.marshaling, passed,
      ((Steady.check (s := s) _).outcome_bind_eq_ok_iff fun _ => .pure _).2 ⟨text, ?_, ?_⟩⟩
    · rw [Planning.outcome_check, except_mapError_eq_ok_iff, handed]
    · rw [← named]
      rfl

theorem exists_planCallbackArgument_iff {c : Callback} {a : Argument} :
    (∃ planned, (s.planCallbackArgument c a).outcome = .ok planned) ↔
      s.LegalCallbackArgument a.type a.flags := by
  simp only [outcome_planCallbackArgument_eq_ok_iff, outcome_argument_eq_ok_iff]
  constructor
  · rintro ⟨planned, -, ⟨d, resolved, found⟩, back⟩
    exact ⟨d, resolved, (classify_ok_of_meaning resolved).1 ⟨_, found⟩, classify_base found ▸ back⟩
  · rintro ⟨d, resolved, passable, back⟩
    obtain ⟨m, found⟩ := (classify_ok_of_meaning resolved).2 passable
    exact ⟨⟨a.name, m⟩, rfl, ⟨d, resolved, found⟩, (classify_base found).symm ▸ back⟩

theorem callbackResult_eq_ok_iff {d : Descriptor} {returns : Option Marshaling} :
    s.callbackResult d = .ok returns ↔
      ∃ m, s.classify (some d) = .ok m ∧ returns = some m ∧
        ((∃ kind, d.base = .scalar kind) ∨ ∃ name, d.base = .interface name) := by
  refine except_bind_eq_ok_iff.trans (exists_congr fun m => and_congr_right fun found => ?_)
  rw [← classify_base found]
  cases m with
  | scalar | interface | sharedInterface =>
    simp [Marshaling.returnedByCallback, Marshaling.variant, Marshaling.base, eq_comm]
  | string | sequence | valueType | callback =>
    simp [Marshaling.returnedByCallback, Marshaling.variant, Marshaling.base]

theorem steady_callbackResultOf (d : Descriptor) : s.Steady (s.callbackResultOf d) :=
  (steady_marshalingOf (some d)).bind fun m => .check m.returnedByCallback

@[simp] theorem outcome_callbackResultOf (d : Descriptor) :
    (s.callbackResultOf d).outcome = s.callbackResult d := by
  rw [callbackResultOf, (steady_marshalingOf (some d)).outcome_bind fun m => .check _,
    outcome_marshalingOf]
  rfl

theorem steady_planCallbackResult (c : Callback) : s.Steady (s.planCallbackResult c) := by
  refine .within _ ((steady_resolve c.returnType {}).bind fun d => ?_)
  cases d with
  | none => exact .pure none
  | some d => exact steady_callbackResultOf d

/-- The result of a callback is nothing, a scalar or an interface. -/
def Returns (s : Session) (e : TypeExpr) (returns : Option Marshaling) : Prop :=
  (s.scope.meaning e {} = .ok none ∧ returns = none) ∨
    ∃ d m, s.scope.meaning e {} = .ok (some d) ∧ s.classify (some d) = .ok m ∧ returns = some m ∧
      ((∃ kind, d.base = .scalar kind) ∨ ∃ name, d.base = .interface name)

theorem outcome_planCallbackResult_eq_ok_iff {c : Callback} {returns : Option Marshaling} :
    (s.planCallbackResult c).outcome = .ok returns ↔ s.Returns c.returnType returns := by
  rw [planCallbackResult, Planning.outcome_within, except_mapError_eq_ok_iff]
  refine ((steady_resolve c.returnType {}).outcome_bind_eq_ok_iff fun d => ?_).trans ?_
  · cases d with
    | none => exact .pure none
    | some d => exact steady_callbackResultOf d
  · simp only [outcome_resolve, except_mapError_eq_ok_iff]
    constructor
    · rintro ⟨d, resolved, rest⟩
      cases d with
      | none =>
        cases rest
        exact .inl ⟨resolved, rfl⟩
      | some d =>
        obtain ⟨m, found⟩ :=
          callbackResult_eq_ok_iff.1 ((outcome_callbackResultOf d).symm.trans rest)
        exact .inr ⟨d, m, resolved, found⟩
    · rintro (⟨resolved, rfl⟩ | ⟨d, m, resolved, found⟩)
      · exact ⟨none, resolved, rfl⟩
      · exact ⟨some d, resolved,
          (outcome_callbackResultOf d).trans (callbackResult_eq_ok_iff.2 ⟨m, found⟩)⟩

theorem exists_returns_iff {e : TypeExpr} :
    (∃ returns, s.Returns e returns) ↔ s.LegalCallbackResult e := by
  constructor
  · rintro ⟨returns, ⟨resolved, -⟩ | ⟨d, m, resolved, found, -, kind⟩⟩
    · exact .inl resolved
    · refine .inr ⟨d, resolved, ?_⟩
      have passable := (classify_ok_of_meaning resolved).1 ⟨m, found⟩
      rcases kind with ⟨kind, base⟩ | interface
      · simp only [Passable, base] at passable
        exact .inl ⟨kind, base, passable⟩
      · exact .inr interface
  · rintro (resolved | ⟨d, resolved, allowed⟩)
    · exact ⟨none, .inl ⟨resolved, rfl⟩⟩
    · -- a result is asked for without flags, so that a nullable interface is passed by pointer
      have plain : d.flags = {} := (Scope.meaningIn_some resolved).1
      have passable : s.Passable d := by
        rcases allowed with ⟨kind, base, notNull⟩ | ⟨name, base⟩
        · simpa [Passable, base] using notNull
        · simp only [Passable, base, plain]
          intro _ indirect
          cases indirect
      obtain ⟨m, found⟩ := (classify_ok_of_meaning resolved).2 passable
      refine ⟨some m, .inr ⟨d, m, resolved, found, rfl, allowed.imp_left ?_⟩⟩
      rintro ⟨kind, base, -⟩
      exact ⟨kind, base⟩

/-! ## Callbacks -/

/-- A callback whose arguments and result can cross. -/
structure LegalCallback (s : Session) (c : Callback) : Prop where
  arguments : ∀ a ∈ c.arguments, s.LegalCallbackArgument a.type a.flags
  result : s.LegalCallbackResult c.returnType

theorem steady_callbackPlan (c : Callback) : s.Steady (s.callbackPlan c) := by
  refine (Steady.mapM (steady_planCallbackArgument c) c.arguments).bind fun arguments => ?_
  exact (steady_planCallbackResult c).bind fun returns => .pure _

theorem outcome_callbackPlan_eq_ok_iff {c : Callback} {plan : CallbackPlan} :
    (s.callbackPlan c).outcome = .ok plan ↔
      plan.callback = c ∧ plan.shim = s.mangle c.name "__invoke__" c.arguments.length ∧
        List.Forall₂ (fun a b => (s.planCallbackArgument c a).outcome = .ok b) c.arguments
          plan.arguments ∧
        s.Returns c.returnType plan.returns := by
  refine ((Steady.mapM (steady_planCallbackArgument c) c.arguments).outcome_bind_eq_ok_iff
    fun arguments => (steady_planCallbackResult c).bind fun returns => .pure _).trans ?_
  rw [Steady.outcome_mapM (steady_planCallbackArgument c)]
  simp only [except_mapM_eq_ok_iff]
  constructor
  · rintro ⟨arguments, all, rest⟩
    obtain ⟨returns, returned, same⟩ :=
      ((steady_planCallbackResult c).outcome_bind_eq_ok_iff fun returns => .pure _).1 rest
    cases same
    exact ⟨rfl, rfl, all, outcome_planCallbackResult_eq_ok_iff.1 returned⟩
  · rintro ⟨rfl, shim, all, returned⟩
    refine ⟨plan.arguments, all,
      ((steady_planCallbackResult _).outcome_bind_eq_ok_iff fun returns => .pure _).2
        ⟨plan.returns, outcome_planCallbackResult_eq_ok_iff.2 returned, ?_⟩⟩
    rw [Planning.outcome_pure, ← shim]

theorem exists_callbackPlan_iff {c : Callback} :
    (∃ plan, (s.callbackPlan c).outcome = .ok plan) ↔ s.LegalCallback c := by
  simp only [outcome_callbackPlan_eq_ok_iff]
  constructor
  · rintro ⟨plan, -, -, all, returned⟩
    refine ⟨?_, exists_returns_iff.1 ⟨_, returned⟩⟩
    intro a member
    exact exists_planCallbackArgument_iff.1 (exists_forall₂_iff.1 ⟨_, all⟩ a member)
  · rintro ⟨arguments, result⟩
    obtain ⟨planned, all⟩ := exists_forall₂_iff.2 fun a member =>
      (exists_planCallbackArgument_iff (c := c)).2 (arguments a member)
    obtain ⟨returns, returned⟩ := exists_returns_iff.2 result
    exact ⟨⟨c, _, planned, returns⟩, rfl, rfl, all, returned⟩

/-! ## All callbacks -/

/-- Planning a callback that is not planned yet adds its plan and no other. -/
theorem runFrom_planCallback {c : Callback} {p : Progress} (sound : s.Sound p)
    (fresh : p.callbacks.find? (·.callback.name = c.name) = none) :
    ∃ p₁, s.Sound p₁ ∧ p.SameTables p₁ ∧
      (s.planCallback c).runFrom p =
        match (s.callbackPlan c).outcome with
        | .error e => (.error e, p₁)
        | .ok plan =>
          (.ok plan, { p₁ with callbacks := p₁.callbacks ++ [plan],
                               log := p₁.log ++ [.callback c.name plan.shim] }) := by
  obtain ⟨p₁, ran, sound₁, same⟩ := (steady_callbackPlan c).runFrom_eq sound
  refine ⟨p₁, sound₁, same, ?_⟩
  rw [planCallback, ExceptT.runFrom_bind_ok (ExceptT.runFrom_get p), fresh]
  cases found : (s.callbackPlan c).outcome with
  | error e => exact ExceptT.runFrom_bind_error (found ▸ ran)
  | ok plan => exact ExceptT.runFrom_bind_ok (found ▸ ran)

/-- Progress once some callbacks are planned: a plan for each of them, and the records as before. -/
structure CallbacksPlanned (s : Session) (start : Progress) (done : List Callback) (p : Progress) :
    Prop where
  sound : s.Sound p
  plans : List.Forall₂ (fun c plan => (s.callbackPlan c).outcome = .ok plan) done p.callbacks
  slots : p.slots = start.slots
  layouts : p.layouts = start.layouts

theorem map_callback_of_plans {done : List Callback} {plans : List CallbackPlan}
    (h : List.Forall₂ (fun c plan => (s.callbackPlan c).outcome = .ok plan) done plans) :
    plans.map (·.callback) = done := by
  have same : List.Forall₂ (· = ·) done (plans.map (·.callback)) :=
    List.forall₂_map_right_iff.2 <| h.imp fun c plan found =>
      (outcome_callbackPlan_eq_ok_iff.1 found).1.symm
  exact (List.forall₂_eq_eq_eq ▸ same).symm

theorem CallbacksPlanned.fresh {start p : Progress} {done rest : List Callback} {c : Callback}
    (h : s.CallbacksPlanned start done p) (split : s.declarations.callbacks = done ++ c :: rest) :
    p.callbacks.find? (·.callback.name = c.name) = none :=
  find?_name_fresh s.callback_names_nodup split (map_callback_of_plans h.plans)

theorem CallbacksPlanned.step {start p p' : Progress} {done rest : List Callback} {c : Callback}
    {plan : CallbackPlan} (h : s.CallbacksPlanned start done p)
    (split : s.declarations.callbacks = done ++ c :: rest)
    (ran : (s.planCallback c).runFrom p = (.ok plan, p')) :
    s.CallbacksPlanned start (done ++ [c]) p' := by
  obtain ⟨p₁, sound, same, effect⟩ := runFrom_planCallback h.sound (h.fresh split)
  rw [ran] at effect
  cases found : (s.callbackPlan c).outcome with
  | error e =>
    rw [found] at effect
    cases effect
  | ok planned =>
    rw [found] at effect
    cases effect
    refine ⟨sound, ?_, same.slots.trans h.slots, same.layouts.trans h.layouts⟩
    rw [same.callbacks]
    exact List.rel_append h.plans (.cons found .nil)

/-- All callbacks are planned when each of them is legal. -/
theorem planCallbacks_iff {start : Progress} (sound : s.Sound start) (none : start.callbacks = []) :
    ((∃ p, (s.declarations.callbacks.forM fun c => discard (s.planCallback c)).runFrom start =
        (.ok (), p)) ↔ ∀ c ∈ s.declarations.callbacks, s.LegalCallback c) ∧
      ∀ p, (s.declarations.callbacks.forM fun c => discard (s.planCallback c)).runFrom start =
        (.ok (), p) → s.CallbacksPlanned start s.declarations.callbacks p := by
  refine ExceptT.forM_runFrom_iff (s.CallbacksPlanned start) ?_ ?_
    ⟨sound, none ▸ .nil, rfl, rfl⟩
  · intro done c rest p split here
    obtain ⟨p₁, -, -, effect⟩ := runFrom_planCallback here.sound (here.fresh split)
    simp only [ExceptT.runFrom_discard_eq_ok_iff, effect, ← exists_callbackPlan_iff]
    cases (s.callbackPlan c).outcome <;> simp
  · intro done c rest p p' split here ran
    obtain ⟨plan, ran⟩ := ExceptT.runFrom_discard_eq_ok_iff.1 ran
    exact here.step split ran

end NativeBridge.Session
