import NativeBridge.Proofs.Inclusion

/-!
# What is emitted for a declaration

The text that is emitted for an interface or a callback is made from its plan, and for an interface
from the plans of the callbacks that it mentions. So it does not depend on the order of the
declarations or on declarations that it does not mention.
-/
namespace NativeBridge

namespace Session

variable {s t : Session}

/-! ## Script blocks -/

namespace Within

variable (h : s.Within t)
include h

theorem branches : t.branches = s.branches := by
  funext owner member receiver assigns group
  simp only [Session.branches, callSequence, h.mangle]

theorem attributeMembers (i : Interface) : t.attributeMembers i = s.attributeMembers i := by
  have setters : t.setterMember i = s.setterMember i := by
    funext a m
    simp only [setterMember, h.mangle]
  funext a
  simp only [Session.attributeMembers, getterMember, setters, h.mangle]

/-- The class of a plan depends on the options alone. -/
theorem scriptInterface : t.scriptInterface = s.scriptInterface := by
  have methods : t.methodMember = s.methodMember := by
    funext i group
    simp only [methodMember, h.branches]
  funext plan
  simp only [Session.scriptInterface, scriptClass, constructMember, destroyMember, methods,
    h.attributeMembers, h.branches, h.mangle]

end Within

/-! ## Native blocks -/

/-- What is planned for a callback in one table is planned for it in another. -/
def PlansWithin (cs ds : List CallbackPlan) : Prop :=
  ∀ name plan, cs.find? (·.callback.name = name) = some plan →
    ds.find? (·.callback.name = name) = some plan

variable {cs ds : List CallbackPlan}

theorem PlansWithin.nativeArgument (known : PlansWithin cs ds) (var : String) (m : Marshaling)
    (text : String) (h : m.nativeArgument cs var = .ok text) :
    m.nativeArgument ds var = .ok text := by
  cases m with
  | callback name flags nullable =>
    simp only [Marshaling.nativeArgument] at h ⊢
    cases found : cs.find? (·.callback.name = name) with
    | none => simp [found] at h
    | some plan =>
      rw [found] at h
      rw [known name plan found]
      exact h
  | _ => exact h

theorem PlansWithin.nativeArguments (known : PlansWithin cs ds) (o : Overload) (text : String)
    (h : o.nativeArguments cs = .ok text) : o.nativeArguments ds = .ok text :=
  except_bind_mono
    (except_mapM_mono fun (a, i) => known.nativeArgument (argumentName i) a.marshaling)
    (fun _ _ same => same) text h

namespace Within

variable (h : s.Within t) (known : PlansWithin cs ds) (i : Interface)
include h known

theorem constructorEntry (o : Overload) (point : EntryPoint)
    (made : s.constructorEntry cs i o = .ok point) : t.constructorEntry ds i o = .ok point := by
  simp only [Session.constructorEntry, h.mangle]
  exact except_bind_mono (known.nativeArguments o) (fun _ _ same => same) point made

theorem methodEntry (group : OverloadGroup) (o : Overload) (point : EntryPoint)
    (made : s.methodEntry cs i group o = .ok point) : t.methodEntry ds i group o = .ok point := by
  simp only [Session.methodEntry, h.mangle]
  refine except_bind_mono (fun _ same => same) (fun returnType => ?_) point made
  exact except_bind_mono (known.nativeArguments o) fun _ _ same => same

theorem attributeEntries (a : AttributePlan) (points : List EntryPoint)
    (made : s.attributeEntries cs i a = .ok points) : t.attributeEntries ds i a = .ok points := by
  refine except_bind_mono (fun point getter => ?_) (fun getter points rest => ?_) points made
  · simpa only [getterEntry, h.mangle] using getter
  · cases setter : a.setter with
    | none => simpa [setter] using rest
    | some m =>
      simp only [setter] at rest ⊢
      refine except_bind_mono (fun point made => ?_) (fun _ _ same => same) points rest
      simp only [setterEntry, h.mangle]
      exact except_bind_mono (known.nativeArgument _ m) (fun _ _ same => same) point made

theorem entryPoints (plan : InterfacePlan) (points : List EntryPoint)
    (made : s.entryPoints cs plan = .ok points) : t.entryPoints ds plan = .ok points := by
  have destructor : t.destructorEntry = s.destructorEntry := by
    funext i
    simp only [destructorEntry, h.mangle]
  rw [Session.entryPoints, destructor]
  refine except_bind_mono (except_mapM_mono (h.constructorEntry known plan.interface))
    (fun constructors => ?_) points made
  refine except_bind_mono (except_mapM_mono fun group =>
    except_mapM_mono (h.methodEntry known plan.interface group)) fun methods => ?_
  exact except_bind_mono (except_mapM_mono (h.attributeEntries known plan.interface))
    fun _ _ same => same

/-- What is emitted for a plan is emitted with more callbacks planned. -/
theorem nativeInterface (plan : InterfacePlan) (lines : List String)
    (made : s.nativeInterface cs plan = .ok lines) : t.nativeInterface ds plan = .ok lines := by
  refine except_bind_mono ?_ (fun _ _ same => same) lines made
  exact except_bind_mono (h.entryPoints known plan) fun _ _ same => same

end Within

/-! ## Blocks of an output -/

/-- A text holds some lines one after another. -/
def Holds (text : String) (block : List String) : Prop :=
  ∃ lines, block <:+: lines ∧ text = unlines lines

/-- What a run emits for an interface: the two blocks of its plan. -/
structure EmitsInterface (s : Session) (p : Progress) (b : Bindings) (i : Interface)
    (script native : List String) : Prop where
  planned : ∃ plan ∈ p.plans, plan.interface = i ∧ s.scriptInterface plan = .ok script ∧
    s.nativeInterface p.callbacks plan = .ok native
  inScript : Holds b.script script
  inNative : Holds b.native native

/-- What a run emits for a callback: its registry and invoker, and its shim. -/
structure EmitsCallback (p : Progress) (b : Bindings) (c : Callback) (script native : List String) :
    Prop where
  planned : ∃ plan ∈ p.callbacks, plan.callback = c ∧ plan.scriptLines = script ∧
    plan.nativeLines = .ok native
  inScript : Holds b.script script
  inNative : Holds b.native native

variable {p : Progress} {b : Bindings}

theorem infix_flatMap {α β : Type} {f : α → List β} {items : List α} {a : α} (member : a ∈ items) :
    f a <:+: items.flatMap f :=
  List.infix_of_mem_flatten (List.mem_map_of_mem member)

theorem holds_of_infix {α : Type} (lines : α → List String) {parts all : List α}
    (h : parts <:+: all) : Holds (unlines (all.flatMap lines)) (parts.flatMap lines) := by
  obtain ⟨before, after, rfl⟩ := h
  exact ⟨_, ⟨before.flatMap lines, after.flatMap lines, by simp⟩, rfl⟩

/-- The parts of the script hold those of every class and the lines of every callback. -/
theorem infix_scriptParts {script : List ScriptPart} (made : s.scriptParts p p.plans = .ok script) :
    (∀ plan ∈ p.plans, ∃ c, s.scriptClass plan = .ok c ∧ c.parts <:+: script) ∧
      ∀ plan ∈ p.callbacks, plan.scriptLines.map .line <:+: script := by
  obtain ⟨order, -, made⟩ := except_bind_eq_ok_iff.1 made
  obtain ⟨records, -, made⟩ := except_bind_eq_ok_iff.1 made
  obtain ⟨classes, classesMade, same⟩ := except_bind_eq_ok_iff.1 made
  cases same
  constructor
  · intro plan planned
    obtain ⟨c, member, found⟩ :=
      exists_of_forall₂ (except_mapM_eq_ok_iff.1 classesMade).flip planned
    exact ⟨c, found, (infix_flatMap member).trans (List.infix_append _ _ _)⟩
  · intro plan planned
    have callbacks := (infix_flatMap (f := CallbackPlan.scriptLines) planned).trans
      (List.suffix_append records.flatten _).isInfix
    -- classes and exports come after the callbacks
    refine List.IsInfix.trans ?_ (List.prefix_append _ _).isInfix
    refine List.IsInfix.trans ?_ (List.prefix_append _ _).isInfix
    exact (callbacks.map ScriptPart.line).trans (List.suffix_append _ _).isInfix

/-- The parts of the native text hold those of every interface and the shim of every callback. -/
theorem infix_nativeParts {native : List NativePart} (made : s.nativeParts p p.plans = .ok native) :
    (∀ plan ∈ p.plans, ∃ parts, s.interfaceParts p.callbacks plan = .ok parts ∧ parts <:+: native) ∧
      ∀ plan ∈ p.callbacks, ∃ lines, plan.nativeLines = .ok lines ∧
        lines.map .line <:+: native := by
  obtain ⟨shims, shimsMade, made⟩ := except_bind_eq_ok_iff.1 made
  obtain ⟨layout, -, made⟩ := except_bind_eq_ok_iff.1 made
  obtain ⟨interfaces, interfacesMade, same⟩ := except_bind_eq_ok_iff.1 made
  cases same
  constructor
  · intro plan planned
    obtain ⟨parts, member, found⟩ :=
      exists_of_forall₂ (except_mapM_eq_ok_iff.1 interfacesMade).flip planned
    exact ⟨parts, found, (List.infix_of_mem_flatten member).trans (List.infix_append _ _ _)⟩
  · intro plan planned
    obtain ⟨lines, member, found⟩ :=
      exists_of_forall₂ (except_mapM_eq_ok_iff.1 shimsMade).flip planned
    refine ⟨lines, found, ?_⟩
    -- the shims stand in the first lines, ahead of the entry points
    refine List.IsInfix.trans ?_ (List.prefix_append _ _).isInfix
    refine List.IsInfix.trans ?_ (List.prefix_append _ _).isInfix
    refine List.IsInfix.trans ?_ (List.prefix_append _ _).isInfix
    exact ((List.infix_of_mem_flatten member).trans (List.infix_append _ _ _)).map NativePart.line

/-! ## One plan for each declaration -/

theorem plannable_of_generate (generated : s.generate.runFrom {} = (.ok b, p)) : s.Plannable := by
  obtain ⟨script, native, prepared, -⟩ := runFrom_generate_eq_ok_iff.1 generated
  exact exists_prepare_iff.1 ⟨p.plans, congrArg Prod.fst prepared⟩

theorem mem_plans_iff (generated : s.generate.runFrom {} = (.ok b, p)) {plan : InterfacePlan} :
    plan ∈ p.plans ↔ plan.interface ∈ s.declarations.interfaces ∧
      (s.planInterface plan.interface).outcome = .ok plan := by
  obtain ⟨script, native, prepared, -⟩ := runFrom_generate_eq_ok_iff.1 generated
  obtain ⟨-, ordered, found, plans⟩ := prepare_tables prepared
  constructor
  · intro member
    obtain ⟨i, placed, planned⟩ := exists_of_forall₂ plans member
    obtain rfl : plan.interface = i := (outcome_planInterface_eq_ok_iff.1 planned).1
    exact ⟨(mem_orderInterfaces found).1 placed, planned⟩
  · rintro ⟨declared, planned⟩
    obtain ⟨other, member, planned'⟩ :=
      exists_of_forall₂ plans.flip ((mem_orderInterfaces found).2 declared)
    rw [planned] at planned'
    cases planned'
    exact member

theorem mem_callbacks_iff (generated : s.generate.runFrom {} = (.ok b, p)) {plan : CallbackPlan} :
    plan ∈ p.callbacks ↔ plan.callback ∈ s.declarations.callbacks ∧
      (s.callbackPlan plan.callback).outcome = .ok plan := by
  obtain ⟨script, native, prepared, -⟩ := runFrom_generate_eq_ok_iff.1 generated
  obtain ⟨plans, -⟩ := prepare_tables prepared
  constructor
  · intro member
    obtain ⟨c, declared, planned⟩ := exists_of_forall₂ plans member
    obtain rfl : plan.callback = c := (outcome_callbackPlan_eq_ok_iff.1 planned).1
    exact ⟨declared, planned⟩
  · rintro ⟨declared, planned⟩
    obtain ⟨other, member, planned'⟩ := exists_of_forall₂ plans.flip declared
    rw [planned] at planned'
    cases planned'
    exact member

/-- The blocks that are emitted, and no others. -/
def Exactly (emits : List String → List String → Prop) (script native : List String) : Prop :=
  ∀ script' native', emits script' native' ↔ script' = script ∧ native' = native

/-- A planned interface has one block in each text. -/
theorem exists_exactly_emitsInterface (generated : s.generate.runFrom {} = (.ok b, p))
    {plan : InterfacePlan} (planned : plan ∈ p.plans) :
    ∃ script native, s.scriptInterface plan = .ok script ∧
      s.nativeInterface p.callbacks plan = .ok native ∧
      Exactly (s.EmitsInterface p b plan.interface) script native := by
  obtain ⟨script, native, -, scripted, natived, rfl⟩ := runFrom_generate_eq_ok_iff.1 generated
  obtain ⟨c, scriptFound, inScript⟩ := (infix_scriptParts scripted).1 plan planned
  obtain ⟨parts, nativeFound, inNative⟩ := (infix_nativeParts natived).1 plan planned
  have scriptBlock : s.scriptInterface plan = .ok (c.parts.flatMap ScriptPart.lines) :=
    except_bind_eq_ok_iff.2 ⟨c, scriptFound, rfl⟩
  have nativeBlock : s.nativeInterface p.callbacks plan = .ok (parts.flatMap NativePart.lines) :=
    except_bind_eq_ok_iff.2 ⟨parts, nativeFound, rfl⟩
  refine ⟨_, _, scriptBlock, nativeBlock, fun script' native' => ⟨fun emitted => ?_, ?_⟩⟩
  · obtain ⟨other, planned', same, scriptBlock', nativeBlock'⟩ := emitted.planned
    have outcome := ((mem_plans_iff generated).1 planned).2
    have outcome' := ((mem_plans_iff generated).1 planned').2
    rw [same, outcome] at outcome'
    cases outcome'
    rw [scriptBlock] at scriptBlock'
    rw [nativeBlock] at nativeBlock'
    cases scriptBlock'
    cases nativeBlock'
    exact ⟨rfl, rfl⟩
  · rintro ⟨rfl, rfl⟩
    exact ⟨⟨plan, planned, rfl, scriptBlock, nativeBlock⟩, holds_of_infix _ inScript,
      holds_of_infix _ inNative⟩

theorem exists_exactly_emitsCallback (generated : s.generate.runFrom {} = (.ok b, p))
    {plan : CallbackPlan} (planned : plan ∈ p.callbacks) :
    ∃ native, plan.nativeLines = .ok native ∧
      Exactly (EmitsCallback p b plan.callback) plan.scriptLines native := by
  obtain ⟨script, native, -, scripted, natived, rfl⟩ := runFrom_generate_eq_ok_iff.1 generated
  have inScript := holds_of_infix ScriptPart.lines ((infix_scriptParts scripted).2 plan planned)
  obtain ⟨lines, found, inside⟩ := (infix_nativeParts natived).2 plan planned
  have inNative := holds_of_infix NativePart.lines inside
  rw [List.flatMap_map] at inScript inNative
  refine ⟨lines, found, fun script' native' => ⟨fun emitted => ?_, ?_⟩⟩
  · obtain ⟨other, planned', same, rfl, found'⟩ := emitted.planned
    have outcome := ((mem_callbacks_iff generated).1 planned).2
    have outcome' := ((mem_callbacks_iff generated).1 planned').2
    rw [same, outcome] at outcome'
    cases outcome'
    rw [found] at found'
    cases found'
    exact ⟨rfl, rfl⟩
  · rintro ⟨rfl, rfl⟩
    refine ⟨⟨plan, planned, rfl, rfl, found⟩, ?_, ?_⟩
    · simpa [ScriptPart.lines] using inScript
    · simpa [NativePart.lines] using inNative

/-! ## Two runs -/

namespace Within

variable {b' : Bindings} {p' : Progress}

/-- A plan of the smaller run is one of the larger run. -/
theorem mem_plans (h : s.Within t) (generated : s.generate.runFrom {} = (.ok b, p))
    (generated' : t.generate.runFrom {} = (.ok b', p')) {plan : InterfacePlan}
    (planned : plan ∈ p.plans) : plan ∈ p'.plans := by
  have parents := (exists_orderInterfaces_iff.1 (plannable_of_generate generated).order).1
  obtain ⟨declared, outcome⟩ := (mem_plans_iff generated).1 planned
  exact (mem_plans_iff generated').2
    ⟨h.interfaces declared, (h.planInterface parents declared).result outcome⟩

theorem mem_callbacks (h : s.Within t) (generated : s.generate.runFrom {} = (.ok b, p))
    (generated' : t.generate.runFrom {} = (.ok b', p')) {plan : CallbackPlan}
    (planned : plan ∈ p.callbacks) : plan ∈ p'.callbacks := by
  obtain ⟨declared, outcome⟩ := (mem_callbacks_iff generated).1 planned
  exact (mem_callbacks_iff generated').2
    ⟨h.callbacks declared, (h.callbackPlan plan.callback).result outcome⟩

theorem plansWithin (h : s.Within t) (generated : s.generate.runFrom {} = (.ok b, p))
    (generated' : t.generate.runFrom {} = (.ok b', p')) : PlansWithin p.callbacks p'.callbacks := by
  obtain ⟨script, native, prepared, -⟩ := runFrom_generate_eq_ok_iff.1 generated'
  obtain ⟨plans, -⟩ := prepare_tables prepared
  have distinct : (p'.callbacks.map (·.callback.name)).Nodup := by
    have names := t.callback_names_nodup
    rwa [← map_callback_of_plans plans, List.map_map] at names
  intro name plan found
  have named : plan.callback.name = name := by simpa using List.find?_some found
  have planned := h.mem_callbacks generated generated' (List.mem_of_find?_eq_some found)
  exact (find?_name_iff distinct).2 ⟨planned, named⟩

/-- An interface gets the same blocks in the larger run. -/
theorem same_interface (h : s.Within t) (generated : s.generate.runFrom {} = (.ok b, p))
    (generated' : t.generate.runFrom {} = (.ok b', p')) {i : Interface}
    (declared : i ∈ s.declarations.interfaces) :
    ∃ script native, Exactly (s.EmitsInterface p b i) script native ∧
      Exactly (t.EmitsInterface p' b' i) script native := by
  obtain ⟨plan, outcome⟩ :=
    exists_planInterface_iff.2 ((plannable_of_generate generated).interfaces i declared)
  obtain rfl : plan.interface = i := (outcome_planInterface_eq_ok_iff.1 outcome).1
  have planned : plan ∈ p.plans := (mem_plans_iff generated).2 ⟨declared, outcome⟩
  have planned' : plan ∈ p'.plans := h.mem_plans generated generated' planned
  obtain ⟨script, native, scripted, natived, exactly⟩ :=
    exists_exactly_emitsInterface generated planned
  obtain ⟨script', native', scripted', natived', exactly'⟩ :=
    exists_exactly_emitsInterface generated' planned'
  have sameScript : script' = script := by
    rw [h.scriptInterface, scripted] at scripted'
    exact (Except.ok.inj scripted').symm
  have sameNative : native' = native := by
    rw [h.nativeInterface (h.plansWithin generated generated') plan native natived] at natived'
    exact (Except.ok.inj natived').symm
  subst sameScript sameNative
  exact ⟨script', native', exactly, exactly'⟩

theorem same_callback (h : s.Within t) (generated : s.generate.runFrom {} = (.ok b, p))
    (generated' : t.generate.runFrom {} = (.ok b', p')) {c : Callback}
    (declared : c ∈ s.declarations.callbacks) :
    ∃ script native, Exactly (EmitsCallback p b c) script native ∧
      Exactly (EmitsCallback p' b' c) script native := by
  obtain ⟨plan, outcome⟩ :=
    exists_callbackPlan_iff.2 ((plannable_of_generate generated).callbacks c declared)
  obtain rfl : plan.callback = c := (outcome_callbackPlan_eq_ok_iff.1 outcome).1
  have planned : plan ∈ p.callbacks := (mem_callbacks_iff generated).2 ⟨declared, outcome⟩
  have planned' : plan ∈ p'.callbacks := h.mem_callbacks generated generated' planned
  obtain ⟨native, found, exactly⟩ := exists_exactly_emitsCallback generated planned
  obtain ⟨native', found', exactly'⟩ := exists_exactly_emitsCallback generated' planned'
  rw [found] at found'
  cases found'
  exact ⟨plan.scriptLines, native, exactly, exactly'⟩

end Within

/-- Neither the order of declarations nor further declarations matter: whether a session can be
created and prepared does not depend on the order, and what is emitted for an interface or a
callback is the same beside other declarations. -/
theorem declarations_independent :
    (∀ (ds ds' : Declarations) (options : Options), ds.Permuted ds' →
      ((∃ s plans, create ds options = .ok s ∧ s.prepare.outcome = .ok plans) ↔
        ∃ s plans, create ds' options = .ok s ∧ s.prepare.outcome = .ok plans)) ∧
    ∀ (s t : Session) (b b' : Bindings) (p p' : Progress), s.Within t →
      s.generate.runFrom {} = (.ok b, p) → t.generate.runFrom {} = (.ok b', p') →
      (∀ i ∈ s.declarations.interfaces, ∃ script native,
        Exactly (s.EmitsInterface p b i) script native ∧
          Exactly (t.EmitsInterface p' b' i) script native) ∧
      ∀ c ∈ s.declarations.callbacks, ∃ script native,
        Exactly (EmitsCallback p b c) script native ∧
          Exactly (EmitsCallback p' b' c) script native := by
  constructor
  · intro ds ds' options permuted
    exact ⟨permuted.prepared, permuted.symm.prepared⟩
  · intro s t b b' p p' within generated generated'
    exact ⟨fun i => within.same_interface generated generated',
      fun c => within.same_callback generated generated'⟩

/-- A timer that calls back with a size. -/
def timers : Session where
  declarations :=
    { interfaces :=
        [{ name := "Timer"
           operations := [{ name := "start", returnType := { name := "void" }
                            arguments := [{ name := "tick", type := { name := "Tick" } }] }] }]
      callbacks := [{ name := "Tick", returnType := { name := "void" }
                      arguments := [{ name := "size", type := { name := "Size" } }] }]
      typedefs := [{ name := "Size", type := { name := "long" } }] }
  options := {}
  distinct := by decide

/-- The timer behind a clock, which extends it and has a callback and a record of its own. -/
def clocks : Session where
  declarations :=
    { interfaces :=
        { name := "Clock", parent := some "Timer"
          constructors := [[{ name := "alarm", type := { name := "Alarm" } }]]
          attributes := [{ name := "span", type := { name := "Span" } }] } ::
          timers.declarations.interfaces
      valueTypes :=
        [{ name := "Span", fields := [{ name := "ticks", type := { name := "Size" } }] }]
      callbacks :=
        { name := "Alarm", returnType := { name := "Timer" } } :: timers.declarations.callbacks
      typedefs := { name := "Count", type := { name := "Size" } } :: timers.declarations.typedefs }
  options := {}
  distinct := by decide

def turnedClocks : Declarations :=
  { clocks.declarations with interfaces := clocks.declarations.interfaces.reverse }

/-- The clock does not change what is emitted for the timer, nor does the order of the two. -/
theorem timers_beside_clocks :
    (clocks.declarations.Permuted turnedClocks ∧
      ((∃ s plans, create clocks.declarations {} = .ok s ∧ s.prepare.outcome = .ok plans) ↔
        ∃ s plans, create turnedClocks {} = .ok s ∧ s.prepare.outcome = .ok plans)) ∧
    timers.Within clocks ∧ ∃ b b' p p', timers.generate.runFrom {} = (.ok b, p) ∧
      clocks.generate.runFrom {} = (.ok b', p') ∧
      (∀ i ∈ timers.declarations.interfaces, ∃ script native,
        Exactly (timers.EmitsInterface p b i) script native ∧
          Exactly (clocks.EmitsInterface p' b' i) script native) ∧
      ∀ c ∈ timers.declarations.callbacks, ∃ script native,
        Exactly (EmitsCallback p b c) script native ∧
          Exactly (EmitsCallback p' b' c) script native := by
  have turned : clocks.declarations.Permuted turnedClocks :=
    ⟨(List.reverse_perm _).symm, .refl _, .refl _, .refl _⟩
  have within : timers.Within clocks :=
    ⟨rfl, List.subset_cons_self _ _, List.nil_subset _, List.subset_cons_self _ _,
      List.subset_cons_self _ _⟩
  obtain ⟨b, p, generated⟩ :=
    ExceptT.exists_runFrom_of_isSome (x := timers.generate) (p := {}) (by decide +kernel)
  obtain ⟨b', p', generated'⟩ :=
    ExceptT.exists_runFrom_of_isSome (x := clocks.generate) (p := {}) (by decide +kernel)
  exact ⟨⟨turned, declarations_independent.1 _ _ {} turned⟩, within, b, b', p, p', generated,
    generated', declarations_independent.2 timers clocks b b' p p' within generated generated'⟩

end Session

end NativeBridge
