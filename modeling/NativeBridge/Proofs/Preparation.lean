import NativeBridge.Emit.Bindings
import NativeBridge.Proofs.Callbacks
import NativeBridge.Proofs.Interfaces
import NativeBridge.Proofs.Records

/-!
# When a session can be prepared

Preparing a session orders its interfaces and plans every declaration, and stops at the first
refusal. It succeeds for exactly the sessions that are valid, which is said here of the declarations
alone, and leaves one layout for each value type, one plan for each callback and one for each
interface.
-/
namespace NativeBridge.Session

open Relation (TransGen)

variable {s : Session}

/-! ## The steps of preparation -/

theorem runFrom_prepare_eq_ok_iff {plans : List InterfacePlan} {p p' : Progress} :
    s.prepare.runFrom p = (.ok plans, p') ↔
      ∃ ordered p₁ p₂ p₃, s.orderInterfaces = .ok ordered ∧
        (s.declarations.valueTypes.forM fun v => discard (s.register v)).runFrom p = (.ok (), p₁) ∧
        (s.declarations.callbacks.forM fun c => discard (s.planCallback c)).runFrom p₁ =
          (.ok (), p₂) ∧
        (ordered.mapM s.planInterface).runFrom p₂ = (.ok plans, p₃) ∧
        p' = { p₃ with
          plans
          log := p₃.log ++ [.planned plans.length p₃.layouts.length p₃.callbacks.length
            p₃.slots.length] } := by
  constructor
  · intro ran
    obtain ⟨ordered, q, found, ran⟩ := ExceptT.runFrom_bind_eq_ok_iff.1 ran
    obtain ⟨found, rfl⟩ := Prod.ext_iff.1 found
    obtain ⟨_, p₁, registered, ran⟩ := ExceptT.runFrom_bind_eq_ok_iff.1 ran
    obtain ⟨_, p₂, planned, ran⟩ := ExceptT.runFrom_bind_eq_ok_iff.1 ran
    obtain ⟨plans, p₃, mapped, ran⟩ := ExceptT.runFrom_bind_eq_ok_iff.1 ran
    cases ran
    exact ⟨ordered, p₁, p₂, p₃, found, registered, planned, mapped, rfl⟩
  · rintro ⟨ordered, p₁, p₂, p₃, found, registered, planned, mapped, rfl⟩
    refine ExceptT.runFrom_bind_eq_ok_iff.2 ⟨ordered, p, by rw [found]; rfl, ?_⟩
    refine ExceptT.runFrom_bind_eq_ok_iff.2 ⟨(), p₁, registered, ?_⟩
    refine ExceptT.runFrom_bind_eq_ok_iff.2 ⟨(), p₂, planned, ?_⟩
    exact ExceptT.runFrom_bind_eq_ok_iff.2 ⟨plans, p₃, mapped, rfl⟩

theorem runFrom_generate_eq_ok_iff {b : Bindings} {p p' : Progress} :
    s.generate.runFrom p = (.ok b, p') ↔
      ∃ script native, s.prepare.runFrom p = (.ok p'.plans, p') ∧
        s.scriptParts p' p'.plans = .ok script ∧ s.nativeParts p' p'.plans = .ok native ∧
        b = { script := unlines (script.flatMap ScriptPart.lines)
              native := unlines (native.flatMap NativePart.lines) } := by
  constructor
  · intro ran
    obtain ⟨plans, q, prepared, ran⟩ := ExceptT.runFrom_bind_eq_ok_iff.1 ran
    have kept : q.plans = plans := by
      obtain ⟨_, _, _, _, _, _, _, _, rfl⟩ := runFrom_prepare_eq_ok_iff.1 prepared
      rfl
    subst kept
    obtain ⟨q', q, got, ran⟩ := ExceptT.runFrom_bind_eq_ok_iff.1 ran
    cases got
    obtain ⟨script, q, emitted, ran⟩ := ExceptT.runFrom_bind_eq_ok_iff.1 ran
    obtain ⟨script_ok, rfl⟩ := Prod.ext_iff.1 emitted
    obtain ⟨native, q, emitted, ran⟩ := ExceptT.runFrom_bind_eq_ok_iff.1 ran
    obtain ⟨native_ok, rfl⟩ := Prod.ext_iff.1 emitted
    cases ran
    exact ⟨script, native, prepared, script_ok, native_ok, rfl⟩
  · rintro ⟨script, native, prepared, scripted, natived, rfl⟩
    refine ExceptT.runFrom_bind_eq_ok_iff.2 ⟨p'.plans, p', prepared, ?_⟩
    refine ExceptT.runFrom_bind_eq_ok_iff.2 ⟨p', p', rfl, ?_⟩
    refine ExceptT.runFrom_bind_eq_ok_iff.2 ⟨script, p', by rw [scripted]; rfl, ?_⟩
    exact ExceptT.runFrom_bind_eq_ok_iff.2 ⟨native, p', by rw [natived]; rfl, rfl⟩

/-- Both texts of what is planned. -/
def emitted (s : Session) (p : Progress) (plans : List InterfacePlan) :
    Except Failure Bindings := do
  let script ← s.scriptParts p plans
  let native ← s.nativeParts p plans
  return { script := unlines (script.flatMap ScriptPart.lines)
           native := unlines (native.flatMap NativePart.lines) }

theorem runFrom_emission (p : Progress) (plans : List InterfacePlan) :
    (do let p ← get
        let script ← Planning.check (s.scriptParts p plans)
        let native ← Planning.check (s.nativeParts p plans)
        return { script := unlines (script.flatMap ScriptPart.lines)
                 native := unlines (native.flatMap NativePart.lines) } :
      Planning Bindings).runFrom p = (s.emitted p plans, p) := by
  rw [ExceptT.runFrom_bind_ok (ExceptT.runFrom_get p), emitted, ExceptT.runFrom_bind,
    Planning.runFrom_check]
  cases s.scriptParts p plans with
  | error failure => rfl
  | ok script =>
    simp only [ExceptT.runFrom_bind, Planning.runFrom_check]
    cases s.nativeParts p plans <;> rfl

theorem runFrom_generate_of_ok {plans : List InterfacePlan} {p q : Progress}
    (prepared : s.prepare.runFrom p = (.ok plans, q)) :
    s.generate.runFrom p = (s.emitted q plans, q) := by
  rw [generate, ExceptT.runFrom_bind_ok prepared, runFrom_emission]

/-- All interfaces are planned from sound progress when each of them is. -/
theorem runFrom_planInterfaces {interfaces : List Interface} {plans : List InterfacePlan}
    {p : Progress} (sound : s.Sound p) :
    (∃ p', (interfaces.mapM s.planInterface).runFrom p = (.ok plans, p')) ↔
      List.Forall₂ (fun i plan => (s.planInterface i).outcome = .ok plan) interfaces plans := by
  obtain ⟨p', ran, -, -⟩ := (Steady.mapM steady_planInterface interfaces).runFrom_eq sound
  rw [← except_mapM_eq_ok_iff, ← Steady.outcome_mapM steady_planInterface, ran]
  simp

/-- Preparing a session leaves one plan for each callback and one for each interface. -/
theorem prepare_tables {plans : List InterfacePlan} {p : Progress}
    (prepared : s.prepare.runFrom {} = (.ok plans, p)) :
    List.Forall₂ (fun c plan => (s.callbackPlan c).outcome = .ok plan) s.declarations.callbacks
        p.callbacks ∧
      ∃ ordered, s.orderInterfaces = .ok ordered ∧
        List.Forall₂ (fun i plan => (s.planInterface i).outcome = .ok plan) ordered plans := by
  obtain ⟨ordered, p₁, p₂, p₃, found, registered, planned, mapped, rfl⟩ :=
    runFrom_prepare_eq_ok_iff.1 prepared
  have after₁ := registerAll_iff.2 p₁ registered
  have after₂ := (planCallbacks_iff after₁.sound after₁.callbacks).2 p₂ planned
  have kept := (Steady.mapM (s := s) steady_planInterface ordered).tables p₂
  rw [mapped] at kept
  refine ⟨?_, ordered, found, (runFrom_planInterfaces after₂.sound).1 ⟨p₃, mapped⟩⟩
  rw [kept.callbacks]
  exact after₂.plans

/-- Preparing a session leaves one layout for each value type. -/
theorem prepare_layouts {plans : List InterfacePlan} {p : Progress}
    (prepared : s.prepare.runFrom {} = (.ok plans, p)) :
    p.layouts.map (·.valueType) = s.declarations.valueTypes := by
  obtain ⟨ordered, p₁, p₂, p₃, -, registered, planned, mapped, rfl⟩ :=
    runFrom_prepare_eq_ok_iff.1 prepared
  have after₁ := registerAll_iff.2 p₁ registered
  have after₂ := (planCallbacks_iff after₁.sound after₁.callbacks).2 p₂ planned
  have kept := (Steady.mapM (s := s) steady_planInterface ordered).tables p₂
  rw [mapped] at kept
  have same : p₃.layouts = p₁.layouts := kept.layouts.trans after₂.layouts
  rw [← after₁.layouts, ← same]

/-- A session whose declarations can all be planned. -/
structure Plannable (s : Session) : Prop where
  order : ∃ ordered, s.orderInterfaces = .ok ordered
  records : ∀ v ∈ s.declarations.valueTypes, s.LegalRecord v
  callbacks : ∀ c ∈ s.declarations.callbacks, s.LegalCallback c
  interfaces : ∀ i ∈ s.declarations.interfaces, s.LegalInterface i

theorem exists_prepare_iff : (∃ plans, s.prepare.outcome = .ok plans) ↔ s.Plannable := by
  have ran : (∃ plans, s.prepare.outcome = .ok plans) ↔
      ∃ plans p, s.prepare.runFrom {} = (.ok plans, p) := by
    refine exists_congr fun plans => ⟨fun h => ⟨_, Prod.ext h rfl⟩, ?_⟩
    rintro ⟨p, h⟩
    rw [Planning.outcome, h]
  rw [ran]
  constructor
  · rintro ⟨plans, p, prepared⟩
    obtain ⟨callbacks, ordered, found, interfaces⟩ := prepare_tables prepared
    obtain ⟨-, p₁, -, -, -, registered, -⟩ := runFrom_prepare_eq_ok_iff.1 prepared
    refine ⟨⟨ordered, found⟩, registerAll_iff.1.1 ⟨p₁, registered⟩, ?_, ?_⟩
    · intro c declared
      exact exists_callbackPlan_iff.1 (exists_forall₂_iff.1 ⟨p.callbacks, callbacks⟩ c declared)
    · intro i declared
      exact exists_planInterface_iff.1
        (exists_forall₂_iff.1 ⟨plans, interfaces⟩ i ((mem_orderInterfaces found).2 declared))
  · rintro ⟨⟨ordered, found⟩, records, callbacks, interfaces⟩
    obtain ⟨p₁, registered⟩ := registerAll_iff.1.2 records
    have after₁ := registerAll_iff.2 p₁ registered
    have steps := planCallbacks_iff after₁.sound after₁.callbacks
    obtain ⟨p₂, planned⟩ := steps.1.2 callbacks
    obtain ⟨plans, all⟩ := exists_forall₂_iff.2 fun i (member : i ∈ ordered) =>
      exists_planInterface_iff.2 (interfaces i ((mem_orderInterfaces found).1 member))
    obtain ⟨p₃, mapped⟩ := (runFrom_planInterfaces (steps.2 p₂ planned).sound).2 all
    exact ⟨plans, _, runFrom_prepare_eq_ok_iff.2
      ⟨ordered, p₁, p₂, p₃, found, registered, planned, mapped, rfl⟩⟩

/-! ## Valid sessions -/

/-- What the declarations of a session have to fulfil. -/
structure Valid (s : Session) : Prop where
  /-- Every interface has no parent or a declared one of its ownership. -/
  interfaceParents : ∀ i ∈ s.declarations.interfaces, s.LegalParent i
  interfacesAcyclic : ∀ i, ¬ TransGen s.Extends i i
  /-- Every value type has no parent or a declared one. -/
  valueTypeParents : ∀ v ∈ s.declarations.valueTypes, s.HasParent v
  valueTypesAcyclic : ∀ v, ¬ TransGen s.Derives v v
  /-- A value type and its ancestors have legal fields. -/
  fields : ∀ v ∈ s.declarations.valueTypes, ∀ owners, s.Ancestry v owners →
    ∀ o ∈ owners, ∀ f ∈ o.fields, ∃ kind, s.LegalField f kind
  /-- No two fields of a value type and its ancestors share a name. -/
  fieldNames : ∀ v ∈ s.declarations.valueTypes, ∀ owners, s.Ancestry v owners →
    ((owners.flatMap (·.fields)).map (·.name)).Nodup
  callbacks : ∀ c ∈ s.declarations.callbacks, s.LegalCallback c
  interfaces : ∀ i ∈ s.declarations.interfaces, s.LegalInterface i

/-- A session is prepared exactly when it is valid. -/
theorem prepare_succeeds_iff_valid (s : Session) :
    (∃ plans, s.prepare.outcome = .ok plans) ↔ s.Valid := by
  rw [exists_prepare_iff]
  constructor
  · rintro ⟨order, records, callbacks, interfaces⟩
    obtain ⟨parents, acyclic⟩ := exists_orderInterfaces_iff.1 order
    obtain ⟨valueParents, valueAcyclic⟩ := forall_exists_lineage_iff.1 fun v declared =>
      (records v declared).imp fun _ found => found.1
    -- the line of ancestors that registering found is the only one
    have only : ∀ v ∈ s.declarations.valueTypes, ∀ owners, s.Ancestry v owners →
        (∀ o ∈ owners, ∀ f ∈ o.fields, ∃ kind, s.LegalField f kind) ∧
          ((owners.flatMap (·.fields)).map (·.name)).Nodup := by
      intro v declared owners ancestry
      obtain ⟨found, walked, legal⟩ := records v declared
      exact ancestry.unique (ancestry_of_lineage walked) ▸ legal
    exact ⟨parents, acyclic, valueParents, valueAcyclic, fun v h o a => (only v h o a).1,
      fun v h o a => (only v h o a).2, callbacks, interfaces⟩
  · intro valid
    refine ⟨exists_orderInterfaces_iff.2 ⟨valid.interfaceParents, valid.interfacesAcyclic⟩, ?_,
      valid.callbacks, valid.interfaces⟩
    intro v declared
    obtain ⟨owners, walked⟩ :=
      exists_lineage valid.valueTypeParents valid.valueTypesAcyclic declared
    have ancestry := ancestry_of_lineage walked
    exact ⟨owners, walked, valid.fields v declared owners ancestry,
      valid.fieldNames v declared owners ancestry⟩

end NativeBridge.Session
