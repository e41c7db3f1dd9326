import NativeBridge.Proofs.Inheritance
import NativeBridge.Proofs.Steady

/-!
# When a value type can be registered

A value type can be registered when its ancestors are known, its fields and theirs are scalars that
heap views reach, and no two of them share a name. Registering reserves slots, so that a step
depends on progress for the numbers that it gives out but not for whether it succeeds.
-/
namespace NativeBridge

/-- Progress once one more slot is reserved. -/
def Progress.reserving (p : Progress) (valueType : String) (field : Option String) : Progress :=
  { p with slots := p.slots ++ [{ index := p.slots.length, valueType, field }] }

namespace Session

variable {s : Session}

@[simp] theorem runFrom_reserve (valueType : String) (field : Option String) (p : Progress) :
    (reserve valueType field).runFrom p = (.ok p.slots.length, p.reserving valueType field) := rfl

/-! ## Fields -/

/-- A field that records can hold: neither read-only nor static, and a scalar of at most 32 bits or
a float. -/
structure LegalField (s : Session) (f : Attribute) (kind : ScalarKind) : Prop where
  writable : f.readOnly = false
  perObject : f.isStatic = false
  scalar : ∃ flags, s.scope.meaning f.type f.flags = .ok (some ⟨.scalar kind, false, flags⟩)
  narrow : kind.isWideInteger = false

theorem fieldScalar_eq_ok_iff {owner : ValueType} {f : Attribute} {d : Option Descriptor}
    {kind : ScalarKind} :
    fieldScalar owner f d = .ok kind ↔
      (∃ flags, d = some ⟨.scalar kind, false, flags⟩) ∧ kind.isWideInteger = false := by
  rcases d with _ | ⟨base, nullable, flags⟩
  · simp [fieldScalar]
  · cases nullable with
    | true => simp [fieldScalar]
    | false =>
      cases base with
      | scalar found =>
        by_cases wide : found.isWideInteger
        · simp only [fieldScalar, wide, if_true, reduceCtorEq, false_iff]
          rintro ⟨⟨_, same⟩, narrow⟩
          cases same
          exact absurd (wide.symm.trans narrow) (by decide)
        · simp only [fieldScalar, wide, Bool.false_eq_true, if_false, Except.ok.injEq]
          constructor
          · rintro rfl
            exact ⟨⟨flags, rfl⟩, by simpa using wide⟩
          · rintro ⟨⟨_, same⟩, -⟩
            cases same
            rfl
      | _ => simp [fieldScalar]

theorem steady_fieldKind (owner : ValueType) (f : Attribute) : s.Steady (s.fieldKind owner f) := by
  rw [fieldKind]
  apply Steady.guard
  apply Steady.guard
  exact (Steady.within _ (steady_resolve f.type f.flags)).bind fun d => .check _

theorem outcome_fieldKind_eq_ok_iff {owner : ValueType} {f : Attribute} {kind : ScalarKind} :
    (s.fieldKind owner f).outcome = .ok kind ↔ s.LegalField f kind := by
  rw [fieldKind, Planning.outcome_guard_eq_ok_iff, Planning.outcome_guard_eq_ok_iff,
    (Steady.within _ (steady_resolve f.type f.flags)).outcome_bind_eq_ok_iff fun d => .check _]
  simp only [Planning.outcome_within, outcome_resolve, except_mapError_eq_ok_iff,
    Planning.outcome_check, fieldScalar_eq_ok_iff, Bool.not_eq_true]
  constructor
  · rintro ⟨writable, perObject, d, resolved, ⟨flags, rfl⟩, narrow⟩
    exact ⟨writable, perObject, ⟨flags, resolved⟩, narrow⟩
  · rintro ⟨writable, perObject, ⟨flags, resolved⟩, narrow⟩
    exact ⟨writable, perObject, _, resolved, ⟨flags, rfl⟩, narrow⟩

theorem runFrom_addField_eq_ok_iff {v owner : ValueType} {fields fields' : List FieldLayout}
    {f : Attribute} {p p' : Progress} :
    (s.addField v fields (owner, f)).runFrom p = (.ok fields', p') ↔
      (∀ other ∈ fields, other.name ≠ f.name) ∧
        ∃ kind p₁, (s.fieldKind owner f).runFrom p = (.ok kind, p₁) ∧
          fields' = fields ++ [{ name := f.name, kind, slot := p₁.slots.length }] ∧
          p' = p₁.reserving v.name (some f.name) := by
  rw [addField, ExceptT.runFrom_guard_eq_ok_iff]
  refine and_congr (by simp) (ExceptT.runFrom_bind_eq_ok_iff.trans ?_)
  refine exists_congr fun kind => exists_congr fun p₁ => and_congr_right fun _ => ?_
  rw [ExceptT.runFrom_bind_ok (runFrom_reserve v.name (some f.name) p₁), ExceptT.runFrom_pure]
  simp [eq_comm]

/-- Progress once some fields of a record are added: a legal slot for each, other tables as
before. -/
structure FieldsAdded (s : Session) (start : Progress) (done : List (ValueType × Attribute))
    (state : List FieldLayout × Progress) : Prop where
  sound : s.Sound state.2
  fields : List.Forall₂ (fun item (l : FieldLayout) => l.name = item.2.name ∧
    s.LegalField item.2 l.kind) done state.1
  layouts : state.2.layouts = start.layouts
  callbacks : state.2.callbacks = start.callbacks

theorem FieldsAdded.start {p : Progress} (sound : s.Sound p) : s.FieldsAdded p [] ([], p) :=
  ⟨sound, .nil, rfl, rfl⟩

theorem FieldsAdded.names {start : Progress} {done : List (ValueType × Attribute)}
    {state : List FieldLayout × Progress} (h : s.FieldsAdded start done state) :
    state.1.map (·.name) = done.map (·.2.name) := by
  have same : List.Forall₂ (· = ·) (done.map (·.2.name)) (state.1.map (·.name)) :=
    List.forall₂_map_left_iff.2 (List.forall₂_map_right_iff.2 (h.fields.imp fun _ _ l => l.1.symm))
  exact (List.forall₂_eq_eq_eq ▸ same).symm

theorem FieldsAdded.step {start : Progress} {v : ValueType} {done : List (ValueType × Attribute)}
    {item : ValueType × Attribute} {state : List FieldLayout × Progress}
    (h : s.FieldsAdded start done state) :
    (∃ next, ExceptT.advance (s.addField v) state item = .ok next) ↔
      (∃ kind, s.LegalField item.2 kind) ∧ ∀ other ∈ done, other.2.name ≠ item.2.name := by
  obtain ⟨owner, f⟩ := item
  obtain ⟨p₁, ran, -, -⟩ := (steady_fieldKind owner f).runFrom_eq h.sound
  have fresh : (∀ l ∈ state.1, l.name ≠ f.name) ↔ ∀ other ∈ done, other.2.name ≠ f.name := by
    have same := h.names
    rw [← List.forall_mem_map (P := (· ≠ f.name)), same, List.forall_mem_map]
  simp only [ExceptT.advance_eq_ok_iff, runFrom_addField_eq_ok_iff, fresh, ran, Prod.mk.injEq,
    outcome_fieldKind_eq_ok_iff]
  constructor
  · rintro ⟨next, apart, kind, _, ⟨legal, -⟩, -⟩
    exact ⟨⟨kind, legal⟩, apart⟩
  · rintro ⟨⟨kind, legal⟩, apart⟩
    exact ⟨⟨_, _⟩, apart, kind, p₁, ⟨legal, rfl⟩, rfl, rfl⟩

theorem FieldsAdded.add {start : Progress} {v : ValueType} {done : List (ValueType × Attribute)}
    {item : ValueType × Attribute} {state next : List FieldLayout × Progress}
    (h : s.FieldsAdded start done state)
    (taken : ExceptT.advance (s.addField v) state item = .ok next) :
    s.FieldsAdded start (done ++ [item]) next := by
  obtain ⟨owner, f⟩ := item
  obtain ⟨fields, p⟩ := next
  obtain ⟨-, kind, p₂, ran, rfl, rfl⟩ :=
    runFrom_addField_eq_ok_iff.1 (ExceptT.advance_eq_ok_iff.1 taken)
  obtain ⟨p₁, ran₁, sound, same⟩ := (steady_fieldKind owner f).runFrom_eq h.sound
  obtain ⟨found, rfl⟩ := Prod.ext_iff.1 (ran.symm.trans ran₁)
  have legal := outcome_fieldKind_eq_ok_iff.1 found.symm
  refine ⟨sound, List.rel_append h.fields (.cons ⟨rfl, legal⟩ .nil), ?_, ?_⟩
  · exact same.layouts.trans h.layouts
  · exact same.callbacks.trans h.callbacks

theorem forall_ownedFields_iff {owners : List ValueType} {P : Attribute → Prop} :
    (∀ item ∈ ownedFields owners, P item.2) ↔ ∀ o ∈ owners, ∀ f ∈ o.fields, P f := by
  simp only [ownedFields, List.mem_flatMap, List.mem_map]
  constructor
  · intro all o owner f field
    exact all (o, f) ⟨o, owner, f, field, rfl⟩
  · rintro all _ ⟨o, owner, f, field, rfl⟩
    exact all o owner f field

theorem pairwise_ownedFields_iff {owners : List ValueType} :
    (ownedFields owners).Pairwise (fun a b => a.2.name ≠ b.2.name) ↔
      ((owners.flatMap (·.fields)).map (·.name)).Nodup := by
  have names : (owners.flatMap (·.fields)).map (·.name) =
      (ownedFields owners).map fun item => item.2.name := by
    simp [ownedFields, List.map_flatMap, Function.comp_def]
  rw [names, List.Nodup, List.pairwise_map]

/-- The fields of a line of owners can be added when all are legal and no two share a name. -/
theorem exists_addFields_iff {v : ValueType} {owners : List ValueType} {p : Progress}
    (sound : s.Sound p) :
    (∃ fields p', ((ownedFields owners).foldlM (s.addField v) []).runFrom p = (.ok fields, p')) ↔
      (∀ o ∈ owners, ∀ f ∈ o.fields, ∃ kind, s.LegalField f kind) ∧
        ((owners.flatMap (·.fields)).map (·.name)).Nodup := by
  have step : ∀ done item rest state, ownedFields owners = done ++ item :: rest →
      s.FieldsAdded p done state →
      ((∃ next, ExceptT.advance (s.addField v) state item = .ok next) ↔
        (∃ kind, s.LegalField item.2 kind) ∧ ∀ other ∈ done, other.2.name ≠ item.2.name) :=
    fun _ _ _ _ _ h => h.step
  have folded := foldlM_ok_iff_pairwise (s.FieldsAdded p) step (fun _ _ _ _ _ _ h => h.add)
    (.start sound)
  rw [forall_ownedFields_iff (P := fun f => ∃ kind, s.LegalField f kind),
    pairwise_ownedFields_iff] at folded
  simpa only [ExceptT.runFrom_foldlM_eq_ok_iff, Prod.exists] using folded

theorem addFields_added {v : ValueType} {owners : List ValueType} {fields : List FieldLayout}
    {p p' : Progress} (sound : s.Sound p)
    (added : ((ownedFields owners).foldlM (s.addField v) []).runFrom p = (.ok fields, p')) :
    s.FieldsAdded p (ownedFields owners) (fields, p') := by
  rw [ExceptT.runFrom_foldlM_eq_ok_iff] at added
  exact foldlM_invariant (s.FieldsAdded p) (fun _ _ _ _ _ _ h => h.add) (.start sound) added

/-! ## Value types -/

/-- A value type whose ancestors are known, with legal fields of distinct names along their line. -/
def LegalRecord (s : Session) (v : ValueType) : Prop :=
  ∃ owners, s.lineage v = .ok owners ∧
    (∀ o ∈ owners, ∀ f ∈ o.fields, ∃ kind, s.LegalField f kind) ∧
    ((owners.flatMap (·.fields)).map (·.name)).Nodup

theorem runFrom_register_eq_ok_iff {v : ValueType} {layout : RecordLayout} {p p' : Progress}
    (fresh : p.layouts.find? (·.valueType.name = v.name) = none) :
    (s.register v).runFrom p = (.ok layout, p') ↔
      ∃ owners fields p₁, s.lineage v = .ok owners ∧
        ((ownedFields owners).foldlM (s.addField v) []).runFrom (p.reserving v.name none) =
          (.ok fields, p₁) ∧
        layout = { valueType := v, sizeSlot := p.slots.length, fields } ∧
        p' = { p₁ with
          layouts := p₁.layouts ++ [layout]
          log := p₁.log ++
            [.layout v.name layout.sizeSlot (fields.map fun f => (f.name, f.slot))] } := by
  rw [register, ExceptT.runFrom_bind_ok (ExceptT.runFrom_get p), fresh]
  constructor
  · intro ran
    obtain ⟨slot, q, reserved, ran⟩ := ExceptT.runFrom_bind_eq_ok_iff.1 ran
    cases reserved
    obtain ⟨owners, q, walked, ran⟩ := ExceptT.runFrom_bind_eq_ok_iff.1 ran
    obtain ⟨walked, rfl⟩ := Prod.ext_iff.1 walked
    obtain ⟨fields, p₁, added, ran⟩ := ExceptT.runFrom_bind_eq_ok_iff.1 ran
    cases ran
    exact ⟨owners, fields, p₁, walked, added, rfl, rfl⟩
  · rintro ⟨owners, fields, p₁, walked, added, rfl, rfl⟩
    refine ExceptT.runFrom_bind_eq_ok_iff.2 ⟨_, _, rfl, ?_⟩
    refine ExceptT.runFrom_bind_eq_ok_iff.2 ⟨owners, _, by rw [walked]; rfl, ?_⟩
    exact ExceptT.runFrom_bind_eq_ok_iff.2 ⟨fields, p₁, added, rfl⟩

/-- Progress once some value types are registered: a layout for each of them, and no callbacks
yet. -/
structure Registered (s : Session) (done : List ValueType) (p : Progress) : Prop where
  sound : s.Sound p
  layouts : p.layouts.map (·.valueType) = done
  callbacks : p.callbacks = []

theorem Registered.fresh {done rest : List ValueType} {v : ValueType} {p : Progress}
    (h : s.Registered done p) (split : s.declarations.valueTypes = done ++ v :: rest) :
    p.layouts.find? (·.valueType.name = v.name) = none :=
  find?_name_fresh s.valueType_names_nodup split h.layouts

theorem Registered.step {done rest : List ValueType} {v : ValueType} {p : Progress}
    (h : s.Registered done p) (split : s.declarations.valueTypes = done ++ v :: rest) :
    (∃ p', (discard (s.register v)).runFrom p = (.ok (), p')) ↔ s.LegalRecord v := by
  have sound : s.Sound (p.reserving v.name none) := h.sound
  simp only [ExceptT.runFrom_discard_eq_ok_iff, runFrom_register_eq_ok_iff (h.fresh split),
    LegalRecord, ← exists_addFields_iff (v := v) sound]
  constructor
  · rintro ⟨p', layout, owners, fields, p₁, walked, added, -⟩
    exact ⟨owners, walked, fields, p₁, added⟩
  · rintro ⟨owners, walked, fields, p₁, added⟩
    exact ⟨_, _, owners, fields, p₁, walked, added, rfl, rfl⟩

theorem Registered.add {done rest : List ValueType} {v : ValueType} {p p' : Progress}
    (h : s.Registered done p) (split : s.declarations.valueTypes = done ++ v :: rest)
    (ran : (discard (s.register v)).runFrom p = (.ok (), p')) : s.Registered (done ++ [v]) p' := by
  obtain ⟨layout, ran⟩ := ExceptT.runFrom_discard_eq_ok_iff.1 ran
  obtain ⟨owners, fields, p₁, -, added, rfl, rfl⟩ :=
    (runFrom_register_eq_ok_iff (h.fresh split)).1 ran
  have sound : s.Sound (p.reserving v.name none) := h.sound
  have after := addFields_added sound added
  refine ⟨after.sound, ?_, after.callbacks.trans h.callbacks⟩
  have same : p₁.layouts = p.layouts := after.layouts
  simp [same, h.layouts]

/-- All value types are registered when each of them is legal. -/
theorem registerAll_iff :
    ((∃ p, (s.declarations.valueTypes.forM fun v => discard (s.register v)).runFrom {} =
        (.ok (), p)) ↔ ∀ v ∈ s.declarations.valueTypes, s.LegalRecord v) ∧
      ∀ p, (s.declarations.valueTypes.forM fun v => discard (s.register v)).runFrom {} =
        (.ok (), p) → s.Registered s.declarations.valueTypes p :=
  ExceptT.forM_runFrom_iff s.Registered (fun _ _ _ _ split h => h.step split)
    (fun _ _ _ _ _ split h => h.add split) ⟨s.sound_empty, rfl, rfl⟩

end Session

end NativeBridge
