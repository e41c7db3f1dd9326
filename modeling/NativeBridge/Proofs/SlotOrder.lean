import NativeBridge.Proofs.Preparation

/-!
# The order of slots

Slots are reserved while value types are checked, one registration after another. What a successful
preparation has reserved in the end is still a table that can be written down from the value types
alone: for each of them, in order of declaration, its size, then its fields, those of its parent,
and so on to the root.
-/
namespace NativeBridge

/-- Slots for some questions about value types, numbered from a start. -/
def numbered (start : Nat) (questions : List (String × Option String)) : List Slot :=
  (questions.zipIdx start).map fun (question, index) =>
    { index, valueType := question.1, field := question.2 }

theorem numbered_append (start : Nat) (front back : List (String × Option String)) :
    numbered start (front ++ back) =
      numbered start front ++ numbered (start + front.length) back := by
  simp [numbered, List.zipIdx_append]

theorem length_numbered (start : Nat) (questions : List (String × Option String)) :
    (numbered start questions).length = questions.length := by
  simp [numbered]

/-- A value type and its ancestors in a pool, the most derived first. An ancestor that is found
leaves the pool, so that the walk ends. -/
def ancestors (pool : List ValueType) (v : ValueType) : List ValueType :=
  match v.parent with
  | none => [v]
  | some name =>
    match _found : pool.find? (·.name = name) with
    | none => [v]
    | some p => v :: ancestors (pool.erase p) p
termination_by pool.length
decreasing_by
  have member := List.mem_of_find?_eq_some _found
  have some := List.length_pos_of_mem member
  rw [List.length_erase_of_mem member]
  omega

theorem ancestors_of_parent {pool : List ValueType} {v p : ValueType} {name : String}
    (parent : v.parent = some name) (found : pool.find? (·.name = name) = some p) :
    ancestors pool v = v :: ancestors (pool.erase p) p := by
  rw [ancestors, parent]
  simp only
  split
  · rename_i missing
    rw [found] at missing
    cases missing
  · rename_i q same
    rw [found] at same
    cases same
    rfl

/-- What is asked about a value type: its size, then the offsets of its fields up to the root. -/
def slotBlock (pool : List ValueType) (v : ValueType) : List (String × Option String) :=
  (v.name, none) :: ((ancestors pool v).flatMap (·.fields)).map fun f => (v.name, some f.name)

/-- The slots of some value types, block by block. -/
def slotTable (valueTypes : List ValueType) : List Slot :=
  numbered 0 (valueTypes.flatMap (slotBlock valueTypes))

/-- Progress with slots for some more questions. -/
def Progress.Asks (p q : Progress) (questions : List (String × Option String)) : Prop :=
  q.slots = p.slots ++ numbered p.slots.length questions

namespace Progress.Asks

variable {p q r : Progress} {front back : List (String × Option String)}

theorem of_slots (same : q.slots = p.slots) : p.Asks q [] := by
  rw [Asks, same]
  exact (List.append_nil _).symm

theorem trans (first : p.Asks q front) (second : q.Asks r back) : p.Asks r (front ++ back) := by
  have reached : q.slots.length = p.slots.length + front.length := by
    rw [first, List.length_append, length_numbered]
  rw [Asks, second, reached, numbered_append, ← List.append_assoc]
  exact congrArg (· ++ _) first

theorem reserving (p : Progress) (valueType : String) (field : Option String) :
    p.Asks (p.reserving valueType field) [(valueType, field)] := rfl

end Progress.Asks

namespace Session

variable {s t : Session}

/-! ## Ancestors without a session -/

/-- Every value type on a line of ancestors has the rest of the line as its own. -/
theorem Ancestry.above {v : ValueType} {chain : List ValueType} (h : s.Ancestry v chain) :
    ∀ u ∈ chain, ∃ rest, s.Ancestry u rest ∧ rest.length ≤ chain.length := by
  induction h with
  | @root v top =>
    intro u member
    rw [List.mem_singleton.1 member]
    exact ⟨[v], .root top, Nat.le_refl _⟩
  | @derived v p chain parent above ih =>
    intro u member
    rcases List.mem_cons.1 member with rfl | later
    · exact ⟨u :: chain, .derived parent above, Nat.le_refl _⟩
    · obtain ⟨rest, line, short⟩ := ih u later
      exact ⟨rest, line, Nat.le_succ_of_le short⟩

/-- A value type is not among its own ancestors. -/
theorem Ancestry.not_mem {v : ValueType} {rest : List ValueType} (h : s.Ancestry v (v :: rest)) :
    v ∉ rest := by
  intro again
  cases h with
  | root => cases again
  | derived parent above =>
    obtain ⟨line, own, short⟩ := above.above v again
    rw [own.unique (.derived parent above), List.length_cons] at short
    omega

theorem Ancestry.eq_cons {v : ValueType} {chain : List ValueType} (h : s.Ancestry v chain) :
    ∃ rest, chain = v :: rest := by
  cases h with
  | root => exact ⟨[], rfl⟩
  | derived => exact ⟨_, rfl⟩

/-- The line of ancestors can be read off any pool that has all of them. -/
theorem Ancestry.ancestors_eq {v : ValueType} {chain pool : List ValueType} (h : s.Ancestry v chain)
    (distinct : (pool.map (·.name)).Nodup) (known : ∀ u ∈ chain.tail, u ∈ pool) :
    ancestors pool v = chain := by
  induction h generalizing pool with
  | root top => rw [ancestors, top]
  | @derived v p chain parent above ih =>
    obtain ⟨rest, rfl⟩ := above.eq_cons
    have member : p ∈ pool := known p List.mem_cons_self
    have found : pool.find? (·.name = p.name) = some p := (find?_name_iff distinct).2 ⟨member, rfl⟩
    have fewer : ((pool.erase p).map (·.name)).Nodup := distinct.sublist (List.erase_sublist.map _)
    have others : ∀ u ∈ rest, u ∈ pool.erase p := by
      intro u inside
      have ne : u ≠ p := fun same => above.not_mem (same ▸ inside)
      exact (List.mem_erase_of_ne ne).2 (known u (List.mem_cons_of_mem p inside))
    rw [ancestors_of_parent parent.2 found, ih fewer others]

/-- A line of ancestors is one in every session that has all value types of the first. -/
theorem Ancestry.mono {v : ValueType} {chain : List ValueType} (h : s.Ancestry v chain)
    (more : ∀ u ∈ s.declarations.valueTypes, u ∈ t.declarations.valueTypes) :
    t.Ancestry v chain := by
  induction h with
  | root top => exact .root top
  | derived parent _ ih => exact .derived ⟨more _ parent.1, parent.2⟩ ih

theorem Ancestry.ancestors_eq_of_subset {v : ValueType} {chain : List ValueType}
    (h : s.Ancestry v chain) (declared : v ∈ s.declarations.valueTypes)
    (more : ∀ u ∈ s.declarations.valueTypes, u ∈ t.declarations.valueTypes) :
    ancestors t.declarations.valueTypes v = chain := by
  refine (h.mono more).ancestors_eq t.valueType_names_nodup ?_
  intro u inside
  exact more u (h.declared declared u (List.mem_of_mem_tail inside))

/-! ## What registering reserves -/

theorem asks_of_addFields {v : ValueType} {items : List (ValueType × Attribute)}
    {fields : List FieldLayout} {p q : Progress}
    (added : (items.foldlM (s.addField v) []).runFrom p = (.ok fields, q)) :
    p.Asks q (items.map fun item => (v.name, some item.2.name)) := by
  rw [ExceptT.runFrom_foldlM_eq_ok_iff] at added
  -- the invariant counts the fields that are done
  let Reserved (done : List (ValueType × Attribute)) (state : List FieldLayout × Progress) : Prop :=
    p.Asks state.2 (done.map fun item => (v.name, some item.2.name))
  refine foldlM_invariant Reserved ?_ (Progress.Asks.of_slots rfl) added
  rintro done ⟨owner, f⟩ rest ⟨before, p₁⟩ ⟨after, p₃⟩ - here taken
  obtain ⟨-, kind, p₂, ran, -, rfl⟩ :=
    runFrom_addField_eq_ok_iff.1 (ExceptT.advance_eq_ok_iff.1 taken)
  have kept := (steady_fieldKind (s := s) owner f).tables p₁
  rw [ran] at kept
  have next := (Progress.Asks.of_slots kept.slots).trans (.reserving p₂ v.name (some f.name))
  simpa [Reserved] using Progress.Asks.trans here next

theorem asks_of_register {v : ValueType} {layout : RecordLayout} {p q : Progress}
    (declared : v ∈ s.declarations.valueTypes)
    (fresh : p.layouts.find? (·.valueType.name = v.name) = none)
    (ran : (s.register v).runFrom p = (.ok layout, q)) :
    p.Asks q (slotBlock s.declarations.valueTypes v) := by
  obtain ⟨owners, fields, p₁, walked, added, -, rfl⟩ := (runFrom_register_eq_ok_iff fresh).1 ran
  have line := (ancestry_of_lineage walked).ancestors_eq_of_subset declared fun u member => member
  have block : slotBlock s.declarations.valueTypes v =
      [(v.name, none)] ++ (ownedFields owners).map fun item => (v.name, some item.2.name) := by
    simp [slotBlock, line, ownedFields, List.map_flatMap, Function.comp_def]
  have asked := (Progress.Asks.reserving p v.name none).trans (asks_of_addFields added)
  rw [block]
  exact asked

theorem slots_of_registerAll {p : Progress}
    (ran : (s.declarations.valueTypes.forM fun v => discard (s.register v)).runFrom {} =
      (.ok (), p)) :
    p.slots = slotTable s.declarations.valueTypes := by
  rw [ExceptT.forM_eq_foldlM, ExceptT.runFrom_foldlM_eq_ok_iff] at ran
  let Done (done : List ValueType) (state : Unit × Progress) : Prop :=
    s.Registered done state.2 ∧
      Progress.Asks {} state.2 (done.flatMap (slotBlock s.declarations.valueTypes))
  have start : Done [] ((), {}) := ⟨⟨s.sound_empty, rfl, rfl⟩, .of_slots rfl⟩
  refine (foldlM_invariant Done ?_ start ran).2
  rintro done v rest state next split ⟨registered, asked⟩ taken
  have ran := ExceptT.advance_eq_ok_iff.1 taken
  obtain ⟨layout, step⟩ := ExceptT.runFrom_discard_eq_ok_iff.1 ran
  refine ⟨registered.add split ran, ?_⟩
  have block := asks_of_register (by simp [split]) (registered.fresh split) step
  simpa [List.flatMap_append] using asked.trans block

/-- Only registering value types reserves slots. -/
theorem slots_of_prepare {plans : List InterfacePlan} {p : Progress}
    (prepared : s.prepare.runFrom {} = (.ok plans, p)) :
    p.slots = slotTable s.declarations.valueTypes := by
  obtain ⟨ordered, p₁, p₂, p₃, -, registered, planned, mapped, rfl⟩ :=
    runFrom_prepare_eq_ok_iff.1 prepared
  have after₁ := registerAll_iff.2 p₁ registered
  have after₂ := (planCallbacks_iff after₁.sound after₁.callbacks).2 p₂ planned
  have kept := (Steady.mapM (s := s) steady_planInterface ordered).tables p₂
  rw [mapped] at kept
  have same : p₃.slots = p₁.slots := kept.slots.trans after₂.slots
  exact same.trans (slots_of_registerAll registered)

/-! ## The table as a function of the value types -/

theorem ancestry_of_prepare {plans : List InterfacePlan} {p : Progress}
    (prepared : s.prepare.runFrom {} = (.ok plans, p)) {v : ValueType}
    (declared : v ∈ s.declarations.valueTypes) :
    s.Ancestry v (ancestors s.declarations.valueTypes v) := by
  have plannable : s.Plannable := exists_prepare_iff.1 ⟨plans, by rw [Planning.outcome, prepared]⟩
  obtain ⟨owners, walked, -⟩ := plannable.records v declared
  have line := ancestry_of_lineage walked
  rw [line.ancestors_eq_of_subset declared fun u member => member]
  exact line

/-- Further value types at the end of the list leave the blocks of the others as they are. -/
theorem slotTable_append {more : List ValueType}
    (lines : ∀ v ∈ s.declarations.valueTypes, s.Ancestry v (ancestors s.declarations.valueTypes v))
    (extended : t.declarations.valueTypes = s.declarations.valueTypes ++ more) :
    slotTable s.declarations.valueTypes <+: slotTable t.declarations.valueTypes := by
  have larger : ∀ u ∈ s.declarations.valueTypes, u ∈ t.declarations.valueTypes := by
    intro u member
    rw [extended]
    exact List.mem_append_left _ member
  have blocks : s.declarations.valueTypes.flatMap (slotBlock t.declarations.valueTypes) =
      s.declarations.valueTypes.flatMap (slotBlock s.declarations.valueTypes) := by
    refine List.flatMap_congr fun v declared => ?_
    rw [slotBlock, slotBlock, (lines v declared).ancestors_eq_of_subset declared larger]
  have split : t.declarations.valueTypes.flatMap (slotBlock t.declarations.valueTypes) =
      s.declarations.valueTypes.flatMap (slotBlock s.declarations.valueTypes) ++
        more.flatMap (slotBlock t.declarations.valueTypes) := by
    rw [← blocks, ← List.flatMap_append, ← extended]
  rw [slotTable, slotTable, split, numbered_append]
  exact List.prefix_append _ _

/-- The slots of a prepared session are, for each value type in order of declaration, its size and
the fields of the type and its ancestors up to the root. They depend on the value types alone, and
further value types behind them get further slots. -/
theorem slots_closed_form {plans : List InterfacePlan} {p : Progress}
    (prepared : s.prepare.runFrom {} = (.ok plans, p)) :
    (∀ v ∈ s.declarations.valueTypes, s.Ancestry v (ancestors s.declarations.valueTypes v)) ∧
      p.slots = slotTable s.declarations.valueTypes ∧
      ∀ (t : Session) (others : List InterfacePlan) (q : Progress),
        t.prepare.runFrom {} = (.ok others, q) →
          (t.declarations.valueTypes = s.declarations.valueTypes → q.slots = p.slots) ∧
            ∀ more, t.declarations.valueTypes = s.declarations.valueTypes ++ more →
              p.slots <+: q.slots := by
  have lines : ∀ v ∈ s.declarations.valueTypes,
      s.Ancestry v (ancestors s.declarations.valueTypes v) :=
    fun v declared => ancestry_of_prepare prepared declared
  refine ⟨lines, slots_of_prepare prepared, ?_⟩
  intro t others q preparedToo
  rw [slots_of_prepare prepared, slots_of_prepare preparedToo]
  refine ⟨fun same => by rw [same], ?_⟩
  intro more extended
  exact slotTable_append lines extended

/-- Discs ahead of the round shapes and the shapes that they derive from. -/
def discs : Session where
  declarations :=
    { valueTypes :=
        [{ name := "Disc", parent := some "Round"
           fields := [{ name := "filled", type := { name := "boolean" } }] },
         { name := "Round", parent := some "Shape"
           fields := [{ name := "r", type := { name := "Unit" } }] },
         { name := "Shape", fields := [{ name := "x", type := { name := "Unit" } },
           { name := "y", type := { name := "Unit" } }] }]
      typedefs := [{ name := "Unit", type := { name := "float" } }] }
  options := {}
  distinct := by decide

/-- The same shapes ahead of rings, with other units, and an interface and a callback about them. -/
def rings : Session where
  declarations :=
    { interfaces :=
        [{ name := "Canvas", operations := [{ name := "hit", returnType := { name := "Shape" } }] }]
      valueTypes := discs.declarations.valueTypes ++
        [{ name := "Ring", parent := some "Round"
           fields := [{ name := "hole", type := { name := "Unit" } }] }]
      callbacks := [{ name := "Seen", returnType := { name := "void" } }]
      typedefs := [{ name := "Unit", type := { name := "long" } }] }
  options := { entryPrefix := "draw_" }
  distinct := by decide

/-- Fields come in the order of the line of ancestors, whatever the order of declaration. -/
theorem discs_slots_stay_in_rings :
    ∃ plans p others q, discs.prepare.runFrom {} = (.ok plans, p) ∧
      rings.prepare.runFrom {} = (.ok others, q) ∧
      p.slots =
        [⟨0, "Disc", none⟩, ⟨1, "Disc", some "filled"⟩, ⟨2, "Disc", some "r"⟩,
         ⟨3, "Disc", some "x"⟩, ⟨4, "Disc", some "y"⟩,
         ⟨5, "Round", none⟩, ⟨6, "Round", some "r"⟩, ⟨7, "Round", some "x"⟩,
         ⟨8, "Round", some "y"⟩, ⟨9, "Shape", none⟩, ⟨10, "Shape", some "x"⟩,
         ⟨11, "Shape", some "y"⟩] ∧
      p.slots <+: q.slots := by
  obtain ⟨plans, p, prepared⟩ :=
    ExceptT.exists_runFrom_of_isSome (x := discs.prepare) (p := {}) (by decide +kernel)
  obtain ⟨others, q, preparedToo⟩ :=
    ExceptT.exists_runFrom_of_isSome (x := rings.prepare) (p := {}) (by decide +kernel)
  obtain ⟨-, table, stays⟩ := slots_closed_form prepared
  refine ⟨plans, p, others, q, prepared, preparedToo, ?_,
    (stays rings others q preparedToo).2 _ rfl⟩
  rw [table]
  decide +kernel

end Session

end NativeBridge
