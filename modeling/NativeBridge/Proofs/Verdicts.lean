import NativeBridge.Proofs.Requests

/-!
# What decides a declaration

A value type is registered, and a callback planned, at most once. The first time it ends as the
declarations alone say, whatever slots are taken and whatever else is planned; after a success it
stays in its table, and asking for it again changes nothing.
-/
namespace NativeBridge.Session

variable {s : Session} {α β γ : Type}

/-! ## Steps that only reserve slots -/

/-- A step that ends as a check says, up to a view of its result, and changes neither layouts nor
planned callbacks. -/
structure Decides (s : Session) (x : Planning α) (view : α → β) (verdict : Except Failure β) :
    Prop where
  result : ∀ {p}, s.Sound p → (x.runFrom p).1.map view = verdict
  sound : ∀ {p}, s.Sound p → s.Sound (x.runFrom p).2
  layouts : ∀ p, (x.runFrom p).2.layouts = p.layouts
  callbacks : ∀ p, (x.runFrom p).2.callbacks = p.callbacks

theorem Steady.decides {x : Planning α} (hx : s.Steady x) : s.Decides x id x.outcome := by
  refine ⟨fun sound => ?_, hx.sound, fun p => (hx.tables p).layouts,
    fun p => (hx.tables p).callbacks⟩
  rw [hx.result sound]
  cases x.outcome <;> rfl

namespace Decides

theorem bind {x : Planning α} {view : α → β} {verdict : Except Failure β} {δ : Type}
    {f : α → Planning γ} {after : γ → δ} {next : β → Except Failure δ}
    (hx : s.Decides x view verdict) (hf : ∀ a, s.Decides (f a) after (next (view a))) :
    s.Decides (x >>= f) after (verdict >>= next) := by
  constructor
  · intro p sound
    have first := hx.result sound
    have kept := hx.sound sound
    rw [ExceptT.runFrom_bind]
    rcases ran : x.runFrom p with ⟨e | a, q⟩ <;> rw [ran] at first kept <;> rw [← first]
    · rfl
    · exact (hf a).result kept
  · intro p sound
    exact ExceptT.Ensures.leaves_bind (hx.sound sound) fun a q => (hf a).sound
  · intro p
    exact ExceptT.Ensures.leaves_bind (P := (·.layouts = p.layouts)) (hx.layouts p)
      fun a q same => ((hf a).layouts q).trans same
  · intro p
    exact ExceptT.Ensures.leaves_bind (P := (·.callbacks = p.callbacks)) (hx.callbacks p)
      fun a q same => ((hf a).callbacks q).trans same

theorem bind_ok {x : Planning α} {δ : Type} {f : α → Planning γ} {after : γ → δ}
    {verdict : Except Failure δ} (hx : s.Decides x (fun _ => ()) (.ok ()))
    (hf : ∀ a, s.Decides (f a) after verdict) : s.Decides (x >>= f) after verdict := by
  change s.Decides (x >>= f) after (Except.ok () >>= fun _ => verdict)
  exact hx.bind hf

theorem foldlM {f : β → α → Planning β} {view : β → γ} {check : γ → α → Except Failure γ}
    (hf : ∀ b a, s.Decides (f b a) view (check (view b) a)) (items : List α) (b : β) :
    s.Decides (items.foldlM f b) view (items.foldlM check (view b)) := by
  induction items generalizing b with
  | nil => exact ⟨fun _ => rfl, fun sound => sound, fun _ => rfl, fun _ => rfl⟩
  | cons a rest ih =>
    rw [List.foldlM_cons, List.foldlM_cons]
    exact (hf b a).bind ih

end Decides

theorem decides_reserve (valueType : String) (field : Option String) :
    s.Decides (reserve valueType field) (fun _ => ()) (.ok ()) :=
  ⟨fun _ => rfl, fun sound => sound, fun _ => rfl, fun _ => rfl⟩

/-! ## The verdict on a declaration -/

/-- Takes a field up among the names of those before it, or refuses it. -/
def checkField (s : Session) (v : ValueType) (names : List String) :
    ValueType × Attribute → Except Failure (List String)
  | (owner, field) =>
    if field.name ∈ names then .error (.invalid (.shadowedField owner.name field.name v.name))
    else do
      let _ ← (s.fieldKind owner field).outcome
      return names ++ [field.name]

/-- Whether a value type can be registered, or why it is refused. -/
def recordVerdict (s : Session) (v : ValueType) : Except Failure Unit := do
  let owners ← s.lineage v
  let _ ← (ownedFields owners).foldlM (s.checkField v) []
  return ()

/-- Whether a callback can be planned, or why it is refused. -/
def callbackVerdict (s : Session) (c : Callback) : Except Failure Unit := do
  let _ ← (s.callbackPlan c).outcome
  return ()

/-- A field is added or refused by its name and type, whatever slots are taken. -/
theorem decides_addField (v : ValueType) (fields : List FieldLayout)
    (item : ValueType × Attribute) :
    s.Decides (s.addField v fields item) (List.map (·.name))
      (s.checkField v (fields.map (·.name)) item) := by
  obtain ⟨owner, field⟩ := item
  have taken : fields.any (·.name = field.name) = true ↔ field.name ∈ fields.map (·.name) := by
    simp
  rw [addField, checkField]
  by_cases again : field.name ∈ fields.map (·.name)
  · rw [if_pos (taken.2 again), if_pos again]
    exact ⟨fun _ => rfl, fun sound => sound, fun _ => rfl, fun _ => rfl⟩
  · rw [if_neg fun any => again (taken.1 any), if_neg again]
    refine (steady_fieldKind owner field).decides.bind fun kind => ?_
    refine (decides_reserve v.name (some field.name)).bind_ok fun slot => ?_
    refine ⟨fun _ => ?_, fun sound => sound, fun _ => rfl, fun _ => rfl⟩
    exact congrArg Except.ok List.map_append

/-- The part of a registration that can fail. -/
def layOut (s : Session) (v : ValueType) : Planning (Nat × List FieldLayout) := do
  let sizeSlot ← reserve v.name none
  let owners ← Planning.check (s.lineage v)
  let fields ← (ownedFields owners).foldlM (s.addField v) []
  return (sizeSlot, fields)

theorem decides_layOut (v : ValueType) :
    s.Decides (s.layOut v) (fun _ => ()) (s.recordVerdict v) := by
  refine (decides_reserve v.name none).bind_ok fun sizeSlot => ?_
  refine (Steady.check (s.lineage v)).decides.bind fun owners => ?_
  refine (Decides.foldlM (decides_addField v) (ownedFields owners) []).bind fun fields => ?_
  exact ⟨fun _ => rfl, fun sound => sound, fun _ => rfl, fun _ => rfl⟩

theorem discard_register_fresh {v : ValueType} {p : Progress}
    (fresh : p.layouts.find? (·.valueType.name = v.name) = none) :
    (discard (s.register v)).runFrom p = (s.layOut v >>= fun laid => do
      modify fun p => { p with layouts := p.layouts ++ [⟨v, laid.1, laid.2⟩] }
      Planning.note (.layout v.name laid.1 (laid.2.map fun f => (f.name, f.slot)))).runFrom p := by
  rw [ExceptT.discard_eq_bind, register, bind_assoc,
    ExceptT.runFrom_bind_ok (ExceptT.runFrom_get p), fresh]
  simp only [layOut, bind_assoc, pure_bind]
  rfl

/-- A value type that is not registered ends as its verdict says. -/
theorem runFrom_register_fresh {v : ValueType} {p : Progress} (sound : s.Sound p)
    (fresh : p.layouts.find? (·.valueType.name = v.name) = none) :
    ∃ q, (discard (s.register v)).runFrom p = (s.recordVerdict v, q) ∧ s.Sound q ∧
      q.callbacks = p.callbacks ∧
      q.layouts.map (·.valueType) = p.layouts.map (·.valueType) ++
        if (s.recordVerdict v).isOk then [v] else [] := by
  have decided := decides_layOut (s := s) v
  have ends := decided.result sound
  have kept := decided.sound sound
  have layouts := decided.layouts p
  have callbacks := decided.callbacks p
  rw [discard_register_fresh fresh, ExceptT.runFrom_bind]
  rcases ran : (s.layOut v).runFrom p with ⟨failure | laid, q⟩ <;>
    rw [ran] at ends kept layouts callbacks <;> rw [← ends]
  · refine ⟨q, rfl, kept, callbacks, ?_⟩
    rw [layouts]
    exact (List.append_nil _).symm
  · refine ⟨_, rfl, kept, callbacks, ?_⟩
    change (q.layouts ++ [(⟨v, laid.1, laid.2⟩ : RecordLayout)]).map (·.valueType) = _ ++ [v]
    rw [layouts, List.map_append, List.map_singleton]

/-- A callback that is not planned ends as its verdict says. -/
theorem runFrom_planCallback_fresh {c : Callback} {p : Progress} (sound : s.Sound p)
    (fresh : p.callbacks.find? (·.callback.name = c.name) = none) :
    ∃ q, (discard (s.planCallback c)).runFrom p = (s.callbackVerdict c, q) ∧ s.Sound q ∧
      q.layouts = p.layouts ∧
      q.callbacks.map (·.callback) = p.callbacks.map (·.callback) ++
        if (s.callbackVerdict c).isOk then [c] else [] := by
  obtain ⟨p₁, kept, same, effect⟩ := runFrom_planCallback sound fresh
  rw [ExceptT.discard_eq_bind, callbackVerdict]
  cases found : (s.callbackPlan c).outcome with
  | error failure =>
    rw [found] at effect
    rw [ExceptT.runFrom_bind_error effect]
    refine ⟨p₁, rfl, kept, same.layouts, ?_⟩
    rw [same.callbacks]
    exact (List.append_nil _).symm
  | ok plan =>
    rw [found] at effect
    rw [ExceptT.runFrom_bind_ok effect]
    refine ⟨_, rfl, kept, same.layouts, ?_⟩
    change (p₁.callbacks ++ [plan]).map (·.callback) = _ ++ [c]
    rw [same.callbacks, List.map_append, List.map_singleton,
      (outcome_callbackPlan_eq_ok_iff.1 found).1]

/-! ## Tables that fill up -/

/-- A step for each item that keeps a table of the items done. An item in the table is left alone.
Another one ends as its verdict says and joins the table if that is good; the other table stays. -/
structure Fills (s : Session) (name : α → String) (table : Progress → List α)
    (other : Progress → β) (verdict : α → Except Failure Unit) (step : α → Planning Unit) :
    Prop where
  known : ∀ {p a}, name a ∈ (table p).map name → (step a).runFrom p = (.ok (), p)
  fresh : ∀ {p a}, s.Sound p → name a ∉ (table p).map name →
    ∃ q, (step a).runFrom p = (verdict a, q) ∧ s.Sound q ∧ other q = other p ∧
      table q = table p ++ if (verdict a).isOk then [a] else []

namespace Fills

variable {name : α → String} {table : Progress → List α} {other : Progress → β}
  {verdict : α → Except Failure Unit} {step : α → Planning Unit}

theorem runFrom_known (h : s.Fills name table other verdict step) {p : Progress} {items : List α}
    (known : ∀ a ∈ items, a ∈ table p) : (items.forM step).runFrom p = (.ok (), p) := by
  induction items with
  | nil => rfl
  | cons a rest ih =>
    rw [List.forall_mem_cons] at known
    change (step a >>= fun _ => rest.forM step).runFrom p = _
    rw [ExceptT.runFrom_bind_ok (h.known (List.mem_map_of_mem known.1))]
    exact ih known.2

/-- Where all items are gone through, the table holds each of them and what it held before. -/
theorem of_forM (h : s.Fills name table other verdict step) {items : List α} {p q : Progress}
    (sound : s.Sound p) (ran : (items.forM step).runFrom p = (.ok (), q)) :
    s.Sound q ∧ other q = other p ∧ table p <+: table q ∧ ∀ a ∈ items,
      name a ∈ (table q).map name := by
  induction items generalizing p with
  | nil =>
    cases ran
    exact ⟨sound, rfl, List.prefix_rfl, nofun⟩
  | cons a rest ih =>
    obtain ⟨_, p₁, first, others⟩ := ExceptT.runFrom_bind_eq_ok_iff.1 ran
    have step₁ : s.Sound p₁ ∧ other p₁ = other p ∧ table p <+: table p₁ ∧
        name a ∈ (table p₁).map name := by
      by_cases known : name a ∈ (table p).map name
      · rw [h.known known] at first
        cases first
        exact ⟨sound, rfl, List.prefix_rfl, known⟩
      · obtain ⟨q₁, ran₁, sound₁, same₁, grown⟩ := h.fresh sound known
        rw [first] at ran₁
        obtain ⟨good, rfl⟩ := Prod.mk.inj ran₁
        rw [← good] at grown
        have longer : table p₁ = table p ++ [a] := grown
        refine ⟨sound₁, same₁, ?_, ?_⟩
        · rw [longer]
          exact List.prefix_append _ _
        · rw [longer]
          exact List.mem_map_of_mem (List.mem_append_right _ List.mem_cons_self)
    obtain ⟨sound₁, same₁, kept₁, there⟩ := step₁
    obtain ⟨sound₂, same₂, kept₂, all⟩ := ih sound₁ others
    refine ⟨sound₂, same₂.trans same₁, kept₁.trans kept₂, List.forall_mem_cons.2 ⟨?_, all⟩⟩
    exact (kept₂.map name).subset there

end Fills

def registeredTypes (p : Progress) : List ValueType := p.layouts.map (·.valueType)

def plannedCallbacks (p : Progress) : List Callback := p.callbacks.map (·.callback)

theorem registeredTypes_congr {p q : Progress} (same : q.layouts = p.layouts) :
    registeredTypes q = registeredTypes p := by
  rw [registeredTypes, same, registeredTypes]

theorem plannedCallbacks_congr {p q : Progress} (same : q.callbacks = p.callbacks) :
    plannedCallbacks q = plannedCallbacks p := by
  rw [plannedCallbacks, same, plannedCallbacks]

theorem fills_registeredTypes :
    s.Fills ValueType.name registeredTypes Progress.callbacks s.recordVerdict
      (fun v => discard (s.register v)) := by
  have keys : ∀ p : Progress,
      (registeredTypes p).map ValueType.name = p.layouts.map (·.valueType.name) := by
    intro p
    rw [registeredTypes, List.map_map]
    rfl
  constructor
  · intro p v there
    rw [keys] at there
    cases found : p.layouts.find? (·.valueType.name = v.name) with
    | none => exact absurd there (find?_name_eq_none_iff.1 found)
    | some layout =>
      rw [ExceptT.discard_eq_bind, register, bind_assoc,
        ExceptT.runFrom_bind_ok (ExceptT.runFrom_get p), found]
      rfl
  · intro p v sound new
    rw [keys] at new
    exact runFrom_register_fresh sound (find?_name_eq_none_iff.2 new)

theorem fills_plannedCallbacks :
    s.Fills Callback.name plannedCallbacks Progress.layouts s.callbackVerdict
      (fun c => discard (s.planCallback c)) := by
  have keys : ∀ p : Progress,
      (plannedCallbacks p).map Callback.name = p.callbacks.map (·.callback.name) := by
    intro p
    rw [plannedCallbacks, List.map_map]
    rfl
  constructor
  · intro p c there
    rw [keys] at there
    cases found : p.callbacks.find? (·.callback.name = c.name) with
    | none => exact absurd there (find?_name_eq_none_iff.1 found)
    | some plan =>
      rw [ExceptT.discard_eq_bind, planCallback, bind_assoc,
        ExceptT.runFrom_bind_ok (ExceptT.runFrom_get p), found]
      rfl
  · intro p c sound new
    rw [keys] at new
    exact runFrom_planCallback_fresh sound (find?_name_eq_none_iff.2 new)

end NativeBridge.Session
