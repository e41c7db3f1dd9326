import NativeBridge.Plan.Session

/-!
# Planning record layouts

Registering a value type reserves the slot of its size and one slot for each field, its own and
those of its ancestors. Slots are numbered in the order in which they are reserved; a registration
that fails leaves its slots reserved.
-/
namespace NativeBridge.Session

open Planning

variable (s : Session)

def valueTypeNames : List String := s.declarations.valueTypes.map (·.name)

theorem mem_valueTypeNames {name : String} {v : ValueType} (h : s.valueType? name = some v) :
    name ∈ s.valueTypeNames := by
  have named : v.name = name := by simpa using List.find?_some h
  exact List.mem_map.2 ⟨v, List.mem_of_find?_eq_some h, named⟩

/-- A value type and its ancestors, the most derived first; `visited` are the names so far. -/
def lineageFrom (visited : List String) (v : ValueType) : Except Failure (List ValueType) :=
  match v.parent with
  | none => .ok [v]
  | some parent =>
    match _found : s.valueType? parent with
    | none => .error (.invalid (.valueTypeParent v.name parent))
    | some p =>
      if _fresh : parent ∈ visited then .error (.invalid (.valueTypeCycle parent))
      else do return v :: (← lineageFrom (parent :: visited) p)
termination_by unvisited s.valueTypeNames visited
decreasing_by exact unvisited_lt (s.mem_valueTypeNames _found) _fresh

def lineage (v : ValueType) : Except Failure (List ValueType) := s.lineageFrom [v.name] v

def reserve (valueType : String) (field : Option String) : Planning Nat := do
  let p ← get
  let slot : Slot := { index := p.slots.length, valueType, field }
  set { p with slots := p.slots ++ [slot] }
  return slot.index

/-- The kind of a field: a scalar that fits an element of a heap view. -/
def fieldScalar (owner : ValueType) (field : Attribute) (d : Option Descriptor) :
    Except Failure ScalarKind :=
  let refuse (cause : FieldFault) : Except Failure ScalarKind :=
    .error (.refused (.unsupported (.field owner.name field.name cause)) none)
  match d with
  | some ⟨.interface name, false, _⟩ => refuse (.interface name)
  | some ⟨.valueType name, false, _⟩ => refuse (.nested name)
  | some ⟨.string, false, _⟩ => refuse .string
  | some ⟨.scalar kind, false, _⟩ => if kind.isWideInteger then refuse .wideInteger else .ok kind
  | found => refuse (.nonScalar found)

def fieldKind (owner : ValueType) (field : Attribute) : Planning ScalarKind := do
  if field.readOnly then throw (.invalid (.readOnlyField owner.name field.name))
  if field.isStatic then throw (.invalid (.staticField owner.name field.name))
  let d ← within (.member owner.name field.name) (s.resolve field.type field.flags)
  check (fieldScalar owner field d)

/-- Reserves the slot of one field of a record of type `derived`. -/
def addField (derived : ValueType) (fields : List FieldLayout) :
    ValueType × Attribute → Planning (List FieldLayout)
  | (owner, field) => do
    if fields.any (·.name = field.name) then
      throw (.invalid (.shadowedField owner.name field.name derived.name))
    let kind ← s.fieldKind owner field
    let slot ← reserve derived.name (some field.name)
    return fields ++ [{ name := field.name, kind, slot }]

/-- The fields of a line of owners, each with its owner. -/
def ownedFields (owners : List ValueType) : List (ValueType × Attribute) :=
  owners.flatMap fun o => o.fields.map (o, ·)

/-- The layout of a value type; one that is registered keeps its layout. -/
def register (v : ValueType) : Planning RecordLayout := do
  match (← get).layouts.find? (·.valueType.name = v.name) with
  | some layout => return layout
  | none =>
    let sizeSlot ← reserve v.name none
    let owners ← check (s.lineage v)
    let fields ← (ownedFields owners).foldlM (s.addField v) []
    let layout : RecordLayout := { valueType := v, sizeSlot, fields }
    modify fun p => { p with layouts := p.layouts ++ [layout] }
    note (.layout v.name sizeSlot (fields.map fun f => (f.name, f.slot)))
    return layout

/-- Appends the value types that are not there yet. -/
def appendNew (ordered : List ValueType) (more : List ValueType) : List ValueType :=
  more.foldl (fun ordered v => if v ∈ ordered then ordered else ordered ++ [v]) ordered

/-- The registered value types and their ancestors, every parent ahead of its children. -/
def recordsOrder (layouts : List RecordLayout) : Except Failure (List ValueType) :=
  layouts.foldlM (fun ordered layout => do
    return appendNew ordered (← s.lineage layout.valueType).reverse) []

end NativeBridge.Session
