import NativeBridge.Proofs.History

/-!
# Both sides read one offset table

The native side fills a table with sizes and offsets, and the script side reads it by slot number.
The numbers are given out one by one, also by registrations that fail later, and nothing but order
ties a row to a slot. After any requests, each row of the table answers the slot of its number, and
a record reads and writes every field at the slot that was reserved for it.
-/
namespace NativeBridge

open ExceptT (Ensures)

/-- The numbers of the slots that a layout uses. -/
def RecordLayout.slotNumbers (l : RecordLayout) : List Nat := l.sizeSlot :: l.fields.map (·.slot)

namespace Session

variable {s : Session}

/-- Slots are numbered by position and belong to declared value types; layouts are those of declared
value types and use slots of their own, each reserved for what it is used for. -/
structure TableFits (s : Session) (p : Progress) : Prop where
  numbered : ∀ (i : Nat) (slot : Slot), p.slots[i]? = some slot → slot.index = i
  owned : ∀ slot ∈ p.slots, ∃ v, s.valueType? slot.valueType = some v
  declared : ∀ l ∈ p.layouts, s.valueType? l.valueType.name = some l.valueType
  once : (p.layouts.map (·.valueType.name)).Nodup
  sizes : ∀ l ∈ p.layouts, p.slots[l.sizeSlot]? = some ⟨l.sizeSlot, l.valueType.name, none⟩
  offsets : ∀ l ∈ p.layouts, ∀ f ∈ l.fields,
    p.slots[f.slot]? = some ⟨f.slot, l.valueType.name, some f.name⟩
  distinct : (p.layouts.flatMap RecordLayout.slotNumbers).Nodup

theorem tableFits_empty (s : Session) : s.TableFits {} := by
  constructor <;> simp

theorem lt_of_reserved {p : Progress} {n : Nat} {slot : Slot} (h : p.slots[n]? = some slot) :
    n < p.slots.length := by
  by_contra beyond
  rw [List.getElem?_eq_none (by omega)] at h
  cases h

namespace TableFits

variable {p q : Progress}

theorem congr (fits : s.TableFits p) (slots : q.slots = p.slots) (layouts : q.layouts = p.layouts) :
    s.TableFits q := by
  constructor <;> simp only [slots, layouts]
  · exact fits.numbered
  · exact fits.owned
  · exact fits.declared
  · exact fits.once
  · exact fits.sizes
  · exact fits.offsets
  · exact fits.distinct

theorem sameTables (fits : s.TableFits p) (same : p.SameTables q) : s.TableFits q :=
  fits.congr same.slots same.layouts

theorem slotNumbers_lt (fits : s.TableFits p) {l : RecordLayout} (layout : l ∈ p.layouts) {n : Nat}
    (used : n ∈ l.slotNumbers) : n < p.slots.length := by
  rcases List.mem_cons.1 used with rfl | used
  · exact lt_of_reserved (fits.sizes l layout)
  · obtain ⟨f, field, rfl⟩ := List.mem_map.1 used
    exact lt_of_reserved (fits.offsets l layout f field)

end TableFits

/-- A slot stays where it is when more are reserved. -/
theorem getElem?_reserving {p : Progress} {n : Nat} {slot : Slot} (h : p.slots[n]? = some slot)
    (valueType : String) (field : Option String) :
    (p.reserving valueType field).slots[n]? = some slot := by
  rw [Progress.reserving, List.getElem?_append_left (lt_of_reserved h), h]

theorem getElem?_reserving_length (p : Progress) (valueType : String) (field : Option String) :
    (p.reserving valueType field).slots[p.slots.length]? =
      some ⟨p.slots.length, valueType, field⟩ := by
  rw [Progress.reserving, List.getElem?_append_right (Nat.le_refl _), Nat.sub_self]
  rfl

theorem TableFits.reserving {p : Progress} (fits : s.TableFits p) {name : String} {v : ValueType}
    (found : s.valueType? name = some v) (field : Option String) :
    s.TableFits (p.reserving name field) := by
  refine ⟨?_, ?_, fits.declared, fits.once, ?_, ?_, fits.distinct⟩
  · intro i slot here
    rcases Nat.lt_trichotomy i p.slots.length with before | rfl | beyond
    · rw [Progress.reserving, List.getElem?_append_left before] at here
      exact fits.numbered i slot here
    · rw [getElem?_reserving_length] at here
      cases here
      rfl
    · have inside := lt_of_reserved here
      simp only [Progress.reserving, List.length_append, List.length_singleton] at inside
      omega
  · intro slot member
    rcases List.mem_append.1 member with old | new
    · exact fits.owned slot old
    · rw [List.mem_singleton.1 new]
      exact ⟨v, found⟩
  · intro l layout
    exact getElem?_reserving (fits.sizes l layout) name field
  · intro l layout f member
    exact getElem?_reserving (fits.offsets l layout f member) name field

/-! ## Registering -/

/-- A table that fits, and a record of type `v` that is being laid out: all its slots come after
those of finished layouts, in order. -/
structure Filling (s : Session) (v : ValueType) (sizeSlot : Nat) (fields : List FieldLayout)
    (p : Progress) : Prop where
  fits : s.TableFits p
  before : ∀ l ∈ p.layouts, l.valueType.name ≠ v.name ∧ ∀ n ∈ l.slotNumbers, n < sizeSlot
  size : p.slots[sizeSlot]? = some ⟨sizeSlot, v.name, none⟩
  offsets : ∀ f ∈ fields, p.slots[f.slot]? = some ⟨f.slot, v.name, some f.name⟩
  increasing : (sizeSlot :: fields.map (·.slot)).Pairwise (· < ·)

namespace Filling

variable {v : ValueType} {sizeSlot : Nat} {fields : List FieldLayout} {p q : Progress}

theorem start (fits : s.TableFits p) (found : s.valueType? v.name = some v)
    (fresh : p.layouts.find? (·.valueType.name = v.name) = none) :
    s.Filling v p.slots.length [] (p.reserving v.name none) := by
  refine ⟨fits.reserving found none, ?_, getElem?_reserving_length p v.name none, ?_, ?_⟩
  · intro l layout
    constructor
    · simpa using List.find?_eq_none.1 fresh l layout
    · intro n used
      exact fits.slotNumbers_lt layout used
  · simp
  · simp

theorem sameTables (h : s.Filling v sizeSlot fields p) (same : p.SameTables q) :
    s.Filling v sizeSlot fields q := by
  refine ⟨h.fits.sameTables same, ?_, ?_, ?_, h.increasing⟩
  · rw [same.layouts]
    exact h.before
  · rw [same.slots]
    exact h.size
  · rw [same.slots]
    exact h.offsets

theorem add (h : s.Filling v sizeSlot fields p) (found : s.valueType? v.name = some v)
    (name : String) (kind : ScalarKind) :
    s.Filling v sizeSlot (fields ++ [{ name, kind, slot := p.slots.length }])
      (p.reserving v.name (some name)) := by
  refine ⟨h.fits.reserving found _, h.before, getElem?_reserving h.size _ _, ?_, ?_⟩
  · intro f member
    rcases List.mem_append.1 member with old | new
    · exact getElem?_reserving (h.offsets f old) _ _
    · rw [List.mem_singleton.1 new]
      exact getElem?_reserving_length p v.name (some name)
  · -- every slot so far is inside the table, and the new one is the first beyond it
    rw [List.map_append, ← List.cons_append, List.pairwise_append]
    refine ⟨h.increasing, List.pairwise_singleton _ _, ?_⟩
    intro n used m new
    rw [List.map_singleton, List.mem_singleton] at new
    rw [new]
    rcases List.mem_cons.1 used with rfl | used
    · exact lt_of_reserved h.size
    · obtain ⟨f, member, rfl⟩ := List.mem_map.1 used
      exact lt_of_reserved (h.offsets f member)

theorem finish (h : s.Filling v sizeSlot fields p) (found : s.valueType? v.name = some v) :
    s.TableFits { p with layouts := p.layouts ++ [{ valueType := v, sizeSlot, fields }] } := by
  have atOrAfter : ∀ n ∈ sizeSlot :: fields.map (·.slot), sizeSlot ≤ n := by
    intro n used
    rcases List.mem_cons.1 used with rfl | used
    · exact Nat.le_refl _
    · exact Nat.le_of_lt ((List.pairwise_cons.1 h.increasing).1 n used)
  refine ⟨h.fits.numbered, h.fits.owned, ?_, ?_, ?_, ?_, ?_⟩
  · simpa [or_imp, forall_and] using ⟨h.fits.declared, found⟩
  · rw [List.map_append, List.nodup_append]
    refine ⟨h.fits.once, List.nodup_singleton _, ?_⟩
    intro name old name' new
    obtain ⟨l, layout, rfl⟩ := List.mem_map.1 old
    rw [List.map_singleton, List.mem_singleton] at new
    rw [new]
    exact (h.before l layout).1
  · simpa [or_imp, forall_and] using ⟨h.fits.sizes, h.size⟩
  · simpa [or_imp, forall_and] using ⟨h.fits.offsets, h.offsets⟩
  · rw [List.flatMap_append, List.nodup_append]
    refine ⟨h.fits.distinct, ?_, ?_⟩
    · rw [List.flatMap_singleton]
      exact h.increasing.imp Nat.ne_of_lt
    · intro n old m new
      obtain ⟨l, layout, used⟩ := List.mem_flatMap.1 old
      rw [List.flatMap_singleton] at new
      have low := (h.before l layout).2 n used
      have high := atOrAfter m new
      omega

end Filling

theorem ensures_addField {v : ValueType} (found : s.valueType? v.name = some v) {sizeSlot : Nat}
    {fields : List FieldLayout} {p : Progress} (h : s.Filling v sizeSlot fields p)
    (item : ValueType × Attribute) :
    Ensures (s.addField v fields item) p (s.Filling v sizeSlot) s.TableFits := by
  obtain ⟨owner, field⟩ := item
  rw [addField]
  split
  · exact h.fits
  · have kept := h.sameTables ((steady_fieldKind (s := s) owner field).tables p)
    refine (Ensures.of_leaves (P := s.Filling v sizeSlot fields) kept).mono
      (fun _ _ h => h) (fun _ h => h.fits) |>.bind ?_
    intro kind q filling
    exact filling.add found field.name kind

/-- Registering leaves a table that fits, also where it stops half-way. -/
theorem ensures_register {v : ValueType} (found : s.valueType? v.name = some v) {p : Progress}
    (fits : s.TableFits p) :
    Ensures (s.register v) p (fun _ => s.TableFits) s.TableFits := by
  rw [register, Ensures, ExceptT.runFrom_bind_ok (ExceptT.runFrom_get p), ← Ensures]
  cases fresh : p.layouts.find? (·.valueType.name = v.name) with
  | some layout => exact fits
  | none =>
    have filling := Filling.start fits found fresh
    have added : ∀ owners, Ensures ((ownedFields owners).foldlM (s.addField v) [])
        (p.reserving v.name none) (s.Filling v p.slots.length) s.TableFits := fun owners =>
      Ensures.foldlM _ _ (fun item _ _ _ h => ensures_addField found h item) filling
    cases walked : s.lineage v with
    | error failure => exact filling.fits
    | ok owners =>
      refine (added owners).bind fun fields q filled => ?_
      exact (filled.finish found).sameTables ⟨rfl, rfl, rfl, rfl⟩

/-! ## Requests -/

theorem invariant_tableFits : s.Invariant s.TableFits where
  empty := s.tableFits_empty
  tables fits slots layouts _ := fits.congr slots layouts
  register declared _ fits := by
    rw [ExceptT.snd_runFrom_discard]
    exact (ensures_register (valueType?_eq_some_iff.2 ⟨declared, rfl⟩) fits).leaves
  planCallback _ sound fits := by
    obtain ⟨slots, layouts, -⟩ := planCallback_leaves sound rfl
    exact fits.congr slots layouts

/-- The table fits after any requests. -/
theorem tableFits_after (requests : List Request) : s.TableFits (s.after requests) :=
  (invariant_tableFits.after requests).2

/-! ## Rows -/

/-- The native expression that answers a slot. -/
def Answers (s : Session) (slot : Slot) (row : String) : Prop :=
  ∃ v, s.valueType? slot.valueType = some v ∧
    match slot.field with
    | none => row = s!"(int)sizeof({v.nativeName})"
    | some field => row = s!"(int)offsetof({v.nativeName}, {field})"

theorem slotRow_eq_ok_iff {slot : Slot} {row : String} :
    s.slotRow slot = .ok row ↔ s.Answers slot row := by
  obtain ⟨index, owner, field⟩ := slot
  simp only [slotRow, Answers]
  cases s.valueType? owner with
  | none => simp
  | some v => cases field <;> simp [Slot.nativeExpr, eq_comm]

theorem TableFits.exists_rows {p : Progress} (fits : s.TableFits p) :
    ∃ rows, List.Forall₂ s.Answers p.slots rows := by
  rw [exists_forall₂_iff]
  intro slot member
  obtain ⟨v, found⟩ := fits.owned slot member
  exact ⟨slot.nativeExpr v.nativeName, slotRow_eq_ok_iff.1 (by rw [slotRow, found])⟩

theorem answers_of_getElem? {slots : List Slot} {rows : List String} {i : Nat} {slot : Slot}
    (answered : List.Forall₂ s.Answers slots rows) (here : slots[i]? = some slot) :
    ∃ row, rows[i]? = some row ∧ s.Answers slot row := by
  have inside : i < slots.length := (List.getElem?_eq_some_iff.1 here).1
  have insideRows : i < rows.length := answered.length_eq ▸ inside
  have related := answered.get inside insideRows
  rw [List.get_eq_getElem, (List.getElem?_eq_some_iff.1 here).2] at related
  exact ⟨rows[i], List.getElem?_eq_getElem insideRows, related⟩

/-- The native function that answers the query with the given rows. -/
def queryLines (s : Session) (rows : List String) : List String :=
  [s!"const int* EMSCRIPTEN_KEEPALIVE {s.layoutQuery}() \x7b",
   "  static const int table[] = \x7b"] ++ rows.map (fun row => s!"    {row},") ++
    ["  \x7d;", "  return table;", "\x7d", ""]

/-- The script function that copies a table of some size. -/
def copyLines (s : Session) (size : Nat) : List String :=
  ["function __jsbind_initLayout() \x7b",
   s!"  var table = _{s.layoutQuery}() >> 2;",
   s!"  for (var i = 0; i < {size}; i++) \x7b",
   "    __jsbind_layout[i] = HEAP32[table + i];",
   "  \x7d",
   "\x7d",
   "if (runtimeInitialized) __jsbind_initLayout(); else addOnInit(__jsbind_initLayout);"]

theorem nativeLayout_of_answers {slots : List Slot} {rows : List String}
    (answered : List.Forall₂ s.Answers slots rows) :
    s.nativeLayout slots = .ok (if rows = [] then [] else s.queryLines rows) := by
  cases answered with
  | nil => rfl
  | cons first others =>
    have emitted := except_mapM_eq_ok_iff.2
      ((List.Forall₂.cons first others).imp fun _ _ => slotRow_eq_ok_iff.2)
    simp only [nativeLayout, layoutEntry, emitted, reduceCtorEq, if_false]
    refine congrArg Except.ok ?_
    simp [EntryPoint.lines, EntryPoint.head, queryLines, indent, EntryPoint.parameterTexts,
      commaSeparated, ← String.toList_inj, toString, Function.comp_def]

theorem scriptLayout_of_answers {slots : List Slot} {rows : List String}
    (answered : List.Forall₂ s.Answers slots rows) :
    s.scriptLayout slots = ["var __jsbind_layout = [];"] ++
      (if rows = [] then [] else s.copyLines rows.length) ++ [""] := by
  cases answered with
  | nil => rfl
  | cons first others =>
    have size := (List.Forall₂.cons first others).length_eq
    simp only [scriptLayout, layoutParts, reduceCtorEq, if_false, size, copyLines]
    simp [ScriptPart.lines, layoutCall, layoutTable, CallSequence.lines, CallSequence.lead,
      CallSequence.statement, NativeCall.text,
      NativeCall.passed, commaSeparated, indent, ← String.toList_inj, toString]

end Session

/-! ## Records -/

/-- The lines of a method of a class, from its opening line to the brace that closes it. -/
def methodBody (opening : String) (lines : List String) : List String :=
  ((lines.dropWhile (· ≠ opening)).drop 1).takeWhile (· ≠ "  \x7d")

theorem methodBody_append {opening : String} {before body after : List String}
    (outside : ∀ line ∈ before, line ≠ opening) (inside : ∀ line ∈ body, line ≠ "  \x7d") :
    methodBody opening (before ++ opening :: (body ++ "  \x7d" :: after)) = body := by
  rw [methodBody, List.dropWhile_append_of_pos (by simpa using outside),
    List.dropWhile_cons_of_neg (by simp), List.drop_one, List.tail_cons,
    List.takeWhile_append_of_pos (by simpa using inside), List.takeWhile_cons_of_neg (by simp),
    List.append_nil]

namespace FieldLayout

variable (f : FieldLayout)

/-- The heap element of a field: what the view of its kind holds at its offset in the record. -/
def place : String :=
  f.kind.heapView ++ "[(ptr + __jsbind_layout[" ++ toString f.slot ++ "])" ++
    (if f.kind.shift = 0 then "" else " >> " ++ toString f.kind.shift) ++ "]"

theorem heapRef_ptr : f.heapRef "ptr" = f.place := by
  by_cases byte : f.kind.shift = 0 <;>
    simp [heapRef, place, byte, layoutTable, ← String.toList_inj, toString]

/-- The assignment by which a field is read from the heap. -/
def reads (place : String) : String :=
  "    obj." ++ f.name ++ " = " ++ (if f.isBool then "!!" else "") ++ place ++ ";"

/-- The assignment by which a field is written to the heap. -/
def writes (place : String) : String :=
  "    " ++ place ++ " = obj." ++ f.name ++ (if f.isBool then " ? 1 : 0" else "") ++ ";"

theorem initLine_eq :
    f.initLine = "    this." ++ f.name ++ " = init." ++ f.name ++ " === undefined ? " ++
    (if f.isBool then "false" else "0") ++ " : init." ++ f.name ++ ";" := rfl

theorem readLine_eq : f.readLine = f.reads f.place := by
  by_cases boolean : f.isBool <;>
    simp [readLine, reads, heapRef_ptr, boolean, ← String.toList_inj, toString]

theorem writeLine_eq : f.writeLine = f.writes f.place := by
  by_cases boolean : f.isBool <;>
    simp [writeLine, writes, heapRef_ptr, boolean, ← String.toList_inj, toString]

end FieldLayout

namespace RecordLayout

variable (l : RecordLayout) (v : ValueType)

/-- The constructor of a record's class. -/
def construction : List String :=
  [s!"class {v.name}{extendsClause v.parent} \x7b", "  constructor(init) \x7b"] ++
    (if extendsClause v.parent = "" then [] else ["    super(init);"]) ++
    ["    init = init || \x7b\x7d;"] ++ (l.ownFields v).map FieldLayout.initLine ++ ["  \x7d", ""]

/-- The body of the method that makes an object from a record on the heap. -/
def reading : List String :=
  ["    let obj = Object.create(" ++ v.name ++ ".prototype);"] ++
    l.fields.map (fun f => f.reads f.place) ++ ["    return obj;"]

/-- The body of the method that makes a record on the heap from an object. -/
def writing : List String :=
  ["    let ptr = ensureCache.allocBytes(__jsbind_layout[" ++ toString l.sizeSlot ++ "]);"] ++
    l.fields.map (fun f => f.writes f.place) ++ ["    return ptr;"]

theorem lines_eq : l.lines v = l.construction v ++ "  static __fromNative(ptr) \x7b" ::
    (l.reading v ++ "  \x7d" :: "" :: "  static __toNative(obj) \x7b" ::
      (l.writing ++ "  \x7d" :: ["\x7d", ""])) := by
  have create : s!"    let obj = Object.create({v.name}.prototype);" =
      "    let obj = Object.create(" ++ v.name ++ ".prototype);" := rfl
  have allocate : s!"    let ptr = ensureCache.allocBytes({l.size});" =
      "    let ptr = ensureCache.allocBytes(__jsbind_layout[" ++ toString l.sizeSlot ++ "]);" := by
    simp [size, layoutTable, ← String.toList_inj, toString]
  simp only [lines, construction, reading, writing, funext FieldLayout.readLine_eq,
    funext FieldLayout.writeLine_eq, create, allocate, List.append_assoc, List.cons_append,
    List.nil_append]

theorem construction_not_static {line : String} (member : line ∈ l.construction v) :
    ¬ "  s".toList <+: line.toList := by
  simp only [construction, List.mem_append, List.mem_cons, List.mem_map, List.not_mem_nil, or_false,
    List.mem_ite_nil_left] at member
  rcases member with ((((rfl | rfl) | ⟨-, rfl⟩) | rfl) | ⟨f, -, rfl⟩) | rfl | rfl
  · simp [toString]
  · decide
  · decide
  · decide
  · rw [FieldLayout.initLine_eq]
    simp
  · decide
  · decide

theorem reading_indented {line : String} (member : line ∈ l.reading v) :
    "    ".toList <+: line.toList := by
  simp only [reading, List.mem_append, List.mem_singleton, List.mem_map] at member
  rcases member with (rfl | ⟨f, -, rfl⟩) | rfl
  · simp
  · simp [FieldLayout.reads]
  · decide

theorem writing_indented {line : String} (member : line ∈ l.writing) :
    "    ".toList <+: line.toList := by
  simp only [writing, List.mem_append, List.mem_singleton, List.mem_map] at member
  rcases member with (rfl | ⟨f, -, rfl⟩) | rfl
  · simp
  · simp [FieldLayout.writes]
  · decide

theorem methodBody_fromNative :
    methodBody "  static __fromNative(ptr) \x7b" (l.lines v) = l.reading v := by
  rw [lines_eq]
  apply methodBody_append
  · rintro line member rfl
    exact l.construction_not_static v member (by decide)
  · rintro line member rfl
    exact absurd (l.reading_indented v member) (by decide)

theorem methodBody_toNative :
    methodBody "  static __toNative(obj) \x7b" (l.lines v) = l.writing := by
  have regroup : l.lines v = (l.construction v ++ "  static __fromNative(ptr) \x7b" ::
      (l.reading v ++ ["  \x7d", ""])) ++ "  static __toNative(obj) \x7b" ::
        (l.writing ++ "  \x7d" :: ["\x7d", ""]) := by
    simp only [lines_eq, List.append_assoc, List.cons_append, List.nil_append]
  rw [regroup]
  apply methodBody_append
  · rintro line member rfl
    simp only [List.mem_append, List.mem_cons, List.not_mem_nil, or_false] at member
    rcases member with built | same | read | same | same
    · exact l.construction_not_static v built (by decide)
    · exact absurd same (by decide)
    · exact absurd (l.reading_indented v read) (by decide)
    · exact absurd same (by decide)
    · exact absurd same (by decide)
  · rintro line member rfl
    exact absurd (l.writing_indented member) (by decide)

end RecordLayout

namespace Session

/-- Both sides agree on the offset table: `rows` is what the native side fills it with. -/
structure OffsetTableAgrees (s : Session) (p : Progress) (rows : List String) : Prop where
  /-- The slot at a position has the number of the position. -/
  numbered : ∀ (i : Nat) (slot : Slot), p.slots[i]? = some slot → slot.index = i
  declared : ∀ l ∈ p.layouts, s.valueType? l.valueType.name = some l.valueType
  sizes : ∀ l ∈ p.layouts, p.slots[l.sizeSlot]? = some ⟨l.sizeSlot, l.valueType.name, none⟩
  offsets : ∀ l ∈ p.layouts, ∀ f ∈ l.fields,
    p.slots[f.slot]? = some ⟨f.slot, l.valueType.name, some f.name⟩
  distinct : (p.layouts.flatMap RecordLayout.slotNumbers).Nodup
  /-- One row for each slot, in order. -/
  answered : List.Forall₂ s.Answers p.slots rows
  native : s.nativeLayout p.slots = .ok (if rows = [] then [] else s.queryLines rows)
  script : s.scriptLayout p.slots = ["var __jsbind_layout = [];"] ++
    (if rows = [] then [] else s.copyLines rows.length) ++ [""]
  /-- The slots of a record hold its size and the offsets of its fields. -/
  sizeRows : ∀ l ∈ p.layouts, rows[l.sizeSlot]? = some s!"(int)sizeof({l.valueType.nativeName})"
  offsetRows : ∀ l ∈ p.layouts, ∀ f ∈ l.fields,
    rows[f.slot]? = some s!"(int)offsetof({l.valueType.nativeName}, {f.name})"
  /-- Fields are written to the places that they are read from, in a record of the size of its
  type. -/
  records : ∀ l ∈ p.layouts, ∃ lines, scriptRecord p.layouts l.valueType = .ok lines ∧
    methodBody "  static __fromNative(ptr) \x7b" lines =
      ["    let obj = Object.create(" ++ l.valueType.name ++ ".prototype);"] ++
        l.fields.map (fun f => f.reads f.place) ++ ["    return obj;"] ∧
    methodBody "  static __toNative(obj) \x7b" lines =
      ["    let ptr = ensureCache.allocBytes(__jsbind_layout[" ++ toString l.sizeSlot ++ "]);"] ++
        l.fields.map (fun f => f.writes f.place) ++ ["    return ptr;"]

variable {s : Session} {p : Progress}

theorem TableFits.scriptRecord_eq (fits : s.TableFits p) {l : RecordLayout}
    (layout : l ∈ p.layouts) :
    scriptRecord p.layouts l.valueType = .ok (l.lines l.valueType) := by
  have found : p.layouts.find? (·.valueType.name = l.valueType.name) = some l :=
    (find?_name_iff fits.once).2 ⟨layout, rfl⟩
  rw [scriptRecord, found]

/-- After any requests, whether they succeeded or failed, both sides agree on the offset table. -/
theorem offset_table_agrees (s : Session) (requests : List Request) :
    ∃ rows, s.OffsetTableAgrees (s.after requests) rows := by
  have fits : s.TableFits (s.after requests) := tableFits_after requests
  obtain ⟨rows, answered⟩ := fits.exists_rows
  refine ⟨rows, fits.numbered, fits.declared, fits.sizes, fits.offsets, fits.distinct, answered,
    nativeLayout_of_answers answered, scriptLayout_of_answers answered, ?_, ?_, ?_⟩
  · intro l layout
    obtain ⟨row, here, v, found, same⟩ := answers_of_getElem? answered (fits.sizes l layout)
    rw [fits.declared l layout] at found
    cases found
    rw [here, same]
  · intro l layout f field
    obtain ⟨row, here, v, found, same⟩ :=
      answers_of_getElem? answered (fits.offsets l layout f field)
    rw [fits.declared l layout] at found
    cases found
    rw [here, same]
  · intro l layout
    exact ⟨_, fits.scriptRecord_eq layout, l.methodBody_fromNative _, l.methodBody_toNative _⟩

end Session

end NativeBridge
