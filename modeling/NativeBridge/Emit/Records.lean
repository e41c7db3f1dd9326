import NativeBridge.Emit.Script
import NativeBridge.Plan.Records

/-!
# Emitting record layouts

The native side answers one query with a table of all slots. The script side copies the table once
and gives every value type a class that reads and writes its fields by slot.
-/
namespace NativeBridge

def RecordLayout.size (layout : RecordLayout) : String := s!"{layoutTable}[{layout.sizeSlot}]"

namespace Session

variable (s : Session)

def layoutQuery : String := s.mangle "_" "_layout__" 0

/-- One static slot for the results of each registered value type. -/
def nativeSlots (layouts : List RecordLayout) : List String :=
  layouts.map fun l => s!"static {l.valueType.nativeName} {s.slotName l.valueType};"

def slotRow (slot : Slot) : Except Failure String :=
  match s.valueType? slot.valueType with
  | none => .error (.missing slot.valueType)
  | some v => .ok (slot.nativeExpr v.nativeName)

/-- The entry point that answers the layout query; without slots there is none. -/
def layoutEntry (slots : List Slot) : Except Failure (Option EntryPoint) :=
  if slots = [] then .ok none
  else do
    let rows ← slots.mapM s.slotRow
    return some
      { returnType := "const int*", name := s.layoutQuery,
        body := ["static const int table[] = \x7b"] ++ rows.map (fun row => s!"  {row},") ++
          ["\x7d;", "return table;"] }

def nativeLayout (slots : List Slot) : Except Failure (List String) := do
  return (← s.layoutEntry slots).toList.flatMap EntryPoint.lines

def layoutCall : CallSequence :=
  { before := "var table = ", call := { entry := s.layoutQuery }, after := " >> 2;" }

def layoutParts (slots : List Slot) : List ScriptPart :=
  if slots = [] then [.line s!"var {layoutTable} = [];", .line ""]
  else
    [.line s!"var {layoutTable} = [];",
     .line "function __jsbind_initLayout() \x7b",
     .calls "  " s.layoutCall,
     .line s!"  for (var i = 0; i < {slots.length}; i++) \x7b",
     .line s!"    {layoutTable}[i] = HEAP32[table + i];",
     .line "  \x7d",
     .line "\x7d",
     .line "if (runtimeInitialized) __jsbind_initLayout(); else addOnInit(__jsbind_initLayout);",
     .line ""]

def scriptLayout (slots : List Slot) : List String :=
  (s.layoutParts slots).flatMap ScriptPart.lines

end Session

namespace FieldLayout

def initLine (f : FieldLayout) : String :=
  let fallback := if f.isBool then "false" else "0"
  s!"    this.{f.name} = init.{f.name} === undefined ? {fallback} : init.{f.name};"

def readLine (f : FieldLayout) : String :=
  let place := f.heapRef "ptr"
  let value := if f.isBool then "!!" ++ place else place
  s!"    obj.{f.name} = {value};"

def writeLine (f : FieldLayout) : String :=
  let place := f.heapRef "ptr"
  let value := if f.isBool then s!"obj.{f.name} ? 1 : 0" else s!"obj.{f.name}"
  s!"    {place} = {value};"

end FieldLayout

/-- The fields of a layout that the value type itself declares. -/
def RecordLayout.ownFields (layout : RecordLayout) (v : ValueType) : List FieldLayout :=
  layout.fields.filter fun f => v.fields.any (·.name = f.name)

def RecordLayout.lines (layout : RecordLayout) (v : ValueType) : List String :=
  let inherits := extendsClause v.parent
  [s!"class {v.name}{inherits} \x7b", "  constructor(init) \x7b"] ++
    (if inherits = "" then [] else ["    super(init);"]) ++
    ["    init = init || \x7b\x7d;"] ++ (layout.ownFields v).map FieldLayout.initLine ++
    ["  \x7d", "", "  static __fromNative(ptr) \x7b",
     s!"    let obj = Object.create({v.name}.prototype);"] ++
    layout.fields.map FieldLayout.readLine ++
    ["    return obj;", "  \x7d", "", "  static __toNative(obj) \x7b",
     s!"    let ptr = ensureCache.allocBytes({layout.size});"] ++
    layout.fields.map FieldLayout.writeLine ++ ["    return ptr;", "  \x7d", "\x7d", ""]

/-- The script class of a registered value type. -/
def scriptRecord (layouts : List RecordLayout) (v : ValueType) : Except Failure (List String) :=
  match layouts.find? (·.valueType.name = v.name) with
  | some layout => .ok (layout.lines v)
  | none => .error (.missing v.name)

end NativeBridge
