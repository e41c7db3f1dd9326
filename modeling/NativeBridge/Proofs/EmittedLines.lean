import Mathlib.Data.List.Basic
import NativeBridge.Emit.Bindings
import NativeBridge.Proofs.Checks

/-!
# Emitted lines

Both texts are emitted as lists of lines. Native calls of the script and definitions of the native
side come in blocks of lines, and every other line stands by itself. What a line is can be seen from
how it starts and ends: whatever the names in it are, a line outside of the blocks is never read as
a call or as the head of a definition.
-/
namespace NativeBridge

/-! ## Lines and blocks -/

/-- Lines that are made of single lines and of blocks, with one block for each item, in order. -/
inductive Composed {α : Type} (single : String → Prop) (block : α → List String → Prop) :
    List String → List α → Prop
  | nil : Composed single block [] []
  | line {text : String} {lines : List String} {items : List α} (h : single text)
      (rest : Composed single block lines items) : Composed single block (text :: lines) items
  | block {a : α} {front lines : List String} {items : List α} (h : block a front)
      (rest : Composed single block lines items) :
      Composed single block (front ++ lines) (a :: items)

namespace Composed

variable {α β : Type} {single : String → Prop} {block : α → List String → Prop}

theorem singles {front lines : List String} {items : List α} (h : ∀ text ∈ front, single text)
    (rest : Composed single block lines items) : Composed single block (front ++ lines) items := by
  induction front with
  | nil => exact rest
  | cons text front ih =>
    obtain ⟨first, others⟩ := List.forall_mem_cons.1 h
    exact .line first (ih others)

/-- Parts that are lines by themselves or one block each. -/
theorem flatMap {lines : β → List String} {item : β → Option α} {parts : List β}
    (plain : ∀ part ∈ parts, item part = none → ∀ text ∈ lines part, single text)
    (blocks : ∀ part ∈ parts, ∀ a, item part = some a → block a (lines part)) :
    Composed single block (parts.flatMap lines) (parts.filterMap item) := by
  induction parts with
  | nil => exact .nil
  | cons part parts ih =>
    rw [List.forall_mem_cons] at plain blocks
    have rest := ih plain.2 blocks.2
    rw [List.flatMap_cons]
    cases found : item part with
    | none =>
      rw [List.filterMap_cons_none found]
      exact rest.singles (plain.1 found)
    | some a =>
      rw [List.filterMap_cons_some found]
      exact .block (blocks.1 a found) rest

theorem append {front back : List String} {first second : List α}
    (h : Composed single block front first) (h' : Composed single block back second) :
    Composed single block (front ++ back) (first ++ second) := by
  induction h with
  | nil => exact h'
  | line text _ ih => exact .line text ih
  | block made _ ih =>
    rw [List.append_assoc]
    exact .block made ih

/-- The blocks of some items may be read as single lines. -/
theorem filterMap {single' : String → Prop} {block' : β → List String → Prop} {f : α → Option β}
    {lines : List String} {items : List α} (h : Composed single block lines items)
    (singles : ∀ line, single line → single' line)
    (kept : ∀ a b front, f a = some b → block a front → block' b front)
    (dropped : ∀ a front, f a = none → block a front → ∀ line ∈ front, single' line) :
    Composed single' block' lines (items.filterMap f) := by
  induction h with
  | nil => exact .nil
  | line text _ ih => exact .line (singles _ text) ih
  | @block a front lines items made _ ih =>
    cases found : f a with
    | none =>
      rw [List.filterMap_cons_none found]
      exact ih.singles (dropped a front found made)
    | some b =>
      rw [List.filterMap_cons_some found]
      exact .block (kept a b front found made) ih

end Composed

/-! ## Call statements -/

/-- An indentation. -/
def Indentation (pad : String) : Prop := ∀ c ∈ pad.toList, c = ' '

/-- A line that calls native code. The handle of an object is passed first, if any, and arguments
are passed by their positions. What is returned may be assigned. -/
structure CallLine (c : NativeCall) (line : String) : Prop where
  receiver : ∀ text, c.receiver = some text → text = "self" ∨ text = "this.ptr"
  arguments : ∃ count, c.arguments = argumentNames count
  text : ∃ pad before after : String, Indentation pad ∧
    before ∈ ["", "ret = ", "let ret = ", "var table = "] ∧ after ∈ [";", " >> 2;"] ∧
    line = pad ++ before ++ "_" ++ c.entry ++ "(" ++
      ", ".intercalate (c.receiver.toList ++ c.arguments) ++ ")" ++ after

/-- A line that calls no native code. -/
def CallFree (line : String) : Prop := ∀ c, ¬ CallLine c line

/-- The lines of a call: what prepares it and converts its arguments, and last the only one that
calls native code. -/
def CallBlock (c : CallSequence) (lines : List String) : Prop :=
  ∃ pad last, Indentation pad ∧ CallLine c.call last ∧
    lines =
      ((if c.prepares then ["ensureCache.prepare();"] else []) ++ c.conversions).map (pad ++ ·) ++
      [last] ∧
    ∀ line ∈ lines.dropLast, CallFree line

/-- What stands in a line behind its indentation. -/
def unindented (line : String) : List Char := line.toList.dropWhile (· = ' ')

theorem unindented_append {pad : String} (blank : Indentation pad) (text : String) :
    unindented (pad ++ text) = unindented text := by
  rw [unindented, String.toList_append,
    List.dropWhile_append_of_pos (by simpa [Indentation] using blank)]
  rfl

/-- How calls start. -/
def callWords : List String := ["_", "ret = _", "let ret = _", "var table = _"]

/-- How calls start, and how what converts an argument starts. -/
def activeWords : List String := "arg" :: callWords

/-- Whether a line that is read backwards ends as calls do, or as what stages an argument: with
nothing in parentheses, with the handle of an object or with an argument. -/
def endsActive : List Char → Bool
  | ';' :: ')' :: '(' :: _ | ';' :: ')' :: 'f' :: 'l' :: _ | ';' :: ')' :: 'r' :: 't' :: _ => true
  | ';' :: ')' :: c :: _ => c.isDigit
  | ';' :: '2' :: _ => true
  | _ => false

theorem toList_argumentName (n : ℕ) : (argumentName n).toList = "arg".toList ++ n.repr.toList := by
  simp [argumentName, toString]

theorem isDigit_of_mem_repr {n : ℕ} {c : Char} (member : c ∈ n.repr.toList) : c.isDigit = true := by
  rw [Nat.toList_repr] at member
  exact Nat.isDigit_of_mem_toDigits (by decide) (by decide) member

/-- An argument's name ends with a digit. -/
theorem exists_argumentName_eq (n : ℕ) :
    ∃ front d, (argumentName n).toList = front ++ [d] ∧ d.isDigit = true := by
  have some : n.repr.toList ≠ [] := by
    rw [Nat.toList_repr]
    exact Nat.toDigits_ne_nil
  refine ⟨"arg".toList ++ n.repr.toList.dropLast, n.repr.toList.getLast some, ?_, ?_⟩
  · rw [toList_argumentName, List.append_assoc, List.dropLast_append_getLast]
  · exact isDigit_of_mem_repr (List.getLast_mem some)

/-- A list in parentheses ends with its last item. -/
theorem exists_intercalate_eq (separator : String) (items : List String) (last : String) :
    ∃ front, (separator.intercalate (items ++ [last])).toList = front ++ last.toList := by
  induction items with
  | nil => exact ⟨[], by simp⟩
  | cons first rest ih =>
    obtain ⟨front, ends⟩ := ih
    refine ⟨first.toList ++ separator.toList ++ front, ?_⟩
    obtain ⟨second, others, several⟩ := List.exists_cons_of_ne_nil (l := rest ++ [last]) (by simp)
    rw [String.toList_intercalate] at ends ⊢
    rw [List.cons_append]
    simp_all [List.intercalate]

theorem CallLine.exists_word {c : NativeCall} {line : String} (h : CallLine c line) :
    ∃ word ∈ callWords, word.toList <+: unindented line := by
  obtain ⟨pad, before, after, blank, fronts, -, rfl⟩ := h.text
  simp only [String.append_assoc]
  rw [unindented_append blank]
  simp only [List.mem_cons, List.not_mem_nil, or_false] at fronts
  rcases fronts with rfl | rfl | rfl | rfl <;> simp [callWords, unindented]

theorem endsActive_of_isDigit {d : Char} (digit : d.isDigit = true) (rest : List Char) :
    endsActive (';' :: ')' :: d :: rest) = true := by
  rw [endsActive.eq_def]
  split <;> simp_all

/-- What a call passes is nothing, or it ends as the handle of an object or an argument does. -/
theorem endsActive_of_passed {receiver : Option String} (count : ℕ)
    (handle : ∀ text, receiver = some text → text = "self" ∨ text = "this.ptr")
    (front : List Char) :
    endsActive
      (front ++ '(' :: (", ".intercalate (receiver.toList ++ argumentNames count)).toList ++
      [')', ';']).reverse = true := by
  cases count with
  | succ n =>
    obtain ⟨middle, ends⟩ := exists_intercalate_eq ", " (receiver.toList ++ argumentNames n)
      (argumentName n)
    obtain ⟨word, d, last, digit⟩ := exists_argumentName_eq n
    have names : receiver.toList ++ argumentNames (n + 1) =
        receiver.toList ++ argumentNames n ++ [argumentName n] := by
      simp [argumentNames, List.range_succ]
    simp only [names, ends, last, List.reverse_append, List.reverse_cons, List.reverse_nil,
      List.nil_append, List.cons_append]
    exact endsActive_of_isDigit digit _
  | zero =>
    cases given : receiver with
    | none => simp [argumentNames, endsActive]
    | some text =>
      rcases handle text given with rfl | rfl <;> simp [argumentNames, endsActive]

theorem CallLine.endsActive {c : NativeCall} {line : String} (h : CallLine c line) :
    endsActive line.toList.reverse = true := by
  obtain ⟨pad, before, after, -, -, backs, rfl⟩ := h.text
  obtain ⟨count, arguments⟩ := h.arguments
  simp only [List.mem_cons, List.not_mem_nil, or_false] at backs
  rcases backs with rfl | rfl
  · have ends := endsActive_of_passed count h.receiver (pad ++ before ++ "_" ++ c.entry).toList
    simpa [arguments] using ends
  · simp [NativeBridge.endsActive]

/-- What starts with the name of an argument calls nothing. -/
theorem callFree_argument {pad : String} (blank : Indentation pad) (n : ℕ) (rest : String) :
    CallFree (pad ++ (argumentName n ++ rest)) := by
  intro c call
  obtain ⟨word, calls, starts⟩ := call.exists_word
  rw [unindented_append blank] at starts
  have named : unindented (argumentName n ++ rest) =
      'a' :: ("rg".toList ++ (n.repr.toList ++ rest.toList)) := by
    simp [unindented, toList_argumentName]
  rw [named] at starts
  simp only [callWords, List.mem_cons, List.not_mem_nil, or_false] at calls
  rcases calls with rfl | rfl | rfl | rfl <;> simp at starts

/-! ## Lines that do nothing -/

/-- Whether two texts differ at a place that both have. -/
def differ : List Char → List Char → Bool
  | a :: front, b :: back => a ≠ b || differ front back
  | _, _ => false

theorem not_isPrefix_of_differ {word text : List Char} (h : differ word text = true) :
    ¬ word <+: text := by
  induction word generalizing text with
  | nil => cases h
  | cons a word ih =>
    cases text with
    | nil => cases h
    | cons b text =>
      rw [List.cons_prefix_cons]
      rintro ⟨rfl, starts⟩
      exact ih (by simpa [differ] using h) starts

theorem differ_append {word text : List Char} (h : differ word text = true) (rest : List Char) :
    differ word (text ++ rest) = true := by
  induction word generalizing text with
  | nil => cases h
  | cons a word ih =>
    cases text with
    | nil => cases h
    | cons b text =>
      simp only [List.cons_append, differ, Bool.or_eq_true] at h ⊢
      exact h.imp id ih

/-- A line that, whatever follows, does not start as calls and conversions do. -/
def StartsIdle (line : String) : Prop :=
  ∀ word ∈ activeWords, differ word.toList (unindented line) = true

namespace StartsIdle

theorem of_literal {text : List Char}
    (h : (activeWords.all fun word => differ word.toList (text.dropWhile (· = ' '))) = true) :
    StartsIdle (String.ofList text) := by
  intro word active
  rw [unindented, String.toList_ofList]
  exact List.all_eq_true.1 h word active

theorem append {line : String} (h : StartsIdle line) (rest : String) :
    StartsIdle (line ++ rest) := by
  intro word active
  have differs := h word active
  have behind : unindented (line ++ rest) = unindented line ++ rest.toList := by
    rw [unindented, String.toList_append, List.dropWhile_append, if_neg, unindented]
    intro empty
    rw [unindented, List.isEmpty_iff.1 empty] at differs
    cases letters : word.toList <;> rw [letters] at differs <;> cases differs
  rw [behind]
  exact differ_append differs rest.toList

theorem indent {line : String} (h : StartsIdle line) (pad : String) (blank : Indentation pad) :
    StartsIdle (pad ++ line) := by
  intro word active
  rw [unindented_append blank]
  exact h word active

end StartsIdle

/-- A line that, by its start or by its end, neither calls native code nor converts an argument. -/
def Idle (line : String) : Prop := StartsIdle line ∨ endsActive line.toList.reverse = false

theorem StartsIdle.idle {line : String} (h : StartsIdle line) : Idle line := .inl h

theorem Idle.callFree {line : String} (idle : Idle line) : CallFree line := by
  intro c call
  rcases idle with other | other
  · obtain ⟨word, active, starts⟩ := call.exists_word
    exact not_isPrefix_of_differ (other word (List.mem_cons_of_mem _ active)) starts
  · simp [call.endsActive] at other

theorem idle_of_end (front : String) {back : List Char}
    (h : ∀ rest, endsActive (back.reverse ++ rest) = false) :
    Idle (front ++ String.ofList back) := by
  refine .inr ?_
  rw [String.toList_append, String.toList_ofList, List.reverse_append]
  exact h _

theorem idle_of_literal {text : List Char}
    (h : (!endsActive text.reverse ||
      activeWords.all fun word => differ word.toList (text.dropWhile (· = ' '))) = true) :
    Idle (String.ofList text) := by
  rcases Bool.or_eq_true_iff.1 h with ends | starts
  · refine .inr ?_
    rw [String.toList_ofList]
    simpa using ends
  · exact .inl (.of_literal starts)

theorem idle_stagingBuffer (moduleName : String) :
    ∀ line ∈ stagingBuffer moduleName, Idle line := by
  simp only [stagingBuffer, List.forall_mem_cons]
  -- what the module allocates and frees stands in parentheses that no call ends with
  and_intros
  all_goals first
    | exact List.forall_mem_nil _
    | with_reducible exact idle_of_literal rfl
    | exact idle_of_end _ fun _ => rfl

theorem idle_stagingHelperLines (name : String) (width : ℕ) {view : String} (shift : String)
    (heap : StartsIdle view) : ∀ line ∈ stagingHelperLines name width view shift, Idle line := by
  have allocated : StartsIdle s!"  var ptr = ensureCache.allocBytes(value.length * {width});" :=
    ((StartsIdle.of_literal rfl).append _).append _
  have stored : StartsIdle s!"  {view}.set(value, ptr{shift});" :=
    (((heap.indent "  " (by simp [Indentation])).append _).append _).append _
  simp only [stagingHelperLines, List.forall_mem_cons]
  and_intros
  all_goals first
    | exact List.forall_mem_nil _
    | with_reducible exact idle_of_literal rfl
    | with_reducible exact allocated.idle
    | with_reducible exact stored.idle
    | exact idle_of_end _ fun _ => rfl

theorem idle_callbackRegistry : ∀ line ∈ callbackRegistry, Idle line := by
  simp only [callbackRegistry, List.forall_mem_cons]
  and_intros
  all_goals first
    | exact List.forall_mem_nil _
    | with_reducible exact idle_of_literal rfl

theorem idle_scriptSupport (moduleName : String) :
    ∀ line ∈ scriptSupport moduleName, Idle line := by
  simp only [scriptSupport, stagingHelpers, List.forall_mem_append]
  refine ⟨⟨idle_stagingBuffer moduleName, ?_⟩, idle_callbackRegistry⟩
  and_intros
  all_goals exact idle_stagingHelperLines _ _ _ (.of_literal rfl)

/-! ## Records and callbacks -/

theorem startsIdle_heapRef (f : FieldLayout) (ptr : String) : StartsIdle (f.heapRef ptr) := by
  have view : StartsIdle f.kind.heapView := by
    cases f.kind <;> exact .of_literal rfl
  have place := view.indent "" (by simp [Indentation])
  unfold FieldLayout.heapRef
  split
  · exact ((place.append _).append _).append _
  · exact ((((place.append _).append _).append _).append _).append _

theorem idle_recordLines (layout : RecordLayout) (v : ValueType) :
    ∀ line ∈ layout.lines v, Idle line := by
  have initialized : ∀ f : FieldLayout, Idle f.initLine := by
    intro f
    have object : StartsIdle "    this." := .of_literal rfl
    refine ((((StartsIdle.append ?_ _).append _).append _).append _).idle
    exact (((object.append _).append _).append _).append _
  have loaded : ∀ f : FieldLayout, Idle f.readLine := by
    intro f
    have object : StartsIdle "    obj." := .of_literal rfl
    exact ((((object.append _).append _).append _).append _).idle
  have stored : ∀ f : FieldLayout, Idle f.writeLine := by
    intro f
    have place := (startsIdle_heapRef f "ptr").indent "    " (by simp [Indentation])
    exact (((place.append _).append _).append _).idle
  have allocated : Idle s!"    let ptr = ensureCache.allocBytes({layout.size});" :=
    (((StartsIdle.of_literal rfl).append _).append _).idle
  have super : ∀ line ∈ (if extendsClause v.parent = "" then [] else ["    super(init);"]),
      Idle line := by
    split
    · exact List.forall_mem_nil _
    · exact List.forall_mem_singleton.2 (idle_of_literal rfl)
  simp only [RecordLayout.lines, List.forall_mem_append, List.forall_mem_cons, List.forall_mem_map]
  and_intros
  all_goals first
    | exact List.forall_mem_nil _
    | with_reducible exact idle_of_literal rfl
    | with_reducible exact fun f _ => initialized f
    | with_reducible exact fun f _ => loaded f
    | with_reducible exact fun f _ => stored f
    | with_reducible exact allocated
    | with_reducible exact super
    | exact idle_of_end _ fun _ => rfl

theorem idle_callbackLines (p : CallbackPlan) : ∀ line ∈ p.scriptLines, Idle line := by
  have call : ∀ passed : String, StartsIdle ("fn(" ++ passed ++ ")") :=
    fun passed => ((StartsIdle.of_literal rfl).append _).append _
  have kept : ∀ passed : String, Idle ("    let ret = " ++ ("fn(" ++ passed ++ ")") ++ ";") := by
    intro passed
    have joined : "    let ret = " ++ ("fn(" ++ passed ++ ")") ++ ";" =
        "    let ret = fn(" ++ (passed ++ ");") := by
      simp [← String.toList_inj]
    rw [joined]
    exact ((StartsIdle.of_literal rfl).append _).idle
  simp only [CallbackPlan.scriptLines, List.forall_mem_append]
  refine ⟨⟨?_, ?_⟩, ?_⟩
  · simp only [List.forall_mem_cons]
    and_intros
    all_goals first
      | exact List.forall_mem_nil _
      | with_reducible exact idle_of_literal rfl
      | exact idle_of_end _ fun _ => rfl
  · cases p.returns with
    | none =>
      refine List.forall_mem_singleton.2 ?_
      exact (((call _).indent "    " (by simp [Indentation])).append _).idle
    | some m =>
      refine List.forall_mem_cons.2 ⟨kept _, List.forall_mem_singleton.2 ?_⟩
      exact (((StartsIdle.of_literal rfl).append _).append _).idle
  · simp only [List.forall_mem_cons]
    and_intros
    all_goals first
      | exact List.forall_mem_nil _
      | with_reducible exact idle_of_literal rfl

/-! ## Classes -/

/-- A line that is idle, or a call that is indented. -/
def ScriptPart.Idle : ScriptPart → Prop
  | line text => NativeBridge.Idle text
  | calls pad _ => Indentation pad

theorem idle_branchHead (first : Bool) (guard : Option ℕ) : Idle (branchHead first guard) := by
  cases guard with
  | none => exact idle_of_literal rfl
  | some n => cases first <;> exact idle_of_end _ fun _ => rfl

theorem idle_dispatchParts (branches : List Branch) : ∀ p ∈ dispatchParts branches, p.Idle := by
  have several : ∀ p ∈ (branches.zipIdx.flatMap fun x =>
      [ScriptPart.line (branchHead (x.2 = 0) x.1.guard), .calls "      " x.1.body]) ++
        [.line "    \x7d"], p.Idle := by
    rw [List.forall_mem_append, List.forall_mem_flatMap, List.forall_mem_singleton]
    refine ⟨fun x _ => ?_, idle_of_literal rfl⟩
    exact List.forall_mem_cons.2 ⟨idle_branchHead _ _,
      List.forall_mem_singleton.2 (by simp [ScriptPart.Idle, Indentation])⟩
  cases branches with
  | nil => exact several
  | cons first rest =>
    cases rest with
    | nil => exact List.forall_mem_singleton.2 (by simp [ScriptPart.Idle, Indentation])
    | cons second rest => exact several

/-- Nothing that a member has besides its calls is read as one, whatever its names are. -/
theorem ScriptMember.idle_parts (m : ScriptMember) : ∀ p ∈ m.parts, p.Idle := by
  have close : (ScriptPart.line "  \x7d").Idle := idle_of_literal rfl
  have empty : (ScriptPart.line "").Idle := idle_of_literal rfl
  have pad : ∀ body, (ScriptPart.calls "    " body).Idle := by simp [ScriptPart.Idle, Indentation]
  have returns : ∀ value : String, (ScriptPart.line s!"    return {value};").Idle := fun value =>
    (((StartsIdle.of_literal rfl).append _).append _).idle
  cases m with
  | construct owner parameters branches =>
    have head : (ScriptPart.line s!"  constructor({parameterList parameters}) \x7b").Idle :=
      idle_of_end _ fun _ => rfl
    have wrapped : (ScriptPart.line s!"    {owner}.__setCache(obj);").Idle :=
      idle_of_end _ fun _ => rfl
    have thrown : (ScriptPart.line
        s!"    throw new Error(\"No constructor defined for {owner}\");").Idle :=
      idle_of_end _ fun _ => rfl
    have created :
        (ScriptPart.line "    let ret, obj = Object.create(new.target.prototype);").Idle :=
      idle_of_literal rfl
    have pointed : (ScriptPart.line "    obj.ptr = ret;").Idle :=
      idle_of_literal rfl
    have returned : (ScriptPart.line "    return obj;").Idle := idle_of_literal rfl
    by_cases none : branches = []
    · simp [parts, none, head, thrown, close, empty]
    · simp only [parts, if_neg none, List.forall_mem_append]
      exact ⟨⟨by simp [head], ⟨by simp [created], idle_dispatchParts branches⟩,
        by simp [pointed, wrapped, returned]⟩, by simp [close, empty]⟩
  | method name isStatic parameters branches result =>
    have head : (ScriptPart.line
        s!"  {staticWord isStatic}{name}({parameterList parameters}) \x7b").Idle :=
      idle_of_end _ fun _ => rfl
    have received : (ScriptPart.line "    let self = this.ptr;").Idle :=
      idle_of_literal rfl
    have declared : (ScriptPart.line "    let ret;").Idle := idle_of_literal rfl
    simp only [parts, List.forall_mem_append]
    refine ⟨⟨⟨⟨⟨by simp [head], ?_⟩, ?_⟩, idle_dispatchParts branches⟩, ?_⟩, by simp [close, empty]⟩
    · cases isStatic <;> simp [received]
    · cases result <;> simp [declared]
    · cases result <;> simp [returns]
  | getter name isStatic body result =>
    have head : (ScriptPart.line s!"  {staticWord isStatic}get {name}() \x7b").Idle :=
      idle_of_end _ fun _ => rfl
    simp [parts, head, pad, returns, close, empty]
  | setter name isStatic body =>
    have head : (ScriptPart.line
        s!"  {staticWord isStatic}set {name}({argumentName 0}) \x7b").Idle :=
      idle_of_end _ fun _ => rfl
    simp [parts, head, pad, close, empty]
  | destroy owner body =>
    have head : (ScriptPart.line "  destroy() \x7b").Idle := idle_of_literal rfl
    have forgotten : (ScriptPart.line s!"    delete {cacheName owner}[this.ptr];").Idle :=
      idle_of_end _ fun _ => rfl
    have deleted : (ScriptPart.line "    delete this.ptr;").Idle :=
      idle_of_literal rfl
    simp [parts, head, pad, forgotten, deleted, close, empty]
  | refuseDestroy owner =>
    have head : (ScriptPart.line "  destroy() \x7b").Idle := idle_of_literal rfl
    have thrown :
        (ScriptPart.line s!"    throw new Error(\"{owner} cannot be destroyed\");").Idle :=
      idle_of_end _ fun _ => rfl
    simp [parts, head, thrown, close, empty]

theorem idle_wrapLines (name : String) : ∀ line ∈ wrapLines name, Idle line := by
  simp only [wrapLines, List.forall_mem_cons]
  and_intros
  all_goals first
    | exact List.forall_mem_nil _
    | with_reducible exact idle_of_literal rfl
    | exact idle_of_end _ fun _ => rfl

theorem ScriptClass.idle_parts (c : ScriptClass) : ∀ p ∈ c.parts, p.Idle := by
  have cache : (ScriptPart.line s!"var {cacheName c.name} = \x7b\x7d;").Idle :=
    idle_of_end _ fun _ => rfl
  have head : (ScriptPart.line s!"class {c.name}{extendsClause c.parent} \x7b").Idle :=
    idle_of_end _ fun _ => rfl
  have close : (ScriptPart.line "\x7d").Idle := idle_of_literal rfl
  have empty : (ScriptPart.line "").Idle := idle_of_literal rfl
  simp only [parts, List.forall_mem_append, List.forall_mem_flatMap, List.forall_mem_map]
  refine ⟨⟨⟨⟨?_, fun m _ => m.idle_parts⟩, idle_wrapLines c.name⟩, fun m _ => m.idle_parts⟩, ?_⟩
  · simp [cache, head]
  · simp [close, empty]

theorem Session.idle_layoutParts (s : Session) (slots : List Slot) :
    ∀ p ∈ s.layoutParts slots, p.Idle := by
  have table : (ScriptPart.line s!"var {layoutTable} = [];").Idle := idle_of_end _ fun _ => rfl
  have loop : ∀ count : String,
      (ScriptPart.line ("  for (var i = 0; i < " ++ count ++ "; i++) \x7b")).Idle :=
    fun count => idle_of_end _ fun _ => rfl
  have copied : (ScriptPart.line s!"    {layoutTable}[i] = HEAP32[table + i];").Idle :=
    idle_of_end _ fun _ => rfl
  have empty : (ScriptPart.line "").Idle := idle_of_literal rfl
  have head : (ScriptPart.line "function __jsbind_initLayout() \x7b").Idle :=
    idle_of_literal rfl
  have inner : (ScriptPart.line "  \x7d").Idle := idle_of_literal rfl
  have outer : (ScriptPart.line "\x7d").Idle := idle_of_literal rfl
  have started : (ScriptPart.line
      "if (runtimeInitialized) __jsbind_initLayout(); else addOnInit(__jsbind_initLayout);").Idle :=
    idle_of_literal rfl
  have pad : (ScriptPart.calls "  " s.layoutCall).Idle := by simp [ScriptPart.Idle, Indentation]
  rw [layoutParts]
  split
  · simp [table, empty]
  · have counted := loop (toString slots.length)
    simp only [List.forall_mem_cons]
    exact ⟨table, head, pad, counted, copied, inner, outer, started, empty, List.forall_mem_nil _⟩

/-! ## The script -/

/-- A line that publishes a class. -/
def ExportLine (line : String) : Prop :=
  ∃ object name : String, line = object ++ "['" ++ name ++ "'] = " ++ name ++ ";"

/-- Every line of the script outside of calls is idle or publishes a class. -/
theorem Session.idle_scriptParts {s : Session} {p : Progress} {plans : List InterfacePlan}
    {script : List ScriptPart} (scripted : s.scriptParts p plans = .ok script) :
    ∀ part ∈ script, part.Idle ∨ ∃ line, part = .line line ∧ ExportLine line := by
  obtain ⟨order, -, scripted⟩ := except_bind_eq_ok_iff.1 scripted
  obtain ⟨records, recorded, scripted⟩ := except_bind_eq_ok_iff.1 scripted
  obtain ⟨classes, -, same⟩ := except_bind_eq_ok_iff.1 scripted
  cases same
  have record : ∀ lines ∈ records, ∀ line ∈ lines, Idle line := by
    intro lines member
    obtain ⟨v, -, made⟩ := exists_of_forall₂ (except_mapM_eq_ok_iff.1 recorded) member
    rw [scriptRecord] at made
    split at made <;> cases made
    exact idle_recordLines _ v
  have exported : ∀ line ∈ scriptExports s.options.moduleName (s.exportedNames plans),
      (ScriptPart.line line).Idle ∨ ∃ text, ScriptPart.line line = .line text ∧
        ExportLine text := by
    intro line member
    rw [scriptExports] at member
    split at member
    · cases member
    · rcases List.mem_append.1 member with named | last
      · obtain ⟨name, -, rfl⟩ := List.mem_map.1 named
        exact .inr ⟨_, rfl, s.options.moduleName, name, by simp [toString]⟩
      · rw [List.mem_singleton.1 last]
        exact .inl (idle_of_literal rfl)
  simp only [List.forall_mem_append, List.forall_mem_map, List.forall_mem_flatMap,
    List.forall_mem_flatten]
  refine ⟨⟨⟨⟨?_, ?_⟩, ?_, ?_⟩, ?_⟩, exported⟩
  · exact fun line member => .inl (idle_scriptSupport _ line member)
  · exact fun part member => .inl (s.idle_layoutParts p.slots part member)
  · exact fun lines member line inside => .inl (record lines member line inside)
  · exact fun c _ line member => .inl (idle_callbackLines c line member)
  · exact fun c _ part member => .inl (c.idle_parts part member)

/-- A conversion is an assignment, and what it assigns to stands first. -/
theorem Marshaling.exists_conversion_eq {m : Marshaling} {name text : String}
    (converts : m.conversion name = some text) : ∃ rest, text = name ++ rest := by
  cases m with
  | scalar => cases converts
  | string | sequence | valueType =>
    cases converts
    exact ⟨_, by simp only [toString, String.append_assoc]; rfl⟩
  | interface _ _ _ nullable | sharedInterface _ _ _ nullable | callback _ _ nullable =>
    cases nullable <;> cases converts <;>
      exact ⟨_, by simp only [toString, String.append_assoc]; rfl⟩

theorem callFree_conversions {pad : String} (blank : Indentation pad) (ms : List Marshaling) :
    ∀ text ∈ conversions ms, CallFree (pad ++ text) := by
  intro text member
  obtain ⟨⟨m, n⟩, -, converts⟩ := List.mem_filterMap.1 member
  obtain ⟨rest, rfl⟩ := Marshaling.exists_conversion_eq converts
  exact callFree_argument blank n rest

/-- A call that passes a handle and arguments by position, which some marshalings convert. -/
structure CallSequence.Formed (c : CallSequence) : Prop where
  receiver : ∀ text, c.call.receiver = some text → text = "self" ∨ text = "this.ptr"
  arguments : ∃ ms : List Marshaling, c.call.arguments = argumentNames ms.length ∧
    c.conversions = NativeBridge.conversions ms
  before : c.before ∈ ["", "ret = ", "let ret = ", "var table = "]
  after : c.after ∈ [";", " >> 2;"]

theorem CallSequence.Formed.callBlock {c : CallSequence} (h : c.Formed) {pad : String}
    (blank : Indentation pad) : CallBlock c (indent pad c.lines) := by
  obtain ⟨ms, passed, converted⟩ := h.arguments
  have lines : indent pad c.lines = c.lead.map (pad ++ ·) ++ [pad ++ c.statement] := by
    simp [indent, lines]
  refine ⟨pad, pad ++ c.statement, blank, ⟨h.receiver, ⟨_, passed⟩, pad, c.before, c.after, blank,
    h.before, h.after, ?_⟩, lines, ?_⟩
  · rw [statement_eq, NativeCall.passed]
    simp only [String.append_assoc]
  · rw [lines, List.dropLast_concat, lead, converted, List.map_append, List.forall_mem_append,
      List.forall_mem_map, List.forall_mem_map]
    refine ⟨?_, callFree_conversions blank ms⟩
    intro text member
    obtain ⟨-, rfl⟩ : c.prepares = true ∧ text = prepareStatement := by simpa using member
    exact ((StartsIdle.of_literal rfl).indent pad blank).idle.callFree

/-- Parts have single lines, and the lines of their calls. -/
theorem composed_script {single : String → Prop} {block : CallSequence → List String → Prop}
    {parts : List ScriptPart} (singles : ∀ line, .line line ∈ parts → single line)
    (blocks : ∀ pad body, .calls pad body ∈ parts → block body (indent pad body.lines)) :
    Composed single block (parts.flatMap ScriptPart.lines)
      (parts.filterMap ScriptPart.sequence?) := by
  refine Composed.flatMap ?_ ?_
  · intro part member alone text inside
    cases part with
    | calls pad body => cases alone
    | line line =>
      rw [List.mem_singleton.1 inside]
      exact singles line member
  · intro part member c called
    cases part with
    | line line => cases called
    | calls pad body =>
      cases called
      exact blocks pad _ member

end NativeBridge
