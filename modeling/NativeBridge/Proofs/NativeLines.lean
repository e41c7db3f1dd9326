import NativeBridge.Proofs.EmittedLines

/-!
# Lines of the native text

The native text defines shims, one for each callback, and entry points. Each definition is a block
of lines that starts with its head, and between the blocks stand comments and lines that define
nothing.
-/
namespace NativeBridge

/-! ## Definitions -/

/-- The line that starts the definition of an entry point. A receiver is declared first, as `self`,
and the others are named by their positions. -/
def HeadLine (e : EntryPoint) (line : String) : Prop :=
  line = e.returnType ++ " EMSCRIPTEN_KEEPALIVE " ++ e.name ++ "(" ++
    ", ".intercalate ((e.receiver.map (· ++ " self")).toList ++
      e.parameters.zipIdx.map fun x => x.1 ++ " " ++ argumentName x.2) ++ ") \x7b"

/-- A line that starts neither the definition of an entry point nor that of a shim. -/
structure DefinesNothing (line : String) : Prop where
  head : ∀ e, ¬ HeadLine e line
  shim : ¬ "EM_JS(".toList <+: line.toList

/-- The lines of a definition: the head, and lines that define nothing. -/
def DefinitionBlock (e : EntryPoint) (lines : List String) : Prop :=
  ∃ head, HeadLine e head ∧ lines = head :: (e.body.map ("  " ++ ·) ++ ["\x7d", ""]) ∧
    ∀ line ∈ lines.tail, DefinesNothing line

/-- A comment. -/
def CommentLine (line : String) : Prop := ∃ text : String, line = "// " ++ text

def endsAsHead : List Char → Bool
  | '\x7b' :: ' ' :: ')' :: _ => true
  | _ => false

theorem HeadLine.endsAsHead {e : EntryPoint} {line : String} (h : HeadLine e line) :
    endsAsHead line.toList.reverse = true := by
  rw [h, String.toList_append, List.reverse_append]
  rfl

/-- A text that ends no head, whatever stands before it. -/
def EndsPlain (text : String) : Prop :=
  ∀ front : String, endsAsHead (front ++ text).toList.reverse = false

namespace EndsPlain

theorem of_literal {text : List Char} (h : ∀ rest, endsAsHead (text.reverse ++ rest) = false) :
    EndsPlain (String.ofList text) := by
  intro front
  rw [String.toList_append, String.toList_ofList, List.reverse_append]
  exact h _

theorem append {text : String} (h : EndsPlain text) (front : String) :
    EndsPlain (front ++ text) := by
  intro before
  rw [← String.append_assoc]
  exact h _

theorem definesNothing {line : String} (h : EndsPlain line) (other : line.toList.head? ≠ some 'E') :
    DefinesNothing line := by
  constructor
  · intro e head
    have ends := head.endsAsHead
    rw [← String.empty_append (s := line), h ""] at ends
    cases ends
  · rintro ⟨rest, starts⟩
    exact other (by simp [← starts])

end EndsPlain

theorem definesNothing_of_literal {text : List Char}
    (h : (!endsAsHead text.reverse && !"EM_JS(".toList.isPrefixOf text) = true) :
    DefinesNothing (String.ofList text) := by
  rw [Bool.and_eq_true, Bool.not_eq_true', Bool.not_eq_true'] at h
  constructor
  · intro e head
    have ends := head.endsAsHead
    rw [String.toList_ofList, h.1] at ends
    cases ends
  · have letters : (String.ofList text).toList = text := String.toList_ofList
    rw [letters, ← List.isPrefixOf_iff_prefix, h.2]
    exact Bool.false_ne_true

theorem definitionBlock_lines {e : EntryPoint} (plain : ∀ text ∈ e.body, EndsPlain text) :
    DefinitionBlock e e.lines := by
  refine ⟨e.head, e.head_eq, rfl, ?_⟩
  change ∀ line ∈ e.body.map ("  " ++ ·) ++ ["\x7d", ""], DefinesNothing line
  rw [List.forall_mem_append, List.forall_mem_map]
  refine ⟨fun text member => ((plain text member).append "  ").definesNothing (by simp), ?_⟩
  refine List.forall_mem_cons.2 ⟨?_, List.forall_mem_singleton.2 ?_⟩
  · exact definesNothing_of_literal rfl
  · exact definesNothing_of_literal rfl

theorem endsPlain_returnStatements (m : Marshaling) (call : String) :
    ∀ text ∈ m.returnStatements call, EndsPlain text := by
  have ended : ∀ front : String, EndsPlain (front ++ ";") :=
    fun front => (EndsPlain.of_literal fun _ => rfl).append front
  cases m with
  | scalar | sequence | callback => exact List.forall_mem_singleton.2 (ended _)
  | string flags nullable =>
    obtain ⟨-, byValue, -⟩ := flags
    cases byValue with
    | false => exact List.forall_mem_singleton.2 (ended _)
    | true =>
      refine List.forall_mem_cons.2 ⟨.of_literal fun _ => rfl, List.forall_mem_cons.2 ⟨ended _, ?_⟩⟩
      exact List.forall_mem_singleton.2 (.of_literal fun _ => rfl)
  | interface name cpp flags nullable =>
    simp only [Marshaling.returnStatements]
    split
    · refine List.forall_mem_cons.2 ⟨(EndsPlain.of_literal fun _ => rfl).append _, ?_⟩
      refine List.forall_mem_cons.2 ⟨ended _, List.forall_mem_singleton.2 ?_⟩
      exact .of_literal fun _ => rfl
    · split <;> exact List.forall_mem_singleton.2 (ended _)
  | sharedInterface name cpp flags nullable =>
    refine List.forall_mem_cons.2 ⟨ended _, List.forall_mem_singleton.2 ?_⟩
    exact (EndsPlain.of_literal fun _ => rfl).append _
  | valueType name cpp slot flags =>
    exact List.forall_mem_cons.2 ⟨ended _, List.forall_mem_singleton.2 (ended _)⟩

/-- An entry point whose body holds no head. -/
def EntryPoint.Plain (e : EntryPoint) : Prop := ∀ text ∈ e.body, EndsPlain text

namespace Session

variable {s : Session} {callbacks : List CallbackPlan}

theorem plain_constructorEntry {i : Interface} {o : Overload} {e : EntryPoint}
    (made : s.constructorEntry callbacks i o = .ok e) : e.Plain := by
  obtain ⟨arguments, -, same⟩ := except_bind_eq_ok_iff.1 made
  cases same
  refine List.forall_mem_singleton.2 ?_
  cases i.ownership <;> exact (EndsPlain.of_literal fun _ => rfl).append _

theorem plain_methodEntry {i : Interface} {g : OverloadGroup} {o : Overload} {e : EntryPoint}
    (made : s.methodEntry callbacks i g o = .ok e) : e.Plain := by
  obtain ⟨returnType, -, made⟩ := except_bind_eq_ok_iff.1 made
  obtain ⟨arguments, -, same⟩ := except_bind_eq_ok_iff.1 made
  cases same
  rw [EntryPoint.Plain]
  cases g.returns with
  | none => exact List.forall_mem_singleton.2 ((EndsPlain.of_literal fun _ => rfl).append _)
  | some m => exact endsPlain_returnStatements m _

theorem plain_attributeEntries {i : Interface} {a : AttributePlan} {points : List EntryPoint}
    (made : s.attributeEntries callbacks i a = .ok points) : ∀ e ∈ points, e.Plain := by
  obtain ⟨getter, read, rest⟩ := except_bind_eq_ok_iff.1 made
  have first : getter.Plain := by
    rw [getterEntry] at read
    split at read
    · cases read
    · obtain ⟨returnType, -, same⟩ := except_bind_eq_ok_iff.1 read
      cases same
      exact endsPlain_returnStatements _ _
  cases found : a.setter with
  | none =>
    rw [found] at rest
    cases rest
    exact List.forall_mem_singleton.2 first
  | some m =>
    rw [found] at rest
    obtain ⟨setter, written, same⟩ := except_bind_eq_ok_iff.1 rest
    cases same
    obtain ⟨value, -, same⟩ := except_bind_eq_ok_iff.1 written
    cases same
    refine List.forall_mem_cons.2 ⟨first, List.forall_mem_singleton.2 ?_⟩
    exact List.forall_mem_singleton.2 ((EndsPlain.of_literal fun _ => rfl).append _)

theorem plain_entryPoints {plan : InterfacePlan} {points : List EntryPoint}
    (made : s.entryPoints callbacks plan = .ok points) : ∀ e ∈ points, e.Plain := by
  obtain ⟨constructors, constructorsMade, made⟩ := except_bind_eq_ok_iff.1 made
  obtain ⟨methods, methodsMade, made⟩ := except_bind_eq_ok_iff.1 made
  obtain ⟨attributes, attributesMade, same⟩ := except_bind_eq_ok_iff.1 made
  cases same
  simp only [List.forall_mem_append, List.forall_mem_flatten]
  refine ⟨⟨⟨?_, ?_⟩, ?_⟩, ?_⟩
  · intro e member
    obtain ⟨o, -, emitted⟩ := exists_of_forall₂ (except_mapM_eq_ok_iff.1 constructorsMade) member
    exact plain_constructorEntry emitted
  · intro e member
    rw [destructorEntry] at member
    split at member
    · cases member
    · rw [List.mem_singleton.1 member]
      exact List.forall_mem_singleton.2 (.of_literal fun _ => rfl)
  · intro group there e member
    obtain ⟨g, -, each⟩ := exists_of_forall₂ (except_mapM_eq_ok_iff.1 methodsMade) there
    obtain ⟨o, -, emitted⟩ := exists_of_forall₂ (except_mapM_eq_ok_iff.1 each) member
    exact plain_methodEntry emitted
  · intro accessors there
    obtain ⟨a, -, emitted⟩ := exists_of_forall₂ (except_mapM_eq_ok_iff.1 attributesMade) there
    exact plain_attributeEntries emitted

theorem plain_layoutEntry {slots : List Slot} {point : Option EntryPoint}
    (made : s.layoutEntry slots = .ok point) : ∀ e ∈ point.toList, e.Plain := by
  rw [layoutEntry] at made
  split at made
  · cases made
    exact List.forall_mem_nil _
  · obtain ⟨rows, -, same⟩ := except_bind_eq_ok_iff.1 made
    cases same
    refine List.forall_mem_singleton.2 ?_
    simp only [EntryPoint.Plain, List.forall_mem_append, List.forall_mem_map]
    refine ⟨⟨List.forall_mem_singleton.2 (.of_literal fun _ => rfl), fun row _ => ?_⟩, ?_⟩
    · exact (EndsPlain.of_literal fun _ => rfl).append _
    · exact List.forall_mem_cons.2 ⟨.of_literal fun _ => rfl,
        List.forall_mem_singleton.2 (.of_literal fun _ => rfl)⟩

end Session

/-! ## The native text -/

/-- The lines of a shim of some name: the one that names it, and lines that define nothing. -/
def ShimBlock (name : String) (lines : List String) : Prop :=
  ∃ result params : String, ∃ rest,
    lines = ("EM_JS(" ++ result ++ ", " ++ name ++ ", (" ++ params ++ "), \x7b") :: rest ∧
    ∀ line ∈ rest, DefinesNothing line

theorem shimBlock_nativeLines {c : CallbackPlan} {lines : List String}
    (made : c.nativeLines = .ok lines) : ShimBlock c.shim lines := by
  obtain ⟨result, -, same⟩ := except_bind_eq_ok_iff.1 made
  cases same
  refine ⟨result, _, _, by simp only [toString]; rfl, ?_⟩
  refine List.forall_mem_cons.2 ⟨?_, List.forall_mem_cons.2 ⟨?_, List.forall_mem_singleton.2 ?_⟩⟩
  · exact ((EndsPlain.of_literal fun _ => rfl).append _).definesNothing (by simp)
  · exact definesNothing_of_literal rfl
  · exact definesNothing_of_literal rfl

/-- No line of a shim is the head of a definition. -/
theorem ShimBlock.not_headLine {name : String} {lines : List String} (h : ShimBlock name lines) :
    ∀ line ∈ lines, ∀ e, ¬ HeadLine e line := by
  obtain ⟨result, params, rest, rfl, nothing⟩ := h
  refine List.forall_mem_cons.2 ⟨fun e head => ?_, fun line member => (nothing line member).head⟩
  have ends := head.endsAsHead
  rw [String.toList_append, List.reverse_append] at ends
  cases ends

/-- A line outside of all definitions. -/
def OutsideLine (line : String) : Prop := CommentLine line ∨ DefinesNothing line

/-- Shims and entry points by their blocks. -/
def NativeBlock : CallbackPlan ⊕ EntryPoint → List String → Prop :=
  Sum.elim (fun c => ShimBlock c.shim) DefinitionBlock

theorem composed_shims {callbacks : List CallbackPlan} {shims : List (List String)}
    (made : List.Forall₂ (fun c lines => c.nativeLines = .ok lines) callbacks shims) :
    Composed OutsideLine NativeBlock shims.flatten (callbacks.map .inl) := by
  induction made with
  | nil => exact .nil
  | cons first _ ih => exact .block (shimBlock_nativeLines first) ih

theorem outside_nativePrologue : ∀ line ∈ nativePrologue, OutsideLine line := by
  simp only [nativePrologue, List.forall_mem_cons]
  and_intros
  all_goals first
    | exact List.forall_mem_nil _
    | exact .inr (definesNothing_of_literal rfl)

/-- A line outside of all definitions, or an entry point whose body holds no head. -/
def NativePart.Plain : NativePart → Prop
  | line text => OutsideLine text
  | entry point => point.Plain

theorem composed_nativeParts {parts : List NativePart} (plain : ∀ part ∈ parts, part.Plain) :
    Composed OutsideLine NativeBlock (parts.flatMap NativePart.lines)
      ((parts.filterMap NativePart.entry?).map .inr) := by
  rw [List.map_filterMap]
  refine Composed.flatMap ?_ ?_
  · intro part member single text inside
    cases part with
    | entry point => cases single
    | line line =>
      rw [List.mem_singleton.1 inside]
      exact plain _ member
  · intro part member item found
    cases part with
    | line line => cases found
    | entry point =>
      cases found
      exact definitionBlock_lines (plain _ member)

theorem flatMap_nativeLines (texts : List String) :
    (texts.map NativePart.line).flatMap NativePart.lines = texts := by
  induction texts with
  | nil => rfl
  | cons text texts ih => exact congrArg (text :: ·) ih

namespace Session

variable {s : Session}

theorem plain_interfaceParts {callbacks : List CallbackPlan} {plan : InterfacePlan}
    {parts : List NativePart} (made : s.interfaceParts callbacks plan = .ok parts) :
    ∀ part ∈ parts, part.Plain := by
  obtain ⟨points, emitted, same⟩ := except_bind_eq_ok_iff.1 made
  cases same
  simp only [List.forall_mem_append, List.forall_mem_cons, List.forall_mem_map]
  refine ⟨⟨.inl ⟨plan.interface.name, rfl⟩, ?_, List.forall_mem_nil _⟩, plain_entryPoints emitted⟩
  exact .inr (definesNothing_of_literal rfl)

theorem outside_nativeSlots (layouts : List RecordLayout) :
    ∀ line ∈ (if s.nativeSlots layouts = [] then [] else s.nativeSlots layouts ++ [""]),
      OutsideLine line := by
  split
  · exact List.forall_mem_nil _
  · rw [List.forall_mem_append]
    refine ⟨?_, List.forall_mem_singleton.2 (.inr (definesNothing_of_literal rfl))⟩
    refine List.forall_mem_map.2 fun l _ => .inr ?_
    exact ((EndsPlain.of_literal fun _ => rfl).append _).definesNothing (by simp [toString])

/-- The lines of the native text hold the shims and the entry points, and define nothing else. -/
theorem composed_native {p : Progress} {plans : List InterfacePlan} {native : List NativePart}
    (natived : s.nativeParts p plans = .ok native) :
    Composed OutsideLine NativeBlock (native.flatMap NativePart.lines)
      (p.callbacks.map .inl ++ (native.filterMap NativePart.entry?).map .inr) := by
  obtain ⟨shims, shimmed, natived⟩ := except_bind_eq_ok_iff.1 natived
  obtain ⟨layout, layoutMade, natived⟩ := except_bind_eq_ok_iff.1 natived
  obtain ⟨interfaces, interfacesMade, same⟩ := except_bind_eq_ok_iff.1 natived
  cases same
  have front : ∀ line ∈ nativePrologue ++
      (if s.nativeSlots p.layouts = [] then [] else s.nativeSlots p.layouts ++ [""]),
      OutsideLine line :=
    List.forall_mem_append.2 ⟨outside_nativePrologue, outside_nativeSlots p.layouts⟩
  have back : ∀ part ∈ ["extern \"C\" \x7b", ""].map .line ++ layout.toList.map .entry ++
      interfaces.flatten ++ [.line "\x7d  // extern \"C\"", .line ""], part.Plain := by
    have literal : ∀ text ∈ ["extern \"C\" \x7b", "", "\x7d  // extern \"C\""],
        (NativePart.line text).Plain := by
      simp only [List.forall_mem_cons]
      and_intros
      · exact .inr (definesNothing_of_literal rfl)
      · exact .inr (definesNothing_of_literal rfl)
      · exact .inr (definesNothing_of_literal rfl)
      · exact List.forall_mem_nil _
    simp only [List.forall_mem_append, List.forall_mem_map, List.forall_mem_flatten]
    refine ⟨⟨⟨?_, plain_layoutEntry layoutMade⟩, ?_⟩, ?_⟩
    · exact fun text member => literal text (List.mem_append_left _ member)
    · intro parts member
      obtain ⟨plan, -, emitted⟩ := exists_of_forall₂ (except_mapM_eq_ok_iff.1 interfacesMade) member
      exact plain_interfaceParts emitted
    · simp only [List.forall_mem_cons]
      exact ⟨literal _ (by simp), literal _ (by simp), List.forall_mem_nil _⟩
  have composed := ((composed_shims (except_mapM_eq_ok_iff.1 shimmed)).append
    (composed_nativeParts back)).singles front
  have lines : ∀ texts : List String, List.filterMap NativePart.entry? (texts.map .line) = [] := by
    simp [List.filterMap_map, Function.comp_def, NativePart.entry?]
  simp only [List.map_append, List.flatMap_append, flatMap_nativeLines,
    List.filterMap_append, lines, List.nil_append, List.append_assoc] at composed ⊢
  exact composed

end Session

end NativeBridge
