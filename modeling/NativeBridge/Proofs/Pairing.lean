import Mathlib.Algebra.Order.Group.Multiset
import NativeBridge.Proofs.NativeLines
import NativeBridge.Proofs.Preparation

/-!
# Calls and entry points are paired

Script classes and native entry points are emitted from the same plans by separate functions. Still
every call in the lines of the script has an entry point of its own that is defined in the lines of
the native text, and the other way round: the name, the number of arguments and the receiver agree,
and each argument is converted by the marshaling that gives the parameter its type.
-/
namespace NativeBridge

/-! ## Calls and entry points of emitted parts -/

/-- The call sequences among script parts. -/
def sequences (parts : List ScriptPart) : List CallSequence := parts.filterMap ScriptPart.sequence?

/-- The entry points among native parts. -/
def entries (parts : List NativePart) : List EntryPoint := parts.filterMap NativePart.entry?

@[simp] theorem sequences_nil : sequences [] = [] := rfl

@[simp] theorem sequences_line (text : String) (parts : List ScriptPart) :
    sequences (.line text :: parts) = sequences parts := rfl

@[simp] theorem sequences_calls (pad : String) (body : CallSequence) (parts : List ScriptPart) :
    sequences (.calls pad body :: parts) = body :: sequences parts := rfl

@[simp] theorem sequences_append (front back : List ScriptPart) :
    sequences (front ++ back) = sequences front ++ sequences back := List.filterMap_append

@[simp] theorem sequences_lines (texts : List String) : sequences (texts.map .line) = [] := by
  induction texts with
  | nil => rfl
  | cons text rest ih => exact ih

@[simp] theorem sequences_flatMap {α : Type} (f : α → List ScriptPart) (items : List α) :
    sequences (items.flatMap f) = items.flatMap fun a => sequences (f a) := by
  induction items with
  | nil => rfl
  | cons a rest ih => simp [ih]

theorem mem_sequences {pad : String} {body : CallSequence} {parts : List ScriptPart}
    (member : .calls pad body ∈ parts) : body ∈ sequences parts :=
  List.mem_filterMap.2 ⟨_, member, rfl⟩

@[simp] theorem entries_nil : entries [] = [] := rfl

@[simp] theorem entries_line (text : String) (parts : List NativePart) :
    entries (.line text :: parts) = entries parts := rfl

@[simp] theorem entries_append (front back : List NativePart) :
    entries (front ++ back) = entries front ++ entries back := List.filterMap_append

@[simp] theorem entries_lines (texts : List String) : entries (texts.map .line) = [] := by
  induction texts with
  | nil => rfl
  | cons text rest ih => exact ih

@[simp] theorem entries_entry (points : List EntryPoint) :
    entries (points.map .entry) = points := by
  induction points with
  | nil => rfl
  | cons point rest ih => exact congrArg (point :: ·) ih

@[simp] theorem entries_flatten (parts : List (List NativePart)) :
    entries parts.flatten = parts.flatMap entries := by
  induction parts with
  | nil => rfl
  | cons first rest ih => simp [ih]

/-- The calls of a dispatch are those of its branches. -/
@[simp] theorem sequences_dispatchParts (branches : List Branch) :
    sequences (dispatchParts branches) = branches.map (·.body) := by
  have several : sequences ((branches.zipIdx.flatMap fun x =>
      [.line (branchHead (x.2 = 0) x.1.guard), .calls "      " x.1.body]) ++ [.line "    \x7d"]) =
        branches.map (·.body) := by
    calc _ = branches.zipIdx.flatMap fun x => [x.1.body] := by simp
      _ = (branches.zipIdx.map Prod.fst).map (·.body) := by
        rw [List.map_map, List.map_eq_flatMap]
        rfl
      _ = branches.map (·.body) := by rw [List.zipIdx_map_fst]
  cases branches with
  | nil => rfl
  | cons first rest =>
    cases rest with
    | nil => rfl
    | cons second rest => exact several

namespace ScriptMember

/-- Whether a member belongs to an object, and not to its class. -/
def onInstance : ScriptMember → Bool
  | construct .. => false
  | method _ isStatic _ _ _ | getter _ isStatic _ _ | setter _ isStatic _ => !isStatic
  | destroy .. | refuseDestroy .. => true

@[simp] theorem sequences_construct (owner : String) (parameters : Nat) (branches : List Branch) :
    sequences (construct owner parameters branches).parts = branches.map (·.body) := by
  by_cases none : branches = [] <;> simp [parts, none]

@[simp] theorem sequences_method (name : String) (isStatic : Bool) (parameters : Nat)
    (branches : List Branch) (result : Option String) :
    sequences (method name isStatic parameters branches result).parts = branches.map (·.body) := by
  cases isStatic <;> cases result <;> simp [parts]

@[simp] theorem sequences_getter (name : String) (isStatic : Bool) (body : CallSequence)
    (result : String) : sequences (getter name isStatic body result).parts = [body] := rfl

@[simp] theorem sequences_setter (name : String) (isStatic : Bool) (body : CallSequence) :
    sequences (setter name isStatic body).parts = [body] := rfl

@[simp] theorem sequences_destroy (owner : String) (body : CallSequence) :
    sequences (destroy owner body).parts = [body] := rfl

@[simp] theorem sequences_refuseDestroy (owner : String) :
    sequences (refuseDestroy owner).parts = [] := rfl

end ScriptMember

/-- The calls of a class are those of its members. -/
theorem sequences_class (c : ScriptClass) :
    sequences c.parts = (c.members ++ c.ending.toList).flatMap fun m => sequences m.parts := by
  simp [ScriptClass.parts]

/-! ## When a call fits an entry point -/

/-- A call fits an entry point: it goes by its name, passes a receiver first exactly when the entry
point declares one first, and converts each argument by the marshaling that types the parameter. -/
structure Paired (c : CallSequence) (e : EntryPoint) : Prop where
  name : c.call.entry = e.name
  receiver : c.call.receiver.isSome = e.receiver.isSome
  handle : ∀ text, c.call.receiver = some text → text = "self" ∨ text = "this.ptr"
  arguments : ∃ ms : List Marshaling,
    c.call.arguments = (List.range ms.length).map (fun i => "arg" ++ toString i) ∧
    c.conversions = conversions ms ∧ e.parameters = ms.map Marshaling.paramType
  statement : c.before ∈ ["", "ret = ", "let ret = ", "var table = "] ∧ c.after ∈ [";", " >> 2;"]

theorem Paired.passed {c : CallSequence} {e : EntryPoint} (h : Paired c e) :
    c.call.passed.length = e.parameterTexts.length := by
  obtain ⟨ms, passed, -, declared⟩ := h.arguments
  have same := h.receiver
  cases hc : c.call.receiver <;> cases he : e.receiver <;>
    simp_all [NativeCall.passed, EntryPoint.parameterTexts]

theorem Paired.formed {c : CallSequence} {e : EntryPoint} (h : Paired c e) : c.Formed := by
  obtain ⟨ms, passed, converted, -⟩ := h.arguments
  exact ⟨h.handle, ⟨ms, passed, converted⟩, h.statement.1, h.statement.2⟩

/-! ## Matching two lists up to order -/

section Matching

variable {α β γ δ ε : Type} {r : α → β → Prop}

theorem rel_of_forall₂ {items : List α} {found : List β} (h : List.Forall₂ r items found) :
    Multiset.Rel r ↑items ↑found := by
  induction h with
  | nil => exact .zero
  | cons first _ ih => exact .cons first ih

theorem rel_append {front back : List α} {front' back' : List β}
    (first : Multiset.Rel r ↑front ↑front') (second : Multiset.Rel r ↑back ↑back') :
    Multiset.Rel r ↑(front ++ back) ↑(front' ++ back') := by
  rw [← Multiset.coe_add, ← Multiset.coe_add]
  exact first.add second

theorem rel_flatMap {f : γ → List α} {g : δ → List β} {items : List γ} {others : List δ}
    (h : List.Forall₂ (fun c d => Multiset.Rel r ↑(f c) ↑(g d)) items others) :
    Multiset.Rel r ↑(items.flatMap f) ↑(others.flatMap g) := by
  induction h with
  | nil => exact .zero
  | cons first _ ih =>
    rw [List.flatMap_cons, List.flatMap_cons]
    exact rel_append first ih

/-- Two lists made item by item from the same list go together item by item. -/
theorem forall₂_of_common {R : ε → γ → Prop} {S : ε → δ → Prop} {T : γ → δ → Prop} {items : List ε}
    {made : List γ} {other : List δ} (h : List.Forall₂ R items made)
    (h' : List.Forall₂ S items other) (both : ∀ e c d, R e c → S e d → T c d) :
    List.Forall₂ T made other := by
  induction h generalizing other with
  | nil =>
    cases h'
    exact .nil
  | cons first _ ih =>
    cases h' with
    | cons first' rest' => exact .cons (both _ _ _ first first') (ih rest')

end Matching

/-! ## The members of an interface -/

namespace Session

variable {s : Session}

/-- The call of an overload fits any entry point of its name, receiver and parameter types. -/
theorem paired_callSequence {owner member : String} {receiver : Option String} {assigns : Bool}
    {o : Overload} {e : EntryPoint} (name : e.name = s.mangle owner member o.arity)
    (declared : receiver.isSome = e.receiver.isSome)
    (handle : ∀ text, receiver = some text → text = "self" ∨ text = "this.ptr")
    (parameters : e.parameters = o.paramTypes) :
    Paired (s.callSequence owner member receiver assigns o) e := by
  refine ⟨name.symm, declared, handle, ⟨o.marshalings, ?_, ?_, ?_⟩, ?_, ?_⟩
  · rw [Overload.marshalings, List.length_map]
    rfl
  · simp [callSequence, conversions, Overload.marshalings, List.zipIdx_map, List.filterMap_map]
  · simp [parameters, Overload.paramTypes, Overload.marshalings, Function.comp_def]
  · cases assigns <;> simp [callSequence]
  · simp [callSequence]

theorem branches_bodies (owner member : String) (receiver : Option String) (assigns : Bool)
    (g : OverloadGroup) :
    (s.branches owner member receiver assigns g).map (·.body) =
      g.overloads.map (s.callSequence owner member receiver assigns) := by
  simp [branches, OverloadGroup.dispatch, Function.comp_def]

theorem paired_constructors {callbacks : List CallbackPlan} {plan : InterfacePlan}
    {points : List EntryPoint}
    (emitted : plan.constructors.overloads.mapM
      (s.constructorEntry callbacks plan.interface) = .ok points) :
    Multiset.Rel Paired ↑(sequences (s.constructMember plan).parts) ↑points := by
  rw [constructMember, ScriptMember.sequences_construct, branches_bodies]
  refine rel_of_forall₂ (List.forall₂_map_left_iff.2 ?_)
  refine (except_mapM_eq_ok_iff.1 emitted).imp fun o e made => ?_
  obtain ⟨arguments, -, same⟩ := except_bind_eq_ok_iff.1 made
  cases same
  exact paired_callSequence rfl rfl (by simp) rfl

theorem paired_method {callbacks : List CallbackPlan} {i : Interface} {g : OverloadGroup}
    {points : List EntryPoint}
    (emitted : g.overloads.mapM (s.methodEntry callbacks i g) = .ok points) :
    Multiset.Rel Paired ↑(sequences (s.methodMember i g).parts) ↑points := by
  rw [methodMember, ScriptMember.sequences_method, branches_bodies]
  refine rel_of_forall₂ (List.forall₂_map_left_iff.2 ?_)
  refine (except_mapM_eq_ok_iff.1 emitted).imp fun o e made => ?_
  obtain ⟨returnType, -, made⟩ := except_bind_eq_ok_iff.1 made
  obtain ⟨arguments, -, same⟩ := except_bind_eq_ok_iff.1 made
  cases same
  cases g.isStatic
  · exact paired_callSequence rfl rfl (by simp) rfl
  · exact paired_callSequence rfl rfl (by simp) rfl

theorem paired_getter {i : Interface} {a : AttributePlan} {m : ScriptMember} {e : EntryPoint}
    (script : s.getterMember i a = .ok m) (native : s.getterEntry i a = .ok e) :
    Multiset.Rel Paired ↑(sequences m.parts) ↑[e] := by
  cases found : a.getter with
  | none => simp [getterMember, found] at script
  | some marshaling =>
    simp only [getterMember, found, Except.ok.injEq] at script
    simp only [getterEntry, found] at native
    obtain ⟨returnType, -, same⟩ := except_bind_eq_ok_iff.1 native
    cases same
    subst script
    refine rel_of_forall₂ (.cons ⟨rfl, ?_, ?_, ⟨[], rfl, rfl, rfl⟩, by simp⟩ .nil)
    · cases a.decl.isStatic <;> rfl
    · cases a.decl.isStatic <;> simp [accessReceiver]

theorem paired_setter {callbacks : List CallbackPlan} {i : Interface} {a : AttributePlan}
    {marshaling : Marshaling} {e : EntryPoint}
    (native : s.setterEntry callbacks i a marshaling = .ok e) :
    Multiset.Rel Paired ↑(sequences (s.setterMember i a marshaling).parts) ↑[e] := by
  obtain ⟨value, -, same⟩ := except_bind_eq_ok_iff.1 native
  cases same
  refine rel_of_forall₂ (.cons ⟨rfl, ?_, ?_, ⟨[marshaling], rfl, ?_, rfl⟩, by simp⟩ .nil)
  · cases a.decl.isStatic <;> rfl
  · cases a.decl.isStatic <;> simp [accessReceiver]
  · cases found : marshaling.conversion (argumentName 0) <;> simp [conversions, found]

theorem paired_attribute {callbacks : List CallbackPlan} {i : Interface} {a : AttributePlan}
    {members : List ScriptMember} {points : List EntryPoint}
    (script : s.attributeMembers i a = .ok members)
    (native : s.attributeEntries callbacks i a = .ok points) :
    Multiset.Rel Paired ↑(members.flatMap fun m => sequences m.parts) ↑points := by
  obtain ⟨member, getter, same⟩ := except_bind_eq_ok_iff.1 script
  cases same
  obtain ⟨point, getterPoint, rest⟩ := except_bind_eq_ok_iff.1 native
  have first := paired_getter getter getterPoint
  rw [List.flatMap_cons]
  cases found : a.setter with
  | none =>
    simp only [found] at rest
    cases rest
    simpa using first
  | some marshaling =>
    simp only [found] at rest
    obtain ⟨setterPoint, made, same⟩ := except_bind_eq_ok_iff.1 rest
    cases same
    have second := paired_setter made
    exact rel_append first (by simpa using second)

theorem paired_destroy (plan : InterfacePlan) :
    Multiset.Rel Paired
      ↑((s.destroyMember plan).toList.flatMap fun m => sequences m.parts)
      ↑(s.destructorEntry plan.interface).toList := by
  cases keeps : plan.interface.nonDestructible with
  | false =>
    simp only [destroyMember, destructorEntry, keeps]
    exact rel_of_forall₂ (.cons ⟨rfl, rfl, by simp, ⟨[], rfl, rfl, rfl⟩, by simp⟩ .nil)
  | true =>
    cases hides : plan.destroyableParent <;> simp [destroyMember, destructorEntry, keeps, hides]

/-- The calls of a class are paired with the entry points of its interface. -/
theorem paired_interface {callbacks : List CallbackPlan} {plan : InterfacePlan} {c : ScriptClass}
    {points : List EntryPoint} (script : s.scriptClass plan = .ok c)
    (native : s.entryPoints callbacks plan = .ok points) :
    Multiset.Rel Paired ↑(sequences c.parts) ↑points := by
  obtain ⟨attributes, attributesMade, same⟩ := except_bind_eq_ok_iff.1 script
  cases same
  obtain ⟨constructors, constructorsMade, native⟩ := except_bind_eq_ok_iff.1 native
  obtain ⟨methods, methodsMade, native⟩ := except_bind_eq_ok_iff.1 native
  obtain ⟨accessors, accessorsMade, same⟩ := except_bind_eq_ok_iff.1 native
  cases same
  have constructed := paired_constructors constructorsMade
  have called : Multiset.Rel Paired
      ↑(plan.methods.flatMap fun g => sequences (s.methodMember plan.interface g).parts)
      ↑(methods.flatMap id) :=
    rel_flatMap ((except_mapM_eq_ok_iff.1 methodsMade).imp fun _ _ made => paired_method made)
  have accessed : Multiset.Rel Paired
      ↑(attributes.flatMap fun members => members.flatMap fun m => sequences m.parts)
      ↑(accessors.flatMap id) := by
    refine rel_flatMap (forall₂_of_common (except_mapM_eq_ok_iff.1 attributesMade)
      (except_mapM_eq_ok_iff.1 accessorsMade) ?_)
    intro a members points script native
    exact paired_attribute script native
  have destroyed := paired_destroy (s := s) plan
  -- the destructor comes last in the class and second among the entry points
  have both := ((constructed.add called).add accessed).add destroyed
  rw [add_right_comm _ (accessors.flatMap id : Multiset EntryPoint),
    add_right_comm _ (methods.flatMap id : Multiset EntryPoint)] at both
  have nested : attributes.flatten.flatMap (fun m => sequences m.parts) =
      attributes.flatMap fun members => members.flatMap fun m => sequences m.parts := by
    rw [← List.flatMap_id, List.flatMap_assoc]
    rfl
  simpa [sequences_class, List.flatMap_map, nested] using both

/-! ## Who passes a receiver -/

/-- The calls of a member pass a receiver exactly when it belongs to an object. -/
def ReceiverFits (m : ScriptMember) : Prop :=
  ∀ body ∈ sequences m.parts, body.call.receiver.isSome = m.onInstance

theorem receiverFits_construct (plan : InterfacePlan) : ReceiverFits (s.constructMember plan) := by
  intro body member
  rw [constructMember, ScriptMember.sequences_construct, branches_bodies] at member
  obtain ⟨o, -, rfl⟩ := List.mem_map.1 member
  rfl

theorem receiverFits_method (i : Interface) (g : OverloadGroup) :
    ReceiverFits (s.methodMember i g) := by
  intro body member
  rw [methodMember, ScriptMember.sequences_method, branches_bodies] at member
  obtain ⟨o, -, rfl⟩ := List.mem_map.1 member
  cases static : g.isStatic <;> simp [callSequence, methodMember, ScriptMember.onInstance, static]

theorem receiverFits_attribute {i : Interface} {a : AttributePlan} {members : List ScriptMember}
    (made : s.attributeMembers i a = .ok members) : ∀ m ∈ members, ReceiverFits m := by
  obtain ⟨getter, found, same⟩ := except_bind_eq_ok_iff.1 made
  cases same
  have access : (accessReceiver a.decl.isStatic).isSome = !a.decl.isStatic := by
    cases a.decl.isStatic <;> rfl
  refine List.forall_mem_cons.2 ⟨?_, ?_⟩
  · cases read : a.getter with
    | none => simp [getterMember, read] at found
    | some marshaling =>
      simp only [getterMember, read, Except.ok.injEq] at found
      subst found
      simpa [ReceiverFits, ScriptMember.onInstance] using access
  · cases a.setter with
    | none => simp
    | some marshaling => simpa [setterMember, ReceiverFits, ScriptMember.onInstance] using access

theorem receiverFits_destroy (plan : InterfacePlan) :
    ∀ m ∈ (s.destroyMember plan).toList, ReceiverFits m := by
  cases keeps : plan.interface.nonDestructible <;> cases hides : plan.destroyableParent <;>
    simp [destroyMember, keeps, hides, ReceiverFits, ScriptMember.onInstance]

theorem receiverFits_class {plan : InterfacePlan} {c : ScriptClass}
    (made : s.scriptClass plan = .ok c) :
    ∀ m ∈ c.members ++ c.ending.toList, ReceiverFits m := by
  obtain ⟨attributes, accessors, same⟩ := except_bind_eq_ok_iff.1 made
  cases same
  intro m member
  rcases List.mem_append.1 member with member | last
  · rcases List.mem_append.1 member with member | accessor
    · rcases List.mem_cons.1 member with rfl | method
      · exact receiverFits_construct plan
      · obtain ⟨g, -, rfl⟩ := List.mem_map.1 method
        exact receiverFits_method plan.interface g
    · obtain ⟨members, there, here⟩ := List.mem_flatten.1 accessor
      obtain ⟨a, -, found⟩ := exists_of_forall₂ (except_mapM_eq_ok_iff.1 accessors) there
      exact receiverFits_attribute found m here
  · exact receiverFits_destroy plan m last

/-! ## Whole outputs -/

theorem paired_layout {slots : List Slot} {point : Option EntryPoint}
    (made : s.layoutEntry slots = .ok point) :
    Multiset.Rel Paired ↑(sequences (s.layoutParts slots)) ↑point.toList := by
  by_cases none : slots = []
  · simp only [layoutEntry, none, if_true, Except.ok.injEq] at made
    subst made
    simp [layoutParts, none]
  · simp only [layoutEntry, none, if_false] at made
    obtain ⟨rows, -, same⟩ := except_bind_eq_ok_iff.1 made
    cases same
    simp only [layoutParts, none, if_false]
    exact rel_of_forall₂
      (.cons ⟨rfl, rfl, by simp [layoutCall], ⟨[], rfl, rfl, rfl⟩, by simp [layoutCall]⟩ .nil)

theorem paired_parts {p : Progress} {plans : List InterfacePlan} {script : List ScriptPart}
    {native : List NativePart} (scripted : s.scriptParts p plans = .ok script)
    (natived : s.nativeParts p plans = .ok native) :
    Multiset.Rel Paired ↑(sequences script) ↑(entries native) := by
  obtain ⟨order, -, scripted⟩ := except_bind_eq_ok_iff.1 scripted
  obtain ⟨records, -, scripted⟩ := except_bind_eq_ok_iff.1 scripted
  obtain ⟨classes, classesMade, same⟩ := except_bind_eq_ok_iff.1 scripted
  cases same
  obtain ⟨shims, -, natived⟩ := except_bind_eq_ok_iff.1 natived
  obtain ⟨layout, layoutMade, natived⟩ := except_bind_eq_ok_iff.1 natived
  obtain ⟨interfaces, interfacesMade, same⟩ := except_bind_eq_ok_iff.1 natived
  cases same
  have members : Multiset.Rel Paired ↑(classes.flatMap fun c => sequences c.parts)
      ↑(interfaces.flatMap entries) := by
    refine rel_flatMap (forall₂_of_common (except_mapM_eq_ok_iff.1 classesMade)
      (except_mapM_eq_ok_iff.1 interfacesMade) ?_)
    intro plan c parts script native
    obtain ⟨points, emitted, same⟩ := except_bind_eq_ok_iff.1 native
    cases same
    simpa using paired_interface script emitted
  simp only [sequences_append, sequences_lines, sequences_flatMap, entries_append, entries_lines,
    entries_entry, entries_flatten, entries_line, entries_nil, List.nil_append, List.append_nil]
  exact rel_append (paired_layout layoutMade) members

/-- The calls of the script are those of the layout initializer and of the members of classes. -/
theorem sequences_scriptParts {p : Progress} {plans : List InterfacePlan} {script : List ScriptPart}
    (scripted : s.scriptParts p plans = .ok script) :
    ∃ classes, plans.mapM s.scriptClass = .ok classes ∧
      sequences script = sequences (s.layoutParts p.slots) ++
        classes.flatMap fun c => (c.members ++ c.ending.toList).flatMap fun m =>
          sequences m.parts := by
  obtain ⟨order, -, scripted⟩ := except_bind_eq_ok_iff.1 scripted
  obtain ⟨records, -, scripted⟩ := except_bind_eq_ok_iff.1 scripted
  obtain ⟨classes, classesMade, same⟩ := except_bind_eq_ok_iff.1 scripted
  cases same
  refine ⟨classes, classesMade, ?_⟩
  simp only [sequences_append, sequences_lines, sequences_flatMap, sequences_class, List.nil_append,
    List.append_nil]

/-- The calls of the script stand in its lines, and no other line calls native code. -/
theorem composed_calls {p : Progress} {plans : List InterfacePlan} {script : List ScriptPart}
    (scripted : s.scriptParts p plans = .ok script) (formed : ∀ c ∈ sequences script, c.Formed) :
    Composed (fun line => ExportLine line ∨ CallFree line) CallBlock
      (script.flatMap ScriptPart.lines) (sequences script) := by
  have idle := idle_scriptParts scripted
  refine composed_script ?_ ?_
  · intro line member
    obtain free | ⟨_, same, exported⟩ := idle _ member
    · exact .inr (Idle.callFree free)
    · cases same
      exact .inl exported
  · intro pad body member
    obtain blank | ⟨_, same, -⟩ := idle _ member
    · exact (formed body (mem_sequences member)).callBlock blank
    · cases same

theorem composed_member (m : ScriptMember) (formed : ∀ c ∈ sequences m.parts, c.Formed) :
    Composed CallFree CallBlock (m.parts.flatMap ScriptPart.lines) (sequences m.parts) :=
  composed_script (fun _ member => Idle.callFree (m.idle_parts _ member)) fun _ body member =>
    (formed body (mem_sequences member)).callBlock (m.idle_parts _ member)

/-- The entry points of the native text are defined in its lines, and no other line is a head. -/
theorem composed_definitions {p : Progress} {plans : List InterfacePlan} {native : List NativePart}
    (natived : s.nativeParts p plans = .ok native) :
    Composed (fun line => CommentLine line ∨ ∀ e, ¬ HeadLine e line) DefinitionBlock
      (native.flatMap NativePart.lines) (entries native) := by
  have points : (p.callbacks.map Sum.inl ++ (entries native).map Sum.inr).filterMap Sum.getRight? =
      entries native := by
    simp [List.filterMap_append, List.filterMap_map, Function.comp_def]
  rw [← points]
  refine (composed_native natived).filterMap (fun line => Or.imp id DefinesNothing.head) ?_ ?_
  · rintro (c | e) point front found made <;> cases found
    exact made
  · rintro (c | e) front found made <;> cases found
    exact fun line member => .inr (ShimBlock.not_headLine made line member)

/-- Two texts with the parts they are made of, in which calls and entry points are paired. -/
structure PairedTexts (s : Session) (p : Progress) (b : Bindings) (script : List ScriptPart)
    (native : List NativePart) (classes : List ScriptClass) : Prop where
  scriptParts : s.scriptParts p p.plans = .ok script
  scriptText : b.script = "\n".intercalate (script.flatMap ScriptPart.lines)
  nativeParts : s.nativeParts p p.plans = .ok native
  nativeText : b.native = "\n".intercalate (native.flatMap NativePart.lines)
  /-- Native code is called in the lines of the call sequences, once in each, and in no other
  line. -/
  calls : Composed (fun line => ExportLine line ∨ CallFree line) CallBlock
    (script.flatMap ScriptPart.lines) (sequences script)
  /-- Entry points are defined in the lines of theirs, once in each, and in no other line. -/
  definitions : Composed (fun line => CommentLine line ∨ ∀ e, ¬ HeadLine e line) DefinitionBlock
    (native.flatMap NativePart.lines) (entries native)
  /-- Only members of classes and the layout initializer call native code. -/
  members : p.plans.mapM s.scriptClass = .ok classes
  callers : sequences script = sequences (s.layoutParts p.slots) ++
    classes.flatMap fun c => (c.members ++ c.ending.toList).flatMap fun m => sequences m.parts
  /-- As often as a name is called with so many arguments, it is defined with so many parameters. -/
  counts : ((sequences script).map fun c => (c.call.entry, c.call.passed.length)).Perm
    ((entries native).map fun e => (e.name, e.parameterTexts.length))
  paired : Multiset.Rel Paired ↑(sequences script) ↑(entries native)
  /-- A receiver is passed by what belongs to an object: never by constructors and static
  members. -/
  receivers : ∀ c ∈ classes, ∀ m ∈ c.members ++ c.ending.toList,
    Composed CallFree CallBlock (m.parts.flatMap ScriptPart.lines) (sequences m.parts) ∧
      ReceiverFits m

/-- Whenever bindings are generated, every native call of the script text has an entry point of its
own in the native text, and every entry point has its call. -/
theorem generated_calls_match_entry_points {b : Bindings} {p₀ p : Progress}
    (generated : s.generate.runFrom p₀ = (.ok b, p)) :
    ∃ script native classes, s.PairedTexts p b script native classes := by
  obtain ⟨script, native, -, scripted, natived, rfl⟩ := runFrom_generate_eq_ok_iff.1 generated
  obtain ⟨classes, made, callers⟩ := sequences_scriptParts scripted
  have paired := paired_parts scripted natived
  have formed : ∀ c ∈ sequences script, c.Formed := by
    intro c called
    obtain ⟨e, -, fits⟩ := Multiset.exists_mem_of_rel_of_mem paired (Multiset.mem_coe.2 called)
    exact fits.formed
  refine ⟨script, native, classes, scripted, rfl, natived, rfl, composed_calls scripted formed,
    composed_definitions natived, made, callers, ?_, paired, ?_⟩
  · rw [← Multiset.coe_eq_coe, ← Multiset.map_coe, ← Multiset.map_coe, ← Multiset.rel_eq,
      Multiset.rel_map]
    refine paired.mono ?_
    intro c _ e _ fits
    rw [fits.name, fits.passed]
  · intro c member m inside
    obtain ⟨plan, -, found⟩ := exists_of_forall₂ (except_mapM_eq_ok_iff.1 made) member
    refine ⟨composed_member m fun b called => formed b ?_, receiverFits_class found m inside⟩
    rw [callers]
    exact List.mem_append_right _
      (List.mem_flatMap.2 ⟨c, member, List.mem_flatMap.2 ⟨m, inside, called⟩⟩)

/-- A shared widget with a callback and a record in its signatures, over a base that stays alive. -/
def widgets : Session where
  declarations :=
    { interfaces :=
        [{ name := "Widget", parent := some "Base", ownership := .shared
           constructors := [[{ name := "title", type := { name := "DOMString" } },
             { name := "size", type := { name := "Size" }, optional := true }]]
           operations := [{ name := "watch", returnType := { name := "Size" }
                            arguments := [{ name := "seen", type := { name := "Seen" } }] }]
           attributes := [{ name := "count", type := { name := "long" }, isStatic := true }] },
         { name := "Base", ownership := .shared, nonDestructible := true }]
      valueTypes :=
        [{ name := "Size", fields := [{ name := "width", type := { name := "Pixels" } }] }]
      callbacks := [{ name := "Seen", returnType := { name := "void" } }]
      typedefs := [{ name := "Pixels", type := { name := "long" } }] }
  options := {}
  distinct := by decide

/-- The lines that lead up to each native call for the widgets, with the call. -/
def widgetCalls : List (List String) :=
  [["var table = _jsbind____layout___0() >> 2;"],
   ["ensureCache.prepare();", "arg0 = ensureString(arg0);", "ret = _jsbind_Widget_Widget_1(arg0);"],
   ["ensureCache.prepare();", "arg0 = ensureString(arg0);", "arg1 = Size.__toNative(arg1);",
    "ret = _jsbind_Widget_Widget_2(arg0, arg1);"],
   ["arg0 = Seen___REGISTRY.tokenFor(arg0);", "ret = _jsbind_Widget_watch_1(self, arg0);"],
   ["let ret = _jsbind_Widget___get_count_0();"],
   ["_jsbind_Widget___set_count_1(arg0);"],
   ["_jsbind_Widget___destroy___0(this.ptr);"]]

/-- The first line of each definition for the widgets. -/
def widgetHeads : List String :=
  ["const int* EMSCRIPTEN_KEEPALIVE jsbind____layout___0() \x7b",
   "std::shared_ptr<Widget>* EMSCRIPTEN_KEEPALIVE jsbind_Widget_Widget_1(const char* arg0) \x7b",
   "std::shared_ptr<Widget>* EMSCRIPTEN_KEEPALIVE " ++
     "jsbind_Widget_Widget_2(const char* arg0, Size* arg1) \x7b",
   "void EMSCRIPTEN_KEEPALIVE jsbind_Widget___destroy___0(std::shared_ptr<Widget>* self) \x7b",
   "Size* EMSCRIPTEN_KEEPALIVE jsbind_Widget_watch_1(std::shared_ptr<Widget>* self, int arg0) \x7b",
   "int EMSCRIPTEN_KEEPALIVE jsbind_Widget___get_count_0() \x7b",
   "void EMSCRIPTEN_KEEPALIVE jsbind_Widget___set_count_1(int arg0) \x7b"]

theorem widgets_calls_match_entry_points :
    ∃ b p, widgets.generate.runFrom {} = (.ok b, p) ∧
      ∃ script native classes, widgets.PairedTexts p b script native classes ∧
        (sequences script).map CallSequence.lines = widgetCalls ∧
        (entries native).filterMap (·.lines.head?) = widgetHeads := by
  obtain ⟨b, p, generated⟩ :=
    ExceptT.exists_runFrom_of_isSome (x := widgets.generate) (p := {}) (by decide +kernel)
  obtain ⟨script, native, classes, texts⟩ := generated_calls_match_entry_points generated
  refine ⟨b, p, generated, script, native, classes, texts, ?_, ?_⟩
  · have calls : (widgets.scriptParts (widgets.generate.runFrom {}).2
        (widgets.generate.runFrom {}).2.plans).toOption.map
          (fun script => (sequences script).map CallSequence.lines) = some widgetCalls := by
      decide +kernel
    rw [generated, texts.scriptParts] at calls
    exact Option.some.inj calls
  · have heads : (widgets.nativeParts (widgets.generate.runFrom {}).2
        (widgets.generate.runFrom {}).2.plans).toOption.map
          (fun native => (entries native).filterMap (·.lines.head?)) = some widgetHeads := by
      decide +kernel
    rw [generated, texts.nativeParts] at heads
    exact Option.some.inj heads

end Session

end NativeBridge
