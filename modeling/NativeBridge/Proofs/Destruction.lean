import NativeBridge.Proofs.Emission
import NativeBridge.Proofs.Grouping
import NativeBridge.Proofs.Independence

/-!
# Destroying objects

An object is destroyed by the nearest `destroy` on the line of classes that its class extends. A
class whose interface can be destroyed has its own, which calls the destructor of that interface.
One whose interface cannot be destroyed hides what it would inherit behind a `destroy` that throws,
and it does so only where there is something to hide. The plan, the class and the native destructor
each decide about this by themselves. What remains are operations that are declared under the name.
-/
namespace NativeBridge

/-! ## Methods of objects called `destroy` -/

namespace ScriptMember

/-- Whether a member gives objects a method called `destroy`. -/
def definesDestroy : ScriptMember → Bool
  | method name isStatic _ _ _ => !isStatic && name = "destroy"
  | destroy .. | refuseDestroy .. => true
  | construct .. | getter .. | setter .. => false

end ScriptMember

/-- The `destroy` that a class defines; of several definitions the last one counts. -/
def ScriptClass.destroy? (c : ScriptClass) : Option ScriptMember :=
  ((c.members ++ c.ending.toList).filter ScriptMember.definesDestroy).getLast?

theorem ScriptClass.destroy?_of_ending {c : ScriptClass} {m : ScriptMember}
    (last : c.ending = some m) (defines : m.definesDestroy) : c.destroy? = some m := by
  simp [destroy?, last, List.filter_cons_of_pos defines]

/-- The nearest `destroy` on a line of classes, and the class that defines it. -/
def nearestDestroy? (chain : List ScriptClass) : Option (ScriptClass × ScriptMember) :=
  chain.findSome? fun c => c.destroy?.map (c, ·)

/-- A class, the class that it extends by its text, and so on up to one that extends none. -/
inductive Inherits (Emitted : ScriptClass → Prop) : ScriptClass → List ScriptClass → Prop
  | top {c : ScriptClass} (emitted : Emitted c) (alone : extendsClause c.parent = "") :
      Inherits Emitted c [c]
  | up {c d : ScriptClass} {chain : List ScriptClass} (emitted : Emitted c)
      (clause : extendsClause c.parent = " extends " ++ d.name) (above : Inherits Emitted d chain) :
      Inherits Emitted c (c :: chain)

namespace Inherits

variable {Emitted : ScriptClass → Prop} {c : ScriptClass} {chain : List ScriptClass}

theorem eq_cons (h : Inherits Emitted c chain) : ∃ above, chain = c :: above := by
  cases h with
  | top => exact ⟨[], rfl⟩
  | up => exact ⟨_, rfl⟩

theorem emitted (h : Inherits Emitted c chain) : ∀ d ∈ chain, Emitted d := by
  induction h with
  | top emitted => simpa using emitted
  | up emitted _ _ ih => exact List.forall_mem_cons.2 ⟨emitted, ih⟩

theorem nearestDestroy?_of_ending (h : Inherits Emitted c chain) {m : ScriptMember}
    (last : c.ending = some m) (defines : m.definesDestroy) :
    nearestDestroy? chain = some (c, m) := by
  obtain ⟨above, rfl⟩ := h.eq_cons
  simp [nearestDestroy?, ScriptClass.destroy?_of_ending last defines]

end Inherits

namespace Session

open Relation (TransGen ReflTransGen)

variable {s : Session} {p : Progress} {plans : List InterfacePlan}

/-! ## Looking for an ancestor that can be destroyed -/

/-- The interface that a declaration extends in its class; an empty name names none. -/
def extended? (s : Session) (parent : Option String) : Option Interface :=
  parent.bind fun name => if name = "" then none else s.interface? name

/-- The search for an ancestor that can be destroyed, round by round. It keeps no record of where it
was, and gives up after some rounds. -/
def searchWithin (s : Session) : ℕ → Option String → Option Bool
  | 0, _ => none
  | rounds + 1, parent =>
    match s.extended? parent with
    | none => some false
    | some p => if !p.nonDestructible then some true else s.searchWithin rounds p.parent

theorem extended?_some {name : String} (named : name ≠ "") :
    s.extended? (some name) = s.interface? name := by
  rw [extended?, Option.bind_some, if_neg named]

theorem extends_of_extended? {i q : Interface} (found : s.extended? i.parent = some q) :
    s.Extends i q := by
  obtain ⟨name, parent, found⟩ := Option.bind_eq_some_iff.1 found
  split_ifs at found
  obtain ⟨declared, named⟩ := interface?_eq_some_iff.1 found
  exact ⟨declared, named ▸ parent⟩

/-- Where no interface is an ancestor of itself, the search ends without having kept a record. -/
theorem searchWithin_eq (acyclic : ∀ i, ¬ TransGen s.Extends i i) {visited : List String}
    {i : Interface} {rounds : ℕ} (enough : unvisited s.interfaceNames visited < rounds)
    (trail : ∀ n ∈ visited, ∃ u ∈ s.declarations.interfaces, u.name = n ∧
      ReflTransGen s.Extends u i) :
    s.searchWithin rounds i.parent = some (s.destroyableFrom visited i.parent) := by
  generalize shown : i.parent = parent
  obtain ⟨rounds, rfl⟩ : ∃ n, rounds = n + 1 := ⟨rounds - 1, by omega⟩
  fun_induction destroyableFrom s visited parent generalizing i rounds with
  | case1 => rfl
  | case2 => rfl
  | case3 visited name named missing =>
    rw [searchWithin, extended?_some named, missing]
  | case4 visited name named p found destructible =>
    rw [searchWithin, extended?_some named, found]
    exact if_pos destructible
  | case5 visited name named p found closed again =>
    have step : s.Extends i p := extends_of_extended? (by rw [shown, extended?_some named, found])
    obtain ⟨u, declared, same, below⟩ := trail p.name again
    have back : u = p := List.inj_on_of_nodup_map s.interface_names_nodup declared step.1 same
    exact absurd (TransGen.tail' (back ▸ below) step) (acyclic p)
  | case6 visited name named p found closed unseen ih =>
    have step : s.Extends i p := extends_of_extended? (by rw [shown, extended?_some named, found])
    have shorter := unvisited_lt (s.mem_interfaceNames found) unseen
    obtain ⟨rounds, rfl⟩ : ∃ n, rounds = n + 1 := ⟨rounds - 1, by omega⟩
    rw [searchWithin, extended?_some named, found]
    refine (if_neg closed).trans (ih ?_ rfl rounds (by omega))
    intro n member
    rcases List.mem_cons.1 member with rfl | old
    · exact ⟨p, step.1, rfl, .refl⟩
    · obtain ⟨u, declared, same, below⟩ := trail n old
      exact ⟨u, declared, same, below.tail step⟩

theorem search_ends (acyclic : ∀ i, ¬ TransGen s.Extends i i) (i : Interface) {rounds : ℕ}
    (enough : s.declarations.interfaces.length < rounds) :
    s.searchWithin rounds i.parent = some (s.destroyableFrom [] i.parent) := by
  refine searchWithin_eq acyclic ?_ (List.forall_mem_nil _)
  rwa [unvisited_nil, interfaceNames, List.length_map]

/-- An ancestor can be destroyed if the parent can, or an ancestor of the parent. -/
theorem destroyableFrom_eq (acyclic : ∀ i, ¬ TransGen s.Extends i i) {i q : Interface}
    (found : s.extended? i.parent = some q) :
    s.destroyableFrom [] i.parent = (!q.nonDestructible || s.destroyableFrom [] q.parent) := by
  have here :=
    search_ends acyclic i (Nat.lt_add_of_pos_right (n := s.declarations.interfaces.length)
    (Nat.succ_pos 1))
  have above := search_ends acyclic q (Nat.lt_succ_self s.declarations.interfaces.length)
  rw [searchWithin, found] at here
  cases closed : q.nonDestructible with
  | false =>
    simp only [closed, Bool.not_false, if_true, Option.some.injEq] at here
    rw [← here, Bool.not_false, Bool.true_or]
  | true =>
    simp only [closed, Bool.not_true, Bool.false_eq_true, if_false, above,
      Option.some.injEq] at here
    rw [← here, Bool.not_true, Bool.false_or]

/-! ## Classes -/

/-- What a class takes from the plan of its interface. A `destroy` among its members is an operation
that is declared under this name. -/
structure ClassOf (s : Session) (plan : InterfacePlan) (c : ScriptClass) : Prop where
  name : c.name = plan.interface.name
  parent : c.parent = plan.interface.parent
  ending : c.ending = s.destroyMember plan
  declared : ∀ m ∈ c.members, m.definesDestroy → ∃ g ∈ plan.methods, g.name = "destroy" ∧
    g.isStatic = false ∧ m = s.methodMember plan.interface g

theorem not_definesDestroy_of_attributeMembers {i : Interface} {a : AttributePlan}
    {members : List ScriptMember} (made : s.attributeMembers i a = .ok members) :
    ∀ m ∈ members, m.definesDestroy = false := by
  obtain ⟨getter, found, same⟩ := except_bind_eq_ok_iff.1 made
  cases same
  refine List.forall_mem_cons.2 ⟨?_, ?_⟩
  · rw [getterMember] at found
    split at found <;> cases found
    rfl
  · intro m member
    obtain ⟨n, -, rfl⟩ := Option.map_eq_some_iff.1 (Option.mem_toList.1 member)
    rfl

theorem classOf_of_scriptClass {plan : InterfacePlan} {c : ScriptClass}
    (made : s.scriptClass plan = .ok c) : s.ClassOf plan c := by
  obtain ⟨attributes, each, same⟩ := except_bind_eq_ok_iff.1 made
  cases same
  refine ⟨rfl, rfl, rfl, ?_⟩
  intro m member defines
  rcases List.mem_append.1 member with first | accessor
  · rcases List.mem_cons.1 first with rfl | method
    · cases defines
    · obtain ⟨g, there, rfl⟩ := List.mem_map.1 method
      have called : g.isStatic = false ∧ g.name = "destroy" := by
        simpa [methodMember, ScriptMember.definesDestroy] using defines
      exact ⟨g, there, called.2, called.1, rfl⟩
  · obtain ⟨members, there, inside⟩ := List.mem_flatten.1 accessor
    obtain ⟨a, -, made⟩ := exists_of_forall₂ (except_mapM_eq_ok_iff.1 each) there
    rw [not_definesDestroy_of_attributeMembers made m inside] at defines
    cases defines

/-- A class that is emitted for one of the plans. -/
def Emits (s : Session) (plans : List InterfacePlan) (c : ScriptClass) : Prop :=
  ∃ plan ∈ plans, s.scriptClass plan = .ok c

/-- The class that a class extends is that of the parent of its interface. -/
theorem Complete.extended?_of_clause (h : s.Complete plans p) {plan above : InterfacePlan}
    {c d : ScriptClass} (here : s.ClassOf plan c) (there : s.ClassOf above d)
    (member : above ∈ plans) (clause : extendsClause c.parent = " extends " ++ d.name) :
    s.extended? plan.interface.parent = some above.interface := by
  rw [here.parent, there.name] at clause
  obtain ⟨parent, named⟩ := extendsClause_eq_iff.1 clause
  rw [parent, extended?_some named]
  exact interface?_eq_some_iff.2 ⟨(h.plans above member).1, rfl⟩

/-- A class is emitted unless its interface has an attribute without a value to read. -/
theorem Complete.exists_scriptClass (h : s.Complete plans p) {plan : InterfacePlan}
    (member : plan ∈ plans) :
    (∃ c, s.scriptClass plan = .ok c) ∨ ∃ a, s.VoidAttribute plan.interface a := by
  cases made : s.scriptClass plan with
  | ok c => exact .inl ⟨c, rfl⟩
  | error failure =>
    obtain ⟨a, void, -⟩ := h.failsOnly_scriptClass member failure made
    exact .inr ⟨a, void⟩

/-- Lines of classes end, unless one of them cannot be emitted. -/
theorem Complete.exists_inherits (h : s.Complete plans p)
    (parents : ∀ i ∈ s.declarations.interfaces, s.LegalParent i) {i : Interface}
    (walks : Acc (fun q i => s.Extends i q) i) {plan : InterfacePlan} (member : plan ∈ plans)
    (planned : plan.interface = i) :
    (∃ c chain, s.scriptClass plan = .ok c ∧ Inherits (s.Emits plans) c chain) ∨
      ∃ j a, ReflTransGen s.Extends i j ∧ s.VoidAttribute j a := by
  induction walks generalizing plan with
  | intro i _ ih =>
    subst planned
    obtain ⟨c, made⟩ | ⟨a, void⟩ := h.exists_scriptClass member
    · have here := classOf_of_scriptClass made
      by_cases alone : extendsClause c.parent = ""
      · exact .inl ⟨c, [c], made, .top ⟨plan, member, made⟩ alone⟩
      · rw [extendsClause_eq_empty_iff, here.parent] at alone
        push Not at alone
        obtain ⟨name, parent, named⟩ := alone
        obtain ⟨q, known, rfl, -⟩ := parents _ (h.plans plan member).1 name parent
        have step : s.Extends plan.interface q := ⟨known, parent⟩
        obtain ⟨above, member', rfl⟩ := h.interfaces q known
        obtain ⟨d, chain, made', line⟩ | ⟨j, a, up, void⟩ := ih _ step member' rfl
        · have clause : extendsClause c.parent = " extends " ++ d.name := by
            rw [here.parent, (classOf_of_scriptClass made').name]
            exact extendsClause_eq_iff.2 ⟨parent, named⟩
          exact .inl ⟨c, c :: chain, made, .up ⟨plan, member, made⟩ clause line⟩
        · exact .inr ⟨j, a, .head step up, void⟩
    · exact .inr ⟨plan.interface, a, .refl, void⟩

theorem Complete.destroyableParent_eq (h : s.Complete plans p) {plan : InterfacePlan}
    (member : plan ∈ plans) :
    plan.destroyableParent = s.destroyableFrom [] plan.interface.parent :=
  (outcome_planInterface_eq_ok_iff.1 (h.plans plan member).2).2.2.2.2

/-- Where neither an interface nor an ancestor of it can be destroyed, no class on the line ends
with a `destroy`. -/
theorem Complete.endings_of_inherits (h : s.Complete plans p)
    (acyclic : ∀ i, ¬ TransGen s.Extends i i) {c : ScriptClass} {chain : List ScriptClass}
    (line : Inherits (s.Emits plans) c chain) {plan : InterfacePlan} (member : plan ∈ plans)
    (made : s.scriptClass plan = .ok c) (closed : plan.interface.nonDestructible = true)
    (hidden : plan.destroyableParent = false) : ∀ d ∈ chain, d.ending = none := by
  induction line generalizing plan with
  | @top c _ _ =>
    intro d member'
    rw [List.mem_singleton.1 member', (classOf_of_scriptClass made).ending]
    simp [destroyMember, closed, hidden]
  | @up c d chain _ clause line ih =>
    refine List.forall_mem_cons.2 ⟨?_, ?_⟩
    · rw [(classOf_of_scriptClass made).ending]
      simp [destroyMember, closed, hidden]
    · obtain ⟨_, rfl⟩ := line.eq_cons
      obtain ⟨above, member', made'⟩ := line.emitted d List.mem_cons_self
      have found := h.extended?_of_clause (classOf_of_scriptClass made)
        (classOf_of_scriptClass made') member' clause
      rw [h.destroyableParent_eq member, destroyableFrom_eq acyclic found,
        ← h.destroyableParent_eq member', Bool.or_eq_false_iff, Bool.not_eq_false'] at hidden
      exact ih member' made' hidden.1 hidden.2

/-! ## What `destroy` does -/

/-- The lines of a `destroy` that calls the destructor of an interface. -/
def destroyLines (s : Session) (i : Interface) : List String :=
  ["", "  destroy() \x7b", "    _" ++ s.mangle i.name "__destroy__" 0 ++ "(this.ptr);",
   "    delete " ++ i.name ++ "___CACHE[this.ptr];", "    delete this.ptr;", "  \x7d"]

/-- The lines of a `destroy` that only throws. -/
def refusalLines (i : Interface) : List String :=
  ["", "  destroy() \x7b", "    throw new Error(\"" ++ i.name ++ " cannot be destroyed\");",
   "  \x7d"]

/-- The destructor of an interface. -/
def destructor (s : Session) (i : Interface) : EntryPoint :=
  { returnType := "void", name := s.mangle i.name "__destroy__" 0, receiver := some i.selfType,
    body := ["delete self;"] }

/-- The lines that define the destructor of an interface. -/
def destructorLines (s : Session) (i : Interface) : List String :=
  ["void EMSCRIPTEN_KEEPALIVE " ++ s.mangle i.name "__destroy__" 0 ++ "(" ++ i.selfType ++
      " self) \x7b",
   "  delete self;", "\x7d", ""]

theorem destroyMember_of_destructible {plan : InterfacePlan}
    (destructible : plan.interface.nonDestructible = false) :
    ∃ m, s.destroyMember plan = some m ∧ m.definesDestroy ∧
      m.parts.flatMap ScriptPart.lines = s.destroyLines plan.interface := by
  refine ⟨_, by simp only [destroyMember, destructible, Bool.not_false, if_true]; rfl, rfl, ?_⟩
  simp [ScriptMember.parts, ScriptPart.lines, CallSequence.lines, CallSequence.lead,
    CallSequence.statement, NativeCall.text, NativeCall.passed,
    commaSeparated, indent, destroyLines, cacheName, destructorName, ← String.toList_inj, toString]

theorem destroyMember_of_hiding {plan : InterfacePlan}
    (closed : plan.interface.nonDestructible = true) (hides : plan.destroyableParent = true) :
    ∃ m, s.destroyMember plan = some m ∧ m.definesDestroy ∧
      m.parts.flatMap ScriptPart.lines = refusalLines plan.interface := by
  refine ⟨.refuseDestroy plan.interface.name, by simp [destroyMember, closed, hides], rfl, ?_⟩
  simp [ScriptMember.parts, ScriptPart.lines, refusalLines, toString]

/-- The destructor is among the entry points of an interface that can be destroyed. -/
theorem destructor_mem_entryPoints {callbacks : List CallbackPlan} {plan : InterfacePlan}
    {points : List EntryPoint} (found : s.entryPoints callbacks plan = .ok points)
    (destructible : plan.interface.nonDestructible = false) :
    s.destructor plan.interface ∈ points := by
  obtain ⟨constructors, -, found⟩ := except_bind_eq_ok_iff.1 found
  obtain ⟨methods, -, found⟩ := except_bind_eq_ok_iff.1 found
  obtain ⟨attributes, -, same⟩ := except_bind_eq_ok_iff.1 found
  cases same
  simp [destructorEntry, destructible, destructor, destructorName]

theorem infix_destructorLines {callbacks : List CallbackPlan} {plan : InterfacePlan}
    {parts : List NativePart} (made : s.interfaceParts callbacks plan = .ok parts)
    (destructible : plan.interface.nonDestructible = false) :
    s.destructorLines plan.interface <:+: parts.flatMap NativePart.lines := by
  obtain ⟨points, found, same⟩ := except_bind_eq_ok_iff.1 made
  cases same
  have entry : NativePart.entry (s.destructor plan.interface) ∈
      [.line s!"// {plan.interface.name}", .line ""] ++ points.map .entry :=
    List.mem_append_right _ (List.mem_map_of_mem (destructor_mem_entryPoints found destructible))
  have lines : (s.destructor plan.interface).lines = s.destructorLines plan.interface := by
    rw [EntryPoint.lines, EntryPoint.head_eq]
    simp [destructor, destructorLines, EntryPoint.parameterTexts, indent, ← String.toList_inj]
  rw [← lines]
  exact infix_flatMap (f := NativePart.lines) entry

theorem Complete.exists_entryPoints (h : s.Complete plans p) {plan : InterfacePlan}
    (member : plan ∈ plans) {c : ScriptClass} (made : s.scriptClass plan = .ok c)
    (destructible : plan.interface.nonDestructible = false) :
    ∃ points lines, s.entryPoints p.callbacks plan = .ok points ∧
      s.destructor plan.interface ∈ points ∧ s.nativeInterface p.callbacks plan = .ok lines ∧
      s.destructorLines plan.interface <:+: lines := by
  cases ends : s.interfaceParts p.callbacks plan with
  | error failure =>
    obtain ⟨a, void, -⟩ := h.failsOnly_interfaceParts member failure ends
    exact absurd made (h.scriptClass_ne_ok member void c)
  | ok parts =>
    obtain ⟨points, found, -⟩ := except_bind_eq_ok_iff.1 ends
    refine ⟨points, parts.flatMap NativePart.lines, found,
      destructor_mem_entryPoints found destructible, ?_, infix_destructorLines ends destructible⟩
    exact except_bind_eq_ok_iff.2 ⟨parts, ends, rfl⟩

/-- What the objects of an interface do when they are destroyed, for the line of classes of their
class. -/
structure Guarded (s : Session) (plans : List InterfacePlan) (p : Progress) (plan : InterfacePlan)
    (c : ScriptClass) (chain : List ScriptClass) : Prop where
  /-- If they can be destroyed, it is by their own class and through their own destructor, which the
  native lines of the interface define. -/
  destroys : plan.interface.nonDestructible = false →
    (∃ m, nearestDestroy? chain = some (c, m) ∧
      m.parts.flatMap ScriptPart.lines = s.destroyLines plan.interface) ∧
    ∃ points lines, s.entryPoints p.callbacks plan = .ok points ∧
      s.destructor plan.interface ∈ points ∧ s.nativeInterface p.callbacks plan = .ok lines ∧
      s.destructorLines plan.interface <:+: lines
  /-- Otherwise their own class throws, or what is called `destroy` in a class on the line is an
  operation that its interface declares under this name. -/
  refuses : plan.interface.nonDestructible = true →
    (∃ m, nearestDestroy? chain = some (c, m) ∧
      m.parts.flatMap ScriptPart.lines = refusalLines plan.interface) ∨
    ∀ d ∈ chain, ∀ m ∈ d.members ++ d.ending.toList, m.definesDestroy →
      ∃ above ∈ plans, above.interface.name = d.name ∧
        (∃ op ∈ above.interface.operations, op.name = "destroy" ∧ op.isStatic = false) ∧
        ∃ g ∈ above.methods, g.name = "destroy" ∧ m = s.methodMember above.interface g

theorem exists_operation_of_group {i : Interface} {groups : List OverloadGroup} {g : OverloadGroup}
    (planned : (s.planOperations i).outcome = .ok groups) (member : g ∈ groups) :
    ∃ op ∈ i.operations, op.name = g.name ∧ op.isStatic = g.isStatic := by
  have grouped := grouped_planOperations planned
  have named : g.name ∈ groups.map (·.name) := List.mem_map_of_mem member
  rw [grouped.names, List.mem_eraseDups] at named
  obtain ⟨op, declared, same⟩ := List.mem_map.1 named
  exact ⟨op, declared, same, (grouped.agree g member op declared same).1⟩

theorem Complete.guarded (h : s.Complete plans p) (acyclic : ∀ i, ¬ TransGen s.Extends i i)
    {plan : InterfacePlan} (member : plan ∈ plans) {c : ScriptClass} {chain : List ScriptClass}
    (made : s.scriptClass plan = .ok c) (line : Inherits (s.Emits plans) c chain) :
    s.Guarded plans p plan c chain := by
  have ending := (classOf_of_scriptClass made).ending
  constructor
  · intro destructible
    obtain ⟨m, last, defines, lines⟩ := destroyMember_of_destructible (s := s) destructible
    exact ⟨⟨m, line.nearestDestroy?_of_ending (ending.trans last) defines, lines⟩,
      h.exists_entryPoints member made destructible⟩
  · intro closed
    cases hides : plan.destroyableParent with
    | true =>
      obtain ⟨m, last, defines, lines⟩ := destroyMember_of_hiding (s := s) closed hides
      exact .inl ⟨m, line.nearestDestroy?_of_ending (ending.trans last) defines, lines⟩
    | false =>
      refine .inr fun d inside m there defines => ?_
      rw [h.endings_of_inherits acyclic line member made closed hides d inside] at there
      obtain ⟨above, member', made'⟩ := line.emitted d inside
      have of := classOf_of_scriptClass made'
      obtain ⟨g, group, named, perObject, rfl⟩ := of.declared m (by simpa using there) defines
      obtain ⟨-, -, methods, -⟩ := outcome_planInterface_eq_ok_iff.1 (h.plans above member').2
      obtain ⟨op, declared, same, static⟩ := exists_operation_of_group methods group
      exact ⟨above, member', of.name.symm, ⟨op, declared, same.trans named, static.trans perObject⟩,
        g, group, named, rfl⟩

/-- Once a session is prepared, whatever was asked before, the search for an ancestor that can be
destroyed has ended for every interface. The classes from that of an interface up to one that
extends none can all be emitted unless one of them has an attribute of type `void`, and then objects
of the interface are destroyed by their own class and destructor or not at all, but for operations
that are declared as `destroy`. -/
theorem destruction_guarded {requests : List Request}
    (prepared : s.prepare.runFrom (s.after requests) = (.ok plans, p)) :
    ∀ i ∈ s.declarations.interfaces, ∃ plan ∈ plans, plan.interface = i ∧
      (∀ rounds, s.declarations.interfaces.length < rounds →
        s.searchWithin rounds i.parent = some plan.destroyableParent) ∧
      ((∃ c chain, s.scriptClass plan = .ok c ∧ Inherits (s.Emits plans) c chain) ∨
        ∃ j a, ReflTransGen s.Extends i j ∧ s.VoidAttribute j a) ∧
      (∀ c chain, s.scriptClass plan = .ok c → Inherits (s.Emits plans) c chain →
        s.Guarded plans p plan c chain ∧
          (∀ script, s.scriptParts p plans = .ok script → ∀ d ∈ chain, d.parts <:+: script) ∧
          ∀ native, s.nativeParts p plans = .ok native → plan.interface.nonDestructible = false →
            s.destructorLines plan.interface <:+: native.flatMap NativePart.lines) := by
  have complete := complete_of_prepare prepared
  obtain ⟨ordered, p₁, p₂, p₃, order, -, -, -, rfl⟩ := runFrom_prepare_eq_ok_iff.1 prepared
  obtain ⟨parents, acyclic⟩ := exists_orderInterfaces_iff.1 ⟨ordered, order⟩
  have placed := placed_of_orderInterfaces order
  intro i declared
  obtain ⟨plan, member, rfl⟩ := complete.interfaces i declared
  refine ⟨plan, member, rfl, fun rounds enough => ?_, ?_, fun c chain made line => ⟨?_, ?_, ?_⟩⟩
  · rw [complete.destroyableParent_eq member]
    exact search_ends acyclic plan.interface enough
  · have walks := placed.first.acc plan.interface ((mem_orderInterfaces order).2 declared)
    exact complete.exists_inherits parents walks member rfl
  · exact complete.guarded acyclic member made line
  · intro script emitted d inside
    obtain ⟨above, member', made'⟩ := line.emitted d inside
    obtain ⟨e, found, held⟩ := (infix_scriptParts emitted).1 above member'
    cases made'.symm.trans found
    exact held
  · intro native emitted destructible
    obtain ⟨parts, found, held⟩ := (infix_nativeParts emitted).1 plan member
    exact (infix_destructorLines found destructible).trans (held.flatMap NativePart.lines)

/-- Pools cannot be destroyed, but they declare an operation under the name. -/
def pool : Interface where
  name := "Pool"
  nonDestructible := true
  operations := [{ name := "destroy", returnType := { name := "void" } }]

def lane : Interface where
  name := "Lane"
  parent := some "Pool"
  nonDestructible := true

/-- Buoys, which can be destroyed, between floats and lanes, which cannot. -/
def moorings : Session where
  declarations :=
    { interfaces := [{ name := "Float", parent := some "Buoy", nonDestructible := true }, lane,
        { name := "Buoy", parent := some "Lane" }, pool] }
  options := {}
  distinct := by decide

theorem moorings_destruction_guarded :
    ∃ plans p, moorings.prepare.runFrom (moorings.after [.generate]) = (.ok plans, p) ∧
      ∀ i ∈ moorings.declarations.interfaces, ∃ plan ∈ plans, plan.interface = i ∧
        moorings.searchWithin 5 i.parent = some plan.destroyableParent ∧
        ∃ c chain, moorings.scriptClass plan = .ok c ∧ Inherits (moorings.Emits plans) c chain ∧
          moorings.Guarded plans p plan c chain := by
  obtain ⟨plans, p, prepared⟩ := ExceptT.exists_runFrom_of_isSome (x := moorings.prepare)
    (p := moorings.after [.generate]) (by decide +kernel)
  refine ⟨plans, p, prepared, fun i declared => ?_⟩
  obtain ⟨plan, member, planned, ends, emitted, guarded⟩ := destruction_guarded prepared i declared
  refine ⟨plan, member, planned, ends 5 (by decide), ?_⟩
  obtain ⟨c, chain, made, line⟩ | ⟨j, a, -, void⟩ := emitted
  · exact ⟨c, chain, made, line, (guarded c chain made line).1⟩
  · have plain : ∀ j ∈ moorings.declarations.interfaces, j.attributes = [] := by decide
    have none := void.member
    rw [plain j void.declared] at none
    cases none

/-- The class of a declared interface, as computed from the declarations alone. -/
theorem Complete.exists_plan_of_class (h : s.Complete plans p) {i : Interface} {c : ScriptClass}
    (declared : i ∈ s.declarations.interfaces)
    (computed : ((s.planInterface i).outcome.toOption.bind
      fun plan => (s.scriptClass plan).toOption) = some c) :
    ∃ plan ∈ plans, plan.interface = i ∧ s.scriptClass plan = .ok c := by
  obtain ⟨plan, member, rfl⟩ := h.interfaces i declared
  refine ⟨plan, member, rfl, ?_⟩
  rw [(h.plans plan member).2] at computed
  exact except_toOption_eq_some_iff.1 computed

def poolDestroy : ScriptMember :=
  .method "destroy" false 0
    [{ guard := none
       body := { call := { entry := "jsbind_Pool_destroy_0", receiver := some "self" } } }]
    none

def poolClass : ScriptClass where
  name := "Pool"
  parent := none
  members := [.construct "Pool" 0 [], poolDestroy]
  ending := none

def laneClass : ScriptClass where
  name := "Lane"
  parent := some "Pool"
  members := [.construct "Lane" 0 []]
  ending := none

/-- Neither lanes nor pools can be destroyed, yet both have a method `destroy` that does not throw:
the operation of pools. -/
theorem lanes_inherit_destroy :
    ∃ plans p, moorings.prepare.runFrom {} = (.ok plans, p) ∧
      (∃ plan ∈ plans, plan.interface = lane ∧ moorings.scriptClass plan = .ok laneClass) ∧
      Inherits (moorings.Emits plans) laneClass [laneClass, poolClass] ∧
      nearestDestroy? [laneClass, poolClass] = some (poolClass, poolDestroy) ∧
      poolDestroy.parts.flatMap ScriptPart.lines =
        ["  destroy() \x7b", "    let self = this.ptr;",
         "    _jsbind_Pool_destroy_0(self);", "  \x7d", ""] := by
  obtain ⟨plans, p, prepared⟩ :=
    ExceptT.exists_runFrom_of_isSome (x := moorings.prepare) (p := {}) (by decide +kernel)
  have complete : moorings.Complete plans p :=
    complete_of_prepare (show moorings.prepare.runFrom (moorings.after []) = _ from prepared)
  obtain ⟨plan, member, planned, made⟩ :=
    complete.exists_plan_of_class (i := lane) (c := laneClass) (by decide) (by decide +kernel)
  obtain ⟨above, member', -, made'⟩ :=
    complete.exists_plan_of_class (i := pool) (c := poolClass) (by decide) (by decide +kernel)
  refine ⟨plans, p, prepared, ⟨plan, member, planned, made⟩, ?_, by decide, by decide +kernel⟩
  exact .up ⟨plan, member, made⟩ (by decide) (.top ⟨above, member', made'⟩ (by decide))

end Session

end NativeBridge
