import NativeBridge.Proofs.Dispatch
import NativeBridge.Proofs.Emission

/-!
# Statements before a call

Strings, sequences and records are passed through a staging buffer, which is made ready once before
the first of them and must not be written to after the call. Whether a marshaling stages is said
apart from the statement that it emits, and methods and setters emit their calls by separate
functions. The statements are read here by their text: those that write to the buffer stand behind
the one that makes it ready and ahead of the call, and there is no other place in a class where they
stand.
-/
namespace NativeBridge

/-! ## Statements that rewrite an argument -/

/-- A function that writes to the staging buffer: for strings, for sequences, and for records. -/
def WritesBuffer (function : String) : Prop :=
  function ∈ ["ensureString", "ensureI8", "ensureI16", "ensureI32", "ensureF32", "ensureF64"] ∨
    ∃ name, function = name ++ ".__toNative"

/-- A statement that puts what is passed for a variable into the variable. It is staged if it writes
to the staging buffer. -/
inductive Rewrites (var : String) : Bool → String → Prop
  | staged (function : String) (writes : WritesBuffer function) :
      Rewrites var true (var ++ " = " ++ function ++ "(" ++ var ++ ");")
  | handle : Rewrites var false (var ++ " = " ++ var ++ ".ptr;")
  | handleOrNull : Rewrites var false (var ++ " = " ++ var ++ " ? " ++ var ++ ".ptr : 0;")
  | token (name : String) :
      Rewrites var false (var ++ " = " ++ name ++ "___REGISTRY.tokenFor(" ++ var ++ ");")
  | tokenOrNull (name : String) : Rewrites var false
      (var ++ " = " ++ var ++ " ? " ++ name ++ "___REGISTRY.tokenFor(" ++ var ++ ") : 0;")

/-- A statement that writes to the staging buffer for some argument. -/
def Stages (text : String) : Prop := ∃ n, Rewrites (argumentName n) true text

theorem parenthesis_not_mem_argumentName (n : ℕ) : '(' ∉ (argumentName n).toList := by
  rw [toList_argumentName, List.mem_append]
  rintro (word | digit)
  · simp at word
  · exact absurd (isDigit_of_mem_repr digit) (by decide)

/-- The variable of an argument stands first in what rewrites it. -/
theorem Rewrites.head? {n : ℕ} {staged : Bool} {text : String}
    (h : Rewrites (argumentName n) staged text) :
    text.toList.head? = some 'a' := by
  cases h <;> simp [toList_argumentName]

theorem not_stages_of_head? {text : String} (other : text.toList.head? ≠ some 'a') :
    ¬ Stages text := by
  rintro ⟨n, staged⟩
  exact other staged.head?

theorem Stages.exists_eq {text : String} (h : Stages text) :
    ∃ front d, text.toList = front ++ [d, ')', ';'] ∧ d.isDigit = true := by
  obtain ⟨n, staged⟩ := h
  obtain ⟨front, d, ends, digit⟩ := exists_argumentName_eq n
  cases staged with
  | staged function writes =>
    refine ⟨(argumentName n).toList ++ (" = ".toList ++ (function.toList ++ ("(".toList ++ front))),
      d, ?_, digit⟩
    simp [ends]

/-- Only the function that gives the token of a callback ends with this letter. -/
theorem WritesBuffer.exists_eq {function : String} (writes : WritesBuffer function) :
    ∃ front c, function.toList = front ++ [c] ∧ c ≠ 'r' := by
  rcases writes with listed | ⟨name, rfl⟩
  · simp only [List.mem_cons, List.not_mem_nil, or_false] at listed
    rcases listed with rfl | rfl | rfl | rfl | rfl | rfl
    · exact ⟨"ensureStrin".toList, 'g', by simp, by decide⟩
    · exact ⟨"ensureI".toList, '8', by simp, by decide⟩
    · exact ⟨"ensureI1".toList, '6', by simp, by decide⟩
    · exact ⟨"ensureI3".toList, '2', by simp, by decide⟩
    · exact ⟨"ensureF3".toList, '2', by simp, by decide⟩
    · exact ⟨"ensureF6".toList, '4', by simp, by decide⟩
  · exact ⟨name.toList ++ ".__toNativ".toList, 'e', by simp, by decide⟩

theorem Rewrites.not_stages {n : ℕ} {text : String} (h : Rewrites (argumentName n) false text) :
    ¬ Stages text := by
  intro stages
  obtain ⟨front, d, ends, -⟩ := stages.exists_eq
  have last := congrArg List.reverse ends
  cases h with
  | handle => simp at last
  | handleOrNull => simp at last
  | tokenOrNull name => simp at last
  | token name =>
    obtain ⟨k, staged⟩ := stages
    generalize same :
      argumentName n ++ " = " ++ name ++ "___REGISTRY.tokenFor(" ++ argumentName n ++ ");" =
      text at staged
    cases staged with
    | staged function writes =>
      -- the last parenthesis that opens stands between the function and the argument
      have opened : ((argumentName n).toList ++ (" = ".toList ++ (name.toList ++
          "___REGISTRY.tokenFor".toList))) ++ '(' :: ((argumentName n).toList ++ ");".toList) =
          ((argumentName k).toList ++ (" = ".toList ++ function.toList)) ++
            '(' :: ((argumentName k).toList ++ ");".toList) := by
        simpa using congrArg String.toList same
      have closed : ∀ j, '(' ∉ (argumentName j).toList ++ ");".toList := by
        intro j
        rw [List.mem_append, not_or]
        exact ⟨parenthesis_not_mem_argumentName j, by simp⟩
      have functions := (eq_of_append_cons_eq_last (closed n) (closed k) opened).1
      obtain ⟨rest, c, final, other⟩ := writes.exists_eq
      have letter : some 'r' = some c := by
        simpa [final] using congrArg (fun letters => letters.reverse.head?) functions
      exact other (Option.some.inj letter).symm

/-! ## One call -/

/-- What stands before a call for an argument and its position: a statement that rewrites the
variable of that position, or nothing if the argument does not stage. -/
inductive Rewriting : Marshaling × ℕ → Option String → Prop
  | kept {m : Marshaling} {n : ℕ} (unstaged : m.stages = false) : Rewriting (m, n) none
  | rewritten {m : Marshaling} {n : ℕ} {text : String}
      (rewrites : Rewrites (argumentName n) m.stages text) : Rewriting (m, n) (some text)

theorem ScalarKind.writesBuffer {kind : ScalarKind} {helper : String}
    (found : kind.stagingHelper = some helper) : WritesBuffer helper := by
  refine .inl ?_
  cases kind <;> cases found <;> simp

theorem Session.Argued.stagingHelper_eq {s : Session} {element : ScalarKind} {helper : String}
    {flags : Flags} {nullable : Bool}
    (argued : s.Argued (.sequence element helper flags nullable)) :
    element.stagingHelper = some helper := by
  obtain ⟨e, given, passed⟩ := argued
  obtain ⟨⟨base, null, given⟩, -, found⟩ := Session.outcome_argument_eq_ok_iff.1 passed
  obtain rfl : .sequence element = base := Session.classify_base found
  rw [Session.classify] at found
  split at found
  · rename_i known
    cases found
    exact known
  · cases found

theorem Rewrites.of_toList {var text text' : String} {staged : Bool} (h : Rewrites var staged text)
    (same : text.toList = text'.toList) : Rewrites var staged text' := String.toList_inj.1 same ▸ h

/-- A statement writes to the buffer exactly when the marshaling that emits it is said to stage. -/
theorem Session.Argued.rewriting {s : Session} {m : Marshaling} (argued : s.Argued m) (n : ℕ) :
    Rewriting (m, n) (m.conversion (argumentName n)) := by
  cases m with
  | scalar kind flags => exact .kept rfl
  | string flags nullable =>
    exact .rewritten
      ((Rewrites.staged "ensureString" (.inl (by simp))).of_toList (by simp [toString]))
  | sequence element helper flags nullable =>
    exact .rewritten ((Rewrites.staged helper
      (ScalarKind.writesBuffer argued.stagingHelper_eq)).of_toList (by simp [toString]))
  | valueType name cpp slot flags =>
    exact .rewritten ((Rewrites.staged (name ++ ".__toNative") (.inr ⟨name, rfl⟩)).of_toList
      (by simp [toString]))
  | interface name cpp flags nullable | sharedInterface name cpp flags nullable =>
    cases nullable with
    | false => exact .rewritten (Rewrites.handle.of_toList (by simp [toString]))
    | true => exact .rewritten (Rewrites.handleOrNull.of_toList (by simp [toString]))
  | callback name flags nullable =>
    cases nullable with
    | false => exact .rewritten ((Rewrites.token name).of_toList (by simp [toString, registryName]))
    | true =>
      exact .rewritten ((Rewrites.tokenOrNull name).of_toList (by simp [toString, registryName]))

/-- The statements of a call with arguments of some marshalings. The buffer is made ready, once,
exactly when an argument stages. Then the arguments are rewritten in their order, each in its own
variable and at most once, and last comes the call, which is passed these variables and whose result
may be assigned. So whatever writes to the buffer stands behind the statement that makes it ready
and ahead of the call. -/
structure Buffered (ms : List Marshaling) (c : CallSequence) : Prop where
  shape : ∃ rewritings, List.Forall₂ Rewriting ms.zipIdx rewritings ∧
    c.lines = (if ms.any Marshaling.stages then [prepareStatement] else []) ++
      rewritings.reduceOption ++ [c.statement]
  passes : c.call.arguments = argumentNames ms.length
  assigns : c.before ∈ ["", "ret = ", "let ret = "] ∧ c.after = ";"
  once : c.lines.count prepareStatement = if ms.any Marshaling.stages then 1 else 0
  ordered : ∀ front text back, c.lines = front ++ text :: back → Stages text →
    prepareStatement ∈ front ∧ ∃ middle, back = middle ++ [c.statement]

/-- A call is neither an assignment to an argument nor what makes the buffer ready. -/
theorem CallSequence.head?_statement_ne {c : CallSequence}
    (assigns : c.before ∈ ["", "ret = ", "let ret = "]) :
    c.statement.toList.head? ≠ some 'a' ∧ c.statement.toList.head? ≠ some 'e' := by
  rw [c.head?_statement]
  simp only [List.mem_cons, List.not_mem_nil, or_false] at assigns
  rcases assigns with before | before | before <;> simp [before]

theorem not_stages_prepareStatement : ¬ Stages prepareStatement :=
  not_stages_of_head? (by simp [prepareStatement])

/-- Each statement that converts an argument rewrites its variable, staged if the argument
stages. -/
theorem exists_rewrites {s : Session} {ms : List Marshaling} (argued : ∀ m ∈ ms, s.Argued m)
    {text : String}
    (member : text ∈ conversions ms) : ∃ m ∈ ms, ∃ n, Rewrites (argumentName n) m.stages text := by
  obtain ⟨⟨m, n⟩, there, converts⟩ := List.mem_filterMap.1 member
  have passed := List.fst_mem_of_mem_zipIdx there
  have rewriting : Rewriting (m, n) (some text) := converts ▸ (argued m passed).rewriting n
  cases rewriting with
  | rewritten rewrites => exact ⟨m, passed, n, rewrites⟩

/-- The statements of a call by the marshalings of its arguments. -/
def bufferedLines (ms : List Marshaling) (last : String) : List String :=
  (if ms.any Marshaling.stages then [prepareStatement] else []) ++ conversions ms ++ [last]

section

variable {s : Session} {ms : List Marshaling} {last : String} (argued : ∀ m ∈ ms, s.Argued m)
include argued

theorem count_prepareStatement (other : last ≠ prepareStatement) :
    (bufferedLines ms last).count prepareStatement = if ms.any Marshaling.stages then 1 else 0 := by
  have none : prepareStatement ∉ conversions ms := by
    intro member
    obtain ⟨m, -, n, rewrites⟩ := exists_rewrites argued member
    exact absurd rewrites.head? (by simp [prepareStatement])
  rw [bufferedLines, List.count_append, List.count_append, List.count_eq_zero_of_not_mem none,
    List.count_singleton, beq_false_of_ne other]
  split <;> simp

theorem ordered_bufferedLines (quiet : ¬ Stages last) {front back : List String} {text : String}
    (split : bufferedLines ms last = front ++ text :: back) (stages : Stages text) :
    prepareStatement ∈ front ∧ ∃ middle, back = middle ++ [last] := by
  rw [bufferedLines] at split
  rcases List.eq_nil_or_concat back with rfl | ⟨middle, final, rfl⟩
  · have same := List.singleton_inj.1 (List.append_inj' split rfl).2
    exact absurd (same ▸ stages) quiet
  · rw [List.concat_eq_append, ← List.cons_append, ← List.append_assoc] at split
    obtain ⟨before, same⟩ := List.append_inj' split rfl
    refine ⟨?_, middle, by rw [List.concat_eq_append, same]⟩
    by_cases staged : ms.any Marshaling.stages = true
    · rw [if_pos staged] at before
      cases front with
      | nil => exact absurd ((List.cons.inj before).1 ▸ stages) not_stages_prepareStatement
      | cons first rest => exact (List.cons.inj before).1 ▸ List.mem_cons_self
    · -- nothing stages, so no statement that rewrites an argument writes to the buffer
      rw [if_neg staged, List.nil_append] at before
      have member : text ∈ conversions ms := by simp [before]
      obtain ⟨m, passed, n, rewrites⟩ := exists_rewrites argued member
      have unstaged : m.stages = false :=
        Bool.eq_false_iff.2 fun h => staged (List.any_eq_true.2 ⟨m, passed, h⟩)
      rw [unstaged] at rewrites
      exact absurd stages rewrites.not_stages

/-- A call that is prepared and converted by the marshalings of its arguments keeps the buffer in
order. -/
theorem buffered_of_argued {c : CallSequence} (lines : c.lines = bufferedLines ms c.statement)
    (passes : c.call.arguments = argumentNames ms.length)
    (assigns : c.before ∈ ["", "ret = ", "let ret = "] ∧ c.after = ";") : Buffered ms c := by
  obtain ⟨unset, unprepared⟩ := CallSequence.head?_statement_ne assigns.1
  refine ⟨⟨ms.zipIdx.map fun x => x.1.conversion (argumentName x.2), ?_, ?_⟩, passes,
    assigns, ?_, ?_⟩
  · rw [List.forall₂_map_right_iff, List.forall₂_same]
    exact fun x there => (argued x.1 (List.fst_mem_of_mem_zipIdx there)).rewriting x.2
  · have kept :
        (ms.zipIdx.map fun x => x.1.conversion (argumentName x.2)).reduceOption = conversions ms :=
      List.filterMap_map
    rw [lines, kept, bufferedLines]
  · rw [lines]
    refine count_prepareStatement argued fun same => unprepared ?_
    simp [same, prepareStatement]
  · rw [lines]
    exact fun front text back => ordered_bufferedLines argued (not_stages_of_head? unset)

end

/-! ## The calls of members -/

/-- A call goes by the marshalings of its arguments if its parts do. -/
theorem lines_eq_bufferedLines {ms : List Marshaling} {c : CallSequence}
    (prepares : c.prepares = ms.any Marshaling.stages) (converts : c.conversions = conversions ms) :
    c.lines = bufferedLines ms c.statement := by
  rw [CallSequence.lines, CallSequence.lead, prepares, converts, bufferedLines]

namespace Session

variable {s : Session}

theorem bufferedLines_callSequence (owner member : String) (receiver : Option String)
    (assigns : Bool) (o : Overload) : (s.callSequence owner member receiver assigns o).lines =
      bufferedLines o.marshalings (s.callSequence owner member receiver assigns o).statement := by
  rw [CallSequence.lines, lead_callSequence, bufferedLines]

theorem buffered_callSequence {owner member : String} {receiver : Option String} {assigns : Bool}
    {o : Overload} (argued : ∀ a ∈ o.arguments, s.Argued a.marshaling) :
    Buffered o.marshalings (s.callSequence owner member receiver assigns o) := by
  refine buffered_of_argued (List.forall_mem_map.2 argued) (bufferedLines_callSequence ..) ?_
    ⟨?_, rfl⟩
  · simp [callSequence, Overload.arity]
  · cases assigns <;> simp [callSequence]

theorem buffered_branches {owner member : String} {receiver : Option String} {assigns : Bool}
    {g : OverloadGroup} (sendable : s.Sendable g) :
    List.Forall₂ Buffered (g.overloads.map Overload.marshalings)
      ((s.branches owner member receiver assigns g).map (·.body)) := by
  rw [branches_bodies, List.forall₂_map_left_iff, List.forall₂_map_right_iff, List.forall₂_same]
  exact fun o inside => buffered_callSequence (sendable.arguments o inside)

/-- A setter makes one call, for the marshaling of what it is given. -/
theorem exists_setterCall (i : Interface) (a : AttributePlan) (m : Marshaling) :
    ∃ c, sequences (s.setterMember i a m).parts = [c] ∧ c.before = "" ∧ c.after = ";" ∧
      c.call.arguments = argumentNames 1 ∧ c.lines = bufferedLines [m] c.statement := by
  refine ⟨_, ScriptMember.sequences_setter .., rfl, rfl, rfl, lines_eq_bufferedLines ?_ ?_⟩
  · simp
  · cases found : m.conversion (argumentName 0) <;> simp [conversions, found]

theorem buffered_setter {i : Interface} {a : AttributePlan} {m : Marshaling} (argued : s.Argued m) :
    List.Forall₂ Buffered [[m]] (sequences (s.setterMember i a m).parts) := by
  obtain ⟨c, calls, unassigned, ended, passes, lines⟩ := s.exists_setterCall i a m
  rw [calls]
  refine .cons
    (buffered_of_argued (List.forall_mem_singleton.2 argued) lines passes ⟨?_, ended⟩) .nil
  simp [unassigned]

end Session

/-! ## Lines around the calls -/

/-- A line that is not an indented statement that writes to the staging buffer. -/
def QuietLine (line : String) : Prop :=
  ∀ pad text : String, line = pad ++ text → (∀ c ∈ pad.toList, c = ' ') → ¬ Stages text

theorem Stages.isPrefix {text : String} (h : Stages text) : "arg".toList <+: unindented text := by
  obtain ⟨n, staged⟩ := h
  cases staged with
  | staged function writes => simp [unindented, toList_argumentName]

theorem Idle.quietLine {line : String} (idle : Idle line) : QuietLine line := by
  rintro pad text rfl blank stages
  rcases idle with starts | ends
  · have differs := starts "arg" List.mem_cons_self
    rw [unindented_append blank] at differs
    exact not_isPrefix_of_differ differs stages.isPrefix
  · obtain ⟨front, d, same, digit⟩ := stages.exists_eq
    have active := endsActive_of_isDigit digit (front.reverse ++ pad.toList.reverse)
    simp [same, active] at ends

/-- The lines of a call, indented. -/
def IndentedCall (c : CallSequence) (lines : List String) : Prop :=
  ∃ pad : String, Indentation pad ∧ lines = c.lines.map (pad ++ ·)

/-- Lines that are emitted for some parts: the indented lines of their calls, and besides them none
that writes to the staging buffer. -/
def Quiet (parts : List ScriptPart) : Prop :=
  Composed QuietLine IndentedCall (parts.flatMap ScriptPart.lines) (sequences parts)

/-- Whatever the names in idle parts are, nothing but their calls writes to the buffer. -/
theorem quiet_of_idle {parts : List ScriptPart} (idle : ∀ p ∈ parts, p.Idle) : Quiet parts :=
  composed_script (fun _ member => Idle.quietLine (idle _ member)) fun pad _ member =>
    ⟨pad, idle _ member, rfl⟩

namespace Session

variable {s : Session}

/-! ## The calls of a class -/

/-- Getters and `destroy` pass nothing. -/
theorem buffered_bare (s : Session) {c : CallSequence} (prepares : c.prepares = false)
    (converts : c.conversions = []) (passes : c.call.arguments = [])
    (assigns : c.before ∈ ["", "ret = ", "let ret = "] ∧ c.after = ";") : Buffered [] c :=
  buffered_of_argued (s := s) (List.forall_mem_nil _) (lines_eq_bufferedLines prepares converts)
    passes assigns

theorem exists_buffered_getter {i : Interface} {a : AttributePlan} {m : ScriptMember}
    (made : s.getterMember i a = .ok m) {c : CallSequence} (called : c ∈ sequences m.parts) :
    ∃ ms, Buffered ms c := by
  rw [getterMember] at made
  split at made
  · cases made
  · cases made
    rw [ScriptMember.sequences_getter, List.mem_singleton] at called
    subst called
    exact ⟨[], s.buffered_bare rfl rfl rfl ⟨by simp, rfl⟩⟩

theorem exists_buffered_destroy {plan : InterfacePlan} {m : ScriptMember}
    (made : s.destroyMember plan = some m) {c : CallSequence} (called : c ∈ sequences m.parts) :
    ∃ ms, Buffered ms c := by
  rw [destroyMember] at made
  split at made
  · cases made
    rw [ScriptMember.sequences_destroy, List.mem_singleton] at called
    subst called
    exact ⟨[], s.buffered_bare rfl rfl rfl ⟨by simp, rfl⟩⟩
  · split at made
    · cases made
      cases called
    · cases made

/-- The calls of the members of a plan, each for the marshalings of one overload or of one
setter. -/
structure Orderly (s : Session) (plan : InterfacePlan) : Prop where
  constructors : List.Forall₂ Buffered (plan.constructors.overloads.map Overload.marshalings)
    (sequences (s.constructMember plan).parts)
  methods : ∀ g ∈ plan.methods, List.Forall₂ Buffered (g.overloads.map Overload.marshalings)
    (sequences (s.methodMember plan.interface g).parts)
  setters : ∀ a ∈ plan.attributes, ∀ m, a.setter = some m →
    List.Forall₂ Buffered [[m]] (sequences (s.setterMember plan.interface a m).parts)

theorem orderly_of_outcome {i : Interface} {plan : InterfacePlan}
    (planned : (s.planInterface i).outcome = .ok plan) : s.Orderly plan := by
  obtain ⟨-, constructors, methods, attributes, -⟩ := outcome_planInterface_eq_ok_iff.1 planned
  constructor
  · rw [constructMember, ScriptMember.sequences_construct]
    exact buffered_branches (sendable_planConstructors constructors)
  · intro g member
    rw [methodMember, ScriptMember.sequences_method]
    exact buffered_branches (sendable_planOperations methods g member)
  · intro a member m setter
    obtain ⟨decl, -, accessors⟩ := exists_of_forall₂ (plansAttributes_of_outcome attributes) member
    exact buffered_setter ⟨_, _, accessors.outcome_setter setter⟩

/-- A class that has the members of its plan, and in whose lines nothing but calls that keep the
buffer in order writes to it. -/
structure OrderlyClass (s : Session) (plan : InterfacePlan) (c : ScriptClass) : Prop where
  constructors : s.constructMember plan ∈ c.members
  methods : ∀ g ∈ plan.methods, s.methodMember plan.interface g ∈ c.members
  setters :
    ∀ a ∈ plan.attributes, ∀ m, a.setter = some m → s.setterMember plan.interface a m ∈ c.members
  calls : ∀ b ∈ sequences c.parts, ∃ ms, Buffered ms b
  quiet : Quiet c.parts ∧ ∀ m ∈ c.members ++ c.ending.toList, Quiet m.parts

theorem exists_of_forall₂_buffered {calls : List (List Marshaling)} {made : List CallSequence}
    (buffered : List.Forall₂ Buffered calls made) {c : CallSequence} (called : c ∈ made) :
    ∃ ms, Buffered ms c := by
  obtain ⟨ms, -, h⟩ := exists_of_forall₂ buffered called
  exact ⟨ms, h⟩

theorem Orderly.orderlyClass {plan : InterfacePlan} {c : ScriptClass} (h : s.Orderly plan)
    (made : s.scriptClass plan = .ok c) : s.OrderlyClass plan c := by
  obtain ⟨attributes, each, same⟩ := except_bind_eq_ok_iff.1 made
  cases same
  have accessors := except_mapM_eq_ok_iff.1 each
  refine ⟨by simp, fun g member => by simp [List.mem_map_of_mem member], ?_, ?_,
    quiet_of_idle (ScriptClass.idle_parts _), fun m _ => quiet_of_idle m.idle_parts⟩
  · intro a member m setter
    obtain ⟨members, there, emitted⟩ := exists_of_forall₂ accessors.flip member
    obtain ⟨getter, -, same⟩ := except_bind_eq_ok_iff.1 emitted
    cases same
    refine List.mem_append_right _ (List.mem_flatten.2 ⟨_, there, ?_⟩)
    simp [setter]
  · intro b called
    rw [sequences_class, List.mem_flatMap] at called
    obtain ⟨m, member, called⟩ := called
    simp only [List.mem_append, List.mem_cons, List.mem_map, List.mem_flatten] at member
    rcases member with ((rfl | ⟨g, member, rfl⟩) | ⟨members, there, member⟩) | ending
    · exact exists_of_forall₂_buffered h.constructors called
    · exact exists_of_forall₂_buffered (h.methods g member) called
    · obtain ⟨a, declared, emitted⟩ := exists_of_forall₂ accessors there
      obtain ⟨getter, found, same⟩ := except_bind_eq_ok_iff.1 emitted
      cases same
      rcases List.mem_cons.1 member with rfl | set
      · exact exists_buffered_getter found called
      · obtain ⟨m, setter, rfl⟩ := Option.map_eq_some_iff.1 (Option.mem_toList.1 set)
        exact exists_of_forall₂_buffered (h.setters a declared m setter) called
    · exact exists_buffered_destroy (Option.mem_toList.1 ending) called

/-! ## Setters and methods -/

/-- A group has the overload that a callee allows for a number of arguments. -/
theorem Gathers.exists_overload {callees : List Callee} {g : OverloadGroup}
    (h : s.Gathers callees g)
    {c : Callee} (member : c ∈ callees) {n : ℕ} (allowed : n ∈ arityRange c.arguments) :
    ∃ o ∈ g.overloads, o.arity = n ∧ List.Forall₂ s.Plans (c.arguments.take n) o.arguments := by
  obtain ⟨o, inside, rfl⟩ := List.mem_map.1 ((h.arities n).2 ⟨c, member, allowed⟩)
  exact ⟨o, inside, rfl, (h.carries o inside c member allowed).1⟩

theorem Grouped.exists_group {done : List Operation} {groups : List OverloadGroup}
    (h : s.Grouped done groups) {op : Operation} (member : op ∈ done) :
    ∃ g ∈ groups, g.name = op.name := by
  have named : op.name ∈ groups.map (·.name) := by
    rw [h.names, List.mem_eraseDups]
    exact List.mem_map_of_mem member
  exact List.mem_map.1 named

/-- An operation that may be called with its first argument alone has a call for this argument. -/
theorem exists_unaryCall {j : Interface} {plan : InterfacePlan}
    (planned : (s.planInterface j).outcome = .ok plan) {op : Operation} (member : op ∈ j.operations)
    {x : Argument} (first : op.arguments.head? = some x) (allowed : 1 ∈ arityRange op.arguments)
    {m : Marshaling} (passed : (s.argument x.type x.flags).outcome = .ok m) :
    ∃ g ∈ plan.methods, g.name = op.name ∧ ∃ c ∈ sequences (s.methodMember j g).parts,
      c.call.arguments = argumentNames 1 ∧ c.lines = bufferedLines [m] c.statement := by
  obtain ⟨-, -, methods, -, -⟩ := outcome_planInterface_eq_ok_iff.1 planned
  have grouped := grouped_planOperations methods
  obtain ⟨g, there, named⟩ := grouped.exists_group member
  have callee : op.callee ∈ (namesakes g.name j.operations).map Operation.callee :=
    List.mem_map_of_mem (List.mem_filter.2 ⟨member, by simp [named]⟩)
  obtain ⟨o, inside, arity, plans⟩ := (grouped.gathers g there).exists_overload callee allowed
  have alone : o.marshalings = [m] := by
    rw [Operation.callee, List.take_one, first, Option.toList_some,
      List.forall₂_cons_left_iff] at plans
    obtain ⟨planned, rest, ⟨-, same⟩, others, arguments⟩ := plans
    rw [List.forall₂_nil_left_iff] at others
    rw [passed] at same
    simp [Overload.marshalings, arguments, others, Except.ok.inj same]
  refine ⟨g, there, named, ?_⟩
  rw [methodMember, ScriptMember.sequences_method, branches_bodies]
  refine ⟨_, List.mem_map_of_mem inside, ?_, alone ▸ bufferedLines_callSequence ..⟩
  rw [callSequence, arity]

/-- Two calls that are made behind the same statements. -/
def SameLead (b c : CallSequence) : Prop :=
  ∃ lead, b.lines = lead ++ [b.statement] ∧ c.lines = lead ++ [c.statement]

/-- Wherever an operation may be called with its first argument alone, and this argument is of a
type and its flags, its method makes a call with one argument behind the statements of a given
call. -/
def LeadsMethods (s : Session) (b : CallSequence) (type : TypeExpr) (flags : Flags) : Prop :=
  ∀ (requests : List Request) (j : Interface) (plan : InterfacePlan) (q : Progress),
    (s.planInterface j).runFrom (s.after requests) = (.ok plan, q) →
    ∀ op ∈ j.operations, ∀ x, op.arguments.head? = some x → x.type = type → x.flags = flags →
      1 ∈ arityRange op.arguments →
      ∃ g ∈ plan.methods, g.name = op.name ∧ ∃ c ∈ sequences (s.methodMember j g).parts,
        c.call.arguments = argumentNames 1 ∧ SameLead b c

theorem leadsMethods_of_lines {b : CallSequence} {m : Marshaling} {type : TypeExpr} {flags : Flags}
    (passed : (s.argument type flags).outcome = .ok m)
    (lines : b.lines = bufferedLines [m] b.statement) :
    s.LeadsMethods b type flags := by
  rintro requests j plan q planned op member x first rfl rfl allowed
  obtain ⟨g, there, named, c, called, passes, same⟩ :=
    exists_unaryCall ((steady_planInterface j).outcome_of_after planned) member first allowed passed
  exact ⟨g, there, named, c, called, passes, _, lines, same⟩

/-- Whatever was asked before, the calls of a planned interface use the staging buffer in order: in
each constructor, method and setter, overload by overload, and nowhere else in the class. The setter
of every attribute that has one is called behind the same statements as each method that takes one
argument of the type and flags of the attribute. -/
theorem staging_kept_in_order (s : Session) (requests : List Request) {i : Interface}
    {plan : InterfacePlan}
    {q : Progress} (planned : (s.planInterface i).runFrom (s.after requests) = (.ok plan, q)) :
    s.Orderly plan ∧ (∀ c, s.scriptClass plan = .ok c → s.OrderlyClass plan c) ∧
    ∀ a ∈ i.attributes, a.readOnly = false → ∃ accessors ∈ plan.attributes, accessors.decl = a ∧
      ∃ m, accessors.setter = some m ∧ ∃ b, sequences (s.setterMember i accessors m).parts = [b] ∧
        s.LeadsMethods b a.type a.flags := by
  have outcome := (steady_planInterface i).outcome_of_after planned
  have orderly := orderly_of_outcome outcome
  refine ⟨orderly, fun c made => orderly.orderlyClass made, ?_⟩
  intro a member mutable
  obtain ⟨-, -, -, attributes, -⟩ := outcome_planInterface_eq_ok_iff.1 outcome
  obtain ⟨accessors, there, plans⟩ :=
    exists_of_forall₂ (plansAttributes_of_outcome attributes).flip member
  have setter := plans.setter
  rw [mutable, if_neg Bool.false_ne_true] at setter
  obtain ⟨m, passed, setter⟩ := setter
  obtain ⟨b, calls, -, -, -, lines⟩ := s.exists_setterCall i accessors m
  exact ⟨accessors, there, plans.decl, m, setter, b, calls, leadsMethods_of_lines passed lines⟩

/-- Labels that are given texts, lists, records, functions and each other. -/
def label : Interface where
  name := "Label"
  constructors :=
    [[{ name := "text", type := { name := "DOMString" } },
      { name := "widths", type := { element := some { name := "long" } }, optional := true }]]
  operations :=
    [{ name := "rename", returnType := { name := "void" }
       arguments := [{ name := "text", type := { name := "DOMString", nullable := true } },
                     { name := "done", type := { name := "Renamed" }, optional := true }] },
     { name := "place", returnType := { name := "long" }
       arguments := [{ name := "at", type := { name := "Spot" } },
                     { name := "beside", type := { name := "Label", nullable := true } },
                     { name := "turns", type := { name := "long" } }] }]
  attributes := [{ name := "text", type := { name := "DOMString", nullable := true } }]

def labels : Session where
  declarations :=
    { interfaces := [label]
      valueTypes := [{ name := "Spot", fields := [{ name := "x", type := { name := "long" } }] }]
      callbacks := [{ name := "Renamed", returnType := { name := "void" } }] }
  options := {}
  distinct := by decide

/-- The statements of the calls of a label. -/
def labelLines : List (List String) :=
  [["ensureCache.prepare();", "arg0 = ensureString(arg0);", "ret = _jsbind_Label_Label_1(arg0);"],
   ["ensureCache.prepare();", "arg0 = ensureString(arg0);", "arg1 = ensureI32(arg1);",
    "ret = _jsbind_Label_Label_2(arg0, arg1);"],
   ["ensureCache.prepare();", "arg0 = ensureString(arg0);", "_jsbind_Label_rename_1(self, arg0);"],
   ["ensureCache.prepare();", "arg0 = ensureString(arg0);",
    "arg1 = Renamed___REGISTRY.tokenFor(arg1);", "_jsbind_Label_rename_2(self, arg0, arg1);"],
   ["ensureCache.prepare();", "arg0 = Spot.__toNative(arg0);", "arg1 = arg1 ? arg1.ptr : 0;",
    "ret = _jsbind_Label_place_3(self, arg0, arg1, arg2);"],
   ["let ret = _jsbind_Label___get_text_0(this.ptr);"],
   ["ensureCache.prepare();", "arg0 = ensureString(arg0);",
    "_jsbind_Label___set_text_1(this.ptr, arg0);"],
   ["_jsbind_Label___destroy___0(this.ptr);"]]

theorem label_staging_kept_in_order :
    ∃ plan q c, (labels.planInterface label).runFrom (labels.after [.generate]) = (.ok plan, q) ∧
      labels.scriptClass plan = .ok c ∧ (sequences c.parts).map CallSequence.lines = labelLines ∧
      labels.Orderly plan ∧ labels.OrderlyClass plan c ∧
      ∃ accessors ∈ plan.attributes, ∃ m b, accessors.setter = some m ∧
        sequences (labels.setterMember label accessors m).parts = [b] ∧
        ∃ g ∈ plan.methods, g.name = "rename" ∧
          ∃ d ∈ sequences (labels.methodMember label g).parts, SameLead b d := by
  obtain ⟨plan, q, planned⟩ := ExceptT.exists_runFrom_of_isSome
    (x := labels.planInterface label) (p := labels.after [.generate]) (by decide +kernel)
  obtain ⟨orderly, emitted, setters⟩ := staging_kept_in_order labels [.generate] planned
  have texts :
      ((labels.planInterface label).runFrom (labels.after [.generate])).1.toOption.bind (fun plan =>
      (labels.scriptClass plan).toOption.map fun c => (sequences c.parts).map CallSequence.lines) =
      some labelLines := by
    decide +kernel
  rw [planned] at texts
  obtain ⟨c, found, lines⟩ := Option.map_eq_some_iff.1 texts
  have made := except_toOption_eq_some_iff.1 found
  obtain ⟨accessors, there, -, m, setter, b, calls, leads⟩ := setters _ List.mem_cons_self rfl
  obtain ⟨g, method, named, d, called, -, same⟩ := leads [.generate] label plan q planned _
    List.mem_cons_self _ rfl rfl rfl (by decide)
  exact ⟨plan, q, c, planned, made, lines, orderly, emitted c made, accessors, there, m, b,
    setter, calls, g, method, named, d, called, same⟩

end Session

end NativeBridge
