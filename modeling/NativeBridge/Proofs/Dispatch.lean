import Mathlib.Data.List.Find
import NativeBridge.Proofs.EntryNames
import NativeBridge.Proofs.Grouping

/-!
# Dispatch by the number of arguments

A method of a script class has one parameter for each argument of its longest overload. Parameters
that a caller leaves out are undefined, and the body looks at them to find the overload that was
meant. The emitted lines are read back here as a conditional, and running it calls the overload that
the plan selects.
-/
namespace NativeBridge

/-! ## Conditionals as they are read -/

/-- Statements to run when a variable is undefined, the first such variable counting, and statements
to run otherwise. Without tests these are all. -/
structure Conditional where
  tests : List (String × List String)
  otherwise : List String

namespace Conditional

def run (c : Conditional) (undefined : String → Bool) : List String :=
  ((c.tests.find? fun test => undefined test.1).map (·.2)).getD c.otherwise

def addTest (name : String) (statements : List String) (c : Conditional) : Conditional :=
  { c with tests := (name, statements) :: c.tests }

end Conditional

/-- The text between a beginning and an end. -/
def between (front back : String) (text : List Char) : Option String :=
  (front.toList.isPrefixOf? text).bind fun rest => (back.toList.isSuffixOf? rest).map String.ofList

theorem between_append (front middle back : String) :
    between front back (front.toList ++ (middle.toList ++ back.toList)) = some middle := by
  have opened : front.toList.isPrefixOf? (front.toList ++ (middle.toList ++ back.toList)) =
      some (middle.toList ++ back.toList) := List.isPrefixOf?_eq_some_iff_append_eq.2 rfl
  have closed : back.toList.isSuffixOf? (middle.toList ++ back.toList) = some middle.toList :=
    List.isSuffixOf?_eq_some_iff_append_eq.2 rfl
  simp [between, opened, closed]

theorem between_eq_none {front back : String} {text : List Char}
    (other : ¬ front.toList <+: text) : between front back text = none := by
  cases found : front.toList.isPrefixOf? text with
  | none => simp [between, found]
  | some rest => exact absurd ⟨rest, List.isPrefixOf?_eq_some_iff_append_eq.1 found⟩ other

/-- What a line says, however far it is indented. -/
inductive Line where
  | opens (name : String)
  | alternative (name : String)
  | otherwise
  | closes
  | statement (text : String)
  deriving DecidableEq

namespace Line

def ofText (text : List Char) : Line :=
  match between "if (" " === undefined) \x7b" text with
  | some name => .opens name
  | none =>
    match between "\x7d else if (" " === undefined) \x7b" text with
    | some name => .alternative name
    | none =>
      if text = "\x7d else \x7b".toList then .otherwise
      else if text = "\x7d".toList then .closes
      else .statement (String.ofList text)

def read (line : String) : Line := ofText (line.toList.dropWhile (· = ' '))

/-- Statements are gathered under the line before them that is none. Those that come before every
such line are apart. -/
def blocks : List Line → List String × List (Line × List String)
  | [] => ([], [])
  | statement text :: rest => (text :: (blocks rest).1, (blocks rest).2)
  | head :: rest => ([], (head, (blocks rest).1) :: (blocks rest).2)

/-- What stands after the first test: other tests, then the statements for the rest, then the
end. -/
def alternatives : List (Line × List String) → Option Conditional
  | [(otherwise, statements), (closes, [])] => some ⟨[], statements⟩
  | (alternative name, statements) :: rest => (alternatives rest).map (.addTest name statements)
  | _ => none

end Line

/-- Reads lines as statements alone, or as one conditional and nothing else. -/
def Conditional.read (lines : List String) : Option Conditional :=
  match Line.blocks (lines.map Line.read) with
  | (statements, []) => some ⟨[], statements⟩
  | ([], (.opens name, statements) :: rest) =>
    (Line.alternatives rest).map (.addTest name statements)
  | _ => none

/-! ## Reading single lines -/

/-- A text that neither is indented nor could be read as a line of a conditional. -/
def PlainStatement (text : String) : Prop :=
  ∃ c rest, text.toList = c :: rest ∧ c ≠ ' ' ∧ c ≠ 'i' ∧ c ≠ '\x7d'

theorem PlainStatement.append {text : String} (plain : PlainStatement text) (more : String) :
    PlainStatement (text ++ more) := by
  obtain ⟨c, rest, starts, facts⟩ := plain
  exact ⟨c, rest ++ more.toList, by simp [starts], facts⟩

namespace Line

theorem read_indented {pad text : String} (blank : ∀ c ∈ pad.toList, c = ' ')
    (starts : text.toList.head? ≠ some ' ') : read (pad ++ text) = ofText text.toList := by
  rw [read, String.toList_append, List.dropWhile_append_of_pos (by simpa using blank)]
  cases letters : text.toList with
  | nil => rfl
  | cons c rest =>
    rw [letters] at starts
    rw [List.dropWhile_cons_of_neg (by simpa using starts)]

theorem read_statement {pad text : String} (blank : ∀ c ∈ pad.toList, c = ' ')
    (plain : PlainStatement text) : read (pad ++ text) = statement text := by
  obtain ⟨c, rest, letters, noBlank, noTest, noBrace⟩ := plain
  have unopened : ¬ "if (".toList <+: text.toList := by simp [letters, Ne.symm noTest]
  have unbraced : ¬ "\x7d else if (".toList <+: text.toList := by simp [letters, Ne.symm noBrace]
  have noElse : text.toList ≠ "\x7d else \x7b".toList := by simp [letters, noBrace]
  have noEnd : text.toList ≠ "\x7d".toList := by simp [letters, noBrace]
  rw [read_indented blank (by simp [letters, noBlank]), ofText, between_eq_none unopened,
    between_eq_none unbraced]
  simp only [if_neg noElse, if_neg noEnd, String.ofList_toList]

theorem map_read_indent (pad : String) {texts : List String} (blank : ∀ c ∈ pad.toList, c = ' ')
    (plain : ∀ text ∈ texts, PlainStatement text) :
    (indent pad texts).map read = texts.map statement := by
  rw [indent, List.map_map]
  exact List.map_congr_left fun text member => read_statement blank (plain text member)

/-- How the head of a branch is read. -/
def ofGuard (first : Bool) : Option ℕ → Line
  | none => otherwise
  | some guard => if first then opens (argumentName guard) else alternative (argumentName guard)

theorem read_branchHead (first : Bool) (guard : Option ℕ) :
    read (branchHead first guard) = ofGuard first guard := by
  cases guard with
  | none => exact (by decide : read "    \x7d else \x7b" = otherwise)
  | some n =>
    cases first with
    | true =>
      have text : branchHead true (some n) =
          "    " ++ ("if (" ++ (argumentName n ++ " === undefined) \x7b")) := by
        simp [branchHead, ← String.toList_inj, toString]
      rw [text, read_indented (by simp) (by simp), ofText, String.toList_append,
        String.toList_append, between_append]
      rfl
    | false =>
      have text : branchHead false (some n) =
          "    " ++ ("\x7d else if (" ++ (argumentName n ++ " === undefined) \x7b")) := by
        simp [branchHead, ← String.toList_inj, toString]
      rw [text, read_indented (by simp) (by simp), ofText, between_eq_none (by simp),
        String.toList_append, String.toList_append, between_append]
      rfl

/-! ## Reading whole dispatches -/

theorem blocks_statements (texts : List String) (rest : List Line) :
    blocks (texts.map statement ++ rest) = (texts ++ (blocks rest).1, (blocks rest).2) := by
  induction texts with
  | nil => rfl
  | cons text texts ih => simp [blocks, ih]

theorem blocks_ofGuard (first : Bool) (guard : Option ℕ) (rest : List Line) :
    blocks (ofGuard first guard :: rest) =
      ([], (ofGuard first guard, (blocks rest).1) :: (blocks rest).2) := by
  cases guard with
  | none => rfl
  | some n => cases first <;> rfl

end Line

/-- The lines of a dispatch. -/
def dispatchLines (branches : List Branch) : List String :=
  (dispatchParts branches).flatMap ScriptPart.lines

/-- The lines of one branch of several. -/
def Branch.lines (first : Bool) (b : Branch) : List String :=
  branchHead first b.guard :: indent "      " b.body.lines

theorem dispatchLines_single (b : Branch) : dispatchLines [b] = indent "    " b.body.lines := by
  simp [dispatchLines, dispatchParts, ScriptPart.lines]

/-- All branches but the first are written alike. -/
theorem dispatchLines_several (b c : Branch) (rest : List Branch) :
    dispatchLines (b :: c :: rest) =
      b.lines true ++ ((c :: rest).flatMap (Branch.lines false) ++ ["    \x7d"]) := by
  have later : ∀ (branches : List Branch) (k : ℕ), (((branches.zipIdx (k + 1)).flatMap fun x =>
      [ScriptPart.line (branchHead (x.2 = 0) x.1.guard), .calls "      " x.1.body]).flatMap
        ScriptPart.lines) = branches.flatMap (Branch.lines false) := by
    intro branches
    induction branches with
    | nil => exact fun k => rfl
    | cons b rest ih =>
      intro k
      simp [List.zipIdx_cons, ih (k + 1), Branch.lines, ScriptPart.lines]
  simp only [dispatchLines, dispatchParts, List.zipIdx_cons, List.flatMap_append]
  simp [later, Branch.lines, ScriptPart.lines]

/-- How the lines of one branch of several are read. -/
def Branch.block (first : Bool) (b : Branch) : Line × List String :=
  (Line.ofGuard first b.guard, b.body.lines)

theorem blocks_branch {first : Bool} {b : Branch}
    (plain : ∀ text ∈ b.body.lines, PlainStatement text) {lines : List String}
    {blocks : List (Line × List String)} (rest : Line.blocks (lines.map Line.read) = ([], blocks)) :
    Line.blocks ((b.lines first ++ lines).map Line.read) =
      ([], b.block first :: blocks) := by
  have statements := Line.map_read_indent "      " (by simp) plain
  rw [Branch.lines, List.cons_append, List.map_cons, List.map_append, Line.read_branchHead,
    Line.blocks_ofGuard, statements, Line.blocks_statements, rest]
  simp [Branch.block]

theorem blocks_branches {branches : List Branch}
    (plain : ∀ b ∈ branches, ∀ text ∈ b.body.lines, PlainStatement text) :
    Line.blocks ((branches.flatMap (Branch.lines false) ++ ["    \x7d"]).map Line.read) =
      ([], branches.map (Branch.block false) ++ [(.closes, [])]) := by
  induction branches with
  | nil => exact (by decide : Line.blocks [Line.read "    \x7d"] = ([], [(.closes, [])]))
  | cons b rest ih =>
    obtain ⟨here, later⟩ := List.forall_mem_cons.1 plain
    rw [List.flatMap_cons, List.append_assoc, blocks_branch here (ih later)]
    rfl

/-- The branch that is taken when a parameter is undefined. -/
def Branch.guarded (x : ℕ × CallSequence) : Branch := ⟨some x.1, x.2⟩

/-- The test and the statements that such a branch is read as. -/
def Branch.test (x : ℕ × CallSequence) : String × List String := (argumentName x.1, x.2.lines)

theorem alternatives_branches (front : List (ℕ × CallSequence)) (last : CallSequence) :
    Line.alternatives
      ((front.map Branch.guarded ++ [Branch.mk none last]).map (Branch.block false) ++
        [(.closes, [])]) = some ⟨front.map Branch.test, last.lines⟩ := by
  induction front with
  | nil => rfl
  | cons x front ih =>
    have read : Branch.block false (Branch.guarded x) =
        (Line.alternative (argumentName x.1), x.2.lines) := rfl
    rw [List.map_cons, List.cons_append, List.map_cons, List.cons_append, read,
      Line.alternatives, ih]
    rfl

/-- Branches with guards and one without at the end are read as the conditional that they stand
for. -/
theorem read_dispatchLines {front : List (ℕ × CallSequence)} {last : CallSequence}
    (plain : ∀ x ∈ front, ∀ text ∈ x.2.lines, PlainStatement text)
    (plainLast : ∀ text ∈ last.lines, PlainStatement text) :
    Conditional.read (dispatchLines (front.map Branch.guarded ++ [Branch.mk none last])) =
      some ⟨front.map Branch.test, last.lines⟩ := by
  cases front with
  | nil =>
    have statements := Line.map_read_indent "    " (by simp) plainLast
    have alone := Line.blocks_statements last.lines []
    rw [List.append_nil] at alone
    simp only [List.map_nil, List.nil_append, dispatchLines_single, Conditional.read,
      statements, alone]
    simp [Line.blocks]
  | cons x front =>
    obtain ⟨here, later⟩ := List.forall_mem_cons.1 plain
    have others : ∀ b ∈ front.map Branch.guarded ++ [Branch.mk none last],
        ∀ text ∈ b.body.lines, PlainStatement text :=
      List.forall_mem_append.2 ⟨List.forall_mem_map.2 later, List.forall_mem_singleton.2 plainLast⟩
    obtain ⟨second, rest, several⟩ := List.exists_cons_of_ne_nil
      (l := front.map Branch.guarded ++ [Branch.mk none last]) (by simp)
    have read : Branch.block true (Branch.guarded x) =
        (Line.opens (argumentName x.1), x.2.lines) := rfl
    rw [List.map_cons, List.cons_append, several, dispatchLines_several, ← several,
      Conditional.read, blocks_branch here (blocks_branches others), read]
    change (Line.alternatives _).map _ = _
    rw [alternatives_branches]
    rfl

/-! ## The overload that is called -/

theorem argumentName_injective : Function.Injective argumentName := by
  intro m n same
  have digits : m.repr = n.repr := (String.append_right_inj "arg").1 same
  exact eq_of_repr_eq (congrArg String.toList digits)

namespace OverloadGroup

/-- The overload that a caller means who leaves out the parameters at some positions: the one of
least arity below the greatest whose next parameter is left out, or else the one of the greatest
arity. -/
def Meant (g : OverloadGroup) (missing : ℕ → Bool) (o : Overload) : Prop :=
  o ∈ g.overloads ∧
    ((o.arity < g.maxArity ∧ missing o.arity = true ∧
        ∀ p ∈ g.overloads, p.arity < g.maxArity → missing p.arity = true → o.arity ≤ p.arity) ∨
      (o.arity = g.maxArity ∧ ∀ p ∈ g.overloads, p.arity < g.maxArity → missing p.arity = false))

/-- The overload of least arity that takes so many arguments, or else the one of the greatest
arity. -/
def Nearest (g : OverloadGroup) (argc : ℕ) (o : Overload) : Prop :=
  o ∈ g.overloads ∧
    ((argc ≤ o.arity ∧ ∀ p ∈ g.overloads, argc ≤ p.arity → o.arity ≤ p.arity) ∨
      ((∀ p ∈ g.overloads, p.arity < argc) ∧ ∀ p ∈ g.overloads, p.arity ≤ o.arity))

/-- The overloads of a group in ascending order, with the one of the greatest arity apart. -/
structure Ranked (g : OverloadGroup) (front : List Overload) (last : Overload) : Prop where
  ascending : g.overloads.Pairwise fun o p => o.arity < p.arity
  overloads : g.overloads = front ++ [last]

theorem exists_ranked {g : OverloadGroup}
    (ascending : g.overloads.Pairwise fun o p => o.arity < p.arity)
    (some : g.overloads ≠ []) : ∃ front last, g.Ranked front last := by
  obtain ⟨front, last, overloads⟩ := g.overloads.eq_nil_or_concat.resolve_left some
  exact ⟨front, last, ascending, by rw [overloads, List.concat_eq_append]⟩

namespace Ranked

variable {g : OverloadGroup} {front : List Overload} {last : Overload} (h : g.Ranked front last)
include h

theorem below : ∀ o ∈ front, o.arity < last.arity := by
  have ascending := h.ascending
  rw [h.overloads, List.pairwise_append] at ascending
  exact fun o member => ascending.2.2 o member last (List.mem_singleton_self last)

theorem mem_iff {o : Overload} : o ∈ g.overloads ↔ o ∈ front ∨ o = last := by
  simp [h.overloads]

theorem maxArity : g.maxArity = last.arity := by
  have greatest : (g.overloads.map Overload.arity).max? = some last.arity := by
    rw [List.max?_eq_some_iff, h.overloads]
    refine ⟨by simp, ?_⟩
    simpa [or_imp, forall_and] using fun o member => (h.below o member).le
  rw [OverloadGroup.maxArity, List.foldl_max, greatest]
  simp

theorem arity_le {o : Overload} (member : o ∈ g.overloads) : o.arity ≤ g.maxArity := by
  rw [h.maxArity]
  rcases h.mem_iff.1 member with early | rfl
  · exact (h.below o early).le
  · exact le_rfl

theorem mem_front_iff {o : Overload} : o ∈ front ↔ o ∈ g.overloads ∧ o.arity < g.maxArity := by
  rw [h.mem_iff, h.maxArity]
  constructor
  · exact fun early => ⟨.inl early, h.below o early⟩
  · rintro ⟨early | rfl, below⟩
    · exact early
    · exact absurd below (lt_irrefl _)

theorem dispatch : g.dispatch = front.map (fun o => (some o.arity, o)) ++ [(none, last)] := by
  rw [OverloadGroup.dispatch, h.overloads, List.map_append, h.maxArity]
  congr 1
  · refine List.map_congr_left fun o member => ?_
    rw [if_pos (h.below o member).ne]
  · simp

/-- The first overload of a kind is the one of least arity. -/
theorem find?_least {p : Overload → Bool} {o : Overload} (found : front.find? p = some o) :
    p o = true ∧ o ∈ front ∧ ∀ q ∈ front, p q = true → o.arity ≤ q.arity := by
  obtain ⟨holds, before, after, parts, skipped⟩ := List.find?_eq_some_iff_append.1 found
  refine ⟨holds, List.mem_of_find?_eq_some found, fun q member accepted => ?_⟩
  have ascending := h.ascending
  rw [h.overloads, List.pairwise_append, parts, List.pairwise_append,
    List.pairwise_cons] at ascending
  rw [parts, List.mem_append, List.mem_cons] at member
  rcases member with early | rfl | late
  · exact absurd accepted (by simpa using skipped q early)
  · exact le_rfl
  · exact (ascending.1.2.1.1 q late).le

/-- The first overload that is accepted, or else the last, is the one that is meant. -/
theorem meant (missing : ℕ → Bool) :
    g.Meant missing ((front.find? fun o => missing o.arity).getD last) := by
  cases found : front.find? fun o => missing o.arity with
  | none =>
    refine ⟨h.mem_iff.2 (.inr rfl), .inr ⟨h.maxArity.symm, fun p member below => ?_⟩⟩
    simpa using List.find?_eq_none.1 found p (h.mem_front_iff.2 ⟨member, below⟩)
  | some o =>
    obtain ⟨accepted, early, least⟩ := h.find?_least found
    obtain ⟨member, below⟩ := h.mem_front_iff.1 early
    refine ⟨member, .inl ⟨below, accepted, fun p inside below accepted => ?_⟩⟩
    exact least p (h.mem_front_iff.2 ⟨inside, below⟩) accepted

theorem nearest (argc : ℕ) :
    g.Nearest argc ((front.find? fun o => decide (argc ≤ o.arity)).getD last) := by
  cases found : front.find? fun o => decide (argc ≤ o.arity) with
  | none =>
    have short : ∀ p ∈ front, p.arity < argc := by simpa using List.find?_eq_none.1 found
    refine ⟨h.mem_iff.2 (.inr rfl), ?_⟩
    by_cases enough : argc ≤ last.arity
    · refine .inl ⟨enough, fun p member taken => ?_⟩
      rcases h.mem_iff.1 member with early | rfl
      · exact absurd taken (Nat.not_le.2 (short p early))
      · exact le_rfl
    · refine .inr ⟨fun p member => ?_, fun p member => h.maxArity ▸ h.arity_le member⟩
      have := h.arity_le member
      rw [h.maxArity] at this
      omega
  | some o =>
    obtain ⟨enough, early, least⟩ := h.find?_least found
    refine ⟨(h.mem_front_iff.1 early).1, .inl ⟨by simpa using enough, fun p member taken => ?_⟩⟩
    rcases h.mem_iff.1 member with inFront | rfl
    · exact least p inFront (by simpa using taken)
    · exact (h.below o early).le

theorem select (argc : ℕ) :
    g.select argc = some ((front.find? fun o => decide (argc ≤ o.arity)).getD last) := by
  rw [OverloadGroup.select, h.dispatch, List.find?_append, List.find?_map]
  cases found : front.find? fun o => decide (argc ≤ o.arity) with
  | none => simp [found]
  | some o => simp [found]

/-- An overload is selected by its own arity. -/
theorem select_arity {o : Overload} (member : o ∈ g.overloads) : g.select o.arity = some o := by
  have distinct : (g.overloads.map Overload.arity).Nodup :=
    (List.pairwise_map.2 h.ascending).imp Nat.ne_of_lt
  rw [h.select]
  obtain ⟨inside, ⟨enough, least⟩ | ⟨short, -⟩⟩ := h.nearest o.arity
  · have same := le_antisymm (least o member le_rfl) enough
    rw [List.inj_on_of_nodup_map distinct inside member same]
  · exact absurd (short o member) (lt_irrefl _)

end Ranked

end OverloadGroup

/-! ## What a dispatch does -/

theorem plain_argumentName (n : ℕ) : PlainStatement (argumentName n) := by
  have word : PlainStatement "arg" := ⟨'a', ['r', 'g'], rfl, by decide⟩
  exact word.append n.repr

namespace Session

variable {s : Session}

theorem plain_callSequence {owner member : String} {receiver : Option String} {assigns : Bool}
    {o : Overload} : ∀ text ∈ (s.callSequence owner member receiver assigns o).lines,
      PlainStatement text := by
  intro text inside
  simp only [CallSequence.lines, lead_callSequence, List.mem_append, List.mem_ite_nil_right,
    List.mem_singleton] at inside
  rcases inside with (⟨-, rfl⟩ | converts) | rfl
  · exact ⟨'e', "nsureCache.prepare();".toList, by simp [prepareStatement], by decide⟩
  · obtain ⟨⟨a, n⟩, -, converts⟩ := List.mem_filterMap.1 converts
    obtain ⟨rest, rfl⟩ := Marshaling.exists_conversion_eq converts
    exact (plain_argumentName n).append rest
  · have called : PlainStatement "_" := ⟨'_', [], by simp, by decide⟩
    have assigned : PlainStatement "ret = " := ⟨'r', "et = ".toList, by simp, by decide⟩
    cases assigns with
    | true => exact (assigned.append _).append _
    | false =>
      refine PlainStatement.append ?_ _
      change PlainStatement ("" ++ _)
      rw [String.empty_append]
      exact (((called.append _).append _).append _).append _

/-- A conditional finds the overload that a caller means by looking at the parameters of a method,
and what it runs is the call of that overload. -/
structure Dispatches (g : OverloadGroup) (call : Overload → CallSequence) (c : Conditional) :
    Prop where
  /-- Every overload but one has a test. -/
  size : c.tests.length + 1 = g.overloads.length
  tested : ∀ test ∈ c.tests, test.1 ∈ argumentNames g.maxArity
  meant : ∀ undefined, ∃ o, g.Meant (fun n => undefined (argumentName n)) o ∧
    c.run undefined = (call o).lines
  selected : ∀ argc, ∃ o, g.select argc = some o ∧ g.Nearest argc o ∧
    ∀ undefined, (∀ n < g.maxArity, undefined (argumentName n) = decide (argc ≤ n)) →
      c.run undefined = (call o).lines
  exact : ∀ o ∈ g.overloads, g.select o.arity = some o

theorem branches_of_ranked {g : OverloadGroup} {front : List Overload} {last : Overload}
    (h : g.Ranked front last) (owner member : String) (receiver : Option String) (assigns : Bool) :
    s.branches owner member receiver assigns g =
      (front.map fun o => (o.arity, s.callSequence owner member receiver assigns o)).map
          Branch.guarded ++
            [Branch.mk none (s.callSequence owner member receiver assigns last)] := by
  simp [Session.branches, h.dispatch, Branch.guarded, Function.comp_def]

theorem exists_dispatches {g : OverloadGroup} {owner member : String} {receiver : Option String}
    {assigns : Bool} (ascending : g.overloads.Pairwise fun o p => o.arity < p.arity)
    (some : g.overloads ≠ []) :
    ∃ c, Conditional.read (dispatchLines (s.branches owner member receiver assigns g)) = .some c ∧
      Dispatches g (s.callSequence owner member receiver assigns) c := by
  obtain ⟨front, last, h⟩ := OverloadGroup.exists_ranked ascending some
  let call := s.callSequence owner member receiver assigns
  have ran : ∀ undefined, Conditional.run
      ⟨(front.map fun o => (o.arity, call o)).map Branch.test, (call last).lines⟩ undefined =
        (call ((front.find? fun o => undefined (argumentName o.arity)).getD last)).lines := by
    intro undefined
    rw [Conditional.run, List.map_map, List.find?_map]
    cases found : front.find? fun o => undefined (argumentName o.arity) with
    | none => simp [Function.comp_def, Branch.test, found]
    | some o => simp [Function.comp_def, Branch.test, found]
  rw [branches_of_ranked h, read_dispatchLines
    (List.forall_mem_map.2 fun _ _ => plain_callSequence) plain_callSequence]
  refine ⟨_, rfl, ?_, ?_, ?_, ?_, fun o => h.select_arity⟩
  · simp [h.overloads]
  · simp only [List.map_map, List.forall_mem_map]
    intro o early
    exact List.mem_map_of_mem (List.mem_range.2 (h.mem_front_iff.1 early).2)
  · exact fun undefined => ⟨_, h.meant fun n => undefined (argumentName n), ran undefined⟩
  · refine fun argc => ⟨_, h.select argc, h.nearest argc, fun undefined given => ?_⟩
    rw [ran]
    congr 3
    refine List.find?_congr fun o early => ?_
    exact given o.arity (h.mem_front_iff.1 early).2

/-! ## Members -/

/-- A member of a script class by which the overloads of a group are called. Its parameters stand in
its head. Its body holds a dispatch, and the call of each overload passes on as many of the
parameters as the overload takes. -/
structure CallsAsPlanned (s : Session) (owner member : String) (receiver : Option String)
    (assigns : Bool) (g : OverloadGroup) (head : String) (m : ScriptMember) : Prop where
  emitted : ∃ before after, m.parts.flatMap ScriptPart.lines =
    (head ++ "(" ++ commaSeparated (argumentNames g.maxArity) ++ ") \x7b") ::
      (before ++ dispatchLines (s.branches owner member receiver assigns g) ++ after)
  parameters : (argumentNames g.maxArity).Nodup
  passed : ∀ o ∈ g.overloads, (s.callSequence owner member receiver assigns o).call =
    ⟨s.mangle owner member o.arity, receiver, (argumentNames g.maxArity).take o.arity⟩
  /-- The last statement that is run for an overload calls its entry point. What leads up to it are
  preparations and conversions, and these call nothing. -/
  texts : ∀ o ∈ g.overloads, ∃ lead,
    (∀ line ∈ lead, CallFree line ∧ (line = "ensureCache.prepare();" ∨
      line ∈ (s.callSequence owner member receiver assigns o).conversions)) ∧
    (s.callSequence owner member receiver assigns o).lines =
      lead ++ [(if assigns then "ret = " else "") ++ "_" ++ s.mangle owner member o.arity ++ "(" ++
        ", ".intercalate (receiver.toList ++ (argumentNames g.maxArity).take o.arity) ++ ");"]
  converted : ∀ o ∈ g.overloads,
    ∀ text ∈ (s.callSequence owner member receiver assigns o).conversions,
      ∃ a ∈ o.arguments, ∃ name ∈ (argumentNames g.maxArity).take o.arity,
        a.marshaling.conversion name = some text
  entries : (g.overloads.map fun o => s.mangle owner member o.arity).Nodup
  read :
    ∃ c, Conditional.read (dispatchLines (s.branches owner member receiver assigns g)) = some c ∧
      Dispatches g (s.callSequence owner member receiver assigns) c

theorem take_argumentNames {n count : ℕ} (enough : n ≤ count) :
    (argumentNames count).take n = argumentNames n := by
  rw [argumentNames, ← List.map_take, List.take_range, Nat.min_eq_left enough, argumentNames]

/-- The statements that lead up to a call do not call native code themselves. -/
theorem callFree_lead_callSequence {owner member : String} {receiver : Option String}
    {assigns : Bool} {o : Overload} :
    ∀ line ∈ (s.callSequence owner member receiver assigns o).lead, CallFree line := by
  intro line inside
  rw [lead_callSequence, List.mem_append, List.mem_ite_nil_right, List.mem_singleton] at inside
  rcases inside with ⟨-, rfl⟩ | converts
  · exact Idle.callFree (idle_of_literal rfl)
  · have unindented : Indentation "" := by simp [Indentation]
    have free := callFree_conversions unindented o.marshalings line converts
    rwa [String.empty_append] at free

theorem callsAsPlanned {owner member : String} {receiver : Option String} {assigns : Bool}
    {g : OverloadGroup} {head : String} {m : ScriptMember}
    (ascending : g.overloads.Pairwise fun o p => o.arity < p.arity) (some : g.overloads ≠ [])
    (emitted : ∃ before after, m.parts.flatMap ScriptPart.lines =
      (head ++ "(" ++ commaSeparated (argumentNames g.maxArity) ++ ") \x7b") ::
        (before ++ dispatchLines (s.branches owner member receiver assigns g) ++ after)) :
    s.CallsAsPlanned owner member receiver assigns g head m := by
  obtain ⟨front, last, ranked⟩ := OverloadGroup.exists_ranked ascending some
  refine ⟨emitted, ?_, ?_, ?_, ?_, ?_, exists_dispatches ascending some⟩
  · exact List.nodup_range.map argumentName_injective
  · intro o inside
    rw [take_argumentNames (ranked.arity_le inside)]
    rfl
  · intro o inside
    rw [take_argumentNames (ranked.arity_le inside)]
    refine ⟨_, fun line leads => ⟨callFree_lead_callSequence line leads, ?_⟩,
      s.lines_callSequence owner member receiver assigns o⟩
    rw [CallSequence.lead, List.mem_append, List.mem_ite_nil_right, List.mem_singleton] at leads
    exact leads.imp And.right id
  · intro o inside text converts
    obtain ⟨⟨a, n⟩, numbered, converts⟩ := List.mem_filterMap.1 converts
    rw [take_argumentNames (ranked.arity_le inside)]
    refine ⟨a, List.fst_mem_of_mem_zipIdx numbered, argumentName n, ?_, converts⟩
    exact List.mem_map_of_mem (List.mem_range.2 (List.snd_lt_of_mem_zipIdx numbered))
  · refine List.pairwise_map.2 (ascending.imp fun {o p} below same => ?_)
    exact absurd ((Options.mangle_eq_iff s.options).1 same).2 below.ne

theorem emitted_constructMember {plan : InterfacePlan} (some : plan.constructors.overloads ≠ []) :
    ∃ before after, (s.constructMember plan).parts.flatMap ScriptPart.lines =
      ("  constructor" ++ "(" ++ commaSeparated (argumentNames plan.constructors.maxArity) ++
          ") \x7b") ::
        (before ++ dispatchLines (s.branches plan.interface.name plan.interface.name none true
          plan.constructors) ++ after) := by
  have several :
      s.branches plan.interface.name plan.interface.name none true plan.constructors ≠ [] := by
    simpa [branches, OverloadGroup.dispatch] using some
  refine ⟨["    let ret, obj = Object.create(new.target.prototype);"],
    ["    obj.ptr = ret;", "    " ++ plan.interface.name ++ ".__setCache(obj);", "    return obj;",
      "  \x7d", ""], ?_⟩
  simp [constructMember, ScriptMember.parts, several, ScriptPart.lines, dispatchLines,
    ScriptMember.parameterList, toString]

theorem emitted_methodMember (i : Interface) (g : OverloadGroup) :
    ∃ before after, (s.methodMember i g).parts.flatMap ScriptPart.lines =
      ("  " ++ staticWord g.isStatic ++ g.name ++ "(" ++
        commaSeparated (argumentNames g.maxArity) ++
          ") \x7b") ::
        (before ++
          dispatchLines (s.branches i.name g.name (if g.isStatic then none else some "self")
          g.returns.isSome g) ++ after) := by
  refine ⟨(if g.isStatic then [] else ["    let self = this.ptr;"]) ++
      (if g.returns.isSome then ["    let ret;"] else []),
    (g.returns.map fun m => "    return " ++ m.scriptResult "ret" ++ ";").toList ++
      ["  \x7d", ""], ?_⟩
  cases static : g.isStatic <;> cases returned : g.returns <;>
    simp [methodMember, ScriptMember.parts, static, returned, ScriptPart.lines, dispatchLines,
      ScriptMember.parameterList, toString]

/-- A group that operations are gathered in has an overload. -/
theorem Gathers.ne_nil {callees : List Callee} {g : OverloadGroup} (h : s.Gathers callees g)
    (some : callees ≠ []) : g.overloads ≠ [] := by
  obtain ⟨c, rest, rfl⟩ := List.exists_cons_of_ne_nil some
  have allowed : c.arguments.length ∈ arityRange c.arguments :=
    Finset.mem_Icc.2 ⟨List.countP_le_length, le_rfl⟩
  have member := (h.arities _).2 ⟨c, List.mem_cons_self, allowed⟩
  rw [OverloadGroup.arities] at member
  rintro empty
  simp [empty] at member

/-- Whatever was asked before, the constructor of an interface and each method that is emitted for a
group of its operations read as one conditional over the parameters, and run the overload that the
plan selects. -/
theorem members_call_as_planned (s : Session) (requests : List Request) (i : Interface) :
    (∀ g p, (s.planConstructors i).runFrom (s.after requests) = (.ok g, p) → g.overloads ≠ [] →
      ∀ plan : InterfacePlan, plan.interface = i → plan.constructors = g →
        s.CallsAsPlanned i.name i.name none true g "  constructor" (s.constructMember plan)) ∧
    ∀ groups p, (s.planOperations i).runFrom (s.after requests) = (.ok groups, p) →
      ∀ g ∈ groups, g.overloads ≠ [] ∧
        s.CallsAsPlanned i.name g.name (if g.isStatic then none else some "self") g.returns.isSome g
          ("  " ++ staticWord g.isStatic ++ g.name) (s.methodMember i g) := by
  constructor
  · rintro g p ran some plan rfl rfl
    have gathers := (gathers_planConstructors ((steady_planConstructors _).outcome_of_after ran)).1
    exact callsAsPlanned gathers.ascending some (emitted_constructMember some)
  · intro groups p ran g member
    have grouped := grouped_planOperations ((steady_planOperations i).outcome_of_after ran)
    have gathers := grouped.gathers g member
    have some : g.overloads ≠ [] := by
      refine gathers.ne_nil ?_
      have named : g.name ∈ i.operations.map (·.name) := by
        rw [← List.mem_eraseDups, ← grouped.names]
        exact List.mem_map_of_mem member
      simpa [namesakes] using named
    exact ⟨some, callsAsPlanned gathers.ascending some (emitted_methodMember i g)⟩

/-- How the lines that draw on a canvas choose among its three overloads. -/
def drawLines : List String :=
  ["    if (arg0 === undefined) \x7b",
   "      ret = _jsbind_Canvas_draw_0(self);",
   "    \x7d else if (arg1 === undefined) \x7b",
   "      ret = _jsbind_Canvas_draw_1(self, arg0);",
   "    \x7d else \x7b",
   "      ret = _jsbind_Canvas_draw_2(self, arg0, arg1);",
   "    \x7d"]

theorem canvas_members_call_as_planned :
    ∃ g p groups q,
      (canvases.planConstructors canvas).runFrom (canvases.after []) = (.ok g, p) ∧
      g.overloads.map Overload.arity = [0, 1, 2] ∧
      canvases.CallsAsPlanned "Canvas" "Canvas" none true g "  constructor"
        (canvases.constructMember ⟨canvas, g, [], [], false⟩) ∧
      (canvases.planOperations canvas).runFrom (canvases.after []) = (.ok groups, q) ∧
      ∃ draw ∈ groups, draw.overloads.map Overload.arity = [0, 1, 2] ∧
        dispatchLines (canvases.branches "Canvas" "draw" (some "self") true draw) = drawLines ∧
        canvases.CallsAsPlanned "Canvas" "draw" (some "self") true draw "  draw"
          (canvases.methodMember canvas draw) := by
  obtain ⟨g, p, constructors⟩ := ExceptT.exists_runFrom_of_isSome
    (x := canvases.planConstructors canvas) (p := canvases.after []) (by decide +kernel)
  obtain ⟨groups, q, operations⟩ := ExceptT.exists_runFrom_of_isSome
    (x := canvases.planOperations canvas) (p := canvases.after []) (by decide +kernel)
  have arities : ((canvases.planConstructors canvas).runFrom (canvases.after [])).1.toOption.map
      (fun g => g.overloads.map Overload.arity) = some [0, 1, 2] := by decide +kernel
  have first : ((canvases.planOperations canvas).runFrom (canvases.after [])).1.toOption.bind
      (fun groups => groups.head?.map fun g =>
        (g.name, g.isStatic, g.returns.isSome, g.overloads.map Overload.arity,
          dispatchLines (canvases.branches "Canvas" "draw" (some "self") true g))) =
        some ("draw", false, true, [0, 1, 2], drawLines) := by
    decide +kernel
  rw [constructors] at arities
  rw [operations] at first
  obtain ⟨draw, head, facts⟩ := Option.map_eq_some_iff.1 first
  simp only [Prod.mk.injEq] at facts
  obtain ⟨named, static, returns, ordered, lines⟩ := facts
  have member := List.mem_of_head? head
  have built : g.overloads.map Overload.arity = [0, 1, 2] := Option.some.inj arities
  have planned := members_call_as_planned canvases [] canvas
  have method := (planned.2 groups q operations draw member).2
  rw [named, static, returns] at method
  refine ⟨g, p, groups, q, constructors, built, ?_, operations, draw, member, ordered, lines,
    method⟩
  exact planned.1 g p constructors (by rintro empty; simp [empty] at built) _ rfl rfl

end Session

end NativeBridge
