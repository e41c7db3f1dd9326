import NativeBridge.Proofs.TypeText

/-!
# Types that can be read

The members of a union are found by the word `or` between them, and this word may also be part of a
name. So not every type can be written: a name in a union must not pass for two members. Which types
can be read is said here by the words of their names, and each of them is read from its own printed
form.
-/
namespace NativeBridge.TypeExpr

open Idl Text

variable {s w x : List Char} {t m : TypeExpr}

/-! ## The word between members -/

/-- A text begins with a word and a space if the word is the first piece of several. -/
theorem or_prefix_iff :
    "or ".toList <+: s ↔ ∃ pieces, pieces ≠ [] ∧ cut (· = ' ') s = "or".toList :: pieces := by
  constructor
  · rintro ⟨rest, rfl⟩
    exact ⟨cut (· = ' ') rest, cut_ne_nil _ rest, by simp [cut]⟩
  · rintro ⟨pieces, several, pieces_eq⟩
    have joined := join_cut s
    rw [pieces_eq, join_cons several] at joined
    exact ⟨join [' '] pieces, by rw [← joined]; simp⟩

/-- The separator of a union stands in a text where one of its words is `or`, neither the first nor
the last. -/
theorem or_infix_iff : " or ".toList <:+: s ↔ "or".toList ∈ (cut (· = ' ') s).tail.dropLast := by
  induction s with
  | nil => simp [cut]
  | cons c s ih =>
    rw [List.infix_cons_iff, ih]
    by_cases space : c = ' '
    · subst space
      have here : " or ".toList <+: ' ' :: s ↔ "or ".toList <+: s := by
        exact List.cons_prefix_cons.trans (and_iff_right rfl)
      have cuts : cut (· = ' ') (' ' :: s) = [] :: cut (· = ' ') s := by simp [cut]
      rw [here, cuts, List.tail_cons, or_prefix_iff]
      obtain ⟨first, pieces, same⟩ := List.exists_cons_of_ne_nil (cut_ne_nil (· = ' ') s)
      rw [same]
      cases pieces with
      | nil => simp
      | cons second pieces => simp [eq_comm]
    · have here : ¬ " or ".toList <+: c :: s := fun prefixed =>
        space (List.cons_prefix_cons.1 prefixed).1.symm
      have cuts : (cut (· = ' ') (c :: s)).tail = (cut (· = ' ') s).tail := by
        rw [cut, if_neg (by simpa using space)]
        cases cut (· = ' ') s <;> rfl
      rw [cuts, or_iff_right here]

theorem cut_concat_space (s : List Char) :
    cut (· = ' ') (s ++ [' ']) = cut (· = ' ') s ++ [[]] := by
  induction s with
  | nil => simp [cut]
  | cons c s ih =>
    by_cases space : c = ' '
    · simp [cut, space, ih]
    · obtain ⟨first, pieces, same⟩ := List.exists_cons_of_ne_nil (cut_ne_nil (· = ' ') s)
      simp [cut, space, ih, same]

/-- The last text of a union passes if the separator is not in it. -/
theorem passes_last_iff (flat : Flat w) :
    passes " or ".toList [] 0 w = some 0 ↔ "or".toList ∉ (cut (· = ' ') w).tail.dropLast := by
  rw [flat.passes_iff, ← or_infix_iff, List.infix_iff_prefix_suffix]
  constructor
  · rintro apart ⟨v, here, suffix⟩
    refine apart v suffix ?_ (by simpa using here)
    rintro rfl
    simp at here
  · intro apart v suffix _ here
    exact apart ⟨v, by simpa using here, suffix⟩

/-- A text before another passes if the separator is neither in it nor begins with its last word. -/
theorem passes_before_iff (flat : Flat w) :
    passes " or ".toList (" or ".toList ++ x) 0 w = some 0 ↔
      "or".toList ∉ (cut (· = ' ') w).tail := by
  have more : (cut (· = ' ') w).tail = (cut (· = ' ') (w ++ [' '])).tail.dropLast := by
    rw [cut_concat_space]
    obtain ⟨first, pieces, same⟩ := List.exists_cons_of_ne_nil (cut_ne_nil (· = ' ') w)
    simp [same]
  rw [flat.passes_iff, more, ← or_infix_iff, List.infix_iff_prefix_suffix]
  constructor
  · rintro apart ⟨v, here, suffix⟩
    rcases List.suffix_concat_iff.1 suffix with rfl | ⟨v, rfl, inside⟩
    · simp at here
    · have nonempty : v ≠ [] := by
        rintro rfl
        simp at here
      exact apart v inside nonempty (or_of_space nonempty here (.inr ⟨⟨_, rfl⟩, _, rfl⟩))
  · intro apart v suffix nonempty here
    refine apart ⟨v ++ [' '], or_of_space nonempty here (.inr ⟨⟨_, rfl⟩, _, rfl⟩), ?_⟩
    obtain ⟨u, rfl⟩ := suffix
    exact ⟨u, by simp⟩

/-! ## Legible types -/

/-- The words of a printed name, where a mark belongs to the word before it. Other types have
none. -/
def nameWords (t : TypeExpr) : List (List Char) :=
  if t.name = "" then [] else cut (· = ' ') t.print

/-- Members that the word `or` between them tells apart. In a name before another member only the
first word may be `or`, and in the last name the last word may be `or` too. -/
def Joinable : List TypeExpr → Prop
  | [] => True
  | [m] => "or".toList ∉ m.nameWords.tail.dropLast
  | m :: m' :: ms => "or".toList ∉ m.nameWords.tail ∧ Joinable (m' :: ms)

/-- The types that can be read, by the words of their names. -/
inductive Legible : TypeExpr → Prop
  | name {n : List Char} (q : Bool) (name : isName n = true) :
    Legible { name := String.ofList n, nullable := q }
  | sequence {e : TypeExpr} (q : Bool) (element : Legible e) :
    Legible { element := some e, nullable := q }
  | union {members : List TypeExpr} (q : Bool) (two : 2 ≤ members.length)
    (all : ∀ m ∈ members, Legible m) (joinable : Joinable members) :
    Legible { union := members, nullable := q }

/-- A printed type passes where its words let it. Only names have words that could be in the way. -/
theorem Written.passes_iff (h : Written m) (rest : List Char)
    (forbidden : List (List Char) → List (List Char)) (none : forbidden [] = [])
    (flat : ∀ w, Flat w → (passes " or ".toList rest 0 w = some 0 ↔
      "or".toList ∉ forbidden (cut (· = ' ') w))) :
    passes " or ".toList rest 0 m.print = some 0 ↔ "or".toList ∉ forbidden m.nameWords := by
  by_cases unnamed : m.name = ""
  · have passed := h.between (c := ' ') (by decide) (by decide) (fun _ => unnamed) "or ".toList rest
    rw [nameWords, if_pos unnamed, none]
    exact iff_of_true passed (by simp)
  · rw [nameWords, if_neg unnamed]
    cases h with
    | name q name =>
      rw [print_name]
      exact flat _ ((flat_of_isName name).append (flat_mark q))
    | sequence => exact absurd rfl unnamed
    | union => exact absurd rfl unnamed

theorem divides_iff_joinable {members : List TypeExpr} (nonempty : members ≠ [])
    (all : ∀ m ∈ members, Written m) :
    Divides " or ".toList (members.map print) ↔ Joinable members := by
  induction members with
  | nil => exact absurd rfl nonempty
  | cons m ms ih =>
    obtain ⟨first, others⟩ := List.forall_mem_cons.1 all
    cases ms with
    | nil => exact first.passes_iff [] (fun words => words.tail.dropLast) rfl fun w =>
      passes_last_iff
    | cons m' ms =>
      have here := first.passes_iff (" or ".toList ++ join " or ".toList ((m' :: ms).map print))
        List.tail rfl fun w => passes_before_iff
      exact and_congr here (ih (by simp) others)

theorem written_iff_legible : Written t ↔ Legible t := by
  constructor
  · intro h
    induction h with
    | name q name => exact .name q name
    | sequence q _ ih => exact .sequence q ih
    | union q two all apart ih =>
      exact .union q two ih ((divides_iff_joinable (ne_nil_of_two two) all).1 apart)
  · intro h
    induction h with
    | name q name => exact .name q name
    | sequence q _ ih => exact .sequence q ih
    | union q two _ joinable ih =>
      exact .union q two ih ((divides_iff_joinable (ne_nil_of_two two) ih).2 joinable)

theorem legible_of_ofString {text : String} (read : ofString text = .ok t) : Legible t :=
  written_iff_legible.1 (written_of_parse read)

theorem Legible.ofString_text (h : Legible t) : ofString t.text = .ok t := by
  rw [ofString, text, String.toList_ofList]
  exact (written_iff_legible.2 h).parse_print

/-- A type that is read from some text is legible, and reading its own text gives it back. -/
theorem printed_type_read_back (text : String) (t : TypeExpr) (read : ofString text = .ok t) :
    Legible t ∧ ofString t.text = .ok t := by
  have legible := legible_of_ofString read
  exact ⟨legible, legible.ofString_text⟩

/-- Names with the word `or` at every place where a union allows it. -/
def choices : TypeExpr where
  union :=
    [{ name := "or x", nullable := true }, { element := some { name := "x or", nullable := true } },
     { element := some { name := "a or b" } }, { name := "z or" }]
  nullable := true

def choicesText : String := "(or  x? or x or?[] or sequence < a or b > or z or)?"

/-- A text that holds a name only is read as the name. -/
theorem parse_of_isName (text : List Char) (name : String) (q : Bool)
    (nullable : isNullable text = q)
    (body : bodyText text = name.toList) (words : isName name.toList = true) :
    parse text = .ok { name, nullable := q } := by
  have free := fun c (other : isWord c = false) space => not_mem_of_isName words other space
  have single : unionMembers (bodyText text) = none := by
    rw [body]
    refine unionMembers_eq_none fun first => ?_
    exact free '(' (by decide) (by decide) (List.mem_of_head? first)
  have shape : (sequenceElement (bodyText text)).or (arrayElement (bodyText text)) = none := by
    rw [body, sequenceElement_eq_none (free '<' (by decide) (by decide)),
      arrayElement_eq_none (free ']' (by decide) (by decide))]
    rfl
  refine (parse_name single shape).2 ⟨by rw [body]; exact words, ?_⟩
  rw [body, String.ofList_toList, nullable]

theorem ofString_choices : ofString choicesText = .ok choices := by
  have first := parse_of_isName "or x?".toList "or x" true (by decide) (by decide) (by decide)
  have second :
      parse "x or?[]".toList = .ok { element := some { name := "x or", nullable := true } } :=
    (parse_sequence (by decide) (by decide)).2
      ⟨_, parse_of_isName "x or?".toList "x or" true (by decide) (by decide) (by decide), by decide⟩
  have third : parse "sequence < a or b >".toList = .ok { element := some { name := "a or b" } } :=
    (parse_sequence (by decide) (by decide)).2
      ⟨_, parse_of_isName " a or b ".toList "a or b" false (by decide) (by decide) (by decide),
        by decide⟩
  have last := parse_of_isName "z or".toList "z or" false (by decide) (by decide) (by decide)
  have divided : split " or ".toList "or x? or x or?[] or sequence < a or b > or z or".toList =
      .ok ["or x?".toList, "x or?[]".toList, "sequence < a or b >".toList, "z or".toList] := by
    decide +kernel
  refine (parse_union ?_).2
    ⟨_, _, divided, by decide, .cons first (.cons second (.cons third (.cons last .nil))), ?_⟩
  · decide +kernel
  · decide +kernel

theorem choices_read_back :
    ofString choicesText = .ok choices ∧ Legible choices ∧ ofString choices.text = .ok choices ∧
      choices.text = "(or x? or sequence<x or?> or sequence<a or b> or z or)?" := by
  obtain ⟨legible, back⟩ := printed_type_read_back choicesText choices ofString_choices
  exact ⟨ofString_choices, legible, back, by decide +kernel⟩

end NativeBridge.TypeExpr
