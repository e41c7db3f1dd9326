import NativeBridge.Proofs.RoundTrip

/-!
# Brackets that match

Splitting counts brackets of all kinds together, and an attribute list is closed by counting square
brackets only. No reader looks at whether an opening bracket is closed by one of its own kind. Still
a source that is read has its brackets properly nested: each reader takes its text apart into
brackets of one kind, words and blanks, and texts that are read in turn.
-/
namespace NativeBridge.Text

variable {α : Type} {s t u v w stack : List Char} {c o e : Char}

/-- The bracket that closes an opening one. -/
def closer? : Char → Option Char
  | '(' => some ')'
  | '[' => some ']'
  | '{' => some '}'
  | '<' => some '>'
  | _ => none

/-- The closing brackets that are due after a text, the next one first. An opening bracket makes its
own closer due, and a closing bracket has to be the one that is due. -/
def due : List Char → List Char → Option (List Char)
  | stack, [] => some stack
  | stack, c :: r =>
    match closer? c with
    | some e => due (e :: stack) r
    | none =>
      if closes c then
        match stack with
        | e :: stack => if c = e then due stack r else none
        | [] => none
      else due stack r

/-- Brackets are properly nested and matched by kind. -/
def Nested (w : List Char) : Prop := due [] w = some []

instance (w : List Char) : Decidable (Nested w) := inferInstanceAs (Decidable (due [] w = some []))

theorem due_opener (kind : closer? c = some e) : due stack (c :: w) = due (e :: stack) w := by
  rw [due.eq_def]
  simp only [kind]

theorem due_closer (opener : closer? e = none) (closer : closes e = true) :
    due (e :: stack) (e :: w) = due stack w := by
  rw [due.eq_def]
  simp only [opener, closer, if_true]

theorem due_plain (flat : opens c = false ∧ closes c = false) :
    due stack (c :: w) = due stack w := by
  have opener : closer? c = none := by
    simp only [opens, Bool.or_eq_false_iff, decide_eq_false_iff_not] at flat
    rw [closer?.eq_def]
    split <;> simp_all
  rw [due.eq_def]
  simp only [opener, flat.2, Bool.false_eq_true, if_false]

theorem due_append (stack u v : List Char) : due stack (u ++ v) = (due stack u).bind (due · v) := by
  induction u generalizing stack with
  | nil => rfl
  | cons c u ih =>
    simp only [List.cons_append, due]
    split
    · exact ih _
    · split
      · split
        · split
          · exact ih _
          · rfl
        · rfl
      · exact ih _

/-- A text that is read never looks at brackets due below those that it closes. -/
theorem due_below {stack' : List Char} (below : List Char) (h : due stack w = some stack') :
    due (stack ++ below) w = some (stack' ++ below) := by
  induction w generalizing stack with
  | nil =>
    cases h
    rfl
  | cons c w ih =>
    simp only [due] at h ⊢
    split at h
    · exact ih h
    · split at h
      · rename_i closer
        rw [if_pos closer]
        split at h
        · rename_i e rest
          split at h
          · rename_i same
            simp only [List.cons_append, if_pos same]
            exact ih h
          · cases h
        · cases h
      · rename_i plain
        rw [if_neg plain]
        exact ih h

theorem Nested.due (h : Nested w) (stack : List Char) : due stack w = some stack :=
  due_below stack h

theorem Nested.append (hu : Nested u) (hv : Nested v) : Nested (u ++ v) := by
  rw [Nested, due_append, hu.due, Option.bind_some, hv.due]

theorem Nested.enclosed (kind : closer? o = some e) (closer : closer? e = none ∧ closes e = true)
    (h : Nested w) : Nested (o :: (w ++ [e])) := by
  rw [Nested, due_opener kind, due_append, h.due, Option.bind_some, due_closer closer.1 closer.2]
  rfl

theorem Flat.nested (flat : Flat w) : Nested w := by
  induction w with
  | nil => rfl
  | cons c w ih =>
    rw [Nested, due_plain (flat c List.mem_cons_self)]
    exact ih flat.tail

theorem Blank.nested (h : Blank w) : Nested w := h.flat.nested

theorem Word.nested (h : Word w) : Nested w := h.flat.nested

/-! ## Blanks do not matter -/

theorem nested_trimLeft (h : Nested (trimLeft w)) : Nested w := by
  have before : Nested (w.takeWhile isBlank) :=
    Blank.nested fun c member => List.mem_takeWhile_imp member
  rw [← List.takeWhile_append_dropWhile (p := isBlank) (l := w)]
  exact before.append h

theorem nested_trim (h : Nested (trim w)) : Nested w := by
  obtain ⟨a, b, whole, before, after⟩ := TypeExpr.exists_trim w
  rw [whole]
  exact before.nested.append (h.append after.nested)

theorem nested_of_trim_eq_nil (blank : trim w = []) : Nested w := by
  apply nested_trim
  rw [blank]
  rfl

theorem due_cons_congr (same : ∀ stack, due stack u = due stack v) (stack : List Char) (c : Char) :
    due stack (c :: u) = due stack (c :: v) := by
  simp only [due, same]

theorem due_squeeze (stack w : List Char) : due stack (squeeze w) = due stack w := by
  have plain :
      ∀ {c : Char}, isBlank c = true → ∀ (stack r : List Char), due stack (c :: r) = due stack r :=
    fun blank _ _ => due_plain (flat_of_class blank (by decide))
  induction w generalizing stack with
  | nil => rfl
  | cons c r ih =>
    cases hc : isBlank c with
    | true => rw [squeeze_blank hc, ih, plain hc]
    | false =>
      cases r with
      | nil => rw [squeeze_singleton hc]
      | cons d r =>
        cases hd : isBlank d with
        | false =>
          rw [squeeze_cons_cons hc hd]
          exact due_cons_congr ih stack c
        | true =>
          rw [squeeze_blank hd] at ih
          rw [squeeze_cons_blank hc hd]
          -- blanks behind `c` are dropped where the text ends, and become one space elsewhere
          split
          · rename_i none
            rw [none] at ih
            exact due_cons_congr ih stack c
          · refine due_cons_congr (fun stack => ?_) stack c
            rw [plain (by decide), ih]

theorem nested_squeeze (h : Nested (squeeze w)) : Nested w := (due_squeeze [] w).symm.trans h

theorem nested_join {sep : List Char} {parts : List (List Char)} (nested : Nested sep)
    (all : ∀ p ∈ parts, Nested p) : Nested (join sep parts) := by
  cases parts with
  | nil => rfl
  | cons p ps => exact join_of_all (fun u v hu hv => hu.append (nested.append hv)) (by simp) all

/-! ## What readers leave -/

theorem eq_of_expect (h : expect c s = some t) : s = c :: t := by
  cases s with
  | nil => cases h
  | cons d r =>
    rw [expect] at h
    split at h
    · rename_i same
      cases h
      rw [same]
    · cases h

theorem eq_of_endingWith (h : endingWith c s = some t) : s = t ++ [c] := by
  rw [endingWith] at h
  split at h
  · rename_i last
    cases h
    exact (List.dropLast_append_getLast? _ last).symm
  · cases h

theorem nested_of_sign (flat : opens c = false ∧ closes c = false)
    (sign : expect c (trimLeft s) = some t) (h : Nested t) : Nested s := by
  apply nested_trimLeft
  rw [eq_of_expect sign, Nested, due_plain flat]
  exact h

/-- What opens and ends with a pair of brackets is nested if what they enclose is. -/
theorem nested_of_expect_endingWith {body : List Char} (kind : closer? o = some e)
    (closer : closer? e = none ∧ closes e = true) (opened : expect o s = some t)
    (ended : endingWith e t = some body) (h : Nested body) : Nested s := by
  rw [eq_of_expect opened, eq_of_endingWith ended]
  exact h.enclosed kind closer

theorem readWord_spec {word rest : List Char} (h : readWord s = some (word, rest)) :
    s = word ++ rest ∧ Word word := by
  rw [readWord] at h
  split at h
  · cases h
  · rename_i nonempty
    cases h
    exact ⟨List.takeWhile_append_dropWhile.symm, nonempty,
      fun c member => List.mem_takeWhile_imp member⟩

theorem nested_of_readWord {word rest : List Char} (h : readWord s = some (word, rest))
    (left : Nested rest) : Nested s := by
  obtain ⟨rfl, isWord⟩ := readWord_spec h
  exact isWord.nested.append left

theorem word_of_wholeWord (h : wholeWord s = some t) : Word s := by
  rw [wholeWord] at h
  split at h
  · rename_i whole
    obtain ⟨nonempty, all⟩ := Bool.and_eq_true_iff.1 whole
    exact ⟨of_decide_eq_true nonempty, List.all_eq_true.1 all⟩
  · cases h

/-- A reader whose text is nested if what it takes out of it is. -/
def Keeps (read : List Char → Option α) (Taken : α → Prop) : Prop :=
  ∀ s a, read s = some a → Taken a → Nested s

section Keeps

variable {read : List Char → Option α} {Taken : α → Prop}

theorem Keeps.afterBlanks (h : Keeps read Taken) : Keeps (afterBlanks read) Taken := by
  intro s a found taken
  induction s with
  | nil => cases found
  | cons c r ih =>
    rw [Text.afterBlanks] at found
    split at found
    · rename_i blank
      have here : Nested [c] := Blank.nested (by simpa [Blank] using blank)
      rcases Option.or_eq_some_iff.1 found with more | ⟨-, rest⟩
      · exact here.append (ih more)
      · exact here.append (h r a rest taken)
    · cases found

theorem Keeps.afterAnyBlanks (h : Keeps read Taken) : Keeps (afterAnyBlanks read) Taken := by
  intro s a found taken
  rcases Option.or_eq_some_iff.1 found with some | ⟨-, none⟩
  · exact h.afterBlanks s a some taken
  · exact h s a none taken

theorem exists_of_shortest {found : List Char × α} (h : shortest read s = some found) :
    ∃ r, s = found.1 ++ r ∧ read r = some found.2 := by
  induction s generalizing found with
  | nil => cases h
  | cons c r ih =>
    rw [shortest] at h
    split at h
    · rename_i a rest
      cases h
      exact ⟨r, rfl, rest⟩
    · obtain ⟨later, there, rfl⟩ := Option.map_eq_some_iff.1 h
      obtain ⟨r', same, rest⟩ := ih there
      exact ⟨r', by rw [same]; rfl, rest⟩

theorem Keeps.shortest (h : Keeps read Taken) :
    Keeps (shortest read) fun found => Nested found.1 ∧ Taken found.2 := by
  rintro s found there ⟨nested, taken⟩
  obtain ⟨r, rfl, rest⟩ := exists_of_shortest there
  exact nested.append (h r _ rest taken)

theorem Keeps.afterKeyword {keyword : String} (word : Word keyword.toList) (h : Keeps read Taken) :
    Keeps (afterKeyword keyword read) Taken := by
  intro s a found taken
  obtain ⟨r, isPrefix, rest⟩ := Option.bind_eq_some_iff.1 found
  rw [← List.isPrefixOf?_eq_some_iff_append_eq.1 isPrefix]
  exact word.nested.append (h.afterBlanks r a rest taken)

theorem Keeps.optionalKeyword {keyword : String} (word : Word keyword.toList)
    (h : Keeps read Taken) :
    Keeps (optionalKeyword keyword read) fun found => Taken found.2 := by
  intro s found there taken
  rcases Option.or_eq_some_iff.1 there with present | ⟨-, absent⟩
  · obtain ⟨a, read, rfl⟩ := Option.map_eq_some_iff.1 present
    exact h.afterKeyword word s a read taken
  · obtain ⟨a, read, rfl⟩ := Option.map_eq_some_iff.1 absent
    exact h s a read taken

theorem keeps_blankWord : Keeps blankWord fun _ => True := by
  intro s w found _
  rw [blankWord.eq_def] at found
  split at found
  · cases found
  · split at found
    · exact nested_trimLeft (word_of_wholeWord found).nested
    · cases found

end Keeps

end NativeBridge.Text

namespace NativeBridge.TypeExpr

open Idl Text

variable {text body inner : List Char} {t : TypeExpr}

/-! ## Types -/

theorem nested_bodyText (h : Nested (bodyText text)) : Nested text := by
  apply nested_squeeze
  rw [bodyText] at h
  split at h
  · rename_i nullable
    have last : (squeeze text).getLast? = some '?' := of_decide_eq_true nullable
    obtain ⟨b, same, blank⟩ := exists_trimRight (squeeze text).dropLast
    rw [← List.dropLast_append_getLast? _ last, same]
    exact (h.append blank.nested).append (by decide)
  · exact h

theorem nested_unionMembers (shape : unionMembers body = some inner) (h : Nested inner) :
    Nested body := by
  rw [unionMembers] at shape
  split at shape
  · rename_i ends
    cases shape
    rw [Bool.and_eq_true_iff, decide_eq_true_eq, decide_eq_true_eq] at ends
    obtain ⟨r, rfl⟩ := List.head?_eq_some_iff.1 ends.1
    cases r with
    | nil => exact absurd ends.2 (by decide)
    | cons d r =>
      rw [List.getLast?_cons_cons] at ends
      rw [List.tail_cons] at h
      rw [← List.dropLast_append_getLast? _ ends.2]
      exact h.enclosed rfl (by decide)
  · cases shape

theorem nested_sequenceElement (shape : sequenceElement body = some inner) (h : Nested inner) :
    Nested body := by
  simp only [sequenceElement, Option.bind_eq_bind, Option.bind_eq_some_iff] at shape
  obtain ⟨r, keyword, opened, open', ended, close, same⟩ := shape
  split at same
  · cases same
  · cases same
    rw [← List.isPrefixOf?_eq_some_iff_append_eq.1 keyword]
    have brackets := nested_of_expect_endingWith rfl (by decide) open' close h
    exact word_sequence.nested.append (nested_trimLeft brackets)

theorem nested_arrayElement (shape : arrayElement body = some inner) (h : Nested inner) :
    Nested body := by
  rw [arrayElement] at shape
  split at shape
  · rename_i r reversed
    cases shape
    rw [← List.reverse_reverse body, reversed, List.reverse_cons, List.reverse_cons,
      List.append_assoc]
    exact h.append (by decide)
  · cases shape

theorem nested_of_parse (read : parse text = .ok t) : Nested text := by
  induction size : text.length using Nat.strong_induction_on generalizing text t with
  | _ n ih =>
    have shorter := bodyText_length_le text
    apply nested_bodyText
    cases union : unionMembers (bodyText text) with
    | some inner =>
      obtain ⟨parts, members, divided, -, all, rfl⟩ := (parse_union union).1 read
      have length := unionMembers_length union
      apply nested_unionMembers union
      have fewer := split_length_le divided
      obtain ⟨-, rfl⟩ := split_or_eq_ok_iff.1 divided
      refine nested_join (by decide) fun p member => ?_
      obtain ⟨m, -, part⟩ := exists_of_forall₂ all.flip member
      have := fewer p member
      exact ih p.length (by omega) part rfl
    | none =>
      cases sequence : (sequenceElement (bodyText text)).or (arrayElement (bodyText text)) with
      | some inner =>
        obtain ⟨e, element, rfl⟩ := (parse_sequence union sequence).1 read
        rcases Option.or_eq_some_iff.1 sequence with listed | ⟨-, array⟩
        · have := sequenceElement_length listed
          exact nested_sequenceElement listed (ih _ (by omega) element rfl)
        · have := arrayElement_length array
          exact nested_arrayElement array (ih _ (by omega) element rfl)
      | none =>
        obtain ⟨name, -⟩ := (parse_name union sequence).1 read
        exact (flat_of_isName name).nested

end NativeBridge.TypeExpr

namespace NativeBridge.Idl

open Text

variable {s text body item : List Char} {attrs : List ExtAttr}

/-! ## Attribute lists and arguments -/

theorem eq_of_readBracket {depth : Nat} {inner rest : List Char}
    (h : readBracket depth s = some (inner, rest)) : s = inner ++ ']' :: rest := by
  induction s generalizing depth inner with
  | nil => cases h
  | cons c r ih =>
    have extend :
        ∀ {d : Nat}, (readBracket d r).map (fun p => (c :: p.1, p.2)) = some (inner, rest) →
        c :: r = inner ++ ']' :: rest := by
      intro d found
      obtain ⟨p, later, same⟩ := Option.map_eq_some_iff.1 found
      cases same
      rw [ih later]
      rfl
    simp only [readBracket] at h
    split at h
    · exact extend h
    · split at h
      · rename_i closing
        split at h
        · cases h
          rw [closing]
          rfl
        · exact extend h
      · exact extend h

/-- Attribute lists that are shorter than `n` are nested if they are read. -/
def ListsNested (n : Nat) : Prop :=
  ∀ inner attrs, inner.length < n → readAttrs inner = .ok attrs → Nested inner

theorem ListsNested.mono {m n : Nat} (h : ListsNested n) (le : m ≤ n) : ListsNested m :=
  fun inner attrs lt => h inner attrs (lt_of_lt_of_le lt le)

theorem nested_of_takeAttrs (lists : ListsNested text.length)
    (taken : takeAttrs text = .ok (attrs, body)) (h : Nested body) : Nested text := by
  have shorter := trim_length_le text
  apply nested_trim
  rw [takeAttrs] at taken
  split at taken
  · cases taken
    exact h
  · rename_i opened start
    split at taken
    · cases taken
    · rename_i inner rest found
      obtain ⟨list, read, same⟩ := except_bind_eq_ok_iff.1 taken
      cases same
      have := expect_length start
      have := readBracket_length found
      have bracket :=
        (lists inner attrs (by omega) read).enclosed (o := '[') (e := ']') rfl (by decide)
      rw [eq_of_expect start, eq_of_readBracket found]
      simpa using bracket.append (nested_trim h)

theorem keeps_argumentShape : Keeps argumentShape fun found => Nested found.2.1 := by
  intro s found shape type
  exact keeps_blankWord.shortest.optionalKeyword (by decide) s found shape ⟨type, trivial⟩

theorem nested_of_readArgument {a : Argument} (lists : ListsNested item.length)
    (read : readArgument item = .ok a) : Nested item := by
  rw [readArgument] at read
  obtain ⟨⟨attrs, body⟩, taken, read⟩ := except_bind_eq_ok_iff.1 read
  apply nested_of_takeAttrs lists taken
  dsimp only at read
  split at read
  · cases read
  · rename_i shape
    obtain ⟨t, type, -⟩ := except_bind_eq_ok_iff.1 read
    exact keeps_argumentShape body _ shape (TypeExpr.nested_of_parse type)

/-- A text is nested if each part between its separators is. -/
theorem nested_of_splitText {c : Char} {parts : List (List Char)}
    (flat : opens c = false ∧ closes c = false)
    (divided : splitText [c] text = .ok parts) (each : ∀ p ∈ parts, Nested p) : Nested text := by
  obtain ⟨-, rfl⟩ := (split_eq_ok_iff flat).1 (TypeExpr.splitText_eq_ok_iff.1 divided)
  exact nested_join (Flat.nested (by simpa [Flat] using flat)) each

/-- Splitting by itself does not tell the kinds apart. -/
example : split [','] "(a],b".toList = .ok ["(a]".toList, "b".toList] ∧
    ¬ Nested "(a],b".toList := by decide

theorem nested_of_readArguments {arguments : List Argument} (lists : ListsNested text.length)
    (read : readArguments text = .ok arguments) : Nested text := by
  rcases readArguments_eq_ok_iff.1 read with ⟨none, -⟩ | ⟨-, items, divided, all, -⟩
  · exact nested_of_trim_eq_nil none
  · refine nested_of_splitText (by decide) divided fun p member => ?_
    obtain ⟨a, -, argument⟩ := exists_of_forall₂ (except_mapM_eq_ok_iff.1 all).flip member
    exact nested_of_readArgument (lists.mono (splitText_length_le divided p member)) argument

theorem nested_of_attrShape {shape : AttrShape} (found : attrShape item = some shape)
    (h : ∀ name arguments, shape = .call name arguments → Nested arguments) : Nested item := by
  rcases Option.or_eq_some_iff.1 found with found | ⟨-, bare⟩
  · rcases Option.or_eq_some_iff.1 found with value | ⟨-, call⟩
    · simp only [valueShape, Option.bind_eq_bind, Option.bind_eq_some_iff] at value
      obtain ⟨⟨name, rest⟩, named, given, sign, value, whole, -⟩ := value
      have after := nested_trimLeft (word_of_wholeWord whole).nested
      exact nested_of_readWord named (nested_of_sign (by decide) sign after)
    · simp only [callShape, Option.bind_eq_bind, Option.bind_eq_some_iff] at call
      obtain ⟨⟨name, rest⟩, named, opened, start, arguments, ended, same⟩ := call
      cases same
      exact nested_of_readWord named (nested_trimLeft
        (nested_of_expect_endingWith rfl (by decide) start ended (h name arguments rfl)))
  · obtain ⟨name, whole, -⟩ := Option.map_eq_some_iff.1 bare
    exact (word_of_wholeWord whole).nested

theorem nested_of_readAttr {a : Option ExtAttr} (lists : ListsNested item.length)
    (read : readAttr item = .ok a) : Nested item := by
  rw [readAttr] at read
  split at read
  · rename_i none
    rw [none]
    rfl
  · split at read
    · rename_i shape
      exact nested_of_attrShape shape (by simp)
    · rename_i name arguments shape
      obtain ⟨list, found, -⟩ := except_bind_eq_ok_iff.1 read
      have shorter := attrShape_call_length shape
      refine nested_of_attrShape shape ?_
      rintro _ _ ⟨⟩
      exact nested_of_readArguments (lists.mono (by omega)) found
    · rename_i shape
      exact nested_of_attrShape shape (by simp)
    · cases read

theorem nested_of_readAttrs (lists : ListsNested text.length) (read : readAttrs text = .ok attrs) :
    Nested text := by
  rw [readAttrs] at read
  split at read
  · cases read
  · rename_i items divided
    obtain ⟨found, all, -⟩ := except_bind_eq_ok_iff.1 read
    rw [except_mapM_attach fun item => readAttr (trim item)] at all
    refine nested_of_splitText (by decide) divided fun p member => ?_
    obtain ⟨a, -, attr⟩ := exists_of_forall₂ (except_mapM_eq_ok_iff.1 all).flip member
    have shorter := (trim_length_le p).trans (splitText_length_le divided p member)
    exact nested_trim (nested_of_readAttr (lists.mono shorter) attr)

/-- A list inside a list is shorter, so lists of every length are nested. -/
theorem listsNested (n : Nat) : ListsNested n := by
  induction n with
  | zero =>
    intro inner attrs none
    exact absurd none (Nat.not_lt_zero _)
  | succ n ih =>
    intro inner attrs shorter read
    exact nested_of_readAttrs (ih.mono (Nat.le_of_lt_succ shorter)) read

/-! ## Members and declarations -/

theorem keeps_attributeShape : Keeps attributeShape fun found => Nested found.2.2.1 := by
  intro s found shape type
  have behind : Keeps (afterKeyword "attribute" (shortest blankWord)) _ :=
    keeps_blankWord.shortest.afterKeyword (by decide)
  exact (behind.optionalKeyword (by decide)).optionalKeyword (by decide) s found shape
    ⟨type, trivial⟩

theorem keeps_parenthesised : Keeps parenthesised Nested := by
  intro s arguments found nested
  obtain ⟨opened, start, ended⟩ := Option.bind_eq_some_iff.1 found
  exact nested_trimLeft (nested_of_expect_endingWith rfl (by decide) start ended nested)

theorem keeps_nameAndArguments : Keeps nameAndArguments fun found => Nested found.2 := by
  intro s found shape arguments
  rw [nameAndArguments.eq_def] at shape
  split at shape
  · cases shape
  · split at shape
    · simp only [Option.bind_eq_bind, Option.bind_eq_some_iff] at shape
      obtain ⟨⟨name, rest⟩, named, inside, list, same⟩ := shape
      cases same
      exact nested_trimLeft
        (nested_of_readWord named (keeps_parenthesised rest inside list arguments))
    · cases shape

theorem keeps_operationShape :
    Keeps operationShape fun found => Nested found.2.1 ∧ Nested found.2.2.2 :=
  keeps_nameAndArguments.shortest.optionalKeyword (by decide)

theorem nested_of_readMember {m : Member} (read : readMember text = .ok m) : Nested text := by
  obtain ⟨⟨attrs, body⟩, taken, read⟩ := except_bind_eq_ok_iff.1 read
  apply nested_of_takeAttrs (listsNested _) taken
  dsimp only at read
  split at read
  · rename_i shape
    obtain ⟨t, type, -⟩ := except_bind_eq_ok_iff.1 read
    exact keeps_attributeShape body _ shape (TypeExpr.nested_of_parse type)
  · split at read
    · rename_i shape
      obtain ⟨t, type, read⟩ := except_bind_eq_ok_iff.1 read
      obtain ⟨list, arguments, -⟩ := except_bind_eq_ok_iff.1 read
      exact keeps_operationShape body _ shape
        ⟨TypeExpr.nested_of_parse type, nested_of_readArguments (listsNested _) arguments⟩
    · cases read

theorem nested_of_readTypedef {t : Typedef} (read : readTypedef body = .ok t) : Nested body := by
  rw [readTypedef] at read
  split at read
  · rename_i shape
    obtain ⟨t, type, -⟩ := except_bind_eq_ok_iff.1 read
    exact keeps_blankWord.shortest.afterKeyword (by decide) body _ shape
      ⟨TypeExpr.nested_of_parse type, trivial⟩
  · cases read

theorem keeps_callbackShape :
    Keeps callbackShape fun found => Nested found.2.1 ∧ Nested found.2.2 := by
  refine Keeps.afterKeyword (by decide) ?_
  intro s found shape taken
  simp only [Option.bind_eq_bind, Option.bind_eq_some_iff] at shape
  obtain ⟨⟨name, rest⟩, named, given, sign, signature, behind, same⟩ := shape
  cases same
  have after := keeps_parenthesised.shortest.afterAnyBlanks given signature behind taken
  exact nested_of_readWord named (nested_of_sign (by decide) sign after)

theorem nested_of_readCallback {c : Callback} (read : readCallback body = .ok c) : Nested body := by
  rw [readCallback] at read
  split at read
  · rename_i shape
    obtain ⟨t, type, read⟩ := except_bind_eq_ok_iff.1 read
    obtain ⟨list, arguments, -⟩ := except_bind_eq_ok_iff.1 read
    exact keeps_callbackShape body _ shape
      ⟨TypeExpr.nested_of_parse type, nested_of_readArguments (listsNested _) arguments⟩
  · cases read

theorem keeps_readParent : Keeps readParent fun found => Nested found.2 := by
  intro s found shape rest
  rw [readParent] at shape
  split at shape
  · cases shape
    exact nested_trimLeft rest
  · rename_i colon
    simp only [Option.bind_eq_bind, Option.bind_eq_some_iff] at shape
    obtain ⟨⟨parent, after⟩, named, same⟩ := shape
    cases same
    have after := nested_trimLeft (nested_of_readWord named (nested_trimLeft rest))
    exact nested_of_sign (by decide) colon after

theorem keeps_interfaceShape : Keeps interfaceShape fun found => Nested found.2.2 := by
  refine Keeps.afterKeyword (by decide) ?_
  intro s found shape members
  simp only [Option.bind_eq_bind, Option.bind_eq_some_iff] at shape
  obtain ⟨⟨name, rest⟩, named, ⟨parent, block⟩, parented, inside, ⟨opened, start, ended⟩,
    same⟩ := shape
  cases same
  have braces := nested_of_expect_endingWith rfl (by decide) start ended members
  exact nested_of_readWord named (keeps_readParent rest _ parented braces)

theorem liftMalformed_eq_ok_iff {α : Type} {x : Except Malformed α} {a : α} :
    liftMalformed x = .ok a ↔ x = .ok a := except_mapError_eq_ok_iff

theorem nested_of_readField {name : String} {a : Attribute} (read : readField name text = .ok a) :
    Nested text := by
  obtain ⟨m, member, -⟩ := except_bind_eq_ok_iff.1 read
  exact nested_of_readMember (liftMalformed_eq_ok_iff.1 member)

/-- What is dropped between statements is blank. -/
theorem nested_of_statements {α ε : Type} {read : List Char → Except ε α} {texts : List (List Char)}
    {found : List α} (divided : statements text = .ok texts) (all : texts.mapM read = .ok found)
    (each : ∀ s a, read s = .ok a → Nested s) : Nested text := by
  obtain ⟨parts, split, same⟩ := except_bind_eq_ok_iff.1 divided
  cases same
  refine nested_of_splitText (by decide) split fun p member => ?_
  by_cases blank : trim p = []
  · exact nested_of_trim_eq_nil blank
  · have kept : p ∈ parts.filter (trim · ≠ []) := List.mem_filter.2 ⟨member, decide_eq_true blank⟩
    obtain ⟨a, -, part⟩ := exists_of_forall₂ (except_mapM_eq_ok_iff.1 all).flip kept
    exact each p a part

theorem nested_of_readInterface {d : Declaration} (read : readInterface attrs body = .ok d) :
    Nested body := by
  rw [readInterface] at read
  split at read
  · cases read
  · rename_i name parent members shape
    apply keeps_interfaceShape body _ shape
    obtain ⟨texts, divided, read⟩ := except_bind_eq_ok_iff.1 read
    have divided := liftMalformed_eq_ok_iff.1 divided
    split at read
    · obtain ⟨fields, all, -⟩ := except_bind_eq_ok_iff.1 read
      exact nested_of_statements divided all fun _ _ => nested_of_readField
    · obtain ⟨members, all, -⟩ := except_bind_eq_ok_iff.1 read
      exact nested_of_statements divided (liftMalformed_eq_ok_iff.1 all) fun _ _ =>
        nested_of_readMember

theorem nested_of_readDeclaration {d : Declaration} (read : readDeclaration text = .ok d) :
    Nested text := by
  obtain ⟨⟨attrs, body⟩, taken, read⟩ := except_bind_eq_ok_iff.1 read
  apply nested_of_takeAttrs (listsNested _) (liftMalformed_eq_ok_iff.1 taken)
  dsimp only at read
  split at read
  · obtain ⟨t, typedef, -⟩ := except_bind_eq_ok_iff.1 read
    exact nested_of_readTypedef (liftMalformed_eq_ok_iff.1 typedef)
  · split at read
    · obtain ⟨c, callback, -⟩ := except_bind_eq_ok_iff.1 read
      exact nested_of_readCallback (liftMalformed_eq_ok_iff.1 callback)
    · split at read
      · exact nested_of_readInterface read
      · cases read

/-- A source that is read has its brackets nested, and each closed by one of its own kind. -/
theorem accepted_brackets_nested (source : String) (ds : Declarations)
    (read : Idl.parse source = .ok ds) :
    Nested (stripComments source.toList) := by
  obtain ⟨texts, divided, read⟩ := except_bind_eq_ok_iff.1 read
  obtain ⟨order, all, -⟩ := except_bind_eq_ok_iff.1 read
  exact nested_of_statements (liftMalformed_eq_ok_iff.1 divided) all fun _ _ =>
    nested_of_readDeclaration

/-- Comments may hold any brackets. -/
def sketchPieces : List String :=
  ["/* :( */[Constructor([Ref] Point origin, ", "optional unsigned long depth), Shared] ",
    "interface View : Node \x7b", " readonly attribute Key key;",
    " static sequence<long> sizes(); \x7d; // >:]"]

def sketchText : String := String.ofList (sketchPieces.flatMap String.toList)

theorem toList_sketchText : sketchText.toList = sketchPieces.flatMap String.toList :=
  String.toList_ofList

theorem parse_sketchText : Idl.parse sketchText = .ok { interfaces := [Declarations.view] } := by
  let order : List Member :=
    Declarations.view.attributes.map .attribute ++ Declarations.view.operations.map .operation
  let inside := " readonly attribute Key key;".toList ++ " static sequence<long> sizes(); ".toList
  let shown := interfaceText Declarations.view.items "View" (some "Node") inside
  have wellFormed : ∀ d ∈ [Declaration.interface Declarations.view], d.WellFormed :=
    List.forall_mem_singleton.2 (Declarations.wellFormed_gallery.interfaces _ (by decide))
  have members : Sequenced (order.map Member.render) inside :=
    @Sequenced.next [' '] _ _ _ (by decide)
      (@Sequenced.next [' '] _ [' '] _ (by decide) (.done (by decide)))
  have rendered : Declaration.Rendered (.interface Declarations.view) shown :=
    .interface Declarations.view rfl rfl members
  have stripped : stripComments sketchText.toList = [] ++ (shown ++ ';' :: [' ']) := by
    rw [toList_sketchText]
    decide +kernel
  have sequenced : Sequenced [shown] (stripComments sketchText.toList) := by
    rw [stripped]
    exact .next (by decide) (.done (by decide))
  exact Declarations.parse_of_sequenced wellFormed (.cons rendered .nil) sequenced

theorem sketch_brackets_nested : Idl.parse sketchText = .ok { interfaces := [Declarations.view] } ∧
    ¬ Nested sketchText.toList ∧ Nested (stripComments sketchText.toList) := by
  have raw : ¬ Nested sketchText.toList := by
    rw [toList_sketchText]
    decide +kernel
  exact ⟨parse_sketchText, raw, accepted_brackets_nested sketchText _ parse_sketchText⟩

end NativeBridge.Idl
