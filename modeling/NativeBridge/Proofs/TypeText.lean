import NativeBridge.Idl.TypeExpr.Parse
import NativeBridge.Proofs.Scanning

/-!
# Type expressions and their texts

Reading a type forgets how it was spaced and whether a sequence was written as an array, so many
texts give one type. The types that some text gives are those whose own printed form gives them
back.
-/
namespace NativeBridge.TypeExpr

open Idl Text

variable {text body inner w : List Char} {t e : TypeExpr} {c : Char}

/-! ## What reading a type amounts to -/

theorem splitText_eq_ok_iff {sep : List Char} {parts : List (List Char)} :
    splitText sep text = .ok parts ↔ split sep text = .ok parts := except_mapError_eq_ok_iff

theorem split_or_eq_ok_iff {parts : List (List Char)} : split " or ".toList text = .ok parts ↔
    Divides " or ".toList parts ∧ text = join " or ".toList parts :=
  split_eq_ok_iff (c := ' ') (s := "or ".toList) (by decide)

theorem parse_union (shape : unionMembers (bodyText text) = some inner) :
    parse text = .ok t ↔ ∃ parts members, split " or ".toList inner = .ok parts ∧ 2 ≤ parts.length ∧
      List.Forall₂ (fun p m => parse p = .ok m) parts members ∧
      t = { union := members, nullable := isNullable text } := by
  have unfolded : parse text = (splitText " or ".toList inner >>= fun parts =>
      if parts.length < 2 then .error (.unionType (String.ofList (bodyText text)))
      else parts.mapM parse >>= fun union => pure { union, nullable := isNullable text }) := by
    rw [parse]
    split
    · rename_i found same
      rw [shape] at same
      cases same
      split
      · rename_i e failed
        rw [failed]
        rfl
      · rename_i parts divided
        rw [divided]
        change _ = if _ then _ else _
        rw [← except_mapM_attach parse parts]
    · rename_i none
      rw [shape] at none
      cases none
  rw [unfolded, except_bind_eq_ok_iff]
  constructor
  · rintro ⟨parts, divided, read⟩
    split at read
    · cases read
    · obtain ⟨members, all, same⟩ := except_bind_eq_ok_iff.1 read
      cases same
      exact ⟨parts, members, splitText_eq_ok_iff.1 divided, by omega,
        except_mapM_eq_ok_iff.1 all, rfl⟩
  · rintro ⟨parts, members, divided, two, all, rfl⟩
    refine ⟨parts, splitText_eq_ok_iff.2 divided, ?_⟩
    rw [if_neg (by omega), except_mapM_eq_ok_iff.2 all]
    rfl

theorem parse_sequence (single : unionMembers (bodyText text) = none)
    (shape : (sequenceElement (bodyText text)).or (arrayElement (bodyText text)) = some inner) :
    parse text = .ok t ↔
      ∃ e, parse inner = .ok e ∧ t = { element := some e, nullable := isNullable text } := by
  have unfolded : parse text =
      (parse inner >>= fun e => pure { element := some e, nullable := isNullable text }) := by
    rw [parse]
    split
    · rename_i some
      rw [single] at some
      cases some
    · split
      · rename_i found same
        rw [shape] at same
        cases same
        rfl
      · rename_i none
        rw [shape] at none
        cases none
  rw [unfolded, except_bind_eq_ok_iff]
  constructor
  · rintro ⟨e, read, same⟩
    cases same
    exact ⟨e, read, rfl⟩
  · rintro ⟨e, read, rfl⟩
    exact ⟨e, read, rfl⟩

theorem parse_name (single : unionMembers (bodyText text) = none)
    (shape : (sequenceElement (bodyText text)).or (arrayElement (bodyText text)) = none) :
    parse text = .ok t ↔ isName (bodyText text) = true ∧
      t = { name := String.ofList (bodyText text), nullable := isNullable text } := by
  rw [parse]
  split
  · rename_i some
    rw [single] at some
    cases some
  · split
    · rename_i some
      rw [shape] at some
      cases some
    · split
      · rename_i name
        simp [name, eq_comm]
      · rename_i other
        simp [other]

/-! ## Names -/

theorem isWord_of_isNameStart (h : isNameStart c = true) : isWord c = true := by
  have letter : c.isAlphanum = true ∨ c = '_' := by
    simp only [isNameStart, Bool.or_eq_true, beq_iff_eq] at h
    exact h.imp_left fun alpha => by simp [Char.isAlphanum, alpha]
  have ascii : c.toNat < 128 := by
    change ((decide (c.val ≥ 'A'.val ∧ c.val ≤ 'Z'.val) ||
      (decide (c.val ≥ 'a'.val) && decide (c.val ≤ 'z'.val))) || c == '_') = true at h
    simp only [Bool.or_eq_true, Bool.and_eq_true, decide_eq_true_eq, beq_iff_eq, ge_iff_le,
      UInt32.le_iff_toNat_le] at h
    rcases h with (h | h) | rfl
    · exact Nat.lt_of_le_of_lt h.2 (by decide)
    · exact Nat.lt_of_le_of_lt h.2 (by decide)
    · decide
  simpa [isWord, ascii] using letter

theorem join_cut (body : List Char) : join [' '] (cut (· = ' ') body) = body := by
  induction body with
  | nil => rfl
  | cons c r ih =>
    by_cases space : c = ' '
    · rw [cut, if_pos (by simpa using space), join_cons (cut_ne_nil _ r), ih, space]
      rfl
    · obtain ⟨w, ws, pieces⟩ := List.exists_cons_of_ne_nil (cut_ne_nil (· = ' ') r)
      rw [cut, if_neg (by simpa using space)]
      rw [pieces] at ih ⊢
      cases ws with
      | nil => simpa [join] using ih
      | cons v vs => simpa [join] using ih

theorem words_of_isName (name : isName body = true) :
    ∃ ws, ws ≠ [] ∧ (∀ w ∈ ws, Word w) ∧ body = join [' '] ws := by
  refine ⟨cut (· = ' ') body, cut_ne_nil _ body, fun w member => ?_, (join_cut body).symm⟩
  have piece := List.all_eq_true.1 name w member
  cases w with
  | nil => cases piece
  | cons c r =>
    obtain ⟨start, others⟩ := Bool.and_eq_true_iff.1 piece
    exact ⟨by simp, List.forall_mem_cons.2 ⟨isWord_of_isNameStart start, List.all_eq_true.1 others⟩⟩

theorem tidy_of_isName (name : isName body = true) : Tidy body := by
  obtain ⟨ws, nonempty, words, rfl⟩ := words_of_isName name
  exact join_of_all (fun u v hu hv => hu.space hv) nonempty fun w member => (words w member).tidy

theorem chars_of_isName (name : isName body = true) : ∀ c ∈ body, isWord c = true ∨ c = ' ' := by
  obtain ⟨ws, nonempty, words, rfl⟩ := words_of_isName name
  refine join_of_all (P := fun w => ∀ c ∈ w, isWord c = true ∨ c = ' ')
    (fun u v hu hv c member => ?_) nonempty
    fun w member c inside => .inl ((words w member).all c inside)
  simp only [List.mem_append, List.mem_singleton] at member
  rcases member with inside | rfl | inside
  · exact hu c inside
  · exact .inr rfl
  · exact hv c inside

theorem not_mem_of_isName (name : isName body = true) (other : isWord c = false) (space : c ≠ ' ') :
    c ∉ body := by
  intro member
  rcases chars_of_isName name c member with word | same
  · rw [word] at other
    cases other
  · exact space same

theorem flat_of_isName (name : isName body = true) : Flat body := by
  intro c member
  rcases chars_of_isName name c member with word | rfl
  · exact flat_of_word word
  · decide

/-! ## Printed types -/

/-- The mark of a nullable type. -/
def mark (nullable : Bool) : List Char := if nullable then ['?'] else []

theorem print_name (n : List Char) (q : Bool) :
    print { name := String.ofList n, nullable := q } = n ++ mark q :=
  congrArg (· ++ mark q) String.toList_ofList

theorem print_sequence (e : TypeExpr) (q : Bool) :
    print { element := some e, nullable := q } =
      ("sequence".toList ++ '<' :: (e.print ++ ['>'])) ++ mark q := rfl

theorem printMore_eq (m : TypeExpr) (ms : List TypeExpr) :
    m.print ++ printMore ms = join " or ".toList ((m :: ms).map print) := by
  induction ms generalizing m with
  | nil => exact List.append_nil _
  | cons m' ms ih =>
    have more : printMore (m' :: ms) = " or ".toList ++ m'.print ++ printMore ms := rfl
    rw [more, List.map_cons, join_cons (by simp), ← ih, List.append_assoc]

theorem print_union {members : List TypeExpr} (nonempty : members ≠ []) (q : Bool) :
    print { union := members, nullable := q } =
      ('(' :: (join " or ".toList (members.map print) ++ [')'])) ++ mark q := by
  obtain ⟨m, ms, rfl⟩ := List.exists_cons_of_ne_nil nonempty
  rw [← printMore_eq]
  rfl

/-- The types that have a text. -/
inductive Written : TypeExpr → Prop
  | name {n : List Char} (q : Bool) (name : isName n = true) :
    Written { name := String.ofList n, nullable := q }
  | sequence {e : TypeExpr} (q : Bool) (element : Written e) :
    Written { element := some e, nullable := q }
  | union {members : List TypeExpr} (q : Bool) (two : 2 ≤ members.length)
    (all : ∀ m ∈ members, Written m) (apart : Divides " or ".toList (members.map print)) :
    Written { union := members, nullable := q }

theorem mark_false : mark false = [] := rfl

theorem flat_mark (q : Bool) : Flat (mark q) := by
  cases q <;> simp [mark, Flat, opens, closes]

theorem tidy_mark (q : Bool) (h : Tidy w) : Tidy (w ++ mark q) := by
  cases q with
  | false => simpa [mark] using h
  | true =>
    exact h.append (.of_nonblank (w := ['?']) (by simp) (List.forall_mem_singleton.2 (by decide)))

theorem ne_nil_of_two {members : List TypeExpr} (two : 2 ≤ members.length) : members ≠ [] := by
  rintro rfl
  cases two

/-- What the printed members of a union have in common, what stands between them keeps. -/
theorem join_prints {P : List Char → Prop} {members : List TypeExpr} (two : 2 ≤ members.length)
    (glue : ∀ u v, P u → P v → P (u ++ (" or ".toList ++ v))) (all : ∀ m ∈ members, P m.print) :
    P (join " or ".toList (members.map print)) := by
  refine join_of_all glue ?_ ?_
  · simpa using ne_nil_of_two two
  · simpa using all

theorem word_sequence : Word "sequence".toList := by decide

theorem Written.tidy (h : Written t) : Tidy t.print := by
  induction h with
  | name q name =>
    rw [print_name]
    exact tidy_mark q (tidy_of_isName name)
  | sequence q _ ih =>
    rw [print_sequence]
    exact tidy_mark q (word_sequence.tidy.append (ih.enclosed (by decide) (by decide)))
  | union q two _ _ ih =>
    rw [print_union (ne_nil_of_two two)]
    have keyword : Word "or".toList := by decide
    have members := join_prints two (fun u v hu hv => hu.space (keyword.tidy.space hv)) ih
    exact tidy_mark q (members.enclosed (by decide) (by decide))

theorem Written.solid (h : Written t) : Solid t.print := h.tidy.toSolid

theorem balanced_members {members : List TypeExpr} (two : 2 ≤ members.length)
    (all : ∀ m ∈ members, Balanced m.print) :
    Balanced (join " or ".toList (members.map print)) := by
  have keyword : Flat " or ".toList := by simp [Flat, opens, closes]
  exact join_prints two (fun u v hu hv => hu.append (keyword.balanced.append hv)) all

theorem Written.balanced (h : Written t) : Balanced t.print := by
  induction h with
  | name q name =>
    rw [print_name]
    exact (flat_of_isName name).balanced.append (flat_mark q).balanced
  | sequence q _ ih =>
    rw [print_sequence]
    have element := ih.enclosed (o := '<') (e := '>') (by decide) (by decide)
    exact (word_sequence.flat.balanced.append element).append (flat_mark q).balanced
  | union q two _ _ ih =>
    rw [print_union (ne_nil_of_two two)]
    exact ((balanced_members two ih).enclosed (by decide) (by decide)).append (flat_mark q).balanced

/-- Only a name can hold a separator, and that only a space. -/
theorem Written.between (h : Written t) (other : isWord c = false) (unmarked : c ≠ '?')
    (space : c = ' ' → t.name = "") : Between c t.print := by
  have marked : ∀ q, Between c (mark q) := by
    intro q
    refine (flat_mark q).between ?_
    cases q <;> simp [mark, unmarked]
  cases h with
  | name q name =>
    rw [print_name]
    refine ((flat_of_isName name).between (not_mem_of_isName name other ?_)).append (marked q)
    rintro rfl
    have empty := String.ofList_eq_empty_iff.1 (space rfl)
    exact (tidy_of_isName name).ne_nil empty
  | sequence q element =>
    rw [print_sequence]
    have keyword : Between c "sequence".toList :=
      word_sequence.flat.between (word_sequence.not_mem other)
    exact (keyword.append (element.balanced.enclosed_between (by decide) (by decide))).append
      (marked q)
  | union q two all =>
    rw [print_union (ne_nil_of_two two)]
    have members := balanced_members two fun m member => (all m member).balanced
    exact (members.enclosed_between (by decide) (by decide)).append (marked q)

/-- The characters of printed types. -/
def isTypeChar (c : Char) : Bool := isWord c || [' ', '?', '<', '>', '(', ')'].contains c

theorem typeChars_of_word (word : Word w) : w.all isTypeChar = true := by
  rw [List.all_eq_true]
  intro c member
  simp [isTypeChar, word.all c member]

theorem Written.chars (h : Written t) : t.print.all isTypeChar = true := by
  have marked : ∀ q, (mark q).all isTypeChar = true := by decide
  induction h with
  | @name n q name =>
    rw [print_name, List.all_append, marked q, Bool.and_true, List.all_eq_true]
    intro c member
    rcases chars_of_isName name c member with word | rfl
    · simp [isTypeChar, word]
    · decide
  | sequence q _ ih =>
    have brackets : isTypeChar '<' = true ∧ isTypeChar '>' = true := by decide
    simp only [print_sequence, List.all_append, List.all_cons, List.all_nil,
      typeChars_of_word word_sequence, ih, marked q, brackets, Bool.and_true]
  | union q two _ _ ih =>
    have keyword : " or ".toList.all isTypeChar = true := by decide
    have brackets : isTypeChar '(' = true ∧ isTypeChar ')' = true := by decide
    have members := join_prints (P := fun w => w.all isTypeChar = true) two
      (fun u v hu hv => by rw [List.all_append, List.all_append, hu, keyword, hv]; rfl) ih
    simp only [print_union (ne_nil_of_two two), List.all_append, List.all_cons,
      List.all_nil, members, marked q, brackets, Bool.and_true]

theorem Written.not_mem (h : Written t) (other : isTypeChar c = false) : c ∉ t.print := by
  intro member
  rw [List.all_eq_true.1 h.chars c member] at other
  cases other

/-- Whether a type is a union or a sequence that holds one. -/
def hasUnion : TypeExpr → Bool
  | ⟨_, none, union, _⟩ => !union.isEmpty
  | ⟨_, some e, union, _⟩ => !union.isEmpty || e.hasUnion

theorem Written.no_parenthesis (h : Written t) (single : t.hasUnion = false) : '(' ∉ t.print := by
  have marked : ∀ q, '(' ∉ mark q := by decide
  induction h with
  | name q name =>
    rw [print_name, List.mem_append, not_or]
    exact ⟨not_mem_of_isName name (by decide) (by decide), marked q⟩
  | sequence q _ ih =>
    have inner := ih (by simpa [hasUnion] using single)
    rw [print_sequence]
    simp [inner, marked q]
  | union q two =>
    simp [hasUnion, List.isEmpty_iff, ne_nil_of_two two] at single

/-- A keyword is the first word of a printed type only if it is that of its name. -/
theorem Written.firstWord_ne {k : List Char} (h : Written t) (keyword : Word k)
    (other : firstWord t.name.toList ≠ k) (rest : List Char) :
    firstWord (t.print ++ ' ' :: rest) ≠ k := by
  have foreign : ∀ c, isWord c = false → c ∈ firstWord (t.print ++ ' ' :: rest) →
      firstWord (t.print ++ ' ' :: rest) ≠ k := by
    intro c other member same
    rw [same] at member
    exact keyword.not_mem other member
  cases h with
  | @name n q name =>
    rw [print_name] at foreign ⊢
    rw [String.toList_ofList] at other
    by_cases blank : ∃ a ∈ n, isBlank a = true
    · rw [List.append_assoc, firstWord_append blank]
      exact other
    · have nonblank : ∀ a ∈ n, isBlank a = false := by simpa using blank
      cases q with
      | true =>
        refine foreign '?' (by decide) ?_
        rw [List.append_assoc]
        exact mem_firstWord nonblank (by decide) _
      | false =>
        have whole : firstWord n = n := List.takeWhile_eq_self_iff.2 (by simpa using nonblank)
        rw [mark_false, List.append_nil, firstWord_space nonblank]
        rwa [whole] at other
  | sequence q element =>
    refine foreign '<' (by decide) ?_
    rw [print_sequence, List.append_assoc, List.append_assoc]
    exact mem_firstWord word_sequence.nonblank (by decide) _
  | union q two =>
    refine foreign '(' (by decide) ?_
    rw [print_union (ne_nil_of_two two)]
    exact mem_firstWord (u := []) (by simp) (by decide) _

/-! ## Reading a printed type -/

theorem bodyText_mark (tidy : Tidy w) (last : w.getLast? ≠ some '?') (q : Bool) :
    isNullable (w ++ mark q) = q ∧ bodyText (w ++ mark q) = w := by
  have squeezed := (tidy_mark q tidy).squeeze
  have nullable : isNullable (w ++ mark q) = q := by
    rw [isNullable, squeezed]
    cases q <;> simp [mark, last]
  refine ⟨nullable, ?_⟩
  rw [bodyText, nullable, squeezed]
  cases q with
  | false => simp [mark]
  | true => simp [mark, tidy.trimRight]

theorem unionMembers_eq_none (h : body.head? ≠ some '(') : unionMembers body = none := by
  simp [unionMembers, h]

theorem sequenceElement_eq_none (h : '<' ∉ body) : sequenceElement body = none := by
  cases found : sequenceElement body with
  | none => rfl
  | some inner =>
    simp only [sequenceElement, Option.bind_eq_bind, Option.bind_eq_some_iff] at found
    obtain ⟨rest, keyword, opened, bracket, -⟩ := found
    have member : '<' ∈ trimLeft rest := by
      cases trimmed : trimLeft rest with
      | nil => simp [trimmed, expect] at bracket
      | cons c r =>
        rw [trimmed, expect] at bracket
        split at bracket
        · simp_all
        · cases bracket
    rw [← List.isPrefixOf?_eq_some_iff_append_eq.1 keyword] at h
    exact absurd (List.mem_append_right _ ((List.dropWhile_sublist _).subset member)) h

theorem arrayElement_eq_none (h : ']' ∉ body) : arrayElement body = none := by
  rw [arrayElement]
  split
  · rename_i reversed
    have member : ']' ∈ body.reverse := by simp [reversed]
    exact absurd (List.mem_reverse.1 member) h
  · rfl

theorem sequenceElement_print (nonempty : w ≠ []) :
    sequenceElement ("sequence".toList ++ '<' :: (w ++ ['>'])) = some w := by
  have keyword : "sequence".toList.isPrefixOf? ("sequence".toList ++ '<' :: (w ++ ['>'])) =
      some ('<' :: (w ++ ['>'])) := List.isPrefixOf?_eq_some_iff_append_eq.2 rfl
  rw [sequenceElement, keyword]
  simp [trimLeft_cons (show isBlank '<' = false by decide), expect, endingWith, nonempty]

theorem getLast?_enclosed (o e : Char) (w : List Char) : (o :: (w ++ [e])).getLast? = some e := by
  rw [← List.cons_append, List.getLast?_concat]

theorem unionMembers_print (w : List Char) : unionMembers ('(' :: (w ++ [')'])) = some w := by
  simp [unionMembers, getLast?_enclosed]

theorem Written.parse_print (h : Written t) : parse t.print = .ok t := by
  induction h with
  | @name n q name =>
    have tidy := tidy_of_isName name
    have free := fun c (other : isWord c = false) space => not_mem_of_isName name other space
    have unmarked : n.getLast? ≠ some '?' := fun last =>
      free '?' (by decide) (by decide) (List.mem_of_getLast? last)
    obtain ⟨nullable, body⟩ := bodyText_mark tidy unmarked q
    rw [print_name]
    refine (parse_name ?_ ?_).2 ⟨by rw [body]; exact name, by rw [body, nullable]⟩
    · rw [body]
      refine unionMembers_eq_none fun first => ?_
      exact free '(' (by decide) (by decide) (List.mem_of_head? first)
    · rw [body, sequenceElement_eq_none (free '<' (by decide) (by decide)),
        arrayElement_eq_none (free ']' (by decide) (by decide))]
      rfl
  | @sequence e q element ih =>
    have tidy := (Written.sequence false element).tidy
    rw [print_sequence, mark_false, List.append_nil] at tidy
    obtain ⟨nullable, body⟩ := bodyText_mark tidy (by simp [getLast?_enclosed]) q
    rw [print_sequence]
    refine (parse_sequence ?_ ?_).2 ⟨e, ih, by rw [nullable]⟩
    · rw [body]
      exact unionMembers_eq_none (by simp)
    · rw [body, sequenceElement_print element.tidy.ne_nil]
      rfl
  | @union members q two all apart ih =>
    have nonempty := ne_nil_of_two two
    have tidy := (Written.union false two all apart).tidy
    rw [print_union nonempty, mark_false, List.append_nil] at tidy
    obtain ⟨nullable, body⟩ := bodyText_mark tidy (by simp [getLast?_enclosed]) q
    rw [print_union nonempty]
    have divided := split_or_eq_ok_iff.2 ⟨apart, rfl⟩
    refine (parse_union (by rw [body]; exact unionMembers_print _)).2
      ⟨members.map print, members, divided, by simpa using two, ?_, by rw [nullable]⟩
    exact List.forall₂_map_left_iff.2 (List.forall₂_same.2 ih)

/-! ## Every type that is read -/

theorem exists_name_of_parse (read : parse text = .ok t) (named : t.name ≠ "") :
    isName (bodyText text) = true ∧
      t = { name := String.ofList (bodyText text), nullable := isNullable text } := by
  cases union : unionMembers (bodyText text) with
  | some inner =>
    obtain ⟨parts, members, -, -, -, rfl⟩ := (parse_union union).1 read
    exact absurd rfl named
  | none =>
    cases sequence : (sequenceElement (bodyText text)).or (arrayElement (bodyText text)) with
    | some inner =>
      obtain ⟨e, -, rfl⟩ := (parse_sequence union sequence).1 read
      exact absurd rfl named
    | none => exact (parse_name union sequence).1 read

theorem exists_trimRight (w : List Char) :
    ∃ b, w = trimRight w ++ b ∧ Blank b := by
  refine ⟨(w.reverse.takeWhile isBlank).reverse, ?_, fun c member => ?_⟩
  · rw [trimRight, ← List.reverse_append, List.takeWhile_append_dropWhile, List.reverse_reverse]
  · exact List.mem_takeWhile_imp (List.mem_reverse.1 member)

theorem exists_trim (w : List Char) : ∃ a b, w = a ++ (trim w ++ b) ∧ Blank a ∧ Blank b := by
  obtain ⟨b, same, blank⟩ := exists_trimRight (trimLeft w)
  refine ⟨w.takeWhile isBlank, b, ?_, fun c member => List.mem_takeWhile_imp member, blank⟩
  rw [trim, ← same, trimLeft, List.takeWhile_append_dropWhile]

/-- Around what reading looks at stand blanks, and a mark behind it if the type is nullable. -/
theorem exists_bodyText (spaced : Spaced w) : ∃ a r, w = a ++ (bodyText w ++ r) ∧
    Blank a ∧ ∀ c ∈ r, isBlank c = true ∨ isNullable w = true ∧ c = '?' := by
  obtain ⟨a, b, whole, before, after⟩ := exists_trim w
  have squeezed := spaced.squeeze_eq_trim
  cases nullable : isNullable w with
  | false =>
    rw [bodyText, nullable, squeezed]
    exact ⟨a, b, whole, before, fun c member => .inl (after c member)⟩
  | true =>
    rw [bodyText, nullable, squeezed, if_pos rfl]
    rw [isNullable, squeezed, decide_eq_true_eq] at nullable
    obtain ⟨b', trimmed, blank⟩ := exists_trimRight (trim w).dropLast
    have split := List.dropLast_append_getLast? _ nullable
    refine ⟨a, b' ++ '?' :: b, ?_, before, fun c member => ?_⟩
    · rw [← split, trimmed] at whole
      simpa using whole
    · simp only [List.mem_append, List.mem_cons] at member
      rcases member with inside | rfl | inside
      · exact .inl (blank c inside)
      · exact .inr ⟨rfl, rfl⟩
      · exact .inl (after c inside)

section Separators

variable {v r rest : List Char}

/-- Where a space follows anyway, a separator that begins inside a text begins there in another
place too. -/
theorem or_of_space (nonempty : v ≠ []) (here : " or ".toList <+: v ++ rest)
    (next : rest = [] ∨ (∃ x, rest = ' ' :: x) ∧ ∃ y, r = ' ' :: y) : " or ".toList <+: v ++ r := by
  rcases v with _ | ⟨a, _ | ⟨b, _ | ⟨c, _ | ⟨d, v⟩⟩⟩⟩
  · exact absurd rfl nonempty
  all_goals
    rcases next with rfl | ⟨⟨x, rfl⟩, y, rfl⟩ <;> simp at here ⊢ <;> exact here

theorem or_of_mark (here : " or ".toList <+: v ++ '?' :: rest) : " or ".toList <+: v := by
  rcases v with _ | ⟨a, _ | ⟨b, _ | ⟨c, _ | ⟨d, v⟩⟩⟩⟩ <;> simp at here ⊢
  exact here

variable {p : List Char} {m : TypeExpr}

/-- The printed form of a union member can stand where the text stood that it was read from. -/
theorem passes_print (spaced : Spaced p) (read : parse p = .ok m) (written : Written m)
    (next : r = [] ∨ (∃ x, r = ' ' :: x) ∧ ∃ y, rest = ' ' :: y)
    (passed : passes " or ".toList rest 0 p = some 0) :
    passes " or ".toList r 0 m.print = some 0 := by
  by_cases unnamed : m.name = ""
  · exact written.between (by decide) (by decide) (fun _ => unnamed) _ r
  obtain ⟨name, rfl⟩ := exists_name_of_parse read unnamed
  obtain ⟨a, b, whole, before, after⟩ := exists_bodyText spaced
  have space : ∀ c ∈ p, isBlank c = true → opens c = false ∧ closes c = false := by
    intro c member blank
    rw [spaced.spaces c member blank]
    decide
  have flat : Flat p := by
    intro c member
    have inside := member
    rw [whole, List.mem_append, List.mem_append] at inside
    rcases inside with h | h | h
    · exact space c member (before c h)
    · exact flat_of_isName name c h
    · rcases after c h with blank | ⟨-, rfl⟩
      · exact space c member blank
      · decide
  -- a separator that began in the name would begin in the text read
  have none : ∀ v, v <:+ bodyText p → v ≠ [] → ¬ " or ".toList <+: v ++ (b ++ rest) := by
    intro v suffix nonempty here
    refine flat.passes_iff.1 passed (v ++ b) ?_ (by simp [nonempty]) (by simpa using here)
    obtain ⟨u, same⟩ := suffix
    exact ⟨a ++ u, by rw [whole, ← same]; simp⟩
  rw [print_name]
  refine ((flat_of_isName name).append (flat_mark _)).passes_iff.2 fun v suffix nonempty here => ?_
  cases nullable : isNullable p with
  | true =>
    rw [nullable, mark, if_pos rfl] at suffix
    obtain ⟨v, rfl, inside⟩ := (List.suffix_concat_iff.1 suffix).resolve_left nonempty
    have found := or_of_mark (by simpa using here)
    refine none v inside ?_ (found.trans (List.prefix_append v _))
    rintro rfl
    simp at found
  | false =>
    rw [nullable, mark_false, List.append_nil] at suffix
    refine none v suffix nonempty (or_of_space nonempty here (next.imp_right ?_))
    rintro ⟨followed, y, rfl⟩
    refine ⟨followed, ?_⟩
    cases b with
    | nil => exact ⟨y, rfl⟩
    | cons c b =>
      have blank : isBlank c = true := (after c (by simp)).resolve_right (by simp [nullable])
      rw [spaced.spaces c (by rw [whole]; simp) blank]
      exact ⟨_, rfl⟩

theorem divides_prints {parts : List (List Char)} {members : List TypeExpr}
    (read : List.Forall₂ (fun p m => parse p = .ok m ∧ Spaced p ∧ Written m) parts members)
    (divides : Divides " or ".toList parts) : Divides " or ".toList (members.map print) := by
  induction read with
  | nil => exact divides
  | @cons p m parts members first others ih =>
    obtain ⟨read, spaced, written⟩ := first
    cases others with
    | nil => exact passes_print spaced read written (.inl rfl) divides
    | cons second others =>
      obtain ⟨passed, later⟩ := divides
      exact ⟨passes_print spaced read written (.inr ⟨⟨_, rfl⟩, _, rfl⟩) passed, ih later⟩

end Separators

theorem part_of_join {sep p : List Char} {ps : List (List Char)} (member : p ∈ ps) :
    p <:+: join sep ps := by
  induction ps with
  | nil => cases member
  | cons q ps ih =>
    cases ps with
    | nil =>
      rw [List.mem_singleton.1 member]
      exact List.infix_refl q
    | cons q' qs =>
      rw [join_cons (by simp)]
      rcases List.mem_cons.1 member with rfl | later
      · exact (List.prefix_append _ _).isInfix
      · have there := ih later
        exact there.trans ((List.suffix_append sep _).trans (List.suffix_append q _)).isInfix

theorem bodyText_part (text : List Char) : bodyText text <:+: squeeze text := by
  rw [bodyText]
  split
  · obtain ⟨b, same, -⟩ := exists_trimRight (squeeze text).dropLast
    have first : trimRight (squeeze text).dropLast <+: (squeeze text).dropLast := ⟨b, same.symm⟩
    exact (first.trans (List.dropLast_prefix _)).isInfix
  · exact List.infix_refl _

theorem unionMembers_part (shape : unionMembers body = some inner) : inner <:+: body := by
  rw [unionMembers] at shape
  split at shape
  · cases shape
    exact (List.dropLast_prefix _).isInfix.trans (List.tail_suffix _).isInfix
  · cases shape

/-- A type that is read from some text has a printed form that divides as it does. -/
theorem written_of_parse (read : parse text = .ok t) : Written t := by
  -- the texts of elements and members are shorter, but no part of one another
  induction size : text.length using Nat.strong_induction_on generalizing text t with
  | _ n ih =>
    have shorter := bodyText_length_le text
    cases union : unionMembers (bodyText text) with
    | some inner =>
      obtain ⟨parts, members, divided, two, all, rfl⟩ := (parse_union union).1 read
      have spaced :=
        (spaced_squeeze text).part ((unionMembers_part union).trans (bodyText_part text))
      obtain ⟨divides, rfl⟩ := split_or_eq_ok_iff.1 divided
      have length := unionMembers_length union
      have smaller : ∀ p ∈ parts, Spaced p ∧ p.length < n := by
        intro p member
        have part : p <:+: join " or ".toList parts := part_of_join member
        have fewer := part.length_le
        exact ⟨spaced.part part, by omega⟩
      have each :
          List.Forall₂ (fun p m => parse p = .ok m ∧ Spaced p ∧ Written m) parts members := by
        refine ((List.forall₂_and_left _ _).2 ⟨smaller, all⟩).imp fun p m h => ?_
        obtain ⟨⟨apart, fewer⟩, member⟩ := h
        exact ⟨member, apart, ih p.length fewer member rfl⟩
      refine .union _ (all.length_eq ▸ two) (fun m member => ?_) (divides_prints each divides)
      obtain ⟨p, -, -, -, written⟩ := exists_of_forall₂ each member
      exact written
    | none =>
      cases sequence : (sequenceElement (bodyText text)).or (arrayElement (bodyText text)) with
      | some inner =>
        obtain ⟨e, element, rfl⟩ := (parse_sequence union sequence).1 read
        have length : inner.length < (bodyText text).length := by
          rcases Option.or_eq_some_iff.1 sequence with h | ⟨-, h⟩
          · exact sequenceElement_length h
          · exact arrayElement_length h
        exact .sequence _ (ih _ (by omega) element rfl)
      | none =>
        obtain ⟨name, rfl⟩ := (parse_name union sequence).1 read
        exact .name _ name

end NativeBridge.TypeExpr
