import NativeBridge.Proofs.Rendering

/-!
# Reading members back

Each reader is run on the text that it is meant for. The shapes leave choices open: a keyword may
also begin a type name, a type text ends where the rest fits, and an operation must not pass for an
attribute.
-/
namespace NativeBridge.Idl

open Text

variable {α : Type} {s t u v w : List Char} {c : Char}

/-! ## Shapes -/

theorem optionalKeyword_optionally (keyword : String) (word : Word keyword.toList) (present : Bool)
    (solid : Solid w) (other : firstWord w ≠ keyword.toList) {read : List Char → Option α} {a : α}
    (fits : read w = some a) :
    optionalKeyword keyword read (optionally present keyword ++ w) = some (present, a) := by
  cases present with
  | true =>
    rw [optionally, if_pos rfl, List.append_assoc]
    exact optionalKeyword_present keyword solid fits
  | false =>
    rw [optionally, if_neg (by simp), List.nil_append,
      optionalKeyword_absent word.nonblank other, fits]
    rfl

theorem argumentShape_render {a : Argument} (h : a.WellFormed) :
    argumentShape (optionally a.optional "optional" ++ (a.type.print ++ ' ' :: a.name.toList)) =
      some (a.optional, a.type.print, a.name.toList) :=
  optionalKeyword_optionally "optional" (by decide) a.optional
    (h.type.written.solid.spaced h.name.solid)
    (h.type.written.firstWord_ne (by decide) h.keyword _)
    (shortest_blankWord h.type.written.solid h.name)

theorem typedefShape_render {d : Typedef} (h : d.WellFormed) :
    typedefShape d.render = some (d.type.print, d.name.toList) := by
  have solid := h.type.written.solid.spaced h.name.solid
  exact (afterKeyword_append "typedef" solid _).trans
    (shortest_blankWord h.type.written.solid h.name)

theorem attributeShape_render {a : Attribute} (h : a.WellFormed) :
    attributeShape (optionally a.isStatic "static" ++ (optionally a.readOnly "readonly" ++
        ("attribute".toList ++ ' ' :: (a.type.print ++ ' ' :: a.name.toList)))) =
      some (a.isStatic, a.readOnly, a.type.print, a.name.toList) := by
  have declared := h.type.written.solid.spaced h.name.solid
  have keyword : Word "attribute".toList := by decide
  have solid := keyword.solid.spaced declared
  have first : ∀ k : String, "attribute".toList ≠ k.toList →
      firstWord ("attribute".toList ++ ' ' :: (a.type.print ++ ' ' :: a.name.toList)) ≠
        k.toList := by
    intro k other
    rw [firstWord_space keyword.nonblank]
    exact other
  have fits := (afterKeyword_append "attribute" declared (shortest blankWord)).trans
    (shortest_blankWord h.type.written.solid h.name)
  have readOnly := optionalKeyword_optionally "readonly" (by decide) a.readOnly solid
    (first "readonly" (by decide)) fits
  refine optionalKeyword_optionally "static" (by decide) a.isStatic
    (solid_optionally (by decide) a.readOnly solid) ?_ readOnly
  cases a.readOnly with
  | false => exact first "static" (by decide)
  | true =>
    rw [optionally, if_pos rfl, List.append_assoc]
    have other : Word "readonly".toList := by decide
    exact (firstWord_space other.nonblank _).trans_ne (by decide)

/-- A reader that finds nothing in any rest of a text. -/
def Fails (read : List Char → Option α) (s : List Char) : Prop := ∀ v, v <:+ s → read v = none

section Failing

variable {read : List Char → Option α}

theorem Fails.shortest (h : Fails read s) : Fails (shortest read) s := by
  intro v suffix
  induction v with
  | nil => rfl
  | cons c v ih =>
    have later := (List.suffix_cons c v).trans suffix
    rw [Text.shortest, h v later, ih later]
    rfl

theorem Fails.afterBlanks (h : Fails read s) : Fails (afterBlanks read) s := by
  intro v suffix
  induction v with
  | nil => rfl
  | cons c v ih =>
    have later := (List.suffix_cons c v).trans suffix
    rw [Text.afterBlanks, h v later, ih later, Option.none_or, ite_self]

theorem Fails.afterKeyword (h : Fails read s) (keyword : String) :
    Fails (afterKeyword keyword read) s := by
  intro v suffix
  rw [Text.afterKeyword]
  cases found : keyword.toList.isPrefixOf? v with
  | none => rfl
  | some r =>
    have left : r <:+ v := ⟨_, List.isPrefixOf?_eq_some_iff_append_eq.1 found⟩
    exact h.afterBlanks r (left.trans suffix)

theorem Fails.optionalKeyword (h : Fails read s) (keyword : String) :
    Fails (optionalKeyword keyword read) s := by
  intro v suffix
  rw [Text.optionalKeyword, h.afterKeyword keyword v suffix, h v suffix]
  rfl

end Failing

theorem mem_trimLeft (nonblank : isBlank c = false) (member : c ∈ s) : c ∈ trimLeft s := by
  rw [← List.takeWhile_append_dropWhile (p := isBlank) (l := s), List.mem_append] at member
  rcases member with blank | left
  · rw [List.mem_takeWhile_imp blank] at nonblank
    cases nonblank
  · exact left

theorem fails_blankWord (nonword : isWord c = false) (nonblank : isBlank c = false)
    (r : List Char) :
    Fails blankWord (r ++ [c]) := by
  intro v suffix
  rcases List.suffix_concat_iff.1 suffix with rfl | ⟨v, rfl, -⟩
  · rfl
  · rw [blankWord.eq_def]
    split
    · rfl
    · rw [wholeWord_eq_none (mem_trimLeft nonblank (by simp)) nonword, ite_self]

/-- What ends with a closing parenthesis declares no attribute. -/
theorem attributeShape_eq_none (r : List Char) : attributeShape (r ++ [')']) = none := by
  have words := fails_blankWord (c := ')') (by decide) (by decide) r
  exact ((words.shortest.afterKeyword _).optionalKeyword _).optionalKeyword _ _ (List.suffix_refl _)

theorem parenthesised_append (w : List Char) : parenthesised ('(' :: (w ++ [')'])) = some w := by
  simp [parenthesised, trimLeft_cons (show isBlank '(' = false by decide), expect, endingWith]

/-- An argument list begins nowhere in a text without an opening parenthesis. -/
theorem parenthesised_eq_none (solid : Solid t) (free : '(' ∉ t) (suffix : v <:+ t)
    (nonempty : v ≠ []) (rest : List Char) : parenthesised (v ++ rest) = none := by
  obtain ⟨r, last, rfl, nonblank, -⟩ := solid.suffix suffix nonempty
  obtain ⟨c, x, trimmed, -, inside⟩ := exists_trimLeft_append nonblank r rest
  have other : c ≠ '(' := by
    rintro rfl
    exact free ((inside.trans suffix).subset (by simp))
  rw [List.append_assoc, List.singleton_append, parenthesised, trimmed, List.cons_append, expect,
    if_neg other]
  rfl

theorem shortest_parenthesised (solid : Solid t) (free : '(' ∉ t) (w : List Char) :
    shortest parenthesised (t ++ ' ' :: '(' :: (w ++ [')'])) = some (t, w) := by
  refine shortest_append solid.ne_nil (fun v suffix nonempty => ?_) ?_
  · exact parenthesised_eq_none solid free suffix nonempty _
  · have list := Solid.enclosed (o := '(') (e := ')') (by decide) (by decide) w
    have found := parenthesised_append w
    rw [parenthesised, list.trimLeft] at found
    rw [parenthesised, list.trimLeft_space]
    exact found

theorem nameAndArguments_eq_none
    (h : ∀ name rest, readWord (trimLeft s) = some (name, rest) → parenthesised rest = none) :
    nameAndArguments s = none := by
  cases s with
  | nil => rfl
  | cons c r =>
    rw [nameAndArguments]
    split
    · cases found : readWord (trimLeft (c :: r)) with
      | none => rfl
      | some p => simp [h p.1 p.2 found]
    · rfl

theorem readWord_rest {name rest : List Char} (stops : Stops v)
    (found : readWord (u ++ v) = some (name, rest)) : rest = u.dropWhile isWord ++ v := by
  have stopped : v.dropWhile isWord = v := by
    cases v with
    | nil => rfl
    | cons c r => exact List.dropWhile_cons_of_neg (by simp [stops c r rfl])
  rw [readWord] at found
  split at found
  · cases found
  · cases found
    rw [List.dropWhile_append, stopped]
    split
    · rename_i none
      rw [List.isEmpty_iff.1 none, List.nil_append]
    · rfl

theorem shortest_nameAndArguments {n : List Char} (solid : Solid t) (free : '(' ∉ t) (word : Word n)
    (w : List Char) :
    shortest nameAndArguments (t ++ ' ' :: (n ++ '(' :: (w ++ [')']))) = some (t, n, w) := by
  have space : isBlank ' ' = true := by decide
  have list := Solid.enclosed (o := '(') (e := ')') (by decide) (by decide) w
  have named := word.solid.append list
  refine shortest_append solid.ne_nil (fun v suffix nonempty => ?_) ?_
  · refine nameAndArguments_eq_none fun name rest found => ?_
    obtain ⟨r, last, rfl, nonblank, -⟩ := solid.suffix suffix nonempty
    rw [List.append_assoc, List.singleton_append] at found
    obtain ⟨c, x, trimmed, -, inside⟩ :=
      exists_trimLeft_append nonblank r (' ' :: (n ++ '(' :: (w ++ [')'])))
    rw [trimmed] at found
    rw [readWord_rest (stops_cons (by decide) _) found]
    by_cases used : (c :: x).dropWhile isWord = []
    · -- the word reached the end of the type, and the name stands where a parenthesis should
      obtain ⟨d, y, rfl⟩ := List.exists_cons_of_ne_nil word.nonempty
      have other : d ≠ '(' := by
        rintro rfl
        exact word.not_mem (by decide) List.mem_cons_self
      rw [used, List.nil_append, parenthesised, named.trimLeft_space, List.cons_append, expect,
        if_neg other]
      rfl
    · exact parenthesised_eq_none solid free
        ((List.dropWhile_suffix isWord).trans (inside.trans suffix)) used _
  · rw [nameAndArguments, if_pos space, named.trimLeft_space,
      readWord_append word (stops_cons (by decide) _)]
    simp [parenthesised_append]

theorem operationShape_render {o : Operation} (h : o.WellFormed) :
    operationShape (optionally o.isStatic "static" ++ (o.returnType.print ++ ' ' ::
        (o.name.toList ++ '(' :: (renderArguments o.arguments ++ [')'])))) =
      some (o.isStatic, o.returnType.print, o.name.toList, renderArguments o.arguments) := by
  have written := h.returnType.written
  have solid := written.solid.spaced (h.arguments.item h.name).solid
  exact optionalKeyword_optionally "static" (by decide) o.isStatic solid
    (written.firstWord_ne (by decide) h.keyword _)
    (shortest_nameAndArguments written.solid (written.no_parenthesis h.single) h.name _)

theorem callbackShape_render {d : Callback} (h : d.WellFormed) :
    callbackShape d.render =
      some (d.name.toList, d.returnType.print, renderArguments d.arguments) := by
  have written := h.returnType.written
  have list :=
    Solid.enclosed (o := '(') (e := ')') (by decide) (by decide) (renderArguments d.arguments)
  have declared := written.solid.spaced list
  have solid := h.name.solid.between declared " = ".toList
  have found := shortest_parenthesised written.solid (written.no_parenthesis h.single)
    (renderArguments d.arguments)
  have stops : ∀ x, Stops (" = ".toList ++ x) := fun x => stops_cons (c := ' ') (by decide) _
  have named := readWord_append h.name (stops (d.returnType.print ++ ' ' ::
    '(' :: (renderArguments d.arguments ++ [')'])))
  have equals : ∀ x, expect '=' (trimLeft (" = ".toList ++ x)) = some (' ' :: x) := fun x => by
    simp [trimLeft, isBlank, expect]
  refine (afterKeyword_append "callback" solid _).trans ?_
  simp only [named, Option.bind_eq_bind, Option.bind_some, equals, afterAnyBlanks,
    afterBlanks_space declared, found]
  rfl

theorem readParent_parentText {parent : Option String} (words : ∀ n ∈ parent, Word n.toList)
    (w : List Char) :
    readParent (parentText parent ++ ' ' :: '{' :: w) =
      some (parent.map String.toList, '{' :: w) := by
  have brace : trimLeft (' ' :: '{' :: w) = '{' :: w := by simp [trimLeft, isBlank]
  cases parent with
  | none =>
    rw [readParent, show parentText none = [] from rfl, List.nil_append, brace]
    rfl
  | some n =>
    have word := words n rfl
    have named := readWord_append word (stops_cons (c := ' ') (by decide) ('{' :: w))
    have above :
        parentText (some n) ++ ' ' :: '{' :: w = " : ".toList ++ (n.toList ++ ' ' :: '{' :: w) := by
      simp [parentText]
    have colon : ∀ x, expect ':' (trimLeft (" : ".toList ++ x)) = some (' ' :: x) := fun x => by
      simp [trimLeft, isBlank, expect]
    have trimmed :
        trimLeft (' ' :: (n.toList ++ ' ' :: '{' :: w)) = n.toList ++ ' ' :: '{' :: w := by
      rw [trimLeft, List.dropWhile_cons_of_pos (by decide)]
      exact word.solid.trimLeft_append _
    rw [readParent, above, colon]
    simp only [trimmed, named, brace, Option.bind_eq_bind, Option.bind_some]
    rfl

theorem interfaceShape_text {name : String} {parent : Option String} (named : Word name.toList)
    (words : ∀ n ∈ parent, Word n.toList) (members : List Char) :
    interfaceShape ("interface".toList ++ ' ' :: (name.toList ++ (parentText parent ++
        ' ' :: '{' :: (members ++ ['}'])))) =
          some (name.toList, parent.map String.toList, members) := by
  have body := Solid.enclosed (o := '{') (e := '}') (by decide) (by decide) members
  have solid := named.solid.between body (parentText parent ++ [' '])
  rw [List.append_assoc] at solid
  have stops : Stops (parentText parent ++ ' ' :: '{' :: (members ++ ['}'])) := by
    cases parent <;> exact stops_cons (c := ' ') (by decide) _
  refine (afterKeyword_append "interface" solid _).trans ?_
  simp only [List.singleton_append, readWord_append named stops, Option.bind_eq_bind,
    Option.bind_some, readParent_parentText words]
  simp [expect, endingWith]

/-! ## Lists -/

/-- A text with blanks before it. -/
def Led (text w : List Char) : Prop := ∃ blanks, Blank blanks ∧ text = blanks ++ w

theorem Led.trim (h : Led s w) (solid : Solid w) : trim s = w := by
  obtain ⟨blanks, blank, rfl⟩ := h
  exact solid.trim_append blank

theorem led_space (w : List Char) : Led (' ' :: w) w := ⟨[' '], by decide, rfl⟩

/-- The parts of a list between its commas. -/
def commaParts : List (List Char) → List (List Char)
  | [] => []
  | w :: ws => w :: ws.map (' ' :: ·)

theorem join_commaParts (items : List (List Char)) :
    join ", ".toList items = join [','] (commaParts items) := by
  induction items with
  | nil => rfl
  | cons w ws ih =>
    cases ws with
    | nil => rfl
    | cons v vs =>
      have space : join [','] ((' ' :: v) :: vs.map (' ' :: ·)) =
          ' ' :: join [','] (commaParts (v :: vs)) := by
        cases vs <;> simp [join, commaParts]
      have parts : commaParts (w :: v :: vs) = w :: (' ' :: v) :: vs.map (' ' :: ·) := rfl
      rw [join_cons (by simp), ih, parts, join_cons (by simp), space]
      rfl

theorem led_commaParts (items : List (List Char)) : List.Forall₂ Led (commaParts items) items := by
  cases items with
  | nil => exact .nil
  | cons w ws =>
    refine .cons ⟨[], by decide, rfl⟩ ?_
    exact List.forall₂_map_left_iff.2 (List.forall₂_same.2 fun v _ => led_space v)

theorem split_commas {items : List (List Char)} (nonempty : items ≠ [])
    (each : ∀ i ∈ items, Between ',' i) :
    split [','] (join ", ".toList items) = .ok (commaParts items) := by
  refine (split_eq_ok_iff (by decide)).2 ⟨divides_of_between ?_ ?_, join_commaParts items⟩
  · obtain ⟨w, ws, rfl⟩ := List.exists_cons_of_ne_nil nonempty
    simp [commaParts]
  · obtain ⟨w, ws, rfl⟩ := List.exists_cons_of_ne_nil nonempty
    obtain ⟨first, others⟩ := List.forall_mem_cons.1 each
    refine List.forall_mem_cons.2 ⟨first, fun p member => ?_⟩
    obtain ⟨v, there, rfl⟩ := List.mem_map.1 member
    have space : Between ',' [' '] := Flat.between (by simp [Flat, opens, closes]) (by decide)
    exact space.append (others v there)

/-- Texts are read back one by one if each is, behind whatever blanks. -/
theorem mapM_of_led {ε β : Type} {read : List Char → Except ε β} {parts texts : List (List Char)}
    {items : List β} (led : List.Forall₂ Led parts texts)
    (each : List.Forall₂ (fun w i => ∀ p, Led p w → read p = .ok i) texts items) :
    parts.mapM read = .ok items :=
  except_mapM_eq_ok_iff.2 (forall₂_compose (fun p _ _ led back => back p led) led each)

theorem mapM_of_led_map {ε β : Type} {read : List Char → Except ε β} {render : β → List Char}
    {parts : List (List Char)} {items : List β} (led : List.Forall₂ Led parts (items.map render))
    (each : ∀ i ∈ items, ∀ p, Led p (render i) → read p = .ok i) : parts.mapM read = .ok items :=
  mapM_of_led led (List.forall₂_map_left_iff.2 (List.forall₂_same.2 each))

/-! ## Attribute lists -/

theorem readAttr_of_shape (shape : AttrShape) (nonempty : w ≠ []) (h : attrShape w = some shape) :
    readAttr w =
      match shape with
      | .value name value => .ok (some (.value (String.ofList name) (String.ofList value)))
      | .call name arguments => do
        return some (.call (String.ofList name) (← readArguments arguments))
      | .bare name => .ok (some (.bare (String.ofList name))) := by
  rw [readAttr, if_neg nonempty]
  split <;> rename_i found <;> rw [h] at found <;> cases found <;> rfl

theorem readAttr_bare (word : Word w) : readAttr w = .ok (some (.bare (String.ofList w))) := by
  have read : readWord w = some (w, []) := by
    have ends : Stops [] := by rintro c r ⟨⟩
    simpa using readWord_append word ends
  refine readAttr_of_shape (.bare w) word.nonempty ?_
  simp [attrShape, valueShape, callShape, read, trimLeft, expect, wholeWord_of_word word]

theorem readAttr_value (hu : Word u) (hv : Word v) :
    readAttr (u ++ '=' :: v) = .ok (some (.value (String.ofList u) (String.ofList v))) := by
  have read := readWord_append hu (stops_cons (c := '=') (by decide) v)
  refine readAttr_of_shape (.value u v) (by simp [hu.nonempty]) ?_
  simp [attrShape, valueShape, read, trimLeft_cons (show isBlank '=' = false by decide), expect,
    hv.solid.trimLeft, wholeWord_of_word hv]

theorem readAttr_call (hu : Word u) {args : List Argument}
    (arguments : readArguments w = .ok args) :
    readAttr (u ++ '(' :: (w ++ [')'])) = .ok (some (.call (String.ofList u) args)) := by
  have read := readWord_append hu (stops_cons (c := '(') (by decide) (w ++ [')']))
  have shape : attrShape (u ++ '(' :: (w ++ [')'])) = some (.call u w) := by
    simp [attrShape, valueShape, callShape, read,
      trimLeft_cons (show isBlank '(' = false by decide), expect, endingWith]
  rw [readAttr_of_shape _ (by simp [hu.nonempty]) shape]
  simp only [arguments]
  rfl

/-- An item and the attribute that it is read as. -/
def ReadsAs (item : List Char) (a : ExtAttr) : Prop := readAttr item = .ok (some a)

theorem readsAs_if {p : Prop} [Decidable p] {name : String} (word : Word name.toList) :
    List.Forall₂ ReadsAs (if p then [name.toList] else []) (if p then [.bare name] else []) := by
  split
  · refine .cons ?_ .nil
    simpa [ReadsAs] using readAttr_bare word
  · exact .nil

theorem readAttrs_eq_ok {parts : List (List Char)} {attrs : List ExtAttr}
    (divided : split [','] s = .ok parts)
    (each : List.Forall₂ (fun p a => readAttr (trim p) = .ok (some a)) parts attrs) :
    readAttrs s = .ok attrs := by
  have all : parts.mapM (fun p => readAttr (trim p)) = .ok (attrs.map some) :=
    except_mapM_eq_ok_iff.2 (List.forall₂_map_right_iff.2 each)
  have divided' := TypeExpr.splitText_eq_ok_iff.2 divided
  rw [readAttrs]
  split
  · rename_i failed
    rw [divided'] at failed
    cases failed
  · rename_i found
    rw [divided'] at found
    cases found
    rw [← except_mapM_attach] at all
    refine except_bind_eq_ok_iff.2 ⟨attrs.map some, all, ?_⟩
    simp only [pure, Except.pure, List.filterMap_map, Function.id_comp, List.filterMap_some]

theorem takeAttrs_none (h : expect '[' (trim s) = none) : takeAttrs s = .ok ([], trim s) := by
  rw [takeAttrs]
  split
  · rfl
  · rename_i found
    rw [h] at found
    cases found

theorem takeAttrs_some {opened inner rest : List Char} (h : expect '[' (trim s) = some opened)
    (closed : readBracket 0 opened = some (inner, rest)) {attrs : List ExtAttr}
    (read : readAttrs inner = .ok attrs) : takeAttrs s = .ok (attrs, trim rest) := by
  rw [takeAttrs]
  split
  · rename_i none
    rw [h] at none
    cases none
  · rename_i found
    rw [h] at found
    cases found
    split
    · rename_i none
      rw [closed] at none
      cases none
    · rename_i same
      rw [closed] at same
      cases same
      rw [read]
      rfl

theorem takeAttrs_attrList {items : List (List Char)} {attrs : List ExtAttr}
    (each : ∀ i ∈ items, Item i) (read : List.Forall₂ ReadsAs items attrs) (solid : Solid w)
    (first : w.head? ≠ some '[') (led : Led s (attrList items ++ w)) :
    takeAttrs s = .ok (attrs, w) := by
  have trimmed := led.trim (solid_attrList items solid)
  by_cases none : items = []
  · subst none
    cases read
    rw [show attrList [] = [] from rfl, List.nil_append] at trimmed
    have absent : expect '[' (trim s) = none := by
      obtain ⟨c, r, rfl, -⟩ := solid.first
      rw [trimmed, expect, if_neg (by simpa using first)]
    rw [takeAttrs_none absent, trimmed]
  · have list := (inner_commas fun i member => (each i member).toInner).square
    have text : attrList items ++ w = '[' :: (join ", ".toList items ++ ']' :: ' ' :: w) := by
      simp [attrList, none]
    have opened : expect '[' (trim s) = some (join ", ".toList items ++ ']' :: ' ' :: w) := by
      rw [trimmed, text, expect, if_pos rfl]
    have closed : readBracket 0 (join ", ".toList items ++ ']' :: ' ' :: w) =
        some (join ", ".toList items, ' ' :: w) := by
      rw [list]
      simp [readBracket]
    have divided := split_commas none fun i member => (each i member).between
    have back := forall₂_compose (T := fun p a => readAttr (trim p) = .ok (some a)) ?_
      (led_commaParts items) ((List.forall₂_and_left _ _).2 ⟨each, read⟩)
    · rw [takeAttrs_some opened closed (readAttrs_eq_ok divided back), (led_space w).trim solid]
    · rintro p i a led ⟨item, same⟩
      rw [led.trim item.solid]
      exact same

/-! ## Arguments -/

def flagAttrs (f : Flags) : List ExtAttr :=
  (if f.byRef then [.bare "Ref"] else []) ++ (if f.byValue then [.bare "Value"] else []) ++
    if f.isConst then [.bare "Const"] else []

theorem readsAs_flagAttrs (f : Flags) : List.Forall₂ ReadsAs f.items (flagAttrs f) :=
  List.rel_append (List.rel_append (readsAs_if (by decide)) (readsAs_if (by decide)))
    (readsAs_if (by decide))

theorem flagsOf_flagAttrs (f : Flags) : flagsOf (flagAttrs f) = f := by
  obtain ⟨byRef, byValue, isConst⟩ := f
  revert byRef byValue isConst
  decide

theorem lateRequired_eq_none {args : List Argument}
    (h : args.Pairwise fun a b => a.optional = true → b.optional = true) :
    lateRequired args = none := by
  induction h with
  | nil => rfl
  | cons later _ ih =>
    rw [lateRequired]
    split
    · rename_i optional
      exact List.find?_eq_none.2 fun b member => by simp [later b member optional]
    · exact ih

theorem head?_ne (nonempty : u ≠ []) (free : c ∉ u) (rest : List Char) :
    (u ++ rest).head? ≠ some c := by
  obtain ⟨d, r, rfl⟩ := List.exists_cons_of_ne_nil nonempty
  rintro ⟨⟩
  exact free List.mem_cons_self

theorem head?_optionally {keyword : String} (word : Word keyword.toList) (present : Bool)
    (h : w.head? ≠ some '[') : (optionally present keyword ++ w).head? ≠ some '[' := by
  cases present with
  | false => exact h
  | true =>
    rw [optionally, if_pos rfl, List.append_assoc]
    exact head?_ne word.nonempty (word.not_mem (by decide)) _

theorem head?_print {t : TypeExpr} (h : t.Written) (rest : List Char) :
    (t.print ++ rest).head? ≠ some '[' :=
  head?_ne h.solid.ne_nil (h.not_mem (by decide)) rest

theorem readArgument_render {a : Argument} (h : a.WellFormed) (led : Led s a.render) :
    readArgument s = .ok a := by
  have declared := h.type.written.solid.spaced h.name.solid
  have taken := takeAttrs_attrList a.flags.item_of_mem
    (readsAs_flagAttrs a.flags) (solid_optionally (by decide) a.optional declared)
    (head?_optionally (by decide) a.optional (head?_print h.type.written _)) led
  rw [readArgument, taken]
  simp only [bind, Except.bind, argumentShape_render h, h.type.written.parse_print,
    flagsOf_flagAttrs, String.ofList_toList, pure, Except.pure]

/-- A list of arguments is blank, or its items are read one by one, and then no required argument
may stand behind an optional one. -/
theorem readArguments_eq_ok_iff {args : List Argument} :
    readArguments s = .ok args ↔ trim s = [] ∧ args = [] ∨ trim s ≠ [] ∧ ∃ parts,
      splitText [','] s = .ok parts ∧ parts.mapM readArgument = .ok args ∧
        lateRequired args = none := by
  rw [readArguments]
  split
  · rename_i blank
    simp [blank, eq_comm]
  · rename_i solid
    simp only [solid, false_and, false_or, ne_eq, not_false_eq_true, true_and]
    split
    · rename_i failed
      simp only [failed, reduceCtorEq, false_and, exists_false]
    · rename_i parts divided
      simp only [divided, Except.ok.injEq, exists_eq_left']
      rw [except_bind_eq_ok_iff, except_mapM_attach readArgument]
      constructor
      · rintro ⟨found, all, checked⟩
        split at checked
        · cases checked
        · rename_i none
          cases checked
          exact ⟨all, none⟩
      · rintro ⟨all, none⟩
        refine ⟨args, all, ?_⟩
        rw [none]

theorem readArguments_render {args : List Argument} (h : ArgumentsWellFormed args) :
    readArguments (renderArguments args) = .ok args := by
  rw [readArguments_eq_ok_iff]
  by_cases none : args = []
  · exact .inl ⟨by rw [none]; decide, none⟩
  · have nonempty : args.map Argument.render ≠ [] := by simpa using none
    have solid : Solid (renderArguments args) :=
      join_of_all (fun u v hu hv => hu.between hv ", ".toList) nonempty
        (List.forall_mem_map.2 fun a there => (h.each a there).solid)
    have divided := split_commas nonempty
      (List.forall_mem_map.2 fun a there => ((h.each a there).piece (.inl rfl)).between)
    have read : (commaParts (args.map Argument.render)).mapM readArgument = .ok args :=
      mapM_of_led_map (led_commaParts _) fun a there p led =>
        readArgument_render (h.each a there) led
    have visible : trim (renderArguments args) ≠ [] := by
      rw [solid.trim]
      exact solid.ne_nil
    exact .inr ⟨visible, _, TypeExpr.splitText_eq_ok_iff.2 divided, read,
      lateRequired_eq_none h.optionalLast⟩

/-! ## Members -/

def aliasAttrs (cppName : Option String) : List ExtAttr := cppName.toList.map (.value "CppName")

theorem readsAs_aliasAttrs {cppName : Option String} (words : ∀ n ∈ cppName, Word n.toList) :
    List.Forall₂ ReadsAs (aliasItems cppName) (aliasAttrs cppName) := by
  cases cppName with
  | none => exact .nil
  | some n =>
    refine .cons ?_ .nil
    simpa [ReadsAs] using readAttr_value (u := "CppName".toList) (by decide) (words n rfl)

theorem hasAttr_append (attrs more : List ExtAttr) (name : String) :
    hasAttr (attrs ++ more) name = (hasAttr attrs name || hasAttr more name) := List.any_append

theorem hasAttr_aliasAttrs {name : String} (other : name ≠ "CppName") (cppName : Option String) :
    hasAttr (aliasAttrs cppName) name = false := by
  cases cppName <;> simp [hasAttr, aliasAttrs, ExtAttr.name, other.symm]

theorem flagsOf_alias (f : Flags) (cppName : Option String) :
    flagsOf (flagAttrs f ++ aliasAttrs cppName) = f := by
  have same : ∀ name, name ≠ "CppName" →
      hasAttr (flagAttrs f ++ aliasAttrs cppName) name = hasAttr (flagAttrs f) name := by
    intro name other
    rw [hasAttr_append, hasAttr_aliasAttrs other, Bool.or_false]
  rw [flagsOf, same "Ref" (by decide), same "Value" (by decide), same "Const" (by decide)]
  exact flagsOf_flagAttrs f

theorem attrValue_append {attrs more : List ExtAttr} {name : String}
    (other : ∀ a ∈ attrs, a.name ≠ name) :
    attrValue (attrs ++ more) name = attrValue more name := by
  have none : attrs.find? (·.name = name) = none := List.find?_eq_none.2 (by simpa using other)
  rw [attrValue, attrValue, List.find?_append, none, Option.none_or]

theorem attrValue_alias (cppName : Option String) (more : List ExtAttr)
    (other : ∀ a ∈ more, a.name ≠ "CppName") :
    attrValue (aliasAttrs cppName ++ more) "CppName" = cppName := by
  cases cppName with
  | some n => simp [attrValue, aliasAttrs, ExtAttr.name, ExtAttr.value?]
  | none =>
    have absent : more.find? (·.name = "CppName") = none :=
      List.find?_eq_none.2 (by simpa using other)
    rw [show aliasAttrs none = [] from rfl, List.nil_append, attrValue, absent]
    rfl

theorem readMember_attribute {a : Attribute} (h : a.WellFormed) (led : Led s a.render) :
    readMember s = .ok (.attribute a) := by
  have keyword : Word "attribute".toList := by decide
  have declared := keyword.solid.spaced (h.type.written.solid.spaced h.name.solid)
  have taken := takeAttrs_attrList a.flags.item_of_mem
    (readsAs_flagAttrs a.flags)
    (solid_optionally (by decide) a.isStatic (solid_optionally (by decide) a.readOnly declared))
    (head?_optionally (by decide) a.isStatic (head?_optionally (by decide) a.readOnly
      (head?_ne keyword.nonempty (by decide) _))) led
  rw [readMember, taken]
  simp only [bind, Except.bind, attributeShape_render h, h.type.written.parse_print,
    flagsOf_flagAttrs, String.ofList_toList, pure, Except.pure]

theorem readMember_operation {o : Operation} (h : o.WellFormed) (led : Led s o.render) :
    readMember s = .ok (.operation o) := by
  have written := h.returnType.written
  have declared := written.solid.spaced (h.arguments.item h.name).solid
  have taken := takeAttrs_attrList h.item_of_mem
    (List.rel_append (readsAs_flagAttrs o.flags) (readsAs_aliasAttrs h.cppName))
    (solid_optionally (by decide) o.isStatic declared)
    (head?_optionally (by decide) o.isStatic (head?_print written _)) led
  have other : attributeShape (optionally o.isStatic "static" ++ (o.returnType.print ++ ' ' ::
      (o.name.toList ++ '(' :: (renderArguments o.arguments ++ [')'])))) = none := by
    have none :=
      attributeShape_eq_none (optionally o.isStatic "static" ++ (o.returnType.print ++ ' ' ::
        (o.name.toList ++ '(' :: renderArguments o.arguments)))
    simpa only [List.append_assoc, List.cons_append] using none
  have named : attrValue (flagAttrs o.flags ++ aliasAttrs o.cppName) "CppName" = o.cppName := by
    have flags : ∀ f, ∀ a ∈ flagAttrs f, a.name ≠ "CppName" := by
      rintro ⟨byRef, byValue, isConst⟩
      revert byRef byValue isConst
      decide
    rw [attrValue_append (flags o.flags)]
    simpa using attrValue_alias o.cppName [] (by simp)
  rw [readMember, taken]
  simp only [bind, Except.bind, other, operationShape_render h, written.parse_print,
    readArguments_render h.arguments, flagsOf_alias, named, String.ofList_toList, pure, Except.pure]

end NativeBridge.Idl
