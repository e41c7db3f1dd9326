import NativeBridge.Idl.Source
import NativeBridge.Proofs.TypeText

/-!
# Declarations in their written form

Every part of a declaration has one documented place. A part that is absent is left out, together
with what would separate it from its neighbour. Statements may have any blanks between them, the
members of an interface any order that keeps its operations and its attributes in theirs, and the
declarations of a source any order that keeps each kind in its own.
-/
namespace NativeBridge

open Text Idl

/-! ## Written forms -/

/-- A list of attributes in square brackets and the space behind it. -/
def attrList (items : List (List Char)) : List Char :=
  if items = [] then [] else '[' :: (join ", ".toList items ++ "] ".toList)

def optionally (present : Bool) (keyword : String) : List Char :=
  if present then keyword.toList ++ [' '] else []

def Flags.items (f : Flags) : List (List Char) :=
  (if f.byRef then ["Ref".toList] else []) ++ (if f.byValue then ["Value".toList] else []) ++
    if f.isConst then ["Const".toList] else []

def aliasItems (cppName : Option String) : List (List Char) :=
  cppName.toList.map fun other => "CppName".toList ++ '=' :: other.toList

def Argument.render (a : Argument) : List Char :=
  attrList a.flags.items ++
    (optionally a.optional "optional" ++ (a.type.print ++ ' ' :: a.name.toList))

def renderArguments (args : List Argument) : List Char :=
  join ", ".toList (args.map Argument.render)

def Operation.render (o : Operation) : List Char :=
  attrList (o.flags.items ++ aliasItems o.cppName) ++ (optionally o.isStatic "static" ++
    (o.returnType.print ++ ' ' :: (o.name.toList ++ '(' :: (renderArguments o.arguments ++ [')']))))

def Attribute.render (a : Attribute) : List Char :=
  attrList a.flags.items ++ (optionally a.isStatic "static" ++ (optionally a.readOnly "readonly" ++
    ("attribute".toList ++ ' ' :: (a.type.print ++ ' ' :: a.name.toList))))

def Idl.Member.render : Member → List Char
  | .attribute a => a.render
  | .operation o => o.render

def Typedef.render (t : Typedef) : List Char :=
  "typedef".toList ++ ' ' :: (t.type.print ++ ' ' :: t.name.toList)

def Callback.render (c : Callback) : List Char :=
  "callback".toList ++ ' ' :: (c.name.toList ++ (" = ".toList ++
    (c.returnType.print ++ ' ' :: '(' :: (renderArguments c.arguments ++ [')']))))

def constructorItem (args : List Argument) : List Char :=
  "Constructor".toList ++ '(' :: (renderArguments args ++ [')'])

def Interface.items (i : Interface) : List (List Char) :=
  i.constructors.map constructorItem ++ aliasItems i.cppName ++
    (if i.ownership = .shared then ["Shared".toList] else []) ++
    if i.nonDestructible then ["NoDestroy".toList] else []

def ValueType.items (v : ValueType) : List (List Char) :=
  aliasItems v.cppName ++ ["ValueType".toList]

def parentText (parent : Option String) : List Char :=
  parent.toList.flatMap fun p => " : ".toList ++ p.toList

/-- An interface with the text of its members. -/
def interfaceText (items : List (List Char)) (name : String) (parent : Option String)
    (members : List Char) : List Char :=
  attrList items ++ ("interface".toList ++ ' ' ::
    (name.toList ++ (parentText parent ++ ' ' :: '{' :: (members ++ ['}']))))

/-- Statements one after another, each ended by a semicolon, with any blanks around them. -/
inductive Sequenced : List (List Char) → List Char → Prop
  | done {blanks : List Char} (blank : Blank blanks) : Sequenced [] blanks
  | next {blanks statement text : List Char} {more : List (List Char)}
    (blank : Blank blanks) (rest : Sequenced more text) :
    Sequenced (statement :: more) (blanks ++ (statement ++ ';' :: text))

inductive Declaration.Rendered : Declaration → List Char → Prop
  | typedef (t : Typedef) : Rendered (.typedef t) t.render
  | callback (c : Callback) : Rendered (.callback c) c.render
  | valueType (v : ValueType) {text : List Char}
    (members : Sequenced (v.fields.map Attribute.render) text) :
    Rendered (.valueType v) (interfaceText v.items v.name v.parent text)
  | interface (i : Interface) {order : List Member} {text : List Char}
    (operations : operationsOf order = i.operations)
    (attributes : attributesOf order = i.attributes)
    (members : Sequenced (order.map Member.render) text) :
    Rendered (.interface i) (interfaceText i.items i.name i.parent text)

/-- A source that holds the given declarations and nothing else. -/
def Declarations.Rendered (ds : Declarations) (source : String) : Prop :=
  ∃ order texts, .ofList order = ds ∧ List.Forall₂ Declaration.Rendered order texts ∧
    Sequenced texts source.toList

/-! ## Declarations that have a written form -/

/-- A type that some text is read as. -/
def TypeExpr.Readable (t : TypeExpr) : Prop := ∃ text, parse text = .ok t

structure Argument.WellFormed (a : Argument) : Prop where
  name : Word a.name.toList
  type : a.type.Readable
  keyword : firstWord a.type.name.toList ≠ "optional".toList

/-- Arguments with all optional ones last. -/
structure ArgumentsWellFormed (args : List Argument) : Prop where
  each : ∀ a ∈ args, a.WellFormed
  optionalLast : args.Pairwise fun a b => a.optional = true → b.optional = true

structure Operation.WellFormed (o : Operation) : Prop where
  name : Word o.name.toList
  returnType : o.returnType.Readable
  single : o.returnType.hasUnion = false
  keyword : firstWord o.returnType.name.toList ≠ "static".toList
  arguments : ArgumentsWellFormed o.arguments
  cppName : ∀ n ∈ o.cppName, Word n.toList

structure Attribute.WellFormed (a : Attribute) : Prop where
  name : Word a.name.toList
  type : a.type.Readable

structure Typedef.WellFormed (t : Typedef) : Prop where
  name : Word t.name.toList
  type : t.type.Readable

structure Callback.WellFormed (c : Callback) : Prop where
  name : Word c.name.toList
  returnType : c.returnType.Readable
  single : c.returnType.hasUnion = false
  arguments : ArgumentsWellFormed c.arguments

structure ValueType.WellFormed (v : ValueType) : Prop where
  name : Word v.name.toList
  parent : ∀ n ∈ v.parent, Word n.toList
  cppName : ∀ n ∈ v.cppName, Word n.toList
  fields : ∀ a ∈ v.fields, a.WellFormed

structure Interface.WellFormed (i : Interface) : Prop where
  name : Word i.name.toList
  parent : ∀ n ∈ i.parent, Word n.toList
  cppName : ∀ n ∈ i.cppName, Word n.toList
  constructors : ∀ args ∈ i.constructors, ArgumentsWellFormed args
  operations : ∀ o ∈ i.operations, o.WellFormed
  attributes : ∀ a ∈ i.attributes, a.WellFormed

structure Declarations.WellFormed (ds : Declarations) : Prop where
  interfaces : ∀ i ∈ ds.interfaces, i.WellFormed
  valueTypes : ∀ v ∈ ds.valueTypes, v.WellFormed
  callbacks : ∀ c ∈ ds.callbacks, c.WellFormed
  typedefs : ∀ t ∈ ds.typedefs, t.WellFormed

/-! ## Texts inside brackets -/

/-- A text that a square bracket around it encloses whole. -/
def SquareClosed (w : List Char) : Prop :=
  ∀ d rest, readBracket d (w ++ rest) = (readBracket d rest).map fun p => (w ++ p.1, p.2)

variable {u v w : List Char} {c : Char}

theorem SquareClosed.append (hu : SquareClosed u) (hv : SquareClosed v) :
    SquareClosed (u ++ v) := by
  intro d rest
  rw [List.append_assoc, hu, hv, Option.map_map]
  simp [Function.comp_def]

theorem SquareClosed.of_not_mem (opener : '[' ∉ w) (closer : ']' ∉ w) : SquareClosed w := by
  intro d rest
  induction w with
  | nil => simp
  | cons c w ih =>
    simp only [List.mem_cons, not_or] at opener closer
    rw [List.cons_append, readBracket.eq_def]
    simp only [Ne.symm opener.1, Ne.symm closer.1, if_false, ih opener.2 closer.2, Option.map_map]
    rfl

theorem SquareClosed.bracketed (h : SquareClosed w) : SquareClosed ('[' :: (w ++ [']'])) := by
  intro d rest
  simp only [List.cons_append, List.append_assoc, List.nil_append, readBracket, if_true, h (d + 1),
    Option.map_map]
  simp [Function.comp_def]

/-- A text that may stand inside brackets. -/
structure Inner (w : List Char) : Prop where
  balanced : Balanced w
  square : SquareClosed w
  plain : '/' ∉ w

theorem Inner.append (hu : Inner u) (hv : Inner v) : Inner (u ++ v) where
  balanced := hu.balanced.append hv.balanced
  square := hu.square.append hv.square
  plain := by simp [hu.plain, hv.plain]

theorem inner_of_flat (flat : Flat w) (plain : '/' ∉ w) : Inner w where
  balanced := flat.balanced
  square := by
    refine .of_not_mem (fun member => ?_) fun member => ?_
    · exact absurd (flat _ member).1 (by decide)
    · exact absurd (flat _ member).2 (by decide)
  plain := plain

/-- A text that may also stand between two separators. -/
structure Piece (c : Char) (w : List Char) : Prop extends Inner w where
  between : Between c w

theorem Piece.append (hu : Piece c u) (hv : Piece c v) : Piece c (u ++ v) :=
  ⟨hu.toInner.append hv.toInner, hu.between.append hv.between⟩

theorem Inner.enclosed {o e : Char} (pair : (o, e) ∈ [('(', ')'), ('[', ']'), ('{', '}')])
    (h : Inner w) (c : Char) : Piece c (o :: (w ++ [e])) := by
  have brackets : opens o = true ∧ (opens e = false ∧ closes e = true) ∧ o ≠ '/' ∧ e ≠ '/' := by
    simp only [List.mem_cons, Prod.mk.injEq, List.not_mem_nil, or_false] at pair
    rcases pair with ⟨rfl, rfl⟩ | ⟨rfl, rfl⟩ | ⟨rfl, rfl⟩ <;> decide
  obtain ⟨opener, closer, plain⟩ := brackets
  refine ⟨⟨h.balanced.enclosed opener closer, ?_, ?_⟩, h.balanced.enclosed_between opener closer⟩
  · simp only [List.mem_cons, Prod.mk.injEq, List.not_mem_nil, or_false] at pair
    rcases pair with ⟨rfl, rfl⟩ | ⟨rfl, rfl⟩ | ⟨rfl, rfl⟩
    · exact (SquareClosed.of_not_mem (w := ['(']) (by decide) (by decide)).append
        (h.square.append (.of_not_mem (by decide) (by decide)))
    · exact h.square.bracketed
    · exact (SquareClosed.of_not_mem (w := ['{']) (by decide) (by decide)).append
        (h.square.append (.of_not_mem (by decide) (by decide)))
  · simp [h.plain, plain.1.symm, plain.2.symm]

theorem Inner.parenthesised (h : Inner w) (c : Char) : Piece c ('(' :: (w ++ [')'])) :=
  h.enclosed (by simp) c

theorem Inner.braced (h : Inner w) (c : Char) : Piece c ('{' :: (w ++ ['}'])) :=
  h.enclosed (by simp) c

/-- The characters that end the items of a list. -/
def Separates (c : Char) : Prop := c = ',' ∨ c = ';'

theorem Separates.piece (sep : Separates c) (flat : Flat w) (comma : ',' ∉ w) (semicolon : ';' ∉ w)
    (plain : '/' ∉ w) : Piece c w where
  toInner := inner_of_flat flat plain
  between := flat.between (by rcases sep with rfl | rfl <;> assumption)

theorem Separates.word (sep : Separates c) (word : Word w) : Piece c w :=
  sep.piece word.flat (word.not_mem (by decide)) (word.not_mem (by decide))
    (word.not_mem (by decide))

theorem Separates.print {t : TypeExpr} (sep : Separates c) (h : t.Written) : Piece c t.print where
  balanced := h.balanced
  square := .of_not_mem (h.not_mem (by decide)) (h.not_mem (by decide))
  plain := h.not_mem (by decide)
  between := by
    rcases sep with rfl | rfl <;>
      exact h.between (by decide) (by decide) fun space => absurd space (by decide)

theorem Separates.space (sep : Separates c) : Piece c [' '] :=
  sep.piece (by simp [Flat, opens, closes]) (by decide) (by decide) (by decide)

theorem Separates.spaced (sep : Separates c) (hu : Piece c u) (hv : Piece c v) :
    Piece c (u ++ ' ' :: v) := hu.append (sep.space.append hv)

theorem Separates.optionally (sep : Separates c) {keyword : String} (word : Word keyword.toList)
    (present : Bool) (h : Piece c w) : Piece c (optionally present keyword ++ w) := by
  cases present with
  | false => exact h
  | true =>
    rw [NativeBridge.optionally, if_pos rfl, List.append_assoc]
    exact sep.spaced (sep.word word) h

theorem solid_optionally {keyword : String} (word : Word keyword.toList) (present : Bool)
    (h : Solid w) : Solid (optionally present keyword ++ w) := by
  cases present with
  | false => exact h
  | true =>
    rw [optionally, if_pos rfl, List.append_assoc]
    exact word.solid.spaced h

theorem inner_commas {items : List (List Char)} (each : ∀ i ∈ items, Inner i) :
    Inner (join ", ".toList items) := by
  by_cases nonempty : items = []
  · rw [nonempty]
    exact inner_of_flat (by simp [Flat, join]) (by simp [join])
  · have comma : Inner ", ".toList := inner_of_flat (by simp [Flat, opens, closes]) (by decide)
    exact join_of_all (fun u v hu hv => hu.append (comma.append hv)) nonempty each

theorem Separates.attrList (sep : Separates c) {items : List (List Char)}
    (each : ∀ i ∈ items, Inner i) (h : Piece c w) : Piece c (attrList items ++ w) := by
  rw [NativeBridge.attrList]
  split
  · exact h
  · have list : Piece c ('[' :: (join ", ".toList items ++ [']'])) :=
      (inner_commas each).enclosed (by simp) c
    simpa using sep.spaced list h

theorem solid_attrList (items : List (List Char)) (h : Solid w) : Solid (attrList items ++ w) := by
  rw [attrList]
  split
  · exact h
  · have list :=
      Solid.enclosed (o := '[') (e := ']') (by decide) (by decide) (join ", ".toList items)
    simpa using list.spaced h

/-! ## Rendered texts -/

theorem TypeExpr.Readable.written {t : TypeExpr} (h : t.Readable) : t.Written := by
  obtain ⟨text, read⟩ := h
  exact written_of_parse read

theorem TypeExpr.Written.readable {t : TypeExpr} (h : t.Written) : t.Readable :=
  ⟨t.print, h.parse_print⟩

/-- An item of an attribute list. -/
structure Item (w : List Char) : Prop extends Piece ',' w where
  solid : Solid w

theorem item_word (word : Word w) : Item w := ⟨Separates.word (.inl rfl) word, word.solid⟩

theorem Flags.item_of_mem (f : Flags) : ∀ i ∈ f.items, Item i := by
  have words : ∀ byRef byValue isConst, ∀ i ∈ Flags.items ⟨byRef, byValue, isConst⟩, Word i := by
    decide
  exact fun i member => item_word (words _ _ _ i member)

theorem item_value (hu : Word u) (hv : Word v) : Item (u ++ '=' :: v) := by
  have comma : Separates ',' := .inl rfl
  have equals : Piece ',' ['='] :=
    comma.piece (by simp [Flat, opens, closes]) (by decide) (by decide) (by decide)
  exact ⟨(comma.word hu).append (equals.append (comma.word hv)), hu.solid.between hv.solid ['=']⟩

theorem item_of_mem_aliasItems {cppName : Option String} (words : ∀ n ∈ cppName, Word n.toList) :
    ∀ i ∈ aliasItems cppName, Item i := by
  intro i member
  obtain ⟨n, named, rfl⟩ := List.mem_map.1 member
  exact item_value (by decide) (words n (by simpa using named))

theorem Argument.WellFormed.piece {a : Argument} (h : a.WellFormed) (sep : Separates c) :
    Piece c a.render := by
  have declared := sep.spaced (sep.print h.type.written) (sep.word h.name)
  exact sep.attrList (fun i member => (a.flags.item_of_mem i member).toInner)
    (sep.optionally (by decide) a.optional declared)

theorem Argument.WellFormed.solid {a : Argument} (h : a.WellFormed) : Solid a.render := by
  have declared := h.type.written.solid.spaced h.name.solid
  exact solid_attrList _ (solid_optionally (by decide) a.optional declared)

theorem ArgumentsWellFormed.inner {args : List Argument} (h : ArgumentsWellFormed args) :
    Inner (renderArguments args) := by
  have items := List.forall_mem_map.2 fun a there => ((h.each a there).piece (.inl rfl)).toInner
  exact inner_commas items

theorem ArgumentsWellFormed.item {args : List Argument} (h : ArgumentsWellFormed args)
    (word : Word w) :
    Item (w ++ '(' :: (renderArguments args ++ [')'])) := by
  have list := Solid.enclosed (o := '(') (e := ')') (by decide) (by decide) (renderArguments args)
  exact ⟨(item_word word).toPiece.append (h.inner.parenthesised ','), word.solid.append list⟩

theorem Operation.WellFormed.item_of_mem {o : Operation} (h : o.WellFormed) :
    ∀ i ∈ o.flags.items ++ aliasItems o.cppName, Item i := by
  exact List.forall_mem_append.2 ⟨o.flags.item_of_mem, item_of_mem_aliasItems h.cppName⟩

theorem Operation.WellFormed.piece {o : Operation} (h : o.WellFormed) : Piece ';' o.render := by
  have sep : Separates ';' := .inr rfl
  have declared := sep.spaced (sep.print h.returnType.written)
    ((sep.word h.name).append (h.arguments.inner.parenthesised ';'))
  exact sep.attrList (fun i member => (h.item_of_mem i member).toInner)
    (sep.optionally (by decide) o.isStatic declared)

theorem Operation.WellFormed.solid {o : Operation} (h : o.WellFormed) : Solid o.render := by
  have declared := h.returnType.written.solid.spaced (h.arguments.item h.name).solid
  exact solid_attrList _ (solid_optionally (by decide) o.isStatic declared)

theorem Attribute.WellFormed.piece {a : Attribute} (h : a.WellFormed) : Piece ';' a.render := by
  have sep : Separates ';' := .inr rfl
  have declared := sep.spaced (sep.word (by decide : Word "attribute".toList))
    (sep.spaced (sep.print h.type.written) (sep.word h.name))
  exact sep.attrList (fun i member => (a.flags.item_of_mem i member).toInner)
    (sep.optionally (by decide) a.isStatic (sep.optionally (by decide) a.readOnly declared))

theorem Attribute.WellFormed.solid {a : Attribute} (h : a.WellFormed) : Solid a.render := by
  have keyword : Word "attribute".toList := by decide
  have declared := keyword.solid.spaced (h.type.written.solid.spaced h.name.solid)
  exact solid_attrList _
    (solid_optionally (by decide) a.isStatic (solid_optionally (by decide) a.readOnly declared))

theorem Typedef.WellFormed.piece {t : Typedef} (h : t.WellFormed) : Piece ';' t.render := by
  have sep : Separates ';' := .inr rfl
  exact sep.spaced (sep.word (by decide)) (sep.spaced (sep.print h.type.written) (sep.word h.name))

theorem Typedef.WellFormed.solid {t : Typedef} (h : t.WellFormed) : Solid t.render := by
  have keyword : Word "typedef".toList := by decide
  exact keyword.solid.spaced (h.type.written.solid.spaced h.name.solid)

theorem Callback.WellFormed.piece {d : Callback} (h : d.WellFormed) : Piece ';' d.render := by
  have sep : Separates ';' := .inr rfl
  have equals : Piece ';' " = ".toList :=
    sep.piece (by simp [Flat, opens, closes]) (by decide) (by decide) (by decide)
  have declared := sep.spaced (sep.print h.returnType.written) (h.arguments.inner.parenthesised ';')
  exact sep.spaced (sep.word (by decide)) ((sep.word h.name).append (equals.append declared))

theorem Callback.WellFormed.solid {d : Callback} (h : d.WellFormed) : Solid d.render := by
  have keyword : Word "callback".toList := by decide
  have list :=
    Solid.enclosed (o := '(') (e := ')') (by decide) (by decide) (renderArguments d.arguments)
  have declared := h.returnType.written.solid.spaced list
  exact keyword.solid.spaced (h.name.solid.between declared " = ".toList)

theorem inner_blanks (blank : Blank w) : Inner w :=
  inner_of_flat blank.flat (blank.not_mem (by decide))

theorem Sequenced.inner {statements : List (List Char)} (h : Sequenced statements w)
    (each : ∀ s ∈ statements, Piece ';' s) : Inner w := by
  induction h with
  | done blank => exact inner_blanks blank
  | next blank _ ih =>
    obtain ⟨first, others⟩ := List.forall_mem_cons.1 each
    have semicolon : Inner [';'] := inner_of_flat (by simp [Flat, opens, closes]) (by decide)
    exact (inner_blanks blank).append (first.toInner.append (semicolon.append (ih others)))

section Interfaces

variable {items : List (List Char)} {name : String} {parent : Option String}

theorem piece_interfaceText (each : ∀ i ∈ items, Item i) (named : Word name.toList)
    (words : ∀ n ∈ parent, Word n.toList) (members : Inner w) :
    Piece ';' (interfaceText items name parent w) := by
  have sep : Separates ';' := .inr rfl
  have above : Piece ';' (parentText parent) := by
    cases parent with
    | none => exact sep.piece (by simp [Flat, parentText]) (by decide) (by decide) (by decide)
    | some n =>
      have colon : Piece ';' " : ".toList :=
        sep.piece (by simp [Flat, opens, closes]) (by decide) (by decide) (by decide)
      simpa [parentText] using colon.append (sep.word (words n rfl))
  have declared := (sep.word named).append (sep.spaced above (members.braced ';'))
  exact sep.attrList (fun i member => (each i member).toInner)
    (sep.spaced (sep.word (by decide)) declared)

theorem solid_interfaceText (named : Word name.toList) :
    Solid (interfaceText items name parent w) := by
  have keyword : Word "interface".toList := by decide
  have body := Solid.enclosed (o := '{') (e := '}') (by decide) (by decide) w
  have declared := named.solid.between body (parentText parent ++ [' '])
  rw [List.append_assoc] at declared
  exact solid_attrList items (keyword.solid.spaced declared)

end Interfaces

end NativeBridge
