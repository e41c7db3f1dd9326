import NativeBridge.Idl.Declaration
import NativeBridge.Idl.TypeExpr.Parse

/-!
# Extended attributes and argument lists

A list in square brackets may stand before a declaration, a member or an argument. Its items may
themselves carry argument lists, so both are read together. Every step into a list of the other kind
leaves at least a bracket behind, which is why reading ends.
-/
namespace NativeBridge.Idl

open Text

inductive ExtAttr where
  | bare (name : String)
  | value (name value : String)
  | call (name : String) (arguments : List Argument)
  deriving DecidableEq, Repr

namespace ExtAttr

def name : ExtAttr → String
  | bare n => n
  | value n _ => n
  | call n _ => n

def value? : ExtAttr → Option String
  | value _ v => some v
  | _ => none

def arguments? : ExtAttr → Option (List Argument)
  | call _ args => some args
  | _ => none

end ExtAttr

def hasAttr (attrs : List ExtAttr) (name : String) : Bool := attrs.any (·.name = name)

/-- The value of the first attribute of a name, if that one has a value. -/
def attrValue (attrs : List ExtAttr) (name : String) : Option String :=
  (attrs.find? (·.name = name)).bind ExtAttr.value?

def flagsOf (attrs : List ExtAttr) : Flags where
  byRef := hasAttr attrs "Ref"
  byValue := hasAttr attrs "Value"
  isConst := hasAttr attrs "Const"

/-- The form of one item: `Name = value`, `Name(arguments)` or `Name`. -/
inductive AttrShape where
  | value (name value : List Char)
  | call (name arguments : List Char)
  | bare (name : List Char)
  deriving DecidableEq, Repr

def valueShape (item : List Char) : Option AttrShape := do
  let (name, rest) ← readWord item
  let rest ← expect '=' (trimLeft rest)
  let value ← wholeWord (trimLeft rest)
  return .value name value

def callShape (item : List Char) : Option AttrShape := do
  let (name, rest) ← readWord item
  let rest ← expect '(' (trimLeft rest)
  let arguments ← endingWith ')' rest
  return .call name arguments

def attrShape (item : List Char) : Option AttrShape :=
  ((valueShape item).or (callShape item)).or ((wholeWord item).map .bare)

/-- What an opened square bracket encloses, and what follows it, with `depth` more brackets open. -/
def readBracket : Nat → List Char → Option (List Char × List Char)
  | _, [] => none
  | depth, c :: r =>
    if c = '[' then (readBracket (depth + 1) r).map fun (inner, rest) => (c :: inner, rest)
    else if c = ']' then
      match depth with
      | 0 => some ([], r)
      | d + 1 => (readBracket d r).map fun (inner, rest) => (c :: inner, rest)
    else (readBracket depth r).map fun (inner, rest) => (c :: inner, rest)

/-- An argument behind its attributes: whether it is optional, its type text and its name. -/
def argumentShape (body : List Char) : Option (Bool × List Char × List Char) :=
  optionalKeyword "optional" (shortest blankWord) body

/-- The first required argument that stands behind an optional one. -/
def lateRequired : List Argument → Option Argument
  | [] => none
  | a :: rest => if a.optional then rest.find? (!·.optional) else lateRequired rest

theorem readBracket_length {depth : Nat} {s inner rest : List Char}
    (h : readBracket depth s = some (inner, rest)) : inner.length ≤ s.length := by
  induction s generalizing depth inner rest with
  | nil => simp [readBracket] at h
  | cons c r ih =>
    have step : ∀ {d : Nat}, (readBracket d r).map (fun p => (c :: p.1, p.2)) = some (inner, rest) →
        inner.length ≤ (c :: r).length := by
      intro d hm
      obtain ⟨p, hp, he⟩ := Option.map_eq_some_iff.1 hm
      cases he
      have := ih hp
      simp only [List.length_cons]
      omega
    simp only [readBracket] at h
    split at h
    · exact step h
    · split at h
      · split at h
        · cases h; simp
        · exact step h
      · exact step h

theorem attrShape_call_length {item name arguments : List Char}
    (h : attrShape item = some (.call name arguments)) : arguments.length < item.length := by
  have hc : callShape item = some (.call name arguments) := by
    rcases Option.or_eq_some_iff.1 h with h | ⟨-, h⟩
    · rcases Option.or_eq_some_iff.1 h with h | ⟨-, h⟩
      · simp only [valueShape, Option.bind_eq_bind, Option.bind_eq_some_iff] at h
        obtain ⟨_, _, _, _, _, _, h⟩ := h
        cases h
      · exact h
    · obtain ⟨_, _, h⟩ := Option.map_eq_some_iff.1 h
      cases h
  simp only [callShape, Option.bind_eq_bind, Option.bind_eq_some_iff] at hc
  obtain ⟨⟨w, r₁⟩, h₁, r₂, h₂, r₃, h₃, h₄⟩ := hc
  cases h₄
  have := readWord_length h₁
  have : r₂.length < (trimLeft r₁).length := expect_length h₂
  have := endingWith_length h₃
  have := trimLeft_length_le r₁
  omega

mutual

/-- The items of an attribute list, given without its brackets; empty items do not count. -/
def readAttrs (text : List Char) : Except Malformed (List ExtAttr) :=
  match _items : splitText [','] text with
  | .error e => .error e
  | .ok items => do
    let found ← items.attach.mapM fun ⟨item, _⟩ => readAttr (trim item)
    return found.filterMap id
termination_by (text.length, 4)
decreasing_by
  have h₁ := splitText_length_le _items item ‹_›
  have h₂ := trim_length_le item
  have h : (trim item).length ≤ text.length := by omega
  rcases Nat.lt_or_eq_of_le h with h | h
  · exact .left _ _ h
  · rw [h]; exact .right _ (by decide)

def readAttr (item : List Char) : Except Malformed (Option ExtAttr) :=
  if item = [] then .ok none
  else
    match _shape : attrShape item with
    | some (.value name value) => .ok (some (.value (String.ofList name) (String.ofList value)))
    | some (.call name arguments) => do
      return some (.call (String.ofList name) (← readArguments arguments))
    | some (.bare name) => .ok (some (.bare (String.ofList name)))
    | none => .error (.extendedAttribute (String.ofList item))
termination_by (item.length, 3)
decreasing_by exact .left _ _ (attrShape_call_length _shape)

/-- An argument list, given without its parentheses. All optional arguments come last. -/
def readArguments (text : List Char) : Except Malformed (List Argument) :=
  if trim text = [] then .ok []
  else
    match _items : splitText [','] text with
    | .error e => .error e
    | .ok items => do
      let arguments ← items.attach.mapM fun ⟨item, _⟩ => readArgument item
      match lateRequired arguments with
      | some late => .error (.requiredAfterOptional late.name)
      | none => .ok arguments
termination_by (text.length, 2)
decreasing_by
  have h := splitText_length_le _items item ‹_›
  rcases Nat.lt_or_eq_of_le h with h | h
  · exact .left _ _ h
  · rw [h]; exact .right _ (by decide)

def readArgument (item : List Char) : Except Malformed Argument := do
  let (attrs, body) ← takeAttrs item
  match argumentShape body with
  | none => .error (.argument (String.ofList (trim item)))
  | some (optional, type, name) =>
    return { name := String.ofList name, type := ← TypeExpr.parse type, optional,
             flags := flagsOf attrs }
termination_by (item.length, 1)
decreasing_by exact .right _ (by decide)

/-- The attribute list at the front of a text, if there is one, and the rest without blanks around
it. -/
def takeAttrs (text : List Char) : Except Malformed (List ExtAttr × List Char) :=
  match _open : expect '[' (trim text) with
  | none => .ok ([], trim text)
  | some opened =>
    match _found : readBracket 0 opened with
    | none => .error (.unterminatedAttributes (excerpt (trim text)))
    | some (inner, rest) => do return (← readAttrs inner, trim rest)
termination_by (text.length, 0)
decreasing_by
  have h₁ := expect_length _open
  have h₂ := readBracket_length _found
  have h₃ := trim_length_le text
  exact .left _ _ (by omega)

end

end NativeBridge.Idl
