import NativeBridge.Idl.Fault
import NativeBridge.Idl.TypeExpr
import NativeBridge.Text.Scan

/-!
# Reading type expressions

The text is squeezed to single spaces, one trailing `?` is taken off, and what remains is a union in
parentheses, `sequence<T>`, `T[]`, or a name of one or more words.
-/
namespace NativeBridge.TypeExpr

open Idl Text

/-- The text between the angle brackets of `sequence<…>`; it is never empty. -/
def sequenceElement (body : List Char) : Option (List Char) := do
  let rest ← "sequence".toList.isPrefixOf? body
  let rest ← expect '<' (trimLeft rest)
  let inner ← endingWith '>' rest
  if inner = [] then none else some inner

def arrayElement (body : List Char) : Option (List Char) :=
  match body.reverse with
  | ']' :: '[' :: rest => some rest.reverse
  | _ => none

/-- One or more words, each starting with an ASCII letter or an underscore, a space apart. -/
def isName (body : List Char) : Bool :=
  (cut (· = ' ') body).all fun
    | [] => false
    | c :: rest => isNameStart c && rest.all isWord

/-- The text between the parentheses of a union. -/
def unionMembers (body : List Char) : Option (List Char) :=
  if body.head? = some '(' && body.getLast? = some ')' then some body.tail.dropLast else none

def isNullable (text : List Char) : Bool := (squeeze text).getLast? = some '?'

/-- The squeezed text without the `?` of a nullable type. -/
def bodyText (text : List Char) : List Char :=
  if isNullable text then trimRight (squeeze text).dropLast else squeeze text

theorem bodyText_length_le (text : List Char) : (bodyText text).length ≤ text.length := by
  have h := squeeze_length_le text
  simp only [bodyText]
  split
  · have h₁ := trimRight_length_le (squeeze text).dropLast
    simp only [List.length_dropLast] at h₁
    omega
  · exact h

theorem isPrefixOf?_length {keyword s rest : List Char} (h : keyword.isPrefixOf? s = some rest) :
    rest.length ≤ s.length := by
  induction keyword generalizing s with
  | nil => cases s <;> cases h <;> exact Nat.le_refl _
  | cons k ks ih =>
    cases s with
    | nil => cases h
    | cons c cs =>
      change (if k == c then ks.isPrefixOf? cs else none) = some rest at h
      split at h
      · have := ih h
        simp only [List.length_cons]
        omega
      · cases h

theorem sequenceElement_length {body inner : List Char} (h : sequenceElement body = some inner) :
    inner.length < body.length := by
  simp only [sequenceElement, Option.bind_eq_bind, Option.bind_eq_some_iff] at h
  obtain ⟨r₁, h₁, r₂, h₂, r₃, h₃, h₄⟩ := h
  split at h₄
  · cases h₄
  · cases h₄
    have := isPrefixOf?_length h₁
    have := expect_length h₂
    have := endingWith_length h₃
    have := trimLeft_length_le r₁
    omega

theorem arrayElement_length {body inner : List Char} (h : arrayElement body = some inner) :
    inner.length < body.length := by
  simp only [arrayElement] at h
  split at h
  · rename_i rest hr
    cases h
    have : body.length = (body.reverse).length := by simp
    rw [this, hr]
    simp only [List.length_reverse, List.length_cons]
    omega
  · cases h

theorem unionMembers_length {body inner : List Char} (h : unionMembers body = some inner) :
    inner.length < body.length := by
  simp only [unionMembers] at h
  split at h
  · rename_i hc
    cases h
    cases body with
    | nil => simp at hc
    | cons c cs => simp only [List.tail_cons, List.length_dropLast, List.length_cons]; omega
  · cases h

def parse (text : List Char) : Except Malformed TypeExpr :=
  match _union : unionMembers (bodyText text) with
  | some inner =>
    match _parts : splitText " or ".toList inner with
    | .error e => .error e
    | .ok members =>
      if members.length < 2 then .error (.unionType (String.ofList (bodyText text)))
      else do
        let union ← members.attach.mapM fun ⟨m, _⟩ => parse m
        return { union, nullable := isNullable text }
  | none =>
    match _inner : (sequenceElement (bodyText text)).or (arrayElement (bodyText text)) with
    | some inner => return { element := some (← parse inner), nullable := isNullable text }
    | none =>
      if isName (bodyText text) then
        .ok { name := String.ofList (bodyText text), nullable := isNullable text }
      else .error (.typeName (String.ofList (bodyText text)))
termination_by text.length
decreasing_by
  · have h₁ := splitText_length_le _parts m ‹_›
    have h₂ := unionMembers_length _union
    have h₃ := bodyText_length_le text
    omega
  · have h₁ : inner.length < (bodyText text).length := by
      rcases Option.or_eq_some_iff.1 _inner with h | ⟨-, h⟩
      · exact sequenceElement_length h
      · exact arrayElement_length h
    have h₂ := bodyText_length_le text
    omega

/-- Reads a type from a text. -/
def ofString (text : String) : Except Malformed TypeExpr := parse text.toList

end NativeBridge.TypeExpr
