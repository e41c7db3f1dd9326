import NativeBridge.Text.Blank
import NativeBridge.Text.Nesting

/-!
# Faults of declaration text

What can be wrong with a text that should hold declarations. Every cause keeps the text it complains
about, and one function words them all.
-/
namespace NativeBridge.Idl

open Text (Unbalanced)

inductive Malformed where
  | unbalanced (cause : Unbalanced) (text : String)
  | declaration (text : String)
  | unterminatedAttributes (text : String)
  | extendedAttribute (item : String)
  | typedef (text : String)
  | callback (text : String)
  | interface (text : String)
  | member (text : String)
  | argument (item : String)
  | unionType (text : String)
  | typeName (text : String)
  | requiredAfterOptional (name : String)
  deriving DecidableEq, Repr

def Malformed.message : Malformed → String
  | .unbalanced (.stray closer) text => s!"unbalanced '{closer}' in: {text}"
  | .unbalanced .unclosed text => s!"unbalanced brackets in: {text}"
  | .declaration text => s!"unrecognized declaration: {text}"
  | .unterminatedAttributes text => s!"unterminated extended attribute list: {text}"
  | .extendedAttribute item => s!"malformed extended attribute: {item}"
  | .typedef text => s!"malformed typedef: {text}"
  | .callback text => s!"malformed callback: {text}"
  | .interface text => s!"malformed interface: {text}"
  | .member text => s!"malformed interface member: {text}"
  | .argument item => s!"malformed argument: {item}"
  | .unionType text => s!"malformed union type: {text}"
  | .typeName text => s!"malformed type: {text}"
  | .requiredAfterOptional name => s!"required argument '{name}' follows an optional argument"

/-- Text is rejected for its form, or for a value type that declares an operation. -/
inductive Fault where
  | malformed (cause : Malformed)
  | operationInValueType (valueType operation : String)
  deriving DecidableEq, Repr

/-- Splits at a separator outside brackets and names the offending text on failure. -/
def splitText (sep text : List Char) : Except Malformed (List (List Char)) :=
  (Text.split sep text).mapError (.unbalanced · (String.ofList (Text.trim text)))

theorem splitText_length_le {sep text : List Char} {ps : List (List Char)}
    (h : splitText sep text = .ok ps) : ∀ p ∈ ps, p.length ≤ text.length := by
  rw [splitText] at h
  cases hs : Text.split sep text with
  | error e =>
    rw [hs] at h
    cases h
  | ok qs =>
    rw [hs] at h
    cases h
    exact Text.split_length_le hs

/-- The beginning of a text, as far as a message shows it. -/
def excerpt (s : List Char) : String := String.ofList (s.take 60)

end NativeBridge.Idl
