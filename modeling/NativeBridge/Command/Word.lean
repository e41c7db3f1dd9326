import NativeBridge.Command.Option
import NativeBridge.Text.Digit

/-!
# Words of a command line

Each word is an option or a plain word. A long option may be shortened as long as only one option
fits, a value may follow an option in the same word, and everything behind `--` is plain.
-/
namespace NativeBridge.Command

/-- An option as it is spelled, with the value that stands in the same word. -/
structure Written where
  opt : Opt
  spelling : String
  attached : Option String
  deriving DecidableEq, Repr

inductive Word where
  | plain (text : String)
  | separator
  | option (written : Written)
  | unknown (text : String)
  deriving DecidableEq, Repr

/-- The name and, behind the first `=`, the value. -/
def splitValue (text : List Char) : String × Option String :=
  let name := text.takeWhile (· ≠ '=')
  match text.drop name.length with
  | [] => (String.ofList name, none)
  | _ :: value => (String.ofList name, some (String.ofList value))

/-- A minus sign before a number, as in `-1` or `-.5`, starts no option. A line feed may end it. -/
def looksNegative : List Char → Bool
  | '-' :: rest =>
    let number := if rest.getLast? = some '\n' then rest.dropLast else rest
    let whole := number.takeWhile Text.isDecimal
    match number.drop whole.length with
    | [] => whole ≠ []
    | '.' :: fraction => fraction ≠ [] && fraction.all Text.isDecimal
    | _ => false
  | _ => false

/-- An option spelled out in full. -/
def spelledOut (text : String) : Option Written :=
  match Opt.ofSpelling? text with
  | some opt => some { opt, spelling := text, attached := none }
  | none =>
    let (name, attached) := splitValue text.toList
    (Opt.ofSpelling? name).map fun opt => { opt, spelling := name, attached }

/-- The options that a word may stand for when it spells none out. -/
def candidates (text : String) : List Written :=
  match text.toList with
  | '-' :: '-' :: _ =>
    let (name, attached) := splitValue text.toList
    Opt.table.filterMap fun (spelling, opt) =>
      if name.toList.isPrefixOf spelling.toList then some { opt, spelling, attached } else none
  | letters =>
    let spelling := String.ofList (letters.take 2)
    match Opt.ofSpelling? spelling with
    | some opt => [{ opt, spelling, attached := some (String.ofList (letters.drop 2)) }]
    | none => []

def classify (text : String) : Except Misuse Word :=
  if text.toList.head? ≠ some '-' || text = "-" then .ok (.plain text)
  else
    match spelledOut text with
    | some written => .ok (.option written)
    | none =>
      match candidates text with
      | [written] => .ok (.option written)
      | [] =>
        if looksNegative text.toList || text.toList.contains ' ' then .ok (.plain text)
        else .ok (.unknown text)
      | several => .error (.ambiguous text (several.map (·.spelling)))

def classifyAll : List String → Except Misuse (List Word)
  | [] => .ok []
  | text :: rest =>
    if text = "--" then .ok (.separator :: rest.map .plain)
    else do return (← classify text) :: (← classifyAll rest)

end NativeBridge.Command
