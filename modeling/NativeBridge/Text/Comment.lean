/-!
# Comments

Block comments are removed first, wherever they stand, and line comments from what remains. A block
comment runs to the nearest closing mark, and an opening mark that is never closed is ordinary text.
A line comment runs up to the next line feed, which stays.
-/
namespace NativeBridge.Text

/-- How many characters stand up to and including the first `*/`. -/
def closeLength : List Char → Option Nat
  | '*' :: '/' :: _ => some 2
  | _ :: r => (closeLength r).map (· + 1)
  | [] => none

/-- Removes block comments after `skip` more characters of the comment being removed. -/
def dropBlocks : Nat → List Char → List Char
  | _, [] => []
  | skip + 1, _ :: r => dropBlocks skip r
  | 0, '/' :: '*' :: r =>
    match closeLength r with
    | some n => dropBlocks (n + 1) ('*' :: r)
    | none => '/' :: dropBlocks 0 ('*' :: r)
  | 0, c :: r => c :: dropBlocks 0 r

/-- Removes line comments; the flag says that one is open. -/
def dropLineEnds : Bool → List Char → List Char
  | _, [] => []
  | true, c :: r => if c = '\n' then c :: dropLineEnds false r else dropLineEnds true r
  | false, '/' :: '/' :: r => dropLineEnds true r
  | false, c :: r => c :: dropLineEnds false r

def stripComments (s : List Char) : List Char := dropLineEnds false (dropBlocks 0 s)

end NativeBridge.Text
