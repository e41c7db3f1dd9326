import NativeBridge.Text.Blank

/-!
# Paths

A path is a list of parts below a start: the current directory, or a root. Empty parts and `.` do
not count, `..` does.
-/
namespace NativeBridge

structure Path where
  /-- One or two slashes, or nothing for the current directory. -/
  root : String := ""
  parts : List String := []
  deriving DecidableEq, Repr

namespace Path

/-- Exactly two slashes in front stay; any other number of them is one. -/
def ofString (text : String) : Path where
  root :=
    match (text.toList.takeWhile (· = '/')).length with
    | 0 => ""
    | 2 => "//"
    | _ => "/"
  parts := ((Text.cut (· = '/') text.toList).map String.ofList).filter fun part =>
    part ≠ "" && part ≠ "."

def text (p : Path) : String :=
  if p.root = "" && p.parts = [] then "." else p.root ++ "/".intercalate p.parts

/-- The last part, empty when there is none. -/
def name (p : Path) : String := p.parts.getLast?.getD ""

def parent (p : Path) : Path := { p with parts := p.parts.dropLast }

def withName (p : Path) (name : String) : Path := { p with parts := p.parts.dropLast ++ [name] }

/-- Whether a null character stands in a path, which no host can look up. -/
def hasNull (p : Path) : Bool := p.parts.any (·.toList.contains '\x00')

/-- A name without its suffix. A dot at the front or at the end starts no suffix. -/
def stem (name : String) : String :=
  let reversed := name.toList.reverse
  let suffix := reversed.takeWhile (· ≠ '.')
  let rest := reversed.drop (suffix.length + 1)
  if suffix = [] || rest = [] then name else String.ofList rest.reverse

end Path

end NativeBridge
