/-!
# Line ends

A text file may end its lines with a line feed, a carriage return, or both. Reading brings the three
to the line feed.
-/
namespace NativeBridge.Text

def unifyNewlines : List Char → List Char
  | '\r' :: '\n' :: r => '\n' :: unifyNewlines r
  | '\r' :: r => '\n' :: unifyNewlines r
  | c :: r => c :: unifyNewlines r
  | [] => []

/-- A text with its line ends unified. -/
def unified (content : String) : String := String.ofList (unifyNewlines content.toList)

end NativeBridge.Text
