import NativeBridge.Text.Blank
import NativeBridge.Text.Word

/-!
# Reading the shape of a declaration

A declaration is recognised as a whole: a reader takes the entire text and answers only when every
character has its place. Where the shape leaves a choice, readers are ordered: a run of blanks is
taken as long as possible, a type text as short as possible, and the first choice that lets the rest
fit is the answer.
-/
namespace NativeBridge.Text

variable {α : Type}

def expect (c : Char) : List Char → Option (List Char)
  | [] => none
  | d :: r => if d = c then some r else none

/-- The word at the front of a text, as long as possible, and the rest. -/
def readWord (s : List Char) : Option (List Char × List Char) :=
  if s.takeWhile isWord = [] then none else some (s.takeWhile isWord, s.dropWhile isWord)

def wholeWord (s : List Char) : Option (List Char) :=
  if s ≠ [] && s.all isWord then some s else none

/-- A text without its last character, which has to be the given one. -/
def endingWith (c : Char) (s : List Char) : Option (List Char) :=
  if s.getLast? = some c then some s.dropLast else none

/-- At least one blank, as many as the rest allows. -/
def afterBlanks (rest : List Char → Option α) : List Char → Option α
  | [] => none
  | c :: r => if isBlank c then (afterBlanks rest r).or (rest r) else none

/-- Any number of blanks, as many as the rest allows. -/
def afterAnyBlanks (rest : List Char → Option α) (s : List Char) : Option α :=
  (afterBlanks rest s).or (rest s)

/-- At least one character, as few as the rest allows. -/
def shortest (rest : List Char → Option α) : List Char → Option (List Char × α)
  | [] => none
  | c :: r =>
    match rest r with
    | some a => some ([c], a)
    | none => (shortest rest r).map fun (taken, a) => (c :: taken, a)

/-- Blanks and a word, to the end of the text. -/
def blankWord (s : List Char) : Option (List Char) :=
  match s with
  | [] => none
  | c :: _ => if isBlank c then wholeWord (trimLeft s) else none

/-- A keyword, then blanks, then a reader. -/
def afterKeyword (keyword : String) (rest : List Char → Option α) (s : List Char) : Option α :=
  (keyword.toList.isPrefixOf? s).bind (afterBlanks rest)

/-- A reader behind a keyword that may be missing, and whether it was there. -/
def optionalKeyword (keyword : String) (rest : List Char → Option α) (s : List Char) :
    Option (Bool × α) :=
  ((afterKeyword keyword rest s).map (true, ·)).or ((rest s).map (false, ·))

theorem expect_length {c : Char} {s r : List Char} (h : expect c s = some r) :
    r.length < s.length := by
  cases s with
  | nil => cases h
  | cons d t =>
    simp only [expect] at h
    split at h
    · cases h; simp
    · cases h

theorem readWord_length {s w r : List Char} (h : readWord s = some (w, r)) :
    r.length ≤ s.length := by
  simp only [readWord] at h
  split at h
  · cases h
  · cases h
    exact (List.dropWhile_sublist _).length_le

theorem endingWith_length {c : Char} {s r : List Char} (h : endingWith c s = some r) :
    r.length ≤ s.length := by
  simp only [endingWith] at h
  split at h
  · cases h
    simp
  · cases h

end NativeBridge.Text
