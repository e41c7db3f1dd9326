/-!
# Blanks and the words between them

Blanks separate the words of a declaration. The class is the white space of all scripts, so a
no-break space or an ideographic space separates words as a plain space does, and a zero-width
space does not.
-/
namespace NativeBridge.Text

def isBlank (c : Char) : Bool :=
  let n := c.toNat
  (9 ≤ n && n ≤ 13) || (28 ≤ n && n ≤ 32) || n == 0x85 || n == 0xA0 || n == 0x1680 ||
    (0x2000 ≤ n && n ≤ 0x200A) || n == 0x2028 || n == 0x2029 || n == 0x202F || n == 0x205F ||
    n == 0x3000

def trimLeft (s : List Char) : List Char := s.dropWhile isBlank

def trimRight (s : List Char) : List Char := (s.reverse.dropWhile isBlank).reverse

def trim (s : List Char) : List Char := trimRight (trimLeft s)

/-- The pieces of a text between the characters of a class; never an empty list. -/
def cut (p : Char → Bool) : List Char → List (List Char)
  | [] => [[]]
  | c :: r => if p c then [] :: cut p r else (cut p r).modifyHead (c :: ·)

def words (s : List Char) : List (List Char) := (cut isBlank s).filter (· ≠ [])

def join (sep : List Char) : List (List Char) → List Char
  | [] => []
  | [w] => w
  | w :: ws => w ++ sep ++ join sep ws

/-- One plain space between the words, none at the ends. -/
def squeeze (s : List Char) : List Char := join [' '] (words s)

theorem trimLeft_length_le (s : List Char) : (trimLeft s).length ≤ s.length :=
  (List.dropWhile_sublist _).length_le

theorem trimRight_length_le (s : List Char) : (trimRight s).length ≤ s.length := by
  have h := (List.dropWhile_sublist isBlank (l := s.reverse)).length_le
  simpa [trimRight] using h

theorem trim_length_le (s : List Char) : (trim s).length ≤ s.length :=
  Nat.le_trans (trimRight_length_le _) (trimLeft_length_le s)

/-- The room a list of words needs when each is followed by one separator. -/
def spaced : List (List Char) → Nat
  | [] => 0
  | w :: ws => w.length + 1 + spaced ws

theorem join_length_le (c : Char) (ws : List (List Char)) :
    (join [c] ws).length ≤ spaced ws - 1 := by
  induction ws with
  | nil => simp [join, spaced]
  | cons w ws ih =>
    cases ws with
    | nil => simp [join, spaced]
    | cons v vs =>
      simp only [join, spaced, List.length_append, List.length_cons, List.length_nil] at ih ⊢
      omega

theorem spaced_modifyHead_cons (c : Char) (ws : List (List Char)) (h : ws ≠ []) :
    spaced (ws.modifyHead (c :: ·)) = spaced ws + 1 := by
  cases ws with
  | nil => exact absurd rfl h
  | cons w ws => simp [spaced]; omega

theorem cut_ne_nil (p : Char → Bool) (s : List Char) : cut p s ≠ [] := by
  induction s with
  | nil => simp [cut]
  | cons c r ih =>
    by_cases h : p c
    · simp [cut, h]
    · cases hc : cut p r with
      | nil => exact absurd hc ih
      | cons w ws => simp [cut, h, hc]

theorem spaced_cut (p : Char → Bool) (s : List Char) : spaced (cut p s) = s.length + 1 := by
  induction s with
  | nil => simp [cut, spaced]
  | cons c r ih =>
    by_cases h : p c
    · simp only [cut, h, if_true, spaced, List.length_nil, List.length_cons] at ih ⊢
      omega
    · rw [cut, if_neg h, spaced_modifyHead_cons _ _ (cut_ne_nil p r), ih, List.length_cons]

theorem spaced_filter_le (q : List Char → Bool) (ws : List (List Char)) :
    spaced (ws.filter q) ≤ spaced ws := by
  induction ws with
  | nil => simp
  | cons w ws ih =>
    by_cases h : q w <;> simp only [List.filter, h, spaced] at ih ⊢ <;> omega

theorem squeeze_length_le (s : List Char) : (squeeze s).length ≤ s.length := by
  have h₁ := join_length_le ' ' (words s)
  have h₂ := spaced_filter_le (· ≠ []) (cut isBlank s)
  have h₃ := spaced_cut isBlank s
  simp only [squeeze, words] at *
  omega

end NativeBridge.Text
