/-!
# Splitting outside brackets

Parentheses, square brackets, braces and angle brackets nest, and one depth counts them all. A text
is split at a separator where the depth is zero.
-/
namespace NativeBridge.Text

def opens (c : Char) : Bool := c = '(' || c = '[' || c = '{' || c = '<'

def closes (c : Char) : Bool := c = ')' || c = ']' || c = '}' || c = '>'

inductive Unbalanced where
  | stray (closer : Char)
  | unclosed
  deriving DecidableEq, Repr

/-- Splits what follows `skip` more characters of a separator, at the given depth. The first part is
the rest of the part being read. -/
def splitFrom (sep : List Char) : Nat → Nat → List Char → Except Unbalanced (List (List Char))
  | _, depth, [] => if depth = 0 then .ok [[]] else .error .unclosed
  | skip + 1, depth, _ :: r => splitFrom sep skip depth r
  | 0, depth, c :: r =>
    if opens c then
      (splitFrom sep 0 (depth + 1) r).map (·.modifyHead (c :: ·))
    else if closes c then
      match depth with
      | 0 => .error (.stray c)
      | d + 1 => (splitFrom sep 0 d r).map (·.modifyHead (c :: ·))
    else if depth = 0 && sep.isPrefixOf (c :: r) then
      (splitFrom sep (sep.length - 1) 0 r).map ([] :: ·)
    else
      (splitFrom sep 0 depth r).map (·.modifyHead (c :: ·))

/-- The parts of a text between the occurrences of a separator outside all brackets. -/
def split (sep text : List Char) : Except Unbalanced (List (List Char)) := splitFrom sep 0 0 text

theorem length_le_of_mem_modifyHead {c : Char} {n : Nat} {ps : List (List Char)}
    (h : ∀ p ∈ ps, p.length ≤ n) : ∀ p ∈ ps.modifyHead (c :: ·), p.length ≤ n + 1 := by
  cases ps with
  | nil => simp
  | cons q qs =>
    intro p hp
    rcases List.mem_cons.1 (by simpa using hp) with rfl | hq
    · have := h q (by simp)
      simpa using this
    · have := h p (by simp [hq])
      omega

theorem splitFrom_length_le {sep : List Char} {skip depth : Nat} {s : List Char}
    {ps : List (List Char)} (h : splitFrom sep skip depth s = .ok ps) :
    ∀ p ∈ ps, p.length ≤ s.length := by
  induction s generalizing skip depth ps with
  | nil =>
    simp only [splitFrom] at h
    split at h
    · cases h; simp
    · cases h
  | cons c r ih =>
    have step : ∀ {skip depth : Nat} {f : List (List Char) → List (List Char)},
        (∀ qs, (∀ q ∈ qs, q.length ≤ r.length) → ∀ p ∈ f qs, p.length ≤ r.length + 1) →
        (splitFrom sep skip depth r).map f = .ok ps → ∀ p ∈ ps, p.length ≤ r.length + 1 := by
      intro skip depth f hf hm
      cases hr : splitFrom sep skip depth r with
      | error e => rw [hr] at hm; cases hm
      | ok qs =>
        rw [hr] at hm
        cases hm
        exact hf qs (ih hr)
    have extend := fun (qs : List (List Char)) (hq : ∀ q ∈ qs, q.length ≤ r.length) =>
      length_le_of_mem_modifyHead (c := c) hq
    cases skip with
    | succ skip =>
      intro p hp
      have := ih (by simpa [splitFrom] using h) p hp
      simp only [List.length_cons]
      omega
    | zero =>
      simp only [List.length_cons]
      simp only [splitFrom] at h
      split at h
      · exact step extend h
      · split at h
        · split at h
          · cases h
          · exact step extend h
        · split at h
          · refine step (fun qs hq p hp => ?_) h
            rcases List.mem_cons.1 hp with rfl | hp
            · simp
            · have := hq p hp
              omega
          · exact step extend h

theorem split_length_le {sep text : List Char} {ps : List (List Char)}
    (h : split sep text = .ok ps) : ∀ p ∈ ps, p.length ≤ text.length :=
  splitFrom_length_le h

end NativeBridge.Text
