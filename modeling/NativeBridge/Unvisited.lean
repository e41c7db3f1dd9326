/-!
# Names not yet visited

Following typedefs or parents from name to name ends because each step visits a declared name that
was not visited before.
-/
namespace NativeBridge

/-- How many of the names are not visited. -/
def unvisited (names visited : List String) : Nat := (names.filter (· ∉ visited)).length

theorem unvisited_nil (names : List String) : unvisited names [] = names.length := by
  simp [unvisited]

theorem unvisited_cons_le (names visited : List String) (n : String) :
    unvisited names (n :: visited) ≤ unvisited names visited := by
  induction names with
  | nil => simp [unvisited]
  | cons m ms ih =>
    simp only [unvisited, List.mem_cons, not_or, List.filter_cons] at ih ⊢
    split <;> split <;> simp_all
    omega

theorem unvisited_lt {names visited : List String} {n : String} (declared : n ∈ names)
    (fresh : n ∉ visited) : unvisited names (n :: visited) < unvisited names visited := by
  induction names with
  | nil => cases declared
  | cons m ms ih =>
    have le := unvisited_cons_le ms visited n
    by_cases h : m = n
    · subst h
      simp only [unvisited, List.filter_cons, List.mem_cons, true_or, not_true_eq_false,
        decide_false, fresh, not_false_eq_true, decide_true, if_true] at le ⊢
      simp only [Bool.false_eq_true, if_false, List.length_cons]
      omega
    · have step := ih (by simpa [Ne.symm h] using declared)
      simp only [unvisited, List.filter_cons, List.mem_cons, h, false_or] at step ⊢
      split <;> simp_all

end NativeBridge
