import NativeBridge.Proofs.Checks
import NativeBridge.Text.Blank
import NativeBridge.Text.Nesting

/-!
# What splitting finds

Splitting reads a text once from the left with a depth. A part is what is read from depth zero to
depth zero without meeting a separator outside brackets, and the parts of a text are the only ones
that give the text back when they are joined.
-/
namespace NativeBridge.Text

variable {sep rest u v w : List Char} {c : Char}

/-- The depth after a text that is read from some depth, if no separator begins outside brackets in
it and no closer is stray; `rest` is what follows the text. -/
def passes (sep rest : List Char) : Nat → List Char → Option Nat
  | d, [] => some d
  | d, c :: w =>
    if opens c then passes sep rest (d + 1) w
    else if closes c then
      match d with
      | 0 => none
      | d + 1 => passes sep rest d w
    else if d = 0 && sep.isPrefixOf (c :: (w ++ rest)) then none
    else passes sep rest d w

theorem passes_opener (h : opens c = true) (d : Nat) :
    passes sep rest d (c :: w) = passes sep rest (d + 1) w := by
  rw [passes.eq_def]
  simp only [h, if_true]

theorem passes_closer (opener : opens c = false) (closer : closes c = true) (d : Nat) :
    passes sep rest (d + 1) (c :: w) = passes sep rest d w := by
  rw [passes.eq_def]
  simp only [opener, closer, Bool.false_eq_true, if_false, if_true]

theorem passes_other (opener : opens c = false) (closer : closes c = false) {d : Nat}
    (apart : (decide (d = 0) && sep.isPrefixOf (c :: (w ++ rest))) = false) :
    passes sep rest d (c :: w) = passes sep rest d w := by
  rw [passes.eq_def]
  simp only [opener, closer, apart, Bool.false_eq_true, if_false]

theorem passes_append (sep rest : List Char) (d : Nat) (u v : List Char) :
    passes sep rest d (u ++ v) = (passes sep (v ++ rest) d u).bind (passes sep rest · v) := by
  induction u generalizing d with
  | nil => rfl
  | cons c u ih =>
    simp only [List.cons_append, passes, List.append_assoc]
    split
    · exact ih (d + 1)
    · split
      · cases d with
        | zero => rfl
        | succ d => exact ih d
      · split
        · rfl
        · exact ih d

/-! ## Reading through a part -/

/-- What is passed is part of the piece being read. -/
theorem splitFrom_append {d d' : Nat} (passed : passes sep rest d w = some d') :
    splitFrom sep 0 d (w ++ rest) = (splitFrom sep 0 d' rest).map (·.modifyHead (w ++ ·)) := by
  induction w generalizing d with
  | nil =>
    cases passed
    rw [List.nil_append]
    cases splitFrom sep 0 d' rest with
    | error e => rfl
    | ok parts => cases parts <;> rfl
  | cons c w ih =>
    have extend : ∀ {d₁ : Nat}, passes sep rest d₁ w = some d' →
        (splitFrom sep 0 d₁ (w ++ rest)).map (·.modifyHead (c :: ·)) =
          (splitFrom sep 0 d' rest).map (·.modifyHead (c :: w ++ ·)) := by
      intro d₁ passed
      rw [ih passed]
      cases splitFrom sep 0 d' rest with
      | error e => rfl
      | ok parts => cases parts <;> rfl
    simp only [passes] at passed
    simp only [List.cons_append, splitFrom]
    split at passed
    · rw [if_pos ‹_›]
      exact extend passed
    · rw [if_neg ‹_›]
      split at passed
      · rw [if_pos ‹_›]
        cases d with
        | zero => cases passed
        | succ d => exact extend passed
      · rw [if_neg ‹_›]
        split at passed
        · cases passed
        · rw [if_neg ‹_›]
          exact extend passed

theorem splitFrom_skip (sep : List Char) (d : Nat) (u rest : List Char) :
    splitFrom sep u.length d (u ++ rest) = splitFrom sep 0 d rest := by
  induction u with
  | nil => rfl
  | cons c u ih => exact ih

/-- A separator whose first character is no bracket ends a piece. -/
theorem splitFrom_separator {s : List Char} (flat : opens c = false ∧ closes c = false)
    (rest : List Char) :
    splitFrom (c :: s) 0 0 (c :: s ++ rest) = (splitFrom (c :: s) 0 0 rest).map ([] :: ·) := by
  have here : (c :: s).isPrefixOf (c :: (s ++ rest)) = true :=
    List.isPrefixOf_iff_prefix.2 ⟨rest, rfl⟩
  have skipped := splitFrom_skip (c :: s) 0 s rest
  simp only [List.cons_append, splitFrom, flat.1, flat.2, here, Bool.and_true, decide_true, if_true,
    Bool.false_eq_true, if_false, List.length_cons, Nat.add_sub_cancel, skipped]

/-! ## Parts -/

/-- Texts that are the parts of what they give when joined. -/
def Divides (sep : List Char) : List (List Char) → Prop
  | [] => False
  | [p] => passes sep [] 0 p = some 0
  | p :: q :: ps => passes sep (sep ++ join sep (q :: ps)) 0 p = some 0 ∧ Divides sep (q :: ps)

/-- The first piece that splitting finds is passed, and followed by nothing or by a separator. -/
theorem first_of_splitFrom {s : List Char} {d : Nat} {text : List Char}
    {ps : List (List Char)} (found : splitFrom (c :: s) 0 d text = .ok ps) :
    ∃ p rest, text = p ++ rest ∧ passes (c :: s) rest d p = some 0 ∧
      ((rest = [] ∧ ps = [p]) ∨
        ∃ rest' qs, rest = c :: s ++ rest' ∧ splitFrom (c :: s) 0 0 rest' = .ok qs ∧
          ps = p :: qs) := by
  induction text generalizing d ps with
  | nil =>
    simp only [splitFrom] at found
    split at found
    · rename_i zero
      cases found
      exact ⟨[], [], rfl, by rw [passes, zero], .inl ⟨rfl, rfl⟩⟩
    · cases found
  | cons a r ih =>
    have extend : ∀ {d₁ : Nat}, (splitFrom (c :: s) 0 d₁ r).map (·.modifyHead (a :: ·)) = .ok ps →
        (∀ {p rest : List Char}, r = p ++ rest → passes (c :: s) rest d₁ p = some 0 →
          passes (c :: s) rest d (a :: p) = some 0) →
        ∃ p rest, a :: r = p ++ rest ∧ passes (c :: s) rest d p = some 0 ∧
          ((rest = [] ∧ ps = [p]) ∨ ∃ rest' qs, rest = c :: s ++ rest' ∧
            splitFrom (c :: s) 0 0 rest' = .ok qs ∧ ps = p :: qs) := by
      intro d₁ mapped step
      cases split : splitFrom (c :: s) 0 d₁ r with
      | error e =>
        rw [split] at mapped
        cases mapped
      | ok qs =>
        rw [split] at mapped
        cases mapped
        obtain ⟨p, rest, joined, passed, ends⟩ := ih split
        refine ⟨a :: p, rest, by rw [joined]; rfl, step joined passed, ?_⟩
        rcases ends with ⟨rfl, rfl⟩ | ⟨rest', qs, rfl, others, rfl⟩
        · exact .inl ⟨rfl, rfl⟩
        · exact .inr ⟨rest', qs, rfl, others, rfl⟩
    simp only [splitFrom] at found
    split at found
    · rename_i opener
      refine extend found fun _ passed => ?_
      rw [passes_opener opener]
      exact passed
    · rename_i opener
      split at found
      · rename_i closer
        cases d with
        | zero => cases found
        | succ d =>
          refine extend found fun _ passed => ?_
          rw [passes_closer (by simpa using opener) closer]
          exact passed
      · rename_i closer
        split at found
        · rename_i separates
          obtain ⟨zero, here⟩ := Bool.and_eq_true_iff.1 separates
          obtain ⟨rest', joined⟩ := List.isPrefixOf_iff_prefix.1 here
          have skipped :
              splitFrom (c :: s) ((c :: s).length - 1) 0 r = splitFrom (c :: s) 0 0 rest' := by
            rw [← (List.cons.inj joined).2]
            exact splitFrom_skip (c :: s) 0 s rest'
          rw [skipped] at found
          cases split : splitFrom (c :: s) 0 0 rest' with
          | error e =>
            rw [split] at found
            cases found
          | ok qs =>
            rw [split] at found
            cases found
            refine ⟨[], a :: r, rfl, ?_, .inr ⟨rest', qs, joined.symm, split, rfl⟩⟩
            rw [passes, of_decide_eq_true zero]
        · rename_i separates
          refine extend found fun joined passed => ?_
          rw [passes_other (by simpa using opener) (by simpa using closer)
            (by rw [← joined]; exact eq_false_of_ne_true separates)]
          exact passed

theorem join_cons {p : List Char} {ps : List (List Char)} (more : ps ≠ []) (sep : List Char) :
    join sep (p :: ps) = p ++ (sep ++ join sep ps) := by
  cases ps with
  | nil => exact absurd rfl more
  | cons q qs => simp [join]

/-- What two parts with a separator between them inherit, a joined text inherits. -/
theorem join_of_all {P : List Char → Prop} (glue : ∀ u v, P u → P v → P (u ++ (sep ++ v)))
    {ps : List (List Char)} (nonempty : ps ≠ []) (all : ∀ p ∈ ps, P p) : P (join sep ps) := by
  induction ps with
  | nil => exact absurd rfl nonempty
  | cons p ps ih =>
    obtain ⟨first, others⟩ := List.forall_mem_cons.1 all
    cases ps with
    | nil => exact first
    | cons q qs =>
      rw [join_cons (by simp)]
      exact glue p _ first (ih (by simp) others)

theorem Divides.cons {p : List Char} {ps : List (List Char)}
    (first : passes sep (sep ++ join sep ps) 0 p = some 0) (others : Divides sep ps) :
    Divides sep (p :: ps) := by
  cases ps with
  | nil => exact others.elim
  | cons q qs => exact ⟨first, others⟩

theorem Divides.ne_nil {ps : List (List Char)} (h : Divides sep ps) : ps ≠ [] := by
  rintro rfl
  exact h

/-- Splitting finds the parts that a text is made of. -/
theorem split_eq_ok_iff {s : List Char} (flat : opens c = false ∧ closes c = false)
    {text : List Char} {ps : List (List Char)} :
    split (c :: s) text = .ok ps ↔ Divides (c :: s) ps ∧ text = join (c :: s) ps := by
  constructor
  · intro found
    induction ps generalizing text with
    | nil =>
      obtain ⟨p, rest, -, -, ⟨-, ends⟩ | ⟨_, _, -, -, ends⟩⟩ :=
        first_of_splitFrom found <;> cases ends
    | cons p ps ih =>
      obtain ⟨q, rest, rfl, passed, ⟨rfl, ends⟩ | ⟨rest', qs, rfl, others, ends⟩⟩ :=
        first_of_splitFrom found
      · cases ends
        exact ⟨passed, by simp [join]⟩
      · cases ends
        obtain ⟨divides, rfl⟩ := ih others
        exact ⟨.cons passed divides, (join_cons divides.ne_nil (c :: s)).symm⟩
  · rintro ⟨divides, rfl⟩
    induction ps with
    | nil => exact divides.elim
    | cons p ps ih =>
      cases ps with
      | nil =>
        have passed : passes (c :: s) [] 0 p = some 0 := divides
        have all := splitFrom_append passed
        rw [List.append_nil] at all
        rw [split, join, all]
        simp [splitFrom, Except.map]
      | cons q qs =>
        obtain ⟨passed, others⟩ := divides
        have later := ih others
        rw [split] at later
        rw [join_cons (by simp), split, splitFrom_append passed, splitFrom_separator flat, later]
        simp [Except.map]

/-! ## Texts that pass whatever follows -/

/-- A text that leaves the depth as it is, inside brackets. -/
def Balanced (w : List Char) : Prop := ∀ sep rest d, passes sep rest (d + 1) w = some (d + 1)

/-- A text that can stand between two separators that begin with a character. -/
def Between (c : Char) (w : List Char) : Prop := ∀ s rest, passes (c :: s) rest 0 w = some 0

/-- A text without brackets. -/
def Flat (w : List Char) : Prop := ∀ a ∈ w, opens a = false ∧ closes a = false

theorem Flat.tail (flat : Flat (c :: w)) : Flat w :=
  fun a member => flat a (List.mem_cons_of_mem c member)

theorem Flat.append (hu : Flat u) (hv : Flat v) : Flat (u ++ v) := by
  intro a member
  rcases List.mem_append.1 member with inside | inside
  · exact hu a inside
  · exact hv a inside

/-- Outside brackets a text passes exactly if no separator begins in it. -/
theorem Flat.passes_iff (flat : Flat w) :
    passes sep rest 0 w = some 0 ↔ ∀ v, v <:+ w → v ≠ [] → ¬ sep <+: v ++ rest := by
  induction w with
  | nil => simp [passes]
  | cons a w ih =>
    obtain ⟨opener, closer⟩ := flat a List.mem_cons_self
    simp only [List.suffix_cons_iff, forall_eq_or_imp, List.cons_append]
    rw [← ih flat.tail]
    by_cases here : sep <+: a :: (w ++ rest)
    · have found : sep.isPrefixOf (a :: (w ++ rest)) = true := List.isPrefixOf_iff_prefix.2 here
      simp [passes, opener, closer, found, here]
    · have absent : sep.isPrefixOf (a :: (w ++ rest)) = false := by
        simpa [← List.isPrefixOf_iff_prefix] using here
      rw [passes_other opener closer (by simp [absent])]
      simp [here]

theorem Flat.balanced (flat : Flat w) : Balanced w := by
  intro sep rest d
  induction w with
  | nil => rfl
  | cons a w ih =>
    obtain ⟨opener, closer⟩ := flat a List.mem_cons_self
    rw [passes_other opener closer (by simp)]
    exact ih flat.tail

theorem Flat.between (flat : Flat w) (absent : c ∉ w) : Between c w := by
  intro s rest
  refine flat.passes_iff.2 fun v suffix nonempty here => ?_
  obtain ⟨a, v, rfl⟩ := List.exists_cons_of_ne_nil nonempty
  have same : c = a := (List.cons_prefix_cons.1 here).1
  exact absent (suffix.subset (by simp [same]))

theorem Balanced.append (hu : Balanced u) (hv : Balanced v) : Balanced (u ++ v) := by
  intro sep rest d
  rw [passes_append, hu, Option.bind_some, hv]

theorem Between.append (hu : Between c u) (hv : Between c v) : Between c (u ++ v) := by
  intro s rest
  rw [passes_append, hu, Option.bind_some, hv]

theorem Balanced.enclosed {o e : Char} (opener : opens o = true)
    (closer : opens e = false ∧ closes e = true) (h : Balanced w) : Balanced (o :: (w ++ [e])) := by
  intro sep rest d
  rw [passes_opener opener, passes_append, h, Option.bind_some, passes_closer closer.1 closer.2]
  rfl

/-- What brackets enclose is never outside them. -/
theorem Balanced.enclosed_between {o e : Char} (opener : opens o = true)
    (closer : opens e = false ∧ closes e = true) (h : Balanced w) :
    Between c (o :: (w ++ [e])) := by
  intro s rest
  rw [passes_opener opener, passes_append, h, Option.bind_some, passes_closer closer.1 closer.2]
  rfl

theorem divides_of_between {ps : List (List Char)} (nonempty : ps ≠ [])
    (h : ∀ p ∈ ps, Between c p) : Divides [c] ps := by
  induction ps with
  | nil => exact absurd rfl nonempty
  | cons p ps ih =>
    have first := h p List.mem_cons_self
    cases ps with
    | nil => exact first [] []
    | cons q qs =>
      exact ⟨first [] _, ih (by simp) fun p' later => h p' (List.mem_cons_of_mem p later)⟩

end NativeBridge.Text
