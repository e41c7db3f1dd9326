import NativeBridge.Proofs.Nesting

/-!
# Splitting is exact

A text can be split when its depth, which counts brackets of all kinds alike, is never negative and
is zero at the end. Whether it can does not depend on the separator. The parts give the text back
when they are joined and cannot be split any further, and parts of this kind are found again in what
they give when one character joins them.
-/
namespace NativeBridge.Text

variable {sep sep' rest rest' text w : List Char} {c : Char}

/-- The depth behind a text: its opening brackets less its closing ones. -/
def depth (w : List Char) : Int := w.countP opens - w.countP closes

/-- A text that closes exactly the brackets which it opens and `d` more that are open before it. -/
structure ClosesFrom (d : Nat) (w : List Char) : Prop where
  nonneg : ∀ u, u <+: w → 0 ≤ d + depth u
  zero : d + depth w = 0

/-- A text that closes the brackets which it opens, whatever their kinds, and no others. -/
def Closed (w : List Char) : Prop := ClosesFrom 0 w

theorem not_closed_iff : ¬ Closed w ↔ (∃ u, u <+: w ∧ depth u < 0) ∨ depth w ≠ 0 := by
  constructor
  · intro open_
    by_contra none
    simp only [not_or, not_exists, not_and, Int.not_lt, ne_eq, not_not] at none
    exact open_ ⟨by simpa using none.1, by simpa using none.2⟩
  · rintro (⟨u, front, negative⟩ | nonzero) closed
    · have := closed.nonneg u front
      omega
    · exact nonzero (by simpa using closed.zero)

/-! ## One character -/

theorem closes_of_opens (h : opens c = true) : closes c = false := by
  simp only [opens, Bool.or_eq_true, decide_eq_true_eq] at h
  rcases h with ((rfl | rfl) | rfl) | rfl <;> rfl

theorem depth_opener (h : opens c = true) : depth (c :: w) = depth w + 1 := by
  have other := closes_of_opens h
  simp only [depth, List.countP_cons_of_pos h, List.countP_cons_of_neg (ne_true_of_eq_false other)]
  omega

theorem depth_closer (opener : opens c = false) (closer : closes c = true) :
    depth (c :: w) = depth w - 1 := by
  simp only [depth, List.countP_cons_of_neg (ne_true_of_eq_false opener),
    List.countP_cons_of_pos closer]
  omega

theorem depth_flat (flat : opens c = false ∧ closes c = false) : depth (c :: w) = depth w := by
  simp only [depth, List.countP_cons_of_neg (ne_true_of_eq_false flat.1),
    List.countP_cons_of_neg (ne_true_of_eq_false flat.2)]

theorem closesFrom_nil (d : Nat) : ClosesFrom d [] ↔ d = 0 := by
  constructor
  · intro h
    have := h.zero
    simp only [depth, List.countP_nil] at this
    omega
  · rintro rfl
    exact ⟨by simp [depth], by simp [depth]⟩

/-- A character that changes the depth leaves the rest of the text to close what is open behind
it. -/
theorem closesFrom_cons {d d' : Nat} (change : ∀ v, d + depth (c :: v) = d' + depth v) :
    ClosesFrom d (c :: w) ↔ ClosesFrom d' w := by
  constructor
  · intro h
    refine ⟨fun u front => ?_, (change w).symm.trans h.zero⟩
    rw [← change]
    exact h.nonneg _ (List.cons_prefix_cons.2 ⟨rfl, front⟩)
  · intro h
    refine ⟨fun u front => ?_, (change w).trans h.zero⟩
    cases u with
    | nil => simp [depth]
    | cons a u =>
      obtain ⟨rfl, shorter⟩ := List.cons_prefix_cons.1 front
      rw [change]
      exact h.nonneg u shorter

theorem closesFrom_opener (h : opens c = true) (d : Nat) :
    ClosesFrom d (c :: w) ↔ ClosesFrom (d + 1) w :=
  closesFrom_cons fun v => by rw [depth_opener h]; omega

theorem closesFrom_closer (opener : opens c = false) (closer : closes c = true) (d : Nat) :
    ClosesFrom (d + 1) (c :: w) ↔ ClosesFrom d w :=
  closesFrom_cons fun v => by rw [depth_closer opener closer]; omega

theorem closesFrom_flat (flat : opens c = false ∧ closes c = false) (d : Nat) :
    ClosesFrom d (c :: w) ↔ ClosesFrom d w :=
  closesFrom_cons fun v => by rw [depth_flat flat]

theorem not_closesFrom_stray (opener : opens c = false) (closer : closes c = true) :
    ¬ ClosesFrom 0 (c :: w) := by
  intro h
  have := h.nonneg [c] ⟨w, rfl⟩
  rw [depth_closer opener closer] at this
  simp [depth] at this

/-! ## When splitting fails -/

theorem exists_map_eq_ok_iff {ε α β : Type} {x : Except ε α} {f : α → β} :
    (∃ b, x.map f = .ok b) ↔ ∃ a, x = .ok a := by
  cases x <;> simp [Except.map]

/-- Splitting goes through a text that closes what is open. No bracket stands in the part of a
separator that is still to be skipped. -/
theorem exists_splitFrom_iff (flat : Flat sep) {skip d : Nat} (skipped : Flat (text.take skip)) :
    (∃ ps, splitFrom sep skip d text = .ok ps) ↔ ClosesFrom d text := by
  induction text generalizing skip d with
  | nil =>
    rw [closesFrom_nil]
    simp only [splitFrom]
    split <;> simp_all
  | cons c r ih =>
    cases skip with
    | succ skip =>
      rw [closesFrom_flat (skipped c (by simp)), splitFrom]
      exact ih (by simpa using skipped.tail)
    | zero =>
      have go : ∀ d, (∃ ps, splitFrom sep 0 d r = .ok ps) ↔ ClosesFrom d r :=
        fun d => ih (by simp [Flat])
      simp only [splitFrom]
      split
      · rename_i opener
        rw [exists_map_eq_ok_iff, closesFrom_opener opener, go]
      · rename_i opener
        rw [Bool.not_eq_true] at opener
        split
        · rename_i closer
          cases d with
          | zero => simp [not_closesFrom_stray opener closer]
          | succ d => rw [exists_map_eq_ok_iff, closesFrom_closer opener closer, go]
        · rename_i closer
          rw [Bool.not_eq_true] at closer
          rw [closesFrom_flat ⟨opener, closer⟩]
          split
          · rename_i separates
            obtain ⟨zero, here⟩ := Bool.and_eq_true_iff.1 separates
            obtain rfl : d = 0 := of_decide_eq_true zero
            obtain ⟨rest, joined⟩ := List.isPrefixOf_iff_prefix.1 here
            -- what is skipped is the separator without its first character
            have inside : r.take (sep.length - 1) ⊆ sep := by
              cases sep with
              | nil => simp
              | cons a s =>
                obtain ⟨-, rfl⟩ := List.cons.inj joined
                simp
            rw [exists_map_eq_ok_iff]
            exact ih fun a member => flat a (inside member)
          · rw [exists_map_eq_ok_iff, go]

theorem exists_split_iff (flat : Flat sep) : (∃ ps, split sep text = .ok ps) ↔ Closed text :=
  exists_splitFrom_iff flat (by simp [Flat])

theorem exists_split_error_iff (flat : Flat sep) :
    (∃ cause, split sep text = .error cause) ↔ ¬ Closed text := by
  rw [← exists_split_iff flat]
  cases split sep text <;> simp

/-! ## Parts alone -/

/-- What one separator passes in some surroundings, another passes in others if it begins at no more
places there. -/
theorem passes_of_fewer {d d' : Nat} (fewer : ∀ v, v ≠ [] → sep' <+: v ++ rest' → sep <+: v ++ rest)
    (passed : passes sep rest d w = some d') : passes sep' rest' d w = some d' := by
  induction w generalizing d with
  | nil => exact passed
  | cons c w ih =>
    simp only [passes] at passed ⊢
    split at passed
    · rw [if_pos ‹_›]
      exact ih passed
    · rw [if_neg ‹_›]
      split at passed
      · rw [if_pos ‹_›]
        cases d with
        | zero => cases passed
        | succ d => exact ih passed
      · rw [if_neg ‹_›]
        split at passed
        · cases passed
        · rename_i apart
          rw [if_neg, ih passed]
          intro separates
          obtain ⟨zero, here⟩ := Bool.and_eq_true_iff.1 separates
          have there := fewer (c :: w) (by simp) (List.isPrefixOf_iff_prefix.1 here)
          exact apart (Bool.and_eq_true_iff.2 ⟨zero, List.isPrefixOf_iff_prefix.2 there⟩)

theorem Divides.passes {ps : List (List Char)} (h : Divides sep ps) {p : List Char}
    (member : p ∈ ps) :
    ∃ rest, passes sep rest 0 p = some 0 := by
  induction ps with
  | nil => cases member
  | cons q qs ih =>
    cases qs with
    | nil =>
      obtain rfl := List.mem_singleton.1 member
      exact ⟨[], h⟩
    | cons q' qs =>
      rcases List.mem_cons.1 member with rfl | later
      · exact ⟨_, h.1⟩
      · exact ih h.2 later

theorem split_eq_self_iff (flat : opens c = false ∧ closes c = false) {s p : List Char} :
    split (c :: s) p = .ok [p] ↔ passes (c :: s) [] 0 p = some 0 := by
  rw [split_eq_ok_iff flat]
  exact ⟨fun h => h.1, fun h => ⟨h, rfl⟩⟩

/-- A part is not split again. -/
theorem split_part (flat : opens c = false ∧ closes c = false) {s : List Char}
    {ps : List (List Char)}
    (h : Divides (c :: s) ps) {p : List Char} (member : p ∈ ps) : split (c :: s) p = .ok [p] := by
  obtain ⟨rest, passed⟩ := h.passes member
  refine (split_eq_self_iff flat).2 (passes_of_fewer (fun v _ here => ?_) passed)
  rw [List.append_nil] at here
  exact here.trans (List.prefix_append v rest)

/-- Whether one character begins somewhere does not depend on what follows. -/
theorem between_of_split (flat : opens c = false ∧ closes c = false) {p : List Char}
    (alone : split [c] p = .ok [p]) : Between c p := by
  intro s rest
  refine passes_of_fewer (fun v nonempty here => ?_) ((split_eq_self_iff flat).1 alone)
  obtain ⟨a, v, rfl⟩ := List.exists_cons_of_ne_nil nonempty
  obtain ⟨rfl, -⟩ := List.cons_prefix_cons.1 here
  simp

/-- Splitting at a separator without brackets fails exactly for texts with an unmatched bracket; the
parts join to the text, have no unmatched bracket and are not split again; and one character splits
what it joins. -/
theorem split_exact (nonempty : sep ≠ []) (flat : Flat sep) :
    (∀ text, (∃ cause, split sep text = .error cause) ↔
      (∃ u, u <+: text ∧ depth u < 0) ∨ depth text ≠ 0) ∧
    (∀ text parts, split sep text = .ok parts →
      parts ≠ [] ∧ join sep parts = text ∧ ∀ p ∈ parts, Closed p ∧ split sep p = .ok [p]) ∧
    (sep.length = 1 → ∀ parts, parts ≠ [] → (∀ p ∈ parts, split sep p = .ok [p]) →
      split sep (join sep parts) = .ok parts) := by
  obtain ⟨c, s, rfl⟩ := List.exists_cons_of_ne_nil nonempty
  have first := flat c List.mem_cons_self
  refine ⟨fun text => (exists_split_error_iff flat).trans not_closed_iff,
    fun text parts found => ?_, fun single parts some alone => ?_⟩
  · obtain ⟨divides, rfl⟩ := (split_eq_ok_iff first).1 found
    refine ⟨divides.ne_nil, rfl, fun p member => ?_⟩
    have alone := split_part first divides member
    exact ⟨(exists_split_iff flat).1 ⟨_, alone⟩, alone⟩
  · obtain rfl : s = [] := by simpa using single
    have between := fun p member => between_of_split first (alone p member)
    exact (split_eq_ok_iff first).2 ⟨divides_of_between some between, rfl⟩

/-- Separators of two characters may overlap; the first one counts. -/
example : split [':', ':'] "a:::(b::c]".toList = .ok ["a".toList, ":(b::c]".toList] := by decide

theorem split_comma_exact :
    split [','] "f(a,b>,,g".toList = .ok ["f(a,b>".toList, [], "g".toList] ∧
      join [','] ["f(a,b>".toList, [], "g".toList] = "f(a,b>,,g".toList ∧
      (∀ p ∈ ["f(a,b>".toList, [], "g".toList], Closed p ∧ split [','] p = .ok [p]) ∧
      split [','] (join [','] ["f(a,b>".toList, [], "g".toList]) =
        .ok ["f(a,b>".toList, [], "g".toList] ∧
      (∃ cause, split [','] "a],[b".toList = .error cause) := by
  obtain ⟨fails, parts, inverse⟩ := @split_exact [','] (by simp) (by simp [Flat, opens, closes])
  have found : split [','] "f(a,b>,,g".toList = .ok ["f(a,b>".toList, [], "g".toList] := by decide
  obtain ⟨some, joined, alone⟩ := parts _ _ found
  exact ⟨found, joined, alone, inverse rfl _ some fun p member => (alone p member).2,
    (fails _).2 (.inl ⟨"a]".toList, by decide, by decide⟩)⟩

end NativeBridge.Text
