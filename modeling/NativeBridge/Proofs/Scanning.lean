import Mathlib.Data.List.Chain
import Mathlib.Data.List.TakeWhile
import NativeBridge.Proofs.Nesting
import NativeBridge.Text.Comment
import NativeBridge.Text.Scan

/-!
# What readers take

A reader of a shape has choices only where blanks and lazily taken texts stand. These lemmas say for
texts of words and solid pieces, written one space apart, which choice fits: a word is read up to
the first character that is none, and a type text up to the last place where the rest has its shape.
-/
namespace NativeBridge.Text

variable {α : Type} {s t u v w rest : List Char} {c : Char}

/-! ## Words -/

/-- The code points of blanks. -/
def blankPoints : List Nat :=
  List.range' 9 5 ++ List.range' 28 5 ++ [0x85, 0xA0, 0x1680] ++ List.range' 0x2000 11 ++
    [0x2028, 0x2029, 0x202F, 0x205F, 0x3000]

theorem toNat_mem_blankPoints (h : isBlank c = true) : c.toNat ∈ blankPoints := by
  simp only [isBlank, Bool.or_eq_true, Bool.and_eq_true, decide_eq_true_eq, beq_iff_eq] at h
  simp only [blankPoints, List.mem_append, List.mem_range'_1, List.mem_cons,
    List.not_mem_nil, or_false]
  omega

theorem isWord_of_blank (h : isBlank c = true) : isWord c = false := by
  have none : ∀ n ∈ blankPoints, isWord (Char.ofNat n) = false := by decide +kernel
  rw [← Char.ofNat_toNat c]
  exact none _ (toNat_mem_blankPoints h)

theorem isBlank_of_word (h : isWord c = true) : isBlank c = false := by
  by_contra blank
  rw [isWord_of_blank (by simpa using blank)] at h
  cases h

/-- A class of characters without brackets. -/
theorem flat_of_class {p : Char → Bool} (h : p c = true)
    (none : ['(', '[', '{', '<', ')', ']', '}', '>'].any p = false) :
    opens c = false ∧ closes c = false := by
  have apart : ∀ d ∈ ['(', '[', '{', '<', ')', ']', '}', '>'], c ≠ d := by
    rintro d member rfl
    exact List.any_eq_false.1 none c member h
  simp only [List.forall_mem_cons] at apart
  simp [opens, closes, apart]

theorem flat_of_word (h : isWord c = true) : opens c = false ∧ closes c = false :=
  flat_of_class h (by decide)

/-- A text of blanks only. -/
def Blank (w : List Char) : Prop := ∀ c ∈ w, isBlank c = true

instance (w : List Char) : Decidable (Blank w) :=
  decidable_of_iff (w.all isBlank = true) List.all_eq_true

theorem Blank.not_mem (h : Blank w) (nonblank : isBlank c = false) : c ∉ w := by
  intro member
  rw [h c member] at nonblank
  cases nonblank

theorem Blank.flat (h : Blank w) : Flat w := fun c member => flat_of_class (h c member) (by decide)

/-- A word: at least one character, all of them word characters. -/
structure Word (w : List Char) : Prop where
  nonempty : w ≠ []
  all : ∀ c ∈ w, isWord c = true

theorem word_iff : (!w.isEmpty && w.all isWord) = true ↔ Word w := by
  rw [Bool.and_eq_true, List.all_eq_true, Bool.not_eq_true', List.isEmpty_eq_false_iff]
  exact ⟨fun h => ⟨h.1, h.2⟩, fun h => ⟨h.1, h.2⟩⟩

instance (w : List Char) : Decidable (Word w) := decidable_of_iff _ word_iff

theorem Word.not_mem (h : Word w) (other : isWord c = false) : c ∉ w := by
  intro member
  rw [h.all c member] at other
  cases other

theorem Word.flat (h : Word w) : Flat w := fun c member => flat_of_word (h.all c member)

theorem Word.nonblank (h : Word w) : ∀ c ∈ w, isBlank c = false :=
  fun c member => isBlank_of_word (h.all c member)

/-- What follows a word so that the word ends there. -/
def Stops (rest : List Char) : Prop := ∀ c r, rest = c :: r → isWord c = false

theorem stops_cons (other : isWord c = false) (r : List Char) : Stops (c :: r) := by
  rintro d x ⟨⟩
  exact other

theorem readWord_append (word : Word w) (stops : Stops rest) :
    readWord (w ++ rest) = some (w, rest) := by
  have taken : (w ++ rest).takeWhile isWord = w := by
    rw [List.takeWhile_append_of_pos word.all]
    cases rest with
    | nil => simp
    | cons c r => rw [List.takeWhile_cons_of_neg (by simp [stops c r rfl]), List.append_nil]
  have left : (w ++ rest).dropWhile isWord = rest := by
    rw [List.dropWhile_append_of_pos word.all]
    cases rest with
    | nil => rfl
    | cons c r => exact List.dropWhile_cons_of_neg (by simp [stops c r rfl])
  rw [readWord, taken, left, if_neg word.nonempty]

theorem wholeWord_of_word (word : Word w) : wholeWord w = some w := by
  have all : w.all isWord = true := List.all_eq_true.2 word.all
  simp [wholeWord, word.nonempty, all]

theorem wholeWord_eq_none (member : c ∈ w) (other : isWord c = false) : wholeWord w = none := by
  have some : w.all isWord = false := by
    rw [List.all_eq_false]
    exact ⟨c, member, by simp [other]⟩
  simp [wholeWord, some]

/-! ## Comments -/

/-- A text without a slash has no comments. -/
theorem stripComments_eq (plain : '/' ∉ s) : stripComments s = s := by
  have blocks : dropBlocks 0 s = s := by
    induction s with
    | nil => rfl
    | cons c s ih =>
      simp only [List.mem_cons, not_or] at plain
      rw [dropBlocks, ih plain.2]
      rintro r rfl
      exact absurd rfl plain.1
  have lines : dropLineEnds false s = s := by
    clear blocks
    induction s with
    | nil => rfl
    | cons c s ih =>
      simp only [List.mem_cons, not_or] at plain
      rw [dropLineEnds, ih plain.2]
      rintro r rfl
      exact absurd rfl plain.1
  rw [stripComments, blocks, lines]

/-! ## Solid texts -/

/-- A text that begins and ends with something other than a blank. -/
structure Solid (w : List Char) : Prop where
  first : ∃ c r, w = c :: r ∧ isBlank c = false
  last : ∃ r c, w = r ++ [c] ∧ isBlank c = false

theorem Solid.of_nonblank (nonempty : w ≠ []) (h : ∀ c ∈ w, isBlank c = false) : Solid w := by
  constructor
  · obtain ⟨c, r, rfl⟩ := List.exists_cons_of_ne_nil nonempty
    exact ⟨c, r, rfl, h c List.mem_cons_self⟩
  · obtain ⟨r, c, rfl⟩ := (List.eq_nil_or_concat' w).resolve_left nonempty
    exact ⟨r, c, rfl, h c (by simp)⟩

theorem Word.solid (h : Word w) : Solid w := .of_nonblank h.nonempty h.nonblank

/-- Solid texts stay solid whatever stands between them. -/
theorem Solid.between (hu : Solid u) (hv : Solid v) (m : List Char) : Solid (u ++ (m ++ v)) := by
  obtain ⟨c, r, rfl, nonblank⟩ := hu.first
  obtain ⟨r', c', rfl, nonblank'⟩ := hv.last
  exact ⟨⟨c, r ++ (m ++ (r' ++ [c'])), rfl, nonblank⟩,
    ⟨c :: r ++ (m ++ r'), c', by simp, nonblank'⟩⟩

theorem Solid.spaced (hu : Solid u) (hv : Solid v) : Solid (u ++ ' ' :: v) := hu.between hv [' ']

theorem Solid.append (hu : Solid u) (hv : Solid v) : Solid (u ++ v) := hu.between hv []

theorem Solid.enclosed {o e : Char} (ho : isBlank o = false) (he : isBlank e = false)
    (w : List Char) : Solid (o :: (w ++ [e])) :=
  ⟨⟨o, w ++ [e], rfl, ho⟩, ⟨o :: w, e, rfl, he⟩⟩

theorem Solid.ne_nil (h : Solid w) : w ≠ [] := by
  obtain ⟨c, r, rfl, -⟩ := h.first
  simp

theorem trimLeft_cons (nonblank : isBlank c = false) (r : List Char) : trimLeft (c :: r) = c :: r :=
  List.dropWhile_cons_of_neg (by simp [nonblank])

theorem trimLeft_append (blank : Blank u) (v : List Char) :
    trimLeft (u ++ v) = trimLeft v := List.dropWhile_append_of_pos blank

theorem Solid.trimLeft_append (h : Solid w) (rest : List Char) :
    trimLeft (w ++ rest) = w ++ rest := by
  obtain ⟨c, r, rfl, nonblank⟩ := h.first
  exact trimLeft_cons nonblank _

theorem Solid.trimLeft (h : Solid w) : trimLeft w = w := by
  obtain ⟨c, r, rfl, nonblank⟩ := h.first
  exact trimLeft_cons nonblank r

theorem Solid.trimLeft_space (h : Solid w) : Text.trimLeft (' ' :: w) = w := by
  have space : isBlank ' ' = true := by decide
  rw [Text.trimLeft, List.dropWhile_cons_of_pos space]
  exact h.trimLeft

/-- What is left of a solid text ends as the text does. -/
theorem Solid.suffix (h : Solid w) (suffix : v <:+ w) (nonempty : v ≠ []) :
    ∃ r c, v = r ++ [c] ∧ isBlank c = false ∧ r <:+: w := by
  obtain ⟨r, c, rfl, nonblank⟩ := h.last
  obtain ⟨r', rfl, inside⟩ := (List.suffix_concat_iff.1 suffix).resolve_left nonempty
  exact ⟨r', c, rfl, nonblank, inside.isInfix.trans (List.prefix_append r [c]).isInfix⟩

theorem Solid.trimRight (h : Solid w) : trimRight w = w := by
  obtain ⟨r, c, rfl, nonblank⟩ := h.last
  rw [Text.trimRight, List.reverse_append, List.reverse_singleton, List.singleton_append,
    List.dropWhile_cons_of_neg (by simp [nonblank])]
  simp

/-- Blanks in front of a solid text are trimmed, and nothing else. -/
theorem Solid.trim_append (h : Solid w) (blank : Blank u) : trim (u ++ w) = w := by
  rw [Text.trim, Text.trimLeft_append blank, h.trimLeft, h.trimRight]

theorem Solid.trim (h : Solid w) : trim w = w := h.trim_append (u := []) (by decide)

theorem trim_blanks (blank : Blank w) : trim w = [] := by
  have none : trimLeft w = [] := List.dropWhile_eq_nil_iff.2 blank
  rw [trim, none]
  rfl

/-- What ends with something other than a blank is not used up by trimming in front. -/
theorem exists_trimLeft_append {last : Char} (nonblank : isBlank last = false)
    (v rest : List Char) :
    ∃ c x, trimLeft (v ++ last :: rest) = c :: x ++ rest ∧ isBlank c = false ∧
      c :: x <:+ v ++ [last] := by
  induction v with
  | nil => exact ⟨last, [], trimLeft_cons nonblank rest, nonblank, List.suffix_refl _⟩
  | cons a v ih =>
    cases blank : isBlank a with
    | false =>
      refine ⟨a, v ++ [last], ?_, blank, List.suffix_refl _⟩
      rw [List.cons_append, trimLeft_cons blank]
      simp
    | true =>
      obtain ⟨c, x, trimmed, first, suffix⟩ := ih
      refine ⟨c, x, ?_, first, suffix.trans (List.suffix_cons a _)⟩
      rw [List.cons_append, trimLeft, List.dropWhile_cons_of_pos blank]
      exact trimmed

/-! ## Squeezed texts -/

/-- A text whose only blanks are spaces, no two of them next to each other. -/
structure Spaced (w : List Char) : Prop where
  spaces : ∀ c ∈ w, isBlank c = true → c = ' '
  apart : w.IsChain fun a b => isBlank a = true → isBlank b = false

theorem Spaced.part (h : Spaced w) (part : v <:+: w) : Spaced v :=
  ⟨fun c member => h.spaces c (part.subset member), List.IsChain.infix h.apart part⟩

theorem Spaced.nil : Spaced [] := ⟨by simp, .nil⟩

theorem Spaced.cons (space : isBlank c = true → c = ' ')
    (next : ∀ a ∈ w.head?, isBlank c = true → isBlank a = false) (h : Spaced w) : Spaced (c :: w) :=
  ⟨List.forall_mem_cons.2 ⟨space, h.spaces⟩, List.isChain_cons.2 ⟨next, h.apart⟩⟩

theorem Spaced.of_nonblank (h : ∀ c ∈ w, isBlank c = false) : Spaced w := by
  induction w with
  | nil => exact .nil
  | cons c w ih =>
    obtain ⟨first, others⟩ := List.forall_mem_cons.1 h
    exact .cons (by simp [first]) (by simp [first]) (ih others)

theorem Spaced.append (hu : Spaced u) (hv : Spaced v) (solid : Solid u) : Spaced (u ++ v) := by
  constructor
  · intro c member blank
    rcases List.mem_append.1 member with inside | inside
    · exact hu.spaces c inside blank
    · exact hv.spaces c inside blank
  · refine List.isChain_append.2 ⟨hu.apart, hv.apart, fun a last b _ blank => ?_⟩
    obtain ⟨r, c, rfl, nonblank⟩ := solid.last
    have same : c = a := by simpa using last
    rw [← same, nonblank] at blank
    cases blank

theorem words_blank (blank : isBlank c = true) (r : List Char) : words (c :: r) = words r := by
  simp [words, cut, blank]

theorem words_cons_blank {d : Char} (hc : isBlank c = false) (hd : isBlank d = true)
    (r : List Char) :
    words (c :: d :: r) = [c] :: words r := by
  simp [words, cut, hc, hd]

theorem words_cons_cons {d : Char} (hc : isBlank c = false) (hd : isBlank d = false)
    (r : List Char) :
    ∃ w ws, words (d :: r) = w :: ws ∧ words (c :: d :: r) = (c :: w) :: ws := by
  obtain ⟨w, ws, pieces⟩ := List.exists_cons_of_ne_nil (cut_ne_nil isBlank r)
  exact ⟨d :: w, ws.filter (· ≠ []), by simp [words, cut, hd, pieces], by
    simp [words, cut, hc, hd, pieces]⟩

theorem squeeze_blank (blank : isBlank c = true) (r : List Char) :
    squeeze (c :: r) = squeeze r := by
  rw [squeeze, words_blank blank, squeeze]

theorem squeeze_singleton (hc : isBlank c = false) : squeeze [c] = [c] := by
  simp [squeeze, words, cut, hc, join]

theorem squeeze_cons_cons {d : Char} (hc : isBlank c = false) (hd : isBlank d = false)
    (r : List Char) : squeeze (c :: d :: r) = c :: squeeze (d :: r) := by
  obtain ⟨w, ws, found, longer⟩ := words_cons_cons hc hd r
  rw [squeeze, squeeze, found, longer]
  cases ws <;> simp [join]

/-- A space is kept after a word if another word follows. -/
theorem squeeze_cons_blank {d : Char} (hc : isBlank c = false) (hd : isBlank d = true)
    (r : List Char) :
    squeeze (c :: d :: r) = if squeeze r = [] then [c] else c :: ' ' :: squeeze r := by
  rw [squeeze, squeeze, words_cons_blank hc hd]
  cases found : words r with
  | nil => simp [join]
  | cons w ws =>
    have member : w ∈ words r := by simp [found]
    have nonempty : w ≠ [] := by simpa using (List.mem_filter.1 member).2
    have some : join [' '] (w :: ws) ≠ [] := by cases ws <;> simp [join, nonempty]
    rw [if_neg some]
    simp [join]

theorem trimRight_cons (hc : isBlank c = false) (r : List Char) :
    trimRight (c :: r) = c :: trimRight r := by
  have kept : [c].dropWhile isBlank = [c] := List.dropWhile_cons_of_neg (by simp [hc])
  rw [trimRight, trimRight, List.reverse_cons, List.dropWhile_append, kept]
  split
  · rename_i none
    simp [List.isEmpty_iff.1 none]
  · simp

theorem trimRight_blank (hc : isBlank c = true) (r : List Char) :
    trimRight (c :: r) = if trimRight r = [] then [] else c :: trimRight r := by
  have dropped : [c].dropWhile isBlank = [] := by simp [hc]
  rw [trimRight, trimRight, List.reverse_cons, List.dropWhile_append, dropped]
  simp only [List.isEmpty_iff, List.reverse_eq_nil_iff]
  split
  · rfl
  · simp

/-- Squeezing a text whose blanks are single spaces trims it. -/
theorem Spaced.squeeze_eq_trim (h : Spaced w) : squeeze w = trim w := by
  induction w with
  | nil => rfl
  | cons c r ih =>
    have later := ih (h.part (List.suffix_cons c r).isInfix)
    cases hc : isBlank c with
    | true =>
      rw [squeeze_blank hc, later, trim, trim, trimLeft, trimLeft, List.dropWhile_cons_of_pos hc]
    | false =>
      rw [trim, trimLeft_cons hc, trimRight_cons hc]
      cases r with
      | nil => exact squeeze_singleton hc
      | cons d r =>
        cases hd : isBlank d with
        | false =>
          rw [squeeze_cons_cons hc hd, later, trim, trimLeft_cons hd]
        | true =>
          have first : ∀ a ∈ r.head?, isBlank a = false := by
            intro a start
            exact (List.isChain_cons.1 (List.isChain_cons.1 h.apart).2).1 a start hd
          have same : squeeze r = trimRight r := by
            rw [← squeeze_blank hd, later, trim, trimLeft, List.dropWhile_cons_of_pos hd]
            cases r with
            | nil => rfl
            | cons a r => rw [List.dropWhile_cons_of_neg (by simp [first a rfl])]
          rw [squeeze_cons_blank hc hd, same, trimRight_blank hd, h.spaces d (by simp) hd]
          split <;> rfl

theorem squeeze_spaced_and_first (w : List Char) :
    Spaced (squeeze w) ∧ ∀ a ∈ (squeeze w).head?, isBlank a = false := by
  induction w with
  | nil => exact ⟨.nil, by simp [squeeze, words, cut, join]⟩
  | cons c r ih =>
    cases hc : isBlank c with
    | true =>
      rw [squeeze_blank hc]
      exact ih
    | false =>
      have word : isBlank c = true → c = ' ' := by simp [hc]
      have next : ∀ a ∈ (c :: r).head?, isBlank a = false := by simp [hc]
      cases r with
      | nil =>
        rw [squeeze_singleton hc]
        exact ⟨.cons word (by simp [hc]) .nil, next⟩
      | cons d r =>
        cases hd : isBlank d with
        | false =>
          rw [squeeze_cons_cons hc hd]
          exact ⟨.cons word (by simp [hc]) ih.1, next⟩
        | true =>
          rw [squeeze_blank hd] at ih
          rw [squeeze_cons_blank hc hd]
          split
          · exact ⟨.cons word (by simp [hc]) .nil, next⟩
          · have spaced : Spaced (' ' :: squeeze r) :=
              .cons (fun _ => rfl) (fun a start _ => ih.2 a start) ih.1
            exact ⟨.cons word (by simp [hc]) spaced, next⟩

theorem spaced_squeeze (w : List Char) : Spaced (squeeze w) := (squeeze_spaced_and_first w).1

/-- A text that squeezing leaves as it is, and that is not empty. -/
structure Tidy (w : List Char) : Prop extends Solid w, Spaced w

theorem Tidy.squeeze (h : Tidy w) : squeeze w = w := by
  rw [h.squeeze_eq_trim, h.trim]

theorem Tidy.of_nonblank (nonempty : w ≠ []) (h : ∀ c ∈ w, isBlank c = false) : Tidy w :=
  ⟨.of_nonblank nonempty h, .of_nonblank h⟩

theorem Tidy.append (hu : Tidy u) (hv : Tidy v) : Tidy (u ++ v) :=
  ⟨hu.toSolid.append hv.toSolid, hu.toSpaced.append hv.toSpaced hu.toSolid⟩

theorem Tidy.space (hu : Tidy u) (hv : Tidy v) : Tidy (u ++ ' ' :: v) := by
  refine ⟨hu.toSolid.spaced hv.toSolid, hu.toSpaced.append (.cons ?_ ?_ hv.toSpaced) hu.toSolid⟩
  · intro _
    rfl
  · obtain ⟨c, r, rfl, nonblank⟩ := hv.first
    simp [nonblank]

theorem Tidy.enclosed {o e : Char} (ho : isBlank o = false) (he : isBlank e = false) (h : Tidy w) :
    Tidy (o :: (w ++ [e])) := by
  have opener : Tidy [o] := .of_nonblank (by simp) (by simp [ho])
  have closer : Tidy [e] := .of_nonblank (by simp) (by simp [he])
  exact opener.append (h.append closer)

theorem Word.tidy (h : Word w) : Tidy w := .of_nonblank h.nonempty h.nonblank

/-! ## Keywords -/

theorem afterBlanks_nonblank (nonblank : isBlank c = false) (read : List Char → Option α)
    (r : List Char) : afterBlanks read (c :: r) = none := by
  simp [afterBlanks, nonblank]

/-- A space before a solid text is read as a run of one blank. -/
theorem afterBlanks_space (solid : Solid w) (read : List Char → Option α) :
    afterBlanks read (' ' :: w) = read w := by
  obtain ⟨c, r, rfl, nonblank⟩ := solid.first
  have space : isBlank ' ' = true := by decide
  rw [afterBlanks, if_pos space, afterBlanks_nonblank nonblank, Option.none_or]

theorem afterKeyword_append (keyword : String) (solid : Solid w) (read : List Char → Option α) :
    afterKeyword keyword read (keyword.toList ++ ' ' :: w) = read w := by
  have found : keyword.toList.isPrefixOf? (keyword.toList ++ ' ' :: w) = some (' ' :: w) :=
    List.isPrefixOf?_eq_some_iff_append_eq.2 rfl
  rw [afterKeyword, found, Option.bind_some, afterBlanks_space solid]

/-- The characters of a text up to its first blank. -/
def firstWord (s : List Char) : List Char := s.takeWhile (!isBlank ·)

theorem mem_firstWord (before : ∀ a ∈ u, isBlank a = false) (nonblank : isBlank c = false)
    (r : List Char) : c ∈ firstWord (u ++ c :: r) := by
  rw [firstWord, List.takeWhile_append_of_pos (by simpa using before),
    List.takeWhile_cons_of_pos (by simp [nonblank])]
  simp

theorem firstWord_space (nonblank : ∀ a ∈ u, isBlank a = false) (r : List Char) :
    firstWord (u ++ ' ' :: r) = u := by
  rw [firstWord, List.takeWhile_append_of_pos (by simpa using nonblank),
    List.takeWhile_cons_of_neg (by decide), List.append_nil]

/-- What follows a blank is not part of the first word. -/
theorem firstWord_append (blank : ∃ a ∈ u, isBlank a = true) (v : List Char) :
    firstWord (u ++ v) = firstWord u := by
  obtain ⟨a, member, blank⟩ := blank
  induction u with
  | nil => cases member
  | cons d u ih =>
    cases hd : isBlank d with
    | true => simp [firstWord, hd]
    | false =>
      have later : a ∈ u := by
        rcases List.mem_cons.1 member with rfl | later
        · rw [hd] at blank
          cases blank
        · exact later
      have same := ih later
      simp only [firstWord] at same ⊢
      simp [hd, same]

theorem afterKeyword_eq_none {keyword : String} (nonblank : ∀ c ∈ keyword.toList, isBlank c = false)
    (other : firstWord s ≠ keyword.toList) (read : List Char → Option α) :
    afterKeyword keyword read s = none := by
  rw [afterKeyword]
  cases found : keyword.toList.isPrefixOf? s with
  | none => rfl
  | some r =>
    rw [Option.bind_some]
    cases r with
    | nil => rfl
    | cons c r =>
      refine afterBlanks_nonblank ?_ read r
      by_contra blank
      apply other
      rw [← List.isPrefixOf?_eq_some_iff_append_eq.1 found, firstWord,
        List.takeWhile_append_of_pos (by simpa using nonblank),
        List.takeWhile_cons_of_neg (by simpa using blank), List.append_nil]

theorem optionalKeyword_present (keyword : String) (solid : Solid w) {read : List Char → Option α}
    {a : α} (fits : read w = some a) :
    optionalKeyword keyword read (keyword.toList ++ ' ' :: w) = some (true, a) := by
  rw [optionalKeyword, afterKeyword_append keyword solid, fits]
  rfl

theorem optionalKeyword_absent {keyword : String}
    (nonblank : ∀ c ∈ keyword.toList, isBlank c = false)
    (other : firstWord s ≠ keyword.toList) (read : List Char → Option α) :
    optionalKeyword keyword read s = (read s).map (false, ·) := by
  rw [optionalKeyword, afterKeyword_eq_none nonblank other]
  rfl

/-! ## Texts taken as short as possible -/

/-- What is taken is as long as no shorter choice lets the rest fit. -/
theorem shortest_append {read : List Char → Option α} {a : α} (nonempty : t ≠ [])
    (early : ∀ v, v <:+ t → v ≠ [] → read (v ++ rest) = none)
    (fits : read rest = some a) : shortest read (t ++ rest) = some (t, a) := by
  induction t with
  | nil => exact absurd rfl nonempty
  | cons c t ih =>
    cases t with
    | nil => simp [shortest, fits]
    | cons d t =>
      have none := early (d :: t) (List.suffix_cons c _) (by simp)
      have later := ih (by simp) fun v suffix => early v (suffix.trans (List.suffix_cons c _))
      rw [List.cons_append, shortest, none, later]
      rfl

/-- A solid text before a space and a word is taken whole. -/
theorem shortest_blankWord (solid : Solid t) (word : Word w) :
    shortest blankWord (t ++ ' ' :: w) = some (t, w) := by
  refine shortest_append solid.ne_nil (fun v suffix nonempty => ?_) ?_
  · -- what is left of the text still holds the space, so it is not blanks and one word
    obtain ⟨v', last, rfl, nonblank, -⟩ := solid.suffix suffix nonempty
    obtain ⟨c, x, trimmed, -⟩ := exists_trimLeft_append nonblank v' (' ' :: w)
    rw [List.append_assoc, List.singleton_append]
    cases v' with
    | nil => simp [blankWord, nonblank]
    | cons a v' =>
      rw [List.cons_append] at trimmed ⊢
      rw [blankWord, trimmed, wholeWord_eq_none (c := ' ') (by simp) (by decide), ite_self]
  · have space : isBlank ' ' = true := by decide
    rw [blankWord, if_pos space, word.solid.trimLeft_space, wholeWord_of_word word]

end NativeBridge.Text
