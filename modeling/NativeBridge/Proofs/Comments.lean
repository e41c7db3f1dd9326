import Mathlib.Data.List.TakeWhile
import NativeBridge.Text.Comment

/-!
# Comments found from the left

A scanner that goes through a text once from the left deletes each comment that begins outside the
comments before it. Removing all block comments first and line comments from what remains is two
scans, each of which looks for one kind of comment. They remove the same characters as the one scan
exactly if each line comment contains the blocks that are found in it. Where an opening mark in a
line comment is closed outside it, what stands between the marks is lost.
-/
namespace NativeBridge.Text

inductive CommentKind where
  | line
  | block
  deriving DecidableEq

/-- What a scan finds: a character of the text proper, or a comment with what stands behind its
opening mark and, in a block, before its closing mark. -/
inductive Piece where
  | char (c : Char)
  | comment (kind : CommentKind) (body : List Char)
  deriving DecidableEq

def Piece.source : Piece → List Char
  | char c => [c]
  | comment .line body => '/' :: '/' :: body
  | comment .block body => '/' :: '*' :: (body ++ ['*', '/'])

def Piece.kept : Piece → List Char
  | char c => [c]
  | comment _ _ => []

def source (pieces : List Piece) : List Char := pieces.flatMap Piece.source

/-- What is left of a text when its comments are deleted. -/
def kept (pieces : List Piece) : List Char := pieces.flatMap Piece.kept

/-- Where a comment ends: before the next line feed or at the end of the text, and for a block with
the next closing mark. -/
def Ends : CommentKind → (body rest : List Char) → Prop
  | .line, body, rest => '\n' ∉ body ∧ (rest = [] ∨ rest.head? = some '\n')
  | .block, body, _ => ¬ ['*', '/'] <:+: body

instance : (kind : CommentKind) → (body rest : List Char) → Decidable (Ends kind body rest)
  | .line, body, rest =>
    inferInstanceAs (Decidable ('\n' ∉ body ∧ (rest = [] ∨ rest.head? = some '\n')))
  | .block, body, _ => inferInstanceAs (Decidable (¬ ['*', '/'] <:+: body))

/-- A comment stands at the front of a text. -/
structure Begins (kind : CommentKind) (text body rest : List Char) : Prop where
  front : text = (Piece.comment kind body).source ++ rest
  ends : Ends kind body rest

/-- A scan from the left for some kinds of comments. -/
inductive Scanned (wanted : CommentKind → Prop) : List Char → List Piece → Prop
  | done : Scanned wanted [] []
  | comment {kind : CommentKind} {text body rest : List Char} {pieces : List Piece}
      (among : wanted kind) (begins : Begins kind text body rest)
      (later : Scanned wanted rest pieces) :
      Scanned wanted text (.comment kind body :: pieces)
  | char {c : Char} {rest : List Char} {pieces : List Piece}
      (none : ∀ kind body rest', wanted kind → ¬ Begins kind (c :: rest) body rest')
      (later : Scanned wanted rest pieces) : Scanned wanted (c :: rest) (.char c :: pieces)

variable {wanted : CommentKind → Prop} {kind kind' : CommentKind} {pieces pieces' : List Piece}
  {text body body' rest rest' u w : List Char} {c : Char}

theorem Scanned.source_eq (h : Scanned wanted text pieces) : source pieces = text := by
  induction h with
  | done => rfl
  | comment _ begins _ ih => rw [begins.front, source, List.flatMap_cons, ← source, ih]
  | char _ _ ih => rw [source, List.flatMap_cons, ← source, ih]; rfl

/-! ## Where comments begin and end -/

theorem close_infix_cons (c : Char) (r : List Char) :
    ['*', '/'] <:+: c :: r ↔ (c = '*' ∧ ['/'] <+: r) ∨ ['*', '/'] <:+: r := by
  rw [List.infix_cons_iff, List.cons_prefix_cons]
  simp only [eq_comm]

/-- The first of the closing marks in a text. -/
theorem exists_first_close (closed : ['*', '/'] <:+: text) :
    ∃ body rest, text = body ++ '*' :: '/' :: rest ∧ ¬ ['*', '/'] <:+: body := by
  induction text with
  | nil => simp at closed
  | cons c r ih =>
    by_cases here : c = '*' ∧ ['/'] <+: r
    · obtain ⟨rfl, rest, rfl⟩ := here
      exact ⟨[], rest, rfl, by simp⟩
    · obtain ⟨body, rest, rfl, next⟩ := ih (((close_infix_cons c r).1 closed).resolve_left here)
      refine ⟨c :: body, rest, rfl, fun inside => ?_⟩
      rcases (close_infix_cons c body).1 inside with ⟨rfl, slash⟩ | later
      · exact here ⟨rfl, slash.trans (List.prefix_append _ _)⟩
      · exact next later

theorem exists_begins_line_iff :
    (∃ body rest, Begins .line text body rest) ↔ ['/', '/'] <+: text := by
  constructor
  · rintro ⟨body, rest, rfl, -⟩
    exact ⟨body ++ rest, rfl⟩
  · rintro ⟨r, rfl⟩
    refine ⟨r.takeWhile (· ≠ '\n'), r.dropWhile (· ≠ '\n'), ?_, fun member => ?_, ?_⟩
    · simp [Piece.source]
    · simpa using List.mem_takeWhile_imp member
    · have stopped := List.head?_dropWhile_not (· ≠ '\n') r
      cases behind : r.dropWhile (· ≠ '\n') with
      | nil => exact .inl rfl
      | cons c x =>
        rw [behind] at stopped
        exact .inr (by simpa using stopped)

theorem exists_begins_block_iff :
    (∃ body rest, Begins .block text body rest) ↔
      ∃ r, text = '/' :: '*' :: r ∧ ['*', '/'] <:+: r := by
  constructor
  · rintro ⟨body, rest, rfl, -⟩
    exact ⟨body ++ ['*', '/'] ++ rest, rfl, body, rest, rfl⟩
  · rintro ⟨r, rfl, closed⟩
    obtain ⟨body, rest, rfl, next⟩ := exists_first_close closed
    exact ⟨body, rest, by simp [Piece.source], next⟩

/-- No comment reaches beyond the end of another that begins at the same place. -/
theorem Ends.eq_nil (h : Ends kind body rest) (h' : Ends kind (body ++ u) rest')
    (same : (Piece.comment kind body).source ++ rest =
      (Piece.comment kind (body ++ u)).source ++ rest') :
    u = [] := by
  cases u with
  | nil => rfl
  | cons a u =>
    cases kind with
    | line =>
      obtain rfl : rest = a :: u ++ rest' := by simpa [Piece.source] using same
      obtain rfl : a = '\n' := by simpa using h.2
      exact absurd (by simp) h'.1
    | block =>
      have after : '*' :: '/' :: rest = a :: u ++ '*' :: '/' :: rest' := by
        simpa [Piece.source] using same
      obtain ⟨rfl, slash⟩ := List.cons.inj after
      cases u with
      | nil => simp at slash
      | cons b u =>
        obtain ⟨rfl, -⟩ := List.cons.inj slash
        exact absurd ⟨body, u, by simp⟩ h'

theorem Begins.unique (h : Begins kind text body rest) (h' : Begins kind' text body' rest') :
    kind = kind' ∧ body = body' ∧ rest = rest' := by
  obtain rfl : kind = kind' := by
    have same := h.front.symm.trans h'.front
    cases kind <;> cases kind' <;> simp_all [Piece.source]
  have same := h.front.symm.trans h'.front
  have bodies : body = body' := by
    have whole : ∃ x x', body ++ x = body' ++ x' := by
      cases kind <;> exact ⟨_, _, by simpa [Piece.source] using same⟩
    obtain ⟨x, x', whole⟩ := whole
    rcases List.append_eq_append_iff.1 whole with ⟨u, rfl, -⟩ | ⟨u, rfl, -⟩
    · rw [h.ends.eq_nil h'.ends same, List.append_nil]
    · rw [h'.ends.eq_nil h.ends same.symm, List.append_nil]
  subst bodies
  exact ⟨rfl, rfl, List.append_cancel_left same⟩

theorem Begins.shorter (h : Begins kind text body rest) : rest.length < text.length := by
  rw [h.front]
  cases kind <;> simp [Piece.source] <;> omega

/-! ## A scan of any text -/

theorem exists_scanned (wanted : CommentKind → Prop) (text : List Char) :
    ∃ pieces, Scanned wanted text pieces := by
  induction n : text.length using Nat.strongRecOn generalizing text with
  | ind n ih =>
    subst n
    by_cases some : ∃ kind body rest, wanted kind ∧ Begins kind text body rest
    · obtain ⟨kind, body, rest, among, begins⟩ := some
      obtain ⟨pieces, later⟩ := ih _ begins.shorter rest rfl
      exact ⟨_, .comment among begins later⟩
    · cases text with
      | nil => exact ⟨[], .done⟩
      | cons c r =>
        obtain ⟨pieces, later⟩ := ih r.length (by simp) r rfl
        exact ⟨_,
          .char (fun kind body rest among begins => some ⟨kind, body, rest, among, begins⟩) later⟩

theorem Scanned.unique (h : Scanned wanted text pieces) (h' : Scanned wanted text pieces') :
    pieces = pieces' := by
  induction h generalizing pieces' with
  | done =>
    generalize same : ([] : List Char) = text at h'
    cases h' with
    | done => rfl
    | comment _ begins _ =>
      subst same
      exact absurd begins.shorter (by simp)
    | char => cases same
  | @comment kind text body rest pieces among begins later ih =>
    cases h' with
    | done => exact absurd begins.shorter (by simp)
    | comment _ begins' later' =>
      obtain ⟨rfl, rfl, rfl⟩ := begins.unique begins'
      rw [ih later']
    | char none _ => exact absurd begins (none _ _ _ among)
  | char none later ih =>
    generalize same : _ :: _ = text at h'
    cases h' with
    | done => cases same
    | comment among begins _ =>
      subst same
      exact absurd begins (none _ _ _ among)
    | char _ later' =>
      obtain ⟨rfl, rfl⟩ := List.cons.inj same
      rw [ih later']

theorem Scanned.chars (plain : '/' ∉ u) (later : Scanned wanted rest pieces) :
    Scanned wanted (u ++ rest) (u.map .char ++ pieces) := by
  induction u with
  | nil => exact later
  | cons a u ih =>
    rw [List.mem_cons, not_or] at plain
    refine .char (fun kind body rest' _ begins => plain.1 ?_) (ih plain.2)
    have front := begins.front
    cases kind <;> exact (List.cons.inj front).1.symm

/-! ## Block comments -/

theorem closeLength_append (next : ¬ ['*', '/'] <:+: body) (rest : List Char) :
    closeLength (body ++ '*' :: '/' :: rest) = some (body.length + 2) := by
  induction body with
  | nil => rfl
  | cons c body ih =>
    rw [close_infix_cons, not_or] at next
    rw [List.cons_append, closeLength, ih next.2]
    · simp
    · rintro r rfl slash
      cases body with
      | nil => simp at slash
      | cons b body => exact next.1 ⟨rfl, by simp_all⟩

theorem closeLength_eq_none (unclosed : ¬ ['*', '/'] <:+: text) : closeLength text = none := by
  induction text with
  | nil => rfl
  | cons c r ih =>
    rw [close_infix_cons, not_or] at unclosed
    rw [closeLength, ih unclosed.2]
    · rfl
    · rintro r' rfl rfl
      exact unclosed.1 ⟨rfl, by simp⟩

theorem dropBlocks_skip (u rest : List Char) :
    dropBlocks u.length (u ++ rest) = dropBlocks 0 rest := by
  induction u with
  | nil => rfl
  | cons c u ih => exact ih

theorem dropBlocks_block (next : ¬ ['*', '/'] <:+: body) (rest : List Char) :
    dropBlocks 0 ((Piece.comment .block body).source ++ rest) = dropBlocks 0 rest := by
  have closed := closeLength_append next rest
  have skipped := dropBlocks_skip ('*' :: (body ++ ['*', '/'])) rest
  simp only [List.length_cons, List.length_append, List.length_nil, List.cons_append,
    List.append_assoc, List.nil_append, Nat.zero_add] at skipped
  simp only [Piece.source, List.cons_append, List.append_assoc, List.nil_append, dropBlocks, closed]
  exact skipped

theorem dropBlocks_char (none : ∀ body rest', ¬ Begins .block (c :: rest) body rest') :
    dropBlocks 0 (c :: rest) = c :: dropBlocks 0 rest := by
  have apart : ∀ r, c :: rest = '/' :: '*' :: r → ¬ ['*', '/'] <:+: r := by
    intro r same closed
    obtain ⟨body, rest', begins⟩ := exists_begins_block_iff.2 ⟨r, same, closed⟩
    exact none body rest' begins
  by_cases opens : ∃ r, c :: rest = '/' :: '*' :: r
  · obtain ⟨r, same⟩ := opens
    obtain ⟨rfl, rfl⟩ := List.cons.inj same
    simp only [dropBlocks, closeLength_eq_none (apart r rfl)]
  · rw [dropBlocks]
    rintro r rfl rfl
    exact opens ⟨r, rfl⟩

/-- One of the two scans: block comments wherever they begin. -/
theorem Scanned.kept_blocks (h : Scanned (· = .block) text pieces) :
    kept pieces = dropBlocks 0 text := by
  induction h with
  | done => rfl
  | comment among begins _ ih =>
    subst among
    rw [begins.front, dropBlocks_block begins.ends]
    exact ih
  | char none _ ih =>
    rw [dropBlocks_char fun body rest' => none .block body rest' rfl, ← ih]
    rfl

/-! ## Line comments -/

theorem dropLineEnds_open (inside : '\n' ∉ body) (ends : rest = [] ∨ rest.head? = some '\n') :
    dropLineEnds true (body ++ rest) = dropLineEnds false rest := by
  induction body with
  | nil =>
    cases rest with
    | nil => rfl
    | cons c r =>
      obtain rfl : c = '\n' := by simpa using ends
      rfl
  | cons a body ih =>
    rw [List.mem_cons, not_or] at inside
    rw [List.cons_append, dropLineEnds, if_neg (Ne.symm inside.1), ih inside.2]

theorem dropLineEnds_char (apart : ¬ ['/', '/'] <+: c :: rest) :
    dropLineEnds false (c :: rest) = c :: dropLineEnds false rest := by
  rw [dropLineEnds]
  rintro r rfl rfl
  exact apart (by simp)

/-- The other scan: line comments wherever they begin. -/
theorem Scanned.kept_lines (h : Scanned (· = .line) text pieces) :
    kept pieces = dropLineEnds false text := by
  induction h with
  | done => rfl
  | comment among begins _ ih =>
    subst among
    obtain ⟨rfl, inside, ends⟩ := begins
    rw [Piece.source, List.cons_append, List.cons_append, dropLineEnds,
      dropLineEnds_open inside ends]
    exact ih
  | char none _ ih =>
    rw [dropLineEnds_char, ← ih]
    · rfl
    · intro slashes
      obtain ⟨body, rest', begins⟩ := exists_begins_line_iff.2 slashes
      exact none .line body rest' rfl begins

/-! ## Which characters are kept -/

/-- For each character of the source, whether it is kept. -/
def Piece.marks : Piece → List Bool
  | char _ => [true]
  | comment kind body => List.replicate (comment kind body).source.length false

def marks (pieces : List Piece) : List Bool := pieces.flatMap Piece.marks

/-- The characters of a text that are marked. -/
def marked : List Bool → List Char → List Char
  | true :: ms, c :: cs => c :: marked ms cs
  | false :: ms, _ :: cs => marked ms cs
  | _, _ => []

/-- The marks of two scans, of which the second goes through what the first has kept. -/
def andThen : List Bool → List Bool → List Bool
  | true :: first, m :: second => m :: andThen first second
  | false :: first, second => false :: andThen first second
  | _, _ => []

@[simp] theorem source_cons (p : Piece) (pieces : List Piece) :
    source (p :: pieces) = p.source ++ source pieces := rfl

@[simp] theorem source_append (front back : List Piece) :
    source (front ++ back) = source front ++ source back := List.flatMap_append

@[simp] theorem kept_cons (p : Piece) (pieces : List Piece) :
    kept (p :: pieces) = p.kept ++ kept pieces := rfl

@[simp] theorem kept_append (front back : List Piece) :
    kept (front ++ back) = kept front ++ kept back := List.flatMap_append

@[simp] theorem marks_cons (p : Piece) (pieces : List Piece) :
    marks (p :: pieces) = p.marks ++ marks pieces := rfl

@[simp] theorem marks_append (front back : List Piece) :
    marks (front ++ back) = marks front ++ marks back := List.flatMap_append

theorem marked_replicate_append (u : List Char) (ms : List Bool) (w : List Char) :
    marked (List.replicate u.length false ++ ms) (u ++ w) = marked ms w := by
  induction u with
  | nil => rfl
  | cons c u ih => exact ih

theorem marked_marks (pieces : List Piece) :
    marked (marks pieces) (source pieces) = kept pieces := by
  induction pieces with
  | nil => rfl
  | cons p pieces ih =>
    cases p with
    | char c => exact congrArg (c :: ·) ih
    | comment kind body => exact (marked_replicate_append _ _ _).trans ih

theorem length_marks (pieces : List Piece) : (marks pieces).length = (source pieces).length := by
  induction pieces with
  | nil => rfl
  | cons p pieces ih =>
    cases p with
    | char c => exact congrArg Nat.succ ih
    | comment kind body => simp [ih, Piece.marks]

theorem marked_andThen {first second : List Bool}
    (short : second.length = (marked first text).length) :
    marked (andThen first second) text = marked second (marked first text) := by
  fun_induction marked first text generalizing second with
  | case1 ms c cs ih =>
    cases second with
    | nil => cases short
    | cons m second =>
      have tail := ih (Nat.succ.inj short)
      cases m with
      | true => exact congrArg (c :: ·) tail
      | false => exact tail
  | case2 ms c cs ih => exact ih short
  | case3 first cs none none' =>
    obtain rfl := List.length_eq_zero_iff.1 short
    rcases first with _ | ⟨_ | _, first⟩
    · rfl
    · cases cs with
      | nil => rfl
      | cons c cs => exact absurd rfl (none' _ c cs rfl)
    · rfl

theorem andThen_replicate_false (n : ℕ) (first second : List Bool) :
    andThen (List.replicate n false ++ first) second =
      List.replicate n false ++ andThen first second := by
  induction n with
  | zero => rfl
  | succ n ih => exact congrArg (false :: ·) ih

/-- What the second scan removes whole, both do. -/
theorem andThen_marks (pieces : List Piece) (first second : List Bool) :
    andThen (marks pieces ++ first) (List.replicate (kept pieces).length false ++ second) =
      List.replicate (source pieces).length false ++ andThen first second := by
  induction pieces with
  | nil => rfl
  | cons p pieces ih =>
    cases p with
    | char c => exact congrArg (false :: ·) ih
    | comment kind body =>
      rw [marks_cons, List.append_assoc, source_cons, List.length_append,
        ← List.replicate_append_replicate, List.append_assoc, ← ih]
      exact andThen_replicate_false _ _ _

/-- A character that both scans keep is one of the text proper for the first. -/
theorem exists_char_of_kept {blocks : List Piece} {second ms ms' : List Bool}
    (h : andThen (marks blocks) second = ms ++ true :: ms') :
    ∃ front c back, blocks = front ++ .char c :: back ∧ (source front).length = ms.length := by
  induction blocks generalizing second ms with
  | nil => simp [marks, andThen] at h
  | cons p blocks ih =>
    cases p with
    | char c =>
      cases ms with
      | nil => exact ⟨[], c, blocks, rfl, rfl⟩
      | cons m ms =>
        cases second with
        | nil => cases h
        | cons m' second =>
          obtain ⟨front, c', back, rfl, same⟩ := ih (List.cons.inj h).2
          exact ⟨.char c :: front, c', back, rfl, congrArg Nat.succ same⟩
    | comment kind body =>
      have removed : List.replicate (Piece.comment kind body).source.length false ++
          andThen (marks blocks) second = ms ++ true :: ms' :=
        (andThen_replicate_false _ _ _).symm.trans h
      rcases List.append_eq_append_iff.1 removed with ⟨u, rfl, later⟩ | ⟨u, none, later⟩
      · obtain ⟨front, c, back, rfl, same⟩ := ih later
        refine ⟨.comment kind body :: front, c, back, rfl, ?_⟩
        rw [List.length_append, List.length_replicate, ← same]
        exact List.length_append
      · cases u with
        | nil =>
          obtain ⟨front, c, back, rfl, same⟩ := @ih second [] later.symm
          refine ⟨.comment kind body :: front, c, back, rfl, ?_⟩
          rw [List.append_nil] at none
          rw [← none, List.length_replicate]
          exact List.length_append.trans (congrArg _ same)
        | cons m u =>
          obtain ⟨rfl, -⟩ := List.cons.inj later
          have kept : true ∈ List.replicate (Piece.comment kind body).source.length false := by
            rw [none]
            simp
          exact absurd (List.eq_of_mem_replicate kept) (by decide)

/-! ## Line comments with blocks in them -/

/-- The blocks that a scan for blocks finds in a line comment end in it, and without them it still
is a line comment. -/
def Contained (body rest : List Char) : Prop :=
  ∃ front back, Scanned (· = .block) ((Piece.comment .line body).source ++ rest) (front ++ back) ∧
    source front = (Piece.comment .line body).source ∧ ['/', '/'] <+: kept front

def AllContained : List Piece → Prop
  | [] => True
  | .comment .line body :: pieces => Contained body (source pieces) ∧ AllContained pieces
  | _ :: pieces => AllContained pieces

/-- A scan goes on from the end of each of its pieces. -/
theorem Scanned.of_append {front back : List Piece} (h : Scanned wanted (u ++ rest) (front ++ back))
    (whole : source front = u) : Scanned wanted rest back := by
  induction front generalizing u with
  | nil =>
    subst whole
    exact h
  | cons p front ih =>
    generalize same : u ++ rest = text at h
    cases h with
    | comment _ begins later =>
      rw [← whole, begins.front, source_cons, List.append_assoc] at same
      exact ih (List.append_cancel_left same ▸ later) rfl
    | char _ later =>
      rw [← whole, source_cons, List.append_assoc] at same
      have behind : source front ++ rest = _ := (List.cons.inj same).2
      exact ih (behind ▸ later) rfl

/-- No comment begins with another character than a slash. -/
theorem Scanned.of_ne (apart : c ≠ '/') (h : Scanned wanted (c :: rest) pieces) :
    ∃ later, pieces = .char c :: later ∧ Scanned wanted rest later := by
  generalize same : c :: rest = text at h
  cases h with
  | done => cases same
  | @comment kind _ _ _ _ _ begins _ =>
    have front := same.trans begins.front
    cases kind <;> exact absurd (List.cons.inj front).1 apart
  | char _ later =>
    obtain ⟨rfl, rfl⟩ := List.cons.inj same
    exact ⟨_, rfl, later⟩

theorem Scanned.kept_of_ends (h : Scanned wanted rest pieces)
    (ends : rest = [] ∨ rest.head? = some '\n') :
    kept pieces = [] ∨ (kept pieces).head? = some '\n' := by
  cases rest with
  | nil =>
    have empty := h.unique .done
    exact .inl (empty ▸ rfl)
  | cons a r =>
    obtain rfl : a = '\n' := by simpa using ends
    obtain ⟨later, rfl, -⟩ := h.of_ne (by decide)
    exact .inr rfl

theorem kept_sublist_source (pieces : List Piece) : (kept pieces).Sublist (source pieces) := by
  induction pieces with
  | nil => exact .slnil
  | cons p pieces ih =>
    cases p with
    | char c => exact ih.cons_cons c
    | comment kind body => exact ih.trans (List.sublist_append_right _ _)

/-- Two slashes do not begin a block. -/
theorem Scanned.of_slashes (h : Scanned (· = .block) ('/' :: '/' :: text) pieces) :
    ∃ later, pieces = .char '/' :: later ∧ Scanned (· = .block) ('/' :: text) later := by
  generalize same : '/' :: '/' :: text = whole at h
  cases h with
  | done => cases same
  | comment among begins _ =>
    subst among
    have front := same.trans begins.front
    simp [Piece.source] at front
  | char _ later =>
    obtain ⟨rfl, rfl⟩ := List.cons.inj same
    exact ⟨_, rfl, later⟩

/-- A line comment that contains its blocks goes whole in both scans. -/
theorem Contained.lines (h : Contained body rest) (ends : Ends .line body rest)
    {blocks lines : List Piece}
    (first : Scanned (· = .block) ((Piece.comment .line body).source ++ rest) blocks)
    (second : Scanned (· = .line) (kept blocks) lines) :
    ∃ back lines', Scanned (· = .block) rest back ∧ Scanned (· = .line) (kept back) lines' ∧
      andThen (marks blocks) (marks lines) =
        List.replicate (Piece.comment .line body).source.length false ++
          andThen (marks back) (marks lines') := by
  obtain ⟨front, back, scanned, whole, slashes⟩ := h
  obtain rfl := scanned.unique first
  have later := scanned.of_append whole
  obtain ⟨v, left⟩ := slashes
  have split : kept (front ++ back) = (Piece.comment .line v).source ++ kept back := by
    rw [kept_append, ← left]
    rfl
  have inside : '\n' ∉ v := by
    intro member
    have among : '\n' ∈ source front :=
      (kept_sublist_source front).subset (left ▸ List.mem_append_right _ member)
    rw [whole] at among
    exact ends.1 (by simpa [Piece.source] using among)
  have begins : Begins .line (kept (front ++ back)) v (kept back) :=
    ⟨split, inside, later.kept_of_ends ends.2⟩
  obtain ⟨lines', scanned'⟩ := exists_scanned (· = .line) (kept back)
  have whole' : Scanned (· = .line) (kept (front ++ back)) (.comment .line v :: lines') :=
    .comment rfl begins scanned'
  obtain rfl := whole'.unique second
  refine ⟨back, lines', later, scanned', ?_⟩
  rw [← whole, ← andThen_marks front (marks back) (marks lines'), ← left, marks_append]
  rfl

/-- A line comment that goes whole in both scans, up to a character that is kept, contains its
blocks. -/
theorem contained_of_removed (ends : Ends .line body rest) {blocks lines : List Piece}
    {ms : List Bool}
    (first : Scanned (· = .block) ((Piece.comment .line body).source ++ rest) blocks)
    (second : Scanned (· = .line) (kept blocks) lines)
    (removed : andThen (marks blocks) (marks lines) =
      List.replicate (Piece.comment .line body).source.length false ++ ms)
    (goesOn : rest = [] ∨ ∃ ms', ms = true :: ms') : Contained body rest := by
  have split : ∃ front back, blocks = front ++ back ∧
      source front = (Piece.comment .line body).source := by
    rcases goesOn with rfl | ⟨ms', rfl⟩
    · exact ⟨blocks, [], (List.append_nil _).symm, by rw [first.source_eq, List.append_nil]⟩
    · obtain ⟨front, c, back, rfl, long⟩ := exists_char_of_kept removed
      rw [List.length_replicate] at long
      have parts := (source_append front (.char c :: back)).symm.trans first.source_eq
      exact ⟨front, .char c :: back, rfl, (List.append_inj parts long).1⟩
  obtain ⟨front, back, rfl, whole⟩ := split
  refine ⟨front, back, first, whole, ?_⟩
  have stops := (first.of_append whole).kept_of_ends ends.2
  obtain ⟨later, same, -⟩ := first.of_slashes
  cases front with
  | nil => cases whole
  | cons p front =>
    obtain ⟨rfl, -⟩ := List.cons.inj same
    -- the first slash is kept by the first scan, so it is the second that removes it
    generalize held : kept (.char '/' :: front ++ back) = left at second
    cases second with
    | done => cases held
    | char => exact absurd (List.cons.inj removed).1 (by decide)
    | @comment kind _ v rest' _ among begins _ =>
      subst among
      have next : kept front ++ kept back = '/' :: (v ++ rest') := by
        have both := held.trans begins.front
        rw [kept_append] at both
        exact (List.cons.inj both).2
      cases left : kept front with
      | nil =>
        rw [left, List.nil_append] at next
        rw [next] at stops
        simp at stops
      | cons a u =>
        rw [left] at next
        obtain ⟨rfl, -⟩ := List.cons.inj next
        exact ⟨u, by rw [kept_cons, left]; rfl⟩

/-- What a scan for blocks keeps does not bring two slashes together that no line comment began
with. -/
theorem Scanned.char_lines (none : ∀ body rest', ¬ Begins .line (c :: rest) body rest')
    {blocks lines : List Piece} (first : Scanned (· = .block) rest blocks)
    (second : Scanned (· = .line) (kept blocks) lines) :
    Scanned (· = .line) (c :: kept blocks) (.char c :: lines) := by
  refine .char (fun kind body rest' among begins => ?_) second
  subst among
  obtain ⟨rfl, slash⟩ := List.cons_prefix_cons.1 (exists_begins_line_iff.1 ⟨body, rest', begins⟩)
  cases rest with
  | nil =>
    obtain rfl := first.unique .done
    simp [kept] at slash
  | cons a r =>
    by_cases other : a = '/'
    · subst other
      obtain ⟨body, rest', begins⟩ := exists_begins_line_iff.2 ⟨r, rfl⟩
      exact none body rest' begins
    · obtain ⟨later, rfl, -⟩ := first.of_ne other
      exact other (List.cons_prefix_cons.1 slash).1.symm

/-- The two scans remove the characters that the one scan removes, at the same places, if and only
if each line comment contains the blocks that are found in it. -/
theorem Scanned.andThen_marks_iff (h : Scanned (fun _ => True) text pieces)
    {blocks lines : List Piece}
    (first : Scanned (· = .block) text blocks) (second : Scanned (· = .line) (kept blocks) lines) :
    andThen (marks blocks) (marks lines) = marks pieces ↔ AllContained pieces := by
  induction h generalizing blocks lines with
  | done =>
    obtain rfl := first.unique .done
    exact iff_of_true rfl trivial
  | @comment kind text body rest pieces _ begins later ih =>
    obtain ⟨rfl, ends⟩ := begins
    cases kind with
    | block =>
      obtain ⟨blocks', scanned⟩ := exists_scanned (· = .block) rest
      have whole : Scanned (· = .block) _ (.comment .block body :: blocks') :=
        .comment rfl ⟨rfl, ends⟩ scanned
      obtain rfl := whole.unique first
      rw [marks_cons, marks_cons, Piece.marks, andThen_replicate_false, List.append_right_inj]
      exact ih scanned second
    | line =>
      have tails : Contained body rest →
          (andThen (marks blocks) (marks lines) = marks (.comment .line body :: pieces) ↔
            AllContained pieces) := by
        intro contained
        obtain ⟨back, lines', scanned, scanned', removed⟩ := contained.lines ends first second
        rw [removed, marks_cons, Piece.marks, List.append_right_inj]
        exact ih scanned scanned'
      have goesOn : rest = [] ∨ ∃ ms, marks pieces = true :: ms := by
        refine ends.2.imp id fun newline => ?_
        obtain ⟨r, rfl⟩ : ∃ r, rest = '\n' :: r := List.head?_eq_some_iff.1 newline
        obtain ⟨more, rfl, -⟩ := later.of_ne (by decide)
        exact ⟨marks more, rfl⟩
      rw [AllContained, later.source_eq]
      constructor
      · intro same
        have contained := contained_of_removed ends first second same goesOn
        exact ⟨contained, (tails contained).1 same⟩
      · rintro ⟨contained, others⟩
        exact (tails contained).2 others
  | @char c rest pieces none later ih =>
    obtain ⟨blocks', scanned⟩ := exists_scanned (· = .block) rest
    have whole : Scanned (· = .block) (c :: rest) (.char c :: blocks') :=
      .char (fun kind body rest' _ => none kind body rest' trivial) scanned
    obtain rfl := whole.unique first
    obtain ⟨lines', scanned'⟩ := exists_scanned (· = .line) (kept blocks')
    have whole' := scanned.char_lines (fun body rest' => none .line body rest' trivial) scanned'
    obtain rfl := whole'.unique second
    exact (List.cons_inj_right true).trans (ih scanned scanned')

theorem Scanned.kept_eq (h : Scanned (fun _ => True) text pieces)
    (contained : AllContained pieces) :
    stripComments text = kept pieces := by
  obtain ⟨blocks, first⟩ := exists_scanned (· = .block) text
  obtain ⟨lines, second⟩ := exists_scanned (· = .line) (kept blocks)
  have left : marked (marks blocks) text = kept blocks := by rw [← marked_marks, first.source_eq]
  have short : (marks lines).length = (marked (marks blocks) text).length := by
    rw [length_marks, second.source_eq, left]
  calc stripComments text
    _ = kept lines := by
      rw [second.kept_lines, first.kept_blocks]
      rfl
    _ = marked (marks lines) (kept blocks) := by rw [← second.source_eq, marked_marks]
    _ = marked (andThen (marks blocks) (marks lines)) text := by rw [marked_andThen short, left]
    _ = marked (marks pieces) text := by rw [(h.andThen_marks_iff first second).2 contained]
    _ = kept pieces := by rw [← h.source_eq, marked_marks]

/-! ## Opening marks that do no harm -/

/-- An opening mark in a line comment does no harm if it is never closed, or if it stands behind the
two slashes and is closed in the comment. -/
def Harmless (body rest : List Char) : Prop :=
  ∀ w, '/' :: '*' :: w <:+ '/' :: body → ['*', '/'] <:+: w ++ rest →
    '/' :: '*' :: w <:+ body ∧ ['*', '/'] <:+: w

/-- No line comment holds an opening mark that does harm. -/
def AllHarmless : List Piece → Prop
  | [] => True
  | .comment .line body :: pieces => Harmless body (source pieces) ∧ AllHarmless pieces
  | _ :: pieces => AllHarmless pieces

/-- A block cannot begin with the last slash of a line. -/
theorem exists_of_block_in_line (ends : rest = [] ∨ rest.head? = some '\n')
    (begins : Begins .block (c :: (body ++ rest)) body' rest') :
    ∃ w, c = '/' ∧ body = '*' :: w ∧ ['*', '/'] <:+: w ++ rest := by
  obtain ⟨r, same, closed⟩ := exists_begins_block_iff.1 ⟨_, _, begins⟩
  obtain ⟨rfl, star⟩ := List.cons.inj same
  cases body with
  | nil =>
    cases star
    simp at ends
  | cons a w =>
    obtain ⟨rfl, rfl⟩ := List.cons.inj star
    exact ⟨w, rfl, rfl, closed⟩

/-- Where marks are closed in a line, the scan for blocks has a piece end with the line. -/
theorem Scanned.exists_line (ends : rest = [] ∨ rest.head? = some '\n')
    (closed : ∀ w, '/' :: '*' :: w <:+ body → ['*', '/'] <:+: w ++ rest → ['*', '/'] <:+: w)
    (later : Scanned (· = .block) rest pieces) :
    ∃ front, source front = body ∧ Scanned (· = .block) (body ++ rest) (front ++ pieces) := by
  -- a block takes several characters at once
  induction n : body.length using Nat.strongRecOn generalizing body with
  | ind n ih =>
    subst n
    have shorter : ∀ {v}, v <:+ body → v.length < body.length →
        ∃ front, source front = v ∧ Scanned (· = .block) (v ++ rest) (front ++ pieces) :=
      fun behind less => ih _ less (fun w mark => closed w (mark.trans behind)) rfl
    cases body with
    | nil => exact ⟨[], rfl, later⟩
    | cons a body =>
      by_cases block : ∃ body' rest', Begins .block (a :: (body ++ rest)) body' rest'
      · obtain ⟨_, _, begins⟩ := block
        obtain ⟨w, rfl, rfl, closes⟩ := exists_of_block_in_line ends begins
        obtain ⟨b, v, rfl, next⟩ := exists_first_close (closed w (List.suffix_refl _) closes)
        obtain ⟨front, rfl, scanned⟩ :=
          shorter (v := v) ⟨'/' :: '*' :: b ++ ['*', '/'], by simp⟩ (by simp; omega)
        exact ⟨.comment .block b :: front, by simp [Piece.source],
          .comment rfl ⟨by simp [Piece.source], next⟩ scanned⟩
      · obtain ⟨front, rfl, scanned⟩ := shorter (List.suffix_cons a body) (by simp)
        refine ⟨.char a :: front, rfl, .char (fun kind body' rest' among begins => ?_) scanned⟩
        subst among
        exact block ⟨body', rest', begins⟩

theorem Harmless.contained (harmless : Harmless body rest) (ends : Ends .line body rest) :
    Contained body rest := by
  obtain ⟨back, later⟩ := exists_scanned (· = .block) rest
  obtain ⟨front, whole, scanned⟩ := Scanned.exists_line ends.2
    (fun w mark closed => (harmless w (mark.trans (List.suffix_cons _ _)) closed).2) later
  have second : Scanned (· = .block) ('/' :: (body ++ rest)) (.char '/' :: (front ++ back)) := by
    refine .char (fun kind body' rest' among begins => ?_) scanned
    subst among
    obtain ⟨w, -, rfl, closed⟩ := exists_of_block_in_line ends.2 begins
    have behind := (harmless w (List.suffix_refl _) closed).1.length_le
    simp only [List.length_cons] at behind
    omega
  have first : Scanned (· = .block) ('/' :: '/' :: (body ++ rest))
      (.char '/' :: .char '/' :: (front ++ back)) := by
    refine .char (fun kind body' rest' among begins => ?_) second
    subst among
    have front := begins.front
    simp [Piece.source] at front
  exact ⟨.char '/' :: .char '/' :: front, back, first, by simp [whole, Piece.source],
    kept front, rfl⟩

theorem Scanned.allContained (h : Scanned (fun _ => True) text pieces)
    (harmless : AllHarmless pieces) :
    AllContained pieces := by
  induction h with
  | done => trivial
  | @comment kind _ _ _ _ _ begins later ih =>
    cases kind with
    | line =>
      have contained := harmless.1.contained (by rw [later.source_eq]; exact begins.ends)
      exact ⟨contained, ih harmless.2⟩
    | block => exact ih harmless
  | char _ _ ih => exact ih harmless

/-- Comments are removed in two scans, blocks first. They remove what one scan from the left
removes, at the same places, if and only if each of its line comments contains the blocks that are
found in it. This is so where no opening mark does harm. -/
theorem comments_removed_in_two_scans (text : List Char) :
    (∃! pieces, Scanned (fun _ => True) text pieces) ∧
    (∃ blocks lines, Scanned (· = .block) text blocks ∧ Scanned (· = .line) (kept blocks) lines ∧
      stripComments text = kept lines ∧
      ∀ pieces, Scanned (fun _ => True) text pieces →
        (andThen (marks blocks) (marks lines) = marks pieces ↔ AllContained pieces)) ∧
    ∀ pieces, Scanned (fun _ => True) text pieces →
      (AllHarmless pieces → AllContained pieces) ∧
        (AllContained pieces → stripComments text = kept pieces) := by
  refine ⟨?_, ?_, fun pieces scanned => ⟨scanned.allContained, scanned.kept_eq⟩⟩
  · obtain ⟨pieces, scanned⟩ := exists_scanned (fun _ => True) text
    exact ⟨pieces, scanned, fun _ other => other.unique scanned⟩
  · obtain ⟨blocks, first⟩ := exists_scanned (· = .block) text
    obtain ⟨lines, second⟩ := exists_scanned (· = .line) (kept blocks)
    refine ⟨blocks, lines, first, second, ?_,
      fun pieces scanned => scanned.andThen_marks_iff first second⟩
    rw [second.kept_lines, first.kept_blocks]
    rfl

/-- Marks of one kind of comment in comments of the other kind. -/
def mixedPieces : List Piece :=
  [.comment .block [' ', '/', '/', ' '], .char 'x', .comment .line [' ', '/', '*', 'y', '*', '/'],
    .char '\n', .char 'z']

theorem mixed_comments_removed :
    Scanned (fun _ => True) "/* // */x// /*y*/\nz".toList mixedPieces ∧ AllHarmless mixedPieces ∧
      stripComments "/* // */x// /*y*/\nz".toList = "x\nz".toList := by
  have scanned : Scanned (fun _ => True) (source mixedPieces) mixedPieces :=
    .comment trivial ⟨rfl, by decide⟩ (@Scanned.chars _ _ _ ['x'] (by simp)
      (.comment trivial ⟨rfl, by decide⟩ (@Scanned.chars _ _ _ ['\n', 'z'] (by simp) .done)))
  have harmless : AllHarmless mixedPieces := by
    refine ⟨fun w mark _ => ?_, trivial⟩
    obtain rfl : w = ['y', '*', '/'] := by simpa [List.suffix_cons_iff] using mark
    decide
  have same : source mixedPieces = "/* // */x// /*y*/\nz".toList := by decide
  rw [← same]
  refine ⟨scanned, harmless, ?_⟩
  obtain ⟨contained, same⟩ := (comments_removed_in_two_scans _).2.2 _ scanned
  exact same (contained harmless)

/-- The opening mark stands in one line comment and the closing mark in another. -/
def partedPieces : List Piece :=
  [.comment .line " see /*".toList] ++ "\ntypedef long Id;\n".toList.map .char ++
    [.comment .line " */".toList, .char '\n']

/-- What stands between the two comments is lost. -/
theorem declaration_lost_between_comments :
    Scanned (fun _ => True) "// see /*\ntypedef long Id;\n// */\n".toList partedPieces ∧
      kept partedPieces = "\ntypedef long Id;\n\n".toList ∧
      stripComments "// see /*\ntypedef long Id;\n// */\n".toList = "\n".toList := by
  have scanned : Scanned (fun _ => True) (source partedPieces) partedPieces :=
    .comment trivial ⟨rfl, by decide⟩
      (@Scanned.chars _ _ _ "\ntypedef long Id;\n".toList (by decide)
      (.comment trivial ⟨rfl, by decide⟩ (@Scanned.chars _ _ _ ['\n'] (by simp) .done)))
  have same : source partedPieces = "// see /*\ntypedef long Id;\n// */\n".toList := by decide
  rw [← same]
  exact ⟨scanned, by decide, by decide⟩

end NativeBridge.Text
