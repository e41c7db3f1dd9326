import NativeBridge.Output.Disk
import NativeBridge.Proofs.Effects

/-!
# Places on a disk

What a change at one place leaves alone, which walks a change keeps, and what making directories
does: a walk looks at directories only, so that it goes on to lead to the same place while
directories stay.
-/
namespace NativeBridge

/-! ## Names in one directory -/

theorem Path.withName_withName (path : Path) (name last : String) :
    (path.withName name).withName last = path.withName last := by
  simp [Path.withName]

theorem Path.name_withName (path : Path) (name : String) : (path.withName name).name = name := by
  simp [Path.withName, Path.name]

theorem Path.length_parent_lt (path : Path) (h : path.parts ≠ []) :
    path.parent.parts.length < path.parts.length := by
  have : path.parts.length ≠ 0 := by simpa using h
  simp only [Path.parent, List.length_dropLast]
  omega

/-- Renaming a path changes the size of its text by that of the name. -/
theorem Path.exists_size_withName (path : Path) :
    ∃ size, ∀ name, (path.withName name).text.utf8ByteSize = size + name.utf8ByteSize := by
  by_cases top : path.parts.dropLast = []
  · refine ⟨path.root.utf8ByteSize, fun name => ?_⟩
    simp [Path.text, Path.withName, top, String.utf8ByteSize_append]
  · refine ⟨(path.root ++ ("/".intercalate path.parts.dropLast ++ "/")).utf8ByteSize,
      fun name => ?_⟩
    simp only [Path.text, Path.withName, List.append_eq_nil_iff, List.cons_ne_self, and_false,
      decide_false, Bool.and_false, Bool.false_eq_true, if_false,
      String.intercalate_append_of_ne_nil top (List.cons_ne_nil name []),
      String.intercalate_singleton, String.utf8ByteSize_append]
    omega

theorem Path.hasNull_withName {path : Path} {name : String} :
    (path.withName name).hasNull = (path.parent.hasNull || name.toList.contains '\x00') := by
  simp [Path.hasNull, Path.withName, Path.parent]

namespace Disk

variable {d e : Disk} {place other : List String} {node : Node}

/-! ## Changes at one place -/

theorem lookup_filter_ne (nodes : List (List String × Node)) (place other : List String) :
    (nodes.filter fun entry => !decide (entry.1 = place)).lookup other =
      if other = place then none else nodes.lookup other := by
  induction nodes with
  | nil => simp
  | cons first rest ih => grind

theorem node?_erase (outside : place.all isOutside = false) (other : List String) :
    (d.erase place).node? other = if other = place then none else d.node? other := by
  by_cases same : other = place
  · simp only [same, node?, erase, outside, ne_eq, decide_not, lookup_filter_ne]
    simp
  · simp only [same, node?, erase, ne_eq, decide_not, lookup_filter_ne, if_false]

theorem node?_put (outside : place.all isOutside = false) (other : List String) :
    (d.put place node).node? other = if other = place then some node else d.node? other := by
  by_cases same : other = place
  · simp only [same, node?, put, erase, outside, ne_eq, decide_not, List.lookup_append,
      lookup_filter_ne]
    simp
  · simp only [same, node?, put, erase, ne_eq, decide_not, List.lookup_append, lookup_filter_ne,
      if_false, List.lookup_cons, beq_eq_false_iff_ne.2 same, List.lookup_nil, Option.or_none]

/-- A place without a node is below the current directory or a root. -/
theorem not_outside_of_node?_ne (h : d.node? place ≠ some .directory) :
    place.all isOutside = false := by
  by_cases outside : place.all isOutside = true
  · simp [node?, outside] at h
  · simpa using outside

/-! ## Walks -/

/-- A walk from one place along some parts to another, through directories only. -/
inductive Walk (d : Disk) : List String → List String → List String → Prop
  | stop (place : List String) : Walk d place [] place
  | enter {place parts final : List String} {part : String}
      (directory : d.node? place = some .directory)
      (short : part.utf8ByteSize ≤ longestName)
      (rest : Walk d (follow place part) parts final) : Walk d place (part :: parts) final

theorem foldlM_enter_eq_ok_iff {path : Path} {start parts final : List String} :
    parts.foldlM (d.enter path) start = .ok final ↔ d.Walk start parts final := by
  induction parts generalizing start with
  | nil =>
    constructor
    · intro same
      cases same
      exact .stop _
    · intro walk
      cases walk
      rfl
  | cons part parts ih =>
    rw [List.foldlM_cons, except_bind_eq_ok_iff]
    constructor
    · rintro ⟨next, entered, rest⟩
      simp only [enter] at entered
      split at entered
      · split at entered
        · cases entered
        · cases entered
          exact .enter ‹_› (by omega) (ih.1 rest)
      · cases entered
      · cases entered
    · intro walk
      cases walk with
      | enter directory short rest =>
        refine ⟨follow start part, ?_, ih.2 rest⟩
        have fits : ¬ longestName < part.utf8ByteSize := by omega
        simp [enter, directory, fits]

theorem locate_eq_ok_iff {path : Path} :
    d.locate path = .ok place ↔ path.hasNull = false ∧ path.text.utf8ByteSize ≤ longestPath ∧
      d.Walk (start path) path.parts place := by
  simp only [locate]
  by_cases null : path.hasNull = true
  · simp [null]
  · by_cases long : longestPath < path.text.utf8ByteSize
    · simp only [null, long, if_true, if_false, reduceCtorEq, false_iff, Bool.false_eq_true]
      omega
    · simp only [null, long, if_false, Bool.false_eq_true, foldlM_enter_eq_ok_iff]
      simp [Nat.le_of_not_lt long]

theorem nodeAt_eq_some_iff {path : Path} :
    d.nodeAt path = some node ↔ ∃ place, d.locate path = .ok place ∧ d.node? place = some node := by
  simp only [nodeAt]
  cases d.locate path <;> simp

theorem Walk.concat {from_ front home : List String} {last : String}
    (walk : d.Walk from_ front home)
    (directory : d.node? home = some .directory) (short : last.utf8ByteSize ≤ longestName) :
    d.Walk from_ (front ++ [last]) (follow home last) := by
  induction walk with
  | stop place => exact .enter directory short (.stop _)
  | enter first fits _ ih => exact .enter first fits (ih directory)

theorem Walk.last_short {from_ front final : List String} {last : String}
    (walk : d.Walk from_ (front ++ [last]) final) : last.utf8ByteSize ≤ longestName := by
  induction front generalizing from_ with
  | nil =>
    cases walk with
    | enter _ short _ => exact short
  | cons part front ih =>
    cases walk with
    | enter _ _ rest => exact ih rest

/-- Where one name can be looked up in a directory, a name that is no longer can. -/
theorem locate_withName {path : Path} {home : List String} {name longer : String}
    (parent : d.locate path.parent = .ok home) (directory : d.node? home = some .directory)
    (found : d.locate (path.withName longer) = .ok place)
    (shorter : name.utf8ByteSize ≤ longer.utf8ByteSize) (plain : name ≠ "..")
    (null : '\x00' ∈ name.toList → '\x00' ∈ longer.toList) :
    d.locate (path.withName name) = .ok (home ++ [name]) := by
  obtain ⟨noNull, fits, walk⟩ := locate_eq_ok_iff.1 found
  obtain ⟨-, -, toHome⟩ := locate_eq_ok_iff.1 parent
  obtain ⟨size, sizes⟩ := path.exists_size_withName
  have short : name.utf8ByteSize ≤ longestName := by
    have := walk.last_short
    omega
  have there := toHome.concat directory short
  rw [follow, if_neg plain] at there
  refine locate_eq_ok_iff.2 ⟨?_, ?_, there⟩
  · simp only [Path.hasNull_withName, Bool.or_eq_false_iff] at noNull ⊢
    refine ⟨noNull.1, ?_⟩
    simp only [List.contains_eq_mem, decide_eq_false_iff_not] at noNull ⊢
    exact fun bad => noNull.2 (null bad)
  · rw [sizes] at fits ⊢
    omega

/-- One disk has the directories of another. -/
def Keeps (d e : Disk) : Prop :=
  ∀ place, d.node? place = some .directory → e.node? place = some .directory

theorem Keeps.walk (keeps : d.Keeps e) {from_ parts final : List String}
    (walk : d.Walk from_ parts final) : e.Walk from_ parts final := by
  induction walk with
  | stop place => exact .stop place
  | enter directory short _ ih => exact .enter (keeps _ directory) short ih

theorem Keeps.locate (keeps : d.Keeps e) {path : Path} (found : d.locate path = .ok place) :
    e.locate path = .ok place := by
  obtain ⟨null, long, walk⟩ := locate_eq_ok_iff.1 found
  exact locate_eq_ok_iff.2 ⟨null, long, keeps.walk walk⟩

theorem Keeps.directoryAt (keeps : d.Keeps e) {path : Path}
    (found : d.nodeAt path = some .directory) : e.nodeAt path = some .directory := by
  obtain ⟨place, located, directory⟩ := nodeAt_eq_some_iff.1 found
  exact nodeAt_eq_some_iff.2 ⟨place, keeps.locate located, keeps place directory⟩

/-! ## Making directories -/

/-- A place that one of the first parts of a path leads to. -/
def OnTheWay (d : Disk) (path : Path) (place : List String) : Prop :=
  ∃ front, front <+: path.parts ∧ d.locate { path with parts := front } = .ok place

/-- A disk with more directories on the way of a path, and nothing else changed. -/
structure Grown (path : Path) (d e : Disk) : Prop where
  rest : e = { d with nodes := e.nodes }
  nodes : ∀ place, e.node? place = d.node? place ∨
    (d.node? place = none ∧ e.node? place = some .directory ∧ e.OnTheWay path place)

theorem Grown.refl (path : Path) (d : Disk) : Grown path d d := ⟨rfl, fun _ => .inl rfl⟩

theorem Grown.keeps {path : Path} (h : Grown path d e) : d.Keeps e := by
  intro place directory
  rcases h.nodes place with same | ⟨none, -⟩
  · rw [same, directory]
  · rw [none] at directory
    cases directory

theorem Grown.node?_eq {path : Path} (h : Grown path d e) (free : e.node? place ≠ some .directory) :
    e.node? place = d.node? place := by
  rcases h.nodes place with same | ⟨-, made, -⟩
  · exact same
  · exact absurd made free

theorem Keeps.onTheWay (keeps : d.Keeps e) {path : Path} (h : d.OnTheWay path place) :
    e.OnTheWay path place := by
  obtain ⟨front, before, located⟩ := h
  exact ⟨front, before, keeps.locate located⟩

theorem OnTheWay.of_parent {path : Path} (h : d.OnTheWay path.parent place) :
    d.OnTheWay path place := by
  obtain ⟨front, before, located⟩ := h
  exact ⟨front, before.trans (List.dropLast_prefix path.parts), located⟩

theorem Grown.of_parent {path : Path} (h : Grown path.parent d e) : Grown path d e := by
  refine ⟨h.rest, fun place => ?_⟩
  rcases h.nodes place with same | ⟨none, made, way⟩
  · exact .inl same
  · exact .inr ⟨none, made, way.of_parent⟩

theorem Grown.trans {path : Path} {f : Disk} (h : Grown path d e) (h' : Grown path e f) :
    Grown path d f := by
  refine ⟨?_, fun place => ?_⟩
  · rw [h'.rest, h.rest]
  · rcases h'.nodes place with same' | ⟨none', made', way'⟩
    · rcases h.nodes place with same | ⟨none, made, way⟩
      · exact .inl (same'.trans same)
      · exact .inr ⟨none, same'.trans made, h'.keeps.onTheWay way⟩
    · rcases h.nodes place with same | ⟨-, made, -⟩
      · exact .inr ⟨same ▸ none', made', way'⟩
      · rw [made] at none'
        cases none'

theorem grown_put {path : Path} (located : d.locate path = .ok place)
    (free : d.node? place = none) :
    Grown path d (d.put place .directory) ∧
      (d.put place .directory).nodeAt path = some .directory := by
  have outside : place.all isOutside = false := not_outside_of_node?_ne (d := d) (by simp [free])
  have keeps : d.Keeps (d.put place .directory) := by
    intro other directory
    by_cases same : other = place <;> simp [node?_put outside, same, directory]
  have here : (d.put place .directory).locate path = .ok place := keeps.locate located
  refine ⟨⟨rfl, fun other => ?_⟩, nodeAt_eq_some_iff.2 ⟨place, here, by simp [node?_put outside]⟩⟩
  by_cases same : other = place
  · subst same
    exact .inr ⟨free, by simp [node?_put outside], path.parts, List.prefix_rfl, here⟩
  · exact .inl (by simp [node?_put outside, same])

end Disk

namespace DiskM

open Disk

variable {d : Disk} {path : Path}

theorem runFrom_place (path : Path) (d : Disk) : (place path).runFrom d = (d.locate path, d) := by
  simp only [place, ExceptT.runFrom_bind, ExceptT.runFrom_get]
  cases d.locate path <;> rfl

theorem runFrom_place_bind {α : Type} {place : List String} {f : List String → DiskM α}
    (located : d.locate path = .ok place) :
    (DiskM.place path >>= f).runFrom d = (f place).runFrom d :=
  ExceptT.runFrom_bind_ok (by rw [runFrom_place, located])

theorem runFrom_makeDirectory (path : Path) (d : Disk) :
    (makeDirectory path).runFrom d =
      match d.locate path with
      | .error error => (.error error, d)
      | .ok place =>
        if (d.node? place).isSome then (.error (.alreadyExists path.text), d)
        else (.ok (), d.put place .directory) := by
  rw [makeDirectory, ExceptT.runFrom_bind, runFrom_place]
  cases d.locate path with
  | error error => rfl
  | ok place =>
    simp only
    rw [ExceptT.runFrom_bind_ok (ExceptT.runFrom_get d)]
    split <;> rfl

/-- A directory is made where there was nothing, or the disk stays as it was. -/
theorem makeDirectory_cases (path : Path) (d : Disk) :
    (∃ place, d.locate path = .ok place ∧ d.node? place = none ∧
      (makeDirectory path).runFrom d = (.ok (), d.put place .directory)) ∨
    ∃ error, (makeDirectory path).runFrom d = (.error error, d) := by
  rw [runFrom_makeDirectory]
  cases d.locate path with
  | error error => exact .inr ⟨error, rfl⟩
  | ok place =>
    cases free : d.node? place with
    | none => exact .inl ⟨place, rfl, free, by simp [free]⟩
    | some node => exact .inr ⟨.alreadyExists path.text, by simp [free]⟩

/-- A failure to make a directory is none where there is one already. -/
theorem runFrom_unlessDirectory (path : Path) (error : StorageError) (d : Disk) :
    (do if ← Host.isDirectory path then return else throw error : DiskM Unit).runFrom d =
      (if d.nodeAt path = some .directory then .ok () else .error error, d) := by
  have unfolded :
      (do if ← Host.isDirectory path then return else throw error : DiskM Unit).runFrom d =
      ExceptT.runFrom (if decide (d.nodeAt path = some .directory) = true then pure ()
        else throw error : DiskM Unit) d := rfl
  rw [unfolded]
  by_cases there : d.nodeAt path = some .directory <;> simp [there]

/-- What directories a step leaves: more on the way of a path, and that of the path if it
succeeds. -/
def Opens (path : Path) (x : DiskM Unit) (d : Disk) : Prop :=
  Grown path d (x.runFrom d).2 ∧
    ((x.runFrom d).1 = .ok () → (x.runFrom d).2.nodeAt path = some .directory)

theorem opens_unlessDirectory (path : Path) (error : StorageError) (d : Disk) :
    Opens path (do if ← Host.isDirectory path then return else throw error) d := by
  rw [Opens, runFrom_unlessDirectory]
  refine ⟨.refl path d, ?_⟩
  intro done
  by_contra absent
  simp [absent] at done

/-- Making a directory opens it, if what follows a failure does. -/
theorem opens_makeDirectory {path : Path} {d : Disk} {recover : StorageError → DiskM Unit}
    (h : ∀ error, Opens path (recover error) d) :
    Opens path (tryCatch (Host.makeDirectory path) recover) d := by
  rcases makeDirectory_cases path d with ⟨place, located, free, made⟩ | ⟨error, failed⟩
  · have ran : (tryCatch (Host.makeDirectory path) recover).runFrom d =
        (.ok (), d.put place .directory) := ExceptT.runFrom_tryCatch_ok made
    rw [Opens, ran]
    obtain ⟨grown, there⟩ := grown_put located free
    exact ⟨grown, fun _ => there⟩
  · have ran : (tryCatch (Host.makeDirectory path) recover).runFrom d =
        (recover error).runFrom d := ExceptT.runFrom_tryCatch_error failed
    rw [Opens, ran]
    exact h error

theorem opens_ensureDirectory (path : Path) (d : Disk) :
    Opens path (Host.ensureDirectory path) d :=
  opens_makeDirectory fun error => opens_unlessDirectory path error d

/-- A directory is opened in two steps when the first opens its parent. -/
theorem opens_below {path : Path} {d : Disk} {x : DiskM Unit} (above : Opens path.parent x d) :
    Opens path (do x; Host.ensureDirectory path) d := by
  rcases ran : x.runFrom d with ⟨failure | _, e⟩
  · have stopped : (do x; Host.ensureDirectory path : DiskM Unit).runFrom d = (.error failure, e) :=
      ExceptT.runFrom_bind_error ran
    rw [Opens, stopped]
    have grown := above.1
    rw [ran] at grown
    exact ⟨grown.of_parent, fun done => by cases done⟩
  · have both : (do x; Host.ensureDirectory path : DiskM Unit).runFrom d =
        (Host.ensureDirectory path : DiskM Unit).runFrom e := ExceptT.runFrom_bind_ok ran
    rw [Opens, both]
    have grown := above.1
    rw [ran] at grown
    obtain ⟨more, opened⟩ := opens_ensureDirectory path e
    exact ⟨grown.of_parent.trans more, opened⟩

/-- Making a directory and those above it opens it. -/
theorem opens_ensureDirectories (path : Path) (d : Disk) :
    Opens path (Host.ensureDirectories path) d := by
  induction size : path.parts.length using Nat.strongRecOn generalizing path d with
  | ind n ih =>
    rw [Host.ensureDirectories]
    apply opens_makeDirectory
    intro error
    cases error with
    | notFound text =>
      by_cases top : path.parts = []
      · simp only [top, dite_true]
        exact ⟨.refl path d, fun done => by cases done⟩
      · simp only [top, dite_false]
        have shorter : path.parent.parts.length < n := size ▸ path.length_parent_lt top
        exact opens_below (ih _ shorter path.parent d rfl)
    | _ => exact opens_unlessDirectory path _ d

theorem grown_of_ensureDirectories {path : Path} {d e : Disk}
    (h : (Host.ensureDirectories path : DiskM Unit).runFrom d = (.ok (), e)) :
    Grown path d e ∧ e.nodeAt path = some .directory := by
  obtain ⟨grown, made⟩ := opens_ensureDirectories path d
  rw [h] at grown made
  exact ⟨grown, made rfl⟩

/-- Where the directory is there already, nothing is made. -/
theorem ensureDirectories_of_directory {path : Path} {d : Disk}
    (there : d.nodeAt path = some .directory) :
    (Host.ensureDirectories path : DiskM Unit).runFrom d = (.ok (), d) := by
  obtain ⟨place, located, directory⟩ := nodeAt_eq_some_iff.1 there
  have taken : (makeDirectory path).runFrom d = (.error (.alreadyExists path.text), d) := by
    simp [runFrom_makeDirectory, located, directory]
  rw [Host.ensureDirectories]
  refine (ExceptT.runFrom_tryCatch_error taken).trans ?_
  exact (runFrom_unlessDirectory path _ d).trans (by rw [if_pos there])

/-- A step that neither reads the schedule of failures nor changes it. -/
def IgnoresSchedule {α : Type} (x : DiskM α) : Prop :=
  ∀ (d : Disk) (replaces writes : List Nat), x.runFrom (d.schedule replaces writes) =
    ((x.runFrom d).1, (x.runFrom d).2.schedule replaces writes)

theorem ignoresSchedule_throw {α : Type} (error : StorageError) :
    IgnoresSchedule (throw error : DiskM α) := fun _ _ _ => rfl

theorem IgnoresSchedule.bind {α β : Type} {x : DiskM α} {f : α → DiskM β}
    (first : IgnoresSchedule x)
    (next : ∀ a, IgnoresSchedule (f a)) : IgnoresSchedule (x >>= f) := by
  intro d replaces writes
  simp only [ExceptT.runFrom_bind, first d]
  rcases x.runFrom d with ⟨error | a, e⟩
  · rfl
  · exact next a e replaces writes

theorem IgnoresSchedule.tryCatch {α : Type} {x : DiskM α} {recover : StorageError → DiskM α}
    (first : IgnoresSchedule x) (next : ∀ error, IgnoresSchedule (recover error)) :
    IgnoresSchedule (tryCatch x recover) := by
  intro d replaces writes
  simp only [ExceptT.runFrom_tryCatch, first d]
  rcases x.runFrom d with ⟨error | a, e⟩
  · exact next error e replaces writes
  · rfl

theorem ignoresSchedule_makeDirectory (path : Path) : IgnoresSchedule (makeDirectory path) := by
  intro d replaces writes
  have sameLocate : (d.schedule replaces writes).locate path = d.locate path := rfl
  have sameNodes : (d.schedule replaces writes).node? = d.node? := rfl
  rw [runFrom_makeDirectory, runFrom_makeDirectory, sameLocate, sameNodes]
  cases d.locate path with
  | error error => rfl
  | ok place =>
    simp only
    split <;> rfl

theorem ignoresSchedule_unlessDirectory (path : Path) (error : StorageError) :
    IgnoresSchedule (do if ← Host.isDirectory path then return else throw error : DiskM Unit) := by
  intro d replaces writes
  rw [runFrom_unlessDirectory, runFrom_unlessDirectory]
  rfl

theorem ignoresSchedule_ensureDirectories (path : Path) :
    IgnoresSchedule (Host.ensureDirectories path : DiskM Unit) := by
  induction size : path.parts.length using Nat.strongRecOn generalizing path with
  | ind n ih =>
    rw [Host.ensureDirectories]
    refine (ignoresSchedule_makeDirectory path).tryCatch fun error => ?_
    cases error with
    | notFound text =>
      by_cases top : path.parts = []
      · simp only [top, dite_true]
        exact ignoresSchedule_throw _
      · simp only [top, dite_false]
        have shorter : path.parent.parts.length < n := size ▸ path.length_parent_lt top
        refine (ih _ shorter path.parent rfl).bind fun _ => ?_
        exact (ignoresSchedule_makeDirectory path).tryCatch (ignoresSchedule_unlessDirectory path)
    | _ => exact ignoresSchedule_unlessDirectory path _

end DiskM

end NativeBridge
