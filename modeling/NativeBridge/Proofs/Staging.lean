import NativeBridge.Output.Write
import NativeBridge.Proofs.Disk

/-!
# Staging and moving

What each step of writing does to a disk. A step that fails as the schedule says leaves the disk as
it was but for what it counts, and restoring puts back what was there up to line ends. From these
steps follows what staging two files does, and moving them: both are in place at the end, or neither
is.
-/
namespace NativeBridge

/-! ## Line ends -/

namespace Text

theorem carriageReturn_not_mem_unifyNewlines (cs : List Char) : '\r' ∉ unifyNewlines cs := by
  fun_induction unifyNewlines cs with
  | case1 rest ih => simpa using ih
  | case2 rest _ ih => simpa using ih
  | case3 c rest _ other ih =>
    have ne : '\r' ≠ c := fun same => other same.symm
    simp [ne, ih]
  | case4 => simp

theorem unifyNewlines_of_not_mem {cs : List Char} (h : '\r' ∉ cs) : unifyNewlines cs = cs := by
  fun_induction unifyNewlines cs with
  | case1 rest ih => simp at h
  | case2 rest _ ih => simp at h
  | case3 c rest _ _ ih => rw [ih (by simp_all)]
  | case4 => rfl

/-- A text has its line ends unified once. -/
theorem unified_unified (content : String) : unified (unified content) = unified content := by
  have done := carriageReturn_not_mem_unifyNewlines content.toList
  simp [unified, unifyNewlines_of_not_mem done]

end Text

/-- A node whose text, if it has one, has its line ends unified. -/
def Node.unified : Node → Node
  | .directory => .directory
  | .file content => .file (Text.unified content)

/-- What is found is what is wanted, or that with its line ends unified. -/
def Node.UpToLineEnds (wanted found : Option Node) : Prop :=
  found = wanted ∨ found = wanted.map Node.unified

theorem Node.unified_unified (node : Node) : node.unified.unified = node.unified := by
  cases node with
  | directory => rfl
  | file content => simp [Node.unified, Text.unified_unified]

theorem Node.UpToLineEnds.trans {first second third : Option Node}
    (h : UpToLineEnds first second) (h' : UpToLineEnds second third) :
    UpToLineEnds first third := by
  rcases h' with same' | renewed'
  · rwa [same']
  · rcases h with same | renewed
    · exact .inr (by rw [renewed', same])
    · refine .inr ?_
      rw [renewed', renewed, Option.map_map]
      congr 1
      funext node
      exact node.unified_unified

/-! ## Destinations -/

namespace Disk

variable {d e : Disk} {path other : Path} {place place' : List String}

/-- A path leads to a place without a directory, and a file can be staged beside it. -/
structure Destination (d : Disk) (path : Path) (place : List String) : Prop where
  located : d.locate path = .ok place
  free : d.node? place ≠ some .directory
  stageable : ∃ beside, d.locate (stagingPath path) = .ok beside

theorem Destination.inside (h : d.Destination path place) : place.all isOutside = false :=
  not_outside_of_node?_ne h.free

theorem Destination.of_keeps (h : d.Destination path place) (keeps : d.Keeps e)
    (free : e.node? place ≠ some .directory) : e.Destination path place := by
  obtain ⟨beside, located⟩ := h.stageable
  exact ⟨keeps.locate h.located, free, beside, keeps.locate located⟩

theorem Destination.of_nodes (h : d.Destination path place) (same : e.nodes = d.nodes) :
    e.Destination path place := by
  have nodes : ∀ place, e.node? place = d.node? place := fun place => by simp [node?, same]
  refine h.of_keeps (fun other directory => ?_) ?_
  · rw [nodes, directory]
  · rw [nodes]
    exact h.free

/-- What a path holds, with its line ends unified. A directory cannot be read. -/
def contentAt (d : Disk) (path : Path) : Except StorageError (Option String) :=
  match d.nodeAt path with
  | none => .ok none
  | some (.file content) => .ok (some (Text.unified content))
  | some .directory => .error (.isADirectory path.text)

theorem exists_contentAt_iff :
    (∃ previous, d.contentAt path = .ok previous) ↔ d.nodeAt path ≠ some .directory := by
  rw [contentAt]
  rcases d.nodeAt path with _ | _ | content <;> simp

theorem Destination.exists_contentAt (h : d.Destination path place) :
    ∃ previous, d.contentAt path = .ok previous ∧
      previous.map Node.file = (d.node? place).map Node.unified := by
  have here : d.nodeAt path = d.node? place := by rw [nodeAt, h.located]
  rw [contentAt, here]
  rcases there : d.node? place with _ | _ | content
  · exact ⟨none, rfl, rfl⟩
  · exact absurd there h.free
  · exact ⟨some (Text.unified content), rfl, rfl⟩

/-- A change where there is no directory leads no path astray. -/
theorem keeps_of_change (free : d.node? place ≠ some .directory)
    (elsewhere : ∀ other, other ≠ place → e.node? other = d.node? other) : d.Keeps e := by
  intro other directory
  have ne : other ≠ place := fun same => free (same ▸ directory)
  rw [elsewhere other ne, directory]

theorem Destination.put (h : d.Destination path place) (h' : d.Destination other place')
    (content : String) : (d.put place (.file content)).Destination other place' := by
  refine h'.of_keeps (keeps_of_change h.free fun other ne => ?_) ?_
  · simp [node?_put h.inside, ne]
  · rw [node?_put h.inside]
    split
    · simp
    · exact h'.free

/-- What a call writes when nothing fails. -/
def Written (d e : Disk) (script native : List String) (bindings : Bindings) : Prop :=
  ∀ place, e.node? place =
    if place = native then some (.file bindings.native)
    else if place = script then some (.file bindings.script) else d.node? place

/-- What a failed call leaves: all is as it was, up to the line ends of the script. -/
def Undone (d e : Disk) (script : List String) : Prop :=
  ∃ node, Node.UpToLineEnds (d.node? script) node ∧
    ∀ place, e.node? place = if place = script then node else d.node? place

theorem undone_of_nodes {script : List String} (same : e.nodes = d.nodes) : d.Undone e script := by
  refine ⟨d.node? script, .inl rfl, fun place => ?_⟩
  split
  · subst place
    simp [node?, same]
  · simp [node?, same]

end Disk

/-! ## Steps -/

namespace DiskM

open Disk

variable {d e : Disk} {path : Path} {place : List String}

theorem runFrom_createStaging {beside : List String}
    (located : d.locate (stagingPath path) = .ok beside) :
    (createStaging path).runFrom d =
      (.ok ⟨d.serial, beside.dropLast, path.name, ""⟩,
        { d with
          serial := d.serial + 1
          staging := d.staging ++ [⟨d.serial, beside.dropLast, path.name, ""⟩] }) :=
  runFrom_place_bind located

theorem runFrom_fillStaging (file : StagingFile) (content : String) (d : Disk) :
    (fillStaging file content).runFrom d =
      if d.writes ∈ d.failingWrites then
        (.error (.device "disk full"), { d with writes := d.writes + 1 })
      else
        (.ok (), { d with
          writes := d.writes + 1
          staging := d.staging.map fun f =>
            if f.serial = file.serial then { f with content } else f }) := by
  rw [fillStaging, ExceptT.runFrom_bind_ok (ExceptT.runFrom_get d),
    ExceptT.runFrom_bind_ok (ExceptT.runFrom_set _ d)]
  split <;> rfl

/-- A staging file is filled or, when the write fails, discarded. -/
theorem exists_runFrom_stage (stageable : ∃ beside, d.locate (stagingPath path) = .ok beside)
    (fresh : ∀ file ∈ d.staging, file.serial ≠ d.serial) (content : String) :
    ∃ file : StagingFile, file.serial = d.serial ∧ file.content = content ∧
      (Host.stage path content : DiskM (Host.Staging DiskM)).runFrom d =
        if d.writes ∈ d.failingWrites then
          (.error (.device "disk full"), { d with serial := d.serial + 1, writes := d.writes + 1 })
        else
          (.ok ({ file with content := "" } : StagingFile),
            { d with
              serial := d.serial + 1, writes := d.writes + 1
              staging := d.staging ++ [file] }) := by
  obtain ⟨beside, located⟩ := stageable
  refine ⟨⟨d.serial, beside.dropLast, path.name, content⟩, rfl, rfl, ?_⟩
  refine (ExceptT.runFrom_bind_ok (runFrom_createStaging located)).trans ?_
  have filled := runFrom_fillStaging ⟨d.serial, beside.dropLast, path.name, ""⟩ content
    { d with
      serial := d.serial + 1
      staging := d.staging ++ [⟨d.serial, beside.dropLast, path.name, ""⟩] }
  by_cases fails : d.writes ∈ d.failingWrites
  · rw [if_pos fails] at filled
    have kept : d.staging.filter (fun file => !decide (file.serial = d.serial)) = d.staging :=
      List.filter_eq_self.2 fun file member => by simp [fresh file member]
    rw [if_pos fails]
    refine (ExceptT.runFrom_bind_error ((ExceptT.runFrom_tryCatch_error filled).trans rfl)).trans ?_
    simp [kept]
  · rw [if_neg fails] at filled
    have kept : d.staging.map (fun file =>
        if file.serial = d.serial then { file with content } else file) = d.staging := by
      refine (List.map_congr_left fun file member => ?_).trans d.staging.map_id
      simp [fresh file member]
    rw [if_neg fails]
    refine (ExceptT.runFrom_bind_ok (ExceptT.runFrom_tryCatch_ok filled)).trans ?_
    simp [kept]

/-- A file can be staged for a path: there is a place beside it, and the next write does not
fail. -/
def Stageable (d : Disk) (path : Path) : Prop :=
  (∃ beside, d.locate (stagingPath path) = .ok beside) ∧ d.writes ∉ d.failingWrites

/-- A file is staged, or nothing is changed but counts. -/
theorem stage_cases (fresh : ∀ file ∈ d.staging, file.serial ≠ d.serial) (path : Path)
    (content : String) :
    (¬ Stageable d path ∧ ∃ error e, e.staging = d.staging ∧ e.nodes = d.nodes ∧
      (Host.stage path content : DiskM (Host.Staging DiskM)).runFrom d = (.error error, e)) ∨
    (Stageable d path ∧ ∃ file : StagingFile, file.serial = d.serial ∧ file.content = content ∧
      (Host.stage path content : DiskM (Host.Staging DiskM)).runFrom d =
        (.ok ({ file with content := "" } : StagingFile),
          { d with
            serial := d.serial + 1, writes := d.writes + 1, staging := d.staging ++ [file] })) := by
  cases located : d.locate (stagingPath path) with
  | error error =>
    have created : (createStaging path).runFrom d = (.error error, d) :=
      ExceptT.runFrom_bind_error (by rw [runFrom_place, located])
    refine .inl ⟨?_, error, d, rfl, rfl, ExceptT.runFrom_bind_error created⟩
    rintro ⟨⟨beside, found⟩, -⟩
    cases located.symm.trans found
  | ok beside =>
    obtain ⟨file, serial, holds, staged⟩ := exists_runFrom_stage ⟨beside, located⟩ fresh content
    by_cases fails : d.writes ∈ d.failingWrites
    · rw [if_pos fails] at staged
      refine .inl ⟨fun stageable => stageable.2 fails, _, _, ?_, ?_, staged⟩ <;> rfl
    · rw [if_neg fails] at staged
      exact .inr ⟨⟨⟨beside, located⟩, fails⟩, file, serial, holds, staged⟩

/-- Discarding takes away the files with the given serial numbers. -/
theorem runFrom_discardAll {α : Type} (file : α → StagingFile) (items : List α) (d : Disk) :
    (items.forM fun item => discardStaging (file item)).runFrom d =
      (.ok (), { d with
        staging := d.staging.filter fun f =>
          items.all fun item => f.serial ≠ (file item).serial }) := by
  induction items generalizing d with
  | nil => simp [List.forM]
  | cons item rest ih =>
    refine (ExceptT.runFrom_bind_ok (ExceptT.runFrom_modify _ d)).trans ?_
    rw [ih]
    simp [List.filter_filter, Bool.and_comm]

theorem runFrom_replaceFile {f staged : StagingFile} (destination : d.Destination path place)
    (found : d.staging.find? (·.serial = f.serial) = some staged) :
    (replaceFile f path).runFrom d =
      if d.replaces ∈ d.failingReplaces then
        (.error (.device "disk full"), { d with replaces := d.replaces + 1 })
      else
        (.ok (), { d.put place (.file staged.content) with
          replaces := d.replaces + 1
          staging := d.staging.filter (·.serial ≠ f.serial) }) := by
  rw [replaceFile, ExceptT.runFrom_bind_ok (ExceptT.runFrom_get d),
    ExceptT.runFrom_bind_ok (ExceptT.runFrom_set _ d)]
  by_cases fails : d.replaces ∈ d.failingReplaces
  · rw [if_pos fails, if_pos fails]
    rfl
  · rw [if_neg fails, if_neg fails]
    have located : ({ d with replaces := d.replaces + 1 } : Disk).locate path = .ok place :=
      destination.located
    refine (runFrom_place_bind located).trans ?_
    rw [found]
    cases there : d.node? place with
    | none => rfl
    | some node =>
      cases node with
      | file content => rfl
      | directory => exact absurd there destination.free

/-- The previous content is what is at the destination. Reading it changes nothing. -/
theorem runFrom_previousContent (path : Path) (d : Disk) :
    (Host.previousContent path : DiskM (Option String)).runFrom d = (d.contentAt path, d) := by
  have unfolded : (Host.previousContent path : DiskM (Option String)).runFrom d =
      ExceptT.runFrom (if (d.nodeAt path).isSome = true then some <$> Host.readText path
        else pure none : DiskM (Option String)) d := rfl
  rw [unfolded, contentAt]
  cases there : d.nodeAt path with
  | none => rfl
  | some node =>
    obtain ⟨place, located, here⟩ := nodeAt_eq_some_iff.1 there
    have opened : (readFile path).runFrom d = _ :=
      (runFrom_place_bind located).trans (ExceptT.runFrom_bind_ok (ExceptT.runFrom_get d))
    rw [here] at opened
    cases node with
    | directory => exact ExceptT.runFrom_bind_error (ExceptT.runFrom_bind_error opened)
    | file content => exact ExceptT.runFrom_bind_ok (ExceptT.runFrom_bind_ok opened)

theorem runFrom_removeFile {content : String} (located : d.locate path = .ok place)
    (there : d.node? place = some (.file content)) :
    (removeFile path).runFrom d = (.ok (), d.erase place) := by
  refine (runFrom_place_bind located).trans ?_
  refine (ExceptT.runFrom_bind_ok (ExceptT.runFrom_get d)).trans ?_
  rw [there]
  rfl

/-- Restoring without a failure puts back what was there and leaves no staging file. Where nothing
was there, nothing is written. -/
theorem exists_runFrom_restore {content : String} {previous : Option String}
    (destination : d.Destination path place)
    (there : d.node? place = some (.file content)) (clean : d.staging = [])
    (spared : previous ≠ none → d.writes ∉ d.failingWrites ∧ d.replaces ∉ d.failingReplaces) :
    ∃ e, (Host.restore path previous : DiskM Unit).runFrom d = (.ok (), e) ∧ e.staging = [] ∧
      ∀ other, e.node? other = if other = place then previous.map .file else d.node? other := by
  cases previous with
  | none =>
    refine ⟨d.erase place, runFrom_removeFile destination.located there, clean, ?_⟩
    exact node?_erase destination.inside
  | some old =>
    obtain ⟨writes, replaces⟩ := spared (by simp)
    obtain ⟨file, serial, holds, staged⟩ :=
      exists_runFrom_stage destination.stageable (by simp [clean]) old
    rw [if_neg writes, clean, List.nil_append] at staged
    set e : Disk := { d with serial := d.serial + 1, writes := d.writes + 1, staging := [file] }
    have destination' : e.Destination path place := destination.of_nodes rfl
    have found : e.staging.find? (·.serial = file.serial) = some file := by simp [e]
    have replaced := runFrom_replaceFile (f := { file with content := "" }) destination' found
    rw [if_neg replaces] at replaced
    refine ⟨_, (ExceptT.runFrom_bind_ok staged).trans replaced, by simp [e], fun other => ?_⟩
    rw [← holds]
    exact node?_put destination.inside other

/-! ## Staging both files and moving them -/

abbrev StagedFiles := List (Host.Staging DiskM × Path)

section Loops

variable {error : StorageError}

theorem runFrom_stageAll_cons_ok {staged : StagedFiles} {content : String}
    {file : StagingFile} {rest : List (Path × String)}
    (h : (Host.stage path content : DiskM (Host.Staging DiskM)).runFrom d = (.ok file, e)) :
    (Host.stageAll staged ((path, content) :: rest) : DiskM StagedFiles).runFrom d =
      (Host.stageAll (staged ++ [(file, path)]) rest :
        DiskM StagedFiles).runFrom e :=
  ExceptT.runFrom_bind_ok (ExceptT.runFrom_tryCatch_ok h)

theorem runFrom_stageAll_cons_error {staged : StagedFiles} {content : String}
    {rest : List (Path × String)}
    (h : (Host.stage path content : DiskM (Host.Staging DiskM)).runFrom d = (.error error, e)) :
    (Host.stageAll staged ((path, content) :: rest) : DiskM StagedFiles).runFrom d =
      (.error error, { e with
        staging := e.staging.filter fun f => staged.all (f.serial ≠ ·.1.serial) }) := by
  refine ExceptT.runFrom_bind_error ((ExceptT.runFrom_tryCatch_error h).trans ?_)
  exact ExceptT.runFrom_bind_ok (runFrom_discardAll (fun s : StagingFile × Path => s.1) staged e)

theorem runFrom_moveAll_cons_ok {moved rest : List (Host.Move DiskM)} {move : Host.Move DiskM}
    (h : (replaceFile move.file move.path).runFrom d = (.ok (), e)) :
    (Host.moveAll moved (move :: rest) : DiskM Unit).runFrom d =
      (Host.moveAll (moved ++ [move]) rest : DiskM Unit).runFrom
        { e with log := e.log ++ [.wrote move.path.text] } :=
  (ExceptT.runFrom_bind_ok (ExceptT.runFrom_tryCatch_ok h)).trans
    (ExceptT.runFrom_bind_ok (ExceptT.runFrom_modify _ e))

theorem runFrom_moveAll_cons_error {moved rest : List (Host.Move DiskM)} {move : Host.Move DiskM}
    (h : (replaceFile move.file move.path).runFrom d = (.error error, e)) {final : Disk}
    (undone : (Host.rollBack moved (move :: rest) : DiskM Unit).runFrom e = (.ok (), final)) :
    (Host.moveAll moved (move :: rest) : DiskM Unit).runFrom d = (.error error, final) :=
  ExceptT.runFrom_bind_error
    ((ExceptT.runFrom_tryCatch_error h).trans (ExceptT.runFrom_bind_ok undone))

/-- Rolling back discards what is pending and then restores what was moved. -/
theorem runFrom_rollBack (moved pending : List (Host.Move DiskM)) (d : Disk) :
    (Host.rollBack moved pending : DiskM Unit).runFrom d =
      (moved.forM fun move => Host.restore move.path move.previous : DiskM Unit).runFrom
        { d with
          log := d.log ++ [.rollingBack (moved.map (·.path.text))]
          staging := d.staging.filter fun f => pending.all (f.serial ≠ ·.file.serial) } := by
  refine (ExceptT.runFrom_bind_ok (ExceptT.runFrom_modify _ d)).trans ?_
  exact ExceptT.runFrom_bind_ok
    (runFrom_discardAll (fun move : Host.Move DiskM => move.file) pending _)

end Loops

section Pair

variable {script native : Path} {scriptPlace nativePlace : List String} {f g : StagingFile}

/-- Both files have a place beside their destinations, and neither write fails. -/
def BothStageable (d : Disk) (script native : Path) : Prop :=
  ((∃ beside, d.locate (stagingPath script) = .ok beside) ∧
      ∃ beside, d.locate (stagingPath native) = .ok beside) ∧
    d.writes ∉ d.failingWrites ∧ d.writes + 1 ∉ d.failingWrites

/-- Both files are staged, or none is and nothing is changed. -/
theorem stageAll_cases (clean : d.staging = []) (script native : Path) (first second : String) :
    (¬ BothStageable d script native ∧ ∃ error e, e.staging = [] ∧ e.nodes = d.nodes ∧
      (Host.stageAll [] [(script, first), (native, second)] : DiskM StagedFiles).runFrom d =
        (.error error, e)) ∨
    (BothStageable d script native ∧ ∃ f g : StagingFile, f.serial ≠ g.serial ∧
      f.content = first ∧ g.content = second ∧
      (Host.stageAll [] [(script, first), (native, second)] : DiskM StagedFiles).runFrom d =
        (.ok [(({ f with content := "" } : StagingFile), script),
            (({ g with content := "" } : StagingFile), native)],
          { d with serial := d.serial + 2, writes := d.writes + 2, staging := [f, g] })) := by
  rcases stage_cases (d := d) (by simp [clean]) script first with
    ⟨refused, error, e, same, nodes, failed⟩ | ⟨stageable, f, fSerial, fHolds, staged⟩
  · refine .inl ⟨fun both => refused ⟨both.1.1, both.2.1⟩, error, _, ?_, ?_,
      runFrom_stageAll_cons_error failed⟩
    · simp [same, clean]
    · exact nodes
  rw [clean, List.nil_append] at staged
  set d' : Disk := { d with serial := d.serial + 1, writes := d.writes + 1, staging := [f] }
  have fresh : ∀ file ∈ d'.staging, file.serial ≠ d'.serial := by
    simp only [d', List.mem_singleton, forall_eq, fSerial]
    omega
  rcases stage_cases fresh native second with
    ⟨refused, error, e, same, nodes, failed⟩ | ⟨stageable', g, gSerial, gHolds, staged'⟩
  · refine .inl ⟨fun both => refused ⟨both.1.2, both.2.2⟩, error, _, ?_, ?_,
      (runFrom_stageAll_cons_ok staged).trans (runFrom_stageAll_cons_error failed)⟩
    · simp [same, d']
    · exact nodes
  · refine .inr ⟨⟨⟨stageable.1, stageable'.1⟩, stageable.2, stageable'.2⟩, f, g, ?_, fHolds, gHolds,
      (runFrom_stageAll_cons_ok staged).trans (runFrom_stageAll_cons_ok staged')⟩
    rw [fSerial, gSerial]
    simp [d']

variable {first second : Host.Move DiskM}

/-- When the first move fails, both staging files are discarded and nothing else is changed. -/
theorem moveAll_first_fails (scriptTo : d.Destination first.path scriptPlace)
    (held : d.staging = [f, g]) (ofFirst : first.file.serial = f.serial)
    (ofSecond : second.file.serial = g.serial) (fails : d.replaces ∈ d.failingReplaces) :
    ∃ error e, (Host.moveAll [] [first, second] : DiskM Unit).runFrom d = (.error error, e) ∧
      e.staging = [] ∧ e.nodes = d.nodes := by
  have found : d.staging.find? (·.serial = first.file.serial) = some f := by simp [held, ofFirst]
  have moved := runFrom_replaceFile scriptTo found
  rw [if_pos fails] at moved
  have undone := runFrom_rollBack [] [first, second] { d with replaces := d.replaces + 1 }
  refine ⟨_, _, runFrom_moveAll_cons_error moved (undone.trans rfl), ?_, rfl⟩
  simp [held, ofFirst, ofSecond]

/-- When the first move succeeds, the second is made on a disk with the first file in place. -/
theorem moveAll_first_moved (scriptTo : d.Destination first.path scriptPlace)
    (nativeTo : d.Destination second.path nativePlace) (held : d.staging = [f, g])
    (ofFirst : first.file.serial = f.serial) (apart : f.serial ≠ g.serial)
    (passes : d.replaces ∉ d.failingReplaces) :
    ∃ e, (Host.moveAll [] [first, second] : DiskM Unit).runFrom d =
        (Host.moveAll [first] [second] : DiskM Unit).runFrom e ∧
      e.Destination first.path scriptPlace ∧ e.Destination second.path nativePlace ∧
      e.staging = [g] ∧ e.writes = d.writes ∧ e.failingWrites = d.failingWrites ∧
      e.replaces = d.replaces + 1 ∧ e.failingReplaces = d.failingReplaces ∧
      ∀ place, e.node? place =
        if place = scriptPlace then some (.file f.content) else d.node? place := by
  have found : d.staging.find? (·.serial = first.file.serial) = some f := by simp [held, ofFirst]
  have moved := runFrom_replaceFile scriptTo found
  rw [if_neg passes] at moved
  refine ⟨_, runFrom_moveAll_cons_ok moved, (scriptTo.put scriptTo f.content).of_nodes rfl,
    (scriptTo.put nativeTo f.content).of_nodes rfl, ?_, rfl, rfl, rfl, rfl,
      node?_put scriptTo.inside⟩
  simp [held, ofFirst, apart.symm]

/-- When the second move fails, the first file gets back what is said to have been there. -/
theorem moveAll_second_fails {content : String} (scriptTo : d.Destination first.path scriptPlace)
    (nativeTo : d.Destination second.path nativePlace) (held : d.staging = [g])
    (ofSecond : second.file.serial = g.serial)
    (there : d.node? scriptPlace = some (.file content)) (fails : d.replaces ∈ d.failingReplaces)
    (spared : first.previous ≠ none →
      d.writes ∉ d.failingWrites ∧ d.replaces + 1 ∉ d.failingReplaces) :
    ∃ error e, (Host.moveAll [first] [second] : DiskM Unit).runFrom d = (.error error, e) ∧
      e.staging = [] ∧ ∀ place, e.node? place =
        if place = scriptPlace then first.previous.map .file else d.node? place := by
  have found : d.staging.find? (·.serial = second.file.serial) = some g := by simp [held, ofSecond]
  have moved := runFrom_replaceFile nativeTo found
  rw [if_pos fails] at moved
  set d' : Disk := { d with
    replaces := d.replaces + 1
    staging := []
    log := d.log ++ [.rollingBack [first.path.text]] }
  have undone : (Host.rollBack [first] [second] : DiskM Unit).runFrom
      { d with replaces := d.replaces + 1 } =
      ([first].forM fun move => Host.restore move.path move.previous : DiskM Unit).runFrom d' := by
    rw [runFrom_rollBack]
    simp [d', held, ofSecond]
  have scriptTo' : d'.Destination first.path scriptPlace := scriptTo.of_nodes rfl
  obtain ⟨e, restored, clean, nodes⟩ :=
    exists_runFrom_restore scriptTo' there rfl spared
  refine ⟨_, e, runFrom_moveAll_cons_error moved ?_, clean, nodes⟩
  rw [undone]
  exact (ExceptT.runFrom_bind_ok restored).trans rfl

theorem moveAll_second_moved (first : Host.Move DiskM)
    (nativeTo : d.Destination second.path nativePlace) (held : d.staging = [g])
    (ofSecond : second.file.serial = g.serial) (passes : d.replaces ∉ d.failingReplaces) :
    ∃ e, (Host.moveAll [first] [second] : DiskM Unit).runFrom d = (.ok (), e) ∧ e.staging = [] ∧
      ∀ place, e.node? place =
        if place = nativePlace then some (.file g.content) else d.node? place := by
  have found : d.staging.find? (·.serial = second.file.serial) = some g := by simp [held, ofSecond]
  have moved := runFrom_replaceFile nativeTo found
  rw [if_neg passes] at moved
  refine ⟨_, (runFrom_moveAll_cons_ok moved).trans rfl, ?_, node?_put nativeTo.inside⟩
  simp [held, ofSecond]

/-- Both files are moved into place when neither move fails. -/
theorem moveAll_moved (scriptTo : d.Destination first.path scriptPlace)
    (nativeTo : d.Destination second.path nativePlace) (held : d.staging = [f, g])
    (ofFirst : first.file.serial = f.serial) (ofSecond : second.file.serial = g.serial)
    (differ : f.serial ≠ g.serial) (passes : d.replaces ∉ d.failingReplaces)
    (passes' : d.replaces + 1 ∉ d.failingReplaces) :
    ∃ e, (Host.moveAll [] [first, second] : DiskM Unit).runFrom d = (.ok (), e) ∧
      e.staging = [] ∧ d.Written e scriptPlace nativePlace ⟨f.content, g.content⟩ := by
  obtain ⟨e, moved, -, nativeTo', held', -, -, next, sameFailing, nodes⟩ :=
    moveAll_first_moved scriptTo nativeTo held ofFirst differ passes
  obtain ⟨e', moved', clean, nodes'⟩ :=
    moveAll_second_moved first nativeTo' held' ofSecond (by rwa [next, sameFailing])
  refine ⟨e', moved.trans moved', clean, fun place => ?_⟩
  rw [nodes', nodes]

/-- When a move fails, so does moving, even if what was moved cannot be restored. -/
theorem moveAll_fails (scriptTo : d.Destination first.path scriptPlace)
    (nativeTo : d.Destination second.path nativePlace) (held : d.staging = [f, g])
    (ofFirst : first.file.serial = f.serial) (ofSecond : second.file.serial = g.serial)
    (differ : f.serial ≠ g.serial)
    (fails : ¬ (d.replaces ∉ d.failingReplaces ∧ d.replaces + 1 ∉ d.failingReplaces)) :
    ∃ error e, (Host.moveAll [] [first, second] : DiskM Unit).runFrom d = (.error error, e) := by
  by_cases first' : d.replaces ∈ d.failingReplaces
  · obtain ⟨error, e, failed, -⟩ := moveAll_first_fails scriptTo held ofFirst ofSecond first'
    exact ⟨error, e, failed⟩
  obtain ⟨e, moved, -, nativeTo', held', -, -, next, sameFailing, -⟩ :=
    moveAll_first_moved scriptTo nativeTo held ofFirst differ first'
  have second' : e.replaces ∈ e.failingReplaces := by
    rw [next, sameFailing]
    by_contra passes
    exact fails ⟨first', passes⟩
  have found : e.staging.find? (·.serial = second.file.serial) = some g := by simp [held', ofSecond]
  have refused := runFrom_replaceFile nativeTo' found
  rw [if_pos second'] at refused
  rcases undone : (Host.rollBack [first] [second] : DiskM Unit).runFrom
      { e with replaces := e.replaces + 1 } with ⟨failure | _, final⟩
  · exact ⟨failure, final, moved.trans (ExceptT.runFrom_bind_error
      ((ExceptT.runFrom_tryCatch_error refused).trans (ExceptT.runFrom_bind_error undone)))⟩
  · exact ⟨_, final, moved.trans (runFrom_moveAll_cons_error refused undone)⟩

/-- When a move fails, nothing is changed but the line ends of a script that was moved and
restored. -/
theorem moveAll_undone (scriptTo : d.Destination first.path scriptPlace)
    (nativeTo : d.Destination second.path nativePlace) (held : d.staging = [f, g])
    (ofFirst : first.file.serial = f.serial) (ofSecond : second.file.serial = g.serial)
    (differ : f.serial ≠ g.serial)
    (spared : first.previous ≠ none →
      d.writes ∉ d.failingWrites ∧ d.replaces + 2 ∉ d.failingReplaces)
    (previous : first.previous.map Node.file = (d.node? scriptPlace).map Node.unified)
    (fails : ¬ (d.replaces ∉ d.failingReplaces ∧ d.replaces + 1 ∉ d.failingReplaces)) :
    ∃ error e, (Host.moveAll [] [first, second] : DiskM Unit).runFrom d = (.error error, e) ∧
      e.staging = [] ∧ ∀ place, e.node? place =
        if place = scriptPlace ∧ d.replaces ∉ d.failingReplaces
        then (d.node? scriptPlace).map Node.unified else d.node? place := by
  by_cases fails₁ : d.replaces ∈ d.failingReplaces
  · obtain ⟨error, e, failed, clean, nodes⟩ :=
      moveAll_first_fails scriptTo held ofFirst ofSecond fails₁
    refine ⟨error, e, failed, clean, fun place => ?_⟩
    rw [if_neg fun both => both.2 fails₁]
    simp [node?, nodes]
  · have fails₂ : d.replaces + 1 ∈ d.failingReplaces := by
      by_contra passes
      exact fails ⟨fails₁, passes⟩
    obtain ⟨e, moved, scriptTo', nativeTo', held', sameWrites, sameFailing, next, sameFailing',
        nodes⟩ := moveAll_first_moved scriptTo nativeTo held ofFirst differ fails₁
    have there : e.node? scriptPlace = some (.file f.content) := by simp [nodes]
    obtain ⟨error, e', failed, clean, nodes'⟩ :=
      moveAll_second_fails scriptTo' nativeTo' held' ofSecond there (by rwa [next, sameFailing'])
        (by rwa [sameWrites, sameFailing, next, sameFailing'])
    refine ⟨error, e', moved.trans failed, clean, fun place => ?_⟩
    rw [nodes', nodes, previous]
    by_cases here : place = scriptPlace <;> simp [here, fails₁]

/-- Both files are moved into place, or neither is. -/
theorem moveAll_cases (scriptTo : d.Destination first.path scriptPlace)
    (nativeTo : d.Destination second.path nativePlace) (held : d.staging = [f, g])
    (ofFirst : first.file.serial = f.serial) (ofSecond : second.file.serial = g.serial)
    (differ : f.serial ≠ g.serial) (writes : d.writes ∉ d.failingWrites)
    (replaces : d.replaces + 2 ∉ d.failingReplaces)
    (previous : first.previous.map Node.file = (d.node? scriptPlace).map Node.unified) :
    ((d.replaces ∉ d.failingReplaces ∧ d.replaces + 1 ∉ d.failingReplaces) ∧
      ∃ e, (Host.moveAll [] [first, second] : DiskM Unit).runFrom d = (.ok (), e) ∧
        e.staging = [] ∧ d.Written e scriptPlace nativePlace ⟨f.content, g.content⟩) ∨
    (¬ (d.replaces ∉ d.failingReplaces ∧ d.replaces + 1 ∉ d.failingReplaces) ∧
      ∃ error e, (Host.moveAll [] [first, second] : DiskM Unit).runFrom d = (.error error, e) ∧
        e.staging = [] ∧ d.Undone e scriptPlace) := by
  by_cases passes : d.replaces ∉ d.failingReplaces ∧ d.replaces + 1 ∉ d.failingReplaces
  · exact .inl ⟨passes,
      moveAll_moved scriptTo nativeTo held ofFirst ofSecond differ passes.1 passes.2⟩
  · obtain ⟨error, e, failed, clean, nodes⟩ :=
      moveAll_undone scriptTo nativeTo held ofFirst ofSecond differ
        (fun _ => ⟨writes, replaces⟩) previous passes
    refine .inr ⟨passes, error, e, failed, clean, e.node? scriptPlace, ?_, fun place => ?_⟩
    · rw [nodes]
      split
      · exact .inr rfl
      · exact .inl rfl
    · split
      · rename_i here
        rw [here]
      · rename_i elsewhere
        rw [nodes, if_neg fun both => elsewhere both.1]

/-- What the destinations hold is read before anything is moved. -/
theorem runFrom_previous (staged : StagedFiles) (d : Disk) :
    (staged.mapM fun (file, path) => do
      return { file, path, previous := ← Host.previousContent path : Host.Move DiskM } :
        DiskM (List (Host.Move DiskM))).runFrom d =
      (staged.mapM fun x => (d.contentAt x.2).map fun previous => ⟨x.1, x.2, previous⟩, d) := by
  induction staged with
  | nil => rfl
  | cons x rest ih =>
    rw [List.mapM_cons, List.mapM_cons]
    have read := runFrom_previousContent x.2 d
    cases held : d.contentAt x.2 with
    | error error =>
      rw [held] at read
      exact ExceptT.runFrom_bind_error (ExceptT.runFrom_bind_error read)
    | ok previous =>
      rw [held] at read
      have made : (do
          let previous ← Host.previousContent x.2
          return ⟨x.1, x.2, previous⟩ : DiskM (Host.Move DiskM)).runFrom d =
          (.ok ⟨x.1, x.2, previous⟩, d) :=
        ExceptT.runFrom_bind_ok read
      refine (ExceptT.runFrom_bind_ok made).trans ?_
      rw [ExceptT.runFrom_bind, ih]
      cases rest.mapM fun x => (d.contentAt x.2).map fun previous =>
        (⟨x.1, x.2, previous⟩ : Host.Move DiskM) <;> rfl

theorem exists_runFrom_previous (scriptTo : d.Destination script scriptPlace)
    (nativeTo : d.Destination native nativePlace) :
    ∃ first second : Host.Move DiskM, first.file = f ∧ first.path = script ∧ second.file = g ∧
      second.path = native ∧ first.previous.map Node.file = (d.node? scriptPlace).map Node.unified ∧
      (([(f, script), (g, native)] : StagedFiles).mapM fun (file, path) => do
        return { file, path, previous := ← Host.previousContent path : Host.Move DiskM } :
          DiskM (List (Host.Move DiskM))).runFrom d = (.ok [first, second], d) := by
  obtain ⟨previous, read, holds⟩ := scriptTo.exists_contentAt
  obtain ⟨previous', read', -⟩ := nativeTo.exists_contentAt
  refine ⟨⟨f, script, previous⟩, ⟨g, native, previous'⟩, rfl, rfl, rfl, rfl, holds, ?_⟩
  rw [runFrom_previous, List.mapM_cons, List.mapM_cons, read, read']
  rfl

/-- Reading what the destinations hold fails when one of them is a directory, and only then. -/
theorem previous_cases (f g : StagingFile) (script native : Path) (d : Disk) :
    ((d.nodeAt script ≠ some .directory ∧ d.nodeAt native ≠ some .directory) ∧
      ∃ moves, (([(f, script), (g, native)] : StagedFiles).mapM fun (file, path) => do
        return { file, path, previous := ← Host.previousContent path : Host.Move DiskM } :
          DiskM (List (Host.Move DiskM))).runFrom d = (.ok moves, d)) ∨
    (¬ (d.nodeAt script ≠ some .directory ∧ d.nodeAt native ≠ some .directory) ∧
      ∃ error, (([(f, script), (g, native)] : StagedFiles).mapM fun (file, path) => do
        return { file, path, previous := ← Host.previousContent path : Host.Move DiskM } :
          DiskM (List (Host.Move DiskM))).runFrom d = (.error error, d)) := by
  rw [runFrom_previous, List.mapM_cons, List.mapM_cons, ← exists_contentAt_iff,
    ← exists_contentAt_iff]
  cases d.contentAt script with
  | error error => exact .inr ⟨by simp, error, rfl⟩
  | ok previous =>
    cases d.contentAt native with
    | error error => exact .inr ⟨by simp, error, rfl⟩
    | ok previous' => exact .inl ⟨by simp, _, rfl⟩

end Pair

end DiskM

end NativeBridge
