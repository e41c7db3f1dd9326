import NativeBridge.Proofs.Delivery

/-!
# What a failed call leaves

A call to write bindings that fails leaves every file as it was and nothing staged, with two
exceptions. A destination that is a directory is noticed only when both files are staged already,
and then they stay. And a script that was replaced before the second move failed comes back with its
line ends unified.
-/
namespace NativeBridge

theorem Text.unified_eq_iff {content : String} :
    unified content = content ↔ '\r' ∉ content.toList := by
  constructor
  · intro same member
    have toList : unifyNewlines content.toList = content.toList := by
      simpa [unified] using congrArg String.toList same
    rw [← toList] at member
    exact carriageReturn_not_mem_unifyNewlines content.toList member
  · intro none
    rw [unified, unifyNewlines_of_not_mem none, String.ofList_toList]

/-- Unifying the line ends of a file shows only where there is a carriage return. -/
theorem Node.map_unified_eq_iff {node : Option Node} :
    node.map Node.unified = node ↔
      ∀ content, node = some (.file content) → '\r' ∉ content.toList := by
  cases node with
  | none => simp
  | some node =>
    cases node with
    | directory => simp [Node.unified]
    | file content => simp [Node.unified, Text.unified_eq_iff]

namespace Disk

open DiskM

variable {d e : Disk} {base : Path} {script native : List String} {call : WriteCall}
    {error : StorageError}

/-- Both files of a call get staged: the base has a name, there is a place beside each destination,
and neither of the two writes fails. -/
structure Stages (d : Disk) (base : Path) (call : WriteCall) : Prop where
  named : base.name ≠ ""
  beside : ∀ path ∈ [Host.scriptPath base, Host.nativePath base],
    (d.locate (stagingPath path)).isOk = true
  writes : 0 ∉ call.failingWrites ∧ 1 ∉ call.failingWrites

/-- Neither destination of a base is a directory. -/
def Unblocked (d : Disk) (base : Path) : Prop :=
  d.nodeAt (Host.scriptPath base) ≠ some .directory ∧
    d.nodeAt (Host.nativePath base) ≠ some .directory

theorem stages_iff :
    d.Stages base call ↔
      base.name ≠ "" ∧ BothStageable (d.schedule call.failingReplaces call.failingWrites)
      (Host.scriptPath base) (Host.nativePath base) := by
  have both : (∀ path ∈ [Host.scriptPath base, Host.nativePath base],
      (d.locate (stagingPath path)).isOk = true) ↔
      (∃ beside, d.locate (stagingPath (Host.scriptPath base)) = .ok beside) ∧
        ∃ beside, d.locate (stagingPath (Host.nativePath base)) = .ok beside := by
    simp [except_isOk_iff]
  constructor
  · rintro ⟨named, beside, writes⟩
    exact ⟨named, both.1 beside, writes⟩
  · rintro ⟨named, located, writes⟩
    exact ⟨named, both.2 located, writes⟩

/-- A call that does not get both files staged leaves everything as it was. -/
theorem write_unstaged (parent : d.nodeAt base.parent = some .directory) (clean : d.staging = [])
    (unstaged : ¬ d.Stages base call) :
    ∃ error e, d.write base call = (.error error, e) ∧ e.staging = [] ∧ e.nodes = d.nodes := by
  set s : Disk := d.schedule call.failingReplaces call.failingWrites
  have begun : d.write base call = _ :=
    ExceptT.runFrom_bind_ok (ensureDirectories_of_directory (d := s) parent)
  by_cases named : base.name = ""
  · rw [if_pos named] at begun
    exact ⟨_, s, begun, clean, rfl⟩
  rw [if_neg named] at begun
  rcases stageAll_cases (d := s) clean (Host.scriptPath base) (Host.nativePath base)
      call.bindings.script call.bindings.native with
    ⟨-, error, e, clean', nodes, failed⟩ | ⟨stageable, -⟩
  · exact ⟨error, e, begun.trans (ExceptT.runFrom_bind_error failed), clean', nodes⟩
  · exact absurd (stages_iff.2 ⟨named, stageable⟩) unstaged

/-- A call that finds a directory at a destination leaves its two staging files. -/
theorem write_blocked (parent : d.nodeAt base.parent = some .directory) (clean : d.staging = [])
    (staged : d.Stages base call) (blocked : ¬ d.Unblocked base) :
    ∃ error e, d.write base call = (.error error, e) ∧ e.nodes = d.nodes ∧
      e.staging.map (·.content) = [call.bindings.script, call.bindings.native] := by
  set s : Disk := d.schedule call.failingReplaces call.failingWrites
  have begun : d.write base call = _ :=
    ExceptT.runFrom_bind_ok (ensureDirectories_of_directory (d := s) parent)
  rw [if_neg staged.named] at begun
  rcases stageAll_cases (d := s) clean (Host.scriptPath base) (Host.nativePath base)
      call.bindings.script call.bindings.native with
    ⟨unstageable, -⟩ | ⟨-, f, g, -, fHolds, gHolds, done⟩
  · exact absurd (stages_iff.1 staged).2 unstageable
  rcases previous_cases { f with content := "" } { g with content := "" } (Host.scriptPath base)
      (Host.nativePath base)
      { s with serial := s.serial + 2, writes := s.writes + 2, staging := [f, g] } with
    ⟨free, -⟩ | ⟨-, error, read⟩
  · exact absurd free blocked
  refine ⟨error, _,
    begun.trans ((ExceptT.runFrom_bind_ok done).trans (ExceptT.runFrom_bind_error read)), rfl, ?_⟩
  simp [fHolds, gHolds]

/-! ## Moves that fail -/

/-- A call with both files staged that fails at a move leaves everything as it was, except that a
script which it had replaced already has its line ends unified. -/
theorem Ready.write_undone (ready : d.Ready base script native)
    (spared : (∃ content, d.HoldsFile (Host.scriptPath base) content) → call.SparesRestoring)
    (writes : 0 ∉ call.failingWrites ∧ 1 ∉ call.failingWrites)
    (failed : d.write base call = (.error error, e)) :
    e.staging = [] ∧ ∀ place, e.node? place =
      if place = script ∧ 0 ∉ call.failingReplaces then (d.node? script).map Node.unified
      else d.node? place := by
  rcases ready.write_moves call with ⟨fails, -⟩ | ⟨-, s, f, g, first, second, moving⟩
  · exact absurd writes fails
  obtain rfl := moving.disk
  have restored : first.previous ≠ none → call.SparesRestoring := by
    intro some
    refine spared ?_
    have previous := moving.previous
    change first.previous.map Node.file = (d.node? script).map Node.unified at previous
    cases there : d.node? script with
    | none =>
      rw [there, Option.map_none, Option.map_eq_none_iff] at previous
      exact absurd previous some
    | some node =>
      cases node with
      | directory => exact absurd there ready.scriptTo.free
      | file content => exact ⟨content, script, ready.scriptTo.located, there⟩
  by_cases passes : 0 ∉ call.failingReplaces ∧ 1 ∉ call.failingReplaces
  · obtain ⟨e', moved, -⟩ := moveAll_moved moving.scriptTo moving.nativeTo rfl moving.ofFirst
      moving.ofSecond moving.differ passes.1 passes.2
    cases failed.symm.trans (moving.remains.trans (ExceptT.runFrom_bind_ok moved))
  · obtain ⟨error', e', undone, clean, nodes⟩ := moveAll_undone moving.scriptTo moving.nativeTo rfl
      moving.ofFirst moving.ofSecond moving.differ restored moving.previous passes
    cases failed.symm.trans (moving.remains.trans (ExceptT.runFrom_bind_error undone))
    exact ⟨clean, nodes⟩

/-! ## Calls that fail -/

/-- What is left by a failed call: nothing is changed; or two staging files stay because a
destination is a directory; or the script has been replaced and restored. -/
theorem failed_write_cases (parent : d.nodeAt base.parent = some .directory)
    (clean : d.staging = [])
    (spared : (∃ content, d.HoldsFile (Host.scriptPath base) content) → call.SparesRestoring)
    (failed : d.write base call = (.error error, e)) :
    (¬ d.Stages base call ∧ e.staging = [] ∧ ∀ place, e.node? place = d.node? place) ∨
    (d.Stages base call ∧ ¬ d.Unblocked base ∧ e.staging ≠ [] ∧ ∀ place,
      e.node? place = d.node? place) ∨
    (d.Stages base call ∧ d.Unblocked base ∧ e.staging = [] ∧
      ∃ script, d.locate (Host.scriptPath base) = .ok script ∧ ∀ place, e.node? place =
        if place = script ∧ 0 ∉ call.failingReplaces then (d.node? script).map Node.unified
        else d.node? place) := by
  by_cases staged : d.Stages base call
  · by_cases free : d.Unblocked base
    · obtain ⟨script, native, ready⟩ := exists_ready staged.named clean
        (ensureDirectories_of_directory parent) free.1 free.2 staged.beside
      obtain ⟨clean', nodes⟩ := ready.write_undone spared staged.writes failed
      exact .inr (.inr ⟨staged, free, clean', script, ready.scriptTo.located, nodes⟩)
    · obtain ⟨error', e', ran, nodes, holds⟩ := write_blocked parent clean staged free
      cases ran.symm.trans failed
      refine .inr (.inl ⟨staged, free, fun none => ?_, fun place => by simp [node?, nodes]⟩)
      simp [none] at holds
  · obtain ⟨error', e', ran, clean', nodes⟩ := write_unstaged parent clean staged
    cases ran.symm.trans failed
    exact .inl ⟨staged, clean', fun place => by simp [node?, nodes]⟩

theorem HoldsFile.of_locate {path : Path} {place : List String} {content : String}
    (h : d.HoldsFile path content) (located : d.locate path = .ok place) :
    d.node? place = some (.file content) := by
  obtain ⟨place', located', there⟩ := h
  cases located.symm.trans located'
  exact there

/-- A call that fails, and whose restoring is spared, has left every file as it was and nothing
staged, unless both files were staged and a destination is a directory, or the first move was made
over a script with a carriage return. Even then no file is changed but for the line ends of the
script, and nothing stays staged unless a destination is a directory. -/
theorem failed_write_undone_iff (parent : d.nodeAt base.parent = some .directory)
    (clean : d.staging = [])
    (spared : (∃ content, d.HoldsFile (Host.scriptPath base) content) → call.SparesRestoring)
    (failed : d.write base call = (.error error, e)) :
    ((∀ place, e.node? place = d.node? place) ∧ e.staging = [] ↔
      (d.Stages base call → d.Unblocked base ∧ (0 ∉ call.failingReplaces →
        ∀ content, d.HoldsFile (Host.scriptPath base) content → '\r' ∉ content.toList))) ∧
    (∀ place, Node.UpToLineEnds (d.node? place) (e.node? place) ∧
      (d.locate (Host.scriptPath base) ≠ .ok place → e.node? place = d.node? place)) ∧
    (d.Unblocked base → e.staging = []) := by
  rcases failed_write_cases parent clean spared failed with
    ⟨unstaged, clean', nodes⟩ | ⟨staged, blocked, held, nodes⟩ |
      ⟨staged, free, clean', script, located, nodes⟩
  · exact ⟨by simp [unstaged, clean', nodes],
      fun place => ⟨.inl (nodes place), fun _ => nodes place⟩, fun _ => clean'⟩
  · exact ⟨by simp [staged, blocked, held], fun place => ⟨.inl (nodes place), fun _ => nodes place⟩,
      fun free => absurd free blocked⟩
  · refine ⟨?_, fun place => ⟨?_, fun elsewhere => ?_⟩, fun _ => clean'⟩
    · simp only [clean', and_true, staged, free, true_and, forall_const]
      constructor
      · intro same moved content holds
        have restored := (nodes script).symm.trans (same script)
        rw [if_pos ⟨rfl, moved⟩] at restored
        exact Node.map_unified_eq_iff.1 restored content (holds.of_locate located)
      · intro plain place
        rw [nodes]
        split
        · rename_i restored
          obtain ⟨rfl, moved⟩ := restored
          exact Node.map_unified_eq_iff.2 fun content there =>
            plain moved content ⟨place, located, there⟩
        · rfl
    · rw [nodes]
      split
      · rename_i restored
        rw [restored.1]
        exact .inr rfl
      · exact .inl rfl
    · have notScript : place ≠ script := by
        rintro rfl
        exact elsewhere located
      rw [nodes, if_neg fun both => notScript both.1]

/-- The second move fails, and the script that was there comes back. -/
theorem old_script_restored :
    let base : Path := { parts := ["b"] }
    let d : Disk := { nodes := [(["b.js"], .file "one\ntwo\n"), (["c"], .directory)] }
    let call : WriteCall := { bindings := { script := "s", native := "n" }, failingReplaces := [1] }
    d.nodeAt base.parent = some .directory ∧ d.staging = [] ∧ call.SparesRestoring ∧
      (d.write base call).1 = .error (.device "disk full") ∧
      (∀ place, (d.write base call).2.node? place = d.node? place) ∧
        (d.write base call).2.staging = [] := by
  intro base d call
  have parent : d.nodeAt base.parent = some .directory := by decide +kernel
  have spared : call.SparesRestoring := by decide
  have fails : (d.write base call).1 = .error (.device "disk full") := by decide +kernel
  have holds : d.HoldsFile (Host.scriptPath base) "one\ntwo\n" :=
    ⟨["b.js"], by decide +kernel, by decide +kernel⟩
  have undone := failed_write_undone_iff parent rfl (fun _ => spared) (Prod.ext fails rfl)
  refine ⟨parent, rfl, spared, fails, undone.1.2 fun _ => ⟨?_, fun _ content found => ?_⟩⟩
  · exact ⟨by decide +kernel, by decide +kernel⟩
  · rw [found.unique holds]
    decide

/-- A carriage return is lost in a script that is restored, and a directory in the place of the
script makes both staging files stay. -/
theorem failed_write_leaves_traces :
    let base : Path := { parts := ["b"] }
    let call : WriteCall := { bindings := { script := "s", native := "n" }, failingReplaces := [1] }
    let old : Disk := { nodes := [(["b.js"], .file "one\r\ntwo")] }
    let taken : Disk := { nodes := [(["b.js"], .directory)] }
    call.SparesRestoring ∧
      (old.nodeAt base.parent = some .directory ∧ (old.write base call).1.isOk = false ∧
        old.node? ["b.js"] = some (.file "one\r\ntwo") ∧
        (old.write base call).2.node? ["b.js"] = some (.file "one\ntwo")) ∧
      (taken.nodeAt base.parent = some .directory ∧ (taken.write base call).1.isOk = false ∧
        taken.staging = [] ∧ (taken.write base call).2.staging.length = 2) := by
  decide +kernel

end Disk

end NativeBridge
