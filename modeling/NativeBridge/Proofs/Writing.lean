import NativeBridge.Proofs.Staging

/-!
# Writing two files together

What one call to write bindings does under every schedule of failures, and from it what is left
after any number of calls. The two destinations stay a pair: both hold what the last call that
returned has written, or both hold what was there before.
-/
namespace NativeBridge

/-! ## Calls -/

/-- A call to write bindings, with the numbers of its replacements and of its writes that fail. -/
structure WriteCall where
  bindings : Bindings
  failingReplaces : List Nat := []
  failingWrites : List Nat := []

namespace WriteCall

/-- Neither the two writes of a call nor its two moves fail. -/
def Undisturbed (call : WriteCall) : Prop :=
  (0 ∉ call.failingWrites ∧ 1 ∉ call.failingWrites) ∧
    0 ∉ call.failingReplaces ∧ 1 ∉ call.failingReplaces

/-- The write and the move that restoring makes, each the third of its kind, do not fail. -/
def SparesRestoring (call : WriteCall) : Prop :=
  2 ∉ call.failingWrites ∧ 2 ∉ call.failingReplaces

instance (call : WriteCall) : Decidable call.Undisturbed := inferInstanceAs (Decidable (_ ∧ _))

instance (call : WriteCall) : Decidable call.SparesRestoring := inferInstanceAs (Decidable (_ ∧ _))

end WriteCall

namespace Disk

open DiskM

variable {d e : Disk} {base : Path} {script native : List String} {call : WriteCall}

/-- How a call ends, and the disk that it leaves. -/
def write (base : Path) (d : Disk) (call : WriteCall) : Except StorageError (List Path) × Disk :=
  (Host.writeBindings call.bindings base : DiskM (List Path)).runFrom
    (d.schedule call.failingReplaces call.failingWrites)

/-- The directory of a base is there, nothing is staged, and both files can be written. -/
structure Ready (d : Disk) (base : Path) (script native : List String) : Prop where
  named : base.name ≠ ""
  parent : d.nodeAt base.parent = some .directory
  clean : d.staging = []
  scriptTo : d.Destination (Host.scriptPath base) script
  nativeTo : d.Destination (Host.nativePath base) native
  apart : script ≠ native

/-- What is left to do once both files are staged: `f` and `g` are moved to where `first` and
`second` say. -/
structure Moving (d : Disk) (base : Path) (script native : List String)
    (call : WriteCall) (s : Disk) (f g : StagingFile) (first second : Host.Move DiskM) : Prop where
  disk : s = { d.schedule call.failingReplaces call.failingWrites with
    serial := d.serial + 2, writes := 2, staging := [f, g] }
  scriptTo : s.Destination first.path script
  nativeTo : s.Destination second.path native
  ofFirst : first.file.serial = f.serial
  ofSecond : second.file.serial = g.serial
  differ : f.serial ≠ g.serial
  holds : (⟨f.content, g.content⟩ : Bindings) = call.bindings
  previous : first.previous.map Node.file = (s.node? script).map Node.unified
  remains : d.write base call = ExceptT.runFrom
    (Host.moveAll [] [first, second] >>= fun _ =>
      pure ((Host.outputs call.bindings base).map (·.1)) :
      DiskM (List Path)) s

/-- Both files are staged, or a write has failed and nothing is changed. -/
theorem Ready.write_moves (ready : d.Ready base script native) (call : WriteCall) :
    (¬ (0 ∉ call.failingWrites ∧ 1 ∉ call.failingWrites) ∧
      ∃ error e, d.write base call = (.error error, e) ∧ e.staging = [] ∧ e.nodes = d.nodes) ∨
    ((0 ∉ call.failingWrites ∧ 1 ∉ call.failingWrites) ∧
      ∃ s f g first second, d.Moving base script native call s f g first second) := by
  set s : Disk := d.schedule call.failingReplaces call.failingWrites
  have opened : (Host.ensureDirectories base.parent : DiskM Unit).runFrom s = (.ok (), s) :=
    ensureDirectories_of_directory (d := s) ready.parent
  have begun : d.write base call = _ := ExceptT.runFrom_bind_ok opened
  rw [if_neg ready.named] at begun
  have scriptTo : s.Destination (Host.scriptPath base) script := ready.scriptTo.of_nodes rfl
  have nativeTo : s.Destination (Host.nativePath base) native := ready.nativeTo.of_nodes rfl
  rcases stageAll_cases (d := s) ready.clean (Host.scriptPath base) (Host.nativePath base)
      call.bindings.script call.bindings.native with
    ⟨fails, error, e, clean, nodes, failed⟩ | ⟨⟨-, passes⟩, f, g, differ, fHolds, gHolds, staged⟩
  · refine .inl ⟨fun passes => ?_, error, e, begun.trans (ExceptT.runFrom_bind_error failed), clean,
      nodes⟩
    exact fails ⟨⟨scriptTo.stageable, nativeTo.stageable⟩, passes⟩
  set s' : Disk := { s with serial := s.serial + 2, writes := s.writes + 2, staging := [f, g] }
  have scriptTo' : s'.Destination (Host.scriptPath base) script := scriptTo.of_nodes rfl
  have nativeTo' : s'.Destination (Host.nativePath base) native := nativeTo.of_nodes rfl
  obtain ⟨first, second, ofFirst, toFirst, ofSecond, toSecond, previous, read⟩ :=
    exists_runFrom_previous (f := { f with content := "" }) (g := { g with content := "" })
      scriptTo' nativeTo'
  refine .inr ⟨passes, s', f, g, first, second, ?_⟩
  exact
    { disk := rfl
      scriptTo := toFirst ▸ scriptTo'
      nativeTo := toSecond ▸ nativeTo'
      ofFirst := by rw [ofFirst]
      ofSecond := by rw [ofSecond]
      differ := differ
      holds := by rw [fHolds, gHolds]
      previous := previous
      remains :=
        begun.trans ((ExceptT.runFrom_bind_ok staged).trans (ExceptT.runFrom_bind_ok read)) }

theorem Ready.write_cases (ready : d.Ready base script native) (spared : call.SparesRestoring) :
    (call.Undisturbed ∧ ∃ paths e, d.write base call = (.ok paths, e) ∧ e.staging = [] ∧
      d.Written e script native call.bindings) ∨
    (¬ call.Undisturbed ∧ ∃ error e, d.write base call = (.error error, e) ∧ e.staging = [] ∧
      d.Undone e script) := by
  rcases ready.write_moves call with
    ⟨fails, error, e, failed, clean, nodes⟩ | ⟨passes, s, f, g, first, second, moving⟩
  · exact .inr ⟨fun undisturbed => fails undisturbed.1, error, e, failed, clean,
      undone_of_nodes nodes⟩
  obtain rfl := moving.disk
  rcases moveAll_cases moving.scriptTo moving.nativeTo rfl moving.ofFirst moving.ofSecond
      moving.differ spared.1 spared.2 moving.previous with
    ⟨passes', e, moved, clean, written⟩ | ⟨fails, error, e, failed, clean, undone⟩
  · rw [moving.holds] at written
    exact .inl ⟨⟨passes, passes'⟩, _, e, moving.remains.trans (ExceptT.runFrom_bind_ok moved),
      clean, written⟩
  · exact .inr ⟨fun undisturbed => fails undisturbed.2, error, e,
      moving.remains.trans (ExceptT.runFrom_bind_error failed), clean, undone⟩

/-- Whether a call returns does not depend on restoring, and one that returns has written both
files. -/
theorem Ready.write_iff_undisturbed (ready : d.Ready base script native) (call : WriteCall) :
    (call.Undisturbed ∧ ∃ paths e, d.write base call = (.ok paths, e) ∧ e.staging = [] ∧
      d.Written e script native call.bindings) ∨
    (¬ call.Undisturbed ∧ ∃ error e, d.write base call = (.error error, e)) := by
  rcases ready.write_moves call with
    ⟨fails, error, e, failed, -⟩ | ⟨passes, s, f, g, first, second, moving⟩
  · exact .inr ⟨fun undisturbed => fails undisturbed.1, error, e, failed⟩
  obtain rfl := moving.disk
  by_cases passes' : 0 ∉ call.failingReplaces ∧ 1 ∉ call.failingReplaces
  · obtain ⟨e, moved, clean, written⟩ := moveAll_moved moving.scriptTo moving.nativeTo rfl
      moving.ofFirst moving.ofSecond moving.differ passes'.1 passes'.2
    rw [moving.holds] at written
    exact .inl ⟨⟨passes, passes'⟩, _, e, moving.remains.trans (ExceptT.runFrom_bind_ok moved),
      clean, written⟩
  · obtain ⟨error, e, failed⟩ := moveAll_fails moving.scriptTo moving.nativeTo rfl moving.ofFirst
      moving.ofSecond moving.differ passes'
    exact .inr ⟨fun undisturbed => passes' undisturbed.2, error, e,
      moving.remains.trans (ExceptT.runFrom_bind_error failed)⟩

theorem Ready.isOk_write_iff (ready : d.Ready base script native) (spared : call.SparesRestoring) :
    (d.write base call).1.isOk = true ↔ call.Undisturbed := by
  rcases ready.write_cases spared with
    ⟨undisturbed, paths, e, ran, -⟩ | ⟨disturbed, error, e, ran, -⟩
  · simp [ran, undisturbed, except_isOk_iff]
  · simp [ran, disturbed, except_isOk_iff]

/-- Changes at the two destinations lead no path astray. -/
theorem Ready.keeps (ready : d.Ready base script native)
    (elsewhere : ∀ place, place ≠ script → place ≠ native → e.node? place = d.node? place) :
    d.Keeps e := by
  intro place directory
  have notScript : place ≠ script := fun same => ready.scriptTo.free (same ▸ directory)
  have notNative : place ≠ native := fun same => ready.nativeTo.free (same ▸ directory)
  rw [elsewhere place notScript notNative, directory]

theorem Ready.of_change (ready : d.Ready base script native)
    (elsewhere : ∀ place, place ≠ script → place ≠ native → e.node? place = d.node? place)
    (scriptFree : e.node? script ≠ some .directory) (nativeFree : e.node? native ≠ some .directory)
    (clean : e.staging = []) : e.Ready base script native := by
  have keeps := ready.keeps elsewhere
  exact
    { named := ready.named
      parent := keeps.directoryAt ready.parent
      clean := clean
      scriptTo := ready.scriptTo.of_keeps keeps scriptFree
      nativeTo := ready.nativeTo.of_keeps keeps nativeFree
      apart := ready.apart }

theorem Ready.of_written {bindings : Bindings} (ready : d.Ready base script native)
    (written : d.Written e script native bindings) (clean : e.staging = []) :
    e.Ready base script native := by
  refine ready.of_change (fun place notScript notNative => ?_) ?_ ?_ clean
  · simp [written place, notScript, notNative]
  · simp [written script, ready.apart]
  · simp [written native]

theorem Ready.of_undone (ready : d.Ready base script native) (undone : d.Undone e script)
    (clean : e.staging = []) : e.Ready base script native := by
  obtain ⟨node, previous, nodes⟩ := undone
  refine ready.of_change (fun place notScript _ => ?_) ?_ ?_ clean
  · simp [nodes place, notScript]
  · rw [nodes script, if_pos rfl]
    have free := ready.scriptTo.free
    rcases previous with same | renewed
    · rwa [same]
    · rw [renewed]
      cases there : d.node? script with
      | none => simp
      | some old =>
        cases old with
        | directory => exact absurd there free
        | file content => simp [Node.unified]
  · rw [nodes native, if_neg ready.apart.symm]
    exact ready.nativeTo.free

/-- Where a staging file can be named, so can its target, for its name is shorter. -/
theorem destination_of_stageable {home beside : List String} {name : String}
    (parent : d.locate base.parent = .ok home) (directory : d.node? home = some .directory)
    (free : d.nodeAt (base.withName name) ≠ some .directory)
    (staging : d.locate (stagingPath (base.withName name)) = .ok beside) (plain : name ≠ "..") :
    d.Destination (base.withName name) (home ++ [name]) := by
  have staging' : d.locate (base.withName (stagingName name "********")) = .ok beside := by
    rwa [stagingPath, Path.withName_withName, Path.name_withName] at staging
  have spelled : stagingName name "********" = "." ++ name ++ "." ++ "********" ++ ".tmp" := rfl
  have located : d.locate (base.withName name) = .ok (home ++ [name]) := by
    refine locate_withName parent directory staging' ?_ plain ?_
    · simp only [spelled, String.utf8ByteSize_append]
      omega
    · intro null
      simp [spelled, null]
  refine ⟨located, ?_, beside, staging⟩
  rwa [nodeAt, located] at free

/-- Once the directory of a base has been made, the base can be written to. -/
theorem exists_ready {opened : Disk} (named : base.name ≠ "") (clean : d.staging = [])
    (opens : (Host.ensureDirectories base.parent : DiskM Unit).runFrom d = (.ok (), opened))
    (scriptFree : opened.nodeAt (Host.scriptPath base) ≠ some .directory)
    (nativeFree : opened.nodeAt (Host.nativePath base) ≠ some .directory)
    (stageable : ∀ path ∈ [Host.scriptPath base, Host.nativePath base],
      (opened.locate (stagingPath path)).isOk = true) :
    ∃ script native, opened.Ready base script native := by
  obtain ⟨grown, made⟩ := grown_of_ensureDirectories opens
  obtain ⟨home, located, directory⟩ := nodeAt_eq_some_iff.1 made
  obtain ⟨scriptBeside, scriptStaging⟩ :=
    except_isOk_iff.1 (stageable (Host.scriptPath base) (by simp))
  obtain ⟨nativeBeside, nativeStaging⟩ :=
    except_isOk_iff.1 (stageable (Host.nativePath base) (by simp))
  have longer : ∀ suffix : String, 2 < suffix.length → base.name ++ suffix ≠ ".." := by
    intro suffix long same
    have lengths := congrArg String.length same
    simp only [String.length_append] at lengths
    have : "..".length = 2 := rfl
    omega
  have scriptTo := destination_of_stageable located directory scriptFree scriptStaging
    (longer ".js" (by decide))
  have nativeTo := destination_of_stageable located directory nativeFree nativeStaging
    (longer ".cpp" (by decide))
  refine ⟨_, _, named, made, ?_, scriptTo, nativeTo, ?_⟩
  · rw [grown.rest]
    exact clean
  · intro same
    simp at same

/-- The first call makes the directory, and what follows is as if it had been there. -/
theorem write_eq_of_opens {opened : Disk}
    (opens : (Host.ensureDirectories base.parent : DiskM Unit).runFrom d = (.ok (), opened))
    (call : WriteCall) : d.write base call = opened.write base call := by
  have made := (grown_of_ensureDirectories opens).2
  have first :=
    ignoresSchedule_ensureDirectories base.parent d call.failingReplaces call.failingWrites
  rw [opens] at first
  have again := ensureDirectories_of_directory
    (d := opened.schedule call.failingReplaces call.failingWrites) made
  have fromStart : d.write base call = _ := ExceptT.runFrom_bind_ok first
  have fromOpened : opened.write base call = _ := ExceptT.runFrom_bind_ok again
  exact fromStart.trans fromOpened.symm

end Disk

/-! ## Runs -/

/-- Calls made one after another: the disk that they leave, and what the last call that returned has
written. -/
structure WriteRun where
  disk : Disk
  last : Option Bindings := none

namespace WriteRun

def next (base : Path) (run : WriteRun) (call : WriteCall) : WriteRun :=
  match run.disk.write base call with
  | (.ok _, disk) => { disk, last := some call.bindings }
  | (.error _, disk) => { run with disk }

/-- A disk holds the pair of the last call that returned, or the first pair, the script up to its
line ends, and nothing else is changed. -/
structure HoldsPair (d : Disk) (script native : List String) (run : WriteRun) : Prop where
  nativeHeld : run.disk.node? native = (run.last.map (Node.file ·.native)).or (d.node? native)
  scriptHeld : Node.UpToLineEnds ((run.last.map (Node.file ·.script)).or (d.node? script))
    (run.disk.node? script)
  elsewhere : ∀ place, place ≠ script → place ≠ native → run.disk.node? place = d.node? place

variable {d : Disk} {base : Path} {script native : List String} {run : WriteRun} {call : WriteCall}

theorem HoldsPair.next (holds : HoldsPair d script native run)
    (ready : run.disk.Ready base script native) (spared : call.SparesRestoring) :
    HoldsPair d script native (run.next base call) ∧
      (run.next base call).disk.Ready base script native := by
  rcases ready.write_cases spared with
    ⟨-, paths, e, ran, clean, written⟩ | ⟨-, error, e, ran, clean, undone⟩
  · have after : run.next base call = { disk := e, last := some call.bindings } := by
      simp [WriteRun.next, ran]
    rw [after]
    refine ⟨⟨?_, .inl ?_, fun place notScript notNative => ?_⟩, ready.of_written written clean⟩
    · simp [written native]
    · simp [written script, ready.apart]
    · simp [written place, notScript, notNative, holds.elsewhere place notScript notNative]
  · have after : run.next base call = { run with disk := e } := by
      simp [WriteRun.next, ran]
    rw [after]
    refine ⟨?_, ready.of_undone undone clean⟩
    obtain ⟨node, previous, nodes⟩ := undone
    refine ⟨?_, ?_, fun place notScript notNative => ?_⟩
    · simp [nodes native, ready.apart.symm, holds.nativeHeld]
    · rw [nodes script, if_pos rfl]
      exact holds.scriptHeld.trans previous
    · simp [nodes place, notScript, holds.elsewhere place notScript notNative]

theorem HoldsPair.foldl (holds : HoldsPair d script native run)
    (ready : run.disk.Ready base script native) (calls : List WriteCall)
    (spared : ∀ call ∈ calls, call.SparesRestoring) :
    HoldsPair d script native (calls.foldl (WriteRun.next base) run) ∧
      (calls.foldl (WriteRun.next base) run).disk.Ready base script native := by
  induction calls generalizing run with
  | nil => exact ⟨holds, ready⟩
  | cons call rest ih =>
    obtain ⟨holds', ready'⟩ := holds.next ready (spared call (by simp))
    exact ih holds' ready' fun later member => spared later (by simp [member])

end WriteRun

namespace Disk

open DiskM

variable {d opened : Disk} {base : Path}

def writeAll (base : Path) (d : Disk) (calls : List WriteCall) : WriteRun :=
  calls.foldl (WriteRun.next base) { disk := d }

theorem writeAll_cons_of_opens
    (opens : (Host.ensureDirectories base.parent : DiskM Unit).runFrom d = (.ok (), opened))
    (call : WriteCall) (rest : List WriteCall) :
    d.writeAll base (call :: rest) = opened.writeAll base (call :: rest) := by
  have first :
      WriteRun.next base { disk := d } call = WriteRun.next base { disk := opened } call := by
    simp only [WriteRun.next, write_eq_of_opens opens]
  simp only [writeAll, List.foldl_cons, first]

theorem writeAll_concat_of_opens
    (opens : (Host.ensureDirectories base.parent : DiskM Unit).runFrom d = (.ok (), opened))
    (calls : List WriteCall) (call : WriteCall) :
    d.writeAll base (calls ++ [call]) = opened.writeAll base (calls ++ [call]) := by
  cases calls with
  | nil => exact writeAll_cons_of_opens opens call []
  | cons first rest => exact writeAll_cons_of_opens opens first (rest ++ [call])

theorem write_after_of_opens
    (opens : (Host.ensureDirectories base.parent : DiskM Unit).runFrom d = (.ok (), opened))
    (calls : List WriteCall) (call : WriteCall) :
    (d.writeAll base calls).disk.write base call =
      (opened.writeAll base calls).disk.write base call := by
  cases calls with
  | nil => exact write_eq_of_opens opens call
  | cons first rest => rw [writeAll_cons_of_opens opens]

/-- Whatever fails in calls that write to one base, restoring apart, after every call the two files
are those of the last call that returned, or those of the start. A call returns when neither its two
writes nor its two moves fail. Nothing stays staged, and elsewhere only directories on the way to
the base are new. -/
theorem outputs_stay_paired (named : base.name ≠ "") (clean : d.staging = [])
    (opens : (Host.ensureDirectories base.parent : DiskM Unit).runFrom d = (.ok (), opened))
    (scriptFree : opened.nodeAt (Host.scriptPath base) ≠ some .directory)
    (nativeFree : opened.nodeAt (Host.nativePath base) ≠ some .directory)
    (stageable : ∀ path ∈ [Host.scriptPath base, Host.nativePath base],
      (opened.locate (stagingPath path)).isOk = true)
    (calls : List WriteCall) (call : WriteCall)
    (spared : ∀ made ∈ calls ++ [call], made.SparesRestoring) :
    let run := d.writeAll base (calls ++ [call])
    (((d.writeAll base calls).disk.write base call).1.isOk = true ↔ call.Undisturbed) ∧
    run.disk.staging = [] ∧
    ∃ script native, run.disk.locate (Host.scriptPath base) = .ok script ∧
      run.disk.locate (Host.nativePath base) = .ok native ∧
      run.disk.node? native = (run.last.map (Node.file ·.native)).or (d.node? native) ∧
      Node.UpToLineEnds ((run.last.map (Node.file ·.script)).or (d.node? script))
        (run.disk.node? script) ∧
      ∀ place, place ≠ script → place ≠ native → run.disk.node? place = d.node? place ∨
        (d.node? place = none ∧ run.disk.node? place = some .directory ∧
          run.disk.OnTheWay base.parent place) := by
  intro run
  obtain ⟨script, native, ready⟩ := exists_ready named clean opens scriptFree nativeFree stageable
  have start : WriteRun.HoldsPair opened script native { disk := opened } :=
    ⟨rfl, .inl rfl, fun _ _ _ => rfl⟩
  have grown := (grown_of_ensureDirectories opens).1
  have scriptSame := grown.node?_eq ready.scriptTo.free
  have nativeSame := grown.node?_eq ready.nativeTo.free
  obtain ⟨-, before⟩ := start.foldl ready calls fun made member => spared made (by simp [member])
  obtain ⟨holds, after⟩ := start.foldl ready (calls ++ [call]) spared
  have sameRun : run = opened.writeAll base (calls ++ [call]) :=
    writeAll_concat_of_opens opens calls call
  rw [write_after_of_opens opens, sameRun]
  refine ⟨before.isOk_write_iff (spared call (by simp)), after.clean, script, native,
    after.scriptTo.located, after.nativeTo.located, ?_, ?_, fun place notScript notNative => ?_⟩
  · rw [← nativeSame]
    exact holds.nativeHeld
  · rw [← scriptSame]
    exact holds.scriptHeld
  · have same := holds.elsewhere place notScript notNative
    rcases grown.nodes place with unchanged | ⟨absent, made, onTheWay⟩
    · exact .inl (same.trans unchanged)
    · exact .inr ⟨absent, same.trans made, (ready.keeps holds.elsewhere).onTheWay onTheWay⟩

/-- The second call fails at its second move, and the first pair comes back. -/
theorem outputs_stay_paired_after_failed_move :
    let base : Path := { parts := ["out", "x"] }
    let first : WriteCall := { bindings := { script := "one\r\n", native := "1" } }
    let second : WriteCall :=
      { bindings := { script := "two", native := "2" }, failingReplaces := [1] }
    let run := ({} : Disk).writeAll base [first, second]
    (((({} : Disk).writeAll base [first]).disk.write base second).1.isOk = true ↔
      second.Undisturbed) ∧
    run.disk.staging = [] ∧
    ∃ script native, run.disk.locate (Host.scriptPath base) = .ok script ∧
      run.disk.locate (Host.nativePath base) = .ok native ∧
      run.disk.node? native = (run.last.map (Node.file ·.native)).or (({} : Disk).node? native) ∧
      Node.UpToLineEnds ((run.last.map (Node.file ·.script)).or (({} : Disk).node? script))
        (run.disk.node? script) ∧
      ∀ place, place ≠ script → place ≠ native → run.disk.node? place = ({} : Disk).node? place ∨
        (({} : Disk).node? place = none ∧ run.disk.node? place = some .directory ∧
          run.disk.OnTheWay base.parent place) := by
  intro base first second
  have opens : (Host.ensureDirectories base.parent : DiskM Unit).runFrom {} =
      (.ok (), ((Host.ensureDirectories base.parent : DiskM Unit).runFrom {}).2) :=
    Prod.ext (by decide +kernel) rfl
  exact outputs_stay_paired (by decide) rfl opens (by decide +kernel) (by decide +kernel)
    (by decide +kernel) [first] second (by decide)

/-- Making the directory of a base can put a directory where the script is to go: then a call
without a failing write or move does not return, and both its staging files stay. -/
theorem write_fails_at_directory_made_on_the_way :
    let base : Path := { parts := ["x.js", "..", "x"] }
    let call : WriteCall := { bindings := { script := "s", native := "n" } }
    let d : Disk := {}
    let opening := (Host.ensureDirectories base.parent : DiskM Unit).runFrom d
    base.name ≠ "" ∧ d.nodeAt (Host.scriptPath base) ≠ some .directory ∧
      d.nodeAt (Host.nativePath base) ≠ some .directory ∧ opening.1.isOk = true ∧
      (∀ path ∈ [Host.scriptPath base, Host.nativePath base],
        (opening.2.locate (stagingPath path)).isOk = true) ∧
      call.SparesRestoring ∧ call.Undisturbed ∧ (d.write base call).1.isOk = false ∧
      (d.write base call).2.staging.length = 2 := by
  decide +kernel

end Disk

end NativeBridge
