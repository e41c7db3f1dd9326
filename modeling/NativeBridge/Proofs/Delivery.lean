import NativeBridge.Proofs.CommandLine
import NativeBridge.Proofs.RoundTrip
import NativeBridge.Proofs.Writing

/-!
# Running a command line

What a command line leaves on a disk, from its words to the files. A run that ends well has put the
two texts of the input where the command line says, and one that cannot make them leaves everything
as it was. This holds for every disk and for every schedule of failures.
-/
namespace NativeBridge

/-! ## Reading -/

namespace Disk

variable {d : Disk} {path : Path}

/-- A path leads to a file with some content. -/
def HoldsFile (d : Disk) (path : Path) (content : String) : Prop :=
  ∃ place, d.locate path = .ok place ∧ d.node? place = some (.file content)

theorem HoldsFile.unique {content content' : String} (h : d.HoldsFile path content)
    (h' : d.HoldsFile path content') : content = content' := by
  obtain ⟨place, located, there⟩ := h
  obtain ⟨place', located', there'⟩ := h'
  cases located.symm.trans located'
  cases there.symm.trans there'
  rfl

theorem ofHost_of_enter {start : List String} {part : String} {error : StorageError}
    (failed : d.enter path start part = .error error) : error.ofHost = true := by
  simp only [enter] at failed
  split at failed
  · split at failed
    · cases failed
      rfl
    · cases failed
  · cases failed
    rfl
  · cases failed
    rfl

theorem ofHost_of_walk {start parts : List String} {error : StorageError}
    (failed : parts.foldlM (d.enter path) start = .error error) : error.ofHost = true := by
  induction parts generalizing start with
  | nil => cases failed
  | cons part parts ih =>
    rw [List.foldlM_cons] at failed
    cases entered : d.enter path start part with
    | ok next =>
      rw [entered] at failed
      exact ih failed
    | error cause =>
      rw [entered] at failed
      cases failed
      exact ofHost_of_enter entered

/-- Looking up a path fails because of the host, unless a null character stands in it. -/
theorem ofHost_of_locate {error : StorageError} (failed : d.locate path = .error error) :
    error.ofHost = !path.hasNull := by
  rw [locate] at failed
  cases null : path.hasNull with
  | true =>
    rw [if_pos null] at failed
    cases failed
    rfl
  | false =>
    rw [if_neg (by simp [null])] at failed
    split at failed
    · cases failed
      rfl
    · exact ofHost_of_walk failed

end Disk

namespace DiskM

open Disk

variable {d : Disk}

/-- A file is read, or there is none. Nothing is changed. -/
theorem readFile_cases (path : Path) (d : Disk) :
    (∃ content, d.HoldsFile path content ∧ (readFile path).runFrom d = (.ok content, d)) ∨
    ∃ error, (∀ content, ¬ d.HoldsFile path content) ∧ error.ofHost = !path.hasNull ∧
      (readFile path).runFrom d = (.error error, d) := by
  cases located : d.locate path with
  | error error =>
    have absent : ∀ content, ¬ d.HoldsFile path content := by
      rintro content ⟨place, found, -⟩
      rw [located] at found
      cases found
    refine .inr ⟨error, absent, ofHost_of_locate located, ?_⟩
    exact ExceptT.runFrom_bind_error (by rw [runFrom_place, located])
  | ok place =>
    have plain := (locate_eq_ok_iff.1 located).1
    have opened : (readFile path).runFrom d = _ :=
      (runFrom_place_bind located).trans (ExceptT.runFrom_bind_ok (ExceptT.runFrom_get d))
    have found : ∀ content, d.HoldsFile path content → d.node? place = some (.file content) := by
      rintro content ⟨other, located', there⟩
      rw [located] at located'
      cases located'
      exact there
    cases there : d.node? place with
    | none =>
      rw [there] at opened found
      have absent : ∀ content, ¬ d.HoldsFile path content := fun content holds => by
        cases found content holds
      exact .inr ⟨.notFound path.text, absent, by rw [plain]; rfl, opened⟩
    | some node =>
      rw [there] at opened found
      cases node with
      | directory =>
        have absent : ∀ content, ¬ d.HoldsFile path content := fun content holds => by
          cases found content holds
        exact .inr ⟨.isADirectory path.text, absent, by rw [plain]; rfl, opened⟩
      | file content => exact .inl ⟨content, ⟨place, located, there⟩, opened⟩

end DiskM

namespace Disk

open DiskM

variable {d e : Disk} {base : Path} {call : WriteCall} {paths : List Path}

/-- A call that returns has found the directory of its base, or made it, and both destinations
free. -/
theorem exists_ready_of_write (clean : d.staging = []) (ran : d.write base call = (.ok paths, e)) :
    ∃ opened script native,
      (Host.ensureDirectories base.parent : DiskM Unit).runFrom d = (.ok (), opened) ∧
      opened.Ready base script native := by
  obtain ⟨_, start, opens, rest⟩ := ExceptT.runFrom_bind_eq_ok_iff.1 ran
  have scheduled := ignoresSchedule_ensureDirectories base.parent d call.failingReplaces
    call.failingWrites
  rw [opens] at scheduled
  rcases first : (Host.ensureDirectories base.parent : DiskM Unit).runFrom d with
    ⟨failure | _, opened⟩
  · rw [first] at scheduled
    cases scheduled
  rw [first] at scheduled
  have same : start = opened.schedule call.failingReplaces call.failingWrites :=
    congrArg Prod.snd scheduled
  have named : base.name ≠ "" := by
    intro empty
    rw [if_pos empty] at rest
    cases rest
  rw [if_neg named] at rest
  have clean' : start.staging = [] := by
    rw [same]
    change opened.staging = []
    rw [(grown_of_ensureDirectories first).1.rest]
    exact clean
  obtain ⟨staged, held, stages, rest⟩ := ExceptT.runFrom_bind_eq_ok_iff.1 rest
  rcases stageAll_cases clean' (Host.scriptPath base) (Host.nativePath base) call.bindings.script
      call.bindings.native with
    ⟨-, error, _, -, -, failed⟩ | ⟨⟨stageable, -⟩, f, g, -, -, -, done⟩
  · cases failed.symm.trans stages
  have same' := done.symm.trans stages
  simp only [Prod.mk.injEq, Except.ok.injEq] at same'
  obtain ⟨rfl, rfl⟩ := same'
  obtain ⟨moves, _, reads, -⟩ := ExceptT.runFrom_bind_eq_ok_iff.1 rest
  rcases previous_cases { f with content := "" } { g with content := "" } (Host.scriptPath base)
      (Host.nativePath base) _ with ⟨free, -⟩ | ⟨-, error, failed⟩
  swap
  · cases failed.symm.trans reads
  subst same
  have beside : ∀ path ∈ [Host.scriptPath base, Host.nativePath base],
      (opened.locate (stagingPath path)).isOk = true := by
    refine List.forall_mem_cons.2 ⟨except_isOk_iff.2 stageable.1, ?_⟩
    exact List.forall_mem_singleton.2 (except_isOk_iff.2 stageable.2)
  obtain ⟨script, native, ready⟩ := exists_ready named clean first free.1 free.2 beside
  exact ⟨opened, script, native, rfl, ready⟩

/-- The files of some bindings are in place, nothing is staged, and elsewhere only directories on
the way to the base are new. -/
structure Delivered (d e : Disk) (base : Path) (bindings : Bindings) : Prop where
  clean : e.staging = []
  files : ∃ script native, e.locate (Host.scriptPath base) = .ok script ∧
    e.locate (Host.nativePath base) = .ok native ∧
    e.node? script = some (.file bindings.script) ∧ e.node? native = some (.file bindings.native) ∧
    ∀ place, place ≠ script → place ≠ native → e.node? place = d.node? place ∨
      (d.node? place = none ∧ e.node? place = some .directory ∧ e.OnTheWay base.parent place)

/-- A call that returns has delivered its bindings, whatever the schedule says about restoring. -/
theorem delivered_of_write (clean : d.staging = []) (ran : d.write base call = (.ok paths, e)) :
    d.Delivered e base call.bindings := by
  obtain ⟨opened, script, native, opens, ready⟩ := exists_ready_of_write clean ran
  have grown := (grown_of_ensureDirectories opens).1
  rw [write_eq_of_opens opens] at ran
  rcases ready.write_iff_undisturbed call with
    ⟨-, paths', e', ran', clean', written⟩ | ⟨-, error, e', failed⟩
  · cases ran'.symm.trans ran
    have after := ready.of_written written clean'
    have elsewhere : ∀ place, place ≠ script → place ≠ native →
        e.node? place = opened.node? place := by
      intro place notScript notNative
      rw [written, if_neg notNative, if_neg notScript]
    refine ⟨clean', script, native, after.scriptTo.located, after.nativeTo.located, ?_, ?_, ?_⟩
    · rw [written, if_neg ready.apart, if_pos rfl]
    · rw [written, if_pos rfl]
    · intro place notScript notNative
      rw [elsewhere place notScript notNative]
      rcases grown.nodes place with same | ⟨absent, made, onTheWay⟩
      · exact .inl same
      · exact .inr ⟨absent, made, (ready.keeps elsewhere).onTheWay onTheWay⟩
  · cases failed.symm.trans ran

end Disk

/-! ## How a run ends -/

namespace Command

/-- What the program gives back to its caller, if it does not end with an error that it did not
foresee. -/
def Outcome.returned (o : Outcome) : Option Nat := if o.isForeseen then some o.exitCode else none

theorem Outcome.returned_zero_iff {o : Outcome} :
    o.returned = some 0 ↔ ∃ paths, o = .generated paths := by
  cases o with
  | generated paths => exact ⟨fun _ => ⟨paths, rfl⟩, fun _ => rfl⟩
  | refused failure =>
    cases known : failure.isRefusal <;> simp [returned, isForeseen, exitCode, known]
  | storage error => cases known : error.ofHost <;> simp [returned, isForeseen, exitCode, known]

/-- What a run does with the result of generating bindings. -/
def deliver (base : Path) : Except Failure Bindings → DiskM Outcome
  | .error failure => pure (.refused failure)
  | .ok bindings => .generated <$> Host.writeBindings bindings base

/-- The ways in which a run can end: the input cannot be read, no bindings come out, or they are
written or not. Reports are logged before anything is written. -/
inductive Ends (r : Request) (base : Path) (d : Disk) : Outcome → Disk → Prop
  | unread {error : StorageError} (absent : ∀ content, ¬ d.HoldsFile r.input content)
      (cause : error.ofHost = !r.input.hasNull) : Ends r base d (.storage error) d
  | refused {content : String} {failure : Failure} {log : List Event}
      (holds : d.HoldsFile r.input content)
      (generated : (r.generate (Text.unified content)).1 = .error failure) :
      Ends r base d (.refused failure) { d with log }
  | unwritten {content : String} {bindings : Bindings} {log : List Event} {error : StorageError}
      {e : Disk} (holds : d.HoldsFile r.input content)
      (generated : (r.generate (Text.unified content)).1 = .ok bindings)
      (failed : (Host.writeBindings bindings base : DiskM (List Path)).runFrom { d with log } =
        (.error error, e)) : Ends r base d (.storage error) e
  | written {content : String} {bindings : Bindings} {log : List Event} {paths : List Path}
      {e : Disk} (holds : d.HoldsFile r.input content)
      (generated : (r.generate (Text.unified content)).1 = .ok bindings)
      (wrote : (Host.writeBindings bindings base : DiskM (List Path)).runFrom { d with log } =
        (.ok paths, e)) : Ends r base d (.generated paths) e

variable {r : Request} {base : Path} {d e : Disk} {content : String} {outcome : Outcome}

theorem runFrom_reports (events : List Event) (d : Disk) :
    (events.forM Host.report : DiskM Unit).runFrom d =
      (.ok (), { d with log := d.log ++ events }) := by
  induction events generalizing d with
  | nil => simp [List.forM]
  | cons event events ih =>
    refine (ExceptT.runFrom_bind_ok (ExceptT.runFrom_modify _ d)).trans ?_
    rw [ih]
    simp

theorem runFrom_base (based : r.base = .ok base) (d : Disk) :
    (MonadExcept.ofExcept r.base : DiskM Path).runFrom d = (.ok base, d) := by
  rw [based]
  rfl

/-- A run that can read its input generates bindings, reports what happened, and delivers them. -/
theorem runFrom_execute {result : Except Failure Bindings} {events : List Event}
    (based : r.base = .ok base) (read : (DiskM.readFile r.input).runFrom d = (.ok content, d))
    (generated : r.generate (Text.unified content) = (result, events)) :
    (r.execute : DiskM Outcome).runFrom d =
      (deliver base result).runFrom { d with log := d.log ++ events } := by
  have text : (Host.readText r.input : DiskM String).runFrom d = (.ok (Text.unified content), d) :=
    ExceptT.runFrom_bind_ok read
  have started : (r.execute : DiskM Outcome).runFrom d = _ :=
    (ExceptT.runFrom_bind_ok (runFrom_base based d)).trans (ExceptT.runFrom_bind_ok text)
  rw [generated] at started
  have reported := runFrom_reports events d
  cases result with
  | error failure => exact started.trans (ExceptT.runFrom_bind_ok reported)
  | ok bindings => exact started.trans (ExceptT.runFrom_bind_ok reported)

/-- Every run ends in one of these ways, and never with an error that it does not catch. -/
theorem exists_ends (based : r.base = .ok base) (d : Disk) :
    ∃ outcome e, (r.run : DiskM Outcome).runFrom d = (.ok outcome, e) ∧
      Ends r base d outcome e := by
  rcases DiskM.readFile_cases r.input d with ⟨content, holds, read⟩ | ⟨error, absent, cause, read⟩
  · rcases generated : r.generate (Text.unified content) with ⟨failure | bindings, events⟩
    · have executed := runFrom_execute based read generated
      exact ⟨_, _, ExceptT.runFrom_tryCatch_ok executed, .refused holds (by rw [generated])⟩
    · have executed := runFrom_execute based read generated
      have came : (r.generate (Text.unified content)).1 = .ok bindings := by rw [generated]
      rcases wrote : (Host.writeBindings bindings base : DiskM (List Path)).runFrom
          { d with log := d.log ++ events } with ⟨error | paths, e⟩
      · have failed := executed.trans (ExceptT.runFrom_bind_error wrote)
        exact ⟨_, e, (ExceptT.runFrom_tryCatch_error failed).trans rfl, .unwritten holds came wrote⟩
      · have done := executed.trans (ExceptT.runFrom_bind_ok wrote)
        exact ⟨_, e, ExceptT.runFrom_tryCatch_ok done, .written holds came wrote⟩
  · have failed : (r.execute : DiskM Outcome).runFrom d = (.error error, d) :=
      (ExceptT.runFrom_bind_ok (runFrom_base based d)).trans
        (ExceptT.runFrom_bind_error (ExceptT.runFrom_bind_error read))
    exact ⟨_, d, (ExceptT.runFrom_tryCatch_error failed).trans rfl, .unread absent cause⟩

/-! ## What an input comes to -/

/-- The bindings of an input: those of the declarations in it, read with unified line ends. -/
def Makes (d : Disk) (input : Path) (options : Options) (bindings : Bindings) : Prop :=
  ∃ content declarations, d.HoldsFile input content ∧
    Idl.parse (Text.unified content) = .ok declarations ∧
    (generateBindings declarations options).1 = .ok bindings

/-- How an input can come to nothing in a way that is foreseen: it cannot be read, it cannot be
parsed, or its declarations are refused. -/
inductive Fails (d : Disk) (input : Path) (options : Options) : Prop
  | unread (plain : input.hasNull = false) (absent : ∀ content, ¬ d.HoldsFile input content)
  | malformed {content : String} {fault : Idl.Fault} (holds : d.HoldsFile input content)
      (parsed : Idl.parse (Text.unified content) = .error fault)
  | refused {content : String} {declarations : Declarations} {failure : Failure}
      (holds : d.HoldsFile input content)
      (parsed : Idl.parse (Text.unified content) = .ok declarations)
      (generated : (generateBindings declarations options).1 = .error failure)
      (refusal : failure.isRefusal = true)

theorem makes_iff (holds : d.HoldsFile r.input content) {bindings : Bindings} :
    Makes d r.input r.options bindings ↔ (r.generate (Text.unified content)).1 = .ok bindings := by
  constructor
  · rintro ⟨content', declarations, holds', parsed, generated⟩
    rw [holds.unique holds', Request.generate, parsed]
    exact generated
  · intro generated
    rw [Request.generate] at generated
    cases parsed : Idl.parse (Text.unified content) with
    | error fault =>
      rw [parsed] at generated
      cases generated
    | ok declarations =>
      rw [parsed] at generated
      exact ⟨content, declarations, holds, parsed, generated⟩

theorem exists_refusal_of_fails (holds : d.HoldsFile r.input content)
    (fails : Fails d r.input r.options) :
    ∃ failure, (r.generate (Text.unified content)).1 = .error failure ∧
      failure.isRefusal = true := by
  cases fails with
  | unread plain absent => exact absurd holds (absent content)
  | @malformed _ fault holds' parsed =>
    rw [holds.unique holds', Request.generate, parsed]
    refine ⟨_, rfl, ?_⟩
    cases fault <;> rfl
  | refused holds' parsed generated refusal =>
    rw [holds.unique holds', Request.generate, parsed]
    exact ⟨_, generated, refusal⟩

/-! ## What a run leaves -/

/-- On a disk that has counted nothing yet, writing is a call with the schedule of the disk. -/
theorem writeBindings_eq_write {bindings : Bindings} (counted : d.replaces = 0 ∧ d.writes = 0) :
    (Host.writeBindings bindings base : DiskM (List Path)).runFrom d =
      d.write base ⟨bindings, d.failingReplaces, d.failingWrites⟩ := by
  obtain ⟨nodes, staging, serial, failingReplaces, failingWrites, replaces, writes, log⟩ := d
  obtain ⟨rfl, rfl⟩ := counted
  rfl

theorem Ends.delivered (h : Ends r base d outcome e) (clean : d.staging = [])
    (counted : d.replaces = 0 ∧ d.writes = 0) (returned : outcome.returned = some 0) :
    ∃ bindings, Makes d r.input r.options bindings ∧ d.Delivered e base bindings := by
  obtain ⟨paths, rfl⟩ := Outcome.returned_zero_iff.1 returned
  cases h with
  | @written _ bindings log _ _ holds generated wrote =>
    have call := (writeBindings_eq_write (d := { d with log }) counted).symm.trans wrote
    obtain ⟨clean', files⟩ := Disk.delivered_of_write (d := { d with log }) clean call
    exact ⟨bindings, (makes_iff holds).2 generated, clean', files⟩

theorem Ends.unchanged (h : Ends r base d outcome e) (fails : Fails d r.input r.options) :
    outcome.returned = some 1 ∧ e.nodes = d.nodes ∧ e.staging = d.staging := by
  cases h with
  | unread absent cause =>
    have known : r.input.hasNull = false := by
      cases fails with
      | unread plain _ => exact plain
      | malformed holds _ => exact absurd holds (absent _)
      | refused holds _ _ _ => exact absurd holds (absent _)
    rw [known] at cause
    exact ⟨if_pos cause, rfl, rfl⟩
  | refused holds generated =>
    obtain ⟨failure, refused, refusal⟩ := exists_refusal_of_fails holds fails
    cases generated.symm.trans refused
    exact ⟨if_pos refusal, rfl, rfl⟩
  | unwritten holds generated _ =>
    obtain ⟨failure, refused, -⟩ := exists_refusal_of_fails holds fails
    cases generated.symm.trans refused
  | written holds generated _ =>
    obtain ⟨failure, refused, -⟩ := exists_refusal_of_fails holds fails
    cases generated.symm.trans refused

theorem Ends.succeeds {bindings : Bindings} {script native : List String}
    (h : Ends r base d outcome e) (counted : d.replaces = 0 ∧ d.writes = 0)
    (makes : Makes d r.input r.options bindings) (ready : d.Ready base script native)
    (undisturbed : (WriteCall.mk bindings d.failingReplaces d.failingWrites).Undisturbed) :
    outcome.returned = some 0 := by
  cases h with
  | unread absent _ =>
    obtain ⟨content, -, holds, -⟩ := makes
    exact absurd holds (absent content)
  | refused holds generated => cases generated.symm.trans ((makes_iff holds).1 makes)
  | @unwritten _ _ log _ _ holds generated failed =>
    cases generated.symm.trans ((makes_iff holds).1 makes)
    have call := (writeBindings_eq_write (d := { d with log }) counted).symm.trans failed
    have ready' : ({ d with log } : Disk).Ready base script native :=
      ready.of_change (fun _ _ _ => rfl) ready.scriptTo.free ready.nativeTo.free ready.clean
    rcases ready'.write_iff_undisturbed _ with ⟨-, _, _, ran, -⟩ | ⟨disturbed, -⟩
    · cases ran.symm.trans call
    · exact absurd undisturbed disturbed
  | written => rfl

/-- Whatever is on a disk and whatever the schedule lets fail, a command line that is accepted runs
to an end. If the program returns 0, both files of the output that is asked for hold exactly the
bindings of the input, and apart from directories on the way to them nothing else has changed. If
the input cannot be read or parsed, or is refused, the program returns 1 and nothing at all has
changed. It does return 0 where bindings come out, both files can be written, and neither their
writes nor their moves fail. -/
theorem command_delivers_or_changes_nothing {arguments : List String} {r : Request}
    (accepted : readArguments arguments = .ok r) (named : r.input.name ≠ "")
    (nodes : List (List String × Node)) (failingReplaces failingWrites : List Nat) :
    let d : Disk := { nodes, failingReplaces, failingWrites }
    ∃ base outcome e, Asks arguments r.input base r.options ∧
      (r.run : DiskM Outcome).runFrom d = (.ok outcome, e) ∧
      (outcome.returned = some 0 →
        ∃ bindings, Makes d r.input r.options bindings ∧ d.Delivered e base bindings) ∧
      (Fails d r.input r.options → outcome.returned = some 1 ∧ e.nodes = nodes ∧ e.staging = []) ∧
      ∀ bindings script native, Makes d r.input r.options bindings → d.Ready base script native →
        (WriteCall.mk bindings failingReplaces failingWrites).Undisturbed →
          outcome.returned = some 0 := by
  intro d
  obtain ⟨base, based, asks⟩ := exists_base_of_readArguments accepted named
  obtain ⟨outcome, e, ran, ends⟩ := exists_ends based d
  refine ⟨base, outcome, e, asks, ran, ends.delivered rfl ⟨rfl, rfl⟩, ends.unchanged, ?_⟩
  exact fun bindings script native => ends.succeeds ⟨rfl, rfl⟩

def dial : Interface where
  name := "Dial"
  operations := [{ name := "turn", returnType := { name := "void" }
                   arguments := [{ name := "steps", type := { name := "long" } }] }]

def dialsPieces : List String :=
  ["// Dials turn by steps.\r\n", "interface Dial \x7b",
   "\r\n  void turn(long steps);\r\n", "\x7d;\r\n"]

def dialsText : String := String.ofList (dialsPieces.flatMap String.toList)

theorem toList_unified_dialsText :
    (Text.unified dialsText).toList = Text.unifyNewlines (dialsPieces.flatMap String.toList) := by
  rw [Text.unified, String.toList_ofList, dialsText, String.toList_ofList]

theorem wellFormed_dial : dial.WellFormed := by
  have named : ∀ n ∈ ["void", "long"], TypeExpr.Written { name := n } := by
    intro n member
    have names : ∀ n ∈ ["void", "long"], TypeExpr.isName n.toList = true := by decide
    simpa using TypeExpr.Written.name false (names n member)
  refine ⟨by decide, by decide, by decide, by simp [dial], ?_, by simp [dial]⟩
  simp only [dial, List.mem_singleton, forall_eq]
  refine ⟨by decide, (named _ (by decide)).readable, by decide, by decide, ⟨?_, by simp⟩, by simp⟩
  simp only [List.mem_singleton, forall_eq]
  exact ⟨by decide, (named _ (by decide)).readable, by decide⟩

theorem parse_dialsText : Idl.parse (Text.unified dialsText) = .ok { interfaces := [dial] } := by
  let inside := "\n  void turn(long steps);\n".toList
  let shown := interfaceText dial.items "Dial" none inside
  have members :
      Sequenced ((dial.operations.map Idl.Member.operation).map Idl.Member.render) inside :=
    @Sequenced.next ['\n', ' ', ' '] _ ['\n'] _ (by decide) (.done (by decide))
  have rendered : Declaration.Rendered (.interface dial) shown := .interface dial rfl rfl members
  have stripped : Text.stripComments (Text.unified dialsText).toList =
      ['\n'] ++ (shown ++ ';' :: ['\n']) := by
    rw [toList_unified_dialsText]
    decide +kernel
  have sequenced : Sequenced [shown] (Text.stripComments (Text.unified dialsText).toList) := by
    rw [stripped]
    exact .next (by decide) (.done (by decide))
  have wellFormed : ∀ d ∈ [Declaration.interface dial], d.WellFormed :=
    List.forall_mem_singleton.2 wellFormed_dial
  exact Declarations.parse_of_sequenced wellFormed (.cons rendered .nil) sequenced

/-- The last of two outputs counts, its directory has to be made, and a replacement that is never
made would fail. -/
theorem dials_delivered :
    let arguments := ["api/dials.idl", "-o", "first", "--module=Dials", "-v", "--out=gen/dials"]
    let nodes := [(["api"], Node.directory), (["api", "dials.idl"], .file dialsText)]
    let d : Disk := { nodes, failingReplaces := [2] }
    let r : Request :=
      { input := { parts := ["api", "dials.idl"] }
        output := some { parts := ["gen", "dials"] }
        options := { moduleName := "Dials" }
        verbose := true }
    readArguments arguments = .ok r ∧ r.input.name ≠ "" ∧
      Idl.parse (Text.unified dialsText) = .ok { interfaces := [dial] } ∧
      ∃ base outcome e bindings, Asks arguments r.input base r.options ∧
        (r.run : DiskM Outcome).runFrom d = (.ok outcome, e) ∧ outcome.returned = some 0 ∧
        Makes d r.input r.options bindings ∧ d.Delivered e base bindings := by
  intro arguments nodes d r
  have accepted : readArguments arguments = .ok r := by decide +kernel
  have named : r.input.name ≠ "" := by decide
  obtain ⟨base, outcome, e, asks, ran, delivered, -⟩ :=
    command_delivers_or_changes_nothing accepted named nodes [2] []
  have holds : d.HoldsFile r.input dialsText :=
    ⟨["api", "dials.idl"], except_toOption_eq_some_iff.1 (by decide +kernel), rfl⟩
  have based : r.base = .ok { parts := ["gen", "dials"] } := rfl
  have done : ((deliver { parts := ["gen", "dials"] }
      (generateBindings { interfaces := [dial] } r.options).1).runFrom
        { d with
          log := d.log ++ (generateBindings { interfaces := [dial] } r.options).2 }).1.toOption.bind
          Outcome.returned = some 0 := by
    decide +kernel
  have returned : outcome.returned = some 0 := by
    rcases made : generateBindings { interfaces := [dial] } r.options with ⟨result, events⟩
    have generated : r.generate (Text.unified dialsText) = (result, events) := by
      rw [Request.generate, parse_dialsText]
      exact made
    rcases DiskM.readFile_cases r.input d with ⟨content, holds', read⟩ | ⟨error, absent, -⟩
    · cases holds.unique holds'
      rw [made, ← runFrom_execute based read generated] at done
      rcases ends : (r.execute : DiskM Outcome).runFrom d with ⟨failure | outcome', e'⟩
      · rw [ends] at done
        cases done
      · rw [ends] at done
        cases (ExceptT.runFrom_tryCatch_ok ends).symm.trans ran
        exact done
    · exact absurd holds (absent dialsText)
  obtain ⟨bindings, makes, files⟩ := delivered returned
  exact ⟨accepted, named, parse_dialsText, base, outcome, e, bindings, asks, ran,
    returned, makes, files⟩

end Command

end NativeBridge
