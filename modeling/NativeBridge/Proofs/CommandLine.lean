import NativeBridge.Command.Run
import NativeBridge.Proofs.Checks

/-!
# What a command line asks for

The words of a command line are options with their values, and plain words. Of several values for
one option the last counts. Here this is said of the whole list of words, and reading them one after
another is shown to end with the same request.
-/
namespace NativeBridge.Command

/-! ## Words and values -/

/-- The options that words give, in order and each with its value, and the plain words. -/
inductive Given : List Word → List Setting → List String → Prop
  | done : Given [] [] []
  | plain {words : List Word} {settings : List Setting} {texts : List String} (text : String)
      (rest : Given words settings texts) : Given (.plain text :: words) settings (text :: texts)
  | separator {words : List Word} {settings : List Setting} {texts : List String}
      (rest : Given words settings texts) : Given (.separator :: words) settings texts
  | option {words : List Word} {settings here : List Setting} {texts : List String} {w : Written}
      (expands : w.expand = .ok (here, none)) (rest : Given words settings texts) :
      Given (.option w :: words) (here ++ settings) texts
  /-- The value of the last option of a word is the next word. -/
  | value {words : List Word} {settings here : List Setting} {texts : List String} {w : Written}
      {opt : Opt} (text : String) (expands : w.expand = .ok (here, some opt))
      (rest : Given words settings texts) :
      Given (.option w :: .plain text :: words) (here ++ [(opt, text)] ++ settings) texts

/-- The value that an option is given last. -/
def latest (opt : Opt) (start : String) (settings : List Setting) : String :=
  settings.foldl (fun value setting => if setting.1 = opt then setting.2 else value) start

theorem latest_concat (opt : Opt) (start : String) (settings : List Setting) (setting : Setting) :
    latest opt start (settings ++ [setting]) =
      if setting.1 = opt then setting.2 else latest opt start settings := by
  rw [latest, List.foldl_append]
  rfl

/-- The input, the base of the output and the options that a command line asks for. Options for the
input and the output stand against the plain words, and the output goes beside the input if neither
names a place for it. -/
def Asks (arguments : List String) (input base : Path) (options : Options) : Prop :=
  ∃ words settings texts inputText,
    classifyAll arguments = .ok words ∧ Given words settings texts ∧ texts.length ≤ 2 ∧
    firstGiven (texts.getD 0 "") (pathValue (latest .idl "" settings)) = some inputText ∧
    input = Path.ofString inputText ∧
    base = Path.ofString ((firstGiven (pathValue (latest .output "" settings))
      (pathValue (texts.getD 1 ""))).getD (input.withName (Path.stem input.name)).text) ∧
    options =
      { moduleName := nameValue (latest .moduleName "Module" settings)
        entryPrefix := nameValue (latest .entryPrefix "jsbind_" settings) }

/-! ## Reading word by word -/

/-- What some options and plain words come to. -/
def gathered (settings : List Setting) (texts : List String) : Settings where
  inputWord := texts.getD 0 ""
  outputWord := pathValue (texts.getD 1 "")
  idl := pathValue (latest .idl "" settings)
  output := pathValue (latest .output "" settings)
  options :=
    { moduleName := nameValue (latest .moduleName "Module" settings)
      entryPrefix := nameValue (latest .entryPrefix "jsbind_" settings) }
  verbose := settings.any (·.1 = .verbose)

theorem apply_gathered {settings : List Setting} {texts : List String} {setting : Setting}
    {s : Settings} (applied : (gathered settings texts).apply setting = .ok s) :
    s = gathered (settings ++ [setting]) texts := by
  obtain ⟨opt, value⟩ := setting
  cases opt with
  | help => cases applied
  | _ =>
    cases applied
    simp [gathered, latest_concat]

theorem foldlM_apply_gathered {settings more : List Setting} {texts : List String} {s : Settings}
    (applied : more.foldlM Settings.apply (gathered settings texts) = .ok s) :
    s = gathered (settings ++ more) texts := by
  induction more generalizing settings with
  | nil =>
    cases applied
    rw [List.append_nil]
  | cons setting more ih =>
    obtain ⟨next, first, rest⟩ := except_bind_eq_ok_iff.1 applied
    rw [apply_gathered first] at rest
    rw [ih rest, List.append_assoc, List.singleton_append]

/-- How many plain words have been read in a phase, as long as none is left over. -/
def Phase.Fits (texts : List String) : Phase → Prop
  | .fresh => texts.length = 0
  | .one => texts.length = 1
  | .two => texts.length = 2
  | .closed => texts.length = 1 ∨ texts.length = 2

/-- Reading has come past some options and plain words, of which none is left over. -/
structure Reading.Past (settings : List Setting) (texts : List String) (r : Reading) : Prop where
  settings : r.settings = gathered settings texts
  phase : r.phase.Fits texts
  leftOver : r.leftOver = []

namespace Reading.Past

variable {settings more : List Setting} {texts : List String} {r r' : Reading}

theorem start : Past [] [] {} := ⟨rfl, rfl, rfl⟩

theorem close (h : r.Past settings texts) : r.close.Past settings texts := by
  obtain ⟨s, phase, leftOver⟩ := r
  obtain ⟨held, fits, none⟩ := h
  cases phase with
  | fresh => exact ⟨held, fits, none⟩
  | one => exact ⟨held, .inl fits, none⟩
  | two => exact ⟨held, .inr fits, none⟩
  | closed => exact ⟨held, fits, none⟩

theorem apply (h : r.Past settings texts) (applied : r.apply more = .ok r') :
    r'.Past (settings ++ more) texts := by
  obtain ⟨s, folded, same⟩ := except_bind_eq_ok_iff.1 applied
  cases same
  rw [h.settings] at folded
  exact ⟨foldlM_apply_gathered folded, h.phase, h.leftOver⟩

/-- A plain word is taken for the input or the output, unless it is left over. -/
theorem takeWord (h : r.Past settings texts) (text : String)
    (none : (r.takeWord text).leftOver = []) :
    (r.takeWord text).Past settings (texts ++ [text]) := by
  obtain ⟨s, phase, leftOver⟩ := r
  obtain ⟨rfl, fits, left⟩ := h
  cases phase with
  | fresh =>
    obtain rfl := List.length_eq_zero_iff.1 fits
    exact ⟨rfl, rfl, left⟩
  | one =>
    obtain ⟨first, rfl⟩ := List.length_eq_one_iff.1 fits
    exact ⟨rfl, rfl, left⟩
  | two => simp [Reading.takeWord, leave] at none
  | closed => simp [Reading.takeWord, leave] at none

theorem takeSeparator (h : r.Past settings texts) (none : r.takeSeparator.leftOver = []) :
    r.takeSeparator.Past settings texts := by
  obtain ⟨s, phase, leftOver⟩ := r
  cases phase with
  | closed => simp [Reading.takeSeparator, leave] at none
  | _ => exact h

end Reading.Past

theorem leftOver_apply {r r' : Reading} {settings : List Setting}
    (applied : r.close.apply settings = .ok r') : r'.leftOver = r.leftOver := by
  obtain ⟨s, -, same⟩ := except_bind_eq_ok_iff.1 applied
  cases same
  obtain ⟨s, phase, leftOver⟩ := r
  cases phase <;> rfl

/-- What is left over stays left over. -/
theorem leftOver_of_readWords {r r' : Reading} {words : List Word}
    (read : readWords r words = .ok r') (none : r'.leftOver = []) : r.leftOver = [] := by
  fun_induction readWords r words with
  | case1 r =>
    cases read
    exact none
  | case2 r text rest ih =>
    have after := ih read
    obtain ⟨s, phase, leftOver⟩ := r
    cases phase <;> simp_all [Reading.takeWord, Reading.leave]
  | case3 r rest ih =>
    have after := ih read
    obtain ⟨s, phase, leftOver⟩ := r
    cases phase <;> simp_all [Reading.takeSeparator, Reading.leave]
  | case4 r text rest ih => exact absurd (ih read) (by simp [Reading.leave])
  | case5 r w rest cause expands => cases read
  | case6 r w rest here expands ih =>
    obtain ⟨next, applied, read⟩ := except_bind_eq_ok_iff.1 read
    rw [← leftOver_apply applied]
    exact ih next read
  | case7 r w here opt expands text rest ih =>
    obtain ⟨next, applied, read⟩ := except_bind_eq_ok_iff.1 read
    rw [← leftOver_apply applied]
    exact ih next read
  | case8 => cases read

/-- Words that are read with nothing left over give what reading ends with. -/
theorem given_of_readWords {r r' : Reading} {words : List Word} {settings : List Setting}
    {texts : List String} (past : r.Past settings texts) (read : readWords r words = .ok r')
    (none : r'.leftOver = []) :
    ∃ more others, Given words more others ∧ r'.Past (settings ++ more) (texts ++ others) := by
  fun_induction readWords r words generalizing settings texts with
  | case1 r =>
    cases read
    exact ⟨[], [], .done, by simpa using past⟩
  | case2 r text rest ih =>
    have taken := past.takeWord text (leftOver_of_readWords read none)
    obtain ⟨more, others, given, past'⟩ := ih taken read
    exact ⟨more, text :: others, .plain text given, by simpa using past'⟩
  | case3 r rest ih =>
    have taken := past.takeSeparator (leftOver_of_readWords read none)
    obtain ⟨more, others, given, past'⟩ := ih taken read
    exact ⟨more, others, .separator given, past'⟩
  | case4 r text rest ih =>
    exact absurd (leftOver_of_readWords read none) (by simp [Reading.leave])
  | case5 => cases read
  | case6 r w rest here expands ih =>
    obtain ⟨next, applied, read⟩ := except_bind_eq_ok_iff.1 read
    obtain ⟨more, others, given, past'⟩ := ih next (past.close.apply applied) read
    exact ⟨here ++ more, others, .option expands given, by simpa using past'⟩
  | case7 r w here opt expands text rest ih =>
    obtain ⟨next, applied, read⟩ := except_bind_eq_ok_iff.1 read
    obtain ⟨more, others, given, past'⟩ := ih next (past.close.apply applied) read
    exact ⟨here ++ [(opt, text)] ++ more, others, .value text expands given, by simpa using past'⟩
  | case8 => cases read

theorem Phase.Fits.length_le {texts : List String} {phase : Phase} (fits : phase.Fits texts) :
    texts.length ≤ 2 := by
  cases phase <;> simp only [Phase.Fits] at fits <;> omega

/-- A command line that is accepted makes the request that it asks for. -/
theorem exists_base_of_readArguments {arguments : List String} {r : Request}
    (accepted : readArguments arguments = .ok r) (named : r.input.name ≠ "") :
    ∃ base, r.base = .ok base ∧ Asks arguments r.input base r.options := by
  obtain ⟨words, classified, rest⟩ := except_bind_eq_ok_iff.1 accepted
  obtain ⟨reading, read, rest⟩ := except_bind_eq_ok_iff.1 rest
  rw [except_mapError_eq_ok_iff] at classified
  by_cases none : reading.leftOver = []
  · rw [if_neg (not_not.2 none), except_mapError_eq_ok_iff] at rest
    obtain ⟨settings, texts, given, past⟩ := given_of_readWords .start read none
    rw [List.nil_append, List.nil_append] at past
    rw [past.settings, Settings.request] at rest
    cases found : firstGiven (gathered settings texts).inputWord (gathered settings texts).idl with
    | none =>
      rw [found] at rest
      cases rest
    | some input =>
      rw [found] at rest
      cases rest
      refine ⟨_, ?_, words, settings, texts, input, classified, given, past.phase.length_le, found,
        rfl, rfl, rfl⟩
      have output : (gathered settings texts).output = pathValue (latest .output "" settings) := rfl
      have word : (gathered settings texts).outputWord = pathValue (texts.getD 1 "") := rfl
      rw [Request.base, output, word]
      cases firstGiven (pathValue (latest .output "" settings)) (pathValue (texts.getD 1 "")) with
      | none => exact if_neg named
      | some base => rfl
  · rw [if_pos none] at rest
    cases rest

end NativeBridge.Command
