import NativeBridge.Proofs.Verdicts

/-!
# Generating bindings again

A session keeps what it has planned. Generating again finds some of the value types registered and
some of the callbacks planned, up to where the last run came, and slots of a registration that
failed. Still every run ends as the first one, and a table that is complete stays as it is.
-/
namespace NativeBridge.Session

variable {s : Session} {α β : Type}

/-! ## Tables that are filled in part -/

/-- A table that holds the first items of a list, all of them with good verdicts. -/
structure Partway (table : Progress → List α) (verdict : α → Except Failure Unit) (items : List α)
    (p : Progress) : Prop where
  front : table p <+: items
  good : ∀ a ∈ table p, verdict a = .ok ()

theorem forM_ok {verdict : α → Except Failure Unit} {items : List α}
    (good : ∀ a ∈ items, verdict a = .ok ()) : items.forM verdict = .ok () := by
  induction items with
  | nil => rfl
  | cons a rest ih =>
    rw [List.forall_mem_cons] at good
    change (verdict a >>= fun _ => rest.forM verdict) = .ok ()
    rw [good.1]
    exact ih good.2

namespace Fills

variable {name : α → String} {table : Progress → List α} {other : Progress → β}
  {verdict : α → Except Failure Unit} {step : α → Planning Unit}

theorem runFrom_rest (h : s.Fills name table other verdict step) (rest : List α) {p : Progress}
    (sound : s.Sound p) (distinct : ((table p ++ rest).map name).Nodup)
    (good : ∀ a ∈ table p, verdict a = .ok ()) :
    ∃ q, (rest.forM step).runFrom p = (rest.forM verdict, q) ∧ s.Sound q ∧ other q = other p ∧
      Partway table verdict (table p ++ rest) q ∧
      (rest.forM verdict = .ok () → table q = table p ++ rest) := by
  induction rest generalizing p with
  | nil =>
    rw [List.append_nil]
    exact ⟨p, rfl, sound, rfl, ⟨List.prefix_rfl, good⟩, fun _ => rfl⟩
  | cons a rest ih =>
    have new : name a ∉ (table p).map name := by
      rw [List.map_append, List.map_cons, List.nodup_middle, List.nodup_cons] at distinct
      exact fun old => distinct.1 (List.mem_append_left _ old)
    obtain ⟨q, ran, kept, same, grown⟩ := h.fresh sound new
    have unfolded : (a :: rest).forM step = step a >>= fun _ => rest.forM step := rfl
    have checked : (a :: rest).forM verdict = verdict a >>= fun _ => rest.forM verdict := rfl
    rw [unfolded, checked]
    cases decided : verdict a with
    | error failure =>
      -- the run stops here and the table is as it was
      rw [decided] at ran grown
      have still : table q = table p := grown.trans (List.append_nil _)
      rw [ExceptT.runFrom_bind_error ran]
      refine ⟨q, rfl, kept, same, ⟨?_, ?_⟩, nofun⟩
      · rw [still]
        exact List.prefix_append _ _
      · rw [still]
        exact good
    | ok =>
      rw [decided] at ran grown
      have longer : table q = table p ++ [a] := grown
      have split : table q ++ rest = table p ++ a :: rest := by rw [longer, List.append_assoc]; rfl
      have goodToo : ∀ b ∈ table q, verdict b = .ok () := by
        rw [longer]
        simpa [or_imp, forall_and] using ⟨good, decided⟩
      rw [ExceptT.runFrom_bind_ok ran]
      obtain ⟨r, ranRest, keptRest, sameRest, partway, all⟩ := ih kept (split ▸ distinct) goodToo
      rw [split] at partway all
      exact ⟨r, ranRest, keptRest, sameRest.trans same, partway, all⟩

/-- From a table that holds the first items, going through all of them ends as their verdicts
say. -/
theorem runFrom_all (h : s.Fills name table other verdict step) {items : List α} {p : Progress}
    (distinct : (items.map name).Nodup) (sound : s.Sound p)
    (partway : Partway table verdict items p) :
    ∃ q, (items.forM step).runFrom p = (items.forM verdict, q) ∧ s.Sound q ∧ other q = other p ∧
      Partway table verdict items q ∧ (items.forM verdict = .ok () → table q = items) := by
  obtain ⟨⟨rest, rfl⟩, good⟩ := partway
  obtain ⟨q, ran, after⟩ := h.runFrom_rest rest sound distinct good
  have skipped : ((table p).forM step).runFrom p = (.ok (), p) :=
    h.runFrom_known fun a member => member
  have split : (table p ++ rest).forM step = (table p).forM step >>= fun _ => rest.forM step :=
    List.forM_append
  have checked : (table p ++ rest).forM verdict = rest.forM verdict := by
    rw [show (table p ++ rest).forM verdict = (table p).forM verdict >>= fun _ =>
      rest.forM verdict from
      List.forM_append, forM_ok good]
    rfl
  rw [split, checked, ExceptT.runFrom_bind_ok skipped]
  exact ⟨q, ran, after⟩

end Fills

/-! ## Preparing again -/

/-- Progress of a session that has been prepared some times, as far as each time came. -/
structure Underway (s : Session) (p : Progress) : Prop where
  sound : s.Sound p
  records : Partway registeredTypes s.recordVerdict s.declarations.valueTypes p
  callbacks : Partway plannedCallbacks s.callbackVerdict s.declarations.callbacks p

/-- Progress of a session that has been prepared with success. -/
structure Finished (s : Session) (plans : List InterfacePlan) (p : Progress) : Prop where
  sound : s.Sound p
  records : registeredTypes p = s.declarations.valueTypes
  callbacks : plannedCallbacks p = s.declarations.callbacks
  plans : p.plans = plans

/-- How preparing ends, from the declarations alone. -/
def prepareVerdict (s : Session) : Except Failure (List InterfacePlan) := do
  let ordered ← s.orderInterfaces
  s.declarations.valueTypes.forM s.recordVerdict
  s.declarations.callbacks.forM s.callbackVerdict
  (ordered.mapM s.planInterface).outcome

theorem underway_empty (s : Session) : s.Underway {} :=
  ⟨s.sound_empty, ⟨List.nil_prefix, nofun⟩, ⟨List.nil_prefix, nofun⟩⟩

theorem Partway.of_table {table : Progress → List α} {verdict : α → Except Failure Unit}
    {items : List α} {p q : Progress} (h : Partway table verdict items p)
    (same : table q = table p) :
    Partway table verdict items q :=
  ⟨same ▸ h.front, same ▸ h.good⟩

theorem Finished.sameTables {plans : List InterfacePlan} {p q : Progress} (h : s.Finished plans p)
    (same : p.SameTables q) (sound : s.Sound q) : s.Finished plans q := by
  refine ⟨sound, ?_, ?_, same.plans.trans h.plans⟩
  · exact (registeredTypes_congr same.layouts).trans h.records
  · exact (plannedCallbacks_congr same.callbacks).trans h.callbacks

/-- However far a session has come, preparing it ends in the same way. -/
theorem Underway.prepare {p : Progress} (h : s.Underway p) :
    ∃ q, s.prepare.runFrom p = (s.prepareVerdict, q) ∧ s.Underway q ∧
      ∀ plans, s.prepareVerdict = .ok plans → s.Finished plans q := by
  rw [Session.prepare, prepareVerdict]
  cases order : s.orderInterfaces with
  | error failure => exact ⟨p, rfl, h, nofun⟩
  | ok ordered =>
    obtain ⟨p₁, ran₁, sound₁, other₁, partway₁, all₁⟩ :=
      fills_registeredTypes.runFrom_all s.valueType_names_nodup h.sound h.records
    have callbacks₁ := h.callbacks.of_table (plannedCallbacks_congr other₁)
    rw [ExceptT.runFrom_bind_ok (Planning.runFrom_check (.ok ordered) p)]
    cases records : s.declarations.valueTypes.forM s.recordVerdict with
    | error failure =>
      rw [records] at ran₁
      rw [ExceptT.runFrom_bind_error ran₁]
      exact ⟨p₁, rfl, ⟨sound₁, partway₁, callbacks₁⟩, nofun⟩
    | ok =>
      rw [records] at ran₁
      rw [ExceptT.runFrom_bind_ok ran₁]
      obtain ⟨p₂, ran₂, sound₂, other₂, partway₂, all₂⟩ :=
        fills_plannedCallbacks.runFrom_all s.callback_names_nodup sound₁ callbacks₁
      have records₂ := partway₁.of_table (registeredTypes_congr other₂)
      cases callbacks : s.declarations.callbacks.forM s.callbackVerdict with
      | error failure =>
        rw [callbacks] at ran₂
        rw [ExceptT.runFrom_bind_error ran₂]
        exact ⟨p₂, rfl, ⟨sound₂, records₂, partway₂⟩, nofun⟩
      | ok =>
        rw [callbacks] at ran₂
        rw [ExceptT.runFrom_bind_ok ran₂]
        obtain ⟨p₃, ran₃, sound₃, same⟩ :=
          (Steady.mapM steady_planInterface ordered).runFrom_eq sound₂
        have records₃ := registeredTypes_congr same.layouts
        have callbacks₃ := plannedCallbacks_congr same.callbacks
        have underway : s.Underway p₃ :=
          ⟨sound₃, records₂.of_table records₃, partway₂.of_table callbacks₃⟩
        change ∃ q, _ = ((ordered.mapM s.planInterface).outcome, q) ∧ s.Underway q ∧
          ∀ plans, (ordered.mapM s.planInterface).outcome = .ok plans → s.Finished plans q
        cases interfaces : (ordered.mapM s.planInterface).outcome with
        | error failure =>
          rw [interfaces] at ran₃
          rw [ExceptT.runFrom_bind_error ran₃]
          exact ⟨p₃, rfl, underway, nofun⟩
        | ok plans =>
          rw [interfaces] at ran₃
          rw [ExceptT.runFrom_bind_ok ran₃]
          refine ⟨_, rfl,
            ⟨sound₃, underway.records.of_table rfl, underway.callbacks.of_table rfl⟩, ?_⟩
          rintro _ ⟨⟩
          exact ⟨sound₃, records₃.trans ((registeredTypes_congr other₂).trans (all₁ records)),
            callbacks₃.trans (all₂ callbacks), rfl⟩

/-- Preparing a session that is prepared finds the same plans and leaves all tables as they are. -/
theorem Finished.prepare {plans : List InterfacePlan} {p : Progress} (h : s.Finished plans p)
    (verdict : s.prepareVerdict = .ok plans) :
    ∃ q, s.prepare.runFrom p = (.ok plans, q) ∧ p.SameTables q ∧ s.Sound q := by
  obtain ⟨ordered, order, rest⟩ := except_bind_eq_ok_iff.1 verdict
  obtain ⟨_, -, rest⟩ := except_bind_eq_ok_iff.1 rest
  obtain ⟨_, -, interfaces⟩ := except_bind_eq_ok_iff.1 rest
  have records : (s.declarations.valueTypes.forM fun v => discard (s.register v)).runFrom p =
      (.ok (), p) :=
    fills_registeredTypes.runFrom_known fun v declared => h.records ▸ declared
  have callbacks : (s.declarations.callbacks.forM fun c => discard (s.planCallback c)).runFrom p =
      (.ok (), p) :=
    fills_plannedCallbacks.runFrom_known fun c declared => h.callbacks ▸ declared
  obtain ⟨q, ran, sound, same⟩ := (Steady.mapM steady_planInterface ordered).runFrom_eq h.sound
  rw [interfaces] at ran
  refine ⟨_, runFrom_prepare_eq_ok_iff.2 ⟨ordered, p, p, q, order, records, callbacks,
    ran, rfl⟩, ?_, sound⟩
  exact ⟨same.slots, same.layouts, same.callbacks, h.plans.symm⟩

/-! ## Generating again -/

theorem emitted_of_sameTables {p q : Progress} (same : p.SameTables q)
    (plans : List InterfacePlan) :
    s.emitted q plans = s.emitted p plans := by
  obtain ⟨script, native⟩ := parts_of_sameTables (s := s) same plans
  rw [emitted, emitted, script, native]

/-- Progress once bindings have been generated so many times. -/
def afterGenerating (s : Session) (n : Nat) : Progress := s.after (List.replicate n .generate)

theorem afterGenerating_succ (n : Nat) :
    s.afterGenerating (n + 1) = (s.generate.runFrom (s.afterGenerating n)).2 := by
  rw [afterGenerating, after, List.replicate_succ', List.foldl_append]
  exact ExceptT.snd_runFrom_discard s.generate _

theorem underway_afterGenerating (n : Nat) : s.Underway (s.afterGenerating n) := by
  induction n with
  | zero => exact s.underway_empty
  | succ n ih =>
    obtain ⟨q, ran, underway, -⟩ := ih.prepare
    rw [afterGenerating_succ]
    cases verdict : s.prepareVerdict with
    | error failure =>
      rw [verdict] at ran
      rw [generate, ExceptT.runFrom_bind_error ran]
      exact underway
    | ok plans =>
      rw [verdict] at ran
      rw [runFrom_generate_of_ok ran]
      exact underway

/-- Once a session is prepared with success, its tables stay as they are. -/
theorem finished_afterGenerating {plans : List InterfacePlan}
    (verdict : s.prepareVerdict = .ok plans) (n : Nat) :
    s.Finished plans (s.afterGenerating (n + 1)) ∧
      (s.afterGenerating 1).SameTables (s.afterGenerating (n + 1)) := by
  induction n with
  | zero =>
    obtain ⟨q, ran, -, finished⟩ := (underway_afterGenerating (s := s) 0).prepare
    rw [verdict] at ran
    rw [afterGenerating_succ, runFrom_generate_of_ok ran]
    exact ⟨finished plans verdict, .refl q⟩
  | succ n ih =>
    obtain ⟨finished, same⟩ := ih
    obtain ⟨q, ran, kept, sound⟩ := finished.prepare verdict
    rw [afterGenerating_succ (n + 1), runFrom_generate_of_ok ran]
    exact ⟨finished.sameTables kept sound, same.trans kept⟩

/-- Each time bindings are generated, the answer is that of the first time. -/
theorem generate_afterGenerating (n : Nat) :
    (s.generate.runFrom (s.afterGenerating n)).1 = s.generate.outcome := by
  obtain ⟨p, first, -, finished⟩ := s.underway_empty.prepare
  obtain ⟨q, again, -, -⟩ := (underway_afterGenerating (s := s) n).prepare
  cases verdict : s.prepareVerdict with
  | error failure =>
    rw [verdict] at first again
    rw [Planning.outcome, generate, ExceptT.runFrom_bind_error first,
      ExceptT.runFrom_bind_error again]
  | ok plans =>
    rw [verdict] at first again
    have once : s.afterGenerating 1 = p := by
      rw [afterGenerating_succ, show s.afterGenerating 0 = {} from rfl,
        runFrom_generate_of_ok first]
    have later : s.afterGenerating (n + 1) = q := by
      rw [afterGenerating_succ, runFrom_generate_of_ok again]
    have same : p.SameTables q := once ▸ later ▸ (finished_afterGenerating verdict n).2
    rw [Planning.outcome, runFrom_generate_of_ok first, runFrom_generate_of_ok again]
    exact emitted_of_sameTables same plans

/-- Bindings can be generated any number of times. Every answer, texts or failure, is that of the
first time, and after a success the tables, slots included, stay as the first time left them. -/
theorem generate_repeats (s : Session) (n : Nat) :
    (s.generate.runFrom (s.after (List.replicate n .generate))).1 = s.generate.outcome ∧
      ∀ b, s.generate.outcome = .ok b →
        (s.after [.generate]).SameTables (s.after (List.replicate (n + 1) .generate)) := by
  refine ⟨generate_afterGenerating n, fun b generated => ?_⟩
  obtain ⟨p, first, -⟩ := s.underway_empty.prepare
  cases verdict : s.prepareVerdict with
  | error failure =>
    rw [verdict] at first
    rw [Planning.outcome, generate, ExceptT.runFrom_bind_error first] at generated
    cases generated
  | ok plans => exact (finished_afterGenerating verdict n).2

/-- A gauge reports readings to a callback. -/
def gauges : Session where
  declarations :=
    { interfaces :=
        [{ name := "Gauge", ownership := .shared, constructors := [[]]
           operations := [{ name := "watch", returnType := { name := "Reading" }
                            arguments := [{ name := "seen", type := { name := "Seen" } }] }] }]
      valueTypes :=
        [{ name := "Reading", fields := [{ name := "level", type := { name := "Level" } }] }]
      callbacks :=
        [{ name := "Seen", returnType := { name := "boolean" }
           arguments := [{ name := "reading", type := { name := "Reading" } }] }]
      typedefs := [{ name := "Level", type := { name := "float" } }] }
  options := {}
  distinct := by decide

/-- The second value type is refused at its second field, with two slots taken. -/
def strays : Session where
  declarations :=
    { valueTypes :=
        [{ name := "Point", fields := [{ name := "x", type := { name := "float" } }] },
         { name := "Label", fields := [{ name := "at", type := { name := "long" } },
                                       { name := "text", type := { name := "Text" } }] }] }
  options := {}
  distinct := by decide

/-- The gauges' texts stay the same. The strays are refused in the same words each time, though each
time two more slots are lost. -/
theorem generate_gauges_and_strays_again :
    (∃ b, gauges.generate.outcome = .ok b ∧
      (gauges.generate.runFrom (gauges.after (List.replicate 3 .generate))).1 = .ok b ∧
      (gauges.after [.generate]).SameTables (gauges.after (List.replicate 4 .generate))) ∧
    ∃ failure, strays.generate.outcome = .error failure ∧
      failure.message = "Label.text: unknown type 'Text'" ∧
      (strays.generate.runFrom (strays.after (List.replicate 3 .generate))).1 = .error failure ∧
      (strays.after (List.replicate 2 .generate)).slots =
        [⟨0, "Point", none⟩, ⟨1, "Point", some "x"⟩, ⟨2, "Label", none⟩, ⟨3, "Label", some "at"⟩,
         ⟨4, "Label", none⟩, ⟨5, "Label", some "at"⟩] := by
  obtain ⟨b, p, generated⟩ :=
    ExceptT.exists_runFrom_of_isSome (x := gauges.generate) (p := {}) (by decide +kernel)
  have accepted : gauges.generate.outcome = .ok b := congrArg Prod.fst generated
  have refused : strays.generate.outcome =
      .error (.refused (.unsupported (.unresolvable (.unknown "Text")))
        (some (.member "Label" "text"))) := by
    decide +kernel
  obtain ⟨again, tables⟩ := generate_repeats gauges 3
  refine ⟨⟨b, accepted, again.trans accepted, tables b accepted⟩, _, refused,
    by decide +kernel, ?_, ?_⟩
  · exact (generate_repeats strays 3).1.trans refused
  · decide +kernel

end NativeBridge.Session
