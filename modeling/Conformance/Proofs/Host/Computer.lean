import Mathlib
import Conformance.Proofs.Host.Links
import Conformance.Proofs.Host.Verdicts
import Conformance.Proofs.Program.Presentation
import Conformance.Proofs.Walk.Notes

set_option autoImplicit false

/-! # A world as a computer

The computer that a world is has all that is asked of a computer: its directories have plain names and
short paths in every state that there is (`World.bounded_computer`), and it does not care how a
report looks (`World.blind_computer`). No walk of it lists a directory twice (`World.nodup_listed`). Its
log only grows (`World.exists_noted`): what is added to it while a case is run is what a supervisor
warns of, and none of it reads like an error. So an invocation of the program goes one of its ways in
every world, and an error on standard error is one of the run (`World.course_invoke`).
-/

namespace Conformance

namespace FileTree

variable {t : FileTree}

theorem plain_of_entryAt {id : FileId} {mode parent : ℕ} {names : List (Bytes × FileId)}
    (h : t.entryAt id = some (.directory mode parent names)) :
    (names.map Prod.fst).Nodup ∧ ∀ entry ∈ names, Path.PlainName entry.1 := by
  have hmem : Entry.directory mode parent names ∈ t.entries.toList := by
    rw [entryAt, ← Array.getElem?_toList] at h
    exact List.mem_of_getElem? h
  simpa only [Entry.hasPlainNames, Bool.and_eq_true, List.all_eq_true, decide_eq_true_eq] using
    t.plain _ hmem

theorem length_le_of_find {cwd : FileId} {path : Bytes} {found : FileId × Entry}
    (h : t.find cwd path = .ok found) : path.length ≤ pathLimit := by
  by_contra hlong
  have hne : path ≠ [] := by
    rintro rfl
    exact hlong (Nat.zero_le _)
  have hlocate : t.locate cwd path true = .error .nameTooLong := by
    rw [locate, if_neg hne, if_pos (not_le.mp hlong)]
  rw [find, findFrom, hlocate] at h
  cases h

end FileTree

namespace World

variable {w w' : World}

/-! ## What is asked of a computer -/

/-- Every directory has distinct plain names, also after cases were run. -/
theorem plain_machine (s : Settings) : (machine s).Plain := by
  intro dir w names hl
  obtain ⟨id, mode, parent, entries, hfind, rfl⟩ := find_of_listDirectory hl
  obtain ⟨-, hentry, -⟩ := FileTree.leads_of_find hfind
  obtain ⟨hnodup, hplain⟩ := FileTree.plain_of_entryAt hentry
  refine ⟨hnodup, fun name hname => ?_⟩
  obtain ⟨entry, hmem, rfl⟩ := List.mem_map.mp hname
  exact hplain entry hmem

/-- **The machine that a world is keeps what file systems promise**, whatever is run on it. -/
theorem bounded_machine (s : Settings) : (machine s).Bounded depth where
  plain dir w names hl := (plain_machine s dir w names hl).2
  length_lt := by
    intro p w hd
    obtain ⟨id, mode, parent, entries, hfind⟩ := find_of_isDirectory hd
    exact Nat.lt_succ_of_le (FileTree.length_le_of_find hfind)

theorem bounded_computer : computer.Bounded := ⟨Nat.succ_pos _, bounded_machine⟩

theorem blind_computer : computer.Blind := fun _ _ _ => rfl

/-- **No walk of a world lists a directory twice**, wherever links lead and whatever the cases do to the
files. -/
theorem nodup_listed (s : Settings) (depth : ℕ) (dir : Path) (session : Session World) :
    (Walk.listed (machine s) s depth dir session).Nodup :=
  (Walk.nodup_listed (plain_machine s) s depth dir session).1

/-! ## What is logged -/

def worldlyWarnings : List Warning :=
  [.lostTrack (.os .noChild), .notKilled (.os .noChild), .stillOpen, .givenUp]

theorem mem_worldlyWarnings {s : Supervisor} {e : Event} (he : e.Worldly) {warning : Warning}
    (h : warning ∈ s.warn e) : warning ∈ worldlyWarnings := by
  obtain ⟨cause, rfl, hwarning⟩ | ⟨rfl, rfl | rfl⟩ | ⟨stream, cause, rfl, -⟩ :=
    Supervisor.warn_cases h
  · obtain rfl : cause = .os .noChild := he
    obtain rfl | rfl := hwarning <;> decide
  · decide
  · decide
  · exact he.elim

theorem mem_worldlyWarnings_of_events {s : Supervisor} {events : List Event}
    (hworldly : ∀ e ∈ events, e.Worldly) {warning : Warning} (h : warning ∈ s.warnings events) :
    warning ∈ worldlyWarnings := by
  induction events generalizing s with
  | nil => cases h
  | cons e rest ih =>
      obtain ⟨he, hrest⟩ := List.forall_mem_cons.mp hworldly
      exact (List.mem_append.mp h).elim (mem_worldlyWarnings he) (ih hrest)

/-- No warning of a world reads like an error. -/
theorem harmless_of_worldly {d : Diagnostic} (h : d.warning ∈ worldlyWarnings) : Harmless d.line := by
  have hlines : ∀ warning ∈ worldlyWarnings, ∀ error ∈ warning.error?, '\n' ∉ error.toList := by
    decide +kernel
  exact Diagnostic.harmless_line (hlines _ h)

/-- **What is added to the log of a world while a case is run**: nothing if no process is launched,
and else what its supervisor warns of. -/
theorem exists_noted (w : World) (interpreter script : Path) (deadline : Duration) : ∃ noted,
    (w.runCase interpreter script deadline).2.diagnostics = w.diagnostics ++ noted ∧
    (∀ d ∈ noted, Harmless (computer.line d)) ∧
    (noted = [] ∨ ∃ events, noted.map Diagnostic.warning = Supervisor.start.warnings events ∧
      (Supervisor.start.afterAll events).1.result? =
        some (w.runCase interpreter script deadline).1) := by
  cases hopening : w.refusal? script with
  | some cause =>
      have hrun : w.runCase interpreter script deadline = (.error (.unreadable script cause), w) :=
        Runner.run_of_refused hopening
      exact ⟨[], by rw [hrun, List.append_nil], nofun, Or.inl rfl⟩
  | none =>
      cases hlaunch : w.launchTest interpreter script deadline with
      | error cause =>
          have hrun : w.runCase interpreter script deadline =
              (.error (.spawn interpreter cause), w) := Runner.run_of_not_launched hopening hlaunch
          exact ⟨[], by rw [hrun, List.append_nil], nofun, Or.inl rfl⟩
      | ok p =>
          obtain ⟨watch, w'⟩ := p
          have hrun : w.runCase interpreter script deadline = supervise watch w' :=
            Runner.run_of_launched hopening hlaunch
          obtain ⟨events, noted, hresult, hworldly, hnoted, hwarnings⟩ :=
            exists_events_supervise hlaunch
          rw [hrun]
          -- A supervisor in a world is told of no failed reads, so that no error with lines is named.
          refine ⟨noted, hnoted, fun d hd => harmless_of_worldly ?_, Or.inr ⟨events, hwarnings, hresult⟩⟩
          refine mem_worldlyWarnings_of_events hworldly (s := .start) ?_
          rw [← hwarnings]
          exact List.mem_map_of_mem hd

theorem exists_noted_of_run {s : Settings} {p : Path} {result : Except Error Execution}
    (h : (machine s).run ⟨p⟩ w = (result, w')) : ∃ noted,
    w'.diagnostics = w.diagnostics ++ noted ∧ ∀ d ∈ noted, Harmless (computer.line d) := by
  obtain ⟨noted, hnoted, hharmless, -⟩ := w.exists_noted s.interpreter p s.timeout
  have hafter : (w.runCase s.interpreter p s.timeout).2 = w' := congrArg Prod.snd h
  exact ⟨noted, hafter ▸ hnoted, hharmless⟩

/-- **The log only grows while a walk meets things**, and by nothing that reads like an error. -/
theorem exists_noted_of_meets {s : Settings} {todos : List Todo} {es : List Encounter}
    (h : (machine s).Meets s w todos es w') : ∃ noted,
    w'.diagnostics = w.diagnostics ++ noted ∧ ∀ d ∈ noted, Harmless (computer.line d) := by
  induction h with
  | done | blocked => exact ⟨[], (List.append_nil _).symm, nofun⟩
  | enter _ _ ih | descend _ _ ih | pass _ _ _ ih => exact ih
  | run _ _ hrun _ _ ih =>
      obtain ⟨noted, hnoted, hharmless⟩ := exists_noted_of_run hrun
      obtain ⟨more, hmore, hharmless'⟩ := ih
      refine ⟨noted ++ more, ?_, List.forall_mem_append.mpr ⟨hharmless, hharmless'⟩⟩
      rw [hmore, hnoted, List.append_assoc]
  | broken _ _ _ hrun _ => exact exists_noted_of_run hrun

/-! ## Invocations -/

theorem diagnosed_of_append {noted : List Diagnostic}
    (h : w'.diagnostics = w.diagnostics ++ noted) : computer.diagnosed w w' = noted := by
  show w'.diagnostics.drop w.diagnostics.length = noted
  rw [h, List.drop_left]

/-- **An invocation in a world** goes one of its ways, and what is written to standard error is the
error that the run has stopped at, if there is one, behind what the log has grown by. -/
theorem course_invoke (args : List Bytes) (w : World)
    (hfew : ∀ a es w', Arguments.parse args = .ok a → computer.Meets a w es w' →
      (Encounter.verdicts es).length < UInt64.size) :
    let exit := (Program.invoke computer args w).1
    let w' := (Program.invoke computer args w).2
    Program.Course computer args w exit w' ∧
      w'.diagnostics = w.diagnostics ++ computer.diagnosed w w' ∧
      ¬ Complains (computer.logged w w') := by
  intro exit w'
  have hcourse := Program.course_invoke bounded_computer args w hfew
  obtain ⟨noted, hnoted, hharmless⟩ : ∃ noted, w'.diagnostics = w.diagnostics ++ noted ∧
      ∀ d ∈ noted, Harmless (computer.line d) := by
    obtain hsame | ⟨a, es, hmeets⟩ := hcourse.eq_or_meets
    · exact ⟨[], by rw [List.append_nil, ← hsame], nofun⟩
    · exact exists_noted_of_meets hmeets
  have hdiagnosed := diagnosed_of_append hnoted
  refine ⟨hcourse, hdiagnosed ▸ hnoted, computer.not_complains_logged ?_⟩
  rw [hdiagnosed]
  exact hharmless

theorem invoke_look {args args' : List Bytes} {a : Arguments} {color : ColorChoice} {json : Bool}
    (hargs : Arguments.parse args = .ok a)
    (hargs' : Arguments.parse args' = .ok { a with color := color, json := json }) (w : World) :
    (Program.invoke computer args' w).1.code = (Program.invoke computer args w).1.code ∧
      (Program.invoke computer args' w).1.stderr = (Program.invoke computer args w).1.stderr ∧
      (Program.invoke computer args' w).2 = (Program.invoke computer args w).2 :=
  Program.invoke_look blind_computer hargs hargs' w

end World

end Conformance
