import Conformance.Proofs.Script.Reading
import Conformance.Proofs.Script.Sleeping
import Conformance.Proofs.Text.Utf8

set_option autoImplicit false

/-! # What lines do, one after the other

A line either leads on, from the files that it finds to those that it leaves behind (`Leads`), or it stops
the script (`Halts`). The lines of a script all lead on (`Passes`), or there is a first one that stops it
(`StopsEarly`). Lines that lead on write the arguments of their words (`Gathers`) and nothing else, with no
regard to their numbers, and what is behind them is run in the files that they leave behind
(`runLines_passes`). What is behind a stop does nothing (`runLines_halts`).
-/

namespace Conformance

/-- What a script did, and these texts were written before. -/
def Transcript.behind {σ : Type} (t : Transcript σ) (stdout stderr : String) : Transcript σ :=
  ⟨stdout ++ t.stdout, stderr ++ t.stderr, t.files, t.ending⟩

theorem Transcript.behind_behind {σ : Type} (t : Transcript σ) (out err out' err' : String) :
    (t.behind out err).behind out' err' = t.behind (out' ++ out) (err' ++ err) := by
  simp only [behind, String.append_assoc]

namespace Script

/-! ## What is written -/

/-- **The arguments that a word has in lines**, in their order. -/
inductive Gathers (word : String) : List (List Char) → List (List Char) → Prop
  | nil : Gathers word [] []
  | take {line arg : List Char} {lines args : List (List Char)} :
      Spells line word arg → Gathers word lines args → Gathers word (line :: lines) (arg :: args)
  | pass {line : List Char} {lines args : List (List Char)} :
      (∀ arg, ¬ Spells line word arg) → Gathers word lines args → Gathers word (line :: lines) args

/-- Texts, each with a newline behind it. -/
def written (texts : List (List Char)) : String := String.ofList (texts.flatMap (· ++ ['\n']))

theorem written_append (texts texts' : List (List Char)) :
    written (texts ++ texts') = written texts ++ written texts' := by
  rw [written, List.flatMap_append, String.ofList_append]
  rfl

theorem Gathers.append {word : String} {lines lines' args args' : List (List Char)}
    (h : Gathers word lines args) (h' : Gathers word lines' args') :
    Gathers word (lines ++ lines') (args ++ args') := by
  induction h with
  | nil => exact h'
  | take hspells _ ih => exact .take hspells ih
  | pass hnot _ ih => exact .pass hnot ih

theorem Gathers.unique {word : String} {lines args args' : List (List Char)}
    (h : Gathers word lines args) (h' : Gathers word lines args') : args = args' := by
  induction h generalizing args' with
  | nil =>
      cases h'
      rfl
  | take hspells _ ih =>
      cases h' with
      | take hspells' hrest => rw [(hspells.unique hspells').2, ih hrest]
      | pass hnot _ => exact absurd hspells (hnot _)
  | pass hnot _ ih =>
      cases h' with
      | take hspells _ => exact absurd hspells (hnot _)
      | pass _ hrest => exact ih hrest

theorem exists_gathers (word : String) (lines : List (List Char)) :
    ∃ args, Gathers word lines args := by
  induction lines with
  | nil => exact ⟨[], .nil⟩
  | cons line lines ih =>
      obtain ⟨args, hargs⟩ := ih
      by_cases hspells : ∃ arg, Spells line word arg
      · obtain ⟨arg, harg⟩ := hspells
        exact ⟨arg :: args, .take harg hargs⟩
      · exact ⟨args, .pass (not_exists.mp hspells) hargs⟩

/-! ## Lines that lead on, and lines that stop -/

/-- **A line that is no directive**, or that asks to sleep for what is no time. -/
def Misread (line : List Char) : Prop :=
  Bad line ∨ ∃ arg, Spells line "sleep" arg ∧ ∀ time, ¬ Lasts (String.ofList arg) time

section Lines

variable {σ : Type} (save : Path → σ → Except IoError σ)

/-- **A line leads on** from files to files. Only a number that is saved changes them. -/
inductive Leads (line : List Char) : σ → σ → Prop
  | ignored {files : σ} : Ignored line → Leads line files files
  | writes {files : σ} {arg : List Char} :
      Spells line "print" arg ∨ Spells line "eprint" arg → Leads line files files
  | sleeps {files : σ} {arg : List Char} {time : WithTop ℚ} :
      Spells line "sleep" arg → Lasts (String.ofList arg) time → time < wordOfSeconds →
        Leads line files files
  | saves {files files' : σ} {arg : List Char} :
      Spells line "pidfile" arg → save (Path.ofText (String.ofList arg)) files = .ok files' →
        Leads line files files'

/-- **A line stops a script**: by an exit, as a bad line, by a sleep that is too long, or because a number
cannot be saved. -/
inductive Halts (line : List Char) (files : σ) : Prop
  | exits {code : ℕ} : Exits line code → Halts line files
  | misread : Misread line → Halts line files
  | sleeps {arg : List Char} {time : WithTop ℚ} :
      Spells line "sleep" arg → Lasts (String.ofList arg) time → wordOfSeconds ≤ time →
        Halts line files
  | refused {arg : List Char} {cause : IoError} :
      Spells line "pidfile" arg → save (Path.ofText (String.ofList arg)) files = .error cause →
        Halts line files

/-- **Lines that all lead on**, from files to files. -/
inductive Passes : List (List Char) → σ → σ → Prop
  | nil {files : σ} : Passes [] files files
  | cons {line : List Char} {lines : List (List Char)} {files between files' : σ} :
      Leads save line files between → Passes lines between files' → Passes (line :: lines) files files'

/-- **Lines stop at a line** behind others that lead on. -/
def StopsAt (lines : List (List Char)) (files : σ) (before : List (List Char)) (stop : List Char) : Prop :=
  ∃ after files', lines = before ++ stop :: after ∧ Passes save before files files' ∧
    Halts save stop files'

/-- **Lines stop early** if they stop at any line. -/
def StopsEarly (lines : List (List Char)) (files : σ) : Prop :=
  ∃ before stop, StopsAt save lines files before stop

/-- **A line leads on or stops.** -/
theorem leads_or_halts (line : List Char) (files : σ) :
    (∃ files', Leads save line files files') ∨ Halts save line files := by
  by_cases hignored : Ignored line
  · exact Or.inl ⟨files, .ignored hignored⟩
  obtain ⟨word, arg, hspells⟩ := exists_spells line
  -- Each word of the language has a condition of its own on its argument or on the files.
  by_cases hword : word ∈ words
  · simp only [words, List.mem_cons, List.not_mem_nil, or_false] at hword
    rcases hword with rfl | rfl | rfl | rfl | rfl
    · exact Or.inl ⟨files, .writes (Or.inl hspells)⟩
    · exact Or.inl ⟨files, .writes (Or.inr hspells)⟩
    · by_cases htime : ∃ time, Lasts (String.ofList arg) time
      · obtain ⟨time, hlasts⟩ := htime
        rcases lt_or_ge time wordOfSeconds with hlt | hge
        · exact Or.inl ⟨files, .sleeps hspells hlasts hlt⟩
        · exact Or.inr (.sleeps hspells hlasts hge)
      · exact Or.inr (.misread (Or.inr ⟨arg, hspells, not_exists.mp htime⟩))
    · cases hsave : save (Path.ofText (String.ofList arg)) files with
      | ok files' => exact Or.inl ⟨files', .saves hspells hsave⟩
      | error cause => exact Or.inr (.refused hspells hsave)
    · by_cases hcode : ∃ code, Denotes arg code ∧ code < 2 ^ 8
      · obtain ⟨code, hdenotes, hlt⟩ := hcode
        exact Or.inr (.exits ⟨arg, hspells, hdenotes, hlt⟩)
      · refine Or.inr (.misread (Or.inl ⟨hignored, _, arg, hspells, Or.inr ⟨rfl, ?_⟩⟩))
        intro code hdenotes
        exact not_lt.mp fun hlt => hcode ⟨code, hdenotes, hlt⟩
  · exact Or.inr (.misread (Or.inl ⟨hignored, word, arg, hspells, Or.inl hword⟩))

/-- **Lines all lead on, or they stop early.** -/
theorem passes_or_stopsEarly (lines : List (List Char)) (files : σ) :
    (∃ files', Passes save lines files files') ∨ StopsEarly save lines files := by
  induction lines generalizing files with
  | nil => exact Or.inl ⟨files, .nil⟩
  | cons line lines ih =>
      rcases leads_or_halts save line files with ⟨between, hleads⟩ | hhalts
      · rcases ih between with ⟨files', hpasses⟩ | ⟨before, stop, after, files', rfl, hpasses, hhalts⟩
        · exact Or.inl ⟨files', .cons hleads hpasses⟩
        · exact Or.inr ⟨line :: before, stop, after, files', rfl, .cons hleads hpasses, hhalts⟩
      · exact Or.inr ⟨[], line, lines, files, rfl, .nil, hhalts⟩

/-! ## What they do -/

variable {save} {line : List Char} {files files' : σ}

theorem runLine_exits {code : ℕ} (h : Exits line code) (number : ℕ) (files : σ) :
    runLine save number line files = ⟨"", "", files, .zero, some (.exit code)⟩ := by
  rw [runLine, read_of_exits h]

theorem runLine_bad (h : Bad line) (number : ℕ) (files : σ) :
    runLine save number line files =
      ⟨"", Directive.badLine number line, files, .zero, some (.exit 2)⟩ := by
  rw [runLine, read_of_bad h]

theorem read_sleep {arg : List Char} (h : Spells line "sleep" arg) :
    Directive.read line =
      match Directive.sleep? (String.ofList arg) with
      | some time => .directive (.sleep time)
      | none => .bad := by
  rw [read_of_spells h (h.not_ignored (by decide))]
  unfold asks
  cases Directive.sleep? (String.ofList arg) <;> rfl

theorem Spells.gathers_nil {word word' : String} {arg : List Char} (h : Spells line word arg)
    (hne : word ≠ word') : Gathers word' [line] [] :=
  .pass (fun _ h' => hne (h.unique h').1) .nil

/-- **A line that leads on writes its argument**, if it has one to write. -/
theorem runLine_leads (h : Leads save line files files') :
    ∃ outs errs pause, Gathers "print" [line] outs ∧ Gathers "eprint" [line] errs ∧
      ∀ number, runLine save number line files = ⟨written outs, written errs, files', pause, none⟩ := by
  cases h with
  | ignored hignored =>
      have hnot : ∀ word ∈ words, ∀ arg, ¬ Spells line word arg :=
        fun word hword arg hspells => hspells.not_ignored hword hignored
      refine ⟨[], [], .zero, .pass (hnot _ (by decide)) .nil, .pass (hnot _ (by decide)) .nil,
        fun number => ?_⟩
      rw [runLine, read_of_ignored hignored]
      rfl
  | @writes arg hspells =>
      rcases hspells with hspells | hspells
      · refine ⟨[arg], [], .zero, .take hspells .nil, hspells.gathers_nil (by decide), fun number => ?_⟩
        rw [runLine, read_of_spells hspells (hspells.not_ignored (by decide))]
        simp [asks, written]
      · refine ⟨[], [arg], .zero, hspells.gathers_nil (by decide), .take hspells .nil, fun number => ?_⟩
        rw [runLine, read_of_spells hspells (hspells.not_ignored (by decide))]
        simp [asks, written]
  | sleeps hspells hlasts hlt =>
      obtain ⟨d, hd⟩ := (sleep?_of_lasts hlasts).2 hlt
      refine ⟨[], [], d, hspells.gathers_nil (by decide), hspells.gathers_nil (by decide),
        fun number => ?_⟩
      rw [runLine, read_sleep hspells, hd]
      rfl
  | saves hspells hsave =>
      refine ⟨[], [], .zero, hspells.gathers_nil (by decide), hspells.gathers_nil (by decide),
        fun number => ?_⟩
      rw [runLine, read_of_spells hspells (hspells.not_ignored (by decide))]
      simp [asks, hsave, written]

/-- **A bad line is diagnosed with its number.** -/
theorem runLine_misread (h : Misread line) (number : ℕ) (files : σ) :
    runLine save number line files =
      ⟨"", Directive.badLine number line, files, .zero, some (.exit 2)⟩ := by
  rcases h with hbad | ⟨arg, hspells, hno⟩
  · exact runLine_bad hbad number files
  · have hnone : Directive.sleep? (String.ofList arg) = none := by
      by_contra hsome
      obtain ⟨r, hr⟩ := Option.ne_none_iff_exists'.mp hsome
      obtain ⟨time, hlasts⟩ := exists_lasts_of_sleep? hr
      exact hno time hlasts
    rw [runLine, read_sleep hspells, hnone]

/-- **Any other line that stops a script does not depend on its number.** -/
theorem runLine_halts (h : Halts save line files) :
    Misread line ∨ ∃ err ending, ∀ number,
      runLine save number line files = ⟨"", err, files, .zero, some ending⟩ := by
  cases h with
  | exits hexits => exact Or.inr ⟨_, _, fun number => runLine_exits hexits number files⟩
  | misread hmisread => exact Or.inl hmisread
  | sleeps hspells hlasts hge =>
      refine Or.inr ⟨"", .panic, fun number => ?_⟩
      rw [runLine, read_sleep hspells, (sleep?_of_lasts hlasts).1 hge]
  | @refused arg cause hspells hsave =>
      refine Or.inr ⟨Directive.cannotSave (Path.ofText (String.ofList arg)) cause, .exit 2,
        fun number => ?_⟩
      rw [runLine, read_of_spells hspells (hspells.not_ignored (by decide))]
      simp only [asks, hsave]

/-- **What is behind a stop does nothing.** -/
theorem runLines_halts (h : Halts save line files) (number : ℕ) (after more : List (List Char)) :
    runLines save number (line :: after ++ more) files = runLines save number (line :: after) files := by
  have hends : ∃ effect ending, runLine save number line files = effect ∧
      effect.ending = some ending := by
    rcases runLine_halts h with hmisread | ⟨err, ending, hrun⟩
    · exact ⟨_, _, runLine_misread hmisread number files, rfl⟩
    · exact ⟨_, ending, hrun number, rfl⟩
  obtain ⟨effect, ending, hrun, hending⟩ := hends
  rw [List.cons_append, runLines, runLines, hrun]
  simp only [hending]

/-- **Lines that lead on write their arguments**, and what is behind them is run in the files that they
leave behind, with the numbers behind theirs. -/
theorem runLines_passes {before : List (List Char)} (h : Passes save before files files') :
    ∃ outs errs, Gathers "print" before outs ∧ Gathers "eprint" before errs ∧
      ∀ number rest, runLines save number (before ++ rest) files =
        (runLines save (number + before.length) rest files').behind (written outs) (written errs) := by
  -- What is written is found without a number, so that it is the same for all of them.
  induction h with
  | nil =>
      refine ⟨[], [], .nil, .nil, fun number rest => ?_⟩
      simp [Transcript.behind, written]
  | @cons line lines files between files' hleads _ ih =>
      obtain ⟨outs, errs, pause, houts, herrs, hrun⟩ := runLine_leads hleads
      obtain ⟨outs', errs', houts', herrs', hruns⟩ := ih
      refine ⟨outs ++ outs', errs ++ errs', houts.append houts', herrs.append herrs', ?_⟩
      intro number rest
      have hnumber : number + (line :: lines).length = number + 1 + lines.length := by
        rw [List.length_cons]
        omega
      calc runLines save number (line :: lines ++ rest) files =
            (runLines save (number + 1) (lines ++ rest) between).behind (written outs)
              (written errs) := by
            rw [List.cons_append, runLines, hrun]
            rfl
        _ = _ := by rw [hruns, Transcript.behind_behind, written_append, written_append, hnumber]

/-! ## One or the other -/

theorem Leads.not_halts (h : Leads save line files files') : ¬ Halts save line files := by
  intro hhalts
  obtain ⟨outs, errs, pause, -, -, hrun⟩ := runLine_leads h
  rcases runLine_halts hhalts with hmisread | ⟨err, ending, hrun'⟩
  · have hends := (hrun 0).symm.trans (runLine_misread hmisread 0 files)
    cases congrArg LineEffect.ending hends
  · have hends := (hrun 0).symm.trans (hrun' 0)
    cases congrArg LineEffect.ending hends

theorem Leads.unique {files'' : σ} (h : Leads save line files files')
    (h' : Leads save line files files'') : files' = files'' := by
  obtain ⟨outs, errs, pause, -, -, hrun⟩ := runLine_leads h
  obtain ⟨outs', errs', pause', -, -, hrun'⟩ := runLine_leads h'
  exact congrArg LineEffect.files ((hrun 0).symm.trans (hrun' 0))

/-- **Lines that all lead on do not stop early.** -/
theorem Passes.not_stopsEarly {lines : List (List Char)} (h : Passes save lines files files') :
    ¬ StopsEarly save lines files := by
  -- The lines before the stop are the same lines, and they lead to the same files.
  induction h with
  | nil =>
      rintro ⟨before, stop, after, files', hlines, -⟩
      exact absurd hlines.symm (List.append_ne_nil_of_right_ne_nil _ (List.cons_ne_nil _ _))
  | cons hleads _ ih =>
      rintro ⟨before, stop, after, files', hlines, hpasses, hhalts⟩
      cases hpasses with
      | nil =>
          obtain ⟨rfl, -⟩ := List.cons.inj hlines
          exact hleads.not_halts hhalts
      | cons hleads' hpasses =>
          obtain ⟨rfl, rfl⟩ := List.cons.inj hlines
          obtain rfl := hleads.unique hleads'
          exact ih ⟨_, stop, after, files', rfl, hpasses, hhalts⟩

end Lines

/-! ## The interpreter -/

/-- **A script whose path and content are text is run as the lines of that text.** -/
theorem invoke_text {σ : Type} {read : Path → σ → Except IoError Bytes}
    (save : Path → σ → Except IoError σ) {script body : String} {lines : List (List Char)}
    {files : σ} (hread : read ⟨Utf8.encode script⟩ files = .ok (Utf8.encode body))
    (hlines : Lines body.toList lines) :
    invoke read save [Utf8.encode script] files = runLines save 1 lines files := by
  have hload : load (fun file => read file files) [Utf8.encode script] = .ok body := by
    rw [load, Utf8.decode?_encode, if_neg (by simp)]
    simp only [hread, Utf8.decode?_encode]
  rw [invoke, hload]
  show run save body files = _
  rw [run, hlines.linesOf_eq]

end Script

end Conformance
