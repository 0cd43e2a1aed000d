import Conformance.Proofs.Totals
import Conformance.Proofs.Walk.Outcome
import Conformance.Proofs.Walk.Trail

set_option autoImplicit false

/-! # A walk follows the trail

The recursive walk `Walk.visit`, with its depth, its nested totals and its report, does what the
trail of its directory says (`Walk.follows_visit`): it plays the acts of the scripts on a beginning
of the trail, and its result tells where on the trail it has stopped (`Fate`) — at the end, with
the exact totals; before a directory that cannot be listed; or because the cases are too many for
the totals, or the directories too deep.

The lemmas follow the definitions they are about: one path, a list of paths, and a directory.
-/

namespace Conformance

/-! ## The scripts on a trail -/

def Settings.scripts (s : Settings) (sights : List Sight) : List TestCase :=
  ((Sight.files sights).filter s.isScript).map TestCase.mk

def Settings.casesActs (s : Settings) (outcome : TestCase → Outcome) (cs : List TestCase) :
    List Act :=
  cs.flatMap (s.caseActs outcome)

def Totals.CountsCases (t : Totals) (outcome : TestCase → Outcome) (cs : List TestCase) : Prop :=
  t.Counts cs.length (cs.countP fun c => (outcome c).passes)

theorem Totals.CountsCases.unique {outcome : TestCase → Outcome} {t t' : Totals}
    {cs : List TestCase} (h : t.CountsCases outcome cs) (h' : t'.CountsCases outcome cs) :
    t = t' := Totals.Counts.unique h h'

namespace Settings

variable {s : Settings} {outcome : TestCase → Outcome}

@[simp] theorem scripts_nil : s.scripts [] = [] := rfl

@[simp] theorem scripts_append (sights more : List Sight) :
    s.scripts (sights ++ more) = s.scripts sights ++ s.scripts more := by
  simp [scripts, Sight.files]

@[simp] theorem scripts_directory (dir : Path) (sights : List Sight) :
    s.scripts (.directory dir :: sights) = s.scripts sights := rfl

theorem scripts_file (p : Path) :
    s.scripts [.file p] = if s.isScript p then [⟨p⟩] else [] := by
  cases h : s.isScript p <;> simp [scripts, Sight.files, Sight.file?, h]

theorem mem_scripts {sights : List Sight} {p : Path} :
    (⟨p⟩ : TestCase) ∈ s.scripts sights ↔ .file p ∈ sights ∧ s.isScript p = true := by
  simp [scripts]

@[simp] theorem casesActs_nil : s.casesActs outcome [] = [] := rfl

@[simp] theorem casesActs_singleton (c : TestCase) :
    s.casesActs outcome [c] = s.caseActs outcome c := by
  simp [casesActs]

@[simp] theorem casesActs_append (cs ds : List TestCase) :
    s.casesActs outcome (cs ++ ds) = s.casesActs outcome cs ++ s.casesActs outcome ds := by
  simp [casesActs]

end Settings

/-! ## Where a walk stops -/

/-- **Where a walk has stopped, and with what result.** When it started it had counted the cases
`counted`; on its trail it has met `sights`, and `last` is left to be done. -/
inductive Fate (v : View) (s : Settings) (outcome : TestCase → Outcome) (depth : Nat)
    (counted : List TestCase) (sights : List Sight) : List Todo → Except Stop Totals → Prop
  /-- Nothing is left to be done and everything is counted. -/
  | done {t : Totals} : t.CountsCases outcome (counted ++ s.scripts sights) →
      Fate v s outcome depth counted sights [] (.ok t)
  | blocked {dir : Path} {cause : IoError} (rest : List Todo) : v.list dir = .error cause →
      Fate v s outcome depth counted sights (.enter dir :: rest)
        (.error (.failed (.discovery dir cause)))
  /-- The cases are too many for the totals. -/
  | overflow (last : List Todo) : UInt64.size ≤ (counted ++ s.scripts sights).length →
      Fate v s outcome depth counted sights last (.error (.overflow .add))
  | tooDeep (last : List Todo) : depth ≤ sights.length →
      Fate v s outcome depth counted sights last (.error .tooDeep)

namespace Fate

variable {v : View} {s : Settings} {outcome : TestCase → Outcome} {depth : Nat}
  {counted : List TestCase} {sights : List Sight} {last : List Todo}

/-- A walk that has stopped early has stopped early in every larger walk. -/
theorem error_append {reason : Stop} (before : List Sight) (counted' : List TestCase)
    (rest : List Todo) (hcounted : counted.length ≤ (counted' ++ s.scripts before).length)
    (h : Fate v s outcome depth counted sights last (.error reason)) :
    Fate v s outcome depth counted' (before ++ sights) (last ++ rest) (.error reason) := by
  cases h with
  | blocked others hl => exact .blocked (others ++ rest) hl
  | overflow _ hmany =>
      refine .overflow _ ?_
      simp only [Settings.scripts_append, List.length_append] at hmany hcounted ⊢
      omega
  | tooDeep _ hdeep =>
      refine .tooDeep _ ?_
      simp only [List.length_append]
      omega

end Fate

namespace Walk

variable {v : View} {s : Settings} {outcome : TestCase → Outcome} {depth : Nat}

/-- **The walk `x` follows the trail of some todos**, from totals that count the cases `counted`:
it plays the acts of the scripts it meets. -/
def Follows (v : View) (s : Settings) (outcome : TestCase → Outcome) (depth : Nat)
    (counted : List TestCase) (x : Walk (List TestCase) Totals) (todos : List Todo) : Prop :=
  ∃ sights last r, v.Trail todos sights last ∧
    Plays x (s.casesActs outcome (s.scripts sights)) r ∧
    Fate v s outcome depth counted sights last r

/-- Totals that are counted on and handed back follow the trail if all that was met has been
counted, or if counting was refused. -/
theorem follows_count {x : Walk (List TestCase) Totals} {todos : List Todo} {sights : List Sight}
    {counted : List TestCase} (count : Except Overflow Totals)
    (ht : v.Trail todos sights [])
    (hx : Plays x (s.casesActs outcome (s.scripts sights)) (count.mapError .overflow))
    (hcount : (∃ t, count = .ok t ∧ t.CountsCases outcome (counted ++ s.scripts sights)) ∨
      UInt64.size ≤ (counted ++ s.scripts sights).length ∧ count = .error .add) :
    Follows v s outcome depth counted x todos := by
  rcases hcount with ⟨t, rfl, hc⟩ | ⟨hmany, rfl⟩
  · exact ⟨sights, [], _, ht, hx, .done hc⟩
  · exact ⟨sights, [], _, ht, hx, .overflow [] hmany⟩

theorem follows_visitPath {enter : Path → Walk (List TestCase) Totals}
    (henter : ∀ dir, Follows v s outcome depth [] (enter dir) [.enter dir])
    {t : Totals} {counted : List TestCase} (ht : t.CountsCases outcome counted) (p : Path) :
    Follows v s outcome depth counted (visitPath (v.machineOf outcome) s enter t p) [.look p] := by
  have hask : Plays (ask ((v.machineOf outcome).isDirectory p)) [] (.ok (v.isDirectory p)) :=
    .ask _
  unfold visitPath
  cases hd : v.isDirectory p with
  | true =>
      rw [hd] at hask
      obtain ⟨sights, last, r, htrail, hplays, hfate⟩ := henter p
      have htrail' : v.Trail [.look p] sights last := (View.Trail.descend [] hd).trans htrail
      cases r with
      | error reason =>
          refine ⟨sights, last, .error reason, htrail', ?_, ?_⟩
          · exact hask.bind (.bind_error _ hplays)
          · have := hfate.error_append [] counted [] (by simp)
            rwa [List.append_nil] at this
      | ok inner =>
          cases hfate with
          | done hinner =>
              -- The totals of the directory are counted on top of those from before.
              refine follows_count (t.add inner) htrail' ?_ ?_
              · refine .of_eq (.bind hask (.bind hplays (.orStop .overflow (t.add inner)))) ?_
                simp
              · simpa [Totals.CountsCases] using ht.add hinner
  | false =>
      rw [hd] at hask
      have htrail : v.Trail [.look p] [.file p] [] := .pass [] hd
      cases hs : s.isScript p with
      | true =>
          refine follows_count (t.record (outcome ⟨p⟩).passes) htrail ?_ ?_
          · refine .of_eq (.bind hask (.bind (plays_runCase v s outcome ⟨p⟩)
              (.orStop .overflow (t.record (outcome ⟨p⟩).passes)))) ?_
            simp [Settings.scripts_file, hs]
          · have := ht.record (outcome ⟨p⟩).passes
            simpa [Settings.scripts_file, hs, Totals.CountsCases,
              List.countP_singleton, Bool.toNat, Bool.cond_eq_ite] using this
      | false =>
          refine ⟨[.file p], [], .ok t, htrail, ?_, .done ?_⟩
          · refine .of_eq (.bind hask (.pure t)) ?_
            simp [Settings.scripts_file, hs]
          · simpa [Settings.scripts_file, hs] using ht

theorem follows_visitPaths {enter : Path → Walk (List TestCase) Totals}
    (henter : ∀ dir, Follows v s outcome depth [] (enter dir) [.enter dir]) (ps : List Path)
    {t : Totals} (counted : List TestCase) (ht : t.CountsCases outcome counted) :
    Follows v s outcome depth counted (visitPaths (v.machineOf outcome) s enter t ps)
      (ps.map .look) := by
  induction ps generalizing t counted with
  | nil => exact ⟨[], [], .ok t, .refl _, .pure t, .done (by simpa using ht)⟩
  | cons p ps ih =>
      obtain ⟨sights, last, r, htrail, hplays, hfate⟩ := follows_visitPath henter ht p
      have htrail' := htrail.append (ps.map .look)
      cases r with
      | error reason =>
          refine ⟨sights, last ++ ps.map Todo.look, .error reason, htrail', ?_, ?_⟩
          · exact .bind_error _ hplays
          · exact hfate.error_append [] counted _ (by simp)
      | ok t' =>
          cases hfate with
          | done ht' =>
              obtain ⟨more, last', r', htrail'', hplays', hfate'⟩ := ih _ ht'
              refine ⟨sights ++ more, last', r', htrail'.trans htrail'', ?_, ?_⟩
              · refine .of_eq (.bind hplays hplays') ?_
                simp
              · cases r' with
                | error reason =>
                    have := hfate'.error_append sights counted [] (by simp)
                    rwa [List.append_nil] at this
                | ok t'' =>
                    cases hfate' with
                    | done ht'' => exact .done (by simpa using ht'')

theorem follows_visit (v : View) (s : Settings) (outcome : TestCase → Outcome) (depth : Nat)
    (dir : Path) :
    Follows v s outcome depth [] (visit (v.machineOf outcome) s depth dir) [.enter dir] := by
  induction depth generalizing dir with
  | zero => exact ⟨[], _, .error .tooDeep, .refl _, .stop .tooDeep, .tooDeep _ (Nat.zero_le _)⟩
  | succ depth ih =>
      have hask : Plays (ask ((v.machineOf outcome).list dir)) [] (.ok (v.list dir)) := .ask _
      cases hl : v.list dir with
      | error cause =>
          rw [hl] at hask
          refine ⟨[], _, _, .refl _, ?_, .blocked [] hl⟩
          have hstop : Plays (orStop (fun cause => .failed (.discovery dir cause))
              (.error cause : Except IoError (List Bytes))) [] _ := .orStop _ _
          exact hask.bind (.bind_error _ hstop)
      | ok names =>
          rw [hl] at hask
          obtain ⟨sights, last, r, htrail, hplays, hfate⟩ :=
            follows_visitPaths ih (entryPaths dir names) [] Totals.counts_zero
          -- The trail of the directory is that of its entries, behind the directory itself.
          have htrail' : v.Trail [.enter dir] ([.directory dir] ++ sights) last := by
            have h := View.Trail.enter [] hl
            rw [List.append_nil] at h
            exact h.trans htrail
          refine ⟨[.directory dir] ++ sights, last, r, htrail', ?_, ?_⟩
          · have hnames : Plays (orStop (fun cause => .failed (.discovery dir cause))
                (.ok names : Except IoError (List Bytes))) [] (.ok names) := .orStop _ _
            refine .of_eq (.bind hask (.bind hnames hplays)) ?_
            simp
          · cases hfate with
            | done ht => exact .done (by simpa using ht)
            | blocked rest h => exact .blocked rest h
            | overflow _ hmany => exact .overflow _ (by simpa using hmany)
            | tooDeep _ hdeep => exact .tooDeep _ (by simpa using hdeep)

end Walk

end Conformance
