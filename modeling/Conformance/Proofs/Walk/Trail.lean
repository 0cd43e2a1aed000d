import Conformance.Walk

set_option autoImplicit false

/-! # The trail of a walk

In which order a walk meets the files of a view, said without depth, totals or reports. What is
still to be done is a list of `Todo`s, and one step takes the first of them: a directory that is
entered is replaced by its entries, in the order of their names, and a path that is looked at is
either a directory to be entered or a file that is met. This is depth-first order. A trail is any
number of steps (`View.Trail`); it gets stuck when nothing is left to be done or when the directory
to be entered cannot be listed (`View.stuck_iff`).

A trail has no choice: two trails from the same todos are beginnings of one another
(`View.Trail.comparable`), so that there is at most one stuck trail (`View.Trail.stuck_unique`).
Steps can be computed, and so can a trail of any length (`View.advance`).
-/

namespace Conformance

inductive Todo where
  | enter (dir : Path)
  | look (p : Path)
  deriving DecidableEq, Repr

inductive Sight where
  | directory (dir : Path)
  | file (p : Path)
  deriving DecidableEq, Repr

def Sight.file? : Sight → Option Path
  | .directory _ => none
  | .file p => some p

def Sight.files (sights : List Sight) : List Path := sights.filterMap file?

@[simp] theorem Sight.mem_files {sights : List Sight} {p : Path} :
    p ∈ files sights ↔ .file p ∈ sights := by
  simp only [files, List.mem_filterMap]
  constructor
  · rintro ⟨sight, hmem, h⟩
    cases sight with
    | directory dir => cases h
    | file q =>
        cases h
        exact hmem
  · intro h
    exact ⟨.file p, h, rfl⟩

namespace View

variable {v : View}

/-- What a walk meets next and what is then left to be done. There is no next step when nothing is
left, or when a directory cannot be listed. -/
def step (v : View) : List Todo → Option (List Sight × List Todo)
  | [] => none
  | .enter dir :: rest =>
    match v.list dir with
    | .ok names => some ([.directory dir], (Walk.entryPaths dir names).map .look ++ rest)
    | .error _ => none
  | .look p :: rest =>
    if v.isDirectory p then some ([], .enter p :: rest) else some ([.file p], rest)

/-- **The trail from what is to be done to what is left of it**, and what is met on it. -/
inductive Trail (v : View) : List Todo → List Sight → List Todo → Prop
  | refl (todos : List Todo) : Trail v todos [] todos
  | cons {todos todos' last : List Todo} {sights more : List Sight} :
      v.step todos = some (sights, todos') → Trail v todos' more last →
      Trail v todos (sights ++ more) last

def Stuck (v : View) (todos : List Todo) : Prop := v.step todos = none

theorem stuck_nil : v.Stuck [] := rfl

theorem stuck_enter {dir : Path} {cause : IoError} (rest : List Todo)
    (h : v.list dir = .error cause) : v.Stuck (.enter dir :: rest) := by
  simp [Stuck, step, h]

/-- **A walk is stuck at its end, or before a directory that cannot be listed.** -/
theorem stuck_iff {todos : List Todo} :
    v.Stuck todos ↔
      todos = [] ∨ ∃ dir cause rest, todos = .enter dir :: rest ∧ v.list dir = .error cause := by
  constructor
  · intro h
    match todos with
    | [] => exact Or.inl rfl
    | .look p :: rest =>
        exfalso
        simp only [Stuck, step] at h
        split at h <;> cases h
    | .enter dir :: rest =>
        cases hl : v.list dir with
        | error cause => exact Or.inr ⟨dir, cause, rest, rfl, hl⟩
        | ok names => simp [Stuck, step, hl] at h
  · rintro (rfl | ⟨dir, cause, rest, rfl, h⟩)
    · exact stuck_nil
    · exact stuck_enter rest h

/-! ## Steps and trails -/

/-- **Every step** replaces a directory by its entries, or a path by the directory it leads to. -/
theorem step_cases {todos todos' : List Todo} {sights : List Sight}
    (h : v.step todos = some (sights, todos')) :
    (∃ dir names rest, todos = .enter dir :: rest ∧ v.list dir = .ok names ∧
        sights = [.directory dir] ∧ todos' = (Walk.entryPaths dir names).map .look ++ rest) ∨
      (∃ p rest, todos = .look p :: rest ∧ v.isDirectory p = true ∧ sights = [] ∧
        todos' = .enter p :: rest) ∨
      ∃ p rest, todos = .look p :: rest ∧ v.isDirectory p = false ∧ sights = [.file p] ∧
        todos' = rest := by
  match todos with
  | [] => cases h
  | .enter dir :: rest =>
      cases hl : v.list dir with
      | error cause => simp [step, hl] at h
      | ok names =>
          simp only [step, hl, Option.some.injEq, Prod.mk.injEq] at h
          exact Or.inl ⟨dir, names, rest, rfl, hl, h.1.symm, h.2.symm⟩
  | .look p :: rest =>
      cases hd : v.isDirectory p with
      | true =>
          simp only [step, hd, if_pos, Option.some.injEq, Prod.mk.injEq] at h
          exact Or.inr (Or.inl ⟨p, rest, rfl, hd, h.1.symm, h.2.symm⟩)
      | false =>
          simp only [step, hd, Bool.false_eq_true, if_false, Option.some.injEq,
            Prod.mk.injEq] at h
          exact Or.inr (Or.inr ⟨p, rest, rfl, hd, h.1.symm, h.2.symm⟩)

/-- What is to be done later does not matter for a step. -/
theorem step_append {todos todos' : List Todo} {sights : List Sight} (rest : List Todo)
    (h : v.step todos = some (sights, todos')) :
    v.step (todos ++ rest) = some (sights, todos' ++ rest) := by
  rcases step_cases h with ⟨dir, names, others, rfl, hl, rfl, rfl⟩ |
    ⟨p, others, rfl, hd, rfl, rfl⟩ | ⟨p, others, rfl, hd, rfl, rfl⟩
  · simp [step, hl]
  · simp [step, hd]
  · simp [step, hd]

namespace Trail

variable {todos todos' last : List Todo} {sights more : List Sight}

theorem single (h : v.step todos = some (sights, todos')) : v.Trail todos sights todos' := by
  have := cons h (refl todos')
  rwa [List.append_nil] at this

theorem trans (h : v.Trail todos sights todos') (h' : v.Trail todos' more last) :
    v.Trail todos (sights ++ more) last := by
  induction h with
  | refl _ => exact h'
  | cons hs _ ih =>
      rw [List.append_assoc]
      exact cons hs (ih h')

theorem append (rest : List Todo) (h : v.Trail todos sights todos') :
    v.Trail (todos ++ rest) sights (todos' ++ rest) := by
  induction h with
  | refl _ => exact refl _
  | cons hs _ ih => exact cons (step_append rest hs) ih

theorem enter {dir : Path} {names : List Bytes} (rest : List Todo) (h : v.list dir = .ok names) :
    v.Trail (.enter dir :: rest) [.directory dir]
      ((Walk.entryPaths dir names).map .look ++ rest) :=
  single (by simp [step, h])

theorem descend {p : Path} (rest : List Todo) (h : v.isDirectory p = true) :
    v.Trail (.look p :: rest) [] (.enter p :: rest) :=
  single (by simp [step, h])

theorem pass {p : Path} (rest : List Todo) (h : v.isDirectory p = false) :
    v.Trail (.look p :: rest) [.file p] rest :=
  single (by simp [step, h])

/-- **Of two trails from the same start one is the beginning of the other.** -/
theorem comparable {todos₁ todos₂ : List Todo} {sights₁ sights₂ : List Sight}
    (h₁ : v.Trail todos sights₁ todos₁) (h₂ : v.Trail todos sights₂ todos₂) :
    (∃ more, v.Trail todos₁ more todos₂ ∧ sights₂ = sights₁ ++ more) ∨
      ∃ more, v.Trail todos₂ more todos₁ ∧ sights₁ = sights₂ ++ more := by
  induction h₁ generalizing sights₂ with
  | refl _ => exact Or.inl ⟨sights₂, h₂, rfl⟩
  | cons hs rest₁ ih =>
      cases h₂ with
      | refl _ => exact Or.inr ⟨_, cons hs rest₁, rfl⟩
      | cons hs' rest₂ =>
          -- Both trails have taken the same first step.
          rw [hs] at hs'
          cases hs'
          rcases ih rest₂ with ⟨more, hm, rfl⟩ | ⟨more, hm, rfl⟩
          · exact Or.inl ⟨more, hm, (List.append_assoc ..).symm⟩
          · exact Or.inr ⟨more, hm, (List.append_assoc ..).symm⟩

theorem of_stuck (hs : v.Stuck todos) (h : v.Trail todos sights last) :
    sights = [] ∧ last = todos := by
  cases h with
  | refl _ => exact ⟨rfl, rfl⟩
  | cons hs' _ =>
      rw [Stuck, hs'] at hs
      cases hs

/-- **Every trail is a beginning of the stuck one.** -/
theorem prefix_of_stuck (h : v.Trail todos sights last) (hs : v.Stuck last)
    (h' : v.Trail todos more todos') :
    ∃ rest, v.Trail todos' rest last ∧ sights = more ++ rest := by
  rcases comparable h h' with ⟨rest, hr, rfl⟩ | ⟨rest, hr, rfl⟩
  · obtain ⟨rfl, rfl⟩ := of_stuck hs hr
    exact ⟨[], refl _, by simp⟩
  · exact ⟨rest, hr, rfl⟩

theorem stuck_unique (h : v.Trail todos sights last) (hs : v.Stuck last)
    (h' : v.Trail todos more todos') (hs' : v.Stuck todos') : more = sights ∧ todos' = last := by
  obtain ⟨rest, hr, rfl⟩ := prefix_of_stuck h hs h'
  obtain ⟨rfl, rfl⟩ := of_stuck hs' hr
  exact ⟨(List.append_nil _).symm, rfl⟩

end Trail

/-- Takes so many steps, or as many as can be taken. -/
def advance (v : View) : Nat → List Todo → List Sight × List Todo
  | 0, todos => ([], todos)
  | n + 1, todos =>
    match v.step todos with
    | none => ([], todos)
    | some (sights, todos') =>
      let (more, last) := v.advance n todos'
      (sights ++ more, last)

theorem Trail.of_advance (n : Nat) {todos last : List Todo} {sights : List Sight}
    (h : v.advance n todos = (sights, last)) : v.Trail todos sights last := by
  induction n generalizing todos sights with
  | zero =>
      cases h
      exact refl _
  | succ n ih =>
      rw [advance] at h
      cases hs : v.step todos with
      | none =>
          rw [hs] at h
          cases h
          exact refl _
      | some next =>
          rw [hs] at h
          cases h
          exact cons hs (ih rfl)

end View

end Conformance
