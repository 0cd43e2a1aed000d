import Mathlib
import Conformance.Proofs.Walk.Listings
import Conformance.Proofs.Walk.Stopping

set_option autoImplicit false

/-! # How deep a walk goes

`View.Shallow v n dir` bounds the nesting of the directories below `dir`, that directory included. A
walk that may go as deep as that never stops for being too deep (`Walk.finishes_visit`), and it does the
same however much deeper it might go (`Walk.visit_eq`). Both hold on every machine that shows these
files (`Machine.Shows`), whatever running a case does to its state.

No directory is met twice on a trail (`View.Trail.nodup_directories`): what is met after a directory
lies apart from it or below it, and what lies below has a longer path name.
-/

namespace Conformance

/-- **A machine whose files are those of a view**, in every state. -/
structure Machine.Shows {σ : Type} (m : Machine σ) (v : View) : Prop where
  list : ∀ dir state, m.list dir state = v.list dir
  isDirectory : ∀ p state, m.isDirectory p state = v.isDirectory p

namespace View

variable {v : View}

theorem shows_machine (v : View) (results : TestCase → Except Error Execution) :
    (v.machine results).Shows v :=
  ⟨fun _ _ => rfl, fun _ _ => rfl⟩

/-! ## Nested directories -/

/-- **Directories are nested `n` deep at most from here on**, with this one counted. -/
def Shallow (v : View) : ℕ → Path → Prop
  | 0, _ => False
  | n + 1, dir => ∀ sub, v.Subdirectory sub dir → v.Shallow n sub

theorem Shallow.mono {n k : ℕ} {dir : Path} (h : v.Shallow n dir) (hle : n ≤ k) :
    v.Shallow k dir := by
  induction n generalizing k dir with
  | zero => exact h.elim
  | succ n ih =>
      cases k with
      | zero => exact absurd hle (Nat.not_succ_le_zero n)
      | succ k =>
          intro sub hsub
          exact ih (h sub hsub) (Nat.le_of_succ_le_succ hle)

/-- A directory that cannot be listed has nothing below it. -/
theorem shallow_of_error {dir : Path} {cause : IoError} (h : v.list dir = .error cause) (n : ℕ) :
    v.Shallow (n + 1) dir := by
  rintro sub ⟨-, names, name, hl, -, -⟩
  rw [h] at hl
  cases hl

theorem Shallow.founded {n : ℕ} {dir : Path} (h : v.Shallow n dir) : v.Founded dir := by
  induction n generalizing dir with
  | zero => exact h.elim
  | succ n ih => exact Acc.intro dir fun sub hsub => ih (h sub hsub)

end View

namespace Walk

variable {σ α : Type} {m : Machine σ} {s : Settings} {v : View}

/-! ## Walks that are deep enough -/

/-- **A walk never stops for being too deep.** -/
def Finishes (x : Walk σ α) : Prop := ∀ session, (x session).1 ≠ .error .tooDeep

theorem finishes_iff {x : Walk σ α} : Finishes x ↔ StopsBy (· ≠ .tooDeep) x := by
  constructor
  · rintro h session reason hreason rfl
    exact h session hreason
  · intro h session hdeep
    exact h session .tooDeep hdeep rfl

/-- A report may be refused, and totals may be too great, however deep the walk. -/
theorem routine_ne_tooDeep : Routine (· ≠ .tooDeep) where
  overflow _ := nofun
  io _ := nofun
  json _ := nofun

theorem subdirectory_of_mem {dir p : Path} {names : List Bytes} (hl : v.list dir = .ok names)
    (hp : p ∈ entryPaths dir names) (hd : v.isDirectory p = true) : v.Subdirectory p dir := by
  obtain ⟨name, hname, rfl⟩ := View.mem_entryPaths.mp hp
  exact ⟨hd, names, name, hl, hname, rfl⟩

/-- **A walk finishes that may go as deep as directories are nested.** -/
theorem finishes_visit (hm : m.Shows v) {depth : ℕ} {dir : Path} (h : v.Shallow depth dir) :
    Finishes (visit m s depth dir) := by
  rw [finishes_iff]
  induction depth generalizing dir with
  | zero => exact h.elim
  | succ depth ih =>
      intro session
      rw [visit_succ, hm.list]
      cases hl : v.list dir with
      | error cause => exact stopsBy_stop nofun session
      | ok names =>
          have henter : ∀ p ∈ entryPaths dir names, ∀ state, m.isDirectory p state = true →
              StopsBy (· ≠ .tooDeep) (visit m s depth p) := by
            intro p hp state hd
            rw [hm.isDirectory] at hd
            exact ih (h p (subdirectory_of_mem hl hp hd))
          exact stopsBy_visitPaths routine_ne_tooDeep (fun _ _ _ _ => nofun) henter Totals.zero session

/-! ## Greater depths make no difference -/

theorem visitPaths_eq_of_enter (hm : m.Shows v) {enter enter' : Path → Walk σ Totals}
    {ps : List Path} (h : ∀ p ∈ ps, v.isDirectory p = true → enter p = enter' p) (t : Totals) :
    visitPaths m s enter t ps = visitPaths m s enter' t ps := by
  have hpath : ∀ p ∈ ps, ∀ t, visitPath m s enter t p = visitPath m s enter' t p := by
    intro p hp t
    funext session
    rw [visitPath_apply, visitPath_apply, hm.isDirectory]
    split
    · next hd => rw [h p hp hd]
    · rfl
  induction ps generalizing t with
  | nil => rfl
  | cons p ps ih =>
      obtain ⟨hp, hps⟩ := List.forall_mem_cons.mp h
      obtain ⟨hpath, hpaths⟩ := List.forall_mem_cons.mp hpath
      have htail : (fun t => visitPaths m s enter t ps) = fun t => visitPaths m s enter' t ps :=
        funext fun t => ih hps t hpaths
      rw [visitPaths, visitPaths, hpath]
      exact congrArg (visitPath m s enter' t p >>= ·) htail

/-- **A walk does the same however deep it may go**, if that is deep enough. -/
theorem visit_eq (hm : m.Shows v) {n depth : ℕ} {dir : Path} (h : v.Shallow n dir)
    (hle : n ≤ depth) : visit m s depth dir = visit m s n dir := by
  induction n generalizing depth dir with
  | zero => exact h.elim
  | succ n ih =>
      cases depth with
      | zero => exact absurd hle (Nat.not_succ_le_zero n)
      | succ depth =>
          funext session
          rw [visit_succ, visit_succ, hm.list]
          cases hl : v.list dir with
          | error cause => rfl
          | ok names =>
              have henter : ∀ p ∈ entryPaths dir names, v.isDirectory p = true →
                  visit m s depth p = visit m s n p :=
                fun p hp hd => ih (h p (subdirectory_of_mem hl hp hd)) (Nat.le_of_succ_le_succ hle)
              exact congrFun (visitPaths_eq_of_enter hm henter Totals.zero) session

/-- **A run of all suites that may go deep enough** is never stopped for its depth, and any greater
depth gives the same run. -/
theorem runSuites_deep_enough (hm : m.Shows v) {n depth : ℕ} (h : v.Shallow n s.root)
    (hle : n ≤ depth) :
    Finishes (runSuites m s depth) ∧ runSuites m s depth = runSuites m s n := by
  constructor
  · rw [finishes_iff]
    exact stopsBy_runSuites routine_ne_tooDeep (finishes_iff.mp (finishes_visit hm (h.mono hle)))
  · rw [runSuites, runSuites, visit_eq hm h hle]

end Walk

/-! ## Directories are met once -/

def Sight.directory? : Sight → Option Path
  | .directory dir => some dir
  | .file _ => none

def Sight.directories (sights : List Sight) : List Path := sights.filterMap directory?

@[simp] theorem Sight.directories_append (sights more : List Sight) :
    directories (sights ++ more) = directories sights ++ directories more :=
  List.filterMap_append

theorem Sight.mem_directories {sights : List Sight} {dir : Path} :
    dir ∈ directories sights ↔ .directory dir ∈ sights := by
  rw [directories, List.mem_filterMap]
  constructor
  · rintro ⟨sight, hmem, h⟩
    cases sight with
    | directory d =>
        cases h
        exact hmem
    | file p => cases h
  · intro h
    exact ⟨.directory dir, h, rfl⟩

namespace View

variable {v : View}

/-- A path that cannot be the directory `dir`: it lies apart from it, or has a longer path name. -/
def Beyond (dir p : Path) : Prop := dir.Apart p ∨ dir.bytes.length < p.bytes.length

theorem Beyond.ne {dir p : Path} (h : Beyond dir p) : p ≠ dir := by
  rintro rfl
  rcases h with hapart | hlonger
  · exact hapart.ne rfl
  · exact Nat.lt_irrefl _ hlonger

theorem inherited_beyond (h : v.Plain) (dir : Path) : v.Inherited (Beyond dir) (Beyond dir) where
  entry := by
    intro d names name hd hl hname
    have hplain := (h d names hl).2 name hname
    rcases hd with hapart | hlonger
    · exact Or.inl (hapart.join_right hplain)
    · exact Or.inr (hlonger.trans (d.length_lt_join hplain))
  directory := fun hp _ => hp

/-- **No directory is met twice.** -/
theorem Trail.nodup_directories (h : v.Plain) {todos last : List Todo} {sights : List Sight}
    (htrail : v.Trail todos sights last) (ht : (todos.map Todo.path).Pairwise Path.Apart) :
    (Sight.directories sights).Nodup := by
  induction htrail with
  | refl _ => exact List.nodup_nil
  | cons hs hrest ih =>
      have hmore := ih (step_pairwise_apart h hs ht)
      rcases step_cases hs with ⟨dir, names, rest, rfl, hl, rfl, rfl⟩ |
        ⟨p, rest, rfl, hd, rfl, rfl⟩ | ⟨p, rest, rfl, hd, rfl, rfl⟩
      · obtain ⟨hdir, -⟩ := List.pairwise_cons.mp ht
        refine List.nodup_cons.mpr ⟨fun hmem => ?_, hmore⟩
        -- Everything that is still to be done lies beyond the directory.
        have htodos : ∀ todo ∈ (Walk.entryPaths dir names).map Todo.look ++ rest,
            todo.Holds (Beyond dir) (Beyond dir) := by
          refine List.forall_mem_append.mpr ⟨fun todo htodo => ?_, fun todo htodo => ?_⟩
          · obtain ⟨p, hp, rfl⟩ := List.mem_map.mp htodo
            obtain ⟨name, hname, rfl⟩ := mem_entryPaths.mp hp
            exact Or.inr (dir.length_lt_join ((h dir names hl).2 name hname))
          · have hapart := hdir todo.path (List.mem_map_of_mem htodo)
            cases todo <;> exact Or.inl hapart
        have hsight := (hrest.invariant (inherited_beyond h dir) htodos).1 _
          (Sight.mem_directories.mp hmem)
        exact hsight.1.ne rfl
      · exact hmore
      · exact hmore

end View

end Conformance
