import Conformance.Proofs.Walk.Completion

set_option autoImplicit false

/-! # The order in which cases are run

Cases are run in the order of their paths, whatever order the directories are listed in
(`View.runs_in_path_order`). Within a directory names are sorted before they are visited, and that
forgets the order in which they were listed. Across directories the order is the one of paths,
component by component, since everything below an entry is visited before the next one.

Two views that differ in the order of their listings only are `View.Shuffled`.
-/

namespace Conformance

/-- **The same listing of a directory, in another order**, or the same refusal. -/
inductive SameListing : Except IoError (List Bytes) → Except IoError (List Bytes) → Prop
  | names {names names' : List Bytes} : names.Perm names' → SameListing (.ok names) (.ok names')
  | refused (cause : IoError) : SameListing (.error cause) (.error cause)

/-- **The same files, whose directories are listed in another order.** -/
structure View.Shuffled (v v' : View) : Prop where
  list : ∀ dir, SameListing (v.list dir) (v'.list dir)
  isDirectory : ∀ p, v.isDirectory p = v'.isDirectory p

namespace Walk

section

variable {σ : Type} {m m' : Machine σ} {s : Settings}

theorem visitPaths_congr (hdirectory : m.isDirectory = m'.isDirectory) (hrun : m.run = m'.run)
    (enter : Path → Walk σ Totals) (t : Totals) (ps : List Path) :
    visitPaths m s enter t ps = visitPaths m' s enter t ps := by
  have hpath : ∀ t p, visitPath m s enter t p = visitPath m' s enter t p := by
    intro t p
    unfold visitPath runCase attempt
    rw [hdirectory, hrun]
  induction ps generalizing t with
  | nil => rfl
  | cons p ps ih => simp only [visitPaths, hpath, ih]

end

/-- The entries of a directory are visited in the same order, however they are listed. -/
theorem entryPaths_eq_of_perm (dir : Path) {names names' : List Bytes} (h : names.Perm names') :
    entryPaths dir names = entryPaths dir names' := by
  rw [entryPaths, entryPaths, Path.mergeSort_eq_of_perm h]

/-- **Shuffled directories are visited alike.** -/
theorem visit_shuffled {v v' : View} (h : v.Shuffled v') (s : Settings)
    (outcome : TestCase → Outcome) (depth : Nat) (dir : Path) :
    visit (v.machineOf outcome) s depth dir = visit (v'.machineOf outcome) s depth dir := by
  have hdirectory : (v.machineOf outcome).isDirectory = (v'.machineOf outcome).isDirectory := by
    funext p _
    exact h.isDirectory p
  induction depth generalizing dir with
  | zero => rfl
  | succ depth ih =>
      funext session
      have hlist : SameListing ((v.machineOf outcome).list dir session.state)
          ((v'.machineOf outcome).list dir session.state) := h.list dir
      rw [visit_succ, visit_succ]
      generalize (v.machineOf outcome).list dir session.state = listing,
        (v'.machineOf outcome).list dir session.state = listing' at hlist ⊢
      cases hlist with
      | refused cause => rfl
      | names hperm =>
          have henter : visit (v.machineOf outcome) s depth =
              visit (v'.machineOf outcome) s depth := funext ih
          simp only [entryPaths_eq_of_perm dir hperm, henter, visitPaths_congr hdirectory rfl]

end Walk

namespace View

/-- **The cases that a run has executed** are the first of the scripts on a trail, on any sink. -/
theorem exists_executed_prefix (v : View) (s : Settings) (outcome : TestCase → Outcome)
    (depth : Nat) (sink : Sink) :
    ∃ sights last, v.Trail [.enter s.root] sights last ∧
      (v.runSuites outcome s depth sink).2.state <+: s.scripts sights := by
  obtain ⟨sights, last, r, htrail, -, hplays⟩ := exists_plays_runSuites v s outcome depth
  obtain ⟨executed, hprefix, hstate, -⟩ := Walk.exists_state_perform
    (s.casesActs outcome (s.scripts sights) ++ (s.ending r).map .emit) ⟨[], sink⟩
  refine ⟨sights, last, htrail, ?_⟩
  rw [runSuites, hplays ⟨[], sink⟩, Walk.conclude_snd, hstate, List.nil_append]
  simpa using hprefix

/-- **Cases are run in the order of their paths**, component by component, and so none of them
twice. Views that differ in the order of their listings only have the same runs: the same cases in
the same order, the same result and the same bytes written. -/
theorem runs_in_path_order (v : View) (s : Settings) (outcome : TestCase → Outcome) (depth : Nat)
    (sink : Sink) :
    (v.Plain →
      (v.runSuites outcome s depth sink).2.state.Pairwise (fun c d => c.path.Before d.path) ∧
      (v.runSuites outcome s depth sink).2.state.Nodup) ∧
    ∀ v' : View, v.Shuffled v' →
      v'.runSuites outcome s depth sink = v.runSuites outcome s depth sink := by
  refine ⟨fun hplain => ?_, fun v' h => ?_⟩
  · obtain ⟨sights, last, htrail, hprefix⟩ := exists_executed_prefix v s outcome depth sink
    have hapart := (s.pairwise_scripts (htrail.pairwise_apart hplain (by simp))).sublist
      hprefix.sublist
    have hbefore := hapart.imp Path.Apart.before
    refine ⟨hbefore, hbefore.imp ?_⟩
    rintro c d h rfl
    exact Path.before_irrefl _ h
  · unfold runSuites Walk.runSuites
    rw [Walk.visit_shuffled h]

theorem shuffled_ofListings {listings listings' : List (Path × Except IoError (List Bytes))}
    (h : List.Forall₂ (fun l l' => l.1 = l'.1 ∧ SameListing l.2 l'.2) listings listings') :
    (ofListings listings).Shuffled (ofListings listings') := by
  have hlookup : ∀ p, Option.Rel SameListing (listings.lookup p) (listings'.lookup p) := by
    intro p
    induction h with
    | nil => exact .none
    | @cons l l' _ _ hl _ ih =>
        obtain ⟨dir, listing⟩ := l
        obtain ⟨dir', listing'⟩ := l'
        obtain ⟨rfl, hsame⟩ := hl
        simp only [List.lookup_cons]
        cases p == dir with
        | true => exact .some hsame
        | false => exact ih
  refine ⟨fun dir => ?_, fun p => ?_⟩
  · have hdir := hlookup dir
    simp only [ofListings]
    generalize listings.lookup dir = r, listings'.lookup dir = r' at hdir ⊢
    cases hdir with
    | none => exact .refused _
    | some hsame => exact hsame
  · have hp := hlookup p
    simp only [ofListings]
    generalize listings.lookup p = r, listings'.lookup p = r' at hp ⊢
    cases hp with
    | none => rfl
    | some _ => rfl

/-- A directory `t/a` beside a script `t/a.lua`, listed in the given order. -/
def sampleNested (names : List String) : View :=
  .ofListings [
    (.ofText "t", .ok (names.map Utf8.encode)),
    (.ofText "t/a", .ok [Utf8.encode "z.lua"])]

/-- On the sample what lies below `t/a` comes before `t/a.lua`, though its spelling does not. -/
theorem runs_in_path_order_sample :
    ∃ depth, (sampleNested ["a.lua", "a"]).runSuites sampleOutcome .sample depth .unlimited =
        (sampleNested ["a", "a.lua"]).runSuites sampleOutcome .sample depth .unlimited ∧
      ((sampleNested ["a", "a.lua"]).runSuites sampleOutcome .sample depth .unlimited).2.state =
        [⟨.ofText "t/a/z.lua"⟩, ⟨.ofText "t/a.lua"⟩] ∧
      (Path.ofText "t/a/z.lua").Before (.ofText "t/a.lua") ∧
      Path.nameLE (Utf8.encode "t/a/z.lua") (Utf8.encode "t/a.lua") = false := by
  have htrail : (sampleNested ["a", "a.lua"]).Trail [.enter Settings.sample.root]
      [.directory (.ofText "t"), .directory (.ofText "t/a"), .file (.ofText "t/a/z.lua"),
        .file (.ofText "t/a.lua")] [] := .of_advance 9 (by cbv)
  have hscripts : Settings.sample.scripts [.directory (.ofText "t"), .directory (.ofText "t/a"),
      .file (.ofText "t/a/z.lua"), .file (.ofText "t/a.lua")] =
      [⟨.ofText "t/a/z.lua"⟩, ⟨.ofText "t/a.lua"⟩] := by decide
  obtain ⟨t, -, depth, hdepth⟩ := returns_of_end sampleOutcome htrail (by decide)
  have hstate : ((sampleNested ["a", "a.lua"]).runSuites sampleOutcome .sample depth
      .unlimited).2.state = [⟨.ofText "t/a/z.lua"⟩, ⟨.ofText "t/a.lua"⟩] :=
    (congrArg (·.2.state) (hdepth depth (Nat.le_refl depth))).trans hscripts
  obtain ⟨hordered, hshuffled⟩ :=
    runs_in_path_order (sampleNested ["a", "a.lua"]) .sample sampleOutcome depth .unlimited
  have hbefore := (hordered (plain_ofListings (by decide))).1
  refine ⟨depth, ?_, hstate, ?_, by decide⟩
  · refine hshuffled _ (shuffled_ofListings ?_)
    exact .cons ⟨rfl, .names (by decide)⟩ (.cons ⟨rfl, .names (.refl _)⟩ .nil)
  · rw [hstate] at hbefore
    exact (List.pairwise_cons.mp hbefore).1 _ (List.mem_singleton.mpr rfl)

end View

end Conformance
