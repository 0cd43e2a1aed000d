import Conformance.Proofs.Walk.Trail

set_option autoImplicit false

/-! # What lies below a directory

`View.Below v dir p` says that the path `p` can be reached from `dir` by listing directories, with
no order and no walk in it. A trail that has come to its end has met exactly what lies below the
directory it started from: every file (`View.file_mem_iff_below`) and every directory
(`View.directory_mem_iff_reached`).

A trail gets stuck, at its end or before a directory that cannot be listed, if no chain of
directories is endless (`View.Founded`, `View.exists_stuck_trail`). Which of the two it is depends
on whether every directory that is reached can be listed (`View.trail_ends_iff`,
`View.blocked_iff`).
-/

namespace Conformance

def Todo.Holds (Entered Looked : Path → Prop) : Todo → Prop
  | .enter dir => Entered dir
  | .look p => Looked p

def Sight.Holds (v : View) (Entered Looked : Path → Prop) : Sight → Prop
  | .directory dir => Entered dir ∧ ∃ names, v.list dir = .ok names
  | .file p => Looked p ∧ v.isDirectory p = false

namespace View

variable {v : View}

/-- **The paths below a directory**: its entries, and the entries of the directories below it. -/
inductive Below (v : View) (dir : Path) : Path → Prop
  | entry {names : List Bytes} {name : Bytes} :
      v.list dir = .ok names → name ∈ names → Below v dir (dir.join name)
  | deeper {sub : Path} {names : List Bytes} {name : Bytes} :
      Below v dir sub → v.isDirectory sub = true → v.list sub = .ok names → name ∈ names →
      Below v dir (sub.join name)

/-- The entries of a directory are visited in another order than they are listed, but all of them
are, and nothing else. -/
theorem mem_entryPaths {dir p : Path} {names : List Bytes} :
    p ∈ Walk.entryPaths dir names ↔ ∃ name ∈ names, p = dir.join name := by
  simp only [Walk.entryPaths, List.mem_map, List.mem_mergeSort, eq_comm]

/-! ## What holds of everything that is met -/

/-- A property of directories and a property of paths that are handed on: from a directory to its
entries, and from a path to the directory it leads to. -/
structure Inherited (v : View) (Entered Looked : Path → Prop) : Prop where
  entry : ∀ {dir names name}, Entered dir → v.list dir = .ok names → name ∈ names →
    Looked (dir.join name)
  directory : ∀ {p}, Looked p → v.isDirectory p = true → Entered p

/-- **An invariant of trails.** What is inherited holds of everything that is met, and of
everything left to be done, if it holds of what was to be done. -/
theorem Trail.invariant {Entered Looked : Path → Prop} {todos last : List Todo}
    {sights : List Sight} (hinherited : v.Inherited Entered Looked)
    (h : v.Trail todos sights last) (htodos : ∀ todo ∈ todos, todo.Holds Entered Looked) :
    (∀ sight ∈ sights, sight.Holds v Entered Looked) ∧
      ∀ todo ∈ last, todo.Holds Entered Looked := by
  induction h with
  | refl _ => exact ⟨by simp, htodos⟩
  | cons hs _ ih =>
      rcases step_cases hs with ⟨dir, names, rest, rfl, hl, rfl, rfl⟩ |
        ⟨p, rest, rfl, hd, rfl, rfl⟩ | ⟨p, rest, rfl, hd, rfl, rfl⟩
      · obtain ⟨hdir, hrest⟩ := List.forall_mem_cons.mp htodos
        have hentries : ∀ todo ∈ (Walk.entryPaths dir names).map Todo.look,
            todo.Holds Entered Looked := by
          intro todo htodo
          obtain ⟨p, hp, rfl⟩ := List.mem_map.mp htodo
          obtain ⟨name, hn, rfl⟩ := mem_entryPaths.mp hp
          exact hinherited.entry hdir hl hn
        obtain ⟨hmore, hlast⟩ := ih (List.forall_mem_append.mpr ⟨hentries, hrest⟩)
        exact ⟨List.forall_mem_cons.mpr ⟨⟨hdir, names, hl⟩, hmore⟩, hlast⟩
      · obtain ⟨hp, hrest⟩ := List.forall_mem_cons.mp htodos
        exact ih (List.forall_mem_cons.mpr ⟨hinherited.directory hp hd, hrest⟩)
      · obtain ⟨hp, hrest⟩ := List.forall_mem_cons.mp htodos
        obtain ⟨hmore, hlast⟩ := ih hrest
        exact ⟨List.forall_mem_cons.mpr ⟨⟨hp, hd⟩, hmore⟩, hlast⟩

/-! ## What a trail has met at its end -/

def sightOf (v : View) (p : Path) : Sight := if v.isDirectory p then .directory p else .file p

/-- Everything that was to be done has been done at the end of a trail. -/
theorem Trail.mem_of_todo {todos : List Todo} {sights : List Sight} (h : v.Trail todos sights []) :
    (∀ dir, .enter dir ∈ todos → .directory dir ∈ sights) ∧
      ∀ p, .look p ∈ todos → v.sightOf p ∈ sights := by
  generalize hlast : ([] : List Todo) = last at h
  induction h with
  | refl _ => simp [← hlast]
  | cons hs _ ih =>
      obtain ⟨ih₁, ih₂⟩ := ih hlast
      rcases step_cases hs with ⟨dir, names, rest, rfl, hl, rfl, rfl⟩ |
        ⟨p, rest, rfl, hd, rfl, rfl⟩ | ⟨p, rest, rfl, hd, rfl, rfl⟩
      · refine ⟨fun d hd => ?_, fun q hq => ?_⟩
        · rcases List.mem_cons.mp hd with hd | hd
          · cases hd
            simp
          · exact List.mem_append_right _ (ih₁ d (List.mem_append_right _ hd))
        · rcases List.mem_cons.mp hq with hq | hq
          · cases hq
          · exact List.mem_append_right _ (ih₂ q (List.mem_append_right _ hq))
      · refine ⟨fun d hd => ih₁ d (by simp at hd ⊢; exact Or.inr hd), fun q hq => ?_⟩
        rcases List.mem_cons.mp hq with hq | hq
        · cases hq
          rw [sightOf, if_pos hd]
          exact ih₁ p (by simp)
        · exact ih₂ q (List.mem_cons_of_mem _ hq)
      · refine ⟨fun d hd => ?_, fun q hq => ?_⟩
        · exact List.mem_append_right _ (ih₁ d (by simpa using hd))
        · rcases List.mem_cons.mp hq with hq | hq
          · cases hq
            simp [sightOf, hd]
          · exact List.mem_append_right _ (ih₂ q hq)

/-- At the end of a trail the entries of every directory that was met have been met. -/
theorem Trail.mem_of_entry {todos : List Todo} {sights : List Sight} (h : v.Trail todos sights [])
    {dir : Path} {names : List Bytes} {name : Bytes} (hdir : .directory dir ∈ sights)
    (hl : v.list dir = .ok names) (hn : name ∈ names) : v.sightOf (dir.join name) ∈ sights := by
  generalize hlast : ([] : List Todo) = last at h
  induction h with
  | refl _ => cases hdir
  | cons hs hrest ih =>
      subst hlast
      rcases List.mem_append.mp hdir with hdir | hdir
      · rcases step_cases hs with ⟨d, names', rest, rfl, hl', rfl, rfl⟩ |
          ⟨p, rest, rfl, hd, rfl, rfl⟩ | ⟨p, rest, rfl, hd, rfl, rfl⟩
        · cases List.mem_singleton.mp hdir
          rw [hl] at hl'
          cases hl'
          refine List.mem_append_right _ (hrest.mem_of_todo.2 _ (List.mem_append_left _ ?_))
          exact List.mem_map_of_mem (mem_entryPaths.mpr ⟨name, hn, rfl⟩)
        · cases hdir
        · cases List.mem_singleton.mp hdir
      · exact List.mem_append_right _ (ih hdir rfl)

section Complete

variable {root : Path} {sights : List Sight}

/-- The directory itself, and the directories below it. -/
def Reached (v : View) (root dir : Path) : Prop :=
  dir = root ∨ v.Below root dir ∧ v.isDirectory dir = true

theorem inherited_below : v.Inherited (v.Reached root) (v.Below root) where
  entry := by
    rintro dir names name (rfl | ⟨hb, hd⟩) hl hn
    · exact .entry hl hn
    · exact .deeper hb hd hl hn
  directory hp hd := Or.inr ⟨hp, hd⟩

theorem Trail.lies_below {last : List Todo} (h : v.Trail [.enter root] sights last) :
    (∀ sight ∈ sights, sight.Holds v (v.Reached root) (v.Below root)) ∧
      ∀ todo ∈ last, todo.Holds (v.Reached root) (v.Below root) := by
  refine h.invariant inherited_below fun todo htodo => ?_
  cases List.mem_singleton.mp htodo
  exact Or.inl rfl

theorem Trail.mem_of_below (h : v.Trail [.enter root] sights []) {p : Path}
    (hb : v.Below root p) : v.sightOf p ∈ sights := by
  induction hb with
  | entry hl hn => exact h.mem_of_entry (h.mem_of_todo.1 root (by simp)) hl hn
  | deeper _ hd hl hn ih =>
      rw [sightOf, if_pos hd] at ih
      exact h.mem_of_entry ih hl hn

/-- **A trail that has come to its end has met exactly the files below its directory.** -/
theorem file_mem_iff_below (h : v.Trail [.enter root] sights []) (p : Path) :
    .file p ∈ sights ↔ v.Below root p ∧ v.isDirectory p = false := by
  refine ⟨h.lies_below.1 (.file p), fun ⟨hb, hd⟩ => ?_⟩
  have := h.mem_of_below hb
  rwa [sightOf, hd] at this

/-- **A trail that has come to its end has met exactly the directories below its directory**, and
the directory itself. -/
theorem directory_mem_iff_reached (h : v.Trail [.enter root] sights []) (dir : Path) :
    .directory dir ∈ sights ↔ v.Reached root dir := by
  refine ⟨fun hdir => (h.lies_below.1 _ hdir).1, ?_⟩
  rintro (rfl | ⟨hb, hd⟩)
  · exact h.mem_of_todo.1 dir (by simp)
  · have := h.mem_of_below hb
    rwa [sightOf, if_pos hd] at this

end Complete

/-! ## Walks that end -/

def Subdirectory (v : View) (sub dir : Path) : Prop :=
  v.isDirectory sub = true ∧
    ∃ names name, v.list dir = .ok names ∧ name ∈ names ∧ sub = dir.join name

/-- **No chain of directories, each an entry of the one before, goes on for ever** from here. -/
def Founded (v : View) (dir : Path) : Prop := Acc v.Subdirectory dir

/-- A stuck trail stays stuck if more is to be done after it, unless it has come to its end. -/
theorem exists_stuck_append {todos : List Todo} {sights : List Sight} {last : List Todo}
    (h : v.Trail todos sights last) (hs : v.Stuck last) {rest : List Todo}
    (hrest : ∃ sights' last', v.Trail rest sights' last' ∧ v.Stuck last') :
    ∃ sights' last', v.Trail (todos ++ rest) sights' last' ∧ v.Stuck last' := by
  rcases stuck_iff.mp hs with rfl | ⟨dir, cause, others, rfl, hl⟩
  · obtain ⟨sights', last', h', hs'⟩ := hrest
    exact ⟨_, last', (h.append rest).trans h', hs'⟩
  · exact ⟨sights, _, h.append rest, stuck_enter _ hl⟩

/-- **A trail gets stuck** if no chain of directories is endless. -/
theorem exists_stuck_trail {dir : Path} (h : v.Founded dir) :
    ∃ sights last, v.Trail [.enter dir] sights last ∧ v.Stuck last := by
  induction h with
  | intro dir _ ih =>
      cases hl : v.list dir with
      | error cause => exact ⟨[], _, .refl _, stuck_enter [] hl⟩
      | ok names =>
          -- The entries come one after the other; the first that is stuck before its end is where
          -- the whole trail is stuck.
          have key : ∀ ps : List Path, (∀ p ∈ ps, p ∈ Walk.entryPaths dir names) →
              ∃ sights last, v.Trail (ps.map .look) sights last ∧ v.Stuck last := by
            intro ps
            induction ps with
            | nil => intro _; exact ⟨[], [], .refl _, stuck_nil⟩
            | cons p ps ihps =>
                intro hmem
                have hrest := ihps fun q hq => hmem q (List.mem_cons_of_mem _ hq)
                cases hd : v.isDirectory p with
                | false => exact exists_stuck_append (.pass [] hd) stuck_nil hrest
                | true =>
                    obtain ⟨name, hn, hp⟩ := mem_entryPaths.mp (hmem p (by simp))
                    obtain ⟨sights, last, ht, hs⟩ := ih p ⟨hd, names, name, hl, hn, hp⟩
                    exact exists_stuck_append ((Trail.descend [] hd).trans ht) hs hrest
          obtain ⟨sights, last, ht, hs⟩ := key _ fun p hp => hp
          exact ⟨_, last, (Trail.enter [] hl).trans (by simpa using ht), hs⟩

/-- No chain of directories is endless from anything that a trail to its end started with. -/
theorem Trail.founded {todos : List Todo} {sights : List Sight} (h : v.Trail todos sights []) :
    ∀ todo ∈ todos, todo.Holds v.Founded fun p => v.isDirectory p = true → v.Founded p := by
  generalize hlast : ([] : List Todo) = last at h
  induction h with
  | refl _ => simp [← hlast]
  | cons hs _ ih =>
      have hnext := ih hlast
      rcases step_cases hs with ⟨dir, names, rest, rfl, hl, rfl, rfl⟩ |
        ⟨p, rest, rfl, hd, rfl, rfl⟩ | ⟨p, rest, rfl, hd, rfl, rfl⟩
      · obtain ⟨hentries, hrest⟩ := List.forall_mem_append.mp hnext
        -- Every directory that is an entry of this one has been looked at later on the trail.
        refine List.forall_mem_cons.mpr ⟨Acc.intro dir ?_, hrest⟩
        rintro sub ⟨hd, names', name, hl', hn, rfl⟩
        rw [hl] at hl'
        cases hl'
        have hentry : dir.join name ∈ Walk.entryPaths dir names :=
          mem_entryPaths.mpr ⟨name, hn, rfl⟩
        exact hentries (.look (dir.join name)) (List.mem_map_of_mem hentry) hd
      · obtain ⟨hp, hrest⟩ := List.forall_mem_cons.mp hnext
        exact List.forall_mem_cons.mpr ⟨fun _ => hp, hrest⟩
      · refine List.forall_mem_cons.mpr ⟨fun hp => ?_, hnext⟩
        rw [hd] at hp
        cases hp

/-- **A walk comes to its end if and only if** no chain of directories is endless and every
directory that is reached can be listed. -/
theorem trail_ends_iff {root : Path} :
    (∃ sights, v.Trail [.enter root] sights []) ↔
      v.Founded root ∧ ∀ dir, v.Reached root dir → ∃ names, v.list dir = .ok names := by
  constructor
  · rintro ⟨sights, ht⟩
    refine ⟨ht.founded (.enter root) (by simp), fun dir hdir => ?_⟩
    exact (ht.lies_below.1 _ ((directory_mem_iff_reached ht dir).mpr hdir)).2
  · rintro ⟨hfounded, hlist⟩
    obtain ⟨sights, last, ht, hs⟩ := exists_stuck_trail hfounded
    rcases stuck_iff.mp hs with rfl | ⟨dir, cause, rest, rfl, hl⟩
    · exact ⟨sights, ht⟩
    · obtain ⟨names, hok⟩ := hlist dir (ht.lies_below.2 (.enter dir) (by simp))
      rw [hok] at hl
      cases hl

/-! ## Walks that are blocked -/

/-- **The walk of a directory is blocked** by `dir`, which cannot be listed, after it has met
`sights`. -/
def BlockedAt (v : View) (root : Path) (sights : List Sight) (dir : Path) (cause : IoError) :
    Prop :=
  (∃ rest, v.Trail [.enter root] sights (.enter dir :: rest)) ∧ v.list dir = .error cause

/-- Everything that was met before could be listed. -/
theorem BlockedAt.listed {root dir : Path} {cause : IoError} {sights : List Sight}
    (h : v.BlockedAt root sights dir cause) :
    v.Reached root dir ∧ ∀ d, .directory d ∈ sights → ∃ names, v.list d = .ok names := by
  obtain ⟨⟨rest, ht⟩, -⟩ := h
  exact ⟨ht.lies_below.2 (.enter dir) (by simp), fun d hd => (ht.lies_below.1 _ hd).2⟩

/-- **A walk is blocked if and only if it reaches a directory that cannot be listed.** -/
theorem blocked_iff {root : Path} (h : v.Founded root) :
    (∃ sights dir cause, v.BlockedAt root sights dir cause) ↔
      ∃ dir cause, v.Reached root dir ∧ v.list dir = .error cause := by
  constructor
  · rintro ⟨sights, dir, cause, hblocked⟩
    exact ⟨dir, cause, hblocked.listed.1, hblocked.2⟩
  · rintro ⟨dir, cause, hdir, hl⟩
    obtain ⟨sights, last, ht, hs⟩ := exists_stuck_trail h
    rcases stuck_iff.mp hs with rfl | ⟨dir', cause', rest, rfl, hl'⟩
    · obtain ⟨names, hok⟩ := (trail_ends_iff.mp ⟨sights, ht⟩).2 dir hdir
      rw [hok] at hl
      cases hl
    · exact ⟨sights, dir', cause', ⟨rest, ht⟩, hl'⟩

end View

end Conformance
