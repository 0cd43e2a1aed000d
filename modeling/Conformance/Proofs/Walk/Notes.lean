import Conformance.Proofs.Walk.Depth
import Conformance.Proofs.Walk.Log

set_option autoImplicit false

/-! # Every directory is listed once

Whether a directory has been listed cannot be seen from what a walk ends with. So the walk is taken with
another way of listing directories (`Walk.visitBy`), one that makes a note of each, and what is noted
are the directories that the walk lists (`Walk.listed`). Forgetting the notes gives the walk as it is
(`Walk.visit_noting`).

No directory is listed twice (`Walk.nodup_listed`), also when the cases that are run change the files
that are still to be visited, as long as no directory has a name twice. On files that stay as they are
a walk that comes to its end has listed the directories that can be reached, and nothing else
(`Walk.listed_of_returns`).
-/

namespace Conformance

variable {σ α β : Type}

/-! ## The walk that makes notes -/

/-- The machine that carries notes along and makes none. -/
def Machine.noting (m : Machine σ) : Machine (σ × List Path) where
  list dir a := m.list dir a.1
  isDirectory p a := m.isDirectory p a.1
  run c a := ((m.run c a.1).1, (m.run c a.1).2, a.2)

namespace Walk

variable {m : Machine σ} {s : Settings}

/-- `Walk.visit` with another way of listing directories. -/
def visitBy (list : Path → Walk σ (Except IoError (List Bytes))) (m : Machine σ) (s : Settings) :
    ℕ → Path → Walk σ Totals
  | 0, _ => stop .tooDeep
  | depth + 1, dir => do
    let names ← orStop (fun cause => .failed (.discovery dir cause)) (← list dir)
    visitPaths m s (visitBy list m s depth) Totals.zero (entryPaths dir names)

/-- With the way of the machine itself it is the same walk. -/
theorem visitBy_ask (m : Machine σ) (s : Settings) (depth : ℕ) :
    visitBy (fun dir => ask (m.list dir)) m s depth = visit m s depth := by
  induction depth with
  | zero => rfl
  | succ depth ih =>
      funext dir
      rw [visitBy, visit, ih]

/-- Lists a directory and makes a note of it. -/
def listNoting (m : Machine σ) (dir : Path) : Walk (σ × List Path) (Except IoError (List Bytes)) :=
  fun session => (.ok (m.list dir session.state.1),
    { session with state := (session.state.1, session.state.2 ++ [dir]) })

/-- The walk that makes a note of every directory that it lists. -/
def visitNoting (m : Machine σ) (s : Settings) : ℕ → Path → Walk (σ × List Path) Totals :=
  visitBy (listNoting m) m.noting s

/-- **The directories that a walk lists**, in order. -/
def listed (m : Machine σ) (s : Settings) (depth : ℕ) (dir : Path) (session : Session σ) : List Path :=
  (visitNoting m s depth dir ⟨(session.state, []), session.sink⟩).2.state.2

theorem same_visitNoting (m : Machine σ) (s : Settings) (depth : ℕ) (dir : Path) :
    Same (fun a b => a.state.1 = b.state ∧ a.sink = b.sink ∧ True) Totals.Sound
      (visitNoting m s depth dir) (visit m s depth dir) := by
  have hbeside : m.noting.Beside m := ⟨fun _ _ => rfl, fun _ _ => rfl, fun _ _ => rfl, fun _ _ => rfl⟩
  have hmirrors := mirrors_of_beside hbeside s (I := fun _ _ => True) fun _ _ => trivial
  induction depth generalizing dir with
  | zero => exact fun _ _ hab => ⟨rfl, hab, nofun⟩
  | succ depth ih =>
      have hlist : Same (fun a b => a.state.1 = b.state ∧ a.sink = b.sink ∧ True) (fun _ => True)
          (listNoting m dir) (ask (m.list dir)) := by
        rintro a b ⟨hstate, hsink, -⟩
        exact ⟨congrArg (fun state => Except.ok (m.list dir state)) hstate, ⟨hstate, hsink, trivial⟩,
          fun _ _ => trivial⟩
      refine hlist.bind fun listing _ => ?_
      refine (same_orStop _ fun _ _ => trivial).bind fun names _ => ?_
      exact same_visitPaths hmirrors ih (entryPaths dir names) (by decide)

/-- **Forgetting the notes gives the walk as it is.** -/
theorem visit_noting (m : Machine σ) (s : Settings) (depth : ℕ) (dir : Path) (session : Session σ)
    (notes : List Path) :
    (visitNoting m s depth dir ⟨(session.state, notes), session.sink⟩).1 =
        (visit m s depth dir session).1 ∧
      (visitNoting m s depth dir ⟨(session.state, notes), session.sink⟩).2.state.1 =
        (visit m s depth dir session).2.state ∧
      (visitNoting m s depth dir ⟨(session.state, notes), session.sink⟩).2.sink =
        (visit m s depth dir session).2.sink := by
  obtain ⟨hresult, ⟨hstate, hsink, -⟩, -⟩ := same_visitNoting m s depth dir
    ⟨(session.state, notes), session.sink⟩ session ⟨rfl, rfl, trivial⟩
  exact ⟨hresult, hstate, hsink⟩

end Walk

/-! ## No directory is listed twice -/

/-- **Every listing has each name once, and plain names only**, whatever cases are run. -/
def Machine.Plain (m : Machine σ) : Prop :=
  ∀ dir state names, m.list dir state = .ok names →
    names.Nodup ∧ ∀ name ∈ names, Path.PlainName name

theorem Machine.Shows.plain {m : Machine σ} {v : View} (hm : m.Shows v) (h : v.Plain) : m.Plain := by
  intro dir state names hl
  rw [hm.list] at hl
  exact h dir names hl

namespace Path

/-- **At a path, or below it** by names of entries. -/
inductive Within (p : Path) : Path → Prop
  | here : Within p p
  | entry {q : Path} {name : Bytes} : Within p q → PlainName name → Within p (q.join name)

namespace Within

variable {p q r : Path}

theorem trans (hpq : p.Within q) (hqr : q.Within r) : p.Within r := by
  induction hqr with
  | here => exact hpq
  | entry _ hname ih => exact .entry ih hname

theorem length_le (h : p.Within q) : p.bytes.length ≤ q.bytes.length := by
  induction h with
  | here => exact le_rfl
  | entry _ hname ih => exact ih.trans (length_lt_join _ hname).le

/-- Nothing lies both within one and within the other of two paths that lie apart. -/
theorem not_of_apart (hapart : p.Apart q) (hp : p.Within r) : ¬ q.Within r := by
  have hright : ∀ {r}, q.Within r → p.Apart r := by
    intro r hq
    induction hq with
    | here => exact hapart
    | entry _ hname ih => exact ih.join_right hname
  have hleft : ∀ {t}, p.Apart t → r.Apart t := by
    intro t ht
    induction hp with
    | here => exact ht
    | entry _ hname ih => exact ih.join_left hname
  exact fun hq => (hleft (hright hq)).ne rfl

end Within

end Path

namespace Walk

variable {m : Machine σ} {s : Settings} {P Q : Path → Prop}

/-- **A walk makes notes of directories that are `P`**, and none of them twice. -/
def Notes (P : Path → Prop) (x : Walk (σ × List Path) α) : Prop :=
  ∀ a, ∃ dirs, (x a).2.state.2 = a.state.2 ++ dirs ∧ dirs.Nodup ∧ ∀ d ∈ dirs, P d

/-- **One walk after the other** makes notes of what either of them does. -/
theorem Notes.bind {x : Walk (σ × List Path) α} {f : α → Walk (σ × List Path) β} (hx : Notes P x)
    (hf : ∀ value, Notes Q (f value)) (hPQ : ∀ d, P d → ¬ Q d) :
    Notes (fun d => P d ∨ Q d) (x >>= f) := by
  intro a
  obtain ⟨dirs, hnotes, hnodup, hdirs⟩ := hx a
  rcases hrun : x a with ⟨reason | value, b⟩
  · rw [hrun] at hnotes
    rw [bind_of_error f hrun]
    exact ⟨dirs, hnotes, hnodup, fun d hd => Or.inl (hdirs d hd)⟩
  · rw [hrun] at hnotes
    obtain ⟨more, hnotes', hnodup', hmore⟩ := hf value b
    rw [bind_of_ok f hrun]
    refine ⟨dirs ++ more, ?_, ?_, ?_⟩
    · rw [hnotes', hnotes, List.append_assoc]
    · exact hnodup.append hnodup' fun d hd hd' => hPQ d (hdirs d hd) (hmore d hd')
    · exact List.forall_mem_append.mpr
        ⟨fun d hd => Or.inl (hdirs d hd), fun d hd => Or.inr (hmore d hd)⟩

/-- **A walk that leaves the notes as they are.** -/
def Quiet (x : Walk (σ × List Path) α) : Prop := ∀ a, (x a).2.state.2 = a.state.2

theorem Quiet.notes {x : Walk (σ × List Path) α} (h : Quiet x) : Notes P x := by
  intro a
  exact ⟨[], by rw [h, List.append_nil], List.nodup_nil, nofun⟩

theorem Quiet.bind {x : Walk (σ × List Path) α} {f : α → Walk (σ × List Path) β} (hx : Quiet x)
    (hf : ∀ value, Quiet (f value)) : Quiet (x >>= f) := by
  intro a
  have hnotes := hx a
  rcases hrun : x a with ⟨reason | value, b⟩
  · rw [hrun] at hnotes
    rw [bind_of_error f hrun]
    exact hnotes
  · rw [hrun] at hnotes
    rw [bind_of_ok f hrun, hf value b]
    exact hnotes

theorem Notes.bind_quiet {x : Walk (σ × List Path) α} {f : α → Walk (σ × List Path) β}
    (hx : Notes P x) (hf : ∀ value, Quiet (f value)) : Notes P (x >>= f) := by
  intro a
  have hnone : ∀ d, P d → ¬ False := fun _ _ => id
  obtain ⟨dirs, hnotes, hnodup, hdirs⟩ := hx.bind (fun value => (hf value).notes) hnone a
  exact ⟨dirs, hnotes, hnodup, fun d hd => (hdirs d hd).resolve_right id⟩

theorem quiet_pure (value : α) : Quiet (pure value : Walk (σ × List Path) α) := fun _ => rfl

theorem quiet_orStop {ε : Type} (reason : ε → Stop) (r : Except ε α) :
    Quiet (orStop reason r : Walk (σ × List Path) α) := by
  cases r <;> exact fun _ => rfl

theorem quiet_runCase (m : Machine σ) (s : Settings) (c : TestCase) :
    Quiet (runCase m.noting s c) := by
  have hreport : ∀ emissions, Quiet (report emissions : Walk (σ × List Path) Unit) :=
    fun _ _ => rfl
  have hattempt : Quiet (attempt m.noting c) := fun _ => rfl
  refine (hreport _).bind fun _ => hattempt.bind fun result => ?_
  exact (quiet_orStop _ _).bind fun verdict => (hreport _).bind fun _ => quiet_pure _

/-- No note is made of what is not a directory. -/
theorem notes_of_file {enter : Path → Walk (σ × List Path) Totals} {p : Path}
    {a : Session (σ × List Path)} (h : m.isDirectory p a.state.1 = false) (t : Totals) :
    (visitPath m.noting s enter t p a).2.state.2 = a.state.2 := by
  have hfile : m.noting.isDirectory p a.state = false := h
  rw [visitPath_apply, hfile, if_neg Bool.false_ne_true]
  split
  · exact (quiet_runCase m s ⟨p⟩).bind (fun passed => quiet_orStop .overflow (t.record passed)) a
  · rfl

theorem notes_visitPath {enter : Path → Walk (σ × List Path) Totals}
    (henter : ∀ p, Notes p.Within (enter p)) (t : Totals) (p : Path) :
    Notes p.Within (visitPath m.noting s enter t p) := by
  intro a
  cases hd : m.isDirectory p a.state.1 with
  | true =>
      have hdirectory : m.noting.isDirectory p a.state = true := hd
      rw [visitPath_apply, if_pos hdirectory]
      exact (henter p).bind_quiet (fun inner => quiet_orStop .overflow (t.add inner)) a
  | false =>
      refine ⟨[], ?_, List.nodup_nil, nofun⟩
      rw [notes_of_file hd, List.append_nil]

theorem notes_visitPaths {enter : Path → Walk (σ × List Path) Totals}
    (henter : ∀ p, Notes p.Within (enter p)) (t : Totals) {ps : List Path}
    (hps : ps.Pairwise Path.Apart) :
    Notes (fun d => ∃ p ∈ ps, p.Within d) (visitPaths m.noting s enter t ps) := by
  induction ps generalizing t with
  | nil => exact (quiet_pure t).notes
  | cons p ps ih =>
      obtain ⟨hp, hps⟩ := List.pairwise_cons.mp hps
      -- What lies within `p` lies within none of the paths that `p` lies apart from.
      have hdisjoint : ∀ d, p.Within d → ¬ ∃ q ∈ ps, q.Within d := by
        rintro d hd ⟨q, hq, hqd⟩
        exact hd.not_of_apart (hp q hq) hqd
      intro a
      obtain ⟨dirs, hnotes, hnodup, hdirs⟩ :=
        (notes_visitPath henter t p).bind (fun t => ih t hps) hdisjoint a
      refine ⟨dirs, hnotes, hnodup, fun d hd => ?_⟩
      rcases hdirs d hd with hpd | ⟨q, hq, hqd⟩
      · exact ⟨p, List.mem_cons_self, hpd⟩
      · exact ⟨q, List.mem_cons_of_mem p hq, hqd⟩

theorem visitNoting_succ (depth : ℕ) (dir : Path) (a : Session (σ × List Path)) :
    visitNoting m s (depth + 1) dir a =
      match m.list dir a.state.1 with
      | .ok names => visitPaths m.noting s (visitNoting m s depth) Totals.zero
          (entryPaths dir names) ⟨(a.state.1, a.state.2 ++ [dir]), a.sink⟩
      | .error cause => (.error (.failed (.discovery dir cause)),
          ⟨(a.state.1, a.state.2 ++ [dir]), a.sink⟩) := by
  rw [visitNoting, visitBy]
  simp only [Bind.bind, listNoting]
  cases m.list dir a.state.1 <;> rfl

theorem notes_visit (hm : m.Plain) (depth : ℕ) (dir : Path) :
    Notes dir.Within (visitNoting m s depth dir) := by
  induction depth generalizing dir with
  | zero => exact Quiet.notes fun _ => rfl
  | succ depth ih =>
      intro a
      rw [visitNoting_succ]
      cases hl : m.list dir a.state.1 with
      | error cause => exact ⟨[dir], rfl, List.nodup_singleton dir, by simp [Path.Within.here]⟩
      | ok names =>
          obtain ⟨hnodup, hplain⟩ := hm dir a.state.1 names hl
          obtain ⟨dirs, hnotes, hnodup', hdirs⟩ :=
            notes_visitPaths (s := s) ih .zero (pairwise_apart_entryPaths dir hnodup hplain)
              ⟨(a.state.1, a.state.2 ++ [dir]), a.sink⟩
          -- Below `dir` path names are longer than its own, so that it is not noted once more.
          have hbelow : ∀ d ∈ dirs, dir.Within d ∧ d ≠ dir := by
            intro d hd
            obtain ⟨p, hp, hpd⟩ := hdirs d hd
            obtain ⟨name, hname, rfl⟩ := View.mem_entryPaths.mp hp
            refine ⟨(Path.Within.here.entry (hplain name hname)).trans hpd, ?_⟩
            rintro rfl
            exact (d.length_lt_join (hplain name hname)).not_ge hpd.length_le
          refine ⟨dir :: dirs, ?_, List.nodup_cons.mpr ⟨fun hd => (hbelow dir hd).2 rfl, hnodup'⟩, ?_⟩
          · rw [hnotes, List.append_assoc]
            rfl
          · exact List.forall_mem_cons.mpr ⟨.here, fun d hd => (hbelow d hd).1⟩

/-- **A walk lists no directory twice**, and none but its own and those below it, whatever the cases
that are run do to the files. -/
theorem nodup_listed (hm : m.Plain) (s : Settings) (depth : ℕ) (dir : Path) (session : Session σ) :
    (listed m s depth dir session).Nodup ∧ ∀ d ∈ listed m s depth dir session, dir.Within d := by
  obtain ⟨dirs, hnotes, hdirs⟩ :=
    notes_visit (s := s) hm depth dir ⟨(session.state, []), session.sink⟩
  rw [listed, hnotes]
  exact hdirs

/-! ## What is listed on a view -/

variable {v : View}

/-- **A walk that comes to a value has gone along a trail to its end**, and made notes of the
directories on it. -/
def NotesTrail (v : View) (todos : List Todo) (x : Walk (σ × List Path) α) : Prop :=
  ∀ a value b, x a = (.ok value, b) → ∃ sights, v.Trail todos sights [] ∧
    b.state.2 = a.state.2 ++ Sight.directories sights

theorem Quiet.notesTrail {x : Walk (σ × List Path) α} (h : Quiet x) : NotesTrail v [] x := by
  intro a value b hrun
  refine ⟨[], .refl [], ?_⟩
  have hnotes := h a
  rw [hrun] at hnotes
  exact hnotes.trans (List.append_nil _).symm

theorem NotesTrail.bind {x : Walk (σ × List Path) α} {f : α → Walk (σ × List Path) β}
    {todos todos' : List Todo} (hx : NotesTrail v todos x) (hf : ∀ value, NotesTrail v todos' (f value)) :
    NotesTrail v (todos ++ todos') (x >>= f) := by
  intro a value c h
  obtain ⟨first, b, hfirst, hrest⟩ := exists_of_bind_eq_ok h
  obtain ⟨sights, htrail, hnotes⟩ := hx _ _ _ hfirst
  obtain ⟨more, htrail', hnotes'⟩ := hf first _ _ _ hrest
  refine ⟨sights ++ more, (htrail.append todos').trans htrail', ?_⟩
  rw [hnotes', hnotes, List.append_assoc, Sight.directories_append]

theorem NotesTrail.bind_quiet {x : Walk (σ × List Path) α} {f : α → Walk (σ × List Path) β}
    {todos : List Todo} (hx : NotesTrail v todos x) (hf : ∀ value, Quiet (f value)) :
    NotesTrail v todos (x >>= f) := by
  have h := hx.bind fun value => (hf value).notesTrail (v := v)
  rwa [List.append_nil] at h

section

variable (hm : m.Shows v)
include hm

theorem notesTrail_visitPath {enter : Path → Walk (σ × List Path) Totals}
    (henter : ∀ p, NotesTrail v [.enter p] (enter p)) (t : Totals) (p : Path) :
    NotesTrail v [.look p] (visitPath m.noting s enter t p) := by
  intro a value b h
  cases hd : v.isDirectory p with
  | true =>
      have hdirectory : m.noting.isDirectory p a.state = true := (hm.isDirectory p _).trans hd
      rw [visitPath_apply, if_pos hdirectory] at h
      obtain ⟨sights, htrail, hnotes⟩ :=
        (henter p).bind_quiet (fun inner => quiet_orStop .overflow (t.add inner)) _ _ _ h
      exact ⟨sights, (View.Trail.descend [] hd).trans htrail, hnotes⟩
  | false =>
      have hnotes : (visitPath m.noting s enter t p a).2.state.2 = a.state.2 :=
        notes_of_file ((hm.isDirectory p a.state.1).trans hd) t
      rw [h] at hnotes
      exact ⟨[.file p], .pass [] hd, hnotes.trans (List.append_nil _).symm⟩

theorem notesTrail_visitPaths {enter : Path → Walk (σ × List Path) Totals}
    (henter : ∀ p, NotesTrail v [.enter p] (enter p)) (t : Totals) (ps : List Path) :
    NotesTrail v (ps.map .look) (visitPaths m.noting s enter t ps) := by
  induction ps generalizing t with
  | nil => exact (quiet_pure t).notesTrail
  | cons p ps ih => exact (notesTrail_visitPath hm henter t p).bind ih

theorem notesTrail_visit (depth : ℕ) (dir : Path) :
    NotesTrail v [.enter dir] (visitNoting m s depth dir) := by
  induction depth generalizing dir with
  | zero => exact fun _ _ _ h => nomatch h
  | succ depth ih =>
      intro a value b h
      rw [visitNoting_succ, hm.list] at h
      cases hl : v.list dir with
      | error cause =>
          rw [hl] at h
          cases h
      | ok names =>
          rw [hl] at h
          obtain ⟨sights, htrail, hnotes⟩ :=
            notesTrail_visitPaths hm ih .zero (entryPaths dir names) _ _ _ h
          have henter := View.Trail.enter [] hl
          rw [List.append_nil] at henter
          refine ⟨_, henter.trans htrail, ?_⟩
          rw [hnotes, List.append_assoc]
          rfl

/-- **A walk that comes to its end on files that stay as they are** has listed the directories on its
trail, in their order: its own and all that can be reached below it. -/
theorem listed_of_returns {depth : ℕ} {dir : Path} {session : Session σ} {t : Totals}
    (h : (visit m s depth dir session).1 = .ok t) :
    (∃ sights, v.Trail [.enter dir] sights [] ∧
      listed m s depth dir session = Sight.directories sights) ∧
      ∀ d, d ∈ listed m s depth dir session ↔ v.Reached dir d := by
  obtain ⟨hresult, -⟩ := visit_noting m s depth dir session []
  rcases hrun : visitNoting m s depth dir ⟨(session.state, []), session.sink⟩ with ⟨r, b⟩
  rw [hrun, h] at hresult
  obtain rfl : r = .ok t := hresult
  obtain ⟨sights, htrail, hnotes⟩ := notesTrail_visit hm depth dir _ _ _ hrun
  have hlisted : listed m s depth dir session = Sight.directories sights := by
    rw [listed, hrun, hnotes]
    rfl
  refine ⟨⟨sights, htrail, hlisted⟩, fun d => ?_⟩
  rw [hlisted, Sight.mem_directories]
  exact View.directory_mem_iff_reached htrail d

end

end Walk

end Conformance
