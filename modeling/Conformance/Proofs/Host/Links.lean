import Mathlib
import Conformance.Host.Run
import Conformance.Proofs.Host.Resolution
import Conformance.Proofs.Walk.Depth

set_option autoImplicit false

/-! # Walks through links

A link can lead back to a directory above it, so that a directory has a path name below itself and a
walk that follows links enters it again. What ends such a walk is the limit on the links of a path. Along
a chain of directories, each an entry of the one before, every entry is either a real one, one level
deeper in the tree, or a link that is used up for the rest of the chain. So a chain is shorter than
one more than the link limit times one more than the depth of the tree (`World.shallow_root`).

`FileTree.Nested` is the depth of the tree without its links, and `FileTree.WellFormed` says that it is a
tree. The walk of any root on any such tree is bounded, enters every directory path once, and passes by
what the system refuses (`World.walk_through_links`).
-/

namespace Conformance

namespace FileTree

/-! ## The depth of a tree -/

/-- **The directory `b` lies `n` directories below `a`**, with no link on the way. -/
inductive Nested (t : FileTree) : ℕ → FileId → FileId → Prop
  | here {a mode parent : ℕ} {names : List (Bytes × FileId)} :
      t.entryAt a = some (.directory mode parent names) → Nested t 0 a a
  | deeper {n a b child mode parent : ℕ} {name : Bytes} {names : List (Bytes × FileId)} :
      t.entryAt a = some (.directory mode parent names) → (name, child) ∈ names →
      Nested t n child b → Nested t (n + 1) a b

/-- **A tree of files.** The root is a directory, a directory has plain names and each of them once,
and no directory lies below itself. -/
structure WellFormed (t : FileTree) : Prop where
  root : ∃ mode parent names, t.entryAt root = some (.directory mode parent names)
  names : ∀ id mode parent names, t.entryAt id = some (.directory mode parent names) →
    (names.map Prod.fst).Nodup ∧ ∀ entry ∈ names, Path.PlainName entry.1
  acyclic : ∀ n a, ¬ t.Nested (n + 1) a a

variable {t : FileTree}

theorem lt_size_of_entryAt {id : FileId} {entry : Entry} (h : t.entryAt id = some entry) :
    id < t.entries.size := by
  obtain ⟨hlt, -⟩ := Array.getElem?_eq_some_iff.mp h
  exact hlt

theorem Nested.directory {n : ℕ} {a b : FileId} (h : t.Nested n a b) :
    ∃ mode parent names, t.entryAt a = some (.directory mode parent names) := by
  cases h with
  | here ha => exact ⟨_, _, _, ha⟩
  | deeper ha _ _ => exact ⟨_, _, _, ha⟩

theorem Nested.exists_nodup (hacyclic : ∀ n a, ¬ t.Nested (n + 1) a a) {n : ℕ} {a b : FileId}
    (h : t.Nested n a b) :
    ∃ ids : List FileId, ids.length = n + 1 ∧ ids.Nodup ∧
      ∀ id ∈ ids, id < t.entries.size ∧ ∃ k, t.Nested k a id := by
  induction h with
  | @here a _ _ _ ha =>
      refine ⟨[a], rfl, List.nodup_singleton a, fun id hid => ?_⟩
      rw [List.mem_singleton.mp hid]
      exact ⟨lt_size_of_entryAt ha, 0, .here ha⟩
  | @deeper n a b child _ _ _ _ ha hchild _ ih =>
      obtain ⟨ids, hlength, hnodup, hids⟩ := ih
      refine ⟨a :: ids, by rw [List.length_cons, hlength], ?_, ?_⟩
      · refine List.nodup_cons.mpr ⟨fun hmem => ?_, hnodup⟩
        obtain ⟨-, k, hk⟩ := hids a hmem
        exact hacyclic k a (.deeper ha hchild hk)
      · refine List.forall_mem_cons.mpr ⟨⟨lt_size_of_entryAt ha, 0, .here ha⟩, fun id hid => ?_⟩
        obtain ⟨hlt, k, hk⟩ := hids id hid
        exact ⟨hlt, k + 1, .deeper ha hchild hk⟩

/-- **A tree is not deeper than it has entries.** -/
theorem Nested.lt_size (hacyclic : ∀ n a, ¬ t.Nested (n + 1) a a) {n : ℕ} {a b : FileId}
    (h : t.Nested n a b) : n < t.entries.size := by
  obtain ⟨ids, hlength, hnodup, hids⟩ := h.exists_nodup hacyclic
  have hsubset : ids ⊆ List.range t.entries.size :=
    fun id hid => List.mem_range.mpr (hids id hid).1
  have hle := (List.subperm_of_subset hnodup hsubset).length_le
  rw [List.length_range, hlength] at hle
  exact hle

/-- **Every tree has a depth.** -/
theorem WellFormed.exists_depth (h : t.WellFormed) :
    ∃ depth, IsGreatest {n | ∃ a b, t.Nested n a b} depth := by
  have hbounded : BddAbove {n | ∃ a b, t.Nested n a b} := by
    refine ⟨t.entries.size, ?_⟩
    rintro n ⟨a, b, hn⟩
    exact (hn.lt_size h.acyclic).le
  obtain ⟨mode, parent, names, hroot⟩ := h.root
  have hnonempty : {n | ∃ a b, t.Nested n a b}.Nonempty := ⟨0, _, _, .here hroot⟩
  exact ⟨_, Nat.sSup_mem hnonempty hbounded, fun n hn => le_csSup hbounded hn⟩

end FileTree

namespace World

open FileTree

def view (w : World) : View := ⟨w.listDirectory, w.isDirectory⟩

variable {w : World}

/-! ## Directories that are found -/

theorem find_of_listDirectory {dir : Path} {names : List Bytes}
    (h : w.listDirectory dir = .ok names) :
    ∃ id mode parent entries, w.tree.find w.cwd dir.bytes = .ok (id, .directory mode parent entries) ∧
      names = entries.map Prod.fst := by
  rw [listDirectory, checked] at h
  split at h
  · cases h
  · change (w.tree.list w.cwd dir.bytes).mapError IoError.os = .ok names at h
    rw [FileTree.list] at h
    split at h
    · next id mode parent entries hfind =>
        split at h
        · cases h
        · cases h
          exact ⟨id, mode, parent, entries, hfind, rfl⟩
    · cases h
    · cases h

theorem find_of_isDirectory {p : Path} (h : w.isDirectory p = true) :
    ∃ id mode parent entries, w.tree.find w.cwd p.bytes = .ok (id, .directory mode parent entries) := by
  rw [isDirectory, Bool.and_eq_true, FileTree.isDirectory] at h
  obtain ⟨-, h⟩ := h
  split at h
  · next id entry hfind =>
      cases entry with
      | directory mode parent entries => exact ⟨id, mode, parent, entries, hfind⟩
      | _ => cases h
  · cases h

theorem plain_view (h : w.tree.WellFormed) : w.view.Plain := by
  intro dir names hl
  obtain ⟨id, mode, parent, entries, hfind, rfl⟩ := find_of_listDirectory hl
  obtain ⟨-, hentry, -⟩ := leads_of_find hfind
  obtain ⟨hnodup, hplain⟩ := h.names id mode parent entries hentry
  refine ⟨hnodup, fun name hname => ?_⟩
  obtain ⟨entry, hmem, rfl⟩ := List.mem_map.mp hname
  exact hplain entry hmem

/-! ## The bound -/

/-- **From a directory to an entry that is a directory too**: one level down in the tree with as many
links left, or anywhere with fewer of them. -/
theorem leads_of_subdirectory (h : w.tree.WellFormed) {dir sub : Path}
    (hsub : w.view.Subdirectory sub dir) {links : ℕ} {id : FileId}
    (hdir : Leads w.tree linkLimit (startOf w.cwd dir.bytes) (piecesOf dir.bytes) links id) :
    ∃ links' id' mode parent entries,
      w.tree.entryAt id' = some (.directory mode parent entries) ∧
      Leads w.tree linkLimit (startOf w.cwd sub.bytes) (piecesOf sub.bytes) links' id' ∧
      (links' = links ∧ w.tree.Nested 1 id id' ∨ links' < links) := by
  obtain ⟨hd, names, name, hl, hname, rfl⟩ := hsub
  have hplain := (plain_view h dir names hl).2 name hname
  obtain ⟨_, _, _, _, hfindDir, -⟩ := find_of_listDirectory hl
  obtain ⟨hne, -, -⟩ := leads_of_find hfindDir
  obtain ⟨id', mode, parent, entries, hfind⟩ := find_of_isDirectory hd
  obtain ⟨-, hentry, links', hleads⟩ := leads_of_find hfind
  refine ⟨links', id', mode, parent, entries, hentry, hleads, ?_⟩
  rw [piecesOf_join hne hplain, startOf_join w.cwd hne hplain] at hleads
  -- The way comes through the directory, and only its last piece is new.
  obtain ⟨middle, between, hfront, hlast⟩ := hleads.split
  obtain ⟨rfl, rfl⟩ := hdir.unique hfront
  obtain ⟨_, _, _, child, hid, hlookup, ⟨rfl, rfl⟩ | hlt⟩ := hlast.single hplain
  · obtain ⟨before, after, hnames, -⟩ := List.lookup_eq_some_iff.mp hlookup
    have hmem : (name, child) ∈ before ++ (name, child) :: after := by simp
    rw [← hnames] at hmem
    exact Or.inl ⟨rfl, .deeper hid hmem (.here hentry)⟩
  · exact Or.inr hlt

/-- **The measure of a walk.** Every link that is left is worth one more than the depth of the tree, and
every level of the tree that is left below is worth one. -/
theorem shallow_of_leads (h : w.tree.WellFormed) {depth : ℕ}
    (hdepth : ∀ n a b, w.tree.Nested n a b → n ≤ depth) {measure links height : ℕ} {id : FileId}
    {dir : Path}
    (hdir : Leads w.tree linkLimit (startOf w.cwd dir.bytes) (piecesOf dir.bytes) links id)
    (hheight : ∀ n b, w.tree.Nested n id b → n ≤ height)
    (hmeasure : links * (depth + 1) + height ≤ measure) : w.view.Shallow (measure + 1) dir := by
  induction measure generalizing links height id dir with
  | zero =>
      intro sub hsub
      obtain ⟨links', id', _, _, _, -, -, ⟨-, hnested⟩ | hlt⟩ := leads_of_subdirectory h hsub hdir
      · have := hheight 1 id' hnested
        omega
      · have : 1 * (depth + 1) ≤ links * (depth + 1) := Nat.mul_le_mul_right _ (by omega)
        omega
  | succ measure ih =>
      intro sub hsub
      obtain ⟨links', id', mode, parent, entries, hid', hleads, ⟨rfl, hnested⟩ | hlt⟩ :=
        leads_of_subdirectory h hsub hdir
      · have hone := hheight 1 id' hnested
        have hmeasure' : links' * (depth + 1) + (height - 1) ≤ measure := by omega
        refine ih hleads (fun n b hn => ?_) hmeasure'
        cases hnested with
        | deeper hid hmem hrest =>
            cases hrest
            have := hheight (n + 1) b (.deeper hid hmem hn)
            omega
      · refine ih hleads (fun n b hn => hdepth n id' b hn) ?_
        have hworth : (links' + 1) * (depth + 1) ≤ links * (depth + 1) :=
          Nat.mul_le_mul_right _ hlt
        rw [Nat.succ_mul] at hworth
        omega

/-- **Directories are nested below any root no deeper than the links and the tree allow.** -/
theorem shallow_root (h : w.tree.WellFormed) {depth : ℕ}
    (hdepth : ∀ n a b, w.tree.Nested n a b → n ≤ depth) (root : Path) :
    w.view.Shallow ((linkLimit + 1) * (depth + 1)) root := by
  have hsucc : (linkLimit + 1) * (depth + 1) = linkLimit * (depth + 1) + depth + 1 := by
    rw [Nat.succ_mul]
    rfl
  rw [hsucc]
  cases hl : w.view.list root with
  | error cause => exact View.shallow_of_error hl _
  | ok names =>
      obtain ⟨id, _, _, _, hfind, -⟩ := find_of_listDirectory hl
      obtain ⟨-, -, links, hleads⟩ := leads_of_find hfind
      have hlinks : links * (depth + 1) ≤ linkLimit * (depth + 1) :=
        Nat.mul_le_mul_right _ hleads.links_le
      exact shallow_of_leads h hdepth hleads (fun n b hn => hdepth n id b hn) (by omega)

/-! ## What is refused -/

section Refused

variable {p : Path} {e : Errno}

theorem isDirectory_of_refused (h : w.tree.find w.cwd p.bytes = .error e) :
    w.isDirectory p = false := by
  rw [isDirectory, FileTree.isDirectory, h]
  exact Bool.and_false _

theorem refusal?_of_refused (hzero : 0 ∉ p.bytes) (h : w.tree.find w.cwd p.bytes = .error e) :
    w.refusal? p = some (.os e) := by
  have hchecked : checked p = .ok p.bytes := by
    rw [checked, if_neg]
    rw [List.contains_iff_mem]
    exact hzero
  rw [refusal?, hchecked]
  simp only [findReadable, h]

theorem runCase_of_refused (s : Settings) (hzero : 0 ∉ p.bytes)
    (h : w.tree.find w.cwd p.bytes = .error e) (sink : Sink) :
    Walk.runCase (World.machine s) s ⟨p⟩ ⟨w, sink⟩ =
      (do
        Walk.report ((Reporter.ofSettings s).started ⟨p⟩)
        Walk.report ((Reporter.ofSettings s).finished ⟨p⟩
          (.failed (.unreadable (Error.unreadable p (.os e)).message)))
        pure false : Walk World Bool) ⟨w, sink⟩ := by
  have hrun : (World.machine s).run ⟨p⟩ w = (.error (.unreadable p (.os e)), w) := by
    show w.runCase s.interpreter p s.timeout = _
    rw [runCase, Runner.run, refusal?_of_refused hzero h]
  unfold Walk.runCase
  rcases hstarted : Walk.report ((Reporter.ofSettings s).started ⟨p⟩) (⟨w, sink⟩ : Session World)
    with ⟨reason | u, session⟩
  · rw [Walk.bind_of_error _ hstarted, Walk.bind_of_error _ hstarted]
  · rw [Walk.bind_of_ok _ hstarted, Walk.bind_of_ok _ hstarted]
    -- Reporting leaves the world as it is.
    have hstate : session.state = w := (congrArg (fun r => r.2.state) hstarted).symm
    have hattempt : Walk.attempt (World.machine s) ⟨p⟩ session =
        (.ok (.error (.unreadable p (.os e))), session) := by
      rw [Walk.attempt, hstate, hrun, ← hstate]
    have hverdict : (Walk.orStop .failed (classifyRun (.error (.unreadable p (.os e))) s.timeout) :
        Walk World Verdict) session =
        (.ok (.failed (.unreadable (Error.unreadable p (.os e)).message)), session) := rfl
    rw [Walk.bind_of_ok _ hattempt, Walk.bind_of_ok _ hverdict]
    rfl

/-- **A refused path is a file to a walk**, whatever is done with directories: it is a failing case if
it is called like a script, and passed by otherwise. -/
theorem visitPath_of_refused (s : Settings) (hzero : 0 ∉ p.bytes)
    (h : w.tree.find w.cwd p.bytes = .error e) (enter : Path → Walk World Totals) (t : Totals)
    (sink : Sink) :
    Walk.visitPath (World.machine s) s enter t p ⟨w, sink⟩ =
      if s.isScript p then
        (do
          Walk.report ((Reporter.ofSettings s).started ⟨p⟩)
          Walk.report ((Reporter.ofSettings s).finished ⟨p⟩
            (.failed (.unreadable (Error.unreadable p (.os e)).message)))
          Walk.orStop .overflow (t.record false) : Walk World Totals) ⟨w, sink⟩
      else (.ok t, ⟨w, sink⟩) := by
  have hd : ¬ (World.machine s).isDirectory p w = true := by
    rw [Bool.not_eq_true]
    exact isDirectory_of_refused h
  have hcase := runCase_of_refused s hzero h sink
  rw [Walk.visitPath_apply, if_neg hd]
  split
  · rcases hstarted : Walk.report ((Reporter.ofSettings s).started ⟨p⟩) (⟨w, sink⟩ : Session World)
      with ⟨reason | u, session⟩
    · rw [Walk.bind_of_error _ hstarted] at hcase
      rw [Walk.bind_of_error _ hcase, Walk.bind_of_error _ hstarted]
    · rw [Walk.bind_of_ok _ hstarted] at hcase
      rw [Walk.bind_of_ok _ hstarted]
      rcases hfinished : Walk.report ((Reporter.ofSettings s).finished ⟨p⟩
        (.failed (.unreadable (Error.unreadable p (.os e)).message))) session with
        ⟨reason | u', session'⟩
      · rw [Walk.bind_of_error _ hfinished] at hcase
        rw [Walk.bind_of_error _ hcase, Walk.bind_of_error _ hfinished]
      · rw [Walk.bind_of_ok _ hfinished] at hcase
        rw [Walk.bind_of_ok _ hcase, Walk.bind_of_ok _ hfinished]
  · rfl

end Refused

/-! ## Walks -/

/-- **A walk ends on any tree of directories, files and links**, wherever the links lead. With the limit
on the links of a path, directories are nested no deeper than the links and the depth of the tree
allow, so that no run is too deep from there on. The walk enters every directory that it reaches,
and none of them twice, and the cases of a run are the scripts that it meets. A path that is refused
is never entered: it is a case that fails, or is passed by. -/
theorem walk_through_links (w : World) (h : w.tree.WellFormed) (s : Settings) :
    ∃ depth, IsGreatest {n | ∃ a b, w.tree.Nested n a b} depth ∧
      (∀ {σ : Type} (m : Machine σ), m.Shows w.view →
        ∀ room, (linkLimit + 1) * (depth + 1) ≤ room →
          (∀ session, (Walk.runSuites m s room session).1 ≠ .error .tooDeep) ∧
          Walk.runSuites m s room = Walk.runSuites m s ((linkLimit + 1) * (depth + 1))) ∧
      (∃ sights last, w.view.Trail [.enter s.root] sights last ∧
        (last = [] ∨ ∃ dir cause rest, last = .enter dir :: rest ∧ w.listDirectory dir = .error cause) ∧
        (Sight.directories sights).Nodup ∧
        (last = [] → ∀ dir, dir ∈ Sight.directories sights ↔ w.view.Reached s.root dir) ∧
        ∀ outcome room, (linkLimit + 1) * (depth + 1) ≤ room →
          (s.scripts sights).length < UInt64.size →
          (w.view.runSuites outcome s room .unlimited).2.state = s.scripts sights) ∧
      ∀ p e, 0 ∉ p.bytes → w.tree.find w.cwd p.bytes = .error e →
        (∀ sights last, w.view.Trail [.enter s.root] sights last →
          p ∉ Sight.directories sights ∧ (.enter p ∈ last → p = s.root)) ∧
        ∀ enter t sink, Walk.visitPath (World.machine s) s enter t p ⟨w, sink⟩ =
          if s.isScript p then
            (do
              Walk.report ((Reporter.ofSettings s).started ⟨p⟩)
              Walk.report ((Reporter.ofSettings s).finished ⟨p⟩
                (.failed (.unreadable (Error.unreadable p (.os e)).message)))
              Walk.orStop .overflow (t.record false) : Walk World Totals) ⟨w, sink⟩
          else (.ok t, ⟨w, sink⟩) := by
  obtain ⟨depth, hdepth⟩ := h.exists_depth
  have hnested : ∀ n a b, w.tree.Nested n a b → n ≤ depth := fun n a b hn => hdepth.2 ⟨a, b, hn⟩
  have hshallow := shallow_root h hnested s.root
  have hplain := plain_view h
  refine ⟨depth, hdepth, fun m hm room hroom => ?_, ?_, fun p e hzero hrefused => ⟨?_, ?_⟩⟩
  · exact Walk.runSuites_deep_enough hm hshallow hroom
  · obtain ⟨sights, last, htrail, hstuck⟩ := View.exists_stuck_trail hshallow.founded
    refine ⟨sights, last, htrail, View.stuck_iff.mp hstuck, ?_, ?_, ?_⟩
    · exact htrail.nodup_directories hplain (by simp)
    · rintro rfl dir
      exact Sight.mem_directories.trans (View.directory_mem_iff_reached htrail dir)
    · intro outcome room hroom hfew
      -- The run is the same at a depth that exceeds the length of the trail.
      have hm : (w.view.machineOf outcome).Shows w.view := View.shows_machine _ _
      have hsame : w.view.runSuites outcome s room .unlimited =
          w.view.runSuites outcome s (room + sights.length + 1) .unlimited := by
        have hroom' : (linkLimit + 1) * (depth + 1) ≤ room + sights.length + 1 := by omega
        rw [View.runSuites, View.runSuites, (Walk.runSuites_deep_enough hm hshallow hroom).2,
          (Walk.runSuites_deep_enough hm hshallow hroom').2]
      have hlong : sights.length < room + sights.length + 1 := by omega
      rw [hsame]
      rcases View.run_of_stuck outcome htrail hstuck hlong with ⟨r, -, hrun⟩ | ⟨hmany, -⟩
      · rw [hrun]
      · exact absurd hmany (not_le.mpr hfew)
  · intro sights last htrail
    obtain ⟨hsights, hlast⟩ := htrail.lies_below
    refine ⟨fun hmem => ?_, fun hmem => ?_⟩
    · obtain ⟨-, names, hl⟩ := hsights _ (Sight.mem_directories.mp hmem)
      obtain ⟨_, _, _, _, hfind, -⟩ := find_of_listDirectory hl
      rw [hrefused] at hfind
      cases hfind
    · rcases hlast _ hmem with hroot | ⟨-, hd⟩
      · exact hroot
      · have hnot : w.view.isDirectory p = false := isDirectory_of_refused hrefused
        rw [hnot] at hd
        cases hd
  · exact visitPath_of_refused s hzero hrefused

/-- A directory with a link to the directory above it and a link that leads nowhere. -/
def sampleLinks : World where
  tree := ⟨#[.directory 0o755 root [(Utf8.encode "t", 1)],
    .directory 0o755 root [(Utf8.encode "up", 2), (Utf8.encode "gone.lua", 3)],
    .link (Utf8.encode ".."), .link (Utf8.encode "nowhere")], by decide⟩
  clock := 0
  tasks := []
  fresh := 0
  pipes := []
  positions := []
  captured := []
  cwd := root
  environment := []

theorem entryAt_sampleLinks {a mode parent : ℕ} {names : List (Bytes × FileId)}
    (h : sampleLinks.tree.entryAt a = some (.directory mode parent names)) :
    a = 0 ∧ names = [(Utf8.encode "t", 1)] ∨
      a = 1 ∧ names = [(Utf8.encode "up", 2), (Utf8.encode "gone.lua", 3)] := by
  match a with
  | 0 =>
      cases h
      exact Or.inl ⟨rfl, rfl⟩
  | 1 =>
      cases h
      exact Or.inr ⟨rfl, rfl⟩
  | 2 => cases h
  | 3 => cases h
  | a + 4 => cases h

/-- Only the root has a directory below it there. -/
theorem nested_sampleLinks {n a b : ℕ} (h : sampleLinks.tree.Nested n a b) :
    n = 0 ∨ n = 1 ∧ a = 0 ∧ b = 1 := by
  -- Behind the directory that is not the root there are links only.
  have hleaf : ∀ {n b : ℕ}, sampleLinks.tree.Nested n 1 b → n = 0 ∧ b = 1 := by
    intro n b hn
    cases hn with
    | here _ => exact ⟨rfl, rfl⟩
    | deeper ha hmem hrest =>
        obtain ⟨mode, parent, names, hchild⟩ := hrest.directory
        obtain ⟨h0, -⟩ | ⟨-, rfl⟩ := entryAt_sampleLinks ha
        · exact absurd h0 (by decide)
        · have hlink := entryAt_sampleLinks hchild
          simp only [List.mem_cons, Prod.mk.injEq, List.not_mem_nil, or_false] at hmem
          omega
  cases h with
  | here _ => exact Or.inl rfl
  | deeper ha hmem hrest =>
      obtain ⟨rfl, rfl⟩ | ⟨rfl, -⟩ := entryAt_sampleLinks ha
      · simp only [List.mem_cons, Prod.mk.injEq, List.not_mem_nil, or_false] at hmem
        obtain ⟨-, rfl⟩ := hmem
        obtain ⟨rfl, rfl⟩ := hleaf hrest
        exact Or.inr ⟨rfl, rfl, rfl⟩
      · obtain ⟨hzero, -⟩ := hleaf (.deeper ha hmem hrest)
        exact absurd hzero (Nat.succ_ne_zero _)

theorem wellFormed_sampleLinks : sampleLinks.tree.WellFormed where
  root := ⟨_, _, _, rfl⟩
  names := by
    intro id mode parent names hid
    obtain ⟨-, rfl⟩ | ⟨-, rfl⟩ := entryAt_sampleLinks hid
    · decide
    · decide
  acyclic := by
    intro n a hn
    have := nested_sampleLinks hn
    omega

/-- On the sample the tree is one level deep, so that 82 levels are enough for every walk. The link that
leads nowhere is a case that fails. -/
theorem walk_through_links_sample :
    let s : Settings := .default (.ofText "t") (.ofText "lua")
    (Walk.runSuites (sampleLinks.view.machine fun _ => .error (.lost .notText)) s 82
      ⟨[], .unlimited⟩).1 ≠ .error .tooDeep ∧
    Walk.visitPath (World.machine s) s (fun _ => Walk.stop .tooDeep) .zero (.ofText "t/gone.lua")
        ⟨sampleLinks, .unlimited⟩ =
      (do
        Walk.report ((Reporter.ofSettings s).started ⟨.ofText "t/gone.lua"⟩)
        Walk.report ((Reporter.ofSettings s).finished ⟨.ofText "t/gone.lua"⟩
          (.failed (.unreadable (Error.unreadable (.ofText "t/gone.lua") (.os .noEntry)).message)))
        Walk.orStop .overflow (Totals.zero.record false) : Walk World Totals)
        ⟨sampleLinks, .unlimited⟩ := by
  intro s
  have hrefused : sampleLinks.tree.find sampleLinks.cwd (Path.ofText "t/gone.lua").bytes =
      .error .noEntry := by cbv
  have hzero : 0 ∉ (Path.ofText "t/gone.lua").bytes := by decide
  have hscript : s.isScript (.ofText "t/gone.lua") = true := by decide
  obtain ⟨depth, hdepth, hruns, -, hrefusals⟩ :=
    walk_through_links sampleLinks wellFormed_sampleLinks s
  have hle : depth ≤ 1 := by
    obtain ⟨a, b, hn⟩ := hdepth.1
    have := nested_sampleLinks hn
    omega
  have hroom : (linkLimit + 1) * (depth + 1) ≤ 82 := by
    rw [linkLimit]
    omega
  refine ⟨(hruns _ (View.shows_machine _ _) 82 hroom).1 _, ?_⟩
  have hvisit := (hrefusals _ _ hzero hrefused).2 (fun _ => Walk.stop .tooDeep) .zero .unlimited
  rw [if_pos hscript] at hvisit
  exact hvisit

end World

end Conformance
