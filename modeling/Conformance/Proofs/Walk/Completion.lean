import Conformance.Proofs.Walk.Independence
import Conformance.Proofs.Walk.Listings

set_option autoImplicit false

/-! # How a run ends

On files that stay as they are and on a sink that refuses nothing, a run ends in one of two ways.
If every directory it reaches can be listed, it returns the totals of all scripts below its root,
after a report on each of them and the summary (`View.returns_flat_count`). Otherwise it ends with
the error of the first directory on its trail that cannot be listed, after a report on the scripts
met before (`View.error_iff_blocked`). What comes of a case decides neither.
-/

namespace Conformance

/-- The settings for the root `t`, all else as by default. -/
def Settings.sample : Settings := .default (.ofText "t") (.ofText "lua")

namespace View

/-! ## Files to show this on -/

/-- The root `t` with two scripts and, between them, a directory that is called like a script and
has the given listing. -/
def sample (inner : Except IoError (List Bytes)) : View :=
  .ofListings [
    (.ofText "t", .ok (["c.lua", "b.lua", "a.lua"].map Utf8.encode)),
    (.ofText "t/b.lua", inner)]

/-- The sample, where the directory holds a third script. -/
def sampleListed : View := sample (.ok (["e.txt", "d.lua"].map Utf8.encode))

/-- The sample, where the directory cannot be listed. -/
def sampleBlocked : View := sample (.error .notText)

/-- What comes of the cases there: only `t/a.lua` passes. -/
def sampleOutcome (c : TestCase) : Outcome :=
  if c.path = .ofText "t/a.lua" then .ok ⟨.exited 0, [], []⟩ else .error (.lost .notText)

/-- What is met there, in order. -/
def sampleSights : List Sight :=
  [.directory (.ofText "t"), .file (.ofText "t/a.lua"), .directory (.ofText "t/b.lua"),
    .file (.ofText "t/b.lua/d.lua"), .file (.ofText "t/b.lua/e.txt"), .file (.ofText "t/c.lua")]

theorem trail_sampleListed : sampleListed.Trail [.enter Settings.sample.root] sampleSights [] :=
  .of_advance 9 (by cbv)

/-! ## Runs that come to their end -/

section Completion

variable {v : View} {s : Settings}

/-- **A run on files of which every directory can be listed returns one flat count.** It runs the
scripts below its root, each of them once, in the order of the trail, where an earlier path is
smaller than a later one at the component where they part. It writes what is written for each of
them, and then the summary. Only an endless chain of directories, which no file system has
(`View.founded_of_length_le`), would keep it from returning. -/
theorem returns_flat_count (outcome : TestCase → Outcome) (hfounded : v.Founded s.root)
    (hlist : ∀ dir, v.Reached s.root dir → ∃ names, v.list dir = .ok names)
    (hfew : v.FewScripts s) :
    ∃ sights t summary,
      v.Trail [.enter s.root] sights [] ∧
      (∀ p, ⟨p⟩ ∈ s.scripts sights ↔
        v.Below s.root p ∧ v.isDirectory p = false ∧ s.isScript p = true) ∧
      (v.Plain → (s.scripts sights).Nodup ∧
        (s.scripts sights).Pairwise fun c d => c.path.Apart d.path) ∧
      t.total.toNat = (s.scripts sights).length ∧
      t.passed.toNat = (s.scripts sights).countP (fun c => (outcome c).passes) ∧
      (Reporter.ofSettings s).summary t = .ok summary ∧
      v.Returns outcome s .unlimited (.ok t) ⟨s.scripts sights,
        .holding (s.report outcome (s.scripts sights) ++ Emission.written summary)⟩ := by
  obtain ⟨sights, htrail⟩ := trail_ends_iff.mpr ⟨hfounded, hlist⟩
  obtain ⟨t, ht, hreturns⟩ := returns_of_end outcome htrail (hfew _ _ htrail)
  refine ⟨sights, t, s.summary t, htrail, fun p => ?_, fun hplain => ?_, ht.total, ht.passed,
    Settings.summary_eq ht, hreturns⟩
  · rw [Settings.mem_scripts, file_mem_iff_below htrail, and_assoc]
  · have hapart := s.pairwise_scripts (htrail.pairwise_apart hplain (by simp))
    exact ⟨hapart.imp fun h heq => h.ne (congrArg TestCase.path heq), hapart⟩

/-- On the sample three scripts are run and one of them passes. -/
theorem returns_flat_count_sample :
    ∃ t bytes, t.total.toNat = 3 ∧ t.passed.toNat = 1 ∧
      sampleListed.Returns sampleOutcome .sample .unlimited (.ok t)
        ⟨[⟨.ofText "t/a.lua"⟩, ⟨.ofText "t/b.lua/d.lua"⟩, ⟨.ofText "t/c.lua"⟩],
          .holding bytes⟩ := by
  have hplain : sampleListed.Plain := plain_ofListings (by decide)
  have hroot : sampleListed.isDirectory Settings.sample.root = true := by decide
  have hlist : ∀ dir, sampleListed.Reached Settings.sample.root dir →
      ∃ names, sampleListed.list dir = .ok names := by
    rintro dir (rfl | ⟨-, hd⟩)
    · exact list_ofListings (by decide) hroot
    · exact list_ofListings (by decide) hd
  obtain ⟨sights, t, summary, ht, -, -, htotal, hpassed, -, hreturns⟩ :=
    returns_flat_count (s := .sample) sampleOutcome (founded_ofListings hplain _) hlist
      (fewScripts_of_stuck trail_sampleListed stuck_nil (by decide))
  obtain ⟨rfl, -⟩ := trail_sampleListed.stuck_unique stuck_nil ht stuck_nil
  exact ⟨t, _, htotal, hpassed.trans (by decide), hreturns⟩

end Completion

/-! ## Runs that are blocked -/

/-- **A run ends with an error if and only if it is blocked**, and then the error is that of the
directory that blocks it, the first on its trail that cannot be listed. The scripts met before have
been run and reported, no other script has been run, and nothing of a summary is written. Only more
scripts than a word can count keep a run from getting there. No outcome of a case makes a run end
with an error or changes which cases are run. -/
theorem error_iff_blocked (v : View) (s : Settings) :
    (∀ sights dir cause, v.BlockedAt s.root sights dir cause →
      v.Reached s.root dir ∧ ∀ d, .directory d ∈ sights → ∃ names, v.list d = .ok names) ∧
    (v.Founded s.root → ((∃ sights dir cause, v.BlockedAt s.root sights dir cause) ↔
      ∃ dir cause, v.Reached s.root dir ∧ v.list dir = .error cause)) ∧
    (∀ outcome depth e session,
      v.runSuites outcome s depth .unlimited = (.error (.failed e), session) →
      ∃ sights dir cause, v.BlockedAt s.root sights dir cause ∧ e = .discovery dir cause ∧
        session = ⟨s.scripts sights, .holding (s.report outcome (s.scripts sights))⟩) ∧
    (∀ outcome sights dir cause depth, v.BlockedAt s.root sights dir cause →
      sights.length < depth →
      v.runSuites outcome s depth .unlimited = (.error (.failed (.discovery dir cause)),
          ⟨s.scripts sights, .holding (s.report outcome (s.scripts sights))⟩) ∨
        UInt64.size ≤ (s.scripts sights).length ∧
          (v.runSuites outcome s depth .unlimited).1 = .error (.overflow .add)) ∧
    ∀ outcome outcome' depth,
      (∀ reason, (v.runSuites outcome s depth .unlimited).1 = .error reason ↔
        (v.runSuites outcome' s depth .unlimited).1 = .error reason) ∧
      (v.runSuites outcome s depth .unlimited).2.state =
        (v.runSuites outcome' s depth .unlimited).2.state := by
  refine ⟨fun _ _ _ h => h.listed, blocked_iff, ?_, ?_, ?_⟩
  · intro outcome depth e session hrun
    obtain ⟨sights, last, r, htrail, hfate, hrun'⟩ := exists_run_unlimited v s outcome depth
    rw [hrun, Prod.mk.injEq] at hrun'
    obtain ⟨rfl, rfl⟩ := hrun'
    cases hfate with
    | @blocked dir cause rest hl =>
        refine ⟨sights, dir, cause, ⟨⟨rest, htrail⟩, hl⟩, rfl, ?_⟩
        simp [Settings.ending, Emission.written]
  · rintro outcome sights dir cause depth ⟨⟨rest, htrail⟩, hl⟩ hdepth
    exact run_of_blocked outcome htrail hl hdepth
  · intro outcome outcome' depth
    obtain ⟨halike, hstate⟩ := v.runSuites_independent s outcome outcome' depth
    exact ⟨halike.error_iff, hstate⟩

/-- On the sample the first script is run, and the directory after it cannot be listed. -/
theorem error_iff_blocked_sample :
    sampleBlocked.runSuites sampleOutcome .sample 3 .unlimited =
      (.error (.failed (.discovery (.ofText "t/b.lua") .notText)), ⟨[⟨.ofText "t/a.lua"⟩],
        .holding (Settings.sample.report sampleOutcome [⟨.ofText "t/a.lua"⟩])⟩) := by
  have htrail : sampleBlocked.Trail [.enter Settings.sample.root]
      [.directory (.ofText "t"), .file (.ofText "t/a.lua")]
      [.enter (.ofText "t/b.lua"), .look (.ofText "t/c.lua")] := .of_advance 9 (by cbv)
  obtain ⟨-, -, -, hruns, -⟩ := error_iff_blocked sampleBlocked .sample
  have hrun := hruns sampleOutcome _ _ _ 3 ⟨⟨_, htrail⟩, rfl⟩ (by decide)
  exact hrun.resolve_right fun hmany => absurd hmany.1 (by decide)

end View

end Conformance
