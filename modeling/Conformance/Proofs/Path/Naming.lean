import Conformance.Proofs.Path.Ending
import Conformance.Case
import Conformance.Settings

set_option autoImplicit false

/-! # What a case is called

A case is called after the last component of its path and after the one before it, and it is a script
by the extension of the last one. `Settings.Called` says so of two names, that of the directory and that
of the file, either of which may be missing. Every path is called by its components alone, however it
is spelled, and an entry of a directory is called by the name of the directory and its own name
(`Settings.called_by_components`).
-/

namespace Conformance

namespace Settings

open Conformance.Path (Cut Stem lastName? PlainName)

/-- **How the case at a path is called** if its directory has the name `dir` and its file the name
`file`, as far as they have names. -/
structure Called (s : Settings) (p : Path) (dir file : Option Bytes) : Prop where
  suite_of_name : ∀ name, dir = some name → TestCase.suite ⟨p⟩ = Utf8.decode name
  suite_of_none : dir = none → TestCase.suite ⟨p⟩ = ""
  exists_stem : ∀ name, file = some name → ∃ stem, Stem name stem
  displayName_of_stem : ∀ name stem, file = some name → Stem name stem →
    TestCase.displayName ⟨p⟩ = TestCase.spaced (Utf8.decode stem)
  displayName_of_none : file = none → TestCase.displayName ⟨p⟩ = ""
  isScript_iff : s.isScript p = true ↔
    ∃ name stem, file = some name ∧ Cut name stem (Utf8.encode s.extension)

theorem called (s : Settings) (p : Path) : s.Called p (p.parent.bind Path.fileName) p.fileName where
  suite_of_name := by
    intro name hname
    unfold TestCase.suite
    rw [hname]
  suite_of_none := by
    intro hnone
    unfold TestCase.suite
    rw [hnone]
  exists_stem := by
    intro name _
    exact ⟨_, Path.stem_splitName name⟩
  displayName_of_stem := by
    intro name stem hname hstem
    unfold TestCase.displayName Path.stem
    rw [hname, Option.map_some, hstem.eq]
  displayName_of_none := by
    intro hnone
    unfold TestCase.displayName Path.stem
    rw [hnone, Option.map_none]
  isScript_iff := by
    unfold isScript Path.extension
    cases hname : p.fileName with
    | none => simp
    | some name =>
        rw [Option.bind_some, decide_eq_true_iff, Path.splitName_eq_some_iff]
        simp

/-- **A case is called by the components of its path**, so that paths with the same components are
called the same. The entry of a directory is called after the directory and by its own name, however
the path of the directory is spelled. -/
theorem called_by_components (s : Settings) (p : Path) :
    s.Called p (lastName? p.components.dropLast) (lastName? p.components) ∧
    (∀ q : Path, q.components = p.components →
      TestCase.suite ⟨q⟩ = TestCase.suite ⟨p⟩ ∧
      TestCase.displayName ⟨q⟩ = TestCase.displayName ⟨p⟩ ∧ s.isScript q = s.isScript p) ∧
    ∀ entry, PlainName entry → s.Called (p.join entry) (lastName? p.components) (some entry) := by
  have hcalled : ∀ q : Path,
      s.Called q (lastName? q.components.dropLast) (lastName? q.components) := by
    intro q
    rw [← q.parent_bind_fileName, ← q.fileName_eq]
    exact s.called q
  refine ⟨hcalled p, ?_, ?_⟩
  · intro q hq
    have hsuite : q.parent.bind Path.fileName = p.parent.bind Path.fileName := by
      rw [q.parent_bind_fileName, p.parent_bind_fileName, hq]
    have hname : q.fileName = p.fileName := by
      rw [q.fileName_eq, p.fileName_eq, hq]
    refine ⟨?_, ?_, ?_⟩
    · unfold TestCase.suite
      rw [hsuite]
    · unfold TestCase.displayName Path.stem
      rw [hname]
    · unfold isScript Path.extension
      rw [hname]
  · intro entry hentry
    have hjoin := hcalled (p.join entry)
    rwa [Path.components_join p hentry, List.dropLast_concat, Path.lastName?_append_singleton]
      at hjoin

/-- Slashes too many and a dot make no difference, and an entry of `..` has no suite. -/
theorem called_by_components_sample :
    TestCase.suite ⟨.ofText "a//b/./c_d.x.lua/"⟩ = "b" ∧
    TestCase.displayName ⟨.ofText "a//b/./c_d.x.lua/"⟩ = "c d.x" ∧
    (Settings.default (.ofText "a") (.ofText "lua")).isScript (.ofText "a//b/./c_d.x.lua/") = true ∧
    TestCase.suite ⟨(Path.ofText "a/..").join (Utf8.encode "c.lua")⟩ = "" := by
  obtain ⟨hcalled, hspelled, -⟩ :=
    called_by_components (.default (.ofText "a") (.ofText "lua")) (.ofText "a/b/c_d.x.lua")
  obtain ⟨hsuite, hdisplay, hscript⟩ := hspelled (.ofText "a//b/./c_d.x.lua/") (by decide)
  obtain ⟨-, -, hentry⟩ :=
    called_by_components (.default (.ofText "a") (.ofText "lua")) (.ofText "a/..")
  have hcut : Cut (Utf8.encode "c_d.x.lua") (Utf8.encode "c_d.x") (Utf8.encode "lua") :=
    ⟨by decide, by decide, by decide⟩
  rw [hsuite, hdisplay, hscript]
  refine ⟨?_, ?_, ?_, ?_⟩
  · rw [hcalled.suite_of_name (Utf8.encode "b") (by decide)]
    decide +kernel
  · rw [hcalled.displayName_of_stem _ _ (by decide) (.cut hcut)]
    decide +kernel
  · exact hcalled.isScript_iff.mpr ⟨_, _, by decide, hcut⟩
  · exact (hentry (Utf8.encode "c.lua") (by decide)).suite_of_none (by decide)

end Settings

end Conformance
