import Conformance.Case
import Conformance.Proofs.Path.Ending
import Conformance.Proofs.Report.Recovery
import Conformance.Proofs.Text.Lossy

set_option autoImplicit false

/-! # Names that a shown path gives back

A path is shown as the text that its bytes are decoded to, with replacements for what is not well
formed. Slashes and dots are kept and no new ones are made, so that the shown path has the components of
the path, each of them decoded by itself (`Path.components_shown`), and a name is cut at the same dot
(`Path.Stem.recode`). A case is therefore called by its shown path as it is by its path, and its record
has the names that the path in the record gives (`TestCase.named_by_shown_path`).
-/

namespace Conformance

open Utf8 (recode recode_append_cons mem_of_mem_recode recode_eq_nil_iff recode_eq_cons_iff)

namespace Path

def shown (p : Path) : Path := .ofText p.text

/-- A component with its name decoded. -/
def Component.recode : Component → Component
  | .name bytes => .name (Utf8.recode bytes)
  | c => c

/-! ## Pieces and components -/

/-- **A path that is decoded has the same pieces**, each of them decoded. -/
theorem pieces_recode (bytes : Bytes) : pieces (recode bytes) = (pieces bytes).map recode := by
  induction hlength : bytes.length using Nat.strong_induction_on generalizing bytes with
  | _ n ih =>
      subst hlength
      by_cases hslash : slash ∈ bytes
      · obtain ⟨piece, rest, rfl, hpiece⟩ := List.eq_append_cons_of_mem hslash
        have hshorter : rest.length < (piece ++ slash :: rest).length := by
          rw [List.length_append, List.length_cons]
          omega
        have hrest := ih rest.length hshorter rest rfl
        have hpiece' : slash ∉ recode piece := mt (mem_of_mem_recode (by decide)) hpiece
        rw [recode_append_cons (by decide), pieces_append_slash, pieces_append_slash, hrest,
          pieces_of_no_slash hpiece, pieces_of_no_slash hpiece', List.map_append]
        rfl
      · rw [pieces_of_no_slash hslash, pieces_of_no_slash (mt (mem_of_mem_recode (by decide)) hslash)]
        rfl

theorem recode_eq_dot_iff {piece : Bytes} : recode piece = [dot] ↔ piece = [dot] := by
  rw [recode_eq_cons_iff (by decide)]
  simp

theorem recode_eq_dots_iff {piece : Bytes} : recode piece = [dot, dot] ↔ piece = [dot, dot] := by
  rw [recode_eq_cons_iff (by decide)]
  simp [recode_eq_dot_iff]

theorem ofPiece_recode (piece : Bytes) :
    Component.ofPiece (recode piece) = (Component.ofPiece piece).map Component.recode := by
  unfold Component.ofPiece
  simp only [recode_eq_nil_iff, recode_eq_dot_iff, recode_eq_dots_iff]
  split_ifs <;> rfl

theorem ofFirstPiece_recode (piece : Bytes) :
    Component.ofFirstPiece (recode piece) = (Component.ofFirstPiece piece).map Component.recode := by
  unfold Component.ofFirstPiece
  simp only [recode_eq_nil_iff, recode_eq_dot_iff]
  split_ifs
  · rfl
  · rfl
  · exact ofPiece_recode piece

/-- **The shown path has the components of the path**, with their names decoded. -/
theorem components_shown (p : Path) : p.shown.components = p.components.map Component.recode := by
  show components ⟨recode p.bytes⟩ = _
  by_cases hnil : p.bytes = []
  · rw [components, components, if_pos hnil, if_pos (recode_eq_nil_iff.mpr hnil)]
    rfl
  · obtain ⟨first, others, hpieces⟩ := List.exists_cons_of_ne_nil (pieces_ne_nil p.bytes)
    have hshown : pieces (recode p.bytes) = recode first :: others.map recode := by
      rw [pieces_recode, hpieces, List.map_cons]
    have hothers : ∀ pieces : List Bytes, (pieces.map recode).filterMap Component.ofPiece =
        (pieces.filterMap Component.ofPiece).map Component.recode := by
      intro pieces
      rw [List.filterMap_map, List.map_filterMap]
      exact List.filterMap_congr fun piece _ => ofPiece_recode piece
    rw [components_of_pieces (mt recode_eq_nil_iff.mp hnil) hshown, components_of_pieces hnil hpieces,
      ofFirstPiece_recode, hothers, List.map_append, Option.toList_map]

/-! ## Names -/

theorem name?_recode (c : Component) : c.recode.name? = c.name?.map recode := by
  cases c <;> rfl

theorem lastName?_map_recode (cs : List Component) :
    lastName? (cs.map Component.recode) = (lastName? cs).map recode := by
  unfold lastName?
  rw [List.getLast?_map]
  cases cs.getLast? with
  | none => rfl
  | some c => exact name?_recode c

/-- **The shown path has the file name of the path**, decoded. -/
theorem fileName_shown (p : Path) : p.shown.fileName = p.fileName.map recode := by
  rw [fileName_eq, fileName_eq, components_shown, lastName?_map_recode]

theorem parent_bind_fileName_shown (p : Path) :
    p.shown.parent.bind fileName = (p.parent.bind fileName).map recode := by
  rw [parent_bind_fileName, parent_bind_fileName, components_shown, ← List.map_dropLast,
    lastName?_map_recode]

/-- **A name is cut at the same dot** when it is decoded. -/
theorem Stem.recode {name stem : Bytes} (h : Stem name stem) :
    Stem (Utf8.recode name) (Utf8.recode stem) := by
  have hfree : ∀ {bytes : Bytes}, dot ∉ bytes → dot ∉ Utf8.recode bytes :=
    mt (mem_of_mem_recode (by decide))
  cases h with
  | cut hcut =>
      obtain ⟨rfl, hextension, hstem⟩ := hcut
      exact .cut ⟨recode_append_cons (by decide) _ _, hfree hextension, mt recode_eq_nil_iff.mp hstem⟩
  | whole huncut =>
      obtain hname | ⟨rest, rfl, hrest⟩ := huncut
      · exact .whole (Or.inl (hfree hname))
      · exact .whole (Or.inr ⟨Utf8.recode rest, recode_append_cons (by decide) [] rest, hfree hrest⟩)

theorem stem_shown (p : Path) : p.shown.stem = p.stem.map recode := by
  unfold stem
  rw [fileName_shown]
  cases p.fileName with
  | none => rfl
  | some name => exact congrArg some (stem_splitName name).recode.eq.symm

end Path

/-! ## Cases -/

namespace TestCase

theorem suite_shown (p : Path) : suite ⟨p.shown⟩ = suite ⟨p⟩ := by
  unfold suite
  rw [Path.parent_bind_fileName_shown]
  cases p.parent.bind Path.fileName with
  | none => rfl
  | some name => exact Utf8.decode_recode name

theorem displayName_shown (p : Path) : displayName ⟨p.shown⟩ = displayName ⟨p⟩ := by
  unfold displayName
  rw [Path.stem_shown]
  cases p.stem with
  | none => rfl
  | some stem => exact congrArg spaced (Utf8.decode_recode stem)

/-- **A case is called as its shown path says**, whatever the bytes of its path are. Its record has the
shown path, and the suite and the name of the record are those that this path gives. -/
theorem named_by_shown_path (p : Path) :
    suite ⟨.ofText p.text⟩ = suite ⟨p⟩ ∧
    displayName ⟨.ofText p.text⟩ = displayName ⟨p⟩ ∧
    ∀ color v, ∃ line record path,
      Emission.written ((Reporter.make color .json).finished ⟨p⟩ v) =
        Utf8.encode line ++ [newline] ∧
      Json.read line = some record ∧
      record.member? "path" = some (.text path) ∧
      record.member? "suite" = some (.text (suite ⟨.ofText path⟩)) ∧
      record.member? "name" = some (.text (displayName ⟨.ofText path⟩)) := by
  refine ⟨suite_shown p, displayName_shown p, fun color v => ?_⟩
  refine ⟨(Reporter.caseRecord ⟨p⟩ v).render, (Reporter.caseRecord ⟨p⟩ v).datum, p.text, rfl,
    Json.read_render _, ?_, ?_, ?_⟩
  · rfl
  · rw [show suite ⟨.ofText p.text⟩ = suite ⟨p⟩ from suite_shown p]
    rfl
  · rw [show displayName ⟨.ofText p.text⟩ = displayName ⟨p⟩ from displayName_shown p]
    rfl

/-- A sequence that breaks off in front of a slash or a dot is replaced, and the slash or the dot is
read as such. -/
example : suite ⟨⟨Utf8.encode "t/" ++ [0xE2, 0x82] ++ Utf8.encode "/a_b" ++ [0xF0] ++
      Utf8.encode ".lua"⟩⟩ = "\uFFFD" ∧
    displayName ⟨⟨Utf8.encode "t/" ++ [0xE2, 0x82] ++ Utf8.encode "/a_b" ++ [0xF0] ++
      Utf8.encode ".lua"⟩⟩ = "a b\uFFFD" := by
  decide +kernel

end TestCase

end Conformance
