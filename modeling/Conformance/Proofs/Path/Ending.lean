import Conformance.Proofs.Path.Order

set_option autoImplicit false

/-! # The end of a path

Names, parents and extensions are read from the end of the bytes of a path, past slashes and dots that
mean nothing; components are read from the front. Both readings agree: what is passed over at the end
stands for no component (`Path.components_trimEnd`), and what is cut off there is the last component of
the path, with the components of its parent before it (`Path.parent_cases`). So the file name is the
last component, if that is a name (`Path.fileName_eq`).

A file name is cut at its last dot (`Path.Cut`), unless it has no dot or its only dot is in front
(`Path.Uncut`).
-/

namespace Conformance

namespace Path

def Component.name? : Component → Option Bytes
  | .name bytes => some bytes
  | _ => none

def lastName? (cs : List Component) : Option Bytes := cs.getLast?.bind Component.name?

@[simp] theorem lastName?_append_singleton (cs : List Component) (c : Component) :
    lastName? (cs ++ [c]) = c.name? := by
  simp [lastName?]

/-! ## Bytes that stand for no component -/

/-- Behind a slash every piece stands for a component of its own, or for none. -/
theorem components_append_slash (front rest : Bytes) :
    components ⟨front ++ slash :: rest⟩ =
      components ⟨front ++ [slash]⟩ ++ (pieces rest).filterMap Component.ofPiece := by
  obtain ⟨first, others, hfront⟩ := List.exists_cons_of_ne_nil (pieces_ne_nil front)
  have hall : pieces (front ++ slash :: rest) = first :: (others ++ pieces rest) := by
    rw [pieces_append_slash, hfront, List.cons_append]
  have hslash : pieces (front ++ [slash]) = first :: (others ++ [[]]) := by
    rw [pieces_append_slash, hfront, List.cons_append]
    rfl
  have hempty : [[]].filterMap Component.ofPiece = [] := rfl
  rw [components_of_pieces (by simp) hall, components_of_pieces (by simp) hslash,
    List.filterMap_append, List.filterMap_append, hempty, List.append_nil, List.append_assoc]

/-- A slash at the end means nothing, unless it is all there is. -/
theorem components_append_singleton_slash {front : Bytes} (h : front ≠ []) :
    components ⟨front ++ [slash]⟩ = components ⟨front⟩ := by
  obtain ⟨first, others, hfront⟩ := List.exists_cons_of_ne_nil (pieces_ne_nil front)
  have hslash : pieces (front ++ [slash]) = first :: (others ++ [[]]) := by
    rw [pieces_append_slash, hfront, List.cons_append]
    rfl
  have hempty : [[]].filterMap Component.ofPiece = [] := rfl
  rw [components_of_pieces (by simp) hslash, components_of_pieces h hfront, List.filterMap_append,
    hempty, List.append_nil]

/-- **What is passed over at the end of a path stands for no component**, but that a path of which
nothing is left has a root if it is not empty. -/
theorem components_trimEnd (reversed : Bytes) :
    components ⟨reversed.reverse⟩ =
      if trimEnd reversed = [] then (if reversed = [] then [] else [.root])
      else components ⟨(trimEnd reversed).reverse⟩ := by
  induction reversed with
  | nil => rfl
  | cons b rest ih =>
      rw [List.reverse_cons, trimEnd]
      by_cases hslash : b = slash
      · subst hslash
        rw [if_pos rfl]
        by_cases hrest : rest = []
        · subst hrest
          rfl
        · rw [components_append_singleton_slash (by simpa using hrest), ih, if_neg hrest]
          simp
      · rw [if_neg hslash]
        by_cases hdot : b = dot ∧ rest.head? = some slash
        · obtain ⟨rfl, hhead⟩ := hdot
          obtain ⟨front, rfl⟩ : ∃ front, rest = slash :: front := by
            cases rest with
            | nil => cases hhead
            | cons c front => exact ⟨front, by rw [Option.some.inj hhead]⟩
          -- a dot behind a slash is a piece that stands for nothing
          have hbefore : components ⟨(slash :: front).reverse ++ [dot]⟩ =
              components ⟨(slash :: front).reverse⟩ := by
            have hpiece : (pieces [dot]).filterMap Component.ofPiece = [] := rfl
            rw [List.reverse_cons, List.append_assoc, List.singleton_append,
              components_append_slash, hpiece, List.append_nil]
          have hpassed : dot = dot ∧ (slash :: front).head? = some slash := ⟨rfl, hhead⟩
          rw [if_pos hpassed, hbefore, ih]
          simp
        · rw [if_neg hdot]
          simp

/-- What is left begins with no slash, and with no dot that a slash follows. -/
theorem trimEnd_cases (reversed : Bytes) :
    trimEnd reversed = [] ∨ ∃ b rest, trimEnd reversed = b :: rest ∧ b ≠ slash ∧
      ¬ (b = dot ∧ rest.head? = some slash) := by
  induction reversed with
  | nil => exact Or.inl rfl
  | cons b rest ih =>
      rw [trimEnd]
      by_cases hslash : b = slash
      · rwa [if_pos hslash]
      · rw [if_neg hslash]
        by_cases hdot : b = dot ∧ rest.head? = some slash
        · rwa [if_pos hdot]
        · rw [if_neg hdot]
          exact Or.inr ⟨b, rest, rfl, hslash, hdot⟩

/-! ## The last component -/

/-- A piece behind a slash that is left when the end is passed over stands for a component, which is a
name if the piece is. -/
theorem exists_ofPiece {piece : Bytes} (hnil : piece ≠ []) (hdot : piece ≠ [dot]) :
    ∃ c, Component.ofPiece piece = some c ∧
      c.name? = if isName piece then some piece else none := by
  unfold Component.ofPiece isName
  by_cases hup : piece = [dot, dot]
  · subst hup
    exact ⟨.up, rfl, rfl⟩
  · refine ⟨.name piece, ?_, ?_⟩
    · rw [if_neg (by simp [hnil, hdot]), if_neg hup]
    · simp [Component.name?, hnil, hdot, hup]

/-- The first piece of a path stands for a component, which is a name if the piece is. -/
theorem exists_ofFirstPiece {piece : Bytes} (hnil : piece ≠ []) :
    ∃ c, Component.ofFirstPiece piece = some c ∧
      c.name? = if isName piece then some piece else none := by
  unfold Component.ofFirstPiece
  by_cases hdot : piece = [dot]
  · subst hdot
    exact ⟨.current, rfl, rfl⟩
  · obtain ⟨c, hc, hname⟩ := exists_ofPiece hnil hdot
    exact ⟨c, by rw [if_neg hnil, if_neg hdot, hc], hname⟩

theorem slash_not_mem_lastPiece (reversed : Bytes) : slash ∉ lastPiece reversed := by
  unfold lastPiece
  rw [List.mem_reverse]
  intro hmem
  simpa using List.mem_takeWhile_imp hmem

/-- **The last piece of a path is its last component**, and what stands before it has the others. -/
theorem components_lastPiece {reversed : Bytes} (h : trimEnd reversed ≠ []) :
    lastPiece reversed ≠ [] ∧ ∃ c,
      components ⟨reversed.reverse⟩ = components ⟨(beforeLast reversed).reverse⟩ ++ [c] ∧
      c.name? = if isName (lastPiece reversed) then some (lastPiece reversed) else none := by
  obtain hnone | ⟨b, rest, htrim, hslash, hdot⟩ := trimEnd_cases reversed
  · exact absurd hnone h
  have hplain := slash_not_mem_lastPiece reversed
  rw [components_trimEnd, if_neg h]
  unfold lastPiece at hplain ⊢
  unfold beforeLast
  generalize trimEnd reversed = trimmed at htrim hplain
  have hsplit : (trimmed.dropWhile (· ≠ slash)).reverse ++ (trimmed.takeWhile (· ≠ slash)).reverse =
      trimmed.reverse := by
    rw [← List.reverse_append, List.takeWhile_append_dropWhile]
  have hnil : (trimmed.takeWhile (· ≠ slash)).reverse ≠ [] := by
    simp [htrim, hslash]
  refine ⟨hnil, ?_⟩
  rw [← hsplit]
  cases hbefore : trimmed.dropWhile (· ≠ slash) with
  | nil =>
      -- there is no other piece
      obtain ⟨c, hc, hname⟩ := exists_ofFirstPiece hnil
      refine ⟨c, ?_, hname⟩
      rw [List.reverse_nil, List.nil_append,
        components_of_pieces hnil (pieces_of_no_slash hplain), hc]
      rfl
  | cons d before =>
      have hd : d = slash := by
        have hhead := List.head?_dropWhile_not (· ≠ slash) trimmed
        rw [hbefore] at hhead
        simpa using hhead
      subst hd
      have hpiece : (trimmed.takeWhile (· ≠ slash)).reverse ≠ [dot] := by
        intro hdots
        have htake : trimmed.takeWhile (· ≠ slash) = [dot] := by
          rw [← List.reverse_reverse (trimmed.takeWhile _), hdots]
          rfl
        have htrimmed : dot :: slash :: before = b :: rest := by
          rw [← htrim, ← List.takeWhile_append_dropWhile (p := (· ≠ slash)) (l := trimmed), htake,
            hbefore]
          rfl
        obtain ⟨rfl, rfl⟩ := List.cons.inj htrimmed
        exact hdot ⟨rfl, rfl⟩
      obtain ⟨c, hc, hname⟩ := exists_ofPiece hnil hpiece
      refine ⟨c, ?_, hname⟩
      rw [List.reverse_cons, List.append_assoc, List.singleton_append, components_append_slash,
        pieces_of_no_slash hplain, List.filterMap_cons, hc]
      rfl

/-- **A path is its parent and one more component**, or it is empty or a root and has no parent. -/
theorem parent_cases (p : Path) :
    (p.parent = none ∧ p.fileName = none ∧ (p.components = [] ∨ p.components = [.root])) ∨
    ∃ q c, p.parent = some q ∧ p.components = q.components ++ [c] ∧ p.fileName = c.name? := by
  have hbytes : p.components = components ⟨p.bytes.reverse.reverse⟩ := by rw [List.reverse_reverse]
  unfold parent fileName
  rw [hbytes]
  generalize p.bytes.reverse = reversed
  by_cases htrim : trimEnd reversed = []
  · have hlast : lastPiece reversed = [] := by
      unfold lastPiece
      rw [htrim]
      rfl
    refine Or.inl ⟨if_pos hlast, by rw [hlast]; rfl, ?_⟩
    rw [components_trimEnd, if_pos htrim]
    by_cases hnil : reversed = []
    · exact Or.inl (if_pos hnil)
    · exact Or.inr (if_neg hnil)
  · obtain ⟨hlast, c, hcomponents, hname⟩ := components_lastPiece htrim
    exact Or.inr ⟨_, c, if_neg hlast, hcomponents, hname.symm⟩

/-- **The file name is the last component**, if that is a name. -/
theorem fileName_eq (p : Path) : p.fileName = lastName? p.components := by
  obtain ⟨-, hnone, hcomponents | hcomponents⟩ | ⟨q, c, -, hcomponents, hname⟩ := p.parent_cases
  · rw [hnone, hcomponents]
    rfl
  · rw [hnone, hcomponents]
    rfl
  · rw [hname, hcomponents, lastName?_append_singleton]

/-- The file name of the parent is the last component but one, if that is a name. -/
theorem parent_bind_fileName (p : Path) :
    p.parent.bind fileName = lastName? p.components.dropLast := by
  obtain ⟨hnone, -, hcomponents | hcomponents⟩ | ⟨q, c, hparent, hcomponents, -⟩ := p.parent_cases
  · rw [hnone, hcomponents]
    rfl
  · rw [hnone, hcomponents]
    rfl
  · rw [hparent, hcomponents, List.dropLast_concat, Option.bind_some, fileName_eq]

/-! ## Stem and extension -/

/-- **A name that is cut at its last dot** into a stem that is not empty and an extension. -/
structure Cut (name stem extension : Bytes) : Prop where
  eq : name = stem ++ dot :: extension
  no_dot : dot ∉ extension
  stem_ne_nil : stem ≠ []

/-- A name without a dot, or with its only dot in front. -/
def Uncut (name : Bytes) : Prop := dot ∉ name ∨ ∃ rest, name = dot :: rest ∧ dot ∉ rest

/-- **The stem of a name**: what stands before its last dot, or the whole name. -/
inductive Stem (name : Bytes) : Bytes → Prop
  | cut {stem extension : Bytes} : Cut name stem extension → Stem name stem
  | whole : Uncut name → Stem name name

theorem exists_last_of_mem {b : UInt8} {bytes : Bytes} (h : b ∈ bytes) :
    ∃ front last, bytes = front ++ b :: last ∧ b ∉ last := by
  obtain ⟨last, front, hreversed, hlast⟩ :=
    List.eq_append_cons_of_mem (List.mem_reverse.mpr h)
  refine ⟨front.reverse, last.reverse, ?_, by simpa using hlast⟩
  rw [← List.reverse_reverse bytes, hreversed]
  simp

theorem cut_or_uncut (name : Bytes) : (∃ stem extension, Cut name stem extension) ∨ Uncut name := by
  by_cases hdot : dot ∈ name
  · obtain ⟨stem, extension, hname, hfree⟩ := exists_last_of_mem hdot
    by_cases hstem : stem = []
    · subst hstem
      exact Or.inr (Or.inr ⟨extension, hname, hfree⟩)
    · exact Or.inl ⟨stem, extension, hname, hfree, hstem⟩
  · exact Or.inr (Or.inl hdot)

/-- What `splitName` looks for from the end of a name, if there is a last dot. -/
theorem dropWhile_reverse (stem : Bytes) {extension : Bytes} (h : dot ∉ extension) :
    (stem ++ dot :: extension).reverse.dropWhile (· ≠ dot) = dot :: stem.reverse ∧
      (stem ++ dot :: extension).reverse.takeWhile (· ≠ dot) = extension.reverse := by
  have hfree : ∀ b ∈ extension.reverse, (b ≠ dot : Bool) = true := by
    intro b hb
    rw [List.mem_reverse] at hb
    have hne : b ≠ dot := by
      rintro rfl
      exact h hb
    simpa using hne
  rw [List.reverse_append, List.reverse_cons, List.append_assoc, List.singleton_append]
  constructor
  · rw [List.dropWhile_append_of_pos hfree]
    simp
  · rw [List.takeWhile_append_of_pos hfree]
    simp

theorem Cut.splitName_eq {name stem extension : Bytes} (h : Cut name stem extension) :
    splitName name = (stem, some extension) := by
  obtain ⟨rfl, hfree, hstem⟩ := h
  obtain ⟨hdrop, htake⟩ := dropWhile_reverse stem hfree
  unfold splitName
  simp only [hdrop, htake]
  split
  · next heq => cases heq
  · next heq => simp [hstem] at heq
  · next heq =>
    obtain ⟨-, rfl⟩ := List.cons.inj heq
    simp

theorem Uncut.splitName_eq {name : Bytes} (h : Uncut name) : splitName name = (name, none) := by
  unfold splitName
  obtain hfree | ⟨rest, rfl, hfree⟩ := h
  · have hdrop : name.reverse.dropWhile (· ≠ dot) = [] := by
      rw [List.dropWhile_eq_nil_iff]
      intro b hb
      have hne : b ≠ dot := by
        rintro rfl
        exact hfree (List.mem_reverse.mp hb)
      simpa using hne
    simp only [hdrop]
  · obtain ⟨hdrop, -⟩ := dropWhile_reverse [] hfree
    simp only [List.nil_append] at hdrop
    simp only [hdrop, List.reverse_nil]

theorem stem_splitName (name : Bytes) : Stem name (splitName name).1 := by
  obtain ⟨stem, extension, hcut⟩ | huncut := cut_or_uncut name
  · rw [hcut.splitName_eq]
    exact .cut hcut
  · rw [huncut.splitName_eq]
    exact .whole huncut

theorem Stem.eq {name stem : Bytes} (h : Stem name stem) : stem = (splitName name).1 := by
  cases h with
  | cut hcut => rw [hcut.splitName_eq]
  | whole huncut => rw [huncut.splitName_eq]

/-- `splitName` finds an extension if and only if the name is cut before it. -/
theorem splitName_eq_some_iff {name extension : Bytes} :
    (splitName name).2 = some extension ↔ ∃ stem, Cut name stem extension := by
  constructor
  · intro h
    obtain ⟨stem, extension', hcut⟩ | huncut := cut_or_uncut name
    · rw [hcut.splitName_eq] at h
      cases h
      exact ⟨stem, hcut⟩
    · rw [huncut.splitName_eq] at h
      cases h
  · rintro ⟨stem, hcut⟩
    rw [hcut.splitName_eq]

end Path

end Conformance
