import Mathlib
import Conformance.Path.Component

set_option autoImplicit false

/-! # Names, entries and the order of paths

A plain name is what the entry of a directory can be called: it is not empty, not `.` or `..`, and
holds no slash. Such an entry has exactly one component more than its directory, however the
directory was spelled (`Path.components_join`).

`Path.Apart p q` says that two paths part at some component, at which `p` has the smaller name. Two
entries of a directory lie apart as their names do (`Path.Apart.entries`), and what lies apart stays
apart below (`Path.Apart.join_left`, `Path.Apart.join_right`).

Paths are ordered component by component (`Path.Before`), which is not the order of their spellings:
`a/b` comes before `a.b`, since `a` is the smaller name. Paths that lie apart are in that order.
-/

namespace Conformance

namespace Path

/-! ## The order of names -/

theorem nameLE_trans {a b c : Bytes} (hab : nameLE a b = true) (hbc : nameLE b c = true) :
    nameLE a c = true := by
  induction a generalizing b c with
  | nil => rfl
  | cons x a ih =>
      match b, c with
      | [], _ => cases hab
      | _ :: _, [] => cases hbc
      | y :: b, z :: c =>
          simp only [nameLE, Bool.or_eq_true, Bool.and_eq_true, decide_eq_true_eq] at hab hbc ⊢
          rcases hab with hxy | ⟨rfl, hab⟩
          · rcases hbc with hyz | ⟨rfl, -⟩
            · exact Or.inl (UInt8.lt_trans hxy hyz)
            · exact Or.inl hxy
          · rcases hbc with hyz | ⟨rfl, hbc⟩
            · exact Or.inl hyz
            · exact Or.inr ⟨rfl, ih hab hbc⟩

theorem nameLE_total (a b : Bytes) : (nameLE a b || nameLE b a) = true := by
  induction a generalizing b with
  | nil => rfl
  | cons x a ih =>
      cases b with
      | nil => rfl
      | cons y b =>
          have hcases : x < y ∨ x = y ∨ y < x := by
            rcases UInt8.lt_or_le x y with h | h
            · exact Or.inl h
            · rcases UInt8.lt_or_eq_of_le h with h | h
              · exact Or.inr (Or.inr h)
              · exact Or.inr (Or.inl h.symm)
          rcases hcases with h | rfl | h
          · simp [nameLE, h]
          · simpa [nameLE] using ih b
          · simp [nameLE, h]

theorem nameLE_antisymm {a b : Bytes} (hab : nameLE a b = true) (hba : nameLE b a = true) :
    a = b := by
  induction a generalizing b with
  | nil =>
      cases b with
      | nil => rfl
      | cons y b => cases hba
  | cons x a ih =>
      cases b with
      | nil => cases hab
      | cons y b =>
          simp only [nameLE, Bool.or_eq_true, Bool.and_eq_true, decide_eq_true_eq] at hab hba
          rcases hab with hxy | ⟨rfl, hab⟩
          · rcases hba with hyx | ⟨rfl, -⟩
            · exact absurd hyx (UInt8.lt_asymm hxy)
            · exact absurd hxy (UInt8.lt_irrefl _)
          · rcases hba with hxx | ⟨-, hba⟩
            · exact absurd hxx (UInt8.lt_irrefl _)
            · rw [ih hab hba]

def NameLT (a b : Bytes) : Prop := nameLE a b = true ∧ a ≠ b

/-- **Distinct names are sorted strictly.** -/
theorem pairwise_nameLT_mergeSort {names : List Bytes} (h : names.Nodup) :
    (names.mergeSort nameLE).Pairwise NameLT := by
  have hsorted : (names.mergeSort nameLE).Pairwise fun a b => nameLE a b = true :=
    List.pairwise_mergeSort (fun a b c => @nameLE_trans a b c) nameLE_total names
  have hdistinct : (names.mergeSort nameLE).Pairwise (· ≠ ·) :=
    (List.mergeSort_perm names nameLE).symm.nodup h
  exact hsorted.and hdistinct

/-- **Sorting forgets the order in which names were given.** -/
theorem mergeSort_eq_of_perm {names names' : List Bytes} (h : names.Perm names') :
    names.mergeSort nameLE = names'.mergeSort nameLE := by
  have hsorted : ∀ ns : List Bytes,
      (ns.mergeSort nameLE).Pairwise fun a b => nameLE a b = true :=
    List.pairwise_mergeSort (fun a b c => @nameLE_trans a b c) nameLE_total
  have hperm : (names.mergeSort nameLE).Perm (names'.mergeSort nameLE) :=
    (List.mergeSort_perm names nameLE).trans (h.trans (List.mergeSort_perm names' nameLE).symm)
  exact hperm.eq_of_pairwise (fun _ _ _ _ => nameLE_antisymm) (hsorted names) (hsorted names')

/-! ## Entries of a directory -/

theorem isName_iff {piece : Bytes} :
    isName piece = true ↔ piece ≠ [] ∧ piece ≠ [dot] ∧ piece ≠ [dot, dot] := by
  simp [isName, and_assoc]

theorem pieces_ne_nil (bytes : Bytes) : pieces bytes ≠ [] := by
  cases bytes with
  | nil => simp [pieces]
  | cons b rest =>
      rw [pieces]
      split
      · simp
      · split <;> simp

theorem pieces_append_slash (xs ys : Bytes) :
    pieces (xs ++ slash :: ys) = pieces xs ++ pieces ys := by
  induction xs with
  | nil => simp [pieces]
  | cons b xs ih =>
      by_cases hb : b = slash
      · simp [pieces, hb, ih]
      · obtain ⟨piece, others, hx⟩ := List.exists_cons_of_ne_nil (pieces_ne_nil xs)
        simp [pieces, hb, ih, hx]

theorem pieces_of_no_slash {name : Bytes} (h : slash ∉ name) : pieces name = [name] := by
  induction name with
  | nil => rfl
  | cons b name ih =>
      obtain ⟨hb, hrest⟩ := not_or.mp (mt List.mem_cons.mpr h)
      simp [pieces, Ne.symm hb, ih hrest]

namespace PlainName

variable {name : Bytes}

theorem ne_nil (h : PlainName name) : name ≠ [] := (isName_iff.mp h.isName).1

theorem ofPiece (h : PlainName name) : Component.ofPiece name = some (.name name) := by
  obtain ⟨hnil, hdot, hup⟩ := isName_iff.mp h.isName
  rw [Component.ofPiece, if_neg (by simp [hnil, hdot]), if_neg hup]

theorem ofFirstPiece (h : PlainName name) : Component.ofFirstPiece name = some (.name name) := by
  obtain ⟨hnil, hdot, -⟩ := isName_iff.mp h.isName
  rw [Component.ofFirstPiece, if_neg hnil, if_neg hdot, h.ofPiece]

theorem head?_ne (h : PlainName name) : name.head? ≠ some slash := by
  intro hhead
  exact h.no_slash (List.mem_of_head? hhead)

end PlainName

/-- The components of a path that is given by its first piece and the others. -/
theorem components_of_pieces {bytes first : Bytes} {others : List Bytes} (hne : bytes ≠ [])
    (h : pieces bytes = first :: others) :
    components ⟨bytes⟩ =
      (Component.ofFirstPiece first).toList ++ others.filterMap Component.ofPiece := by
  simp [components, hne, h]

/-- **An entry has one component more than its directory**, its name. -/
theorem components_join (dir : Path) {name : Bytes} (h : PlainName name) :
    (dir.join name).components = dir.components ++ [.name name] := by
  obtain ⟨bytes⟩ := dir
  have hname := pieces_of_no_slash h.no_slash
  have hpiece : [name].filterMap Component.ofPiece = [Component.name name] := by
    simp [h.ofPiece]
  -- A slash is put in between unless there is one, or nothing to put it behind.
  by_cases hnil : bytes = []
  · subst hnil
    have hjoin : join ⟨[]⟩ name = ⟨name⟩ := by simp [join, h.head?_ne]
    rw [hjoin, components_of_pieces h.ne_nil hname, h.ofFirstPiece]
    rfl
  · obtain ⟨first, others, hp⟩ := List.exists_cons_of_ne_nil (pieces_ne_nil bytes)
    rw [components_of_pieces hnil hp]
    by_cases hlast : bytes.getLast? = some slash
    · obtain ⟨front, rfl⟩ : ∃ front, bytes = front ++ [slash] :=
        List.getLast?_eq_some_iff.mp hlast
      have hjoin : join ⟨front ++ [slash]⟩ name = ⟨front ++ slash :: name⟩ := by
        simp [join, h.head?_ne]
      obtain ⟨first', others', hf⟩ := List.exists_cons_of_ne_nil (pieces_ne_nil front)
      rw [pieces_append_slash, hf, List.cons_append] at hp
      obtain ⟨rfl, rfl⟩ := List.cons.inj hp
      have hpieces : pieces (front ++ slash :: name) = first' :: (others' ++ [name]) := by
        rw [pieces_append_slash, hf, hname]
        rfl
      rw [hjoin, components_of_pieces (by simp) hpieces, List.filterMap_append, hpiece,
        List.filterMap_append]
      simp [pieces, Component.ofPiece]
    · have hjoin : join ⟨bytes⟩ name = ⟨bytes ++ slash :: name⟩ := by
        simp [join, h.head?_ne, hnil, hlast]
      have hpieces : pieces (bytes ++ slash :: name) = first :: (others ++ [name]) := by
        rw [pieces_append_slash, hp, hname]
        rfl
      rw [hjoin, components_of_pieces (by simp) hpieces, List.filterMap_append, hpiece,
        List.append_assoc]

/-! ## Paths that lie apart -/

/-- **Two paths part at some component, where the first has the smaller name.** -/
def Apart (p q : Path) : Prop :=
  ∃ shared a b as bs, p.components = shared ++ .name a :: as ∧
    q.components = shared ++ .name b :: bs ∧ NameLT a b

namespace Apart

variable {p q : Path} {name : Bytes}

theorem ne (h : Apart p q) : p ≠ q := by
  rintro rfl
  obtain ⟨shared, a, b, as, bs, ha, hb, -, hne⟩ := h
  rw [ha, List.append_cancel_left_eq] at hb
  cases hb
  exact hne rfl

theorem join_left (hn : PlainName name) (h : Apart p q) : Apart (p.join name) q := by
  obtain ⟨shared, a, b, as, bs, ha, hb, hlt⟩ := h
  refine ⟨shared, a, b, as ++ [.name name], bs, ?_, hb, hlt⟩
  rw [components_join p hn, ha, List.append_assoc]
  rfl

theorem join_right (hn : PlainName name) (h : Apart p q) : Apart p (q.join name) := by
  obtain ⟨shared, a, b, as, bs, ha, hb, hlt⟩ := h
  refine ⟨shared, a, b, as, bs ++ [.name name], ha, ?_, hlt⟩
  rw [components_join q hn, hb, List.append_assoc]
  rfl

theorem entries (dir : Path) {a b : Bytes} (ha : PlainName a) (hb : PlainName b)
    (h : NameLT a b) : Apart (dir.join a) (dir.join b) :=
  ⟨dir.components, a, b, [], [], components_join dir ha, components_join dir hb, h⟩

end Apart

/-! ## The order of paths -/

/-- The kinds of components in their order: the root, a leading dot, a step up, a name. -/
def Component.rank : Component → Nat
  | .root => 0
  | .current => 1
  | .up => 2
  | .name _ => 3

/-- **The order of components**: by their kinds, and names by their bytes. -/
inductive Component.LT : Component → Component → Prop
  | kind {a b : Component} : a.rank < b.rank → LT a b
  | name {a b : Bytes} : NameLT a b → LT (.name a) (.name b)

/-- Any two components are equal or in order, one way only. -/
instance : IsStrictTotalOrder Component Component.LT where
  irrefl a h := by
    cases h with
    | kind h => exact Nat.lt_irrefl _ h
    | name h => exact h.2 rfl
  trans a b c hab hbc := by
    cases hab with
    | kind hab =>
        cases hbc with
        | kind hbc => exact .kind (Nat.lt_trans hab hbc)
        | name _ => exact .kind hab
    | name hab =>
        cases hbc with
        | kind hbc => exact .kind hbc
        | name hbc =>
            refine .name ⟨nameLE_trans hab.1 hbc.1, ?_⟩
            rintro rfl
            exact hab.2 (nameLE_antisymm hab.1 hbc.1)
  trichotomous a b hab hba := by
    have hrank : a.rank = b.rank :=
      Nat.le_antisymm (Nat.le_of_not_lt fun h => hba (.kind h))
        (Nat.le_of_not_lt fun h => hab (.kind h))
    match a, b with
    | .root, .root | .current, .current | .up, .up => rfl
    | .name x, .name y =>
        by_contra hne
        have hxy : x ≠ y := fun h => hne (h ▸ rfl)
        rcases Bool.or_eq_true .. ▸ nameLE_total x y with h | h
        · exact hab (.name ⟨h, hxy⟩)
        · exact hba (.name ⟨h, hxy.symm⟩)

/-- **The order of paths**: component by component, a proper beginning first. -/
def Before (p q : Path) : Prop := List.Lex Component.LT p.components q.components

theorem before_irrefl (p : Path) : ¬ p.Before p := irrefl_of (List.Lex Component.LT) _

theorem Apart.before {p q : Path} (h : p.Apart q) : p.Before q := by
  obtain ⟨shared, a, b, as, bs, hp, hq, hlt⟩ := h
  rw [Before, hp, hq]
  exact List.Lex.append_left _ (.rel (.name hlt)) shared

end Path

end Conformance
