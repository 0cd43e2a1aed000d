import Mathlib
import Conformance.Host.FileTree
import Conformance.Proofs.Path.Order

set_option autoImplicit false

/-! # Where paths lead

`FileTree.Leads t links id pieces links' id'` says that in the tree `t` the pieces lead from `id` to
`id'`, and that of `links` links that may be followed on the way `links'` are left. What `find` finds is
what a path leads to in this sense (`leads_of_find`). A way has no choice (`Leads.unique`), and the way
of an entry goes through its directory (`Leads.split`, `piecesOf_join`): it comes to the directory with
as many links left as the directory's own path does.
-/

namespace Conformance

namespace FileTree

/-! ## Pieces of a path -/

/-- The nonempty pieces are those between the slashes that are not empty. -/
theorem piecesOf_eq (bytes : Bytes) : piecesOf bytes = (Path.pieces bytes).filter (· ≠ []) := by
  -- The first piece is kept apart, for it is not complete.
  have key : ∀ bytes : Bytes, ∃ piece others, Path.pieces bytes = piece :: others ∧
      bytes.foldr (fun b (state : Bytes × List Bytes) =>
        if b = slash then ([], if state.1 = [] then state.2 else state.1 :: state.2)
        else (b :: state.1, state.2)) ([], []) = (piece, others.filter (· ≠ [])) := by
    intro bytes
    induction bytes with
    | nil => exact ⟨[], [], rfl, rfl⟩
    | cons b bytes ih =>
        obtain ⟨piece, others, hpieces, hfold⟩ := ih
        by_cases hb : b = slash
        · refine ⟨[], piece :: others, ?_, ?_⟩
          · have hb' : b = Path.slash := hb
            rw [Path.pieces, if_pos hb', hpieces]
          · rw [List.foldr_cons, hfold, if_pos hb, List.filter_cons]
            by_cases hpiece : piece = []
            · simp [hpiece]
            · simp [hpiece]
        · refine ⟨b :: piece, others, ?_, ?_⟩
          · have hb' : ¬ b = Path.slash := hb
            rw [Path.pieces, if_neg hb', hpieces]
          · rw [List.foldr_cons, hfold, if_neg hb]
  obtain ⟨piece, others, hpieces, hfold⟩ := key bytes
  have hdef : piecesOf bytes =
      (let state := bytes.foldr (fun b (state : Bytes × List Bytes) =>
        if b = slash then ([], if state.1 = [] then state.2 else state.1 :: state.2)
        else (b :: state.1, state.2)) ([], [])
      if state.1 = [] then state.2 else state.1 :: state.2) := rfl
  rw [hdef, hfold, hpieces, List.filter_cons]
  by_cases hpiece : piece = []
  · simp [hpiece]
  · simp [hpiece]

theorem piecesOf_append_slash (xs ys : Bytes) :
    piecesOf (xs ++ slash :: ys) = piecesOf xs ++ piecesOf ys := by
  have hslash : slash = Path.slash := rfl
  rw [piecesOf_eq, piecesOf_eq, piecesOf_eq, hslash, Path.pieces_append_slash, List.filter_append]

theorem piecesOf_plain {name : Bytes} (h : Path.PlainName name) : piecesOf name = [name] := by
  rw [piecesOf_eq, Path.pieces_of_no_slash h.no_slash]
  simp [h.ne_nil]

/-- **The path of an entry has one piece more than that of its directory.** -/
theorem piecesOf_join {dir : Path} (hdir : dir.bytes ≠ []) {name : Bytes} (h : Path.PlainName name) :
    piecesOf (dir.join name).bytes = piecesOf dir.bytes ++ [name] := by
  rw [Path.join, if_neg h.head?_ne]
  by_cases hslash : dir.bytes.getLast? = some Path.slash
  · obtain ⟨front, hfront⟩ := List.getLast?_eq_some_iff.mp hslash
    have hjoined : dir.bytes ++ name = front ++ slash :: name := by
      rw [hfront, List.append_assoc]
      rfl
    have hempty : piecesOf dir.bytes = piecesOf front := by
      have hend : dir.bytes = front ++ slash :: [] := hfront
      rw [hend, piecesOf_append_slash]
      exact List.append_nil _
    rw [if_pos (Or.inr hslash)]
    show piecesOf (dir.bytes ++ name) = _
    rw [hjoined, piecesOf_append_slash, piecesOf_plain h, hempty]
  · rw [if_neg (not_or.mpr ⟨hdir, hslash⟩)]
    show piecesOf (dir.bytes ++ slash :: name) = _
    rw [piecesOf_append_slash, piecesOf_plain h]

theorem startOf_join (cwd : FileId) {dir : Path} (hdir : dir.bytes ≠ []) {name : Bytes}
    (h : Path.PlainName name) : startOf cwd (dir.join name).bytes = startOf cwd dir.bytes := by
  obtain ⟨b, rest, hb⟩ := List.exists_cons_of_ne_nil hdir
  have hhead : (dir.join name).bytes.head? = dir.bytes.head? := by
    rw [Path.join, if_neg h.head?_ne]
    split <;> rw [hb] <;> rfl
  rw [startOf, startOf, hhead]

/-! ## Ways -/

/-- **The pieces lead from `id` to `id'`**, with `links` links to follow at most and `links'` of them
left. -/
inductive Leads (t : FileTree) : ℕ → FileId → List Bytes → ℕ → FileId → Prop
  | here (links : ℕ) (id : FileId) : Leads t links id [] links id
  | current {links links' mode : ℕ} {id id' parent : FileId} {names : List (Bytes × FileId)}
      {rest : List Bytes} : t.entryAt id = some (.directory mode parent names) →
      Leads t links id rest links' id' → Leads t links id ([0x2E] :: rest) links' id'
  | up {links links' mode : ℕ} {id id' parent : FileId} {names : List (Bytes × FileId)}
      {rest : List Bytes} : t.entryAt id = some (.directory mode parent names) →
      Leads t links parent rest links' id' → Leads t links id ([0x2E, 0x2E] :: rest) links' id'
  | child {links links' mode : ℕ} {id id' parent child : FileId} {names : List (Bytes × FileId)}
      {piece : Bytes} {rest : List Bytes} : t.entryAt id = some (.directory mode parent names) →
      piece ≠ [0x2E] → piece ≠ [0x2E, 0x2E] → names.lookup piece = some child →
      (∀ target, t.entryAt child ≠ some (.link target)) →
      Leads t links child rest links' id' → Leads t links id (piece :: rest) links' id'
  | link {links links' mode : ℕ} {id id' parent child : FileId} {names : List (Bytes × FileId)}
      {piece target : Bytes} {rest : List Bytes} :
      t.entryAt id = some (.directory mode parent names) →
      piece ≠ [0x2E] → piece ≠ [0x2E, 0x2E] → names.lookup piece = some child →
      t.entryAt child = some (.link target) →
      Leads t links (startOf id target) (piecesOf target ++ rest) links' id' →
      Leads t (links + 1) id (piece :: rest) links' id'

variable {t : FileTree}

/-- **What is found has been led to.** -/
theorem leads_of_follow {links : ℕ} {id id' : FileId} {origin origin' : Option (FileId × Bytes)}
    {asDirectory asDirectory' : Bool} {pieces : List Bytes}
    (h : t.follow true links id origin asDirectory pieces =
      .ok ⟨.found origin' id', asDirectory'⟩) :
    ∃ links', Leads t links id pieces links' id' := by
  fun_induction FileTree.follow t true links id origin asDirectory pieces
  case case1 =>
    cases h
    exact ⟨_, .here _ _⟩
  case case3 hid _ ih =>
    obtain ⟨links', hleads⟩ := ih h
    exact ⟨links', .current hid hleads⟩
  case case4 hid _ _ ih =>
    obtain ⟨links', hleads⟩ := ih h
    exact ⟨links', .up hid hleads⟩
  case case8 hlast =>
    -- The last link is always followed here.
    exact absurd rfl hlast.2.1
  case case10 hid _ hcurrent hup _ _ hlookup _ htarget _ _ ih =>
    obtain ⟨links', hleads⟩ := ih h
    exact ⟨links', .link hid hcurrent hup hlookup htarget hleads⟩
  case case11 hid _ hcurrent hup _ _ hlookup hnot ih =>
    obtain ⟨links', hleads⟩ := ih h
    exact ⟨links', .child hid hcurrent hup hlookup hnot hleads⟩
  all_goals cases h

/-- **What a path leads to**, if something is found there. -/
theorem leads_of_find {cwd id : FileId} {path : Bytes} {entry : Entry}
    (h : t.find cwd path = .ok (id, entry)) :
    path ≠ [] ∧ t.entryAt id = some entry ∧
      ∃ links, Leads t linkLimit (startOf cwd path) (piecesOf path) links id := by
  rw [find, findFrom] at h
  split at h
  · next origin id' asDirectory hlocate =>
      rw [locate] at hlocate
      split at hlocate
      · cases hlocate
      · next hne =>
          split at hlocate
          · cases hlocate
          · obtain ⟨links, hleads⟩ := leads_of_follow hlocate
            split at h
            · next entry' hentry =>
                split at h
                · cases h
                · cases h
                  exact ⟨hne, hentry, links, hleads⟩
            · cases h
  · cases h
  · cases h

namespace Leads

variable {links links' links₁ links₂ : ℕ} {id id' id₁ id₂ : FileId} {pieces : List Bytes}

theorem links_le (h : Leads t links id pieces links' id') : links' ≤ links := by
  induction h with
  | here links id => exact Nat.le_refl links
  | current _ _ ih => exact ih
  | up _ _ ih => exact ih
  | child _ _ _ _ _ _ ih => exact ih
  | link _ _ _ _ _ _ ih => exact Nat.le_succ_of_le ih

/-- **There is only one way.** -/
theorem unique (h₁ : Leads t links id pieces links₁ id₁) (h₂ : Leads t links id pieces links₂ id₂) :
    links₁ = links₂ ∧ id₁ = id₂ := by
  -- What the first piece is, and what it names, decides by which rule both of them begin.
  induction h₁ with
  | here links id =>
      cases h₂
      exact ⟨rfl, rfl⟩
  | current hid _ ih =>
      cases h₂ with
      | current _ hrest => exact ih hrest
      | child _ hcurrent _ _ _ _ => exact absurd rfl hcurrent
      | link _ hcurrent _ _ _ _ => exact absurd rfl hcurrent
  | up hid _ ih =>
      cases h₂ with
      | up hid' hrest =>
          rw [hid] at hid'
          cases hid'
          exact ih hrest
      | child _ _ hup _ _ _ => exact absurd rfl hup
      | link _ _ hup _ _ _ => exact absurd rfl hup
  | child hid hcurrent hup hlookup hnot _ ih =>
      cases h₂ with
      | current _ _ => exact absurd rfl hcurrent
      | up _ _ => exact absurd rfl hup
      | child hid' _ _ hlookup' _ hrest =>
          rw [hid] at hid'
          cases hid'
          rw [hlookup] at hlookup'
          cases hlookup'
          exact ih hrest
      | link hid' _ _ hlookup' htarget _ =>
          rw [hid] at hid'
          cases hid'
          rw [hlookup] at hlookup'
          cases hlookup'
          exact absurd htarget (hnot _)
  | link hid hcurrent hup hlookup htarget _ ih =>
      cases h₂ with
      | current _ _ => exact absurd rfl hcurrent
      | up _ _ => exact absurd rfl hup
      | child hid' _ _ hlookup' hnot _ =>
          rw [hid] at hid'
          cases hid'
          rw [hlookup] at hlookup'
          cases hlookup'
          exact absurd htarget (hnot _)
      | link hid' _ _ hlookup' htarget' hrest =>
          rw [hid] at hid'
          cases hid'
          rw [hlookup] at hlookup'
          cases hlookup'
          rw [htarget] at htarget'
          cases htarget'
          exact ih hrest

/-- **A way can be stopped on after any of its pieces.** -/
theorem split {front back : List Bytes} (h : Leads t links id (front ++ back) links' id') :
    ∃ middle between, Leads t links id front middle between ∧
      Leads t middle between back links' id' := by
  generalize hpieces : front ++ back = pieces at h
  -- Behind a link the front is longer, so the induction is on the way and not on the front.
  induction h generalizing front with
  | here links id =>
      obtain ⟨rfl, rfl⟩ := List.append_eq_nil_iff.mp hpieces
      exact ⟨links, id, .here links id, .here links id⟩
  | current hid hrest ih =>
      rcases List.append_eq_cons_iff.mp hpieces with ⟨rfl, rfl⟩ | ⟨front', rfl, rfl⟩
      · exact ⟨_, _, .here _ _, .current hid hrest⟩
      · obtain ⟨middle, between, hfront, hback⟩ := ih rfl
        exact ⟨middle, between, .current hid hfront, hback⟩
  | up hid hrest ih =>
      rcases List.append_eq_cons_iff.mp hpieces with ⟨rfl, rfl⟩ | ⟨front', rfl, rfl⟩
      · exact ⟨_, _, .here _ _, .up hid hrest⟩
      · obtain ⟨middle, between, hfront, hback⟩ := ih rfl
        exact ⟨middle, between, .up hid hfront, hback⟩
  | child hid hcurrent hup hlookup hnot hrest ih =>
      rcases List.append_eq_cons_iff.mp hpieces with ⟨rfl, rfl⟩ | ⟨front', rfl, rfl⟩
      · exact ⟨_, _, .here _ _, .child hid hcurrent hup hlookup hnot hrest⟩
      · obtain ⟨middle, between, hfront, hback⟩ := ih rfl
        exact ⟨middle, between, .child hid hcurrent hup hlookup hnot hfront, hback⟩
  | @link _ _ _ _ _ _ _ _ _ target _ hid hcurrent hup hlookup htarget hrest ih =>
      rcases List.append_eq_cons_iff.mp hpieces with ⟨rfl, rfl⟩ | ⟨front', rfl, rfl⟩
      · exact ⟨_, _, .here _ _, .link hid hcurrent hup hlookup htarget hrest⟩
      · obtain ⟨middle, between, hfront, hback⟩ :=
          @ih (piecesOf target ++ front') (List.append_assoc ..)
        exact ⟨middle, between, .link hid hcurrent hup hlookup htarget hfront, hback⟩

/-- **One piece with a name leads to what the name stands for**, or through a link. -/
theorem single {name : Bytes} (hname : Path.PlainName name)
    (h : Leads t links id [name] links' id') :
    ∃ mode parent names child, t.entryAt id = some (.directory mode parent names) ∧
      names.lookup name = some child ∧ (child = id' ∧ links' = links ∨ links' < links) := by
  obtain ⟨-, hcurrent, hup⟩ := Path.isName_iff.mp hname.isName
  cases h with
  | current _ _ => exact absurd rfl hcurrent
  | up _ _ => exact absurd rfl hup
  | child hid _ _ hlookup _ hrest =>
      cases hrest
      exact ⟨_, _, _, _, hid, hlookup, Or.inl ⟨rfl, rfl⟩⟩
  | link hid _ _ hlookup _ hrest =>
      exact ⟨_, _, _, _, hid, hlookup, Or.inr (Nat.lt_succ_of_le hrest.links_le)⟩

end Leads

end FileTree

end Conformance
