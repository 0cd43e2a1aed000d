import Mathlib
import Conformance.Host.Run
import Conformance.Proofs.Host.Resolution
import Conformance.Proofs.Path.Ending

set_option autoImplicit false

/-! # The interpreter that a name stands for

A path with more than one component stands for itself. Any other one is looked up in the entries of the
search path (`Lookup.Lists`), and stands for the first of the files there that can be run, or for itself
(`World.StandsFor`). Nothing but these files is looked at; where every entry is absolute the working
directory makes no difference, and a name that is found is a name in the directory that its entry leads to
(`World.lookUp_through_entries`).

What is found is looked up no more. It is a regular file, so it does not end in a slash or in a dot
(`FileTree.not_isRegular_of_slash`, `FileTree.not_isRegular_of_dot`), and unless it is the name itself it
has a component in front of the last one (`Path.one_lt_components`).
-/

namespace Conformance

/-! ## Search paths -/

namespace Lookup

/-- **What a search path lists**: it is not set, or it holds entries with a colon between any two of them.
An entry can be empty, but holds no colon. -/
inductive Lists : Option Bytes → List Bytes → Prop
  | unset : Lists none []
  | entries {es : List Bytes} : es ≠ [] → (∀ e ∈ es, colon ∉ e) →
      Lists (some ([colon].intercalate es)) es

theorem entries_ne_nil (list : Bytes) : entries list ≠ [] := by
  cases list with
  | nil => exact List.cons_ne_nil _ _
  | cons b rest =>
      rw [entries]
      split
      · exact List.cons_ne_nil _ _
      · split <;> exact List.cons_ne_nil _ _

theorem entries_eq_splitOn (list : Bytes) : entries list = list.splitOn colon := by
  induction list with
  | nil => exact (List.splitOn_nil colon).symm
  | cons b rest ih =>
      obtain ⟨entry, others, hrest⟩ := List.exists_cons_of_ne_nil (entries_ne_nil rest)
      rw [List.splitOn, List.splitOnP_cons_eq_if_modifyHead, ← List.splitOn, ← ih, entries, hrest]
      simp

theorem colon_not_mem_of_mem_entries {list : Bytes} : ∀ e ∈ entries list, colon ∉ e := by
  induction list with
  | nil => simp [entries]
  | cons b rest ih =>
      obtain ⟨entry, others, hrest⟩ := List.exists_cons_of_ne_nil (entries_ne_nil rest)
      rw [hrest, List.forall_mem_cons] at ih
      by_cases hb : b = colon
      · rw [entries, if_pos hb, hrest]
        simpa using ih
      · rw [entries, if_neg hb, hrest]
        simpa [Ne.symm hb] using ih

/-- **Every search path lists its entries, and no others.** -/
theorem lists_iff {searchPath : Option Bytes} {es : List Bytes} :
    Lists searchPath es ↔ es = (searchPath.map entries).getD [] := by
  constructor
  · intro h
    cases h with
    | unset => rfl
    | entries hne hcolon =>
        rw [Option.map_some, Option.getD_some, entries_eq_splitOn,
          List.splitOn_intercalate colon hcolon hne]
  · rintro rfl
    cases searchPath with
    | none => exact .unset
    | some list =>
        have hall := Lists.entries (entries_ne_nil list) colon_not_mem_of_mem_entries
        rwa [entries_eq_splitOn, List.intercalate_splitOn, ← entries_eq_splitOn] at hall

theorem Lists.candidates_eq {searchPath : Option Bytes} {es : List Bytes}
    (h : Lists searchPath es) (name : Path) :
    candidates searchPath name = es.map fun e => Path.join ⟨e⟩ name.bytes := by
  rw [lists_iff.mp h]
  cases searchPath <;> rfl

end Lookup

/-! ## Paths that only a directory has -/

namespace Path

theorem components_ne_nil {p : Path} (h : p.bytes ≠ []) : p.components ≠ [] := by
  obtain ⟨first, others, hpieces⟩ := List.exists_cons_of_ne_nil (pieces_ne_nil p.bytes)
  rw [components_of_pieces h hpieces]
  by_cases hfirst : first = []
  · subst hfirst
    exact List.cons_ne_nil _ _
  · obtain ⟨c, hc, -⟩ := exists_ofFirstPiece hfirst
    rw [hc]
    exact List.cons_ne_nil _ _

/-- **A piece behind a slash is a component more**, unless it is empty or a dot. -/
theorem one_lt_components {front last : Bytes} (hplain : slash ∉ last) (hnil : last ≠ [])
    (hdot : last ≠ [dot]) : 1 < (components ⟨front ++ slash :: last⟩).length := by
  obtain ⟨c, hc, -⟩ := exists_ofPiece hnil hdot
  have hfront : components ⟨front ++ [slash]⟩ ≠ [] := components_ne_nil (by simp)
  rw [components_append_slash, pieces_of_no_slash hplain, List.filterMap_cons, hc]
  have := List.length_pos_iff.mpr hfront
  simpa using this

theorem join_eq_or_slash_mem (dir : Path) (name : Bytes) :
    dir.join name = ⟨name⟩ ∨ slash ∈ (dir.join name).bytes := by
  rw [join]
  split
  · exact Or.inl rfl
  · split
    · next hdir =>
        rcases hdir with hnil | hlast
        · exact Or.inl (by rw [hnil]; rfl)
        · exact Or.inr (List.mem_append_left name (List.mem_of_getLast? hlast))
    · exact Or.inr (by simp)

theorem head?_join {dir : Path} (h : dir.bytes.head? = some slash) (name : Bytes) :
    (dir.join name).bytes.head? = some slash := by
  obtain ⟨rest, hdir⟩ := List.head?_eq_some_iff.mp h
  rw [join]
  split
  · assumption
  · split <;> simp [hdir]

end Path

namespace FileTree

variable {t : FileTree} {cwd id : FileId} {path : Bytes} {entry : Entry}

/-- What must be a directory when the following starts must be one when it ends. -/
theorem asDirectory_of_follow {links : ℕ} {origin : Option (FileId × Bytes)} {asDirectory : Bool}
    {pieces : List Bytes} {arrival : Arrival} (hdirectory : asDirectory = true)
    (h : t.follow true links id origin asDirectory pieces = .ok arrival) :
    arrival.asDirectory = true := by
  fun_induction FileTree.follow t true links id origin asDirectory pieces
  case case1 =>
    cases h
    exact hdirectory
  case case3 ih => exact ih hdirectory h
  case case4 ih => exact ih hdirectory h
  case case6 =>
    cases h
    exact hdirectory
  case case8 hlast => exact absurd rfl hlast.2.1
  case case10 ih => exact ih (by rw [hdirectory, Bool.true_or]) h
  case case11 ih => exact ih hdirectory h
  all_goals cases h

/-- **A path that ends in a slash leads to no regular file.** -/
theorem not_isRegular_of_slash (hslash : endsInSlash path = true)
    (h : t.find cwd path = .ok (id, entry)) : entry.isRegular = false := by
  rw [find, findFrom] at h
  split at h
  · next origin id' asDirectory hlocate =>
      rw [locate] at hlocate
      split at hlocate
      · cases hlocate
      · split at hlocate
        · cases hlocate
        · have hdirectory : asDirectory = true := asDirectory_of_follow hslash hlocate
          split at h
          · split at h
            · cases h
            · next hnot =>
                cases h
                cases entry with
                | directory _ _ _ => rfl
                | _ => exact absurd ⟨hdirectory, Bool.false_ne_true⟩ hnot
          · cases h
  · cases h
  · cases h

/-- **A path that ends in a dot leads to no regular file.** -/
theorem not_isRegular_of_dot {front : Bytes} (hdot : path = front ++ slash :: [0x2E])
    (h : t.find cwd path = .ok (id, entry)) : entry.isRegular = false := by
  obtain ⟨-, hentry, links, hleads⟩ := leads_of_find h
  have hpieces : piecesOf path = piecesOf front ++ [[0x2E]] := by
    rw [hdot, piecesOf_append_slash]
    rfl
  rw [hpieces] at hleads
  obtain ⟨_, between, -, hlast⟩ := hleads.split
  cases hlast with
  | current hbetween hrest =>
      cases hrest
      rw [hbetween] at hentry
      cases hentry
      rfl
  | child _ hcurrent _ _ _ _ => exact absurd rfl hcurrent
  | link _ hcurrent _ _ _ _ => exact absurd rfl hcurrent

def Holds (t : FileTree) (dir : FileId) (name : Bytes) : Prop :=
  ∃ mode parent names child, t.entryAt dir = some (.directory mode parent names) ∧
    names.lookup name = some child

/-- **What is found under a name is held by the directory that the path in front of it leads to**; an empty
path leads to the working directory. -/
theorem holds_of_find_join {dir : Path} {name : Bytes} (hname : Path.PlainName name)
    (h : t.find cwd (dir.join name).bytes = .ok (id, entry)) :
    ∃ links between, Leads t linkLimit (startOf cwd dir.bytes) (piecesOf dir.bytes) links between ∧
      t.Holds between name := by
  obtain ⟨-, -, left, hleads⟩ := leads_of_find h
  have hway : Leads t linkLimit (startOf cwd dir.bytes) (piecesOf dir.bytes ++ [name]) left id := by
    by_cases hdir : dir.bytes = []
    · have hjoin : (dir.join name).bytes = name := by
        rw [Path.join, if_neg hname.head?_ne, if_pos (Or.inl hdir), hdir]
        rfl
      have hstart : startOf cwd name = startOf cwd dir.bytes := by
        have hhead : ¬ name.head? = some slash := hname.head?_ne
        rw [startOf, startOf, hdir, if_neg hhead]
        rfl
      have hpieces : piecesOf dir.bytes = [] := by
        rw [hdir]
        rfl
      rw [hjoin, hstart, piecesOf_plain hname] at hleads
      rwa [hpieces]
    · rwa [piecesOf_join hdir hname, startOf_join cwd hdir hname] at hleads
  obtain ⟨links, between, hfront, hlast⟩ := hway.split
  obtain ⟨mode, parent, names, child, hbetween, hlookup, -⟩ := hlast.single hname
  exact ⟨links, between, hfront, mode, parent, names, child, hbetween, hlookup⟩

theorem find_of_absolute (h : path.head? = some slash) (cwd cwd' : FileId) :
    t.find cwd path = t.find cwd' path := by
  have hstart : startOf cwd path = startOf cwd' path := by
    rw [startOf, startOf, if_pos h, if_pos h]
  rw [find, find, findFrom, findFrom, locate, locate, hstart]

end FileTree

namespace World

open FileTree

/-- **What a path leads to, links followed, is a regular file that may be executed.** -/
def Runnable (w : World) (p : Path) : Prop :=
  0 ∉ p.bytes ∧ ∃ id entry, w.tree.find w.cwd p.bytes = .ok (id, entry) ∧
    entry.isRegular = true ∧ entry.permits 0o100 = true

/-- **The interpreter that a path stands for**, where `es` are the entries of the search path. -/
inductive StandsFor (w : World) (es : List Bytes) (i : Path) : Path → Prop
  | given : 1 < i.components.length → StandsFor w es i i
  | first {before after : List Bytes} {e : Bytes} : i.components.length ≤ 1 →
      es = before ++ e :: after → (∀ d ∈ before, ¬ w.Runnable (.join ⟨d⟩ i.bytes)) →
      w.Runnable (.join ⟨e⟩ i.bytes) → StandsFor w es i (.join ⟨e⟩ i.bytes)
  | nowhere : i.components.length ≤ 1 → (∀ e ∈ es, ¬ w.Runnable (.join ⟨e⟩ i.bytes)) →
      StandsFor w es i i

section

variable {w : World} {es : List Bytes} {i p r : Path}

def isRunnable (w : World) (p : Path) : Bool :=
  !p.bytes.contains 0 && w.tree.isExecutable w.cwd p.bytes

theorem isRunnable_iff : w.isRunnable p = true ↔ w.Runnable p := by
  have hexecutable : w.tree.isExecutable w.cwd p.bytes = true ↔
      ∃ id entry, w.tree.find w.cwd p.bytes = .ok (id, entry) ∧
        entry.isRegular = true ∧ entry.permits 0o100 = true := by
    rw [isExecutable]
    cases hfind : w.tree.find w.cwd p.bytes with
    | error e => simp
    | ok found =>
        obtain ⟨id, entry⟩ := found
        simp [Entry.isExecutable]
  rw [isRunnable, Bool.and_eq_true, hexecutable]
  simp [Runnable]

/-! ### What is found -/

theorem lookUp_eq (h : Lookup.Lists w.searchPath es) (i : Path) :
    w.lookUp i = if 1 < i.components.length then i
      else ((es.find? fun e => w.isRunnable (.join ⟨e⟩ i.bytes)).map
        fun e => .join ⟨e⟩ i.bytes).getD i := by
  rw [lookUp, Lookup.resolve, h.candidates_eq, List.find?_map]
  rfl

/-- **The interpreter that is looked up is the one that the path stands for.** -/
theorem lookUp_eq_iff (h : Lookup.Lists w.searchPath es) :
    w.lookUp i = r ↔ w.StandsFor es i r := by
  constructor
  · rintro rfl
    rw [lookUp_eq h]
    split
    · next hmany => exact .given hmany
    · next hone =>
        cases hfind : es.find? fun e => w.isRunnable (.join ⟨e⟩ i.bytes) with
        | none =>
            refine .nowhere (Nat.not_lt.mp hone) fun e he hrun => ?_
            exact List.find?_eq_none.mp hfind e he (isRunnable_iff.mpr hrun)
        | some e =>
            obtain ⟨hrun, before, after, hes, hbefore⟩ := List.find?_eq_some_iff_append.mp hfind
            refine .first (Nat.not_lt.mp hone) hes (fun d hd hrun' => ?_) (isRunnable_iff.mp hrun)
            have hnot := hbefore d hd
            rw [isRunnable_iff.mpr hrun'] at hnot
            cases hnot
  · intro hs
    rw [lookUp_eq h]
    cases hs with
    | given hmany => rw [if_pos hmany]
    | @first before after e hone hes hbefore he =>
        have hfind : es.find? (fun e => w.isRunnable (.join ⟨e⟩ i.bytes)) = some e := by
          refine List.find?_eq_some_iff_append.mpr ⟨isRunnable_iff.mpr he, before, after, hes, ?_⟩
          intro d hd
          rw [Bool.not_eq_true', ← Bool.not_eq_true, isRunnable_iff]
          exact hbefore d hd
        rw [if_neg (Nat.not_lt.mpr hone), hfind]
        rfl
    | nowhere hone hnone =>
        have hfind : es.find? (fun e => w.isRunnable (.join ⟨e⟩ i.bytes)) = none := by
          refine List.find?_eq_none.mpr fun e he hrun => ?_
          exact hnone e he (isRunnable_iff.mp hrun)
        rw [if_neg (Nat.not_lt.mpr hone), hfind]
        rfl

/-- **What a path stands for depends on the files in the entries alone.** -/
theorem StandsFor.of_same {w' : World} (hs : w.StandsFor es i r)
    (hsame : ∀ e ∈ es, w'.Runnable (.join ⟨e⟩ i.bytes) ↔ w.Runnable (.join ⟨e⟩ i.bytes)) :
    w'.StandsFor es i r := by
  cases hs with
  | given hmany => exact .given hmany
  | @first before after e hone hes hbefore he =>
      refine .first hone hes (fun d hd => ?_) ((hsame e ?_).mpr he)
      · rw [hsame d (by simp [hes, hd])]
        exact hbefore d hd
      · simp [hes]
  | nowhere hone hnone =>
      exact .nowhere hone fun e he => (hsame e he).not.mpr (hnone e he)

/-! ### Looking up again -/

/-- **A file that can be run and has a slash in its path has more than one component.** -/
theorem Runnable.one_lt_components (h : w.Runnable p) (hslash : Path.slash ∈ p.bytes) :
    1 < p.components.length := by
  obtain ⟨-, id, entry, hfind, hregular, -⟩ := h
  obtain ⟨front, last, hbytes, hplain⟩ := Path.exists_last_of_mem hslash
  have hp : p = ⟨front ++ Path.slash :: last⟩ := by rw [← hbytes]
  rw [hp]
  -- A regular file has no path that ends in a slash or in a dot.
  refine Path.one_lt_components hplain (fun hnil => ?_) (fun hdot => ?_)
  · have hend : endsInSlash p.bytes = true := by
      rw [hbytes, hnil]
      simp [endsInSlash, FileTree.slash, Path.slash]
    rw [not_isRegular_of_slash hend hfind] at hregular
    cases hregular
  · rw [hdot] at hbytes
    rw [not_isRegular_of_dot hbytes hfind] at hregular
    cases hregular

/-- **What is found is looked up no more**: it has more than one component, or it is the path itself. -/
theorem lookUp_lookUp (w : World) (i : Path) : w.lookUp (w.lookUp i) = w.lookUp i := by
  have hlists := Lookup.lists_iff.mpr (Eq.refl ((w.searchPath.map Lookup.entries).getD []))
  have hs := (lookUp_eq_iff hlists).mp (Eq.refl (w.lookUp i))
  generalize hr : w.lookUp i = r at hs
  cases hs with
  | given _ => exact hr
  | nowhere _ _ => exact hr
  | @first _ _ e _ _ _ he =>
      -- Only an empty entry, or a name that is absolute, leaves the name as it is.
      rcases Path.join_eq_or_slash_mem ⟨e⟩ i.bytes with hsame | hslash
      · rw [hsame] at hr ⊢
        exact hr
      · exact (lookUp_eq_iff hlists).mpr (.given (he.one_lt_components hslash))

/-- **The search path decides which interpreter a path stands for.** A path with more than one component
is left as it is; any other one stands for the first file in the entries, in their order, that can be run,
and for itself if there is none. So it stays as it is or leads to a file that can be run. No file but those
in the entries makes a difference, and where all entries are absolute the working directory makes none. A
plain name is found only in a directory that an entry leads to. Looking up what has been found changes
nothing. -/
theorem lookUp_through_entries (w : World) (i : Path) :
    ∃ es, (∀ others, Lookup.Lists w.searchPath others ↔ others = es) ∧
      (∀ r, w.lookUp i = r ↔ w.StandsFor es i r) ∧
      (w.lookUp i = i ∨ w.Runnable (w.lookUp i)) ∧
      (∀ w' : World, w'.searchPath = w.searchPath →
        (∀ e ∈ es, w'.Runnable (.join ⟨e⟩ i.bytes) ↔ w.Runnable (.join ⟨e⟩ i.bytes)) →
        w'.lookUp i = w.lookUp i) ∧
      ((∀ e ∈ es, e.head? = some slash) → ∀ cwd, { w with cwd := cwd }.lookUp i = w.lookUp i) ∧
      (Path.PlainName i.bytes → ∀ e ∈ es, w.Runnable (.join ⟨e⟩ i.bytes) →
        ∃ links dir, Leads w.tree linkLimit (startOf w.cwd e) (piecesOf e) links dir ∧
          w.tree.Holds dir i.bytes) ∧
      w.lookUp (w.lookUp i) = w.lookUp i := by
  obtain ⟨es, hes⟩ : ∃ es, es = (w.searchPath.map Lookup.entries).getD [] := ⟨_, rfl⟩
  have hlists : Lookup.Lists w.searchPath es := Lookup.lists_iff.mpr hes
  have hstands := (lookUp_eq_iff hlists).mp (Eq.refl (w.lookUp i))
  -- Other worlds in which the same candidates can be run have the same answer; worlds that differ in
  -- their working directory are such ones if no entry depends on it.
  have hsame : ∀ w' : World, w'.searchPath = w.searchPath →
      (∀ e ∈ es, w'.Runnable (.join ⟨e⟩ i.bytes) ↔ w.Runnable (.join ⟨e⟩ i.bytes)) →
      w'.lookUp i = w.lookUp i := by
    intro w' hpath hrun
    exact (lookUp_eq_iff (hpath ▸ hlists)).mpr (hstands.of_same hrun)
  refine ⟨es, fun others => ?_, fun r => lookUp_eq_iff hlists, ?_, hsame, ?_, ?_, lookUp_lookUp w i⟩
  · rw [Lookup.lists_iff, hes]
  · generalize w.lookUp i = r at hstands
    cases hstands with
    | given _ => exact Or.inl rfl
    | first _ _ _ he => exact Or.inr he
    | nowhere _ _ => exact Or.inl rfl
  · intro habsolute cwd
    refine hsame { w with cwd := cwd } rfl fun e he => ?_
    have hhead : (Path.join ⟨e⟩ i.bytes).bytes.head? = some slash :=
      Path.head?_join (habsolute e he) i.bytes
    rw [Runnable, Runnable, find_of_absolute hhead cwd w.cwd]
  · intro hplain e _ hrun
    obtain ⟨-, id, entry, hfind, -⟩ := hrun
    exact holds_of_find_join hplain hfind

end

/-- Two directories in the search path, of which the first one has a directory where the second one has a
tool. -/
def sampleTools : World where
  tree := ⟨#[.directory 0o755 root [(Utf8.encode "a", 1), (Utf8.encode "b", 2)],
    .directory 0o755 root [(Utf8.encode "tool", 4)], .directory 0o755 root [(Utf8.encode "tool", 3)],
    .file 0o755 [], .directory 0o755 1 []], by decide⟩
  clock := 0
  tasks := []
  fresh := 0
  pipes := []
  positions := []
  captured := []
  cwd := root
  environment := [("PATH", "/a:/b".toList)]

/-- The tool is found in the second directory, from every working directory. -/
theorem lookUp_through_entries_sample :
    sampleTools.lookUp (.ofText "tool") = .ofText "/b/tool" ∧
    { sampleTools with cwd := 1 }.lookUp (.ofText "tool") = .ofText "/b/tool" ∧
    { sampleTools with clock := 1 }.lookUp (.ofText "tool") = .ofText "/b/tool" ∧
    ∃ links dir, Leads sampleTools.tree linkLimit (startOf root (Utf8.encode "/b"))
      (piecesOf (Utf8.encode "/b")) links dir ∧ sampleTools.tree.Holds dir (Utf8.encode "tool") := by
  obtain ⟨es, hes, hstands, -, hsame, habsolute, hholds, -⟩ :=
    lookUp_through_entries sampleTools (.ofText "tool")
  have hpath : sampleTools.searchPath =
      some ([Lookup.colon].intercalate [Utf8.encode "/a", Utf8.encode "/b"]) := by decide
  have hlists : Lookup.Lists sampleTools.searchPath [Utf8.encode "/a", Utf8.encode "/b"] := by
    rw [hpath]
    exact .entries (by decide) (by decide)
  obtain rfl := (hes _).mp hlists
  have hrun : sampleTools.Runnable (.join ⟨Utf8.encode "/b"⟩ (Utf8.encode "tool")) :=
    ⟨by decide, 3, .file 0o755 [], by cbv, rfl, rfl⟩
  have hnot : ¬ sampleTools.Runnable (.join ⟨Utf8.encode "/a"⟩ (Utf8.encode "tool")) := by
    rintro ⟨-, id, entry, hfind, hregular, -⟩
    have hdirectory : sampleTools.tree.find sampleTools.cwd
        (Path.join ⟨Utf8.encode "/a"⟩ (Utf8.encode "tool")).bytes =
          .ok (4, .directory 0o755 1 []) := by cbv
    rw [hdirectory] at hfind
    cases hfind
    cases hregular
  have hfound : sampleTools.lookUp (.ofText "tool") = .ofText "/b/tool" := by
    have hone : (Path.ofText "tool").components.length ≤ 1 := by decide
    exact (hstands _).mpr (@StandsFor.first _ _ _ [Utf8.encode "/a"] [] _ hone rfl
      (List.forall_mem_singleton.mpr hnot) hrun)
  refine ⟨hfound, ?_, ?_, ?_⟩
  · rw [habsolute (by decide), hfound]
  · rw [hsame { sampleTools with clock := 1 } rfl fun e _ => Iff.rfl, hfound]
  · exact hholds (by decide) (Utf8.encode "/b") (by decide) hrun

end World

end Conformance
