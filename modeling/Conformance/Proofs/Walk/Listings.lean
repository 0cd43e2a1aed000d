import Conformance.Proofs.Walk.Order

set_option autoImplicit false

/-! # Views that are given by listings

A file system bounds the length of its path names, and an entry has a longer path name than its
directory. So no chain of directories is endless (`View.founded_of_length_le`). In particular this
holds of a view whose directories are given by a list (`View.founded_ofListings`).
-/

namespace Conformance

/-- The path of an entry is longer than that of its directory. -/
theorem Path.length_lt_join (dir : Path) {name : Bytes} (h : PlainName name) :
    dir.bytes.length < (dir.join name).bytes.length := by
  have hlength : 0 < name.length := List.length_pos_iff.mpr h.ne_nil
  unfold join
  rw [if_neg h.head?_ne]
  split
  · simp only [List.length_append]
    omega
  · simp only [List.length_append, List.length_cons]
    omega

namespace View

/-- **No chain of directories is endless on a view whose path names are bounded.** -/
theorem founded_of_length_le {v : View} (hplain : v.Plain) {bound : Nat}
    (hbound : ∀ p, v.isDirectory p = true → p.bytes.length ≤ bound) (dir : Path) :
    v.Founded dir := by
  generalize hroom : bound + 1 - dir.bytes.length = room
  induction room using Nat.strongRecOn generalizing dir with
  | ind room ih =>
      refine Acc.intro dir fun sub hsub => ?_
      obtain ⟨hd, names, name, hl, hn, rfl⟩ := hsub
      have hlonger := dir.length_lt_join ((hplain dir names hl).2 name hn)
      have hshort := hbound _ hd
      exact ih _ (by omega) _ rfl

/-- The view whose directories have these listings; everything else is a file. -/
def ofListings (listings : List (Path × Except IoError (List Bytes))) : View where
  list p := (listings.lookup p).getD (.error .zeroInName)
  isDirectory p := (listings.lookup p).isSome

variable {listings : List (Path × Except IoError (List Bytes))}

theorem mem_of_lookup {p : Path} {r : Except IoError (List Bytes)}
    (h : listings.lookup p = some r) : (p, r) ∈ listings := by
  obtain ⟨before, after, rfl, -⟩ := List.lookup_eq_some_iff.mp h
  simp

theorem plain_ofListings
    (h : ∀ entry ∈ listings, ∀ names ∈ entry.2.toOption,
      names.Nodup ∧ ∀ name ∈ names, Path.PlainName name) : (ofListings listings).Plain := by
  intro dir names hl
  cases hlookup : listings.lookup dir with
  | none => simp [ofListings, hlookup] at hl
  | some r =>
      simp only [ofListings, hlookup, Option.getD_some] at hl
      subst hl
      exact h _ (mem_of_lookup hlookup) names rfl

theorem list_ofListings (h : ∀ entry ∈ listings, entry.2.isOk = true) {dir : Path}
    (hd : (ofListings listings).isDirectory dir = true) :
    ∃ names, (ofListings listings).list dir = .ok names := by
  obtain ⟨r, hr⟩ := Option.isSome_iff_exists.mp hd
  have hok := h _ (mem_of_lookup hr)
  cases r with
  | ok names => exact ⟨names, by simp [ofListings, hr]⟩
  | error cause => cases hok

theorem length_lt_ofListings {bound : Nat} (h : ∀ entry ∈ listings, entry.1.bytes.length < bound)
    {p : Path} (hd : (ofListings listings).isDirectory p = true) : p.bytes.length < bound := by
  obtain ⟨r, hr⟩ := Option.isSome_iff_exists.mp hd
  exact h _ (mem_of_lookup hr)

/-- **No chain of directories is endless on a view that is given by listings.** -/
theorem founded_ofListings (hplain : (ofListings listings).Plain) (dir : Path) :
    (ofListings listings).Founded dir := by
  have hbound : ∀ p, (ofListings listings).isDirectory p = true →
      p.bytes.length ≤ (listings.map (·.1.bytes)).flatten.length := by
    intro p hp
    obtain ⟨r, hr⟩ := Option.isSome_iff_exists.mp hp
    have hmem : p.bytes ∈ listings.map (·.1.bytes) :=
      List.mem_map_of_mem (f := (·.1.bytes)) (mem_of_lookup hr)
    exact (List.sublist_flatten_of_mem hmem).length_le
  exact founded_of_length_le hplain hbound dir

end View

end Conformance
