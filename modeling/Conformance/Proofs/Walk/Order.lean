import Conformance.Proofs.Path.Order
import Conformance.Proofs.Walk.Below
import Conformance.Proofs.Walk.Follows

set_option autoImplicit false

/-! # The order in which files are met

On a view whose directories hold distinct plain names, the files on a trail lie apart in the order
in which they are met (`View.Trail.pairwise_apart`): of any two the earlier one has the smaller name
where their paths part. So no file is met twice.

The invariant is that what is still to be done lies apart. A step keeps it, because what lies below
a path lies apart from everything that the path lies apart from.
-/

namespace Conformance

def Todo.path : Todo → Path
  | .enter dir => dir
  | .look p => p

/-- The entries of a directory lie apart, in the order in which they are visited. -/
theorem Walk.pairwise_apart_entryPaths (dir : Path) {names : List Bytes} (hnodup : names.Nodup)
    (hplain : ∀ name ∈ names, Path.PlainName name) :
    (entryPaths dir names).Pairwise Path.Apart := by
  rw [entryPaths, List.pairwise_map]
  refine (Path.pairwise_nameLT_mergeSort hnodup).imp_of_mem fun ha hb hlt => ?_
  exact .entries dir (hplain _ (List.mem_mergeSort.mp ha)) (hplain _ (List.mem_mergeSort.mp hb)) hlt

namespace View

variable {v : View}

/-- What the listing of a directory promises: every name once, and plain names only. -/
def Plain (v : View) : Prop :=
  ∀ dir names, v.list dir = .ok names → names.Nodup ∧ ∀ name ∈ names, Path.PlainName name

/-- What lies apart from a path lies apart from everything below it. -/
theorem inherited_apart (h : v.Plain) (p : Path) : v.Inherited (p.Apart ·) (p.Apart ·) where
  entry := fun hp hl hn => hp.join_right ((h _ _ hl).2 _ hn)
  directory := fun hp _ => hp

/-- A step leaves things to be done that lie apart, if they did before. -/
theorem step_pairwise_apart (h : v.Plain) {todos todos' : List Todo} {sights : List Sight}
    (hs : v.step todos = some (sights, todos')) (ht : (todos.map Todo.path).Pairwise Path.Apart) :
    (todos'.map Todo.path).Pairwise Path.Apart := by
  rcases step_cases hs with ⟨dir, names, rest, rfl, hl, rfl, rfl⟩ |
    ⟨p, rest, rfl, hd, rfl, rfl⟩ | ⟨p, rest, rfl, hd, rfl, rfl⟩
  · obtain ⟨hdir, hrest⟩ := List.pairwise_cons.mp ht
    rw [List.map_append, List.map_map]
    have hentries : (Walk.entryPaths dir names).map (Todo.path ∘ Todo.look) =
        Walk.entryPaths dir names := List.map_id _
    rw [hentries]
    obtain ⟨hnodup, hplain⟩ := h dir names hl
    refine List.pairwise_append.mpr
      ⟨Walk.pairwise_apart_entryPaths dir hnodup hplain, hrest, fun p hp q hq => ?_⟩
    obtain ⟨name, hn, rfl⟩ := mem_entryPaths.mp hp
    exact (hdir q hq).join_left (hplain name hn)
  · exact ht
  · exact (List.pairwise_cons.mp ht).2

/-- **The files on a trail lie apart in the order in which they are met.** -/
theorem Trail.pairwise_apart (h : v.Plain) {todos last : List Todo} {sights : List Sight}
    (htrail : v.Trail todos sights last) (ht : (todos.map Todo.path).Pairwise Path.Apart) :
    (Sight.files sights).Pairwise Path.Apart := by
  induction htrail with
  | refl _ => exact .nil
  | cons hs hrest ih =>
      have hmore := ih (step_pairwise_apart h hs ht)
      rcases step_cases hs with ⟨dir, names, rest, rfl, hl, rfl, rfl⟩ |
        ⟨p, rest, rfl, hd, rfl, rfl⟩ | ⟨p, rest, rfl, hd, rfl, hnext⟩
      · exact hmore
      · exact hmore
      · rw [hnext] at hrest
        obtain ⟨hp, -⟩ := List.pairwise_cons.mp ht
        have htodos : ∀ todo ∈ rest, todo.Holds (p.Apart ·) (p.Apart ·) := by
          intro todo htodo
          have := hp todo.path (List.mem_map_of_mem htodo)
          cases todo <;> exact this
        refine List.pairwise_cons.mpr ⟨fun q hq => ?_, hmore⟩
        -- What is met later lies below something that was still to be done.
        exact ((hrest.invariant (inherited_apart h p) htodos).1 _ (Sight.mem_files.mp hq)).1

end View

/-- So are the scripts among files that lie apart. -/
theorem Settings.pairwise_scripts (s : Settings) {sights : List Sight}
    (h : (Sight.files sights).Pairwise Path.Apart) :
    (s.scripts sights).Pairwise fun c d => c.path.Apart d.path :=
  List.pairwise_map.mpr (h.sublist List.filter_sublist)

end Conformance
