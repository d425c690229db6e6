import Provenance.FileTree
import Provenance.Proofs.Outcome

/-!
# Files that are written and read

A run may write a report and a later one may read it, in a tree of directories and files. A path is
followed name by name. A name that is written leads to the new file from then on, and every other
name leads where it has led before.

* `Writable` — a file can be written at a path, and then holds what was written.
* `FileTree.writable_of_foldlM` — in a file tree this is so where the names on the way lead to a
  directory, and the last name leads to no directory. Writing changes what the last name leads to,
  and nothing that leads there (`FileTree.resolve_put`).
-/

namespace Provenance

/-- A file can be written at a path, and then holds what was written. -/
def Writable {σ : Type} [FileSystem σ] (files : σ) (path : FilePath) : Prop :=
  path.fault? = none ∧ ∀ content : Bytes, ∃ after,
    FileSystem.write files path content = .ok after ∧ FileSystem.read after path = .ok content

namespace FileTree

variable {tree : FileTree} {names : List Text} {name : Text} {content : Bytes}

theorem node?_put_self {node : FileNode} (h : names ≠ []) :
    (tree.put names node).node? names = some node := by
  simp only [node?, put, if_neg h, List.find?_cons, decide_true, Option.map_some]

/-- What is at another place is what was there. -/
theorem at?_put_of_ne {node : FileNode} {place : Place} (h : place ≠ .below names) :
    (tree.put names node).at? place = tree.at? place := by
  cases place with
  | above => rfl
  | below others =>
    have hne : ¬ names = others := fun heq => h (congrArg Place.below heq.symm)
    show (tree.put names node).node? others = tree.node? others
    simp only [node?, put, List.find?_cons, decide_eq_false hne]

/-- Where there was something, there is something. -/
theorem isSome_at?_put {node : FileNode} {place : Place} (h : (tree.at? place).isSome) :
    ((tree.put names node).at? place).isSome := by
  by_cases hplace : place = .below names
  · subst hplace
    by_cases hnil : names = []
    · show ((tree.put names node).node? names).isSome
      rw [node?, if_pos hnil]
      rfl
    · show ((tree.put names node).node? names).isSome
      rw [node?_put_self hnil]
      rfl
  · rwa [at?_put_of_ne hplace]

/-- Names are admitted in directories, if they are not too long. -/
theorem admits_eq_ok_iff {place : Place} {name : Text} :
    tree.admits place name = .ok () ↔
      tree.at? place = some .directory ∧ FilePath.nameSize name ≤ longestName := by
  unfold admits
  split
  next hnot => exact iff_of_false nofun fun h => hnot h.1
  next hdirectory =>
    split
    next hlong => exact iff_of_false nofun fun h => Nat.not_lt.mpr h.2 hlong
    next hlong =>
      exact iff_of_true rfl ⟨Decidable.not_not.mp hdirectory, Nat.not_lt.mp hlong⟩

/-- Names that were admitted are admitted still. -/
theorem admits_put (hfree : tree.at? (.below names) ≠ some .directory) {place : Place}
    (h : tree.admits place name = .ok ()) :
    (tree.put names (.file content)).admits place name = .ok () := by
  obtain ⟨hdirectory, hshort⟩ := admits_eq_ok_iff.mp h
  -- names are admitted in directories, and where the file is put there is none
  have hplace : place ≠ .below names := by
    rintro rfl
    exact hfree hdirectory
  rw [admits_eq_ok_iff, at?_put_of_ne hplace]
  exact ⟨hdirectory, hshort⟩

/-- A name that led somewhere leads there still. -/
theorem follow_put (hfree : tree.at? (.below names) ≠ some .directory) {place next : Place}
    {step : Text} (h : tree.follow place step = .ok next) :
    (tree.put names (.file content)).follow place step = .ok next := by
  unfold follow at h ⊢
  -- a name is admitted first, and then it goes up or down
  obtain ⟨⟨⟩, hadmits, h⟩ := bind_eq_ok_iff.mp h
  rw [admits_put hfree hadmits]
  show (if step = ".." then _ else _) = _
  split at h
  next hdots =>
    rw [if_pos hdots]
    exact h
  next hdots =>
    rw [if_neg hdots]
    cases hchild : place.child? step with
    | none =>
      rw [hchild] at h
      cases h
    | some child =>
      rw [hchild] at h
      simp only at h ⊢
      split at h
      next hsome =>
        -- what was there is there still, or the new file is there now
        rw [if_pos (isSome_at?_put hsome)]
        exact h
      next => cases h

/-- A way that led somewhere leads there still. -/
theorem foldlM_follow_put (hfree : tree.at? (.below names) ≠ some .directory) {way : List Text}
    {place last : Place} (h : way.foldlM tree.follow place = .ok last) :
    way.foldlM (tree.put names (.file content)).follow place = .ok last := by
  -- name by name, from the place that the first ones lead to
  induction way generalizing place with
  | nil => exact h
  | cons name rest ih =>
    rw [List.foldlM_cons] at h ⊢
    obtain ⟨next, hnext, hrest⟩ := bind_eq_ok_iff.mp h
    rw [follow_put hfree hnext]
    exact ih hrest

/-- The last name leads to the file that was put there. -/
theorem follow_put_self (hfree : tree.at? (.below (names ++ [name])) ≠ some .directory)
    (hdots : name ≠ "..") (hadmits : tree.admits (.below names) name = .ok ()) :
    (tree.put (names ++ [name]) (.file content)).follow (.below names) name
      = .ok (.below (names ++ [name])) := by
  -- the new file is there now, so that the last name leads to it
  have hself : ((tree.put (names ++ [name]) (.file content)).at?
      (.below (names ++ [name]))).isSome := by
    show ((tree.put (names ++ [name]) (.file content)).node? (names ++ [name])).isSome
    rw [node?_put_self (List.append_ne_nil_of_right_ne_nil names (List.cons_ne_nil name []))]
    rfl
  unfold follow
  rw [admits_put hfree hadmits]
  show (if name = ".." then _ else _) = _
  rw [if_neg hdots]
  exact if_pos hself

/-- A path leads to the file that was put where it leads. -/
theorem resolve_put (hfree : tree.at? (.below (names ++ [name])) ≠ some .directory)
    {path : FilePath} {way : List Text} (hsize : FilePath.nameSize path.text < pathLimit)
    (hparts : path.parts = way ++ [name])
    (hway : way.foldlM tree.follow (start path) = .ok (.below names)) (hdots : name ≠ "..")
    (hadmits : tree.admits (.below names) name = .ok ()) :
    (tree.put (names ++ [name]) (.file content)).resolve path
      = .ok (.below (names ++ [name])) := by
  have hfront : way.foldlM (tree.put (names ++ [name]) (.file content)).follow (start path)
      = .ok (.below names) := foldlM_follow_put hfree hway
  have hlast : [name].foldlM (tree.put (names ++ [name]) (.file content)).follow (.below names)
      = .ok (.below (names ++ [name])) := by
    rw [List.foldlM_cons, follow_put_self hfree hdots hadmits]
    rfl
  -- the names on the way lead to the directory, and the last one to the file
  unfold resolve checkSize
  rw [if_neg (Nat.not_le.mpr hsize), hparts, List.foldlM_append, hfront]
  exact hlast

/-- A file can be written where the names on the way lead to a directory and the last name does
not. -/
theorem writable_of_foldlM {path : FilePath} {way : List Text}
    (hfault : path.fault? = none) (hsize : FilePath.nameSize path.text < pathLimit)
    (hparts : path.parts = way ++ [name])
    (hway : way.foldlM tree.follow (start path) = .ok (.below names)) (hdots : name ≠ "..")
    (hadmits : tree.admits (.below names) name = .ok ())
    (hfree : tree.node? (names ++ [name]) ≠ some .directory) : Writable tree path := by
  refine ⟨hfault, fun content => ⟨tree.put (names ++ [name]) (.file content), ?_, ?_⟩⟩
  · have hlast : path.parts.getLast? = some name := by rw [hparts, List.getLast?_concat]
    have hfront : path.parts.dropLast = way := by rw [hparts, List.dropLast_concat]
    have hchild : Place.child? (.below names) name = some (.below (names ++ [name])) := rfl
    show tree.write path content = _
    simp only [write, checkSize, if_neg (Nat.not_le.mpr hsize), hlast, hfront, hway, hadmits,
      if_neg hdots, hchild, bind, Except.bind, at?]
    -- there is a file at the place already, or there is nothing
    cases hnode : tree.node? (names ++ [name]) with
    | none => rfl
    | some node =>
      cases node with
      | file old => rfl
      | directory => exact absurd hnode hfree
  · have hself : (tree.put (names ++ [name]) (.file content)).at? (.below (names ++ [name]))
        = some (.file content) :=
      node?_put_self (List.append_ne_nil_of_right_ne_nil names (List.cons_ne_nil name []))
    show (tree.put (names ++ [name]) (.file content)).read path = _
    simp only [read, resolve_put hfree hsize hparts hway hdots hadmits, hself, bind, Except.bind]
    rfl

end FileTree

end Provenance
