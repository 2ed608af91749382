import HK16.Files.Disk
import Mathlib.Data.List.Basic

/-!
# Files that were written

A file that a tool has written is read back under the same path with the same
text, and files under other names keep theirs. Both follow from what a walk over
the parts of a path meets: directories on the way, and none of them is the file
that was put there. Printing does not touch files. Disks have no links, so
different names are different files.
-/

namespace HK16.Files

namespace Path

/-- A path has a last part, which may be empty. -/
theorem splitFrom_ne_nil (text part : List Char) : splitFrom text part ≠ [] := by
  induction text generalizing part with
  | nil => exact List.cons_ne_nil _ _
  | cons c text ih =>
    rw [splitFrom]
    split
    · exact List.cons_ne_nil _ _
    · exact ih _

theorem exists_split (path : String) : ∃ front name, split path = front ++ [name] := by
  have hsome : split path ≠ [] := by
    rw [split, ne_eq, List.map_eq_nil_iff]
    exact splitFrom_ne_nil _ _
  exact ⟨(split path).dropLast, (split path).getLast hsome,
    (List.dropLast_append_getLast hsome).symm⟩

/-- The file name is the last part of the path, if that one counts and is no step
to the parent. -/
theorem fileName?_of_split {path name : String} {front : List String}
    (h : split path = front ++ [name]) (hempty : name ≠ "") (hdot : name ≠ ".") :
    fileName? path = if name = ".." then none else some name := by
  have hlast : (parts path).getLast? = some name := by
    rw [parts, h, List.filter_append]
    have hkept : [name].filter (fun part => decide (part ≠ "" ∧ part ≠ ".")) = [name] := by
      simp [hempty, hdot]
    rw [hkept, List.getLast?_concat]
  rw [fileName?, hlast]
  by_cases hparent : name = ".."
  · simp [hparent]
  · simp [hparent]

end Path

namespace Disk

variable {disk next : Disk} {path text : String}

/-! ## Nodes -/

/-- Removing what stands at a place leaves nothing there and the rest as it is. -/
theorem lookup_filter_ne (nodes : List (Place × Node)) (place other : Place) :
    (nodes.filter (·.1 ≠ place)).lookup other =
      if other = place then none else nodes.lookup other := by
  induction nodes with
  | nil => rw [List.filter_nil, List.lookup_nil, ite_self]
  | cons first nodes ih =>
    obtain ⟨found, node⟩ := first
    by_cases hfound : found = place
    · rw [List.filter_cons, if_neg (by simpa using hfound), ih]
      by_cases hother : other = place
      · rw [if_pos hother, if_pos hother]
      · have hskip : (other == found) = false := by rwa [beq_eq_false_iff_ne, hfound]
        rw [if_neg hother, if_neg hother, List.lookup_cons, hskip]
    · rw [List.filter_cons, if_pos (by simpa using hfound), List.lookup_cons, List.lookup_cons, ih]
      by_cases hother : other = found
      · have hne : other ≠ place := by rwa [hother]
        rw [beq_iff_eq.mpr hother, if_neg hne, if_neg hne]
      · rw [beq_eq_false_iff_ne.mpr hother]

/-- What is put at a place stands there, and everything else stays. -/
theorem node?_put (disk : Disk) {place : Place} (node : Node) (h : place ≠ []) (other : Place) :
    (disk.put place node).node? other = if other = place then some node else disk.node? other := by
  rw [node?, node?]
  by_cases hroot : other = []
  · have hne : other ≠ place := by
      rw [hroot]
      exact h.symm
    have hempty : other.isEmpty = true := List.isEmpty_iff.mpr hroot
    rw [if_neg hne, if_pos hempty, if_pos hempty]
  · have hsome : ¬other.isEmpty = true := fun hempty => hroot (List.isEmpty_iff.mp hempty)
    rw [if_neg hsome, if_neg hsome, put, List.lookup_append, lookup_filter_ne, List.lookup_cons,
      List.lookup_nil]
    by_cases hother : other = place
    · rw [if_pos hother, if_pos hother, beq_iff_eq.mpr hother, Option.none_or]
    · rw [if_neg hother, if_neg hother, beq_eq_false_iff_ne.mpr hother, Option.or_none]

theorem hasDirectory_iff (disk : Disk) (place : Place) :
    disk.hasDirectory place = true ↔ disk.node? place = some .directory := by
  rw [hasDirectory]
  split
  · next hnode => exact ⟨fun _ => hnode, fun _ => rfl⟩
  · next hnode => exact ⟨fun hfalse => absurd hfalse Bool.false_ne_true, fun h => (hnode h).elim⟩

/-! ## Walks -/

/-- A walk over a longer path goes on from where the first part of it leads. -/
theorem walk_append (disk : Disk) (start : Place) (front back : List String) :
    disk.walk start (front ++ back) =
      (disk.walk start front).bind fun place => disk.walk place back := by
  induction front generalizing start with
  | nil => rfl
  | cons part front ih =>
    rw [List.cons_append, walk, walk]
    split
    · split_ifs
      · exact ih _
      · exact ih _
      · exact ih _
      · rfl
    · rfl
    · rfl

/-- A walk over two paths stops somewhere in between. -/
theorem exists_of_walk_append {start goal : Place} {front back : List String}
    (h : disk.walk start (front ++ back) = .ok goal) :
    ∃ place, disk.walk start front = .ok place ∧ disk.walk place back = .ok goal := by
  rw [walk_append] at h
  cases hfront : disk.walk start front with
  | error refusal =>
    rw [hfront] at h
    cases h
  | ok place =>
    rw [hfront] at h
    exact ⟨place, rfl, h⟩

/-- The last part of a path leads out of a directory: to the place of that name in
it, to its parent, or back to it. -/
theorem walk_singleton {place goal : Place} {name : String}
    (h : disk.walk place [name] = .ok goal) :
    disk.node? place = some .directory ∧
      goal = if name = "" ∨ name = "." then place
        else if name = ".." then place.dropLast else place ++ [name] := by
  simp only [walk] at h
  split at h
  · next hdirectory =>
    refine ⟨hdirectory, ?_⟩
    split_ifs at h ⊢
    · exact (Except.ok.inj h).symm
    · exact (Except.ok.inj h).symm
    · exact (Except.ok.inj h).symm
  · cases h
  · cases h

/-- A file that is put where no directory stands does not stop a walk. -/
theorem walk_put {place start goal : Place} {parts : List String} (content : ByteArray)
    (hplace : place ≠ []) (hfree : disk.hasDirectory place = false)
    (h : disk.walk start parts = .ok goal) :
    (disk.put place (.file content)).walk start parts = .ok goal := by
  induction parts generalizing start with
  | nil => exact h
  | cons part parts ih =>
    rw [walk] at h
    split at h
    · next hdirectory =>
      -- The walk is in a directory, so it is not at the place of the file.
      have hne : start ≠ place := by
        rintro rfl
        rw [(disk.hasDirectory_iff _).mpr hdirectory] at hfree
        cases hfree
      rw [walk, node?_put disk _ hplace, if_neg hne, hdirectory]
      dsimp only
      split_ifs at h ⊢ with hhere hparent hnew hold hold
      · exact ih h
      · exact ih h
      · exact ih h
      · exfalso
        apply hnew
        rw [node?_put disk _ hplace]
        split
        · rfl
        · exact hold
    · cases h
    · cases h

/-- Printing does not change where paths lead. -/
theorem walk_printed (disk : Disk) (printed : String) (start : Place) (parts : List String) :
    (mk disk.nodes disk.here printed).walk start parts = disk.walk start parts := by
  induction parts generalizing start with
  | nil => rfl
  | cons part parts ih =>
    have hnode (place : Place) : (mk disk.nodes disk.here printed).node? place = disk.node? place :=
      rfl
    rw [walk, walk, hnode]
    simp only [hnode, ih]

/-! ## Reading and writing -/

/-- A path that leads to a file with text is read as that text. -/
theorem readText_of_node? {place : Place} {content : ByteArray}
    (hplace : disk.resolve path = .ok place) (hnode : disk.node? place = some (.file content))
    (htext : String.fromUTF8? content = some text) :
    disk.readText path = .ok text := by
  simp only [readText, hplace, hnode, htext, bind, Except.bind]

/-- What is read as text is a file. -/
theorem exists_of_readText (h : disk.readText path = .ok text) :
    ∃ place content, disk.resolve path = .ok place ∧ disk.node? place = some (.file content) ∧
      String.fromUTF8? content = some text := by
  cases hplace : disk.resolve path with
  | error refusal =>
    simp only [readText, hplace, bind, Except.bind] at h
    cases h
  | ok place =>
    simp only [readText, hplace, bind, Except.bind] at h
    split at h
    · next content hnode =>
      split at h
      · next found htext =>
        obtain rfl := Except.ok.inj h
        exact ⟨place, content, rfl, hnode, htext⟩
      · cases h
    · cases h
    · cases h

/-- Printing does not change what files hold. -/
theorem readText_printed (disk : Disk) (printed path : String) :
    (mk disk.nodes disk.here printed).readText path = disk.readText path := by
  have hresolve : (mk disk.nodes disk.here printed).resolve path = disk.resolve path := by
    rw [resolve, resolve, walk_printed]
    rfl
  rw [readText, readText, hresolve]
  rfl

/-- Printing does not change what can be written, nor where. -/
theorem writeText_printed (disk : Disk) (printed path text : String) :
    (mk disk.nodes disk.here printed).writeText path text =
      (disk.writeText path text).map fun next => mk next.nodes next.here printed := by
  have hstart : (mk disk.nodes disk.here printed).startOf path = disk.startOf path := rfl
  have hdirectory (place : Place) :
      (mk disk.nodes disk.here printed).hasDirectory place = disk.hasDirectory place := rfl
  simp only [writeText, walk_printed, hstart, hdirectory]
  split
  · split <;> rfl
  · rfl

/-- A file is written under the last part of its path, in the directory to which
the path leads up to there. -/
theorem exists_of_writeText (h : disk.writeText path text = some next) :
    ∃ front name directory, Path.split path = front ++ [name] ∧
      name ≠ "" ∧ name ≠ "." ∧ name ≠ ".." ∧
      disk.walk (disk.startOf path) front = .ok directory ∧
      disk.node? directory = some .directory ∧
      disk.hasDirectory (directory ++ [name]) = false ∧
      next = disk.put (directory ++ [name]) (.file text.toUTF8) := by
  obtain ⟨front, name, hsplit⟩ := Path.exists_split path
  have hlast : (Path.split path).getLast? = some name := by rw [hsplit, List.getLast?_concat]
  have hfront : (Path.split path).dropLast = front := by rw [hsplit, List.dropLast_concat]
  simp only [writeText, hlast, hfront] at h
  split at h
  · next found directory hname hwalk =>
    obtain rfl := Option.some.inj hname
    split at h
    · cases h
    · next hchecks =>
      simp only [not_or, Bool.not_eq_false, Bool.not_eq_true] at hchecks
      obtain ⟨hempty, hdot, hparent, hdirectory, hfree⟩ := hchecks
      exact ⟨front, name, directory, hsplit, hempty, hdot, hparent, hwalk,
        (disk.hasDirectory_iff _).mp hdirectory, hfree, (Option.some.inj h).symm⟩
  · cases h

/-- The bytes of a text are read as that text. -/
theorem fromUTF8?_toUTF8 (text : String) : String.fromUTF8? text.toUTF8 = some text := by
  unfold String.fromUTF8?
  exact dif_pos text.isValidUTF8

/-- A file that was written is read back. -/
theorem readText_writeText (h : disk.writeText path text = some next) :
    next.readText path = .ok text := by
  obtain ⟨front, name, directory, hsplit, hempty, hdot, hparent, hwalk, hdirectory, hfree, rfl⟩ :=
    exists_of_writeText h
  have hplace : directory ++ [name] ≠ [] := by simp
  have hne : directory ≠ directory ++ [name] := by simp
  have hnode : (disk.put (directory ++ [name]) (.file text.toUTF8)).node? (directory ++ [name]) =
      some (.file text.toUTF8) := by
    rw [node?_put disk _ hplace, if_pos rfl]
  have hpath : path ≠ "" := by
    rintro rfl
    have hlast := congrArg List.getLast? hsplit
    rw [List.getLast?_concat] at hlast
    exact hempty (Option.some.inj hlast).symm
  have hlast : (disk.put (directory ++ [name]) (.file text.toUTF8)).walk directory [name] =
      .ok (directory ++ [name]) := by
    simp only [walk, node?_put disk _ hplace, hne, if_false, hdirectory, hempty, hdot, hparent,
      or_self, if_true, Option.isSome_some]
  refine readText_of_node? ?_ hnode ?_
  · have hstart : (disk.put (directory ++ [name]) (.file text.toUTF8)).startOf path =
        disk.startOf path := rfl
    rw [resolve, if_neg hpath, hsplit, walk_append, hstart, walk_put _ hplace hfree hwalk]
    exact hlast
  · exact fromUTF8?_toUTF8 text

/-- A file that is read stands under the file name of its path. -/
theorem exists_directory_of_resolve {place : Place} {content : ByteArray} {name : String}
    (hplace : disk.resolve path = .ok place) (hnode : disk.node? place = some (.file content))
    (hname : Path.fileName? path = some name) : ∃ directory, place = directory ++ [name] := by
  obtain ⟨front, last, hsplit⟩ := Path.exists_split path
  rw [resolve] at hplace
  split at hplace
  · cases hplace
  · rw [hsplit] at hplace
    obtain ⟨directory, -, hlast⟩ := exists_of_walk_append hplace
    obtain ⟨hdirectory, hgoal⟩ := walk_singleton hlast
    -- An empty last part or a dot would have led to a directory.
    have hcounts : ¬(last = "" ∨ last = ".") := by
      intro hhere
      rw [if_pos hhere] at hgoal
      rw [hgoal, hdirectory] at hnode
      cases hnode
    rw [if_neg hcounts] at hgoal
    rw [not_or] at hcounts
    rw [Path.fileName?_of_split hsplit hcounts.1 hcounts.2] at hname
    split at hname
    · cases hname
    · next hparent =>
      rw [if_neg hparent, Option.some.inj hname] at hgoal
      exact ⟨directory, hgoal⟩

/-- Files under another name keep their text when a file is written. -/
theorem readText_writeText_of_ne {other content name : String}
    (h : disk.writeText path text = some next) (hread : disk.readText other = .ok content)
    (hname : Path.fileName? other = some name) (hne : Path.fileName? path ≠ some name) :
    next.readText other = .ok content := by
  obtain ⟨front, last, directory, hsplit, hempty, hdot, hparent, -, -, hfree, rfl⟩ :=
    exists_of_writeText h
  obtain ⟨place, bytes, hplace, hnode, htext⟩ := exists_of_readText hread
  obtain ⟨parent, rfl⟩ := exists_directory_of_resolve hplace hnode hname
  have hwritten : directory ++ [last] ≠ [] := by simp
  have hother : parent ++ [name] ≠ directory ++ [last] := by
    intro heq
    have hlast := congrArg List.getLast? heq
    rw [List.getLast?_concat, List.getLast?_concat] at hlast
    apply hne
    rw [Path.fileName?_of_split hsplit hempty hdot, if_neg hparent, hlast]
  have hkept : (disk.put (directory ++ [last]) (.file text.toUTF8)).node? (parent ++ [name]) =
      some (.file bytes) := by
    rw [node?_put disk _ hwritten, if_neg hother, hnode]
  refine readText_of_node? ?_ hkept htext
  rw [resolve] at hplace ⊢
  split at hplace
  · cases hplace
  · next hpath =>
    rw [if_neg hpath]
    exact walk_put _ hwritten hfree hplace

end Disk

end HK16.Files
