import LocaleKeys.Proofs.Files.Tree

/-!
# A tree with one more entry

An entry that is added to a tree is seen on the ways to it only. A path that leads down to some
other place leads there as before (`find_extended`), and a walk that starts neither at the entry nor
above it finds the same (`walk?_extended`).
-/

namespace LocaleKeys

namespace Path

theorem LeadsDown.join_name {base : Path} (down : base.LeadsDown) (nonempty : base.chars ≠ [])
    {name : List Char} (entry : IsEntryName name) : (base.join ⟨name⟩).LeadsDown := by
  have relative : (Path.mk name).isAbsolute = false := isAbsolute_of_unbroken entry.unbroken
  constructor
  · rw [isAbsolute_join nonempty relative, down.relative]
  · have trunk : ['.', '.'] ∉ base.trunk := by
      intro up
      apply down.not_up
      rcases segments_eq_trunk base with same | behind
      · rwa [same]
      · rw [behind]
        exact List.mem_append_left _ up
    rw [segments_join nonempty relative, segments_of_unbroken entry.unbroken, List.mem_append,
      List.mem_singleton, not_or]
    exact ⟨trunk, Ne.symm entry.not_up⟩

/-- A way of names behind a path that leads down leads further down. -/
theorem LeadsDown.descend {base : Path} (down : base.LeadsDown) (nonempty : base.chars ≠ [])
    {way : List (List Char)} (names : ∀ name ∈ way, IsEntryName name) :
    (base.descend way).LeadsDown := by
  induction way generalizing base with
  | nil => exact down
  | cons name way ih =>
    rw [List.forall_mem_cons] at names
    exact ih (down.join_name nonempty names.1) (chars_join_ne_nil nonempty _) names.2

theorem LeadsDown.solid_descend {base : Path} (down : base.LeadsDown) (nonempty : base.chars ≠ [])
    {way : List (List Char)} (names : ∀ name ∈ way, IsEntryName name) :
    solid (base.descend way).segments = solid base.segments ++ way := by
  have spelled := FileTree.placeOf_descend .empty base fun name inside => (names name inside).toLeadsOn
  rw [FileTree.placeOf_of_leadsDown _ (down.descend nonempty names),
    FileTree.placeOf_of_leadsDown _ down, solid_eq_self names] at spelled
  exact spelled

end Path

namespace FileTree

open LocaleKeys.Path (solid)

/-- The directories on the way to the working directory are there. -/
theorem isSome_nodeAt?_of_mem_onWayTo {tree : FileTree} {place : Place}
    (h : place ∈ tree.working.onWayTo) : (tree.nodeAt? place).isSome = true := by
  rw [nodeAt?]
  split
  · rfl
  · rw [entries, List.lookup_isSome_iff]
    exact ⟨_, List.mem_append_left _ (List.mem_map_of_mem h), beq_self_eq_true place⟩

/-- No directories are needed for an entry of the working directory. -/
theorem addDirectories_working (tree : FileTree) : tree.addDirectories tree.working = tree := by
  have kept : ∀ place ∈ tree.working.onWayTo, tree.addDirectory place = tree := by
    intro place inside
    rw [addDirectory, if_pos (isSome_nodeAt?_of_mem_onWayTo inside)]
  rw [addDirectories]
  generalize tree.working.onWayTo = places at kept
  induction places with
  | nil => rfl
  | cons place places ih =>
    rw [List.forall_mem_cons] at kept
    rw [List.foldl_cons, kept.1]
    exact ih kept.2

/-- The tree with one more entry. -/
def extended (tree : FileTree) (place : Place) (node : FileNode) : FileTree :=
  { tree with nodes := tree.nodes ++ [(place, node)] }

variable {tree : FileTree} {place : Place} {node : FileNode}

theorem entries_extended : (tree.extended place node).entries = tree.entries ++ [(place, node)] := by
  rw [entries, entries, extended, List.append_assoc]

theorem nodeAt?_extended {other : Place} (h : other ≠ place) :
    (tree.extended place node).nodeAt? other = tree.nodeAt? other := by
  have none : List.lookup other [(place, node)] = none := by
    rw [List.lookup_cons, beq_eq_false_iff_ne.mpr h, List.lookup_nil]
  rw [nodeAt?, nodeAt?, entries_extended, List.lookup_append, none, Option.or_none]

/-- A way that does not come by the new entry is followed as before. -/
theorem follow_extended {start : Place} {found : FileNode} {segments : List (List Char)}
    (on : ∀ segment ∈ segments, LeadsOn segment) (apart : ¬ place <+: start ++ solid segments) :
    (tree.extended place node).follow start found segments = tree.follow start found segments := by
  induction segments generalizing start found with
  | nil => rfl
  | cons segment segments ih =>
    rw [List.forall_mem_cons] at on
    by_cases idle : Path.isIdle segment = true
    · rw [Path.solid_cons_of_idle idle] at apart
      simp only [follow, if_pos idle, ih on.2 apart]
    · have solid_eq := Path.solid_cons_of_not_idle (Bool.eq_false_iff.mpr idle) segments
      rw [solid_eq] at apart
      have whole : start ++ segment :: solid segments = start ++ [segment] ++ solid segments := by
        simp
      rw [whole] at apart
      have other : start ++ [segment] ≠ place := by
        rintro rfl
        exact apart (List.prefix_append _ _)
      have next : ∀ found, (tree.extended place node).follow (start ++ [segment]) found segments
          = tree.follow (start ++ [segment]) found segments :=
        fun _ => ih on.2 apart
      simp only [follow, if_neg idle, if_neg on.1.not_up, nodeAt?_extended other]
      cases tree.nodeAt? (start ++ [segment]) with
      | none => rfl
      | some found' => simp only [next]

/-- A path that leads down, and not by the new entry, leads where it led. -/
theorem find_extended {path : Path} (down : path.LeadsDown)
    (apart : ¬ place <+: tree.placeOf path) :
    (tree.extended place node).find path = tree.find path := by
  rw [placeOf_of_leadsDown _ down] at apart
  have same := @follow_extended tree place node tree.working .directory path.segments
    (fun _ inside => down.leadsOn inside) apart
  have start : (tree.extended place node).origin path = tree.origin path := rfl
  rw [find, find, start, origin_of_relative _ down.relative, same]

theorem isDirectory_extended {path : Path} (down : path.LeadsDown)
    (apart : ¬ place <+: tree.placeOf path) :
    (tree.extended place node).isDirectory path = tree.isDirectory path := by
  rw [isDirectory, isDirectory, find_extended down apart]

theorem read_extended {path : Path} (down : path.LeadsDown) (apart : ¬ place <+: tree.placeOf path) :
    (tree.extended place node).read path = tree.read path := by
  rw [read, read, find_extended down apart]

theorem below_extended {start : Place} (apart : ¬ start <+: place) :
    (tree.extended place node).below start = tree.below start := by
  have way : wayFrom? start place = none := by
    rw [Option.eq_none_iff_forall_ne_some]
    intro way found
    exact apart ⟨way, (wayFrom?_eq_some_iff.mp found).symm⟩
  simp [below, entries_extended, way]

/-- A walk that does not come by the new entry finds what it found. -/
theorem walk?_extended {path : Path} (down : path.LeadsDown)
    (apart : ¬ place <+: tree.placeOf path) (aside : ¬ tree.placeOf path <+: place) :
    (tree.extended place node).walk? path = tree.walk? path := by
  rw [walk?, walk?, find_extended down apart]
  cases found : tree.find path with
  | error _ => rfl
  | ok result =>
    obtain ⟨leads, _⟩ := result
    obtain rfl := placeOf_of_find found
    simp only [below_extended aside]

/-- A walk that does not come by the new entry cannot access what it could not access. -/
theorem accessErrors_extended {path : Path} (down : path.LeadsDown)
    (apart : ¬ place <+: tree.placeOf path) (aside : ¬ tree.placeOf path <+: place) :
    (tree.extended place node).accessErrors path = tree.accessErrors path := by
  rw [accessErrors, accessErrors, find_extended down apart, walk?_extended down apart aside]

end FileTree

end LocaleKeys
