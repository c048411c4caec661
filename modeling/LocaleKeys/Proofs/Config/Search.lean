import LocaleKeys.Config.Search
import LocaleKeys.Proofs.Files.Tree

/-!
# The configuration nearest to a directory

The search looks into the directories that a path leads to and that what is left of it leads to. To
take a name off a path is to go up; to take `..` off is to go down again. So the search passes every
directory above the one where it starts (`endsAt_find?_ancestorsUpTo`), but may end in between in one
that is not above it. It finds the nearest configuration just if it does not
(`find?_nearest_iff`), and never does without `..` (`staysAbove_of_leadsDown`).
-/

namespace LocaleKeys.Config

open FileTree

/-! ## What to find -/

/-- The directory at a place has an entry of this name. -/
def HasEntry (tree : FileTree) (place : Place) (name : String) : Prop :=
  (tree.nodeAt? (place ++ [name.toList])).isSome = true

instance (tree : FileTree) (place : Place) (name : String) :
    Decidable (HasEntry tree place name) :=
  inferInstanceAs (Decidable (_ = true))

/-- The search goes no further than the directory at a place. -/
def Stops (tree : FileTree) (place : Place) : Prop :=
  HasEntry tree place fileName ∨ HasEntry tree place repositoryMark

/-- The place is that of a directory or of one above it, no further up than the working directory. -/
structure Above (tree : FileTree) (directory place : Place) : Prop where
  within : tree.working <+: place
  above : place <+: directory

/-- A place at or above a directory has a configuration, and no place between them has one or holds
the repository. -/
structure Nearest (tree : FileTree) (directory place : Place) : Prop
    extends Above tree directory place where
  configured : HasEntry tree place fileName
  first : ∀ nearer, nearer <+: directory → place <+: nearer → nearer ≠ place → ¬ Stops tree nearer

/-- The outcome of a search is the file of the nearest configuration, or there is none. -/
def IsNearest (tree : FileTree) (directory : Place) : Option Path → Prop
  | some file => ∃ place node, Nearest tree directory place ∧
      tree.find file = .ok (place ++ [fileName.toList], node)
  | none => ∀ place, ¬ Nearest tree directory place

/-- No place at or above the directory stops the search, except those that are also at or above the
other place. -/
def Passed (tree : FileTree) (directory place : Place) : Prop :=
  ∀ other, other <+: directory → ¬ other <+: place → ¬ Stops tree other

variable {tree : FileTree} {directory place : Place}

theorem Passed.nearest (passed : Passed tree directory place) (above : Above tree directory place)
    (configured : HasEntry tree place fileName) : Nearest tree directory place := by
  refine ⟨above, configured, fun nearer before behind other => passed nearer before fun inner => ?_⟩
  exact other (inner.eq_of_length_le behind.length_le)

theorem Passed.above_of_nearest (passed : Passed tree directory place) {other : Place}
    (nearest : Nearest tree directory other) : other <+: place := by
  by_contra outside
  exact passed other nearest.above outside (.inl nearest.configured)

theorem Passed.not_nearest_of_mark (passed : Passed tree directory place)
    (above : place <+: directory) (bare : ¬ HasEntry tree place fileName)
    (mark : HasEntry tree place repositoryMark) (other : Place) : ¬ Nearest tree directory other := by
  intro nearest
  by_cases same : place = other
  · exact bare (same ▸ nearest.configured)
  · exact nearest.first place above (passed.above_of_nearest nearest) same (.inr mark)

/-- A step up passes what it leaves; a step down passes nothing. -/
theorem Passed.step (passed : Passed tree directory place) (clear : ¬ Stops tree place)
    {next : Place} (h : place <+: next ∨ ∃ name, place = next ++ [name]) :
    Passed tree directory next := by
  intro other above outside
  rcases h with down | ⟨name, up⟩
  · exact passed other above fun inner => outside (inner.trans down)
  · by_cases inner : other <+: place
    · rw [up, List.prefix_concat_iff] at inner
      rcases inner with same | before
      · rw [← up] at same
        exact same ▸ clear
      · exact absurd before outside
    · exact passed other above inner

/-- Nothing is left to be found when the working directory is passed. -/
theorem Passed.not_nearest_of_working (passed : Passed tree directory tree.working)
    (clear : ¬ Stops tree tree.working) (other : Place) : ¬ Nearest tree directory other := by
  intro nearest
  have same : other = tree.working :=
    (passed.above_of_nearest nearest).eq_of_length_le nearest.within.length_le
  exact clear (.inl (same ▸ nearest.configured))

/-! ## Where the search looks -/

/-- The names that are looked up. -/
theorem isEntryName_of_lookedUp {name : String} (h : name = fileName ∨ name = repositoryMark) :
    IsEntryName name.toList ∧ byteCount name.toList ≤ byteCount fileName.toList ∧
      '\x00' ∉ name.toList := by
  rcases h with rfl | rfl
  · exact ⟨⟨⟨by decide, by decide⟩, by decide⟩, le_refl _, by decide⟩
  · exact ⟨⟨⟨by decide, by decide⟩, by decide⟩, by decide, by decide⟩

/-- The path leads from the working directory to a directory, and is short enough to look up names in
it. -/
structure LeadsTo (tree : FileTree) (path : Path) (place : Place) : Prop where
  relative : path.isAbsolute = false
  readable : '\x00' ∉ path.chars
  fits : isTooLong (path.join (.ofText fileName)) = false
  leads : tree.follow tree.working .directory path.segments = .ok (place, .directory)

variable {path : Path}

theorem LeadsTo.find_join (h : LeadsTo tree path place) {name : String}
    (lookedUp : name = fileName ∨ name = repositoryMark) :
    tree.find (path.join (.ofText name)) =
      match tree.nodeAt? (place ++ [name.toList]) with
      | none => .error .notFound
      | some node => .ok (place ++ [name.toList], node) := by
  obtain ⟨entry, short, readable⟩ := isEntryName_of_lookedUp lookedUp
  have relative : ∀ {name}, IsEntryName name → (Path.mk name).isAbsolute = false :=
    fun entry => Path.isAbsolute_of_unbroken entry.unbroken
  have shorter := @byteCount_join_le path ⟨name.toList⟩ (.ofText fileName) (relative entry)
    (relative (isEntryName_of_lookedUp (.inl rfl)).1) short
  have leads := h.leads
  rw [← origin_of_relative tree h.relative] at leads
  refine FileTree.find_join leads entry (short.trans (by decide)) (fun nul => ?_) ?_
  · rcases Path.mem_join nul with before | slash | behind
    · exact h.readable before
    · exact absurd slash (by decide)
    · exact readable behind
  · exact isTooLong_eq_false_iff.mpr (shorter.trans (isTooLong_eq_false_iff.mp h.fits))

theorem LeadsTo.contains_join_iff (h : LeadsTo tree path place) {name : String}
    (lookedUp : name = fileName ∨ name = repositoryMark) :
    tree.contains (path.join (.ofText name)) = true ↔ HasEntry tree place name := by
  rw [contains, h.find_join lookedUp, HasEntry]
  cases tree.nodeAt? (place ++ [name.toList]) <;> simp [Except.isOk, Except.toBool]

theorem LeadsTo.placeOf_eq (h : LeadsTo tree path place) : tree.placeOf path = place := by
  rw [FileTree.placeOf_eq, origin_of_relative tree h.relative]
  exact (place_of_follow h.leads).symm

theorem leadsTo_of_find {start : Path} (relative : start.isAbsolute = false)
    (found : tree.find start = .ok (place, .directory))
    (fits : isTooLong (start.join (.ofText fileName)) = false) : LeadsTo tree start place := by
  obtain ⟨readable, nonempty, -, leads⟩ := find_eq_ok_iff.mp found
  rw [origin_of_relative tree relative] at leads
  exact ⟨relative, readable, fits, leads⟩

/-- To take a part off a path is to go up, or down again if the part is `..`. -/
theorem LeadsTo.exists_parent (h : LeadsTo tree path place) (nonempty : path.chars ≠ []) :
    ∃ parent place', path.parent? = some parent ∧ LeadsTo tree parent place' ∧
      parent.chars.length < path.chars.length ∧
      (place <+: place' ∨ ∃ name, place = place' ++ [name]) := by
  obtain ⟨parent, last, taken, begins, other, parts, few⟩ :=
    Path.exists_parent?_eq_some nonempty h.relative
  have solid := follow_solid.mpr h.leads
  rw [parts] at solid
  obtain ⟨middle, leads, step⟩ := exists_follow_of_append solid
  rw [follow_solid] at leads
  have moved : place <+: middle ∨ ∃ name, place = middle ++ [name] := by
    have moved := place_of_follow step
    cases last with
    | nil => exact .inl (moved ▸ List.prefix_refl _)
    | cons segment none =>
      obtain rfl : none = [] := List.eq_nil_of_length_eq_zero (by simpa using few)
      rw [moved]
      exact (Place.prefix_or_eq_of_go middle segment).imp_right fun down => ⟨segment, down⟩
  refine ⟨parent, middle, taken, ⟨Path.isAbsolute_of_begins begins h.relative,
    fun nul => h.readable (begins.subset nul), ?_, leads⟩, ?_, moved⟩
  · have single : (Path.ofText fileName).isAbsolute = false := by decide
    have shorter := byteCount_join_le_of_begins single begins other
    exact isTooLong_eq_false_iff.mpr (shorter.trans (isTooLong_eq_false_iff.mp h.fits))
  · exact lt_of_le_of_ne begins.length_le fun same => other (begins.eq_of_length same)

theorem LeadsTo.place_eq_working (h : LeadsTo tree path place) (empty : path.chars = []) :
    place = tree.working := by
  have spelled := h.placeOf_eq
  obtain ⟨chars⟩ := path
  subst empty
  exact spelled.symm

/-! ## The search -/

/-- The search looks no further than the directory that a path leads to. -/
def stops (tree : FileTree) (path : Path) : Bool :=
  tree.contains (path.join (.ofText fileName)) || tree.contains (path.join (.ofText repositoryMark))

theorem LeadsTo.stops_iff (h : LeadsTo tree path place) :
    stops tree path = true ↔ Stops tree place := by
  rw [stops, Bool.or_eq_true, h.contains_join_iff (.inl rfl), h.contains_join_iff (.inr rfl), Stops]

theorem searchIn_eq (tree : FileTree) (paths : List Path) :
    searchIn tree paths = match paths.find? (stops tree) with
      | none => none
      | some path =>
        if tree.contains (path.join (.ofText fileName)) then some (path.join (.ofText fileName))
        else none := by
  induction paths with
  | nil => rfl
  | cons path paths ih =>
    rw [searchIn, List.find?_cons]
    by_cases config : tree.contains (path.join (.ofText fileName)) = true
    · simp [stops, config]
    · by_cases mark : tree.contains (path.join (.ofText repositoryMark)) = true
      · simp [stops, config, mark]
      · simp [stops, config, mark, ih]

/-- How a search ends: at the first directory that stops it, all that is above the directory where it
started and not above this one passed, or with nothing to find. -/
def EndsAt (tree : FileTree) (directory : Place) : Option Path → Prop
  | some last => ∃ place, LeadsTo tree last place ∧ Stops tree place ∧ Passed tree directory place
  | none => ∀ place, ¬ Nearest tree directory place

/-- One directory of the search, and what comes of the others. -/
theorem endsAt_find?_cons {above : List Path} (h : LeadsTo tree path place)
    (passed : Passed tree directory place)
    (rest : ¬ Stops tree place → EndsAt tree directory (above.find? (stops tree))) :
    EndsAt tree directory ((path :: above).find? (stops tree)) := by
  by_cases stop : Stops tree place
  · rw [List.find?_cons_of_pos (h.stops_iff.mpr stop)]
    exact ⟨place, h, stop, passed⟩
  · rw [List.find?_cons_of_neg (mt h.stops_iff.mp stop)]
    exact rest stop

/-- The search ends at the working directory, where the empty path leads. -/
theorem endsAt_find?_singleton (h : LeadsTo tree path place) (empty : path.chars = [])
    (passed : Passed tree directory place) :
    EndsAt tree directory ([path].find? (stops tree)) := by
  obtain rfl := h.place_eq_working empty
  exact endsAt_find?_cons h passed passed.not_nearest_of_working

theorem endsAt_find?_ancestorsUpTo {n : Nat} (enough : path.chars.length ≤ n)
    (h : LeadsTo tree path place) (passed : Passed tree directory place) :
    EndsAt tree directory ((ancestorsUpTo n path).find? (stops tree)) := by
  induction n generalizing path place with
  | zero =>
    exact endsAt_find?_singleton h (List.eq_nil_of_length_eq_zero (Nat.le_zero.mp enough)) passed
  | succ n ih =>
    by_cases empty : path.chars = []
    · have last : ancestorsUpTo (n + 1) path = [path] := by
        obtain ⟨chars⟩ := path
        subst empty
        rfl
      rw [last]
      exact endsAt_find?_singleton h empty passed
    · obtain ⟨parent, place', taken, leads, shorter, moved⟩ := h.exists_parent empty
      rw [ancestorsUpTo, taken]
      exact endsAt_find?_cons h passed fun clear => ih (by omega) leads (passed.step clear moved)

/-- The first directory that stops the search is at or above the one where it starts, or else there
is nothing to be found in it or above. -/
def StaysAbove (tree : FileTree) (start : Path) (directory : Place) : Prop :=
  ∀ path, (ancestors start).find? (stops tree) = some path →
    Above tree directory (tree.placeOf path) ∨
      (¬ HasEntry tree (tree.placeOf path) fileName ∧ ∀ other, ¬ Nearest tree directory other)

/-- What is found where a search ends is the nearest configuration just if that is at or above the
directory where it started, or there is nothing to find. -/
theorem isNearest_iff_of_stop (leads : LeadsTo tree path place) (stop : Stops tree place)
    (passed : Passed tree directory place) :
    IsNearest tree directory
        (if tree.contains (path.join (.ofText fileName)) then some (path.join (.ofText fileName))
          else none) ↔
      Above tree directory place ∨
        (¬ HasEntry tree place fileName ∧ ∀ other, ¬ Nearest tree directory other) := by
  have config := leads.contains_join_iff (.inl rfl)
  by_cases configured : HasEntry tree place fileName
  · obtain ⟨node, stored⟩ := Option.isSome_iff_exists.mp configured
    have at_file := leads.find_join (.inl rfl)
    rw [stored] at at_file
    rw [if_pos (config.mpr configured)]
    constructor
    · rintro ⟨place', node', nearest, found⟩
      have same := Except.ok.inj (at_file.symm.trans found)
      simp only [Prod.mk.injEq, List.append_cancel_right_eq] at same
      rw [same.1]
      exact .inl nearest.toAbove
    · rintro (above | ⟨bare, -⟩)
      · exact ⟨place, node, passed.nearest above configured, at_file⟩
      · exact absurd configured bare
  · rw [if_neg (mt config.mp configured)]
    constructor
    · intro nothing
      exact .inr ⟨configured, nothing⟩
    · rintro (above | ⟨-, nothing⟩)
      · exact passed.not_nearest_of_mark above.above configured (stop.resolve_left configured)
      · exact nothing

/-- The search by a relative path finds the nearest configuration at or above the directory that the
path leads to, no further up than the working directory, just if it stays above that directory. -/
theorem find?_nearest_iff {start : Path} (relative : start.isAbsolute = false)
    (found : tree.find start = .ok (directory, .directory))
    (fits : isTooLong (start.join (.ofText fileName)) = false) :
    IsNearest tree directory (find? tree start) ↔ StaysAbove tree start directory := by
  have ends : EndsAt tree directory ((ancestors start).find? (stops tree)) :=
    endsAt_find?_ancestorsUpTo (Nat.le_refl _) (leadsTo_of_find relative found fits)
      fun other above outside => absurd above outside
  rw [find?, searchIn_eq]
  cases first : (ancestors start).find? (stops tree) with
  | none =>
    rw [first] at ends
    refine iff_of_true ends fun path first' => ?_
    exact absurd (first.symm.trans first') (by simp)
  | some last =>
    rw [first] at ends
    obtain ⟨place, leads, stop, passed⟩ := ends
    refine (isNearest_iff_of_stop leads stop passed).trans ⟨fun above path first' => ?_,
      fun stays => leads.placeOf_eq ▸ stays last first⟩
    obtain rfl := Option.some.inj (first.symm.trans first')
    exact leads.placeOf_eq ▸ above

/-- A path that leads up to the parent of a directory, and then a part that is taken off. -/
theorem find?_nearest_iff_up :
    let tree := (FileTree.empty.write ⟨"a/.l10nscanrc.json".toList⟩ (.text "{ }".toList)).write
      ⟨"a/b/c".toList⟩ (.text [])
    tree.find ⟨"a/b/..".toList⟩ = .ok (["a".toList], .directory) ∧
      find? tree ⟨"a/b/..".toList⟩ = some ⟨"a/b/../.l10nscanrc.json".toList⟩ ∧
      IsNearest tree ["a".toList] (find? tree ⟨"a/b/..".toList⟩) := by
  intro tree
  have first : (ancestors ⟨"a/b/..".toList⟩).find? (stops tree) = some ⟨"a/b/..".toList⟩ := by decide
  have found : tree.find ⟨"a/b/..".toList⟩ = .ok (["a".toList], .directory) := by decide
  refine ⟨found, by decide, (find?_nearest_iff (by decide) found (by decide)).mpr ?_⟩
  intro path first'
  obtain rfl := Option.some.inj (first.symm.trans first')
  rw [placeOf_of_find found]
  exact .inl ⟨List.nil_prefix, List.prefix_refl _⟩

/-- To take `..` off a path is to go down again: the directory is the working directory, and the
configuration found is that of a directory below. -/
theorem find?_below :
    let tree := FileTree.empty.write ⟨"a/.l10nscanrc.json".toList⟩ (.text "{ }".toList)
    tree.find ⟨"a/..".toList⟩ = .ok ([], .directory) ∧
      find? tree ⟨"a/..".toList⟩ = some ⟨"a/.l10nscanrc.json".toList⟩ ∧
      (∀ place, ¬ Nearest tree [] place) ∧ ¬ IsNearest tree [] (find? tree ⟨"a/..".toList⟩) := by
  intro tree
  have found : find? tree ⟨"a/..".toList⟩ = some ⟨"a/.l10nscanrc.json".toList⟩ := by decide
  have nothing : ∀ place, ¬ Nearest tree [] place := by
    intro place nearest
    have configured := nearest.configured
    rw [List.prefix_nil.mp nearest.above] at configured
    exact absurd configured (by decide)
  refine ⟨by decide, found, nothing, ?_⟩
  rw [found]
  rintro ⟨place, node, nearest, -⟩
  exact nothing place nearest

/-! ## Paths without `..` -/

/-- What is left of a path that leads down leads to places at or above where it leads. -/
theorem leadsDown_of_mem_ancestorsUpTo {n : Nat} {ancestor : Path} (down : path.LeadsDown)
    (h : ancestor ∈ ancestorsUpTo n path) :
    ancestor.LeadsDown ∧ Path.solid ancestor.segments <+: Path.solid path.segments := by
  induction n generalizing path with
  | zero =>
    obtain rfl := List.mem_singleton.mp h
    exact ⟨down, List.prefix_refl _⟩
  | succ n ih =>
    rw [ancestorsUpTo] at h
    cases taken : path.parent? with
    | none =>
      rw [taken] at h
      obtain rfl := List.mem_singleton.mp h
      exact ⟨down, List.prefix_refl _⟩
    | some parent =>
      rw [taken] at h
      rcases List.mem_cons.mp h with rfl | above
      · exact ⟨down, List.prefix_refl _⟩
      · obtain ⟨parent_down, before⟩ := down.parent taken
        obtain ⟨ancestor_down, before'⟩ := ih parent_down above
        exact ⟨ancestor_down, before'.trans before⟩

theorem staysAbove_of_leadsDown {start : Path} (down : start.LeadsDown) :
    StaysAbove tree start (tree.placeOf start) := by
  intro path first
  obtain ⟨path_down, before⟩ :=
    leadsDown_of_mem_ancestorsUpTo down (List.mem_of_find?_eq_some first)
  rw [placeOf_of_leadsDown _ down, placeOf_of_leadsDown _ path_down]
  exact .inl ⟨List.prefix_append .., (List.prefix_append_right_inj _).mpr before⟩

end LocaleKeys.Config
