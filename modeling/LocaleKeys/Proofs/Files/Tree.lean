import LocaleKeys.Files.Tree
import LocaleKeys.Proofs.Files.Path

/-!
# Where paths lead

In a tree without links the parts of a path say where it leads, whatever the tree holds
(`placeOf_of_find`). An entry of a directory is found under the path of the directory and its
name (`find_join`). A walk spells what it finds by the entry names on the way
(`exists_way_of_mem_walk?`), so what it finds is that much further down.
-/

namespace LocaleKeys

namespace Place

/-- Where a part of a path leads. -/
def go (place : Place) (segment : List Char) : Place :=
  if Path.isIdle segment then place
  else if segment = ['.', '.'] then place.dropLast
  else place ++ [segment]

theorem go_of_not_idle {segment : List Char} (h : Path.isIdle segment = false) (place : Place) :
    place.go segment = place.step (Path.componentOf segment) := by
  rw [go, if_neg (by simp [h]), Path.componentOf]
  split <;> rfl

/-- A part of a path leads up at most, or down to an entry. -/
theorem prefix_or_eq_of_go (place : Place) (segment : List Char) :
    place.go segment <+: place ∨ place.go segment = place ++ [segment] := by
  unfold go
  split
  · exact .inl (List.prefix_refl _)
  · split
    · exact .inl (List.dropLast_prefix _)
    · exact .inr rfl

/-- Parts that do not lead up lead along their names. -/
theorem foldl_go_of_leadsOn {segments : List (List Char)}
    (h : ∀ segment ∈ segments, LeadsOn segment) (place : Place) :
    segments.foldl go place = place ++ Path.solid segments := by
  induction segments generalizing place with
  | nil => exact (List.append_nil _).symm
  | cons segment segments ih =>
    rw [List.forall_mem_cons] at h
    rw [List.foldl_cons, ih h.2]
    by_cases idle : Path.isIdle segment = true
    · rw [go, if_pos idle, Path.solid_cons_of_idle idle]
    · rw [go, if_neg idle, if_neg h.1.not_up,
        Path.solid_cons_of_not_idle (by simpa using idle), List.append_assoc]
      rfl

theorem foldl_go (place : Place) (segments : List (List Char)) :
    segments.foldl go place = ((Path.solid segments).map Path.componentOf).foldl step place := by
  induction segments generalizing place with
  | nil => rfl
  | cons segment segments ih =>
    rw [List.foldl_cons, ih]
    by_cases idle : Path.isIdle segment = true
    · rw [go, if_pos idle, Path.solid_cons_of_idle idle]
    · rw [Bool.not_eq_true] at idle
      rw [go_of_not_idle idle, Path.solid_cons_of_not_idle idle]
      rfl

theorem foldl_step_name (place : Place) (names : List (List Char)) :
    (names.map .name).foldl step place = place ++ names := by
  induction names generalizing place with
  | nil => exact (List.append_nil _).symm
  | cons name names ih =>
    rw [List.map_cons, List.foldl_cons, ih, List.append_cons]
    rfl

end Place

namespace FileTree

/-- The names in a tree are names that entries can have. -/
def WellNamed (tree : FileTree) : Prop :=
  ∀ item ∈ tree.entries, ∀ name ∈ item.1, IsEntryName name

/-! ## The place that a path spells -/

section Spelled

variable (tree : FileTree)

theorem origin_join {base path : Path} (nonempty : base.chars ≠ [])
    (relative : path.isAbsolute = false) : tree.origin (base.join path) = tree.origin base := by
  rw [origin, Path.isAbsolute_join nonempty relative, origin]

theorem origin_of_relative {path : Path} (relative : path.isAbsolute = false) :
    tree.origin path = tree.working :=
  if_neg (by simp [relative])

theorem placeOf_empty : tree.placeOf ⟨[]⟩ = tree.working := rfl

theorem placeOf_eq (path : Path) :
    tree.placeOf path = path.segments.foldl Place.go (tree.origin path) := by
  have start : path.lead.foldl Place.step tree.working = tree.origin path := by
    rw [Path.lead, origin]
    split
    · rfl
    · split <;> rfl
  rw [placeOf, Path.components_eq, List.foldl_append, start, Place.foldl_go]

theorem foldl_go_trunk (path : Path) (place : Place) :
    path.trunk.foldl Place.go place = path.segments.foldl Place.go place := by
  rw [Place.foldl_go, Place.foldl_go, Path.solid_trunk]

theorem foldl_go_stem (path : Path) (place : Place) :
    path.stem.foldl Place.go place = path.segments.foldl Place.go place := by
  rw [Place.foldl_go, Place.foldl_go, Path.solid_stem]

theorem placeOf_join (base : Path) {path : Path} (relative : path.isAbsolute = false) :
    tree.placeOf (base.join path) = path.segments.foldl Place.go (tree.placeOf base) := by
  by_cases empty : base.chars = []
  · obtain ⟨chars⟩ := base
    subst empty
    rw [Path.join_empty, placeOf_empty, placeOf_eq, origin_of_relative _ relative]
  · rw [placeOf_eq, placeOf_eq, origin_join _ empty relative, Path.segments_join empty relative,
      List.foldl_append, foldl_go_trunk]

theorem placeOf_of_leadsDown {path : Path} (down : path.LeadsDown) :
    tree.placeOf path = tree.working ++ Path.solid path.segments := by
  rw [placeOf_eq, origin_of_relative _ down.relative,
    Place.foldl_go_of_leadsOn fun _ h => down.leadsOn h]

theorem placeOf_descend (base : Path) {segments : List (List Char)}
    (h : ∀ segment ∈ segments, LeadsOn segment) :
    tree.placeOf (base.descend segments) = tree.placeOf base ++ Path.solid segments := by
  induction segments generalizing base with
  | nil => exact (List.append_nil _).symm
  | cons segment segments ih =>
    rw [List.forall_mem_cons] at h
    rw [Path.descend_cons, ih _ h.2, placeOf_join _ _ (Path.isAbsolute_of_unbroken h.1.unbroken),
      Path.segments_of_unbroken h.1.unbroken,
      Place.foldl_go_of_leadsOn (by simpa using h.1), List.append_assoc, ← Path.solid_append]
    rfl

end Spelled

/-! ## Following a path -/

/-- A path that goes on behind another one is followed from where that one leads. -/
theorem follow_append (tree : FileTree) (front back : List (List Char)) (place : Place)
    (node : FileNode) :
    tree.follow place node (front ++ back) =
      match tree.follow place node front with
      | .error e => .error e
      | .ok (place', node') => tree.follow place' node' back := by
  induction front generalizing place node with
  | nil => rfl
  | cons segment front ih =>
    rw [List.cons_append, follow, follow]
    by_cases file : node ≠ .directory
    · simp only [if_pos file]
    · by_cases idle : Path.isIdle segment = true
      · simp only [if_neg file, if_pos idle, ih]
      · by_cases up : segment = ['.', '.']
        · simp only [if_neg file, if_neg idle, if_pos up, ih]
        · by_cases long : nameLimit < byteCount segment
          · simp only [if_neg file, if_neg idle, if_neg up, if_pos long]
          · simp only [if_neg file, if_neg idle, if_neg up, if_neg long]
            cases tree.nodeAt? (place ++ [segment]) with
            | none => rfl
            | some found => exact ih (place ++ [segment]) found

/-- A part that leads somewhere leads from a directory to where it says. -/
theorem follow_singleton {tree : FileTree} {segment : List Char} {place place' : Place}
    {node node' : FileNode} (h : tree.follow place node [segment] = .ok (place', node')) :
    node = .directory ∧ place' = place.go segment := by
  rw [follow] at h
  by_cases file : node ≠ .directory
  · rw [if_pos file] at h
    exact absurd h (by simp)
  · refine ⟨Decidable.not_not.mp file, ?_⟩
    rw [if_neg file] at h
    rw [Place.go]
    by_cases idle : Path.isIdle segment = true
    · rw [if_pos idle] at h ⊢
      cases h
      rfl
    · rw [if_neg idle] at h ⊢
      by_cases up : segment = ['.', '.']
      · rw [if_pos up] at h ⊢
        cases h
        rfl
      · rw [if_neg up] at h ⊢
        by_cases long : nameLimit < byteCount segment
        · rw [if_pos long] at h
          exact absurd h (by simp)
        · rw [if_neg long] at h
          cases entry : tree.nodeAt? (place ++ [segment]) with
          | none => simp [entry] at h
          | some found =>
            rw [entry] at h
            cases h
            rfl

theorem place_of_follow {tree : FileTree} {segments : List (List Char)} {place place' : Place}
    {node node' : FileNode} (h : tree.follow place node segments = .ok (place', node')) :
    place' = segments.foldl Place.go place := by
  induction segments generalizing place node with
  | nil =>
    cases h
    rfl
  | cons segment segments ih =>
    rw [← List.singleton_append, follow_append] at h
    cases first : tree.follow place node [segment] with
    | error e => simp [first] at h
    | ok next =>
      rw [first] at h
      rw [List.foldl_cons, ← (follow_singleton first).2]
      exact ih h

/-- What is needed to follow a path at all. -/
theorem find_eq_ok_iff {tree : FileTree} {path : Path} {found : Place × FileNode} :
    tree.find path = .ok found ↔
      '\x00' ∉ path.chars ∧ path.chars ≠ [] ∧ isTooLong path = false ∧
        tree.follow (tree.origin path) .directory path.segments = .ok found := by
  rw [find]
  by_cases nul : '\x00' ∈ path.chars
  · simp [nul]
  · by_cases empty : path.chars = []
    · simp [empty]
    · by_cases long : isTooLong path = true
      · simp [nul, empty, long]
      · simp [nul, empty, long]

/-- A path with a slash at its end leads to a directory. -/
theorem getLast?_ne_of_file {tree : FileTree} {path : Path} {place : Place} {content : Content}
    (h : tree.find path = .ok (place, .file content)) : path.chars.getLast? ≠ some '/' := by
  intro slash
  obtain ⟨front, parts, -⟩ := Path.segments_of_slash slash
  have followed := (find_eq_ok_iff.mp h).2.2.2
  rw [parts, follow_append] at followed
  cases before : tree.follow (tree.origin path) .directory front.segments with
  | error e => simp [before] at followed
  | ok result =>
    rw [before] at followed
    have directory := (follow_singleton followed).1
    simp [follow, directory, Path.isIdle] at followed

theorem placeOf_of_find {tree : FileTree} {path : Path} {place : Place} {node : FileNode}
    (h : tree.find path = .ok (place, node)) : tree.placeOf path = place := by
  rw [placeOf_eq]
  exact (place_of_follow (find_eq_ok_iff.mp h).2.2.2).symm

theorem nonempty_of_find {tree : FileTree} {path : Path} {found : Place × FileNode}
    (h : tree.find path = .ok found) : path.chars ≠ [] :=
  (find_eq_ok_iff.mp h).2.1

/-- Nothing follows behind a file. -/
theorem follow_file_ne (tree : FileTree) (place place' : Place) (content : Content)
    (segments : List (List Char)) :
    tree.follow place (.file content) segments ≠ .ok (place', .directory) := by
  cases segments with
  | nil => simp [follow]
  | cons => simp [follow]

/-- Idle parts do not matter on the way to a directory. -/
theorem follow_solid {tree : FileTree} {place place' : Place} {node : FileNode}
    {segments : List (List Char)} :
    tree.follow place node (Path.solid segments) = .ok (place', .directory) ↔
      tree.follow place node segments = .ok (place', .directory) := by
  cases node with
  | file content => simp only [follow_file_ne]
  | directory =>
    induction segments generalizing place with
    | nil => rfl
    | cons segment segments ih =>
      by_cases idle : Path.isIdle segment = true
      · rw [Path.solid_cons_of_idle idle, ih]
        simp [follow, idle]
      · rw [Path.solid_cons_of_not_idle (by simpa using idle),
          ← List.singleton_append, ← @List.singleton_append _ segment segments, follow_append,
          follow_append]
        cases first : tree.follow place .directory [segment] with
        | error e => rfl
        | ok next =>
          obtain ⟨middle, node'⟩ := next
          cases node' with
          | file content => simp only [follow_file_ne]
          | directory => exact ih

/-- What a path that leads to a directory begins with leads to a directory as well. -/
theorem exists_follow_of_append {tree : FileTree} {place place' : Place}
    {front back : List (List Char)}
    (h : tree.follow place .directory (front ++ back) = .ok (place', .directory)) :
    ∃ middle, tree.follow place .directory front = .ok (middle, .directory) ∧
      tree.follow middle .directory back = .ok (place', .directory) := by
  rw [follow_append] at h
  cases first : tree.follow place .directory front with
  | error e => simp [first] at h
  | ok next =>
    obtain ⟨middle, node⟩ := next
    rw [first] at h
    cases node with
    | file content => exact (follow_file_ne _ _ _ _ _ h).elim
    | directory => exact ⟨middle, rfl, h⟩

/-- An entry of a directory is found under the path of the directory and its name. -/
theorem find_join {tree : FileTree} {path : Path} {place : Place}
    (leads : tree.follow (tree.origin path) .directory path.segments = .ok (place, .directory))
    {name : List Char} (entry : IsEntryName name) (short : byteCount name ≤ nameLimit)
    (readable : '\x00' ∉ (path.join ⟨name⟩).chars) (fits : isTooLong (path.join ⟨name⟩) = false) :
    tree.find (path.join ⟨name⟩) =
      match tree.nodeAt? (place ++ [name]) with
      | none => .error .notFound
      | some node => .ok (place ++ [name], node) := by
  have single : (Path.mk name).isAbsolute = false := Path.isAbsolute_of_unbroken entry.unbroken
  have parts : (Path.mk name).segments = [name] := Path.segments_of_unbroken entry.unbroken
  have last : tree.follow place .directory [name] =
      match tree.nodeAt? (place ++ [name]) with
      | none => .error .notFound
      | some node => .ok (place ++ [name], node) := by
    cases found : tree.nodeAt? (place ++ [name]) with
    | none => simp [follow, entry.not_idle, entry.not_up, Nat.not_lt.mpr short, found]
    | some node => simp [follow, entry.not_idle, entry.not_up, Nat.not_lt.mpr short, found]
  rw [← last, find, if_neg (by simpa using readable)]
  by_cases empty : path.chars = []
  · obtain ⟨chars⟩ := path
    subst empty
    cases leads
    rw [Path.join_empty] at fits ⊢
    rw [if_neg (by simp [entry.ne_nil]), if_neg (by simp [fits]), origin_of_relative _ single, parts]
    rfl
  · have trunk : tree.follow (tree.origin path) .directory path.trunk = .ok (place, .directory) := by
      rwa [← follow_solid, Path.solid_trunk, follow_solid]
    rw [if_neg (by simp [Path.chars_join_ne_nil empty]), if_neg (by simp [fits]),
      origin_join _ empty single, Path.segments_join empty single, parts, follow_append, trunk]

theorem isDirectory_eq_true_iff {tree : FileTree} {path : Path} :
    tree.isDirectory path = true ↔ ∃ place, tree.find path = .ok (place, .directory) := by
  rw [isDirectory]
  split
  · next place found => exact ⟨fun _ => ⟨place, found⟩, fun _ => rfl⟩
  · next other =>
    refine ⟨fun h => absurd h (by simp), ?_⟩
    rintro ⟨place, found⟩
    exact absurd found (other place)

theorem contains_of_isDirectory {tree : FileTree} {path : Path} (h : tree.isDirectory path = true) :
    tree.contains path = true := by
  obtain ⟨place, found⟩ := isDirectory_eq_true_iff.mp h
  rw [contains, found]
  rfl

theorem find_here (tree : FileTree) : tree.find .here = .ok (tree.working, .directory) := by
  rw [find_eq_ok_iff]
  exact ⟨by decide, by decide, by decide, rfl⟩

theorem mem_entries_of_nodeAt? {tree : FileTree} {place : Place} (nonempty : place ≠ [])
    {node : FileNode} (h : tree.nodeAt? place = some node) : (place, node) ∈ tree.entries := by
  rw [nodeAt?, if_neg (by simpa using nonempty)] at h
  obtain ⟨before, behind, split, -⟩ := List.lookup_eq_some_iff.mp h
  rw [split]
  exact List.mem_append_right _ List.mem_cons_self

theorem nodeAt?_of_follow {tree : FileTree} {place place' : Place} {node : FileNode}
    {name : List Char} (entry : IsEntryName name)
    (h : tree.follow place .directory [name] = .ok (place', node)) :
    tree.nodeAt? (place ++ [name]) = some node := by
  rw [follow, if_neg (by simp), if_neg (by simp [entry.not_idle]), if_neg entry.not_up] at h
  by_cases long : nameLimit < byteCount name
  · rw [if_pos long] at h
    exact absurd h (by simp)
  · rw [if_neg long] at h
    cases found : tree.nodeAt? (place ++ [name]) with
    | none => simp [found] at h
    | some node' =>
      rw [found] at h
      cases h
      rfl

/-! ## Lengths of paths -/

theorem byteCount_append (chars chars' : List Char) :
    byteCount (chars ++ chars') = byteCount chars + byteCount chars' := by
  induction chars with
  | nil => exact (Nat.zero_add _).symm
  | cons c chars ih =>
    rw [List.cons_append, byteCount, List.foldr_cons, ← byteCount, ih, ← Nat.add_assoc]
    rfl

theorem isTooLong_eq_false_iff {path : Path} :
    isTooLong path = false ↔ byteCount path.chars ≤ pathLimit := by
  rw [isTooLong, decide_eq_false_iff_not, Nat.not_lt]

theorem byteCount_join_le {path name name' : Path} (relative : name.isAbsolute = false)
    (relative' : name'.isAbsolute = false) (shorter : byteCount name.chars ≤ byteCount name'.chars) :
    byteCount (path.join name).chars ≤ byteCount (path.join name').chars := by
  by_cases empty : path.chars = []
  · obtain ⟨chars⟩ := path
    subst empty
    rwa [Path.join_empty, Path.join_empty]
  · rw [Path.join_eq empty relative, Path.join_eq empty relative']
    simp only [byteCount_append]
    omega

/-- A slash takes no more room than what a path begins with leaves of it. -/
theorem byteCount_join_le_of_begins {front path name : Path} (relative : name.isAbsolute = false)
    (begins : front.chars <+: path.chars) (shorter : front.chars ≠ path.chars) :
    byteCount (front.join name).chars ≤ byteCount (path.join name).chars := by
  obtain ⟨back, split⟩ := begins
  have rest : 1 ≤ byteCount back := by
    cases back with
    | nil => exact absurd (by simpa using split) shorter
    | cons c back =>
      have size := c.utf8Size_pos
      rw [byteCount, List.foldr_cons]
      omega
  have nonempty : path.chars ≠ [] := by
    intro empty
    rw [empty, List.append_eq_nil_iff] at split
    exact shorter (split.1.trans empty.symm)
  have gap : byteCount front.gap ≤ 1 := by
    unfold Path.gap
    split <;> decide
  rw [Path.join_eq nonempty relative]
  by_cases empty : front.chars = []
  · obtain ⟨chars⟩ := front
    subst empty
    rw [Path.join_empty]
    simp only [byteCount_append]
    omega
  · rw [Path.join_eq empty relative]
    simp only [byteCount_append, ← split]
    omega

/-- A path that leads to a directory behind another one is followed from the directory that the
other one leads to. -/
theorem exists_find_of_descend {tree : FileTree} {path : Path} (nonempty : path.chars ≠ [])
    {segments : List (List Char)} (unbroken : ∀ segment ∈ segments, '/' ∉ segment) {place : Place}
    (h : tree.find (path.descend segments) = .ok (place, .directory)) :
    ∃ middle, tree.find path = .ok (middle, .directory) ∧
      tree.follow middle .directory segments = .ok (place, .directory) := by
  induction segments generalizing path with
  | nil => exact ⟨place, h, rfl⟩
  | cons segment segments ih =>
    rw [List.forall_mem_cons] at unbroken
    have single := Path.isAbsolute_of_unbroken unbroken.1
    obtain ⟨next, found, behind⟩ := ih (Path.chars_join_ne_nil nonempty _) unbroken.2 h
    obtain ⟨readable, -, fits, followed⟩ := find_eq_ok_iff.mp found
    rw [origin_join _ nonempty single, Path.segments_join nonempty single,
      Path.segments_of_unbroken unbroken.1] at followed
    obtain ⟨middle, before, last⟩ := exists_follow_of_append followed
    rw [Path.join_eq nonempty single] at readable fits
    refine ⟨middle, find_eq_ok_iff.mpr ⟨?_, nonempty, ?_, ?_⟩, ?_⟩
    · exact fun inside => readable (List.mem_append_left _ inside)
    · rw [isTooLong_eq_false_iff, byteCount_append] at fits
      exact isTooLong_eq_false_iff.mpr (by omega)
    · rwa [← follow_solid, Path.solid_trunk, follow_solid] at before
    · rw [← List.singleton_append, follow_append, last]
      exact behind

/-! ## What is below a place -/

theorem wayFrom?_eq_some_iff {start place : Place} {way : List (List Char)} :
    wayFrom? start place = some way ↔ place = start ++ way := by
  induction start generalizing place with
  | nil => simp [wayFrom?, eq_comm]
  | cons name start ih =>
    cases place with
    | nil => simp [wayFrom?]
    | cons other place =>
      by_cases same : name = other
      · subst same
        simp [wayFrom?, ih]
      · simp [wayFrom?, same, Ne.symm same]

theorem mem_below_iff {tree : FileTree} {place : Place} {way : List (List Char)} {node : FileNode} :
    (way, node) ∈ tree.below place ↔ way ≠ [] ∧ (place ++ way, node) ∈ tree.entries := by
  simp only [below, List.mem_filterMap, Option.map_eq_some_iff, Option.filter_eq_some_iff,
    wayFrom?_eq_some_iff, Prod.exists, Prod.mk.injEq]
  constructor
  · rintro ⟨_, _, inside, _, ⟨rfl, nonempty⟩, rfl, rfl⟩
    exact ⟨by simpa using nonempty, inside⟩
  · rintro ⟨nonempty, inside⟩
    exact ⟨_, _, inside, _, ⟨rfl, by simpa using nonempty⟩, rfl, rfl⟩

/-- A way of entry names from one directory to another one is a way below the first. -/
theorem mem_below_of_follow {tree : FileTree} {place place' : Place} {names : List (List Char)}
    (nonempty : names ≠ []) (entries : ∀ name ∈ names, IsEntryName name)
    (h : tree.follow place .directory names = .ok (place', .directory)) :
    (names, .directory) ∈ tree.below place := by
  obtain ⟨front, last, rfl⟩ := (List.eq_nil_or_concat names).resolve_left nonempty
  rw [List.concat_eq_append] at h entries nonempty ⊢
  have before_entries : ∀ name ∈ front, IsEntryName name :=
    fun name hn => entries name (List.mem_append_left _ hn)
  obtain ⟨middle, before, last_entry⟩ := exists_follow_of_append h
  have stored := nodeAt?_of_follow (entries last (by simp)) last_entry
  have ahead := place_of_follow before
  rw [Place.foldl_go_of_leadsOn fun name hn => (before_entries name hn).toLeadsOn,
    Path.solid_eq_self before_entries] at ahead
  rw [ahead, List.append_assoc] at stored
  exact mem_below_iff.mpr ⟨nonempty, mem_entries_of_nodeAt? (by simp) stored⟩

/-- A walk spells what it starts at as the start is spelled, and what is below by the names behind
it, unless the path of the directory that holds it is too long. -/
inductive Spells (tree : FileTree) (start : Path) : Path → FileNode → Prop where
  | start {place : Place} {node : FileNode} (found : tree.find start = .ok (place, node)) :
      Spells tree start start node
  | below {place : Place} {way : List (List Char)} {node node' : FileNode}
      (found : tree.find start = .ok (place, node')) (deeper : way ≠ [])
      (stored : (place ++ way, node) ∈ tree.entries)
      (entered : isTooLong (start.descend way.dropLast) = false) :
      Spells tree start (start.descend way) node

theorem mem_walk?_iff {tree : FileTree} {start path : Path} {node : FileNode} :
    (path, node) ∈ (tree.walk? start).getD [] ↔ tree.Spells start path node := by
  constructor
  · intro walked
    rw [walk?] at walked
    cases found : tree.find start with
    | error e => simp [found] at walked
    | ok result =>
      obtain ⟨place, node'⟩ := result
      rw [found, Option.getD_some, List.mem_cons] at walked
      rcases walked with same | deeper
      · cases same
        exact .start found
      · obtain ⟨⟨way, node''⟩, inside, spelled⟩ := List.mem_filterMap.mp deeper
        obtain ⟨nonempty, stored⟩ := mem_below_iff.mp inside
        by_cases long : isTooLong (start.descend way.dropLast) = true
        · simp [long] at spelled
        · simp only [if_neg long, Option.some.injEq, Prod.mk.injEq] at spelled
          obtain ⟨rfl, rfl⟩ := spelled
          exact .below found nonempty stored (by simpa using long)
  · intro spelled
    cases spelled with
    | start found =>
      rw [walk?, found]
      exact List.mem_cons_self
    | @below place way _ _ found deeper stored entered =>
      rw [walk?, found]
      refine List.mem_cons_of_mem _ (List.mem_filterMap.mpr ⟨(way, node), ?_, ?_⟩)
      · exact mem_below_iff.mpr ⟨deeper, stored⟩
      · simp [entered]

/-- What a walk finds is at the end of a way from where it starts, and spelled by it. -/
theorem exists_way_of_mem_walk? {tree : FileTree} {start path : Path} {node : FileNode}
    (h : (path, node) ∈ (tree.walk? start).getD []) :
    ∃ place node' way, tree.find start = .ok (place, node') ∧ path = start.descend way ∧
      ((way = [] ∧ node = node') ∨ (way, node) ∈ tree.below place) := by
  cases mem_walk?_iff.mp h with
  | start found => exact ⟨_, node, [], found, rfl, .inl ⟨rfl, rfl⟩⟩
  | @below place way _ node' found deeper stored _ =>
    exact ⟨_, node', way, found, rfl, .inr (mem_below_iff.mpr ⟨deeper, stored⟩)⟩

/-- A file that a walk finds lies that many names below where the walk starts. It is there only if
the start does not end with a slash. -/
theorem exists_way_of_file_mem_walk? {tree : FileTree} (named : tree.WellNamed)
    {start path : Path} {content : Content}
    (h : (path, .file content) ∈ (tree.walk? start).getD []) :
    ∃ way, start.chars ≠ [] ∧ path = start.descend way ∧ (∀ name ∈ way, IsEntryName name) ∧
      (way = [] → start.chars.getLast? ≠ some '/') := by
  obtain ⟨place, node, way, found, rfl, here | deeper⟩ := exists_way_of_mem_walk? h
  · obtain ⟨rfl, rfl⟩ := here
    exact ⟨[], nonempty_of_find found, rfl, by simp, fun _ => getLast?_ne_of_file found⟩
  · obtain ⟨nonempty, inside⟩ := mem_below_iff.mp deeper
    refine ⟨way, nonempty_of_find found, rfl, fun name hn => ?_, fun empty => ?_⟩
    · exact named _ inside name (List.mem_append_right place hn)
    · exact absurd empty nonempty

/-! ## Trees that are made by changes -/

theorem wellNamed_empty : empty.WellNamed :=
  fun _ inside => absurd inside List.not_mem_nil

theorem mem_foldl_step {components : List Path.Component} {place : Place} {name : List Char}
    (h : name ∈ components.foldl Place.step place) : name ∈ place ∨ .name name ∈ components := by
  induction components generalizing place with
  | nil => exact .inl h
  | cons component components ih =>
    rcases ih h with before | later
    · cases component with
      | name chars =>
        rcases List.mem_append.mp before with before | last
        · exact .inl before
        · rw [List.mem_singleton] at last
          exact .inr (by simp [last])
      | up => exact .inl ((List.dropLast_sublist _).subset before)
      | root => exact absurd before List.not_mem_nil
      | here => exact .inl before
    · exact .inr (List.mem_cons_of_mem _ later)

theorem mem_of_mem_onWayTo {place part : Place} (h : part ∈ place.onWayTo) {name : List Char}
    (inside : name ∈ part) : name ∈ place := by
  obtain ⟨n, -, rfl⟩ := List.mem_map.mp h
  exact List.mem_of_mem_take inside

theorem mem_onWayTo_self {place : Place} (nonempty : place ≠ []) : place ∈ place.onWayTo := by
  have length := List.length_pos_iff.mpr nonempty
  refine List.mem_map.mpr ⟨place.length - 1, List.mem_range.mpr (by omega), ?_⟩
  rw [Nat.sub_add_cancel length, List.take_length]

/-- The working directory of a well-named tree has a place of entry names. -/
theorem WellNamed.working {tree : FileTree} (named : tree.WellNamed) {name : List Char}
    (h : name ∈ tree.working) : IsEntryName name := by
  refine named (tree.working, .directory) (List.mem_append_left _ ?_) name h
  exact List.mem_map_of_mem (mem_onWayTo_self (List.ne_nil_of_mem h))

theorem WellNamed.of_mem_placeOf {tree : FileTree} (named : tree.WellNamed) {path : Path}
    {name : List Char} (h : name ∈ tree.placeOf path) : IsEntryName name := by
  rcases mem_foldl_step h with working | component
  · exact named.working working
  · exact Path.isEntryName_of_mem_components component

/-- One more node of sound names keeps the names of a tree sound. -/
theorem WellNamed.append {tree : FileTree} (named : tree.WellNamed) {place : Place}
    (names : ∀ name ∈ place, IsEntryName name) (node : FileNode) :
    WellNamed { tree with nodes := tree.nodes ++ [(place, node)] } := by
  intro item inside
  rw [entries, ← List.append_assoc] at inside
  rcases List.mem_append.mp inside with old | new
  · exact named item old
  · rw [List.mem_singleton.mp new]
    exact names

theorem WellNamed.addDirectory {tree : FileTree} (named : tree.WellNamed) {place : Place}
    (names : ∀ name ∈ place, IsEntryName name) : (tree.addDirectory place).WellNamed := by
  rw [FileTree.addDirectory]
  split
  · exact named
  · exact named.append names .directory

theorem WellNamed.addDirectories {tree : FileTree} (named : tree.WellNamed) {place : Place}
    (names : ∀ name ∈ place, IsEntryName name) : (tree.addDirectories place).WellNamed := by
  rw [FileTree.addDirectories]
  have sound : ∀ part ∈ place.onWayTo, ∀ name ∈ part, IsEntryName name :=
    fun part inside name hn => names name (mem_of_mem_onWayTo inside hn)
  revert sound
  generalize place.onWayTo = parts
  intro sound
  induction parts generalizing tree with
  | nil => exact named
  | cons part parts ih =>
    rw [List.forall_mem_cons] at sound
    exact ih (named.addDirectory sound.1) sound.2

/-- Writing a file keeps the names of a tree sound, whatever its path is. -/
theorem WellNamed.write {tree : FileTree} (named : tree.WellNamed) (path : Path)
    (content : Content) : (tree.write path content).WellNamed := by
  have names : ∀ name ∈ tree.placeOf path, IsEntryName name :=
    fun name inside => named.of_mem_placeOf inside
  have prepared : (tree.addDirectories (tree.placeOf path).dropLast).WellNamed :=
    named.addDirectories fun name inside => names name ((List.dropLast_sublist _).subset inside)
  rw [FileTree.write, writeAt]
  split
  · exact prepared
  · intro item inside
    rcases List.mem_append.mp inside with around | listed
    · exact prepared item (List.mem_append_left _ around)
    · obtain ⟨old, before, rfl⟩ := List.mem_map.mp listed
      exact prepared old (List.mem_append_right _ before)
  · exact prepared.append names _

end FileTree

end LocaleKeys
