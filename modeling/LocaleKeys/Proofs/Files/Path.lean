import LocaleKeys.Files.Path
import Mathlib.Data.List.DropRight

/-!
# Paths by their parts

The components of a path are what it begins with and those of its parts that are not idle
(`components_eq`). `join` writes one path behind another, so the parts of both stand one behind the
other (`segments_join`), and so do the components (`components_join`). A path that consists of names
only is the way along these names (`join_eq_descend`), and a way adds its names to the components
(`components_descend`). `parent?` takes one part off at most (`exists_parent?_eq_some`). Idle parts
stand anywhere in a path and mean nothing, so most is said of the `solid` ones. The empty part in front
of an absolute path is idle too; the `stem` of a path are its parts without it.
-/

namespace LocaleKeys

/-- A part of a path that does not lead up. -/
structure LeadsOn (segment : List Char) : Prop where
  not_up : segment ≠ ['.', '.']
  unbroken : '/' ∉ segment

/-- A name that an entry of a directory can have. -/
structure IsEntryName (name : List Char) : Prop extends LeadsOn name where
  not_idle : Path.isIdle name = false

theorem IsEntryName.ne_nil {name : List Char} (h : IsEntryName name) : name ≠ [] := by
  rintro rfl
  exact absurd h.not_idle (by decide)

theorem IsEntryName.ne_here {name : List Char} (h : IsEntryName name) : name ≠ ['.'] := by
  rintro rfl
  exact absurd h.not_idle (by decide)

namespace Path

/-- The parts that are not idle. -/
def solid (segments : List (List Char)) : List (List Char) :=
  segments.filter (!isIdle ·)

@[simp] theorem solid_append (segments segments' : List (List Char)) :
    solid (segments ++ segments') = solid segments ++ solid segments' :=
  List.filter_append ..

theorem solid_cons_of_idle {segment : List Char} (h : isIdle segment = true)
    (segments : List (List Char)) : solid (segment :: segments) = solid segments :=
  List.filter_cons_of_neg (by simp [h])

theorem solid_cons_of_not_idle {segment : List Char} (h : isIdle segment = false)
    (segments : List (List Char)) : solid (segment :: segments) = segment :: solid segments :=
  List.filter_cons_of_pos (by simp [h])

theorem solid_eq_self {names : List (List Char)} (h : ∀ name ∈ names, IsEntryName name) :
    solid names = names := by
  apply List.filter_eq_self.mpr
  intro name inside
  rw [(h name inside).not_idle]
  rfl

theorem map_componentOf_solid {segments : List (List Char)}
    (h : ∀ segment ∈ segments, LeadsOn segment) :
    (solid segments).map componentOf = (solid segments).map .name := by
  apply List.map_congr_left
  intro segment inside
  exact if_neg (h segment (List.mem_filter.mp inside).1).not_up

/-! ## Parts -/

theorem segments_ne_nil (path : Path) : path.segments ≠ [] :=
  List.splitOn_ne_nil '/' path.chars

theorem segments_slash (before behind : List Char) :
    segments ⟨before ++ '/' :: behind⟩ = segments ⟨before⟩ ++ segments ⟨behind⟩ :=
  List.splitOn_append_cons_self ..

theorem segments_of_unbroken {name : List Char} (h : '/' ∉ name) : segments ⟨name⟩ = [name] :=
  List.splitOn_eq_singleton h

theorem ofSegments_segments (path : Path) : ofSegments path.segments = path :=
  congrArg Path.mk (List.intercalate_splitOn '/')

theorem segments_ofSegments {parts : List (List Char)} (nonempty : parts ≠ [])
    (unbroken : ∀ part ∈ parts, '/' ∉ part) : (ofSegments parts).segments = parts :=
  List.splitOn_intercalate '/' unbroken nonempty

theorem unbroken_of_mem_segments {path : Path} {segment : List Char}
    (h : segment ∈ path.segments) : '/' ∉ segment := by
  obtain ⟨chars⟩ := path
  rw [segments] at h
  induction chars generalizing segment with
  | nil =>
    rw [List.splitOn_nil, List.mem_singleton] at h
    rw [h]
    exact List.not_mem_nil
  | cons c rest ih =>
    rw [List.splitOn_cons_eq_if_modifyHead] at h
    by_cases hc : c = '/'
    · rw [if_pos (by simpa using hc)] at h
      rcases List.mem_cons.mp h with rfl | later
      · exact List.not_mem_nil
      · exact ih later
    · rw [if_neg (by simpa using hc)] at h
      obtain ⟨first, more, split⟩ := List.exists_cons_of_ne_nil (List.splitOn_ne_nil '/' rest)
      rw [split] at h ih
      rcases List.mem_cons.mp h with rfl | later
      · simpa [Ne.symm hc] using @ih first (by simp)
      · exact ih (List.mem_cons_of_mem _ later)

theorem mem_chars_of_mem_segments {path : Path} {segment : List Char} {c : Char}
    (h : segment ∈ path.segments) (mem : c ∈ segment) : c ∈ path.chars := by
  have parts : List.intercalate ['/'] path.segments = path.chars := List.intercalate_splitOn '/'
  rw [← parts]
  generalize path.segments = segments at h
  induction segments with
  | nil => exact absurd h List.not_mem_nil
  | cons first rest ih =>
    cases rest with
    | nil =>
      rw [List.intercalate_singleton, ← List.mem_singleton.mp h]
      exact mem
    | cons next rest =>
      rw [List.intercalate_cons_cons]
      rcases List.mem_cons.mp h with rfl | later
      · exact List.mem_append_left _ (List.mem_append_left _ mem)
      · exact List.mem_append_right _ (ih later)

/-- A character other than a slash stands in some part. -/
theorem exists_mem_segments {path : Path} {c : Char} (h : c ∈ path.chars) (other : c ≠ '/') :
    ∃ segment ∈ path.segments, c ∈ segment := by
  obtain ⟨chars⟩ := path
  rw [segments]
  induction chars with
  | nil => exact absurd h List.not_mem_nil
  | cons d rest ih =>
    rw [List.splitOn_cons_eq_if_modifyHead]
    by_cases hd : d = '/'
    · rw [if_pos (by simpa using hd)]
      have later : c ∈ rest := (List.mem_cons.mp h).resolve_left fun same => other (same.trans hd)
      obtain ⟨segment, inside, mem⟩ := ih later
      exact ⟨segment, List.mem_cons_of_mem _ inside, mem⟩
    · rw [if_neg (by simpa using hd)]
      obtain ⟨first, more, split⟩ := List.exists_cons_of_ne_nil (List.splitOn_ne_nil '/' rest)
      rw [split] at ih ⊢
      rcases List.mem_cons.mp h with rfl | later
      · exact ⟨c :: first, by simp, by simp⟩
      · obtain ⟨segment, inside, mem⟩ := ih later
        rcases List.mem_cons.mp inside with rfl | inside
        · exact ⟨d :: segment, by simp, List.mem_cons_of_mem _ mem⟩
        · exact ⟨segment, List.mem_cons_of_mem _ inside, mem⟩

/-- Only the empty path and absolute paths begin with an empty part. -/
theorem head_segments_ne_nil {path : Path} (nonempty : path.chars ≠ [])
    (relative : path.isAbsolute = false) : path.segments.head? ≠ some [] := by
  obtain ⟨chars⟩ := path
  cases chars with
  | nil => exact absurd rfl nonempty
  | cons c rest =>
    have hc : c ≠ '/' := by simpa [isAbsolute] using relative
    rw [segments, List.splitOn_cons_eq_if_modifyHead, if_neg (by simpa using hc)]
    obtain ⟨first, more, split⟩ := List.exists_cons_of_ne_nil (List.splitOn_ne_nil '/' rest)
    rw [split]
    simp

theorem nonempty_of_isAbsolute {path : Path} (h : path.isAbsolute = true) : path.chars ≠ [] := by
  intro empty
  rw [isAbsolute, empty] at h
  exact absurd h (by decide)

theorem head_segments_of_isAbsolute {path : Path} (h : path.isAbsolute = true) :
    path.segments.head? = some [] := by
  obtain ⟨chars⟩ := path
  cases chars with
  | nil => exact absurd h (by decide)
  | cons c rest =>
    obtain rfl : c = '/' := by simpa [isAbsolute] using h
    exact congrArg List.head? (segments_slash [] rest)

theorem segments_of_isAbsolute {path : Path} (h : path.isAbsolute = true) :
    path.segments = [] :: path.steps := by
  have head := head_segments_of_isAbsolute h
  rw [steps, if_pos h]
  cases split : path.segments with
  | nil => exact absurd split path.segments_ne_nil
  | cons first rest =>
    rw [split] at head
    rw [Option.some.inj head]
    rfl

theorem mem_segments_of_mem_steps {path : Path} {segment : List Char} (h : segment ∈ path.steps) :
    segment ∈ path.segments := by
  rw [steps] at h
  split at h
  · exact List.mem_of_mem_tail h
  · exact h

/-- No part is lost but the empty one in front. -/
theorem mem_steps {path : Path} {segment : List Char} (h : segment ∈ path.segments)
    (nonempty : segment ≠ []) : segment ∈ path.steps := by
  by_cases absolute : path.isAbsolute = true
  · rw [segments_of_isAbsolute absolute] at h
    exact (List.mem_cons.mp h).resolve_left nonempty
  · rwa [steps, if_neg absolute]

theorem isAbsolute_of_unbroken {name : List Char} (h : '/' ∉ name) :
    (Path.mk name).isAbsolute = false := by
  cases name with
  | nil => rfl
  | cons c rest =>
    simp only [List.mem_cons, not_or] at h
    simpa [isAbsolute] using Ne.symm h.1

/-! ## Joining -/

/-- The parts of a path that stand in front of what is joined to it. -/
def trunk (path : Path) : List (List Char) :=
  if path.chars.getLast? = some '/' then path.segments.dropLast else path.segments

/-- A slash at the end of a path makes its last part empty. -/
theorem segments_of_slash {path : Path} (h : path.chars.getLast? = some '/') :
    ∃ front, path.segments = segments front ++ [[]] ∧ path.chars = front.chars ++ ['/'] := by
  obtain ⟨before, split⟩ := List.getLast?_eq_some_iff.mp h
  refine ⟨⟨before⟩, ?_, split⟩
  have parts := segments_slash before []
  rw [← split] at parts
  exact parts

theorem segments_eq_trunk (path : Path) :
    path.segments = path.trunk ∨ path.segments = path.trunk ++ [[]] := by
  unfold trunk
  split
  · next slash =>
    obtain ⟨front, parts, -⟩ := segments_of_slash slash
    rw [parts, List.dropLast_concat]
    exact .inr rfl
  · exact .inl rfl

theorem mem_segments_of_mem_trunk {path : Path} {segment : List Char} (h : segment ∈ path.trunk) :
    segment ∈ path.segments := by
  rcases segments_eq_trunk path with same | behind
  · exact same ▸ h
  · exact behind ▸ List.mem_append_left _ h

theorem trunk_ne_nil (path : Path) : path.trunk ≠ [] := by
  unfold trunk
  split
  · next slash =>
    obtain ⟨front, parts, -⟩ := segments_of_slash slash
    rw [parts, List.dropLast_concat]
    exact front.segments_ne_nil
  · exact path.segments_ne_nil

theorem head?_trunk (path : Path) : path.trunk.head? = path.segments.head? := by
  obtain ⟨first, rest, front⟩ := List.exists_cons_of_ne_nil path.trunk_ne_nil
  rcases segments_eq_trunk path with same | behind
  · rw [same]
  · rw [behind, front]
    rfl

theorem solid_trunk (path : Path) : solid path.trunk = solid path.segments := by
  rcases segments_eq_trunk path with same | behind
  · rw [same]
  · rw [behind, solid_append]
    exact (List.append_nil _).symm

theorem join_empty (path : Path) : (Path.mk []).join path = path := by
  simp [join]

/-- What is written between a path and another one behind it. -/
def gap (path : Path) : List Char :=
  if path.chars.getLast? = some '/' then [] else ['/']

theorem join_eq {base path : Path} (nonempty : base.chars ≠ [])
    (relative : path.isAbsolute = false) :
    base.join path = ⟨base.chars ++ (base.gap ++ path.chars)⟩ := by
  rw [join, if_neg (by simp [relative, nonempty]), gap]
  split <;> rfl

theorem isAbsolute_append {chars : List Char} (nonempty : chars ≠ []) (behind : List Char) :
    (Path.mk (chars ++ behind)).isAbsolute = (Path.mk chars).isAbsolute := by
  obtain ⟨c, rest, rfl⟩ := List.exists_cons_of_ne_nil nonempty
  rfl

theorem getLast?_join (base : Path) {path : Path} (nonempty : path.chars ≠ []) :
    (base.join path).chars.getLast? = path.chars.getLast? := by
  obtain ⟨c, last⟩ := Option.ne_none_iff_exists'.mp (mt List.getLast?_eq_none_iff.mp nonempty)
  rw [join]
  split
  · rfl
  · split
    · rw [List.getLast?_append, last]
      rfl
    · rw [List.getLast?_append, List.getLast?_cons, last]
      rfl

theorem join_assoc (base : Path) {middle path : Path} (nonempty : middle.chars ≠ [])
    (relative : middle.isAbsolute = false) (relative' : path.isAbsolute = false) :
    (base.join middle).join path = base.join (middle.join path) := by
  obtain ⟨chars⟩ := base
  by_cases empty : chars = []
  · subst empty
    rw [join_empty, join_empty]
  · have behind : (middle.join path).isAbsolute = false := by
      rw [join_eq nonempty relative']
      exact (isAbsolute_append nonempty _).trans relative
    have last : (chars ++ (gap ⟨chars⟩ ++ middle.chars)).getLast? = middle.chars.getLast? := by
      have joined := getLast?_join ⟨chars⟩ nonempty
      rwa [join_eq empty relative] at joined
    have same : gap ⟨chars ++ (gap ⟨chars⟩ ++ middle.chars)⟩ = middle.gap := by
      rw [gap, last, ← gap]
    rw [join_eq empty relative, join_eq (by simp [empty]) relative', join_eq empty behind, same,
      join_eq nonempty relative']
    simp only [List.append_assoc]

theorem isAbsolute_of_begins {front path : Path} (begins : front.chars <+: path.chars)
    (relative : path.isAbsolute = false) : front.isAbsolute = false := by
  obtain ⟨chars⟩ := front
  obtain ⟨back, split⟩ := begins
  cases chars with
  | nil => rfl
  | cons c rest =>
    rw [isAbsolute, ← split] at relative
    exact relative

theorem mem_join {base path : Path} {c : Char} (h : c ∈ (base.join path).chars) :
    c ∈ base.chars ∨ c = '/' ∨ c ∈ path.chars := by
  rw [join] at h
  split at h
  · exact .inr (.inr h)
  · split at h
    · exact (List.mem_append.mp h).imp_right .inr
    · exact (List.mem_append.mp h).imp_right List.mem_cons.mp

theorem chars_join_ne_nil {base : Path} (nonempty : base.chars ≠ []) (path : Path) :
    (base.join path).chars ≠ [] := by
  by_cases absolute : path.isAbsolute = true
  · rw [join, if_pos (by simp [absolute])]
    exact nonempty_of_isAbsolute absolute
  · rw [join_eq nonempty (by simpa using absolute)]
    exact List.append_ne_nil_of_left_ne_nil nonempty _

theorem isAbsolute_join {base path : Path} (nonempty : base.chars ≠ [])
    (relative : path.isAbsolute = false) : (base.join path).isAbsolute = base.isAbsolute := by
  rw [join_eq nonempty relative]
  exact isAbsolute_append nonempty _

/-- The parts of a path behind another one are those of both, one behind the other. -/
theorem segments_join {base path : Path} (nonempty : base.chars ≠ [])
    (relative : path.isAbsolute = false) :
    (base.join path).segments = base.trunk ++ path.segments := by
  rw [join_eq nonempty relative, gap, trunk]
  by_cases slash : base.chars.getLast? = some '/'
  · obtain ⟨front, parts, split⟩ := segments_of_slash slash
    rw [if_pos slash, if_pos slash, parts, List.dropLast_concat, split, List.append_assoc]
    exact segments_slash front.chars path.chars
  · rw [if_neg slash, if_neg slash]
    exact segments_slash base.chars path.chars

/-- Only the empty path is a single empty part. -/
theorem segments_ne_singleton {path : Path} (nonempty : path.chars ≠ []) :
    path.segments ≠ [[]] := by
  intro single
  have chars := congrArg Path.chars (ofSegments_segments path)
  rw [single] at chars
  exact nonempty chars.symm

/-! ## Components -/

/-- What a path begins with in front of its parts that are not idle: the root directory, or a first
part that names the directory itself. -/
def lead (path : Path) : List Component :=
  if path.isAbsolute then [.root]
  else if path.segments.head? = some ['.'] then [.here]
  else []

theorem components_eq (path : Path) :
    path.components = path.lead ++ (solid path.segments).map componentOf := by
  obtain ⟨first, rest, split⟩ := List.exists_cons_of_ne_nil path.segments_ne_nil
  by_cases absolute : path.isAbsolute = true
  · have parts := segments_of_isAbsolute absolute
    have behind : path.steps ≠ [] := fun none =>
      segments_ne_singleton (nonempty_of_isAbsolute absolute) (none ▸ parts)
    rw [lead, if_pos absolute, components, parts, solid_cons_of_idle rfl]
    simp only [if_pos trivial, if_neg behind]
    rfl
  · rw [lead, if_neg absolute, components, split]
    by_cases none : first = []
    · have empty : path.chars = [] := by
        by_contra nonempty
        refine head_segments_ne_nil nonempty (by simpa using absolute) ?_
        rw [split, none]
        rfl
      obtain ⟨chars⟩ := path
      subst empty
      cases split
      rfl
    · by_cases here : first = ['.']
      · subst here
        rfl
      · have solid_first : isIdle first = false := by simp [isIdle, none, here]
        simp only [if_neg none, if_neg here, List.head?_cons, Option.some.injEq,
          solid_cons_of_not_idle solid_first]
        rfl

/-- Only the empty path has no components. -/
theorem components_ne_nil {path : Path} (nonempty : path.chars ≠ []) : path.components ≠ [] := by
  obtain ⟨first, rest, split⟩ := List.exists_cons_of_ne_nil path.segments_ne_nil
  have single := segments_ne_singleton nonempty
  rw [split] at single
  rw [components, split]
  by_cases root : first = []
  · subst root
    have kept : rest ≠ [] := fun alone => single (congrArg _ alone)
    simp [kept]
  · by_cases here : first = ['.']
    · simp [here]
    · simp [root, here]

theorem lead_join {base path : Path} (nonempty : base.chars ≠ [])
    (relative : path.isAbsolute = false) : (base.join path).lead = base.lead := by
  obtain ⟨first, rest, front⟩ := List.exists_cons_of_ne_nil base.trunk_ne_nil
  have head : (base.join path).segments.head? = base.segments.head? := by
    rw [segments_join nonempty relative, ← head?_trunk, front]
    rfl
  rw [lead, lead, isAbsolute_join nonempty relative, head]

/-- A path behind another one adds its components, except idle ones. -/
theorem components_join {base path : Path} (nonempty : base.chars ≠ [])
    (relative : path.isAbsolute = false) :
    (base.join path).components
      = base.components ++ (solid path.segments).map componentOf := by
  rw [components_eq, components_eq base, lead_join nonempty relative,
    segments_join nonempty relative, solid_append, solid_trunk, List.map_append,
    List.append_assoc]

/-- A relative path without a part that leads up. -/
structure LeadsDown (path : Path) : Prop where
  relative : path.isAbsolute = false
  not_up : ['.', '.'] ∉ path.segments

theorem LeadsDown.leadsOn {path : Path} (down : path.LeadsDown) {segment : List Char}
    (h : segment ∈ path.segments) : LeadsOn segment :=
  ⟨fun up => down.not_up (up ▸ h), unbroken_of_mem_segments h⟩

/-! ## Descending -/

theorem descend_cons (base : Path) (name : List Char) (names : List (List Char)) :
    base.descend (name :: names) = (base.join ⟨name⟩).descend names :=
  rfl

theorem descend_append (base : Path) (names names' : List (List Char)) :
    base.descend (names ++ names') = (base.descend names).descend names' :=
  List.foldl_append

theorem components_of_name {name : List Char} (h : IsEntryName name) :
    (Path.mk name).components = [.name name] := by
  rw [components, segments_of_unbroken h.unbroken]
  simp only [if_neg h.ne_nil, if_neg h.ne_here, componentOf, if_neg h.not_up]
  rfl

/-- The names among the components of a path are names that entries can have. -/
theorem isEntryName_of_mem_components {path : Path} {name : List Char}
    (h : .name name ∈ path.components) : IsEntryName name := by
  rw [components_eq, List.mem_append, lead] at h
  rcases h with front | part
  · split at front
    · simp at front
    · split at front
      · simp at front
      · cases front
  · obtain ⟨segment, kept, named⟩ := List.mem_map.mp part
    obtain ⟨inside, not_idle⟩ := List.mem_filter.mp kept
    rw [componentOf] at named
    split at named
    · cases named
    · next not_up =>
      cases named
      exact ⟨⟨not_up, unbroken_of_mem_segments inside⟩, by simpa using not_idle⟩

/-- A way adds its names to the components of a path. -/
theorem components_descend {base : Path} (nonempty : base.chars ≠ [])
    {segments : List (List Char)} (h : ∀ segment ∈ segments, LeadsOn segment) :
    (base.descend segments).components = base.components ++ (solid segments).map .name := by
  induction segments generalizing base with
  | nil => exact (List.append_nil _).symm
  | cons segment segments ih =>
    rw [List.forall_mem_cons] at h
    have first : (base.join ⟨segment⟩).components
        = base.components ++ (solid [segment]).map .name := by
      rw [components_join nonempty (isAbsolute_of_unbroken h.1.unbroken),
        segments_of_unbroken h.1.unbroken, map_componentOf_solid (by simpa using h.1)]
    rw [descend_cons, ih (chars_join_ne_nil nonempty _) h.2, first, List.append_assoc,
      ← List.map_append, ← solid_append]
    rfl

theorem components_descend_empty {name : List Char} (first : IsEntryName name)
    {segments : List (List Char)} (h : ∀ segment ∈ segments, LeadsOn segment) :
    ((Path.mk []).descend (name :: segments)).components
      = (solid (name :: segments)).map .name := by
  rw [descend_cons, join_empty, components_descend first.ne_nil h, components_of_name first,
    solid_cons_of_not_idle first.not_idle]
  rfl

/-- A path of names is the way along them. -/
theorem join_ofSegments (base : Path) {names : List (List Char)} (nonempty : names ≠ [])
    (h : ∀ name ∈ names, IsEntryName name) : base.join (ofSegments names) = base.descend names := by
  induction names generalizing base with
  | nil => exact absurd rfl nonempty
  | cons name names ih =>
    rw [List.forall_mem_cons] at h
    have relative : (Path.mk name).isAbsolute = false := isAbsolute_of_unbroken h.1.unbroken
    cases names with
    | nil => simp [ofSegments, descend]
    | cons next names =>
      have behind := ih ⟨name⟩ (by simp) h.2
      have relative' : (ofSegments (next :: names)).isAbsolute = false := by
        have first : IsEntryName next := h.2 next (by simp)
        have single := isAbsolute_of_unbroken first.unbroken
        cases names with
        | nil => simpa [ofSegments] using single
        | cons _ _ =>
          rw [ofSegments, List.intercalate_cons_cons, List.append_assoc]
          exact (isAbsolute_append first.ne_nil _).trans single
      have written : ofSegments (name :: next :: names)
          = (Path.mk name).join (ofSegments (next :: names)) := by
        have last : name.getLast? ≠ some '/' := fun e => h.1.unbroken (List.mem_of_getLast? e)
        rw [join_eq h.1.ne_nil relative', gap, if_neg last]
        simp [ofSegments, List.intercalate_cons_cons]
      rw [written, ← join_assoc base h.1.ne_nil relative relative', ih _ (by simp) h.2]
      rfl

theorem join_eq_descend (base : Path) {path : Path} (h : ∀ name ∈ path.segments, IsEntryName name) :
    base.join path = base.descend path.segments := by
  rw [← join_ofSegments base path.segments_ne_nil h, ofSegments_segments]

/-- The path begins with a name of an entry. -/
def BeginsWithName (path : Path) : Prop :=
  ∃ name ∈ path.segments.head?, IsEntryName name

theorem BeginsWithName.nonempty {path : Path} (h : path.BeginsWithName) : path.chars ≠ [] := by
  obtain ⟨chars⟩ := path
  rintro rfl
  obtain ⟨name, first, entry⟩ := h
  cases first
  exact entry.ne_nil rfl

theorem BeginsWithName.relative {path : Path} (h : path.BeginsWithName) :
    path.isAbsolute = false := by
  obtain ⟨name, first, entry⟩ := h
  by_contra absolute
  rw [Bool.not_eq_false] at absolute
  rw [head_segments_of_isAbsolute absolute, Option.mem_some] at first
  exact entry.ne_nil first.symm

/-! ## Where a path begins -/

/-- What the parts of a path stand behind: the root directory, or nothing. -/
def anchor (path : Path) : Path :=
  if path.isAbsolute then root else ⟨[]⟩

/-- The parts of a path behind where it begins that stand in front of what is joined to it. -/
def stem (path : Path) : List (List Char) :=
  if path.isAbsolute then path.trunk.tail else path.trunk

theorem trunk_of_isAbsolute {path : Path} (h : path.isAbsolute = true) :
    path.trunk = [] :: path.stem := by
  have head := (head?_trunk path).trans (head_segments_of_isAbsolute h)
  obtain ⟨rest, split⟩ := List.head?_eq_some_iff.mp head
  rw [stem, if_pos h, split]
  rfl

theorem stem_of_relative {path : Path} (h : path.isAbsolute = false) : path.stem = path.trunk :=
  if_neg (by simp [h])

theorem mem_segments_of_mem_stem {path : Path} {segment : List Char} (h : segment ∈ path.stem) :
    segment ∈ path.segments := by
  apply mem_segments_of_mem_trunk
  rw [stem] at h
  split at h
  · exact List.mem_of_mem_tail h
  · exact h

theorem solid_stem (path : Path) : solid path.stem = solid path.segments := by
  rw [← solid_trunk]
  by_cases absolute : path.isAbsolute = true
  · rw [trunk_of_isAbsolute absolute, solid_cons_of_idle rfl]
  · rw [stem, if_neg absolute]

theorem anchor_join (base : Path) {path : Path} (relative : path.isAbsolute = false) :
    (base.join path).anchor = base.anchor := by
  by_cases empty : base.chars = []
  · obtain ⟨chars⟩ := base
    subst empty
    rw [join_empty, anchor, relative]
    rfl
  · rw [anchor, isAbsolute_join empty relative, anchor]

theorem steps_join {base path : Path} (nonempty : base.chars ≠ [])
    (relative : path.isAbsolute = false) :
    (base.join path).steps = base.stem ++ path.segments := by
  rw [steps, isAbsolute_join nonempty relative, segments_join nonempty relative]
  by_cases absolute : base.isAbsolute = true
  · rw [if_pos absolute, trunk_of_isAbsolute absolute]
    rfl
  · rw [if_neg absolute, stem, if_neg absolute]

/-- A path that begins with a name or at the root directory, without a part that leads up, is
spelled by names behind where it begins. -/
theorem components_eq_anchor {path : Path} (begins : path.BeginsWithName ∨ path.isAbsolute = true)
    (not_up : ['.', '.'] ∉ path.segments) :
    path.components = path.anchor.components ++ (solid path.segments).map .name := by
  have on : ∀ segment ∈ path.segments, LeadsOn segment := fun segment inside =>
    ⟨fun up => not_up (up ▸ inside), unbroken_of_mem_segments inside⟩
  have lead : path.lead = path.anchor.components := by
    rw [lead, anchor]
    rcases begins with named | absolute
    · have relative := named.relative
      obtain ⟨first, inside, entry⟩ := named
      rw [relative, Option.mem_def.mp inside, if_neg Bool.false_ne_true,
        if_neg Bool.false_ne_true, if_neg (by simp [entry.ne_here])]
      rfl
    · rw [if_pos absolute, if_pos absolute]
      rfl
  rw [components_eq, lead, map_componentOf_solid on]

/-- The path names entries all the way from where it begins; it may end with a slash. -/
def IsWay (path : Path) : Prop :=
  ∀ name ∈ path.stem, IsEntryName name

theorem IsWay.beginsWithName {path : Path} (h : path.IsWay) (relative : path.isAbsolute = false) :
    path.BeginsWithName := by
  obtain ⟨first, rest, front⟩ := List.exists_cons_of_ne_nil path.trunk_ne_nil
  refine ⟨first, ?_, h first (by simp [stem_of_relative relative, front])⟩
  rw [← head?_trunk, front]
  rfl

/-- Behind a path of names the way goes on. A slash at the end of the path is kept if it does not. -/
theorem IsWay.descend_join {path : Path} (h : path.IsWay) (relative : path.isAbsolute = false)
    (base : Path) {way : List (List Char)} (names : ∀ name ∈ way, IsEntryName name)
    (ends : way = [] → path.chars.getLast? ≠ some '/') :
    (base.join path).descend way = base.descend (path.stem ++ way) := by
  rw [IsWay, stem_of_relative relative] at h
  rw [stem_of_relative relative]
  cases way with
  | nil =>
    have parts : path.trunk = path.segments := if_neg (ends rfl)
    rw [List.append_nil, parts, ← join_eq_descend base (parts ▸ h)]
    rfl
  | cons name way =>
    rw [List.forall_mem_cons] at names
    have single : (Path.mk name).isAbsolute = false := isAbsolute_of_unbroken names.1.unbroken
    have nonempty : path.chars ≠ [] := by
      obtain ⟨chars⟩ := path
      rintro rfl
      exact (h [] (by decide)).ne_nil rfl
    have parts : (path.join ⟨name⟩).segments = path.trunk ++ [name] := by
      rw [segments_join nonempty single, segments_of_unbroken names.1.unbroken]
    have entries : ∀ part ∈ path.trunk ++ [name], IsEntryName part := by
      intro part inside
      rcases List.mem_append.mp inside with before | last
      · exact h part before
      · rw [List.mem_singleton.mp last]
        exact names.1
    rw [descend_cons, join_assoc base nonempty relative single,
      join_eq_descend base (parts ▸ entries), parts, ← descend_append, List.append_assoc]
    rfl

/-- Behind the slash that is the root directory stand the parts of the rest. -/
theorem stem_slash {chars : List Char} (nonempty : chars ≠ []) :
    stem ⟨'/' :: chars⟩ = trunk ⟨chars⟩ := by
  have parts : segments ⟨'/' :: chars⟩ = [] :: segments ⟨chars⟩ := segments_slash [] chars
  have last : ('/' :: chars).getLast? = chars.getLast? := by
    obtain ⟨c, rest, rfl⟩ := List.exists_cons_of_ne_nil nonempty
    exact List.getLast?_cons_cons
  rw [stem, if_pos (by rfl), trunk, trunk, last, parts]
  split
  · rw [List.dropLast_cons_of_ne_nil (segments_ne_nil _)]
    rfl
  · rfl

/-- What is spelled behind a path of names is spelled behind where that path begins. -/
theorem IsWay.descend_eq {path : Path} (h : path.IsWay) {names : List (List Char)}
    (nonempty : names ≠ []) (entries : ∀ name ∈ names, IsEntryName name) :
    path.descend names = path.anchor.descend (path.stem ++ names) := by
  by_cases absolute : path.isAbsolute = true
  · rw [anchor, if_pos absolute]
    obtain ⟨chars⟩ := path
    obtain ⟨rest, rfl⟩ : ∃ rest, chars = '/' :: rest :=
      List.head?_eq_some_iff.mp (beq_iff_eq.mp absolute)
    by_cases alone : rest = []
    · subst alone
      rfl
    · have stem_eq := stem_slash alone
      rw [IsWay, stem_eq] at h
      have relative : (Path.mk rest).isAbsolute = false := by
        by_contra slash
        rw [Bool.not_eq_false] at slash
        exact (h [] (by simp [trunk_of_isAbsolute slash])).ne_nil rfl
      have way : (Path.mk rest).IsWay := by rwa [IsWay, stem_of_relative relative]
      have written : root.join ⟨rest⟩ = ⟨'/' :: rest⟩ := join_eq (by decide) relative
      rw [← written, way.descend_join relative root entries fun empty => absurd empty nonempty,
        written, stem_eq, stem_of_relative relative]
  · have relative : path.isAbsolute = false := by simpa using absolute
    rw [anchor, if_neg absolute,
      ← h.descend_join relative ⟨[]⟩ entries fun empty => absurd empty nonempty, join_empty]

/-! ## Taking the last component off -/

theorem prefix_dropIdleEnd (segments : List (List Char)) : dropIdleEnd segments <+: segments :=
  List.rdropWhile_prefix ..

theorem solid_dropIdleEnd (segments : List (List Char)) :
    solid (dropIdleEnd segments) = solid segments := by
  have idle : solid (segments.rtakeWhile isIdle) = [] :=
    List.filter_eq_nil_iff.mpr fun segment inside => by simp [List.mem_rtakeWhile_imp inside]
  have split : dropIdleEnd segments ++ segments.rtakeWhile isIdle = segments :=
    List.rdropWhile_append_rtakeWhile ..
  rw [← congrArg solid split, solid_append, idle, List.append_nil]

theorem prefix_chars_ofSegments {front : List (List Char)} (nonempty : front ≠ [])
    (back : List (List Char)) : (ofSegments front).chars <+: (ofSegments (front ++ back)).chars := by
  induction front with
  | nil => exact absurd rfl nonempty
  | cons segment front ih =>
    cases front with
    | nil =>
      cases back with
      | nil => exact List.prefix_refl _
      | cons next back =>
        rw [List.singleton_append, ofSegments, ofSegments, List.intercalate_cons_cons,
          List.intercalate_singleton, List.append_assoc]
        exact List.prefix_append ..
    | cons next front =>
      rw [List.cons_append, List.cons_append, ofSegments, ofSegments, List.intercalate_cons_cons,
        List.intercalate_cons_cons, List.prefix_append_right_inj]
      exact ih (by simp)

/-- What `parent?` takes off a relative path is its last part that is not idle, and that unless it is
the only one with what is idle around it. -/
theorem parent?_eq {path : Path} {first : List Char} {rest : List (List Char)}
    (split : path.segments = first :: rest) (first_ne : first ≠ []) :
    path.parent? = if dropIdleEnd rest = [] then some ⟨[]⟩
      else some (ofSegments (first :: dropIdleEnd (dropIdleEnd rest).dropLast)) := by
  rw [parent?, split]
  by_cases none : dropIdleEnd rest = []
  · simp [none, first_ne]
  · simp [none, first_ne]

/-- A part of a path and some that follow it are written in front of the others. -/
theorem segments_of_begins {path : Path} {first : List Char} {front rest : List (List Char)}
    (split : path.segments = first :: rest) (begins : front <+: rest) :
    (ofSegments (first :: front)).segments = first :: front ∧
      (ofSegments (first :: front)).chars <+: path.chars := by
  obtain ⟨back, rfl⟩ := begins
  rw [← List.cons_append] at split
  constructor
  · refine segments_ofSegments (by simp) fun part inside => ?_
    refine @unbroken_of_mem_segments path part ?_
    rw [split]
    exact List.mem_append_left _ inside
  · rw [← ofSegments_segments path, split]
    exact prefix_chars_ofSegments (by simp) back

/-- A relative path loses one part at most, and some of its text. -/
theorem exists_parent?_eq_some {path : Path} (nonempty : path.chars ≠ [])
    (relative : path.isAbsolute = false) :
    ∃ parent last, path.parent? = some parent ∧ parent.chars <+: path.chars ∧
      parent.chars ≠ path.chars ∧ solid path.segments = solid parent.segments ++ last ∧
      last.length ≤ 1 := by
  obtain ⟨first, rest, split⟩ := List.exists_cons_of_ne_nil path.segments_ne_nil
  have first_ne : first ≠ [] := by
    have head := head_segments_ne_nil nonempty relative
    rw [split] at head
    simpa using head
  have of_cons : ∀ parts, solid (first :: parts) = solid [first] ++ solid parts :=
    fun parts => solid_append [first] parts
  rw [parent?_eq split first_ne]
  rcases List.eq_nil_or_concat (dropIdleEnd rest) with none | ⟨front, last, some⟩
  · have idle : solid rest = [] := by
      rw [← solid_dropIdleEnd, none]
      rfl
    refine ⟨⟨[]⟩, solid [first], if_pos none, List.nil_prefix, Ne.symm nonempty, ?_,
      List.length_filter_le ..⟩
    rw [split, of_cons, idle, List.append_nil]
    rfl
  · rw [List.concat_eq_append] at some
    have kept : front ++ [last] <+: rest := some ▸ prefix_dropIdleEnd rest
    have begins := (prefix_dropIdleEnd front).trans ((List.prefix_append front [last]).trans kept)
    obtain ⟨parts, written⟩ := segments_of_begins split begins
    refine ⟨ofSegments (first :: dropIdleEnd front), solid [last], ?_, written, ?_, ?_,
      List.length_filter_le ..⟩
    · rw [if_neg (by simp [some]), some, List.dropLast_concat]
    · intro same
      have same_parts : first :: dropIdleEnd front = first :: rest := by
        rw [← parts, ← split, segments, segments, same]
      have shorter := (prefix_dropIdleEnd front).length_le
      have longer := kept.length_le
      rw [List.length_append, List.length_singleton] at longer
      rw [(List.cons.inj same_parts).2] at shorter
      omega
    · have behind : solid rest = solid front ++ solid [last] := by
        rw [← solid_dropIdleEnd rest, some, solid_append]
      rw [parts, split, of_cons rest, of_cons (dropIdleEnd front), behind, solid_dropIdleEnd,
        List.append_assoc]

theorem LeadsDown.parent {path parent : Path} (down : path.LeadsDown)
    (taken : path.parent? = some parent) :
    parent.LeadsDown ∧ solid parent.segments <+: solid path.segments := by
  have nonempty : path.chars ≠ [] := by
    obtain ⟨chars⟩ := path
    rintro rfl
    cases taken
  obtain ⟨other, last, taken', begins, -, parts, -⟩ :=
    exists_parent?_eq_some nonempty down.relative
  obtain rfl := Option.some.inj (taken.symm.trans taken')
  have before : solid parent.segments <+: solid path.segments := parts ▸ List.prefix_append ..
  refine ⟨⟨isAbsolute_of_begins begins down.relative, fun up => down.not_up ?_⟩, before⟩
  have kept : ['.', '.'] ∈ solid parent.segments := List.mem_filter.mpr ⟨up, by decide⟩
  exact (List.mem_filter.mp (before.subset kept)).1

end Path

end LocaleKeys
