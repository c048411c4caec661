import LocaleKeys.Markup.Lookup
import LocaleKeys.Proofs.Key

/-!
# Keys of a markup document

The evaluation of a user interface document comes to the keys of its tree, unless there is none
(`evaluate_eq`). Two trees that differ in the content of one element differ at most in the key that
the text of this element refers to (`DiffersIn.keys_eq_iff`).
-/

namespace LocaleKeys.Markup

/-- The keys that an evaluation asks for, without those that name nothing. -/
def Evaluation.keys (evaluation : Evaluation) : List Key :=
  (evaluation.lookups.map fun key => (⟨String.ofList key⟩ : Key)).filter (!·.isBlank)

theorem collectKeys_recording (evaluation : List Char → Evaluation) (document : List Char) :
    collectKeys (.recording evaluation) document =
      match (evaluation document).failure? with
      | none => .ok (evaluation document).keys
      | some message => .error message := by
  rw [collectKeys, Evaluator.recording, Evaluation.record]
  cases (evaluation document).failure? <;> rfl

-- The key that is asked for is lost, because the evaluation fails on its answer.
example :
    collectKeys (.recording fun _ => .lookup ['a'] fun answer =>
      if answer = "test" then .failed "no" else .finished) [] = .error "no" := rfl

theorem Evaluation.lookups_ofLookups (keys : List (List Char)) :
    (ofLookups keys).lookups = keys := by
  induction keys with
  | nil => rfl
  | cons key keys ih => exact congrArg (key :: ·) ih

theorem Evaluation.failure?_ofLookups (keys : List (List Char)) :
    (ofLookups keys).failure? = none := by
  induction keys with
  | nil => rfl
  | cons key keys ih => exact ih

/-- The evaluation of a user interface document fails only if the document is not well-formed. -/
theorem evaluate_eq (document : List Char) :
    evaluate document =
      match parse? document with
      | none => .error malformedMessage
      | some root => .ok root.lookups := by
  rw [evaluate, Evaluator.recording, evaluation]
  cases parse? document with
  | none => rfl
  | some root =>
    simp only [Evaluation.record, Evaluation.failure?_ofLookups, Evaluation.lookups_ofLookups]

/-- The keys that are referred to, without those that name nothing. -/
def keysOf (lookups : List (List Char)) : List Key :=
  (lookups.map fun key => (⟨String.ofList key⟩ : Key)).filter (!·.isBlank)

theorem keysOf_append (lookups lookups' : List (List Char)) :
    keysOf (lookups ++ lookups') = keysOf lookups ++ keysOf lookups' := by
  rw [keysOf, List.map_append, List.filter_append, ← keysOf, ← keysOf]

/-- The keys of a user interface document are those of its tree. -/
theorem collectKeys_evaluate {document : List Char} {root : Node}
    (h : parse? document = some root) :
    collectKeys evaluate document = .ok (keysOf root.lookups) := by
  rw [collectKeys, evaluate_eq, h]
  rfl

/-! ## Keys of text -/

/-- The key that a property text refers to, if it names anything. -/
def textKey? (text : List Char) : Option (List Char) :=
  (lookup? (Text.trim text)).filter (!·.isEmpty)

theorem lookup?_eq_some_iff {value key : List Char} :
    lookup? value = some key ↔ value = '%' :: key := by
  constructor
  · intro h
    unfold lookup? at h
    split at h
    · cases h
      rfl
    · cases h
  · rintro rfl
    rfl

theorem textKey?_eq_some_iff {text key : List Char} :
    textKey? text = some key ↔ Text.trim text = '%' :: key ∧ key ≠ [] := by
  rw [textKey?, Option.filter_eq_some_iff, lookup?_eq_some_iff]
  simp

/-- A key in a trimmed text does not end with white space, so it names something unless it is
empty. -/
theorem isBlank_of_trim {text key : List Char} (h : Text.trim text = '%' :: key) :
    (Key.mk (String.ofList key)).isBlank = key.isEmpty := by
  rcases List.eq_nil_or_concat key with rfl | ⟨front, c, rfl⟩
  · rfl
  · rw [List.concat_eq_append] at h ⊢
    have last : (Text.trim text).getLast? = some c := by
      rw [h, ← List.cons_append, List.getLast?_concat]
    have visible := Text.isSpace_of_getLast?_trim last
    have notSpace : c ≠ ' ' := by
      rintro rfl
      cases visible
    have stored : (Key.escape (front ++ [c])).getLast? = some c := by
      rw [Key.getLast?_escape]
      simp [Key.underscored, notSpace]
    rw [Key.isBlank, Key.toList_propertiesKey, String.toList_ofList]
    have none : (Key.escape (front ++ [c])).all Text.isSpace = false :=
      List.all_eq_false.mpr ⟨c, List.mem_of_getLast? stored, by simp [visible]⟩
    rw [none]
    simp

theorem keysOf_lookup?_trim (text : List Char) :
    keysOf (lookup? (Text.trim text)).toList =
      (textKey? text).toList.map fun key => ⟨String.ofList key⟩ := by
  rw [textKey?]
  cases found : lookup? (Text.trim text) with
  | none => rfl
  | some key =>
    have blank := isBlank_of_trim (lookup?_eq_some_iff.mp found)
    cases key with
    | nil => rfl
    | cons c key =>
      simp only [keysOf, Option.toList_some, List.map_cons, List.map_nil, List.filter_cons, blank]
      rfl

/-- The front of a text refers to the same key if that is all of the text, or if the text refers to
none. -/
theorem textKey?_eq_iff_of_prefix {text front : List Char}
    (h : Text.trim front <+: Text.trim text) :
    textKey? front = textKey? text ↔ textKey? text = none ∨ Text.trim front = Text.trim text := by
  constructor
  · intro same
    cases found : textKey? text with
    | none => exact .inl rfl
    | some key =>
      rw [found] at same
      right
      rw [(textKey?_eq_some_iff.mp same).1, (textKey?_eq_some_iff.mp found).1]
  · rintro (none | same)
    · rw [none, Option.eq_none_iff_forall_ne_some]
      intro key found
      obtain ⟨spelled, nonempty⟩ := textKey?_eq_some_iff.mp found
      obtain ⟨more, split⟩ := h
      have found' : textKey? text = some (key ++ more) :=
        textKey?_eq_some_iff.mpr ⟨by rw [← split, spelled]; rfl, by simp [nonempty]⟩
      rw [none] at found'
      cases found'
    · rw [textKey?, textKey?, same]

/-! ## Trees that differ in one place -/

/-- Two trees are the same but for the content of one element, of the given name and attributes. -/
inductive DiffersIn (name : List Char) (attributes : List Attribute)
    (content content' : List Node) : Node → Node → Prop where
  | here : DiffersIn name attributes content content' (.element name attributes content)
      (.element name attributes content')
  | inside {node node' : Node} (outer : List Char) (others : List Attribute)
      (before after : List Node) (differs : DiffersIn name attributes content content' node node') :
      DiffersIn name attributes content content' (.element outer others (before ++ node :: after))
        (.element outer others (before ++ node' :: after))

theorem lookupsOf_append (nodes nodes' : List Node) :
    lookupsOf (nodes ++ nodes') = lookupsOf nodes ++ lookupsOf nodes' := by
  induction nodes with
  | nil => rfl
  | cons node nodes ih => rw [List.cons_append, lookupsOf, lookupsOf, ih, List.append_assoc]

/-- The keys that the text of an element refers to, of which there is one at most. -/
def propertyLookups (name : List Char) (children : List Node) : List (List Char) :=
  ((propertyText? name children).bind lookup?).toList

theorem propertyLookups_of_element {children : List Node} {node : Node} (h : node ∈ children)
    (element : node.isElement = true) (name : List Char) : propertyLookups name children = [] := by
  have some : children.any Node.isElement = true := List.any_eq_true.mpr ⟨node, h, element⟩
  simp [propertyLookups, propertyText?, some]

section

variable {name : List Char} {attributes : List Attribute} {content content' : List Node}
  {node node' : Node}

theorem DiffersIn.isElement (h : DiffersIn name attributes content content' node node') :
    node.isElement = true ∧ node'.isElement = true := by
  cases h with
  | here => exact ⟨rfl, rfl⟩
  | inside => exact ⟨rfl, rfl⟩

/-- What surrounds the element refers to the same keys. -/
theorem DiffersIn.exists_lookups (h : DiffersIn name attributes content content' node node')
    (same : lookupsOf content = lookupsOf content') :
    ∃ before after, node.lookups = before ++ propertyLookups name content ++ after ∧
      node'.lookups = before ++ propertyLookups name content' ++ after := by
  induction h with
  | here =>
    refine ⟨_, lookupsOf content, Node.lookups.eq_1 .., ?_⟩
    rw [same]
    exact Node.lookups.eq_1 ..
  | @inside node node' outer others front behind differs ih =>
    obtain ⟨before, after, lookups, lookups'⟩ := ih
    obtain ⟨element, element'⟩ := differs.isElement
    have none : propertyLookups outer (front ++ node :: behind) = [] :=
      propertyLookups_of_element (by simp) element outer
    have none' : propertyLookups outer (front ++ node' :: behind) = [] :=
      propertyLookups_of_element (by simp) element' outer
    refine ⟨others.filterMap (lookup? ·.value) ++ lookupsOf front ++ before,
      after ++ lookupsOf behind, ?_, ?_⟩
    · rw [Node.lookups, ← propertyLookups, none, lookupsOf_append, lookupsOf, lookups]
      simp
    · rw [Node.lookups, ← propertyLookups, none', lookupsOf_append, lookupsOf, lookups']
      simp

/-- Only the text of the element can make the keys differ. -/
theorem DiffersIn.keys_eq_iff (h : DiffersIn name attributes content content' node node')
    (same : lookupsOf content = lookupsOf content') :
    keysOf node.lookups = keysOf node'.lookups ↔
      keysOf (propertyLookups name content) = keysOf (propertyLookups name content') := by
  obtain ⟨before, after, lookups, lookups'⟩ := h.exists_lookups same
  rw [lookups, lookups', keysOf_append, keysOf_append, keysOf_append, keysOf_append,
    List.append_cancel_right_eq, List.append_cancel_left_eq]

end

end LocaleKeys.Markup
