import LocaleKeys.Proofs.Markup.Lookup

/-!
# Content with a comment

A comment is a node of its own. In the content of an element it comes between two nodes, or it cuts
a text in two (`Inserted`), whatever is read behind it (`Inserted.withText`). The text of a property
is its first node, so a comment in front of the text hides its key, and a comment in the text cuts
the key off, unless only white space follows (`HidesKey`). No other comment makes a difference for
the keys (`Inserted.keys_eq_iff`).
-/

namespace LocaleKeys.Markup

/-! ## Content with a comment -/

/-- The content of an element, and the same with a comment behind the nodes that have been read in
front of it. -/
inductive Inserted : (front content content' : List Node) → Prop where
  /-- The comment comes behind a node, or first. -/
  | between (front later : List Node) : Inserted front (front ++ later) (front ++ .remark :: later)
  /-- The comment cuts a text. What stands in front of it is the front of the text up to white
  space, because it may cut a line end. -/
  | inText {value whole : List Char} (kept : Text.trim value <+: Text.trim whole)
      (earlier : List Node) (rest : List Char) (later : List Node) :
      Inserted (earlier ++ [.text value]) (earlier ++ .text whole :: later)
        (earlier ++ .text value :: .remark :: .text rest :: later)

/-- The text of a node, if that is text. -/
def Node.text? : Node → Option (List Char)
  | .text value => some value
  | _ => none

/-- The text of the first node, if that is text. -/
def firstText? (content : List Node) : Option (List Char) :=
  content.head?.bind Node.text?

/-- The text of the property with this content refers to a key, and a comment behind `front` hides
it or changes it: the comment comes in front of the text, or cuts off more than white space. -/
def HidesKey (name : List Char) (front content : List Node) : Prop :=
  isPropertyName name = true ∧ content.any Node.isElement = false ∧
    ∃ whole, firstText? content = some whole ∧ textKey? whole ≠ none ∧
      (front = [] ∨ ∃ value, front = [.text value] ∧ Text.trim value ≠ Text.trim whole)

theorem propertyText?_eq (name : List Char) (content : List Node) :
    propertyText? name content =
      if isPropertyName name && !content.any Node.isElement then (firstText? content).map Text.trim
      else none := by
  unfold propertyText?
  congr 1
  cases content with
  | nil => rfl
  | cons node content => cases node <;> rfl

/-- The keys of a property are those of its first text. -/
theorem keysOf_propertyLookups {name : List Char} {content : List Node}
    (property : isPropertyName name = true) (plain : content.any Node.isElement = false) :
    keysOf (propertyLookups name content) =
      ((firstText? content).bind textKey?).toList.map fun key => ⟨String.ofList key⟩ := by
  rw [propertyLookups, propertyText?_eq, property, plain]
  cases firstText? content with
  | none => rfl
  | some value => exact keysOf_lookup?_trim value

theorem propertyLookups_eq_nil {name : List Char} {content : List Node}
    (h : ¬ (isPropertyName name = true ∧ content.any Node.isElement = false)) :
    propertyLookups name content = [] := by
  rw [propertyLookups, propertyText?_eq, if_neg (by simpa using h)]
  rfl

section

variable {front content content' : List Node}

theorem Inserted.lookupsOf_eq (h : Inserted front content content') :
    lookupsOf content = lookupsOf content' := by
  cases h with
  | between front later => simp [lookupsOf_append, lookupsOf, Node.lookups]
  | inText kept earlier rest later => simp [lookupsOf_append, lookupsOf, Node.lookups]

theorem Inserted.any_isElement_eq (h : Inserted front content content') :
    content.any Node.isElement = content'.any Node.isElement := by
  cases h with
  | between front later => simp [Node.isElement]
  | inText kept earlier rest later => simp [Node.isElement]

/-- A comment hides the key of the first text, or changes it, just if it comes in front of that text
or cuts off more than white space. -/
theorem Inserted.textKey?_eq_iff (h : Inserted front content content') :
    (firstText? content).bind textKey? = (firstText? content').bind textKey? ↔
      ¬ ∃ whole, firstText? content = some whole ∧ textKey? whole ≠ none ∧
        (front = [] ∨ ∃ value, front = [.text value] ∧ Text.trim value ≠ Text.trim whole) := by
  cases h with
  | between front later =>
    cases front with
    | nil =>
      have hidden : firstText? (.remark :: later) = none := rfl
      rw [List.nil_append, List.nil_append, hidden]
      cases firstText? later with
      | none => simp
      | some whole => simp
    | cons node front =>
      -- The first node stays the first.
      simp only [firstText?, List.cons_append, List.head?_cons, Option.bind_some, true_iff]
      rintro ⟨whole, first, -, empty | ⟨value, single, other⟩⟩
      · cases empty
      · obtain ⟨rfl, -⟩ := List.cons.inj single
        cases first
        exact other rfl
  | @inText value whole kept earlier rest later =>
    cases earlier with
    | nil =>
      have same := textKey?_eq_iff_of_prefix kept
      simp only [firstText?, List.nil_append, List.head?_cons, Option.bind_some, Node.text?]
      rw [eq_comm, same]
      constructor
      · rintro alike ⟨_, found, refers, empty | ⟨_, single, other⟩⟩
        · cases empty
        · cases found
          cases single
          exact alike.elim refers other
      · intro unhidden
        by_cases refers : textKey? whole = none
        · exact .inl refers
        · exact .inr (Decidable.byContradiction fun other =>
            unhidden ⟨whole, rfl, refers, .inr ⟨value, rfl, other⟩⟩)
    | cons node earlier =>
      simp only [firstText?, List.cons_append, List.head?_cons, Option.bind_some, true_iff]
      rintro ⟨whole, -, -, empty | ⟨value, single, -⟩⟩
      · cases empty
      · exact absurd (List.cons.inj single).2 (by simp)

/-- The comment leaves the keys of the element alone unless it hides one. -/
theorem Inserted.keys_eq_iff (h : Inserted front content content') (name : List Char) :
    keysOf (propertyLookups name content) = keysOf (propertyLookups name content') ↔
      ¬ HidesKey name front content := by
  by_cases property : isPropertyName name = true ∧ content.any Node.isElement = false
  · obtain ⟨named, plain⟩ := property
    have plain' : content'.any Node.isElement = false := h.any_isElement_eq ▸ plain
    rw [keysOf_propertyLookups named plain, keysOf_propertyLookups named plain']
    simp only [HidesKey, named, plain, true_and, ← h.textKey?_eq_iff]
    constructor
    · intro same
      revert same
      cases (firstText? content).bind textKey? <;> cases (firstText? content').bind textKey? <;>
        simp [String.ofList_inj]
    · intro same
      rw [same]
  · rw [propertyLookups_eq_nil property, propertyLookups_eq_nil (h.any_isElement_eq ▸ property)]
    simp only [true_iff]
    exact fun hides => property ⟨hides.1, hides.2.1⟩

end

/-! ## More behind content -/

theorem Inserted.add {front content content' : List Node} (h : Inserted front content content')
    (node : Node) : Inserted front (content ++ [node]) (content' ++ [node]) := by
  cases h with
  | between front later => simpa using Inserted.between front (later ++ [node])
  | inText kept earlier rest later =>
    simpa using Inserted.inText kept earlier rest (later ++ [node])

/-- Content with more text behind it, which continues the last node if that is text. -/
def withText (content : List Node) (value : List Char) : List Node :=
  match content.getLast? with
  | some (.text before) => content.dropLast ++ [.text (before ++ value)]
  | _ => content ++ [.text value]

@[simp] theorem withText_nil (value : List Char) : withText [] value = [.text value] := rfl

theorem withText_text (content : List Node) (before value : List Char) :
    withText (content ++ [.text before]) value = content ++ [.text (before ++ value)] := by
  simp [withText]

theorem withText_append {later : List Node} (h : later ≠ []) (front : List Node)
    (value : List Char) : withText (front ++ later) value = front ++ withText later value := by
  rcases List.eq_nil_or_concat later with rfl | ⟨later, node, rfl⟩
  · exact absurd rfl h
  · cases node <;> simp [withText, ← List.append_assoc]

/-- Text does not continue a node that is none. -/
theorem withText_behind {node : Node} (h : node.text? = none) (front later : List Node)
    (value : List Char) :
    withText (front ++ node :: later) value = front ++ node :: withText later value := by
  rw [withText_append (List.cons_ne_nil node later)]
  by_cases empty : later = []
  · subst empty
    cases node with
    | text before => cases h
    | element name attributes children => rfl
    | remark => rfl
  · have behind := withText_append empty [node] value
    rw [List.singleton_append] at behind
    rw [behind, List.singleton_append]

/-- Text is a node of its own, or it continues the last node. -/
theorem withText_cases (content : List Node) :
    (∀ value, withText content value = content ++ [.text value]) ∨
      ∃ earlier before, content = earlier ++ [.text before] ∧
        ∀ value, withText content value = earlier ++ [.text (before ++ value)] := by
  rcases List.eq_nil_or_concat content with rfl | ⟨earlier, node, rfl⟩
  · exact .inl fun _ => rfl
  · rw [List.concat_eq_append]
    cases text : node.text? with
    | none => exact .inl fun value => by simp [withText_behind text]
    | some before =>
      obtain rfl : node = .text before := by
        cases node <;> cases text
        rfl
      exact .inr ⟨earlier, before, rfl, withText_text earlier before⟩

/-- The comment cuts a text whose front is the same up to white space. -/
theorem Inserted.cut (content : List Node) {kept ends : List Char}
    (spaces : ∀ c ∈ ends, Text.isSpace c = true) (more rest : List Char) :
    Inserted (withText content (kept ++ ends)) (withText content (kept ++ more))
      (withText content (kept ++ ends) ++ [.remark, .text rest]) := by
  rcases withText_cases content with run | ⟨earlier, before, -, run⟩
  · rw [run, run, List.append_assoc]
    exact .inText (Text.trim_prefix spaces kept more) content rest []
  · have front := Text.trim_prefix spaces (before ++ kept) more
    rw [run, run, List.append_assoc, ← List.append_assoc before, ← List.append_assoc before]
    exact .inText front earlier rest []

/-- Text right behind the comment continues a text in front of it without the comment. -/
theorem Inserted.continued (front : List Node) (value : List Char) :
    Inserted front (withText front value) (front ++ [.remark, .text value]) := by
  rcases withText_cases front with run | ⟨earlier, before, rfl, run⟩
  · rw [run]
    exact .between front [.text value]
  · rw [run, List.append_assoc]
    exact .inText (Text.trim_prefix_append before value) earlier value []

theorem Inserted.withText {front content content' : List Node}
    (h : Inserted front content content') (value : List Char) :
    Inserted front (withText content value) (withText content' value) := by
  cases h with
  | between front later =>
    rw [withText_behind rfl]
    by_cases empty : later = []
    · subst empty
      rw [List.append_nil]
      exact .continued front value
    · rw [withText_append empty]
      exact .between front _
  | @inText before whole kept earlier rest later =>
    by_cases empty : later = []
    · subst empty
      have kept' := Text.trim_prefix_append whole value
      have behind := withText_text (earlier ++ [.text before, .remark]) rest value
      simp only [List.append_assoc, List.cons_append, List.nil_append] at behind
      rw [withText_text, behind]
      exact .inText (kept.trans kept') earlier (rest ++ value) []
    · have behind := withText_append empty (earlier ++ [.text whole]) value
      have behind' := withText_append empty (earlier ++ [.text before, .remark, .text rest]) value
      simp only [List.append_assoc, List.cons_append, List.nil_append] at behind behind'
      rw [behind, behind']
      exact .inText kept earlier rest _

end LocaleKeys.Markup
