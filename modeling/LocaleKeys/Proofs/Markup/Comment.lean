import LocaleKeys.Proofs.Markup.CharacterData
import LocaleKeys.Proofs.Markup.Content
import LocaleKeys.Proofs.Markup.Declaration
import LocaleKeys.Proofs.Markup.Piece

/-!
# Comments in markup documents

A place in the content of an element is where the text in front of it can be read and leaves the
element open. With a comment at such a place a document is read in step with the document without it
(`Apart`): first the contents of that element are apart, then those of the one around it, and at the
end the trees differ in the content of that element alone. So the comment changes the keys of the
document just if it hides the one that the text of the element refers to
(`collectKeys_comment_iff`).
-/

namespace LocaleKeys.Markup

/-! ## Open elements -/

namespace OpenElement

/-- The content so far, in the order of the document. -/
def content (e : OpenElement) : List Node :=
  e.children.reverse

theorem content_add (e : OpenElement) (node : Node) : (e.add node).content = e.content ++ [node] :=
  List.reverse_cons

theorem content_addText (e : OpenElement) (value : List Char) :
    (e.addText value).content = withText e.content value := by
  unfold addText content
  split
  · next before children same =>
    rw [same, List.reverse_cons, List.reverse_cons, withText_text]
  · next children other =>
    cases same : e.children with
    | nil => rfl
    | cons node children =>
      have text : node.text? = none := by
        cases node with
        | text before => exact absurd same (other before children)
        | element name attributes content => rfl
        | remark => rfl
      have behind := withText_behind text children.reverse [] value
      rw [List.reverse_cons, List.reverse_cons, behind, List.append_assoc]
      rfl

/-- Two open elements have the same tag and stand in the same scope. -/
structure SameTag (p p' : OpenElement) : Prop where
  name_eq : p'.name = p.name
  attributes_eq : p'.attributes = p.attributes
  scope_eq : p'.scope = p.scope

theorem sameTag_add (p : OpenElement) (node : Node) : p.SameTag (p.add node) :=
  ⟨rfl, rfl, rfl⟩

theorem sameTag_addText (p : OpenElement) (value : List Char) : p.SameTag (p.addText value) := by
  unfold addText
  split <;> exact ⟨rfl, rfl, rfl⟩

theorem SameTag.symm {p p' : OpenElement} (h : p.SameTag p') : p'.SameTag p :=
  ⟨h.name_eq.symm, h.attributes_eq.symm, h.scope_eq.symm⟩

theorem SameTag.trans {p p' p'' : OpenElement} (h : p.SameTag p') (h' : p'.SameTag p'') :
    p.SameTag p'' :=
  ⟨h'.name_eq.trans h.name_eq, h'.attributes_eq.trans h.attributes_eq,
    h'.scope_eq.trans h.scope_eq⟩

end OpenElement

/-- The trees differ in a comment in the content of the element that is open at its place. -/
def DiffersAt (e : OpenElement) (node node' : Node) : Prop :=
  ∃ content content', Inserted e.content content content' ∧
    DiffersIn e.name.name e.attributes content content' node node'

/-- An open element, and the same with a comment inside: in its own content, behind what has been
read of it at the place of the comment, or in one of its nodes. -/
inductive Marked (e p p' : OpenElement) : Prop where
  | here (tag : e.SameTag p) (tag' : e.SameTag p')
      (inserted : Inserted e.content p.content p'.content)
  | above (tag : p.SameTag p') (before after : List Node) {node node' : Node}
      (content : p.content = before ++ node :: after)
      (content' : p'.content = before ++ node' :: after) (differs : DiffersAt e node node')

section

variable {e p p' : OpenElement}

theorem Marked.sameTag (h : Marked e p p') : p.SameTag p' := by
  cases h with
  | here tag tag' _ => exact tag.symm.trans tag'
  | above tag => exact tag

theorem Marked.add (h : Marked e p p') (node : Node) : Marked e (p.add node) (p'.add node) := by
  cases h with
  | here tag tag' inserted =>
    refine .here (tag.trans (p.sameTag_add node)) (tag'.trans (p'.sameTag_add node)) ?_
    rw [OpenElement.content_add, OpenElement.content_add]
    exact inserted.add node
  | above tag before after content content' differs =>
    refine .above ((p.sameTag_add node).symm.trans (tag.trans (p'.sameTag_add node))) before
      (after ++ [node]) ?_ ?_ differs
    · rw [OpenElement.content_add, content, List.append_assoc, List.cons_append]
    · rw [OpenElement.content_add, content', List.append_assoc, List.cons_append]

theorem DiffersAt.text? {node node' : Node} (h : DiffersAt e node node') :
    node.text? = none ∧ node'.text? = none := by
  obtain ⟨_, _, _, differs⟩ := h
  cases differs with
  | here => exact ⟨rfl, rfl⟩
  | inside => exact ⟨rfl, rfl⟩

theorem Marked.addText (h : Marked e p p') (value : List Char) :
    Marked e (p.addText value) (p'.addText value) := by
  cases h with
  | here tag tag' inserted =>
    refine .here (tag.trans (p.sameTag_addText value)) (tag'.trans (p'.sameTag_addText value)) ?_
    rw [OpenElement.content_addText, OpenElement.content_addText]
    exact inserted.withText value
  | above tag before after content content' differs =>
    obtain ⟨text, text'⟩ := differs.text?
    refine .above ((p.sameTag_addText value).symm.trans (tag.trans (p'.sameTag_addText value)))
      before (withText after value) ?_ ?_ differs
    · rw [OpenElement.content_addText, content, withText_behind text]
    · rw [OpenElement.content_addText, content', withText_behind text']

/-- Closed, the elements are trees that differ in the comment. -/
theorem Marked.close (h : Marked e p p') : DiffersAt e p.close p'.close := by
  have closed : ∀ p : OpenElement, p.close = .element p.name.name p.attributes p.content :=
    fun _ => rfl
  rw [closed, closed]
  cases h with
  | here tag tag' inserted =>
    rw [tag.name_eq, tag.attributes_eq, tag'.name_eq, tag'.attributes_eq]
    exact ⟨_, _, inserted, .here⟩
  | above tag before after content content' differs =>
    obtain ⟨own, own', inserted, differs⟩ := differs
    rw [tag.name_eq, tag.attributes_eq, content, content']
    exact ⟨own, own', inserted, .inside _ _ before after differs⟩

end

/-! ## In step -/

/-- What has been read without the comment and with it: the comment is in an open element, or in the
tree that is complete. -/
inductive Apart (e : OpenElement) : Reading → Reading → Prop where
  | opened {p p' : OpenElement} (marked : Marked e p p') (inner outer : List OpenElement)
      (root? : Option Node) : Apart e ⟨inner ++ p :: outer, root?⟩ ⟨inner ++ p' :: outer, root?⟩
  | closed {root root' : Node} (differs : DiffersAt e root root') :
      Apart e ⟨[], some root⟩ ⟨[], some root'⟩

section

variable {e : OpenElement} {reading reading' next : Reading}

theorem Apart.isEmpty_eq (h : Apart e reading reading') :
    reading'.opened.isEmpty = reading.opened.isEmpty := by
  cases h with
  | opened marked inner outer root? => cases inner <;> rfl
  | closed => rfl

theorem Apart.isSome_eq (h : Apart e reading reading') :
    reading'.root?.isSome = reading.root?.isSome := by
  cases h <;> rfl

theorem Apart.scope_eq (h : Apart e reading reading') : reading'.scope = reading.scope := by
  cases h with
  | opened marked inner outer root? =>
    cases inner with
    | nil => exact marked.sameTag.scope_eq
    | cons i inner => rfl
  | closed => rfl

theorem Apart.add? (h : Apart e reading reading') {node : Node}
    (run : reading.add? node = some next) :
    ∃ next', reading'.add? node = some next' ∧ Apart e next next' := by
  cases h with
  | opened marked inner outer root? =>
    cases inner with
    | nil =>
      cases run
      exact ⟨_, rfl, .opened (marked.add node) [] outer root?⟩
    | cons i inner =>
      cases run
      exact ⟨_, rfl, .opened marked (i.add node :: inner) outer root?⟩
  | closed differs =>
    cases node with
    | remark =>
      cases run
      exact ⟨_, rfl, .closed differs⟩
    | text value => cases run
    | element name attributes children => cases run

theorem Apart.addText? (h : Apart e reading reading') {value : List Char}
    (run : reading.addText? value = some next) :
    ∃ next', reading'.addText? value = some next' ∧ Apart e next next' := by
  cases h with
  | opened marked inner outer root? =>
    cases inner with
    | nil =>
      cases run
      exact ⟨_, rfl, .opened (marked.addText value) [] outer root?⟩
    | cons i inner =>
      cases run
      exact ⟨_, rfl, .opened marked (i.addText value :: inner) outer root?⟩
  | closed differs => cases run

theorem Apart.openTag? (h : Apart e reading reading') {tag : Tag}
    (run : reading.openTag? tag = some next) :
    ∃ next', reading'.openTag? tag = some next' ∧ Apart e next next' := by
  simp only [Reading.openTag?, bind, Option.bind_eq_some_iff] at run
  obtain ⟨values, read, ⟨attributes, scope⟩, resolved, run⟩ := run
  simp only [Reading.openTag?, bind, read, Option.bind_some, h.scope_eq, resolved, h.isEmpty_eq,
    h.isSome_eq]
  split at run
  · next closes =>
    rw [if_pos closes]
    exact h.add? run
  · next stays =>
    rw [if_neg stays]
    split at run
    · cases run
    · next room =>
      cases run
      rw [if_neg room]
      cases h with
      | opened marked inner outer root? =>
        exact ⟨_, rfl, .opened marked (⟨tag.name, attributes, scope, []⟩ :: inner) outer root?⟩
      | closed differs => exact absurd rfl room

theorem Apart.closeTag? (h : Apart e reading reading') {name : QualifiedName}
    (run : reading.closeTag? name = some next) :
    ∃ next', reading'.closeTag? name = some next' ∧ Apart e next next' := by
  cases h with
  | @opened p p' marked inner outer root? =>
    cases inner with
    | nil =>
      simp only [Reading.closeTag?, List.nil_append, marked.sameTag.name_eq] at run ⊢
      split at run
      · next same =>
        rw [if_pos same]
        have differs := marked.close
        cases outer with
        | nil =>
          cases root? with
          | none =>
            cases run
            exact ⟨_, rfl, .closed differs⟩
          | some root => cases run
        | cons q outer =>
          cases run
          have marked : Marked e (q.add p.close) (q.add p'.close) :=
            .above ⟨rfl, rfl, rfl⟩ q.content [] (q.content_add _) (q.content_add _) differs
          exact ⟨_, rfl, .opened marked [] outer root?⟩
      · cases run
    | cons i inner =>
      simp only [Reading.closeTag?, List.cons_append] at run ⊢
      split at run
      · next same =>
        rw [if_pos same]
        exact (Apart.opened marked inner outer root?).add? run
      · cases run
  | closed differs => cases run

/-- Every piece of the document is read in step. -/
theorem Apart.next? (h : Apart e reading reading') {piece : Piece}
    (run : reading.next? piece = some next) :
    ∃ next', reading'.next? piece = some next' ∧ Apart e next next' := by
  cases piece with
  | text raw =>
    simp only [Reading.next?, h.isEmpty_eq] at run ⊢
    split at run
    · next outside =>
      rw [if_pos outside]
      split at run
      · next blank =>
        cases run
        rw [if_pos blank]
        exact ⟨_, rfl, h⟩
      · cases run
    · next inside =>
      rw [if_neg inside]
      split at run
      · next allowed =>
        rw [if_pos allowed]
        obtain ⟨data, read, run⟩ := Option.bind_eq_some_iff.mp run
        rw [read]
        exact h.addText? run
      · cases run
  | data raw =>
    simp only [Reading.next?] at run ⊢
    split at run
    · next allowed =>
      rw [if_pos allowed]
      exact h.addText? run
    · cases run
  | comment raw =>
    simp only [Reading.next?] at run ⊢
    split at run
    · next allowed =>
      rw [if_pos allowed]
      exact h.add? run
    · cases run
  | instruction raw =>
    simp only [Reading.next?] at run ⊢
    split at run
    · next allowed =>
      rw [if_pos allowed]
      exact h.add? run
    · cases run
  | opening raw =>
    obtain ⟨tag, read, run⟩ := Option.bind_eq_some_iff.mp run
    rw [Reading.next?, read]
    exact h.openTag? run
  | closing raw =>
    obtain ⟨name, read, run⟩ := Option.bind_eq_some_iff.mp run
    rw [Reading.next?, read]
    exact h.closeTag? run

/-- A run over pieces keeps in step. -/
theorem Apart.foldlM (h : Apart e reading reading') {pieces : List Piece}
    (run : pieces.foldlM Reading.next? reading = some next) :
    ∃ next', pieces.foldlM Reading.next? reading' = some next' ∧ Apart e next next' := by
  induction pieces generalizing reading reading' with
  | nil =>
    cases run
    exact ⟨_, rfl, h⟩
  | cons piece pieces ih =>
    rw [List.foldlM_cons] at run
    obtain ⟨mid, step, run⟩ := Option.bind_eq_some_iff.mp run
    obtain ⟨mid', step', apart⟩ := h.next? step
    obtain ⟨next', run', apart⟩ := ih apart run
    refine ⟨next', ?_, apart⟩
    rw [List.foldlM_cons, step']
    exact run'

theorem Apart.finish? (h : Apart e reading reading') {root : Node}
    (run : reading.finish? = some root) :
    ∃ root', reading'.finish? = some root' ∧ DiffersAt e root root' := by
  cases h with
  | opened marked inner outer root? => cases inner <;> cases run
  | closed differs =>
    cases run
    exact ⟨_, rfl, differs⟩

end

/-! ## Properties without attributes -/

/-- The open element of a property without attributes. -/
def openText (children : List Node) : OpenElement :=
  ⟨⟨[], "text".toList⟩, [], [], children⟩

/-- What is read of a document that begins with such a property. -/
theorem read?_text {document : List Char} {pieces : List Piece}
    (plain : dropDeclaration? (dropMark document) = some document)
    (cut : Piece.cut? document = some (.opening "text".toList :: pieces)) :
    read? document = pieces.foldlM Reading.next? ⟨[openText []], none⟩ := by
  have name : readName? "text".toList = some (⟨[], "text".toList⟩, []) := rfl
  have tag : Tag.ofRaw? "text".toList = some ⟨⟨[], "text".toList⟩, [], false⟩ := by
    have attributes : readAttributes? [] = some ([], false) := by
      rw [readAttributes?]
      rfl
    rw [Tag.ofRaw?, name]
    show (readAttributes? []).map _ = _
    rw [attributes]
    rfl
  have step : Reading.next? .start (.opening "text".toList) = some ⟨[openText []], none⟩ := by
    rw [Reading.next?, tag]
    rfl
  rw [read?, plain, Option.bind_some, readBody?, cut, Option.bind_some, List.foldlM_cons, step]
  rfl

theorem collectKeys_text {document : List Char} {pieces : List Piece} (root : Node)
    (plain : dropDeclaration? (dropMark document) = some document)
    (cut : Piece.cut? document = some (.opening "text".toList :: pieces))
    (read : (pieces.foldlM Reading.next? ⟨[openText []], none⟩).bind Reading.finish? = some root) :
    parse? document = some root ∧ collectKeys evaluate document = .ok (keysOf root.lookups) := by
  have parsed : parse? document = some root := by rw [parse?_eq, read?_text plain cut, read]
  exact ⟨parsed, collectKeys_evaluate parsed⟩

/-! ## A place in a document -/

section

variable {before after raw : List Char} {e : OpenElement} {outer : List OpenElement}
  {root? : Option Node}

theorem Marked.remark (e : OpenElement) : Marked e e (e.add .remark) := by
  refine .here ⟨rfl, rfl, rfl⟩ (e.sameTag_add .remark) ?_
  have first := Inserted.between e.content []
  rwa [List.append_nil, ← e.content_add] at first

/-- A comment in an open element. -/
theorem next?_comment (comment : Reading.isComment raw = true) (e : OpenElement)
    (outer : List OpenElement) (root? : Option Node) :
    Reading.next? ⟨e :: outer, root?⟩ (.comment raw) = some ⟨e.add .remark :: outer, root?⟩ := by
  rw [Reading.next?, if_pos comment]
  rfl

/-- What a piece of text is that has been read in an open element. -/
theorem next?_text_eq_some_iff {reading : Reading} {text : List Char} :
    reading.next? (.text text) = some ⟨e :: outer, root?⟩ ↔
      text.all isAllowed = true ∧ Text.containsWord [']', ']', '>'] text = false ∧
        ∃ e' data, reading = ⟨e' :: outer, root?⟩ ∧ Datum.read? text = some data ∧
          e = e'.addText (Datum.textValue data) := by
  obtain ⟨opened, root?'⟩ := reading
  cases opened with
  | nil =>
    simp only [Reading.next?, List.isEmpty_nil, if_true]
    constructor
    · intro run
      split at run <;> cases run
    · rintro ⟨-, -, _, _, same, -⟩
      cases same
  | cons e' others =>
    simp only [Reading.next?, List.isEmpty_cons, Bool.false_eq_true, if_false, Bool.and_eq_true,
      Bool.not_eq_true']
    constructor
    · intro run
      split at run
      · next allowed =>
        obtain ⟨data, read, run⟩ := Option.bind_eq_some_iff.mp run
        cases run
        exact ⟨allowed.1, allowed.2, _, data, rfl, read, rfl⟩
      · cases run
    · rintro ⟨allowed, unmarked, _, data, same, read, rfl⟩
      cases same
      rw [if_pos ⟨allowed, unmarked⟩, read]
      rfl

/-- A comment that cuts a piece of text. -/
theorem exists_apart_of_text {reading next : Reading} {front behind : List Char}
    (place : reading.next? (.text front) = some ⟨e :: outer, root?⟩)
    (run : reading.next? (.text (front ++ behind)) = some next) :
    ∃ next', Reading.next? ⟨e.add .remark :: outer, root?⟩ (.text behind) = some next' ∧
      Apart e next next' := by
  obtain ⟨-, -, e', data, rfl, read, rfl⟩ := next?_text_eq_some_iff.mp place
  obtain ⟨opened, rfl⟩ : ∃ whole, next = ⟨whole :: outer, root?⟩ := by
    simp only [Reading.next?, List.isEmpty_cons, Bool.false_eq_true, if_false] at run
    split at run
    · obtain ⟨data, -, run⟩ := Option.bind_eq_some_iff.mp run
      cases run
      exact ⟨_, rfl⟩
    · cases run
  obtain ⟨allowed, unmarked, _, whole, same, read', rfl⟩ := next?_text_eq_some_iff.mp run
  cases same
  rw [Datum.read?_append read, Option.map_eq_some_iff] at read'
  obtain ⟨more, readMore, rfl⟩ := read'
  have unmarked' : Text.containsWord [']', ']', '>'] behind = false := by
    rw [← Bool.not_eq_true, Text.containsWord_iff_infix] at unmarked ⊢
    exact fun inside => unmarked (inside.trans (List.suffix_append front behind).isInfix)
  have allowed' : behind.all isAllowed = true := by
    rw [List.all_append, Bool.and_eq_true] at allowed
    exact allowed.2
  refine ⟨_, next?_text_eq_some_iff.mpr ⟨allowed', unmarked', _, more, rfl, readMore, rfl⟩, ?_⟩
  obtain ⟨kept, ends, rest, first, both, spaces⟩ := Datum.textValue_append data more
  refine .opened (.here ?_ ?_ ?_) [] outer root?
  · exact (e'.sameTag_addText _).symm.trans (e'.sameTag_addText _)
  · exact (OpenElement.sameTag_add _ _).trans (OpenElement.sameTag_addText _ _)
  · simp only [OpenElement.content_addText, OpenElement.content_add]
    rw [withText_behind (by rfl), withText_nil, first, both]
    exact .cut e'.content spaces rest _

/-- Text in front of pieces is read first. -/
theorem foldlM_consText (text : List Char) (pieces : List Piece) (reading : Reading) :
    (Piece.consText text pieces).foldlM Reading.next? reading =
      ((Piece.consText text []).foldlM Reading.next? reading).bind
        (pieces.foldlM Reading.next? ·) := by
  rw [Piece.consText_eq_append, List.foldlM_append]
  rfl

/-- A comment between the pieces of a document, or in one of them. -/
theorem exists_apart {reading last : Reading} {front behind : List Char} {later : List Piece}
    (comment : Reading.isComment raw = true)
    (place : (Piece.consText front []).foldlM Reading.next? reading = some ⟨e :: outer, root?⟩)
    (run : (Piece.consText (front ++ behind) later).foldlM Reading.next? reading = some last) :
    ∃ last', (Piece.consText front (.comment raw :: Piece.consText behind later)).foldlM
      Reading.next? reading = some last' ∧ Apart e last last' := by
  rw [foldlM_consText, place, Option.bind_some, List.foldlM_cons, next?_comment comment]
  have start : Apart e ⟨e :: outer, root?⟩ ⟨e.add .remark :: outer, root?⟩ :=
    .opened (.remark e) [] outer root?
  by_cases empty : front = []
  · subst empty
    cases place
    exact start.foldlM run
  · rw [Piece.consText_of_ne_nil empty] at place
    have step : reading.next? (.text front) = some ⟨e :: outer, root?⟩ := by simpa using place
    by_cases empty' : behind = []
    · subst empty'
      rw [List.append_nil, Piece.consText_of_ne_nil empty, List.foldlM_cons, step] at run
      exact start.foldlM run
    · rw [Piece.consText_of_ne_nil (by simp [empty])] at run
      rw [Piece.consText_of_ne_nil empty']
      obtain ⟨mid, both, run⟩ := Option.bind_eq_some_iff.mp run
      obtain ⟨mid', step', apart⟩ := exists_apart_of_text step both
      obtain ⟨last', run', apart⟩ := apart.foldlM run
      refine ⟨last', ?_, apart⟩
      show (Reading.next? _ _).bind _ = _
      rw [step']
      exact run'

/-- A comment at a place in the content of an element leaves the document well-formed, and its tree
as it is but for the content of that element. -/
theorem exists_parse?_comment {after : List Char} {root : Node}
    (place : read? before = some ⟨e :: outer, root?⟩) (comment : Reading.isComment raw = true)
    (parsed : parse? (before ++ after) = some root) :
    ∃ root', parse? (before ++ (Piece.commentOf raw ++ after)) = some root' ∧
      DiffersAt e root root' := by
  obtain ⟨body, pieces, behind⟩ := exists_body place (List.cons_ne_nil e outer)
  obtain ⟨cut, cut?, run⟩ := Option.bind_eq_some_iff.mp pieces
  obtain ⟨earlier, front, rest, later?, rfl, whole, commented⟩ := Piece.exists_cut? cut?
  rw [List.foldlM_append] at run
  obtain ⟨reading, first, stands⟩ := Option.bind_eq_some_iff.mp run
  rw [parse?_eq, read?, behind, Option.bind_some, readBody?, whole] at parsed
  rw [parse?_eq, read?, behind, Option.bind_some, readBody?, commented raw comment]
  cases later? with
  | none => cases parsed
  | some later =>
    rw [Option.map_some, Option.bind_some, List.foldlM_append, first] at parsed
    obtain ⟨last, ran, finished⟩ := Option.bind_eq_some_iff.mp parsed
    obtain ⟨last', ran', apart⟩ := exists_apart comment stands ran
    obtain ⟨root', finished', differs⟩ := apart.finish? finished
    refine ⟨root', ?_, differs⟩
    rw [Option.map_some, Option.bind_some, List.foldlM_append, first]
    exact Option.bind_eq_some_iff.mpr ⟨last', ran', finished'⟩

/-- A comment at a place in the content of an element changes the keys of the document just if it
hides or changes a key of that element: the element is a property whose text refers to a key, and
the comment stands in front of the text, or in the text with more than white space behind it. -/
theorem collectKeys_comment_iff {after : List Char} {root : Node}
    (place : read? before = some ⟨e :: outer, root?⟩) (comment : Reading.isComment raw = true)
    (parsed : parse? (before ++ after) = some root) :
    ∃ root' content content', parse? (before ++ (Piece.commentOf raw ++ after)) = some root' ∧
      Inserted e.content content content' ∧
      DiffersIn e.name.name e.attributes content content' root root' ∧
      (collectKeys evaluate (before ++ (Piece.commentOf raw ++ after)) =
          collectKeys evaluate (before ++ after) ↔
        ¬ HidesKey e.name.name e.content content) := by
  obtain ⟨root', parsed', content, content', inserted, differs⟩ :=
    exists_parse?_comment place comment parsed
  refine ⟨root', content, content', parsed', inserted, differs, ?_⟩
  rw [collectKeys_evaluate parsed, collectKeys_evaluate parsed', ← inserted.keys_eq_iff,
    ← differs.keys_eq_iff inserted.lookupsOf_eq, eq_comm, Except.ok.injEq]

end

/-- White space may be cut off from the text of a property. -/
theorem collectKeys_comment_iff_trailing :
    let text : OpenElement := openText [.text "%Save".toList]
    let root : Node := .element "text".toList [] [.text "%Save ".toList]
    read? "<text>%Save".toList = some ⟨[text], none⟩ ∧ Reading.isComment " c ".toList = true ∧
      parse? ("<text>%Save".toList ++ " </text>".toList) = some root ∧
      ∃ root' content content',
        parse? ("<text>%Save".toList ++ (Piece.commentOf " c ".toList ++ " </text>".toList)) =
          some root' ∧
        Inserted text.content content content' ∧
        DiffersIn "text".toList [] content content' root root' ∧
        (collectKeys evaluate
            ("<text>%Save".toList ++ (Piece.commentOf " c ".toList ++ " </text>".toList)) =
            collectKeys evaluate ("<text>%Save".toList ++ " </text>".toList) ↔
          ¬ HidesKey "text".toList text.content content) := by
  intro text root
  have place : read? "<text>%Save".toList = some ⟨[text], none⟩ :=
    (read?_text rfl rfl).trans rfl
  have comment : Reading.isComment " c ".toList = true := by decide
  have parsed : parse? ("<text>%Save".toList ++ " </text>".toList) = some root :=
    (collectKeys_text root rfl rfl rfl).1
  exact ⟨place, comment, parsed, collectKeys_comment_iff place comment parsed⟩

/-- A comment in front of the text of a property hides its key, and one in the text cuts it off. -/
theorem collectKeys_comment_hides :
    (read? "<text>".toList = some ⟨[openText []], none⟩ ∧
      collectKeys evaluate ("<text>".toList ++ "%Save</text>".toList) = .ok [⟨"Save"⟩] ∧
      collectKeys evaluate
        ("<text>".toList ++ (Piece.commentOf " c ".toList ++ "%Save</text>".toList)) = .ok []) ∧
    read? "<text>%Save".toList = some ⟨[openText [.text "%Save".toList]], none⟩ ∧
      collectKeys evaluate ("<text>%Save".toList ++ " all</text>".toList) = .ok [⟨"Save all"⟩] ∧
      collectKeys evaluate
        ("<text>%Save".toList ++ (Piece.commentOf " c ".toList ++ " all</text>".toList)) =
        .ok [⟨"Save"⟩] := by
  let root (children : List Node) : Node := .element "text".toList [] children
  refine ⟨⟨(read?_text rfl rfl).trans rfl, ?_, ?_⟩, (read?_text rfl rfl).trans rfl, ?_, ?_⟩
  · exact (collectKeys_text (root [.text "%Save".toList]) rfl rfl rfl).2
  · exact (collectKeys_text (root [.remark, .text "%Save".toList]) rfl rfl rfl).2
  · exact (collectKeys_text (root [.text "%Save all".toList]) rfl rfl rfl).2
  · exact (collectKeys_text (root [.text "%Save".toList, .remark, .text " all".toList])
      rfl rfl rfl).2

end LocaleKeys.Markup
