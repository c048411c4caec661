import LocaleKeys.Key
import LocaleKeys.Markup.Document
import LocaleKeys.Text.Lowercase

/-!
# Keys in markup documents

A user interface document refers to keys by values of the form `%key`: in attributes, and in the
text of property elements, which are named in lower camel case and hold no further elements. A
backslash in front of a value makes it plain text.

An evaluator is anything that asks for keys while it runs over a document. Every key that it asks
for is recorded and answered with the same placeholder, and the record counts only if the evaluator
comes to the end.
-/

namespace LocaleKeys.Markup

/-- What an evaluator does with a document. -/
inductive Evaluation where
  /-- The document is evaluated. -/
  | finished
  /-- The document cannot be evaluated any further. -/
  | failed (message : String)
  /-- A key is asked for; how the evaluation goes on depends on the answer. -/
  | lookup (key : List Char) (proceed : String → Evaluation)

namespace Evaluation

/-- The answer to every key that is asked for. -/
def placeholder : String := "test"

/-- The keys that are asked for, in order. -/
def lookups : Evaluation → List (List Char)
  | .finished => []
  | .failed _ => []
  | .lookup key proceed => key :: (proceed placeholder).lookups

/-- The reason why the evaluation does not come to its end. -/
def failure? : Evaluation → Option String
  | .finished => none
  | .failed message => some message
  | .lookup _ proceed => (proceed placeholder).failure?

/-- The record of the keys that are asked for, or the reason why there is none. -/
def record (evaluation : Evaluation) : Except String (List (List Char)) :=
  match evaluation.failure? with
  | none => .ok evaluation.lookups
  | some message => .error message

/-- The evaluation that asks for keys, whatever is answered. -/
def ofLookups (keys : List (List Char)) : Evaluation :=
  keys.foldr (fun key rest => .lookup key fun _ => rest) .finished

end Evaluation

/-- The keys that a document asks for, in order, or the reason why it cannot be evaluated. -/
abbrev Evaluator := List Char → Except String (List (List Char))

/-- The evaluator that records what is done with a document. -/
def Evaluator.recording (evaluation : List Char → Evaluation) : Evaluator := fun document =>
  (evaluation document).record

/-- The key that a value refers to. -/
def lookup? : List Char → Option (List Char)
  | '%' :: key => some key
  | _ => none

/-- The name is that of a property. -/
def isPropertyName (name : List Char) : Bool :=
  name.head?.any Text.isLowercase

/-- The node is an element. -/
def Node.isElement : Node → Bool
  | .element .. => true
  | _ => false

/-- The text of an element of the given name and content, if the element is a property: its first
part, if that is text, without white space at its ends. -/
def propertyText? (name : List Char) (children : List Node) : Option (List Char) :=
  if isPropertyName name && !children.any Node.isElement then
    match children with
    | .text value :: _ => some (Text.trim value)
    | _ => none
  else none

mutual

/-- The keys that a node refers to, in document order: those of attributes, of property text and
of the content. -/
def Node.lookups : Node → List (List Char)
  | .element name attributes children =>
    attributes.filterMap (lookup? ·.value) ++ ((propertyText? name children).bind lookup?).toList
      ++ lookupsOf children
  | .text _ => []
  | .remark => []

/-- The keys that nodes refer to. -/
def lookupsOf : List Node → List (List Char)
  | [] => []
  | node :: nodes => node.lookups ++ lookupsOf nodes

end

/-- What is said about a document that is not well-formed. -/
def malformedMessage : String := "the document is not well-formed"

/-- What is done with a user interface document. -/
def evaluation (document : List Char) : Evaluation :=
  match parse? document with
  | none => .failed malformedMessage
  | some root => .ofLookups root.lookups

/-- Evaluation of user interface documents. -/
def evaluate : Evaluator := .recording evaluation

/-- The keys that an evaluator asks for, without those that name nothing. -/
def collectKeys (evaluator : Evaluator) (document : List Char) : Except String (List Key) :=
  (evaluator document).map fun lookups =>
    (lookups.map fun key => (⟨String.ofList key⟩ : Key)).filter (!·.isBlank)

end LocaleKeys.Markup
