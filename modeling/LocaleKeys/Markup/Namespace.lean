import LocaleKeys.Markup.Tag

/-!
# Namespaces

Attributes named `xmlns` and attributes qualified by `xmlns` declare namespaces and are no
attributes of their element otherwise. Every other qualifier has to be declared on the element or
on one around it, and two attributes of an element must differ in name or namespace.
-/

namespace LocaleKeys.Markup

/-- The declared qualifiers, inner declarations first, each with the namespace it stands for. -/
abbrev Scope := List (List Char × List Char)

namespace Scope

/-- The namespace of the qualifier `xml`, which needs no declaration on attributes. -/
def xmlNamespace : List Char := "http://www.w3.org/XML/1998/namespace".toList

/-- The namespace of declarations, which nothing may declare. -/
def declarationNamespace : List Char := "http://www.w3.org/2000/xmlns/".toList

/-- The word that marks a declaration. -/
def declarationWord : List Char := "xmlns".toList

/-- The qualifier whose namespace is fixed. -/
def xmlWord : List Char := "xml".toList

/-- The namespace of a qualifier. -/
def find? (scope : Scope) (qualifier : List Char) : Option (List Char) :=
  scope.lookup qualifier

/-- The declarations of an element after one more attribute, if the attribute declares what it
may. A declaration of the default namespace leaves no trace, since only qualified names are
resolved. -/
def declare? (own : Scope) (declaration : Attribute) : Option Scope :=
  if declaration.name.qualifier = declarationWord then
    if declaration.value = declarationNamespace then none
    else if declaration.name.name = xmlWord then
      if declaration.value = xmlNamespace then some own else none
    else if declaration.value = xmlNamespace ∨ (own.find? declaration.name.name).isSome then none
    else some ((declaration.name.name, declaration.value) :: own)
  else if declaration.value = xmlNamespace ∨ declaration.value = declarationNamespace then none
  else some own

/-- The attribute declares a namespace. -/
def isDeclaration (attr : Attribute) : Bool :=
  attr.name.qualifier == declarationWord || attr.name.name == declarationWord

/-- The namespace of an attribute, if its qualifier has one: the outer option tells whether the
name can be resolved, the inner one whether it has a namespace. -/
def ofAttribute? (scope : Scope) (name : QualifiedName) : Option (Option (List Char)) :=
  if name.qualifier = xmlWord then some (some xmlNamespace)
  else if name.qualifier.isEmpty then some none
  else (scope.find? name.qualifier).map some

/-- The element name has a qualifier that is declared, or none. -/
def admitsElement (scope : Scope) (name : QualifiedName) : Bool :=
  name.qualifier != declarationWord
    && (name.qualifier.isEmpty || (scope.find? name.qualifier).isSome)

end Scope

/-- The attributes of an element inside a scope, declarations left out, and the scope inside the
element. There are none if a name cannot be resolved or an attribute is repeated. -/
def resolve? (outer : Scope) (name : QualifiedName) (attributes : List Attribute) :
    Option (List Attribute × Scope) :=
  let (declarations, others) := attributes.partition Scope.isDeclaration
  (declarations.foldlM Scope.declare? []).bind fun own =>
    let scope := own ++ outer
    (others.mapM fun attr => (scope.ofAttribute? attr.name).map (·, attr.name.name)).bind
      fun names =>
        if scope.admitsElement name ∧ names.Nodup then some (others, scope) else none

end LocaleKeys.Markup
