/-!
# Styles of terminal output

A styled text is put between the control sequences that switch its attributes on and off. Without
colours a style leaves the text as it is.
-/

namespace LocaleKeys

/-- A colour of text. -/
inductive Color where
  | red
  | green
  | yellow
  | blue
  | cyan
deriving DecidableEq

/-- The code of a colour in a control sequence. -/
def Color.code : Color → List Char
  | .red => ['3', '1']
  | .green => ['3', '2']
  | .yellow => ['3', '3']
  | .blue => ['3', '4']
  | .cyan => ['3', '6']

/-- The attributes of a text. -/
structure Style where
  bold : Bool
  dimmed : Bool
  color? : Option Color
deriving DecidableEq

namespace Style

/-- Coloured text. -/
def ofColor (color : Color) : Style := ⟨false, false, some color⟩

/-- Bold text. -/
def strong : Style := ⟨true, false, none⟩

/-- Bold coloured text. -/
def strongColor (color : Color) : Style := ⟨true, false, some color⟩

/-- Dimmed text. -/
def faint : Style := ⟨false, true, none⟩

/-- Dimmed coloured text. -/
def faintColor (color : Color) : Style := ⟨false, true, some color⟩

/-- The codes of the attributes. -/
def codes (style : Style) : List (List Char) :=
  (if style.bold then [['1']] else []) ++ (if style.dimmed then [['2']] else [])
    ++ (style.color?.map Color.code).toList

/-- The control sequence of codes. -/
def sequence (codes : List (List Char)) : List Char :=
  '\x1b' :: '[' :: List.intercalate [';'] codes ++ ['m']

/-- The text in the style, if there are colours. -/
def paint (colors : Bool) (style : Style) (text : List Char) : List Char :=
  if colors then sequence style.codes ++ text ++ sequence [['0']] else text

theorem paint_false (style : Style) (text : List Char) : style.paint false text = text := rfl

end Style

end LocaleKeys
