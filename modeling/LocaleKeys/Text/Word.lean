/-!
# Words in a text

A text that starts with a given word, and a text that has it anywhere.
-/

namespace LocaleKeys.Text

/-- What follows a word at the start of a text; there is nothing if the text starts otherwise. -/
def afterWord? : List Char → List Char → Option (List Char)
  | [], text => some text
  | _ :: _, [] => none
  | w :: word, c :: text => if w = c then afterWord? word text else none

/-- The word stands somewhere in the text. -/
def containsWord (word : List Char) : List Char → Bool
  | [] => word.isEmpty
  | c :: rest => (afterWord? word (c :: rest)).isSome || containsWord word rest

theorem afterWord?_eq_some_iff {word text rest : List Char} :
    afterWord? word text = some rest ↔ text = word ++ rest := by
  induction word generalizing text with
  | nil => simp [afterWord?]
  | cons w word ih =>
    cases text with
    | nil => simp [afterWord?]
    | cons c text =>
      by_cases h : w = c
      · subst h
        simp [afterWord?, ih]
      · simp [afterWord?, h, Ne.symm h]

end LocaleKeys.Text
