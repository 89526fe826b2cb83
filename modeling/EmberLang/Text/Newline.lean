/-!
# Line ends

A text file may end its lines in one of three ways. Programs are read
with every line end as a single newline.
-/

namespace EmberLang.Text

/-- The characters of a text, with every line end as a newline. -/
def unifiedChars : List Char → List Char
  | '\r' :: '\n' :: cs => '\n' :: unifiedChars cs
  | '\r' :: cs => '\n' :: unifiedChars cs
  | c :: cs => c :: unifiedChars cs
  | [] => []

/-- **A text with every line end as a newline.** -/
def unifyNewlines (s : String) : String := String.ofList (unifiedChars s.toList)

end EmberLang.Text
