import Spintax.Markers.Basic

/-!
# Tokens

A text is cut into markers and the runs of other characters between them. At each position the
opening, the closing and the separator marker are tried in this order; the placeholder marker is
ordinary text here. Positions are byte offsets in UTF-8.
-/

namespace Spintax

/-- The three markers that are tokens, in the order in which they are tried. -/
inductive Mark where
  | opening | closing | separator
deriving DecidableEq, Repr

/-- The three marks in the order in which they are tried. -/
def Mark.all : List Mark :=
  [.opening, .closing, .separator]

/-- The role a mark plays in a marker set. -/
def Mark.role : Mark → Role
  | .opening => .opening
  | .closing => .closing
  | .separator => .separator

/-- A token: a run of text, or one of the three marks. -/
inductive Token where
  | text (chunk : String)
  | mark (mark : Mark)
deriving DecidableEq, Repr

/-- A token with the byte offsets at which it starts and stops. -/
structure Lexeme where
  token : Token
  start : Nat
  stop : Nat
deriving DecidableEq, Repr

/-- The characters of the three marks, none without characters. -/
structure Delimiters where
  opening : List Char
  closing : List Char
  separator : List Char
  opening_ne_nil : opening ≠ []
  closing_ne_nil : closing ≠ []
  separator_ne_nil : separator ≠ []

namespace Delimiters

/-- The characters of a mark. -/
def chars (delimiters : Delimiters) : Mark → List Char
  | .opening => delimiters.opening
  | .closing => delimiters.closing
  | .separator => delimiters.separator

/-- No mark is without characters. -/
theorem chars_ne_nil (delimiters : Delimiters) (mark : Mark) : delimiters.chars mark ≠ [] := by
  cases mark
  · exact delimiters.opening_ne_nil
  · exact delimiters.closing_ne_nil
  · exact delimiters.separator_ne_nil

/-- The first mark, in the order of trial, that the characters begin with. -/
def markAt? (delimiters : Delimiters) (cs : List Char) : Option Mark :=
  Mark.all.find? fun mark => (delimiters.chars mark).isPrefixOf cs

end Delimiters

/-- The number of bytes of the characters in UTF-8. -/
def byteLength (cs : List Char) : Nat :=
  cs.foldr (fun c length => c.utf8Size + length) 0

/-- The lexeme of a run of characters, given last character first, put before the lexemes found
earlier; an empty run gives none. -/
def Lexeme.pushRun (start stop : Nat) (run : List Char) (found : List Lexeme) : List Lexeme :=
  if run.isEmpty then found else ⟨.text (String.ofList run.reverse), start, stop⟩ :: found

/-- The lexemes of the characters that follow byte `here`. The characters of `run`, last one first,
belong to the text run in progress, which began at byte `start`; `found` holds the lexemes before
it, last one first. -/
def Delimiters.scan (delimiters : Delimiters) (start here : Nat) (run : List Char)
    (found : List Lexeme) : List Char → List Lexeme
  | [] => (Lexeme.pushRun start here run found).reverse
  | c :: cs =>
    match delimiters.markAt? (c :: cs) with
    | some mark =>
      let stop := here + byteLength (delimiters.chars mark)
      delimiters.scan stop stop [] (⟨.mark mark, here, stop⟩ :: Lexeme.pushRun start here run found)
        ((c :: cs).drop (delimiters.chars mark).length)
    | none => delimiters.scan start (here + c.utf8Size) (c :: run) found cs
termination_by cs => cs.length
decreasing_by
  · have := List.length_pos_iff.2 (delimiters.chars_ne_nil mark)
    simp only [List.length_drop, List.length_cons]
    omega
  · simp

namespace Markers

/-- The characters of the three marks of a marker set. -/
def delimiters (markers : Markers) : Delimiters where
  opening := (markers.get .opening).toList
  closing := (markers.get .closing).toList
  separator := (markers.get .separator).toList
  opening_ne_nil := by simpa using markers.get_ne_empty .opening
  closing_ne_nil := by simpa using markers.get_ne_empty .closing
  separator_ne_nil := by simpa using markers.get_ne_empty .separator

/-- The tokens of a text, in order, with their places. -/
def lexemes (markers : Markers) (text : String) : List Lexeme :=
  markers.delimiters.scan 0 0 [] [] text.toList

end Markers

end Spintax
