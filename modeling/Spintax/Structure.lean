import Spintax.Token

/-!
# Group structure

Whether the group markers of a text pair up. The balance only counts them; the structure check
requires every closing marker to follow an opening marker that is still unpaired, and names the
marker that breaks this.
-/

namespace Spintax

/-- What a token adds to the balance: one for an opening marker, minus one for a closing marker. -/
def Token.weight : Token → Int
  | .mark .opening => 1
  | .mark .closing => -1
  | _ => 0

/-- Follow the lexemes with the starts of the unpaired opening markers, the last one first. The
first closing marker without one is the fault; failing that, the earliest opening marker that is
still unpaired at the end. -/
def checkLexemes : List Nat → List Lexeme → Except Malformed Unit
  | unpaired, [] =>
    match unpaired.getLast? with
    | some start => .error ⟨.opening, start⟩
    | none => .ok ()
  | unpaired, lexeme :: rest =>
    match lexeme.token, unpaired with
    | .mark .opening, _ => checkLexemes (lexeme.start :: unpaired) rest
    | .mark .closing, [] => .error ⟨.closing, lexeme.start⟩
    | .mark .closing, _ :: outer => checkLexemes outer rest
    | _, _ => checkLexemes unpaired rest

namespace Markers

/-- Opening markers minus closing markers. -/
def balance (markers : Markers) (text : String) : Int :=
  (markers.lexemes text).foldr (fun lexeme balance => lexeme.token.weight + balance) 0

/-- Check that every closing marker pairs with an earlier opening marker and the other way round. -/
def checkPairing (markers : Markers) (text : String) : Except Malformed Unit :=
  checkLexemes [] (markers.lexemes text)

end Markers

end Spintax
