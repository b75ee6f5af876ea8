import Reckoner.Vocabulary.Basic

/-!
# Tokens

The characters of a line make up numbers, words and single signs. A number is a run of digits,
decimal points and, after its first character, commas, which only group its digits. A word is a run
of characters that are neither blank nor part of a number, a bracket or an operator of one
character. The scanner goes from left to right and keeps the number or word that has begun and not
yet ended; a second decimal point in a number stands for itself, as a token that no line may have.
-/

namespace Reckoner

/-- The use of a character. -/
inductive CharUse where
  | blank
  | digit
  | point
  | comma
  | opening
  | closing
  | sign (op : Operator)
  | letter

/-- The use of a character in a vocabulary. -/
def CharUse.of (voc : Vocabulary) (c : Char) : CharUse :=
  if isBlank c then .blank
  else if c.isDigit then .digit
  else if c = '.' then .point
  else if c = ',' then .comma
  else if c = '(' then .opening
  else if c = ')' then .closing
  else match voc.sign? c with
    | some op => .sign op
    | none => .letter

/-- What a token is. -/
inductive TokenKind where
  | number (text : List Char)
  | word (name : String)
  | sign (op : Operator)
  | opening
  | closing
  | extraPoint

/-- A token and the characters it consists of. -/
structure Token where
  kind : TokenKind
  span : Span

/-- The token that has begun and not yet ended, with its characters, the latest first. -/
inductive OpenToken where
  | none
  | number (start : Nat) (text : List Char)
  | word (start : Nat) (text : List Char)
deriving DecidableEq, Repr

namespace OpenToken

/-- The token that ends before a position, if one has begun. -/
def tokens (stop : Nat) : OpenToken → List Token
  | none => []
  | number start text => [⟨.number text.reverse, ⟨start, stop⟩⟩]
  | word start text => [⟨.word (String.ofList text.reverse), ⟨start, stop⟩⟩]

/-- The tokens that end or stand at a position, and the one that is open after it. -/
def step (voc : Vocabulary) (index : Nat) (c : Char) (current : OpenToken) :
    List Token × OpenToken :=
  match CharUse.of voc c, current with
  | .blank, _ => (current.tokens index, none)
  | .digit, number start text => ([], number start (c :: text))
  | .digit, _ => (current.tokens index, number index [c])
  | .point, number start text =>
    if text.contains '.' then ([⟨.extraPoint, .single index⟩], none)
    else ([], number start (c :: text))
  | .point, _ => (current.tokens index, number index [c])
  | .opening, _ => (current.tokens index ++ [⟨.opening, .single index⟩], none)
  | .closing, _ => (current.tokens index ++ [⟨.closing, .single index⟩], none)
  | .sign op, _ => (current.tokens index ++ [⟨.sign op, .single index⟩], none)
  | .comma, number start text => ([], number start (c :: text))
  | .comma, word start text => ([], word start (c :: text))
  | .comma, none => ([], word index [c])
  | .letter, word start text => ([], word start (c :: text))
  | .letter, _ => (current.tokens index, word index [c])

end OpenToken

namespace Token

/-- The tokens of the characters from a position on, after those that the open token has. -/
def scan (voc : Vocabulary) (index : Nat) (current : OpenToken) : List Char → List Token
  | [] => current.tokens index
  | c :: rest =>
    let next := current.step voc index c
    next.1 ++ scan voc (index + 1) next.2 rest

/-- The tokens of a line. -/
def ofLine (voc : Vocabulary) (line : Line) : List Token := scan voc 0 .none line

/-- Whether the token is a number or a word, which ends where another token begins. -/
def isText (token : Token) : Bool :=
  match token.kind with
  | .number _ | .word _ => true
  | _ => false

end Token

end Reckoner
