import Mathlib.Data.List.Basic

/-!
The texts of SELECT statements over joined tables, whose conditions compare columns and arguments.
-/

namespace SelectText

inductive Keyword
  | select
  | from'
  | join
  | on
  | where'
  | and
deriving DecidableEq

inductive Token
  | keyword (keyword : Keyword)
  | name (text : List Char)
  | dot
  | comma
  | semicolon
  | argument
  | comparison
deriving DecidableEq

def isNameCharacter (character : Char) : Bool := character.isAlphanum || character == '_'

def word (text : List Char) : Token :=
  if text = ['S', 'E', 'L', 'E', 'C', 'T'] then .keyword .select
  else if text = ['F', 'R', 'O', 'M'] then .keyword .from'
  else if text = ['J', 'O', 'I', 'N'] then .keyword .join
  else if text = ['O', 'N'] then .keyword .on
  else if text = ['W', 'H', 'E', 'R', 'E'] then .keyword .where'
  else if text = ['A', 'N', 'D'] then .keyword .and
  else .name text

def endWord (text : List Char) (tokens : List Token) : List Token :=
  if text = [] then tokens else word text :: tokens

def tokensFrom (text : List Char) : List Char → Option (List Token)
  | [] => some (endWord text [])
  | '>' :: '=' :: rest | '<' :: '=' :: rest =>
    (tokensFrom [] rest).map fun tokens => endWord text (.comparison :: tokens)
  | character :: rest =>
    if isNameCharacter character then tokensFrom (text ++ [character]) rest
    else if character = ' ' then (tokensFrom [] rest).map (endWord text)
    else
      let token : Option Token :=
        match character with
        | '.' => some .dot
        | ',' => some .comma
        | ';' => some .semicolon
        | '?' => some .argument
        | '=' | '<' | '>' => some .comparison
        | _ => none
      token.bind fun token =>
        (tokensFrom [] rest).map fun tokens => endWord text (token :: tokens)

def afterColumn : List Token → Option (List Token)
  | .name _ :: .dot :: .name _ :: rest => some rest
  | .name _ :: rest => some rest
  | _ => none

def afterTable : List Token → Option (List Token)
  | .name _ :: rest => some rest
  | _ => none

def afterOperand : List Token → Option (List Token)
  | .argument :: rest => some rest
  | tokens => afterColumn tokens

def afterComparison (tokens : List Token) : Option (List Token) := do
  match ← afterOperand tokens with
  | .comparison :: rest => afterOperand rest
  | _ => none

/-- What follows some items with a separator between them, of which there are at most as many as
there are tokens. -/
def afterItems (item : List Token → Option (List Token)) (separator : Token) :
    Nat → List Token → Option (List Token)
  | 0, _ => none
  | most + 1, tokens =>
    (item tokens).bind fun after =>
      match after with
      | [] => some []
      | next :: rest =>
        if next = separator then afterItems item separator most rest else some after

def afterCondition (keyword : Keyword) (tokens : List Token) : Option (List Token) :=
  match tokens with
  | .keyword first :: rest =>
    if first = keyword then afterItems afterComparison (.keyword .and) rest.length rest
    else some tokens
  | _ => some tokens

def isSelect (tokens : List Token) : Bool :=
  let rest : Option (List Token) := do
    match tokens with
    | .keyword .select :: rest =>
      match ← afterItems afterColumn .comma rest.length rest with
      | .keyword .from' :: rest =>
        let rest ← afterItems afterTable (.keyword .join) rest.length rest
        let rest ← afterCondition .on rest
        afterCondition .where' rest
      | _ => none
    | _ => none
  rest = some [.semicolon]

def isWellFormed (statement : List String) : Bool :=
  match tokensFrom [] (statement.flatMap String.toList) with
  | some tokens => isSelect tokens
  | none => false

end SelectText
