import Qcm.Lib.Text

/-!
The tokenizer of the full text search, and the queries it makes
(`backend/main/src/fts/tokenizer.rs`).  The compatibility normalisation is that of
the crate `unicode_normalization`.
-/

namespace Qcm.FtsTokenizer

open Lib

/-- A token, with the character of the normalised text at which it starts. -/
inductive Token where
  | alphabetic (text : Text) (start : Nat)
  | numeric (text : Text) (start : Nat)
  | nGram (text : Text) (start : Nat)
  deriving DecidableEq

def Token.text : Token → Text
  | alphabetic text _ | numeric text _ | nGram text _ => text

inductive CharType where
  | alphabetic | numeric | other | separator
  deriving DecidableEq

def getCharType (c : Char) : CharType :=
  if c.isAlpha then .alphabetic
  else if c.isDigit then .numeric
  else if c.toNat < 0x80 then .separator
  else .other

/-- `windows(2)` -/
def bigrams : Text → List Text
  | a :: b :: rest => [a, b] :: bigrams (b :: rest)
  | _ => []

/-- Alphabetic tokens are ASCII, so that `to_lowercase` is that of ASCII. -/
def processToken (token : Text) (charType : CharType) (startPos : Nat) : List Token :=
  if token.isEmpty then []
  else match charType with
    | .numeric => [.numeric token startPos]
    | .alphabetic => [.alphabetic (Text.toAsciiLowercase token) startPos]
    | .other =>
      if token.length < 2 then [.nGram token startPos]
      else (bigrams token).mapIdx fun i window => .nGram window (startPos + i)
    | .separator => []

/-- What the loop over the characters keeps. -/
structure Scan where
  result : List Token
  currentToken : Text
  currentType : CharType
  currentStart : Nat
  pos : Nat

def Scan.start : Scan := ⟨[], [], .separator, 0, 0⟩

/-- The current token is finished. -/
def Scan.flush (s : Scan) : List Token := s.result ++ processToken s.currentToken s.currentType s.currentStart

def Scan.next (s : Scan) (c : Char) : Scan :=
  let charType := getCharType c
  let s := if charType ≠ s.currentType ∧ s.currentToken ≠ [] then
      { s with result := s.flush, currentToken := [], currentStart := s.pos }
    else s
  let s := if charType ≠ .separator then
      { s with
        currentStart := if s.currentToken.isEmpty then s.pos else s.currentStart
        currentToken := s.currentToken ++ [c] }
    else s
  { s with currentType := charType, pos := s.pos + 1 }

section

variable (nfkc : Text → Text)

def tokenize (input : Text) : List Token :=
  let s := (nfkc input).foldl Scan.next .start
  if s.currentToken.isEmpty then s.result else s.flush

def Token.term : Token → Text
  | alphabetic s _ => s ++ ['*']
  | numeric s _ => s
  | nGram s _ => s ++ ['*']

def tokenizeQuery (query : Text) : Text := " AND ".toList.intercalate ((tokenize nfkc query).map Token.term)

end

end Qcm.FtsTokenizer
