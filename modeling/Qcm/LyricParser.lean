import Qcm.Lib.Nom

/-!
The parser of lyrics (`backend/core/src/subtitle/lrc`).

A document is read line by line: tags of a time or of an id, and other lines,
which are left out.  The decimals are those of the crate `rust_decimal`; a product
or a sum that they have no room for panics.
-/

namespace Qcm.LyricParser

open Lib Lib.Nom

inductive ErrorKind where
  | invalidTimestamp | invalidOffset | incomplete
  | nom (kind : Nom.ErrorKind)
  deriving DecidableEq

structure Error where
  input : Text
  code : ErrorKind
  deriving DecidableEq

instance : ParseError Error := ⟨fun input kind => ⟨input, .nom kind⟩⟩

/-- What the parser does with decimals. -/
structure Decimals where
  Decimal : Type
  fromStrExact : Text → Option Decimal
  setScale : Decimal → Nat → Option Decimal
  dec : Nat → Decimal
  mul : Decimal → Decimal → Option Decimal
  add : Decimal → Decimal → Option Decimal
  trunc : Decimal → Decimal
  toI64 : Decimal → Option Int

inductive LrcMetadata where
  | artist (value : Text)
  | album (value : Text)
  | title (value : Text)
  | lyricist (value : Text)
  | author (value : Text)
  | length (value : Text)
  /-- In milliseconds. -/
  | offset (value : Int)
  | application (value : Text)
  | appVersion (value : Text)
  | comment (value : Text)
  | unkown (value : Text)
  deriving DecidableEq

inductive LrcTag where
  | id (metadata : LrcMetadata)
  /-- The text of a line and its timestamps in milliseconds. -/
  | time (text : Text) (timestamps : List Int)
  deriving DecidableEq

inductive Content where
  | tag (tag : LrcTag)
  | unkown (line : Text)

/-- A value, or else an error. -/
def orFail {α : Type} (error : Error) : Option α → Parser Error α
  | some value => pure value
  | none => fails error

/-- The result of an operation that panics where it has none. -/
def orPanic {α : Type} : Option α → Parser Error α
  | some value => pure value
  | none => panics

def numStr : Parser Error Text := delimited space0 digit1 space0

def parseIdTag : Parser Error LrcTag := do
  let (id, value) ← delimited (tag ['['])
    (separatedPair (delimited space0 alpha1 space0) (tag [':']) (delimited space0 (isNot [']']) space0))
    (tag [']'])
  let value := Text.trimEnd value
  if id = "ar".toList then return .id (.artist value)
  else if id = "al".toList then return .id (.album value)
  else if id = "ti".toList then return .id (.title value)
  else if id = "au".toList then return .id (.lyricist value)
  else if id = "length".toList then return .id (.length value)
  else if id = "by".toList then return .id (.author value)
  else if id = "offset".toList then
    let offset ← orFail ⟨value, .invalidOffset⟩ (Text.parseI64 value)
    return .id (.offset offset)
  else if id = "re".toList then return .id (.application value)
  else if id = "ve".toList then return .id (.appVersion value)
  else if id = "#".toList then return .id (.comment value)
  else return .id (.unkown value)

section
variable (decimals : Decimals)

/-- Minutes, seconds and a fraction of a second, as many digits as it has. -/
def parseTimestamp : Parser Error Int := do
  let (n1, n2, n3) ← separatedPair numStr (tag [':']) (separatedPair numStr (isA [':', '.']) numStr)
  let min ← orFail ⟨n1, .invalidTimestamp⟩ (decimals.fromStrExact n1)
  let sec ← orFail ⟨n2, .invalidTimestamp⟩ (decimals.fromStrExact n2)
  let num ← orFail ⟨n3, .invalidTimestamp⟩ (decimals.fromStrExact n3)
  let secDecimal ← orFail ⟨n2, .invalidTimestamp⟩ (decimals.setScale num n3.length)
  let minutes ← orPanic (decimals.mul min (decimals.dec 60))
  let seconds ← orPanic (decimals.add minutes sec)
  let seconds ← orPanic (decimals.add seconds secDecimal)
  let timestamp ← orPanic (decimals.mul seconds (decimals.dec 1000))
  let remaining ← get
  orFail ⟨remaining, .invalidTimestamp⟩ (decimals.toI64 (decimals.trunc timestamp))

def parseTimeTagTimestamp : Parser Error Int := delimited (tag ['[']) (parseTimestamp decimals) (tag [']'])

def parseTimeTag : Parser Error LrcTag := do
  let timestamps ← many1 (parseTimeTagTimestamp decimals)
  let _ ← space0
  let text ← notLineEnding
  return .time (Text.trimEnd text) timestamps

def parseTag : Parser Error LrcTag := preceded space0 (alt (parseTimeTag decimals) parseIdTag)

def parseContent : Parser Error Content := do
  let content ← alt (do return .tag (← parseTag decimals)) (do return .unkown (← notLineEnding))
  let _ ← opt lineEnding
  return content

/-- The loop of `parse`, with a limit on its turns. -/
def parseFrom : Nat → Text → Except (Fault Error) (List LrcTag)
  | 0, _ => .ok []
  | fuel + 1, remaining =>
    if remaining = [] then .ok []
    else do
      let (content, rest) ← parseContent decimals remaining
      let tags ← parseFrom fuel rest
      match content with
      | .tag tag => return tag :: tags
      | .unkown _ => return tags

def parse (input : Text) : Except (Fault Error) (List LrcTag) := parseFrom decimals input.length input

end

end Qcm.LyricParser
