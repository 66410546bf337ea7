import Qcm.Lib.HttpField
import Qcm.Lib.MultiMap

/-!
Headers of cached resources (`backend/main/src/resource_cache/policy.rs`): what
is kept of a response, what is passed on, and how a validation answers for the
headers that are stored.

`HeaderMap` is any multimap from header names to header values.  An octet of a
header value is the character of its code.
-/

namespace Qcm.ResourceHeaders

open Lib Lib.HttpField

/-- A character of a header name, which is kept in lower case. -/
def isNameChar (c : Char) : Bool := isTchar c && !c.isUpper

/-- `HeaderName` -/
structure HeaderName where
  chars : Text
  valid : chars ≠ [] ∧ chars.length < 65536 ∧ ∀ c ∈ chars, isNameChar c = true
  deriving DecidableEq

/-- `HeaderName::from_bytes` -/
def HeaderName.fromBytes (text : Text) : Option HeaderName :=
  let chars := Text.toAsciiLowercase text
  if valid : chars ≠ [] ∧ chars.length < 65536 ∧ ∀ c ∈ chars, isNameChar c = true then
    some ⟨chars, valid⟩
  else none

/-- `HeaderValue` -/
structure HeaderValue where
  octets : Text
  valid : ∀ c ∈ octets, isFieldChar c = true
  deriving DecidableEq

/-- `HeaderValue::to_str`: only visible ASCII is text. -/
def HeaderValue.toStr (value : HeaderValue) : Option Text :=
  if ∀ c ∈ value.octets, isVisible c = true then some value.octets else none

/-- The octets of a character in UTF-8. -/
def utf8 (c : Char) : Text := (String.utf8EncodeChar c).map fun octet => Char.ofNat octet.toNat

/-- `HeaderValue::from_str` -/
def HeaderValue.fromStr (text : Text) : Option HeaderValue :=
  let octets := text.flatMap utf8
  if valid : ∀ c ∈ octets, isFieldChar c = true then some ⟨octets, valid⟩ else none

namespace HeaderName

def connection : HeaderName := ⟨"connection".toList, by decide⟩
def proxyConnection : HeaderName := ⟨"proxy-connection".toList, by decide⟩
def keepAlive : HeaderName := ⟨"keep-alive".toList, by decide⟩
def proxyAuthenticate : HeaderName := ⟨"proxy-authenticate".toList, by decide⟩
def proxyAuthorization : HeaderName := ⟨"proxy-authorization".toList, by decide⟩
def te : HeaderName := ⟨"te".toList, by decide⟩
def trailer : HeaderName := ⟨"trailer".toList, by decide⟩
def transferEncoding : HeaderName := ⟨"transfer-encoding".toList, by decide⟩
def upgrade : HeaderName := ⟨"upgrade".toList, by decide⟩
def setCookie : HeaderName := ⟨"set-cookie".toList, by decide⟩
def contentLength : HeaderName := ⟨"content-length".toList, by decide⟩
def contentRange : HeaderName := ⟨"content-range".toList, by decide⟩
def age : HeaderName := ⟨"age".toList, by decide⟩
def date : HeaderName := ⟨"date".toList, by decide⟩

end HeaderName

/-- `Headers` -/
abbrev Headers := List (Text × Text)

variable {M : Type*} [MultiMap HeaderName HeaderValue M]

/-- `value`: the first value of a header, if it is text. -/
def value (headers : M) (key : HeaderName) : Option Text :=
  (MultiMap.get headers key).bind HeaderValue.toStr

/-- One entry of `restore`. -/
def restoreEntry (result : M) (entry : Text × Text) : M :=
  match HeaderName.fromBytes entry.1, HeaderValue.fromStr entry.2 with
  | some key, some val => MultiMap.append result key val
  | _, _ => result

def restore (headers : Headers) : M := headers.foldl restoreEntry MultiMap.empty

/-- The headers that `forwarded` always takes away: those that are meant for one
hop, and cookies. -/
def hopByHop : List HeaderName :=
  [.connection, .proxyConnection, .keepAlive, .proxyAuthenticate, .proxyAuthorization, .te, .trailer,
    .transferEncoding, .upgrade, .setCookie]

/-- `remove` by a text, which finds nothing where the text is no header name. -/
def removeNamed (headers : M) (name : Text) : M :=
  match HeaderName.fromBytes name with
  | some key => MultiMap.remove headers key
  | none => headers

def forwarded (headers : M) : M :=
  let connection := (((value headers .connection).getD []).splitOn ',').map fun s =>
    Text.toAsciiLowercase (Text.trim s)
  let result := hopByHop.foldl MultiMap.remove headers
  connection.foldl removeNamed result

/-- What `saved` makes of an entry. -/
def savedEntry (entry : HeaderName × HeaderValue) : Option (Text × Text) :=
  if entry.1 = .contentLength ∨ entry.1 = .contentRange then none
  else entry.2.toStr.map fun text => (entry.1.chars, text)

def saved (headers : M) : Headers := (MultiMap.entries (forwarded headers)).filterMap savedEntry

/-- The values of one name in the answer to a validation take the place of those
that are stored.  The name is one that `saved` wrote. -/
def replaceHeader (new merged : M) (name : Text) : M :=
  match HeaderName.fromBytes name with
  | some key =>
    (MultiMap.getAll new key).foldl (fun merged val => MultiMap.append merged key val)
      (MultiMap.remove merged key)
  | none => merged

/-- `merge_validation`; `now` is the date that `fmt_http_date` writes. -/
def mergeValidation (old : Headers) (new : M) (now : HeaderValue) : M :=
  let merged := (saved new).foldl (fun merged entry => replaceHeader new merged entry.1) (restore old)
  let merged := MultiMap.remove merged .age
  let merged := if MultiMap.containsKey new .date then merged else MultiMap.insert merged .date now
  match MultiMap.get new .age with
  | some age => MultiMap.insert merged .age age
  | none => merged

end Qcm.ResourceHeaders
