import Qcm.Lib.QuotedSplit
import Qcm.ResourceHeaders

/-!
Policies of cached resources (`backend/main/src/resource_cache/policy.rs`): what
the directives of a response allow, whether a stored response answers a request,
and whether the client already has it.

Numbers are `u64`: parsed below 2^64, with additions that stop at the greatest.
Dates are seconds since the epoch; `httpdate`, which reads them, is a parameter.
-/

namespace Qcm.ResourceHeaders.HeaderName

def cacheControl : HeaderName := ⟨"cache-control".toList, by decide⟩
def contentEncoding : HeaderName := ⟨"content-encoding".toList, by decide⟩
def etag : HeaderName := ⟨"etag".toList, by decide⟩
def expires : HeaderName := ⟨"expires".toList, by decide⟩
def ifModifiedSince : HeaderName := ⟨"if-modified-since".toList, by decide⟩
def ifNoneMatch : HeaderName := ⟨"if-none-match".toList, by decide⟩
def lastModified : HeaderName := ⟨"last-modified".toList, by decide⟩
def pragma : HeaderName := ⟨"pragma".toList, by decide⟩
def vary : HeaderName := ⟨"vary".toList, by decide⟩

end Qcm.ResourceHeaders.HeaderName

namespace Qcm.CachePolicy

open Lib ResourceHeaders

def dateClockMargin : Nat := 60

/-- `u64::MAX` -/
def maxU64 : Nat := 2 ^ 64 - 1

/-- `u64::saturating_add` -/
def saturatingAdd (left right : Nat) : Nat := min (left + right) maxU64

/-- `str::parse::<u64>` of an argument that may be missing. -/
def parseArgument (arg : Option Text) : Option Nat := arg.bind Text.parseU64

/-- A directive: its name in lower case, and its argument. -/
abbrev Directive := Text × Option Text

namespace Directive

def noStore : Text := "no-store".toList
def noCache : Text := "no-cache".toList
def maxAge : Text := "max-age".toList
def minFresh : Text := "min-fresh".toList
def mustUnderstand : Text := "must-understand".toList
def onlyIfCached : Text := "only-if-cached".toList

end Directive

/-- One part of a line, if it has a name. -/
def directive (part : Text) : Option Directive :=
  let part := Text.trim part
  let (name, arg) := match Text.splitOnce '=' part with
    | some (n, v) => (n, some (Text.trimMatches '"' (Text.trim v)))
    | none => (part, none)
  if name.isEmpty then none else some (Text.toAsciiLowercase (Text.trim name), arg)

/-- The directives of a line.  Every quote turns, also one behind a backslash. -/
def lineDirectives (text : Text) : List Directive :=
  let (parts, quoted) := QuotedSplit.split '"' ',' text false []
  parts.filterMap directive ++ if quoted then [(Directive.noStore, none)] else []

/-- A line that is not text forbids to store. -/
def headerDirectives (header : HeaderValue) : List Directive :=
  match header.toStr with
  | none => [(Directive.noStore, none)]
  | some text => lineDirectives text

section

variable {M : Type*} [MultiMap HeaderName HeaderValue M]

def directives (headers : M) : List Directive :=
  (MultiMap.getAll headers .cacheControl).flatMap headerDirectives

def requestNoStore (headers : M) : Bool := (directives headers).any fun d => d.1 = Directive.noStore

def onlyCached (headers : M) : Bool := (directives headers).any fun d => d.1 = Directive.onlyIfCached

/-- `date`, for a reader of dates. -/
def date (parse : Text → Option Nat) (headers : M) (name : HeaderName) : Option Nat :=
  (value headers name).bind parse

end

/-! ## Policies -/

inductive RangeValidator where
  | strongETag (value : Text)
  | lastModified (value : Text) (date : Nat)
  deriving DecidableEq

/-- `RangeValidator::value` -/
def RangeValidator.value : RangeValidator → Text
  | .strongETag v => v
  | .lastModified v _ => v

structure Policy where
  stored : Nat
  initialAge : Nat
  lifetime : Nat
  noCache : Bool
  store : Bool
  etag : Option Text
  modified : Option Text
  rangeValidator : Option RangeValidator
  deriving DecidableEq

/-- A character that may stand between the quotes of an entity tag. -/
def isEtagChar (c : Char) : Bool :=
  c.toNat == 0x21 || (0x23 ≤ c.toNat && c.toNat ≤ 0x7E) || 0x80 ≤ c.toNat

/-- `strong_etag` -/
def strongEtag (s : Text) : Bool :=
  2 ≤ s.length && s.head? == some '"' && s.getLast? == some '"' && s.tail.dropLast.all isEtagChar

namespace Policy

section

variable {M : Type*} [MultiMap HeaderName HeaderValue M]

/-- The lifetime that the directives of a response give, or else its dates. -/
def responseLifetime (parse : Text → Option Nat) (headers : M) (received : Nat) : Nat :=
  let ages := (directives headers).filter fun d => d.1 = Directive.maxAge
  if ages = [] then
    ((date parse headers .expires).map fun expires =>
      expires - (date parse headers .date).getD received).getD 0
  else match ages with
    | [age] => (parseArgument age.2).getD 0
    | _ => 0

/-- `from_response` -/
def fromResponse (parse : Text → Option Nat) (headers : M) (sent received : Nat) : Policy :=
  let ds := directives headers
  let has := fun key => ds.any fun d => d.1 = key
  { stored := received
    initialAge := max (received - (date parse headers .date).getD received)
      (saturatingAdd (((value headers .age).bind Text.parseU64).getD 0) (received - sent))
    lifetime := responseLifetime parse headers received
    noCache := has Directive.noCache
    store := (MultiMap.entries headers).all (fun entry => entry.2.toStr.isSome) &&
      !has Directive.noStore && !has Directive.mustUnderstand &&
      !((MultiMap.getAll headers .vary).filterMap HeaderValue.toStr).any (fun v =>
        (v.splitOn ',').any fun v => Text.trim v = ['*']) &&
      ((value headers .contentEncoding).map fun v =>
        Text.eqIgnoreAsciiCase v "identity".toList).getD true
    etag := value headers .etag
    modified := value headers .lastModified
    rangeValidator := match value headers .etag with
      | some etag => if strongEtag etag then some (.strongETag etag) else none
      | none =>
        match date parse headers .lastModified, date parse headers .date with
        | some modified, some date =>
          if dateClockMargin ≤ date - modified then
            (value headers .lastModified).map fun value => .lastModified value date
          else none
        | _, _ => none }

end

/-- `age`, at the time `now`. -/
def age (policy : Policy) (now : Nat) : Nat :=
  if now < policy.stored then maxU64 else saturatingAdd policy.initialAge (now - policy.stored)

/-- A turn of the loop in `fresh` lowers the lifetime, or ends it. -/
def limit (age : Nat) (lifetime : Nat) (d : Directive) : Option Nat :=
  let lifetime := if d.1 = Directive.maxAge then min lifetime ((parseArgument d.2).getD 0) else lifetime
  if d.1 = Directive.minFresh ∧ lifetime ≤ saturatingAdd ((parseArgument d.2).getD maxU64) age then none
  else some lifetime

/-- What the loop makes of directives that do not forbid the answer. -/
def freshWithin (policy : Policy) (now : Nat) (ds : List Directive) : Bool :=
  match ds.foldlM (limit (policy.age now)) policy.lifetime with
  | none => false
  | some lifetime => policy.age now < lifetime

def fresh {M : Type*} [MultiMap HeaderName HeaderValue M] (policy : Policy) (now : Nat)
    (request : M) : Bool :=
  if !MultiMap.containsKey request .cacheControl &&
      ((value request .pragma).map fun v => Text.eqIgnoreAsciiCase v Directive.noCache).getD false then false
  else
    let ds := directives request
    if policy.noCache || ds.any (fun d => d.1 = Directive.noCache || d.1 = Directive.noStore) then false
    else policy.freshWithin now ds

/-- `range_value` -/
def rangeValue (policy : Policy) : Option Text :=
  (policy.rangeValidator.map RangeValidator.value).or (policy.etag.filter strongEtag)

end Policy

/-- `not_modified` -/
def notModified {M : Type*} [MultiMap HeaderName HeaderValue M] (parse : Text → Option Nat)
    (policy : Policy) (request : M) : Bool :=
  let weak := ['W', '/']
  match value request .ifNoneMatch with
  | some tags => (tags.splitOn ',').any fun tag =>
      Text.trim tag = ['*'] || policy.etag.any fun etag =>
        Text.trimStartMatches weak (Text.trim tag) = Text.trimStartMatches weak etag
  | none =>
    match date parse request .ifModifiedSince, policy.modified.bind parse with
    | some since, some modified => modified ≤ since
    | _, _ => false

end Qcm.CachePolicy
