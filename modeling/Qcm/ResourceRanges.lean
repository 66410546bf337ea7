import Qcm.CachePolicy
import Qcm.ResourceFormat

/-!
Ranges that a client asks for (`range_requested` and `client_range` in
`backend/main/src/resource_cache/service.rs`), and the headers of the partial
responses there and in `object_service.rs`.
-/

namespace Qcm.ResourceHeaders.HeaderName

def ifRange : HeaderName := ⟨"if-range".toList, by decide⟩
def range : HeaderName := ⟨"range".toList, by decide⟩

end Qcm.ResourceHeaders.HeaderName

namespace Qcm.ResourceRanges

open Lib ResourceHeaders CachePolicy ResourceFormat

variable {M : Type*} [MultiMap HeaderName HeaderValue M]

def bytesUnit : Text := "bytes=".toList

/-- What `range_requested` reads of the text behind the unit. -/
def requestedText (text : Text) : Bool :=
  if ',' ∈ text then false
  else match Text.splitOnce '-' text with
    | none => false
    | some (start, stop) =>
      if start.isEmpty then (Text.parseU64 stop).isSome
      else (Text.parseU64 start).any fun start =>
        stop.isEmpty || (Text.parseU64 stop).any fun stop => start ≤ stop

/-- `range_requested` -/
def rangeRequested (headers : M) (policy : Policy) : Bool :=
  if (value headers .ifRange).any fun ifRange => policy.rangeValue ≠ some ifRange then false
  else match (value headers .range).bind (Text.stripPrefix bytesUnit) with
    | none => false
    | some text => requestedText text

/-- What `client_range` reads of the text behind the unit. -/
def clientText (text : Text) (length : Nat) : Option ByteRange :=
  match Text.splitOnce '-' text with
  | none => some ⟨0, length⟩
  | some (start, stop) =>
    if start.isEmpty then
      match Text.parseU64 stop with
      | none => some ⟨0, length⟩
      | some suffix => if 0 < suffix ∧ 0 < length then some ⟨length - suffix, length⟩ else none
    else
      match Text.parseU64 start with
      | none => some ⟨0, length⟩
      | some start =>
        match if stop.isEmpty then some length
          else (Text.parseU64 stop).map fun stop => min (saturatingAdd stop 1) length with
        | none => some ⟨0, length⟩
        | some stop => if start < stop ∧ start < length then some ⟨start, stop⟩ else none

/-- `client_range`: the bytes to send, none where the range cannot be satisfied. -/
def clientRange (headers : M) (policy : Policy) (length : Nat) : Option ByteRange :=
  if !rangeRequested headers policy then some ⟨0, length⟩
  else clientText (Text.trimStartMatches bytesUnit ((value headers .range).getD [])) length

/-- Whether `respond` sends `Content-Range`. -/
def isPartial (headers : M) (policy : Policy) (length : Nat) (range : ByteRange) : Bool :=
  range.start ≠ 0 || range.stop ≠ length || rangeRequested headers policy

/-- The first and the last position in `Content-Range`; `range.end - 1` has no
value for an end of 0. -/
def contentRange (range : ByteRange) : Option (Nat × Nat) :=
  if range.stop = 0 then none else some (range.start, range.stop - 1)

end Qcm.ResourceRanges
