import Qcm.CachePolicy

/-!
`not_modified` against the comparison of entity tags.

The field is split at every comma, also at those inside a tag, and only its
first line is read.  So the answer is right where a tag of the first line
matches that has no comma, and else where a stray piece between two commas does
not stand in for a tag.
-/

namespace Qcm.NotModifiedProofs

open Lib Lib.HttpField ResourceHeaders CachePolicy

variable {text before after : Text}

private theorem splitOn_intercalate {texts : List Text} (some : texts ≠ []) :
    ([','].intercalate texts).splitOn ',' = texts.flatMap (List.splitOn ',') := by
  induction texts with
  | nil => exact absurd rfl some
  | cons first rest ih =>
    by_cases last : rest = []
    · simp [last]
    · rw [List.intercalate_cons_of_ne_nil last, List.append_assoc, List.singleton_append,
        List.splitOn_append_cons_self, ih last, List.flatMap_cons]

private theorem trimmed_before (leads : ∀ c ∈ before, isOws c = true) :
    ((before ++ text).splitOn ',').map Text.trim = (text.splitOn ',').map Text.trim := by
  induction before with
  | nil => rfl
  | cons c before ih =>
    rw [List.forall_mem_cons] at leads
    have other : (c == ',') = false := by
      rw [beq_eq_false_iff_ne]
      rintro rfl
      exact absurd leads.1 (by decide)
    have lead (piece : Text) : Text.trim (c :: piece) = Text.trim piece := by
      have padded : Text.trim ([c] ++ (piece ++ [])) = Text.trim piece :=
        Text.trim_padded (by simpa using isWhitespace_of_isOws leads.1) (by simp)
      simpa using padded
    rw [List.cons_append, List.splitOn_cons_eq_if_modifyHead, other, if_neg (by decide), ← ih leads.2]
    cases (before ++ text).splitOn ',' with
    | nil => rfl
    | cons first rest => rw [List.modifyHead_cons, List.map_cons, List.map_cons, lead]

private theorem trimmed_after (trails : ∀ c ∈ after, isOws c = true) :
    ((text ++ after).splitOn ',').map Text.trim = (text.splitOn ',').map Text.trim := by
  induction size : text.length using Nat.strong_induction_on generalizing text with | _ n ih
  by_cases comma : ',' ∈ text
  · obtain ⟨front, back, rfl⟩ := List.append_of_mem comma
    have shorter : back.length < n := by
      rw [← size, List.length_append, List.length_cons]
      omega
    rw [List.append_assoc, List.cons_append, List.splitOn_append_cons_self, List.splitOn_append_cons_self,
      List.map_append, List.map_append, ih _ shorter rfl]
  · have absent : ',' ∉ text ++ after := fun member => (List.mem_append.mp member).elim comma
      fun blank => absurd (trails _ blank) (by decide)
    have padded : Text.trim ([] ++ (text ++ after)) = Text.trim text :=
      Text.trim_padded (by simp) fun c member => isWhitespace_of_isOws (trails c member)
    rw [List.splitOn_eq_singleton comma, List.splitOn_eq_singleton absent]
    simpa using padded

/-- The stored text of a tag without a `W/` in front of it. -/
def unweakened (etag : Text) : Text := (Text.stripPrefix ['W', '/'] etag).getD etag

/-- The weak comparison with the stored tag. -/
def Matches (policy : Policy) (tag : EntityTag) : Prop :=
  ∃ etag, policy.etag = some etag ∧ tag.quoted = unweakened etag

/-- A piece that `not_modified` takes for a star or for the stored tag. -/
def Taken (policy : Policy) (piece : Text) : Prop :=
  Text.trim piece = ['*'] ∨ ∃ etag, policy.etag = some etag ∧
    Text.trimStartMatches ['W', '/'] (Text.trim piece) = Text.trimStartMatches ['W', '/'] etag

abbrev Place := HttpField.Place EntityTag

/-- The place holds a tag that matches and has no comma. -/
def Sound (policy : Policy) (place : Place) : Prop :=
  ∃ tag, place.element = some tag ∧ ',' ∉ tag.chars ∧ Matches policy tag

/-- A piece of a place is taken, but not because the place is a tag that matches. -/
def Stray (policy : Policy) (place : Place) : Prop :=
  ¬ Sound policy place ∧ ∃ piece ∈ (place.text EntityTag.text).splitOn ',', Taken policy piece

variable {policy : Policy} {place : Place} {tag : EntityTag}

private theorem comma_text : ',' ∈ tag.text ↔ ',' ∈ tag.chars := by
  have apart : ',' ≠ '"' := by decide
  cases weak : tag.weak <;> simp [EntityTag.text, EntityTag.quoted, weak, apart]

private theorem quoted_leads : ¬ ['W', '/'] <+: tag.quoted := by
  intro leads
  obtain ⟨rest, same⟩ := leads
  rw [EntityTag.quoted, List.cons_append, List.cons.injEq] at same
  exact absurd same.1 (by decide)

private theorem stripped_text : Text.trimStartMatches ['W', '/'] tag.text = tag.quoted := by
  rw [EntityTag.text]
  cases tag.weak with
  | true => exact Text.trimStartMatches_append (by simp) quoted_leads
  | false => exact Text.trimStartMatches_self quoted_leads

private theorem trim_text : Text.trim tag.text = tag.text := by
  have foot : tag.text.getLast? = some '"' := by
    simp [EntityTag.text, EntityTag.quoted, List.getLast?_cons]
  have head : tag.text.head? = some (if tag.weak then 'W' else '"') := by
    cases weak : tag.weak <;> simp [EntityTag.text, EntityTag.quoted, weak]
  exact Text.trim_tight head foot (by split <;> decide) (by decide)

theorem matches_iff : Matches policy tag ↔ ∃ weak, policy.etag = some { tag with weak }.text := by
  constructor
  · rintro ⟨etag, stored, same⟩
    rw [unweakened] at same
    cases read : Text.stripPrefix ['W', '/'] etag with
    | none =>
      rw [read, Option.getD_none] at same
      exact ⟨false, by rw [stored, ← same]; rfl⟩
    | some rest =>
      rw [read, Option.getD_some] at same
      exact ⟨true, by rw [stored, Text.stripPrefix_eq_some.mp read, ← same]; rfl⟩
  · rintro ⟨weak, stored⟩
    refine ⟨_, stored, ?_⟩
    rw [unweakened, EntityTag.text]
    cases weak with
    | true =>
      have read : Text.stripPrefix ['W', '/'] (['W', '/'] ++ tag.quoted) = some tag.quoted :=
        Text.stripPrefix_eq_some.mpr rfl
      exact (congrArg (Option.getD · _) read).symm
    | false =>
      have read : Text.stripPrefix ['W', '/'] tag.quoted = none := if_neg quoted_leads
      exact (congrArg (Option.getD · _) read).symm

private theorem trimmed_place (element : place.element = some tag) :
    ((place.text EntityTag.text).splitOn ',').map Text.trim = (tag.text.splitOn ',').map Text.trim := by
  rw [Place.text, trimmed_before place.leads, element, trimmed_after place.trails]
  rfl

private theorem taken_of_trim {piece other : Text} (same : Text.trim piece = Text.trim other) :
    Taken policy piece ↔ Taken policy other := by
  rw [Taken, same, Taken]

/-- A tag without a comma is read whole. -/
theorem Sound.taken (sound : Sound policy place) :
    ∃ piece ∈ (place.text EntityTag.text).splitOn ',', Taken policy piece := by
  obtain ⟨tag, element, comma, matched⟩ := sound
  obtain ⟨weak, stored⟩ := matches_iff.mp matched
  have whole : tag.text.splitOn ',' = [tag.text] := List.splitOn_eq_singleton fun member => comma (comma_text.mp member)
  have pieces := trimmed_place element
  rw [whole, List.map_singleton, List.map_eq_singleton_iff] at pieces
  obtain ⟨piece, same, trimmed⟩ := pieces
  refine ⟨piece, by simp [same], (taken_of_trim trimmed).mpr (.inr ⟨_, stored, ?_⟩)⟩
  rw [trim_text, stripped_text, stripped_text]
  rfl

/-! ## The field -/

/-- `If-None-Match`: a star, or lists of tags in one line or several. -/
inductive NoneMatch where
  | star
  | tags (first : List Place) (rest : List (List Place)) (there : first ≠ [])

def lineText (places : List Place) : Text := listText EntityTag.text places

def NoneMatch.lines : NoneMatch → List Text
  | .star => [['*']]
  | .tags first rest _ => (first :: rest).map lineText

/-- What the field asks for: a star, or a tag of any line that matches. -/
def NoneMatch.Selected (policy : Policy) : NoneMatch → Prop
  | .star => True
  | .tags first rest _ => ∃ tag ∈ (first :: rest).flatMap elements, Matches policy tag

variable {M : Type*} [MultiMap HeaderName HeaderValue M] {parse : Text → Option Nat} {request : M}

/-- `If-Modified-Since` names a date that is not before the stored one. -/
def Unmodified (parse : Text → Option Nat) (policy : Policy) (request : M) : Prop :=
  ∃ since modified, date parse request .ifModifiedSince = some since ∧
    policy.modified.bind parse = some modified ∧ modified ≤ since

/-- When the answer is right.  A line that is not visible ASCII is not read, and
`If-Modified-Since` answers for it. -/
def Answerable (parse : Text → Option Nat) (policy : Policy) (request : M) : NoneMatch → Prop
  | .star => True
  | .tags first rest there =>
    if ∀ c ∈ lineText first, isVisible c = true then
      (∃ place ∈ first, Sound policy place) ∨
        (NoneMatch.Selected policy (.tags first rest there) ↔ ∃ place ∈ first, Stray policy place)
    else NoneMatch.Selected policy (.tags first rest there) ↔ Unmodified parse policy request

theorem notModified_of_tags {tags : Text} (read : value request .ifNoneMatch = some tags) :
    notModified parse policy request = true ↔ ∃ piece ∈ tags.splitOn ',', Taken policy piece := by
  rw [notModified, read, List.any_eq_true]
  refine exists_congr fun piece => and_congr_right fun _ => ?_
  rw [Bool.or_eq_true, decide_eq_true_iff, Taken]
  refine or_congr_right ?_
  cases policy.etag with
  | none | some etag => simp

theorem notModified_of_unread (unread : value request .ifNoneMatch = none) :
    notModified parse policy request = true ↔ Unmodified parse policy request := by
  rw [notModified, unread, Unmodified]
  cases date parse request .ifModifiedSince with
  | none => simp
  | some since =>
    cases policy.modified.bind parse with
    | none | some modified => simp

private theorem taken_line {places : List Place} (there : places ≠ []) :
    (∃ piece ∈ (lineText places).splitOn ',', Taken policy piece) ↔
      (∃ place ∈ places, Sound policy place) ∨ ∃ place ∈ places, Stray policy place := by
  rw [lineText, listText, splitOn_intercalate (by simpa using there)]
  simp only [List.mem_flatMap, List.mem_map, exists_exists_and_eq_and]
  constructor
  · rintro ⟨piece, ⟨place, member, inside⟩, taken⟩
    by_cases sound : Sound policy place
    · exact .inl ⟨place, member, sound⟩
    · exact .inr ⟨place, member, sound, piece, inside, taken⟩
  · rintro (⟨place, member, sound⟩ | ⟨place, member, -, piece, inside, taken⟩)
    · obtain ⟨piece, inside, taken⟩ := sound.taken
      exact ⟨piece, ⟨place, member, inside⟩, taken⟩
    · exact ⟨piece, ⟨place, member, inside⟩, taken⟩

private theorem get_of_lines {line : Text} {lines : List Text}
    (written : (MultiMap.getAll request .ifNoneMatch).map HeaderValue.octets = line :: lines) :
    ∃ header, MultiMap.get request .ifNoneMatch = some header ∧ header.octets = line := by
  rw [MultiMap.get]
  cases values : MultiMap.getAll request .ifNoneMatch with
  | nil =>
    rw [values] at written
    cases written
  | cons header rest =>
    rw [values, List.map_cons, List.cons.injEq] at written
    exact ⟨header, rfl, written.1⟩

/-- A policy with a stored tag and nothing else. -/
def tagPolicy (etag : Text) : Policy := ⟨0, 0, 0, false, true, some etag, none, none⟩

def commaTag : EntityTag := ⟨false, "a,b".toList, by decide⟩

def starTag : EntityTag := ⟨false, "x,*,y".toList, by decide⟩

/-- A tag in a line of its own. -/
def oneTag (tag : EntityTag) : NoneMatch :=
  .tags [⟨[], some tag, [], by simp, by simp⟩] [] (by simp)

def commaRequest : List (HeaderName × HeaderValue) := [(.ifNoneMatch, ⟨commaTag.text, by decide⟩)]

def starRequest : List (HeaderName × HeaderValue) := [(.ifNoneMatch, ⟨starTag.text, by decide⟩)]

def listedTag : EntityTag := ⟨true, "v 1 W/".toList, by decide⟩

theorem unpadded : ∀ c ∈ ([] : Text), isOws c = true := by simp

theorem one_space : ∀ c ∈ [' '], isOws c = true := by decide

/-- `"x,y", W/"v 1 W/"` -/
def listedTags : NoneMatch :=
  .tags [⟨[], some ⟨false, "x,y".toList, by decide⟩, [], unpadded, unpadded⟩,
    ⟨[' '], some listedTag, [], one_space, unpadded⟩] [] (by simp)

def listedRequest : List (HeaderName × HeaderValue) :=
  [(.ifNoneMatch, ⟨"\"x,y\", W/\"v 1 W/\"".toList, by decide⟩)]

end Qcm.NotModifiedProofs
