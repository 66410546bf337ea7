import Qcm.CachePolicy

/-!
What `directives` reads of `Cache-Control`, against the grammar of the field: a
list of directives, each a token with an argument or none, which is a token or a
quoted string.

The scanner turns at every quote.  It cuts a line at the commas of the list when
an even number of escaped quotes stands before each comma in a quoted string and
before its end, and only then.
-/

namespace Qcm.DirectiveProofs

open Lib Lib.HttpField ResourceHeaders CachePolicy

inductive Argument where
  | token (value : Token)
  | quoted (items : List QuotedItem)

structure CacheDirective where
  name : Token
  argument : Option Argument

def Argument.text : Argument → Text
  | .token value => value.chars
  | .quoted items => quotedText items

def CacheDirective.text (d : CacheDirective) : Text :=
  d.name.chars ++ ((d.argument.map fun argument => '=' :: argument.text).getD [])

/-- A line of `Cache-Control`. -/
abbrev Line := List (Place CacheDirective)

def lineText (line : Line) : Text := listText CacheDirective.text line

/-- The names in a line, in lower case. -/
def lineNames (line : Line) : List Text :=
  (elements line).map fun d => Text.toAsciiLowercase d.name.chars

def isEscapedQuote : QuotedItem → Bool
  | .plain _ _ => false
  | .escaped c _ => c = '"'

/-- Whether an even number of escaped quotes stands before each comma and before
the end, given whether the number up to here is even. -/
def evenQuotes : Bool → List QuotedItem → Bool
  | even, [] => even
  | even, item :: rest =>
    decide (item.char = ',' → even = true) &&
      evenQuotes (if isEscapedQuote item then !even else even) rest

/-- What a directive has in quotes. -/
def CacheDirective.quotedItems (d : CacheDirective) : List QuotedItem :=
  match d.argument with
  | some (.quoted items) => items
  | _ => []

/-- The scanner passes the argument as a whole. -/
abbrev CacheDirective.Even (d : CacheDirective) : Prop := evenQuotes true d.quotedItems = true

/-- The argument is visible ASCII. -/
abbrev CacheDirective.Visible (d : CacheDirective) : Prop :=
  ∀ item ∈ d.quotedItems, isVisible item.char = true

private theorem plain_of_tchars {text : Text} (tchars : ∀ c ∈ text, isTchar c = true) :
    '"' ∉ text ∧ ',' ∉ text :=
  ⟨fun member => absurd (tchars _ member) (by decide), fun member => absurd (tchars _ member) (by decide)⟩

private theorem plain_of_ows {text : Text} (ows : ∀ c ∈ text, isOws c = true) : '"' ∉ text ∧ ',' ∉ text :=
  ⟨fun member => absurd (ows _ member) (by decide), fun member => absurd (ows _ member) (by decide)⟩

variable {items : List QuotedItem} {place : Place CacheDirective}

/-- From inside the quotes, a quoted string is held and ends inside the quotes. -/
private theorem items_held {even : Bool} : (QuotedSplit.held '"' ',' even (items.flatMap QuotedItem.text) = true ∧
      QuotedSplit.quotedAfter '"' even (items.flatMap QuotedItem.text) = true) ↔ evenQuotes even items = true := by
  induction items generalizing even with
  | nil => simp [QuotedSplit.held, QuotedSplit.quotedAfter, evenQuotes]
  | cons item rest ih =>
    cases item with
    | plain c valid =>
      have other : c ≠ '"' := by
        rintro rfl
        revert valid
        decide
      have same : QuotedSplit.turn '"' even c = even := by rw [QuotedSplit.turn, if_neg other]
      rw [List.flatMap_cons, QuotedItem.text, List.singleton_append, QuotedSplit.held, evenQuotes,
        QuotedSplit.quotedAfter_cons, same, Bool.and_eq_true, Bool.and_eq_true, and_assoc, ih]
      rfl
    | escaped c valid =>
      have back : QuotedSplit.turn '"' even '\\' = even := by rw [QuotedSplit.turn, if_neg (by decide)]
      have turned : (if isEscapedQuote (.escaped c valid) then !even else even) =
          QuotedSplit.turn '"' even c := by simp [isEscapedQuote, QuotedSplit.turn]
      have comma : (c = ',' → QuotedSplit.turn '"' even c = true) ↔ (c = ',' → even = true) := by
        refine forall_congr' fun same => ?_
        rw [same, QuotedSplit.turn, if_neg (by decide)]
      rw [List.flatMap_cons, QuotedItem.text, List.cons_append, List.singleton_append, QuotedSplit.held,
        QuotedSplit.held, evenQuotes, QuotedSplit.quotedAfter_cons, QuotedSplit.quotedAfter_cons, back,
        turned, QuotedItem.char, Bool.and_eq_true, Bool.and_eq_true, Bool.and_eq_true, ← ih]
      simp only [decide_eq_true_eq, comma]
      have slash : '\\' = ',' → even = true := fun same => absurd same (by decide)
      tauto

private theorem whole_quotedText : QuotedSplit.Whole '"' ',' (quotedText items) ↔ evenQuotes true items = true := by
  rw [quotedText, QuotedSplit.whole_quoted (by decide), items_held]

private theorem whole_directive {d : CacheDirective} :
    QuotedSplit.Whole '"' ',' d.text ↔ d.Even := by
  have name := plain_of_tchars d.name.tchars
  cases argument : d.argument with
  | none =>
    have whole : QuotedSplit.Whole '"' ',' d.text := by
      rw [CacheDirective.text, argument, Option.map_none, Option.getD_none, List.append_nil]
      exact QuotedSplit.of_plain name.1 name.2
    exact ⟨fun _ => by simp [CacheDirective.Even, CacheDirective.quotedItems, argument, evenQuotes],
      fun _ => whole⟩
  | some argument' =>
    have equals : '"' ∉ d.name.chars ++ ['='] ∧ ',' ∉ d.name.chars ++ ['='] := by
      simp only [List.mem_append, not_or]
      exact ⟨⟨name.1, by decide⟩, name.2, by decide⟩
    have text : d.text = (d.name.chars ++ ['=']) ++ (argument'.text ++ []) := by
      simp [CacheDirective.text, argument]
    rw [text, QuotedSplit.whole_padded equals (by simp)]
    cases argument' with
    | token value =>
      have plain := plain_of_tchars value.tchars
      exact ⟨fun _ => by simp [CacheDirective.Even, CacheDirective.quotedItems, argument, evenQuotes],
        fun _ => QuotedSplit.of_plain plain.1 plain.2⟩
    | quoted items =>
      rw [Argument.text, whole_quotedText, CacheDirective.Even, CacheDirective.quotedItems, argument]

private theorem whole_place : QuotedSplit.Whole '"' ',' (place.text CacheDirective.text) ↔
      ∀ d, place.element = some d → d.Even := by
  rw [Place.text, QuotedSplit.whole_padded (plain_of_ows place.leads) (plain_of_ows place.trails)]
  cases element : place.element with
  | none => exact ⟨fun _ d there => absurd there (by simp), fun _ => ⟨rfl, rfl⟩⟩
  | some d =>
    rw [Option.map_some, Option.getD_some, whole_directive]
    simp

/-- The scanner cuts a line at the commas between its places exactly when it
passes every quoted argument as a whole. -/
theorem cuts_iff {line : Line} (some : line ≠ []) :
    QuotedSplit.split '"' ',' (lineText line) false [] =
      (line.map (Place.text CacheDirective.text), false) ↔ ∀ d ∈ elements line, d.Even := by
  rw [lineText, listText, QuotedSplit.split_intercalate (by decide) (by simpa using some)]
  simp only [List.forall_mem_map, whole_place, elements, List.mem_filterMap]
  exact ⟨fun each d ⟨place, member, element⟩ => each place member d element,
    fun each place member d element => each d ⟨place, member, element⟩⟩

private theorem token_solid (token : Token) : ∀ c ∈ token.chars, Text.isWhitespace c = false :=
  fun c member => not_isWhitespace_of_isVchar (isVchar_of_isTchar (token.tchars c member))

private theorem token_last (token : Token) :
    ∃ last, token.chars.getLast? = some last ∧ Text.isWhitespace last = false := by
  have last := List.getLast?_eq_some_getLast token.there
  exact ⟨_, last, token_solid token _ (List.mem_of_mem_getLast? last)⟩

private theorem trim_text (d : CacheDirective) : Text.trim d.text = d.text := by
  obtain ⟨first, rest, name⟩ := List.exists_cons_of_ne_nil d.name.there
  have starts : Text.isWhitespace first = false := token_solid d.name first (by simp [name])
  have head : d.text.head? = some first := by simp [CacheDirective.text, name]
  have ending : ∃ last, d.text.getLast? = some last ∧ Text.isWhitespace last = false := by
    cases argument : d.argument with
    | none => simpa [CacheDirective.text, argument] using token_last d.name
    | some argument' =>
      cases argument' with
      | token value =>
        obtain ⟨last, foot, ends⟩ := token_last value
        exact ⟨last, by simp [CacheDirective.text, argument, Argument.text, List.getLast?_cons, foot], ends⟩
      | quoted items =>
        exact ⟨'"', by simp [CacheDirective.text, argument, Argument.text, quotedText, List.getLast?_cons], by decide⟩
  obtain ⟨last, foot, ends⟩ := ending
  exact Text.trim_tight head foot starts ends

private theorem directive_place : (directive (place.text CacheDirective.text)).map Prod.fst =
      place.element.map fun d => Text.toAsciiLowercase d.name.chars := by
  rw [directive, Place.text, Text.trim_padded (fun c member => isWhitespace_of_isOws (place.leads c member))
    (fun c member => isWhitespace_of_isOws (place.trails c member))]
  cases element : place.element with
  | none => rfl
  | some d =>
    have absent : '=' ∉ d.name.chars := fun member => absurd (d.name.tchars _ member) (by decide)
    have name : Text.trim d.name.chars = d.name.chars := Text.trim_solid (token_solid d.name)
    rw [Option.map_some, Option.getD_some, trim_text]
    cases argument : d.argument with
    | none =>
      have text : d.text = d.name.chars := by simp [CacheDirective.text, argument]
      rw [text, Text.splitOnce_absent absent]
      simp [name, d.name.there]
    | some argument' =>
      have text : d.text = d.name.chars ++ '=' :: argument'.text := by simp [CacheDirective.text, argument]
      rw [text, Text.splitOnce_append absent]
      simp [name, d.name.there]

/-! ## What it reads of the headers -/

private theorem visible_text {d : CacheDirective} (visible : d.Visible) :
    ∀ c ∈ d.text, isVisible c = true := by
  have tchars (token : Token) : ∀ c ∈ token.chars, isVisible c = true := fun c member =>
    isVisible_of_isVchar (isVchar_of_isTchar (token.tchars c member))
  intro c member
  rw [CacheDirective.text, List.mem_append] at member
  obtain name | rest := member
  · exact tchars d.name c name
  · cases argument : d.argument with
    | none => simp [argument] at rest
    | some argument' =>
      rw [argument, Option.map_some, Option.getD_some, List.mem_cons] at rest
      obtain rfl | rest := rest
      · decide
      · cases argument' with
        | token value => exact tchars value c rest
        | quoted items =>
          simp only [Argument.text, quotedText, List.mem_cons, List.mem_append, List.mem_flatMap,
            List.not_mem_nil, or_false] at rest
          obtain rfl | ⟨item, inside, member⟩ | rfl := rest
          · decide
          · have shown := visible item (by simpa [CacheDirective.quotedItems, argument] using inside)
            cases item with
            | plain other valid =>
              rw [List.mem_singleton.mp member]
              exact shown
            | escaped other valid =>
              obtain rfl | same := List.mem_cons.mp member
              · decide
              · rw [List.mem_singleton.mp same]
                exact shown
          · decide

private theorem isVisible_of_isOws {c : Char} (ows : isOws c = true) : isVisible c = true := by
  rw [isVisible, ows, Bool.or_true]

private theorem visible_line {line : Line} (visible : ∀ d ∈ elements line, d.Visible) :
    ∀ c ∈ lineText line, isVisible c = true := by
  intro c member
  obtain comma | ⟨piece, inside, member⟩ := Text.of_mem_intercalate member
  · rw [List.mem_singleton.mp comma]
    decide
  · obtain ⟨place, there, rfl⟩ := List.mem_map.mp inside
    rw [Place.text, List.mem_append, List.mem_append] at member
    obtain before | element | after := member
    · exact isVisible_of_isOws (place.leads c before)
    · cases shown : place.element with
      | none => simp [shown] at element
      | some d =>
        rw [shown] at element
        exact visible_text (visible d (List.mem_filterMap.mpr ⟨place, there, shown⟩)) c element
    · exact isVisible_of_isOws (place.trails c after)

theorem lineDirectives_names {line : Line} (even : ∀ d ∈ elements line, d.Even) :
    (lineDirectives (lineText line)).map Prod.fst = lineNames line := by
  by_cases there : line = []
  · subst there
    rfl
  · rw [lineDirectives, (cuts_iff there).mpr even]
    simp only [Bool.false_eq_true, if_false, List.append_nil, List.map_filterMap, List.filterMap_map,
      lineNames, elements]
    exact List.filterMap_congr fun place _ => directive_place

variable {M : Type*} [MultiMap HeaderName HeaderValue M]

/-- The lines of `Cache-Control` of a header map, as the grammar reads them. -/
def Written (headers : M) (lines : List Line) : Prop :=
  (MultiMap.getAll headers .cacheControl).map HeaderValue.octets = lines.map lineText

def allNames (lines : List Line) : List Text := lines.flatMap lineNames

theorem directives_names {headers : M} {lines : List Line} (written : Written headers lines)
    (even : ∀ line ∈ lines, ∀ d ∈ elements line, d.Even)
    (visible : ∀ line ∈ lines, ∀ d ∈ elements line, d.Visible) :
    (directives headers).map Prod.fst = allNames lines := by
  rw [Written] at written
  rw [directives, allNames]
  generalize MultiMap.getAll headers .cacheControl = values at written
  induction values generalizing lines with
  | nil =>
    rw [List.map_nil, eq_comm, List.map_eq_nil_iff] at written
    rw [written]
    rfl
  | cons header rest ih =>
    cases lines with
    | nil => cases written
    | cons line lines =>
      rw [List.map_cons, List.map_cons, List.cons.injEq] at written
      rw [List.forall_mem_cons] at even visible
      have text : header.toStr = some (lineText line) := by
        rw [HeaderValue.toStr, written.1, if_pos (visible_line visible.1)]
      rw [List.flatMap_cons, List.flatMap_cons, List.map_append, ih even.2 visible.2 written.2,
        headerDirectives, text]
      exact congrArg (· ++ _) (lineDirectives_names even.1)

/-- The names of a header map are read, with what follows from them. -/
structure ReadsNames (headers : M) (names : List Text) : Prop where
  read : (directives headers).map Prod.fst = names
  request : requestNoStore headers = true ↔ Directive.noStore ∈ names
  refused (policy : Policy) (now : Nat) (forbids : Directive.noCache ∈ names ∨ Directive.noStore ∈ names) :
    policy.fresh now headers = false
  revalidated (parse : Text → Option Nat) (sent received : Nat) :
    (Policy.fromResponse parse headers sent received).noCache = true ↔ Directive.noCache ∈ names
  unstored (parse : Text → Option Nat) (sent received : Nat) (forbids : Directive.noStore ∈ names) :
    (Policy.fromResponse parse headers sent received).store = false

private theorem any_name {headers : M} {names : List Text} {name : Text}
    (read : (directives headers).map Prod.fst = names) :
    ((directives headers).any fun d => d.1 = name) = true ↔ name ∈ names := by
  simp [← read]

theorem ReadsNames.of_names {headers : M} {names : List Text}
    (read : (directives headers).map Prod.fst = names) : ReadsNames headers names where
  read := read
  request := any_name read
  refused policy now forbids := by
    have forbidden : ((directives headers).any fun d =>
        d.1 = Directive.noCache || d.1 = Directive.noStore) = true := by
      obtain cache | store := forbids
      · obtain ⟨d, member, same⟩ := List.any_eq_true.mp ((any_name read).mpr cache)
        exact List.any_eq_true.mpr ⟨d, member, by simp [of_decide_eq_true same]⟩
      · obtain ⟨d, member, same⟩ := List.any_eq_true.mp ((any_name read).mpr store)
        exact List.any_eq_true.mpr ⟨d, member, by simp [of_decide_eq_true same]⟩
    simp [Policy.fresh, forbidden]
  revalidated parse sent received := any_name read
  unstored parse sent received forbids := by
    have forbidden := (any_name read).mpr forbids
    simp [Policy.fromResponse, forbidden]

/-- Every name is read when an even number of escaped quotes stands before each
comma in a quoted argument and before its end, and all arguments are visible
ASCII.  The scanner finds the commas of a line under the first condition only. -/
theorem directives_read {headers : M} {lines : List Line} (written : Written headers lines) :
    ((∀ line ∈ lines, ∀ d ∈ elements line, d.Even ∧ d.Visible) → ReadsNames headers (allNames lines)) ∧
      ∀ line ∈ lines, line ≠ [] → (QuotedSplit.split '"' ',' (lineText line) false [] =
        (line.map (Place.text CacheDirective.text), false) ↔ ∀ d ∈ elements line, d.Even) :=
  ⟨fun plain => .of_names (directives_names written (fun line member d inside => (plain line member d inside).1)
    fun line member d inside => (plain line member d inside).2), fun _ _ there => cuts_iff there⟩

private def shortToken (c : Char) (tchar : isTchar c = true) : Token :=
  ⟨[c], by simp, by simpa using tchar⟩

/-- `x="\"", no-cache, y="\""` -/
def hidingLine : Line :=
  let quote : Argument := .quoted [.escaped '"' (by decide)]
  [⟨[], some ⟨shortToken 'x' (by decide), some quote⟩, [], by decide, by decide⟩,
    ⟨[' '], some ⟨⟨"no-cache".toList, by decide, by decide⟩, none⟩, [], by decide, by decide⟩,
    ⟨[' '], some ⟨shortToken 'y' (by decide), some quote⟩, [], by decide, by decide⟩]

def hidingHeaders : List (HeaderName × HeaderValue) := [(.cacheControl, ⟨lineText hidingLine, by decide⟩)]

/-- The directive between two escaped quotes is not read. -/
theorem directive_hidden : Written hidingHeaders [hidingLine] ∧
    Directive.noCache ∈ allNames [hidingLine] ∧
      (directives hidingHeaders).map Prod.fst = ["x".toList] ∧
        (Policy.fromResponse (fun _ => none) hidingHeaders 0 0).noCache = false :=
  ⟨by rw [Written]; decide, by decide, by decide, by decide⟩

/-- `no-cache, x="\"\"a"` -/
def plainLine : Line :=
  [⟨[], some ⟨⟨"no-cache".toList, by decide, by decide⟩, none⟩, [], by decide, by decide⟩,
    ⟨[' '], some ⟨shortToken 'x' (by decide), some (.quoted
      [.escaped '"' (by decide), .escaped '"' (by decide), .plain 'a' (by decide)])⟩, [],
      by decide, by decide⟩]

def plainHeaders : List (HeaderName × HeaderValue) := [(.cacheControl, ⟨lineText plainLine, by decide⟩)]

theorem plain_line_read : ReadsNames plainHeaders ["no-cache".toList, "x".toList] := by
  have written : Written plainHeaders [plainLine] := by
    rw [Written]
    decide
  exact (directives_read written).1 (by decide)

end Qcm.DirectiveProofs
