import Qcm.FtsTokenizerProofs

/-!
The queries that the tokenizer makes: they are terms of FTS5 joined by AND, and
they find the parts of a document that its tokens begin with.
-/

namespace Qcm.FtsQueryProofs

open Lib FtsTokenizer FtsTokenizerProofs

/-- A character that FTS5 takes into a word without quotes. -/
def BareChar (c : Char) : Prop :=
  0x80 ≤ c.toNat ∨ c.isAlpha = true ∨ c.isDigit = true ∨ c = '_' ∨ c.toNat = 26

def Bareword (word : Text) : Prop := word ≠ [] ∧ ∀ c ∈ word, BareChar c

def keywords : List Text := ["AND".toList, "OR".toList, "NOT".toList, "NEAR".toList]

/-- A word that is no keyword, or the beginnings of one. -/
def Term (term : Text) : Prop := ∃ word, Bareword word ∧ word ∉ keywords ∧ (term = word ∨ term = word ++ ['*'])

/-- No term, or terms joined by AND. -/
def Conjunction (query : Text) : Prop :=
  ∃ terms : List Text, query = " AND ".toList.intercalate terms ∧ ∀ term ∈ terms, Term term

variable {nfkc : Text → Text} {input text run : Text} {k : CharType} {c : Char} {token : Token} {start : Nat}

theorem isUpper_iff : c.isUpper = true ↔ 65 ≤ c.toNat ∧ c.toNat ≤ 90 := by
  simp [Char.isUpper, UInt32.le_iff_toNat_le]

theorem isLower_iff : c.isLower = true ↔ 97 ≤ c.toNat ∧ c.toNat ≤ 122 := by
  simp [Char.isLower, UInt32.le_iff_toNat_le]

theorem isDigit_iff : c.isDigit = true ↔ 48 ≤ c.toNat ∧ c.toNat ≤ 57 := by
  simp [Char.isDigit, UInt32.le_iff_toNat_le]

theorem isAlpha_iff : c.isAlpha = true ↔ c.isUpper = true ∨ c.isLower = true := by
  simp [Char.isAlpha]

theorem alphabetic_iff : getCharType c = .alphabetic ↔ c.isAlpha = true := by
  unfold getCharType
  split_ifs <;> simp_all

theorem numeric_iff : getCharType c = .numeric ↔ c.isDigit = true := by
  unfold getCharType
  have := @isDigit_iff c
  have := @isAlpha_iff c
  have := @isUpper_iff c
  have := @isLower_iff c
  split_ifs <;> simp_all
  omega

theorem other_iff : getCharType c = .other ↔ 0x80 ≤ c.toNat := by
  unfold getCharType
  have := @isDigit_iff c
  have := @isAlpha_iff c
  have := @isUpper_iff c
  have := @isLower_iff c
  split_ifs <;> simp_all <;> omega

theorem isLower_toLower (letter : c.isAlpha = true) : c.toLower.isLower = true := by
  rw [isAlpha_iff, isUpper_iff, isLower_iff] at letter
  rw [isLower_iff, Text.toNat_toLower]
  split <;> omega

theorem mem_bigrams {window : Text} : window ∈ bigrams text ↔ ∃ a b, window = [a, b] ∧ [a, b] <:+: text := by
  fun_induction bigrams text with
  | case1 a b rest ih =>
    rw [List.mem_cons, ih]
    constructor
    · rintro (rfl | ⟨x, y, rfl, inside⟩)
      · exact ⟨a, b, rfl, ⟨[], rest, rfl⟩⟩
      · exact ⟨x, y, rfl, inside.trans (List.suffix_cons _ _).isInfix⟩
    · rintro ⟨x, y, rfl, inside⟩
      rcases List.infix_cons_iff.mp inside with front | later
      · simp only [List.cons_prefix_cons] at front
        exact .inl (by rw [front.1, front.2.1])
      · exact .inr ⟨x, y, rfl, later⟩
  | case2 text short =>
    simp only [List.not_mem_nil, false_iff]
    rintro ⟨a, b, -, front, back, split⟩
    cases front with
    | nil => exact short a b back split.symm
    | cons c rest =>
      cases rest with
      | nil => exact short c a (b :: back) split.symm
      | cons d rest => exact short c d (rest ++ [a, b] ++ back) split.symm

/-- What a stretch of other characters is cut into. -/
def Piece (run word : Text) : Prop := (run.length = 1 ∧ word = run) ∨ word ∈ bigrams run

theorem mem_processToken (member : token ∈ processToken run k start) : run ≠ [] ∧
    ((k = .numeric ∧ token = .numeric run start) ∨
      (k = .alphabetic ∧ token = .alphabetic (Text.toAsciiLowercase run) start) ∨
      (k = .other ∧ ∃ word place, token = .nGram word place ∧ Piece run word)) := by
  unfold processToken at member
  split at member
  case isTrue => cases member
  case isFalse filled =>
    rw [List.isEmpty_iff] at filled
    refine ⟨filled, ?_⟩
    cases k with
    | numeric => exact .inl ⟨rfl, List.mem_singleton.mp member⟩
    | alphabetic => exact .inr (.inl ⟨rfl, List.mem_singleton.mp member⟩)
    | separator => cases member
    | other =>
      refine .inr (.inr ⟨rfl, ?_⟩)
      dsimp only at member
      split at member
      case isTrue short =>
        have one : run.length = 1 := by have := List.length_pos_iff.mpr filled; omega
        exact ⟨run, start, List.mem_singleton.mp member, .inl ⟨one, rfl⟩⟩
      case isFalse =>
        obtain ⟨i, bound, rfl⟩ := List.mem_mapIdx.mp member
        exact ⟨_, _, rfl, .inr (List.getElem_mem bound)⟩

theorem exists_nGram {word : Text} (start : Nat) (piece : Piece run word) :
    ∃ place, Token.nGram word place ∈ processToken run .other start := by
  have filled : run ≠ [] := by
    rintro rfl
    rcases piece with ⟨one, -⟩ | member
    · cases one
    · cases member
  rw [processToken, if_neg (by simpa using filled)]
  rcases piece with ⟨one, rfl⟩ | member
  · rw [if_pos (by omega)]
    exact ⟨start, List.mem_singleton_self _⟩
  · obtain ⟨a, b, rfl, inside⟩ := mem_bigrams.mp member
    have long : ¬ run.length < 2 := not_lt.mpr inside.length_le
    rw [if_neg long]
    obtain ⟨i, bound, same⟩ := List.getElem_of_mem member
    exact ⟨start + i, List.mem_mapIdx.mpr ⟨i, bound, by rw [same]⟩⟩

theorem chars_of_token (member : token ∈ tokenize nfkc input) :
    token.text ≠ [] ∧ ∀ c ∈ token.text, BareChar c ∧ c.isUpper = false := by
  obtain ⟨before, run, after, k, stretch, made⟩ := mem_tokenize.mp member
  obtain ⟨filled, numeric | alphabetic | other⟩ := mem_processToken made
  · obtain ⟨rfl, rfl⟩ := numeric
    refine ⟨filled, fun c inside => ?_⟩
    have digit := numeric_iff.mp (stretch.alike c inside)
    refine ⟨.inr (.inr (.inl digit)), ?_⟩
    rw [isDigit_iff] at digit
    rw [Bool.eq_false_iff, ne_eq, isUpper_iff]
    omega
  · obtain ⟨rfl, rfl⟩ := alphabetic
    refine ⟨by simpa [Token.text, Text.toAsciiLowercase] using filled, fun c inside => ?_⟩
    obtain ⟨d, from_run, rfl⟩ := List.mem_map.mp inside
    have lower := isLower_toLower (alphabetic_iff.mp (stretch.alike d from_run))
    refine ⟨.inr (.inl (isAlpha_iff.mpr (.inr lower))), ?_⟩
    rw [isLower_iff] at lower
    rw [Bool.eq_false_iff, ne_eq, isUpper_iff]
    omega
  · obtain ⟨rfl, word, place, rfl, piece⟩ := other
    have within : word ≠ [] ∧ word <:+: run := by
      rcases piece with ⟨-, rfl⟩ | member
      · exact ⟨filled, List.infix_refl _⟩
      · obtain ⟨a, b, rfl, inside⟩ := mem_bigrams.mp member
        exact ⟨by simp, inside⟩
    refine ⟨within.1, fun c inside => ?_⟩
    have foreign := other_iff.mp (stretch.alike c (within.2.subset inside))
    refine ⟨.inl foreign, ?_⟩
    rw [Bool.eq_false_iff, ne_eq, isUpper_iff]
    omega

theorem term_of_token (member : token ∈ tokenize nfkc input) : Term token.term := by
  obtain ⟨filled, chars⟩ := chars_of_token member
  refine ⟨token.text, ⟨filled, fun c inside => (chars c inside).1⟩, fun keyword => ?_, ?_⟩
  · -- every keyword has a capital
    have capital : ∀ word ∈ keywords, ∃ c ∈ word, c.isUpper = true := by simp [keywords]
    obtain ⟨c, inside, upper⟩ := capital _ keyword
    exact absurd upper (by simp [(chars c inside).2])
  · cases token with
    | numeric => exact .inl rfl
    | alphabetic | nGram => exact .inr rfl

theorem query_is_conjunction (nfkc : Text → Text) (query : Text) : Conjunction (tokenizeQuery nfkc query) := by
  refine ⟨(tokenize nfkc query).map Token.term, rfl, fun term member => ?_⟩
  obtain ⟨token, inside, rfl⟩ := List.mem_map.mp member
  exact term_of_token inside

/-! ## What a query finds -/

/-- The words of a query but those that join them. -/
def queryTerms (query : Text) : List Text := (query.splitOn ' ').filter fun word => word ≠ "AND".toList ∧ word ≠ []

/-- A term with a star stands for every token that begins with it. -/
def Hits (term word : Text) : Prop := if term.getLast? = some '*' then term.dropLast <+: word else term = word

instance (term word : Text) : Decidable (Hits term word) :=
  inferInstanceAs (Decidable (if term.getLast? = some '*' then term.dropLast <+: word else term = word))

def Matches (query : Text) (tokens : List Token) : Prop :=
  ∀ term ∈ queryTerms query, ∃ token ∈ tokens, Hits term token.text

instance (query : Text) (tokens : List Token) : Decidable (Matches query tokens) :=
  inferInstanceAs (Decidable (∀ term ∈ queryTerms query, _))

/-- The parts of a text that a search is expected to find it by. -/
def Sought (text sub : Text) : Prop :=
  sub ≠ [] ∧ ((∃ before run after, Run text before run after .other ∧ sub <:+: run) ∨
    (∃ before run after, Run text before run after .alphabetic ∧ sub <+: run) ∨
    ∃ before after, Run text before sub after .numeric)

/-- A single character outside ASCII is found where it stands alone or another one follows it. -/
def Findable (text sub : Text) : Prop :=
  ∀ c, sub = [c] → getCharType c = .other →
    (∃ before after, Run text before [c] after .other) ∨ ∃ d, getCharType d = .other ∧ [c, d] <:+: text

/-- A part of a normalised text is normalised. -/
def Closed (nfkc : Text → Text) : Prop := ∀ text part, part <:+: nfkc text → nfkc part = part

theorem Term.solid {term : Text} (valid : Term term) : ' ' ∉ term ∧ term ≠ "AND".toList ∧ term ≠ [] := by
  obtain ⟨word, ⟨filled, bare⟩, other, shape⟩ := valid
  have blank : ' ' ∉ word := by
    intro inside
    have := bare ' ' inside
    revert this
    simp only [BareChar]
    decide
  have plain : word ≠ "AND".toList := fun same => other (same ▸ by decide)
  rcases shape with rfl | rfl
  · exact ⟨blank, plain, filled⟩
  · refine ⟨by simpa using blank, fun same => ?_, by simp⟩
    have last := congrArg List.getLast? same
    rw [List.getLast?_concat] at last
    exact absurd last (by decide)

theorem queryTerms_intercalate {terms : List Text}
    (solid : ∀ term ∈ terms, ' ' ∉ term ∧ term ≠ "AND".toList ∧ term ≠ []) :
    queryTerms (" AND ".toList.intercalate terms) = terms := by
  have kept : ∀ term ∈ terms, [term].filter (fun word => word ≠ "AND".toList ∧ word ≠ []) = [term] := by
    intro term member
    exact List.filter_eq_self.mpr (by simpa using (solid term member).2)
  have single : ∀ term ∈ terms, term.splitOn ' ' = [term] := fun term member =>
    List.splitOn_eq_singleton (solid term member).1
  unfold queryTerms
  induction terms with
  | nil => rfl
  | cons term rest ih =>
    cases rest with
    | nil =>
      rw [List.intercalate_singleton, single term (by simp), kept term (by simp)]
    | cons next rest =>
      have joined : " AND ".toList.intercalate (term :: next :: rest) =
          term ++ ' ' :: ("AND".toList ++ ' ' :: " AND ".toList.intercalate (next :: rest)) := by
        rw [List.intercalate_cons_cons]
        simp
      rw [joined, List.splitOn_append_cons_self, List.splitOn_append_cons_self, List.filter_append, List.filter_append,
        single term (by simp), kept term (by simp),
        ih (fun term member => solid term (.tail _ member))
          (fun term member => kept term (.tail _ member))
          (fun term member => single term (.tail _ member))]
      rfl

theorem matches_iff {query : Text} {tokens : List Token} : Matches (tokenizeQuery nfkc query) tokens ↔
    ∀ wanted ∈ tokenize nfkc query, ∃ token ∈ tokens, Hits wanted.term token.text := by
  have terms : queryTerms (tokenizeQuery nfkc query) = (tokenize nfkc query).map Token.term :=
    queryTerms_intercalate fun term member => by
      obtain ⟨token, inside, rfl⟩ := List.mem_map.mp member
      exact (term_of_token inside).solid
  rw [Matches, terms, List.forall_mem_map]

@[simp]
theorem hits_star (word : Text) {text : Text} : Hits (word ++ ['*']) text ↔ word <+: text := by
  simp [Hits]

theorem hits_self {word : Text} : Hits word word := by
  unfold Hits
  split
  · exact List.dropLast_prefix word
  · rfl

/-- A text of one type of character is cut as a whole. -/
theorem mem_tokenize_alike {sub : Text} (normal : nfkc sub = sub) (filled : sub ≠ [])
    (alike : ∀ c ∈ sub, getCharType c = k) : token ∈ tokenize nfkc sub ↔ token ∈ processToken sub k 0 := by
  rw [mem_tokenize, normal]
  constructor
  · rintro ⟨before, run, after, type, stretch, member⟩
    obtain ⟨rfl, rfl, rfl, rfl⟩ := Stretch.eq_of_alike alike stretch
    exact member
  · exact fun member => ⟨[], sub, [], k, Stretch.of_alike filled alike, member⟩

section

variable {doc sub : Text}

theorem nGram_of_piece {before after word : Text} (stretch : Run (nfkc doc) before run after .other)
    (piece : Piece run word) : ∃ token ∈ tokenize nfkc doc, token.text = word := by
  obtain ⟨place, member⟩ := exists_nGram before.length piece
  exact ⟨_, mem_tokenize.mpr ⟨before, run, after, .other, stretch, member⟩, rfl⟩

theorem begins_iff (foreign : getCharType c = .other) :
    (∃ token ∈ tokenize nfkc doc, [c] <+: token.text) ↔ Findable (nfkc doc) [c] := by
  constructor
  · rintro ⟨token, member, begins⟩ d same -
    cases same
    have inside : c ∈ token.text := begins.subset (List.mem_singleton_self c)
    obtain ⟨before, run, after, k, stretch, made⟩ := mem_tokenize.mp member
    obtain ⟨-, numeric | alphabetic | pieces⟩ := mem_processToken made
    · obtain ⟨rfl, rfl⟩ := numeric
      cases foreign.symm.trans (stretch.alike c inside)
    · obtain ⟨rfl, rfl⟩ := alphabetic
      obtain ⟨d, from_run, rfl⟩ := List.mem_map.mp inside
      have lower := isLower_toLower (alphabetic_iff.mp (stretch.alike d from_run))
      cases foreign.symm.trans (alphabetic_iff.mpr (isAlpha_iff.mpr (.inr lower)))
    · obtain ⟨rfl, word, place, rfl, ⟨one, rfl⟩ | bigram⟩ := pieces
      · obtain ⟨d, rfl⟩ := List.length_eq_one_iff.mp one
        cases List.mem_singleton.mp inside
        exact .inl ⟨before, after, stretch⟩
      · obtain ⟨a, b, rfl, within⟩ := mem_bigrams.mp bigram
        obtain ⟨rfl, -⟩ := List.cons_prefix_cons.mp begins
        exact .inr ⟨b, stretch.alike b (within.subset (by simp)), within.trans stretch.run_infix⟩
  · intro findable
    rcases findable c rfl foreign with ⟨before, after, alone⟩ | ⟨d, follows, inside⟩
    · obtain ⟨token, member, same⟩ := nGram_of_piece alone (.inl ⟨rfl, rfl⟩)
      exact ⟨token, member, same ▸ List.prefix_refl _⟩
    · have both : ∀ a ∈ [c, d], getCharType a = .other := by simp [foreign, follows]
      obtain ⟨before, run, after, stretch, within⟩ := Stretch.of_infix inside (by simp) both
      obtain ⟨token, member, same⟩ := nGram_of_piece stretch (.inr (mem_bigrams.mpr ⟨c, d, rfl, within⟩))
      exact ⟨token, member, same ▸ ⟨[d], rfl⟩⟩

theorem found_iff_findable (nfkc : Text → Text) (closed : Closed nfkc) (doc sub : Text) (sought : Sought (nfkc doc) sub) :
    Matches (tokenizeQuery nfkc sub) (tokenize nfkc doc) ↔ Findable (nfkc doc) sub := by
  obtain ⟨filled, ⟨before, run, after, stretch, inside⟩ | ⟨before, run, after, stretch, front⟩ |
    ⟨before, after, stretch⟩⟩ := sought
  · have normal := closed doc sub (inside.trans stretch.run_infix)
    have alike : ∀ c ∈ sub, getCharType c = .other := fun c member => stretch.alike c (inside.subset member)
    rw [matches_iff]
    simp only [mem_tokenize_alike normal filled alike]
    by_cases one : sub.length = 1
    · obtain ⟨c, rfl⟩ := List.length_eq_one_iff.mp one
      rw [← begins_iff (alike c (by simp))]
      have term : ∀ word : Text, Hits [c, '*'] word ↔ [c] <+: word := fun word => hits_star [c]
      simp [processToken, Token.term, term]
    · refine ⟨fun _ c same => absurd (congrArg List.length same) one, fun _ wanted member => ?_⟩
      obtain ⟨-, ⟨type, -⟩ | ⟨type, -⟩ | ⟨-, word, place, rfl, piece⟩⟩ := mem_processToken member
      · cases type
      · cases type
      obtain ⟨a, b, rfl, within⟩ := mem_bigrams.mp (piece.resolve_left fun single => one single.1)
      obtain ⟨token, found, same⟩ :=
        nGram_of_piece stretch (.inr (mem_bigrams.mpr ⟨a, b, rfl, within.trans inside⟩))
      exact ⟨token, found, (hits_star _).mpr (same ▸ List.prefix_refl _)⟩
  · have normal := closed doc sub (front.isInfix.trans stretch.run_infix)
    have alike : ∀ c ∈ sub, getCharType c = .alphabetic := fun c member => stretch.alike c (front.subset member)
    rw [matches_iff]
    simp only [mem_tokenize_alike normal filled alike]
    refine ⟨fun _ c same foreign => ?_, fun _ wanted member => ?_⟩
    · cases foreign.symm.trans (alike c (by simp [same]))
    · obtain ⟨-, ⟨type, -⟩ | ⟨-, rfl⟩ | ⟨type, -⟩⟩ := mem_processToken member
      · cases type
      · refine ⟨.alphabetic (Text.toAsciiLowercase run) before.length,
          mem_tokenize.mpr ⟨before, run, after, .alphabetic, stretch, ?_⟩, (hits_star _).mpr (front.map _)⟩
        simp [processToken, stretch.some]
      · cases type
  · have normal := closed doc sub stretch.run_infix
    rw [matches_iff]
    simp only [mem_tokenize_alike normal filled stretch.alike]
    refine ⟨fun _ c same foreign => ?_, fun _ wanted member => ?_⟩
    · cases foreign.symm.trans (stretch.alike c (by simp [same]))
    · obtain ⟨-, ⟨-, rfl⟩ | ⟨type, -⟩ | ⟨type, -⟩⟩ := mem_processToken member
      · refine ⟨.numeric sub before.length, mem_tokenize.mpr ⟨before, sub, after, .numeric, stretch, ?_⟩, ?_⟩
        · simp [processToken, filled]
        · exact hits_self
      · cases type
      · cases type

end

/-- "国" is the end of "中国", and the beginning of "国人". -/
theorem found_in_the_middle : Matches (tokenizeQuery id "国".toList) (tokenize id "中国人".toList) :=
  (found_iff_findable id (fun _ _ _ => rfl) "中国人".toList "国".toList
    ⟨by decide, .inl ⟨[], "中国人".toList, [], Stretch.of_alike (by decide) (by decide), by decide⟩⟩).mpr
    fun c same _ => .inr ⟨'人', by decide, by cases same; decide⟩

/-- The last character of "中国" does not find it. -/
theorem last_character_not_found : ¬ ∀ (nfkc : Text → Text), Closed nfkc → ∀ doc sub, Sought (nfkc doc) sub →
    Matches (tokenizeQuery nfkc sub) (tokenize nfkc doc) := by
  intro claim
  have found := claim id (fun _ _ _ => rfl) "中国".toList "国".toList
    ⟨by decide, .inl ⟨[], "中国".toList, [], Stretch.of_alike (by decide) (by decide), by decide⟩⟩
  exact absurd found (by decide)

end Qcm.FtsQueryProofs
