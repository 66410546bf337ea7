import Qcm.FtsTokenizer
import Qcm.Lib.Stretches

/-!
The tokens of a text are those of its stretches of one type of character.  From
this, what a query may look like, and which parts of a document a query finds.
-/

namespace Qcm.FtsTokenizerProofs

open Lib FtsTokenizer

/-- A stretch of characters of one type. -/
abbrev Run := Stretch getCharType

/-- The token comes from a stretch of the text. -/
def Given (text : Text) (token : Token) : Prop :=
  ∃ before run after k, Run text before run after k ∧ token ∈ processToken run k before.length

/-- It comes from one that something stands behind. -/
def Ended (text : Text) (token : Token) : Prop :=
  ∃ before run after k, after ≠ [] ∧ Run text before run after k ∧ token ∈ processToken run k before.length

variable {text before run after : Text} {k : CharType} {c : Char} {token : Token} {s : Scan} {nfkc : Text → Text}

theorem ended_append : Ended (text ++ [c]) token ↔ Ended text token ∨
    ∃ before run k, Run text before run [] k ∧ getCharType c ≠ k ∧ token ∈ processToken run k before.length := by
  constructor
  · rintro ⟨before, run, after, k, ended, stretch, member⟩
    obtain ⟨later, last, rfl⟩ := (List.eq_nil_or_concat' after).resolve_left ended
    have same : last = c := by
      have ends := congrArg List.getLast? stretch.split
      simpa using ends.symm
    subst same
    by_cases more : later = []
    · subst more
      obtain ⟨stretch, other⟩ := Stretch.ended_iff.mp stretch
      exact .inr ⟨before, run, k, stretch, other, member⟩
    · exact .inl ⟨before, run, later, k, more, (Stretch.append_iff more).mp stretch, member⟩
  · rintro (⟨before, run, after, k, ended, stretch, member⟩ | ⟨before, run, k, stretch, other, member⟩)
    · exact ⟨before, run, after ++ [c], k, by simp, (Stretch.append_iff ended).mpr stretch, member⟩
    · exact ⟨before, run, [c], k, by simp, Stretch.ended_iff.mpr ⟨stretch, other⟩, member⟩

theorem given_iff : Given text token ↔ Ended text token ∨
    ∃ before run k, Run text before run [] k ∧ token ∈ processToken run k before.length := by
  constructor
  · rintro ⟨before, run, after, k, stretch, member⟩
    cases after with
    | nil => exact .inr ⟨before, run, k, stretch, member⟩
    | cons c rest => exact .inl ⟨before, run, c :: rest, k, by simp, stretch, member⟩
  · rintro (⟨before, run, after, k, -, stretch, member⟩ | ⟨before, run, k, stretch, member⟩)
    · exact ⟨before, run, after, k, stretch, member⟩
    · exact ⟨before, run, [], k, stretch, member⟩

/-- Nothing is read yet, or a separator last. -/
def Idle (text : Text) : Prop := ∀ c, text.getLast? = some c → getCharType c = .separator

/-- What the scan has read, in its fields. -/
structure Reads (text : Text) (s : Scan) : Prop where
  pos : s.pos = text.length
  result : ∀ token, token ∈ s.result ↔ Ended text token
  current : (s.currentToken = [] ∧ s.currentType = .separator ∧ Idle text) ∨
    (s.currentType ≠ .separator ∧ ∃ before, Run text before s.currentToken [] s.currentType ∧
      s.currentStart = before.length)

theorem Idle.separator (idle : Idle text) (stretch : Run text before run [] k) : k = .separator := by
  obtain ⟨c, last, same⟩ := stretch.last
  exact same.symm.trans (idle c last)

theorem processToken_separator {start : Nat} : processToken run .separator start = [] := by
  unfold processToken
  split <;> rfl

theorem reads_start : Reads [] .start where
  pos := rfl
  result token := by
    simp only [Scan.start, List.not_mem_nil, false_iff]
    rintro ⟨before, run, after, k, -, stretch, -⟩
    exact Stretch.not_mem_nil stretch
  current := .inl ⟨rfl, rfl, by simp [Idle]⟩

theorem idle_append (separator : getCharType c = .separator) : Idle (text ++ [c]) := by
  intro d last
  rw [List.getLast?_concat, Option.some.injEq] at last
  exact last ▸ separator

/-! One character, by what stands before it. -/

theorem next_idle (none : s.currentToken = []) : s.next c = if getCharType c = .separator then
    { s with currentType := getCharType c, pos := s.pos + 1 }
    else { s with currentToken := [c], currentType := getCharType c, currentStart := s.pos, pos := s.pos + 1 } := by
  unfold Scan.next
  split_ifs with separator <;> simp [none, separator]

theorem next_same (some : s.currentToken ≠ []) (solid : s.currentType ≠ .separator)
    (same : getCharType c = s.currentType) :
    s.next c = { s with currentToken := s.currentToken ++ [c], pos := s.pos + 1 } := by
  unfold Scan.next
  simp [some, solid, same]

theorem next_other (some : s.currentToken ≠ []) (other : getCharType c ≠ s.currentType) :
    s.next c = Scan.next { s with result := s.flush, currentToken := [], currentStart := s.pos } c := by
  unfold Scan.next
  simp [some, other]

theorem reads_idle (pos : s.pos = text.length) (none : s.currentToken = [])
    (result : ∀ token, token ∈ s.result ↔ Ended (text ++ [c]) token)
    (other : ∀ d, text.getLast? = some d → getCharType c ≠ .separator → getCharType d ≠ getCharType c) :
    Reads (text ++ [c]) (s.next c) := by
  rw [next_idle none]
  split_ifs with separator
  · exact ⟨by simp [pos], result, .inl ⟨none, separator, idle_append separator⟩⟩
  · refine ⟨by simp [pos], result, .inr ⟨separator, text, ?_, pos⟩⟩
    exact Stretch.begin fun d last => other d last separator

theorem reads_next (reads : Reads text s) : Reads (text ++ [c]) (s.next c) := by
  obtain ⟨pos, result, ⟨none, type, idle⟩ | ⟨solid, before, stretch, start⟩⟩ := reads
  · refine reads_idle pos none (fun token => ?_) fun d last separator same => ?_
    · rw [ended_append, result]
      refine ⟨.inl, fun either => either.resolve_right ?_⟩
      rintro ⟨before, run, k, stretch, -, member⟩
      rw [idle.separator stretch, processToken_separator] at member
      cases member
    · exact separator (same.symm.trans (idle d last))
  · by_cases same : getCharType c = s.currentType
    · rw [next_same stretch.some solid same]
      refine ⟨by simp [pos], fun token => ?_, .inr ⟨solid, before, stretch.extend same, start⟩⟩
      rw [ended_append, ← result]
      refine ⟨.inl, fun either => either.resolve_right ?_⟩
      rintro ⟨otherBefore, otherRun, k, another, other, -⟩
      exact other (same.trans (stretch.last_unique another).2.2)
    · rw [next_other stretch.some same]
      refine reads_idle pos rfl (fun token => ?_) fun d last _ alike => ?_
      · rw [ended_append, ← result, Scan.flush, List.mem_append, start]
        refine or_congr_right ⟨fun member => ⟨before, _, _, stretch, same, member⟩, ?_⟩
        rintro ⟨otherBefore, otherRun, k, another, -, member⟩
        obtain ⟨rfl, rfl, rfl⟩ := stretch.last_unique another
        exact member
      · obtain ⟨e, last_e, type⟩ := stretch.last
        cases last.symm.trans last_e
        exact same (alike.symm.trans type)

theorem reads_foldl {done : Text} (reads : Reads done s) : Reads (done ++ text) (text.foldl Scan.next s) := by
  induction text generalizing done s with
  | nil => simpa using reads
  | cons c rest ih => simpa using ih (reads_next (c := c) reads)

/-- The tokens of a text are those of its stretches. -/
theorem mem_tokenize {input : Text} : token ∈ tokenize nfkc input ↔ Given (nfkc input) token := by
  obtain ⟨-, result, current⟩ : Reads (nfkc input) _ := reads_foldl reads_start
  rw [tokenize, given_iff]
  generalize (nfkc input).foldl Scan.next .start = s at result current ⊢
  rcases current with ⟨none, -, idle⟩ | ⟨-, before, stretch, start⟩
  · simp only [none, List.isEmpty_nil, if_true, result]
    refine ⟨.inl, fun either => either.resolve_right ?_⟩
    rintro ⟨before, run, k, stretch, member⟩
    rw [idle.separator stretch, processToken_separator] at member
    cases member
  · simp only [List.isEmpty_iff, stretch.some, if_false, Scan.flush, List.mem_append, result, start]
    refine or_congr_right ⟨fun member => ⟨before, _, _, stretch, member⟩, ?_⟩
    rintro ⟨otherBefore, otherRun, k, another, member⟩
    obtain ⟨rfl, rfl, rfl⟩ := stretch.last_unique another
    exact member

end Qcm.FtsTokenizerProofs
