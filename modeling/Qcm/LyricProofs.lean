import Qcm.Lyrics

/-!
Lyrics are timely exactly when every line has one timestamp and the document has
them in order.

The parser is followed to the end of the document (`parse_eq`); the model shows
what its last reset and its last position make of it (`run_current`); and on rows
in order the search finds the last row that is not ahead (`isLast_of_ordered`).
-/

namespace Qcm.LyricProofs

open Lib Lib.Nom LyricParser Lyrics

variable {decimals : Decimals} {input rest : Text} {tags : List LrcTag} {content : Content}
  {lines : List (Text × List Int)} {rows : List LyricItem} {position index : Int} {α : Type}

/-! ## The parser -/

private theorem leaves_orFail {error : Error} {value : Option α} : Leaves (orFail error value) := by
  cases value with
  | none => exact leaves_fails error
  | some value => exact leaves_pure value

private theorem leaves_orPanic {value : Option α} : Leaves (orPanic value) := by
  cases value with
  | none => exact leaves_panics
  | some value => exact leaves_pure value

private theorem leaves_numStr : Leaves numStr :=
  leaves_space0.delimited advances_taken1.leaves leaves_space0

theorem leaves_parseTimestamp : Leaves (parseTimestamp decimals) := by
  have stamp : Leaves (separatedPair numStr (tag [':']) (separatedPair numStr (isA [':', '.']) numStr)) :=
    leaves_numStr.separatedPair leaves_tag (leaves_numStr.separatedPair advances_taken1.leaves leaves_numStr)
  refine stamp.bind fun _ => ?_
  iterate 4 refine leaves_orFail.bind fun _ => ?_
  iterate 4 refine leaves_orPanic.bind fun _ => ?_
  exact leaves_get.bind fun _ => leaves_orFail

theorem advances_parseTimeTag : Advances (parseTimeTag decimals) := by
  have stamp : Advances (parseTimeTagTimestamp decimals) :=
    (advances_tag (List.cons_ne_nil _ _)).delimited leaves_parseTimestamp leaves_tag
  exact stamp.many1.bind fun _ => leaves_space0.bind fun _ => leaves_notLineEnding.bind fun _ => leaves_pure _

theorem advances_parseIdTag : Advances parseIdTag := by
  have field : Leaves (separatedPair (delimited space0 alpha1 space0) (tag [':'])
      (delimited space0 (isNot [']']) space0) : Parser Error (Text × Text)) :=
    (leaves_space0.delimited advances_taken1.leaves leaves_space0).separatedPair leaves_tag
      (leaves_space0.delimited advances_taken1.leaves leaves_space0)
  refine ((advances_tag (List.cons_ne_nil _ _)).delimited field leaves_tag).bind fun _ => ?_
  iterate 6 refine .ite (leaves_pure _) ?_
  refine .ite (leaves_orFail.bind fun _ => leaves_pure _) ?_
  iterate 3 refine .ite (leaves_pure _) ?_
  exact leaves_pure _

theorem advances_parseTag : Advances (parseTag decimals) :=
  leaves_space0.advances_bind fun _ => advances_parseTimeTag.alt advances_parseIdTag

theorem parseContent_shortens (more : input ≠ []) (done : parseContent decimals input = .ok (content, rest)) :
    rest.length < input.length := by
  obtain ⟨content, middle, read, later⟩ := run_bind.mp done
  obtain ⟨ending, left, ended, last⟩ := run_bind.mp later
  obtain ⟨-, rfl⟩ := run_pure.mp last
  have shorter := (advances_lineEnding.leaves.opt _ _ _ ended).length_le
  rw [alt] at read
  split at read
  · obtain ⟨line, after, unread, same⟩ := run_bind.mp read
    obtain ⟨-, rfl⟩ := run_pure.mp same
    obtain ⟨whole, none | ⟨newline, beyond, broken⟩⟩ := notLineEnding_ok unread
    · rw [none] at shorter
      exact Nat.lt_of_le_of_lt shorter (List.length_pos_iff.mpr more)
    · rw [opt, broken] at ended
      cases ended
      rw [← whole, List.length_append]
      exact Nat.lt_add_left _ (advances_lineEnding _ _ _ broken).2
  · obtain ⟨tag, after, tagged, same⟩ := run_bind.mp read
    obtain ⟨-, rfl⟩ := run_pure.mp same
    exact Nat.lt_of_le_of_lt shorter (advances_parseTag _ _ _ tagged).2

theorem parseFrom_fuel {fuel more : Nat} :
    input.length ≤ fuel → input.length ≤ more → parseFrom decimals fuel input = parseFrom decimals more input := by
  induction fuel generalizing input more with
  | zero =>
    intro none _
    rw [List.length_eq_zero_iff.mp (Nat.le_zero.mp none)]
    cases more <;> rfl
  | succ fuel ih =>
    intro enough also
    obtain _ | more := more
    · rw [List.length_eq_zero_iff.mp (Nat.le_zero.mp also)]
      rfl
    rw [parseFrom, parseFrom]
    split_ifs with none
    · rfl
    cases read : parseContent decimals input with
    | error fault => rfl
    | ok result =>
      have shorter := parseContent_shortens none read
      have same := ih (show result.2.length ≤ fuel by omega) (show result.2.length ≤ more by omega)
      simp only [bind, Except.bind, same]

theorem parse_eq :
    parse decimals input = if input = [] then .ok [] else do
      let (content, rest) ← parseContent decimals input
      let tags ← parse decimals rest
      match content with
      | .tag tag => return tag :: tags
      | .unkown _ => return tags := by
  have enough : parseFrom decimals input.length input = parseFrom decimals (input.length + 1) input :=
    parseFrom_fuel le_rfl (Nat.le_succ input.length)
  rw [parse, enough, parseFrom]
  split_ifs with none
  · rfl
  cases read : parseContent decimals input with
  | error fault => rfl
  | ok result =>
    have shorter := parseContent_shortens none read
    have same : parseFrom decimals input.length result.2 = parseFrom decimals result.2.length result.2 :=
      parseFrom_fuel (Nat.le_of_lt shorter) le_rfl
    change (parseFrom decimals input.length result.2 >>= _) = (parse decimals result.2 >>= _)
    rw [same]
    rfl

theorem parse_induction {motive : Text → List LrcTag → Prop} (done : parse decimals input = .ok tags)
    (base : motive [] [])
    (tag : ∀ input tag rest tags, parseContent decimals input = .ok (.tag tag, rest) →
      parse decimals rest = .ok tags → motive rest tags → motive input (tag :: tags))
    (unkown : ∀ input line rest tags, parseContent decimals input = .ok (.unkown line, rest) →
      parse decimals rest = .ok tags → motive rest tags → motive input tags) : motive input tags := by
  induction size : input.length using Nat.strong_induction_on generalizing input tags with
  | h size ih =>
    subst size
    rw [parse_eq] at done
    split_ifs at done with none
    · cases done
      exact none ▸ base
    · obtain ⟨⟨content, rest⟩, read, later⟩ := bind_ok.mp done
      obtain ⟨tags, parsed, last⟩ := bind_ok.mp later
      have held := ih _ (parseContent_shortens none read) parsed rfl
      cases content with
      | tag given =>
        cases last
        exact tag _ _ _ _ read parsed held
      | unkown line =>
        cases last
        exact unkown _ _ _ _ read parsed held

theorem parseContent_tag {tag : LrcTag} (done : parseContent decimals input = .ok (.tag tag, rest)) :
    ∃ middle, parseTag decimals input = .ok (tag, middle) := by
  obtain ⟨content, middle, read, later⟩ := run_bind.mp done
  obtain ⟨_, _, _, last⟩ := run_bind.mp later
  obtain ⟨rfl, -⟩ := run_pure.mp last
  rw [alt] at read
  split at read
  · obtain ⟨_, _, _, same⟩ := run_bind.mp read
    cases (run_pure.mp same).1
  · obtain ⟨given, after, tagged, same⟩ := run_bind.mp read
    obtain ⟨same, -⟩ := run_pure.mp same
    exact ⟨after, Content.tag.inj same ▸ tagged⟩

theorem parseIdTag_id {tag : LrcTag} (done : parseIdTag input = .ok (tag, rest)) : ∃ metadata, tag = .id metadata := by
  obtain ⟨⟨id, value⟩, middle, -, later⟩ := run_bind.mp done
  have known {metadata : LrcMetadata} {middle : Text}
      (last : (pure (.id metadata) : Parser Error LrcTag) middle = .ok (tag, rest)) : ∃ metadata, tag = .id metadata :=
    ⟨metadata, (run_pure.mp last).1.symm⟩
  iterate 6 refine (run_ite later).elim known fun later => ?_
  obtain later | later := run_ite later
  · obtain ⟨offset, _, _, last⟩ := run_bind.mp later
    exact known last
  · iterate 3 refine (run_ite later).elim known fun later => ?_
    exact known later

theorem parseTag_timestamps {text : Text} {timestamps : List Int}
    (done : parseTag decimals input = .ok (.time text timestamps, rest)) : timestamps ≠ [] := by
  obtain ⟨_, middle, -, tagged⟩ := run_bind.mp done
  rw [alt] at tagged
  split at tagged
  · obtain ⟨metadata, other⟩ := parseIdTag_id tagged
    cases other
  · obtain ⟨stamps, _, many, later⟩ := run_bind.mp tagged
    obtain ⟨_, _, _, later⟩ := run_bind.mp later
    obtain ⟨_, _, _, last⟩ := run_bind.mp later
    obtain ⟨same, -⟩ := run_pure.mp last
    exact (LrcTag.time.inj same).2 ▸ many1_some many

theorem parse_timestamps (done : parse decimals input = .ok tags) :
    ∀ text timestamps, .time text timestamps ∈ tags → timestamps ≠ [] := by
  refine parse_induction (motive := fun _ tags => ∀ text timestamps, .time text timestamps ∈ tags → timestamps ≠ [])
    done nofun ?_ ?_
  · intro input tag rest tags read _ held text timestamps member
    obtain rfl | later := List.mem_cons.mp member
    · obtain ⟨middle, tagged⟩ := parseContent_tag read
      exact parseTag_timestamps tagged
    · exact held text timestamps later
  · exact fun _ _ _ _ _ _ => id

/-- The lines of a document with a time and a text, with their timestamps. -/
def timedLines (tags : List LrcTag) : List (Text × List Int) :=
  tags.filterMap fun
    | .time text timestamps => if text = [] then none else some (text, timestamps)
    | .id _ => none

/-- Every line once for each of its timestamps. -/
def everyLine (lines : List (Text × List Int)) : List LyricItem :=
  lines.flatMap fun line => line.2.map fun time => ⟨time, line.1⟩

/-- The row of a line: its first timestamp only. -/
def firstRow (line : Text × List Int) : Option LyricItem := line.2.head?.map fun time => ⟨time, line.1⟩

theorem lyricRows_ok (done : parse decimals input = .ok tags) :
    lyricRows decimals input = .ok ((timedLines tags).filterMap firstRow) := by
  have rows : (tags.filterMap subtitleItem).map (fun item => lyricItem (message item)) =
      (timedLines tags).filterMap firstRow := by
    rw [timedLines, List.filterMap_filterMap, List.map_filterMap]
    refine congrArg (List.filterMap · tags) (funext fun tag => ?_)
    cases tag with
    | id metadata => rfl
    | time text timestamps =>
      cases timestamps with
      | nil | cons first others =>
        simp only [subtitleItem]
        split_ifs <;> rfl
  simp only [lyricRows, fromLrc, done, bind, Except.bind, pure, Except.pure, rows]

theorem timedLines_timestamps (done : parse decimals input = .ok tags) :
    ∀ line ∈ timedLines tags, line.2 ≠ [] := by
  rintro ⟨text, timestamps⟩ member
  obtain ⟨tag, there, same⟩ := List.mem_filterMap.mp member
  cases tag with
  | id metadata => cases same
  | time given times =>
    simp only at same
    split_ifs at same
    cases same
    exact parse_timestamps done text timestamps there

/-- There are as many rows as there should be only where every line has one
timestamp. -/
theorem rows_whole_iff (some : ∀ line ∈ lines, line.2 ≠ []) :
    (lines.filterMap firstRow).length ≤ (everyLine lines).length ∧
      ((everyLine lines).length = (lines.filterMap firstRow).length →
        ∀ line ∈ lines, line.2.length = 1) := by
  induction lines with
  | nil => exact ⟨le_rfl, fun _ => nofun⟩
  | cons line lines ih =>
    obtain ⟨here, others⟩ := List.forall_mem_cons.mp some
    obtain ⟨bounded, single⟩ := ih others
    obtain ⟨text, timestamps⟩ := line
    obtain _ | ⟨time, more⟩ := timestamps
    · exact absurd rfl here
    have rows : ((text, time :: more) :: lines).filterMap firstRow = ⟨time, text⟩ :: lines.filterMap firstRow := rfl
    have every : (everyLine ((text, time :: more) :: lines)).length = more.length + 1 + (everyLine lines).length := by
      rw [everyLine, List.flatMap_cons, List.length_append, List.length_map, List.length_cons, everyLine]
    rw [rows, every, List.length_cons]
    refine ⟨by omega, fun same => List.forall_mem_cons.mpr ⟨?_, single (by omega)⟩⟩
    simp only [List.length_cons]
    omega

theorem rows_of_single (single : ∀ line ∈ lines, line.2.length = 1) : lines.filterMap firstRow = everyLine lines := by
  induction lines with
  | nil => rfl
  | cons line lines ih =>
    obtain ⟨here, others⟩ := List.forall_mem_cons.mp single
    obtain ⟨text, timestamps⟩ := line
    obtain ⟨time, rfl⟩ := List.length_eq_one_iff.mp here
    exact congrArg (_ :: ·) (ih others)

theorem everyLine_times : (everyLine lines).map LyricItem.milliseconds = lines.flatMap Prod.snd := by
  rw [everyLine, List.map_flatMap]
  refine congrArg (lines.flatMap ·) (funext fun line => ?_)
  rw [List.map_map]
  exact List.map_id _

/-- The last row whose time has come, or none. -/
def IsLast (rows : List LyricItem) (position index : Int) : Prop :=
  (index = -1 ∨ ∃ row, 0 ≤ index ∧ rows[index.toNat]? = some row ∧ row.milliseconds ≤ position) ∧
    ∀ (later : Nat) row, index < later → rows[later]? = some row → position < row.milliseconds

theorem run_current (events : List Event) : (run events).refreshIndex = run events := by
  induction events using List.reverseRecOn with
  | nil => rfl
  | append_singleton events event ih =>
    rw [run, List.foldl_append, List.foldl_cons, List.foldl_nil, ← run]
    cases event with
    | reset items => rfl
    | position position =>
      rw [step, LyricModel.setPosition]
      split_ifs
      · exact ih
      · rfl

theorem isLast_of_ordered {model : LyricModel} (ordered : model.items.Pairwise fun one other =>
    one.milliseconds ≤ other.milliseconds) (started : 0 ≤ model.position) :
    IsLast model.items model.position model.refreshIndex.currentIndex := by
  have parts : model.items.Pairwise fun one other => decide (model.position < one.milliseconds) = true →
      decide (model.position < other.milliseconds) = true :=
    ordered.imp fun before => by simpa using fun above => Int.lt_of_lt_of_le above before
  obtain ⟨inside, parted⟩ := upperBound_parts parts
  simp only [LyricModel.refreshIndex, Int.max_eq_left started]
  generalize upperBound (fun item => decide (model.position < item.milliseconds)) model.items = place at inside parted
  refine ⟨?_, fun later row behind held => ?_⟩
  · obtain _ | place := place
    · exact .inl rfl
    · right
      have there : place < model.items.length := inside
      have held := List.getElem?_eq_getElem there
      have side := mt (parted place _ held).mp (Nat.not_succ_le_self _)
      have same : ((place + 1 : Nat) : Int) - 1 = place := by omega
      rw [same]
      refine ⟨_, Int.natCast_nonneg _, held, ?_⟩
      simpa using side
  · exact of_decide_eq_true ((parted later row held).mpr (by omega))

/-- The rows of a document, as they should be. -/
structure Timely (lines : List (Text × List Int)) (rows : List LyricItem) : Prop where
  whole : rows.Perm (everyLine lines)
  ordered : rows.Pairwise fun one other => one.milliseconds ≤ other.milliseconds
  /-- Whatever happened before, while the rows are shown. -/
  highlight (events : List Event) (shown : (run events).items = rows) (started : 0 ≤ (run events).position) :
    IsLast rows (run events).position (run events).currentIndex

/-- The lyrics of a document are timely if and only if every line with a text has
one timestamp, and the timestamps are in order. -/
theorem timely_iff (accepted : parse decimals input = .ok tags) :
    (∃ rows, lyricRows decimals input = .ok rows ∧ Timely (timedLines tags) rows) ↔
      (∀ line ∈ timedLines tags, line.2.length = 1) ∧ ((timedLines tags).flatMap Prod.snd).Pairwise (· ≤ ·) := by
  rw [← everyLine_times, List.pairwise_map]
  constructor
  · rintro ⟨rows, made, timely⟩
    cases (lyricRows_ok accepted).symm.trans made
    have single := (rows_whole_iff (timedLines_timestamps accepted)).2 timely.whole.length_eq.symm
    rw [← rows_of_single single]
    exact ⟨single, timely.ordered⟩
  · rintro ⟨single, ordered⟩
    refine ⟨everyLine (timedLines tags), rows_of_single single ▸ lyricRows_ok accepted, .refl _, ordered, ?_⟩
    intro events shown started
    rw [← run_current, ← shown]
    exact isLast_of_ordered (shown ▸ ordered) started

/-- Decimals as digits and a scale, which are those of the crate while they fit. -/
def scaled : Decimals where
  Decimal := Nat × Nat
  fromStrExact digits := some (Text.digitsValue digits, 0)
  setScale value scale := if scale ≤ 28 then some (value.1, scale) else none
  dec value := (value, 0)
  mul one other := some (one.1 * other.1, one.2 + other.2)
  add one other := some (one.1 * 10 ^ (other.2 - one.2) + other.1 * 10 ^ (one.2 - other.2), max one.2 other.2)
  trunc value := (value.1 / 10 ^ value.2, 0)
  toI64 value := some (value.1 / 10 ^ value.2 : Nat)

/-- Two lines in order. -/
theorem ordered_timely :
    ∃ rows, lyricRows scaled "[00:01.00]a\n[00:02.00]b".toList = .ok rows ∧
      Timely [(['a'], [1000]), (['b'], [2000])] rows := by
  have accepted : parse scaled "[00:01.00]a\n[00:02.00]b".toList = .ok [.time ['a'] [1000], .time ['b'] [2000]] := by
    decide
  exact (timely_iff accepted).mpr (by decide)

/-- Two lines out of order, and a line of two timestamps: neither is timely. -/
theorem disordered_untimely :
    (∃ rows tags, lyricRows scaled "[00:02.00]b\n[00:01.00]a".toList = .ok rows ∧
      parse scaled "[00:02.00]b\n[00:01.00]a".toList = .ok tags ∧ ¬ Timely (timedLines tags) rows) ∧
    ∃ rows tags, lyricRows scaled "[00:01.00][00:02.00]a".toList = .ok rows ∧
      parse scaled "[00:01.00][00:02.00]a".toList = .ok tags ∧ ¬ Timely (timedLines tags) rows := by
  refine ⟨⟨[⟨2000, ['b']⟩, ⟨1000, ['a']⟩], _, rfl, rfl, ?_⟩, [⟨1000, ['a']⟩], _, rfl, rfl, ?_⟩
  · intro timely
    exact absurd timely.ordered (by decide)
  · intro timely
    exact absurd timely.whole.length_eq (by decide)

end Qcm.LyricProofs
