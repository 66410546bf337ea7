import Qcm.CacheRuns
import Qcm.IndexBytes

/-!
What the dirty ranges of an index say about the `blocks` column.

`Tracks` relates an index to the column: each range is the entry of a block
changed since the last commit, and outside those entries the bytes are those of
the column.  `set` and `remove` add the block they change, a transaction that
does not commit leaves the column as it was, and one that commits writes every
merged range, which is all the column lacks.  For a version in segments the copy
that a write publishes was taken before a deleting segment was removed from the
resident index: that segment has no entry, so the copy still has the bytes of the
column.
-/

namespace Qcm.IndexCommitProofs

open Lib Lib.Act ResourceFormat IndexBytes
open CacheState (Digest Sha256 Failure Chance entryLen maxSlot)
open CacheLoad (segmentBlocks)
open CacheStore (Grouped alterSorted)

variable {geometry : Geometry} {layout : Layout}

variable {bytes data : List UInt8} {start place block other : Nat} {ranges : List (Span Nat)}
  {slot : UInt32} {error : Failure} {entries : List (Nat × List UInt8)} {slots : Option Nat}

theorem length_copyInto (fits : start + data.length ≤ bytes.length) :
    (copyInto bytes start data).length = bytes.length := by
  simp only [copyInto, List.length_append, List.length_take, List.length_drop]
  omega

theorem getElem?_copyInto (fits : start + data.length ≤ bytes.length) :
    (copyInto bytes start data)[place]? =
      if start ≤ place ∧ place < start + data.length then data[place - start]? else bytes[place]? := by
  have front : (bytes.take start).length = start := List.length_take_of_le (by omega)
  by_cases before : place < start
  · rw [copyInto, List.getElem?_append_left (by omega), List.getElem?_take_of_lt before, if_neg (by omega)]
  · rw [copyInto, List.getElem?_append_right (by omega), front]
    by_cases inside : place < start + data.length
    · rw [List.getElem?_append_left (by omega), if_pos (by omega)]
    · rw [List.getElem?_append_right (by omega), List.getElem?_drop, if_neg (by omega)]
      congr 1
      omega

theorem copyInto_nil (bytes : List UInt8) (start : Nat) : copyInto bytes start [] = bytes := by
  simp [copyInto, List.take_append_drop]

theorem copyInto_copyInto {first second : List UInt8}
    (fits : start + (first.length + second.length) ≤ bytes.length) :
    copyInto (copyInto bytes start first) (start + first.length) second = copyInto bytes start (first ++ second) := by
  have both : start + (first ++ second).length ≤ bytes.length := by rw [List.length_append]; exact fits
  have one : start + first.length ≤ bytes.length := by omega
  have two : start + first.length + second.length ≤ (copyInto bytes start first).length := by
    rw [length_copyInto one]
    omega
  apply List.ext_getElem?
  intro place
  rw [getElem?_copyInto two, getElem?_copyInto one, getElem?_copyInto both, List.length_append]
  by_cases later : start + first.length ≤ place ∧ place < start + first.length + second.length
  · rw [if_pos later, if_pos (by omega), List.getElem?_append_right (by omega)]
    congr 1
    omega
  · rw [if_neg later]
    by_cases early : start ≤ place ∧ place < start + first.length
    · rw [if_pos early, if_pos (by omega), List.getElem?_append_left (by omega)]
    · rw [if_neg early, if_neg (by omega)]

theorem length_slice {range : Span Nat} (within : range.stop ≤ bytes.length) :
    (slice bytes range).length = range.stop - range.start := by
  rw [slice, List.length_take, List.length_drop]
  omega

theorem getElem?_slice (bytes : List UInt8) (range : Span Nat) (inside : place < range.stop - range.start) :
    (slice bytes range)[place]? = bytes[range.start + place]? := by
  rw [slice, List.getElem?_take_of_lt inside, List.getElem?_drop]

/-- The column after the ranges were written. -/
def patched (blocks bytes : List UInt8) (ranges : List (Span Nat)) : List UInt8 :=
  ranges.foldl (fun blocks range => copyInto blocks range.start (slice bytes range)) blocks

theorem copy_slice {blocks : List UInt8} {range : Span Nat} (same : blocks.length = bytes.length)
    (within : range.stop ≤ bytes.length) :
    (copyInto blocks range.start (slice bytes range)).length = bytes.length ∧
      ∀ place, (copyInto blocks range.start (slice bytes range))[place]? =
        if range.start ≤ place ∧ place < range.stop then bytes[place]? else blocks[place]? := by
  have size := length_slice within
  by_cases proper : range.start ≤ range.stop
  · have fits : range.start + (slice bytes range).length ≤ blocks.length := by omega
    constructor
    · rw [length_copyInto fits, same]
    · intro place
      rw [getElem?_copyInto fits, size, Nat.add_sub_cancel' proper]
      by_cases inside : range.start ≤ place ∧ place < range.stop
      · rw [if_pos inside, if_pos inside, getElem?_slice bytes range (by omega), Nat.add_sub_cancel' inside.1]
      · rw [if_neg inside, if_neg inside]
  · have none : slice bytes range = [] := List.eq_nil_of_length_eq_zero (by omega)
    rw [none, copyInto_nil]
    constructor
    · exact same
    · intro place
      rw [if_neg (by omega)]

/-- Inside the ranges the column has the bytes of the index, outside them its own. -/
theorem getElem?_patched {blocks : List UInt8} (same : blocks.length = bytes.length)
    (within : ∀ range ∈ ranges, range.stop ≤ bytes.length) :
    (patched blocks bytes ranges).length = bytes.length ∧
      ∀ place, (Span.Covered ranges place → (patched blocks bytes ranges)[place]? = bytes[place]?) ∧
        (¬ Span.Covered ranges place → (patched blocks bytes ranges)[place]? = blocks[place]?) := by
  induction ranges generalizing blocks with
  | nil =>
    refine ⟨same, fun place => ⟨fun covered => ?_, fun _ => rfl⟩⟩
    obtain ⟨range, member, _⟩ := covered
    exact absurd member List.not_mem_nil
  | cons range rest ih =>
    obtain ⟨size, copied⟩ := copy_slice same (within range (.head _))
    obtain ⟨whole, each⟩ := ih size fun range member => within range (.tail _ member)
    refine ⟨whole, fun place => ?_⟩
    obtain ⟨later, kept⟩ := each place
    rw [Span.covered_cons]
    constructor
    · intro covered
      by_cases after : Span.Covered rest place
      · exact later after
      · have here := covered.resolve_right after
        exact (kept after).trans ((copied place).trans (if_pos here))
    · intro apart
      have here : ¬ range.Holds place := fun holds => apart (.inl holds)
      exact (kept fun after => apart (.inr after)).trans ((copied place).trans (if_neg here))

theorem entry_within {count : Nat} (inside : block < count) :
    (entrySpan block).stop ≤ count * entryLen := by
  have := Nat.mul_le_mul_right entryLen (Nat.succ_le_of_lt inside)
  rw [Nat.succ_mul] at this
  exact this

theorem within_of_entry {count : Nat} (fits : (entrySpan block).stop ≤ count * entryLen) : block < count := by
  simp only [entrySpan, entryLen] at fits
  omega

theorem entries_apart (here : (entrySpan block).Holds place) (there : (entrySpan other).Holds place) :
    block = other := by
  simp only [Span.Holds, entrySpan, entryLen] at here there
  omega

theorem get_congr {index other : Index}
    (same : ∀ place, (entrySpan block).Holds place → index.bytes[place]? = other.bytes[place]?) :
    index.get block = other.get block := by
  have equal : slice index.bytes (entrySpan block) = slice other.bytes (entrySpan block) := by
    apply List.ext_getElem?
    intro place
    by_cases inside : place < (entrySpan block).stop - (entrySpan block).start
    · rw [getElem?_slice _ _ inside, getElem?_slice _ _ inside]
      apply same
      simp only [Span.Holds, entrySpan] at inside ⊢
      omega
    · have short (bytes : List UInt8) : (slice bytes (entrySpan block))[place]? = none := by
        rw [List.getElem?_eq_none_iff, slice, List.length_take]
        omega
      rw [short, short]
  simp only [Index.get, equal]

/-! ## What the ranges say -/

/-- The ranges of an index are the entries of the changed blocks, and outside those the
bytes are those of the column. -/
structure Tracks (geometry : Geometry) (index : Index) (changed : List Nat) (blocks : List UInt8) : Prop where
  own : index.geometry = geometry
  sized : index.bytes.length = geometry.count * entryLen
  stored : blocks.length = geometry.count * entryLen
  inside : ∀ block ∈ changed, block < geometry.count
  dirty : ∀ span, span ∈ index.dirty ↔ ∃ block ∈ changed, span = entrySpan block
  rest : ∀ place, (∀ block ∈ changed, ¬ (entrySpan block).Holds place) → index.bytes[place]? = blocks[place]?

variable {index next : Index} {changed : List Nat} {blocks : List UInt8}

theorem Tracks.write (tracks : Tracks geometry index changed blocks) {block : Nat} (data : List UInt8)
    (inside : block < geometry.count) (size : data.length = entryLen) :
    Tracks geometry
      { index with bytes := copyInto index.bytes (block * entryLen) data, dirty := index.dirty ++ [entrySpan block] }
      (block :: changed) blocks where
  own := tracks.own
  sized := by
    have fits := entry_within inside
    rw [length_copyInto (by rw [tracks.sized, size]; exact fits), tracks.sized]
  stored := tracks.stored
  inside other member := by
    rcases List.mem_cons.mp member with rfl | member
    · exact inside
    · exact tracks.inside other member
  dirty span := by
    rw [List.mem_append, List.mem_singleton]
    simp only [tracks.dirty, List.mem_cons, exists_eq_or_imp]
    exact or_comm
  rest place apart := by
    have fits := entry_within inside
    have here := apart block (.head _)
    simp only [Span.Holds, entrySpan] at here
    rw [getElem?_copyInto (by rw [tracks.sized, size]; exact fits), size, if_neg here]
    exact tracks.rest place fun other member => apart other (.tail _ member)

theorem length_toLittleEndian (value : Nat) : (toLittleEndian value).length = 4 := by
  simp [toLittleEndian]

theorem set_ok [Sha256] (done : index.set block slot data = .ok next) :
    block < index.geometry.count ∧ slot.toNat ≠ maxSlot ∧
      (∃ range, index.geometry.range block = some range ∧ data.length = range.length) ∧
      next = { index with
        bytes := copyInto (copyInto index.bytes (block * entryLen) (toLittleEndian (slot.toNat + 1)))
          (block * entryLen + 4) (Sha256.hash data).bytes
        dirty := index.dirty ++ [entrySpan block] } := by
  rw [Index.set] at done
  split at done
  · cases done
  · rename_i range found
    split at done
    · cases done
    · rename_i length
      split at done <;> cases done
      rename_i room
      have inside : block < index.geometry.count := by
        by_contra outside
        rw [Geometry.range, if_neg outside] at found
        cases found
      exact ⟨inside, room, ⟨range, found, not_ne_iff.mp length⟩, rfl⟩

section

variable (tracks : Tracks geometry index changed blocks)
include tracks

theorem Tracks.set [Sha256] (done : index.set block slot data = .ok next) :
    Tracks geometry next (block :: changed) blocks := by
  obtain ⟨inside, _, _, rfl⟩ := set_ok done
  rw [tracks.own] at inside
  have fits := entry_within inside
  have size := length_toLittleEndian (slot.toNat + 1)
  have digest := (Sha256.hash data).length
  have written := tracks.write (toLittleEndian (slot.toNat + 1) ++ (Sha256.hash data).bytes) inside (by
    rw [List.length_append, size, digest]
    rfl)
  rw [← copyInto_copyInto (by rw [size, digest, tracks.sized]; exact fits), size] at written
  exact written

theorem Tracks.remove (inside : block < geometry.count) :
    Tracks geometry (index.remove block) (block :: changed) blocks :=
  tracks.write _ inside List.length_replicate

theorem Tracks.sorted : Tracks geometry index.dirtyRanges.2 changed blocks :=
  { tracks with dirty := fun span => by simp only [Index.dirtyRanges, Span.mem_sorted, tracks.dirty] }

theorem Tracks.isCommitted : index.isCommitted = true ↔ changed = [] := by
  rw [Index.isCommitted, List.isEmpty_iff, List.eq_nil_iff_forall_not_mem, List.eq_nil_iff_forall_not_mem]
  constructor
  · intro none block member
    exact none (entrySpan block) ((tracks.dirty _).mpr ⟨block, member, rfl⟩)
  · intro none span member
    obtain ⟨block, changed, _⟩ := (tracks.dirty span).mp member
    exact none block changed

end

theorem Tracks.same (tracks : Tracks geometry index [] blocks) : index.bytes = blocks := by
  apply List.ext_getElem?
  intro place
  exact tracks.rest place fun block member => absurd member List.not_mem_nil

/-- The merged ranges cover the entries of the changed blocks and nothing else. -/
theorem Tracks.covers (tracks : Tracks geometry index changed blocks) (place : Nat) :
    Span.Covered index.dirtyRanges.1 place ↔ ∃ block ∈ changed, (entrySpan block).Holds place := by
  rw [Index.dirtyRanges, Span.merge_covers (Span.sorted_pairwise _)]
  constructor
  · rintro ⟨span, member, holds⟩
    obtain ⟨block, among, rfl⟩ := (tracks.dirty span).mp (Span.mem_sorted.mp member)
    exact ⟨block, among, holds⟩
  · rintro ⟨block, among, holds⟩
    exact ⟨entrySpan block, Span.mem_sorted.mpr ((tracks.dirty _).mpr ⟨block, among, rfl⟩), holds⟩

theorem Tracks.within (tracks : Tracks geometry index changed blocks) :
    ∀ range ∈ index.dirtyRanges.1, range.stop ≤ index.bytes.length := by
  intro range member
  refine Span.merge_bounded (fun span among => ?_) member
  obtain ⟨block, changed, rfl⟩ := (tracks.dirty span).mp (Span.mem_sorted.mp among)
  rw [tracks.sized]
  exact entry_within (tracks.inside block changed)

/-- Writing the merged ranges makes the column the bytes of the index. -/
theorem Tracks.patched (tracks : Tracks geometry index changed blocks) :
    patched blocks index.bytes index.dirtyRanges.1 = index.bytes := by
  obtain ⟨_, each⟩ := getElem?_patched (tracks.stored.trans tracks.sized.symm) tracks.within
  apply List.ext_getElem?
  intro place
  by_cases covered : Span.Covered index.dirtyRanges.1 place
  · exact (each place).1 covered
  · refine ((each place).2 covered).trans (tracks.rest place fun block member holds => ?_).symm
    exact covered ((tracks.covers place).mpr ⟨block, member, holds⟩)

theorem Tracks.patchedRows {rows : Rows} (tracks : Tracks geometry index changed rows.blocks) :
    ({ rows with
        blocks := IndexCommitProofs.patched rows.blocks index.dirtyRanges.2.bytes index.dirtyRanges.1 } : Rows) =
      ⟨index.bytes, rows.segments⟩ := by
  have same : IndexCommitProofs.patched rows.blocks index.dirtyRanges.2.bytes index.dirtyRanges.1 = index.bytes :=
    tracks.patched
  rw [same]

theorem Tracks.committed (tracks : Tracks geometry index changed blocks) :
    Tracks geometry index.committed [] index.bytes where
  own := tracks.own
  sized := tracks.sized
  stored := tracks.sized
  inside block member := absurd member List.not_mem_nil
  dirty span := by simp [Index.committed]
  rest place _ := rfl

/-! ## Transactions -/

/-- An assertion about the database and the index in memory. -/
def At (P : Database → Option Index → Prop) (s : Cache) : Prop := P s.database s.resident

/-- No transaction is open. -/
def Settled (rows : Rows) (commits : Nat) (resident : Option Index) : Cache → Prop :=
  At fun database found => database = ⟨rows, none, commits⟩ ∧ found = resident

/-- A transaction is open, whose rows satisfy `Q`. -/
def Open (before : Rows) (commits : Nat) (resident : Option Index) (Q : Rows → Prop) : Cache → Prop :=
  At fun database found =>
    database.journal = some before ∧ database.commits = commits ∧ found = resident ∧ Q database.rows

variable {before rows : Rows} {commits : Nat} {resident : Option Index} {Q R : Rows → Prop}

theorem retaped_trial {P : Cache → Prop} (retaped : ∀ s tape, P s → P { s with tape := tape }) :
    Keeps P (IndexBytes.trial error) := by
  refine .bindState fun found => ?_
  cases found.tape with
  | nil => exact .pure fun s holds => holds.1
  | cons answer rest =>
    refine .bind (Q := fun _ => P) (.update fun s holds => retaped s rest holds.1) fun _ => ?_
    cases answer.verdict with
    | pass => exact .pure fun _ => id
    | fail => exact .fail fun _ => id
    | crash => exact .crash fun _ => id

theorem trial_keeps {P : Database → Option Index → Prop} :
    Keeps (At P) (IndexBytes.trial error) := retaped_trial fun _ _ => id

theorem undoing_triple {σ ε α : Type} {P E F : σ → Prop} {Q : α → σ → Prop} {exit : σ → σ} {action : Act σ ε α}
    (body : Triple P action Q F) (undone : ∀ s, F s → E (exit s)) : Triple P (undoing exit action) Q E := by
  intro s holds
  have ended := body s holds
  unfold undoing
  revert ended
  cases action s with
  | mk outcome t =>
    cases outcome with
    | ok value => exact id
    | err error | crash => exact undone t

theorem liftExcept_triple {α : Type} {value : Except Failure α} {P E : Cache → Prop} {Q : α → Cache → Prop}
    (passes : ∀ found, value = .ok found → ∀ s, P s → Q found s) (stops : ∀ s, P s → E s) :
    Triple P (IndexBytes.liftExcept value) Q E := by
  cases value with
  | ok found => exact passes found rfl
  | error error => exact stops

theorem residentIndex_triple {α : Type} {s : Cache} {rest : Index → Io α} {Q : α → Cache → Prop}
    {E : Cache → Prop} (passes : ∀ index, s.resident = some index → Triple (fun t => t = s) (rest index) Q E)
    (stops : s.resident = none → E s) : Triple (fun t => t = s) (residentIndex >>= rest) Q E := by
  refine .bind (Q := fun index t => t = s ∧ s.resident = some index) ?_ fun index => ?_
  · refine .bindState fun found => .require (fun index same t holds => ?_) fun none t holds => ?_
    · exact ⟨holds.1, by rw [← holds.1, holds.2, same]⟩
    · rw [holds.1]
      exact stops (by rw [← holds.1, holds.2, none])
  · exact .pointwise fun t holds u same => passes index holds.2 u (same.trans holds.1)

theorem execute_triple {change : Rows → Rows} :
    Triple (Open before commits resident Q) (IndexBytes.execute change)
      (fun _ => Open before commits resident fun rows => ∃ old, Q old ∧ rows = change old)
      (Open before commits resident fun _ => True) := by
  refine .bind (Q := fun _ => Open before commits resident Q) (trial_keeps.otherwise fun s holds => ?_)
    fun _ => ?_
  · exact ⟨holds.1, holds.2.1, holds.2.2.1, trivial⟩
  · exact .update fun s holds => ⟨holds.1, holds.2.1, holds.2.2.1, s.database.rows, holds.2.2.2, rfl⟩

theorem writeRanges_triple (ranges : List (Span Nat)) :
    Triple (Open before commits resident (· = rows)) (writeRanges bytes ranges)
      (fun _ => Open before commits resident (· = { rows with blocks := patched rows.blocks bytes ranges }))
      (Open before commits resident fun _ => True) := by
  induction ranges generalizing rows with
  | nil => exact .pure fun _ => id
  | cons range rest ih =>
    have step : Triple (Open before commits resident (· = rows)) (writeRange bytes range)
        (fun _ => Open before commits resident
          (· = { rows with blocks := copyInto rows.blocks range.start (slice bytes range) }))
        (Open before commits resident fun _ => True) := by
      refine .bind (Q := fun _ => Open before commits resident (· = rows)) ?_ fun _ => ?_
      · exact .ensure (fun _ _ => id) fun _ s holds => ⟨holds.1, holds.2.1, holds.2.2.1, trivial⟩
      refine .bind (Q := fun _ => Open before commits resident (· = rows))
        (trial_keeps.otherwise fun s holds => ⟨holds.1, holds.2.1, holds.2.2.1, trivial⟩) fun _ => ?_
      refine .update fun s holds => ⟨holds.1, holds.2.1, holds.2.2.1, ?_⟩
      rw [holds.2.2.2]
    exact step.bind fun _ => ih

theorem patch_triple (ranges : List (Span Nat)) :
    Triple (Open before commits resident (· = rows)) (IndexBytes.patch bytes ranges)
      (fun _ => Open before commits resident fun found =>
        rows.blocks.length = bytes.length ∧ found = { rows with blocks := patched rows.blocks bytes ranges })
      (Open before commits resident fun _ => True) := by
  have opened := fun (s : Cache) (holds : Open before commits resident (· = rows) s) =>
    (⟨holds.1, holds.2.1, holds.2.2.1, trivial⟩ : Open before commits resident (fun _ => True) s)
  let Done : Except Failure Unit → Cache → Prop := fun result => Open before commits resident fun found =>
    result = .ok () → rows.blocks.length = bytes.length ∧
      found = { rows with blocks := patched rows.blocks bytes ranges }
  refine .bind (Q := fun _ => Open before commits resident (· = rows)) (trial_keeps.otherwise opened) fun _ => ?_
  refine .bind (Q := Done) ?_ fun result => ?_
  · refine .attempt (F := Open before commits resident fun _ => True) ?_ (fun error s holds => ?_) fun _ => id
    · refine .bindState fun s => ?_
      refine .bind (Q := fun _ s => Open before commits resident (· = rows) s ∧ rows.blocks.length = bytes.length)
        (.ensure (fun same t holds => ⟨holds.1, ?_⟩) fun _ t holds => opened t holds.1) fun _ => ?_
      · rw [← same, ← holds.2, holds.1.2.2.2]
      · refine .pointwise fun t holds => ?_
        refine ((writeRanges_triple ranges).after fun _ u written => ?_).before fun u same => same ▸ holds.1
        exact ⟨written.1, written.2.1, written.2.2.1, fun _ => ⟨holds.2, written.2.2.2⟩⟩
    · exact ⟨holds.1, holds.2.1, holds.2.2.1, fun same => nomatch same⟩
  · refine .bind (Q := fun _ => Done result) ?_ fun closed => ?_
    · exact .attempt (F := Done result) trial_keeps (fun _ _ => id)
        fun s holds => ⟨holds.1, holds.2.1, holds.2.2.1, trivial⟩
    have stops := fun (s : Cache) (holds : Done result s) =>
      (⟨holds.1, holds.2.1, holds.2.2.1, trivial⟩ : Open before commits resident (fun _ => True) s)
    refine .bind (Q := fun _ => Done (.ok ())) (liftExcept_triple (fun _ same s holds => ?_) stops) fun _ => ?_
    · rw [same] at holds
      exact holds
    · exact liftExcept_triple (fun _ _ s holds => ⟨holds.1, holds.2.1, holds.2.2.1, holds.2.2.2 rfl⟩)
        fun s holds => ⟨holds.1, holds.2.1, holds.2.2.1, trivial⟩

theorem transaction_triple {statements : Io Unit}
    (body : Triple (Open before commits resident (· = before)) statements
      (fun _ => Open before commits resident Q) (Open before commits resident fun _ => True)) :
    Triple (Settled before commits resident) (IndexBytes.transaction statements)
      (fun _ => At fun database found =>
        ∃ rows, Q rows ∧ database = ⟨rows, none, commits + 1⟩ ∧ found = resident)
      (Settled before commits resident) := by
  refine .bind (Q := fun _ => Open before commits resident (· = before)) ?_ fun _ => ?_
  · refine .bind (Q := fun _ => Settled before commits resident) trial_keeps fun _ => ?_
    refine .update fun s holds => ?_
    obtain ⟨same, found⟩ := holds
    simp only [Open, At, same]
    exact ⟨trivial, trivial, found, trivial⟩
  refine undoing_triple (F := Open before commits resident fun _ => True) ?_ fun s holds => ?_
  · refine body.bind fun _ => ?_
    refine .bind (Q := fun _ => Open before commits resident Q) (trial_keeps.otherwise fun s holds => ?_)
      fun _ => ?_
    · exact ⟨holds.1, holds.2.1, holds.2.2.1, trivial⟩
    · refine .update fun s holds => ⟨s.database.rows, holds.2.2.2, ?_, holds.2.2.1⟩
      rw [holds.2.1]
  · refine ⟨?_, holds.2.2.1⟩
    simp only [rollback, holds.1, Option.getD_some, holds.2.1]

/-- A transaction that writes the ranges of an index and more: what it commits. -/
theorem patching_triple {operation : Io Unit}
    (more : ∀ rows, before.blocks.length = bytes.length →
      rows = { before with blocks := patched before.blocks bytes ranges } →
      Triple (Open before commits resident (· = rows)) operation (fun _ => Open before commits resident Q)
        (Open before commits resident fun _ => True)) :
    Triple (Settled before commits resident) (IndexBytes.transaction do
        IndexBytes.patch bytes ranges
        operation)
      (fun _ => At fun database found =>
        ∃ rows, Q rows ∧ database = ⟨rows, none, commits + 1⟩ ∧ found = resident)
      (Settled before commits resident) := by
  refine transaction_triple ((patch_triple ranges).bind fun _ => ?_)
  refine .pointwise fun s holds => ?_
  obtain ⟨journal, count, found, size, rows⟩ := holds
  refine (more s.database.rows size rows).before fun t same => ?_
  rw [same]
  exact ⟨journal, count, found, rfl⟩

theorem get_beyond (tracks : Tracks geometry index changed blocks) (outside : ¬ block < geometry.count) :
    index.get block = none := by
  have short : (slice index.bytes (entrySpan block)).length < entryLen := by
    have far : ¬ (entrySpan block).stop ≤ geometry.count * entryLen := fun fits => outside (within_of_entry fits)
    rw [slice, List.length_take, List.length_drop, tracks.sized]
    simp only [entrySpan, entryLen] at far ⊢
    omega
  simp only [Index.get, if_pos short]

theorem get_write_other {dirty : List (Span Nat)}
    (fits : block * entryLen + data.length ≤ index.bytes.length) (size : data.length = entryLen)
    (apart : other ≠ block) :
    Index.get ⟨copyInto index.bytes (block * entryLen) data, dirty, index.geometry⟩ other = index.get other := by
  refine get_congr fun place holds => ?_
  rw [getElem?_copyInto fits, size]
  exact if_neg fun inside => apart (entries_apart holds inside)

theorem slice_copied (fits : block * entryLen + data.length ≤ bytes.length) (size : data.length = entryLen) :
    slice (copyInto bytes (block * entryLen) data) (entrySpan block) = data := by
  have front : (bytes.take (block * entryLen)).length = block * entryLen := List.length_take_of_le (by omega)
  rw [slice, copyInto, List.drop_append_of_le_length (by simp only [entrySpan]; omega), List.drop_of_length_le (by
    simp only [entrySpan]
    omega), List.nil_append, List.take_append_of_le_length (by simp only [entrySpan]; omega),
    List.take_of_length_le (by simp only [entrySpan]; omega)]

theorem get_remove (tracks : Tracks geometry index changed blocks) (inside : block < geometry.count) :
    (index.remove block).get other = if other = block then none else index.get other := by
  have size : (List.replicate entryLen (0 : UInt8)).length = entryLen := List.length_replicate
  have fits : block * entryLen + (List.replicate entryLen (0 : UInt8)).length ≤ index.bytes.length := by
    rw [tracks.sized, size]
    exact entry_within inside
  split
  · rename_i same
    subst same
    simp only [Index.get, Index.remove, slice_copied fits size]
    rfl
  · rename_i apart
    exact get_write_other fits size apart

theorem clearBlocks_tracks (tracks : Tracks geometry index changed blocks) (removed : List Nat) :
    (∃ more, Tracks geometry (clearBlocks index removed) more blocks) ∧
      ∀ block, (clearBlocks index removed).get block = if block ∈ removed then none else index.get block := by
  induction removed generalizing index changed with
  | nil => exact ⟨⟨changed, tracks⟩, fun block => (if_neg List.not_mem_nil).symm⟩
  | cons first rest ih =>
    have whole : clearBlocks index (first :: rest) =
        clearBlocks (if (index.get first).isSome then index.remove first else index) rest := rfl
    rw [whole]
    split
    · rename_i present
      have inside : first < geometry.count := by
        by_contra outside
        rw [get_beyond tracks outside] at present
        cases present
      obtain ⟨more, each⟩ := ih (tracks.remove inside)
      refine ⟨more, fun block => ?_⟩
      rw [each block, get_remove tracks inside]
      simp only [List.mem_cons]
      split <;> rename_i later
      · rw [if_pos (.inr later)]
      · split <;> rename_i same
        · rw [if_pos (.inl same)]
        · rw [if_neg (not_or.mpr ⟨same, later⟩)]
    · rename_i absent
      obtain ⟨more, each⟩ := ih tracks
      refine ⟨more, fun block => ?_⟩
      rw [each block]
      by_cases same : block = first
      · subst same
        have none : index.get block = none := Option.not_isSome_iff_eq_none.mp absent
        rw [none, ite_self, ite_self]
      · simp only [List.mem_cons, same, false_or]

theorem clearBlocks_absent {removed : List Nat} (absent : ∀ block ∈ removed, index.get block = none) :
    clearBlocks index removed = index := by
  induction removed with
  | nil => rfl
  | cons first rest ih =>
    have none := absent first (.head _)
    have whole : clearBlocks index (first :: rest) =
        clearBlocks (if (index.get first).isSome then index.remove first else index) rest := rfl
    rw [whole, none]
    exact ih fun block member => absent block (.tail _ member)

/-! ## What the operations keep -/

/-- A segment marked deleting has no entry in the column. -/
def Cleared (geometry : Geometry) (layout : Layout) (rows : Rows) : Prop :=
  ∀ size number, layout = .segments size → rows.segments.lookup number = some true →
    ∀ block ∈ segmentBlocks geometry size number, Index.get ⟨rows.blocks, [], geometry⟩ block = none

/-- What holds between operations, with the blocks changed since the last commit. -/
structure Sound (geometry : Geometry) (layout : Layout) (changed : List Nat) (s : Cache) : Prop where
  closed : s.database.journal = none
  tracks : ∀ index, s.resident = some index → Tracks geometry index changed s.database.rows.blocks
  valid : ∀ index, s.resident = some index → Qcm.CacheState.validateLayout layout geometry = .ok ()
  unloaded : s.resident = none → changed = []
  copied : layout ≠ .blocks → changed = []
  cleared : Cleared geometry layout s.database.rows

variable {s t : Cache}

theorem Sound.settled (sound : Sound geometry layout changed s) :
    Settled s.database.rows s.database.commits s.resident s := by
  refine ⟨?_, rfl⟩
  rw [← sound.closed]

section

variable (sound : Sound geometry layout changed s)
include sound

theorem Sound.of_settled (settled : Settled s.database.rows commits s.resident t) :
    Sound geometry layout changed t := by
  obtain ⟨database, found⟩ := settled
  refine ⟨by rw [database], fun index present => ?_, fun index present => ?_, fun none => ?_, sound.copied, ?_⟩
  · rw [database]
    exact sound.tracks index (found ▸ present)
  · exact sound.valid index (found ▸ present)
  · exact sound.unloaded (found ▸ none)
  · rw [database]
    exact sound.cleared

theorem Sound.published (found : s.resident = some index) {more : List Nat}
    (tracks : Tracks geometry next more s.database.rows.blocks) {segments : Hash Nat Bool}
    (settled : Settled ⟨next.bytes, segments⟩ commits (some next.committed) t)
    (cleared : Cleared geometry layout ⟨next.bytes, segments⟩) : Sound geometry layout [] t := by
  obtain ⟨database, resident⟩ := settled
  refine ⟨by rw [database], fun index present => ?_, fun _ _ => sound.valid _ found, fun _ => rfl, fun _ => rfl, ?_⟩
  · rw [resident] at present
    cases present
    rw [database]
    exact tracks.committed
  · rw [database]
    exact cleared

theorem Sound.retaped (tape : List Chance) : Sound geometry layout changed { s with tape := tape } :=
  { sound with }

theorem Sound.segments {segments : Hash Nat Bool}
    (fewer : ∀ number, segments.lookup number = some true → s.database.rows.segments.lookup number = some true) :
    Sound geometry layout changed
      { s with database := { s.database with rows := { s.database.rows with segments := segments } } } :=
  { sound with cleared := fun size number segmented deleting =>
      sound.cleared size number segmented (fewer number deleting) }

end

theorem Sound.trial : Keeps (Sound geometry layout changed) (IndexBytes.trial error) :=
  retaped_trial fun _ tape sound => sound.retaped tape

theorem commit_triple :
    Triple (fun s => Sound geometry layout changed s ∧ s.database.commits = commits) IndexBytes.commit
      (fun _ t => Sound geometry layout [] t ∧ (t.database.commits = commits → changed = []))
      (fun s => Sound geometry layout changed s ∧ s.database.commits = commits) := by
  refine .pointwise fun s holds => ?_
  obtain ⟨sound, count⟩ := holds
  refine residentIndex_triple (fun index found => ?_) fun _ => ⟨sound, count⟩
  have tracks := sound.tracks index found
  have kept (t : Cache) (settled : Settled s.database.rows s.database.commits (some index.dirtyRanges.2) t) :
      Sound geometry layout changed t ∧ t.database.commits = commits := by
    obtain ⟨database, resident⟩ := settled
    refine ⟨⟨by rw [database], fun other present => ?_, fun _ _ => sound.valid _ found, fun none => ?_,
      sound.copied, ?_⟩, ?_⟩
    · rw [resident] at present
      cases present
      rw [database]
      exact tracks.sorted
    · rw [resident] at none
      cases none
    · rw [database]
      exact sound.cleared
    · rw [database]
      exact count
  refine .bind (Q := fun _ => Settled s.database.rows s.database.commits (some index.dirtyRanges.2))
    (.update fun t same => ?_) fun _ => ?_
  · rw [same]
    exact ⟨sound.settled.1, rfl⟩
  refine .ite (fun none => .pure fun t settled => ?_) fun _ => ?_
  · have clean : changed = [] := by
      rw [← tracks.isCommitted, Index.isCommitted, List.isEmpty_iff]
      have empty : Span.sorted index.dirty = [] := Span.merge_eq_nil.mp none
      exact List.eq_nil_iff_forall_not_mem.mpr fun span member =>
        absurd (Span.mem_sorted.mpr member) (empty ▸ List.not_mem_nil)
    exact ⟨clean ▸ (kept t settled).1, fun _ => clean⟩
  · refine .bind (((transaction_triple (patch_triple _)).otherwise kept)) fun _ => ?_
    refine .update fun t holds => ?_
    obtain ⟨rows, ⟨_, written⟩, database, resident⟩ := holds
    have bytes : rows = ⟨index.bytes, s.database.rows.segments⟩ :=
      written.trans tracks.patchedRows
    rw [bytes] at database
    refine ⟨sound.published found tracks ⟨database, rfl⟩ fun size number segmented deleting => ?_, fun same => ?_⟩
    swap
    · rw [← count] at same
      simp only [database] at same
      omega
    -- a version in segments is changed through copies, so nothing was changed
    have clean : changed = [] := sound.copied (by rw [segmented]; exact Layout.noConfusion)
    have same : index.bytes = s.database.rows.blocks := by
      subst clean
      exact tracks.same
    rw [same]
    exact sound.cleared size number segmented deleting

/-- A copy is published with the statements that go with it, or nothing happens. -/
theorem publish_triple {draft : Index} {more : List Nat} {operation : Io Unit} {F : Hash Nat Bool → Prop}
    (sound : Sound geometry layout changed s) (found : s.resident = some index)
    (tracks : Tracks geometry draft more s.database.rows.blocks)
    (statements : Triple
      (Open s.database.rows s.database.commits s.resident (· = ⟨draft.bytes, s.database.rows.segments⟩))
      operation (fun _ => Open s.database.rows s.database.commits s.resident fun rows =>
        rows.blocks = draft.bytes ∧ F rows.segments) (Open s.database.rows s.database.commits s.resident fun _ => True))
    (cleared : ∀ segments, F segments → Cleared geometry layout ⟨draft.bytes, segments⟩) :
    Triple (fun t => t = s) (IndexBytes.publishSegmentIndex draft operation)
      (fun _ t => Sound geometry layout [] t ∧ (∃ index, t.resident = some index ∧ index.bytes = draft.bytes) ∧
        F t.database.rows.segments)
      (Sound geometry layout changed) := by
  refine .bind (((patching_triple fun rows _ same => statements.before ?_).before fun t same => ?_).otherwise
    fun t => sound.of_settled) fun _ => ?_
  · intro t holds
    have written : rows = ⟨draft.bytes, s.database.rows.segments⟩ :=
      same.trans tracks.patchedRows
    exact written ▸ holds
  · rw [same]
    exact sound.settled
  · refine .pointwise fun t holds => ?_
    obtain ⟨⟨blocks, segments⟩, ⟨bytes, after⟩, database, resident⟩ := holds
    simp only at bytes after
    subst bytes
    refine residentIndex_triple (fun _ _ => .update fun u same => ?_) fun none => ?_
    · rw [same]
      refine ⟨sound.published found tracks ⟨database, rfl⟩ (cleared segments after), ⟨_, rfl, rfl⟩, ?_⟩
      rw [database]
      exact after
    · rw [resident, found] at none
      cases none

/-! ## Segments -/

variable {size number : Nat}

theorem lookup_markDeleting
    (deleting : (IndexBytes.markDeleting number rows).segments.lookup other = some true) :
    other = number ∨ rows.segments.lookup other = some true := by
  rw [IndexBytes.markDeleting] at deleting
  split at deleting
  · rw [Hash.lookup_insert] at deleting
    split at deleting
    · rename_i same
      exact .inl same
    · exact .inr deleting
  · exact .inr deleting

theorem removeSegment_triple (segments_eq : layout = .segments size) (sound : Sound geometry layout [] s)
    (found : s.resident = some index) :
    Triple (fun t => t = s) (IndexBytes.removeSegment size number)
      (fun _ t => Sound geometry layout [] t ∧
        ∃ after, t.resident = some after ∧ after.bytes = (clearBlocks index (segmentBlocks geometry size number)).bytes)
      (Sound geometry layout []) := by
  refine residentIndex_triple (fun same present => ?_) fun _ => sound
  cases found.symm.trans present
  have tracks := sound.tracks index found
  rw [tracks.own]
  obtain ⟨⟨more, cleared⟩, gone⟩ := clearBlocks_tracks tracks (segmentBlocks geometry size number)
  let draft := clearBlocks index (segmentBlocks geometry size number)
  let Kept (t : Cache) : Prop :=
    Sound geometry layout [] t ∧ ∃ after, t.resident = some after ∧ after.bytes = draft.bytes
  refine .bind (Q := fun _ => Kept) ?_ fun _ => ?_
  · refine (publish_triple (F := fun segments => ∀ other, segments.lookup other = some true →
      other = number ∨ s.database.rows.segments.lookup other = some true) sound found cleared ?_ ?_).after
        fun _ t holds => ⟨holds.1, holds.2.1⟩
    · refine execute_triple.after fun _ t holds => ⟨holds.1, holds.2.1, holds.2.2.1, ?_⟩
      obtain ⟨old, rfl, same⟩ := holds.2.2.2
      rw [same]
      refine ⟨?_, fun other deleting => ?_⟩
      · rw [IndexBytes.markDeleting]
        split
        · rfl
        · rfl
      · have marked := lookup_markDeleting deleting
        exact marked
    · intro segments marked width other segmented deleting block member
      have absent : draft.get block =
          if block ∈ segmentBlocks geometry size number then none else index.get block := gone block
      change draft.get block = none
      rw [absent]
      split
      · rfl
      · rename_i elsewhere
        cases segments_eq.symm.trans segmented
        rcases marked other deleting with rfl | old
        · exact absurd member elsewhere
        · have none := sound.cleared size other segmented old block member
          rw [← tracks.same] at none
          exact none
  refine .bind (Q := fun _ => Kept) ((retaped_trial fun t tape kept => ⟨kept.1.retaped tape, kept.2⟩).otherwise
    fun t kept => kept.1) fun _ => ?_
  refine .bind (Q := fun _ => Kept) ((retaped_trial fun t tape kept => ⟨kept.1.retaped tape, kept.2⟩).otherwise
    fun t kept => kept.1) fun _ => ?_
  refine .update fun t kept => ⟨kept.1.segments fun other deleting => ?_, kept.2⟩
  obtain ⟨-, deleting⟩ := Hash.lookup_erase_some deleting
  exact deleting

theorem dropBlock_triple : Keeps (Sound geometry layout []) (IndexBytes.dropBlock block) := by
  refine .pointwise fun s sound => residentIndex_triple (fun index found => ?_) fun _ => sound
  refine .ite (fun _ => .pure fun t same => same ▸ sound) fun present => ?_
  have tracks := sound.tracks index found
  have inside : block < geometry.count := by
    by_contra outside
    rw [get_beyond tracks outside] at present
    exact present rfl
  refine (publish_triple (F := fun segments => segments = s.database.rows.segments) sound found (tracks.remove inside)
    ?_ ?_).after fun _ t holds => holds.1
  · exact Triple.pure fun t holds => ⟨holds.1, holds.2.1, holds.2.2.1, by rw [holds.2.2.2], by rw [holds.2.2.2]⟩
  · intro segments same size number segmented deleting other member
    rw [same] at deleting
    have none := sound.cleared size number segmented deleting other member
    rw [← tracks.same] at none
    change (index.remove block).get other = Option.none
    rw [get_remove tracks inside]
    split
    · rfl
    · exact none

theorem groupBlocks_sorted {blocks : List (Nat × List UInt8)} {grouped result : Grouped}
    (done : IndexBytes.groupBlocks index size blocks grouped = .ok result)
    (sorted : CacheSteps.Sorted index.geometry size grouped) : CacheSteps.Sorted index.geometry size result := by
  induction blocks generalizing grouped with
  | nil =>
    cases done
    exact sorted
  | cons entry rest ih =>
    rw [IndexBytes.groupBlocks] at done
    split at done
    · cases done
    · rename_i range inside
      split at done
      · cases done
      · split at done
        · obtain ⟨bound, rfl⟩ := Geometry.range_eq_some.mp inside
          exact ih done (sorted.add (Geometry.lt_count.mpr bound))
        · exact ih done sorted

/-- The copy that a write fills: outside the blocks it has set, all in segments it writes,
it has the bytes of the column. -/
structure Draft (geometry : Geometry) (size : Nat) (draft : Index) (written : List Nat) (blocks : List UInt8) :
    Prop where
  tracked : ∃ drafted, Tracks geometry draft drafted blocks ∧
    ∀ block ∈ drafted, CacheSound.segmentOf geometry size block ∈ written

/-- A version in segments at rest, with the bytes that its index and its column have. -/
def Quiet (geometry : Geometry) (layout : Layout) (blocks : List UInt8) (s : Cache) : Prop :=
  Sound geometry layout [] s ∧ ∃ index, s.resident = some index ∧ index.bytes = blocks

variable [Sha256] {draft : Index} {written : List Nat}

omit [Sha256] in
theorem Quiet.trial : Keeps (Quiet geometry layout blocks) (IndexBytes.trial error) :=
  retaped_trial fun _ tape quiet => ⟨quiet.1.retaped tape, quiet.2⟩

omit [Sha256] in
/-- A segment marked deleting has no entry, so removing it leaves the bytes as they are. -/
theorem chooseSegment_triple (segmented : layout = .segments size) :
    Triple (Quiet geometry layout blocks) (IndexBytes.chooseSegment size number)
      (fun _ => Quiet geometry layout blocks) (Sound geometry layout []) := by
  refine Triple.bind (Q := fun _ => Quiet geometry layout blocks) (Quiet.trial.otherwise fun _ quiet => quiet.1)
    fun _ => ?_
  refine .bindState fun s => .ite (fun deleting => ?_) fun _ => .pure fun t holds => holds.1
  refine .pointwise fun t holds => ?_
  obtain ⟨⟨sound, index, found, bytes⟩, rfl⟩ := holds
  have same := (sound.tracks index found).same
  have absent : clearBlocks index (segmentBlocks geometry size number) = index := by
    refine clearBlocks_absent fun block member => ?_
    have none := sound.cleared size number segmented deleting block member
    rw [← same] at none
    exact none
  refine (removeSegment_triple segmented sound found).after fun _ u holds => ⟨holds.1, ?_⟩
  rw [absent, bytes] at holds
  exact holds.2

theorem writeBlocks_triple (among : Draft geometry size draft (number :: written) blocks)
    (sorted : ∀ entry ∈ entries, entry.1 < geometry.count ∧ number = CacheSound.segmentOf geometry size entry.1) :
    Triple (Quiet geometry layout blocks) (IndexBytes.writeBlocks size entries draft)
      (fun next s => Quiet geometry layout blocks s ∧ Draft geometry size next (number :: written) blocks)
      (Quiet geometry layout blocks) := by
  induction entries generalizing draft with
  | nil => exact .pure fun s quiet => ⟨quiet, among⟩
  | cons entry rest ih =>
    refine .bind (Q := fun _ => Quiet geometry layout blocks) Quiet.trial fun _ => ?_
    refine .bind
      (Q := fun next s => Quiet geometry layout blocks s ∧ Draft geometry size next (number :: written) blocks)
      (liftExcept_triple (fun next done s quiet => ⟨quiet, ?_⟩) fun _ => id) fun next => ?_
    · obtain ⟨drafted, tracks, lies⟩ := among.tracked
      refine ⟨entry.1 :: drafted, tracks.set done, fun block member => ?_⟩
      rcases List.mem_cons.mp member with rfl | member
      · rw [← (sorted entry (.head _)).2]
        exact .head _
      · exact lies block member
    · refine .pointwise fun s holds => ?_
      refine (ih holds.2 fun other member => sorted other (.tail _ member)).before fun t same => ?_
      rw [same]
      exact holds.1

theorem writeGroups_triple (segmented : layout = .segments size) {grouped : Grouped}
    (among : Draft geometry size draft written blocks) (sorted : CacheSteps.Sorted geometry size grouped) :
    Triple (Quiet geometry layout blocks) (IndexBytes.writeGroups size grouped draft written)
      (fun result s => Quiet geometry layout blocks s ∧ Draft geometry size result.1 result.2 blocks)
      (Sound geometry layout []) := by
  induction grouped generalizing draft written with
  | nil => exact .pure fun s quiet => ⟨quiet, among⟩
  | cons group rest ih =>
    have wider : Draft geometry size draft (group.1 :: written) blocks := by
      obtain ⟨drafted, tracks, lies⟩ := among.tracked
      exact ⟨drafted, tracks, fun block member => .tail _ (lies block member)⟩
    have quiet_trial : Triple (Quiet geometry layout blocks) (trial .io) (fun _ => Quiet geometry layout blocks)
        (Sound geometry layout []) := Quiet.trial.otherwise fun s quiet => quiet.1
    refine .bind (chooseSegment_triple segmented) fun _ => ?_
    refine .bind quiet_trial fun _ => ?_
    refine .bind ((writeBlocks_triple wider (sorted group (.head _))).otherwise
      fun s quiet => quiet.1) fun next => ?_
    refine .pointwise fun s holds => ?_
    refine .bind (quiet_trial.before fun t same => same ▸ holds.1) fun _ => ?_
    exact ih holds.2 fun other member => sorted other (.tail _ member)

omit [Sha256] in
theorem upsertSegments_triple (numbers : List Nat) (rows : Rows) :
    Triple (Open before commits resident (· = rows)) (IndexBytes.upsertSegments numbers)
      (fun _ => Open before commits resident fun found => found.blocks = rows.blocks ∧
        ∀ other, found.segments.lookup other = some true → other ∉ numbers ∧ rows.segments.lookup other = some true)
      (Open before commits resident fun _ => True) := by
  induction numbers generalizing rows with
  | nil =>
    exact Triple.pure fun s holds => ⟨holds.1, holds.2.1, holds.2.2.1, by rw [holds.2.2.2], fun other deleting =>
      ⟨List.not_mem_nil, by rwa [← holds.2.2.2]⟩⟩
  | cons number rest ih =>
    refine .bind execute_triple fun _ => .pointwise fun s holds => ?_
    obtain ⟨old, rfl, same⟩ := holds.2.2.2
    refine (ih { old with segments := old.segments.insert number false } |>.after fun _ t after =>
      ⟨after.1, after.2.1, after.2.2.1, after.2.2.2.1, fun other deleting => ?_⟩).before fun t here => ?_
    · rw [here]
      exact ⟨holds.1, holds.2.1, holds.2.2.1, same⟩
    obtain ⟨apart, kept⟩ := after.2.2.2.2 other deleting
    rw [Hash.lookup_insert] at kept
    split at kept
    · cases kept
    · rename_i different
      exact ⟨fun member => (List.mem_cons.mp member).elim different apart, kept⟩

/-- `write_segments` publishes the copy it filled, or leaves the index and the column alike. -/
theorem writeSegments_triple (segmented : layout = .segments size) :
    Keeps (Sound geometry layout []) (IndexBytes.writeSegments size entries) := by
  refine Triple.pointwise fun s sound => residentIndex_triple (fun index found => ?_) fun _ => sound
  have tracks := sound.tracks index found
  obtain ⟨positive, divides⟩ := CacheSound.validateLayout_ok (segmented ▸ sound.valid index found)
  refine .bind (Q := fun grouped t => t = s ∧ CacheSteps.Sorted geometry size grouped)
    (liftExcept_triple (fun grouped done t same => ⟨same, ?_⟩) fun t same => same ▸ sound) fun grouped => ?_
  · rw [← tracks.own]
    exact groupBlocks_sorted done fun group none => absurd none List.not_mem_nil
  refine .ite (fun _ => .pure fun t holds => holds.1 ▸ sound) fun _ => ?_
  refine .pointwise fun t holds => ?_
  obtain ⟨rfl, sorted⟩ := holds
  refine residentIndex_triple (fun same present => ?_) fun _ => sound
  cases found.symm.trans present
  have started : Draft geometry size index [] index.bytes :=
    ⟨[], tracks.same ▸ tracks, fun block none => absurd none List.not_mem_nil⟩
  refine .bind ((writeGroups_triple segmented started sorted).before fun u same =>
    same ▸ ⟨sound, index, found, rfl⟩) fun result => ?_
  obtain ⟨draft, written⟩ := result
  refine .pointwise fun u holds => ?_
  obtain ⟨quiet, among⟩ := holds
  refine Triple.bind ((Quiet.trial.otherwise fun _ quiet => quiet.1).before fun v same => same ▸ quiet) fun _ => ?_
  refine .pointwise fun v quiet => ?_
  obtain ⟨sound, resident, here, bytes⟩ := quiet
  have column : v.database.rows.blocks = index.bytes := by rw [← bytes, (sound.tracks resident here).same]
  obtain ⟨drafted, tracked, lies⟩ := among.tracked
  refine (publish_triple (F := fun segments => ∀ other, segments.lookup other = some true →
      other ∉ written ∧ v.database.rows.segments.lookup other = some true) sound here (column ▸ tracked)
    (upsertSegments_triple written _) ?_).after fun _ _ published => published.1
  intro segments live width number same deleting block member
  cases segmented.symm.trans same
  obtain ⟨unwritten, old⟩ := live number deleting
  have absent := sound.cleared size number same old block member
  change draft.get block = none
  by_cases inside : block < geometry.count
  · -- the segment is not among those written, so its entries in the copy are those of the column
    have apart : block ∉ drafted := fun among => unwritten (by
      rw [← (CacheSound.mem_segmentBlocks positive divides inside).mp member]
      exact lies block among)
    rw [← absent]
    refine get_congr fun place holds => ?_
    rw [column]
    exact tracked.rest place fun other among there => apart (entries_apart holds there ▸ among)
  · exact get_beyond tracked inside

/-! ## Loads, sets and removes -/

omit [Sha256] in
theorem loadLayout_ok (done : Index.loadLayout geometry bytes slots = .ok index) :
    index = ⟨bytes, [], geometry⟩ ∧ bytes.length = geometry.count * entryLen := by
  simp only [Index.loadLayout] at done
  split at done
  · cases done
  · rename_i fits
    split at done <;> cases done
    exact ⟨rfl, (not_not.mp fits).2⟩

omit [Sha256] in
theorem loaded_tracks
    (done : (match layout, slots with
      | .segments size, _ => Index.loadSegments geometry blocks size
      | .blocks, some slots => Index.load geometry blocks slots
      | .blocks, none => Index.loadPlain geometry blocks) = .ok index) :
    Tracks geometry index [] blocks := by
  have read : index = ⟨blocks, [], geometry⟩ ∧ blocks.length = geometry.count * entryLen := by
    split at done
    · obtain ⟨value, loaded, rest⟩ := bind_ok.mp done
      split at rest <;> cases rest
      exact loadLayout_ok loaded
    · exact loadLayout_ok done
    · obtain ⟨value, loaded, rest⟩ := bind_ok.mp done
      split at rest <;> cases rest
      exact loadLayout_ok loaded
  obtain ⟨rfl, sized⟩ := read
  exact ⟨rfl, sized, sized, fun block none => absurd none List.not_mem_nil, fun span => by simp, fun _ _ => rfl⟩

/-- The assertion about an operation: unless a transaction committed, what was changed stays changed. -/
def Since (geometry : Geometry) (layout : Layout) (commits : Nat) (changed : List Nat) (t : Cache) : Prop :=
  Sound geometry layout (if t.database.commits = commits then changed else []) t

omit [Sha256] in
theorem Sound.since (sound : Sound geometry layout [] s) : Since geometry layout commits [] s := by
  rw [Since, ite_self]
  exact sound

omit [Sha256] in
theorem Sound.since_of (sound : Sound geometry layout changed s) (same : s.database.commits = commits) :
    Since geometry layout commits changed s := by
  rw [Since, if_pos same]
  exact sound

omit [Sha256] in
theorem loadAbsent_triple :
    Triple (fun s => Sound geometry layout [] s ∧ s.resident = none) (IndexBytes.loadAbsent geometry layout slots)
      (fun _ => Sound geometry layout []) (Sound geometry layout []) := by
  have kept {error : Failure} : Triple (fun s => Sound geometry layout [] s) (IndexBytes.trial error)
      (fun _ => Sound geometry layout []) (Sound geometry layout []) := Sound.trial
  refine Triple.before (P := Sound geometry layout []) (kept.bind fun _ => ?_) fun s holds => holds.1
  refine .bind
    (Q := fun _ s => Sound geometry layout [] s ∧ Qcm.CacheState.validateLayout layout geometry = .ok ())
    (liftExcept_triple (fun _ valid s sound => ⟨sound, valid⟩) fun _ => id) fun _ => ?_
  refine .pointwise fun s holds => ?_
  obtain ⟨sound, valid⟩ := holds
  refine .bind (kept.before fun t same => same ▸ sound) fun _ => ?_
  refine .bindState fun found => ?_
  refine .bind (Q := fun index t => (Sound geometry layout [] t ∧ t = found) ∧
    Tracks geometry index [] found.database.rows.blocks)
    (liftExcept_triple (fun index done t holds => ⟨holds, loaded_tracks done⟩) fun t holds => holds.1) fun index => ?_
  refine .update fun t holds => ?_
  obtain ⟨⟨sound, rfl⟩, tracks⟩ := holds
  refine ⟨sound.closed, fun other present => ?_, fun _ _ => valid, fun _ => rfl, fun _ => rfl, sound.cleared⟩
  cases present
  exact tracks

theorem setting_triple (whole : layout = .blocks) :
    Triple (fun s => Sound geometry layout changed s ∧ s.database.commits = commits) (setting block slot data)
      (fun _ => Since geometry layout commits (block :: changed)) (Since geometry layout commits changed) := by
  refine .pointwise fun s holds => ?_
  obtain ⟨sound, count⟩ := holds
  refine residentIndex_triple (fun index found => ?_) fun _ => sound.since_of count
  have tracks := sound.tracks index found
  refine .bind (Q := fun next t => t = s ∧ Tracks geometry next (block :: changed) s.database.rows.blocks)
    (liftExcept_triple (fun next done t same => ⟨same, tracks.set done⟩) fun t same => same ▸ sound.since_of count)
    fun next => ?_
  refine .update fun t holds => ?_
  obtain ⟨rfl, after⟩ := holds
  refine .since_of ⟨sound.closed, fun other present => ?_, fun _ _ => sound.valid _ found, nofun,
    fun parted => absurd whole parted, sound.cleared⟩ count
  cases present
  exact after

omit [Sha256] in
theorem removing_triple (whole : layout = .blocks) :
    Triple (fun s => Sound geometry layout changed s ∧ s.database.commits = commits) (IndexBytes.removing block)
      (fun _ => Since geometry layout commits (block :: changed)) (Since geometry layout commits changed) := by
  refine .pointwise fun s holds => ?_
  obtain ⟨sound, count⟩ := holds
  refine residentIndex_triple (fun index found => ?_) fun _ => sound.since_of count
  have tracks := sound.tracks index found
  refine .ite (fun _ => .crash fun t same => same ▸ sound.since_of count) fun fits => ?_
  rw [tracks.sized, Nat.not_lt] at fits
  refine .update fun t same => ?_
  rw [same]
  refine .since_of ⟨sound.closed, fun other present => ?_, fun _ _ => sound.valid _ found, nofun,
    fun parted => absurd whole parted, sound.cleared⟩ count
  cases present
  exact tracks.remove (within_of_entry fits)

/-- What an operation that returns adds to the changed blocks. -/
def addedBy : Op → List Nat → List Nat
  | .set block _ _, changed => block :: changed
  | .remove block, changed => block :: changed
  | _, changed => changed

omit [Sha256] in
/-- An operation of a version in segments keeps the column and the index alike. -/
theorem segments_triple {action : Nat → Io Unit}
    (keeps : ∀ size, layout = .segments size → Keeps (Sound geometry layout []) (action size)) :
    Triple (fun s => Sound geometry layout changed s ∧ s.database.commits = commits)
      (require layout.segmentBytes (.text "not segmented") >>= action)
      (fun _ => Since geometry layout commits changed) (Since geometry layout commits changed) := by
  cases same : layout with
  | blocks => exact .fail fun s holds => holds.1.since_of holds.2
  | segments size =>
    subst same
    refine .pointwise fun s holds => ?_
    have clean : changed = [] := holds.1.copied nofun
    subst clean
    refine .weaken (keeps size rfl) (fun t same => ?_) (fun _ _ sound => sound.since) fun _ sound => sound.since
    rw [same]
    exact holds.1

theorem perform_triple (commits : Nat) {op : Op} (suits : op.Suits layout) :
    Triple (fun s => Sound geometry layout changed s ∧ s.database.commits = commits)
      (IndexBytes.perform geometry layout op)
      (fun _ => Since geometry layout commits (addedBy op changed)) (Since geometry layout commits changed) := by
  have since (t : Cache) (holds : Sound geometry layout [] t ∧ (t.database.commits = commits → changed = [])) :
      Since geometry layout commits changed t := by
    rw [Since]
    split
    · rename_i same
      rw [holds.2 same]
      exact holds.1
    · exact holds.1
  cases op with
  | load slots =>
    refine .bindState fun found => .ite (fun _ => .pure fun s holds => holds.1.1.since_of holds.1.2)
      fun absent => ?_
    have none : found.resident = none := Option.not_isSome_iff_eq_none.mp absent
    refine .pointwise fun s holds => ?_
    obtain ⟨⟨sound, count⟩, rfl⟩ := holds
    have clean : changed = [] := sound.unloaded none
    subst clean
    refine loadAbsent_triple.weaken (fun t same => ?_) (fun _ _ sound => sound.since) fun _ sound => sound.since
    rw [same]
    exact ⟨sound, none⟩
  | set block slot data => exact setting_triple suits
  | remove block => exact removing_triple suits
  | commit =>
    exact commit_triple.weaken (fun _ => id) (fun _ t holds => since t holds) fun t holds => holds.1.since_of holds.2
  | release =>
    refine .bind (commit_triple.otherwise fun t holds => holds.1.since_of holds.2) fun _ => ?_
    refine .update fun t holds => since _ ⟨?_, holds.2⟩
    exact ⟨holds.1.closed, nofun, nofun, fun _ => rfl, fun _ => rfl, holds.1.cleared⟩
  | removeSegment number =>
    refine segments_triple fun size segmented => .pointwise fun s sound => ?_
    cases found : s.resident with
    | none => exact residentIndex_triple (fun index present => nomatch found.symm.trans present) fun _ => sound
    | some index => exact (removeSegment_triple segmented sound found).after fun _ t holds => holds.1
  | dropBlock block =>
    refine .pointwise fun s holds => ?_
    have clean : changed = [] := holds.1.copied suits
    subst clean
    refine dropBlock_triple.weaken (fun t same => ?_) (fun _ _ sound => sound.since) fun _ sound => sound.since
    rw [same]
    exact holds.1
  | writeSegments blocks => exact segments_triple fun size segmented => writeSegments_triple segmented
  | restart => exact .crash fun s holds => holds.1.since_of holds.2

/-! ## Runs -/

theorem play_sound (sound : Sound geometry layout changed s) {turn : Turn} (suits : turn.op.Suits layout) :
    Sound geometry layout ((play geometry layout s turn).1.changes turn.op changed)
      (play geometry layout s turn).2 := by
  have ended := perform_triple s.database.commits suits { s with tape := turn.tape } ⟨sound.retaped turn.tape, rfl⟩
  obtain ⟨outcome, t, performed⟩ : ∃ outcome t,
      perform geometry layout turn.op { s with tape := turn.tape } = (outcome, t) :=
    ⟨_, _, rfl⟩
  rw [performed] at ended
  rw [play, performed]
  cases outcome with
  | ok value =>
    simp only [Outcome.Meets, Since] at ended
    by_cases same : t.database.commits = s.database.commits
    · rw [if_pos same] at ended
      cases op : turn.op <;> simpa [Ending.changes, same, op, addedBy] using ended
    · rw [if_neg same] at ended
      simpa [Ending.changes, same] using ended
  | err error =>
    simp only [Outcome.Meets, Since] at ended
    by_cases same : t.database.commits = s.database.commits
    · rw [if_pos same] at ended
      cases op : turn.op <;> simpa [Ending.changes, same, op] using ended
    · rw [if_neg same] at ended
      simpa [Ending.changes, same] using ended
  | crash => exact ⟨ended.closed, nofun, nofun, fun _ => rfl, fun _ => rfl, ended.cleared⟩

theorem play_commit (sound : Sound geometry layout changed s) {turn : Turn} (commits : turn.op = .commit)
    (ok : (play geometry layout s turn).1.ok = true) :
    (play geometry layout s turn).1.changes turn.op changed = [] := by
  have ended := commit_triple { s with tape := turn.tape } ⟨sound.retaped turn.tape, rfl⟩
  obtain ⟨outcome, t, performed⟩ : ∃ outcome t, commit { s with tape := turn.tape } = (outcome, t) := ⟨_, _, rfl⟩
  rw [performed] at ended
  rw [play, commits, perform, performed] at ok ⊢
  cases outcome with
  | ok value =>
    by_cases same : t.database.commits = s.database.commits
    · rw [ended.2 same]
      exact ite_self _
    · exact if_pos (by simp [same])
  | err error | crash => cases ok

theorem run_sound {trace : List (Cache × Turn)} (initial : Initial geometry layout s)
    (run : Runs.Steps (Step geometry layout) s trace t) :
    Sound geometry layout (changedSince geometry layout trace) t := by
  induction run with
  | done =>
    have absent {index : Index} (present : s.resident = some index) : False :=
      nomatch initial.unloaded.symm.trans present
    exact ⟨initial.closed, fun _ present => (absent present).elim, fun _ present => (absent present).elim,
      fun _ => rfl, fun _ => rfl, initial.cleared⟩
  | snoc _ stepped ih =>
    obtain ⟨suits, same⟩ := stepped
    subst same
    rw [changedSince, List.foldl_append]
    exact play_sound ih suits

/-- In every run the merged ranges of the index are apart from each other and cover exactly
the entries of the blocks set or removed since the last commit, outside which the column
has the bytes of the index.  `is_committed` says that there are no such blocks, and then
the column is the index; so it is after every `commit` that returns `Ok` and every
operation in which a transaction committed. -/
theorem dirty_ranges_follow_commits {trace : List (Cache × Turn)} (initial : Initial geometry layout s)
    (run : Runs.Steps (Step geometry layout) s trace t) (found : t.resident = some index) :
    index.dirtyRanges.1.Pairwise (fun left right => left.stop < right.start) ∧
    (∀ place, Span.Covered index.dirtyRanges.1 place ↔
      ∃ block ∈ changedSince geometry layout trace, (entrySpan block).Holds place) ∧
    (∀ place, ¬ Span.Covered index.dirtyRanges.1 place → t.database.rows.blocks[place]? = index.bytes[place]?) ∧
    (index.isCommitted = true ↔ changedSince geometry layout trace = []) ∧
    (index.isCommitted = true → t.database.rows.blocks = index.bytes) ∧
    ∀ earlier entry, trace = earlier ++ [entry] →
      (entry.2.op = .commit ∧ (play geometry layout entry.1 entry.2).1.ok = true ∨
        (play geometry layout entry.1 entry.2).1.published = true) →
      index.isCommitted = true ∧ t.database.rows.blocks = index.bytes := by
  have sound := run_sound initial run
  have tracks := sound.tracks index found
  have clean : changedSince geometry layout trace = [] → t.database.rows.blocks = index.bytes := by
    intro none
    rw [none] at tracks
    exact tracks.same.symm
  refine ⟨Span.merge_separated (Span.sorted_pairwise _), tracks.covers, fun place apart => ?_, tracks.isCommitted,
    fun committed => clean (tracks.isCommitted.mp committed), fun earlier entry last ended => ?_⟩
  · refine (tracks.rest place fun block member holds => ?_).symm
    exact apart ((tracks.covers place).mpr ⟨block, member, holds⟩)
  · have none : changedSince geometry layout trace = [] := by
      cases run with
      | done => exact absurd last (by simp)
      | @snoc u v turn before earliest stepped =>
        obtain ⟨rfl, same⟩ := List.append_singleton_inj.mp last
        subst same
        rw [changedSince, List.foldl_append]
        rcases ended with ⟨commits, ok⟩ | published
        · exact play_commit (run_sound initial earliest) commits ok
        · exact if_pos (by rw [published, Bool.or_true])
    exact ⟨tracks.isCommitted.mpr none, clean none⟩

omit [Sha256] in
/-- A block is set, its commit stops at the `COMMIT`, and the block is set again. -/
theorem dirty_ranges_follow_failed_commit :
    let _ := CacheSteps.openssl
    let geometry : Geometry := ⟨5, minBlock, .inl rfl⟩
    ∃ (trace : List (Cache × Turn)) (t : Cache) (index : Index), t.resident = some index ∧
      changedSince geometry .blocks trace = [0, 0] ∧
      ∀ place, Span.Covered index.dirtyRanges.1 place ↔ ∃ block ∈ [0, 0], (entrySpan block).Holds place := by
  intro hash geometry
  let blank : Cache := ⟨⟨⟨(Index.fresh geometry).bytes, ∅⟩, none, 0⟩, none, []⟩
  let load : Turn := ⟨.load (some 1), []⟩
  let first : Turn := ⟨.set 0 0 [1, 2, 3, 4, 5], []⟩
  let fails : Turn := ⟨.commit, [⟨.pass, 0⟩, ⟨.pass, 0⟩, ⟨.pass, 0⟩, ⟨.pass, 0⟩, ⟨.fail, 0⟩]⟩
  let second : Turn := ⟨.set 0 0 [5, 4, 3, 2, 1], []⟩
  let loaded := (play geometry .blocks blank load).2
  let written := (play geometry .blocks loaded first).2
  let stopped := (play geometry .blocks written fails).2
  let again := (play geometry .blocks stopped second).2
  let trace := [(blank, load), (loaded, first), (written, fails), (stopped, second)]
  have one : Runs.Steps (Step geometry .blocks) blank ([] ++ [(blank, load)]) loaded :=
    .snoc (.done blank) ⟨trivial, rfl⟩
  have two := one.snoc (⟨rfl, rfl⟩ : Step geometry .blocks loaded first written)
  have three := two.snoc (⟨trivial, rfl⟩ : Step geometry .blocks written fails stopped)
  have run : Runs.Steps (Step geometry .blocks) blank trace again := three.snoc ⟨rfl, rfl⟩
  have changed : changedSince geometry .blocks trace = [0, 0] := by decide +kernel
  have shown : again.resident.isSome = true := by decide +kernel
  obtain ⟨index, found⟩ := Option.isSome_iff_exists.mp shown
  have initial : Initial geometry .blocks blank := ⟨rfl, rfl, fun _ _ segmented => Layout.noConfusion segmented⟩
  have ranges := dirty_ranges_follow_commits initial run found
  refine ⟨trace, again, index, found, changed, fun place => ?_⟩
  rw [ranges.2.1 place, changed]

end Qcm.IndexCommitProofs
