import Qcm.CacheEvents

/-!
What each call to the surroundings does to the state, as rules for invariants.
`Tick` is what every call may do: take answers, let time pass, use up numbers.
`Discard` is what removing a managed file does, for a reason that the caller
gives.
-/

namespace Qcm.CacheRules

open Lib Lib.Act CacheState CacheDisk

/-- Answers are taken, and the database files change size. -/
inductive Spend : Storage → Storage → Prop where
  | spend (s : Storage) (tape : List Chance) (bytes : Nat) : Spend s { s with tape := tape, databaseBytes := bytes }

/-- Answers are taken, the database files change size, clocks and counters go on. -/
inductive Tick : Storage → Storage → Prop where
  | pass (s : Storage) (tape : List Chance) (bytes instant clock serial : Nat) (later : s.instant ≤ instant)
      (more : s.serial ≤ serial) :
      Tick s { s with
        tape := tape
        databaseBytes := bytes
        instant := instant
        segmentClock := clock
        serial := serial }

/-- An invariant that a kind of change keeps. -/
def Closed (change : Storage → Storage → Prop) (I : Storage → Prop) : Prop := ∀ s t, I s → change s t → I t

variable {change other : Storage → Storage → Prop} {I P : Storage → Prop}

variable {Q E : Storage → Prop} {name : FileName} {offset : Nat}

theorem Closed.and (first : Closed change I) (second : Closed change P) : Closed change fun s => I s ∧ P s :=
  fun s t holds changed => ⟨first s t holds.1 changed, second s t holds.2 changed⟩

theorem Closed.mono (closed : Closed change I) (sub : ∀ s t, other s t → change s t) : Closed other I :=
  fun s t holds changed => closed s t holds (sub s t changed)

/-- What a tick does not read holds after it. -/
theorem Tick.beside (ticks : Closed Tick I) (blind : ∀ {s : Storage} {tape : List Chance} {bytes instant clock serial : Nat},
      P s → P { s with
        tape := tape
        databaseBytes := bytes
        instant := instant
        segmentClock := clock
        serial := serial }) : Closed Tick fun s => I s ∧ P s := by
  refine ticks.and ?_
  rintro s _ holds ⟨⟩
  exact blind holds

theorem Tick.spends (ticks : Closed Tick I) : Closed Spend I := by
  refine ticks.mono fun s t spend => ?_
  cases spend
  exact .pass _ _ _ _ _ _ le_rfl le_rfl

theorem chance_spend (spends : Closed Spend I) : Triple I chance (fun _ => I) fun _ => False := by
  intro s holds
  unfold chance
  split
  · exact holds
  · rename_i answer rest _
    exact spends s { s with tape := rest } holds (.spend _ _ _)

theorem chance_triple (ticks : Closed Tick I) : Triple I chance (fun _ => I) fun _ => False :=
  chance_spend (Tick.spends ticks)

theorem chance_keeps (ticks : Closed Tick I) : Keeps I chance :=
  (chance_triple ticks).otherwise fun _ => False.elim

variable {error : Failure} {α : Type} {value : Except Failure α} {select : Tables → α}
variable {change : Tables → Tables} {count : Nat}

theorem trial_spend (spends : Closed Spend I) : Keeps I (trial error) := by
  refine Keeps.bind ((chance_spend spends).otherwise fun _ => False.elim) fun answer => ?_
  cases answer.verdict with
  | pass => exact .pure
  | fail => exact .fail
  | crash => exact .crash

theorem trial_keeps (ticks : Closed Tick I) : Keeps I (trial error) := trial_spend (Tick.spends ticks)

theorem liftExcept_keeps : Keeps I (liftExcept value) := by
  cases value with
  | ok found => exact .pure
  | error error => exact .fail

theorem liftExcept_triple {Q : α → Storage → Prop}
    (passes : ∀ found, value = .ok found → ∀ s, P s → Q found s) (stops : ∀ s, P s → E s) :
    Triple P (liftExcept value) Q E := by
  cases value with
  | ok found => exact .pure (passes found rfl)
  | error error => exact .fail stops

/-- A query reads the tables as they are after it. -/
theorem query_triple (ticks : Closed Tick I) :
    Triple I (query select) (fun value s => I s ∧ value = select s.tables) I := by
  refine .bind (trial_keeps ticks) fun _ => ?_
  refine .bindState fun found => ?_
  exact Triple.pure fun s ⟨holds, same⟩ => ⟨holds, by rw [same]⟩

theorem query_keeps (ticks : Closed Tick I) : Keeps I (query select) :=
  (query_triple ticks).after (fun _ _ holds => holds.1)

/-- A statement changes the tables, or nothing; no time passes in it. -/
theorem statement_spend (spends : Closed Spend I) {change : Tables → Option Tables} (after : Closed Spend Q)
    (keep : ∀ s tables, I s → change s.tables = some tables → Q { s with tables := tables }) :
    Triple I (statement change) (fun _ => Q) I := by
  refine .bind (trial_spend spends) fun bytes => .bindState fun found => ?_
  refine .bind (Q := fun tables s => I s ∧ change s.tables = some tables)
    (.require ?_ fun _ s holds => holds.1) fun tables => ?_
  · rintro tables changed s ⟨holds, rfl⟩
    exact ⟨holds, changed⟩
  · refine .update fun s ⟨holds, changed⟩ => ?_
    exact after { s with tables := tables } _ (keep s tables holds changed) (.spend _ _ _)

theorem statement_triple (ticks : Closed Tick I) {change : Tables → Option Tables} (after : Closed Tick Q)
    (keep : ∀ s tables, I s → change s.tables = some tables → Q { s with tables := tables }) :
    Triple I (statement change) (fun _ => Q) I := statement_spend (Tick.spends ticks) (Tick.spends after) keep

theorem execute_spend (spends : Closed Spend I) (after : Closed Spend Q) (keep : ∀ s, I s → Q { s with tables := change s.tables }) : Triple I (execute change) (fun _ => Q) I := by
  refine statement_spend spends after fun s tables holds changed => ?_
  cases changed
  exact keep s holds

theorem execute_triple (ticks : Closed Tick I) (after : Closed Tick Q) (keep : ∀ s, I s → Q { s with tables := change s.tables }) : Triple I (execute change) (fun _ => Q) I :=
  execute_spend (Tick.spends ticks) (Tick.spends after) keep

theorem execute_keeps (ticks : Closed Tick I) (keep : ∀ s, I s → I { s with tables := change s.tables }) : Keeps I (execute change) :=
  execute_triple ticks ticks keep

/-- The statements of a transaction, one after the other. -/
def runAll : List (Tables → Option Tables) → Tables → Option Tables
  | [], tables => some tables
  | first :: rest, tables => (first tables).bind (runAll rest)

section

variable (ticks : Closed Tick I)
include ticks

theorem runStatements_triple (statements : List (Tables → Option Tables)) {before : Tables} :
    Triple I (runStatements statements before) (fun tables s => I s ∧ runAll statements before = some tables) I := by
  induction statements generalizing before with
  | nil => exact .pure fun s holds => ⟨holds, rfl⟩
  | cons first rest ih =>
    refine .bind (trial_keeps ticks) fun _ => ?_
    refine .bind (Q := fun next s => I s ∧ first before = some next)
      (.require (fun next found s holds => ⟨holds, found⟩) fun _ s => id) fun next => ?_
    refine .pointwise fun start begun => ?_
    refine ih.weaken (fun s same => same ▸ begun.1) (fun tables s ran => ⟨ran.1, ?_⟩) fun _ => id
    rw [runAll, begun.2]
    exact ran.2

theorem transaction_triple {statements : List (Tables → Option Tables)} (after : Closed Tick Q)
    (keep : ∀ s tables, I s → runAll statements s.tables = some tables → Q { s with tables := tables }) :
    Triple I (transaction statements) (fun _ => Q) I := by
  refine .bind (trial_keeps ticks) fun _ => ?_
  refine .bindState fun found => ?_
  have same : Closed Tick fun s : Storage => s.tables = found.tables := by
    intro s t holds tick
    cases tick
    exact holds
  refine .bind (Q := fun tables s => (I s ∧ s.tables = found.tables) ∧ runAll statements found.tables = some tables)
    ((runStatements_triple (ticks.and same) statements).weaken (fun s start => ⟨start.1, by rw [start.2]⟩)
      (fun _ _ => id) fun s holds => holds.1) fun tables => ?_
  have ran : Closed Tick fun s => (I s ∧ s.tables = found.tables) ∧ runAll statements found.tables = some tables :=
    fun s t holds tick => ⟨(ticks.and same) s t holds.1 tick, holds.2⟩
  refine .bind ((trial_keeps ran).otherwise fun s holds => holds.1.1) fun bytes => ?_
  refine .update fun s holds => ?_
  refine after { s with tables := tables } _ (keep s tables holds.1.1 ?_) (.pass _ _ _ _ _ _ le_rfl le_rfl)
  rw [holds.1.2]
  exact holds.2

theorem now_keeps : Keeps I now :=
  Keeps.bind (chance_keeps ticks) fun _ => .pure

/-- A reading of the monotonic clock is the time it leaves. -/
theorem instantNow_triple : Triple I instantNow (fun instant s => I s ∧ instant = s.instant) I := by
  refine .bind (chance_keeps ticks) fun answer => ?_
  refine .bind (Q := fun _ => I) (.update fun s holds => ?_) fun _ => ?_
  · exact ticks s _ holds (.pass _ _ _ _ _ _ (Nat.le_add_right ..) le_rfl)
  · refine .bindState fun found => ?_
    exact Triple.pure fun s ⟨holds, same⟩ => ⟨holds, by rw [same]⟩

theorem instantNow_keeps : Keeps I instantNow :=
  (instantNow_triple ticks).after (fun _ _ holds => holds.1)

theorem nextSerial_triple : Triple I nextSerial (fun number s => I s ∧ number < s.serial) I := by
  refine .bindState fun found => ?_
  refine .bind (Q := fun _ s => I s ∧ found.serial < s.serial) (.update fun s ⟨holds, same⟩ => ?_)
    fun _ => .pure fun _ => id
  refine ⟨ticks s _ holds (.pass _ _ _ _ _ _ le_rfl (Nat.le_succ _)), ?_⟩
  rw [same]
  exact Nat.lt_succ_self _

theorem nextSerial_keeps : Keeps I nextSerial :=
  (nextSerial_triple ticks).after (fun _ _ holds => holds.1)

theorem segmentTick_keeps : Keeps I segmentTick := by
  refine .bind (now_keeps ticks) fun micros => ?_
  refine .bind (.update fun s holds => ?_) fun _ => .bind Keeps.state fun _ => .pure
  exact ticks s _ holds (.pass _ _ _ _ _ _ le_rfl le_rfl)

/-! ## Files -/

theorem disk_keeps : Keeps I disk :=
  Keeps.bind (trial_keeps ticks) fun _ => .pure

theorem fileAt_triple : Triple I (fileAt name) (fun file s => I s ∧ s.files.lookup name = some file) I := by
  refine .bind (disk_keeps ticks) fun _ => ?_
  refine .bindState fun found => ?_
  refine Triple.require (fun file present s ⟨holds, same⟩ => ⟨holds, by rw [same, present]⟩) fun _ s holds => holds.1

theorem fileAt_keeps : Keeps I (fileAt name) :=
  (fileAt_triple ticks).after (fun _ _ holds => holds.1)

theorem regularFile_keeps : Keeps I (regularFile name) :=
  Keeps.bind (fileAt_keeps ticks) fun _ => .pure

theorem fileLength_triple :
    Triple I (fileLength name) (fun length s => I s ∧ ∃ file, s.files.lookup name = some file ∧ file.length = length) I :=
  Triple.bind (fileAt_triple ticks) fun file => .pure fun _ holds => ⟨holds.1, file, holds.2, rfl⟩

theorem fileLength_keeps : Keeps I (fileLength name) :=
  (fileLength_triple ticks).after (fun _ _ holds => holds.1)

theorem readExact_keeps : Keeps I (readExact name offset count) :=
  Keeps.bind (fileAt_keeps ticks) fun _ => .require

theorem allocated_triple : Triple I (allocated name) (fun _ s => I s ∧ (s.files.lookup name).isSome) I := by
  refine .bind (trial_keeps ticks) fun bytes => ?_
  refine .bindState fun found => ?_
  refine .bind (Q := fun _ s => I s ∧ (s.files.lookup name).isSome)
    (Triple.require (fun file present s ⟨holds, same⟩ => ⟨holds, by simp [same, present]⟩) fun _ s holds => holds.1)
    fun _ => .pure fun _ => id

theorem allocated_keeps : Keeps I (allocated name) :=
  (allocated_triple ticks).after (fun _ _ holds => holds.1)

theorem recordSize_keeps {kind : Int}
    (keep : ∀ s bytes, I s → (s.files.lookup name).isSome → I { s with sizes := s.sizes.insert name (bytes, kind) }) :
    Keeps I (recordSize name kind) :=
  Triple.bind (allocated_triple ticks) fun bytes => .update fun s holds => keep s bytes holds.1 holds.2

theorem createNew_triple
    (keep : ∀ s, I s → s.files.lookup name = none → Q { s with files := s.files.insert name Contents.empty }) :
    Triple I (createNew name) (fun _ => Q) I := by
  refine .bind (disk_keeps ticks) fun _ => ?_
  refine .bindState fun found => ?_
  refine .bind (Q := fun _ s => I s ∧ s.files.lookup name = none)
    (.ensure (fun absent s holds => ⟨holds.1, ?_⟩) fun _ s holds => holds.1) fun _ => ?_
  · rw [holds.2]
    exact Option.isNone_iff_eq_none.mp absent
  · exact .update fun s holds => keep s holds.1 holds.2

theorem createNew_keeps
    (keep : ∀ s, I s → s.files.lookup name = none → I { s with files := s.files.insert name Contents.empty }) :
    Keeps I (createNew name) := createNew_triple ticks keep

/-- A write has put in all of its bytes, or a first part of them. -/
theorem writeAll_triple {data : List UInt8}
    (whole : ∀ s, I s → Q (onFile name (fun file => file.write offset data) s))
    (part : ∀ s count, I s → E (onFile name (fun file => file.write offset (data.take count)) s)) :
    Triple I (writeAll name offset data) (fun _ => Q) E := by
  refine Triple.bind ((chance_triple ticks).otherwise fun _ => False.elim) fun answer => ?_
  cases answer.verdict with
  | pass => exact .update whole
  | fail =>
    exact .bind (Q := fun _ => E) (.update fun s => part s answer.amount) fun _ => .fail fun _ => id
  | crash =>
    exact .bind (Q := fun _ => E) (.update fun s => part s answer.amount) fun _ => .crash fun _ => id

theorem writeZeros_triple (whole : ∀ s, I s → Q (onFile name (fun file => file.writeZeros offset count) s))
    (part : ∀ s done, I s → E (onFile name (fun file => file.writeZeros offset done) s)) :
    Triple I (writeZeros name offset count) (fun _ => Q) E := by
  refine Triple.bind ((chance_triple ticks).otherwise fun _ => False.elim) fun answer => ?_
  cases answer.verdict with
  | pass => exact .update whole
  | fail =>
    exact .bind (Q := fun _ => E) (.update fun s => part s _) fun _ => .fail fun _ => id
  | crash =>
    exact .bind (Q := fun _ => E) (.update fun s => part s _) fun _ => .crash fun _ => id

theorem setLength_triple {length : Nat}
    (keep : ∀ s, I s → Q (onFile name (fun file => file.setLength length) s)) :
    Triple I (setLength name length) (fun _ => Q) I :=
  Triple.bind (disk_keeps ticks) fun _ => .update keep

theorem rename_triple {source target : FileName}
    (keep : ∀ s file, I s → s.files.lookup source = some file → Q { s with files := (s.files.erase source).insert target file }) :
    Triple I (rename source target) (fun _ => Q) I := by
  refine .bind (disk_keeps ticks) fun _ => ?_
  refine .bindState fun found => ?_
  refine .bind (Q := fun file s => I s ∧ s.files.lookup source = some file)
    (Triple.require (fun file present s ⟨holds, same⟩ => ⟨holds, by rw [same, present]⟩) fun _ s holds => holds.1)
    fun file => ?_
  exact .update fun s holds => keep s file holds.1 holds.2

end

/-- What removing a managed file does, in the order it does it; `why` holds throughout. -/
inductive Discard (why : Storage → FileName → Prop) : Storage → Storage → Prop where
  | unlink {s : Storage} {name : FileName} (reason : why s name) :
      Discard why s { s with files := s.files.erase name }
  | litter {s : Storage} {name : FileName} (reason : why s name) :
      Discard why s { s with garbage := s.garbage.insert name () }
  | forget {s : Storage} {name : FileName} (reason : why s name) (gone : s.files.lookup name = none) :
      Discard why s { s with garbage := s.garbage.erase name, sizes := s.sizes.erase name }

/-- A removal goes through `B` to `Q` with the file gone, or to `E` with it noted as garbage. -/
theorem removeManaged_triple {B : Storage → Prop} (ticks : Closed Tick B)
    (unlink : ∀ s, B s → B { s with files := s.files.erase name })
    (forget : ∀ s, B s → s.files.lookup name = none →
      Q { s with garbage := s.garbage.erase name, sizes := s.sizes.erase name })
    (litter : ∀ s, B s → E { s with garbage := s.garbage.insert name () }) (otherwise : ∀ s, B s → E s) :
    Triple B (removeManaged name) (fun _ => Q) E := by
  refine .bind (Q := fun _ => B) (.ensure (fun _ _ => id) fun _ => otherwise) fun _ => ?_
  refine .bind (Q := fun removed s => B s ∧ (removed.isOk → s.files.lookup name = none)) ?_ fun removed => ?_
  · have gone : Closed Tick fun s => B s ∧ s.files.lookup name = none := by
      refine ticks.and fun s t absent tick => ?_
      cases tick
      exact absent
    refine .attempt (F := B) ?_ (fun error s holds => ⟨holds, nofun⟩) otherwise
    refine .bind (Q := fun _ s => B s ∧ s.files.lookup name = none) ?_ fun _ => ?_
    · refine .bind (disk_keeps ticks) fun _ => .update fun s holds => ?_
      exact ⟨unlink s holds, AList.lookup_erase ..⟩
    · exact (disk_keeps gone).weaken (fun _ => id) (fun _ _ holds => ⟨holds.1, fun _ => holds.2⟩) fun _ holds => holds.1
  · cases removed with
    | error error =>
      exact .bind (Q := fun _ => E) (.update fun s holds => litter s holds.1) fun _ => .fail fun _ => id
    | ok done => exact .update fun s holds => forget s holds.1 (holds.2 rfl)

theorem removeManaged_keeps (ticks : Closed Tick I) {why : Storage → FileName → Prop}
    (closed : Closed (Discard why) I) (reason : ∀ s, I s → why s name) : Keeps I (removeManaged name) :=
  removeManaged_triple ticks (fun s holds => closed s _ holds (.unlink (reason s holds)))
    (fun s holds gone => closed s _ holds (.forget (reason s holds) gone))
    (fun s holds => closed s _ holds (.litter (reason s holds))) fun _ => id

theorem usage_keeps (ticks : Closed Tick I) : Keeps I usage :=
  Keeps.bind (disk_keeps ticks) fun _ => .bind Keeps.state fun _ => .pure

theorem cleanupGarbage_keeps (ticks : Closed Tick I)
    (closed : Closed (Discard fun s name => (s.garbage.lookup name).isSome) I) : Keeps I cleanupGarbage := by
  refine .bind (chance_keeps ticks) fun answer => ?_
  refine .bindState fun found => ?_
  -- a name is garbage until its own turn, because the names are distinct
  refine .bind (.weaken (.loopRest (J := fun names _ s => I s ∧ names.Nodup ∧
      ∀ name ∈ names, (s.garbage.lookup name).isSome) ?_) ?_ (fun _ s holds => holds.1) fun _ => id)
    fun _ => Keeps.pure
  · intro name others carried
    refine .bind (Q := fun _ s => I s ∧ others.Nodup ∧ ∀ other ∈ others, (s.garbage.lookup other).isSome) ?_
      fun _ => .pure fun _ => id
    refine .attempt (removeManaged_triple (Q := fun s => I s ∧ others.Nodup ∧
      ∀ other ∈ others, (s.garbage.lookup other).isSome) ?_ ?_ ?_ ?_ ?_) (fun _ _ => id) fun s holds => holds.1
    · refine ticks.and fun s t holds tick => ?_
      cases tick
      exact holds
    · exact fun s holds => ⟨closed s _ holds.1 (.unlink (holds.2.2 name (by simp))), holds.2⟩
    · intro s ⟨holds, distinct, listed⟩ gone
      have apart := List.nodup_cons.mp distinct
      refine ⟨closed s _ holds (.forget (listed name (by simp)) gone), apart.2, fun other member => ?_⟩
      have same := listed other (by simp [member])
      rw [Hash.lookup_erase, if_neg fun equal : other = name => apart.1 (equal ▸ member)]
      exact same
    · intro s ⟨holds, distinct, listed⟩
      refine ⟨closed s _ holds (.litter (listed name (by simp))), (List.nodup_cons.mp distinct).2, fun other member => ?_⟩
      rw [Hash.lookup_insert]
      split
      · rfl
      · exact listed other (by simp [member])
    · exact fun s ⟨holds, distinct, listed⟩ =>
        ⟨holds, (List.nodup_cons.mp distinct).2, fun other member => listed other (by simp [member])⟩
  · rintro s ⟨holds, rfl⟩
    refine ⟨holds, (List.nodup_rotate.mpr s.garbage.keys_nodup).sublist (List.take_sublist ..), fun name member => ?_⟩
    have inside := List.mem_rotate.mp (List.mem_of_mem_take member)
    exact AList.lookup_isSome.mpr inside

end Qcm.CacheRules
