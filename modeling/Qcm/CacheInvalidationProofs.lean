import Qcm.CacheVersionProofs

/-!
What an invalidation marks stays marked, through any events and failures, but
for a version that is retired afterwards: that lowers its level, and it can be
read again.
-/

namespace Qcm.CacheInvalidationProofs

open Lib Lib.Act ResourceFormat CacheState CacheDisk CacheLoad CacheStore
  CacheEvents CacheRules CacheSettle CacheSound CacheChange CacheSteps CacheVersionProofs

/-- The version is in the tables at the level that an invalidation sets. -/
def Barred (s : Storage) (generation : String) : Prop :=
  ∃ id row, s.tables.versions.lookup id = some row ∧ row.generation = generation ∧ row.obsolete = 2

/-- The version is at that level wherever it is in the tables. -/
def Sunk (generation : String) (rows : Hash Nat VersionRow) : Prop :=
  ∀ id row, rows.lookup id = some row → row.generation = generation → row.obsolete = 2

/-- A row at that level stays there, when it is the one of the version. -/
structure Sinks (marked : String) (old row : VersionRow) : Prop where
  generation : row.generation = old.generation
  level : old.generation = marked → old.obsolete = 2 → row.obsolete = 2

/-- The step does not retire the version. -/
def Spares (generation : String) (s : Storage) (label : Event × List Chance) : Prop :=
  ∀ version ∈ s.handles, label.1 = .retire version.handle → version.metadata.generation ≠ generation

variable {generation : String}

theorem Sunk.succeeds {before after : Hash Nat VersionRow} (sunk : Sunk generation before)
    (succeeds : Succeeds (Sinks generation) before after) : Sunk generation after := by
  intro id row present same
  obtain ⟨old, stored, sinks⟩ := succeeds id row present
  have older := sinks.generation.symm.trans same
  exact sinks.level older (sunk id old stored older)

theorem sinks_of_head {old row : VersionRow} (same : headOf row = headOf old) : Sinks generation old row := by
  have equal := congrArg VersionRow.generation same
  have level := congrArg VersionRow.obsolete same
  exact ⟨equal, fun _ sunk => level.trans sunk⟩

theorem sinks_carried {event : Event} (keeps : ∀ handle, event ≠ .retire handle) : Carried event (Sinks generation) where
  same := sinks_of_head
  used _ _ := ⟨rfl, fun _ => id⟩
  refreshed _ _ _ := ⟨rfl, fun _ => id⟩
  condemned _ := ⟨rfl, fun _ _ => rfl⟩
  retired asked := absurd asked (keeps _)

variable {s t : Storage} {tape : List Chance}

theorem Sunk.inserts {start : Storage} (sunk : Sunk generation s.tables.versions) (given : generation ∈ start.issued)
    (inserts : Inserts start s t) : Sunk generation t.tables.versions := by
  obtain ⟨metadata, time, fresh, inserted⟩ := inserts
  intro id row present same
  rcases inserted_row inserted present with ⟨-, -, new⟩ | ⟨old, stored, ⟨live, rfl⟩ | ⟨-, rfl⟩⟩
  · rw [← new, same] at fresh
    exact absurd given fresh
  · rw [sunk id old stored same] at live
    cases live
  · exact sunk id row stored same

variable [Sha256]

theorem issued_kept (event : Event) (start : Storage) : Kept event start fun s => Sound s ∧ generation ∈ s.issued :=
  ⟨fun s t holds change => ⟨.change s t holds.1 change, change_issued change holds.2⟩, fun _ holds => holds.1⟩

theorem issued_lasting : Lasting fun s => Sound s ∧ generation ∈ s.issued where
  sound s holds := holds.1
  change event start := (issued_kept event start).closed
  writes := (issued_kept .usage Storage.fresh).writeData fun s t holds put => ⟨.put s t holds.1 put, by
    cases put
    exact holds.2⟩
  work s t holds work := ⟨.work s t holds.1 work, by
    cases work <;> exact holds.2⟩
  configure event s t holds configure := ⟨.configure s t holds.1 configure, by
    cases configure
    exact holds.2⟩
  restart s holds := ⟨holds.1.restart, holds.2⟩

theorem Sunk.retire {handle : Nat} (sound : Sound s) (sunk : Sunk generation s.tables.versions)
    (spares : Spares generation s (.retire handle, tape)) :
    Sunk generation (perform (.retire handle) tape s).tables.versions := by
  let Begun : Storage → Prop := fun t => t.tables = s.tables ∧ t.handles = s.handles
  let Ended : Storage → Prop := fun t => Sunk generation t.tables.versions
  have begins : ∀ t, Begun t → Ended t := fun t same => by
    change Sunk generation t.tables.versions
    rw [same.1]
    exact sunk
  have retires : ∀ version : Version, version.handle = handle →
      Triple (fun t => Begun t ∧ version ∈ t.handles) (CacheStore.retire version.id) (fun _ => Ended) Ended := by
    intro version asked
    have ticks : Closed Tick fun t => Begun t ∧ version ∈ t.handles := by
      rintro t _ holds ⟨⟩
      exact holds
    have after : Closed Tick Ended := by
      rintro t _ holds ⟨⟩
      exact holds
    refine (execute_triple ticks after fun t holds => ?_).otherwise fun t holds => begins t holds.1
    obtain ⟨⟨tables, handles⟩, member⟩ := holds
    rw [handles] at member
    have other := spares version member (by rw [asked])
    obtain ⟨held, stored, -, named⟩ := sound.heldRow member
    have recast : Recast (Sinks generation) t.tables.versions (changeVersion version.id (setObsolete 1) t.tables).versions := by
      refine recast_changeVersion (fun row => ⟨rfl, fun _ => id⟩) fun row present => ⟨rfl, fun same => ?_⟩
      rw [tables, stored] at present
      cases present
      exact absurd (named.symm.trans same) other
    exact (begins t ⟨tables, handles⟩).succeeds fun id row present => recast.back present
  have ran : Triple Begun (withHandle handle fun version => CacheStore.retire version.id) (fun _ => Ended) Ended :=
    withHandle_triple retires begins
  have ended := ran { s with tape := tape } ⟨rfl, rfl⟩
  change Sunk generation (if s.running then _ else s).tables.versions
  split
  · revert ended
    change Outcome.Meets _ _ (Event.action (.retire handle) { s with tape := tape }).1
      (Event.action (.retire handle) { s with tape := tape }).2 → _
    cases Event.action (.retire handle) { s with tape := tape } with
    | mk outcome t => cases outcome <;> exact id
  · exact sunk

/-- What is kept of a version from its invalidation on. -/
structure Down (generation : String) (s : Storage) : Prop where
  sound : Sound s
  given : generation ∈ s.issued
  sunk : Sunk generation s.tables.versions

theorem Down.step {label : Event × List Chance} (down : Down generation s)
    (spares : Spares generation s label) (stepped : Step s label t) : Down generation t := by
  obtain ⟨sound, given⟩ := issued_lasting.step ⟨down.sound, down.given⟩ stepped
  refine ⟨sound, given, ?_⟩
  obtain ⟨event, tape⟩ := label
  cases stepped
  by_cases retires : ∃ handle, event = .retire handle
  · obtain ⟨handle, rfl⟩ := retires
    exact down.sunk.retire down.sound spares
  · have carried : Carried event (Sinks generation) := sinks_carried fun handle same => retires ⟨handle, same⟩
    exact carried.perform (P := fun t => Sunk generation t.tables.versions) down.sound tape Sunk.succeeds
      (fun sunk inserts => sunk.inserts down.given inserts) down.sunk

section Uses

variable {id : Nat} {α : Type} {rest : PUnit → Io α}

omit [Sha256] in
theorem checkActive_fails (id : Nat) (rest : PUnit → Io α) :
    Triple (fun s => ∀ row, s.tables.versions.lookup id = some row → row.obsolete = 2) (checkActive id >>= rest)
      (fun _ _ => False) fun _ => True := by
  have ticks : Closed Tick fun s => ∀ row, s.tables.versions.lookup id = some row → row.obsolete = 2 := by
    rintro s _ holds ⟨⟩
    exact holds
  refine Triple.bind (Q := fun _ _ => False) ?_ fun _ _ => False.elim
  refine .bind ((query_triple ticks).otherwise fun _ _ => trivial) fun found => ?_
  refine .ensure (fun active s holds => ?_) fun _ _ _ => trivial
  obtain ⟨sunk, rfl⟩ := holds
  obtain ⟨row, present, level⟩ := (Option.any_eq_true ..).mp active
  exact absurd (sunk row present) (of_decide_eq_true level)

omit [Sha256] in
theorem Down.refuses (down : Down generation s) {version : Version} (member : version ∈ s.handles)
    (same : version.metadata.generation = generation) {value : α} : ((checkActive version.id >>= rest) { s with tape := tape }).1 ≠ .ok value := by
  obtain ⟨row, stored, -, named⟩ := down.sound.heldRow member
  have ended := checkActive_fails version.id rest { s with tape := tape } fun other present =>
    down.sunk version.id other present (by
      rw [stored] at present
      cases present
      exact named.trans same)
  intro returned
  rw [returned] at ended
  exact ended

end Uses

/-- The version keeps its level, no block of it is read or written, no window is opened on it, and no lookup
finds it. -/
structure Final (generation : String) (s : Storage) : Prop where
  level : Sunk generation s.tables.versions
  read : ∀ version ∈ s.handles, version.metadata.generation = generation → ∀ (block : Nat) (tape : List Chance) data,
    (CacheStore.read version.id block { s with tape := tape }).1 ≠ .ok data
  write : ∀ version ∈ s.handles, version.metadata.generation = generation →
    ∀ (blocks : List (Nat × List UInt8)) (tape : List Chance) done,
      (CacheStore.write version.id blocks { s with tape := tape }).1 ≠ .ok done
  window : ∀ version ∈ s.handles, version.metadata.generation = generation → ∀ (range : ByteRange) (tape : List Chance) pins,
    (CacheStore.window version.id range { s with tape := tape }).1 ≠ .ok pins
  lookup : ∀ (key : String) (tape : List Chance) version,
    (CacheStore.lookup key { s with tape := tape }).1 = .ok (some version) → version.metadata.generation ≠ generation

theorem Down.final (down : Down generation s) : Final generation s where
  level := down.sunk
  read version member same block tape data := down.refuses member same
  write version member same blocks tape done := down.refuses member same
  window version member same range tape pins := down.refuses member same
  lookup key tape version returned same := by
    have retaped : Sound { s with tape := tape } :=
      Sound.tick s _ down.sound (.pass _ _ _ _ _ _ le_rfl le_rfl)
    have listed := lookup_triple (s := s) key { s with tape := tape } ⟨retaped, rfl⟩
    rw [returned] at listed
    obtain ⟨row, stored, -, live, equal⟩ := listed version rfl
    rw [down.sunk version.id row stored (equal.trans same)] at live
    cases live

/-- From the invalidation of a version on, in every run in which the version is not retired, through any
failures, crashes and reopenings, it keeps its level and cannot be used. -/
theorem invalidation_is_final {s t : Storage} (reached : Reachable s) (barred : Barred s generation)
    (run : Runs.Reach (fun u => u = s) (Spares generation) Step t) : Final generation t := by
  obtain ⟨id, row, present, same, level⟩ := barred
  have sound := reached.sound
  have down : Down generation s := by
    refine ⟨sound, same ▸ (sound.rows.each id row present).issued, fun other twin stored named => ?_⟩
    have one := sound.rows.unique id other row twin present stored (same.trans named.symm)
    rw [← one, present] at stored
    cases stored
    exact level
  have kept : Down generation t := run.invariant (fun u begun => begun ▸ down) fun u label v holds spares stepped =>
    holds.step spares stepped
  exact kept.final

/-- A cache that holds a track whose provider was invalidated. -/
def invalidated : Storage :=
  perform (.invalidate track.provider) [] (perform (.create track) [] (perform (.launch defaultCapacity) [] Storage.fresh))

theorem invalidated_reachable : Reachable invalidated :=
  ((Reachable.fresh.perform (.launch defaultCapacity) []).perform (.create track) []).perform (.invalidate track.provider) []

omit [Sha256] in
theorem invalidated_barred : Barred (@invalidated openssl) track.generation := by
  have marked : ((@invalidated openssl).tables.versions.lookup 1).any
      (fun row => decide (row.generation = track.generation ∧ row.obsolete = 2)) = true := by decide +kernel
  obtain ⟨row, present, holds⟩ := (Option.any_eq_true ..).mp marked
  exact ⟨1, row, present, of_decide_eq_true holds⟩

omit [Sha256] in
theorem invalidation_is_final_for_a_track :
    let _ := openssl
    Final track.generation (perform (.read 1 0) [] invalidated) := by
  intro _
  refine invalidation_is_final (s := invalidated) invalidated_reachable invalidated_barred ?_
  exact Runs.Reach.next (a := (.read 1 0, [])) (.start rfl) (fun version _ retired => nomatch retired) rfl

omit [Sha256] in
/-- A version that is retired after its invalidation is at the lower level. -/
theorem retired_after_invalidation :
    let _ := openssl
    ¬ ∀ s t generation, Reachable s → Barred s generation → Runs.Reach (fun u => u = s) (fun _ _ => True) Step t →
      Final generation t := by
  intro _ claimed
  let retired := perform (.retire 1) [] invalidated
  have run : Runs.Reach (fun u => u = invalidated) (fun _ _ => True) Step retired :=
    Runs.Reach.next (a := (.retire 1, [])) (.start rfl) trivial rfl
  have final := claimed invalidated retired track.generation invalidated_reachable invalidated_barred run
  have lowered : (retired.tables.versions.lookup 1).any
      (fun row => decide (row.generation = track.generation ∧ row.obsolete = 1)) = true := by decide +kernel
  obtain ⟨row, present, holds⟩ := (Option.any_eq_true ..).mp lowered
  obtain ⟨same, level⟩ := of_decide_eq_true holds
  have sunk := final.level 1 row present same
  rw [level] at sunk
  cases sunk

/-- What a caller holds: the version in memory under its lease, and its row, with the metadata it was given. -/
structure InUse (s : Storage) (held : Version) : Prop where
  resident : ∃ value, s.versions.lookup held.id = some value ∧ value.lease = some held.lease ∧
    core value.metadata = core held.metadata
  row : ∃ row, s.tables.versions.lookup held.id = some row ∧ core row.metadata = core held.metadata

/-- A version that is held is not taken away, whatever is evicted, retired, invalidated, damaged or cut off. -/
theorem held_versions_are_kept (reached : Reachable s) : ∀ held ∈ s.handles, InUse s held := by
  intro held member
  obtain ⟨value, found, lease, same⟩ := reached.sound.held.residents held member
  obtain ⟨row, stored, alike, -⟩ := reached.sound.residents held.id value found
  exact ⟨⟨value, found, lease, same⟩, row, stored, alike.symm.trans same⟩

omit [Sha256] in
theorem invalidated_version_is_kept : let _ := openssl; ∀ held ∈ invalidated.handles, InUse invalidated held := by
  intro _
  exact held_versions_are_kept invalidated_reachable

end Qcm.CacheInvalidationProofs
