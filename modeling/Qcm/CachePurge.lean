import Qcm.CacheSettle

/-!
What eviction goes through: leases expire, versions that nothing holds are taken
out with their files, packs are deleted.  `Purge` lists the changes; each
deletion carries what the code has checked, in the state it happens in.
-/

namespace Qcm.CachePurge

open Lib Lib.Act ResourceFormat CacheState CacheDisk CacheLoad CacheStore
  CacheRules CacheSettle

/-- Nothing holds the version: no pin of a segment, no handle, no lease of its file. -/
structure Unheld (s : Storage) (id : Nat) : Prop where
  pins : s.versionPinned id = false
  handles : s.leased id = false
  leases : ∀ token lease, s.tables.fileLeases.lookup token = some lease → lease.version ≠ id

/-- A file of a version that is being deleted. -/
def Deleted (s : Storage) (name : FileName) : Prop :=
  ∃ id row, s.tables.versions.lookup id = some row ∧ row.obsolete = 2 ∧ name ∈ versionFiles row.generation ∧
    Unheld s id ∧ s.versions.lookup id = none

/-- The file of a pack whose row is marked or gone. -/
def PackGone (s : Storage) (name : FileName) : Prop :=
  ∃ token, name = .pack token ∧ ∀ row, s.tables.packs.lookup token = some row → row.deleting = true

/-- What looking for leases that are due does. -/
inductive Expire : Storage → Storage → Prop where
  | tick {s t : Storage} (tick : Tick s t) : Expire s t
  | doubt {s : Storage} {uncertain : Bool} : Expire s { s with clockUncertain := uncertain }
  | due {s : Storage} (certain : s.clockUncertain = false)
      (grace : ∀ till, s.restartGrace = some till → till ≤ s.instant) :
      Expire s { s with tables := deleteExpired (s.clock + (s.instant - s.started) / nanos) s.tables }

/-- What deleting versions and segments does. -/
inductive Purge (may : Storage → Nat → Nat → Prop) : Storage → Storage → Prop where
  | settle {s t : Storage} (settle : Settle may s t) : Purge may s t
  | expire {s t : Storage} (expire : Expire s t) : Purge may s t
  | obsolete {s : Storage} {id : Nat} (unheld : Unheld s id) :
      Purge may s { s with tables := changeVersion id (setObsolete 2) s.tables }
  | release {s : Storage} {id : Nat} (unheld : Unheld s id) :
      Purge may s { s with versions := s.versions.erase id }
  | discard {s t : Storage} (discard : Discard Deleted s t) : Purge may s t
  | deleteRows {s : Storage} {id : Nat} (unheld : Unheld s id) (gone : s.versions.lookup id = none) :
      Purge may s { s with
        tables := deleteVersionRow id (deleteLeaseRows id (deleteCompleteRow id (deleteSegmentRows id s.tables))) }

/-- What deleting packs does. -/
inductive Unpack : Storage → Storage → Prop where
  | tick {s t : Storage} (tick : Tick s t) : Unpack s t
  | condemn {s : Storage} {token : Token} :
      Unpack s { s with tables := markPackDeleting token (deleteObjectsOf token s.tables) }
  | discard {s t : Storage} (discard : Discard PackGone s t) : Unpack s t
  | dropRow {s : Storage} {token : Token} (marked : ∀ row, s.tables.packs.lookup token = some row → row.deleting = true) :
      Unpack s { s with tables := deletePackRow token s.tables }

/-- What eviction does. -/
inductive Evict (may : Storage → Nat → Nat → Prop) : Storage → Storage → Prop where
  | purge {s t : Storage} (purge : Purge may s t) : Evict may s t
  | unpack {s t : Storage} (unpack : Unpack s t) : Evict may s t

variable {I : Storage → Prop} {may : Storage → Nat → Nat → Prop}

variable {required id : Nat}

theorem Purge.settles (closed : Closed (Purge may) I) : Closed (Settle may) I := closed.mono fun _ _ => .settle

theorem Purge.expires (closed : Closed (Purge may) I) : Closed Expire I := closed.mono fun _ _ => .expire

theorem Unpack.ticks (closed : Closed Unpack I) : Closed Tick I := closed.mono fun _ _ => .tick

theorem Evict.purges (closed : Closed (Evict may) I) : Closed (Purge may) I := closed.mono fun _ _ => .purge

theorem Evict.unpacks (closed : Closed (Evict may) I) : Closed Unpack I := closed.mono fun _ _ => .unpack

theorem Expire.ticks (closed : Closed Expire I) : Closed Tick I := closed.mono fun _ _ => .tick

theorem Purge.ticks (closed : Closed (Purge may) I) : Closed Tick I := Settle.ticks (Purge.settles closed)

theorem leaseNow_triple (ticks : Closed Tick I) :
    Triple I leaseNow (fun time s => I s ∧ time = s.clock + (s.instant - s.started) / nanos) I := by
  refine .bind (instantNow_triple ticks) fun instant => .bindState fun found => ?_
  refine .pure fun s ⟨⟨holds, reading⟩, same⟩ => ⟨holds, ?_⟩
  rw [reading, ← same]

theorem leaseNow_keeps (ticks : Closed Tick I) : Keeps I leaseNow :=
  (leaseNow_triple ticks).after fun _ _ holds => holds.1

theorem graceOver_triple (ticks : Closed Tick I) {grace : Option Nat} :
    Triple I (graceOver grace) (fun spent s => I s ∧ (spent = true → ∀ till, grace = some till → till ≤ s.instant)) I := by
  cases grace with
  | none => exact .pure fun s holds => ⟨holds, fun _ => nofun⟩
  | some till =>
    refine .bind (instantNow_triple ticks) fun instant => .pure fun s ⟨holds, reading⟩ => ⟨holds, ?_⟩
    intro spent other same
    cases same
    exact reading ▸ of_decide_eq_true spent

theorem expireDue_keeps (closed : Closed Expire I) {grace : Option Nat} :
    Triple (fun s => I s ∧ s.clockUncertain = false ∧ s.restartGrace = grace) (expireDue grace) (fun _ => I) I := by
  have ticks := Expire.ticks closed
  let Certain : Storage → Prop := fun s => I s ∧ s.clockUncertain = false ∧ s.restartGrace = grace
  have certain : Closed Tick Certain := Tick.beside ticks fun holds => holds
  refine .bind ((graceOver_triple certain).otherwise
    fun s holds => holds.1) fun spent => ?_
  refine .when (fun done => ?_) fun _ s holds => holds.1.1
  let Over : Storage → Prop := fun s => Certain s ∧ ∀ till, grace = some till → till ≤ s.instant
  have lasting : Closed Tick Over := by
    refine certain.and ?_
    rintro s _ holds ⟨_, _, _, _, _, later, _⟩
    exact fun till same => Nat.le_trans (holds till same) later
  refine .bind ((leaseNow_triple lasting).weaken (fun s holds => ⟨holds.1, holds.2 done⟩) (fun _ _ => id)
    fun s holds => holds.1.1) fun time => ?_
  have timed : Closed Spend fun s => Over s ∧ time = s.clock + (s.instant - s.started) / nanos := by
    refine (Tick.spends lasting).and ?_
    rintro s _ same ⟨⟩
    exact same
  refine (execute_spend timed (Tick.spends ticks) ?_).otherwise fun s holds => holds.1.1.1
  rintro s ⟨⟨⟨holds, certain, same⟩, grace⟩, rfl⟩
  exact closed s _ holds (.due certain (same ▸ grace))

theorem expireLeases_keeps (closed : Closed Expire I) : Keeps I expireLeases := by
  have ticks := Expire.ticks closed
  have doubt : ∀ {uncertain}, Keeps I (setUncertain uncertain) :=
    Keeps.update fun s holds => closed s _ holds .doubt
  refine .bind (now_keeps ticks) fun wall => .bind Keeps.state fun _ => ?_
  refine .bind (.when fun _ => doubt) fun _ => .bind Keeps.state fun _ => ?_
  refine .bind (.when fun _ => ?_) fun _ => ?_
  · refine .bind (now_keeps ticks) fun wall => .bind (leaseNow_keeps ticks) fun time => ?_
    exact .when fun _ => doubt
  · refine .bindState fun found => ?_
    refine .when (fun certain => (expireDue_keeps closed).before ?_) fun _ s holds => holds.1
    rintro s ⟨holds, rfl⟩
    exact ⟨holds, certain, rfl⟩

theorem deletePack_keeps (closed : Closed Unpack I) {token : Token} : Keeps I (deletePack token) := by
  have ticks := Unpack.ticks closed
  let Marked : Storage → Prop := fun s => I s ∧ ∀ row, s.tables.packs.lookup token = some row → row.deleting = true
  have marked : Closed Tick Marked := Tick.beside ticks fun holds => holds
  refine Triple.bind (Q := fun _ => Marked) (transaction_triple ticks marked fun s tables holds ran => ?_) fun _ => ?_
  · cases ran
    refine ⟨closed s _ holds .condemn, fun row present => ?_⟩
    unfold markPackDeleting at present
    split at present
    · rw [AList.lookup_insert] at present
      cases present
      rfl
    · rename_i absent
      rw [absent] at present
      cases present
  refine .bind (Q := fun _ => Marked) ?_ fun _ => ?_
  · have discards : Closed (Discard PackGone) Marked := by
      rintro s t ⟨holds, stays⟩ discard
      have kept := closed s t holds (.discard discard)
      cases discard <;> exact ⟨kept, stays⟩
    exact (removeManaged_keeps marked discards fun s holds => ⟨token, rfl, holds.2⟩).weaken
      (fun _ => id) (fun _ _ => id) fun s holds => holds.1
  · refine (execute_triple marked ticks fun s holds => ?_).otherwise
      fun s holds => holds.1
    exact closed s _ holds.1 (.dropRow holds.2)

theorem evictPacks_keeps (closed : Closed Unpack I) : Keeps I (evictPacks required) := by
  have ticks := Unpack.ticks closed
  refine Keeps.bind (query_keeps ticks) fun packs => ?_
  induction packs with
  | nil => exact .pure
  | cons pack rest ih =>
    refine .bind (usage_keeps ticks) fun measured => .bind Keeps.state fun _ => ?_
    refine .ite (fun _ => .pure) fun _ => ?_
    exact .bind (.attempt (deletePack_keeps closed)) fun _ => ih

theorem leased_insert {s : Storage} {tables : Tables} {other : Nat} {value next : Resident}
    (found : s.versions.lookup other = some value) (lease : next.lease = value.lease) :
    ({ s with tables := tables, versions := s.versions.insert other next } : Storage).leased id = s.leased id := by
  rw [Storage.leased, Storage.leased, Hash.lookup_insert]
  split
  · rename_i same
    rw [same, found, Option.any_some, Option.any_some, Storage.upgrades, Storage.upgrades, lease]
  · rfl

/-- Loading and removing give no handle. -/
theorem Settle.leased {id : Nat} : Closed (Settle may) fun s => s.leased id = false := by
  intro s t free settle
  cases settle with
  | reserve reserve =>
    cases reserve with
    | tick tick =>
      cases tick
      exact free
    | commitIndex found patched => exact Eq.trans (leased_insert found (by rfl)) free
    | spare found clean loose =>
      rw [Storage.leased, Hash.lookup_erase]
      split
      · rfl
      · exact free
  | remove remove =>
    cases remove with
    | tick tick =>
      cases tick
      exact free
    | condemn allowed found layout patched => exact Eq.trans (leased_insert found (by rfl)) free
    | dropRow marked => exact free
    | discard discard => cases discard <;> exact free
  | fetch absent stored loaded =>
    rw [Storage.leased, Hash.lookup_insert]
    split
    · rw [Option.any_some, Storage.upgrades, loaded.lease]
      rfl
    · exact free
  | cut absent stored present whole header inside =>
    rw [onFile, present]
    exact free
  | record present => exact free

/-- What nothing holds stays so while indexes are loaded and segments removed. -/
theorem Settle.unheld : Closed (Settle may) fun s => Unheld s id := by
  intro s t unheld settle
  refine ⟨?_, Settle.leased s t unheld.handles settle, ?_⟩
  · rw [settle.frame.versionPinned, unheld.pins]
  · rw [settle.frame.leases]
    exact unheld.leases

variable [Sha256]

/-- What a caller of eviction has to know of a right to condemn segments. -/
structure Entitled (may : Storage → Nat → Nat → Prop) (I : Storage → Prop) : Prop where
  steady : Steady may
  judged : Judged may I
  unheld : ∀ s id number, I s → Unheld s id → may s id number
  unpinned : ∀ s id number, I s → s.pinned (id, number) = false → may s id number

section

variable (closed : Closed (Purge may) I) (entitled : Entitled may I)
include closed entitled

theorem deleteUnheld_keeps : Triple (fun s => I s ∧ Unheld s id) (deleteUnheld id) (fun _ => I) I := by
  have settles := Purge.settles closed
  have unheld : Closed (Settle may) fun s => I s ∧ Unheld s id := settles.and Settle.unheld
  refine Triple.bind ((query_triple (Settle.ticks unheld)).otherwise
    fun s holds => holds.1) fun generation => ?_
  -- from here on the row, if there is one, is of this generation and obsolete
  let Doomed : Storage → Prop := fun s => Unheld s id ∧ ∀ found, generation = some found →
    ∃ row, s.tables.versions.lookup id = some row ∧ row.generation = found ∧ row.obsolete = 2
  have doomed : Closed (Settle may) Doomed := by
    refine Settle.unheld.and fun s t listed settle found same => ?_
    obtain ⟨row, present, generation, obsolete⟩ := listed found same
    obtain ⟨next, stored, head⟩ := settle.frame.row present
    exact ⟨next, stored, (congrArg VersionRow.generation head).trans generation,
      (congrArg VersionRow.obsolete head).trans obsolete⟩
  have both : Closed (Settle may) fun s => I s ∧ Doomed s := settles.and doomed
  refine .bind (Q := fun _ s => I s ∧ Doomed s) ?_ fun _ => ?_
  · have listed : Closed Tick fun s => (I s ∧ Unheld s id) ∧
        generation = (s.tables.versions.lookup id).map VersionRow.generation := by
      refine (Settle.ticks unheld).and ?_
      rintro s _ holds ⟨⟩
      exact holds
    refine (execute_triple listed (Settle.ticks both) ?_).otherwise
      fun s holds => holds.1.1
    rintro s ⟨⟨holds, free⟩, same⟩
    refine ⟨closed s _ holds (.obsolete free), ⟨free.pins, free.handles, ?_⟩, fun found equal => ?_⟩
    · unfold changeVersion
      split <;> exact free.leases
    · rw [equal] at same
      obtain ⟨row, present, generation⟩ := Option.map_eq_some_iff.mp same.symm
      refine ⟨setObsolete 2 row, ?_, generation, rfl⟩
      rw [changeVersion, present]
      exact AList.lookup_insert ..
  have right : ∀ s number, I s ∧ Doomed s → may s id number :=
    fun s number holds => entitled.unheld s id number holds.1 holds.2.1
  refine Triple.bind ((deleteAllSegments_keeps entitled.steady both (entitled.judged.and (Settle.ticks doomed)) right).weaken
    (fun _ holds => holds) (fun _ _ holds => holds) fun s holds => holds.1) fun _ => ?_
  let Gone : Storage → Prop := fun s => I s ∧ Doomed s ∧ s.versions.lookup id = none
  have gone : Closed Tick Gone := by
    refine (Purge.ticks closed).and ((Settle.ticks doomed).and ?_)
    rintro s _ holds ⟨⟩
    exact holds
  refine Triple.bind (Q := fun _ => Gone) (Triple.update fun s ⟨holds, free, listed⟩ => ?_) fun _ => ?_
  · refine ⟨closed s _ holds (.release free), ⟨⟨free.pins, ?_, free.leases⟩, listed⟩, AList.lookup_erase ..⟩
    rw [Storage.leased, AList.lookup_erase]
    rfl
  refine .bind (Q := fun _ => Gone) ?_ fun _ => ?_
  · refine Triple.weaken (Keeps.loop (I := Gone) fun name member _ => Keeps.bind ?_ fun _ => Keeps.pure)
      (fun _ holds => holds) (fun _ _ holds => holds) fun s holds => holds.1
    obtain ⟨found, same, listed⟩ : ∃ found, generation = some found ∧ name ∈ versionFiles found := by
      cases generation with
      | none => cases member
      | some found =>
        refine ⟨found, rfl, ?_⟩
        by_cases valid : validGeneration found = true
        · simpa [Option.filter, valid] using member
        · simp [Option.filter, valid] at member
    have discards : Closed (Discard Deleted) Gone := by
      rintro s t ⟨holds, ⟨⟨pins, handles, leases⟩, known⟩, absent⟩ discard
      have kept := closed s t holds (.discard discard)
      cases discard <;> exact ⟨kept, ⟨⟨pins, handles, leases⟩, known⟩, absent⟩
    refine removeManaged_keeps gone discards ?_
    rintro s ⟨holds, ⟨free, known⟩, absent⟩
    obtain ⟨row, present, generation, obsolete⟩ := known found same
    exact ⟨id, row, present, obsolete, generation ▸ listed, free, absent⟩
  · refine (transaction_triple gone (Purge.ticks closed) fun s tables ⟨holds, doomed, absent⟩ ran => ?_).weaken
      (fun _ holds => holds) (fun _ _ holds => holds) fun s holds => holds.1
    cases ran
    exact closed s _ holds (.deleteRows doomed.1 absent)

theorem delete_keeps : Keeps I (delete id) := by
  refine Triple.bindState fun found => ?_
  refine Triple.ite (fun _ => Triple.pure fun s holds => holds.1) fun unpinned => ?_
  refine Triple.ite (fun _ => Triple.pure fun s holds => holds.1) fun unleased => ?_
  have free : Closed Expire fun s => I s ∧ s.versionPinned id = false ∧ s.leased id = false := by
    refine (Purge.expires closed).and ?_
    rintro s _ holds (⟨⟨⟩⟩ | _ | _) <;> exact holds
  have ticks := Expire.ticks free
  have expired : Triple (fun s => I s ∧ s = found) (externallyPinned id) (fun pinned s => I s ∧ (pinned = false → Unheld s id)) I := by
    refine Triple.bind ((expireLeases_keeps free).weaken (fun s holds => ⟨holds.1, ?_⟩) (fun _ _ holds => holds)
      fun s holds => holds.1) fun _ => ?_
    · rw [holds.2]
      exact ⟨Bool.eq_false_iff.mpr unpinned, Bool.eq_false_iff.mpr unleased⟩
    · refine (query_triple ticks).weaken (fun _ holds => holds) ?_ fun s holds => holds.1
      rintro pinned s ⟨⟨holds, pins, handles⟩, rfl⟩
      refine ⟨holds, fun none => ⟨pins, handles, fun token lease present same => ?_⟩⟩
      exact Bool.eq_false_iff.mp none (Hash.any_iff.mpr ⟨token, lease, present, beq_iff_eq.mpr same⟩)
  refine .bind expired fun pinned => .ite (fun _ => .pure fun s holds => holds.1) fun free => ?_
  exact (deleteUnheld_keeps closed entitled).before fun s holds => ⟨holds.1, holds.2 (Bool.eq_false_iff.mpr free)⟩

theorem evictSegment_keeps {candidate : (Nat × Nat) × Bool} : Keeps I (evictSegment required candidate) := by
  have settles := Purge.settles closed
  refine Keeps.bind (usage_keeps (Settle.ticks settles)) fun measured => ?_
  refine Triple.bindState fun found => ?_
  refine Triple.ite (fun _ => Triple.pure fun s holds => holds.1) fun _ => ?_
  refine Triple.ite (fun _ => Triple.pure fun s holds => holds.1) fun unpinned => ?_
  have unpinning : Closed (Settle may) fun s => s.pinned candidate.1 = false := by
    intro s t free settle
    rw [settle.frame.pinned, free]
  have removed : Keeps (fun s => I s ∧ s.pinned candidate.1 = false) (removeSegment candidate.1.1 candidate.1.2) :=
    removeSegment_keeps entitled.steady (settles.and unpinning) (entitled.judged.and (Settle.ticks unpinning))
      fun s holds => entitled.unpinned s _ _ holds.1 holds.2
  refine Triple.bind ((Keeps.attempt removed).weaken (fun s holds => ⟨holds.1, ?_⟩) (fun _ s holds => holds.1)
    fun s holds => holds.1) fun _ => Keeps.pure
  rw [holds.2]
  exact Bool.eq_false_iff.mpr unpinned

theorem evictSegments_keeps : Keeps I (evictSegments required) := by
  refine Keeps.bind (query_keeps (Purge.ticks closed)) fun candidates => Keeps.bind ?_ fun _ => Keeps.pure
  exact .loop fun candidate _ _ => .bind (evictSegment_keeps closed entitled) fun _ => .pure

theorem evictVersions_keeps (candidates : List (Nat × Bool)) {bytes : Nat} :
    Keeps I (evictVersions required candidates bytes) := by
  induction candidates generalizing bytes with
  | nil => exact .pure
  | cons candidate rest ih =>
    refine .bind Keeps.state fun _ => .ite (fun _ => ih) fun _ => .ite (fun _ => ih) fun _ => ?_
    refine .bind (.attempt (delete_keeps closed entitled)) fun _ => ?_
    exact Keeps.bind (usage_keeps (Purge.ticks closed)) fun measured => ih

end

theorem evict_keeps (closed : Closed (Evict may) I) (entitled : Entitled may I) :
    Keeps I (evict required) := by
  have purges := Evict.purges closed
  have ticks := Purge.ticks purges
  refine Keeps.bind (usage_keeps ticks) fun measured => Keeps.bind Keeps.state fun s => ?_
  refine Keeps.bind (query_keeps ticks) fun candidates => Keeps.bind (evictPacks_keeps (Evict.unpacks closed)) fun _ => ?_
  refine .bind (evictSegments_keeps purges entitled) fun _ => .bind (usage_keeps ticks) fun measured => ?_
  refine .bind (evictVersions_keeps purges entitled candidates) fun bytes => ?_
  exact .bind Keeps.state fun _ => .ensure

end Qcm.CachePurge
