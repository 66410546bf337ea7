import Qcm.CacheBuildSteps

/-!
The leases of published files, the recovery of what is on the disk and the
launch of a cache are runs of changes too.
-/

namespace Qcm.CacheSteps

open Lib Lib.Act ResourceFormat CacheState CacheDisk CacheLoad CacheStore
  CacheObjects CacheFiles CacheEvents CacheRules CacheSettle CachePurge CacheSound
  CacheChange

variable [Sha256] {event : Event} {start : Storage} {I : Storage → Prop}

variable {client : String} {token : Token} {names retained : Hash FileName Int} {name : FileName}
  {tables : Tables}

omit [Sha256] in
theorem fileIntact_keeps (ticks : Closed Tick I) {generation : String} {length : Nat} :
    Keeps I (fileIntact generation length) := by
  refine .bind (.attempt (regularFile_keeps ticks)) fun found => ?_
  cases found with
  | error error => exact .pure
  | ok _ => exact .bind (fileLength_keeps ticks) fun _ => .pure

omit [Sha256] in
theorem persistClock_keeps (ticks : Closed Tick I)
    (keep : ∀ s time, I s →
      I { s with tables := { s.tables with fileClock := some (max (s.tables.fileClock.getD 0) time) } }) :
    Keeps I persistClock :=
  Keeps.bind (leaseNow_keeps ticks) fun time => execute_keeps ticks fun s holds => keep s time holds

theorem Kept.persistClock (kept : Kept event start I) : Keeps I persistClock :=
  persistClock_keeps kept.ticks fun s _ holds => kept.closed s _ holds .persistClock

omit [Sha256] in
theorem Room.tick {id : Nat} : Closed Tick fun s => Room s id := by
  rintro s _ room ⟨⟩
  exact ⟨room.count, room.ready, room.bytes⟩

theorem Kept.grantLease (kept : Kept event start I) {id : Nat} {client generation : String} :
    Triple (fun s => I s ∧ Room s id) (grantLease id client generation) (fun _ => I) I := by
  have ticks : Closed Tick fun s => I s ∧ Room s id := kept.ticks.and Room.tick
  have back : ∀ s, I s ∧ Room s id → I s := fun s holds => holds.1
  refine .bind ((nextSerial_keeps ticks).otherwise back) fun token => ?_
  refine .bind ((persistClock_keeps ticks fun s time holds => ?_).otherwise back) fun _ => ?_
  · exact ⟨kept.closed s _ holds.1 .persistClock, holds.2.count, holds.2.ready, holds.2.bytes⟩
  refine Triple.bind ((leaseNow_keeps ticks).otherwise back) fun time => Triple.bind (Q := fun _ => I) ?_ fun _ => Keeps.pure
  refine (statement_triple ticks kept.ticks fun s tables holds granted => ?_).otherwise back
  exact kept.closed s _ holds.1 (.grantLease holds.2 granted)

theorem Kept.acquireFile (kept : Kept event start I) {id : Nat} : Keeps I (acquireFile id client) := by
  have ticks := kept.ticks
  refine Keeps.bind kept.expireLeases fun _ => Keeps.bind Keeps.state fun s => Keeps.ite (fun _ => Keeps.pure) fun _ => ?_
  refine Triple.bind (isPlain_triple ticks) fun plain => ?_
  refine Triple.ite (fun _ => Triple.pure fun s holds => holds.1) fun ready => ?_
  -- a published version stays one while it is loaded
  let Plain : Storage → Prop := fun s => I s ∧ Ready s.tables.completeFiles id
  have settles : Closed (Settle Any) Plain := by
    refine kept.settles.and fun s t ready settle => ?_
    rwa [Ready, settle.frame.part (fun s => s.tables.completeFiles) fun _ => rfl]
  have back : ∀ s, Plain s → I s := fun s holds => holds.1
  refine .bind (Q := fun _ => Plain) ?_ fun row => ?_
  · refine ((query_keeps (Settle.ticks settles)).before fun s holds => ⟨holds.1, ?_⟩).otherwise back
    exact holds.2.trans (not_not.mp ready)
  refine .ite (fun _ => .pure back) fun _ => ?_
  refine .bind ((load_sound settles).otherwise back) fun value => ?_
  let Loaded : Storage → Prop := fun s => Plain s ∧ s.versions.lookup id = some value
  have loaded : Closed Tick Loaded := Tick.beside (Settle.ticks settles) fun holds => holds
  have back : ∀ s, Loaded s → I s := fun s holds => holds.1.1
  refine .ite (fun _ => .pure back) fun _ => ?_
  refine .bind ((fileIntact_keeps loaded).otherwise back) fun intact => .ite (fun _ => ?_) fun _ => ?_
  · exact Triple.before (Keeps.bind kept.retireCorrupt fun _ => Keeps.fail) back
  refine .bind ((query_triple loaded).otherwise back) fun count => ?_
  refine .ite (fun _ => .pure fun s holds => back s holds.1) fun room => ?_
  let Counted : Storage → Prop := fun s => Loaded s ∧ count = s.tables.fileLeases.size
  have counted : Closed Tick Counted := Tick.beside loaded fun holds => holds
  have back : ∀ s, Counted s → I s := fun s holds => holds.1.1.1
  refine .bind ((query_triple counted).otherwise back) fun held => .bindState fun found => ?_
  refine .ite (fun _ => .pure fun s holds => back s holds.1.1) fun fits => ?_
  refine Triple.bind (Q := fun _ => I) (kept.grantLease.before ?_) fun _ => Keeps.pure
  rintro s ⟨⟨⟨⟨⟨holds, plain⟩, present⟩, number⟩, bytes⟩, same⟩
  refine ⟨holds, number ▸ Nat.lt_of_not_le room, plain, value, present, ?_⟩
  rw [← bytes, same]
  -- no sum above the budget saturates into it
  have small : min (found.capacity / 2) (512 * 1024 * 1024) < maxU64 :=
    Nat.lt_of_le_of_lt (Nat.min_le_right _ _) (by decide)
  rw [saturate] at fits
  omega

theorem Kept.extendLease (kept : Kept event start I) (asked : event = .renewFile token client) {time : Nat} :
    Triple (fun s => I s ∧ time = s.clock + (s.instant - s.started) / nanos)
      (execute (extendLease token client (time + leaseSeconds))) (fun _ => I) I := by
  have timed : Closed Spend fun s => I s ∧ time = s.clock + (s.instant - s.started) / nanos := by
    refine (Tick.spends kept.ticks).and ?_
    rintro s _ same ⟨⟩
    exact same
  refine (execute_spend timed (Tick.spends kept.ticks) ?_).otherwise fun s holds => holds.1
  rintro s ⟨holds, rfl⟩
  exact kept.closed s _ holds (.extendLease asked)

theorem Kept.renewFile (kept : Kept event start I) (asked : event = .renewFile token client) :
    Keeps I (renewFile token client) := by
  have ticks := kept.ticks
  refine .bind kept.expireLeases fun _ => .bind Keeps.state fun s => .ite (fun _ => .pure) fun _ => ?_
  refine .bind (leaseNow_keeps ticks) fun time => .bind (query_keeps ticks) fun found => ?_
  cases found with
  | none => exact .pure
  | some id =>
    refine .bind kept.load fun value => .bind (fileIntact_keeps ticks) fun intact => .ite (fun _ => ?_) fun _ => ?_
    · exact .bind kept.retireCorrupt fun _ => .pure
    · refine Keeps.bind kept.persistClock fun _ => Triple.bind (leaseNow_triple ticks) fun time => ?_
      exact Triple.bind (kept.extendLease asked) fun _ => Keeps.pure

theorem Kept.releaseFile (kept : Kept event start I) (asked : event = .releaseFile token client) :
    Keeps I (releaseFile token client) :=
  Keeps.bind (execute_keeps kept.ticks fun s holds => kept.closed s _ holds (.releaseLease asked)) fun _ => kept.evict

omit [Sha256] in
theorem foldl_names {ι : Type} {turn : Hash FileName Int → ι → Hash FileName Int}
    (grows : ∀ names entry name, (names.lookup name).isSome → ((turn names entry).lookup name).isSome)
    (entries : List ι) (names : Hash FileName Int) (name : FileName)
    (found : (names.lookup name).isSome ∨ ∃ entry ∈ entries, ∀ names, ((turn names entry).lookup name).isSome) :
    ((entries.foldl turn names).lookup name).isSome := by
  induction entries generalizing names with
  | nil =>
    rcases found with before | ⟨entry, none, -⟩
    · exact before
    · cases none
  | cons first rest ih =>
    refine ih (turn names first) ?_
    rcases found with before | ⟨entry, member, puts⟩
    · exact .inl (grows names first name before)
    · rcases List.mem_cons.mp member with rfl | later
      · exact .inl (puts names)
      · exact .inr ⟨entry, later, puts⟩

omit [Sha256] in
theorem lookup_insert_isSome {other : FileName} {kind : Int} (found : (names.lookup name).isSome) :
    ((names.insert other kind).lookup name).isSome := by
  rw [Hash.lookup_insert]
  split
  · rfl
  · exact found

omit [Sha256] in
theorem insert_isSome {kind : Int} : ((names.insert name kind).lookup name).isSome := by
  rw [AList.lookup_insert]
  rfl

omit [Sha256] in
theorem leased_grows (names : Hash FileName Int) (lease : (_ : Token) × LeaseRow) (name : FileName)
    (found : (names.lookup name).isSome) : ((match tables.versions.lookup lease.2.version with
      | some row => if validGeneration row.generation then names.insert (.ok row.generation) row.kind else names
      | none => names : Hash FileName Int).lookup name).isSome := by
  split
  · split
    · exact lookup_insert_isSome found
    · exact found
  · exact found

omit [Sha256] in
theorem segment_grows (names : Hash FileName Int) (entry : (_ : Nat × Nat) × SegmentRow) (name : FileName)
    (found : (names.lookup name).isSome) : ((match tables.versions.lookup entry.1.1 with
      | some row =>
        if validGeneration row.metadata.generation = true ∧ row.metadata.layout ≠ .blocks then
          names.insert (.segment row.metadata.generation entry.1.2 entry.2.token) row.metadata.kind
        else names
      | none => names : Hash FileName Int).lookup name).isSome := by
  split
  · split
    · exact lookup_insert_isSome found
    · exact found
  · exact found

omit [Sha256] in
theorem needed_retained (needed : Needed tables name) :
    ((retainSegments (retainedFiles tables) tables).lookup name).isSome := by
  cases needed with
  | @own id row stored valid layout =>
    refine foldl_names segment_grows _ _ _ (.inl (foldl_names leased_grows _ _ _ (.inl (foldl_names ?_ _ _ _ (.inr
      ⟨⟨id, row⟩, (Hash.lookup_eq_some_iff ..).mp stored, fun names => ?_⟩)))))
    · intro names entry other found
      split
      · exact lookup_insert_isSome found
      · exact found
    · simp only [valid, layout, and_self, if_true]
      exact insert_isSome
  | @leased token lease row granted stored valid =>
    refine foldl_names segment_grows _ _ _ (.inl (foldl_names leased_grows _ _ _ (.inr
      ⟨⟨token, lease⟩, (Hash.lookup_eq_some_iff ..).mp granted, fun names => ?_⟩)))
    simp only [stored, valid, if_true]
    exact insert_isSome
  | @segment id number row version listed stored valid layout =>
    refine foldl_names segment_grows _ _ _ (.inr ⟨⟨(id, number), row⟩, (Hash.lookup_eq_some_iff ..).mp listed, fun names => ?_⟩)
    simp only [stored, if_pos (And.intro valid layout)]
    exact insert_isSome

omit [Sha256] in
theorem Recovering.tick : Closed Tick (Recovering retained) := by
  rintro s _ recovering ⟨⟩
  exact ⟨recovering.idle, recovering.needed⟩

theorem Kept.recoverFile (kept : Kept event start I) :
    Keeps (fun s => I s ∧ Recovering retained s) (recoverFile retained name) := by
  have ticks : Closed Tick fun s => I s ∧ Recovering retained s := kept.ticks.and Recovering.tick
  have recorded : ∀ kind, Keeps (fun s => I s ∧ Recovering retained s) (recordSize name kind) := fun kind =>
    recordSize_keeps ticks fun s bytes holds _ => ⟨kept.closed s _ holds.1 .measure, holds.2.files rfl rfl⟩
  unfold CacheFiles.recoverFile
  cases listed : retained.lookup name with
  | some kind => exact recorded kind
  | none =>
    refine .ite (fun _ => .bind (recorded 0) fun _ => .bind (.attempt ?_) fun _ => .pure)
      fun _ => .pure
    have swept : Closed (Discard fun s name => s.worker = .idle ∧ ¬ Needed s.tables name)
        fun s => I s ∧ Recovering retained s := by
      intro s t holds discard
      have next := kept.closed s t holds.1 (.sweep discard)
      cases discard <;> exact ⟨next, holds.2.files rfl rfl⟩
    refine removeManaged_keeps ticks swept fun s holds => ⟨holds.2.idle, fun needed => ?_⟩
    have found := holds.2.needed name needed
    rw [listed] at found
    cases found

theorem Kept.recover (kept : Kept event start I) : Triple (fun s => I s ∧ s.worker = .idle) recover (fun _ => I) I := by
  let Pre : Storage → Prop := fun s => I s ∧ s.worker = .idle
  have ticks : Closed Tick Pre := Tick.beside kept.ticks fun holds => holds
  have drop : ∀ s, Pre s → I s := fun s holds => holds.1
  refine Triple.bind ((query_triple ticks).otherwise drop) fun versions => ?_
  let Listing : Storage → Prop := fun s => Pre s ∧ versions = s.tables.versions.entries
  have listing : Closed Tick Listing := Tick.beside ticks fun holds => holds
  refine Triple.bind ((query_triple listing).otherwise fun s holds => holds.1.1) fun retained => ?_
  -- every row has a valid generation
  refine Triple.pointwise fun begun ⟨⟨⟨holds, idle⟩, listed⟩, equal⟩ => ?_
  have none : (versions.filter fun entry => !validGeneration entry.2.metadata.generation) = [] := by
    refine List.filter_eq_nil_iff.mpr fun entry member => ?_
    rw [listed] at member
    have each := (kept.sound begun holds).rows.each entry.1 entry.2 ((Hash.lookup_eq_some_iff ..).mpr member)
    rw [← each.generation, each.valid]
    exact nofun
  rw [none]
  have steady : Closed Tick fun s => Pre s ∧ retained = retainedFiles s.tables := Tick.beside ticks fun holds => holds
  refine Triple.bind (Q := fun _ s => Pre s ∧ retained = retainedFiles s.tables) (Triple.pure fun s same => ?_) fun _ => ?_
  · rw [same]
    exact ⟨⟨holds, idle⟩, equal⟩
  refine Triple.bind (((query_triple steady).otherwise fun s holds => holds.1.1).after
    (S := fun names s => I s ∧ Recovering names s) ?_) fun names => ?_
  · rintro names s ⟨⟨⟨holds, idle⟩, rfl⟩, rfl⟩
    exact ⟨holds, idle, fun name needed => needed_retained needed⟩
  refine Triple.bind kept.retainPacks fun retained => ?_
  have recovering : Closed Tick fun s => I s ∧ Recovering retained s := kept.ticks.and Recovering.tick
  have back : ∀ s, I s ∧ Recovering retained s → I s := fun s holds => holds.1
  refine Triple.bind ((disk_keeps recovering).otherwise back) fun _ => Triple.bind (Keeps.state.otherwise back) fun found => ?_
  refine Triple.bind (Triple.otherwise (Keeps.loop fun name _ _ => Keeps.bind kept.recoverFile fun _ => Keeps.pure) back)
    fun _ => ?_
  exact Triple.before (Keeps.bind (Keeps.attempt kept.evict) fun _ => Keeps.pure) back

omit [Sha256] in
theorem restoreSegmentClock_keeps (ticks : Closed Tick I) : Keeps I restoreSegmentClock := by
  refine .bind (query_keeps ticks) fun last => .update fun s holds => ?_
  exact ticks s _ holds (.pass _ _ _ _ _ _ le_rfl le_rfl)

omit [Sha256] in
theorem restoreLeases_keeps (ticks : Closed Tick I) (configure : Closed (Configure event) I)
    (persist : ∀ s time, I s →
      I { s with tables := { s.tables with fileClock := some (max (s.tables.fileClock.getD 0) time) } }) :
    Keeps I restoreLeases := by
  refine .bind (query_keeps ticks) fun old => .bind (.update fun s holds => ?_) fun _ => ?_
  · exact configure s _ holds (.configure _ _ _ _ _ _ _ (.inl rfl))
  refine .bind (query_keeps ticks) fun leased => .bind (.when fun _ => ?_) fun _ => persistClock_keeps ticks persist
  refine .bind (instantNow_keeps ticks) fun instant => .update fun s holds => ?_
  exact configure s _ holds (.configure _ _ _ _ _ _ _ (.inl rfl))

theorem Kept.openStorage (kept : Kept event start I) (configure : Closed (Configure event) I) {capacity : Nat}
    (asked : event = .launch capacity) :
    Triple (fun s => I s ∧ s.worker = .idle) (openStorage capacity) (fun _ => I) I := by
  let Pre : Storage → Prop := fun s => I s ∧ s.worker = .idle
  have drop : ∀ s, Pre s → I s := fun s holds => holds.1
  have ticks : Closed Tick Pre := Tick.beside kept.ticks fun holds => holds
  have configured : Closed (Configure event) Pre := by
    refine configure.and ?_
    rintro s _ holds ⟨⟩
    exact holds
  have restored : Keeps Pre restoreLeases :=
    restoreLeases_keeps ticks configured fun s time holds => ⟨kept.closed s _ holds.1 .persistClock, holds.2⟩
  refine .bind ((disk_keeps ticks).otherwise drop) fun _ => .bind ((trial_keeps ticks).otherwise drop) fun _ => ?_
  refine .bind ((now_keeps ticks).otherwise drop) fun wall => ?_
  refine .bind ((instantNow_keeps ticks).otherwise drop) fun started => ?_
  refine .bind (Q := fun _ => Pre) (.update fun s holds =>
    configured s _ holds (.configure _ _ _ _ _ _ _ (.inr asked))) fun _ => ?_
  refine .bind ((restoreSegmentClock_keeps ticks).otherwise drop) fun _ => .bind (restored.otherwise drop) fun _ => ?_
  exact .bind kept.recover fun _ => .update fun s holds =>
    configure s _ holds (.configure _ _ _ _ _ _ _ (.inl rfl))

end Qcm.CacheSteps
