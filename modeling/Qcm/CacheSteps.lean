import Qcm.CacheChange

/-!
Every operation on versions is a run of changes: creating, looking up, reading
and writing.  `Kept` is an invariant that the changes made on behalf of an event
keep, and that includes what the code relies on.
-/

namespace Qcm.CacheSteps

open Lib Lib.Act ResourceFormat CacheState CacheDisk CacheLoad CacheStore
  CacheEvents CacheRules CacheSettle CachePurge CacheSound CacheChange

variable [Sha256] {event : Event} {start : Storage} {I A : Storage → Prop}

structure Kept (event : Event) (start : Storage) (I : Storage → Prop) : Prop where
  closed : Closed (Change event start) I
  sound : ∀ s, I s → Sound s

namespace Kept

variable (kept : Kept event start I)

section

variable (kept : Kept event start I)
include kept

theorem evicts : Closed (Evict Any) I := kept.closed.mono fun _ _ => .evict

theorem purges : Closed (Purge Any) I := Evict.purges kept.evicts

theorem settles : Closed (Settle Any) I := Purge.settles kept.purges

theorem ticks : Closed Tick I := Settle.ticks kept.settles

theorem appends : Closed Append I := kept.closed.mono fun _ _ => .append

theorem pins : Closed Pin I := kept.closed.mono fun _ _ => .pin

end

end Kept

variable {number block : Nat} {value : Resident} {may : Storage → Nat → Nat → Prop} {name : FileName}
  {segment : Segment} {s : Storage} {data : List UInt8} {grouped : Grouped}
  {blocks : List (Nat × List UInt8)} {range : ByteRange}

omit [Sha256] in
theorem any_steady : Steady Any := fun _ _ _ _ holds _ => holds

theorem any_judged (ticks : Closed Tick I) : Judged Any I := fun _ _ _ =>
  (segmentValid_keeps ticks).weaken (fun _ holds => holds.1) (fun _ _ holds => ⟨holds, fun _ => trivial⟩) fun _ => id

theorem any_entitled (ticks : Closed Tick I) : Entitled Any I :=
  ⟨any_steady, any_judged ticks, fun _ _ _ _ _ => trivial, fun _ _ _ _ _ => trivial⟩

variable {id size : Nat} {generation : String} {appended : Appended} {created : Bool} {kind : Int}

theorem load_sound (settles : Closed (Settle Any) I) :
    Triple I (load id) (fun value s => I s ∧ s.versions.lookup id = some value) I :=
  load_triple any_steady settles (any_judged (Settle.ticks settles))

theorem Kept.load (kept : Kept event start I) : Keeps I (load id) :=
  (load_sound kept.settles).after fun _ _ holds => holds.1

theorem Kept.evict (kept : Kept event start I) {required : Nat} : Keeps I (evict required) :=
  evict_keeps kept.evicts (any_entitled kept.ticks)

theorem Kept.delete (kept : Kept event start I) : Keeps I (delete id) :=
  delete_keeps kept.purges (any_entitled kept.ticks)

theorem Kept.removeSegment (kept : Kept event start I) : Keeps I (removeSegment id number) :=
  removeSegment_keeps any_steady kept.settles (any_judged kept.ticks) fun _ _ => trivial

theorem Kept.repairSegments (kept : Kept event start I) : Keeps I (repairSegments id) :=
  repairSegments_keeps any_steady kept.settles (any_judged kept.ticks)

omit [Sha256] in
theorem nextSerial_exact (ticks : Closed Tick I) {P : Nat → Storage → Prop}
    (known : ∀ s, I s → P s.serial { s with serial := s.serial + 1 }) :
    Triple I nextSerial (fun number s => I s ∧ P number s) I := by
  refine .bindState fun found => .bind (Q := fun _ s => I s ∧ P found.serial s)
    (.update fun s ⟨holds, same⟩ => ?_) fun _ => .pure fun s holds => holds
  rw [same]
  rw [same] at holds
  exact ⟨ticks found _ holds (.pass _ _ _ _ _ _ le_rfl (Nat.le_succ _)), known found holds⟩

omit [Sha256] in
theorem leaseOf_triple (ticks : Closed Tick I) :
    Triple I (leaseOf value) (fun lease s => I s ∧ (value.lease = some lease ∨ s.upgrades value = false)) I := by
  have loose : Closed Tick fun s => I s ∧ s.upgrades value = false := Tick.beside ticks fun holds => holds
  have fresh : Triple (fun s => I s ∧ s.upgrades value = false) nextSerial
      (fun lease s => I s ∧ (value.lease = some lease ∨ s.upgrades value = false)) I :=
    (nextSerial_keeps loose).weaken (fun _ => id) (fun _ _ holds => ⟨holds.1, .inr holds.2⟩)
      fun _ holds => holds.1
  refine .bindState fun found => ?_
  cases lease : value.lease with
  | none =>
    rw [lease] at fresh
    refine fresh.before fun s holds => ⟨holds.1, ?_⟩
    rw [Storage.upgrades, lease, Option.any_none]
  | some lease =>
    refine .ite (fun _ => .pure fun s holds => ⟨holds.1, .inl rfl⟩) fun free => ?_
    rw [lease] at fresh
    refine fresh.before fun s holds => ⟨holds.1, ?_⟩
    rw [holds.2]
    exact Bool.eq_false_iff.mpr free

/-- A handle that was just given out. -/
structure Granted (id : Nat) (held : Version) (s : Storage) : Prop where
  member : held ∈ s.handles
  same : held.id = id
  resident : ∃ value, s.versions.lookup id = some value ∧ value.metadata = held.metadata
  apart : ∀ working, Worker.held s.worker = some working → working.handle ≠ held.handle

omit [Sha256] in
theorem Hold.settles (closed : Closed Hold I) : Closed (Settle Any) I := closed.mono fun _ _ => .settle

theorem version_triple (closed : Closed Hold I) (sound : ∀ s, I s → Sound s) :
    Triple I (version id) (fun held s => I s ∧ Granted id held s) I := by
  have settles := Hold.settles closed
  refine Triple.bind (load_sound settles) fun value => ?_
  have found : Closed Tick fun s => I s ∧ s.versions.lookup id = some value :=
    Tick.beside (Settle.ticks settles) fun holds => holds
  refine Triple.bind ((leaseOf_triple found).otherwise fun s holds => holds.1) fun lease => ?_
  refine Triple.bind (Q := fun _ s => I s ∧ s.versions.lookup id = some { value with lease := some lease })
    (Triple.update ?_) fun _ => ?_
  · rintro s ⟨⟨holds, present⟩, same | free⟩
    · have kind : { value with lease := some lease } = value := by rw [← same]
      rw [kind]
      exact ⟨closed s _ holds (.keepLease present), AList.lookup_insert ..⟩
    · exact ⟨closed s _ holds (.newLease present free), AList.lookup_insert ..⟩
  have leased : Closed Tick fun s => I s ∧ s.versions.lookup id = some { value with lease := some lease } :=
    Tick.beside (Settle.ticks settles) fun holds => holds
  refine Triple.bind ((nextSerial_exact leased (P := fun number s => number < s.serial ∧
    ∀ working, Worker.held s.worker = some working → working.handle ≠ number) ?_).otherwise fun s holds => holds.1)
    fun handle => ?_
  · intro s holds
    refine ⟨Nat.lt_succ_self _, fun working held same => ?_⟩
    have links := (sound s holds.1).held
    have bound := links.numbers working (links.worker working held).1
    omega
  · refine Triple.bind (Q := fun _ s => I s ∧ Granted id ⟨handle, id, value.metadata, lease⟩ s) (Triple.update ?_)
      fun _ => Triple.pure fun s holds => holds
    rintro s ⟨⟨holds, present⟩, number, apart⟩
    have granted := closed s _ holds (Hold.grant present rfl number)
    exact ⟨granted, .head _, rfl, ⟨_, present, rfl⟩, apart⟩

theorem Kept.version (kept : Kept event start I) : Triple I (version id) (fun held s => I s ∧ Granted id held s) I :=
  version_triple (kept.closed.mono fun _ _ => .hold) kept.sound

theorem Kept.lookup (kept : Kept event start I) {key : String} : Keeps I (CacheStore.lookup key) := by
  refine .bind (query_keeps kept.ticks) fun found => ?_
  cases found with
  | none => exact .pure
  | some id =>
    refine Triple.bind (Q := fun loaded s => I s ∧ ∀ held, loaded = .ok held → Granted id held s)
      (Triple.attempt (kept.version.after ?_) (fun _ s holds => ⟨holds, nofun⟩) fun s holds => holds) fun loaded => ?_
    · rintro held s ⟨holds, granted⟩
      exact ⟨holds, fun _ same => Except.ok.inj same ▸ granted⟩
    · cases loaded with
      | error error =>
        exact Triple.before (Keeps.bind kept.delete fun _ => Keeps.pure) fun s holds => holds.1
      | ok held =>
        let Apart : Storage → Prop := fun s => I s ∧ ∀ working, Worker.held s.worker = some working →
          working.handle ≠ held.handle
        have apart : Closed Tick Apart := Tick.beside kept.ticks fun holds => holds
        refine Triple.bind (Q := fun _ => I) (Triple.before (Triple.onError (show Triple Apart _ (fun _ => I) Apart from ?_)
          (fun s holds => kept.closed s _ holds.1 (.dropHandle holds.2)) fun s holds => holds.1)
          fun s holds => ⟨holds.1, (holds.2 held rfl).apart⟩) fun _ => Keeps.pure
        refine .bind (now_keeps apart) fun time => ?_
        exact execute_triple apart kept.ticks fun s holds => kept.closed s _ holds.1 .touch

/-- The generation of a new version was given out, and no row has it. -/
structure Unborn (generation : String) (s : Storage) : Prop where
  issued : generation ∈ s.issued
  novel : Novel generation s.tables.versions

omit [Sha256] in
theorem Unborn.evict : Closed (Evict may) (Unborn generation) := by
  intro s t unborn evict
  refine ⟨?_, fun id row present same => ?_⟩
  · rw [evict_part evict Storage.issued fun _ => rfl]
    exact unborn.issued
  · obtain ⟨old, stored, aged⟩ := evict_descends evict id row present
    exact unborn.novel id old stored (aged.generation.symm.trans same)

omit [Sha256] in
theorem Unborn.tick : Closed Tick (Unborn generation) := by
  rintro s _ unborn ⟨⟩
  exact ⟨unborn.issued, unborn.novel⟩

theorem Kept.createData (kept : Kept event start I) {metadata : Metadata} (fresh : metadata.generation ∉ start.issued) :
    Keeps (fun s => I s ∧ Unborn metadata.generation s) (createData metadata) := by
  let Pre : Storage → Prop := fun s => I s ∧ Unborn metadata.generation s
  have evicts : Closed (Evict Any) Pre := kept.evicts.and Unborn.evict
  have ticks : Closed Tick Pre := kept.ticks.and Unborn.tick
  refine .bind (evict_keeps evicts (any_entitled ticks)) fun _ => ?_
  let Made : Storage → Prop := fun s => Pre s ∧ s.files.lookup (.data metadata.generation) = some Contents.empty
  have made : Closed Tick Made := Tick.beside ticks fun holds => holds
  refine Triple.bind (Q := fun _ => Made) (createNew_triple ticks fun s holds absent => ?_) fun _ => ?_
  · have next := kept.closed s _ holds.1 (.make absent nofun fun generation same => by
      cases same
      exact ⟨fresh, holds.2.novel⟩)
    exact ⟨⟨next, holds.2.issued, holds.2.novel⟩, AList.lookup_insert ..⟩
  refine .bind ((disk_keeps made).otherwise fun s holds => holds.1) fun _ => ?_
  have written : ∀ s (data : List UInt8), Made s →
      Pre (onFile (.data metadata.generation) (fun file => file.write 0 data) s) := by
    rintro s data ⟨⟨holds, unborn⟩, there⟩
    have beyond : ∀ file, s.files.lookup (.data metadata.generation) = some file → file.length ≤ 0 := by
      intro file present
      rw [there] at present
      cases present
      exact Nat.le_refl 0
    refine ⟨kept.closed s _ holds (.append (.extend beyond)), ?_⟩
    rw [onFile_others]
    exact ⟨unborn.issued, unborn.novel⟩
  refine .bind (writeAll_triple made (fun s => written s _) fun s count => written s _) fun _ => ?_
  refine .bind (disk_keeps ticks) fun _ => .bind (disk_keeps ticks) fun _ => ?_
  exact recordSize_keeps ticks fun s bytes holds _ =>
    ⟨kept.closed s _ holds.1 .measure, holds.2.issued, holds.2.novel⟩

theorem Kept.createLayout (kept : Kept event start I) {original metadata : Metadata} (asked : event = .create original)
    (fresh : metadata.generation ∉ start.issued) :
    Triple (fun s => I s ∧ Unborn metadata.generation s) (createLayout metadata) (fun _ => I) I := by
  let Pre : Storage → Prop := fun s => I s ∧ Unborn metadata.generation s
  have evicts : Closed (Evict Any) Pre := kept.evicts.and Unborn.evict
  have ticks : Closed Tick Pre := kept.ticks.and Unborn.tick
  have drop : ∀ s, Pre s → I s := fun s holds => holds.1
  refine Triple.bind (Q := fun _ s => Pre s ∧ validGeneration metadata.generation = true)
    (Triple.ensure (fun valid s holds => ⟨holds, valid⟩) fun _ => drop) fun _ => ?_
  refine Triple.bind (Q := fun _ s => Pre s ∧ validGeneration metadata.generation = true ∧
      validateLayout metadata.layout metadata.geometry = .ok ())
    (liftExcept_triple (fun _ laid s holds => ⟨holds.1, holds.2, laid⟩) fun s holds => holds.1.1) fun _ => ?_
  refine Triple.pointwise ?_
  rintro start ⟨begun, valid, laid⟩
  refine Triple.before (P := Pre) ?_ fun s same => same ▸ begun
  refine Triple.bind ((reserveIndex_keeps (Settle.reserves (Purge.settles (Evict.purges evicts)))).otherwise drop) fun _ => ?_
  refine Triple.bind ((Keeps.when fun _ => kept.createData fresh).otherwise drop) fun _ => ?_
  refine Triple.bind ((now_keeps ticks).otherwise drop) fun time => Triple.bindState fun found => ?_
  -- the row and the resident of the new version count as one change
  let Done : Storage → Prop := fun s => I { s with
    versions := s.versions.insert (nextId found.tables) ⟨metadata, Index.fresh metadata.geometry,
      if metadata.layout = .blocks then some (FileName.data metadata.generation) else none, none, false⟩ }
  have done : Closed Tick Done := by
    rintro s _ holds ⟨_, _, _, _, _, later, more⟩
    exact kept.ticks _ _ holds (.pass _ _ _ _ _ _ later more)
  have same : Closed Tick fun s => Pre s ∧ s.tables = found.tables := Tick.beside ticks fun holds => holds
  refine Triple.bind (Q := Ends Done Pre) ?_ fun inserted => ?_
  · refine Triple.attempt (F := Pre) ?_ (fun _ s holds => holds) drop
    refine (transaction_triple same done ?_).weaken ?_ (fun _ _ => id) fun s holds => holds.1
    · rintro s tables ⟨⟨holds, unborn⟩, equal⟩ ran
      obtain ⟨retired, one, two⟩ := Option.bind_eq_some_iff.mp ran
      obtain ⟨next, inserted, last⟩ := Option.bind_eq_some_iff.mp two
      cases one
      cases last
      have changed := kept.closed s _ holds (.insert asked fresh unborn.issued valid laid inserted)
      rw [equal] at changed
      exact changed
    · rintro s ⟨holds, equal⟩
      exact ⟨holds, by rw [equal]⟩
  cases inserted with
  | error error =>
    refine Triple.bind (Q := fun _ => Pre) (Triple.attempt (F := Pre) ?_ (fun _ _ => id) drop) fun _ => ?_
    · refine Keeps.bind (disk_keeps ticks) fun _ => Keeps.update fun s holds => ?_
      exact ⟨kept.closed s _ holds.1 (.unmake holds.2.novel), holds.2.issued, holds.2.novel⟩
    · refine Triple.bind (Q := fun _ => I) (Triple.update fun s holds => ?_) fun _ => Keeps.fail
      exact kept.closed s _ holds.1 (.unrecord holds.2.novel)
  | ok _ =>
    refine Triple.bind (Q := fun _ => I) (Triple.update fun s holds => holds) fun _ => ?_
    exact kept.version.after fun _ _ holds => holds.1

theorem Kept.retireCorrupt (kept : Kept event start I) : Keeps I (retireCorrupt id) := by
  refine .bind (.update fun s holds => ?_) fun _ =>
    execute_keeps kept.ticks fun s holds => kept.closed s _ holds .corrupt
  cases s.versions.lookup id with
  | none => exact holds
  | some value =>
    change I (if s.upgrades value then { s with revoked := value.lease.toList ++ s.revoked } else s)
    split
    · exact kept.closed s _ holds .revoke
    · exact holds

theorem verified_keeps (ticks : Closed Tick I) {offset count : Nat} {digest : Digest} :
    Keeps I (verified name offset count digest) := by
  refine .bind (disk_keeps ticks) fun _ => .bind (.attempt (readExact_keeps ticks)) fun data => ?_
  cases data with
  | ok data | error error => exact .pure

theorem Kept.forgetEntry (kept : Kept event start I) {block : Nat} {current : Resident} :
    Triple (fun s => I s ∧ s.versions.lookup id = some current)
      (publishSegmentIndex id (current.index.remove block) []) (fun _ => I) I := by
  refine publishSegmentIndex_triple kept.ticks kept.ticks current fun s tables holds found ran => ?_
  obtain ⟨next, patched, last⟩ := Option.bind_eq_some_iff.mp ran
  cases last
  exact kept.closed s _ holds (.forgetEntry found patched)

theorem Kept.readSegment (kept : Kept event start I) : Keeps I (readSegment id block) := by
  have ticks := kept.ticks
  refine .bind kept.load fun value => ?_
  cases value.index.get block with
  | none => exact .pure
  | some entry =>
    refine .bind Keeps.require fun range => .bind Keeps.require fun size => ?_
    refine .bind (segmentFor_keeps ticks) fun found => ?_
    cases found with
    | none => exact .bind kept.removeSegment fun _ => .pure
    | some segment =>
      refine .bind (.attempt (segmentFile_keeps ticks)) fun opened => ?_
      cases opened with
      | error error => exact .bind kept.removeSegment fun _ => .pure
      | ok name =>
        refine .bind (verified_keeps ticks) fun data => ?_
        cases data with
        | none =>
          exact Triple.bind resident_triple fun current => Triple.bind kept.forgetEntry fun _ => Keeps.pure
        | some data =>
          refine .bind (segmentTick_keeps ticks) fun touched => .bind ?_ fun _ => .pure
          refine execute_keeps ticks fun s holds => ?_
          split
          · rename_i row listed
            exact kept.closed s _ holds (.touchSegment listed)
          · exact holds

omit [Sha256] in
theorem checkActive_keeps (ticks : Closed Tick I) : Keeps I (checkActive id) :=
  Keeps.bind (query_keeps ticks) fun _ => .ensure

theorem Kept.read (kept : Kept event start I) : Keeps I (CacheStore.read id block) := by
  have ticks := kept.ticks
  refine Keeps.bind (checkActive_keeps ticks) fun _ => Triple.bind (load_sound kept.settles) fun value => ?_
  refine Triple.ite (fun _ => kept.readSegment.before fun s holds => holds.1) fun blocks => ?_
  have found : Closed Tick fun s => I s ∧ s.versions.lookup id = some value := Tick.beside ticks fun holds => holds
  cases value.index.get block with
  | none => exact Triple.pure fun s holds => holds.1
  | some entry =>
    refine Triple.bind (Q := fun _ s => I s ∧ s.versions.lookup id = some value)
      (Triple.require (fun _ _ s holds => holds) fun _ s holds => holds.1) fun range => ?_
    cases file : value.file with
    | none => exact .crash fun s holds => holds.1
    | some name =>
      refine .bind ((verified_keeps found).otherwise fun s holds => holds.1) fun data => ?_
      cases data with
      | some data => exact .pure fun s holds => holds.1
      | none =>
        refine .ite (fun _ => ?_) fun _ => ?_
        · exact Triple.before (Keeps.bind kept.retireCorrupt fun _ => Keeps.fail) fun s holds => holds.1
        · refine .bind (Q := fun _ => I) (.update fun s holds => ?_) fun _ => ?_
          · rw [← file]
            exact kept.closed s _ holds.1 (.forgetBlock holds.2 (not_not.mp blocks))
          · exact Keeps.bind (commit_keeps (Settle.reserves kept.settles)) fun _ => Keeps.pure

/-- The pins of a window under way are held already. -/
def Listed (pins : List ((Nat × Nat) × Nat)) (s : Storage) : Prop := ∀ entry ∈ pins, ∃ window ∈ s.windows, entry ∈ window.pins

omit [Sha256] in
theorem pinOf_triple (ticks : Closed Tick I) {segment : Nat × Nat} :
    Triple I (pinOf segment) (fun pin s => I s ∧ (s.pins.lookup segment = some pin ∨ s.pinned segment = false)) I := by
  have loose : Closed Tick fun s => I s ∧ s.pinned segment = false := Tick.beside ticks fun holds => holds
  have fresh : Triple (fun s => I s ∧ s.pinned segment = false) nextSerial
      (fun pin s => I s ∧ (s.pins.lookup segment = some pin ∨ s.pinned segment = false)) I :=
    (nextSerial_keeps loose).weaken (fun _ => id) (fun _ _ holds => ⟨holds.1, .inr holds.2⟩)
      fun _ holds => holds.1
  refine .bindState fun found => ?_
  cases present : found.pins.lookup segment with
  | none =>
    refine fresh.before fun s holds => ⟨holds.1, ?_⟩
    rw [holds.2, Storage.pinned, present, Option.any_none]
  | some pin =>
    refine .ite (fun _ => .pure fun s holds => ⟨holds.1, .inl (holds.2 ▸ present)⟩) fun dead => ?_
    refine fresh.before fun s holds => ⟨holds.1, ?_⟩
    rw [holds.2, Storage.pinned, present, Option.any_some]
    exact Bool.eq_false_iff.mpr dead

omit [Sha256] in
theorem Pin.ticks (closed : Closed Pin I) : Closed Tick I := closed.mono fun _ _ => .tick

omit [Sha256] in
theorem pinEach_keeps (closed : Closed Pin I) {handle : Nat} (segments : List (Nat × Nat))
    {pins : List ((Nat × Nat) × Nat)} :
    Triple (fun s => I s ∧ Listed pins s) (pinEach handle segments pins) (fun _ => I) I := by
  induction segments generalizing pins with
  | nil => exact .pure fun s holds => holds.1
  | cons segment rest ih =>
    have listed : Closed Tick fun s => I s ∧ Listed pins s := Tick.beside (Pin.ticks closed) fun holds => holds
    refine .bind ((pinOf_triple listed).otherwise fun s holds => holds.1) fun pin => ?_
    refine .bind (Q := fun _ s => I s ∧ Listed ((segment, pin) :: pins) s) (.update ?_) fun _ => ih
    rintro s ⟨⟨holds, held⟩, present | free⟩
    · exact ⟨closed s _ holds (.keepPin present held), fun entry member => ⟨_, .head _, member⟩⟩
    · exact ⟨closed s _ holds (.newPin free held), fun entry member => ⟨_, .head _, member⟩⟩

omit [Sha256] in
theorem pinSegments_keeps (closed : Closed Pin I) {numbers : List Nat} : Keeps I (pinSegments id numbers) := by
  refine .bind (.update fun s holds => closed s _ holds .retainPins) fun _ => ?_
  exact Keeps.bind (nextSerial_keeps (Pin.ticks closed)) fun handle =>
    (pinEach_keeps closed _).before fun s holds => ⟨holds, nofun⟩

omit [Sha256] in
/-- What the groups of a write do while their pins are held. -/
theorem holdingPins_triple {P : Storage → Prop} (before : Closed Pin P) (after : Closed Pin I) (sub : ∀ s, P s → I s)
    {body : Io Unit} (keep : Triple P body (fun _ => I) I) (numbers : List Nat) :
    Triple P (holdingPins id body numbers) (fun _ => I) I := by
  induction numbers with
  | nil => exact keep
  | cons number rest ih =>
    refine .bind ((pinSegments_keeps before).otherwise sub) fun window => ?_
    have dropped : ∀ s, I s → I (dropWindow window s) := fun s holds => after s _ holds .dropWindow
    exact .closing ih (fun _ => dropped) dropped fun s holds => holds

/-! ## Writing -/

/-- The row of a version, if there is one, is of this resource. -/
def Named (id : Nat) (metadata : Metadata) (s : Storage) : Prop :=
  ∀ row, s.tables.versions.lookup id = some row → core row.metadata = core metadata

omit [Sha256] in
theorem Named.evict {metadata : Metadata} : Closed (Evict may) (Named id metadata) := by
  intro s t named evict row present
  obtain ⟨old, stored, aged⟩ := evict_descends evict id row present
  exact aged.metadata.trans (named old stored)

omit [Sha256] in
theorem Named.of_found (sound : Sound s) (found : s.versions.lookup id = some value) : Named id value.metadata s := by
  intro row present
  obtain ⟨other, stored, same, -⟩ := sound.residents id value found
  rw [stored] at present
  cases present
  exact same.symm

omit [Sha256] in
theorem Named.metadata (sound : Sound s) {metadata : Metadata} (named : Named id metadata s)
    (found : s.versions.lookup id = some value) : core value.metadata = core metadata := by
  obtain ⟨row, stored, same, -⟩ := sound.residents id value found
  exact same.trans (named row stored)

omit [Sha256] in
theorem lookup_onFile {change : Contents → Contents} {file : Contents}
    (present : s.files.lookup name = some file) :
    (onFile name change s).files.lookup name = some (change file) := by
  rw [CacheDisk.onFile, present]
  exact AList.lookup_insert ..

omit [Sha256] in
/-- A block that is appended gets a slot at or behind the end of the file, and fills it; `J` is what is known
of the slot when it is picked. -/
theorem appendBlock_triple (closed : Closed Append I) {J : Nat → Storage → Prop}
    (steady : ∀ slot, Closed Append (J slot))
    (pick : ∀ s file slot, I s → s.files.lookup name = some file →
      file.length ≤ headerLen + slot * value.metadata.geometry.block → J slot s) :
    Triple I (appendBlock value name block data) (fun slot s => (I s ∧ J slot s) ∧ ∃ file,
      s.files.lookup name = some file ∧ headerLen + slot * value.metadata.geometry.block +
        value.metadata.geometry.block ≤ file.length) I := by
  have ticks : Closed Tick I := closed.mono fun _ _ => .tick
  have positive := value.metadata.geometry.block_pos
  refine .bind Keeps.require fun range => .bind Keeps.ensure fun _ => ?_
  refine .bind (fileLength_triple ticks) fun size => ?_
  let slot := divCeil (size - headerLen) value.metadata.geometry.block
  let offset := headerLen + slot * value.metadata.geometry.block
  have behind : size ≤ offset := by
    have whole : size - headerLen ≤ slot * value.metadata.geometry.block :=
      Nat.not_lt.mp (mt (lt_divCeil positive).mpr (Nat.lt_irrefl _))
    omega
  have both : Closed Append fun s => I s ∧ J slot s := closed.and (steady slot)
  let There : Storage → Prop := fun s => (I s ∧ J slot s) ∧ ∃ file, s.files.lookup name = some file ∧ file.length = size
  have there : Closed Tick There := Tick.beside (both.mono fun _ _ => Append.tick) fun holds => holds
  refine .bind (Q := fun _ => There) (.ensure (fun _ s holds => ?_) fun _ s holds => holds.1) fun _ => ?_
  · obtain ⟨holds, file, present, same⟩ := holds
    exact ⟨⟨holds, pick s file slot holds present (same ▸ behind)⟩, file, present, same⟩
  -- the bytes of the block are in the file, and nothing is behind them
  let Filled : Storage → Prop := fun s => (I s ∧ J slot s) ∧ ∃ file, s.files.lookup name = some file ∧
    file.length ≤ offset + data.length ∧ (data.length ≠ 0 → offset + data.length ≤ file.length)
  have filled : Closed Tick Filled := Tick.beside (both.mono fun _ _ => Append.tick) fun holds => holds
  have written : ∀ s (bytes : List UInt8), There s → I (onFile name (fun file => file.write offset bytes) s) ∧
      J slot (onFile name (fun file => file.write offset bytes) s) := by
    rintro s bytes ⟨holds, file, present, rfl⟩
    refine both s _ holds (.extend fun other found => ?_)
    rw [present] at found
    cases found
    exact behind
  refine .bind (Q := fun _ => Filled) (writeAll_triple there (fun s holds => ⟨written s data holds, ?_⟩)
    fun s count holds => (written s _ holds).1) fun _ => ?_
  · obtain ⟨-, file, present, rfl⟩ := holds
    refine ⟨_, lookup_onFile present, ?_, fun some => ?_⟩
    · change (if data.length = 0 then file.length else max file.length (offset + data.length)) ≤ offset + data.length
      split <;> omega
    · rw [Contents.length_write fun empty => some (by rw [empty]; rfl)]
      exact Nat.le_max_right ..
  have padded : ∀ s count, Filled s → I (onFile name (fun file => file.writeZeros (offset + data.length) count) s) ∧
      J slot (onFile name (fun file => file.writeZeros (offset + data.length) count) s) := by
    rintro s count ⟨holds, file, present, short, -⟩
    refine both s _ holds (.extend fun other found => ?_)
    rw [present] at found
    cases found
    exact short
  let Whole : Storage → Prop := fun s => (I s ∧ J slot s) ∧ ∃ file, s.files.lookup name = some file ∧
    offset + value.metadata.geometry.block ≤ file.length
  refine .bind (Q := fun _ => Whole) (.when (fun short => ?_) fun long s holds => ?_) fun _ =>
    Triple.pure fun _ => id
  · refine writeZeros_triple filled (fun s holds => ⟨padded s _ holds, ?_⟩) fun s count holds => (padded s count holds).1
    obtain ⟨-, file, present, -⟩ := holds
    refine ⟨_, lookup_onFile present, ?_⟩
    change offset + value.metadata.geometry.block ≤ if value.metadata.geometry.block - data.length = 0 then file.length
      else max file.length (offset + data.length + (value.metadata.geometry.block - data.length))
    split <;> omega
  · obtain ⟨holds, file, present, -, inside⟩ := holds
    exact ⟨holds, file, present, by omega⟩

omit [Sha256] in
theorem appendBlock_keeps (closed : Closed Append I) : Keeps I (appendBlock value name block data) :=
  (appendBlock_triple closed (J := fun _ _ => True) (fun _ _ _ _ _ => trivial) fun _ _ _ _ _ _ => trivial).after
    fun _ _ holds => holds.1.1

omit [Sha256] in
theorem appendBlocks_keeps (closed : Closed Append I) (blocks : List (Nat × List UInt8))
    : Keeps I (appendBlocks value name blocks appended) := by
  induction blocks generalizing appended with
  | nil => exact .pure
  | cons entry rest ih => exact .ite (fun _ => ih) fun _ => .bind (appendBlock_keeps closed) fun _ => ih

/-- Writing into the data file of a version keeps an invariant. -/
def Writes (I : Storage → Prop) : Prop :=
  ∀ id metadata blocks, metadata.layout = .blocks →
    Triple (fun s => I s ∧ Named id metadata s) (writeData id blocks) (fun _ => I) I

theorem Kept.setAppended (kept : Kept event start I) (puts : Closed Put I) {metadata : Metadata}
    (layout : metadata.layout = .blocks) : Keeps (fun s => I s ∧ Named id metadata s) (setAppended id appended) := by
  refine .bind (.loop fun entry _ _ => ?_) fun _ => .pure
  refine Triple.bind resident_triple fun value => ?_
  refine Triple.bind (Q := fun index s => ((I s ∧ Named id metadata s) ∧ s.versions.lookup id = some value) ∧
      value.index.set entry.1 entry.2.1 entry.2.2 = .ok index)
    (liftExcept_triple (fun index set s holds => ⟨holds, set⟩) fun s holds => holds.1) fun index => ?_
  refine Triple.bind (Q := fun _ s => I s ∧ Named id metadata s) (Triple.update ?_) fun _ => Keeps.pure
  rintro s ⟨⟨⟨holds, named⟩, found⟩, set⟩
  have same := named.metadata (kept.sound s holds) found
  exact ⟨puts s _ holds (.setBlock found ((layout_of_core same).trans layout) set), named⟩

theorem Kept.writeData (kept : Kept event start I) (puts : Closed Put I) : Writes I := by
  intro id metadata blocks layout
  refine Triple.weaken (P := fun s => I s ∧ Named id metadata s) (Q := fun _ s => I s ∧ Named id metadata s)
    (E := fun s => I s ∧ Named id metadata s) ?_ (fun _ holds => holds) (fun _ _ holds => holds.1) fun _ holds => holds.1
  let Pre : Storage → Prop := fun s => I s ∧ Named id metadata s
  have evicts : Closed (Evict Any) Pre := kept.evicts.and Named.evict
  have settles := Purge.settles (Evict.purges evicts)
  have ticks := Settle.ticks settles
  refine Keeps.bind (checkActive_keeps ticks) fun _ => ?_
  refine Keeps.bind ((load_sound settles).after fun _ _ holds => holds.1) fun value => ?_
  refine Keeps.ite (fun _ => Keeps.ensure) fun _ => ?_
  refine Keeps.bind (evict_keeps evicts (any_entitled ticks)) fun _ => ?_
  refine Keeps.bind ((load_sound settles).after fun _ _ holds => holds.1) fun value => ?_
  cases value.file with
  | none => exact Keeps.crash
  | some name =>
    have appends : Closed Append Pre := kept.appends.and fun s t named append => by
      cases append with
      | tick tick =>
        cases tick
        exact named
      | extend beyond =>
        rw [onFile_others]
        exact named
    refine Keeps.bind (appendBlocks_keeps appends blocks) fun appended => Keeps.bind (disk_keeps ticks) fun _ => ?_
    exact Keeps.bind (kept.setAppended puts layout) fun _ => commit_keeps (Settle.reserves settles)

omit [Sha256] in
theorem mem_alterSorted {β : Type} {key : Nat} {change : Option β → β} {entries : List (Nat × β)} {entry : Nat × β}
    (member : entry ∈ alterSorted key change entries) :
    entry ∈ entries ∨ entry = (key, change none) ∨ ∃ value, (key, value) ∈ entries ∧ entry = (key, change (some value)) := by
  induction entries with
  | nil => exact .inr (.inl (List.mem_singleton.mp member))
  | cons first rest ih =>
    rw [alterSorted] at member
    split at member
    · rcases List.mem_cons.mp member with rfl | old
      · exact .inr (.inl rfl)
      · exact .inl old
    · split at member
      · rename_i same
        rcases List.mem_cons.mp member with rfl | old
        · exact .inr (.inr ⟨first.2, by rw [same]; exact .head _, rfl⟩)
        · exact .inl (.tail _ old)
      · rcases List.mem_cons.mp member with rfl | later
        · exact .inl (.head _)
        · rcases ih later with old | rfl | ⟨value, old, rfl⟩
          · exact .inl (.tail _ old)
          · exact .inr (.inl rfl)
          · exact .inr (.inr ⟨value, .tail _ old, rfl⟩)

/-- Every block of a group lies in the segment of the group. -/
def Sorted (geometry : Geometry) (size : Nat) (grouped : Grouped) : Prop :=
  ∀ group ∈ grouped, ∀ entry ∈ group.2, entry.1 < geometry.count ∧ group.1 = segmentOf geometry size entry.1

omit [Sha256] in
theorem Sorted.add {geometry : Geometry} (sorted : Sorted geometry size grouped)
    (inside : block < geometry.count) : Sorted geometry size (alterSorted (segmentOf geometry size block)
      (fun blocks => alterSorted block (fun _ => data) (blocks.getD [])) grouped) := by
  intro group member
  rcases mem_alterSorted member with old | rfl | ⟨blocks, old, rfl⟩
  · exact sorted group old
  · intro other listed
    rcases mem_alterSorted listed with none | rfl | ⟨data, none, -⟩
    · cases none
    · exact ⟨inside, rfl⟩
    · cases none
  · intro other listed
    rcases mem_alterSorted listed with earlier | rfl | ⟨data, earlier, rfl⟩
    · exact sorted _ old other earlier
    · exact ⟨inside, rfl⟩
    · exact ⟨inside, rfl⟩

omit [Sha256] in
theorem groupBlocks_sorted (blocks : List (Nat × List UInt8)) {result : Grouped}
    (done : groupBlocks value size blocks grouped = .ok result)
    (sorted : Sorted value.metadata.geometry size grouped) : Sorted value.metadata.geometry size result := by
  induction blocks generalizing grouped with
  | nil =>
    cases done
    exact sorted
  | cons entry rest ih =>
    rw [groupBlocks] at done
    split at done
    · cases done
    · rename_i range inside
      split at done
      · cases done
      · split at done
        · obtain ⟨bound, rfl⟩ := Geometry.range_eq_some.mp inside
          exact ih done (sorted.add (Geometry.lt_count.mpr bound))
        · exact ih done sorted

/-- A segmented version in memory, and the index that a write is to give it. -/
structure Growing (id size : Nat) (geometry : Geometry) (index : Index) (written : List Segment) (s : Storage) : Prop where
  found : ∃ current, s.versions.lookup id = some current ∧ current.metadata.layout = .segments size ∧
    current.index.geometry = geometry ∧ Grown current.index index size written

/-- The row of a segment is marked. -/
def Marked (s : Storage) (id number : Nat) : Prop := ∃ row, s.tables.segments.lookup (id, number) = some row ∧ row.deleting = true

omit [Sha256] in
theorem marked_steady : Steady Marked := by
  rintro id number s _ marked ⟨⟩
  exact marked

variable {id size : Nat} {geometry : Geometry} {index : Index} {written : List Segment}

omit [Sha256] in
theorem Growing.of_versions {t : Storage} (growing : Growing id size geometry index written s)
    (same : t.versions = s.versions) : Growing id size geometry index written t := by
  obtain ⟨current, found, rest⟩ := growing.found
  exact ⟨current, by rw [same, found], rest⟩

omit [Sha256] in
theorem Growing.tick : Closed Tick (Growing id size geometry index written) := by
  rintro s _ growing ⟨⟩
  exact growing.of_versions rfl

omit [Sha256] in
theorem grown_of_same {before other : Index} (grown : Grown before index size written)
    (same : other.geometry = before.geometry) (clean : other.dirty = [])
    (gets : ∀ block, other.get block = before.get block) : Grown other index size written where
  revises := by
    refine ⟨grown.revises.geometry.trans same.symm, fun block member => ?_, fun block clean => ?_⟩
    · rw [clean] at member
      cases member
    · exact (grown.revises.others block clean).trans (gets block).symm
  entries := by
    rw [same]
    exact grown.entries

omit [Sha256] in
theorem Growing.remove : Closed (Remove Marked) fun s => Sound s ∧ Growing id size geometry index written s := by
  rintro s t ⟨sound, growing⟩ remove
  refine ⟨.remove s t sound remove, ?_⟩
  cases remove with
  | tick tick => exact .tick s _ growing tick
  | dropRow marked => exact growing.of_versions rfl
  | discard discard => cases discard <;> exact growing.of_versions rfl
  | @condemn other number bytes value tables allowed found layout patched =>
    obtain ⟨current, present, segmented, same, grown⟩ := growing.found
    by_cases equal : id = other
    · rw [equal, found] at present
      cases present
      rw [layout] at segmented
      cases segmented
      have kept : ∀ block, (clearSegment value.index size number).get block = value.index.get block := by
        intro block
        rw [clearSegment_get]
        split
        · rename_i inside
          cases listed : value.index.get block with
          | none => rfl
          | some entry =>
            exfalso
            obtain ⟨row, stored, alike, mirrors⟩ := sound.residents other value found
            have valid := (sound.rows.each other row stored).layout
            rw [← layout_of_core alike, ← geometry_of_core alike, layout] at valid
            obtain ⟨positive, divides⟩ := validateLayout_ok valid
            have placed := sound.placed found layout listed
            rw [(mirrors size (layout_of_core alike ▸ layout)).geometry, ← geometry_of_core alike,
              mem_segmentBlocks positive divides placed.inside] at inside
            obtain ⟨live, there, alive⟩ := placed.live
            obtain ⟨marked, also, dead⟩ := allowed
            rw [inside, also] at there
            cases there
            rw [dead] at alive
            cases alive
        · rfl
      have cleared := (Revises.clearSegment value.index size number).geometry
      exact ⟨{ value with index := (clearSegment value.index size number).committed },
        by rw [equal]; exact AList.lookup_insert .., layout, cleared.trans same, grown_of_same grown cleared rfl kept⟩
    · exact ⟨current, (AList.lookup_insert_ne equal).trans present, segmented, same, grown⟩

theorem load_present {P E : Storage → Prop} :
    Triple (fun s => P s ∧ s.versions.lookup id = some value) (load id) (fun found s => P s ∧ found = value) E := by
  rintro s ⟨holds, present⟩
  have loaded : load id s = (.ok value, s) := by
    simp [CacheLoad.load, CacheLoad.resident, Act.state, Act.when, bind, pure, present]
  rw [loaded]
  exact ⟨holds, rfl⟩

theorem Kept.removeMarked (kept : Kept event start I) :
    Triple (fun s => (I s ∧ Growing id size geometry index written s) ∧ Marked s id number)
      (CacheLoad.removeSegment id number)
      (fun _ s => I s ∧ Growing id size geometry index written s) I := by
  have closed : Closed (Remove Marked) fun s => I s ∧ Growing id size geometry index written s := by
    intro s t ⟨holds, growing⟩ remove
    have any : Remove Any s t := by
      cases remove with
      | tick tick => exact .tick tick
      | condemn allowed found layout patched => exact .condemn trivial found layout patched
      | dropRow marked => exact .dropRow marked
      | discard discard => exact .discard discard
    exact ⟨Settle.removes kept.settles s t holds any, (Growing.remove s t ⟨kept.sound s holds, growing⟩ remove).2⟩
  refine .pointwise fun start ⟨⟨holds, growing⟩, marked⟩ => ?_
  obtain ⟨current, present, rest⟩ := growing.found
  have loads : Triple (fun s => s = start ∧ s.versions.lookup id = some current) (CacheLoad.load id)
      (fun found s => s = start ∧ found = current) I := load_present
  refine Triple.bind (loads.before fun s same => ⟨same, by rw [same, present]⟩) fun _ => ?_
  refine (removeResident_keeps marked_steady closed).weaken (fun s same => ?_) (fun _ _ holds => holds) fun s holds => holds.1
  rw [same.1]
  exact ⟨⟨holds, growing⟩, marked⟩

theorem Kept.chooseSegment (kept : Kept event start I) {metadata : Metadata} :
    Triple (fun s => I s ∧ Growing id size geometry index written s) (chooseSegment id number metadata size)
      (fun chosen s => (I s ∧ Growing id size geometry index written s) ∧ chosen.1.number = number) I := by
  have ticks : Closed Tick fun s => I s ∧ Growing id size geometry index written s := kept.ticks.and Growing.tick
  refine .bind ((segmentFor_triple ticks).otherwise fun s holds => holds.1) fun found => ?_
  cases live : found.filter fun segment => !segment.deleting with
  | some segment =>
    refine .pure fun s ⟨holds, listed⟩ => ⟨holds, ?_⟩
    exact (listed segment (Option.filter_eq_some_iff.mp live).1).1
  | none =>
    refine .bind (Q := fun _ s => I s ∧ Growing id size geometry index written s) (.when (fun some => ?_)
      fun _ s holds => holds.1) fun _ => ?_
    · refine kept.removeMarked.before fun s ⟨holds, listed⟩ => ⟨holds, ?_⟩
      obtain ⟨segment, same⟩ := Option.isSome_iff_exists.mp some
      obtain ⟨-, row, stored, -, -, deleting⟩ := listed segment same
      refine ⟨row, stored, ?_⟩
      rw [same] at live
      simpa [deleting, Option.filter] using live
    · refine .bind ((nextSerial_keeps ticks).otherwise fun s holds => holds.1) fun token => ?_
      exact .pure fun s holds => ⟨holds, rfl⟩

theorem Kept.openSegment (kept : Kept event start I) {metadata : Metadata} :
    Triple (fun s => I s ∧ Growing id size geometry index written s) (openSegment metadata segment created)
      (fun name s => (I s ∧ Growing id size geometry index written s) ∧ name = segment.name metadata) I := by
  have ticks : Closed Tick fun s => I s ∧ Growing id size geometry index written s := kept.ticks.and Growing.tick
  refine .ite (fun _ => ?_) fun _ => (segmentFile_triple ticks).otherwise fun s holds => holds.1
  refine .bind ((createNew_keeps ticks fun s holds absent => ?_).otherwise fun s holds => holds.1) fun _ => ?_
  · exact ⟨kept.closed s _ holds.1 (.make absent nofun nofun), holds.2.of_versions rfl⟩
  refine .bind ((disk_keeps ticks).otherwise fun s holds => holds.1) fun _ => ?_
  refine .bind (Q := fun _ s => I s ∧ Growing id size geometry index written s)
    (writeAll_triple ticks (fun s holds => ?_) fun s count holds => kept.closed s _ holds.1 .fill)
    fun _ => .pure fun s holds => ⟨holds, rfl⟩
  exact ⟨kept.closed s _ holds.1 .fill, holds.2.of_versions (by rw [onFile_others])⟩

theorem grown_set {before next : Index} {slot : Nat} (grown : Grown before index size written)
    (set : index.set block slot data = .ok next) (inside : block < before.geometry.count)
    (place : slot = block % (size / before.geometry.block))
    (lies : ∃ segment ∈ written, segment.number = segmentOf before.geometry size block) :
    Grown before next size written where
  revises := grown.revises.trans (.set set)
  entries other dirty := by
    obtain ⟨-, -, rfl⟩ := set_eq_ok set
    by_cases same : other = block
    · rw [same]
      exact ⟨_, AList.lookup_insert .., inside, place, lies⟩
    · obtain ⟨entry, listed, rest⟩ := grown.entries other ((List.mem_cons.mp dirty).resolve_left same)
      exact ⟨entry, (AList.lookup_insert_ne same).trans listed, rest⟩

theorem Kept.writeBlocks (kept : Kept event start I) {metadata : Metadata}
    (blocks : List (Nat × List UInt8))
    (sorted : ∀ entry ∈ blocks, entry.1 < metadata.geometry.count ∧ segment.number = segmentOf metadata.geometry size entry.1) :
    Triple (fun s => I s ∧ Growing id size metadata.geometry index (segment :: written) s)
      (writeBlocks (segment.name metadata) metadata size blocks index)
      (fun result s => I s ∧ Growing id size metadata.geometry result (segment :: written) s) I := by
  induction blocks generalizing index with
  | nil =>
    have ticks : Closed Tick fun s => I s ∧ Growing id size metadata.geometry index (segment :: written) s :=
      kept.ticks.and Growing.tick
    exact .bind ((disk_keeps ticks).otherwise fun s holds => holds.1) fun _ => .pure fun s holds => holds
  | cons entry rest ih =>
    have ticks : Closed Tick fun s => I s ∧ Growing id size metadata.geometry index (segment :: written) s :=
      kept.ticks.and Growing.tick
    refine .bind (Q := fun _ s => I s ∧ Growing id size metadata.geometry index (segment :: written) s)
      (writeAll_triple ticks (fun s holds => ?_) fun s count holds => kept.closed s _ holds.1 .fill) fun _ => ?_
    · exact ⟨kept.closed s _ holds.1 .fill, holds.2.of_versions (by rw [onFile_others])⟩
    refine .bind (Q := fun next s => (I s ∧ Growing id size metadata.geometry index (segment :: written) s) ∧
      index.set entry.1 (entry.1 % (size / metadata.geometry.block)) entry.2 = .ok next)
      (liftExcept_triple (fun next set s holds => ⟨holds, set⟩) fun s holds => holds.1) fun next => ?_
    refine (ih fun other member => sorted other (.tail _ member)).before ?_
    rintro s ⟨⟨holds, growing⟩, set⟩
    obtain ⟨current, present, layout, same, grown⟩ := growing.found
    obtain ⟨inside, number⟩ := sorted entry (.head _)
    refine ⟨holds, current, present, layout, same, grown_set grown set ?_ ?_ ⟨segment, .head _, ?_⟩⟩
    all_goals rw [same]
    · exact inside
    · exact number

omit [Sha256] in
theorem Growing.more (growing : Growing id size geometry index written s) :
    Growing id size geometry index (segment :: written) s := by
  obtain ⟨current, found, layout, same, grown⟩ := growing.found
  refine ⟨current, found, layout, same, grown.revises, fun block dirty => ?_⟩
  obtain ⟨entry, listed, inside, slot, other, member, number⟩ := grown.entries block dirty
  exact ⟨entry, listed, inside, slot, other, .tail _ member, number⟩

theorem Kept.measure (kept : Kept event start I) :
    Keeps (fun s => I s ∧ Growing id size geometry index written s) (recordSize name kind) :=
  recordSize_keeps (kept.ticks.and Growing.tick) fun s _ holds _ =>
    ⟨kept.closed s _ holds.1 .measure, holds.2.of_versions rfl⟩

theorem Kept.record (kept : Kept event start I) : Keeps I (recordSize name kind) :=
  recordSize_keeps kept.ticks fun s _ holds _ => kept.closed s _ holds .measure

theorem Kept.writeGroup (kept : Kept event start I) {metadata : Metadata}
    (sorted : ∀ entry ∈ blocks, entry.1 < metadata.geometry.count ∧ segment.number = segmentOf metadata.geometry size entry.1) :
    Triple (fun s => I s ∧ Growing id size metadata.geometry index written s)
      (writeGroup metadata size segment created blocks index)
      (fun result s => I s ∧ Growing id size metadata.geometry result (segment :: written) s) I := by
  refine .bind kept.openSegment fun name => ?_
  refine .bind (Q := fun writing s => match writing with
      | .ok next => I s ∧ Growing id size metadata.geometry next (segment :: written) s
      | .error _ => I s) ?_ fun writing => ?_
  · refine .pointwise fun start ⟨⟨holds, growing⟩, same⟩ => ?_
    rw [same]
    refine .attempt (F := I) ((kept.writeBlocks blocks sorted).before fun s equal => ?_) (fun _ _ holds => holds)
      fun _ holds => holds
    rw [equal]
    exact ⟨holds, growing.more⟩
  · cases writing with
    | error error => exact .bind kept.record fun _ => .fail fun s holds => holds
    | ok next =>
      exact .bind (kept.measure.otherwise fun s holds => holds.1) fun _ => .pure fun s holds => holds

/-- The files of segments that a write has made. -/
def Segments (names : List FileName) : Prop := ∀ name ∈ names, ∃ generation number token, name = .segment generation number token

theorem Kept.writeGroups (kept : Kept event start I) {metadata : Metadata} (groups : Grouped) {created : List FileName}
    (sorted : Sorted metadata.geometry size groups) (made : Segments created) :
    Triple (fun s => I s ∧ Growing id size metadata.geometry index written s)
      (writeGroups id metadata size groups index created written)
      (fun result s => (I s ∧ Segments result.1) ∧ ∀ next segments, result.2 = .ok (next, segments) →
        Growing id size metadata.geometry next segments s) I := by
  induction groups generalizing index created written with
  | nil =>
    refine .pure fun s ⟨holds, growing⟩ => ⟨⟨holds, made⟩, fun next segments same => ?_⟩
    cases same
    exact growing
  | cons group rest ih =>
    refine .bind (Q := fun chosen s => match chosen with
        | .ok chosen => (I s ∧ Growing id size metadata.geometry index written s) ∧ chosen.1.number = group.1
        | .error _ => I s) (.attempt (F := I) kept.chooseSegment (fun _ _ holds => holds) fun _ holds => holds)
      fun chosen => ?_
    cases chosen with
    | error error => exact .pure fun s holds => ⟨⟨holds, made⟩, nofun⟩
    | ok chosen =>
      obtain ⟨segment, new⟩ := chosen
      have names : Segments (if new then segment.name metadata :: created else created) := by
        split
        · intro name member
          rcases List.mem_cons.mp member with rfl | old
          · exact ⟨_, _, _, rfl⟩
          · exact made name old
        · exact made
      refine .bind (Q := fun done s => match done with
          | .ok next => I s ∧ Growing id size metadata.geometry next (segment :: written) s
          | .error _ => I s) ?_ fun done => ?_
      · refine .pointwise fun start ⟨⟨holds, growing⟩, number⟩ => ?_
        refine .attempt (F := I) ((kept.writeGroup fun entry member => ?_).before fun s same => ?_)
          (fun _ _ holds => holds) fun _ holds => holds
        · rw [number]
          exact sorted group (.head _) entry member
        · rw [same]
          exact ⟨holds, growing⟩
      · cases done with
        | error error => exact .pure fun s holds => ⟨⟨holds, names⟩, nofun⟩
        | ok next => exact ih (fun other member => sorted other (.tail _ member)) names

omit [Sha256] in
theorem runAll_upserts {touched : Nat} (written : List Segment) {tables next : Tables}
    (ran : runAll (written.map fun segment tables => some (upsertSegment id touched segment tables)) tables = some next) :
    next = written.foldl (fun tables segment => upsertSegment id touched segment tables) tables := by
  induction written generalizing tables with
  | nil =>
    cases ran
    rfl
  | cons segment rest ih => exact ih ran

theorem Kept.publishWritten (kept : Kept event start I) :
    Triple (fun s => I s ∧ Growing id size geometry index written s) (publishWritten id index written) (fun _ => I) I := by
  have ticks : Closed Tick fun s => I s ∧ Growing id size geometry index written s := kept.ticks.and Growing.tick
  refine .bind ((disk_keeps ticks).otherwise fun s holds => holds.1) fun _ => ?_
  refine .bind ((segmentTick_keeps ticks).otherwise fun s holds => holds.1) fun touched => ?_
  refine .pointwise fun start ⟨holds, growing⟩ => ?_
  obtain ⟨current, present, layout, -, grown⟩ := growing.found
  refine (publishSegmentIndex_triple kept.ticks kept.ticks current fun s tables holds found ran => ?_).before fun s same => ?_
  · obtain ⟨next, patched, rest⟩ := Option.bind_eq_some_iff.mp ran
    rw [runAll_upserts written rest]
    exact kept.closed s _ holds (.publishWritten found layout grown patched)
  · rw [same]
    exact ⟨holds, present⟩

theorem Kept.abandon (kept : Kept event start I)
    (made : ∃ generation number token, name = .segment generation number token) : Keeps I (removeManaged name) :=
  removeManaged_keeps kept.ticks (fun s t holds discard => kept.closed s t holds (.abandon discard)) fun _ _ => made

theorem Kept.writeGrouped (kept : Kept event start I) {metadata : Metadata}
    (layout : metadata.layout = .segments size) (sorted : Sorted metadata.geometry size grouped) :
    Triple (fun s => I s ∧ Named id metadata s) (writeGrouped id metadata size grouped) (fun _ => I) I := by
  have evicts : Closed (Evict Any) fun s => I s ∧ Named id metadata s := kept.evicts.and Named.evict
  have ticks := Settle.ticks (Purge.settles (Evict.purges evicts))
  refine Triple.bind ((evict_keeps evicts (any_entitled ticks)).otherwise fun s holds => holds.1) fun _ => ?_
  refine .bind (resident_triple.otherwise fun s holds => holds.1) fun value => ?_
  refine .bind (Q := fun result s => (I s ∧ Segments result.1) ∧ ∀ next segments, result.2 = .ok (next, segments) →
    Growing id size metadata.geometry next segments s) ?_ fun result => ?_
  · refine (kept.writeGroups grouped sorted fun _ none => absurd none List.not_mem_nil).before ?_
    rintro s ⟨⟨holds, named⟩, found⟩
    have sound := kept.sound s holds
    have same := named.metadata sound found
    obtain ⟨row, stored, alike, mirrors⟩ := sound.residents id value found
    have mirror := mirrors size (by rw [named row stored |> layout_of_core, layout])
    refine ⟨holds, value, found, (layout_of_core same).trans layout, ?_, .refl _, fun block dirty => ?_⟩
    · rw [mirror.geometry, ← geometry_of_core alike, geometry_of_core same]
    · rw [mirror.clean] at dirty
      cases dirty
  · obtain ⟨created, outcome⟩ := result
    refine .bind (Q := fun _ s => I s ∧ Segments created) (.attempt (F := fun s => I s ∧ Segments created) ?_
      (fun _ _ holds => holds) fun _ holds => holds.1) fun result => ?_
    · cases outcome with
      | error error => exact .bind (Q := fun _ _ => False) (.fail fun s holds => holds.1) fun _ _ none => none.elim
      | ok done =>
        obtain ⟨next, segments⟩ := done
        refine .bind (Q := fun done s => ((I s ∧ Segments created) ∧
          Growing id size metadata.geometry next segments s) ∧ done = (next, segments))
          (.pure fun s holds => ⟨⟨holds.1, holds.2 next segments rfl⟩, rfl⟩) fun done => ?_
        refine .pointwise fun start ⟨⟨⟨holds, made⟩, growing⟩, same⟩ => ?_
        rw [same]
        have published : Triple (fun s => I s ∧ Growing id size metadata.geometry next segments s)
          (CacheStore.publishWritten id next segments) (fun _ => I) I := kept.publishWritten
        refine published.weaken (fun s equal => ?_) (fun _ s holds => ⟨holds, made⟩) fun s holds => ⟨holds, made⟩
        rw [equal]
        exact ⟨holds, growing⟩
    · cases result with
      | ok _ => exact .pure fun s holds => holds.1
      | error error =>
        refine .pointwise fun start ⟨holds, made⟩ => .before (P := I) ?_ fun s same => same ▸ holds
        refine Keeps.bind (Keeps.loop fun name member _ => ?_) fun _ => Keeps.fail
        exact .bind (.attempt (kept.abandon (made name member))) fun _ => .pure

theorem Kept.writeSegments (kept : Kept event start I) : Keeps I (writeSegments id blocks) := by
  refine Keeps.bind kept.repairSegments fun _ => Triple.bind resident_triple fun value => ?_
  refine Triple.bind (Q := fun size s => (I s ∧ s.versions.lookup id = some value) ∧
      value.metadata.layout = .segments size) (Triple.require (fun size layout s holds => ⟨holds, ?_⟩) fun _ s holds => holds.1)
    fun size => ?_
  · cases shape : value.metadata.layout with
    | blocks =>
      rw [shape] at layout
      cases layout
    | segments bytes =>
      rw [shape] at layout
      cases layout
      rfl
  refine .bind (Q := fun grouped s => ((I s ∧ s.versions.lookup id = some value) ∧
      value.metadata.layout = .segments size) ∧ groupBlocks value size blocks [] = .ok grouped)
    (liftExcept_triple (fun grouped same s holds => ⟨holds, same⟩) fun s holds => holds.1.1) fun grouped => ?_
  refine .ite (fun _ => .pure fun s holds => holds.1.1.1) fun _ => ?_
  refine .pointwise fun start ⟨⟨⟨holds, found⟩, layout⟩, same⟩ => ?_
  have sorted := groupBlocks_sorted blocks same fun _ none => absurd none List.not_mem_nil
  have named : Closed Pin fun s => I s ∧ Named id value.metadata s := by
    refine kept.pins.and fun s t named pin => ?_
    cases pin with
    | tick tick =>
      cases tick
      exact named
    | _ => exact named
  refine (holdingPins_triple named kept.pins (fun s holds => holds.1) (kept.writeGrouped layout sorted) _).before
    fun s equal => ?_
  rw [equal]
  exact ⟨holds, .of_found (kept.sound start holds) found⟩

theorem Kept.write (kept : Kept event start I) (writes : Writes I) {blocks : List (Nat × List UInt8)} :
    Keeps I (CacheStore.write id blocks) := by
  have ticks := kept.ticks
  refine Keeps.bind (checkActive_keeps ticks) fun _ => Triple.bind (load_sound kept.settles) fun value => ?_
  refine .ite (fun _ => ?_) fun blocksLayout => ?_
  · refine Triple.before (Keeps.bind kept.writeSegments fun _ => ?_) fun s holds => holds.1
    exact Keeps.bind kept.load fun _ => Keeps.pure
  · refine Triple.bind (Q := fun _ => I) ?_ fun result => ?_
    · refine Triple.before (P := fun s => I s ∧ Named id value.metadata s) (Triple.attempt (F := I)
        (writes id value.metadata blocks (not_not.mp blocksLayout)) (fun _ _ holds => holds) fun _ holds => holds)
        fun s holds => ?_
      exact ⟨holds.1, .of_found (kept.sound s holds.1) holds.2⟩
    · refine .bind Keeps.state fun s => .bind ?_ fun _ => .bind liftExcept_keeps fun _ => ?_
      · cases s.versions.lookup id with
        | none => exact Keeps.pure
        | some value => exact kept.record
      · exact Keeps.bind kept.load fun _ => Keeps.pure

theorem Kept.updateVersion (kept : Kept event start I) {held : Version} {store : Bool} :
    Triple (fun s => I s ∧ held ∈ s.handles) (updateVersion held.id { held.metadata with store := store }) (fun _ => I) I := by
  have handles : Closed (Settle Any) fun s => I s ∧ held ∈ s.handles := by
    refine kept.settles.and fun s t member settle => ?_
    rw [settle.frame.part Storage.handles fun _ => rfl]
    exact member
  have ticks := Settle.ticks handles
  refine Triple.bind (Q := fun _ s => I s ∧ held ∈ s.handles) ((execute_keeps ticks fun s holds =>
    ⟨kept.closed s _ holds.1 (.refreshRow holds.2), holds.2⟩).otherwise fun s holds => holds.1) fun _ => ?_
  refine Triple.bind ((load_sound handles).otherwise fun s holds => holds.1) fun value => ?_
  exact Triple.update fun s ⟨⟨holds, member⟩, found⟩ => kept.closed s _ holds (.refresh member found)

theorem Kept.invalidate (kept : Kept event start I) {provider : Int} (asked : event = .invalidate provider) :
    Keeps I (CacheStore.invalidate provider) := by
  have ticks := kept.ticks
  refine .bind ?_ fun _ => .bind (.update fun s holds => kept.closed s _ holds .revoke) fun _ => ?_
  · refine .bind (query_keeps ticks) fun tokens => .bind (.loop fun token _ _ => ?_) fun _ => .pure
    exact Keeps.bind (Keeps.attempt (deletePack_keeps (Evict.unpacks kept.evicts))) fun _ => Keeps.pure
  · exact .bind (execute_keeps ticks fun s holds => kept.closed s _ holds (.invalidate asked)) fun _ => kept.evict

theorem Kept.complete (kept : Kept event start I) : Keeps I (complete id) :=
  Keeps.bind kept.repairSegments fun _ => .bind kept.load fun _ => .pure

theorem Kept.covered (kept : Kept event start I) : Keeps I (covered id range) :=
  Keeps.bind kept.repairSegments fun _ => .bind kept.load fun _ => .pure

theorem Kept.missingRange (kept : Kept event start I) : Keeps I (missingRange id range) :=
  Keeps.bind kept.repairSegments fun _ => .bind kept.load fun _ => .pure

theorem Kept.window (kept : Kept event start I) : Keeps I (window id range) := by
  refine .bind (checkActive_keeps kept.ticks) fun _ => .bind kept.load fun value => ?_
  refine .bind Keeps.ensure fun _ => ?_
  cases value.metadata.layout.segmentBytes with
  | none => exact .pure
  | some size => exact pinSegments_keeps kept.pins

end Qcm.CacheSteps
