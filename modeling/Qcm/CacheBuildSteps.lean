import Qcm.CacheFileSteps

/-!
Conversions, leases of published files, and the launch of a cache are runs of
changes too.
-/

namespace Qcm.CacheSteps

open Qcm.Lib Qcm.Lib.Act Qcm.ResourceFormat Qcm.CacheState Qcm.CacheDisk Qcm.CacheLoad Qcm.CacheStore
  Qcm.CacheObjects Qcm.CacheFiles Qcm.CacheEvents Qcm.CacheRules Qcm.CacheSettle Qcm.CachePurge Qcm.CacheSound
  Qcm.CacheChange

variable [Sha256] {event : Event} {start : Storage} {I : Storage → Prop}

/-! ## Starting a conversion -/

variable {id : Nat} {generation : String} {s : Storage} {may : Storage → Nat → Nat → Prop}

theorem Kept.idle (kept : Kept event start I) : Kept event start fun s => I s ∧ s.worker = .idle := by
  refine ⟨kept.closed.and fun s t idle change => ?_, fun s holds => kept.sound s holds.1⟩
  rw [change_worker change, idle]

theorem Kept.expireLeases (kept : Kept event start I) : Keeps I expireLeases :=
  expireLeases_keeps (Purge.expires kept.purges)

omit [Sha256] in
theorem deferBuild_keeps (ticks : Closed Tick I)
    (keep : ∀ s id till, I s → I { s with tables := deferRow id till s.tables }) : Keeps I (deferBuild id) :=
  Keeps.bind (leaseNow_keeps ticks) fun _ => execute_keeps ticks fun s holds => keep s _ _ holds

theorem Kept.cleanupPlainData (kept : Kept event start I) : Keeps I cleanupPlainData := by
  refine Triple.bind (query_triple kept.ticks) fun names => ?_
  let Pre : Storage → Prop := fun s => I s ∧ ∀ name ∈ names, Superseded s name
  have steady : Closed Tick Pre := Tick.beside kept.ticks fun holds => holds
  have removed : Keeps Pre (do for name in names do removeRecorded name) := by
    refine Keeps.bind (Keeps.loop fun name member _ => Keeps.bind ?_ fun _ => Keeps.pure) fun _ => Keeps.pure
    refine Keeps.bind Keeps.state fun s => Keeps.when fun _ => ?_
    refine removeManaged_keeps steady (fun s t holds discard => ?_) fun s holds => holds.2 name member
    have next := kept.closed s t holds.1 (.supersede discard)
    cases discard <;> exact ⟨next, holds.2⟩
  refine removed.weaken ?_ (fun _ s holds => holds.1) fun s holds => holds.1
  rintro s ⟨holds, rfl⟩
  refine ⟨holds, fun name member => ?_⟩
  obtain ⟨entry, listed, same⟩ := List.mem_filterMap.mp member
  split at same <;> cases same
  rename_i ready
  exact ⟨entry.1, entry.2, (Hash.lookup_eq_some_iff ..).mpr listed, ready, rfl⟩

/-- The conversion of a version may be started: it has published nothing. -/
structure Startable (generation : String) (id : Nat) (s : Storage) : Prop where
  idle : s.building = none ∨ s.worker = .idle
  row : ∃ row, s.tables.versions.lookup id = some row ∧ row.generation = generation
  unready : ¬ Ready s.tables.completeFiles id

omit [Sha256] in
theorem Startable.tick : Closed Tick (Startable generation id) := by
  rintro s _ startable ⟨⟩
  exact ⟨startable.idle, startable.row, startable.unready⟩

omit [Sha256] in
theorem Startable.reason {name : FileName} (startable : Startable generation id s)
    (listed : name ∈ unpublished generation) : Unpublished s name := by
  obtain ⟨row, stored, rfl⟩ := startable.row
  exact ⟨startable.idle, id, row, stored, startable.unready, listed⟩

omit [Sha256] in
theorem Startable.discard {why : Storage → FileName → Prop} :
    Closed (Discard why) (Startable generation id) := by
  intro s t startable discard
  cases discard <;> exact ⟨startable.idle, startable.row, startable.unready⟩

/-- The files of an unpublished conversion are no garbage, but for those still to be removed. -/
def Cleared (generation : String) (rest : List FileName) (s : Storage) : Prop :=
  ∀ name ∈ unpublished generation, name ∉ rest → s.garbage.lookup name = none

omit [Sha256] in
theorem clearName_triple (closed : Closed Clear I) {name : FileName} (rest : List FileName)
    (listed : name ∈ unpublished generation) :
    Triple (fun s => (I s ∧ Startable generation id s) ∧ Cleared generation (name :: rest) s) (removeManaged name)
      (fun _ s => (I s ∧ Startable generation id s) ∧ Cleared generation rest s)
      fun s => I s ∧ Startable generation id s := by
  have ticks : Closed Tick I := closed.mono fun _ _ => .tick
  have cleared : Closed Tick fun s => (I s ∧ Startable generation id s) ∧ Cleared generation (name :: rest) s :=
    Tick.beside (ticks.and Startable.tick) fun holds => holds
  have discards : Closed (Discard fun s other => other = name ∧ Startable generation id s) fun s =>
      I s ∧ Startable generation id s := by
    rintro s t ⟨holds, startable⟩ discard
    refine ⟨closed s t holds (.discard ?_), .discard s t startable discard⟩
    cases discard with
    | unlink reason =>
      obtain ⟨rfl, startable⟩ := reason
      exact .unlink (startable.reason listed)
    | litter reason =>
      obtain ⟨rfl, startable⟩ := reason
      exact .litter (startable.reason listed)
    | forget reason gone =>
      obtain ⟨rfl, startable⟩ := reason
      exact .forget (startable.reason listed) gone
  refine removeManaged_triple cleared ?_ ?_ ?_ fun s holds => holds.1
  · exact fun s ⟨holds, clean⟩ => ⟨discards s _ holds (.unlink ⟨rfl, holds.2⟩), clean⟩
  · refine fun s ⟨holds, clean⟩ gone => ⟨discards s _ holds (.forget ⟨rfl, holds.2⟩ gone), fun other member outside => ?_⟩
    rw [Hash.lookup_erase]
    split
    · rfl
    · rename_i apart
      exact clean other member fun inside => (List.mem_cons.mp inside).elim apart outside
  · exact fun s ⟨holds, clean⟩ => discards s _ holds (.litter ⟨rfl, holds.2⟩)

omit [Sha256] in
theorem removeUnpublished_triple (closed : Closed Clear I) :
    Triple (fun s => I s ∧ Startable generation id s) (removeUnpublished generation)
      (fun _ s => (I s ∧ Startable generation id s) ∧ Cleared generation [] s) fun s => I s ∧ Startable generation id s := by
  let Left : List FileName → PUnit → Storage → Prop := fun rest _ s =>
    (∀ name ∈ rest, name ∈ unpublished generation) ∧ (I s ∧ Startable generation id s) ∧ Cleared generation rest s
  have turns : Triple (Left (unpublished generation) ⟨⟩) (forIn (unpublished generation) PUnit.unit fun name _ => do
      removeManaged name
      pure (.yield PUnit.unit)) (Left []) fun s => I s ∧ Startable generation id s := by
    refine .loopRest fun name others _ => ?_
    refine .bind (Q := fun _ => Left others ⟨⟩) ?_ fun _ => .pure fun s holds => holds
    refine .pointwise fun start ⟨inside, holds, cleared⟩ => ?_
    refine (clearName_triple closed others (inside name (.head _))).weaken (fun s same => ?_)
      (fun _ s holds => ⟨fun other member => inside other (.tail _ member), holds⟩) fun s holds => holds
    rw [same]
    exact ⟨holds, cleared⟩
  refine .bind (turns.before fun s holds => ⟨fun _ member => member, holds, fun name member outside => ?_⟩)
    fun _ => .pure fun s holds => holds.2
  exact absurd member outside

omit [Sha256] in
theorem evict_ready {t : Storage} (evict : Evict may s t) (ready : Ready t.tables.completeFiles id) :
    Ready s.tables.completeFiles id := by
  cases evict with
  | unpack unpack =>
    rw [unpack_tables unpack] at ready
    exact ready
  | purge purge =>
    cases purge with
    | settle settle =>
      rw [settle.frame.part (fun s => s.tables.completeFiles) fun _ => rfl] at ready
      exact ready
    | expire expire =>
      cases expire with
      | tick tick =>
        cases tick
        exact ready
      | _ => exact ready
    | obsolete unheld =>
      rw [changeVersion_others] at ready
      exact ready
    | release unheld => exact ready
    | discard discard => cases discard <;> exact ready
    | @deleteRows gone unheld absent =>
      change ((s.tables.completeFiles.erase gone).lookup id).any CompleteRow.ready = true at ready
      rw [Hash.lookup_erase] at ready
      split at ready
      · cases ready
      · exact ready

omit [Sha256] in
theorem ready_defer {till other : Nat} (ready : Ready (deferRow id till s.tables).completeFiles other) :
    Ready s.tables.completeFiles other := by
  rw [Ready, deferRow, Hash.lookup_insert] at ready
  split at ready
  · rename_i same
    rw [Ready, same]
    cases found : s.tables.completeFiles.lookup id with
    | none =>
      rw [found] at ready
      cases ready
    | some row =>
      rw [found] at ready
      exact ready
  · exact ready

/-- The worker is idle, and the versions it may turn to have published nothing. -/
structure Waiting (ids : List Nat) (s : Storage) : Prop where
  idle : s.worker = .idle
  unready : ∀ id ∈ ids, ¬ Ready s.tables.completeFiles id

variable {ids : List Nat}

omit [Sha256] in
theorem Waiting.evict : Closed (Evict may) (Waiting ids) := by
  intro s t waiting evict
  refine ⟨?_, fun id member ready => waiting.unready id member (evict_ready evict ready)⟩
  rw [evict_part evict Storage.worker fun _ => rfl, waiting.idle]

omit [Sha256] in
theorem Waiting.tick : Closed Tick (Waiting ids) := by
  rintro s _ waiting ⟨⟩
  exact ⟨waiting.idle, waiting.unready⟩

omit [Sha256] in
theorem Waiting.clear : Closed Clear (Waiting ids) := by
  intro s t waiting clear
  cases clear with
  | tick tick => exact .tick s _ waiting tick
  | discard discard => cases discard <;> exact ⟨waiting.idle, waiting.unready⟩

omit [Sha256] in
theorem Waiting.hold : Closed Hold (Waiting ids) := by
  intro s t waiting hold
  cases hold with
  | settle settle => exact .evict s _ waiting (.purge (.settle settle))
  | _ => exact ⟨waiting.idle, waiting.unready⟩

omit [Sha256] in
theorem Waiting.defer {s : Storage} (waiting : Waiting ids s) {id till : Nat} :
    Waiting ids { s with tables := deferRow id till s.tables } :=
  ⟨waiting.idle, fun other member ready => waiting.unready other member (ready_defer ready)⟩

theorem Kept.deferWaiting (kept : Kept event start I) :
    Keeps (fun s => I s ∧ Waiting ids s) (CacheFiles.deferBuild id) :=
  deferBuild_keeps (kept.ticks.and Waiting.tick) fun s _ _ holds => ⟨kept.closed s _ holds.1 .defer, holds.2.defer⟩

/-- The worker is about to take up a conversion that is set up. -/
def Begun (I : Storage → Prop) (held : Version) (s : Storage) : Prop := I { s with worker := .copying held 0 [] }

theorem Kept.startBuild (kept : Kept event start I) (works : Closed Work I) {held : Version} (listed : held.id ∈ ids)
    (layout : held.metadata.layout = .blocks) :
    Triple (fun s => (I s ∧ Waiting ids s) ∧ held ∈ s.handles) (startBuild held)
      (fun started s => (started = true → Begun I held s) ∧ (started = false → I s ∧ Waiting ids s))
      fun s => I s ∧ Waiting ids s := by
  let Pre : Storage → Prop := fun s => (I s ∧ Waiting ids s) ∧ held ∈ s.handles
  have evicts : Closed (Evict Any) Pre := by
    refine (kept.evicts.and Waiting.evict).and fun s t member evict => ?_
    rw [evict_part evict Storage.handles fun _ => rfl]
    exact member
  have ticks := Settle.ticks (Purge.settles (Evict.purges evicts))
  have clears : Closed Clear Pre := by
    refine ((kept.closed.mono fun _ _ => .clear).and Waiting.clear).and fun s t member clear => ?_
    cases clear with
    | tick tick =>
      cases tick
      exact member
    | discard discard => cases discard <;> exact member
  have startable : ∀ s, Pre s → Startable held.metadata.generation held.id s := by
    intro s ⟨⟨holds, waiting⟩, member⟩
    obtain ⟨row, stored, -, generation⟩ := (kept.sound s holds).heldRow member
    exact ⟨.inr waiting.idle, ⟨row, stored, generation⟩, waiting.unready held.id listed⟩
  have removed : Triple Pre (CacheFiles.removeUnpublished held.metadata.generation)
      (fun _ s => Pre s ∧ Cleared held.metadata.generation [] s) Pre :=
    (removeUnpublished_triple clears).weaken (fun s holds => ⟨holds, startable s holds⟩)
      (fun _ s holds => ⟨holds.1.1, holds.2⟩) fun s holds => holds.1
  have drop : ∀ s, Pre s → I s ∧ Waiting ids s := fun s holds => holds.1
  have deferred : Triple Pre (do CacheFiles.deferBuild held.id; pure false)
      (fun started s => (started = true → Begun I held s) ∧ (started = false → I s ∧ Waiting ids s))
      fun s => I s ∧ Waiting ids s :=
    Triple.bind (kept.deferWaiting.before drop) fun _ => Triple.pure fun s holds => ⟨nofun, fun _ => holds⟩
  refine Triple.bind (Q := fun _ => Pre) (Triple.attempt (removed.after fun _ s holds => holds.1) (fun _ _ => id) drop)
    fun cleaned => ?_
  cases cleaned with
  | error error => exact deferred
  | ok _ =>
    refine Triple.bind ((Keeps.attempt (evict_keeps evicts (any_entitled ticks))).otherwise drop) fun room => ?_
    cases room with
    | error error => exact deferred
    | ok _ =>
      let Prepared : Storage → Prop := fun s => Pre s ∧ Cleared held.metadata.generation [] s
      have prepared : Closed Tick Prepared := Tick.beside ticks fun holds => holds
      refine Triple.bind (Q := fun done s => Pre s ∧ (done.isOk → Prepared s)) (Triple.attempt (F := Pre) ?_
        (fun _ s holds => ⟨holds, nofun⟩) drop) fun done => ?_
      · refine Triple.bind removed fun _ => Triple.bind (Q := fun _ => Prepared)
          ((createNew_triple prepared fun s holds absent => ?_).otherwise fun s holds => holds.1) fun _ => ?_
        · refine ⟨⟨⟨kept.closed s _ holds.1.1.1 (.make absent nofun nofun), holds.1.1.2.idle, holds.1.1.2.unready⟩, holds.1.2⟩, holds.2⟩
        · exact (disk_keeps prepared).weaken (fun _ => id) (fun _ s holds => ⟨holds.1, fun _ => holds⟩)
            fun s holds => holds.1
      · cases done with
        | error error => exact deferred.before fun s holds => holds.1
        | ok _ =>
          refine Triple.bind ((recordSize_keeps prepared fun s bytes holds _ => ?_).weaken (fun s holds => holds.2 rfl)
            (fun _ _ => id) fun s holds => holds.1.1) fun _ => ?_
          · exact ⟨⟨⟨kept.closed s _ holds.1.1.1 .measure, holds.1.1.2.idle, holds.1.1.2.unready⟩, holds.1.2⟩, holds.2⟩
          · refine Triple.bind (Q := fun _ => Begun I held) (Triple.update fun s holds => ?_)
              fun _ => Triple.pure fun s holds => ⟨fun _ => holds, nofun⟩
            exact works s _ holds.1.1.1 (.start holds.1.2 layout fun name member => holds.2 name member nofun)

omit [Sha256] in
theorem convertible_layout {value : Resident} (chosen : convertible value = true) : value.metadata.layout = .blocks := by
  simp only [convertible, Bool.and_eq_true, decide_eq_true_eq] at chosen
  exact chosen.1.1.1.1

/-- What the search for a conversion comes to. -/
def Searched (I : Storage → Prop) (ticket : Option Version) (s : Storage) : Prop :=
  match ticket with
  | some held => Begun I held s
  | none => I s

omit [Sha256] in
theorem Named.hold {metadata : Metadata} : Closed Hold (Named id metadata) := by
  intro s t named hold
  cases hold with
  | settle settle => exact .evict s _ named (.purge (.settle settle))
  | _ => exact named

theorem Kept.tryBuilds (kept : Kept event start I) (works : Closed Work I) (rest : List Nat) (inside : ∀ id ∈ rest, id ∈ ids) :
    Triple (fun s => I s ∧ Waiting ids s) (tryBuilds rest) (Searched I) I := by
  have holding : Closed Hold fun s => I s ∧ Waiting ids s := (kept.closed.mono fun _ _ => .hold).and Waiting.hold
  have evicts : Closed (Evict Any) fun s => I s ∧ Waiting ids s := kept.evicts.and Waiting.evict
  have settles := Purge.settles (Evict.purges evicts)
  have drop : ∀ s, I s ∧ Waiting ids s → I s := fun s holds => holds.1
  induction rest with
  | nil => exact .pure drop
  | cons id rest ih =>
    have later := ih fun other member => inside other (.tail _ member)
    refine .bind (Q := fun _ s => I s ∧ Waiting ids s) (.update fun s holds =>
      ⟨kept.closed s _ holds.1 .scan, holds.2.idle, holds.2.unready⟩) fun _ => ?_
    refine .bind (Q := fun loaded s => (I s ∧ Waiting ids s) ∧
        ∀ value, loaded = .ok value → Named id value.metadata s)
      (.attempt ((load_sound settles).after fun value s holds => ⟨holds.1, fun other same => ?_⟩)
        (fun error s holds => ⟨holds, ?_⟩) drop) fun loaded => ?_
    · cases same
      exact .of_found (kept.sound s holds.1.1) holds.2
    · rintro value ⟨⟩
    cases loaded with
    | error error => exact later.before fun s holds => holds.1
    | ok value =>
      refine .ite (fun _ => later.before fun s holds => holds.1) fun chosen => ?_
      have layout := convertible_layout (not_not.mp chosen)
      have named : Closed Hold fun s => (I s ∧ Waiting ids s) ∧ Named id value.metadata s := holding.and Named.hold
      refine .bind (Q := fun held s => ((I s ∧ Waiting ids s) ∧ held ∈ s.handles) ∧ held.id ∈ ids ∧
          held.metadata.layout = .blocks) ?_ fun held => ?_
      · refine (version_triple named fun s holds => kept.sound s holds.1.1).weaken (fun s holds => ⟨holds.1, holds.2 value rfl⟩)
          ?_ fun s holds => holds.1.1
        rintro held s ⟨⟨holds, named⟩, granted⟩
        obtain ⟨found, present, same⟩ := granted.resident
        refine ⟨⟨holds, granted.member⟩, granted.same ▸ inside id (.head _), ?_⟩
        rw [← same, layout_of_core (named.metadata (kept.sound s holds.1) present), layout]
      · refine .pointwise fun first ⟨⟨holds, member⟩, listed, blocks⟩ => ?_
        have dropped : ∀ s, I s ∧ Waiting ids s → I (dropHandle held s) ∧ Waiting ids (dropHandle held s) := by
          rintro s ⟨holds, waiting⟩
          refine ⟨kept.closed s _ holds (.dropHandle fun working busy => ?_), waiting.idle, waiting.unready⟩
          rw [waiting.idle] at busy
          cases busy
        refine .bind (Q := fun started s => (started = true → Begun I held s) ∧ (started = false → I s ∧ Waiting ids s))
          (.onError ((kept.startBuild works listed blocks).before fun s same => ?_) (fun s holds => (dropped s holds).1) drop)
          fun started => ?_
        · rw [same]
          exact ⟨holds, member⟩
        · refine .ite (fun yes => .pure fun s holds => holds.1 yes) fun no => ?_
          refine .bind (Q := fun _ s => I s ∧ Waiting ids s) (.update fun s holds => dropped s (holds.2 ?_))
            fun _ => later
          exact Bool.eq_false_iff.mpr no

omit [Sha256] in
theorem mem_buildCandidates {time cursor : Nat} {tables : Tables}
    (member : id ∈ buildCandidates time cursor tables) : ¬ Ready tables.completeFiles id := by
  have sorted := (List.mem_insertionSort _).mp (List.mem_of_mem_take member)
  obtain ⟨entry, listed, rfl⟩ := List.mem_map.mp sorted
  have passes := (List.mem_filter.mp listed).2
  simp only [Bool.and_eq_true] at passes
  intro ready
  rw [Ready] at ready
  cases found : tables.completeFiles.lookup entry.1 with
  | none =>
    rw [found] at ready
    cases ready
  | some row =>
    rw [found] at ready passes
    have unready := passes.2
    simp only [Option.any_some] at ready
    simp [ready] at unready

theorem Kept.nextBuild (kept : Kept event start I) (works : Closed Work I) :
    Triple (fun s => I s ∧ s.worker = .idle) nextBuild (Searched I) I := by
  have quiet := kept.idle
  have ticks := quiet.ticks
  have drop : ∀ s, I s ∧ s.worker = .idle → I s := fun s holds => holds.1
  refine Triple.bindState fun found => Triple.ite (fun _ => Triple.pure fun s holds => drop s holds.1) fun _ => ?_
  refine Triple.before (P := fun s => I s ∧ s.worker = .idle) ?_ fun s holds => holds.1
  refine Triple.bind (quiet.expireLeases.otherwise drop) fun _ => ?_
  refine Triple.bind ((cleanupGarbage_keeps ticks (quiet.closed.mono fun _ _ => .cleanup)).otherwise drop) fun _ => ?_
  refine Triple.bind (quiet.cleanupPlainData.otherwise drop) fun _ => ?_
  refine Triple.bind ((Keeps.attempt quiet.evict).otherwise drop) fun _ => ?_
  refine Triple.bind ((leaseNow_keeps ticks).otherwise drop) fun time => Triple.bindState fun found => ?_
  refine Triple.before (P := fun s => I s ∧ s.worker = .idle) ?_ fun s holds => holds.1
  refine Triple.bind ((query_triple ticks).otherwise drop) fun ids => ?_
  refine Triple.ite (fun _ => ?_) fun _ => ?_
  · exact Triple.bind (Q := fun _ => I) (Triple.update fun s holds => kept.closed s _ holds.1.1 .scan) fun _ =>
      Triple.pure fun s holds => holds
  · refine (kept.tryBuilds works ids fun _ => id).before ?_
    rintro s ⟨⟨holds, idle⟩, rfl⟩
    exact ⟨holds, idle, fun id member => mem_buildCandidates member⟩

/-! ## Copying and publishing -/

omit [Sha256] in
theorem checkBuild_triple (ticks : Closed Tick I) :
    Triple I (checkBuild id) (fun _ s => I s ∧ s.building.isSome) I := by
  have building : Closed Tick fun s => I s ∧ s.building.isSome := Tick.beside ticks fun holds => holds
  refine .bindState fun found => ?_
  refine .bind (Q := fun _ s => I s ∧ s.building.isSome) (.ensure (fun current s holds => ⟨holds.1, ?_⟩)
    fun _ s holds => holds.1) fun _ => ?_
  · rw [holds.2]
    cases present : found.building with
    | none =>
      rw [present] at current
      cases current
    | some build => rfl
  · refine .bind ((query_keeps building).otherwise fun s holds => holds.1) fun row => ?_
    exact .ensure (fun _ s holds => holds) fun _ s holds => holds.1

omit [Sha256] in
theorem building_settle : Closed (Settle may) fun s => s.building.isSome := by
  intro s t building settle
  rw [settle.frame.part Storage.building fun _ => rfl]
  exact building

omit [Sha256] in
theorem checkBuild_keeps (ticks : Closed Tick I) : Keeps I (checkBuild id) :=
  (checkBuild_triple ticks).after fun _ _ holds => holds.1

theorem Kept.readForBuild (kept : Kept event start I) {block : Nat} : Keeps I (readForBuild id block) :=
  Keeps.bind (checkBuild_keeps kept.ticks) fun _ => .bind kept.read fun _ => .require

theorem Kept.reserve (kept : Kept event start I) {remaining : Nat} (holds : I s)
    (building : s.building.isSome) :
    I { s with building := s.building.map fun build => { build with remaining := remaining } } := by
  obtain ⟨build, current⟩ := Option.isSome_iff_exists.mp building
  rw [current]
  exact kept.closed s _ holds (.reserve current)

theorem Kept.copiedBlock (kept : Kept event start I) {bytes : Nat} : Keeps I (copiedBlock id bytes) := by
  have settles : Closed (Settle Any) fun s => I s ∧ s.building.isSome := kept.settles.and building_settle
  refine Triple.bind (checkBuild_triple kept.ticks) fun _ => ?_
  refine Triple.bind ((load_sound settles).weaken (fun s holds => holds) (fun _ s holds => holds.1) fun s holds => holds.1)
    fun value => Triple.update fun s ⟨holds, building⟩ => ?_
  have measured : I { s with
      sizes := s.sizes.insert (.okTmp value.metadata.generation) (bytes, value.metadata.kind) } :=
    kept.closed s _ holds .measure
  exact kept.reserve measured building

/-- The worker is at a conversion of this version. -/
def Working (held : Version) (s : Storage) : Prop := Worker.held s.worker = some held

variable {held : Version}

theorem Kept.working (kept : Kept event start I) : Kept event start fun s => I s ∧ Working held s := by
  refine ⟨kept.closed.and fun s t working change => ?_, fun s holds => kept.sound s holds.1⟩
  rw [Working, change_worker change]
  exact working

theorem admitPublication_triple (settles : Closed (Settle Any) I) :
    Triple I (admitPublication held)
      (fun _ s => (I s ∧ s.building.isSome) ∧ s.files.lookup (.ok held.metadata.generation) = none) I := by
  have building : Closed (Settle Any) fun s => I s ∧ s.building.isSome := settles.and building_settle
  have ticks := Settle.ticks building
  have drop : ∀ s, I s ∧ s.building.isSome → I s := fun s holds => holds.1
  refine Triple.bind (checkBuild_triple (Settle.ticks settles)) fun _ => ?_
  refine Triple.bind (Keeps.state.otherwise drop) fun s => Triple.bind (Keeps.ensure.otherwise drop) fun _ => ?_
  refine Triple.bind ((load_sound building).weaken (fun s holds => holds) (fun _ s holds => holds.1) drop) fun value => ?_
  refine Triple.bind (Keeps.ensure.otherwise drop) fun _ => Triple.bind ((regularFile_keeps ticks).otherwise drop) fun _ => ?_
  refine Triple.bind ((fileLength_keeps ticks).otherwise drop) fun length => ?_
  refine Triple.bind (Keeps.ensure.otherwise drop) fun _ => Triple.bind ((disk_keeps ticks).otherwise drop) fun _ => ?_
  refine Triple.bindState fun found => Triple.ensure (fun free s holds => ⟨holds.1, ?_⟩) fun _ s holds => holds.1.1
  rw [holds.2]
  exact Option.isNone_iff_eq_none.mp free

omit [Sha256] in
theorem resident_present {P E : Storage → Prop} {value : Resident} :
    Triple (fun s => P s ∧ s.versions.lookup id = some value) (resident id) (fun found s => P s ∧ found = value) E := by
  rintro s ⟨holds, present⟩
  have found : CacheLoad.resident id s = (.ok value, s) := by
    simp [CacheLoad.resident, Act.state, bind, pure, present]
  rw [found]
  exact ⟨holds, rfl⟩

theorem Kept.publishLast (kept : Kept event start I) (working : ∀ s, I s → Working held s) {digest : Digest} :
    Triple (fun s => I s ∧ s.building.isSome)
      (do
        transaction [fun tables => some (publishRow held.id held.metadata.geometry.length digest tables)]
        let value ← resident held.id
        putResident held.id { value with file := some (.ok held.metadata.generation), plain := true }
        update fun s => { s with building := none }
        let _ ← attempt CacheFiles.cleanupPlainData)
      (fun _ => I) I := by
  refine .pointwise fun begun ⟨holds, building⟩ => ?_
  have links := (kept.sound begun holds).held
  obtain ⟨value, present, -⟩ := links.residents held (links.worker held (working begun holds)).1
  let Pre : Storage → Prop := fun s => I s ∧ s.building.isSome ∧ s.versions.lookup held.id = some value
  have ticks : Closed Tick Pre := Tick.beside kept.ticks fun holds => holds
  let Done : Storage → Prop := fun s => I { s with
    versions := s.versions.insert held.id { value with file := some (.ok held.metadata.generation), plain := true }
    building := none }
  have done : Closed Tick Done := by
    rintro s _ holds ⟨_, _, _, _, _, later, more⟩
    exact kept.ticks _ _ holds (.pass _ _ _ _ _ _ later more)
  have landed : Closed Tick fun s => Done s ∧ s.versions.lookup held.id = some value :=
    Tick.beside done fun holds => holds
  refine .bind (Q := fun _ s => Done s ∧ s.versions.lookup held.id = some value)
    ((transaction_triple ticks landed fun s tables ⟨holds, building, present⟩ ran => ?_).weaken (fun s same => ?_)
      (fun _ _ => id) fun s holds => holds.1) fun _ => ?_
  · cases ran
    exact ⟨kept.closed s _ holds (.publishRow (working s holds) building present), present⟩
  · rw [same]
    exact ⟨holds, building, present⟩
  · refine .bind resident_present fun found => ?_
    refine .bind (Q := fun _ s => I { s with building := none }) (.update ?_) fun _ => ?_
    · rintro s ⟨holds, rfl⟩
      exact holds
    refine .bind (Q := fun _ => I) (.update fun s holds => holds) fun _ => ?_
    exact Keeps.bind (Keeps.attempt kept.cleanupPlainData) fun _ => Keeps.pure

theorem Kept.publishFile (kept : Kept event start I) (working : ∀ s, I s → Working held s) {digest : Digest} :
    Keeps I (publishFile held digest) := by
  refine Triple.bind (admitPublication_triple kept.settles) fun _ => ?_
  let Ready : Storage → Prop := fun s => I s ∧ s.building.isSome
  have ready : Closed Tick Ready := Tick.beside kept.ticks fun holds => holds
  have drop : ∀ s, Ready s → I s := fun s holds => holds.1
  have free : Closed Tick fun s => Ready s ∧ s.files.lookup (.ok held.metadata.generation) = none :=
    Tick.beside ready fun holds => holds
  refine Triple.bind (Q := fun _ s => Ready s ∧ s.files.lookup (.okTmp held.metadata.generation) = none)
    ((rename_triple free fun s file holds present => ?_).otherwise fun s holds => holds.1.1) fun _ => ?_
  · obtain ⟨⟨holds, building⟩, absent⟩ := holds
    refine ⟨⟨kept.closed s _ holds (.publish present absent), building⟩, ?_⟩
    have apart : FileName.okTmp held.metadata.generation ≠ .ok held.metadata.generation := nofun
    exact (AList.lookup_insert_ne apart).trans (AList.lookup_erase ..)
  refine Triple.bind (Q := fun _ => Ready) (Triple.update fun s holds => ?_) fun _ => ?_
  · exact ⟨kept.closed s _ holds.1.1 (.unrecordTmp holds.2), holds.1.2⟩
  refine Triple.bind ((recordSize_keeps ready fun s bytes holds _ => ?_).otherwise drop) fun _ => ?_
  · exact ⟨kept.closed s _ holds.1 .measure, holds.2⟩
  refine Triple.bind (Q := fun _ => Ready) (Triple.update fun s holds => ⟨kept.reserve holds.1 holds.2, ?_⟩) fun _ => ?_
  · rw [Option.isSome_map]
    exact holds.2
  refine Triple.bind ((disk_keeps ready).otherwise drop) fun _ => Triple.bind ((fileAt_keeps ready).otherwise drop) fun _ => ?_
  exact kept.publishLast working

theorem Kept.finishFailed (kept : Kept event start I) : Keeps I (finishFailed id) := by
  let Ended : Storage → Prop := fun s => I s ∧ s.building = none
  have settles : Closed (Settle Any) Ended := by
    refine kept.settles.and fun s t ended settle => ?_
    rw [settle.frame.part Storage.building fun _ => rfl, ended]
  have ticks := Settle.ticks settles
  have drop : ∀ s, Ended s → I s := fun s holds => holds.1
  refine Triple.bind (Q := fun _ => Ended) (Triple.update fun s holds => ⟨kept.closed s _ holds .endBuild, rfl⟩) fun _ => ?_
  refine Triple.bind ((deferBuild_keeps ticks fun s _ _ holds => ⟨kept.closed s _ holds.1 .defer, holds.2⟩).otherwise drop)
    fun _ => ?_
  refine Triple.bind ((load_sound settles).otherwise drop) fun value => ?_
  let Rowed : Storage → Prop := fun s => Ended s ∧
    ∃ row, s.tables.versions.lookup id = some row ∧ row.generation = value.metadata.generation
  have rowed : Closed Tick Rowed := Tick.beside ticks fun holds => holds
  refine Triple.bind (((isPlain_triple rowed).before fun s holds => ⟨holds.1, ?_⟩).otherwise fun s holds => holds.1.1)
    fun plain => ?_
  · obtain ⟨row, stored, same, -⟩ := (kept.sound s holds.1.1).residents id value holds.2
    refine ⟨row, stored, ?_⟩
    rw [((kept.sound s holds.1.1).rows.each id row stored).generation, generation_of_core same]
  refine Triple.when (fun unpublished => ?_) fun _ s holds => holds.1.1.1
  let Pre : Storage → Prop := fun s => I s ∧ Startable value.metadata.generation id s
  have pre : Closed Tick Pre := kept.ticks.and Startable.tick
  refine Triple.weaken (show Keeps Pre _ from Keeps.bind (Keeps.loop fun name member _ => Keeps.bind ?_ fun _ => Keeps.pure)
    fun _ => Keeps.pure) ?_ (fun _ s holds => holds.1) fun s holds => holds.1
  · refine Keeps.bind (Keeps.attempt (recordSize_keeps pre fun s bytes holds _ => ?_)) fun _ => ?_
    · exact ⟨kept.closed s _ holds.1 .measure, holds.2.idle, holds.2.row, holds.2.unready⟩
    · refine removeManaged_keeps pre (fun s t holds discard => ?_) fun s holds => holds.2.reason member
      exact ⟨kept.closed s t holds.1 (.clear (.discard discard)), Startable.discard s t holds.2 discard⟩
  · rintro s ⟨⟨⟨holds, ended⟩, row⟩, unready⟩
    refine ⟨holds, .inl ended, row, fun ready => unpublished ?_⟩
    rw [← unready, ready]

end Qcm.CacheSteps
