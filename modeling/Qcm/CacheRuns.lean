import Qcm.CacheLeaseSteps
import Qcm.Lib.Sha2

/-!
Every event of the cache is a run of changes, so an invariant that the changes,
the worker and a restart keep holds in every state that a cache can be in.
-/

namespace Qcm.CacheSteps

open Lib Lib.Act ResourceFormat CacheState CacheDisk CacheLoad CacheStore
  CacheObjects CacheFiles CacheEvents CacheRules CacheSettle CachePurge CacheSound
  CacheChange

variable [Sha256] {event : Event} {start : Storage} {I : Storage → Prop} {held : Version}

/-- The digests as OpenSSL computes them. -/
@[reducible]
def openssl : Sha256 := ⟨fun bytes => ⟨Sha2.hash bytes, Sha2.hash_length bytes⟩⟩

variable {s : Storage} {worker : Worker}

omit [Sha256] in
theorem Working.of_worker (same : s.worker = worker) (busy : Worker.held worker = some held) : Working held s := by
  rw [Working, same, busy]

omit [Sha256] in
theorem setWorker_triple (works : Closed Work I) (same : Worker.held worker = some held) :
    Triple (fun s => I s ∧ Working held s) (setWorker worker) (fun _ => I) I :=
  Triple.update fun s holds => works s _ holds.1 (.move (same.trans holds.2.symm))

omit [Sha256] in
theorem workerStep_triple {α : Type} (works : Closed Work I) {action : Io α} {next : α → Worker}
    (body : Keeps (fun s => I s ∧ Working held s) action) (same : ∀ value, Worker.held (next value) = some held) :
    Triple (fun s => I s ∧ Working held s) (workerStep held action next) (fun _ => I) I := by
  refine Triple.bind ((Keeps.attempt body).otherwise fun s holds => holds.1) fun done => ?_
  cases done with
  | ok value => exact setWorker_triple works (same value)
  | error error => exact setWorker_triple works rfl

theorem verifyCopy_keeps (ticks : Closed Tick I) {copied : List UInt8} : Keeps I (verifyCopy held copied) := by
  refine .bind Keeps.ensure fun _ => .bind (disk_keeps ticks) fun _ => ?_
  exact .bind (fileAt_keeps ticks) fun _ => .bind Keeps.ensure fun _ => .pure

omit [Sha256] in
theorem finish_triple (works : Closed Work I) :
    Triple (fun s => I s ∧ Working held s) (update fun s => { dropHandle held s with worker := .idle } : Io Unit)
      (fun _ => I) I :=
  Triple.update fun s holds => works s _ holds.1 (.finish holds.2)

section

variable (kept : Kept event start I) (works : Closed Work I)
include kept works

theorem Kept.workerFetch :
    Triple (fun s => I s ∧ s.worker = worker) (workerFetch worker) (fun _ => I) I := by
  cases worker with
  | copying held block copied =>
    refine .ite (fun _ => ?_) fun _ => .pure fun s holds => holds.1
    refine (workerStep_triple works kept.working.readForBuild fun _ => rfl).before fun s holds => ⟨holds.1, .of_worker holds.2 rfl⟩
  | _ => exact .pure fun s holds => holds.1

theorem Kept.workerSpill :
    Triple (fun s => I s ∧ s.worker = worker) (workerSpill worker) (fun _ => I) I := by
  cases worker with
  | fetched held block copied data =>
    have copying : Kept event start fun s => I s ∧ Working held s := kept.working
    refine (workerStep_triple works (writeAll_triple copying.ticks (fun s holds => ?_) fun s count holds => ?_)
      fun _ => rfl).before fun s holds => ⟨holds.1, .of_worker holds.2 rfl⟩
    · exact copying.closed s _ holds .spill
    · exact copying.closed s _ holds .spill
  | _ => exact .pure fun s holds => holds.1

theorem Kept.workerReport :
    Triple (fun s => I s ∧ s.worker = worker) (workerReport worker) (fun _ => I) I := by
  cases worker with
  | written held block copied =>
    have reports : Keeps (fun s => I s ∧ Working held s) (do
        let bytes ← allocated (.okTmp held.metadata.generation)
        CacheFiles.copiedBlock held.id bytes) :=
      Keeps.bind (allocated_keeps kept.working.ticks) fun bytes => kept.working.copiedBlock
    refine (workerStep_triple works reports fun _ => rfl).before fun s holds => ⟨holds.1, .of_worker holds.2 rfl⟩
  | _ => exact .pure fun s holds => holds.1

theorem Kept.workerVerify :
    Triple (fun s => I s ∧ s.worker = worker) (workerVerify worker) (fun _ => I) I := by
  cases worker with
  | copying held block copied =>
    refine .ite (fun _ => .pure fun s holds => holds.1) fun _ => ?_
    refine (workerStep_triple works (verifyCopy_keeps kept.working.ticks) fun _ => rfl).before fun s holds => ⟨holds.1, .of_worker holds.2 rfl⟩
  | _ => exact .pure fun s holds => holds.1

theorem Kept.workerPublish :
    Triple (fun s => I s ∧ s.worker = worker) (workerPublish worker) (fun _ => I) I := by
  cases worker with
  | verified held digest =>
    have published : Keeps (fun s => I s ∧ Working held s) (CacheFiles.publishFile held digest) :=
      kept.working.publishFile fun s holds => holds.2
    refine Triple.bind (((Keeps.attempt published).before fun s holds => ⟨holds.1, .of_worker holds.2 rfl⟩).otherwise
      fun s holds => holds.1) fun done => ?_
    cases done with
    | ok _ => exact finish_triple works
    | error error => exact setWorker_triple works rfl
  | _ => exact .pure fun s holds => holds.1

theorem Kept.workerGiveUp :
    Triple (fun s => I s ∧ s.worker = worker) (workerGiveUp worker) (fun _ => I) I := by
  cases worker with
  | failed held =>
    have given : Keeps (fun s => I s ∧ Working held s) (CacheFiles.finishFailed held.id) := kept.working.finishFailed
    exact Triple.bind (((Keeps.attempt given).before fun s holds => ⟨holds.1, .of_worker holds.2 rfl⟩).otherwise
      fun s holds => holds.1) fun _ => finish_triple works
  | _ => exact .pure fun s holds => holds.1

theorem Kept.workerBegin :
    Triple (fun s => I s ∧ s.worker = worker) (workerBegin worker) (fun _ => I) I := by
  cases worker with
  | idle =>
    refine .bind (kept.nextBuild works) fun ticket => ?_
    cases ticket with
    | some held => exact .update fun s holds => holds
    | none => exact .pure fun s holds => holds
  | _ => exact .pure fun s holds => holds.1

end

omit [Sha256] in
theorem workerCancel_triple (works : Closed Work I) :
    Triple (fun s => I s ∧ s.worker = worker) (workerCancel worker) (fun _ => I) I := by
  unfold workerCancel
  split
  · rename_i held working
    refine (setWorker_triple works rfl).before fun s holds => ⟨holds.1, ?_⟩
    rw [Working, holds.2, working]
  · exact .pure fun s holds => holds.1

omit [Sha256] in
theorem withHandle_triple {α : Type} {P : Storage → Prop} {handle : Nat} {call : Version → Io α}
    (keep : ∀ version, version.handle = handle → Triple (fun s => P s ∧ version ∈ s.handles) (call version) (fun _ => I) I)
    (sub : ∀ s, P s → I s) : Triple P (withHandle handle call) (fun _ => I) I := by
  refine .bindState fun found => ?_
  cases picked : found.handles.find? fun version => version.handle == handle with
  | none => exact .pure fun s holds => sub s holds.1
  | some version =>
    refine .bind ((keep version ?_).before fun s holds => ⟨holds.1, ?_⟩) fun _ => .pure fun s holds => holds
    · have same := List.find?_some picked
      exact eq_of_beq same
    · rw [holds.2]
      exact List.mem_of_find?_eq_some picked

omit [Sha256] in
theorem withHandle_keeps {α : Type} {handle : Nat} {call : Version → Io α} (keep : ∀ version, Keeps I (call version)) :
    Keeps I (withHandle handle call) :=
  withHandle_triple (fun version _ => (keep version).before fun _ holds => holds.1) fun _ => id

/-- The event has not changed the tables yet, nor given out a generation. -/
structure Begins (start s : Storage) : Prop where
  tables : s.tables = start.tables
  issued : s.issued = start.issued

theorem Kept.create (kept : Kept event start I) {metadata : Metadata} (asked : event = .create metadata) :
    Triple (fun s => I s ∧ Begins start s) (Event.action (.create metadata)) (fun _ => I) I := by
  refine .bindState fun found => .ite (fun _ => .pure fun s holds => holds.1.1) fun fresh => ?_
  refine .pointwise fun begun ⟨⟨holds, begins⟩, same⟩ => ?_
  have unissued : metadata.generation ∉ start.issued := by
    rw [← begins.issued, same]
    exact fresh
  refine .bind (Q := fun _ s => I s ∧ Unborn metadata.generation s) (.update fun s equal => ?_) fun _ => ?_
  · rw [equal]
    refine ⟨kept.closed begun _ holds (.issue asked), .head _, fun id row present other => fresh ?_⟩
    rw [← other, ← same]
    exact ((kept.sound begun holds).rows.each id row present).issued
  · let layed : Metadata := { metadata with layout := layoutFor metadata.kind metadata.geometry.length }
    have made : Triple (fun s => I s ∧ Unborn layed.generation s) (CacheStore.createLayout layed) (fun _ => I) I :=
      kept.createLayout asked unissued
    exact .bind made fun _ => .pure fun s holds => holds

theorem Kept.retire (kept : Kept event start I) {version : Version} (asked : event = .retire version.handle) :
    Triple (fun s => (I s ∧ Begins start s) ∧ version ∈ s.handles) (CacheStore.retire version.id) (fun _ => I) I := by
  have ticks : Closed Tick fun s => (I s ∧ Begins start s) ∧ version ∈ s.handles := by
    have steady : Closed Tick fun s => Begins start s ∧ version ∈ s.handles := by
      rintro s _ ⟨begins, member⟩ ⟨⟩
      exact ⟨⟨begins.tables, begins.issued⟩, member⟩
    exact fun s t holds tick =>
      have next := steady s t ⟨holds.1.2, holds.2⟩ tick
      ⟨⟨kept.ticks s t holds.1.1 tick, next.1⟩, next.2⟩
  refine (execute_triple ticks kept.ticks fun s holds => ?_).otherwise fun s holds => holds.1.1
  exact kept.closed s _ holds.1.1 (.retire asked holds.2 holds.1.2.tables)

theorem Kept.action (kept : Kept event start I) (writes : Writes I) (works : Closed Work I)
    (configure : Closed (Configure event) I) :
    Triple (fun s => (I s ∧ Begins start s) ∧ ∀ capacity, event = .launch capacity → s.worker = .idle)
      (Event.action event) (fun _ => I) I := by
  have begins : ∀ s, (I s ∧ Begins start s) ∧ (∀ capacity, event = .launch capacity → s.worker = .idle) → I s :=
    fun s holds => holds.1.1
  have onWorker : ∀ step : Worker → Io Unit, (∀ worker, Triple (fun s => I s ∧ s.worker = worker) (step worker) (fun _ => I) I) →
      Keeps I (do let s ← state; step s.worker) := fun step keep =>
    Triple.bindState fun found => (keep found.worker).before fun s holds => ⟨holds.1, by rw [holds.2]⟩
  cases event with
  | launch capacity => exact (kept.openStorage configure rfl).before fun s holds => ⟨holds.1.1, holds.2 capacity rfl⟩
  | stop => exact .crash begins
  | lookup key => exact Triple.before (Keeps.bind kept.lookup fun _ => Keeps.pure) begins
  | create metadata => exact (kept.create rfl).before fun s holds => holds.1
  | read handle block => exact (withHandle_keeps fun _ => kept.read).before begins
  | write handle blocks => exact (withHandle_keeps fun _ => kept.write writes).before begins
  | complete handle => exact (withHandle_keeps fun _ => kept.complete).before begins
  | covered handle range => exact (withHandle_keeps fun _ => kept.covered).before begins
  | missingRange handle range => exact (withHandle_keeps fun _ => kept.missingRange).before begins
  | window handle range => exact (withHandle_keeps fun _ => kept.window).before begins
  | refresh handle store => exact (withHandle_triple (fun version _ => kept.updateVersion) fun s holds => holds).before begins
  | retire handle =>
    refine (withHandle_triple (fun version same => ?_) fun s holds => holds.1).before fun s holds => holds.1
    exact kept.retire (by rw [same])
  | invalidate provider => exact (kept.invalidate rfl).before begins
  | usage => exact Triple.before (Keeps.bind (usage_keeps kept.ticks) fun _ => Keeps.pure) begins
  | localFile handle client => exact (withHandle_keeps fun _ => kept.acquireFile).before begins
  | renewFile token client => exact Triple.before (Keeps.bind (kept.renewFile rfl) fun _ => Keeps.pure) begins
  | releaseFile token client => exact (kept.releaseFile rfl).before begins
  | object key => exact Triple.before (Keeps.bind kept.object fun _ => Keeps.pure) begins
  | putObject metadata bytes before after => exact (kept.putValidObject rfl).before begins
  | removeObject key => exact kept.deleteObject.before begins
  | updateObject metadata =>
    refine .before (.bindState fun found => .ite (fun same => ?_) fun _ => ?_) begins
    · refine kept.updateObject.before fun s holds => ⟨holds.1, ?_⟩
      rw [holds.2]
      cases listed : found.tables.objects.lookup metadata.key with
      | none =>
        rw [listed] at same
        cases same
      | some row =>
        rw [listed] at same
        exact ⟨row, rfl, of_decide_eq_true same⟩
    · exact .pure fun s holds => holds.1
  | dropVersion handle =>
    refine .update fun s holds => ?_
    split
    · exact holds.1.1
    · rename_i idle
      refine kept.closed s _ holds.1.1 (.dropHandle fun held working same => idle ?_)
      rw [working, Option.any_some, same]
      exact beq_self_eq_true handle
  | dropWindow handle => exact .update fun s holds => kept.closed s _ holds.1.1 (.pin .dropWindow)
  | begin => exact (onWorker _ fun _ => kept.workerBegin works).before begins
  | fetch => exact (onWorker _ fun _ => kept.workerFetch works).before begins
  | spill => exact (onWorker _ fun _ => kept.workerSpill works).before begins
  | report => exact (onWorker _ fun _ => kept.workerReport works).before begins
  | verify => exact (onWorker _ fun _ => kept.workerVerify works).before begins
  | cancel => exact (onWorker _ fun _ => workerCancel_triple works).before begins
  | publish => exact (onWorker _ fun _ => kept.workerPublish works).before begins
  | giveUp => exact (onWorker _ fun _ => kept.workerGiveUp works).before begins
  | rescan => exact .update fun s holds => kept.closed s _ holds.1.1 .scan

theorem Kept.perform (kept : Kept event start I) (writes : Writes I) (works : Closed Work I)
    (configure : Closed (Configure event) I) (restarts : ∀ s, I s → I (restart s)) {tape : List Chance} (holds : I start) :
    I (perform event tape start) := by
  have retaped : ∀ s tape, I s → I { s with tape := tape } := fun s tape holds =>
    kept.ticks s _ holds (.pass _ _ _ _ _ _ le_rfl le_rfl)
  have ran := kept.action writes works configure
  by_cases launched : ∃ capacity, event = .launch capacity
  · obtain ⟨capacity, rfl⟩ := launched
    have begun : Begins start { restart start with tape := tape } := ⟨rfl, rfl⟩
    have ended := ran { restart start with tape := tape } ⟨⟨retaped _ _ (restarts _ holds), begun⟩, fun _ _ => rfl⟩
    change I (if start.running then start else _)
    split
    · exact holds
    · revert ended
      cases Event.action (.launch capacity) { restart start with tape := tape } with
      | mk outcome t =>
        cases outcome with
        | ok value => exact retaped t []
        | err error | crash => exact restarts t
  · have ended := ran { start with tape := tape } ⟨⟨retaped _ _ holds, rfl, rfl⟩, fun capacity same =>
      absurd ⟨capacity, same⟩ launched⟩
    unfold CacheEvents.perform
    split
    · exact absurd ⟨_, rfl⟩ launched
    split
    · revert ended
      cases Event.action event { start with tape := tape } with
      | mk outcome t =>
        cases outcome with
        | ok value | err error => exact retaped t []
        | crash => exact restarts t
    · exact holds

/-- What holds of a cache however it is used, whatever fails and wherever the process dies. -/
structure Lasting (I : Storage → Prop) : Prop where
  sound : ∀ s, I s → Sound s
  change : ∀ event start, Closed (Change event start) I
  writes : Writes I
  work : Closed Work I
  configure : ∀ event, Closed (Configure event) I
  restart : ∀ s, I s → I (restart s)

theorem Lasting.step (lasting : Lasting I) {t : Storage} {label : Event × List Chance} (holds : I s)
    (stepped : Step s label t) : I t := by
  rw [stepped]
  have kept : Kept label.1 s I := ⟨lasting.change label.1 s, lasting.sound⟩
  exact kept.perform lasting.writes lasting.work (lasting.configure label.1) lasting.restart holds

/-- The states of a cache that began with an empty directory. -/
def Reachable : Storage → Prop := Runs.Reach (fun s => s = Storage.fresh) (fun _ _ => True) Step

theorem Reachable.fresh : Reachable Storage.fresh := .start rfl

theorem Reachable.perform (reached : Reachable s) (event : Event) (tape : List Chance) :
    Reachable (perform event tape s) :=
  Runs.Reach.next reached trivial (show Step s (event, tape) _ from rfl)

theorem Lasting.reachable (lasting : Lasting I) (fresh : I Storage.fresh) (reached : Reachable s) : I s :=
  reached.invariant (fun _ same => same ▸ fresh) fun _ _ _ holds _ stepped => lasting.step holds stepped

theorem sound_kept (event : Event) (start : Storage) : Kept event start Sound := ⟨.change, fun _ => id⟩

theorem sound_lasting : Lasting Sound where
  sound _ sound := sound
  change _ _ := .change
  writes := (sound_kept .usage Storage.fresh).writeData Sound.put
  work := .work
  configure _ := .configure
  restart _ sound := sound.restart

theorem Reachable.sound (reached : Reachable s) : Sound s := sound_lasting.reachable Sound.fresh reached

end Qcm.CacheSteps
