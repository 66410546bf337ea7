import Qcm.DownloadStateProofs

/-!
What a reader on the list of a download finds.

A download keeps the blocks it delivered in its map until they are stored or
every reader it knows of has passed them, so a reader on its list finds each
block from its own on, in the map or in the storage.  Three things break that: a
reader that joins when blocks it needs are gone, or when the task has stopped for
want of readers, and the loss of a stored block that a reader on the list has yet
to read.
-/

namespace Qcm.DownloadSupplyProofs

open Lib Lib.Runs ResourceFormat ResourceDownloads DownloadStateProofs

/-- What a failure comes from. -/
inductive Cause where
  | upstream | invalidation | versionChange | stop | storage
  deriving DecidableEq

def causeOf : Failure → Cause
  | .changed => .versionChange
  | .upstream _ => .upstream
  | .other .providerInvalidated | .other .resourceInvalidated => .invalidation
  | .other .serviceStopped => .stop
  | .other .storage => .storage
  | .other _ => .upstream

/-- The block that was asked for, or a failure that is not of the cache. -/
def Fine (block : ByteRange) : Answer → Prop
  | .bytes range => range = block
  | .failed failure => causeOf failure ≠ .storage
  | .closed => True
  | .unproduced | .unavailable => False

abbrev Stored := Hash (Int × Nat) ByteRange

/-- The task has put the block into the map. -/
def Delivered (download : Download) (index : Nat) : Prop :=
  ∃ block, download.version.geometry.range index = some block ∧
    download.range.start ≤ block.start ∧ block.stop ≤ download.cursor

/-- The task is about to take the block out of the map. -/
def Doomed (download : Download) (index : Nat) : Prop :=
  match download.phase with
  | .pruning slowest => (index + 1) * download.version.geometry.block ≤ slowest
  | .unloading indexes _ => index ∈ indexes
  | _ => False

def InHand (download : Download) (index : Nat) : Prop :=
  (download.blocks.lookup index).isSome ∧ ¬ Doomed download index

def Held (stored : Stored) (download : Download) (index : Nat) : Prop :=
  (stored.lookup (download.version.id, index)).isSome ∨ InHand download index

/-- Every block the reader will need of those delivered is there. -/
def Supplied (stored : Stored) (reader : Reader) (download : Download) : Prop :=
  ∀ index, Delivered download index → reader.index ≤ index → Held stored download index

def succeeds : Resume → Bool
  | .finish none => true
  | _ => false

/-- The task has left its loop without a failure. -/
def Over (download : Download) : Prop :=
  match download.phase with
  | .finishing result => result = none
  | .flushing resume | .unloading _ resume => succeeds resume = true
  | _ => download.progress = .complete

/-- The task has stopped for want of readers. -/
def GivenUp (download : Download) : Prop := Over download ∧ download.cursor ≠ download.range.stop

/-- A reader on the list of a download. -/
structure Attached (s : Service) (r : Nat) (reader : Reader) (d : Nat) (download : Download) :
    Prop where
  there : s.readers.lookup r = some reader
  initial : reader.initial = some d
  known : s.downloads.lookup d = some download
  listed : reader.phase ≠ .joining

/-- What a step must not do: let a reader join a download that has stopped for
want of readers or lacks blocks it needs, take stored blocks from a reader that
has yet to read them, or have a call to the storage fail. -/
def Considerate (s : Service) : Event → Prop
  | .attach r d => ∀ reader download, s.readers.lookup r = some reader →
      s.downloads.lookup d = some download →
      Supplied s.stored reader download ∧ ¬ GivenUp download
  | .lose version blocks =>
      (∀ r reader d download, Attached s r reader d download → reader.version.id = version →
        ∀ index ∈ blocks, Delivered download index → reader.index ≤ index → InHand download index) ∧
      ∀ r reader, s.readers.lookup r = some reader → reader.cachedOnly = true →
        reader.block = none → reader.version.id = version → reader.index ∉ blocks
  | .failure => False
  | _ => True

/-- The task of a download has nothing left to do, and has delivered everything. -/
structure Done (download : Download) : Prop where
  phase : download.phase = .deregistering ∨ download.phase = .ended
  whole : download.cursor = download.range.stop

/-- What a reader on the list of a download can rely on. -/
structure Bond (stored : Stored) (r : Nat) (reader : Reader) (download : Download) : Prop where
  listed : r ∈ download.readers
  supplied : Supplied stored reader download
  whole : Over download → download.cursor = download.range.stop
  polled : ∀ index, reader.phase = .polled index .complete → Done download
  missed : ∀ index, reader.phase = .missed index .complete →
    Done download ∧ download.blocks.lookup index = none

def resultOf : Resume → Option Failure
  | .finish result => result
  | _ => none

/-- The failure a task ends with. -/
def failureOf : Phase → Option Failure
  | .finishing result => result
  | .flushing resume | .unloading _ resume => resultOf resume
  | _ => none

/-- The task has the whole next block. -/
def assembled : Phase → Bool
  | .finding | .pruning _ | .crowded | .placing => true
  | _ => false

structure DownloadFine (download : Download) : Prop where
  blocks : ∀ index bytes, download.blocks.lookup index = some bytes →
    download.version.geometry.range index = some bytes
  batch : ∀ entry ∈ download.batch, download.version.geometry.range entry.1 = some entry.2
  next : assembled download.phase = true → ∃ block,
    download.version.geometry.range (download.cursor / download.version.geometry.block) = some block ∧
      download.cursor = block.start ∧ download.buffered = block.length
  failure : ∀ failure, failureOf download.phase = some failure → causeOf failure ≠ .storage
  progress : ∀ failure, download.progress = .failed failure → causeOf failure ≠ .storage
  complete : download.progress = .complete →
    download.phase = .deregistering ∨ download.phase = .ended

structure ReaderFine (stored : Stored) (reader : Reader) : Prop where
  failure : ∀ index failure, reader.phase = .polled index (.failed failure) ∨
    reader.phase = .missed index (.failed failure) → causeOf failure ≠ .storage
  cached : reader.cachedOnly = true → reader.phase = .entering ∨ reader.phase = .joining ∨
    reader.phase = .idle ∨ ∃ index, reader.phase = .looking index
  promise : reader.cachedOnly = true → reader.initial ≠ none ∨ reader.phase = .entering →
    reader.block = none ∧
      (reader.position < reader.stop → (stored.lookup (reader.version.id, reader.index)).isSome)

def StoredRight (rows : Hash Int Row) (stored : Stored) : Prop :=
  ∀ id index bytes, stored.lookup (id, index) = some bytes →
    ∃ row, rows.lookup id = some row ∧ row.version.geometry.range index = some bytes

structure Supply (s : Service) : Prop where
  stored : StoredRight s.rows s.stored
  readers : ∀ r reader, s.readers.lookup r = some reader → ReaderFine s.stored reader
  downloads : ∀ d download, s.downloads.lookup d = some download → DownloadFine download
  bonds : ∀ r reader d download, Attached s r reader d download → Bond s.stored r reader download

variable {s t : Service} {r d : Nat} {reader next : Reader} {download after : Download}
  {stored stored' : Stored} {positions : List Nat} {stopping : Bool} {obsolete : Nat}

/-! ## The task -/

variable {block : ByteRange} {version : Version} {effect : Effect} {view : ReaderView}
  {answer : Option (Nat × Answer)} {keep : Int × Nat → ByteRange → Bool}

private theorem place_blocks (fine : DownloadFine download) (assembled : assembled download.phase = true)
    (bounds : download.version.geometry.range (download.cursor / download.version.geometry.block) = some block) :
    download.cursor = block.start ∧
      (⟨download.cursor, download.cursor + download.buffered⟩ : ByteRange) = block := by
  obtain ⟨block', bounds', start, length⟩ := fine.next assembled
  cases bounds.symm.trans bounds'
  refine ⟨start, ?_⟩
  obtain ⟨inside, same⟩ := Geometry.range_eq_some.mp bounds
  have positive := download.version.geometry.block_pos
  rw [length, ByteRange.length, start]
  have order : block.start ≤ block.stop := by
    rw [same]
    have : download.cursor / download.version.geometry.block * download.version.geometry.block ≤
      (download.cursor / download.version.geometry.block + 1) * download.version.geometry.block :=
      Nat.mul_le_mul_right _ (Nat.le_succ _)
    exact Nat.le_min.mpr ⟨this, Nat.le_of_lt inside⟩
  rw [Nat.add_sub_cancel' order]

private theorem refusal_cause {range : ByteRange} {response : Response} {retire : Bool} {failure : Failure}
    (wrong : refusal version range response = some (retire, failure)) : causeOf failure ≠ .storage := by
  unfold refusal at wrong
  repeat' split at wrong
  all_goals
    cases wrong
    try decide
  simp [causeOf]

private theorem leave_phase (download : Download) (result : Option Failure) :
    (download.leave result).phase = .finishing result ∨
      (download.leave result).phase = .flushing (.finish result) := by
  unfold Download.leave
  dsimp only
  split
  · exact .inl rfl
  · exact .inr rfl

private theorem place_phase (download : Download) (block : ByteRange) :
    (download.place block).phase = .taking ∨ (download.place block).phase = .flushing .taking := by
  unfold Download.place
  dsimp only
  generalize (if download.persist = true then _ else _ : List (Nat × ByteRange)) = batch
  split
  · exact .inr rfl
  · exact .inl rfl

private theorem prune_phase (download : Download) (slowest : Nat) :
    (download.prune slowest).phase = .placing ∨ (download.prune slowest).phase = .crowded := by
  unfold Download.prune
  dsimp only
  split
  · exact .inl rfl
  · exact .inr rfl

section

variable (fine : DownloadFine download)
include fine

private theorem DownloadFine.carry (version : after.version = download.version)
    (blocks : ∀ index bytes, after.blocks.lookup index = some bytes → download.blocks.lookup index = some bytes)
    (batch : after.batch ⊆ download.batch) (next : assembled after.phase = false)
    (failure : ∀ failure, failureOf after.phase = some failure → causeOf failure ≠ .storage)
    (progress : after.progress = download.progress ∨ after.progress = .running)
    (complete : after.progress ≠ .complete) : DownloadFine after := by
  refine ⟨fun index bytes found => ?_, fun entry member => ?_, fun assembled => ?_, failure,
    fun failure same => ?_, fun same => absurd same complete⟩
  · rw [version]
    exact fine.blocks index bytes (blocks index bytes found)
  · rw [version]
    exact fine.batch entry (batch member)
  · rw [next] at assembled
    contradiction
  · obtain before | running := progress
    · exact fine.progress failure (before ▸ same)
    · rw [running] at same
      cases same

private theorem DownloadFine.going (phase : download.phase ≠ .deregistering ∧ download.phase ≠ .ended) :
    download.progress ≠ .complete := fun complete =>
  (fine.complete complete).elim phase.1 phase.2

private theorem leave_fine {result : Option Failure}
    (calm : ∀ failure, result = some failure → causeOf failure ≠ .storage)
    (going : download.phase ≠ .deregistering ∧ download.phase ≠ .ended) :
    DownloadFine (download.leave result) := by
  refine fine.carry rfl (fun _ _ => id) (List.Subset.refl _) ?_ (fun failure same => ?_)
    (.inl rfl) (fine.going going)
  · obtain phase | phase := leave_phase download result <;> rw [phase] <;> rfl
  · obtain phase | phase := leave_phase download result <;> rw [phase] at same <;>
      exact calm failure same

private theorem resume_fine (resume : Resume) (in_flush : failureOf download.phase = resultOf resume)
    (batch : List (Nat × ByteRange)) (incomplete : download.progress ≠ .complete) (persist : Bool)
    (smaller : batch ⊆ download.batch) :
    DownloadFine { download with batch := batch, persist := persist, phase := resume.phase } := by
  refine fine.carry rfl (fun _ _ => id) smaller (by cases resume <;> rfl)
    (fun failure same => fine.failure failure ?_) (.inl rfl) incomplete
  rw [in_flush]
  cases resume <;> exact same

private theorem DownloadFine.pass (going : download.phase ≠ .deregistering ∧ download.phase ≠ .ended)
    {phase : Phase} (next : assembled phase = false)
    (failure : ∀ failure, failureOf phase = some failure → causeOf failure ≠ .storage) (persist : Bool)
    (windowEnd buffered pending : Nat) (window : Option ByteRange) : DownloadFine { download with
      phase := phase, persist := persist, windowEnd := windowEnd, window := window,
      buffered := buffered, pending := pending } :=
  fine.carry rfl (fun _ _ => id) (List.Subset.refl _) next failure (.inl rfl)
    (fine.going going)

theorem task_fine (stepped : TaskStep positions stopping obsolete download effect after)
    (calm : effect ≠ .failure) : DownloadFine after := by
  cases stepped with
  | began at_start | accepted at_start | attended at_start | chunk at_start | woken at_start
  | emptied at_start =>
    exact fine.pass (by simp [at_start]) rfl (by simp [failureOf]) _ _ _ _ _
  | timer at_select =>
    exact fine.pass (by simp [at_select]) rfl (by simp [failureOf, resultOf]) _ _ _ _ _
  | windowed in_chunk | partly in_chunk =>
    exact fine.pass (by simp [in_chunk]) (by simp [in_chunk, assembled])
      (by simp [failureOf, in_chunk]) _ _ _ _ _
  | refused at_start asked wrong =>
    refine fine.pass (by simp [at_start]) rfl (fun failure same => ?_) _ _ _ _ _
    cases same
    exact refusal_cause wrong
  | unanswered at_start | startCancelled at_start | startStopped at_start =>
    refine fine.pass (by simp [at_start]) rfl (fun failure same => ?_) _ _ _ _ _
    cases same
    decide
  | startFailed | windowFailed => exact absurd rfl calm
  | deserted at_top | whole at_top | unread at_top =>
    exact leave_fine fine (by simp) (by simp [at_top])
  | invalid at_top | oversized at_top | truncated at_top | broken at_top | invalidated at_top
  | windowRefused at_top | outside at_top | unaligned at_top =>
    exact leave_fine fine (by rintro failure ⟨⟩; decide) (by simp [at_top])
  | interrupted at_select | cancelled at_select =>
    refine leave_fine fine (by rintro failure ⟨⟩; decide) ?_
    obtain at_select | at_select := at_select <;> simp [at_select]
  | @filled block in_chunk left inside bounds start enough =>
    have going := fine.going (by simp [in_chunk])
    refine ⟨fine.blocks, fine.batch, fun _ => ⟨block, bounds, start, rfl⟩, fun failure same => ?_,
      fine.progress, fun complete => absurd complete going⟩
    dsimp only at same
    split at same <;> cases same
  | measured in_room | retried in_room =>
    refine ⟨fine.blocks, fine.batch, fun _ => fine.next (by rw [in_room]; rfl), ?_, fine.progress,
      fun complete => absurd complete (fine.going (by simp [in_room]))⟩
    rintro failure ⟨⟩
  | @pruned slowest in_room =>
    refine ⟨fun index bytes found => ?_, fine.batch, fun _ => fine.next (by rw [in_room]; rfl),
      fun failure same => ?_, fine.progress,
      fun complete => absurd complete (fine.going (by simp [in_room]))⟩
    · change (Hash.filter _ download.blocks).lookup index = some bytes at found
      rw [Hash.lookup_filter] at found
      exact fine.blocks index bytes (Option.filter_eq_some_iff.mp found).1
    · obtain phase | phase := prune_phase download slowest <;> rw [phase] at same <;> cases same
  | @placed block in_chunk bounds =>
    obtain ⟨start, same⟩ := place_blocks fine (by rw [in_chunk]; rfl) bounds
    refine ⟨fun index bytes found => ?_, fun entry member => ?_, fun absurd => ?_, fun failure halted => ?_,
      by rintro failure ⟨⟩, by rintro ⟨⟩⟩
    · obtain ⟨rfl, rfl⟩ | ⟨-, found⟩ := Hash.lookup_insert_some found
      · rw [same]
        exact bounds
      · exact fine.blocks index bytes found
    · change entry ∈ (if download.persist = true then download.batch ++ [_] else download.batch) at member
      have cases : entry ∈ download.batch ∨
          entry = (download.cursor / download.version.geometry.block,
            ⟨download.cursor, download.cursor + download.buffered⟩) := by
        split at member
        · simpa using member
        · exact .inl member
      obtain before | rfl := cases
      · exact fine.batch entry before
      · rw [same]
        exact bounds
    · obtain phase | phase := place_phase download block <;> rw [phase] at absurd <;> contradiction
    · obtain phase | phase := place_phase download block <;> rw [phase] at halted <;> cases halted
  | @flushed resume in_flush =>
    refine fine.carry rfl (fun _ _ => id) (List.nil_subset _) rfl (fun failure same => ?_)
      (.inl rfl) (fine.going (by simp [in_flush]))
    refine fine.failure failure ?_
    rw [in_flush]
    exact same
  | @unflushed resume part in_flush some =>
    exact resume_fine fine resume (by rw [in_flush]; rfl) _ (fine.going (by simp [in_flush])) _
      (List.nil_subset _)
  | @unloaded indexes resume in_flush =>
    have resumed := resume_fine fine resume (by rw [in_flush]; rfl) download.batch
      (fine.going (by simp [in_flush])) true (List.Subset.refl _)
    refine resumed.carry rfl (fun index bytes found => ?_) (List.Subset.refl _)
      (by cases resume <;> rfl) resumed.failure (.inr rfl) (by rintro ⟨⟩)
    change (Hash.filter _ download.blocks).lookup index = some bytes at found
    rw [Hash.lookup_filter] at found
    exact (Option.filter_eq_some_iff.mp found).1
  | @settled result halted =>
    refine ⟨fine.blocks, fine.batch, by rintro ⟨⟩, by rintro failure ⟨⟩, fun failure same => ?_,
      fun _ => .inl rfl⟩
    refine fine.failure failure ?_
    rw [halted]
    cases result with
    | none => cases same
    | some failure' =>
      cases same
      rfl
  | aborted stopped spawned =>
    exact ⟨fine.blocks, fine.batch, by rintro ⟨⟩, by rintro failure ⟨⟩, fine.progress,
      fun _ => .inr rfl⟩

end

/-! ## A reader on the list of a task -/

/-- More blocks are stored. -/
def Grows (stored stored' : Stored) : Prop :=
  ∀ key, (stored.lookup key).isSome → (stored'.lookup key).isSome

theorem Supplied.grow (supplied : Supplied stored reader download) (grows : Grows stored stored') :
    Supplied stored' reader download := fun index delivered needed =>
  (supplied index delivered needed).imp (grows _) id

private theorem Supplied.pass (supplied : Supplied stored reader download)
    (version : after.version = download.version) (range : after.range = download.range)
    (cursor : after.cursor = download.cursor) (blocks : after.blocks = download.blocks)
    (calm : ∀ index, Delivered after index → reader.index ≤ index →
      Doomed after index → Doomed download index ∨ (stored.lookup (after.version.id, index)).isSome) :
    Supplied stored reader after := by
  intro index delivered needed
  have before : Delivered download index := by
    obtain ⟨block, bounds, start, stop⟩ := delivered
    exact ⟨block, version ▸ bounds, range ▸ start, cursor ▸ stop⟩
  obtain there | ⟨there, spared⟩ := supplied index before needed
  · exact .inl (by rw [version]; exact there)
  · by_cases doomed : Doomed after index
    · exact .inl ((calm index delivered needed doomed).resolve_left spared)
    · exact .inr ⟨by rw [blocks]; exact there, doomed⟩

private theorem delivered_place {index : Nat}
    (bounds : download.version.geometry.range (download.cursor / download.version.geometry.block) = some block)
    (start : download.cursor = block.start) (delivered : Delivered (download.place block) index) :
    Delivered download index ∨ index = download.cursor / download.version.geometry.block := by
  obtain ⟨other, bounds', start', stop'⟩ := delivered
  change download.version.geometry.range index = some other at bounds'
  change download.range.start ≤ other.start at start'
  change other.stop ≤ block.stop at stop'
  obtain ⟨inside, same⟩ := Geometry.range_eq_some.mp bounds
  obtain ⟨inside', same'⟩ := Geometry.range_eq_some.mp bounds'
  obtain before | rfl | after := Nat.lt_trichotomy index
    (download.cursor / download.version.geometry.block)
  · refine .inl ⟨other, bounds', start', ?_⟩
    have below := Nat.mul_le_mul_right download.version.geometry.block (Nat.succ_le_of_lt before)
    rw [start, same, same']
    exact Nat.le_trans (Nat.min_le_left _ _) below
  · exact .inr rfl
  · have above := Nat.mul_le_mul_right download.version.geometry.block (Nat.succ_le_of_lt after)
    have longer := Nat.mul_lt_mul_of_pos_right (Nat.lt_succ_self index)
      download.version.geometry.block_pos
    rw [same, same'] at stop'
    dsimp only at stop'
    simp only [Nat.succ_eq_add_one] at above longer
    omega

private theorem Supplied.place (supplied : Supplied stored reader download)
    (bounds : download.version.geometry.range (download.cursor / download.version.geometry.block) = some block)
    (start : download.cursor = block.start) : Supplied stored reader (download.place block) := by
  intro index delivered needed
  have spared : ¬ Doomed (download.place block) index := by
    unfold Doomed
    obtain phase | phase := place_phase download block <;> rw [phase] <;> exact id
  have found : ((download.place block).blocks.lookup index).isSome ↔
      index = download.cursor / download.version.geometry.block ∨
        (download.blocks.lookup index).isSome := by
    change ((download.blocks.insert _ _).lookup index).isSome ↔ _
    rw [Hash.lookup_insert]
    split <;> simp_all
  obtain before | here := delivered_place bounds start delivered
  · obtain there | ⟨there, _⟩ := supplied index before needed
    · exact .inl there
    · exact .inr ⟨found.mpr (.inr there), spared⟩
  · exact .inr ⟨found.mpr (.inl here), spared⟩

private theorem Supplied.drop {keep : Nat → ByteRange → Bool}
    (supplied : Supplied stored reader download)
    (version : after.version = download.version) (range : after.range = download.range)
    (cursor : after.cursor = download.cursor) (blocks : after.blocks = Hash.filter keep download.blocks)
    (spared : ∀ index bytes, ¬ Doomed download index → keep index bytes = true)
    (calm : ∀ index, ¬ Doomed after index) : Supplied stored reader after := by
  intro index delivered needed
  have before : Delivered download index := by
    obtain ⟨block, bounds, start, stop⟩ := delivered
    exact ⟨block, version ▸ bounds, range ▸ start, cursor ▸ stop⟩
  obtain there | ⟨there, safe⟩ := supplied index before needed
  · exact .inl (by rw [version]; exact there)
  · refine .inr ⟨?_, calm index⟩
    obtain ⟨bytes, same⟩ := Option.isSome_iff_exists.mp there
    rw [blocks, Hash.lookup_filter, same, Option.filter_some, if_pos (spared index bytes safe)]
    rfl

private theorem leave_supplied (supplied : Supplied stored reader download)
    (result : Option Failure) : Supplied stored reader (download.leave result) := by
  refine supplied.pass rfl rfl rfl rfl fun index _ _ doomed => ?_
  unfold Doomed at doomed
  obtain phase | phase := leave_phase download result <;> rw [phase] at doomed <;> exact doomed.elim

private theorem doomed_phase {index : Nat} (doomed : Doomed download index) :
    (∃ slowest, download.phase = .pruning slowest) ∨
      ∃ indexes resume, download.phase = .unloading indexes resume := by
  unfold Doomed at doomed
  split at doomed
  · rename_i slowest phase
    exact .inl ⟨slowest, phase⟩
  · rename_i indexes resume phase
    exact .inr ⟨indexes, resume, phase⟩
  · exact doomed.elim

theorem Supplied.task {effect : Effect} (supplied : Supplied stored reader download)
    (here : reader.position ∈ positions) (version : download.version = reader.version)
    (fine : DownloadFine download)
    (flushed : ∀ blocks, effect = .store blocks → ∀ entry ∈ blocks,
      (stored.lookup (download.version.id, entry.1)).isSome)
    (stepped : TaskStep positions stopping obsolete download effect after) :
    Supplied stored reader after := by
  cases stepped with
  | began at_start | accepted at_start | refused at_start | unanswered at_start
  | startCancelled at_start | startStopped at_start | startFailed at_start | attended at_start
  | chunk at_start | woken at_start | timer at_start | emptied at_start | retried at_start
  | settled at_start | aborted =>
    exact supplied.pass rfl rfl rfl rfl fun _ _ _ doomed => doomed.elim
  | windowed in_chunk | partly in_chunk =>
    refine supplied.pass rfl rfl rfl rfl fun _ _ _ doomed => ?_
    simp only [Doomed, Download.openWindow, in_chunk] at doomed
  | deserted at_top | whole at_top | unread at_top | invalid at_top | oversized at_top
  | truncated at_top | broken at_top | invalidated at_top | windowRefused at_top | outside at_top
  | unaligned at_top | windowFailed at_top | interrupted at_top | cancelled at_top =>
    exact leave_supplied supplied _
  | filled =>
    refine supplied.pass rfl rfl rfl rfl fun _ _ _ doomed => ?_
    obtain ⟨slowest, phase⟩ | ⟨indexes, resume, phase⟩ := doomed_phase doomed
    · dsimp only at phase
      split at phase <;> cases phase
    · dsimp only at phase
      split at phase <;> cases phase
  | @measured slowest in_room least =>
    have below : slowest ≤ reader.position := (List.min?_eq_some_iff.mp least).2 _ here
    refine supplied.pass rfl rfl rfl rfl fun index _ needed doomed => ?_
    change (index + 1) * download.version.geometry.block ≤ slowest at doomed
    rw [version] at doomed
    obtain ⟨_, upper⟩ := reader.version.geometry.index_bounds reader.position
    have reached := Nat.mul_le_mul_right reader.version.geometry.block (Nat.succ_le_succ needed)
    simp only [Reader.index, Nat.succ_eq_add_one] at reached
    omega
  | @pruned slowest in_room =>
    have blocks : (download.prune slowest).blocks = Hash.filter
      (fun index _ => decide (slowest < (index + 1) * download.version.geometry.block))
      download.blocks := rfl
    refine supplied.drop rfl rfl rfl blocks (fun index bytes safe => ?_) fun index doomed => ?_
    · unfold Doomed at safe
      rw [in_room] at safe
      exact decide_eq_true (Nat.lt_of_not_le safe)
    · unfold Doomed at doomed
      obtain phase | phase := prune_phase download slowest <;> rw [phase] at doomed <;> exact doomed
  | placed in_chunk bounds =>
    exact supplied.place bounds (place_blocks fine (by rw [in_chunk]; rfl) bounds).1
  | @flushed resume in_flush =>
    refine supplied.pass rfl rfl rfl rfl fun index _ _ doomed => .inr ?_
    obtain ⟨entry, member, rfl⟩ := List.mem_map.mp doomed
    exact flushed _ rfl entry member
  | @unflushed resume part in_flush =>
    refine supplied.pass rfl rfl rfl rfl fun index _ _ doomed => ?_
    cases resume <;> exact doomed.elim
  | @unloaded indexes resume in_flush =>
    have blocks : (download.unload indexes resume).blocks =
      Hash.filter (fun index _ => decide (index ∉ indexes)) download.blocks := rfl
    refine supplied.drop rfl rfl rfl blocks (fun index bytes safe => ?_) fun index doomed => ?_
    · unfold Doomed at safe
      rw [in_flush] at safe
      exact decide_eq_true safe
    · cases resume <;> exact doomed

private theorem leave_over {failure : Failure} : ¬ Over (download.leave (some failure)) := by
  unfold Over
  obtain phase | phase := leave_phase download (some failure) <;> rw [phase]
  · rintro ⟨⟩
  · rintro ⟨⟩

private theorem resume_over {resume : Resume} (phase : after.phase = resume.phase)
    (halted : Over after) (incomplete : after.progress ≠ .complete) : succeeds resume = true := by
  unfold Over at halted
  rw [phase] at halted
  cases resume with
  | top | taking => exact absurd halted incomplete
  | finish result =>
    change result = none at halted
    rw [halted]
    rfl

/-- A task that a reader waits for leaves its loop with everything, or with a
failure. -/
theorem over_task (whole : Over download → download.cursor = download.range.stop) (read : positions ≠ [])
    (fine : DownloadFine download) (stepped : TaskStep positions stopping obsolete download effect after) :
    Over after → after.cursor = after.range.stop := by
  intro halted
  cases stepped with
  | began at_start | accepted at_start | attended at_start | chunk at_start | woken at_start
  | emptied at_start | measured at_start | retried at_start =>
    exact absurd halted (fine.going (by simp [at_start]))
  | refused | unanswered | startCancelled | startStopped | startFailed | timer => cases halted
  | windowed in_chunk | partly in_chunk =>
    unfold Over at halted
    simp only [Download.openWindow, in_chunk] at halted
    exact absurd halted (fine.going (by simp [in_chunk]))
  | deserted at_top alone | unread at_top alone => exact absurd alone read
  | whole at_select read rest => exact read
  | invalid | oversized | truncated | broken | invalidated | windowRefused | outside | unaligned
  | windowFailed | interrupted | cancelled => exact absurd halted leave_over
  | filled in_chunk =>
    unfold Over at halted
    cases persist : download.persist with
    | false | true =>
      simp only [persist] at halted
      exact absurd halted (fine.going (by simp [in_chunk]))
  | @pruned slowest in_room =>
    unfold Over at halted
    obtain phase | phase := prune_phase download slowest <;> rw [phase] at halted <;>
      exact absurd halted (fine.going (by simp [in_room]))
  | @placed block in_chunk =>
    unfold Over at halted
    obtain phase | phase := place_phase download block <;> rw [phase] at halted <;> cases halted
  | flushed in_flush =>
    refine whole ?_
    unfold Over
    rw [in_flush]
    exact halted
  | unflushed in_flush =>
    refine whole ?_
    unfold Over
    rw [in_flush]
    exact resume_over rfl halted (fine.going (by simp [in_flush]))
  | unloaded in_flush =>
    refine whole ?_
    unfold Over
    rw [in_flush]
    exact resume_over rfl halted (by rintro ⟨⟩)
  | @settled result ending =>
    refine whole ?_
    unfold Over
    rw [ending]
    cases result with
    | none => rfl
    | some failure => cases halted
  | aborted =>
    refine whole ?_
    unfold Over
    obtain phase | phase := fine.complete halted <;> rw [phase] <;> exact halted

private theorem task_readers (stepped : TaskStep positions stopping obsolete download effect after) :
    after.readers = download.readers := by
  cases stepped <;> rfl

private theorem done_task (done : Done download)
    (stepped : TaskStep positions stopping obsolete download effect after) :
    Done after ∧ after.blocks = download.blocks := by
  obtain ⟨phase, whole⟩ := done
  cases stepped with
  | aborted => exact ⟨⟨.inr rfl, whole⟩, rfl⟩
  | interrupted at_select | cancelled at_select =>
    obtain at_select | at_select := at_select <;> simp [at_select] at phase
  | _ => simp_all

theorem Bond.task {effect : Effect} (bond : Bond stored r reader download)
    (here : reader.position ∈ positions) (version : download.version = reader.version)
    (fine : DownloadFine download)
    (flushed : ∀ blocks, effect = .store blocks → ∀ entry ∈ blocks,
      (stored.lookup (download.version.id, entry.1)).isSome)
    (stepped : TaskStep positions stopping obsolete download effect after) :
    Bond stored r reader after := by
  refine ⟨?_, bond.supplied.task here version fine flushed stepped,
    over_task bond.whole (List.ne_nil_of_mem here) fine stepped, fun index polled => ?_,
    fun index missed => ?_⟩
  · rw [task_readers stepped]
    exact bond.listed
  · exact (done_task (bond.polled index polled) stepped).1
  · obtain ⟨done, gone⟩ := bond.missed index missed
    obtain ⟨done', same⟩ := done_task done stepped
    exact ⟨done', same ▸ gone⟩

/-! ## Steps of a reader -/

theorem Supplied.advance (supplied : Supplied stored reader download)
    (version : next.version = reader.version) (further : reader.position ≤ next.position) :
    Supplied stored next download := by
  intro index delivered needed
  refine supplied index delivered (Nat.le_trans ?_ needed)
  rw [Reader.index, Reader.index, version]
  exact Nat.div_le_div_right further

private theorem ask_version (reader : Reader) (known : Option Download) :
    (reader.ask known).version = reader.version ∧ (reader.ask known).position = reader.position ∧
      (reader.ask known).stop = reader.stop ∧ (reader.ask known).block = reader.block ∧
      (reader.ask known).cachedOnly = reader.cachedOnly ∧
      (reader.ask known).phase = .looking reader.index ∧
      ((reader.ask known).initial = none ∨ (reader.ask known).initial = reader.initial) := by
  have same : (reader.ask known).initial =
      if known.any (·.range.contains reader.position) then reader.initial else none := by
    unfold Reader.ask
    dsimp only
    split <;> rfl
  refine ⟨?_, ?_, ?_, ?_, ?_, ?_, ?_⟩
  case refine_7 =>
    rw [same]
    split
    · exact .inr rfl
    · exact .inl rfl
  all_goals
    unfold Reader.ask
    dsimp only
    split <;> rfl

theorem ReaderFine.step (fine : ReaderFine stored reader)
    (downloads : ∀ download, view.download = some download → DownloadFine download)
    (stepped : ReaderStep view reader answer (some next)) : ReaderFine stored next := by
  cases stepped with
  | asked idle more other =>
    obtain ⟨version, position, stop, block, cached, phase, initial⟩ := ask_version reader view.download
    refine ⟨fun index failure halted => ?_, fun _ => ?_, fun only here => ?_⟩
    · rw [phase] at halted
      simp at halted
    · exact .inr (.inr (.inr ⟨_, phase⟩))
    · rw [block, position, stop, version, Reader.index, position, version]
      refine fine.promise (cached ▸ only) (.inl ?_)
      obtain here | here := here
      · obtain none | same := initial
        · exact absurd none here
        · exact same ▸ here
      · rw [phase] at here
        cases here
  | emitted idle more block here =>
    refine ⟨fine.failure, fine.cached, fun only waiting => ?_⟩
    rw [(fine.promise only waiting).1] at block
    cases block
  | found | taken =>
    refine ⟨fun index failure halted => ?_, fun _ => .inr (.inr (.inl rfl)), fun only here => ?_⟩
    · obtain ⟨⟨⟩⟩ | ⟨⟨⟩⟩ := halted
    · change reader.cachedOnly = true at only
      obtain here | here := here
      · simp [Reader.receive, only] at here
      · cases here
  | absent reading active absent uncached =>
    refine ⟨fun index failure halted => ?_, fun only => ?_, fun only => ?_⟩
    · dsimp only at halted
      split at halted <;> obtain ⟨⟨⟩⟩ | ⟨⟨⟩⟩ := halted
    · exact absurd (only.symm.trans uncached) (by decide)
    · exact absurd (only.symm.trans uncached) (by decide)
  | polled polling going attached =>
    have uncached : reader.cachedOnly ≠ true := fun only => by
      simpa [polling] using fine.cached only
    refine ⟨fun index failure halted => ?_, fun only => absurd only uncached,
      fun only => absurd only uncached⟩
    obtain halted | halted := halted
    · injection halted with _ same
      exact (downloads _ attached).progress failure same
    · cases halted
  | untaken polled =>
    have uncached : reader.cachedOnly ≠ true := fun only => by
      simpa [polled] using fine.cached only
    refine ⟨fun index failure halted => ?_, fun only => absurd only uncached,
      fun only => absurd only uncached⟩
    obtain halted | halted := halted
    · cases halted
    · cases halted
      exact fine.failure _ failure (.inl polled)
  | waited missed =>
    have uncached : reader.cachedOnly ≠ true := fun only => by
      simpa [missed] using fine.cached only
    refine ⟨fun index failure halted => ?_, fun only => absurd only uncached,
      fun only => absurd only uncached⟩
    obtain ⟨⟨⟩⟩ | ⟨⟨⟩⟩ := halted

theorem Bond.step (bond : Bond stored r reader download) (attached : view.download = some download)
    (fine : DownloadFine download) (stepped : ReaderStep view reader answer (some next)) :
    Bond stored r next download := by
  cases stepped with
  | asked idle more other =>
    obtain ⟨version, position, _, _, _, phase, _⟩ := ask_version reader view.download
    refine ⟨bond.listed, bond.supplied.advance version (Nat.le_of_eq position.symm), bond.whole, ?_, ?_⟩
    · rw [phase]
      rintro index ⟨⟩
    · rw [phase]
      rintro index ⟨⟩
  | emitted idle more block here =>
    refine { bond with supplied := bond.supplied.advance rfl (Nat.le_add_right _ _) }
  | found | taken | waited =>
    refine ⟨bond.listed, bond.supplied.advance rfl le_rfl, bond.whole, ?_, ?_⟩
    · rintro index ⟨⟩
    · rintro index ⟨⟩
  | absent =>
    refine ⟨bond.listed, bond.supplied.advance rfl le_rfl, bond.whole, ?_, ?_⟩
    · intro index polled
      dsimp only at polled
      split at polled <;> cases polled
    · intro index missed
      dsimp only at missed
      split at missed <;> cases missed
  | polled polling going attached' =>
    cases attached.symm.trans attached'
    refine ⟨bond.listed, bond.supplied.advance rfl le_rfl, bond.whole, ?_, ?_⟩
    · intro index polled
      injection polled with _ complete
      have phase := fine.complete complete
      refine ⟨phase, bond.whole ?_⟩
      unfold Over
      obtain phase | phase := phase <;> rw [phase] <;> exact complete
    · rintro index ⟨⟩
  | untaken polled attached' gone =>
    cases attached.symm.trans attached'
    refine ⟨bond.listed, bond.supplied.advance rfl le_rfl, bond.whole, ?_, ?_⟩
    · rintro index ⟨⟩
    · intro index missed
      cases missed
      exact ⟨bond.polled _ polled, gone⟩

/-! ## Steps of the service -/

theorem Bond.grow (bond : Bond stored r reader download) (grows : Grows stored stored') :
    Bond stored' r reader download :=
  { bond with supplied := bond.supplied.grow grows }

theorem ReaderFine.grow (fine : ReaderFine stored reader) (grows : Grows stored stored') :
    ReaderFine stored' reader :=
  ⟨fine.failure, fine.cached, fun only here => ⟨(fine.promise only here).1,
    fun more => grows _ ((fine.promise only here).2 more)⟩⟩

theorem Supply.grow (supply : Supply s) (readers : t.readers = s.readers)
    (downloads : t.downloads = s.downloads) (stored : StoredRight t.rows t.stored)
    (grows : Grows s.stored t.stored) : Supply t := by
  refine ⟨stored, fun r reader found => ?_, fun d download known => ?_, fun r reader d download at' => ?_⟩
  · exact (supply.readers r reader (readers ▸ found)).grow grows
  · exact supply.downloads d download (downloads ▸ known)
  · obtain ⟨there, initial, known, listed⟩ := at'
    exact (supply.bonds r reader d download
      ⟨readers ▸ there, initial, downloads ▸ known, listed⟩).grow grows

theorem Supply.putReader (supply : Supply s) (fine : ReaderFine s.stored next)
    (bond : ∀ d download, next.initial = some d → s.downloads.lookup d = some download →
      next.phase ≠ .joining → Bond s.stored r next download) :
    Supply (s.putReader r (some next)) := by
  refine ⟨supply.stored, fun other found same => ?_, supply.downloads,
    fun other found d download ⟨there, initial, known, listed⟩ => ?_⟩
  · obtain ⟨rfl, rfl⟩ | ⟨-, same⟩ := Hash.lookup_insert_some same
    · exact fine
    · exact supply.readers other found same
  · obtain ⟨rfl, rfl⟩ | ⟨-, there⟩ := Hash.lookup_insert_some there
    · exact bond d download initial known listed
    · exact supply.bonds other found d download ⟨there, initial, known, listed⟩

theorem Supply.dropReader (supply : Supply s) (r : Nat) : Supply (s.putReader r none) := by
  have before : ∀ other found, (s.readers.erase r).lookup other = some found →
      s.readers.lookup other = some found := by
    intro other found same
    obtain ⟨-, same⟩ := Hash.lookup_erase_some same
    exact same
  refine ⟨supply.stored, fun other found same => supply.readers other found (before other found same),
    supply.downloads, fun other found d download ⟨there, initial, known, listed⟩ => ?_⟩
  exact supply.bonds other found d download ⟨before other found there, initial, known, listed⟩

theorem Supply.putDownload (supply : Supply s) (fine : DownloadFine after)
    (bond : ∀ r reader, s.readers.lookup r = some reader → reader.initial = some d →
      reader.phase ≠ .joining → Bond s.stored r reader after) : Supply (s.putDownload d after) := by
  refine ⟨supply.stored, supply.readers, fun other found same => ?_,
    fun r reader other found ⟨there, initial, known, listed⟩ => ?_⟩
  · obtain ⟨rfl, rfl⟩ | ⟨-, same⟩ := Hash.lookup_insert_some same
    · exact fine
    · exact supply.downloads other found same
  · obtain ⟨rfl, rfl⟩ | ⟨-, known⟩ := Hash.lookup_insert_some known
    · exact bond r reader there (initial) listed
    · exact supply.bonds r reader other found ⟨there, initial, known, listed⟩

private theorem Bond.carry (bond : Bond stored r reader download)
    (version : after.version = download.version) (range : after.range = download.range)
    (cursor : after.cursor = download.cursor) (blocks : after.blocks = download.blocks)
    (readers : ∀ r ∈ download.readers, r ∈ after.readers)
    (doomed : ∀ index, Doomed after index → Doomed download index)
    (halted : Over after → Over download)
    (done : Done download → after.phase = .deregistering ∨ after.phase = .ended) :
    Bond stored r reader after := by
  have still : Done download → Done after := fun before =>
    ⟨done before, by rw [cursor, range]; exact before.whole⟩
  refine ⟨readers r bond.listed, bond.supplied.pass version range cursor blocks fun index _ _ here =>
    .inl (doomed index here), fun ending => ?_, fun index polled => still (bond.polled index polled),
    fun index missed => ?_⟩
  · rw [cursor, range]
    exact bond.whole (halted ending)
  · obtain ⟨before, gone⟩ := bond.missed index missed
    exact ⟨still before, by rw [blocks]; exact gone⟩

private theorem Bond.turn (bond : Bond stored r reader download) (version : next.version = reader.version)
    (position : next.position = reader.position)
    (calm : ∀ index, next.phase ≠ .polled index .complete ∧ next.phase ≠ .missed index .complete) :
    Bond stored r next download :=
  ⟨bond.listed, bond.supplied.advance version (Nat.le_of_eq position.symm), bond.whole,
    fun index polled => absurd polled (calm index).1, fun index missed => absurd missed (calm index).2⟩

private theorem ReaderFine.uncached (uncached : reader.cachedOnly = false)
    (calm : ∀ index failure, reader.phase ≠ .polled index (.failed failure) ∧
      reader.phase ≠ .missed index (.failed failure)) : ReaderFine stored reader := by
  have only : reader.cachedOnly ≠ true := by simp [uncached]
  exact ⟨fun index failure halted => (halted.elim (calm index failure).1 (calm index failure).2).elim,
    fun cached => absurd cached only, fun cached => absurd cached only⟩

private theorem lt_divCeil {start stop block : Nat} (positive : 0 < block) (order : start < stop) :
    start / block < divCeil stop block := by
  rw [divCeil, Nat.lt_iff_add_one_le, Nat.le_div_iff_mul_le positive, Nat.add_mul]
  have := Nat.div_mul_le_self start block
  omega

theorem Supply.attach (supply : Supply s) {phase : ReaderPhase}
    (known : s.downloads.lookup d = some download)
    (fine : ReaderFine s.stored { reader with initial := some d, phase := phase })
    (supplied : Supplied s.stored reader download) (going : ¬ GivenUp download)
    (calm : ∀ index, phase ≠ .polled index .complete ∧ phase ≠ .missed index .complete) :
    Supply (s.attach r reader d download phase) := by
  have fine' := supply.downloads d download known
  have listed : Supply (s.putDownload d { download with readers := download.readers ++ [r] }) := by
    refine supply.putDownload { fine' with } fun other found there initial listed => ?_
    exact (supply.bonds other found d download ⟨there, initial, known, listed⟩).carry rfl rfl rfl rfl
      (fun _ => List.mem_append_left _) (fun _ => id) id Done.phase
  refine listed.putReader fine fun other found initial there _ => ?_
  cases initial
  change (s.downloads.insert d _).lookup d = some found at there
  rw [Hash.lookup_insert, if_pos rfl] at there
  cases there
  refine ⟨List.mem_append_right _ (List.mem_singleton.mpr rfl), ?_, fun halted => ?_,
    fun index polled => absurd polled (calm index).1, fun index missed => absurd missed (calm index).2⟩
  · exact (supplied.advance rfl le_rfl).pass rfl rfl rfl rfl fun _ _ _ => Or.inl
  · by_contra short
    exact going ⟨halted, short⟩

theorem Supply.start (supply : Supply s) (sound : Sound s) {version : Version} {range : ByteRange}
    {carried : Bool} (fine : ReaderFine s.stored { reader with initial := some s.issued })
    (calm : ∀ index, reader.phase ≠ .polled index .complete ∧ reader.phase ≠ .missed index .complete) :
    Supply (s.start r reader (.register version range carried r)) := by
  have placed : Supply (s.putDownload s.issued (.register version range carried r)) := by
    refine supply.putDownload ⟨by rintro index bytes ⟨⟩, by rintro entry ⟨⟩, by rintro ⟨⟩,
      by rintro failure ⟨⟩, by rintro failure ⟨⟩, by rintro ⟨⟩⟩ fun other found there initial _ => ?_
    obtain ⟨download, known, _⟩ := (sound.readers other found there).initial _ initial
    rw [issued_fresh sound] at known
    cases known
  refine (placed.putReader (r := r) fine fun d download initial known _ => ?_).grow rfl rfl placed.stored
    fun _ => id
  cases initial
  change (s.downloads.insert s.issued _).lookup _ = _ at known
  rw [Hash.lookup_insert, if_pos rfl] at known
  cases known
  refine ⟨List.mem_singleton.mpr rfl, ?_, by rintro ⟨⟩, fun index polled => absurd polled (calm index).1,
    fun index missed => absurd missed (calm index).2⟩
  rintro index ⟨block, bounds, start, stop⟩ _
  obtain ⟨inside, same⟩ := Geometry.range_eq_some.mp bounds
  change range.start ≤ block.start at start
  change block.stop ≤ range.start at stop
  have longer := Nat.mul_lt_mul_of_pos_right (Nat.lt_succ_self index) version.geometry.block_pos
  change index * version.geometry.block < version.geometry.length at inside
  rw [same] at start stop
  change range.start ≤ index * version.geometry.block at start
  change min ((index + 1) * version.geometry.block) version.geometry.length ≤ range.start at stop
  simp only [Nat.succ_eq_add_one] at longer
  omega

/-! ### The storage -/

private theorem stored_write (s : Service) (version : Int) (blocks : List (Nat × ByteRange)) :
    Grows s.stored (s.write version blocks).stored ∧
      (∀ entry ∈ blocks, ((s.write version blocks).stored.lookup (version, entry.1)).isSome) ∧
      ∀ key bytes, (s.write version blocks).stored.lookup key = some bytes →
        s.stored.lookup key = some bytes ∨
          ∃ entry ∈ blocks, key = (version, entry.1) ∧ bytes = entry.2 := by
  unfold Service.write
  dsimp only
  generalize s.stored = stored
  induction blocks generalizing stored with
  | nil => exact ⟨fun _ => id, by rintro entry ⟨⟩, fun key bytes same => .inl same⟩
  | cons entry blocks ih =>
    rw [List.foldl_cons]
    obtain ⟨grows, added, only⟩ := ih
      (if (stored.lookup (version, entry.1)).isSome then stored
        else stored.insert (version, entry.1) entry.2)
    refine ⟨fun key there => grows key ?_, fun other member => ?_, fun key bytes same => ?_⟩
    · split
      · exact there
      · rw [Hash.lookup_insert]
        split
        · rfl
        · exact there
    · obtain rfl | member := List.mem_cons.mp member
      · refine grows _ ?_
        split
        · assumption
        · rw [Hash.lookup_insert, if_pos rfl]
          rfl
      · exact added other member
    · obtain before | ⟨other, member, here⟩ := only key bytes same
      · split at before
        · exact .inl before
        · rw [Hash.lookup_insert] at before
          split at before
          · cases before
            exact .inr ⟨entry, .head _, ‹_›, rfl⟩
          · exact .inl before
      · exact .inr ⟨other, .tail _ member, here⟩

private theorem retire_rows (s : Service) (version : Int) (id : Int) (row : Row)
    (found : s.rows.lookup id = some row) :
    ∃ after, (s.retire version).rows.lookup id = some after ∧ after.version = row.version := by
  unfold Service.retire
  split
  · exact ⟨row, found, rfl⟩
  · rename_i before there
    dsimp only
    rw [Hash.lookup_insert]
    split
    · rename_i here
      rw [here, there] at found
      cases found
      exact ⟨_, rfl, rfl⟩
    · exact ⟨row, found, rfl⟩

private theorem StoredRight.rows {rows rows' : Hash Int Row} (right : StoredRight rows stored)
    (keep : ∀ id row, rows.lookup id = some row →
      ∃ after, rows'.lookup id = some after ∧ after.version = row.version) :
    StoredRight rows' stored := by
  intro id index bytes found
  obtain ⟨row, there, bounds⟩ := right id index bytes found
  obtain ⟨after, there', same⟩ := keep id row there
  exact ⟨after, there', same ▸ bounds⟩

private theorem retire_same (s : Service) (version : Int) :
    (s.retire version).readers = s.readers ∧ (s.retire version).downloads = s.downloads ∧
      (s.retire version).stored = s.stored := by
  unfold Service.retire
  split <;> exact ⟨rfl, rfl, rfl⟩

theorem Supply.retire (supply : Supply s) (version : Int) : Supply (s.retire version) := by
  obtain ⟨readers, downloads, stored⟩ := retire_same s version
  refine supply.grow readers downloads ?_ fun key => by rw [stored]; exact id
  rw [stored]
  exact supply.stored.rows (retire_rows s version)

theorem Supply.perform (supply : Supply s)
    (blocks : ∀ blocks, effect = .store blocks → RowOf s.rows version ∧
      ∀ entry ∈ blocks, version.geometry.range entry.1 = some entry.2) :
    Supply (s.perform version.id effect) := by
  cases effect with
  | none | failure => exact supply
  | retire => exact supply.retire version.id
  | store written =>
    obtain ⟨⟨row, there, same⟩, bounds⟩ := blocks written rfl
    obtain ⟨grows, _, only⟩ := stored_write s version.id written
    refine supply.grow rfl rfl (fun id index bytes found => ?_) grows
    obtain before | ⟨entry, member, key, rfl⟩ := only (id, index) bytes found
    · exact supply.stored id index bytes before
    · cases key
      exact ⟨row, there, same ▸ bounds entry member⟩

theorem Supply.shrink (supply : Supply s) (readers : t.readers = s.readers)
    (downloads : t.downloads = s.downloads) (stored : t.stored = Hash.filter keep s.stored)
    (right : StoredRight t.rows t.stored)
    (needed : ∀ r reader d download, Attached s r reader d download → ∀ index bytes, Delivered download index →
      reader.index ≤ index → keep (download.version.id, index) bytes = true ∨ InHand download index)
    (promised : ∀ r reader, s.readers.lookup r = some reader → reader.cachedOnly = true → reader.block = none →
      ∀ bytes, keep (reader.version.id, reader.index) bytes = true) :
    Supply t := by
  have kept : ∀ key bytes, s.stored.lookup key = some bytes → keep key bytes = true →
      (t.stored.lookup key).isSome := by
    intro key bytes found kept
    rw [stored, Hash.lookup_filter, found, Option.filter_some, if_pos kept]
    rfl
  refine ⟨right, fun r reader found => ?_, fun d download known => ?_, fun r reader d download at' => ?_⟩
  · have fine := supply.readers r reader (readers ▸ found)
    refine ⟨fine.failure, fine.cached, fun only here => ?_⟩
    obtain ⟨bare, there⟩ := fine.promise only here
    refine ⟨bare, fun more => ?_⟩
    obtain ⟨bytes, same⟩ := Option.isSome_iff_exists.mp (there more)
    exact kept _ bytes same (promised r reader (readers ▸ found) only bare bytes)
  · exact supply.downloads d download (downloads ▸ known)
  · obtain ⟨there, initial, known, listed⟩ := at'
    have before : Attached s r reader d download :=
      ⟨readers ▸ there, initial, downloads ▸ known, listed⟩
    have bond := supply.bonds r reader d download before
    refine { bond with supplied := fun index delivered wanted => ?_ }
    obtain held | held := bond.supplied index delivered wanted
    · obtain ⟨bytes, same⟩ := Option.isSome_iff_exists.mp held
      obtain spared | there := needed r reader d download before index bytes delivered wanted
      · exact .inl (kept _ bytes same spared)
      · exact .inr there
    · exact .inr held

private theorem StoredRight.filter {rows : Hash Int Row} (right : StoredRight rows stored) :
    StoredRight rows (Hash.filter keep stored) := by
  intro id index bytes found
  rw [Hash.lookup_filter] at found
  exact right id index bytes (Option.filter_eq_some_iff.mp found).1

theorem Supply.lose (supply : Supply s) (sound : Sound s) {version : Int} {blocks : List Nat}
    (considerate : Considerate s (.lose version blocks)) : Supply (s.lose version blocks) := by
  obtain ⟨listed, cached⟩ := considerate
  have stored : (s.lose version blocks).stored =
    Hash.filter (fun key _ => decide (¬ (key.1 = version ∧ key.2 ∈ blocks))) s.stored := rfl
  refine supply.shrink rfl rfl stored supply.stored.filter
    (fun r reader d download at' index bytes delivered wanted => ?_)
    fun r reader there only bare bytes => ?_
  · obtain ⟨download', known, same⟩ := (sound.readers r reader at'.there).initial d at'.initial
    cases at'.known.symm.trans known
    by_cases lost : download.version.id = version ∧ index ∈ blocks
    · exact .inr (listed r reader d download at' (same ▸ lost.1) index lost.2 delivered wanted)
    · exact .inl (decide_eq_true lost)
  · refine decide_eq_true fun lost => ?_
    exact cached r reader there only bare lost.1 lost.2

theorem Supply.delete (supply : Supply s) (sound : Sound s) {version : Int}
    (free : s.holds version = false) :
    Supply { s with
      rows := s.rows.erase version
      stored := Hash.filter (fun key _ => decide (key.1 ≠ version)) s.stored } := by
  generalize stored : Hash.filter (fun key _ => decide (key.1 ≠ version)) s.stored = rest
  have apart : ∀ r reader, s.readers.lookup r = some reader → reader.version.id ≠ version := by
    intro r reader there same
    have held : s.holds version = true :=
      Bool.or_eq_true _ _ |>.mpr (.inl (Hash.any_iff.mpr ⟨r, reader, there, decide_eq_true same⟩))
    rw [free] at held
    contradiction
  refine supply.shrink rfl rfl stored.symm (fun id index bytes found => ?_)
    (fun r reader d download at' index bytes _ _ => ?_)
    fun r reader there _ _ bytes => decide_eq_true (apart r reader there)
  · rw [← stored, Hash.lookup_filter] at found
    obtain ⟨there, other⟩ := Option.filter_eq_some_iff.mp found
    obtain ⟨row, known, bounds⟩ := supply.stored id index bytes there
    refine ⟨row, ?_, bounds⟩
    rw [Hash.lookup_erase, if_neg (of_decide_eq_true other), known]
  · obtain ⟨download', known, same⟩ := (sound.readers r reader at'.there).initial d at'.initial
    cases at'.known.symm.trans known
    exact .inl (decide_eq_true (same ▸ apart r reader at'.there))

theorem Supply.cancel (supply : Supply s) (provider : Int) : Supply (s.cancel provider) := by
  have fine : ∀ d download, DownloadFine download →
      DownloadFine (s.cancelDownload provider d download) := by
    intro d download fine
    unfold Service.cancelDownload
    split
    · refine { fine with progress := ?_, complete := by rintro ⟨⟩ }
      rintro failure ⟨⟩
      decide
    · exact fine
  have bond : ∀ r reader d download, Bond s.stored r reader download →
      Bond s.stored r reader (s.cancelDownload provider d download) := by
    intro r reader d download bond
    unfold Service.cancelDownload
    split
    · refine bond.carry rfl rfl rfl rfl (fun _ => id) (fun _ => id) (fun halted => ?_) Done.phase
      unfold Over at halted ⊢
      cases phase : download.phase <;> simp_all
    · exact bond
  refine ⟨supply.stored, supply.readers, fun d after known => ?_,
    fun r reader d after ⟨there, initial, known, listed⟩ => ?_⟩
  · change (Hash.map (s.cancelDownload provider) s.downloads).lookup d = some after at known
    rw [Hash.lookup_map, Option.map_eq_some_iff] at known
    obtain ⟨download, known, rfl⟩ := known
    exact fine d download (supply.downloads d download known)
  · change (Hash.map (s.cancelDownload provider) s.downloads).lookup d = some after at known
    rw [Hash.lookup_map, Option.map_eq_some_iff] at known
    obtain ⟨download, known, rfl⟩ := known
    exact bond r reader d download (supply.bonds r reader d download ⟨there, initial, known, listed⟩)

private theorem perform_putDownload (s : Service) (d : Nat) (download : Download) (version : Int)
    (effect : Effect) :
    (s.putDownload d download).perform version effect =
      (s.perform version effect).putDownload d download := by
  cases effect with
  | none | failure | store blocks => rfl
  | retire =>
    change (s.putDownload d download).retire version = (s.retire version).putDownload d download
    unfold Service.retire
    rw [show (s.putDownload d download).rows = s.rows from rfl]
    cases s.rows.lookup version <;> rfl

private theorem perform_same (s : Service) (version : Int) (effect : Effect) :
    (s.perform version effect).readers = s.readers ∧
      (s.perform version effect).downloads = s.downloads := by
  cases effect with
  | none | failure | store blocks => exact ⟨rfl, rfl⟩
  | retire => exact ⟨(retire_same s version).1, (retire_same s version).2.1⟩

private theorem task_store {blocks : List (Nat × ByteRange)}
    (stepped : TaskStep positions stopping obsolete download (.store blocks) after) :
    download.phase.isEnded = false ∧ blocks ⊆ download.batch := by
  generalize same : Effect.store blocks = effect at stepped
  cases stepped
  case flushed in_flush =>
    cases same
    exact ⟨by rw [in_flush]; rfl, List.Subset.refl _⟩
  case unflushed in_flush part =>
    cases same
    exact ⟨by rw [in_flush]; rfl, part⟩
  all_goals
    first
    | cases same
    | split at same <;> cases same

theorem Supply.task (supply : Supply s) (sound : Sound s) {effect : Effect}
    (known : s.downloads.lookup d = some download)
    (stepped : TaskStep (s.positions download) s.stopping (s.obsolete download.version.id) download
      effect after) (calm : effect ≠ .failure) :
    Supply ((s.putDownload d after).perform download.version.id effect) := by
  have fine := supply.downloads d download known
  have performed : Supply (s.perform download.version.id effect) := by
    refine supply.perform fun blocks same => ?_
    subst same
    obtain ⟨going, batch⟩ := task_store stepped
    exact ⟨(sound.downloads d download known).2 going, fun entry member => fine.batch entry (batch member)⟩
  obtain ⟨readers, downloads⟩ := perform_same s download.version.id effect
  rw [perform_putDownload]
  refine performed.putDownload (task_fine fine stepped calm) fun r reader there initial listed => ?_
  have bond := performed.bonds r reader d download ⟨there, initial, downloads ▸ known, listed⟩
  rw [readers] at there
  have version : download.version = reader.version := by
    obtain ⟨download', known', version⟩ := (sound.readers r reader there).initial d initial
    cases known.symm.trans known'
    exact version
  refine bond.task ?_ version fine (fun blocks same entry member => ?_) stepped
  · exact List.mem_filterMap.mpr ⟨r, bond.listed, by rw [there]; rfl⟩
  · subst same
    exact (stored_write s download.version.id blocks).2.1 entry member

private theorem Supply.unspawned (supply : Supply s) (known : s.downloads.lookup d = some download)
    (unspawned : download.phase = .unspawned) {progress : Progress} {phase : Phase}
    (calm : phase = .starting ∨ phase = .ended)
    (failing : progress = download.progress ∨
      progress = .failed (.other .serviceStopped)) :
    Supply (s.putDownload d { download with progress := progress, phase := phase }) := by
  have fine := supply.downloads d download known
  have going : download.progress ≠ .complete := fine.going (by simp [unspawned])
  have incomplete : progress ≠ .complete := by
    obtain rfl | rfl := failing
    · exact going
    · rintro ⟨⟩
  have halted : ¬ Over { download with progress := progress, phase := phase } := by
    obtain rfl | rfl := calm <;> exact incomplete
  refine supply.putDownload ⟨fine.blocks, fine.batch, ?_, ?_, ?_, fun complete => absurd complete incomplete⟩
    fun r reader there initial listed => ?_
  · obtain rfl | rfl := calm <;> rintro ⟨⟩
  · obtain rfl | rfl := calm <;> rintro failure ⟨⟩
  · obtain rfl | rfl := failing
    · exact fine.progress
    · rintro failure ⟨⟩
      decide
  · refine (supply.bonds r reader d download ⟨there, initial, known, listed⟩).carry rfl rfl rfl rfl
      (fun _ => id) ?_ (fun ending => absurd ending halted) fun done => ?_
    · obtain rfl | rfl := calm <;> exact fun _ doomed => doomed.elim
    · obtain phase | phase := done.phase <;> rw [unspawned] at phase <;> cases phase

private theorem Supply.deregister (supply : Supply s) (known : s.downloads.lookup d = some download)
    (halted : download.phase = .deregistering) :
    Supply (s.putDownload d { download with phase := .ended }) := by
  have fine := supply.downloads d download known
  refine supply.putDownload ⟨fine.blocks, fine.batch, by rintro ⟨⟩, by rintro failure ⟨⟩, fine.progress,
    fun _ => .inr rfl⟩ fun r reader there initial listed => ?_
  refine (supply.bonds r reader d download ⟨there, initial, known, listed⟩).carry rfl rfl rfl rfl
    (fun _ => id) (fun _ doomed => doomed.elim) (fun ending => ?_) fun _ => .inr rfl
  unfold Over
  rw [halted]
  exact ending

private theorem Supply.create (supply : Supply s) (fresh : version.id ∉ s.rows) :
    Supply (s.create version) := by
  refine supply.grow rfl rfl (supply.stored.rows fun id row found => ?_) fun _ => id
  refine ⟨row, ?_, rfl⟩
  rw [Service.create, Hash.lookup_insert, if_neg, found]
  rintro rfl
  rw [AList.lookup_eq_none.mpr fresh] at found
  cases found

private theorem step_listed (stepped : ReaderStep view reader answer (some next)) : reader.phase ≠ .joining := by
  cases stepped with
  | found reading => obtain reading | ⟨progress, reading⟩ := reading <;> simp [reading]
  | _ => simp_all

private theorem Supply.turn (supply : Supply s) (sound : Sound s) (there : s.readers.lookup r = some reader)
    {next : Option Reader} (stepped : ReaderStep (s.view reader) reader answer next) :
    Supply (s.putReader r next) := by
  cases next with
  | none => exact supply.dropReader r
  | some next =>
    have seen : ∀ download, (s.view reader).download = some download → DownloadFine download := by
      intro download same
      obtain ⟨d, _, known⟩ := Option.bind_eq_some_iff.mp same
      exact supply.downloads d download known
    refine supply.putReader ((supply.readers r reader there).step seen stepped)
      fun d download initial known _ => ?_
    have before := (reader_step (sound.readers r reader there) stepped).2.2 d initial
    refine (supply.bonds r reader d download ⟨there, before, known, step_listed stepped⟩).step ?_
      (supply.downloads d download known) stepped
    exact Option.bind_eq_some_iff.mpr ⟨d, before, known⟩

private theorem ReaderFine.asking (fine : ReaderFine stored reader)
    (asking : ∀ index, reader.phase ≠ .looking index)
    (later : reader.phase ≠ .entering ∧ reader.phase ≠ .joining ∧ reader.phase ≠ .idle) :
    reader.cachedOnly = false := by
  by_contra only
  obtain entering | joining | idle | ⟨index, looking⟩ := fine.cached (by simpa using only)
  · exact later.1 entering
  · exact later.2.1 joining
  · exact later.2.2 idle
  · exact asking index looking

theorem supply_step {event : Event} (sound : Sound s) (supply : Supply s)
    (considerate : Considerate s event) (stepped : Step s event t) : Supply t := by
  cases stepped with
  | @opened row start stop cachedOnly known current order inside covered =>
    have issued : Supply { s with issued := s.issued + 1 } :=
      supply.grow rfl rfl supply.stored fun _ => id
    refine issued.putReader ⟨?_, fun _ => .inl rfl, fun only _ => ⟨rfl, fun more => ?_⟩⟩ ?_
    · rintro index failure (⟨⟨⟩⟩ | ⟨⟨⟩⟩)
    · exact covered only _ le_rfl (lt_divCeil row.version.geometry.block_pos more)
    · rintro d download ⟨⟩
  | @found r d reader there entering offered =>
    have fine := supply.readers r reader there
    refine supply.putReader ⟨?_, fun _ => .inr (.inl rfl), fun only _ => ?_⟩ ?_
    · rintro index failure (⟨⟨⟩⟩ | ⟨⟨⟩⟩)
    · exact fine.promise only (.inr entering)
    · rintro d download _ _ calm
      exact absurd rfl calm
  | @alone r reader there entering none =>
    have fine := supply.readers r reader there
    refine supply.putReader ⟨?_, fun _ => .inr (.inr (.inl rfl)), fun only _ => ?_⟩
      fun d download initial known _ => ?_
    · rintro index failure (⟨⟨⟩⟩ | ⟨⟨⟩⟩)
    · exact fine.promise only (.inr entering)
    · have bond := supply.bonds r reader d download ⟨there, initial, known, by simp [entering]⟩
      exact bond.turn rfl rfl fun index => ⟨by rintro ⟨⟩, by rintro ⟨⟩⟩
  | @pushed r d reader download there joining initial known =>
    have fine := supply.readers r reader there
    obtain ⟨supplied, going⟩ := considerate reader download there known
    refine supply.attach known ⟨?_, fun _ => .inr (.inr (.inl rfl)), fun only _ => ?_⟩ supplied going
      fun index => ⟨by rintro ⟨⟩, by rintro ⟨⟩⟩
    · rintro index failure (⟨⟨⟩⟩ | ⟨⟨⟩⟩)
    · exact fine.promise only (.inl (by simp [initial]))
  | created fresh order inside partly whole covers =>
    exact (supply.create fresh).start (sound.create fresh)
      (.uncached rfl fun index failure => ⟨by rintro ⟨⟩, by rintro ⟨⟩⟩)
      fun index => ⟨by rintro ⟨⟩, by rintro ⟨⟩⟩
  | createdApart fresh order inside apart =>
    refine (supply.create fresh).putReader
      (.uncached rfl fun index failure => ⟨by rintro ⟨⟩, by rintro ⟨⟩⟩) ?_
    rintro d download ⟨⟩
  | unvalidated there seeking bare => exact (supply.retire _).dropReader _
  | @joined r index d reader download there seeking validated offered known =>
    obtain ⟨supplied, going⟩ := considerate reader download there known
    have swept : Supply { s with registry := s.sweep } := supply.grow rfl rfl supply.stored fun _ => id
    exact swept.attach known
      (.uncached ((supply.readers r reader there).asking (by simp [seeking]) (by simp [seeking]))
        fun index failure => ⟨by rintro ⟨⟩, by rintro ⟨⟩⟩) supplied going
      fun index => ⟨by rintro ⟨⟩, by rintro ⟨⟩⟩
  | @fetched r index reader there seeking validated none =>
    exact supply.start sound
      (.uncached ((supply.readers r reader there).asking (by simp [seeking]) (by simp [seeking]))
        fun index failure => ⟨by rintro ⟨⟩, by rintro ⟨⟩⟩)
      fun index => ⟨by rintro ⟨⟩, by rintro ⟨⟩⟩
  | @spawned r d index reader download there spawning initial known unspawned going =>
    have started : Supply (s.putDownload d { download with phase := .starting }) :=
      supply.unspawned known unspawned (.inl rfl) (.inl rfl)
    have uncached := (supply.readers r reader there).asking (by simp [spawning]) (by simp [spawning])
    refine started.putReader (.uncached uncached ?_) fun other found initial' known' listed => ?_
    · rintro i failure
      cases index <;> exact ⟨by rintro ⟨⟩, by rintro ⟨⟩⟩
    · have bond := started.bonds r reader other found ⟨there, initial', known', by simp [spawning]⟩
      refine bond.turn rfl rfl fun i => ?_
      cases index <;> exact ⟨by rintro ⟨⟩, by rintro ⟨⟩⟩
  | @refused r d index reader download there spawning initial known unspawned stopping =>
    exact (supply.unspawned known unspawned (.inr rfl) (.inr rfl)).dropReader _
  | answered there stepped | moved there stepped => exact supply.turn sound there stepped
  | readerFailed => exact considerate.elim
  | dropped => exact supply.dropReader _
  | droppedEarly there spawning initial known unspawned =>
    exact (supply.unspawned known unspawned (.inr rfl) (.inl rfl)).dropReader _
  | @task d download next effect known stepped =>
    refine supply.task sound known stepped ?_
    rintro rfl
    exact considerate
  | deregistered known halted =>
    exact (supply.deregister known halted).grow rfl rfl supply.stored fun _ => id
  | cancelled => exact supply.cancel _
  | @invalidated provider =>
    refine supply.grow rfl rfl (supply.stored.rows fun id row found => ?_) fun _ => id
    have changed : (s.invalidate provider).rows.lookup id = _ := Hash.lookup_map _ s.rows id
    rw [found, Option.map_some] at changed
    refine ⟨_, changed, ?_⟩
    split <;> rfl
  | retired => exact supply.retire _
  | stopped => exact supply.grow rfl rfl supply.stored fun _ => id
  | evicted | damaged => exact supply.lose sound considerate
  | deleted free => exact supply.delete sound free

theorem fresh_supply (fresh : Fresh s) : Supply s := by
  refine ⟨fresh.stored, ?_, ?_, ?_⟩
  · simp [fresh.readers]
  · simp [fresh.downloads]
  · rintro r reader d download ⟨there, _, _, _⟩
    simp [fresh.readers] at there

end Qcm.DownloadSupplyProofs
