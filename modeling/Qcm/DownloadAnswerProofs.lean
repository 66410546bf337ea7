import Qcm.DownloadSupplyProofs

/-!
What a reader on the list of a download is answered: its block, or a failure that
is not of the cache, in every run that does not take from it what it needs.
-/

namespace Qcm.DownloadAnswerProofs

open Lib Lib.Runs ResourceFormat ResourceDownloads DownloadStateProofs
  DownloadSupplyProofs

variable {s t : Service} {r d : Nat} {reader : Reader} {download : Download}

theorem answer_fine {index : Nat} {answer : Answer} {block : ByteRange} (sound : Sound s)
    (supply : Supply s) (attached : Attached s r reader d download)
    (bounds : reader.version.geometry.range index = some block)
    (start : download.range.start ≤ block.start) (stop : block.stop ≤ download.range.stop)
    (stepped : Step s (.answer r index answer) t) : Fine block answer := by
  have placed := sound.readers r reader attached.there
  have fine := supply.readers r reader attached.there
  obtain ⟨download', known, version⟩ := placed.initial d attached.initial
  cases attached.known.symm.trans known
  have bond := supply.bonds r reader d download attached
  generalize same : Event.answer r index answer = event at stepped
  cases stepped with
  | unvalidated | refused =>
    cases same
    simp [Fine, causeOf]
  | @answered r' index' reader' answer' next there stepped =>
    cases same
    cases attached.there.symm.trans there
    have view : (s.view reader).download = some download :=
      Option.bind_eq_some_iff.mpr ⟨d, attached.initial, known⟩
    cases stepped with
    | closed => trivial
    | inactive => simp [Fine, causeOf]
    | found reading active stored =>
      obtain ⟨row, found, bounds'⟩ := supply.stored _ _ _ stored
      obtain ⟨row', found', same⟩ := placed.row
      cases found.symm.trans found'
      rw [same] at bounds'
      exact Option.some.inj (bounds'.symm.trans bounds)
    | unavailable looking active absent cached =>
      obtain ⟨rfl, more⟩ := placed.index index (by rw [looking]; rfl)
      have there := (fine.promise cached (.inl (by simp [attached.initial]))).2 more
      change s.stored.lookup _ = none at absent
      rw [absent] at there
      contradiction
    | stopped => simp [Fine, causeOf]
    | taken polled attached' there =>
      cases view.symm.trans attached'
      have bounds' := (supply.downloads d download known).blocks _ _ there
      rw [version] at bounds'
      exact Option.some.inj (bounds'.symm.trans bounds)
    | failed missed => exact fine.failure _ _ (.inr missed)
    | unproduced missed active absent =>
      obtain ⟨done, gone⟩ := bond.missed index missed
      obtain ⟨here, _⟩ := placed.index index (by rw [missed]; rfl)
      have delivered : Delivered download index :=
        ⟨block, version ▸ bounds, start, by rw [done.whole]; exact stop⟩
      obtain there | ⟨there, _⟩ := bond.supplied index delivered (Nat.le_of_eq here.symm)
      · change s.stored.lookup _ = none at absent
        rw [version, absent] at there
        contradiction
      · rw [gone] at there
        contradiction
  | @task d' before next effect => cases effect <;> cases same
  | _ => cases same

/-- Two blocks that upstream serves only as a whole. -/
def twoBlocks : Version :=
  ⟨1, 1, ⟨524288, minBlock, minBlock_listed⟩, .blocks, false, true⟩

def twoRow : Row := ⟨twoBlocks, 0, true⟩

/-- A reader of the second block only. -/
def lateReader (phase : ReaderPhase) : Reader :=
  { Reader.enter twoBlocks 262144 524288 false with phase := phase }

/-- A reader of both blocks. -/
def earlyReader (phase : ReaderPhase) : Reader :=
  { Reader.enter twoBlocks 0 524288 false with phase := phase }

def knownOnly : Service := { rows := (∅ : Hash Int Row).insert 1 twoRow }

def lateOpened (phase : ReaderPhase) : Service :=
  { knownOnly with issued := 1 }.putReader 0 (some (lateReader phase))

def bothOpened (phase : ReaderPhase) : Service :=
  { lateOpened (.seeking 1) with issued := 2 }.putReader 1 (some (earlyReader phase))

/-- The download of the reader of the second block. -/
def wholeFetch (phase : Phase) (cursor buffered pending windowEnd : Nat)
    (blocks : Hash Nat ByteRange) : Download :=
  { Download.register twoBlocks ⟨0, 524288⟩ false 0 with
    phase := phase, cursor := cursor, buffered := buffered, pending := pending
    windowEnd := windowEnd, blocks := blocks
    window := if windowEnd = 0 then none else some ⟨0, windowEnd⟩ }

/-- The service while it fetches. -/
def fetching (obsolete : Nat) (phase : ReaderPhase) (download : Download) : Service where
  rows := (∅ : Hash Int Row).insert 1 ⟨twoBlocks, obsolete, true⟩
  downloads := (∅ : Hash Nat Download).insert 2 download
  registry := (∅ : Hash (Int × Nat × Nat) Nat).insert (1, 0, 524288) 2
  readers := ((∅ : Hash Nat Reader).insert 1 (earlyReader (.seeking 0))).insert 0
    { lateReader phase with initial := some 2 }
  issued := 3

private theorem known_fresh : Fresh knownOnly := by
  refine ⟨rfl, rfl, rfl, fun id row found => ?_, by rintro id index bytes ⟨⟩⟩
  obtain ⟨same, rfl⟩ | ⟨-, found⟩ := Hash.lookup_insert_some found
  · exact same
  · cases found

/-- A run of steps that nobody sees. -/
def Quietly (s t : Service) : Prop :=
  ∃ trace, Steps Step s trace t ∧ ∀ step ∈ trace, step.2 = .quiet

private theorem Quietly.refl (s : Service) : Quietly s s := ⟨[], .done s, by simp⟩

private theorem Quietly.snoc (run : Quietly s t) {u : Service} (stepped : Step t .quiet u) : Quietly s u := by
  obtain ⟨trace, run, quiet⟩ := run
  refine ⟨_, .snoc run stepped, fun step member => ?_⟩
  obtain member | rfl := mem_snoc member
  · exact quiet step member
  · rfl

private theorem both_opened : Quietly knownOnly (bothOpened (.seeking 0)) := by
  have none : ∀ {s : Service} {version : Int} {position d : Nat}, s.registry = ∅ →
      ¬ s.Offers version position d := by
    rintro s version position d empty ⟨key, _, listed, _⟩
    rw [empty] at listed
    cases listed
  have row : knownOnly.rows.lookup twoRow.version.id = some twoRow := rfl
  have late : ∀ phase, (lateOpened phase).readers.lookup 0 = some (lateReader phase) := fun _ => rfl
  have early : ∀ phase, (bothOpened phase).readers.lookup 1 = some (earlyReader phase) := fun _ => rfl
  have first : Step knownOnly .quiet (lateOpened .entering) := by
    refine Step.opened row rfl (show 262144 ≤ 524288 by decide) (show 524288 ≤ 524288 by decide) ?_
    rintro ⟨⟩
  have second : Step (lateOpened .entering) .quiet (lateOpened .idle) :=
    .alone (late _) rfl fun _ => none rfl
  have third : Step (lateOpened .idle) .quiet (lateOpened (.looking 1)) :=
    .moved (late _) (.asked rfl (show 262144 < 524288 by decide) (by rintro ⟨⟩))
  have fourth : Step (lateOpened (.looking 1)) .quiet (lateOpened (.seeking 1)) :=
    .moved (late _) (.absent rfl (show 0 ≠ 2 by decide) rfl rfl)
  have fifth : Step (lateOpened (.seeking 1)) .quiet (bothOpened .entering) := by
    have row' : (lateOpened (.seeking 1)).rows.lookup twoRow.version.id = some twoRow := rfl
    refine Step.opened row' rfl (show 0 ≤ 524288 by decide) (show 524288 ≤ 524288 by decide) ?_
    rintro ⟨⟩
  have sixth : Step (bothOpened .entering) .quiet (bothOpened .idle) :=
    .alone (early _) rfl fun _ => none rfl
  have seventh : Step (bothOpened .idle) .quiet (bothOpened (.looking 0)) :=
    .moved (early _) (.asked rfl (show 0 < 524288 by decide) (by rintro ⟨⟩))
  have eighth : Step (bothOpened (.looking 0)) .quiet (bothOpened (.seeking 0)) :=
    .moved (early _) (.absent rfl (show 0 ≠ 2 by decide) rfl rfl)
  exact (Quietly.refl knownOnly).snoc first |>.snoc second |>.snoc third |>.snoc fourth |>.snoc fifth
    |>.snoc sixth |>.snoc seventh |>.snoc eighth

/-- The whole representation, which is not to be stored. -/
def wholeResponse : Response := ⟨200, some (524288, ⟨0, 524288⟩), true, true, true, false⟩

def firstBlock : Hash Nat ByteRange := (∅ : Hash Nat ByteRange).insert 0 ⟨0, 262144⟩
def secondBlock : Hash Nat ByteRange := (∅ : Hash Nat ByteRange).insert 1 ⟨262144, 524288⟩

/-- The service fetches, and the task has come to a state. -/
def Fetches (download : Download) : Prop := Quietly knownOnly (fetching 1 (.polling 1) download)

private theorem Fetches.next {phase : Phase} {cursor buffered pending windowEnd : Nat} {blocks : Hash Nat ByteRange}
    {after next : Download} (fetches : Fetches (wholeFetch phase cursor buffered pending windowEnd blocks))
    (stepped : TaskStep [262144] false 1 (wholeFetch phase cursor buffered pending windowEnd blocks) .none after)
    (same : after = next := by rfl) : Fetches next := by
  have known : (fetching 1 (.polling 1) (wholeFetch phase cursor buffered pending windowEnd blocks)).downloads.lookup 2 =
    some (wholeFetch phase cursor buffered pending windowEnd blocks) := rfl
  have moved := Step.task known stepped
  exact same ▸ fetches.snoc moved

private theorem both_delivered : Fetches (wholeFetch .taking 524288 0 0 524288 secondBlock) := by
  have late : (bothOpened (.seeking 0)).readers.lookup 0 = some (lateReader (.seeking 1)) := rfl
  have known : ∀ obsolete download, (fetching obsolete (.polling 1) download).downloads.lookup 2 =
    some download := fun _ _ => rfl
  have none : ∀ d, ¬ (bothOpened (.seeking 0)).Offers 1 262144 d := by
    rintro d ⟨key, _, listed, _⟩
    cases listed
  have fetched : Step (bothOpened (.seeking 0)) .quiet
      (fetching 0 (.spawning (some 1)) (wholeFetch .unspawned 0 0 0 0 ∅)) := by
    have fetched := Step.fetched late rfl rfl none
    exact fetched
  have spawned : Step (fetching 0 (.spawning (some 1)) (wholeFetch .unspawned 0 0 0 0 ∅)) .quiet
      (fetching 0 (.polling 1) (wholeFetch .starting 0 0 0 0 ∅)) := by
    have there : (fetching 0 (.spawning (some 1)) (wholeFetch .unspawned 0 0 0 0 ∅)).readers.lookup 0 =
      some { lateReader (.spawning (some 1)) with initial := some 2 } := rfl
    have spawned := Step.spawned there rfl rfl rfl rfl rfl
    exact spawned
  have accepted : Step (fetching 0 (.polling 1) (wholeFetch .starting 0 0 0 0 ∅)) .quiet
      (fetching 1 (.polling 1) (wholeFetch .top 0 0 0 0 ∅)) := by
    have stepped : TaskStep [262144] false 0 (wholeFetch .starting 0 0 0 0 ∅)
        (if wholeResponse.cacheable then .none else .retire) _ := .accepted rfl rfl rfl
    have accepted := Step.task (known 0 (wholeFetch .starting 0 0 0 0 ∅)) stepped
    exact accepted
  have bounds : twoBlocks.geometry.range (0 / twoBlocks.geometry.block) = some ⟨0, 262144⟩ := rfl
  have bounds' : twoBlocks.geometry.range (262144 / twoBlocks.geometry.block) = some ⟨262144, 524288⟩ := rfl
  have started : Fetches (wholeFetch .top 0 0 0 0 ∅) := both_opened.snoc fetched |>.snoc spawned |>.snoc accepted
  have attended : Fetches (wholeFetch .waiting 0 0 0 0 ∅) := started.next (.attended rfl (by simp))
  have chunk : Fetches (wholeFetch .taking 0 0 524288 0 ∅) :=
    attended.next (.chunk rfl (show 0 + 0 + 524288 ≤ 524288 by decide))
  have windowed : Fetches (wholeFetch .taking 0 0 524288 524288 ∅) :=
    chunk.next (.windowed rfl (by decide) le_rfl (by decide))
  have filled : Fetches (wholeFetch .finding 0 262144 262144 524288 ∅) :=
    windowed.next (.filled (d := wholeFetch .taking 0 0 524288 524288 ∅) rfl (by decide) (by decide) bounds rfl
      (show 262144 ≤ 0 + 524288 by decide))
  have measured : Fetches (wholeFetch (.pruning 262144) 0 262144 262144 524288 ∅) := filled.next (.measured rfl rfl)
  have pruned : Fetches (wholeFetch .placing 0 262144 262144 524288 ∅) := measured.next (.pruned rfl)
  have placed : Fetches (wholeFetch .taking 262144 0 262144 524288 firstBlock) := pruned.next (.placed rfl bounds)
  have filled' : Fetches (wholeFetch .finding 262144 262144 0 524288 firstBlock) :=
    placed.next (.filled (d := wholeFetch .taking 262144 0 262144 524288 firstBlock) rfl (by decide) (by decide) bounds'
      rfl (show 262144 ≤ 0 + 262144 by decide))
  have measured' : Fetches (wholeFetch (.pruning 262144) 262144 262144 0 524288 firstBlock) :=
    filled'.next (.measured rfl rfl)
  -- the reader is at the second block, so the first one goes
  have pruned' : Fetches (wholeFetch .placing 262144 262144 0 524288 ∅) := measured'.next (.pruned rfl)
  exact pruned'.next (.placed rfl bounds')

/-- The task has left its loop. -/
def finishing : Download :=
  { wholeFetch (.finishing none) 524288 0 0 524288 secondBlock with window := none }

/-- The task has reported the end to both readers. -/
def finished : Download := { finishing with readers := [0, 1] }.finish none

/-- The second reader is on the list. -/
def lateJoined (phase : ReaderPhase) (download : Download) : Service :=
  (fetching 1 (.polling 1) download).putReader 1 (some { earlyReader phase with initial := some 2 })

end Qcm.DownloadAnswerProofs
