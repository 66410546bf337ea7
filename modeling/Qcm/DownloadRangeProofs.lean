import Qcm.DownloadStateProofs

/-!
The ranges of the downloads of a version.  A download that a reader starts is cut
off at the next stored block and at the next download, under the lock that it
looked for one of its own block with, so downloads that can be reached do not
meet.  That rests on the ranges being aligned to blocks, which the code checks
for every range it asks for and not for the range of the response that makes a
version.
-/

namespace Qcm.DownloadRangeProofs

open Lib Lib.Runs ResourceFormat ResourceDownloads DownloadStateProofs

/-- A download that `downloads` leads to. -/
def Listed (s : Service) (d : Nat) : Prop :=
  (∃ key, s.registry.lookup key = some d) ∧ s.alive d = true

/-- A download that is registered and not finished. -/
structure Live (s : Service) (d : Nat) (download : Download) : Prop where
  known : s.downloads.lookup d = some download
  listed : Listed s d
  running : download.progress = .running

structure Shaped (version : Version) (range : ByteRange) : Prop where
  aligned : Aligned version.geometry range
  whole : version.ranges = false → range = ⟨0, version.geometry.length⟩

def Apart (one two : ByteRange) : Prop := one.stop ≤ two.start ∨ two.stop ≤ one.start

/-- Two ranges have a byte in common. -/
def Meets (one two : ByteRange) : Prop := one.start < two.stop ∧ two.start < one.stop

structure Ranged (s : Service) : Prop where
  shaped : ∀ d download, s.downloads.lookup d = some download → Shaped download.version download.range
  apart : ∀ d e one two, Listed s d → Listed s e → s.downloads.lookup d = some one →
    s.downloads.lookup e = some two → d ≠ e → one.version.id = two.version.id →
    Apart one.range two.range

/-- The response that makes a version covers whole blocks. -/
def RespondsAligned : Event → Prop
  | .respond version range => Aligned version.geometry range
  | _ => True

variable {s t : Service} {r d : Nat} {reader next : Reader} {download after : Download}
  {geometry : Geometry} {range : ByteRange}

/-- No download is added, and none that was lost is found again. -/
structure Shrinks (s t : Service) : Prop where
  listed : ∀ d, Listed t d → Listed s d
  evolves : Evolves s.downloads t.downloads

variable {version : Version} {position : Nat}

private theorem Ranged.shrink (ranged : Ranged s) (shrinks : Shrinks s t) : Ranged t := by
  refine ⟨fun d after found => ?_, fun d e one two first second found found' differ same => ?_⟩
  · obtain ⟨before, known, kept⟩ := shrinks.evolves.backward d after found
    rw [kept.version, kept.range]
    exact ranged.shaped d before known
  · obtain ⟨before, known, kept⟩ := shrinks.evolves.backward d one found
    obtain ⟨before', known', kept'⟩ := shrinks.evolves.backward e two found'
    rw [kept.range, kept'.range]
    refine ranged.apart d e before before' (shrinks.listed d first) (shrinks.listed e second) known
      known' differ ?_
    rw [← kept.version, ← kept'.version, same]

private theorem initial_alive (there : s.readers.lookup r = some reader)
    (initial : reader.initial = some d) : s.alive d = true :=
  Bool.or_eq_true _ _ |>.mpr (.inr (Hash.any_iff.mpr ⟨r, reader, there, by simp [initial]⟩))

private theorem Shrinks.of (registry : ∀ key d, t.registry.lookup key = some d →
      s.registry.lookup key = some d)
    (evolves : Evolves s.downloads t.downloads)
    (readers : ∀ r reader d, t.readers.lookup r = some reader → reader.initial = some d →
      s.alive d = true) : Shrinks s t := by
  refine ⟨fun d ⟨⟨key, listed⟩, alive⟩ => ⟨⟨key, registry key d listed⟩, ?_⟩, evolves⟩
  obtain going | held := Bool.or_eq_true _ _ |>.mp alive
  · obtain ⟨after, found, going⟩ := Option.any_eq_true _ _ |>.mp going
    obtain ⟨before, known, kept⟩ := evolves.backward d after found
    refine Bool.or_eq_true _ _ |>.mpr (.inl ?_)
    rw [known, Option.any_some]
    by_contra halted
    have ended := kept.ended (by simpa using halted)
    rw [ended] at going
    contradiction
  · obtain ⟨r, reader, there, initial⟩ := Hash.any_iff.mp held
    exact readers r reader d there (by simpa using initial)

private theorem same_readers (s : Service) : ∀ r reader d, s.readers.lookup r = some reader →
    reader.initial = some d → s.alive d = true := fun _ _ _ => initial_alive

variable {next : Option Reader} {phase : ReaderPhase} {index cut : Nat}

private theorem put_readers (known : ∀ reader d, next = some reader → reader.initial = some d → s.alive d = true) :
    ∀ other reader d, (s.putReader r next).readers.lookup other = some reader →
      reader.initial = some d → s.alive d = true := by
  intro other reader d found initial
  cases next with
  | none =>
    change (s.readers.erase r).lookup other = some reader at found
    rw [Hash.lookup_erase] at found
    split at found
    · cases found
    · exact initial_alive found initial
  | some next =>
    change (s.readers.insert r next).lookup other = some reader at found
    rw [Hash.lookup_insert] at found
    split at found
    · cases found
      exact known reader d rfl initial
    · exact initial_alive found initial

private theorem putReader_shrinks
    (known : ∀ reader d, next = some reader → reader.initial = some d → s.alive d = true) :
    Shrinks s (s.putReader r next) := by
  cases next with
  | none | some next => exact .of (fun _ _ => id) (.same _) (put_readers known)

private theorem putDownload_shrinks (known : s.downloads.lookup d = some download)
    (kept : Kept download after) : Shrinks s (s.putDownload d after) :=
  .of (fun _ _ => id) (.put known kept) (same_readers s)

private theorem Shrinks.trans {u : Service} (one : Shrinks s t) (two : Shrinks t u) : Shrinks s u := by
  refine ⟨fun d listed => one.listed d (two.listed d listed), fun d first known => ?_,
    fun d third known => ?_⟩
  · obtain ⟨second, known, kept⟩ := one.evolves.forward d first known
    obtain ⟨third, known, kept'⟩ := two.evolves.forward d second known
    exact ⟨third, known, kept.trans kept'⟩
  · obtain ⟨second, known, kept'⟩ := two.evolves.backward d third known
    obtain ⟨first, known, kept⟩ := one.evolves.backward d second known
    exact ⟨first, known, kept.trans kept'⟩

private theorem same_shrinks (registry : t.registry = s.registry) (downloads : t.downloads = s.downloads)
    (readers : t.readers = s.readers) : Shrinks s t := by
  refine .of (fun key d found => ?_) (downloads ▸ .same _) fun r reader d there initial => ?_
  · rwa [registry] at found
  · rw [readers] at there
    exact initial_alive there initial

private theorem attach_shrinks (alive : s.alive d = true) (known : s.downloads.lookup d = some download) :
    Shrinks s (s.attach r reader d download phase) := by
  have readers : ∀ other found e,
      (s.putReader r (some { reader with initial := some d, phase := phase })).readers.lookup other =
        some found → found.initial = some e → s.alive e = true := by
    refine put_readers fun found e same initial => ?_
    cases same
    cases initial
    exact alive
  exact .of (fun _ _ => id) (.put known ⟨rfl, rfl, id⟩) readers

private theorem sweep_shrinks (s : Service) : Shrinks s { s with registry := s.sweep } := by
  refine .of (fun key d found => ?_) (.same _) (same_readers s)
  change s.sweep.lookup key = some d at found
  rw [Service.sweep, Hash.lookup_filter] at found
  exact (Option.filter_eq_some_iff.mp found).1

/-! ## The range of a new download -/

private theorem mem_starts {version : Int} {start : Nat} :
    start ∈ s.starts version ↔ ∃ key d download, s.registry.lookup key = some d ∧ key.1 = version ∧
      s.alive d = true ∧ s.downloads.lookup d = some download ∧ download.range.start = start := by
  simp only [Service.starts, List.mem_filterMap, Option.ite_none_right_eq_some,
    Option.map_eq_some_iff, Hash.lookup_eq_some_iff]
  constructor
  · rintro ⟨⟨key, d⟩, member, ⟨same, alive⟩, download, known, start⟩
    exact ⟨key, d, download, member, same, alive, known, start⟩
  · rintro ⟨key, d, download, member, same, alive, known, start⟩
    exact ⟨⟨key, d⟩, member, ⟨same, alive⟩, download, known, start⟩

private theorem clip_effect (s : Service) (version : Int) (range : ByteRange) :
    (s.clip version range).start = range.start ∧ (s.clip version range).stop ≤ range.stop ∧
      ((s.clip version range).stop = range.stop ∨
        (s.clip version range).stop ∈ s.starts version) ∧
      ∀ start ∈ s.starts version, range.start < start → (s.clip version range).stop ≤ start := by
  have inside : ∀ start, (start ∈ (s.starts version).filter fun start =>
      decide (range.start < start ∧ start < range.stop)) ↔
        start ∈ s.starts version ∧ range.start < start ∧ start < range.stop := by
    simp
  unfold Service.clip
  dsimp only
  cases least : ((s.starts version).filter fun start =>
      decide (range.start < start ∧ start < range.stop)).min? with
  | none =>
    refine ⟨rfl, le_rfl, .inl rfl, fun start member after => ?_⟩
    by_contra before
    have between := (inside start).mpr ⟨member, after, Nat.lt_of_not_le before⟩
    rw [List.min?_eq_none_iff.mp least] at between
    exact List.not_mem_nil between
  | some stop =>
    obtain ⟨member, below⟩ := List.min?_eq_some_iff.mp least
    obtain ⟨listed, _, before⟩ := (inside stop).mp member
    refine ⟨rfl, Nat.le_of_lt before, .inr listed, fun start member after => ?_⟩
    by_cases between : start < range.stop
    · exact below start ((inside start).mpr ⟨member, after, between⟩)
    · exact Nat.le_trans (Nat.le_of_lt before) (Nat.le_of_not_lt between)

private theorem missing_aligned (aligned : Aligned version.geometry range) :
    (s.missing version range).start = range.start ∧
      Aligned version.geometry (s.missing version range) := by
  unfold Service.missing
  dsimp only
  cases next : (List.range' (range.start / version.geometry.block + 1) (divCeil range.stop
      version.geometry.block - (range.start / version.geometry.block + 1))).find? fun index =>
        (s.stored.lookup (version.id, index)).isSome with
  | none => exact ⟨rfl, aligned⟩
  | some index =>
    have member := List.mem_of_find?_eq_some next
    obtain ⟨_, below⟩ := List.mem_range'_1.mp member
    refine ⟨rfl, aligned.start, .inl (Nat.dvd_mul_left _ _), ?_⟩
    change index * version.geometry.block ≤ version.geometry.length
    refine Nat.le_trans ?_ aligned.inside
    -- a block below the rounded end starts before the end
    have positive := version.geometry.block_pos
    have before : index < divCeil range.stop version.geometry.block := by omega
    rw [divCeil, Nat.lt_iff_add_one_le, Nat.le_div_iff_mul_le positive, Nat.add_mul] at before
    omega

section

variable (sound : Sound s) (listed : Listed s d) (known : s.downloads.lookup d = some download)
include sound listed known

private theorem listed_start : download.range.start ∈ s.starts download.version.id := by
  obtain ⟨⟨key, registered⟩, alive⟩ := listed
  obtain ⟨download', known', same⟩ := sound.registry key d registered
  cases known.symm.trans known'
  exact mem_starts.mpr ⟨key, d, download, registered, same ▸ rfl, alive, known, rfl⟩

private theorem listed_offers (contains : download.range.contains position = true) :
    s.Offers download.version.id position d := by
  obtain ⟨⟨key, registered⟩, alive⟩ := listed
  obtain ⟨download', known', same⟩ := sound.registry key d registered
  cases known.symm.trans known'
  exact ⟨key, download, registered, same ▸ rfl, known, alive, contains⟩

private theorem listed_version (row : RowOf s.rows version) (same : download.version.id = version.id) :
    download.version = version :=
  (alive_row sound known listed.2).unique row same

end

private theorem block_aligned {window : Nat} (geometry : Geometry) (index : Nat)
    (whole : maxBlock ∣ window) :
    Aligned geometry
      ⟨index * geometry.block, min (index * geometry.block + window) geometry.length⟩ := by
  refine ⟨Nat.dvd_mul_left _ _, ?_, Nat.min_le_right _ _⟩
  obtain short | long := Nat.le_total (index * geometry.block + window) geometry.length
  · refine .inl ?_
    rw [Nat.min_eq_left short]
    exact (Nat.dvd_add_right (Nat.dvd_mul_left _ _)).mpr
      (Nat.dvd_trans geometry.block_dvd_maxBlock whole)
  · exact .inr (Nat.min_eq_right long)

private theorem clipped_range (aligned : Aligned version.geometry range)
    (starts : ∀ start ∈ s.starts version.id, version.geometry.block ∣ start) :
    (s.clip version.id (s.missing version range)).start = range.start ∧
      Aligned version.geometry (s.clip version.id (s.missing version range)) ∧
      ∀ start ∈ s.starts version.id, range.start < start →
        (s.clip version.id (s.missing version range)).stop ≤ start := by
  obtain ⟨start, missing⟩ := missing_aligned (s := s) aligned
  obtain ⟨start', short, stop, before⟩ := clip_effect s version.id (s.missing version range)
  refine ⟨start'.trans start, ⟨start' ▸ missing.start, ?_, Nat.le_trans short missing.inside⟩,
    fun other member after => before other member (start ▸ after)⟩
  obtain same | listed := stop
  · rw [same]
    exact missing.stop
  · exact .inl (starts _ listed)

private theorem fetch_range (sound : Sound s) (ranged : Ranged s)
    (there : s.readers.lookup r = some reader) (seeking : reader.phase = .seeking index)
    (none : ∀ d, ¬ s.Offers reader.version.id reader.position d) : Shaped reader.version (s.fetchRange reader index) ∧
      ∀ e other, Listed s e → s.downloads.lookup e = some other →
        other.version.id = reader.version.id → Apart (s.fetchRange reader index) other.range := by
  have placed := sound.readers r reader there
  obtain ⟨rfl, more⟩ := placed.index index (by rw [seeking]; rfl)
  have inside : reader.position < reader.version.geometry.length :=
    Nat.lt_of_lt_of_le more placed.inside
  -- a download of the version is shaped and does not contain the position
  have others : ∀ e other, Listed s e → s.downloads.lookup e = some other →
      other.version.id = reader.version.id →
      Shaped reader.version other.range ∧ other.range.contains reader.position = false := by
    intro e other listed known same
    have version := listed_version sound listed known placed.row same
    refine ⟨version ▸ ranged.shaped e other known, ?_⟩
    by_contra contains
    exact none e (same ▸ listed_offers sound listed known (by simpa using contains))
  unfold Service.fetchRange
  dsimp only
  cases ranges : reader.version.ranges with
  | false =>
    simp only [Bool.false_eq_true, if_false]
    refine ⟨⟨⟨Nat.dvd_zero _, .inr rfl, le_rfl⟩, fun _ => rfl⟩, ?_⟩
    intro e other listed known same
    obtain ⟨shaped, apart⟩ := others e other listed known same
    rw [shaped.whole ranges] at apart
    have contained : (⟨0, reader.version.geometry.length⟩ : ByteRange).contains reader.position = true :=
      ByteRange.contains_iff.mpr ⟨Nat.zero_le _, inside⟩
    rw [contained] at apart
    contradiction
  | true =>
    simp only [if_true]
    have starts : ∀ start ∈ s.starts reader.version.id, reader.version.geometry.block ∣ start := by
      intro start member
      obtain ⟨key, e, other, registered, same, alive, known, rfl⟩ := mem_starts.mp member
      obtain ⟨other', known', key'⟩ := sound.registry key e registered
      cases known.symm.trans known'
      exact (others e other ⟨⟨key, registered⟩, alive⟩ known (by rw [← same, ← key']; rfl)).1.aligned.start
    obtain ⟨start, aligned, before⟩ :=
      clipped_range (block_aligned reader.version.geometry reader.index placed.window.1) starts
    refine ⟨⟨aligned, fun whole => by rw [ranges] at whole; contradiction⟩, ?_⟩
    intro e other listed known same
    obtain ⟨shaped, apart⟩ := others e other listed known same
    by_cases after : reader.index * reader.version.geometry.block < other.range.start
    · exact .inl (before _ (same ▸ listed_start sound listed known) after)
    · refine .inr ?_
      rw [start]
      by_contra beyond
      have contains := shaped.aligned.contains_start inside (Nat.le_of_not_lt after)
        (Nat.lt_of_not_le beyond)
      rw [contains] at apart
      contradiction

/-! ## Steps -/

private theorem started_ranged (ranged : Ranged s) {carried : Bool}
    (shaped : Shaped reader.version range)
    (apart : ∀ e other, Listed s e → s.downloads.lookup e = some other →
      other.version.id = reader.version.id → Apart range other.range) :
    Ranged (s.start r reader (.register reader.version range carried r)) := by
  have lookup : ∀ e, (s.start r reader (.register reader.version range carried r)).downloads.lookup e =
      if e = s.issued then some (.register reader.version range carried r) else s.downloads.lookup e :=
    fun e => Hash.lookup_insert _ _ _ _
  -- a download that is not the new one was there
  have listed : ∀ e, e ≠ s.issued →
      Listed (s.start r reader (.register reader.version range carried r)) e → Listed s e := by
    rintro e old ⟨⟨key, registered⟩, alive⟩
    refine ⟨⟨key, ?_⟩, ?_⟩
    · obtain ⟨rfl, rfl⟩ | ⟨-, registered⟩ := Hash.lookup_insert_some registered
      · exact absurd rfl old
      · rw [Service.sweep, Hash.lookup_filter] at registered
        exact (Option.filter_eq_some_iff.mp registered).1
    · unfold Service.alive at alive ⊢
      rw [lookup, if_neg old, Bool.or_eq_true, Hash.any_iff] at alive
      refine Bool.or_eq_true _ _ |>.mpr (alive.imp id ?_)
      rintro ⟨other, found, there, initial⟩
      obtain ⟨rfl, rfl⟩ | ⟨-, there⟩ := Hash.lookup_insert_some there
      · exact absurd (Option.some_inj.mp (of_decide_eq_true initial)).symm old
      · exact Hash.any_iff.mpr ⟨other, found, there, initial⟩
  refine ⟨fun d download known => ?_, fun d e one two first second known known' differ same => ?_⟩
  · rw [lookup] at known
    split at known
    · cases known
      exact shaped
    · exact ranged.shaped d download known
  · rw [lookup] at known known'
    split at known
    · rename_i new
      cases known
      rw [if_neg fun new' => differ (new.trans new'.symm)] at known'
      exact apart e two (listed e (fun new' => differ (new.trans new'.symm)) second) known' same.symm
    · rename_i old
      split at known'
      · cases known'
        exact (apart d one (listed d old first) known same).symm
      · rename_i old'
        exact ranged.apart d e one two (listed d old first) (listed e old' second) known known' differ
          same

private theorem retire_shrinks (s : Service) (version : Int) : Shrinks s (s.retire version) := by
  unfold Service.retire
  split
  · exact same_shrinks rfl rfl rfl
  · exact same_shrinks rfl rfl rfl

private theorem perform_shrinks (s : Service) (version : Int) (effect : Effect) :
    Shrinks s (s.perform version effect) := by
  cases effect with
  | none | failure => exact same_shrinks rfl rfl rfl
  | retire => exact retire_shrinks s version
  | store blocks => exact same_shrinks rfl rfl rfl

private theorem dropReader_shrinks (s : Service) (r : Nat) : Shrinks s (s.putReader r none) :=
  putReader_shrinks fun _ _ absurd => by cases absurd

theorem ranged_step {event : Event} (sound : Sound s) (ranged : Ranged s) (stepped : Step s event t)
    (aligned : RespondsAligned event) : Ranged t := by
  cases stepped with
  | opened known current order inside covered =>
    have issued : Shrinks s { s with issued := s.issued + 1 } := same_shrinks rfl rfl rfl
    refine ranged.shrink (issued.trans (putReader_shrinks ?_))
    rintro reader d ⟨⟩ ⟨⟩
  | found there entering offered =>
    refine ranged.shrink (putReader_shrinks ?_)
    rintro reader d ⟨⟩ ⟨⟩
    obtain ⟨_, _, _, _, _, alive, _⟩ := offered
    exact alive
  | alone there entering none =>
    refine ranged.shrink (putReader_shrinks ?_)
    rintro reader d ⟨⟩ initial
    exact initial_alive there initial
  | pushed there joining initial known =>
    exact ranged.shrink (attach_shrinks (initial_alive there initial) known)
  | @created version range start stop fresh order inside partly whole covers =>
    have created : Shrinks s (s.create version) := same_shrinks rfl rfl rfl
    refine started_ranged (ranged.shrink created) ⟨aligned, whole⟩ ?_
    -- a version that was just made has no download
    intro e other listed known same
    obtain ⟨row, found, _⟩ := alive_row sound known (created.listed e listed).2
    change other.version.id = version.id at same
    rw [same, AList.lookup_eq_none.mpr fresh] at found
    cases found
  | @createdApart version range start stop fresh order inside apart =>
    have created : Shrinks s (s.create version) := same_shrinks rfl rfl rfl
    refine ranged.shrink (created.trans (putReader_shrinks ?_))
    rintro reader d ⟨⟩ ⟨⟩
  | unvalidated there seeking bare =>
    exact ranged.shrink ((retire_shrinks s _).trans (dropReader_shrinks _ _))
  | joined there seeking validated offered known =>
    obtain ⟨_, _, _, _, _, alive, _⟩ := offered
    exact ranged.shrink ((sweep_shrinks s).trans (attach_shrinks alive known))
  | fetched there seeking validated none =>
    obtain ⟨shaped, apart⟩ := fetch_range sound ranged there seeking none
    exact started_ranged ranged shaped apart
  | @spawned r d index reader download there spawning initial known unspawned going =>
    have kept : Kept download { download with phase := .starting } :=
      ⟨rfl, rfl, fun halted => by rw [unspawned] at halted; contradiction⟩
    refine ranged.shrink ((putDownload_shrinks known kept).trans (putReader_shrinks ?_))
    rintro _ e ⟨⟩ held
    exact initial_alive (s := s.putDownload d _) there held
  | refused there spawning initial known unspawned stopping =>
    exact ranged.shrink ((putDownload_shrinks known (kept_ended _ _)).trans (dropReader_shrinks _ _))
  | @answered r index reader answer next there stepped | @moved r reader next there stepped =>
    cases next with
    | none => exact ranged.shrink (dropReader_shrinks s r)
    | some next =>
      refine ranged.shrink (putReader_shrinks ?_)
      rintro _ d ⟨⟩ initial
      exact initial_alive there ((reader_step (sound.readers _ _ there) stepped).2.2 d initial)
  | readerFailed there spawned | dropped there spawned => exact ranged.shrink (dropReader_shrinks s _)
  | droppedEarly there spawning initial known unspawned =>
    exact ranged.shrink ((putDownload_shrinks known (kept_ended _ _)).trans (dropReader_shrinks _ _))
  | task known stepped =>
    exact ranged.shrink ((putDownload_shrinks known (task_kept stepped)).trans (perform_shrinks _ _ _))
  | deregistered known halted =>
    refine ranged.shrink (.of (fun key e found => ?_) (.put known (kept_ended _ _)) (same_readers s))
    obtain ⟨-, found⟩ := Hash.lookup_erase_some found
    exact found
  | cancelled =>
    exact ranged.shrink (.of (fun _ _ => id) (cancel_evolves s _) (same_readers s))
  | invalidated => exact ranged.shrink (same_shrinks rfl rfl rfl)
  | retired => exact ranged.shrink (retire_shrinks s _)
  | stopped | evicted known segmented free | damaged | deleted free =>
    exact ranged.shrink (same_shrinks rfl rfl rfl)

private theorem fresh_ranged (fresh : Fresh s) : Ranged s := by
  refine ⟨fun d download known => ?_, fun d e one two first second known known' differ same => ?_⟩
  · simp [fresh.downloads] at known
  · simp [fresh.downloads] at known

private theorem Apart.blocks {one two block : ByteRange} (apart : Apart one two)
    (first : Aligned geometry one) (second : Aligned geometry two)
    (bounds : geometry.range index = some block) : ¬ (Meets one block ∧ Meets two block) := by
  obtain ⟨_, rfl⟩ := Geometry.range_eq_some.mp bounds
  -- a range that starts before the block ends starts no later than the block
  have starts : ∀ {range : ByteRange}, geometry.block ∣ range.start →
      range.start < min ((index + 1) * geometry.block) geometry.length →
      range.start ≤ index * geometry.block := by
    rintro range ⟨number, same⟩ below
    rw [same, Nat.mul_comm] at below ⊢
    have before : number < index + 1 :=
      Nat.lt_of_mul_lt_mul_right (Nat.lt_of_lt_of_le below (Nat.min_le_left _ _))
    exact Nat.mul_le_mul_right _ (Nat.le_of_lt_succ before)
  rintro ⟨⟨begins, ends⟩, begins', ends'⟩
  obtain before | before := apart
  · have := starts second.start begins'
    simp only at ends
    omega
  · have := starts first.start begins
    simp only at ends'
    omega

/-- While the responses that make versions cover whole blocks, the live downloads
of a version are aligned and apart in every run, and no block belongs to two. -/
theorem live_downloads_apart {start : Service} {trace : List (Service × Event)} (fresh : Fresh start)
    (run : Steps Step start trace s) (aligned : ∀ step ∈ trace, RespondsAligned step.2) :
    ∀ d one, Live s d one → Aligned one.version.geometry one.range ∧
      ∀ e two, Live s e two → d ≠ e → two.version.id = one.version.id →
        Apart one.range two.range ∧
          ∀ index block, one.version.geometry.range index = some block →
            ¬ (Meets one.range block ∧ Meets two.range block) := by
  have inv : Sound s ∧ Ranged s := run.invariant (fun s => Sound s ∧ Ranged s)
    (fun _ event => RespondsAligned event) aligned
    (fun s event t inv guard stepped =>
      ⟨sound_step inv.1 stepped, ranged_step inv.1 inv.2 stepped guard⟩)
    ⟨fresh_sound fresh, fresh_ranged fresh⟩
  obtain ⟨sound, ranged⟩ := inv
  intro d one first
  have shaped := (ranged.shaped d one first.known).aligned
  refine ⟨shaped, fun e two second differ same => ?_⟩
  have version : two.version = one.version :=
    listed_version sound second.listed second.known (alive_row sound first.known first.listed.2) same
  have apart := ranged.apart d e one two first.listed second.listed first.known second.known differ
    same.symm
  exact ⟨apart, fun index block bounds =>
    apart.blocks shaped (version ▸ (ranged.shaped e two second.known).aligned) bounds⟩

/-- Ten mebibytes that upstream serves in ranges. -/
def tenMebibytes : Version :=
  ⟨1, 1, ⟨10485760, minBlock, minBlock_listed⟩, .blocks, true, true⟩

def tenRow : Row := ⟨tenMebibytes, 0, true⟩

/-- The first reader is given the response for the first bytes. -/
def firstServed (cut : Nat) : Service :=
  (({} : Service).create tenMebibytes).start 0
    { Reader.enter tenMebibytes 0 10485760 false with phase := .spawning none }
    (.register tenMebibytes ⟨0, cut⟩ true 0)

/-- A second reader in a phase. -/
def secondReader (position : Nat) (phase : ReaderPhase) : Reader :=
  { Reader.enter tenMebibytes position 10485760 false with phase := phase }

def secondServed (cut position : Nat) (phase : ReaderPhase) : Service :=
  { firstServed cut with issued := 3 }.putReader 2 (some (secondReader position phase))

/-- The second reader has started a download of its own. -/
def bothServed (cut position : Nat) : Service :=
  (secondServed cut position (.seeking (position / minBlock))).start 2
    (secondReader position (.spawning (some (position / minBlock))))
    (.register tenMebibytes
      ((secondServed cut position (.seeking (position / minBlock))).fetchRange
        (secondReader position (.seeking (position / minBlock))) (position / minBlock)) false 2)

private theorem empty_fresh : Fresh {} := ⟨rfl, rfl, rfl, by simp, by simp⟩

private theorem none_offered (apart : cut ≤ position) (d : Nat) :
    ¬ (secondServed cut position phase).Offers 1 position d := by
  rintro ⟨key, download, listed, _, known, _, contains⟩
  have one : d = 1 := by
    change (((({} : Service).create tenMebibytes).sweep.insert _ 1).lookup key) = some d at listed
    rw [Hash.lookup_insert] at listed
    split at listed
    · exact (Option.some_inj.mp listed).symm
    · cases listed
  subst one
  cases Option.some_inj.mp known
  obtain ⟨_, below⟩ := ByteRange.contains_iff.mp contains
  exact absurd below (Nat.not_lt.mpr apart)

private theorem both_served (some_ : 0 < cut) (apart : cut ≤ position)
    (inside : position < 10485760) : ∃ trace, Steps Step {} trace (bothServed cut position) ∧
      ∀ step ∈ trace, step.2 = .respond tenMebibytes ⟨0, cut⟩ ∨ step.2 = .quiet := by
  have created : Step {} (.respond tenMebibytes ⟨0, cut⟩) (firstServed cut) :=
    .created (by simp) (Nat.zero_le _) le_rfl
      (fun _ => ⟨some_, Nat.le_trans apart (Nat.le_of_lt inside)⟩) (by rintro ⟨⟩)
      (ByteRange.contains_iff.mpr ⟨le_rfl, some_⟩)
  have row : (firstServed cut).rows.lookup tenRow.version.id = some tenRow := rfl
  have there : ∀ phase, (secondServed cut position phase).readers.lookup 2 =
      some (secondReader position phase) := fun _ => rfl
  have opened : Step (firstServed cut) .quiet (secondServed cut position .entering) := by
    refine Step.opened row rfl (Nat.le_of_lt inside) le_rfl ?_
    rintro ⟨⟩
  have alone : Step (secondServed cut position .entering) .quiet (secondServed cut position .idle) :=
    .alone (there _) rfl (none_offered apart)
  have asked : Step (secondServed cut position .idle) .quiet
      (secondServed cut position (.looking (position / minBlock))) :=
    .moved (there _) (.asked rfl inside (by rintro ⟨⟩))
  have missed : Step (secondServed cut position (.looking (position / minBlock))) .quiet
      (secondServed cut position (.seeking (position / minBlock))) :=
    .moved (there _) (.absent rfl (show 0 ≠ 2 by decide) rfl rfl)
  have fetched : Step (secondServed cut position (.seeking (position / minBlock))) .quiet
      (bothServed cut position) := by
    have fetched := Step.fetched (there (.seeking (position / minBlock))) rfl rfl (none_offered apart)
    exact fetched
  exact ⟨_, .snoc (.snoc (.snoc (.snoc (.snoc (.snoc (.done _) created) opened) alone) asked) missed)
    fetched, by simp⟩

private theorem both_live {one two : Download} (first : (bothServed cut position).downloads.lookup 1 = some one)
    (second : (bothServed cut position).downloads.lookup 3 = some two)
    (known : ∃ key, (bothServed cut position).registry.lookup key = some 1)
    (known' : ∃ key, (bothServed cut position).registry.lookup key = some 3)
    (spawned : one.phase = .unspawned) (spawned' : two.phase = .unspawned)
    (running : one.progress = .running) (running' : two.progress = .running) :
    Live (bothServed cut position) 1 one ∧ Live (bothServed cut position) 3 two := by
  have alive : ∀ {d : Nat} {download : Download},
      (bothServed cut position).downloads.lookup d = some download → download.phase = .unspawned →
        (bothServed cut position).alive d = true := by
    intro d download known unspawned
    unfold Service.alive
    rw [known, Option.any_some, unspawned]
    rfl
  exact ⟨⟨first, ⟨known, alive first spawned⟩, running⟩,
    ⟨second, ⟨known', alive second spawned'⟩, running'⟩⟩

/-- A first response of 300000 bytes ends inside the second block, and a reader
behind it has that block fetched again. -/
theorem short_first_response_overlaps :
    ∃ s trace one two, Steps Step {} trace s ∧ Live s 1 one ∧ Live s 3 two ∧
      two.version.id = one.version.id ∧ ¬ Aligned one.version.geometry one.range ∧
      ¬ Apart one.range two.range ∧ Meets one.range ⟨262144, 524288⟩ ∧
      Meets two.range ⟨262144, 524288⟩ := by
  obtain ⟨trace, run, _⟩ := both_served (show 0 < 300000 by decide)
    (show 300000 ≤ 400000 by decide) (by decide)
  have known : (bothServed 300000 400000).registry.lookup (1, 0, 300000) = some 1 := by decide
  have known' : (bothServed 300000 400000).registry.lookup (1, 262144, 1310720) = some 3 := by decide
  obtain ⟨one, two⟩ := both_live rfl rfl ⟨_, known⟩ ⟨_, known'⟩ rfl rfl rfl rfl
  refine ⟨_, trace, _, _, run, one, two, rfl, fun aligned => ?_, ?_, ?_, ?_⟩
  · obtain whole | whole := aligned.stop
    · revert whole
      decide
    · revert whole
      decide
  · unfold Apart
    decide
  · exact ⟨by decide, by decide⟩
  · exact ⟨by decide, by decide⟩

/-- A first response of a mebibyte, and a second download right behind it. -/
theorem aligned_first_response_is_apart :
    ∃ s one two, Live s 1 one ∧ Live s 3 two ∧ Apart one.range two.range := by
  obtain ⟨trace, run, events⟩ := both_served (show 0 < 1048576 by decide)
    (show 1048576 ≤ 1048576 by decide) (by decide)
  have known : (bothServed 1048576 1048576).registry.lookup (1, 0, 1048576) = some 1 := by decide
  have known' : (bothServed 1048576 1048576).registry.lookup (1, 1048576, 2097152) = some 3 := by
    decide
  obtain ⟨one, two⟩ := both_live rfl rfl ⟨_, known⟩ ⟨_, known'⟩ rfl rfl rfl rfl
  have whole : Aligned tenMebibytes.geometry ⟨0, 1048576⟩ :=
    ⟨by decide, .inl (by decide), by decide⟩
  have aligned : ∀ step ∈ trace, RespondsAligned step.2 := by
    intro step member
    obtain same | same := events step member
    · rw [same]
      exact whole
    · rw [same]
      trivial
  obtain ⟨_, others⟩ := live_downloads_apart empty_fresh run aligned 1 _ one
  exact ⟨_, _, _, one, two, (others 3 _ two (by decide) rfl).1⟩

/-- In every run, whatever upstream answers, a version keeps its row while somebody
reads it or a task downloads it, and a reader stays inside its range and asks for
the block of its cursor, of downloads of its version. -/
theorem readers_keep_their_versions {trace : List (Service × Event)} (fresh : Fresh s)
    (run : Steps Step s trace t) : Sound t :=
  run.invariant Sound (fun _ _ => True) (fun _ _ => trivial)
    (fun _ _ _ sound _ stepped => sound_step sound stepped) (fresh_sound fresh)

theorem second_reader_keeps_its_version : RowOf (bothServed 1048576 1048576).rows tenMebibytes := by
  obtain ⟨_, run, _⟩ := both_served (show 0 < 1048576 by decide) le_rfl (by decide)
  exact ((readers_keep_their_versions empty_fresh run).readers 2 _ rfl).row

end Qcm.DownloadRangeProofs
