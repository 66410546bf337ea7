import Qcm.ResourceDownloads

/-!
What holds of readers and downloads in every run, whatever upstream answers: a
version stays while somebody reads or downloads it, a reader asks for the block
of its cursor, and its download is one of its version.
-/

namespace Qcm.DownloadStateProofs

open Lib ResourceFormat ResourceDownloads

/-- The block a reader is asking for. -/
def asked : ReaderPhase → Option Nat
  | .looking index | .seeking index | .polling index | .polled index _ | .missed index _ => some index
  | .spawning index => index
  | .entering | .joining | .idle => none

/-- The version has its row. -/
def RowOf (rows : Hash Int Row) (version : Version) : Prop :=
  ∃ row, rows.lookup version.id = some row ∧ row.version = version

structure ReaderSound (rows : Hash Int Row) (downloads : Hash Nat Download) (reader : Reader) :
    Prop where
  row : RowOf rows reader.version
  inside : reader.stop ≤ reader.version.geometry.length
  cursor : reader.position ≤ reader.stop
  window : maxBlock ∣ reader.window ∧ 0 < reader.window
  index : ∀ index, asked reader.phase = some index → index = reader.index ∧ reader.position < reader.stop
  initial : ∀ d, reader.initial = some d →
    ∃ download, downloads.lookup d = some download ∧ download.version = reader.version

structure Sound (s : Service) : Prop where
  ids : ∀ id row, s.rows.lookup id = some row → row.version.id = id
  readers : ∀ r reader, s.readers.lookup r = some reader → ReaderSound s.rows s.downloads reader
  downloads : ∀ d download, s.downloads.lookup d = some download →
    d < s.issued ∧ (download.phase.isEnded = false → RowOf s.rows download.version)
  registry : ∀ key d, s.registry.lookup key = some d →
    ∃ download, s.downloads.lookup d = some download ∧ download.key = key

variable {s t : Service} {r d : Nat} {reader next : Reader} {download after : Download}
  {rows rows' : Hash Int Row} {downloads downloads' : Hash Nat Download}

variable {version : Version}

theorem fresh_sound (fresh : Fresh s) : Sound s := by
  refine ⟨fresh.rows, ?_, ?_, ?_⟩
  · simp [fresh.readers]
  · simp [fresh.downloads]
  · simp [fresh.registry]

/-! ## Readers -/

private theorem ask_effect (reader : Reader) (download : Option Download) :
    (reader.ask download).version = reader.version ∧ (reader.ask download).stop = reader.stop ∧
      (reader.ask download).position = reader.position ∧
      (reader.ask download).phase = .looking reader.index ∧
      (reader.ask download).initial =
        (if download.any (·.range.contains reader.position) then reader.initial else none) ∧
      ((reader.ask download).window = reader.window ∨
        (reader.ask download).window = min (reader.window * 2) fetchBytes) := by
  by_cases first : reader.block = none ∧ reader.cachedOnly = false
  · rw [Reader.ask, if_pos first]
    exact ⟨rfl, rfl, rfl, rfl, rfl, .inl rfl⟩
  · rw [Reader.ask, if_neg first]
    exact ⟨rfl, rfl, rfl, rfl, rfl, (ite_eq_or_eq _ _ _).symm⟩

private theorem grown_window {window : Nat} (sound : maxBlock ∣ window ∧ 0 < window) :
    maxBlock ∣ min (window * 2) fetchBytes ∧ 0 < min (window * 2) fetchBytes := by
  obtain ⟨whole, positive⟩ := sound
  refine ⟨?_, by simp [fetchBytes]; omega⟩
  obtain below | above := Nat.le_total (window * 2) fetchBytes
  · rw [Nat.min_eq_left below]
    exact Nat.dvd_trans whole (Nat.dvd_mul_right _ _)
  · rw [Nat.min_eq_right above]
    decide

private theorem ReaderSound.carry (sound : ReaderSound rows downloads reader)
    (version : next.version = reader.version) (stop : next.stop = reader.stop)
    (position : next.position = reader.position) (window : next.window = reader.window)
    (index : ∀ index, asked next.phase = some index → asked reader.phase = some index)
    (initial : ∀ d, next.initial = some d → reader.initial = some d) :
    ReaderSound rows downloads next := by
  refine ⟨?_, ?_, ?_, ?_, fun i same => ?_, fun d held => ?_⟩
  · rw [version]
    exact sound.row
  · rw [stop, version]
    exact sound.inside
  · rw [position, stop]
    exact sound.cursor
  · rw [window]
    exact sound.window
  · obtain ⟨here, more⟩ := sound.index i (index i same)
    rw [Reader.index, position, version, stop]
    exact ⟨here, more⟩
  · rw [version]
    exact sound.initial d (initial d held)

private theorem receive_initial {index : Nat} {bytes : ByteRange}
    (held : (reader.receive index bytes).initial = some d) : reader.initial = some d := by
  unfold Reader.receive at held
  dsimp only at held
  split at held
  · cases held
  · exact held

theorem reader_step (sound : ReaderSound rows downloads reader) {view : ReaderView}
    {answer : Option (Nat × Answer)} (stepped : ReaderStep view reader answer (some next)) :
    ReaderSound rows downloads next ∧ next.version = reader.version ∧
      (∀ d, next.initial = some d → reader.initial = some d) := by
  cases stepped with
  | asked idle more other =>
    obtain ⟨version, stop, position, phase, same, window⟩ := ask_effect reader view.download
    have initial : ∀ d, (reader.ask view.download).initial = some d → reader.initial = some d := by
      intro d held
      rw [same] at held
      split at held
      · exact held
      · cases held
    refine ⟨⟨?_, ?_, ?_, ?_, fun index here => ?_, fun d held => ?_⟩, version, initial⟩
    · rw [version]
      exact sound.row
    · rw [stop, version]
      exact sound.inside
    · rw [position, stop]
      exact sound.cursor
    · obtain window | window := window
      · rw [window]
        exact sound.window
      · rw [window]
        exact grown_window sound.window
    · rw [phase] at here
      cases here
      rw [Reader.index, Reader.index, position, version, stop]
      exact ⟨rfl, more⟩
    · rw [version]
      exact sound.initial d (initial d held)
  | @emitted index bytes idle more block here =>
    refine ⟨{ sound with cursor := ?_, index := fun index same => ?_ }, rfl,
      fun _ => id⟩
    · have bound : reader.frame bytes ≤ reader.stop - reader.position := Nat.min_le_right _ _
      change reader.position + reader.frame bytes ≤ reader.stop
      omega
    · change asked reader.phase = some index at same
      rw [idle] at same
      cases same
  | found | taken =>
    exact ⟨sound.carry rfl rfl rfl rfl (by rintro index ⟨⟩) fun _ => receive_initial, rfl,
      fun _ => receive_initial⟩
  | absent reading =>
    refine ⟨sound.carry rfl rfl rfl rfl (fun index same => ?_) fun _ => id, rfl,
      fun _ => id⟩
    rw [reading]
    dsimp only at same
    split at same <;> exact same
  | polled polling =>
    exact ⟨sound.carry rfl rfl rfl rfl (fun index same => by rw [polling]; exact same) fun _ => id,
      rfl, fun _ => id⟩
  | untaken polled =>
    exact ⟨sound.carry rfl rfl rfl rfl (fun index same => by rw [polled]; exact same) fun _ => id,
      rfl, fun _ => id⟩
  | waited missed =>
    exact ⟨sound.carry rfl rfl rfl rfl (fun index same => by rw [missed]; exact same) fun _ => id,
      rfl, fun _ => id⟩

private theorem ReaderSound.keep (sound : ReaderSound rows downloads reader)
    (row : RowOf rows reader.version → RowOf rows' reader.version)
    (known : ∀ d download, downloads.lookup d = some download →
      ∃ after, downloads'.lookup d = some after ∧ after.version = download.version) :
    ReaderSound rows' downloads' reader := by
  refine { sound with row := row sound.row, initial := fun d held => ?_ }
  obtain ⟨download, found, version⟩ := sound.initial d held
  obtain ⟨after, found', version'⟩ := known d download found
  exact ⟨after, found', version'.trans version⟩

/-- What a step of a task keeps of its download. -/
structure Kept (before after : Download) : Prop where
  version : after.version = before.version
  range : after.range = before.range
  ended : before.phase.isEnded = true → after.phase.isEnded = true

theorem task_kept {positions : List Nat} {stopping : Bool} {obsolete : Nat} {effect : Effect}
    (stepped : TaskStep positions stopping obsolete download effect after) : Kept download after := by
  cases stepped
  case aborted => exact ⟨rfl, rfl, fun _ => rfl⟩
  case interrupted at_select _ =>
    obtain at_select | at_select := at_select <;>
      exact ⟨rfl, rfl, fun halted => by rw [at_select] at halted; contradiction⟩
  case cancelled at_select _ =>
    obtain at_select | at_select := at_select <;>
      exact ⟨rfl, rfl, fun halted => by rw [at_select] at halted; contradiction⟩
  all_goals
    refine ⟨rfl, rfl, fun halted => ?_⟩
    simp_all [Phase.isEnded]

/-! ## The service -/

theorem Sound.putReader (sound : Sound s) (placed : ReaderSound s.rows s.downloads reader) :
    Sound (s.putReader r (some reader)) := by
  refine { sound with readers := fun other found => ?_ }
  intro same
  obtain ⟨rfl, rfl⟩ | ⟨-, same⟩ := Hash.lookup_insert_some same
  · exact placed
  · exact sound.readers other found same

theorem Sound.dropReader (sound : Sound s) (r : Nat) : Sound (s.putReader r none) := by
  refine { sound with readers := fun other found same => ?_ }
  obtain ⟨-, same⟩ := Hash.lookup_erase_some same
  exact sound.readers other found same

/-- Every download keeps its version and its range, and none is added. -/
structure Evolves (downloads downloads' : Hash Nat Download) : Prop where
  forward : ∀ d before, downloads.lookup d = some before →
    ∃ after, downloads'.lookup d = some after ∧ Kept before after
  backward : ∀ d after, downloads'.lookup d = some after →
    ∃ before, downloads.lookup d = some before ∧ Kept before after

theorem Kept.refl (download : Download) : Kept download download := ⟨rfl, rfl, id⟩

theorem Kept.trans {first second third : Download} (one : Kept first second)
    (two : Kept second third) : Kept first third :=
  ⟨two.version.trans one.version, two.range.trans one.range, fun halted => two.ended (one.ended halted)⟩

theorem Evolves.same (downloads : Hash Nat Download) : Evolves downloads downloads :=
  ⟨fun _ before found => ⟨before, found, .refl before⟩, fun _ after found => ⟨after, found, .refl after⟩⟩

theorem kept_ended (download : Download) (progress : Progress) :
    Kept download { download with progress := progress, phase := .ended } :=
  ⟨rfl, rfl, fun _ => rfl⟩

theorem Evolves.put (known : downloads.lookup d = some download) (kept : Kept download after) :
    Evolves downloads (downloads.insert d after) := by
  refine ⟨fun other found same => ?_, fun other found same => ?_⟩
  · rw [Hash.lookup_insert]
    split
    · rename_i here
      rw [here, known] at same
      cases same
      exact ⟨after, rfl, kept⟩
    · exact ⟨found, same, .refl found⟩
  · obtain ⟨rfl, rfl⟩ | ⟨-, same⟩ := Hash.lookup_insert_some same
    · exact ⟨download, known, kept⟩
    · exact ⟨found, same, .refl found⟩

theorem Evolves.map {change : Nat → Download → Download}
    (kept : ∀ d download, Kept download (change d download)) :
    Evolves downloads (Hash.map change downloads) := by
  refine ⟨fun d before found => ?_, fun d after found => ?_⟩
  · exact ⟨change d before, by rw [Hash.lookup_map, found, Option.map_some], kept d before⟩
  · rw [Hash.lookup_map, Option.map_eq_some_iff] at found
    obtain ⟨before, there, rfl⟩ := found
    exact ⟨before, there, kept d before⟩

section

variable (sound : Sound s)
include sound

theorem Sound.evolve (evolves : Evolves s.downloads downloads) :
    Sound { s with downloads := downloads } := by
  refine ⟨sound.ids, fun r reader found => ?_, fun d after found => ?_, fun key d found => ?_⟩
  · refine (sound.readers r reader found).keep id fun d download known => ?_
    obtain ⟨after, there, kept⟩ := evolves.forward d download known
    exact ⟨after, there, kept.version⟩
  · obtain ⟨before, known, kept⟩ := evolves.backward d after found
    obtain ⟨bound, row⟩ := sound.downloads d before known
    refine ⟨bound, fun going => ?_⟩
    rw [kept.version]
    refine row ?_
    by_contra halted
    rw [kept.ended (by simpa using halted)] at going
    contradiction
  · obtain ⟨before, known, same⟩ := sound.registry key d found
    obtain ⟨after, there, kept⟩ := evolves.forward d before known
    exact ⟨after, there, by rw [Download.key, kept.version, kept.range]; exact same⟩

theorem Sound.putDownload (known : s.downloads.lookup d = some download) (kept : Kept download after) :
    Sound (s.putDownload d after) :=
  sound.evolve (.put known kept)

theorem Sound.changeRows (ids : ∀ id row, rows.lookup id = some row → row.version.id = id)
    (keep : ∀ version, s.holds version.id = true → RowOf s.rows version → RowOf rows version) :
    Sound { s with rows := rows } := by
  refine ⟨ids, fun r reader found => ?_, fun d download found => ?_, sound.registry⟩
  · refine (sound.readers r reader found).keep (keep _ ?_) fun d download known => ⟨download, known, rfl⟩
    exact Bool.or_eq_true _ _ |>.mpr (.inl (Hash.any_iff.mpr ⟨r, reader, found, by simp⟩))
  · obtain ⟨bound, row⟩ := sound.downloads d download found
    refine ⟨bound, fun going => keep _ ?_ (row going)⟩
    exact Bool.or_eq_true _ _ |>.mpr (.inr (Hash.any_iff.mpr ⟨d, download, found, by simp [going]⟩))

theorem Sound.changeStored (stored : Hash (Int × Nat) ByteRange) : Sound { s with stored := stored } :=
  { sound with }

theorem Sound.changeRegistry {registry : Hash (Int × Nat × Nat) Nat}
    (smaller : ∀ key d, registry.lookup key = some d → s.registry.lookup key = some d) :
    Sound { s with registry := registry } :=
  { sound with registry := fun key d found => sound.registry key d (smaller key d found) }

theorem Sound.retire (version : Int) : Sound (s.retire version) := by
  unfold Service.retire
  split
  · exact sound
  · rename_i row found
    refine sound.changeRows (fun id other same => ?_) (fun held _ ⟨other, same, here⟩ => ?_)
    · obtain ⟨here, rfl⟩ | ⟨-, same⟩ := Hash.lookup_insert_some same
      · exact (sound.ids version row found).trans here
      · exact sound.ids id other same
    · by_cases here' : held.id = version
      · rw [here', found] at same
        cases same
        exact ⟨{ row with obsolete := 1 }, by rw [Hash.lookup_insert, if_pos here'], here⟩
      · exact ⟨other, by rw [Hash.lookup_insert, if_neg here', same], here⟩

theorem Sound.sweep : Sound { s with registry := s.sweep } := by
  refine sound.changeRegistry fun key d found => ?_
  rw [Service.sweep, Hash.lookup_filter] at found
  exact (Option.filter_eq_some_iff.mp found).1

theorem Sound.issue : Sound { s with issued := s.issued + 1 } :=
  { sound with downloads := fun d download found => ⟨Nat.lt_succ_of_lt (sound.downloads d download found).1,
    (sound.downloads d download found).2⟩ }

end

theorem Sound.write (sound : Sound s) (version : Int) (effect : Effect) :
    Sound (s.perform version effect) := by
  cases effect with
  | none | failure => exact sound
  | retire => exact sound.retire version
  | store blocks => exact sound.changeStored _

theorem RowOf.unique {other : Version} (one : RowOf rows version) (two : RowOf rows other)
    (same : version.id = other.id) : version = other := by
  obtain ⟨row, found, rfl⟩ := one
  obtain ⟨row', found', rfl⟩ := two
  rw [same, found'] at found
  cases found
  rfl

theorem alive_row (sound : Sound s) (known : s.downloads.lookup d = some download)
    (alive : s.alive d = true) : RowOf s.rows download.version := by
  unfold Service.alive at alive
  rw [known, Option.any_some, Bool.or_eq_true, Hash.any_iff] at alive
  obtain going | ⟨r, reader, found, initial⟩ := alive
  · exact (sound.downloads d download known).2 (by simpa using going)
  · have placed := sound.readers r reader found
    obtain ⟨download', known', version⟩ := placed.initial d (by simpa using initial)
    rw [known] at known'
    cases known'
    exact version ▸ placed.row

theorem offers_version (sound : Sound s) {position : Nat} (row : RowOf s.rows version)
    (offered : s.Offers version.id position d) :
    ∃ download, s.downloads.lookup d = some download ∧ download.version = version ∧
      download.range.contains position = true := by
  obtain ⟨key, download, listed, id, known, alive, contains⟩ := offered
  obtain ⟨download', known', same⟩ := sound.registry key d listed
  rw [known] at known'
  cases known'
  refine ⟨download, known, (alive_row sound known alive).unique row ?_, contains⟩
  rw [← id, ← same]
  rfl

theorem Sound.attach (sound : Sound s) {phase : ReaderPhase}
    (placed : ReaderSound s.rows s.downloads reader)
    (known : s.downloads.lookup d = some download) (version : download.version = reader.version)
    (index : ∀ index, asked phase = some index → asked reader.phase = some index) :
    Sound (s.attach r reader d download phase) := by
  have listed : Sound (s.putDownload d { download with readers := download.readers ++ [r] }) :=
    sound.putDownload known ⟨rfl, rfl, id⟩
  refine listed.putReader { placed with index := fun i same => placed.index i (index i same), initial := ?_ }
  rintro other ⟨⟩
  exact ⟨{ download with readers := download.readers ++ [r] },
    by rw [Service.putDownload, Hash.lookup_insert, if_pos rfl], version⟩

theorem issued_fresh (sound : Sound s) : s.downloads.lookup s.issued = none := by
  cases found : s.downloads.lookup s.issued with
  | none => rfl
  | some download => exact absurd (sound.downloads _ download found).1 (Nat.lt_irrefl _)

theorem Sound.start (sound : Sound s) (range : ByteRange) (carried : Bool)
    (placed : ReaderSound s.rows s.downloads reader) :
    Sound (s.start r reader (.register reader.version range carried r)) := by
  have fresh := issued_fresh sound
  have keeps : ∀ d before, s.downloads.lookup d = some before →
      (s.start r reader (.register reader.version range carried r)).downloads.lookup d = some before := by
    intro d before found
    change (s.downloads.insert s.issued _).lookup d = some before
    rw [Hash.lookup_insert, if_neg, found]
    rintro rfl
    rw [fresh] at found
    cases found
  have new : (s.start r reader (.register reader.version range carried r)).downloads.lookup s.issued =
      some (.register reader.version range carried r) := by
    change (s.downloads.insert s.issued _).lookup _ = _
    rw [Hash.lookup_insert, if_pos rfl]
  refine ⟨sound.ids, fun other found same => ?_, fun d after same => ?_, fun key d same => ?_⟩
  · obtain ⟨rfl, rfl⟩ | ⟨-, same⟩ := Hash.lookup_insert_some same
    · refine { placed with initial := ?_ }
      rintro d ⟨⟩
      exact ⟨_, new, rfl⟩
    · exact (sound.readers other found same).keep id fun d download known =>
        ⟨download, keeps d download known, rfl⟩
  · obtain ⟨rfl, rfl⟩ | ⟨-, same⟩ := Hash.lookup_insert_some same
    · exact ⟨Nat.lt_succ_self _, fun _ => placed.row⟩
    · obtain ⟨bound, row⟩ := sound.downloads d after same
      exact ⟨Nat.lt_succ_of_lt bound, row⟩
  · obtain ⟨here, rfl⟩ | ⟨-, same⟩ := Hash.lookup_insert_some same
    · exact ⟨_, new, here⟩
    · obtain ⟨before, known, key'⟩ := sound.sweep.registry key d same
      exact ⟨before, keeps d before known, key'⟩

/-! ## Steps -/

private theorem enter_sound {start stop : Nat} {cachedOnly : Bool} (row : RowOf rows version)
    (order : start ≤ stop) (inside : stop ≤ version.geometry.length) {phase : ReaderPhase}
    (silent : asked phase = none) :
    ReaderSound rows downloads { Reader.enter version start stop cachedOnly with phase := phase } := by
  refine ⟨row, inside, order, ?_, fun index same => ?_, fun d held => ?_⟩
  · change maxBlock ∣ (if start = 0 then fetchBytes else maxBlock) ∧
      0 < (if start = 0 then fetchBytes else maxBlock)
    split <;> decide
  · change asked phase = some index at same
    rw [silent] at same
    cases same
  · cases held

theorem Sound.create (sound : Sound s) (fresh : version.id ∉ s.rows) : Sound (s.create version) := by
  have changed : Sound { s with rows := s.rows.insert version.id ⟨version, 0, true⟩ } := by
    refine sound.changeRows (fun id row same => ?_) fun held _ ⟨row, found, same⟩ => ?_
    · obtain ⟨here, rfl⟩ | ⟨-, same⟩ := Hash.lookup_insert_some same
      · exact here
      · exact sound.ids id row same
    · refine ⟨row, ?_, same⟩
      rw [Hash.lookup_insert, if_neg, found]
      rintro here
      rw [here] at found
      rw [AList.lookup_eq_none.mpr fresh] at found
      cases found
  exact changed.issue

private theorem delete_sound (sound : Sound s) {version : Int} (free : s.holds version = false) :
    Sound { s with rows := s.rows.erase version } := by
  refine sound.changeRows (fun id row same => ?_) fun held holds ⟨row, found, same⟩ => ?_
  · obtain ⟨-, same⟩ := Hash.lookup_erase_some same
    exact sound.ids id row same
  · refine ⟨row, ?_, same⟩
    rw [Hash.lookup_erase, if_neg, found]
    rintro here
    rw [here, free] at holds
    contradiction

private theorem create_row (s : Service) (version : Version) :
    RowOf (s.create version).rows version :=
  ⟨⟨version, 0, true⟩, by rw [Service.create, Hash.lookup_insert, if_pos rfl], rfl⟩

theorem cancel_evolves (s : Service) (provider : Int) :
    Evolves s.downloads (Hash.map (s.cancelDownload provider) s.downloads) := by
  refine .map fun d download => ?_
  unfold Service.cancelDownload
  split
  · exact ⟨rfl, rfl, id⟩
  · exact .refl _

theorem sound_step {event : Event} (sound : Sound s) (stepped : Step s event t) : Sound t := by
  cases stepped with
  | opened known current order inside covered =>
    exact sound.issue.putReader (enter_sound ⟨_, known, rfl⟩ order inside rfl)
  | found there entering offered =>
    have placed := sound.readers _ _ there
    obtain ⟨download, known, version, _⟩ := offers_version sound placed.row offered
    refine sound.putReader { placed with index := ?_, initial := ?_ }
    · rintro index ⟨⟩
    · rintro d ⟨⟩
      exact ⟨download, known, version⟩
  | alone there entering none =>
    exact sound.putReader ((sound.readers _ _ there).carry rfl rfl rfl rfl (by rintro index ⟨⟩)
      fun _ => id)
  | pushed there joining initial known =>
    have placed := sound.readers _ _ there
    obtain ⟨download, known', version⟩ := placed.initial _ initial
    rw [known] at known'
    cases known'
    exact sound.attach placed known version (by rintro index ⟨⟩)
  | created fresh order inside partly whole covers =>
    exact (sound.create fresh).start _ _ (enter_sound (create_row s _) order inside rfl)
  | createdApart fresh order inside apart =>
    exact (sound.create fresh).putReader (enter_sound (create_row s _) order inside rfl)
  | unvalidated there seeking bare => exact (sound.retire _).dropReader _
  | joined there seeking validated offered known =>
    have placed := sound.readers _ _ there
    obtain ⟨download, known', version, _⟩ := offers_version sound placed.row offered
    rw [known] at known'
    cases known'
    exact sound.sweep.attach placed known version fun index same => by rw [seeking]; exact same
  | fetched there seeking validated none =>
    refine sound.start _ _ ((sound.readers _ _ there).carry rfl rfl rfl rfl (fun index same => ?_)
      fun _ => id)
    rw [seeking]
    exact same
  | @spawned r d index reader download there spawning initial known unspawned going =>
    have placed := sound.readers _ _ there
    have kept : Kept download { download with phase := .starting } :=
      ⟨rfl, rfl, fun halted => by rw [unspawned] at halted; contradiction⟩
    refine (sound.putDownload known kept).putReader ?_
    have moved : ReaderSound s.rows s.downloads { reader with phase := index.elim .idle .polling } := by
      refine placed.carry rfl rfl rfl rfl (fun i same => ?_) fun _ => id
      rw [spawning]
      cases index with
      | none => cases same
      | some j => exact same
    exact moved.keep id fun d' before found => by
      obtain ⟨after, there, kept⟩ := (Evolves.put known kept).forward d' before found
      exact ⟨after, there, kept.version⟩
  | refused there spawning initial known unspawned stopping =>
    exact (sound.putDownload known (kept_ended _ _)).dropReader _
  | @answered r index reader answer next there stepped | @moved r reader next there stepped =>
    cases next with
    | none => exact sound.dropReader _
    | some next => exact sound.putReader (reader_step (sound.readers _ _ there) stepped).1
  | readerFailed there spawned | dropped there spawned => exact sound.dropReader _
  | droppedEarly there spawning initial known unspawned =>
    exact (sound.putDownload known (kept_ended _ _)).dropReader _
  | task known stepped => exact (sound.putDownload known (task_kept stepped)).write _ _
  | deregistered known halted =>
    refine (sound.putDownload known (kept_ended _ _)).changeRegistry fun key d found => ?_
    obtain ⟨-, found⟩ := Hash.lookup_erase_some found
    exact found
  | cancelled => exact sound.evolve (cancel_evolves s _)
  | invalidated =>
    refine sound.changeRows (fun id row same => ?_) fun held _ ⟨row, found, same⟩ => ?_
    · rw [Hash.lookup_map, Option.map_eq_some_iff] at same
      obtain ⟨before, found, rfl⟩ := same
      split
      · exact sound.ids id before found
      · exact sound.ids id before found
    · refine ⟨_, by rw [Hash.lookup_map, found, Option.map_some], ?_⟩
      split
      · exact same
      · exact same
  | retired => exact sound.retire _
  | stopped => exact { sound with }
  | evicted known segmented free | damaged => exact sound.changeStored _
  | deleted free =>
    exact (delete_sound sound free).changeStored _

end Qcm.DownloadStateProofs
