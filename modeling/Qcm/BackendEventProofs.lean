import Qcm.BackendEvents
import Qcm.Lib.Runs

/-!
The sync status a client is left with.

Every message of the loop carries the statuses the map has, and every commit is
sent before the next event is handled.  A continuation sends those of the map it
captured, which may be older: the client then has an old status until the next
message that carries the status of the provider.
-/

namespace Qcm.BackendEvents

open Lib Lib.Runs

variable {Auth : Type} {s t : State Auth} {label : Label Auth} {p : Int}
  {trace : List (State Auth × Label Auth)} {message : Message Auth} {status : ProviderSyncStatus}

/-- The runs of the loop, with any steps of the continuations and of the global
tables in between. -/
abbrev Run (trace : List (State Auth × Label Auth)) (s : State Auth) : Prop :=
  Steps (fun s label t => step s label = some t) State.initial trace s

/-- A status of the provider leaves that is not the one in the map. -/
def SendsOld (p : Int) (s : State Auth) (label : Label Auth) : Prop :=
  ∃ message status, leaving s label = some message ∧ carried p message = some status ∧
    s.syncStatus.lookup p ≠ some status

/-- The loop is about to send what a commit of the provider made. -/
def Owes (p : Int) (s : State Auth) : Prop :=
  ∃ handling status, s.handling = some handling ∧ handling.message = .providerSyncStatus status ∧
    status.id = some p

/-- The message about a commit of the provider is lost. -/
def LosesCommit (p : Int) (s : State Auth) (label : Label Auth) : Prop :=
  label = .failed ∧ Owes p s

/-- A message leaves with the status of the provider that is in the map. -/
def SendsCurrent (p : Int) (s : State Auth) (label : Label Auth) : Prop :=
  ∃ message status, leaving s label = some message ∧ carried p message = some status ∧
    s.syncStatus.lookup p = some status

/-- Whenever an old status of the provider was sent, or the message about a commit
lost, a message with the current status was sent later. -/
def Renewed (p : Int) (trace : List (State Auth × Label Auth)) : Prop :=
  Answered (fun entry => SendsOld p entry.1 entry.2 ∨ LosesCommit p entry.1 entry.2)
    (fun entry => SendsCurrent p entry.1 entry.2) trace

variable {map : Hash Int ProviderSyncStatus}

theorem carried_statusMessage {g : Global Auth} (found : carried p (statusMessage g map) = some status) :
    map.lookup p = some status := by
  obtain ⟨entry, listed, same⟩ := List.exists_of_findSome?_eq_some found
  obtain ⟨provider, _, shape⟩ := List.mem_filterMap.mp listed
  split at same
  · rename_i here
    obtain ⟨id, known, rfl⟩ := Option.map_eq_some_iff.mp shape
    obtain rfl := Option.some.inj here
    exact same
  · cases same

theorem lastStatus_snoc (p : Int) (received : List (Message Auth)) (message : Message Auth) :
    lastStatus p (received ++ [message]) = (carried p message).or (lastStatus p received) := by
  simp [lastStatus]

@[simp] theorem mergeSyncStatus_id (v : ProviderSyncStatus) (commit : SyncCommit) :
    (mergeSyncStatus v commit).id = v.id := by
  cases commit <;> rfl

/-- The statuses in a map are those of their keys. -/
def Identified (map : Hash Int ProviderSyncStatus) : Prop :=
  ∀ id status, map.lookup id = some status → status.id = some id

theorem commitStatus_id (known : Identified map) (id : Int) (commit : SyncCommit) :
    (commitStatus map id commit).id = some id := by
  unfold commitStatus
  split
  · rename_i found
    rw [mergeSyncStatus_id]
    exact known id _ found
  · rfl

theorem mergeSyncStatus_named (v : ProviderSyncStatus) (commit : SyncCommit) (id : Option Int) :
    { mergeSyncStatus v commit with id := id } = mergeSyncStatus { v with id := id } commit := by
  cases commit <;> rfl

theorem mergedStatus_snoc {commits : List SyncCommit} (same : map.lookup p = mergedStatus p commits)
    (commit : SyncCommit) : some (commitStatus map p commit) = mergedStatus p (commits ++ [commit]) := by
  unfold commitStatus mergedStatus at *
  rw [if_neg (by simp), List.foldl_append]
  by_cases none : commits = []
  · rw [if_pos none] at same
    rw [same, none]
    exact congrArg some (mergeSyncStatus_named _ _ _)
  · rw [if_neg none] at same
    rw [same]
    rfl

/-- A step that handles no commit: the map stays, the client receives what leaves,
and the loop goes on, is done, or begins with a full status. -/
structure Moves (s : State Auth) (label : Label Auth) (t : State Auth) : Prop where
  commits : ∀ p, commitOf p label = none
  syncStatus : t.syncStatus = s.syncStatus
  received : t.received = s.received ++ (leaving s label).toList
  handling : t.handling = s.handling ∨ ((label = .sent ∨ label = .failed) ∧ t.handling = none) ∨
    (s.handling = none ∧ ∃ g spawns, t.handling = some ⟨statusMessage g s.syncStatus, spawns⟩)

theorem step_cases (stepped : step s label = some t) :
    Moves s label t ∨ ∃ id commit, label = .handle (.syncCommit id commit) ∧ s.handling = none ∧
      t = handle s (.syncCommit id commit) := by
  cases label with
  | environment g =>
    cases stepped
    exact .inl ⟨fun _ => rfl, rfl, by simp [leaving], .inl rfl⟩
  | handle event =>
    simp only [step, Option.ite_none_right_eq_some, Option.some.injEq, Option.isNone_iff_eq_none] at stepped
    obtain ⟨idle, rfl⟩ := stepped
    cases event with
    | syncCommit id commit => exact .inr ⟨id, commit, rfl, idle, rfl⟩
    | newProvider id | first | updateProvider id | deleteProvider id | replaceProvider id =>
      exact .inl ⟨fun _ => rfl, rfl, by simp [leaving, handle], .inr (.inr ⟨idle, _, _, rfl⟩)⟩
  | sent =>
    obtain ⟨handling, busy, rfl⟩ := Option.map_eq_some_iff.mp stepped
    exact .inl ⟨fun _ => rfl, rfl, by simp [leaving, busy], .inr (.inl ⟨.inl rfl, rfl⟩)⟩
  | failed =>
    obtain ⟨handling, busy, rfl⟩ := Option.map_eq_some_iff.mp stepped
    exact .inl ⟨fun _ => rfl, rfl, by simp [leaving], .inr (.inl ⟨.inr rfl, rfl⟩)⟩
  | synced k =>
    simp only [step] at stepped
    split at stepped <;> cases stepped
    exact .inl ⟨fun _ => rfl, rfl, by simp [leaving], .inl rfl⟩
  | delivered k =>
    simp only [step] at stepped
    split at stepped <;> cases stepped
    rename_i message found
    exact .inl ⟨fun _ => rfl, rfl, by simp [leaving, found], .inl rfl⟩
  | dropped k =>
    simp only [step, Option.ite_none_right_eq_some, Option.some.injEq] at stepped
    obtain ⟨_, rfl⟩ := stepped
    exact .inl ⟨fun _ => rfl, rfl, by simp [leaving], .inl rfl⟩

/-- What holds of every state reached: the map is what the commits make, and the
loop sends what the map has. -/
structure Sound (trace : List (State Auth × Label Auth)) (s : State Auth) : Prop where
  merged : ∀ p, s.syncStatus.lookup p = mergedStatus p (trace.filterMap fun entry => commitOf p entry.2)
  identified : Identified s.syncStatus
  handling : ∀ handling p status, s.handling = some handling → carried p handling.message = some status →
    s.syncStatus.lookup p = some status

theorem sound_initial : Sound [] (State.initial : State Auth) := by
  refine ⟨fun p => ?_, fun id status found => ?_, fun handling p status busy => ?_⟩
  · simp [State.initial, mergedStatus]
  · simp [State.initial] at found
  · cases busy

theorem sound_step (sound : Sound trace s) (stepped : step s label = some t) :
    Sound (trace ++ [(s, label)]) t := by
  obtain moves | ⟨id, commit, rfl, idle, rfl⟩ := step_cases stepped
  · refine ⟨fun p => ?_, moves.syncStatus ▸ sound.identified, fun handling p status busy found => ?_⟩
    · simp [moves.syncStatus, sound.merged, moves.commits p]
    · rw [moves.syncStatus]
      obtain same | ⟨_, done⟩ | ⟨_, g, spawns, begun⟩ := moves.handling
      · exact sound.handling handling p status (same ▸ busy) found
      · rw [done] at busy
        cases busy
      · cases begun.symm.trans busy
        exact carried_statusMessage found
  · have named := commitStatus_id sound.identified id commit
    refine ⟨fun p => ?_, fun other status found => ?_, fun handling p status busy found => ?_⟩
    · change (s.syncStatus.insert id (commitStatus s.syncStatus id commit)).lookup p = _
      rw [Hash.lookup_insert, List.filterMap_append]
      split
      · rename_i here
        subst here
        simpa [commitOf] using mergedStatus_snoc (sound.merged p) commit
      · rename_i apart
        simpa [commitOf, Ne.symm apart] using sound.merged p
    · obtain ⟨rfl, rfl⟩ | ⟨-, found⟩ := Hash.lookup_insert_some found
      · exact named
      · exact sound.identified other status found
    · change (s.syncStatus.insert id (commitStatus s.syncStatus id commit)).lookup p = _
      cases busy
      simp only [carried] at found
      split at found <;> cases found
      rename_i here
      cases named.symm.trans here
      exact AList.lookup_insert _

theorem sound_run (run : Run trace s) : Sound trace s := by
  induction run with
  | done => exact sound_initial
  | snoc _ stepped ih => exact sound_step ih stepped

/-! ## The last status -/

theorem sends_apart (entry : State Auth × Label Auth) :
    SendsOld p entry.1 entry.2 ∨ LosesCommit p entry.1 entry.2 → ¬ SendsCurrent p entry.1 entry.2 := by
  rintro (⟨message, status, leaves, found, old⟩ | ⟨failed, _⟩) ⟨other, current, also, held, fresh⟩
  · cases leaves.symm.trans also
    cases found.symm.trans held
    exact old fresh
  · rw [failed] at also
    cases also

theorem renewed_snoc : Renewed p (trace ++ [(s, label)]) ↔
    SendsCurrent p s label ∨ (¬ (SendsOld p s label ∨ LosesCommit p s label) ∧ Renewed p trace) :=
  answered_snoc sends_apart trace (s, label)

theorem lastStatus_moves (moves : Moves s label t) :
    (SendsCurrent p s label ∧ lastStatus p t.received = s.syncStatus.lookup p) ∨
    (SendsOld p s label ∧ lastStatus p t.received ≠ s.syncStatus.lookup p) ∨
    (¬ SendsCurrent p s label ∧ ¬ SendsOld p s label ∧
      lastStatus p t.received = lastStatus p s.received) := by
  rw [moves.received]
  cases leaves : leaving s label with
  | none => exact .inr (.inr ⟨by simp [SendsCurrent, leaves], by simp [SendsOld, leaves], by simp⟩)
  | some message =>
    rw [Option.toList_some, lastStatus_snoc]
    cases found : carried p message with
    | none =>
      exact .inr (.inr ⟨by simp [SendsCurrent, leaves, found], by simp [SendsOld, leaves, found], rfl⟩)
    | some status =>
      by_cases current : s.syncStatus.lookup p = some status
      · exact .inl ⟨⟨message, status, leaves, found, current⟩, current.symm⟩
      · exact .inr (.inl ⟨⟨message, status, leaves, found, current⟩, Ne.symm current⟩)

theorem owes_moves (sound : Sound trace s) (moves : Moves s label t) (owes : Owes p s) :
    SendsCurrent p s label ∨ LosesCommit p s label ∨ Owes p t := by
  obtain ⟨handling, status, busy, shape, named⟩ := owes
  have found : carried p handling.message = some status := by
    rw [shape]
    simp [carried, named]
  obtain same | ⟨rfl | rfl, _⟩ | ⟨idle, _⟩ := moves.handling
  · exact .inr (.inr ⟨handling, status, same.trans busy, shape, named⟩)
  · refine .inl ⟨handling.message, status, ?_, found, sound.handling handling p status busy found⟩
    simp [leaving, busy]
  · exact .inr (.inl ⟨rfl, handling, status, busy, shape, named⟩)
  · rw [idle] at busy
    cases busy

/-- The client has the status in the map exactly when nothing old was sent that
was not renewed, but for a commit that is not sent yet. -/
structure Follows (p : Int) (trace : List (State Auth × Label Auth)) (s : State Auth) : Prop where
  current : Renewed p trace → ¬ Owes p s → lastStatus p s.received = s.syncStatus.lookup p
  old : (∀ entry ∈ trace, ¬ LosesCommit p entry.1 entry.2) → ¬ Owes p s →
    lastStatus p s.received = s.syncStatus.lookup p → Renewed p trace

theorem follows_moves (sound : Sound trace s) (follows : Follows p trace s)
    (moves : Moves s label t) : Follows p (trace ++ [(s, label)]) t := by
  have still (calm : ¬ SendsCurrent p s label) (kept : ¬ LosesCommit p s label) (settled : ¬ Owes p t) :
      ¬ Owes p s := fun owes =>
    ((owes_moves sound moves owes).resolve_left calm).elim kept settled
  refine ⟨fun renewed settled => ?_, fun kept settled same => renewed_snoc.mpr ?_⟩
  · rw [moves.syncStatus]
    obtain ⟨_, fresh⟩ | ⟨old, _⟩ | ⟨calm, _, last⟩ := lastStatus_moves (p := p) moves
    · exact fresh
    · exact absurd (renewed_snoc.mp renewed) (by simp [sends_apart (s, label) (.inl old), old])
    · obtain ⟨lossless, earlier⟩ := (renewed_snoc.mp renewed).resolve_left calm
      rw [last]
      exact follows.current earlier (still calm (fun loses => lossless (.inr loses)) settled)
  · rw [moves.syncStatus] at same
    have lossless := kept (s, label) (by simp)
    obtain ⟨fresh, _⟩ | ⟨_, stale⟩ | ⟨calm, quiet, last⟩ := lastStatus_moves (p := p) moves
    · exact .inl fresh
    · exact absurd same stale
    · rw [last] at same
      exact .inr ⟨fun sends => sends.elim quiet lossless, follows.old
        (fun entry member => kept entry (List.mem_append_left _ member)) (still calm lossless settled) same⟩

theorem follows_step (sound : Sound trace s) (follows : Follows p trace s)
    (stepped : step s label = some t) : Follows p (trace ++ [(s, label)]) t := by
  obtain moves | ⟨id, commit, rfl, idle, rfl⟩ := step_cases stepped
  · exact follows_moves sound follows moves
  have quiet : ¬ Owes p s := by
    rintro ⟨handling, _, busy, _⟩
    rw [idle] at busy
    cases busy
  have calm : ¬ SendsCurrent p s (.handle (.syncCommit id commit)) := by
    rintro ⟨_, _, leaves, _⟩
    cases leaves
  have lossless : ¬ (SendsOld p s (.handle (.syncCommit id commit)) ∨
      LosesCommit p s (.handle (.syncCommit id commit))) := by
    rintro (⟨_, _, leaves, _⟩ | ⟨failed, _⟩)
    · cases leaves
    · cases failed
  by_cases here : id = p
  · -- the commit is owed now
    have owes : Owes p (handle s (.syncCommit id commit)) :=
      ⟨_, _, rfl, rfl, here ▸ commitStatus_id sound.identified id commit⟩
    exact ⟨fun _ settled => absurd owes settled, fun _ settled => absurd owes settled⟩
  · have same : (handle s (.syncCommit id commit)).syncStatus.lookup p = s.syncStatus.lookup p := by
      change (s.syncStatus.insert id _).lookup p = _
      rw [Hash.lookup_insert, if_neg (Ne.symm here)]
    refine ⟨fun renewed _ => ?_, fun kept _ last => renewed_snoc.mpr (.inr ⟨lossless, ?_⟩)⟩
    · rw [same]
      exact follows.current ((renewed_snoc.mp renewed).resolve_left calm).2 quiet
    · rw [same] at last
      exact follows.old (fun entry member => kept entry (List.mem_append_left _ member)) quiet last

theorem follows_run (run : Run trace s) : Follows p trace s := by
  induction run with
  | done => exact ⟨fun _ _ => by simp [State.initial, lastStatus], fun _ _ _ before _ _ same => by simp at same⟩
  | snoc before stepped ih => exact follows_step (sound_run before) ih stepped

/-- When every event was handled and every continuation is over, the client has
the status that the commits of a provider make, if whatever was old or lost was
renewed; and if no commit was lost, only then. -/
theorem status_converges (run : Run trace s) (quiescent : Quiescent s) (p : Int) :
    (Renewed p trace →
      lastStatus p s.received = mergedStatus p (trace.filterMap fun entry => commitOf p entry.2)) ∧
    ((∀ entry ∈ trace, ¬ LosesCommit p entry.1 entry.2) →
      lastStatus p s.received = mergedStatus p (trace.filterMap fun entry => commitOf p entry.2) →
      Renewed p trace) := by
  have settled : ¬ Owes p s := by
    rintro ⟨handling, _, busy, _⟩
    rw [quiescent.1] at busy
    cases busy
  have follows := follows_run (p := p) run
  rw [← (sound_run run).merged p]
  exact ⟨fun renewed => follows.current renewed settled, fun kept => follows.old kept settled⟩

theorem counted_songs_converge :
    ∃ (trace : List (State Unit × Label Unit)) (s : State Unit), Run trace s ∧ Quiescent s ∧
      trace.map Prod.snd = [.handle (.syncCommit 1 (.addSong 3)), .sent] ∧
      lastStatus 1 s.received = mergedStatus 1 (trace.filterMap fun entry => commitOf 1 entry.2) := by
  have run := Steps.of_record (rfl : record step (State.initial : State Unit)
    [.handle (.syncCommit 1 (.addSong 3)), .sent] = some (_, _))
  have renewed : Renewed 1 ([((State.initial : State Unit), .handle (.syncCommit 1 (.addSong 3)))] ++
      [(handle State.initial (.syncCommit 1 (.addSong 3)), .sent)]) :=
    renewed_snoc.mpr (.inl ⟨_, _, rfl, rfl, rfl⟩)
  exact ⟨_, _, run, ⟨rfl, rfl⟩, rfl, (status_converges run ⟨rfl, rfl⟩ 1).1 renewed⟩

/-- Two providers. -/
def registered : Global Unit :=
  ⟨[⟨some 1, "home", "subsonic", "", ()⟩, ⟨some 2, "away", "subsonic", "", ()⟩], ∅, []⟩

/-- Provider 2 is new while provider 1 syncs.  Its continuation sends the status
that provider 1 had then, after the client was told that its sync is finished. -/
theorem old_status_sent_last :
    ∃ (trace : List (State Unit × Label Unit)) (s : State Unit), Run trace s ∧ Quiescent s ∧
      trace.map Prod.snd =
        [.environment registered, .handle (.syncCommit 1 (.setState .syncing)), .sent,
          .handle (.newProvider 2), .sent, .handle (.syncCommit 1 (.setState .finished)), .sent,
          .synced 0, .delivered 0] ∧
      lastStatus 1 s.received = some ⟨some 1, .syncing, 0, 0, 0⟩ ∧
      mergedStatus 1 (trace.filterMap fun entry => commitOf 1 entry.2) =
        some ⟨some 1, .finished, 0, 0, 0⟩ := by
  have run := Steps.of_record (rfl : record step (State.initial : State Unit)
    [.environment registered, .handle (.syncCommit 1 (.setState .syncing)), .sent,
      .handle (.newProvider 2), .sent, .handle (.syncCommit 1 (.setState .finished)), .sent,
      .synced 0, .delivered 0] = some (_, _))
  exact ⟨_, _, run, ⟨rfl, rfl⟩, rfl, rfl, rfl⟩

end Qcm.BackendEvents
