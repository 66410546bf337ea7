import Qcm.Playback

/-!
Where an opened source is.  A registration that has not ended, the table, the
sessions that a section has taken out of it and the spawned cleanups share the
sources out between them; every step moves a source from one to the next.
-/

namespace Qcm.Playback

open Lib PlaybackSessions

variable {s t : PlaybackSessions} {id : Nat} {token : String} {out : List String} {session : Session}

/-- The sources lie in the table, with a registration, among those taken `out` of the table or among those that
were closed, each in one of these and there once; and those of the first two have permits. -/
structure Shared (out : List String) (s : PlaybackSessions) : Prop where
  cancelled : ∀ token, token ∈ s.cancelled ↔ token ∈ s.scheduled
  once : s.scheduled.Nodup
  keyed : ∀ token session, s.sessions.lookup token = some session → session.token = token
  table : ∀ token ∈ s.sessions, token ∉ s.scheduled
  apart : out.Nodup
  taken : ∀ token ∈ out, token ∉ s.scheduled ∧ token ∉ s.sessions
  held : ∀ id token, holding s id = some token → token ∉ s.scheduled ∧ token ∉ s.sessions ∧ token ∉ out
  alone : ∀ first second token, holding s first = some token → holding s second = some token → first = second
  known : ∀ token, token ∈ s.returned ↔
    token ∈ s.sessions ∨ token ∈ s.scheduled ∨ token ∈ out ∨ Registering s token
  permits : ∀ token, token ∈ s.sessions ∨ Registering s token → .session token ∈ s.permits
  bound : s.permits.length ≤ maxSessions

variable {task : Task}

theorem Shared.start (ids : Nat → Option Int) (epochs : Nat → Nat) : Shared [] { ids := ids, epochs := epochs } where
  cancelled _ := Iff.rfl
  once := List.nodup_nil
  keyed _ _ found := nomatch found
  table _ member := nomatch member
  apart := List.nodup_nil
  taken _ member := nomatch member
  held _ _ holds := nomatch holds
  alone _ _ _ holds := nomatch holds
  known token := by
    constructor
    · intro member
      cases member
    · rintro (member | member | member | ⟨_, holds⟩)
      · exact nomatch member
      · exact nomatch member
      · exact nomatch member
      · exact nomatch holds
  permits _ := by
    rintro (member | ⟨_, holds⟩)
    · exact nomatch member
    · exact nomatch holds
  bound := Nat.zero_le _

theorem holding_put (s : PlaybackSessions) (id : Nat) (task : Task) (other : Nat) :
    holding (s.put id task) other = if other = id then task.held else holding s other := by
  unfold holding PlaybackSessions.put
  rw [Hash.lookup_insert]
  split <;> rfl

theorem holding_done (s : PlaybackSessions) (id other : Nat) :
    holding (s.done id) other = if other = id then none else holding s other := by
  unfold holding PlaybackSessions.done
  rw [Hash.lookup_erase]
  split <;> rfl

/-- A task that holds what it held before leaves everything where it is. -/
theorem holding_put_of_held (same : holding s id = task.held) (other : Nat) :
    holding (s.put id task) other = holding s other := by
  rw [holding_put]
  split
  · rename_i here
    rw [here, same]
  · rfl

theorem holding_done_of_none (free : holding s id = none) (other : Nat) : holding (s.done id) other = holding s other := by
  rw [holding_done]
  split
  · rename_i here
    rw [here, free]
  · rfl

theorem holding_of_absent (absent : id ∉ s.tasks) : holding s id = none := by
  rw [holding, AList.lookup_eq_none.mpr absent]
  rfl

theorem holding_of_lookup (found : s.tasks.lookup id = some task) : holding s id = task.held := by
  rw [holding, found]
  rfl

section

variable (shared : Shared out s) (sessions : t.sessions = s.sessions)
  (cancelled : t.cancelled = s.cancelled) (scheduled : t.scheduled = s.scheduled)
  (returned : t.returned = s.returned)
include shared sessions cancelled scheduled returned

theorem Shared.still (holds : ∀ id, holding t id = holding s id) (bound : t.permits.length ≤ maxSessions)
    (permits : ∀ token, token ∈ s.sessions ∨ Registering s token → .session token ∈ t.permits) : Shared out t := by
  have registering : ∀ token, Registering t token ↔ Registering s token := fun token =>
    exists_congr fun id => by rw [holds id]
  refine ⟨?_, ?_, ?_, ?_, shared.apart, ?_, ?_, ?_, ?_, ?_, bound⟩
  · rw [cancelled, scheduled]
    exact shared.cancelled
  · rw [scheduled]
    exact shared.once
  · rw [sessions]
    exact shared.keyed
  · rw [sessions, scheduled]
    exact shared.table
  · rw [sessions, scheduled]
    exact shared.taken
  · rw [sessions, scheduled]
    exact fun id token here => shared.held id token ((holds id) ▸ here)
  · exact fun first second token one two => shared.alone first second token ((holds first) ▸ one) ((holds second) ▸ two)
  · intro token
    rw [sessions, scheduled, returned, registering token]
    exact shared.known token
  · intro token here
    rw [sessions, registering token] at here
    exact permits token here

theorem Shared.calm (permits : t.permits = s.permits) (holds : ∀ id, holding t id = holding s id) : Shared out t :=
  shared.still sessions cancelled scheduled returned holds (permits ▸ shared.bound) fun token here =>
    permits ▸ shared.permits token here

end

theorem Shared.put (shared : Shared out s) (same : holding s id = task.held) : Shared out (s.put id task) :=
  shared.calm rfl rfl rfl rfl rfl (holding_put_of_held same)

theorem Shared.done (shared : Shared out s) (free : holding s id = none) : Shared out (s.done id) :=
  shared.calm rfl rfl rfl rfl rfl (holding_done_of_none free)

/-! ## Sources that move -/

theorem Shared.scheduleClose (shared : Shared (session.token :: out) s) : Shared out (s.scheduleClose session) := by
  obtain ⟨fresh, apart⟩ := List.nodup_cons.mp shared.apart
  obtain ⟨unscheduled, absent⟩ := shared.taken session.token (.head _)
  unfold PlaybackSessions.scheduleClose
  rw [if_neg fun member => unscheduled ((shared.cancelled _).mp member)]
  have scheduled : ∀ token, token ∈ s.scheduled ++ [session.token] ↔ token ∈ s.scheduled ∨ token = session.token :=
    fun token => by simp
  refine ⟨fun token => ?_, ?_, shared.keyed, fun token there => ?_, apart, fun token there => ?_,
    fun id token holds => ?_, shared.alone, fun token => ?_, shared.permits, shared.bound⟩
  · rw [scheduled, List.mem_cons, shared.cancelled token]
    exact or_comm
  · have once := shared.once.concat unscheduled
    rw [List.concat_eq_append] at once
    exact once
  · rw [scheduled, not_or]
    exact ⟨shared.table token there, fun same => absent (same ▸ there)⟩
  · obtain ⟨before, outside⟩ := shared.taken token (.tail _ there)
    rw [scheduled, not_or]
    exact ⟨⟨before, fun same => fresh (same ▸ there)⟩, outside⟩
  · obtain ⟨before, outside, elsewhere⟩ := shared.held id token holds
    rw [List.mem_cons, not_or] at elsewhere
    rw [scheduled, not_or]
    exact ⟨⟨before, elsewhere.1⟩, outside, elsewhere.2⟩
  · rw [scheduled, shared.known token, List.mem_cons]
    tauto

theorem Shared.closeEach (removed : List Session) (shared : Shared (removed.map Session.token ++ out) s) :
    Shared out (removed.foldl PlaybackSessions.scheduleClose s) := by
  induction removed generalizing s with
  | nil => exact shared
  | cons session rest ih => exact ih shared.scheduleClose

theorem Shared.takeOut (shared : Shared [] s) {kept : Hash String Session} {removed : List String}
    (apart : removed.Nodup) (parts : ∀ token, token ∈ s.sessions ↔ token ∈ kept ∨ token ∈ removed)
    (disjoint : ∀ token ∈ removed, token ∉ kept)
    (still : ∀ token session, kept.lookup token = some session → s.sessions.lookup token = some session) :
    Shared removed { s with sessions := kept } where
  cancelled := shared.cancelled
  once := shared.once
  keyed token session found := shared.keyed token session (still token session found)
  table token member := shared.table token ((parts token).mpr (.inl member))
  apart := apart
  taken token member := ⟨shared.table token ((parts token).mpr (.inr member)), disjoint token member⟩
  held id token holds := by
    obtain ⟨fresh, outside, _⟩ := shared.held id token holds
    exact ⟨fresh, fun member => outside ((parts token).mpr (.inl member)),
      fun member => outside ((parts token).mpr (.inr member))⟩
  alone := shared.alone
  known token := by
    have known := shared.known token
    rw [parts token] at known
    refine known.trans ⟨?_, ?_⟩
    · rintro ((member | member) | member | member | holds)
      · exact .inl member
      · exact .inr (.inr (.inl member))
      · exact .inr (.inl member)
      · cases member
      · exact .inr (.inr (.inr holds))
    · rintro (member | member | member | holds)
      · exact .inl (.inl member)
      · exact .inr (.inl member)
      · exact .inl (.inr member)
      · exact .inr (.inr (.inr holds))
  permits token here := shared.permits token (here.imp_left fun member => (parts token).mpr (.inl member))
  bound := shared.bound

theorem mem_filter_sessions (keep : Session → Bool) (token : String) :
    token ∈ s.sessions.filter (fun _ session => keep session) ↔
      ∃ session, s.sessions.lookup token = some session ∧ keep session = true := by
  rw [← AList.lookup_isSome, Hash.lookup_filter, Option.isSome_iff_exists]
  exact exists_congr fun session => Option.filter_eq_some_iff

theorem Shared.close (shared : Shared [] s) (token : String) : Shared [] (s.close token) := by
  unfold PlaybackSessions.close
  split
  · rename_i session found
    have named := shared.keyed token session found
    refine Shared.scheduleClose ?_
    rw [named]
    refine shared.takeOut (List.nodup_singleton _) (fun other => ?_) (fun other member => ?_) fun other held there => ?_
    · rw [List.mem_singleton, AList.mem_erase]
      by_cases same : other = token
      · subst same
        exact iff_of_true (AList.lookup_isSome.mp (by rw [found]; rfl)) (.inr rfl)
      · simp [same]
    · rw [List.mem_singleton.mp member, AList.mem_erase]
      simp
    · obtain ⟨-, there⟩ := Hash.lookup_erase_some there
      exact there
  · exact shared

theorem Shared.closeAll (shared : Shared [] s) (gone : Session → Bool) : Shared [] (s.closeAll gone) := by
  let removed := s.sessions.filter fun _ session => gone session
  have names : removed.values.map Session.token = removed.keys := by
    unfold Hash.values
    rw [List.map_map]
    refine List.map_congr_left fun entry member => ?_
    exact shared.keyed entry.1 entry.2 ((Hash.lookup_eq_some_iff ..).mpr (List.mem_of_mem_filter member))
  have inside : ∀ token, token ∈ removed.keys ↔ ∃ session, s.sessions.lookup token = some session ∧ gone session = true :=
    fun token => AList.mem_keys.symm.trans (mem_filter_sessions gone token)
  refine Shared.closeEach removed.values ?_
  rw [names, List.append_nil]
  refine shared.takeOut removed.keys_nodup (fun token => ?_) (fun token member => ?_) fun token session found => ?_
  · rw [inside, mem_filter_sessions fun session => !gone session, ← exists_or, ← AList.lookup_isSome,
      Option.isSome_iff_exists]
    refine exists_congr fun session => ?_
    cases gone session <;> simp
  · rw [inside] at member
    rw [mem_filter_sessions fun session => !gone session]
    rintro ⟨session, found, stays⟩
    obtain ⟨other, there, goes⟩ := member
    cases found.symm.trans there
    rw [goes] at stays
    cases stays
  · rw [Hash.lookup_filter] at found
    exact (Option.filter_eq_some_iff.mp found).1

theorem Shared.reject (shared : Shared [] s) (holds : holding s id = some session.token) :
    Shared [] ((s.scheduleClose session).done id) := by
  have given : Shared [session.token] (s.done id) := {
    cancelled := shared.cancelled
    once := shared.once
    keyed := shared.keyed
    table := shared.table
    apart := List.nodup_singleton _
    taken := fun token member => by
      rw [List.mem_singleton.mp member]
      exact ⟨(shared.held id _ holds).1, (shared.held id _ holds).2.1⟩
    held := fun other token there => by
      rw [holding_done] at there
      split at there
      · cases there
      · rename_i apart
        obtain ⟨fresh, outside, _⟩ := shared.held other token there
        refine ⟨fresh, outside, fun member => apart ?_⟩
        rw [List.mem_singleton.mp member] at there
        exact shared.alone other id _ there holds
    alone := fun first second token one two => by
      rw [holding_done] at one two
      split at one
      · cases one
      · split at two
        · cases two
        · exact shared.alone first second token one two
    known := fun token => by
      refine (shared.known token).trans (or_congr_right (or_congr_right ?_))
      constructor
      · rintro (none | ⟨other, there⟩)
        · cases none
        · by_cases same : other = id
          · subst same
            cases holds.symm.trans there
            exact .inl (List.mem_singleton_self _)
          · exact .inr ⟨other, by rwa [holding_done, if_neg same]⟩
      · rintro (member | ⟨other, there⟩)
        · rw [List.mem_singleton.mp member]
          exact .inr ⟨id, holds⟩
        · rw [holding_done] at there
          split at there
          · cases there
          · exact .inr ⟨other, there⟩
    permits := fun token there => shared.permits token (there.imp_right fun ⟨other, holds⟩ => by
      rw [holding_done] at holds
      split at holds
      · cases holds
      · exact ⟨other, holds⟩)
    bound := shared.bound }
  have commutes : (s.scheduleClose session).done id = (s.done id).scheduleClose session := by
    unfold PlaybackSessions.scheduleClose
    split <;> split <;> first | rfl | contradiction
  rw [commutes]
  exact given.scheduleClose

theorem Shared.register (shared : Shared [] s) (holds : holding s id = some session.token) :
    Shared [] { s.done id with sessions := s.sessions.insert session.token session } where
  cancelled := shared.cancelled
  once := shared.once
  keyed token found there := by
    obtain ⟨same, rfl⟩ | ⟨-, there⟩ := Hash.lookup_insert_some there
    · exact same
    · exact shared.keyed token found there
  table token member := by
    obtain rfl | before := (AList.mem_insert _).mp member
    · exact (shared.held id _ holds).1
    · exact shared.table token before
  apart := List.nodup_nil
  taken _ member := nomatch member
  held other token there := by
    change holding (s.done id) other = some token at there
    rw [holding_done] at there
    split at there
    · cases there
    · rename_i apart
      obtain ⟨fresh, outside, _⟩ := shared.held other token there
      refine ⟨fresh, fun member => ?_, nofun⟩
      obtain rfl | before := (AList.mem_insert _).mp member
      · exact apart (shared.alone other id _ there holds)
      · exact outside before
  alone first second token one two := by
    change holding (s.done id) first = some token at one
    change holding (s.done id) second = some token at two
    rw [holding_done] at one two
    split at one
    · cases one
    · split at two
      · cases two
      · exact shared.alone first second token one two
  known token := by
    refine (shared.known token).trans ?_
    constructor
    · rintro (member | member | none | ⟨other, there⟩)
      · exact .inl ((AList.mem_insert _).mpr (.inr member))
      · exact .inr (.inl member)
      · cases none
      · by_cases same : other = id
        · subst same
          cases holds.symm.trans there
          exact .inl ((AList.mem_insert _).mpr (.inl rfl))
        · exact .inr (.inr (.inr ⟨other, (holding_done s id other).trans (by rwa [if_neg same])⟩))
    · rintro (member | member | none | ⟨other, there⟩)
      · obtain rfl | before := (AList.mem_insert _).mp member
        · exact .inr (.inr (.inr ⟨id, holds⟩))
        · exact .inl before
      · exact .inr (.inl member)
      · cases none
      · change holding (s.done id) other = some token at there
        rw [holding_done] at there
        split at there
        · cases there
        · exact .inr (.inr (.inr ⟨other, there⟩))
  permits token := by
    rintro (member | ⟨other, there⟩)
    · obtain rfl | before := (AList.mem_insert _).mp member
      · exact shared.permits _ (.inr ⟨id, holds⟩)
      · exact shared.permits token (.inl before)
    · change holding (s.done id) other = some token at there
      rw [holding_done] at there
      split at there
      · cases there
      · exact shared.permits token (.inr ⟨other, there⟩)
  bound := shared.bound

theorem Shared.opened (shared : Shared [] s) {provider epoch : Nat} (waits : s.tasks.lookup id = some (.opening provider epoch))
    (permit : .task id ∈ s.permits) (fresh : token ∉ s.returned) : Shared [] (s.opened id provider epoch token) := by
  have free : holding s id = none := holding_of_lookup waits
  have new : ¬ (token ∈ s.sessions ∨ token ∈ s.scheduled ∨ token ∈ ([] : List String) ∨ Registering s token) :=
    fun known => fresh ((shared.known token).mpr known)
  simp only [not_or] at new
  have holds : ∀ other, holding (s.opened id provider epoch token) other =
      if other = id then some token else holding s other := holding_put s id _
  have before : ∀ other held, holding (s.opened id provider epoch token) other = some held →
      (other = id ∧ held = token) ∨ (other ≠ id ∧ holding s other = some held) := by
    intro other held there
    rw [holds] at there
    split at there
    · cases there
      exact .inl ⟨‹_›, rfl⟩
    · exact .inr ⟨‹_›, there⟩
  exact {
    cancelled := shared.cancelled
    once := shared.once
    keyed := shared.keyed
    table := shared.table
    apart := List.nodup_nil
    taken := nofun
    held := fun other held there => by
      obtain ⟨rfl, rfl⟩ | ⟨_, there⟩ := before other held there
      · exact ⟨new.2.1, new.1, nofun⟩
      · exact shared.held other held there
    alone := fun first second held one two => by
      obtain ⟨rfl, rfl⟩ | ⟨_, earlier⟩ := before first held one
      · obtain ⟨rfl, -⟩ | ⟨_, also⟩ := before second held two
        · rfl
        · exact absurd ⟨second, also⟩ new.2.2.2
      · obtain ⟨rfl, rfl⟩ | ⟨_, also⟩ := before second held two
        · exact absurd ⟨first, earlier⟩ new.2.2.2
        · exact shared.alone first second held earlier also
    known := fun other => by
      refine List.mem_cons.trans ((or_congr_right (shared.known other)).trans ?_)
      constructor
      · rintro (rfl | member | member | none | ⟨task, there⟩)
        · exact .inr (.inr (.inr ⟨id, (holds id).trans (if_pos rfl)⟩))
        · exact .inl member
        · exact .inr (.inl member)
        · cases none
        · refine .inr (.inr (.inr ⟨task, (holds task).trans ?_⟩))
          rw [if_neg fun same => by rw [same, free] at there; cases there]
          exact there
      · rintro (member | member | none | ⟨task, there⟩)
        · exact .inr (.inl member)
        · exact .inr (.inr (.inl member))
        · cases none
        · obtain ⟨_, rfl⟩ | ⟨_, there⟩ := before task other there
          · exact .inl rfl
          · exact .inr (.inr (.inr (.inr ⟨task, there⟩)))
    permits := fun other there => by
      have kept : other = token ∨ .session other ∈ s.permits := by
        obtain member | ⟨task, there⟩ := there
        · exact .inr (shared.permits other (.inl member))
        · obtain ⟨_, rfl⟩ | ⟨_, there⟩ := before task other there
          · exact .inl rfl
          · exact .inr (shared.permits other (.inr ⟨task, there⟩))
      obtain rfl | kept := kept
      · exact List.mem_map.mpr ⟨.task id, permit, if_pos rfl⟩
      · exact List.mem_map.mpr ⟨.session other, kept, if_neg nofun⟩
    bound := by
      have bound := shared.bound
      rwa [← List.length_map (fun holder => if holder = .task id then .session token else holder)] at bound }

/-- A request that waits for its provider has a permit. -/
def Permitted (s : PlaybackSessions) : Prop :=
  ∀ id provider epoch, s.tasks.lookup id = some (.opening provider epoch) → .task id ∈ s.permits

theorem Permitted.put (permitted : Permitted s) (other : ∀ provider epoch, task ≠ .opening provider epoch) :
    Permitted (s.put id task) := by
  intro some' provider epoch there
  rw [PlaybackSessions.put, Hash.lookup_insert] at there
  split at there
  · cases there
    exact absurd rfl (other provider epoch)
  · exact permitted _ provider epoch there

theorem Permitted.done (permitted : Permitted s) : Permitted (s.done id) := by
  intro other provider epoch there
  rw [PlaybackSessions.done, Hash.lookup_erase] at there
  split at there
  · cases there
  · exact permitted other provider epoch there

theorem Permitted.opened (permitted : Permitted s) {provider epoch : Nat} :
    Permitted (s.opened id provider epoch token) := by
  intro other found epoch' there
  change (s.tasks.insert id _).lookup other = _ at there
  rw [Hash.lookup_insert] at there
  split at there
  · cases there
  · rename_i apart
    exact List.mem_map.mpr ⟨.task other, permitted other found epoch' there, if_neg fun same => apart (Holder.task.inj same)⟩

/-- The provider has opened no source. -/
theorem Permitted.givenUp (permitted : Permitted s) :
    Permitted { s.done id with permits := s.permits.filter fun holder => holder ≠ .task id } := by
  intro other found epoch there
  obtain ⟨apart, there⟩ := Hash.lookup_erase_some there
  exact List.mem_filter.mpr ⟨permitted other found epoch there, by simp [apart]⟩

theorem Permitted.same (permitted : Permitted s) (tasks : t.tasks = s.tasks) (permits : t.permits = s.permits) :
    Permitted t := by
  intro id provider epoch there
  rw [tasks] at there
  rw [permits]
  exact permitted id provider epoch there

theorem scheduleClose_tasks (s : PlaybackSessions) (session : Session) :
    (s.scheduleClose session).tasks = s.tasks ∧ (s.scheduleClose session).permits = s.permits := by
  unfold PlaybackSessions.scheduleClose
  split <;> exact ⟨rfl, rfl⟩

theorem Permitted.scheduleClose (permitted : Permitted s) (session : Session) : Permitted (s.scheduleClose session) :=
  permitted.same (scheduleClose_tasks s session).1 (scheduleClose_tasks s session).2

theorem Permitted.close (permitted : Permitted s) (token : String) : Permitted (s.close token) := by
  unfold PlaybackSessions.close
  split
  · have kept : Permitted { s with sessions := s.sessions.erase token } := permitted.same rfl rfl
    exact kept.scheduleClose _
  · exact permitted

theorem Permitted.closeEach (permitted : Permitted s) (removed : List Session) :
    Permitted (removed.foldl PlaybackSessions.scheduleClose s) := by
  induction removed generalizing s with
  | nil => exact permitted
  | cons session rest ih => exact ih (permitted.scheduleClose session)

theorem Permitted.closeAll (permitted : Permitted s) (gone : Session → Bool) : Permitted (s.closeAll gone) := by
  have kept : Permitted { s with sessions := s.sessions.filter fun _ session => !gone session } := permitted.same rfl rfl
  exact kept.closeEach _

theorem close_tasks (s : PlaybackSessions) (token : String) :
    (s.close token).tasks = s.tasks := by
  unfold PlaybackSessions.close
  split
  · exact (scheduleClose_tasks _ _).1
  · rfl

theorem closeEach_tasks (removed : List Session) (s : PlaybackSessions) :
    (removed.foldl PlaybackSessions.scheduleClose s).tasks = s.tasks := by
  induction removed generalizing s with
  | nil => rfl
  | cons session rest ih => exact (ih _).trans (scheduleClose_tasks s session).1

/-! ## Runs -/

/-- What every reached state keeps. -/
structure Sound (s : PlaybackSessions) : Prop where
  shared : Shared [] s
  permitted : Permitted s

theorem Sound.requested (sound : Sound s) (absent : id ∉ s.tasks) {provider : Nat} : Sound (s.requested id provider) := by
  obtain ⟨shared, permitted⟩ := sound
  unfold PlaybackSessions.requested
  split
  · exact ⟨shared, permitted⟩
  · rename_i given
    rw [not_or, Nat.not_le] at given
    refine ⟨shared.still rfl rfl rfl rfl (holding_put_of_held (holding_of_absent absent)) given.2 fun token there =>
      .tail _ (shared.permits token there), fun other found epoch there => ?_⟩
    obtain ⟨rfl, there⟩ | ⟨-, there⟩ := Hash.lookup_insert_some there
    · exact .head _
    · exact .tail _ (permitted other found epoch there)

theorem Sound.dropped (sound : Sound s) (unreferenced : Unreferenced s token) :
    Sound { s with permits := s.permits.filter fun holder => holder ≠ .session token } := by
  obtain ⟨shared, permitted⟩ := sound
  obtain ⟨outside, alone, _⟩ := unreferenced
  refine ⟨shared.still rfl rfl rfl rfl (fun _ => rfl) (Nat.le_trans (List.length_filter_le ..) shared.bound)
    fun other there => List.mem_filter.mpr ⟨shared.permits other there, ?_⟩, fun id provider epoch there =>
    List.mem_filter.mpr ⟨permitted id provider epoch there, by simp⟩⟩
  rw [decide_eq_true_eq]
  rintro same
  cases same
  obtain member | ⟨id, holds⟩ := there
  · exact outside member
  · obtain ⟨task, found, held⟩ := Option.bind_eq_some_iff.mp holds
    refine alone ⟨id, task⟩ ((Hash.lookup_eq_some_iff ..).mp found) ?_
    cases task <;> cases held <;> exact List.mem_singleton_self _

theorem Sound.step (sound : Sound s) (event : Event) (stepped : Step s event t) : Sound t := by
  obtain ⟨shared, permitted⟩ := sound
  cases event
  all_goals
    unfold Step perform at stepped
    dsimp only at stepped
  case elapse time | setEpoch provider epoch | setId provider id =>
    cases stepped
    exact ⟨shared.calm rfl rfl rfl rfl rfl fun _ => rfl, permitted.same rfl rfl⟩
  case requested id provider =>
    obtain ⟨absent, same⟩ := Option.ite_none_left_eq_some.mp stepped
    cases same
    exact Sound.requested ⟨shared, permitted⟩ absent
  case answered id source =>
    split at stepped
    · rename_i provider epoch token waits
      obtain ⟨fresh, same⟩ := Option.ite_none_left_eq_some.mp stepped
      cases same
      exact ⟨shared.opened waits (permitted id provider epoch waits) fresh, permitted.opened⟩
    · rename_i provider epoch waits
      cases stepped
      have free : holding s id = none := holding_of_lookup waits
      refine ⟨shared.still rfl rfl rfl rfl (holding_done_of_none free)
        (Nat.le_trans (List.length_filter_le ..) shared.bound) fun token there => ?_, permitted.givenUp⟩
      exact List.mem_filter.mpr ⟨shared.permits token there, by simp⟩
    · cases stepped
  case prepared id found =>
    split at stepped
    · rename_i session waits
      split at stepped
      · cases stepped
        exact ⟨shared.put ((holding_of_lookup waits).trans rfl), permitted.put nofun⟩
      · cases stepped
        exact ⟨shared.put ((holding_of_lookup waits).trans rfl), permitted.put nofun⟩
    · cases stepped
  case registered id =>
    split at stepped <;> cases stepped
    rename_i session waits
    unfold PlaybackSessions.register
    split
    · exact ⟨shared.put ((holding_of_lookup waits).trans rfl), permitted.put nofun⟩
    · exact ⟨shared.register (holding_of_lookup waits), permitted.done.same rfl rfl⟩
  case rejected id =>
    split at stepped <;> cases stepped
    rename_i session waits
    exact ⟨shared.reject (holding_of_lookup waits), (permitted.scheduleClose session).done⟩
  case get token =>
    cases stepped
    unfold PlaybackSessions.get
    split
    · split
      · exact ⟨shared.calm rfl rfl rfl rfl rfl fun _ => rfl, permitted.same rfl rfl⟩
      · exact ⟨shared, permitted⟩
    · exact ⟨shared, permitted⟩
  case close token =>
    cases stepped
    exact ⟨shared.close token, permitted.close token⟩
  case collect id =>
    obtain ⟨absent, same⟩ := Option.ite_none_left_eq_some.mp stepped
    cases same
    exact ⟨shared.put (holding_of_absent absent), permitted.put nofun⟩
  case collectNext id =>
    split at stepped
    · rename_i session todo waits
      cases stepped
      unfold PlaybackSessions.collect
      split
      · exact ⟨shared.put ((holding_of_lookup waits).trans rfl), permitted.put nofun⟩
      · exact ⟨shared.put ((holding_of_lookup waits).trans rfl), permitted.put nofun⟩
    · rename_i waits
      cases stepped
      exact ⟨shared.done (holding_of_lookup waits), permitted.done⟩
    · cases stepped
  case collectRemove id =>
    split at stepped <;> cases stepped
    rename_i token todo waits
    have free : holding (s.close token) id = none := by
      rw [holding, close_tasks s token]
      exact holding_of_lookup waits
    exact ⟨(shared.close token).put free, (permitted.close token).put nofun⟩
  case invalidate id provider =>
    obtain ⟨absent, same⟩ := Option.ite_none_left_eq_some.mp stepped
    cases same
    have free : holding (s.closeAll fun session => s.ids session.provider = some provider) id = none := by
      rw [holding, PlaybackSessions.closeAll, closeEach_tasks]
      exact holding_of_absent absent
    exact ⟨(shared.closeAll _).put free, (permitted.closeAll _).put nofun⟩
  case shutdown id =>
    obtain ⟨absent, same⟩ := Option.ite_none_left_eq_some.mp stepped
    cases same
    have put : Sound (s.put id .stopping) := ⟨shared.put (holding_of_absent absent), permitted.put nofun⟩
    exact ⟨put.shared.calm rfl rfl rfl rfl rfl fun _ => rfl, put.permitted.same rfl rfl⟩
  case drain id =>
    split at stepped <;> cases stepped
    rename_i waits
    have free : holding (s.closeAll fun _ => true) id = none := by
      rw [holding, PlaybackSessions.closeAll, closeEach_tasks]
      exact holding_of_lookup waits
    exact ⟨(shared.closeAll _).put free, (permitted.closeAll _).put nofun⟩
  case finishClosing id =>
    split at stepped <;> cases stepped
    rename_i provider waits
    have calm : Shared [] (finishClosing s provider) := shared.calm rfl rfl rfl rfl rfl fun _ => rfl
    exact ⟨calm.done (holding_of_lookup waits), Permitted.done (permitted.same rfl rfl)⟩
  case cleaned token =>
    obtain ⟨_, same⟩ := Option.ite_none_right_eq_some.mp stepped
    cases same
    exact ⟨shared.calm rfl rfl rfl rfl rfl fun _ => rfl, permitted.same rfl rfl⟩
  case dropped token =>
    obtain ⟨unreferenced, same⟩ := Option.ite_none_right_eq_some.mp stepped
    cases same
    exact Sound.dropped ⟨shared, permitted⟩ unreferenced

/-- In every state of every run the sources that were opened are in the table or were closed once, those in the
table were not closed, and there are no more of them than permits.  A source whose registration has not ended is
neither in the table nor closed. -/
theorem sessions_are_closed_once {ids : Nat → Option Int} {epochs : Nat → Nat}
    (reached : Runs.Reach (fun s => s = { ids := ids, epochs := epochs }) (fun _ _ => True) Step s) :
    (∀ token ∈ s.returned, ¬ Registering s token → Once s token) ∧
      (∀ token, Registering s token → token ∉ s.sessions ∧ token ∉ s.scheduled) ∧
      (∀ token ∈ s.sessions, token ∉ s.scheduled) ∧ s.sessions.size ≤ maxSessions := by
  have sound : Sound s := reached.invariant (fun _ started => started ▸ ⟨Shared.start ids epochs, nofun⟩)
    fun _ event _ sound _ stepped => sound.step event stepped
  have shared := sound.shared
  refine ⟨fun token opened settled => ?_, fun token ⟨id, holds⟩ => ?_, shared.table, ?_⟩
  · obtain member | member | none | holds := (shared.known token).mp opened
    · exact .inl ⟨member, shared.table token member⟩
    · exact .inr ⟨fun inside => shared.table token inside member, List.count_eq_one_of_mem shared.once member⟩
    · cases none
    · exact absurd holds settled
  · obtain ⟨fresh, outside, _⟩ := shared.held id token holds
    exact ⟨outside, fresh⟩
  · have inside : ∀ token ∈ s.sessions.keys, token ∈ s.permits.filterMap Holder.token? := fun token member =>
      List.mem_filterMap.mpr ⟨.session token, shared.permits token (.inl (AList.mem_keys.mpr member)), rfl⟩
    have short := Hash.size_le_of_keys s.sessions _ inside
    exact Nat.le_trans short (Nat.le_trans (List.length_filterMap_le ..) shared.bound)

/-- A session that is idle is collected, and one whose registration ends after the shutdown is closed at once. -/
theorem sessions_are_closed_once_of_two :
    ∃ s : PlaybackSessions, s.returned = ["late", "idle"] ∧ Once s "idle" ∧ Once s "late" ∧
      s.sessions.size ≤ maxSessions := by
  let played := Runs.play (fun _ _ => True) perform { ids := fun _ => some 1, epochs := fun _ => 0 }
    [.requested 1 0, .answered 1 (some "idle"), .prepared 1 true, .registered 1, .requested 2 0,
      .answered 2 (some "late"), .prepared 2 true, .elapse (idle + 1), .collect 3, .collectNext 3, .collectRemove 3,
      .shutdown 4, .registered 2, .drain 4, .rejected 2]
  have shown : (played.any fun s => s.returned == ["late", "idle"] &&
      (s.tasks.keys.map (holding s)).all fun held => held.isNone) = true := by decide +kernel
  obtain ⟨s, ran, checked⟩ := (Option.any_eq_true ..).mp shown
  obtain ⟨returned, free⟩ := Bool.and_eq_true_iff.mp checked
  have opened := eq_of_beq returned
  have settled : ∀ token, ¬ Registering s token := by
    rintro token ⟨id, holds⟩
    obtain ⟨task, found, _⟩ := Option.bind_eq_some_iff.mp holds
    have listed : id ∈ s.tasks.keys := AList.mem_keys.mp (AList.lookup_isSome.mp (by rw [found]; rfl))
    have none := List.all_eq_true.mp free _ (List.mem_map_of_mem listed)
    rw [holds] at none
    cases none
  obtain ⟨once, -, -, size⟩ := sessions_are_closed_once (Runs.Reach.play _ (.start rfl) ran)
  exact ⟨s, opened, once _ (by simp [opened]) (settled _), once _ (by simp [opened]) (settled _), size⟩

end Qcm.Playback
