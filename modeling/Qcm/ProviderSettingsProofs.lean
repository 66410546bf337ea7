import Qcm.ProviderSettings

/-!
At most one request commits on a base revision, as the row is written under the
guard and only over the revision that the request names.  The registered provider
and the row agree whenever no request is between its commit and its registration:
what a request stores and registers is what it has written, and nobody else
touches that provider, except a request that gives its unsaved settings to it
without the guard.
-/

namespace Qcm.ProviderSettings

open Lib
open Runs
open ProviderStamps (Object)

variable {V : Type} {validate : Object → V → Option V} {w v : World V} {event : Event V} {id : Nat} {stage : Stage V}
  {task : Task V} {snapshot : SettingsSnapshot V}

/-! ## Commits -/

variable {now : Stage V} {old chosen : Object} {req : UpdateProviderReq V} {given : Object × SettingsSnapshot V}

theorem requests_put_self (w : World V) (id : Nat) (stage : Stage V) : (w.put id stage).requests id = stage := by
  unfold World.requests World.put
  rw [AList.lookup_insert]
  rfl

theorem requests_put_other (w : World V) (id : Nat) (stage : Stage V) {other : Nat} (apart : other ≠ id) :
    (w.put id stage).requests other = w.requests other := by
  unfold World.requests World.put
  rw [AList.lookup_insert_ne apart]

theorem Initial.requests (initial : Initial w) (id : Nat) : w.requests id = .absent := by
  rw [World.requests, initial.absent]
  rfl

theorem Idle.requests (idle : Idle w) (id : Nat) : w.requests id = .absent ∨ w.requests id = .done := by
  unfold World.requests
  cases found : w.table.lookup id with
  | none => exact .inl rfl
  | some stage => exact .inr (idle ⟨id, stage⟩ (AList.mem_lookup_iff.mp found))

/-- What holds of the stage that a request is put in, and of the stages of the others. -/
theorem forall_put {P : Nat → Stage V → Prop} (own : P id stage)
    (others : ∀ other, other ≠ id → P other (w.requests other)) (other : Nat) : P other ((w.put id stage).requests other) := by
  by_cases same : other = id
  · rw [same, requests_put_self]
    exact own
  · rw [requests_put_other w id stage same]
    exact others other same

/-- What is so of a request that is at a stage. -/
structure Guarded (holder : Option Nat) (revision id : Nat) (stage : Stage V) : Prop where
  holder : stage.holds = true → holder = some id
  saved : ∀ task snapshot, stage = .saved task snapshot →
    snapshot.revision = revision + 1 ∧ task.req.settingsRevision = revision

structure Locked (w : World V) : Prop where
  requests : ∀ id, Guarded w.holder w.revision id (w.requests id)
  counted : Counted w

theorem Guarded.free {holder : Option Nat} {revision : Nat} (free : stage.holds = false) :
    Guarded holder revision id stage where
  holder holds := nomatch free.symm.trans holds
  saved _ _ same := by
    rw [same] at free
    cases free

section

variable (locked : Locked w)
include locked

/-- Two requests do not have the guard at once. -/
theorem Locked.others (here : w.requests id = now) (holds : now.holds = true) {other : Nat} (apart : other ≠ id) :
    (w.requests other).holds = false := by
  rw [Bool.eq_false_iff]
  intro also
  rw [← here] at holds
  exact apart (Option.some.inj (((locked.requests other).holder also).symm.trans ((locked.requests id).holder holds)))

theorem Locked.holding (here : w.requests id = now) (holds : now.holds = true) : w.holder = some id :=
  (locked.requests id).holder (here ▸ holds)

theorem Locked.put (guarded : Guarded w.holder w.revision id stage) : Locked (w.put id stage) :=
  ⟨forall_put (P := Guarded w.holder w.revision) guarded fun other _ => locked.requests other, locked.counted⟩

theorem Locked.putFree (free : stage.holds = false) : Locked (w.put id stage) := locked.put (.free free)

theorem Locked.putHeld (here : w.requests id = now) (holds : now.holds = true)
    (unsaved : ∀ task snapshot, stage ≠ .saved task snapshot) : Locked (w.put id stage) :=
  locked.put ⟨fun _ => locked.holding here holds, fun task snapshot same => absurd same (unsaved task snapshot)⟩

theorem Locked.leave (here : w.requests id = now) (holds : now.holds = true) : Locked (w.leave id) :=
  ⟨forall_put (P := Guarded none w.revision) (.free rfl) fun _ apart => .free (locked.others here holds apart),
    locked.counted⟩

theorem Locked.commit (here : w.requests id = .saved task snapshot) : Locked (w.commit id task snapshot) := by
  obtain ⟨next, base⟩ := (locked.requests id).saved task snapshot here
  refine ⟨forall_put (P := Guarded w.holder snapshot.revision) ⟨fun _ => locked.holding here rfl, nofun⟩
    fun _ apart => .free (locked.others here rfl apart), ?_⟩
  obtain ⟨first, commits, revision⟩ := locked.counted
  have longer : (w.commit id task snapshot).commits.length = w.commits.length + 1 := by simp [World.commit]
  refine ⟨first, ?_, ?_⟩
  · rw [longer, List.range'_concat, ← commits]
    show w.commits ++ [task.req.settingsRevision] = _
    rw [base, revision, Nat.one_mul]
  · rw [longer, ← Nat.add_assoc, ← revision]
    exact next

theorem Locked.take (free : w.holder = none) (id : Nat) : Locked { w with holder := some id } := by
  refine ⟨fun other => .free (Bool.eq_false_iff.mpr fun holds => ?_), locked.counted⟩
  exact nomatch free.symm.trans ((locked.requests other).holder holds)

end

theorem save_next {revision : Nat} {values : V} (saved : w.save revision values = some snapshot) :
    snapshot.revision = w.revision + 1 ∧ revision = w.revision := by
  unfold World.save at saved
  split at saved <;> cases saved
  rename_i free
  rw [free.2]
  exact ⟨rfl, rfl⟩

theorem Locked.pick (locked : Locked w) (req : UpdateProviderReq V) (old : Object) (created : Option V) :
    Locked (w.pick id req old created) := by
  unfold World.pick
  split
  · exact locked.putFree rfl
  · split
    · split
      · split <;> exact locked.putFree rfl
      · exact locked.putFree rfl
    · split
      · split
        · exact Locked.putFree { locked with } rfl
        · exact locked.putFree rfl
      · exact locked.putFree rfl

theorem Locked.give (locked : Locked w) (req : UpdateProviderReq V) (old candidate : Object) :
    Locked (w.give validate id req old candidate) := by
  unfold World.give
  split
  · exact locked.putFree rfl
  · dsimp only
    split
    · exact Locked.putFree { locked with } rfl
    · exact locked.putFree rfl

theorem Locked.step (locked : Locked w) (stepped : Step validate w event v) : Locked v := by
  cases event <;> simp only [Step, perform] at stepped
  case createTmp key type values | deleteTmp key =>
    cases stepped
    exact { locked with }
  case call id req =>
    split at stepped <;> cases stepped
    exact locked.putFree rfl
  case find id =>
    split at stepped
    · split at stepped <;> cases stepped <;> exact locked.putFree rfl
    · cases stepped
  case pick id created =>
    split at stepped <;> cases stepped
    exact locked.pick ..
  case give id =>
    split at stepped <;> cases stepped
    exact locked.give ..
  case auth id ok =>
    split at stepped <;> cases stepped
    split <;> exact locked.putFree rfl
  case guard id ok =>
    split at stepped
    · split at stepped
      · cases stepped
        exact locked.putFree rfl
      · split at stepped <;> cases stepped
        exact (locked.take ‹_› id).put ⟨fun _ => rfl, nofun⟩
    · cases stepped
  case check id =>
    split at stepped <;> cases stepped
    split
    · exact locked.putHeld ‹_› rfl nofun
    · exact locked.leave ‹_› rfl
  case save id =>
    split at stepped
    · rename_i here
      split at stepped <;> cases stepped
      · rename_i saved
        refine locked.put ⟨fun _ => locked.holding here rfl, ?_⟩
        rintro _ _ ⟨⟩
        exact save_next saved
      · exact locked.leave here rfl
    · cases stepped
  case commit id ok =>
    split at stepped <;> cases stepped
    split
    · exact locked.commit ‹_›
    · exact locked.leave ‹_› rfl
  case store id =>
    split at stepped <;> cases stepped
    rename_i here
    exact Locked.putHeld { locked with } here rfl nofun
  case scope id ok =>
    split at stepped
    · rename_i here
      split at stepped <;> cases stepped
      split
      · exact locked.putHeld here rfl nofun
      · exact locked.leave here rfl
    · cases stepped
  case register id =>
    split at stepped <;> cases stepped
    rename_i here
    have left : Locked (w.put id .leaving) := locked.putHeld here rfl nofun
    exact { left with }
  case release id =>
    split at stepped
    · cases stepped
      exact locked.leave ‹_› rfl
    · rename_i here
      split at stepped <;> cases stepped
      exact locked.leave here rfl
    · cases stepped

theorem Locked.initial (initial : Initial w) : Locked w where
  requests id := by
    rw [initial.requests]
    exact .free rfl
  counted := ⟨w.revision, by simp [initial.fresh], by simp [initial.fresh]⟩

/-! ## The registered provider -/

/-- The provider that a request has read, or has settings for. -/
def Stage.candidate : Stage V → Option Object
  | .found _ old => some old
  | .picked _ _ candidate => some candidate
  | .asking task | .waiting task | .guarded task | .checked task | .saved task _ | .committed task _ | .stored task _
  | .invalidated task _ => some task.candidate
  | .absent | .called _ | .leaving | .done => none

/-- The provider that was registered when the request had the guard. -/
def Stage.confirmed : Stage V → Option Object
  | .checked task | .saved task _ | .committed task _ | .stored task _ | .invalidated task _ => some task.old
  | _ => none

/-- What is written by a request that has not registered its candidate yet. -/
def Stage.written : Stage V → Option (SettingsSnapshot V)
  | .committed _ snapshot | .stored _ snapshot | .invalidated _ snapshot => some snapshot
  | _ => none

/-- The candidate that the request has given the settings of the row. -/
def Stage.handed : Stage V → Option (Object × SettingsSnapshot V)
  | .stored task snapshot | .invalidated task snapshot => some (task.candidate, snapshot)
  | _ => none

/-- What a stage tells of the world. -/
structure Tells (w : World V) (stage : Stage V) : Prop where
  candidate : ∀ candidate, stage.candidate = some candidate → candidate < w.made
  confirmed : ∀ old, stage.confirmed = some old → w.registered = some old
  written : ∀ snapshot, stage.written = some snapshot → w.row = some snapshot
  handed : ∀ given, stage.handed = some given → w.settings given.1 = given.2

structure Agrees (w : World V) : Prop where
  locked : Locked w
  registered : ∀ object, w.registered = some object → object < w.made
  tmpProviders : ∀ key object, w.tmpProviders.lookup key = some object → object < w.made
  tells : ∀ id, Tells w (w.requests id)
  holds : (∀ id, (w.requests id).written = none) → Holds w

theorem Stage.holds_of_handed (handed : stage.handed = some given) : stage.holds = true := by
  cases stage <;> first | rfl | cases handed

theorem Stage.candidate_of_handed (handed : stage.handed = some given) :
    stage.candidate = some given.1 := by
  cases stage <;> cases handed <;> rfl

theorem Stage.publishes_of_handed (handed : stage.handed = some given) :
    stage.publishes chosen = (given.1 == chosen) := by
  cases stage <;> cases handed <;> rfl

/-- A request without the guard speaks of its candidate only. -/
theorem Tells.free (free : stage.holds = false)
    (known : ∀ candidate, stage.candidate = some candidate → candidate < w.made) : Tells w stage := by
  refine ⟨known, fun _ there => ?_, fun _ there => ?_, fun _ there => ?_⟩
  all_goals cases stage <;> first | cases there; done | cases free

theorem Tells.settled (tells : Tells w stage) (written : stage.written = some snapshot)
    (handed : stage.handed = some (chosen, snapshot)) : Holds { w with registered := some chosen } := by
  rintro object ⟨⟩
  rw [show ({ w with registered := some chosen } : World V).row = some snapshot from tells.written snapshot written]
  exact tells.handed (chosen, snapshot) handed

theorem Agrees.initial (initial : Initial w) : Agrees w where
  locked := .initial initial
  registered := initial.registered
  tmpProviders := initial.tmpProviders
  tells id := by
    rw [initial.requests]
    exact .free rfl nofun
  holds _ := initial.holds

section

variable (agrees : Agrees w)
include agrees

theorem Agrees.telling (here : w.requests id = stage) : Tells w stage := here ▸ agrees.tells id

theorem Agrees.put (here : w.requests id = now) (locked : Locked (w.put id stage)) (tells : Tells w stage)
    (holds : stage.written = none → now.written = none ∨ Holds w) : Agrees (w.put id stage) where
  locked := locked
  registered := agrees.registered
  tmpProviders := agrees.tmpProviders
  tells := forall_put (P := fun _ => Tells _) { tells with } fun other _ => { agrees.tells other with }
  holds none := by
    have own := none id
    rw [requests_put_self] at own
    obtain before | holds := holds own
    · refine agrees.holds fun other => ?_
      by_cases same : other = id
      · rw [same, here]
        exact before
      · have there := none other
        rwa [requests_put_other w id stage same] at there
    · exact holds

theorem Agrees.putEarly (here : w.requests id = now) (before : now.written = none) (free : stage.holds = false)
    (known : ∀ candidate, stage.candidate = some candidate → candidate < w.made) : Agrees (w.put id stage) :=
  agrees.put here (agrees.locked.putFree free) (.free free known) fun _ => .inl before

theorem Agrees.done (here : w.requests id = now) (before : now.written = none) : Agrees (w.put id .done) :=
  agrees.putEarly here before rfl nofun

theorem Agrees.leave (here : w.requests id = now) (holding : now.holds = true)
    (holds : now.written = none ∨ Holds w) : Agrees (w.leave id) := by
  have left : Agrees (w.put id .done) :=
    agrees.put here (agrees.locked.putFree rfl) (.free rfl nofun) fun _ => holds
  exact { left with locked := agrees.locked.leave here holding, tells := fun id => { left.tells id with } }

theorem Agrees.setSettings {object : Object}
    (spared : ∀ id given, (w.requests id).handed = some given → given.1 ≠ object)
    (apart : w.registered ≠ some object ∨ ∃ id, (w.requests id).written ≠ none) :
    Agrees (w.setSettings object snapshot) where
  locked := { agrees.locked with }
  registered := agrees.registered
  tmpProviders := agrees.tmpProviders
  tells id := { agrees.tells id with
    handed := fun given here => (if_neg (spared id given here)).trans ((agrees.tells id).handed given here) }
  holds none := by
    obtain other | ⟨id, some⟩ := apart
    · intro registered here
      have unlike : registered ≠ object := fun same => other (same ▸ here)
      rw [show (w.setSettings object snapshot).settings registered = w.settings registered from if_neg unlike]
      exact agrees.holds none registered here
    · exact absurd (none id) some

theorem Agrees.create (type : String) (values : V) : Agrees (w.create type values) := by
  have given : Agrees (w.setSettings w.made { revision := 0, values := values }) := by
    refine agrees.setSettings (fun id given here => ?_) (.inl fun here => ?_)
    · exact Nat.ne_of_lt ((agrees.tells id).candidate given.1 (Stage.candidate_of_handed here))
    · exact absurd (agrees.registered w.made here) (Nat.lt_irrefl _)
  exact { given with
    locked := { given.locked with }
    registered := fun object here => Nat.lt_succ_of_lt (given.registered object here)
    tmpProviders := fun key object here => Nat.lt_succ_of_lt (given.tmpProviders key object here)
    tells := fun id => { given.tells id with
      candidate := fun candidate here => Nat.lt_succ_of_lt ((given.tells id).candidate candidate here) } }

theorem Agrees.pick (here : w.requests id = .found req old) (created : Option V) :
    Agrees (w.pick id req old created) := by
  unfold World.pick
  split
  · exact agrees.done here rfl
  · split
    · split
      · rename_i provider found
        split
        · exact agrees.done here rfl
        · refine agrees.putEarly here rfl rfl ?_
          rintro _ ⟨⟩
          exact agrees.tmpProviders _ provider found
      · exact agrees.done here rfl
    · split
      · split
        · rename_i values
          refine (agrees.create (w.types old) values).putEarly here rfl rfl ?_
          rintro _ ⟨⟩
          exact Nat.lt_succ_self _
        · exact agrees.done here rfl
      · exact agrees.putEarly here rfl rfl (agrees.telling here).candidate

theorem Agrees.spared (spares : (w.holder.all fun other => !(w.requests other).publishes chosen) = true) (other : Nat)
    (given : Object × SettingsSnapshot V) (handed : (w.requests other).handed = some given) :
    given.1 ≠ chosen := by
  rw [agrees.locked.holding rfl (Stage.holds_of_handed handed), Option.all_some, Bool.not_eq_true'] at spares
  rw [Stage.publishes_of_handed handed] at spares
  exact beq_eq_false_iff_ne.mp spares

theorem Agrees.give (here : w.requests id = .picked req old chosen)
    (spares : SparesAt validate w (w.requests id)) : Agrees (w.give validate id req old chosen) := by
  rw [here] at spares
  unfold World.give
  split
  · exact agrees.done here rfl
  · rename_i values valid
    dsimp only
    split
    · rename_i replacing
      obtain ⟨apart, spared⟩ := spares replacing (by rw [valid]; rfl)
      exact (agrees.setSettings (agrees.spared spared) (.inl apart)).putEarly here rfl rfl (agrees.telling here).candidate
    · exact agrees.putEarly here rfl rfl (agrees.telling here).candidate

theorem Agrees.guard (here : w.requests id = .waiting task) (free : w.holder = none) :
    Agrees { w.put id (.guarded task) with holder := some id } := by
  have taken : Agrees ({ w with holder := some id } : World V) :=
    { agrees with locked := agrees.locked.take free id, tells := fun id => { agrees.tells id with } }
  exact taken.put here (taken.locked.put ⟨fun _ => rfl, nofun⟩) { taken.telling here with } fun _ => .inl rfl

theorem Agrees.commit (here : w.requests id = .saved task snapshot) :
    Agrees (w.commit id task snapshot) := by
  refine ⟨agrees.locked.commit here, agrees.registered, agrees.tmpProviders, ?_, fun none => ?_⟩
  · refine forall_put (P := fun _ => Tells _) { agrees.telling here with written := ?_ } fun other apart =>
      .free (agrees.locked.others here rfl apart) (agrees.tells other).candidate
    rintro _ ⟨⟩
    rfl
  · have own : ((w.put id (.committed task snapshot)).requests id).written = Option.none := none id
    rw [requests_put_self] at own
    cases own

theorem Agrees.store (here : w.requests id = .committed task snapshot) :
    Agrees ((w.setSettings task.candidate snapshot).put id (.stored task snapshot)) := by
  have given : Agrees (w.setSettings task.candidate snapshot) := by
    refine agrees.setSettings (fun other given there => ?_) (.inr ⟨id, by rw [here]; nofun⟩)
    by_cases same : other = id
    · rw [same, here] at there
      cases there
    · exact absurd (Stage.holds_of_handed there) (Bool.eq_false_iff.mp (agrees.locked.others here rfl same))
  refine given.put here (given.locked.putHeld here rfl nofun) { given.telling here with handed := ?_ } nofun
  rintro _ ⟨⟩
  exact if_pos rfl

theorem Agrees.register (here : w.requests id = .invalidated task snapshot) :
    Agrees { w.put id .leaving with registered := some task.candidate } := by
  have tells : Tells w (.invalidated task snapshot) := agrees.telling here
  have left : Locked (w.put id .leaving) := agrees.locked.putHeld here rfl nofun
  refine ⟨{ left with }, ?_, agrees.tmpProviders, ?_, fun _ => ?_⟩
  · rintro _ ⟨⟩
    exact tells.candidate task.candidate rfl
  · exact forall_put (P := fun _ => Tells _) ⟨nofun, nofun, nofun, nofun⟩ fun other apart =>
      .free (agrees.locked.others here rfl apart) (agrees.tells other).candidate
  · exact tells.settled rfl rfl

/-- A request that replaces nothing leaves the registered provider with the settings of the row. -/
theorem Agrees.release (here : w.requests id = .stored task snapshot) (plain : ¬ task.replacing) :
    Agrees (w.leave id) := by
  have tells : Tells w (.stored task snapshot) := agrees.telling here
  have same : task.old = task.candidate := Classical.not_not.mp plain
  have registered : w.registered = some task.candidate := same ▸ tells.confirmed task.old rfl
  have settled : Holds ({ w with registered := some task.candidate } : World V) := tells.settled rfl rfl
  rw [← registered] at settled
  exact agrees.leave here rfl (.inr settled)

end

theorem Agrees.step (agrees : Agrees w) (spares : Spares validate w event) (stepped : Step validate w event v) :
    Agrees v := by
  have locked : Locked v := agrees.locked.step stepped
  cases event <;> simp only [Step, perform] at stepped
  case createTmp key type values =>
    cases stepped
    have created := agrees.create type values
    refine { created with locked := locked, tmpProviders := fun other object found => ?_, tells := fun id =>
      { created.tells id with } }
    replace found : (w.tmpProviders.insert key w.made).lookup other = some object := found
    obtain ⟨rfl, rfl⟩ | ⟨-, found⟩ := Hash.lookup_insert_some found
    · exact Nat.lt_succ_self _
    · exact Nat.lt_succ_of_lt (agrees.tmpProviders other object found)
  case deleteTmp key =>
    cases stepped
    refine { agrees with locked := locked, tmpProviders := fun other object found => ?_, tells := fun id =>
      { agrees.tells id with } }
    replace found : (w.tmpProviders.erase key).lookup other = some object := found
    obtain ⟨-, found⟩ := Hash.lookup_erase_some found
    exact agrees.tmpProviders other object found
  case call id req =>
    split at stepped <;> cases stepped
    exact agrees.putEarly ‹_› rfl rfl nofun
  case find id =>
    split at stepped
    · rename_i here
      split at stepped <;> cases stepped
      · rename_i old registered
        refine agrees.putEarly here rfl rfl ?_
        rintro _ ⟨⟩
        exact agrees.registered old registered
      · exact agrees.done here rfl
    · cases stepped
  case pick id created =>
    split at stepped <;> cases stepped
    exact agrees.pick ‹_› created
  case give id =>
    split at stepped <;> cases stepped
    exact agrees.give ‹_› spares
  case auth id ok =>
    split at stepped <;> cases stepped
    rename_i here
    split
    · exact agrees.done here rfl
    · exact agrees.putEarly here rfl rfl (agrees.telling here).candidate
  case guard id ok =>
    split at stepped
    · rename_i here
      split at stepped
      · cases stepped
        exact agrees.done here rfl
      · split at stepped <;> cases stepped
        exact agrees.guard here ‹_›
    · cases stepped
  case check id =>
    split at stepped <;> cases stepped
    rename_i here
    split
    · rename_i registered
      refine agrees.put here (agrees.locked.putHeld here rfl nofun) { agrees.telling here with confirmed := ?_ }
        fun _ => .inl rfl
      rintro _ ⟨⟩
      exact registered
    · exact agrees.leave here rfl (.inl rfl)
  case save id =>
    split at stepped
    · rename_i here
      split at stepped <;> cases stepped
      · exact agrees.put here locked { agrees.telling here with } fun _ => .inl rfl
      · exact agrees.leave here rfl (.inl rfl)
    · cases stepped
  case commit id ok =>
    split at stepped <;> cases stepped
    split
    · exact agrees.commit ‹_›
    · exact agrees.leave ‹_› rfl (.inl rfl)
  case store id =>
    split at stepped <;> cases stepped
    exact agrees.store ‹_›
  case scope id ok =>
    cases show ok = true from spares
    split at stepped
    · rename_i here
      split at stepped <;> cases stepped
      exact agrees.put here locked { agrees.telling here with } nofun
    · cases stepped
  case register id =>
    split at stepped <;> cases stepped
    exact agrees.register ‹_›
  case release id =>
    split at stepped
    · cases stepped
      exact agrees.leave ‹_› rfl (.inl rfl)
    · rename_i here
      split at stepped <;> cases stepped
      exact agrees.release here ‹_›
    · cases stepped

/-- In every run the commits are on consecutive base revisions, each of them once; and in a run that spares the
providers that are registered or about to be, the registered one has the settings of the row whenever no request is in
progress. -/
theorem settings_are_committed_once (reached : Reach Initial (fun _ _ => True) (Step validate) w) :
    (Counted w ∧ w.commits.Nodup) ∧ (Reach Initial (Spares validate) (Step validate) w → Idle w → Holds w) := by
  have locked : Locked w :=
    reached.invariant (fun _ initial => .initial initial) fun _ _ _ locked _ stepped => locked.step stepped
  refine ⟨⟨locked.counted, ?_⟩, fun spared idle => ?_⟩
  · obtain ⟨first, commits, -⟩ := locked.counted
    rw [commits]
    exact List.nodup_range'
  · have agrees : Agrees w :=
      spared.invariant (fun _ initial => .initial initial) fun _ _ _ agrees spares stepped => agrees.step spares stepped
    refine agrees.holds fun id => ?_
    obtain absent | done := idle.requests id
    · rw [absent]
      rfl
    · rw [done]
      rfl

/-- A provider is registered, and another one of its kind is there under a temporary key. -/
def twoProviders : World Nat where
  registered := some 0
  tmpProviders := AList.insert "tmp" 1 ∅
  types _ := ""
  settings _ := { revision := 0, values := 5 }
  made := 2

theorem twoProviders_initial : Initial twoProviders where
  absent := rfl
  free := rfl
  fresh := rfl
  registered := by
    rintro _ ⟨⟩
    decide
  tmpProviders key object found := by
    replace found : (AList.insert "tmp" 1 ∅ : Hash String Object).lookup key = some object := found
    obtain ⟨rfl, rfl⟩ | ⟨-, found⟩ := Hash.lookup_insert_some found
    · decide
    · cases found
  holds := by
    rintro _ ⟨⟩
    rfl

/-- The settings are changed, and then the temporary provider takes the place of the registered one; another request
on the first base revision fails. -/
def threeUpdates : List (Event Nat) :=
  [.call 0 { settingsRevision := 0, settings := some 7 }, .find 0, .pick 0 none, .give 0, .auth 0 true, .guard 0 true,
    .call 1 { tmpProvider := "tmp", settingsRevision := 1, settings := some 8 }, .find 1, .pick 1 none, .give 1,
    .check 0, .save 0, .commit 0 true, .store 0, .release 0,
    .call 2 { settingsRevision := 0, settings := some 9 }, .find 2, .pick 2 none, .give 2, .auth 2 true, .guard 2 true,
    .check 2, .save 2,
    .auth 1 true, .guard 1 true, .check 1, .save 1, .commit 1 true, .store 1, .scope 1 true, .register 1, .release 1]

theorem settings_are_committed_once_of_three : ∃ w : World Nat,
    w.commits = [0, 1] ∧ w.row = some { revision := 2, values := 8 } ∧ Counted w ∧ Holds w := by
  have ran : (play (Spares fun _ => some) (perform fun _ => some) twoProviders threeUpdates).any
      (fun w => decide (Idle w) && (w.commits == [0, 1] && w.row == some { revision := 2, values := 8 })) = true := by
    decide +kernel
  obtain ⟨w, played, shown⟩ := (Option.any_eq_true ..).mp ran
  rw [Bool.and_eq_true, Bool.and_eq_true, beq_iff_eq, beq_iff_eq, decide_eq_true_eq] at shown
  obtain ⟨idle, commits, row⟩ := shown
  have spared : Reach Initial (Spares fun _ => some) (Step fun _ => some) w :=
    Reach.play threeUpdates (.start twoProviders_initial) played
  obtain ⟨counted, holds⟩ := settings_are_committed_once (spared.weaken fun _ _ _ => trivial)
  exact ⟨w, commits, row, counted.1, holds spared idle⟩

/-- Two requests with the same temporary provider; the second one has read the registered provider before the first
one registers the temporary one, and gives that its settings afterwards. -/
def lateSettings : List (Event Nat) :=
  [.call 1 { tmpProvider := "tmp", settingsRevision := 0, settings := some 9 }, .find 1, .pick 1 none,
    .call 0 { tmpProvider := "tmp", settingsRevision := 0, settings := some 7 }, .find 0, .pick 0 none, .give 0,
    .auth 0 true, .guard 0 true, .check 0, .save 0, .commit 0 true, .store 0, .scope 0 true, .register 0, .release 0,
    .give 1, .auth 1 true, .guard 1 true, .check 1]

theorem failed_update_leaves_its_settings : ∃ w : World Nat,
    Reach Initial (fun _ _ => True) (Step fun _ => some) w ∧ Idle w ∧ w.registered = some 1 ∧
      w.row = some { revision := 1, values := 7 } ∧ w.settings 1 = { revision := 0, values := 9 } ∧ ¬ Holds w := by
  have ran : (play (fun _ _ => True) (perform fun _ => some) twoProviders lateSettings).any
      (fun w => decide (Idle w) && (w.registered == some 1 && (w.row == some { revision := 1, values := 7 } &&
        w.settings 1 == { revision := 0, values := 9 }))) = true := by decide +kernel
  obtain ⟨w, played, shown⟩ := (Option.any_eq_true ..).mp ran
  rw [Bool.and_eq_true, Bool.and_eq_true, Bool.and_eq_true, beq_iff_eq, beq_iff_eq, beq_iff_eq, decide_eq_true_eq] at shown
  obtain ⟨idle, registered, row, settings⟩ := shown
  have reached : Reach Initial (fun _ _ => True) (Step fun _ => some) w :=
    Reach.play lateSettings (.start twoProviders_initial) played
  refine ⟨w, reached, idle, registered, row, settings, fun holds => ?_⟩
  have same := holds 1 registered
  rw [row, settings] at same
  exact absurd same (by decide)

end Qcm.ProviderSettings
