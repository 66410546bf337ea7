import Qcm.RadioMoves

/-!
How often a provider is asked to open a queue for one operation id.

The cache holds an operation until it is over and `OPERATION_TTL` old.  An id is
accepted by the wall clock and by its own timestamp, which may lie ahead, so an
id can outlive its operation; what is needed is that no request comes to the
cache once the cache has forgotten.
-/

namespace Qcm.RadioOpenProofs

open RadioSessions RadioMoves Lib.Runs

variable {s t : World} {isUuid : List Char → Bool}

/-- The calls of `open_queue` for an operation id. -/
def invocations (s : World) (operationId : String) : Nat :=
  s.opens.countP fun number => (s.started[number]?).any (·.key = .opening operationId)

/-- Every call belongs to an `open`, and no operation id has had two. -/
structure OpenedOnce (s : World) : Prop where
  keyed : ∀ number ∈ s.opens, ∃ operation id, s.started[number]? = some operation ∧ operation.key = .opening id
  once : ∀ id, invocations s id ≤ 1

/-- What the cache and the log have to do with the operations. -/
structure Cached (operations : List (Key × Nat)) (started : List Operation) (opens : List Nat)
    (instant : Nat) : Prop where
  listed : ∀ key number, (key, number) ∈ operations →
    ∃ operation, started[number]? = some operation ∧ operation.key = key
  forgotten : ∀ (number : Nat) (operation : Operation), started[number]? = some operation →
    (operation.key, number) ∈ operations ∨
      (operation.result ≠ none ∧ operation.created + OPERATION_TTL ≤ instant)
  waiting : ∀ (number : Nat) (operation : Operation), started[number]? = some operation →
    operation.result = none ∨ operation.run = .done
  first : ∀ (number : Nat) (operation : Operation), started[number]? = some operation → early operation.run = true →
    number ∉ opens ∧ ∃ id, operation.key = .opening id
  called : ∀ number ∈ opens, ∃ operation id, started[number]? = some operation ∧ operation.key = .opening id
  distinct : opens.Nodup
  /-- Of the operations of a key, one at most is running or has called. -/
  single : ∀ (i j : Nat) (left right : Operation), started[i]? = some left → started[j]? = some right → left.key = right.key →
    (i ∈ opens ∨ left.result = none) → (j ∈ opens ∨ right.result = none) → i = j

variable {operations : List (Key × Nat)} {started : List Operation} {opens : List Nat} {instant number : Nat}

private theorem Cached.modify (cached : Cached operations started opens instant)
    {change : Operation → Operation} {before : Operation} (found : started[number]? = some before)
    (key : (change before).key = before.key) (created : (change before).created = before.created)
    (answered : before.result ≠ none → (change before).result ≠ none)
    (waiting : (change before).result = none ∨ (change before).run = .done)
    (first : early (change before).run = true → early before.run = true) :
    Cached operations (started.modify number change) opens instant := by
  have shape {place : Nat} {operation : Operation} (there : (started.modify number change)[place]? = some operation) :
      ∃ old, started[place]? = some old ∧ operation.key = old.key ∧ operation.created = old.created ∧
        (old.result ≠ none → operation.result ≠ none) ∧ (operation.result = none ∨ operation.run = .done) ∧
        (early operation.run = true → early old.run = true) := by
    obtain ⟨old, here, ⟨rfl, rfl⟩ | ⟨-, rfl⟩⟩ := getElem?_modify_cases there
    · obtain rfl := Option.some.inj (found.symm.trans here)
      exact ⟨_, here, key, created, answered, waiting, first⟩
    · exact ⟨_, here, rfl, rfl, id, cached.waiting _ _ here, id⟩
  have kept {place : Nat} {old : Operation} (there : started[place]? = some old) :
      ∃ operation, (started.modify number change)[place]? = some operation ∧ operation.key = old.key := by
    by_cases same : number = place
    · subst same
      obtain rfl := Option.some.inj (found.symm.trans there)
      exact ⟨_, by simp [there], key⟩
    · exact ⟨old, by simp [same, there], rfl⟩
  constructor
  · intro key place member
    obtain ⟨old, there, rfl⟩ := cached.listed key place member
    exact kept there
  · intro place operation there
    obtain ⟨old, before, key, created, answered, -⟩ := shape there
    rw [key, created]
    exact (cached.forgotten place old before).imp_right fun aged => ⟨answered aged.1, aged.2⟩
  · intro place operation there
    obtain ⟨-, -, -, -, -, waiting, -⟩ := shape there
    exact waiting
  · intro place operation there starts
    obtain ⟨old, before, key, -, -, -, first⟩ := shape there
    rw [key]
    exact cached.first place old before (first starts)
  · intro place member
    obtain ⟨old, id, there, opening⟩ := cached.called place member
    obtain ⟨operation, here, key⟩ := kept there
    exact ⟨operation, id, here, key.trans opening⟩
  · exact cached.distinct
  · intro i j left right here there same live other
    obtain ⟨a, hereOld, keyA, -, answeredA, -⟩ := shape here
    obtain ⟨b, thereOld, keyB, -, answeredB, -⟩ := shape there
    refine cached.single i j a b hereOld thereOld (by rw [← keyA, ← keyB, same]) ?_ ?_
    · exact live.imp_right fun none => by_contra fun some => answeredA some none
    · exact other.imp_right fun none => by_contra fun some => answeredB some none

section

variable (cached : Cached s.operations s.started s.opens s.instant)
include cached

private theorem Cached.setRun {run : Run} (stands : At s number run) (going : run ≠ .done) (after : Run)
    (first : early after = true → early run = true) :
    Cached s.operations (setRun s number after).started s.opens s.instant := by
  obtain ⟨operation, found, rfl⟩ := stands
  have waits := (cached.waiting number operation found).resolve_right going
  exact cached.modify found rfl rfl (fun some => some) (.inl waits) first

private theorem Cached.finish {run : Run} (stands : At s number run) (result : Except RadioError Page) :
    Cached s.operations (finish s number result).started s.opens s.instant := by
  obtain ⟨operation, found, rfl⟩ := stands
  exact cached.modify found rfl rfl (fun _ => nofun) (.inr rfl) nofun

private theorem Cached.purge : Cached (purge s).operations s.started s.opens s.instant := by
  refine { cached with
    listed := fun key number member => cached.listed key number (List.mem_of_mem_filter member)
    forgotten := ?_ }
  intro number operation found
  rcases cached.forgotten number operation found with member | aged
  · by_cases young : s.instant - operation.created < OPERATION_TTL ∨ operation.result = none
    · exact .inl (List.mem_filter.mpr ⟨member, by simpa [found] using young⟩)
    · rw [not_or, OPERATION_TTL] at young
      exact .inr ⟨young.2, by rw [OPERATION_TTL]; omega⟩
  · exact .inr aged

private theorem Cached.absent {key : Key} {operation : Operation} (absent : s.operations.lookup key = none)
    (remembered : ∀ id, key = .opening id → Remembered s key) (found : s.started[number]? = some operation)
    (same : operation.key = key) : number ∉ s.opens ∧ operation.result ≠ none := by
  have unlisted : (key, number) ∉ s.operations := fun member => by
    have present := List.lookup_eq_none_iff.mp absent _ member
    simp at present
  have aged := (cached.forgotten number operation found).resolve_left (same ▸ unlisted)
  refine ⟨fun opened => ?_, aged.1⟩
  obtain ⟨other, id, there, opening⟩ := cached.called number opened
  obtain rfl := Option.some.inj (found.symm.trans there)
  rcases remembered id (same.symm.trans opening) number opened operation found same with none | young
  · exact aged.1 none
  · omega

end

private theorem Cached.start (cached : Cached s.operations s.started s.opens s.instant) {created : Operation}
    (absent : s.operations.lookup created.key = none) (unanswered : created.result = none)
    (starts : Starts s created.key created.run)
    (remembered : ∀ id, created.key = .opening id → Remembered s created.key) :
    Cached ((created.key, s.started.length) :: s.operations) (s.started ++ [created]) s.opens s.instant := by
  have shape {place : Nat} {operation : Operation} (there : (s.started ++ [created])[place]? = some operation) :
      s.started[place]? = some operation ∨ place = s.started.length ∧ operation = created := by
    rcases Nat.lt_or_ge place s.started.length with inside | outside
    · exact .inl (by rwa [List.getElem?_append_left inside] at there)
    · rw [List.getElem?_append_right outside] at there
      have last := List.getElem?_eq_some_iff.mp there
      obtain rfl : place = s.started.length := by simp at last; omega
      exact .inr ⟨rfl, by simpa using there.symm⟩
  have kept {place : Nat} {operation : Operation} (there : s.started[place]? = some operation) :
      (s.started ++ [created])[place]? = some operation := by
    rw [List.getElem?_append_left (List.getElem?_eq_some_iff.mp there).1, there]
  have new : s.started.length ∉ s.opens := by
    intro opened
    obtain ⟨operation, -, there, -⟩ := cached.called _ opened
    simp at there
  constructor
  · rintro key number member
    rcases List.mem_cons.mp member with own | old
    · cases own
      exact ⟨created, by simp, rfl⟩
    · obtain ⟨operation, there, same⟩ := cached.listed key number old
      exact ⟨operation, kept there, same⟩
  · intro place operation there
    rcases shape there with old | ⟨rfl, rfl⟩
    · exact (cached.forgotten place operation old).imp_left (List.mem_cons_of_mem _)
    · exact .inl (by simp)
  · intro place operation there
    rcases shape there with old | ⟨rfl, rfl⟩
    · exact cached.waiting place operation old
    · exact .inl unanswered
  · intro place operation there begins
    rcases shape there with old | ⟨rfl, rfl⟩
    · exact cached.first place operation old begins
    · refine ⟨new, ?_⟩
      rcases starts with ⟨id, request, key, -⟩ | ⟨id, request, -, run, -⟩
      · exact ⟨id, key⟩
      · simp [run, early] at begins
  · intro place opened
    obtain ⟨operation, id, there, opening⟩ := cached.called place opened
    exact ⟨operation, id, kept there, opening⟩
  · exact cached.distinct
  · intro i j left right here there same live other
    have away {place : Nat} {operation : Operation} (old : s.started[place]? = some operation)
        (same : operation.key = created.key) (live : place ∈ s.opens ∨ operation.result = none) : False := by
      obtain ⟨uncalled, answered⟩ := cached.absent absent remembered old same
      exact live.elim uncalled answered
    rcases shape here with hereOld | ⟨rfl, rfl⟩ <;> rcases shape there with thereOld | ⟨rfl, rfl⟩
    · exact cached.single i j left right hereOld thereOld same live other
    · exact (away hereOld same live).elim
    · exact (away thereOld same.symm other).elim
    · rfl

private theorem Cached.call (cached : Cached s.operations s.started s.opens s.instant) {run after : Run}
    (stands : At s number run) (first : early run = true) (second : early after = false) :
    Cached s.operations (RadioSessions.setRun s number after).started (s.opens ++ [number]) s.instant := by
  obtain ⟨operation, found, rfl⟩ := stands
  have going : operation.run ≠ .done := by
    rintro done
    simp [done, early] at first
  have waits := (cached.waiting number operation found).resolve_right going
  obtain ⟨fresh, id, opening⟩ := cached.first number operation found first
  have next := cached.setRun ⟨operation, found, rfl⟩ going after (by simp [second])
  refine ⟨next.listed, next.forgotten, next.waiting, ?_, ?_, ?_, ?_⟩
  · intro place other there begins
    obtain ⟨uncalled, named⟩ := next.first place other there begins
    refine ⟨?_, named⟩
    obtain ⟨old, -, ⟨rfl, rfl⟩ | ⟨apart, -⟩⟩ := getElem?_modify_cases there
    · simp [second] at begins
    · simp [uncalled, apart]
  · intro place member
    obtain old | rfl := mem_snoc member
    · exact next.called place old
    · exact ⟨{ operation with run := after }, id, by simp [RadioSessions.setRun, found], opening⟩
  · exact List.nodup_append.mpr ⟨cached.distinct, List.nodup_singleton _, by
      rintro a member b own rfl
      exact fresh (List.mem_singleton.mp own ▸ member)⟩
  · -- the operation that calls was running before
    have before {place : Nat} {other : Operation}
        (there : (RadioSessions.setRun s number after).started[place]? = some other)
        (live : place ∈ s.opens ++ [number] ∨ other.result = none) : place ∈ s.opens ∨ other.result = none := by
      rcases live with member | none
      · obtain old | rfl := mem_snoc member
        · exact .inl old
        · obtain ⟨old, here, ⟨-, rfl⟩ | ⟨apart, -⟩⟩ := getElem?_modify_cases there
          · obtain rfl := Option.some.inj (found.symm.trans here)
            exact .inr waits
          · exact absurd rfl apart
      · exact .inr none
    intro i j left right here there same live other
    exact next.single i j left right here there same (before here live) (before there other)

private theorem cached_move {prompt : Prop} (claim : prompt) {careful : Prop} (move : Move prompt careful s t)
    (cached : Cached s.operations s.started s.opens s.instant) :
    Cached t.operations t.started t.opens t.instant := by
  cases move with
  | clock wall later =>
    refine { cached with forgotten := fun number operation found => ?_ }
    exact (cached.forgotten number operation found).imp_right fun aged => ⟨aged.1, aged.2.trans later⟩
  | register id value =>
    cases s.registry id <;> exact cached
  | purge => exact cached.purge
  | start created absent now unanswered starts remembered =>
    exact cached.start absent unanswered starts (remembered claim)
  | fail stands free kept error => exact cached.finish stands _
  | goOn stands first second epoch =>
    refine cached.setRun stands ?_ _ fun _ => first
    rintro rfl
    cases first
  | call stands same => exact cached.call stands rfl rfl
  | opened stands batch => exact cached.setRun stands nofun _ nofun
  | insert stands found live room => exact cached.finish stands _
  | release stands found error =>
    unfold release
    split
    · exact cached.finish stands _
    · exact cached.setRun stands nofun _ nofun
  | close stands found free => exact cached.setRun stands nofun _ nofun
  | closed stands found => exact cached.finish stands _
  | hold stands found free live version retained | returned stands found batch =>
    exact cached.setRun stands nofun _ nofun
  | abandon stands holds found error kept | keepState stands found dead | commit stands found live items =>
    exact cached.finish stands _
  | _ => exact cached

private theorem cached_initial (fresh : s.Initial) : Cached s.operations s.started s.opens s.instant := by
  obtain ⟨-, -, -, operations, started, -, -, opens, -⟩ := fresh
  rw [operations, started, opens]
  constructor <;> simp

private theorem Cached.openedOnce (cached : Cached s.operations s.started s.opens s.instant) : OpenedOnce s := by
  refine ⟨cached.called, fun id => ?_⟩
  rw [invocations, List.countP_eq_length_filter]
  have one {i j : Nat} (left : i ∈ s.opens.filter fun number => (s.started[number]?).any (·.key = .opening id))
      (right : j ∈ s.opens.filter fun number => (s.started[number]?).any (·.key = .opening id)) : i = j := by
    obtain ⟨calledLeft, here⟩ := List.mem_filter.mp left
    obtain ⟨calledRight, there⟩ := List.mem_filter.mp right
    obtain ⟨first, foundFirst, key⟩ := (Option.any_eq_true _ _).mp here
    obtain ⟨second, foundSecond, same⟩ := (Option.any_eq_true _ _).mp there
    have key : first.key = .opening id := by simpa using key
    have same : second.key = .opening id := by simpa using same
    exact cached.single i j first second foundFirst foundSecond (key.trans same.symm) (.inl calledLeft)
      (.inl calledRight)
  have distinct := cached.distinct.filter fun number => (s.started[number]?).any (·.key = .opening id)
  cases calls : s.opens.filter fun number => (s.started[number]?).any (·.key = .opening id) with
  | nil => simp
  | cons i rest =>
    cases rest with
    | nil => simp
    | cons j rest =>
      have same : i = j := one (by simp [calls]) (by simp [calls])
      rw [calls, same] at distinct
      simp at distinct

/-- In every run in which each request comes to the cache while its operation is
remembered, no operation id is opened twice. -/
theorem prompt_requests_open_once (reached : Reached isUuid Prompt s) : OpenedOnce s := by
  have cached : Cached s.operations s.started s.opens s.instant := reached_invariant True False reached
    (fun _ _ _ => id) (fun none => none.elim) (fun _ fresh => cached_initial fresh)
    fun _ _ move cached => cached_move True.intro move cached
  exact cached.openedOnce

theorem retry_in_time_opens_once : ∃ s, OpenedOnce s ∧ invocations s sampleId = 1 ∧ s.requests.length = 2 := by
  have run : ((play Prompt (step isSampleUuid) sample (firstOpen ++ [.tick 299999, askOpen, .enter 1])).map fun s =>
      (invocations s sampleId, s.requests.length)) = some (1, 2) := by decide +kernel
  obtain ⟨s, played, same⟩ := Option.map_eq_some_iff.mp run
  have reached : Reached isSampleUuid Prompt s := Reach.play _ (.start (by simp [World.Initial, sample])) played
  exact ⟨s, prompt_requests_open_once reached, congrArg Prod.fst same, congrArg Prod.snd same⟩

/-- Five minutes after the first request the cache has forgotten its operation,
and the clock still accepts the id: the retry opens a second queue. -/
theorem late_retry_opens_again : ∃ s, Reached isSampleUuid (fun _ _ => True) s ∧
    invocations s sampleId = 2 := by
  have run : ((play (fun _ _ => True) (step isSampleUuid) sample (firstOpen ++ [.tick 300000, .setClock 300000, askOpen,
      .enter 1, .resume 1 .go, .resume 1 (.definition (.ok []))])).map fun s =>
      invocations s sampleId) = some 2 := by decide +kernel
  obtain ⟨s, played, same⟩ := Option.map_eq_some_iff.mp run
  exact ⟨s, Reach.play _ (.start (by simp [World.Initial, sample])) played, same⟩

end Qcm.RadioOpenProofs
