import Qcm.Lib.Runs
import Qcm.SessionTasks

/-!
What holds of the session tasks under every interleaving.  An empty cell belongs
to the flight in the table, or to one that a `cancel` under way will send to, so
a key has one uncancelled flight.  A cell is never emptied and counts its writes,
so no waiter sleeps over one.  That all callers of a flight get the same result
needs more: `cancel` overwrites whatever is in a cell.
-/

namespace Qcm.SessionTaskProofs

open Lib Lib.Runs SessionTasks

variable {κ ρ : Type} [DecidableEq κ] {error : ρ} {w after : World κ ρ}
variable {next : Flight κ ρ} {event : Event κ ρ} {waiter : Waiter ρ} {j i : Nat}

section Moves

/-- What one step of an owner can do. -/
inductive Moves (error : ρ) (flight : Flight κ ρ) : Flight κ ρ → Prop where
  | finish (result : ρ) (running : flight.stage = .running) :
      Moves error flight { flight with stage := .returned result, result := some result }
  | read (result : ρ) (returned : flight.stage = .returned result) :
      Moves error flight { flight with stage := .read (flight.cell.getD result) }
  | send (result : ρ) (read : flight.stage = .read result) :
      Moves error flight { flight.send result with stage := .sent result }
  | leave (result : ρ) (sent : flight.stage = .sent result) :
      Moves error flight { flight with stage := .done result }
  | drop (running : flight.stage = .running) : Moves error flight { flight with stage := .dropping }
  | empty (dropping : flight.stage = .dropping) (unfilled : flight.cell = none) :
      Moves error flight { flight with stage := .failing }
  | filled (dropping : flight.stage = .dropping) (filled : flight.cell ≠ none) :
      Moves error flight { flight with stage := .dropped }
  | fail (failing : flight.stage = .failing) :
      Moves error flight { flight.send error with stage := .dropped }

/-- What one step of a waiter can do. -/
inductive Waits (flight : Flight κ ρ) (waiter : Waiter ρ) : Waiter ρ → Prop where
  | subscribe (joined : waiter.wait = .joined) :
      Waits flight waiter { waiter with seen := flight.version, wait := .looking }
  | take (result : ρ) (looking : waiter.wait = .looking) (filled : flight.cell = some result) :
      Waits flight waiter { waiter with wait := .done result }
  | sleep (looking : waiter.wait = .looking) (empty : flight.cell = none) :
      Waits flight waiter { waiter with wait := .waiting }
  | wake (waiting : waiter.wait = .waiting) (written : flight.version ≠ waiter.seen) :
      Waits flight waiter { waiter with seen := flight.version, wait := .looking }
  | drop (here : waiter.wait.holds) : Waits flight waiter { waiter with wait := .dropped }

omit [DecidableEq κ]

theorem moves_of_step {flight : Flight κ ρ} (stepped : flight.step error event = some next) : Moves error flight next := by
  cases event <;> simp only [Flight.step] at stepped
  case finish i result =>
    split at stepped <;> cases stepped
    rename_i running
    exact .finish result running
  case read i =>
    split at stepped <;> cases stepped
    rename_i result returned
    exact .read result returned
  case send i =>
    split at stepped <;> cases stepped
    rename_i result read
    exact .send result read
  case leave i =>
    split at stepped <;> cases stepped
    rename_i result sent
    exact .leave result sent
  case dropOwner i =>
    split at stepped <;> cases stepped
    rename_i running
    exact .drop running
  case check i =>
    split at stepped <;> cases stepped
    rename_i dropping
    split
    · rename_i unfilled
      exact .empty dropping (by simpa using unfilled)
    · rename_i filled
      exact .filled dropping (by simpa using filled)
  case fail i =>
    split at stepped <;> cases stepped
    rename_i failing
    exact .fail failing
  case call | subscribe | look | wake | dropWaiter | cancel | cancelNext | cancelEnd => cases stepped

theorem waits_of_step {flight : Flight κ ρ} {next : Waiter ρ}
    (stepped : waiter.step flight event = some next) : Waits flight waiter next := by
  cases event <;> simp only [Waiter.step] at stepped
  case subscribe j =>
    split at stepped <;> cases stepped
    rename_i joined
    exact .subscribe joined
  case look j =>
    split at stepped
    · rename_i result looking filled
      cases stepped
      exact .take result looking filled
    · rename_i looking empty
      cases stepped
      exact .sleep looking empty
    · cases stepped
  case wake j =>
    split at stepped
    · rename_i waiting
      split at stepped <;> cases stepped
      rename_i written
      exact .wake waiting written
    · cases stepped
  case dropWaiter j =>
    split at stepped <;> cases stepped
    rename_i here
    exact .drop here
  case call | finish | read | send | leave | dropOwner | check | fail | cancel | cancelNext | cancelEnd =>
    cases stepped

end Moves

variable {result : ρ} {α : Type} {list : List α} {last found : α}

section Flights

omit [DecidableEq κ]

/-- A cell that is empty has not been written, and its owner has not left. -/
structure Orderly (flight : Flight κ ρ) : Prop where
  unwritten : flight.cell = none ↔ flight.version = 0
  owned : flight.cell = none → flight.stage.holds
  sent : ∀ result, flight.stage = .sent result → flight.cell ≠ none
  early : flight.stage = .running → flight.hit = false → flight.cell = none

/-- A flight after a step: of the same key, with a cell that was not emptied. -/
structure Later (flight next : Flight κ ρ) : Prop where
  key : next.key = flight.key
  cell : next.cell = none → flight.cell = none
  version : flight.version ≤ next.version

variable {next : Flight κ ρ} {waiter : Waiter ρ}

theorem Orderly.fresh (key : κ) : Orderly (⟨key, none, 0, .running, none, false⟩ : Flight κ ρ) :=
  ⟨by simp, fun _ => rfl, nofun, fun _ _ => rfl⟩

theorem Orderly.written {flight : Flight κ ρ} (filled : flight.cell = some result)
    (version : flight.version ≠ 0) (late : flight.stage = .running → flight.hit = true) : Orderly flight :=
  ⟨by simp [filled, version], by simp [filled], by simp [filled],
    fun running early => by simp [late running] at early⟩

theorem Moves.later {flight : Flight κ ρ} (moves : Moves error flight next) : Later flight next := by
  cases moves with
  | finish | read | leave | drop | empty | filled => exact ⟨rfl, id, le_rfl⟩
  | send | fail => exact ⟨rfl, nofun, Nat.le_succ _⟩

theorem Orderly.moves {flight : Flight κ ρ} (orderly : Orderly flight) (moves : Moves error flight next) :
    Orderly next := by
  cases moves with
  | finish | read | drop | empty => exact ⟨orderly.unwritten, fun _ => rfl, nofun, nofun⟩
  | send | fail => exact .written rfl (Nat.succ_ne_zero _) nofun
  | leave result sent =>
    exact ⟨orderly.unwritten, fun empty => absurd empty (orderly.sent result sent), nofun, nofun⟩
  | filled dropping filled => exact ⟨orderly.unwritten, fun empty => absurd empty filled, nofun, nofun⟩

/-- What a waiter knows of its flight: it sleeps only where it has seen no write. -/
structure Attentive (waiter : Waiter ρ) (flight : Flight κ ρ) : Prop where
  seen : waiter.seen ≤ flight.version
  unseen : waiter.wait = .waiting → waiter.seen = 0

theorem Attentive.later {flight : Flight κ ρ} (attentive : Attentive waiter flight)
    (later : Later flight next) : Attentive waiter next :=
  ⟨Nat.le_trans attentive.seen later.version, attentive.unseen⟩

theorem Attentive.waits {next : Waiter ρ} {flight : Flight κ ρ} (attentive : Attentive waiter flight)
    (orderly : Orderly flight) (waits : Waits flight waiter next) : Attentive next flight := by
  cases waits with
  | subscribe | wake => exact ⟨le_rfl, nofun⟩
  | take | drop => exact ⟨attentive.seen, nofun⟩
  | sleep looking empty =>
    have unwritten := orderly.unwritten.mp empty
    have seen := attentive.seen
    exact ⟨seen, fun _ => by simpa [unwritten] using seen⟩

theorem Waits.flight {flight : Flight κ ρ} {next : Waiter ρ} (waits : Waits flight waiter next) :
    next.flight = waiter.flight := by
  cases waits <;> rfl

end Flights

section Steps

/-- What one step of the world can do. -/
inductive Does (error : ρ) (w : World κ ρ) : Event κ ρ → World κ ρ → Prop where
  | call (key : κ) (free : w.cancelling = none) : Does error w (.call key) (w.call key)
  | owner {event : Event κ ρ} (i : Nat) {flight next : Flight κ ρ} (there : w.flights[i]? = some flight)
      (moves : Moves error flight next) : Does error w event (w.setFlight i next)
  | waiter {event : Event κ ρ} (j : Nat) {waiter next : Waiter ρ} {flight : Flight κ ρ}
      (there : w.waiters[j]? = some waiter) (joined : w.flights[waiter.flight]? = some flight)
      (waits : Waits flight waiter next) : Does error w event (w.setWaiter j next)
  | cancel (order : List Nat) (free : w.cancelling = none) (every : order.Perm w.table.values) :
      Does error w (.cancel order) { w with table := ∅, cancelling := some order }
  | hit (i : Nat) (rest : List Nat) {flight : Flight κ ρ} (under : w.cancelling = some (i :: rest))
      (alive : { w with cancelling := some rest }.alive i = true) (there : w.flights[i]? = some flight) :
      Does error w .cancelNext
        ({ w with cancelling := some rest }.setFlight i { flight.send error with hit := true })
  | miss (i : Nat) (rest : List Nat) (under : w.cancelling = some (i :: rest))
      (gone : { w with cancelling := some rest }.alive i = true → w.flights[i]? = none) :
      Does error w .cancelNext { w with cancelling := some rest }
  | cancelEnd (under : w.cancelling = some []) : Does error w .cancelEnd { w with cancelling := none }

theorem does_of_step (stepped : w.step error event = some after) :
    Does error w event after := by
  cases event <;> simp only [World.step] at stepped
  case call key =>
    split at stepped <;> cases stepped
    rename_i free
    exact .call key (by simpa using free)
  case finish i _ | read i | send i | leave i | dropOwner i | check i | fail i =>
    obtain ⟨flight, there, stepped⟩ := Option.bind_eq_some_iff.mp stepped
    obtain ⟨next, moved, rfl⟩ := Option.map_eq_some_iff.mp stepped
    exact .owner i there (moves_of_step moved)
  case subscribe j | look j | wake j | dropWaiter j =>
    obtain ⟨waiter, there, stepped⟩ := Option.bind_eq_some_iff.mp stepped
    obtain ⟨flight, joined, stepped⟩ := Option.bind_eq_some_iff.mp stepped
    obtain ⟨next, waited, rfl⟩ := Option.map_eq_some_iff.mp stepped
    exact .waiter j there joined (waits_of_step waited)
  case cancel order =>
    split at stepped <;> cases stepped
    rename_i allowed
    exact .cancel order (by simpa using allowed.1) allowed.2
  case cancelNext =>
    split at stepped <;> cases stepped
    rename_i i rest under
    unfold World.cancelNext
    dsimp only
    split
    · rename_i alive
      split
      · rename_i flight there
        exact .hit i rest under alive there
      · rename_i none
        exact .miss i rest under fun _ => none
    · rename_i dead
      exact .miss i rest under fun alive => absurd alive dead
  case cancelEnd =>
    split at stepped <;> cases stepped
    rename_i under
    exact .cancelEnd under

end Steps

section Invariant

/-- What holds in every state.  An empty cell belongs to the flight its key has
in the table, or to one that the `cancel` that holds the table has yet to reach. -/
structure Sound (w : World κ ρ) : Prop where
  table : ∀ key i, w.table.lookup key = some i → ∃ flight, w.flights[i]? = some flight ∧ flight.key = key
  cleared : ∀ pending, w.cancelling = some pending → w.table = ∅
  pending : ∀ pending, w.cancelling = some pending → ∀ i ∈ pending, ∀ j ∈ pending,
    ∀ first second : Flight κ ρ, w.flights[i]? = some first → w.flights[j]? = some second →
      first.key = second.key → i = j
  empty : ∀ (i : Nat) (flight : Flight κ ρ), w.flights[i]? = some flight → flight.cell = none →
    w.table.lookup flight.key = some i ∨ ∃ pending, w.cancelling = some pending ∧ i ∈ pending
  orderly : ∀ (i : Nat) (flight : Flight κ ρ), w.flights[i]? = some flight → Orderly flight
  waiters : ∀ (j : Nat) (waiter : Waiter ρ), w.waiters[j]? = some waiter →
    ∃ flight, w.flights[waiter.flight]? = some flight ∧ Attentive waiter flight

variable {i : Nat}

theorem Sound.fresh : Sound (World.fresh : World κ ρ) where
  table key i there := by simp [World.fresh] at there
  cleared _ under := by simp [World.fresh] at under
  pending _ under := by simp [World.fresh] at under
  empty i flight there := by simp [World.fresh] at there
  orderly i flight there := by simp [World.fresh] at there
  waiters j waiter there := by simp [World.fresh] at there

omit [DecidableEq κ] in
theorem setFlight_at {flight : Flight κ ρ} (there : w.flights[i]? = some flight) (k : Nat) :
    (w.setFlight i next).flights[k]? = if k = i then some next else w.flights[k]? := by
  have inside := (List.getElem?_eq_some_iff.mp there).1
  rw [World.setFlight, List.getElem?_set]
  by_cases same : i = k
  · simp [same, same ▸ inside]
  · simp [same, Ne.symm same]

omit [DecidableEq κ] in
theorem setWaiter_at {next : Waiter ρ} (there : w.waiters[j]? = some waiter) (k : Nat) :
    (w.setWaiter j next).waiters[k]? = if k = j then some next else w.waiters[k]? := by
  have inside := (List.getElem?_eq_some_iff.mp there).1
  rw [World.setWaiter, List.getElem?_set]
  by_cases same : j = k
  · simp [same, same ▸ inside]
  · simp [same, Ne.symm same]

private theorem Sound.setFlight (sound : Sound w) {flight : Flight κ ρ}
    (cancelling : Option (List Nat)) (there : w.flights[i]? = some flight) (later : Later flight next)
    (orderly : Orderly next)
    (still : ∀ rest, cancelling = some rest → ∃ pending, w.cancelling = some pending ∧ (∀ k ∈ rest, k ∈ pending) ∧
      ∀ k ∈ pending, k ∈ rest ∨ k = i ∧ next.cell ≠ none)
    (idle : cancelling = none → w.cancelling = none) :
    Sound ({ w with cancelling := cancelling }.setFlight i next) := by
  have at_ (k : Nat) : ({ w with cancelling := cancelling }.setFlight i next).flights[k]? =
      if k = i then some next else w.flights[k]? := setFlight_at (w := { w with cancelling := cancelling }) there k
  have forth (k : Nat) (old : Flight κ ρ) (known : w.flights[k]? = some old) :
      ∃ new, (if k = i then some next else w.flights[k]?) = some new ∧ Later old new := by
    by_cases same : k = i
    · obtain rfl : flight = old := Option.some.inj (there.symm.trans (same ▸ known))
      exact ⟨next, if_pos same, later⟩
    · exact ⟨old, by rw [if_neg same, known], rfl, id, le_rfl⟩
  have back (k : Nat) (new : Flight κ ρ) (known : (if k = i then some next else w.flights[k]?) = some new) :
      ∃ old, w.flights[k]? = some old ∧ Later old new ∧ Orderly new := by
    split at known
    · rename_i same
      cases known
      exact ⟨flight, same ▸ there, later, orderly⟩
    · exact ⟨new, known, ⟨rfl, id, le_rfl⟩, sound.orderly k new known⟩
  constructor
  case table =>
    intro key k listed
    obtain ⟨old, known, same⟩ := sound.table key k listed
    obtain ⟨new, now, later⟩ := forth k old known
    exact ⟨new, (at_ k).trans now, later.key.trans same⟩
  case cleared =>
    intro rest under
    obtain ⟨pending, before, _⟩ := still rest under
    exact sound.cleared pending before
  case pending =>
    intro rest under k first m second oneAt other known also same
    obtain ⟨pending, before, fewer, _⟩ := still rest under
    obtain ⟨old, now, later, _⟩ := back k oneAt ((at_ k).symm.trans known)
    obtain ⟨last, also, newer, _⟩ := back m other ((at_ m).symm.trans also)
    exact sound.pending pending before k (fewer k first) m (fewer m second) old last now also
      (later.key.symm.trans (same.trans newer.key))
  case empty =>
    intro k new known hollow
    obtain ⟨old, now, later, _⟩ := back k new ((at_ k).symm.trans known)
    rcases sound.empty k old now (later.cell hollow) with listed | ⟨pending, before, member⟩
    · exact .inl (later.key ▸ listed)
    · cases under : cancelling with
      | none => rw [idle under] at before; cases before
      | some rest =>
        obtain ⟨same, known', fewer, more⟩ := still rest under
        obtain rfl : same = pending := Option.some.inj (known'.symm.trans before)
        rcases more k member with stays | ⟨rfl, filled⟩
        · exact .inr ⟨rest, rfl, stays⟩
        · rw [at_, if_pos rfl] at known
          cases known
          exact absurd hollow filled
  case orderly =>
    intro k new known
    obtain ⟨_, _, _, orderly⟩ := back k new ((at_ k).symm.trans known)
    exact orderly
  case waiters =>
    intro j waiter listed
    obtain ⟨old, known, attentive⟩ := sound.waiters j waiter listed
    obtain ⟨new, now, later⟩ := forth waiter.flight old known
    exact ⟨new, (at_ _).trans now, attentive.later later⟩

private theorem Sound.alive (sound : Sound w) {flight : Flight κ ρ} (there : w.flights[i]? = some flight)
    (empty : flight.cell = none) : w.alive i = true := by
  have owned := (sound.orderly i flight there).owned empty
  simp [World.alive, there, owned]

/-- The flight a call joins is in the table, and empty. -/
theorem open_iff {key : κ} (sound : Sound w) :
    w.open key = some i ↔ w.table.lookup key = some i ∧ ∃ flight, w.flights[i]? = some flight ∧
      flight.cell = none := by
  unfold World.open
  rw [Option.filter_eq_some_iff]
  refine and_congr_right fun _ => ?_
  rw [Bool.and_eq_true, Option.any_eq_true]
  constructor
  · rintro ⟨_, flight, there, empty⟩
    exact ⟨flight, there, by simpa using empty⟩
  · rintro ⟨flight, there, empty⟩
    exact ⟨sound.alive there empty, flight, there, by simp [empty]⟩

omit [DecidableEq κ] in
private theorem snoc_cases
    (there : (list ++ [last])[i]? = some found) : list[i]? = some found ∨ i = list.length ∧ last = found := by
  rcases Nat.lt_trichotomy i list.length with before | rfl | behind
  · rw [List.getElem?_append_left before] at there
    exact .inl there
  · rw [List.getElem?_concat_length] at there
    exact .inr ⟨rfl, Option.some.inj there⟩
  · rw [List.getElem?_eq_none (by simp; omega)] at there
    cases there

omit [DecidableEq κ] in
private theorem snoc_kept (there : list[i]? = some found) : (list ++ [last])[i]? = some found := by
  rw [List.getElem?_append_left (List.getElem?_eq_some_iff.mp there).1, there]

private theorem Sound.call (sound : Sound w) (key : κ) (free : w.cancelling = none) : Sound (w.call key) := by
  unfold World.call
  split
  · rename_i i joins
    obtain ⟨_, flight, there, _⟩ := (open_iff sound).mp joins
    refine { sound with waiters := fun j waiter listed => ?_ }
    rcases snoc_cases listed with listed | ⟨_, rfl⟩
    · exact sound.waiters j waiter listed
    · exact ⟨flight, there, Nat.zero_le _, nofun⟩
  · rename_i fresh
    constructor
    case table =>
      intro other i listed
      obtain ⟨same, rfl⟩ | ⟨-, listed⟩ := Hash.lookup_insert_some listed
      · exact ⟨_, List.getElem?_concat_length, same⟩
      · obtain ⟨flight, there, same⟩ := sound.table other i listed
        exact ⟨flight, snoc_kept there, same⟩
    case cleared =>
      intro pending under
      simp [free] at under
    case pending =>
      intro pending under
      simp [free] at under
    case empty =>
      intro i flight there hollow
      rcases snoc_cases there with here | ⟨rfl, rfl⟩
      · left
        rcases sound.empty i flight here hollow with listed | ⟨pending, under, _⟩
        · -- A flight that is not joined is not empty, so its key is another one.
          have apart : flight.key ≠ key := by
            rintro rfl
            rw [(open_iff sound).mpr ⟨listed, flight, here, hollow⟩] at fresh
            cases fresh
          rw [Hash.lookup_insert, if_neg apart, listed]
        · rw [free] at under
          cases under
      · left
        rw [Hash.lookup_insert, if_pos rfl]
    case orderly =>
      intro i flight there
      rcases snoc_cases there with there | ⟨rfl, rfl⟩
      · exact sound.orderly i flight there
      · exact .fresh key
    case waiters =>
      intro j waiter listed
      obtain ⟨flight, there, attentive⟩ := sound.waiters j waiter listed
      exact ⟨flight, snoc_kept there, attentive⟩

private theorem Sound.setWaiter (sound : Sound w) {next : Waiter ρ} {flight : Flight κ ρ}
    (there : w.waiters[j]? = some waiter) (joined : w.flights[waiter.flight]? = some flight)
    (waits : Waits flight waiter next) : Sound (w.setWaiter j next) := by
  refine { sound with waiters := fun k other listed => ?_ }
  rw [setWaiter_at there] at listed
  split at listed
  · cases listed
    obtain ⟨same, known, attentive⟩ := sound.waiters j waiter there
    obtain rfl : flight = same := Option.some.inj (joined.symm.trans known)
    rw [waits.flight]
    exact ⟨flight, joined, attentive.waits (sound.orderly _ _ joined) waits⟩
  · exact sound.waiters k other listed

private theorem Sound.cancel (sound : Sound w) {order : List Nat} (free : w.cancelling = none)
    (every : order.Perm w.table.values) :
    Sound { w with table := (∅ : Hash κ Nat), cancelling := some order } := by
  have member (i : Nat) : i ∈ order ↔ ∃ key, w.table.lookup key = some i := by
    rw [every.mem_iff, Hash.values, List.mem_map]
    simp only [Hash.lookup_eq_some_iff]
    exact ⟨fun ⟨entry, there, same⟩ => ⟨entry.1, same ▸ there⟩, fun ⟨key, there⟩ => ⟨⟨key, i⟩, there, rfl⟩⟩
  constructor
  case table =>
    intro key i listed
    simp at listed
  case cleared => exact fun _ _ => rfl
  case pending =>
    intro pending under i first j second one other known also same
    cases under
    obtain ⟨key, listed⟩ := (member i).mp first
    obtain ⟨last, also'⟩ := (member j).mp second
    obtain ⟨flight, there, rfl⟩ := sound.table key i listed
    obtain ⟨found, here, rfl⟩ := sound.table last j also'
    obtain rfl : flight = one := Option.some.inj (there.symm.trans known)
    obtain rfl : found = other := Option.some.inj (here.symm.trans also)
    rw [same, also'] at listed
    exact (Option.some.inj listed).symm
  case empty =>
    intro i flight there hollow
    rcases sound.empty i flight there hollow with listed | ⟨pending, under, _⟩
    · exact .inr ⟨order, rfl, (member i).mpr ⟨flight.key, listed⟩⟩
    · rw [free] at under
      cases under
  case orderly => exact sound.orderly
  case waiters => exact sound.waiters

theorem Sound.step (sound : Sound w) (stepped : w.step error event = some after) : Sound after := by
  cases does_of_step stepped with
  | call key free => exact sound.call key free
  | owner i there moves =>
    exact sound.setFlight w.cancelling there moves.later ((sound.orderly i _ there).moves moves)
      (fun rest under => ⟨rest, under, fun _ => id, fun _ => .inl⟩) id
  | waiter j there joined waits => exact sound.setWaiter there joined waits
  | cancel order free every => exact sound.cancel free every
  | @hit i rest flight under alive there =>
    refine sound.setFlight (some rest) there ⟨rfl, nofun, Nat.le_succ _⟩
      (.written rfl (Nat.succ_ne_zero _) fun _ => rfl) (fun left same => ?_) nofun
    cases same
    refine ⟨i :: rest, under, fun k => List.mem_cons_of_mem i, fun k member => ?_⟩
    rcases List.mem_cons.mp member with same | member
    · exact .inr ⟨same, nofun⟩
    · exact .inl member
  | miss i rest under gone =>
    have cleared := sound.cleared _ under
    refine ⟨sound.table, fun _ _ => cleared, ?_, ?_, sound.orderly, sound.waiters⟩
    · intro left same k first m second
      cases same
      exact sound.pending _ under k (List.mem_cons_of_mem i first) m (List.mem_cons_of_mem i second)
    · intro k flight there hollow
      rcases sound.empty k flight there hollow with listed | ⟨pending, before, member⟩
      · exact .inl listed
      · obtain rfl : i :: rest = pending := Option.some.inj (under.symm.trans before)
        rcases List.mem_cons.mp member with rfl | member
        · -- Its owner would still hold it.
          have none := gone (sound.alive there hollow)
          rw [there] at none
          cases none
        · exact .inr ⟨rest, rfl, member⟩
  | cancelEnd under =>
    refine ⟨sound.table, nofun, nofun, fun k flight there hollow => ?_, sound.orderly, sound.waiters⟩
    rcases sound.empty k flight there hollow with listed | ⟨pending, before, member⟩
    · exact .inl listed
    · rw [under] at before
      cases before
      cases member

/-- A key has at most one flight whose cell is empty. -/
theorem Sound.single (sound : Sound w) {first second : Flight κ ρ}
    (there : w.flights[i]? = some first) (also : w.flights[j]? = some second)
    (same : first.key = second.key) (hollow : first.cell = none) (empty : second.cell = none) : i = j := by
  rcases sound.empty i first there hollow with listed | ⟨pending, under, member⟩
  · rcases sound.empty j second also empty with other | ⟨pending, under, member⟩
    · rw [same, other] at listed
      exact (Option.some.inj listed).symm
    · rw [sound.cleared _ under] at listed
      simp at listed
  · rcases sound.empty j second also empty with other | ⟨others, before, last⟩
    · rw [sound.cleared _ under] at other
      simp at other
    · obtain rfl : pending = others := Option.some.inj (under.symm.trans before)
      exact sound.pending pending under i member j last first second there also same

end Invariant

section Agreement

/-- The flight may give its callers this result: the callback's, or the error of
a `cancel` that has reached it. -/
def Owes (error : ρ) (flight : Flight κ ρ) (result : ρ) : Prop :=
  flight.result = some result ∨ result = error ∧ flight.hit = true

/-- No write to the cell disagrees with what the owner has in hand. -/
def Agreed (error : ρ) (flight : Flight κ ρ) : Prop :=
  match flight.stage with
  | .running => flight.result = none ∧ (flight.cell = none ∨ flight.cell = some error ∧ flight.hit = true)
  | .returned result =>
    flight.result = some result ∧ (flight.cell = none ∨ flight.cell = some error ∧ flight.hit = true)
  | .read result => Owes error flight result ∧ (flight.cell = none ∨ flight.cell = some result)
  | .sent result | .done result => Owes error flight result ∧ flight.cell = some result
  | .dropping | .failing => flight.cell = none ∨ flight.cell = some error
  | .dropped => flight.cell = some error

/-- `cancel` sends to no flight whose owner has its result in hand, unless that
is the error too. -/
def Careful (error : ρ) (w : World κ ρ) : Event κ ρ → Prop
  | .cancelNext => ∀ i rest flight, w.cancelling = some (i :: rest) → w.alive i = true →
      w.flights[i]? = some flight →
      ∀ result, flight.stage = .read result ∨ flight.stage = .sent result ∨ flight.stage = .done result →
        result = error
  | _ => True

omit [DecidableEq κ]

theorem Agreed.moves {flight : Flight κ ρ} (agreed : Agreed error flight) (moves : Moves error flight next) :
    Agreed error next ∧ ∀ result, flight.cell = some result → next.cell = some result := by
  cases moves with
  | finish result running =>
    simp only [Agreed, running] at agreed
    exact ⟨⟨rfl, agreed.2⟩, fun _ => id⟩
  | read result returned =>
    simp only [Agreed, returned] at agreed
    obtain ⟨same, none | ⟨filled, hit⟩⟩ := agreed
    · exact ⟨⟨.inl (by simp [same, none]), .inl none⟩, fun _ => id⟩
    · exact ⟨⟨.inr ⟨by simp [filled], hit⟩, .inr (by simp [filled])⟩, fun _ => id⟩
  | send result read =>
    simp only [Agreed, read] at agreed
    obtain ⟨owes, known⟩ := agreed
    refine ⟨⟨owes, rfl⟩, fun other filled => ?_⟩
    rcases known with none | same
    · rw [none] at filled
      cases filled
    · rw [same] at filled
      exact filled
  | leave result sent =>
    simp only [Agreed, sent] at agreed
    exact ⟨agreed, fun _ => id⟩
  | drop running =>
    simp only [Agreed, running] at agreed
    exact ⟨agreed.2.imp id And.left, fun _ => id⟩
  | empty dropping unfilled => exact ⟨.inl unfilled, fun _ => id⟩
  | filled dropping filled =>
    simp only [Agreed, dropping] at agreed
    exact ⟨agreed.resolve_left filled, fun _ => id⟩
  | fail failing =>
    simp only [Agreed, failing] at agreed
    refine ⟨rfl, fun other filled => ?_⟩
    rcases agreed with none | same
    · rw [none] at filled
      cases filled
    · rw [same] at filled
      exact filled

private theorem Agreed.open {flight : Flight κ ρ} (agreed : Agreed error flight)
    (careful : ∀ result, flight.stage = .read result ∨ flight.stage = .sent result ∨
      flight.stage = .done result → result = error) :
    flight.cell = none ∨ flight.cell = some error := by
  cases stage : flight.stage with
  | running | returned =>
    simp only [Agreed, stage] at agreed
    exact agreed.2.imp id And.left
  | read result =>
    simp only [Agreed, stage] at agreed
    exact careful result (.inl stage) ▸ agreed.2
  | sent result =>
    simp only [Agreed, stage] at agreed
    exact .inr (careful result (.inr (.inl stage)) ▸ agreed.2)
  | done result =>
    simp only [Agreed, stage] at agreed
    exact .inr (careful result (.inr (.inr stage)) ▸ agreed.2)
  | dropping | failing =>
    simp only [Agreed, stage] at agreed
    exact agreed
  | dropped =>
    simp only [Agreed, stage] at agreed
    exact .inr agreed

theorem Agreed.hit {flight : Flight κ ρ} (agreed : Agreed error flight)
    (careful : ∀ result, flight.stage = .read result ∨ flight.stage = .sent result ∨
      flight.stage = .done result → result = error) :
    Agreed error { flight.send error with hit := true } ∧
      ∀ result, flight.cell = some result → result = error := by
  constructor
  · unfold Agreed at agreed ⊢
    cases stage : flight.stage with
    | running | returned =>
      simp only [stage] at agreed
      simpa [Flight.send, stage] using agreed.1
    | read result => simp [Flight.send, stage, Owes, careful result (.inl stage)]
    | sent result => simp [Flight.send, stage, Owes, careful result (.inr (.inl stage))]
    | done result => simp [Flight.send, stage, Owes, careful result (.inr (.inr stage))]
    | dropping | failing | dropped => simp [Flight.send, stage]
  · intro result filled
    rcases agreed.open careful with none | same
    · rw [none] at filled
      cases filled
    · rw [same] at filled
      exact (Option.some.inj filled).symm

end Agreement

/-- Every flight agrees with what its callers were told. -/
structure Agreeing (error : ρ) (w : World κ ρ) : Prop where
  flights : ∀ (i : Nat) (flight : Flight κ ρ), w.flights[i]? = some flight → Agreed error flight
  told : ∀ (j : Nat) (waiter : Waiter ρ) (result : ρ), w.waiters[j]? = some waiter →
    waiter.wait = .done result →
    ∃ flight, w.flights[waiter.flight]? = some flight ∧ flight.cell = some result

omit [DecidableEq κ] in
private theorem Agreeing.setFlight (agreeing : Agreeing error w) {flight : Flight κ ρ}
    (there : w.flights[i]? = some flight) (agreed : Agreed error next)
    (kept : ∀ result, flight.cell = some result → next.cell = some result) : Agreeing error (w.setFlight i next) := by
  constructor
  · intro k other known
    rw [setFlight_at there] at known
    split at known
    · cases known
      exact agreed
    · exact agreeing.flights k other known
  · intro j waiter result listed done
    obtain ⟨old, known, filled⟩ := agreeing.told j waiter result listed done
    rw [setFlight_at there]
    split
    · rename_i same
      obtain rfl : flight = old := Option.some.inj (there.symm.trans (same ▸ known))
      exact ⟨next, rfl, kept result filled⟩
    · exact ⟨old, known, filled⟩

theorem Agreeing.step (agreeing : Agreeing error w) (careful : Careful error w event)
    (stepped : w.step error event = some after) : Agreeing error after := by
  cases does_of_step stepped with
  | call key free =>
    unfold World.call
    split
    · refine { agreeing with told := fun j waiter result listed done => ?_ }
      rcases snoc_cases listed with listed | ⟨_, rfl⟩
      · exact agreeing.told j waiter result listed done
      · cases done
    · constructor
      · intro i flight there
        rcases snoc_cases there with there | ⟨_, rfl⟩
        · exact agreeing.flights i flight there
        · exact ⟨rfl, .inl rfl⟩
      · intro j waiter result listed done
        obtain ⟨flight, there, filled⟩ := agreeing.told j waiter result listed done
        exact ⟨flight, snoc_kept there, filled⟩
  | owner i there moves =>
    obtain ⟨agreed, kept⟩ := (agreeing.flights i _ there).moves moves
    exact agreeing.setFlight there agreed kept
  | waiter j there joined waits =>
    refine { agreeing with told := fun k other result listed done => ?_ }
    rw [setWaiter_at there] at listed
    split at listed
    · cases listed
      cases waits with
      | take answer looking filled =>
        cases done
        exact ⟨_, joined, filled⟩
      | subscribe | sleep | wake | drop => cases done
    · exact agreeing.told k other result listed done
  | hit i rest under alive there =>
    obtain ⟨agreed, same⟩ := (agreeing.flights i _ there).hit (careful i rest _ under alive there)
    refine Agreeing.setFlight (w := { w with cancelling := some rest })
      ⟨agreeing.flights, agreeing.told⟩ there agreed fun result filled => ?_
    rw [same result filled]
    rfl
  | cancel | miss | cancelEnd => exact ⟨agreeing.flights, agreeing.told⟩

/-- A caller of the flight has been given the result. -/
def Given (w : World κ ρ) (i : Nat) (result : ρ) : Prop :=
  (∃ flight, w.flights[i]? = some flight ∧ flight.stage = .done result) ∨
    ∃ waiter ∈ w.waiters, waiter.flight = i ∧ waiter.wait = .done result

/-- The result is the callback's, or the error of a flight that was cancelled or
whose owner was dropped. -/
def Rightful (error : ρ) (flight : Flight κ ρ) (result : ρ) : Prop :=
  flight.result = some result ∨ result = error ∧
    (flight.hit = true ∨ flight.stage = .dropping ∨ flight.stage = .failing ∨ flight.stage = .dropped)

omit [DecidableEq κ] in
private theorem Agreed.rightful {flight : Flight κ ρ} (agreed : Agreed error flight)
    (filled : flight.cell = some result) : Rightful error flight result := by
  unfold Agreed at agreed
  unfold Rightful
  cases stage : flight.stage with
  | running | returned =>
    simp only [stage, filled] at agreed
    simp_all
  | read | sent | done =>
    simp only [stage, filled] at agreed
    unfold Owes at agreed
    simp_all
  | dropping | failing | dropped =>
    simp only [stage, filled] at agreed
    simp_all

omit [DecidableEq κ] in
private theorem Agreeing.given (agreeing : Agreeing error w) (given : Given w i result) :
    ∃ flight, w.flights[i]? = some flight ∧ flight.cell = some result ∧ Rightful error flight result := by
  rcases given with ⟨flight, there, done⟩ | ⟨waiter, listed, rfl, done⟩
  · have agreed := agreeing.flights i flight there
    have filled : flight.cell = some result := by
      simp only [Agreed, done] at agreed
      exact agreed.2
    exact ⟨flight, there, filled, agreed.rightful filled⟩
  · obtain ⟨j, found⟩ := List.mem_iff_getElem?.mp listed
    obtain ⟨flight, there, filled⟩ := agreeing.told j waiter result found done
    exact ⟨flight, there, filled, (agreeing.flights _ flight there).rightful filled⟩

section Progress

/-- The steps an owner has left. -/
def Stage.left : Stage ρ → Nat
  | .running => 5
  | .returned _ => 4
  | .read _ => 3
  | .sent _ => 2
  | .dropping => 3
  | .failing => 2
  | .done _ | .dropped => 0

/-- The steps a waiter has left at most, with the cell filled or not. -/
def Wait.left (filled : Bool) : Wait ρ → Nat
  | .joined => 4
  | .looking => if filled then 1 else 3
  | .waiting => 2
  | .done _ | .dropped => 0

def filled (w : World κ ρ) (i : Nat) : Bool := w.flights[i]?.any (·.cell.isSome)

/-- The steps that are left to all callers and to a `cancel` under way. -/
def left (w : World κ ρ) : Nat :=
  (w.flights.map fun flight => Stage.left flight.stage).sum +
    (w.waiters.map fun waiter => Wait.left (filled w waiter.flight) waiter.wait).sum +
    (w.cancelling.elim 0 fun pending => pending.length + 1)

/-- A step of those who are there: no new call and no new `cancel`. -/
def Internal : Event κ ρ → Prop
  | .call _ | .cancel _ => False
  | _ => True

omit [DecidableEq κ]

private theorem sum_set {old : α} (there : list[i]? = some old) (new : α)
    (weight : α → Nat) : ((list.set i new).map weight).sum + weight old = (list.map weight).sum + weight new := by
  induction list generalizing i with
  | nil => simp at there
  | cons head rest ih =>
    cases i with
    | zero =>
      cases there
      simp
      omega
    | succ i =>
      have tail := ih (i := i) (by simpa using there)
      simp only [List.set_cons_succ, List.map_cons, List.sum_cons]
      omega

private theorem Moves.less {flight : Flight κ ρ} (moves : Moves error flight next) :
    Stage.left next.stage < Stage.left flight.stage := by
  cases moves with
  | finish _ stage | read _ stage | send _ stage | leave _ stage | drop stage | empty stage | filled stage
  | fail stage => simp [Stage.left, stage]

private theorem Wait.left_mono {before after : Bool} (more : before = true → after = true) (wait : Wait ρ) :
    Wait.left after wait ≤ Wait.left before wait := by
  cases wait <;> cases before <;> cases after <;> simp_all [Wait.left]

/-- A flight that goes on leaves its waiters no more steps. -/
private theorem waiters_left_mono {flight : Flight κ ρ} (next : Flight κ ρ) (there : w.flights[i]? = some flight)
    (kept : next.cell = none → flight.cell = none) :
    (w.waiters.map fun waiter => Wait.left (filled (w.setFlight i next) waiter.flight) waiter.wait).sum ≤
      (w.waiters.map fun waiter => Wait.left (filled w waiter.flight) waiter.wait).sum := by
  refine List.sum_le_sum fun waiter _ => Wait.left_mono (fun before => ?_) waiter.wait
  rw [filled, setFlight_at there]
  split
  · rename_i same
    rw [filled, same, there] at before
    cases found : next.cell with
    | none => simp [kept found] at before
    | some result => simp [found]
  · exact before

private theorem Waits.less {flight : Flight κ ρ} {next : Waiter ρ} (attentive : Attentive waiter flight)
    (orderly : Orderly flight) (waits : Waits flight waiter next) :
    Wait.left flight.cell.isSome next.wait < Wait.left flight.cell.isSome waiter.wait := by
  cases waits with
  | subscribe joined =>
    rw [joined]
    simp only [Wait.left]
    split <;> omega
  | take result looking filled => simp [looking, Wait.left, filled]
  | sleep looking empty => simp [looking, Wait.left, empty]
  | wake waiting written =>
    -- It has seen no write, so there is one now.
    rw [attentive.unseen waiting] at written
    have filled : flight.cell.isSome := by
      rw [← Option.ne_none_iff_isSome]
      exact fun empty => written (orderly.unwritten.mp empty)
    simp [waiting, Wait.left, filled]
  | drop here =>
    cases stage : waiter.wait with
    | joined | waiting => simp [Wait.left]
    | looking =>
      simp only [Wait.left]
      split <;> omega
    | done | dropped => simp [stage, Wait.holds] at here

end Progress

section Ends

theorem Sound.less (sound : Sound w) (internal : Internal event)
    (stepped : w.step error event = some after) : left after < left w := by
  cases does_of_step stepped with
  | call | cancel => cases internal
  | @owner _ i flight next there moves =>
    have owners := sum_set there next fun flight => Stage.left flight.stage
    have waiters := waiters_left_mono next there moves.later.cell
    have fewer := moves.less
    simp only [left, World.setFlight] at waiters ⊢
    omega
  | @waiter _ j waiter next flight there joined waits =>
    obtain ⟨same, known, attentive⟩ := sound.waiters j waiter there
    obtain rfl : flight = same := Option.some.inj (joined.symm.trans known)
    have fewer := waits.less attentive (sound.orderly _ _ joined)
    have full : filled w waiter.flight = flight.cell.isSome := by simp [filled, joined]
    have waiters := sum_set there next fun waiter => Wait.left (filled w waiter.flight) waiter.wait
    simp only [waits.flight, full] at waiters
    have frame (i : Nat) : filled (w.setWaiter j next) i = filled w i := rfl
    simp only [left, frame]
    simp only [World.setWaiter]
    omega
  | @hit i rest flight under alive there =>
    have owners := sum_set there { flight.send error with hit := true } fun flight => Stage.left flight.stage
    have waiters := waiters_left_mono { flight.send error with hit := true } there nofun
    simp only [left, under, World.setFlight, Option.elim_some, List.length_cons] at waiters owners ⊢
    simp only [Flight.send] at waiters owners ⊢
    simp only [filled] at waiters ⊢
    omega
  | miss i rest under gone =>
    have frame (k : Nat) : filled { w with cancelling := some rest } k = filled w k := rfl
    simp only [left, under, frame, Option.elim_some, List.length_cons]
    omega
  | cancelEnd under =>
    have frame (k : Nat) : filled { w with cancelling := none } k = filled w k := rfl
    simp only [left, under, frame, Option.elim_some, Option.elim_none, List.length_nil]
    omega

/-- A caller that has joined a flight and not returned has a step, or the owner
of its flight has one. -/
theorem Sound.goes_on (error : ρ) (sound : Sound w) (there : w.waiters[j]? = some waiter)
    (here : waiter.wait.holds = true) :
    (∃ event ∈ [Event.subscribe j, .look j, .wake j], (w.step error event).isSome) ∨
    ∃ flight, w.flights[waiter.flight]? = some flight ∧ flight.stage.holds ∧
      ∃ event ∈ [Event.finish waiter.flight error, .read waiter.flight, .send waiter.flight,
        .leave waiter.flight, .check waiter.flight, .fail waiter.flight], (w.step error event).isSome := by
  obtain ⟨flight, joined, attentive⟩ := sound.waiters j waiter there
  have orderly := sound.orderly _ flight joined
  cases stage : waiter.wait with
  | joined => exact .inl ⟨.subscribe j, by simp, by simp [World.step, there, joined, Waiter.step, stage]⟩
  | looking =>
    refine .inl ⟨.look j, by simp, ?_⟩
    cases found : flight.cell <;> simp [World.step, there, joined, Waiter.step, stage, found]
  | waiting =>
    by_cases empty : flight.cell = none
    · have held := orderly.owned empty
      refine .inr ⟨flight, joined, held, ?_⟩
      cases owner : flight.stage with
      | running =>
        exact ⟨.finish waiter.flight error, by simp, by simp [World.step, joined, Flight.step, owner]⟩
      | returned => exact ⟨.read waiter.flight, by simp, by simp [World.step, joined, Flight.step, owner]⟩
      | read => exact ⟨.send waiter.flight, by simp, by simp [World.step, joined, Flight.step, owner]⟩
      | sent => exact ⟨.leave waiter.flight, by simp, by simp [World.step, joined, Flight.step, owner]⟩
      | dropping => exact ⟨.check waiter.flight, by simp, by simp [World.step, joined, Flight.step, owner]⟩
      | failing => exact ⟨.fail waiter.flight, by simp, by simp [World.step, joined, Flight.step, owner]⟩
      | done | dropped => simp [owner, Stage.holds] at held
    · refine .inl ⟨.wake j, by simp, ?_⟩
      have written : flight.version ≠ waiter.seen := by
        rw [attentive.unseen stage]
        exact fun none => empty (orderly.unwritten.mpr none)
      simp [World.step, there, joined, Waiter.step, stage, written]
  | done | dropped => simp [stage, Wait.holds] at here

/-- The states that calls, cancels and dropped futures lead to. -/
def Reachable (error : ρ) : World κ ρ → Prop :=
  Reach (fun w => w = .fresh) (fun _ _ => True) fun w event after => w.step error event = some after

theorem Reachable.sound (reached : Reachable error w) : Sound w :=
  reached.invariant (fun _ start => start ▸ Sound.fresh) fun _ _ _ sound _ stepped => sound.step stepped

/-- A run without new calls and cancels has as many steps as are left at most. -/
private theorem Sound.finite {events : List (Event κ ρ)} (sound : Sound w)
    (run : Follows (fun w event after => w.step error event = some after) w events after)
    (internal : ∀ event ∈ events, Internal event) : Sound after ∧ events.length ≤ left w := by
  have start : Sound w ∧ ([] : List (Event κ ρ)).length + left w ≤ left w := ⟨sound, by simp⟩
  have tracked := run.tracks (fun seen now => Sound now ∧ seen.length + left now ≤ left w)
    (fun seen event now next member held stepped => ?_) start
  · exact ⟨tracked.1, Nat.le_trans (Nat.le_add_right ..) tracked.2⟩
  · have fewer := held.1.less (internal event member) stepped
    refine ⟨held.1.step stepped, ?_⟩
    rw [List.length_append, List.length_singleton]
    omega

/-- In every state: a key has one running callback that was not cancelled.  The
callers that are there, with callbacks that return, come to an end after finitely
many steps, and then every caller that has joined a flight has returned (or was
dropped).  And where `cancel` has only sent to flights whose result was open, all
callers of a flight have been given one result. -/
theorem tasks_share_flights (reached : Reachable error w) :
    (∀ (i j : Nat) (first second : Flight κ ρ), w.flights[i]? = some first → w.flights[j]? = some second →
      first.key = second.key → first.stage = .running → second.stage = .running →
      first.hit = false → second.hit = false → i = j) ∧
    (∀ (events : List (Event κ ρ)) (after : World κ ρ),
      Follows (fun w event after => w.step error event = some after) w events after →
      (∀ event ∈ events, Internal event) → events.length ≤ left w ∧
      ((∀ event, Internal event → after.step error event = none) →
        ∀ waiter ∈ after.waiters, waiter.wait.holds = false)) ∧
    (Reach (fun w => w = .fresh) (Careful error) (fun w event after => w.step error event = some after) w →
      ∀ i first second, Given w i first → Given w i second →
        first = second ∧ ∃ flight, w.flights[i]? = some flight ∧ Rightful error flight first) := by
  have sound := reached.sound
  refine ⟨fun i j first second there also same running going early open_ => ?_,
    fun events after run internal => ?_, fun careful i first second given told => ?_⟩
  · exact sound.single there also same ((sound.orderly i first there).early running early)
      ((sound.orderly j second also).early going open_)
  · obtain ⟨kept, few⟩ := sound.finite run internal
    refine ⟨few, fun quiet waiter listed => ?_⟩
    obtain ⟨j, there⟩ := List.mem_iff_getElem?.mp listed
    by_contra here
    rcases kept.goes_on error there (by simpa using here) with
      ⟨event, member, able⟩ | ⟨flight, _, _, event, member, able⟩
    · have stuck := quiet event (by simp at member; rcases member with rfl | rfl | rfl <;> trivial)
      rw [stuck] at able
      cases able
    · have stuck := quiet event
        (by simp at member; rcases member with rfl | rfl | rfl | rfl | rfl | rfl <;> trivial)
      rw [stuck] at able
      cases able
  · have agreeing : Agreeing error w := careful.invariant
      (fun _ start => start ▸ ⟨fun i flight there => by simp [World.fresh] at there,
        fun j waiter result there => by simp [World.fresh] at there⟩)
      fun _ _ _ agreeing careful stepped => agreeing.step careful stepped
    obtain ⟨flight, there, filled, rightful⟩ := agreeing.given given
    obtain ⟨same, known, also, _⟩ := agreeing.given told
    obtain rfl : flight = same := Option.some.inj (there.symm.trans known)
    exact ⟨Option.some.inj (filled.symm.trans also), flight, there, rightful⟩

/-- A flight that is cancelled while its callback runs gives both callers the error. -/
theorem cancelled_flight_agrees : ∃ w : World Nat String, Given w 0 "session task cancelled" ∧
    ∀ first second, Given w 0 first → Given w 0 second → first = second := by
  have start : Reach (fun w => w = .fresh) (Careful "session task cancelled")
      (fun (w : World Nat String) event after => w.step "session task cancelled" event = some after) .fresh :=
    .start rfl
  have owned := start.next (a := (.call 7 : Event Nat String)) trivial rfl
  have joined := owned.next (a := (.call 7 : Event Nat String)) trivial rfl
  have taken := joined.next (a := (.cancel [0] : Event Nat String)) trivial rfl
  have hit := taken.next (a := (.cancelNext : Event Nat String)) (fun i rest flight under _ there result stage => by
    cases under
    cases there
    simp at stage) rfl
  have cancelled := hit.next (a := (.cancelEnd : Event Nat String)) trivial rfl
  have subscribed := cancelled.next (a := (.subscribe 0 : Event Nat String)) trivial rfl
  have told := subscribed.next (a := (.look 0 : Event Nat String)) trivial rfl
  exact ⟨_, .inr ⟨_, List.mem_singleton_self _, rfl, rfl⟩, fun first second given other =>
    ((tasks_share_flights (told.weaken fun _ _ _ => trivial)).2.2 told 0 first second given other).1⟩

/-- `cancel` comes after the owner has returned, and before a caller that has
joined looks at the cell. -/
theorem cancel_overwrites_result : ∃ w : World Nat String, Reachable "session task cancelled" w ∧
    Given w 0 "value" ∧ Given w 0 "session task cancelled" := by
  have start : Reachable "session task cancelled" (World.fresh : World Nat String) := .start rfl
  have reached := start.play [.call 7, .call 7, .finish 0 "value", .read 0, .send 0, .leave 0, .cancel [0],
    .cancelNext, .cancelEnd, .subscribe 0, .look 0] rfl
  exact ⟨_, reached, .inl ⟨_, rfl, rfl⟩, .inr ⟨_, List.mem_singleton_self _, rfl, rfl⟩⟩

end Ends

end Qcm.SessionTaskProofs
