import Qcm.Lib.Fallible
import Qcm.SyncRetentionProofs

/-!
When `finalize` deletes an item.  A run keeps a ledger of its own calls, and the
write lock with its revision keeps one of everybody else's writes; both are read
off the events since the run started.
-/

namespace Qcm.SyncRunProofs

open Lib Lib.Runs SyncDatabase SyncBatch SyncCoordinator SyncRetentionProofs

/-- What a step can do to the lock and the counters of one provider. -/
inductive Move (w : World) (p : Int) : Event → ProviderState → Prop where
  | still {event : Event} {state : ProviderState} (guard : state.guard = (w.providers p).guard)
      (revision : state.revision = (w.providers p).revision)
      (active : state.active = (w.providers p).active)
      (sequence : state.sequence = (w.providers p).sequence)
      (favorites : state.favorites = (w.providers p).favorites)
      (overflow : state.favoriteOverflow = (w.providers p).favoriteOverflow) : Move w p event state
  | acquire {origin : Option Nat} (free : (w.providers p).guard = none)
      (live : ∀ token, origin = some token → (w.providers p).active = token) :
      Move w p (.acquired p origin) ((w.providers p).acquire origin none)
  | enter {k : Nat} {caller : Caller} {op : Op} {run : SyncRun} (there : w.runs k = some run)
      (mine : run.provider = p) (free : (w.providers p).guard = none)
      (live : (w.providers p).active = run.token) :
      Move w p (.entered k caller op) ((w.providers p).acquire (some run.token) (some k))
  | release {event : Event} {active : Nat} (less : active = (w.providers p).active ∨ active = 0) :
      Move w p event { (w.providers p).release with active := active }
  | quit {event : Event} : Move w p event { w.providers p with active := 0 }
  | stamp {guard : Guard} {id : Int} (held : (w.providers p).guard = some guard) :
      Move w p (.stamped p id) ((w.providers p).favorite guard id)
  | read {guard : Guard} (held : (w.providers p).guard = some guard) :
      Move w p (.readRetained p)
        { w.providers p with guard := some (guard.readRetained (w.providers p)) }
  | start {k : Nat} (free : (w.providers p).guard = none) (idle : (w.providers p).active = 0) :
      Move w p (.started p k) { w.providers p with
        sequence := (w.providers p).sequence + 1
        active := (w.providers p).sequence + 1
        favorites := ∅
        favoriteOverflow := 0 }

variable {owner : Int → Int} {w after : World} {k : Nat}

theorem Move.stay (w : World) (p : Int) (event : Event) : Move w p event (w.providers p) :=
  .still rfl rfl rfl rfl rfl rfl

section Moves

variable {w : World} {p q : Int} {event : Event}

private theorem Move.set {state : ProviderState} (move : Move w p event state) :
    Move w q event ((w.setProvider p state).providers q) := by
  rw [setProvider_providers]
  split
  · rename_i same
    exact same ▸ move
  · exact .stay w q event

private theorem Move.releaseFor (k : Nat) : Move w q event ((w.releaseFor p k).providers q) := by
  rcases releaseFor_providers (w := w) (p := p) (q := q) (k := k) with same | ⟨_, _, _, _, released⟩
  · rw [same]
    exact .stay w q event
  · rw [released]
    exact .release (.inl rfl)

private theorem Move.cancel (token : Nat) : Move w p event ((w.providers p).cancel token) := by
  unfold ProviderState.cancel
  split
  · exact .quit
  · exact .stay w p event

private theorem Move.table (retained : Hash Int Nat) :
    Move w q event ((w.setProvider p { w.providers p with retained := retained }).providers q) := by
  have move : Move w p event { w.providers p with retained := retained } :=
    .still rfl rfl rfl rfl rfl rfl
  exact move.set

end Moves

variable {event : Event}

theorem step_moves (step : Step owner w event after) (p : Int) : Move w p event (after.providers p) := by
  cases step with
  | acquire free live => exact (Move.acquire free live).set
  | release held outside => exact (Move.release (.inl rfl)).set
  | write held outside owned => exact .stay w p _
  | stamp held outside => exact (Move.stamp held).set
  | setFavorite held outside foreign stamped mine => exact .stay w p _
  | invalidateSync held outside => exact Move.quit.set
  | readRetained held => exact (Move.read held).set
  | dropBefore held outside foreign surveyed => exact .stay w p _
  | start free idle => exact (Move.start free idle).set
  | cancel => exact (Move.cancel _).set
  | retain free collected | forget live => exact Move.table _
  | advance | bind there idle | fail there idle | request there idle done | refuse there idle refused
  | begin there idle waits passed => exact .stay w p _
  | enter there waiting guarded free live fits => exact (Move.enter there rfl free live).set
  | conflict there waiting free live foreign | observeLibrary there waiting found
  | refuseLibrary there waiting refused | returnLibraries there waiting => exact .stay w p _
  | observeItems there inside resolved | refuseItems there inside refused
  | commitBatch there inside written current live | excess there inside many => exact .releaseFor _
  | finalize there inside held mine surveyed few fewLibraries current live =>
    exact (Move.release (.inr rfl)).set
  | interrupt there busy | abandon there busy => exact .releaseFor _
  | drop there idle => exact (Move.cancel _).set

/-- The run an event is about. -/
def Event.about : Event → Option Nat
  | .bound k _ => some k
  | .failed k => some k
  | .requested k _ => some k
  | .refused k _ _ _ => some k
  | .began k _ _ => some k
  | .entered k _ _ => some k
  | .observedLibrary k _ => some k
  | .observedItems k _ _ => some k
  | .batched _ k _ => some k
  | .finalized _ k _ => some k
  | .returned k => some k
  | .abandoned k => some k
  | .dropped k => some k
  | _ => none

theorem step_elsewhere (step : Step owner w event after) (apart : Event.about event ≠ some k) :
    after.runs k = w.runs k ∨ k = w.started ∧ ∃ p, event = .started p k ∧
      after.runs k = some (SyncRun.fresh p ((w.providers p).sequence + 1) (w.providers p).revision) := by
  cases step with
  | @start p free idle =>
    show Function.update w.runs w.started _ k = w.runs k ∨ _
    by_cases same : k = w.started
    · subst same
      exact .inr ⟨rfl, p, rfl, Function.update_self ..⟩
    · exact .inl (Function.update_of_ne same _ _)
  | _ =>
    left
    first
      | rfl
      | (simp only [Event.about, ne_eq, Option.some.injEq] at apart
         simp [Ne.symm apart])

section Calls

variable {run next : SyncRun} {cells : Nat → Nat} {active : Nat}

theorem running_ok (running : run.running cells active = .ok ()) :
    run.failed = false ∧ run.sealed = false ∧ active = run.token := by
  obtain ⟨_, _, rest⟩ := bind_ok.mp running
  split at rest
  · cases rest
  · rename_i usable
    simpa [and_assoc] using usable

/-- What a call that does not wait changes, and what it found. -/
inductive Granted (run : SyncRun) : Request → SyncRun → Prop where
  | declare {scopes : List SyncScope} {required : List ItemType} (first : run.declared = false) :
      Granted run (.declare scopes required) { run with scopes := scopes.toFinset, declared := true }
  | completeLibraries : Granted run .completeLibraries { run with librariesComplete := true }
  | complete {scope : SyncScope} (declared : scope ∈ run.scopes) :
      Granted run (.complete scope) { run with completed := insert scope run.completed }
  | sealing (declared : run.declared = true) (libraries : run.librariesComplete = true)
      (whole : run.completed = run.scopes) : Granted run .sealing { run with sealed := true }

theorem request_ok {request : Request} (done : run.request cells active request = .ok next) :
    run.running cells active = .ok () ∧ Granted run request next := by
  cases request with
  | declare scopes required =>
    obtain ⟨_, running, rest⟩ := bind_ok.mp done
    refine ⟨running, ?_⟩
    split at rest
    · cases rest
    rename_i first
    split at rest
    · cases rest
    obtain ⟨_, _, rest⟩ := bind_ok.mp rest
    split at rest
    · cases rest
    split at rest
    · cases rest
    cases rest
    exact .declare (by simpa using first)
  | completeLibraries =>
    obtain ⟨_, running, rest⟩ := bind_ok.mp done
    cases rest
    exact ⟨running, .completeLibraries⟩
  | complete scope =>
    obtain ⟨_, running, rest⟩ := bind_ok.mp done
    refine ⟨running, ?_⟩
    split at rest <;> cases rest
    rename_i declared
    exact .complete (not_not.mp declared)
  | sealing =>
    obtain ⟨_, running, rest⟩ := bind_ok.mp done
    refine ⟨running, ?_⟩
    split at rest <;> cases rest
    rename_i ready
    simp only [Bool.or_eq_true, Bool.not_eq_true', decide_eq_true_eq, not_or, Bool.not_eq_false,
      not_not] at ready
    exact .sealing ready.1.1 ready.1.2 ready.2

theorem observeLibrary_ok {db : Database} {id : Int} (found : run.observeLibrary db id = .ok next) :
    next = { run with libraries := insert id run.libraries } := by
  unfold SyncRun.observeLibrary at found
  split at found
  · cases found
  · split at found
    · cases found
    · exact (Except.ok.inj found).symm

theorem beginFinalize_ok (ready : run.beginFinalize = .ok ()) : run.failed = false ∧ run.sealed = true := by
  unfold SyncRun.beginFinalize at ready
  split at ready
  · cases ready
  · rename_i usable
    simpa using usable

end Calls

/-- What a step about a run does to it. -/
inductive RunMove (w : World) (k : Nat) (run : SyncRun) : Event → SyncRun → Prop where
  | bind {cell : Nat} (idle : run.call = .idle) :
      RunMove w k run (.bound k cell) { run with generation := some (cell, w.cells cell) }
  | fail (idle : run.call = .idle) : RunMove w k run (.failed k) { run with failed := true }
  | request {request : Request} {next : SyncRun} (idle : run.call = .idle)
      (running : run.running w.cells (w.providers run.provider).active = .ok ())
      (granted : Granted run request next) : RunMove w k run (.requested k request) next
  | refuse {caller : Caller} {op : Op} {fault : Fault} :
      RunMove w k run (.refused k caller op fault) (run.refuse caller op fault)
  | begin {caller : Caller} {op : Op}
      (passed : run.begin w.cells (w.providers run.provider).active op = .ok ()) :
      RunMove w k run (.began k caller op) { run with call := .waiting caller op }
  | enter {caller : Caller} {op : Op} (waiting : run.call = .waiting caller op)
      (fits : op = .finalize → (w.providers run.provider).revision = run.revision) :
      RunMove w k run (.entered k caller op) { run with call := .inside caller op }
  | observeLibrary {caller : Caller} {id : Int} {ids : List Int}
      (waiting : run.call = .waiting caller (.libraries (id :: ids))) :
      RunMove w k run (.observedLibrary k id)
        { run with libraries := insert id run.libraries, call := .waiting caller (.libraries ids) }
  | observeItems {scope : SyncScope} {ids : List Int} :
      RunMove w k run (.observedItems k scope ids)
        { run with seen := run.seen ∪ ids.toFinset, call := .idle }
  | returned : RunMove w k run (.returned k) { run with call := .idle }
  | abandoned : RunMove w k run (.abandoned k) { run with call := .idle }
  | batched {p : Int} {batch : Batch} : RunMove w k run (.batched p k batch) { run with call := .idle }
  | finalized {p : Int} {pruned : List Int} :
      RunMove w k run (.finalized p k pruned) { run with call := .idle }

/-- A step about a run, unless it drops it. -/
theorem step_about (step : Step owner w event after) (about : Event.about event = some k) :
    ∃ run, w.runs k = some run ∧
      (after.runs k = none ∨ ∃ next, after.runs k = some next ∧ RunMove w k run event next) := by
  cases step with
  | acquire | release | write | stamp | setFavorite | invalidateSync | readRetained | dropBefore |
      start | cancel | retain | forget | advance => cases about
  | bind there idle => cases about; exact ⟨_, there, .inr ⟨_, by simp, .bind idle⟩⟩
  | fail there idle => cases about; exact ⟨_, there, .inr ⟨_, by simp, .fail idle⟩⟩
  | request there idle done =>
    cases about
    obtain ⟨running, granted⟩ := request_ok done
    exact ⟨_, there, .inr ⟨_, by simp, .request idle running granted⟩⟩
  | refuse there idle refused => cases about; exact ⟨_, there, .inr ⟨_, by simp, .refuse⟩⟩
  | begin there idle waits passed => cases about; exact ⟨_, there, .inr ⟨_, by simp, .begin passed⟩⟩
  | enter there waiting guarded free live fits =>
    cases about
    exact ⟨_, there, .inr ⟨_, by simp, .enter waiting fits⟩⟩
  | conflict there waiting free live foreign =>
    cases about
    exact ⟨_, there, .inr ⟨_, by simp, .refuse⟩⟩
  | observeLibrary there waiting found =>
    cases about
    cases observeLibrary_ok found
    exact ⟨_, there, .inr ⟨_, by simp, .observeLibrary waiting⟩⟩
  | refuseLibrary there waiting refused => cases about; exact ⟨_, there, .inr ⟨_, by simp, .refuse⟩⟩
  | returnLibraries there waiting => cases about; exact ⟨_, there, .inr ⟨_, by simp, .returned⟩⟩
  | observeItems there inside resolved =>
    cases about
    exact ⟨_, there, .inr ⟨_, by simp, .observeItems⟩⟩
  | refuseItems there inside refused => cases about; exact ⟨_, there, .inr ⟨_, by simp, .refuse⟩⟩
  | commitBatch there inside written current live =>
    cases about
    exact ⟨_, there, .inr ⟨_, by simp, .batched⟩⟩
  | excess there inside many => cases about; exact ⟨_, there, .inr ⟨_, by simp, .refuse⟩⟩
  | finalize there inside held mine surveyed few fewLibraries current live =>
    cases about
    exact ⟨_, there, .inr ⟨_, by simp, .finalized⟩⟩
  | interrupt there busy => cases about; exact ⟨_, there, .inr ⟨_, by simp, .refuse⟩⟩
  | abandon there busy => cases about; exact ⟨_, there, .inr ⟨_, by simp, .abandoned⟩⟩
  | drop there idle => cases about; exact ⟨_, there, .inl (by simp)⟩

theorem RunMove.identity {run next : SyncRun} (move : RunMove w k run event next) :
    next.provider = run.provider ∧ next.token = run.token ∧
      next.revision = run.revision := by
  cases move with
  | request idle running granted => cases granted <;> exact ⟨rfl, rfl, rfl⟩
  | _ => exact ⟨rfl, rfl, rfl⟩

theorem step_runs (step : Step owner w event after) {j : Nat} {run : SyncRun}
    (there : after.runs j = some run) :
    (∃ before, w.runs j = some before ∧ run.provider = before.provider ∧ run.token = before.token ∧
      run.revision = before.revision) ∨
    (j = w.started ∧ event = .started run.provider j ∧ run.token = (w.providers run.provider).sequence + 1 ∧
      run.revision = (w.providers run.provider).revision) := by
  by_cases about : Event.about event = some j
  · obtain ⟨before, known, gone | ⟨next, now, move⟩⟩ := step_about step about
    · rw [gone] at there
      cases there
    · cases there.symm.trans now
      exact .inl ⟨before, known, move.identity⟩
  · rcases step_elsewhere step about with same | ⟨fresh, p, rfl, now⟩
    · exact .inl ⟨run, same ▸ there, rfl, rfl, rfl⟩
    · cases there.symm.trans now
      exact .inr ⟨fresh, rfl, rfl, rfl⟩

/-- Whether an event is a write to the rows of the provider by anyone but the run. -/
def foreignWrite (p : Int) (k token : Nat) : Event → Bool
  | .wrote q origin => q = p && origin ≠ some token
  | .setFavorite q _ _ => q = p
  | .droppedBefore q _ => q = p
  | .batched q j _ => q = p && j ≠ k
  | .finalized q j _ => q = p && j ≠ k
  | _ => false

/-- Whether an event marks the run failed. -/
def marksFailed (k : Nat) : Event → Bool
  | .failed j => j = k
  | .refused j caller op fault => j = k && marked caller op fault
  | _ => false

variable {token revision : Nat} {guard : Guard} {p : Int} {events : List Event}

section Moved

variable {w : World} {p : Int} {event : Event} {state : ProviderState}

section

variable (move : Move w p event state)
include move

theorem Move.sequence_le : (w.providers p).sequence ≤ state.sequence := by
  cases move with
  | still guard revision active sequence favorites overflow => exact sequence.ge
  | start free idle => exact Nat.le_succ _
  | stamp held =>
    unfold ProviderState.favorite
    split_ifs <;> rfl
  | _ => exact le_refl _

theorem Move.revision_le : (w.providers p).revision ≤ state.revision := by
  cases move with
  | still guard revision active sequence favorites overflow => exact revision.ge
  | @acquire origin free live =>
    show _ ≤ if origin.isNone then _ else _
    split <;> omega
  | stamp held =>
    unfold ProviderState.favorite
    split_ifs <;> rfl
  | _ => exact le_refl _

/-- A token that was given out is never made the active one again. -/
theorem Move.active_back (positive : 0 < token) (given : token ≤ (w.providers p).sequence)
    (live : state.active = token) : (w.providers p).active = token := by
  cases move with
  | still guard revision active sequence favorites overflow => exact active ▸ live
  | acquire free origin | enter there mine free origin => exact live
  | release less =>
    rcases less with rfl | rfl
    · exact live
    · have zero : 0 = token := live
      omega
  | quit =>
    have zero : 0 = token := live
    omega
  | @stamp guard id held =>
    have same : ((w.providers p).favorite guard id).active = (w.providers p).active := by
      unfold ProviderState.favorite
      split_ifs <;> rfl
    exact same ▸ live
  | read held => exact live
  | start free idle =>
    have fresh : (w.providers p).sequence + 1 = token := live
    omega

theorem Move.guard_origin (held : state.guard = some guard) :
    (∃ before, (w.providers p).guard = some before ∧ before.origin = guard.origin ∧ before.holder = guard.holder) ∨
    (w.providers p).guard = none ∧ (guard.origin = none → (w.providers p).revision < state.revision) ∧
      (∀ token, guard.origin = some token → (w.providers p).active = token) ∧
      (guard.holder = none ∨ ∃ k caller op, event = .entered k caller op ∧ guard.holder = some k) := by
  cases move with
  | still same revision active sequence favorites overflow => exact .inl ⟨guard, same ▸ held, rfl, rfl⟩
  | @acquire origin free live =>
    cases held
    refine .inr ⟨free, fun outside => ?_, live, .inl rfl⟩
    cases outside
    exact Nat.lt_succ_self _
  | enter there mine free live =>
    cases held
    refine .inr ⟨free, nofun, fun token same => ?_, .inr ⟨_, _, _, rfl, rfl⟩⟩
    cases same
    exact live
  | release less => cases held
  | quit => exact .inl ⟨guard, held, rfl, rfl⟩
  | @stamp before id kept =>
    have now : ((w.providers p).favorite before id).guard =
        some { before with stamped := id :: before.stamped } := by
      unfold ProviderState.favorite
      split_ifs <;> rfl
    cases now.symm.trans held
    exact .inl ⟨before, kept, rfl, rfl⟩
  | read kept =>
    cases held
    exact .inl ⟨_, kept, rfl, rfl⟩
  | start free idle => exact .inl ⟨guard, held, rfl, rfl⟩

theorem Move.revision_eq (apart : event ≠ .acquired p none) :
    state.revision = (w.providers p).revision := by
  cases move with
  | still guard revision active sequence favorites overflow => exact revision
  | @acquire origin free live =>
    cases origin with
    | none => exact absurd rfl apart
    | some token => rfl
  | stamp held =>
    unfold ProviderState.favorite
    split_ifs <;> rfl
  | _ => rfl

theorem Move.revision_held (held : (w.providers p).guard = some guard) : state.revision = (w.providers p).revision := by
  cases move with
  | acquire free live =>
    rw [free] at held
    cases held
  | still guard revision active sequence favorites overflow => exact revision
  | stamp held =>
    unfold ProviderState.favorite
    split_ifs <;> rfl
  | _ => rfl

end

end Moved

theorem step_started (step : Step owner w event after) : w.started ≤ after.started ∧
      ∀ p k, event = .started p k → k < after.started := by
  cases step with
  | start free idle =>
    refine ⟨Nat.le_succ _, fun p k same => ?_⟩
    cases same
    exact Nat.lt_succ_self _
  | _ =>
    refine ⟨?_, nofun⟩
    simp

/-- Every run has a number and a token that were given out. -/
def Tokens (w : World) : Prop :=
  ∀ k run, w.runs k = some run → k < w.started ∧
    0 < run.token ∧ run.token ≤ (w.providers run.provider).sequence

theorem Tokens.step (tokens : Tokens w) (step : Step owner w event after) : Tokens after := by
  intro k run there
  have grown := (step_moves step run.provider).sequence_le
  rcases step_runs step there with ⟨before, known, provider, token, _⟩ | ⟨rfl, rfl, token, _⟩
  · obtain ⟨old, positive, given⟩ := tokens k before known
    rw [token]
    rw [← provider] at given
    exact ⟨by have := (step_started step).1; omega, positive, by omega⟩
  · refine ⟨(step_started step).2 _ _ rfl, by omega, ?_⟩
    cases step with
    | start free idle =>
      rw [token]
      simp

theorem Reachable.tokens (reached : Reachable owner w) : Tokens w := by
  refine reached.invariant (fun w initial k run there => ?_) fun _ _ _ tokens _ step => tokens.step step
  rw [initial.noRuns] at there
  cases there

/-- What the lock remembers of the writes since a run started, for as long as
the run is active. -/
structure Guarded (p : Int) (k token revision : Nat) (events : List Event) (w : World) : Prop where
  started : k < w.started
  positive : 0 < token
  given : token ≤ (w.providers p).sequence
  alone : ∀ j run, w.runs j = some run → run.provider = p → run.token = token → j = k
  later : (w.providers p).active = token → revision ≤ (w.providers p).revision
  outside : ∀ guard, (w.providers p).active = token → (w.providers p).guard = some guard →
    guard.origin = none → revision < (w.providers p).revision
  inside : ∀ guard other, (w.providers p).active = token → (w.providers p).guard = some guard →
    guard.origin = some other → other = token
  foreign : (∃ event ∈ events, foreignWrite p k token event = true) → (w.providers p).active = token →
    revision < (w.providers p).revision

section Guard

variable {owner : Int → Int} {w after : World} {p : Int} {k token revision : Nat} {event : Event}
  {events : List Event}

/-- A foreign write is made under a guard that raised the revision. -/
private theorem Guarded.written (guarded : Guarded p k token revision events w)
    (step : Step owner w event after) (foreign : foreignWrite p k token event = true)
    (live : (w.providers p).active = token) : revision < (w.providers p).revision := by
  cases step with
  | @write q guard db held outside owned =>
    simp only [foreignWrite, Bool.and_eq_true, decide_eq_true_eq, ne_eq] at foreign
    obtain ⟨rfl, strange⟩ := foreign
    cases origin : guard.origin with
    | none => exact guarded.outside guard live held origin
    | some other =>
      cases guarded.inside guard other live held origin
      exact absurd origin strange
  | setFavorite held outside origin stamped mine | dropBefore held outside origin surveyed =>
    simp only [foreignWrite, decide_eq_true_eq] at foreign
    subst foreign
    exact guarded.outside _ live held origin
  | commitBatch there inside written current active
  | finalize there inside held mine surveyed few fewLibraries current active =>
    simp only [foreignWrite, Bool.and_eq_true, decide_eq_true_eq, ne_eq] at foreign
    obtain ⟨rfl, other⟩ := foreign
    exact absurd (guarded.alone _ _ there rfl (active.symm.trans live)) other
  | _ => cases foreign

theorem Guarded.step (guarded : Guarded p k token revision events w) (step : Step owner w event after) :
    Guarded p k token revision (events ++ [event]) after := by
  have move := step_moves step p
  have grown := move.sequence_le
  have raised := move.revision_le
  have back (live : (after.providers p).active = token) : (w.providers p).active = token :=
    move.active_back guarded.positive guarded.given live
  constructor
  · have := (step_started step).1
    have := guarded.started
    omega
  · exact guarded.positive
  · exact guarded.given.trans grown
  · intro j run there mine same
    rcases step_runs step there with ⟨before, known, provider, kept, _⟩ | ⟨_, _, fresh, _⟩
    · exact guarded.alone j before known (provider ▸ mine) (kept ▸ same)
    · have given := guarded.given
      rw [mine] at fresh
      omega
  · intro live
    exact (guarded.later (back live)).trans raised
  · intro guard live held origin
    rcases move.guard_origin held with ⟨before, kept, same, _⟩ | ⟨_, raises, _, _⟩
    · exact (guarded.outside before (back live) kept (same.trans origin)).trans_le raised
    · exact (guarded.later (back live)).trans_lt (raises origin)
  · intro guard other live held origin
    rcases move.guard_origin held with ⟨before, kept, same, _⟩ | ⟨_, _, fits, _⟩
    · exact guarded.inside before other (back live) kept (same.trans origin)
    · exact (fits other origin).symm.trans (back live)
  · rintro ⟨entry, member, strange⟩ live
    obtain old | rfl := mem_snoc member
    · exact (guarded.foreign ⟨entry, old, strange⟩ (back live)).trans_le raised
    · exact (guarded.written step strange (back live)).trans_le raised

end Guard

/-- The run's own record of the calls that were made of it. -/
structure Kept (p : Int) (k token revision : Nat) (events : List Event) (run : SyncRun) : Prop where
  identity : run.provider = p ∧ run.token = token ∧ run.revision = revision
  seen : ∀ scope ids, .observedItems k scope ids ∈ events → ∀ id ∈ ids, id ∈ run.seen
  declared : run.declared = true → ∃ scopes required,
    .requested k (.declare scopes required) ∈ events ∧ run.scopes = scopes.toFinset
  completed : ∀ scope ∈ run.completed, .requested k (.complete scope) ∈ events
  libraries : run.librariesComplete = true → .requested k .completeLibraries ∈ events
  failing : (∃ event ∈ events, marksFailed k event = true) → run.failed = true
  whole : run.sealed = true → run.declared = true ∧ run.librariesComplete = true ∧
    run.completed = run.scopes
  closing : ∀ caller, run.call = .waiting caller .finalize ∨ run.call = .inside caller .finalize →
    run.failed = false ∧ run.sealed = true

section Ledger

variable {w : World} {p : Int} {k token revision : Nat} {events : List Event} {event : Event}
  {run next : SyncRun}

section

variable (kept : Kept p k token revision events run)
include kept

private theorem Kept.skip {e : Event} (unseen : ∀ scope ids, e ≠ .observedItems k scope ids)
    (sound : marksFailed k e = false) : Kept p k token revision (events ++ [e]) run where
  identity := kept.identity
  seen scope ids member := by
    rcases List.mem_append.mp member with old | new
    · exact kept.seen scope ids old
    · exact absurd (List.mem_singleton.mp new).symm (unseen scope ids)
  declared first := by
    obtain ⟨scopes, required, member, same⟩ := kept.declared first
    exact ⟨scopes, required, List.mem_append_left _ member, same⟩
  completed scope member := List.mem_append_left _ (kept.completed scope member)
  libraries whole := List.mem_append_left _ (kept.libraries whole)
  failing := by
    rintro ⟨entry, member, marks⟩
    obtain old | rfl := mem_snoc member
    · exact kept.failing ⟨entry, old, marks⟩
    · rw [sound] at marks
      cases marks
  whole := kept.whole
  closing := kept.closing

private theorem Kept.turn (call : Call)
    (closing : ∀ caller, call = .waiting caller .finalize ∨ call = .inside caller .finalize → run.failed = false ∧ run.sealed = true) :
    Kept p k token revision events { run with call := call } :=
  { kept with closing := closing }

private theorem Kept.request {request : Request} (idle : run.call = .idle) (fresh : run.sealed = false)
    (granted : Granted run request next) :
    Kept p k token revision (events ++ [.requested k request]) next := by
  have later := kept.skip (e := .requested k request) (by simp) rfl
  have waits (caller : Caller) (busy : run.call = .waiting caller .finalize ∨
      run.call = .inside caller .finalize) : False := by
    rcases busy with busy | busy <;> cases idle.symm.trans busy
  cases granted with
  | @declare scopes required first =>
    exact ⟨later.identity, later.seen, fun _ => ⟨scopes, required, by simp, rfl⟩, later.completed,
      later.libraries, later.failing, fun whole => absurd (fresh.symm.trans whole) nofun,
      fun caller busy => absurd busy (waits caller)⟩
  | completeLibraries =>
    exact ⟨later.identity, later.seen, later.declared, later.completed, fun _ => by simp, later.failing,
      fun whole => absurd (fresh.symm.trans whole) nofun, fun caller busy => absurd busy (waits caller)⟩
  | @complete scope declared =>
    refine { later with
      completed := fun other member => ?_
      whole := fun whole => absurd (fresh.symm.trans whole) nofun
      closing := fun caller busy => absurd busy (waits caller) }
    rcases Finset.mem_insert.mp member with rfl | old
    · simp
    · exact later.completed other old
  | sealing declared libraries whole =>
    exact { later with
      whole := fun _ => ⟨declared, libraries, whole⟩
      closing := fun caller busy => absurd busy (waits caller) }

private theorem Kept.refuse (caller : Caller) (op : Op) (fault : Fault) :
    Kept p k token revision (events ++ [.refused k caller op fault]) (run.refuse caller op fault) := by
  refine ⟨kept.identity, fun scope ids member => kept.seen scope ids (by simpa using member),
    fun first => ?_, fun scope member => List.mem_append_left _ (kept.completed scope member),
    fun whole => List.mem_append_left _ (kept.libraries whole), ?_, kept.whole, ?_⟩
  · obtain ⟨scopes, required, member, same⟩ := kept.declared first
    exact ⟨scopes, required, List.mem_append_left _ member, same⟩
  · rintro ⟨entry, member, marks⟩
    obtain old | rfl := mem_snoc member
    · simp [SyncRun.refuse, kept.failing ⟨entry, old, marks⟩]
    · simp only [marksFailed, decide_true, Bool.true_and] at marks
      simp [SyncRun.refuse, marks]
  · rintro caller (busy | busy) <;> cases busy

theorem Kept.step (move : RunMove w k run event next) :
    Kept p k token revision (events ++ [event]) next := by
  cases move with
  | @bind cell idle =>
    have later := kept.skip (e := .bound k cell) (by simp) rfl
    exact { later with }
  | fail idle =>
    refine ⟨kept.identity, fun scope ids member => kept.seen scope ids (by simpa using member),
      fun first => ?_, fun scope member => List.mem_append_left _ (kept.completed scope member),
      fun whole => List.mem_append_left _ (kept.libraries whole), fun _ => rfl, kept.whole, ?_⟩
    · obtain ⟨scopes, required, member, same⟩ := kept.declared first
      exact ⟨scopes, required, List.mem_append_left _ member, same⟩
    · rintro caller (busy | busy) <;> cases idle.symm.trans busy
  | request idle running granted => exact kept.request idle (running_ok running).2.1 granted
  | refuse => exact kept.refuse _ _ _
  | @begin caller op passed =>
    refine (kept.skip (by simp) rfl).turn _ ?_
    rintro other (busy | busy)
    · cases busy
      exact beginFinalize_ok passed
    · cases busy
  | @enter caller op waiting fits =>
    refine (kept.skip (by simp) rfl).turn _ ?_
    rintro other (busy | busy)
    · cases busy
    · cases busy
      exact kept.closing caller (.inl waiting)
  | @observeLibrary caller id ids waiting =>
    have later := (kept.skip (e := .observedLibrary k id) (by simp) rfl).turn
      (.waiting caller (.libraries ids)) nofun
    exact { later with }
  | @observeItems scope ids =>
    refine ⟨kept.identity, fun other found member id there => ?_, fun first => ?_,
      fun scope member => List.mem_append_left _ (kept.completed scope member),
      fun whole => List.mem_append_left _ (kept.libraries whole), ?_, kept.whole, nofun⟩
    · rcases List.mem_append.mp member with old | new
      · exact Finset.mem_union_left _ (kept.seen other found old id there)
      · cases List.mem_singleton.mp new
        exact Finset.mem_union_right _ (List.mem_toFinset.mpr there)
    · obtain ⟨scopes, required, member, same⟩ := kept.declared first
      exact ⟨scopes, required, List.mem_append_left _ member, same⟩
    · rintro ⟨entry, member, marks⟩
      obtain old | rfl := mem_snoc member
      · exact kept.failing ⟨entry, old, marks⟩
      · cases marks
  | returned | abandoned | batched | finalized => exact (kept.skip (by simp) rfl).turn .idle nofun

end

end Ledger

/-- Both records, and the revision while `finalize` holds the lock. -/
structure Ledger (p : Int) (k token revision : Nat) (events : List Event) (w : World) : Prop where
  guarded : Guarded p k token revision events w
  kept : ∀ run, w.runs k = some run → Kept p k token revision events run
  checked : ∀ run caller guard, w.runs k = some run → run.call = .inside caller .finalize →
    (w.providers p).guard = some guard → guard.holder = some k → (w.providers p).revision = revision

theorem Ledger.step (ledger : Ledger p k token revision events w) (step : Step owner w event after) :
    Ledger p k token revision (events ++ [event]) after := by
  have move := step_moves step p
  have old : k ≠ w.started := by
    have := ledger.guarded.started
    omega
  refine ⟨ledger.guarded.step step, fun run there => ?_, fun run caller guard there inside held mine => ?_⟩
  · by_cases about : Event.about event = some k
    · obtain ⟨before, known, gone | ⟨next, now, moved⟩⟩ := step_about step about
      · cases gone.symm.trans there
      · cases now.symm.trans there
        exact (ledger.kept before known).step moved
    · rcases step_elsewhere step about with same | ⟨fresh, _⟩
      · refine (ledger.kept run (same ▸ there)).skip ?_ ?_
        · rintro scope ids rfl
          exact about rfl
        · cases event with
          | failed j => simpa [marksFailed, Event.about] using about
          | refused j caller op fault =>
            have apart : j ≠ k := by simpa [Event.about] using about
            simp [marksFailed, apart]
          | _ => rfl
      · exact absurd fresh old
  · by_cases about : Event.about event = some k
    · obtain ⟨before, known, gone | ⟨next, now, moved⟩⟩ := step_about step about
      · cases gone.symm.trans there
      · cases now.symm.trans there
        have identity := (ledger.kept before known).identity
        cases moved with
        | enter waiting fits =>
          cases inside
          rw [move.revision_eq nofun, ← identity.1, fits rfl, identity.2.2]
        | bind idle | fail idle => cases idle.symm.trans inside
        | request idle running granted =>
          have call : run.call = before.call := by cases granted <;> rfl
          cases (call.trans idle).symm.trans inside
        | _ => cases inside
    · rcases step_elsewhere step about with same | ⟨fresh, _⟩
      · rcases move.guard_origin held with ⟨holding, kept, _, holder⟩ | ⟨_, _, _, free | ⟨j, _, _, rfl, holder⟩⟩
        · rw [move.revision_held kept]
          exact ledger.checked run caller holding (same ▸ there) inside kept (holder.trans mine)
        · cases free.symm.trans mine
        · cases holder.symm.trans mine
          exact absurd rfl about
      · exact absurd fresh old

theorem Ledger.start {owner : Int → Int} {w after : World} {k : Nat} (tokens : Tokens w)
    (step : Step owner w (.started p k) after) :
    Ledger p k ((w.providers p).sequence + 1) (w.providers p).revision [] after := by
  have next := (tokens.step step)
  cases step with
  | start free idle =>
    have now : ∀ q, Function.update w.providers p { w.providers p with
        sequence := (w.providers p).sequence + 1
        active := (w.providers p).sequence + 1
        favorites := ∅
        favoriteOverflow := 0 } q = if q = p then _ else w.providers q :=
      fun q => Function.update_apply ..
    have fresh (run : SyncRun) (there : Function.update w.runs w.started (some (SyncRun.fresh p
        ((w.providers p).sequence + 1) (w.providers p).revision)) w.started = some run) :
        run = SyncRun.fresh p ((w.providers p).sequence + 1) (w.providers p).revision := by
      rw [Function.update_self] at there
      exact (Option.some.inj there).symm
    refine ⟨⟨Nat.lt_succ_self _, Nat.succ_pos _, by simp, fun j run there mine same => ?_, by simp,
      fun guard live held => ?_, fun guard other live held => ?_, by simp⟩, fun run there => ?_,
      fun run caller guard there inside => ?_⟩
    · by_contra apart
      have old : Function.update w.runs w.started _ j = some run := there
      rw [Function.update_of_ne apart] at old
      have given := (tokens j run old).2.2
      rw [mine] at given
      omega
    · simp [free] at held
    · simp [free] at held
    · cases fresh run there
      exact ⟨⟨rfl, rfl, rfl⟩, by simp, nofun, by simp [SyncRun.fresh], nofun, by simp, nofun, nofun⟩
    · cases fresh run there
      cases inside

theorem Ledger.follows (ledger : Ledger p k token revision [] w) (run : Follows (Step owner) w events after) :
    Ledger p k token revision events after := by
  have carried := run.tracks (Ledger p k token revision)
    (fun seen event s t _ held stepped => held.step stepped) ledger
  simpa using carried

/-- `finalize` deletes an item by name only when every scope that the run
declared and the library list were completed, the run was not marked failed, no
other write of the provider's rows was committed since the run started, and the
item lies in a declared scope, was not observed and is not retained. -/
theorem finalize_deletes_only {owner : Int → Int} {opened w₀ w after : World} {p q : Int} {k : Nat}
    {events : List Event} {pruned : List Int} {id : Int} (reached : Reachable owner opened)
    (started : Step owner opened (.started p k) w₀) (run : Follows (Step owner) w₀ events w)
    (finalized : Step owner w (.finalized q k pruned) after) (deleted : id ∈ pruned) :
    ∃ scopes required row,
      .requested k (.declare scopes required) ∈ events ∧
      (∀ scope ∈ scopes, .requested k (.complete scope) ∈ events) ∧
      .requested k .completeLibraries ∈ events ∧
      (∀ event ∈ events, marksFailed k event = false) ∧
      (∀ event ∈ events, foreignWrite p k ((opened.providers p).sequence + 1) event = false) ∧
      w.db.items.lookup id = some row ∧ row.providerId = p ∧
      SyncScope.new row.libraryId row.kind ∈ scopes ∧
      (∀ scope ids, .observedItems k scope ids ∈ events → id ∉ ids) ∧ ¬ Retained w id := by
  have ledger := (Ledger.start (Reachable.tokens reached) started).follows run
  have arrived : Reachable owner w := Reachable.follows (reached.next trivial started) run
  have sound := arrived.sound
  obtain ⟨closing, caller, guard, kept, there, rfl, inside, held, mine, surveyed, live, rfl, _⟩ :=
    finalized_cases finalized
  have record := ledger.kept closing there
  obtain ⟨rfl, token, _⟩ := record.identity
  obtain ⟨fine, done⟩ := record.closing caller (.inr inside)
  obtain ⟨declared, libraries, whole⟩ := record.whole done
  obtain ⟨scopes, required, asked, same⟩ := record.declared declared
  simp only [Database.pruned, List.mem_map, List.mem_filter, Prod.exists, decide_eq_true_eq] at deleted
  obtain ⟨_, row, ⟨candidate, inScope, unseen, free⟩, rfl⟩ := deleted
  obtain ⟨stored, belongs⟩ := mem_candidates.mp candidate
  refine ⟨scopes, required, row, asked, fun scope member => ?_, record.libraries libraries, ?_, ?_, stored,
    belongs, ?_, fun scope ids observed member => unseen (record.seen scope ids observed _ member), ?_⟩
  · refine record.completed scope ?_
    rw [whole, same]
    exact List.mem_toFinset.mpr member
  · intro event member
    rw [← Bool.not_eq_true]
    intro marks
    exact absurd (fine.symm.trans (record.failing ⟨event, member, marks⟩)) nofun
  · intro event member
    rw [← Bool.not_eq_true]
    intro foreign
    have raised := ledger.guarded.foreign ⟨event, member, foreign⟩ (live.trans token)
    have unchanged := ledger.checked closing caller guard there inside held mine
    omega
  · exact List.mem_toFinset.mp (same ▸ inScope)
  · rintro ⟨entry, listed, member⟩
    have provider : entry.1 = closing.provider := by
      rw [← (sound.mine entry listed).2 _ member, ← belongs, sound.owned _ row stored]
    exact free (List.mem_toFinset.mpr
      (sound.surveyed _ guard kept held surveyed entry listed provider _ member))

section Early

/-- A provider with one remote mix, item 4. -/
private def mixShelf : Database :=
  { Database.empty with items := AList.insert 4 ⟨"mix", none, 1, .mix, 0⟩ ∅ }

private def shelved : World :=
  ⟨mixShelf, fun _ => ProviderState.fresh, fun _ => none, 0, [], fun _ => 0⟩

private def mixScope : SyncScope := SyncScope.new none .mix

private def early : Fault := refusal "sync enumeration is incomplete"

/-- A sync that asks for its seal too early, and then completes. -/
private def eager : List Event :=
  [.refused 0 .core (.request .sealing) early, .requested 0 (.declare [mixScope] []),
    .requested 0 .completeLibraries, .requested 0 (.complete mixScope), .requested 0 .sealing,
    .began 0 .core .finalize, .entered 0 .core .finalize, .readRetained 1]

private theorem shelved_reachable : Reachable (fun _ => 1) shelved := by
  refine .start ⟨fun id row there => ?_, rfl, rfl, rfl⟩
  have both : ∀ entry ∈ mixShelf.items.entries, entry.2.providerId = 1 := by decide
  exact both _ ((Hash.lookup_eq_some_iff _ _ _).mp there)

private def closing : SyncRun :=
  ⟨1, 1, 0, [mixScope].toFinset, insert mixScope ∅, ∅, ∅, true, true, true, false, none,
    .inside .core .finalize⟩

private def closingGuard : Guard := ⟨some 1, some 0, some [], []⟩

private theorem eager_follows : ∃ w₀ w, Step (fun _ => 1) shelved (.started 1 0) w₀ ∧
    Follows (Step fun _ => 1) w₀ eager w ∧ w.db = mixShelf ∧ w.runs 0 = some closing ∧
    (w.providers 1).guard = some closingGuard ∧ (w.providers 1).active = 1 :=
  ⟨_, _, .start rfl rfl, .cons (.refuse rfl rfl rfl) <| .cons (.request rfl rfl rfl) <|
    .cons (.request rfl rfl rfl) <| .cons (.request rfl rfl rfl) <| .cons (.request rfl rfl rfl) <|
    .cons (.begin rfl rfl (by simp) rfl) <|
    .cons (.enter rfl rfl (by simp) rfl rfl fun _ => rfl) <| .cons (.readRetained rfl) <| .nil _,
    rfl, rfl, rfl, rfl⟩

private theorem eager_finalizes : ∃ w₀ w after, Step (fun _ => 1) shelved (.started 1 0) w₀ ∧
    Follows (Step fun _ => 1) w₀ eager w ∧ Step (fun _ => 1) w (.finalized 1 0 [4]) after := by
  obtain ⟨w₀, w, started, follows, db, there, held, live⟩ := eager_follows
  have step : Step (fun _ => 1) w (.finalized 1 0 _) _ := .finalize there rfl held rfl rfl
    (by rw [db]; decide) (by rw [db]; decide) rfl live
  rw [db] at step
  exact ⟨w₀, w, _, started, follows, step⟩

/-- A seal that is refused for being too early does not stop a later prune. -/
theorem refused_seal_then_prune :
    ¬ ∀ (owner : Int → Int) (opened w₀ w after : World) (p q : Int) (k : Nat) (events : List Event)
      (pruned : List Int) (id : Int), Reachable owner opened →
      Step owner opened (.started p k) w₀ → Follows (Step owner) w₀ events w →
      Step owner w (.finalized q k pruned) after → id ∈ pruned →
      ∀ caller op fault, .refused k caller op fault ∉ events := by
  intro claimed
  obtain ⟨w₀, w, after, started, follows, step⟩ := eager_finalizes
  exact claimed _ _ _ _ _ _ _ _ _ _ 4 shelved_reachable started follows step (by simp) .core
    (.request .sealing) early (by simp [eager])

/-- The refused seal has not marked that sync, and its library list is complete. -/
theorem eager_sync_is_unmarked : .requested 0 .completeLibraries ∈ eager ∧
    marksFailed 0 (.refused 0 .core (.request .sealing) early) = false := by
  obtain ⟨w₀, w, after, started, follows, step⟩ := eager_finalizes
  obtain ⟨_, _, _, _, _, libraries, unmarked, _⟩ :=
    finalize_deletes_only shelved_reachable started follows step (List.mem_singleton_self 4)
  exact ⟨libraries, unmarked _ (by simp [eager])⟩

end Early

end Qcm.SyncRunProofs
