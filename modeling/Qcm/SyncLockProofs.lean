import Qcm.SyncLocks

/-!
The locks of the sync coordinator cannot block each other, and snapshots see the
database between writes.

`Sound` connects the stage of every task with the locks.  A task takes the
projection before any mutex and the mutexes in the order of their ids, so
`exists_active` applies.  A guard advances the revision before its caller can
write, and a snapshot is taken while there is no guard, so a revision belongs to
one state of the database.
-/

namespace Qcm.SyncLocks

open Lib Lib.Runs Lib.Locks SyncDatabase

variable {w w' : World} {label : Label} {k j : Nat} {old new : Stage} {l : LockId} {mode : Mode}

/-- A task goes on with a lock. -/
def HasLock (tasks : Hash Nat Stage) (k : Nat) (l : LockId) (mode : Mode) : Prop :=
  ∃ stage, tasks.lookup k = some stage ∧ (l, mode) ∈ stage.has

/-- A task has asked for a lock. -/
def AsksLock (tasks : Hash Nat Stage) (k : Nat) (l : LockId) (mode : Mode) : Prop :=
  ∃ stage, tasks.lookup k = some stage ∧ stage.asks = some (l, mode)

/-- The stages of the tasks say what they have of the locks. -/
def Sound (w : World) : Prop := Owned w.locks (HasLock w.tasks) (AsksLock w.tasks)

variable {tasks : Hash Nat Stage} {stage : Stage} {guard : World → Label → Prop} {start : Database → Prop}

private theorem hasLock_insert : HasLock (tasks.insert k stage) =
      Function.update (HasLock tasks) k fun l mode => (l, mode) ∈ stage.has := by
  funext j l mode
  obtain rfl | here := eq_or_ne j k <;> simp [HasLock, *]

private theorem asksLock_insert : AsksLock (tasks.insert k stage) =
      Function.update (AsksLock tasks) k fun l mode => stage.asks = some (l, mode) := by
  funext j l mode
  obtain rfl | here := eq_or_ne j k <;> simp [AsksLock, *]

private theorem hasLock_erase :
    HasLock (tasks.erase k) = Function.update (HasLock tasks) k fun _ _ => False := by
  funext j l mode
  obtain rfl | here := eq_or_ne j k <;> simp [HasLock, *]

private theorem asksLock_erase :
    AsksLock (tasks.erase k) = Function.update (AsksLock tasks) k fun _ _ => False := by
  funext j l mode
  obtain rfl | here := eq_or_ne j k <;> simp [AsksLock, *]

theorem sound_leave (sound : Sound w) (k : Nat) : Sound (w.leave k) := by
  unfold Sound World.leave
  dsimp only
  rw [hasLock_erase, asksLock_erase]
  exact Owned.leave sound k

section

variable (sound : Sound w) (found : w.tasks.lookup k = some old)
include sound found

theorem sound_move (asks : new.asks = old.asks) (has : new.has = old.has) : Sound (w.move k new) := by
  have held : HasLock (w.tasks.insert k new) = HasLock w.tasks := by
    rw [hasLock_insert, has]
    refine Function.update_eq_self_iff.mpr ?_
    funext l mode
    simp [HasLock, found]
  have asked : AsksLock (w.tasks.insert k new) = AsksLock w.tasks := by
    rw [asksLock_insert, asks]
    refine Function.update_eq_self_iff.mpr ?_
    funext l mode
    simp [AsksLock, found]
  unfold Sound World.move
  dsimp only
  rw [held, asked]
  exact sound

theorem sound_ask (idle : old.asks = none) (asks : new.asks = some (l, mode)) (has : new.has = old.has) :
    Sound (w.ask k new l mode) := by
  have held : HasLock (w.tasks.insert k new) = HasLock w.tasks := by
    rw [hasLock_insert, has]
    refine Function.update_eq_self_iff.mpr ?_
    funext l mode
    simp [HasLock, found]
  have asked : AsksLock (w.tasks.insert k new) =
      Function.update (AsksLock w.tasks) k fun other also => other = l ∧ also = mode := by
    rw [asksLock_insert, asks]
    congr
    funext other also
    simp [eq_comm]
  unfold Sound World.ask World.move
  dsimp only
  rw [held, asked]
  exact Owned.request sound mode fun other also ⟨stage, same, wants⟩ => by
    cases found.symm.trans same
    rw [idle] at wants
    cases wants

theorem sound_take (asks : old.asks = some (l, mode)) (granted : Granted (w.locks l) k mode)
    (idle : new.asks = none) (has : ∀ entry, entry ∈ new.has ↔ entry ∈ old.has ∨ entry = (l, mode)) :
    Sound (w.move k new) := by
  have held : HasLock (w.tasks.insert k new) = Function.update (HasLock w.tasks) k
      fun other also => HasLock w.tasks k other also ∨ (other = l ∧ also = mode) := by
    rw [hasLock_insert]
    congr
    funext other also
    simp [has, HasLock, found]
  have asked : AsksLock (w.tasks.insert k new) =
      Function.update (AsksLock w.tasks) k fun _ _ => False := by
    rw [asksLock_insert, idle]
    simp
  unfold Sound World.move
  dsimp only
  rw [held, asked]
  exact Owned.acquire sound granted fun other also ⟨stage, same, wants⟩ => by
    cases found.symm.trans same
    cases asks.symm.trans wants
    exact ⟨rfl, rfl⟩

end

theorem sound_new (sound : Sound w) (fresh : k ∉ w.tasks) (call : Call) : Sound (w.move k (.called call)) := by
  have absent : w.tasks.lookup k = none := AList.lookup_eq_none.mpr fresh
  have held : HasLock (w.tasks.insert k (.called call)) = HasLock w.tasks := by
    rw [hasLock_insert]
    refine Function.update_eq_self_iff.mpr ?_
    funext l mode
    simp [HasLock, absent, Stage.has]
  have asked : AsksLock (w.tasks.insert k (.called call)) = AsksLock w.tasks := by
    rw [asksLock_insert]
    refine Function.update_eq_self_iff.mpr ?_
    funext l mode
    simp [AsksLock, absent, Stage.asks]
  unfold Sound World.move
  dsimp only
  rw [held, asked]
  exact sound

/-! ## Steps -/

/-- The mutexes a writer has and is still to take are in the order of the ids. -/
def Stage.Ordered : Stage → Prop
  | .looping done rest _ => (done ++ rest).Pairwise (· < ·)
  | .asking done next rest _ => (done ++ next :: rest).Pairwise (· < ·)
  | _ => True

/-- The providers of all items have ids that are not negative. -/
def Positive (db : Database) : Prop := ∀ row ∈ db.items.entries, 0 ≤ row.2.providerId

instance (db : Database) : Decidable (Positive db) := inferInstanceAs (Decidable (∀ row ∈ _, _))

private theorem destutter_sorted {list : List Int} (sorted : list.Pairwise (· ≤ ·)) :
    (list.destutter (· ≠ ·)).Pairwise (· < ·) := by
  have kept := (sorted.sublist (List.destutter_sublist (· ≠ ·) list)).isChain
  have apart := List.isChain_destutter (R := (· ≠ ·)) list
  refine List.isChain_iff_pairwise.mp (List.isChain_iff_getElem.mpr fun i bound => ?_)
  exact lt_of_le_of_ne (List.isChain_iff_getElem.mp kept i bound) (List.isChain_iff_getElem.mp apart i bound)

theorem lockOrder_sorted {providers : List Int} (positive : ∀ provider ∈ providers, 0 ≤ provider) :
    (lockOrder providers).Pairwise (· < ·) := by
  refine destutter_sorted (List.pairwise_cons.mpr ⟨fun provider member => ?_, List.pairwise_insertionSort _ _⟩)
  exact positive provider ((List.perm_insertionSort _ _).mem_iff.mp member)

theorem itemProviders_positive {db : Database} (positive : Positive db) {ids : List Int} :
    ∀ provider ∈ itemProviders db ids, 0 ≤ provider := by
  intro provider member
  simp only [itemProviders, List.mem_dedup, List.mem_map, List.mem_filter] at member
  obtain ⟨row, ⟨listed, _⟩, rfl⟩ := member
  exact positive row listed

/-- What a snapshot has read of the coordinator is what there is. -/
def Stage.Current (w : World) : Stage → Prop
  | .loading revision => revision = w.projectionRevision
  | .reading revision epochs => revision = w.projectionRevision ∧ epochs = w.epochs
  | _ => True

/-- A writer takes one guard at least. -/
def Stage.Stocked : Stage → Prop
  | .looping done rest _ => done ++ rest ≠ []
  | .guarded done => done ≠ []
  | _ => True

theorem lockOrder_ne_nil (providers : List Int) : lockOrder providers ≠ [] :=
  fun none => by simp [lockOrder, List.destutter_eq_nil] at none

theorem writeGuard_revision (state : ProviderState) (origin : Option Nat) (revision : Nat) :
    (writeGuard state origin revision).2.1 =
      if (writeGuard state origin revision).2.2 then revision + 1 else revision := by
  unfold writeGuard checkedAdd
  repeat' split
  all_goals simp_all

/-- What a stage may come to: it is in order and fits the world if the stage before was and did. -/
private structure Fits (w : World) (old new : Stage) : Prop where
  ordered : old.Ordered → Positive w.database → new.Ordered
  guards : new.guards ≠ [] → old.guards ≠ []
  current : old.Current w → new.Current w
  stocked : old.Stocked → new.Stocked

private theorem fits_new (ordered : new.Ordered) (guards : new.guards = []) (current : new.Current w)
    (stocked : new.Stocked) : Fits w old new :=
  ⟨fun _ _ => ordered, fun some => absurd guards some, fun _ => current, fun _ => stocked⟩

/-- How a task goes on: with the locks that it has, with a request for one, or with the one it asked for. -/
private inductive Goes (w : World) (k : Nat) (old : Stage) : World → Prop where
  | moves {new : Stage} (fits : Fits w old new) (asks : new.asks = old.asks) (has : new.has = old.has) :
      Goes w k old (w.move k new)
  | asks {new : Stage} {l : LockId} {mode : Mode} (fits : Fits w old new) (idle : old.asks = none)
      (asks : new.asks = some (l, mode)) (has : new.has = old.has) : Goes w k old (w.ask k new l mode)
  | takes {new : Stage} {l : LockId} {mode : Mode} (fits : Fits w old new) (asks : old.asks = some (l, mode))
      (granted : Granted (w.locks l) k mode) (idle : new.asks = none)
      (has : ∀ entry, entry ∈ new.has ↔ entry ∈ old.has ∨ entry = (l, mode)) : Goes w k old (w.move k new)
  | guards {done rest : List Int} {next : Int} {origin : Option Nat} (same : old = .asking done next rest origin)
      (granted : Granted (w.locks (writes next)) k .exclusive) (state : ProviderState) :
      Goes w k old ({ w.setProvider next state with projectionRevision := w.projectionRevision + 1 }.move k
        (.looping (done ++ [next]) rest origin))
  | leaves (providers : Int → ProviderState) : Goes w k old ({ w with providers := providers }.leave k)

private theorem Goes.of_advance (stepped : advance w k old = some w') : Goes w k old w' := by
  cases old with
  | called call =>
    cases stepped
    cases call with
    | writeMixes ids items => exact .moves (fits_new trivial rfl trivial trivial) rfl rfl
    | readSnapshot | readRevision provider | write provider origin | writeItems ids | start provider
    | retainItems provider | finalize provider token => exact .asks (fits_new trivial rfl trivial trivial) rfl rfl rfl
  | affected ids =>
    cases stepped
    exact .asks (fits_new trivial rfl trivial trivial) rfl rfl rfl
  | entering entry =>
    cases entry with
    | provider provider origin =>
      obtain ⟨granted, ⟨⟩⟩ := Option.ite_none_right_eq_some.mp stepped
      exact .takes (fits_new (List.pairwise_singleton _ _) rfl trivial (List.cons_ne_nil _ _)) rfl granted rfl
        (by simp [Stage.has])
    | items ids =>
      obtain ⟨granted, ⟨⟩⟩ := Option.ite_none_right_eq_some.mp stepped
      exact .takes ⟨fun _ positive => lockOrder_sorted (itemProviders_positive positive), absurd rfl, fun _ => trivial,
        fun _ => lockOrder_ne_nil _⟩ rfl granted rfl (by simp [Stage.has])
  | looping done rest origin =>
    cases rest with
    | nil =>
      cases stepped
      exact .moves ⟨fun _ _ => trivial, id, fun _ => trivial, fun stocked => by simpa [Stage.Stocked] using stocked⟩
        rfl rfl
    | cons next rest =>
      cases stepped
      exact .asks ⟨fun ordered _ => ordered, id, fun _ => trivial, fun _ => trivial⟩ rfl rfl rfl
  | asking done next rest origin =>
    simp only [advance, Option.ite_none_right_eq_some, Option.some.injEq] at stepped
    obtain ⟨granted, rfl⟩ := stepped
    have revision := writeGuard_revision (w.providers next) origin w.projectionRevision
    split
    · rename_i given
      rw [if_pos given] at revision
      rw [revision]
      exact .guards rfl granted _
    · rename_i refused
      rw [if_neg refused] at revision
      rw [revision]
      exact .leaves _
  | guarded | reading =>
    cases stepped
    exact .leaves _
  | opening =>
    obtain ⟨granted, ⟨⟩⟩ := Option.ite_none_right_eq_some.mp stepped
    exact .takes (fits_new trivial rfl rfl trivial) rfl granted rfl (by simp [Stage.has])
  | loading revision =>
    cases stepped
    exact .moves ⟨fun _ _ => trivial, absurd rfl, fun current => ⟨current, rfl⟩, fun _ => trivial⟩ rfl rfl
  | waiting starts provider =>
    obtain ⟨granted, ⟨⟩⟩ := Option.ite_none_right_eq_some.mp stepped
    exact .takes (fits_new trivial rfl trivial trivial) rfl granted rfl (by simp [Stage.has])
  | inside starts provider =>
    cases stepped
    split <;> exact .leaves _

/-- What a step may do. -/
private inductive Moves (w : World) : Label → World → Prop where
  | call {k : Nat} {call : Call} (fresh : k ∉ w.tasks) : Moves w (.call k call) (w.move k (.called call))
  | advance {k : Nat} {old : Stage} {w' : World} (found : w.tasks.lookup k = some old) (goes : Goes w k old w') :
      Moves w (.advance k) w'
  | drop {k : Nat} : Moves w (.drop k) (w.leave k)
  | modify {k : Nat} {done : List Int} {database : Database} (found : w.tasks.lookup k = some (.guarded done)) :
      Moves w (.modify k database) { w with database := database }
  | invalidate {k : Nat} {done : List Int} {provider : Int} (found : w.tasks.lookup k = some (.guarded done)) :
      Moves w (.invalidate k provider) { w with epochs := invalidateScope w.epochs provider }
  | setActive {provider : Int} {active : Nat} (providers : Int → ProviderState) :
      Moves w (.setActive provider active) { w with providers := providers }
  | observe {k revision : Nat} {epochs : Hash Int Nat} (found : w.tasks.lookup k = some (.reading revision epochs)) :
      Moves w (.observe k) { w with observations :=
        w.observations ++ [⟨w.instanceName, revision, epochs, w.database⟩] }

private theorem Moves.of_step (stepped : step w label = some w') : Moves w label w' := by
  cases label with
  | call k call =>
    obtain ⟨fresh, ⟨⟩⟩ := Option.ite_none_left_eq_some.mp stepped
    exact .call fresh
  | advance k =>
    obtain ⟨old, found, moved⟩ := Option.bind_eq_some_iff.mp stepped
    exact .advance found (.of_advance moved)
  | drop k =>
    obtain ⟨_, ⟨⟩⟩ := Option.ite_none_right_eq_some.mp stepped
    exact .drop
  | modify k database =>
    simp only [step] at stepped
    split at stepped <;> cases stepped
    exact .modify ‹_›
  | invalidate k provider =>
    simp only [step] at stepped
    split at stepped
    · obtain ⟨_, ⟨⟩⟩ := Option.ite_none_right_eq_some.mp stepped
      exact .invalidate ‹_›
    · cases stepped
  | setActive provider active =>
    cases stepped
    exact .setActive _
  | observe k =>
    simp only [step] at stepped
    split at stepped <;> cases stepped
    exact .observe ‹_›

private theorem sound_goes (sound : Sound w) (found : w.tasks.lookup k = some old) (goes : Goes w k old w') : Sound w' := by
  cases goes with
  | moves _ asks has => exact sound_move sound found asks has
  | asks _ idle asks has => exact sound_ask sound found idle asks has
  | takes _ asks granted idle has => exact sound_take sound found asks granted idle has
  | @guards done rest next origin same granted state =>
    subst same
    refine sound_take (w := { w.setProvider next state with projectionRevision := _ }) sound found rfl granted
      rfl fun entry => ?_
    simp only [Stage.has, List.mem_cons, List.map_append, List.mem_append, List.map_cons,
      List.map_nil, List.not_mem_nil, or_false, or_assoc]
  | leaves providers => exact sound_leave (w := { w with providers := providers }) sound k

theorem sound_step (sound : Sound w) (stepped : step w label = some w') : Sound w' := by
  cases Moves.of_step stepped with
  | call fresh => exact sound_new sound fresh _
  | advance found goes => exact sound_goes sound found goes
  | drop => exact sound_leave sound _
  | modify | invalidate | setActive | observe => exact sound

theorem sound_initial (instanceName : String) (database : Database) :
    Sound (World.initial instanceName database) :=
  ⟨fun _ => free_valid, nofun, nofun, fun _ _ _ ⟨_, found, _⟩ => by cases found⟩

/-! ## The order of the locks -/

theorem asks_above (ordered : stage.Ordered) (asks : stage.asks = some (l, mode)) {below : LockId}
    {also : Mode} (has : (below, also) ∈ stage.has) : below < l := by
  cases stage with
  | asking done next rest origin =>
    cases asks
    simp only [Stage.has, List.mem_cons, Prod.mk.injEq, List.mem_map] at has
    obtain ⟨rfl, _⟩ | ⟨provider, member, rfl, _⟩ := has
    · exact WithBot.bot_lt_coe next
    · exact WithBot.coe_lt_coe.mpr
        ((List.pairwise_append.mp ordered).2.2 provider member next List.mem_cons_self)
  | entering entry | opening | waiting starts provider => cases has
  | called call | affected ids | looping done rest origin | guarded done | loading revision
  | reading revision epochs | inside starts provider => cases asks

/-- The tasks take their mutexes in order and each lock once, and the items have
providers that `lockOrder` puts in order. -/
structure InOrder (w : World) : Prop where
  stages : ∀ k stage, w.tasks.lookup k = some stage → stage.Ordered
  positive : Positive w.database
  once : ∀ l, (w.locks l).Once

private theorem inOrder_move (inOrder : InOrder w) (ordered : new.Ordered) : InOrder (w.move k new) := by
  refine ⟨fun j stage found => ?_, inOrder.positive, inOrder.once⟩
  obtain ⟨rfl, rfl⟩ | ⟨-, found⟩ := Hash.lookup_insert_some found
  · exact ordered
  · exact inOrder.stages j stage found

private theorem inOrder_ask (sound : Sound w) (inOrder : InOrder w) (found : w.tasks.lookup k = some old)
    (idle : old.asks = none) (asks : new.asks = some (l, mode)) (has : new.has = old.has)
    (ordered : new.Ordered) : InOrder (w.ask k new l mode) := by
  refine ⟨(inOrder_move inOrder ordered).stages, inOrder.positive, fun other => ?_⟩
  have quiet (also : Mode) : ¬ AsksLock w.tasks k l also := by
    rintro ⟨stage, same, wants⟩
    cases found.symm.trans same
    rw [idle] at wants
    cases wants
  have lacks (also : Mode) : ¬ HasLock w.tasks k l also := by
    rintro ⟨stage, same, there⟩
    cases found.symm.trans same
    exact lt_irrefl l (asks_above ordered asks (has ▸ there))
  change (Function.update w.locks l ((w.locks l).request k mode) other).Once
  by_cases here : other = l
  · subst here
    rw [Function.update_self]
    exact request_once (inOrder.once other) fun also =>
      ⟨fun held => (sound.held other k also held).elim (lacks also) (quiet also),
        fun waiting => quiet also (sound.waiting other k also waiting)⟩
  · rw [Function.update_of_ne here]
    exact inOrder.once other

private theorem inOrder_leave (inOrder : InOrder w) : InOrder (w.leave k) := by
  refine ⟨fun j stage found => ?_, inOrder.positive, fun l => leave_once (inOrder.once l)⟩
  obtain ⟨-, found⟩ := Hash.lookup_erase_some found
  exact inOrder.stages j stage found

private theorem inOrder_goes (sound : Sound w) (inOrder : InOrder w) (found : w.tasks.lookup k = some old)
    (goes : Goes w k old w') : InOrder w' := by
  have ordered := inOrder.stages k old found
  cases goes with
  | moves fits | takes fits => exact inOrder_move inOrder (fits.ordered ordered inOrder.positive)
  | asks fits idle asks has =>
    exact inOrder_ask sound inOrder found idle asks has (fits.ordered ordered inOrder.positive)
  | @guards done rest next origin same granted state =>
    subst same
    refine inOrder_move (w := { w.setProvider next state with projectionRevision := _ }) { inOrder with } ?_
    simpa [Stage.Ordered] using ordered
  | leaves providers => exact inOrder_leave (w := { w with providers := providers }) { inOrder with }

/-- The statements of writers leave the providers of items positive. -/
def KeepsPositive : Label → Prop
  | .modify _ database => Positive database
  | _ => True

instance : DecidablePred KeepsPositive
  | .modify _ database => inferInstanceAs (Decidable (Positive database))
  | .call _ _ | .advance _ | .drop _ | .invalidate _ _ | .setActive _ _ | .observe _ =>
    inferInstanceAs (Decidable True)

theorem inOrder_step (sound : Sound w) (inOrder : InOrder w) (keeps : KeepsPositive label)
    (stepped : step w label = some w') : InOrder w' := by
  cases Moves.of_step stepped with
  | call => exact inOrder_move inOrder trivial
  | advance found goes => exact inOrder_goes sound inOrder found goes
  | drop => exact inOrder_leave inOrder
  | modify => exact { inOrder with positive := keeps }
  | invalidate | setActive | observe => exact { inOrder with }

/-- A task that waits for a lock holds only locks below it. -/
theorem waits_above (sound : Sound w) (inOrder : InOrder w) {below : LockId} (waits : Waits w.locks k l)
    (holds : Holds w.locks k below) : below < l := by
  obtain ⟨mode, waiting⟩ := waits
  obtain ⟨also, held⟩ := holds
  obtain ⟨stage, found, asks⟩ := sound.waiting l k mode waiting
  obtain ⟨same, there, has⟩ | ⟨same, there, wants⟩ := sound.held below k also held
  · cases found.symm.trans there
    exact asks_above (inOrder.stages k stage found) asks has
  · cases found.symm.trans there
    cases asks.symm.trans wants
    exact absurd held ((inOrder.once l).apart waiting)

/-- The worlds reached from a new coordinator over a database. -/
abbrev Reached (guard : World → Label → Prop) (start : Database → Prop) (w : World) : Prop :=
  Reach (fun w => ∃ instanceName database, start database ∧ w = World.initial instanceName database)
    guard (fun w label w' => step w label = some w') w

theorem reached_sound (reached : Reached guard start w) : Sound w :=
  reached.invariant (fun _ ⟨instanceName, database, _, same⟩ => same ▸ sound_initial instanceName database)
    fun _ _ _ sound _ stepped => sound_step sound stepped

theorem reached_inOrder (reached : Reached (fun _ => KeepsPositive) Positive w) : InOrder w := by
  let Both : World → Prop := fun w => Sound w ∧ InOrder w
  suffices both : Both w from both.2
  refine reached.invariant (fun _ initial => ?_) fun _ _ _ both keeps stepped =>
    ⟨sound_step both.1 stepped, inOrder_step both.1 both.2 keeps stepped⟩
  obtain ⟨instanceName, database, positive, rfl⟩ := initial
  refine ⟨sound_initial instanceName database, ⟨fun _ _ found => ?_, positive, fun _ => free_once⟩⟩
  cases found

private theorem waiting_finite (sound : Sound w) : {l | (w.locks l).waiting ≠ []}.Finite := by
  refine (List.finite_toSet (w.tasks.entries.filterMap fun task => task.2.asks.map Prod.fst)).subset
    fun l busy => ?_
  obtain ⟨⟨k, mode⟩, rest, same⟩ := List.exists_cons_of_ne_nil busy
  obtain ⟨stage, found, asks⟩ := sound.waiting l k mode (by simp [same])
  exact List.mem_filterMap.mpr ⟨⟨k, stage⟩, (Hash.lookup_eq_some_iff _ _ _).mp found, by simp [asks]⟩

/-- Where an operation waits for a lock, there is a holder of a lock that does not
wait, and no operation waits for a lock it holds. -/
theorem locks_do_not_block (reached : Reached (fun _ => KeepsPositive) Positive w) :
    ((∃ k l, Waits w.locks k l) → ∃ k l, Holds w.locks k l ∧ ∀ other, ¬ Waits w.locks k other) ∧
      ∀ k l, Waits w.locks k l → ¬ Holds w.locks k l := by
  have sound := reached_sound reached
  have inOrder := reached_inOrder reached
  refine ⟨exists_active sound.valid (fun k l below => waits_above sound inOrder) (waiting_finite sound),
    fun k l waits holds => ?_⟩
  exact lt_irrefl l (waits_above sound inOrder waits holds)

/-- A writer has its guard, and a snapshot waits for it. -/
theorem snapshot_waits :
    ∃ w, Reached (fun _ => KeepsPositive) Positive w ∧ Waits w.locks 1 projection ∧
      ∃ k l, Holds w.locks k l ∧ ∀ other, ¬ Waits w.locks k other := by
  have start : Reached (fun _ => KeepsPositive) Positive (World.initial "backend" .empty) :=
    .start ⟨"backend", .empty, nofun, rfl⟩
  obtain ⟨w, played, waiting⟩ : ∃ w, play (fun _ => KeepsPositive) step (World.initial "backend" .empty)
      [.call 0 (.write 1 none), .advance 0, .advance 0, .advance 0, .advance 0, .advance 0,
        .call 1 .readSnapshot, .advance 1] = some w ∧
      (w.locks projection).waiting = [(1, .exclusive)] := ⟨_, rfl, rfl⟩
  have reached := start.play _ played
  have waits : Waits w.locks 1 projection := ⟨.exclusive, by simp [waiting]⟩
  exact ⟨w, reached, waits, (locks_do_not_block reached).1 ⟨1, projection, waits⟩⟩

/-! ## Snapshots -/

/-- What was observed before: at the current revision it is what there is now, and
while there is a guard it is of earlier revisions. -/
structure Snapshots (w : World) : Prop where
  named : ∀ o ∈ w.observations, o.instanceName = w.instanceName
  bound : ∀ o ∈ w.observations, o.revision ≤ w.projectionRevision
  current : ∀ o ∈ w.observations, o.revision = w.projectionRevision →
    o.epochs = w.epochs ∧ o.database = w.database
  guarded : ∀ k stage, w.tasks.lookup k = some stage → stage.guards ≠ [] →
    ∀ o ∈ w.observations, o.revision < w.projectionRevision
  stages : ∀ k stage, w.tasks.lookup k = some stage → stage.Current w ∧ stage.Stocked
  agree : ∀ o ∈ w.observations, ∀ other ∈ w.observations, o.revision = other.revision →
    o.epochs = other.epochs ∧ o.database = other.database
  sorted : w.observations.Pairwise fun o later => o.revision ≤ later.revision

theorem guards_share (guards : stage.guards ≠ []) : (projection, .shared) ∈ stage.has := by
  cases stage with
  | looping done rest origin | asking done next rest origin | guarded done => exact .head _
  | called call | affected ids | entering entry | opening | loading revision | reading revision epochs
  | waiting starts provider | inside starts provider => exact absurd rfl guards

section

variable (snapshots : Snapshots w)
  (guards : new.guards ≠ [] → ∀ o ∈ w.observations, o.revision < w.projectionRevision)
  (fits : new.Current w ∧ new.Stocked)
include snapshots guards fits

private theorem snapshots_move : Snapshots (w.move k new) := by
  refine { snapshots with guarded := fun j stage found => ?_, stages := fun j stage found => ?_ }
  all_goals
    change (w.tasks.insert k new).lookup j = some stage at found
    rw [Hash.lookup_insert] at found
    split at found
  · cases found
    exact guards
  · exact snapshots.guarded j stage found
  · cases found
    cases new <;> exact fits
  · have before := snapshots.stages j stage found
    cases stage <;> exact before

private theorem snapshots_ask : Snapshots (w.ask k new l mode) := by
  have moved := snapshots_move (k := k) snapshots guards fits
  refine { moved with stages := fun j stage found => ?_ }
  have before := moved.stages j stage found
  cases stage <;> exact before

end

private theorem snapshots_leave (snapshots : Snapshots w) : Snapshots (w.leave k) := by
  refine { snapshots with guarded := fun j stage found => ?_, stages := fun j stage found => ?_ }
  all_goals
    change (w.tasks.erase k).lookup j = some stage at found
    rw [Hash.lookup_erase] at found
    split at found
    · cases found
  · exact snapshots.guarded j stage found
  · have before := snapshots.stages j stage found
    cases stage <;> exact before

/-- While a writer shares the projection, nobody has it alone. -/
private theorem shared_unread (sound : Sound w) (found : w.tasks.lookup k = some old)
    (shares : (projection, .shared) ∈ old.has) : (j, .exclusive) ∉ (w.locks projection).held := by
  intro alone
  have held := sound.holding k projection .shared ⟨old, found, shares⟩
  cases ((sound.valid projection).alone alone held).2

/-- A change made by a writer that shares the projection. -/
private theorem current_changed (sound : Sound w) (found : w.tasks.lookup k = some old)
    (shares : (projection, .shared) ∈ old.has) (also : w.tasks.lookup j = some stage) (w' : World) :
    stage.Current w' := by
  cases stage with
  | loading revision | reading revision epochs =>
    exact absurd (sound.holding j projection .exclusive ⟨_, also, .head _⟩)
      (shared_unread sound found shares)
  | _ => trivial

/-- A guard advances the revision past all that was observed. -/
private theorem snapshots_bump (sound : Sound w) (snapshots : Snapshots w)
    (found : w.tasks.lookup k = some old) (shares : (projection, .shared) ∈ old.has)
    (provider : Int) (state : ProviderState) :
    Snapshots { w.setProvider provider state with projectionRevision := w.projectionRevision + 1 } where
  named := snapshots.named
  bound o member := (snapshots.bound o member).trans (Nat.le_succ _)
  current o member same := by
    have bound := snapshots.bound o member
    simp only at same
    omega
  guarded _ _ _ _ o member := Nat.lt_succ_of_le (snapshots.bound o member)
  stages j stage also :=
    ⟨current_changed sound found shares also _, (snapshots.stages j stage also).2⟩
  agree := snapshots.agree
  sorted := snapshots.sorted

private theorem snapshots_providers (snapshots : Snapshots w) (providers : Int → ProviderState) :
    Snapshots { w with providers := providers } := by
  refine { snapshots with stages := fun j stage found => ?_ }
  have before := snapshots.stages j stage found
  cases stage <;> exact before

section

variable (sound : Sound w) (snapshots : Snapshots w)
include sound snapshots

private theorem snapshots_goes (found : w.tasks.lookup k = some old) (goes : Goes w k old w') : Snapshots w' := by
  have guards := snapshots.guarded k old found
  have before := snapshots.stages k old found
  cases goes with
  | moves fits | takes fits =>
    exact snapshots_move snapshots (fun some => guards (fits.guards some))
      ⟨fits.current before.1, fits.stocked before.2⟩
  | asks fits =>
    exact snapshots_ask snapshots (fun some => guards (fits.guards some))
      ⟨fits.current before.1, fits.stocked before.2⟩
  | @guards done rest next origin same granted state =>
    subst same
    have bumped := snapshots_bump sound snapshots found (.head _) next state
    exact snapshots_move bumped (fun _ o member => Nat.lt_succ_of_le (snapshots.bound o member))
      ⟨trivial, by simp [Stage.Stocked]⟩
  | leaves providers => exact snapshots_leave (snapshots_providers snapshots providers)

/-- A writer that has its guards may change the database and the epochs. -/
private theorem snapshots_changed {done : List Int} (found : w.tasks.lookup k = some (.guarded done))
    (database : Database) (epochs : Hash Int Nat) :
    Snapshots { w with database := database, epochs := epochs } where
  named := snapshots.named
  bound := snapshots.bound
  current o member same := by
    have earlier := snapshots.guarded k _ found (snapshots.stages k _ found).2 o member
    exact absurd same (Nat.ne_of_lt earlier)
  guarded := snapshots.guarded
  stages j stage also :=
    ⟨current_changed sound found (.head _) also _, (snapshots.stages j stage also).2⟩
  agree := snapshots.agree
  sorted := snapshots.sorted

private theorem snapshots_observe {revision : Nat} {epochs : Hash Int Nat}
    (found : w.tasks.lookup k = some (.reading revision epochs)) : Snapshots { w with observations :=
      w.observations ++ [⟨w.instanceName, revision, epochs, w.database⟩] } := by
  obtain ⟨rfl, rfl⟩ := (snapshots.stages k _ found).1
  refine ⟨fun o member => ?_, fun o member => ?_, fun o member same => ?_,
    fun j stage also guards => ?_, fun j stage also => ?_, fun o member other listed same => ?_, ?_⟩
  · obtain before | rfl := mem_snoc member
    · exact snapshots.named o before
    · rfl
  · obtain before | rfl := mem_snoc member
    · exact snapshots.bound o before
    · exact le_rfl
  · obtain before | rfl := mem_snoc member
    · exact snapshots.current o before same
    · exact ⟨rfl, rfl⟩
  · exact absurd (sound.holding k projection .exclusive ⟨_, found, .head _⟩)
      (shared_unread sound also (guards_share guards))
  · have before := snapshots.stages j stage also
    cases stage <;> exact before
  · obtain before | rfl := mem_snoc member <;> obtain earlier | rfl := mem_snoc listed
    · exact snapshots.agree o before other earlier same
    · exact snapshots.current o before same
    · exact (snapshots.current other earlier same.symm).imp Eq.symm Eq.symm
    · exact ⟨rfl, rfl⟩
  · refine List.pairwise_append.mpr ⟨snapshots.sorted, List.pairwise_singleton _ _, ?_⟩
    exact fun o before now last => List.mem_singleton.mp last ▸ snapshots.bound o before

theorem snapshots_step (stepped : step w label = some w') : Snapshots w' := by
  cases Moves.of_step stepped with
  | call => exact snapshots_move snapshots (absurd rfl) ⟨trivial, trivial⟩
  | advance found goes => exact snapshots_goes sound snapshots found goes
  | drop => exact snapshots_leave snapshots
  | modify found => exact snapshots_changed sound snapshots found _ w.epochs
  | invalidate found => exact snapshots_changed sound snapshots found w.database _
  | setActive providers => exact snapshots_providers snapshots providers
  | observe found => exact snapshots_observe sound snapshots found

end

theorem reached_snapshots (reached : Reached guard start w) : Snapshots w := by
  let Both : World → Prop := fun w => Sound w ∧ Snapshots w
  suffices both : Both w from both.2
  refine reached.invariant (fun _ initial => ?_) fun _ _ _ both _ stepped =>
    ⟨sound_step both.1 stepped, snapshots_step both.1 both.2 stepped⟩
  obtain ⟨instanceName, database, _, rfl⟩ := initial
  refine ⟨sound_initial instanceName database, nofun, nofun, nofun, fun _ _ found => ?_,
    fun _ _ found => ?_, nofun, .nil⟩
  all_goals cases found

/-- A snapshot and a write guard are never held together, two observations at one
revision of one instance saw the same epochs and the same database, and revisions
are observed in their order. -/
theorem snapshots_are_consistent (reached : Reached (fun _ _ => True) (fun _ => True) w) :
    (∀ k, (k, .exclusive) ∈ (w.locks projection).held →
      ∀ j stage, w.tasks.lookup j = some stage → stage.guards = []) ∧
    (∀ o ∈ w.observations, ∀ other ∈ w.observations, o.instanceName = other.instanceName →
      o.revision = other.revision → o.database = other.database ∧ o.epochs = other.epochs) ∧
    w.observations.Pairwise fun o later => o.revision ≤ later.revision := by
  have sound := reached_sound reached
  have snapshots := reached_snapshots reached
  refine ⟨fun k alone j stage found => ?_, fun o member other listed _ same => ?_, snapshots.sorted⟩
  · by_contra guards
    exact shared_unread sound found (guards_share guards) alone
  · exact (snapshots.agree o member other listed same).symm

/-- A snapshot before a write and one after it. -/
theorem write_between_snapshots :
    ∃ w, Reached (fun _ _ => True) (fun _ => True) w ∧
      w.observations.map Observation.revision = [1, 2] ∧
      w.observations.Pairwise fun o later => o.revision ≤ later.revision := by
  have start : Reached (fun _ _ => True) (fun _ => True) (World.initial "backend" .empty) :=
    .start ⟨"backend", .empty, trivial, rfl⟩
  have reached := start.play [.call 0 .readSnapshot, .advance 0, .advance 0, .advance 0, .observe 0, .drop 0,
    .call 1 (.write 1 none), .advance 1, .advance 1, .advance 1, .advance 1, .advance 1, .modify 1 .empty,
    .drop 1, .call 2 .readSnapshot, .advance 2, .advance 2, .advance 2, .observe 2] rfl
  exact ⟨_, reached, rfl, (snapshots_are_consistent reached).2.2⟩

end Qcm.SyncLocks
