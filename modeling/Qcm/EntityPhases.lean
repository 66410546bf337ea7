import Qcm.EntityMergeProofs

/-!
The loops of `apply`, one after the other: what the announcements leave of a
batch in progress (`Announced`), and an induction for the loops over the updates
and the removals.
-/

namespace Qcm.EntityPhases

open Lib Lib.Runs EntityStore EntityApplyProofs EntityKey EntityMergeProofs

variable {iteration : Iteration} {store : Store} {batch : EntityBatch} {run : Run} {key : Key}

variable {α : Type} {round : Run → α → Run} {resets : List ReadStamp} {u : Update}

theorem foldl_tracks (Inv : List α → Run → Prop) (rounds : List α)
    (stepped : ∀ seen run a, a ∈ rounds → (round run a).error = "" →
      run.error = "" ∧ (Inv seen run → Inv (seen ++ [a]) (round run a)))
    (run : Run) (clean : (rounds.foldl round run).error = "") :
    run.error = "" ∧ (Inv [] run → Inv rounds (rounds.foldl round run)) := by
  suffices general : ∀ seen rest, seen ++ rest = rounds → ∀ run, (rest.foldl round run).error = "" →
      run.error = "" ∧ (Inv seen run → Inv rounds (rest.foldl round run)) from
    general [] rounds rfl run clean
  intro seen rest whole
  induction rest generalizing seen with
  | nil =>
    intro run clean
    rw [List.append_nil] at whole
    exact ⟨clean, fun held => whole ▸ held⟩
  | cons a rest ih =>
    intro run clean
    have member : a ∈ rounds := whole ▸ by simp
    obtain ⟨between, later⟩ := ih (seen ++ [a]) (by simp [← whole]) (round run a) clean
    obtain ⟨before, now⟩ := stepped seen run a member between
    exact ⟨before, fun held => later (now held)⟩

theorem foldl_keeps (Inv : Run → Prop) (rounds : List α) (stepped : ∀ run a, a ∈ rounds → (round run a).error = "" →
      run.error = "" ∧ (Inv run → Inv (round run a))) (run : Run) (clean : (rounds.foldl round run).error = "") :
    run.error = "" ∧ (Inv run → Inv (rounds.foldl round run)) :=
  foldl_tracks (fun _ => Inv) rounds (fun _ => stepped) run clean

/-! ## Announcements -/

/-- The epoch of an owner once the announcements are met. -/
def announced (store : Store) (resets : List ReadStamp) (owner : Int) : Nat :=
  resets.foldl (fun epoch reset => if reset.owner = owner then max epoch reset.epoch else epoch)
    (Hash.value store.epochs owner 0)

/-- What the announcements leave: no update is merged yet, and an entry whose
epoch is over is on its way out, with all its fields marked. -/
structure Announced (store : Store) (resets : List ReadStamp) (run : Run) : Prop where
  members : run.store = store
  staged : run.staged = ∅
  tombstones : run.tombstones = store.tombstones
  epochs : ∀ owner, Hash.value run.epochs owner 0 = announced store resets owner
  removed : ∀ key, key ∈ run.removed ↔ ∃ entry, store.entries.lookup key = some entry ∧
    ∃ reset ∈ resets, reset.owner = entry.owner ∧ entry.epoch < reset.epoch
  changed : ∀ key, Hash.value run.changed key ∅ = if key ∈ run.removed then AllFields else ∅

/-- No entry is of an epoch other than the current one of its owner. -/
def EpochsAgree (store : Store) : Prop :=
  ∀ key entry, store.entries.lookup key = some entry →
    entry.epoch = Hash.value store.epochs entry.owner 0

theorem announced_append (resets : List ReadStamp) (reset : ReadStamp) (owner : Int) :
    announced store (resets ++ [reset]) owner =
      if reset.owner = owner then max (announced store resets owner) reset.epoch
      else announced store resets owner := by
  simp [announced]

/-- An epoch is announced, or was there. -/
theorem lt_announced {owner : Int} {epoch : Nat} :
    epoch < announced store resets owner ↔ epoch < Hash.value store.epochs owner 0 ∨
      ∃ reset ∈ resets, reset.owner = owner ∧ epoch < reset.epoch := by
  induction resets using List.reverseRecOn with
  | nil => simp [announced]
  | append_singleton resets reset ih =>
    rw [announced_append]
    simp only [List.mem_append, List.mem_singleton, or_and_right, exists_or, exists_eq_left]
    split
    · rename_i same
      rw [lt_max_iff, ih]
      simp only [same, true_and, or_assoc]
    · rename_i apart
      rw [ih]
      simp only [apart, false_and, or_false]

private theorem foldl_discard_changed (keys : List Key) (run : Run) (key : Key) :
    Hash.value (keys.foldl Run.discard run).changed key ∅ =
      if key ∈ keys then AllFields else Hash.value run.changed key ∅ := by
  induction keys generalizing run with
  | nil => simp
  | cons first rest ih =>
    rw [List.foldl_cons, ih, Run.discard, Hash.value_insert]
    by_cases later : key ∈ rest
    · simp [later]
    · simp [later]

private theorem invalidate_announced (consistent : EpochsAgree store)
    (before : Announced store resets run) (reset : ReadStamp) :
    Announced store (resets ++ [reset]) (invalidate iteration run reset) := by
  unfold invalidate
  split
  · rename_i new
    rw [before.epochs] at new
    obtain ⟨removed, changed, statuses, same, members⟩ :=
      foldl_discard (iteration.order (outdated run.store reset.owner reset.epoch))
        { run with epochs := run.epochs.insert reset.owner reset.epoch }
    have marks := foldl_discard_changed
      (iteration.order (outdated run.store reset.owner reset.epoch))
      { run with epochs := run.epochs.insert reset.owner reset.epoch }
    have gone (key : Key) := (iteration.perm (outdated run.store reset.owner reset.epoch)).mem_iff (a := key)
    rw [same] at marks ⊢
    refine { before with epochs := fun owner => ?_, removed := fun key => ?_, changed := fun key => ?_ }
    · change Hash.value (run.epochs.insert reset.owner reset.epoch) owner 0 = _
      rw [Hash.value_insert, announced_append, before.epochs]
      by_cases here : owner = reset.owner
      · subst here
        rw [if_pos rfl, if_pos rfl, Nat.max_eq_right (Nat.le_of_lt new)]
      · rw [if_neg here, if_neg (Ne.symm here)]
    · change key ∈ removed ↔ _
      rw [members, gone, mem_outdated, before.members]
      change _ ∨ key ∈ run.removed ↔ _
      rw [before.removed]
      simp only [Option.any_eq_true, outdatedBy, decide_eq_true_eq, List.mem_append,
        List.mem_singleton]
      constructor
      · rintro (⟨entry, found, owner, old⟩ | ⟨entry, found, other, member, owner, old⟩)
        · exact ⟨entry, found, reset, .inr rfl, owner.symm, old⟩
        · exact ⟨entry, found, other, .inl member, owner, old⟩
      · rintro ⟨entry, found, other, member | rfl, owner, old⟩
        · exact .inr ⟨entry, found, other, member, owner, old⟩
        · exact .inl ⟨entry, found, owner.symm, old⟩
    · change Hash.value changed key ∅ = if key ∈ removed then AllFields else ∅
      rw [marks, before.changed]
      simp only [members]
      by_cases now : key ∈ iteration.order (outdated run.store reset.owner reset.epoch)
      · rw [if_pos now, if_pos (.inl now)]
      · simp only [now, if_false, false_or]
  · rename_i old
    rw [before.epochs] at old
    refine { before with epochs := fun owner => ?_, removed := fun key => ?_ }
    · rw [before.epochs, announced_append]
      split
      · rename_i same
        subst same
        exact (Nat.max_eq_left (Nat.le_of_not_lt old)).symm
      · rfl
    · rw [before.removed]
      simp only [List.mem_append, List.mem_singleton]
      constructor
      · rintro ⟨entry, found, other, member, owner, beyond⟩
        exact ⟨entry, found, other, .inl member, owner, beyond⟩
      · rintro ⟨entry, found, other, member | rfl, owner, beyond⟩
        · exact ⟨entry, found, other, member, owner, beyond⟩
        · -- an epoch that is no news was announced before, as the entry was of the current one
          have early : entry.epoch < announced store resets entry.owner := by
            rw [owner] at old
            omega
          obtain stale | earlier := lt_announced.mp early
          · rw [← consistent key entry found] at stale
            exact absurd stale (Nat.lt_irrefl _)
          · exact ⟨entry, found, earlier⟩

/-- Announcements that are all valid leave what `Announced` says. -/
theorem invalidations_announced (consistent : EpochsAgree store) (resets : List ReadStamp)
    (clean : (invalidations iteration (Run.start store) resets).error = "") :
    Announced store resets (invalidations iteration (Run.start store) resets) := by
  suffices general : ∀ seen rest, seen ++ rest = resets → ∀ run, Announced store seen run →
      (invalidations iteration run rest).error = "" →
      Announced store resets (invalidations iteration run rest) from
    general [] resets rfl (Run.start store)
      ⟨rfl, rfl, rfl, fun _ => rfl, by simp [Run.start], by simp [Run.start, Hash.value]⟩ clean
  intro seen rest whole
  induction rest generalizing seen with
  | nil =>
    intro run before _
    rw [List.append_nil] at whole
    exact whole ▸ before
  | cons reset rest ih =>
    intro run before clean
    unfold invalidations at clean ⊢
    split at clean
    · exact absurd clean (fail_error _ (by decide))
    · rename_i valid
      rw [if_neg valid]
      exact ih (seen ++ [reset]) (by simp [← whole]) _ (invalidate_announced consistent before reset)
        clean

theorem le_announced (resets : List ReadStamp) (owner : Int) :
    Hash.value store.epochs owner 0 ≤ announced store resets owner := by
  by_contra above
  exact Nat.lt_irrefl _ (lt_announced.mpr (.inl (Nat.lt_of_not_le above)))

theorem merge_owner (member : u ∈ batch.updates) {current : Option Entry} (clean : (merge u current).error = "") :
    (merge u current).entry.owner = (current.getD (freshEntry u)).owner ∧
      (merge u current).entry.epoch = (current.getD (freshEntry u)).epoch := by
  obtain ⟨_, merged⟩ := steps_merged (update_loud member) clean
  exact ⟨merged.frame.owner, merged.frame.epoch⟩

theorem merged_current (merged : UpdateMerged run u (applyUpdate run u)) (key : Key) :
    (EntityKey.view (applyUpdate run u) key).current =
      if key = u.key then some (merge u (EntityKey.view run u.key).current).entry
      else (EntityKey.view run key).current := by
  split
  · rename_i here
    subst here
    simp [EntityKey.view, merged.staged]
  · rename_i apart
    simp [EntityKey.view, merged.staged, merged.removed, apart, List.mem_erase_of_ne apart]

theorem strike_current (run : EntityStore.Run) (removal : Removal) (key : Key) :
    (EntityKey.view (Run.strike run removal) key).current =
      if key = Removal.key removal then none else (EntityKey.view run key).current := by
  split
  · rename_i here
    subst here
    simp [EntityKey.view, Run.strike]
  · rename_i apart
    simp [EntityKey.view, Run.strike, apart]

/-- What holds after the announcements and is kept by every update and every
removal that does not fail holds of what an accepted batch has gathered. -/
theorem gather_induction (Inv : EntityStore.Run → Prop) (consistent : EpochsAgree store)
    (clean : (gather iteration store batch).error = "")
    (base : ∀ run, Announced store batch.invalidations run → Inv run)
    (update : ∀ run u, run.store = store → u ∈ batch.updates → (applyUpdate run u).error = "" →
      Inv run → Inv (applyUpdate run u))
    (removal : ∀ run removal, run.store = store → removal ∈ batch.removals →
      (applyRemoval run removal).error = "" → Inv run → Inv (applyRemoval run removal)) :
    Inv (gather iteration store batch) := by
  rw [gather_eq] at clean ⊢
  obtain ⟨updated, removed⟩ := foldl_keeps (fun run => run.store = store ∧ Inv run) batch.removals
    (fun run a member ran => ⟨(applyRemoval_cases ran).1, fun held =>
      ⟨(applyRemoval_store run a).trans held.1, removal run a held.1 member ran held.2⟩⟩) _ clean
  obtain ⟨announced, merged⟩ := foldl_keeps (fun run => run.store = store ∧ Inv run) batch.updates
    (fun run u member ran => ⟨(applyUpdate_cases (update_key_plain member) ran).1, fun held =>
      ⟨(applyUpdate_store run u).trans held.1, update run u held.1 member ran held.2⟩⟩) _ updated
  have left := invalidations_announced consistent batch.invalidations announced
  exact (removed (merged ⟨left.members, base _ left⟩)).2

theorem Announced.view (left : Announced store batch.invalidations run) (key : Key) :
    (EntityKey.view run key).stored = store.entries.lookup key ∧
      (EntityKey.view run key).current =
        if key ∈ run.removed then none else store.entries.lookup key := by
  simp [EntityKey.view, left.staged, left.members]

theorem Announced.epoch (left : Announced store batch.invalidations run)
    (consistent : EpochsAgree store) {entry : Entry} (found : store.entries.lookup key = some entry)
    (stays : key ∉ run.removed) :
    entry.epoch = announced store batch.invalidations entry.owner := by
  refine Nat.le_antisymm ?_ (Nat.le_of_not_lt fun beyond => stays ?_)
  · rw [consistent key entry found]
    exact le_announced _ _
  · obtain absurd | later := lt_announced.mp beyond
    · rw [← consistent key entry found] at absurd
      exact (Nat.lt_irrefl _ absurd).elim
    · exact (left.removed key).mpr ⟨entry, found, later⟩

theorem apply_epochs_agree (consistent : EpochsAgree store)
    (accepted : (apply iteration store batch).1.error = "") :
    EpochsAgree (apply iteration store batch).2 := by
  have gathered : ∀ key entry, (EntityKey.view (gather iteration store batch) key).current = some entry →
      entry.epoch = Hash.value (gather iteration store batch).epochs entry.owner 0 := by
    refine gather_induction (fun run => ∀ key entry, (EntityKey.view run key).current = some entry →
      entry.epoch = Hash.value run.epochs entry.owner 0) consistent
      (apply_committed accepted ⟨0, 0⟩).1 ?_ ?_ ?_
    · intro run left key entry found
      rw [(left.view key).2] at found
      split at found
      · cases found
      · rename_i stays
        rw [left.epochs]
        exact left.epoch consistent found stays
    · intro run u _ member ran held key entry found
      obtain ⟨_, ⟨_, same⟩ | merged⟩ := applyUpdate_cases (update_key_plain member) ran
      · rw [same] at found ⊢
        exact held key entry found
      · rw [merged.epochs]
        rw [merged_current merged] at found
        split at found
        · obtain ⟨owner, epoch⟩ := merge_owner member merged.clean
          cases found
          rw [owner, epoch]
          cases current : (EntityKey.view run u.key).current with
          | none => exact merged.taken.announced
          | some old => exact held u.key old current
        · exact held key entry found
    · intro run removal _ _ ran held key entry found
      obtain ⟨_, ⟨_, same⟩ | ⟨_, same⟩⟩ := applyRemoval_cases ran
      · rw [same] at found ⊢
        exact held key entry found
      · rw [same] at found ⊢
        rw [strike_current] at found
        split at found
        · cases found
        · exact held key entry found
  intro key entry found
  obtain ⟨_, committed⟩ := apply_committed accepted key
  obtain ⟨clock, stored⟩ := committed.stored
  have same : (apply iteration store batch).2.entries.lookup key = _ := stored
  rw [same] at found
  obtain ⟨old, current, rfl⟩ := Option.map_eq_some_iff.mp found
  exact (gathered key old current).trans (congrFun committed.epochs old.owner).symm

end Qcm.EntityPhases
