import Qcm.EntityStore

/-!
A batch is applied as a whole or not at all.

Everything `apply` does before its last check that can fail goes to its locals:
the members of the store are those it started with (`gather_store`).
-/

namespace Qcm.EntityApplyProofs

open Lib EntityStore

variable {iteration : Iteration} {store : Store} {batch : EntityBatch} {run : Run} {key : Key}

@[simp] theorem fail_store (message : String) : (run.fail message).store = run.store := by
  unfold Run.fail
  split <;> rfl

@[simp] theorem mark_store (fields : Fields) : (run.mark key fields).store = run.store := rfl

@[simp] theorem discard_store : (run.discard key).store = run.store := rfl

theorem foldl_store {α : Type} {round : Run → α → Run}
    (frame : ∀ run a, (round run a).store = run.store) (rounds : List α) (run : Run) :
    (rounds.foldl round run).store = run.store := by
  induction rounds generalizing run with
  | nil => rfl
  | cons first rest ih => rw [List.foldl_cons, ih, frame]

@[simp] theorem invalidate_store (reset : ReadStamp) :
    (invalidate iteration run reset).store = run.store := by
  unfold invalidate
  split
  · exact foldl_store (fun _ _ => discard_store) _ _
  · rfl

@[simp] theorem invalidations_store (resets : List ReadStamp) :
    (invalidations iteration run resets).store = run.store := by
  induction resets generalizing run with
  | nil => rfl
  | cons reset rest ih =>
    unfold invalidations
    split
    · exact fail_store _
    · rw [ih, invalidate_store]

@[simp] theorem ready_store (stamp : ReadStamp) (entry : Entry) :
    (ready run key stamp entry).1.store = run.store := by
  unfold ready
  dsimp only
  split <;> rfl

@[simp] theorem prepare_store (run : Run) (key : Key) (stamp : ReadStamp) (data : Data) :
    (prepare run key stamp data).1.store = run.store := by
  unfold prepare
  repeat' split
  all_goals simp

@[simp] theorem applyUpdate_store (run : Run) (u : Update) :
    (applyUpdate run u).store = run.store := by
  have prepared := prepare_store run u.key u.stamp u.data
  unfold applyUpdate
  split
  · rename_i same
    rw [same] at prepared
    exact prepared
  · rename_i same
    rw [same] at prepared
    dsimp only
    split <;> split <;> simpa using prepared

@[simp] theorem applyRemoval_store (run : Run) (removal : Removal) :
    (applyRemoval run removal).store = run.store := by
  unfold applyRemoval
  dsimp only
  repeat' split
  all_goals simp

/-- Whatever a batch holds, the members are untouched when its last check is made. -/
theorem gather_store (store : Store) (batch : EntityBatch) :
    (gather iteration store batch).store = store := by
  unfold gather
  simp only [foldl_store applyUpdate_store, foldl_store applyRemoval_store, invalidations_store]
  rfl

/-- A batch that is refused leaves every member of the store as it was. -/
theorem refused_batch_changes_nothing (iteration : Iteration) (store : Store)
    (batch : EntityBatch) (refused : (apply iteration store batch).1.error ≠ "") :
    (apply iteration store batch).2 = store := by
  unfold apply at refused ⊢
  split
  · rfl
  · split
    · rfl
    · split
      · rfl
      · dsimp only at refused ⊢
        split
        · exact gather_store store batch
        · rename_i protocol known budget clean
          rw [if_neg protocol, if_neg known, if_neg budget, if_neg clean] at refused
          exact absurd rfl refused

/-- The order of insertion, as one order of iteration. -/
def inOrder : Iteration := ⟨id, fun _ => .refl _⟩

theorem second_song_refused :
    (apply inOrder Store.initial
      { protocol := 2, instanceName := "backend"
        songs := [⟨1, ⟨0, 0, 1⟩, { name := some "first" }, none, none, none⟩,
          ⟨2, ⟨0, 1, 2⟩, { name := some "second" }, none, none, none⟩] }).2 = Store.initial :=
  refused_batch_changes_nothing _ _ _ (by decide)

end Qcm.EntityApplyProofs
