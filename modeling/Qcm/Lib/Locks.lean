import Mathlib

/-!
Read-write locks that serve their requests in the order of arrival, and tasks
that take several of them.  A mutex is a lock that is only asked for exclusively.

A lock that has requests waiting is held (`Lock.Valid.held_of_waiting`), so tasks
that take their locks in one order cannot wait for each other in a circle
(`exists_active`).
-/

namespace Qcm.Lib.Locks

variable {τ ι : Type*}

inductive Mode where
  | shared
  | exclusive
deriving DecidableEq, Repr

/-- Those who hold a lock, and those who wait for it, first come first. -/
structure Lock (τ : Type*) where
  held : List (τ × Mode)
  waiting : List (τ × Mode)

def Lock.free : Lock τ := ⟨[], []⟩

/-- Whether a request can be granted beside those who hold the lock. -/
def admits (held : List (τ × Mode)) : Mode → Bool
  | .shared => held.all fun holder => holder.2 = .shared
  | .exclusive => held.isEmpty

/-- Requests are granted in their order while they can be. -/
def promote (held : List (τ × Mode)) : List (τ × Mode) → Lock τ
  | [] => ⟨held, []⟩
  | request :: rest =>
    if admits held request.2 then promote (held ++ [request]) rest else ⟨held, request :: rest⟩

/-- A request joins the queue, and is granted at once when nobody is before it. -/
def Lock.request (lock : Lock τ) (t : τ) (mode : Mode) : Lock τ :=
  promote lock.held (lock.waiting ++ [(t, mode)])

/-- A task lets go of the lock and withdraws its requests. -/
def Lock.leave [DecidableEq τ] (lock : Lock τ) (t : τ) : Lock τ :=
  promote (lock.held.filter fun holder => holder.1 ≠ t) (lock.waiting.filter fun request => request.1 ≠ t)

/-! ## One lock -/

variable {lock : Lock τ} {held waiting : List (τ × Mode)} {t u : τ} {mode : Mode}

/-- Several may share a lock, and one may hold it exclusively. -/
def Compatible (held : List (τ × Mode)) : Prop :=
  (∀ holder ∈ held, holder.2 = .shared) ∨ ∃ t, held = [(t, .exclusive)]

/-- The holders are compatible, and the first who waits cannot be granted. -/
structure Lock.Valid (lock : Lock τ) : Prop where
  compatible : Compatible lock.held
  served : ∀ request rest, lock.waiting = request :: rest → admits lock.held request.2 = false

variable {entry : τ × Mode}

theorem free_valid : (Lock.free : Lock τ).Valid := ⟨.inl nofun, nofun⟩

theorem compatible_append (compatible : Compatible held) (admitted : admits held mode = true) :
    Compatible (held ++ [(t, mode)]) := by
  cases mode with
  | shared =>
    refine .inl fun holder member => ?_
    obtain before | now := List.mem_append.mp member
    · exact of_decide_eq_true (List.all_eq_true.mp admitted holder before)
    · cases List.mem_singleton.mp now
      rfl
  | exclusive =>
    obtain rfl := List.isEmpty_iff.mp admitted
    exact .inr ⟨t, rfl⟩

/-- Nobody is forgotten, and nobody is granted twice. -/
theorem promote_append (held waiting : List (τ × Mode)) :
    (promote held waiting).held ++ (promote held waiting).waiting = held ++ waiting := by
  induction waiting generalizing held with
  | nil => rfl
  | cons request rest ih =>
    unfold promote
    split
    · rw [ih]
      simp
    · rfl

theorem promote_valid (compatible : Compatible held) : (promote held waiting).Valid := by
  induction waiting generalizing held with
  | nil => exact ⟨compatible, nofun⟩
  | cons request rest ih =>
    unfold promote
    split
    · rename_i admitted
      exact ih (compatible_append compatible admitted)
    · rename_i refused
      refine ⟨compatible, fun first others same => ?_⟩
      cases same
      exact Bool.eq_false_iff.mpr refused

theorem mem_promote_held (member : entry ∈ held) : entry ∈ (promote held waiting).held := by
  induction waiting generalizing held with
  | nil => exact member
  | cons request rest ih =>
    unfold promote
    split
    · exact ih (List.mem_append_left _ member)
    · exact member

/-- Those who wait afterwards waited before. -/
theorem mem_promote_waiting (member : entry ∈ (promote held waiting).waiting) : entry ∈ waiting := by
  induction waiting generalizing held with
  | nil => cases member
  | cons request rest ih =>
    unfold promote at member
    split at member
    · exact .tail _ (ih member)
    · exact member

/-- Those who hold the lock afterwards held it or waited for it. -/
theorem mem_of_mem_promote (member : entry ∈ (promote held waiting).held) :
    entry ∈ held ∨ entry ∈ waiting := by
  rw [← List.mem_append, ← promote_append held waiting]
  exact List.mem_append_left _ member

/-- Where somebody waits, somebody holds the lock. -/
theorem Lock.Valid.held_of_waiting (valid : lock.Valid) (waits : lock.waiting ≠ []) : lock.held ≠ [] := by
  obtain ⟨request, rest, same⟩ := List.exists_cons_of_ne_nil waits
  intro free
  have refused := valid.served request rest same
  rw [free] at refused
  cases mode : request.2 with
  | shared | exclusive => simp [admits, mode] at refused

/-- Who holds a lock exclusively holds it alone. -/
theorem Lock.Valid.alone (valid : lock.Valid) (holds : (t, .exclusive) ∈ lock.held)
    (also : (u, mode) ∈ lock.held) : u = t ∧ mode = .exclusive := by
  obtain shared | ⟨owner, same⟩ := valid.compatible
  · cases shared _ holds
  · rw [same, List.mem_singleton] at holds also
    cases holds
    cases also
    exact ⟨rfl, rfl⟩

theorem compatible_filter (compatible : Compatible held) (keep : τ × Mode → Bool) :
    Compatible (held.filter keep) := by
  obtain shared | ⟨t, rfl⟩ := compatible
  · exact .inl fun holder member => shared holder (List.mem_filter.mp member).1
  · by_cases kept : keep (t, .exclusive) = true
    · exact .inr ⟨t, by simp [kept]⟩
    · exact .inl fun holder member => by simp [kept] at member

theorem request_valid (valid : lock.Valid) : (lock.request t mode).Valid := promote_valid valid.compatible

theorem leave_valid [DecidableEq τ] (valid : lock.Valid) : (lock.leave t).Valid :=
  promote_valid (compatible_filter valid.compatible _)

/-- No task is there twice. -/
def Lock.Once (lock : Lock τ) : Prop := ((lock.held ++ lock.waiting).map Prod.fst).Nodup

/-- Who waits for a lock does not hold it. -/
theorem Lock.Once.apart (once : lock.Once) (waits : (t, mode) ∈ lock.waiting) {also : Mode} :
    (t, also) ∉ lock.held := by
  intro holds
  rw [Lock.Once, List.map_append, List.nodup_append] at once
  exact once.2.2 t (List.mem_map_of_mem holds) t (List.mem_map_of_mem waits) rfl

theorem free_once : (Lock.free : Lock τ).Once := List.nodup_nil

/-- A task that is not there asks for the lock. -/
theorem request_once (once : lock.Once)
    (stranger : ∀ also, (t, also) ∉ lock.held ∧ (t, also) ∉ lock.waiting) :
    (lock.request t mode).Once := by
  rw [Lock.Once, Lock.request, promote_append, ← List.append_assoc, List.map_append, List.nodup_append]
  refine ⟨once, List.nodup_singleton _, fun u before v now same => ?_⟩
  obtain rfl : v = t := by simpa using now
  obtain ⟨⟨u, also⟩, member, rfl⟩ := List.mem_map.mp before
  subst same
  exact (List.mem_append.mp member).elim (stranger also).1 (stranger also).2

theorem leave_once [DecidableEq τ] (once : lock.Once) : (lock.leave t).Once := by
  rw [Lock.Once, Lock.leave, promote_append, ← List.filter_append]
  exact once.sublist (List.filter_sublist.map _)

/-! ## Many locks -/

/-- What tasks have of a family of locks: a task holds the locks of `holds`, and
has asked for those of `wants`, each of which it holds by now or waits for. -/
structure Owned (locks : ι → Lock τ) (holds wants : τ → ι → Mode → Prop) : Prop where
  valid : ∀ l, (locks l).Valid
  held : ∀ l t mode, (t, mode) ∈ (locks l).held → holds t l mode ∨ wants t l mode
  waiting : ∀ l t mode, (t, mode) ∈ (locks l).waiting → wants t l mode
  holding : ∀ t l mode, holds t l mode → (t, mode) ∈ (locks l).held

variable {locks : ι → Lock τ} {holds wants : τ → ι → Mode → Prop} {l : ι}

/-- A task waits for a lock. -/
def Waits (locks : ι → Lock τ) (t : τ) (l : ι) : Prop := ∃ mode, (t, mode) ∈ (locks l).waiting

/-- A task holds a lock. -/
def Holds (locks : ι → Lock τ) (t : τ) (l : ι) : Prop := ∃ mode, (t, mode) ∈ (locks l).held

/-- Tasks that wait for no lock below one they hold: where somebody waits, there is
a holder that does not wait. -/
theorem exists_active [LinearOrder ι] (valid : ∀ l, (locks l).Valid)
    (ordered : ∀ t l below, Waits locks t l → Holds locks t below → below < l)
    (finite : {l | (locks l).waiting ≠ []}.Finite) (waits : ∃ t l, Waits locks t l) :
    ∃ t l, Holds locks t l ∧ ∀ other, ¬ Waits locks t other := by
  obtain ⟨first, l, mode, member⟩ := waits
  obtain ⟨top, busy, greatest⟩ := finite.exists_maximal ⟨l, List.ne_nil_of_mem member⟩
  obtain ⟨⟨t, mode⟩, rest, same⟩ := List.exists_cons_of_ne_nil ((valid top).held_of_waiting busy)
  have holder : Holds locks t top := ⟨mode, by simp [same]⟩
  refine ⟨t, top, holder, fun other waiting => ?_⟩
  have above := ordered t other top waiting holder
  obtain ⟨_, member⟩ := waiting
  exact absurd above (not_lt.mpr (greatest (List.ne_nil_of_mem member) above.le))

/-- A task asks for one more lock. -/
theorem Owned.request [DecidableEq ι] [DecidableEq τ] (owned : Owned locks holds wants)
    (mode : Mode) (idle : ∀ l mode, ¬ wants t l mode) :
    Owned (Function.update locks l ((locks l).request t mode)) holds
      (Function.update wants t fun other also => other = l ∧ also = mode) := by
  have asked (u : τ) (k : ι) (also : Mode) (before : wants u k also) :
      Function.update wants t (fun other also => other = l ∧ also = mode) u k also := by
    by_cases here : u = t
    · subst here
      exact absurd before (idle k also)
    · rw [Function.update_of_ne here]
      exact before
  have mine : Function.update wants t (fun other also => other = l ∧ also = mode) t l mode := by
    rw [Function.update_self]
    exact ⟨rfl, rfl⟩
  refine ⟨fun k => ?_, fun k u also member => ?_, fun k u also member => ?_, fun u k also has => ?_⟩
  all_goals by_cases here : k = l
  · subst here
    rw [Function.update_self]
    exact request_valid (owned.valid k)
  · rw [Function.update_of_ne here]
    exact owned.valid k
  · subst here
    rw [Function.update_self] at member
    obtain before | after := mem_of_mem_promote member
    · exact (owned.held k u also before).imp_right (asked u k also)
    · obtain before | now := List.mem_append.mp after
      · exact .inr (asked u k also (owned.waiting k u also before))
      · cases List.mem_singleton.mp now
        exact .inr mine
  · rw [Function.update_of_ne here] at member
    exact (owned.held k u also member).imp_right (asked u k also)
  · subst here
    rw [Function.update_self] at member
    obtain before | now := List.mem_append.mp (mem_promote_waiting member)
    · exact asked u k also (owned.waiting k u also before)
    · cases List.mem_singleton.mp now
      exact mine
  · rw [Function.update_of_ne here] at member
    exact asked u k also (owned.waiting k u also member)
  · subst here
    rw [Function.update_self]
    exact mem_promote_held (owned.holding u k also has)
  · rw [Function.update_of_ne here]
    exact owned.holding u k also has

/-- The request of a task is granted. -/
def Granted (lock : Lock τ) (t : τ) (mode : Mode) : Prop :=
  (t, mode) ∈ lock.held ∧ ∀ request ∈ lock.waiting, request.1 ≠ t

instance [DecidableEq τ] (lock : Lock τ) (t : τ) (mode : Mode) : Decidable (Granted lock t mode) :=
  inferInstanceAs (Decidable (_ ∧ _))

/-- A task has what it asked for. -/
theorem Owned.acquire [DecidableEq τ] (owned : Owned locks holds wants)
    (granted : Granted (locks l) t mode) (asked : ∀ k also, wants t k also → k = l ∧ also = mode) :
    Owned locks (Function.update holds t fun k also => holds t k also ∨ (k = l ∧ also = mode))
      (Function.update wants t fun _ _ => False) := by
  refine ⟨owned.valid, fun k u also member => ?_, fun k u also member => ?_, fun u k also has => ?_⟩
  all_goals by_cases here : u = t
  · subst here
    rw [Function.update_self]
    exact .inl ((owned.held k u also member).imp_right (asked k also))
  · rw [Function.update_of_ne here, Function.update_of_ne here]
    exact owned.held k u also member
  · subst here
    obtain ⟨rfl, rfl⟩ := asked k also (owned.waiting k u also member)
    exact absurd rfl (granted.2 _ member)
  · rw [Function.update_of_ne here]
    exact owned.waiting k u also member
  · subst here
    rw [Function.update_self] at has
    obtain before | ⟨rfl, rfl⟩ := has
    · exact owned.holding u k also before
    · exact granted.1
  · rw [Function.update_of_ne here] at has
    exact owned.holding u k also has

/-- A task lets go of all it has and asked for. -/
theorem Owned.leave [DecidableEq τ] (owned : Owned locks holds wants) (t : τ) :
    Owned (fun l => (locks l).leave t) (Function.update holds t fun _ _ => False)
      (Function.update wants t fun _ _ => False) := by
  have other {k : ι} {u : τ} {also : Mode} (member : (u, also) ∈ (locks k).held.filter fun holder => holder.1 ≠ t) :
      (u, also) ∈ (locks k).held ∧ u ≠ t := by simpa using member
  have waiter {k : ι} {u : τ} {also : Mode}
      (member : (u, also) ∈ (locks k).waiting.filter fun request => request.1 ≠ t) :
      (u, also) ∈ (locks k).waiting ∧ u ≠ t := by simpa using member
  refine ⟨fun k => leave_valid (owned.valid k), fun k u also member => ?_, fun k u also member => ?_,
    fun u k also has => ?_⟩
  · obtain before | after := mem_of_mem_promote member
    · obtain ⟨held, apart⟩ := other before
      rw [Function.update_of_ne apart, Function.update_of_ne apart]
      exact owned.held k u also held
    · obtain ⟨waits, apart⟩ := waiter after
      rw [Function.update_of_ne apart, Function.update_of_ne apart]
      exact .inr (owned.waiting k u also waits)
  · obtain ⟨waits, apart⟩ := waiter (mem_promote_waiting member)
    rw [Function.update_of_ne apart]
    exact owned.waiting k u also waits
  · by_cases here : u = t
    · subst here
      rw [Function.update_self] at has
      exact has.elim
    · rw [Function.update_of_ne here] at has
      exact mem_promote_held (List.mem_filter.mpr ⟨owned.holding u k also has, by simpa using here⟩)

end Qcm.Lib.Locks
