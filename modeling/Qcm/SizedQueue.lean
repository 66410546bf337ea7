import Qcm.Lib.Runs

/-!
The queue that keeps the size of its elements (`QueueWithSize` in
`core/include/core/queue_concurrent.h`).

An element has the size that it says, or else one.  A pop of several takes the
size of an element off twice, and a push adds the size of all it was given even
where it has room for some of them only; without these the size is right.
-/

namespace Qcm.SizedQueue

open Lib Runs

/-- A number of the type `usize`. -/
def wrap (n : Nat) : Nat := n % 2 ^ 64

/-- A difference of the type `usize`. -/
def wrapSub (a b : Nat) : Nat := wrap (a + (2 ^ 64 - wrap b))

structure QueueWithSize (V : Type) where
  queue : List V := []
  dataSize : Nat := 0
  maxSize : Nat
deriving DecidableEq

namespace QueueWithSize

variable {V : Type} (size : V → Nat)

/-- `push_info` of several elements. -/
def pushInfo (vs : List V) : Nat := vs.foldl (fun sum v => wrap (sum + size v)) 0

/-- `push`, and how many of the elements it takes. -/
def push (q : QueueWithSize V) (vs : List V) (info : Nat) : QueueWithSize V × Nat :=
  if q.maxSize > q.dataSize then
    let num := min (wrapSub q.maxSize q.queue.length) vs.length
    ({ q with queue := q.queue ++ vs.take num, dataSize := wrap (q.dataSize + info) }, num)
  else (q, 0)

def pop (q : QueueWithSize V) : QueueWithSize V × Option V :=
  match q.queue with
  | back :: rest => ({ q with queue := rest, dataSize := wrapSub q.dataSize (size back) }, some back)
  | [] => (q, none)

/-- The loop of the `pop` of several elements. -/
def popLoop : Nat → QueueWithSize V → List V → QueueWithSize V × List V
  | 0, q, out => (q, out)
  | num + 1, q, out =>
    match q.pop size with
    | (q, some back) => popLoop num { q with dataSize := wrapSub q.dataSize (size back) } (out ++ [back])
    | (q, none) => (q, out)

/-- The `pop` of several elements. -/
def popMany (q : QueueWithSize V) (num : Nat) : QueueWithSize V × List V := popLoop size (min num q.queue.length) q []

def clear (q : QueueWithSize V) : QueueWithSize V := { q with queue := [], dataSize := 0 }

end QueueWithSize

open QueueWithSize

inductive Call (V : Type) where
  | push (vs : List V)
  | pop
  | popMany (num : Nat)
  | clear

/-- A queue with what it has taken so far, and what it has handed out. -/
structure Used (V : Type) where
  q : QueueWithSize V
  taken : List V := []
  left : List V := []
deriving DecidableEq

variable {V : Type} {size : V → Nat}

/-- A call; a push is told the size of what it is given. -/
def perform (size : V → Nat) (s : Used V) : Call V → Option (Used V)
  | .push vs =>
    let (q, num) := s.q.push vs (pushInfo size vs)
    some { s with q := q, taken := s.taken ++ vs.take num }
  | .pop =>
    let (q, back) := s.q.pop size
    some { s with q := q, left := s.left ++ back.toList }
  | .popMany num =>
    let (q, out) := s.q.popMany size num
    some { s with q := q, left := s.left ++ out }
  | .clear => some { s with q := s.q.clear }

def Step (size : V → Nat) (s : Used V) (call : Call V) (t : Used V) : Prop := perform size s call = some t

def Initial (s : Used V) : Prop := ∃ maxSize, s = { q := { maxSize := maxSize } }

/-- What a push leaves out and what a pop of several takes is without size. -/
def Plain (size : V → Nat) (s : Used V) : Call V → Prop
  | .push vs => s.q.maxSize > s.q.dataSize →
    pushInfo size (vs.drop (wrapSub s.q.maxSize s.q.queue.length)) = 0
  | .popMany num => pushInfo size (s.q.queue.take num) = 0
  | .pop | .clear => True

instance (s : Used V) : (call : Call V) → Decidable (Plain size s call)
  | .push _ => inferInstanceAs (Decidable (_ → _))
  | .popMany _ => inferInstanceAs (Decidable (_ = _))
  | .pop | .clear => inferInstanceAs (Decidable True)

variable {s t : Used V} {q : QueueWithSize V} {vs out : List V} {num : Nat} {call : Call V}

/-- The size is that of the elements in the queue. -/
def Sized (size : V → Nat) (q : QueueWithSize V) : Prop := q.dataSize = wrap (q.queue.map size).sum

instance (q : QueueWithSize V) : Decidable (Sized size q) := inferInstanceAs (Decidable (_ = _))

/-- What was taken is in the queue, or has gone in its turn: handed out, or else cleared away. -/
def InOrder (s : Used V) : Prop :=
  ∃ gone : List (V × Bool), s.taken = gone.map Prod.fst ++ s.q.queue ∧ s.left = (gone.filter Prod.snd).map Prod.fst

theorem pushInfo_eq : pushInfo size vs = wrap (vs.map size).sum := by
  have spec : ∀ sum, vs.foldl (fun sum v => wrap (sum + size v)) sum =
      if vs = [] then sum else wrap (sum + (vs.map size).sum) := by
    induction vs with
    | nil => simp
    | cons v vs ih =>
      intro sum
      rw [List.foldl_cons, ih]
      split
      · rename_i none
        simp [none]
      · simp [wrap, Nat.add_assoc]
  rw [pushInfo, spec]
  split
  · rename_i none
    simp [none, wrap]
  · simp

theorem wrapSub_wrap (a b : Nat) : wrapSub (wrap (a + b)) a = wrap b := by
  unfold wrapSub wrap
  omega

theorem popLoop_eq (enough : num ≤ q.queue.length) : popLoop size num q out =
    ({ q with
      queue := q.queue.drop num
      dataSize := (q.queue.take num).foldl (fun data v => wrapSub (wrapSub data (size v)) (size v)) q.dataSize },
      out ++ q.queue.take num) := by
  induction num generalizing q out with
  | zero => simp [popLoop]
  | succ num ih =>
    cases queue : q.queue with
    | nil => simp [queue] at enough
    | cons back rest =>
      have fewer : num ≤ rest.length := by simpa [queue] using enough
      rw [popLoop, pop, queue]
      dsimp only
      rw [ih fewer]
      simp

/-- Elements without size leave the size as it was, although they take theirs off twice. -/
theorem foldl_wrapSub (data : Nat) (small : data < 2 ^ 64) :
    (out.foldl (fun data v => wrapSub (wrapSub data (size v)) (size v)) data) = wrapSub data (2 * (out.map size).sum) := by
  induction out generalizing data with
  | nil => simp [wrapSub, wrap]; omega
  | cons v out ih =>
    have less : wrapSub (wrapSub data (size v)) (size v) < 2 ^ 64 := Nat.mod_lt _ (by decide)
    rw [List.foldl_cons, ih _ less, List.map_cons, List.sum_cons]
    unfold wrapSub wrap
    omega

theorem inOrder_step (order : InOrder s) (stepped : Step size s call t) : InOrder t := by
  obtain ⟨gone, taken, left⟩ := order
  cases call <;> simp only [Step, perform, Option.some.injEq] at stepped <;> subst stepped
  case push vs =>
    refine ⟨gone, ?_, left⟩
    unfold push
    split <;> simp [taken, ← List.take_eq_take_min]
  case pop =>
    unfold pop
    split
    · rename_i back rest queue
      exact ⟨gone ++ [(back, true)], by simp [taken, queue], by simp [left]⟩
    · exact ⟨gone, taken, by simpa using left⟩
  case popMany num =>
    rw [popMany, popLoop_eq (Nat.min_le_right ..)]
    generalize min num s.q.queue.length = num
    exact ⟨gone ++ (s.q.queue.take num).map fun v => (v, true), by simp [taken, Function.comp_def],
      by simp [left, List.filter_map, Function.comp_def, -List.map_take]⟩
  case clear =>
    refine ⟨gone ++ s.q.queue.map fun v => (v, false), ?_, ?_⟩ <;>
      simp [clear, taken, left, List.filter_map, Function.comp_def]

/-- A call leaves the size right just when it is plain. -/
theorem sized_step (sized : Sized size s.q) (stepped : Step size s call t) : Sized size t.q ↔ Plain size s call := by
  cases call <;> simp only [Step, perform, Option.some.injEq] at stepped <;> subst stepped
  case push vs =>
    unfold push Plain
    split
    · rename_i room
      have whole := congrArg (fun vs => (vs.map size).sum)
        (List.take_append_drop (wrapSub s.q.maxSize s.q.queue.length) vs)
      simp only [Sized, pushInfo_eq, List.map_append, List.sum_append, ← List.take_eq_take_min, room, true_imp_iff]
        at sized whole ⊢
      rw [sized, ← whole]
      unfold wrap
      omega
    · rename_i full
      exact iff_of_true sized fun room => absurd room full
  case pop =>
    refine iff_of_true ?_ trivial
    unfold pop
    split
    · rename_i back rest queue
      rw [Sized, queue, List.map_cons, List.sum_cons] at sized
      exact (congrArg (wrapSub · _) sized).trans (wrapSub_wrap _ _)
    · exact sized
  case popMany num =>
    have whole := congrArg (fun vs => (vs.map size).sum) (List.take_append_drop num s.q.queue)
    have small : s.q.dataSize < 2 ^ 64 := by
      rw [sized]
      exact Nat.mod_lt _ (by decide)
    rw [popMany, popLoop_eq (Nat.min_le_right ..)]
    simp only [Sized, Plain, pushInfo_eq, List.map_append, List.sum_append, ← List.take_eq_take_min,
      ← List.drop_eq_drop_min, foldl_wrapSub _ small] at sized whole ⊢
    rw [sized, ← whole]
    unfold wrapSub wrap
    omega
  case clear => exact iff_of_true rfl trivial

/-- In every run the elements leave in the order in which they were taken, each of them once; and in a run of plain
calls the size is that of the elements in the queue. -/
theorem sized_of_plain (reached : Reach Initial (fun _ _ => True) (Step size) s) :
    InOrder s ∧ (Reach Initial (Plain size) (Step size) s → Sized size s.q) := by
  refine ⟨reached.invariant ?_ fun _ _ _ order _ stepped => inOrder_step order stepped, fun plain => plain.invariant ?_
    fun _ _ _ sized plain stepped => (sized_step sized stepped).mpr plain⟩ <;> rintro _ ⟨maxSize, rfl⟩
  · exact ⟨[], rfl, rfl⟩
  · rfl

/-- Three elements, of which the second one is popped with the last. -/
def bulk : List (Call Nat) := [.push [5, 6, 7], .pop, .popMany 2]

theorem sized_of_plain_pushes : ∃ s : Used Nat, s.left = [5] ∧ InOrder s ∧ s.q.dataSize = 13 := by
  have reached : Reach Initial (Plain id) (Step id) _ := Reach.play [.push [5, 6, 7], .pop, .popMany 0] (.start ⟨100, rfl⟩) rfl
  obtain ⟨order, sized⟩ := sized_of_plain (reached.weaken fun _ _ _ => trivial)
  exact ⟨_, rfl, order, sized reached⟩

/-- The size wraps below zero. -/
theorem bulk_pop_wraps : ¬ ∀ (V : Type) (size : V → Nat) (s : Used V), Reach Initial (fun _ _ => True) (Step size) s →
    Sized size s.q := by
  intro claim
  have reached : Reach Initial (fun _ _ => True) (Step id) _ := Reach.play bulk (.start ⟨100, rfl⟩) rfl
  exact absurd (claim Nat id _ reached) (by decide)

end Qcm.SizedQueue
