import Qcm.PlayerNotifications

/-!
No notification is handled by the interface after a newer revision was
submitted, and the latest position gets through.  A notification carries the
epoch of its revision, as both are counted and the notification is sent under one
lock, and the thread that tests the epoch is the one that submits.  A position
that waits in its slot has an entry in the queue or in the hands of the loop.

The signal after the handlers is emitted without another test, so it is current
only where the handlers submit nothing.
-/

namespace Qcm.PlayerNotifications

open Lib
open Runs

variable {F : Type} {p q : Player F} {n : Notification F} {event : Event F}

/-- The loop has taken an entry for a position. -/
def Taken (p : Player F) : Prop := ∃ entry, p.loop = .took entry ∧ entry.info.isPosition = true

/-- A queue has an entry for a position behind some others. -/
def Queued (queue : List (Notification F)) (before : Nat) : Prop :=
  ∃ ahead entry rest, queue = ahead ++ entry :: rest ∧ entry.info.isPosition = true ∧
    (∀ other ∈ ahead, other.info.isPosition = false) ∧ ahead.length = before

/-- The position is delivered within a number of steps of the loop. -/
inductive Due (p : Player F) (n : Notification F) (within : Nat) : Prop where
  | handled (done : Handled p n)
  | hopping (here : p.loop = .hopping n) (soon : 1 ≤ within)
  | resolved (here : p.loop = .resolved n) (soon : 2 ≤ within)
  | taken (slot : p.channel.position = ⟨some n, true⟩) (taken : Taken p) (soon : 3 ≤ within)
  | queued (slot : p.channel.position = ⟨some n, true⟩) (before : Nat) (queued : Queued p.channel.queue before)
      (soon : p.loop.steps + 5 * before + 4 ≤ within)

variable {within : Nat} {queue rest : List (Notification F)} {entry : Notification F} {call : Call}

theorem Queued.work {before : Nat} (queued : Queued p.channel.queue before) : p.loop.steps + 5 * before + 4 ≤ p.work := by
  obtain ⟨ahead, entry, rest, queue, -, -, rfl⟩ := queued
  have length : p.channel.queue.length = ahead.length + (rest.length + 1) := by rw [queue]; simp
  unfold Player.work
  omega

/-- However long it takes, the work of the loop is long enough. -/
theorem Due.within_work (due : Due p n within) : Due p n p.work := by
  cases due with
  | handled done => exact .handled done
  | hopping here =>
    refine .hopping here ?_
    rw [Player.work, here, Loop.steps]
    omega
  | resolved here =>
    refine .resolved here ?_
    rw [Player.work, here, Loop.steps]
    omega
  | taken slot taken =>
    refine .taken slot taken ?_
    obtain ⟨entry, here, -⟩ := taken
    rw [Player.work, here, Loop.steps]
    omega
  | queued slot before queued => exact .queued slot before queued queued.work

theorem Queued.of_mem (member : n ∈ queue) (position : n.info.isPosition = true) :
    ∃ before, Queued queue before := by
  induction queue with
  | nil => cases member
  | cons head tail ih =>
    cases kind : head.info.isPosition with
    | true => exact ⟨0, [], head, tail, rfl, kind, by simp, rfl⟩
    | false =>
      obtain rfl | later := List.mem_cons.mp member
      · exact absurd (kind.symm.trans position) (by simp)
      · obtain ⟨_, ahead, entry, rest, rfl, there, none, rfl⟩ := ih later
        refine ⟨_, head :: ahead, entry, rest, rfl, there, fun other member => ?_, rfl⟩
        obtain rfl | member := List.mem_cons.mp member
        · exact kind
        · exact none other member

theorem Due.of_slot (slot : p.channel.position = ⟨some n, true⟩) (entry : Taken p ∨ ∃ before, Queued p.channel.queue before) :
    Due p n p.work := by
  obtain taken | ⟨before, queued⟩ := entry
  · exact (Due.taken slot taken (Nat.le_refl 3)).within_work
  · exact .queued slot before queued queued.work

/-- A revision is counted before the epoch. -/
def Caller.owes : Caller → Nat
  | .revised _ => 1
  | .idle | .counted _ | .pushing _ => 0

def Loop.holds : Loop F → Option (Notification F)
  | .took notification | .resolved notification | .hopping notification | .handling notification => some notification
  | .waiting | .ended => none

/-- The notification is on its way. -/
def OnItsWay (p : Player F) (n : Notification F) : Prop :=
  n ∈ p.channel.queue ∨ p.channel.position.latest = some n ∨ p.channel.cache.latest = some n ∨ p.loop.holds = some n

structure Sound (p : Player F) : Prop where
  epochs : p.requestedRevision = p.channel.epoch + p.caller.owes
  bound : p.superseded ≤ p.requestedRevision
  opened : p.closed = false → p.superseded = p.requestedRevision
  closes : p.channel.closed = true → p.closed = true
  closing : p.caller = .counted .close → p.closed = true
  stamped : ∀ n, OnItsWay p n → n.epoch = n.revision ∧ n.revision ≤ p.superseded
  flagged : p.channel.position.queued = true → Taken p ∨ ∃ before, Queued p.channel.queue before
  last : ∀ n, p.last = some n → n.epoch = p.channel.epoch ∧ (p.loop = .ended ∨ Due p n p.work)
  handled : Current p.handled

theorem Sound.initial : Sound ({} : Player F) where
  epochs := rfl
  bound := Nat.le_refl _
  opened _ := rfl
  closes := nofun
  closing := nofun
  stamped n way := by
    obtain member | latest | latest | held := way <;> contradiction
  flagged := nofun
  last := nofun
  handled := by simp [Current]

/-! ## What is sent -/

theorem send_other (channel : NotifyChannel F) (other : n.info.isPosition = false) :
    (channel.send n).position = channel.position ∧ (channel.send n).epoch = channel.epoch ∧
      (channel.send n).closed = channel.closed ∧
      ((channel.send n).queue = channel.queue ∨ (channel.send n).queue = channel.queue ++ [n]) ∧
      ((channel.send n).cache.latest = channel.cache.latest ∨ (channel.send n).cache.latest = some n ∨
        (channel.send n).cache.latest = none) := by
  unfold NotifyChannel.send NotifyChannel.enqueueLatest NotifyChannel.push
  rw [if_neg (by simp [other])]
  cases cache : n.info.isCache with
  | false =>
    cases closed : channel.closed with
    | true => exact ⟨rfl, rfl, closed, .inl rfl, .inl rfl⟩
    | false => exact ⟨rfl, rfl, rfl, .inr rfl, .inl rfl⟩
  | true =>
    cases queued : channel.cache.queued with
    | true => exact ⟨rfl, rfl, rfl, .inl rfl, .inr (.inl rfl)⟩
    | false =>
      cases closed : channel.closed with
      | true => exact ⟨rfl, rfl, closed, .inl rfl, .inr (.inr rfl)⟩
      | false => exact ⟨rfl, rfl, rfl, .inr rfl, .inr (.inl rfl)⟩

/-- A position that is sent takes the slot, and has an entry in the queue if there was none. -/
theorem send_position (channel : NotifyChannel F) (position : n.info.isPosition = true) (opened : channel.closed = false) :
    channel.send n = { channel with
      position := ⟨some n, true⟩
      queue := if channel.position.queued then channel.queue else channel.queue ++ [n] } := by
  unfold NotifyChannel.send NotifyChannel.enqueueLatest NotifyChannel.push
  rw [if_pos position]
  cases queued : channel.position.queued with
  | true => simp
  | false => simp [opened]

theorem Queued.append {before : Nat} (queued : Queued queue before) (extra : List (Notification F)) :
    Queued (queue ++ extra) before := by
  obtain ⟨ahead, entry, rest, rfl, position, none, length⟩ := queued
  exact ⟨ahead, entry, rest ++ extra, by simp, position, none, length⟩

theorem Due.append (due : Due p n within) (extra : List (Notification F))
    (queue : q.channel.queue = p.channel.queue ++ extra)
    (position : q.channel.position = p.channel.position) (loop : q.loop = p.loop)
    (handled : q.handled = p.handled) : Due q n within := by
  cases due with
  | handled done => exact .handled (by unfold Handled; rwa [handled])
  | hopping here soon => exact .hopping (loop.trans here) soon
  | resolved here soon => exact .resolved (loop.trans here) soon
  | taken slot taken soon => exact .taken (position.trans slot) (by unfold Taken; rwa [loop]) soon
  | queued slot before queued soon =>
    exact .queued (position.trans slot) before (by rw [queue]; exact queued.append extra) (by rwa [loop])

/-- The position sent last is where it was, if nothing but the end of the queue changes. -/
theorem Sound.lastAppend (sound : Sound p) (extra : List (Notification F))
    (queue : q.channel.queue = p.channel.queue ++ extra) (position : q.channel.position = p.channel.position)
    (epoch : q.channel.epoch = p.channel.epoch) (loop : q.loop = p.loop) (handled : q.handled = p.handled)
    (last : q.last = p.last) (n : Notification F) (latest : q.last = some n) :
    n.epoch = q.channel.epoch ∧ (q.loop = .ended ∨ Due q n q.work) := by
  obtain ⟨current, due⟩ := sound.last n (last.symm.trans latest)
  rw [epoch, loop]
  exact ⟨current, due.imp_right fun due => (due.append extra queue position loop handled).within_work⟩

theorem Sound.lastStill (sound : Sound p) (queue : q.channel.queue = p.channel.queue)
    (position : q.channel.position = p.channel.position) (epoch : q.channel.epoch = p.channel.epoch)
    (loop : q.loop = p.loop) (handled : q.handled = p.handled) (last : q.last = p.last) (n : Notification F)
    (latest : q.last = some n) : n.epoch = q.channel.epoch ∧ (q.loop = .ended ∨ Due q n q.work) :=
  sound.lastAppend [] (queue.trans (List.append_nil _).symm) position epoch loop handled last n latest

theorem Sound.sendPosition (sound : Sound p) (position : n.info.isPosition = true)
    (stamp : n.epoch = n.revision ∧ n.revision ≤ p.superseded) (epoch : n.epoch = p.channel.epoch)
    (opened : p.channel.closed = false) :
    Sound { p with channel := p.channel.send n, sent := p.sent + 1, last := some n, worker := .idle } := by
  rw [send_position p.channel position opened]
  have entry : Taken p ∨ ∃ before,
      Queued (if p.channel.position.queued then p.channel.queue else p.channel.queue ++ [n]) before := by
    cases queued : p.channel.position.queued with
    | true => exact sound.flagged queued
    | false => exact .inr (Queued.of_mem (List.mem_append_right _ (List.mem_singleton_self n)) position)
  refine { sound with stamped := ?_, flagged := fun _ => entry, last := ?_ }
  · rintro other (member | latest | latest | held)
    · replace member : other ∈ if p.channel.position.queued then p.channel.queue else p.channel.queue ++ [n] := member
      split at member
      · exact sound.stamped other (.inl member)
      · obtain before | rfl := mem_snoc member
        · exact sound.stamped other (.inl before)
        · exact stamp
    · cases latest
      exact stamp
    · exact sound.stamped other (.inr (.inr (.inl latest)))
    · exact sound.stamped other (.inr (.inr (.inr held)))
  · rintro _ ⟨⟩
    exact ⟨epoch, .inr (Due.of_slot rfl entry)⟩

theorem Sound.sendOther (sound : Sound p) (other : n.info.isPosition = false)
    (stamp : n.epoch = n.revision ∧ n.revision ≤ p.superseded) :
    Sound { p with channel := p.channel.send n, sent := p.sent + 1, worker := .idle } := by
  obtain ⟨position, epoch, closed, queue, cache⟩ := send_other p.channel other
  have extra : ∃ extra, (p.channel.send n).queue = p.channel.queue ++ extra ∧ ∀ entry ∈ extra, entry = n := by
    obtain same | longer := queue
    · exact ⟨[], by simp [same], by simp⟩
    · exact ⟨[n], longer, by simp⟩
  obtain ⟨extra, longer, new⟩ := extra
  refine { sound with epochs := ?_, closes := ?_, stamped := ?_, flagged := ?_,
                      last := sound.lastAppend extra longer position epoch rfl rfl rfl }
  · exact sound.epochs.trans (congrArg (· + p.caller.owes) epoch.symm)
  · exact fun shut => sound.closes (closed.symm.trans shut)
  · rintro entry (member | latest | latest | held)
    · rw [longer] at member
      obtain before | last := List.mem_append.mp member
      · exact sound.stamped entry (.inl before)
      · exact new entry last ▸ stamp
    · exact sound.stamped entry (.inr (.inl (position ▸ latest)))
    · replace latest : (p.channel.send n).cache.latest = some entry := latest
      obtain same | here | none := cache
      · exact sound.stamped entry (.inr (.inr (.inl (same.symm.trans latest))))
      · cases here.symm.trans latest
        exact stamp
      · cases none.symm.trans latest
    · exact sound.stamped entry (.inr (.inr (.inr held)))
  · intro flag
    replace flag : (p.channel.send n).position.queued = true := flag
    rw [position] at flag
    exact (sound.flagged flag).imp_right fun ⟨before, queued⟩ => ⟨before, by rw [longer]; exact queued.append extra⟩

theorem Sound.send (sound : Sound p) {info : Info F} (idle : p.caller = .idle) : Sound (p.send info) := by
  unfold Player.send
  split
  · exact { sound with last := sound.lastStill rfl rfl rfl rfl rfl rfl }
  · rename_i active
    obtain ⟨closed, revision, -⟩ := not_or.mp active |>.imp_right not_or.mp
    have opened := Bool.eq_false_iff.mpr closed
    have epoch : p.channel.epoch = p.activeRevision := by
      rw [Classical.not_not.mp revision, sound.epochs, idle]
      rfl
    have submitted : p.activeRevision = p.superseded := by
      rw [sound.opened opened, Classical.not_not.mp revision]
    have reachable : p.channel.closed = false := Bool.eq_false_iff.mpr fun shut => closed (sound.closes shut)
    generalize made : ({ epoch := p.channel.epoch, info := info, revision := p.activeRevision, serial := p.sent } :
      Notification F) = sent
    have stamp : sent.epoch = sent.revision ∧ sent.revision ≤ p.superseded := by
      rw [← made]
      exact ⟨epoch, Nat.le_of_eq submitted⟩
    cases position : info.isPosition with
    | true =>
      have kind : sent.info.isPosition = true := by rw [← made]; exact position
      exact sound.sendPosition kind stamp (by rw [← made]) reachable
    | false =>
      have kind : sent.info.isPosition = false := by rw [← made]; exact position
      exact sound.sendOther kind stamp

/-! ## The loop -/

theorem Queued.next {before : Nat} (queued : Queued (entry :: rest) before) :
    entry.info.isPosition = true ∨ ∃ fewer, Queued rest fewer ∧ before = fewer + 1 := by
  obtain ⟨ahead, first, later, whole, position, none, rfl⟩ := queued
  cases ahead with
  | nil =>
    cases whole
    exact .inl position
  | cons head tail =>
    cases whole
    exact .inr ⟨tail.length, ⟨tail, first, later, rfl, position, fun other member =>
      none other (.tail _ member), rfl⟩, rfl⟩

theorem Due.next (due : Due p n within) (loop : p.loop = .waiting) (queue : p.channel.queue = entry :: rest) :
    Due { p with channel := { p.channel with queue := rest }, loop := .took entry } n (within - 1) := by
  cases due with
  | handled done => exact .handled done
  | hopping here | resolved here => cases loop.symm.trans here
  | taken _ taken =>
    obtain ⟨_, here, -⟩ := taken
    cases loop.symm.trans here
  | queued slot before queued soon =>
    rw [loop, Loop.steps] at soon
    obtain position | ⟨fewer, behind, rfl⟩ := (queue ▸ queued).next
    · exact .taken slot ⟨entry, rfl, position⟩ (by omega)
    · refine .queued slot fewer behind ?_
      show 4 + 5 * fewer + 4 ≤ within - 1
      omega

/-- The loop with what it has found, if anything. -/
def Loop.found : Option (Notification F) → Loop F
  | some notification => .resolved notification
  | none => .waiting

theorem resolve_position (position : entry.info.isPosition = true) : p.resolve entry =
      { p with channel := { p.channel with position := {} }, loop := .found p.channel.position.latest } := by
  unfold Player.resolve NotifyChannel.resolve
  rw [if_pos position]
  cases p.channel.position.latest <;> rfl

theorem resolve_other (other : entry.info.isPosition = false) :
    ∃ cache found, p.resolve entry = { p with channel := { p.channel with cache := cache }, loop := .found found } ∧
      (cache = {} ∨ cache = p.channel.cache) ∧ (found = p.channel.cache.latest ∨ found = some entry) := by
  unfold Player.resolve NotifyChannel.resolve
  rw [if_neg (by simp [other])]
  cases entry.info.isCache with
  | true => exact ⟨{}, p.channel.cache.latest, by cases p.channel.cache.latest <;> rfl, .inl rfl, .inl rfl⟩
  | false => exact ⟨p.channel.cache, some entry, rfl, .inr rfl, .inr rfl⟩

theorem Due.resolve (due : Due p n within) (loop : p.loop = .took entry) :
    Due (p.resolve entry) n (within - 1) := by
  have found : entry.info.isPosition = true → p.channel.position = ⟨some n, true⟩ → 3 ≤ within →
      Due (p.resolve entry) n (within - 1) := by
    intro position slot soon
    rw [resolve_position position, slot]
    exact .resolved rfl (by omega)
  cases due with
  | handled done => exact .handled done
  | hopping here | resolved here => cases loop.symm.trans here
  | taken slot taken soon =>
    obtain ⟨_, here, position⟩ := taken
    cases loop.symm.trans here
    exact found position slot soon
  | queued slot before queued soon =>
    rw [loop, Loop.steps] at soon
    cases position : entry.info.isPosition with
    | true => exact found position slot (by omega)
    | false =>
      obtain ⟨cache, found, made, -, -⟩ := resolve_other (p := p) position
      rw [made]
      refine .queued slot before queued ?_
      have few : (Loop.found found).steps ≤ 3 := by
        cases found with
        | none => exact Nat.zero_le _
        | some _ => exact Nat.le_refl _
      show (Loop.found found).steps + 5 * before + 4 ≤ within - 1
      omega

theorem Due.test (due : Due p n within) (loop : p.loop = .resolved entry)
    (epoch : n.epoch = p.channel.epoch) : Due (p.test entry) n (within - 1) := by
  unfold Player.test
  cases due with
  | handled done => exact .handled done
  | hopping here => cases loop.symm.trans here
  | resolved here soon =>
    cases loop.symm.trans here
    rw [if_pos epoch]
    exact .hopping rfl (by omega)
  | taken _ taken =>
    obtain ⟨_, here, -⟩ := taken
    cases loop.symm.trans here
  | queued slot before queued soon =>
    rw [loop, Loop.steps] at soon
    refine .queued slot before queued ?_
    show (if entry.epoch = p.channel.epoch then Loop.hopping entry else .waiting).steps + 5 * before + 4 ≤ within - 1
    split
    · rw [Loop.steps]
      omega
    · rw [Loop.steps]
      omega

theorem Handled.snoc {log : Notification F × Nat} (handled : Handled p n) (grown : q.handled = p.handled ++ [log]) :
    Handled q n := by
  obtain ⟨entry, member, same⟩ := handled
  exact ⟨entry, by rw [grown]; exact List.mem_append_left _ member, same⟩

theorem Due.deliver (due : Due p n within) (loop : p.loop = .hopping entry)
    (epoch : n.epoch = p.channel.epoch) : Due (p.deliver entry) n (within - 1) := by
  unfold Player.deliver
  cases due with
  | handled done =>
    split
    · exact .handled (done.snoc rfl)
    · exact .handled done
  | hopping here =>
    cases loop.symm.trans here
    rw [if_pos epoch]
    exact .handled ⟨(n, p.superseded), List.mem_append_right _ (List.mem_singleton_self _), rfl⟩
  | resolved here => cases loop.symm.trans here
  | taken _ taken =>
    obtain ⟨_, here, -⟩ := taken
    cases loop.symm.trans here
  | queued slot before queued soon =>
    rw [loop, Loop.steps] at soon
    split
    · refine .queued slot before queued ?_
      show (if entry.info.isPosition then Loop.waiting else .handling entry).steps + 5 * before + 4 ≤ within - 1
      split
      · rw [Loop.steps]
        omega
      · rw [Loop.steps]
        omega
    · refine .queued slot before queued ?_
      show 0 + 5 * before + 4 ≤ within - 1
      omega

theorem Due.emit (due : Due p n within) (loop : p.loop = .handling entry) :
    Due (p.emit entry) n (within - 1) := by
  cases due with
  | handled done => exact .handled done
  | hopping here | resolved here => cases loop.symm.trans here
  | taken _ taken =>
    obtain ⟨_, here, -⟩ := taken
    cases loop.symm.trans here
  | queued slot before queued soon =>
    rw [loop, Loop.steps] at soon
    refine .queued slot before queued ?_
    show 0 + 5 * before + 4 ≤ within - 1
    omega

theorem Sound.lastMoves (sound : Sound p) (running : p.loop ≠ .ended) (epoch : q.channel.epoch = p.channel.epoch)
    (last : q.last = p.last)
    (moves : ∀ n, n.epoch = p.channel.epoch → Due p n p.work → Due q n (p.work - 1)) (n : Notification F)
    (latest : q.last = some n) : n.epoch = q.channel.epoch ∧ (q.loop = .ended ∨ Due q n q.work) := by
  obtain ⟨current, due⟩ := sound.last n (last.symm.trans latest)
  exact ⟨current.trans epoch.symm, .inr (moves n current (due.resolve_left running)).within_work⟩

theorem Sound.next (sound : Sound p) (loop : p.loop = .waiting) (queue : p.channel.queue = entry :: rest) :
    Sound { p with channel := { p.channel with queue := rest }, loop := .took entry } where
  epochs := sound.epochs
  bound := sound.bound
  opened := sound.opened
  closes := sound.closes
  closing := sound.closing
  stamped n way := by
    refine sound.stamped n ?_
    unfold OnItsWay
    rw [queue]
    obtain member | latest | latest | held := way
    · exact .inl (.tail _ member)
    · exact .inr (.inl latest)
    · exact .inr (.inr (.inl latest))
    · cases held
      exact .inl (.head _)
  flagged flag := by
    obtain ⟨_, here, -⟩ | ⟨before, queued⟩ := sound.flagged flag
    · cases loop.symm.trans here
    · obtain position | ⟨fewer, queued, -⟩ := (queue ▸ queued).next
      · exact .inl ⟨entry, rfl, position⟩
      · exact .inr ⟨fewer, queued⟩
  last := sound.lastMoves (by simp [loop]) rfl rfl fun _ _ due => due.next loop queue
  handled := sound.handled

theorem Sound.resolve (sound : Sound p) (loop : p.loop = .took entry) : Sound (p.resolve entry) := by
  have running : p.loop ≠ .ended := by simp [loop]
  have moves : ∀ n, n.epoch = p.channel.epoch → Due p n p.work → Due (p.resolve entry) n (p.work - 1) :=
    fun _ _ due => due.resolve loop
  have found : ∀ {found : Option (Notification F)} {n : Notification F}, (Loop.found found).holds = some n →
      found = some n := by
    intro found n held
    cases found with
    | none => cases held
    | some _ => exact held
  cases position : entry.info.isPosition with
  | true =>
    rw [resolve_position position] at moves ⊢
    refine { sound with stamped := fun n way => sound.stamped n ?_, flagged := nofun,
                        last := sound.lastMoves running rfl rfl moves }
    obtain member | latest | latest | held := way
    · exact .inl member
    · cases latest
    · exact .inr (.inr (.inl latest))
    · exact .inr (.inl (found held))
  | false =>
    obtain ⟨cache, result, made, kept, source⟩ := resolve_other (p := p) position
    rw [made] at moves ⊢
    refine { sound with stamped := fun n way => sound.stamped n ?_, flagged := fun flag => .inr ?_,
                        last := sound.lastMoves running rfl rfl moves }
    · obtain member | latest | latest | held := way
      · exact .inl member
      · exact .inr (.inl latest)
      · obtain rfl | rfl := kept
        · cases latest
        · exact .inr (.inr (.inl latest))
      · obtain rfl | rfl := source
        · exact .inr (.inr (.inl (found held)))
        · exact .inr (.inr (.inr (by rw [loop]; exact found held)))
    · obtain ⟨_, here, other⟩ | queued := sound.flagged flag
      · cases loop.symm.trans here
        cases position.symm.trans other
      · exact queued

theorem Sound.test (sound : Sound p) (loop : p.loop = .resolved entry) : Sound (p.test entry) where
  epochs := sound.epochs
  bound := sound.bound
  opened := sound.opened
  closes := sound.closes
  closing := sound.closing
  stamped n way := by
    refine sound.stamped n (way.imp_right (Or.imp_right (Or.imp_right fun held => ?_)))
    unfold Player.test at held
    dsimp only at held
    split at held
    · exact (congrArg Loop.holds loop).trans held
    · cases held
  flagged flag := by
    obtain ⟨_, here, -⟩ | queued := sound.flagged flag
    · cases loop.symm.trans here
    · exact .inr queued
  last := sound.lastMoves (by simp [loop]) rfl rfl fun _ epoch due => due.test loop epoch
  handled := sound.handled

/-- Without a call under way, what has the epoch of the channel is of the revision submitted last. -/
theorem Sound.current (sound : Sound p) (way : OnItsWay p n) (idle : p.caller = .idle)
    (epoch : n.epoch = p.channel.epoch) : n.revision = p.superseded := by
  obtain ⟨stamp, reached⟩ := sound.stamped n way
  have epochs := sound.epochs
  rw [idle, Caller.owes, Nat.add_zero] at epochs
  refine Nat.le_antisymm reached ?_
  rw [← stamp, epoch, ← epochs]
  exact sound.bound

theorem Sound.deliver (sound : Sound p) (loop : p.loop = .hopping entry) (idle : p.caller = .idle) :
    Sound (p.deliver entry) := by
  have running : p.loop ≠ .ended := by simp [loop]
  have moves : ∀ n, n.epoch = p.channel.epoch → Due p n p.work → Due (p.deliver entry) n (p.work - 1) :=
    fun _ epoch due => due.deliver loop epoch
  have here : OnItsWay p entry := .inr (.inr (.inr (congrArg Loop.holds loop)))
  have entries : p.channel.position.queued = true → ∃ before, Queued p.channel.queue before := by
    intro flag
    obtain ⟨_, taken, -⟩ | queued := sound.flagged flag
    · cases loop.symm.trans taken
    · exact queued
  unfold Player.deliver at moves ⊢
  split
  · rename_i epoch
    rw [if_pos epoch] at moves
    refine { sound with stamped := fun n way => ?_, flagged := fun flag => .inr (entries flag),
                        last := sound.lastMoves running rfl rfl moves, handled := ?_ }
    · refine sound.stamped n (way.imp_right (Or.imp_right (Or.imp_right fun held => ?_)))
      dsimp only at held
      split at held
      · cases held
      · exact (congrArg Loop.holds loop).trans held
    · intro given member
      obtain before | rfl := mem_snoc member
      · exact sound.handled given before
      · exact sound.current here idle epoch
  · rename_i stale
    rw [if_neg stale] at moves
    refine { sound with stamped := fun n way => ?_, flagged := fun flag => .inr (entries flag),
                        last := sound.lastMoves running rfl rfl moves }
    exact sound.stamped n (way.imp_right (Or.imp_right (Or.imp_right nofun)))

theorem Sound.leave (sound : Sound p) {loop : Loop F} (none : loop.holds = none) (away : ¬ Taken p)
    (last : ∀ n, p.last = some n → n.epoch = p.channel.epoch ∧
      (loop = .ended ∨ Due { p with loop := loop } n (Player.work { p with loop := loop }))) :
    Sound { p with loop := loop } :=
  { sound with
    stamped := fun n way => sound.stamped n (way.imp_right (Or.imp_right (Or.imp_right fun held => by
      cases none.symm.trans held)))
    flagged := fun flag => .inr ((sound.flagged flag).resolve_left away)
    last := last }

theorem Sound.emit (sound : Sound p) (loop : p.loop = .handling entry) : Sound (p.emit entry) := by
  have emitted : Sound { p with emitted := p.emitted ++ [(entry, p.superseded)] } :=
    { sound with last := sound.lastStill rfl rfl rfl rfl rfl rfl }
  refine emitted.leave rfl (fun ⟨_, here, _⟩ => by cases loop.symm.trans here) fun n latest => ?_
  obtain ⟨epoch, due⟩ := sound.last n latest
  exact ⟨epoch, .inr ((due.resolve_left (by simp [loop])).emit loop).within_work⟩

theorem Sound.abandon (sound : Sound p) (away : ¬ Taken p) : Sound { p with loop := .ended } :=
  sound.leave rfl away fun n latest => ⟨(sound.last n latest).1, .inl rfl⟩

/-- What the worker leaves alone while it takes up a command and carries it out. -/
def Aside (p q : Player F) : Prop :=
  q = { q with
    closed := p.closed, requestedRevision := p.requestedRevision, caller := p.caller, channel := p.channel
    loop := p.loop, superseded := p.superseded, last := p.last, handled := p.handled, emitted := p.emitted }

/-- What a step does, and when it is possible. -/
inductive Moves (p : Player F) : Event F → Player F → Prop where
  | start (idle : p.caller = .idle) (call : Call) : Moves p (.start call) (p.start call)
  | revise {call : Call} (counted : p.caller = .counted call) : Moves p .revise (p.revise call)
  | advance {call : Call} (revised : p.caller = .revised call) : Moves p .advance (p.advance call)
  | push {kind : _} (pushing : p.caller = .pushing kind) : Moves p .push (p.push kind)
  | closeChannel (closed : p.closed = true) :
      Moves p .closeChannel { p with channel := { p.channel with closed := true } }
  | send {info : Info F} (sending : p.worker = .sending info) (idle : p.caller = .idle) : Moves p .send (p.send info)
  | next {entry : Notification F} {rest : _} (loop : p.loop = .waiting) (queue : p.channel.queue = entry :: rest) :
      Moves p .next { p with channel := { p.channel with queue := rest }, loop := .took entry }
  | resolve {entry : _} (loop : p.loop = .took entry) : Moves p .resolve (p.resolve entry)
  | test {entry : _} (loop : p.loop = .resolved entry) : Moves p .test (p.test entry)
  | deliver {entry : _} (loop : p.loop = .hopping entry) (idle : p.caller = .idle) : Moves p .deliver (p.deliver entry)
  | emit {entry : _} (loop : p.loop = .handling entry) : Moves p .emit (p.emit entry)
  | abandon (away : ¬ Taken p) : Moves p .abandon { p with loop := .ended }
  | aside {event : Event F} {q : _} (outside : event.ofLoop = false) (aside : Aside p q) : Moves p event q

theorem moves_of_step (stepped : Step p event q) : Moves p event q := by
  cases event <;> simp only [Step, perform] at stepped
  case start _ | revise | advance | push | send | next | resolve | test | deliver | emit =>
    split at stepped <;> cases stepped
    constructor <;> assumption
  case closeChannel =>
    split at stepped
    · split at stepped <;> cases stepped
      exact .closeChannel ‹_›
    · cases stepped
  case take =>
    split at stepped <;> cases stepped
    refine .aside rfl ?_
    unfold Player.take
    split <;> rfl
  case activate =>
    split at stepped <;> cases stepped
    refine .aside rfl ?_
    unfold Player.activate Player.forget
    split
    · rfl
    · dsimp only
      split <;> split <;> rfl
  case report info =>
    split at stepped <;> cases stepped
    refine .aside rfl ?_
    unfold Player.report
    split
    · split <;> rfl
    · split <;> rfl
    · split <;> rfl
    · rfl
  case abandon =>
    split at stepped
    · cases stepped
      rename_i here
      exact .abandon fun ⟨_, there, _⟩ => by cases here.symm.trans there
    · rename_i here
      split at stepped <;> cases stepped
      exact .abandon fun ⟨_, there, _⟩ => by cases here.symm.trans there
    · cases stepped

theorem Sound.start (sound : Sound p) (idle : p.caller = .idle) (call : Call) : Sound (p.start call) := by
  have epochs := sound.epochs
  rw [idle] at epochs
  unfold Player.start
  split
  · exact sound
  · cases call with
    | submit kind =>
      exact { sound with epochs := epochs, closing := nofun, last := sound.lastStill rfl rfl rfl rfl rfl rfl }
    | close =>
      exact { sound with epochs := epochs, opened := nofun, closes := fun _ => rfl, closing := fun _ => rfl,
                         last := sound.lastStill rfl rfl rfl rfl rfl rfl }

theorem Sound.revise (sound : Sound p) (counted : p.caller = .counted call) : Sound (p.revise call) := by
  have epochs := sound.epochs
  rw [counted, Caller.owes, Nat.add_zero] at epochs
  unfold Player.revise
  cases call with
  | submit kind =>
    dsimp only
    split
    · exact { sound with
        epochs := congrArg (· + 1) epochs
        bound := Nat.succ_le_succ sound.bound
        opened := fun opened => congrArg (· + 1) (sound.opened opened)
        closing := nofun
        stamped := fun n way => (sound.stamped n way).imp_right Nat.le_succ_of_le
        last := sound.lastStill rfl rfl rfl rfl rfl rfl }
    · exact { sound with epochs := epochs, closing := nofun, last := sound.lastStill rfl rfl rfl rfl rfl rfl }
  | close =>
    exact { sound with
      epochs := congrArg (· + 1) epochs
      bound := Nat.le_succ_of_le sound.bound
      opened := fun opened => absurd (sound.closing counted) (by simp [show p.closed = false from opened])
      closing := nofun
      last := sound.lastStill rfl rfl rfl rfl rfl rfl }

theorem Sound.advance (sound : Sound p) (revised : p.caller = .revised call) : Sound (p.advance call) := by
  have epochs := sound.epochs
  rw [revised] at epochs
  have owes : (p.advance call).caller.owes = 0 := by cases call <;> rfl
  refine { sound with epochs := ?_, closing := ?_, stamped := fun n way => sound.stamped n ?_, last := nofun }
  · rw [owes]
    exact epochs
  · cases call <;> nofun
  · exact way.imp_right (Or.imp nofun (Or.imp_left nofun))

theorem Sound.step (sound : Sound p) (stepped : Step p event q) : Sound q := by
  cases moves_of_step stepped with
  | start idle call => exact sound.start idle call
  | revise counted => exact sound.revise counted
  | advance revised => exact sound.advance revised
  | push pushing =>
    have epochs := sound.epochs
    rw [pushing] at epochs
    exact { sound with epochs := epochs, closing := nofun, last := sound.lastStill rfl rfl rfl rfl rfl rfl }
  | closeChannel closed =>
    exact { sound with closes := fun _ => closed, last := sound.lastStill rfl rfl rfl rfl rfl rfl }
  | send _ idle => exact sound.send idle
  | next loop queue => exact sound.next loop queue
  | resolve loop => exact sound.resolve loop
  | test loop => exact sound.test loop
  | deliver loop idle => exact sound.deliver loop idle
  | emit loop => exact sound.emit loop
  | abandon away => exact sound.abandon away
  | aside _ aside =>
    rw [aside]
    exact { sound with last := sound.lastStill rfl rfl rfl rfl rfl rfl }

/-! ## The latest position gets through -/

theorem Due.handled_of_zero (due : Due p n 0) : Handled p n := by
  cases due with
  | handled done => exact done
  | hopping _ soon | resolved _ soon | taken _ _ soon | queued _ _ _ soon => omega

/-- The loop can go on, if no call is under way. -/
theorem Due.proceeds (due : Due p n within) (running : p.loop ≠ .ended) :
    Handled p n ∨ p.caller ≠ .idle ∨ ∃ event q, event.ofLoop = true ∧ Step p event q := by
  by_cases idle : p.caller = .idle
  · cases loop : p.loop with
    | waiting =>
      cases due with
      | handled done => exact .inl done
      | hopping here | resolved here => cases loop.symm.trans here
      | taken _ taken =>
        obtain ⟨_, here, -⟩ := taken
        cases loop.symm.trans here
      | queued _ _ queued =>
        obtain ⟨ahead, entry, rest, queue, -⟩ := queued
        refine .inr (.inr ⟨.next, ?_⟩)
        simp only [Step, perform, loop, queue]
        cases ahead <;> exact ⟨_, rfl, rfl⟩
    | took entry => exact .inr (.inr ⟨.resolve, p.resolve entry, rfl, by simp only [Step, perform, loop]⟩)
    | resolved entry => exact .inr (.inr ⟨.test, p.test entry, rfl, by simp only [Step, perform, loop]⟩)
    | hopping entry => exact .inr (.inr ⟨.deliver, p.deliver entry, rfl, by simp only [Step, perform, loop, idle]⟩)
    | handling entry => exact .inr (.inr ⟨.emit, p.emit entry, rfl, by simp only [Step, perform, loop, idle]⟩)
    | ended => exact absurd loop running
  · exact .inr (.inl idle)

/-- What a step outside the loop leaves alone, if it does not replace the position. -/
structure Outside (p q : Player F) : Prop where
  loop : q.loop = p.loop
  handled : q.handled = p.handled
  position : q.channel.position = p.channel.position
  epoch : q.channel.epoch = p.channel.epoch
  queue : ∃ extra, q.channel.queue = p.channel.queue ++ extra

theorem Outside.of_channel (loop : q.loop = p.loop) (handled : q.handled = p.handled) (channel : q.channel = p.channel) :
    Outside p q :=
  ⟨loop, handled, by rw [channel], by rw [channel], [], by rw [channel, List.append_nil]⟩

theorem outside_send {info : Info F} (sending : p.worker = .sending info) (kept : ¬ Replaces p .send) :
    Outside p (p.send info) := by
  unfold Player.send
  split
  · exact .of_channel rfl rfl rfl
  · rename_i active
    have other : info.isPosition = false := by
      cases info with
      | position value => exact absurd ⟨⟨value, sending⟩, active⟩ kept
      | duration _ | playstate _ | busy _ | cache _ _ | seekable _ | ended => rfl
    obtain ⟨position, epoch, -, same | longer, -⟩ := send_other p.channel
      (n := { epoch := p.channel.epoch, info := info, revision := p.activeRevision, serial := p.sent }) other
    · exact ⟨rfl, rfl, position, epoch, [], same.trans (List.append_nil _).symm⟩
    · exact ⟨rfl, rfl, position, epoch, _, longer⟩

theorem outside_step (outside : event.ofLoop = false) (kept : ¬ Replaces p event) (goes : event ≠ .abandon)
    (stepped : Step p event q) : Outside p q := by
  cases moves_of_step stepped with
  | start _ call =>
    unfold Player.start
    split
    · exact .of_channel rfl rfl rfl
    · cases call <;> exact .of_channel rfl rfl rfl
  | revise =>
    unfold Player.revise
    split
    · split <;> exact .of_channel rfl rfl rfl
    · exact .of_channel rfl rfl rfl
  | advance => exact absurd trivial kept
  | push => exact .of_channel rfl rfl rfl
  | closeChannel => exact ⟨rfl, rfl, rfl, rfl, [], (List.append_nil _).symm⟩
  | send sending => exact outside_send sending kept
  | next | resolve | test | deliver | emit => cases outside
  | abandon => exact absurd rfl goes
  | aside _ aside =>
    rw [aside]
    exact .of_channel rfl rfl rfl

section

variable (due : Due p n within) (epoch : n.epoch = p.channel.epoch)
include due epoch

theorem Due.loopStep (loops : event.ofLoop = true) (stepped : Step p event q) :
    n.epoch = q.channel.epoch ∧ Due q n (within - 1) := by
  cases moves_of_step stepped with
  | next loop queue => exact ⟨epoch, due.next loop queue⟩
  | @resolve entry loop =>
    refine ⟨epoch.trans ?_, due.resolve loop⟩
    cases position : entry.info.isPosition with
    | true => rw [resolve_position position]
    | false =>
      obtain ⟨_, _, made, -, -⟩ := resolve_other (p := p) position
      rw [made]
  | test loop => exact ⟨epoch, due.test loop epoch⟩
  | deliver loop =>
    refine ⟨epoch.trans ?_, due.deliver loop epoch⟩
    unfold Player.deliver
    split <;> rfl
  | emit loop => exact ⟨epoch, due.emit loop⟩
  | aside outside => cases loops.symm.trans outside
  | start | revise | advance | push | closeChannel | send | abandon => cases loops

theorem Due.step (kept : ¬ Replaces p event) (goes : event ≠ .abandon) (stepped : Step p event q) :
    n.epoch = q.channel.epoch ∧ Due q n (if event.ofLoop then within - 1 else within) := by
  cases loops : event.ofLoop with
  | true => exact due.loopStep epoch loops stepped
  | false =>
    have outside := outside_step loops kept goes stepped
    obtain ⟨extra, queue⟩ := outside.queue
    exact ⟨epoch.trans outside.epoch.symm, due.append extra queue outside.position outside.loop outside.handled⟩

theorem Due.run {trace : List (Player F × Event F)} (run : Steps Step p trace q)
    (kept : ∀ entry ∈ trace, ¬ Replaces entry.1 entry.2 ∧ entry.2 ≠ .abandon) :
    n.epoch = q.channel.epoch ∧ Due q n (within - (trace.filter fun entry => entry.2.ofLoop).length) := by
  induction run with
  | done => exact ⟨epoch, due⟩
  | @snoc r u event trace before stepped ih =>
    obtain ⟨current, near⟩ := ih fun entry member => kept entry (List.mem_append_left _ member)
    obtain ⟨same, goes⟩ := kept (r, event) (List.mem_append_right _ (List.mem_singleton_self _))
    obtain ⟨later, nearer⟩ := near.step current same goes stepped
    refine ⟨later, ?_⟩
    cases step : event.ofLoop with
    | true =>
      rw [step] at nearer
      simpa [step, Nat.sub_sub] using nearer
    | false =>
      rw [step] at nearer
      simpa [step] using nearer

end

theorem Sound.arrives (sound : Sound p) : Arrives p := by
  intro n last running
  obtain ⟨epoch, due⟩ := sound.last n last
  replace due := due.resolve_left running
  refine ⟨due.proceeds running, fun trace q run kept enough => ?_⟩
  obtain ⟨-, near⟩ := due.run epoch run kept
  rw [Nat.sub_eq_zero_of_le enough] at near
  exact near.handled_of_zero

/-! ## The signal after the handlers -/

/-- While the handlers of a notification are at work, it is of the revision submitted last, and no call under way makes
it stale. -/
structure Quiet (p : Player F) : Prop where
  sound : Sound p
  emitted : Current p.emitted
  fresh : ∀ n, p.loop = .handling n → n.revision = p.superseded ∧
    ∀ call, p.caller = .counted call → call.supersedes = false

/-- What only calls and the last two steps of the loop change. -/
structure Beside (p q : Player F) : Prop where
  emitted : q.emitted = p.emitted
  superseded : q.superseded = p.superseded
  caller : q.caller = p.caller
  handling : ∀ n, q.loop = .handling n → p.loop = .handling n

def Event.beside : Event F → Bool
  | .closeChannel | .take | .activate | .report _ | .send | .next | .resolve | .test | .abandon => true
  | .start _ | .revise | .advance | .push | .deliver | .emit => false

theorem beside_step (beside : event.beside = true) (stepped : Step p event q) : Beside p q := by
  cases moves_of_step stepped with
  | closeChannel => exact ⟨rfl, rfl, rfl, fun _ => id⟩
  | send =>
    unfold Player.send
    split <;> exact ⟨rfl, rfl, rfl, fun _ => id⟩
  | next | abandon => exact ⟨rfl, rfl, rfl, nofun⟩
  | resolve =>
    refine ⟨rfl, rfl, rfl, fun n here => ?_⟩
    unfold Player.resolve at here
    dsimp only at here
    split at here <;> cases here
  | test =>
    refine ⟨rfl, rfl, rfl, fun n here => ?_⟩
    unfold Player.test at here
    dsimp only at here
    split at here <;> cases here
  | aside _ aside =>
    rw [aside]
    exact ⟨rfl, rfl, rfl, fun _ => id⟩
  | start | revise | advance | push | deliver | emit => cases beside

theorem Quiet.keeps (quiet : Quiet p) (sound : Sound q) (beside : Beside p q) : Quiet q where
  sound := sound
  emitted := beside.emitted ▸ quiet.emitted
  fresh n here := by
    rw [beside.superseded, beside.caller]
    exact quiet.fresh n (beside.handling n here)

theorem Quiet.start (quiet : Quiet p) {call : Call} (sound : Sound (p.start call)) (calm : Calm p (.start call)) :
    Quiet (p.start call) := by
  unfold Player.start at sound ⊢
  split
  · exact quiet
  · rename_i opened
    rw [if_neg opened] at sound
    cases call with
    | submit kind =>
      refine ⟨sound, quiet.emitted, fun n here => ⟨(quiet.fresh n here).1, ?_⟩⟩
      rintro _ ⟨⟩
      exact calm (by rw [show p.loop = .handling n from here]; rfl)
    | close =>
      refine ⟨sound, quiet.emitted, fun n here => ⟨(quiet.fresh n here).1, ?_⟩⟩
      rintro _ ⟨⟩
      rfl

theorem Quiet.revise (quiet : Quiet p) (sound : Sound (p.revise call)) (counted : p.caller = .counted call) :
    Quiet (p.revise call) := by
  unfold Player.revise at sound ⊢
  cases call with
  | submit kind =>
    dsimp only at sound ⊢
    split
    · rename_i bumps
      rw [if_pos bumps] at sound
      refine ⟨sound, quiet.emitted, fun n here => ?_⟩
      cases bumps.symm.trans ((quiet.fresh n here).2 _ counted)
    · rename_i plain
      rw [if_neg plain] at sound
      exact ⟨sound, quiet.emitted, fun n here => ⟨(quiet.fresh n here).1, nofun⟩⟩
  | close => exact ⟨sound, quiet.emitted, fun n here => ⟨(quiet.fresh n here).1, nofun⟩⟩

theorem Quiet.deliver (quiet : Quiet p) (sound : Sound (p.deliver entry)) (loop : p.loop = .hopping entry)
    (idle : p.caller = .idle) : Quiet (p.deliver entry) := by
  unfold Player.deliver at sound ⊢
  split
  · rename_i epoch
    rw [if_pos epoch] at sound
    refine ⟨sound, quiet.emitted, fun n here => ?_⟩
    dsimp only at here
    split at here <;> cases here
    have way : OnItsWay p entry := .inr (.inr (.inr (congrArg Loop.holds loop)))
    exact ⟨quiet.sound.current way idle epoch, fun call counted => by cases idle.symm.trans counted⟩
  · rename_i stale
    rw [if_neg stale] at sound
    exact ⟨sound, quiet.emitted, nofun⟩

theorem Quiet.emit (quiet : Quiet p) (sound : Sound (p.emit entry)) (loop : p.loop = .handling entry) :
    Quiet (p.emit entry) := by
  refine ⟨sound, fun given member => ?_, nofun⟩
  obtain before | rfl := mem_snoc member
  · exact quiet.emitted given before
  · exact (quiet.fresh entry loop).1

theorem Quiet.step (quiet : Quiet p) (calm : Calm p event) (stepped : Step p event q) : Quiet q := by
  have sound := quiet.sound.step stepped
  cases moves_of_step stepped with
  | start => exact quiet.start sound calm
  | revise counted => exact quiet.revise sound counted
  | @advance call =>
    refine ⟨sound, quiet.emitted, fun n here => ⟨(quiet.fresh n here).1, ?_⟩⟩
    cases call <;> nofun
  | push => exact ⟨sound, quiet.emitted, fun n here => ⟨(quiet.fresh n here).1, nofun⟩⟩
  | deliver loop idle => exact quiet.deliver sound loop idle
  | emit loop => exact quiet.emit sound loop
  | closeChannel | send | next | resolve | test | abandon => exact quiet.keeps sound (beside_step rfl stepped)
  | aside _ aside =>
    refine quiet.keeps sound ?_
    rw [aside]
    exact ⟨rfl, rfl, rfl, fun _ => id⟩

/-- In every run each notification was of the revision submitted last when the interface handled it, and the latest
position of the epoch gets through; and in a run in which no handler of a notification submits a source, a stop or a
seek, the signal after the handlers was of that revision too. -/
theorem notifications_are_current (reached : Reach (fun p : Player F => p = {}) (fun _ _ => True) Step p) :
    Current p.handled ∧ Arrives p ∧ (Reach (fun p : Player F => p = {}) Calm Step p → Current p.emitted) := by
  have sound : Sound p :=
    reached.invariant (fun _ initial => initial ▸ Sound.initial) fun _ _ _ sound _ stepped => sound.step stepped
  refine ⟨sound.handled, sound.arrives, fun calm => ?_⟩
  have quiet : Quiet p :=
    calm.invariant (fun _ initial => initial ▸ ⟨Sound.initial, by simp [Current], nofun⟩)
      fun _ _ _ quiet calm stepped => quiet.step calm stepped
  exact quiet.emitted

/-- A source is submitted and taken up, and the worker notifies of what it does. -/
def playing : List (Event Unit) :=
  [.start (.submit .source), .revise, .advance, .push, .take, .activate,
    .report (.busy true), .send, .next, .report (.position 7), .send, .resolve, .report (.position 9), .send, .test,
    .deliver, .emit, .next, .resolve, .test, .deliver]

theorem notifications_are_current_of_a_source : ∃ p : Player Unit,
    p.handled.map (fun entry => entry.1.info) = [.busy true, .position 9] ∧
      p.emitted.map (fun entry => entry.1.info) = [.busy true] ∧ Current p.handled ∧ Arrives p ∧ Current p.emitted := by
  have ran : (play Calm perform {} playing).any (fun p =>
      p.handled.map (fun entry => entry.1.info) == [.busy true, .position 9] &&
        p.emitted.map (fun entry => entry.1.info) == [.busy true]) = true := by decide +kernel
  obtain ⟨p, played, shown⟩ := (Option.any_eq_true ..).mp ran
  rw [Bool.and_eq_true, beq_iff_eq, beq_iff_eq] at shown
  have calm : Reach (fun p : Player Unit => p = {}) Calm Step p := Reach.play playing (.start rfl) played
  obtain ⟨handled, arrives, emitted⟩ := notifications_are_current (calm.weaken fun _ _ _ => trivial)
  exact ⟨p, shown.1, shown.2, handled, arrives, emitted calm⟩

/-- The media have been played to their end, and a handler of that submits the next source. -/
def nextSource : List (Event Unit) :=
  [.start (.submit .source), .revise, .advance, .push, .take, .activate,
    .report .ended, .send, .next, .resolve, .test, .deliver,
    .start (.submit .source), .revise, .advance, .push, .emit]

theorem ended_after_the_next_source : ∃ p : Player Unit,
    Reach (fun p : Player Unit => p = {}) (fun _ _ => True) Step p ∧
      p.emitted = [({ epoch := 1, info := .ended, revision := 1, serial := 0 }, 2)] ∧ ¬ Current p.emitted := by
  have ran : (play (fun _ _ => True) perform {} nextSource).any (fun p =>
      p.emitted == [({ epoch := 1, info := .ended, revision := 1, serial := 0 }, 2)]) = true := by decide +kernel
  obtain ⟨p, played, shown⟩ := (Option.any_eq_true ..).mp ran
  rw [beq_iff_eq] at shown
  have reached : Reach (fun p : Player Unit => p = {}) (fun _ _ => True) Step p := Reach.play nextSource (.start rfl) played
  refine ⟨p, reached, shown, fun current => ?_⟩
  have same : 1 = 2 := current ({ epoch := 1, info := .ended, revision := 1, serial := 0 }, 2) (by simp [shown])
  cases same

end Qcm.PlayerNotifications
