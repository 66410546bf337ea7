import Qcm.ConnectionInbox

/-!
What an inbox hands out.  Both ways to the callback test the same state, and the
direct one is taken only when nothing is queued and nothing is being handed out,
so the order of arrival is the order of delivery.
-/

namespace Qcm.ConnectionInbox

open Lib ConnectionState

variable {limit : Nat} {state next : ConnectionState} {generation other : Nat} {inbox : Inbox}

/-- What is known of the inbox of a connection, also while a message is put into it. -/
structure Filled (limit : Nat) (state : ConnectionState) (generation : Nat) (inbox : Inbox) : Prop where
  bytes : inbox.bytes = (inbox.messages.map charge).sum
  within : inbox.bytes ≤ limit
  order : (inbox.delivered ++ inbox.messages).Sublist inbox.arrived
  whole : Live state generation inbox → inbox.delivered ++ inbox.messages = inbox.arrived
  opened : inbox.ready = true → inbox.opened = true
  delivering : inbox.delivering = true → inbox.ready = true
  drains : state.frames.count (.drain generation) = if inbox.delivering = true then 1 else 0
  opening : .opening generation ∈ state.frames → inbox.opened = true
  settled : inbox.opened = true → inbox.ready = true ∨ .opening generation ∈ state.frames

/-- Between the steps nothing is queued that could be handed out. -/
structure Kept (limit : Nat) (state : ConnectionState) (generation : Nat) (inbox : Inbox) : Prop extends
    Filled limit state generation inbox where
  idle : Live state generation inbox → inbox.ready = true → inbox.delivering = false → inbox.messages = []

/-- What is known of the inboxes, and of how the generations are used. -/
structure Sound (limit : Nat) (state : ConnectionState) : Prop where
  each : ∀ generation inbox, state.inboxes.lookup generation = some inbox → Kept limit state generation inbox
  early : ∀ generation ∈ state.inboxes, generation ≤ state.generation
  pending : state.target = true → state.generation ∉ state.inboxes
  frames : ∀ generation, .drain generation ∈ state.frames ∨ .opening generation ∈ state.frames →
    generation ∈ state.inboxes
  connecting : ∀ generation inbox, state.worker = .connecting generation →
    state.inboxes.lookup generation = some inbox → inbox.opened = false
  connected : state.connected = true → state.failed = false ∧
    ∃ inbox, state.inboxes.lookup state.generation = some inbox ∧ inbox.opened = true

variable {before : Inbox}

theorem Sound.start : Sound limit {} where
  each _ _ found := nomatch found
  early _ member := nomatch member
  pending waiting := nomatch waiting
  frames _ member := by simp at member
  connecting _ _ waits := nomatch waits
  connected connected := nomatch connected

theorem Sound.opened (sound : Sound limit state) (connected : state.connected = true)
    (current : state.generation = generation) (found : state.inboxes.lookup generation = some inbox) :
    inbox.opened = true := by
  subst current
  obtain ⟨held, there, opened⟩ := (sound.connected connected).2
  cases there.symm.trans found
  exact opened

theorem mem_of_lookup (found : state.inboxes.lookup generation = some inbox) : generation ∈ state.inboxes :=
  AList.lookup_isSome.mp (by rw [found]; rfl)

/-- What is known stays known, and nothing is handed out of an inbox whose connection is over. -/
structure Advances (limit : Nat) (state next : ConnectionState) : Prop where
  sound : Sound limit next
  ended : ∀ generation, Over state generation → Over next generation ∧
    (next.inboxes.lookup generation).map Inbox.delivered = (state.inboxes.lookup generation).map Inbox.delivered

theorem Advances.refl (sound : Sound limit state) : Advances limit state state where
  sound := sound
  ended _ ended := ⟨ended, rfl⟩

theorem Advances.followed {last : ConnectionState} (first : Advances limit state next)
    (second : Sound limit next → Advances limit next last) : Advances limit state last where
  sound := (second first.sound).sound
  ended generation ended := by
    obtain ⟨there, same⟩ := first.ended generation ended
    obtain ⟨still, alike⟩ := (second first.sound).ended generation there
    exact ⟨still, alike.trans same⟩

/-! ## Steps that leave the inboxes as they are -/

/-- The inboxes are the same, no connection has come back to life, and what is left to do is the same. -/
structure Calms (state next : ConnectionState) : Prop where
  inboxes : next.inboxes = state.inboxes
  current : ∀ generation ∈ state.inboxes, next.current generation → state.current generation
  failed : next.failed = false → state.failed = false ∨ next.generation ∉ state.inboxes
  connected : next.connected = true →
    state.connected = true ∧ next.failed = false ∧ next.generation = state.generation
  drains : ∀ generation, next.frames.count (.drain generation) = state.frames.count (.drain generation)
  opening : ∀ generation, .opening generation ∈ next.frames ↔ .opening generation ∈ state.frames

theorem Calms.live (calms : Calms state next) (member : generation ∈ state.inboxes)
    (live : Live next generation inbox) : Live state generation inbox := by
  obtain ⟨current, sane, connected⟩ := live
  refine ⟨calms.current generation member current, ?_, connected.imp_left fun holds => (calms.connected holds).1⟩
  obtain before | fresh := calms.failed sane
  · exact before
  · rw [current.1] at fresh
    exact absurd member fresh

theorem Calms.ended (calms : Calms state next) (ended : Over state generation) : Over next generation ∧
    (next.inboxes.lookup generation).map Inbox.delivered = (state.inboxes.lookup generation).map Inbox.delivered := by
  refine ⟨⟨calms.inboxes ▸ ended.1, ?_⟩, by rw [calms.inboxes]⟩
  by_contra back
  rw [not_or, not_not, Bool.not_eq_true] at back
  obtain sane | fresh := calms.failed back.2
  · obtain parted | failed := ended.2
    · exact parted (calms.current generation ended.1 back.1)
    · exact nomatch sane.symm.trans failed
  · rw [back.1.1] at fresh
    exact fresh ended.1

theorem Kept.calms (kept : Kept limit state generation inbox) (member : generation ∈ state.inboxes)
    (calms : Calms state next) : Kept limit next generation inbox where
  bytes := kept.bytes
  within := kept.within
  order := kept.order
  whole live := kept.whole (calms.live member live)
  idle live := kept.idle (calms.live member live)
  opened := kept.opened
  delivering := kept.delivering
  drains := (calms.drains generation).trans kept.drains
  opening listed := kept.opening ((calms.opening generation).mp listed)
  settled opened := (kept.settled opened).imp_right (calms.opening generation).mpr

theorem Sound.calms (sound : Sound limit state) (calms : Calms state next)
    (later : state.generation ≤ next.generation)
    (pending : next.target = true → next.generation ∉ state.inboxes)
    (worker : ∀ generation, next.worker = .connecting generation → state.worker = .connecting generation) :
    Advances limit state next where
  sound := {
    each generation inbox found := by
      rw [calms.inboxes] at found
      exact (sound.each generation inbox found).calms (mem_of_lookup found) calms
    early generation member := by
      rw [calms.inboxes] at member
      exact Nat.le_trans (sound.early generation member) later
    pending waiting := by
      rw [calms.inboxes]
      exact pending waiting
    frames generation listed := by
      rw [calms.inboxes]
      refine sound.frames generation (listed.imp (fun member => ?_) (calms.opening generation).mp)
      exact List.count_pos_iff.mp ((calms.drains generation) ▸ List.count_pos_iff.mpr member)
    connecting generation inbox waits found := by
      rw [calms.inboxes] at found
      exact sound.connecting generation inbox (worker generation waits) found
    connected holds := by
      obtain ⟨before, sane, same⟩ := calms.connected holds
      rw [calms.inboxes, same]
      exact ⟨sane, (sound.connected before).2⟩ }
  ended _ ended := calms.ended ended

theorem fail_fields (state : ConnectionState) (value : Nat) : (state.fail value).generation = state.generation ∧
    (state.fail value).target = state.target ∧ (state.fail value).worker = state.worker ∧
    (state.fail value).inboxes = state.inboxes := by
  unfold fail
  split <;> exact ⟨rfl, rfl, rfl, rfl⟩

section

variable (sound : Sound limit state)
include sound

theorem fail_calms (value : Nat) : Calms state (state.fail value) := by
  unfold fail
  split
  · exact ⟨rfl, fun _ _ => id, Or.inl, fun holds => ⟨holds, (sound.connected holds).1, rfl⟩,
      fun _ => rfl, fun _ => Iff.rfl⟩
  · exact {
      inboxes := rfl
      current := fun _ _ => id
      failed := fun sane => nomatch sane
      connected := fun holds => nomatch holds
      drains := fun _ => List.count_cons_of_ne (by simp)
      opening := fun _ => by simp [called, stop] }

theorem Sound.fail (value : Nat) : Advances limit state (state.fail value) := by
  obtain ⟨generation, target, worker, _⟩ := fail_fields state value
  refine sound.calms (fail_calms sound value) (Nat.le_of_eq generation.symm) ?_ fun _ waits => worker ▸ waits
  rw [target, generation]
  exact sound.pending

theorem Sound.perhaps (failed : Bool) (value : Nat) :
    Advances limit state (if failed = true then state.fail value else state) := by
  split
  · exact sound.fail value
  · exact .refl sound

theorem Sound.worker (worker : Worker) (elsewhere : ∀ generation, worker ≠ .connecting generation) :
    Advances limit state { state with worker := worker } :=
  sound.calms ⟨rfl, fun _ _ => id, Or.inl, fun holds => ⟨holds, (sound.connected holds).1, rfl⟩,
    fun _ => rfl, fun _ => Iff.rfl⟩ le_rfl sound.pending fun generation waits => absurd waits (elsewhere generation)

theorem Sound.done : Advances limit state (state.called .done) :=
  sound.calms ⟨rfl, fun _ _ => id, Or.inl, fun holds => ⟨holds, (sound.connected holds).1, rfl⟩,
    fun _ => List.count_cons_of_ne (by simp), fun _ => by simp [called]⟩ le_rfl sound.pending fun _ => id

end

/-! ## Steps on one inbox -/

/-- The states differ in one inbox and in what is left to do for it. -/
structure Beside (base state : ConnectionState) (generation : Nat) : Prop where
  lookup : ∀ other, other ≠ generation → state.inboxes.lookup other = base.inboxes.lookup other
  number : state.generation = base.generation
  closing : state.closing = base.closing
  failed : state.failed = base.failed
  target : state.target = base.target
  worker : ∀ other, state.worker = .connecting other → base.worker = .connecting other
  connected : state.connected = true → state.failed = false ∧ (base.connected = true ∨ base.current generation)
  drains : ∀ other, other ≠ generation → state.frames.count (.drain other) = base.frames.count (.drain other)
  opening : ∀ other, other ≠ generation → (.opening other ∈ state.frames ↔ .opening other ∈ base.frames)

variable {base : ConnectionState}

theorem Beside.refl (sound : Sound limit base) (generation : Nat) : Beside base base generation where
  lookup _ _ := rfl
  number := rfl
  closing := rfl
  failed := rfl
  target := rfl
  worker _ waits := waits
  connected holds := ⟨(sound.connected holds).1, .inl holds⟩
  drains _ _ := rfl
  opening _ _ := Iff.rfl

theorem Beside.alive (beside : Beside base state generation) (current : state.current generation)
    (sane : state.failed = false) : ¬ Over base generation := by
  rintro ⟨_, parted | failed⟩
  · exact parted ⟨beside.number.symm.trans current.1, beside.closing.symm.trans current.2⟩
  · exact nomatch (beside.failed.symm.trans sane).symm.trans failed

theorem Beside.put (beside : Beside base state generation) (inbox : Inbox) :
    Beside base (state.put generation inbox) generation :=
  { beside with
    lookup := fun other apart => by
      rw [ConnectionState.put, Hash.lookup_insert, if_neg apart]
      exact beside.lookup other apart }

theorem Beside.called (beside : Beside base state generation) {frame : Frame}
    (own : frame = .done ∨ frame = .drain generation ∨ frame = .opening generation) :
    Beside base (state.called frame) generation :=
  { beside with
    drains := fun other apart => by
      refine (List.count_cons_of_ne fun same => ?_).trans (beside.drains other apart)
      obtain rfl | rfl | rfl := own <;> cases same
      exact apart rfl
    opening := fun other apart => by
      refine List.mem_cons.trans (Iff.trans (or_iff_right fun same => ?_) (beside.opening other apart))
      obtain rfl | rfl | rfl := own <;> cases same
      exact apart rfl }

theorem Kept.beside {held : Inbox} (kept : Kept limit base other held) (beside : Beside base state generation)
    (apart : other ≠ generation) : Kept limit state other held := by
  have live : Live state other held → Live base other held := by
    rintro ⟨⟨same, running⟩, sane, connected⟩
    rw [beside.number] at same
    rw [beside.closing] at running
    rw [beside.failed] at sane
    refine ⟨⟨same, running⟩, sane, connected.imp_left fun holds => ?_⟩
    obtain before | current := (beside.connected holds).2
    · exact before
    · exact absurd (same.symm.trans current.1) apart
  exact {
    bytes := kept.bytes
    within := kept.within
    order := kept.order
    whole := fun holds => kept.whole (live holds)
    opened := kept.opened
    delivering := kept.delivering
    drains := (beside.drains other apart).trans kept.drains
    opening := fun listed => kept.opening ((beside.opening other apart).mp listed)
    settled := fun opened => (kept.settled opened).imp_right (beside.opening other apart).mpr
    idle := fun holds => kept.idle (live holds) }

theorem Beside.mem (beside : Beside base state generation) (member : generation ∈ base.inboxes)
    (held : state.inboxes.lookup generation = some inbox) (other : Nat) :
    other ∈ state.inboxes ↔ other ∈ base.inboxes := by
  by_cases same : other = generation
  · subst same
    exact iff_of_true (mem_of_lookup held) member
  · rw [← AList.lookup_isSome, ← AList.lookup_isSome, beside.lookup other same]

theorem Beside.ended (beside : Beside base state generation)
    (found : base.inboxes.lookup generation = some before)
    (held : state.inboxes.lookup generation = some inbox)
    (still : Over base generation → inbox.delivered = before.delivered) (ended : Over base other) :
    Over state other ∧
      (state.inboxes.lookup other).map Inbox.delivered = (base.inboxes.lookup other).map Inbox.delivered := by
  refine ⟨⟨(beside.mem (mem_of_lookup found) held other).mpr ended.1, ?_⟩, ?_⟩
  · have parted := ended.2
    unfold current at parted ⊢
    rw [beside.number, beside.closing, beside.failed]
    exact parted
  · by_cases same : other = generation
    · subst same
      rw [held, found]
      exact congrArg some (still ended)
    · rw [beside.lookup other same]

theorem Sound.beside (sound : Sound limit base) (found : base.inboxes.lookup generation = some before)
    (beside : Beside base state generation) (held : state.inboxes.lookup generation = some inbox)
    (waits : state.worker = .connecting generation → inbox.opened = false)
    (opened : state.connected = true → state.generation = generation → inbox.opened = true)
    (still : Over base generation → inbox.delivered = before.delivered)
    (kept : Kept limit state generation inbox) : Advances limit base state := by
  have listed := beside.mem (mem_of_lookup found) held
  refine ⟨⟨fun other hold there => ?_, fun other there => ?_, fun waiting => ?_, fun other there => ?_,
    fun other hold connecting there => ?_, fun holds => ⟨(beside.connected holds).1, ?_⟩⟩,
    fun other ended => beside.ended found held still ended⟩
  · by_cases same : other = generation
    · subst same
      cases held.symm.trans there
      exact kept
    · rw [beside.lookup other same] at there
      exact (sound.each other hold there).beside beside same
  · rw [beside.number]
    exact sound.early other ((listed other).mp there)
  · rw [beside.number, listed]
    exact sound.pending (beside.target ▸ waiting)
  · by_cases same : other = generation
    · subst same
      exact mem_of_lookup held
    · refine (listed other).mpr (sound.frames other (there.imp (fun inside => ?_) (beside.opening other same).mp))
      exact List.count_pos_iff.mp ((beside.drains other same) ▸ List.count_pos_iff.mpr inside)
  · by_cases same : other = generation
    · subst same
      cases held.symm.trans there
      exact waits connecting
    · rw [beside.lookup other same] at there
      exact sound.connecting other hold (beside.worker other connecting) there
  · by_cases same : state.generation = generation
    · subst same
      exact ⟨inbox, held, opened holds rfl⟩
    · rw [beside.lookup _ same, beside.number]
      obtain connected | current := (beside.connected holds).2
      · exact (sound.connected connected).2
      · exact absurd (beside.number.trans current.1) same

theorem lookup_put : (state.put generation inbox).inboxes.lookup generation = some inbox := by
  rw [ConnectionState.put, Hash.lookup_insert, if_pos rfl]

/-- An inbox whose messages are being handed out, while no callback of it runs. -/
structure Draining (limit : Nat) (state : ConnectionState) (generation : Nat) (inbox : Inbox) : Prop where
  bytes : inbox.bytes = (inbox.messages.map charge).sum
  within : inbox.bytes ≤ limit
  order : (inbox.delivered ++ inbox.messages).Sublist inbox.arrived
  whole : Live state generation inbox → inbox.delivered ++ inbox.messages = inbox.arrived
  ready : inbox.ready = true
  opened : inbox.opened = true
  delivering : inbox.delivering = true
  free : state.frames.count (.drain generation) = 0

section

variable (sound : Sound limit base) (found : base.inboxes.lookup generation = some before)
  (beside : Beside base state generation)
include sound found beside

theorem Sound.drainLoop (draining : Draining limit state generation inbox)
    (same : inbox.delivered = before.delivered) (elsewhere : state.worker ≠ .connecting generation) :
    Advances limit base (drainLoop state generation inbox) := by
  unfold ConnectionState.drainLoop
  split
  · rename_i able
    split
    · rename_i value rest queued
      have sum := draining.bytes
      have within := draining.within
      rw [queued, List.map_cons, List.sum_cons] at sum
      refine sound.beside found ((beside.put _).called (.inr (.inl rfl))) lookup_put
        (fun waits => absurd waits elsewhere)
        (fun _ _ => draining.opened) (fun ended => absurd ended (beside.alive able.1 able.2.2)) ?_
      exact {
        bytes := by
          change inbox.bytes - charge value = (rest.map charge).sum
          omega
        within := Nat.le_trans (Nat.sub_le ..) within
        order := by simpa [queued] using draining.order
        whole := fun live => by simpa [queued] using draining.whole live
        opened := fun _ => draining.opened
        delivering := fun _ => draining.ready
        drains := by
          rw [if_pos draining.delivering]
          exact List.count_cons_self.trans (congrArg (· + 1) draining.free)
        opening := fun _ => draining.opened
        settled := fun _ => .inl draining.ready
        idle := fun _ _ calm => nomatch draining.delivering.symm.trans calm }
    · rename_i empty
      refine sound.beside found (beside.put _) lookup_put (fun waits => absurd waits elsewhere)
        (fun _ _ => draining.opened) (fun _ => same) ?_
      exact {
        bytes := draining.bytes
        within := draining.within
        order := draining.order
        whole := draining.whole
        opened := fun _ => draining.opened
        delivering := fun running => nomatch running
        drains := draining.free
        opening := fun _ => draining.opened
        settled := fun _ => .inl draining.ready
        idle := fun _ _ _ => empty }
  · rename_i unable
    refine sound.beside found (beside.put _) lookup_put (fun waits => absurd waits elsewhere)
        (fun _ _ => draining.opened) (fun _ => same) ?_
    have dead : ∀ inbox : Inbox, inbox.opened = true → ¬ Live state generation inbox := by
      rintro inbox opened ⟨current, sane, connected | fresh⟩
      · exact unable ⟨current, connected, sane⟩
      · exact nomatch opened.symm.trans fresh
    exact {
      bytes := rfl
      within := Nat.zero_le _
      order := by
        rw [List.append_nil]
        exact (List.sublist_append_left ..).trans draining.order
      whole := fun live => absurd live (dead _ draining.opened)
      opened := fun _ => draining.opened
      delivering := fun running => nomatch running
      drains := draining.free
      opening := fun _ => draining.opened
      settled := fun _ => .inl draining.ready
      idle := fun _ _ _ => rfl }

theorem Sound.drain (filled : Filled limit state generation inbox)
    (same : inbox.delivered = before.delivered)
    (connecting : state.worker = .connecting generation → inbox.opened = false)
    (opens : state.connected = true → state.generation = generation → inbox.opened = true) :
    Advances limit base (drain state generation inbox) := by
  unfold ConnectionState.drain
  split
  · rename_i waits
    refine sound.beside found (beside.put _) lookup_put connecting opens (fun _ => same)
      { filled with idle := fun _ ready calm => ?_ }
    obtain before | running := waits
    · exact nomatch before.symm.trans ready
    · exact nomatch running.symm.trans calm
  · rename_i starts
    rw [not_or, Bool.not_eq_false, Bool.not_eq_true] at starts
    have opened := filled.opened starts.1
    refine sound.drainLoop found beside { filled with
      ready := starts.1
      opened := opened
      delivering := rfl
      free := ?_ } same fun waits => nomatch opened.symm.trans (connecting waits)
    have drains := filled.drains
    rw [starts.2] at drains
    exact drains

end

/-! ## Events -/

theorem Kept.filled_append {appended : Inbox} {value : Message} (kept : Kept limit state generation inbox)
    (accepted : (inbox.note .binary value).append value limit = some appended) :
    Filled limit state generation appended ∧ appended.opened = inbox.opened ∧
      appended.delivered = inbox.delivered := by
  unfold Inbox.append at accepted
  split at accepted <;> cases accepted
  rename_i fits
  refine ⟨{ kept with bytes := ?_, within := ?_, order := ?_, whole := fun live => ?_ }, rfl, rfl⟩
  · simp [Inbox.note, kept.bytes]
  · simp only [Inbox.note, if_pos] at fits ⊢
    omega
  · have both := kept.order.append (List.Sublist.refl [value])
    rw [List.append_assoc] at both
    exact both
  · have same := kept.whole live
    simp [Inbox.note, ← same]

section

variable (sound : Sound limit state)
include sound

theorem Sound.noted (found : state.inboxes.lookup generation = some inbox) (kind : Kind) (value : Message)
    (dead : kind = .binary → ¬ Live state generation inbox) :
    Advances limit state (state.put generation (inbox.note kind value)) := by
  have kept := sound.each generation inbox found
  have beside := (Beside.refl sound generation).put (inbox.note kind value)
  refine sound.beside found beside lookup_put (fun waits => ?_) (fun connected current => ?_)
    (fun _ => by cases kind <;> rfl) ?_
  · have fresh := sound.connecting generation inbox waits found
    cases kind <;> exact fresh
  · have opened := sound.opened connected current found
    cases kind <;> exact opened
  · cases kind with
    | binary =>
      have ended := dead rfl
      exact { kept with
        order := kept.order.trans (List.sublist_append_left ..)
        whole := fun live => absurd live ended
        idle := fun live => absurd live ended }
    | pong | other => exact { kept with }

theorem Sound.receive (found : state.inboxes.lookup generation = some inbox) (kind : Kind) (value : Message) :
    Advances limit state (receive limit (state.put generation (inbox.note kind value)) generation
      (inbox.note kind value) kind value) := by
  have kept := sound.each generation inbox found
  have commutes : (state.put generation (inbox.note kind value)).fail generation =
      (state.fail generation).put generation (inbox.note kind value) := by
    unfold ConnectionState.fail
    split <;> split <;> first | rfl | contradiction
  unfold ConnectionInbox.receive
  split
  · rename_i refused
    refine sound.noted found kind value fun _ live => ?_
    obtain other | failed := refused
    · exact other live.1
    · exact nomatch live.2.1.symm.trans failed
  · rename_i taken
    rw [not_or, not_not, Bool.not_eq_true] at taken
    cases kind with
    | pong => exact sound.noted found .pong value nofun
    | other =>
      rw [commutes]
      refine (sound.fail generation).followed fun failed => failed.noted ?_ .other value nofun
      rw [(fail_fields _ generation).2.2.2, found]
    | binary =>
      dsimp only
      split
      · rename_i direct
        obtain ⟨ready, calm, empty⟩ := direct
        have opened := kept.opened ready
        split
        · rename_i connected
          have live : Live state generation inbox := ⟨taken.1, taken.2, .inl connected⟩
          have same : inbox.delivered = inbox.arrived := by simpa [kept.idle live ready calm] using kept.whole live
          have beside := ((Beside.refl sound generation).put (inbox.note .binary value)).put
            { inbox.note .binary value with delivered := inbox.delivered ++ [value] }
          refine sound.beside found (beside.called (.inl rfl)) lookup_put
            (fun waits => sound.connecting generation inbox waits found) (fun _ _ => opened)
            (fun ended => absurd ended ((Beside.refl sound generation).alive taken.1 taken.2)) ?_
          exact {
            bytes := kept.bytes
            within := kept.within
            order := by
              change (inbox.delivered ++ [value] ++ inbox.messages).Sublist (inbox.arrived ++ [value])
              rw [show inbox.messages = [] from empty, same, List.append_nil]
            whole := fun _ => by
              change inbox.delivered ++ [value] ++ inbox.messages = inbox.arrived ++ [value]
              rw [show inbox.messages = [] from empty, same, List.append_nil]
            opened := fun _ => opened
            delivering := kept.delivering
            drains := (List.count_cons_of_ne (by simp)).trans kept.drains
            opening := fun _ => opened
            settled := fun _ => .inl ready
            idle := fun _ _ _ => empty }
        · rename_i parted
          refine sound.noted found .binary value fun _ live => ?_
          obtain connected | fresh := live.2.2
          · exact parted connected
          · exact nomatch opened.symm.trans fresh
      · split
        · rename_i appended accepted
          obtain ⟨filled, opened, delivered⟩ := kept.filled_append accepted
          have beside := (Beside.refl sound generation).put (inbox.note .binary value)
          refine sound.drain found beside { filled with } delivered (fun waits => ?_) fun connected current => ?_
          · rw [opened]
            exact sound.connecting generation inbox waits found
          · rw [opened]
            exact sound.opened connected current found
        · rw [commutes]
          have still : (state.fail generation).inboxes.lookup generation = some inbox := by
            rw [(fail_fields _ generation).2.2.2, found]
          refine (sound.fail generation).followed fun sound => sound.noted still .binary value fun _ live => ?_
          have failed : (state.fail generation).failed = true := by
            have able : state.current generation ∧ state.failed = false := taken
            unfold ConnectionState.fail
            rw [if_neg (by simp [able])]
            rfl
          exact nomatch live.2.1.symm.trans failed

theorem Sound.fresh (later : state.generation < generation) : generation ∉ state.inboxes :=
  fun member => Nat.not_le.mpr later (sound.early generation member)

theorem Sound.renew (target : Bool) :
    Advances limit state { stop { state with generation := state.generation + 1 } with target := target } := by
  have fresh := sound.fresh (Nat.lt_succ_self state.generation)
  refine sound.calms ⟨rfl, fun generation member current => ?_, Or.inl, nofun, fun _ => rfl,
    fun _ => Iff.rfl⟩ (Nat.le_succ _) (fun _ => fresh) fun _ => id
  rw [← current.1] at member
  exact absurd member fresh

theorem Sound.parts (closing peer target : Bool) (worker : Worker)
    (stays : closing = false → state.closing = false) (pending : target = true → state.target = true)
    (elsewhere : ∀ generation, worker = .connecting generation → state.worker = .connecting generation) :
    Advances limit state { state with
      connected := false, closing := closing, peerDisconnected := peer, target := target, worker := worker } :=
  sound.calms ⟨rfl, fun _ _ current => ⟨current.1, stays current.2⟩, Or.inl, nofun,
    fun _ => rfl, fun _ => Iff.rfl⟩ le_rfl (fun waiting => sound.pending (pending waiting)) elsewhere

end

theorem Sound.begin (sound : Sound limit state) (absent : state.generation ∉ state.inboxes) (peer : Bool) :
    Advances limit state { state.put state.generation {} with
      target := false, failed := false, peerDisconnected := peer, worker := .connecting state.generation } := by
  have calm : ∀ frame, frame = Frame.drain state.generation ∨ frame = Frame.opening state.generation →
      frame ∉ state.frames := by
    rintro frame (rfl | rfl) listed
    · exact absent (sound.frames _ (.inl listed))
    · exact absent (sound.frames _ (.inr listed))
  have lookup : ∀ other, other ≠ state.generation →
      (state.put state.generation {}).inboxes.lookup other = state.inboxes.lookup other :=
    fun other apart => by rw [put, Hash.lookup_insert, if_neg apart]
  have apart : ∀ generation ∈ state.inboxes, generation ≠ state.generation :=
    fun generation member same => absent (same ▸ member)
  refine ⟨⟨fun generation inbox found => ?_, fun generation member => ?_, nofun, fun generation listed => ?_,
    fun generation inbox waits found => ?_, fun connected => ?_⟩, fun generation ended => ⟨⟨?_, .inl ?_⟩, ?_⟩⟩
  · by_cases same : generation = state.generation
    · subst same
      cases lookup_put.symm.trans found
      exact {
        bytes := rfl
        within := Nat.zero_le _
        order := List.Sublist.refl _
        whole := fun _ => rfl
        opened := nofun
        delivering := nofun
        drains := List.count_eq_zero_of_not_mem (calm _ (.inl rfl))
        opening := fun listed => absurd listed (calm _ (.inr rfl))
        settled := nofun
        idle := nofun }
    · have held := sound.each generation inbox ((lookup generation same).symm.trans found)
      exact { held with
        whole := fun live => absurd live.1.1.symm same
        idle := fun live => absurd live.1.1.symm same }
  · obtain rfl | before := (AList.mem_insert _).mp member
    · exact le_rfl
    · exact sound.early generation before
  · exact (AList.mem_insert _).mpr (.inr (sound.frames generation listed))
  · cases waits
    cases lookup_put.symm.trans found
    rfl
  · obtain ⟨_, inbox, there, _⟩ := sound.connected connected
    exact absurd (mem_of_lookup there) absent
  · exact (AList.mem_insert _).mpr (.inr ended.1)
  · exact fun current => apart generation ended.1 current.1.symm
  · exact congrArg (Option.map Inbox.delivered) (lookup generation (apart generation ended.1))

section

variable (sound : Sound limit state)
include sound

theorem Sound.takeTarget (waiting : state.target = true) (session : Bool) :
    Advances limit state (takeTarget state session) := by
  have absent := sound.pending waiting
  unfold ConnectionInbox.takeTarget
  split
  · exact sound.begin absent false
  · have taken : Advances limit state { state with target := false, failed := false, peerDisconnected := false } :=
      sound.calms ⟨rfl, fun _ _ => id, fun _ => .inr absent, fun holds => ⟨holds, rfl, rfl⟩, fun _ => rfl,
        fun _ => Iff.rfl⟩ le_rfl (fun waiting => nomatch waiting) fun _ => id
    exact taken.followed fun sound => sound.fail state.generation

theorem Sound.connectReturned (waits : state.worker = .connecting generation)
    (found : state.inboxes.lookup generation = some inbox) (client : Option Bool) :
    Advances limit state (connectReturned state generation inbox client) := by
  have kept := sound.each generation inbox found
  have unopened := sound.connecting generation inbox waits found
  unfold ConnectionInbox.connectReturned
  split
  · exact (sound.fail generation).followed fun sound => sound.worker _ nofun
  · split
    · rename_i able
      have waiting : inbox.ready = false := by
        by_contra ready
        exact nomatch unopened.symm.trans (kept.opened (Bool.not_eq_false _ ▸ ready))
      have calm : inbox.delivering = false := by
        by_contra running
        exact nomatch waiting.symm.trans (kept.delivering (Bool.not_eq_false _ ▸ running))
      have beside := ((Beside.refl sound generation).put { inbox with opened := true }).called
        (.inr (.inr rfl) : Frame.opening generation = .done ∨ _ ∨ _)
      have parted : Beside state
          { (state.put generation { inbox with opened := true }).called (.opening generation) with
            connected := true, worker := .opening generation } generation :=
        { beside with worker := nofun, connected := fun _ => ⟨able.2.1, .inr able.1⟩ }
      refine sound.beside found parted lookup_put nofun (fun _ _ => rfl) (fun _ => rfl) { kept with
        whole := fun _ => kept.whole ⟨able.1, able.2.1, .inr unopened⟩
        opened := fun _ => rfl
        drains := (List.count_cons_of_ne (by simp)).trans kept.drains
        opening := fun _ => rfl
        settled := fun _ => .inr (.head _)
        idle := fun _ ready => nomatch waiting.symm.trans ready }
    · exact sound.parts state.closing state.peerDisconnected state.target _ id id nofun

theorem Sound.returned (returns : returned state = some next) : Advances limit state next := by
  unfold ConnectionInbox.returned at returns
  split at returns
  · cases returns
  · rename_i rest stack
    cases returns
    exact sound.calms ⟨rfl, fun _ _ => id, Or.inl, fun holds => ⟨holds, (sound.connected holds).1, rfl⟩,
      fun _ => by simp [stack], fun _ => by simp [stack]⟩ le_rfl sound.pending fun _ => id
  · rename_i generation rest stack
    obtain ⟨inbox, found, rfl⟩ := Option.map_eq_some_iff.mp returns
    have kept := sound.each generation inbox found
    have drains := kept.drains
    rw [stack, List.count_cons_self] at drains
    have running : inbox.delivering = true := by
      by_contra calm
      rw [if_neg calm] at drains
      omega
    rw [if_pos running] at drains
    have ready := kept.delivering running
    have beside : Beside state { state with frames := rest } generation :=
      { Beside.refl sound generation with
        drains := fun other apart => by
          rw [stack]
          exact (List.count_cons_of_ne fun same => apart (Frame.drain.inj same).symm).symm
        opening := fun other apart => by simp [stack] }
    refine sound.drainLoop found beside ⟨kept.bytes, kept.within, kept.order, kept.whole, ready,
      kept.opened ready, running, Nat.succ.inj drains⟩ rfl fun waits => ?_
    exact nomatch (kept.opened ready).symm.trans (sound.connecting generation inbox waits found)
  · rename_i generation rest stack
    obtain ⟨inbox, found, rfl⟩ := Option.map_eq_some_iff.mp returns
    have kept := sound.each generation inbox found
    have opened := kept.opening (by simp [stack])
    have beside : Beside state { state with frames := rest, worker := .established generation } generation :=
      { Beside.refl sound generation with
        worker := nofun
        drains := fun other apart => by simp [stack]
        opening := fun other apart => by
          rw [stack]
          exact (or_iff_right fun same => apart (Frame.opening.inj same)).symm.trans List.mem_cons.symm }
    refine sound.drain found beside { kept with
      opened := fun _ => opened
      delivering := fun _ => rfl
      drains := ?_
      opening := fun _ => opened
      settled := fun _ => .inl rfl } rfl nofun fun _ _ => opened
    have drains := kept.drains
    rw [stack, List.count_cons_of_ne (by simp)] at drains
    exact drains

theorem Sound.step (event : Event) (stepped : Step limit state event next) : Advances limit state next := by
  unfold Step at stepped
  cases event with
  | message generation kind value =>
    obtain ⟨inbox, found, rfl⟩ := Option.map_eq_some_iff.mp stepped
    exact sound.receive found kind value
  | error generation =>
    obtain ⟨inbox, found, rfl⟩ := Option.map_eq_some_iff.mp stepped
    exact sound.fail generation
  | disconnected generation =>
    obtain ⟨inbox, found, rfl⟩ := Option.map_eq_some_iff.mp stepped
    unfold ConnectionInbox.disconnected
    split
    · exact sound.parts state.closing true state.target state.worker id id fun _ => id
    · exact .refl sound
  | openUrl parsed =>
    cases stepped
    unfold ConnectionInbox.openUrl
    split
    · exact .refl sound
    · split
      · exact sound.fail state.generation
      · exact sound.renew true
  | disconnect =>
    cases stepped
    exact sound.renew false
  | shutdown =>
    cases stepped
    exact sound.parts true state.peerDisconnected false state.worker nofun nofun fun _ => id
  | engineFailed =>
    obtain ⟨_, same⟩ := Option.ite_none_right_eq_some.mp stepped
    cases same
    exact (sound.fail state.generation).followed fun sound => sound.worker _ nofun
  | takeTarget session =>
    obtain ⟨⟨_, _, waiting⟩, same⟩ := Option.ite_none_right_eq_some.mp stepped
    cases same
    exact sound.takeTarget waiting session
  | connectReturned client =>
    unfold perform at stepped
    dsimp only at stepped
    split at stepped
    · rename_i generation waits
      obtain ⟨inbox, found, rfl⟩ := Option.map_eq_some_iff.mp stepped
      exact sound.connectReturned waits found client
    · cases stepped
  | changed =>
    unfold perform at stepped
    dsimp only at stepped
    split at stepped
    · obtain ⟨_, same⟩ := Option.ite_none_left_eq_some.mp stepped
      cases same
      exact sound.parts state.closing state.peerDisconnected state.target _ id id nofun
    · cases stepped
  | clientClosed failed =>
    unfold perform at stepped
    dsimp only at stepped
    split at stepped <;> cases stepped
    exact (sound.perhaps failed _).followed fun sound => sound.worker _ nofun
  | sessionClosed failed =>
    unfold perform at stepped
    dsimp only at stepped
    split at stepped <;> cases stepped
    rename_i generation wasConnected _
    refine (sound.perhaps failed generation).followed fun sound => ?_
    unfold ConnectionInbox.sessionClosed
    generalize (if failed = true then state.fail generation else state) = closed at sound
    refine (sound.worker .waiting nofun).followed fun sound => ?_
    dsimp only
    split
    · exact sound.done
    · exact .refl sound
  | returned => exact sound.returned stepped

theorem Advances.run {trace : List (ConnectionState × Event)}
    (run : Runs.Steps (Step limit) state trace next) : Advances limit state next := by
  induction run with
  | done => exact .refl sound
  | snoc _ stepped ih => exact ih.followed fun sound => sound.step _ stepped

end

theorem Kept.settles (kept : Kept limit state generation inbox) (live : Live state generation inbox)
    (opened : inbox.opened = true) (quiet : Quiet state generation) :
    inbox.messages = [] := by
  have ready : inbox.ready = true := (kept.settled opened).resolve_right quiet.2
  refine kept.idle live ready ?_
  by_contra running
  have drains := kept.drains
  rw [if_pos (Bool.not_eq_false _ ▸ running)] at drains
  exact quiet.1 (List.count_pos_iff.mp (by omega))

/-- Every connection of every run hands its messages out in order, once, completely and in time. -/
theorem every_inbox_delivers (limit : Nat) {trace : List (ConnectionState × Event)}
    (run : Runs.Steps (Step limit) {} trace state) (begun : state.inboxes.lookup generation = some inbox) :
    Delivers limit state generation inbox := by
  have sound := (Advances.run Sound.start run).sound
  have kept := sound.each generation inbox begun
  exact {
    bytes := kept.bytes
    within := kept.within
    order := kept.order
    early := kept.whole
    whole := fun current connected => kept.whole ⟨current, (sound.connected connected).1, .inl connected⟩
    quiet := fun current connected calm => by
      have live : Live state generation inbox := ⟨current, (sound.connected connected).1, .inl connected⟩
      have opened := sound.opened connected current.1 begun
      simpa [kept.settles live opened calm] using kept.whole live
    ended := fun ended trace later rest => by
      rw [((Advances.run sound rest).ended generation ended).2, begun]
      rfl }

/-- Messages that arrive before the client is there, while the interface is told of the connection and while a
message is handed out, and one that arrives when all is quiet. -/
theorem every_inbox_delivers_of_four :
    ∃ (trace : List (ConnectionState × Event)) (state : ConnectionState) (inbox : Inbox),
      trace.length = 11 ∧ inbox.delivered = [[1], [2], [3], [4]] ∧ Delivers 100 state 1 inbox := by
  let run := Runs.record (perform 100) {}
    [.openUrl true, .takeTarget true, .message 1 .binary [1], .connectReturned (some true), .message 1 .binary [2],
      .returned, .message 1 .binary [3], .returned, .returned, .returned, .message 1 .binary [4]]
  have handed : (run.any fun ran => ran.1.length == 11 &&
      (ran.2.inboxes.lookup 1).any fun inbox => inbox.delivered == [[1], [2], [3], [4]]) = true := by decide +kernel
  obtain ⟨⟨trace, state⟩, recorded, shown⟩ := (Option.any_eq_true ..).mp handed
  obtain ⟨long, there⟩ := Bool.and_eq_true_iff.mp shown
  obtain ⟨inbox, begun, delivered⟩ := (Option.any_eq_true ..).mp there
  exact ⟨trace, state, inbox, eq_of_beq long, eq_of_beq delivered,
    every_inbox_delivers 100 (Runs.Steps.of_record recorded) begun⟩

end Qcm.ConnectionInbox
