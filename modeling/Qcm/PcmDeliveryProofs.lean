import Qcm.PcmDelivery

/-!
The frames the device is given are the decoded ones, in order and none twice.
They are all accounted for: what was handed out, what is still in the queue and
the block of the tick under way make up what was decoded.  A block that a
cancelled tick gives up leaves the account short, so it holds as long as no tick
begins after that.
-/

namespace Qcm.PcmDelivery

open Lib
open Runs

variable {α T : Type}

/-- The frames in the queue. -/
def waiting (pcm : List (PcmBlock α T)) (offset : Nat) : List α := (pcm.flatMap PcmBlock.samples).drop offset

/-- The frames of the block that the tick is about to push. -/
def Tick.given : Tick α T → List α
  | .pushing _ block => block.samples
  | .idle | .draining _ | .decoding _ | .testing _ | .emptied _ | .stopped => []

/-- The offset lies inside the block at the front. -/
def Inside : List (PcmBlock α T) → Nat → Prop
  | [], offset => offset = 0
  | block :: _, offset => offset < block.samples.length

/-- The piece whose span is pushed and whose frames are not copied yet. -/
def Pull.copying (after : T → Nat → T) (output offset : Nat) : Pull α T → List (Piece α T)
  | .pushed _ produced count block => [⟨⟨output + produced, count, after block.seconds offset⟩, block, offset⟩]
  | .idle | .looping _ _ | .fronted _ _ _ => []

/-- What `next_pcm` knows where it is: the frames before its own are handed out, and its block is the one at the
front. -/
def Pull.Knows (next output offset : Nat) (pcm : List (PcmBlock α T)) : Pull α T → Prop
  | .idle => True
  | .looping _ produced => next ≤ output + produced
  | .fronted requested produced block => next ≤ output + produced ∧ produced < requested ∧ pcm.head? = some block
  | .pushed _ produced count block =>
    next ≤ output + produced ∧ pcm.head? = some block ∧ 0 < count ∧ offset + count ≤ block.samples.length

/-- What `tick` knows where it is. -/
def Tick.Knows (position : Nat) (lost : Bool) (decoded pcm : List (PcmBlock α T)) : Tick α T → Prop
  | .idle | .stopped => True
  | .draining played | .decoding played | .testing played => played ≤ position ∧ lost = false
  | .pushing played block => (played ≤ position ∧ lost = false) ∧ block ∈ decoded ∧ block.samples ≠ []
  | .emptied played => (played ≤ position ∧ lost = false) ∧ pcm = []

structure Sound (after : T → Nat → T) (d : Device α T) : Prop where
  blocks : ∀ block ∈ d.pcm, block ∈ d.decoded ∧ block.samples ≠ []
  inside : Inside d.pcm d.offset
  order : ∃ tail, d.frames = d.handed.map Prod.fst ++ (waiting d.pcm d.offset ++ (d.tick.given ++ tail)) ∧
    (d.lost = false → tail = [])
  pull : d.pull.Knows d.next d.output d.offset d.pcm
  tick : d.tick.Knows d.position d.lost d.decoded d.pcm
  apart : d.spans.Pairwise fun earlier later => earlier.stop ≤ later.outputFrame
  pieces : ∃ pieces, d.spans = (pieces ++ d.pull.copying after d.output d.offset).map Piece.span ∧
    d.handed = pieces.flatMap Piece.frames ∧ ∀ piece ∈ pieces, piece.Right after d ∧ piece.span.stop ≤ d.next
  consumed : ∃ consumed, d.spans = consumed ++ d.clock ∧ ∀ span ∈ consumed, span.stop ≤ d.position
  ended : d.ended = true → d.tick = .stopped ∧ d.pcm = [] ∧ d.lost = false ∧ ∀ span ∈ d.spans, span.stop ≤ d.position

variable {after : T → Nat → T} {d e : Device α T} {requested produced count played : Nat} {block : PcmBlock α T}

theorem Sound.initial (after : T → Nat → T) : Sound after ({} : Device α T) where
  blocks := by simp
  inside := rfl
  order := ⟨[], rfl, fun _ => rfl⟩
  pull := trivial
  tick := trivial
  apart := .nil
  pieces := ⟨[], rfl, rfl, by simp⟩
  consumed := ⟨[], rfl, by simp⟩
  ended := nofun

theorem Sound.going (sound : Sound after d) (busy : d.tick ≠ .stopped) : d.ended = false :=
  Bool.eq_false_iff.mpr fun ended => busy (sound.ended ended).1

theorem Sound.filled (sound : Sound after d) (front : d.pcm.head? = some block) : d.ended = false := by
  refine Bool.eq_false_iff.mpr fun ended => ?_
  rw [(sound.ended ended).2.1] at front
  cases front

/-! ## The device pulls -/

theorem Sound.turn (sound : Sound after d) {pull : Pull α T} (still : d.pull.copying after d.output d.offset = [])
    (calm : pull.copying after d.output d.offset = []) (knows : pull.Knows d.next d.output d.offset d.pcm) :
    Sound after { d with pull := pull } where
  blocks := sound.blocks
  inside := sound.inside
  order := sound.order
  pull := knows
  tick := sound.tick
  apart := sound.apart
  pieces := by
    obtain ⟨pieces, spans, handed, right⟩ := sound.pieces
    exact ⟨pieces, spans.trans (congrArg (fun copying => (pieces ++ copying).map Piece.span) (still.trans calm.symm)),
      handed, right⟩
  consumed := sound.consumed
  ended := sound.ended

theorem Sound.front (sound : Sound after d) (here : d.pull = .looping requested produced) :
    Sound after (d.front requested produced) := by
  have still : d.pull.copying after d.output d.offset = [] := by rw [here]; rfl
  have knows := sound.pull
  rw [here] at knows
  unfold Device.front
  split
  · rename_i more
    split
    · rename_i block rest queue
      exact sound.turn still rfl ⟨knows, more, by rw [queue]; rfl⟩
    · exact sound.turn still rfl trivial
  · exact sound.turn still rfl trivial

/-- All spans end where the frames handed out end, while none is on the way. -/
theorem Sound.spans_stop (sound : Sound after d) (still : d.pull.copying after d.output d.offset = [])
    {span : ClockSpan T} (pushed : span ∈ d.spans) : span.stop ≤ d.next := by
  obtain ⟨pieces, spans, -, right⟩ := sound.pieces
  rw [spans, still, List.append_nil] at pushed
  obtain ⟨piece, member, rfl⟩ := List.mem_map.mp pushed
  exact (right piece member).2

theorem Sound.inside_front (sound : Sound after d) (front : d.pcm.head? = some block) :
    d.offset < block.samples.length := by
  have inside := sound.inside
  obtain ⟨rest, queue⟩ := List.head?_eq_some_iff.mp front
  rw [queue] at inside
  exact inside

theorem Sound.pushClock (sound : Sound after d) (here : d.pull = .fronted requested produced block) :
    Sound after (d.pushClock after requested produced block) := by
  have still : d.pull.copying after d.output d.offset = [] := by rw [here]; rfl
  have knows := sound.pull
  rw [here] at knows
  obtain ⟨past, more, front⟩ := knows
  have inside := sound.inside_front front
  unfold Device.pushClock
  split
  · refine { sound with pull := ⟨past, front, ?_, ?_⟩, apart := ?_, pieces := ?_, consumed := ?_, ended := ?_ }
    · exact Nat.lt_min.mpr ⟨Nat.sub_pos_of_lt inside, Nat.sub_pos_of_lt more⟩
    · have least := Nat.min_le_left (block.samples.length - d.offset) (requested - produced)
      show d.offset + min (block.samples.length - d.offset) (requested - produced) ≤ block.samples.length
      omega
    · refine List.pairwise_append.mpr ⟨sound.apart, List.pairwise_singleton .., fun earlier there later last => ?_⟩
      cases List.mem_singleton.mp last
      exact Nat.le_trans (sound.spans_stop still there) past
    · obtain ⟨pieces, spans, handed, right⟩ := sound.pieces
      rw [still, List.append_nil] at spans
      exact ⟨pieces, by simp [spans, Pull.copying], handed, right⟩
    · obtain ⟨consumed, spans, passed⟩ := sound.consumed
      exact ⟨consumed, by simp [spans], passed⟩
    · intro ended
      exact absurd ended (by simp [sound.filled front])
  · exact sound.turn still rfl trivial

private theorem waiting_take (pcm : List (PcmBlock α T)) (offset count : Nat)
    (fits : offset + count ≤ block.samples.length) :
    waiting (block :: pcm) offset =
      (block.samples.drop offset).take count ++ waiting (block :: pcm) (offset + count) := by
  unfold waiting
  rw [List.flatMap_cons, List.drop_append_of_le_length (by omega), List.drop_append_of_le_length fits, ← List.append_assoc,
    ← List.drop_drop, List.take_append_drop]

private theorem waiting_consume (pcm : List (PcmBlock α T)) :
    waiting (block :: pcm) block.samples.length = waiting pcm 0 := by
  simp [waiting]

private theorem waiting_push (pcm : List (PcmBlock α T)) {offset : Nat} (inside : Inside pcm offset) :
    waiting (pcm ++ [block]) offset = waiting pcm offset ++ block.samples := by
  have short : offset ≤ (pcm.flatMap PcmBlock.samples).length := by
    cases pcm with
    | nil => exact Nat.le_of_eq inside
    | cons front rest =>
      have : offset < front.samples.length := inside
      simp only [List.flatMap_cons, List.length_append]
      omega
  simp [waiting, List.drop_append_of_le_length short]

theorem Sound.copy (sound : Sound after d) (here : d.pull = .pushed requested produced count block) :
    Sound after (d.copy requested produced count block) := by
  have knows := sound.pull
  rw [here] at knows
  obtain ⟨past, front, some, fits⟩ := knows
  obtain ⟨rest, queue⟩ := List.head?_eq_some_iff.mp front
  obtain ⟨decoded, full⟩ := sound.blocks block (by simp [queue])
  obtain ⟨tail, order, whole⟩ := sound.order
  obtain ⟨pieces, spans, handed, right⟩ := sound.pieces
  rw [here] at spans
  -- the account and the pieces, whatever is left of the block
  have moved : ∀ (pcm : List (PcmBlock α T)) (offset : Nat), waiting d.pcm (d.offset + count) = waiting pcm offset →
      (∀ block ∈ pcm, block ∈ d.pcm) → Inside pcm offset →
      Sound after { d with
        handed := d.handed ++ ((block.samples.drop d.offset).take count).zipIdx (d.output + produced)
        next := d.output + produced + count
        pull := .looping requested (produced + count)
        offset := offset, pcm := pcm } := by
    intro pcm offset left fewer inside
    refine ⟨fun other member => sound.blocks other (fewer other member), inside, ⟨tail, ?_, whole⟩, ?_, ?_, sound.apart,
      ⟨pieces ++ [⟨⟨d.output + produced, count, after block.seconds d.offset⟩, block, d.offset⟩], ?_, ?_, ?_⟩,
      sound.consumed, ?_⟩
    · rw [queue] at left
      rw [queue, waiting_take rest d.offset count fits, left] at order
      simpa [List.zipIdx_map_fst, Device.frames] using order
    · exact Nat.le_of_eq (Nat.add_assoc ..)
    · have tick := sound.tick
      cases state : d.tick with
      | emptied played =>
        rw [state] at tick
        rw [tick.2] at queue
        cases queue
      | idle | draining _ | decoding _ | pushing _ _ | testing _ | stopped => rwa [state] at tick
    · simpa [Pull.copying] using spans
    · simp [handed, Piece.frames]
    · intro piece member
      obtain earlier | rfl := mem_snoc member
      · obtain ⟨lies, stops⟩ := right piece earlier
        refine ⟨lies, Nat.le_trans stops ?_⟩
        show d.next ≤ d.output + produced + count
        omega
      · exact ⟨⟨decoded, some, fits, rfl⟩, Nat.le_refl _⟩
    · intro ended
      exact absurd ended (by simp [sound.filled front])
  unfold Device.copy
  split
  · rename_i used
    refine moved d.pcm.tail 0 ?_ (fun other member => List.mem_of_mem_tail member) ?_
    · rw [queue, used]
      exact waiting_consume rest
    · rw [queue]
      cases rest with
      | nil => rfl
      | cons next _ => exact List.length_pos_iff.mpr (sound.blocks next (by simp [queue])).2
  · rename_i unused
    refine moved d.pcm (d.offset + count) rfl (fun _ => id) ?_
    rw [queue]
    exact Nat.lt_of_le_of_ne fits unused

/-! ## The worker ticks -/

theorem Sound.pass (sound : Sound after d) (tick : Tick α T) (busy : d.tick ≠ .stopped) (same : tick.given = d.tick.given)
    (knows : tick.Knows d.position d.lost d.decoded d.pcm) : Sound after { d with tick := tick } :=
  { sound with
    order := by
      obtain ⟨tail, order, whole⟩ := sound.order
      exact ⟨tail, by rw [same]; exact order, whole⟩
    tick := knows
    ended := fun ended => absurd (show d.ended = true from ended) (by simp [sound.going busy]) }

theorem Sound.drain (sound : Sound after d) (here : d.tick = .draining played) : Sound after (d.drain played) := by
  have busy : d.tick ≠ .stopped := by simp [here]
  have knows := sound.tick
  rw [here] at knows
  have passed := sound.pass (.decoding played) busy (by rw [here]; rfl) knows
  unfold Device.drain
  split
  · exact passed
  · rename_i span rest spans
    split
    · exact { passed with }
    · rename_i reached
      split
      · exact { passed with }
      · rename_i out
        refine { sound with consumed := ?_ }
        obtain ⟨consumed, whole, output⟩ := sound.consumed
        refine ⟨consumed ++ [span], by simp [whole, spans], fun earlier member => ?_⟩
        obtain before | last := List.mem_append.mp member
        · exact output earlier before
        · cases List.mem_singleton.mp last
          have known := knows.1
          show span.outputFrame + span.frames ≤ d.position
          omega

theorem Sound.decode (sound : Sound after d) (here : d.tick = .decoding played) (eof : Bool) :
    Sound after (d.decode played block eof) := by
  have busy : d.tick ≠ .stopped := by simp [here]
  have knows := sound.tick
  rw [here] at knows
  have passed := sound.pass (.testing played) busy (by rw [here]; rfl) knows
  unfold Device.decode
  split
  · split
    · exact { passed with }
    · rename_i full
      obtain ⟨tail, order, whole⟩ := sound.order
      cases whole knows.2
      obtain ⟨pieces, spans, handed, right⟩ := sound.pieces
      refine { sound with blocks := ?_, order := ⟨[], ?_, fun _ => rfl⟩, tick := ⟨knows, by simp, full⟩,
                          pieces := ⟨pieces, spans, handed, ?_⟩, ended := ?_ }
      · intro other member
        obtain ⟨decoded, some⟩ := sound.blocks other member
        exact ⟨List.mem_append_left _ decoded, some⟩
      · rw [here] at order
        simp only [Device.frames, Tick.given, List.append_nil] at order
        simp [Device.frames, Tick.given, order]
      · intro piece member
        obtain ⟨⟨decoded, lies⟩, stops⟩ := right piece member
        exact ⟨⟨List.mem_append_left _ decoded, lies⟩, stops⟩
      · exact fun ended => absurd (show d.ended = true from ended) (by simp [sound.going busy])
  · exact passed

theorem Sound.push (sound : Sound after d) (here : d.tick = .pushing played block) :
    Sound after { d with pcm := d.pcm ++ [block], tick := .testing played } := by
  have busy : d.tick ≠ .stopped := by simp [here]
  have knows := sound.tick
  rw [here] at knows
  obtain ⟨calm, decoded, full⟩ := knows
  obtain ⟨tail, order, whole⟩ := sound.order
  refine { sound with blocks := ?_, inside := ?_, order := ⟨tail, ?_, whole⟩, pull := ?_, tick := calm, ended := ?_ }
  · intro other member
    obtain before | rfl := mem_snoc member
    · exact sound.blocks other before
    · exact ⟨decoded, full⟩
  · have inside := sound.inside
    cases queue : d.pcm with
    | nil =>
      rw [queue] at inside
      exact (show d.offset = 0 from inside) ▸ List.length_pos_iff.mpr full
    | cons front rest => rwa [queue] at inside
  · rw [here] at order
    simpa [Device.frames, Tick.given, waiting_push d.pcm sound.inside] using order
  · have pull := sound.pull
    have longer : ∀ other, d.pcm.head? = some other → (d.pcm ++ [block]).head? = some other := by
      intro other front
      obtain ⟨rest, queue⟩ := List.head?_eq_some_iff.mp front
      simp [queue]
    cases state : d.pull with
    | idle => trivial
    | looping _ _ => rwa [state] at pull
    | fronted _ _ _ =>
      rw [state] at pull
      exact ⟨pull.1, pull.2.1, longer _ pull.2.2⟩
    | pushed _ _ _ _ =>
      rw [state] at pull
      exact ⟨pull.1, longer _ pull.2.1, pull.2.2⟩
  · exact fun ended => absurd (show d.ended = true from ended) (by simp [sound.going busy])

theorem Sound.giveUp (sound : Sound after d) (here : d.tick = .pushing played block) {tick : Tick α T}
    (leaves : tick = .idle ∨ tick = .stopped) : Sound after { d with lost := true, tick := tick } := by
  have busy : d.tick ≠ .stopped := by simp [here]
  obtain ⟨tail, order, -⟩ := sound.order
  refine { sound with order := ⟨d.tick.given ++ tail, ?_, nofun⟩, tick := ?_, ended := ?_ }
  · obtain rfl | rfl := leaves <;> exact order
  · obtain rfl | rfl := leaves <;> trivial
  · exact fun ended => absurd (show d.ended = true from ended) (by simp [sound.going busy])

theorem Sound.end (sound : Sound after d) (here : d.tick = .emptied played) (empty : d.clock = []) :
    Sound after { d with ended := true, tick := .stopped } := by
  have knows := sound.tick
  rw [here] at knows
  obtain ⟨tail, order, whole⟩ := sound.order
  refine { sound with order := ⟨tail, ?_, whole⟩, tick := trivial, ended := fun _ => ⟨rfl, knows.2, knows.1.2, ?_⟩ }
  · rw [here] at order
    exact order
  · obtain ⟨consumed, spans, passed⟩ := sound.consumed
    rw [empty, List.append_nil] at spans
    rw [spans]
    exact passed

theorem Sound.advance (sound : Sound after d) (frames : Nat) :
    Sound after { d with position := d.position + frames } := by
  refine { sound with tick := ?_, consumed := ?_, ended := ?_ }
  · have tick := sound.tick
    have later : ∀ played, played ≤ d.position → played ≤ d.position + frames := fun played reached =>
      Nat.le_trans reached (Nat.le_add_right ..)
    cases state : d.tick with
    | idle | stopped => trivial
    | draining _ | decoding _ | testing _ =>
      rw [state] at tick
      exact ⟨later _ tick.1, tick.2⟩
    | pushing _ _ | emptied _ =>
      rw [state] at tick
      exact ⟨⟨later _ tick.1.1, tick.1.2⟩, tick.2⟩
  · obtain ⟨consumed, spans, passed⟩ := sound.consumed
    exact ⟨consumed, spans, fun span member => Nat.le_trans (passed span member) (Nat.le_add_right ..)⟩
  · intro ended
    obtain ⟨stopped, empty, kept, passed⟩ := sound.ended ended
    exact ⟨stopped, empty, kept, fun span member => Nat.le_trans (passed span member) (Nat.le_add_right ..)⟩

theorem Sound.step (sound : Sound after d) {event : Event α T} (guarded : Continues d event)
    (stepped : Step after d event e) : Sound after e := by
  cases event <;> simp only [Step, perform] at stepped
  case passDesc valid =>
    split at stepped <;> cases stepped
    exact { sound with }
  case pull outputOffset requested =>
    split at stepped
    · rename_i here
      have still : d.pull.copying after d.output d.offset = [] := by rw [here]; rfl
      obtain ⟨pieces, spans, handed, right⟩ := sound.pieces
      rw [still] at spans
      split at stepped <;> cases stepped
      rename_i past
      cases valid : d.valid with
      | false => exact { sound with pull := trivial, pieces := ⟨pieces, spans, handed, right⟩ }
      | true => exact { sound with pull := past, pieces := ⟨pieces, spans, handed, right⟩ }
    · cases stepped
  case front =>
    split at stepped <;> cases stepped
    exact sound.front ‹_›
  case pushClock =>
    split at stepped <;> cases stepped
    exact sound.pushClock ‹_›
  case copy =>
    split at stepped <;> cases stepped
    exact sound.copy ‹_›
  case advance frames =>
    cases stepped
    exact sound.advance frames
  case start =>
    split at stepped <;> cases stepped
    rename_i here
    exact sound.pass _ (by simp [here]) (by rw [here]; rfl) ⟨Nat.le_refl _, guarded⟩
  case drain =>
    split at stepped <;> cases stepped
    exact sound.drain ‹_›
  case decode block eof =>
    split at stepped <;> cases stepped
    exact sound.decode ‹_› eof
  case push =>
    split at stepped
    · rename_i here
      split at stepped <;> cases stepped
      · exact sound.push here
      · exact sound.giveUp here (.inr rfl)
    · cases stepped
  case cancelled =>
    split at stepped <;> cases stepped
    exact sound.giveUp ‹_› (.inl rfl)
  case broken =>
    split at stepped <;> cases stepped
    · rename_i here
      exact sound.pass _ (by simp [here]) (by rw [here]; rfl) trivial
    · exact sound.giveUp ‹_› (.inr rfl)
  case testPcm =>
    split at stepped
    · rename_i here
      have knows := sound.tick
      rw [here] at knows
      split at stepped <;> cases stepped
      · rename_i dry
        exact sound.pass _ (by simp [here]) (by rw [here]; rfl) ⟨knows, List.isEmpty_iff.mp dry.2⟩
      · exact sound.pass _ (by simp [here]) (by rw [here]; rfl) trivial
    · cases stepped
  case testClock playing =>
    split at stepped
    · rename_i here
      split at stepped <;> cases stepped
      · rename_i out
        exact sound.end here (List.isEmpty_iff.mp out.1)
      · exact sound.pass _ (by simp [here]) (by rw [here]; rfl) trivial
    · cases stepped

theorem Sound.delivers (sound : Sound after d) : Delivers after d := by
  obtain ⟨tail, order, whole⟩ := sound.order
  obtain ⟨pieces, spans, handed, right⟩ := sound.pieces
  refine ⟨⟨_, order.symm⟩, ⟨sound.apart, pieces, _, spans, handed, fun piece member => ?_, ?_⟩, fun ended => ?_⟩
  · obtain earlier | last := List.mem_append.mp member
    · exact (right piece earlier).1
    · have knows := sound.pull
      cases state : d.pull with
      | pushed requested produced count block =>
        rw [state] at knows last
        cases List.mem_singleton.mp last
        obtain ⟨-, front, some, fits⟩ := knows
        exact ⟨(sound.blocks block (List.mem_of_mem_head? front)).1, some, fits, rfl⟩
      | idle | looping _ _ | fronted _ _ _ =>
        rw [state] at last
        cases last
  · cases state : d.pull <;> rfl
  · obtain ⟨stopped, empty, kept, passed⟩ := sound.ended ended
    cases whole kept
    refine ⟨?_, fun frame member => ?_⟩
    · rw [order, stopped, empty]
      simp [waiting, Tick.given]
    · rw [handed] at member
      obtain ⟨piece, there, inside⟩ := List.mem_flatMap.mp member
      have before : piece.span.stop ≤ d.position := passed piece.span (by rw [spans]; simp; exact .inl ⟨piece, there, rfl⟩)
      have bound := List.snd_lt_add_of_mem_zipIdx inside
      rw [List.length_take] at bound
      unfold ClockSpan.stop at before
      omega

/-- In every run in which no tick begins after one has given up a block it had decoded, the device gets the decoded
frames in order. -/
theorem decoded_frames_are_delivered (reached : Reach (fun d : Device α T => d = {}) Continues (Step after) d) :
    Delivers after d := by
  have sound : Sound after d := reached.invariant (fun _ initial => initial ▸ Sound.initial after)
    fun _ _ _ sound guarded stepped => sound.step guarded stepped
  exact sound.delivers

/-- The time `count` frames after another one, as an index into the media. -/
def timeAfter (seconds count : Nat) : Nat := seconds + count

/-- Two blocks of three frames go out by two pulls of four frames, and the end is sent. -/
def twoBlocks : List (Event Nat Nat) :=
  [.passDesc true, .start, .drain, .decode ⟨[10, 11, 12], 0⟩ false, .push, .testPcm,
    .start, .drain, .decode ⟨[13, 14, 15], 3⟩ true, .push,
    .pull 0 4, .front, .pushClock, .copy, .front, .pushClock, .testPcm, .copy, .front, .advance 2,
    .pull 4 4, .front, .pushClock, .copy, .front, .advance 4,
    .start, .drain, .drain, .drain, .drain, .decode ⟨[], 0⟩ true, .testPcm, .testClock true]

theorem decoded_frames_are_delivered_of_two : ∃ d : Device Nat Nat,
    d.ended = true ∧ d.handed.map Prod.fst = [10, 11, 12, 13, 14, 15] ∧ Delivers timeAfter d := by
  have ran : (play Continues (perform timeAfter) {} twoBlocks).any
      (fun d => d.ended && d.handed.map Prod.fst == [10, 11, 12, 13, 14, 15]) = true := by decide +kernel
  obtain ⟨d, played, shown⟩ := (Option.any_eq_true ..).mp ran
  rw [Bool.and_eq_true, beq_iff_eq] at shown
  have reached : Reach (fun d : Device Nat Nat => d = {}) Continues (Step timeAfter) d :=
    Reach.play twoBlocks (.start rfl) played
  exact ⟨d, shown.1, shown.2, decoded_frames_are_delivered reached⟩

/-- A tick is cancelled after it has decoded its block, by a seek that does nothing as the media is not seekable; the
next tick goes on with the next block. -/
def cancelledTick : List (Event Nat Nat) :=
  [.passDesc true, .start, .drain, .decode ⟨[10, 11], 0⟩ false, .cancelled,
    .start, .drain, .decode ⟨[12, 13], 2⟩ true, .push, .testPcm, .pull 0 2, .front, .pushClock, .copy]

theorem cancelled_tick_skips_its_block : ∃ d : Device Nat Nat,
    Reach (fun d : Device Nat Nat => d = {}) (fun _ _ => True) (Step timeAfter) d ∧ d.frames = [10, 11, 12, 13] ∧
      d.handed = [(12, 0), (13, 1)] ∧ ¬ Delivers timeAfter d := by
  have ran : (play (fun _ _ => True) (perform timeAfter) {} cancelledTick).any
      (fun d => d.frames == [10, 11, 12, 13] && d.handed == [(12, 0), (13, 1)]) = true := by decide +kernel
  obtain ⟨d, played, shown⟩ := (Option.any_eq_true ..).mp ran
  rw [Bool.and_eq_true, beq_iff_eq, beq_iff_eq] at shown
  have reached : Reach (fun d : Device Nat Nat => d = {}) (fun _ _ => True) (Step timeAfter) d :=
    Reach.play cancelledTick (.start rfl) played
  refine ⟨d, reached, shown.1, shown.2, fun delivers => ?_⟩
  have first := delivers.inOrder
  rw [shown.1, shown.2] at first
  revert first
  decide

end Qcm.PcmDelivery
