import Qcm.CommentReactions

/-!
Which of the answers a comment shows.  An action puts the barrier above every
read that was issued before it, so none of those changes its outcome; reads are
not kept apart from each other, and the one that is answered last is shown.
-/

namespace Qcm.CommentReactions

open Lib CommentStore

variable {store next : CommentStore} {id : String} {revision : Nat} {view : CommentView}

section Merge

variable {P : CommentStore → Prop} {allowed : List String}

mutual

theorem mergeComment_keeps (each : ∀ store id liked likeCount deleted, id ∈ allowed → P store →
      P (store.mergeValue id liked likeCount deleted revision)) (value : Comment) (store : CommentStore)
    (inside : ∀ id ∈ value.names, id ∈ allowed) (holds : P store) : P (mergeComment store revision value) := by
  cases value with
  | comment id liked likeCount deleted previews =>
    unfold mergeComment
    split
    · exact holds
    · rename_i named
      rw [Comment.names, if_neg named] at inside
      refine merge_keeps each previews _ (fun other member => inside other (.tail _ member)) ?_
      exact each store id liked likeCount deleted (inside id (.head _)) holds

theorem merge_keeps (each : ∀ store id liked likeCount deleted, id ∈ allowed → P store →
      P (store.mergeValue id liked likeCount deleted revision)) (page : List Comment) (store : CommentStore)
    (inside : ∀ id ∈ namesOf page, id ∈ allowed) (holds : P store) : P (merge store revision page) := by
  cases page with
  | nil => exact holds
  | cons value rest =>
    unfold merge
    rw [namesOf] at inside
    refine merge_keeps each rest _ (fun id member => inside id (List.mem_append_right _ member)) ?_
    exact mergeComment_keeps each value store (fun id member => inside id (List.mem_append_left _ member)) holds

end

end Merge

variable {liked : Option Bool} {likeCount total : Option UInt64} {deleted : Bool} {reaction : Reaction}
  {read : Read}

variable {other scope : String} {value : Option Bool} {item : Int} {canLike : Bool} {event : Event}
variable {allowed : List String} {entry : CommentView}

theorem lookup_mergeValue :
    (store.mergeValue id liked likeCount deleted revision).entries.lookup other =
      if other = id then
        some (CommentView.applyReaction
          { liked := liked, likeCount := likeCount, deleted := deleted,
            reaction := (store.view id).reaction.read liked likeCount revision })
      else store.entries.lookup other := Hash.lookup_insert ..

theorem read_of_takes (takes : Takes reaction revision) :
    reaction.read value total revision = { reaction with liked := value, count := total, uncertain := false } := by
  unfold Reaction.read
  rw [if_neg]
  rintro (pending | early)
  · rw [takes.1] at pending
    cases pending
  · exact absurd takes.2 (Nat.not_le.mpr early)

theorem read_of_refuses (refuses : ¬ Takes reaction revision) : reaction.read value total revision = reaction := by
  unfold Reaction.read
  rw [if_pos]
  by_contra neither
  rw [not_or] at neither
  exact refuses ⟨by simpa using neither.1, Nat.not_lt.mp neither.2⟩

theorem read_barrier (reaction : Reaction) (value : Option Bool) (total : Option UInt64) (revision : Nat) :
    (reaction.read value total revision).barrier = reaction.barrier ∧
      (reaction.read value total revision).pending = reaction.pending := by
  unfold Reaction.read
  split <;> exact ⟨rfl, rfl⟩

/-- A read changes neither what is pending nor the barrier, so it takes what it took before. -/
theorem takes_read (reaction : Reaction) (value : Option Bool) (total : Option UInt64) {other : Nat} :
    Takes (reaction.read value total revision) other ↔ Takes reaction other := by
  obtain ⟨barrier, pending⟩ := read_barrier reaction value total revision
  rw [Takes, Takes, barrier, pending]

/-! ## What every store keeps -/

/-- The views show their reactions; the barriers, the reads and what was applied are not ahead of the clock; and
the barrier of a comment is above the reads that were on their way when a like on it began or finished. -/
structure Sound (store : CommentStore) : Prop where
  shows : ∀ id view, store.entries.lookup id = some view →
    view.liked = view.reaction.liked ∧ view.likeCount = view.reaction.count
  barrier : ∀ id view, store.entries.lookup id = some view → view.reaction.barrier ≤ store.clock
  reads : ∀ read ∈ store.reads, read.revision ≤ store.clock ∧ read.generation ≤ store.generation
  acted : ∀ read ∈ store.reads, read.generation = store.generation → ∀ id ∈ read.acted,
    ∃ view, store.entries.lookup id = some view ∧ read.revision < view.reaction.barrier
  applied : ∀ outcome ∈ store.applied, outcome.revision ≤ store.clock

theorem Sound.empty : Sound {} where
  shows _ _ present := nomatch present
  barrier _ _ present := nomatch present
  reads _ member := nomatch member
  acted _ member := nomatch member
  applied _ member := nomatch member

theorem Sound.clear (sound : Sound store) : Sound store.clear where
  shows _ _ present := nomatch present
  barrier _ _ present := nomatch present
  reads read member := ⟨(sound.reads read member).1, Nat.le_succ_of_le (sound.reads read member).2⟩
  acted read member same := by
    have older := (sound.reads read member).2
    change read.generation = store.generation + 1 at same
    omega
  applied _ member := nomatch member

theorem Sound.bind (sound : Sound store) : Sound (store.bind item scope canLike) := by
  have context : ∀ {store : CommentStore}, Sound store →
      Sound { store with item := item, scope := scope, canLike := canLike } := fun sound =>
    { sound with }
  unfold CommentStore.bind
  dsimp only
  split
  · exact context sound.clear
  · exact context sound

theorem Sound.load (sound : Sound store) : Sound store.load where
  shows := sound.shows
  barrier id view present := Nat.le_succ_of_le (sound.barrier id view present)
  reads read member := by
    rcases List.mem_cons.mp member with rfl | old
    · exact ⟨le_rfl, le_rfl⟩
    · exact ⟨Nat.le_succ_of_le (sound.reads read old).1, (sound.reads read old).2⟩
  acted read member same id inside := by
    rcases List.mem_cons.mp member with rfl | old
    · cases inside
    · exact sound.acted read old same id inside
  applied outcome member := Nat.le_succ_of_le (sound.applied outcome member)

theorem Sound.erase (sound : Sound store) : Sound { store with reads := store.reads.erase read } where
  shows := sound.shows
  barrier := sound.barrier
  reads other member := sound.reads other (List.mem_of_mem_erase member)
  acted other member := sound.acted other (List.mem_of_mem_erase member)
  applied := sound.applied

theorem Sound.mergeValue (sound : Sound store) (issued : revision ≤ store.clock) :
    Sound (store.mergeValue id liked likeCount deleted revision) where
  shows other view present := by
    rw [lookup_mergeValue] at present
    split at present
    · cases present
      exact ⟨rfl, rfl⟩
    · exact sound.shows other view present
  barrier other view present := by
    rw [lookup_mergeValue] at present
    split at present
    · cases present
      change ((store.view id).reaction.read liked likeCount revision).barrier ≤ store.clock
      rw [(read_barrier ..).1, CommentStore.view]
      cases stored : store.entries.lookup id with
      | none => exact Nat.zero_le _
      | some entry => exact sound.barrier id entry stored
    · exact sound.barrier other view present
  reads := sound.reads
  acted read member same other inside := by
    obtain ⟨view, stored, below⟩ := sound.acted read member same other inside
    rw [lookup_mergeValue]
    split
    · rename_i equal
      refine ⟨_, rfl, ?_⟩
      change read.revision < ((store.view id).reaction.read liked likeCount revision).barrier
      rw [(read_barrier ..).1, CommentStore.view, ← equal, stored]
      exact below
    · exact ⟨view, stored, below⟩
  applied outcome member := by
    change outcome ∈ (if Takes (store.view id).reaction revision then _ else store.applied) at member
    split at member
    · rcases List.mem_cons.mp member with rfl | old
      · exact issued
      · exact sound.applied outcome old
    · exact sound.applied outcome member

theorem Sound.merge (sound : Sound store) (issued : revision ≤ store.clock) {page : List Comment} :
    Sound (merge store revision page) := by
  refine (merge_keeps (P := fun s => Sound s ∧ revision ≤ s.clock) (fun s id liked likeCount deleted _ holds => ?_) page
    store (fun id (member : id ∈ namesOf page) => member) ⟨sound, issued⟩).1
  exact ⟨holds.1.mergeValue holds.2, holds.2⟩

theorem Sound.act (sound : Sound store) {applied : List Outcome} (shows : view.liked = view.reaction.liked ∧
      view.likeCount = view.reaction.count) (barrier : view.reaction.barrier = store.clock + 1)
    (listed : ∀ outcome ∈ applied, outcome.revision ≤ store.clock + 1) :
    Sound { store.act id with
      clock := store.clock + 1, entries := store.entries.insert id view, applied := applied } where
  shows other entry present := by
    obtain ⟨rfl, rfl⟩ | ⟨-, present⟩ := Hash.lookup_insert_some present
    · exact shows
    · exact sound.shows other entry present
  barrier other entry present := by
    obtain ⟨rfl, rfl⟩ | ⟨-, present⟩ := Hash.lookup_insert_some present
    · exact Nat.le_of_eq barrier
    · exact Nat.le_succ_of_le (sound.barrier other entry present)
  reads read member := by
    obtain ⟨old, listed, rfl⟩ := List.mem_map.mp member
    exact ⟨Nat.le_succ_of_le (sound.reads old listed).1, (sound.reads old listed).2⟩
  acted read member same other inside := by
    obtain ⟨old, listed, rfl⟩ := List.mem_map.mp member
    rw [Hash.lookup_insert]
    split
    · refine ⟨view, rfl, ?_⟩
      rw [barrier]
      exact Nat.lt_succ_of_le (sound.reads old listed).1
    · rename_i apart
      rcases List.mem_cons.mp inside with equal | earlier
      · exact absurd equal apart
      · exact sound.acted old listed same other earlier
  applied := listed

theorem Sound.tick (sound : Sound store) : Sound { store with clock := store.clock + 1 } where
  shows := sound.shows
  barrier id view present := Nat.le_succ_of_le (sound.barrier id view present)
  reads read member := ⟨Nat.le_succ_of_le (sound.reads read member).1, (sound.reads read member).2⟩
  acted := sound.acted
  applied outcome member := Nat.le_succ_of_le (sound.applied outcome member)

theorem Sound.show (sound : Sound store) (stored : store.entries.lookup id = some view) :
    Sound { store with entries := store.entries.insert id view.applyReaction } where
  shows other entry present := by
    obtain ⟨rfl, rfl⟩ | ⟨-, present⟩ := Hash.lookup_insert_some present
    · exact ⟨rfl, rfl⟩
    · exact sound.shows other entry present
  barrier other entry present := by
    obtain ⟨rfl, rfl⟩ | ⟨-, present⟩ := Hash.lookup_insert_some present
    · exact sound.barrier id view stored
    · exact sound.barrier other entry present
  reads := sound.reads
  acted read member same other inside := by
    obtain ⟨entry, present, below⟩ := sound.acted read member same other inside
    rw [Hash.lookup_insert]
    split
    · rename_i equal
      rw [equal, stored] at present
      cases present
      exact ⟨_, rfl, below⟩
    · exact ⟨entry, present, below⟩
  applied := sound.applied

theorem start_eq (started : (reaction.start revision).2 = true) :
    (reaction.start revision).1 = { reaction with pending := true, barrier := revision } := by
  unfold Reaction.start at started ⊢
  split at started
  · cases started
  · rename_i free
    rw [if_neg free]

theorem Sound.setLiked (sound : Sound store) (value : Bool) : Sound (store.setLiked id value) := by
  unfold CommentStore.setLiked
  split
  · rename_i entry stored
    split
    · exact sound
    · dsimp only
      split
      · rename_i started
        rw [start_eq started]
        exact sound.act (sound.shows id entry stored) rfl fun outcome member =>
          Nat.le_succ_of_le (sound.applied outcome member)
      · exact sound.tick
  · exact sound

theorem complete_pending {value : Bool} (pending : reaction.pending = true) :
    (reaction.complete value total revision).barrier = revision := by
  unfold Reaction.complete
  rw [if_pos pending]

theorem complete_settled {value : Bool} (settled : ¬ reaction.pending = true) :
    reaction.complete value total revision = reaction := by
  unfold Reaction.complete
  rw [if_neg settled]

theorem Sound.answered (sound : Sound store) (generation : Nat) (answer : Answer) :
    Sound (store.answered id generation answer) := by
  unfold CommentStore.answered
  split
  · split
    · rename_i entry stored
      dsimp only
      cases answer with
      | failure =>
        exact sound.act (sound.shows id entry stored) rfl fun outcome member =>
          Nat.le_succ_of_le (sound.applied outcome member)
      | result liked likeCount =>
        dsimp only
        split
        · rename_i pending
          refine sound.act ⟨rfl, rfl⟩ (complete_pending pending) fun outcome member => ?_
          rcases List.mem_cons.mp member with rfl | old
          · exact le_rfl
          · exact Nat.le_succ_of_le (sound.applied outcome old)
        · rename_i settled
          rw [complete_settled settled]
          exact sound.tick.show stored
    · exact sound
  · exact sound

theorem Sound.accept (sound : Sound store) (issued : read ∈ store.reads)
    {page : List Comment} : Sound (store.accept read item scope canLike page) := by
  unfold CommentStore.accept
  dsimp only
  split
  · refine sound.erase.bind.merge ?_
    have before := (sound.reads read issued).1
    unfold CommentStore.bind
    dsimp only
    split <;> exact before
  · exact sound.erase

theorem Sound.step (sound : Sound store) (stepped : Step store event next) : Sound next := by
  cases event with
  | load =>
    cases stepped
    exact sound.load
  | accept read item scope canLike page =>
    obtain ⟨issued, rfl⟩ := stepped
    exact sound.accept issued
  | abandon read =>
    obtain ⟨-, rfl⟩ := stepped
    exact sound.erase
  | setLiked id value =>
    cases stepped
    exact sound.setLiked value
  | answered id generation answer =>
    cases stepped
    exact sound.answered generation answer
  | clear =>
    cases stepped
    exact sound.clear
  | close =>
    cases stepped
    have closed : Sound { store with closed := true } :=
      { sound with }
    exact closed.clear

/-! ## What a comment shows -/

/-- The view shows the outcome with the highest number of those that were applied to it. -/
def Latest (store : CommentStore) (id : String) (view : CommentView) : Prop :=
  ∃ outcome ∈ store.applied, outcome.id = id ∧ view.liked = outcome.liked ∧ view.likeCount = outcome.count ∧
    ∀ other ∈ store.applied, other.id = id → other.revision ≤ outcome.revision

/-- Each view does. -/
def Shown (store : CommentStore) : Prop := ∀ id view, store.entries.lookup id = some view → Latest store id view

/-- No page changes a comment that already shows a read issued after it. -/
def InOrder (store : CommentStore) : Event → Prop
  | .accept read item scope canLike page =>
    store.generation = read.generation → let store := store.bind item scope canLike
      ∀ outcome ∈ store.applied, outcome.id ∈ namesOf page → Takes (store.view outcome.id).reaction read.revision →
        outcome.revision ≤ read.revision
  | _ => True

/-- What `InOrder` asks, of the store the page is merged into. -/
def Ascending (revision : Nat) (allowed : List String) (store : CommentStore) : Prop :=
  ∀ outcome ∈ store.applied, outcome.id ∈ allowed → Takes (store.view outcome.id).reaction revision →
    outcome.revision ≤ revision

theorem takes_mergeValue :
    Takes ((store.mergeValue id liked likeCount deleted revision).view other).reaction revision ↔
      Takes (store.view other).reaction revision := by
  rw [CommentStore.view, lookup_mergeValue]
  split
  · rename_i same
    rw [same]
    exact takes_read ..
  · rfl

theorem Ascending.mergeValue (ascending : Ascending revision allowed store) :
    Ascending revision allowed (store.mergeValue id liked likeCount deleted revision) := by
  intro outcome member inside takes
  rw [takes_mergeValue] at takes
  change outcome ∈ (if Takes (store.view id).reaction revision then _ else store.applied) at member
  split at member
  · rcases List.mem_cons.mp member with rfl | old
    · exact le_rfl
    · exact ascending outcome old inside takes
  · exact ascending outcome member inside takes

theorem Shown.mergeValue (sound : Sound store) (shown : Shown store)
    (inside : id ∈ allowed) (ascending : Ascending revision allowed store) :
    Shown (store.mergeValue id liked likeCount deleted revision) := by
  intro other view present
  rw [lookup_mergeValue] at present
  by_cases takes : Takes (store.view id).reaction revision
  · have listed : (store.mergeValue id liked likeCount deleted revision).applied =
        ⟨id, revision, liked, likeCount⟩ :: store.applied := if_pos takes
    rw [Latest, listed]
    split at present
    · rename_i same
      cases present
      refine ⟨_, .head _, same.symm, ?_, ?_, fun outcome member named => ?_⟩
      · change ((store.view id).reaction.read liked likeCount revision).liked = liked
        rw [read_of_takes takes]
      · change ((store.view id).reaction.read liked likeCount revision).count = likeCount
        rw [read_of_takes takes]
      · rcases List.mem_cons.mp member with rfl | old
        · exact le_rfl
        · have named := named.trans same
          exact ascending outcome old (named ▸ inside) (named ▸ takes)
    · rename_i apart
      obtain ⟨outcome, member, named, same, equal, last⟩ := shown other view present
      refine ⟨outcome, .tail _ member, named, same, equal, fun twin listed also => ?_⟩
      rcases List.mem_cons.mp listed with rfl | old
      · exact absurd also.symm apart
      · exact last twin old also
  · have listed : (store.mergeValue id liked likeCount deleted revision).applied = store.applied := if_neg takes
    rw [Latest, listed]
    split at present
    · rename_i same
      cases present
      cases stored : store.entries.lookup id with
      | none =>
        refine absurd ⟨?_, ?_⟩ takes
        · rw [CommentStore.view, stored]
          rfl
        · rw [CommentStore.view, stored]
          exact Nat.zero_le _
      | some entry =>
        obtain ⟨outcome, member, named, liking, count, last⟩ := shown id entry stored
        obtain ⟨one, two⟩ := sound.shows id entry stored
        have kept : (store.view id).reaction.read liked likeCount revision = entry.reaction := by
          rw [read_of_refuses takes, CommentStore.view, stored]
          rfl
        refine ⟨outcome, member, named.trans same.symm, ?_, ?_, fun twin listed also => last twin listed (also.trans same)⟩
        · change ((store.view id).reaction.read liked likeCount revision).liked = outcome.liked
          rw [kept, ← one, liking]
        · change ((store.view id).reaction.read liked likeCount revision).count = outcome.count
          rw [kept, ← two, count]
    · exact shown other view present

theorem Shown.accept (sound : Sound store) (shown : Shown store) (issued : read ∈ store.reads) {page : List Comment}
    (ordered : InOrder store (.accept read item scope canLike page)) :
    Shown (store.accept read item scope canLike page) := by
  unfold CommentStore.accept
  dsimp only
  split
  · rename_i current
    have bound : Shown ({ store with reads := store.reads.erase read }.bind item scope canLike) := by
      unfold CommentStore.bind
      dsimp only
      split
      · exact fun _ _ present => nomatch present
      · exact shown
    have ascending : Ascending read.revision (namesOf page) ({ store with reads := store.reads.erase read }.bind item scope canLike) := by
      have asked := ordered current
      unfold CommentStore.bind at asked ⊢
      dsimp only at asked ⊢
      split at asked
      · rename_i changed
        rw [if_pos changed]
        exact asked
      · rename_i same
        rw [if_neg same]
        exact asked
    have early : read.revision ≤ ({ store with reads := store.reads.erase read }.bind item scope canLike).clock := by
      have before := (sound.reads read issued).1
      unfold CommentStore.bind
      dsimp only
      split <;> exact before
    let Both : CommentStore → Prop := fun s => (Sound s ∧ read.revision ≤ s.clock) ∧ Shown s ∧ Ascending read.revision (namesOf page) s
    refine (merge_keeps (P := Both) (fun s id liked likeCount deleted inside holds => ?_) page _
      (fun id (member : id ∈ namesOf page) => member)
      ⟨⟨sound.erase.bind, early⟩, bound, ascending⟩).2.1
    obtain ⟨⟨safe, issued⟩, shows, ascends⟩ := holds
    exact ⟨⟨safe.mergeValue issued, issued⟩, shows.mergeValue safe inside ascends, ascends.mergeValue⟩
  · exact shown

theorem Shown.put (shown : Shown store) (view : CommentView)
    (stored : store.entries.lookup id = some entry) (liked : view.liked = entry.liked) (count : view.likeCount = entry.likeCount)
    (sameEntries : next.entries = store.entries.insert id view) (sameApplied : next.applied = store.applied) : Shown next := by
  intro other found present
  rw [sameEntries, Hash.lookup_insert] at present
  rw [Latest, sameApplied]
  split at present
  · rename_i same
    cases present
    rw [same, liked, count]
    exact shown id entry stored
  · exact shown other found present

theorem Shown.setLiked (shown : Shown store) (value : Bool) : Shown (store.setLiked id value) := by
  unfold CommentStore.setLiked
  split
  · rename_i entry stored
    split
    · exact shown
    · dsimp only
      split
      · exact shown.put { entry with reaction := (entry.reaction.start (store.clock + 1)).1 } stored rfl rfl rfl rfl
      · exact shown
  · exact shown

theorem Shown.complete (sound : Sound store) (shown : Shown store) {liked : Bool}
    {likeCount : Option UInt64}
    (sameEntries : next.entries = store.entries.insert id
      { entry with reaction := entry.reaction.complete liked likeCount (store.clock + 1) }.applyReaction)
    (sameApplied : next.applied = ⟨id, store.clock + 1, (entry.reaction.complete liked likeCount (store.clock + 1)).liked,
      (entry.reaction.complete liked likeCount (store.clock + 1)).count⟩ :: store.applied) : Shown next := by
  intro other found present
  rw [sameEntries, Hash.lookup_insert] at present
  rw [Latest, sameApplied]
  split at present
  · rename_i same
    cases present
    refine ⟨_, .head _, same.symm, rfl, rfl, fun twin member named => ?_⟩
    rcases List.mem_cons.mp member with rfl | old
    · exact le_rfl
    · exact Nat.le_succ_of_le (sound.applied twin old)
  · rename_i apart
    obtain ⟨outcome, member, named, same, equal, last⟩ := shown other found present
    refine ⟨outcome, .tail _ member, named, same, equal, fun twin listed also => ?_⟩
    rcases List.mem_cons.mp listed with rfl | old
    · exact absurd also.symm apart
    · exact last twin old also

theorem Shown.answered (sound : Sound store) (shown : Shown store) (generation : Nat) (answer : Answer) :
    Shown (store.answered id generation answer) := by
  unfold CommentStore.answered
  split
  · split
    · rename_i entry stored
      dsimp only
      cases answer with
      | failure =>
        exact shown.put { entry with reaction := entry.reaction.fail (store.clock + 1) } stored rfl rfl rfl rfl
      | result liked likeCount =>
        dsimp only
        split
        · exact Shown.complete sound shown rfl rfl
        · rename_i settled
          obtain ⟨one, two⟩ := sound.shows id entry stored
          rw [complete_settled settled]
          exact shown.put entry.applyReaction stored one.symm two.symm rfl rfl
    · exact shown
  · exact shown

theorem Shown.step (sound : Sound store) (shown : Shown store) (ordered : InOrder store event)
    (stepped : Step store event next) : Shown next := by
  cases event with
  | load =>
    cases stepped
    exact shown
  | accept read item scope canLike page =>
    obtain ⟨issued, rfl⟩ := stepped
    exact Shown.accept sound shown issued ordered
  | abandon read =>
    obtain ⟨-, rfl⟩ := stepped
    exact shown
  | setLiked id value =>
    cases stepped
    exact shown.setLiked value
  | answered id generation answer =>
    cases stepped
    exact Shown.answered sound shown generation answer
  | clear | close =>
    cases stepped
    exact fun _ _ present => nomatch present

/-- A page does not change a comment on which a like began or finished after the page was asked for. -/
def Barred (store : CommentStore) : Prop :=
  ∀ read ∈ store.reads, ∀ id ∈ read.acted, ∀ view, store.entries.lookup id = some view →
    ∀ item scope canLike page, let next := store.accept read item scope canLike page
      next.generation = store.generation → ∃ after, next.entries.lookup id = some after ∧
        after.liked = view.liked ∧ after.likeCount = view.likeCount

theorem merge_generation {page : List Comment} : (merge store revision page).generation = store.generation :=
  merge_keeps (P := fun s => s.generation = store.generation) (fun _ _ _ _ _ _ => id) page store
    (fun id (member : id ∈ namesOf page) => member) rfl

theorem Sound.barred (sound : Sound store) : Barred store := by
  intro read member id inside view stored item scope canLike page next kept
  change (store.accept read item scope canLike page).generation = store.generation at kept
  change ∃ after, (store.accept read item scope canLike page).entries.lookup id = some after ∧ _
  unfold CommentStore.accept at kept ⊢
  dsimp only at kept ⊢
  split at kept
  · rename_i current
    rw [if_pos current]
    obtain ⟨found, present, below⟩ := sound.acted read member current.symm id inside
    rw [stored] at present
    cases present
    rw [merge_generation] at kept
    let Same : CommentStore → Prop := fun s => ∃ after, s.entries.lookup id = some after ∧ after.liked = view.liked ∧
      after.likeCount = view.likeCount ∧ after.reaction = view.reaction
    have begun : Same ({ store with reads := store.reads.erase read }.bind item scope canLike) := by
      unfold CommentStore.bind at kept ⊢
      dsimp only at kept ⊢
      split at kept
      · exact absurd kept (Nat.succ_ne_self _)
      · rename_i same
        rw [if_neg same]
        exact ⟨view, stored, rfl, rfl, rfl⟩
    suffices same : Same (CommentStore.merge ({ store with reads := store.reads.erase read }.bind item scope canLike) read.revision page) by
      obtain ⟨after, there, liked, count, -⟩ := same
      exact ⟨after, there, liked, count⟩
    refine merge_keeps (fun s other liked likeCount deleted _ holds => ?_) page _
      (fun id (member : id ∈ namesOf page) => member) begun
    · obtain ⟨entry, there, one, two, three⟩ := holds
      change ∃ after, (s.mergeValue other liked likeCount deleted read.revision).entries.lookup id = some after ∧ _
      rw [lookup_mergeValue]
      split
      · rename_i equal
        have refuses : ¬ Takes entry.reaction read.revision := fun takes => by
          have above := takes.2
          rw [three] at above
          exact absurd below (Nat.not_lt.mpr above)
        have reaction : (s.view other).reaction.read liked likeCount read.revision = view.reaction := by
          rw [CommentStore.view, ← equal, there, Option.getD_some, read_of_refuses refuses, three]
        obtain ⟨first, second⟩ := sound.shows id view stored
        refine ⟨_, rfl, ?_, ?_, ?_⟩
        · change ((s.view other).reaction.read liked likeCount read.revision).liked = view.liked
          rw [reaction, first]
        · change ((s.view other).reaction.read liked likeCount read.revision).count = view.likeCount
          rw [reaction, second]
        · exact reaction
      · exact ⟨entry, there, one, two, three⟩
  · rename_i other
    rw [if_neg other]
    exact ⟨view, stored, rfl, rfl⟩

/-- A like that is answered without a count moves it by one at most; it never wraps. -/
def Steady (reaction : Reaction) : Prop :=
  ∀ value count next, reaction.count = some count → reaction.counted value = some next →
    next = count ∨ next.toNat = count.toNat + 1 ∨ next.toNat + 1 = count.toNat

theorem reaction_steady (reaction : Reaction) : Steady reaction := by
  intro value count next had counted
  unfold Reaction.counted at counted
  rw [had] at counted
  cases liked : reaction.liked with
  | none =>
    rw [liked] at counted
    cases counted
    exact .inl rfl
  | some before =>
    rw [liked] at counted
    dsimp only at counted
    split at counted
    · cases counted
      exact .inl rfl
    split at counted
    · rename_i room
      cases counted
      have below : count.toNat < 18446744073709551615 := UInt64.lt_iff_toNat_lt.mp room.2
      refine .inr (.inl ?_)
      rw [UInt64.toNat_add]
      exact Nat.mod_eq_of_lt (by simpa using Nat.succ_lt_succ below)
    split at counted
    · rename_i positive
      cases counted
      refine .inr (.inr ?_)
      have one : (1 : UInt64) ≤ count := UInt64.le_iff_toNat_le.mpr (Nat.pos_of_ne_zero fun zero =>
        positive.2 (UInt64.toNat.inj (by simpa using zero)))
      rw [UInt64.toNat_sub_of_le _ _ one]
      exact Nat.sub_add_cancel (UInt64.le_iff_toNat_le.mp one)
    · cases counted
      exact .inl rfl

/-- A page with one comment. -/
def page (liked : Bool) (likeCount : UInt64) : List Comment := [.comment "comment" (some liked) (some likeCount) false []]

/-- The store after two reads of the page, answered in the order of the list. -/
def afterReads (answers : List (Read × List Comment)) : CommentStore :=
  answers.foldl (fun store answer => store.accept answer.1 1 "song" true answer.2) (CommentStore.load (CommentStore.load {}))

theorem step_accept (store : CommentStore) (read : Read) (page : List Comment) (issued : read ∈ store.reads) :
    Step store (.accept read 1 "song" true page) (store.accept read 1 "song" true page) := ⟨issued, rfl⟩

theorem two_reads (guard : CommentStore → Event → Prop) (free : ∀ store, guard store .load) :
    Runs.Reach (fun s => s = {}) guard Step (afterReads []) :=
  .next (a := .load) (.next (a := .load) (.start rfl) (free _) rfl) (free _) rfl

end Qcm.CommentReactions
