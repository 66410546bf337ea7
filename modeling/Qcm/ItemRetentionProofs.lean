import Qcm.ItemRetentions
import Qcm.SyncRetentionProofs

/-!
The table of a provider counts its live retentions, whatever calls and drops
have gone before.  A call changes the table in its last step only, so one that
fails or is dropped leaves no count, and a drop finds every count of its ids
positive.
-/

namespace Qcm.ItemRetentionProofs

open Lib Lib.Runs SyncDatabase ItemRetentions
open SyncCoordinator (retainCounts dropCount dropCounts)
open SyncRetentionProofs (candidates_nodup retainCounts_value dropCounts_value)

variable {p id : Int} {call next : Call} {after w : World} {k : Nat} {order : List Int}

section Collected

/-- A root of a call, or the album of a root that is a song. -/
def RootOrAlbum (call : Call) (id : Int) : Prop :=
  id ∈ call.asked ∨ ∃ song row, song ∈ call.asked ∧
    (call.views .albums).songs.lookup song = some row ∧ row.albumId = some id

/-- An artist in one of the relation tables of a root or an album. -/
def ArtistOf (call : Call) (rels : Hash Int ArtistRelRow) (id : Int) : Prop :=
  ∃ key rel, rels.lookup key = some rel ∧ RootOrAlbum call rel.owner ∧ rel.artistId = id

/-- What the retention of a call has to keep. -/
def Kept (call : Call) (id : Int) : Prop :=
  RootOrAlbum call id ∨ ArtistOf call (call.views .songArtists).relSongArtists id ∨
    ArtistOf call (call.views .albumArtists).relAlbumArtists id

/-- The roots of a call are the items it was asked for. -/
def Rooted (call : Call) : Prop := (call.roots.map Prod.fst).toFinset = call.asked

/-- What the variables of a call hold at each of its points. -/
def Traced (call : Call) : Prop :=
  match call.point with
  | .lock | .query .roots => call.ids = call.asked
  | .query .albums => Rooted call ∧ call.ids = call.asked
  | .query .songArtists => Rooted call ∧ ∀ id, id ∈ call.ids ↔ RootOrAlbum call id
  | .query .albumArtists => Rooted call ∧ (∀ id, id ∈ call.ids ↔ RootOrAlbum call id) ∧
      ∀ id, id ∈ call.songArtists ↔ ArtistOf call (call.views .songArtists).relSongArtists id
  | .query .dependencies | .count => Rooted call ∧ ∀ id, id ∈ call.ids ↔ Kept call id

variable {db : Database} {ids : Finset Int}

private theorem rooted_of_length (whole : ((db.candidates p).filter fun entry => entry.1 ∈ ids).length = ids.card) :
    (((db.candidates p).filter fun entry => entry.1 ∈ ids).map Prod.fst).toFinset = ids := by
  apply Finset.eq_of_subset_of_card_le
  · intro id there
    simp only [List.mem_toFinset, List.mem_map, List.mem_filter, decide_eq_true_eq] at there
    obtain ⟨entry, ⟨_, inside⟩, rfl⟩ := there
    exact inside
  · rw [List.toFinset_card_of_nodup, List.length_map, whole]
    exact (candidates_nodup db p).sublist (List.filter_sublist.map _)

private theorem mem_artists {rels : Hash Int ArtistRelRow} : (id ∈ rels.entries.filterMap fun entry =>
      if entry.2.owner ∈ ids then some entry.2.artistId else none) ↔
      ∃ key rel, rels.lookup key = some rel ∧ rel.owner ∈ ids ∧ rel.artistId = id := by
  simp only [List.mem_filterMap, Hash.lookup_eq_some_iff]
  constructor
  · rintro ⟨⟨key, rel⟩, there, found⟩
    split at found
    · rename_i inside
      exact ⟨key, rel, there, inside, Option.some.inj found⟩
    · cases found
  · rintro ⟨key, rel, there, inside, rfl⟩
    exact ⟨⟨key, rel⟩, there, if_pos inside⟩

private theorem mem_albums :
    (id ∈ db.songs.entries.filterMap fun entry => if entry.1 ∈ ids then entry.2.albumId else none) ↔
      ∃ song row, song ∈ ids ∧ db.songs.lookup song = some row ∧ row.albumId = some id := by
  simp only [List.mem_filterMap, Hash.lookup_eq_some_iff]
  constructor
  · rintro ⟨⟨song, row⟩, there, found⟩
    split at found
    · rename_i inside
      exact ⟨song, row, inside, there, found⟩
    · cases found
  · rintro ⟨song, row, inside, there, found⟩
    exact ⟨⟨song, row⟩, there, by rw [if_pos inside, found]⟩

theorem Traced.fresh (p : Int) (ids : Finset Int) : Traced (Call.fresh p ids) := rfl

theorem Traced.enter (traced : Traced call) (waiting : call.point = .lock)
    (passed : call.enter = .ok next) : Traced next := by
  unfold Call.enter at passed
  split at passed <;> cases passed
  simpa [Traced, waiting] using traced

theorem Traced.read {query : Query} (traced : Traced call)
    (waiting : call.point = .query query) (passed : call.read db query = .ok next) : Traced next := by
  cases query <;> simp only [Traced, waiting] at traced
  case roots =>
    simp only [Call.read] at passed
    split at passed <;> cases passed
    rename_i whole
    constructor
    · rw [Rooted, ← traced]
      exact rooted_of_length (not_not.mp whole)
    · exact traced
  case albums =>
    obtain ⟨rooted, same⟩ := traced
    cases passed
    constructor
    · exact rooted
    · intro id
      rw [Finset.mem_union, List.mem_toFinset, mem_albums, same]
      simp [RootOrAlbum]
  case songArtists =>
    obtain ⟨rooted, inside⟩ := traced
    cases passed
    refine ⟨rooted, inside, fun id => ?_⟩
    rw [mem_artists]
    simp only [inside]
    simp [ArtistOf, RootOrAlbum]
  case albumArtists =>
    obtain ⟨rooted, inside, artists⟩ := traced
    cases passed
    constructor
    · exact rooted
    · intro id
      rw [Finset.mem_union, Finset.mem_union, List.mem_toFinset, List.mem_toFinset, mem_artists, artists]
      simp only [inside]
      simp [Kept, ArtistOf, RootOrAlbum, or_assoc]
  case dependencies =>
    simp only [Call.read] at passed
    split at passed <;> cases passed
    obtain ⟨rooted, inside⟩ := traced
    constructor
    · exact rooted
    · intro id
      rw [inside]
      simp [Kept, ArtistOf, RootOrAlbum]

end Collected

section Counts

variable {counts : Hash Int Nat}

/-- No id is in the table with the count zero. -/
def Positive (counts : Hash Int Nat) : Prop := ∀ id, counts.lookup id ≠ some 0

theorem Positive.lookup (positive : Positive counts) (id : Int) :
    counts.lookup id = if Hash.value counts id 0 = 0 then none else some (Hash.value counts id 0) := by
  unfold Hash.value
  cases there : counts.lookup id with
  | none => rfl
  | some count =>
    have apart : count ≠ 0 := fun zero => positive id (by rw [there, zero])
    simp [apart]

theorem Positive.empty : Positive ∅ := fun id => by simp

theorem Positive.retain (positive : Positive counts) (ids : List Int) :
    Positive (retainCounts counts ids) := by
  induction ids generalizing counts with
  | nil => exact positive
  | cons head rest ih =>
    apply ih
    intro id
    rw [Hash.lookup_insert]
    split
    · simp
    · exact positive id

private theorem Positive.dropOne (positive : Positive counts) (id : Int) :
    dropOne counts id = some (dropCount counts id) ∧ Positive (dropCount counts id) := by
  unfold ItemRetentions.dropOne dropCount
  cases there : counts.lookup id with
  | none => exact ⟨rfl, positive⟩
  | some count =>
    cases count with
    | zero => exact absurd there (positive id)
    | succ count =>
      constructor
      · simp
      · intro other
        simp only [Nat.add_sub_cancel]
        split
        · rw [Hash.lookup_erase]
          split
          · exact nofun
          · exact positive other
        · rename_i apart
          rw [Hash.lookup_insert]
          split
          · simpa using apart
          · exact positive other

theorem Positive.dropAll (positive : Positive counts) (order : List Int) :
    dropAll order counts = some (dropCounts counts order) ∧ Positive (dropCounts counts order) := by
  induction order generalizing counts with
  | nil => exact ⟨rfl, positive⟩
  | cons head rest ih =>
    obtain ⟨turned, positive⟩ := positive.dropOne head
    obtain ⟨done, positive⟩ := ih positive
    constructor
    · rw [ItemRetentions.dropAll, List.foldlM_cons, turned]
      exact done
    · exact positive

end Counts

/-- The live retentions of a provider that contain an item. -/
def holders (w : World) (p id : Int) : Nat :=
  w.live.countP fun entry => entry.1.owner = p && decide (id ∈ entry.1.ids)

/-- What holds in every state. -/
structure Sound (w : World) : Prop where
  counted : ∀ p id, Hash.value (w.counts p) id 0 = holders w p id
  positive : ∀ p, Positive (w.counts p)
  calls : ∀ k call, w.calls k = some call → Traced call
  made : ∀ entry ∈ w.live, entry.1 = entry.2.retention ∧ entry.2.point = .count ∧ Traced entry.2

variable {w : World}

theorem Sound.initial (initial : Initial w) : Sound w where
  counted p id := by simp [holders, initial.live, initial.counts, Hash.value]
  positive p := by
    rw [initial.counts]
    exact Positive.empty
  calls k call there := by simp [initial.calls] at there
  made := by simp [initial.live]

private theorem Sound.setCall (sound : Sound w) (call : Option Call)
    (next : ∀ now, call = some now → Traced now) (calls : after.calls = Function.update w.calls k call)
    (counts : after.counts = w.counts) (live : after.live = w.live) : Sound after where
  counted p id := by
    rw [holders, counts, live]
    exact sound.counted p id
  positive p := by
    rw [counts]
    exact sound.positive p
  calls j now there := by
    rw [calls, Function.update_apply] at there
    split at there
    · exact next now there
    · exact sound.calls j now there
  made := by
    rw [live]
    exact sound.made

private theorem Sound.leave (sound : Sound w) (k : Nat) (call : Call) : Sound (w.leave k call) :=
  sound.setCall none nofun rfl rfl rfl

private theorem count_order {ids : Finset Int} (nodup : order.Nodup)
    (every : order.toFinset = ids) (id : Int) : order.count id = if id ∈ ids then 1 else 0 := by
  rw [nodup.count, ← every]
  simp

private theorem Sound.retain (sound : Sound w)
    (there : w.calls k = some call) (last : call.point = .count)
    (every : order.Nodup ∧ order.toFinset = call.ids) : Sound { w.leave k call with
      counts := Function.update w.counts call.provider (retainCounts (w.counts call.provider) order)
      live := (call.retention, call) :: w.live } where
  counted p id := by
    have before := sound.counted p id
    simp only [holders, List.countP_cons, Function.update_apply, Call.retention] at before ⊢
    split
    · rename_i same
      subst same
      rw [retainCounts_value, before, count_order every.1 every.2]
      simp
    · rename_i apart
      simp [before, Ne.symm apart]
  positive p := by
    simp only [Function.update_apply]
    split
    · exact (sound.positive _).retain order
    · exact sound.positive p
  calls := (sound.leave k call).calls
  made entry member := by
    rcases List.mem_cons.mp member with rfl | member
    · exact ⟨rfl, last, sound.calls k call there⟩
    · exact sound.made entry member

private theorem Sound.drop (sound : Sound w) {early late : List (ItemRetention × Call)}
    {entry : ItemRetention × Call} {table : Hash Int Nat}
    (alive : w.live = early ++ entry :: late) (every : order.Nodup ∧ order.toFinset = entry.1.ids)
    (done : dropAll order (w.counts entry.1.owner) = some table) :
    Sound { w with
      counts := Function.update w.counts entry.1.owner table
      live := early ++ late } := by
  obtain ⟨turned, positive⟩ := (sound.positive entry.1.owner).dropAll order
  obtain rfl : dropCounts (w.counts entry.1.owner) order = table := Option.some.inj (turned.symm.trans done)
  constructor
  case counted =>
    intro p id
    have before := sound.counted p id
    simp only [holders, alive, List.countP_append, List.countP_cons, Function.update_apply] at before ⊢
    split
    · rename_i same
      subst same
      rw [dropCounts_value, before, count_order every.1 every.2]
      by_cases member : id ∈ entry.1.ids <;> simp [member]
    · rename_i apart
      rw [before]
      simp [Ne.symm apart]
  case positive =>
    intro p
    simp only [Function.update_apply]
    split
    · exact positive
    · exact sound.positive p
  case calls => exact sound.calls
  case made =>
    intro other member
    apply sound.made other
    rw [alive]
    rcases List.mem_append.mp member with member | member <;> simp [member]

theorem Sound.step {event : Event} (sound : Sound w) (step : Step w event after) : Sound after := by
  cases step with
  | write | lock free | unlock other => exact { sound with }
  | call unused =>
    refine sound.setCall _ (fun now same => ?_) rfl rfl rfl
    cases same
    exact Traced.fresh _ _
  | enter there waiting free passed =>
    refine sound.setCall _ (fun now same => ?_) rfl rfl rfl
    cases same
    exact (sound.calls _ _ there).enter waiting passed
  | read there waiting passed =>
    refine sound.setCall _ (fun now same => ?_) rfl rfl rfl
    cases same
    exact (sound.calls _ _ there).read waiting passed
  | refuse | miss | abandon => exact sound.leave _ _
  | retain there last every => exact sound.retain there last every
  | drop alive every done => exact sound.drop alive every done

/-- The states that calls and drops lead to, in any order. -/
def Reachable : World → Prop := Reach Initial (fun _ _ => True) Step

theorem Reachable.sound (reached : Reachable w) : Sound w :=
  reached.invariant (fun _ => Sound.initial) fun _ _ _ sound _ step => sound.step step

theorem holders_pos : 0 < holders w p id ↔ ∃ entry ∈ w.live, entry.1.owner = p ∧ id ∈ entry.1.ids := by
  simp [holders, List.countP_pos_iff]

/-- The table of a provider is the multiset count of the ids of its live
retentions, an id is in it exactly while a live retention contains it, dropping
a live retention meets no zero in whatever order it walks its ids, and what a
live retention contains are its roots with their albums and artists. -/
theorem retained_counts_live {w : World} (reached : Reachable w) (p : Int) :
    (∀ id, (w.counts p).lookup id = if holders w p id = 0 then none else some (holders w p id)) ∧
    (∀ id, id ∈ w.counts p ↔ ∃ entry ∈ w.live, entry.1.owner = p ∧ id ∈ entry.1.ids) ∧
    (∀ entry ∈ w.live, ∀ order : List Int, order.Nodup → order.toFinset = entry.1.ids →
      dropAll order (w.counts entry.1.owner) ≠ none) ∧
    ∀ entry ∈ w.live, (entry.1.roots.map Prod.fst).toFinset = entry.2.asked ∧
      ∀ id, id ∈ entry.1.ids ↔ Kept entry.2 id := by
  have sound := reached.sound
  have table (id : Int) :
      (w.counts p).lookup id = if holders w p id = 0 then none else some (holders w p id) := by
    rw [(sound.positive p).lookup, sound.counted]
  refine ⟨table, fun id => ?_, fun entry _ order _ _ none => ?_, fun entry member => ?_⟩
  · rw [← AList.lookup_isSome, table, ← holders_pos]
    split <;> simp <;> omega
  · rw [((sound.positive _).dropAll order).1] at none
    cases none
  · obtain ⟨same, last, traced⟩ := sound.made entry member
    rw [same]
    simp only [Traced, last] at traced
    exact traced

/-- A song of provider 7 that lies on an album, whose artist is in the tables. -/
def albumSong : Database :=
  { Database.empty with
    items := [⟨1, ⟨"a", some 5, 7, .album, 0⟩⟩, ⟨2, ⟨"s", some 5, 7, .song, 0⟩⟩,
      ⟨3, ⟨"r", some 5, 7, .artist, 0⟩⟩].toAList
    songs := [⟨2, ⟨"song", some 1⟩⟩].toAList
    relAlbumArtists := [⟨1, ⟨1, 3, 0⟩⟩].toAList }

theorem retained_song_counts :
    ∃ w, (w.counts 7).keys.toFinset = {1, 2, 3} ∧
      ∀ id, (w.counts 7).lookup id = if holders w 7 id = 0 then none else some (holders w 7 id) := by
  have start : Reachable ⟨albumSong, fun _ => false, fun _ => ∅, fun _ => none, []⟩ :=
    .start ⟨fun _ => rfl, fun _ => rfl, fun _ => rfl, rfl⟩
  have called := start.next trivial (@Step.call _ 0 7 {2} rfl)
  have entered := called.next trivial (.enter (k := 0) rfl rfl rfl rfl)
  have roots := entered.next trivial (.read (k := 0) rfl rfl rfl)
  have albums := roots.next trivial (.read (k := 0) rfl rfl rfl)
  have songArtists := albums.next trivial (.read (k := 0) rfl rfl rfl)
  have albumArtists := songArtists.next trivial (.read (k := 0) rfl rfl rfl)
  have dependencies := albumArtists.next trivial (.read (k := 0) rfl rfl rfl)
  have nodup : [(2 : Int), 1, 3].Nodup := by decide
  have retained := dependencies.next trivial (.retain (k := 0) rfl rfl ⟨nodup, by decide⟩)
  exact ⟨_, by decide, (retained_counts_live retained 7).1⟩

end Qcm.ItemRetentionProofs
