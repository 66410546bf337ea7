import Qcm.BatchListRules
import Qcm.Lib.Runs
import Qcm.MixSongs

/-!
The counts and the order of mixes.

An append tells its new rows by their `order_idx` of 0, and a row that a batch
has put in the first place has that as well.  So an append is right where no row
of the mix is in place 0, and only then.
-/

namespace Qcm.MixSongProofs

open Lib SyncDatabase SyncBatch BatchTables BatchWrites BatchRules BatchListRules
  MixSongs

variable {t u : Tables} {mix : Int} {rows after : Hash Int MixSongRow}

variable {songs : List Int} {song id fresh : Int} {old : List (Sigma fun _ : Int => MixSongRow)}
  {new : List (Int × Int)} {row : MixSongRow} {place : Int × Int} {before : Tables × List Int} {count : Nat}

/-- Seen from its last element on, a list without its repeats. -/
theorem dedup_snoc (songs : List Int) (song : Int) : (songs ++ [song]).dedup = songs.dedup.erase song ++ [song] := by
  induction songs with
  | nil => rfl
  | cons first songs ih =>
    by_cases again : first ∈ songs
    · rw [List.cons_append, List.dedup_cons_of_mem (List.mem_append_left _ again), List.dedup_cons_of_mem again, ih]
    · by_cases same : first = song
      · subst same
        rw [List.cons_append, List.dedup_cons_of_mem (by simp), List.dedup_cons_of_notMem again, ih,
          List.erase_cons_head, List.erase_of_not_mem (mt List.mem_dedup.mp again)]
      · rw [List.cons_append, List.dedup_cons_of_notMem (by simp [again, same]), List.dedup_cons_of_notMem again, ih,
          List.erase_cons_tail (by simpa using same), List.cons_append]

/-- The columns of the rows: a mix, a song of it, and its place. -/
abbrev Listing := List (Int × (Int × Int))

/-- The songs that are put in anew, each where it stands last. -/
def added (mix : Int) (listing : Listing) (songs : List Int) : List Int :=
  (songs.filter fun song => song ∉ (ownRows mix listing).map fun row => row.2.1).dedup

theorem added_snoc (listing : Listing) (songs : List Int) (song : Int) : added mix listing (songs ++ [song]) =
    if song ∈ (ownRows mix listing).map fun row => row.2.1 then added mix listing songs
    else (added mix listing songs).erase song ++ [song] := by
  rw [added, List.filter_append]
  split_ifs with there
  · rw [List.filter_cons_of_neg (by simpa using there), List.filter_nil, List.append_nil, added]
  · rw [List.filter_cons_of_pos (by simpa using there), List.filter_nil, dedup_snoc, added]

theorem not_mem_of_mem_added {listing : Listing} (member : song ∈ added mix listing songs) :
    song ∉ (ownRows mix listing).map fun row => row.2.1 := by
  simpa using (List.mem_filter.mp (List.mem_dedup.mp member)).2

/-! ## The insert -/

/-- The entry that an append makes for a song. -/
def entryOf (mix : Int) (place : Int × Int) : Sigma fun _ : Int => MixSongRow := ⟨place.1, ⟨mix, place.2, 0⟩⟩

/-- The rows are those that were there, whatever their ids are now, and one for
every song that is new, with ids in their order. -/
def Inserted (mix : Int) (listing : Listing) (songs : List Int) (rows : Hash Int MixSongRow) : Prop :=
  ∃ (old : List (Sigma fun _ : Int => MixSongRow)) (new : List (Int × Int)),
    rows.entries.Perm (old ++ new.map (entryOf mix)) ∧
    (old.map fun entry => lists entry.2).Perm listing ∧
    (new.map Prod.fst).Pairwise (· < ·) ∧ new.map Prod.snd = added mix listing songs

theorem perm_last {entries : List (Sigma fun _ : Int => MixSongRow)} (place : Int × Int)
    (perm : entries.Perm (old ++ new.map (entryOf mix))) :
    (entryOf mix place :: entries).Perm (old ++ (new ++ [place]).map (entryOf mix)) := by
  rw [List.map_append, ← List.append_assoc]
  exact (perm.cons _).trans (List.perm_append_singleton _ _).symm

theorem memberOf_iff : memberOf mix song id row = true ↔ row.mixId = mix ∧ row.songId = song := by
  simp [memberOf]

theorem mem_songs_iff {listing : Listing} :
    song ∈ (ownRows mix listing).map (fun row => row.2.1) ↔ ∃ place, (mix, song, place) ∈ listing := by
  simp only [List.mem_map, mem_ownRows]
  constructor
  · rintro ⟨⟨owner, other, place⟩, ⟨member, rfl⟩, rfl⟩
    exact ⟨place, member⟩
  · rintro ⟨place, member⟩
    exact ⟨_, ⟨member, rfl⟩, rfl⟩

theorem fresh_above (above : ∀ entry ∈ rows.entries, entry.1 < fresh) : rows.lookup fresh = none := by
  cases stored : rows.lookup fresh with
  | none => rfl
  | some row => exact absurd (above _ ((Hash.lookup_eq_some_iff _ _ _).mp stored)) (lt_irrefl fresh)

theorem sorted_snoc (sorted : (new.map Prod.fst).Pairwise (· < ·))
    (highest : ∀ id ∈ new.map Prod.fst, id < place.1) : ((new ++ [place]).map Prod.fst).Pairwise (· < ·) := by
  rw [List.map_append, List.pairwise_append]
  exact ⟨sorted, List.pairwise_singleton _ _, fun id member last same =>
    List.mem_singleton.mp same ▸ highest id member⟩

theorem highest_of_perm (perm : rows.entries.Perm (old ++ new.map (entryOf mix)))
    (above : ∀ entry ∈ rows.entries, entry.1 < fresh) : ∀ id ∈ new.map Prod.fst, id < fresh := by
  intro id member
  obtain ⟨place, there, rfl⟩ := List.mem_map.mp member
  exact above (entryOf mix place) (perm.mem_iff.mpr (List.mem_append_right _ (List.mem_map_of_mem there)))

/-- The insert meets a row, which gets another id. -/
theorem Inserted.renewed {listing : Listing} (inserted : Inserted mix listing songs rows)
    (stored : rows.lookup id = some row) (own : row.mixId = mix)
    (above : ∀ entry ∈ rows.entries, entry.1 < fresh) :
    Inserted mix listing (songs ++ [row.songId]) (Hash.put fresh row (rows.erase id)) := by
  obtain ⟨old, new, perm, columns, sorted, same⟩ := inserted
  have absent : (rows.erase id).lookup fresh = none := by
    rw [Hash.lookup_erase, fresh_above above, ite_self]
  have parts := (Hash.entries_perm_erase stored).symm.trans perm
  rw [Inserted, added_snoc, Hash.entries_put_new absent]
  obtain before | anew := List.mem_append.mp (parts.mem_iff.mp List.mem_cons_self)
  · -- the row was there before, and only its id is another one now
    subst own
    obtain ⟨front, back, rfl⟩ := List.append_of_mem before
    have listed : row.songId ∈ (ownRows row.mixId listing).map fun row => row.2.1 :=
      mem_songs_iff.mpr ⟨row.orderIdx, columns.mem_iff.mp (List.mem_map.mpr ⟨_, before, rfl⟩)⟩
    rw [if_pos listed]
    refine ⟨⟨fresh, row⟩ :: (front ++ back), new, ?_, ?_, sorted, same⟩
    · exact (parts.trans (List.perm_middle.append_right _)).cons_inv.cons _
    · rw [List.map_append, List.map_cons] at columns
      rw [List.map_cons, List.map_append]
      exact List.perm_middle.symm.trans columns
  · -- the song was put in earlier, and stands last now
    obtain ⟨⟨place, other⟩, there, entry⟩ := List.mem_map.mp anew
    obtain ⟨rfl, rfl⟩ : place = id ∧ (⟨mix, other, 0⟩ : MixSongRow) = row := by simpa [entryOf] using entry
    have unlisted := not_mem_of_mem_added (same ▸ List.mem_map_of_mem there)
    have distinct : (new.map Prod.snd).Nodup := same ▸ List.nodup_dedup _
    have highest := highest_of_perm perm above
    obtain ⟨front, back, rfl⟩ := List.append_of_mem there
    have earlier : other ∉ front.map Prod.snd := by
      rw [List.map_append, List.map_cons] at distinct
      exact fun member => List.disjoint_of_nodup_append distinct member (.head _)
    have fewer : (front ++ back).Sublist (front ++ (place, other) :: back) :=
      (List.Sublist.refl front).append (List.sublist_cons_self _ _)
    rw [if_neg unlisted]
    refine ⟨old, front ++ back ++ [(fresh, other)], ?_, columns, ?_, ?_⟩
    · rw [List.map_append, List.map_cons] at parts
      have rest := (parts.trans ((List.perm_middle.append_left old).trans List.perm_middle)).cons_inv
      exact perm_last (_, other) (List.map_append ▸ rest)
    · exact sorted_snoc (sorted.sublist (fewer.map _)) fun id member => highest id ((fewer.map _).subset member)
    · rw [← same]
      simp only [List.map_append, List.map_cons, List.map_nil]
      rw [List.erase_append_right _ earlier, List.erase_cons_head]

/-- The insert meets no row. -/
theorem Inserted.anew {listing : Listing} (inserted : Inserted mix listing songs rows)
    (missing : ∀ id row, rows.lookup id = some row → ¬ (row.mixId = mix ∧ row.songId = song))
    (above : ∀ entry ∈ rows.entries, entry.1 < fresh) :
    Inserted mix listing (songs ++ [song]) (Hash.put fresh ⟨mix, song, 0⟩ rows) := by
  obtain ⟨old, new, perm, columns, sorted, same⟩ := inserted
  have unlisted : song ∉ (ownRows mix listing).map fun row => row.2.1 := by
    intro member
    obtain ⟨place, there⟩ := mem_songs_iff.mp member
    obtain ⟨entry, held, same⟩ := List.mem_map.mp (columns.mem_iff.mpr there)
    obtain ⟨own, named, -⟩ : entry.2.mixId = mix ∧ entry.2.songId = song ∧ entry.2.orderIdx = place := by
      simpa [lists] using same
    have stored := perm.mem_iff.mpr (List.mem_append_left _ held)
    exact missing _ _ ((Hash.lookup_eq_some_iff _ _ _).mpr stored) ⟨own, named⟩
  have unadded : song ∉ added mix listing songs := by
    rw [← same]
    intro member
    obtain ⟨place, there, named⟩ := List.mem_map.mp member
    have stored := perm.mem_iff.mpr (List.mem_append_right _ (List.mem_map_of_mem there))
    exact missing _ _ ((Hash.lookup_eq_some_iff _ _ _).mpr stored) ⟨rfl, named⟩
  rw [Inserted, added_snoc, if_neg unlisted, List.erase_of_not_mem unadded]
  refine ⟨old, new ++ [(fresh, song)], ?_, columns, sorted_snoc sorted (highest_of_perm perm above), ?_⟩
  · rw [Hash.entries_put_new (fresh_above above)]
    exact perm_last (_, song) perm
  · rw [List.map_append, same, List.map_singleton]

/-- What an append does to the tables before any place is given. -/
def Grown (t u : Tables) : Prop :=
  ∃ rows last, u = { t with relMixSongs := rows, sequence := { t.sequence with relMixSong := last } }

theorem insertSong_inserted {listing : Listing} (inserted : Inserted mix listing songs t.relMixSongs)
    (done : insertSong mix t song = .ok u) :
    Grown t u ∧ Inserted mix listing (songs ++ [song]) u.relMixSongs := by
  have above : ∀ entry ∈ t.relMixSongs.entries, entry.1 < nextId t.sequence.relMixSong t.relMixSongs :=
    fun entry member => lt_nextId (by rw [(Hash.lookup_eq_some_iff _ _ _).mpr member]; rfl)
  simp only [insertSong] at done
  split at done
  · rename_i id row found
    cases done
    obtain ⟨stored, fits⟩ := Hash.find_some found
    obtain ⟨own, rfl⟩ := memberOf_iff.mp fits
    exact ⟨⟨_, _, rfl⟩, inserted.renewed stored own above⟩
  · rename_i none
    split at done <;> cases done
    refine ⟨⟨_, _, rfl⟩, inserted.anew (fun id row stored both => ?_) above⟩
    have missed := Hash.find_none.mp none id row stored
    rw [memberOf_iff.mpr both] at missed
    cases missed

theorem insertSongs_inserted {listing : Listing} {before : List Int}
    (inserted : Inserted mix listing before t.relMixSongs) (done : songs.foldlM (insertSong mix) t = .ok u) :
    Grown t u ∧ Inserted mix listing (before ++ songs) u.relMixSongs := by
  induction songs generalizing t before with
  | nil =>
    cases done
    exact ⟨⟨_, _, rfl⟩, by rwa [List.append_nil]⟩
  | cons song songs ih =>
    obtain ⟨middle, first, later⟩ := bind_ok.mp done
    obtain ⟨⟨_, _, rfl⟩, held⟩ := insertSong_inserted inserted first
    obtain ⟨⟨rows, last, rfl⟩, whole⟩ := ih held later
    exact ⟨⟨rows, last, rfl⟩, by rwa [List.append_assoc, List.singleton_append] at whole⟩

theorem inserted_nothing : Inserted mix (Hash.columns lists rows) [] rows := by
  refine ⟨rows.entries, [], ?_, ?_, List.Pairwise.nil, rfl⟩
  · rw [List.map_nil, List.append_nil]
  · rw [Hash.columns, Hash.values, List.map_map]
    rfl

/-! ## The places -/

theorem unplaced_iff : unplaced mix id row = true ↔ row.mixId = mix ∧ row.orderIdx = 0 := by
  simp [unplaced]

/-- No row of the mix is in the first place. -/
def Ordered (mix : Int) (listing : Listing) : Prop := ∀ row ∈ ownRows mix listing, row.2.2 ≠ 0

/-- The number of rows of the mix in the first place. -/
def firstPlaces (mix : Int) (listing : Listing) : Nat := (ownRows mix listing).countP fun row => row.2.2 = 0

theorem firstPlaces_eq_zero {listing : Listing} : firstPlaces mix listing = 0 ↔ Ordered mix listing := by
  rw [firstPlaces, List.countP_eq_zero]
  simp [Ordered]

theorem rowNumber_perm {ids others : List Int} (perm : ids.Perm others) : rowNumber ids = rowNumber others :=
  funext fun _ => (perm.filter _).length_eq

theorem rowNumber_getElem {ids : List Int} (sorted : ids.Pairwise (· < ·)) {index : Nat} (inside : index < ids.length) :
    rowNumber ids ids[index] = index + 1 := by
  induction ids generalizing index with
  | nil => cases inside
  | cons first ids ih =>
    obtain ⟨least, sorted⟩ := List.pairwise_cons.mp sorted
    cases index with
    | zero =>
      have none : ids.filter (· ≤ first) = [] :=
        List.filter_eq_nil_iff.mpr fun id member => by simpa using least id member
      simp [rowNumber, none]
    | succ index =>
      have within : index < ids.length := Nat.lt_of_succ_lt_succ inside
      have above := least ids[index] (List.getElem_mem within)
      rw [List.getElem_cons_succ, rowNumber, List.filter_cons_of_pos (by simpa using Int.le_of_lt above),
        List.length_cons, ← rowNumber, ih sorted within]

theorem le_maxOrder (stored : rows.lookup id = some row) (own : row.mixId = mix) :
    row.orderIdx ≤ maxOrder mix rows := by
  have member : row.orderIdx ∈ ((Hash.values rows).filter (·.mixId = mix)).map MixSongRow.orderIdx := by
    refine List.mem_map.mpr ⟨row, List.mem_filter.mpr ⟨?_, by simpa using own⟩, rfl⟩
    exact List.mem_map.mpr ⟨_, (Hash.lookup_eq_some_iff _ _ _).mp stored, rfl⟩
  obtain ⟨greatest, found⟩ := Option.isSome_iff_exists.mp (List.isSome_max?_of_mem member)
  rw [maxOrder, found]
  exact (List.max?_eq_some_iff.mp found).2 _ member

theorem unplaced_perm (perm : rows.entries.Perm (old ++ new.map (entryOf mix))) :
    (Hash.filter (unplaced mix) rows).entries.Perm
      (old.filter (fun entry => unplaced mix entry.1 entry.2) ++ new.map (entryOf mix)) := by
  have parts := perm.filter fun entry => unplaced mix entry.1 entry.2
  have selected : (new.map (entryOf mix)).filter (fun entry => unplaced mix entry.1 entry.2) = new.map (entryOf mix) :=
    List.filter_eq_self.mpr fun entry member => by
      obtain ⟨place, -, rfl⟩ := List.mem_map.mp member
      exact unplaced_iff.mpr ⟨rfl, rfl⟩
  rwa [List.filter_append, selected] at parts

theorem firstPlaces_old {listing : Listing} (columns : (old.map fun entry => lists entry.2).Perm listing) :
    (old.filter fun entry => unplaced mix entry.1 entry.2).length = firstPlaces mix listing := by
  rw [firstPlaces, ownRows, List.countP_filter, ← columns.countP_eq, List.countP_map, ← List.countP_eq_length_filter]
  refine List.countP_congr fun entry _ => ?_
  simp [unplaced_iff, lists, and_comm]

theorem unplaced_size {listing : Listing} (inserted : Inserted mix listing songs rows) :
    Hash.size (Hash.filter (unplaced mix) rows) = firstPlaces mix listing + (added mix listing songs).length := by
  obtain ⟨old, new, perm, columns, -, same⟩ := inserted
  rw [Hash.size, (unplaced_perm perm).length_eq, List.length_append, firstPlaces_old columns, List.length_map, ← same,
    List.length_map]

theorem reorder_pairs (t : Tables) :
    (Hash.columns lists (reorderAppend mix t).relMixSongs).map (fun row => (row.1, row.2.1)) =
      (Hash.columns lists t.relMixSongs).map fun row => (row.1, row.2.1) := by
  simp only [reorderAppend, Hash.columns, Hash.values, Hash.map, List.map_map]
  refine List.map_congr_left fun entry _ => ?_
  simp only [Function.comp_apply, lists]
  split_ifs <;> rfl

theorem newOrders_find (distinct : (new.map Prod.snd).Nodup)
    (perm : (Hash.filter (unplaced mix) rows).entries.Perm (new.map (entryOf mix))) (member : place ∈ new) :
    (newOrders mix rows).find? (·.1 = place.2) =
      some (place.2, maxOrder mix rows + rowNumber (new.map Prod.fst) place.1) := by
  have ids : ((Hash.filter (unplaced mix) rows).entries.map Sigma.fst).Perm (new.map Prod.fst) := by
    have same := perm.map Sigma.fst
    rwa [List.map_map] at same
  have orders : (newOrders mix rows).Perm
      (new.map fun place => (place.2, maxOrder mix rows + rowNumber (new.map Prod.fst) place.1)) := by
    rw [newOrders, rowNumber_perm ids]
    have same := perm.map fun entry : Sigma fun _ : Int => MixSongRow =>
      (entry.2.songId, maxOrder mix rows + (rowNumber (new.map Prod.fst) entry.1 : Int))
    rwa [List.map_map] at same
  obtain ⟨found, first⟩ : ∃ found, (newOrders mix rows).find? (·.1 = place.2) = some found :=
    Option.isSome_iff_exists.mp (List.find?_isSome.mpr
      ⟨_, orders.mem_iff.mpr (List.mem_map_of_mem member), decide_eq_true rfl⟩)
  obtain ⟨other, there, same⟩ := List.mem_map.mp (orders.mem_iff.mp (List.mem_of_find?_eq_some first))
  have alike : other.2 = place.2 := by
    rw [← same] at first
    simpa using List.find?_some first
  obtain rfl : other = place := List.inj_on_of_nodup_map distinct there member alike
  rw [first, same]

/-- In a mix without a row in the first place, the songs that were put in come
behind all others, in their order. -/
theorem reorder_places {listing : Listing} (inserted : Inserted mix listing songs t.relMixSongs)
    (ordered : Ordered mix listing) : ∃ last, (∀ row ∈ ownRows mix listing, row.2.2 ≤ last) ∧
      (Hash.columns lists (reorderAppend mix t).relMixSongs).Perm
        (listing ++ (added mix listing songs).zipIdx.map fun place => (mix, place.1, last + 1 + place.2)) := by
  obtain ⟨old, new, perm, columns, sorted, same⟩ := inserted
  have distinct : (new.map Prod.snd).Nodup := same ▸ List.nodup_dedup _
  have settled : ∀ entry ∈ old, unplaced mix entry.1 entry.2 = false := by
    intro entry member
    rw [Bool.eq_false_iff]
    intro first
    obtain ⟨own, start⟩ := unplaced_iff.mp first
    have listed := columns.mem_iff.mp (List.mem_map_of_mem member)
    exact ordered _ (mem_ownRows.mpr ⟨listed, own⟩) start
  have selected := unplaced_perm perm
  rw [List.filter_eq_nil_iff.mpr fun entry member => by simp [settled entry member], List.nil_append] at selected
  refine ⟨maxOrder mix t.relMixSongs, fun row member => ?_, ?_⟩
  · obtain ⟨listed, own⟩ := mem_ownRows.mp member
    obtain ⟨entry, there, rfl⟩ := List.mem_map.mp (columns.mem_iff.mpr listed)
    have stored := (Hash.lookup_eq_some_iff _ _ _).mpr (perm.mem_iff.mpr (List.mem_append_left _ there))
    exact le_maxOrder stored own
  · have written : (Hash.columns lists (reorderAppend mix t).relMixSongs) = t.relMixSongs.entries.map fun entry =>
        if unplaced mix entry.1 entry.2 then (entry.2.mixId, entry.2.songId,
          (((newOrders mix t.relMixSongs).find? (·.1 = entry.2.songId)).map Prod.snd).getD 0)
        else lists entry.2 := by
      simp only [reorderAppend, Hash.columns, Hash.values, Hash.map, List.map_map]
      refine List.map_congr_left fun entry _ => ?_
      simp only [Function.comp_apply, lists]
      split_ifs <;> rfl
    rw [written]
    refine (perm.map _).trans ?_
    rw [List.map_append]
    refine List.Perm.append ?_ (.of_eq ?_)
    · refine (List.Perm.of_eq (List.map_congr_left fun entry member => ?_)).trans columns
      rw [settled entry member]
      rfl
    · rw [← same, List.map_map]
      refine List.ext_getElem (by simp) fun index inside _ => ?_
      rw [List.length_map] at inside
      have first : unplaced mix (entryOf mix new[index]).1 (entryOf mix new[index]).2 = true :=
        unplaced_iff.mpr ⟨rfl, rfl⟩
      have found := newOrders_find distinct selected (List.getElem_mem inside)
      have number := rowNumber_getElem sorted (show index < (new.map Prod.fst).length by simpa using inside)
      rw [List.getElem_map] at number
      rw [number] at found
      rw [List.getElem_map, Function.comp_apply, if_pos first,
        show (entryOf mix new[index]).2.songId = new[index].2 from rfl, found, List.getElem_map, List.getElem_zipIdx,
        List.getElem_map]
      refine Prod.ext rfl (Prod.ext rfl ?_)
      change maxOrder mix t.relMixSongs + ((index + 1 : Nat) : Int) =
        maxOrder mix t.relMixSongs + 1 + ((0 + index : Nat) : Int)
      omega

/-- What holds of the rows of a mix: each song has one, as the index demands, no
two are in one place, and the mix has their number. -/
structure Fair (rows : Listing) (mix : Option Mix) : Prop where
  songs : (rows.map fun row => row.2.1).Nodup
  places : (rows.map fun row => row.2.2).Nodup
  count : ∀ row ∈ mix, row.trackCount = rows.length

theorem Fair.perm {listing other : Listing} {mix : Option Mix} (fair : Fair listing mix) (perm : other.Perm listing) :
    Fair other mix where
  songs := (perm.map _).nodup_iff.mpr fair.songs
  places := (perm.map _).nodup_iff.mpr fair.places
  count row found := by rw [fair.count row found, perm.length_eq]

def listing (t : Tables) : Listing := Hash.columns lists t.relMixSongs

/-- Every mix is fair. -/
def Kept (t : Tables) : Prop := ∀ mix, Fair (ownRows mix (listing t)) (t.mixes.lookup mix)

theorem updateTrackCount_listing (mix delta : Int) (t : Tables) :
    listing (updateTrackCount mix delta t) = listing t := by
  rw [updateTrackCount]
  split_ifs
  · rfl
  · split <;> rfl

theorem updateTrackCount_lookup (mix delta id : Int) (t : Tables) :
    (updateTrackCount mix delta t).mixes.lookup id = if id = mix
      then (t.mixes.lookup mix).map fun row => { row with trackCount := row.trackCount + delta }
      else t.mixes.lookup id := by
  rw [updateTrackCount]
  split_ifs with none here here
  · subst none here
    simp
  · rfl
  · subst here
    split
    · rename_i absent
      rw [absent]
      rfl
    · rename_i row found
      rw [Hash.lookup_put, if_pos rfl, found]
      rfl
  · split
    · rfl
    · rw [Hash.lookup_put, if_neg here]

/-! ## Appending -/

/-- The songs of an append come behind all others, in their order. -/
def Placed (t u : Tables) (mix : Int) (songs : List Int) : Prop :=
  ∃ last, (∀ row ∈ ownRows mix (listing t), row.2.2 ≤ last) ∧
    (listing u).Perm (listing t ++ (added mix (listing t) songs).zipIdx.map fun place =>
      (mix, place.1, last + 1 + place.2))

theorem appendSongs_ok (done : appendSongs mix songs t = .ok (u, count)) :
    ∃ middle, Inserted mix (listing t) songs middle.relMixSongs ∧ middle.mixes = t.mixes ∧
      count = firstPlaces mix (listing t) + (added mix (listing t) songs).length ∧
      u = updateTrackCount mix count (reorderAppend mix middle) := by
  obtain ⟨middle, put, rest⟩ := bind_ok.mp done
  obtain ⟨⟨rows, last, rfl⟩, inserted⟩ := insertSongs_inserted inserted_nothing put
  rw [List.nil_append] at inserted
  cases rest
  exact ⟨_, inserted, rfl, unplaced_size inserted, rfl⟩

theorem reorderAppend_mixes (mix : Int) (t : Tables) : (reorderAppend mix t).mixes = t.mixes := rfl

/-- Where no row is in the first place. -/
theorem appendSongs_places (ordered : Ordered mix (listing t))
    (done : appendSongs mix songs t = .ok (u, count)) : Placed t u mix songs := by
  obtain ⟨middle, inserted, -, -, rfl⟩ := appendSongs_ok done
  rw [Placed, updateTrackCount_listing]
  exact reorder_places inserted ordered

/-- The songs that are put in, each with its new place. -/
def places (last : Int) (songs : List Int) : List (Int × Int) :=
  songs.zipIdx.map fun place => (place.1, last + 1 + place.2)

theorem places_songs (last : Int) (songs : List Int) : (places last songs).map Prod.fst = songs := by
  rw [places, List.map_map]
  exact List.zipIdx_map_fst 0 songs

theorem places_nodup (last : Int) (songs : List Int) : ((places last songs).map Prod.snd).Nodup := by
  rw [places, List.map_map, show (Prod.snd ∘ fun place : Int × Nat => (place.1, last + 1 + place.2)) =
    (fun index : Nat => last + 1 + index) ∘ Prod.snd from rfl, ← List.map_map]
  exact (List.nodup_zipIdx_map_snd songs).map fun one other same => Int.natCast_inj.mp (by simpa using same)

theorem songs_of_places (mix : Int) (places : List (Int × Int)) :
    (places.map fun place => (mix, place)).map (fun row => row.2.1) = places.map Prod.fst := by
  rw [List.map_map]
  rfl

theorem orders_of_places (mix : Int) (places : List (Int × Int)) :
    (places.map fun place => (mix, place)).map (fun row => row.2.2) = places.map Prod.snd := by
  rw [List.map_map]
  rfl

theorem lt_of_mem_places {last : Int} (member : place ∈ places last songs) : last < place.2 := by
  obtain ⟨index, -, rfl⟩ := List.mem_map.mp member
  dsimp only
  omega

theorem Placed.own {songs : List Int} (placed : Placed t u mix songs) :
    ∃ last, (∀ row ∈ ownRows mix (listing t), row.2.2 ≤ last) ∧ (∀ id ≠ mix,
        (ownRows id (listing u)).Perm (ownRows id (listing t))) ∧
      (ownRows mix (listing u)).Perm (ownRows mix (listing t) ++
        (places last (added mix (listing t) songs)).map fun place => (mix, place)) := by
  obtain ⟨last, bound, perm⟩ := placed
  rw [show (fun place : Int × Nat => (mix, place.1, last + 1 + (place.2 : Int))) =
    (fun place => (mix, place)) ∘ fun place : Int × Nat => (place.1, last + 1 + (place.2 : Int)) from rfl,
    ← List.map_map, ← places] at perm
  refine ⟨last, bound, fun id apart => ?_, ?_⟩
  · have own : (ownRows id (listing u)).Perm (ownRows id _) := perm.filter _
    rwa [ownRows_append, ownRows_map_other _ apart, List.append_nil] at own
  · have own : (ownRows mix (listing u)).Perm (ownRows mix _) := perm.filter _
    rwa [ownRows_append, ownRows_map] at own

theorem Kept.append (kept : Kept t) (ordered : Ordered mix (listing t))
    (done : appendSongs mix songs t = .ok (u, count)) : Kept u := by
  obtain ⟨last, bound, others, own⟩ := (appendSongs_places ordered done).own
  obtain ⟨middle, -, mixes, counted, rfl⟩ := appendSongs_ok done
  rw [firstPlaces_eq_zero.mpr ordered, Nat.zero_add] at counted
  intro id
  rw [updateTrackCount_lookup, reorderAppend_mixes, mixes]
  by_cases here : id = mix
  · subst here
    rw [if_pos rfl]
    have before := kept id
    refine Fair.perm ⟨?_, ?_, fun row found => ?_⟩ own
    · rw [List.map_append, songs_of_places, places_songs]
      exact before.songs.append (List.nodup_dedup _) fun song there new => not_mem_of_mem_added new there
    · rw [List.map_append, orders_of_places]
      refine before.places.append (places_nodup last _) fun order there new => ?_
      obtain ⟨row, member, rfl⟩ := List.mem_map.mp there
      obtain ⟨place, later, same⟩ := List.mem_map.mp new
      have above := lt_of_mem_places later
      have below := bound row member
      omega
    · obtain ⟨old, there, rfl⟩ := Option.map_eq_some_iff.mp found
      rw [List.length_append, List.length_map, places, List.length_map, List.length_zipIdx, counted]
      have exact := before.count old there
      dsimp only
      omega
  · rw [if_neg here]
    exact (kept id).perm (others id here)

theorem own_length (id : Int) (listing : Listing) : (ownRows id listing).length =
    (listing.map fun row => (row.1, row.2.1)).countP fun row => row.1 = id := by
  rw [List.countP_map, List.countP_eq_length_filter]
  rfl

theorem Inserted.columns {listing : Listing} (inserted : Inserted mix listing songs rows) :
    (Hash.columns lists rows).Perm (listing ++ (added mix listing songs).map fun song => (mix, song, 0)) := by
  obtain ⟨old, new, perm, columns, -, same⟩ := inserted
  have written := perm.map fun entry : Sigma fun _ : Int => MixSongRow => lists entry.2
  rw [List.map_append, List.map_map] at written
  rw [Hash.columns, Hash.values, List.map_map, ← same, List.map_map]
  exact written.trans (columns.append_right _)

theorem ordered_of_counted (kept : Kept t) {row : Mix} (found : t.mixes.lookup mix = some row)
    (done : appendSongs mix songs t = .ok (u, count))
    (after : ∀ row, u.mixes.lookup mix = some row → row.trackCount = (ownRows mix (listing u)).length) :
    Ordered mix (listing t) := by
  obtain ⟨middle, inserted, mixes, counted, rfl⟩ := appendSongs_ok done
  have before := (kept mix).count row found
  have now := after { row with trackCount := row.trackCount + count } (by
    rw [updateTrackCount_lookup, reorderAppend_mixes, mixes, if_pos rfl, found]
    rfl)
  rw [updateTrackCount_listing, own_length, listing, reorder_pairs, ← own_length] at now
  have own : (ownRows mix (Hash.columns lists middle.relMixSongs)).Perm (ownRows mix _) := inserted.columns.filter _
  have whole := own.length_eq
  rw [show (fun song => (mix, song, (0 : Int))) = (fun place => (mix, place)) ∘ fun song => (song, (0 : Int)) from rfl,
    ← List.map_map, ownRows_append, ownRows_map, List.length_append, List.length_map, List.length_map] at whole
  dsimp only at now
  exact firstPlaces_eq_zero.mp (by omega)

theorem filter_listing (songs : List Int) : Hash.columns lists (Hash.filter (fun _ row =>
      !(row.mixId = mix && row.songId ∈ songs)) rows) =
    (Hash.columns lists rows).filter fun row => !(row.1 = mix && row.2.1 ∈ songs) :=
  Hash.columns_filter fun row : Int × (Int × Int) => !(row.1 = mix && row.2.1 ∈ songs)

theorem own_filter (songs : List Int) (listing : Listing) (id : Int) :
    ownRows id (listing.filter fun row => !(row.1 = mix && row.2.1 ∈ songs)) =
      if id = mix then (ownRows id listing).filter fun row => row.2.1 ∉ songs else ownRows id listing := by
  rw [ownRows, ownRows, List.filter_filter]
  split_ifs with here
  · subst here
    rw [List.filter_filter]
    refine List.filter_congr fun row _ => ?_
    by_cases own : row.1 = id <;> simp [own]
  · refine List.filter_congr fun row _ => ?_
    by_cases own : row.1 = id
    · simp [own, here]
    · simp [own]

theorem removed_size (mix : Int) (rows : Hash Int MixSongRow) (songs : List Int) : (Hash.filter (fun _ row =>
      !(row.mixId = mix && row.songId ∈ songs)) rows).size +
      ((ownRows mix (Hash.columns lists rows)).filter fun row => row.2.1 ∈ songs).length = Hash.size rows := by
  have kept : (Hash.filter (fun _ row => !(row.mixId = mix && row.songId ∈ songs)) rows).size =
      ((Hash.columns lists rows).filter fun row => !(row.1 = mix && row.2.1 ∈ songs)).length := by
    rw [← filter_listing, Hash.columns, Hash.values, List.map_map, List.length_map]
    rfl
  have whole : Hash.size rows = (Hash.columns lists rows).length := by
    rw [Hash.columns, Hash.values, List.map_map, List.length_map]
    rfl
  have parts := List.length_eq_length_filter_add (l := Hash.columns lists rows)
    fun row => !(row.1 = mix && row.2.1 ∈ songs)
  rw [kept, whole, parts, ownRows, List.filter_filter]
  congr 2
  refine List.filter_congr fun row _ => ?_
  simp [Bool.and_comm]

theorem Kept.remove (kept : Kept t) (mix : Int) (songs : List Int) : Kept (removeSongs mix songs t).1 := by
  have size := removed_size mix t.relMixSongs songs
  intro id
  rw [removeSongs]
  dsimp only
  rw [updateTrackCount_listing, updateTrackCount_lookup, listing]
  dsimp only
  rw [filter_listing, own_filter]
  by_cases here : id = mix
  · subst here
    rw [if_pos rfl, if_pos rfl]
    have before := kept id
    refine ⟨before.songs.sublist (List.filter_sublist.map _), before.places.sublist (List.filter_sublist.map _),
      fun row found => ?_⟩
    obtain ⟨old, there, rfl⟩ := Option.map_eq_some_iff.mp found
    have exact := before.count old there
    have parts := List.length_eq_length_filter_add (l := ownRows id (Hash.columns lists t.relMixSongs))
      fun row => row.2.1 ∈ songs
    simp only [← decide_not] at parts
    dsimp only
    rw [exact, listing]
    omega
  · rw [if_neg here, if_neg here]
    exact kept id

theorem placed_eq (songs : List Int) : placed songs = places (-1) songs := by
  refine List.map_congr_left fun place _ => ?_
  simp

theorem Kept.contents {provider : Int} {after : Tables × List Int} {entry : MixContents}
    (kept : Kept before.1) (done : writeContents provider before entry = .ok after) : Kept after.1 := by
  obtain ⟨remote, place, old, row, songs, rows, remotes, last, -, -, -, -, rfl, others, filled⟩ :=
    writeContents_settle done
  intro id
  rw [Hash.lookup_put]
  by_cases here : id = place
  · subst here
    rw [if_pos rfl]
    have own := filled.rows
    rw [placed_eq] at own
    refine Fair.perm ⟨?_, ?_, fun row' found => ?_⟩ own
    · rw [songs_of_places, places_songs]
      exact filled.listed.2
    · rw [orders_of_places]
      exact places_nodup _ songs
    · cases found
      rw [filled.count, List.length_map, places, List.length_map, List.length_zipIdx]
  · rw [if_neg here]
    exact (kept id).perm (others id here)

theorem Kept.allContents {provider : Int} {after : Tables × List Int} {entries : List MixContents}
    (kept : Kept before.1) (done : entries.foldlM (writeContents provider) before = .ok after) : Kept after.1 := by
  induction entries generalizing before with
  | nil =>
    cases done
    exact kept
  | cons entry entries ih =>
    obtain ⟨middle, first, later⟩ := bind_ok.mp done
    exact ih (kept.contents first) later

/-- An append meets no row of its mix in the first place. -/
def Careful (t : Tables) : Edit → Prop
  | .append mix _ => Ordered mix (listing t)
  | _ => True

theorem Kept.edited (kept : Kept t) {edit : Edit} (careful : Careful t edit) : Kept (edited t edit) := by
  cases edit with
  | append mix songs =>
    rw [MixSongs.edited]
    cases done : appendSongs mix songs t with
    | error fault => exact kept
    | ok result => exact kept.append careful done
  | remove mix songs => exact kept.remove mix songs
  | contents provider entries =>
    rw [MixSongs.edited]
    cases done : entries.foldlM (writeContents provider) (t, []) with
    | error fault => exact kept
    | ok result => exact kept.allContents done

/-- The states of the runs whose steps all meet `guard`. -/
abbrev Reached (guard : Tables → Edit → Prop) (first : Tables) : Tables → Prop :=
  Runs.Reach (· = first) guard fun t edit u => MixSongs.edited t edit = u

/-- Every mix has the count of its rows, and no two of them in one place. -/
structure Consistent (t : Tables) : Prop where
  counted (mix : Int) (row : Mix) : t.mixes.lookup mix = some row →
    row.trackCount = (ownRows mix (listing t)).length
  distinct (mix : Int) : ((ownRows mix (listing t)).map fun row => row.2.2).Nodup

theorem Kept.consistent (kept : Kept t) : Consistent t :=
  ⟨fun mix row found => (kept mix).count row found, fun mix => (kept mix).places⟩

/-- In every run in which each append meets no row of its mix in the first place,
the mixes are consistent, and what is appended comes behind all others.  Any other
append to a mix breaks its count. -/
theorem consistent_while_careful {first : Tables} (start : Kept first) (reached : Reached Careful first t) :
    Consistent t ∧ ∀ mix songs u count, appendSongs mix songs t = .ok (u, count) →
      (Careful t (.append mix songs) → Placed t u mix songs) ∧
      (∀ row, t.mixes.lookup mix = some row → (Consistent u ↔ Careful t (.append mix songs))) := by
  have kept : Kept t := by
    refine reached.invariant (fun s same => same ▸ start) fun s edit u held careful stepped => ?_
    exact stepped ▸ held.edited careful
  refine ⟨kept.consistent, fun mix songs u count done => ⟨fun careful => ?_, fun row found => ⟨fun after => ?_,
    fun careful => ?_⟩⟩⟩
  · exact appendSongs_places careful done
  · exact ordered_of_counted kept found done (after.counted mix)
  · exact (kept.append careful done).consistent

theorem kept_of_empty (none : listing t = []) (zero : ∀ entry ∈ t.mixes.entries, entry.2.trackCount = 0) : Kept t := by
  intro mix
  rw [none]
  refine ⟨List.nodup_nil, List.nodup_nil, fun row found => ?_⟩
  exact zero ⟨mix, row⟩ ((Hash.lookup_eq_some_iff _ _ _).mp found)

/-! A library with three songs and a mix of a provider. -/

def sampleKey (kind : ItemType) (name : String) : ItemRef := .key ⟨name, .set (some 1), kind, none⟩

def sampleSong (name : String) : SongInput :=
  ⟨sampleKey .song name, none,
    ⟨.set name, .missing, .missing, .missing, .missing, .missing, .missing, .missing, .missing, .missing⟩, .missing⟩

def sampleTables : Tables :=
  let writer : Writer := ⟨1, 50, none, .fresh, .ok (), .ok ()⟩
  let library := { SyncBatch.none with libraries := [⟨"library", "Music"⟩] }
  let batch := { SyncBatch.none with
    songs := [sampleSong "a", sampleSong "b", sampleSong "c"]
    remoteMixes := [⟨sampleKey .mix "mix", none, ⟨.set "Mix", .missing, .missing, .missing⟩⟩] }
  (syncBatch (fun _ => 0) writer batch (syncBatch (fun _ => 0) writer library (Tables.empty [1])).2).2

/-- The mix gets the first two songs. -/
def sampleContents : Edit := .contents 1 [⟨sampleKey .mix "mix", .replace, [sampleKey .song "a", sampleKey .song "b"]⟩]

theorem sample_kept : Kept sampleTables :=
  kept_of_empty (by decide +kernel) (by decide +kernel)

/-- What is shown of the tables: the songs of the mix with their places, and its count. -/
def shown (t : Tables) : Listing × List Int := (listing t, (Hash.values t.mixes).map Mix.trackCount)

/-- The first song is removed before another one is appended. -/
theorem careful_append_consistent : ∃ t, Consistent t ∧ shown t = ([(1, 2, 1), (1, 3, 2)], [2]) := by
  let filled := edited sampleTables sampleContents
  let fewer := edited filled (.remove 1 [1])
  have ordered : Careful fewer (.append 1 [3, 2]) := by
    have places : (ownRows 1 (listing fewer)).all (fun row => row.2.2 ≠ 0) = true := by decide +kernel
    exact fun row member => by simpa using List.all_eq_true.mp places row member
  have start : Reached Careful sampleTables sampleTables := .start rfl
  have written : Reached Careful sampleTables filled := start.next (a := sampleContents) trivial rfl
  have removed : Reached Careful sampleTables fewer := written.next (a := .remove 1 [1]) trivial rfl
  have reached : Reached Careful sampleTables (edited fewer (.append 1 [3, 2])) := removed.next ordered rfl
  exact ⟨_, (consistent_while_careful sample_kept reached).1, by decide +kernel⟩

/-- A provider writes two songs into its mix, and a third one is appended: the
mix has three songs and a count of four, and its first song is moved as well. -/
theorem contents_then_append_miscounts : ∃ t, Kept sampleTables ∧ Reached (fun _ _ => True) sampleTables t ∧
    shown t = ([(1, 3, 3), (1, 2, 1), (1, 1, 2)], [4]) ∧ ¬ Consistent t := by
  let filled := edited sampleTables sampleContents
  have result : shown (edited filled (.append 1 [3])) = ([(1, 3, 3), (1, 2, 1), (1, 1, 2)], [4]) := by decide +kernel
  have start : Reached (fun _ _ => True) sampleTables sampleTables := .start rfl
  have written : Reached (fun _ _ => True) sampleTables filled := start.next (a := sampleContents) trivial rfl
  have reached : Reached (fun _ _ => True) sampleTables (edited filled (.append 1 [3])) :=
    written.next (a := .append 1 [3]) trivial rfl
  refine ⟨_, sample_kept, reached, result, fun consistent => ?_⟩
  have one : ((edited filled (.append 1 [3])).mixes.lookup 1).map Mix.trackCount = some 4 := by decide +kernel
  obtain ⟨row, found, count⟩ := Option.map_eq_some_iff.mp one
  have rows : listing (edited filled (.append 1 [3])) = [(1, 3, 3), (1, 2, 1), (1, 1, 2)] := congrArg Prod.fst result
  have counted := consistent.counted 1 row found
  rw [count, rows] at counted
  revert counted
  decide

end Qcm.MixSongProofs
