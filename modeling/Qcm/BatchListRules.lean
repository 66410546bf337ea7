import Qcm.BatchLinkRules
import Qcm.Lib.Columns

/-!
Relations and the contents of mixes, written once and written again.  Their rows
get new ids when they are written again, so they are compared by their columns.
-/

namespace Qcm.BatchListRules

open Lib SyncDatabase SyncBatch BatchTables BatchWrites BatchRules BatchRepeatRules

variable {b t u x y : Tables} {provider now later : Int}

/-! Relations. -/

/-- Whom a row joins. -/
def joins (row : ArtistRelRow) : Int × Int := (row.owner, row.artistId)

/-- Whom the rows of a relation join. -/
def Relation.joined (relation : Relation) (t : Tables) : List (Int × Int) := Hash.columns joins (relation.rows t)

/-- Both ends of a relation are there. -/
def Keyed (relation : Relation) (t : Tables) (owner artist : Int) : Prop :=
  relation.owns t owner = true ∧ (t.artists.lookup artist).isSome

/-- A relation does not look for its ends in the table it writes. -/
structure Relation.Outward (relation : Relation) : Prop where
  lawful : Relation.Lawful relation
  keyed : ∀ t rows last owner artist, Keyed relation (relation.update t rows last) owner artist ↔
    Keyed relation t owner artist

theorem albumArtists_outward : Relation.Outward albumArtists := ⟨albumArtists_lawful, fun _ _ _ _ _ => Iff.rfl⟩

theorem songArtists_outward : Relation.Outward songArtists := ⟨songArtists_lawful, fun _ _ _ _ _ => Iff.rfl⟩

variable {entry : RelationInput} {before : Tables × List Int} {wanted : Int → Prop}

section Relations

variable {relation : Relation} {owner artist : Int}

variable {ids : List Int} {after : Tables × List Int} {entries : List RelationInput}

theorem find_relates_none (none : Hash.find (relates owner artist) (relation.rows t) = none) :
    (owner, artist) ∉ Relation.joined relation t := by
  intro member
  obtain ⟨id, row, stored, same⟩ := Hash.mem_columns.mp member
  have missed := Hash.find_none.mp none id row stored
  simp only [joins, Prod.mk.injEq] at same
  simp [relates, same] at missed

theorem find_relates_some {id : Int} {old : ArtistRelRow}
    (found : Hash.find (relates owner artist) (relation.rows t) = some (id, old)) :
    (owner, artist) ∈ Relation.joined relation t := by
  obtain ⟨stored, fits⟩ := Hash.find_some found
  simp only [relates, Bool.and_eq_true, decide_eq_true_eq] at fits
  exact Hash.mem_columns.mpr ⟨id, old, stored, by simp [joins, fits]⟩

theorem relate_keyed (done : relate relation now owner t artist = .ok u) :
    (owner, artist) ∈ Relation.joined relation t ∨ Keyed relation t owner artist := by
  simp only [relate] at done
  split at done
  · rename_i id old found
    exact .inl (find_relates_some found)
  · obtain ⟨there, -⟩ := unless_iff.mp done
    simp only [Bool.or_eq_true, Bool.not_eq_eq_eq_not, Bool.not_true, Option.isNone_iff_eq_none, not_or,
      Bool.not_eq_false] at there
    exact .inr ⟨there.1, Option.isSome_iff_ne_none.mpr there.2⟩

theorem relate_goes (now : Int)
    (held : (owner, artist) ∈ Relation.joined relation t ∨ Keyed relation t owner artist) :
    ∃ rows last, relate relation now owner t artist = .ok (relation.update t rows last) ∧
      Hash.columns joins rows = (Relation.joined relation t).insert (owner, artist) := by
  simp only [relate]
  cases found : Hash.find (relates owner artist) (relation.rows t) with
  | some entry =>
    obtain ⟨stored, -⟩ := Hash.find_some found
    refine ⟨_, _, rfl, ?_⟩
    rw [List.insert_of_mem (find_relates_some found)]
    exact Hash.columns_put_same stored rfl
  | none =>
    have new := find_relates_none found
    obtain ⟨owns, artist⟩ := held.resolve_left new
    refine ⟨_, _, if_neg (by simp [owns, Option.isSome_iff_ne_none.mp artist]), ?_⟩
    rw [List.insert_of_not_mem new, Hash.columns_put_new nextId_fresh]
    rfl

theorem relates_goes (outward : Relation.Outward relation) (now : Int)
    (held : ∀ artist ∈ ids, (owner, artist) ∈ Relation.joined relation t ∨ Keyed relation t owner artist) :
    ∃ rows last, ids.foldlM (relate relation now owner) t = .ok (relation.update t rows last) ∧
      Hash.columns joins rows = addRows owner ids (Relation.joined relation t) := by
  induction ids generalizing t with
  | nil => exact ⟨_, _, congrArg Except.ok (outward.lawful.update_self t).symm, rfl⟩
  | cons artist rest ih =>
    obtain ⟨rows, last, turned, written⟩ := relate_goes now (held artist (by simp))
    have joined : Relation.joined relation (relation.update t rows last) =
        (Relation.joined relation t).insert (owner, artist) := by
      rw [Relation.joined, outward.lawful.rows_update, written]
    have others : ∀ other ∈ rest, (owner, other) ∈ Relation.joined relation (relation.update t rows last) ∨
        Keyed relation (relation.update t rows last) owner other := fun other member => by
      rw [joined, outward.keyed]
      exact (held other (by simp [member])).imp_left List.mem_insert_of_mem
    obtain ⟨next, final, gone, added⟩ := ih others
    refine ⟨next, final, ?_, ?_⟩
    · rw [List.foldlM_cons, turned]
      rw [outward.lawful.update_update] at gone
      exact gone
    · rw [added, joined]
      rfl

theorem relates_keyed (outward : Relation.Outward relation) (distinct : ids.Nodup)
    (done : ids.foldlM (relate relation now owner) t = .ok u) :
    ∀ artist ∈ ids, (owner, artist) ∈ Relation.joined relation t ∨ Keyed relation t owner artist := by
  induction ids generalizing t with
  | nil => simp
  | cons artist rest ih =>
    obtain ⟨middle, turned, later⟩ := bind_ok.mp done
    obtain ⟨apart, distinct⟩ := List.nodup_cons.mp distinct
    have first := relate_keyed turned
    obtain ⟨rows, last, again, written⟩ := relate_goes now first
    rw [turned] at again
    cases again
    simp only [List.mem_cons, forall_eq_or_imp]
    refine ⟨first, fun other member => ?_⟩
    have away : other ≠ artist := fun same => apart (same ▸ member)
    have held := ih distinct later other member
    rw [Relation.joined, outward.lawful.rows_update, written, outward.keyed, List.mem_insert_iff] at held
    simpa [away] using held

/-- The rows an entry starts from. -/
def kept (mode : RelationMode) (owner : Int) (rows : List (Int × Int)) : List (Int × Int) :=
  match mode with
  | .merge => rows
  | .replace => otherRows owner rows

theorem joined_clearRelation (owner : Int) (outward : Relation.Outward relation) (mode : RelationMode) :
    Relation.joined relation (clearRelation relation mode owner t) = kept mode owner (Relation.joined relation t) ∧
      (∀ artist, Keyed relation (clearRelation relation mode owner t) owner artist ↔ Keyed relation t owner artist) := by
  cases mode with
  | merge => exact ⟨rfl, fun _ => Iff.rfl⟩
  | replace =>
    refine ⟨?_, fun artist => outward.keyed ..⟩
    simp only [Relation.joined, clearRelation, outward.lawful.rows_update]
    exact Hash.columns_filter fun pair : Int × Int => decide (pair.1 ≠ owner)

/-- The targets of an entry, found in the library of its owner. -/
def Targets (t : Tables) (provider : Int) (item : ItemRow) (targets : List ItemRef) (ids : List Int) : Prop :=
  Listed (fun target id => ∃ row, Named t provider [.artist] target id row ∧ row.libraryId = item.libraryId) targets ids

theorem Targets.grow {item next : ItemRow} {targets : List ItemRef} (grows : Grows t u)
    (same : identity next = identity item) (listed : Targets t provider item targets ids) :
    Targets u provider next targets ids := by
  refine ⟨listed.1.imp fun target id => ?_, listed.2⟩
  rintro ⟨row, named, shelf⟩
  obtain ⟨found, again, alike⟩ := grows.named named
  exact ⟨found, again, (identity_eq alike).2.1.trans (shelf.trans (identity_eq same).2.1.symm)⟩

/-- The relations of an owner are those of its entry, or at least those. -/
def Linked (relation : Relation) (t : Tables) (provider : Int) (entry : RelationInput) (owner : Int) : Prop :=
  ∃ item ids, Named t provider relation.kinds entry.owner owner item ∧ Targets t provider item entry.targets ids ∧
    (∀ artist ∈ ids, (owner, artist) ∈ Relation.joined relation t) ∧
    (entry.mode = .replace → (ownRows owner (Relation.joined relation t)).Perm (ids.map fun artist => (owner, artist)) ∧
      ∀ artist ∈ ids, Keyed relation t owner artist)

theorem Linked.carry (linked : Linked relation t provider entry owner) (still : Still t u)
    (same : ownRows owner (Relation.joined relation u) = ownRows owner (Relation.joined relation t))
    (keyed : ∀ artist, Keyed relation t owner artist → Keyed relation u owner artist) :
    Linked relation u provider entry owner := by
  obtain ⟨item, ids, named, listed, there, fresh⟩ := linked
  refine ⟨item, ids, still.named named, Targets.grow (.of_still still) rfl listed, fun artist member => ?_,
    fun replaced => ?_⟩
  · have own := mem_ownRows.mpr ⟨there artist member, rfl⟩
    rw [← same] at own
    exact (mem_ownRows.mp own).1
  · obtain ⟨rows, ends⟩ := fresh replaced
    exact ⟨same ▸ rows, fun artist member => keyed artist (ends artist member)⟩

theorem writeRelation_joined (outward : Relation.Outward relation)
    (done : writeRelation relation provider now before entry = .ok after) :
    ∃ owner rows last, owner ∉ before.2 ∧ after = (relation.update before.1 rows last, owner :: before.2) ∧
      Linked relation after.1 provider entry owner ∧ ∀ other, other ≠ owner →
        ownRows other (Relation.joined relation after.1) = ownRows other (Relation.joined relation before.1) := by
  obtain ⟨owner, item, ids, related, named, new, listed, loop, rfl⟩ := writeRelation_iff.mp done
  obtain ⟨start, ends⟩ : _ ∧ ∀ artist, _ := joined_clearRelation (t := before.1) owner outward entry.mode
  obtain ⟨first, sequence, shape⟩ : ∃ rows last,
    clearRelation relation entry.mode owner before.1 = relation.update before.1 rows last :=
      clearRelation_shape outward.lawful
  have held := relates_keyed outward listed.2 loop
  obtain ⟨rows, last, again, written⟩ := relates_goes outward now held
  rw [loop, shape, outward.lawful.update_update] at again
  cases again
  have joined : Relation.joined relation (relation.update before.1 rows last) =
      addRows owner ids (kept entry.mode owner (Relation.joined relation before.1)) := by
    rw [Relation.joined, outward.lawful.rows_update, written, start]
  have still : Still before.1 (relation.update before.1 rows last) := outward.lawful.still ..
  refine ⟨owner, rows, last, new, rfl, ⟨item, ids, still.named named, Targets.grow (.of_still still) rfl listed,
    fun artist member => ?_, fun replaced => ⟨?_, fun artist member => ?_⟩⟩, fun other apart => ?_⟩
  · rw [joined, mem_addRows]
    exact .inr ⟨artist, member, rfl⟩
  · rw [joined, replaced]
    exact ownRows_addRows listed.2
  · have away : (owner, artist) ∉ kept entry.mode owner (Relation.joined relation before.1) := by
      simp [replaced, kept, otherRows]
    exact (outward.keyed ..).mpr ((ends artist).mp ((held artist member).resolve_left (start ▸ away)))
  · rw [joined, ownRows_addRows_ne apart]
    cases entry.mode with
    | merge => rfl
    | replace => exact ownRows_otherRows_ne apart

theorem relations_settle (outward : Relation.Outward relation)
    (done : entries.foldlM (writeRelation relation provider now) (t, []) = .ok after) :
    ∃ owners, List.Forall₂ (Linked relation after.1 provider) entries owners ∧ owners.Nodup := by
  have settled := foldlM_settles (fun _ => True) (fun (state : Tables) entry owner => Linked relation state provider entry owner)
    done trivial ?_
  · obtain ⟨-, owners, each, distinct, -⟩ := settled
    exact ⟨owners, each, distinct⟩
  · intro state seen entry next _ turned
    obtain ⟨owner, rows, last, new, rfl, linked, others⟩ := writeRelation_joined outward turned
    refine ⟨owner, new, rfl, trivial, linked, fun other held apart settled => ?_⟩
    exact settled.carry (outward.lawful.still ..) (others held apart) fun artist keyed => (outward.keyed ..).mpr keyed

theorem relations_again (outward : Relation.Outward relation) (later : Int) {owners : List Int}
    (each : List.Forall₂ (Linked relation b provider) entries owners) (distinct : owners.Nodup)
    (grows : Grows b x) (same : (Relation.joined relation x).Perm (Relation.joined relation b))
    (keyed : ∀ owner artist, Keyed relation b owner artist → Keyed relation x owner artist) :
    ∃ after, entries.foldlM (writeRelation relation provider later) (x, []) = .ok after ∧
      ∃ rows last, after.1 = relation.update x rows last ∧
        (Hash.columns joins rows).Perm (Relation.joined relation b) := by
  have fresh : ∀ owner ∈ owners, owner ∉ ([] : List Int) := by simp
  have goes := foldlM_again (writeRelation relation provider later)
    (fun _ state => ∃ rows last, state = relation.update x rows last ∧
      (Hash.columns joins rows).Perm (Relation.joined relation b)) each distinct fresh
    ⟨_, _, (outward.lawful.update_self x).symm, same⟩ ?_
  · obtain ⟨after, gone, final⟩ := goes
    exact ⟨_, gone, final⟩
  · rintro state seen entry owner ⟨item, ids, named, listed, there, ends⟩ new ⟨rows, last, rfl, perm⟩
    have grown : Grows b (relation.update x rows last) := grows.trans (.of_still (outward.lawful.still ..))
    obtain ⟨next, again, alike⟩ := grown.named named
    have joined : Relation.joined relation (relation.update x rows last) = Hash.columns joins rows := by
      rw [Relation.joined, outward.lawful.rows_update]
    obtain ⟨start, keys⟩ := joined_clearRelation (t := relation.update x rows last) owner outward entry.mode
    rw [joined] at start
    have held : ∀ artist ∈ ids,
        (owner, artist) ∈ Relation.joined relation (clearRelation relation entry.mode owner (relation.update x rows last)) ∨
          Keyed relation (clearRelation relation entry.mode owner (relation.update x rows last)) owner artist := by
      intro artist member
      rw [start, keys]
      cases mode : entry.mode with
      | merge => exact .inl (perm.mem_iff.mpr (there artist member))
      | replace => exact .inr ((outward.keyed ..).mpr (keyed owner artist ((ends mode).2 artist member)))
    obtain ⟨after, final, gone, added⟩ := relates_goes outward later held
    obtain ⟨first, sequence, shape⟩ : ∃ first sequence,
      clearRelation relation entry.mode owner (relation.update x rows last) =
        relation.update (relation.update x rows last) first sequence := clearRelation_shape outward.lawful
    refine ⟨_, writeRelation_iff.mpr ⟨owner, next, ids, _, again, new, Targets.grow grown alike listed, gone, rfl⟩,
      after, final, ?_, ?_⟩
    · rw [shape, outward.lawful.update_update, outward.lawful.update_update]
    · rw [added, start]
      cases mode : entry.mode with
      | merge =>
        have present : ∀ artist ∈ ids, (owner, artist) ∈ Hash.columns joins rows := fun artist member =>
          perm.mem_iff.mpr (there artist member)
        rw [kept, addRows_there present]
        exact perm
      | replace => exact (addRows_otherRows listed.2).trans (perm_rewritten perm (ends mode).1)

end Relations

/-! The contents of mixes. -/

/-- The song and the place a row gives a mix. -/
def lists (row : MixSongRow) : Int × (Int × Int) := (row.mixId, row.songId, row.orderIdx)

/-- The songs of a mix, each at its place. -/
def placed (songs : List Int) : List (Int × Int) := songs.zipIdx.map fun song => (song.1, (song.2 : Int))

section Contents

variable {mix : Int}

variable {members : List (Int × Nat)} {songs : List Int} {remote id : Int} {row : Mix} {awaits : Int → Prop}
  {first second : Hash Int Mix} {after : Tables × List Int} {entries : List MixContents}

theorem insertMembers_ok (done : members.foldlM (insertMember mix) t = .ok u) :
    (∀ member ∈ members, (t.songs.lookup member.1).isSome) ∧
      ∃ rows last, u = { t with relMixSongs := rows, sequence := { t.sequence with relMixSong := last } } ∧
        (Hash.columns lists rows).Perm
          ((members.map fun member => (mix, member.1, (member.2 : Int))) ++ Hash.columns lists t.relMixSongs) := by
  induction members generalizing t with
  | nil =>
    cases done
    exact ⟨by simp, _, _, rfl, .refl _⟩
  | cons member rest ih =>
    obtain ⟨middle, turned, later⟩ := bind_ok.mp done
    obtain ⟨there, same⟩ := unless_iff.mp turned
    cases same
    obtain ⟨others, rows, last, rfl, perm⟩ := ih later
    simp only [List.mem_cons, forall_eq_or_imp]
    refine ⟨⟨Option.isSome_iff_ne_none.mpr (by simpa using there), others⟩, rows, last, rfl, perm.trans ?_⟩
    dsimp only
    rw [Hash.columns_put_new nextId_fresh]
    exact List.perm_middle

theorem insertMembers_goes (there : ∀ member ∈ members, (t.songs.lookup member.1).isSome) :
    ∃ u, members.foldlM (insertMember mix) t = .ok u := by
  induction members generalizing t with
  | nil => exact ⟨t, rfl⟩
  | cons member rest ih =>
    have present : ¬(t.songs.lookup member.1).isNone = true := by
      simpa using Option.isSome_iff_ne_none.mp (there member (by simp))
    obtain ⟨u, gone⟩ := ih (t := { t with
      relMixSongs := Hash.put (nextId t.sequence.relMixSong t.relMixSongs) ⟨mix, member.1, member.2⟩ t.relMixSongs
      sequence := { t.sequence with relMixSong := nextId t.sequence.relMixSong t.relMixSongs } })
      fun other later => there other (by simp [later])
    exact ⟨u, bind_ok.mpr ⟨_, unless_iff.mpr ⟨present, rfl⟩, gone⟩⟩

theorem fillMix_ok (done : fillMix mix songs t = .ok u) : (∀ song ∈ songs, (t.songs.lookup song).isSome) ∧
      ∃ rows last, u = { t with relMixSongs := rows, sequence := { t.sequence with relMixSong := last } } ∧
        (Hash.columns lists rows).Perm
          (((placed songs).map fun song => (mix, song)) ++ otherRows mix (Hash.columns lists t.relMixSongs)) := by
  obtain ⟨there, rows, last, rfl, perm⟩ := insertMembers_ok done
  refine ⟨fun song member => ?_, rows, last, rfl, ?_⟩
  · rw [← List.zipIdx_map_fst 0 songs] at member
    obtain ⟨place, held, rfl⟩ := List.mem_map.mp member
    exact there place held
  · have dropped : Hash.columns lists (Hash.filter (fun _ row => row.mixId ≠ mix) t.relMixSongs) =
        otherRows mix (Hash.columns lists t.relMixSongs) :=
      Hash.columns_filter fun row : Int × (Int × Int) => decide (row.1 ≠ mix)
    rw [placed, List.map_map]
    exact perm.trans (.append_left _ (.of_eq dropped))

theorem fillMix_goes (mix : Int) (there : ∀ song ∈ songs, (t.songs.lookup song).isSome) :
    ∃ u, fillMix mix songs t = .ok u :=
  insertMembers_goes fun member held => there member.1 (List.fst_mem_of_mem_zipIdx held)

theorem countMix_iff {count : Nat} : countMix remote id row count t = .ok u ↔
    ∃ old, t.remoteMixes.lookup remote = some old ∧ u = { t with
      remoteMixes := Hash.put remote { old with trackCount := count } t.remoteMixes
      mixes := Hash.put id { row with trackCount := count } t.mixes } := by
  simp only [countMix]
  cases t.remoteMixes.lookup remote with
  | none => simp
  | some old => simp [eq_comm]

/-- A remote mix has the contents of its entry. -/
structure Filled (t : Tables) (provider : Int) (entry : MixContents) (remote id : Int) (row : Mix) (songs : List Int) :
    Prop where
  mode : entry.mode = .replace
  names : Names t provider [.mix, .radio] entry.mix remote
  found : Hash.find (ofRemote remote) t.mixes = some (id, row)
  listed : Listed (fun song id => Names t provider [.song] song id) entry.songs songs
  there : ∀ song ∈ songs, (t.songs.lookup song).isSome
  count : row.trackCount = songs.length
  counted : ∃ old, t.remoteMixes.lookup remote = some old ∧ old.trackCount = songs.length
  rows : (ownRows id (Hash.columns lists t.relMixSongs)).Perm ((placed songs).map fun song => (id, song))

theorem Remixed.put {first second : Hash Int RemoteMix} {old value : RemoteMix}
    (remixed : Remixed awaits first second) (there : second.lookup remote = some old)
    (same : uncountedRemote value = uncountedRemote old) (more : ∀ id, awaits id → wanted id)
    (own : wanted remote) : Remixed wanted first (Hash.put remote value second) where
  alike := remixed.alike.trans (.put there same)
  counts other kept := by
    have apart : other ≠ remote := fun same => kept (same ▸ own)
    rw [Hash.lookup_put, if_neg apart, remixed.counts other fun held => kept (more other held)]

theorem Mixed.found_back (mixed : Mixed awaits first second)
    (found : Hash.find (ofRemote remote) second = some (id, row)) :
    ∃ old, Hash.find (ofRemote remote) first = some (id, old) ∧ uncounted row = uncounted old := by
  cases searched : Hash.find (ofRemote remote) first with
  | some entry =>
    obtain ⟨next, hit, near⟩ := mixed.found remote entry.1 entry.2 searched
    rw [found] at hit
    cases hit
    exact ⟨_, rfl, near⟩
  | none =>
    obtain ⟨stored, fits⟩ := Hash.find_some found
    have kept := mixed.alike id
    rw [stored] at kept
    obtain ⟨old, there, alike⟩ := Option.map_eq_some_iff.mp kept.symm
    have own : old.remoteId = some remote := (uncounted_remote alike).trans (ofRemote_iff.mp fits)
    have missed := Hash.find_none.mp searched id old there
    simp [ofRemote, own] at missed

theorem Mixed.same (mixed : Mixed awaits first second) (settled : ∀ remote, ¬awaits remote) :
    Same first second := by
  intro id
  have alike := mixed.alike id
  cases was : first.lookup id with
  | none => simpa [was] using alike
  | some row =>
    rw [was] at alike
    obtain ⟨next, now, -⟩ := Option.map_eq_some_iff.mp alike
    rw [now, mixed.counts id row next was now fun remote _ => settled remote]

theorem Mixed.count {old value : Mix} (mixed : Mixed awaits first second)
    (found : Hash.find (ofRemote remote) second = some (id, old)) (same : uncounted value = uncounted old)
    (more : ∀ id, awaits id → wanted id) (own : wanted remote) : Mixed wanted first (Hash.put id value second) := by
  obtain ⟨row, was, alike⟩ := Mixed.found_back mixed found
  have weaker : Mixed wanted first second :=
    ⟨mixed.alike, mixed.found, fun id row next was now kept =>
      mixed.counts id row next was now fun held hit awaited => kept held hit (more held awaited)⟩
  refine weaker.put (Hash.find_some was).1 (same.trans alike) fun kept => ?_
  exact absurd own (kept remote was)

theorem writeContents_settle {entry : MixContents}
    (done : writeContents provider before entry = .ok after) :
    ∃ remote id old row songs rows remotes last, remote ∉ before.2 ∧
      Hash.find (ofRemote remote) before.1.mixes = some (id, old) ∧ uncounted row = uncounted old ∧
      (∃ held value, before.1.remoteMixes.lookup remote = some held ∧ uncountedRemote value = uncountedRemote held ∧
        remotes = Hash.put remote value before.1.remoteMixes) ∧
      after = ({ before.1 with
        relMixSongs := rows, remoteMixes := remotes, mixes := Hash.put id row before.1.mixes
        sequence := { before.1.sequence with relMixSong := last } }, remote :: before.2) ∧
      (∀ other, other ≠ id → (ownRows other (Hash.columns lists rows)).Perm
        (ownRows other (Hash.columns lists before.1.relMixSongs))) ∧
      Filled after.1 provider entry remote id row songs := by
  obtain ⟨mode, remote, item, id, old, songs, filled, counted, named, new, found, listed, fills, counts, rfl⟩ :=
    writeContents_iff.mp done
  obtain ⟨there, rows, last, rfl, perm⟩ := fillMix_ok fills
  obtain ⟨held, stored, rfl⟩ := countMix_iff.mp counts
  have still : Still before.1 { before.1 with
      relMixSongs := rows
      remoteMixes := Hash.put remote { held with trackCount := songs.length } before.1.remoteMixes
      mixes := Hash.put id { old with trackCount := songs.length } before.1.mixes
      sequence := { before.1.sequence with relMixSong := last } } := ⟨rfl, rfl, rfl⟩
  refine ⟨remote, id, old, { old with trackCount := songs.length }, songs, rows,
    Hash.put remote { held with trackCount := songs.length } before.1.remoteMixes, last, new, found, rfl,
    ⟨held, { held with trackCount := songs.length }, stored, rfl, rfl⟩, rfl, fun other apart => ?_, mode, ⟨item, still.named named⟩,
    Hash.find_put_found found (Hash.find_some found).2, ⟨listed.1.imp fun song id => ?_, listed.2⟩, there, rfl,
    ⟨{ held with trackCount := songs.length }, ?_, rfl⟩, ?_⟩
  · have own : (ownRows other (Hash.columns lists rows)).Perm (ownRows other
        (((placed songs).map fun song => (id, song)) ++ otherRows id (Hash.columns lists before.1.relMixSongs))) :=
      perm.filter _
    rwa [ownRows_rewritten_ne _ apart] at own
  · rintro ⟨row, named⟩
    exact ⟨row, still.named named⟩
  · rw [Hash.lookup_put, if_pos rfl]
  · have own : (ownRows id (Hash.columns lists rows)).Perm (ownRows id (((placed songs).map fun song => (id, song)) ++
        otherRows id (Hash.columns lists before.1.relMixSongs))) := perm.filter _
    rwa [ownRows_rewritten] at own

theorem Filled.carry {entry : MixContents} {other place : Int} {old next : Mix} {rows : Hash Int MixSongRow}
    {remotes : Hash Int RemoteMix} {last : Int} (filled : Filled t provider entry other place row songs)
    (apart : other ≠ remote) (found : Hash.find (ofRemote remote) t.mixes = some (id, old))
    (same : uncounted next = uncounted old) (kept : remotes.lookup other = t.remoteMixes.lookup other)
    (perm : ∀ other, other ≠ id →
      (ownRows other (Hash.columns lists rows)).Perm (ownRows other (Hash.columns lists t.relMixSongs))) :
    Filled { t with
      relMixSongs := rows, remoteMixes := remotes, mixes := Hash.put id next t.mixes
      sequence := { t.sequence with relMixSong := last } } provider entry other place row songs := by
  obtain ⟨stored, fits⟩ := Hash.find_some found
  have own := ofRemote_iff.mp fits
  have away : place ≠ id := by
    rintro rfl
    obtain ⟨there, hit⟩ := Hash.find_some filled.found
    rw [stored] at there
    cases there
    exact apart (Option.some.inj ((ofRemote_iff.mp hit).symm.trans own))
  have still : Still t { t with
      relMixSongs := rows, remoteMixes := remotes, mixes := Hash.put id next t.mixes
      sequence := { t.sequence with relMixSong := last } } := ⟨rfl, rfl, rfl⟩
  refine ⟨filled.mode, filled.names.grow (.of_still still), find_other ((uncounted_remote same).trans own) ?_ apart
    filled.found, ⟨filled.listed.1.imp fun _ _ names => names.grow (.of_still still), filled.listed.2⟩, filled.there,
    filled.count, ?_, (perm place away).trans filled.rows⟩
  · intro held there
    rw [stored] at there
    cases there
    exact own
  · obtain ⟨held, there, count⟩ := filled.counted
    exact ⟨held, kept.trans there, count⟩

theorem contents_settle (done : entries.foldlM (writeContents provider) (t, []) = .ok after) :
    ∃ remotes, List.Forall₂ (fun entry remote => ∃ id row songs, Filled after.1 provider entry remote id row songs)
        entries remotes ∧ remotes.Nodup ∧ Still t after.1 ∧
      Remixed (fun id => id ∈ remotes) t.remoteMixes after.1.remoteMixes ∧
      Mixed (fun id => id ∈ remotes) t.mixes after.1.mixes := by
  have settled := foldlM_settles (fun state : Tables × List Int => Still t state.1 ∧
      Remixed (fun id => id ∈ state.2) t.remoteMixes state.1.remoteMixes ∧
      Mixed (fun id => id ∈ state.2) t.mixes state.1.mixes)
    (fun (state : Tables) entry remote => ∃ id row songs, Filled state provider entry remote id row songs) done
    ⟨.refl, ⟨.refl, fun _ _ => rfl⟩, .refl⟩ ?_
  · obtain ⟨⟨still, remixed, mixed⟩, remotes, each, distinct, noted, -⟩ := settled
    simp only [noted, List.append_nil, List.mem_reverse] at remixed mixed
    exact ⟨remotes, each, distinct, still, remixed, mixed⟩
  · rintro state seen entry next ⟨still, remixed, mixed⟩ turned
    obtain ⟨remote, id, old, row, songs, rows, _, last, new, found, same, ⟨held, value, stored, alike, rfl⟩, rfl, perm,
      filled⟩ := writeContents_settle turned
    refine ⟨remote, new, rfl, ⟨still.trans ⟨rfl, rfl, rfl⟩, ?_, ?_⟩, ⟨id, row, songs, filled⟩,
      fun other held apart settled => ?_⟩
    · exact Remixed.put remixed stored alike (fun id member => .tail _ member) (by simp)
    · exact Mixed.count mixed found same (fun id member => .tail _ member) (by simp)
    · obtain ⟨place, own, members, settled⟩ := settled
      exact ⟨place, own, members, settled.carry apart found same (by simp [apart]) perm⟩

theorem counted_mix {current : Mix} {count : Int} (near : uncounted current = uncounted row)
    (same : row.trackCount = count) : { current with trackCount := count } = row := by
  simp only [uncounted, Mix.mk.injEq, true_and] at near
  simp [← same, near]

theorem counted_remote {held old : RemoteMix} {count : Int} (near : uncountedRemote held = uncountedRemote old)
    (same : old.trackCount = count) : { held with trackCount := count } = old := by
  simp only [uncountedRemote, RemoteMix.mk.injEq, true_and] at near
  simp [← same, near]

theorem contents_again {remotes : List Int}
    (each : List.Forall₂ (fun entry remote => ∃ id row songs, Filled b provider entry remote id row songs) entries remotes)
    (distinct : remotes.Nodup) (grows : Grows b x) (songs : Same b.songs x.songs)
    (remixed : Remixed (fun id => id ∈ remotes) b.remoteMixes x.remoteMixes)
    (mixed : Mixed (fun id => id ∈ remotes) b.mixes x.mixes)
    (same : (Hash.columns lists x.relMixSongs).Perm (Hash.columns lists b.relMixSongs)) :
    ∃ after, entries.foldlM (writeContents provider) (x, []) = .ok after ∧
      ∃ rows others mixes last, after.1 = { x with
        relMixSongs := rows, remoteMixes := others, mixes := mixes
        sequence := { x.sequence with relMixSong := last } } ∧
        (Hash.columns lists rows).Perm (Hash.columns lists b.relMixSongs) ∧ Same b.remoteMixes others ∧
        Same b.mixes mixes := by
  have fresh : ∀ remote ∈ remotes, remote ∉ ([] : List Int) := by simp
  have goes := foldlM_again (writeContents provider)
    (fun seen (state : Tables) => ∃ rows others mixes last, state = { x with
        relMixSongs := rows, remoteMixes := others, mixes := mixes
        sequence := { x.sequence with relMixSong := last } } ∧
        (Hash.columns lists rows).Perm (Hash.columns lists b.relMixSongs) ∧
        Remixed (fun id => id ∈ remotes ∧ id ∉ seen) b.remoteMixes others ∧
        Mixed (fun id => id ∈ remotes ∧ id ∉ seen) b.mixes mixes)
    each distinct fresh ⟨x.relMixSongs, x.remoteMixes, x.mixes, x.sequence.relMixSong, rfl, same, by simpa, by simpa⟩ ?_
  · obtain ⟨after, gone, rows, others, mixes, last, rfl, perm, remixed, mixed⟩ := goes
    simp only [List.append_nil, List.mem_reverse, and_not_self] at remixed mixed
    exact ⟨_, gone, rows, others, mixes, last, rfl, perm, fun id => remixed.counts id not_false,
      Mixed.same mixed fun _ => not_false⟩
  · rintro state seen entry remote ⟨id, row, members, filled⟩ new ⟨rows, others, mixes, last, rfl, perm, remixed, mixed⟩
    have grown : Grows b { x with
        relMixSongs := rows, remoteMixes := others, mixes := mixes
        sequence := { x.sequence with relMixSong := last } } := grows.trans (.of_still ⟨rfl, rfl, rfl⟩)
    obtain ⟨item, named⟩ := filled.names.grow grown
    obtain ⟨current, hit, near⟩ := mixed.found remote id row filled.found
    obtain ⟨old, was, count⟩ := filled.counted
    have kept := remixed.alike remote
    rw [was] at kept
    obtain ⟨held, stored, alike⟩ := Option.map_eq_some_iff.mp kept
    have present : ∀ song ∈ members, (x.songs.lookup song).isSome := fun song member => by
      rw [songs song]
      exact filled.there song member
    obtain ⟨u, fills⟩ := fillMix_goes id (t := { x with
        relMixSongs := rows, remoteMixes := others, mixes := mixes
        sequence := { x.sequence with relMixSong := last } }) present
    obtain ⟨-, written, final, rfl, added⟩ := fillMix_ok fills
    refine ⟨_, writeContents_iff.mpr ⟨filled.mode, remote, item, id, current, members, _, _, named, new, hit,
      ⟨filled.listed.1.imp fun _ _ names => names.grow grown, filled.listed.2⟩, fills,
      countMix_iff.mpr ⟨held, stored, rfl⟩, rfl⟩, _, _, _, _, rfl, added.trans (perm_rewritten perm filled.rows), ?_, ?_⟩
    · refine ⟨remixed.alike.trans (.put stored rfl), fun other kept => ?_⟩
      rw [Hash.lookup_put]
      split
      · rename_i here
        rw [here, was, counted_remote alike count]
      · rename_i apart
        exact remixed.counts other fun ⟨member, away⟩ => kept ⟨member, by simp [apart, away]⟩
    · have value : { current with trackCount := (members.length : Int) } = row := counted_mix near filled.count
      have place := (Hash.find_some filled.found).1
      have put : Mixed (fun id => id ∈ remotes ∧ id ∉ seen) b.mixes
          (Hash.put id { current with trackCount := members.length } mixes) :=
        mixed.put place (congrArg uncounted value) fun _ => value
      refine ⟨put.alike, put.found, fun other was next stands now kept => ?_⟩
      rw [Hash.lookup_put] at now
      split at now
      · rename_i here
        subst here
        rw [place] at stands
        cases stands
        exact (Option.some.inj now).symm.trans value
      · rename_i apart
        refine mixed.counts other was next stands now fun held searched ⟨member, away⟩ => kept held searched ⟨member, ?_⟩
        have apart' : held ≠ remote := by
          rintro rfl
          rw [filled.found] at searched
          cases searched
          exact apart rfl
        simp [apart', away]

end Contents

end Qcm.BatchListRules
