import Qcm.CacheRuns

/-!
The leases of published files stay within their budget: there are at most
`maxLeases`, and the versions they are of, each counted once, are together no
longer than half the capacity and 512 MiB.

A grant adds up the files of the other leased versions.  That a file that counts
as published is as long as its version makes this the length of the versions.
-/

namespace Qcm.CacheBudgetProofs

open Lib Lib.Act ResourceFormat CacheState CacheDisk CacheLoad CacheStore
  CacheObjects CacheFiles CacheEvents CacheRules CacheSettle CachePurge CacheSound
  CacheChange CacheSteps

/-- The versions with a lease. -/
def leasedIds (tables : Tables) : Finset Nat := (tables.fileLeases.values.map LeaseRow.version).toFinset

/-- The length of a version that is there. -/
def lengthOf (tables : Tables) (id : Nat) : Option Nat :=
  (tables.versions.lookup id).map fun row => row.metadata.geometry.length

/-- What the versions with a lease come to, each counted once. -/
def leasedBytes (tables : Tables) : Nat := ∑ id ∈ leasedIds tables, (lengthOf tables id).getD 0

def leaseBudget (capacity : Nat) : Nat := min (capacity / 2) (512 * 1024 * 1024)

structure Budgeted (capacity : Nat) (s : Storage) : Prop where
  count : s.tables.fileLeases.size ≤ maxLeases
  bytes : leasedBytes s.tables ≤ leaseBudget capacity
  /-- No lease is left of a version that is gone. -/
  stored : ∀ token lease, s.tables.fileLeases.lookup token = some lease →
    (s.tables.versions.lookup lease.version).isSome

/-- The length of the published file of a version. -/
def publishedLength (tables : Tables) (id : Nat) : Option Nat :=
  ((tables.completeFiles.lookup id).filter CompleteRow.ready).map CompleteRow.length

variable {tables before after : Tables} {id budget : Nat} {s t : Storage}

theorem mem_leasedIds :
    id ∈ leasedIds tables ↔ ∃ token lease, tables.fileLeases.lookup token = some lease ∧ lease.version = id := by
  simp only [leasedIds, Hash.values, List.mem_toFinset, List.mem_map, Hash.lookup_eq_some_iff]
  constructor
  · rintro ⟨_, ⟨entry, member, rfl⟩, same⟩
    exact ⟨entry.1, entry.2, member, same⟩
  · rintro ⟨token, lease, member, same⟩
    exact ⟨lease, ⟨⟨token, lease⟩, member, rfl⟩, same⟩

theorem protectedBytes_eq (id : Nat) : protectedBytes id tables =
      ∑ other ∈ (leasedIds tables).erase id, ((tables.completeFiles.lookup other).map CompleteRow.length).getD 0 := by
  let entries := tables.completeFiles.entries.filter fun entry =>
    tables.fileLeases.any fun _ lease => lease.version == entry.1 && lease.version != id
  have distinct : (entries.map Sigma.fst).Nodup := (List.filter_sublist.map _).nodup tables.completeFiles.keys_nodup
  have inside : (entries.map Sigma.fst).toFinset ⊆ (leasedIds tables).erase id := by
    intro other member
    obtain ⟨entry, counted, rfl⟩ := List.mem_map.mp (List.mem_toFinset.mp member)
    obtain ⟨token, lease, granted, same⟩ := Hash.any_iff.mp (List.mem_filter.mp counted).2
    simp only [Bool.and_eq_true, beq_iff_eq, bne_iff_ne] at same
    exact Finset.mem_erase.mpr ⟨same.1 ▸ same.2, mem_leasedIds.mpr ⟨token, lease, granted, same.1⟩⟩
  have length (entry : (_ : Nat) × CompleteRow) (counted : entry ∈ entries) :
      ((tables.completeFiles.lookup entry.1).map CompleteRow.length).getD 0 = entry.2.length := by
    rw [(Hash.lookup_eq_some_iff ..).mpr (List.mem_of_mem_filter counted)]
    rfl
  -- a leased version without a file adds nothing
  rw [← Finset.sum_subset inside fun other leased missing => ?_, List.sum_toFinset _ distinct, List.map_map]
  · exact congrArg List.sum (List.map_congr_left fun entry counted => (length entry counted).symm)
  · cases found : tables.completeFiles.lookup other with
    | none => rfl
    | some row =>
      obtain ⟨apart, leased⟩ := Finset.mem_erase.mp leased
      obtain ⟨token, lease, granted, rfl⟩ := mem_leasedIds.mp leased
      have counted : ⟨lease.version, row⟩ ∈ entries :=
        List.mem_filter.mpr ⟨(Hash.lookup_eq_some_iff ..).mp found, Hash.any_iff.mpr ⟨token, lease, granted, by simp [apart]⟩⟩
      exact absurd (List.mem_toFinset.mpr (List.mem_map_of_mem counted)) missing

/-- The leases and the published files fit to the versions. -/
structure Fits (budget : Nat) (tables : Tables) : Prop where
  count : tables.fileLeases.size ≤ maxLeases
  published : ∀ id ∈ leasedIds tables, (publishedLength tables id).isSome
  whole : ∀ id length, publishedLength tables id = some length → lengthOf tables id = some length
  bytes : leasedBytes tables ≤ budget

/-- No lease is granted, no file published, and what has a lease stays. -/
structure Eases (before after : Tables) : Prop where
  count : after.fileLeases.size ≤ before.fileLeases.size
  leases : leasedIds after ⊆ leasedIds before
  published : ∀ id length, publishedLength after id = some length → publishedLength before id = some length
  kept : ∀ id ∈ leasedIds after, publishedLength after id = publishedLength before id
  lengths : ∀ id length, publishedLength after id = some length → lengthOf before id = some length →
    lengthOf after id = some length

theorem Fits.ease (fits : Fits budget before) (eases : Eases before after) : Fits budget after := by
  have whole (id length : Nat) (there : publishedLength after id = some length) : lengthOf after id = some length :=
    eases.lengths id length there (fits.whole id length (eases.published id length there))
  have published (id : Nat) (leased : id ∈ leasedIds after) : (publishedLength after id).isSome := by
    rw [eases.kept id leased]
    exact fits.published id (eases.leases leased)
  refine ⟨eases.count.trans fits.count, published, whole, le_trans ?_ fits.bytes⟩
  have same (id : Nat) (leased : id ∈ leasedIds after) : lengthOf after id = lengthOf before id := by
    obtain ⟨length, there⟩ := Option.isSome_iff_exists.mp (published id leased)
    rw [whole id length there, fits.whole id length (eases.published id length there)]
  calc leasedBytes after
    _ = ∑ id ∈ leasedIds after, (lengthOf before id).getD 0 :=
      Finset.sum_congr rfl fun id leased => by rw [same id leased]
    _ ≤ leasedBytes before := Finset.sum_le_sum_of_subset eases.leases

/-! ## What eases -/

theorem Eases.of_rows (leases : after.fileLeases = before.fileLeases)
    (files : publishedLength after = publishedLength before)
    (rows : ∀ id length, lengthOf before id = some length → lengthOf after id = some length) :
    Eases before after := by
  refine ⟨by rw [leases], ?_, ?_, ?_, fun id length _ => rows id length⟩
  · rw [leasedIds, leases, leasedIds]
  · rw [files]
    exact fun _ _ => id
  · rw [files]
    exact fun _ _ => rfl

theorem Eases.refl (tables : Tables) : Eases tables tables := .of_rows rfl rfl fun _ _ => id

theorem publishedLength_congr (same : after.completeFiles = before.completeFiles) :
    publishedLength after = publishedLength before := by
  funext id
  rw [publishedLength, same, publishedLength]

theorem Eases.recast {rel : VersionRow → VersionRow → Prop}
    (recast : Recast rel before.versions after.versions)
    (geometry : ∀ row next, rel row next → next.metadata.geometry = row.metadata.geometry)
    (leases : after.fileLeases = before.fileLeases) (files : after.completeFiles = before.completeFiles) :
    Eases before after := by
  refine .of_rows leases (publishedLength_congr files) fun id length there => ?_
  obtain ⟨row, stored, rfl⟩ := Option.map_eq_some_iff.mp there
  obtain ⟨next, changed, related⟩ := recast.forth stored
  rw [lengthOf, changed, Option.map_some, geometry row next related]

private theorem Aged.geometry {row next : VersionRow} (aged : Aged row next) :
    next.metadata.geometry = row.metadata.geometry := geometry_of_core aged.metadata

theorem Eases.changeVersion {change : VersionRow → VersionRow}
    (each : ∀ row, tables.versions.lookup id = some row → (change row).metadata.geometry = row.metadata.geometry) :
    Eases tables (changeVersion id change tables) := by
  have recast : Recast (fun row next => next.metadata.geometry = row.metadata.geometry) tables.versions
      (Tables.versions (CacheDisk.changeVersion id change tables)) :=
    recast_changeVersion (fun _ => rfl) each
  rw [changeVersion_others]
  exact .recast recast (fun _ _ same => same) rfl rfl

theorem Eases.fewer (keep : Token → LeaseRow → Bool) :
    Eases tables { tables with fileLeases := tables.fileLeases.filter keep } := by
  refine ⟨List.length_filter_le _ _, fun id leased => ?_, fun _ _ => id, fun _ _ => rfl,
    fun _ _ _ => id⟩
  obtain ⟨token, lease, granted, same⟩ := mem_leasedIds.mp leased
  rw [Hash.lookup_filter, Option.filter_eq_some_iff] at granted
  exact mem_leasedIds.mpr ⟨token, lease, granted.1, same⟩

theorem Eases.frame (frame : Frame s t) : Eases s.tables t.tables := by
  refine .of_rows frame.leases (publishedLength_congr (frame.part (fun s => s.tables.completeFiles) fun _ => rfl))
    fun id length there => ?_
  obtain ⟨row, stored, rfl⟩ := Option.map_eq_some_iff.mp there
  obtain ⟨next, present, same⟩ := frame.row stored
  rw [lengthOf, present, Option.map_some]
  have length := congrArg (fun row : VersionRow => some row.metadata.geometry.length) same
  exact length

theorem Eases.patch {index : Index} (patched : CacheDisk.patch id index s.tables = some tables) :
    Eases s.tables tables :=
  .frame (t := { s with tables := tables, versions := s.versions }) (frame_patch patched)

theorem Eases.delete {s : Storage} {id : Nat} :
    Eases s.tables (deleteVersionRow id (deleteLeaseRows id (deleteCompleteRow id (deleteSegmentRows id s.tables)))) := by
  have published (other : Nat) : publishedLength (deleteVersionRow id (deleteLeaseRows id (deleteCompleteRow id
      (deleteSegmentRows id s.tables)))) other = if other = id then none else publishedLength s.tables other := by
    change ((AList.lookup other (s.tables.completeFiles.erase id)).filter CompleteRow.ready).map CompleteRow.length = _
    rw [Hash.lookup_erase]
    split <;> rfl
  refine ⟨List.length_filter_le _ _, fun other leased => ?_, fun other length there => ?_, fun other leased => ?_,
    fun other length there before => ?_⟩
  · obtain ⟨token, lease, granted, same⟩ := mem_leasedIds.mp leased
    change AList.lookup token (s.tables.fileLeases.filter _) = some lease at granted
    rw [Hash.lookup_filter, Option.filter_eq_some_iff] at granted
    exact mem_leasedIds.mpr ⟨token, lease, granted.1, same⟩
  · rw [published] at there
    split at there
    · cases there
    · exact there
  · obtain ⟨token, lease, granted, rfl⟩ := mem_leasedIds.mp leased
    change AList.lookup token (s.tables.fileLeases.filter _) = some lease at granted
    rw [Hash.lookup_filter, Option.filter_eq_some_iff, decide_eq_true_iff] at granted
    rw [published, if_neg granted.2]
  · rw [published] at there
    split at there
    · cases there
    · rename_i apart
      change (AList.lookup other (s.tables.versions.erase id)).map _ = some length
      rw [Hash.lookup_erase, if_neg apart]
      exact before

theorem Eases.evict {may : Storage → Nat → Nat → Prop} (evict : Evict may s t) :
    Eases s.tables t.tables := by
  cases evict with
  | purge purge =>
    cases purge with
    | settle settle => exact .frame settle.frame
    | expire expire =>
      cases expire with
      | tick tick =>
        cases tick
        exact .refl _
      | doubt => exact .refl _
      | due certain grace => exact .fewer _
    | obsolete unheld => exact .changeVersion fun _ _ => rfl
    | release unheld => exact .refl _
    | discard discard => cases discard <;> exact .refl _
    | deleteRows unheld gone => exact .delete
  | unpack unpack =>
    cases unpack with
    | tick tick =>
      cases tick
      exact .refl _
    | condemn =>
      unfold markPackDeleting
      split <;> exact .of_rows rfl rfl fun _ _ => id
    | discard discard => cases discard <;> exact .refl _
    | dropRow marked => exact .of_rows rfl rfl fun _ _ => id

private theorem Fits.publish (fits : Fits budget tables) {length : Nat} {digest : Digest}
    (long : lengthOf tables id = some length) : Fits budget (publishRow id length digest tables) := by
  have lengths (other : Nat) : publishedLength (publishRow id length digest tables) other =
      if other = id then some length else publishedLength tables other := by
    unfold publishRow
    split <;> simp only [publishedLength, Hash.lookup_insert] <;> split <;> rfl
  refine ⟨fits.count, fun other leased => ?_, fun other size there => ?_, fits.bytes⟩
  · rw [lengths]
    split
    · rfl
    · exact fits.published other leased
  · rw [lengths] at there
    split at there
    · rename_i same
      cases there
      rw [same]
      exact long
    · exact fits.whole other size there

private theorem Eases.defer {id till : Nat} {tables : Tables} : Eases tables (deferRow id till tables) := by
  refine .of_rows rfl ?_ fun _ _ there => there
  funext other
  simp only [publishedLength, deferRow, Hash.lookup_insert]
  split
  · rename_i same
    subst same
    cases tables.completeFiles.lookup other with
    | none => rfl
    | some row => cases ready : row.ready <;> simp [Option.filter_some, ready]
  · rfl

private theorem Eases.extend {token : Token} {client : String} {till : Nat} :
    Eases tables (extendLease token client till tables) := by
  unfold CacheFiles.extendLease
  split
  · rename_i lease found
    split
    · refine ⟨?_, fun id leased => ?_, fun _ _ => id, fun _ _ => rfl, fun _ _ _ => id⟩
      · simp [Hash.size_insert, found]
      · obtain ⟨other, extended, granted, rfl⟩ := mem_leasedIds.mp leased
        obtain ⟨rfl, rfl⟩ | ⟨-, granted⟩ := Hash.lookup_insert_some granted
        · exact mem_leasedIds.mpr ⟨token, lease, found, rfl⟩
        · exact mem_leasedIds.mpr ⟨other, extended, granted, rfl⟩
    · exact .refl _
  · exact .refl _

/-- What a grant adds up is the length of the other versions with a lease. -/
private theorem Fits.protected (fits : Fits budget tables) (id : Nat) :
    ∑ other ∈ (leasedIds tables).erase id, (lengthOf tables other).getD 0 = protectedBytes id tables := by
  rw [protectedBytes_eq]
  refine Finset.sum_congr rfl fun other leased => ?_
  obtain ⟨length, there⟩ := Option.isSome_iff_exists.mp (fits.published other (Finset.mem_of_mem_erase leased))
  rw [fits.whole other length there]
  obtain ⟨row, ready, rfl⟩ := Option.map_eq_some_iff.mp there
  rw [(Option.filter_eq_some_iff.mp ready).1]
  rfl

private theorem Fits.grant {capacity : Nat} (sound : Sound s) (bound : s.capacity ≤ capacity)
    (fits : Fits (leaseBudget capacity) s.tables) {token : Token} {lease : LeaseRow}
    (room : Room s lease.version) (granted : insertLease token lease s.tables = some tables) :
    Fits (leaseBudget capacity) tables := by
  unfold insertLease at granted
  split at granted
  · cases granted
  rename_i absent
  cases granted
  have ids : leasedIds { s.tables with fileLeases := s.tables.fileLeases.insert token lease } ⊆
      insert lease.version (leasedIds s.tables) := by
    intro id leased
    obtain ⟨other, row, found, rfl⟩ := mem_leasedIds.mp leased
    obtain ⟨rfl, rfl⟩ | ⟨-, found⟩ := Hash.lookup_insert_some found
    · exact Finset.mem_insert_self _ _
    · exact Finset.mem_insert_of_mem (mem_leasedIds.mpr ⟨other, row, found, rfl⟩)
  refine ⟨?_, fun id leased => ?_, fits.whole, ?_⟩
  · rw [Hash.size_insert, if_neg absent]
    exact room.count
  · rcases Finset.mem_insert.mp (ids leased) with rfl | old
    · have ready := room.ready
      rw [Ready, Option.any_eq_true] at ready
      obtain ⟨row, found, ready⟩ := ready
      change (publishedLength s.tables lease.version).isSome = true
      rw [publishedLength, found, Option.filter_some, if_pos ready]
      rfl
    · exact fits.published id old
  · obtain ⟨value, present, bytes⟩ := room.bytes
    obtain ⟨row, stored, same, -⟩ := sound.residents lease.version value present
    have long : (lengthOf s.tables lease.version).getD 0 = value.metadata.geometry.length := by
      rw [lengthOf, stored, geometry_of_core same]
      rfl
    calc leasedBytes { s.tables with fileLeases := s.tables.fileLeases.insert token lease }
      _ ≤ ∑ id ∈ insert lease.version (leasedIds s.tables), (lengthOf s.tables id).getD 0 :=
        Finset.sum_le_sum_of_subset ids
      _ = value.metadata.geometry.length + protectedBytes lease.version s.tables := by
        rw [← Finset.add_sum_erase _ _ (Finset.mem_insert_self _ _), Finset.erase_insert_eq_erase, fits.protected, long]
      _ ≤ leaseBudget s.capacity := by
        rw [Nat.add_comm]
        exact bytes
      _ ≤ leaseBudget capacity := by
        unfold leaseBudget
        omega

/-! ## Runs -/

variable [Sha256] {capacity : Nat} {event : Event} {start : Storage}

private theorem Fits.change (sound : Sound s) (bound : s.capacity ≤ capacity)
    (fits : Fits (leaseBudget capacity) s.tables) (change : Change event start s t) :
    Fits (leaseBudget capacity) t.tables := by
  cases change with
  | evict evict => exact fits.ease (.evict evict)
  | touch | corrupt => exact fits.ease (.changeVersion fun _ _ => rfl)
  | invalidate asked =>
    refine fits.ease (.recast (recast_of_map fun row => ?_) (fun row next => Aged.geometry) rfl rfl)
    split
    · exact (setObsolete_whole (by decide) row).1
    · exact Aged.refl row
  | retire asked held same => exact fits.ease (.changeVersion fun _ _ => rfl)
  | refreshRow held =>
    obtain ⟨row, stored, same, -⟩ := sound.heldRow held
    refine fits.ease (.changeVersion fun other present => ?_)
    cases stored.symm.trans present
    exact (geometry_of_core same).symm
  | @insert original metadata time tables asked fresh issued valid layout inserted =>
    obtain ⟨-, rfl⟩ := insertVersion_eq_some inserted
    refine fits.ease (.of_rows rfl rfl fun id length there => ?_)
    obtain ⟨row, stored, rfl⟩ := Option.map_eq_some_iff.mp there
    obtain ⟨next, kept, aged, -⟩ := (recast_retireOthers metadata.key s.tables).forth stored
    have apart : id ≠ nextId (retireOthers metadata.key s.tables) := by
      rintro rfl
      rw [nextId_retireOthers, nextId_fresh] at stored
      cases stored
    rw [lengthOf, AList.lookup_insert_ne apart, kept, Option.map_some, Aged.geometry aged]
  | hold hold =>
    cases hold with
    | settle settle => exact fits.ease (.frame settle.frame)
    | _ => exact fits
  | pin pin =>
    cases pin with
    | tick tick =>
      cases tick
      exact fits
    | _ => exact fits
  | append append =>
    cases append with
    | tick tick =>
      cases tick
      exact fits
    | extend beyond => rwa [onFile_others]
  | fill | spill | cutPack covers => rwa [onFile_others]
  | cleanup discard => cases discard <;> exact fits
  | clear clear =>
    cases clear with
    | tick tick =>
      cases tick
      exact fits
    | discard discard => cases discard <;> exact fits
  | abandon discard | supersede discard | sweep discard => cases discard <;> exact fits
  | forgetEntry found patched => exact fits.ease (.patch patched)
  | publishWritten found layout grown patched =>
    rw [upserted]
    have eased := fits.ease (.patch patched)
    exact { eased with }
  | insertPack inserted number present header =>
    unfold CacheObjects.insertPack at inserted
    split at inserted <;> cases inserted
    exact fits.ease (.of_rows rfl rfl fun _ _ => id)
  | commitObject asked whole listed live group present stored bound =>
    rw [growPack_tables]
    exact fits.ease (.of_rows rfl rfl fun _ _ => id)
  | touchPack =>
    unfold CacheObjects.touchPack
    split
    · exact fits.ease (.of_rows rfl rfl fun _ _ => id)
    · exact fits
  | defer => exact fits.ease .defer
  | publishRow working building found =>
    obtain ⟨row, stored, same, -⟩ := sound.heldRow (sound.held.worker _ working).1
    refine fits.publish ?_
    rw [lengthOf, stored, Option.map_some, geometry_of_core same]
  | grantLease room granted => exact fits.grant sound bound room granted
  | extendLease asked => exact fits.ease .extend
  | releaseLease asked => exact fits.ease (.fewer _)
  | touchSegment listed | deleteObject | rewriteObject listed same | persistClock =>
    exact fits.ease (.of_rows rfl rfl fun _ _ => id)
  | _ => exact fits

/-- What is kept along the runs of a cache of this capacity. -/
private structure Lends (capacity : Nat) (s : Storage) : Prop where
  sound : Sound s
  bound : s.capacity ≤ capacity
  fits : Fits (leaseBudget capacity) s.tables

omit [Sha256] in
private theorem Lends.work : Closed Work (Lends capacity) := by
  intro s t lends work
  have sound := Sound.work s t lends.sound work
  cases work <;> exact ⟨sound, lends.bound, lends.fits⟩

omit [Sha256] in
private theorem Lends.configure (fixed : ∀ asked, event = .launch asked → asked = capacity) :
    Closed (Configure event) (Lends capacity) := by
  intro s t lends configure
  have sound := Sound.configure s t lends.sound configure
  cases configure with
  | configure asked clock started uncertain running grace same =>
    refine ⟨sound, ?_, lends.fits⟩
    rcases same with rfl | launched
    · exact lends.bound
    · exact Nat.le_of_eq (fixed asked launched)

omit [Sha256] in
private theorem Lends.fresh : Lends capacity Storage.fresh := by
  have none (id : Nat) : publishedLength Storage.fresh.tables id = Option.none := rfl
  refine ⟨Sound.fresh, Nat.zero_le _, Nat.zero_le _, fun id leased => ?_, fun id length there => ?_, Nat.zero_le _⟩
  · cases leased
  · cases (none id).symm.trans there

/-- Every launch is with this capacity. -/
def FixedCapacity (capacity : Nat) (_ : Storage) (label : Event × List Chance) : Prop :=
  ∀ asked, label.1 = .launch asked → asked = capacity

/-- The leases are within the budget in every state of a cache of fixed capacity. -/
theorem leases_keep_to_budget {s : Storage}
    (reached : Runs.Reach (fun s => s = Storage.fresh) (FixedCapacity capacity) Step s) : Budgeted capacity s := by
  have lends : Lends capacity s := by
    refine reached.invariant (fun _ same => same ▸ Lends.fresh) fun s label t lends fixed stepped => ?_
    rw [stepped]
    have kept : Kept label.1 s (Lends capacity) :=
      ⟨fun s t lends change => ⟨Sound.change s t lends.sound change, (change_capacity change).trans_le lends.bound,
        lends.fits.change lends.sound lends.bound change⟩, fun _ lends => lends.sound⟩
    refine kept.perform (kept.writeData fun s t lends put => ?_) Lends.work (Lends.configure fixed)
      (fun s lends => ⟨lends.sound.restart, Nat.zero_le _, lends.fits⟩) lends
    have sound := Sound.put s t lends.sound put
    cases put
    exact ⟨sound, lends.bound, lends.fits⟩
  refine ⟨lends.fits.count, lends.fits.bytes, fun token lease granted => ?_⟩
  have leased : lease.version ∈ leasedIds s.tables := mem_leasedIds.mpr ⟨token, lease, granted, rfl⟩
  obtain ⟨length, there⟩ := Option.isSome_iff_exists.mp (lends.fits.published lease.version leased)
  have stored := lends.fits.whole lease.version length there
  rw [lengthOf, Option.map_eq_some_iff] at stored
  obtain ⟨row, present, -⟩ := stored
  rw [present]
  rfl

/-- A resource that is published as a file. -/
def cover : Metadata where
  key := "cover"
  provider := 1
  kind := 0
  generation := "0123456789abcdef0123456789abcdef"
  geometry := ⟨3, minBlock, minBlock_listed⟩
  store := true
  layout := .blocks

/-- The cover is written, published and leased. -/
def leaseCover : List Event :=
  [.launch defaultCapacity, .create cover, .write 1 [(0, [1, 2, 3])], .complete 1, .begin, .fetch, .spill, .report,
    .verify, .publish, .localFile 1 "player"]

private theorem reach_fixed {events : List Event}
    (reached : Runs.Reach (fun s => s = Storage.fresh) (FixedCapacity capacity) Step s)
    (fixed : ∀ event ∈ events, ∀ asked, event = .launch asked → asked = capacity) :
    Runs.Reach (fun s => s = Storage.fresh) (FixedCapacity capacity) Step
      (events.foldl (fun s event => perform event [] s) s) := by
  induction events generalizing s with
  | nil => exact reached
  | cons event rest ih =>
    refine ih ?_ fun other member => fixed other (.tail _ member)
    have launches : FixedCapacity capacity s (event, []) := fixed event (.head _)
    exact Runs.Reach.next reached launches (show Step s (event, []) _ from rfl)

omit [Sha256] in
theorem leased_cover_keeps_to_budget :
    let _ := openssl
    let s := leaseCover.foldl (fun s event => perform event [] s) Storage.fresh
    Budgeted defaultCapacity s ∧ s.tables.fileLeases.size = 1 := by
  intro _ s
  have fixed : ∀ event ∈ leaseCover, ∀ asked, event = .launch asked → asked = defaultCapacity := by
    simp [leaseCover]
  exact ⟨leases_keep_to_budget (reach_fixed (.start rfl) fixed), by decide +kernel⟩

/-- The row of a version that has its files to itself, of which none is garbage while it is live. -/
def OwnsFiles (s : Storage) (id : Nat) : Prop :=
  ∃ row, s.tables.versions.lookup id = some row ∧
    (∀ other same, s.tables.versions.lookup other = some same → row.generation = same.generation → id = other) ∧
    (row.obsolete = 0 → s.garbage.lookup (.ok row.generation) = none)

/-- A version that is published owns its file, and nothing deletes it while the version is live. -/
theorem published_files_are_kept {s : Storage} (reached : Reachable s) {id : Nat}
    (ready : (s.tables.completeFiles.lookup id).any CompleteRow.ready = true) : OwnsFiles s id := by
  obtain ⟨row, found, -⟩ := reached.sound.published.stored id ready
  exact ⟨row, found, fun other same there => reached.sound.rows.unique id other row same found there,
    fun live => reached.sound.published.clean id row found live ready⟩

omit [Sha256] in
theorem leased_cover_is_kept :
    let _ := openssl
    OwnsFiles (leaseCover.foldl (fun s event => perform event [] s) Storage.fresh) 1 := by
  intro _
  have reached := @reach_fixed _ _ defaultCapacity leaseCover (.start rfl) (by simp [leaseCover])
  exact published_files_are_kept (reached.weaken fun _ _ _ => trivial) (by decide +kernel)

end Qcm.CacheBudgetProofs
