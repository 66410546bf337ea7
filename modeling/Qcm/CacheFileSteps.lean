import Qcm.CacheSteps

/-!
Every operation on packed objects, conversions and leases is a run of changes,
and so is the recovery of a cache that is opened.
-/

namespace Qcm.CacheSteps

open Lib Lib.Act ResourceFormat CacheState CacheDisk CacheLoad CacheStore
  CacheObjects CacheFiles CacheEvents CacheRules CacheSettle CachePurge CacheSound
  CacheChange

variable [Sha256] {event : Event} {start : Storage} {I : Storage → Prop}

/-! ## Objects -/

variable {metadata : ObjectMetadata} {token : Token} {offset : Nat} {bytes : List UInt8}
  {before after : Bool} {retained : Hash FileName Int}

theorem readObject_keeps (ticks : Closed Tick I) {row : ObjectRow} {pack : PackRow} : Keeps I (readObject row pack) := by
  refine .bind Keeps.ensure fun _ => .bind (regularFile_keeps ticks) fun _ => ?_
  refine .bind (readExact_keeps ticks) fun actual => .bind Keeps.ensure fun _ => ?_
  exact .bind (readExact_keeps ticks) fun bytes => .bind Keeps.ensure fun _ => .pure

theorem Kept.deleteObject (kept : Kept event start I) {key : String} : Keeps I (execute (deleteObject key)) :=
  execute_keeps kept.ticks fun s holds => kept.closed s _ holds .deleteObject

theorem Kept.object (kept : Kept event start I) {key : String} : Keeps I (CacheObjects.object key) := by
  refine .bind (query_keeps kept.ticks) fun found => ?_
  cases found with
  | none => exact .pure
  | some found =>
    refine .bind (.attempt (readObject_keeps kept.ticks)) fun result => ?_
    cases result with
    | error error => exact .bind kept.deleteObject fun _ => .pure
    | ok object =>
      refine .bind (segmentTick_keeps kept.ticks) fun clock => .bind ?_ fun _ => .pure
      exact execute_keeps kept.ticks fun s holds => kept.closed s _ holds .touchPack

/-- The pack an object is to be appended to, up to where. -/
def Appendable (metadata : ObjectMetadata) (token : Token) (offset : Nat) (s : Storage) : Prop :=
  ∃ row, s.tables.packs.lookup token = some row ∧ row.deleting = false ∧ row.length = offset ∧ row.group = metadata.group

omit [Sha256] in
theorem Appendable.tick : Closed Tick (Appendable metadata token offset) := by
  rintro s _ appendable ⟨⟩
  exact appendable

omit [Sha256] in
theorem packHeaderBytes_length (token : Token) : (packHeaderBytes token).length = packHeader := by
  simp [packHeaderBytes, simple, ascii, packHeader]

theorem Kept.createPack (kept : Kept event start I) :
    Triple I (createPack metadata) (fun token s => I s ∧ Appendable metadata token packHeader s) I := by
  refine .bind (nextSerial_exact kept.ticks (P := fun token s => token < s.serial ∧ s.tables.packs.lookup token = none)
    fun s holds => ⟨Nat.lt_succ_self _, ?_⟩) fun token => ?_
  · cases present : s.tables.packs.lookup s.serial with
    | none => rfl
    | some row => exact absurd ((kept.sound s holds).tokens _ row present) (Nat.lt_irrefl _)
  let Fresh : Storage → Prop := fun s => I s ∧ token < s.serial ∧ s.tables.packs.lookup token = none
  have fresh : Closed Tick Fresh := by
    refine kept.ticks.and ?_
    rintro s _ holds ⟨_, _, _, _, _, _, more⟩
    exact ⟨Nat.lt_of_lt_of_le holds.1 more, holds.2⟩
  let Made : Storage → Prop := fun s => Fresh s ∧ s.files.lookup (.pack token) = some Contents.empty
  have made : Closed Tick Made := Tick.beside fresh fun holds => holds
  refine .bind (Q := fun _ => Made) ((createNew_triple fresh fun s holds absent => ?_).otherwise fun s holds => holds.1)
    fun _ => ?_
  · refine ⟨⟨kept.closed s _ holds.1 (.make absent (fun other same => ?_) nofun), holds.2⟩, AList.lookup_insert ..⟩
    cases same
    exact holds.2.2
  let Headed : Storage → Prop := fun s => Fresh s ∧ ∃ file, s.files.lookup (.pack token) = some file ∧
    file.readExact 0 packHeader = some (packHeaderBytes token)
  have headed : Closed Tick Headed := Tick.beside fresh fun holds => holds
  have written : ∀ s (data : List UInt8), Made s → Fresh (onFile (.pack token) (fun file => file.write 0 data) s) := by
    rintro s data ⟨⟨holds, number, unlisted⟩, present⟩
    refine ⟨kept.closed s _ holds (.append (.extend fun file found => ?_)), ?_⟩
    · rw [present] at found
      cases found
      exact Nat.le_refl 0
    · rw [onFile_others]
      exact ⟨number, unlisted⟩
  have done : Closed Tick fun s => I s ∧ Appendable metadata token packHeader s := kept.ticks.and Appendable.tick
  refine .bind (Q := Ends (fun s => I s ∧ Appendable metadata token packHeader s)
    fun s => I s ∧ s.tables.packs.lookup token = none) ?_ fun created => ?_
  · refine .attempt (F := Fresh) ?_ (fun _ s holds => ⟨holds.1, holds.2.2⟩) fun s holds => holds.1
    refine .bind ((disk_keeps made).otherwise fun s holds => holds.1) fun _ => ?_
    refine .bind (Q := fun _ => Headed) (writeAll_triple made (fun s holds => ⟨written s _ holds, _,
      lookup_onFile holds.2, ?_⟩) fun s count => written s _) fun _ => ?_
    · rw [← packHeaderBytes_length token]
      exact Contents.readExact_write
    refine .bind ((disk_keeps headed).otherwise fun s holds => holds.1) fun _ => ?_
    refine .bind ((disk_keeps headed).otherwise fun s holds => holds.1) fun _ => ?_
    refine (statement_triple headed done ?_).otherwise fun s holds => holds.1
    rintro s tables ⟨⟨holds, number, unlisted⟩, file, present, header⟩ inserted
    refine ⟨kept.closed s _ holds (.insertPack inserted number present header), ?_⟩
    rw [CacheObjects.insertPack, if_neg (by rw [unlisted]; exact nofun)] at inserted
    cases inserted
    exact ⟨_, AList.lookup_insert .., rfl, rfl, rfl⟩
  cases created with
  | ok _ =>
    refine Triple.bind ((Keeps.attempt (allocated_keeps done)).otherwise fun s holds => holds.1) fun measured => ?_
    refine .bind (Q := fun _ s => I s ∧ Appendable metadata token packHeader s) (.update fun s holds => ?_)
      fun _ => .pure fun s holds => holds
    exact ⟨kept.closed s _ holds.1 .measure, holds.2⟩
  | error error =>
    let Gone : Storage → Prop := fun s => I s ∧ s.tables.packs.lookup token = none
    have gone : Closed Tick Gone := Tick.beside kept.ticks fun holds => holds
    refine Triple.bind ((Keeps.attempt (allocated_keeps gone)).otherwise fun s holds => holds.1) fun measured => ?_
    refine .bind (Q := fun _ => Gone) (.update fun s holds => ⟨kept.closed s _ holds.1 .measure, holds.2⟩) fun _ => ?_
    have reason : ∀ s, Gone s → PackGone s (.pack token) := fun s holds => ⟨token, rfl, fun row present => by
      rw [holds.2] at present
      cases present⟩
    have removed : Keeps Gone (removeManaged (.pack token)) := by
      refine removeManaged_keeps gone (fun s t holds discard => ?_) reason
      have next := kept.closed s t holds.1 (.evict (.unpack (.discard discard)))
      cases discard <;> exact ⟨next, holds.2⟩
    exact Triple.bind ((Keeps.attempt removed).otherwise fun s holds => holds.1) fun _ => Triple.fail fun s holds => holds.1

omit [Sha256] in
theorem packWithRoom_eq_some {group : String} {length : Nat} {tables : Tables}
    (found : packWithRoom group length tables = some (token, offset)) :
    ∃ row, tables.packs.lookup token = some row ∧ row.deleting = false ∧ row.length = offset ∧ row.group = group := by
  obtain ⟨entry, first, same⟩ := Option.map_eq_some_iff.mp found
  have member := (List.mem_insertionSort _).mp (List.mem_of_mem_head? (Option.mem_def.mpr first))
  obtain ⟨listed, passes⟩ := List.mem_filter.mp member
  cases same
  simp only [Bool.and_eq_true, beq_iff_eq, Bool.not_eq_true', decide_eq_true_eq] at passes
  exact ⟨entry.2, (Hash.lookup_eq_some_iff ..).mpr listed, passes.1.2, rfl, passes.1.1⟩

section

variable (kept : Kept event start I)
include kept

theorem Kept.packFor {existing : Option (Token × Nat)} :
    Triple (fun s => I s ∧ existing = packWithRoom metadata.group metadata.length s.tables) (packFor metadata existing)
      (fun chosen s => I s ∧ Appendable metadata chosen.1 chosen.2 s) I := by
  cases existing with
  | some found => exact .pure fun s holds => ⟨holds.1, packWithRoom_eq_some holds.2.symm⟩
  | none =>
    refine .bind (kept.createPack.before fun s holds => holds.1) fun token => ?_
    exact .pure fun s holds => holds

theorem Kept.cutPack :
    Keeps (fun s => I s ∧ Appendable metadata token offset s) (setLength (.pack token) offset) := by
  refine setLength_triple (kept.ticks.and Appendable.tick) fun s ⟨holds, row, present, live, length, group⟩ => ?_
  refine ⟨kept.closed s _ holds (.cutPack fun other found _ => ?_), ?_⟩
  · rw [present] at found
    cases found
    exact Nat.le_of_eq length
  · rw [onFile_others]
    exact ⟨row, present, live, length, group⟩

theorem Kept.appendObject (asked : event = .putObject metadata bytes before after)
    (whole : metadata.length = bytes.length) (bound : offset + metadata.length ≤ packBytes) :
    Triple (fun s => I s ∧ Appendable metadata token offset s) (appendObject metadata bytes token offset)
      (fun _ => I) fun s => I s ∧ Appendable metadata token offset s := by
  have ticks : Closed Tick fun s => I s ∧ Appendable metadata token offset s := kept.ticks.and Appendable.tick
  refine .bind (readExact_keeps ticks) fun actual => .bind (fileLength_triple ticks) fun length => ?_
  let Sized : Storage → Prop := fun s => (I s ∧ Appendable metadata token offset s) ∧
    ∃ file, s.files.lookup (.pack token) = some file
  have sized : Closed Tick Sized := Tick.beside ticks fun holds => holds
  refine .bind (Q := fun _ => Sized) (.ensure (fun _ s ⟨holds, file, present, _⟩ => ⟨holds, file, present⟩)
    fun _ s holds => holds.1) fun _ => ?_
  let Cut : Storage → Prop := fun s => (I s ∧ Appendable metadata token offset s) ∧
    ∃ file, s.files.lookup (.pack token) = some file ∧ file.length = offset
  have cut : Closed Tick Cut := Tick.beside ticks fun holds => holds
  refine .bind (Q := fun _ => Cut) ((setLength_triple sized ?_).otherwise fun s holds => holds.1) fun _ => ?_
  · rintro s ⟨⟨holds, row, present, live, length, group⟩, file, there⟩
    refine ⟨⟨kept.closed s _ holds (.cutPack fun other found _ => ?_), ?_⟩, _, lookup_onFile there, rfl⟩
    · rw [present] at found
      cases found
      exact Nat.le_of_eq length
    · rw [onFile_others]
      exact ⟨row, present, live, length, group⟩
  let Stored : Storage → Prop := fun s => (I s ∧ Appendable metadata token offset s) ∧
    ∃ file, s.files.lookup (.pack token) = some file ∧ file.readExact offset bytes.length = some bytes
  have stored : Closed Tick Stored := Tick.beside ticks fun holds => holds
  have written : ∀ s (data : List UInt8), Cut s → I (onFile (.pack token) (fun file => file.write offset data) s) ∧
      Appendable metadata token offset (onFile (.pack token) (fun file => file.write offset data) s) := by
    rintro s data ⟨⟨holds, appendable⟩, file, present, rfl⟩
    refine ⟨kept.closed s _ holds (.append (.extend fun other found => ?_)), ?_⟩
    · rw [present] at found
      cases found
      exact le_rfl
    · rw [onFile_others]
      exact appendable
  refine .bind (Q := fun _ => Stored) (writeAll_triple cut (fun s holds => ⟨written s bytes holds, ?_⟩)
    fun s count => written s _) fun _ => ?_
  · obtain ⟨-, file, present, -⟩ := holds
    exact ⟨_, lookup_onFile present, Contents.readExact_write⟩
  refine .bind ((disk_keeps stored).otherwise fun s holds => holds.1) fun _ => ?_
  refine .bind ((segmentTick_keeps stored).otherwise fun s holds => holds.1) fun clock => ?_
  refine (transaction_triple stored kept.ticks fun s tables holds ran => ?_).otherwise fun s holds => holds.1
  obtain ⟨⟨holds, row, present, live, length, group⟩, file, there, reads⟩ := holds
  cases ran
  subst length
  rw [whole] at bound
  exact kept.closed s _ holds (.commitObject asked whole present live group there reads bound)

theorem Kept.storeObject (asked : event = .putObject metadata bytes before after)
    (whole : metadata.length = bytes.length) : Keeps I (storeObject metadata bytes) := by
  refine Triple.bind (query_triple kept.ticks) fun existing => ?_
  refine Triple.bind kept.packFor fun chosen => ?_
  obtain ⟨token, offset⟩ := chosen
  let Ready : Storage → Prop := fun s => I s ∧ Appendable metadata token offset s
  have ticks : Closed Tick Ready := kept.ticks.and Appendable.tick
  refine Triple.bind (Q := fun _ s => Ready s ∧ offset + metadata.length ≤ packBytes)
    (Triple.ensure (fun fits s holds => ⟨holds, fits.2⟩) fun _ s holds => holds.1) fun _ => ?_
  refine .pointwise ?_
  rintro start ⟨ready, bound⟩
  refine .before (P := Ready) ?_ fun s same => same ▸ ready
  refine .bind ((regularFile_keeps ticks).otherwise fun s holds => holds.1) fun _ => ?_
  refine .bind (Q := Ends I Ready) ?_ fun result => ?_
  · exact .attempt (F := Ready) (kept.appendObject asked whole bound) (fun _ _ => id) fun s holds => holds.1
  · refine .bind (Q := fun _ => I) ?_ fun _ => .bind kept.record fun _ => liftExcept_keeps
    cases result with
    | ok _ => exact .when (fun none => nomatch none) fun _ s holds => holds
    | error error =>
      refine .when (fun _ => ?_) fun _ s holds => holds.1
      refine Triple.bind ((Keeps.attempt kept.cutPack).otherwise fun s holds => holds.1) fun _ => ?_
      exact Triple.bind ((Keeps.attempt (disk_keeps ticks)).otherwise fun s holds => holds.1) fun _ =>
        Triple.pure fun s holds => holds.1

theorem Kept.putObject (asked : event = .putObject metadata bytes before after) :
    Keeps I (putObject metadata bytes) := by
  refine Triple.bind (Q := fun _ s => I s ∧ metadata.length = bytes.length)
    (Triple.ensure (fun fits s holds => ⟨holds, fits.1⟩) fun _ s holds => holds) fun _ => ?_
  refine Triple.pointwise fun start ⟨holds, whole⟩ => Triple.before (P := I) ?_ fun s same => same ▸ holds
  exact .bind kept.evict fun _ => kept.storeObject asked whole

theorem Kept.putValidObject (asked : event = .putObject metadata bytes before after) :
    Keeps I (putValidObject metadata bytes before after) := by
  refine .bind Keeps.ensure fun _ => .bind (.attempt (kept.putObject asked)) fun result => ?_
  exact .ite (fun _ => .bind kept.deleteObject fun _ => .fail) fun _ => liftExcept_keeps

theorem Kept.updateObject :
    Triple (fun s => I s ∧ ∃ row, s.tables.objects.lookup metadata.key = some row ∧ row.metadata.provider = metadata.provider)
      (updateObject metadata) (fun _ => I) I := by
  have ticks : Closed Tick fun s => I s ∧ ∃ row, s.tables.objects.lookup metadata.key = some row ∧
      row.metadata.provider = metadata.provider := by
    refine kept.ticks.and ?_
    rintro s _ holds ⟨⟩
    exact holds
  refine (execute_triple ticks kept.ticks fun s ⟨holds, row, listed, same⟩ => ?_).otherwise fun s holds => holds.1
  rw [listed]
  exact kept.closed s _ holds (.rewriteObject listed same)

end

/-- A pack that is listed has the length it was listed with. -/
def Lengths (packs : List ((_ : Token) × PackRow)) (s : Storage) : Prop :=
  ∀ pack ∈ packs, ∀ row, s.tables.packs.lookup pack.1 = some row → row.length = pack.2.length

omit [Sha256] in
theorem Lengths.unpack {packs : List ((_ : Token) × PackRow)} : Closed Unpack (Lengths packs) := by
  intro s t lengths unpack
  cases unpack with
  | tick tick =>
    cases tick
    exact lengths
  | @condemn token =>
    intro pack member row present
    change (markPackDeleting token (deleteObjectsOf token s.tables)).packs.lookup pack.1 = some row at present
    unfold markPackDeleting at present
    split at present
    · rename_i old found
      obtain ⟨rfl, rfl⟩ | ⟨-, present⟩ := Hash.lookup_insert_some present
      · exact lengths pack member old (found)
      · exact lengths pack member row present
    · exact lengths pack member row present
  | discard discard => cases discard <;> exact lengths
  | @dropRow token marked =>
    intro pack member row present
    obtain ⟨-, present⟩ := Hash.lookup_erase_some present
    exact lengths pack member row present

omit [Sha256] in
theorem unpack_tables {s t : Storage} (unpack : Unpack s t) :
    t.tables = { s.tables with packs := t.tables.packs, objects := t.tables.objects } := by
  cases unpack with
  | tick tick =>
    cases tick
    rfl
  | condemn =>
    rw [markPackDeleting_others]
    rfl
  | discard discard => cases discard <;> rfl
  | dropRow marked => rfl

omit [Sha256] in
theorem needed_unpacked {tables : Tables} {packs : Hash Token PackRow} {objects : Hash String ObjectRow} {name : FileName}
    (needed : Needed { tables with packs := packs, objects := objects } name) : Needed tables name := by
  cases needed with
  | own stored valid layout => exact .own stored valid layout
  | leased granted stored valid => exact .leased granted stored valid
  | segment listed stored valid layout => exact .segment listed stored valid layout

/-- While a cache is recovered no conversion is under way, and what the rows need is retained. -/
structure Recovering (retained : Hash FileName Int) (s : Storage) : Prop where
  idle : s.worker = .idle
  needed : ∀ name, Needed s.tables name → (retained.lookup name).isSome

omit [Sha256] in
theorem Recovering.unpack : Closed Unpack (Recovering retained) := by
  intro s t recovering unpack
  refine ⟨?_, fun name needed => recovering.needed name ?_⟩
  · have evict : Evict Any s t := .unpack unpack
    rw [evict_part evict Storage.worker fun _ => rfl, recovering.idle]
  · rw [unpack_tables unpack] at needed
    exact needed_unpacked needed

omit [Sha256] in
theorem Recovering.files {s t : Storage} (recovering : Recovering retained s) (tables : t.tables = s.tables)
    (worker : t.worker = s.worker) : Recovering retained t :=
  ⟨by rw [worker, recovering.idle], by rw [tables]; exact recovering.needed⟩

theorem Kept.retainPacks (kept : Kept event start I) :
    Triple (fun s => I s ∧ Recovering retained s) (retainPacks retained)
      (fun result s => I s ∧ Recovering result s) I := by
  have unpacks : Closed Unpack fun s => I s ∧ Recovering retained s := (Evict.unpacks kept.evicts).and Recovering.unpack
  refine Triple.bind ((query_triple (Unpack.ticks unpacks)).otherwise fun s holds => holds.1) fun packs => ?_
  let Pre : Storage → Prop := fun s => (I s ∧ Recovering retained s) ∧ Lengths packs s
  have closed : Closed Unpack Pre := unpacks.and Lengths.unpack
  have ticks := Unpack.ticks closed
  have each : ∀ pack ∈ packs, Keeps Pre (retainPack pack.1 pack.2) := by
    intro pack member
    refine .bind Keeps.ensure fun _ => .bind (regularFile_keeps ticks) fun _ => ?_
    refine .bind (readExact_keeps ticks) fun actual => .bind (fileLength_keeps ticks) fun length => ?_
    refine .bind Keeps.ensure fun _ => setLength_triple ticks fun s ⟨⟨holds, recovering⟩, lengths⟩ => ?_
    refine ⟨⟨kept.closed s _ holds (.cutPack fun row present _ => Nat.le_of_eq (lengths pack member row present)), ?_⟩, ?_⟩
    · exact recovering.files (by rw [onFile_others]) (by rw [onFile_others])
    · rw [onFile_others]
      exact lengths
  -- the names only grow from turn to turn
  have turns : ∀ (rest : List ((_ : Token) × PackRow)) (names : Hash FileName Int), (∀ pack ∈ rest, pack ∈ packs) →
      (∀ name, (retained.lookup name).isSome → (names.lookup name).isSome) →
      Triple Pre (retainPackTurns rest names)
        (fun result s => Pre s ∧ ∀ name, (retained.lookup name).isSome → (result.lookup name).isSome) Pre := by
    intro rest
    induction rest with
    | nil => exact fun names _ more => .pure fun s holds => ⟨holds, more⟩
    | cons pack rest ih =>
      intro names inside more
      refine Triple.bind (Keeps.attempt (each pack (inside pack (.head _)))) fun valid => ?_
      have later := fun other (member : other ∈ rest) => inside other (.tail _ member)
      cases valid with
      | ok _ =>
        refine ih _ later fun name listed => ?_
        rw [Hash.lookup_insert]
        split
        · rfl
        · exact more name listed
      | error error =>
        exact Triple.bind (Keeps.attempt (deletePack_keeps closed)) fun _ => ih names later more
  refine (turns packs retained (fun _ => id) fun _ => id).weaken ?_ ?_ fun s holds => holds.1.1
  · rintro s ⟨holds, rfl⟩
    refine ⟨holds, fun pack member row present => ?_⟩
    rw [(Hash.lookup_eq_some_iff ..).mpr member] at present
    cases present
    rfl
  · rintro result s ⟨⟨⟨holds, recovering⟩, -⟩, more⟩
    exact ⟨holds, recovering.idle, fun name needed => more name (recovering.needed name needed)⟩

end Qcm.CacheSteps
