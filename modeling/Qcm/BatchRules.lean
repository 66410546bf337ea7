import Qcm.BatchWrites
import Qcm.Lib.Loops

/-!
What the phases of `sync_batch` do to the tables.  Items and libraries only ever
come to a batch's tables: an item keeps its key, its library, its provider and
its type, so a reference that has resolved once goes on to name the same item.
Every other phase writes tables of its own.
-/

namespace Qcm.BatchRules

open Lib SyncDatabase SyncBatch BatchTables BatchWrites

section Ids

variable {β : Type} {sequence : Int} {rows : Hash Int β} {id : Int}

private theorem le_foldl_max (keys : List Int) (first : Int) :
    first ≤ keys.foldl max first ∧ ∀ key ∈ keys, key ≤ keys.foldl max first := by
  induction keys generalizing first with
  | nil => simp
  | cons key rest ih =>
    obtain ⟨above, each⟩ := ih (max first key)
    have first_le : first ≤ max first key := le_max_left ..
    have key_le : key ≤ max first key := le_max_right ..
    refine ⟨first_le.trans above, fun other member => ?_⟩
    rcases List.mem_cons.mp member with rfl | member
    · exact key_le.trans above
    · exact each other member

theorem sequence_lt_nextId : sequence < nextId sequence rows := by
  have above := (le_foldl_max rows.keys sequence).1
  simp only [nextId]
  omega

theorem lt_nextId (there : (rows.lookup id).isSome) : id < nextId sequence rows := by
  have member : id ∈ rows.keys := AList.mem_keys.mp (AList.lookup_isSome.mp there)
  have below := (le_foldl_max rows.keys sequence).2 id member
  simp only [nextId]
  omega

theorem nextId_fresh : rows.lookup (nextId sequence rows) = none := by
  by_contra there
  exact absurd (lt_nextId (Option.isSome_iff_ne_none.mpr there)) (lt_irrefl _)

theorem nextId_put {value : β} (there : (rows.lookup id).isSome) :
    nextId sequence (Hash.put id value rows) = nextId sequence rows := by
  have keys : (Hash.put id value rows).keys = rows.keys := by
    rw [Hash.put, if_pos there]
    simp [AList.keys, Hash.map, List.keys]
  rw [nextId, keys, nextId]

end Ids

variable {t u v : Tables} {provider : Int} {kinds : List ItemType}

/-- What a batch never changes of an item. -/
def identity (row : ItemRow) : ItemRow := { row with lastSyncAt := 0 }

variable {row next : ItemRow} {key : ItemKey} {id now : Int} {item : ItemRef}
  {before after : Tables × List Int} {w : Writer} {batch : SyncBatch}
  {done : Tables × List (Int × Library) × List (Int × ItemRow)} {items : List (Int × ItemRow)}

theorem identity_eq (same : identity next = identity row) :
    next.nativeId = row.nativeId ∧ next.libraryId = row.libraryId ∧ next.providerId = row.providerId ∧
      next.kind = row.kind := by
  simp only [identity, ItemRow.mk.injEq] at same
  exact ⟨same.1, same.2.1, same.2.2.1, same.2.2.2.1⟩

theorem sameKey_iff {library : Option Int} :
    sameKey provider key library id row = true ↔ row.providerId = provider ∧
      row.nativeId = key.nativeId ∧ row.kind = key.kind ∧ row.libraryId = library := by
  simp [sameKey, and_assoc]

theorem sameKey_congr {library : Option Int} (same : identity next = identity row) :
    sameKey provider key library id next = sameKey provider key library id row := by
  obtain ⟨native, library, owner, kind⟩ := identity_eq same
  simp only [sameKey, native, library, owner, kind]

/-- Nothing that identifies an item is lost from `t` to `u`, and new items have
new ids. -/
structure Grows (t u : Tables) : Prop where
  libraries : ∀ id row, t.libraries.lookup id = some row →
    ∃ next, u.libraries.lookup id = some next ∧ next.providerId = row.providerId
  items : ∀ id row, t.items.lookup id = some row →
    ∃ next, u.items.lookup id = some next ∧ identity next = identity row
  found : ∀ provider key library id row,
    Hash.find (sameKey provider key library) t.items = some (id, row) →
    ∃ next, Hash.find (sameKey provider key library) u.items = some (id, next) ∧ identity next = identity row
  fresh : ∀ id, t.items.lookup id = none → (u.items.lookup id).isSome → t.nextItem ≤ id
  next : t.nextItem ≤ u.nextItem

/-- The tables references are resolved in are the same. -/
structure Still (t u : Tables) : Prop where
  libraries : u.libraries = t.libraries
  items : u.items = t.items
  sequence : u.sequence.item = t.sequence.item

theorem Still.refl : Still t t := ⟨rfl, rfl, rfl⟩

theorem Still.trans (first : Still t u) (second : Still u v) : Still t v :=
  ⟨second.libraries.trans first.libraries, second.items.trans first.items,
    second.sequence.trans first.sequence⟩

theorem Still.symm (still : Still t u) : Still u t :=
  ⟨still.libraries.symm, still.items.symm, still.sequence.symm⟩

theorem Grows.of_still (still : Still t u) : Grows t u where
  libraries id row there := ⟨row, by rw [still.libraries, there], rfl⟩
  items id row there := ⟨row, by rw [still.items, there], rfl⟩
  found _ _ _ id row there := ⟨row, by rw [still.items, there], rfl⟩
  fresh id absent there := by simp [still.items, absent] at there
  next := by rw [Tables.nextItem, Tables.nextItem, still.items, still.sequence]

theorem Grows.refl : Grows t t := .of_still .refl

theorem Grows.trans (first : Grows t u) (second : Grows u v) : Grows t v where
  libraries id row there := by
    obtain ⟨middle, stored, same⟩ := first.libraries id row there
    obtain ⟨last, found, kept⟩ := second.libraries id middle stored
    exact ⟨last, found, kept.trans same⟩
  items id row there := by
    obtain ⟨middle, stored, same⟩ := first.items id row there
    obtain ⟨last, found, kept⟩ := second.items id middle stored
    exact ⟨last, found, kept.trans same⟩
  found provider key library id row there := by
    obtain ⟨middle, stored, same⟩ := first.found provider key library id row there
    obtain ⟨last, found, kept⟩ := second.found provider key library id middle stored
    exact ⟨last, found, kept.trans same⟩
  fresh id absent there := by
    cases between : u.items.lookup id with
    | none => exact first.next.trans (second.fresh id between there)
    | some row => exact first.fresh id absent (by simp [between])
  next := first.next.trans second.next

/-! Resolving references. -/

/-- What a reference names that resolves. -/
structure Named (t : Tables) (provider : Int) (kinds : List ItemType) (item : ItemRef) (id : Int)
    (row : ItemRow) : Prop where
  stored : t.items.lookup id = some row
  mine : row.providerId = provider
  kind : kinds = [] ∨ row.kind ∈ kinds
  by_id : ∀ given, item = .id given → given = id
  by_key : ∀ key, item = .key key → (kinds = [] ∨ key.kind ∈ kinds) ∧ key.id.all (· = id) ∧
    ∃ library, libraryOptional t.database provider key = .ok (some library) ∧
      Hash.find (sameKey provider key library) t.items = some (id, row)

theorem findItem_key : findItem t.database provider (.key key) kinds =
    if kinds ≠ [] ∧ key.kind ∉ kinds then .error "item reference has wrong type"
    else do
      match ← libraryOptional t.database provider key with
      | none => return none
      | some library =>
        match key.id, Hash.find (sameKey provider key library) t.items with
        | some id, some item => if id ≠ item.1 then .error "item id does not match key" else return some item
        | _, found => return found := by
  simp only [findItem]
  split
  · rfl
  · congr 1
    funext library
    cases library with
    | none => rfl
    | some library =>
      have same : ((t.database.items.entries.find? fun entry => entry.2.providerId = provider &&
          entry.2.nativeId = key.nativeId && entry.2.kind = key.kind && entry.2.libraryId = library).map
          fun entry => (entry.1, entry.2)) = Hash.find (sameKey provider key library) t.items := rfl
      dsimp only
      rw [same]
      cases key.id <;> cases Hash.find (sameKey provider key library) t.items <;> rfl

theorem resolve_iff :
    resolve t.database provider item kinds = .ok (id, row) ↔ Named t provider kinds item id row := by
  constructor
  · intro resolved
    obtain ⟨optional, first, rest⟩ := bind_ok.mp resolved
    cases optional with
    | none => cases rest
    | some found =>
      cases rest
      obtain ⟨candidate, named, checked⟩ := bind_ok.mp first
      cases candidate with
      | none => cases checked
      | some candidate =>
        dsimp only at checked
        split at checked
        · cases checked
        rename_i fits
        cases checked
        simp only [not_or, ne_eq, not_not, not_and] at fits
        have kind : kinds = [] ∨ row.kind ∈ kinds := by
          by_cases none : kinds = []
          · exact .inl none
          · exact .inr (fits.2 none)
        cases item with
        | id given =>
          simp only [findItem, Except.ok.injEq, Option.map_eq_some_iff, Prod.mk.injEq] at named
          obtain ⟨stored, there, rfl, rfl⟩ := named
          exact ⟨there, fits.1, kind, fun _ same => (ItemRef.id.inj same).symm, nofun⟩
        | key key =>
          rw [findItem_key] at named
          split at named
          · cases named
          rename_i typed
          obtain ⟨library, shelf, rest⟩ := bind_ok.mp named
          cases library with
          | none => cases rest
          | some library =>
            have met : Hash.find (sameKey provider key library) t.items = some (id, row) ∧
                key.id.all (· = id) := by
              dsimp only at rest
              split at rest
              · rename_i given item own there
                split at rest <;> cases rest
                rename_i same
                exact ⟨there, by simpa [own] using same⟩
              · rename_i other
                have there := Except.ok.inj rest
                refine ⟨there, ?_⟩
                cases own : key.id with
                | none => rfl
                | some given => exact absurd there (other given (id, row) own)
            obtain ⟨found, own⟩ := met
            refine ⟨(Hash.find_some found).1, fits.1, kind, nofun, ?_⟩
            rintro _ ⟨⟩
            refine ⟨?_, own, library, shelf, found⟩
            by_cases none : kinds = []
            · exact .inl none
            · exact .inr (not_not.mp fun wrong => typed ⟨none, wrong⟩)
  · intro named
    have fits : ¬(row.providerId ≠ provider ∨ (kinds ≠ [] ∧ row.kind ∉ kinds)) := by
      rcases named.kind with none | member
      · simp [named.mine, none]
      · simp [named.mine, member]
    have candidate : findItem t.database provider item kinds = .ok (some (id, row)) := by
      cases item with
      | id given =>
        cases named.by_id given rfl
        simp only [findItem]
        exact congrArg Except.ok (by rw [show t.database.items = t.items from rfl, named.stored]; rfl)
      | key key =>
        obtain ⟨typed, own, library, shelf, found⟩ := named.by_key key rfl
        have right : ¬(kinds ≠ [] ∧ key.kind ∉ kinds) := by
          rcases typed with none | member
          · simp [none]
          · simp [member]
        rw [findItem_key, if_neg right]
        refine bind_ok.mpr ⟨some library, shelf, ?_⟩
        dsimp only
        rw [found]
        cases given : key.id with
        | none => rfl
        | some other =>
          rw [given] at own
          simp only [Option.all_some, decide_eq_true_eq] at own
          simp [own]
          rfl
    refine bind_ok.mpr ⟨some (id, row), bind_ok.mpr ⟨some (id, row), candidate, ?_⟩, rfl⟩
    dsimp only
    rw [if_neg fits]
    rfl

theorem Named.unique {other : Int} {wanted : List ItemType} (named : Named t provider kinds item id row)
    (again : Named t provider wanted item other next) : other = id ∧ next = row := by
  have same : other = id := by
    cases item with
    | id given => rw [← named.by_id given rfl, ← again.by_id given rfl]
    | key key =>
      obtain ⟨-, -, library, shelf, found⟩ := named.by_key key rfl
      obtain ⟨-, -, shelf', there, found'⟩ := again.by_key key rfl
      rw [shelf] at there
      cases there
      rw [found] at found'
      cases found'
      rfl
  subst same
  have stored := again.stored
  rw [named.stored] at stored
  exact ⟨rfl, (Option.some.inj stored).symm⟩

theorem ownsLibrary_iff : ownsLibrary t.database provider id = .ok true ↔
    ∃ row, t.libraries.lookup id = some row ∧ row.providerId = provider := by
  simp only [ownsLibrary, Tables.database, Hash.lookup_map]
  cases t.libraries.lookup id with
  | none => simp
  | some row =>
    by_cases mine : row.providerId = provider <;> simp [mine]

theorem Grows.library {library : Option Int} (grows : Grows t u)
    (shelf : libraryOptional t.database provider key = .ok (some library)) :
    libraryOptional u.database provider key = .ok (some library) := by
  simp only [libraryOptional] at shelf ⊢
  split at shelf
  · cases shelf
  rename_i sized
  rw [if_neg sized]
  cases given : key.libraryId with
  | missing => simp [given] at shelf
  | set wanted =>
    rw [given] at shelf
    cases wanted with
    | none => exact shelf
    | some id =>
      obtain ⟨owns, owned, rest⟩ := bind_ok.mp shelf
      cases owns with
      | false => cases rest
      | true =>
        obtain ⟨row, there, mine⟩ := ownsLibrary_iff.mp owned
        obtain ⟨next, stored, same⟩ := grows.libraries id row there
        have again : ownsLibrary u.database provider id = .ok true :=
          ownsLibrary_iff.mpr ⟨next, stored, same.trans mine⟩
        exact bind_ok.mpr ⟨true, again, rest⟩

theorem Grows.named (grows : Grows t u) (named : Named t provider kinds item id row) :
    ∃ next, Named u provider kinds item id next ∧ identity next = identity row := by
  obtain ⟨next, stored, same⟩ := grows.items id row named.stored
  obtain ⟨-, -, owner, kind⟩ := identity_eq same
  refine ⟨next, ⟨stored, owner.trans named.mine, by rw [kind]; exact named.kind, named.by_id, ?_⟩, same⟩
  intro key own
  obtain ⟨typed, given, library, shelf, found⟩ := named.by_key key own
  obtain ⟨other, there, kept⟩ := grows.found _ _ _ _ _ found
  have one : other = next := by
    have again := (Hash.find_some there).1
    rw [stored] at again
    exact (Option.some.inj again).symm
  subst one
  exact ⟨typed, given, library, grows.library shelf, there⟩

/-- Resolving does not look past libraries and items. -/
theorem Still.named (still : Still t u) (named : Named t provider kinds item id row) :
    Named u provider kinds item id row := by
  obtain ⟨next, again, -⟩ := (Grows.of_still still).named named
  have stored := again.stored
  rw [still.items, named.stored] at stored
  cases stored
  exact again

/-! The identities. -/

section Enter

variable {now : Int}

theorem Grows.of_libraries {libraries : Hash Int Library} {sequence : Sequence}
    (each : ∀ id row, t.libraries.lookup id = some row →
      ∃ next, libraries.lookup id = some next ∧ next.providerId = row.providerId)
    (same : sequence.item = t.sequence.item) :
    Grows t { t with libraries := libraries, sequence := sequence } where
  libraries := each
  items id row there := ⟨row, there, rfl⟩
  found _ _ _ id row there := ⟨row, there, rfl⟩
  fresh id absent there := by simp [absent] at there
  next := by simp only [Tables.nextItem, same, le_refl]

theorem Grows.touch {id : Int} {row next : ItemRow} (found : t.items.lookup id = some row)
    (same : identity next = identity row) :
    Grows t { t with items := Hash.put id next t.items } where
  libraries other row there := ⟨row, there, rfl⟩
  items other old there := by
    rw [Hash.lookup_put]
    split
    · rename_i here
      subst here
      rw [found] at there
      cases there
      exact ⟨next, rfl, same⟩
    · exact ⟨old, there, rfl⟩
  found p key library other old there := by
    have kept : ∀ old, t.items.lookup id = some old →
        sameKey p key library id next = sameKey p key library id old := fun old stored => by
      rw [found] at stored
      cases stored
      exact sameKey_congr same
    rw [Hash.find_put kept (by simp [found]), there, Option.map_some]
    split
    · rename_i here
      cases here
      have stored := (Hash.find_some there).1
      rw [found] at stored
      cases stored
      exact ⟨next, rfl, same⟩
    · exact ⟨old, rfl, rfl⟩
  fresh other absent there := by
    rw [Hash.lookup_put] at there
    split at there
    · rename_i here
      subst here
      rw [found] at absent
      cases absent
    · simp [absent] at there
  next := by
    simp only [Tables.nextItem]
    rw [nextId_put (by simp [found])]

theorem Grows.register {key : ItemKey} {library : Option Int}
    (none : Hash.find (sameKey provider key library) t.items = none) :
    Grows t { t with
      items := Hash.put t.nextItem ⟨key.nativeId, library, provider, key.kind, now⟩ t.items
      sequence := { t.sequence with item := t.nextItem } } where
  libraries other row there := ⟨row, there, rfl⟩
  items other old there := by
    rw [Hash.lookup_put, if_neg]
    · exact ⟨old, there, rfl⟩
    · rintro rfl
      rw [show t.items.lookup t.nextItem = Option.none from nextId_fresh] at there
      cases there
  found p wanted shelf other old there := by
    have fresh : t.items.lookup t.nextItem = Option.none := nextId_fresh
    obtain ⟨stored, fits⟩ := Hash.find_some there
    -- A row that fits the search has the key under which nothing was found.
    have apart : sameKey p wanted shelf t.nextItem ⟨key.nativeId, library, provider, key.kind, now⟩ = false := by
      by_contra same
      obtain ⟨rfl, native, kind, rfl⟩ := sameKey_iff.mp (by simpa using same)
      obtain ⟨mine, own, sort, shelf⟩ := sameKey_iff.mp fits
      have hit : sameKey provider key library other old = true :=
        sameKey_iff.mpr ⟨mine, own.trans native.symm, sort.trans kind.symm, shelf⟩
      rw [Hash.find_none.mp none other old stored] at hit
      cases hit
    rw [Hash.find_put (by simp [fresh]) fun _ => apart, there, Option.map_some, if_neg]
    · exact ⟨old, rfl, rfl⟩
    · rintro rfl
      rw [fresh] at stored
      cases stored
  fresh other absent there := by
    rw [Hash.lookup_put] at there
    split at there
    · rename_i here
      exact here ▸ le_refl _
    · simp [absent] at there
  next := le_of_lt sequence_lt_nextId

/-- Only libraries, items and their ids are written. -/
def Entered (t u : Tables) : Prop :=
  ∃ libraries items library item, u = { t with
    libraries := libraries, items := items
    sequence := { t.sequence with library := library, item := item } }

theorem Entered.refl : Entered t t := ⟨t.libraries, t.items, t.sequence.library, t.sequence.item, rfl⟩

theorem Entered.trans (first : Entered t u) (second : Entered u v) : Entered t v := by
  obtain ⟨_, _, _, _, rfl⟩ := first
  obtain ⟨libraries, items, library, item, rfl⟩ := second
  exact ⟨libraries, items, library, item, rfl⟩

theorem sameLibrary_iff {native : String} {id : Int} {row : Library} :
    sameLibrary provider native id row = true ↔ row.providerId = provider ∧ row.nativeId = native := by
  simp [sameLibrary]

/-- A library is there under its name. -/
def Titled (provider : Int) (entry : LibraryInput) (t : Tables) : Prop :=
  ∃ id row, Hash.find (sameLibrary provider entry.nativeId) t.libraries = some (id, row) ∧ row.name = entry.name

private theorem titled_put {id : Int} {row : Library} {entry other : LibraryInput}
    (fits : sameLibrary provider entry.nativeId id row = true)
    (kept : ∀ old, t.libraries.lookup id = some old → sameLibrary provider entry.nativeId id old = true)
    (apart : other.nativeId ≠ entry.nativeId) (titled : Titled provider other t) :
    Titled provider other { t with libraries := Hash.put id row t.libraries } := by
  obtain ⟨place, found, there, named⟩ := titled
  have misses : ∀ row, sameLibrary provider entry.nativeId id row = true →
      sameLibrary provider other.nativeId id row = false := fun row hit => by
    have own := (sameLibrary_iff.mp hit).2
    simp [sameLibrary, own, apart.symm]
  refine ⟨place, found, ?_, named⟩
  have search := Hash.find_put (fun old stored => (misses row fits).trans (misses old (kept old stored)).symm)
    (fun _ => misses row fits)
  rw [search, there, Option.map_some, if_neg]
  rintro rfl
  obtain ⟨stored, hit⟩ := Hash.find_some there
  rw [misses found (kept found stored)] at hit
  cases hit

theorem writeLibrary_ok {before after : Tables × List String × List (Int × Library)} {entry : LibraryInput}
    (done : writeLibrary provider now before entry = .ok after) :
    entry.nativeId ≠ "" ∧ entry.nativeId ∉ before.2.1 ∧ after.2.1 = entry.nativeId :: before.2.1 ∧
      Entered before.1 after.1 ∧ Grows before.1 after.1 ∧ Titled provider entry after.1 ∧
      ∀ other, other.nativeId ≠ entry.nativeId → Titled provider other before.1 → Titled provider other after.1 := by
  obtain ⟨t, seen, written⟩ := before
  simp only [writeLibrary] at done
  split at done
  · cases done
  rename_i proper
  simp only [not_or] at proper
  refine ⟨proper.1, proper.2, ?_⟩
  split at done
  · rename_i id old found
    cases done
    obtain ⟨stored, fits⟩ := Hash.find_some found
    have again : sameLibrary provider entry.nativeId id { old with name := entry.name, editTime := now } = true :=
      fits
    refine ⟨rfl, ⟨_, t.items, t.sequence.library, t.sequence.item, rfl⟩,
      .of_libraries (fun other row there => ?_) rfl, ⟨id, _, Hash.find_put_found found again, rfl⟩, fun other apart titled => ?_⟩
    · rw [Hash.lookup_put]
      split
      · rename_i here
        subst here
        rw [stored] at there
        cases there
        exact ⟨_, rfl, rfl⟩
      · exact ⟨row, there, rfl⟩
    · refine titled_put again (fun row there => ?_) apart titled
      rw [stored] at there
      cases there
      exact fits
  · rename_i none
    split at done
    · cases done
    cases done
    have fresh : t.libraries.lookup (nextId t.sequence.library t.libraries) = Option.none := nextId_fresh
    have fits : sameLibrary provider entry.nativeId (nextId t.sequence.library t.libraries)
        ⟨entry.name, provider, entry.nativeId, now⟩ = true := by simp [sameLibrary]
    refine ⟨rfl, ⟨_, t.items, _, t.sequence.item, rfl⟩,
      .of_libraries (fun other row there => ?_) rfl, ⟨_, _, Hash.find_put_new fresh fits, rfl⟩, fun other apart titled => ?_⟩
    · rw [Hash.lookup_put, if_neg]
      · exact ⟨row, there, rfl⟩
      · rintro rfl
        rw [fresh] at there
        cases there
    · exact titled_put fits (fun row there => by rw [fresh] at there; cases there) apart titled

theorem allocate_ok {item : ItemRef} {after : Tables × Int × ItemRow}
    (done : allocate provider now kinds t item = .ok after) :
    Entered t after.1 ∧ after.1.libraries = t.libraries ∧ Grows t after.1 ∧
      Named after.1 provider kinds item after.2.1 after.2.2 := by
  cases item with
  | id given =>
    obtain ⟨found, resolved, rest⟩ := bind_ok.mp done
    cases rest
    exact ⟨.refl, rfl, .refl, resolve_iff.mp resolved⟩
  | key key =>
    obtain ⟨optional, shelf, rest⟩ := bind_ok.mp done
    cases optional with
    | none => cases rest
    | some library =>
      dsimp only at rest
      split at rest
      · cases rest
      rename_i member
      rw [not_not] at member
      split at rest
      · rename_i id found there
        split at rest
        · cases rest
        rename_i own
        cases rest
        obtain ⟨stored, fits⟩ := Hash.find_some there
        obtain ⟨mine, -, kind, -⟩ := sameKey_iff.mp fits
        have same : identity { found with lastSyncAt := now } = identity found := rfl
        have grows : Grows t { t with items := Hash.put id { found with lastSyncAt := now } t.items } :=
          .touch stored same
        refine ⟨⟨t.libraries, _, t.sequence.library, t.sequence.item, rfl⟩, rfl, grows, ?_, mine, ?_, nofun, ?_⟩
        · simp
        · exact .inr (by rw [← kind] at member; exact member)
        · rintro _ ⟨⟩
          refine ⟨.inr member, ?_, library, grows.library shelf, ?_⟩
          · cases given : key.id with
            | none => rfl
            | some other => simpa [given] using own
          · exact Hash.find_put_found there ((sameKey_congr same).trans fits)
      · rename_i none
        split at rest
        · cases rest
        rename_i own
        split at rest
        · cases rest
        cases rest
        have grows : Grows t { t with
            items := Hash.put t.nextItem ⟨key.nativeId, library, provider, key.kind, now⟩ t.items
            sequence := { t.sequence with item := t.nextItem } } := .register none
        refine ⟨⟨t.libraries, _, t.sequence.library, _, rfl⟩, rfl, grows, ?_, rfl, .inr member, nofun, ?_⟩
        · simp
        · rintro _ ⟨⟩
          refine ⟨.inr member, ?_, library, grows.library shelf, ?_⟩
          · simp [Option.not_isSome_iff_eq_none.mp own]
          · exact Hash.find_put_new nextId_fresh (by simp [sameKey])

end Enter

/-! The rows, turn by turn. -/

theorem resolve_and_iff {ρ : Type} {rest : Int × ItemRow → Except String ρ} {value : ρ} :
    (resolve t.database provider item kinds >>= rest) = .ok value ↔
      ∃ id row, Named t provider kinds item id row ∧ rest (id, row) = .ok value := by
  rw [bind_ok]
  constructor
  · rintro ⟨⟨id, row⟩, resolved, done⟩
    exact ⟨id, row, resolve_iff.mp resolved, done⟩
  · rintro ⟨id, row, named, done⟩
    exact ⟨(id, row), resolve_iff.mpr named, done⟩

theorem pure_ok {ρ : Type} {value given : ρ} : (pure value : Except String ρ) = .ok given ↔ given = value := by
  simp [pure, Except.pure, eq_comm]

theorem unless_iff {ρ : Type} {refused : Prop} [Decidable refused] {text : String} {rest : Except String ρ}
    {value : ρ} : (if refused then .error text else rest) = .ok value ↔ ¬refused ∧ rest = .ok value := by
  by_cases h : refused <;> simp [h]

section Entities

variable {ι ρ : Type} {mask : Mask}

/-- A group reads back what it has written, in a table of its own. -/
structure Group.Lawful (group : Group ι ρ) : Prop where
  rows_update : ∀ t rows, group.rows (group.update t rows) = rows
  update_rows : ∀ t, group.update t (group.rows t) = t
  update_update : ∀ t rows next, group.update (group.update t rows) next = group.update t next
  still : ∀ t rows, Still t (group.update t rows)

theorem albumGroup_lawful : Group.Lawful albumGroup := ⟨fun _ _ => rfl, fun _ => rfl, fun _ _ _ => rfl, fun _ _ => ⟨rfl, rfl, rfl⟩⟩

theorem artistGroup_lawful : Group.Lawful artistGroup := ⟨fun _ _ => rfl, fun _ => rfl, fun _ _ _ => rfl, fun _ _ => ⟨rfl, rfl, rfl⟩⟩

theorem songGroup_lawful : Group.Lawful songGroup := ⟨fun _ _ => rfl, fun _ => rfl, fun _ _ _ => rfl, fun _ _ => ⟨rfl, rfl, rfl⟩⟩

theorem remoteMixGroup_lawful : Group.Lawful remoteMixGroup :=
  ⟨fun _ _ => rfl, fun _ => rfl, fun _ _ _ => rfl, fun _ _ => ⟨rfl, rfl, rfl⟩⟩

theorem writeEntity_iff {group : Group ι ρ} {before after : Tables × List (Wrote ρ)} {entry : ι} :
    writeEntity group provider mask before entry = .ok after ↔
      ∃ id item row, Named before.1 provider group.kinds (group.item entry) id item ∧
        group.apply entry (((group.rows before.1).lookup id).getD group.fresh)
          ((group.rows before.1).lookup id).isNone mask = .ok row ∧ group.name row ≠ "" ∧
        after = (group.update before.1 (Hash.put id row (group.rows before.1)),
          before.2 ++ [⟨id, row, ((group.rows before.1).lookup id).isNone⟩]) := by
  simp only [writeEntity]
  rw [resolve_and_iff]
  refine exists_congr fun id => exists_congr fun item => ?_
  simp only [bind_ok, unless_iff, pure_ok, exists_and_left, ne_eq]

end Entities

theorem writeImage_iff {before after : Tables × List (Int × ImageType)} {entry : ImageInput} :
    writeImage provider before entry = .ok after ↔
      ∃ id item, Named before.1 provider [] entry.itemId id item ∧ (id, entry.imageType) ∉ before.2 ∧
        after = ({ before.1 with images := ImageInput.apply entry (id, entry.imageType) before.1.images },
          (id, entry.imageType) :: before.2) := by
  simp only [writeImage]
  rw [resolve_and_iff]
  simp only [unless_iff, pure_ok]

/-- The album a song is given, resolved and in the song's library. -/
def Chosen (t : Tables) (provider : Int) (library : Option Int) : Option ItemRef → Option Int → Prop
  | none, album => album = none
  | some key, album => ∃ id row, Named t provider [.album] key id row ∧ row.libraryId = library ∧ album = some id

theorem chooseAlbum_iff {library : Option Int} {album : Option ItemRef} {chosen : Option Int} :
    chooseAlbum provider t library album = .ok chosen ↔ Chosen t provider library album chosen := by
  cases album with
  | none => exact ⟨fun same => (Except.ok.inj same).symm, fun same => congrArg _ (Eq.symm same)⟩
  | some key =>
    simp only [chooseAlbum]
    rw [resolve_and_iff]
    refine exists_congr fun id => exists_congr fun row => ?_
    rw [unless_iff, pure_ok, ne_eq, not_not]
    simp only [eq_comm]

theorem setAlbum_iff {song : Int × ItemRow} {album : Option ItemRef} :
    setAlbum provider t song album = .ok u ↔
      ∃ chosen row, Chosen t provider song.2.libraryId album chosen ∧ t.songs.lookup song.1 = some row ∧
        (∀ id, chosen = some id → (t.albums.lookup id).isSome) ∧
        u = { t with songs := Hash.put song.1 { row with albumId := chosen } t.songs } := by
  simp only [setAlbum, bind_ok, chooseAlbum_iff]
  refine exists_congr fun chosen => ?_
  cases t.songs.lookup song.1 with
  | none => simp
  | some row =>
    have keyed : (¬(chosen.any fun id => (t.albums.lookup id).isNone) = true) ↔
        ∀ id, chosen = some id → (t.albums.lookup id).isSome := by
      cases chosen with
      | none => simp
      | some id =>
        simp only [Option.any_some, Option.some.injEq, forall_eq']
        cases t.albums.lookup id <;> simp
    simp only [unless_iff, pure_ok, keyed, Option.some.injEq]
    constructor
    · rintro ⟨fits, there, same⟩
      exact ⟨row, fits, rfl, there, same⟩
    · rintro ⟨_, fits, rfl, there, same⟩
      exact ⟨fits, there, same⟩

theorem checkTarget_iff {owner : Int × ItemRow} {seen after : List Int} {target : ItemRef} :
    checkTarget provider t owner seen target = .ok after ↔
      ∃ id, (∃ row, Named t provider [.artist] target id row ∧ row.libraryId = owner.2.libraryId) ∧
        id ∉ seen ∧ after = seen ++ [id] := by
  simp only [checkTarget]
  rw [resolve_and_iff]
  refine exists_congr fun id => ?_
  simp only [unless_iff, pure_ok, ne_eq, not_not]
  constructor
  · rintro ⟨row, named, shelf, new, same⟩
    exact ⟨⟨row, named, shelf⟩, new, same⟩
  · rintro ⟨⟨row, named, shelf⟩, new, same⟩
    exact ⟨row, named, shelf, new, same⟩

theorem checkMember_iff {seen after : List Int} {song : ItemRef} :
    checkMember provider t seen song = .ok after ↔
      ∃ id, (∃ row, Named t provider [.song] song id row) ∧ id ∉ seen ∧ after = seen ++ [id] := by
  simp only [checkMember]
  rw [resolve_and_iff]
  refine exists_congr fun id => ?_
  simp only [unless_iff, pure_ok, exists_and_right]

/-- The targets of a relation, or the songs of a mix: each reference with the id
it names, no id twice. -/
def Listed (Fits : ItemRef → Int → Prop) (items : List ItemRef) (ids : List Int) : Prop :=
  List.Forall₂ Fits items ids ∧ ids.Nodup

theorem checkTargets_iff {owner : Int × ItemRow} {targets : List ItemRef} {ids : List Int} :
    targets.foldlM (checkTarget provider t owner) [] = .ok ids ↔
      Listed (fun target id => ∃ row, Named t provider [.artist] target id row ∧
        row.libraryId = owner.2.libraryId) targets ids := by
  rw [foldlM_distinct (checkTarget provider t owner) fun _ _ _ => checkTarget_iff]
  simp [Listed]

theorem checkMembers_iff {songs : List ItemRef} {ids : List Int} :
    songs.foldlM (checkMember provider t) [] = .ok ids ↔
      Listed (fun song id => ∃ row, Named t provider [.song] song id row) songs ids := by
  rw [foldlM_distinct (checkMember provider t) fun _ _ _ => checkMember_iff]
  simp [Listed]

variable {relation : Relation}

theorem writeRelation_iff {entry : RelationInput} :
    writeRelation relation provider now before entry = .ok after ↔
      ∃ owner item ids related, Named before.1 provider relation.kinds entry.owner owner item ∧
        owner ∉ before.2 ∧
        Listed (fun target id => ∃ row, Named before.1 provider [.artist] target id row ∧
          row.libraryId = item.libraryId) entry.targets ids ∧
        ids.foldlM (relate relation now owner) (clearRelation relation entry.mode owner before.1) = .ok related ∧
        after = (related, owner :: before.2) := by
  simp only [writeRelation]
  rw [resolve_and_iff]
  refine exists_congr fun owner => exists_congr fun item => ?_
  simp only [unless_iff, bind_ok, pure_ok, checkTargets_iff, exists_and_left]

theorem writeContents_iff {entry : MixContents} : writeContents provider before entry = .ok after ↔
      entry.mode = .replace ∧ ∃ remote item id mix ids filled counted,
        Named before.1 provider [.mix, .radio] entry.mix remote item ∧ remote ∉ before.2 ∧
        Hash.find (ofRemote remote) before.1.mixes = some (id, mix) ∧
        Listed (fun song id => ∃ row, Named before.1 provider [.song] song id row) entry.songs ids ∧
        fillMix id ids before.1 = .ok filled ∧ countMix remote id mix ids.length filled = .ok counted ∧
        after = (counted, remote :: before.2) := by
  simp only [writeContents, unless_iff, ne_eq, not_not]
  refine and_congr_right fun _ => ?_
  rw [resolve_and_iff]
  refine exists_congr fun remote => exists_congr fun item => ?_
  simp only [unless_iff]
  cases Hash.find (ofRemote remote) before.1.mixes with
  | none => simp
  | some found =>
    simp only [bind_ok, pure_ok, checkMembers_iff, Option.some.injEq]
    constructor
    · rintro ⟨named, new, ids, listed, filled, fills, counted, counts, same⟩
      exact ⟨found.1, found.2, ids, filled, counted, named, new, rfl, listed, fills, counts, same⟩
    · rintro ⟨id, mix, ids, filled, counted, named, new, rfl, listed, fills, counts, same⟩
      exact ⟨named, new, ids, listed, filled, fills, counted, counts, same⟩

/-! The tables each phase writes. -/

theorem libraries_shape {entries : List LibraryInput}
    {before after : Tables × List String × List (Int × Library)}
    (done : entries.foldlM (writeLibrary provider now) before = .ok after) :
    Entered before.1 after.1 ∧ Grows before.1 after.1 :=
  foldlM_keeps (fun state => Entered before.1 state.1 ∧ Grows before.1 state.1) done
    (fun _ _ _ _ held turned => by
      obtain ⟨-, -, -, entered, grows, -⟩ := writeLibrary_ok turned
      exact ⟨held.1.trans entered, held.2.trans grows⟩)
    ⟨.refl, .refl⟩

theorem allocateEntry_ok {before after : Tables × List (Int × ItemRow)}
    (done : allocateEntry provider now kinds before item = .ok after) :
    ∃ id row, (Entered before.1 after.1 ∧ after.1.libraries = before.1.libraries ∧ Grows before.1 after.1) ∧
      Named after.1 provider kinds item id row ∧ id ∉ before.2.map Prod.fst ∧ after.2 = before.2 ++ [(id, row)] := by
  obtain ⟨⟨next, id, row⟩, allocated, rest⟩ := bind_ok.mp done
  obtain ⟨entered, libraries, grows, named⟩ := allocate_ok allocated
  obtain ⟨new, same⟩ := unless_iff.mp rest
  cases pure_ok.mp same
  exact ⟨id, row, ⟨entered, libraries, grows⟩, named, new, rfl⟩

theorem allocated_shape {entries : List ItemRef} {before after : Tables × List (Int × ItemRow)}
    (done : entries.foldlM (allocateEntry provider now kinds) before = .ok after) :
    Entered before.1 after.1 ∧ after.1.libraries = before.1.libraries ∧ Grows before.1 after.1 :=
  foldlM_keeps (fun state => Entered before.1 state.1 ∧ state.1.libraries = before.1.libraries ∧
      Grows before.1 state.1) done
    (fun _ _ _ _ held turned => by
      obtain ⟨_, _, ⟨entered, libraries, grows⟩, -⟩ := allocateEntry_ok turned
      exact ⟨held.1.trans entered, libraries.trans held.2.1, held.2.2.trans grows⟩)
    ⟨.refl, rfl, .refl⟩

theorem enter_iff : enter w batch t = .ok done ↔ ∃ shelved albums artists songs remotes,
      batch.libraries.foldlM (writeLibrary w.provider w.now) (t, [], []) = .ok shelved ∧
      (batch.albums.map AlbumInput.item).foldlM (allocateEntry w.provider w.now [.album]) (shelved.1, []) =
        .ok albums ∧
      (batch.artists.map ArtistInput.item).foldlM (allocateEntry w.provider w.now [.artist]) albums = .ok artists ∧
      (batch.songs.map SongInput.item).foldlM (allocateEntry w.provider w.now [.song]) artists = .ok songs ∧
      (batch.remoteMixes.map RemoteMixInput.item).foldlM (allocateEntry w.provider w.now [.mix, .radio]) songs =
        .ok remotes ∧ done = (remotes.1, shelved.2.2, remotes.2) := by
  simp only [enter, bind_ok, pure_ok]
  constructor
  · rintro ⟨shelved, first, albums, second, artists, third, songs, fourth, remotes, fifth, same⟩
    exact ⟨shelved, albums, artists, songs, remotes, first, second, third, fourth, fifth, same⟩
  · rintro ⟨shelved, albums, artists, songs, remotes, first, second, third, fourth, fifth, same⟩
    exact ⟨shelved, first, albums, second, artists, third, songs, fourth, remotes, fifth, same⟩

theorem enter_shape (entered : enter w batch t = .ok done) : Entered t done.1 ∧ Grows t done.1 := by
  obtain ⟨shelved, albums, artists, songs, remotes, first, second, third, fourth, fifth, rfl⟩ :=
    enter_iff.mp entered
  have libraries := libraries_shape first
  have one := allocated_shape second
  have two := allocated_shape third
  have three := allocated_shape fourth
  have four := allocated_shape fifth
  exact ⟨libraries.1.trans (one.1.trans (two.1.trans (three.1.trans four.1))),
    libraries.2.trans (one.2.2.trans (two.2.2.trans (three.2.2.trans four.2.2)))⟩

theorem writeEntities_shape {ι ρ : Type} {group : Group ι ρ} {mask : Mask} {entries : List ι}
    {after : Tables × List (Wrote ρ)} (lawful : Group.Lawful group)
    (done : writeEntities group provider mask entries t = .ok after) :
    ∃ rows, after.1 = group.update t rows :=
  foldlM_keeps (fun state => ∃ rows, state.1 = group.update t rows) done
    (fun _ _ _ _ held turned => by
      obtain ⟨rows, same⟩ := held
      obtain ⟨_, _, _, -, -, -, rfl⟩ := writeEntity_iff.mp turned
      exact ⟨_, by rw [same, lawful.update_update]⟩)
    ⟨group.rows t, (lawful.update_rows t).symm⟩

theorem writeMix_shape {remotes : List (Wrote RemoteMix)} (done : remotes.foldlM writeMix t = .ok u) :
    ∃ mixes last, u = { t with mixes := mixes, sequence := { t.sequence with mix := last } } :=
  foldlM_keeps
    (fun u => ∃ mixes last, u = { t with mixes := mixes, sequence := { t.sequence with mix := last } }) done
    (fun remote _ before after held turned => by
      obtain ⟨mixes, last, rfl⟩ := held
      simp only [writeMix] at turned
      split at turned
      · cases turned
      split at turned
      · cases turned
        exact ⟨_, _, rfl⟩
      · cases turned
        exact ⟨_, _, rfl⟩)
    ⟨t.mixes, t.sequence.mix, rfl⟩

theorem describe_iff {done : Tables × Entities} :
    describe w batch t = .ok done ↔ ∃ albums artists songs remotes last,
      writeEntities albumGroup w.provider batch.options.albums batch.albums t = .ok albums ∧
      writeEntities artistGroup w.provider batch.options.artists batch.artists albums.1 = .ok artists ∧
      writeEntities songGroup w.provider batch.options.songs batch.songs artists.1 = .ok songs ∧
      writeEntities remoteMixGroup w.provider batch.options.remoteMixes batch.remoteMixes songs.1 = .ok remotes ∧
      (albums.2.forM fun wrote => checkAlbum wrote.row) = .ok () ∧
      (artists.2.forM fun wrote => checkArtist wrote.row) = .ok () ∧
      (songs.2.forM fun wrote => checkSong wrote.row) = .ok () ∧ remotes.2.foldlM writeMix remotes.1 = .ok last ∧
      done = (last, ⟨albums.2, artists.2, songs.2, remotes.2⟩) := by
  simp only [describe, bind_ok, pure_ok]
  constructor
  · rintro ⟨albums, first, artists, second, songs, third, remotes, fourth, _, one, _, two, _, three, last, mixes,
      same⟩
    exact ⟨albums, artists, songs, remotes, last, first, second, third, fourth, one, two, three, mixes, same⟩
  · rintro ⟨albums, artists, songs, remotes, last, first, second, third, fourth, one, two, three, mixes, same⟩
    exact ⟨albums, first, artists, second, songs, third, remotes, fourth, _, one, _, two, _, three, last, mixes,
      same⟩

theorem dynamics_shape {mask : Mask} {kept : Int → Bool} {entries : List DynamicInput}
    (done : writeDynamicRows provider mask now kept entries items t = .ok u) :
    ∃ dynamics, u = { t with dynamics := dynamics } := by
  obtain ⟨left, -, rest⟩ := bind_ok.mp done
  exact ⟨_, pure_ok.mp rest⟩

theorem images_shape {entries : List ImageInput} {before after : Tables × List (Int × ImageType)}
    (done : entries.foldlM (writeImage provider) before = .ok after) :
    ∃ images, after.1 = { before.1 with images := images } :=
  foldlM_keeps (fun state => ∃ images, state.1 = { before.1 with images := images }) done
    (fun _ _ _ _ held turned => by
      obtain ⟨images, same⟩ := held
      obtain ⟨_, _, -, -, rfl⟩ := writeImage_iff.mp turned
      exact ⟨_, by rw [same]⟩)
    ⟨before.1.images, rfl⟩

theorem relate_shape {owner artist : Int} (done : relate relation now owner t artist = .ok u) :
    ∃ rows last, u = relation.update t rows last := by
  simp only [relate] at done
  split at done
  · cases done
    exact ⟨_, _, rfl⟩
  · split at done
    · cases done
    · cases done
      exact ⟨_, _, rfl⟩

/-- A relation reads back what it has written, in a table of its own. -/
structure Relation.Lawful (relation : Relation) : Prop where
  rows_update : ∀ t rows last, relation.rows (relation.update t rows last) = rows
  update_self : ∀ t, relation.update t (relation.rows t) (relation.sequence t) = t
  update_update : ∀ t rows last next final,
    relation.update (relation.update t rows last) next final = relation.update t next final
  still : ∀ t rows last, Still t (relation.update t rows last)

theorem albumArtists_lawful : Relation.Lawful albumArtists :=
  ⟨fun _ _ _ => rfl, fun _ => rfl, fun _ _ _ _ _ => rfl, fun _ _ _ => ⟨rfl, rfl, rfl⟩⟩

theorem songArtists_lawful : Relation.Lawful songArtists :=
  ⟨fun _ _ _ => rfl, fun _ => rfl, fun _ _ _ _ _ => rfl, fun _ _ _ => ⟨rfl, rfl, rfl⟩⟩

theorem clearRelation_shape {mode : RelationMode} {owner : Int} (lawful : Relation.Lawful relation) :
    ∃ rows last, clearRelation relation mode owner t = relation.update t rows last := by
  unfold clearRelation
  split
  · exact ⟨_, _, (lawful.update_self t).symm⟩
  · exact ⟨_, _, rfl⟩

theorem writeRelation_shape {entry : RelationInput} (lawful : Relation.Lawful relation)
    (done : writeRelation relation provider now before entry = .ok after) :
    ∃ rows last, after.1 = relation.update before.1 rows last := by
  obtain ⟨owner, item, ids, related, -, -, -, loop, rfl⟩ := writeRelation_iff.mp done
  obtain ⟨rows, last, cleared⟩ : ∃ rows last,
    clearRelation relation entry.mode owner before.1 = relation.update before.1 rows last :=
      clearRelation_shape lawful
  exact foldlM_keeps (fun u => ∃ rows last, u = relation.update before.1 rows last) loop
    (fun artist _ middle next held turned => by
      obtain ⟨rows, last, rfl⟩ := held
      obtain ⟨rows, last, rfl⟩ := relate_shape turned
      exact ⟨rows, last, lawful.update_update ..⟩) ⟨rows, last, cleared⟩

theorem connect_iff {wrote : List (Wrote Song)} :
    connect w batch items wrote t = .ok u ↔ ∃ dynamic images patched chosen albums songs contents,
      writeDynamicRows w.provider batch.options.dynamics w.now w.kept batch.dynamics items t = .ok dynamic ∧
      batch.images.foldlM (writeImage w.provider) (dynamic, []) = .ok images ∧
      batch.songs.foldlM (patchAlbum w.provider batch.options.songs ((wrote.filter Wrote.inserted).map Wrote.id))
        (images.1, []) = .ok patched ∧
      batch.songAlbums.foldlM (writeSongAlbum w.provider) patched = .ok chosen ∧
      batch.albumArtists.foldlM (writeRelation albumArtists w.provider w.now) (chosen.1, []) = .ok albums ∧
      batch.songArtists.foldlM (writeRelation songArtists w.provider w.now) (albums.1, []) = .ok songs ∧
      batch.remoteMixContents.foldlM (writeContents w.provider) (songs.1, []) = .ok contents ∧
      u = contents.1 := by
  simp only [connect, bind_ok, pure_ok]
  constructor
  · rintro ⟨dynamic, first, images, second, patched, third, chosen, fourth, albums, fifth, songs, sixth, contents,
      seventh, same⟩
    exact ⟨dynamic, images, patched, chosen, albums, songs, contents, first, second, third, fourth, fifth, sixth,
      seventh, same⟩
  · rintro ⟨dynamic, images, patched, chosen, albums, songs, contents, first, second, third, fourth, fifth, sixth,
      seventh, same⟩
    exact ⟨dynamic, first, images, second, patched, third, chosen, fourth, albums, fifth, songs, sixth, contents,
      seventh, same⟩

theorem fillMix_shape {mix : Int} {songs : List Int} (done : fillMix mix songs t = .ok u) :
    ∃ rows last, u = { t with relMixSongs := rows, sequence := { t.sequence with relMixSong := last } } :=
  foldlM_keeps
    (fun u => ∃ rows last, u = { t with relMixSongs := rows, sequence := { t.sequence with relMixSong := last } })
    done
    (fun song _ before after held turned => by
      obtain ⟨rows, last, rfl⟩ := held
      simp only [insertMember] at turned
      split at turned <;> cases turned
      exact ⟨_, _, rfl⟩)
    ⟨_, t.sequence.relMixSong, rfl⟩

theorem contents_shape {entries : List MixContents}
    (done : entries.foldlM (writeContents provider) before = .ok after) :
    ∃ rows remotes mixes last, after.1 = { before.1 with
      relMixSongs := rows, remoteMixes := remotes, mixes := mixes
      sequence := { before.1.sequence with relMixSong := last } } :=
  foldlM_keeps (fun state => ∃ rows remotes mixes last, state.1 = { before.1 with
      relMixSongs := rows, remoteMixes := remotes, mixes := mixes
      sequence := { before.1.sequence with relMixSong := last } }) done
    (fun entry _ middle next held turned => by
      obtain ⟨rows, remotes, mixes, last, same⟩ := held
      obtain ⟨-, remote, item, id, mix, ids, filled, counted, -, -, -, -, fills, counts, rfl⟩ :=
        writeContents_iff.mp turned
      obtain ⟨_, _, rfl⟩ := fillMix_shape fills
      simp only [countMix] at counts
      split at counts <;> cases counts
      exact ⟨_, _, _, _, by rw [same]⟩)
    ⟨_, _, _, _, rfl⟩

theorem apply_iff {done : Tables × SyncResult} :
    apply w batch t = .ok done ↔ ∃ entered described last remotes songs,
      enter w batch t = .ok entered ∧ describe w batch entered.1 = .ok described ∧
      connect w batch entered.2.2 described.2.songs described.1 = .ok last ∧
      reread last.remoteMixes "missing remote mix" described.2.remoteMixes = .ok remotes ∧
      reread last.songs "missing song" described.2.songs = .ok songs ∧
      done = (last, ⟨entered.2.1, entered.2.2, described.2.albums.map fun wrote => (wrote.id, wrote.row),
        described.2.artists.map fun wrote => (wrote.id, wrote.row), songs, remotes⟩) := by
  simp only [apply, bind_ok, pure_ok]
  constructor
  · rintro ⟨entered, first, described, second, last, third, remotes, fourth, songs, fifth, same⟩
    exact ⟨entered, described, last, remotes, songs, first, second, third, fourth, fifth, same⟩
  · rintro ⟨entered, described, last, remotes, songs, first, second, third, fourth, fifth, same⟩
    exact ⟨entered, first, described, second, last, third, remotes, fourth, songs, fifth, same⟩

theorem transaction_iff {jsonLength : SyncBatch → Nat} {done : Tables × SyncResult} :
    transaction jsonLength w batch t = .ok done ↔ batch.admit jsonLength = .ok () ∧ w.entering = .ok () ∧
      apply w batch t = .ok done ∧ w.leaving = .ok () := by
  simp only [transaction, bind_ok, pure_ok]
  constructor
  · rintro ⟨_, admitted, _, entering, done, applied, _, leaving, rfl⟩
    exact ⟨admitted, entering, applied, leaving⟩
  · rintro ⟨admitted, entering, applied, leaving⟩
    exact ⟨_, admitted, _, entering, _, applied, _, leaving, rfl⟩

end Qcm.BatchRules
