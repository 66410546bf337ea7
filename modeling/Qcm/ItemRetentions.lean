import Qcm.SyncCoordinator

/-!
The retentions of items that keep a full sync from pruning them, with the table
of each provider that counts them.  A call of `retain_items` waits for the write
lock of its provider and at each of its queries, so other writers, the drop of a
retention and the calls for other providers fall in between.  The table itself
is locked for a whole loop over ids, in the call and in the drop.
-/

namespace Qcm.ItemRetentions

open Lib SyncDatabase
open SyncCoordinator (retainCounts)

def maxRootItems : Nat := 4096

/-- The queries of `retain_items`, in their order. -/
inductive Query where
  | roots | albums | songArtists | albumArtists | dependencies
  deriving DecidableEq

/-- What a call waits for, or that only its counts are left to do. -/
inductive Point where
  | lock
  | query (query : Query)
  | count
  deriving DecidableEq

/-- A call of `retain_items` with its variables.  `asked` are the ids it was
given and `views` the databases its queries have read, both for the statements
only. -/
structure Call where
  provider : Int
  ids : Finset Int
  roots : List (Int × ItemRow)
  songArtists : List Int
  point : Point
  asked : Finset Int
  views : Query → Database

def Call.fresh (provider : Int) (ids : Finset Int) : Call :=
  ⟨provider, ids, [], [], .lock, ids, fun _ => Database.empty⟩

/-- The call behind the lock. -/
def Call.enter (call : Call) : Except String Call :=
  if maxRootItems < call.ids.card ∨ ∃ id ∈ call.ids, id ≤ 0 then .error "invalid retained item set"
  else .ok { call with point := .query .roots }

/-- The call after one of its queries. -/
def Call.read (call : Call) (db : Database) (query : Query) : Except String Call :=
  let call := { call with views := Function.update call.views query db }
  match query with
  | .roots =>
    let roots := (db.candidates call.provider).filter fun entry => entry.1 ∈ call.ids
    if roots.length ≠ call.ids.card then
      .error "retained item is missing or belongs to another provider"
    else .ok { call with roots := roots, point := .query .albums }
  | .albums =>
    let albums := db.songs.entries.filterMap fun entry =>
      if entry.1 ∈ call.ids then entry.2.albumId else none
    .ok { call with ids := call.ids ∪ albums.toFinset, point := .query .songArtists }
  | .songArtists =>
    let songArtists := db.relSongArtists.entries.filterMap fun entry =>
      if entry.2.owner ∈ call.ids then some entry.2.artistId else none
    .ok { call with songArtists := songArtists, point := .query .albumArtists }
  | .albumArtists =>
    let albumArtists := db.relAlbumArtists.entries.filterMap fun entry =>
      if entry.2.owner ∈ call.ids then some entry.2.artistId else none
    .ok { call with
      ids := call.ids ∪ call.songArtists.toFinset ∪ albumArtists.toFinset
      point := .query .dependencies }
  | .dependencies =>
    let dependencies := (db.candidates call.provider).filter fun entry => entry.1 ∈ call.ids
    if dependencies.length ≠ call.ids.card then
      .error "retained item dependency is missing or belongs to another provider"
    else .ok { call with point := .count }

/-- `ItemRetention`; its owner is the table of a provider. -/
structure ItemRetention where
  owner : Int
  roots : List (Int × ItemRow)
  ids : Finset Int

def Call.retention (call : Call) : ItemRetention := ⟨call.provider, call.roots, call.ids⟩

/-- One turn of the loop of `drop`; nothing where the subtraction underflows. -/
def dropOne (counts : Hash Int Nat) (id : Int) : Option (Hash Int Nat) :=
  match counts.lookup id with
  | none => some counts
  | some 0 => none
  | some (count + 1) => some (if count = 0 then counts.erase id else counts.insert id count)

/-- `ItemRetention::drop`, over its ids in some order. -/
def dropAll (order : List Int) (counts : Hash Int Nat) : Option (Hash Int Nat) := order.foldlM dropOne counts

/-- The database, the write locks that are taken, the tables, the calls on their
way, and the live retentions, each with the call that made it. -/
structure World where
  db : Database
  locked : Int → Bool
  counts : Int → Hash Int Nat
  calls : Nat → Option Call
  live : List (ItemRetention × Call)

/-- What happens. -/
inductive Event where
  | wrote (db : Database)
  | locked (provider : Int)
  | unlocked (provider : Int)
  | called (k : Nat) (provider : Int) (ids : Finset Int)
  | entered (k : Nat)
  | read (k : Nat) (query : Query)
  | refused (k : Nat) (text : String)
  | abandoned (k : Nat)
  | retained (k : Nat)
  | dropped (retention : ItemRetention) (order : List Int)

/-- The world without a call, whose lock is free again if the call had it. -/
def World.leave (w : World) (k : Nat) (call : Call) : World :=
  { w with
    calls := Function.update w.calls k none
    locked := if call.point = .lock then w.locked else Function.update w.locked call.provider false }

/-- One step. -/
inductive Step : World → Event → World → Prop where
  /-- Any write of anyone. -/
  | write {w : World} {db : Database} : Step w (.wrote db) { w with db := db }
  /-- Another user of the write lock of a provider. -/
  | lock {w : World} {p : Int} (free : w.locked p = false) :
      Step w (.locked p) { w with locked := Function.update w.locked p true }
  | unlock {w : World} {p : Int}
      (other : ∀ k call, w.calls k = some call → call.provider = p → call.point = .lock) :
      Step w (.unlocked p) { w with locked := Function.update w.locked p false }
  | call {w : World} {k : Nat} {p : Int} {ids : Finset Int} (unused : w.calls k = none) :
      Step w (.called k p ids) { w with calls := Function.update w.calls k (some (Call.fresh p ids)) }
  | enter {w : World} {k : Nat} {call next : Call} (there : w.calls k = some call)
      (waiting : call.point = .lock) (free : w.locked call.provider = false)
      (passed : call.enter = .ok next) :
      Step w (.entered k)
        { w with
          calls := Function.update w.calls k (some next)
          locked := Function.update w.locked call.provider true }
  | refuse {w : World} {k : Nat} {call : Call} {text : String} (there : w.calls k = some call)
      (waiting : call.point = .lock) (free : w.locked call.provider = false)
      (refused : call.enter = .error text) : Step w (.refused k text) (w.leave k call)
  | read {w : World} {k : Nat} {call next : Call} {query : Query} (there : w.calls k = some call)
      (waiting : call.point = .query query) (passed : call.read w.db query = .ok next) :
      Step w (.read k query) { w with calls := Function.update w.calls k (some next) }
  | miss {w : World} {k : Nat} {call : Call} {query : Query} {text : String}
      (there : w.calls k = some call) (waiting : call.point = .query query)
      (refused : call.read w.db query = .error text) : Step w (.refused k text) (w.leave k call)
  /-- A query fails, or the call is dropped while it waits. -/
  | abandon {w : World} {k : Nat} {call : Call} (there : w.calls k = some call)
      (waiting : call.point ≠ .count) : Step w (.abandoned k) (w.leave k call)
  | retain {w : World} {k : Nat} {call : Call} {order : List Int} (there : w.calls k = some call)
      (last : call.point = .count) (every : order.Nodup ∧ order.toFinset = call.ids) :
      Step w (.retained k)
        { w.leave k call with
          counts := Function.update w.counts call.provider
            (retainCounts (w.counts call.provider) order)
          live := (call.retention, call) :: w.live }
  | drop {w : World} {early late : List (ItemRetention × Call)} {entry : ItemRetention × Call}
      {order : List Int} {table : Hash Int Nat} (alive : w.live = early ++ entry :: late)
      (every : order.Nodup ∧ order.toFinset = entry.1.ids)
      (done : dropAll order (w.counts entry.1.owner) = some table) :
      Step w (.dropped entry.1 order)
        { w with
          counts := Function.update w.counts entry.1.owner table
          live := early ++ late }

/-- The tables are empty at the start, and nothing has been retained. -/
structure Initial (w : World) : Prop where
  unlocked : ∀ p, w.locked p = false
  counts : ∀ p, w.counts p = ∅
  calls : ∀ k, w.calls k = none
  live : w.live = []

end Qcm.ItemRetentions
