import Qcm.Lib.Pages
import Qcm.Lib.SqlQuery
import Qcm.MessageFilters

/-!
The requests that list entities by pages (`backend/main/src/api/entity_query.rs`,
`api/pagination.rs` and `api/helper_sort.rs`).
-/

namespace Qcm.EntityPages

open Lib Lib.Sql MessageFilters

abbrev Query := Sql.Query Table Column

abbrev Engine := Sql.Engine Table Column

inductive Failure where
  | panic (panic : Panic)
  | error (error : ProcessError)

structure PageParams where
  page : Nat
  pageSize : Nat
  deriving DecidableEq

def PageParams.new (page pageSize : Int) : PageParams := ⟨(max page 0).toNat, (max pageSize 1).toNat⟩

def PageParams.hasMore (params : PageParams) (total : Nat) : Bool := params.page * params.pageSize < total

/-- A number that the enumeration does not have is that of the default, the title. -/
def albumSortCol : Int → SortKey Table Column
  | 1 => .column (col .sortName)
  | 2 | 3 => .column (col .publishTime)
  | 4 => .column (col .trackCount)
  | 5 => .column (col .addedAt)
  | 6 => .column (col .discCount)
  | 7 => .column (Table.dynamic.col .lastPlayedAt)
  | 99 => .random
  | _ => .column (col .name)

/-- The default is the name. -/
def artistSortCol : Int → SortKey Table Column
  | 1 => .column (Table.artist.col .sortName)
  | 2 => .column (Table.artist.col .albumCount)
  | 3 => .column (Table.artist.col .musicCount)
  | _ => .column (Table.artist.col .name)

/-- The default is the title. -/
def songSortCol : Int → SortKey Table Column
  | 0 => .column (Table.song.col .trackNumber)
  | 2 => .column (Table.song.col .sortName)
  | 3 => .column (Table.song.col .publishTime)
  | 4 => .column (Table.song.col .duration)
  | 5 => .column (Table.song.col .popularity)
  | 99 => .random
  | _ => .column (Table.song.col .name)

/-! ## Requests -/

/-- `GetAlbumsReq`, `GetAlbumArtistsReq`, `GetArtistsReq`, `GetMixsReq` and `GetRemoteMixsReq` -/
structure ListReq (Payload : Type) where
  libraryId : List Int
  page : Int
  pageSize : Int
  sort : Int
  sortAsc : Bool
  filters : List (MessageFilters.Filter Payload)
  filterLogics : List FilterLogic

structure GetMixSongsReq where
  id : Option Int
  page : Int
  pageSize : Int
  sort : Int
  sortAsc : Bool

inductive Request where
  | getAlbums (req : ListReq AlbumPayload)
  | getAlbumArtists (req : ListReq ArtistPayload)
  | getArtists (req : ListReq ArtistPayload)
  | getMixs (req : ListReq MixPayload)
  | getRemoteMixs (req : ListReq RemoteMixPayload)
  | getMixSongs (req : GetMixSongsReq)

def Request.page : Request → Int
  | getAlbums req => req.page
  | getAlbumArtists req | getArtists req => req.page
  | getMixs req => req.page
  | getRemoteMixs req => req.page
  | getMixSongs req => req.page

def Request.pageSize : Request → Int
  | getAlbums req => req.pageSize
  | getAlbumArtists req | getArtists req => req.pageSize
  | getMixs req => req.pageSize
  | getRemoteMixs req => req.pageSize
  | getMixSongs req => req.pageSize

/-- The same request for another page. -/
def Request.turnTo (page : Int) : Request → Request
  | getAlbums req => getAlbums { req with page }
  | getAlbumArtists req => getAlbumArtists { req with page }
  | getArtists req => getArtists { req with page }
  | getMixs req => getMixs { req with page }
  | getRemoteMixs req => getRemoteMixs { req with page }
  | getMixSongs req => getMixSongs { req with page }

structure Response where
  ids : List Int
  total : Int
  hasMore : Bool
  deriving DecidableEq

/-- `IdList::checked` -/
def checked (values : List Int) (name : String) : Except ProcessError (List Int) :=
  if values.any (· ≤ 0) then .error (.wrongId name) else .ok values

/-- `qcm_filters` -/
def qcmFilters {Payload : Type} (toExpr : MessageFilters.Filter Payload → Except Panic (Option Expr))
    (req : ListReq Payload) :
    Except Failure (List Expr) :=
  match buildGroupedCondition Filter.group toExpr req.filters req.filterLogics with
  | .error panic => .error (.panic panic)
  | .ok condition => .ok condition.toList

def inLibraries (libraryId : List Int) (name : String) : Except Failure Expr :=
  match checked libraryId name with
  | .error error => .error (.error error)
  | .ok ids => .ok (.isIn (Table.item.col .libraryId) (ids.map Value.integer))

def leftJoin (table : Table) (left right : ColumnRef) : Join Table Column := ⟨.left, table, left, right⟩

/-- The artists of a library that a table of relations names. -/
def artistsQuery (rel : Table) (req : ListReq ArtistPayload) : Except Failure Query := do
  let libraries ← inLibraries req.libraryId "library_ids"
  let filters ← qcmFilters artistFilterToExpr req
  return {
    table := .artist
    joins := [innerJoin .item (Table.artist.col .id) (Table.item.col .id),
      innerJoin rel (Table.artist.col .id) (rel.col .artistId)]
    conditions := libraries :: filters
    orderBy := [(artistSortCol req.sort, req.sortAsc)]
    distinct := true
    output := [Table.artist.col .id] }

/-- The query of a request, before it is cut into pages. -/
def Request.query (chrono : Chrono) : Request → Except Failure Query
  | getAlbums req => do
    let libraries ← inLibraries req.libraryId "library_ids"
    let filters ← qcmFilters (albumFilterToExpr chrono) req
    return {
      table := .album
      joins := [innerJoin .item (Table.album.col .id) (Table.item.col .id),
        leftJoin .dynamic (Table.album.col .id) (Table.dynamic.col .id)]
      conditions := [libraries, .compare .eq (Table.dynamic.col .isExternal) (.value (.integer 0))] ++ filters
      orderBy := [(albumSortCol req.sort, req.sortAsc)]
      distinct := false
      output := [Table.album.col .id] }
  | getAlbumArtists req => artistsQuery .relAlbumArtist req
  | getArtists req => artistsQuery .relSongArtist req
  | getMixs req => do
    let filters ← qcmFilters mixFilterToExpr req
    return {
      table := .mix
      joins := []
      -- the number of `MixType::Cache`
      conditions := .compare .ne (Table.mix.col .mixType) (.value (.integer 2)) :: filters
      orderBy := []
      distinct := false
      output := [Table.mix.col .id] }
  | getRemoteMixs req => do
    let filters ← qcmFilters remoteMixFilterToExpr req
    return {
      table := .remoteMix
      joins := [leftJoin .mix (Table.remoteMix.col .id) (Table.mix.col .remoteId)]
      conditions := filters
      orderBy := []
      distinct := false
      -- of the columns of both tables, those that are read
      output := [Table.mix.col .id] }
  | getMixSongs req =>
    match required req.id "mix_id" with
    | .error error => .error (.error error)
    | .ok id => .ok {
        table := .song
        joins := [innerJoin .item (Table.song.col .id) (Table.item.col .id),
          innerJoin .relMixSong (Table.song.col .id) (Table.relMixSong.col .songId)]
        conditions := [.compare .eq (Table.relMixSong.col .mixId) (.value (.integer id))]
        orderBy := [(songSortCol req.sort, req.sortAsc), (.column (Table.relMixSong.col .orderIdx), false)]
        distinct := false
        output := [Table.song.col .id] }

/-- The id in a row; a remote mix without a local one has none, and is left out. -/
def rowId : List Value → Option Int
  | [.integer id] => some id
  | _ => none

/-- `find_by_id` of the mix, after its songs are read. -/
def Request.confirm (db : Database Table Column) : Request → Except Failure Unit
  | getMixSongs req =>
    match req.id with
    | some id =>
      if (db.rows .mix).any fun row => row .id = .integer id then .ok () else .error (.error (.noSuchMix id))
    | none => .ok ()
  | _ => .ok ()

/-- `total as i32` -/
def asI32 (n : Nat) : Int := ((n : Int) + 2 ^ 31) % 2 ^ 32 - 2 ^ 31

/-- One request; the number says which run of the query it is. -/
def Request.execute (chrono : Chrono) (engine : Engine) (turn : Nat) (db : Database Table Column) (request : Request) :
    Except Failure Response := do
  let params := PageParams.new request.page request.pageSize
  let query ← request.query chrono
  if query.prepares db then
    let total := query.count db
    let rows := Lib.page params.pageSize params.page (query.rows db engine turn)
    request.confirm db
    return ⟨rows.filterMap rowId, asI32 total, params.hasMore total⟩
  else .error (.error .db)

end Qcm.EntityPages
