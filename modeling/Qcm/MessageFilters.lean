import Qcm.Lib.Buckets
import Qcm.Lib.Calendar
import Qcm.Lib.Sql

/-!
The filters of a request as conditions of a query (`backend/main/src/db/filter.rs`),
over the tables of the entities (`backend/core/src/model`).
-/

namespace Qcm.MessageFilters

open Lib Lib.Sql

inductive Table where
  | album | artist | song | mix | remoteMix | item | dynamic
  | relAlbumArtist | relSongArtist | relMixSong
  deriving DecidableEq

inductive Column where
  | id | name | sortName | description | trackCount | discCount | type | duration | language | company
  | publishTime | addedAt | albumCount | musicCount | albumId | trackNumber | discNumber | canPlay
  | popularity | tags | mixType | remoteId | createAt | updateAt | contentUpdateAt | nativeId | libraryId
  | providerId | lastSyncAt | isExternal | playCount | remotePlayCount | lastPosition | lastPlayedAt
  | remoteLastPlayedAt | favoriteAt | songId | artistId | mixId | orderIdx
  deriving DecidableEq

def Table.columns : Table → List Column
  | album => [.id, .name, .sortName, .trackCount, .discCount, .type, .duration, .language, .description, .company,
      .publishTime, .addedAt]
  | artist => [.id, .name, .sortName, .description, .albumCount, .musicCount, .addedAt]
  | song => [.id, .name, .sortName, .albumId, .trackNumber, .discNumber, .duration, .canPlay, .popularity, .tags,
      .publishTime, .addedAt]
  | mix => [.id, .name, .trackCount, .mixType, .sortName, .description, .remoteId, .createAt, .updateAt,
      .contentUpdateAt]
  | remoteMix => [.id, .name, .description, .trackCount, .mixType]
  | item => [.id, .nativeId, .libraryId, .providerId, .type, .createAt, .updateAt, .lastSyncAt]
  | dynamic => [.id, .isExternal, .playCount, .remotePlayCount, .lastPosition, .lastPlayedAt, .remoteLastPlayedAt,
      .favoriteAt, .updateAt]
  | relAlbumArtist => [.id, .albumId, .artistId, .updateAt]
  | relSongArtist => [.id, .songId, .artistId, .updateAt]
  | relMixSong => [.id, .songId, .mixId, .orderIdx, .updateAt]

abbrev Expr := Sql.Expr Table Column

abbrev ColumnRef := Sql.ColumnRef Table Column

abbrev Scopes := List (Frame Table Column)

/-- A database with these tables. -/
def database (rows : Table → List (Row Column)) : Database Table Column where
  has table column := column ∈ table.columns
  rows := rows

/-- `Expr::col(column)` of a column alone does not name the table. -/
def col (column : Column) : ColumnRef := ⟨none, column⟩

def Table.col (table : Table) (column : Column) : ColumnRef := ⟨some table, column⟩

def innerJoin (table : Table) (left right : ColumnRef) : Join Table Column := ⟨.inner, table, left, right⟩

/-- `Expr::col(left).equals(right)` -/
def equals (left right : ColumnRef) : Expr := .compare .eq left (.column right)

inductive StringCondition where
  | unspecified | is | isNot | contains | containsNot
  deriving DecidableEq

inductive IntCondition where
  | unspecified | equal | equalNot | less | lessEqual | greater | greaterEqual
  deriving DecidableEq

inductive DateCondition where
  | unspecified | before | after | null | notNull
  deriving DecidableEq

inductive TypeCondition where
  | unspecified | is | isNot
  deriving DecidableEq

inductive LogicOp where
  | unspecified | and | or
  deriving DecidableEq

/-! The number of a value that an enumeration does not have reads as unspecified. -/

def StringCondition.ofI32 : Int → StringCondition
  | 1 => is
  | 2 => isNot
  | 3 => contains
  | 4 => containsNot
  | _ => unspecified

def IntCondition.ofI32 : Int → IntCondition
  | 1 => equal
  | 2 => equalNot
  | 3 => less
  | 4 => lessEqual
  | 5 => greater
  | 6 => greaterEqual
  | _ => unspecified

def DateCondition.ofI32 : Int → DateCondition
  | 1 => before
  | 2 => after
  | 3 => null
  | 4 => notNull
  | _ => unspecified

def TypeCondition.ofI32 : Int → TypeCondition
  | 1 => is
  | 2 => isNot
  | _ => unspecified

def LogicOp.ofI32 : Int → LogicOp
  | 1 => and
  | 2 => or
  | _ => unspecified

/-- `TitleFilter`, `NameFilter`, `AlbumTitleFilter`, `ArtistNameFilter` and `TypeStringFilter` -/
structure StringFilter where
  value : Text
  condition : Int

/-- The filters of numbers, of types and of dates. -/
structure IntFilter where
  value : Int
  condition : Int

/-- `AlbumIdFilter`, `MixIdFilter`, `AlbumArtistIdFilter` and `ArtistIdFilter` -/
structure IdFilter where
  value : Option Int

structure FilterLogic where
  op : Int
  groupA : Int
  groupB : Int

inductive AlbumPayload where
  | titleFilter (title : StringFilter)
  | trackFilter (track : IntFilter)
  | artistNameFilter (artist : StringFilter)
  | artistIdFilter (id : IdFilter)
  | albumArtistIdFilter (id : IdFilter)
  | yearFilter (year : IntFilter)
  | addedDateFilter (added : IntFilter)
  | durationFilter (duration : IntFilter)
  | typeFilter (albumType : IntFilter)
  | discCountFilter (discCount : IntFilter)
  | lastPlayedAtFilter (lastPlayedAt : IntFilter)

inductive ArtistPayload where
  | nameFilter (name : StringFilter)
  | albumTitleFilter (albumName : StringFilter)
  | yearFilter (year : IntFilter)
  | addedDateFilter (added : IntFilter)

inductive SongPayload where
  | albumIdFilter (id : IdFilter)
  | mixIdFilter (id : IdFilter)

inductive MixPayload where
  | nameFilter (name : StringFilter)
  | trackFilter (track : IntFilter)
  | yearFilter (year : IntFilter)
  | addedDateFilter (added : IntFilter)
  | lastPlayedAtFilter (lastPlayedAt : IntFilter)
  | typeFilter (tf : IntFilter)

inductive RemoteMixPayload where
  | nameFilter (name : StringFilter)
  | trackFilter (track : IntFilter)
  | typeFilter (mixType : StringFilter)
  | localTypeFilter (tf : IntFilter)

/-- `AlbumFilter`, `ArtistFilter`, `SongFilter`, `MixFilter` and `RemoteMixFilter` -/
structure Filter (Payload : Type) where
  group : Int
  payload : Option Payload

inductive ProcessError where
  | missingFields (name : String)
  | wrongId (name : String)
  | noSuchMix (id : Int)
  /-- The database refuses the query. -/
  | db
  deriving DecidableEq

/-- `IdField::required` -/
def required (id : Option Int) (name : String) : Except ProcessError Int :=
  match id with
  | none => .error (.missingFields name)
  | some id => if id ≤ 0 then .error (.wrongId name) else .ok id

inductive Panic where
  /-- `unwrap` of a date that there is not. -/
  | noSuchLocalTime
  deriving DecidableEq

/-- The years that `chrono` has dates of. -/
structure Chrono where
  first : Int
  last : Int
  last_lt : last < 2 ^ 31 - 1

/-- `Utc.with_ymd_and_hms(year, 1, 1, 0, 0, 0).unwrap()`, as a `Timestamp` -/
def Chrono.yearStart (chrono : Chrono) (year : Int) : Except Panic Int :=
  if chrono.first ≤ year ∧ year ≤ chrono.last then .ok (Calendar.yearStart year)
  else .error .noSuchLocalTime

/-- A year of `DateTime::to_string`: four digits at least, with a sign where they do not do. -/
def yearText (year : Int) : Text :=
  let digits := (toString year.natAbs).toList
  let digits := List.replicate (4 - digits.length) '0' ++ digits
  if 0 ≤ year ∧ year ≤ 9999 then digits else (if year < 0 then '-' else '+') :: digits

/-- `to_string` of the first of January -/
def yearStartText (year : Int) : Text := yearText year ++ "-01-01 00:00:00 UTC".toList

section

variable (ref : ColumnRef)

def intConditionToExpr : IntCondition → Int → Option Expr
  | .equal, val => some (.compare .eq ref (.value (.integer val)))
  | .equalNot, val => some (.compare .ne ref (.value (.integer val)))
  | .greater, val => some (.compare .gt ref (.value (.integer val)))
  | .greaterEqual, val => some (.compare .gte ref (.value (.integer val)))
  | .less, val => some (.compare .lt ref (.value (.integer val)))
  | .lessEqual, val => some (.compare .lte ref (.value (.integer val)))
  | .unspecified, _ => none

def stringConditionToExpr : StringCondition → Text → Option Expr
  | .contains, s => some (.like ref ('%' :: (s ++ ['%'])))
  | .containsNot, s => some (.notLike ref ('%' :: (s ++ ['%'])))
  | .is, s => some (.compare .eq ref (.value (.text s)))
  | .isNot, s => some (.compare .ne ref (.value (.text s)))
  | .unspecified, _ => none

def dateConditionToExpr : DateCondition → Int → Option Expr
  | .after, val => some (.compare .gte ref (.value (.integer val)))
  | .before, val => some (.compare .lte ref (.value (.integer val)))
  | .null, _ => some (.isNull ref)
  | .notNull, _ => some (.isNotNull ref)
  | .unspecified, _ => none

def typeConditionToExpr : TypeCondition → Int → Option Expr
  | .is, val => some (.compare .eq ref (.value (.integer val)))
  | .isNot, val => some (.compare .ne ref (.value (.integer val)))
  | .unspecified, _ => none

def typeStringConditionToExpr : TypeCondition → Text → Option Expr
  | .is, val => some (.compare .eq ref (.value (.text val)))
  | .isNot, val => some (.compare .ne ref (.value (.text val)))
  | .unspecified, _ => none

/-! `get_expr` of the filters. -/

def StringFilter.getExpr (f : StringFilter) : Option Expr :=
  stringConditionToExpr ref (.ofI32 f.condition) f.value

def StringFilter.getTypeExpr (f : StringFilter) : Option Expr :=
  typeStringConditionToExpr ref (.ofI32 f.condition) f.value

def IntFilter.getExpr (f : IntFilter) : Option Expr := intConditionToExpr ref (.ofI32 f.condition) f.value

def IntFilter.getTypeExpr (f : IntFilter) : Option Expr := typeConditionToExpr ref (.ofI32 f.condition) f.value

def IntFilter.getDateExpr (f : IntFilter) : Option Expr := dateConditionToExpr ref (.ofI32 f.condition) f.value

/-- A bad id is not left out: nothing has it. -/
def IdFilter.getExpr (f : IdFilter) : Option Expr :=
  some (match required f.value "filter_id" with
    | .error _ => .constant false
    | .ok id => .compare .eq ref (.value (.integer id)))

/-- `YearFilter::get_expr` -/
def IntFilter.getYearExpr (chrono : Chrono) (f : IntFilter) : Except Panic (Option Expr) := do
  let dt ← chrono.yearStart f.value
  match IntCondition.ofI32 f.condition with
  | .equal => do
    let dtNext ← chrono.yearStart (f.value + 1)
    return some (.all [.compare .gte ref (.value (.integer dt)), .compare .lt ref (.value (.integer dtNext))])
  | .equalNot => do
    let _ ← chrono.yearStart (f.value + 1)
    -- the bound is the text of the date, not its time
    return some (.all [.compare .lt ref (.value (.integer dt)),
      .compare .gt ref (.value (.text (yearStartText (f.value + 1))))])
  | .greater => return some (.compare .gt ref (.value (.integer dt)))
  | .greaterEqual => return some (.compare .gte ref (.value (.integer dt)))
  | .less => return some (.compare .lt ref (.value (.integer dt)))
  | .lessEqual => return some (.compare .lte ref (.value (.integer dt)))
  | .unspecified => return none

end

def albumFilterToExpr (chrono : Chrono) (f : Filter AlbumPayload) : Except Panic (Option Expr) :=
  match f.payload with
  | some (.artistNameFilter artist) =>
    .ok ((artist.getExpr (Table.artist.col .name)).map fun artistNameExpr =>
      .existsIn .song
        [innerJoin .relSongArtist (Table.relSongArtist.col .songId) (Table.song.col .id),
          innerJoin .artist (Table.artist.col .id) (Table.relSongArtist.col .artistId)]
        [equals (col .albumId) (Table.album.col .id), artistNameExpr])
  | some (.albumArtistIdFilter id) =>
    .ok ((id.getExpr (Table.artist.col .id)).map fun expr =>
      .existsIn .artist
        [innerJoin .relAlbumArtist (Table.relAlbumArtist.col .artistId) (Table.artist.col .id)]
        [equals (Table.relAlbumArtist.col .albumId) (Table.album.col .id), expr])
  | some (.artistIdFilter id) =>
    .ok ((id.getExpr (Table.relSongArtist.col .artistId)).map fun expr =>
      .existsIn .song
        [innerJoin .relSongArtist (Table.relSongArtist.col .songId) (Table.song.col .id)]
        [equals (Table.song.col .albumId) (Table.album.col .id), expr])
  | some (.titleFilter title) => .ok (title.getExpr (col .name))
  | some (.trackFilter track) => .ok (track.getExpr (col .trackCount))
  | some (.durationFilter duration) => .ok (duration.getExpr (col .duration))
  | some (.yearFilter year) => year.getYearExpr (col .publishTime) chrono
  | some (.addedDateFilter added) => .ok (added.getDateExpr (col .addedAt))
  | some (.typeFilter albumType) => .ok (albumType.getTypeExpr (Table.album.col .type))
  | some (.discCountFilter discCount) => .ok (discCount.getExpr (col .discCount))
  | some (.lastPlayedAtFilter lastPlayedAt) => .ok (lastPlayedAt.getDateExpr (Table.dynamic.col .lastPlayedAt))
  | none => .ok none

def artistFilterToExpr (f : Filter ArtistPayload) : Except Panic (Option Expr) :=
  .ok <| match f.payload with
  | some (.nameFilter name) => name.getExpr (col .name)
  | some (.addedDateFilter added) => added.getDateExpr (col .addedAt)
  | some (.albumTitleFilter albumName) =>
    (albumName.getExpr (Table.album.col .name)).map fun albumNameExpr =>
      .existsIn .album
        [innerJoin .relAlbumArtist (Table.relAlbumArtist.col .albumId) (Table.album.col .id)]
        [equals (Table.artist.col .id) (Table.relAlbumArtist.col .artistId), albumNameExpr]
  | some (.yearFilter _) => none
  | none => none

def mixFilterToExpr (f : Filter MixPayload) : Except Panic (Option Expr) :=
  .ok <| match f.payload with
  | some (.nameFilter name) => name.getExpr (col .name)
  | some (.trackFilter track) => track.getExpr (col .trackCount)
  | some (.typeFilter tf) => tf.getTypeExpr (col .mixType)
  | some (.yearFilter _) | some (.addedDateFilter _) | some (.lastPlayedAtFilter _) => none
  | none => none

def remoteMixFilterToExpr (f : Filter RemoteMixPayload) : Except Panic (Option Expr) :=
  .ok <| match f.payload with
  | some (.nameFilter name) => name.getExpr (col .name)
  | some (.typeFilter mixType) => mixType.getTypeExpr (Table.remoteMix.col .mixType)
  | some (.trackFilter track) => track.getExpr (col .trackCount)
  | some (.localTypeFilter tf) =>
    (tf.getTypeExpr (Table.mix.col .mixType)).map fun typeExpr =>
      .existsIn .mix [] [equals (Table.mix.col .remoteId) (Table.remoteMix.col .id), typeExpr]
  | none => none

def songFilterToExpr (f : Filter SongPayload) : Except Panic (Option Expr) :=
  .ok <| match f.payload with
  | some (.albumIdFilter id) => id.getExpr (col .albumId)
  | some (.mixIdFilter id) =>
    (id.getExpr (Table.relMixSong.col .mixId)).map fun idExpr =>
      .existsIn .relMixSong [] [equals (Table.relMixSong.col .songId) (Table.song.col .id), idExpr]
  | none => none

section

variable {F : Type} (groupOf : F → Int) (toExpr : F → Except Panic (Option Expr))

def addFilter (buckets : List (Int × List Expr)) (f : F) : Except Panic (List (Int × List Expr)) := do
  match ← toExpr f with
  | some expr => return Buckets.push (groupOf f) expr buckets
  | none => return buckets

/-- The expressions of the filters by their groups. -/
def fillBuckets (filters : List F) : Except Panic (List (Int × List Expr)) :=
  filters.foldlM (addFilter groupOf toExpr) []

def groupCond (buckets : List (Int × List Expr)) (g : Int) : Option Expr :=
  (Buckets.get buckets g).map fun exprs => .all exprs

/-- What the entries of the logics leave: a condition to each, and the groups they speak of. -/
structure Pairs where
  pairConds : List Expr
  referenced : List Int

def relate (buckets : List (Int × List Expr)) (pairs : Pairs) (entry : FilterLogic) : Pairs :=
  match groupCond buckets entry.groupA, groupCond buckets entry.groupB with
  | some a, some b =>
    let combined : Expr := match LogicOp.ofI32 entry.op with
      | .or => .any [a, b]
      | .and | .unspecified => .all [a, b]
    { pairConds := pairs.pairConds ++ [combined]
      referenced := entry.groupB :: entry.groupA :: pairs.referenced }
  | _, _ => pairs

def combine (buckets : List (Int × List Expr)) (logics : List FilterLogic) : Option Expr :=
  if buckets.isEmpty then none
  else
    let pairs := logics.foldl (relate buckets) ⟨[], []⟩
    some (.all (pairs.pairConds ++ buckets.filterMap fun (g, _) =>
      if g ∈ pairs.referenced then none else groupCond buckets g))

def buildGroupedCondition (filters : List F) (logics : List FilterLogic) : Except Panic (Option Expr) := do
  let buckets ← fillBuckets groupOf toExpr filters
  return combine buckets logics

end

/-- `qcm_filters`: without a condition every row is left. -/
def Selects (db : Database Table Column) (scopes : Scopes) : Option Expr → Prop
  | none => True
  | some condition => condition.Holds db scopes

instance (db : Database Table Column) (scopes : Scopes) :
    (condition : Option Expr) → Decidable (Selects db scopes condition)
  | none => isTrue trivial
  | some condition => inferInstanceAs (Decidable (condition.Holds db scopes))

end Qcm.MessageFilters
