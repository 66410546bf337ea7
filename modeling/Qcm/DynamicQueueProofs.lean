import Qcm.DynamicIdQueue
import Qcm.IdQueueProofs

/-!
What the queue of a radio keeps, whatever order its answers come in.

`Book` is the invariant of the rows, the pages and the sessions, and `Asking`
that of the query of opens; every function keeps both.  A session that an open
brings has to be new: a retried open is answered with the session of the first
attempt, and where that attempt is answered as well, late, the session is closed
although it is the current one (`retried_session_closed`).
-/

namespace Qcm.DynamicQueueProofs

open Lib DynamicIdQueue
open IdQueue (Queue Platform Item insertIds insertItems removeRows contains fresh)
open IdQueueProofs (RepInv Documented contains_iff insert_keeps_iff removeRows_defined_iff removeRows_rep
  removeRows_eq)

variable {Id Extra H : Type} {p : Platform Id H} {q : Queue Id Extra H}
variable {rows after : Queue Id Extra H} {session next : QueueSession} {past pages : List (Applied Id)}
variable {obtained closed : List String} {flight : Flight Id} {idx : Int} {event : Event Id}

section
variable [DecidableEq H]

variable {rows : Queue Id Extra H} {session : QueueSession} {past pages : List (Applied Id)}
  {obtained closed : List String}

theorem removeFirst (doc : Documented p) (rep : RepInv p q) {count : Int} (some : 0 < count)
    (inside : count ≤ q.rowCount) :
    ∃ result, removeRows p q 0 count = .some result ∧ RepInv p result.2 ∧
      result.2.queue = q.queue.drop count.toNat ∧
      (count ≤ q.currentIndex → result.2.currentIndex = q.currentIndex - count) := by
  obtain ⟨result, ran⟩ := (removeRows_defined_iff p q 0 count).mpr (.inr ⟨Int.le_refl 0, by omega⟩)
  obtain ⟨-, -, rows, current⟩ := removeRows_eq ran (by omega)
  refine ⟨result, ran, removeRows_rep doc rep ran, ?_, fun behind => ?_⟩
  · rw [rows, Lib.Splice.eraseRange, Int.toNat_zero, List.take_zero, Nat.zero_add, List.nil_append]
  · rw [current, if_pos (by omega)]

theorem insertLast [DecidableEq Id] (doc : Documented p) (rep : RepInv p q) {ids : List Id} (distinct : ids.Nodup) :
    ∃ result, insertIds p q q.rowCount ids = .some result ∧ RepInv p result.2 ∧
      result.2.queue.map Item.id = q.queue.map Item.id ++ ids.filter fun id => id ∉ q.queue.map Item.id := by
  have added : (fresh p q (ids.map fun id => ⟨id, none⟩)).map Item.id =
      ids.filter fun id => id ∉ q.queue.map Item.id := by
    rw [fresh, List.filter_map, List.map_map]
    refine (List.map_id _).trans (List.filter_congr fun id _ => ?_)
    have held := contains_iff rep doc.injective id
    by_cases there : id ∈ q.queue.map Item.id
    · simp [held.mpr there, there]
    · simp [Bool.eq_false_iff.mpr (mt held.mp there), there]
  obtain ⟨after, ran, kept⟩ := (insert_keeps_iff doc rep q.rowCount (ids.map fun id => ⟨id, none⟩)).mpr
    (.inr (.inr ⟨Int.natCast_nonneg _, added ▸ distinct.sublist List.filter_sublist⟩))
  obtain ⟨result, inserted, rfl⟩ := Option.map_eq_some_iff.mp ran
  refine ⟨result, inserted, kept, ?_⟩
  rw [← added]
  rw [insertItems, if_neg (Int.lt_irrefl _)] at inserted
  simp only at inserted
  split_ifs at inserted with none negative
  · cases inserted
    rw [none, List.map_nil, List.append_nil]
  · cases inserted
    simp only [Lib.Splice.insertRange, Queue.rowCount, Int.toNat_natCast, List.take_length, List.drop_length,
      List.append_nil, List.map_append]

/-! ## Rows, pages and sessions -/

/-- The rows are what is left of the pages of the session, every page was applied
once and in order, and a session is closed once it is not the current one. -/
structure Book (p : Platform Id H) (rows : Queue Id Extra H) (session : QueueSession) (past pages : List (Applied Id))
    (obtained closed : List String) : Prop where
  rep : RepInv p rows
  suffix : rows.queue.map Item.id <:+ pages.flatMap Applied.added
  own : ∀ page ∈ pages, page.session = session.id ∧ page.version ≤ session.version
  ordered : (pages.map Applied.version).Pairwise (· < ·)
  once : ((past ++ pages).map Applied.key).Nodup
  known : ∀ page ∈ past ++ pages, page.session ∈ obtained
  apart : ∀ page ∈ past, page.session ≠ session.id
  named : "" ∉ obtained
  current : session.id = "" ∨ session.id ∈ obtained
  closedOnce : closed.Nodup
  closed_iff (id : String) : id ∈ closed ↔ id ∈ obtained ∧ id ≠ session.id

abbrev Kept (c : Context Id H) (s : State Id Extra H) : Prop :=
  Book c.platform s.rows s.session s.past s.pages s.obtained s.closed

variable {c : Context Id H} {s : State Id Extra H}

theorem constructed_kept (configuration : List QueueConfigField) :
    Kept c (constructed configuration : State Id Extra H) where
  rep := IdQueueProofs.empty_rep
  suffix := List.nil_suffix
  own := nofun
  ordered := List.Pairwise.nil
  once := List.nodup_nil
  known := nofun
  apart := nofun
  named := List.not_mem_nil
  current := .inl rfl
  closedOnce := List.nodup_nil
  closed_iff id := by simp [constructed]

theorem Book.leave (book : Book p rows session past pages obtained closed) (rep : RepInv p after)
    (gone : after.queue = []) (new : next.id ∉ obtained) :
    Book p after next (past ++ pages) [] (obtained ++ if next.id = "" then [] else [next.id])
      (closed ++ if session.id = "" then [] else [session.id]) := by
  have named := book.named
  have closed_iff := book.closed_iff
  refine ⟨rep, by rw [gone]; exact List.nil_suffix, nofun, List.Pairwise.nil, ?_, ?_, ?_, ?_, ?_, ?_, ?_⟩
  · rw [List.append_nil]
    exact book.once
  · intro page member
    rw [List.append_nil] at member
    exact List.mem_append_left _ (book.known page member)
  · intro page member same
    exact new (same ▸ book.known page member)
  · split_ifs with none
    · simpa using named
    · simp [named, Ne.symm none]
  · split_ifs with none
    · exact .inl none
    · exact .inr (List.mem_append_right _ (List.mem_singleton.mpr rfl))
  · split_ifs with none
    · simpa using book.closedOnce
    · refine List.Nodup.append book.closedOnce (List.nodup_singleton _) fun id there same => ?_
      exact ((closed_iff id).mp there).2 (List.mem_singleton.mp same)
  · intro id
    have other : id ∈ obtained → id ≠ next.id := fun there same => new (same ▸ there)
    have before : id ∈ closed ++ (if session.id = "" then [] else [session.id]) ↔ id ∈ obtained := by
      rw [List.mem_append, closed_iff]
      split_ifs with none
      · rw [none]
        exact ⟨fun held => (held.resolve_right List.not_mem_nil).1,
          fun there => .inl ⟨there, fun same => named (same ▸ there)⟩⟩
      · constructor
        · rintro (⟨there, -⟩ | same)
          · exact there
          · exact List.mem_singleton.mp same ▸ book.current.resolve_left none
        · intro there
          by_cases same : id = session.id
          · exact .inr (List.mem_singleton.mpr same)
          · exact .inl ⟨there, same⟩
    rw [before, List.mem_append]
    split_ifs with none
    · simpa using other
    · simpa [or_and_right] using other

theorem Book.page [DecidableEq Id] {added : List Id}
    (book : Book p rows session past pages obtained closed) (rep : RepInv p after)
    (put : after.queue.map Item.id = rows.queue.map Item.id ++ added) (same : next.id = session.id)
    (some : session.id ∈ obtained) (newer : ∀ page ∈ pages, page.version < next.version) :
    Book p after next past (pages ++ [⟨next.id, next.version, added⟩]) obtained closed where
  rep := rep
  suffix := by
    rw [put, List.flatMap_append, List.flatMap_singleton]
    obtain ⟨trimmed, whole⟩ := book.suffix
    exact ⟨trimmed, by rw [← List.append_assoc, whole]⟩
  own := by
    intro page member
    obtain earlier | rfl := Runs.mem_snoc member
    · exact ⟨same ▸ (book.own page earlier).1, Nat.le_of_lt (newer page earlier)⟩
    · exact ⟨rfl, le_rfl⟩
  ordered := by
    rw [List.map_append, List.pairwise_append]
    refine ⟨book.ordered, List.pairwise_singleton _ _, ?_⟩
    simpa using newer
  once := by
    rw [← List.append_assoc, List.map_append]
    refine List.Nodup.append book.once (List.nodup_singleton _) fun key there last => ?_
    obtain ⟨page, member, rfl⟩ := List.mem_map.mp there
    obtain ⟨session', version'⟩ := Prod.mk.inj (List.mem_singleton.mp last)
    obtain before | earlier := List.mem_append.mp member
    · exact book.apart page before (session'.trans same)
    · exact absurd version' (Nat.ne_of_lt (newer page earlier))
  known := by
    intro page member
    rw [← List.append_assoc] at member
    obtain before | rfl := Runs.mem_snoc member
    · exact book.known page before
    · rw [same]
      exact some
  apart := same ▸ book.apart
  named := book.named
  current := .inr (same ▸ some)
  closedOnce := book.closedOnce
  closed_iff := same ▸ book.closed_iff

theorem Book.drop {count : Nat} (book : Book p rows session past pages obtained closed)
    (rep : RepInv p after) (rest : after.queue = rows.queue.drop count) :
    Book p after session past pages obtained closed where
  rep := rep
  suffix := by
    rw [rest, List.map_drop]
    exact (List.drop_suffix _ _).trans book.suffix
  own := book.own
  ordered := book.ordered
  once := book.once
  known := book.known
  apart := book.apart
  named := book.named
  current := book.current
  closedOnce := book.closedOnce
  closed_iff := book.closed_iff

theorem Book.place (book : Book p rows session past pages obtained closed) (idx : Int) :
    Book p { rows with currentIndex := idx } session past pages obtained closed :=
  book.drop ⟨book.rep.distinct, book.rep.hashes⟩ List.drop_zero.symm

theorem Book.refuse {id : String} (book : Book p rows session past pages obtained closed)
    (new : id ∉ obtained) : Book p rows session past pages (obtained ++ if id = "" then [] else [id])
      (closed ++ if id = "" then [] else [id]) := by
  split_ifs with none
  · rwa [List.append_nil, List.append_nil]
  refine { book with known := ?_, named := ?_, current := ?_, closedOnce := ?_, closed_iff := ?_ }
  · exact fun page member => List.mem_append_left _ (book.known page member)
  · simp [book.named, Ne.symm none]
  · exact book.current.imp_right (List.mem_append_left _)
  · refine List.Nodup.append book.closedOnce (List.nodup_singleton _) fun other there same => ?_
    exact new (List.mem_singleton.mp same ▸ ((book.closed_iff other).mp there).1)
  · intro other
    have current : id ≠ session.id := by
      rintro rfl
      exact book.current.elim none new
    rw [List.mem_append, List.mem_append, book.closed_iff, List.mem_singleton]
    constructor
    · rintro (⟨there, apart⟩ | rfl)
      · exact ⟨.inl there, apart⟩
      · exact ⟨.inr rfl, current⟩
    · rintro ⟨there | same, apart⟩
      · exact .inl ⟨there, apart⟩
      · exact .inr same

end

/-! ## Requests -/

/-- The flights of opens: none is ahead of the query, which waits for the one of
its revision, and takes no other request meanwhile. -/
structure Asking (flights : List (Flight Id)) (query : Query Id) (configuring : Bool) : Prop where
  earlier : ∀ flight ∈ flights, flight.request.opens = true → flight.revision ≤ query.revision
  waiting : ∀ flight ∈ flights, flight.request.opens = true → flight.revision = query.revision →
    query.status = .querying
  apart : flights.Pairwise fun one other => one.request.opens = true → other.request.opens = true →
    one.revision ≠ other.revision
  busy : query.status = .querying → configuring = true

variable {c : Context Id H} {s : State Id Extra H} {flights sent : List (Flight Id)} {query : Query Id}
  {configuring : Bool}

variable {next : Query Id} {fewer : List (Flight Id)} {session : String}

theorem Asking.advance (asking : Asking flights query configuring)
    (revision : next.revision = query.revision + 1) (idle : next.status ≠ .querying) (after : Bool) :
    Asking flights next after where
  earlier flight member opens := by
    have before := asking.earlier flight member opens
    omega
  waiting flight member opens same := by
    have before := asking.earlier flight member opens
    omega
  apart := asking.apart
  busy same := absurd same idle

theorem Asking.begin {next : Query Id} (asking : Asking flights query configuring) (idle : query.status ≠ .querying)
    (revision : next.revision = query.revision) : Asking flights next true where
  earlier flight member opens := revision ▸ asking.earlier flight member opens
  waiting flight member opens same := absurd (asking.waiting flight member opens (same.trans revision)) idle
  apart := asking.apart
  busy _ := rfl

theorem Asking.sublist (asking : Asking flights query configuring) (part : fewer.Sublist flights) :
    Asking fewer query configuring where
  earlier flight member := asking.earlier flight (part.subset member)
  waiting flight member := asking.waiting flight (part.subset member)
  apart := asking.apart.sublist part
  busy := asking.busy

theorem Asking.others (asking : Asking flights query configuring)
    (others : ∀ flight ∈ sent, flight.request.opens = false) : Asking (flights ++ sent) query configuring where
  earlier flight member opens := by
    obtain before | new := List.mem_append.mp member
    · exact asking.earlier flight before opens
    · exact absurd opens (by simp [others flight new])
  waiting flight member opens := by
    obtain before | new := List.mem_append.mp member
    · exact asking.waiting flight before opens
    · exact absurd opens (by simp [others flight new])
  apart := by
    refine List.pairwise_append.mpr ⟨asking.apart, ?_, ?_⟩
    · refine List.pairwise_of_forall_mem_list fun one member _ _ opens => ?_
      exact absurd opens (by simp [others one member])
    · intro one _ other member _ opens
      exact absurd opens (by simp [others other member])
  busy := asking.busy

theorem Asking.reload (c : Context Id H) (asking : Asking flights query configuring) (idle : query.status ≠ .querying) :
    Asking (flights ++ (query.reload c).2) (query.reload c).1 true := by
  have none_waiting : ∀ flight ∈ flights, flight.request.opens = true → flight.revision ≠ query.revision :=
    fun flight member opens same => idle (asking.waiting flight member opens same)
  rw [Query.reload]
  split
  · rw [List.append_nil]
    exact ⟨asking.earlier, fun flight member opens same => absurd same (none_waiting flight member opens), asking.apart,
      fun _ => rfl⟩
  · rename_i request _
    refine ⟨fun flight member opens => ?_, fun _ _ _ _ => rfl, ?_, fun _ => rfl⟩
    · obtain before | rfl := Runs.mem_snoc member
      · exact Nat.le_succ_of_le (asking.earlier flight before opens)
      · rfl
    · refine List.pairwise_append.mpr ⟨asking.apart, List.pairwise_singleton _ _, ?_⟩
      intro one before other new opens _
      rw [List.mem_singleton.mp new]
      exact Nat.ne_of_lt (Nat.lt_succ_of_le (asking.earlier one before opens))

theorem Asking.settle {index : Nat} (asking : Asking flights query configuring)
    (found : flights[index]? = some flight) (opens : flight.request.opens = true)
    (current : flight.revision = query.revision) (revision : next.revision = query.revision)
    (idle : next.status ≠ .querying) : Asking (flights.eraseIdx index) next configuring where
  earlier other member := revision ▸ asking.earlier other (List.mem_of_mem_eraseIdx member)
  waiting other member othersOpen same := by
    obtain ⟨place, apart, there⟩ := List.mem_eraseIdx_iff_getElem?.mp member
    have different : flight.revision ≠ other.revision := by
      obtain ⟨inside, rfl⟩ := List.getElem?_eq_some_iff.mp found
      obtain ⟨within, rfl⟩ := List.getElem?_eq_some_iff.mp there
      have pairs := List.pairwise_iff_getElem.mp asking.apart
      obtain before | after := Nat.lt_or_gt_of_ne apart
      · exact (pairs place index within inside before othersOpen opens).symm
      · exact pairs index place inside within after opens othersOpen
    exact absurd ((current.trans revision.symm).trans same.symm) different
  apart := asking.apart.sublist (List.eraseIdx_sublist _ _)
  busy same := absurd same idle

/-- The flights of the other query: the one of its revision was sent for a
session, which is still there. -/
def Pending (flights : List (Flight Id)) (query : Query Id) (session : String) : Prop :=
  ∀ flight ∈ flights, flight.request.opens = false →
    flight.revision ≤ query.revision ∧ (flight.revision = query.revision → session ≠ "")

theorem reload_sends (c : Context Id H) (query : Query Id) (member : flight ∈ (query.reload c).2) :
    flight.request ∈ query.request := by
  rw [Query.reload] at member
  split at member
  · cases member
  · rename_i request held
    rw [List.mem_singleton.mp member]
    exact (Option.filter_eq_some_iff.mp held).1

theorem reload_request (c : Context Id H) (query : Query Id) : (query.reload c).1.request = query.request := by
  rw [Query.reload]
  split <;> rfl

theorem reload_unfinished (c : Context Id H) (query : Query Id) : (query.reload c).1.status ≠ .finished := by
  rw [Query.reload]
  split <;> exact nofun

theorem Pending.advance (pending : Pending flights query session)
    (revision : next.revision = query.revision + 1) (other : String) : Pending flights next other := by
  intro flight member continues
  have before := (pending flight member continues).1
  exact ⟨by omega, fun same => by omega⟩

theorem Pending.sublist (pending : Pending flights query session) (part : fewer.Sublist flights) :
    Pending fewer query session :=
  fun flight member => pending flight (part.subset member)

theorem Pending.others (pending : Pending flights query session)
    (others : ∀ flight ∈ sent, flight.request.opens = true) : Pending (flights ++ sent) query session := by
  intro flight member continues
  obtain before | new := List.mem_append.mp member
  · exact pending flight before continues
  · exact absurd (others flight new) (by simp [continues])

theorem Pending.reload (c : Context Id H) (pending : Pending flights query session) (started : session ≠ "") :
    Pending (flights ++ (query.reload c).2) (query.reload c).1 session := by
  intro flight member continues
  refine ⟨?_, fun _ => started⟩
  rw [Query.reload] at member ⊢
  split at member
  · rw [List.append_nil] at member
    exact (pending flight member continues).1
  · obtain before | rfl := Runs.mem_snoc member
    · exact Nat.le_succ_of_le (pending flight before continues).1
    · rfl

theorem reset_idle (query : Query Id) : query.reset.status ≠ .querying :=
  nofun

theorem timeout_idle (query : Query Id) : query.timeout.status ≠ .querying :=
  nofun

theorem settle_revision (query : Query Id) (result : Except Failure (Page Id)) :
    (query.settle result).revision = query.revision := by
  cases result <;> rfl

theorem settle_request (query : Query Id) (result : Except Failure (Page Id)) :
    (query.settle result).request = query.request := by
  cases result <;> rfl

theorem settle_idle (query : Query Id) (result : Except Failure (Page Id)) :
    (query.settle result).status ≠ .querying := by
  cases result <;> exact nofun

theorem close_eq (s : State Id Extra H) (id : String) :
    s.close id = { s with closed := s.closed ++ if id = "" then [] else [id] } := by
  rw [State.close]
  split_ifs
  · rw [List.append_nil]
  · rfl

/-- The answer to an open brings a session that no earlier answer brought. -/
def Fresh (s : State Id Extra H) : Event Id → Prop
  | .answer index (.ok page) =>
    ∀ flight ∈ s.flights[index]?, flight.request.opens = true → page.session.id ∉ s.obtained
  | _ => True

section
variable [DecidableEq H]

/-- What holds between two events. -/
structure Sound (c : Context Id H) (s : State Id Extra H) : Prop where
  book : Kept c s
  asking : Asking s.flights s.openQuery s.configuring
  pending (alive : s.alive = true) : Pending s.flights s.query s.session.id
  /-- Each query sends requests of its own kind. -/
  opens : ∀ request ∈ s.openQuery.request, request.opens = true
  continues : ∀ request ∈ s.query.request, request.opens = false

variable {index : Nat} {t : State Id Extra H}

/-- The query of opens is busy no longer than the queue is configuring. -/
theorem Sound.idle (sound : Sound c s) (free : ¬ s.configuring = true) : s.openQuery.status ≠ .querying :=
  fun waiting => free (sound.asking.busy waiting)

theorem constructed_sound (configuration : List QueueConfigField) :
    Sound c (constructed configuration : State Id Extra H) where
  book := constructed_kept configuration
  asking := ⟨nofun, nofun, List.Pairwise.nil, nofun⟩
  pending _ := nofun
  opens := nofun
  continues := nofun

/-! ## Functions -/

theorem clear_rows (doc : Documented c.platform) (rep : RepInv c.platform s.rows) :
    ∃ after, s.clear c = some { s with rows := after } ∧ RepInv c.platform after ∧ after.queue = [] := by
  rw [State.clear]
  split_ifs with none
  · exact ⟨s.rows, rfl, rep, List.length_eq_zero_iff.mp (Int.natCast_eq_zero.mp none)⟩
  · have some : 0 < s.rows.rowCount := by
      have positive : 0 ≤ s.rows.rowCount := Int.natCast_nonneg _
      omega
    obtain ⟨result, ran, kept, rest, -⟩ := removeFirst doc rep some (Int.le_refl _)
    refine ⟨result.2, by rw [ran]; rfl, kept, ?_⟩
    rw [rest, Queue.rowCount, Int.toNat_natCast, List.drop_length]

theorem trim_rows (doc : Documented c.platform) (rep : RepInv c.platform s.rows)
    (current : s.rows.currentIndex = idx) : ∃ after, s.trim c idx = some { s with rows := after } ∧ RepInv c.platform after ∧
      ∃ count : Nat, after.queue = s.rows.queue.drop count ∧ after.currentIndex = idx - count ∧
        (count = 0 ∨ (count : Int) + 1 = idx) := by
  rw [State.trim]
  split_ifs with played
  · obtain ⟨result, ran, kept, rest, moved⟩ := removeFirst doc rep (show 0 < idx - 1 by omega) (by omega)
    refine ⟨result.2, by rw [ran]; rfl, kept, (idx - 1).toNat, rest, ?_, ?_⟩
    · rw [moved (by omega), current]
      omega
    · omega
  · exact ⟨s.rows, rfl, rep, 0, List.drop_zero.symm, by rw [current]; omega, .inl rfl⟩

theorem invalidateSession_sound (doc : Documented c.platform) (sound : Sound c s) :
    ∃ t, s.invalidateSession c = some t ∧ Sound c t := by
  let left : State Id Extra H := { s with
    closed := s.closed ++ if s.session.id = "" then [] else [s.session.id]
    query := s.query.reset, openQuery := s.openQuery.reset, session := {}
    past := s.past ++ s.pages, pages := [], sessionExpired := false, configuring := false, suppressPrefetch := false }
  obtain ⟨cleared, emptied, rep, gone⟩ := clear_rows (s := left) doc sound.book.rep
  have next := (sound.book.leave rep gone (show ({} : QueueSession).id ∉ s.obtained from sound.book.named)).place (-1)
  rw [if_pos rfl, List.append_nil] at next
  rw [State.invalidateSession, close_eq]
  refine ⟨_, Option.bind_eq_some_iff.mpr ⟨_, emptied, rfl⟩, next, ?_, fun alive => ?_, sound.opens, sound.continues⟩
  · exact sound.asking.advance rfl (reset_idle s.openQuery) false
  · exact (sound.pending alive).advance rfl _

theorem disconnected_sound (sound : Sound c s) : Sound c s.disconnected := by
  rw [State.disconnected]
  split_ifs
  · exact sound
  · exact { sound with }

theorem destroyed_sound (sound : Sound c s) : Sound c s.destroyed := by
  have left := sound.book.leave IdQueueProofs.empty_rep rfl
    (show ({} : QueueSession).id ∉ s.obtained from sound.book.named)
  rw [if_pos rfl, List.append_nil] at left
  rw [State.destroyed, close_eq]
  exact { sound with book := left, pending := (nomatch ·) }

variable [DecidableEq Id]

section

variable (doc : Documented c.platform)
include doc

theorem append_rows (rep : RepInv c.platform s.rows) (page : Page Id) :
    ∃ after, s.append c page = some { s with
        rows := after
        pages := s.pages ++ [⟨page.session.id, page.session.version, page.songIds.filter fun id => id ∉ s.ids⟩] } ∧
      RepInv c.platform after ∧
      after.queue.map Item.id = s.rows.queue.map Item.id ++ page.songIds.filter fun id => id ∉ s.ids := by
  obtain ⟨result, ran, kept, put⟩ := insertLast doc rep page.distinct
  exact ⟨result.2, by rw [State.append, ran]; rfl, kept, put⟩

theorem onQueryFinished_sound (sound : Sound c s) (started : s.query.status = .finished → s.session.id ≠ "") :
    ∃ t, s.onQueryFinished c = some t ∧ Sound c t := by
  rw [State.onQueryFinished]
  split_ifs with waiting failed expired
  · exact ⟨s, rfl, sound⟩
  · exact ⟨_, rfl, sound.book, sound.asking, sound.pending, sound.opens, sound.continues⟩
  · exact ⟨s, rfl, sound⟩
  · dsimp only
    split_ifs with stale
    · exact ⟨s, rfl, sound⟩
    · obtain ⟨same, newer⟩ := not_or.mp stale
      rw [not_not] at same
      obtain ⟨after, ran, rep, put⟩ :=
        append_rows (s := { s with session := s.query.data.session }) doc sound.book.rep s.query.data
      rw [ran]
      have held := sound.book.current.resolve_left (started (not_not.mp failed))
      have later : ∀ page ∈ s.pages, page.version < s.query.data.session.version :=
        fun page member => Nat.lt_of_le_of_lt (sound.book.own page member).2 (Nat.lt_of_not_le newer)
      refine ⟨_, rfl, sound.book.page rep put same held later, sound.asking, fun alive => ?_, sound.opens,
        sound.continues⟩
      exact same ▸ sound.pending alive

theorem reloadNext_sound (sound : Sound c s) (alive : s.alive = true) (started : s.session.id ≠ "") :
    ∃ t, s.reloadNext c = some t ∧ Sound c t := by
  have sent : ∀ flight ∈ (s.query.reload c).2, flight.request.opens = false :=
    fun flight member => sound.continues _ (reload_sends c s.query member)
  have after : Sound c { s with query := (s.query.reload c).1, flights := s.flights ++ (s.query.reload c).2 } :=
    ⟨sound.book, sound.asking.others sent, fun _ => (sound.pending alive).reload c started, sound.opens,
      reload_request c s.query ▸ sound.continues⟩
  rw [State.reloadNext]
  dsimp only
  split_ifs
  · exact ⟨_, rfl, after⟩
  · exact onQueryFinished_sound doc after fun finished => absurd finished (reload_unfinished c s.query)

theorem requestNext_sound (sound : Sound c s) (alive : s.alive = true) (started : s.session.id ≠ "") :
    ∃ t, s.requestNext c = some t ∧ Sound c t := by
  rw [State.requestNext]
  split_ifs
  · exact reloadNext_sound doc sound alive started
  · refine reloadNext_sound doc { sound with continues := ?_ } alive started
    intro request asked
    rw [← Option.some.inj asked]
    rfl

theorem onRequestNext_sound (sound : Sound c s) (alive : s.alive = true) :
    ∃ t, s.onRequestNext c = some t ∧ Sound c t := by
  rw [State.onRequestNext]
  split_ifs with stopped enough
  · exact ⟨s, rfl, sound⟩
  · exact ⟨s, rfl, sound⟩
  · refine requestNext_sound doc sound alive fun none => stopped ?_
    simp [none]

theorem onRequested_sound (sound : Sound c s) (alive : s.alive = true) :
    ∃ t, s.onRequested c = some t ∧ Sound c t :=
  onRequestNext_sound doc { sound with } alive

theorem onCurrentIndexChanged_sound (sound : Sound c s) (alive : s.alive = true)
    (current : s.rows.currentIndex = idx) : ∃ t, s.onCurrentIndexChanged c idx = some t ∧ Sound c t := by
  obtain ⟨after, ran, rep, count, rest, -⟩ := trim_rows doc sound.book.rep current
  rw [State.onCurrentIndexChanged, ran]
  exact onRequestNext_sound doc
    { sound with book := sound.book.drop rep rest } alive

theorem setCurrentIndex_sound (sound : Sound c s) (alive : s.alive = true) (idx : Int) :
    ∃ t, s.setCurrentIndex c idx = some t ∧ Sound c t := by
  rw [State.setCurrentIndex]
  split_ifs
  · exact ⟨s, rfl, sound⟩
  · have placed : Sound c { s with rows := { s.rows with currentIndex := idx } } :=
      { sound with book := sound.book.place idx }
    exact onCurrentIndexChanged_sound doc placed alive rfl

theorem onOpenFinished_sound {before : List String}
    (book : Book c.platform s.rows s.session s.past s.pages before s.closed)
    (obtained : s.obtained = before ++ if s.openQuery.status = .finished then if s.openQuery.data.session.id = "" then [] else [s.openQuery.data.session.id] else [])
    (new : s.openQuery.status = .finished → s.openQuery.data.session.id ∉ before)
    (asking : Asking s.flights s.openQuery s.configuring)
    (pending : s.alive = true → Pending s.flights s.query s.session.id)
    (opens : ∀ request ∈ s.openQuery.request, request.opens = true)
    (continues : ∀ request ∈ s.query.request, request.opens = false) :
    ∃ t, s.onOpenFinished c = some t ∧ Sound c t := by
  rw [State.onOpenFinished]
  split_ifs with waiting
  · rw [if_neg (by rw [waiting]; exact nofun), List.append_nil] at obtained
    have kept : Book c.platform s.rows s.session s.past s.pages s.obtained s.closed := obtained ▸ book
    exact ⟨s, rfl, kept, asking, pending, opens, continues⟩
  have idle (after : Bool) : Asking s.flights s.openQuery after :=
    { asking with busy := fun same => absurd same waiting }
  dsimp only
  by_cases refused : s.openQuery.status ≠ .finished ∨ s.openQuery.data.songIds = [] ∨ s.openQuery.data.session.id = ""
  · rw [if_pos refused]
    refine ⟨_, rfl, ?_⟩
    by_cases finished : s.openQuery.status = .finished
    · rw [if_pos finished, close_eq]
      rw [if_pos finished] at obtained
      have kept := obtained ▸ book.refuse (new finished)
      dsimp only
      by_cases expired : s.openQuery.sessionExpired = true
      · rw [if_pos expired]
        exact ⟨kept, idle false, pending, opens, continues⟩
      · rw [if_neg expired]
        exact ⟨kept, idle false, pending, opens, continues⟩
    · rw [if_neg finished]
      rw [if_neg finished, List.append_nil] at obtained
      have kept : Book c.platform s.rows s.session s.past s.pages s.obtained s.closed := obtained ▸ book
      split_ifs
      · exact ⟨kept, idle false, pending, opens, continues⟩
      · exact ⟨kept, idle false, pending, opens, continues⟩
  · rw [if_neg refused]
    obtain ⟨finished, some, named⟩ : s.openQuery.status = .finished ∧ s.openQuery.data.songIds ≠ [] ∧
        s.openQuery.data.session.id ≠ "" := by
      simpa only [not_or, not_not] using refused
    rw [if_pos finished] at obtained
    let left : State Id Extra H := { s with
      query := s.query.reset, configuring := false, sessionExpired := false, suppressPrefetch := false
      session := s.openQuery.data.session
      configuration := s.configuration.map s.openQuery.data.session.configure
      past := s.past ++ s.pages, pages := [] }
    obtain ⟨cleared, emptied, rep, gone⟩ := clear_rows (s := left) doc book.rep
    obtain ⟨filled, put, rep, songs⟩ := append_rows (s := { left with rows := cleared }) doc rep s.openQuery.data
    have held : s.openQuery.data.session.id ∈ s.obtained := by
      rw [obtained, if_neg named]
      exact List.mem_append_right _ (List.mem_singleton.mpr rfl)
    have away := obtained ▸ book.leave ‹RepInv c.platform cleared› gone (new finished)
    have next := (away.page rep songs rfl held nofun).place 0
    refine ⟨_, Option.bind_eq_some_iff.mpr ⟨_, emptied, Option.bind_eq_some_iff.mpr ⟨_, put, rfl⟩⟩, ?_⟩
    rw [close_eq]
    exact ⟨next, idle false, fun alive => (pending alive).advance rfl _, opens, continues⟩

theorem onOpenFinished_failed (sound : Sound c s) (failed : s.openQuery.status ≠ .finished) :
    ∃ t, s.onOpenFinished c = some t ∧ Sound c t :=
  onOpenFinished_sound doc sound.book (by rw [if_neg failed, List.append_nil]) (fun finished => absurd finished failed)
    sound.asking sound.pending sound.opens sound.continues

theorem reloadOpen_sound (sound : Sound c s) (idle : s.openQuery.status ≠ .querying)
    (busy : s.configuring = true) : ∃ t, s.reloadOpen c = some t ∧ Sound c t := by
  have sent : ∀ flight ∈ (s.openQuery.reload c).2, flight.request.opens = true :=
    fun flight member => sound.opens _ (reload_sends c s.openQuery member)
  have after : Sound c
      { s with openQuery := (s.openQuery.reload c).1, flights := s.flights ++ (s.openQuery.reload c).2 } :=
    ⟨sound.book, busy ▸ sound.asking.reload c idle, fun alive => (sound.pending alive).others sent,
      reload_request c s.openQuery ▸ sound.opens, sound.continues⟩
  rw [State.reloadOpen]
  dsimp only
  split_ifs
  · exact ⟨_, rfl, after⟩
  · exact onOpenFinished_failed doc after (reload_unfinished c s.openQuery)

theorem openQueue_sound (sound : Sound c s) (reason : QueueOpenReason)
    (configuration : List (String × String)) : ∃ t, s.openQueue c reason configuration = some t ∧ Sound c t := by
  rw [State.openQueue]
  by_cases busy : s.configuring = true
  · rw [if_pos busy]
    exact ⟨s, rfl, sound⟩
  · rw [if_neg busy]
    refine reloadOpen_sound doc
      { sound with asking := sound.asking.begin (sound.idle busy) rfl, opens := ?_ } (sound.idle busy) rfl
    intro request asked
    rw [← Option.some.inj asked]
    rfl

theorem ensureStarted_sound (sound : Sound c s) : ∃ t, s.ensureStarted c = some t ∧ Sound c t := by
  rw [State.ensureStarted]
  split_ifs with busy expired started failed
  · exact ⟨s, rfl, sound⟩
  · exact openQueue_sound doc sound _ _
  · exact ⟨s, rfl, sound⟩
  · exact reloadOpen_sound doc
      { sound with asking := sound.asking.begin (sound.idle busy) rfl }
      (sound.idle busy) rfl
  · exact openQueue_sound doc sound _ _

theorem restart_sound (sound : Sound c s) : ∃ t, s.restart c = some t ∧ Sound c t := by
  rw [State.restart]
  split_ifs
  · exact openQueue_sound doc sound _ _
  · exact ⟨s, rfl, sound⟩

theorem configure_sound (sound : Sound c s) (key value : String) :
    ∃ t, s.configure c key value = some t ∧ Sound c t := by
  rw [State.configure]
  split_ifs
  · exact ⟨s, rfl, sound⟩
  · split
    · exact ⟨s, rfl, sound⟩
    · split_ifs
      · exact ⟨s, rfl, sound⟩
      · exact openQueue_sound doc sound _ _

end

theorem answerOpen_sound (doc : Documented c.platform) (sound : Sound c s)
    (found : s.flights[index]? = some flight) (opens : flight.request.opens = true)
    {result : Except Failure (Page Id)} (new : ∀ page, result = .ok page → page.session.id ∉ s.obtained) :
    ∃ t, { s with flights := s.flights.eraseIdx index, obtained := s.obtained ++ State.gained result }.answerOpen c
      flight.revision result = some t ∧ Sound c t := by
  have fewer : (s.flights.eraseIdx index).Sublist s.flights := List.eraseIdx_sublist _ _
  rw [State.answerOpen.eq_def]
  by_cases stale : s.alive = false ∨ flight.revision ≠ s.openQuery.revision
  · rw [if_pos stale]
    cases result with
    | ok page =>
      dsimp only
      rw [close_eq]
      exact ⟨_, rfl, sound.book.refuse (new page rfl), sound.asking.sublist fewer,
        fun alive => (sound.pending alive).sublist fewer, sound.opens, sound.continues⟩
    | error failure =>
      have kept : Kept c
          { s with obtained := s.obtained ++ State.gained (.error failure : Except Failure (Page Id)) } := by
        rw [State.gained, List.append_nil]
        exact sound.book
      exact ⟨_, rfl, kept, sound.asking.sublist fewer, fun alive => (sound.pending alive).sublist fewer, sound.opens,
        sound.continues⟩
  · rw [if_neg stale]
    obtain ⟨-, current⟩ := not_or.mp stale
    rw [not_not] at current
    have waiting := sound.asking.waiting flight (List.mem_of_getElem? found) opens current
    have idle := settle_idle s.openQuery result
    dsimp only
    rw [if_neg (by rw [waiting]; exact idle)]
    refine onOpenFinished_sound doc sound.book ?_ ?_
      (sound.asking.settle found opens current (settle_revision _ _) idle)
      (fun alive => (sound.pending alive).sublist fewer) (settle_request s.openQuery result ▸ sound.opens)
      sound.continues
    · cases result with
      | ok page | error failure => rfl
    · cases result with
      | ok page => exact fun _ => new page rfl
      | error failure => exact nofun

theorem answerNext_sound (doc : Documented c.platform) (sound : Sound c s)
    (found : s.flights[index]? = some flight) (continues : flight.request.opens = false)
    (result : Except Failure (Page Id)) : ∃ t, { s with flights := s.flights.eraseIdx index }.answerNext c flight.revision result = some t ∧ Sound c t := by
  have fewer : (s.flights.eraseIdx index).Sublist s.flights := List.eraseIdx_sublist _ _
  rw [State.answerNext]
  by_cases stale : s.alive = false ∨ flight.revision ≠ s.query.revision
  · rw [if_pos stale]
    exact ⟨_, rfl, sound.book, sound.asking.sublist fewer, fun alive => (sound.pending alive).sublist fewer,
      sound.opens, sound.continues⟩
  · rw [if_neg stale]
    obtain ⟨alive, current⟩ := not_or.mp stale
    rw [Bool.not_eq_false] at alive
    rw [not_not] at current
    have started := ((sound.pending alive) flight (List.mem_of_getElem? found) continues).2 current
    have after : Sound c { s with flights := s.flights.eraseIdx index, query := s.query.settle result } := by
      refine ⟨sound.book, sound.asking.sublist fewer, fun alive => ?_, sound.opens,
        settle_request s.query result ▸ sound.continues⟩
      show Pending _ (s.query.settle result) _
      intro other member
      rw [settle_revision]
      exact sound.pending alive other (fewer.subset member)
    dsimp only
    split_ifs
    · exact ⟨_, rfl, after⟩
    · exact onQueryFinished_sound doc after fun _ => started

section

variable (doc : Documented c.platform) (sound : Sound c s)
include doc sound

theorem answer_sound (sent : index < s.flights.length) (result : Except Failure (Page Id))
    (new : Fresh s (.answer index result)) : ∃ t, s.answer c index result = some t ∧ Sound c t := by
  have found : s.flights[index]? = some s.flights[index] := List.getElem?_eq_getElem sent
  rw [State.answer, found]
  dsimp only
  by_cases opens : s.flights[index].request.opens = true
  · rw [if_pos opens]
    refine answerOpen_sound doc sound found opens fun page brought => ?_
    subst brought
    exact new _ found opens
  · rw [if_neg opens]
    exact answerNext_sound doc sound found (Bool.not_eq_true _ ▸ opens) result

theorem openTimeout_sound : ∃ t, s.openTimeout c = some t ∧ Sound c t := by
  have after : Sound c { s with openQuery := s.openQuery.timeout } :=
    { sound with asking := sound.asking.advance rfl (timeout_idle s.openQuery) _ }
  rw [State.openTimeout]
  dsimp only
  split_ifs
  · exact ⟨_, rfl, after⟩
  · exact onOpenFinished_failed doc after nofun

theorem nextTimeout_sound : ∃ t, s.nextTimeout c = some t ∧ Sound c t := by
  have after : Sound c { s with query := s.query.timeout } :=
    { sound with pending := fun alive => (sound.pending alive).advance rfl _ }
  rw [State.nextTimeout]
  dsimp only
  split_ifs
  · exact ⟨_, rfl, after⟩
  · exact onQueryFinished_sound doc after nofun

/-- Every event that can come, as long as it brings no session again. -/
theorem step_sound (possible : event.Possible s) (new : Fresh s event) : ∃ t, step c s event = some t ∧ Sound c t := by
  have there (alive : s.alive = true) : ¬ s.alive = false := by simp [alive]
  cases event with
  | answer index result => exact answer_sound doc sound possible result new
  | lose index =>
    have fewer : (s.flights.eraseIdx index).Sublist s.flights := List.eraseIdx_sublist _ _
    rw [step, if_pos (show index < s.flights.length from possible)]
    exact ⟨_, rfl, sound.book, sound.asking.sublist fewer, fun alive => (sound.pending alive).sublist fewer,
      sound.opens, sound.continues⟩
  | ensureStarted =>
    rw [step, if_neg (there possible)]
    exact ensureStarted_sound doc sound
  | restart =>
    rw [step, if_neg (there possible)]
    exact restart_sound doc sound
  | configure key value =>
    rw [step, if_neg (there possible)]
    exact configure_sound doc sound key value
  | invalidateSession =>
    rw [step, if_neg (there possible)]
    exact invalidateSession_sound doc sound
  | disconnected =>
    rw [step, if_neg (there possible)]
    exact ⟨_, rfl, disconnected_sound sound⟩
  | requestNext =>
    rw [step, if_neg (there possible)]
    exact onRequested_sound doc sound possible
  | setCurrentIndex idx =>
    rw [step, if_neg (there possible)]
    exact setCurrentIndex_sound doc sound possible idx
  | openTimeout =>
    have runs : ¬ s.openQuery.timer = false := by simp [possible.2]
    rw [step, if_neg (there possible.1), if_neg runs]
    exact openTimeout_sound doc sound
  | nextTimeout =>
    have runs : ¬ s.query.timer = false := by simp [possible.2]
    rw [step, if_neg (there possible.1), if_neg runs]
    exact nextTimeout_sound doc sound
  | destroyed =>
    rw [step, if_neg (there possible)]
    exact ⟨_, rfl, destroyed_sound sound⟩

end

theorem onQueryFinished_rows (unfinished : s.query.status ≠ .finished) (ran : s.onQueryFinished c = some t) :
    t.rows = s.rows := by
  rw [State.onQueryFinished] at ran
  split_ifs at ran
  · rw [Option.some.inj ran]
  · rw [← Option.some.inj ran]
  · rw [Option.some.inj ran]

theorem reloadNext_rows (ran : s.reloadNext c = some t) : t.rows = s.rows := by
  rw [State.reloadNext] at ran
  dsimp only at ran
  split_ifs at ran
  · rw [← Option.some.inj ran]
  · refine (onQueryFinished_rows ?_ ran).trans rfl
    exact reload_unfinished c s.query

theorem onRequestNext_rows (ran : s.onRequestNext c = some t) : t.rows = s.rows := by
  rw [State.onRequestNext] at ran
  split_ifs at ran
  · rw [Option.some.inj ran]
  · rw [Option.some.inj ran]
  · rw [State.requestNext] at ran
    split_ifs at ran
    · exact reloadNext_rows ran
    · exact (reloadNext_rows ran).trans rfl

theorem setCurrentIndex_keeps (doc : Documented c.platform) (rep : RepInv c.platform s.rows)
    (ran : s.setCurrentIndex c idx = some t) :
    t.itemAt t.rows.currentIndex = s.itemAt idx ∧ t.itemAt (t.rows.currentIndex - 1) = s.itemAt (idx - 1) := by
  rw [State.setCurrentIndex] at ran
  split_ifs at ran with same
  · cases ran
    rw [same]
    exact ⟨rfl, rfl⟩
  · let placed : State Id Extra H := { s with rows := { s.rows with currentIndex := idx } }
    obtain ⟨after, trimmed, -, count, rest, moved, kept⟩ :=
      trim_rows (s := placed) doc ⟨rep.distinct, rep.hashes⟩ (show placed.rows.currentIndex = idx from rfl)
    rw [State.onCurrentIndexChanged, show State.trim c _ idx = _ from trimmed] at ran
    have rows : t.rows = after := onRequestNext_rows ran
    have at_row (row : Int) (left : count = 0 ∨ (count : Int) ≤ row) : t.itemAt (row - count) = s.itemAt row := by
      rw [State.itemAt, State.itemAt, rows, rest, List.getElem?_drop]
      by_cases before : row < 0
      · rw [if_pos before, if_pos (by omega)]
      · rw [if_neg before, if_neg (by omega)]
        congr 1
        omega
    rw [rows, moved]
    refine ⟨at_row idx (by omega), ?_⟩
    rw [show idx - count - 1 = idx - 1 - count by omega]
    exact at_row (idx - 1) (by omega)

/-! ## Runs -/

/-- The states of the runs whose steps all meet `guard`. -/
abbrev Reached (c : Context Id H) (guard : State Id Extra H → Event Id → Prop) (configuration : List QueueConfigField) :
    State Id Extra H → Prop :=
  Runs.Reach (· = constructed configuration) guard fun s event t => step c s event = some t

theorem possible_of_step (ran : step c s event = some t) : event.Possible s := by
  have alive {next : Option (State Id Extra H)} (ran : (if s.alive = false then none else next) = some t) :
      s.alive = true ∧ next = some t := by
    split_ifs at ran with gone
    exact ⟨Bool.not_eq_false _ ▸ gone, ran⟩
  have runs {timer : Bool} {next : Option (State Id Extra H)} (ran : (if timer = false then none else next) = some t) :
      timer = true := by
    split_ifs at ran with stopped
    exact Bool.not_eq_false _ ▸ stopped
  cases event with
  | answer index result =>
    by_contra sent
    have none : s.flights[index]? = none := List.getElem?_eq_none (Nat.le_of_not_lt sent)
    rw [step, State.answer, none] at ran
    cases ran
  | lose index =>
    rw [step] at ran
    split_ifs at ran with sent
    exact sent
  | openTimeout | nextTimeout => exact ⟨(alive ran).1, runs (alive ran).2⟩
  | _ => exact (alive ran).1

/-- What a radio relies on: the rows are what is left of the pages of its
session, which came one after the other and each of them once; no row goes that
is current or in front of the current one; and a session is closed, once, where
another has taken its place. -/
structure Orderly (c : Context Id H) (s : State Id Extra H) : Prop where
  suffix : s.ids <:+ s.pages.flatMap Applied.added
  own : ∀ page ∈ s.pages, page.session = s.session.id ∧ page.version ≤ s.session.version
  ordered : (s.pages.map Applied.version).Pairwise (· < ·)
  once : ((s.past ++ s.pages).map Applied.key).Nodup
  trimmed (idx : Int) (t : State Id Extra H) : step c s (.setCurrentIndex idx) = some t →
    t.itemAt t.rows.currentIndex = s.itemAt idx ∧ t.itemAt (t.rows.currentIndex - 1) = s.itemAt (idx - 1)
  closedOnce : s.closed.Nodup
  closed_iff (id : String) : id ∈ s.closed ↔ id ∈ s.obtained ∧ id ≠ s.session.id
  /-- Every event that can come is defined. -/
  runs (event : Event Id) : event.Possible s → Fresh s event → ∃ t, step c s event = some t

theorem Sound.orderly (doc : Documented c.platform) (sound : Sound c s) : Orderly c s where
  suffix := sound.book.suffix
  own := sound.book.own
  ordered := sound.book.ordered
  once := sound.book.once
  trimmed idx t ran := by
    have alive : ¬ s.alive = false := by simp [show s.alive = true from possible_of_step ran]
    rw [step, if_neg alive] at ran
    exact setCurrentIndex_keeps doc sound.book.rep ran
  closedOnce := sound.book.closedOnce
  closed_iff := sound.book.closed_iff
  runs event possible new := by
    obtain ⟨t, ran, -⟩ := step_sound doc sound possible new
    exact ⟨t, ran⟩

/-- In every run in which no two answers to opens bring the same session, the
queue is orderly. -/
theorem orderly_of_fresh_sessions (doc : Documented c.platform) {configuration : List QueueConfigField}
    (reached : Reached c Fresh configuration s) : Orderly c s := by
  have sound : Sound c s := by
    refine reached.invariant (fun s start => start ▸ constructed_sound configuration) fun s event t sound new ran => ?_
    obtain ⟨after, ran', kept⟩ := step_sound doc sound (possible_of_step ran) new
    cases ran.symm.trans ran'
    exact kept
  exact sound.orderly doc

instance decidableFresh (s : State Id Extra H) : (event : Event Id) → Decidable (Fresh s event)
  | .answer index (.ok page) =>
    inferInstanceAs
      (Decidable (∀ flight ∈ s.flights[index]?, flight.request.opens = true → page.session.id ∉ s.obtained))
  | .answer _ (.error _) | .ensureStarted | .restart | .configure _ _ | .invalidateSession | .disconnected
  | .requestNext | .setCurrentIndex _ | .openTimeout | .nextTimeout | .lose _ | .destroyed => isTrue trivial

end

def sampleContext : Context Nat Nat where
  platform := IdQueueProofs.plainPlatform
  queueValid := true
  songsValid _ := true
  canRestart := true

/-- The answer with some songs, for a session and its version. -/
def sampleAnswer (ids : List Nat) (session : String) (version : Nat) : Event Nat :=
  .answer 0 (.ok (response ids ids.toFinset { id := session, version }))

theorem restarted_radio_orderly : ∃ s : State Nat Unit Nat, Orderly sampleContext s ∧ s.ids = [5, 3] ∧
    s.closed = ["first"] ∧ s.past.map Applied.added = [[1, 2, 3], [4]] := by
  have run : ((Runs.play Fresh (step sampleContext) (constructed [] : State Nat Unit Nat)
      [.ensureStarted, sampleAnswer [1, 2, 3] "first" 1, .setCurrentIndex 2, sampleAnswer [3, 4] "first" 2, .restart,
        .disconnected, sampleAnswer [5, 3] "second" 1]).map fun s =>
      (s.ids, s.closed, s.past.map Applied.added)) = some ([5, 3], ["first"], [[1, 2, 3], [4]]) := by decide +kernel
  obtain ⟨s, played, same⟩ := Option.map_eq_some_iff.mp run
  have reached : Reached sampleContext Fresh [] s := Runs.Reach.play _ (.start rfl) played
  exact ⟨s, orderly_of_fresh_sessions IdQueueProofs.plain_documented reached, congrArg Prod.fst same,
    congrArg (fun shown => shown.2.1) same, congrArg (fun shown => shown.2.2) same⟩

/-- An open is given up and tried again, and both tries are answered with the
session that its operation has: it is closed, and then it is the current one, and
it is closed again when it is left. -/
theorem retried_session_closed : ∃ s : State Nat Unit Nat, Reached sampleContext (fun _ _ => True) [] s ∧
    s.session.id = "first" ∧ s.ids = [1, 2, 3] ∧ s.closed = ["first"] ∧ ¬ Orderly sampleContext s ∧
    (s.invalidateSession sampleContext).map State.closed = some ["first", "first"] := by
  have run : ((Runs.play (fun _ _ => True) (step sampleContext) (constructed [] : State Nat Unit Nat)
      [.ensureStarted, .openTimeout, .ensureStarted, sampleAnswer [1, 2, 3] "first" 1,
        sampleAnswer [1, 2, 3] "first" 1]).map fun s =>
      (s.session.id, s.ids, s.closed, s.obtained, (s.invalidateSession sampleContext).map State.closed)) =
      some ("first", [1, 2, 3], ["first"], ["first", "first"], some ["first", "first"]) := by decide +kernel
  obtain ⟨s, played, same⟩ := Option.map_eq_some_iff.mp run
  obtain ⟨current, rows, closed, -, again⟩ : s.session.id = "first" ∧ s.ids = [1, 2, 3] ∧ s.closed = ["first"] ∧
      s.obtained = ["first", "first"] ∧
      (s.invalidateSession sampleContext).map State.closed = some ["first", "first"] := by
    simpa only [Prod.mk.injEq] using same
  refine ⟨s, Runs.Reach.play _ (.start rfl) played, current, rows, closed, fun orderly => ?_, again⟩
  exact ((orderly.closed_iff "first").mp (by simp [closed])).2 current.symm

end Qcm.DynamicQueueProofs
