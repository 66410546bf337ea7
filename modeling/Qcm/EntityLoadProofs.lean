import Qcm.EntityLoads

/-!
Single flights.  The pool has the flights that nobody has taken out, so a key
has one of them; a ticket is listed by the flight it joined only, and a callback
leaves the copy that it is called from, so it is called once.

A consumer that leaves while its callback is in a copy is called all the same,
and a flight that was reset runs until the callbacks of all have been called:
that no callback is late and no key asked for twice holds where this is not
used.
-/

namespace Qcm.EntityLoads

open Lib
open Runs Loader

variable {s t : Loader} {id ticket object : Nat} {flight : Flight} {lease : Ticket} {event : Event}
  {flights : Hash Nat Flight}

/-- The key under which a flight is in the pool. -/
def Flight.shelf (flight : Flight) : Option String :=
  match flight.place with
  | .pooled => some flight.key
  | .cleared | .calling _ => none

def shelf (flights : Hash Nat Flight) (id : Nat) : Option String := (flights.lookup id).bind Flight.shelf

variable {key : String} {pool : Hash String Nat} {other : Nat} {later : Flight} {P : Nat → Flight → Prop}
  {history : List Note} {note : Note} {rest : List Nat}

theorem shelf_insert (other : Nat) :
    shelf (flights.insert id flight) other = if other = id then flight.shelf else shelf flights other := by
  rw [shelf, Hash.lookup_insert]
  split <;> rfl

theorem shelf_erase (other : Nat) :
    shelf (flights.erase id) other = if other = id then none else shelf flights other := by
  rw [shelf, Hash.lookup_erase]
  split <;> rfl

theorem shelf_eq (found : flights.lookup id = some flight) : shelf flights id = flight.shelf := by
  rw [shelf, found]
  rfl

theorem Flight.shelf_eq_some : flight.shelf = some key ↔ flight.place = .pooled ∧ flight.key = key := by
  unfold Flight.shelf
  cases flight.place <;> simp

/-- The pool has the flights that are in it. -/
def Matches (pool : Hash String Nat) (flights : Hash Nat Flight) : Prop :=
  ∀ key id, pool.lookup key = some id ↔ shelf flights id = some key

theorem Matches.replaced {other : Flight} (fits : Matches pool flights)
    (found : flights.lookup id = some flight) (same : other.shelf = flight.shelf) :
    Matches pool (flights.insert id other) := by
  intro key asked
  rw [fits, shelf_insert]
  split
  · rename_i here
    rw [here, shelf_eq found, same]
  · rfl

theorem Matches.taken {later : Hash Nat Flight} (fits : Matches pool flights)
    (there : pool.lookup key = some id)
    (left : ∀ other, shelf later other = if other = id then none else shelf flights other) :
    Matches (pool.erase key) later := by
  intro asked other
  have mine := (fits key id).mp there
  rw [Hash.lookup_erase, left]
  by_cases here : other = id
  · rw [if_pos here]
    refine ⟨fun found => ?_, nofun⟩
    split at found
    · cases found
    · rename_i apart
      rw [here, fits, mine] at found
      exact absurd (Option.some.inj found).symm apart
  · rw [if_neg here, ← fits]
    split
    · rename_i same
      rw [same, there]
      refine ⟨nofun, fun found => absurd (Option.some.inj found).symm here⟩
    · rfl

theorem Matches.erased (fits : Matches pool flights) (outside : shelf flights id = none) :
    Matches pool (flights.erase id) := by
  intro key other
  rw [fits, shelf_erase]
  split
  · rename_i here
    rw [here, outside]
  · rfl

theorem forall_put (own : P id flight)
    (others : ∀ other held, other ≠ id → flights.lookup other = some held → P other held) :
    ∀ other held, (flights.insert id flight).lookup other = some held → P other held := by
  intro other held found
  obtain ⟨rfl, rfl⟩ | ⟨apart, found⟩ := Hash.lookup_insert_some found
  · exact own
  · exact others other held apart found

theorem forall_erase (others : ∀ other held, other ≠ id → flights.lookup other = some held → P other held) :
    ∀ other held, (flights.erase id).lookup other = some held → P other held := by
  intro other held found
  obtain ⟨apart, found⟩ := Hash.lookup_erase_some found
  exact others other held apart found

/-- How often the flights that are alive have pinned a song. -/
def held (flights : Hash Nat Flight) (song : Int) : Nat :=
  ((Hash.values flights).map fun flight => flight.ids.count song).sum

theorem held_erase (found : flights.lookup id = some flight) (song : Int) :
    held flights song = flight.ids.count song + held (flights.erase id) song := by
  have same := ((Hash.values_perm_erase found).map fun flight => flight.ids.count song).sum_nat
  rw [List.map_cons, List.sum_cons] at same
  exact same

theorem held_insert (song : Int) :
    held (flights.insert id flight) song = flight.ids.count song + held (flights.erase id) song := rfl

theorem held_replaced {other : Flight} (found : flights.lookup id = some flight) (same : other.ids = flight.ids)
    (song : Int) : held (flights.insert id other) song = held flights song := by
  rw [held_insert, held_erase found, same]

theorem held_new (fresh : flights.lookup id = none) (song : Int) :
    held (flights.insert id flight) song = flight.ids.count song + held flights song := by
  rw [held_insert, held, held, Hash.values, AList.erase]
  dsimp only
  rw [List.kerase_of_notMem_keys, Hash.values]
  exact fun member => absurd (AList.lookup_eq_none.mp fresh) (not_not.mpr (AList.mem_keys.mpr member))

theorem held_map {change : Nat → Flight → Flight} (same : ∀ id flight, (change id flight).ids = flight.ids) (song : Int) :
    held (Hash.map change flights) song = held flights song := by
  rw [held, held, Hash.values, Hash.values, Hash.map]
  simp [same, Function.comp_def]

/-- The ticket is one of a flight. -/
def Flight.lists (flight : Flight) (ticket : Nat) : Prop := ticket ∈ flight.consumers ∨ flight.owes ticket = true

structure Flies (s : Loader) (id : Nat) (flight : Flight) : Prop where
  made : id < s.made
  running : flight.place = .pooled → id ∈ s.running
  distinct : flight.consumers.Nodup
  copied : ∀ rest, flight.place = .calling rest → rest.Nodup
  listed : ∀ ticket, flight.lists ticket → ∃ lease, s.tickets.lookup ticket = some lease ∧ lease.flight = id
  waits : ∀ ticket object, flight.owes ticket = true → .called ticket object ∉ s.history

/-- A consumer that has not been released stays while its object is there. -/
def Stays (s : Loader) (lease : Ticket) : Prop := lease.released = false ∧ lease.object ∉ s.destroyed

structure Sound (s : Loader) : Prop where
  fits : Matches s.pool s.flights
  each : ∀ id flight, s.flights.lookup id = some flight → Flies s id flight
  serial : ∀ ticket lease, s.tickets.lookup ticket = some lease → ticket ≤ s.serial
  called : ∀ ticket object, .called ticket object ∈ s.history →
    ∃ lease, s.tickets.lookup ticket = some lease ∧ lease.object = object
  released : ∀ ticket, .released ticket ∈ s.history ↔
    ∃ lease, s.tickets.lookup ticket = some lease ∧ lease.released = true
  destroyed : ∀ object, .destroyed object ∈ s.history ↔ object ∈ s.destroyed
  leaving : ∀ ticket ∈ s.leaving, ∃ lease, s.tickets.lookup ticket = some lease ∧ ¬ Stays s lease
  pins : ∀ song, s.pinned.count song = s.unpinned.count song + held s.flights song
  once : Once s.history

theorem Sound.initial : Sound {} where
  fits _ _ := ⟨nofun, nofun⟩
  each := nofun
  serial := nofun
  called _ _ member := nomatch member
  released _ := ⟨nofun, nofun⟩
  destroyed _ := ⟨nofun, nofun⟩
  leaving _ member := nomatch member
  pins _ := rfl
  once before _ _ _ split := by simp at split

theorem Flies.goes (flies : Flies s id flight) (made : s.made ≤ t.made)
    (running : flight.place = .pooled → id ∈ s.running → id ∈ t.running)
    (tickets : ∀ ticket lease, s.tickets.lookup ticket = some lease →
      ∃ later, t.tickets.lookup ticket = some later ∧ later.flight = lease.flight)
    (history : ∀ ticket object, flight.owes ticket = true → .called ticket object ∈ t.history →
      .called ticket object ∈ s.history) : Flies t id flight where
  made := Nat.lt_of_lt_of_le flies.made made
  running pooled := running pooled (flies.running pooled)
  distinct := flies.distinct
  copied := flies.copied
  listed ticket lists := by
    obtain ⟨lease, there, rfl⟩ := flies.listed ticket lists
    exact tickets ticket lease there
  waits ticket object owes member := flies.waits ticket object owes (history ticket object owes member)

theorem Sound.replaced {other : Flight} (sound : Sound s) (found : s.flights.lookup id = some flight)
    (same : other.shelf = flight.shelf) (ids : other.ids = flight.ids) (flies : Flies s id other) :
    Sound { s with flights := s.flights.insert id other } :=
  { sound with
    fits := sound.fits.replaced found same
    each := forall_put (P := fun id flight => Flies { s with flights := s.flights.insert _ other } id flight)
      { flies with } fun id flight _ found => { sound.each id flight found with }
    pins := fun song =>
      (sound.pins song).trans (congrArg (s.unpinned.count song + ·) (held_replaced found ids song).symm) }

/-! ## Loads -/

theorem Sound.absent (sound : Sound s) : s.flights.lookup s.made = none := by
  cases found : s.flights.lookup s.made with
  | none => rfl
  | some flight => exact absurd (sound.each _ flight found).made (Nat.lt_irrefl _)

theorem Sound.fresh (sound : Sound s) : s.tickets.lookup (s.serial + 1) = none := by
  cases found : s.tickets.lookup (s.serial + 1) with
  | none => rfl
  | some lease => exact absurd (sound.serial _ lease found) (by omega)

theorem Sound.created {key : String} (sound : Sound s) (none : s.pool.lookup key = none) (ids : List Int) :
    Sound (s.create key ids) where
  fits asked other := by
    dsimp only [create]
    rw [Hash.lookup_insert, shelf_insert]
    by_cases here : other = s.made
    · rw [here, if_pos rfl]
      split
      · rename_i same
        simp [same, Flight.shelf]
      · rename_i apart
        rw [sound.fits, shelf, sound.absent]
        simpa [Flight.shelf] using Ne.symm apart
    · rw [if_neg here, ← sound.fits]
      split
      · rename_i same
        rw [same, none]
        simpa using Ne.symm here
      · rfl
  each := by
    refine forall_put (P := Flies (s.create key ids)) ⟨by simp [create], by simp [create], by simp, nofun, ?_, ?_⟩ ?_
    · rintro ticket (member | owes)
      · cases member
      · simp [Flight.owes] at owes
    · intro ticket object owes
      simp [Flight.owes] at owes
    · intro id flight _ found
      exact (sound.each id flight found).goes (Nat.le_succ _)
        (fun _ member => List.mem_append_left _ member) (fun _ lease there => ⟨lease, there, rfl⟩)
        fun _ _ _ member => member
  serial := sound.serial
  called := sound.called
  released := sound.released
  destroyed := sound.destroyed
  leaving := sound.leaving
  pins song := by
    dsimp only [create]
    rw [held_new sound.absent, List.count_append, sound.pins]
    dsimp only
    omega
  once := sound.once

theorem Sound.joined (sound : Sound s) (found : s.flights.lookup id = some flight) (pooled : flight.place = .pooled)
    (object : Nat) : Sound (s.join id flight object) := by
  have kept : ∀ ticket lease, s.tickets.lookup ticket = some lease →
      (s.join id flight object).tickets.lookup ticket = some lease := by
    intro ticket lease there
    dsimp only [join]
    rw [Hash.lookup_insert, if_neg, there]
    rintro rfl
    exact nomatch sound.fresh.symm.trans there
  have flies := sound.each id flight found
  have unlisted : s.serial + 1 ∉ flight.consumers := fun member => by
    obtain ⟨lease, there, -⟩ := flies.listed _ (.inl member)
    exact nomatch sound.fresh.symm.trans there
  exact {
    fits := sound.fits.replaced found (by simp [Flight.shelf, pooled])
    each := by
      refine forall_put (P := Flies (s.join id flight object)) ⟨flies.made, flies.running, ?_, ?_, ?_, ?_⟩ ?_
      · exact (List.nodup_append_comm.mp (by simpa using ⟨unlisted, flies.distinct⟩))
      · intro rest calling
        exact nomatch pooled.symm.trans calling
      · intro ticket lists
        have member : ticket ∈ flight.consumers ++ [s.serial + 1] := by
          simpa [Flight.lists, Flight.owes, pooled] using lists
        obtain older | rfl := mem_snoc member
        · obtain ⟨lease, there, same⟩ := flies.listed ticket (.inl older)
          exact ⟨lease, kept ticket lease there, same⟩
        · exact ⟨_, AList.lookup_insert _, rfl⟩
      · intro ticket object owes called
        have member : ticket ∈ flight.consumers ++ [s.serial + 1] := by
          simpa [Flight.owes, pooled] using owes
        obtain older | rfl := mem_snoc member
        · exact flies.waits ticket object (by simpa [Flight.owes, pooled] using older) called
        · obtain ⟨lease, there, -⟩ := sound.called _ _ called
          exact nomatch sound.fresh.symm.trans there
      · intro other held _ there
        exact (sound.each other held there).goes (Nat.le_refl _) (fun _ member => member)
          (fun ticket lease there => ⟨lease, kept ticket lease there, rfl⟩) fun _ _ _ member => member
    serial := fun ticket lease there => by
      dsimp only [join] at there ⊢
      obtain ⟨rfl, there⟩ | ⟨-, there⟩ := Hash.lookup_insert_some there
      · omega
      · exact Nat.le_succ_of_le (sound.serial ticket lease there)
    called := fun ticket object called => by
      obtain ⟨lease, there, same⟩ := sound.called ticket object called
      exact ⟨lease, kept ticket lease there, same⟩
    released := fun ticket => by
      refine (sound.released ticket).trans ⟨fun ⟨lease, there, done⟩ => ⟨lease, kept ticket lease there, done⟩, ?_⟩
      rintro ⟨lease, there, done⟩
      dsimp only [join] at there
      obtain ⟨rfl, rfl⟩ | ⟨-, there⟩ := Hash.lookup_insert_some there
      · cases done
      · exact ⟨lease, there, done⟩
    destroyed := sound.destroyed
    leaving := fun ticket member => by
      obtain ⟨lease, there, goes⟩ := sound.leaving ticket member
      exact ⟨lease, kept ticket lease there, goes⟩
    pins := fun song =>
      (sound.pins song).trans (congrArg (s.unpinned.count song + ·) (held_replaced found (by rfl) song).symm)
    once := sound.once }

theorem calls_snoc {P : List Note → Nat → Nat → Prop}
    (held : ∀ before ticket object later, history = before ++ .called ticket object :: later → P before ticket object)
    (last : ∀ ticket object, note = .called ticket object → P history ticket object) :
    ∀ before ticket object later, history ++ [note] = before ++ .called ticket object :: later →
      P before ticket object := by
  intro before ticket object later split
  obtain rfl | ⟨init, final, rfl⟩ := List.eq_nil_or_concat later
  · obtain ⟨rfl, rfl⟩ := List.append_singleton_inj.mp split
    exact last ticket object rfl
  · have whole : history ++ [note] = (before ++ .called ticket object :: init) ++ [final] := by simp [split]
    exact held before ticket object init (List.append_singleton_inj.mp whole).1

theorem once_snoc (once : Once history)
    (first : ∀ ticket object, note = .called ticket object → ∀ other, .called ticket other ∉ history) :
    Once (history ++ [note]) :=
  calls_snoc (P := fun before ticket _ => ∀ other : Nat, Note.called ticket other ∉ before) once first

/-- Something is noted that is no release and no destruction; a call is the first one of its ticket. -/
theorem Sound.noted (sound : Sound s) (stays : ∀ ticket, note ≠ .released ticket)
    (alive : ∀ object, note ≠ .destroyed object)
    (first : ∀ ticket object, note = .called ticket object →
      (∃ lease, s.tickets.lookup ticket = some lease ∧ lease.object = object) ∧
      (∀ id flight, s.flights.lookup id = some flight → flight.owes ticket = false) ∧
      ∀ other, .called ticket other ∉ s.history) :
    Sound { s with history := s.history ++ [note] } where
  fits := sound.fits
  each id flight found := by
    refine (sound.each id flight found).goes (Nat.le_refl _) (fun _ member => member)
      (fun _ lease there => ⟨lease, there, rfl⟩) fun ticket object owes called => ?_
    obtain before | now := List.mem_append.mp called
    · exact before
    · have unowed := (first ticket object (List.mem_singleton.mp now).symm).2.1 id flight found
      exact absurd (owes.symm.trans unowed) (by simp)
  serial := sound.serial
  called ticket object called := by
    obtain before | now := List.mem_append.mp called
    · exact sound.called ticket object before
    · exact (first ticket object (List.mem_singleton.mp now).symm).1
  released ticket := by
    rw [← sound.released, List.mem_append, List.mem_singleton]
    exact or_iff_left fun now => stays ticket now.symm
  destroyed object := by
    rw [← sound.destroyed, List.mem_append, List.mem_singleton]
    exact or_iff_left fun now => alive object now.symm
  leaving := sound.leaving
  pins := sound.pins
  once := once_snoc sound.once fun ticket object same => (first ticket object same).2.2

theorem Sound.pooled (sound : Sound s) (there : s.pool.lookup key = some id) :
    ∃ flight, s.flights.lookup id = some flight ∧ flight.place = .pooled ∧ flight.key = key := by
  obtain ⟨flight, found, shelved⟩ := Option.bind_eq_some_iff.mp ((sound.fits key id).mp there)
  exact ⟨flight, found, Flight.shelf_eq_some.mp shelved⟩

theorem Sound.loaded (sound : Sound s) (key : String) (ids : List Int) (object : Nat) : Sound (s.load key ids object) := by
  unfold load
  split
  · exact sound
  split
  · rename_i id there
    obtain ⟨flight, found, pooled, -⟩ := sound.pooled there
    simp only [found]
    exact sound.joined found pooled object
  · rename_i none
    split
    · exact sound.noted (fun _ => nofun) (fun _ => nofun) fun _ _ => nofun
    · exact (sound.created none ids).joined (AList.lookup_insert _) rfl object

theorem Flies.shrinks {other : Flight} (flies : Flies s id flight)
    (pooled : other.place = .pooled → flight.place = .pooled) (distinct : other.consumers.Nodup)
    (copied : ∀ rest, other.place = .calling rest → rest.Nodup)
    (listed : ∀ ticket, other.lists ticket → flight.lists ticket)
    (owes : ∀ ticket, other.owes ticket = true → flight.owes ticket = true) : Flies s id other where
  made := flies.made
  running here := flies.running (pooled here)
  distinct := distinct
  copied := copied
  listed ticket lists := flies.listed ticket (listed ticket lists)
  waits ticket object owed := flies.waits ticket object (owes ticket owed)

theorem Sound.dropped (sound : Sound s) (found : s.flights.lookup id = some flight)
    (fits : Matches pool (s.flights.erase id)) : Sound (drop { s with pool := pool } id) := by
  unfold drop
  simp only [found]
  exact { sound with
    fits := fits
    each := forall_erase fun other held apart there =>
      (sound.each other held there).goes le_rfl
        (fun _ member => List.mem_filter.mpr ⟨member, decide_eq_true apart⟩)
        (fun _ lease there => ⟨lease, there, rfl⟩) fun _ _ _ member => member
    pins := fun song => by
      dsimp only
      rw [sound.pins, held_erase found, List.count_append]
      omega }

/-- The flight without a consumer. -/
def Flight.without (flight : Flight) (ticket : Nat) : Flight :=
  { flight with consumers := flight.consumers.erase ticket }

theorem Flight.owes_without (owes : (flight.without ticket).owes other = true) :
    flight.owes other = true := by
  cases place : flight.place with
  | pooled | cleared =>
    simp only [Flight.owes, Flight.without, place, List.contains_iff_mem] at owes ⊢
    exact List.mem_of_mem_erase owes
  | calling rest => simpa [Flight.owes, Flight.without, place] using owes

theorem Flies.without (flies : Flies s id flight) (ticket : Nat) : Flies s id (flight.without ticket) := by
  refine flies.shrinks (fun here => here) (flies.distinct.erase ticket) flies.copied ?_ fun _ => Flight.owes_without
  rintro other (member | owes)
  · exact .inl (List.mem_of_mem_erase member)
  · exact .inr (Flight.owes_without owes)

theorem Sound.leaves (sound : Sound s) (found : s.flights.lookup id = some flight) (ticket : Nat) :
    Sound { s with flights := s.flights.insert id (flight.without ticket) } :=
  sound.replaced found rfl rfl ((sound.each id flight found).without ticket)

theorem Sound.left (sound : Sound s) (ticket : Nat) : Sound (s.leave ticket) := by
  unfold leave
  split
  · rename_i lease there
    split
    · rename_i flight found
      have next := sound.leaves found ticket
      dsimp only
      split
      · rename_i last
        exact next.dropped (AList.lookup_insert _) (next.fits.taken last.2 shelf_erase)
      · exact next
    · exact sound
  · exact sound

theorem Sound.releases (sound : Sound s) (there : s.tickets.lookup ticket = some lease) :
    Sound (s.setReleased ticket lease) := by
  have kept : ∀ other before, s.tickets.lookup other = some before →
      ∃ later, (s.setReleased ticket lease).tickets.lookup other = some later ∧ later.flight = before.flight ∧
        later.object = before.object ∧ (before.released = true → later.released = true) := by
    intro other before found
    dsimp only [setReleased]
    rw [Hash.lookup_insert]
    split
    · rename_i same
      subst same
      cases there.symm.trans found
      exact ⟨_, rfl, rfl, rfl, fun _ => rfl⟩
    · exact ⟨before, found, rfl, rfl, fun done => done⟩
  exact { sound with
    each := fun id flight found => by
      refine (sound.each id flight found).goes (Nat.le_refl _) (fun _ member => member) ?_ ?_
      · intro other before found
        obtain ⟨later, there, same, -⟩ := kept other before found
        exact ⟨later, there, same⟩
      · intro other object _ called
        simpa [setReleased] using called
    serial := fun other before found => by
      dsimp only [setReleased] at found
      obtain ⟨rfl, found⟩ | ⟨-, found⟩ := Hash.lookup_insert_some found
      · exact sound.serial ticket lease there
      · exact sound.serial other before found
    called := fun other object called => by
      obtain ⟨before, found, rfl⟩ := sound.called other object (by simpa [setReleased] using called)
      obtain ⟨later, there, -, same, -⟩ := kept other before found
      exact ⟨later, there, same⟩
    released := fun other => by
      dsimp only [setReleased]
      rw [List.mem_append, List.mem_singleton, sound.released, Hash.lookup_insert]
      split
      · rename_i same
        simp [same]
      · rename_i apart
        exact or_iff_left fun same => apart (Note.released.inj same)
    destroyed := fun object => by
      refine .trans ?_ (sound.destroyed object)
      simp [setReleased]
    leaving := fun other member => by
      obtain ⟨before, found, goes⟩ := sound.leaving other member
      obtain ⟨later, there, -, object, done⟩ := kept other before found
      refine ⟨later, there, fun stays => goes ⟨?_, object ▸ stays.2⟩⟩
      cases flag : before.released with
      | false => rfl
      | true => exact absurd (done flag) (by simp [stays.1])
    once := once_snoc sound.once fun _ _ => nofun }

/-! ## Answers -/

theorem Sound.inside (sound : Sound s) (found : s.flights.lookup id = some flight) :
    s.pool.lookup flight.key = some id ↔ flight.place = .pooled := by
  rw [sound.fits, shelf_eq found, Flight.shelf_eq_some]
  exact and_iff_left rfl

theorem Flight.shelf_eq_none (outside : flight.place ≠ .pooled) : flight.shelf = none := by
  cases shelved : flight.shelf with
  | none => rfl
  | some key => exact absurd (Flight.shelf_eq_some.mp shelved).1 outside

/-- A flight whose callbacks are to be called. -/
def Flight.copied (flight : Flight) : Flight := { flight with place := .calling flight.consumers }

theorem Flight.owes_copied (waits : ∀ rest, flight.place ≠ .calling rest) :
    flight.copied.owes ticket = flight.owes ticket := by
  cases place : flight.place with
  | pooled | cleared => simp [Flight.owes, Flight.copied, place]
  | calling rest => exact absurd place (waits rest)

theorem Flies.copy (flies : Flies s id flight) (waits : ∀ rest, flight.place ≠ .calling rest) :
    Flies s id flight.copied := by
  refine flies.shrinks nofun flies.distinct ?_ ?_ ?_
  · rintro rest ⟨⟩
    exact flies.distinct
  · rintro ticket (member | owes)
    · exact .inl member
    · exact .inr (Flight.owes_copied waits ▸ owes)
  · exact fun ticket owes => Flight.owes_copied waits ▸ owes

theorem Sound.answered (sound : Sound s) (outside : shelf s.flights id = none) :
    Sound { s with running := s.running.filter fun other => other ≠ id } :=
  { sound with
    each := fun other held found =>
      (sound.each other held found).goes le_rfl
        (fun pooled member => List.mem_filter.mpr ⟨member, decide_eq_true fun here => by
          rw [here] at found
          rw [shelf_eq found, Flight.shelf, pooled] at outside
          exact nomatch outside⟩)
        (fun _ lease there => ⟨lease, there, rfl⟩) fun _ _ _ member => member }

theorem Sound.taken (sound : Sound s) (found : s.flights.lookup id = some flight)
    (there : s.pool.lookup flight.key = some id) :
    Sound { s with
      running := s.running.filter fun other => other ≠ id
      pool := s.pool.erase flight.key
      flights := s.flights.insert id flight.copied } := by
  have pooled := (sound.inside found).mp there
  exact { sound with
    fits := sound.fits.taken there fun other => shelf_insert other
    each := forall_put (P := Flies { s with
        running := s.running.filter fun other => other ≠ id
        pool := s.pool.erase flight.key
        flights := s.flights.insert id flight.copied })
      (((sound.each id flight found).copy (by simp [pooled])).goes le_rfl nofun
        (fun _ lease there => ⟨lease, there, rfl⟩) fun _ _ _ member => member)
      fun other held apart found => (sound.each other held found).goes le_rfl
        (fun _ member => List.mem_filter.mpr ⟨member, decide_eq_true apart⟩)
        (fun _ lease there => ⟨lease, there, rfl⟩) fun _ _ _ member => member
    pins := fun song =>
      (sound.pins song).trans (congrArg (s.unpinned.count song + ·) (held_replaced found (by rfl) song).symm) }

theorem Sound.responded (sound : Sound s) (id : Nat) : Sound (s.respond id) := by
  unfold respond
  dsimp only
  split
  · rename_i flight found
    split
    · rename_i there
      exact sound.taken found there
    · rename_i elsewhere
      refine sound.answered ?_
      rw [shelf_eq found]
      exact Flight.shelf_eq_none fun pooled => elsewhere ((sound.inside found).mpr pooled)
  · rename_i none
    exact sound.answered (by rw [shelf, none]; rfl)

theorem Sound.cleared (sound : Sound s) : Sound s.reset := by
  have gone : ∀ other held, s.reset.flights.lookup other = some held → ∃ flight,
      s.flights.lookup other = some flight ∧ held.shelf = none ∧ Flies s other held := by
    intro other held found
    dsimp only [reset] at found
    rw [Hash.lookup_map] at found
    obtain ⟨flight, there, same⟩ := Option.map_eq_some_iff.mp found
    have flies := sound.each other flight there
    refine ⟨flight, there, ?_⟩
    split at same
    · rename_i mine
      have pooled := (sound.inside there).mp mine
      subst same
      refine ⟨rfl, flies.shrinks nofun flies.distinct nofun ?_ ?_⟩
      · rintro ticket (member | owes)
        · exact .inl member
        · exact .inr (by simpa [Flight.owes, pooled] using owes)
      · intro ticket owes
        simpa [Flight.owes, pooled] using owes
    · rename_i elsewhere
      subst same
      exact ⟨Flight.shelf_eq_none fun pooled => elsewhere ((sound.inside there).mpr pooled), flies⟩
  exact { sound with
    fits := fun key other => by
      refine ⟨nofun, fun shelved => ?_⟩
      obtain ⟨held, found, there⟩ := Option.bind_eq_some_iff.mp shelved
      obtain ⟨_, _, none, _⟩ := gone other held found
      exact nomatch none.symm.trans there
    each := fun other held found => by
      obtain ⟨_, _, _, flies⟩ := gone other held found
      exact flies.goes le_rfl (fun _ => id) (fun _ lease there => ⟨lease, there, rfl⟩)
        fun _ _ _ => id
    pins := fun song => by
      dsimp only [reset]
      rw [held_map, sound.pins]
      intro id flight
      split <;> rfl }

theorem Sound.copied (sound : Sound s) (found : s.flights.lookup id = some flight) (cleared : flight.place = .cleared) :
    Sound { s with flights := s.flights.insert id flight.copied } :=
  sound.replaced found (by simp [Flight.shelf, Flight.copied, cleared]) rfl
    ((sound.each id flight found).copy (by simp [cleared]))

/-- The flight whose callbacks are called, with those that are left. -/
def Flight.calling (flight : Flight) (rest : List Nat) : Flight := { flight with place := .calling rest }

section

variable (sound : Sound s) (found : s.flights.lookup id = some flight)
  (calling : flight.place = .calling (ticket :: rest))
include sound found calling

theorem Sound.popped : Sound { s with flights := s.flights.insert id (flight.calling rest) } := by
  have flies := sound.each id flight found
  have owed : ∀ other, (flight.calling rest).owes other = true → flight.owes other = true := fun other owes => by
    simp only [Flight.owes, Flight.calling, calling, List.contains_iff_mem] at owes ⊢
    exact .tail _ owes
  refine sound.replaced found (by simp [Flight.shelf, Flight.calling, calling]) rfl
    (flies.shrinks nofun flies.distinct ?_ ?_ owed)
  · rintro others ⟨⟩
    exact (List.nodup_cons.mp (flies.copied _ calling)).2
  · rintro other (member | owes)
    · exact .inl member
    · exact .inr (owed other owes)

theorem Sound.calls : (∃ lease, s.tickets.lookup ticket = some lease ∧ lease.flight = id) ∧
      (∀ object, .called ticket object ∉ s.history) ∧
      ∀ other held, (s.flights.insert id (flight.calling rest)).lookup other = some held → held.owes ticket = false := by
  have flies := sound.each id flight found
  have owes : flight.owes ticket = true := by simp [Flight.owes, calling]
  obtain ⟨lease, there, mine⟩ := flies.listed ticket (.inr owes)
  refine ⟨⟨lease, there, mine⟩, fun object => flies.waits ticket object owes,
    forall_put (P := fun _ held => held.owes ticket = false) ?_ fun other held apart found => ?_⟩
  · simpa [Flight.owes, Flight.calling] using (List.nodup_cons.mp (flies.copied _ calling)).1
  · rw [Bool.eq_false_iff]
    intro owes
    obtain ⟨_, again, its⟩ := (sound.each other held found).listed ticket (.inr owes)
    cases again.symm.trans there
    exact apart (its.symm.trans mine)

theorem Sound.callsOne : Sound (s.call id flight ticket rest) := by
  have next := sound.popped found calling
  obtain ⟨⟨lease, there, -⟩, first, gone⟩ := sound.calls found calling
  unfold call
  simp only [there]
  split
  · exact next
  · refine next.noted (fun _ => nofun) (fun _ => nofun) ?_
    rintro _ _ ⟨⟩
    exact ⟨⟨lease, there, rfl⟩, gone, first⟩

end

theorem mem_tickets {tickets : Hash Nat Ticket}
    (member : ticket ∈ (tickets.entries.filter fun entry =>
      entry.2.object == object && !entry.2.released).map Sigma.fst) :
    ∃ lease, tickets.lookup ticket = some lease ∧ lease.object = object := by
  obtain ⟨entry, inside, rfl⟩ := List.mem_map.mp member
  obtain ⟨listed, passed⟩ := List.mem_filter.mp inside
  rw [Bool.and_eq_true, beq_iff_eq] at passed
  exact ⟨entry.2, (Hash.lookup_eq_some_iff _ _ _).mpr listed, passed.1⟩

/-! ## Steps -/

/-- What a step may do. -/
inductive Moves (s : Loader) : Event → Loader → Prop where
  | load {key : String} {ids : List Int} {object : Nat} (alive : object ∉ s.destroyed) :
      Moves s (.load key ids object) (s.load key ids object)
  | release {ticket : Nat} {lease : Ticket} (there : s.tickets.lookup ticket = some lease) :
      Moves s (.release ticket) ((s.setReleased ticket lease).leave ticket)
  | releaseElsewhere {ticket : Nat} {lease : Ticket} (there : s.tickets.lookup ticket = some lease) :
      Moves s (.releaseElsewhere ticket) { s.setReleased ticket lease with leaving := s.leaving ++ [ticket] }
  | destroy {object : Nat} (tickets : List Nat)
      (their : ∀ ticket ∈ tickets, ∃ lease, s.tickets.lookup ticket = some lease ∧ lease.object = object) :
      Moves s (.destroy object)
        { s with
          destroyed := s.destroyed ++ [object]
          history := s.history ++ [.destroyed object]
          leaving := s.leaving ++ tickets }
  | leave {ticket : Nat} (queued : ticket ∈ s.leaving) :
      Moves s (.leave ticket) (Loader.leave { s with leaving := s.leaving.erase ticket } ticket)
  | respond {id : Nat} : Moves s (.respond id) (s.respond id)
  | reset : Moves s .reset s.reset
  | copy {id : Nat} {flight : Flight} (found : s.flights.lookup id = some flight) (cleared : flight.place = .cleared) :
      Moves s (.copy id) { s with flights := s.flights.insert id flight.copied }
  | call {id ticket : Nat} {rest : List Nat} {flight : Flight} (found : s.flights.lookup id = some flight)
      (calling : flight.place = .calling (ticket :: rest)) : Moves s (.call id) (s.call id flight ticket rest)
  | drop {id : Nat} {flight : Flight} (found : s.flights.lookup id = some flight)
      (calling : flight.place = .calling []) : Moves s (.drop id) (s.drop id)

theorem Moves.of_step (stepped : Step s event t) : Moves s event t := by
  cases event <;> simp only [Step, perform] at stepped
  case load key ids object =>
    split at stepped <;> cases stepped
    exact .load ‹_›
  case release ticket =>
    split at stepped
    · split at stepped <;> cases stepped
      exact .release ‹_›
    · cases stepped
  case releaseElsewhere ticket =>
    split at stepped
    · split at stepped <;> cases stepped
      exact .releaseElsewhere ‹_›
    · cases stepped
  case destroy object =>
    split at stepped <;> cases stepped
    exact .destroy _ fun _ => mem_tickets
  case leave ticket =>
    split at stepped <;> cases stepped
    exact .leave ‹_›
  case respond id =>
    split at stepped <;> cases stepped
    exact .respond
  case reset =>
    cases stepped
    exact .reset
  case copy id =>
    split at stepped
    · split at stepped <;> cases stepped
      exact .copy ‹_› ‹_›
    · cases stepped
  case call id =>
    split at stepped
    · split at stepped <;> cases stepped
      exact .call ‹_› ‹_›
    · cases stepped
  case drop id =>
    split at stepped
    · split at stepped <;> cases stepped
      exact .drop ‹_› ‹_›
    · cases stepped

theorem Sound.queued {tickets : List Nat} (sound : Sound s)
    (gone : ∀ ticket ∈ tickets, ∃ lease, s.tickets.lookup ticket = some lease ∧ ¬ Stays s lease) :
    Sound { s with leaving := tickets } :=
  { sound with
    each := fun id flight found => { sound.each id flight found with }
    leaving := gone }

theorem Sound.unlisted (sound : Sound s) (ticket : Nat) : Sound { s with leaving := s.leaving.erase ticket } :=
  sound.queued fun other member => sound.leaving other (List.mem_of_mem_erase member)

theorem Sound.destroys (sound : Sound s) (object : Nat) {tickets : List Nat}
    (their : ∀ ticket ∈ tickets, ∃ lease, s.tickets.lookup ticket = some lease ∧ lease.object = object) :
    Sound { s with
      destroyed := s.destroyed ++ [object]
      history := s.history ++ [.destroyed object]
      leaving := s.leaving ++ tickets } :=
  { sound with
    each := fun id flight found => (sound.each id flight found).goes (Nat.le_refl _) (fun _ member => member)
      (fun _ lease there => ⟨lease, there, rfl⟩) fun ticket other _ called => by simpa using called
    called := fun ticket other called => sound.called ticket other (by simpa using called)
    released := fun ticket => Iff.trans (by simp) (sound.released ticket)
    destroyed := fun other => by simp [sound.destroyed]
    leaving := fun ticket member => by
      obtain before | now := List.mem_append.mp member
      · obtain ⟨lease, there, goes⟩ := sound.leaving ticket before
        exact ⟨lease, there, fun stays => goes ⟨stays.1, fun gone => stays.2 (List.mem_append_left _ gone)⟩⟩
      · obtain ⟨lease, there, rfl⟩ := their ticket now
        exact ⟨lease, there, fun stays => stays.2 (List.mem_append_right _ (List.mem_singleton_self _))⟩
    once := once_snoc sound.once fun _ _ => nofun }

theorem Sound.step (sound : Sound s) (moves : Moves s event t) : Sound t := by
  cases moves with
  | load => exact sound.loaded _ _ _
  | release there => exact (sound.releases there).left _
  | @releaseElsewhere ticket lease there =>
    have next := sound.releases there
    refine next.queued fun other member => ?_
    obtain before | rfl := mem_snoc member
    · exact next.leaving other before
    · exact ⟨_, AList.lookup_insert _, fun stays => nomatch stays.1⟩
  | destroy tickets their => exact sound.destroys _ their
  | @leave ticket queued => exact (sound.unlisted ticket).left ticket
  | respond => exact sound.responded _
  | reset => exact sound.cleared
  | copy found cleared => exact sound.copied found cleared
  | call found calling => exact sound.callsOne found calling
  | drop found calling =>
    refine sound.dropped found (sound.fits.erased ?_)
    rw [shelf_eq found]
    exact Flight.shelf_eq_none (by simp [calling])

/-! ## Who stays is served -/

/-- A flight still has the callback to call. -/
def Owed (flights : Hash Nat Flight) (id ticket : Nat) : Prop :=
  ∃ flight, flights.lookup id = some flight ∧ flight.owes ticket = true

theorem Owed.put (owed : Owed flights other ticket) (found : flights.lookup id = some flight)
    (keeps : flight.owes ticket = true → later.owes ticket = true) :
    Owed (flights.insert id later) other ticket := by
  obtain ⟨mine, there, owes⟩ := owed
  by_cases here : other = id
  · subst here
    cases found.symm.trans there
    exact ⟨later, AList.lookup_insert _, keeps owes⟩
  · exact ⟨mine, by rw [Hash.lookup_insert, if_neg here, there], owes⟩

theorem Owed.erased (owed : Owed flights other ticket) (found : flights.lookup id = some flight)
    (done : flight.owes ticket = false) : Owed (flights.erase id) other ticket := by
  obtain ⟨mine, there, owes⟩ := owed
  refine ⟨mine, ?_, owes⟩
  rw [Hash.lookup_erase, if_neg, there]
  rintro rfl
  cases found.symm.trans there
  exact nomatch owes.symm.trans done

/-- A consumer that stays has been called or is still to be called by its flight. -/
def Staying (s : Loader) : Prop :=
  ∀ ticket lease, s.tickets.lookup ticket = some lease → Stays s lease →
    .called ticket lease.object ∈ s.history ∨ Owed s.flights lease.flight ticket

/-- Consumers that stay were there before, and are owed their call until it is made. -/
theorem Staying.goes (staying : Staying s) (history : ∀ note ∈ s.history, note ∈ t.history)
    (stays : ∀ ticket lease, t.tickets.lookup ticket = some lease → Stays t lease →
      s.tickets.lookup ticket = some lease ∧ Stays s lease ∧ (Owed s.flights lease.flight ticket →
        .called ticket lease.object ∈ t.history ∨ Owed t.flights lease.flight ticket)) : Staying t := by
  intro ticket lease there stay
  obtain ⟨before, stayed, owed⟩ := stays ticket lease there stay
  exact (staying ticket lease before stayed).elim (fun called => .inl (history _ called)) owed

theorem Staying.joined (staying : Staying s) (found : s.flights.lookup id = some flight)
    (pooled : flight.place = .pooled) (object : Nat) : Staying (s.join id flight object) := by
  intro ticket lease there stays
  dsimp only [join] at there ⊢
  obtain ⟨new, rfl⟩ | ⟨-, there⟩ := Hash.lookup_insert_some there
  · exact .inr ⟨_, AList.lookup_insert _, by simp [Flight.owes, pooled, new]⟩
  · refine (staying ticket lease there stays).imp_right fun owed => owed.put found fun owes => ?_
    simp only [Flight.owes, pooled, List.contains_iff_mem] at owes ⊢
    exact List.mem_append_left _ owes

section

variable (staying : Staying s)
include staying

theorem Staying.loaded (sound : Sound s) (key : String) (ids : List Int) (object : Nat) :
    Staying (s.load key ids object) := by
  unfold load
  split
  · exact staying
  split
  · rename_i id there
    obtain ⟨flight, found, pooled, -⟩ := sound.pooled there
    simp only [found]
    exact staying.joined found pooled object
  · split
    · exact staying.goes (fun _ member => List.mem_append_left _ member)
        fun _ _ there stays => ⟨there, stays, .inr⟩
    · have next : Staying (s.create key ids) := by
        refine staying.goes (fun _ => id) fun ticket lease there stays => ⟨there, stays, fun owed => .inr ?_⟩
        obtain ⟨mine, found, owes⟩ := owed
        refine ⟨mine, ?_, owes⟩
        dsimp only [create]
        rw [Hash.lookup_insert, if_neg, found]
        intro same
        rw [same, sound.absent] at found
        cases found
      exact next.joined (AList.lookup_insert _) rfl object

theorem Staying.dropped (found : s.flights.lookup id = some flight)
    (done : ∀ ticket, flight.owes ticket = false) (pool : Hash String Nat) :
    Staying (drop { s with pool := pool } id) := by
  unfold drop
  simp only [found]
  exact staying.goes (fun _ member => member) fun ticket _ there stays =>
    ⟨there, stays, fun owed => .inr (owed.erased found (done ticket))⟩

theorem Staying.left (sound : Sound s)
    (goes : ∀ lease, s.tickets.lookup ticket = some lease → ¬ Stays s lease) : Staying (s.leave ticket) := by
  unfold leave
  split
  · rename_i lease there
    split
    · rename_i flight found
      have keeps : ∀ other, other ≠ ticket → flight.owes other = true → (flight.without ticket).owes other = true := by
        intro other apart owes
        cases place : flight.place with
        | pooled | cleared =>
          simp only [Flight.owes, Flight.without, place, List.contains_iff_mem] at owes ⊢
          exact (List.mem_erase_of_ne apart).mpr owes
        | calling rest => simpa [Flight.owes, Flight.without, place] using owes
      have apart : ∀ other held, s.tickets.lookup other = some held → Stays s held → other ≠ ticket := by
        rintro other held found stays rfl
        exact goes held found stays
      have next : Staying { s with flights := s.flights.insert lease.flight (flight.without ticket) } :=
        staying.goes (fun _ => id) fun other held found' stays =>
          ⟨found', stays, fun owed => .inr (owed.put found (keeps other (apart other held found' stays)))⟩
      dsimp only
      split
      · rename_i last
        have pooled := (sound.inside found).mp last.2
        refine next.dropped (AList.lookup_insert _) (fun other => ?_) _
        simp [Flight.owes, Flight.without, pooled, last.1]
      · exact next
    · exact staying
  · exact staying

theorem Staying.released (ticket : Nat) (lease : Ticket) : Staying (s.setReleased ticket lease) := by
  refine staying.goes (fun _ member => List.mem_append_left _ member) fun other held found stays => ?_
  dsimp only [setReleased] at found
  obtain ⟨rfl, rfl⟩ | ⟨-, found⟩ := Hash.lookup_insert_some found
  · cases stays.1
  · exact ⟨found, stays, .inr⟩

theorem Staying.put (found : s.flights.lookup id = some flight)
    (keeps : ∀ ticket, flight.owes ticket = true → later.owes ticket = true) :
    Staying { s with flights := s.flights.insert id later } :=
  staying.goes (fun _ member => member) fun ticket _ there stays =>
    ⟨there, stays, fun owed => .inr (owed.put found (keeps ticket))⟩

theorem Staying.responded (sound : Sound s) (id : Nat) : Staying (s.respond id) := by
  unfold respond
  dsimp only
  split
  · rename_i flight found
    split
    · rename_i there
      have pooled := (sound.inside found).mp there
      exact staying.put found fun ticket owes => (Flight.owes_copied (by simp [pooled])).trans owes
    · exact staying
  · exact staying

theorem Staying.cleared (sound : Sound s) : Staying s.reset := by
  refine staying.goes (fun _ => id) fun ticket lease there stays => ⟨there, stays, fun owed => .inr ?_⟩
  obtain ⟨flight, found, owes⟩ := owed
  dsimp only [reset]
  by_cases mine : s.pool.lookup flight.key = some lease.flight
  · refine ⟨{ flight with place := .cleared }, by rw [Hash.lookup_map, found, Option.map_some, if_pos mine], ?_⟩
    simpa [Flight.owes, (sound.inside found).mp mine] using owes
  · exact ⟨flight, by rw [Hash.lookup_map, found, Option.map_some, if_neg mine], owes⟩

theorem Staying.callsOne (sound : Sound s) (found : s.flights.lookup id = some flight)
    (calling : flight.place = .calling (ticket :: rest)) : Staying (s.call id flight ticket rest) := by
  obtain ⟨⟨lease, there, -⟩, -⟩ := sound.calls found calling
  have keeps : ∀ other, other ≠ ticket → flight.owes other = true → (flight.calling rest).owes other = true := by
    intro other apart owes
    simp only [Flight.owes, calling, List.contains_iff_mem, List.mem_cons] at owes
    simpa [Flight.owes, Flight.calling] using owes.resolve_left apart
  unfold call
  simp only [there]
  split
  · rename_i gone
    refine staying.goes (fun _ member => member) fun other held found' stays =>
      ⟨found', stays, fun owed => .inr (owed.put found (keeps other ?_))⟩
    rintro rfl
    cases there.symm.trans found'
    exact stays.2 gone
  · refine staying.goes (fun _ member => List.mem_append_left _ member) fun other held found' stays =>
      ⟨found', stays, fun owed => ?_⟩
    by_cases here : other = ticket
    · subst here
      cases there.symm.trans found'
      exact .inl (List.mem_append_right _ (List.mem_singleton_self _))
    · exact .inr (owed.put found (keeps other here))

theorem Staying.step (sound : Sound s) (moves : Moves s event t) : Staying t := by
  cases moves with
  | load => exact staying.loaded sound _ _ _
  | @release ticket lease there =>
    refine (staying.released ticket lease).left (sound.releases there) fun held found stays => ?_
    cases (AList.lookup_insert s.tickets).symm.trans found
    exact nomatch stays.1
  | releaseElsewhere => exact staying.released _ _
  | destroy =>
    exact staying.goes (fun _ member => List.mem_append_left _ member) fun _ _ there stays =>
      ⟨there, ⟨stays.1, fun gone => stays.2 (List.mem_append_left _ gone)⟩, .inr⟩
  | @leave ticket queued =>
    obtain ⟨lease, there, goes⟩ := sound.leaving ticket queued
    refine .left (s := { s with leaving := s.leaving.erase ticket }) staying (sound.unlisted ticket) fun held found => ?_
    cases there.symm.trans found
    exact goes
  | respond => exact staying.responded sound _
  | reset => exact staying.cleared sound
  | copy found cleared =>
    exact staying.put found fun ticket owes => (Flight.owes_copied (by simp [cleared])).trans owes
  | call found calling => exact staying.callsOne sound found calling
  | drop found calling => exact staying.dropped found (fun ticket => by simp [Flight.owes, calling]) _

end

theorem call_flights :
    (s.call id flight ticket rest).flights = s.flights.insert id (flight.calling rest) := by
  unfold call
  split
  · split <;> rfl
  · rfl

/-- A flight whose callbacks are called ends when they have been called: the induction is on those that are left. -/
theorem ends_calling (found : s.flights.lookup id = some flight) (calling : flight.place = .calling rest) :
    ∃ events t, (∀ event ∈ events, event.own id) ∧
      Follows Step s events t ∧ t.flights.lookup id = none := by
  induction rest generalizing s flight with
  | nil =>
    refine ⟨[.drop id], s.drop id, by simp [Event.own], .cons ?_ (.nil _), ?_⟩
    · simp [Step, perform, found, calling]
    · simp [drop, found]
  | cons ticket rest ih =>
    have next : (s.call id flight ticket rest).flights.lookup id = some (flight.calling rest) := by
      rw [call_flights, AList.lookup_insert]
    obtain ⟨events, t, own, run, ended⟩ := ih next rfl
    refine ⟨.call id :: events, t, ?_, .cons ?_ run, ended⟩
    · simpa [Event.own] using own
    · simp [Step, perform, found, calling]

theorem Sound.ends (sound : Sound s) (found : s.flights.lookup id = some flight) :
    ∃ events t, (∀ event ∈ events, event.own id) ∧ Follows Step s events t ∧ t.flights.lookup id = none := by
  cases place : flight.place with
  | calling rest => exact ends_calling found place
  | pooled =>
    have there := (sound.inside found).mpr place
    have next : (s.respond id).flights.lookup id = some flight.copied := by
      simp [respond, found, there, Flight.copied]
    obtain ⟨events, t, own, run, ended⟩ := ends_calling next rfl
    refine ⟨.respond id :: events, t, ?_, .cons ?_ run, ended⟩
    · simpa [Event.own] using own
    · simp [Step, perform, (sound.each id flight found).running place]
  | cleared =>
    obtain ⟨events, t, own, run, ended⟩ := ends_calling
      (s := { s with flights := s.flights.insert id flight.copied }) (AList.lookup_insert _) rfl
    refine ⟨.copy id :: events, t, ?_, .cons ?_ run, ended⟩
    · simpa [Event.own] using own
    · simp [Step, perform, found, place, Flight.copied]

/-- What holds of every state that is reached. -/
structure Kept (s : Loader) : Prop extends Sound s where
  staying : Staying s

theorem Kept.serves (kept : Kept s) : Served s where
  once := kept.once
  served ticket lease there held alive := kept.staying ticket lease there ⟨held, alive⟩
  ends _ _ found := kept.toSound.ends found
  unpins none song := by
    rw [kept.pins, held, Hash.values, none]
    rfl

/-! ## Nothing is late -/

/-- What holds while the guard is obeyed: a key is asked for once, and a consumer that was released is not called
unless its object is gone. -/
structure Timely (s : Loader) : Prop where
  single : Single s
  late : ∀ ticket lease, s.tickets.lookup ticket = some lease → lease.released = true →
    Owed s.flights lease.flight ticket → lease.object ∈ s.destroyed
  never : NeverLate s.history

theorem Timely.goes (timely : Timely s) (running : ∀ id ∈ t.running, id ∈ s.running)
    (keys : ∀ id flight, t.flights.lookup id = some flight →
      ∃ before, s.flights.lookup id = some before ∧ before.key = flight.key)
    (late : ∀ ticket lease, t.tickets.lookup ticket = some lease → lease.released = true →
      Owed t.flights lease.flight ticket → lease.object ∈ t.destroyed)
    (never : NeverLate t.history) : Timely t where
  single id running₁ other running₂ flight otherFlight found₁ found₂ same := by
    obtain ⟨first, there₁, key₁⟩ := keys id flight found₁
    obtain ⟨second, there₂, key₂⟩ := keys other otherFlight found₂
    exact timely.single id (running id running₁) other (running other running₂) first second there₁ there₂
      (key₁.trans (same.trans key₂.symm))
  late := late
  never := never

theorem Owed.of_put (owed : Owed (flights.insert id later) other ticket)
    (found : flights.lookup id = some flight) (keeps : later.owes ticket = true → flight.owes ticket = true) :
    Owed flights other ticket := by
  obtain ⟨mine, there, owes⟩ := owed
  obtain ⟨rfl, rfl⟩ | ⟨-, there⟩ := Hash.lookup_insert_some there
  · exact ⟨flight, found, keeps owes⟩
  · exact ⟨mine, there, owes⟩

theorem Owed.of_erase (owed : Owed (flights.erase id) other ticket) : Owed flights other ticket := by
  obtain ⟨mine, there, owes⟩ := owed
  obtain ⟨-, there⟩ := Hash.lookup_erase_some there
  exact ⟨mine, there, owes⟩

theorem keys_put {later : Flight} (found : flights.lookup id = some flight) (same : later.key = flight.key) :
    ∀ other held, (flights.insert id later).lookup other = some held →
      ∃ before, flights.lookup other = some before ∧ before.key = held.key :=
  forall_put ⟨flight, found, same.symm⟩ fun _ held _ there => ⟨held, there, rfl⟩

theorem Timely.put (timely : Timely s) (found : s.flights.lookup id = some flight)
    (same : later.key = flight.key) (owes : ∀ ticket, later.owes ticket = true → flight.owes ticket = true) :
    Timely { s with flights := s.flights.insert id later } :=
  timely.goes (fun _ member => member) (keys_put found same)
    (fun ticket lease there done owed => timely.late ticket lease there done (owed.of_put found (owes ticket)))
    timely.never

theorem Timely.dropped (timely : Timely s) (found : s.flights.lookup id = some flight) (pool : Hash String Nat) :
    Timely (drop { s with pool := pool } id) := by
  unfold drop
  simp only [found]
  exact timely.goes (fun _ member => List.mem_of_mem_filter member)
    (forall_erase fun _ held _ there => ⟨held, there, rfl⟩)
    (fun ticket lease there done owed => timely.late ticket lease there done owed.of_erase) timely.never

/-- What a ticket that leaves changes: its callback is still called only from a copy. -/
structure Leaves (s : Loader) (ticket : Nat) (t : Loader) : Prop where
  running : ∀ id ∈ t.running, id ∈ s.running
  keys : ∀ id flight, t.flights.lookup id = some flight →
    ∃ before, s.flights.lookup id = some before ∧ before.key = flight.key
  owed : ∀ id other, Owed t.flights id other → Owed s.flights id other ∧
    (other = ticket → ∃ flight, s.flights.lookup id = some flight ∧ flight.calls ticket = true)
  rest : t.tickets = s.tickets ∧ t.destroyed = s.destroyed ∧ t.history = s.history

theorem Flight.calls_of_without (distinct : flight.consumers.Nodup)
    (owes : (flight.without ticket).owes ticket = true) : flight.calls ticket = true := by
  cases place : flight.place with
  | pooled | cleared =>
    simp only [Flight.owes, Flight.without, place, List.contains_iff_mem] at owes
    exact absurd owes distinct.not_mem_erase
  | calling rest => simpa [Flight.owes, Flight.calls, Flight.without, place] using owes

theorem Sound.owed_flight (sound : Sound s) (owed : Owed s.flights id ticket) :
    ∃ lease flight, s.tickets.lookup ticket = some lease ∧ lease.flight = id ∧
      s.flights.lookup lease.flight = some flight := by
  obtain ⟨flight, found, owes⟩ := owed
  obtain ⟨lease, there, rfl⟩ := (sound.each id flight found).listed ticket (.inr owes)
  exact ⟨lease, flight, there, rfl, found⟩

theorem Sound.leaves_spec (sound : Sound s) (ticket : Nat) : Leaves s ticket (s.leave ticket) := by
  -- without a flight nobody owes the ticket a call
  have stays (gone : ∀ lease, s.tickets.lookup ticket = some lease → s.flights.lookup lease.flight = none) :
      Leaves s ticket s := by
    refine ⟨fun _ => id, fun _ flight found => ⟨flight, found, rfl⟩, ?_, rfl, rfl, rfl⟩
    rintro id other owed
    refine ⟨owed, ?_⟩
    rintro rfl
    obtain ⟨lease, flight, there, -, found⟩ := sound.owed_flight owed
    exact nomatch (gone lease there).symm.trans found
  unfold leave
  split
  · rename_i lease there
    split
    · rename_i flight found
      have keys := @keys_put _ _ s.flights (flight.without ticket) found rfl
      have owed : ∀ id other, Owed (s.flights.insert lease.flight (flight.without ticket)) id other →
          Owed s.flights id other ∧
            (other = ticket → ∃ flight, s.flights.lookup id = some flight ∧ flight.calls ticket = true) := by
        intro id other owed
        have before := owed.of_put found Flight.owes_without
        refine ⟨before, ?_⟩
        rintro rfl
        obtain ⟨_, _, again, rfl, -⟩ := sound.owed_flight before
        cases there.symm.trans again
        obtain ⟨mine, here, owes⟩ := owed
        cases (AList.lookup_insert s.flights).symm.trans here
        exact ⟨flight, found, Flight.calls_of_without (sound.each _ flight found).distinct owes⟩
      dsimp only
      split
      · simp only [drop, AList.lookup_insert]
        exact ⟨fun _ member => List.mem_of_mem_filter member, forall_erase fun id held _ => keys id held,
          fun id other left => owed id other left.of_erase, rfl, rfl, rfl⟩
      · exact ⟨fun _ => id, keys, owed, rfl, rfl, rfl⟩
    · rename_i none
      refine stays fun other again => ?_
      cases there.symm.trans again
      exact none
  · rename_i none
    exact stays fun _ there => nomatch none.symm.trans there

theorem neverLate_snoc (never : NeverLate history)
    (early : ∀ ticket object, note = .called ticket object → .released ticket ∉ history ∧ .destroyed object ∉ history) :
    NeverLate (history ++ [note]) :=
  calls_snoc (P := fun before ticket object => Note.released ticket ∉ before ∧ Note.destroyed object ∉ before) never early

theorem Timely.left (timely : Timely s) (sound : Sound s) (ticket : Nat) : Timely (s.leave ticket) := by
  have leaves := sound.leaves_spec ticket
  obtain ⟨tickets, destroyed, history⟩ := leaves.rest
  refine timely.goes leaves.running leaves.keys ?_ (history ▸ timely.never)
  intro other lease there done owed
  rw [destroyed]
  exact timely.late other lease (tickets ▸ there) done (leaves.owed _ other owed).1

theorem Timely.joined (timely : Timely s) (found : s.flights.lookup id = some flight)
    (pooled : flight.place = .pooled) (object : Nat) : Timely (s.join id flight object) := by
  refine timely.goes (fun _ member => member) (keys_put found rfl) (fun ticket lease there done owed => ?_) timely.never
  dsimp only [join] at there owed
  obtain ⟨rfl, rfl⟩ | ⟨apart, there⟩ := Hash.lookup_insert_some there
  · cases done
  · refine timely.late ticket lease there done (owed.of_put found fun owes => ?_)
    have member : ticket ∈ flight.consumers ++ [s.serial + 1] := by simpa [Flight.owes, pooled] using owes
    obtain older | new := List.mem_append.mp member
    · simpa [Flight.owes, pooled] using older
    · exact absurd (List.mem_singleton.mp new) apart

theorem Timely.created {key : String} {ids : List Int} (timely : Timely s)
    (none : s.pool.lookup key = none) (spares : Spares s (.load key ids object)) : Timely (s.create key ids) := by
  have single : ∀ id ∈ s.running, ∀ flight, s.flights.lookup id = some flight → flight.key ≠ key := by
    intro id member flight found
    have passed := List.all_eq_true.mp spares id member
    simpa [found, none] using passed
  have earlier : ∀ id, id ≠ s.made → id ∈ (s.create key ids).running → id ∈ s.running := fun id old member => by
    simpa [create, old] using member
  have entry : ∀ id flight, (s.create key ids).flights.lookup id = some flight →
      id = s.made ∧ flight.key = key ∨ id ≠ s.made ∧ s.flights.lookup id = some flight :=
    forall_put (.inl ⟨rfl, rfl⟩) fun _ _ apart found => .inr ⟨apart, found⟩
  exact {
    single := fun id running other others flight otherFlight found found' same => by
      obtain ⟨rfl, mine⟩ | ⟨old, before⟩ := entry id flight found <;>
        obtain ⟨rfl, its⟩ | ⟨old', before'⟩ := entry other otherFlight found'
      · rfl
      · exact absurd (same.symm.trans mine) (single other (earlier other old' others) otherFlight before')
      · exact absurd (same.trans its) (single id (earlier id old running) flight before)
      · exact timely.single id (earlier id old running) other (earlier other old' others) flight otherFlight before
          before' same
    late := fun ticket lease there done owed => by
      obtain ⟨mine, found, owes⟩ := owed
      obtain ⟨here, -⟩ | ⟨-, before⟩ := entry _ mine found
      · rw [here] at found
        cases (AList.lookup_insert s.flights).symm.trans found
        simp [Flight.owes] at owes
      · exact timely.late ticket lease there done ⟨mine, before, owes⟩
    never := timely.never }

theorem Timely.loaded {ids : List Int} (timely : Timely s) (sound : Sound s)
    (spares : Spares s (.load key ids object)) : Timely (s.load key ids object) := by
  unfold load
  split
  · exact timely
  split
  · rename_i id there
    obtain ⟨flight, found, pooled, -⟩ := sound.pooled there
    simp only [found]
    exact timely.joined found pooled object
  · rename_i none
    split
    · exact { timely with never := neverLate_snoc timely.never fun _ _ => nofun }
    · exact (timely.created none spares).joined (AList.lookup_insert _) rfl object

theorem gone_of_absent (there : s.tickets.lookup ticket = some lease) (absent : s.present ticket = false) :
    lease.object ∈ s.destroyed := by
  simpa [present, there] using absent

section

variable (timely : Timely s)
include timely

theorem Timely.released (sound : Sound s) (there : s.tickets.lookup ticket = some lease)
    (spares : Spares s (.release ticket)) : Timely ((s.setReleased ticket lease).leave ticket) := by
  have leaves := (sound.releases there).leaves_spec ticket
  obtain ⟨tickets, destroyed, history⟩ := leaves.rest
  refine timely.goes leaves.running leaves.keys ?_
    (history ▸ neverLate_snoc timely.never fun _ _ => nofun)
  intro other held found done owed
  obtain ⟨before, calls⟩ := leaves.owed _ other owed
  rw [destroyed]
  rw [tickets] at found
  dsimp only [setReleased] at found before calls ⊢
  rw [Hash.lookup_insert] at found
  split at found
  · rename_i here
    cases found
    obtain ⟨flight, alive, copied⟩ := calls here
    have gone := gone_of_absent there (spares (by simpa [flightOf, there, alive] using copied))
    exact gone
  · exact timely.late other held found done before

theorem Timely.releasedElsewhere (there : s.tickets.lookup ticket = some lease)
    (spares : Spares s (.releaseElsewhere ticket)) :
    Timely { s.setReleased ticket lease with leaving := s.leaving ++ [ticket] } := by
  refine timely.goes (fun _ => id) (fun _ flight found => ⟨flight, found, rfl⟩) ?_
    (neverLate_snoc timely.never fun _ _ => nofun)
  intro other held found done owed
  dsimp only [setReleased] at found owed ⊢
  obtain ⟨here, rfl⟩ | ⟨-, found⟩ := Hash.lookup_insert_some found
  · obtain ⟨flight, alive, owes⟩ := owed
    have gone := gone_of_absent there (spares (by simpa [flightOf, there, alive, here] using owes))
    exact gone
  · exact timely.late other held found done owed

theorem Timely.responded (sound : Sound s) (id : Nat) : Timely (s.respond id) := by
  have calm : Timely { s with running := s.running.filter fun other => other ≠ id } :=
    timely.goes (fun _ member => List.mem_of_mem_filter member) (fun _ flight found => ⟨flight, found, rfl⟩)
      timely.late timely.never
  unfold respond
  dsimp only
  split
  · rename_i flight found
    split
    · rename_i there
      have pooled := (sound.inside found).mp there
      have owes : ∀ ticket, flight.copied.owes ticket = true → flight.owes ticket = true := fun _ owes =>
        (Flight.owes_copied (by simp [pooled])).symm.trans owes
      have same : flight.copied.key = flight.key := rfl
      have next := calm.put found same owes
      exact { next with }
    · exact calm
  · exact calm

theorem Timely.cleared (sound : Sound s) : Timely s.reset := by
  have before : ∀ id flight, s.reset.flights.lookup id = some flight → ∃ before, s.flights.lookup id = some before ∧
      before.key = flight.key ∧ ∀ ticket, flight.owes ticket = true → before.owes ticket = true := by
    intro id flight found
    dsimp only [reset] at found
    rw [Hash.lookup_map] at found
    obtain ⟨held, there, same⟩ := Option.map_eq_some_iff.mp found
    refine ⟨held, there, ?_⟩
    split at same
    · rename_i mine
      subst same
      exact ⟨rfl, fun ticket owes => by simpa [Flight.owes, (sound.inside there).mp mine] using owes⟩
    · subst same
      exact ⟨rfl, fun _ owes => owes⟩
  refine timely.goes (fun _ => id) (fun id flight found => ?_) (fun ticket lease there done owed => ?_)
    timely.never
  · obtain ⟨held, there, key, -⟩ := before id flight found
    exact ⟨held, there, key⟩
  · obtain ⟨flight, found, owes⟩ := owed
    obtain ⟨held, alive, -, still⟩ := before _ flight found
    exact timely.late ticket lease there done ⟨held, alive, still ticket owes⟩

theorem Timely.callsOne (sound : Sound s) (found : s.flights.lookup id = some flight)
    (calling : flight.place = .calling (ticket :: rest)) : Timely (s.call id flight ticket rest) := by
  have owed : Owed s.flights id ticket := ⟨flight, found, by simp [Flight.owes, calling]⟩
  have next : Timely { s with flights := s.flights.insert id (flight.calling rest) } := by
    refine timely.put found rfl fun other owes => ?_
    simp only [Flight.owes, Flight.calling, calling, List.contains_iff_mem] at owes ⊢
    exact .tail _ owes
  obtain ⟨⟨lease, there, mine⟩, -⟩ := sound.calls found calling
  unfold call
  simp only [there]
  split
  · exact next
  · rename_i alive
    refine { next with never := neverLate_snoc next.never ?_ }
    rintro _ _ ⟨⟩
    refine ⟨fun released => ?_, fun gone => alive ((sound.destroyed _).mp gone)⟩
    obtain ⟨_, again, done⟩ := (sound.released ticket).mp released
    cases there.symm.trans again
    exact alive (timely.late ticket lease there done (mine ▸ owed))

theorem Timely.step (sound : Sound s) (spares : Spares s event) (moves : Moves s event t) : Timely t := by
  cases moves with
  | load => exact timely.loaded sound spares
  | release there => exact timely.released sound there spares
  | releaseElsewhere there => exact timely.releasedElsewhere there spares
  | destroy =>
    exact timely.goes (fun _ => id) (fun _ flight found => ⟨flight, found, rfl⟩)
      (fun ticket lease there done owed => List.mem_append_left _ (timely.late ticket lease there done owed))
      (neverLate_snoc timely.never fun _ _ => nofun)
  | @leave ticket queued =>
    have same : Timely { s with leaving := s.leaving.erase ticket } := { timely with }
    exact same.left (sound.unlisted ticket) ticket
  | respond => exact timely.responded sound _
  | reset => exact timely.cleared sound
  | copy found cleared =>
    exact timely.put found rfl fun ticket owes => (Flight.owes_copied (by simp [cleared])).symm.trans owes
  | call found calling => exact timely.callsOne sound found calling
  | drop found calling => exact timely.dropped found _

end

theorem Timely.initial : Timely {} where
  single _ running := nomatch running
  late := nofun
  never before _ _ _ split := by simp at split

structure Spared (s : Loader) : Prop extends Sound s where
  timely : Timely s

/-- In every run each consumer that stays is called once, by a flight that can be brought to its end, and the pins are
taken back; and in a run in which no lease is released while its callback is in a copy, none on another thread while
its callback may be called, and no key is loaded whose flight was reset and not cancelled yet, a key is asked for once
and no callback is called late. -/
theorem songs_are_loaded_once (reached : Reach (· = {}) (fun _ _ => True) Step s) :
    Served s ∧ (Reach (· = {}) Spares Step s → Single s ∧ NeverLate s.history) := by
  have kept : Kept s :=
    reached.invariant (fun _ initial => initial ▸ ⟨Sound.initial, nofun⟩) fun _ _ _ kept _ stepped =>
      ⟨kept.toSound.step (.of_step stepped), kept.staying.step kept.toSound (.of_step stepped)⟩
  refine ⟨kept.serves, fun spared => ?_⟩
  have held : Spared s :=
    spared.invariant (fun _ initial => initial ▸ ⟨Sound.initial, Timely.initial⟩) fun _ _ _ held spares stepped =>
      ⟨held.toSound.step (.of_step stepped), held.timely.step held.toSound spares (.of_step stepped)⟩
  exact ⟨held.timely.single, held.timely.never⟩

/-- Three consumers of one key and one of another: one leaves, one is destroyed, and a reset ends what is left. -/
def evening : List Event :=
  [.load "album" [1, 2] 1, .load "album" [1, 2] 2, .load "album" [1, 2] 3, .load "queue" [2] 4, .release 2, .respond 0,
    .destroy 3, .call 0, .load "album" [1, 2] 1, .leave 3, .call 0, .drop 0, .reset, .copy 1, .call 1, .copy 2, .call 2,
    .release 5, .drop 1, .drop 2]

theorem songs_are_loaded_once_in_an_evening : ∃ s : Loader,
    s.history = [.released 2, .destroyed 3, .called 1 1, .called 4 4, .called 5 1, .released 5] ∧
      s.flights.entries = [] ∧ s.pinned = [1, 2, 2, 1, 2] ∧ Served s ∧ Single s ∧ NeverLate s.history := by
  have ran : (play Spares perform {} evening).any (fun s =>
      s.history == [.released 2, .destroyed 3, .called 1 1, .called 4 4, .called 5 1, .released 5] &&
        s.flights.entries.isEmpty && s.pinned == [1, 2, 2, 1, 2]) = true := by decide +kernel
  obtain ⟨s, played, shown⟩ := (Option.any_eq_true ..).mp ran
  rw [Bool.and_eq_true, Bool.and_eq_true, beq_iff_eq, List.isEmpty_iff, beq_iff_eq] at shown
  have spared : Reach (· = {}) Spares Step s := Reach.play evening (.start rfl) played
  obtain ⟨served, timely⟩ := songs_are_loaded_once (spared.weaken fun _ _ _ => trivial)
  exact ⟨s, shown.1.1, shown.1.2, shown.2, served, timely spared⟩

/-- The first of two callbacks releases the lease of the second one. -/
def released : List Event := [.load "album" [1] 1, .load "album" [1] 2, .respond 0, .call 0, .release 2, .call 0]

/-- A callback that is told of a reset loads its key again. -/
def reloaded : List Event := [.load "album" [1] 1, .reset, .copy 0, .call 0, .load "album" [1] 1]

theorem called_after_release : (∃ s : Loader, Reach (· = {}) (fun _ _ => True) Step s ∧
      s.history = [.called 1 1, .released 2, .called 2 2] ∧ ¬ NeverLate s.history) ∧
    ∃ s : Loader, Reach (· = {}) (fun _ _ => True) Step s ∧ s.running = [0, 1] ∧ ¬ Single s := by
  constructor
  · have ran : (play (fun _ _ => True) perform {} released).any (fun s =>
        s.history == [.called 1 1, .released 2, .called 2 2]) = true := by decide +kernel
    obtain ⟨s, played, shown⟩ := (Option.any_eq_true ..).mp ran
    rw [beq_iff_eq] at shown
    have reached : Reach (· = {}) (fun _ _ => True) Step s := Reach.play released (.start rfl) played
    refine ⟨s, reached, shown, fun never => ?_⟩
    exact (never [.called 1 1, .released 2] 2 2 [] shown).1 (by simp)
  · have ran : (play (fun _ _ => True) perform {} reloaded).any (fun s => s.running == [0, 1] &&
        ((s.flights.lookup 0).any fun flight => flight.key == "album") &&
        (s.flights.lookup 1).any fun flight => flight.key == "album") = true := by decide +kernel
    obtain ⟨s, played, shown⟩ := (Option.any_eq_true ..).mp ran
    rw [Bool.and_eq_true, Bool.and_eq_true, beq_iff_eq] at shown
    obtain ⟨first, found, key⟩ := (Option.any_eq_true ..).mp shown.1.2
    obtain ⟨second, found', key'⟩ := (Option.any_eq_true ..).mp shown.2
    rw [beq_iff_eq] at key key'
    have reached : Reach (· = {}) (fun _ _ => True) Step s := Reach.play reloaded (.start rfl) played
    refine ⟨s, reached, shown.1.1, fun single => ?_⟩
    have same : 0 = 1 := single 0 (by simp [shown.1.1]) 1 (by simp [shown.1.1]) first second found found'
      (key.trans key'.symm)
    cases same

end Qcm.EntityLoads
