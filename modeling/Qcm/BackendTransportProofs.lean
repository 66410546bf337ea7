import Qcm.BackendTransport

/-!
What the transport carries.  A request has one place at a time, from its post to its return, and only a message that
the session accepts goes on to the interface, so the peer has said hello on the same connection.

The generation is tested once, before the entities of a message are queued and before its handler is posted, so it can
have changed when they are reached; and an answer is matched with a request by its id alone, which a later request can
have when the one that it answers has been cancelled.  Both hold where this does not come about.
-/

namespace Qcm.BackendTransport

open Lib
open Runs Backend

variable {s t : Backend} {event : Event} {request : Request} {received : Received}

/-! ## Steps -/

/-- What the thread of the transport does with what is posted to it. -/
inductive Works (s : Backend) : Post → Backend → Prop where
  | settles {request : Request} (message : String) : Works s (.send request) (s.settle request (.err message))
  | sends {request : Request} (fresh : s.pending.lookup request.id = none) :
      Works s (.send request) { s with
        pending := s.pending.insert request.id request
        owed := s.owed ++ [(request.id, some request.number)] }
  | fails {id : Int} {hasTestReq : Bool} (message : String) : Works s (.sendUntracked id hasTestReq) (s.fail message)
  | begins {id : Int} {hasTestReq timer : Bool} {protocol : Session} {hellos : List Int}
      {owed : List (Int × Option Nat)}
      (hello : protocol = s.protocol ∧ hellos = s.hellos ∨ protocol = .begin id ∧ hellos = s.hellos ++ [id])
      (sent : ∀ entry ∈ owed, entry ∈ s.owed ∨ entry = (id, none)) :
      Works s (.sendUntracked id hasTestReq)
        { s with protocol := protocol, timer := timer, hellos := hellos, owed := owed }
  | cancels {id : Int} {request : Request} (found : s.pending.lookup id = some request) :
      Works s (.cancel id) ({ s with pending := s.pending.erase id }.settle request (.err "request canceled"))
  | shutdown : Works s .shutdown s.shutdown
  | plain {post : Post} {protocol : Session} {timer running connected failed : Bool} {link : Link}
      (plain : post.request = none) (kept : protocol = s.protocol ∨ protocol = .reset) :
      Works s post { s with
        protocol := protocol, timer := timer, running := running, connected := connected, failed := failed, link := link }

theorem Works.of_work (refused : Option String) (post : Post) : Works s post (s.work refused post) := by
  cases post with
  | send request =>
    simp only [Backend.work, Backend.send]
    split
    · exact .settles _
    split
    · exact .settles _
    split
    · exact .settles _
    rename_i new
    rw [Bool.not_eq_true, Option.isSome_eq_false_iff, Option.isNone_iff_eq_none] at new
    split
    · exact .settles _
    split
    · exact .settles _
    · exact .sends new
  | sendUntracked id hasTestReq =>
    have sent : ∀ entry ∈ s.owed ++ [(id, none)], entry ∈ s.owed ∨ entry = (id, none) :=
      fun _ member => (List.mem_append.mp member).imp_right List.mem_singleton.mp
    simp only [Backend.work, sendUntracked]
    split
    · exact .plain rfl (.inl rfl)
    split
    · exact .fails _
    split <;> split
    · exact .begins (.inl ⟨rfl, rfl⟩) fun _ => .inl
    · exact .begins (.inr ⟨rfl, rfl⟩) fun _ => .inl
    · exact .begins (.inl ⟨rfl, rfl⟩) sent
    · exact .begins (.inr ⟨rfl, rfl⟩) sent
  | cancel id =>
    simp only [Backend.work, cancel]
    split
    · exact .cancels ‹_›
    · exact .plain rfl (.inl rfl)
  | shutdown => exact .shutdown
  | kill => exact .plain rfl (.inr rfl)
  | start =>
    simp only [Backend.work, Backend.start]
    split
    · exact .plain rfl (.inl rfl)
    split <;> exact .plain rfl (.inl rfl)
  | connectTo =>
    simp only [Backend.work, connectTo]
    split <;> exact .plain rfl (.inl rfl)

/-- What becomes of a message that comes in: it is refused, is for the interface, or for the request of its id. -/
inductive Receives (s : Backend) (received : Received) : Backend → Prop where
  | fails (message : String) : Receives s received (s.fail message)
  | posts {next : Session} {timer : Bool} (accepted : s.protocol.accept received.message = .ok next) :
      Receives s received ({ s with protocol := next, timer := timer }.post (.message received))
  | completes {next : Session} {timer : Bool} {request : Request}
      (accepted : s.protocol.accept received.message = .ok next) (id : received.message.id ≠ 0)
      (direct : received.message.hasTestRsp = false)
      (found : s.pending.lookup received.message.id = some request) :
      Receives s received ({ s with
        protocol := next, timer := timer, pending := s.pending.erase received.message.id }.settle request (.ok received))
  | drops {next : Session} {timer : Bool} (accepted : s.protocol.accept received.message = .ok next) :
      Receives s received { s with protocol := next, timer := timer }

theorem Receives.of_whenMessage : Receives s received (s.whenMessage received) := by
  unfold whenMessage
  split
  · exact .fails _
  · rename_i next accepted
    dsimp only
    split
    · rename_i own
      unfold complete
      split
      · exact .completes accepted own.1 own.2 ‹_›
      · exact .drops accepted
    · exact .posts accepted

/-- How a request that waited goes on. -/
inductive Resumes (s : Backend) : Resumption → Backend → Prop where
  | gone {resumption : Resumption} :
      Resumes s resumption { s with finished := s.finished ++ [(resumption.request, .err "request canceled")] }
  | fails {resumption : Resumption} (message : String) :
      Resumes s resumption (s.finish resumption.request (.err message))
  | delivers {request : Request} {received : Received} (now : request.generation = s.generation) :
      Resumes s (.answered request (.ok received)) (s.deliver received (some request))
  | answers {request : Request} {received : Received} (now : request.generation = s.generation) :
      Resumes s (.answered request (.ok received)) (s.finish request (.ok received))
  | applied {request : Request} {received : Received} (now : request.generation = s.generation) :
      Resumes s (.applied request received) (s.finish request (.ok received))

theorem Resumes.of_resume (resumption : Resumption) : Resumes s resumption (s.resume resumption) := by
  cases resumption with
  | answered request result =>
    simp only [Backend.resume]
    split
    · exact .gone
    cases result with
    | err message => exact .fails _
    | ok received =>
      dsimp only
      split
      · exact .fails _
      rename_i now
      split
      · exact .delivers (not_not.mp now)
      split
      · exact .fails _
      · exact .answers (not_not.mp now)
  | applied request received =>
    simp only [Backend.resume]
    split
    · exact .gone
    split
    · exact .fails _
    · rename_i now
      exact .applied (not_not.mp now)

/-- The interface goes on. -/
def Event.ofInterface : Event → Bool
  | .call | .resume _ | .apply | .applied _ => true
  | _ => false

/-- What a step may do. -/
inductive Moves (s : Backend) : Event → Backend → Prop where
  | connected : s.link = .opening →
      Moves s .connected { s.whenConnected with link := .open, owed := [], hellos := [], greeted := false }
  | parted : Moves s .parted { s with link := .parted }
  | disconnected : Moves s .disconnected { s.whenDisconnected with link := .idle }
  | answer {message : Message} {entry : Int × Option Nat} (owed : entry ∈ s.owed) (same : message.id = entry.1) :
      Moves s (.message message (some entry)) ({ s with owed := s.owed.erase entry }.receive message entry.2)
  | push {message : Message} (allowed : s.protocol.ready = false ∨ message.id = 0) :
      Moves s (.message message none) (s.receive message none)
  | work {refused : Option String} {post : Post} {rest : List Post} {t : Backend} (posted : s.posted = post :: rest)
      (works : Works { s with posted := rest } post t) : Moves s (.work refused) t
  | request : Moves s .request s.request
  | call {call : Call} {rest : List Call} (calls : s.calls = call :: rest) :
      Moves s .call (({ s with calls := rest } : Backend).call call)
  | resume {resumption : Resumption} {t : Backend} (there : resumption ∈ s.resumptions)
      (resumes : Resumes { s with resumptions := s.resumptions.erase resumption } resumption t) :
      Moves s (.resume resumption) t
  | apply {operation : Operation} {rest : List Operation} (free : s.applying = none)
      (operations : s.operations = operation :: rest) :
      Moves s .apply (({ s with operations := rest } : Backend).apply operation)
  | applied {error : Option String} {operation : Operation} (applying : s.applying = some operation) :
      Moves s (.applied error) (({ s with applying := none } : Backend).completed operation error)
  | fails {event : Event} (outside : event.ofInterface = false) (running : Bool) (message : String) :
      Moves s event (({ s with running := running } : Backend).fail message)
  | posts {event : Event} {call : Call} (plain : call = .started ∨ ∃ message, call = .error message) :
      Moves s event (s.post call)
  | asks {event : Event} {post : Post} {abandoned : List Nat} (plain : post.request = none) :
      Moves s event { s with abandoned := abandoned, posted := s.posted ++ [post] }

variable {id : Int} {message : Message} {consumer : Option Request}

theorem Moves.of_step (stepped : Step s event t) : Moves s event t := by
  unfold Step at stepped
  cases event <;> simp only [perform] at stepped
  case message message entry =>
    cases entry with
    | some entry =>
      dsimp only at stepped
      split at stepped <;> cases stepped
      rename_i may
      exact .answer may.2.1 may.2.2
    | none =>
      dsimp only at stepped
      split at stepped <;> cases stepped
      rename_i may
      exact .push may.2
  case connected | parted | disconnected | call | apply | applied =>
    split at stepped <;> cases stepped
    constructor <;> assumption
  case garbage | timeout | exited | processError =>
    split at stepped <;> cases stepped
    exact .fails rfl _ _
  case error message =>
    cases stepped
    exact .fails rfl s.running message
  case port found =>
    split at stepped <;> cases stepped
    refine .posts ?_
    split
    · exact .inl rfl
    · exact .inr ⟨_, rfl⟩
  case work refused =>
    split at stepped <;> cases stepped
    exact .work ‹_› (.of_work refused _)
  case request =>
    cases stepped
    exact .request
  case abandon request =>
    split at stepped <;> cases stepped
    exact .asks rfl
  case start | shutdown =>
    cases stepped
    exact .asks rfl
  case resume resumption =>
    split at stepped <;> cases stepped
    exact .resume ‹_› (.of_resume resumption)

/-! ## Where the requests are -/

/-- How often a request is under way or has returned. -/
def tally (s : Backend) (request : Request) : Nat :=
  (s.posted.filterMap Post.request).count request + (Hash.values s.pending).count request +
    (s.resumptions.map Resumption.request).count request + (s.operations.filterMap Operation.consumer).count request +
    (s.applying.bind Operation.consumer).toList.count request + (s.finished.map Prod.fst).count request

theorem tally_settle (other : Request) (result : Result) :
    tally (s.settle other result) request = tally s request + [other].count request := by
  simp only [tally, settle, List.map_append, List.count_append, List.map_cons, List.map_nil, Resumption.request]
  omega

theorem tally_finish (other : Request) (result : Result) :
    tally (s.finish other result) request = tally s request + [other].count request := by
  simp only [tally, finish, List.filterMap_append, List.map_append, List.count_append, List.map_cons, List.map_nil]
  simp only [List.filterMap_cons, Post.request, List.filterMap_nil, List.count_nil]
  omega

theorem tally_failPending (message : String) : tally (s.failPending message) request = tally s request := by
  have same : (Resumption.request ∘ fun request => Resumption.answered request (.err message)) = id := rfl
  simp only [tally, failPending, List.map_append, List.map_map, List.count_append, same, List.map_id]
  have none : Hash.values (∅ : Hash Int Request) = [] := rfl
  rw [none, List.count_nil]
  omega

theorem tally_fail (message : String) : tally (s.fail message) request = tally s request := by
  have same : tally { ({ s.resetProtocol with connected := false }.failPending message) with link := .idle } request =
      tally s request := tally_failPending (s := { s.resetProtocol with connected := false }) message
  unfold fail
  dsimp only
  split
  · exact same
  split
  · exact same
  · exact same

variable {other : Request} {resumption : Resumption} {operation : Operation} {generation : Nat}

theorem tally_erase (found : s.pending.lookup id = some other) (result : Result) :
    tally ({ s with pending := s.pending.erase id }.settle other result) request = tally s request := by
  rw [tally_settle]
  have same := (Hash.values_perm_erase found).count_eq request
  rw [← List.singleton_append, List.count_append] at same
  simp only [tally]
  omega

theorem Receives.tally (receives : Receives s received t) : tally t request = tally s request := by
  cases receives with
  | fails => exact tally_fail _
  | completes _ _ _ found => exact tally_erase found _
  | posts | drops => rfl

theorem values_insert {pending : Hash Int Request} (fresh : pending.lookup id = none) :
    Hash.values (pending.insert id other) = other :: Hash.values pending := by
  have absent : id ∉ pending.entries.keys := fun member =>
    absurd (AList.lookup_eq_none.mp fresh) (not_not.mpr (AList.mem_keys.mp member))
  have kept : Hash.values (pending.erase id) = Hash.values pending := by
    rw [Hash.values, AList.erase]
    dsimp only
    rw [List.kerase_of_notMem_keys absent, Hash.values]
  rw [← kept]
  rfl

theorem Works.tally {post : Post} (works : Works s post t) :
    tally t request = tally s request + post.request.toList.count request := by
  cases works with
  | settles => exact tally_settle _ _
  | sends fresh =>
    simp only [BackendTransport.tally, Post.request, Option.toList]
    rw [values_insert fresh, ← List.singleton_append, List.count_append]
    omega
  | fails => exact tally_fail _
  | begins => rfl
  | cancels found => exact tally_erase found _
  | shutdown => exact tally_failPending (s := { s.resetProtocol with shuttingDown := true, connected := false }) _
  | plain plain =>
    rw [plain]
    rfl

theorem tally_ask {post : Post} (plain : post.request = none) :
    tally { s with posted := s.posted ++ [post] } request = tally s request := by
  simp only [tally, List.filterMap_append, List.filterMap_cons, plain, List.filterMap_nil, List.append_nil]

theorem tally_deliver (consumer : Option Request) :
    tally (s.deliver received consumer) request = tally s request + consumer.toList.count request := by
  simp only [tally, deliver, List.filterMap_append, List.count_append]
  cases consumer with
  | none => simp only [List.filterMap_cons, List.filterMap_nil, List.count_nil, Option.toList]; omega
  | some other => simp only [List.filterMap_cons, List.filterMap_nil, Option.toList]; omega

theorem tally_call (call : Call) : tally (s.call call) request = tally s request := by
  cases call with
  | started => exact tally_ask rfl
  | connected =>
    have plain : (Post.sendUntracked s.serial true).request = none := rfl
    exact tally_ask (s := s) plain
  | disconnected => rfl
  | error => exact tally_ask rfl
  | handle => rfl
  | message received =>
    simp only [Backend.call, onMessage]
    split
    · rfl
    split
    · exact tally_deliver none
    split
    · exact tally_ask rfl
    · rfl

theorem tally_gone (other : Request) (result : Result) :
    tally { s with finished := s.finished ++ [(other, result)] } request = tally s request + [other].count request := by
  simp only [tally, List.map_append, List.count_append, List.map_cons, List.map_nil]
  omega

theorem Resumes.tally (resumes : Resumes s resumption t) :
    tally t request = tally s request + [resumption.request].count request := by
  cases resumes with
  | gone => exact tally_gone _ _
  | fails | answers | applied => exact tally_finish _ _
  | delivers => exact tally_deliver _

theorem tally_completed (operation : Operation) (error : Option String) :
    tally (s.completed operation error) request = tally s request + operation.consumer.toList.count request := by
  unfold completed
  cases consumer : operation.consumer with
  | none =>
    cases error with
    | none => rfl
    | some message => exact tally_ask rfl
  | some other =>
    cases error with
    | none =>
      simp only [tally, List.map_append, List.count_append, List.map_cons, List.map_nil, Resumption.request,
        Option.toList]
      omega
    | some message => exact tally_settle other _

/-- The requests are numbered, each is in one place, and none is of a later generation. -/
structure Counted (s : Backend) : Prop where
  numbered : s.requests.map Request.number = List.range s.requests.length
  placed : ∀ request, tally s request = s.requests.count request
  begun : ∀ request ∈ s.requests, request.generation ≤ s.generation

theorem requests_fail (message : String) :
    (s.fail message).requests = s.requests ∧ (s.fail message).generation = s.generation := by
  unfold fail
  dsimp only
  split
  · exact ⟨rfl, rfl⟩
  split <;> exact ⟨rfl, rfl⟩

theorem Receives.requests (receives : Receives s received t) :
    t.requests = s.requests ∧ t.generation = s.generation := by
  cases receives with
  | fails => exact requests_fail _
  | posts | completes | drops => exact ⟨rfl, rfl⟩

theorem Works.requests {post : Post} (works : Works s post t) :
    t.requests = s.requests ∧ t.generation = s.generation := by
  cases works with
  | fails => exact requests_fail _
  | settles | sends | begins | cancels | shutdown | plain => exact ⟨rfl, rfl⟩

/-- The transport, and what it knows of the peer, is as it was. -/
structure Beside (s t : Backend) : Prop where
  protocol : t.protocol = s.protocol
  pending : t.pending = s.pending
  owed : t.owed = s.owed
  hellos : t.hellos = s.hellos
  greeted : t.greeted = s.greeted
  requests : t.requests = s.requests
  generation : t.generation = s.generation

theorem beside_call (call : Call) : Beside s (s.call call) := by
  cases call with
  | started | connected | disconnected | error | handle => exact ⟨rfl, rfl, rfl, rfl, rfl, rfl, rfl⟩
  | message received =>
    simp only [Backend.call, onMessage]
    split
    · exact ⟨rfl, rfl, rfl, rfl, rfl, rfl, rfl⟩
    split
    · exact ⟨rfl, rfl, rfl, rfl, rfl, rfl, rfl⟩
    split <;> exact ⟨rfl, rfl, rfl, rfl, rfl, rfl, rfl⟩

theorem beside_resumes (resumes : Resumes s resumption t) : Beside s t := by
  cases resumes <;> exact ⟨rfl, rfl, rfl, rfl, rfl, rfl, rfl⟩

theorem beside_completed (operation : Operation) (error : Option String) :
    Beside s (s.completed operation error) := by
  unfold completed
  split <;> exact ⟨rfl, rfl, rfl, rfl, rfl, rfl, rfl⟩

theorem beside_apply (operation : Operation) : Beside s (s.apply operation) := by
  unfold Backend.apply
  split
  · exact beside_completed operation _
  · exact ⟨rfl, rfl, rfl, rfl, rfl, rfl, rfl⟩

theorem beside_step (moves : Moves s event t) (inside : event.ofInterface = true) : Beside s t := by
  cases moves with
  | call => exact { beside_call _ with }
  | resume _ resumes => exact { beside_resumes resumes with }
  | apply => exact { beside_apply _ with }
  | applied => exact { beside_completed _ _ with }
  | connected | parted | disconnected | answer | push | work | request => cases inside
  | fails outside => cases inside.symm.trans outside
  | posts | asks => exact ⟨rfl, rfl, rfl, rfl, rfl, rfl, rfl⟩

theorem Counted.initial : Counted {} where
  numbered := rfl
  placed _ := rfl
  begun _ member := nomatch member

theorem Counted.goes (counted : Counted s) (placed : ∀ request, tally t request = tally s request)
    (same : t.requests = s.requests ∧ t.generation = s.generation) : Counted t where
  numbered := by
    rw [same.1]
    exact counted.numbered
  placed request := by
    rw [placed, same.1]
    exact counted.placed request
  begun request member := by
    rw [same.2]
    exact counted.begun request (same.1 ▸ member)

theorem Counted.later (counted : Counted s) (placed : ∀ request, tally t request = tally s request)
    (same : t.requests = s.requests) (later : t.generation = s.generation + 1) : Counted t where
  numbered := by
    rw [same]
    exact counted.numbered
  placed request := by
    rw [placed, same]
    exact counted.placed request
  begun request member := by
    rw [later]
    exact Nat.le_succ_of_le (counted.begun request (same ▸ member))

theorem Counted.asked (counted : Counted s) : Counted s.request where
  numbered := by
    simp only [Backend.request, List.map_append, List.map_cons, List.map_nil, counted.numbered, List.length_append,
      List.length_cons, List.length_nil, List.range_succ]
  placed request := by
    have before := counted.placed request
    simp only [tally] at before
    simp only [tally, Backend.request, List.filterMap_append, List.count_append, ← before]
    simp only [List.filterMap_cons, Post.request, List.filterMap_nil]
    omega
  begun request member := by
    obtain older | rfl := mem_snoc member
    · exact counted.begun request older
    · exact le_rfl

theorem Counted.step (counted : Counted s) (moves : Moves s event t) : Counted t := by
  have inner (inside : event.ofInterface = true) : t.requests = s.requests ∧ t.generation = s.generation :=
    ⟨(beside_step moves inside).requests, (beside_step moves inside).generation⟩
  cases moves with
  | connected => exact counted.later (fun _ => rfl) rfl rfl
  | parted | posts => exact counted.goes (fun _ => rfl) ⟨rfl, rfl⟩
  | disconnected =>
    exact counted.later (fun _ => tally_failPending
      (s := { s.resetProtocol with generation := s.generation + 1, connected := false }) _) rfl rfl
  | answer | push =>
    exact counted.goes (fun _ => Receives.of_whenMessage.tally) Receives.of_whenMessage.requests
  | fails => exact counted.goes (fun _ => tally_fail _) (requests_fail _)
  | @work refused post rest _ posted works =>
    refine counted.goes (fun request => ?_) works.requests
    rw [works.tally]
    simp only [tally, posted, List.filterMap_cons]
    cases post.request with
    | none => simp only [Option.toList, List.count_nil]; omega
    | some other => simp only [Option.toList, ← List.singleton_append (l := List.filterMap _ _), List.count_append]; omega
  | request => exact counted.asked
  | asks plain => exact counted.goes (fun _ => tally_ask plain) ⟨rfl, rfl⟩
  | call => exact counted.goes (fun _ => tally_call _) (inner rfl)
  | resume there resumes =>
    refine counted.goes (fun request => ?_) (inner rfl)
    rw [resumes.tally]
    have same := ((List.perm_cons_erase there).map Resumption.request).count_eq request
    rw [List.map_cons, ← List.singleton_append, List.count_append] at same
    simp only [tally]
    omega
  | @apply operation rest free operations =>
    have popped : ∀ request, tally { s with operations := rest } request + operation.consumer.toList.count request =
        tally s request := by
      intro request
      simp only [tally, operations, List.filterMap_cons]
      cases operation.consumer with
      | none => simp only [Option.toList, List.count_nil]; omega
      | some other => simp only [Option.toList, ← List.singleton_append (l := List.filterMap _ _), List.count_append]; omega
    refine counted.goes (fun request => ?_) (inner rfl)
    unfold Backend.apply
    split
    · exact (tally_completed operation _).trans (popped request)
    · rw [← popped]
      simp only [tally, free, Option.bind_none, Option.bind_some, Option.toList, List.count_nil]
      omega
  | applied applying =>
    refine counted.goes (fun request => ?_) (inner rfl)
    rw [tally_completed]
    simp only [tally, applying, Option.bind_none, Option.bind_some, Option.toList, List.count_nil]
    omega

/-- The session is ready only if the peer has said hello, and waits for the answer to a hello that was sent. -/
structure Greets (s : Backend) : Prop where
  ready : s.protocol.ready = true → s.greeted = true
  serial : s.protocol.serial ≠ 0 → s.protocol.serial ∈ s.hellos

theorem Greets.of_reset (same : t.protocol = .reset) : Greets t where
  ready ready := by
    rw [same] at ready
    exact nomatch ready
  serial serial := by
    rw [same] at serial
    exact absurd rfl serial

theorem Greets.goes (greets : Greets s) (protocol : t.protocol = s.protocol) (hellos : t.hellos = s.hellos)
    (greeted : t.greeted = s.greeted) : Greets t where
  ready := by
    rw [protocol, greeted]
    exact greets.ready
  serial := by
    rw [protocol, hellos]
    exact greets.serial

theorem fail_protocol (message : String) : (s.fail message).protocol = .reset := by
  unfold fail
  dsimp only
  split
  · rfl
  split <;> rfl

/-- What the session accepts: all from when it is ready, and the answer to its hello before. -/
theorem accept_cases {session next : Session} (accepted : session.accept message = .ok next) :
    (session.ready = true ∧ next = session) ∨
      (session.ready = false ∧ session.serial ≠ 0 ∧ next = { session with ready := true } ∧
        message.hasTestRsp = true ∧ greets [session.serial] message = true) := by
  unfold Session.accept at accepted
  split at accepted
  · cases accepted
  rename_i current
  split at accepted
  · cases accepted
    exact .inl ⟨‹_›, rfl⟩
  rename_i waiting
  split at accepted
  · cases accepted
  rename_i reply
  simp only [not_or, ne_eq, not_not, Bool.not_eq_false] at current reply
  split at accepted
  · rename_i batch entities
    split at accepted <;> cases accepted
    rename_i fits
    simp only [not_or, ne_eq, not_not] at fits
    refine .inr ⟨Bool.not_eq_true _ ▸ waiting, reply.1, rfl, reply.2.2.1, ?_⟩
    simp [greets, current, reply, entities, fits]
  · cases accepted

/-- A message that is accepted comes from a peer that has said hello. -/
theorem Greets.hails {next : Session} (held : Greets s) (accepted : s.protocol.accept message = .ok next) :
    (s.greeted || greets s.hellos message) = true := by
  obtain ⟨ready, -⟩ | ⟨-, serial, -, -, reply⟩ := accept_cases accepted
  · simp [held.ready ready]
  · have sent := held.serial serial
    simp only [greets, List.mem_singleton, Bool.decide_and, Bool.and_eq_true, decide_eq_true_eq] at reply ⊢
    rw [Bool.or_eq_true]
    refine .inr ?_
    simp only [Bool.and_eq_true, decide_eq_true_eq]
    exact ⟨reply.1, reply.2.1 ▸ sent, reply.2.2⟩

theorem Greets.accepted {next : Session} (held : Greets s) (accepted : s.protocol.accept message = .ok next)
    (protocol : t.protocol = next) (hellos : t.hellos = s.hellos)
    (greeted : t.greeted = (s.greeted || greets s.hellos message)) : Greets t where
  ready _ := greeted.trans (held.hails accepted)
  serial := by
    rw [protocol, hellos]
    obtain ⟨-, rfl⟩ | ⟨-, -, rfl, -⟩ := accept_cases accepted <;> exact held.serial

theorem Greets.receive {answers : Option Nat} (held : Greets s) : Greets (s.receive message answers) := by
  have receives : Receives { s with greeted := s.greeted || greets s.hellos message }
      { message := message, generation := s.generation
        greeted := s.greeted || greets s.hellos message, answers := answers } _ := .of_whenMessage
  unfold Backend.receive
  generalize whenMessage _ _ = t at receives ⊢
  cases receives with
  | fails => exact .of_reset (fail_protocol _)
  | posts accepted | completes accepted | drops accepted => exact held.accepted accepted rfl rfl rfl

theorem Greets.work {post : Post} (held : Greets s) (works : Works s post t) : Greets t := by
  cases works with
  | settles | sends | cancels => exact held.goes rfl rfl rfl
  | fails => exact .of_reset (fail_protocol _)
  | begins hello =>
    obtain ⟨rfl, rfl⟩ | ⟨rfl, rfl⟩ := hello
    · exact held.goes rfl rfl rfl
    · exact ⟨nofun, fun _ => List.mem_append_right _ (List.mem_singleton_self _)⟩
  | shutdown => exact .of_reset rfl
  | plain _ kept =>
    obtain rfl | rfl := kept
    · exact held.goes rfl rfl rfl
    · exact .of_reset rfl

theorem Greets.beside (held : Greets s) (beside : Beside s t) : Greets t :=
  held.goes beside.protocol beside.hellos beside.greeted

theorem Greets.step (held : Greets s) (moves : Moves s event t) : Greets t := by
  have beside := beside_step moves
  cases moves with
  | connected | disconnected => exact .of_reset rfl
  | parted | posts | request | asks => exact held.goes rfl rfl rfl
  | @answer message entry =>
    have owed : Greets { s with owed := s.owed.erase entry } := held.goes rfl rfl rfl
    exact owed.receive
  | push => exact held.receive
  | fails => exact .of_reset (fail_protocol _)
  | @work refused post rest _ _ works =>
    have rest : Greets { s with posted := rest } := held.goes rfl rfl rfl
    exact rest.work works
  | call | resume | apply | applied => exact held.beside (beside rfl)

/-! ## Where the messages are -/

/-- How far a message has come: it waits for the test of its generation, is past it, its entities were applied, it has
reached the store or a handler in a generation, or its request has returned with it. -/
inductive Stage where
  | arrived
  | inHand
  | back
  | reached (generation : Nat)
  | returned

/-- What holds of the messages at each stage, with the requests that they are for. -/
structure Holds (P : Stage → Option Request → Received → Prop) (s : Backend) : Prop where
  messages : ∀ received, .message received ∈ s.calls → P .arrived none received
  handles : ∀ received, .handle received ∈ s.calls → P .inHand none received
  answers : ∀ request received, .answered request (.ok received) ∈ s.resumptions → P .arrived (some request) received
  applied : ∀ request received, .applied request received ∈ s.resumptions → P .back (some request) received
  operations : ∀ operation ∈ s.operations, P .inHand operation.consumer operation.received
  applying : ∀ operation, s.applying = some operation → P .inHand operation.consumer operation.received
  stored : ∀ entry ∈ s.stored, P (.reached entry.2) none entry.1
  handled : ∀ entry ∈ s.handled, P (.reached entry.2) none entry.1
  finished : ∀ entry ∈ s.finished, ∀ received, entry.2 = .ok received → P .returned (some entry.1) received

/-- How the messages come from one stage to the next. -/
structure Rules (P : Stage → Option Request → Received → Prop) (generation : Nat) : Prop where
  test : ∀ received, received.generation = generation → P .arrived none received → P .inHand none received
  testOwn : ∀ request received, request.generation = generation → P .arrived (some request) received →
    P .inHand (some request) received ∧ P .returned (some request) received
  reach : ∀ consumer received, P .inHand consumer received → P (.reached generation) none received
  apply : ∀ request received, P .inHand (some request) received → P .back (some request) received
  back : ∀ request received, request.generation = generation → P .back (some request) received →
    P .returned (some request) received

variable {P Q : Stage → Option Request → Received → Prop}

theorem Holds.initial : Holds P {} where
  messages _ member := nomatch member
  handles _ member := nomatch member
  answers _ _ member := nomatch member
  applied _ _ member := nomatch member
  operations _ member := nomatch member
  applying _ same := nomatch same
  stored _ member := nomatch member
  handled _ member := nomatch member
  finished _ member := nomatch member

theorem Holds.resumes {more : List Resumption} (holds : Holds P s)
    (answers : ∀ request received, .answered request (.ok received) ∈ more → P .arrived (some request) received)
    (applied : ∀ request received, .applied request received ∈ more → P .back (some request) received) :
    Holds P { s with resumptions := s.resumptions ++ more } :=
  { holds with
    answers := fun request received member =>
      (List.mem_append.mp member).elim (holds.answers request received) (answers request received)
    applied := fun request received member =>
      (List.mem_append.mp member).elim (holds.applied request received) (applied request received) }

theorem Holds.settles (holds : Holds P s) (request : Request) (message : String) :
    Holds P (s.settle request (.err message)) :=
  holds.resumes (fun _ _ member => nomatch List.mem_singleton.mp member)
    fun _ _ member => nomatch List.mem_singleton.mp member

theorem Holds.failPending (holds : Holds P s) (message : String) : Holds P (s.failPending message) := by
  have next : Holds P { s with
      resumptions := s.resumptions ++ (Hash.values s.pending).map fun request => .answered request (.err message) } := by
    refine holds.resumes (fun request received member => ?_) fun request received member => ?_
    · obtain ⟨_, -, same⟩ := List.mem_map.mp member
      cases same
    · obtain ⟨_, -, same⟩ := List.mem_map.mp member
      cases same
  exact { next with }

theorem Holds.posts {call : Call} (holds : Holds P s) (message : ∀ received, call = .message received → P .arrived none received)
    (handle : ∀ received, call = .handle received → P .inHand none received) : Holds P (s.post call) :=
  { holds with
    messages := fun received member => (List.mem_append.mp member).elim (holds.messages received)
      fun here => message received (List.mem_singleton.mp here).symm
    handles := fun received member => (List.mem_append.mp member).elim (holds.handles received)
      fun here => handle received (List.mem_singleton.mp here).symm }

theorem Holds.delivers (holds : Holds P s) (inHand : P .inHand consumer received) :
    Holds P (s.deliver received consumer) :=
  { holds with
    operations := fun operation member => by
      obtain before | rfl := mem_snoc member
      · exact holds.operations operation before
      · exact inHand }

variable {result : Result}

section

variable (holds : Holds P s) (own : ∀ received, result = .ok received → P .returned (some request) received)
include holds own

theorem Holds.returns : Holds P { s with finished := s.finished ++ [(request, result)] } :=
  { holds with
    finished := fun entry member received same => by
      obtain before | rfl := mem_snoc member
      · exact holds.finished entry before received same
      · exact own received same }

theorem Holds.finishes : Holds P (s.finish request result) := by
  have next := holds.returns own
  exact { next with }

end

theorem Holds.fail (holds : Holds P s) (message : String) : Holds P (s.fail message) := by
  have next : Holds P (({ s.resetProtocol with connected := false } : Backend).failPending message) :=
    Holds.failPending (s := { s.resetProtocol with connected := false }) { holds with } message
  unfold Backend.fail
  dsimp only
  split
  · exact { next with }
  split
  · exact { next with }
  · exact .posts (s := { ({ s.resetProtocol with connected := false } : Backend).failPending message with
      link := .idle, failed := true }) { next with } (fun _ => nofun) fun _ => nofun

/-- A message comes in: it is accepted, and is for the interface or for the request of its id. -/
theorem Holds.whenMessage (holds : Holds P s)
    (arrives : ∀ next, s.protocol.accept received.message = .ok next → P .arrived none received)
    (own : ∀ next request, s.protocol.accept received.message = .ok next → received.message.id ≠ 0 →
      received.message.hasTestRsp = false → s.pending.lookup received.message.id = some request →
      P .arrived (some request) received) : Holds P (s.whenMessage received) := by
  have receives : Receives s received _ := .of_whenMessage
  generalize s.whenMessage received = t at receives ⊢
  cases receives with
  | fails => exact holds.fail _
  | @posts next _ accepted =>
    have posted : Holds P (s.post (.message received)) := by
      refine holds.posts (fun late same => ?_) fun _ => nofun
      cases same
      exact arrives next accepted
    exact { posted with }
  | @completes next _ request accepted id direct found =>
    have settled : Holds P { s with resumptions := s.resumptions ++ [.answered request (.ok received)] } := by
      refine holds.resumes (fun other late member => ?_) fun _ _ member => nomatch List.mem_singleton.mp member
      cases List.mem_singleton.mp member
      exact own next request accepted id direct found
    exact { settled with }
  | drops => exact { holds with }

theorem Holds.work {post : Post} (holds : Holds P s) (works : Works s post t) : Holds P t := by
  cases works with
  | settles => exact holds.settles _ _
  | sends | begins | plain => exact { holds with }
  | fails message => exact holds.fail message
  | @cancels _ request =>
    have settled := holds.settles request "request canceled"
    exact { settled with }
  | shutdown =>
    have next := Holds.failPending (P := P) (s := { s.resetProtocol with shuttingDown := true, connected := false })
      { holds with } "backend shutting down"
    exact { next with }

/-! ## The interface -/

theorem Holds.call {call : Call} {rest : List Call} (holds : Holds P s) (rules : Rules P s.generation)
    (calls : s.calls = call :: rest) : Holds P (({ s with calls := rest } : Backend).call call) := by
  have left : Holds P { s with calls := rest } :=
    { holds with
      messages := fun received member => holds.messages received (calls ▸ List.mem_cons_of_mem call member)
      handles := fun received member => holds.handles received (calls ▸ List.mem_cons_of_mem call member) }
  have first : call ∈ s.calls := calls ▸ (.head _)
  cases call with
  | started | connected | error => exact { left with }
  | disconnected => exact left
  | handle received =>
    exact { left with
      handled := fun entry member => by
        obtain before | rfl := mem_snoc member
        · exact holds.handled entry before
        · exact rules.reach none received (holds.handles received first) }
  | message received =>
    have arrived := holds.messages received first
    simp only [Backend.call, onMessage]
    split
    · exact left
    rename_i now
    have inHand := rules.test received (not_not.mp now) arrived
    split
    · exact left.delivers inHand
    split
    · exact { left with }
    · refine left.posts (fun _ => nofun) fun late same => ?_
      cases same
      exact inHand

theorem Holds.resume (holds : Holds P s) (rules : Rules P s.generation)
    (there : resumption ∈ s.resumptions)
    (resumes : Resumes { s with resumptions := s.resumptions.erase resumption } resumption t) : Holds P t := by
  have left : Holds P { s with resumptions := s.resumptions.erase resumption } :=
    { holds with
      answers := fun request received member => holds.answers request received (List.mem_of_mem_erase member)
      applied := fun request received member => holds.applied request received (List.mem_of_mem_erase member) }
  cases resumes with
  | gone => exact left.returns fun _ => nofun
  | fails => exact left.finishes fun _ => nofun
  | @delivers request received now =>
    exact left.delivers (rules.testOwn request received now (holds.answers request received there)).1
  | @answers request received now =>
    refine left.finishes fun late same => ?_
    cases same
    exact (rules.testOwn request received now (holds.answers request received there)).2
  | @applied request received now =>
    refine left.finishes fun late same => ?_
    cases same
    exact rules.back request received now (holds.applied request received there)

theorem Holds.completes (holds : Holds P s) (rules : Rules P s.generation)
    (inHand : P .inHand operation.consumer operation.received) (error : Option String) :
    Holds P (s.completed operation error) := by
  unfold Backend.completed
  cases consumer : operation.consumer with
  | none =>
    cases error with
    | none =>
      refine holds.posts (fun _ => nofun) fun late same => ?_
      cases same
      exact consumer ▸ inHand
    | some message => exact { holds with }
  | some request =>
    cases error with
    | none =>
      refine holds.resumes (fun _ _ member => nomatch List.mem_singleton.mp member) fun other late member => ?_
      cases List.mem_singleton.mp member
      exact rules.apply request _ (consumer ▸ inHand)
    | some message => exact holds.settles request message

theorem Holds.applies {rest : List Operation} (holds : Holds P s) (rules : Rules P s.generation)
    (operations : s.operations = operation :: rest) :
    Holds P (({ s with operations := rest } : Backend).apply operation) := by
  have left : Holds P { s with operations := rest } :=
    { holds with
      operations := fun other member => holds.operations other (operations ▸ List.mem_cons_of_mem operation member) }
  have inHand := holds.operations operation (operations ▸ List.mem_cons_self)
  unfold Backend.apply
  split
  · exact left.completes rules inHand _
  · exact { left with
      applying := fun other same => by
        cases same
        exact inHand
      stored := fun entry member => by
        obtain before | rfl := mem_snoc member
        · exact holds.stored entry before
        · exact rules.reach operation.consumer operation.received inHand }

/-- A message as it comes in. -/
def fresh (s : Backend) (message : Message) (answers : Option Nat) : Received :=
  { message := message, generation := s.generation, greeted := s.greeted || greets s.hellos message, answers := answers }

/-- What a message that comes in answers: something that is owed, or nothing, and then it has no id unless it comes
before the session is ready. -/
def Arrives (s : Backend) (message : Message) (answers : Option Nat) : Prop :=
  (message.id, answers) ∈ s.owed ∨ answers = none ∧ (s.protocol.ready = false ∨ message.id = 0)

theorem Holds.step (holds : Holds P s) (rules : Rules P s.generation) (moves : Moves s event t)
    (arrives : ∀ message answers next, s.protocol.accept message = .ok next →
      P .arrived none (fresh s message answers))
    (own : ∀ message answers next request, Arrives s message answers → s.protocol.accept message = .ok next →
      message.id ≠ 0 → message.hasTestRsp = false → s.pending.lookup message.id = some request →
      P .arrived (some request) (fresh s message answers)) : Holds P t := by
  cases moves with
  | connected =>
    have posted : Holds P (s.post .connected) := holds.posts (fun _ => nofun) fun _ => nofun
    exact { posted with }
  | parted => exact { holds with }
  | disconnected =>
    have posted : Holds P ((s.failPending "backend disconnected").post .disconnected) :=
      (holds.failPending _).posts (fun _ => nofun) fun _ => nofun
    exact { posted with }
  | @answer message entry owed same =>
    have arrived : Arrives s message entry.2 := .inl (same ▸ owed)
    exact .whenMessage (s := { s with
      owed := s.owed.erase entry
      greeted := s.greeted || greets s.hellos message }) { holds with }
      (fun next accepted => arrives message entry.2 next accepted)
      fun next request accepted id direct found => own message entry.2 next request arrived accepted id direct found
  | @push message allowed =>
    exact .whenMessage (s := { s with greeted := s.greeted || greets s.hellos message }) { holds with }
      (fun next accepted => arrives message none next accepted)
      fun next request accepted id direct found =>
        own message none next request (.inr ⟨rfl, allowed⟩) accepted id direct found
  | fails _ running message => exact .fail (s := { s with running := running }) { holds with } message
  | @posts _ call plain =>
    refine holds.posts ?_ ?_
    · rintro received rfl
      obtain same | ⟨_, same⟩ := plain <;> cases same
    · rintro received rfl
      obtain same | ⟨_, same⟩ := plain <;> cases same
  | @work _ _ rest _ _ works => exact .work (s := { s with posted := rest }) { holds with } works
  | request | asks => exact { holds with }
  | call calls => exact holds.call rules calls
  | resume there resumes => exact holds.resume rules there resumes
  | apply free operations => exact holds.applies rules operations
  | @applied error operation applying =>
    have free : Holds P { s with applying := none } := { holds with applying := fun _ => nofun }
    exact free.completes rules (holds.applying operation applying) error

/-- Who has a pending request under the id of a message that is owed an answer is owed it. -/
def Owes (s : Backend) : Prop :=
  ∀ entry ∈ s.owed, ∀ request, s.pending.lookup entry.1 = some request → entry.2 = some request.number

theorem Owes.shrinks (owes : Owes s) (owed : ∀ entry ∈ t.owed, entry ∈ s.owed)
    (pending : ∀ id request, t.pending.lookup id = some request → s.pending.lookup id = some request) : Owes t :=
  fun entry member request found => owes entry (owed entry member) request (pending entry.1 request found)

theorem fail_pending (message : String) : (s.fail message).pending = ∅ := by
  unfold Backend.fail
  dsimp only
  split
  · rfl
  split <;> rfl

theorem Owes.of_drained (drained : t.pending = ∅) : Owes t := by
  intro entry _ request found
  rw [drained] at found
  exact nomatch found

theorem lookup_of_erase {pending : Hash Int Request} {other : Int}
    (found : (pending.erase id).lookup other = some request) : pending.lookup other = some request := by
  obtain ⟨-, found⟩ := Hash.lookup_erase_some found
  exact found

theorem Owes.receives (owes : Owes s) (receives : Receives s received t) : Owes t := by
  cases receives with
  | fails => exact .of_drained (fail_pending _)
  | completes => exact owes.shrinks (fun _ => id) fun _ _ found => lookup_of_erase found
  | posts | drops => exact owes

theorem Owes.work {refused : Option String} {post : Post} {rest : List Post} (owes : Owes s)
    (posted : s.posted = post :: rest) (spares : Spares s (.work refused))
    (works : Works { s with posted := rest } post t) : Owes t := by
  have unused : Unused s post := spares post (by rw [posted]; rfl)
  cases works with
  | settles => exact owes
  | sends fresh =>
    intro entry member other found
    obtain before | rfl := mem_snoc member
    · rw [Hash.lookup_insert, if_neg (unused fresh entry before)] at found
      exact owes entry before other found
    · cases (AList.lookup_insert s.pending).symm.trans found
      rfl
  | fails => exact .of_drained (fail_pending _)
  | begins _ sent =>
    intro entry member other found
    obtain before | rfl := sent entry member
    · exact owes entry before other found
    · cases unused.1.symm.trans found
  | cancels => exact owes.shrinks (fun _ => id) fun _ _ found => lookup_of_erase found
  | shutdown => exact .of_drained rfl
  | plain => exact owes

theorem Owes.step (owes : Owes s) (spares : Spares s event) (moves : Moves s event t) : Owes t := by
  have beside := beside_step moves
  cases moves with
  | connected => exact fun _ member => nomatch member
  | disconnected => exact .of_drained rfl
  | parted | posts | request | asks => exact owes
  | @answer message entry =>
    have fewer : Owes { s with
        owed := s.owed.erase entry
        greeted := s.greeted || greets s.hellos message } :=
      owes.shrinks (fun _ member => List.mem_of_mem_erase member) fun _ _ => id
    exact fewer.receives .of_whenMessage
  | @push message =>
    have same : Owes { s with greeted := s.greeted || greets s.hellos message } := owes
    exact same.receives .of_whenMessage
  | fails => exact .of_drained (fail_pending _)
  | work posted works => exact owes.work posted spares works
  | call | resume | apply | applied =>
    exact owes.shrinks (fun _ member => (beside rfl).owed ▸ member) fun _ _ found => (beside rfl).pending ▸ found

/-! ## Runs -/

/-- What is known of a message that comes to the interface: the generation that it and its request are of, and which
request it answers. -/
structure Tracked (generation : Nat) (stage : Stage) (consumer : Option Request) (received : Received) : Prop where
  bound : received.generation ≤ generation
  own : ∀ request, consumer = some request →
    request.generation ≤ received.generation ∧ received.answers = some request.number
  inHand : stage = .inHand → received.generation = generation
  reached : ∀ past, stage = .reached past → received.generation = past

theorem tracked_rules (generation : Nat) : Rules (Tracked generation) generation where
  test _ now tracked := ⟨tracked.bound, tracked.own, fun _ => now, fun _ => nofun⟩
  testOwn request received now tracked := by
    have late := (tracked.own request rfl).1
    have bound := tracked.bound
    exact ⟨⟨bound, tracked.own, fun _ => by omega, fun _ => nofun⟩, ⟨bound, tracked.own, nofun, fun _ => nofun⟩⟩
  reach _ _ tracked := by
    refine ⟨tracked.bound, fun _ => nofun, nofun, ?_⟩
    rintro _ ⟨⟩
    exact tracked.inHand rfl
  apply _ _ tracked := ⟨tracked.bound, tracked.own, nofun, fun _ => nofun⟩
  back _ _ _ tracked := ⟨tracked.bound, tracked.own, nofun, fun _ => nofun⟩

theorem Tracked.later {stage : Stage}
    (tracked : Tracked generation stage consumer received) (free : stage ≠ .inHand) :
    Tracked (generation + 1) stage consumer received :=
  ⟨Nat.le_succ_of_le tracked.bound, tracked.own, fun here => absurd here free, tracked.reached⟩

theorem Holds.later (holds : Holds (Tracked generation) s) (free : s.inHand = []) : Holds (Tracked (generation + 1)) s := by
  have none : ∀ received, received ∉ s.inHand := fun received member => nomatch free ▸ member
  exact {
    messages := fun received member => (holds.messages received member).later nofun
    handles := fun received member => by
      have there : received ∈ s.calls.filterMap Call.handed := List.mem_filterMap.mpr ⟨.handle received, member, rfl⟩
      exact absurd (List.mem_append_left _ (List.mem_append_left _ there)) (none received)
    answers := fun request received member => (holds.answers request received member).later nofun
    applied := fun request received member => (holds.applied request received member).later nofun
    operations := fun operation member => absurd (List.mem_append_left _ (List.mem_append_right _
      (List.mem_map_of_mem member))) (none operation.received)
    applying := fun operation same => absurd (List.mem_append_right _ (by simp [same])) (none operation.received)
    stored := fun entry member => (holds.stored entry member).later nofun
    handled := fun entry member => (holds.handled entry member).later nofun
    finished := fun entry member received same => (holds.finished entry member received same).later nofun }

theorem generation_moves (moves : Moves s event t) : t.generation = s.generation ∨
    (event = .connected ∨ event = .disconnected) ∧ t.generation = s.generation + 1 ∧ t.inHand = s.inHand := by
  have beside := beside_step moves
  cases moves with
  | connected =>
    refine .inr ⟨.inl rfl, rfl, ?_⟩
    simp [inHand, whenConnected, resetProtocol, Backend.post, Call.handed]
  | disconnected =>
    refine .inr ⟨.inr rfl, rfl, ?_⟩
    simp [inHand, whenDisconnected, failPending, resetProtocol, Backend.post, Call.handed]
  | parted | posts | request | asks => exact .inl rfl
  | answer | push => exact .inl Receives.of_whenMessage.requests.2
  | fails => exact .inl (requests_fail _).2
  | work _ works => exact .inl works.requests.2
  | call | resume | apply | applied => exact .inl (beside rfl).generation

theorem Counted.pending (counted : Counted s) (found : s.pending.lookup id = some request) :
    request ∈ s.requests := by
  have placed := counted.placed request
  have listed := (Hash.values_perm_erase found).count_eq request
  rw [List.count_cons_self] at listed
  refine List.count_pos_iff.mp ?_
  rw [← placed, tally]
  omega

/-- What holds of every state that is reached. -/
structure Sound (s : Backend) : Prop where
  counted : Counted s
  greets : Greets s
  greeted : Holds (fun _ _ received => received.greeted = true) s

theorem Sound.step (sound : Sound s) (moves : Moves s event t) : Sound t where
  counted := sound.counted.step moves
  greets := sound.greets.step moves
  greeted := sound.greeted.step
    ⟨fun _ _ => id, fun _ _ _ held => ⟨held, held⟩, fun _ _ => id, fun _ _ => id,
      fun _ _ _ => id⟩ moves
    (fun _ _ _ accepted => sound.greets.hails accepted) fun _ _ _ _ _ accepted _ _ _ => sound.greets.hails accepted

/-- What holds besides while the guard is obeyed. -/
structure Spared (s : Backend) : Prop extends Sound s where
  tracked : Holds (Tracked s.generation) s
  owes : Owes s

theorem Spared.own {message : Message} {answers : Option Nat} {next : Session} (spared : Spared s)
    (arrives : Arrives s message answers) (accepted : s.protocol.accept message = .ok next) (id : message.id ≠ 0)
    (direct : message.hasTestRsp = false) (found : s.pending.lookup message.id = some request) :
    Tracked s.generation .arrived (some request) (fresh s message answers) := by
  refine ⟨le_rfl, ?_, nofun, fun _ => nofun⟩
  rintro _ ⟨⟩
  refine ⟨spared.counted.begun request (spared.counted.pending found), ?_⟩
  obtain owed | ⟨-, waiting | push⟩ := arrives
  · exact spared.owes _ owed request found
  · obtain ⟨ready, -⟩ | ⟨-, -, -, reply, -⟩ := accept_cases accepted
    · exact nomatch ready.symm.trans waiting
    · exact nomatch reply.symm.trans direct
  · exact absurd push id

theorem Spared.step (spared : Spared s) (spares : Spares s event) (moves : Moves s event t) : Spared t where
  toSound := spared.toSound.step moves
  tracked := by
    have holds := spared.tracked.step (tracked_rules s.generation) moves
      (fun _ _ _ _ => ⟨le_rfl, fun _ => nofun, nofun, fun _ => nofun⟩)
      fun _ _ _ _ arrives accepted id direct found => spared.own arrives accepted id direct found
    obtain same | ⟨which, later, kept⟩ := generation_moves moves
    · rw [same]
      exact holds
    · rw [later]
      refine holds.later (kept.trans ?_)
      obtain rfl | rfl := which <;> exact spares
  owes := spared.owes.step spares moves

theorem drains {event : Event} (failing : event.failing) (stepped : Step s event t) : t.pending = ∅ := by
  unfold Step at stepped
  cases event with
  | disconnected =>
    simp only [perform] at stepped
    split at stepped <;> cases stepped
    rfl
  | garbage | exited | processError | timeout =>
    simp only [perform] at stepped
    split at stepped <;> cases stepped
    exact fail_pending _
  | error =>
    cases stepped
    exact fail_pending _
  | connected | parted | message | port | work | request | abandon | start | shutdown | call | resume | apply | applied =>
    exact failing.elim

theorem Result.eq_ok (same : result.received = some received) : result = .ok received := by
  cases result with
  | ok other =>
    cases same
    rfl
  | err => cases same

theorem Sound.carried (sound : Sound s) : Carried s where
  stored entry member := sound.greeted.stored entry member
  handled entry member := sound.greeted.handled entry member
  answered entry member received same := sound.greeted.finished entry member received (Result.eq_ok same)
  numbered := sound.counted.numbered
  once := by
    rw [List.perm_iff_count]
    intro request
    rw [← sound.counted.placed request]
    simp only [underWay, tally, List.count_append]
  drained _ _ failing stepped := drains failing stepped

theorem Sound.initial : Sound {} := ⟨.initial, .of_reset rfl, .initial⟩

/-- In every run what reaches the store, the handlers and the requests came after the peer had said hello, and each
request is under way or has returned once; and in a run in which the connection is neither made nor lost while the
interface has a message in hand, and no id is used again while a message with it waits for its answer, what reaches the
store and the handlers is of the generation of that moment, and a request returns with its own answer or a failure. -/
theorem requests_return_once (reached : Reach (· = {}) (fun _ _ => True) Step s) :
    Carried s ∧ (Reach (· = {}) Spares Step s → Current s ∧ Own s) := by
  have sound : Sound s :=
    reached.invariant (fun _ initial => initial ▸ .initial) fun _ _ _ sound _ stepped => sound.step (.of_step stepped)
  refine ⟨sound.carried, fun guarded => ?_⟩
  have spared : Spared s :=
    guarded.invariant (fun _ initial => initial ▸ ⟨.initial, .initial, fun _ member => nomatch member⟩)
      fun _ _ _ spared spares stepped => spared.step spares (.of_step stepped)
  refine ⟨⟨fun entry member => (spared.tracked.stored entry member).reached _ rfl, fun entry member =>
    (spared.tracked.handled entry member).reached _ rfl⟩, fun entry member received same => ?_⟩
  exact ((spared.tracked.finished entry member received (Result.eq_ok same)).own entry.1 rfl).2

/-- The answer to a hello. -/
def hello : Message :=
  { id := 1, protocolVersion := 2, isTestRsp := true, hasTestRsp := true, entities := some ⟨2, "a"⟩, rsp := none }

/-- A status that is sent without a request. -/
def status : Message :=
  { id := 0, protocolVersion := 2, isTestRsp := false, hasTestRsp := false, entities := none, rsp := none }

/-- An answer with entities. -/
def songs : Message :=
  { id := 2, protocolVersion := 2, isTestRsp := false, hasTestRsp := false, entities := some ⟨2, "a"⟩, rsp := none }

/-- A message of the first generation. -/
def early (message : Message) (answers : Option Nat) : Received :=
  { message := message, generation := 1, greeted := true, answers := answers }

/-- The backend is started and connected, and says hello. -/
def greeting : List Event :=
  [.start, .work none, .port true, .call, .work none, .connected, .call, .work none, .message hello (some (1, none))]

/-- The hello is applied, a request is answered, and another one fails with the connection. -/
def visit : List Event :=
  greeting ++
    [.call, .apply, .applied none, .call, .request, .work none, .message songs (some (2, some 0)),
      .resume (.answered ⟨0, 2, 1⟩ (.ok (early songs (some 0)))), .apply, .applied none,
      .resume (.applied ⟨0, 2, 1⟩ (early songs (some 0))), .work none, .request, .work none, .parted, .disconnected,
      .call, .resume (.answered ⟨1, 3, 1⟩ (.err "backend disconnected"))]

theorem requests_return_once_in_a_visit : ∃ s : Backend,
    s.finished = [(⟨0, 2, 1⟩, .ok (early songs (some 0))), (⟨1, 3, 1⟩, .err "backend disconnected")] ∧
      s.stored = [(early hello none, 1), (early songs (some 0), 1)] ∧ Carried s ∧ Current s ∧ Own s := by
  have ran : (play Spares perform {} visit).any (fun s =>
      s.finished == [(⟨0, 2, 1⟩, .ok (early songs (some 0))), (⟨1, 3, 1⟩, .err "backend disconnected")] &&
        s.stored == [(early hello none, 1), (early songs (some 0), 1)]) = true := by decide +kernel
  obtain ⟨s, played, shown⟩ := (Option.any_eq_true ..).mp ran
  rw [Bool.and_eq_true, beq_iff_eq, beq_iff_eq] at shown
  have spared : Reach (· = {}) Spares Step s := Reach.play visit (.start rfl) played
  obtain ⟨carried, guarded⟩ := requests_return_once (spared.weaken fun _ _ _ => trivial)
  exact ⟨s, shown.1, shown.2, carried, guarded spared⟩

/-! ## An id that comes back -/

/-- An answer that refuses a request. -/
def refusal (id : Int) : Message :=
  { id := id, protocolVersion := 2, isTestRsp := false, hasTestRsp := false, entities := none, rsp := some false }

/-- The first request has been cancelled, is still owed its answer, and nothing else is under way. -/
structure Idle (s : Backend) : Prop where
  link : s.link = .open
  connected : s.connected = true
  up : s.shuttingDown = false
  ready : s.protocol.ready = true
  timer : s.timer = false
  greeted : s.greeted = true
  pending : s.pending = ∅
  posted : s.posted = []
  resumptions : s.resumptions = []
  owed : s.owed = [(2, some 0)]
  abandoned : s.abandoned = [0]
  begun : s.requests ≠ []

/-- The request that is sent next, and a refusal of it or of another one. -/
def asked (s : Backend) : Request := { number := s.requests.length, id := s.serial, generation := s.generation }

def refused (s : Backend) (answers : Nat) : Received :=
  { message := refusal s.serial, generation := s.generation, greeted := true, answers := some answers }

/-- The next request is sent. -/
def sent (s : Backend) : Backend :=
  { s.request with
    posted := []
    pending := s.pending.insert s.serial (asked s)
    owed := s.owed ++ [(s.serial, some s.requests.length)] }

/-- A message with its id has completed it. -/
def answered (s : Backend) (answers : Nat) : Backend :=
  { sent s with
    pending := ∅
    owed := (s.owed ++ [(s.serial, some s.requests.length)]).erase (s.serial, some answers)
    resumptions := [.answered (asked s) (.ok (refused s answers))] }

/-- It has returned, and its guard is dropped. -/
def answeredOnce (s : Backend) (answers : Nat) : Backend :=
  { answered s answers with resumptions := [], finished := s.finished ++ [(asked s, .ok (refused s answers))] }

theorem erase_insert_empty (id : Int) (request : Request) :
    ((∅ : Hash Int Request).insert id request).erase id = ∅ := by
  apply AList.ext
  simp [AList.insert, AList.erase, List.kinsert]

theorem Idle.sends (idle : Idle s) : Step s.request (.work none) (sent s) := by
  simp [Step, perform, Backend.request, Backend.work, Backend.send, sent, asked, idle.posted, idle.connected, idle.up,
    idle.ready, idle.pending, idle.link]

theorem Idle.accepts (idle : Idle s) : s.protocol.accept (refusal s.serial) = .ok s.protocol := by
  simp [Session.accept, refusal, version, idle.ready]

theorem Idle.answers {answers : Nat} (idle : Idle s) (positive : 1 ≤ s.serial)
    (owed : (s.serial, some answers) ∈ s.owed ++ [(s.serial, some s.requests.length)]) :
    Step (sent s) (.message (refusal s.serial) (some (s.serial, some answers))) (answered s answers) := by
  have id : s.serial ≠ 0 := by omega
  have may : (sent s).link = .open ∧ (s.serial, some answers) ∈ (sent s).owed ∧ (refusal s.serial).id = s.serial :=
    ⟨idle.link, owed, rfl⟩
  simp only [Step, perform]
  rw [if_pos may]
  have accepted : (sent s).protocol.accept (refusal s.serial) = .ok s.protocol := idle.accepts
  have direct : (refusal s.serial).id ≠ 0 ∧ (refusal s.serial).hasTestRsp = false := ⟨id, rfl⟩
  have found : (sent s).pending.lookup (refusal s.serial).id = some (asked s) := AList.lookup_insert _
  have gone : (sent s).pending.erase (refusal s.serial).id = ∅ := by
    simp only [sent, idle.pending]
    exact erase_insert_empty s.serial (asked s)
  simp only [Backend.receive, Backend.whenMessage, accepted, idle.ready, if_true, if_pos direct, complete, found, gone,
    settle]
  simp [answered, sent, Backend.request, refused, idle.resumptions, idle.greeted, idle.timer]

theorem Idle.returns (idle : Idle s) (answers : Nat) :
    Step (answered s answers) (.resume (.answered (asked s) (.ok (refused s answers))))
      { answeredOnce s answers with posted := [.cancel s.serial] } := by
  have many : s.requests.length ≠ 0 := by simpa using idle.begun
  simp [Step, perform, Backend.resume, answered, sent, Backend.request, answeredOnce, asked, refused, refusal, finish,
    idle.abandoned, many]

theorem Idle.cancels (answers : Nat) :
    Step { answeredOnce s answers with posted := [.cancel s.serial] } (.work none) (answeredOnce s answers) := by
  simp [Step, perform, Backend.work, cancel, answeredOnce, answered, sent]

theorem Idle.asks (idle : Idle s) (reached : Reach (· = {}) (fun _ _ => True) Step s) (positive : 1 ≤ s.serial)
    (answers : Nat) (owed : (s.serial, some answers) ∈ s.owed ++ [(s.serial, some s.requests.length)]) :
    Reach (· = {}) (fun _ _ => True) Step (answeredOnce s answers) := by
  have begins : Step s .request s.request := rfl
  have sending := (reached.next trivial begins).next trivial idle.sends
  exact ((sending.next trivial (idle.answers positive owed)).next trivial (idle.returns answers)).next trivial
    (Idle.cancels answers)

theorem Idle.again (idle : Idle s) : Idle (answeredOnce s s.requests.length) where
  link := idle.link
  connected := idle.connected
  up := idle.up
  ready := idle.ready
  timer := idle.timer
  greeted := idle.greeted
  pending := rfl
  posted := rfl
  resumptions := rfl
  owed := by
    have many : s.requests.length ≠ 0 := by simpa using idle.begun
    simp [answeredOnce, answered, idle.owed, Ne.symm many]
  abandoned := idle.abandoned
  begun := by simp [answeredOnce, answered, sent, Backend.request]

/-- Requests are sent and refused until the serial has some value. -/
theorem Idle.counts (idle : Idle s) (reached : Reach (· = {}) (fun _ _ => True) Step s) (positive : 1 ≤ s.serial)
    (count : Nat) (room : s.serial + count ≤ 2147483647) :
    ∃ t, Reach (· = {}) (fun _ _ => True) Step t ∧ Idle t ∧ t.serial = s.serial + count := by
  induction count generalizing s with
  | zero => exact ⟨s, reached, idle, by simp⟩
  | succ count ih =>
    have later : (answeredOnce s s.requests.length).serial = s.serial + 1 := if_neg (by omega)
    obtain ⟨t, reached, idle, serial⟩ := ih idle.again (idle.asks reached positive _ (by simp)) (by omega) (by omega)
    exact ⟨t, reached, idle, by omega⟩

/-- The serial comes round to the id of the request that was cancelled, and the next request returns with its answer. -/
theorem Idle.mismatches (idle : Idle s) (reached : Reach (· = {}) (fun _ _ => True) Step s) (serial : s.serial = 3) :
    ∃ t : Backend, Reach (· = {}) (fun _ _ => True) Step t ∧ ¬ Own t := by
  obtain ⟨last, reached, idle, top⟩ := idle.counts reached (by omega) 2147483644 (by omega)
  have round : (answeredOnce last last.requests.length).serial = 1 := if_pos (by omega)
  have first := idle.asks reached (by omega) last.requests.length (by simp)
  have second := idle.again.asks first (by omega) (answeredOnce last last.requests.length).requests.length (by simp)
  obtain ⟨s, reached, idle, serial⟩ : ∃ s, Reach (· = {}) (fun _ _ => True) Step s ∧ Idle s ∧ s.serial = 2 :=
    ⟨_, second, idle.again.again, (if_neg (by omega)).trans (by omega)⟩
  refine ⟨_, idle.asks reached (by omega) 0 (by simp [idle.owed, serial]), fun own => ?_⟩
  have same := own (asked s, .ok (refused s 0)) (List.mem_append_right _ (List.mem_singleton_self _)) (refused s 0) rfl
  have none : s.requests.length = 0 := (Option.some.inj same).symm
  exact idle.begun (List.length_eq_zero_iff.mp none)

/-- The first request is cancelled before it is answered. -/
def abandoned : List Event :=
  greeting ++ [.request, .work none, .abandon ⟨0, 2, 1⟩, .work none, .resume (.answered ⟨0, 2, 1⟩ (.err "request canceled"))]

/-- A status is past the test of its generation when the connection is lost. -/
def overtaken : List Event :=
  greeting ++ [.call, .apply, .applied none, .call, .message status none, .call, .disconnected, .call]

theorem answered_by_another : (∃ s : Backend, Reach (· = {}) (fun _ _ => True) Step s ∧
      s.handled = [(early hello none, 1), (early status none, 2)] ∧ ¬ Current s) ∧
    ∃ s : Backend, Reach (· = {}) (fun _ _ => True) Step s ∧ ¬ Own s := by
  constructor
  · have ran : (play (fun _ _ => True) perform {} overtaken).any (fun s =>
        s.handled == [(early hello none, 1), (early status none, 2)]) = true := by decide +kernel
    obtain ⟨s, played, shown⟩ := (Option.any_eq_true ..).mp ran
    rw [beq_iff_eq] at shown
    have reached : Reach (· = {}) (fun _ _ => True) Step s := Reach.play overtaken (.start rfl) played
    refine ⟨s, reached, shown, fun current => ?_⟩
    have same : 1 = 2 := current.2 (early status none, 2) (by simp [shown])
    cases same
  · have ran : (play (fun _ _ => True) perform {} abandoned).any (fun s =>
        decide (s.link = .open) && s.connected && !s.shuttingDown && s.protocol.ready && !s.timer && s.greeted &&
          s.pending.entries.isEmpty && s.posted.isEmpty && s.resumptions.isEmpty && s.owed == [(2, some 0)] &&
          s.abandoned == [0] && !s.requests.isEmpty && s.serial == 3) = true := by decide +kernel
    obtain ⟨s, played, shown⟩ := (Option.any_eq_true ..).mp ran
    simp only [Bool.and_eq_true, decide_eq_true_eq, beq_iff_eq, Bool.not_eq_true', List.isEmpty_iff,
      List.isEmpty_eq_false_iff] at shown
    obtain ⟨⟨⟨⟨⟨⟨⟨⟨⟨⟨⟨⟨link, connected⟩, up⟩, ready⟩, timer⟩, greeted⟩, pending⟩, posted⟩, resumptions⟩, owed⟩, gone⟩,
      begun⟩, serial⟩ := shown
    have reached : Reach (· = {}) (fun _ _ => True) Step s := Reach.play abandoned (.start rfl) played
    have idle : Idle s := ⟨link, connected, up, ready, timer, greeted, AList.ext pending, posted, resumptions, owed, gone,
      begun⟩
    exact idle.mismatches reached serial

end Qcm.BackendTransport
