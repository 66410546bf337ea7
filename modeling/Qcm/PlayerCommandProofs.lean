import Qcm.PlayerCommands

/-!
What a player does in the end.  A command is dropped only when a newer one is on
its way that counts the revision up; that one takes up what was asked for, unless
it is a seek that does nothing.
-/

namespace Qcm.PlayerCommands

open Lib Player

variable {F : Type} {cube : F → F} {p q : Player F} {command : Command} {rest : List Command}

/-- A command that is not out of date and has counted the revision up. -/
def Late (revision source : Nat) (list : List Command) : Prop :=
  ∃ command ∈ list, command.kind.bumps = true ∧ command.revision = revision ∧ command.sourceRevision = source

/-- Some command asks for playing or for not playing. -/
def Asks (list : List Command) : Prop := ∃ command ∈ list, command.asks ≠ none

/-- Behind a command that is out of date there is one that is not, and behind one of an older source there is one
that says whether to play. -/
def Chained (revision source : Nat) : List Command → Prop
  | [] => True
  | command :: rest =>
    ((command.revision = revision ∧ command.sourceRevision = source) ∨ Late revision source rest) ∧
      (command.sourceRevision = source ∨ Asks rest) ∧ Chained revision source rest

/-- What the last command that says so says about playing. -/
def said (list : List Command) : Option Bool := (list.filterMap Command.asks).getLast?

/-- The volume of the device is the one set last, or is on its way. -/
def Loud (cube : F → F) (p : Player F) : Prop :=
  p.caller = .stored ∨ (∃ command ∈ p.flight, command.kind = .volume) ∨
    ∀ volume, p.device = some volume → volume = cube p.volume

/-- A state of playing is the one asked for, or another one is on its way. -/
def Wanted (p : Player F) (playing : Bool) : Prop := Asks p.flight ∨ playing = p.requestedPlaying

def Newer (p : Player F) : Prop := Late p.requestedRevision p.requestedSource p.flight

/-- Between two commands the player does what was asked for, except where a command was dropped or the media were
not opened, and then a newer command is on its way. -/
def Rested (cube : F → F) (p : Player F) : Prop :=
  (Wanted p p.playing ∨ ((p.dropped = true ∨ (p.decoder = none ∧ p.currentSource ≠ "")) ∧ Newer p)) ∧
    (Loud cube p ∨ (p.dropped = true ∧ Newer p))

/-- What is known at the places of the worker. -/
def Placed (cube : F → F) (p : Player F) : Prop :=
  match p.phase with
  | .idle | .checked _ => Rested cube p
  | .opening _ => p.currentSource ≠ "" ∧ p.device = none
  | .mounting .source | .mounting .reopen => p.currentSource ≠ "" ∧ p.decoder ≠ none
  | .waiting .source | .waiting .reopen | .settling _ => p.currentSource ≠ "" ∧ p.decoder ≠ none ∧ Loud cube p
  | .seeking =>
    (Wanted p p.playing ∨ p.dropped = true) ∧ (Loud cube p ∨ p.dropped = true) ∧
      (p.decoder = none → p.currentSource = "")
  | .resuming => Wanted p p.playing ∨ p.dropped = true
  | .moving resume => p.device = none ∧ (Wanted p p.playing ∨ p.dropped = true) ∧ Wanted p resume
  | .mounting (.resume resume) => (Wanted p p.playing ∨ p.dropped = true) ∧ Wanted p resume
  | .waiting (.resume resume) => (Wanted p p.playing ∨ p.dropped = true) ∧ Wanted p resume ∧ Loud cube p

/-- What every reached state keeps until the media or the device fail. -/
structure Sound (cube : F → F) (p : Player F) : Prop where
  chained : Chained p.requestedRevision p.requestedSource p.flight
  active : p.cancelled → Newer p
  said : ∀ playing, said p.flight = some playing → p.requestedPlaying = playing
  desired : ∀ volume, p.device = some volume → p.desired = volume
  placed : Placed cube p

variable {revision source : Nat} {list : List Command} {playing : Bool} {purpose : Purpose}

theorem placed_of_idle (idle : p.phase = .idle) : Placed cube p ↔ Rested cube p := by
  unfold Placed
  rw [idle]

theorem Late.append (late : Late revision source list) (more : List Command) :
    Late revision source (list ++ more) := by
  obtain ⟨command, member, stamped⟩ := late
  exact ⟨command, List.mem_append_left _ member, stamped⟩

theorem Asks.append (asks : Asks list) (more : List Command) : Asks (list ++ more) := by
  obtain ⟨command, member, asks⟩ := asks
  exact ⟨command, List.mem_append_left _ member, asks⟩

theorem asks_cons : Asks (command :: rest) ↔ command.asks ≠ none ∨ Asks rest := by
  simp [Asks]

theorem Chained.append (chained : Chained revision source list)
    (current : command.revision = revision ∧ command.sourceRevision = source) :
    Chained revision source (list ++ [command]) := by
  induction list with
  | nil => exact ⟨.inl current, .inl current.2, trivial⟩
  | cons first rest ih =>
    obtain ⟨stamped, same, below⟩ := chained
    exact ⟨stamped.imp_right (·.append _), same.imp_right (·.append _), ih below⟩

/-- A command that counts the revision up leaves every earlier one out of date. -/
theorem Chained.renew (chained : Chained revision source list) (bumps : command.kind.bumps = true)
    (replaces : command.sourceRevision = source ∨ command.asks ≠ none) :
    Chained command.revision command.sourceRevision (list ++ [command]) := by
  have late : ∀ list : List Command, Late command.revision command.sourceRevision (list ++ [command]) :=
    fun list => ⟨command, by simp, bumps, rfl, rfl⟩
  induction list with
  | nil => exact ⟨.inl ⟨rfl, rfl⟩, .inl rfl, trivial⟩
  | cons first rest ih =>
    obtain ⟨_, same, below⟩ := chained
    refine ⟨.inr (late rest), ?_, ih below⟩
    obtain kept | asks := replaces
    · rw [kept]
      exact same.imp_right (·.append _)
    · exact .inr ⟨command, by simp, asks⟩

theorem said_append (list : List Command) (command : Command) :
    said (list ++ [command]) = command.asks.or (said list) := by
  unfold said
  rw [List.filterMap_append]
  cases asks : command.asks with
  | none | some playing => simp [asks]

theorem said_cons (command : Command) (rest : List Command) : said (command :: rest) = (said rest).or command.asks := by
  unfold said
  cases asks : command.asks with
  | none => simp [asks]
  | some playing =>
    rw [List.filterMap_cons_some asks, List.getLast?_cons]
    cases (rest.filterMap Command.asks).getLast? <;> rfl

theorem said_eq_none (silent : ¬ Asks rest) : said rest = none := by
  rw [said, List.getLast?_eq_none_iff, List.filterMap_eq_nil_iff]
  exact fun command member => Classical.not_not.mp fun asks => silent ⟨command, member, asks⟩

theorem asks_of_silent (silent : ¬ Asks rest) (asks : command.asks = some playing) :
    said (command :: rest) = some playing := by
  rw [said_cons, said_eq_none silent, asks]
  rfl

/-! ## Calls and commands that are handed on -/

/-- A step outside the worker: what was on its way still is, and what is asked for anew is on its way. -/
structure Outside (cube : F → F) (p q : Player F) : Prop where
  phase : q.phase = p.phase
  dropped : q.dropped = p.dropped
  decoder : q.decoder = p.decoder
  device : q.device = p.device
  currentSource : q.currentSource = p.currentSource
  playing : q.playing = p.playing
  newer : Newer p → Newer q
  asks : Asks p.flight → Asks q.flight
  wanted : Asks q.flight ∨ q.requestedPlaying = p.requestedPlaying
  loud : Loud cube p → Loud cube q

theorem Outside.wants (outside : Outside cube p q) (wanted : Wanted p playing) : Wanted q playing := by
  obtain asks | same := wanted
  · exact .inl (outside.asks asks)
  · obtain asks | kept := outside.wanted
    · exact .inl asks
    · exact .inr (same.trans kept.symm)

theorem Placed.outside (placed : Placed cube p) (outside : Outside cube p q) : Placed cube q := by
  have wants := fun {playing : Bool} (wanted : Wanted p playing) => outside.wants wanted
  revert placed
  unfold Placed Rested
  rw [outside.phase, outside.dropped, outside.decoder, outside.device, outside.currentSource, outside.playing]
  cases p.phase with
  | idle | checked =>
    exact .imp (.imp wants (.imp_right outside.newer)) (.imp outside.loud (.imp_right outside.newer))
  | opening => exact id
  | mounting purpose =>
    cases purpose with
    | source | reopen => exact id
    | resume => exact .imp (.imp_left wants) wants
  | waiting purpose =>
    cases purpose with
    | source | reopen => exact .imp_right (.imp_right outside.loud)
    | resume => exact .imp (.imp_left wants) (.imp wants outside.loud)
  | settling => exact .imp_right (.imp_right outside.loud)
  | seeking => exact .imp (.imp_left wants) (.imp_left (.imp_left outside.loud))
  | resuming => exact .imp_left wants
  | moving => exact .imp_right (.imp (.imp_left wants) wants)

theorem Sound.handed (sound : Sound cube p) {actions pending batch : List Command} {caller : Caller} {volume : F}
    (same : ({ p with
      actions := actions, pending := pending, batch := batch, caller := caller, volume := volume } : Player F).flight =
        p.flight) (stored : caller = .stored ∨ volume = p.volume ∧ (p.caller = .stored → caller = .stored)) :
    Sound cube { p with
      actions := actions, pending := pending, batch := batch, caller := caller, volume := volume } := by
  have newer : Newer p → Newer { p with
      actions := actions, pending := pending, batch := batch, caller := caller, volume := volume } := fun late => by
    unfold Newer
    rw [same]
    exact late
  refine ⟨?_, fun cancelled => newer (sound.active cancelled), ?_, sound.desired, sound.placed.outside {
    phase := rfl, dropped := rfl, decoder := rfl, device := rfl, currentSource := rfl, playing := rfl
    newer := newer
    asks := fun asks => same ▸ asks
    wanted := .inr rfl
    loud := fun loud => ?_ }⟩
  · rw [same]
    exact sound.chained
  · rw [same]
    exact sound.said
  · obtain now | ⟨rfl, calm⟩ := stored
    · exact .inl now
    · unfold Loud
      rw [same]
      exact loud.imp_left calm

/-- The command that `announce` numbers. -/
def announced (p : Player F) (kind : CommandKind) (source : String) : Command where
  kind := kind
  source := source
  revision := if kind.bumps then p.requestedRevision + 1 else p.requestedRevision
  sourceRevision := if kind.replaces then p.requestedSource + 1 else p.requestedSource

theorem flight_announce (p : Player F) (kind : CommandKind) (source : String)
    (free : ∀ command, p.caller ≠ .pushing command) :
    (p.announce kind source).flight = p.flight ++ [announced p kind source] := by
  have queued : (p.announce kind source).queued = p.queued ++ [announced p kind source] := by
    unfold Player.queued Player.announce
    cases at' : p.caller with
    | pushing command => exact absurd at' (free command)
    | idle | stored => simp [announced]
  unfold flight
  rw [show (p.announce kind source).phase = p.phase from rfl, queued]
  cases p.phase <;> rfl

theorem Sound.announce (sound : Sound cube p) (kind : CommandKind) (source : String)
    (free : ∀ command, p.caller ≠ .pushing command) (called : p.caller = .stored → kind = .volume) :
    Sound cube (p.announce kind source) := by
  have flight := flight_announce p kind source free
  have revision : (p.announce kind source).requestedRevision = (announced p kind source).revision := rfl
  have sources : (p.announce kind source).requestedSource = (announced p kind source).sourceRevision := rfl
  have last : announced p kind source ∈ (p.announce kind source).flight := by
    rw [flight]
    exact List.mem_append_right _ (List.mem_singleton_self _)
  have asked : ∀ playing, (announced p kind source).asks = some playing →
      (p.announce kind source).requestedPlaying = playing := by
    intro playing
    cases kind <;> intro asks <;> cases asks <;> rfl
  have kept : (announced p kind source).asks = none →
      (p.announce kind source).requestedPlaying = p.requestedPlaying := by
    cases kind <;> intro asks <;> cases asks <;> rfl
  have newer : Newer p → Newer (p.announce kind source) := by
    intro late
    by_cases bumps : kind.bumps = true
    · exact ⟨_, last, bumps, rfl, rfl⟩
    · unfold Newer
      rw [flight]
      have still : (p.announce kind source).requestedSource = p.requestedSource := by
        cases kind <;> first | rfl | exact absurd rfl bumps
      have also : (p.announce kind source).requestedRevision = p.requestedRevision := if_neg bumps
      rw [still, also]
      exact late.append _
  refine ⟨?_, fun cancelled => ?_, fun playing latest => ?_, sound.desired, sound.placed.outside {
    phase := rfl, dropped := rfl, decoder := rfl, device := rfl, currentSource := rfl, playing := rfl
    newer := newer
    asks := fun asks => flight ▸ asks.append _
    wanted := ?_
    loud := ?_ }⟩
  · rw [flight, revision, sources]
    by_cases bumps : kind.bumps = true
    · refine sound.chained.renew bumps ?_
      cases kind with
      | source | stop => exact .inr nofun
      | seek => exact .inl rfl
      | play | pause | volume => cases bumps
    · have stamped : (announced p kind source).revision = p.requestedRevision ∧
          (announced p kind source).sourceRevision = p.requestedSource := by
        cases kind <;> first | exact ⟨rfl, rfl⟩ | exact absurd rfl bumps
      rw [stamped.1, stamped.2]
      exact sound.chained.append stamped
  · by_cases bumps : kind.bumps = true
    · exact ⟨_, last, bumps, rfl, rfl⟩
    · refine newer (sound.active ?_)
      cases kind <;> first | exact cancelled | exact absurd rfl bumps
  · rw [flight, said_append] at latest
    cases asks : (announced p kind source).asks with
    | none =>
      rw [asks, Option.none_or] at latest
      exact (kept asks).trans (sound.said playing latest)
    | some asked' =>
      rw [asks, Option.some_or] at latest
      cases latest
      exact asked _ asks
  · cases asks : (announced p kind source).asks with
    | none => exact .inr (kept asks)
    | some playing => exact .inl ⟨_, last, by rw [asks]; nofun⟩
  · rintro (waits | ⟨command, member, loud⟩ | loud)
    · exact .inr (.inl ⟨_, last, called waits⟩)
    · refine .inr (.inl ⟨command, ?_, loud⟩)
      rw [flight]
      exact List.mem_append_left _ member
    · exact .inr (.inr loud)

/-! ## Commands that are taken up -/

theorem Sound.drop (sound : Sound cube p) (idle : p.phase = .idle) (batch : p.batch = command :: rest)
    (old : command.sourceRevision ≠ p.requestedSource ∨
      (command.kind ≠ .source ∧ command.revision ≠ p.requestedRevision)) :
    Sound cube { p with
      batch := rest, dropped := p.dropped || decide (command.kind ≠ .source ∧ command.kind ≠ .seek) } := by
  let q : Player F := { p with
    batch := rest, dropped := p.dropped || decide (command.kind ≠ .source ∧ command.kind ≠ .seek) }
  have flight : p.flight = command :: q.flight := by
    cases p
    subst idle batch
    rfl
  have chained := sound.chained
  rw [flight] at chained
  obtain ⟨stamped, same, below⟩ := chained
  have late : Newer q := stamped.resolve_left fun stamp => old.elim (absurd stamp.2) fun older => older.2 stamp.1
  have placed := (placed_of_idle idle).mp sound.placed
  have loud : command.kind ≠ .volume → Loud cube p → Loud cube q := by
    rintro other (waits | ⟨found, member, volume⟩ | loud)
    · exact .inl waits
    · rw [flight] at member
      obtain rfl | behind := List.mem_cons.mp member
      · exact absurd volume other
      · exact .inr (.inl ⟨found, behind, volume⟩)
    · exact .inr (.inr loud)
  have marked : command.kind ≠ .source → command.kind ≠ .seek → q.dropped = true := fun source seek => by
    simp [q, source, seek]
  have stays : p.dropped = true → q.dropped = true := fun dropped => by simp [q, dropped]
  refine ⟨below, fun _ => late, fun playing latest => sound.said playing ?_, sound.desired, ?_⟩
  · rw [flight, said_cons, latest]
    rfl
  · refine (placed_of_idle (p := q) idle).mpr ⟨?_, ?_⟩
    · by_cases asks : Asks q.flight
      · exact .inl (.inl asks)
      · cases kind : command.kind with
        | source =>
          obtain current | behind := same
          · exact absurd current (old.resolve_right fun older => older.1 kind)
          · exact absurd behind asks
        | seek =>
          have silent : ¬ Asks p.flight := by
            rw [flight, asks_cons]
            simp [Command.asks, kind, asks]
          obtain (there | wanted) | ⟨owed, _⟩ := placed.1
          · exact absurd there silent
          · exact .inl (.inr wanted)
          · exact .inr ⟨owed.imp_left stays, late⟩
        | play | pause | stop | volume =>
          exact .inr ⟨.inl (marked (by rw [kind]; nofun) (by rw [kind]; nofun)), late⟩
    · cases kind : command.kind with
      | source | seek =>
        exact placed.2.imp (loud (by rw [kind]; nofun)) fun owed => ⟨stays owed.1, late⟩
      | play | pause | stop | volume =>
        exact .inr ⟨marked (by rw [kind]; nofun) (by rw [kind]; nofun), late⟩

theorem Sound.pass (sound : Sound cube p) (idle : p.phase = .idle) (batch : p.batch = command :: rest) :
    Sound cube { p with batch := rest, phase := .checked command } := by
  cases p
  subst idle batch
  exact { sound with placed := sound.placed }

theorem apply_eq (same : ∀ volume, p.device = some volume → p.desired = volume) : p.apply = p := by
  have held : (p.device.map fun _ => p.desired) = p.device := by
    cases there : p.device with
    | none => rfl
    | some volume => exact congrArg some (same volume there)
  unfold Player.apply
  rw [held]

/-- What is known when a command is about to be carried out. -/
structure Ready (p : Player F) (command : Command) : Prop where
  chained : Chained p.requestedRevision p.requestedSource p.queued
  active : p.cancelled → Late p.requestedRevision p.requestedSource p.queued
  said : ∀ playing, said p.queued = some playing → p.requestedPlaying = playing
  last : ¬ Asks p.queued → ∀ playing, command.asks = some playing → p.requestedPlaying = playing
  desired : ∀ volume, p.device = some volume → p.desired = volume

theorem Sound.readies (sound : Sound cube p) (checked : p.phase = .checked command) :
    Ready (p.activate command) command := by
  have flight : p.flight = command :: p.queued := by
    unfold Player.flight
    rw [checked]
  have chained := sound.chained
  rw [flight] at chained
  obtain ⟨stamped, same, below⟩ := chained
  refine ⟨below, fun cancelled => stamped.resolve_left fun stamp => ?_, fun playing latest => sound.said playing ?_,
    fun silent playing asks => sound.said playing ?_, sound.desired⟩
  · obtain older | other := cancelled
    · refine older ?_
      change (if command.kind = CommandKind.source then p.requestedRevision else command.revision) = _
      split
      · rfl
      · exact stamp.1
    · exact other stamp.2
  · rw [flight, said_cons, show PlayerCommands.said p.queued = some playing from latest]
    rfl
  · rw [flight]
    exact asks_of_silent silent asks

theorem Ready.wanted (ready : Ready p command) (idle : p.phase = .idle) (asks : command.asks = some playing) :
    Wanted p playing := by
  unfold Wanted Player.flight
  rw [idle]
  by_cases others : Asks p.queued
  · exact .inl others
  · exact .inr (ready.last others playing asks).symm

theorem Ready.sound (command : Command) (ready : Ready p command) (unchecked : p.flight = p.queued) (placed : Placed cube p) :
    Sound cube p where
  chained := unchecked ▸ ready.chained
  active cancelled := by
    unfold Newer
    rw [unchecked]
    exact ready.active cancelled
  said := unchecked ▸ ready.said
  desired := ready.desired
  placed := placed

section

variable (checked : p.phase = .checked command)
include checked

theorem flight_of_checked : p.flight = command :: p.queued := by
  unfold Player.flight
  rw [checked]

theorem wanted_behind (silent : command.asks = none) (wanted : Wanted p playing) :
    Wanted (p.activate command) playing := by
  refine wanted.imp_left fun asks => ?_
  rw [flight_of_checked checked, asks_cons] at asks
  exact asks.resolve_left (absurd silent)

theorem newer_behind (plain : command.kind.bumps = false) (late : Newer p) :
    Newer (p.activate command) := by
  unfold Newer at late
  rw [flight_of_checked checked] at late
  obtain ⟨other, member, bumps, stamped⟩ := late
  obtain rfl | behind := List.mem_cons.mp member
  · rw [plain] at bumps
    cases bumps
  · exact ⟨other, behind, bumps, stamped⟩

theorem loud_behind (other : command.kind ≠ .volume) (loud : Loud cube p) :
    Loud cube (p.activate command) := by
  obtain waits | ⟨found, member, volume⟩ | loud := loud
  · exact .inl waits
  · rw [flight_of_checked checked] at member
    obtain rfl | behind := List.mem_cons.mp member
    · exact absurd volume other
    · exact .inr (.inl ⟨found, behind, volume⟩)
  · exact .inr (.inr loud)

end

theorem loud_of_none (none : p.device = none) : Loud cube p :=
  .inr (.inr fun _ some => nomatch none.symm.trans some)

theorem Ready.openSource (command : Command) (ready : Ready p command) (reopen : Bool) (idle : p.phase = .idle)
    (empty : p.currentSource = "" → Wanted p false) : Sound cube (p.openSource reopen) := by
  have stopped : Ready p.stopMedia command := { ready with desired := fun _ some => nomatch some }
  have flight : p.flight = p.queued := by
    unfold Player.flight
    rw [idle]
  unfold Player.openSource
  dsimp only
  split
  · rename_i none
    refine Ready.sound command { stopped with } rfl ?_
    refine (placed_of_idle rfl).mpr ⟨.inl ?_, .inl (loud_of_none rfl)⟩
    have wanted := empty none
    unfold Wanted at wanted
    rw [flight] at wanted
    exact wanted
  · rename_i there
    split
    · rename_i cancelled
      refine Ready.sound command { stopped with } rfl ?_
      exact (placed_of_idle rfl).mpr ⟨.inr ⟨.inr ⟨rfl, there⟩, ready.active cancelled⟩, .inl (loud_of_none rfl)⟩
    · exact Ready.sound command { stopped with } rfl ⟨there, rfl⟩

theorem Sound.begin (sound : Sound cube p) (checked : p.phase = .checked command) : Sound cube (p.begin cube command) := by
  have ready := sound.readies checked
  have flight : (p.activate command).flight = (p.activate command).queued := rfl
  have rested : Rested cube p := by
    have placed := sound.placed
    unfold Placed at placed
    rwa [checked] at placed
  -- A command that does not count the revision up leaves what is on its way.
  have plain : command.kind.bumps = false → command.kind ≠ .volume →
      Loud cube (p.activate command) ∨ ((p.activate command).dropped = true ∧ Newer (p.activate command)) :=
    fun plain other => rested.2.imp (loud_behind checked other) (.imp_right (newer_behind checked plain))
  have sets : ∀ playing, command.asks = some playing → command.kind.bumps = false → command.kind ≠ .volume →
      Sound cube ((p.activate command).setPlaying playing) := by
    intro playing asks bumps other
    have same : ({ p.activate command with playing := playing } : Player F).apply =
        { p.activate command with playing := playing } := apply_eq ready.desired
    unfold setPlaying
    rw [same]
    refine Ready.sound command { ready with } rfl ?_
    exact (placed_of_idle rfl).mpr ⟨.inl (ready.wanted rfl asks), plain bumps other⟩
  unfold Player.begin
  dsimp only
  split
  · rename_i kind
    have cleared : Ready { (p.activate command).stopMedia with currentSource := command.source } command :=
      { ready with desired := fun _ some => nomatch some }
    refine Ready.openSource command cleared false rfl fun empty => ?_
    have asks : command.asks = some false := by
      unfold Command.asks
      rw [kind]
      simp [show command.source = "" from empty]
    exact ready.wanted rfl asks
  · rename_i kind
    exact sets true (by simp [Command.asks, kind]) (by rw [kind]; rfl) (by rw [kind]; nofun)
  · rename_i kind
    exact sets false (by simp [Command.asks, kind]) (by rw [kind]; rfl) (by rw [kind]; nofun)
  · rename_i kind
    refine Ready.sound command { ready with desired := fun _ some => nomatch some } rfl ?_
    have asks : command.asks = some false := by simp [Command.asks, kind]
    exact (placed_of_idle rfl).mpr ⟨.inl (ready.wanted rfl asks), .inl (loud_of_none rfl)⟩
  · rename_i kind
    have silent : command.asks = none := by simp [Command.asks, kind]
    split
    · rename_i lost
      exact Ready.openSource command ready true rfl fun empty => absurd empty lost.2
    · rename_i held
      have plays : Wanted (p.activate command) p.playing ∨ p.dropped = true := by
        obtain wanted | ⟨dropped | lost, _⟩ := rested.1
        · exact .inl (wanted_behind checked silent wanted)
        · exact .inr dropped
        · exact absurd lost held
      have loud : Loud cube (p.activate command) ∨ p.dropped = true :=
        rested.2.imp (loud_behind checked (by rw [kind]; nofun)) And.left
      refine Ready.sound command { ready with } rfl ⟨plays, loud, ?_⟩
      · exact fun none => Classical.not_not.mp fun there => held ⟨none, there⟩
  · rename_i kind
    have silent : command.asks = none := by simp [Command.asks, kind]
    have plays : Wanted (p.activate command) p.playing ∨
        ((p.dropped = true ∨ (p.decoder = none ∧ p.currentSource ≠ "")) ∧ Newer (p.activate command)) :=
      rested.1.imp (wanted_behind checked silent) (And.imp_right (newer_behind checked (by rw [kind]; rfl)))
    split
    · rename_i volume there
      refine Ready.sound command { ready with desired := fun other set => ?_ } rfl ?_
      · cases device : p.device with
        | none => exact nomatch (device.symm.trans there)
        | some old =>
          have applied : some (cube p.volume) = some other := by
            have held : ((p.activate command).device.map fun _ => cube p.volume) = some other := set
            rwa [show (p.activate command).device = some old from device] at held
          exact Option.some.inj applied
      · refine (placed_of_idle rfl).mpr ⟨plays, .inl (.inr (.inr fun other set => ?_))⟩
        obtain ⟨_, _, same⟩ := Option.map_eq_some_iff.mp set
        exact same.symm
    · rename_i absent
      exact Ready.sound command { ready with } rfl
        ((placed_of_idle rfl).mpr ⟨plays, .inl (loud_of_none absent)⟩)

/-- What the player keeps to as long as nothing has failed. -/
def Kept (cube : F → F) (p : Player F) : Prop := p.failed = true ∨ Sound cube p

section

variable (sound : Sound cube p)
include sound

theorem Sound.fail (unchecked : p.flight = p.queued) (there : p.cancelled → p.currentSource ≠ "") :
    Kept cube p.fail := by
  obtain ⟨chained, active, said, -, -⟩ := sound
  unfold Newer at active
  rw [unchecked] at chained active said
  by_cases cancelled : p.cancelled
  · exact .inr ⟨chained, active, said, nofun,
      ⟨.inr ⟨.inr ⟨rfl, there cancelled⟩, active cancelled⟩, .inl (loud_of_none rfl)⟩⟩
  · refine .inl ?_
    unfold Player.fail
    simp [cancelled]

theorem Sound.mediaOpened {reopen : Bool} (opening : p.phase = .opening reopen) (media : Option Bool) :
    Kept cube (p.mediaOpened reopen media) := by
  cases p
  subst opening
  have placed := sound.placed
  cases media with
  | none => exact sound.fail rfl fun _ => placed.1
  | some => cases reopen <;> exact .inr { sound with placed := ⟨placed.1, nofun⟩ }

theorem Sound.mount (mounting : p.phase = .mounting purpose) : Sound cube (p.mount cube purpose) := by
  cases p
  subst mounting
  have placed := sound.placed
  refine { sound with desired := fun _ => Option.some.inj, placed := ?_ }
  cases purpose <;> exact ⟨placed.1, placed.2, .inr (.inr fun _ set => (Option.some.inj set).symm)⟩

theorem Sound.ready (waiting : p.phase = .waiting purpose) (done : Bool) :
    Kept cube (p.ready purpose done) := by
  cases p
  subst waiting
  have placed := sound.placed
  cases purpose with
  | source | reopen =>
    cases done with
    | true => exact .inr { sound with placed := placed }
    | false => exact sound.fail rfl fun _ => placed.1
  | resume playing =>
    obtain ⟨before, wanted, loud⟩ := placed
    cases done with
    | true => exact .inr { sound with placed := ⟨.inl wanted, .inl loud⟩ }
    | false =>
      unfold Player.ready
      dsimp only
      split
      · rename_i cancelled
        exact .inr { sound with
          desired := nofun
          placed := ⟨before.imp_right fun dropped => ⟨.inl dropped, sound.active cancelled⟩, .inl (loud_of_none rfl)⟩ }
      · rename_i current
        exact sound.fail rfl fun cancelled => absurd cancelled current

theorem Sound.settle {reopen : Bool} (settling : p.phase = .settling reopen) :
    Sound cube (p.settle reopen) := by
  cases p
  subst settling
  obtain ⟨there, decoder, loud⟩ := sound.placed
  cases reopen with
  | false => exact { sound with placed := ⟨.inl (.inr rfl), .inl loud⟩ }
  | true => exact { sound with placed := ⟨.inl (.inr rfl), .inl loud, fun none => absurd none decoder⟩ }

theorem Sound.sought (seeking : p.phase = .seeking)
    (honours : p.decoder = some true ∨ p.cancelled ∨ p.dropped = false) :
    Sound cube (if p.Idles then { p with phase := .idle } else { p with phase := .resuming }) := by
  have cancelled (idles : p.Idles) (dropped : p.dropped = true) : p.cancelled := by
    obtain sought | there | kept := honours
    · exact idles.resolve_left (absurd sought)
    · exact there
    · exact nomatch kept.symm.trans dropped
  cases p
  subst seeking
  obtain ⟨wanted, loud, _⟩ := sound.placed
  split
  · rename_i idles
    have late := fun dropped => sound.active (cancelled idles dropped)
    exact { sound with placed := ⟨wanted.imp_right fun dropped => ⟨.inl dropped, late dropped⟩,
      loud.imp_right fun dropped => ⟨dropped, late dropped⟩⟩ }
  · exact { sound with placed := wanted }

theorem Sound.resume (resuming : p.phase = .resuming) :
    Sound cube { p.stopDevice with phase := .moving p.requestedPlaying } := by
  cases p
  subst resuming
  exact { sound with desired := nofun, placed := ⟨rfl, sound.placed, .inr rfl⟩ }

theorem Sound.moved {resume : Bool} (moving : p.phase = .moving resume) (done : Bool) :
    Kept cube (p.moved resume done) := by
  cases p
  subst moving
  obtain ⟨none, before, wanted⟩ := sound.placed
  unfold Player.moved
  split
  · exact .inr { sound with placed := ⟨before, wanted⟩ }
  · split
    · rename_i cancelled
      exact .inr { sound with
        placed := ⟨before.imp_right fun dropped => ⟨.inl dropped, sound.active cancelled⟩, .inl (loud_of_none none)⟩ }
    · rename_i current
      exact sound.fail rfl fun cancelled => absurd cancelled current

end

/-! ## Runs -/

theorem fail_failed (failed : p.failed = true) : p.fail.failed = true := by
  unfold Player.fail
  simp [failed]

theorem begin_failed (command : Command) : (p.begin cube command).failed = p.failed := by
  unfold Player.begin openSource
  dsimp only
  repeat' split
  all_goals rfl

theorem ready_failed (failed : p.failed = true) (done : Bool) : (p.ready purpose done).failed = true := by
  unfold Player.ready
  repeat' split
  all_goals first | exact failed | exact fail_failed failed

theorem moved_failed {resume : Bool} (failed : p.failed = true) (done : Bool) : (p.moved resume done).failed = true := by
  unfold Player.moved
  repeat' split
  all_goals first | exact failed | exact fail_failed failed

/-- One event, when no seek is lost and the media are not played to their end. -/
theorem Kept.step (kept : Kept cube p) (event : Event F) (honours : Honours p event) (stepped : Step cube p event q) :
    Kept cube q := by
  unfold Step perform at stepped
  cases event <;> dsimp only at stepped
  case store volume =>
    split at stepped <;> cases stepped
    rename_i calm
    refine kept.imp_right fun sound => sound.handed ?_ (.inl rfl)
    unfold flight queued
    rw [calm]
  case announce kind source =>
    split at stepped
    · rename_i calm
      obtain ⟨_, same⟩ := Option.ite_none_left_eq_some.mp stepped
      cases same
      exact kept.imp_right fun sound =>
        sound.announce kind source (fun command => by rw [calm]; nofun) fun waits => nomatch calm.symm.trans waits
    · rename_i waits
      obtain ⟨volume, same⟩ := Option.ite_none_right_eq_some.mp stepped
      cases same
      exact kept.imp_right fun sound =>
        sound.announce .volume "" (fun command => by rw [waits]; nofun) fun _ => rfl
    · cases stepped
  case push =>
    split at stepped <;> cases stepped
    rename_i command pushing
    refine kept.imp_right fun sound => sound.handed ?_ (.inr ⟨rfl, fun waits => nomatch pushing.symm.trans waits⟩)
    unfold flight queued
    rw [pushing]
    simp
  case forward =>
    split at stepped <;> cases stepped
    rename_i command rest first
    refine kept.imp_right fun sound => sound.handed ?_ (.inr ⟨rfl, id⟩)
    unfold flight queued
    rw [first]
    simp
  case take =>
    split at stepped <;> cases stepped
    rename_i idle empty
    refine kept.imp_right fun sound => sound.handed ?_ (.inr ⟨rfl, id⟩)
    unfold flight queued
    rw [idle, empty]
    simp
  case check =>
    split at stepped <;> cases stepped
    rename_i command rest idle batch
    unfold Player.check
    split
    · rename_i old
      exact kept.imp_right fun sound => sound.drop idle batch old
    · exact kept.imp_right fun sound => sound.pass idle batch
  case begin =>
    split at stepped <;> cases stepped
    exact kept.imp (begin_failed _).trans fun sound => sound.begin ‹_›
  case mediaOpened media =>
    split at stepped <;> cases stepped
    refine kept.elim (fun failed => .inl ?_) fun sound => sound.mediaOpened ‹_› media
    cases media with
    | none => exact fail_failed failed
    | some seekable => exact failed
  case mount =>
    split at stepped <;> cases stepped
    exact kept.imp_right fun sound => sound.mount ‹_›
  case ready done =>
    split at stepped <;> cases stepped
    exact kept.elim (fun failed => .inl (ready_failed failed done)) fun sound => sound.ready ‹_› done
  case settle =>
    split at stepped <;> cases stepped
    exact kept.imp_right fun sound => sound.settle ‹_›
  case sought =>
    split at stepped <;> cases stepped
    refine kept.imp (fun failed => ?_) fun sound => sound.sought ‹_› honours
    split <;> exact failed
  case resume =>
    split at stepped <;> cases stepped
    exact kept.imp_right fun sound => sound.resume ‹_›
  case moved done =>
    split at stepped <;> cases stepped
    exact kept.elim (fun failed => .inl (moved_failed failed done)) fun sound => sound.moved ‹_› done
  case tick =>
    split at stepped <;> cases stepped
    refine kept.imp_right fun sound => ?_
    rwa [apply_eq sound.desired]
  case ended => exact honours.elim
  case broken =>
    split at stepped
    · obtain ⟨able, same⟩ := Option.ite_none_left_eq_some.mp stepped
      cases same
      refine .inl ?_
      unfold Player.fail
      simp [not_or.mp able]
    · cases stepped

theorem Sound.new (volume desired : F) : Sound cube { volume := volume, desired := desired } where
  chained := trivial
  active cancelled := cancelled.elim (absurd rfl) (absurd rfl)
  said _ some := nomatch some
  desired _ some := nomatch some
  placed := (placed_of_idle rfl).mpr ⟨.inl (.inr rfl), .inl (loud_of_none rfl)⟩

/-- In every run in which each seek that does nothing follows no dropped command, or is cancelled by a newer command,
and the media are not played to their end, a player that has processed all commands, and of which nothing has failed,
does what was last asked for. -/
theorem the_last_intent_is_followed {volume desired : F}
    (reached : Runs.Reach (fun p => p = { volume := volume, desired := desired }) Honours (Step cube) p) :
    p.failed = false → Quiet p → Follows cube p := by
  intro sane quiet
  have kept : Kept cube p := reached.invariant (fun _ started => started ▸ .inr (Sound.new volume desired))
    fun _ event _ kept honours stepped => kept.step event honours stepped
  have sound : Sound cube p := kept.resolve_left fun failed => nomatch sane.symm.trans failed
  obtain ⟨idle, caller, empty⟩ := quiet
  obtain ⟨plays, loud⟩ := (placed_of_idle idle).mp sound.placed
  have calm : ¬ Newer p := by
    rintro ⟨command, member, _⟩
    rw [empty] at member
    cases member
  have silent : ¬ Asks p.flight := by
    rintro ⟨command, member, _⟩
    rw [empty] at member
    cases member
  refine ⟨?_, ?_⟩
  · exact (plays.resolve_right fun owed => calm owed.2).resolve_left silent
  · obtain waits | ⟨command, member, _⟩ | loud := loud.resolve_right fun owed => calm owed.2
    · exact nomatch caller.symm.trans waits
    · rw [empty] at member
      cases member
    · exact loud

/-- The player after some events, from which it has nothing left to do. -/
private def afterwards (guard : Player Nat → Event Nat → Prop) [∀ p event, Decidable (guard p event)]
    (events : List (Event Nat)) : Option (Player Nat) :=
  (Runs.play guard (perform fun volume => volume ^ 3) { volume := 1, desired := 0 } events).filter fun p =>
    p.phase = .idle ∧ p.caller = .idle ∧ p.flight = [] ∧ p.failed = false

private theorem reached_afterwards {guard : Player Nat → Event Nat → Prop} [∀ p event, Decidable (guard p event)]
    {events : List (Event Nat)} {p : Player Nat} (ran : afterwards guard events = some p) :
    Runs.Reach (fun p => p = { volume := 1, desired := 0 }) guard (Step fun volume => volume ^ 3) p ∧
      p.failed = false ∧ Quiet p := by
  obtain ⟨played, rested⟩ := Option.filter_eq_some_iff.mp ran
  obtain ⟨idle, caller, empty, sane⟩ := of_decide_eq_true rested
  exact ⟨.play events (.start rfl) played, sane, idle, caller, empty⟩

/-- A pause and a volume are dropped for a seek, which takes both up. -/
theorem the_last_intent_is_followed_by_a_seek :
    ∃ p : Player Nat, p.device = some 27 ∧ p.playing = false ∧ Follows (fun volume => volume ^ 3) p := by
  have shown : ((afterwards Honours [.announce .source "song", .push, .forward, .take, .check, .begin,
      .mediaOpened (some true), .mount, .ready true, .settle, .announce .pause "", .push, .store 3,
      .announce .volume "", .push, .announce .seek "", .push, .forward, .forward, .forward, .take, .check, .check,
      .check, .begin, .sought, .resume, .moved true, .mount, .ready true]).any fun p =>
      p.device == some 27 && !p.playing) = true := by decide +kernel
  obtain ⟨p, ran, seen⟩ := (Option.any_eq_true ..).mp shown
  obtain ⟨reached, sane, quiet⟩ := reached_afterwards ran
  obtain ⟨device, stopped⟩ := Bool.and_eq_true_iff.mp seen
  exact ⟨p, eq_of_beq device, by simpa using stopped, the_last_intent_is_followed reached sane quiet⟩

/-- To play is asked for and then to seek, before any source was set. -/
theorem dropped_for_a_seek_that_does_nothing :
    ¬ ∀ p : Player Nat, Runs.Reach (fun p => p = { volume := 1, desired := 0 }) (fun _ _ => True)
      (Step fun volume => volume ^ 3) p → p.failed = false → Quiet p → Follows (fun volume => volume ^ 3) p := by
  intro claimed
  have shown : ((afterwards (fun _ _ => True) [.announce .play "", .push, .announce .seek "", .push, .forward,
      .forward, .take, .check, .check, .begin, .sought]).any fun p => !p.playing && p.requestedPlaying) = true := by
    decide +kernel
  obtain ⟨p, ran, seen⟩ := (Option.any_eq_true ..).mp shown
  obtain ⟨reached, sane, quiet⟩ := reached_afterwards ran
  obtain ⟨follows, -⟩ := claimed p reached sane quiet
  obtain ⟨stopped, requested⟩ := Bool.and_eq_true_iff.mp seen
  rw [follows, requested] at stopped
  cases stopped

end Qcm.PlayerCommands
