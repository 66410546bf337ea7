import Qcm.Lib.Hash
import Qcm.Lib.Runs

/-!
Likes of comments (`comment_reaction.hpp`, `comments_query.cpp`).

Pages of comments are read and likes are sent independently of each other, all
numbered by one clock of the store.  A reaction keeps the number from which on
reads may change it.
-/

namespace Qcm.CommentReactions

open Lib

/-- `comments::Reaction` -/
structure Reaction where
  liked : Option Bool := none
  count : Option UInt64 := none
  pending : Bool := false
  uncertain : Bool := false
  barrier : Nat := 0

namespace Reaction

def read (reaction : Reaction) (value : Option Bool) (total : Option UInt64) (revision : Nat) : Reaction :=
  if reaction.pending ∨ revision < reaction.barrier then reaction
  else { reaction with liked := value, count := total, uncertain := false }

/-- `begin`: the reaction, and whether the like may be sent. -/
def start (reaction : Reaction) (revision : Nat) : Reaction × Bool :=
  if reaction.pending ∨ reaction.uncertain ∨ reaction.liked = none then (reaction, false)
  else ({ reaction with pending := true, barrier := revision }, true)

/-- The count after a like that was answered without one; the increment and the decrement are those of a `uint64_t`. -/
def counted (reaction : Reaction) (value : Bool) : Option UInt64 :=
  match reaction.liked, reaction.count with
  | some liked, some count =>
    if liked = value then some count
    else if value = true ∧ count < (18446744073709551615 : UInt64) then some (count + 1)
    else if value = false ∧ count ≠ 0 then some (count - 1)
    else some count
  | _, count => count

def complete (reaction : Reaction) (value : Bool) (total : Option UInt64) (revision : Nat) : Reaction :=
  if reaction.pending then
    { reaction with
      count := match total with
        | some total => some total
        | none => reaction.counted value
      liked := some value
      pending := false
      uncertain := false
      barrier := revision }
  else reaction

def fail (reaction : Reaction) (revision : Nat) : Reaction :=
  { reaction with pending := false, uncertain := true, barrier := revision }

end Reaction

/-- A comment of a page, with those shown below it. -/
inductive Comment where
  | comment (id : String) (liked : Option Bool) (likeCount : Option UInt64) (deleted : Bool) (previews : List Comment)

mutual

/-- The comments that `merge` makes entries for. -/
def Comment.names : Comment → List String
  | .comment id _ _ _ previews => if id = "" then [] else id :: namesOf previews

def namesOf : List Comment → List String
  | [] => []
  | value :: rest => value.names ++ namesOf rest

end

/-- What a `CommentView` shows. -/
structure CommentView where
  liked : Option Bool := none
  likeCount : Option UInt64 := none
  deleted : Bool := false
  reaction : Reaction := {}

def CommentView.applyReaction (view : CommentView) : CommentView :=
  { view with liked := view.reaction.liked, likeCount := view.reaction.count }

/-- A read of a page that is on its way, and the comments on which a like began or finished since it was issued. -/
structure Read where
  revision : Nat
  generation : Nat
  acted : List String
deriving DecidableEq

/-- What was read of a comment or came of a like on it, at the number it has: of a read the one it was issued
at, of a like the one it was completed at. -/
structure Outcome where
  id : String
  revision : Nat
  liked : Option Bool
  count : Option UInt64

/-- `CommentStore`, with the reads on their way and what was applied to its entries. -/
structure CommentStore where
  clock : Nat := 0
  generation : Nat := 0
  item : Int := 0
  scope : String := ""
  canLike : Bool := false
  closed : Bool := false
  entries : Hash String CommentView := ∅
  reads : List Read := []
  applied : List Outcome := []

namespace CommentStore

def clear (store : CommentStore) : CommentStore :=
  { store with
    generation := store.generation + 1
    scope := ""
    item := 0
    canLike := false
    entries := ∅
    applied := [] }

/-- `bind`; another context clears the store first. -/
def bind (store : CommentStore) (item : Int) (scope : String) (canLike : Bool) : CommentStore :=
  let store := if store.scope ≠ "" ∧ (store.scope ≠ scope ∨ item ≠ store.item) then store.clear else store
  { store with item := item, scope := scope, canLike := canLike }

/-- `view` -/
def view (store : CommentStore) (id : String) : CommentView := (store.entries.lookup id).getD {}

/-- The reaction takes what a read of this number found. -/
def Takes (reaction : Reaction) (revision : Nat) : Prop := reaction.pending = false ∧ reaction.barrier ≤ revision

instance (reaction : Reaction) (revision : Nat) : Decidable (Takes reaction revision) :=
  inferInstanceAs (Decidable (_ ∧ _))

/-- One comment of a page, without those below it. -/
def mergeValue (store : CommentStore) (id : String) (liked : Option Bool) (likeCount : Option UInt64) (deleted : Bool)
    (revision : Nat) : CommentStore :=
  let entry := store.view id
  let next : CommentView :=
    { liked := liked, likeCount := likeCount, deleted := deleted, reaction := entry.reaction.read liked likeCount revision }
  { store with
    entries := store.entries.insert id next.applyReaction
    applied := if Takes entry.reaction revision then ⟨id, revision, liked, likeCount⟩ :: store.applied else store.applied }

mutual

/-- The body of the loop of `merge`. -/
def mergeComment (store : CommentStore) (revision : Nat) : Comment → CommentStore
  | .comment id liked likeCount deleted previews =>
    if id = "" then store
    else merge (store.mergeValue id liked likeCount deleted revision) revision previews

/-- `merge` -/
def merge (store : CommentStore) (revision : Nat) : List Comment → CommentStore
  | [] => store
  | value :: rest => merge (mergeComment store revision value) revision rest

end

/-- A like on the comment began or finished. -/
def act (store : CommentStore) (id : String) : CommentStore :=
  { store with reads := store.reads.map fun read => { read with acted := id :: read.acted } }

def putReaction (store : CommentStore) (id : String) (entry : CommentView) (reaction : Reaction) : CommentStore :=
  { store with entries := store.entries.insert id { entry with reaction := reaction } }

/-- `load` up to the request. -/
def load (store : CommentStore) : CommentStore :=
  { store with
    clock := store.clock + 1
    reads := ⟨store.clock + 1, store.generation, []⟩ :: store.reads }

/-- `accept`, of an answer with a page; an answer to an earlier generation is dropped. -/
def accept (store : CommentStore) (read : Read) (item : Int) (scope : String) (canLike : Bool) (page : List Comment) :
    CommentStore :=
  let store := { store with reads := store.reads.erase read }
  if store.generation = read.generation then (store.bind item scope canLike).merge read.revision page else store

/-- `setLiked` up to the request. -/
def setLiked (store : CommentStore) (id : String) (value : Bool) : CommentStore :=
  match store.entries.lookup id with
  | some entry =>
    if store.closed = true ∨ ¬ (store.canLike = true ∧ store.scope ≠ "") ∨ entry.deleted = true ∨
        entry.reaction.liked = some value then store
    else
      let started := entry.reaction.start (store.clock + 1)
      let store := { store with clock := store.clock + 1 }
      if started.2 then (store.act id).putReaction id entry started.1 else store
  | none => store

/-- The answer to a like: a result, with the count or without, or a failure. -/
inductive Answer where
  | result (liked : Bool) (likeCount : Option UInt64)
  | failure

/-- What follows the request of `setLiked`. -/
def answered (store : CommentStore) (id : String) (generation : Nat) (answer : Answer) : CommentStore :=
  if store.generation = generation then
    match store.entries.lookup id with
    | some entry =>
      let revision := store.clock + 1
      let store := { store with clock := revision }
      match answer with
      | .failure => (store.act id).putReaction id entry (entry.reaction.fail revision)
      | .result liked likeCount =>
        let next := { entry with reaction := entry.reaction.complete liked likeCount revision }.applyReaction
        if entry.reaction.pending then
          { (store.act id) with
            entries := store.entries.insert id next
            applied := ⟨id, revision, next.liked, next.likeCount⟩ :: store.applied }
        else { store with entries := store.entries.insert id next }
    | none => store
  else store

def close (store : CommentStore) : CommentStore := { store with closed := true }.clear

end CommentStore

inductive Event where
  | load
  | accept (read : Read) (item : Int) (scope : String) (canLike : Bool) (page : List Comment)
  | abandon (read : Read)
  | setLiked (id : String) (value : Bool)
  | answered (id : String) (generation : Nat) (answer : CommentStore.Answer)
  | clear
  | close

/-- A read is answered once, or not at all. -/
def Step (store : CommentStore) (event : Event) (next : CommentStore) : Prop :=
  match event with
  | .load => next = store.load
  | .accept read item scope canLike page => read ∈ store.reads ∧ next = store.accept read item scope canLike page
  | .abandon read => read ∈ store.reads ∧ next = { store with reads := store.reads.erase read }
  | .setLiked id value => next = store.setLiked id value
  | .answered id generation answer => next = store.answered id generation answer
  | .clear => next = store.clear
  | .close => next = store.close

end Qcm.CommentReactions
