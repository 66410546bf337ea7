import Qcm.Lib.Neighbours

/-!
The rules of a filter dialog (`app/src/model/filter_rule_model.cpp`).

A rule stands in a group; a logic says how two groups are combined.  Rules and
logics are two lists that are edited by different functions, and go through a
document when they are saved and loaded.
-/

namespace Qcm.FilterRules

open Lib

/-- A row of the model, of which only the group is looked at here. -/
structure Rule (α : Type) where
  group : Int
  filter : α
  deriving DecidableEq

structure FilterLogic where
  op : Int
  groupA : Int
  groupB : Int
  deriving DecidableEq

/-- `LOGIC_OP_AND`. -/
def LogicOp.and : Int := 1

structure FilterRuleModel (α : Type) where
  rules : List (Rule α)
  filterLogics : List FilterLogic

/-- A document that was read, with what `toArray` and `toInt` make of its values. -/
inductive Document (β : Type) where
  | invalid
  | object (filters : List β) (groups : Option (List Int)) (filterLogics : List FilterLogic)

variable {α β : Type}

def FilterRuleModel.new : FilterRuleModel α := ⟨[], []⟩

/-- `orderedGroups_`: the group of each row, but not right after itself. -/
def orderedGroups (rules : List (Rule α)) : List Int :=
  rules.foldl (fun groups rule => if groups.getLast? = some rule.group then groups else groups ++ [rule.group]) []

/-- The greatest group, or -1. -/
def maxGroup (rules : List (Rule α)) : Int := rules.foldl (fun most rule => max most rule.group) (-1)

/-- The next number of an `int`, which comes around at the end. -/
def newGroupId (rules : List (Rule α)) : Int := Int.bmod (maxGroup rules + 1) (2 ^ 32)

/-- The loop of `findInsertPosition`, from the row `row` on. -/
def insertPosition (group : Int) : Nat → Nat → Bool → List (Rule α) → Nat
  | _, pos, _, [] => pos
  | row, pos, seen, rule :: rules =>
    if rule.group ≤ group then insertPosition group (row + 1) (row + 1) true rules
    else if seen then pos
    else insertPosition group (row + 1) pos seen rules

def findInsertPosition (rules : List (Rule α)) (group : Int) : Nat := insertPosition group 0 0 false rules

/-- The groups on both sides of a section's head. -/
def sectionGroups (rules : List (Rule α)) (sectionIndex : Int) : Option (Int × Int) := do
  let groups := orderedGroups rules
  if sectionIndex ≤ 0 ∨ groups.length ≤ sectionIndex then none
  else return (← groups[sectionIndex.toNat - 1]?, ← groups[sectionIndex.toNat]?)

def findLogicAt (model : FilterRuleModel α) (sectionIndex : Int) : Option Nat := do
  let (prev, curr) ← sectionGroups model.rules sectionIndex
  model.filterLogics.findIdx? fun e => e.groupA = prev ∧ e.groupB = curr

def setLogicOpAt (sectionIndex op : Int) (model : FilterRuleModel α) : FilterRuleModel α :=
  match findLogicAt model sectionIndex with
  | none =>
    match sectionGroups model.rules sectionIndex with
    | none => model
    | some (prev, curr) => { model with filterLogics := model.filterLogics ++ [⟨op, prev, curr⟩] }
  | some index => { model with filterLogics := model.filterLogics.modify index fun e => { e with op } }

/-- A default rule is put in, and its group written. -/
def appendRuleInGroup (blank : α) (group : Int) (model : FilterRuleModel α) : FilterRuleModel α :=
  { model with rules := model.rules.insertIdx (findInsertPosition model.rules group) ⟨group, blank⟩ }

def appendNewGroup (blank : α) (model : FilterRuleModel α) : FilterRuleModel α :=
  let newId := newGroupId model.rules
  -- the last group is taken to be the greatest
  let prevMax := (model.rules.getLast?.map Rule.group).getD (-1)
  let model := appendRuleInGroup blank newId model
  if 0 ≤ prevMax then
    { model with filterLogics := model.filterLogics ++ [⟨LogicOp.and, prevMax, newId⟩] }
  else model

def removeRow (row : Nat) (model : FilterRuleModel α) : FilterRuleModel α :=
  { model with rules := model.rules.eraseIdx row }

def deleteGroup (group : Int) (model : FilterRuleModel α) : FilterRuleModel α where
  rules := model.rules.filter fun rule => rule.group ≠ group
  filterLogics := model.filterLogics.filter fun e => ¬ (e.groupA = group ∨ e.groupB = group)

/-- `std::stable_sort` by the groups. -/
def sortByGroup (rules : List (Rule α)) : List (Rule α) :=
  rules.mergeSort fun left right => decide (left.group ≤ right.group)

/-- The groups written over those of the rules, as far as there are any. -/
def regroup : List (Rule α) → List Int → List (Rule α)
  | rule :: rules, group :: groups => { rule with group } :: regroup rules groups
  | rules, [] => rules
  | [], _ => []

def toJsonDocument (toJson : Rule α → β) (model : FilterRuleModel α) : Document β :=
  .object (model.rules.map toJson) (some (model.rules.map Rule.group)) model.filterLogics

/-- The rules of a document, before they are sorted. -/
def documentRules (fromJson : β → Rule α) (filters : List β) (groups : Option (List Int)) : List (Rule α) :=
  regroup (filters.map fromJson) (groups.getD [])

def fromJsonDocument (fromJson : β → Rule α) (document : Document β) (model : FilterRuleModel α) : FilterRuleModel α :=
  match document with
  | .invalid => model
  | .object filters groups filterLogics => ⟨sortByGroup (documentRules fromJson filters groups), filterLogics⟩

inductive Edit (β : Type) where
  | appendRuleInGroup (group : Int)
  | appendNewGroup
  | deleteGroup (group : Int)
  | removeRow (row : Nat)
  | setLogicOpAt (sectionIndex op : Int)
  | fromJsonDocument (document : Document β)

def step (blank : α) (fromJson : β → Rule α) (model : FilterRuleModel α) : Edit β → FilterRuleModel α
  | .appendRuleInGroup group => appendRuleInGroup blank group model
  | .appendNewGroup => appendNewGroup blank model
  | .deleteGroup group => deleteGroup group model
  | .removeRow row => removeRow row model
  | .setLogicOpAt sectionIndex op => setLogicOpAt sectionIndex op model
  | .fromJsonDocument document => fromJsonDocument fromJson document model

/-- A dialog and the document in the settings of its page (`LibraryPage.qml`). -/
structure Dialog (α β : Type) where
  model : FilterRuleModel α
  saved : Document β

def Dialog.new : Dialog α β := ⟨.new, .invalid⟩

inductive Action (β : Type) where
  | edit (edit : Edit β)
  | save
  | load

def act (blank : α) (toJson : Rule α → β) (fromJson : β → Rule α) (dialog : Dialog α β) : Action β → Dialog α β
  | .edit edit => { dialog with model := step blank fromJson dialog.model edit }
  | .save => { dialog with saved := toJsonDocument toJson dialog.model }
  | .load => { dialog with model := fromJsonDocument fromJson dialog.saved dialog.model }

end Qcm.FilterRules
