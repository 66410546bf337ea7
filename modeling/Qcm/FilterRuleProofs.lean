import Qcm.FilterRules
import Qcm.Lib.RowChanges

/-!
When the logics of a filter dialog name neighbouring groups.  Rules are sorted
after every edit; a logic stays between two neighbours as long as no edit puts a
group between them, takes one of them away row by row, or runs out of numbers.
-/

namespace Qcm.FilterRuleProofs

open Lib FilterRules

variable {α β : Type} {rules : List (Rule α)} {group one next : Int}

section Groups

/-- A rule of the group is there. -/
def Present (rules : List (Rule α)) (group : Int) : Prop := ∃ rule ∈ rules, rule.group = group

def Sorted (rules : List (Rule α)) : Prop := rules.Pairwise fun left right => left.group ≤ right.group

/-- The groups that stand next to each other: both are there, and none between them. -/
def Beside (rules : List (Rule α)) (one next : Int) : Prop :=
  Present rules one ∧ Present rules next ∧ one < next ∧
    ∀ other, Present rules other → ¬ (one < other ∧ other < next)

@[simp] theorem present_cons {rule : Rule α} :
    Present (rule :: rules) group ↔ rule.group = group ∨ Present rules group := by
  simp [Present]

@[simp] theorem present_append {more : List (Rule α)} :
    Present (rules ++ more) group ↔ Present rules group ∨ Present more group := by
  simp only [Present, List.mem_append, or_and_right, exists_or]

private theorem foldl_groups (sorted : Sorted rules) (groups : List Int) (upwards : groups.Pairwise (· < ·))
    (below : ∀ group ∈ groups, ∀ rule ∈ rules, group ≤ rule.group) :
    (rules.foldl (fun groups rule => if groups.getLast? = some rule.group then groups else groups ++ [rule.group])
      groups).Pairwise (· < ·) ∧
    ∀ group, group ∈ rules.foldl (fun groups rule =>
      if groups.getLast? = some rule.group then groups else groups ++ [rule.group]) groups ↔
        group ∈ groups ∨ Present rules group := by
  induction rules generalizing groups with
  | nil => simp [upwards, Present]
  | cons rule rules ih =>
    obtain ⟨least, sorted⟩ := List.pairwise_cons.mp sorted
    rw [List.foldl_cons]
    by_cases last : groups.getLast? = some rule.group
    · rw [if_pos last]
      obtain ⟨up, members⟩ := ih sorted groups upwards fun group member other inside =>
        below group member other (by simp [inside])
      refine ⟨up, fun group => (members group).trans ?_⟩
      have there := List.mem_of_getLast? last
      rw [present_cons]
      constructor
      · rintro (old | late)
        · exact .inl old
        · exact .inr (.inr late)
      · rintro (old | rfl | late)
        · exact .inl old
        · exact .inl there
        · exact .inr late
    · rw [if_neg last]
      have above : ∀ group ∈ groups, group < rule.group := by
        intro group member
        refine lt_of_le_of_ne (below group member rule (by simp)) fun same => last ?_
        obtain ⟨front, final, rfl⟩ : ∃ front final, groups = front ++ [final] :=
          ⟨_, _, (List.dropLast_append_getLast (List.ne_nil_of_mem member)).symm⟩
        rw [List.getLast?_concat, Option.some.injEq]
        refine le_antisymm (below final (by simp) rule (by simp)) ?_
        rw [← same]
        obtain early | late := List.mem_append.mp member
        · exact le_of_lt ((List.pairwise_append.mp upwards).2.2 group early final (by simp))
        · exact le_of_eq (List.mem_singleton.mp late)
      obtain ⟨up, members⟩ := ih sorted (groups ++ [rule.group])
        (List.pairwise_append.mpr ⟨upwards, by simp, by simpa using above⟩) (by
          intro group member other inside
          obtain early | late := List.mem_append.mp member
          · exact below group early other (by simp [inside])
          · rw [List.mem_singleton.mp late]
            exact least other inside)
      refine ⟨up, fun group => (members group).trans ?_⟩
      rw [List.mem_append, List.mem_singleton, present_cons, or_assoc, @eq_comm _ group rule.group]

theorem orderedGroups_upwards (sorted : Sorted rules) : (orderedGroups rules).Pairwise (· < ·) :=
  (foldl_groups sorted [] .nil (by simp)).1

theorem mem_orderedGroups (sorted : Sorted rules) : group ∈ orderedGroups rules ↔ Present rules group := by
  exact ((foldl_groups sorted [] .nil (by simp)).2 group).trans (by simp)

theorem neighbours_iff_beside (sorted : Sorted rules) :
    Neighbours (orderedGroups rules) one next ↔ Beside rules one next := by
  rw [neighbours_iff (orderedGroups_upwards sorted)]
  simp only [mem_orderedGroups sorted, Beside]

end Groups

section Positions

private theorem insertPosition_above {row pos : Nat} {seen : Bool} (above : ∀ rule ∈ rules, group < rule.group) :
    insertPosition group row pos seen rules = pos := by
  induction rules generalizing row with
  | nil => rfl
  | cons rule rules ih =>
    rw [insertPosition, if_neg (by simpa using above rule (by simp))]
    split
    · rfl
    · exact ih fun other member => above other (by simp [member])

private theorem insertPosition_eq {row : Nat} {seen : Bool} (sorted : Sorted rules) :
    insertPosition group row row seen rules = row + (rules.takeWhile fun rule => rule.group ≤ group).length := by
  induction rules generalizing row seen with
  | nil => rfl
  | cons rule rules ih =>
    obtain ⟨least, sorted⟩ := List.pairwise_cons.mp sorted
    rw [insertPosition]
    by_cases small : rule.group ≤ group
    · rw [if_pos small, ih sorted, List.takeWhile_cons_of_pos (by simpa using small), List.length_cons]
      omega
    · rw [if_neg small, List.takeWhile_cons_of_neg (by simpa using small)]
      split
      · rfl
      · exact insertPosition_above fun other member => (not_le.mp small).trans_le (least other member)

theorem split_at (rules : List (Rule α)) (group : Int) (sorted : Sorted rules) :
    ∃ front back, rules = front ++ back ∧ front.length = findInsertPosition rules group ∧
      (∀ rule ∈ front, rule.group ≤ group) ∧ ∀ rule ∈ back, group < rule.group := by
  refine ⟨rules.takeWhile fun rule => rule.group ≤ group, rules.dropWhile fun rule => rule.group ≤ group,
    List.takeWhile_append_dropWhile.symm, ?_, ?_, ?_⟩
  · rw [findInsertPosition, insertPosition_eq sorted, Nat.zero_add]
  · intro rule member
    simpa using List.mem_takeWhile_imp member
  · intro rule member
    have kept : Sorted (rules.dropWhile fun rule => rule.group ≤ group) := sorted.sublist (List.dropWhile_sublist _)
    cases behind : rules.dropWhile fun rule => rule.group ≤ group with
    | nil => simp [behind] at member
    | cons first rest =>
      have above : group < first.group := by
        have stops := List.head_dropWhile_not (fun rule : Rule α => decide (rule.group ≤ group))
          (show rules.dropWhile _ ≠ [] by rw [behind]; simp)
        simpa [behind] using stops
      rw [behind] at member kept
      obtain rfl | late := List.mem_cons.mp member
      · exact above
      · exact above.trans_le ((List.pairwise_cons.mp kept).1 rule late)

theorem appendRuleInGroup_kept {model : FilterRuleModel α} (blank : α) (sorted : Sorted model.rules) (group : Int) :
    Sorted (appendRuleInGroup blank group model).rules ∧
      ∀ other, Present (appendRuleInGroup blank group model).rules other ↔
        group = other ∨ Present model.rules other := by
  obtain ⟨front, back, whole, place, below, above⟩ := split_at model.rules group sorted
  have put : (appendRuleInGroup blank group model).rules = front ++ ⟨group, blank⟩ :: back := by
    rw [appendRuleInGroup, ← place, whole, insertIdx_length_append]
  have parts := sorted
  rw [whole] at parts
  obtain ⟨early, late, across⟩ := List.pairwise_append.mp parts
  rw [put, whole]
  have behind : Sorted (⟨group, blank⟩ :: back) :=
    List.pairwise_cons.mpr ⟨fun rule member => (above rule member).le, late⟩
  refine ⟨List.pairwise_append.mpr ⟨early, behind, ?_⟩, ?_⟩
  · intro rule member other inside
    obtain rfl | behind := List.mem_cons.mp inside
    · exact below rule member
    · exact across rule member other behind
  · intro other
    rw [present_append, present_cons, present_append]
    exact or_left_comm

private theorem foldl_max_le (most : Int) :
    most ≤ rules.foldl (fun most rule => max most rule.group) most ∧
      ∀ group, Present rules group → group ≤ rules.foldl (fun most rule => max most rule.group) most := by
  induction rules generalizing most with
  | nil => simp [Present]
  | cons rule rules ih =>
    obtain ⟨start, all⟩ := ih (max most rule.group)
    refine ⟨(le_max_left _ _).trans start, fun group present => ?_⟩
    obtain rfl | later := present_cons.mp present
    · exact (le_max_right _ _).trans start
    · exact all group later

theorem le_maxGroup (present : Present rules group) : group ≤ maxGroup rules := (foldl_max_le (-1)).2 group present

theorem maxGroup_cases (rules : List (Rule α)) : maxGroup rules = -1 ∨ Present rules (maxGroup rules) := by
  have all : ∀ most : Int, rules.foldl (fun most rule => max most rule.group) most = most ∨
      Present rules (rules.foldl (fun most rule => max most rule.group) most) := by
    induction rules with
    | nil => simp
    | cons rule rules ih =>
      intro most
      rw [List.foldl_cons]
      obtain same | later := ih (max most rule.group)
      · rw [same, present_cons]
        obtain small | great := le_total rule.group most
        · exact .inl (max_eq_left small)
        · exact .inr (.inl (max_eq_right great).symm)
      · exact .inr (present_cons.mpr (.inr later))
  exact all (-1)

theorem maxGroup_bound (rules : List (Rule α)) : -1 ≤ maxGroup rules := (foldl_max_le (-1)).1

/-- The last of the sorted rules is in the greatest group, if it is in one that is not negative. -/
theorem last_group (sorted : Sorted rules) {last : Int} (ending : (rules.getLast?.map Rule.group).getD (-1) = last)
    (positive : 0 ≤ last) : last = maxGroup rules ∧ Present rules last := by
  cases final : rules.getLast? with
  | none =>
    rw [final] at ending
    cases ending
    cases positive
  | some rule =>
    rw [final] at ending
    cases ending
    obtain ⟨front, rfl⟩ := List.getLast?_eq_some_iff.mp final
    have there : Present (front ++ [rule]) rule.group := by simp
    refine ⟨le_antisymm (le_maxGroup there) ?_, there⟩
    obtain none | ⟨greatest, member, same⟩ := maxGroup_cases (front ++ [rule])
    · have least : (-1 : Int) ≤ rule.group := by
        have zero : (0 : Int) ≤ rule.group := positive
        omega
      rw [none]
      exact least
    · rw [← same]
      obtain early | late := List.mem_append.mp member
      · exact (List.pairwise_append.mp sorted).2.2 greatest early rule (by simp)
      · rw [List.mem_singleton.mp late]
        exact le_refl rule.group

theorem le_last (sorted : Sorted rules) (present : Present rules group) :
    group ≤ (rules.getLast?.map Rule.group).getD (-1) := by
  obtain ⟨rule, member, rfl⟩ := present
  obtain ⟨front, final, rfl⟩ : ∃ front final, rules = front ++ [final] :=
    ⟨_, _, (List.dropLast_append_getLast (List.ne_nil_of_mem member)).symm⟩
  rw [List.getLast?_concat, Option.map_some, Option.getD_some]
  obtain early | late := List.mem_append.mp member
  · exact (List.pairwise_append.mp sorted).2.2 rule early final (by simp)
  · rw [List.mem_singleton.mp late]

end Positions

section Soundness

def Apart (filterLogics : List FilterLogic) : Prop :=
  filterLogics.Pairwise fun e other => ¬ (e.groupA = other.groupA ∧ e.groupB = other.groupB)

/-- Rules by their groups, and to two neighbouring groups one logic at most. -/
structure Sound (model : FilterRuleModel α) : Prop where
  sorted : Sorted model.rules
  adjacent : ∀ e ∈ model.filterLogics, Neighbours (orderedGroups model.rules) e.groupA e.groupB
  apart : Apart model.filterLogics

variable {model : FilterRuleModel α} {blank : α} {fromJson : β → Rule α}

/-- Each group of sorted rules is in one piece. -/
theorem Sound.contiguous (sound : Sound model) {first middle last : Nat} {one other next : Rule α}
    (order : first < middle ∧ middle < last) (here : model.rules[first]? = some one)
    (inside : model.rules[middle]? = some other) (there : model.rules[last]? = some next)
    (same : one.group = next.group) : other.group = one.group := by
  obtain ⟨_, rfl⟩ := List.getElem?_eq_some_iff.mp here
  obtain ⟨_, rfl⟩ := List.getElem?_eq_some_iff.mp inside
  obtain ⟨_, rfl⟩ := List.getElem?_eq_some_iff.mp there
  have up := List.pairwise_iff_getElem.mp sound.sorted first middle (by assumption) (by assumption) order.1
  have on := List.pairwise_iff_getElem.mp sound.sorted middle last (by assumption) (by assumption) order.2
  exact le_antisymm (on.trans (le_of_eq same.symm)) up

theorem sound_iff (sorted : Sorted model.rules) :
    Sound model ↔ (∀ e ∈ model.filterLogics, Beside model.rules e.groupA e.groupB) ∧ Apart model.filterLogics := by
  constructor
  · intro sound
    exact ⟨fun e member => (neighbours_iff_beside sorted).mp (sound.adjacent e member), sound.apart⟩
  · rintro ⟨beside, apart⟩
    exact ⟨sorted, fun e member => (neighbours_iff_beside sorted).mpr (beside e member), apart⟩

theorem Sound.beside (sound : Sound model) {e : FilterLogic} (member : e ∈ model.filterLogics) :
    Beside model.rules e.groupA e.groupB := (neighbours_iff_beside sound.sorted).mp (sound.adjacent e member)

/-- An edit that keeps two neighbouring groups next to each other: no logic has a
new group put between its own, new groups do not run out of numbers, no group of a
logic is taken away row by row, and a document has logics of neighbours only. -/
def Careful (fromJson : β → Rule α) (model : FilterRuleModel α) : Edit β → Prop
  | .appendRuleInGroup group => ∀ e ∈ model.filterLogics, ¬ (e.groupA < group ∧ group < e.groupB)
  | .appendNewGroup => maxGroup model.rules + 1 < 2 ^ 31
  | .deleteGroup _ => True
  | .removeRow row => ∀ rule, model.rules[row]? = some rule →
    (∃ place, ∃ other, place ≠ row ∧ model.rules[place]? = some other ∧ other.group = rule.group) ∨
      ∀ e ∈ model.filterLogics, e.groupA ≠ rule.group ∧ e.groupB ≠ rule.group
  | .setLogicOpAt _ _ => True
  | .fromJsonDocument .invalid => True
  | .fromJsonDocument (.object filters groups filterLogics) =>
    (∀ e ∈ filterLogics, Beside (documentRules fromJson filters groups) e.groupA e.groupB) ∧ Apart filterLogics

theorem appendRuleInGroup_sound (blank : α) (sound : Sound model) (group : Int) :
    Sound (appendRuleInGroup blank group model) ↔
      ∀ e ∈ model.filterLogics, ¬ (e.groupA < group ∧ group < e.groupB) := by
  obtain ⟨sorted, present⟩ := appendRuleInGroup_kept blank sound.sorted group
  rw [sound_iff sorted]
  constructor
  · rintro ⟨beside, _⟩ e member
    exact (beside e member).2.2.2 group ((present group).mpr (.inl rfl))
  · intro free
    refine ⟨fun e member => ?_, sound.apart⟩
    obtain ⟨here, there, less, none⟩ := sound.beside member
    refine ⟨(present _).mpr (.inr here), (present _).mpr (.inr there), less, fun other among => ?_⟩
    obtain rfl | old := (present other).mp among
    · exact free e member
    · exact none other old

private theorem newGroupId_eq (room : maxGroup rules + 1 < 2 ^ 31) : newGroupId rules = maxGroup rules + 1 := by
  have bound := maxGroup_bound rules
  rw [newGroupId, Int.bmod_eq_of_le] <;> omega

private theorem newGroupId_le (full : ¬ maxGroup rules + 1 < 2 ^ 31) : newGroupId rules ≤ maxGroup rules := by
  have less := Int.bmod_lt (x := maxGroup rules + 1) (m := 2 ^ 32) (by decide)
  rw [newGroupId]
  omega

theorem appendNewGroup_sound (sound : Sound model) :
    Sound (appendNewGroup blank model) ↔ maxGroup model.rules + 1 < 2 ^ 31 := by
  obtain ⟨sorted, present⟩ := appendRuleInGroup_kept blank sound.sorted (newGroupId model.rules)
  have kept : (appendNewGroup blank model).rules = (appendRuleInGroup blank (newGroupId model.rules) model).rules := by
    unfold appendNewGroup
    dsimp only
    split <;> rfl
  rw [sound_iff (kept ▸ sorted), kept]
  constructor
  · rintro ⟨beside, _⟩
    by_contra full
    have there : Present model.rules (maxGroup model.rules) := by
      refine (maxGroup_cases model.rules).resolve_left fun none => full ?_
      rw [none]
      decide
    have last := le_last sound.sorted there
    have positive : 0 ≤ (model.rules.getLast?.map Rule.group).getD (-1) := by omega
    obtain ⟨same, _⟩ := last_group sound.sorted rfl positive
    have member : (⟨LogicOp.and, maxGroup model.rules, newGroupId model.rules⟩ : FilterLogic) ∈
        (appendNewGroup blank model).filterLogics := by
      rw [appendNewGroup, if_pos positive, same]
      simp
    have less := (beside _ member).2.2.1
    have small := newGroupId_le full
    simp only at less
    omega
  · intro room
    have fresh := newGroupId_eq room
    have free : ∀ e ∈ model.filterLogics,
        ¬ (e.groupA < newGroupId model.rules ∧ newGroupId model.rules < e.groupB) := by
      rintro e member ⟨_, below⟩
      have bound := le_maxGroup (sound.beside member).2.1
      omega
    have still := (appendRuleInGroup_sound blank sound (newGroupId model.rules)).mpr free
    unfold appendNewGroup
    dsimp only
    split
    · rename_i positive
      obtain ⟨same, there⟩ := last_group sound.sorted rfl positive
      constructor
      · intro e member
        obtain old | new := List.mem_append.mp member
        · exact still.beside old
        · rw [List.mem_singleton.mp new]
          dsimp only
          rw [same] at there ⊢
          refine ⟨(present _).mpr (.inr there), (present _).mpr (.inl rfl), by omega, ?_⟩
          rintro other among ⟨above, below⟩
          obtain rfl | old := (present other).mp among
          · exact lt_irrefl _ below
          · have bound := le_maxGroup old
            omega
      · refine List.pairwise_append.mpr ⟨sound.apart, by simp, fun e member other new => ?_⟩
        rw [List.mem_singleton.mp new]
        rintro ⟨_, equal⟩
        have bound := le_maxGroup (sound.beside member).2.1
        dsimp only at equal
        omega
    · exact ⟨fun e member => still.beside member, sound.apart⟩

theorem deleteGroup_sound (sound : Sound model) (group : Int) : Sound (deleteGroup group model) := by
  have present : ∀ other,
      Present (deleteGroup group model).rules other ↔ Present model.rules other ∧ other ≠ group := by
    intro other
    constructor
    · rintro ⟨rule, member, rfl⟩
      obtain ⟨old, stays⟩ := List.mem_filter.mp member
      exact ⟨⟨rule, old, rfl⟩, by simpa using stays⟩
    · rintro ⟨⟨rule, member, rfl⟩, stays⟩
      exact ⟨rule, List.mem_filter.mpr ⟨member, by simpa using stays⟩, rfl⟩
  refine (sound_iff (sound.sorted.sublist List.filter_sublist)).mpr
    ⟨fun e member => ?_, sound.apart.sublist List.filter_sublist⟩
  obtain ⟨old, other⟩ := List.mem_filter.mp member
  have others : ¬ (e.groupA = group ∨ e.groupB = group) := by simpa using other
  obtain ⟨here, there, less, none⟩ := sound.beside old
  exact ⟨(present _).mpr ⟨here, fun same => others (.inl same)⟩,
    (present _).mpr ⟨there, fun same => others (.inr same)⟩, less,
    fun between among => none between ((present between).mp among).1⟩

theorem removeRow_sound (sound : Sound model) (row : Nat) :
    Sound (removeRow row model) ↔ Careful fromJson model (.removeRow row) := by
  have sorted : Sorted (removeRow row model).rules := sound.sorted.sublist (List.eraseIdx_sublist _ _)
  have present : ∀ other, Present (removeRow row model).rules other ↔
      ∃ place, ∃ rule, place ≠ row ∧ model.rules[place]? = some rule ∧ rule.group = other := by
    intro other
    simp only [Present, removeRow, List.mem_eraseIdx_iff_getElem?]
    constructor
    · rintro ⟨rule, ⟨place, apart, stands⟩, same⟩
      exact ⟨place, rule, apart, stands, same⟩
    · rintro ⟨place, rule, apart, stands, same⟩
      exact ⟨rule, ⟨place, apart, stands⟩, same⟩
  rw [sound_iff sorted]
  constructor
  · rintro ⟨beside, _⟩ rule stands
    by_cases another : Present (removeRow row model).rules rule.group
    · exact .inl ((present rule.group).mp another)
    · refine .inr fun e member => ⟨fun same => another ?_, fun same => another ?_⟩
      · exact same ▸ (beside e member).1
      · exact same ▸ (beside e member).2.1
  · intro careful
    have stays : ∀ e ∈ model.filterLogics, ∀ other, other = e.groupA ∨ other = e.groupB →
        Present model.rules other → Present (removeRow row model).rules other := by
      rintro e member other named ⟨rule, inside, same⟩
      obtain ⟨place, stands⟩ := List.mem_iff_getElem?.mp inside
      by_cases here : place = row
      · subst here
        obtain another | unnamed := careful rule stands
        · exact (present other).mpr (same ▸ another)
        · obtain first | second := named
          · exact absurd (first.symm.trans same.symm) (unnamed e member).1
          · exact absurd (second.symm.trans same.symm) (unnamed e member).2
      · exact (present other).mpr ⟨place, rule, here, stands, same⟩
    refine ⟨fun e member => ?_, sound.apart⟩
    obtain ⟨here, there, less, none⟩ := sound.beside member
    refine ⟨stays e member _ (.inl rfl) here, stays e member _ (.inr rfl) there, less,
      fun other among => none other ?_⟩
    obtain ⟨place, rule, _, stands, same⟩ := (present other).mp among
    exact ⟨rule, List.mem_of_getElem? stands, same⟩

theorem sectionGroups_neighbours {sectionIndex prev curr : Int}
    (found : sectionGroups rules sectionIndex = some (prev, curr)) : Neighbours (orderedGroups rules) prev curr := by
  unfold sectionGroups at found
  dsimp only at found
  split at found
  · cases found
  · rename_i inside
    simp only [Option.bind_eq_bind, Option.bind_eq_some_iff, Option.pure_def, Option.some.injEq, Prod.mk.injEq] at found
    obtain ⟨one, here, next, there, rfl, rfl⟩ := found
    refine ⟨sectionIndex.toNat - 1, here, ?_⟩
    rwa [show sectionIndex.toNat - 1 + 1 = sectionIndex.toNat by omega]

theorem setLogicOpAt_sound (sound : Sound model) (sectionIndex op : Int) :
    Sound (setLogicOpAt sectionIndex op model) := by
  unfold setLogicOpAt
  cases found : findLogicAt model sectionIndex with
  | some index =>
    have pairs : ∀ e ∈ model.filterLogics.modify index fun e => { e with op },
        ∃ old ∈ model.filterLogics, e.groupA = old.groupA ∧ e.groupB = old.groupB := by
      intro e member
      obtain ⟨place, inside, rfl⟩ := List.mem_iff_getElem.mp member
      rw [List.length_modify] at inside
      refine ⟨model.filterLogics[place], List.getElem_mem inside, ?_⟩
      rw [List.getElem_modify]
      split <;> exact ⟨rfl, rfl⟩
    refine ⟨sound.sorted, fun e member => ?_, ?_⟩
    · obtain ⟨old, stored, first, second⟩ := pairs e member
      rw [first, second]
      exact sound.adjacent old stored
    · refine List.pairwise_iff_getElem.mpr fun one next inside there order => ?_
      dsimp only at inside there ⊢
      rw [List.length_modify] at inside there
      have apart := List.pairwise_iff_getElem.mp sound.apart one next inside there order
      rw [List.getElem_modify, List.getElem_modify]
      split <;> split <;> exact apart
  | none =>
    cases groups : sectionGroups model.rules sectionIndex with
    | none => exact sound
    | some pair =>
      obtain ⟨prev, curr⟩ := pair
      have new : ∀ e ∈ model.filterLogics, ¬ (e.groupA = prev ∧ e.groupB = curr) := by
        unfold findLogicAt at found
        simp only [groups, Option.bind_eq_bind, Option.bind_some] at found
        simpa using List.findIdx?_eq_none_iff.mp found
      refine ⟨sound.sorted, fun e member => ?_, ?_⟩
      · obtain old | last := List.mem_append.mp member
        · exact sound.adjacent e old
        · rw [List.mem_singleton.mp last]
          exact sectionGroups_neighbours groups
      · refine List.pairwise_append.mpr ⟨sound.apart, by simp, fun e member other last => ?_⟩
        rw [List.mem_singleton.mp last]
        exact new e member

theorem sortByGroup_sorted (rules : List (Rule α)) : Sorted (sortByGroup rules) := by
  have ordered := @List.pairwise_mergeSort _ (fun left right : Rule α => decide (left.group ≤ right.group))
    (fun first second third one two => by
      simp only [decide_eq_true_eq] at one two ⊢
      exact one.trans two)
    (fun first second => by
      simp only [Bool.or_eq_true, decide_eq_true_eq]
      exact le_total _ _) rules
  exact ordered.imp fun before => decide_eq_true_eq.mp before

theorem present_sortByGroup : Present (sortByGroup rules) group ↔ Present rules group := by
  simp only [Present, sortByGroup, List.mem_mergeSort]

theorem fromJsonDocument_sound (sound : Sound model) (document : Document β) :
    Sound (fromJsonDocument fromJson document model) ↔ Careful fromJson model (.fromJsonDocument document) := by
  cases document with
  | invalid => exact iff_of_true sound trivial
  | object filters groups filterLogics =>
    rw [fromJsonDocument, sound_iff (sortByGroup_sorted _), Careful]
    simp only [Beside, present_sortByGroup]

/-- An edit keeps the model sound exactly when it is careful. -/
theorem step_sound_iff (sound : Sound model) (edit : Edit β) :
    Sound (step blank fromJson model edit) ↔ Careful fromJson model edit := by
  cases edit with
  | appendRuleInGroup group => exact appendRuleInGroup_sound blank sound group
  | appendNewGroup => exact appendNewGroup_sound sound
  | deleteGroup group => exact iff_of_true (deleteGroup_sound sound group) trivial
  | removeRow row => exact removeRow_sound sound row
  | setLogicOpAt sectionIndex op => exact iff_of_true (setLogicOpAt_sound sound sectionIndex op) trivial
  | fromJsonDocument document => exact fromJsonDocument_sound sound document

end Soundness

section Runs

variable {toJson : Rule α → β} {fromJson : β → Rule α} {blank : α} {dialog : Dialog α β}

/-- The groups that were saved come back, whatever becomes of the filters. -/
theorem documentRules_saved (toJson : Rule α → β) (fromJson : β → Rule α) (rules : List (Rule α)) :
    documentRules fromJson (rules.map toJson) (some (rules.map Rule.group)) =
      rules.map fun rule => { fromJson (toJson rule) with group := rule.group } := by
  unfold documentRules
  induction rules with
  | nil => rfl
  | cons rule rules ih => simpa [regroup] using ih

/-- What a sound model saves can be loaded. -/
theorem saved_careful {model : FilterRuleModel α} (sound : Sound model) (other : FilterRuleModel α) :
    Careful fromJson other (.fromJsonDocument (toJsonDocument toJson model)) := by
  have present : ∀ group, Present (documentRules fromJson (model.rules.map toJson) (some (model.rules.map Rule.group)))
      group ↔ Present model.rules group := by
    intro group
    simp [documentRules_saved, Present]
  refine ⟨fun e member => ?_, sound.apart⟩
  have beside := sound.beside member
  unfold Beside at beside ⊢
  simpa only [present] using beside

/-- Every state of a run has a sound model, the first and the last among them. -/
def SoundThroughout (blank : α) (toJson : Rule α → β) (fromJson : β → Rule α) : Dialog α β → List (Action β) → Prop
  | dialog, [] => Sound dialog.model
  | dialog, action :: actions =>
    Sound dialog.model ∧ SoundThroughout blank toJson fromJson (act blank toJson fromJson dialog action) actions

/-- An edit is careful in the model it meets; to save and to load needs no care. -/
def CarefulAction (fromJson : β → Rule α) (dialog : Dialog α β) : Action β → Prop
  | .edit edit => Careful fromJson dialog.model edit
  | .save => True
  | .load => True

def AllCareful (blank : α) (toJson : Rule α → β) (fromJson : β → Rule α) : Dialog α β → List (Action β) → Prop
  | _, [] => True
  | dialog, action :: actions =>
    CarefulAction fromJson dialog action ∧
      AllCareful blank toJson fromJson (act blank toJson fromJson dialog action) actions

/-- The document in the settings is one that may be loaded. -/
def Loadable (fromJson : β → Rule α) (saved : Document β) : Prop :=
  ∀ model : FilterRuleModel α, Careful fromJson model (.fromJsonDocument saved)

theorem act_sound_iff (blank : α) (toJson : Rule α → β) (sound : Sound dialog.model)
    (loadable : Loadable fromJson dialog.saved) (action : Action β) :
    Sound (act blank toJson fromJson dialog action).model ↔ CarefulAction fromJson dialog action := by
  cases action with
  | edit edit => exact step_sound_iff sound edit
  | save => exact iff_of_true sound trivial
  | load => exact iff_of_true ((fromJsonDocument_sound sound dialog.saved).mpr (loadable dialog.model)) trivial

theorem act_loadable (sound : Sound dialog.model) (loadable : Loadable fromJson dialog.saved) (action : Action β) :
    Loadable fromJson (act blank toJson fromJson dialog action).saved := by
  cases action with
  | edit edit => exact loadable
  | save => exact saved_careful sound
  | load => exact loadable

theorem soundThroughout_iff (sound : Sound dialog.model) (loadable : Loadable fromJson dialog.saved)
    (actions : List (Action β)) :
    SoundThroughout blank toJson fromJson dialog actions ↔ AllCareful blank toJson fromJson dialog actions := by
  induction actions generalizing dialog with
  | nil => exact iff_of_true sound trivial
  | cons action actions ih =>
    rw [SoundThroughout, AllCareful, and_iff_right sound]
    have one := act_sound_iff blank toJson sound loadable action
    by_cases careful : CarefulAction fromJson dialog action
    · rw [and_iff_right careful]
      exact ih (one.mpr careful) (act_loadable sound loadable action)
    · refine iff_of_false (fun all => careful (one.mp ?_)) fun all => careful all.1
      cases actions with
      | nil => exact all
      | cons _ _ => exact all.1

theorem new_sound : Sound (Dialog.new : Dialog α β).model :=
  ⟨.nil, by simp [Dialog.new, FilterRuleModel.new], .nil⟩

/-- **The logics of a filter dialog name neighbouring groups, each two once, and
the rules stand by their groups, in every state of exactly those runs in which
every edit is careful.** -/
theorem rules_sound_iff_careful (blank : α) (toJson : Rule α → β) (fromJson : β → Rule α)
    (actions : List (Action β)) :
    SoundThroughout blank toJson fromJson Dialog.new actions ↔ AllCareful blank toJson fromJson Dialog.new actions :=
  soundThroughout_iff new_sound (fun _ => trivial) actions

/-- The only rule of the second group goes, and the logic that names the group stays. -/
theorem last_rule_leaves_logic :
    ¬ SoundThroughout () id id Dialog.new
      [.edit .appendNewGroup, .edit .appendNewGroup, .edit (.removeRow 1)] := by
  rintro ⟨_, _, _, sound⟩
  have final : Sound (removeRow 1 (appendNewGroup () (appendNewGroup () FilterRuleModel.new))) := sound
  have groups : orderedGroups (removeRow 1 (appendNewGroup () (appendNewGroup () FilterRuleModel.new))).rules = [0] := by
    decide
  obtain ⟨place, _, there⟩ := final.adjacent ⟨1, 0, 1⟩ (by decide)
  rw [groups, List.getElem?_cons_succ] at there
  cases there

/-- No edit takes the rules out of their order. -/
private theorem step_sorted {model : FilterRuleModel α} (blank : α) (fromJson : β → Rule α) (sorted : Sorted model.rules)
    (edit : Edit β) : Sorted (step blank fromJson model edit).rules := by
  cases edit with
  | appendRuleInGroup group => exact (appendRuleInGroup_kept blank sorted group).1
  | appendNewGroup =>
    dsimp only [step, appendNewGroup]
    split <;> exact (appendRuleInGroup_kept blank sorted _).1
  | deleteGroup group => exact sorted.sublist List.filter_sublist
  | removeRow row => exact sorted.sublist (List.eraseIdx_sublist ..)
  | setLogicOpAt sectionIndex op =>
    dsimp only [step, setLogicOpAt]
    repeat' split
    all_goals exact sorted
  | fromJsonDocument document =>
    cases document with
    | invalid => exact sorted
    | object filters groups filterLogics => exact sortByGroup_sorted _

private theorem acts_sorted (blank : α) {toJson : Rule α → β} {dialog : Dialog α β} (sorted : Sorted dialog.model.rules)
    (actions : List (Action β)) : Sorted (actions.foldl (act blank toJson fromJson) dialog).model.rules := by
  induction actions generalizing dialog with
  | nil => exact sorted
  | cons action actions ih =>
    refine ih ?_
    cases action with
    | edit edit => exact step_sorted blank fromJson sorted edit
    | save => exact sorted
    | load => exact step_sorted blank fromJson sorted (.fromJsonDocument dialog.saved)

/-- What is saved comes back when it is loaded, after any edits: the rules in their order and their groups, with
what becomes of a filter on its way, and the logics. -/
theorem saved_rules_come_back (blank : α) (toJson : Rule α → β) (fromJson : β → Rule α) (actions : List (Action β)) :
    let dialog := actions.foldl (act blank toJson fromJson) Dialog.new
    ([.save, .load].foldl (act blank toJson fromJson) dialog).model =
      ⟨dialog.model.rules.map fun rule => { fromJson (toJson rule) with group := rule.group }, dialog.model.filterLogics⟩ := by
  intro dialog
  have sorted : Sorted dialog.model.rules := acts_sorted blank new_sound.sorted actions
  have same : dialog.model.rules.map (fun rule => { fromJson (toJson rule) with group := rule.group }) =
      sortByGroup (dialog.model.rules.map fun rule => { fromJson (toJson rule) with group := rule.group }) :=
    (List.mergeSort_of_pairwise (by simpa [Sorted, List.pairwise_map] using sorted)).symm
  show (⟨sortByGroup (documentRules ..), _⟩ : FilterRuleModel α) = _
  rw [documentRules_saved, ← same]

end Runs

end Qcm.FilterRuleProofs
