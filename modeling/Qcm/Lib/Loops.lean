import Qcm.Lib.Fallible

/-!
Loops that may fail, entry by entry: what every turn settles at the end of a
loop that went through, which entries cannot have met in it, and when a loop
goes through.
-/

namespace Qcm.Lib

universe u v w

variable {ε : Type u} {α : Type v} {β : Type w}

variable {entries : List β} {turn : α → β → Except ε α}

theorem forM_ok {check : β → Except ε PUnit} :
    entries.forM check = .ok ⟨⟩ ↔ ∀ entry ∈ entries, check entry = .ok ⟨⟩ := by
  induction entries with
  | nil => simp [List.forM, pure, Except.pure]
  | cons entry rest ih =>
    simp only [List.forM, bind_ok, List.mem_cons, forall_eq_or_imp, ih]
    exact ⟨fun ⟨_, first, others⟩ => ⟨first, others⟩, fun ⟨first, others⟩ => ⟨_, first, others⟩⟩

variable {R : β → β → Prop} {γ : Type w} {Fits : β → γ → Prop} {values : List γ}

/-- What a loop that went through has carried along: a fact about the entries it
has met so far and the state it is in. -/
theorem foldlM_tracks {first last : α} (Inv : List β → α → Prop)
    (done : entries.foldlM turn first = .ok last) (apart : entries.Pairwise R) (base : Inv [] first)
    (step : ∀ entry ∈ entries, ∀ past before after, (∀ other ∈ past, R other entry) → Inv past before →
      turn before entry = .ok after → Inv (past ++ [entry]) after) : Inv entries last := by
  suffices rest : ∀ past rest first, past ++ rest = entries → Inv past first → rest.foldlM turn first = .ok last →
      Inv entries last from rest [] entries first rfl base done
  intro past rest
  induction rest generalizing past with
  | nil =>
    intro first whole held done
    cases done
    rw [List.append_nil] at whole
    exact whole ▸ held
  | cons entry rest ih =>
    intro first whole held done
    obtain ⟨middle, turned, later⟩ := bind_ok.mp done
    have ahead : ∀ other ∈ past, R other entry := fun other member =>
      (List.pairwise_append.mp (whole ▸ apart)).2.2 other member entry (by simp)
    exact ih (past ++ [entry]) middle (by simpa using whole)
      (step entry (by rw [← whole]; simp) past first middle ahead held turned) later

/-- A loop goes through when every turn does, given what the earlier ones left. -/
theorem foldlM_goes {first : α} (Inv : List β → α → Prop) (apart : entries.Pairwise R) (base : Inv [] first)
    (step : ∀ entry ∈ entries, ∀ past before, (∀ other ∈ past, R other entry) → Inv past before →
      ∃ after, turn before entry = .ok after ∧ Inv (past ++ [entry]) after) :
    ∃ last, entries.foldlM turn first = .ok last ∧ Inv entries last := by
  suffices rest : ∀ past rest first, past ++ rest = entries → Inv past first →
      ∃ last, rest.foldlM turn first = .ok last ∧ Inv entries last from rest [] entries first rfl base
  intro past rest
  induction rest generalizing past with
  | nil =>
    intro first whole held
    rw [List.append_nil] at whole
    exact ⟨first, rfl, whole ▸ held⟩
  | cons entry rest ih =>
    intro first whole held
    have ahead : ∀ other ∈ past, R other entry := fun other member =>
      (List.pairwise_append.mp (whole ▸ apart)).2.2 other member entry (by simp)
    obtain ⟨middle, turned, next⟩ := step entry (by rw [← whole]; simp) past first ahead held
    obtain ⟨last, gone, final⟩ := ih (past ++ [entry]) middle (by simpa using whole) next
    exact ⟨last, by rw [List.foldlM_cons, turned]; exact gone, final⟩

/-- Every collected value is some entry's. -/
theorem exists_of_forall₂ {value : γ}
    (each : List.Forall₂ Fits entries values) (member : value ∈ values) : ∃ entry ∈ entries, Fits entry value := by
  induction each with
  | nil => cases member
  | cons fits _ ih =>
    rcases List.mem_cons.mp member with rfl | member
    · exact ⟨_, .head _, fits⟩
    · obtain ⟨entry, there, fits⟩ := ih member
      exact ⟨entry, .tail _ there, fits⟩

/-- Every entry has its value. -/
theorem value_of_forall₂ {entry : β}
    (each : List.Forall₂ Fits entries values) (member : entry ∈ entries) : ∃ value ∈ values, Fits entry value :=
  exists_of_forall₂ each.flip member

theorem forall₂_imp_mem {Also : β → γ → Prop} (each : List.Forall₂ Fits entries values)
    (step : ∀ entry ∈ entries, ∀ value, Fits entry value → Also entry value) : List.Forall₂ Also entries values := by
  induction each with
  | nil => exact .nil
  | cons fits _ ih =>
    exact .cons (step _ (by simp) _ fits) (ih fun entry member => step entry (.tail _ member))

/-- Values that the entries settle are the same values. -/
theorem map_of_forall₂ {δ : Type w} {Also : β → δ → Prop} {read : δ → γ}
    {others : List δ} (each : List.Forall₂ Fits entries values) (also : List.Forall₂ Also entries others)
    (one : ∀ entry value other, Fits entry value → Also entry other → read other = value) : others.map read = values := by
  induction each generalizing others with
  | nil =>
    cases also
    rfl
  | cons fits _ ih =>
    obtain _ | ⟨first, rest⟩ := also
    rw [List.map_cons, ih rest, one _ _ _ fits first]

/-- Entries with values of their own, no value twice, are apart. -/
theorem pairwise_of_forall₂ (each : List.Forall₂ Fits entries values) (distinct : values.Nodup)
    (one : ∀ entry value other, Fits entry value → Fits entry other → value = other) :
    entries.Pairwise fun entry other => ∀ value, Fits entry value → ¬Fits other value := by
  induction each with
  | nil => exact .nil
  | @cons entry first entries values fits others ih =>
    obtain ⟨apart, distinct⟩ := List.nodup_cons.mp distinct
    refine .cons (fun other member value here there => apart ?_) (ih distinct)
    obtain ⟨held, member', also⟩ := value_of_forall₂ others member
    rw [one entry first value fits here, one other value held there also]
    exact member'

/-- Of entries that are apart, two with one value are the same. -/
theorem one_of_pairwise (apart : entries.Pairwise fun entry other => ∀ value, Fits entry value → ¬Fits other value) :
    ∀ entry ∈ entries, ∀ other ∈ entries, entry = other ∨ ∀ value, Fits entry value → ¬Fits other value := by
  induction apart with
  | nil => simp
  | @cons first rest ahead _ ih =>
    intro entry member other also
    rcases List.mem_cons.mp member with rfl | earlier <;> rcases List.mem_cons.mp also with rfl | later
    · exact .inl rfl
    · exact .inr (ahead other later)
    · exact .inr fun value here there => ahead entry earlier value there here
    · exact ih entry earlier other later

/-- A loop that collects one value for each entry and refuses a value twice. -/
theorem foldlM_distinct (turn : List γ → β → Except ε (List γ))
    (each : ∀ seen entry after, turn seen entry = .ok after ↔
      ∃ value, Fits entry value ∧ value ∉ seen ∧ after = seen ++ [value]) (entries : List β) (seen after : List γ) :
    entries.foldlM turn seen = .ok after ↔
      ∃ values, after = seen ++ values ∧ List.Forall₂ Fits entries values ∧ values.Nodup ∧
        ∀ value ∈ values, value ∉ seen := by
  induction entries generalizing seen with
  | nil =>
    constructor
    · rintro ⟨⟩
      exact ⟨[], by simp, .nil, List.nodup_nil, by simp⟩
    · rintro ⟨values, rfl, fits, -, -⟩
      cases fits
      simp [pure, Except.pure]
  | cons entry rest ih =>
    rw [List.foldlM_cons, bind_ok]
    constructor
    · rintro ⟨middle, turned, later⟩
      obtain ⟨value, fits, fresh, rfl⟩ := (each seen entry middle).mp turned
      obtain ⟨values, rfl, others, distinct, new⟩ := (ih (seen ++ [value])).mp later
      refine ⟨value :: values, by simp, .cons fits others, List.nodup_cons.mpr ⟨fun member => ?_, distinct⟩, ?_⟩
      · exact new value member (by simp)
      · simp only [List.mem_cons, forall_eq_or_imp]
        exact ⟨fresh, fun other member old => new other member (by simp [old])⟩
    · rintro ⟨values, rfl, fits, distinct, new⟩
      obtain _ | ⟨fits, others⟩ := fits
      rename_i value values
      obtain ⟨apart, distinct⟩ := List.nodup_cons.mp distinct
      have first : turn seen entry = .ok (seen ++ [value]) :=
        (each seen entry _).mpr ⟨value, fits, new value (by simp), rfl⟩
      have later : rest.foldlM turn (seen ++ [value]) = .ok (seen ++ value :: values) :=
        (ih (seen ++ [value])).mpr ⟨values, by simp, others, distinct, fun other member old => by
        rcases List.mem_append.mp old with old | same
        · exact new other (by simp [member]) old
        · exact apart (List.mem_singleton.mp same ▸ member)⟩
      exact ⟨_, first, later⟩

/-! Loops that note the key of each entry and refuse a key twice. -/

section Keyed

variable {κ : Type w} {first : α}

/-- What a turn settles for its entry is settled when the loop is through, as
turns with other keys leave it alone. -/
theorem foldlM_settles {turn : α × List κ → β → Except ε (α × List κ)} {seen : List κ} {after : α × List κ}
    (Good : α × List κ → Prop) (Settled : α → β → κ → Prop)
    (done : entries.foldlM turn (first, seen) = .ok after) (base : Good (first, seen))
    (step : ∀ state seen entry next, Good (state, seen) → turn (state, seen) entry = .ok next → ∃ key, key ∉ seen ∧
      next.2 = key :: seen ∧ Good next ∧ Settled next.1 entry key ∧ ∀ other held, held ≠ key →
      Settled state other held → Settled next.1 other held) :
    Good after ∧ ∃ keys, List.Forall₂ (Settled after.1) entries keys ∧ keys.Nodup ∧
      after.2 = keys.reverse ++ seen ∧ ∀ key ∈ keys, key ∉ seen := by
  suffices rest : ∀ entries first seen, entries.foldlM turn (first, seen) = .ok after → Good (first, seen) →
      Good after ∧ ∃ keys, List.Forall₂ (Settled after.1) entries keys ∧ keys.Nodup ∧
        after.2 = keys.reverse ++ seen ∧ (∀ key ∈ keys, key ∉ seen) ∧
        ∀ other held, held ∉ keys → Settled first other held → Settled after.1 other held by
    obtain ⟨good, keys, each, distinct, noted, fresh, -⟩ := rest entries first seen done base
    exact ⟨good, keys, each, distinct, noted, fresh⟩
  intro entries
  induction entries with
  | nil =>
    rintro first seen ⟨⟩ good
    exact ⟨good, [], .nil, List.nodup_nil, rfl, by simp, fun _ _ _ => id⟩
  | cons entry rest ih =>
    intro first seen done good
    obtain ⟨⟨next, noted⟩, turned, later⟩ := bind_ok.mp done
    obtain ⟨key, new, rfl, good, own, kept⟩ := step first seen entry _ good turned
    obtain ⟨last, keys, each, distinct, noted, fresh, others⟩ := ih next (key :: seen) later good
    have apart : key ∉ keys := fun member => fresh key member (by simp)
    refine ⟨last, key :: keys, .cons (others entry key apart own) each, List.nodup_cons.mpr ⟨apart, distinct⟩,
      by simp [noted], ?_, fun other held away settled => ?_⟩
    · simp only [List.mem_cons, forall_eq_or_imp]
      exact ⟨new, fun other member old => fresh other member (by simp [old])⟩
    · simp only [List.mem_cons, not_or] at away
      exact others other held away.2 (kept other held away.1 settled)

/-- The loop goes through once more where every entry's turn does. -/
theorem foldlM_again (turn : α × List κ → β → Except ε (α × List κ)) {keys seen : List κ}
    {Fits : β → κ → Prop} (Inv : List κ → α → Prop) (each : List.Forall₂ Fits entries keys)
    (distinct : keys.Nodup) (fresh : ∀ key ∈ keys, key ∉ seen) (base : Inv seen first)
    (step : ∀ state seen entry key, Fits entry key → key ∉ seen → Inv seen state →
      ∃ next, turn (state, seen) entry = .ok (next, key :: seen) ∧ Inv (key :: seen) next) :
    ∃ last, entries.foldlM turn (first, seen) = .ok (last, keys.reverse ++ seen) ∧ Inv (keys.reverse ++ seen) last := by
  induction each generalizing first seen with
  | nil => exact ⟨first, rfl, base⟩
  | @cons entry key entries keys fits each ih =>
    obtain ⟨apart, distinct⟩ := List.nodup_cons.mp distinct
    obtain ⟨next, turned, held⟩ := step first seen entry key fits (fresh key (by simp)) base
    have ahead : ∀ other ∈ keys, other ∉ key :: seen := fun other member => by
      have away : other ≠ key := fun same => apart (same ▸ member)
      simp [away, fresh other (by simp [member])]
    obtain ⟨last, gone, final⟩ := ih distinct ahead held
    refine ⟨last, ?_, by simpa using final⟩
    rw [List.foldlM_cons, turned, List.reverse_cons, List.append_assoc]
    exact gone

end Keyed

end Qcm.Lib
