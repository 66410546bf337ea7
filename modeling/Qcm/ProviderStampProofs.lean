import Qcm.ProviderStamps

/-!
A stamp names one reading of the registry.  It is current only as long as the
provider it was issued for stays registered under its id and at the epoch it had;
a replacement drops it, and the counter never gives it out again.
-/

namespace Qcm.ProviderStamps

open Lib

variable {g h : Global} {id : Int} {object : Object} {stamp : Nat} {call : Call}

/-! ## What the calls change -/

@[simp] theorem invalidated_providers (g : Global) (old : Option Object) (epoch : Nat) :
    (invalidated g old epoch).providers = g.providers := by cases old <;> rfl

@[simp] theorem invalidated_stamps (g : Global) (old : Option Object) (epoch : Nat) :
    (invalidated g old epoch).providerStamps = g.providerStamps := by cases old <;> rfl

@[simp] theorem invalidated_next (g : Global) (old : Option Object) (epoch : Nat) :
    (invalidated g old epoch).nextProviderStamp = g.nextProviderStamp := by cases old <;> rfl

/-- The stamps after a new one for the epoch. -/
def Issued (g : Global) (id : Int) (epoch : Nat) : Global :=
  { g with
    nextProviderStamp := g.nextProviderStamp + 1
    providerStamps := g.providerStamps.insert id (epoch, g.nextProviderStamp + 1) }

theorem stamped_eq_some {epoch : Nat} (given : stamped g id epoch = some h) :
    (h = g ∧ ∃ stamp, g.providerStamps.lookup id = some (epoch, stamp)) ∨ h = Issued g id epoch := by
  unfold stamped at given
  split at given
  · rename_i known
    obtain ⟨⟨level, stamp⟩, present, same⟩ := (Option.any_eq_true ..).mp known
    cases eq_of_beq same
    exact .inl ⟨(Option.some.inj given).symm, stamp, present⟩
  · unfold issue at given
    split at given
    · exact .inr (Option.some.inj given).symm
    · cases given

theorem providerSnapshot_eq_some (given : (providerSnapshot g id).2 = some (object, stamp)) :
    g.poisoned = false ∧ g.providers.lookup id = some object ∧
      ((providerSnapshot g id).1 = g ∧ g.providerStamps.lookup id = some (g.epochs object, stamp) ∨
        stamp = g.nextProviderStamp + 1 ∧ (providerSnapshot g id).1 = Issued g id (g.epochs object)) := by
  unfold providerSnapshot at given ⊢
  split at given
  · cases given
  · rename_i free
    rw [if_neg free]
    refine ⟨Bool.not_eq_true _ ▸ free, ?_⟩
    unfold snapshotUnlocked at given ⊢
    split at given
    · cases given
    · rename_i provider registered
      cases outcome : stamped g id (g.epochs provider) with
      | none =>
        rw [outcome] at given
        cases given
      | some next =>
        rw [outcome] at given
        simp only [registered]
        rcases stamped_eq_some outcome with ⟨rfl, number, present⟩ | rfl
        · simp only [present, Option.map_some, Option.some.injEq, Prod.mk.injEq] at given
          obtain ⟨rfl, rfl⟩ := given
          exact ⟨rfl, .inl ⟨rfl, present⟩⟩
        · simp only [Issued, AList.lookup_insert, Option.map_some, Option.some.injEq, Prod.mk.injEq] at given
          obtain ⟨rfl, rfl⟩ := given
          exact ⟨rfl, .inr ⟨rfl, rfl⟩⟩

theorem providerSnapshot_leaves (g : Global) (id : Int) :
    (providerSnapshot g id).1 = g ∨ (providerSnapshot g id).1 = panicked g ∨
      ∃ epoch, (providerSnapshot g id).1 = Issued g id epoch := by
  unfold providerSnapshot
  split
  · exact .inl rfl
  · unfold snapshotUnlocked
    split
    · exact .inl rfl
    · rename_i provider registered
      cases outcome : stamped g id (g.epochs provider) with
      | none => exact .inr (.inl rfl)
      | some next =>
        rcases stamped_eq_some outcome with ⟨rfl, -⟩ | rfl
        · exact .inl rfl
        · exact .inr (.inr ⟨_, rfl⟩)

/-- What a call changes in the registry while the lock is not poisoned. -/
inductive Change (g : Global) : Call → Global → Prop where
  | none {call : Call} {h : Global} (providers : h.providers = g.providers) (stamps : h.providerStamps = g.providerStamps)
      (next : h.nextProviderStamp = g.nextProviderStamp) (spared : ∀ id, ¬ Replaces id g call) : Change g call h
  | replace {call : Call} {h : Global} (id : Int) (others : ∀ other, other ≠ id → h.providers.lookup other = g.providers.lookup other)
      (stamps : h.providerStamps = g.providerStamps.erase id) (next : h.nextProviderStamp = g.nextProviderStamp)
      (spared : ∀ other, other ≠ id → ¬ Replaces other g call) : Change g call h
  | issue (id : Int) (epoch : Nat) : Change g (.snapshot id) (Issued g id epoch)
  | panic {call : Call} : Change g call (panicked g)

theorem perform_change (free : g.poisoned = false) (call : Call) : Change g call (perform g call) := by
  have enters : ¬ g.poisoned = true := by simp [free]
  cases call with
  | add object epoch =>
    change Change g _ (addProvider g object epoch)
    rw [addProvider, if_neg enters]
    split
    · exact .panic
    · rename_i id registered
      refine .replace id (fun other apart => ?_) (by simp) (by simp) fun other apart same => ?_
      · rw [invalidated_providers]
        exact AList.lookup_insert_ne apart
      · exact apart (Option.some.inj (same.symm.trans registered))
  | remove id epoch =>
    change Change g _ (removeProvider g id epoch)
    rw [removeProvider, if_neg enters]
    refine .replace id (fun other apart => ?_) (by simp) (by simp) fun other apart same => apart same.symm
    rw [invalidated_providers]
    exact AList.lookup_erase_ne apart
  | snapshot id =>
    rcases providerSnapshot_leaves g id with same | same | ⟨epoch, same⟩
    · rw [perform, same]
      exact .none rfl rfl rfl fun _ replaced => replaced
    · rw [perform, same]
      exact .panic
    · rw [perform, same]
      exact .issue id epoch
  | setEpoch | setId => exact .none rfl rfl rfl fun _ => id

theorem perform_poisoned (poisoned : g.poisoned = true) (call : Call) : (perform g call).poisoned = true := by
  cases call <;> simp [perform, addProvider, removeProvider, providerSnapshot, poisoned]

theorem free_before (free : (perform g call).poisoned = false) : g.poisoned = false := by
  by_contra poisoned
  rw [perform_poisoned (by simpa using poisoned) call] at free
  cases free

/-- A stamp that is current after a call was current before it, of a provider that stays; or the call made it. -/
theorem perform_stamps {epoch : Nat} (free : g.poisoned = false)
    (present : (perform g call).providerStamps.lookup id = some (epoch, stamp)) :
    (g.providerStamps.lookup id = some (epoch, stamp) ∧ (perform g call).providers.lookup id = g.providers.lookup id ∧
        (¬ Replaces id g call ∨ (perform g call).poisoned = true)) ∨
      call = .snapshot id ∧ stamp = g.nextProviderStamp + 1 ∧ (perform g call).nextProviderStamp = stamp := by
  generalize after : perform g call = h at present
  have change := perform_change free call
  rw [after] at change
  cases change with
  | none providers stamps next spared =>
    rw [stamps] at present
    exact .inl ⟨present, by rw [providers], .inl (spared id)⟩
  | replace other others stamps next spared =>
    rw [stamps, Hash.lookup_erase] at present
    split at present
    · cases present
    · rename_i apart
      exact .inl ⟨present, others id apart, .inl (spared id apart)⟩
  | issue other level =>
    change (g.providerStamps.insert other _).lookup id = _ at present
    obtain ⟨same, ⟨⟩⟩ | ⟨-, present⟩ := Hash.lookup_insert_some present
    · exact .inr ⟨by rw [same], rfl, rfl⟩
    · exact .inl ⟨present, rfl, .inl fun replaced => replaced⟩
  | panic => exact .inl ⟨present, rfl, .inr rfl⟩

theorem perform_next (free : g.poisoned = false) (call : Call) :
    g.nextProviderStamp ≤ (perform g call).nextProviderStamp := by
  generalize after : perform g call = h
  have change := perform_change free call
  rw [after] at change
  cases change with
  | none _ _ next | replace _ _ _ next => exact Nat.le_of_eq next.symm
  | issue => exact Nat.le_succ _
  | panic => exact le_rfl

/-- The stamps that are current are of different ids, and none is ahead of the counter. -/
structure Ordered (g : Global) : Prop where
  bound : ∀ id epoch stamp, g.providerStamps.lookup id = some (epoch, stamp) → stamp ≤ g.nextProviderStamp
  distinct : ∀ id other epoch level stamp, g.providerStamps.lookup id = some (epoch, stamp) →
    g.providerStamps.lookup other = some (level, stamp) → id = other

theorem Ordered.perform (ordered : Ordered g) (free : g.poisoned = false) (call : Call) : Ordered (perform g call) := by
  refine ⟨fun id epoch stamp present => ?_, fun id other epoch level stamp present stored => ?_⟩
  · rcases perform_stamps free present with ⟨before, -⟩ | ⟨-, -, next⟩
    · exact Nat.le_trans (ordered.bound id epoch stamp before) (perform_next free call)
    · exact Nat.le_of_eq next.symm
  · rcases perform_stamps free present with ⟨before, -⟩ | ⟨rfl, rfl, -⟩
    · rcases perform_stamps free stored with ⟨also, -⟩ | ⟨rfl, rfl, -⟩
      · exact ordered.distinct id other epoch level stamp before also
      · exact absurd (ordered.bound id epoch _ before) (by omega)
    · rcases perform_stamps free stored with ⟨also, -⟩ | ⟨same, -⟩
      · exact absurd (ordered.bound other level _ also) (by omega)
      · cases same
        rfl

/-- The stamp that a snapshot of the run returned is current for what it returned, if for anything. -/
def Kept (trace : List (Global × Call)) (g : Global) : Prop :=
  ∀ earlier s id later object stamp, trace = earlier ++ (s, .snapshot id) :: later →
    (providerSnapshot s id).2 = some (object, stamp) → stamp ≤ g.nextProviderStamp ∧
      ∀ other epoch, g.providerStamps.lookup other = some (epoch, stamp) → other = id ∧ epoch = s.epochs object ∧
        g.providers.lookup id = some object ∧ ∀ entry ∈ later, ¬ Replaces id entry.1 entry.2

theorem Ordered.snapshot (ordered : Ordered g) (given : (providerSnapshot g id).2 = some (object, stamp)) :
    stamp ≤ (providerSnapshot g id).1.nextProviderStamp ∧ ∀ other epoch,
      (providerSnapshot g id).1.providerStamps.lookup other = some (epoch, stamp) →
        other = id ∧ epoch = g.epochs object ∧ (providerSnapshot g id).1.providers.lookup id = some object := by
  obtain ⟨-, registered, ⟨still, present⟩ | ⟨rfl, made⟩⟩ := providerSnapshot_eq_some given
  · rw [still]
    refine ⟨ordered.bound id _ stamp present, fun other epoch also => ?_⟩
    obtain rfl := ordered.distinct other id epoch _ stamp also present
    rw [present] at also
    cases also
    exact ⟨rfl, rfl, registered⟩
  · rw [made]
    refine ⟨le_rfl, fun other epoch present => ?_⟩
    change (g.providerStamps.insert id _).lookup other = _ at present
    obtain ⟨same, ⟨⟩⟩ | ⟨-, present⟩ := Hash.lookup_insert_some present
    · exact ⟨same.symm, rfl, registered⟩
    · exact absurd (ordered.bound other epoch _ present) (by omega)

theorem kept_of_run {ids : Object → Option Int} {epochs : Object → Nat} {trace : List (Global × Call)}
    (run : Runs.Steps Step (Global.new ids epochs) trace g) (free : g.poisoned = false) : Ordered g ∧ Kept trace g := by
  induction run with
  | done =>
    refine ⟨⟨fun id epoch stamp present => ?_, fun id other epoch level stamp present => ?_⟩, fun earlier s id later object
      stamp same => ?_⟩
    · cases present
    · cases present
    · simp at same
  | @snoc g h call trace before stepped ih =>
    cases stepped
    have entered := free_before free
    obtain ⟨ordered, kept⟩ := ih entered
    refine ⟨ordered.perform entered call, fun earlier s id later object stamp same given => ?_⟩
    obtain rfl | ⟨init, last, rfl⟩ := List.eq_nil_or_concat later
    · -- the snapshot is the last call
      obtain ⟨rfl, here⟩ := List.append_singleton_inj.mp same
      cases here
      obtain ⟨bound, current⟩ := ordered.snapshot given
      refine ⟨bound, fun other epoch present => ?_⟩
      obtain ⟨same, level, registered⟩ := current other epoch present
      exact ⟨same, level, registered, fun entry member => nomatch member⟩
    · have shorter : trace ++ [(g, call)] = (earlier ++ (s, .snapshot id) :: init) ++ [last] := by simpa using same
      obtain ⟨rfl, rfl⟩ := List.append_singleton_inj.mp shorter
      obtain ⟨bound, current⟩ := kept earlier s id init object stamp rfl given
      refine ⟨Nat.le_trans bound (perform_next entered call), fun other epoch present => ?_⟩
      rcases perform_stamps entered present with ⟨stored, providers, spared⟩ | ⟨-, new, -⟩
      · obtain ⟨rfl, level, registered, quiet⟩ := current other epoch stored
        refine ⟨rfl, level, providers.trans registered, fun entry member => ?_⟩
        rw [List.concat_eq_append] at member
        obtain old | rfl := Runs.mem_snoc member
        · exact quiet entry old
        · exact spared.resolve_right (by simp [free])
      · omega

/-- Two snapshots of a run that return the same stamp are of the same id and returned the same provider at the
same epoch, with no provider added or removed under the id between them; and the second has not made the stamp. -/
theorem stamps_are_aba_safe {ids : Object → Option Int} {epochs : Object → Nat} {trace : List (Global × Call)}
    (run : Runs.Steps Step (Global.new ids epochs) trace g) {earlier middle later : List (Global × Call)} {s t : Global}
    {first second : Int} {one two : Object} {stamp : Nat}
    (names : trace = earlier ++ (s, .snapshot first) :: middle ++ (t, .snapshot second) :: later)
    (given : (providerSnapshot s first).2 = some (one, stamp)) (again : (providerSnapshot t second).2 = some (two, stamp)) :
    second = first ∧ two = one ∧ t.epochs two = s.epochs one ∧ (∀ entry ∈ middle, ¬ Replaces first entry.1 entry.2) ∧
      ¬ Issues stamp t (.snapshot second) := by
  subst names
  obtain ⟨free, registered, found⟩ := providerSnapshot_eq_some again
  obtain ⟨-, kept⟩ := kept_of_run run.upto free
  obtain ⟨bound, current⟩ := kept earlier s first middle one stamp rfl given
  have old : ¬ t.nextProviderStamp < stamp := Nat.not_lt.mpr bound
  rcases found with ⟨-, present⟩ | ⟨rfl, -⟩
  · obtain ⟨rfl, level, also, quiet⟩ := current second _ present
    rw [registered] at also
    cases also
    exact ⟨rfl, rfl, level, quiet, fun ⟨_, _, new⟩ => old new⟩
  · exact absurd (Nat.lt_succ_self _) old

/-- Two snapshots of a provider, with another one's between them. -/
theorem stamps_are_aba_safe_for_two_providers :
    let start := Global.new (fun object => some object) fun _ => 0
    let g := perform (perform start (.add 1 0)) (.add 2 0)
    let t := perform (perform g (.snapshot 1)) (.snapshot 2)
    (1 : Int) = 1 ∧ 1 = 1 ∧ t.epochs 1 = g.epochs 1 ∧
      (∀ entry ∈ [(perform g (.snapshot 1), Call.snapshot 2)], ¬ Replaces 1 entry.1 entry.2) ∧
      ¬ Issues 1 t (.snapshot 1) := by
  intro start g t
  have filled : Runs.Steps Step start ([(start, .add 1 0)] ++ [(perform start (.add 1 0), .add 2 0)]) g :=
    .snoc (.snoc (.done start) rfl) rfl
  have read : Runs.Steps Step g ([(g, .snapshot 1)] ++ [(perform g (.snapshot 1), .snapshot 2)] ++ [(t, .snapshot 1)])
      (perform t (.snapshot 1)) := .snoc (.snoc (.snoc (.done g) rfl) rfl) rfl
  have names : [(start, Call.add 1 0)] ++ [(perform start (.add 1 0), .add 2 0)] ++ ([(g, .snapshot 1)] ++
      [(perform g (.snapshot 1), .snapshot 2)] ++ [(t, .snapshot 1)]) =
      [(start, .add 1 0), (perform start (.add 1 0), .add 2 0)] ++ (g, .snapshot 1) ::
        [(perform g (.snapshot 1), .snapshot 2)] ++ (t, .snapshot 1) :: [] := rfl
  exact stamps_are_aba_safe (filled.append read) names (show (providerSnapshot g 1).2 = some (1, 1) by decide)
    (show (providerSnapshot t 1).2 = some (1, 1) by decide)

end Qcm.ProviderStamps
