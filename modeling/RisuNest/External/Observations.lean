import RisuNest.External.Cleanup
import RisuNest.Lib.Streak

/-! How long a target was unreachable: the age of an observation counts from the first of the
longest run of calls that all saw the target, with nothing between them (`gc_store.rs`). -/
namespace RisuNest.External
open Wire

/-- A target as one recorded call saw it. -/
structure Sighting where
  identity : String
  now : ℕ
  deriving DecidableEq

/-- The same target again, by a clock that did not go backwards. -/
def Sighting.Follows (a b : Sighting) : Prop := a.identity = b.identity ∧ a.now ≤ b.now

instance : DecidableRel Sighting.Follows := fun a b =>
  inferInstanceAs (Decidable (a.identity = b.identity ∧ a.now ≤ b.now))

def GcOp.connectionId : GcOp → String
  | .record connectionId .. | .forget connectionId _ | .forgetConnection connectionId => connectionId

/-- What `record_observations` takes: a time SQLite can hold, and targets with a name and a hash. -/
def Accepted (unreachable : Table String String) (now : ℕ) : Prop :=
  now < 2^63 ∧ ∀ row ∈ unreachable.rows, row.1 ≠ "" ∧ isLowerHex256 row.2 = true

instance (unreachable : Table String String) (now : ℕ) : Decidable (Accepted unreachable now) :=
  inferInstanceAs (Decidable (_ ∧ _))

/-- What an operation is to one target of a connection: a call that is taken sees the target or not,
an invalidation loses it, and nothing else concerns it. -/
def GcOp.event (connectionId target : String) : GcOp → Option (Option Sighting)
  | .record c unreachable now =>
    if c = connectionId ∧ Accepted unreachable now
      then some ((unreachable.get target).map fun identity => ⟨identity,now⟩) else none
  | .forget c t => if c = connectionId ∧ t = target then some none else none
  | .forgetConnection c => if c = connectionId then some none else none

/-- What a target of a connection went through. -/
def history (connectionId target : String) (ops : List GcOp) : List (Option Sighting) :=
  ops.filterMap (GcOp.event connectionId target)

@[simp] lemma history_concat (connectionId target : String) (ops : List GcOp) (op : GcOp) :
    history connectionId target (ops ++ [op]) =
      history connectionId target ops ++ (op.event connectionId target).toList := by
  unfold history
  cases h : op.event connectionId target <;> simp [h]

/-- The observation that a run of sightings leaves. -/
def observationOf (ends : Sighting × Sighting) : Observation :=
  ⟨ends.2.identity,ends.1.now,ends.2.now⟩

namespace GcStore

/-- Every row passes the check a call makes before it uses one. -/
def Ordered (s : GcStore) : Prop := ∀ k o, s.get k = some o → o.firstUnreachableMs ≤ o.lastObservedMs

/-- The rows are what their targets went through. -/
def Tracks (s : GcStore) (ops : List GcOp) : Prop :=
  ∀ connectionId target, s.get (connectionId,target) =
    (Streak.after Sighting.Follows (history connectionId target ops)).map observationOf

section
variable {s : GcStore} {connectionId : String} {unreachable : Table String String} {now : ℕ}
  {recorded : GcStore × Table String ℕ} {ops : List GcOp}

lemma observe_eq_ok {kept kept' : GcStore × Table String ℕ} {row : String × String} :
    observe s connectionId unreachable now kept row = .ok kept' ↔
      (row.1 ≠ "" ∧ isLowerHex256 row.2 = true) ∧
        kept' = (kept.1.upsert (connectionId,row.1)
            ⟨row.2,s.firstSeen connectionId unreachable now row.1,now⟩,
          kept.2.upsert row.1 (s.firstSeen connectionId unreachable now row.1)) := by
  unfold observe
  rw [bind_eq_ok]
  constructor
  · rintro ⟨_, hrow, h⟩
    cases h
    exact ⟨require_eq_ok.mp hrow,rfl⟩
  · rintro ⟨hrow, rfl⟩
    exact ⟨_,require_eq_ok.mpr hrow,rfl⟩

lemma firstSeen_le (hs : s.Ordered) (target : String) :
    s.firstSeen connectionId unreachable now target ≤ now := by
  unfold firstSeen
  cases ho : s.get (connectionId,target) with
  | none => exact Nat.le_refl now
  | some o =>
    have hle := hs _ _ ho
    simp only [Option.bind_some, keptAge]
    split_ifs with h
    · simp only [Option.getD_some]
      omega
    · exact Nat.le_refl now

lemma foldlM_observe {rows : List (String × String)} (hn : (rows.map Prod.fst).Nodup)
    {kept : GcStore × Table String ℕ}
    (h : rows.foldlM (observe s connectionId unreachable now) kept = .ok recorded) :
    (∀ row ∈ rows, row.1 ≠ "" ∧ isLowerHex256 row.2 = true) ∧
    (∀ k, recorded.1.get k = if k.1 = connectionId ∧ k.2 ∈ rows.map Prod.fst
      then (Table.lookup k.2 rows).map fun identity =>
        ⟨identity,s.firstSeen connectionId unreachable now k.2,now⟩
      else kept.1.get k) ∧
    ∀ target, recorded.2.get target = if target ∈ rows.map Prod.fst
      then some (s.firstSeen connectionId unreachable now target) else kept.2.get target := by
  induction rows generalizing kept with
  | nil =>
    cases h
    simp
  | cons row rows ih =>
    rw [List.map_cons, List.nodup_cons] at hn
    obtain ⟨m, hm, h⟩ := foldlM_cons_eq_ok.mp h
    obtain ⟨hrow, rfl⟩ := observe_eq_ok.mp hm
    obtain ⟨hvalid, hget, hage⟩ := ih hn.2 h
    refine ⟨List.forall_mem_cons.mpr ⟨hrow,hvalid⟩,?_,?_⟩
    · intro k
      rw [hget]
      obtain ⟨c, target⟩ := k
      by_cases ht : target = row.1
      · subst ht
        by_cases hc : c = connectionId <;> simp [-List.mem_map, hc, hn.1, Table.lookup]
      · by_cases hc : c = connectionId <;> simp [-List.mem_map, hc, ht, Ne.symm ht, Table.lookup]
    · intro target
      rw [hage]
      by_cases ht : target = row.1 <;> simp [-List.mem_map, ht, hn.1]

/-- The rows and ages after a call that is taken. -/
theorem recordObservations_get
    (h : s.recordObservations connectionId unreachable now = .ok recorded) :
    Accepted unreachable now ∧
    (∀ k, recorded.1.get k = if k.1 = connectionId
      then (unreachable.get k.2).map fun identity =>
        ⟨identity,s.firstSeen connectionId unreachable now k.2,now⟩
      else s.get k) ∧
    ∀ target, recorded.2.get target = (unreachable.get target).map fun _ =>
      s.firstSeen connectionId unreachable now target := by
  unfold recordObservations at h
  obtain ⟨_, hnow, h⟩ := bind_eq_ok.mp h
  obtain ⟨_, -, h⟩ := bind_eq_ok.mp h
  obtain ⟨hvalid, hget, hage⟩ := foldlM_observe unreachable.nodup h
  refine ⟨⟨require_eq_ok.mp hnow,hvalid⟩,?_,?_⟩
  · intro k
    rw [hget]
    by_cases hc : k.1 = connectionId
    · by_cases hk : k.2 ∈ unreachable.rows.map Prod.fst
      · rw [if_pos ⟨hc,hk⟩, if_pos hc]
        rfl
      · rw [if_neg fun hn => hk hn.2, if_pos hc, Table.get_eq_none.mpr hk, Table.get_deleteWhere]
        cases s.get k <;> simp [hc]
    · rw [if_neg fun hn => hc hn.1, if_neg hc, Table.get_deleteWhere]
      cases s.get k <;> simp [hc]
  · intro target
    rw [hage]
    by_cases hk : target ∈ unreachable.rows.map Prod.fst
    · obtain ⟨row, hrow, rfl⟩ := List.mem_map.mp hk
      have hsome : unreachable.get row.1 = some row.2 := Table.get_eq_some.mpr hrow
      rw [if_pos hk, hsome]
      rfl
    · rw [if_neg hk, Table.get_eq_none.mpr hk]
      rfl

/-- A call is taken exactly when its time and all of its targets are. -/
theorem recordObservations_isOk (hs : s.Ordered) (connectionId : String)
    (unreachable : Table String String) (now : ℕ) :
    (s.recordObservations connectionId unreachable now).isOk = true ↔ Accepted unreachable now := by
  constructor
  · intro h
    obtain ⟨recorded, h⟩ := exists_eq_ok h
    exact (recordObservations_get h).1
  · rintro ⟨hnow, hrows⟩
    have hany : s.any (fun key o => decide (key.1 = connectionId) &&
        decide (o.lastObservedMs < o.firstUnreachableMs)) = false := by
      rw [Table.any_eq_false]
      intro k o ho
      have := hs k o ho
      simp only [Bool.and_eq_false_iff, decide_eq_false_iff_not]
      omega
    obtain ⟨recorded, h, -⟩ := foldlM_total
      (f := observe s connectionId unreachable now) (I := fun _ _ => True) (l := unreachable.rows)
      (s := (s.deleteWhere (fun key _ => decide (key.1 = connectionId)),.empty))
      (fun done row rest kept hl _ => ⟨_,observe_eq_ok.mpr ⟨hrows row (by simp [hl]),rfl⟩,trivial⟩)
      trivial
    have hok : s.recordObservations connectionId unreachable now = .ok recorded :=
      bind_eq_ok.mpr ⟨(),require_eq_ok.mpr hnow,bind_eq_ok.mpr ⟨(),require_eq_ok.mpr hany,h⟩⟩
    rw [hok]
    rfl

lemma after_record (hs : s.Ordered) (k : String × String) :
    (s.after (.record connectionId unreachable now)).get k =
      if connectionId = k.1 ∧ Accepted unreachable now
        then (unreachable.get k.2).map fun identity =>
          ⟨identity,s.firstSeen connectionId unreachable now k.2,now⟩
        else s.get k := by
  have hiff := recordObservations_isOk hs connectionId unreachable now
  cases h : s.recordObservations connectionId unreachable now with
  | error e =>
    rw [h] at hiff
    have hno : ¬ Accepted unreachable now := fun ha => by cases hiff.mpr ha
    simp [after, h, hno]
  | ok recorded =>
    obtain ⟨ha, hget, -⟩ := recordObservations_get h
    simp only [after, h, hget, ha, and_true]
    by_cases hc : connectionId = k.1
    · simp [hc]
    · simp [hc, Ne.symm hc]

lemma Ordered.after (hs : s.Ordered) (op : GcOp) : (s.after op).Ordered := by
  intro k o ho
  cases op with
  | record c u t =>
    rw [after_record hs] at ho
    split_ifs at ho with h
    · obtain ⟨identity, -, rfl⟩ := Option.map_eq_some_iff.mp ho
      exact firstSeen_le hs k.2
    · exact hs k o ho
  | forget c t =>
    simp only [GcStore.after, forgetObservation, Table.get_erase] at ho
    split_ifs at ho
    exact hs k o ho
  | forgetConnection c => exact hs k o (Table.get_deleteWhere_eq_some.mp ho).1

lemma Tracks.firstSeen (h : s.Tracks ops) (connectionId : String) (now : ℕ)
    {target identity : String} (hu : unreachable.get target = some identity) :
    some ⟨identity,s.firstSeen connectionId unreachable now target,now⟩ =
      (Streak.step Sighting.Follows
        (Streak.after Sighting.Follows (history connectionId target ops))
        (some ⟨identity,now⟩)).map observationOf := by
  rw [GcStore.firstSeen, h]
  cases Streak.after Sighting.Follows (history connectionId target ops) with
  | none => rfl
  | some e =>
    have hiff : (some identity = some e.2.identity ∧ e.2.now ≤ now) ↔
        Sighting.Follows e.2 ⟨identity,now⟩ := by
      simp [Sighting.Follows, eq_comm]
    simp only [Option.map_some, Option.bind_some, keptAge, observationOf, hu, hiff, Streak.step,
      Option.elim_some]
    split_ifs <;> rfl

lemma Tracks.after (h : s.Tracks ops) (hs : s.Ordered) (op : GcOp) :
    (s.after op).Tracks (ops ++ [op]) := by
  intro connectionId target
  rw [history_concat]
  cases op with
  | record c u t =>
    rw [after_record hs]
    by_cases hc : c = connectionId ∧ Accepted u t
    · have hevent : GcOp.event connectionId target (.record c u t) =
          some ((u.get target).map fun identity => ⟨identity,t⟩) := if_pos hc
      rw [if_pos hc, hevent, Option.toList_some, Streak.after_concat]
      obtain ⟨rfl, -⟩ := hc
      cases hu : u.get target with
      | none => rfl
      | some identity => exact h.firstSeen c t hu
    · have hevent : GcOp.event connectionId target (.record c u t) = none := if_neg hc
      rw [if_neg hc, hevent, Option.toList_none, List.append_nil]
      exact h connectionId target
  | forget c t =>
    simp only [GcStore.after, forgetObservation, Table.get_erase, Prod.mk.injEq]
    by_cases hc : c = connectionId ∧ t = target
    · obtain ⟨rfl, rfl⟩ := hc
      simp [GcOp.event, Streak.step]
    · have hne : ¬ (connectionId = c ∧ target = t) := fun he => hc ⟨he.1.symm,he.2.symm⟩
      simpa [GcOp.event, hc, hne] using h connectionId target
  | forgetConnection c =>
    simp only [GcStore.after, forgetConnection, Table.get_deleteWhere]
    by_cases hc : c = connectionId
    · subst hc
      simp [GcOp.event, Streak.step]
    · rw [h connectionId target]
      cases ho : Streak.after Sighting.Follows (history connectionId target ops) <;>
        simp [GcOp.event, hc, ho, Ne.symm hc]

theorem tracks_run (ops : List GcOp) :
    (ops.foldl GcStore.after .empty).Tracks ops ∧ (ops.foldl GcStore.after .empty).Ordered := by
  induction ops using List.reverseRecOn with
  | nil => exact ⟨fun _ _ => rfl,fun _ _ ho => by cases ho⟩
  | append_singleton ops op ih =>
    rw [List.foldl_append]
    exact ⟨ih.1.after ih.2 op,ih.2.after op⟩

lemma after_other (hs : s.Ordered) (op : GcOp) {k : String × String} (hk : op.connectionId ≠ k.1) :
    (s.after op).get k = s.get k := by
  cases op with
  | record c u t =>
    rw [after_record hs]
    exact if_neg fun h => hk h.1
  | forget c t =>
    simp only [GcStore.after, forgetObservation, Table.get_erase]
    exact if_neg fun h => hk (congrArg Prod.fst h).symm
  | forgetConnection c =>
    have hne : k.1 ≠ c := fun h => hk h.symm
    simp only [GcStore.after, forgetConnection, Table.get_deleteWhere]
    cases s.get k <;> simp [hne]

/-- After any run of operations, a call is taken exactly when its time and targets are. The age it
returns for a target counts from the earliest call of the longest run of taken calls of this
connection, up to this one, that all saw the target with this identity at times that never went
backwards, with no invalidation of the target between them. A call that fails changes nothing, and
no operation changes another connection's rows. -/
theorem ages_are_continuous (ops : List GcOp) (connectionId : String)
    (unreachable : Table String String) (now : ℕ) :
    let s := ops.foldl GcStore.after .empty
    let call := GcOp.record connectionId unreachable now
    ((s.recordObservations connectionId unreachable now).isOk = true ↔ Accepted unreachable now) ∧
    (∀ recorded, s.recordObservations connectionId unreachable now = .ok recorded →
      ∀ target first, recorded.2.get target = some first ↔
        ∃ earliest run, unreachable.contains target = true ∧
          LongestRun Sighting.Follows (history connectionId target (ops ++ [call]))
            (earliest :: run) ∧ earliest.now = first) ∧
    (∀ e, s.recordObservations connectionId unreachable now = .error e → s.after call = s) ∧
    ∀ (op : GcOp) k, op.connectionId ≠ k.1 → (s.after op).get k = s.get k := by
  intro s call
  obtain ⟨htracks, hordered⟩ := tracks_run ops
  refine ⟨recordObservations_isOk hordered connectionId unreachable now,?_,?_,fun op k hk => after_other hordered op hk⟩
  · intro recorded h target first
    obtain ⟨ha, -, hage⟩ := recordObservations_get h
    obtain ⟨run, hrun, hends⟩ := Streak.exists_longestRun Sighting.Follows
      (history connectionId target (ops ++ [call]))
    rw [hage]
    cases hu : unreachable.get target with
    | none =>
      have hc : unreachable.contains target = false := Table.contains_eq_false.mpr hu
      simp [hc]
    | some identity =>
      have hc : unreachable.contains target = true := Table.contains_iff.mpr ⟨identity,hu⟩
      have hhistory : history connectionId target (ops ++ [call]) =
          history connectionId target ops ++ [some ⟨identity,now⟩] := by
        simp [call, GcOp.event, ha, hu]
      have hfirst := htracks.firstSeen connectionId now hu
      rw [← Streak.after_concat, ← hhistory, hends] at hfirst
      obtain ⟨e, he, ho⟩ := Option.map_eq_some_iff.mp hfirst.symm
      have hseen : e.1.now = s.firstSeen connectionId unreachable now target :=
        congrArg Observation.firstUnreachableMs ho
      have hhead := Streak.head?_of_ends he
      simp only [Option.map_some, Option.some.injEq, hc, true_and, ← hseen]
      constructor
      · intro hf
        obtain ⟨rest, rfl⟩ := List.head?_eq_some_iff.mp hhead
        exact ⟨e.1,rest,hrun,hf⟩
      · rintro ⟨earliest, rest, hother, rfl⟩
        have heq := hother.unique hrun
        rw [← heq, List.head?_cons] at hhead
        cases hhead
        rfl
  · intro e h
    simp [call, GcStore.after, h]

end
end GcStore
end RisuNest.External
