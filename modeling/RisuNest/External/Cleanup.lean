import RisuNest.External.SurveyEnds
import RisuNest.Wire.Sizes

/-! Cleanup never selects live data: what a survey selects no root names, and every run since it
was first seen unreachable, a grace period ago, saw it so. -/
namespace RisuNest.External
open Wire

/-! ### Runs of observations -/

/-- What changes the observations. -/
inductive GcOp
  | record (connectionId : String) (unreachable : Table String String) (now : ℕ)
  | forget (connectionId target : String)
  | forgetConnection (connectionId : String)

namespace GcStore

/-- The observations after an operation. One that fails leaves them. -/
def after (s : GcStore) : GcOp → GcStore
  | .record connectionId unreachable now =>
    match s.recordObservations connectionId unreachable now with
    | .ok recorded => recorded.1
    | .error _ => s
  | .forget connectionId target => s.forgetObservation connectionId target
  | .forgetConnection connectionId => s.forgetConnection connectionId

/-- The runs of a connection whose observations were recorded, with their times. -/
def runs (connectionId : String) : GcStore → List GcOp → List (Table String String × ℕ)
  | _, [] => []
  | s, op :: ops =>
    (match op with
    | .record c unreachable now =>
      if c = connectionId ∧ (s.recordObservations c unreachable now).isOk
        then [(unreachable,now)] else []
    | .forget .. | .forgetConnection .. => []) ++ runs connectionId (s.after op) ops

/-- Every run from one at this time on saw the target with this identity. -/
def SeenSince (runs : List (Table String String × ℕ)) (target identity : String) (first : ℕ) :
    Prop :=
  ∃ before u rest, runs = before ++ (u,first) :: rest ∧
    ∀ r ∈ (u,first) :: rest, r.1.get target = some identity

/-- The age of every observation is that of the first of the runs that saw it. -/
def Aged (connectionId : String) (s : GcStore) (runs : List (Table String String × ℕ)) : Prop :=
  ∀ target o, s.get (connectionId,target) = some o →
    SeenSince runs target o.identity o.firstUnreachableMs

section
variable {s : GcStore} {connectionId : String} {unreachable : Table String String} {now : ℕ}
  {recorded : GcStore × Table String ℕ} {runs : List (Table String String × ℕ)}

/-- When a target that is seen now was first seen. -/
def firstSeen (s : GcStore) (connectionId : String) (unreachable : Table String String) (now : ℕ)
    (target : String) : ℕ :=
  ((s.get (connectionId,target)).bind (keptAge unreachable now target)).getD now

lemma recordObservations_eq_ok
    (h : s.recordObservations connectionId unreachable now = .ok recorded) :
    (∀ k, k.1 ≠ connectionId → recorded.1.get k = s.get k) ∧
    (∀ target o, recorded.1.get (connectionId,target) = some o →
      unreachable.get target = some o.identity ∧
        o.firstUnreachableMs = s.firstSeen connectionId unreachable now target) ∧
    ∀ target first, recorded.2.get target = some first →
      first = s.firstSeen connectionId unreachable now target := by
  unfold recordObservations at h
  obtain ⟨_, -, h⟩ := bind_eq_ok.mp h
  obtain ⟨_, -, h⟩ := bind_eq_ok.mp h
  have key : (∀ k, k.1 ≠ connectionId → recorded.1.get k = s.get k) ∧
      (∀ target o, recorded.1.get (connectionId,target) = some o →
        (target,o.identity) ∈ unreachable.rows ∧
          o.firstUnreachableMs = s.firstSeen connectionId unreachable now target) ∧
      ∀ target first, recorded.2.get target = some first →
        first = s.firstSeen connectionId unreachable now target := by
    refine foldlM_induct (I := fun (rows : List (String × String))
        (kept : GcStore × Table String ℕ) =>
      (∀ k, k.1 ≠ connectionId → kept.1.get k = s.get k) ∧
      (∀ target o, kept.1.get (connectionId,target) = some o → (target,o.identity) ∈ rows ∧
        o.firstUnreachableMs = s.firstSeen connectionId unreachable now target) ∧
      ∀ target first, kept.2.get target = some first →
        first = s.firstSeen connectionId unreachable now target) ?_ ⟨?_,?_,?_⟩ h
    · rintro done kept row kept' ⟨hother, hrow, hage⟩ hk
      obtain ⟨_, -, hk⟩ := bind_eq_ok.mp hk
      cases hk
      refine ⟨?_,?_,?_⟩
      · intro k hne
        rw [Table.get_upsert, if_neg fun he => hne (congrArg Prod.fst he)]
        exact hother k hne
      · intro target o ho
        rw [Table.get_upsert] at ho
        split_ifs at ho with he
        · cases ho
          obtain rfl := congrArg Prod.snd he
          exact ⟨by simp,rfl⟩
        · exact ⟨List.mem_append_left _ (hrow target o ho).1,(hrow target o ho).2⟩
      · intro target first hf
        rw [Table.get_upsert] at hf
        split_ifs at hf with he
        · cases hf
          rw [he]
          rfl
        · exact hage target first hf
    · intro k hne
      cases hk : Table.get s k <;> simp [Table.get_deleteWhere, hne, hk]
    · intro target o ho
      simp [Table.get_deleteWhere] at ho
    · intro target first hf
      cases hf
  exact ⟨key.1,fun target o ho => ⟨Table.get_eq_some.mpr (key.2.1 target o ho).1,
    (key.2.1 target o ho).2⟩,key.2.2⟩

lemma SeenSince.extend {target identity : String} {first : ℕ}
    (h : SeenSince runs target identity first) (hu : unreachable.get target = some identity) :
    SeenSince (runs ++ [(unreachable,now)]) target identity first := by
  obtain ⟨before, u, rest, rfl, hall⟩ := h
  refine ⟨before,u,rest ++ [(unreachable,now)],by simp,?_⟩
  intro r hr
  rw [← List.cons_append, List.mem_append, List.mem_singleton] at hr
  rcases hr with hr | rfl
  · exact hall r hr
  · exact hu

lemma Aged.seenSince (h : Aged connectionId s runs) {target identity : String}
    (hu : unreachable.get target = some identity) :
    SeenSince (runs ++ [(unreachable,now)]) target identity
      (s.firstSeen connectionId unreachable now target) := by
  have hnew : SeenSince (runs ++ [(unreachable,now)]) target identity now :=
    ⟨runs,unreachable,[],rfl,fun r hr => (List.mem_singleton.mp hr) ▸ hu⟩
  unfold firstSeen
  cases ho : s.get (connectionId,target) with
  | none => exact hnew
  | some o =>
    rw [Option.bind_some]
    unfold keptAge
    split_ifs with hkept
    · have hi := hkept.1
      rw [hu] at hi
      cases hi
      exact (h target o ho).extend hu
    · exact hnew

lemma Aged.after (h : Aged connectionId s runs) (op : GcOp) :
    Aged connectionId (s.after op) (runs ++ GcStore.runs connectionId s [op]) := by
  cases op with
  | record c u t =>
    have hruns : GcStore.runs connectionId s [.record c u t] =
        if c = connectionId ∧ (s.recordObservations c u t).isOk then [(u,t)] else [] := by
      simp [GcStore.runs]
    rw [hruns]
    cases hr : s.recordObservations c u t with
    | error e => simpa [GcStore.after, hr, Except.isOk, Except.toBool] using h
    | ok recorded =>
      obtain ⟨hother, hrow, -⟩ := recordObservations_eq_ok hr
      have hafter : s.after (.record c u t) = recorded.1 := by simp [GcStore.after, hr]
      rw [hafter]
      by_cases hc : c = connectionId
      · subst hc
        rw [if_pos ⟨rfl,rfl⟩]
        intro target o ho
        obtain ⟨hu, hf⟩ := hrow target o ho
        rw [hf]
        exact h.seenSince hu
      · rw [if_neg fun hn => hc hn.1, List.append_nil]
        intro target o ho
        rw [hother _ (Ne.symm hc)] at ho
        exact h target o ho
  | forget c target =>
    simp only [GcStore.runs, List.append_nil]
    intro target' o ho
    simp only [GcStore.after, forgetObservation, Table.get_erase] at ho
    split_ifs at ho
    exact h target' o ho
  | forgetConnection c =>
    simp only [GcStore.runs, List.append_nil]
    intro target o ho
    exact h target o (Table.get_deleteWhere_eq_some.mp ho).1

lemma runs_cons (connectionId : String) (s : GcStore) (op : GcOp) (ops : List GcOp) :
    GcStore.runs connectionId s (op :: ops) =
      GcStore.runs connectionId s [op] ++ GcStore.runs connectionId (s.after op) ops := by
  simp [GcStore.runs]

theorem Aged.run (h : Aged connectionId s runs) (ops : List GcOp) :
    Aged connectionId (ops.foldl GcStore.after s) (runs ++ GcStore.runs connectionId s ops) := by
  induction ops generalizing s runs with
  | nil => simpa [GcStore.runs] using h
  | cons op ops ih =>
    rw [runs_cons, ← List.append_assoc]
    exact ih (h.after op)

lemma runs_append (connectionId : String) (s : GcStore) (ops more : List GcOp) :
    GcStore.runs connectionId s (ops ++ more) =
      GcStore.runs connectionId s ops ++ GcStore.runs connectionId (ops.foldl GcStore.after s) more := by
  induction ops generalizing s with
  | nil => rfl
  | cons op ops ih =>
    rw [List.cons_append, runs_cons, ih, ← List.append_assoc, ← runs_cons, List.foldl_cons]

end
end GcStore

/-! ### What is selected -/

lemma mem_of_keepWhere {α : Type} {p : α → Provided Bool} {l l' : List α}
    (h : MarkRequest.keepWhere p l = .ok l') {a : α} (ha : a ∈ l') : a ∈ l := by
  induction l generalizing l' with
  | nil =>
    cases h
    exact ha
  | cons b l ih =>
    obtain ⟨keep, -, h⟩ := bind_eq_ok.mp h
    obtain ⟨rest, hr, h⟩ := bind_eq_ok.mp h
    cases h
    cases keep with
    | true =>
      rcases List.mem_cons.mp ha with rfl | ha
      · exact List.mem_cons_self
      · exact List.mem_cons_of_mem _ (ih hr ha)
    | false => exact List.mem_cons_of_mem _ (ih hr ha)

/-! ### Steps of a walk -/

section
variable {cr : Crates} {source : DocumentSource} {repository : RepositoryHandle}
  {formatRepositoryId : String} {tolerateMissing : Bool} {fuel : ℕ} {o : RemoteObject}
  {pending found : List RemoteObject} {s : Graph × Memo} {identity : String}

lemma walkFrom_first
    (hi : identityOf cr source repository formatRepositoryId o = .ok identity)
    (hg : (s.1.identities.get (keyOf o)).isNone) (hm : (s.2.get (keyOf o,identity)).isNone)
    (hv : visit source o = .ok (some found)) :
    walkFrom cr source repository formatRepositoryId tolerateMissing (fuel+1) (o :: pending) s =
      walkFrom cr source repository formatRepositoryId tolerateMissing fuel (pending ++ found)
        (s.1.record o identity (some found),s.2.upsert (keyOf o,identity) (some found)) := by
  rw [Option.isNone_iff_eq_none] at hg hm
  rw [walkFrom, hi]
  dsimp only [run, Except.mapError, bind, Except.bind]
  rw [hg]
  unfold visitOnce
  rw [hm]
  dsimp only
  rw [hv]
  rfl

lemma walkFrom_known
    (hi : identityOf cr source repository formatRepositoryId o = .ok identity)
    (hg : (s.1.identities.get (keyOf o)).isNone)
    (hm : s.2.get (keyOf o,identity) = some (some found)) :
    walkFrom cr source repository formatRepositoryId tolerateMissing (fuel+1) (o :: pending) s =
      walkFrom cr source repository formatRepositoryId tolerateMissing fuel (pending ++ found)
        (s.1.record o identity (some found),s.2) := by
  rw [Option.isNone_iff_eq_none] at hg
  rw [walkFrom, hi]
  dsimp only [run, Except.mapError, bind, Except.bind]
  rw [hg]
  unfold visitOnce
  rw [hm]
  rfl

lemma walk_of_walkFrom {objects : List RemoteObject} {memo : Memo}
    (h : walkFrom cr source repository formatRepositoryId tolerateMissing fuel objects
      (.empty,memo) = .ok s) (ha : s.1.checkAcyclic fuel = .ok ()) :
    walk cr source repository formatRepositoryId fuel objects tolerateMissing memo = .ok s := by
  rw [walk, h]
  exact bind_eq_ok.mpr ⟨s,rfl,bind_eq_ok.mpr ⟨(),ha,rfl⟩⟩

end

lemma merge_empty {g : Graph} {fuel : ℕ} (ha : g.checkAcyclic fuel = .ok ())
    (hm : g.missing = []) : g.merge .empty fuel = .ok g := by
  refine bind_eq_ok.mpr ⟨g.identities,rfl,bind_eq_ok.mpr ⟨g.nodes,rfl,?_⟩⟩
  refine bind_eq_ok.mpr ⟨(),?_,bind_eq_ok.mpr ⟨(),ha,rfl⟩⟩
  change run (require ((g.missing.all fun key => !g.nodes.contains key) = true) _) = _
  rw [hm]
  rfl

namespace MarkRequest
variable {cr : Crates} {source : DocumentSource} {request : MarkRequest}

lemma ordered_subset {reachable : List String} {candidates : Graph}
    {eligible : List (RemoteObject × Bool)} {l : List RemoteObject}
    (h : ordered source reachable candidates eligible = .ok l) {o : RemoteObject} (ho : o ∈ l) :
    o ∈ eligible.map Prod.fst := by
  obtain ⟨parents, hp, h⟩ := bind_eq_ok.mp h
  cases h
  rcases List.mem_append.mp ho with ho | ho
  · obtain ⟨e, he, rfl⟩ := List.mem_map.mp ho
    exact List.mem_map.mpr ⟨e,(List.mem_filter.mp he).1,rfl⟩
  · obtain ⟨e, he, rfl⟩ := List.mem_map.mp ho
    exact List.mem_map.mpr ⟨e,(List.mem_filter.mp (mem_of_keepWhere hp he)).1,rfl⟩

lemma select_eq_ok {s : Surveyed} {observed : Table String ℕ} {fuel : ℕ} {m : Mark}
    (h : request.select source s observed fuel = .ok m) :
    ∀ o ∈ m.candidates, Selected request s.candidates
      (unreachableOf s.reachable s.authorized s.candidates) observed o := by
  unfold select at h
  obtain ⟨incoming, -, h⟩ := bind_eq_ok.mp h
  obtain ⟨collected, hc, h⟩ := bind_eq_ok.mp h
  obtain ⟨_, -, h⟩ := bind_eq_ok.mp h
  obtain ⟨eligible, he, h⟩ := bind_eq_ok.mp h
  obtain ⟨l, hl, h⟩ := bind_eq_ok.mp h
  cases h
  rw [run_eq_ok] at he hl
  intro o ho
  refine collect_eq_ok hc (fun _ h => (by cases h)) o ?_
  obtain ⟨e, hm, rfl⟩ := List.mem_map.mp (ordered_subset hl ho)
  unfold nativeBodies at he
  rw [mapM_eq_ok] at he
  obtain ⟨n, hn, rfl⟩ := List.getElem_of_mem hm
  have hn' : n < collected.eligible.length := he.length_eq ▸ hn
  obtain ⟨native, -, hpair⟩ := bind_eq_ok.mp (he.get hn' hn)
  have hfst : (eligible[n]).1 = collected.eligible[n] := congrArg Prod.fst (Except.ok.inj hpair).symm
  rw [hfst]
  exact List.getElem_mem hn'

lemma oldEnough_eq_true {observed : Table String ℕ} {k : String}
    (h : request.oldEnough observed k = true) :
    ∃ first, observed.get k = some first ∧ first + unreachableGraceMs ≤ request.nowMs := by
  unfold oldEnough at h
  cases hf : observed.get k with
  | none =>
    rw [hf] at h
    cases h
  | some first =>
    rw [hf, Option.any_some, Bool.and_eq_true] at h
    exact ⟨first,rfl,of_decide_eq_true h.2⟩

lemma identitiesOf_get {candidates : Graph} {keys : List String} {k i : String}
    (h : (identitiesOf candidates keys).get k = some i) :
    i = (candidates.identities.get k).getD "" := by
  unfold identitiesOf at h
  have key : ∀ (keys : List String) (t : Table String String),
      (∀ k i, t.get k = some i → i = (candidates.identities.get k).getD "") →
      ∀ k i, (keys.foldl (fun t key => t.insertOrIgnore key
        ((candidates.identities.get key).getD "")) t).get k = some i →
        i = (candidates.identities.get k).getD "" := by
    intro keys
    induction keys with
    | nil => exact fun t ht => ht
    | cons l keys ih =>
      intro t ht
      refine ih _ ?_
      intro k i hk
      rw [Table.get_insertOrIgnore] at hk
      split_ifs at hk with he
      · subst he
        cases hl : t.get k with
        | none =>
          rw [hl] at hk
          exact (Option.some.inj hk).symm
        | some j =>
          rw [hl] at hk
          cases hk
          exact ht k _ hl
      · exact ht k i hk
  exact key keys .empty (fun _ _ h => (by cases h)) k i h

lemma identitiesOf_get_of_mem {candidates : Graph} {keys : List String} {k : String}
    (h : k ∈ keys) : ∃ i, (identitiesOf candidates keys).get k = some i := by
  have hc : ∀ (keys : List String) (t : Table String String),
      (k ∈ keys ∨ ∃ i, t.get k = some i) →
      ∃ i, (keys.foldl (fun t key => t.insertOrIgnore key
        ((candidates.identities.get key).getD "")) t).get k = some i := by
    intro keys
    induction keys with
    | nil =>
      rintro t (hk | hk)
      · cases hk
      · exact hk
    | cons l keys ih =>
      intro t hk
      apply ih
      by_cases he : k = l
      · subst he
        right
        rw [Table.get_insertOrIgnore, if_pos rfl]
        exact ⟨_,rfl⟩
      · rcases hk with hk | ⟨i, hi⟩
        · exact .inl ((List.mem_cons.mp hk).resolve_left he)
        · exact .inr ⟨i,Table.get_insertOrIgnore_of_get hi⟩
  exact hc keys .empty (.inl h)

/-- What a successful mark promises: everything a live root names is there and no candidate, one
locator has one identity wherever the survey met it, and every candidate is known or belongs to a
retired point and was seen unreachable by every run of the connection since a grace period ago. -/
structure Sound (cr : Crates) (source : DocumentSource) (request : MarkRequest) (ops : List GcOp)
    (m : Mark) (store : GcStore) : Prop where
  live : ∀ o, Named source {o | LiveRoot source request o} o →
    (∃ cs, visit source o = .ok (some cs)) ∧ ∀ c ∈ m.candidates, keyOf c ≠ keyOf o
  jobs : ∀ r ∈ request.roots.jobObjects, ∀ c ∈ m.candidates, keyOf c ≠ locatorKey r.locator
  oneIdentity : ∀ o p, Named source (surveyRoots source request) o →
    Named source (surveyRoots source request) p → keyOf o = keyOf p →
    identityOf cr source request.repository request.formatRepositoryId o =
      identityOf cr source request.repository request.formatRepositoryId p
  observed : ∃ unreachable, (ops ++ [GcOp.record request.connectionId unreachable request.nowMs]).foldl
      GcStore.after .empty = store ∧
    ∀ c ∈ m.candidates, ∃ o i, keyOf o = keyOf c ∧
      (o ∈ request.knownObjects ∨ Named source {o | o ∈ request.retiredObjects} o) ∧
      identityOf cr source request.repository request.formatRepositoryId o = .ok i ∧
      identityOf cr source request.repository request.formatRepositoryId c = .ok i ∧
      ∃ first, first + unreachableGraceMs ≤ request.nowMs ∧
        GcStore.SeenSince (GcStore.runs request.connectionId .empty
          (ops ++ [GcOp.record request.connectionId unreachable request.nowMs])) (keyOf c) i first

lemma sound_of_mark {ops : List GcOp} {fuel : ℕ} {m : Mark} {store : GcStore}
    (consistent : Consistent cr source request.repository request.formatRepositoryId)
    (h : request.mark cr source (ops.foldl GcStore.after .empty) fuel = (.ok m,store)) :
    Sound cr source request ops m store := by
  unfold mark at h
  cases hs : request.survey cr source fuel with
  | error e =>
    rw [hs] at h
    cases h
  | ok s =>
  simp only [hs] at h
  generalize hu : unreachableOf s.reachable s.authorized s.candidates = unreachable at h
  cases hr : GcStore.recordObservations (ops.foldl GcStore.after .empty) request.connectionId
      (identitiesOf s.candidates unreachable) request.nowMs with
  | error e =>
    rw [hr] at h
    cases h
  | ok recorded =>
  simp only [hr] at h
  obtain ⟨hsel, rfl⟩ := Prod.mk.inj h
  have found := survey_eq_ok consistent hs
  have hselected := select_eq_ok hsel
  rw [hu] at hselected
  have hmem : ∀ {k}, k ∈ unreachable → k ∈ s.authorized ∧ k ∉ s.reachable := by
    intro k hk
    rw [← hu] at hk
    simp only [unreachableOf, List.mem_filter, mem_keySet, Bool.and_eq_true, Bool.not_eq_true',
      decide_eq_false_iff_not] at hk
    exact ⟨hk.1,hk.2.1.1⟩
  -- where a survey met one locator twice, it met one identity
  have hone : ∀ o, Named source (surveyRoots source request) o →
      ∃ i, identityOf cr source request.repository request.formatRepositoryId o = .ok i ∧
        (s.live.identities.get (keyOf o) = some i ∨
          s.candidates.identities.get (keyOf o) = some i) := by
    intro o ho
    rcases Named.of_union ho with ho | ho
    · obtain ⟨⟨i, hi, hk⟩, -⟩ := found.live o ho
      exact ⟨i,hi,.inl hk⟩
    · obtain ⟨i, hi, hk⟩ := found.others o ho
      exact ⟨i,hi,.inr hk⟩
  refine ⟨?_,?_,?_,⟨identitiesOf s.candidates unreachable,?_,?_⟩⟩
  · intro o ho
    obtain ⟨-, hv, hreach⟩ := found.live o ho
    refine ⟨hv,?_⟩
    intro c hc he
    obtain ⟨k, n, hn, rfl, hk, -⟩ := hselected c hc
    rw [(found.candidates k n hn).1] at he
    exact (hmem hk).2 (he ▸ hreach)
  · intro r hr c hc he
    obtain ⟨k, n, hn, rfl, hk, -⟩ := hselected c hc
    rw [(found.candidates k n hn).1] at he
    exact (hmem hk).2 (he ▸ found.jobs r hr)
  · intro o p ho hp he
    obtain ⟨i, hi, hgi⟩ := hone o ho
    obtain ⟨j, hj, hgj⟩ := hone p hp
    rw [← he] at hgj
    have hij : i = j := by
      rcases hgi with hgi | hgi <;> rcases hgj with hgj | hgj
      · exact Option.some.inj (hgi.symm.trans hgj)
      · exact found.agree _ i j hgi hgj
      · exact (found.agree _ j i hgj hgi).symm
      · exact Option.some.inj (hgi.symm.trans hgj)
    rw [hi, hj, hij]
  · rw [List.foldl_append]
    simp [GcStore.after, hr]
  · intro c hc
    obtain ⟨k, n, hn, rfl, hk, hold⟩ := hselected c hc
    obtain ⟨hkey, i, hi, hgi⟩ := found.candidates k n hn
    rw [hkey] at hgi ⊢
    obtain ⟨o, hok, ho⟩ := found.authorized k (hmem hk).1
    have hnamed : Named source {o | o ∈ request.knownObjects ∨ o ∈ request.retiredObjects} o :=
      ho.elim (fun h => .root (.inl h)) fun h => h.mono fun p hp => .inr hp
    obtain ⟨j, hj, hgj⟩ := found.others o hnamed
    rw [hok, hgi] at hgj
    cases hgj
    refine ⟨o,i,hok,ho,hj,hi,?_⟩
    obtain ⟨i', hi'⟩ := @identitiesOf_get_of_mem s.candidates _ _ hk
    have he := identitiesOf_get hi'
    rw [hgi, Option.getD_some] at he
    rw [he] at hi'
    obtain ⟨first, hf, hle⟩ := oldEnough_eq_true hold
    refine ⟨first,hle,?_⟩
    rw [(GcStore.recordObservations_eq_ok hr).2.2 k first hf]
    have hstart : GcStore.Aged request.connectionId .empty [] := fun _ _ h => (by cases h)
    have haged := hstart.run ops
    rw [List.nil_append] at haged
    have hruns : GcStore.runs request.connectionId .empty
        (ops ++ [GcOp.record request.connectionId (identitiesOf s.candidates unreachable)
          request.nowMs]) =
        GcStore.runs request.connectionId .empty ops ++
          [(identitiesOf s.candidates unreachable,request.nowMs)] := by
      rw [GcStore.runs_append]
      simp [GcStore.runs, hr, Except.isOk, Except.toBool]
    rw [hruns]
    exact haged.seenSince hi'

/-- Cleanup never selects live data: whatever runs came before, a mark that succeeds is sound, and
over finitely many objects a mark that is not is an error. -/
theorem cleanup_never_selects_live {ops : List GcOp}
    (consistent : Consistent cr source request.repository request.formatRepositoryId) :
    (∀ fuel m store, request.mark cr source (ops.foldl GcStore.after .empty) fuel =
      (.ok m,store) → Sound cr source request ops m store) ∧
    ({o | Named source (surveyRoots source request) o}.Finite → ∃ n, ∀ fuel, n ≤ fuel →
      (∃ m store, request.mark cr source (ops.foldl GcStore.after .empty) fuel = (.ok m,store) ∧
        Sound cr source request ops m store) ∨
      ∃ e store, request.mark cr source (ops.foldl GcStore.after .empty) fuel =
        (.error (.failed e),store)) := by
  refine ⟨fun _ _ _ h => sound_of_mark consistent h,?_⟩
  intro finite
  obtain ⟨n, hn⟩ := ends_mark consistent finite
  refine ⟨n,fun fuel hf => ?_⟩
  have hends := hn fuel hf (ops.foldl GcStore.after .empty)
  cases h : request.mark cr source (ops.foldl GcStore.after .empty) fuel with
  | mk answer store =>
    rw [h] at hends
    cases answer with
    | ok m => exact .inl ⟨m,store,rfl,sound_of_mark consistent h⟩
    | error stop =>
      cases stop with
      | failed e => exact .inr ⟨e,store,rfl⟩
      | outOfFuel => exact absurd rfl hends

/-! ### A repository with a head that names a pack, and a pack that nothing names -/

def sampleRepository : RepositoryHandle := ⟨"c"⟩

def sampleObject (role : ObjectRole) (name : String) (bytes : ℕ) : RemoteObject :=
  ⟨"r",name,role,⟨⟨"c",none,name⟩,bytes,none,none,true⟩,
    String.ofList (List.replicate 64 'a'),1,String.ofList (List.replicate 64 'b')⟩

def samplePack : RemoteObject := sampleObject .pack "pack" 1

def sampleOldPack : RemoteObject := sampleObject .pack "old" 1

def sampleHead : RemoteObject := sampleObject .syncState "head" 205

/-- A catalog a job wrote, which names the pack too. -/
def sampleJob : RemoteObject := sampleObject .catalog "job" 202

def sampleSource : DocumentSource where
  document := fun o => .ok ⟨o.objectId,[samplePack]⟩
  listed := fun _ => .error .notFound
  catalog := fun _ => .ok [samplePack]
  probe := fun o => .ok (some o.receipt)
  metadata := fun o => .ok (some o.receipt)
  nativeBody := fun o =>
    if o ∈ [samplePack,sampleOldPack] then .ok true
    else if o ∈ [sampleHead,sampleJob] then .ok false
    else .error .corrupt
  formatRepositoryId := fun _ => none

def samplePackIdentity : String :=
  "73da7d5e71339a5787b4d0a876f71435910221e9481e5fc039b3b9668e839488"

def sampleOldIdentity : String :=
  "5fb8388355e9480e5ec847679369e158621baec59ea7c99d99924b1b76e4da89"

def sampleHeadIdentity : String :=
  "944835edb195f71051ee4c2fa5c82fc950a89da14859cfc90d4b1908cdb72f5f"

/-- The hashes of the texts that are hashed here, told apart by how they begin. -/
def sampleGcCrates : Crates :=
  { tabulated [] [] [] with
    sha256 := fun b =>
      if utf8 "\x7b\"header\"".toList <+: b then sampleHeadIdentity
      else if utf8 "\x7b\"repositoryId\":\"r\",\"objectId\":\"pack".toList <+: b
        then samplePackIdentity
      else sampleOldIdentity }

lemma consistent_sampleSource :
    Consistent sampleGcCrates sampleSource sampleRepository "r" := by
  have known : ∀ o i, identityOf sampleGcCrates sampleSource sampleRepository "r" o =
      .ok i → o ∈ [samplePack,sampleOldPack,sampleHead,sampleJob] := by
    intro o i h
    simp only [identityOf, bind_eq_ok] at h
    obtain ⟨native, hn, -⟩ := h
    simp only [sampleSource] at hn
    split_ifs at hn with hpack hdocument
    · exact List.mem_append_left [sampleHead,sampleJob] hpack
    · exact List.mem_append_right [samplePack,sampleOldPack] hdocument
  have apart : ∀ o ∈ [samplePack,sampleOldPack,sampleHead,sampleJob],
      ∀ p ∈ [samplePack,sampleOldPack,sampleHead,sampleJob], keyOf o = keyOf p → o = p := by
    decide
  intro o p i ho hp hk
  rw [apart o (known o i ho) p (known p i hp) hk]

def sampleRequest (roots : Roots) (known : List RemoteObject) : MarkRequest :=
  ⟨"c",sampleRepository,"r",1000 + unreachableGraceMs,roots,[],known,[]⟩

/-- A run a grace period ago that saw one pack unreachable. -/
def sampleRun (o : RemoteObject) (identity : String) : List GcOp :=
  [GcOp.record "c" (Table.empty.insertOrIgnore (keyOf o) identity) 1000]

lemma exists_of_candidates {answer : Fueled Mark × GcStore} {candidates : List RemoteObject}
    (h : answer.1.toOption.map Mark.candidates = some candidates) :
    ∃ m store, answer = (.ok m,store) ∧ m.candidates = candidates := by
  obtain ⟨answer, store⟩ := answer
  cases answer with
  | error e => cases h
  | ok m => exact ⟨m,store,rfl,Option.some.inj h⟩

/-- A request of a connection with a job that wrote a catalog. -/
def sampleJobRequest : MarkRequest :=
  sampleRequest ⟨none,[],[],[sampleJob.receipt],[],[]⟩ [samplePack]

lemma readKnown_first {cr : Crates} {source : DocumentSource} {request : MarkRequest}
    {known : Table String RemoteObject} {o : RemoteObject} {native : Bool}
    (hn : source.nativeBody o = .ok native)
    (hv : validateObject o request.repository
      ((source.formatRepositoryId o).getD request.formatRepositoryId) native = .ok ())
    (hk : (known.get (keyOf o)).isNone) :
    request.readKnown cr source known o = .ok (known.upsert (keyOf o) o) := by
  rw [Option.isNone_iff_eq_none] at hk
  refine bind_eq_ok.mpr ⟨native,hn,bind_eq_ok.mpr ⟨(),hv,?_⟩⟩
  rw [hk]
  rfl

lemma not_utf8_isPrefix {p q t : List Char} (h : q <+: t)
    (hlen : (utf8 q).length = (utf8 p).length) (hne : p ≠ q) : ¬ utf8 p <+: utf8 t := by
  intro hp
  have hpq := List.prefix_of_prefix_length_le hp (utf8_isPrefix h) hlen.ge
  exact hne (utf8_injective (hpq.eq_of_length hlen.symm))

lemma sha256_of_repository {t : List Char} (h : "\x7b\"reposit".toList <+: t) :
    sampleGcCrates.sha256 (utf8 t) =
      if utf8 "\x7b\"repositoryId\":\"r\",\"objectId\":\"pack".toList <+: utf8 t
        then samplePackIdentity else sampleOldIdentity :=
  if_neg (not_utf8_isPrefix h (by decide) (by decide))

lemma sha256_of_header {t : List Char} (h : "\x7b\"header\"".toList <+: t) :
    sampleGcCrates.sha256 (utf8 t) = sampleHeadIdentity := if_pos (utf8_isPrefix h)

lemma header_isPrefix (s : StoredObject) : "\x7b\"header\"".toList <+: s.text := by
  have hq : "\x7b\"header\"".toList = '{' :: writeString "header" := by decide
  rw [hq]
  unfold StoredObject.text jsonObject
  rw [List.map_cons, List.map_cons, List.intersperse_cons_cons, List.flatten_cons]
  simp only [List.cons_append, List.append_assoc, List.cons_prefix_cons, true_and]
  exact List.prefix_append _ _

lemma identityOf_of_native {cr : Crates} {source : DocumentSource} {repository : RepositoryHandle}
    {formatRepositoryId : String} {o : RemoteObject} (hn : source.nativeBody o = .ok true)
    (hv : validateObject o repository ((source.formatRepositoryId o).getD formatRepositoryId)
      true = .ok ()) (hl : o.receipt.locator.validateFor repository = .ok ()) :
    identityOf cr source repository formatRepositoryId o = .ok (hash cr (utf8 ({ o with
      receipt := { o.receipt with version := none, checksum := none } }).text)) := by
  rw [identityOf, hn]
  change (validateObject _ _ _ _ >>= _) = _
  rw [hv]
  change (RemoteLocator.validateFor _ _ >>= _) = _
  rw [hl]
  rfl

lemma identityOf_of_stored {cr : Crates} {source : DocumentSource} {repository : RepositoryHandle}
    {formatRepositoryId : String} {o : RemoteObject} {s : StoredObject}
    (hn : source.nativeBody o = .ok false) (hr : o.role ≠ .segment)
    (hs : o.stored repository = .ok s)
    (hi : o.repositoryId = (source.formatRepositoryId o).getD formatRepositoryId ∧
      o.role ≠ .descriptor ∧ o.role ≠ .lease) :
    identityOf cr source repository formatRepositoryId o = .ok (hash cr (utf8 s.text)) := by
  have hv : validateObject o repository ((source.formatRepositoryId o).getD formatRepositoryId)
      false = .ok () := by
    unfold validateObject
    rw [if_neg (by simp [hr]), hs]
    exact bind_eq_ok.mpr ⟨(),rfl,require_eq_ok.mpr hi⟩
  rw [identityOf, hn]
  change (validateObject _ _ _ _ >>= _) = _
  rw [hv]
  change objectIdentity cr o repository = _
  rw [objectIdentity, if_neg hr, hs]
  rfl

lemma identityOf_samples :
    identityOf sampleGcCrates sampleSource sampleRepository "r" samplePack =
      .ok samplePackIdentity ∧
    identityOf sampleGcCrates sampleSource sampleRepository "r" sampleOldPack =
      .ok sampleOldIdentity ∧
    identityOf sampleGcCrates sampleSource sampleRepository "r" sampleHead =
      .ok sampleHeadIdentity := by
  have hfirst : "\x7b\"reposit".toList.isPrefixOf
      "\x7b\"repositoryId\":\"r\",\"objectId\":\"".toList = true := by decide
  have hpack : "\x7b\"repositoryId\":\"r\",\"objectId\":\"pack".toList.isPrefixOf ({ samplePack with
      receipt := { samplePack.receipt with version := none, checksum := none } }).text = true := by
    decide
  have hold : "\x7b\"repositoryId\":\"r\",\"objectId\":\"old\"".toList.isPrefixOf
      ({ sampleOldPack with
        receipt := { sampleOldPack.receipt with version := none, checksum := none } }).text = true := by
    decide
  rw [List.isPrefixOf_iff_prefix] at hfirst hpack hold
  refine ⟨?_,?_,?_⟩
  · have hp := hfirst.trans (List.IsPrefix.trans ⟨_,rfl⟩ hpack)
    rw [identityOf_of_native (by decide) (by decide) (by decide), Wire.hash,
      sha256_of_repository hp, if_pos (utf8_isPrefix hpack)]
  · have hp := hfirst.trans (List.IsPrefix.trans ⟨_,rfl⟩ hold)
    rw [identityOf_of_native (by decide) (by decide) (by decide), Wire.hash,
      sha256_of_repository hp, if_neg (not_utf8_isPrefix hold (by decide) (by decide))]
  · obtain ⟨s, hs⟩ := exists_eq_ok (x := sampleHead.stored sampleRepository) (by decide +kernel)
    rw [identityOf_of_stored (by decide) (by decide) hs (by decide)]
    exact congrArg Except.ok (sha256_of_header (header_isPrefix s))

/-- The graph and the memo of a walk that visited one pack. -/
def packVisited : Graph × Memo :=
  (Graph.empty.record samplePack samplePackIdentity (some []),
    Table.empty.upsert (keyOf samplePack,samplePackIdentity) (some []))

/-- The graph and the memo of a walk from the head. -/
def headVisited : Graph × Memo :=
  ((Graph.empty.record sampleHead sampleHeadIdentity (some [samplePack])).record samplePack
      samplePackIdentity (some []),
    (Table.empty.upsert (keyOf sampleHead,sampleHeadIdentity) (some [samplePack])).upsert
      (keyOf samplePack,samplePackIdentity) (some []))

/-- The graph and the memo of a walk from both packs behind it. -/
def packsVisited : Graph × Memo :=
  ((Graph.empty.record samplePack samplePackIdentity (some [])).record sampleOldPack
      sampleOldIdentity (some []),
    headVisited.2.upsert (keyOf sampleOldPack,sampleOldIdentity) (some []))

lemma walk_samples :
    walk sampleGcCrates sampleSource sampleRepository "r" 10 [samplePack] true .empty =
      .ok packVisited ∧
    walk sampleGcCrates sampleSource sampleRepository "r" 10 [sampleHead] false .empty =
      .ok headVisited ∧
    walk sampleGcCrates sampleSource sampleRepository "r" 10 [samplePack,sampleOldPack] true
      headVisited.2 = .ok packsVisited := by
  obtain ⟨hpack, hold, hhead⟩ := identityOf_samples
  have hleaf : visit sampleSource samplePack = .ok (some []) ∧
      visit sampleSource sampleOldPack = .ok (some []) ∧
      visit sampleSource sampleHead = .ok (some [samplePack]) := by decide
  refine ⟨?_,?_,?_⟩
  · refine @walk_of_walkFrom _ _ _ _ _ _ packVisited _ _ ?_ (by decide)
    rw [walkFrom_first hpack (by decide) (by decide) hleaf.1]
    rfl
  · refine @walk_of_walkFrom _ _ _ _ _ _ headVisited _ _ ?_ (by decide)
    rw [walkFrom_first hhead (by decide) (by decide) hleaf.2.2,
      List.nil_append, walkFrom_first hpack (by decide) (by decide) hleaf.1]
    rfl
  · refine @walk_of_walkFrom _ _ _ _ _ _ packsVisited _ _ ?_ (by decide)
    rw [@walkFrom_known _ _ _ _ true 9 _ [sampleOldPack] [] (.empty,headVisited.2) _ hpack rfl
      (by decide), List.append_nil,
      walkFrom_first hold (by decide) (by decide) hleaf.2.1]
    rfl

lemma walk_none (tolerateMissing : Bool) (memo : Memo) :
    walk sampleGcCrates sampleSource sampleRepository "r" 10 [] tolerateMissing memo =
      .ok (.empty,memo) :=
  walk_of_walkFrom rfl rfl

/-- A request of a connection with a head. -/
def sampleHeadRequest : MarkRequest :=
  sampleRequest ⟨some sampleHead,[],[],[],[],[]⟩ [samplePack,sampleOldPack]

def jobSurveyed : Surveyed :=
  ⟨.empty,[locatorKey sampleJob.receipt.locator],202,packVisited.1,[keyOf samplePack]⟩

def headSurveyed : Surveyed :=
  ⟨headVisited.1,[keyOf sampleHead,keyOf samplePack],206,packsVisited.1,
    [keyOf samplePack,keyOf sampleOldPack]⟩

lemma survey_samples :
    sampleJobRequest.survey sampleGcCrates sampleSource 10 = .ok jobSurveyed ∧
    sampleHeadRequest.survey sampleGcCrates sampleSource 10 = .ok headSurveyed := by
  obtain ⟨hpack, hhead, hpacks⟩ := walk_samples
  have hfirst : ∀ known : List RemoteObject, ∀ roots,
      (sampleRequest roots known).readKnown sampleGcCrates sampleSource .empty samplePack =
        .ok (Table.empty.upsert (keyOf samplePack) samplePack) := by
    intro known roots
    exact @readKnown_first _ _ (sampleRequest roots known) _ _ true (by decide)
      (by decide : validateObject samplePack sampleRepository "r" true = .ok ()) rfl
  have hsecond : sampleHeadRequest.readKnown sampleGcCrates sampleSource
      (Table.empty.upsert (keyOf samplePack) samplePack) sampleOldPack =
        .ok ((Table.empty.upsert (keyOf samplePack) samplePack).upsert (keyOf sampleOldPack)
          sampleOldPack) :=
    @readKnown_first _ _ sampleHeadRequest _ _ true (by decide) (by decide)
      (by decide)
  unfold survey
  constructor
  · have hall : sampleJobRequest.knownObjects.foldlM
        (sampleJobRequest.readKnown sampleGcCrates sampleSource) .empty = .ok _ :=
      foldlM_cons_eq_ok.mpr ⟨_,hfirst _ _,rfl⟩
    refine bind_eq_ok.mpr ⟨(.empty,[]),rfl,?_⟩
    refine bind_eq_ok.mpr ⟨_,congrArg run hall,?_⟩
    refine bind_eq_ok.mpr ⟨[],by decide,?_⟩
    refine bind_eq_ok.mpr ⟨_,walk_none _ _,?_⟩
    refine bind_eq_ok.mpr ⟨([locatorKey sampleJob.receipt.locator],202),by decide,?_⟩
    refine bind_eq_ok.mpr ⟨_,walk_none _ _,?_⟩
    refine bind_eq_ok.mpr ⟨(),by decide,?_⟩
    refine bind_eq_ok.mpr ⟨_,hpack,?_⟩
    refine bind_eq_ok.mpr ⟨packVisited.1,merge_empty (by decide) rfl,?_⟩
    exact bind_eq_ok.mpr ⟨(),by decide,rfl⟩
  · have hall : sampleHeadRequest.knownObjects.foldlM
        (sampleHeadRequest.readKnown sampleGcCrates sampleSource) .empty = .ok _ :=
      foldlM_cons_eq_ok.mpr ⟨_,hfirst _ _,foldlM_cons_eq_ok.mpr ⟨_,hsecond,rfl⟩⟩
    refine bind_eq_ok.mpr ⟨(.empty,[]),rfl,?_⟩
    refine bind_eq_ok.mpr ⟨_,congrArg run hall,?_⟩
    refine bind_eq_ok.mpr ⟨[sampleHead],by decide,?_⟩
    refine bind_eq_ok.mpr ⟨_,hhead,?_⟩
    refine bind_eq_ok.mpr ⟨([keyOf sampleHead,keyOf samplePack],206),by decide,?_⟩
    refine bind_eq_ok.mpr ⟨_,walk_none _ _,?_⟩
    refine bind_eq_ok.mpr ⟨(),by decide,?_⟩
    refine bind_eq_ok.mpr ⟨_,hpacks,?_⟩
    refine bind_eq_ok.mpr ⟨packsVisited.1,merge_empty (by decide) rfl,?_⟩
    exact bind_eq_ok.mpr ⟨(),by decide,rfl⟩

/-- A job object that is not known is kept itself, but not what its catalog names. -/
theorem unknown_job_object_is_not_walked :
    Consistent sampleGcCrates sampleSource sampleRepository "r" ∧
      sampleJob.receipt ∈ sampleJobRequest.roots.jobObjects ∧
      Named sampleSource {sampleJob} samplePack ∧
      ∃ m store, sampleJobRequest.mark sampleGcCrates sampleSource
        ((sampleRun samplePack samplePackIdentity).foldl GcStore.after .empty) 10 =
          (.ok m,store) ∧ m.candidates = [samplePack] := by
  refine ⟨consistent_sampleSource,.head _,?_,exists_of_candidates ?_⟩
  · exact .child (.root rfl) (by decide : visit sampleSource sampleJob = .ok (some [samplePack]))
      (.head _)
  · rw [mark, survey_samples.1]
    decide

/-- The head keeps its pack; the other one goes. -/
theorem cleanup_never_selects_live_head :
    ∃ m store, (sampleRequest ⟨some sampleHead,[],[],[],[],[]⟩
        [samplePack,sampleOldPack]).mark sampleGcCrates sampleSource
        ((sampleRun sampleOldPack sampleOldIdentity).foldl GcStore.after .empty) 10 =
          (.ok m,store) ∧ m.candidates = [sampleOldPack] ∧
      Sound sampleGcCrates sampleSource (sampleRequest ⟨some sampleHead,[],[],[],[],[]⟩
        [samplePack,sampleOldPack]) (sampleRun sampleOldPack sampleOldIdentity) m
        store := by
  have h : ((sampleRequest ⟨some sampleHead,[],[],[],[],[]⟩
      [samplePack,sampleOldPack]).mark sampleGcCrates sampleSource
      ((sampleRun sampleOldPack sampleOldIdentity).foldl GcStore.after .empty) 10).1.toOption.map
        Mark.candidates = some [sampleOldPack] := by
    change (sampleHeadRequest.mark _ _ _ _).1.toOption.map _ = _
    rw [mark, survey_samples.2]
    decide
  obtain ⟨m, store, h, hm⟩ := exists_of_candidates h
  exact ⟨m,store,h,hm,
    (@cleanup_never_selects_live sampleGcCrates sampleSource
      (sampleRequest ⟨some sampleHead,[],[],[],[],[]⟩ [samplePack,sampleOldPack])
      (sampleRun sampleOldPack sampleOldIdentity) consistent_sampleSource).1 10 m store h⟩

end MarkRequest
end RisuNest.External
