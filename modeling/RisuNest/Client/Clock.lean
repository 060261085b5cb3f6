import RisuNest.Lib.Fallible
import RisuNest.Wire.Stamp

/-! The hybrid clock of a device (`persistent_store/lww.rs`): stamps that are issued and stamps that
are observed. -/
namespace RisuNest.Client
open Wire

/-- The row of `lww_clock`, with the writer of `device_meta`. -/
structure ClockState where
  writerId : String
  issued : Option Stamp
  accepted : Option Stamp
  deriving DecidableEq, Repr

namespace ClockState

/-- `clock_state`: a stamp read back has its writer checked. -/
def load (db : ClockState) : Result ClockState := do
  (db.issued.toList ++ db.accepted.toList).forM Stamp.validate
  pure db

/-- `reserve_stamp`, with the reading of the wall clock and the outcome of the write. -/
def reserveStamp (now : Result ℕ) (write : Result Unit) (db : ClockState) :
    Result Stamp × ClockState :=
  let stamp := do
    let state ← db.load
    let wallMs ← now
    issueStamp wallMs state.writerId state.issued state.accepted
  match stamp, write with
  | .error e, _ => (.error e,db)
  | .ok _, .error e => (.error e,db)
  | .ok stamp, .ok () => (.ok stamp,{ db with issued := some stamp })

/-- `observe`, with the outcome of the write. -/
def observe (stamp : Stamp) (write : Result Unit) (db : ClockState) : Result Unit × ClockState :=
  match db.load with
  | .error e => (.error e,db)
  | .ok state =>
    if ∀ old ∈ state.accepted, old < stamp then
      match write with
      | .error e => (.error e,db)
      | .ok () => (.ok (),{ db with accepted := some stamp })
    else (.ok (),db)

end ClockState

/-- A step of the clock. -/
inductive ClockStep
  | reserve (now : Result ℕ) (write : Result Unit)
  | observe (stamp : Stamp) (write : Result Unit)

/-- What a step of the clock did. -/
inductive ClockFact
  | issued (stamp : Stamp)
  | observed (stamp : Stamp)
  | failed (e : WireError)
  deriving DecidableEq

/-- The stamps a fact makes known. -/
def ClockFact.stamps : ClockFact → List Stamp
  | issued s | observed s => [s]
  | failed _ => []

namespace ClockState

/-- One step, with what it did. -/
def exec (db : ClockState) : ClockStep → ClockFact × ClockState
  | .reserve now write =>
    match db.reserveStamp now write with
    | (.ok stamp,db) => (.issued stamp,db)
    | (.error e,db) => (.failed e,db)
  | .observe stamp write =>
    match db.observe stamp write with
    | (.ok (),db) => (.observed stamp,db)
    | (.error e,db) => (.failed e,db)

/-- A run, with what its steps did, in their order. -/
def run (db : ClockState) : List ClockStep → List ClockFact × ClockState
  | [] => ([],db)
  | e :: es =>
    let (fact,db) := db.exec e
    let (facts,db) := db.run es
    (fact :: facts,db)

end ClockState

/-! ### One stamp -/

lemma logical_le_foldl_max {l : List ℕ} {a n : ℕ} (h : n = a ∨ n ∈ l) : n ≤ l.foldl max a := by
  induction l generalizing a n with
  | nil =>
    obtain rfl | h := h
    · exact Nat.le_refl n
    · cases h
  | cons x l ih =>
    obtain rfl | h := h
    · exact Nat.le_trans (Nat.le_max_left n x) (ih (.inl rfl))
    · obtain rfl | h := List.mem_cons.mp h
      · exact Nat.le_trans (Nat.le_max_right a n) (ih (.inl rfl))
      · exact ih (.inr h)

lemma lt_nextLogical {physical n : ℕ} {stamps : List Stamp} (h : nextLogical physical stamps = .ok n)
    {s : Stamp} (hs : s ∈ stamps) (hp : s.physicalMs = physical) : s.logical < n := by
  have hmem : s.logical ∈ (stamps.filter fun s => s.physicalMs = physical).map Stamp.logical :=
    List.mem_map_of_mem (List.mem_filter.mpr ⟨hs,decide_eq_true hp⟩)
  unfold nextLogical at h
  revert h hmem
  cases (stamps.filter fun s => s.physicalMs = physical).map Stamp.logical with
  | nil =>
    intro _ hmem
    cases hmem
  | cons l ls =>
    intro h hmem
    have htop := logical_le_foldl_max (List.mem_cons.mp hmem)
    dsimp only at h
    by_cases hw : ls.foldl max l + 1 < 2^32
    · rw [if_pos hw] at h
      have := Except.ok.inj h
      omega
    · rw [if_neg hw] at h
      cases h

lemma physical_le_foldl (stamps : List Stamp) (wall : ℕ) :
    wall ≤ stamps.foldl (fun p s => max p s.physicalMs) wall ∧
      ∀ s ∈ stamps, s.physicalMs ≤ stamps.foldl (fun p s => max p s.physicalMs) wall := by
  induction stamps generalizing wall with
  | nil => exact ⟨Nat.le_refl wall,List.forall_mem_nil _⟩
  | cons t stamps ih =>
    obtain ⟨hw,hs⟩ := ih (max wall t.physicalMs)
    refine ⟨Nat.le_trans (Nat.le_max_left ..) hw,?_⟩
    intro s h
    obtain rfl | h := List.mem_cons.mp h
    · exact Nat.le_trans (Nat.le_max_right ..) hw
    · exact hs s h

theorem lt_issueStamp {wallMs : ℕ} {writerId : String} {last observed : Option Stamp} {stamp : Stamp}
    (h : issueStamp wallMs writerId last observed = .ok stamp) {s : Stamp}
    (hs : s ∈ last.toList ++ observed.toList) : s < stamp := by
  obtain ⟨_,-,h⟩ := bind_eq_ok.mp h
  obtain ⟨_,-,h⟩ := bind_eq_ok.mp h
  obtain ⟨logical,hl,h⟩ := bind_eq_ok.mp h
  obtain rfl := Except.ok.inj h
  rw [Stamp.lt_iff]
  obtain hlt | heq := Nat.lt_or_eq_of_le ((physical_le_foldl _ _).2 s hs)
  · exact .inl hlt
  · exact .inr ⟨heq,.inl (lt_nextLogical hl hs heq)⟩

/-! ### Runs -/
namespace ClockState

/-- The two stamps of the clock bound every stamp of a list. -/
def Bounds (db : ClockState) (known : List Stamp) : Prop :=
  ∀ t ∈ known, ∃ s ∈ db.issued.toList ++ db.accepted.toList, t ≤ s

lemma load_eq_ok {db state : ClockState} (h : db.load = .ok state) : state = db := by
  obtain ⟨_,-,h⟩ := bind_eq_ok.mp h
  exact (Except.ok.inj h).symm

lemma reserveStamp_cases (now : Result ℕ) (write : Result Unit) (db : ClockState) :
    (∃ e, db.reserveStamp now write = (.error e,db)) ∨
      ∃ stamp, db.reserveStamp now write = (.ok stamp,{ db with issued := some stamp }) ∧
        ∀ s ∈ db.issued.toList ++ db.accepted.toList, s < stamp := by
  unfold reserveStamp
  cases hs : (do
      let state ← db.load
      let wallMs ← now
      issueStamp wallMs state.writerId state.issued state.accepted) with
  | error e => exact .inl ⟨e,rfl⟩
  | ok stamp =>
    obtain ⟨state,hl,h⟩ := bind_eq_ok.mp hs
    obtain ⟨wallMs,-,h⟩ := bind_eq_ok.mp h
    obtain rfl := load_eq_ok hl
    cases write with
    | error e => exact .inl ⟨e,rfl⟩
    | ok => exact .inr ⟨stamp,rfl,fun s => lt_issueStamp h⟩

lemma observe_cases (stamp : Stamp) (write : Result Unit) (db : ClockState) :
    (∃ e, db.observe stamp write = (.error e,db)) ∨
      (∃ old ∈ db.accepted, stamp ≤ old ∧ db.observe stamp write = (.ok (),db)) ∨
      (∀ old ∈ db.accepted, old < stamp) ∧
        db.observe stamp write = (.ok (),{ db with accepted := some stamp }) := by
  unfold observe
  cases hl : db.load with
  | error e => exact .inl ⟨e,rfl⟩
  | ok state =>
    obtain rfl := load_eq_ok hl
    by_cases hn : ∀ old ∈ state.accepted, old < stamp
    · dsimp only
      rw [if_pos hn]
      cases write with
      | error e => exact .inl ⟨e,rfl⟩
      | ok => exact .inr (.inr ⟨hn,rfl⟩)
    · dsimp only
      rw [if_neg hn]
      simp only [not_forall, not_lt] at hn
      obtain ⟨old,hold,hle⟩ := hn
      exact .inr (.inl ⟨old,hold,hle,rfl⟩)

theorem exec_failed {db : ClockState} {e : ClockStep} {err : WireError}
    (h : (db.exec e).1 = .failed err) : (db.exec e).2 = db := by
  cases e with
  | reserve now write =>
    obtain ⟨e,he⟩ | ⟨stamp,he,-⟩ := db.reserveStamp_cases now write
    · simp only [exec, he]
    · simp only [exec, he, reduceCtorEq] at h
  | observe stamp write =>
    obtain ⟨e,he⟩ | ⟨old,-,-,he⟩ | ⟨-,he⟩ := db.observe_cases stamp write
    · simp only [exec, he]
    · simp only [exec, he]
    · simp only [exec, he, reduceCtorEq] at h

lemma Bounds.lt_issued {db : ClockState} {known : List Stamp} (hb : db.Bounds known) {e : ClockStep}
    {stamp : Stamp} (h : (db.exec e).1 = .issued stamp) : ∀ t ∈ known, t < stamp := by
  intro t ht
  obtain ⟨s,hs,hle⟩ := hb t ht
  cases e with
  | reserve now write =>
    obtain ⟨e,he⟩ | ⟨new,he,hlt⟩ := db.reserveStamp_cases now write
    · simp only [exec, he, reduceCtorEq] at h
    · simp only [exec, he, ClockFact.issued.injEq] at h
      rw [← h]
      exact lt_of_le_of_lt hle (hlt s hs)
  | observe stamp write =>
    obtain ⟨e,he⟩ | ⟨old,-,-,he⟩ | ⟨-,he⟩ := db.observe_cases stamp write
    all_goals simp only [exec, he, reduceCtorEq] at h

lemma Bounds.exec {db : ClockState} {known : List Stamp} (hb : db.Bounds known) (e : ClockStep) :
    (db.exec e).2.Bounds (known ++ (db.exec e).1.stamps) := by
  cases e with
  | reserve now write =>
    obtain ⟨e,he⟩ | ⟨new,he,hlt⟩ := db.reserveStamp_cases now write
    · simp only [ClockState.exec, he, ClockFact.stamps, List.append_nil]
      exact hb
    · simp only [ClockState.exec, he, ClockFact.stamps]
      intro t ht
      refine ⟨new,List.mem_append_left _ (List.mem_singleton_self new),?_⟩
      obtain ht | ht := List.mem_append.mp ht
      · obtain ⟨s,hs,hle⟩ := hb t ht
        exact le_trans hle (le_of_lt (hlt s hs))
      · exact le_of_eq (List.mem_singleton.mp ht)
  | observe stamp write =>
    obtain ⟨e,he⟩ | ⟨old,hold,hle,he⟩ | ⟨hn,he⟩ := db.observe_cases stamp write
    · simp only [ClockState.exec, he, ClockFact.stamps, List.append_nil]
      exact hb
    · simp only [ClockState.exec, he, ClockFact.stamps]
      intro t ht
      obtain ht | ht := List.mem_append.mp ht
      · exact hb t ht
      · rw [List.mem_singleton.mp ht]
        exact ⟨old,List.mem_append_right _ (Option.mem_toList.mpr hold),hle⟩
    · simp only [ClockState.exec, he, ClockFact.stamps]
      have hnew : stamp ∈ (some stamp).toList := List.mem_singleton_self stamp
      intro t ht
      obtain ht | ht := List.mem_append.mp ht
      · obtain ⟨s,hs,hle⟩ := hb t ht
        obtain hs | hs := List.mem_append.mp hs
        · exact ⟨s,List.mem_append_left _ hs,hle⟩
        · have hlt := hn s (Option.mem_toList.mp hs)
          exact ⟨stamp,List.mem_append_right _ hnew,le_trans hle (le_of_lt hlt)⟩
      · rw [List.mem_singleton.mp ht]
        exact ⟨stamp,List.mem_append_right _ hnew,le_refl stamp⟩

lemma Bounds.run {db : ClockState} {known : List Stamp} (hb : db.Bounds known)
    (es : List ClockStep) {before after : List ClockFact} {stamp : Stamp}
    (h : (db.run es).1 = before ++ .issued stamp :: after) :
    ∀ t ∈ known ++ before.flatMap ClockFact.stamps, t < stamp := by
  induction es generalizing db known before with
  | nil =>
    simp only [ClockState.run, List.nil_eq, List.append_eq_nil_iff, reduceCtorEq, and_false] at h
  | cons e es ih =>
    change (db.exec e).1 :: ((db.exec e).2.run es).1 = before ++ .issued stamp :: after at h
    cases before with
    | nil =>
      rw [List.flatMap_nil, List.append_nil]
      exact hb.lt_issued (List.cons.inj h).1
    | cons fact before =>
      obtain ⟨hf,hr⟩ := List.cons.inj h
      have := ih (hb.exec e) hr
      rwa [List.flatMap_cons, ← List.append_assoc, ← hf]

/-- Every stamp that is issued in a run of the clock is above those that were issued or observed
before it, and a step that fails leaves the clock as it was. -/
theorem issued_stamps_increase (db : ClockState) (es : List ClockStep) :
    (∀ before stamp after, (db.run es).1 = before ++ .issued stamp :: after →
      ∀ t ∈ db.issued.toList ++ db.accepted.toList ++ before.flatMap ClockFact.stamps, t < stamp) ∧
    ∀ e err, ((db.run es).2.exec e).1 = .failed err →
      ((db.run es).2.exec e).2 = (db.run es).2 := by
  constructor
  · intro before stamp after h
    have hb : db.Bounds (db.issued.toList ++ db.accepted.toList) := fun t ht => ⟨t,ht,le_refl t⟩
    exact hb.run es h
  · intro e err h
    exact exec_failed h

end ClockState

example : (ClockState.run ⟨"00000000-0000-4000-8000-000000000000",none,none⟩
    [.reserve (.ok 7) (.ok ()),.observe ⟨9,5,"00000000-0000-4000-8000-000000000001"⟩ (.ok ()),
      .reserve (.ok 3) (.ok ())]).1 =
    [.issued ⟨7,0,"00000000-0000-4000-8000-000000000000"⟩,
      .observed ⟨9,5,"00000000-0000-4000-8000-000000000001"⟩,
      .issued ⟨9,6,"00000000-0000-4000-8000-000000000000"⟩] := by
  decide +kernel

end RisuNest.Client
