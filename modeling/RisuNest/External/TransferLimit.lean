import RisuNest.Lib.Runs
import RisuNest.Lib.Semaphore

/-! The ceiling on the transfers of a connection, while it is lowered and raised
(`transfer_limit.rs`). The permits are in a semaphore and their number is recorded under a mutex;
what a thread does while it holds the mutex is taken apart, since others poll and leave the
semaphore at the same time. -/
namespace RisuNest.External.TransferLimit

/-- Where the thread that holds the mutex is. -/
inductive Critical (ι : Type)
  /-- `acquire` with the permit it was given. -/
  | checking (i : ι)
  /-- `Permit::drop` with its permit. -/
  | dropping (i : ι)
  /-- A permit was forgotten and still counts. -/
  | forgotten
  /-- `resize` after the target is set. -/
  | resizing (target : ℕ)
  /-- `resize` after the permits were added. -/
  | raised (target : ℕ)
  /-- `resize` after free permits were forgotten. -/
  | lowered (forgotten : ℕ)
  deriving DecidableEq

/-- `Limiter`, with the permits that are not in the semaphore: those an `acquire` took and has not
checked yet, and those of the `Permit`s that it returned. -/
structure Limiter {ι : Type} (S : Semaphore ι) where
  semaphore : S.State
  target : ℕ
  total : ℕ
  lock : Option (Critical ι)
  taken : List ι
  held : List ι

/-- What the threads do, one after the other. -/
inductive Event (ι : Type)
  /-- An `acquire` in its loop polls the semaphore. -/
  | poll (i : ι)
  /-- An `acquire` that waits is cancelled or dropped. -/
  | cancel (i : ι)
  /-- An `acquire` that took a permit locks the mutex. -/
  | check (i : ι)
  /-- A `Permit` is dropped and locks the mutex. -/
  | drop (i : ι)
  /-- `resize` locks the mutex and sets the target. -/
  | resize (target : ℕ)
  /-- The thread that holds the mutex goes on. -/
  | goOn

variable {ι : Type} [DecidableEq ι] (S : Semaphore ι)

def Limiter.new (target : ℕ) : Limiter S := ⟨S.new target,target,target,none,[],[]⟩

namespace Limiter

/-- The next step of the thread that holds the mutex. -/
def goOn (s : Limiter S) : Critical ι → Limiter S
  | .checking i =>
    if s.target < s.total then { s with lock := some .forgotten }
    else { s with held := i :: s.held, lock := none }
  | .dropping _ =>
    if s.target < s.total then { s with lock := some .forgotten }
    else { s with semaphore := S.addPermits s.semaphore 1, lock := none }
  | .forgotten => { s with total := s.total - 1, lock := none }
  | .resizing target =>
    if s.total < target
      then { s with
        semaphore := S.addPermits s.semaphore (target - s.total)
        lock := some (.raised target) }
      else
        { s with
          semaphore := (S.forgetPermits s.semaphore (s.total - target)).2
          lock := some (.lowered (S.forgetPermits s.semaphore (s.total - target)).1) }
  | .raised target => { s with total := target, lock := none }
  | .lowered forgotten => { s with total := s.total - forgotten, lock := none }

/-- A step, if it can be taken now. -/
def step (s : Limiter S) : Event ι → Option (Limiter S)
  | .poll i =>
    if i ∉ s.taken ∧ i ∉ s.held then
      some { s with
        semaphore := (S.poll s.semaphore i).2
        taken := if (S.poll s.semaphore i).1 then i :: s.taken else s.taken }
    else none
  | .cancel i =>
    if i ∉ s.taken ∧ i ∉ s.held then some { s with semaphore := S.cancel s.semaphore i } else none
  | .check i =>
    if s.lock = none ∧ i ∈ s.taken
      then some { s with taken := s.taken.erase i, lock := some (.checking i) } else none
  | .drop i =>
    if s.lock = none ∧ i ∈ s.held
      then some { s with held := s.held.erase i, lock := some (.dropping i) } else none
  | .resize target =>
    if s.lock = none then some { s with target := target, lock := some (.resizing target) } else none
  | .goOn => s.lock.map (s.goOn S)

variable {S}

/-- The permits that `acquire`s and `Permit`s hold. -/
def inHand (s : Limiter S) : ℕ :=
  s.taken.length + s.held.length + match s.lock with
    | some (.checking _) | some (.dropping _) => 1
    | _ => 0

/-- The recorded total is right, up to what the thread that holds the mutex has still to record. -/
def Balanced (s : Limiter S) : Prop :=
  match s.lock with
  | some .forgotten => s.total = s.inHand + S.permits s.semaphore + 1
  | some (.raised target) => target = s.inHand + S.permits s.semaphore
  | some (.lowered forgotten) => s.total = s.inHand + S.permits s.semaphore + forgotten
  | _ => s.total = s.inHand + S.permits s.semaphore

omit [DecidableEq ι] in
lemma balanced_new (hS : S.Conserves) (target : ℕ) : (Limiter.new S target).Balanced := by
  change target = 0 + 0 + 0 + S.permits (S.new target)
  rw [hS.new]
  omega

omit [DecidableEq ι] in
lemma Balanced.goOn (hS : S.Conserves) {s : Limiter S} (h : s.Balanced) {c : Critical ι}
    (hc : s.lock = some c) : (s.goOn S c).Balanced := by
  unfold Balanced inHand at h
  rw [hc] at h
  cases c with
  | checking i =>
    simp only [Limiter.goOn]
    split_ifs with ht
    · unfold Balanced inHand
      dsimp only at h ⊢
      omega
    · unfold Balanced inHand
      dsimp only at h ⊢
      rw [List.length_cons]
      omega
  | dropping i =>
    simp only [Limiter.goOn]
    split_ifs with ht
    · unfold Balanced inHand
      dsimp only at h ⊢
      omega
    · have hadd := hS.addPermits s.semaphore 1
      unfold Balanced inHand
      dsimp only at h ⊢
      omega
  | forgotten =>
    unfold Balanced inHand
    simp only [Limiter.goOn]
    dsimp only at h ⊢
    omega
  | resizing target =>
    simp only [Limiter.goOn]
    split_ifs with ht
    · have hadd := hS.addPermits s.semaphore (target - s.total)
      unfold Balanced inHand
      dsimp only at h ⊢
      omega
    · obtain ⟨-, hforget⟩ := hS.forgetPermits s.semaphore (s.total - target)
      unfold Balanced inHand
      dsimp only at h ⊢
      omega
  | raised target =>
    unfold Balanced inHand
    simp only [Limiter.goOn]
    dsimp only at h ⊢
    omega
  | lowered forgotten =>
    unfold Balanced inHand
    simp only [Limiter.goOn]
    dsimp only at h ⊢
    omega

omit [DecidableEq ι] in
lemma Balanced.handOver {s : Limiter S} (h : s.Balanced) {sem : S.State} {taken : List ι}
    (hsem : taken.length + S.permits sem = s.taken.length + S.permits s.semaphore) :
    ({ s with semaphore := sem, taken := taken } : Limiter S).Balanced := by
  unfold Balanced inHand at h ⊢
  dsimp only
  cases hc : s.lock with
  | none =>
    rw [hc] at h
    dsimp only at h ⊢
    omega
  | some c =>
    rw [hc] at h
    cases c <;> dsimp only at h ⊢ <;> omega

/-- Every step keeps the balance. -/
theorem Balanced.step (hS : S.Conserves) {s s' : Limiter S} (h : s.Balanced) {e : Event ι}
    (hs : s.step S e = some s') : s'.Balanced := by
  cases e with
  | poll i =>
    simp only [Limiter.step, Option.ite_none_right_eq_some, Option.some.injEq] at hs
    obtain ⟨-, rfl⟩ := hs
    have hpoll := hS.poll s.semaphore i
    apply h.handOver
    split_ifs at hpoll ⊢
    · rw [List.length_cons]
      omega
    · omega
  | cancel i =>
    simp only [Limiter.step, Option.ite_none_right_eq_some, Option.some.injEq] at hs
    obtain ⟨-, rfl⟩ := hs
    exact h.handOver (by rw [hS.cancel])
  | check i =>
    simp only [Limiter.step, Option.ite_none_right_eq_some, Option.some.injEq] at hs
    obtain ⟨⟨hlock, hi⟩, rfl⟩ := hs
    have hlen := List.length_erase_of_mem hi
    have hpos := List.length_pos_of_mem hi
    unfold Balanced inHand at h ⊢
    rw [hlock] at h
    dsimp only at h ⊢
    omega
  | drop i =>
    simp only [Limiter.step, Option.ite_none_right_eq_some, Option.some.injEq] at hs
    obtain ⟨⟨hlock, hi⟩, rfl⟩ := hs
    have hlen := List.length_erase_of_mem hi
    have hpos := List.length_pos_of_mem hi
    unfold Balanced inHand at h ⊢
    rw [hlock] at h
    dsimp only at h ⊢
    omega
  | resize target =>
    simp only [Limiter.step, Option.ite_none_right_eq_some, Option.some.injEq] at hs
    obtain ⟨hlock, rfl⟩ := hs
    unfold Balanced inHand at h ⊢
    rw [hlock] at h
    dsimp only at h ⊢
    omega
  | goOn =>
    simp only [Limiter.step, Option.map_eq_some_iff] at hs
    obtain ⟨c, hc, rfl⟩ := hs
    exact h.goOn hS hc

/-- The permits of the `Permit`s that were returned grow only when an `acquire` with a permit finds
the total within the target. -/
lemma completes {s s' : Limiter S} {e : Event ι} (hs : s.step S e = some s')
    (hgrow : s.held.length < s'.held.length) :
    ∃ i, s.lock = some (.checking i) ∧ e = .goOn ∧ s.total ≤ s.target ∧
      s' = { s with held := i :: s.held, lock := none } := by
  cases e with
  | poll i =>
    simp only [Limiter.step, Option.ite_none_right_eq_some, Option.some.injEq] at hs
    obtain ⟨-, rfl⟩ := hs
    exact absurd hgrow (Nat.lt_irrefl _)
  | cancel i =>
    simp only [Limiter.step, Option.ite_none_right_eq_some, Option.some.injEq] at hs
    obtain ⟨-, rfl⟩ := hs
    exact absurd hgrow (Nat.lt_irrefl _)
  | check i =>
    simp only [Limiter.step, Option.ite_none_right_eq_some, Option.some.injEq] at hs
    obtain ⟨-, rfl⟩ := hs
    exact absurd hgrow (Nat.lt_irrefl _)
  | drop i =>
    simp only [Limiter.step, Option.ite_none_right_eq_some, Option.some.injEq] at hs
    obtain ⟨⟨-, hi⟩, rfl⟩ := hs
    have hlen := List.length_erase_of_mem hi
    dsimp only at hgrow
    omega
  | resize target =>
    simp only [Limiter.step, Option.ite_none_right_eq_some, Option.some.injEq] at hs
    obtain ⟨-, rfl⟩ := hs
    exact absurd hgrow (Nat.lt_irrefl _)
  | goOn =>
    simp only [Limiter.step, Option.map_eq_some_iff] at hs
    obtain ⟨c, hc, rfl⟩ := hs
    cases c with
    | checking i =>
      simp only [Limiter.goOn] at hgrow ⊢
      split_ifs at hgrow ⊢ with ht
      · exact absurd hgrow (Nat.lt_irrefl _)
      · exact ⟨i,hc,trivial,Nat.not_lt.mp ht,rfl⟩
    | dropping i =>
      simp only [Limiter.goOn] at hgrow
      split_ifs at hgrow <;> exact absurd hgrow (Nat.lt_irrefl _)
    | resizing target =>
      simp only [Limiter.goOn] at hgrow
      split_ifs at hgrow <;> exact absurd hgrow (Nat.lt_irrefl _)
    | forgotten | raised | lowered => exact absurd hgrow (Nat.lt_irrefl _)

/-- In every run, whatever the threads do and in whatever order: an `acquire` completes at a moment
when the permits in hand, its own included, are within the target, and whenever no thread holds the
mutex the recorded total is that of the permits in hand and those free in or assigned by the
semaphore. -/
theorem the_ceiling_holds (hS : S.Conserves) {target : ℕ} {s : Limiter S}
    (h : Runs.Run (Limiter.step S) (fun _ _ => True) (Limiter.new S target) s) :
    (∀ e s', s.step S e = some s' → s.held.length < s'.held.length → s'.inHand ≤ s'.target) ∧
    (s.lock = none → s.total =
      s.taken.length + s.held.length + S.available s.semaphore + S.assigned s.semaphore) := by
  have hbalanced : s.Balanced :=
    h.keeps (fun _ _ _ hb _ hs => hb.step hS hs) (balanced_new hS target)
  constructor
  · intro e s' hs hgrow
    have hbalanced' := hbalanced.step hS hs
    obtain ⟨i, hlock, -, ht, rfl⟩ := completes hs hgrow
    change s.total = _ + S.permits s.semaphore at hbalanced'
    dsimp only
    omega
  · intro hlock
    unfold Balanced inHand at hbalanced
    rw [hlock] at hbalanced
    dsimp only [Semaphore.permits] at hbalanced
    omega

/-- Two transfers under a ceiling of two, a third that is given the permit of the first and dropped
after the ceiling is lowered, and a fourth that has to give its permit up. -/
def lowering : List (Event ℕ) :=
  [.poll 1,.check 1,.goOn,.poll 2,.check 2,.goOn,.poll 3,.drop 1,.goOn,.resize 1,.goOn,.goOn,
    .cancel 3,.poll 4,.check 4,.goOn,.goOn]

theorem the_ceiling_holds_lowering :
    ∃ s, Runs.Run (Limiter.step (Semaphore.fifo ℕ)) (fun _ _ => True) (Limiter.new _ 2) s ∧
      s.held = [2] ∧ s.total = s.taken.length + s.held.length +
        (Semaphore.fifo ℕ).available s.semaphore + (Semaphore.fifo ℕ).assigned s.semaphore := by
  have h : ∃ s, Runs.steps (Limiter.step (Semaphore.fifo ℕ)) (Limiter.new _ 2) lowering = some s ∧
      s.lock = none ∧ s.held = [2] := ⟨_,rfl,rfl,rfl⟩
  obtain ⟨s, hs, hlock, hheld⟩ := h
  have hrun := Runs.Run.of_steps hs (Runs.meetAll_true _ _)
  exact ⟨s,hrun,hheld,(the_ceiling_holds (Semaphore.fifo_conserves ℕ) hrun).2 hlock⟩

end Limiter
end RisuNest.External.TransferLimit
