import Mathlib.Data.List.Basic

/-! Counting semaphores that give permits to their waiters before the waiters come for them. -/
namespace RisuNest

/-- What a semaphore offers: `poll` hands a permit over when there is one for this waiter and lets
it wait otherwise, and `cancel` drops a waiter that has not come for its permit. -/
structure Semaphore (ι : Type*) where
  State : Type
  new : ℕ → State
  available : State → ℕ
  assigned : State → ℕ
  addPermits : State → ℕ → State
  forgetPermits : State → ℕ → ℕ × State
  poll : State → ι → Bool × State
  cancel : State → ι → State

namespace Semaphore
variable {ι : Type*}

/-- The permits that are free or assigned. -/
def permits (S : Semaphore ι) (s : S.State) : ℕ := S.available s + S.assigned s

/-- No operation loses a permit or makes one up. -/
structure Conserves (S : Semaphore ι) : Prop where
  new : ∀ n, S.permits (S.new n) = n
  addPermits : ∀ s n, S.permits (S.addPermits s n) = S.permits s + n
  forgetPermits : ∀ s n, (S.forgetPermits s n).1 ≤ n ∧
    S.permits (S.forgetPermits s n).2 + (S.forgetPermits s n).1 = S.permits s
  poll : ∀ s i, S.permits (S.poll s i).2 + (if (S.poll s i).1 then 1 else 0) = S.permits s
  cancel : ∀ s i, S.permits (S.cancel s i) = S.permits s

/-! ### First come, first served -/

structure Fifo (ι : Type) where
  free : ℕ
  queue : List ι
  assigned : List ι

namespace Fifo
variable {ι : Type} [DecidableEq ι]

/-- The waiters in front are given permits, and what is left over is free. -/
def addPermits (s : Fifo ι) (n : ℕ) : Fifo ι where
  free := s.free + (n - s.queue.length)
  queue := s.queue.drop n
  assigned := s.assigned ++ s.queue.take n

def forgetPermits (s : Fifo ι) (n : ℕ) : ℕ × Fifo ι :=
  (min n s.free,{ s with free := s.free - n })

def poll (s : Fifo ι) (i : ι) : Bool × Fifo ι :=
  if i ∈ s.assigned then (true,{ s with assigned := s.assigned.erase i })
  else if i ∈ s.queue then (false,s)
  else if 0 < s.free then (true,{ s with free := s.free - 1 })
  else (false,{ s with queue := s.queue ++ [i] })

def cancel (s : Fifo ι) (i : ι) : Fifo ι :=
  if i ∈ s.assigned then addPermits { s with assigned := s.assigned.erase i } 1
  else { s with queue := s.queue.erase i }

end Fifo

/-- The semaphore that serves its waiters in the order they came. -/
def fifo (ι : Type) [DecidableEq ι] : Semaphore ι where
  State := Fifo ι
  new n := ⟨n,[],[]⟩
  available := Fifo.free
  assigned s := s.assigned.length
  addPermits := Fifo.addPermits
  forgetPermits := Fifo.forgetPermits
  poll := Fifo.poll
  cancel := Fifo.cancel

lemma Fifo.addPermits_permits {ι : Type} (s : Fifo ι) (n : ℕ) :
    (s.addPermits n).free + (s.addPermits n).assigned.length = s.free + s.assigned.length + n := by
  simp only [addPermits, List.length_append, List.length_take]
  omega

theorem fifo_conserves (ι : Type) [DecidableEq ι] : (fifo ι).Conserves where
  new n := rfl
  addPermits s n := Fifo.addPermits_permits s n
  forgetPermits s n := by
    change min n s.free ≤ n ∧ s.free - n + s.assigned.length + min n s.free =
      s.free + s.assigned.length
    omega
  poll s i := by
    change (Fifo.poll s i).2.free + (Fifo.poll s i).2.assigned.length +
      (if (Fifo.poll s i).1 then 1 else 0) = s.free + s.assigned.length
    unfold Fifo.poll
    by_cases ha : i ∈ s.assigned
    · have hlen := List.length_erase_of_mem ha
      have hpos := List.length_pos_of_mem ha
      simp only [ha, if_true, hlen]
      omega
    · by_cases hq : i ∈ s.queue
      · simp [ha, hq]
      · by_cases hf : 0 < s.free
        · simp only [ha, hq, hf, if_true, if_false]
          omega
        · simp [ha, hq, hf]
  cancel s i := by
    change (Fifo.cancel s i).free + (Fifo.cancel s i).assigned.length =
      s.free + s.assigned.length
    unfold Fifo.cancel
    split_ifs with ha
    · have hlen := List.length_erase_of_mem ha
      have hpos := List.length_pos_of_mem ha
      rw [Fifo.addPermits_permits]
      simp only [hlen]
      omega
    · rfl

end Semaphore
end RisuNest
