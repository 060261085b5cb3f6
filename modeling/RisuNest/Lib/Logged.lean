import RisuNest.Lib.Fallible

/-! Computations that may fail and that keep what they have written until then. -/
namespace RisuNest
universe u

/-- The writes of a computation in order, and its result. -/
structure Logged (ω ε α : Type u) where
  writes : List ω
  result : Except ε α

namespace Logged
variable {ω ε α β : Type u}

instance : Monad (Logged ω ε) where
  pure a := ⟨[],.ok a⟩
  bind x f := match x.result with
    | .error e => ⟨x.writes,.error e⟩
    | .ok a => ⟨x.writes ++ (f a).writes,(f a).result⟩

/-- A step that writes nothing. -/
def check (r : Except ε α) : Logged ω ε α := ⟨[],r⟩

/-- A step that writes and does not fail. -/
def write (ws : List ω) : Logged ω ε PUnit := ⟨ws,.ok ⟨⟩⟩

@[simp] lemma result_pure (a : α) : (pure a : Logged ω ε α).result = .ok a := rfl
@[simp] lemma writes_pure (a : α) : (pure a : Logged ω ε α).writes = [] := rfl
@[simp] lemma result_check (r : Except ε α) : (check r : Logged ω ε α).result = r := rfl
@[simp] lemma writes_check (r : Except ε α) : (check r : Logged ω ε α).writes = [] := rfl
@[simp] lemma result_write (ws : List ω) : (write ws : Logged ω ε PUnit).result = .ok ⟨⟩ := rfl
@[simp] lemma writes_write (ws : List ω) : (write ws : Logged ω ε PUnit).writes = ws := rfl

/-- The results alone are a computation without writes. -/
@[simp] theorem result_bind (x : Logged ω ε α) (f : α → Logged ω ε β) :
    (x >>= f).result = x.result >>= fun a => (f a).result := by
  cases x with
  | mk ws r => cases r <;> rfl

theorem writes_bind_of_ok {x : Logged ω ε α} {f : α → Logged ω ε β} {a : α}
    (h : x.result = .ok a) : (x >>= f).writes = x.writes ++ (f a).writes := by
  cases x with
  | mk ws r =>
    obtain rfl : r = .ok a := h
    rfl

theorem writes_bind_of_error {x : Logged ω ε α} {f : α → Logged ω ε β} {e : ε}
    (h : x.result = .error e) : (x >>= f).writes = x.writes := by
  cases x with
  | mk ws r =>
    obtain rfl : r = .error e := h
    rfl

theorem bind_of_ok {x : Logged ω ε α} {f : α → Logged ω ε β} {a : α} (h : x.result = .ok a) :
    x >>= f = ⟨x.writes ++ (f a).writes,(f a).result⟩ := by
  cases x with
  | mk ws r =>
    obtain rfl : r = .ok a := h
    rfl

theorem bind_of_error {x : Logged ω ε α} {f : α → Logged ω ε β} {e : ε} (h : x.result = .error e) :
    x >>= f = ⟨x.writes,.error e⟩ := by
  cases x with
  | mk ws r =>
    obtain rfl : r = .error e := h
    rfl

@[simp] theorem check_ok_bind {f : α → Logged ω ε β} {a : α} : check (.ok a) >>= f = f a := rfl

theorem forall_writes_bind {P : ω → Prop} {x : Logged ω ε α} {f : α → Logged ω ε β}
    (hx : ∀ w ∈ x.writes, P w) (hf : ∀ a, x.result = .ok a → ∀ w ∈ (f a).writes, P w) :
    ∀ w ∈ (x >>= f).writes, P w := by
  intro w hw
  cases hr : x.result with
  | error e =>
    rw [writes_bind_of_error hr] at hw
    exact hx w hw
  | ok a =>
    rw [writes_bind_of_ok hr] at hw
    rcases List.mem_append.mp hw with hw | hw
    · exact hx w hw
    · exact hf a hr w hw

end Logged
end RisuNest
