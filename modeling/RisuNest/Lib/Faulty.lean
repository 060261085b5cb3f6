import Mathlib.Logic.Basic
import Mathlib.Tactic.Common

/-! Programs on a state of which every step may fail or be the last one before a crash, and the
rules for what they leave behind. -/
namespace RisuNest

/-- What goes wrong at a step, with how far the step came: the step fails, or the program stops. -/
inductive Fault (κ : Type)
  | error (part : κ)
  | crash (part : κ)

inductive Outcome (ε α : Type)
  | ok (a : α)
  | error (e : ε)
  | crashed
  deriving DecidableEq

/-- A program, run against what happens to its next steps. Past the end of that list nothing goes
wrong. -/
def Faulty (σ κ ε α : Type) : Type :=
  List (Option (Fault κ)) → σ → Outcome ε α × σ × List (Option (Fault κ))

namespace Faulty
variable {σ κ ε α β : Type}

instance : Monad (Faulty σ κ ε) where
  pure a := fun fs s => (.ok a,s,fs)
  bind x f := fun fs s =>
    match x fs s with
    | (.ok a,t,gs) => f a gs t
    | (.error e,t,gs) => (.error e,t,gs)
    | (.crashed,t,gs) => (.crashed,t,gs)

def fail (e : ε) : Faulty σ κ ε α := fun fs s => (.error e,s,fs)

/-- Read the state. -/
def look (f : σ → α) : Faulty σ κ ε α := fun fs s => (.ok (f s),s,fs)

/-- Change what the program holds in memory. -/
def modify (f : σ → σ) : Faulty σ κ ε Unit := fun fs s => (.ok (),f s,fs)

def ofExcept : Except ε α → Faulty σ κ ε α
  | .ok a => pure a
  | .error e => fail e

def demand (p : Prop) [Decidable p] (e : ε) : Faulty σ κ ε Unit := if p then pure () else fail e

/-- The result of a program whose errors are looked at. -/
def attempt (x : Faulty σ κ ε α) : Faulty σ κ ε (Except ε α) := fun fs s =>
  match x fs s with
  | (.ok a,t,gs) => (.ok (.ok a),t,gs)
  | (.error e,t,gs) => (.ok (.error e),t,gs)
  | (.crashed,t,gs) => (.crashed,t,gs)

/-- One step outside of the program. It is refused when its check fails; a fault leaves a part of
its effect. -/
def step (check : σ → Except ε Unit) (lost : ε) (part : κ → σ → σ) (effect : σ → σ) :
    Faulty σ κ ε Unit := fun fs s =>
  match check s, fs.head?.join with
  | .ok (), none => (.ok (),effect s,fs.tail)
  | .ok (), some (.error k) => (.error lost,part k s,fs.tail)
  | .ok (), some (.crash k) => (.crashed,part k s,fs.tail)
  | .error _, some (.crash _) => (.crashed,s,fs.tail)
  | .error e, _ => (.error e,s,fs.tail)

/-- What a program that starts in a state leaves: `Q` when it ends, `E` when it fails and `C` when
it stops. Unless something goes wrong it does not stop, and when it is `sure` it does not fail. -/
def Leaves (C : σ → Prop) (sure : Prop) (x : Faulty σ κ ε α) (Q : α → σ → Prop) (E : σ → Prop)
    (s : σ) : Prop :=
  ∀ fs, match x fs s with
    | (.ok a,t,gs) => Q a t ∧ (fs = [] → gs = [])
    | (.error _,t,gs) => E t ∧ (fs = [] → gs = [] ∧ ¬ sure)
    | (.crashed,t,_) => C t ∧ fs ≠ []

namespace Leaves
variable {C : σ → Prop} {sure : Prop} {x : Faulty σ κ ε α} {Q R : α → σ → Prop} {E F : σ → Prop}
  {s : σ}

lemma pure {a : α} (h : Q a s) : Leaves C sure (pure a : Faulty σ κ ε α) Q E s :=
  fun _ => ⟨h,id⟩

lemma fail {e : ε} (h : E s) (hs : ¬ sure) : Leaves C sure (fail e : Faulty σ κ ε α) Q E s :=
  fun _ => ⟨h,fun hf => ⟨hf,hs⟩⟩

lemma look {f : σ → α} (h : Q (f s) s) : Leaves C sure (look f : Faulty σ κ ε α) Q E s :=
  fun _ => ⟨h,id⟩

lemma modify {f : σ → σ} {Q : Unit → σ → Prop} (h : Q () (f s)) :
    Leaves C sure (modify f : Faulty σ κ ε Unit) Q E s := fun _ => ⟨h,id⟩

/-- What follows a program starts where that one ends. -/
theorem bind {f : α → Faulty σ κ ε β} {P : β → σ → Prop}
    (h : Leaves C sure x (fun a t => Leaves C sure (f a) P E t) E s) :
    Leaves C sure (x >>= f) P E s := by
  intro fs
  have hx := h fs
  change match (match x fs s with
    | (.ok a,t,gs) => f a gs t
    | (.error e,t,gs) => (.error e,t,gs)
    | (.crashed,t,gs) => (.crashed,t,gs)) with
    | (.ok b,t,gs) => P b t ∧ (fs = [] → gs = [])
    | (.error _,t,gs) => E t ∧ (fs = [] → gs = [] ∧ ¬ sure)
    | (.crashed,t,_) => C t ∧ fs ≠ []
  revert hx
  match x fs s with
  | (.error _,t,gs) => exact id
  | (.crashed,t,gs) => exact id
  | (.ok a,t,gs) =>
    rintro ⟨hf,hgs⟩
    have hfa := hf gs
    dsimp only
    revert hfa
    match f a gs t with
    | (.ok b,u,hs) => exact fun ⟨hb,h'⟩ => ⟨hb,fun he => h' (hgs he)⟩
    | (.error _,u,hs) => exact fun ⟨hb,h'⟩ => ⟨hb,fun he => h' (hgs he)⟩
    | (.crashed,u,hs) => exact fun ⟨hb,h'⟩ => ⟨hb,fun he => h' (hgs he)⟩

theorem mono (h : Leaves C sure x R F s) (hq : ∀ a t, R a t → Q a t) (he : ∀ t, F t → E t) :
    Leaves C sure x Q E s := by
  intro fs
  have hx := h fs
  revert hx
  match x fs s with
  | (.ok a,t,gs) => exact fun ⟨ha,h'⟩ => ⟨hq a t ha,h'⟩
  | (.error _,t,gs) => exact fun ⟨ha,h'⟩ => ⟨he t ha,h'⟩
  | (.crashed,t,gs) => exact id

theorem widen {D : σ → Prop} (h : Leaves C sure x Q E s) (hc : ∀ t, C t → D t) :
    Leaves D sure x Q E s := by
  intro fs
  have hx := h fs
  revert hx
  match x fs s with
  | (.ok a,t,gs) => exact id
  | (.error _,t,gs) => exact id
  | (.crashed,t,gs) => exact fun ⟨ha,h'⟩ => ⟨hc t ha,h'⟩

lemma ofExcept {r : Except ε α} (hok : ∀ a, r = .ok a → Q a s)
    (herror : ∀ e, r = .error e → E s ∧ ¬ sure) :
    Leaves C sure (ofExcept r : Faulty σ κ ε α) Q E s := by
  cases r with
  | ok a => exact pure (hok a rfl)
  | error e => exact fail (herror e rfl).1 (herror e rfl).2

lemma demand {p : Prop} [Decidable p] {e : ε} {Q : Unit → σ → Prop} (hp : p → Q () s)
    (hn : ¬ p → E s ∧ ¬ sure) : Leaves C sure (demand p e : Faulty σ κ ε Unit) Q E s := by
  unfold Faulty.demand
  split_ifs with h
  · exact pure (hp h)
  · exact fail (hn h).1 (hn h).2

lemma ite {p : Prop} [Decidable p] {y z : Faulty σ κ ε α} (hy : p → Leaves C sure y Q E s)
    (hz : ¬ p → Leaves C sure z Q E s) : Leaves C sure (if p then y else z) Q E s := by
  split_ifs with h
  · exact hy h
  · exact hz h

theorem attempt {P : Except ε α → σ → Prop}
    (h : Leaves C False x (fun a t => P (.ok a) t) (fun t => ∀ e, P (.error e) t) s) :
    Leaves C sure (attempt x) P E s := by
  intro fs
  have hx := h fs
  unfold Faulty.attempt
  revert hx
  generalize x fs s = r
  obtain ⟨outcome,t,gs⟩ := r
  cases outcome with
  | ok a => exact id
  | error e => exact fun ⟨ha,h'⟩ => ⟨ha e,fun hf => (h' hf).1⟩
  | crashed => exact id

/-- A step: where it is refused nothing changes, and any part of it may be what is left. -/
theorem step {check : σ → Except ε Unit} {lost : ε} {part : κ → σ → σ} {effect : σ → σ}
    {Q : Unit → σ → Prop} (hok : check s = .ok () → Q () (effect s))
    (hpart : check s = .ok () → ∀ k, E (part k s) ∧ C (part k s))
    (hrefused : ∀ e, check s = .error e → E s ∧ C s ∧ ¬ sure) :
    Leaves C sure (step check lost part effect) Q E s := by
  intro fs
  unfold Faulty.step
  cases hc : check s with
  | error e =>
    obtain ⟨hE,hC,hs⟩ := hrefused e hc
    cases fs with
    | nil => exact ⟨hE,fun _ => ⟨rfl,hs⟩⟩
    | cons f fs =>
      match f with
      | none => exact ⟨hE,fun h => nomatch h⟩
      | some (.error _) => exact ⟨hE,fun h => nomatch h⟩
      | some (.crash _) => exact ⟨hC,List.cons_ne_nil _ _⟩
  | ok u =>
    cases fs with
    | nil => exact ⟨hok hc,fun _ => rfl⟩
    | cons f fs =>
      match f with
      | none => exact ⟨hok hc,fun h => nomatch h⟩
      | some (.error k) => exact ⟨(hpart hc k).1,fun h => nomatch h⟩
      | some (.crash k) => exact ⟨(hpart hc k).2,List.cons_ne_nil _ _⟩

/-- A pass over a list keeps an invariant of what it went through. -/
theorem forM {γ : Type} {f : γ → Faulty σ κ ε PUnit} {l : List γ} (I : List γ → σ → Prop)
    (hf : ∀ done x rest t, l = done ++ x :: rest → I done t →
      Leaves C sure (f x) (fun _ => I (done ++ [x])) E t) (h : I [] s) :
    Leaves C sure (l.forM f) (fun _ => I l) E s := by
  have key : ∀ rest done t, l = done ++ rest → I done t →
      Leaves C sure (rest.forM f) (fun _ => I l) E t := by
    intro rest
    induction rest with
    | nil =>
      intro done t hl ht
      rw [List.append_nil] at hl
      exact pure (hl ▸ ht)
    | cons x rest ih =>
      intro done t hl ht
      refine bind ((hf done x rest t hl ht).mono (fun _ u hu => ?_) fun _ => id)
      exact ih (done ++ [x]) u (by rw [hl, List.append_assoc]; rfl) hu
  exact key l [] s rfl h

theorem ends {sure : Prop} (h : Leaves C sure x Q E s) (hs : sure) :
    ∃ a t, x [] s = (.ok a,t,[]) ∧ Q a t := by
  have hx := h []
  revert hx
  match x [] s with
  | (.ok a,t,gs) => exact fun ⟨ha,h'⟩ => ⟨a,t,by rw [h' rfl],ha⟩
  | (.error _,t,gs) => exact fun ⟨_,h'⟩ => absurd hs (h' rfl).2
  | (.crashed,t,gs) => exact fun ⟨_,h'⟩ => absurd rfl h'

end Leaves

lemma bind_of_ok {x : Faulty σ κ ε α} {f : α → Faulty σ κ ε β} {s t : σ} {a : α}
    {fs gs : List (Option (Fault κ))} (h : x fs s = (.ok a,t,gs)) : (x >>= f) fs s = f a gs t := by
  change (match x fs s with
    | (.ok a,t,gs) => f a gs t
    | (.error e,t,gs) => (.error e,t,gs)
    | (.crashed,t,gs) => (.crashed,t,gs)) = f a gs t
  rw [h]

lemma bind_ended {x : Faulty σ κ ε α} {f : α → Faulty σ κ ε β} {s t : σ} {a : α}
    (h : x [] s = (.ok a,t,[])) : (x >>= f) [] s = f a [] t := bind_of_ok h

lemma attempt_ended {x : Faulty σ κ ε α} {s t : σ} {a : α} (h : x [] s = (.ok a,t,[])) :
    attempt x [] s = (.ok (.ok a),t,[]) := by
  unfold attempt
  rw [h]

end Faulty
end RisuNest
