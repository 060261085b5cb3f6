import RisuNest.Lib.Fallible

/-! Programs that may stop with an error or break a rule of their language. What they call outside
moves a state that no rule here looks at. -/
namespace RisuNest

/-- Why a program stops: with an error, or by a step that has no meaning (an underflow, an index
out of range, a loop beyond the rounds it was given). -/
inductive Halt (ε : Type)
  | error (e : ε)
  | panic
  deriving DecidableEq

abbrev Checked (σ ε α : Type) := StateT σ (Except (Halt ε)) α

namespace Checked
variable {σ ε α β γ : Type}

def fail (e : ε) : Checked σ ε α := fun _ => .error (.error e)

def panic : Checked σ ε α := fun _ => .error .panic

def attempt : Except ε α → Checked σ ε α
  | .ok a => pure a
  | .error e => fail e

/-- A call to the outside. -/
def ask (f : σ → Except ε σ) : Checked σ ε Unit := fun s =>
  match f s with
  | .ok t => .ok ((),t)
  | .error e => .error (.error e)

def sub (a b : ℕ) : Checked σ ε ℕ := if b ≤ a then pure (a - b) else panic

def slice (l : List α) (start stop : ℕ) : Checked σ ε (List α) :=
  if start ≤ stop ∧ stop ≤ l.length then pure ((l.drop start).take (stop - start)) else panic

def nth (l : List α) (i : ℕ) : Checked σ ε α :=
  match l[i]? with
  | some a => pure a
  | none => panic

/-- A loop with the rounds it may take. -/
def loop (body : α → Checked σ ε (α ⊕ β)) : ℕ → α → Checked σ ε β
  | 0, _ => panic
  | rounds+1, a => do
    match ← body a with
    | .inl a => loop body rounds a
    | .inr b => pure b

/-- A program never panics, its result has a property, and so has every error it stops with. -/
def Ends (fails : ε → Prop) (m : Checked σ ε α) (Q : α → Prop) : Prop :=
  ∀ s, match m s with
    | .ok (a,_) => Q a
    | .error (.error e) => fails e
    | .error .panic => False

namespace Ends
variable {fails : ε → Prop}

lemma pure {Q : α → Prop} {a : α} (h : Q a) : Ends fails (pure a : Checked σ ε α) Q := fun _ => h

lemma fail {Q : α → Prop} {e : ε} (h : fails e) : Ends fails (fail e : Checked σ ε α) Q := fun _ => h

lemma mono {m : Checked σ ε α} {P Q : α → Prop} (h : Ends fails m P) (hq : ∀ a, P a → Q a) :
    Ends fails m Q := by
  intro s
  have := h s
  revert this
  match m s with
  | .ok (a,_) => exact hq a
  | .error (.error _) => exact id
  | .error .panic => exact id

theorem bind {m : Checked σ ε α} {f : α → Checked σ ε β} {P : α → Prop} {Q : β → Prop}
    (h : Ends fails m P) (hf : ∀ a, P a → Ends fails (f a) Q) : Ends fails (m >>= f) Q := by
  intro s
  have hs := h s
  change match (m s >>= fun p => f p.1 p.2) with
    | .ok (a,_) => Q a
    | .error (.error e) => fails e
    | .error .panic => False
  revert hs
  match m s with
  | .ok (a,t) => exact fun ha => hf a ha t
  | .error (.error _) => exact id
  | .error .panic => exact id

lemma attempt {x : Except ε α} {Q : α → Prop} (hq : ∀ a, x = .ok a → Q a)
    (he : ∀ e, x = .error e → fails e) : Ends fails (attempt x : Checked σ ε α) Q := by
  cases x with
  | ok a => exact pure (hq a rfl)
  | error e => exact fail (he e rfl)

lemma ask {f : σ → Except ε σ} (h : ∀ s e, f s = .error e → fails e) :
    Ends fails (ask f) fun _ => True := by
  intro s
  have := h s
  unfold Checked.ask
  revert this
  match f s with
  | .ok t => exact fun _ => trivial
  | .error e => exact fun h => h e rfl

lemma sub {a b : ℕ} (h : b ≤ a) : Ends fails (sub a b : Checked σ ε ℕ) fun n => n = a - b := by
  unfold Checked.sub
  rw [if_pos h]
  exact pure rfl

lemma slice {l : List α} {start stop : ℕ} (h : start ≤ stop) (hl : stop ≤ l.length) :
    Ends fails (slice l start stop : Checked σ ε (List α))
      fun t => t = (l.drop start).take (stop - start) := by
  unfold Checked.slice
  rw [if_pos ⟨h,hl⟩]
  exact pure rfl

lemma nth {l : List α} {i : ℕ} (h : i < l.length) :
    Ends fails (nth l i : Checked σ ε α) fun a => l[i]? = some a := by
  unfold Checked.nth
  rw [List.getElem?_eq_getElem h]
  exact pure rfl

lemma ite {p : Prop} [Decidable p] {m n : Checked σ ε α} {Q : α → Prop}
    (hm : p → Ends fails m Q) (hn : ¬ p → Ends fails n Q) : Ends fails (if p then m else n) Q := by
  split_ifs with h
  · exact hm h
  · exact hn h

/-- What a round of a loop leaves: a smaller state with the invariant, or a result. -/
@[reducible] def Leaves (I : α → Prop) (measure : α → ℕ) (a : α) (Q : β → Prop) : α ⊕ β → Prop
  | .inl a' => I a' ∧ measure a' < measure a
  | .inr b => Q b

theorem loop {body : α → Checked σ ε (α ⊕ β)} {Q : β → Prop} (I : α → Prop) (measure : α → ℕ)
    (hbody : ∀ a, I a → Ends fails (body a) (Leaves I measure a Q))
    {rounds : ℕ} {a : α} (ha : I a) (hr : measure a < rounds) :
    Ends fails (loop body rounds a) Q := by
  induction rounds generalizing a with
  | zero => exact absurd hr (Nat.not_lt_zero _)
  | succ rounds ih =>
    refine (hbody a ha).bind ?_
    intro r h
    cases r with
    | inl a' => exact ih h.1 (by omega)
    | inr b => exact pure h

/-- A fold keeps an invariant of what it went through and what it has. -/
theorem foldlM {f : β → γ → Checked σ ε β} {l : List γ} (I : List γ → β → Prop)
    (hf : ∀ done x rest b, l = done ++ x :: rest → I done b →
      Ends fails (f b x) (I (done ++ [x]))) {b : β} (hb : I [] b) :
    Ends fails (l.foldlM f b) (I l) := by
  have key : ∀ rest done b, l = done ++ rest → I done b → Ends fails (rest.foldlM f b) (I l) := by
    intro rest
    induction rest with
    | nil =>
      intro done b hl hb
      rw [List.append_nil] at hl
      rw [hl]
      exact pure hb
    | cons x rest ih =>
      intro done b hl hb
      rw [List.foldlM_cons]
      refine (hf done x rest b hl hb).bind fun c hc => ?_
      exact ih (done ++ [x]) c (by rw [hl, List.append_assoc]; rfl) hc
  exact key l [] b rfl hb

lemma not_panic {m : Checked σ ε α} {Q : α → Prop} (h : Ends fails m Q) (s : σ) :
    m s ≠ .error .panic := by
  intro hm
  have := h s
  rw [hm] at this
  exact this

lemma of_ok {m : Checked σ ε α} {Q : α → Prop} (h : Ends fails m Q) {s t : σ} {a : α}
    (hm : m s = .ok (a,t)) : Q a := by
  have := h s
  rw [hm] at this
  exact this

lemma returns {m : Checked σ ε α} {Q : α → Prop} (h : Ends (fun _ => False) m Q) (s : σ) :
    ∃ a t, m s = .ok (a,t) ∧ Q a := by
  have := h s
  revert this
  match m s with
  | .ok (a,t) => exact fun hq => ⟨a,t,rfl,hq⟩
  | .error (.error _) => exact False.elim
  | .error .panic => exact False.elim

end Ends
end Checked
end RisuNest
