import RisuNest.Cbs.Evaluate

/-! How an evaluation goes through a tree, and what it does to its budget. -/
namespace RisuNest.Cbs

variable {α β : Type}

/-! ### Steps of an evaluation -/

theorem eval_bind_eq_ok {x : Eval α} {g : α → Eval β} {m m' : Machine} {b : β} :
    (x >>= g) m = .ok b m' ↔ ∃ a m₁, x m = .ok a m₁ ∧ g a m₁ = .ok b m' := by
  change EStateM.bind x g m = _ ↔ _
  unfold EStateM.bind
  cases x m with
  | ok a m₁ => simp
  | error e m₁ => simp

lemma eval_bind_of_ok {x : Eval α} {g : α → Eval β} {m m' : Machine} {a : α}
    (h : x m = .ok a m') : (x >>= g) m = g a m' := by
  change EStateM.bind x g m = _
  unfold EStateM.bind
  rw [h]

lemma eval_bind_of_error {x : Eval α} {g : α → Eval β} {m m' : Machine} {e : String}
    (h : x m = .error e m') : (x >>= g) m = .error e m' := by
  change EStateM.bind x g m = _
  unfold EStateM.bind
  rw [h]

lemma lift_eq_ok {x : Except String α} {m m' : Machine} {a : α} :
    lift x m = .ok a m' ↔ x = .ok a ∧ m' = m := by
  cases x with
  | error e =>
    change EStateM.Result.error e m = .ok a m' ↔ _
    simp
  | ok b =>
    change EStateM.Result.ok b m = .ok a m' ↔ _
    simp [eq_comm]

lemma tick_eq_ok {m m' : Machine} : tick m = .ok () m' ↔ m.budget.cancel = false ∧
    0 < m.budget.remaining ∧ m' = { m with
      budget := { m.budget with remaining := m.budget.remaining - 1 } } := by
  unfold tick
  split_ifs with hcancel hremaining
  · simp [hcancel]
  · simp [hremaining]
  · simp only [EStateM.Result.ok.injEq, true_and, Bool.eq_false_iff.mpr hcancel]
    constructor
    · intro h
      exact ⟨Nat.pos_of_ne_zero hremaining,h.symm⟩
    · intro h
      exact h.2.symm

lemma checkOutput_eq_ok {out : Units} {m m' : Machine} :
    checkOutput out m = .ok () m' ↔ out.length ≤ m.budget.maxOutput ∧ m' = m := by
  unfold checkOutput
  split_ifs with h
  · simp [Nat.not_le_of_lt h]
  · simp only [EStateM.Result.ok.injEq, true_and]
    constructor
    · intro heq
      exact ⟨Nat.le_of_not_lt h,heq.symm⟩
    · intro heq
      exact heq.2.symm

section
variable {F : Type} {f : Floats F}

lemma evaluateFrom_nil_eq_ok {out w : Units} {m m' : Machine} :
    evaluateFrom f out [] m = .ok w m' ↔ tick m = .ok () m' ∧ w = out := by
  rw [evaluateFrom, eval_bind_eq_ok]
  constructor
  · rintro ⟨u, m₁, htick, h⟩
    cases h
    exact ⟨htick,rfl⟩
  · rintro ⟨htick, rfl⟩
    exact ⟨(),m',htick,rfl⟩

/-- One round of the loop over the nodes. -/
theorem evaluateFrom_cons_eq_ok {out w : Units} {node : Node} {nodes : List Node}
    {m m' : Machine} : evaluateFrom f out (node :: nodes) m = .ok w m' ↔
      ∃ m₁ v next m₂, tick m = .ok () m₁ ∧ nodeOutput f node m₁ = .ok (v,next) m₂ ∧
        (next = false → (out ++ v).length ≤ m₂.budget.maxOutput) ∧
        evaluateFrom f (out ++ v) nodes m₂ = .ok w m' := by
  rw [evaluateFrom, eval_bind_eq_ok]
  constructor
  · rintro ⟨u, m₁, htick, h⟩
    obtain ⟨⟨v, next⟩, m₂, hnode, h⟩ := eval_bind_eq_ok.mp h
    cases next with
    | true => exact ⟨m₁,v,true,m₂,htick,hnode,fun hfalse => absurd hfalse (by simp),h⟩
    | false =>
      have hrest : (checkOutput (out ++ v) >>= fun _ => evaluateFrom f (out ++ v) nodes) m₂ =
        .ok w m' := h
      obtain ⟨u', m₃, hcheck, hlast⟩ := eval_bind_eq_ok.mp hrest
      obtain ⟨hle, rfl⟩ := checkOutput_eq_ok.mp hcheck
      exact ⟨m₁,v,false,m₃,htick,hnode,fun _ => hle,hlast⟩
  · rintro ⟨m₁, v, next, m₂, htick, hnode, hcheck, h⟩
    refine ⟨(),m₁,htick,eval_bind_eq_ok.mpr ⟨(v,next),m₂,hnode,?_⟩⟩
    cases next with
    | true => exact h
    | false => exact eval_bind_eq_ok.mpr ⟨(),m₂,checkOutput_eq_ok.mpr ⟨hcheck rfl,rfl⟩,h⟩

lemma macroCall_eq_ok {children : List Node} {v : Units} {next : Bool} {m m' : Machine} :
    nodeOutput f (.macroCall children) m = .ok (v,next) m' ↔
      ∃ value m₁, evaluateFrom f [] children m = .ok value m₁ ∧
        expand f value m₁ = .ok (v,next) m' := by
  rw [nodeOutput, eval_bind_eq_ok]

/-- What is done with the body of a block, if it is evaluated at all. -/
def bodyPlan (f : Floats F) (kind : UInt8) (value : Units) (c : Context) :
    Except String (Option (Units → Units)) :=
  if kind < 2 then
    .ok (if truth ((split value [32]).headD []) then some (if kind = 0 then id else dedent) else none)
  else (whenOf f c value kind).map fun r => some fun text => blockOutput text r.1 r.2

/-- The body of a block by its plan. -/
def bodyOutput (f : Floats F) (body : List Node) (m : Machine) :
    Option (Units → Units) → Units → Machine → Prop
  | none, v, m' => v = [] ∧ m' = m
  | some change, v, m' => ∃ text, evaluateFrom f [] body m = .ok text m' ∧ v = change text

lemma block_eq_ok {kind : UInt8} {condition body : List Node} {v : Units} {next : Bool}
    {m m' : Machine} : nodeOutput f (.block kind condition body) m = .ok (v,next) m' ↔
      ∃ value m₁ plan, evaluateFrom f [] condition m = .ok value m₁ ∧
        bodyPlan f kind value m₁.context = .ok plan ∧ bodyOutput f body m₁ plan v m' ∧
        next = false := by
  rw [nodeOutput, eval_bind_eq_ok]
  apply exists_congr
  intro value
  apply exists_congr
  intro m₁
  unfold bodyPlan
  by_cases hkind : kind < 2
  · rw [if_pos hkind, if_pos hkind]
    by_cases htruth : truth ((split value [32]).headD []) = true
    · rw [if_pos htruth, if_pos htruth]
      constructor
      · rintro ⟨hcondition, h⟩
        obtain ⟨text, m₂, htext, hlast⟩ := eval_bind_eq_ok.mp h
        cases hlast
        refine ⟨_,hcondition,rfl,⟨text,htext,?_⟩,rfl⟩
        split_ifs <;> rfl
      · rintro ⟨plan, hcondition, hplan, hbody, rfl⟩
        cases hplan
        obtain ⟨text, htext, rfl⟩ := hbody
        refine ⟨hcondition,eval_bind_eq_ok.mpr ⟨text,m',htext,?_⟩⟩
        split_ifs <;> rfl
    · rw [if_neg htruth, if_neg htruth]
      constructor
      · rintro ⟨hcondition, h⟩
        cases h
        exact ⟨none,hcondition,rfl,⟨rfl,rfl⟩,rfl⟩
      · rintro ⟨plan, hcondition, hplan, hbody, rfl⟩
        cases hplan
        obtain ⟨rfl, rfl⟩ := hbody
        exact ⟨hcondition,rfl⟩
  · rw [if_neg hkind, if_neg hkind]
    constructor
    · rintro ⟨hcondition, h⟩
      obtain ⟨c, m₂, hc, hrest⟩ := eval_bind_eq_ok.mp h
      cases hc
      obtain ⟨⟨yes, keep⟩, m₃, hlift, hbody⟩ := eval_bind_eq_ok.mp hrest
      obtain ⟨hwhen, rfl⟩ := lift_eq_ok.mp hlift
      obtain ⟨text, m₄, htext, hlast⟩ := eval_bind_eq_ok.mp hbody
      cases hlast
      rw [hwhen]
      exact ⟨_,hcondition,rfl,⟨text,htext,rfl⟩,rfl⟩
    · rintro ⟨plan, hcondition, hplan, hbody, rfl⟩
      cases hwhen : whenOf f m₁.context value kind with
      | error e =>
        rw [hwhen] at hplan
        cases hplan
      | ok r =>
        rw [hwhen] at hplan
        cases hplan
        obtain ⟨text, htext, rfl⟩ := hbody
        refine ⟨hcondition,eval_bind_eq_ok.mpr ⟨m₁.context,m₁,rfl,?_⟩⟩
        refine eval_bind_eq_ok.mpr ⟨r,m₁,lift_eq_ok.mpr ⟨hwhen,rfl⟩,?_⟩
        exact eval_bind_eq_ok.mpr ⟨text,m',htext,rfl⟩

end

/-! ### Calls and the budget -/

/-- What goes the same way with any budget, and leaves it as it is. -/
def IgnoresBudget (x : Eval α) : Prop :=
  ∀ (m m' n : Machine) (a : α), x m = .ok a m' → n.context = m.context →
    m'.budget = m.budget ∧ x n = .ok a ⟨m'.context,n.budget⟩

namespace IgnoresBudget

lemma pure (a : α) : IgnoresBudget (Pure.pure a) := by
  intro m m' n b h hn
  cases h
  refine ⟨rfl,?_⟩
  rw [← hn]
  rfl

lemma fail (message : String) : IgnoresBudget (Cbs.fail message : Eval α) := by
  intro m m' n a h
  cases h

lemma lift (x : Except String α) : IgnoresBudget (Cbs.lift x) := by
  cases x with
  | ok a => exact pure a
  | error message => exact fail message

lemma context : IgnoresBudget Cbs.context := by
  intro m m' n c h hn
  cases h
  refine ⟨rfl,?_⟩
  rw [← hn]
  rfl

lemma setContext (c : Context) : IgnoresBudget (Cbs.setContext c) := by
  intro m m' n a h hn
  cases h
  exact ⟨rfl,rfl⟩

lemma bind {x : Eval α} {g : α → Eval β} (hx : IgnoresBudget x) (hg : ∀ a, IgnoresBudget (g a)) :
    IgnoresBudget (x >>= g) := by
  intro m m' n b h hn
  obtain ⟨a, m₁, ha, h⟩ := eval_bind_eq_ok.mp h
  obtain ⟨hbudget, hfirst⟩ := hx m m₁ n a ha hn
  obtain ⟨hbudget', hsecond⟩ := hg a m₁ m' ⟨m₁.context,n.budget⟩ b h rfl
  exact ⟨hbudget'.trans hbudget,eval_bind_eq_ok.mpr ⟨a,_,hfirst,hsecond⟩⟩

lemma ite {p : Prop} [Decidable p] {x y : Eval α} (hx : IgnoresBudget x) (hy : IgnoresBudget y) :
    IgnoresBudget (if p then x else y) := by
  split_ifs
  · exact hx
  · exact hy

lemma finiteChoice (arity : ℕ) : IgnoresBudget (finiteChoice arity) := by
  intro m m' n a h hn
  unfold Cbs.finiteChoice at h ⊢
  rw [hn]
  split_ifs at h ⊢
  · cases h
    refine ⟨rfl,?_⟩
    rw [← hn]
  · cases hchoices : m.context.choices with
    | none =>
      rw [hchoices] at h
      cases h
    | some tape =>
      rw [hchoices] at h
      dsimp only at h ⊢
      cases hindex : tape.indices[tape.position]? with
      | none =>
        rw [hindex] at h
        cases h
      | some index =>
        rw [hindex] at h
        dsimp only at h ⊢
        split_ifs at h ⊢
        cases h
        refine ⟨rfl,?_⟩
        unfold withTape
        rw [hn]

section
variable {F : Type} (f : Floats F)

lemma draw : IgnoresBudget (draw f) := by
  refine bind context fun c => ?_
  cases c.choices with
  | some tape => exact pure _
  | none => exact bind (setContext _) fun _ => pure _

lemma random (a : List Units) : IgnoresBudget (random f a) := by
  refine bind (draw f) fun rand => ite ?_ (bind ?_ fun i => pure _)
  · cases rand with
    | none => exact fail _
    | some r => exact pure _
  · cases rand with
    | none => exact finiteChoice _
    | some r => exact pure _

lemma throwDice (sides n total : ℕ) : IgnoresBudget (throwDice sides n total) := by
  induction n generalizing total with
  | zero => exact pure total
  | succ n ih => exact bind (finiteChoice sides) fun i => ih _

lemma finiteRng (op : Operator) (args : List Units) : IgnoresBudget (finiteRng f op args) := by
  refine bind context fun c => ite (fail _) (ite ?_ ?_)
  · exact ite (fail _) (bind (lift _) fun lo => bind (lift _) fun hi =>
      ite (fail _) (bind (finiteChoice _) fun i => pure _))
  · cases args with
    | nil => exact ite (pure _) (fail _)
    | cons text args =>
      refine bind (lift _) fun p => ?_
      exact ite (fail _) (bind (throwDice _ _ _) fun total => pure _)

lemma temporary (op : Operator) (a : List Units) : IgnoresBudget (temporary op a) :=
  bind context fun _ => ite (fail _) (ite (bind (setContext _) fun _ => pure _) (pure _))

lemma operate (op : Operator) (a : List Units) : IgnoresBudget (operate f op a) := by
  cases op with
  | getvar => exact bind context fun _ => pure _
  | getglobalvar => exact bind context fun _ => pure _
  | chatindex => exact bind context fun _ => pure _
  | user => exact bind context fun _ => pure _
  | tempvar => exact temporary _ a
  | gettempvar => exact temporary _ a
  | settempvar => exact temporary _ a
  | random => exact random f a
  | randint => exact finiteRng f _ a
  | dice => exact finiteRng f _ a
  | roll => exact finiteRng f _ a
  | replace => exact fail _
  | greater => exact lift _
  | less => exact lift _
  | greaterequal => exact lift _
  | lessequal => exact lift _
  | arrayelement => exact lift _
  | calculate => exact lift _
  | _ => exact pure _

lemma expand (value : Units) : IgnoresBudget (expand f value) := by
  refine ite (fail _) (ite (bind (lift _) fun _ => pure _) ?_)
  refine bind (lift _) fun name => bind ?_ fun _ => pure _
  unfold dispatch
  cases Operator.named (lowerName name) with
  | none => exact fail _
  | some op => exact ite (fail _) (ite (fail _) (ite (pure _) (operate f op _)))

end
end IgnoresBudget
end RisuNest.Cbs
