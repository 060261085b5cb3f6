import RisuNest.Cbs.Compile
import RisuNest.Cbs.Folding

/-! Folded scripts evaluate to what the scripts do, up to a limit that is not checked after
calculations. -/
namespace RisuNest.Cbs

/-! ### Budgets -/

/-- A machine in the same context, with more steps left. -/
structure Roomier (m n : Machine) : Prop where
  context : n.context = m.context
  maxOutput : n.budget.maxOutput = m.budget.maxOutput
  cancel : n.budget.cancel = m.budget.cancel
  remaining : m.budget.remaining ≤ n.budget.remaining

lemma Roomier.refl (m : Machine) : Roomier m m := ⟨rfl,rfl,rfl,le_rfl⟩

/-- What an evaluation leaves of a budget. -/
structure Spent (b b' : Budget) : Prop where
  maxOutput : b'.maxOutput = b.maxOutput
  cancel : b'.cancel = b.cancel
  remaining : b'.remaining ≤ b.remaining

lemma Spent.refl (b : Budget) : Spent b b := ⟨rfl,rfl,le_rfl⟩

lemma Spent.trans {a b c : Budget} (h : Spent a b) (h' : Spent b c) : Spent a c :=
  ⟨h'.maxOutput.trans h.maxOutput,h'.cancel.trans h.cancel,h'.remaining.trans h.remaining⟩

lemma Spent.of_eq {b b' : Budget} (h : b' = b) : Spent b b' := by
  rw [h]
  exact .refl b

lemma tick_spends {m m' : Machine} (h : tick m = .ok () m') : Spent m.budget m'.budget := by
  obtain ⟨-, -, rfl⟩ := tick_eq_ok.mp h
  exact ⟨rfl,rfl,Nat.sub_le _ _⟩

lemma tick_context {m m' : Machine} (h : tick m = .ok () m') : m'.context = m.context := by
  obtain ⟨-, -, rfl⟩ := tick_eq_ok.mp h
  rfl

lemma Roomier.tick {m m' n : Machine} (h : Roomier m n) (hm : tick m = .ok () m') :
    ∃ n', tick n = .ok () n' ∧ Roomier m' n' := by
  obtain ⟨hcancel, hremaining, rfl⟩ := tick_eq_ok.mp hm
  have hroom := h.remaining
  refine ⟨_,tick_eq_ok.mpr ⟨h.cancel.trans hcancel,by omega,rfl⟩,h.context,h.maxOutput,h.cancel,?_⟩
  change m.budget.remaining - 1 ≤ n.budget.remaining - 1
  omega

lemma Roomier.of_spent {m m' n : Machine} (h : Roomier m n) (hs : Spent m.budget m'.budget)
    (hc : m'.context = m.context) : Roomier m' n :=
  ⟨h.context.trans hc.symm,h.maxOutput.trans hs.maxOutput.symm,h.cancel.trans hs.cancel.symm,
    hs.remaining.trans h.remaining⟩

lemma Roomier.step {α : Type} {x : Eval α} (hx : IgnoresBudget x) {m m' n : Machine} {a : α}
    (h : Roomier m n) (hm : x m = .ok a m') : ∃ n', x n = .ok a n' ∧ Roomier m' n' := by
  obtain ⟨hbudget, hn⟩ := hx m m' n a hm h.context
  refine ⟨_,hn,rfl,?_,?_,?_⟩
  · exact h.maxOutput.trans (congrArg Budget.maxOutput hbudget.symm)
  · exact h.cancel.trans (congrArg Budget.cancel hbudget.symm)
  · rw [hbudget]
    exact h.remaining

section
variable {F : Type} (f : Floats F)

mutual
lemma evaluateFrom_spends : ∀ {nodes : List Node} {out w : Units} {m m' : Machine},
    evaluateFrom f out nodes m = .ok w m' → Spent m.budget m'.budget
  | [], out, w, m, m', h => tick_spends (evaluateFrom_nil_eq_ok.mp h).1
  | node :: nodes, out, w, m, m', h => by
    obtain ⟨m₁, v, next, m₂, htick, hnode, -, h⟩ := evaluateFrom_cons_eq_ok.mp h
    exact (tick_spends htick).trans ((nodeOutput_spends hnode).trans (evaluateFrom_spends h))

lemma nodeOutput_spends : ∀ {node : Node} {v : Units} {next : Bool} {m m' : Machine},
    nodeOutput f node m = .ok (v,next) m' → Spent m.budget m'.budget
  | .text s, v, next, m, m', h => by
    cases h
    exact .refl _
  | .block kind condition body, v, next, m, m', h => by
    obtain ⟨value, m₁, plan, hcondition, -, hbody, -⟩ := block_eq_ok.mp h
    have hspent := evaluateFrom_spends hcondition
    cases plan with
    | none =>
      rw [hbody.2]
      exact hspent
    | some change =>
      obtain ⟨text, htext, -⟩ := hbody
      exact hspent.trans (evaluateFrom_spends htext)
  | .macroCall children, v, next, m, m', h => by
    obtain ⟨value, m₁, hchildren, h⟩ := macroCall_eq_ok.mp h
    exact (evaluateFrom_spends hchildren).trans
      (.of_eq (IgnoresBudget.expand f value m₁ m' m₁ _ h rfl).1)
end

/-! ### What is folded -/

lemma evaluateFrom_texts {nodes : List Node} {e : Units} (he : expressionOf nodes = some e)
    {out w : Units} {m m' : Machine} (h : evaluateFrom f out nodes m = .ok w m') :
    w = out ++ e ∧ m'.context = m.context := by
  induction nodes generalizing e out m with
  | nil =>
    cases he
    obtain ⟨htick, rfl⟩ := evaluateFrom_nil_eq_ok.mp h
    exact ⟨(List.append_nil _).symm,tick_context htick⟩
  | cons node nodes ih =>
    cases node with
    | block kind condition body => cases he
    | macroCall children => cases he
    | text s =>
      obtain ⟨rest, hrest, rfl⟩ := Option.map_eq_some_iff.mp he
      obtain ⟨m₁, v, next, m₂, htick, hnode, -, h⟩ := evaluateFrom_cons_eq_ok.mp h
      cases hnode
      obtain ⟨rfl, hcontext⟩ := ih hrest h
      exact ⟨List.append_assoc _ _ _,hcontext.trans (tick_context htick)⟩

lemma constantValue_eq_some {children : List Node} {value : Units}
    (h : constantValue f children = some value) :
    ∃ e next, expressionOf children = some e ∧ ∀ m, expand f e m = .ok (value,next) m := by
  unfold constantValue at h
  cases he : expressionOf children with
  | none =>
    rw [he] at h
    cases h
  | some e =>
    rw [he] at h
    dsimp only at h
    split_ifs at h with hfoldable
    obtain ⟨x, hx⟩ := expand_of_foldable f hfoldable
    cases hrun : evaluate f [.macroCall children] ⟨.initial,.initial⟩ with
    | error message m =>
      rw [hrun] at h
      cases h
    | ok v m =>
      rw [hrun] at h
      cases h
      obtain ⟨m₁, v, next, m₂, -, hnode, -, hlast⟩ := evaluateFrom_cons_eq_ok.mp hrun
      obtain ⟨text, m₃, htext, hexpand⟩ := macroCall_eq_ok.mp hnode
      obtain ⟨rfl, -⟩ := evaluateFrom_texts f he htext
      obtain ⟨-, rfl⟩ := evaluateFrom_nil_eq_ok.mp hlast
      rw [hx] at hexpand
      obtain ⟨rfl, -⟩ := lift_eq_ok.mp hexpand
      exact ⟨text,next,rfl,hx⟩

mutual
lemma evaluateFrom_folded : ∀ {nodes : List Node} {e out w : Units} {m m' : Machine},
    expressionOf (foldConstants f nodes).1 = some e → evaluateFrom f out nodes m = .ok w m' →
    w = out ++ e ∧ m'.context = m.context
  | [], e, out, w, m, m', he, h => evaluateFrom_texts f he h
  | node :: nodes, e, out, w, m, m', he, h => by
    obtain ⟨m₁, v, next, m₂, htick, hnode, -, h⟩ := evaluateFrom_cons_eq_ok.mp h
    cases hfolded : (foldNode f node).1 with
    | block kind condition body =>
      simp only [foldConstants, hfolded] at he
      cases he
    | macroCall children =>
      simp only [foldConstants, hfolded] at he
      cases he
    | text s =>
      simp only [foldConstants, hfolded] at he
      obtain ⟨rest, hrest, rfl⟩ := Option.map_eq_some_iff.mp he
      obtain ⟨rfl, hcontext⟩ := nodeOutput_folded hfolded hnode
      obtain ⟨rfl, hcontext'⟩ := evaluateFrom_folded hrest h
      exact ⟨List.append_assoc _ _ _,hcontext'.trans (hcontext.trans (tick_context htick))⟩

lemma nodeOutput_folded : ∀ {node : Node} {s v : Units} {next : Bool} {m m' : Machine},
    (foldNode f node).1 = .text s → nodeOutput f node m = .ok (v,next) m' →
    v = s ∧ m'.context = m.context
  | .text t, s, v, next, m, m', hs, h => by
    cases hs
    cases h
    exact ⟨rfl,rfl⟩
  | .block kind condition body, s, v, next, m, m', hs, h => by cases hs
  | .macroCall children, s, v, next, m, m', hs, h => by
    cases hvalue : constantValue f (foldConstants f children).1 with
    | none =>
      simp only [foldNode, hvalue] at hs
      cases hs
    | some value =>
      simp only [foldNode, hvalue] at hs
      cases hs
      obtain ⟨e, next', he, hexpand⟩ := constantValue_eq_some f hvalue
      obtain ⟨text, m₁, htext, h⟩ := macroCall_eq_ok.mp h
      obtain ⟨rfl, hcontext⟩ := evaluateFrom_folded he htext
      rw [hexpand] at h
      cases h
      exact ⟨rfl,hcontext⟩
end

/-! ### Calculations above the limit -/

mutual
/-- A calculation that is folded, and is not part of what is, makes the output too long: the loop
goes on with the next node before the output is checked. -/
def overrunsFrom (out : Units) : List Node → Machine → Bool
  | [], _ => false
  | node :: nodes, m =>
    match tick m with
    | .error _ _ => false
    | .ok _ m =>
      overrunsIn node m ||
        match nodeOutput f node m with
        | .error _ _ => false
        | .ok (v,next) m =>
          (next && isText (foldNode f node).1 && decide (m.budget.maxOutput < (out ++ v).length)) ||
            overrunsFrom (out ++ v) nodes m

def overrunsIn : Node → Machine → Bool
  | .text _, _ => false
  | .block kind condition body, m =>
    overrunsFrom [] condition m ||
      match evaluateFrom f [] condition m with
      | .error _ _ => false
      | .ok value m =>
        match bodyPlan f kind value m.context with
        | .ok (some _) => overrunsFrom [] body m
        | _ => false
  | .macroCall children, m =>
    (constantValue f (foldConstants f children).1).isNone && overrunsFrom [] children m
end

def overruns (nodes : List Node) (m : Machine) : Bool := overrunsFrom f [] nodes m

lemma overrunsFrom_cons {out : Units} {node : Node} {nodes : List Node} {m m₁ m₂ : Machine}
    {v : Units} {next : Bool} (htick : tick m = .ok () m₁)
    (hnode : nodeOutput f node m₁ = .ok (v,next) m₂) :
    overrunsFrom f out (node :: nodes) m = (overrunsIn f node m₁ ||
      ((next && isText (foldNode f node).1 && decide (m₂.budget.maxOutput < (out ++ v).length)) ||
        overrunsFrom f (out ++ v) nodes m₂)) := by
  rw [overrunsFrom, htick]
  dsimp only
  rw [hnode]

lemma overrunsIn_block {kind : UInt8} {condition body : List Node} {m m₁ : Machine} {value : Units}
    (hcondition : evaluateFrom f [] condition m = .ok value m₁) :
    overrunsIn f (.block kind condition body) m = (overrunsFrom f [] condition m ||
      match bodyPlan f kind value m₁.context with
      | .ok (some _) => overrunsFrom f [] body m₁
      | _ => false) := by
  rw [overrunsIn, hcondition]

mutual
lemma evaluateFrom_same : ∀ {nodes : List Node} {out w : Units} {m m' n : Machine},
    evaluateFrom f out nodes m = .ok w m' → overrunsFrom f out nodes m = false → Roomier m n →
    ∃ n', evaluateFrom f out (foldConstants f nodes).1 n = .ok w n' ∧ Roomier m' n'
  | [], out, w, m, m', n, h, _, hn => by
    obtain ⟨htick, rfl⟩ := evaluateFrom_nil_eq_ok.mp h
    obtain ⟨n', htick', hn'⟩ := hn.tick htick
    exact ⟨n',evaluateFrom_nil_eq_ok.mpr ⟨htick',rfl⟩,hn'⟩
  | node :: nodes, out, w, m, m', n, h, hover, hn => by
    obtain ⟨m₁, v, next, m₂, htick, hnode, hcheck, h⟩ := evaluateFrom_cons_eq_ok.mp h
    rw [overrunsFrom_cons f htick hnode, Bool.or_eq_false_iff, Bool.or_eq_false_iff] at hover
    obtain ⟨hin, hlimit, hrest⟩ := hover
    obtain ⟨n₁, htick', hn₁⟩ := hn.tick htick
    obtain ⟨n₂, next', hnode', hn₂, hnext⟩ := nodeOutput_same hnode hin hn₁
    obtain ⟨n', h', hn'⟩ := evaluateFrom_same h hrest hn₂
    refine ⟨n',evaluateFrom_cons_eq_ok.mpr ⟨n₁,v,next',n₂,htick',hnode',?_,h'⟩,hn'⟩
    -- a check that the nodes did not make is one of a calculation that was folded
    intro hfalse
    rw [hn₂.maxOutput]
    cases next with
    | false => exact hcheck rfl
    | true =>
      have htext := hnext.resolve_left (by simp [hfalse])
      rw [htext, Bool.true_and, Bool.true_and, decide_eq_false_iff_not] at hlimit
      exact Nat.le_of_not_lt hlimit

lemma nodeOutput_same : ∀ {node : Node} {v : Units} {next : Bool} {m m' n : Machine},
    nodeOutput f node m = .ok (v,next) m' → overrunsIn f node m = false → Roomier m n →
    ∃ n' next', nodeOutput f (foldNode f node).1 n = .ok (v,next') n' ∧ Roomier m' n' ∧
      (next' = next ∨ isText (foldNode f node).1 = true)
  | .text s, v, next, m, m', n, h, _, hn => by
    cases h
    exact ⟨n,false,rfl,hn,.inl rfl⟩
  | .block kind condition body, v, next, m, m', n, h, hover, hn => by
    obtain ⟨value, m₁, plan, hcondition, hplan, hbody, rfl⟩ := block_eq_ok.mp h
    rw [overrunsIn_block f hcondition, hplan, Bool.or_eq_false_iff] at hover
    obtain ⟨n₁, hcondition', hn₁⟩ := evaluateFrom_same hcondition hover.1 hn
    have hplan' : bodyPlan f kind value n₁.context = .ok plan := by rw [hn₁.context, hplan]
    cases plan with
    | none =>
      obtain ⟨rfl, rfl⟩ := hbody
      exact ⟨n₁,false,block_eq_ok.mpr ⟨value,n₁,none,hcondition',hplan',⟨rfl,rfl⟩,rfl⟩,hn₁,.inl rfl⟩
    | some change =>
      obtain ⟨text, htext, rfl⟩ := hbody
      obtain ⟨n', htext', hn'⟩ := evaluateFrom_same htext hover.2 hn₁
      exact ⟨n',false,block_eq_ok.mpr
        ⟨value,n₁,some change,hcondition',hplan',⟨text,htext',rfl⟩,rfl⟩,hn',.inl rfl⟩
  | .macroCall children, v, next, m, m', n, h, hover, hn => by
    cases hvalue : constantValue f (foldConstants f children).1 with
    | some s =>
      have hfolded : (foldNode f (.macroCall children)).1 = .text s := by
        simp only [foldNode, hvalue]
      obtain ⟨rfl, hcontext⟩ := nodeOutput_folded f hfolded h
      rw [hfolded]
      exact ⟨n,false,rfl,hn.of_spent (nodeOutput_spends f h) hcontext,.inr rfl⟩
    | none =>
      have hkept : (foldNode f (.macroCall children)).1 =
          .macroCall (foldConstants f children).1 := by
        simp only [foldNode, hvalue]
      rw [overrunsIn, hvalue, Option.isNone_none, Bool.true_and] at hover
      obtain ⟨text, m₁, htext, h⟩ := macroCall_eq_ok.mp h
      obtain ⟨n₁, htext', hn₁⟩ := evaluateFrom_same htext hover hn
      obtain ⟨n', hexpand, hn'⟩ := hn₁.step (IgnoresBudget.expand f text) h
      rw [hkept]
      exact ⟨n',next,macroCall_eq_ok.mpr ⟨text,n₁,htext',hexpand⟩,hn',.inl rfl⟩
end

mutual
lemma evaluateFrom_stops : ∀ {nodes : List Node} {out w w' : Units} {m m' n n' : Machine},
    evaluateFrom f out nodes m = .ok w m' → overrunsFrom f out nodes m = true → Roomier m n →
    evaluateFrom f out (foldConstants f nodes).1 n ≠ .ok w' n'
  | [], out, w, w', m, m', n, n', _, hover, _ => by cases hover
  | node :: nodes, out, w, w', m, m', n, n', h, hover, hn => by
    intro hfolded
    obtain ⟨m₁, v, next, m₂, htick, hnode, -, h⟩ := evaluateFrom_cons_eq_ok.mp h
    obtain ⟨n₁, v', next', n₂, htick', hnode', hcheck', hfolded⟩ :=
      evaluateFrom_cons_eq_ok.mp hfolded
    obtain ⟨n₃, htick'', hn₁⟩ := hn.tick htick
    rw [htick'] at htick''
    cases htick''
    rw [overrunsFrom_cons f htick hnode] at hover
    cases hin : overrunsIn f node m₁ with
    | true => exact nodeOutput_stops hnode hin hn₁ hnode'
    | false =>
      obtain ⟨n₄, next'', hsame, hn₂, -⟩ := nodeOutput_same f hnode hin hn₁
      rw [hnode'] at hsame
      cases hsame
      rw [hin, Bool.false_or, Bool.or_eq_true, Bool.and_eq_true, Bool.and_eq_true] at hover
      rcases hover with ⟨⟨-, htext⟩, hlong⟩ | hrest
      · -- the text that the calculation was folded to is checked
        have hfalse : next' = false := by
          cases hone : (foldNode f node).1 with
          | text s =>
            rw [hone] at hnode'
            cases hnode'
            rfl
          | block kind condition body =>
            rw [hone] at htext
            cases htext
          | macroCall children =>
            rw [hone] at htext
            cases htext
        have hle := hcheck' hfalse
        rw [hn₂.maxOutput] at hle
        exact absurd (of_decide_eq_true hlong) (Nat.not_lt_of_le hle)
      · exact evaluateFrom_stops h hrest hn₂ hfolded

lemma nodeOutput_stops : ∀ {node : Node} {v v' : Units} {next next' : Bool}
    {m m' n n' : Machine}, nodeOutput f node m = .ok (v,next) m' → overrunsIn f node m = true →
    Roomier m n → nodeOutput f (foldNode f node).1 n ≠ .ok (v',next') n'
  | .text s, v, v', next, next', m, m', n, n', _, hover, _ => by cases hover
  | .block kind condition body, v, v', next, next', m, m', n, n', h, hover, hn => by
    intro hfolded
    obtain ⟨value, m₁, plan, hcondition, hplan, hbody, -⟩ := block_eq_ok.mp h
    obtain ⟨value', n₁, plan', hcondition', hplan', hbody', -⟩ := block_eq_ok.mp hfolded
    rw [overrunsIn_block f hcondition, hplan] at hover
    cases hfirst : overrunsFrom f [] condition m with
    | true => exact evaluateFrom_stops hcondition hfirst hn hcondition'
    | false =>
      rw [hfirst, Bool.false_or] at hover
      obtain ⟨n₂, hsame, hn₁⟩ := evaluateFrom_same f hcondition hfirst hn
      rw [hcondition'] at hsame
      cases hsame
      rw [hn₁.context, hplan] at hplan'
      cases hplan'
      cases plan with
      | none => cases hover
      | some change =>
        obtain ⟨text, htext, -⟩ := hbody
        obtain ⟨text', htext', -⟩ := hbody'
        exact evaluateFrom_stops htext hover hn₁ htext'
  | .macroCall children, v, v', next, next', m, m', n, n', h, hover, hn => by
    intro hfolded
    rw [overrunsIn, Bool.and_eq_true, Option.isNone_iff_eq_none] at hover
    obtain ⟨hvalue, hover⟩ := hover
    have hkept : (foldNode f (.macroCall children)).1 =
        .macroCall (foldConstants f children).1 := by
      simp only [foldNode, hvalue]
    rw [hkept] at hfolded
    obtain ⟨text, m₁, htext, -⟩ := macroCall_eq_ok.mp h
    obtain ⟨text', n₁, htext', -⟩ := macroCall_eq_ok.mp hfolded
    exact evaluateFrom_stops htext hover hn htext'
end

/-- A tree that evaluates is folded to one that evaluates to the same and changes the same, with the
same budget, and that is not changed by folding again: that is so exactly if no calculation that is
folded makes the output too long. -/
theorem folding_preserves_iff {nodes : List Node} {m m' : Machine} {out : Units}
    (h : evaluate f nodes m = .ok out m') :
    ((∃ n', evaluate f (foldConstants f nodes).1 m = .ok out n' ∧ n'.context = m'.context) ∧
      foldConstants f (foldConstants f nodes).1 = ((foldConstants f nodes).1,0)) ↔
    overruns f nodes m = false := by
  constructor
  · rintro ⟨⟨n', hfolded, -⟩, -⟩
    cases hover : overruns f nodes m with
    | false => rfl
    | true => exact absurd hfolded (evaluateFrom_stops f h hover (.refl m))
  · intro hover
    obtain ⟨n', hfolded, hn'⟩ := evaluateFrom_same f h hover (.refl m)
    exact ⟨⟨n',hfolded,hn'.context⟩,foldConstants_twice f nodes⟩

end

/-- A text, and a calculation after it. -/
def sampleScript : List Node := [.text (units "abc"),.macroCall [.text (units "? 1")]]

/-- The text is as long as the output may be. -/
def sampleMachine : Machine := ⟨.initial,⟨100,3,false⟩⟩

/-- The calculation is a text after folding, and the text is checked. -/
theorem folding_refused : compile (units "abc{{? 1}}") = .ok sampleScript ∧
    (∃ m', evaluate wholeFloats sampleScript sampleMachine = .ok (units "abc1") m') ∧
    ∃ m', evaluate wholeFloats (foldConstants wholeFloats sampleScript).1 sampleMachine =
      .error "output-limit" m' :=
  ⟨rfl,⟨_,rfl⟩,⟨_,rfl⟩⟩

theorem folding_preserves_iff_sample : ∃ m', evaluate wholeFloats sampleScript
    ⟨.initial,⟨100,4,false⟩⟩ = .ok (units "abc1") m' ∧
    (((∃ n', evaluate wholeFloats (foldConstants wholeFloats sampleScript).1
        ⟨.initial,⟨100,4,false⟩⟩ = .ok (units "abc1") n' ∧ n'.context = m'.context) ∧
      foldConstants wholeFloats (foldConstants wholeFloats sampleScript).1 =
        ((foldConstants wholeFloats sampleScript).1,0)) ↔
      overruns wholeFloats sampleScript ⟨.initial,⟨100,4,false⟩⟩ = false) :=
  ⟨_,rfl,folding_preserves_iff wholeFloats rfl⟩

end RisuNest.Cbs
