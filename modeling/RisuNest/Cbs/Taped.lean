import RisuNest.Cbs.FoldedRuns

/-! Evaluations whose choices are read from a tape: a longer tape and a greater budget change
nothing before the end of the tape. -/
namespace RisuNest.Cbs

variable {α β : Type}

/-- The machine with another tape, and so many steps more to spend. -/
def Machine.on (m : Machine) (tape : ChoiceTape) (extra : ℕ) : Machine :=
  ⟨{ m.context with choices := some tape },
    { m.budget with remaining := m.budget.remaining + extra }⟩

@[simp] lemma Machine.choices_on (m : Machine) (tape : ChoiceTape) (extra : ℕ) :
    (m.on tape extra).context.choices = some tape := rfl

@[simp] lemma Machine.on_on (m : Machine) (tape tape' : ChoiceTape) (extra extra' : ℕ) :
    (m.on tape extra).on tape' extra' = m.on tape' (extra + extra') := by
  unfold on
  dsimp only
  rw [Nat.add_assoc]

lemma Machine.on_self {m : Machine} {tape : ChoiceTape} (h : m.context.choices = some tape) :
    m.on tape 0 = m := by
  unfold on
  rw [← h]
  rfl

/-- The machine after an evaluation. -/
def left : EStateM.Result String Machine α → Machine
  | .ok _ m => m
  | .error _ m => m

/-- A run up to the end of a tape does not depend on what comes after it. -/
structure Replays (x : Eval α) : Prop where
  ok : ∀ {m m' : Machine} {a : α} {p : List ℕ} {k : ℕ}, m.context.choices = some ⟨p,k,none⟩ →
    k ≤ p.length → x m = .ok a m' → ∃ k', k ≤ k' ∧ k' ≤ p.length ∧
      m'.context.choices = some ⟨p,k',none⟩ ∧ ∀ q extra,
        x (m.on ⟨p ++ q,k,none⟩ extra) = .ok a (m'.on ⟨p ++ q,k',none⟩ extra)
  spends : ∀ {m : Machine} {p : List ℕ} {k : ℕ}, m.context.choices = some ⟨p,k,none⟩ →
    k ≤ p.length → Spent m.budget (left (x m)).budget
  asks : ∀ {m m' : Machine} {e : String} {p : List ℕ} {k n : ℕ} {tape : ChoiceTape},
    m.context.choices = some ⟨p,k,none⟩ → k ≤ p.length → x m = .error e m' →
    m'.context.choices = some tape → tape.nextArity = some n →
      e = "rng-choice-needed" ∧ tape = ⟨p,p.length,some n⟩ ∧ 0 < n ∧ n ≤ 16 ∧
      (∀ extra, x (m.on ⟨p,k,none⟩ extra) = .error e (m'.on tape extra)) ∧
      ∀ i q a m'', x (m.on ⟨p ++ i :: q,k,none⟩ 0) = .ok a m'' →
        ∃ k', p.length < k' ∧ m''.context.choices = some ⟨p ++ i :: q,k',none⟩

/-- An evaluation that takes no choices, does not spend and leaves the tape as it is. -/
def Untaped (x : Eval α) : Prop :=
  ∀ m, m.context.choices.isSome = true →
    (∃ a m', x m = .ok a m' ∧ m'.context.choices = m.context.choices ∧ m'.budget = m.budget ∧
      ∀ tape extra, x (m.on tape extra) = .ok a (m'.on tape extra)) ∨
    ∃ e, x m = .error e m

namespace Replays

lemma of_untaped {x : Eval α} (hx : Untaped x) : Replays x := by
  constructor
  · intro m m' a p k hm hk h
    obtain ⟨a', m₁, ha, hchoices, -, hon⟩ | ⟨e, he⟩ := hx m (by rw [hm]; rfl)
    · rw [h] at ha
      cases ha
      exact ⟨k,le_rfl,hk,hchoices.trans hm,fun q extra => hon _ _⟩
    · rw [h] at he
      cases he
  · intro m p k hm _
    obtain ⟨a', m₁, ha, -, hbudget, -⟩ | ⟨e, he⟩ := hx m (by rw [hm]; rfl)
    · rw [ha]
      exact .of_eq hbudget
    · rw [he]
      exact .refl _
  · intro m m' e p k n tape hm _ h htape hn
    obtain ⟨a', m₁, ha, -⟩ | ⟨e', he⟩ := hx m (by rw [hm]; rfl)
    · rw [h] at ha
      cases ha
    · rw [h] at he
      cases he
      rw [hm] at htape
      cases htape
      cases hn

lemma pure (a : α) : Replays (Pure.pure a) :=
  of_untaped fun m _ => .inl ⟨a,m,rfl,rfl,rfl,fun _ _ => rfl⟩

lemma fail (message : String) : Replays (Cbs.fail message : Eval α) :=
  of_untaped fun _ _ => .inr ⟨message,rfl⟩

lemma lift (x : Except String α) : Replays (Cbs.lift x) := by
  cases x with
  | ok a => exact pure a
  | error message => exact fail message

lemma ite {p : Prop} [Decidable p] {x y : Eval α} (hx : Replays x) (hy : Replays y) :
    Replays (if p then x else y) := by
  split_ifs
  · exact hx
  · exact hy

lemma congr {x y : Eval α} (hy : Replays y)
    (h : ∀ m, m.context.choices.isSome = true → x m = y m) : Replays x := by
  constructor
  · intro m m' a p k hm hk hx
    rw [h m (by rw [hm]; rfl)] at hx
    obtain ⟨k', hle, hle', hchoices, hon⟩ := hy.ok hm hk hx
    refine ⟨k',hle,hle',hchoices,?_⟩
    intro q extra
    rw [h _ rfl]
    exact hon q extra
  · intro m p k hm hk
    rw [h m (by rw [hm]; rfl)]
    exact hy.spends hm hk
  · intro m m' e p k n tape hm hk hx htape hn
    rw [h m (by rw [hm]; rfl)] at hx
    obtain ⟨he, htape', hpos, hle, hmore, hnext⟩ := hy.asks hm hk hx htape hn
    refine ⟨he,htape',hpos,hle,?_,?_⟩
    · intro extra
      rw [h _ rfl]
      exact hmore extra
    · intro i q a m'' ha
      rw [h _ rfl] at ha
      exact hnext i q a m'' ha

theorem bind {x : Eval α} {g : α → Eval β} (hx : Replays x) (hg : ∀ a, Replays (g a)) :
    Replays (x >>= g) := by
  constructor
  · intro m m' b p k hm hk h
    obtain ⟨a, m₁, ha, hb⟩ := eval_bind_eq_ok.mp h
    obtain ⟨k₁, hle, hle', hchoices, hon⟩ := hx.ok hm hk ha
    obtain ⟨k₂, hle₂, hle₂', hchoices₂, hon₂⟩ := (hg a).ok hchoices hle' hb
    refine ⟨k₂,hle.trans hle₂,hle₂',hchoices₂,?_⟩
    intro q extra
    exact eval_bind_eq_ok.mpr ⟨a,_,hon q extra,hon₂ q extra⟩
  · intro m p k hm hk
    have hfirst := hx.spends hm hk
    cases ha : x m with
    | error e m₁ =>
      rw [ha] at hfirst
      rw [eval_bind_of_error ha]
      exact hfirst
    | ok a m₁ =>
      rw [ha] at hfirst
      obtain ⟨k₁, -, hle', hchoices, -⟩ := hx.ok hm hk ha
      rw [eval_bind_of_ok ha]
      exact hfirst.trans ((hg a).spends hchoices hle')
  · intro m m' e p k n tape hm hk h htape hn
    cases ha : x m with
    | error e' m₁ =>
      rw [eval_bind_of_error ha] at h
      cases h
      obtain ⟨he, htape', hpos, hle, hmore, hnext⟩ := hx.asks hm hk ha htape hn
      refine ⟨he,htape',hpos,hle,fun extra => eval_bind_of_error (hmore extra),?_⟩
      intro i q b m'' hb
      obtain ⟨a, m₂, hfirst, hrest⟩ := eval_bind_eq_ok.mp hb
      obtain ⟨k₁, hlt, hchoices⟩ := hnext i q a m₂ hfirst
      have hk' : k ≤ (p ++ i :: q).length := by
        rw [List.length_append]
        omega
      obtain ⟨k₁', -, hle₁, hchoices', -⟩ := hx.ok (m.choices_on _ _) hk' hfirst
      rw [hchoices] at hchoices'
      cases hchoices'
      obtain ⟨k₂, hle₂, -, hchoices₂, -⟩ := (hg a).ok hchoices hle₁ hrest
      exact ⟨k₂,by omega,hchoices₂⟩
    | ok a m₁ =>
      rw [eval_bind_of_ok ha] at h
      obtain ⟨k₁, -, hle', hchoices, hon⟩ := hx.ok hm hk ha
      obtain ⟨he, htape', hpos, hle, hmore, hnext⟩ := (hg a).asks hchoices hle' h htape hn
      refine ⟨he,htape',hpos,hle,?_,?_⟩
      · intro extra
        have hsame := hon [] extra
        rw [List.append_nil] at hsame
        rw [eval_bind_of_ok hsame]
        exact hmore extra
      · intro i q b m'' hb
        rw [eval_bind_of_ok (hon (i :: q) 0)] at hb
        exact hnext i q b m'' hb

lemma context {g : Context → Eval α} (hg : ∀ c, Replays (g c))
    (h : ∀ c tape, g { c with choices := some tape } = g c) : Replays (Cbs.context >>= g) := by
  have hrun : ∀ m, (Cbs.context >>= g) m = g m.context m := fun _ => rfl
  have hon : ∀ m tape extra, (Cbs.context >>= g) (Machine.on m tape extra) =
      g m.context (m.on tape extra) := fun m tape extra =>
    congrFun (h m.context tape) (m.on tape extra)
  constructor
  · intro m m' a p k hm hk hx
    obtain ⟨k', hle, hle', hchoices, hsame⟩ := (hg m.context).ok hm hk ((hrun m).symm.trans hx)
    exact ⟨k',hle,hle',hchoices,fun q extra => (hon ..).trans (hsame q extra)⟩
  · intro m p k hm hk
    rw [hrun]
    exact (hg m.context).spends hm hk
  · intro m m' e p k n tape hm hk hx htape hn
    obtain ⟨he, htape', hpos, hle, hmore, hnext⟩ :=
      (hg m.context).asks hm hk ((hrun m).symm.trans hx) htape hn
    refine ⟨he,htape',hpos,hle,fun extra => (hon ..).trans (hmore extra),?_⟩
    intro i q a m'' ha
    exact hnext i q a m'' ((hon ..).symm.trans ha)

lemma tick : Replays Cbs.tick := by
  constructor
  · intro m m' u p k hm hk h
    obtain ⟨hcancel, hpos, rfl⟩ := tick_eq_ok.mp h
    refine ⟨k,le_rfl,hk,hm,?_⟩
    intro q extra
    refine tick_eq_ok.mpr ⟨hcancel,Nat.add_pos_left hpos extra,?_⟩
    unfold Machine.on
    dsimp only
    rw [Nat.sub_add_comm hpos]
  · intro m p k _ _
    unfold Cbs.tick
    split_ifs
    · exact .refl _
    · exact .refl _
    · exact ⟨rfl,rfl,Nat.sub_le _ _⟩
  · intro m m' e p k n tape hm _ h htape hn
    have hsame : m' = m := by
      unfold Cbs.tick at h
      split_ifs at h <;> cases h <;> rfl
    rw [hsame, hm] at htape
    cases htape
    cases hn

lemma checkOutput (out : Units) : Replays (Cbs.checkOutput out) := by
  apply of_untaped
  intro m _
  by_cases h : m.budget.maxOutput < out.length
  · exact .inr ⟨_,if_pos h⟩
  · exact .inl ⟨(),m,if_neg h,rfl,rfl,fun _ _ => if_neg h⟩

theorem finiteChoice (arity : ℕ) : Replays (finiteChoice arity) := by
  constructor
  · intro m m' a p k hm hk h
    unfold Cbs.finiteChoice at h ⊢
    by_cases hzero : arity = 0
    · rw [if_pos hzero] at h
      cases h
      exact ⟨k,le_rfl,hk,hm,fun _ _ => if_pos hzero⟩
    · rw [if_neg hzero] at h
      by_cases hmany : 16 < arity
      · rw [if_pos hmany] at h
        cases h
      · rw [if_neg hmany, hm] at h
        dsimp only at h
        cases hindex : p[k]? with
        | none =>
          rw [hindex] at h
          cases h
        | some index =>
          rw [hindex] at h
          dsimp only at h
          split_ifs at h with hin
          cases h
          have hlt := (List.getElem?_eq_some_iff.mp hindex).1
          refine ⟨k+1,Nat.le_succ k,hlt,rfl,?_⟩
          intro q extra
          rw [if_neg hzero, if_neg hmany, Machine.choices_on]
          dsimp only
          rw [List.getElem?_append_left hlt, hindex]
          dsimp only
          rw [if_neg hin]
          rfl
  · intro m p k hm _
    unfold Cbs.finiteChoice
    rw [hm]
    dsimp only
    split_ifs
    · exact .refl _
    · exact .refl _
    · cases p[k]? with
      | none => exact ⟨rfl,rfl,le_rfl⟩
      | some index =>
        dsimp only
        split_ifs
        · exact .refl _
        · exact ⟨rfl,rfl,le_rfl⟩
  · intro m m' e p k n tape hm hk h htape hn
    have hstays : m' ≠ m := by
      rintro rfl
      rw [hm] at htape
      cases htape
      cases hn
    unfold Cbs.finiteChoice at h ⊢
    by_cases hzero : arity = 0
    · rw [if_pos hzero] at h
      cases h
    · rw [if_neg hzero] at h
      by_cases hmany : 16 < arity
      · rw [if_pos hmany] at h
        cases h
        exact absurd rfl hstays
      · rw [if_neg hmany, hm] at h
        dsimp only at h
        cases hindex : p[k]? with
        | some index =>
          rw [hindex] at h
          dsimp only at h
          split_ifs at h
          cases h
          exact absurd rfl hstays
        | none =>
          rw [hindex] at h
          cases h
          cases htape
          cases hn
          obtain rfl : k = p.length := Nat.le_antisymm hk (List.getElem?_eq_none_iff.mp hindex)
          refine ⟨rfl,rfl,Nat.pos_of_ne_zero hzero,not_lt.mp hmany,?_,?_⟩
          · intro extra
            rw [if_neg hzero, if_neg hmany, Machine.choices_on]
            dsimp only
            rw [hindex]
            rfl
          · intro i q a m'' ha
            rw [if_neg hzero, if_neg hmany, Machine.choices_on] at ha
            dsimp only at ha
            rw [List.getElem?_append_right le_rfl, Nat.sub_self, List.getElem?_cons_zero] at ha
            dsimp only at ha
            split_ifs at ha
            cases ha
            exact ⟨_,Nat.lt_succ_self _,rfl⟩

section
variable {F : Type} (f : Floats F)

lemma draw : Replays (draw f) := by
  apply (pure (none : Option F)).congr
  intro m hm
  obtain ⟨tape, htape⟩ := Option.isSome_iff_exists.mp hm
  dsimp only [Cbs.draw, Bind.bind, EStateM.bind, Cbs.context]
  rw [htape]

lemma random (a : List Units) : Replays (random f a) := by
  refine bind (draw f) fun rand => ite ?_ (bind ?_ fun i => pure _)
  · cases rand with
    | none => exact fail _
    | some r => exact pure _
  · cases rand with
    | none => exact finiteChoice _
    | some r => exact pure _

lemma throwDice (sides n total : ℕ) : Replays (throwDice sides n total) := by
  induction n generalizing total with
  | zero => exact pure total
  | succ n ih => exact bind (finiteChoice sides) fun i => ih _

lemma randint (args : List Units) : Replays (randint f args) := by
  apply ite (fail _)
  refine bind (lift _) fun lo => bind (lift _) fun hi => ite (fail _) ?_
  exact bind (finiteChoice _) fun i => pure _

lemma throwNotation (roll : Bool) (args : List Units) : Replays (throwNotation f roll args) := by
  cases args with
  | nil => exact ite (pure _) (fail _)
  | cons text args =>
    refine bind (lift _) fun p => ite (fail _) ?_
    exact bind (throwDice _ _ _) fun total => pure _

lemma finiteRng (op : Operator) (args : List Units) : Replays (finiteRng f op args) := by
  refine congr (y := if op = .randint then Cbs.randint f args
    else Cbs.throwNotation f (decide (op = .roll)) args) (ite (randint f args) (throwNotation ..)) ?_
  intro m hm
  have hsome : m.context.choices ≠ none := by
    intro h
    rw [h] at hm
    cases hm
  change (if m.context.choices = none then _ else _ : Eval Units) m = _
  rw [if_neg hsome]

/-- A temporary variable after it is set, or unset. -/
def setTemp (temp : Table Units Units) (key : Units) (value : Option Units) :
    Table Units Units :=
  match value with
  | some v => temp.upsert key v
  | none => temp.erase key

lemma temporary_eq (op : Operator) (a : List Units) (m : Machine) : Cbs.temporary op a m =
    if isKeyOf reservedKeys (argument a 0) then .error "temp-reserved-key" m
    else if op = .settempvar then .ok [] { m with context :=
      { m.context with temp := setTemp m.context.temp (argument a 0) a[1]? } }
    else .ok ((m.context.temp.get (argument a 0)).getD []) m := by
  change (if _ then _ else if _ then _ else _ : Eval Units) m = _
  split_ifs <;> rfl

lemma temporary (op : Operator) (a : List Units) : Replays (temporary op a) := by
  apply of_untaped
  intro m _
  simp only [temporary_eq]
  by_cases hreserved : isKeyOf reservedKeys (argument a 0) = true
  · exact .inr ⟨_,if_pos hreserved⟩
  · simp only [if_neg hreserved]
    by_cases hset : op = .settempvar
    · simp only [if_pos hset]
      exact .inl ⟨_,_,rfl,rfl,rfl,fun _ _ => rfl⟩
    · simp only [if_neg hset]
      exact .inl ⟨_,_,rfl,rfl,rfl,fun _ _ => rfl⟩

lemma operate (op : Operator) (a : List Units) : Replays (operate f op a) := by
  cases op with
  | getvar => exact context (fun _ => pure _) fun _ _ => rfl
  | getglobalvar => exact context (fun _ => pure _) fun _ _ => rfl
  | chatindex => exact context (fun _ => pure _) fun _ _ => rfl
  | user => exact context (fun _ => pure _) fun _ _ => rfl
  | tempvar => exact temporary _ a
  | gettempvar => exact temporary _ a
  | settempvar => exact temporary _ a
  | random => exact random f a
  | randint => exact finiteRng f _ a
  | dice => exact finiteRng f _ a
  | roll => exact finiteRng f _ a
  | replace => exact fail _
  | greater => exact lift _
  | less => exact lift _
  | greaterequal => exact lift _
  | lessequal => exact lift _
  | arrayelement => exact lift _
  | calculate => exact lift _
  | _ => exact pure _

lemma expand (value : Units) : Replays (expand f value) := by
  refine ite (fail _) (ite (bind (lift _) fun _ => pure _) ?_)
  refine bind (lift _) fun name => bind ?_ fun _ => pure _
  unfold dispatch
  cases Operator.named (lowerName name) with
  | none => exact fail _
  | some op => exact ite (fail _) (ite (fail _) (ite (pure _) (operate f op _)))

lemma conditionBit_tape (c : Context) (tape : ChoiceTape) :
    conditionBit { c with choices := some tape } = conditionBit c := rfl

lemma whenFrom_tape (c : Context) (tape : ChoiceTape) (keep : Bool) (b : Units)
    (stack : List Units) : whenFrom f { c with choices := some tape } keep b stack =
      whenFrom f c keep b stack := by
  fun_induction whenFrom f c keep b stack <;> simp_all [whenFrom, conditionBit_tape]

lemma whenOf_tape (c : Context) (tape : ChoiceTape) (value : Units) (kind : UInt8) :
    whenOf f { c with choices := some tape } value kind = whenOf f c value kind := by
  unfold whenOf
  simp only [whenFrom_tape]

mutual
theorem evaluateFrom : (out : Units) → (nodes : List Node) → Replays (evaluateFrom f out nodes)
  | out, [] => by
    rw [Cbs.evaluateFrom]
    exact bind tick fun _ => pure _
  | out, node :: nodes => by
    rw [Cbs.evaluateFrom]
    refine bind tick fun _ => bind (nodeOutput node) fun r => ?_
    obtain ⟨v, next⟩ := r
    cases next with
    | true => exact evaluateFrom (out ++ v) nodes
    | false => exact bind (checkOutput (out ++ v)) fun _ => evaluateFrom (out ++ v) nodes

theorem nodeOutput : (node : Node) → Replays (nodeOutput f node)
  | .text v => by
    rw [Cbs.nodeOutput]
    exact pure _
  | .block kind condition body => by
    rw [Cbs.nodeOutput]
    refine bind (evaluateFrom [] condition) fun v => ite ?_ ?_
    · exact ite (bind (evaluateFrom [] body) fun _ => pure _) (pure _)
    · refine context (fun c => bind (lift _) fun r => ?_) ?_
      · exact bind (evaluateFrom [] body) fun _ => pure _
      · intro c tape
        rw [whenOf_tape]
  | .macroCall children => by
    rw [Cbs.nodeOutput]
    exact bind (evaluateFrom [] children) fun value => expand f value
end

end
end Replays
end RisuNest.Cbs
