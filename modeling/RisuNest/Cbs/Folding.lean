import RisuNest.Cbs.Running

/-! Constant calls are replaced by what they give, before a script is evaluated (`cbs.rs`). -/
namespace RisuNest.Cbs

/-- The text of nodes that are texts. -/
def expressionOf : List Node → Option Units
  | [] => some []
  | .text s :: nodes => (expressionOf nodes).map fun e => s ++ e
  | _ :: _ => none

def isText : Node → Bool
  | .text _ => true
  | _ => false

/-- What is tried: a calculation, or an operator on its arguments alone. -/
def foldable (expression : Units) : Bool :=
  let name := match ascii (nameUnits (expression.takeWhile (· != 58))) with
    | .ok s => s
    | .error _ => ""
  (units "? ").isPrefixOf expression || (Operator.named (lowerName name)).any Operator.isConstant

section
variable {F : Type} (f : Floats F)

/-- What a call of some texts gives where nothing is known. -/
def constantValue (children : List Node) : Option Units :=
  match expressionOf children with
  | none => none
  | some expression =>
    if foldable expression then
      match evaluate f [.macroCall children] ⟨.initial,.initial⟩ with
      | .ok value _ => some value
      | .error _ _ => none
    else none

mutual
/-- `fold_constants`, with the number of calls that were replaced. -/
def foldConstants : List Node → List Node × ℕ
  | [] => ([],0)
  | node :: nodes =>
    ((foldNode node).1 :: (foldConstants nodes).1,(foldNode node).2 + (foldConstants nodes).2)

def foldNode : Node → Node × ℕ
  | .text s => (.text s,0)
  | .block kind condition body =>
    (.block kind (foldConstants condition).1 (foldConstants body).1,
      (foldConstants condition).2 + (foldConstants body).2)
  | .macroCall children =>
    match constantValue f (foldConstants children).1 with
    | some value => (.text value,(foldConstants children).2 + 1)
    | none => (.macroCall (foldConstants children).1,(foldConstants children).2)
end

/-! ### Folding twice -/

mutual
lemma foldConstants_twice : ∀ nodes : List Node,
    foldConstants f (foldConstants f nodes).1 = ((foldConstants f nodes).1,0)
  | [] => rfl
  | node :: nodes => by
    have hnode := foldNode_twice node
    have hnodes := foldConstants_twice nodes
    simp only [foldConstants, hnode, hnodes, Nat.add_zero]

lemma foldNode_twice : ∀ node : Node, foldNode f (foldNode f node).1 = ((foldNode f node).1,0)
  | .text s => rfl
  | .block kind condition body => by
    have hcondition := foldConstants_twice condition
    have hbody := foldConstants_twice body
    simp only [foldNode, hcondition, hbody, Nat.add_zero]
  | .macroCall children => by
    have hchildren := foldConstants_twice children
    cases hvalue : constantValue f (foldConstants f children).1 with
    | some value => simp only [foldNode, hvalue]
    | none => simp only [foldNode, hvalue, hchildren]
end

/-! ### Constant calls -/

lemma head_splitFrom {sep : Units} {c : UInt16} (part s : Units)
    (hsep : s.dropWhile (· != c) = [] ∨ (c :: sep).isPrefixOf (s.dropWhile (· != c)) = true) :
    (splitFrom (c :: sep) 0 part s).headD [] = part.reverse ++ s.takeWhile (· != c) := by
  induction s generalizing part with
  | nil => simp [splitFrom]
  | cons d s ih =>
    by_cases hd : d = c
    · subst hd
      have hfound : (d :: sep).isPrefixOf (d :: s) = true := by simpa using hsep
      simp [splitFrom, hfound]
    · have hne : (d != c) = true := by simpa using hd
      have hnot : (c :: sep).isPrefixOf (d :: s) = false := by
        rw [List.isPrefixOf_cons_cons, beq_eq_false_iff_ne.mpr (Ne.symm hd), Bool.false_and]
      have hrest : (d :: s).dropWhile (· != c) = s.dropWhile (· != c) :=
        List.dropWhile_cons_of_pos hne
      have htaken : (d :: s).takeWhile (· != c) = d :: s.takeWhile (· != c) :=
        List.takeWhile_cons_of_pos hne
      rw [hrest] at hsep
      rw [splitFrom, hnot, if_neg Bool.false_ne_true, ih _ hsep, htaken]
      simp

lemma head_split_separator (value : Units) :
    (split value (separator value)).headD [] = value.takeWhile (· != 58) := by
  have hcolon : value.dropWhile (· != 58) = [] ∨
      ([58] : Units).isPrefixOf (value.dropWhile (· != 58)) = true := by
    cases hrest : value.dropWhile (· != 58) with
    | nil => exact .inl rfl
    | cons c s =>
      have hc := List.head_dropWhile_not (fun c : UInt16 => c != 58) (l := value) (by simp [hrest])
      simp only [hrest, List.head_cons] at hc
      have hcolon : c = 58 := by simpa using hc
      right
      simp [hcolon]
  unfold separator
  split_ifs with hdouble
  · have hsep : units "::" = [58,58] := by decide
    rw [hsep, split, if_neg (by simp), head_splitFrom _ _ (.inr hdouble)]
    rfl
  · have hsep : units ":" = [58] := by decide
    rw [hsep, split, if_neg (by simp), head_splitFrom _ _ hcolon]
    rfl

lemma operate_of_isConstant {op : Operator} (h : op.isConstant = true) (a : List Units) :
    ∃ x, ∀ m, operate f op a m = lift x m := by
  cases op with
  | getvar => cases h
  | getglobalvar => cases h
  | chatindex => cases h
  | user => cases h
  | tempvar => cases h
  | gettempvar => cases h
  | settempvar => cases h
  | random => cases h
  | randint => cases h
  | dice => cases h
  | roll => cases h
  | replace => cases h
  | greater => exact ⟨_,fun m => rfl⟩
  | less => exact ⟨_,fun m => rfl⟩
  | greaterequal => exact ⟨_,fun m => rfl⟩
  | lessequal => exact ⟨_,fun m => rfl⟩
  | arrayelement => exact ⟨_,fun m => rfl⟩
  | calculate => exact ⟨_,fun m => rfl⟩
  | _ => exact ⟨.ok _,fun m => rfl⟩

lemma lift_bind {α β : Type} (x : Except String α) (g : α → β) (m : Machine) :
    (lift x >>= fun a => pure (g a)) m = lift (x.map g) m := by
  cases x <;> rfl

/-- What is tried does not depend on anything but its text. -/
theorem expand_of_foldable {e : Units} (h : foldable e = true) :
    ∃ x, ∀ m, expand f e m = lift x m := by
  unfold expand
  split_ifs with hmark hcalculation
  · exact ⟨.error "dynamic-block",fun m => rfl⟩
  · exact ⟨_,fun m => lift_bind _ _ m⟩
  · have hname : ∃ op, ∃ name, ascii (nameUnits (e.takeWhile (· != 58))) = .ok name ∧
        Operator.named (lowerName name) = some op ∧ op.isConstant = true := by
      unfold foldable at h
      rw [Bool.or_eq_true] at h
      have hconstant := h.resolve_left hcalculation
      cases hascii : ascii (nameUnits (e.takeWhile (· != 58))) with
      | error message =>
        rw [hascii] at hconstant
        cases hconstant
      | ok name =>
        rw [hascii] at hconstant
        cases hop : Operator.named (lowerName name) with
        | none =>
          rw [hop] at hconstant
          cases hconstant
        | some op =>
          rw [hop] at hconstant
          exact ⟨op,name,rfl,hop,hconstant⟩
    obtain ⟨op, name, hascii, hop, hconstant⟩ := hname
    have hdispatch : ∃ x, ∀ m,
        dispatch f e (lowerName name) (split e (separator e)).tail m = lift x m := by
      unfold dispatch
      rw [hop]
      dsimp only
      split_ifs
      · exact ⟨.error "json-depth",fun m => rfl⟩
      · exact ⟨.error "variable-prototype-key",fun m => rfl⟩
      · exact ⟨.ok _,fun m => rfl⟩
      · exact operate_of_isConstant f hconstant _
    obtain ⟨x, hx⟩ := hdispatch
    refine ⟨x.map fun v => (v,false),?_⟩
    intro m
    have hlift : lift (ascii (nameUnits ((split e (separator e)).headD []))) m = .ok name m := by
      rw [head_split_separator, hascii]
      rfl
    have hrest : (dispatch f e (lowerName name) (split e (separator e)).tail >>= fun v =>
        pure (v,false) : Eval (Units × Bool)) = lift x >>= fun v => pure (v,false) :=
      congrArg (fun y : Eval Units => y >>= fun v => pure (v,false)) (funext hx)
    have hwhole := eval_bind_of_ok (g := fun name =>
      dispatch f e (lowerName name) (split e (separator e)).tail >>= fun v => pure (v,false)) hlift
    rw [hrest, lift_bind] at hwhole
    exact hwhole

end
end RisuNest.Cbs
