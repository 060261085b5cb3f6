import RisuNest.Lib.TreePaths
import RisuNest.Wire.JsonText
import RisuNest.Wire.Sequences

/-! The paths the reference graph emits, as texts and as steps (`parse_path` of
`persistent_store/repair.rs`, `property_path` of `lossless_f0.rs`). -/
namespace RisuNest.Storage.ReferencePaths
open Wire PathStep

abbrev Step := PathStep String

def isPropertyIdentifier (name : String) : Bool :=
  match name.toList with
  | [] => false
  | first :: rest =>
    (first.isAlpha || first = '_' || first = '$') &&
      rest.all fun c => c.isAlphanum || c = '_' || c = '$'

/-- What a step adds to a path: `property_path`, or the position in brackets. -/
def stepText : Step → List Char
  | key name =>
    if isPropertyIdentifier name then '.' :: name.toList else '[' :: (writeString name ++ [']'])
  | index position => '[' :: (position.repr.toList ++ [']'])

def pathText (steps : List Step) : String := String.ofList ('$' :: steps.flatMap stepText)

/-- A key without quotes ends before another step. -/
def opensStep (c : Char) : Bool := c = '.' || c = '['

/-- The loop of `parse_path`; every step is at least one character. -/
def parseSteps : ℕ → List Char → Option (List Step)
  | _, [] => some []
  | n+1, '.' :: tail =>
    let name := tail.takeWhile fun c => !opensStep c
    if name = [] then none
    else (parseSteps n (tail.dropWhile fun c => !opensStep c)).map (key (String.ofList name) :: ·)
  | n+1, '[' :: '"' :: tail =>
    match JsonText.readTail tail.length tail with
    | some (name,']' :: rest) => (parseSteps n rest).map (key (String.ofList name) :: ·)
    | _ => none
  | n+1, '[' :: tail =>
    match tail.dropWhile (· ≠ ']') with
    | [] => none
    | _ :: rest => do
      let position ← Sequence.parseU64 (String.ofList (tail.takeWhile (· ≠ ']')))
      (parseSteps n rest).map (index position.toNat :: ·)
  | _, _ => none

def parsePath (path : String) : Option (List Step) :=
  match path.toList with
  | '$' :: rest => parseSteps rest.length rest
  | _ => none

/-! ### Paths that were written -/

lemma identifier_opens_nothing {name : String} (h : isPropertyIdentifier name = true) :
    name.toList ≠ [] ∧ ∀ c ∈ name.toList, opensStep c = false := by
  unfold isPropertyIdentifier at h
  split at h
  · cases h
  · rename_i first rest hname
    rw [hname]
    refine ⟨List.cons_ne_nil _ _,fun c hc => ?_⟩
    have hplain : c.isAlphanum = true ∨ c = '_' ∨ c = '$' := by
      simp only [Bool.and_eq_true, Bool.or_eq_true, decide_eq_true_eq, List.all_eq_true] at h
      obtain rfl | hc := List.mem_cons.mp hc
      · obtain (hf | hf) | hf := h.1
        · exact .inl (by rw [Char.isAlphanum, hf, Bool.true_or])
        · exact .inr (.inl hf)
        · exact .inr (.inr hf)
      · exact or_assoc.mp (h.2 c hc)
    by_contra hopens
    simp only [opensStep, Bool.or_eq_false_iff, decide_eq_false_iff_not, not_and_or, not_not]
      at hopens
    obtain rfl | rfl := hopens <;> exact absurd hplain (by decide)

lemma opens_of_head (steps : List Step) :
    (steps.flatMap stepText).takeWhile (fun c => !opensStep c) = [] ∧
      (steps.flatMap stepText).dropWhile (fun c => !opensStep c) = steps.flatMap stepText := by
  cases steps with
  | nil => exact ⟨rfl,rfl⟩
  | cons s steps =>
    have hs : ∃ c rest, stepText s = c :: rest ∧ opensStep c = true := by
      cases s with
      | key name =>
        simp only [stepText]
        split_ifs
        · exact ⟨_,_,rfl,rfl⟩
        · exact ⟨_,_,rfl,rfl⟩
      | index position => exact ⟨_,_,rfl,rfl⟩
    obtain ⟨c,rest,hs,hc⟩ := hs
    have hneg : ¬ (!opensStep c) = true := by rw [hc]; decide
    rw [List.flatMap_cons, hs, List.cons_append]
    exact ⟨List.takeWhile_cons_of_neg hneg,List.dropWhile_cons_of_neg hneg⟩

lemma parseU64_repr {n : ℕ} (h : n < 2^64) :
    (Sequence.parseU64 n.repr).map UInt64.toNat = some n := by
  have htext := Sequence.parseU64_text (Sequence.ofU64 (UInt64.ofNat n))
  have hn : (UInt64.ofNat n).toNat = n := UInt64.toNat_ofNat_of_lt' h
  have hval : (Sequence.ofU64 (UInt64.ofNat n)).toNat = n := by
    rw [Sequence.toNat, Sequence.ofU64, Decimal.value_repr, hn]
  rw [hval, if_pos h] at htext
  change Sequence.parseU64 (UInt64.ofNat n).toNat.repr = _ at htext
  rw [hn] at htext
  rw [htext, Option.map_some, hn]

lemma digits_before_bracket (n : ℕ) (rest : List Char) :
    (n.repr.toList ++ ']' :: rest).takeWhile (· ≠ ']') = n.repr.toList ∧
      (n.repr.toList ++ ']' :: rest).dropWhile (· ≠ ']') = ']' :: rest := by
  have hdigits : ∀ c ∈ n.repr.toList, decide (c ≠ ']') = true := fun c hc => by
    have := Decimal.toNat_of_isDigit (Decimal.digits_repr n c hc)
    refine decide_eq_true fun he => ?_
    subst he
    exact absurd this (by decide)
  rw [List.takeWhile_append_of_pos hdigits, List.dropWhile_append_of_pos hdigits]
  exact ⟨by rw [List.takeWhile_cons_of_neg (by decide), List.append_nil],
    List.dropWhile_cons_of_neg (by decide)⟩

theorem parseSteps_flatMap {steps : List Step} (h : ∀ n, index n ∈ steps → n < 2^64) {fuel : ℕ}
    (hf : (steps.flatMap stepText).length ≤ fuel) :
    parseSteps fuel (steps.flatMap stepText) = some steps := by
  induction steps generalizing fuel with
  | nil => cases fuel <;> rfl
  | cons s steps ih =>
    have hrest := fun n hn => h n (List.mem_cons_of_mem s hn)
    rw [List.flatMap_cons] at hf ⊢
    rw [List.length_append] at hf
    cases s with
    | key name =>
      by_cases hid : isPropertyIdentifier name = true
      · obtain ⟨hne,hplain⟩ := identifier_opens_nothing hid
        have hall : ∀ c ∈ name.toList, (!opensStep c) = true := fun c hc => by
          rw [hplain c hc]
          rfl
        have htext : stepText (key name) = '.' :: name.toList := if_pos hid
        rw [htext, List.length_cons] at hf
        rw [htext, List.cons_append]
        obtain ⟨n,rfl⟩ : ∃ n, fuel = n + 1 := ⟨fuel - 1,by omega⟩
        rw [parseSteps, List.takeWhile_append_of_pos hall, List.dropWhile_append_of_pos hall,
          (opens_of_head steps).1, (opens_of_head steps).2, List.append_nil, if_neg hne,
          ih hrest (by omega), Option.map_some, String.ofList_toList]
      · have htext : stepText (key name) ++ steps.flatMap stepText = '[' :: '"' ::
            (name.toList.flatMap escape ++ ['"'] ++ (']' :: steps.flatMap stepText)) := by
          rw [stepText, if_neg hid, writeString, stringTail]
          simp only [List.cons_append, List.append_assoc, List.nil_append]
        have hlen := congrArg List.length htext
        simp only [List.length_append, List.length_cons] at hlen
        obtain ⟨n,rfl⟩ : ∃ n, fuel = n + 1 := ⟨fuel - 1,by omega⟩
        have hread := JsonText.readTail_of_spells
          (JsonText.spellsTail_escape name.toList (']' :: steps.flatMap stepText)) le_rfl
        rw [htext, parseSteps, hread]
        change (parseSteps n (steps.flatMap stepText)).map
          (key (String.ofList name.toList) :: ·) = _
        rw [ih hrest (by omega), Option.map_some, String.ofList_toList]
    | index position =>
      have htext : stepText (index position) ++ steps.flatMap stepText =
          '[' :: (position.repr.toList ++ ']' :: steps.flatMap stepText) := by
        rw [stepText, List.cons_append, List.append_assoc]
        rfl
      have hlen := congrArg List.length htext
      simp only [List.length_append, List.length_cons] at hlen
      obtain ⟨n,rfl⟩ : ∃ n, fuel = n + 1 := ⟨fuel - 1,by omega⟩
      obtain ⟨htake,hdrop⟩ := digits_before_bracket position (steps.flatMap stepText)
      obtain ⟨number,hnumber,hvalue⟩ :=
        Option.map_eq_some_iff.mp (parseU64_repr (h position List.mem_cons_self))
      rw [htext, parseSteps, htake, hdrop]
      · rw [String.ofList_toList, hnumber]
        change (parseSteps n (steps.flatMap stepText)).map (index number.toNat :: ·) = _
        rw [ih hrest (by omega), hvalue]
        rfl
      · intro tail hquote
        have hdigits := Decimal.digits_repr position
        cases hchars : position.repr.toList with
        | nil =>
          rw [hchars] at hquote
          exact absurd (List.cons.inj hquote).1 (by decide)
        | cons c cs =>
          rw [hchars] at hquote hdigits
          obtain rfl : c = '"' := (List.cons.inj hquote).1
          exact absurd (hdigits '"' List.mem_cons_self) (by decide)

theorem parsePath_pathText {steps : List Step} (h : ∀ n, index n ∈ steps → n < 2^64) :
    parsePath (pathText steps) = some steps := by
  rw [parsePath, pathText, String.toList_ofList]
  exact parseSteps_flatMap h le_rfl

end RisuNest.Storage.ReferencePaths
