import Mathlib.Data.List.Basic
import Mathlib.Tactic.Common

/-! The check of UTF-8 as the standard library makes it: how far a text is valid, and whether it
is wrong there or only ends too early. -/
namespace RisuNest

inductive Utf8Check
  | valid
  | invalid (validUpTo : ℕ) (errorLen : Option ℕ)
  deriving DecidableEq

namespace Utf8

/-- A byte that continues a character. -/
def continues (b : UInt8) : Bool := 128 ≤ b.toNat && b.toNat < 192

/-- The bytes after the first of three. -/
def secondOfThree (a b : UInt8) : Bool :=
  if a.toNat = 224 then 160 ≤ b.toNat && b.toNat < 192
  else if a.toNat = 237 then 128 ≤ b.toNat && b.toNat < 160
  else continues b

/-- The bytes after the first of four. -/
def secondOfFour (a b : UInt8) : Bool :=
  if a.toNat = 240 then 144 ≤ b.toNat && b.toNat < 192
  else if a.toNat = 244 then 128 ≤ b.toNat && b.toNat < 144
  else continues b

/-- How many bytes a character takes that starts with a byte, and none takes 0. -/
def width (a : UInt8) : ℕ :=
  if a.toNat < 128 then 1
  else if a.toNat < 194 then 0
  else if a.toNat < 224 then 2
  else if a.toNat < 240 then 3
  else if a.toNat < 245 then 4
  else 0

/-- `run_utf8_validation` from a position. -/
def check : ℕ → List UInt8 → Utf8Check
  | _, [] => .valid
  | n, a :: rest =>
    if width a = 1 then check (n+1) rest
    else if width a = 2 then
      match rest with
      | [] => .invalid n none
      | b :: rest => if continues b then check (n+2) rest else .invalid n (some 1)
    else if width a = 3 then
      match rest with
      | [] => .invalid n none
      | b :: rest =>
        if !secondOfThree a b then .invalid n (some 1)
        else match rest with
          | [] => .invalid n none
          | c :: rest => if continues c then check (n+3) rest else .invalid n (some 2)
    else if width a = 4 then
      match rest with
      | [] => .invalid n none
      | b :: rest =>
        if !secondOfFour a b then .invalid n (some 1)
        else match rest with
          | [] => .invalid n none
          | c :: rest =>
            if !continues c then .invalid n (some 2)
            else match rest with
              | [] => .invalid n none
              | d :: rest => if continues d then check (n+4) rest else .invalid n (some 3)
    else .invalid n (some 1)

/-- The bytes of one character, by their number. -/
inductive Encoded : List UInt8 → Prop
  | one {a : UInt8} : width a = 1 → Encoded [a]
  | two {a b : UInt8} : width a = 2 → continues b = true → Encoded [a,b]
  | three {a b c : UInt8} : width a = 3 → secondOfThree a b = true → continues c = true →
      Encoded [a,b,c]
  | four {a b c d : UInt8} : width a = 4 → secondOfFour a b = true → continues c = true →
      continues d = true → Encoded [a,b,c,d]

theorem encoded_char (c : Char) : Encoded (String.utf8EncodeChar c) := by
  have hvalid : c.val.toNat < 55296 ∨ 57343 < c.val.toNat ∧ c.val.toNat < 1114112 := c.valid
  unfold String.utf8EncodeChar
  generalize c.val.toNat = v at hvalid
  dsimp only
  split_ifs with h1 h2 h3
  · apply Encoded.one
    simp only [width, UInt8.toNat_ofNat']
    split_ifs <;> omega
  · apply Encoded.two
    · simp only [width, UInt8.toNat_ofNat']
      split_ifs <;> omega
    · simp only [continues, UInt8.toNat_ofNat', Bool.and_eq_true, decide_eq_true_eq]
      omega
  · apply Encoded.three
    · simp only [width, UInt8.toNat_ofNat']
      split_ifs <;> omega
    · simp only [secondOfThree, continues, UInt8.toNat_ofNat']
      split_ifs <;> simp only [Bool.and_eq_true, decide_eq_true_eq] <;> omega
    · simp only [continues, UInt8.toNat_ofNat', Bool.and_eq_true, decide_eq_true_eq]
      omega
  · apply Encoded.four
    · simp only [width, UInt8.toNat_ofNat']
      split_ifs <;> omega
    · simp only [secondOfFour, continues, UInt8.toNat_ofNat']
      split_ifs <;> simp only [Bool.and_eq_true, decide_eq_true_eq] <;> omega
    · simp only [continues, UInt8.toNat_ofNat', Bool.and_eq_true, decide_eq_true_eq]
      omega
    · simp only [continues, UInt8.toNat_ofNat', Bool.and_eq_true, decide_eq_true_eq]
      omega

theorem check_encoded {bytes : List UInt8} (h : Encoded bytes) (n : ℕ) (rest : List UInt8) :
    check n (bytes ++ rest) = check (n + bytes.length) rest := by
  conv_lhs => unfold check
  cases h with
  | one ha => simp [ha]
  | two ha hb => simp [ha, hb]
  | three ha hb hc => simp [ha, hb, hc]
  | four ha hb hc hd => simp [ha, hb, hc, hd]

/-- A character that is cut is not wrong yet. -/
theorem check_cut {bytes p : List UInt8} (h : Encoded bytes) (hp : p <+: bytes) (hne : p ≠ [])
    (hcut : p ≠ bytes) (n : ℕ) : check n p = .invalid n none := by
  have htake := List.prefix_iff_eq_take.mp hp
  have hlen := hp.length_le
  have hlt : p.length < bytes.length := by
    apply Nat.lt_of_le_of_ne hlen
    intro he
    exact hcut (hp.eq_of_length he)
  have hpos := List.length_pos_iff.mpr hne
  generalize p.length = k at htake hlt hpos
  subst htake
  unfold check
  cases h with
  | one ha =>
    simp only [List.length_cons, List.length_nil] at hlt
    omega
  | two ha hb =>
    simp only [List.length_cons, List.length_nil] at hlt
    obtain rfl : k = 1 := by omega
    simp [ha]
  | three ha hb hc =>
    simp only [List.length_cons, List.length_nil] at hlt
    obtain rfl | rfl : k = 1 ∨ k = 2 := by omega
    · simp [ha]
    · simp [ha, hb]
  | four ha hb hc hd =>
    simp only [List.length_cons, List.length_nil] at hlt
    obtain rfl | rfl | rfl : k = 1 ∨ k = 2 ∨ k = 3 := by omega
    · simp [ha]
    · simp [ha, hb]
    · simp [ha, hb, hc]

/-- The bytes of some characters. -/
def encode (t : List Char) : List UInt8 := t.flatMap String.utf8EncodeChar

@[simp] lemma encode_nil : encode [] = [] := rfl

@[simp] lemma encode_append (s t : List Char) : encode (s ++ t) = encode s ++ encode t := by
  simp [encode]

lemma encode_cons (c : Char) (t : List Char) :
    encode (c :: t) = String.utf8EncodeChar c ++ encode t := rfl

theorem check_encode (n : ℕ) (t : List Char) (rest : List UInt8) :
    check n (encode t ++ rest) = check (n + (encode t).length) rest := by
  induction t generalizing n with
  | nil => rfl
  | cons c t ih =>
    rw [encode_cons, List.append_assoc, check_encoded (encoded_char c), ih, List.length_append,
      Nat.add_assoc]

/-- What is left of a text that is cut between two characters or inside one. -/
def Cut (p : List UInt8) (t : List Char) : Prop :=
  p = [] ∨ ∃ c u, t = c :: u ∧ p <+: String.utf8EncodeChar c ∧ p ≠ [] ∧ p ≠ String.utf8EncodeChar c

lemma check_of_cut {p : List UInt8} {t : List Char} (h : Cut p t) (n : ℕ) :
    check n p = .valid ∧ p = [] ∨ check n p = .invalid n none := by
  cases h with
  | inl h => exact .inl ⟨by rw [h]; rfl,h⟩
  | inr h =>
    obtain ⟨c,u,-,hp,hne,hcut⟩ := h
    exact .inr (check_cut (encoded_char c) hp hne hcut n)

/-- The start of a text is some of its characters and a cut. -/
theorem exists_cut {bytes : List UInt8} {t : List Char} (h : bytes <+: encode t) :
    ∃ s u p, t = s ++ u ∧ bytes = encode s ++ p ∧ Cut p u := by
  induction t generalizing bytes with
  | nil =>
    rw [encode_nil, List.prefix_nil] at h
    exact ⟨[],[],[],rfl,by rw [h]; rfl,.inl rfl⟩
  | cons c t ih =>
    rw [encode_cons] at h
    cases List.prefix_or_prefix_of_prefix h (List.prefix_append (String.utf8EncodeChar c) _) with
    | inl hshort =>
      by_cases hnil : bytes = []
      · exact ⟨[],c :: t,[],rfl,by rw [hnil]; rfl,.inl rfl⟩
      · by_cases hall : bytes = String.utf8EncodeChar c
        · exact ⟨[c],t,[],rfl,by simp [hall, encode],.inl rfl⟩
        · exact ⟨[],c :: t,bytes,rfl,rfl,.inr ⟨c,t,rfl,hshort,hnil,hall⟩⟩
    | inr hlong =>
      obtain ⟨more,rfl⟩ := hlong
      rw [List.prefix_append_right_inj] at h
      obtain ⟨s,u,p,rfl,rfl,hcut⟩ := ih h
      exact ⟨c :: s,u,p,rfl,by rw [encode_cons, List.append_assoc],hcut⟩

end Utf8
end RisuNest
