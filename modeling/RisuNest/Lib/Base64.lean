import Mathlib.Data.List.Basic
import Mathlib.Tactic.Common

/-! Base64 for URLs without padding: bytes in groups of three as groups of four letters. -/
namespace RisuNest.Base64

def alphabet : List Char :=
  "ABCDEFGHIJKLMNOPQRSTUVWXYZabcdefghijklmnopqrstuvwxyz0123456789-_".toList

/-- The letter of six bits. -/
def letter (n : ℕ) : Char := alphabet.getD n 'A'

/-- The six bits of a letter. -/
def bits (c : Char) : Option ℕ := alphabet.idxOf? c

def encode : List UInt8 → List Char
  | a :: b :: c :: rest =>
    letter (a.toNat/4) :: letter (a.toNat % 4*16 + b.toNat/16) ::
      letter (b.toNat % 16*4 + c.toNat/64) :: letter (c.toNat % 64) :: encode rest
  | [a,b] => [letter (a.toNat/4),letter (a.toNat % 4*16 + b.toNat/16),letter (b.toNat % 16*4)]
  | [a] => [letter (a.toNat/4),letter (a.toNat % 4*16)]
  | [] => []

/-- The bytes of a text, whose last letter has no bits to spare. -/
def decode : List Char → Option (List UInt8)
  | w :: x :: y :: z :: rest => do
    let w ← bits w
    let x ← bits x
    let y ← bits y
    let z ← bits z
    let rest ← decode rest
    some (UInt8.ofNat (w*4 + x/16) :: UInt8.ofNat (x % 16*16 + y/4) ::
      UInt8.ofNat (y % 4*64 + z) :: rest)
  | [w,x,y] => do
    let w ← bits w
    let x ← bits x
    let y ← bits y
    if y % 4 = 0 then some [UInt8.ofNat (w*4 + x/16),UInt8.ofNat (x % 16*16 + y/4)] else none
  | [w,x] => do
    let w ← bits w
    let x ← bits x
    if x % 16 = 0 then some [UInt8.ofNat (w*4 + x/16)] else none
  | [_] => none
  | [] => some []

/-- The letters of the alphabet one by one. -/
def letters : List Char :=
  ['A','B','C','D','E','F','G','H','I','J','K','L','M','N','O','P','Q','R','S','T','U','V','W','X',
    'Y','Z','a','b','c','d','e','f','g','h','i','j','k','l','m','n','o','p','q','r','s','t','u','v',
    'w','x','y','z','0','1','2','3','4','5','6','7','8','9','-','_']

lemma alphabet_eq : alphabet = letters := String.toList_ofList

lemma idxOf_letters : ∀ n : Fin 64, letters.idxOf? (letters.getD n 'A') = some n.val := by
  decide

@[simp] lemma bits_letter {n : ℕ} (h : n < 64) : bits (letter n) = some n := by
  unfold bits letter
  rw [alphabet_eq]
  exact idxOf_letters ⟨n,h⟩

lemma letter_mem (n : ℕ) : letter n ∈ alphabet := by
  unfold letter
  rw [alphabet_eq, List.getD_eq_getElem?_getD]
  cases h : letters[n]? with
  | none => exact List.mem_cons_self
  | some c => exact List.mem_of_getElem? h

lemma ofNat_eq {n : ℕ} {a : UInt8} (h : n = a.toNat) : UInt8.ofNat n = a := by
  rw [h, UInt8.ofNat_toNat]

/-- What is encoded is decoded. -/
theorem decode_encode (b : List UInt8) : decode (encode b) = some b := by
  induction b using encode.induct with
  | case1 a b c rest ih =>
    have ha := a.toNat_lt
    have hb := b.toNat_lt
    have hc := c.toNat_lt
    rw [encode, decode, bits_letter (by omega), bits_letter (by omega), bits_letter (by omega),
      bits_letter (by omega), ih]
    change some (_ :: _ :: _ :: rest) = _
    rw [ofNat_eq (by omega : _ = a.toNat), ofNat_eq (by omega : _ = b.toNat),
      ofNat_eq (by omega : _ = c.toNat)]
  | case2 a b =>
    have ha := a.toNat_lt
    have hb := b.toNat_lt
    rw [encode, decode, bits_letter (by omega), bits_letter (by omega), bits_letter (by omega)]
    change (if _ then some [_,_] else none) = _
    rw [if_pos (by omega), ofNat_eq (by omega : _ = a.toNat), ofNat_eq (by omega : _ = b.toNat)]
  | case3 a =>
    have ha := a.toNat_lt
    rw [encode, decode, bits_letter (by omega), bits_letter (by omega)]
    change (if _ then some [_] else none) = _
    rw [if_pos (by omega), ofNat_eq (by omega : _ = a.toNat)]
  | case4 => rfl

lemma mem_alphabet {b : List UInt8} {c : Char} (h : c ∈ encode b) : c ∈ alphabet := by
  induction b using encode.induct with
  | case1 x y z rest ih =>
    simp only [encode, List.mem_cons] at h
    obtain rfl | rfl | rfl | rfl | h := h
    · exact letter_mem _
    · exact letter_mem _
    · exact letter_mem _
    · exact letter_mem _
    · exact ih h
  | case2 x y =>
    simp only [encode, List.mem_cons, List.not_mem_nil, or_false] at h
    obtain rfl | rfl | rfl := h <;> exact letter_mem _
  | case3 x =>
    simp only [encode, List.mem_cons, List.not_mem_nil, or_false] at h
    obtain rfl | rfl := h <;> exact letter_mem _
  | case4 => cases h

theorem length_encode (b : List UInt8) : (encode b).length = (4*b.length + 2)/3 := by
  induction b using encode.induct with
  | case1 x y z rest ih =>
    simp only [encode, List.length_cons, ih]
    omega
  | case2 x y => simp [encode]
  | case3 x => simp [encode]
  | case4 => rfl

end RisuNest.Base64
