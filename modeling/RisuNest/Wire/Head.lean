import RisuNest.Wire.Lww

/-! Heads in control JSON (`head.rs`). -/
namespace RisuNest.Wire

/-- `Sequence::try_from` -/
def readSequence (text : String) : Option ℕ :=
  let digits := text.toList
  if digits ≠ [] ∧ digits.length ≤ 64 ∧ digits.all Char.isDigit = true ∧
      (digits.length = 1 ∨ digits.head? ≠ some '0') then some (Decimal.value digits)
  else none

lemma head_repr_ne_zero {n : ℕ} (h : n.repr.toList.length ≠ 1) :
    n.repr.toList.head? ≠ some '0' := by
  intro h0
  obtain ⟨rest,hr⟩ : ∃ rest, n.repr.toList = '0'::rest := by
    cases hl : n.repr.toList with
    | nil =>
      rw [hl] at h0
      cases h0
    | cons c rest =>
      rw [hl] at h0
      obtain rfl := Option.some.inj h0
      exact ⟨rest,rfl⟩
  have hlen : 0 < rest.length := by
    rw [hr,List.length_cons] at h
    omega
  have hd : Decimal.Digits rest := fun c hc =>
    Decimal.digits_repr n c (by rw [hr]; exact List.mem_cons_of_mem _ hc)
  have hv : n < 10^rest.length := by
    have h1 := Decimal.value_lt hd
    have h2 : Decimal.value n.repr.toList = n := Decimal.value_repr n
    rw [hr,Decimal.value_cons] at h2
    have h3 : ('0' : Char).toNat - 48 = 0 := rfl
    simp at h2
    omega
  have := (Decimal.length_repr_le_iff n hlen).mpr hv
  rw [hr,List.length_cons] at this
  omega

theorem readSequence_of_lt {n : ℕ} (h : n < 10^64) : readSequence n.repr = some n := by
  have hlen : n.repr.toList.length ≤ 64 := (Decimal.length_repr_le_iff n (by decide)).mpr h
  unfold readSequence
  dsimp only
  rw [if_pos,Decimal.value_repr]
  refine ⟨?_,hlen,?_,?_⟩
  · have := Decimal.length_repr_pos n
    exact List.ne_nil_of_length_pos this
  · rw [List.all_eq_true]
    exact Decimal.digits_repr n
  · by_cases h1 : n.repr.toList.length = 1
    · exact .inl h1
    · exact .inr (head_repr_ne_zero h1)

theorem readSequence_repr {n : ℕ} (h : n < 2^64) : readSequence n.repr = some n :=
  readSequence_of_lt (h.trans (by decide))

/-! ### Sizes -/

lemma length_utf8_le (t : List Char) : (utf8 t).length ≤ 4*t.length := by
  unfold utf8
  rw [String.toByteArray_ofList]
  change t.utf8Encode.size ≤ _
  induction t with
  | nil => simp
  | cons c t ih =>
    rw [List.utf8Encode_cons,ByteArray.size_append,List.length_cons]
    have h1 : [c].utf8Encode.size ≤ 4 := by
      simpa [List.utf8Encode_singleton] using c.utf8Size_le_four
    omega

lemma length_escape_le (c : Char) : (escape c).length ≤ 6 := by
  unfold escape
  split_ifs <;> simp

lemma length_writeString_le (s : String) : (writeString s).length ≤ 6*s.toList.length + 2 := by
  unfold writeString stringTail
  have h : ∀ l : List Char, (l.flatMap escape).length ≤ 6*l.length := by
    intro l
    induction l with
    | nil => simp
    | cons c l ih =>
      have := length_escape_le c
      rw [List.flatMap_cons,List.length_append,List.length_cons]
      omega
  have := h s.toList
  rw [List.length_cons,List.length_append,List.length_singleton]
  omega

lemma length_of_validateHash {s : String} (h : validateHash s = .ok ()) : s.toList.length = 64 := by
  unfold validateHash at h
  split_ifs at h with hc
  · simp only [Bool.and_eq_true,decide_eq_true_eq] at hc
    exact hc.1

lemma length_of_validateId {s : String} (h : validateId s = .ok ()) : s.toList.length ≤ 128 := by
  unfold validateId at h
  dsimp only at h
  split_ifs at h with hc
  · simp only [Bool.and_eq_true,decide_eq_true_eq] at hc
    exact hc.1.2

lemma length_repr_le {n : ℕ} (h : n < 2^64) : n.repr.toList.length ≤ 20 :=
  (Decimal.length_repr_le_iff n (by decide)).mpr (h.trans (by decide))

namespace RemoteHead

def validate (head : RemoteHead) : Result Unit := do
  validateId head.libraryId
  validateId head.epoch
  validateHash head.headId
  require (head.minRetainedSeq ≤ head.seq) ⟨"invalid-head"⟩

def toControl (head : RemoteHead) : Control :=
  .obj [("epoch",.str head.epoch),("headId",.str head.headId),("libraryId",.str head.libraryId),
    ("minRetainedSeq",.str head.minRetainedSeq.repr),("seq",.str head.seq.repr)]

/-- The derived reader of a head. -/
def read : Control → Option RemoteHead
  | .obj ms => do
    if ms.all (fun m => m.1 ∈ ["libraryId","epoch","seq","headId","minRetainedSeq"]) then
      pure ⟨← (Control.member? "libraryId" ms).bind Control.text?,
        ← (Control.member? "epoch" ms).bind Control.text?,
        ← ((Control.member? "seq" ms).bind Control.text?).bind readSequence,
        ← (Control.member? "headId" ms).bind Control.text?,
        ← ((Control.member? "minRetainedSeq" ms).bind Control.text?).bind readSequence⟩
    else none
  | .arr [libraryId,epoch,seq,headId,minRetainedSeq] => do
    pure ⟨← libraryId.text?,← epoch.text?,← seq.text?.bind readSequence,← headId.text?,
      ← minRetainedSeq.text?.bind readSequence⟩
  | _ => none

theorem read_toControl {head : RemoteHead} (hs : head.seq < 2^64)
    (hf : head.minRetainedSeq < 2^64) : read head.toControl = some head := by
  simp [read,toControl,Control.member?,Control.text?,readSequence_repr hs,readSequence_repr hf]

lemma length_write_le {head : RemoteHead} (h : head.validate = .ok ()) (hs : head.seq < 2^64)
    (hf : head.minRetainedSeq < 2^64) : head.toControl.write.length ≤ 3000 := by
  obtain ⟨_,hl,h⟩ := bind_eq_ok.mp h
  obtain ⟨_,he,h⟩ := bind_eq_ok.mp h
  obtain ⟨_,hh,-⟩ := bind_eq_ok.mp h
  have h1 := length_writeString_le head.libraryId
  have h2 := length_writeString_le head.epoch
  have h3 := length_writeString_le head.headId
  have h4 := length_writeString_le head.seq.repr
  have h5 := length_writeString_le head.minRetainedSeq.repr
  have h6 := length_of_validateId hl
  have h7 := length_of_validateId he
  have h8 := length_of_validateHash hh
  have h9 := length_repr_le hs
  have h10 := length_repr_le hf
  have k1 : (writeString "epoch").length = 7 := by decide
  have k2 : (writeString "headId").length = 8 := by decide
  have k3 : (writeString "libraryId").length = 11 := by decide
  have k4 : (writeString "minRetainedSeq").length = 16 := by decide
  have k5 : (writeString "seq").length = 5 := by decide
  simp only [toControl,Control.write,Control.writeMembers,List.length_cons,List.length_append,
    List.length_nil,k1,k2,k3,k4,k5]
  omega

end RemoteHead
end RisuNest.Wire
