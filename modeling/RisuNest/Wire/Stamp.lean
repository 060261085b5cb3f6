import RisuNest.Lib.Decimal
import RisuNest.Wire.Payload
import Mathlib.Data.Prod.Lex
import Mathlib.Data.String.Basic

/-! Identifiers and hybrid clock stamps (`lib.rs`, `head.rs`, `stamp.rs`). -/
namespace RisuNest.Wire

def isHexLower (c : Char) : Bool := ('0' ≤ c && c ≤ '9') || ('a' ≤ c && c ≤ 'f')

def validateHash (value : String) : Result Unit :=
  if value.toList.length = 64 && value.toList.all isHexLower then .ok ()
  else .error ⟨"invalid-hash"⟩

def validateId (value : String) : Result Unit :=
  let word (c : Char) := ('0' ≤ c && c ≤ '9') || ('a' ≤ c && c ≤ 'z') || ('A' ≤ c && c ≤ 'Z') ||
    c == '-' || c == '_'
  if value.toList ≠ [] && value.toList.length ≤ 128 && value.toList.all word then .ok ()
  else .error ⟨"invalid-id"⟩

/-- The test one position of a writer id has to pass. -/
def writerIdAt (i : ℕ) (c : Char) : Bool :=
  if i = 8 ∨ i = 13 ∨ i = 18 ∨ i = 23 then c == '-'
  else isHexLower c && (i != 14 || c == '4') &&
    (i != 19 || c == '8' || c == '9' || c == 'a' || c == 'b')

def validateWriterId (value : String) : Result Unit :=
  if value.toList.length = 36 && value.toList.zipIdx.all fun p => writerIdAt p.2 p.1 then .ok ()
  else .error ⟨"invalid-writer-id"⟩

/-- A hybrid clock reading of one writer. -/
structure Stamp where
  physicalMs : ℕ
  logical : ℕ
  writerId : String
  deriving DecidableEq, Repr

namespace Stamp

/-- `Ord for Stamp`: physical time, then the logical counter, then the bytes of the writer id.
UTF-8 orders texts as their characters do. -/
def rank (s : Stamp) : ℕ ×ₗ ℕ ×ₗ String := toLex (s.physicalMs,toLex (s.logical,s.writerId))

theorem rank_injective : Function.Injective rank := by
  rintro ⟨p, l, w⟩ ⟨p', l', w'⟩ h
  simp only [rank, EmbeddingLike.apply_eq_iff_eq, Prod.mk.injEq] at h
  simp [h]

instance : LinearOrder Stamp := LinearOrder.lift' rank rank_injective

theorem lt_iff {s t : Stamp} : s < t ↔ s.physicalMs < t.physicalMs ∨
    s.physicalMs = t.physicalMs ∧ (s.logical < t.logical ∨
      s.logical = t.logical ∧ s.writerId < t.writerId) := by
  change s.rank < t.rank ↔ _
  simp [rank, Prod.Lex.toLex_lt_toLex]

def validate (s : Stamp) : Result Unit := validateWriterId s.writerId

def toControl (s : Stamp) : Control :=
  .obj [("logical",.str (toString s.logical)),("physicalMs",.str (toString s.physicalMs)),
    ("writerId",.str s.writerId)]

theorem toControl_injective : Function.Injective toControl := by
  rintro ⟨p, l, w⟩ ⟨p', l', w'⟩ h
  simp only [toControl, Control.obj.injEq, List.cons.injEq, Prod.mk.injEq, Control.str.injEq,
    true_and, and_true] at h
  obtain ⟨hl, hp, hw⟩ := h
  rw [Decimal.repr_injective hl, Decimal.repr_injective hp, hw]

end Stamp

/-- The logical counter one above those of the given stamps at this physical time. -/
def nextLogical (physical : ℕ) (stamps : List Stamp) : Result ℕ :=
  match (stamps.filter fun s => s.physicalMs = physical).map Stamp.logical with
  | [] => .ok 0
  | l :: ls =>
    let top := ls.foldl max l
    if top + 1 < 2^32 then .ok (top+1) else .error ⟨"logical-counter-overflow"⟩

def issueStamp (wallMs : ℕ) (writerId : String) (last observed : Option Stamp) :
    Result Stamp := do
  validateWriterId writerId
  let stamps := last.toList ++ observed.toList
  for s in stamps do s.validate
  let physical := stamps.foldl (fun p s => max p s.physicalMs) wallMs
  let logical ← nextLogical physical stamps
  pure ⟨physical,logical,writerId⟩

def maxClockSkewMs : ℕ := 300000

end RisuNest.Wire
