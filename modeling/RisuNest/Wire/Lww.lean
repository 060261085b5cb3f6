import RisuNest.Wire.Unit

/-! Requests, receipts and journal items of the versioned unit protocol (`lww.rs`, `head.rs`). -/
namespace RisuNest.Wire

/-- One version of one unit. -/
structure UnitChange where
  key : UnitKey
  stamp : Stamp
  value : UnitValue
  deriving DecidableEq

structure PushRequest where
  libraryId : String
  writerId : String
  operationId : String
  changes : List UnitChange
  deriving DecidableEq

structure PushReceipt where
  operationId : String
  seq : ℕ
  acceptedKeys : List UnitKey
  serverTimeMs : ℕ
  deriving DecidableEq

/-- The remembered outcome of an operation. -/
inductive OperationReceipt
  | accepted (bodyDigest : String) (receipt : PushReceipt)
  | rejected (operationId bodyDigest error : String) (serverTimeMs : ℕ)
  deriving DecidableEq

structure JournalItem where
  seq : ℕ
  key : UnitKey
  stamp : Stamp
  value : UnitValue
  deriving DecidableEq

structure ChangesPage where
  throughSeq : ℕ
  journalFloor : ℕ
  items : List JournalItem
  nextAfter : ℕ
  deriving DecidableEq

/-- The head of the change ledger. -/
structure RemoteHead where
  libraryId : String
  epoch : String
  seq : ℕ
  headId : String
  minRetainedSeq : ℕ
  deriving DecidableEq

namespace UnitChange

def validate (cr : Crates) (c : UnitChange) : Result Unit := do
  c.stamp.validate
  c.value.validate cr

def toControl (c : UnitChange) : Control :=
  .obj [("key",.str c.key.asStr),("stamp",c.stamp.toControl),("value",c.value.toControl)]

theorem toControl_injective : Function.Injective toControl := by
  rintro ⟨k, s, v⟩ ⟨k', s', v'⟩ h
  simp only [toControl, Control.obj.injEq, List.cons.injEq, Prod.mk.injEq, Control.str.injEq,
    true_and, and_true] at h
  rw [UnitKey.asStr_injective h.1, Stamp.toControl_injective h.2.1,
    UnitValue.toControl_injective h.2.2]

end UnitChange

namespace PushRequest

/-- `PushRequest::validate`: the checks of the loop over the changes, in its order. -/
def validateChanges (cr : Crates) (seen : List UnitKey) : List UnitChange → Result Unit
  | [] => .ok ()
  | c :: cs => do
    c.validate cr
    if c.key ∈ seen then throw ⟨"duplicate-unit-key"⟩
    validateChanges cr (c.key :: seen) cs

def validate (cr : Crates) (r : PushRequest) : Result Unit := do
  validateId r.libraryId
  validateId r.operationId
  validateWriterId r.writerId
  if r.changes = [] then throw ⟨"empty-push"⟩
  validateChanges cr [] r.changes

def toControl (r : PushRequest) : Control :=
  .obj [("changes",.arr (r.changes.map UnitChange.toControl)),("libraryId",.str r.libraryId),
    ("operationId",.str r.operationId),("writerId",.str r.writerId)]

def digest (cr : Crates) (r : PushRequest) : String := hash cr r.toControl.encode

theorem toControl_injective : Function.Injective toControl := by
  rintro ⟨l, w, o, cs⟩ ⟨l', w', o', cs'⟩ h
  simp only [toControl, Control.obj.injEq, List.cons.injEq, Prod.mk.injEq, Control.str.injEq,
    Control.arr.injEq, true_and, and_true] at h
  obtain ⟨hc, rfl, rfl, rfl⟩ := h
  rw [List.map_injective_iff.mpr UnitChange.toControl_injective hc]

theorem eq_of_digest {cr : Crates} {texts : Set (List UInt8)} {q r : PushRequest}
    (free : CollisionFree cr texts) (hq : q.toControl.encode ∈ texts)
    (hr : r.toControl.encode ∈ texts) (h : q.digest cr = r.digest cr) : q = r :=
  toControl_injective (Control.encode_injective (free hq hr h))

lemma nodup_of_validateChanges {cr : Crates} {seen : List UnitKey} {cs : List UnitChange}
    (h : validateChanges cr seen cs = .ok ()) :
    (cs.map UnitChange.key).Nodup ∧ ∀ c ∈ cs, c.key ∉ seen := by
  induction cs generalizing seen with
  | nil => simp
  | cons c cs ih =>
    unfold validateChanges at h
    cases hc : c.validate cr with
    | error e => simp [hc, bind, Except.bind] at h
    | ok u =>
      by_cases hs : c.key ∈ seen
      · simp [hc, hs, bind, Except.bind, throw, throwThe, MonadExceptOf.throw] at h
      · simp only [hc, hs, bind, Except.bind, if_false] at h
        obtain ⟨hn, hd⟩ := ih h
        refine ⟨?_, ?_⟩
        · rw [List.map_cons, List.nodup_cons]
          refine ⟨?_,hn⟩
          intro hm
          obtain ⟨d, hd', hk⟩ := List.mem_map.mp hm
          exact hd d hd' (by simp [hk])
        · intro d hd'
          rcases List.mem_cons.mp hd' with rfl | hd'
          · exact hs
          · exact fun hmem => hd d hd' (List.mem_cons_of_mem _ hmem)

end PushRequest

namespace OperationReceipt

def bodyDigest : OperationReceipt → String
  | .accepted bodyDigest _ => bodyDigest
  | .rejected _ bodyDigest _ _ => bodyDigest

end OperationReceipt

namespace JournalItem

def toControl (i : JournalItem) : Control :=
  .obj [("key",.str i.key.asStr),("seq",.str i.seq.repr),("stamp",i.stamp.toControl),
    ("value",i.value.toControl)]

/-- The version a journal item records. -/
def change (i : JournalItem) : UnitChange := ⟨i.key,i.stamp,i.value⟩

end JournalItem

namespace RemoteHead

def genesis (cr : Crates) (libraryId epoch : String) : RemoteHead where
  libraryId := libraryId
  epoch := epoch
  seq := 0
  headId := hash cr (Control.strings ["risunest-sync-genesis-v1",libraryId,epoch]).encode
  minRetainedSeq := 0

end RemoteHead
end RisuNest.Wire
