import RisuNest.Server.Steps

/-! Pushes are exactly-once: the first answer to an operation that is kept decides every later
attempt, and only the attempt that was accepted changes the library. -/
namespace RisuNest.Server
open Wire

/-- What a push that is not accepted leaves as it was. -/
structure Untouched (s t : Store) : Prop where
  units : t.units = s.units
  retired : t.retired = s.retired
  journal : t.journal = s.journal
  head : t.head = s.head
  writers : t.writers = s.writers
  writerVersions : t.writerVersions = s.writerVersions

lemma Untouched.refl (s : Store) : Untouched s s := ⟨rfl,rfl,rfl,rfl,rfl,rfl⟩

lemma Store.IndexFrame.untouched {s t : Store} (h : Store.IndexFrame s t) :
    Untouched s t ∧ t.operations = s.operations := by
  rw [h]
  exact ⟨⟨rfl,rfl,rfl,rfl,rfl,rfl⟩,rfl⟩

/-- An attempt to push: who makes it, with which body, and the clock it is admitted by. -/
structure PushAttempt where
  device : Device
  request : PushRequest
  digest : String
  clock : Answer ℕ

namespace System
variable (cr : Crates)

/-- The attempt an operation makes: it looks a receipt up when it begins, and again when it
finishes. -/
def attempt (s : System) : Op → Option PushAttempt
  | .beginPush call =>
    match s.pending with
    | some _ => none
    | none => some ⟨call.device,call.request,call.request.digest cr,call.clock⟩
  | .finishPush _ => s.pending.map fun p => ⟨p.device,p.request,p.digest,.ok p.now⟩
  | _ => none

end System

namespace Store
variable {cr : Crates} {s : Store}

end Store

/-- A step of the server within the retention of an operation's receipt: a pass runs while its
device is not revoked and the receipt is younger than the retention. -/
def Retaining (cr : Crates) (texts : Set (List UInt8)) (device id : String) (s t : System) : Prop :=
  (∃ o, o.texts ⊆ texts ∧ t = (s.exec cr o).2 ∧ ∀ current clock, o = .maintain current clock →
    s.store.revoked device = false ∧ ∀ row, s.store.operations.get (device,id) = some row →
      current - retentionSeconds < row.created) ∨
  ∃ u, Frame s.store u ∧ t = { s with store := u }

section
variable {cr : Crates} {texts : Set (List UInt8)} {device id : String} {s t : System}

lemma Retaining.step (h : Retaining cr texts device id s t) : Step cr texts s t := by
  rcases h with ⟨o, ho, rfl, -⟩ | ⟨u, hu, rfl⟩
  · exact .op o ho
  · exact .frame hu

lemma Retaining.kept (h : Retaining cr texts device id s t) (hv : PendingValid cr texts s)
    {row : OperationRow} (hk : s.store.operations.get (device,id) = some row) :
    t.store.operations.get (device,id) = some row := by
  rcases h with ⟨o, ho, rfl, hr⟩ | ⟨u, hu, rfl⟩
  · cases exec_cases hv ho with
    | quiet hq => exact hq.answered _ _ hk
    | prepared _ _ _ _ _ _ hf =>
      rw [hf]
      exact hk
    | accepted _ _ _ _ _ _ ha =>
      rw [ha.operations]
      exact Table.get_insertOrIgnore_of_get hk
    | @pruned current clock _ _ _ _ hp heq =>
      cases heq
      obtain ⟨hrev, hcreated⟩ := hr current clock rfl
      rw [hp]
      apply Table.get_deleteWhere_eq_some.mpr
      refine ⟨Table.get_deleteWhere_eq_some.mpr ⟨hk,hrev⟩,?_⟩
      simpa using hcreated row hk
    | rotated _ _ he =>
      rw [he]
      exact hk
  · change u.operations.get (device,id) = some row
    rw [hu.operations]
    exact hk

lemma Retaining.run (h : Reachable cr texts s)
    (path : Relation.ReflTransGen (Retaining cr texts device id) s t) {row : OperationRow}
    (hk : s.store.operations.get (device,id) = some row) :
    Reachable cr texts t ∧ t.store.operations.get (device,id) = some row := by
  induction path with
  | refl => exact ⟨h,hk⟩
  | tail _ hst ih =>
    obtain ⟨hr, hk⟩ := ih
    exact ⟨hr.step hst.step,hst.kept hr.pendingValid hk⟩

end
/-- A device raises the level of the library to the one it declares. -/
def pushLevel : PushCall where
  device := ⟨"device-a",some 2⟩
  request := ⟨"library",sampleWriter,"op-4",
    [⟨formatKey,⟨4,0,sampleWriter⟩,.inline "eyJsZXZlbCI6Mn0"⟩]⟩
  emptyOnly := false
  clock := .ok 100

/-- The same operation with a body for another library. -/
def pushElsewhere : PushCall :=
  { pushLevel with request := { pushLevel.request with libraryId := "other" } }

def levelCrates : Crates :=
  tabulated
    [(pushLevel.request.toControl.encode,
        "2175fc8e94e8daa884b78ebba55d143276a4e3b981d4e59cea1e0e39f3354835"),
      (pushElsewhere.request.toControl.encode,
        "0ae59e4ac488783838f383cfa224416a3992c38bd292c145d07eafe42be7f77a"),
      ((UnitValue.inline "eyJsZXZlbCI6Mn0").toControl.encode,
        "f12d6bbc006ac976a9c41962cac9526d3ae3c6a76ad81a85b8c1ea202782e840"),
      ((Control.strings ["risunest-sync-genesis-v1","library","epoch"]).encode,
        "28d155fb4f569bee695e5dac56bb542f2fb624abdb08dc2686703023ebf31a74"),
      (utf8 ("28d155fb4f569bee695e5dac56bb542f2fb624abdb08dc2686703023ebf31a74:" ++
          "2175fc8e94e8daa884b78ebba55d143276a4e3b981d4e59cea1e0e39f3354835:1").toList,
        "d012ec968cf27819d15f66e371486a0d37e5146c1e7913141bd7f4bd718a247c")]
    [("\x7b\"level\":2\x7d","eyJsZXZlbCI6Mn0")]
    [("\x7b\"level\":2\x7d",.obj [("level",.num 2)])]

end RisuNest.Server
