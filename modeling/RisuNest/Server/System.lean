import RisuNest.Server.Maintenance
import Mathlib.Logic.Relation

/-! The server as a transition system. A push takes two atomic steps: the lookup with the
preparation of its descriptors, and its transaction. It holds the object gate in between, which
keeps other pushes and maintenance out, while operations that do not take the gate interleave. -/
namespace RisuNest.Server
open Wire

/-- The durable store and the push that holds the object gate. -/
structure System where
  store : Store
  pending : Option Pending

inductive Op
  | beginPush (call : PushCall)
  | finishPush (created : ℤ)
  | cancelOperation (device : Device) (id bodyDigest : String) (clock : Answer ℕ) (created : ℤ)
  | changes (device : Device) (after limit : ℕ)
  | createStatePin (device : Device) (id : String) (now : ℤ)
  | releaseStatePin (device : Device) (pin : String)
  | acknowledge (device : Device) (seq : ℕ) (now : ℤ)
  | maintain (current clock : ℤ)
  | addDevice (id : String)
  | revokeDevice (id : String)
  | putObject (device : Device) (digest : String) (bytes : List UInt8) (now : ℤ)
  | pinObjects (device : Device) (hashes : List String) (now : ℤ)
  | rotateRestoredEpoch (epoch : String)
  | restart

/-- What an operation answers. -/
inductive Output
  | waiting
  | pushed (request : PushRequest) (answer : Answer PushReceipt)
  | cancelled (answer : Answer OperationReceipt)
  | page (answer : Answer ChangesPage)
  | pinned (answer : Answer ℕ)
  | maintained (answer : Answer ℕ)
  | done (answer : Answer Unit)

namespace System
variable (cr : Crates)

/-- One operation. While a push holds the object gate, an operation that needs it waits. -/
def exec (s : System) : Op → Output × System
  | .beginPush call =>
    match s.pending with
    | some _ => (.waiting,s)
    | none =>
      match s.store.beginPush cr call with
      | (.inl answer,t) => (.pushed call.request answer,⟨t,none⟩)
      | (.inr p,t) => (.waiting,⟨t,some p⟩)
  | .finishPush created =>
    match s.pending with
    | none => (.waiting,s)
    | some p =>
      let (answer,t) := s.store.finishPush cr p created
      (.pushed p.request answer,⟨t,none⟩)
  | .cancelOperation device id bodyDigest clock created =>
    let (answer,t) := s.store.cancelOperation cr device id bodyDigest clock created
    (.cancelled answer,{ s with store := t })
  | .changes device after limit => (.page (s.store.changes cr device after limit),s)
  | .createStatePin device id now =>
    let (answer,t) := s.store.createStatePin cr device id now
    (.pinned answer,{ s with store := t })
  | .releaseStatePin device pin =>
    let (answer,t) := s.store.releaseStatePin cr device pin
    (.done answer,{ s with store := t })
  | .acknowledge device seq now =>
    let (answer,t) := s.store.acknowledge cr device seq now
    (.done answer,{ s with store := t })
  | .maintain current clock =>
    match s.pending with
    | some _ => (.waiting,s)
    | none =>
      let (answer,t) := s.store.maintainAt cr current clock
      (.maintained answer,{ s with store := t })
  | .addDevice id => (.done (.ok ()),{ s with store := s.store.addDevice id })
  | .revokeDevice id =>
    let (answer,t) := s.store.revokeDevice id
    (.done answer,{ s with store := t })
  | .putObject device digest bytes now =>
    let (answer,t) := s.store.putObject cr device digest bytes now
    (.done answer,{ s with store := t })
  | .pinObjects device hashes now =>
    let (answer,t) := s.store.pinObjects cr device hashes now
    (.done answer,{ s with store := t })
  | .rotateRestoredEpoch epoch =>
    match s.pending with
    | some _ => (.waiting,s)
    | none => (.done (.ok ()),{ s with store := s.store.rotateRestoredEpoch cr epoch })
  | .restart => (.done (.ok ()),{ s with pending := none })

/-- Operations one after another. -/
def run (s : System) (ops : List Op) : System := ops.foldl (fun s o => (s.exec cr o).2) s

end System

/-- What the operations outside this model leave alone: uploads, downloads, custody and writer
claims work on their own tables, bind writers, revoke predecessors, and add objects. -/
structure Frame (s t : Store) : Prop where
  head : t.head = s.head
  writerVersions : t.writerVersions = s.writerVersions
  units : t.units = s.units
  retired : t.retired = s.retired
  unitParents : t.unitParents = s.unitParents
  journal : t.journal = s.journal
  operations : t.operations = s.operations
  statePins : t.statePins = s.statePins
  descriptors : t.descriptors = s.descriptors
  referenceNodes : t.referenceNodes = s.referenceNodes
  referenceChildren : t.referenceChildren = s.referenceChildren
  referenceObjects : t.referenceObjects = s.referenceObjects
  referenceRelations : t.referenceRelations = s.referenceRelations
  writers : ∀ w d, s.writers.get w = some d → t.writers.get w = some d
  devices : ∀ d row, t.devices.get d = some row →
    ∃ old, s.devices.get d = some old ∧ (row = old ∨ row = { old with revoked := true })
  objects : ∀ h b, s.objects.get h = some b → t.objects.get h = some b

/-- The texts an operation has the server hash as the identities of requests and values. -/
def Op.texts : Op → Set (List UInt8)
  | .beginPush call => { b | b = call.request.toControl.encode ∨
      ∃ c ∈ call.request.changes, b = c.value.toControl.encode }
  | _ => ∅

section
variable (cr : Crates) (texts : Set (List UInt8))

/-- One step of the server, with requests whose texts come from a given set. -/
inductive Step (s : System) : System → Prop
  | op (o : Op) (h : o.texts ⊆ texts) : Step s (s.exec cr o).2
  | frame {t : Store} (h : Frame s.store t) : Step s { s with store := t }

/-- States of a server that was once initialised. -/
def Reachable (s : System) : Prop :=
  ∃ libraryId epoch, Relation.ReflTransGen (Step cr texts) ⟨Store.genesis cr libraryId epoch,none⟩ s

end

theorem Reachable.induct {cr : Crates} {texts : Set (List UInt8)} {I : System → Prop}
    (init : ∀ libraryId epoch, I ⟨Store.genesis cr libraryId epoch,none⟩)
    (step : ∀ s t, I s → Step cr texts s t → I t) {s : System} (h : Reachable cr texts s) : I s := by
  obtain ⟨libraryId, epoch, path⟩ := h
  induction path with
  | refl => exact init _ _
  | tail _ hst ih => exact step _ _ ih hst

theorem Reachable.step {cr : Crates} {texts : Set (List UInt8)} {s t : System}
    (h : Reachable cr texts s) (hst : Step cr texts s t) : Reachable cr texts t := by
  obtain ⟨libraryId, epoch, path⟩ := h
  exact ⟨libraryId,epoch,path.tail hst⟩

theorem Reachable.run {cr : Crates} {texts : Set (List UInt8)} {s : System} {ops : List Op}
    (h : Reachable cr texts s) (ho : ∀ o ∈ ops, o.texts ⊆ texts) :
    Reachable cr texts (s.run cr ops) := by
  induction ops generalizing s with
  | nil => exact h
  | cons o ops ih => exact ih (h.step (.op o (ho o (by simp)))) fun o' hm => ho o' (by simp [hm])

/-! ### A sample library -/

/-- The texts a table of hashes knows. -/
def tabulatedTexts (hashes : List (List UInt8 × String)) : Set (List UInt8) :=
  {b | ∃ h, (b,h) ∈ hashes}

lemma collisionFree_tabulated {hashes : List (List UInt8 × String)}
    {payloads : List (String × String)} {jsons : List (String × Json)}
    (h : (hashes.map Prod.snd).Nodup) :
    CollisionFree (tabulated hashes payloads jsons) (tabulatedTexts hashes) := by
  have found : ∀ b ∈ tabulatedTexts hashes,
      ∃ e ∈ hashes, e.1 = b ∧ (tabulated hashes payloads jsons).sha256 b = e.2 := by
    rintro b ⟨d, hd⟩
    cases hf : hashes.find? fun e => e.1 = b with
    | none => exact absurd (List.find?_eq_none.mp hf _ hd) (by simp)
    | some e =>
      have he := List.find?_some hf
      exact ⟨e,List.mem_of_find?_eq_some hf,by simpa using he,by simp [tabulated, hf]⟩
  intro a ha b hb hab
  obtain ⟨d, hd, rfl, hda⟩ := found a ha
  obtain ⟨e, he, rfl, heb⟩ := found b hb
  rw [hda, heb] at hab
  rw [List.inj_on_of_nodup_map h hd he hab]

def sampleDevice : Device := ⟨"device-a",none⟩

def sampleWriter : String := "00000000-0000-4000-8000-00000000000a"

/-- A new library that one device is registered with. -/
def sampleLibrary (cr : Crates) : Store := (Store.genesis cr "library" "epoch").addDevice "device-a"

def sampleCharacter : UnitKey := ⟨["exists","character","c1"],by decide⟩

def sampleName : UnitKey := ⟨["character","c1","name"],by decide⟩

/-- The deletion of a unit at a time. -/
def deletionAt (key : UnitKey) (ms : ℕ) : UnitChange := ⟨key,⟨ms,0,sampleWriter⟩,.deleted⟩

/-- A push of the sample device at 100 ms. -/
def samplePush (operation : String) (changes : List UnitChange) : PushCall where
  device := sampleDevice
  request := ⟨"library",sampleWriter,operation,changes⟩
  emptyOnly := false
  clock := .ok 100

lemma texts_samplePush {texts : Set (List UInt8)} {operation : String}
    {changes : List UnitChange}
    (hr : (samplePush operation changes).request.toControl.encode ∈ texts)
    (hv : ∀ c ∈ changes, c.value.toControl.encode ∈ texts) :
    (Op.beginPush (samplePush operation changes)).texts ⊆ texts := by
  rintro b (rfl | ⟨c, hc, rfl⟩)
  · exact hr
  · exact hv c hc

lemma reachable_sampleLibrary {cr : Crates} {texts : Set (List UInt8)} :
    Reachable cr texts ⟨sampleLibrary cr,none⟩ :=
  ⟨"library","epoch",.single (.op (.addDevice "device-a") (Set.empty_subset _))⟩

def pushName : PushCall := samplePush "op-1" [deletionAt sampleName 3]

def pushDeletion : PushCall := samplePush "op-2" [deletionAt sampleCharacter 2]

def pushBoth : PushCall := samplePush "op-3" [deletionAt sampleName 3,deletionAt sampleCharacter 2]

/-- The texts hashed when a new library takes the first two pushes, or the third. -/
def sampleHashes : List (List UInt8 × String) :=
  [(UnitValue.deleted.toControl.encode,
      "26bce298ebea48dd989c74ec99e5dd883e1d2b1b01abb07861ec0afc3cc0c8a5"),
    (pushName.request.toControl.encode,
      "ba03c1bacab986c4420a7fc161963bcf5d35780f92377b6e2e5afd691c8c0b76"),
    (pushDeletion.request.toControl.encode,
      "d1630aaf98625693832b9a302f7f751ec0a6b064e13ae0bdfca0d4c0198500de"),
    (pushBoth.request.toControl.encode,
      "aa562bf551fa6ca2d3a416759404e53c46844c1a3ec9729395d9ebc4c9e14b1b"),
    ((Control.strings ["risunest-sync-genesis-v1","library","epoch"]).encode,
      "28d155fb4f569bee695e5dac56bb542f2fb624abdb08dc2686703023ebf31a74"),
    (utf8 ("28d155fb4f569bee695e5dac56bb542f2fb624abdb08dc2686703023ebf31a74:" ++
        "ba03c1bacab986c4420a7fc161963bcf5d35780f92377b6e2e5afd691c8c0b76:1").toList,
      "6d438aa7de5803fc940767defe5198c8d8828dca397eea3378eb624838349bb1"),
    (utf8 ("6d438aa7de5803fc940767defe5198c8d8828dca397eea3378eb624838349bb1:" ++
        "d1630aaf98625693832b9a302f7f751ec0a6b064e13ae0bdfca0d4c0198500de:2").toList,
      "1a6813b829c3d3e551cdaf04ee3a57981159d6ab9471846fcd70247a7cb91862"),
    (utf8 ("28d155fb4f569bee695e5dac56bb542f2fb624abdb08dc2686703023ebf31a74:" ++
        "aa562bf551fa6ca2d3a416759404e53c46844c1a3ec9729395d9ebc4c9e14b1b:1").toList,
      "9b95696d6e9d8e28553056aa4eb22b991b5076dcd83d728155f1fd7b8de5c960")]

def sampleCrates : Crates := tabulated sampleHashes [] []

def sampleTexts : Set (List UInt8) := tabulatedTexts sampleHashes

lemma collisionFree_sample : CollisionFree sampleCrates sampleTexts :=
  collisionFree_tabulated (by decide)

lemma texts_samplePushes {call : PushCall} (h : call ∈ [pushName,pushDeletion,pushBoth]) :
    (Op.beginPush call).texts ⊆ sampleTexts := by
  have deleted : UnitValue.deleted.toControl.encode ∈ sampleTexts := ⟨_,.head _⟩
  simp only [List.mem_cons, List.not_mem_nil, or_false] at h
  rcases h with rfl | rfl | rfl
  · exact texts_samplePush ⟨_,.tail _ (.head _)⟩ (by simpa [deletionAt] using deleted)
  · exact texts_samplePush ⟨_,.tail _ (.tail _ (.head _))⟩ (by simpa [deletionAt] using deleted)
  · exact texts_samplePush ⟨_,.tail _ (.tail _ (.tail _ (.head _)))⟩
      (by simpa [deletionAt] using deleted)

/-- The sample library after a push that deletes a character together with its name. -/
def sampleDeleted : System :=
  System.run sampleCrates ⟨sampleLibrary sampleCrates,none⟩ [.beginPush pushBoth,.finishPush 0]

lemma reachable_sampleDeleted : Reachable sampleCrates sampleTexts sampleDeleted := by
  refine Reachable.run reachable_sampleLibrary fun o ho => ?_
  simp only [List.mem_cons, List.not_mem_nil, or_false] at ho
  rcases ho with rfl | rfl
  · exact texts_samplePushes (by simp)
  · exact Set.empty_subset _

end RisuNest.Server
