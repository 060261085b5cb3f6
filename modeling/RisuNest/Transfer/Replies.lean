import RisuNest.Transfer.Batch
import RisuNest.Transfer.Matching
import RisuNest.Transfer.Store

/-! The reply to a request for objects (`transfers.rs`): which of them go whole, which as deltas
against what the client holds, and which are only announced. -/
namespace RisuNest.Transfer
open Wire Server Db

structure TransferRequest where
  target : String
  bases : List String
  deriving DecidableEq, Repr

/-- `corrupt-object` -/
def corruptObject : Error := .new "corrupt-object" 503

namespace Db

def objectSize (db : Db) (digest : String) : Answer (Option ℕ) := do
  lift (validateHash digest)
  pure ((db.objects.get digest).map ObjectRow.size)

def inlineBody (cr : Crates) (db : Db) (digest : String) (size : ℕ) : Answer Bytes :=
  match db.smallObjects.get digest with
  | none => .error corruptObject
  | some bytes => do
    require (bytes.length ≤ smallObjectBytes) (.new "object-too-large" 413)
    require (hash cr bytes = digest) corruptObject
    require (bytes.length = size) corruptObject
    pure bytes

/-- Object sizes are integers of the database. -/
def SizesFit (db : Db) : Prop := ∀ digest row, db.objects.get digest = some row → row.size < 2^63

end Db

namespace Disk

/-- The body of a published file, as far as its row says. -/
def fileBody (cr : Crates) (d : Disk) (digest : String) (size : ℕ) : Answer Bytes :=
  match d.published.get digest with
  | none => .error storageIo
  | some bytes => do
    require ((bytes.take (size+1)).length = size ∧ hash cr (bytes.take (size+1)) = digest)
      corruptObject
    pure (bytes.take (size+1))

def getObject (cr : Crates) (d : Disk) (digest : String) : Answer Bytes := do
  let placed ← d.db.placement digest
  match placed with
  | none => .error (.new "object-not-found" 404)
  | some row => do
    require (row.size ≤ maxTargetBytes) corruptObject
    match row.storage with
    | .inline => d.db.inlineBody cr digest row.size
    | .file => d.fileBody cr digest row.size

end Disk

namespace Reply
open Batch

/-- The bases of a request, each a hash and none twice. -/
def checkBases : List String → List String → Answer Unit
  | _, [] => .ok ()
  | seen, base :: bases => do
    lift (validateHash base)
    require (base ∉ seen) (.new "duplicate-base" 400)
    checkBases (base :: seen) bases

/-- The checks of one request. -/
def checkRequest (request : TransferRequest) : Answer Unit := do
  lift (validateHash request.target)
  require (request.bases.length ≤ maxBases) (.new "too-many-bases" 400)
  checkBases [] request.bases

/-- The size of a target, which must exist. -/
def targetSize (db : Db) (request : TransferRequest) : Answer (TransferRequest × ℕ) := do
  match ← db.objectSize request.target with
  | none => .error (.new "object-not-found" 404)
  | some size => pure (request,size)

/-- The objects whose sizes were read, each once, in the order of the map. -/
def union (db : Db) (requests : List TransferRequest) : List String :=
  (requests.flatMap fun r => r.target :: r.bases.filter fun base => db.objects.contains base)
    |>.dedup.insertionSort (· ≤ ·)

/-- The bases a delta may use, within what a recipe may read. -/
def selectBases (db : Db) : ℕ → List String → List String
  | _, [] => []
  | baseBytes, digest :: digests =>
    match db.objects.get digest with
    | some row =>
      if row.size ≤ maxTargetBytes ∧ baseBytes + row.size ≤ Delta.maxBaseBytes then
        digest :: selectBases db (baseBytes + row.size) digests
      else selectBases db baseBytes digests
    | none => selectBases db baseBytes digests

def selected (db : Db) (request : TransferRequest) (size : ℕ) : List String :=
  if 64 < size then selectBases db 0 request.bases else []

/-- The recipe that is sent, if one saves enough and fits. -/
def worthwhile (cr : Crates) (used : ℕ) (bases : List Bytes) (target : Bytes) : Option Recipe :=
  if bases = [] then none
  else
    match Delta.create cr bases target with
    | .error _ => none
    | .ok recipe =>
      match Delta.encodedLen recipe with
      | .error _ => none
      | .ok length =>
        if length + 64 < target.length ∧ used + length + 5 ≤ maxBatchBytes then some recipe
        else none

/-- The frame of a target whose body is read. -/
def bodyFrame (cr : Crates) (used : ℕ) (fits : Bool) (request : TransferRequest) (size : ℕ)
    (bases : List Bytes) (target : Bytes) : Frame :=
  match worthwhile cr used bases target with
  | some recipe => .delta recipe
  | none => if fits then .full target else .fullRequired request.target size

/-- What the reply holds so far. -/
structure Plan where
  used : ℕ
  materialized : ℕ
  frames : List Frame

/-- The frame of one request. -/
def chooseFrame (cr : Crates) (d : Disk) (s : Plan) (request : TransferRequest) (size : ℕ) :
    Answer Frame :=
  let chosen := selected d.db request size
  let fits := decide (s.used + size + 45 ≤ preferredBatchBytes)
  if size ≤ maxTargetBytes ∧ s.materialized + size ≤ maxRestoredBytes ∧
      (fits = true ∨ chosen ≠ []) then do
    let target ← d.getObject cr request.target
    let bases ← chosen.mapM (d.getObject cr)
    pure (bodyFrame cr s.used fits request size bases target)
  else pure (.fullRequired request.target size)

def announces : Frame → Bool
  | .fullRequired _ _ => true
  | _ => false

/-- One round of the loop. -/
def addFrame (cr : Crates) (d : Disk) (s : Plan) (request : TransferRequest × ℕ) :
    Answer Plan := do
  let frame ← chooseFrame cr d s request.1 request.2
  let encoded ← lift (encodedLen [frame])
  require (s.used + encoded - 8 ≤ maxBatchBytes) (.new "batch-too-large" 413)
  pure ⟨s.used + encoded - 8,
    if announces frame then s.materialized else s.materialized + request.2,s.frames ++ [frame]⟩

/-- The frames of a reply, and the leases of the objects it was planned from. -/
def plan (cr : Crates) (d : Disk) (device : Device) (requests : List TransferRequest) (now : ℤ) :
    Answer (Plan × Db) := do
  require (requests.length ≤ 1024) (.new "too-many-candidates" 400)
  requests.forM checkRequest
  let sized ← requests.mapM (targetSize d.db)
  let db ← ((union d.db requests).toChunks 1024).foldlM
    (fun db group => db.pinObjects device group now) d.db
  let s ← sized.foldlM (addFrame cr d) ⟨8,0,[]⟩
  pure (s,db)

def transferObjects (cr : Crates) (d : Disk) (device : Device) (requests : List TransferRequest)
    (now : ℤ) : Answer (Bytes × Db) := do
  let (s,db) ← plan cr d device requests now
  let bytes ← lift (encode cr s.frames)
  pure (bytes,db)

/-! ### What a frame serves -/

section
variable {cr : Crates} {d : Disk}

lemma getObject_sound {digest : String} {bytes : Bytes} (h : d.getObject cr digest = .ok bytes) :
    hash cr bytes = digest ∧ ∃ row, d.db.objects.get digest = some row ∧ bytes.length = row.size := by
  obtain ⟨placed,hp,h⟩ := bind_eq_ok.mp h
  obtain ⟨_,-,hp⟩ := bind_eq_ok.mp hp
  obtain rfl := Except.ok.inj hp
  cases hrow : d.db.objects.get digest with
  | none =>
    rw [hrow] at h
    cases h
  | some row =>
    rw [hrow] at h
    obtain ⟨_,-,h⟩ := bind_eq_ok.mp h
    cases hs : row.storage with
    | inline =>
      rw [hs] at h
      dsimp only at h
      unfold Db.inlineBody at h
      split at h
      · cases h
      · obtain ⟨_,-,h⟩ := bind_eq_ok.mp h
        obtain ⟨_,hhash,h⟩ := bind_eq_ok.mp h
        obtain ⟨_,hlen,h⟩ := bind_eq_ok.mp h
        obtain rfl := Except.ok.inj h
        exact ⟨require_eq_ok.mp hhash,row,rfl,require_eq_ok.mp hlen⟩
    | file =>
      rw [hs] at h
      dsimp only at h
      unfold Disk.fileBody at h
      split at h
      · cases h
      · obtain ⟨_,hr,h⟩ := bind_eq_ok.mp h
        obtain ⟨hlen,hhash⟩ := require_eq_ok.mp hr
        obtain rfl := Except.ok.inj h
        exact ⟨hhash,row,rfl,hlen⟩

/-- The frame answers the request: a whole body is the target's, a delta makes the target's body
from the bodies of some of the offered bases, named in their order, and an announcement names the
target and its size. -/
def Serves (cr : Crates) (d : Disk) (request : TransferRequest) : Frame → Prop
  | .full bytes => d.getObject cr request.target = .ok bytes
  | .delta recipe => ∃ target bodies, d.getObject cr request.target = .ok target ∧
      (recipe.bases.map Base.hash).Sublist request.bases ∧
      List.Forall₂ (fun base bytes => d.getObject cr base.hash = .ok bytes) recipe.bases bodies ∧
      Delta.apply cr recipe bodies = .ok target
  | .fullRequired digest size => digest = request.target ∧
      ∃ row, d.db.objects.get request.target = some row ∧ row.size = size

lemma selectBases_sublist (db : Db) (n : ℕ) (bases : List String) :
    (selectBases db n bases).Sublist bases := by
  induction bases generalizing n with
  | nil => exact .slnil
  | cons digest bases ih =>
    unfold selectBases
    split
    · split_ifs
      · exact (ih _).cons_cons digest
      · exact (ih _).cons digest
    · exact (ih _).cons digest

lemma selected_sublist (db : Db) (request : TransferRequest) (size : ℕ) :
    (selected db request size).Sublist request.bases := by
  unfold selected
  split_ifs
  · exact selectBases_sublist db 0 request.bases
  · exact List.nil_sublist _

lemma create_eq_ok {bases : List Bytes} {target : Bytes} {r : Recipe}
    (h : Delta.create cr bases target = .ok r) :
    r.bases = bases.map (Delta.describe cr) ∧ r.targetSize = target.length := by
  obtain ⟨_,-,h⟩ := bind_eq_ok.mp h
  obtain ⟨s,-,h⟩ := bind_eq_ok.mp h
  obtain ⟨_,-,h⟩ := bind_eq_ok.mp h
  obtain rfl := Except.ok.inj h
  exact ⟨rfl,rfl⟩

lemma create_of_worthwhile {used : ℕ} {bases : List Bytes} {target : Bytes} {r : Recipe}
    (h : worthwhile cr used bases target = some r) : Delta.create cr bases target = .ok r := by
  unfold worthwhile at h
  split_ifs at h
  split at h
  · cases h
  · rename_i recipe hr
    split at h
    · cases h
    · split_ifs at h
      rw [← Option.some.inj h]
      exact hr

lemma describe_bodies {chosen : List String} {bodies : List Bytes}
    (h : List.Forall₂ (fun digest bytes => d.getObject cr digest = .ok bytes) chosen bodies) :
    (bodies.map (Delta.describe cr)).map Base.hash = chosen ∧
      List.Forall₂ (fun base bytes => d.getObject cr base.hash = .ok bytes)
        (bodies.map (Delta.describe cr)) bodies := by
  induction h with
  | nil => exact ⟨rfl,.nil⟩
  | @cons digest bytes chosen bodies hb h ih =>
    have hhash := (getObject_sound hb).1
    have hname : (Delta.describe cr bytes).hash = digest := hhash
    refine ⟨?_,.cons ?_ ih.2⟩
    · rw [List.map_cons, List.map_cons, hname, ih.1]
    · rw [hname]
      exact hb

/-- What is known of the frame of a request of a given size. -/
structure Chosen (cr : Crates) (d : Disk) (s : Plan) (request : TransferRequest) (size : ℕ)
    (frame : Frame) : Prop where
  serves : Serves cr d request frame
  restored : frame.restored = if announces frame then 0 else size
  bounded : announces frame = true ∨ s.materialized + size ≤ maxRestoredBytes
  typed : size < 2^64 → frame.Typed

theorem chooseFrame_sound {s : Plan} {request : TransferRequest} {size : ℕ} {frame : Frame}
    (hsize : ∃ row, d.db.objects.get request.target = some row ∧ row.size = size)
    (h : chooseFrame cr d s request size = .ok frame) : Chosen cr d s request size frame := by
  unfold chooseFrame at h
  dsimp only at h
  split_ifs at h with hin
  · obtain ⟨target,ht,h⟩ := bind_eq_ok.mp h
    obtain ⟨bodies,hb,h⟩ := bind_eq_ok.mp h
    obtain rfl := Except.ok.inj h
    have hb := mapM_eq_ok.mp hb
    obtain ⟨row,hrow,hlen⟩ := (getObject_sound ht).2
    obtain ⟨row',hrow',rfl⟩ := hsize
    obtain rfl := Option.some.inj (hrow.symm.trans hrow')
    unfold bodyFrame
    split
    · rename_i recipe hw
      have hcreate := create_of_worthwhile hw
      obtain ⟨hbases,htarget⟩ := create_eq_ok hcreate
      obtain ⟨hnames,hbodies⟩ := describe_bodies hb
      refine ⟨⟨target,bodies,ht,?_,?_,Delta.apply_create hcreate⟩,?_,.inr hin.2.1,fun _ => trivial⟩
      · rw [hbases, hnames]
        exact selected_sublist d.db request row.size
      · rw [hbases]
        exact hbodies
      · exact htarget.trans hlen
    · split_ifs
      · exact ⟨ht,hlen,.inr hin.2.1,fun _ => trivial⟩
      · exact ⟨⟨rfl,row,hrow,rfl⟩,rfl,.inl rfl,id⟩
  · obtain rfl := Except.ok.inj h
    exact ⟨⟨rfl,hsize⟩,rfl,.inl rfl,id⟩

/-! ### The loop -/

/-- What holds after some requests. -/
structure Planned (cr : Crates) (d : Disk) (done : List (TransferRequest × ℕ)) (s : Plan) :
    Prop where
  serves : List.Forall₂ (fun request frame => Serves cr d request.1 frame) done s.frames
  typed : ∀ frame ∈ s.frames, frame.Typed
  restored : restoredSum s.frames = s.materialized
  bounded : s.materialized ≤ maxRestoredBytes
  counted : framesLen s.frames 8 = .ok s.used

lemma framesLen_append {frames : List Frame} {frame : Frame} {n m : ℕ}
    (h : framesLen frames n = .ok m) :
    framesLen (frames ++ [frame]) n = framesLen [frame] m := by
  induction frames generalizing n with
  | nil =>
    obtain rfl := Except.ok.inj h
    rfl
  | cons first frames ih =>
    obtain ⟨payload,hp,h⟩ := bind_eq_ok.mp h
    obtain ⟨_,hr,h⟩ := bind_eq_ok.mp h
    rw [List.cons_append, framesLen, hp]
    change (require _ _ >>= fun _ => framesLen (frames ++ [frame]) _) = _
    rw [hr]
    exact ih h

lemma framesLen_shift {frame : Frame} {m encoded : ℕ} (h : encodedLen [frame] = .ok encoded)
    (hfit : m + encoded - 8 ≤ maxBatchBytes) : framesLen [frame] m = .ok (m + encoded - 8) := by
  obtain ⟨_,-,h⟩ := bind_eq_ok.mp h
  obtain ⟨payload,hp,h⟩ := bind_eq_ok.mp h
  obtain ⟨_,-,h⟩ := bind_eq_ok.mp h
  obtain rfl := Except.ok.inj h
  have heq : m + (8 + 4 + payload) - 8 = m + 4 + payload := by omega
  rw [heq] at hfit ⊢
  exact bind_eq_ok.mpr ⟨_,hp,bind_eq_ok.mpr ⟨(),require_eq_ok.mpr hfit,rfl⟩⟩

lemma planned_step {done : List (TransferRequest × ℕ)} {s t : Plan}
    {request : TransferRequest × ℕ}
    (hsize : ∃ row, d.db.objects.get request.1.target = some row ∧ row.size = request.2)
    (hfit : request.2 < 2^64) (h : Planned cr d done s) (hf : addFrame cr d s request = .ok t) :
    Planned cr d (done ++ [request]) t := by
  obtain ⟨frame,hframe,hf⟩ := bind_eq_ok.mp hf
  obtain ⟨encoded,he,hf⟩ := bind_eq_ok.mp hf
  obtain ⟨_,hr,hf⟩ := bind_eq_ok.mp hf
  obtain rfl := Except.ok.inj hf
  have hc := chooseFrame_sound hsize hframe
  refine ⟨List.rel_append h.serves (.cons hc.serves .nil),?_,?_,?_,?_⟩
  · intro other hm
    rcases List.mem_append.mp hm with hm | hm
    · exact h.typed other hm
    · rw [List.mem_singleton.mp hm]
      exact hc.typed hfit
  · have hsum : restoredSum (s.frames ++ [frame]) = restoredSum s.frames + frame.restored := by
      simp [restoredSum]
    rw [hsum, h.restored, hc.restored]
    dsimp only
    split_ifs <;> rfl
  · dsimp only
    split_ifs with hann
    · exact h.bounded
    · exact hc.bounded.resolve_left hann
  · rw [framesLen_append h.counted]
    exact framesLen_shift (lift_eq_ok.mp he) (require_eq_ok.mp hr)

lemma targetSize_eq_ok {db : Db} {request : TransferRequest} {sized : TransferRequest × ℕ}
    (h : targetSize db request = .ok sized) : sized.1 = request ∧
      ∃ row, db.objects.get request.target = some row ∧ row.size = sized.2 := by
  obtain ⟨size,hs,h⟩ := bind_eq_ok.mp h
  obtain ⟨_,-,hs⟩ := bind_eq_ok.mp hs
  obtain rfl := Except.ok.inj hs
  cases hrow : db.objects.get request.target with
  | none =>
    rw [hrow] at h
    cases h
  | some row =>
    rw [hrow] at h
    obtain rfl := Except.ok.inj h
    exact ⟨rfl,row,rfl,rfl⟩

lemma sized_requests {db : Db} {requests : List TransferRequest}
    {sized : List (TransferRequest × ℕ)}
    (h : List.Forall₂ (fun request x => targetSize db request = .ok x) requests sized) :
    sized.map Prod.fst = requests ∧
      ∀ x ∈ sized, ∃ row, db.objects.get x.1.target = some row ∧ row.size = x.2 := by
  induction h with
  | nil => exact ⟨rfl,List.forall_mem_nil _⟩
  | @cons request x requests sized hr _ ih =>
    obtain ⟨rfl,hrow⟩ := targetSize_eq_ok hr
    exact ⟨congrArg (_ :: ·) ih.1,List.forall_mem_cons.mpr ⟨hrow,ih.2⟩⟩

/-- A plan that goes through serves its requests in their order. -/
theorem plan_sound (hsizes : d.db.SizesFit) {device : Device} {requests : List TransferRequest}
    {now : ℤ} {s : Plan} {db : Db} (h : plan cr d device requests now = .ok (s,db)) :
    requests.length ≤ maxBatchObjects ∧ ∃ sized, sized.map Prod.fst = requests ∧
      Planned cr d sized s := by
  obtain ⟨_,hfew,h⟩ := bind_eq_ok.mp h
  obtain ⟨_,-,h⟩ := bind_eq_ok.mp h
  obtain ⟨sized,hsized,h⟩ := bind_eq_ok.mp h
  obtain ⟨_,-,h⟩ := bind_eq_ok.mp h
  obtain ⟨s',hloop,h⟩ := bind_eq_ok.mp h
  obtain ⟨rfl,rfl⟩ := Prod.mk.inj (Except.ok.inj h)
  obtain ⟨hnames,hrows⟩ := sized_requests (mapM_eq_ok.mp hsized)
  refine ⟨require_eq_ok.mp hfew,sized,hnames,?_⟩
  have hrun := foldlM_induct (I := fun done s =>
      (∀ x ∈ done, ∃ row, d.db.objects.get x.1.target = some row ∧ row.size = x.2) →
        Planned cr d done s) ?_ ?_ hloop
  · exact hrun hrows
  · intro done s x t ih hf hall
    obtain ⟨hdone,hx⟩ := List.forall_mem_append.mp hall
    obtain ⟨row,hrow,hsize⟩ := hx x (List.mem_singleton_self x)
    have hfit : x.2 < 2^64 := hsize ▸ Nat.lt_trans (hsizes _ _ hrow) (by decide)
    exact planned_step ⟨row,hrow,hsize⟩ hfit (ih hdone) hf
  · exact fun _ => ⟨.nil,List.forall_mem_nil _,rfl,Nat.zero_le _,rfl⟩

/-- A reply that was planned is encoded, and a reply is usable: it is within the limit of a batch, it
is decoded to one frame for each request in their order, which restore no more than the decoder
takes, and each serves its request. -/
theorem reply_usable (hhex : ∀ b, validateHash (cr.sha256 b) = .ok ()) (hsizes : d.db.SizesFit)
    (device : Device) (requests : List TransferRequest) (now : ℤ) :
    (∀ s db, plan cr d device requests now = .ok (s,db) →
      ∃ reply, transferObjects cr d device requests now = .ok (reply,db)) ∧
    ∀ reply db, transferObjects cr d device requests now = .ok (reply,db) →
      reply.length ≤ maxBatchBytes ∧ ∃ frames, decode cr reply = .ok frames ∧
        List.Forall₂ (Serves cr d) requests frames ∧ restoredSum frames ≤ maxRestoredBytes := by
  constructor
  · intro s db h
    obtain ⟨hfew,sized,rfl,hp⟩ := plan_sound hsizes h
    have hcount : s.frames.length ≤ maxBatchObjects := by
      rw [← hp.serves.length_eq]
      rwa [List.length_map] at hfew
    have hlen : encodedLen s.frames = .ok s.used :=
      bind_eq_ok.mpr ⟨(),require_eq_ok.mpr hcount,hp.counted⟩
    obtain ⟨bytes,hb,-⟩ := (encodedLen_eq_ok hhex).mp hlen
    exact ⟨bytes,bind_eq_ok.mpr ⟨_,h,bind_eq_ok.mpr ⟨_,lift_eq_ok.mpr hb,rfl⟩⟩⟩
  · intro reply db h
    obtain ⟨⟨s,db'⟩,hplan,h⟩ := bind_eq_ok.mp h
    obtain ⟨bytes,hb,h⟩ := bind_eq_ok.mp h
    obtain ⟨rfl,rfl⟩ := Prod.mk.inj (Except.ok.inj h)
    obtain ⟨-,sized,rfl,hp⟩ := plan_sound hsizes hplan
    have hle : restoredSum s.frames ≤ maxRestoredBytes := hp.restored.le.trans hp.bounded
    have hdecode := decode_of_encode hhex hp.typed (lift_eq_ok.mp hb) hle
    obtain ⟨_,hlen,-⟩ := bind_eq_ok.mp hdecode
    refine ⟨require_eq_ok.mp hlen,s.frames,hdecode,?_,hle⟩
    exact List.forall₂_map_left_iff.mpr hp.serves

end

def baseHash : String := "6cfeeb3aa25d3f411dae5eec17d7369ca7153e72dcf54bcf4c3daec0f5b21fc7"
def targetHash : String := "00445a19e1b1af5f1f88a2b8e7ec9967959ca586ee7a1f03472a10aab66b1386"

/-- One device, and the sample bodies kept in the database. -/
def sampleDisk : Disk where
  staging := .empty
  published := .empty
  db :=
    { formatLevel := 0
      devices := ⟨[("d",false)],by decide⟩
      objects := ⟨[(baseHash,⟨64,.inline⟩),(targetHash,⟨65,.inline⟩)],by decide⟩
      smallObjects := ⟨[(baseHash,Delta.sampleBase),(targetHash,Delta.sampleTarget)],by decide⟩
      objectLeases := .empty
      objectTrash := .empty
      uploads := .empty
      uploadJobs := .empty
      uploadDeltas := .empty
      uploadDeltaBases := .empty
      uploadChunks := .empty
      stagingTrash := .empty }

def sampleRequests : List TransferRequest := [⟨targetHash,[baseHash]⟩,⟨baseHash,[]⟩]

/-- Two objects are asked for and the reply is usable. -/
theorem reply_usable_sample : ∃ reply db,
    transferObjects Delta.sampleCrates sampleDisk ⟨"d",none⟩ sampleRequests 0 = .ok (reply,db) ∧
    reply.length ≤ maxBatchBytes ∧ ∃ frames, decode Delta.sampleCrates reply = .ok frames ∧
      List.Forall₂ (Serves Delta.sampleCrates sampleDisk) sampleRequests frames ∧
      restoredSum frames ≤ maxRestoredBytes := by
  have hsizes : sampleDisk.db.SizesFit := by
    intro digest row h
    have hm := Table.get_eq_some.mp h
    rcases List.mem_cons.mp hm with hm | hm
    · rw [(Prod.mk.inj hm).2]
      decide
    · rw [(Prod.mk.inj (List.mem_singleton.mp hm)).2]
      decide
  obtain ⟨hplan,hreply⟩ := reply_usable Delta.sampleCrates_hash hsizes ⟨"d",none⟩ sampleRequests 0
  obtain ⟨⟨s,db⟩,hs⟩ := exists_eq_ok
    (x := plan Delta.sampleCrates sampleDisk ⟨"d",none⟩ sampleRequests 0) (by decide +kernel)
  obtain ⟨reply,h⟩ := hplan s db hs
  exact ⟨reply,db,h,hreply reply db h⟩

end Reply
end RisuNest.Transfer
