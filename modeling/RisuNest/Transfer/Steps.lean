import RisuNest.Transfer.Store

/-! The server's transfers as a system: requests, the upload worker and maintenance take turns at
their locked parts, and the process may stop after any durable step. -/
namespace RisuNest.Transfer
open Wire Server

/-- How far the body of an upload has been put together. -/
inductive Progress
  | opened
  | bases (recipe : Recipe) (rest : List Base) (found : List Bytes)
  | chunks (index : ℕ) (read : Bytes)
  | assembled (bytes : Bytes)

namespace Disk
variable (cr : Crates)

/-- `open_object`. An open file keeps its content when the name is given to another. -/
def openObject (d : Disk) (digest : String) : Answer Bytes := do
  let placed ← d.db.placement digest
  match placed with
  | none => .error (.new "object-not-found" 404)
  | some ⟨size,.inline⟩ =>
    match d.db.smallObjects.get digest with
    | none => .error (.new "corrupt-object" 503)
    | some body =>
      require (body.length ≤ smallObjectBytes) (.new "object-too-large" 413)
      require (hash cr body = digest ∧ body.length = size) (.new "corrupt-object" 503)
      pure body
  | some ⟨size,.file⟩ =>
    match d.published.get digest with
    | none => .error storageIo
    | some body =>
      require (body.length = size) (.new "corrupt-object" 503)
      pure body

/-- The reads of `finish_upload` between its transactions, one after another. -/
def readOn (d : Disk) (device : Device) (id digest : String) (size : ℕ) (now : ℤ) :
    Progress → Answer Progress
  | .opened =>
    match d.db.uploadDeltas.get id with
    | some bytes => do
      let recipe ← lift (Recipe.decode bytes)
      pure (.bases recipe recipe.bases [])
    | none => .ok (.chunks 0 [])
  | .bases recipe (base :: rest) found => do
    let body ← d.openObject cr base.hash
    pure (.bases recipe rest (found ++ [body]))
  | .bases recipe [] found =>
    -- the upload is looked up again while the recipe is applied
    if (recipe.bases ≠ [] ∨ recipe.ops ≠ []) ∧ (d.db.uploadRow device id now).isOk = false then
      .error (.new "delta-cancelled" 400)
    else do
      let bytes ← lift (recipe.apply cr found)
      pure (.assembled bytes)
  | .chunks index read =>
    if index < divCeil size uploadChunkBytes then
      match d.db.uploadChunks.get (id,index), d.staging.get (id,index) with
      | none, _ => .error metadataStorage
      | some _, none => .error storageIo
      | some chunk, some file => do
        require (file.length = chunk.size ∧ hash cr file = chunk.hash) (.new "corrupt-chunk" 503)
        pure (.chunks (index + 1) (read ++ file))
    else do
      require (read.length = size ∧ hash cr read = digest) (.new "hash-mismatch" 400)
      pure (.assembled read)
  | .assembled bytes => .ok (.assembled bytes)

def filedBodyDiffers (d : Disk) (digest : String) (bytes : Bytes) : Bool :=
  match d.published.get digest with
  | none => true
  | some stored => decide (stored.take (bytes.length + 1) ≠ bytes)

end Disk

/-- Who called `finish_upload`. -/
inductive Caller
  | request
  | worker
  deriving DecidableEq

/-- A request or a run of the worker between two of its locked parts. -/
inductive Call
  | chunk (device : Device) (id : String) (index : ℕ) (digest : String) (bytes : Bytes)
  | starting (caller : Caller) (device : Device) (id : String)
  | finishing (caller : Caller) (device : Device) (id digest : String) (size : ℕ)
      (progress : Progress)
  | failing (caller : Caller) (id : String) (error : Error)
  | settling (id : String) (outcome : Option Error)
  | placing (device : Device) (objects todo : List (String × Bytes)) (found : List String)
  | sorting (device : Device) (todo : List (String × Bytes)) (found : List String)
      (inline filed : List (String × Bytes))
  | storing (device : Device) (inline filed : List (String × Bytes))

/-- Whether a call holds `upload_job_gate`. -/
def Call.working : Call → Bool
  | .starting caller _ _ | .finishing caller _ _ _ _ _ | .failing caller _ _ =>
    decide (caller = .worker)
  | .settling _ _ => true
  | _ => false

/-- Whether a call prepares the bodies of a request. -/
def Call.sifting : Call → Bool
  | .placing _ _ _ _ | .sorting _ _ _ _ _ | .storing _ _ _ => true
  | _ => false

/-- The bodies a call brings, under their hashes. -/
def Call.objects : Call → List (String × Bytes)
  | .chunk _ _ _ digest bytes => [(digest,bytes)]
  | .finishing _ _ _ digest _ (.assembled bytes) => [(digest,bytes)]
  | .placing _ objects todo _ => objects ++ todo
  | .sorting _ todo _ inline filed => todo ++ (inline ++ filed)
  | .storing _ inline filed => inline ++ filed
  | _ => []

/-- The bodies a call stores in the database. -/
def Call.inline : Call → List (String × Bytes)
  | .sorting _ _ _ inline _ | .storing _ inline _ => inline
  | _ => []

inductive Op
  | setClock (time : ℤ)
  | addDevice (id : String)
  | revokeDevice (id : String)
  | setFormat (level : ℕ)
  | beginUpload (device : Device) (manifest : Db.Manifest) (id : String)
  | sendChunk (call : ℕ) (device : Device) (id : String) (index : ℕ) (digest : String)
      (bytes : Bytes)
  | storeChunk (call : ℕ)
  | attach (device : Device) (id : String) (bytes : Bytes)
  | submit (call : ℕ) (device : Device) (id : String)
  | takeJob (call : ℕ)
  | startFinish (call : ℕ)
  | read (call : ℕ)
  /-- A file operation of `finish_upload` fails. -/
  | fail (call : ℕ)
  | publish (call : ℕ)
  | rollBack (call : ℕ)
  | settle (call : ℕ)
  | cancel (device : Device) (id : String) (stuck : List (String × ℕ))
  | putObjects (call : ℕ) (device : Device) (objects : List (String × Bytes))
  /-- Frames, as the bodies they stand for. -/
  | receiveFrames (call : ℕ) (device : Device) (bodies : List Bytes)
  | place (call : ℕ)
  | sort (call : ℕ)
  /-- Only some of the files of a request can be published. -/
  | publishSome (call : ℕ) (digests : List String)
  | store (call : ℕ)
  | pin (device : Device) (hashes : List String)
  | maintain (clock : ℤ) (held alive objectNames : List String) (chunkNames : List (String × ℕ))
      (stuckChunks : List (String × ℕ)) (stuckObjects : List String)
  | drainTrash (stuckChunks : List (String × ℕ)) (stuckObjects : List String)

/-- The call an operation is a part of. -/
def Op.call : Op → Option ℕ
  | .sendChunk call _ _ _ _ _ | .storeChunk call | .submit call _ _ | .takeJob call
  | .startFinish call | .read call | .fail call | .publish call | .rollBack call | .settle call
  | .putObjects call _ _ | .receiveFrames call _ _ | .place call | .sort call
  | .publishSome call _ | .store call => some call
  | _ => none

/-- What an operation writes, what becomes of its call, and the chunk it acknowledges. -/
structure Outcome where
  writes : List Write
  call : Option Call
  acknowledged : Option (String × ℕ × Bytes)

namespace Outcome

/-- Nothing is written and the call ends. -/
def ended : Outcome := ⟨[],none,none⟩

def next (call : Call) : Outcome := ⟨[],some call,none⟩

/-- A transaction that may be refused. -/
def commit (db : Answer Db) : Outcome :=
  match db with
  | .ok db => ⟨[.commit db],none,none⟩
  | .error _ => ended

/-- `finish_upload` returns to its caller. -/
def returned (writes : List Write) (caller : Caller) (id : String) (outcome : Option Error) :
    Outcome :=
  match caller with
  | .request => ⟨writes,none,none⟩
  | .worker => ⟨writes,some (.settling id outcome),none⟩

end Outcome

/-- The store while it is open. The ids that `random_id` has drawn, what has been acknowledged of
unfinished uploads, the chunk rows and recipes that present uploads have had and the bodies that
came up are kept beside it. -/
structure System where
  disk : Disk
  clock : ℤ
  cursors : ℕ × ℕ
  calls : Table ℕ Call
  issued : List String
  acknowledged : List (String × ℕ × Bytes)
  chunksSeen : List ((String × ℕ) × Chunk)
  recipesSeen : List (String × Bytes)
  bodiesSeen : List Bytes

def Db.create : Db :=
  ⟨1,.empty,.empty,.empty,.empty,.empty,.empty,.empty,.empty,.empty,.empty,.empty⟩

namespace System
variable (cr : Crates)

/-- The store after `init`. -/
def create : System := ⟨⟨.empty,.empty,.create⟩,0,(0,0),.empty,[],[],[],[],[]⟩

/-- The next part of a call that is running. -/
def resume (s : System) (op : Op) (call : Call) : Outcome :=
  match op, call with
  | .storeChunk _, .chunk device id index digest bytes =>
    match s.disk.db.publishChunk device id index digest bytes s.clock with
    | .ok writes => ⟨writes,none,some (id,index,bytes)⟩
    | .error _ => .ended
  | .startFinish _, .starting caller device id =>
    match s.disk.db.startFinish device id s.clock with
    | .ok (.complete _) => .returned [] caller id none
    | .ok (.finalizing digest size db) =>
      ⟨[.commit db],some (.finishing caller device id digest size .opened),none⟩
    | .error e => .returned [] caller id (some e)
  | .read _, .finishing caller device id digest size progress =>
    match s.disk.readOn cr device id digest size s.clock progress with
    | .ok progress => .next (.finishing caller device id digest size progress)
    | .error e => .next (.failing caller id e)
  | .fail _, .finishing caller _ id _ _ _ => .next (.failing caller id storageIo)
  | .publish _, .finishing caller device id digest size (.assembled bytes) =>
    match s.disk.db.publishUpload cr device id digest size bytes s.clock with
    | .ok writes => .returned writes caller id none
    | .error e => .next (.failing caller id e)
  | .rollBack _, .failing caller id e =>
    .returned [.commit (s.disk.db.moveState id .finalizing .opened)] caller id (some e)
  | .settle _, .settling id outcome =>
    ⟨[.commit (s.disk.db.settleJob id outcome s.clock)],none,none⟩
  | .place _, .placing device objects ((digest,bytes) :: todo) found =>
    if bytes.length ≤ smallObjectBytes then
      match s.disk.db.placement digest with
      | .error _ => .ended
      | .ok placed =>
        if placed.any fun row => decide (row.storage = .file) then
          .next (.placing device objects todo (digest :: found))
        else .next (.placing device objects todo found)
    else .next (.placing device objects todo found)
  | .place _, .placing device objects [] found => .next (.sorting device objects found [] [])
  | .sort _, .sorting device ((digest,bytes) :: todo) found inline filed =>
    if validateHash digest = .ok () ∧ bytes.length ≤ maxTargetBytes then
      if bytes.length ≤ smallObjectBytes ∧
          ¬ (digest ∈ found ∧ s.disk.filedBodyDiffers digest bytes = true) then
        .next (.sorting device todo found (inline ++ [(digest,bytes)]) filed)
      else if digest ∈ filed.map Prod.fst then .next (.sorting device todo found inline filed)
      else .next (.sorting device todo found inline (filed ++ [(digest,bytes)]))
    else .ended
  | .sort _, .sorting device [] _ inline filed => .next (.storing device inline filed)
  | .publishSome _ digests, .storing _ _ filed =>
    ⟨(filed.filter fun o => decide (o.1 ∈ digests)).map fun o => .publishObject o.1 o.2,none,none⟩
  | .store _, .storing device inline filed =>
    ⟨filed.map (fun o => .publishObject o.1 o.2) ++
      (Outcome.commit (s.disk.db.storeObjects cr device inline filed s.clock)).writes,none,none⟩
  -- not the next part of this call
  | _, call => .next call

/-- What an operation comes to. -/
def outcome (s : System) (op : Op) : Outcome :=
  match op with
  | .setClock _ => .ended
  | .addDevice id =>
    .commit (.ok { s.disk.db with devices := s.disk.db.devices.insertOrIgnore id false })
  | .revokeDevice id =>
    .commit (.ok { s.disk.db with
      devices := s.disk.db.devices.mapValues fun id' revoked => revoked || decide (id' = id) })
  | .setFormat level =>
    .commit (.ok { s.disk.db with formatLevel := min level libraryFormatMaxLevel })
  | .beginUpload device manifest id =>
    -- `random_id` draws no id twice
    if id ∈ s.issued then .ended
    else .commit (s.disk.db.beginUpload device manifest id s.clock)
  | .attach device id bytes => .commit (s.disk.db.attachUploadDelta device id bytes s.clock)
  | .cancel device id stuck =>
    match s.disk.db.cancelled device id s.clock with
    | .error _ => .ended
    | .ok db =>
      ⟨andThen Disk.apply (fun _ => [.commit db]) (Db.drainStagingTrash (some id) 0 stuck) s.disk,
        none,none⟩
  | .pin device hashes => .commit (s.disk.db.pinObjects device hashes s.clock)
  | .maintain clock held alive objectNames chunkNames stuckChunks stuckObjects =>
    ⟨andThen Disk.apply (fun d => [.commit (d.db.maintained s.clock clock held alive)])
      (andThen Disk.apply (Db.reconcileOrphans objectNames chunkNames)
        (Db.drainTrash s.cursors stuckChunks stuckObjects)) s.disk,none,none⟩
  | .drainTrash stuckChunks stuckObjects =>
    ⟨Db.drainTrash s.cursors stuckChunks stuckObjects s.disk,none,none⟩
  | .sendChunk call device id index digest bytes =>
    match s.calls.get call, s.disk.db.checkChunk cr device id index digest bytes s.clock with
    | none, .ok () => .next (.chunk device id index digest bytes)
    | running, _ => ⟨[],running,none⟩
  | .submit call device id =>
    match s.calls.get call, s.disk.db.submitUpload device id s.clock with
    | none, .ok .finish => .next (.starting .request device id)
    | none, .ok (.accepted db) => ⟨[.commit db],none,none⟩
    | running, _ => ⟨[],running,none⟩
  | .takeJob call =>
    match s.calls.get call, s.disk.db.pendingJob s.clock with
    | none, some (id,device) =>
      -- the gate is tried, not waited for
      if s.calls.any fun _ c => c.working then .ended
      else .next (.starting .worker ⟨device,some libraryFormatMaxLevel⟩ id)
    | running, _ => ⟨[],running,none⟩
  | .putObjects call device objects =>
    match s.calls.get call, s.disk.db.checkObjects cr device objects with
    | none, .ok () => .next (.placing device objects objects [])
    | running, _ => ⟨[],running,none⟩
  | .receiveFrames call device bodies =>
    match s.calls.get call, s.disk.db.requireDevice device with
    | none, .ok () =>
      let objects := bodies.map fun b => (hash cr b,b)
      .next (.placing device objects objects [])
    | running, _ => ⟨[],running,none⟩
  | .storeChunk call | .startFinish call | .read call | .fail call | .publish call | .rollBack call
  | .settle call | .place call | .sort call | .publishSome call _ | .store call =>
    match s.calls.get call with
    | none => .ended
    | some running => s.resume cr op running

/-- The pages of the trash that an operation goes through. -/
def nextCursors (s : System) (op : Op) : ℕ × ℕ :=
  let after (d : Disk) := (Db.nextCursor (d.db.stagingPage none s.cursors.1),
    Db.nextCursor (d.db.objectPage s.cursors.2))
  match op with
  | .maintain clock held alive objectNames chunkNames _ _ =>
    after (written Disk.apply s.disk (andThen Disk.apply
      (fun d => [.commit (d.db.maintained s.clock clock held alive)])
      (Db.reconcileOrphans objectNames chunkNames) s.disk))
  | .drainTrash _ _ => after s.disk
  | _ => s.cursors

/-- The time after an operation. -/
def nextClock (s : System) : Op → ℤ
  | .setClock time => time
  | .maintain clock _ _ _ _ _ _ => clock
  | _ => s.clock

def nextIssued (s : System) : Op → List String
  | .beginUpload _ _ id => id :: s.issued
  | _ => s.issued

def nextCalls (s : System) (op : Op) : Table ℕ Call :=
  match op.call, (s.outcome cr op).call with
  | none, _ => s.calls
  | some id, none => s.calls.erase id
  | some id, some call => s.calls.upsert id call

/-- The bodies on a disk. -/
def bodies (d : Disk) : List Bytes :=
  d.staging.rows.map Prod.snd ++ d.published.rows.map Prod.snd ++ d.db.smallObjects.rows.map Prod.snd

/-- What is remembered of a disk and a call beside what was remembered before. -/
def remember (s : System) (d : Disk) (call : Option Call)
    (acknowledged : List (String × ℕ × Bytes)) : System :=
  { s with
    disk := d
    acknowledged := (s.acknowledged ++ acknowledged).filter fun a =>
      (d.db.uploads.get a.1).any Db.unfinished
    chunksSeen := (s.chunksSeen ++ d.db.uploadChunks.rows).filter fun c => d.db.uploads.contains c.1.1
    recipesSeen := (s.recipesSeen ++ d.db.uploadDeltas.rows).filter fun r => d.db.uploads.contains r.1
    bodiesSeen := s.bodiesSeen ++ bodies d ++
      (call.map fun c => c.objects.map Prod.snd).getD [] }

inductive Event
  | perform (op : Op)
  /-- The process stops after some of an operation's writes and is started again. -/
  | crash (op : Op) (writes : ℕ)

def exec (s : System) : Event → System
  | .perform op =>
    let o := s.outcome cr op
    { s.remember (written Disk.apply s.disk o.writes) o.call o.acknowledged.toList with
      clock := s.nextClock op
      cursors := s.nextCursors op
      issued := s.nextIssued op
      calls := s.nextCalls cr op }
  | .crash op writes =>
    let d := written Disk.apply s.disk ((s.outcome cr op).writes.take writes)
    { s.remember { d with db := d.db.reopened } none [] with
      clock := s.nextClock op
      cursors := (0,0)
      issued := s.nextIssued op
      calls := .empty }

/-- The states of the runs whose events all meet a condition. -/
inductive Reachable (P : System → Event → Prop) : System → Prop
  | create : Reachable P create
  | step {s : System} {e : Event} (h : Reachable P s) (he : P s e) : Reachable P (s.exec cr e)

/-- The states a run goes on to. -/
inductive Later (s : System) : System → Prop
  | refl : Later s s
  | step {t : System} {e : Event} (h : Later s t) : Later s (t.exec cr e)

/-- The state after a list of events. -/
def run (s : System) (events : List Event) : System := events.foldl (fun s e => s.exec cr e) s

/-- A condition that is checked before each event of a list. -/
def meets (p : System → Event → Bool) : System → List Event → Bool
  | _, [] => true
  | s, e :: events => p s e && meets p (s.exec cr e) events

variable {cr} in
lemma Reachable.run {P : System → Event → Prop} {p : System → Event → Bool}
    (hp : ∀ s e, p s e = true → P s e) {s : System} (h : Reachable cr P s) {events : List Event}
    (hm : s.meets cr p events = true) : Reachable cr P (s.run cr events) := by
  induction events generalizing s with
  | nil => exact h
  | cons e events ih =>
    obtain ⟨he, hm⟩ := Bool.and_eq_true_iff.mp hm
    exact ih (h.step (hp s e he)) hm

end System
end RisuNest.Transfer
