import RisuNest.Server.CachedLevel
import RisuNest.Server.ExactlyOnce

/-! The library format gate: what is left to a device that is not admitted. -/
namespace RisuNest.Server
open Wire

namespace Gated
variable {cr : Crates} {g : Gated}

/-! ### Refused requests -/

/-- The answer to a request that passes some checks of its own or fails them, and is not
admitted. -/
def refusedBehind {α : Type} (checks : Answer Unit) (e : Error) : Answer α :=
  checks.bind fun _ => .error e

lemma refusedBehind_eq_error {α : Type} (checks : Answer Unit) (e : Error) :
    ∃ e', (refusedBehind checks e : Answer α) = .error e' := by
  cases checks with
  | error e' => exact ⟨e',rfl⟩
  | ok _ => exact ⟨e,rfl⟩

@[simp] lemma refusedBehind_bind {α β : Type} (checks : Answer Unit) (e : Error)
    (f : α → Answer β) : (refusedBehind checks e >>= f) = refusedBehind checks e := by
  cases checks <;> rfl

@[simp] lemma refusedBehind_map {α β : Type} (checks : Answer Unit) (e : Error) (f : α → β) :
    (refusedBehind checks e).map f = refusedBehind checks e := by
  cases checks <;> rfl

section
variable {s : Store} {device : Device} {e : Error} (h : s.requireDevice cr device = .error e)
include h

lemma beginPush_refused {call : PushCall} (hd : call.device = device) : s.beginPush cr call =
    (.inl (refusedBehind (do
      lift (validateId call.request.operationId)
      let _ ← call.clock
      pure ()) e),s) := by
  subst hd
  have hrefused : s.admission cr call.device call.request = .error e := by
    unfold Store.admission
    rw [h]
    rfl
  unfold Store.beginPush
  dsimp only
  rw [hrefused]
  cases lift (validateId call.request.operationId) with
  | error e' => rfl
  | ok _ => cases call.clock <;> rfl

lemma cancelOperation_refused (id bodyDigest : String) (clock : Answer ℕ) (created : ℤ) :
    s.cancelOperation cr device id bodyDigest clock created =
      (refusedBehind (do lift (validateId id); lift (validateHash bodyDigest)) e,s) := by
  unfold Store.cancelOperation
  rw [h]
  cases lift (validateId id) with
  | error e' => rfl
  | ok _ => cases lift (validateHash bodyDigest) <;> rfl

lemma changes_refused (after limit : ℕ) : s.changes cr device after limit =
    refusedBehind (require (limit ≠ 0 ∧ limit ≤ 1024) (.new "invalid-limit" 400)) e := by
  unfold Store.changes
  rw [h]
  cases require (limit ≠ 0 ∧ limit ≤ 1024) (Error.new "invalid-limit" 400) <;> rfl

lemma createStatePin_refused (id : String) (now : ℤ) :
    s.createStatePin cr device id now = (.error e,s) := by
  unfold Store.createStatePin
  rw [h]

lemma statePage_refused (id : String) (after : Option UnitKey) (limit : ℕ) (now : ℤ) :
    s.statePage cr device id after limit now = refusedBehind (do
      lift (validateId id)
      require (limit ≠ 0 ∧ limit ≤ 1024) (.new "invalid-limit" 400)) e := by
  unfold Store.statePage
  rw [h]
  cases lift (validateId id) with
  | error e' => rfl
  | ok _ => cases require (limit ≠ 0 ∧ limit ≤ 1024) (Error.new "invalid-limit" 400) <;> rfl

lemma releaseStatePin_refused (pin : String) :
    s.releaseStatePin cr device pin = (refusedBehind (lift (validateId pin)) e,s) := by
  unfold Store.releaseStatePin
  rw [h]
  cases lift (validateId pin) <;> rfl

lemma acknowledge_refused (seq : ℕ) (now : ℤ) :
    s.acknowledge cr device seq now = (.error e,s) := by
  unfold Store.acknowledge
  rw [h]

lemma retainObjects_refused (epoch : String) (objects : List ObjectIdentity)
    (token : String → String) : s.retainObjects cr device epoch objects token =
      refusedBehind (require (objects.length ≤ custodyPageSize) (.new "too-many-objects" 400)) e := by
  unfold Store.retainObjects
  rw [h]
  cases require (objects.length ≤ custodyPageSize) (Error.new "too-many-objects" 400) <;> rfl

lemma retainedObjects_refused (epoch : String) (after : Option String) :
    s.retainedObjects cr device epoch after = refusedBehind (match after with
      | some after => lift (validateHash after)
      | none => pure ()) e := by
  unfold Store.retainedObjects
  rw [h]
  cases after with
  | none => rfl
  | some after => cases hv : lift (validateHash after) <;> simp only [hv] <;> rfl

lemma releaseRetainedObjects_refused (epoch : String) (objects : List RetentionRelease) :
    s.releaseRetainedObjects cr device epoch objects =
      refusedBehind (require (objects.length ≤ custodyPageSize) (.new "too-many-objects" 400)) e := by
  unfold Store.releaseRetainedObjects
  rw [h]
  cases require (objects.length ≤ custodyPageSize) (Error.new "too-many-objects" 400) <;> rfl

lemma bindDeviceWriter_refused (writerId : String) : s.bindDeviceWriter cr device writerId =
    (refusedBehind (lift (validateWriterId writerId)) e,s) := by
  unfold Store.bindDeviceWriter
  rw [h]
  cases lift (validateWriterId writerId) <;> rfl

lemma newDeviceWriterClaim_refused (claims : Table String ClaimRow) :
    s.newDeviceWriterClaim cr claims device = .error e := by
  unfold Store.newDeviceWriterClaim
  rw [h]
  rfl

lemma claimNewDeviceWriter_refused (claims : Table String ClaimRow)
    (request : NewDeviceClaimRequest) (former : Option String) :
    s.claimNewDeviceWriter cr claims device request former =
      (refusedBehind (lift request.validate) e,s,claims) := by
  unfold Store.claimNewDeviceWriter
  rw [h]
  cases lift request.validate <;> rfl

end

/-! ### Refused transfers -/

lemma requireDevice_session {level : ℕ} (hl : g.library.storedFormat cr = .ok level)
    (device : Device) :
    (g.session level).disk.db.requireDevice device = g.library.requireDevice cr device := by
  have hactive : ((g.session level).disk.db.devices.get device.id = some false) ↔
      g.library.active device.id = true := by
    change (g.library.devices.convert fun _ row => row.revoked).get device.id = some false ↔ _
    rw [Table.get_convert]
    unfold Store.active
    cases g.library.devices.get device.id <;> simp
  unfold Transfer.Db.requireDevice Store.requireDevice
  rw [hl]
  by_cases ha : g.library.active device.id = true
  · rw [require_eq_ok.mpr (hactive.mpr ha),require_eq_ok.mpr ha]
    rfl
  · rw [require_eq_error.mpr ⟨fun hc => ha (hactive.mp hc),rfl⟩,require_eq_error.mpr ⟨ha,rfl⟩]
    rfl

section
variable {s : Transfer.System} {device : Device} {e : Error}
  (h : s.disk.db.requireDevice device = .error e)
include h

lemma uploadRow_refused (id : String) (now : ℤ) :
    s.disk.db.uploadRow device id now = refusedBehind (lift (validateId id)) e := by
  unfold Transfer.Db.uploadRow
  rw [h]
  cases lift (validateId id) <;> rfl

lemma beginUpload_refused (manifest : Transfer.Db.Manifest) (id : String) (now : ℤ) :
    s.disk.db.beginUpload device manifest id now = refusedBehind (do
      lift (validateHash manifest.hash)
      require (manifest.size ≤ Transfer.maxUploadBytes) (.new "object-too-large" 413)) e := by
  unfold Transfer.Db.beginUpload
  rw [h]
  cases lift (validateHash manifest.hash) with
  | error e' => rfl
  | ok _ =>
    cases require (manifest.size ≤ Transfer.maxUploadBytes) (Error.new "object-too-large" 413) <;>
      rfl

lemma attachUploadDelta_refused (id : String) (bytes : Transfer.Bytes) (now : ℤ) :
    s.disk.db.attachUploadDelta device id bytes now = refusedBehind (do
      let _ ← lift (Transfer.Recipe.decode bytes)
      lift (validateId id)) e := by
  unfold Transfer.Db.attachUploadDelta
  simp only [uploadRow_refused h,refusedBehind_bind]
  cases lift (Transfer.Recipe.decode bytes) <;> rfl

lemma cancelled_refused (id : String) (now : ℤ) :
    s.disk.db.cancelled device id now = refusedBehind (lift (validateId id)) e := by
  unfold Transfer.Db.cancelled
  simp only [uploadRow_refused h,refusedBehind_bind]

lemma pinObjects_refused (hashes : List String) (now : ℤ) :
    s.disk.db.pinObjects device hashes now = refusedBehind
      (require (hashes.length ≤ 1024) (.new "too-many-candidates" 400)) e := by
  unfold Transfer.Db.pinObjects
  rw [h]
  cases require (hashes.length ≤ 1024) (Error.new "too-many-candidates" 400) <;> rfl

lemma checkChunk_refused (id : String) (index : ℕ) (digest : String) (bytes : Transfer.Bytes)
    (now : ℤ) : s.disk.db.checkChunk cr device id index digest bytes now = refusedBehind (do
      lift (validateHash digest)
      lift (validateId id)) e := by
  unfold Transfer.Db.checkChunk
  simp only [uploadRow_refused h,refusedBehind_bind]
  cases lift (validateHash digest) <;> rfl

lemma submitUpload_refused (id : String) (now : ℤ) :
    s.disk.db.submitUpload device id now = refusedBehind (lift (validateId id)) e := by
  unfold Transfer.Db.submitUpload
  simp only [uploadRow_refused h,refusedBehind_bind]

lemma checkObjects_refused (objects : List (String × Transfer.Bytes)) :
    s.disk.db.checkObjects cr device objects = .error e := by
  unfold Transfer.Db.checkObjects
  rw [h]
  rfl

lemma outcome_refused {op : Transfer.Op} (ho : opener op = some device) :
    (s.outcome cr op).writes = [] ∧ (s.outcome cr op).call = op.call.bind s.calls.get := by
  have hended : ∀ {α : Type} (checks : Answer Unit) (f : α → Transfer.Db),
      Transfer.Outcome.commit ((refusedBehind checks e : Answer α).map f) = .ended := by
    intro α checks f
    cases checks <;> rfl
  have herror : ∀ {α : Type} (checks : Answer Unit),
      ∃ e', (refusedBehind checks e : Answer α) = .error e' := fun checks =>
    refusedBehind_eq_error checks e
  cases op with
  | beginUpload d manifest id =>
    obtain rfl := Option.some.inj ho
    obtain ⟨e',he⟩ := herror (α := Transfer.Db) (do
      lift (validateHash manifest.hash)
      require (manifest.size ≤ Transfer.maxUploadBytes) (.new "object-too-large" 413))
    simp only [Transfer.System.outcome,beginUpload_refused h,he]
    split_ifs <;> exact ⟨rfl,rfl⟩
  | attach d id bytes =>
    obtain rfl := Option.some.inj ho
    obtain ⟨e',he⟩ := herror (α := Transfer.Db) (do
      let _ ← lift (Transfer.Recipe.decode bytes)
      lift (validateId id))
    simp only [Transfer.System.outcome,attachUploadDelta_refused h,he]
    exact ⟨rfl,rfl⟩
  | cancel d id stuck =>
    obtain rfl := Option.some.inj ho
    obtain ⟨e',he⟩ := herror (α := Transfer.Db) (lift (validateId id))
    simp only [Transfer.System.outcome,cancelled_refused h,he]
    exact ⟨rfl,rfl⟩
  | pin d hashes =>
    obtain rfl := Option.some.inj ho
    obtain ⟨e',he⟩ := herror (α := Transfer.Db)
      (require (hashes.length ≤ 1024) (.new "too-many-candidates" 400))
    simp only [Transfer.System.outcome,pinObjects_refused h,he]
    exact ⟨rfl,rfl⟩
  | sendChunk call d id index digest bytes =>
    obtain rfl := Option.some.inj ho
    obtain ⟨e',he⟩ := herror (α := Unit) (do lift (validateHash digest); lift (validateId id))
    simp only [Transfer.System.outcome,checkChunk_refused h,he]
    exact ⟨by cases s.calls.get call <;> rfl,by cases hc : s.calls.get call <;> simp [Transfer.Op.call,hc]⟩
  | submit call d id =>
    obtain rfl := Option.some.inj ho
    obtain ⟨e',he⟩ := herror (α := Transfer.Db.Submitted) (lift (validateId id))
    simp only [Transfer.System.outcome,submitUpload_refused h,he]
    exact ⟨by cases s.calls.get call <;> rfl,by cases hc : s.calls.get call <;> simp [Transfer.Op.call,hc]⟩
  | putObjects call d objects =>
    obtain rfl := Option.some.inj ho
    simp only [Transfer.System.outcome,checkObjects_refused h]
    exact ⟨by cases s.calls.get call <;> rfl,by cases hc : s.calls.get call <;> simp [Transfer.Op.call,hc]⟩
  | receiveFrames call d bodies =>
    obtain rfl := Option.some.inj ho
    simp only [Transfer.System.outcome,h]
    exact ⟨by cases s.calls.get call <;> rfl,by cases hc : s.calls.get call <;> simp [Transfer.Op.call,hc]⟩
  | _ => cases ho

lemma publishChunk_refused (id : String) (index : ℕ) (digest : String) (bytes : Transfer.Bytes)
    (now : ℤ) : s.disk.db.publishChunk device id index digest bytes now =
      refusedBehind (lift (validateId id)) e := by
  unfold Transfer.Db.publishChunk
  simp only [uploadRow_refused h,refusedBehind_bind]

lemma startFinish_refused (id : String) (now : ℤ) :
    s.disk.db.startFinish device id now = refusedBehind (lift (validateId id)) e := by
  unfold Transfer.Db.startFinish
  simp only [uploadRow_refused h,refusedBehind_bind]

lemma publishUpload_refused (id digest : String) (size : ℕ) (bytes : Transfer.Bytes) (now : ℤ) :
    s.disk.db.publishUpload cr device id digest size bytes now =
      refusedBehind (lift (validateId id)) e := by
  unfold Transfer.Db.publishUpload
  simp only [uploadRow_refused h,refusedBehind_bind]

lemma storeObjects_refused (inline filed : List (String × Transfer.Bytes)) (now : ℤ) :
    s.disk.db.storeObjects cr device inline filed now = .error e := by
  unfold Transfer.Db.storeObjects
  rw [h]
  rfl

lemma resume_refused (op : Transfer.Op) {call : Transfer.Call} (hc : callDevice call = some device) :
    (written Transfer.Disk.apply s.disk (s.resume cr op call).writes).db = s.disk.db := by
  have hfiles : ∀ (d : Transfer.Disk) (files : List (String × Transfer.Bytes)),
      (written Transfer.Disk.apply d (files.map fun o => .publishObject o.1 o.2)).db = d.db := by
    intro d files
    induction files generalizing d with
    | nil => rfl
    | cons o files ih => exact ih _
  cases call with
  | chunk d id index digest bytes =>
    obtain rfl := Option.some.inj hc
    cases op with
    | storeChunk n =>
      obtain ⟨e',he⟩ := refusedBehind_eq_error (α := List Transfer.Write) (lift (validateId id)) e
      simp only [Transfer.System.resume,publishChunk_refused h,he]
      rfl
    | _ => rfl
  | starting caller d id =>
    obtain rfl := Option.some.inj hc
    cases op with
    | startFinish n =>
      obtain ⟨e',he⟩ := refusedBehind_eq_error (α := Transfer.Db.Started) (lift (validateId id)) e
      simp only [Transfer.System.resume,startFinish_refused h,he]
      cases caller <;> rfl
    | _ => rfl
  | finishing caller d id digest size progress =>
    obtain rfl := Option.some.inj hc
    cases op with
    | read n =>
      simp only [Transfer.System.resume]
      split <;> rfl
    | publish n =>
      cases progress with
      | assembled bytes =>
        obtain ⟨e',he⟩ := refusedBehind_eq_error (α := List Transfer.Write) (lift (validateId id)) e
        simp only [Transfer.System.resume,publishUpload_refused h,he]
        rfl
      | _ => rfl
    | _ => rfl
  | placing d objects todo found =>
    cases op with
    | place n =>
      cases todo with
      | nil => rfl
      | cons o todo =>
        simp only [Transfer.System.resume]
        split_ifs
        · split
          · rfl
          · split_ifs <;> rfl
        · rfl
    | _ => cases todo <;> rfl
  | sorting d todo found inline filed =>
    cases op with
    | sort n =>
      cases todo with
      | nil => rfl
      | cons o todo =>
        simp only [Transfer.System.resume]
        split_ifs <;> rfl
    | _ => cases todo <;> rfl
  | storing d inline filed =>
    obtain rfl := Option.some.inj hc
    cases op with
    | publishSome n digests => exact hfiles s.disk _
    | store n =>
      simp only [Transfer.System.resume,storeObjects_refused h]
      change (written Transfer.Disk.apply s.disk (_ ++ [])).db = _
      rw [List.append_nil]
      exact hfiles s.disk filed
    | _ => rfl
  | failing caller id error => exact nomatch hc
  | settling id outcome => exact nomatch hc

lemma carried_refused {op : Transfer.Op}
    (hc : (op.call.bind s.calls.get).bind callDevice = some device) :
    (written Transfer.Disk.apply s.disk (s.outcome cr op).writes).db = s.disk.db := by
  obtain ⟨call,hcall,hdevice⟩ := Option.bind_eq_some_iff.mp hc
  obtain ⟨id,hid,hget⟩ := Option.bind_eq_some_iff.mp hcall
  have hrun : (written Transfer.Disk.apply s.disk (s.resume cr op call).writes).db = s.disk.db :=
    resume_refused h op hdevice
  cases op with
  | sendChunk | submit | takeJob | putObjects | receiveFrames =>
    obtain rfl := Option.some.inj hid
    simp only [Transfer.System.outcome,hget]
    rfl
  | storeChunk | startFinish | read | fail | publish | rollBack | settle | place | sort
  | publishSome | store =>
    obtain rfl := Option.some.inj hid
    simp only [Transfer.System.outcome,hget]
    exact hrun
  | _ => cases hid

end

lemma transferAnswer_refused {op : Transfer.Op} {device : Device} (ho : opener op = some device)
    (e : Error) : ∃ checks : Answer Unit, ∀ s : Transfer.System,
      s.disk.db.requireDevice device = .error e →
        transferAnswer cr s op = refusedBehind checks e := by
  cases op with
  | beginUpload d manifest id =>
    obtain rfl := Option.some.inj ho
    exact ⟨_,fun s h => by simp only [transferAnswer,beginUpload_refused h,refusedBehind_map]; rfl⟩
  | attach d id bytes =>
    obtain rfl := Option.some.inj ho
    exact ⟨_,fun s h => by
      simp only [transferAnswer,attachUploadDelta_refused h,refusedBehind_map]
      rfl⟩
  | cancel d id stuck =>
    obtain rfl := Option.some.inj ho
    exact ⟨_,fun s h => by simp only [transferAnswer,cancelled_refused h,refusedBehind_map]; rfl⟩
  | pin d hashes =>
    obtain rfl := Option.some.inj ho
    exact ⟨_,fun s h => by simp only [transferAnswer,pinObjects_refused h,refusedBehind_map]; rfl⟩
  | sendChunk call d id index digest bytes =>
    obtain rfl := Option.some.inj ho
    exact ⟨_,fun s h => checkChunk_refused h id index digest bytes s.clock⟩
  | submit call d id =>
    obtain rfl := Option.some.inj ho
    exact ⟨_,fun s h => by simp only [transferAnswer,submitUpload_refused h,refusedBehind_map]; rfl⟩
  | putObjects call d objects =>
    obtain rfl := Option.some.inj ho
    exact ⟨.ok (),fun s h => checkObjects_refused h objects⟩
  | receiveFrames call d bodies =>
    obtain rfl := Option.some.inj ho
    exact ⟨.ok (),fun s h => h⟩
  | _ => cases ho

/-! ### The gate -/

/-- Nothing that the gate protects differs. -/
structure Untouched (g t : Gated) : Prop where
  units : t.library.units = g.library.units
  journal : t.library.journal = g.library.journal
  operations : t.library.operations = g.library.operations
  statePins : t.library.statePins = g.library.statePins
  objectCustody : t.library.objectCustody = g.library.objectCustody
  claims : t.claims = g.claims
  /-- The uploads, their chunks, recipes and jobs, and the leases. -/
  transfers : ∀ level, (t.session level).disk.db = (g.session level).disk.db

lemma Untouched.refl (g : Gated) : g.Untouched g := ⟨rfl,rfl,rfl,rfl,rfl,rfl,fun _ => rfl⟩

lemma runTransfer_untouched {level : ℕ} {op : Transfer.Op}
    (h : (written Transfer.Disk.apply (g.session level).disk
      ((g.session level).outcome cr op).writes).db = (g.session level).disk.db) :
    g.Untouched (g.runTransfer cr level (.perform op)) := by
  refine ⟨rfl,rfl,rfl,rfl,rfl,rfl,fun level' => ?_⟩
  change ({ (written Transfer.Disk.apply (g.session level).disk
    ((g.session level).outcome cr op).writes).db with
      formatLevel := level'
      devices := g.library.devices.convert fun _ row => row.revoked } : Transfer.Db) = _
  rw [h]
  rfl

/-- A request of a device that is not admitted. Its answer tells nothing but the refusal, and only
a push waits for the gate first. -/
theorem exec_refused {e : Event} {device : Device} (hd : e.device = some device) (level : ℕ)
    (error : Error) : ∃ reply : Reply, reply.refusal.isSome = true ∧
      ∀ g : Gated, g.library.storedFormat cr = .ok level →
        g.library.requireDevice cr device = .error error →
        ((g.exec cr e).1 = reply ∨ g.pushing = true ∧ ∃ call, e = .push call) ∧
          g.Untouched (g.exec cr e).2 := by
  have hsome : ∀ {α : Type} (checks : Answer Unit) (f : Answer α → Reply),
      (∀ e', (f (.error e')).refusal = some e') → (f (refusedBehind checks error)).refusal.isSome := by
    intro α checks f hf
    obtain ⟨e',he⟩ := refusedBehind_eq_error (α := α) checks error
    rw [he,hf]
    rfl
  -- a request that is done at once is answered with what its own checks say
  have hrequest : ∀ {α : Type} (checks : Answer Unit) (f : Answer α → Reply),
      (∀ e', (f (.error e')).refusal = some e') →
      (∀ g : Gated, g.library.storedFormat cr = .ok level →
        g.library.requireDevice cr device = .error error →
          g.exec cr e = (f (refusedBehind checks error),g)) →
      ∃ reply : Reply, reply.refusal.isSome = true ∧
        ∀ g : Gated, g.library.storedFormat cr = .ok level →
          g.library.requireDevice cr device = .error error →
          ((g.exec cr e).1 = reply ∨ g.pushing = true ∧ ∃ call, e = .push call) ∧
            g.Untouched (g.exec cr e).2 := by
    intro α checks f hf hexec
    refine ⟨f (refusedBehind checks error),hsome checks f hf,fun g hl h => ?_⟩
    rw [hexec g hl h]
    exact ⟨.inl rfl,.refl g⟩
  cases e with
  | push call =>
    obtain rfl := Option.some.inj hd
    let checks : Answer Unit := do
      lift (validateId call.request.operationId)
      let _ ← call.clock
      pure ()
    refine ⟨.pushed (refusedBehind checks error),hsome checks .pushed fun _ => rfl,fun g hl h => ?_⟩
    simp only [exec]
    split_ifs with hp
    · exact ⟨.inr ⟨hp,call,rfl⟩,.refl g⟩
    · rw [beginPush_refused h rfl]
      exact ⟨.inl rfl,.refl g⟩
  | ask query =>
    obtain rfl := Option.some.inj hd
    refine hrequest (α := Unit) (lift (validateId query.id)) .done (fun _ => rfl) fun g hl h => ?_
    simp only [exec,h]
    cases lift (validateId query.id) <;> rfl
  | cancelOperation d id bodyDigest clock created =>
    obtain rfl := Option.some.inj hd
    exact hrequest _ .receipt (fun _ => rfl) fun g hl h => by
      simp only [exec,cancelOperation_refused h]
      rfl
  | changes d after limit =>
    obtain rfl := Option.some.inj hd
    exact hrequest _ .page (fun _ => rfl) fun g hl h => by
      simp only [exec,changes_refused h]
      rfl
  | createStatePin d id now =>
    obtain rfl := Option.some.inj hd
    exact hrequest (α := ℕ) (.ok ()) .pinned (fun _ => rfl) fun g hl h => by
      simp only [exec,createStatePin_refused h]
      rfl
  | statePage d id after limit now =>
    obtain rfl := Option.some.inj hd
    exact hrequest _ .statePage (fun _ => rfl) fun g hl h => by
      simp only [exec,statePage_refused h]
      rfl
  | releaseStatePin d pin =>
    obtain rfl := Option.some.inj hd
    exact hrequest _ .done (fun _ => rfl) fun g hl h => by
      simp only [exec,releaseStatePin_refused h]
      rfl
  | acknowledge d seq now =>
    obtain rfl := Option.some.inj hd
    exact hrequest (α := Unit) (.ok ()) .done (fun _ => rfl) fun g hl h => by
      simp only [exec,acknowledge_refused h]
      rfl
  | retainObjects d epoch objects token =>
    obtain rfl := Option.some.inj hd
    refine hrequest (require (objects.length ≤ custodyPageSize) (.new "too-many-objects" 400))
      .retained (fun _ => rfl) fun g hl h => ?_
    simp only [exec,retainObjects_refused h]
    cases require (objects.length ≤ custodyPageSize) (Error.new "too-many-objects" 400) <;> rfl
  | retainedObjects d epoch after =>
    obtain rfl := Option.some.inj hd
    exact hrequest _ .retention (fun _ => rfl) fun g hl h => by
      simp only [exec,retainedObjects_refused h]
      rfl
  | releaseRetainedObjects d epoch objects =>
    obtain rfl := Option.some.inj hd
    refine hrequest (require (objects.length ≤ custodyPageSize) (.new "too-many-objects" 400))
      .done (fun _ => rfl) fun g hl h => ?_
    simp only [exec,releaseRetainedObjects_refused h]
    cases require (objects.length ≤ custodyPageSize) (Error.new "too-many-objects" 400) <;> rfl
  | bindDeviceWriter d writerId =>
    obtain rfl := Option.some.inj hd
    exact hrequest _ .done (fun _ => rfl) fun g hl h => by
      simp only [exec,bindDeviceWriter_refused h]
      rfl
  | newDeviceWriterClaim d =>
    obtain rfl := Option.some.inj hd
    exact hrequest (α := NewDeviceClaimState) (.ok ()) .claim (fun _ => rfl) fun g hl h => by
      simp only [exec,newDeviceWriterClaim_refused h]
      rfl
  | claimNewDeviceWriter d request former =>
    obtain rfl := Option.some.inj hd
    exact hrequest _ .claimed (fun _ => rfl) fun g hl h => by
      simp only [exec,claimNewDeviceWriter_refused h]
      rfl
  | transfer op =>
    obtain ⟨checks,hanswer⟩ : ∃ checks : Answer Unit, ∀ s : Transfer.System,
        s.disk.db.requireDevice device = .error error →
          transferAnswer cr s op = refusedBehind checks error := transferAnswer_refused hd error
    have hop : transfers? op = true := by
      cases op with
      | addDevice | revokeDevice | setFormat | maintain => cases hd
      | _ => rfl
    refine ⟨.done (refusedBehind checks error),hsome _ .done fun _ => rfl,fun g hl h => ?_⟩
    have hs := (requireDevice_session hl device).trans h
    simp only [exec,hl,if_pos hop]
    refine ⟨.inl (congrArg Reply.done (hanswer _ hs)),runTransfer_untouched ?_⟩
    rw [(outcome_refused hs hd).1]
    rfl
  | _ => cases hd

lemma exec_carried {e : Event} {device : Device} (hd : e.carriesOn g = some device) {level : ℕ}
    {error : Error} (hl : g.library.storedFormat cr = .ok level)
    (h : g.library.requireDevice cr device = .error error) : g.Untouched (g.exec cr e).2 := by
  cases e with
  | commitPush created =>
    obtain ⟨p,hp,rfl⟩ := Option.map_eq_some_iff.mp hd
    have hfinish : g.library.finishPush cr p created = (.error error,g.library) := by
      unfold Store.finishPush Store.admission
      rw [h]
      rfl
    simp only [exec,hp,hfinish]
    exact ⟨rfl,rfl,rfl,rfl,rfl,rfl,fun _ => rfl⟩
  | transfer op =>
    simp only [exec,hl]
    split_ifs
    · exact runTransfer_untouched (carried_refused ((requireDevice_session hl device).trans h) hd)
    · exact .refl g
  | _ => cases hd

lemma requireDevice_below {s : Store} {level : ℕ} {device : Device}
    (hl : s.storedFormat cr = .ok level) (h : 1 < level)
    (hd : ∀ declared ∈ device.formatLevel, declared < level) :
    ∃ error, s.requireDevice cr device = .error error := by
  unfold Store.requireDevice
  by_cases ha : s.active device.id = true
  · rw [require_eq_ok.mpr ha,hl]
    change ∃ error, admitFormat level device.formatLevel = .error error
    unfold admitFormat
    rw [if_neg (by omega)]
    cases hf : device.formatLevel with
    | none => exact ⟨_,rfl⟩
    | some declared =>
      dsimp only
      rw [if_pos (hd declared hf)]
      exact ⟨_,rfl⟩
  · exact ⟨_,by rw [require_eq_error.mpr ⟨ha,rfl⟩]; rfl⟩

lemma requireDevice_congr {s t : Store} {device : Device}
    (hl : t.storedFormat cr = s.storedFormat cr) (ha : t.active device.id = s.active device.id) :
    t.requireDevice cr device = s.requireDevice cr device := by
  unfold Store.requireDevice
  rw [hl,ha]

/-- The gate, in every state of a server and whatever it does next: the level is known and cached,
a library at the first level has no unit that needs the second, the level never goes back, and a
device below it is told nothing and changes nothing. -/
theorem format_gate (h : Reachable cr g) :
    ∃ level, g.library.storedFormat cr = .ok level ∧ 1 ≤ level ∧ level ≤ libraryFormatMaxLevel ∧
      (g.committed = none → g.cached = level) ∧
      (level = 1 → ∀ k unit, g.library.units.get k = some unit → needsLevelTwo unit = false) ∧
      ∀ t, Later cr g t →
        (∃ next, t.library.storedFormat cr = .ok next ∧ level ≤ next) ∧
        ∀ device : Device, 1 < level → (∀ declared ∈ device.formatLevel, declared < level) →
          ∀ e : Event,
            (e.device = some device →
              ((t.exec cr e).1.refusal.isSome = true ∨
                t.pushing = true ∧ (t.exec cr e).1 = .waiting) ∧
              (∀ u : Gated, u.library.storedFormat cr = t.library.storedFormat cr →
                u.library.active device.id = t.library.active device.id →
                u.pushing = t.pushing → (u.exec cr e).1 = (t.exec cr e).1) ∧
              t.Untouched (t.exec cr e).2) ∧
            (e.carriesOn t = some device → t.Untouched (t.exec cr e).2) := by
  obtain ⟨⟨level,hl,hone,hmax⟩,hplain⟩ := h.core.formatted
  have htold := h.told.level
  refine ⟨level,hl,hone,hmax,fun hc => ?_,fun h1 => hplain (h1 ▸ hl),fun t path => ?_⟩
  · rw [hc] at htold
    exact Except.ok.inj (htold.symm.trans hl)
  obtain ⟨⟨next,hn,-,-⟩,-⟩ := (h.later path).core.formatted
  have hle : level ≤ next := h.core.level_rises path.core hl hn
  refine ⟨⟨next,hn,hle⟩,fun device hlt hbelow e => ?_⟩
  obtain ⟨error,herror⟩ : ∃ error, t.library.requireDevice cr device = .error error :=
    requireDevice_below hn (by omega) fun declared hd => (hbelow declared hd).trans_le hle
  refine ⟨fun hd => ?_,fun hd => exec_carried hd hn herror⟩
  obtain ⟨reply,hrefusal,hreply⟩ := @exec_refused cr e device hd next error
  obtain ⟨htreply,huntouched⟩ := hreply t hn herror
  have hwait : ∀ (u : Gated) (call : PushCall), u.pushing = true →
      (u.exec cr (.push call)).1 = .waiting := by
    intro u call hp
    simp only [exec,if_pos hp]
  refine ⟨?_,fun u hul hua hup => ?_,huntouched⟩
  · rcases htreply with hr | ⟨hp,call,rfl⟩
    · exact .inl (hr ▸ hrefusal)
    · exact .inr ⟨hp,hwait t call hp⟩
  · have hu := (hreply u (hul.trans hn) ((requireDevice_congr hul hua).trans herror)).1
    rcases htreply with hr | ⟨hp,call,rfl⟩
    · rcases hu with hu | ⟨hp,call,rfl⟩
      · exact hu.trans hr.symm
      · exact (hwait u call hp).trans (hwait t call (hup ▸ hp)).symm
    · exact (hwait u call (hup.trans hp)).trans (hwait t call hp).symm

/-- The state after a list of events. -/
def run (cr : Crates) (g : Gated) (events : List Event) : Gated :=
  events.foldl (fun g e => (g.exec cr e).2) g

lemma Later.run {t : Gated} (h : Later cr g t) (events : List Event) :
    Later cr g (t.run cr events) := by
  induction events generalizing t with
  | nil => exact h
  | cons e events ih => exact ih (h.step e)

/-- A new library after a device raised its level. -/
def sampleGated : Gated :=
  (create levelCrates "library" "epoch").run levelCrates
    [.addDevice "device-a",.bindDeviceWriter sampleDevice sampleWriter,.push pushLevel,
      .commitPush 0,.releasePush]

theorem format_gate_sample :
    sampleGated.library.storedFormat levelCrates = .ok 2 ∧ sampleGated.cached = 2 ∧
      ∀ t, Later levelCrates sampleGated t → ∀ e : Event, e.device = some sampleDevice →
        t.Untouched (t.exec levelCrates e).2 := by
  have hr : Reachable levelCrates sampleGated := ⟨"library","epoch",Later.refl.run _⟩
  have two : sampleGated.library.storedFormat levelCrates = .ok 2 := by decide +kernel
  have idle : sampleGated.committed.isNone = true := by decide +kernel
  obtain ⟨level,hl,-,-,hcached,-,hlater⟩ := format_gate hr
  obtain rfl := Except.ok.inj (two.symm.trans hl)
  refine ⟨two,hcached (Option.isNone_iff_eq_none.mp idle),fun t path e hd => ?_⟩
  obtain ⟨-,hgate⟩ := hlater t path
  exact ((hgate sampleDevice (by decide) (fun _ h => nomatch h) e).1 hd).2.2

end Gated
end RisuNest.Server
