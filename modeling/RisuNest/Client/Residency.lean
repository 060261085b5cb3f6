import RisuNest.Server.Retention
import RisuNest.Wire.Head

/-! What a client knows of the objects the server keeps for it (`residency.rs`). -/
namespace RisuNest.Client
open Wire

structure SyncError where
  code : String
  status : ℕ
  deriving DecidableEq

/-- `From<WireError> for SyncError` -/
def SyncError.ofWire (e : WireError) : SyncError := ⟨e.code,400⟩

abbrev Synced := Except SyncError

def lift {α : Type} (r : Wire.Result α) : Synced α := r.mapError SyncError.ofWire

structure StoredConfig where
  endpoint : String
  libraryId : String
  deviceId : String
  credentialId : String
  deriving DecidableEq

inductive CustodyState
  | active
  | releasing
  | released
  deriving DecidableEq

structure ContextRow where
  libraryId : String
  deviceId : String
  epoch : String
  config : StoredConfig
  deriving DecidableEq

structure CustodyRow where
  size : ℕ
  retentionId : String
  state : CustodyState
  confirmationOrder : ℕ
  deriving DecidableEq

/-- A custody row together with the access to its server. -/
structure RemoteObject where
  context : String
  hash : String
  size : ℕ
  retentionId : String
  deviceId : String
  config : StoredConfig
  deriving DecidableEq

/-- The tables of `asset-residency.sqlite`. Custody rows are keyed by context and hash. -/
structure Residency where
  contexts : Table String ContextRow
  objects : Table (String × String) CustodyRow

namespace Residency

def empty : Residency := ⟨.empty,.empty⟩

/-- The context of a device of a library in an epoch. -/
def contextOf (cr : Crates) (libraryId deviceId epoch : String) : String :=
  hash cr (utf8 (libraryId ++ "\x00" ++ deviceId ++ "\x00" ++ epoch).toList)

def contextId (cr : Crates) (config : StoredConfig) (epoch : String) : String :=
  contextOf cr config.libraryId config.deviceId epoch

def i64Max : ℕ := 2^63-1

/-- One row of `confirm`. -/
def confirmObject (context : String) (order : ℕ) (objects : Table (String × String) CustodyRow)
    (object : Server.RetainedObject) : Synced (Table (String × String) CustodyRow) := do
  lift (validateHash object.hash)
  lift (validateHash object.retentionId)
  require (object.size ≤ i64Max) ⟨"invalid-retention-size",409⟩
  pure (objects.upsert (context,object.hash) ⟨object.size,object.retentionId,.active,order⟩)

/-- `SELECT COALESCE(MAX(confirmation_order),0)+1` -/
def nextOrder (r : Residency) : ℕ :=
  (r.objects.rows.map fun row => row.2.confirmationOrder).foldl max 0 + 1

def confirm (cr : Crates) (r : Residency) (config : StoredConfig) (head : RemoteHead)
    (objects : List Server.RetainedObject) : Synced Residency := do
  lift head.validate
  require (config.libraryId = head.libraryId) ⟨"retention-library-mismatch",409⟩
  let context := contextId cr config head.epoch
  let contexts := match r.contexts.get context with
    | none => r.contexts.upsert context ⟨config.libraryId,config.deviceId,head.epoch,config⟩
    | some row => r.contexts.upsert context { row with config := config }
  let rows ← objects.foldlM (confirmObject context r.nextOrder) r.objects
  pure ⟨contexts,rows⟩

def invalidResponse : SyncError := ⟨"invalid-retention-response",502⟩

/-- The checks `retain` makes on the response to a page. -/
def checkResponse (page : List (String × Option ℕ)) (retained : List Server.RetainedObject) :
    Synced Unit := do
  let expected : Table String (Option ℕ) := page.foldl (fun t p => t.upsert p.1 p.2) .empty
  require (expected.rows.length = page.length ∧ retained.length = page.length) invalidResponse
  let _ ← retained.foldlM (fun (expected : Table String (Option ℕ)) object =>
    match expected.get object.hash with
    | none => .error invalidResponse
    | some size => do
      require (∀ n ∈ size, object.size = n) invalidResponse
      pure (expected.erase object.hash)) expected

/-- Mark a row that is not released as releasing, if it carries the retention id. -/
def setReleasing (r : Residency) (context hash retentionId : String) : Residency × Bool :=
  match r.objects.get (context,hash) with
  | none => (r,false)
  | some row =>
    if row.retentionId = retentionId ∧ row.state ≠ .released then
      ({ r with objects := r.objects.upsert (context,hash) { row with state := .releasing } },true)
    else (r,false)

def beginRelease (r : Residency) (object : RemoteObject) : Residency × Bool :=
  r.setReleasing object.context object.hash object.retentionId

/-- The row `begin_latest_release` reads, joined with its context. -/
def latest (r : Residency) (digest context : String) : Option RemoteObject :=
  match r.objects.get (context,digest), r.contexts.get context with
  | some row, some c =>
    if row.state = .released then none
    else some ⟨context,digest,row.size,row.retentionId,c.deviceId,c.config⟩
  | _, _ => none

def beginLatestRelease (r : Residency) (digest context : String) :
    Residency × Synced (Option RemoteObject) :=
  match lift (validateHash digest) with
  | .error e => (r,.error e)
  | .ok () =>
    match r.latest digest context with
    | none => (r,.ok none)
    | some object =>
      let (next,updated) := r.setReleasing context digest object.retentionId
      (next,.ok (if updated then some object else none))

def finishRelease (r : Residency) (object : RemoteObject) : Residency :=
  match r.objects.get (object.context,object.hash) with
  | none => r
  | some row =>
    if row.retentionId = object.retentionId ∧ row.state = .releasing then
      { r with objects :=
        r.objects.upsert (object.context,object.hash) { row with state := .released } }
    else r

/-! ### What an operation changes -/

lemma rows_of_foldlM {context : String} {order : ℕ}
    {old rows : Table (String × String) CustodyRow} {objects : List Server.RetainedObject}
    (h : objects.foldlM (confirmObject context order) old = .ok rows)
    {k : String × String} {row : CustodyRow} (hk : rows.get k = some row) :
    old.get k = some row ∨
      k.1 = context ∧ ∃ o ∈ objects, o.hash = k.2 ∧ o.retentionId = row.retentionId := by
  induction objects generalizing old with
  | nil =>
    obtain rfl := Except.ok.inj h
    exact .inl hk
  | cons object objects ih =>
    obtain ⟨mid,hm,h⟩ := foldlM_cons_eq_ok.mp h
    unfold confirmObject at hm
    obtain ⟨-,-,hm⟩ := bind_eq_ok.mp hm
    obtain ⟨-,-,hm⟩ := bind_eq_ok.mp hm
    obtain ⟨-,-,hm⟩ := bind_eq_ok.mp hm
    obtain rfl := Except.ok.inj hm
    rcases ih h with hold | ⟨hc,o,ho,hh⟩
    · by_cases he : k = (context,object.hash)
      · subst k
        rw [Table.get_upsert,if_pos rfl] at hold
        obtain rfl := Option.some.inj hold
        exact .inr ⟨rfl,object,List.mem_cons_self,rfl,rfl⟩
      · rw [Table.get_upsert,if_neg he] at hold
        exact .inl hold
    · exact .inr ⟨hc,o,List.mem_cons_of_mem _ ho,hh⟩

lemma rows_of_confirm {cr : Crates} {r t : Residency} {config : StoredConfig} {head : RemoteHead}
    {objects : List Server.RetainedObject} (h : r.confirm cr config head objects = .ok t)
    {k : String × String} {row : CustodyRow} (hk : t.objects.get k = some row) :
    r.objects.get k = some row ∨ k.1 = contextId cr config head.epoch ∧
      ∃ o ∈ objects, o.hash = k.2 ∧ o.retentionId = row.retentionId := by
  unfold confirm at h
  obtain ⟨-,-,h⟩ := bind_eq_ok.mp h
  obtain ⟨-,-,h⟩ := bind_eq_ok.mp h
  obtain ⟨rows,hr,h⟩ := bind_eq_ok.mp h
  obtain rfl := Except.ok.inj h
  exact rows_of_foldlM hr hk

lemma get_of_foldlM {context : String} {order : ℕ}
    {old rows : Table (String × String) CustodyRow} {objects : List Server.RetainedObject}
    (h : objects.foldlM (confirmObject context order) old = .ok rows) (k : String × String) :
    rows.get k = old.get k ∧ (∀ o ∈ objects, (context,o.hash) ≠ k) ∨
      ∃ o ∈ objects, (context,o.hash) = k ∧
        rows.get k = some ⟨o.size,o.retentionId,.active,order⟩ := by
  induction objects generalizing old with
  | nil =>
    obtain rfl := Except.ok.inj h
    exact .inl ⟨rfl,fun _ ho => nomatch ho⟩
  | cons object objects ih =>
    obtain ⟨mid,hm,h⟩ := foldlM_cons_eq_ok.mp h
    unfold confirmObject at hm
    obtain ⟨-,-,hm⟩ := bind_eq_ok.mp hm
    obtain ⟨-,-,hm⟩ := bind_eq_ok.mp hm
    obtain ⟨-,-,hm⟩ := bind_eq_ok.mp hm
    obtain rfl := Except.ok.inj hm
    rcases ih h with ⟨hk,hn⟩ | ⟨o,ho,he,hr⟩
    · by_cases he : k = (context,object.hash)
      · refine .inr ⟨object,List.mem_cons_self,he.symm,?_⟩
        rw [hk,Table.get_upsert,if_pos he]
      · refine .inl ⟨by rw [hk,Table.get_upsert,if_neg he],?_⟩
        exact List.forall_mem_cons.mpr ⟨Ne.symm he,hn⟩
    · exact .inr ⟨o,List.mem_cons_of_mem _ ho,he,hr⟩

lemma confirm_eq_ok {cr : Crates} {r t : Residency} {config : StoredConfig} {head : RemoteHead}
    {objects : List Server.RetainedObject} (h : r.confirm cr config head objects = .ok t) :
    (∀ c, c = contextId cr config head.epoch ∨ r.contexts.contains c = true →
      t.contexts.contains c = true) ∧
      ∀ k, t.objects.get k = r.objects.get k ∧
          (∀ o ∈ objects, (contextId cr config head.epoch,o.hash) ≠ k) ∨
        ∃ o ∈ objects, (contextId cr config head.epoch,o.hash) = k ∧
          t.objects.get k = some ⟨o.size,o.retentionId,.active,r.nextOrder⟩ := by
  unfold confirm at h
  obtain ⟨-,-,h⟩ := bind_eq_ok.mp h
  obtain ⟨-,-,h⟩ := bind_eq_ok.mp h
  obtain ⟨rows,hr,h⟩ := bind_eq_ok.mp h
  obtain rfl := Except.ok.inj h
  refine ⟨fun c hc => ?_,get_of_foldlM hr⟩
  dsimp only
  split <;> next =>
    rw [Table.contains_iff]
    by_cases he : c = contextId cr config head.epoch
    · exact ⟨_,by rw [Table.get_upsert,if_pos he]⟩
    · obtain ⟨row,hrow⟩ := Table.contains_iff.mp (hc.resolve_left he)
      exact ⟨row,by rw [Table.get_upsert,if_neg he,hrow]⟩

lemma setReleasing_spec {r t : Residency} {context hash retentionId : String} {updated : Bool}
    (h : r.setReleasing context hash retentionId = (t,updated)) :
    (updated = false ∧ t = r) ∨ updated = true ∧
      ∃ row, r.objects.get (context,hash) = some row ∧ row.retentionId = retentionId ∧
        t = { r with objects :=
          r.objects.upsert (context,hash) { row with state := .releasing } } := by
  unfold setReleasing at h
  split at h
  · obtain ⟨rfl,rfl⟩ := Prod.mk.inj h
    exact .inl ⟨rfl,rfl⟩
  · next row hrow =>
    split at h
    · next hg =>
      obtain ⟨rfl,rfl⟩ := Prod.mk.inj h
      exact .inr ⟨rfl,row,hrow,hg.1,rfl⟩
    · obtain ⟨rfl,rfl⟩ := Prod.mk.inj h
      exact .inl ⟨rfl,rfl⟩

lemma beginLatestRelease_spec {r t : Residency} {digest context : String}
    {answer : Synced (Option RemoteObject)}
    (h : r.beginLatestRelease digest context = (t,answer)) :
    (t = r ∧ ∀ object, answer ≠ .ok (some object)) ∨
      ∃ object row, answer = .ok (some object) ∧
        r.objects.get (object.context,object.hash) = some row ∧
        row.retentionId = object.retentionId ∧
        t = { r with objects :=
          r.objects.upsert (object.context,object.hash) { row with state := .releasing } } := by
  unfold beginLatestRelease at h
  split at h
  · obtain ⟨rfl,rfl⟩ := Prod.mk.inj h
    exact .inl ⟨rfl,fun _ he => by cases he⟩
  · split at h
    · obtain ⟨rfl,rfl⟩ := Prod.mk.inj h
      exact .inl ⟨rfl,fun _ he => by cases he⟩
    · next object ho =>
      have hobj : object.context = context ∧ object.hash = digest := by
        unfold latest at ho
        split at ho
        · split at ho
          · contradiction
          · obtain rfl := Option.some.inj ho
            exact ⟨rfl,rfl⟩
        · contradiction
      obtain ⟨rfl,rfl⟩ := hobj
      cases hr : r.setReleasing object.context object.hash object.retentionId with
      | mk next updated =>
        rw [hr] at h
        obtain ⟨rfl,rfl⟩ := Prod.mk.inj h
        rcases setReleasing_spec hr with ⟨rfl,rfl⟩ | ⟨rfl,row,hrow,hid,hres⟩
        · exact .inl ⟨rfl,fun _ he => by cases he⟩
        · exact .inr ⟨object,row,rfl,hrow,hid,hres⟩

lemma object_of_beginLatestRelease {r t : Residency} {digest context : String}
    {object : RemoteObject} (h : r.beginLatestRelease digest context = (t,.ok (some object))) :
    object.context = context ∧ object.hash = digest := by
  unfold beginLatestRelease at h
  split at h
  · exact nomatch (Prod.mk.inj h).2
  · split at h
    · exact nomatch (Prod.mk.inj h).2
    · next latest hl =>
      have hobj : latest = object := by
        have hif := Except.ok.inj (Prod.mk.inj h).2
        split_ifs at hif
        exact Option.some.inj hif
      subst hobj
      unfold Residency.latest at hl
      split at hl
      · split at hl
        · contradiction
        · obtain rfl := Option.some.inj hl
          exact ⟨rfl,rfl⟩
      · contradiction

end Residency
end RisuNest.Client
