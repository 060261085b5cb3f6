import RisuNest.Server.Collection

/-! Custody of objects, which a device holds until it releases it (`retention.rs`). -/
namespace RisuNest.Server
open Wire

structure RetainedObject where
  hash : String
  size : ℕ
  retentionId : String
  deriving DecidableEq

structure ObjectIdentity where
  hash : String
  size : Option ℕ
  deriving DecidableEq

structure RetentionRelease where
  deviceId : String
  hash : String
  retentionId : String
  deriving DecidableEq

def custodyPageSize : ℕ := 1024

namespace Store
variable (cr : Crates)

/-- One object of `retain_objects`. `token` is what `secret_token` draws for it. -/
def retainObject (device : Device) (token : String → String)
    (acc : Store × List RetainedObject) (object : ObjectIdentity) :
    Answer (Store × List RetainedObject) := do
  lift (validateHash object.hash)
  require (object.hash ∉ acc.2.map RetainedObject.hash) (.new "duplicate-object" 400)
  match acc.1.objects.get object.hash with
  | none => .error (.new "object-not-found" 404)
  | some body =>
    require (∀ expected ∈ object.size, expected = body.length) (.new "object-size-mismatch" 409)
    pure ({ acc.1 with objectCustody :=
        acc.1.objectCustody.upsert (device.id,object.hash) (token object.hash) },
      acc.2 ++ [⟨object.hash,body.length,token object.hash⟩])

/-- `retain_objects`. The body of an object is there when its row is. -/
def retainObjects (s : Store) (device : Device) (epoch : String) (objects : List ObjectIdentity)
    (token : String → String) : Answer (Store × List RetainedObject) := do
  require (objects.length ≤ custodyPageSize) (.new "too-many-objects" 400)
  s.requireDevice cr device
  require (s.head.epoch = epoch) (.new "epoch-mismatch" 409)
  objects.foldlM (retainObject device token) (s,[])

/-- One object of `release_retained_objects`. -/
def releaseRetainedObject (device : Device) (s : Store) (object : RetentionRelease) :
    Answer Store := do
  lift (validateHash object.hash)
  lift (validateHash object.retentionId)
  require (object.deviceId = device.id ∨ s.active object.deviceId = false)
    (.new "retention-device-active" 409)
  pure { s with
    objectCustody := s.objectCustody.deleteWhere fun k retentionId =>
      decide (k = (object.deviceId,object.hash) ∧ retentionId = object.retentionId) }

def releaseRetainedObjects (s : Store) (device : Device) (epoch : String)
    (objects : List RetentionRelease) : Answer Store := do
  require (objects.length ≤ custodyPageSize) (.new "too-many-objects" 400)
  s.requireDevice cr device
  require (s.head.epoch = epoch) (.new "epoch-mismatch" 409)
  objects.foldlM (releaseRetainedObject device) s

/-! ### What a request changes -/

/-- Everything but custody is left alone. -/
structure OnlyCustody (s t : Store) : Prop where
  head : t.head = s.head
  objects : t.objects = s.objects

lemma OnlyCustody.refl (s : Store) : OnlyCustody s s := ⟨rfl,rfl⟩

lemma retainObject_eq_ok {device : Device} {token : String → String}
    {acc next : Store × List RetainedObject} {object : ObjectIdentity}
    (h : retainObject device token acc object = .ok next) :
    ∃ body, acc.1.objects.get object.hash = some body ∧
      next = ({ acc.1 with objectCustody :=
          acc.1.objectCustody.upsert (device.id,object.hash) (token object.hash) },
        acc.2 ++ [⟨object.hash,body.length,token object.hash⟩]) := by
  unfold retainObject at h
  obtain ⟨-,-,h⟩ := bind_eq_ok.mp h
  obtain ⟨-,-,h⟩ := bind_eq_ok.mp h
  split at h
  · contradiction
  · next body hb =>
    obtain ⟨-,-,h⟩ := bind_eq_ok.mp h
    exact ⟨body,hb,(Except.ok.inj h).symm⟩

/-- What the rounds of `retain_objects` establish: the rows of the objects retained so far carry
their new ids, and the others are as before. -/
structure Retained (device : Device) (token : String → String) (s : Store)
    (objects : List ObjectIdentity) (acc : Store × List RetainedObject) : Prop where
  only : OnlyCustody s acc.1
  granted : ∀ o ∈ acc.2, o.retentionId = token o.hash ∧
    acc.1.objectCustody.get (device.id,o.hash) = some (token o.hash) ∧
    s.objects.contains o.hash = true ∧ o.hash ∈ objects.map ObjectIdentity.hash
  others : ∀ k, acc.1.objectCustody.get k = s.objectCustody.get k ∨
    ∃ o ∈ acc.2, k = (device.id,o.hash)

lemma Retained.round {device : Device} {token : String → String} {s : Store}
    {objects : List ObjectIdentity} {acc next : Store × List RetainedObject}
    {object : ObjectIdentity} (h : Retained device token s objects acc) (ho : object ∈ objects)
    (hr : retainObject device token acc object = .ok next) :
    Retained device token s objects next := by
  obtain ⟨body,hb,rfl⟩ := retainObject_eq_ok hr
  have hobj : s.objects.contains object.hash = true := by
    rw [← h.only.objects]
    exact Table.contains_iff.mpr ⟨body,hb⟩
  refine ⟨⟨h.only.head,h.only.objects⟩,?_,?_⟩
  · intro o hm
    rcases List.mem_append.mp hm with hm | hm
    · obtain ⟨h1,h2,h3⟩ := h.granted o hm
      refine ⟨h1,?_,h3⟩
      by_cases he : o.hash = object.hash
      · simp [he]
      · simpa [he] using h2
    · obtain rfl := List.mem_singleton.mp hm
      exact ⟨rfl,by simp,hobj,List.mem_map_of_mem ho⟩
  · intro k
    by_cases hk : k = (device.id,object.hash)
    · exact .inr ⟨_,List.mem_append_right _ (List.mem_singleton_self _),hk⟩
    · rcases h.others k with hold | ⟨o,hm,hk'⟩
      · exact .inl (by simpa [hk] using hold)
      · exact .inr ⟨o,List.mem_append_left _ hm,hk'⟩

lemma retained_of_foldlM {device : Device} {token : String → String} {s : Store}
    {objects rest : List ObjectIdentity} {acc next : Store × List RetainedObject}
    (h : Retained device token s objects acc) (hs : rest ⊆ objects)
    (hr : rest.foldlM (retainObject device token) acc = .ok next) :
    Retained device token s objects next := by
  induction rest generalizing acc with
  | nil =>
    obtain rfl := Except.ok.inj hr
    exact h
  | cons object rest ih =>
    obtain ⟨mid,hm,hr⟩ := foldlM_cons_eq_ok.mp hr
    obtain ⟨ho,hs⟩ := List.cons_subset.mp hs
    exact ih (h.round ho hm) hs hr

theorem retainObjects_retained {s : Store} {device : Device} {epoch : String}
    {objects : List ObjectIdentity} {token : String → String}
    {next : Store × List RetainedObject}
    (h : s.retainObjects cr device epoch objects token = .ok next) :
    s.head.epoch = epoch ∧ Retained device token s objects next := by
  unfold retainObjects at h
  obtain ⟨-,-,h⟩ := bind_eq_ok.mp h
  obtain ⟨-,-,h⟩ := bind_eq_ok.mp h
  obtain ⟨_,he,h⟩ := bind_eq_ok.mp h
  refine ⟨require_eq_ok.mp he,retained_of_foldlM ⟨.refl s,?_,fun k => .inl rfl⟩
    (List.Subset.refl _) h⟩
  intro o ho
  cases ho

lemma releaseRetainedObject_eq_ok {device : Device} {s t : Store} {object : RetentionRelease}
    (h : releaseRetainedObject device s object = .ok t) :
    t = { s with
      objectCustody := s.objectCustody.deleteWhere fun k retentionId =>
        decide (k = (object.deviceId,object.hash) ∧ retentionId = object.retentionId) } := by
  unfold releaseRetainedObject at h
  obtain ⟨-,-,h⟩ := bind_eq_ok.mp h
  obtain ⟨-,-,h⟩ := bind_eq_ok.mp h
  obtain ⟨-,-,h⟩ := bind_eq_ok.mp h
  exact (Except.ok.inj h).symm

/-- A release removes exactly the rows it names with their current ids. -/
structure LetGo (objects : List RetentionRelease) (s t : Store) : Prop where
  only : OnlyCustody s t
  custody : ∀ k retentionId, t.objectCustody.get k = some retentionId ↔
    s.objectCustody.get k = some retentionId ∧ ⟨k.1,k.2,retentionId⟩ ∉ objects

lemma letGo_of_foldlM {device : Device} {s t : Store} {objects : List RetentionRelease}
    (h : objects.foldlM (releaseRetainedObject device) s = .ok t) : LetGo objects s t := by
  induction objects generalizing s with
  | nil =>
    obtain rfl := Except.ok.inj h
    exact ⟨.refl s,by simp⟩
  | cons object objects ih =>
    obtain ⟨mid,hm,h⟩ := foldlM_cons_eq_ok.mp h
    have hl := ih h
    obtain rfl := releaseRetainedObject_eq_ok hm
    refine ⟨⟨hl.only.head,hl.only.objects⟩,?_⟩
    rintro ⟨dev,digest⟩ retentionId
    rw [hl.custody,Table.get_deleteWhere_eq_some,List.mem_cons,not_or]
    have hobj : (⟨dev,digest,retentionId⟩ : RetentionRelease) = object ↔
        (dev,digest) = (object.deviceId,object.hash) ∧ retentionId = object.retentionId := by
      cases object
      simp [and_assoc]
    rw [decide_eq_false_iff_not,← hobj]
    tauto

theorem releaseRetainedObjects_letGo {s t : Store} {device : Device} {epoch : String}
    {objects : List RetentionRelease}
    (h : s.releaseRetainedObjects cr device epoch objects = .ok t) : LetGo objects s t := by
  unfold releaseRetainedObjects at h
  obtain ⟨-,-,h⟩ := bind_eq_ok.mp h
  obtain ⟨-,-,h⟩ := bind_eq_ok.mp h
  obtain ⟨-,-,h⟩ := bind_eq_ok.mp h
  exact letGo_of_foldlM h

/-- A maintenance pass leaves custody alone and keeps the objects in custody. -/
theorem maintainAt_custody (s : Store) (current clock : ℤ) :
    (s.maintainAt cr current clock).2.objectCustody = s.objectCustody ∧
      (s.maintainAt cr current clock).2.head.epoch = s.head.epoch ∧
      (s.maintainAt cr current clock).2.head.libraryId = s.head.libraryId ∧
      ∀ device digest retentionId, s.objectCustody.get (device,digest) = some retentionId →
        s.objects.contains digest = true →
        (s.maintainAt cr current clock).2.objects.contains digest = true := by
  unfold maintainAt
  dsimp only
  split
  · exact ⟨rfl,rfl,rfl,fun _ _ _ _ ho => ho⟩
  · next roots hr =>
    refine ⟨rfl,rfl,rfl,?_⟩
    intro device digest retentionId hc ho
    have hroot : digest ∈ roots := rooted_subset hr (.custody hc)
    obtain ⟨body,hb⟩ := Table.contains_iff.mp ho
    refine Table.contains_iff.mpr ⟨body,Table.get_deleteWhere_eq_some.mpr ⟨hb,?_⟩⟩
    simpa using Closure.root_mem_closure hroot

end Store
end RisuNest.Server
