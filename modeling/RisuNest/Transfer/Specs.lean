import RisuNest.Transfer.Store

/-! What each transaction on the transfer tables does when it is not refused. -/
namespace RisuNest.Transfer
open Wire Server

namespace Db
variable {cr : Crates} {db db' : Db} {device : Device} {id : String} {now : ℤ}

theorem uploadRow_eq_ok {upload : Upload} (h : db.uploadRow device id now = .ok upload) :
    validateId id = .ok () ∧ db.requireDevice device = .ok () ∧ db.uploads.get id = some upload ∧
      upload.device = device.id ∧ now < upload.expires := by
  obtain ⟨_, hid, h⟩ := bind_eq_ok.mp h
  obtain ⟨_, hdevice, h⟩ := bind_eq_ok.mp h
  cases hu : db.uploads.get id with
  | none =>
    rw [hu] at h
    cases h
  | some row =>
    rw [hu] at h
    obtain ⟨_, hown, h⟩ := bind_eq_ok.mp h
    obtain ⟨_, hnow, h⟩ := bind_eq_ok.mp h
    obtain rfl := Except.ok.inj h
    exact ⟨lift_eq_ok.mp hid,hdevice,rfl,require_eq_ok.mp hown,require_eq_ok.mp hnow⟩

theorem uploadRow_of_get {upload : Upload} (hid : validateId id = .ok ())
    (hd : db.requireDevice device = .ok ()) (hu : db.uploads.get id = some upload)
    (hown : upload.device = device.id) (hnow : now < upload.expires) :
    db.uploadRow device id now = .ok upload := by
  refine bind_eq_ok.mpr ⟨(),lift_eq_ok.mpr hid,bind_eq_ok.mpr ⟨(),hd,?_⟩⟩
  rw [hu]
  exact bind_eq_ok.mpr ⟨(),require_eq_ok.mpr hown,bind_eq_ok.mpr ⟨(),require_eq_ok.mpr hnow,rfl⟩⟩

/-! ### What is refused -/

lemma status_of_lift {α : Type} {r : Wire.Result α} {e : Error} (h : lift r = .error e) :
    e.status < 500 := by
  cases r with
  | ok a => cases h
  | error w =>
    obtain rfl := Except.error.inj h
    unfold Error.ofWire
    split_ifs <;> simp [Error.new]

lemma status_of_requireDevice {e : Error} (h : db.requireDevice device = .error e) :
    e.status < 500 := by
  rcases bind_eq_error.mp h with h | ⟨_, -, h⟩
  · obtain ⟨-, rfl⟩ := require_eq_error.mp h
    decide
  · unfold admitFormat at h
    split_ifs at h
    split at h
    · obtain rfl := Except.error.inj h
      decide
    · split_ifs at h
      obtain rfl := Except.error.inj h
      decide

/-- An upload that is not found is not found for good. -/
theorem status_of_uploadRow {e : Error} (h : db.uploadRow device id now = .error e) :
    e.status < 500 := by
  rcases bind_eq_error.mp h with h | ⟨_, -, h⟩
  · exact status_of_lift h
  rcases bind_eq_error.mp h with h | ⟨_, -, h⟩
  · exact status_of_requireDevice h
  cases hu : db.uploads.get id with
  | none =>
    rw [hu] at h
    obtain rfl := Except.error.inj h
    decide
  | some row =>
    rw [hu] at h
    rcases bind_eq_error.mp h with h | ⟨_, -, h⟩
    · obtain ⟨-, rfl⟩ := require_eq_error.mp h
      decide
    rcases bind_eq_error.mp h with h | ⟨_, -, h⟩
    · obtain ⟨-, rfl⟩ := require_eq_error.mp h
      decide
    · cases h

/-- What keeps `finish_upload` from starting. -/
theorem startFinish_eq_error {e : Error} (h : db.startFinish device id now = .error e) :
    db.uploadRow device id now = .error e ∨ e.status < 500 ∧
      ∃ upload, db.uploadRow device id now = .ok upload ∧
        ((upload.state = .finalizing ∨ upload.state = .failed) ∨
        db.uploadDeltas.contains id = false ∧
          db.chunkCount id ≠ divCeil upload.size uploadChunkBytes) := by
  rcases bind_eq_error.mp h with h | ⟨upload, hrow, h⟩
  · exact .inl h
  refine .inr ?_
  split_ifs at h with hc
  · cases h
  rcases bind_eq_error.mp h with h | ⟨_, -, h⟩
  · obtain ⟨hstate, rfl⟩ := require_eq_error.mp h
    refine ⟨by decide,upload,hrow,.inl ?_⟩
    cases hs : upload.state <;> simp [hs] at hstate hc ⊢
  rcases bind_eq_error.mp h with h | ⟨_, -, h⟩
  · obtain ⟨hwhole, rfl⟩ := require_eq_error.mp h
    push Not at hwhole
    exact ⟨by decide,upload,hrow,.inr ⟨Bool.not_eq_true _ ▸ hwhole.1,hwhole.2⟩⟩
  · cases h

theorem status_of_startFinish {e : Error} (h : db.startFinish device id now = .error e) :
    e.status < 500 := by
  rcases startFinish_eq_error h with h | h
  · exact status_of_uploadRow h
  · exact h.1

theorem beginUpload_eq_ok {manifest : Manifest}
    (h : db.beginUpload device manifest id now = .ok db') : db.uploads.get id = none ∧
      db.devices.get device.id = some false ∧
      db' = { db with
        uploads := db.uploads.insertOrIgnore id
          ⟨device.id,manifest.hash,manifest.size,now + 86400,.opened⟩ } := by
  obtain ⟨_, -, h⟩ := bind_eq_ok.mp h
  obtain ⟨_, -, h⟩ := bind_eq_ok.mp h
  obtain ⟨_, hdevice, h⟩ := bind_eq_ok.mp h
  obtain ⟨_, -, h⟩ := bind_eq_ok.mp h
  obtain ⟨_, hnone, h⟩ := bind_eq_ok.mp h
  obtain ⟨_, hactive, -⟩ := bind_eq_ok.mp hdevice
  exact ⟨require_eq_ok.mp hnone,require_eq_ok.mp hactive,(Except.ok.inj h).symm⟩

lemma validateHash_of_begin {manifest : Manifest}
    (h : db.beginUpload device manifest id now = .ok db') : validateHash manifest.hash = .ok () := by
  obtain ⟨_, hhash, -⟩ := bind_eq_ok.mp h
  exact lift_eq_ok.mp hhash

theorem checkChunk_eq_ok {index : ℕ} {digest : String} {bytes : Bytes}
    (h : db.checkChunk cr device id index digest bytes now = .ok ()) : hash cr bytes = digest ∧
      ∃ upload, db.uploads.get id = some upload ∧ index*uploadChunkBytes < upload.size := by
  obtain ⟨_, -, h⟩ := bind_eq_ok.mp h
  obtain ⟨upload, hrow, h⟩ := bind_eq_ok.mp h
  obtain ⟨_, -, h⟩ := bind_eq_ok.mp h
  obtain ⟨_, hindex, h⟩ := bind_eq_ok.mp h
  exact ⟨(require_eq_ok.mp h).2,upload,(uploadRow_eq_ok hrow).2.2.1,require_eq_ok.mp hindex⟩

/-- A chunk that is acknowledged was there already, or is published and recorded now. -/
theorem publishChunk_eq_ok {index : ℕ} {digest : String} {bytes : Bytes} {writes : List Write}
    (h : db.publishChunk device id index digest bytes now = .ok writes) :
    ∃ upload, db.uploads.get id = some upload ∧ upload.state = .opened ∧
      ((∃ prior, db.uploadChunks.get (id,index) = some prior ∧ prior.hash = digest ∧ writes = []) ∨
      (db.uploadChunks.get (id,index) = none ∧ writes = [.publishChunk id index bytes,
        .commit { db with
          uploadChunks := db.uploadChunks.insertOrIgnore (id,index) ⟨digest,bytes.length⟩ }])) := by
  obtain ⟨upload, hrow, h⟩ := bind_eq_ok.mp h
  obtain ⟨_, hopened, h⟩ := bind_eq_ok.mp h
  refine ⟨upload,(uploadRow_eq_ok hrow).2.2.1,require_eq_ok.mp hopened,?_⟩
  cases hprior : db.uploadChunks.get (id,index) with
  | some prior =>
    rw [hprior] at h
    obtain ⟨_, hsame, h⟩ := bind_eq_ok.mp h
    exact .inl ⟨prior,rfl,require_eq_ok.mp hsame,(Except.ok.inj h).symm⟩
  | none =>
    rw [hprior] at h
    exact .inr ⟨rfl,(Except.ok.inj h).symm⟩

theorem startFinish_eq_complete {digest : String}
    (h : db.startFinish device id now = .ok (.complete digest)) :
    ∃ upload, db.uploadRow device id now = .ok upload ∧ upload.state = .complete := by
  obtain ⟨upload, hrow, h⟩ := bind_eq_ok.mp h
  split_ifs at h with hc
  · exact ⟨upload,hrow,hc⟩
  · obtain ⟨_, -, h⟩ := bind_eq_ok.mp h
    obtain ⟨_, -, h⟩ := bind_eq_ok.mp h
    cases h

theorem startFinish_eq_finalizing {digest : String} {size : ℕ}
    (h : db.startFinish device id now = .ok (.finalizing digest size db')) :
    ∃ upload, db.uploadRow device id now = .ok upload ∧ upload.hash = digest ∧ upload.size = size ∧
      (upload.state = .opened ∨ upload.state = .queued) ∧
      (db.uploadDeltas.contains id = true ∨
        db.chunkCount id = divCeil upload.size uploadChunkBytes) ∧
      db' = db.setState id .finalizing := by
  obtain ⟨upload, hrow, h⟩ := bind_eq_ok.mp h
  split_ifs at h with hc
  · cases h
  · obtain ⟨_, hstate, h⟩ := bind_eq_ok.mp h
    obtain ⟨_, hwhole, h⟩ := bind_eq_ok.mp h
    obtain ⟨rfl, rfl, rfl⟩ := Started.finalizing.inj (Except.ok.inj h)
    exact ⟨upload,hrow,rfl,rfl,require_eq_ok.mp hstate,require_eq_ok.mp hwhole,rfl⟩

theorem placement_eq_ok {digest : String} {placed : Option ObjectRow}
    (h : db.placement digest = .ok placed) : placed = db.objects.get digest := by
  obtain ⟨_, -, h⟩ := bind_eq_ok.mp h
  exact (Except.ok.inj h).symm

/-! ### Bodies in the database -/

/-- A batch adds bodies under their own hashes and changes none. -/
theorem insertBatch_eq_ok {l : List (String × Bytes)} (h : db.insertBatch cr l = .ok db') :
    ∃ small, db' = { db with smallObjects := small } ∧
      (∀ digest body, db.smallObjects.get digest = some body → small.get digest = some body) ∧
      (∀ digest body, small.get digest = some body →
        db.smallObjects.get digest = some body ∨ hash cr body = digest) ∧
      ∀ o ∈ l, small.get o.1 = some o.2 := by
  induction l generalizing db with
  | nil =>
    obtain rfl := Except.ok.inj h
    exact ⟨db.smallObjects,rfl,fun _ _ h => h,fun _ _ h => .inl h,List.forall_mem_nil _⟩
  | cons o l ih =>
    obtain ⟨digest, bytes⟩ := o
    obtain ⟨_, hown, h⟩ := bind_eq_ok.mp h
    have hown := (require_eq_ok.mp hown).2
    cases hstored : db.smallObjects.get digest with
    | some stored =>
      rw [hstored] at h
      obtain ⟨_, hsame, hrest⟩ := bind_eq_ok.mp h
      obtain rfl := require_eq_ok.mp hsame
      obtain ⟨small, rfl, hkeep, hnew, hall⟩ := ih hrest
      exact ⟨small,rfl,hkeep,hnew,List.forall_mem_cons.mpr ⟨hkeep digest stored hstored,hall⟩⟩
    | none =>
      rw [hstored] at h
      obtain ⟨small, rfl, hkeep, hnew, hall⟩ := ih h
      have hget := Table.get_insertOrIgnore db.smallObjects digest bytes
      have hnone : ∀ k b, db.smallObjects.get k = some b → (db.smallObjects.insertOrIgnore digest
          bytes).get k = some b := fun k b hk => Table.get_insertOrIgnore_of_get hk
      refine ⟨small,rfl,fun k b hk => hkeep k b (hnone k b hk),fun k b hk => ?_,
        List.forall_mem_cons.mpr ⟨hkeep digest bytes ?_,hall⟩⟩
      · rcases hnew k b hk with hold | hold
        · change (db.smallObjects.insertOrIgnore digest bytes).get k = some b at hold
          rw [hget] at hold
          split_ifs at hold with hk'
          · rw [hstored] at hold
            obtain rfl := Option.some.inj hold
            exact .inr (hown.trans hk'.symm)
          · exact .inl hold
        · exact .inr hold
      · change (db.smallObjects.insertOrIgnore digest bytes).get digest = some bytes
        rw [hget, if_pos rfl, hstored, Option.getD_none]

/-- A lease that was there is still there, unless it was renewed. -/
def Renewed (now : ℤ) (leases leases' : Table (String × String) ℤ) : Prop :=
  ∀ k t, leases.get k = some t → leases'.get k = some t ∨ leases'.get k = some (now + 86400)

lemma Renewed.refl (now : ℤ) (leases : Table (String × String) ℤ) : Renewed now leases leases :=
  fun _ _ h => .inl h

lemma Renewed.trans {leases leases' leases'' : Table (String × String) ℤ}
    (h : Renewed now leases leases') (h' : Renewed now leases' leases'') :
    Renewed now leases leases'' := by
  intro k t hk
  rcases h k t hk with hk | hk
  · exact h' k t hk
  · rcases h' k _ hk with hk | hk <;> exact .inr hk

lemma renewed_leaseObject (db : Db) (device : Device) (digest : String) (now : ℤ) :
    Renewed now db.objectLeases (db.leaseObject device digest now).objectLeases := by
  intro k t hk
  change (db.objectLeases.upsert (device.id,digest) (now + 86400)).get k = _ ∨
    (db.objectLeases.upsert (device.id,digest) (now + 86400)).get k = _
  rw [Table.get_upsert]
  split_ifs
  · exact .inr rfl
  · exact .inl hk

lemma leaseObjects_frame (db : Db) (device : Device) (l : List (String × Bytes)) (now : ℤ) :
    ∃ leases, db.leaseObjects device l now = { db with objectLeases := leases } ∧
      Renewed now db.objectLeases leases := by
  unfold leaseObjects
  induction l generalizing db with
  | nil => exact ⟨db.objectLeases,rfl,.refl _ _⟩
  | cons o l ih =>
    obtain ⟨leases, hdb, hleases⟩ := ih (db.leaseObject device o.1 now)
    exact ⟨leases,hdb,(renewed_leaseObject db device o.1 now).trans hleases⟩

lemma get_insertObjects {storage : Storage} {l : List (String × Bytes)} {digest : String}
    {row : ObjectRow} (h : (db.insertObjects storage l).objects.get digest = some row) :
    db.objects.get digest = some row ∨
      ∃ bytes, (digest,bytes) ∈ l ∧ row = ⟨bytes.length,storage⟩ := by
  unfold insertObjects at h
  change (l.foldl _ db.objects).get digest = some row at h
  generalize db.objects = t at h ⊢
  induction l generalizing t with
  | nil => exact .inl h
  | cons o l ih =>
    rw [List.foldl_cons] at h
    rcases ih _ h with h | ⟨bytes, hmem, hrow⟩
    · rw [Table.get_insertOrIgnore] at h
      split_ifs at h with hk
      · cases hget : t.get o.1 with
        | some old =>
          rw [hget, Option.getD_some] at h
          rw [hk, hget]
          exact .inl h
        | none =>
          rw [hget, Option.getD_none] at h
          refine .inr ⟨o.2,?_,(Option.some.inj h).symm⟩
          rw [hk]
          exact List.mem_cons_self
      · exact .inl h
    · exact .inr ⟨bytes,List.mem_cons_of_mem _ hmem,hrow⟩

lemma get_insertObjects_of_get {storage : Storage} (l : List (String × Bytes)) {digest : String}
    {row : ObjectRow} (h : db.objects.get digest = some row) :
    (db.insertObjects storage l).objects.get digest = some row := by
  unfold insertObjects
  change (l.foldl _ db.objects).get digest = some row
  generalize db.objects = t at h ⊢
  induction l generalizing t with
  | nil => exact h
  | cons o l ih => exact ih _ (Table.get_insertOrIgnore_of_get h)

lemma freshInline_eq_ok {l fresh : List (String × Bytes)} (h : db.freshInline l = .ok fresh) :
    ∀ o ∈ fresh, o ∈ l := by
  induction l generalizing fresh with
  | nil =>
    obtain rfl := Except.ok.inj h
    exact List.forall_mem_nil _
  | cons o l ih =>
    obtain ⟨digest, bytes⟩ := o
    obtain ⟨placed, -, h⟩ := bind_eq_ok.mp h
    obtain ⟨_, -, h⟩ := bind_eq_ok.mp h
    obtain ⟨rest, hrest, h⟩ := bind_eq_ok.mp h
    have := ih hrest
    split_ifs at h
    · obtain rfl := Except.ok.inj h
      exact fun o ho => List.mem_cons_of_mem _ (this o ho)
    · obtain rfl := Except.ok.inj h
      intro o ho
      rcases List.mem_cons.mp ho with rfl | ho
      · exact List.mem_cons_self
      · exact List.mem_cons_of_mem _ (this o ho)

/-- The transaction of a request with bodies. Its files get rows first, then the bodies that the
database takes. -/
theorem storeObjects_eq_ok {inline filed : List (String × Bytes)}
    (h : db.storeObjects cr device inline filed now = .ok db') : ∃ objects small leases,
      db' = { db with
        objects := objects
        smallObjects := small
        objectLeases := leases } ∧
      (∀ digest row, objects.get digest = some row → db.objects.get digest = some row ∨
        (∃ bytes, (digest,bytes) ∈ filed ∧ row = ⟨bytes.length,.file⟩) ∨
        ∃ bytes, (digest,bytes) ∈ inline ∧ small.get digest = some bytes ∧
          row = ⟨bytes.length,.inline⟩) ∧
      (∀ digest row, db.objects.get digest = some row → objects.get digest = some row) ∧
      (∀ digest body, db.smallObjects.get digest = some body → small.get digest = some body) ∧
      (∀ digest body, small.get digest = some body →
        db.smallObjects.get digest = some body ∨ hash cr body = digest) ∧
      Renewed now db.objectLeases leases := by
  obtain ⟨_, -, h⟩ := bind_eq_ok.mp h
  obtain ⟨fresh, hfresh, h⟩ := bind_eq_ok.mp h
  obtain ⟨filled, hfilled, h⟩ := bind_eq_ok.mp h
  obtain rfl := Except.ok.inj h
  obtain ⟨leases, hleases, hrenewed⟩ := leaseObjects_frame (db.insertObjects .file filed) device filed now
  obtain ⟨small, rfl, hkeep, hnew, hall⟩ := insertBatch_eq_ok hfilled
  obtain ⟨leases', hleases', hrenewed'⟩ := leaseObjects_frame
    (insertObjects { (db.insertObjects .file filed).leaseObjects device filed now with
      smallObjects := small } .inline fresh) device inline now
  rw [hleases']
  rw [hleases] at hkeep hnew hrenewed' ⊢
  refine ⟨_,small,leases',rfl,fun digest row hrow => ?_,fun digest row hrow => ?_,hkeep,hnew,
    hrenewed.trans hrenewed'⟩
  · rcases get_insertObjects hrow with hold | ⟨bytes, hmem, rfl⟩
    · rcases get_insertObjects hold with hold | hfile
      · exact .inl hold
      · exact .inr (.inl hfile)
    · exact .inr (.inr ⟨bytes,freshInline_eq_ok hfresh _ hmem,hall _ hmem,rfl⟩)
  · exact get_insertObjects_of_get fresh (get_insertObjects_of_get filed hrow)

/-- An upload is completed with its body in place: in the database when it is filed there, else
in a file published before. -/
theorem publishUpload_eq_ok {digest : String} {size : ℕ} {bytes : Bytes} {writes : List Write}
    (h : db.publishUpload cr device id digest size bytes now = .ok writes) :
    ∃ upload small, db.uploadRow device id now = .ok upload ∧
      (∀ row, db.objects.get digest = some row → row.size = size) ∧
      (∀ k body, db.smallObjects.get k = some body → small.get k = some body) ∧
      (∀ k body, small.get k = some body →
        db.smallObjects.get k = some body ∨ hash cr body = k) ∧
      (((∃ row, db.objects.get digest = some row ∧ row.storage = .inline) ∧
          writes = [.commit (({ db with
            smallObjects := small
            objects := db.objects.insertOrIgnore digest ⟨size,.file⟩ }.setState id
              .complete).leaseObject device digest now)]) ∨
        ((∀ row, db.objects.get digest = some row → row.storage = .file) ∧
          writes = [.publishObject digest bytes,.commit (({ db with
            smallObjects := small
            objects := db.objects.insertOrIgnore digest ⟨size,.file⟩ }.setState id
              .complete).leaseObject device digest now)])) := by
  obtain ⟨upload, hrow, h⟩ := bind_eq_ok.mp h
  obtain ⟨placed, hplaced, h⟩ := bind_eq_ok.mp h
  obtain ⟨_, hsize, h⟩ := bind_eq_ok.mp h
  have hsize := require_eq_ok.mp hsize
  rw [placement_eq_ok hplaced] at hsize h
  obtain ⟨filled, hfilled, h⟩ := bind_eq_ok.mp h
  obtain rfl := Except.ok.inj h
  by_cases hinline : (db.objects.get digest).any (fun row => decide (row.storage = .inline)) = true
  · rw [if_pos hinline]
    rw [fill, if_pos hinline] at hfilled
    obtain ⟨small, rfl, hkeep, hnew, -⟩ := insertBatch_eq_ok hfilled
    obtain ⟨row, hget, hstorage⟩ := (Option.any_eq_true _ _).mp hinline
    exact ⟨upload,small,hrow,fun row h => hsize row h,hkeep,hnew,
      .inl ⟨⟨row,hget,of_decide_eq_true hstorage⟩,rfl⟩⟩
  · rw [if_neg hinline]
    rw [fill, if_neg hinline] at hfilled
    obtain rfl := Except.ok.inj hfilled
    refine ⟨upload,db.smallObjects,hrow,fun row h => hsize row h,fun _ _ h => h,fun _ _ h => .inl h,
      .inr ⟨fun row hget => ?_,rfl⟩⟩
    rw [hget, Option.any_some, decide_eq_true_eq] at hinline
    cases hs : row.storage with
    | file => rfl
    | inline => exact absurd hs hinline

theorem cancelled_eq_ok (h : db.cancelled device id now = .ok db') :
    ∃ upload, db.uploads.get id = some upload ∧ upload.device = device.id ∧
      upload.state ≠ .finalizing ∧ db' = deleteUploads { db with
        stagingTrash := db.discardChunks fun k => decide (k.1 = id) }
        fun id' row => decide (id' = id ∧ row.device = device.id) := by
  obtain ⟨upload, hrow, h⟩ := bind_eq_ok.mp h
  obtain ⟨_, hstate, h⟩ := bind_eq_ok.mp h
  obtain ⟨-, -, hget, hown, -⟩ := uploadRow_eq_ok hrow
  exact ⟨upload,hget,hown,require_eq_ok.mp hstate,(Except.ok.inj h).symm⟩

/-- A submission that is accepted queues a large upload with all of its chunks. -/
theorem submitUpload_eq_accepted (h : db.submitUpload device id now = .ok (.accepted db')) :
    ∃ upload, db.uploads.get id = some upload ∧ upload.state ≠ .complete ∧ upload.state ≠ .failed ∧
      ((db.uploadDeltas.contains id = true ∧ db' = db) ∨
      (db.uploadDeltas.contains id = false ∧ 64*1024*1024 ≤ upload.size ∧
        db.chunkCount id = divCeil upload.size uploadChunkBytes ∧
        db' = moveState { db with
          uploadJobs := db.uploadJobs.insertOrIgnore id ⟨0,false,none,0⟩ } id .opened .queued)) := by
  obtain ⟨upload, hrow, h⟩ := bind_eq_ok.mp h
  have hget := (uploadRow_eq_ok hrow).2.2.1
  by_cases hc : upload.state = .complete
  · rw [if_pos hc] at h
    cases h
  rw [if_neg hc] at h
  obtain ⟨_, hfailed, h⟩ := bind_eq_ok.mp h
  refine ⟨upload,hget,hc,require_eq_ok.mp hfailed,?_⟩
  by_cases hd : db.uploadDeltas.contains id = true
  · rw [if_pos hd] at h
    exact .inl ⟨hd,(Submitted.accepted.inj (Except.ok.inj h)).symm⟩
  rw [if_neg hd] at h
  by_cases hs : upload.size < 64*1024*1024
  · rw [if_pos hs] at h
    cases h
  rw [if_neg hs] at h
  obtain ⟨_, hcount, h⟩ := bind_eq_ok.mp h
  exact .inr ⟨Bool.not_eq_true _ ▸ hd,not_lt.mp hs,require_eq_ok.mp hcount,
    (Submitted.accepted.inj (Except.ok.inj h)).symm⟩

lemma earliest_mem {l : List (String × Job)} {job : String × Job} (h : earliest l = some job) :
    job ∈ l := by
  induction l generalizing job with
  | nil => cases h
  | cons first rest ih =>
    unfold earliest at h
    split at h
    · obtain rfl := Option.some.inj h
      exact List.mem_cons_self
    · next other hother =>
      split_ifs at h
      · obtain rfl := Option.some.inj h
        exact List.mem_cons_self
      · obtain rfl := Option.some.inj h
        exact List.mem_cons_of_mem _ (ih hother)

theorem pendingJob_eq_some {owner : String} (h : db.pendingJob now = some (id,owner)) :
    ∃ job upload, db.uploadJobs.get id = some job ∧ job.terminal = false ∧ job.retryAfter ≤ now ∧
      db.uploads.get id = some upload ∧ upload.device = owner := by
  obtain ⟨⟨id', job⟩, hjob, h⟩ := Option.bind_eq_some_iff.mp h
  obtain ⟨upload, hu, h⟩ := Option.bind_eq_some_iff.mp h
  obtain ⟨rfl, rfl⟩ := Prod.mk.inj (Option.some.inj h)
  obtain ⟨hmem, hdue⟩ := List.mem_filter.mp (earliest_mem hjob)
  simp only [Bool.and_eq_true, Bool.not_eq_true', decide_eq_true_eq] at hdue
  exact ⟨job,upload,Table.get_eq_some.mpr hmem,hdue.1.1,hdue.1.2,hu,rfl⟩

/-- A submission that finishes by itself is of a small upload without a recipe. -/
theorem submitUpload_eq_finish (h : db.submitUpload device id now = .ok .finish) :
    ∃ upload, db.uploads.get id = some upload ∧ upload.size < 64*1024*1024 := by
  obtain ⟨upload, hrow, h⟩ := bind_eq_ok.mp h
  have hget := (uploadRow_eq_ok hrow).2.2.1
  by_cases hc : upload.state = .complete
  · rw [if_pos hc] at h
    cases h
  rw [if_neg hc] at h
  obtain ⟨_, -, h⟩ := bind_eq_ok.mp h
  by_cases hd : db.uploadDeltas.contains id = true
  · rw [if_pos hd] at h
    cases h
  rw [if_neg hd] at h
  by_cases hs : upload.size < 64*1024*1024
  · exact ⟨upload,hget,hs⟩
  rw [if_neg hs] at h
  obtain ⟨_, -, h⟩ := bind_eq_ok.mp h
  cases h

/-- The bases of a recipe are held for its upload, and each of them is there. -/
theorem attachBases_eq_ok {bases : List Base} (h : db.attachBases id bases = .ok db') :
    ∃ held, db' = { db with uploadDeltaBases := held } ∧
      (∀ k, db.uploadDeltaBases.contains k = true → held.contains k = true) ∧
      ∀ base ∈ bases, held.contains (id,base.hash) = true ∧
        (db.objects.get base.hash).map ObjectRow.size = some base.size := by
  induction bases generalizing db with
  | nil =>
    obtain rfl := Except.ok.inj h
    exact ⟨db.uploadDeltaBases,rfl,fun _ h => h,List.forall_mem_nil _⟩
  | cons base bases ih =>
    obtain ⟨_, hbase, h⟩ := bind_eq_ok.mp h
    obtain ⟨_, -, h⟩ := bind_eq_ok.mp h
    obtain ⟨held, rfl, hkeep, hall⟩ := ih h
    have hold : ∀ k, db.uploadDeltaBases.contains k = true →
        (db.uploadDeltaBases.insertOrIgnore (id,base.hash) ()).contains k = true := by
      intro k hk
      obtain ⟨v, hv⟩ := Table.contains_iff.mp hk
      exact Table.contains_iff.mpr ⟨v,Table.get_insertOrIgnore_of_get hv⟩
    refine ⟨held,rfl,fun k hk => hkeep k (hold k hk),List.forall_mem_cons.mpr ⟨⟨hkeep _ ?_,
      require_eq_ok.mp hbase⟩,hall⟩⟩
    refine Table.contains_iff.mpr ⟨(),?_⟩
    change (db.uploadDeltaBases.insertOrIgnore (id,base.hash) ()).get (id,base.hash) = some ()
    rw [Table.get_insertOrIgnore, if_pos rfl]

theorem attachUploadDelta_eq_ok {bytes : Bytes}
    (h : db.attachUploadDelta device id bytes now = .ok db') :
    ∃ recipe upload, Recipe.decode bytes = .ok recipe ∧ db.uploads.get id = some upload ∧
      upload.hash = recipe.targetHash ∧ upload.size = recipe.targetSize ∧
      ((db.uploadDeltas.get id = some bytes ∧ db' = db) ∨
      (db.uploadDeltas.get id = none ∧ upload.state = .opened ∧ db.chunkCount id = 0 ∧
        db.uploadJobs.get id = none ∧ ∃ held,
          (∀ k, db.uploadDeltaBases.contains k = true → held.contains k = true) ∧
          (∀ base ∈ recipe.bases, held.contains (id,base.hash) = true ∧
            (db.objects.get base.hash).map ObjectRow.size = some base.size) ∧
          db' = setState { db with
            uploadDeltaBases := held
            uploadDeltas := db.uploadDeltas.insertOrIgnore id bytes
            uploadJobs := db.uploadJobs.insertOrIgnore id ⟨0,false,none,0⟩ } id .queued)) := by
  obtain ⟨recipe, hdecode, h⟩ := bind_eq_ok.mp h
  obtain ⟨upload, hrow, h⟩ := bind_eq_ok.mp h
  obtain ⟨_, hmatch, h⟩ := bind_eq_ok.mp h
  have hmatch := require_eq_ok.mp hmatch
  refine ⟨recipe,upload,lift_eq_ok.mp hdecode,(uploadRow_eq_ok hrow).2.2.1,hmatch.1,hmatch.2,?_⟩
  cases hprior : db.uploadDeltas.get id with
  | some prior =>
    rw [hprior] at h
    obtain ⟨_, hsame, h⟩ := bind_eq_ok.mp h
    have hsame := require_eq_ok.mp hsame
    exact .inl ⟨congrArg some hsame,(Except.ok.inj h).symm⟩
  | none =>
    rw [hprior] at h
    obtain ⟨_, hopened, h⟩ := bind_eq_ok.mp h
    obtain ⟨_, hcount, h⟩ := bind_eq_ok.mp h
    obtain ⟨_, -, h⟩ := bind_eq_ok.mp h
    obtain ⟨based, hbased, h⟩ := bind_eq_ok.mp h
    obtain ⟨_, hjob, h⟩ := bind_eq_ok.mp h
    obtain ⟨held, rfl, hkeep, hall⟩ := attachBases_eq_ok hbased
    exact .inr ⟨rfl,require_eq_ok.mp hopened,require_eq_ok.mp hcount,require_eq_ok.mp hjob,held,
      hkeep,hall,(Except.ok.inj h).symm⟩

lemma uploadRow_of_attach {bytes : Bytes} (h : db.attachUploadDelta device id bytes now = .ok db') :
    ∃ upload, db.uploadRow device id now = .ok upload := by
  obtain ⟨_, -, h⟩ := bind_eq_ok.mp h
  obtain ⟨upload, hrow, -⟩ := bind_eq_ok.mp h
  exact ⟨upload,hrow⟩

lemma uploadRow_of_submit {r : Submitted} (h : db.submitUpload device id now = .ok r) :
    ∃ upload, db.uploadRow device id now = .ok upload := by
  obtain ⟨upload, hrow, -⟩ := bind_eq_ok.mp h
  exact ⟨upload,hrow⟩

theorem pinObjects_eq_ok {hashes : List String} (h : db.pinObjects device hashes now = .ok db') :
    db' = hashes.foldl (fun db digest => db.leaseObject device digest now) db := by
  obtain ⟨_, -, h⟩ := bind_eq_ok.mp h
  obtain ⟨_, -, h⟩ := bind_eq_ok.mp h
  obtain ⟨_, -, h⟩ := bind_eq_ok.mp h
  exact (Except.ok.inj h).symm

lemma pinned_frame (db : Db) (device : Device) (hashes : List String) (now : ℤ) :
    ∃ leases, hashes.foldl (fun db digest => db.leaseObject device digest now) db =
      { db with objectLeases := leases } ∧ Renewed now db.objectLeases leases := by
  induction hashes generalizing db with
  | nil => exact ⟨db.objectLeases,rfl,.refl _ _⟩
  | cons digest hashes ih =>
    obtain ⟨leases, hdb, hleases⟩ := ih (db.leaseObject device digest now)
    exact ⟨leases,hdb,(renewed_leaseObject db device digest now).trans hleases⟩

end Db
end RisuNest.Transfer
