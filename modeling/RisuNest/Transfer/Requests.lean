import RisuNest.Transfer.Outcomes
import RisuNest.Transfer.Specs

/-! What running requests hold on to: an upload keeps its manifest while it exists, and a body
that is put together for it is the body of that manifest. -/
namespace RisuNest.Transfer
open Wire Server

namespace Db

/-- A transaction that begins no upload and attaches no recipe. -/
structure Frame (db db' : Db) : Prop where
  uploads : ∀ id u', db'.uploads.get id = some u' → ∃ u, db.uploads.get id = some u ∧
    u'.hash = u.hash ∧ u'.size = u.size ∧ u'.device = u.device ∧ u'.expires = u.expires
  deltas : ∀ id b, db'.uploadDeltas.get id = some b → db.uploadDeltas.get id = some b ∧
    ∀ u, db.uploads.get id = some u → ∃ u', db'.uploads.get id = some u'

lemma Frame.of_same {db db' : Db} (hu : db'.uploads = db.uploads)
    (hd : db'.uploadDeltas = db.uploadDeltas) : Frame db db' where
  uploads _ u' h := ⟨u',hu ▸ h,rfl,rfl,rfl,rfl⟩
  deltas _ _ h := ⟨hd ▸ h,fun u hget => ⟨u,hu.symm ▸ hget⟩⟩

lemma Frame.refl (db : Db) : Frame db db := .of_same rfl rfl

lemma Frame.trans {db db' db'' : Db} (h : Frame db db') (h' : Frame db' db'') : Frame db db'' where
  uploads id u'' hget := by
    obtain ⟨u', hu', a, b, c, d⟩ := h'.uploads id u'' hget
    obtain ⟨u, hu, a', b', c', d'⟩ := h.uploads id u' hu'
    exact ⟨u,hu,a.trans a',b.trans b',c.trans c',d.trans d'⟩
  deltas id b hget := by
    obtain ⟨hb, hkeep'⟩ := h'.deltas id b hget
    obtain ⟨hb, hkeep⟩ := h.deltas id b hb
    refine ⟨hb,fun u hu => ?_⟩
    obtain ⟨u', hu'⟩ := hkeep u hu
    exact hkeep' u' hu'

lemma Frame.after {db db' db'' : Db} (h' : Frame db' db'') (h : Frame db db') : Frame db db'' :=
  h.trans h'

lemma Frame.of_states {db db' : Db} {f : String → Upload → UploadState}
    (hu : ∀ id, db'.uploads.get id = (db.uploads.get id).map fun u => { u with state := f id u })
    (hd : db'.uploadDeltas = db.uploadDeltas) : Frame db db' where
  uploads id u' h := by
    rw [hu] at h
    obtain ⟨u, hget, rfl⟩ := Option.map_eq_some_iff.mp h
    exact ⟨u,hget,rfl,rfl,rfl,rfl⟩
  deltas id b h := by
    refine ⟨hd ▸ h,fun u hget => ?_⟩
    rw [hu, hget]
    exact ⟨_,rfl⟩

@[simp] lemma get_setState (db : Db) (id : String) (state : UploadState) (id' : String) :
    (db.setState id state).uploads.get id' = (db.uploads.get id').map fun u =>
      { u with state := if id' = id then state else u.state } := by
  refine (Table.get_mapValues _ _ _).trans (congrArg (Option.map · _) (funext fun u => ?_))
  split_ifs <;> rfl

@[simp] lemma get_moveState (db : Db) (id : String) (old new : UploadState) (id' : String) :
    (db.moveState id old new).uploads.get id' = (db.uploads.get id').map fun u =>
      { u with state := if id' = id ∧ u.state = old then new else u.state } := by
  refine (Table.get_mapValues _ _ _).trans (congrArg (Option.map · _) (funext fun u => ?_))
  split_ifs <;> rfl

@[simp] lemma get_reopened (db : Db) (id : String) :
    db.reopened.uploads.get id = (db.uploads.get id).map fun u =>
      { u with state := if u.state = .finalizing then
        (if db.uploadJobs.contains id then .queued else .opened) else u.state } := by
  refine (Table.get_mapValues _ _ _).trans (congrArg (Option.map · _) (funext fun u => ?_))
  split_ifs <;> rfl

lemma frame_setState (db : Db) (id : String) (state : UploadState) :
    Frame db (db.setState id state) := .of_states (get_setState db id state) rfl

lemma frame_moveState (db : Db) (id : String) (old new : UploadState) :
    Frame db (db.moveState id old new) := .of_states (get_moveState db id old new) rfl

lemma frame_reopened (db : Db) : Frame db db.reopened := .of_states (get_reopened db) rfl

lemma frame_deleteUploads (db : Db) (p : String → Upload → Bool) :
    Frame db (db.deleteUploads p) where
  uploads _ u' h := ⟨u',(Table.get_deleteWhere_eq_some.mp h).1,rfl,rfl,rfl,rfl⟩
  deltas _ _ h := by
    obtain ⟨hb, hgone⟩ := Table.get_deleteWhere_eq_some.mp h
    refine ⟨hb,fun u hu => ⟨u,Table.get_deleteWhere_eq_some.mpr ⟨hu,?_⟩⟩⟩
    change (db.uploads.get _).any (p _) = false at hgone
    rw [hu] at hgone
    exact hgone

lemma frame_settleJob (db : Db) (id : String) (outcome : Option Error) (now : ℤ) :
    Frame db (db.settleJob id outcome now) := by
  cases outcome with
  | none => exact .of_same rfl rfl
  | some e =>
    unfold settleJob
    dsimp only
    exact (frame_setState _ id _).after (.of_same rfl rfl)

lemma frame_publish (db : Db) (objects : Table String ObjectRow) (small : Table String Bytes)
    (id : String) (state : UploadState) (device : Device) (digest : String) (now : ℤ) :
    Frame db (({ db with
      smallObjects := small
      objects := objects }.setState id state).leaseObject device digest now) := by
  have hstate := frame_setState { db with
    smallObjects := small
    objects := objects } id state
  refine Frame.trans ?_ (Frame.trans hstate ?_)
  · exact .of_same rfl rfl
  · exact .of_same rfl rfl

lemma frame_expireUploads (db : Db) (current : ℤ) : Frame db (db.expireUploads current) := by
  refine Frame.trans ?_ (frame_deleteUploads _ _)
  exact ⟨fun _ u' h => ⟨u',h,rfl,rfl,rfl,rfl⟩,
    fun _ _ h => ⟨(Table.get_deleteWhere_eq_some.mp h).1,fun u hu => ⟨u,hu⟩⟩⟩

lemma frame_maintained (db : Db) (current clock : ℤ) (held alive : List String) :
    Frame db (db.maintained current clock held alive) :=
  (frame_expireUploads db current).trans (.of_same rfl rfl)

end Db

namespace Disk
open Db

/-! ### Sections that leave the uploads alone -/

variable {I : Disk → Prop} {d : Disk}

lemma along_commits {κ : Type} {f : Db → κ → Db}
    (hf : ∀ d k, I d → I (d.apply (.commit (f d.db k)))) (hd : I d) (l : List κ) :
    Along apply I d (commits f d.db l) := by
  induction l generalizing d with
  | nil => exact along_nil.mpr hd
  | cons k l ih => exact along_cons.mpr ⟨hd,ih (hf d k hd)⟩

lemma along_reconcileOrphans (hobject : ∀ d k, I d → I (d.apply (.commit (orphanObject d.db k))))
    (hchunk : ∀ d k, I d → I (d.apply (.commit (orphanChunk d.db k)))) (hd : I d)
    (objectNames : List String) (chunkNames : List (String × ℕ)) :
    Along apply I d (reconcileOrphans objectNames chunkNames d) :=
  (along_commits hobject hd _).andThen fun h => along_commits hchunk h _

lemma written_publications (l : List (String × Bytes)) (d : Disk) :
    (written apply d (l.map fun o => .publishObject o.1 o.2)).db = d.db := by
  induction l generalizing d with
  | nil => rfl
  | cons o l ih => exact ih _

lemma along_drainStagingTrash {only : Option String} {cursor : ℕ} {stuck : List (String × ℕ)}
    (hremove : ∀ d' k, I d' → d'.db = d.db → (∃ row, d.db.stagingTrash.get k = some row) →
      I (d'.apply (.removeChunk k.1 k.2)))
    (hcommit : ∀ d' p, I d' → d'.db = d.db → I (d'.apply (.commit { d.db with
      stagingTrash := d.db.stagingTrash.deleteWhere p }))) (hd : I d) :
    Along apply I d (drainStagingTrash only cursor stuck d) := by
  unfold drainStagingTrash
  extract_lets removed
  have hmem : ∀ k ∈ removed, ∃ row, d.db.stagingTrash.get k = some row := by
    intro k hk
    obtain ⟨r, hr, rfl⟩ := List.mem_map.mp (List.mem_of_mem_filter hk)
    exact ⟨r.2,Table.get_eq_some.mpr (List.mem_of_mem_filter (List.mem_of_mem_take hr))⟩
  have hremovals : Along apply (fun d' => I d' ∧ d'.db = d.db) d
      (removed.map fun k => Write.removeChunk k.1 k.2) := by
    refine along_of_kept ⟨hd,rfl⟩ fun w hw d' h => ?_
    obtain ⟨k, hk, rfl⟩ := List.mem_map.mp hw
    exact ⟨hremove d' k h.1 h.2 (hmem k hk),h.2⟩
  refine along_append.mpr ⟨hremovals.imp fun _ h => h.1,?_⟩
  obtain ⟨hI, hdb⟩ := hremovals.finish
  split_ifs
  · exact along_nil.mpr hI
  · exact along_cons.mpr ⟨hI,along_nil.mpr (hcommit _ _ hI hdb)⟩

lemma along_drainObjectTrash {cursor : ℕ} {stuck : List String}
    (hremove : ∀ d' k, I d' → d'.db = d.db → d.db.objects.get k = none →
      I (d'.apply (.removeObject k)))
    (hcommit : ∀ d' (removed : List String) p, I d' → d'.db = d.db → (∀ k ∈ removed, d.db.objects.get k = none) →
      I (d'.apply (.commit { d.db with
        smallObjects := d.db.smallObjects.deleteWhere fun k _ => decide (k ∈ removed)
        objectTrash := d.db.objectTrash.deleteWhere p }))) (hd : I d) :
    Along apply I d (drainObjectTrash cursor stuck d) := by
  unfold drainObjectTrash
  extract_lets page removed settled
  have hmem : ∀ k ∈ removed, d.db.objects.get k = none := by
    intro k hk
    have hcond := (List.mem_filter.mp hk).2
    rw [Bool.and_eq_true, Bool.not_eq_true'] at hcond
    exact Table.contains_eq_false.mp hcond.1
  have hremovals : Along apply (fun d' => I d' ∧ d'.db = d.db) d
      (removed.map Write.removeObject) := by
    refine along_of_kept ⟨hd,rfl⟩ fun w hw d' h => ?_
    obtain ⟨k, hk, rfl⟩ := List.mem_map.mp hw
    exact ⟨hremove d' k h.1 h.2 (hmem k hk),h.2⟩
  refine along_append.mpr ⟨hremovals.imp fun _ h => h.1,?_⟩
  obtain ⟨hI, hdb⟩ := hremovals.finish
  exact along_cons.mpr ⟨hI,along_nil.mpr (hcommit _ _ _ hI hdb hmem)⟩

end Disk

namespace System
open Db
variable {cr : Crates} {s : System}

/-- What an operation writes leaves the manifests alone, except when it begins an upload or
attaches a recipe. -/
theorem frame_along {op : Op} {o : Outcome} (h : Cases cr s op o)
    (hbegin : ∀ device manifest id, op ≠ .beginUpload device manifest id)
    (hattach : ∀ device id bytes, op ≠ .attach device id bytes) :
    Along Disk.apply (fun d => Frame s.disk.db d.db) s.disk o.writes := by
  have hstart : Frame s.disk.db s.disk.db := .refl _
  have hone : ∀ db, Frame s.disk.db db →
      Along Disk.apply (fun d => Frame s.disk.db d.db) s.disk [.commit db] :=
    fun db hdb => along_cons.mpr ⟨hstart,along_nil.mpr hdb⟩
  have hquiet : ∀ ws : List Write, (∀ w ∈ ws, ∀ db, w ≠ .commit db) →
      Along Disk.apply (fun d => Frame s.disk.db d.db) s.disk ws := by
    intro ws hws
    refine along_of_kept hstart fun w hw d hd => ?_
    cases w with
    | commit db => exact absurd rfl (hws _ hw db)
    | _ => exact hd
  have hstaging : ∀ only cursor stuck d, Frame s.disk.db d.db → Along Disk.apply
      (fun d => Frame s.disk.db d.db) d (drainStagingTrash only cursor stuck d) :=
    fun only cursor stuck d hd => Disk.along_drainStagingTrash (fun _ _ h _ _ => h)
      (fun _ _ _ _ => hd.trans (.of_same rfl rfl)) hd
  have hdrain : ∀ cursors stuckChunks stuckObjects d, Frame s.disk.db d.db → Along Disk.apply
      (fun d => Frame s.disk.db d.db) d (drainTrash cursors stuckChunks stuckObjects d) := by
    intro cursors stuckChunks stuckObjects d hd
    refine (hstaging _ _ _ d hd).andThen fun h => ?_
    exact Disk.along_drainObjectTrash (fun _ _ h _ _ => h)
      (fun _ _ _ _ _ _ => h.trans (.of_same rfl rfl)) h
  cases h with
  | idle hw =>
    rw [hw]
    exact along_nil.mpr hstart
  | ended | sent | finishes | taken | read | unread | failed | unpublished | offered | sifted =>
    exact along_nil.mpr hstart
  | device => exact hone _ (.of_same rfl rfl)
  | begin => exact absurd rfl (hbegin _ _ _)
  | stored hc h =>
    obtain ⟨upload, -, -, ⟨_, -, -, rfl⟩ | ⟨-, rfl⟩⟩ := publishChunk_eq_ok h
    · exact along_nil.mpr hstart
    · exact along_cons.mpr ⟨hstart,along_cons.mpr ⟨hstart,along_nil.mpr (.of_same rfl rfl)⟩⟩
  | attached => exact absurd rfl (hattach _ _ _)
  | submitted hfree h =>
    obtain ⟨upload, -, -, -, ⟨-, rfl⟩ | ⟨-, -, -, rfl⟩⟩ := submitUpload_eq_accepted h
    · exact hone _ hstart
    · exact hone _ ((frame_moveState _ _ _ _).after (.of_same rfl rfl))
  | @completed _ caller =>
    cases caller <;> exact along_nil.mpr hstart
  | started hc h =>
    obtain ⟨upload, -, -, -, -, -, rfl⟩ := startFinish_eq_finalizing h
    exact hone _ (frame_setState _ _ _)
  | @refused _ caller =>
    cases caller <;> exact along_nil.mpr hstart
  | @published _ caller device id digest size bytes writes hc h =>
    have hw : Along Disk.apply (fun d => Frame s.disk.db d.db) s.disk writes := by
      obtain ⟨upload, small, -, -, -, -, ⟨-, rfl⟩ | ⟨-, rfl⟩⟩ := publishUpload_eq_ok h
      · exact hone _ (frame_publish _ _ _ _ _ _ _ _)
      · exact along_cons.mpr ⟨hstart,along_cons.mpr ⟨hstart,along_nil.mpr
          (frame_publish _ _ _ _ _ _ _ _)⟩⟩
    cases caller <;> exact hw
  | @rolledBack _ caller =>
    cases caller <;> exact hone _ (frame_moveState _ _ _ _)
  | settled => exact hone _ (frame_settleJob _ _ _ _)
  | cancelled h =>
    obtain ⟨upload, -, -, -, rfl⟩ := cancelled_eq_ok h
    dsimp only
    refine Along.andThen (hone _ ?_) fun h => hstaging _ _ _ _ h
    exact (frame_deleteUploads _ _).after (.of_same rfl rfl)
  | publishedSome =>
    refine hquiet _ fun w hw db => ?_
    obtain ⟨o, -, rfl⟩ := List.mem_map.mp hw
    exact Write.noConfusion
  | @storing call device inline filed hc =>
    have hpublished : Frame s.disk.db (written Disk.apply s.disk
        (filed.map fun o => .publishObject o.1 o.2)).db := by
      rw [Disk.written_publications]
      exact hstart
    refine along_append.mpr ⟨hquiet _ fun w hw db => ?_,?_⟩
    · obtain ⟨o, -, rfl⟩ := List.mem_map.mp hw
      exact Write.noConfusion
    · cases hs : s.disk.db.storeObjects cr device inline filed s.clock with
      | error e => exact along_nil.mpr hpublished
      | ok db =>
        obtain ⟨objects, small, leases, rfl, -⟩ := storeObjects_eq_ok hs
        exact along_cons.mpr ⟨hpublished,along_nil.mpr (.of_same rfl rfl)⟩
  | pinned h =>
    obtain ⟨leases, hframe, -⟩ := pinned_frame s.disk.db _ _ _
    rw [pinObjects_eq_ok h, hframe]
    exact hone _ (.of_same rfl rfl)
  | maintained =>
    dsimp only
    refine Along.andThen ?_ fun h => Along.andThen ?_ fun h => hdrain _ _ _ _ h
    · exact hone _ (frame_maintained _ _ _ _ _)
    refine Disk.along_reconcileOrphans (fun d k hd => ?_) (fun d k hd => ?_) h _ _
    · refine hd.trans ?_
      change Frame d.db (orphanObject d.db k)
      unfold orphanObject
      split_ifs
      · exact .refl _
      · exact .of_same rfl rfl
    · refine hd.trans ?_
      change Frame d.db (orphanChunk d.db k)
      unfold orphanChunk
      split_ifs
      · exact .refl _
      · exact .of_same rfl rfl
  | drained => exact hdrain _ _ _ _ hstart

/-! ### Manifests -/

/-- The ids of uploads have been issued, and a recipe builds the body of its upload. -/
structure Filed (issued : List String) (db : Db) : Prop where
  issued : ∀ id u, db.uploads.get id = some u → id ∈ issued
  recipes : ∀ id b, db.uploadDeltas.get id = some b → ∃ u recipe, db.uploads.get id = some u ∧
    Recipe.decode b = .ok recipe ∧ u.hash = recipe.targetHash ∧ u.size = recipe.targetSize

lemma Filed.frame {issued : List String} {db db' : Db} (h : Filed issued db) (hf : Frame db db') :
    Filed issued db' where
  issued id u' hu := by
    obtain ⟨u, hget, -⟩ := hf.uploads id u' hu
    exact h.issued id u hget
  recipes id b hb := by
    obtain ⟨hold, hkeep⟩ := hf.deltas id b hb
    obtain ⟨u, recipe, hu, hdecode, hhash, hsize⟩ := h.recipes id b hold
    obtain ⟨u', hu'⟩ := hkeep u hu
    obtain ⟨w, hw, heq, hsz, -⟩ := hf.uploads id u' hu'
    rw [hu] at hw
    obtain rfl := Option.some.inj hw
    exact ⟨u',recipe,hu',hdecode,heq.trans hhash,hsz.trans hsize⟩

/-- What is put together belongs to a manifest. -/
def Progress.For (digest : String) (size : ℕ) : Progress → Prop
  | .bases recipe _ _ => recipe.targetHash = digest ∧ recipe.targetSize = size
  | .assembled bytes => bytes.length = size
  | _ => True

/-- The calls of a store whose uploads are filed. -/
structure Honest (cr : Crates) (s : System) : Prop where
  filed : Filed s.issued s.disk.db
  objects : ∀ n c, s.calls.get n = some c → ∀ o ∈ c.objects, hash cr o.2 = o.1
  finishing : ∀ n caller device id digest size progress,
    s.calls.get n = some (.finishing caller device id digest size progress) →
    id ∈ s.issued ∧ (∀ u, s.disk.db.uploads.get id = some u → u.hash = digest ∧ u.size = size) ∧
      Progress.For digest size progress

lemma honest_create : Honest cr create where
  filed := ⟨fun id u h => (by cases h),fun id b h => (by cases h)⟩
  objects n c h := by cases h
  finishing n caller device id digest size progress h := by cases h

lemma get_nextCalls {op : Op} {n : ℕ} {c : Call} (h : (s.nextCalls cr op).get n = some c) :
    s.calls.get n = some c ∨ op.call = some n ∧ (s.outcome cr op).call = some c := by
  unfold nextCalls at h
  split at h
  · exact .inl h
  · rw [Table.get_erase] at h
    split_ifs at h
    exact .inl h
  · next id call hop hcall =>
    rw [Table.get_upsert] at h
    split_ifs at h with hid
    · rw [hid]
      exact .inr ⟨hop,hcall.trans h⟩
    · exact .inl h

/-- What a read of a finishing upload yields belongs to its manifest. -/
theorem readOn_for (hs : Honest cr s) {n : ℕ} {caller : Caller} {device : Device}
    {id digest : String} {size : ℕ} {progress next : Progress}
    (hc : s.calls.get n = some (.finishing caller device id digest size progress))
    (h : s.disk.readOn cr device id digest size s.clock progress = .ok next) :
    Progress.For digest size next ∧
      ∀ bytes, next = .assembled bytes → hash cr bytes = digest := by
  obtain ⟨-, hmanifest, hfor⟩ := hs.finishing n caller device id digest size progress hc
  cases progress with
  | opened =>
    unfold Disk.readOn at h
    dsimp only at h
    split at h
    · next b hb =>
      obtain ⟨recipe, hdecode, h⟩ := bind_eq_ok.mp h
      obtain rfl := Except.ok.inj h
      obtain ⟨u, recipe', hu, hdecode', hhash, hsize⟩ := hs.filed.recipes id b hb
      rw [lift_eq_ok.mp hdecode] at hdecode'
      obtain rfl := Except.ok.inj hdecode'
      obtain ⟨rfl, rfl⟩ := hmanifest u hu
      exact ⟨⟨hhash.symm,hsize.symm⟩,fun bytes h => by cases h⟩
    · obtain rfl := Except.ok.inj h
      exact ⟨trivial,fun bytes h => by cases h⟩
  | bases recipe rest found =>
    cases rest with
    | cons base rest =>
      obtain ⟨body, -, h⟩ := bind_eq_ok.mp h
      obtain rfl := Except.ok.inj h
      exact ⟨hfor,fun bytes h => by cases h⟩
    | nil =>
      unfold Disk.readOn at h
      dsimp only at h
      split_ifs at h
      obtain ⟨bytes, happly, h⟩ := bind_eq_ok.mp h
      obtain rfl := Except.ok.inj h
      obtain ⟨hhash, hlength⟩ := Recipe.apply_eq_ok (lift_eq_ok.mp happly)
      refine ⟨hlength.trans hfor.2,fun b hb => ?_⟩
      obtain rfl := Progress.assembled.inj hb
      exact hhash.trans hfor.1
  | chunks index read =>
    unfold Disk.readOn at h
    dsimp only at h
    split_ifs at h
    · split at h
      · cases h
      · cases h
      · obtain ⟨_, -, h⟩ := bind_eq_ok.mp h
        obtain rfl := Except.ok.inj h
        exact ⟨trivial,fun bytes h => by cases h⟩
    · obtain ⟨_, hwhole, h⟩ := bind_eq_ok.mp h
      obtain rfl := Except.ok.inj h
      have hwhole := require_eq_ok.mp hwhole
      refine ⟨hwhole.1,fun b hb => ?_⟩
      obtain rfl := Progress.assembled.inj hb
      exact hwhole.2
  | assembled bytes =>
    obtain rfl := Except.ok.inj h
    refine ⟨hfor,fun b hb => ?_⟩
    obtain rfl := Progress.assembled.inj hb
    exact hs.objects n _ hc (digest,bytes) List.mem_cons_self

lemma objects_assembled {caller : Caller} {device : Device} {id digest : String} {size : ℕ}
    {progress : Progress} {P : String × Bytes → Prop}
    (h : ∀ bytes, progress = .assembled bytes → P (digest,bytes)) :
    ∀ o ∈ (Call.finishing caller device id digest size progress).objects, P o := by
  cases progress with
  | assembled bytes => exact fun o ho => List.mem_singleton.mp ho ▸ h bytes rfl
  | _ => exact List.forall_mem_nil _

lemma objects_of_cases (hs : Honest cr s) {op : Op} {o : Outcome} (h : Cases cr s op o) {n : ℕ}
    {c : Call} (hop : op.call = some n) (hcall : o.call = some c) :
    ∀ b ∈ c.objects, hash cr b.2 = b.1 := by
  have hreturned : ∀ {writes caller id outcome}, (Outcome.returned writes caller id outcome).call =
      some c → c.objects = [] := by
    rintro writes (_ | _) id outcome h
    · cases h
    · obtain rfl := Option.some.inj h
      rfl
  cases h with
  | idle _ _ hc => exact hs.objects n c ((hc n hop).symm.trans hcall)
  | ended | device | begin | stored | attached | submitted | settled | cancelled | publishedSome |
    storing | pinned | maintained | drained => cases hcall
  | sent _ h =>
    obtain rfl := Option.some.inj hcall
    intro b hb
    rw [List.mem_singleton.mp hb]
    exact (checkChunk_eq_ok h).1
  | finishes | taken | unread | failed | unpublished =>
    obtain rfl := Option.some.inj hcall
    exact List.forall_mem_nil _
  | completed | refused | published | rolledBack =>
    rw [hreturned hcall]
    exact List.forall_mem_nil _
  | started =>
    obtain rfl := Option.some.inj hcall
    exact List.forall_mem_nil _
  | read hc h =>
    obtain rfl := Option.some.inj hcall
    exact objects_assembled (readOn_for hs hc h).2
  | offered _ _ h =>
    obtain rfl := Option.some.inj hcall
    intro b hb
    rcases List.mem_append.mp hb with hb | hb <;> exact h b hb
  | sifted hop' hc _ _ hsub _ =>
    obtain rfl := Option.some.inj hcall
    exact fun b hb => hs.objects _ _ hc b (hsub b hb)

lemma finishing_of_cases (hs : Honest cr s) {op : Op} {o : Outcome} (h : Cases cr s op o) {n : ℕ}
    {caller : Caller} {device : Device} {id digest : String} {size : ℕ} {progress : Progress}
    (hop : op.call = some n)
    (hcall : o.call = some (.finishing caller device id digest size progress)) :
    id ∈ s.issued ∧ (∀ u, s.disk.db.uploads.get id = some u → u.hash = digest ∧ u.size = size) ∧
      Progress.For digest size progress := by
  have hreturned : ∀ {writes caller' id' outcome}, (Outcome.returned writes caller' id' outcome).call
      ≠ some (.finishing caller device id digest size progress) := by
    rintro writes (_ | _) id' outcome h <;> cases h
  cases h with
  | idle _ _ hc => exact hs.finishing n _ _ _ _ _ _ ((hc n hop).symm.trans hcall)
  | ended | device | begin | stored | attached | submitted | settled | cancelled | publishedSome |
    storing | pinned | maintained | drained | sent | finishes | taken | unread | failed |
    unpublished | offered => cases hcall
  | completed | refused | published | rolledBack => exact absurd hcall hreturned
  | started hc h =>
    cases hcall
    obtain ⟨upload, hrow, rfl, rfl, -⟩ := startFinish_eq_finalizing h
    have hget := (uploadRow_eq_ok hrow).2.2.1
    refine ⟨hs.filed.issued _ _ hget,fun u hu => ?_,trivial⟩
    rw [hget] at hu
    rw [← Option.some.inj hu]
    exact ⟨rfl,rfl⟩
  | read hc h =>
    cases hcall
    obtain ⟨hissued, hmanifest, -⟩ := hs.finishing _ _ _ _ _ _ _ hc
    exact ⟨hissued,hmanifest,(readOn_for hs hc h).1⟩
  | sifted _ _ _ hk =>
    cases hcall
    cases hk

/-- The uploads of a later database are uploads of the earlier one, or have new ids. -/
def Descends (issued : List String) (db db' : Db) : Prop :=
  ∀ id ∈ issued, ∀ u', db'.uploads.get id = some u' → ∃ u, db.uploads.get id = some u ∧
    u'.hash = u.hash ∧ u'.size = u.size ∧ u'.device = u.device ∧ u'.expires = u.expires

/-- What an operation writes changes no manifest and keeps the uploads filed, wherever it stops. -/
theorem filed_along (hs : Filed s.issued s.disk.db) {op : Op} {o : Outcome} (h : Cases cr s op o) :
    Along Disk.apply (fun d => Filed (s.nextIssued op) d.db ∧ Descends s.issued s.disk.db d.db)
      s.disk o.writes := by
  have hissued : ∀ id ∈ s.issued, id ∈ s.nextIssued op := by
    intro id hid
    cases op with
    | beginUpload => exact List.mem_cons_of_mem _ hid
    | _ => exact hid
  have hfiled : Filed (s.nextIssued op) s.disk.db :=
    ⟨fun id u hu => hissued id (hs.issued id u hu),hs.recipes⟩
  have hframe : ∀ {db}, Frame s.disk.db db →
      Filed (s.nextIssued op) db ∧ Descends s.issued s.disk.db db :=
    fun hf => ⟨hfiled.frame hf,fun id _ => hf.uploads id⟩
  have hstart := hframe (.refl s.disk.db)
  by_cases hbegin : ∃ device manifest id, op = .beginUpload device manifest id
  · obtain ⟨device, manifest, id, rfl⟩ := hbegin
    rcases begin_writes h with hw | ⟨hfresh, db, hdb, hw⟩ <;> rw [hw]
    · exact along_nil.mpr hstart
    obtain ⟨hnone, -, rfl⟩ := beginUpload_eq_ok hdb
    refine along_cons.mpr ⟨hstart,along_nil.mpr ⟨⟨fun id' u hu => ?_,fun id' b hb => ?_⟩,
      fun id' hid' u hu => ?_⟩⟩
    · change (s.disk.db.uploads.insertOrIgnore id _).get id' = some u at hu
      rw [Table.get_insertOrIgnore] at hu
      split_ifs at hu with hid
      · rw [hid]
        exact List.mem_cons_self
      · exact hfiled.issued id' u hu
    · obtain ⟨u, recipe, hu, hrest⟩ := hs.recipes id' b hb
      exact ⟨u,recipe,Table.get_insertOrIgnore_of_get hu,hrest⟩
    · change (s.disk.db.uploads.insertOrIgnore id _).get id' = some u at hu
      have hne : id' ≠ id := fun he => hfresh (he ▸ hid')
      rw [Table.get_insertOrIgnore, if_neg hne] at hu
      exact ⟨u,hu,rfl,rfl,rfl,rfl⟩
  by_cases hattach : ∃ device id bytes, op = .attach device id bytes
  · obtain ⟨device, id, bytes, rfl⟩ := hattach
    rcases attach_writes h with hw | ⟨db, hdb, hw⟩ <;> rw [hw]
    · exact along_nil.mpr hstart
    obtain ⟨recipe, upload, hdecode, hu, hhash, hsize, ⟨-, rfl⟩ | ⟨hnone, -, -, -, held, -, -, rfl⟩⟩ :=
      attachUploadDelta_eq_ok hdb
    · exact along_cons.mpr ⟨hstart,along_nil.mpr hstart⟩
    have hstate := frame_setState { s.disk.db with
      uploadDeltaBases := held
      uploadDeltas := s.disk.db.uploadDeltas.insertOrIgnore id bytes
      uploadJobs := s.disk.db.uploadJobs.insertOrIgnore id ⟨0,false,none,0⟩ } id .queued
    refine along_cons.mpr ⟨hstart,along_nil.mpr ⟨Filed.frame ?_ hstate,
      fun id' _ => hstate.uploads id'⟩⟩
    refine ⟨hs.issued,fun id' b hb => ?_⟩
    change (s.disk.db.uploadDeltas.insertOrIgnore id bytes).get id' = some b at hb
    rw [Table.get_insertOrIgnore] at hb
    split_ifs at hb with hid
    · rw [hnone, Option.getD_none] at hb
      obtain rfl := Option.some.inj hb
      rw [hid]
      exact ⟨upload,recipe,hu,hdecode,hhash,hsize⟩
    · exact hs.recipes id' b hb
  · push Not at hbegin hattach
    exact (frame_along h hbegin hattach).imp fun d hf => hframe hf

/-- The calls stay honest whatever happens. -/
theorem Honest.exec (hs : Honest cr s) (e : Event) : Honest cr (s.exec cr e) := by
  cases e with
  | crash op k =>
    have hfiled := (filed_along hs.filed (@outcome_cases cr s op) k).1
    exact ⟨hfiled.frame (frame_reopened _),fun n c h => (by cases h),
      fun n caller device id digest size progress h => (by cases h)⟩
  | perform op =>
    have hcases : Cases cr s op _ := outcome_cases s op
    obtain ⟨hfiled, hdescends⟩ := (filed_along hs.filed hcases).finish
    refine ⟨hfiled,fun n c h => ?_,fun n caller device id digest size progress h => ?_⟩
    · rcases get_nextCalls h with h | ⟨hop, hcall⟩
      · exact hs.objects n c h
      · exact objects_of_cases hs hcases hop hcall
    · have hmanifest : id ∈ s.issued ∧
          (∀ u, s.disk.db.uploads.get id = some u → u.hash = digest ∧ u.size = size) ∧
          Progress.For digest size progress := by
        rcases get_nextCalls h with h | ⟨hop, hcall⟩
        · exact hs.finishing n _ _ _ _ _ _ h
        · exact finishing_of_cases hs hcases hop hcall
      obtain ⟨hissued, hsame, hfor⟩ := hmanifest
      refine ⟨?_,fun u' hu' => ?_,hfor⟩
      · cases op with
        | beginUpload => exact List.mem_cons_of_mem _ hissued
        | _ => exact hissued
      · obtain ⟨u, hu, hhash, hsize, -⟩ := hdescends id hissued u' hu'
        exact ⟨hhash.trans (hsame u hu).1,hsize.trans (hsame u hu).2⟩

theorem Reachable.honest {P : System → Event → Prop} (h : Reachable cr P s) : Honest cr s := by
  induction h with
  | create => exact honest_create
  | step _ _ ih => exact ih.exec _

/-! ### Bodies that came up -/

/-- Every body on the disk and in the calls is remembered. -/
structure Remembered (s : System) : Prop where
  disk : ∀ b ∈ bodies s.disk, b ∈ s.bodiesSeen
  calls : ∀ n c, s.calls.get n = some c → ∀ o ∈ c.objects, o.2 ∈ s.bodiesSeen

theorem Reachable.remembered {P : System → Event → Prop} (h : Reachable cr P s) :
    Remembered s := by
  induction h with
  | create => exact ⟨List.forall_mem_nil _,fun n c h => (by cases h)⟩
  | @step s e _ _ ih =>
    cases e with
    | crash op k =>
      refine ⟨fun b hb => ?_,fun n c h => (by cases h)⟩
      exact List.mem_append_left _ (List.mem_append_right _ hb)
    | perform op =>
      refine ⟨fun b hb => List.mem_append_left _ (List.mem_append_right _ hb),fun n c h o ho => ?_⟩
      rcases get_nextCalls h with h | ⟨-, hcall⟩
      · exact List.mem_append_left _ (List.mem_append_left _ (ih.calls n c h o ho))
      · refine List.mem_append_right _ ?_
        rw [hcall]
        exact List.mem_map_of_mem ho

/-- No two bodies have one hash. -/
def NoCollision (cr : Crates) (l : List Bytes) : Prop :=
  ∀ b ∈ l, ∀ b' ∈ l, hash cr b = hash cr b' → b = b'

lemma bodiesSeen_exec (s : System) (e : Event) : ∀ b ∈ s.bodiesSeen, b ∈ (s.exec cr e).bodiesSeen := by
  intro b hb
  cases e with
  | _ => exact List.mem_append_left _ (List.mem_append_left _ hb)

end System
end RisuNest.Transfer
