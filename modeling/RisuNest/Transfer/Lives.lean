import RisuNest.Transfer.Protocol
import RisuNest.Transfer.Requests

/-! The store lives the life of each upload: whatever an operation writes, and wherever it stops,
is a step of that life. -/
namespace RisuNest.Transfer
open Wire Server Db

/-- Where a call is on its way through `finish_upload`. -/
def Call.stage (id : String) : Call → Option Stage
  | .starting caller _ id' => if id' = id then some (.starting caller) else none
  | .finishing caller _ id' _ _ _ | .failing caller id' _ =>
    if id' = id then some (.holding caller) else none
  | .settling id' outcome =>
    if id' = id then some (.settling (outcome.map fun e => decide (e.status < 500))) else none
  | _ => none

/-- Whether a request finishes an upload by itself. -/
def Upload.small (u : Upload) : Bool := decide (u.size < 64*1024*1024)

/-- The life of an upload, from the tables and the calls. -/
def lifeOf (db : Db) (calls : ℕ → Option Call) (id : String) : Life where
  phase := (db.uploads.get id).map Upload.state
  job := (db.uploadJobs.get id).map Job.terminal
  recipe := db.uploadDeltas.contains id
  small := (db.uploads.get id).any Upload.small
  stage n := (calls n).bind (Call.stage id)

/-- Databases that agree on the life of every upload. -/
structure Db.Same (db db' : Db) : Prop where
  uploads : db'.uploads = db.uploads
  jobs : db'.uploadJobs = db.uploadJobs
  deltas : db'.uploadDeltas = db.uploadDeltas

lemma Db.Same.refl (db : Db) : Same db db := ⟨rfl,rfl,rfl⟩

lemma Db.Same.trans {db db' db'' : Db} (h : Same db db') (h' : Same db' db'') : Same db db'' :=
  ⟨h'.uploads.trans h.uploads,h'.jobs.trans h.jobs,h'.deltas.trans h.deltas⟩

lemma Db.Same.reopened {db db' : Db} (h : Same db db') : Same db.reopened db'.reopened := by
  refine ⟨?_,h.jobs,h.deltas⟩
  unfold Db.reopened
  dsimp only
  rw [h.uploads, h.jobs]

lemma Db.Same.life {db db' : Db} (h : Same db db') (calls : ℕ → Option Call) (id : String) :
    lifeOf db' calls id = lifeOf db calls id := by
  unfold lifeOf
  rw [h.uploads, h.jobs, h.deltas]

namespace Disk

lemma same_drainStagingTrash {only : Option String} {cursor : ℕ} {stuck : List (String × ℕ)}
    {db : Db} {d : Disk} (h : Same db d.db) :
    Along apply (fun d => Same db d.db) d (drainStagingTrash only cursor stuck d) :=
  along_drainStagingTrash (fun _ _ h _ _ => h) (fun _ _ _ _ => h.trans ⟨rfl,rfl,rfl⟩) h

lemma same_drainTrash {cursors : ℕ × ℕ} {stuckChunks : List (String × ℕ)}
    {stuckObjects : List String} {db : Db} {d : Disk} (h : Same db d.db) :
    Along apply (fun d => Same db d.db) d (drainTrash cursors stuckChunks stuckObjects d) := by
  refine (same_drainStagingTrash h).andThen fun h => ?_
  exact along_drainObjectTrash (fun _ _ h _ _ => h) (fun _ _ _ _ _ _ => h.trans ⟨rfl,rfl,rfl⟩) h

lemma same_reconcileOrphans {objectNames : List String} {chunkNames : List (String × ℕ)} {db : Db}
    {d : Disk} (h : Same db d.db) :
    Along apply (fun d => Same db d.db) d (reconcileOrphans objectNames chunkNames d) := by
  refine along_reconcileOrphans (fun d k hd => hd.trans ?_) (fun d k hd => hd.trans ?_) h _ _
  · change Same d.db (orphanObject d.db k)
    unfold orphanObject
    split_ifs <;> exact ⟨rfl,rfl,rfl⟩
  · change Same d.db (orphanChunk d.db k)
    unfold orphanChunk
    split_ifs <;> exact ⟨rfl,rfl,rfl⟩

lemma same_publications {l : List (String × Bytes)} {db : Db} {d : Disk} (h : Same db d.db) :
    Along apply (fun d => Same db d.db) d (l.map fun o => .publishObject o.1 o.2) := by
  refine along_of_kept h fun w hw d' h' => ?_
  obtain ⟨o, -, rfl⟩ := List.mem_map.mp hw
  exact h'

end Disk

namespace System
variable {cr : Crates} {s : System}

/-- The calls after an operation. -/
def callsAfter (s : System) (op : Op) (o : Outcome) (n : ℕ) : Option Call :=
  if op.call = some n then o.call else s.calls.get n

lemma get_nextCalls_eq (s : System) (op : Op) (n : ℕ) :
    (s.nextCalls cr op).get n = s.callsAfter op (s.outcome cr op) n := by
  unfold nextCalls callsAfter
  split
  · next h => rw [h, if_neg (by simp)]
  · next id h hcall =>
    rw [Table.get_erase, h, hcall]
    by_cases hn : n = id
    · rw [if_pos hn, if_pos (congrArg some hn.symm)]
    · rw [if_neg hn, if_neg fun h => hn (Option.some.inj h).symm]
  · next id call h hcall =>
    rw [Table.get_upsert, h, hcall]
    by_cases hn : n = id
    · rw [if_pos hn, if_pos (congrArg some hn.symm)]
    · rw [if_neg hn, if_neg fun h => hn (Option.some.inj h).symm]

def life (s : System) (id : String) : Life := lifeOf s.disk.db s.calls.get id

lemma stage_callsAfter {op : Op} {o : Outcome} {n : ℕ} (hop : op.call = some n) (id : String) :
    (fun m => (s.callsAfter op o m).bind (Call.stage id)) =
      Function.update (fun m => (s.calls.get m).bind (Call.stage id)) n
        (o.call.bind (Call.stage id)) := by
  funext m
  unfold callsAfter
  rw [Function.update_apply, hop]
  by_cases hm : m = n
  · rw [if_pos hm, if_pos (congrArg some hm.symm)]
  · rw [if_neg hm, if_neg fun h => hm (Option.some.inj h).symm]

lemma lifeOf_congr {db db' : Db} {calls calls' : ℕ → Option Call} {id : String}
    (hu : db'.uploads.get id = db.uploads.get id) (hj : db'.uploadJobs.get id = db.uploadJobs.get id)
    (hd : db'.uploadDeltas.get id = db.uploadDeltas.get id)
    (hs : ∀ n, (calls' n).bind (Call.stage id) = (calls n).bind (Call.stage id)) :
    lifeOf db' calls' id = lifeOf db calls id := by
  unfold lifeOf Table.contains
  rw [hu, hj, hd]
  congr 1
  funext n
  exact hs n

/-- What an operation writes comes to steps of each upload's life, made all at once. -/
def Lives (s : System) (op : Op) (o : Outcome) : Prop :=
  ∃ db, Along Disk.apply (fun d => Same s.disk.db d.db ∨ Same db d.db) s.disk o.writes ∧
    Same db (written Disk.apply s.disk o.writes).db ∧
    ∀ id, Relation.ReflTransGen Life.Step (s.life id) (lifeOf db (s.callsAfter op o) id)

lemma lives_quiet {op : Op} {o : Outcome}
    (hw : Along Disk.apply (fun d => Same s.disk.db d.db) s.disk o.writes)
    (hs : ∀ n, op.call = some n → ∀ id,
      o.call.bind (Call.stage id) = (s.calls.get n).bind (Call.stage id)) : Lives s op o := by
  refine ⟨s.disk.db,hw.imp fun _ h => .inl h,hw.finish,fun id => ?_⟩
  have heq : lifeOf s.disk.db (s.callsAfter op o) id = s.life id := by
    refine lifeOf_congr rfl rfl rfl fun n => ?_
    unfold callsAfter
    split_ifs with hop
    · exact hs n hop id
    · rfl
  rw [heq]

lemma lives_commit {op : Op} {o : Outcome} {db : Db} (id : String) (hw : o.writes = [.commit db])
    (ho : ∀ id', id' ≠ id → db.uploads.get id' = s.disk.db.uploads.get id' ∧
      db.uploadJobs.get id' = s.disk.db.uploadJobs.get id' ∧
      db.uploadDeltas.get id' = s.disk.db.uploadDeltas.get id')
    (hs : ∀ n, op.call = some n → ∀ id', id' ≠ id →
      o.call.bind (Call.stage id') = (s.calls.get n).bind (Call.stage id'))
    (hstep : Life.Step (s.life id) (lifeOf db (s.callsAfter op o) id)) : Lives s op o := by
  refine ⟨db,?_,?_,fun id' => ?_⟩
  · rw [hw]
    exact along_cons.mpr ⟨.inl (.refl _),along_nil.mpr (.inr (.refl _))⟩
  · rw [hw]
    exact .refl _
  by_cases hid : id' = id
  · rw [hid]
    exact .single hstep
  obtain ⟨hu, hj, hd⟩ := ho id' hid
  have heq : lifeOf db (s.callsAfter op o) id' = s.life id' := by
    refine lifeOf_congr hu hj hd fun n => ?_
    unfold callsAfter
    split_ifs with hop
    · exact hs n hop id' hid
    · rfl
  rw [heq]

lemma lives_call {op : Op} {o : Outcome} {n : ℕ} {id : String} {g : Option Stage}
    (hop : op.call = some n) (hw : o.writes = []) (hg : o.call.bind (Call.stage id) = g) (hs : ∀ id', id' ≠ id →
      o.call.bind (Call.stage id') = (s.calls.get n).bind (Call.stage id'))
    (hstep : Life.Step (s.life id) { s.life id with
      stage := Function.update (s.life id).stage n g }) : Lives s op o := by
  subst hg
  refine ⟨s.disk.db,?_,?_,fun id' => ?_⟩
  · rw [hw]
    exact along_nil.mpr (.inl (.refl _))
  · rw [hw]
    exact .refl _
  by_cases hid : id' = id
  · rw [hid]
    refine .single ?_
    have heq : lifeOf s.disk.db (s.callsAfter op o) id = { s.life id with
        stage := Function.update (s.life id).stage n (o.call.bind (Call.stage id)) } :=
      Life.ext rfl rfl rfl rfl (stage_callsAfter hop id)
    rw [heq]
    exact hstep
  · have heq : lifeOf s.disk.db (s.callsAfter op o) id' = s.life id' := by
      refine lifeOf_congr rfl rfl rfl fun m => ?_
      unfold callsAfter
      split_ifs with hm
      · obtain rfl := Option.some.inj (hop.symm.trans hm)
        exact hs id' hid
      · rfl
    rw [heq]

/-- A request starts to finish no upload that has a job. -/
def UnqueuedOp (s : System) (op : Op) : Prop :=
  ∀ n device id, op = .startFinish n → s.calls.get n = some (.starting .request device id) →
    s.disk.db.uploadJobs.get id = none

/-- The calls that finish an upload name an id that was issued. -/
def Called (s : System) : Prop :=
  ∀ n c id, s.calls.get n = some c → c.stage id ≠ none → id ∈ s.issued

lemma stage_sifting {c : Call} (h : c.sifting = true) (id : String) : c.stage id = none := by
  cases c with
  | placing | sorting | storing => rfl
  | _ => cases h

lemma returned_stage (writes : List Write) (caller : Caller) (id : String) (outcome : Option Error)
    (id' : String) : (Outcome.returned writes caller id outcome).call.bind (Call.stage id') =
      if id = id' then (match caller with
        | .request => none
        | .worker => some (.settling (outcome.map fun e => decide (e.status < 500)))) else none := by
  cases caller with
  | request => exact (ite_self _).symm
  | worker => rfl

lemma returned_writes (writes : List Write) (caller : Caller) (id : String)
    (outcome : Option Error) : (Outcome.returned writes caller id outcome).writes = writes := by
  cases caller <;> rfl

lemma get_life {id : String} {u : Upload} (h : s.disk.db.uploads.get id = some u) :
    (s.life id).phase = some u.state := congrArg (Option.map Upload.state) h

lemma stage_life {n : ℕ} {c : Call} (h : s.calls.get n = some c) (id : String) :
    (s.life id).stage n = c.stage id := congrArg (Option.bind · (Call.stage id)) h

lemma lives_begin (hc : Called s) (hsound : ∀ id, (s.life id).Sound)
    {device : Device} {manifest : Manifest} {id : String} {db : Db} (hfresh : id ∉ s.issued)
    (h : s.disk.db.beginUpload device manifest id s.clock = .ok db) :
    Lives s (.beginUpload device manifest id) ⟨[.commit db],none,none⟩ := by
  obtain ⟨hnone, -, rfl⟩ := beginUpload_eq_ok h
  have hphase : (s.life id).phase = none := congrArg (Option.map Upload.state) hnone
  have hjob : (s.life id).job = none := by
    by_contra hj
    exact (hsound id).job hj hphase
  have hrecipe : (s.life id).recipe = false := by
    by_contra hr
    rcases (hsound id).recipe (Bool.not_eq_false _ ▸ hr) with hp | hj
    · rw [hphase] at hp
      cases hp
    · exact hj hjob
  have hstage : ∀ n, (s.life id).stage n = none := by
    intro n
    cases hn : s.calls.get n with
    | none => exact congrArg (Option.bind · (Call.stage id)) hn
    | some c =>
      rw [stage_life hn]
      by_contra hstage
      exact hfresh (hc n c id hn hstage)
  refine lives_commit id rfl (fun id' hid => ?_) (fun n hop => by cases hop) ?_
  · refine ⟨?_,rfl,rfl⟩
    change (s.disk.db.uploads.insertOrIgnore id _).get id' = _
    rw [Table.get_insertOrIgnore, if_neg hid]
  · have hget : (s.disk.db.uploads.insertOrIgnore id
        ⟨device.id,manifest.hash,manifest.size,s.clock + 86400,.opened⟩).get id =
        some ⟨device.id,manifest.hash,manifest.size,s.clock + 86400,.opened⟩ := by
      rw [Table.get_insertOrIgnore, if_pos rfl, hnone, Option.getD_none]
    convert Life.Step.begun (Upload.small ⟨device.id,manifest.hash,manifest.size,s.clock + 86400,
      .opened⟩) hphase hjob hrecipe hstage using 1
    exact Life.ext (congrArg (Option.map Upload.state) hget) rfl rfl
      (congrArg (Option.any Upload.small) hget) rfl

lemma lives_attach {device : Device} {id : String} {bytes : Bytes} {db : Db}
    (h : s.disk.db.attachUploadDelta device id bytes s.clock = .ok db) :
    Lives s (.attach device id bytes) ⟨[.commit db],none,none⟩ := by
  obtain ⟨_, u, -, hu, -, -, ⟨-, rfl⟩ | ⟨hnone, hstate, -, hjob, held, -, -, rfl⟩⟩ :=
    attachUploadDelta_eq_ok h
  · exact lives_quiet (along_cons.mpr ⟨.refl _,along_nil.mpr (.refl _)⟩) fun n hop => by cases hop
  have hphase : (s.life id).phase = some .opened := by rw [get_life hu, hstate]
  have hnojob : (s.life id).job = none := congrArg (Option.map Job.terminal) hjob
  refine lives_commit id rfl (fun id' hid => ⟨?_,?_,?_⟩) (fun n hop => by cases hop) ?_
  · rw [get_setState]
    change (s.disk.db.uploads.get id').map _ = s.disk.db.uploads.get id'
    cases s.disk.db.uploads.get id' with
    | none => rfl
    | some u => rw [Option.map_some, if_neg hid]
  · exact (Table.get_insertOrIgnore _ _ _ _).trans (if_neg hid)
  · exact (Table.get_insertOrIgnore _ _ _ _).trans (if_neg hid)
  · convert Life.Step.attached hphase hnojob using 1
    have hupload := get_setState { s.disk.db with
      uploadDeltaBases := held
      uploadDeltas := s.disk.db.uploadDeltas.insertOrIgnore id bytes
      uploadJobs := s.disk.db.uploadJobs.insertOrIgnore id ⟨0,false,none,0⟩ } id .queued id
    change _ = (s.disk.db.uploads.get id).map _ at hupload
    rw [hu, Option.map_some, if_pos rfl] at hupload
    have hj : (s.disk.db.uploadJobs.insertOrIgnore id ⟨0,false,none,0⟩).get id =
        some ⟨0,false,none,0⟩ := by
      rw [Table.get_insertOrIgnore, if_pos rfl, hjob, Option.getD_none]
    refine Life.ext (congrArg (Option.map Upload.state) hupload)
      (congrArg (Option.map Job.terminal) hj) ?_ ?_ rfl
    · refine Table.contains_iff.mpr ⟨bytes,?_⟩
      change (s.disk.db.uploadDeltas.insertOrIgnore id bytes).get id = _
      rw [Table.get_insertOrIgnore, if_pos rfl, hnone, Option.getD_none]
    · refine (congrArg (Option.any Upload.small) hupload).trans ?_
      exact (congrArg (Option.any Upload.small) hu).symm

lemma small_life {id : String} {u : Upload} (h : s.disk.db.uploads.get id = some u) :
    (s.life id).small = u.small := congrArg (Option.any Upload.small) h

lemma lives_submit {call : ℕ} {device : Device} {id : String} {db : Db}
    (hfree : s.calls.get call = none)
    (h : s.disk.db.submitUpload device id s.clock = .ok (.accepted db)) :
    Lives s (.submit call device id) ⟨[.commit db],none,none⟩ := by
  have hstage : ∀ n, (Op.submit call device id).call = some n → ∀ id',
      (none : Option Call).bind (Call.stage id') = (s.calls.get n).bind (Call.stage id') := by
    intro n hop id'
    obtain rfl := Option.some.inj hop
    rw [hfree]
  obtain ⟨u, hu, hcomplete, hfailed, ⟨-, rfl⟩ | ⟨hdelta, hsize, -, rfl⟩⟩ :=
    submitUpload_eq_accepted h
  · exact lives_quiet (along_cons.mpr ⟨.refl _,along_nil.mpr (.refl _)⟩) hstage
  have hphase : (s.life id).phase = some .opened ∨ (s.life id).phase = some .queued ∨
      (s.life id).phase = some .finalizing := by
    rw [get_life hu]
    cases hs : u.state with
    | complete => exact absurd hs hcomplete
    | failed => exact absurd hs hfailed
    | _ => simp
  have hsmall : (s.life id).small = false := by
    rw [small_life hu]
    exact decide_eq_false (not_lt.mpr hsize)
  refine lives_commit id rfl (fun id' hid => ⟨?_,?_,rfl⟩) (fun n hop id' _ => hstage n hop id')
    ?_
  · rw [get_moveState]
    change (s.disk.db.uploads.get id').map _ = s.disk.db.uploads.get id'
    cases s.disk.db.uploads.get id' with
    | none => rfl
    | some u => rw [Option.map_some, if_neg fun h => hid h.1]
  · exact (Table.get_insertOrIgnore _ _ _ _).trans (if_neg hid)
  · convert Life.Step.submitted hphase hdelta hsmall using 1
    have hupload := get_moveState { s.disk.db with
      uploadJobs := s.disk.db.uploadJobs.insertOrIgnore id ⟨0,false,none,0⟩ } id .opened .queued id
    change _ = (s.disk.db.uploads.get id).map _ at hupload
    rw [hu, Option.map_some] at hupload
    have hjob : (s.disk.db.uploadJobs.insertOrIgnore id ⟨0,false,none,0⟩).get id =
        some ((s.disk.db.uploadJobs.get id).getD ⟨0,false,none,0⟩) := by
      rw [Table.get_insertOrIgnore, if_pos rfl]
    refine Life.ext ((congrArg (Option.map Upload.state) hupload).trans ?_)
      ((congrArg (Option.map Job.terminal) hjob).trans ?_) rfl ?_ ?_
    · rw [get_life hu, Option.map_some]
      by_cases hopened : u.state = .opened
      · simp [hopened]
      · simp [hopened]
    · change _ = some (((s.disk.db.uploadJobs.get id).map Job.terminal).getD false)
      cases s.disk.db.uploadJobs.get id <;> rfl
    · exact (congrArg (Option.any Upload.small) hupload).trans (congrArg (Option.any Upload.small) hu).symm
    · refine (stage_callsAfter rfl id).trans (Function.update_eq_self_iff.mpr ?_)
      exact hstage call rfl id

lemma stage_other {c : Call} {id id' : String} {g : Stage} (h : c.stage id = some g)
    (hid : id' ≠ id) : c.stage id' = none := by
  cases c <;> grind [Call.stage]

lemma lives_finish {call : ℕ} {device : Device} {id : String} (hfree : s.calls.get call = none)
    (h : s.disk.db.submitUpload device id s.clock = .ok .finish) :
    Lives s (.submit call device id) (.next (.starting .request device id)) := by
  obtain ⟨u, hu, hsize⟩ := submitUpload_eq_finish h
  have hsmall : (s.life id).small = true := (small_life hu).trans (decide_eq_true hsize)
  have hstage : (Call.starting .request device id).stage id = some (.starting .request) := if_pos rfl
  refine lives_call (n := call) rfl rfl hstage (fun id' hid => ?_)
    (.requested call (congrArg (Option.bind · (Call.stage id)) hfree) hsmall)
  rw [hfree]
  exact if_neg (Ne.symm hid)

lemma lives_take {call : ℕ} {id device : String} (hfree : s.calls.get call = none)
    (h : s.disk.db.pendingJob s.clock = some (id,device))
    (hw : ∀ n c, s.calls.get n = some c → c.working = false) :
    Lives s (.takeJob call) (.next (.starting .worker ⟨device,some libraryFormatMaxLevel⟩ id)) := by
  obtain ⟨job, u, hjob, hterminal, -, hu, -⟩ := pendingJob_eq_some h
  have hj : (s.life id).job = some false := by
    rw [← hterminal]
    exact congrArg (Option.map Job.terminal) hjob
  refine lives_call (n := call) rfl rfl (if_pos rfl) (fun id' hid => ?_) (.taken call hj ?_)
  · rw [hfree]
    exact if_neg (Ne.symm hid)
  · intro m g hg
    obtain ⟨c, hc, hstage⟩ := Option.bind_eq_some_iff.mp hg
    have := hw m c hc
    cases c <;> grind [Call.stage, Call.working, Stage.working]

lemma returned_other {n : ℕ} {c : Call} {writes : List Write} {caller : Caller} {id id' : String}
    {outcome : Option Error} {g : Stage} (hc : s.calls.get n = some c) (hg : c.stage id = some g)
    (hid : id' ≠ id) : (Outcome.returned writes caller id outcome).call.bind (Call.stage id') =
      (s.calls.get n).bind (Call.stage id') := by
  rw [returned_stage, if_neg (Ne.symm hid), hc]
  exact (stage_other hg hid).symm

lemma lives_complete {call : ℕ} {caller : Caller} {device : Device} {id digest : String}
    (hc : s.calls.get call = some (.starting caller device id))
    (h : s.disk.db.startFinish device id s.clock = .ok (.complete digest)) :
    Lives s (.startFinish call) (.returned [] caller id none) := by
  obtain ⟨u, hrow, hstate⟩ := startFinish_eq_complete h
  have hphase : (s.life id).phase = some .complete := by
    rw [get_life (uploadRow_eq_ok hrow).2.2.1, hstate]
  have hstage : (Call.starting caller device id).stage id = some (.starting caller) := if_pos rfl
  refine lives_call (n := call) rfl (returned_writes _ _ _ _)
    ((returned_stage _ _ _ _ _).trans (if_pos rfl))
    (fun id' hid => returned_other hc hstage hid) ?_
  exact .completed call caller ((stage_life hc id).trans hstage) hphase

lemma lives_start {call : ℕ} {caller : Caller} {device : Device} {id digest : String} {size : ℕ}
    {db : Db} (hfair : UnqueuedOp s (.startFinish call))
    (hc : s.calls.get call = some (.starting caller device id))
    (h : s.disk.db.startFinish device id s.clock = .ok (.finalizing digest size db)) :
    Lives s (.startFinish call)
      ⟨[.commit db],some (.finishing caller device id digest size .opened),none⟩ := by
  obtain ⟨u, hrow, -, -, hstate, -, rfl⟩ := startFinish_eq_finalizing h
  have hu := (uploadRow_eq_ok hrow).2.2.1
  have hstage : (Call.starting caller device id).stage id = some (.starting caller) := if_pos rfl
  refine lives_commit id rfl (fun id' hid => ⟨?_,rfl,rfl⟩) (fun n hop id' hid => ?_) ?_
  · rw [get_setState]
    cases s.disk.db.uploads.get id' with
    | none => rfl
    | some u => rw [Option.map_some, if_neg hid]
  · obtain rfl := Option.some.inj hop
    rw [hc]
    exact (if_neg (Ne.symm hid)).trans (stage_other hstage hid).symm
  have hphase : (s.life id).phase = some .opened ∨ (s.life id).phase = some .queued := by
    rw [get_life hu]
    rcases hstate with hstate | hstate <;> simp [hstate]
  have hjob : caller = .request → (s.life id).job = none := by
    rintro rfl
    exact congrArg (Option.map Job.terminal) (hfair call device id rfl hc)
  convert Life.Step.started call caller ((stage_life hc id).trans hstage) hphase hjob using 1
  have hupload := get_setState s.disk.db id .finalizing id
  rw [hu, Option.map_some, if_pos rfl] at hupload
  refine Life.ext (congrArg (Option.map Upload.state) hupload) rfl rfl
    ((congrArg (Option.any Upload.small) hupload).trans (congrArg (Option.any Upload.small) hu).symm)
    ((stage_callsAfter rfl id).trans ?_)
  exact congrArg (Function.update _ call) (if_pos rfl)

lemma lives_refuse {call : ℕ} {caller : Caller} {device : Device} {id : String} {e : Error}
    (hc : s.calls.get call = some (.starting caller device id))
    (h : s.disk.db.startFinish device id s.clock = .error e) :
    Lives s (.startFinish call) (.returned [] caller id (some e)) := by
  have hfinal : decide (e.status < 500) = true := decide_eq_true (status_of_startFinish h)
  have hstage : (Call.starting caller device id).stage id = some (.starting caller) := if_pos rfl
  refine lives_call (n := call) rfl (returned_writes _ _ _ _)
    ((returned_stage _ _ _ _ _).trans (if_pos rfl))
    (fun id' hid => returned_other hc hstage hid) ?_
  rw [Option.map_some, hfinal]
  exact .refused call caller ((stage_life hc id).trans hstage)

lemma lives_publish {call : ℕ} {caller : Caller} {device : Device} {id digest : String} {size : ℕ}
    {bytes : Bytes} {writes : List Write}
    (hc : s.calls.get call = some (.finishing caller device id digest size (.assembled bytes)))
    (h : s.disk.db.publishUpload cr device id digest size bytes s.clock = .ok writes) :
    Lives s (.publish call) (.returned writes caller id none) := by
  obtain ⟨u, small, hrow, -, -, -, hwrites⟩ := publishUpload_eq_ok h
  have hu := (uploadRow_eq_ok hrow).2.2.1
  have hstage : (Call.finishing caller device id digest size (.assembled bytes)).stage id =
      some (.holding caller) := if_pos rfl
  have hupload : ∀ id', (s.disk.db.setState id .complete).uploads.get id' =
      (s.disk.db.uploads.get id').map fun u =>
        { u with state := if id' = id then .complete else u.state } := get_setState _ _ _
  refine ⟨s.disk.db.setState id .complete,?_,?_,fun id' => ?_⟩
  · rw [returned_writes]
    rcases hwrites with ⟨-, rfl⟩ | ⟨-, rfl⟩
    · exact along_cons.mpr ⟨.inl (.refl _),along_nil.mpr (.inr ⟨rfl,rfl,rfl⟩)⟩
    · exact along_cons.mpr ⟨.inl (.refl _),along_cons.mpr ⟨.inl (.refl _),
        along_nil.mpr (.inr ⟨rfl,rfl,rfl⟩)⟩⟩
  · rw [returned_writes]
    rcases hwrites with ⟨-, rfl⟩ | ⟨-, rfl⟩
    · exact ⟨rfl,rfl,rfl⟩
    · exact ⟨rfl,rfl,rfl⟩
  by_cases hid : id' = id
  · rw [hid]
    refine .single ?_
    convert Life.Step.published call caller ((stage_life hc id).trans hstage) using 1
    have hthis := hupload id
    rw [hu, Option.map_some, if_pos rfl] at hthis
    refine Life.ext (congrArg (Option.map Upload.state) hthis) rfl rfl
      ((congrArg (Option.any Upload.small) hthis).trans (congrArg (Option.any Upload.small) hu).symm)
      ((stage_callsAfter rfl id).trans ?_)
    exact congrArg (Function.update _ call) ((returned_stage _ _ _ _ _).trans (if_pos rfl))
  · have heq : lifeOf (s.disk.db.setState id .complete)
        (s.callsAfter (.publish call) (.returned writes caller id none)) id' = s.life id' := by
      refine lifeOf_congr ?_ rfl rfl fun n => ?_
      · rw [hupload]
        cases s.disk.db.uploads.get id' with
        | none => rfl
        | some u => rw [Option.map_some, if_neg hid]
      · unfold callsAfter
        split_ifs with hop
        · obtain rfl := Option.some.inj hop
          exact returned_other hc hstage hid
        · rfl
    rw [heq]

lemma lives_rollBack {call : ℕ} {caller : Caller} {id : String} {e : Error}
    (hc : s.calls.get call = some (.failing caller id e)) :
    Lives s (.rollBack call)
      (.returned [.commit (s.disk.db.moveState id .finalizing .opened)] caller id (some e)) := by
  have hstage : (Call.failing caller id e).stage id = some (.holding caller) := if_pos rfl
  have hupload := get_moveState s.disk.db id .finalizing .opened
  refine lives_commit id (returned_writes _ _ _ _) (fun id' hid => ⟨?_,rfl,rfl⟩)
    (fun n hop id' hid => ?_) ?_
  · rw [hupload]
    cases s.disk.db.uploads.get id' with
    | none => rfl
    | some u => rw [Option.map_some, if_neg fun h => hid h.1]
  · obtain rfl := Option.some.inj hop
    exact returned_other hc hstage hid
  convert Life.Step.rolledBack call caller (decide (e.status < 500))
    ((stage_life hc id).trans hstage) using 1
  refine Life.ext ((congrArg (Option.map Upload.state) (hupload id)).trans ?_) rfl rfl
    ((congrArg (Option.any Upload.small) (hupload id)).trans ?_) ((stage_callsAfter rfl id).trans ?_)
  · change _ = if (s.disk.db.uploads.get id).map Upload.state = some .finalizing then some .opened
      else (s.disk.db.uploads.get id).map Upload.state
    cases s.disk.db.uploads.get id with
    | none => rfl
    | some u =>
      by_cases hs : u.state = .finalizing <;> simp [hs]
  · change _ = (s.disk.db.uploads.get id).any Upload.small
    cases s.disk.db.uploads.get id <;> rfl
  · exact congrArg (Function.update _ call) ((returned_stage _ _ _ _ _).trans (if_pos rfl))

@[simp] lemma get_settleJob_uploads (db : Db) (id : String) (e : Error) (now : ℤ) (id' : String) :
    (db.settleJob id (some e) now).uploads.get id' = (db.uploads.get id').map fun u =>
      { u with state := if id' = id then (if e.status < 500 then .failed else .queued)
        else u.state } := by
  refine (get_setState _ _ _ _).trans (congrArg (Option.map · _) (funext fun u => ?_))
  by_cases he : e.status < 500 <;> simp [he]

@[simp] lemma get_settleJob_jobs (db : Db) (id : String) (e : Error) (now : ℤ) (id' : String) :
    (db.settleJob id (some e) now).uploadJobs.get id' = (db.uploadJobs.get id').map fun job =>
      if id' = id then ⟨now + min (2^(min job.attempts 9)) 300,decide (e.status < 500),some e.code,
        job.attempts + 1⟩ else job :=
  Table.get_mapValues _ _ _

lemma lives_settle {call : ℕ} {id : String} {outcome : Option Error}
    (hc : s.calls.get call = some (.settling id outcome)) :
    Lives s (.settle call) ⟨[.commit (s.disk.db.settleJob id outcome s.clock)],none,none⟩ := by
  have hstage : (Call.settling id outcome).stage id =
      some (.settling (outcome.map fun e => decide (e.status < 500))) := if_pos rfl
  have hother : ∀ n, (Op.settle call).call = some n → ∀ id', id' ≠ id →
      (none : Option Call).bind (Call.stage id') = (s.calls.get n).bind (Call.stage id') := by
    intro n hop id' hid
    obtain rfl := Option.some.inj hop
    rw [hc]
    exact (stage_other hstage hid).symm
  cases outcome with
  | none =>
    refine lives_commit id rfl (fun id' hid => ⟨rfl,?_,rfl⟩) hother ?_
    · exact (Table.get_erase _ _ _).trans (if_neg hid)
    convert Life.Step.finished call ((stage_life hc id).trans hstage) using 1
    refine Life.ext rfl ?_ rfl rfl (stage_callsAfter rfl id)
    exact congrArg (Option.map Job.terminal) ((Table.get_erase _ _ _).trans (if_pos rfl))
  | some e =>
    have hupload := get_settleJob_uploads s.disk.db id e s.clock
    have hjob := get_settleJob_jobs s.disk.db id e s.clock
    refine lives_commit id rfl (fun id' hid => ⟨?_,?_,rfl⟩) hother ?_
    · rw [hupload]
      cases s.disk.db.uploads.get id' with
      | none => rfl
      | some u => rw [Option.map_some, if_neg hid]
    · rw [hjob]
      cases s.disk.db.uploadJobs.get id' with
      | none => rfl
      | some job => rw [Option.map_some, if_neg hid]
    convert Life.Step.recorded call (decide (e.status < 500))
      ((stage_life hc id).trans hstage) using 1
    refine Life.ext ((congrArg (Option.map Upload.state) (hupload id)).trans ?_)
      ((congrArg (Option.map Job.terminal) (hjob id)).trans ?_) rfl
      ((congrArg (Option.any Upload.small) (hupload id)).trans ?_) (stage_callsAfter rfl id)
    · change _ = ((s.disk.db.uploads.get id).map Upload.state).map fun _ => _
      cases s.disk.db.uploads.get id <;> simp
    · change _ = ((s.disk.db.uploadJobs.get id).map Job.terminal).map fun _ => _
      cases s.disk.db.uploadJobs.get id <;> simp
    · change _ = (s.disk.db.uploads.get id).any Upload.small
      cases s.disk.db.uploads.get id <;> rfl

/-- Whether a statement deletes an upload. -/
def gone (db : Db) (p : String → Upload → Bool) (id : String) : Bool := (db.uploads.get id).any (p id)

lemma lifeOf_deleteUploads (db : Db) (p : String → Upload → Bool) (calls : ℕ → Option Call)
    (id : String) : lifeOf (db.deleteUploads p) calls id =
      if gone db p id then { lifeOf db calls id with
        phase := none
        job := none
        recipe := false
        small := false } else lifeOf db calls id := by
  have hu : (db.deleteUploads p).uploads.get id = if gone db p id then none else
      db.uploads.get id := by
    refine (Table.get_deleteWhere _ _ _).trans ?_
    unfold gone
    cases db.uploads.get id with
    | none => simp
    | some u => by_cases hp : p id u = true <;> simp [hp]
  have hj : (db.deleteUploads p).uploadJobs.get id = if gone db p id then none else
      db.uploadJobs.get id := by
    refine (Table.get_deleteWhere _ _ _).trans ?_
    change Option.filter (fun _ => !gone db p id) _ = _
    cases gone db p id <;> cases db.uploadJobs.get id <;> simp
  have hd : (db.deleteUploads p).uploadDeltas.get id = if gone db p id then none else
      db.uploadDeltas.get id := by
    refine (Table.get_deleteWhere _ _ _).trans ?_
    change Option.filter (fun _ => !gone db p id) _ = _
    cases gone db p id <;> cases db.uploadDeltas.get id <;> simp
  unfold lifeOf Table.contains
  rw [hu, hj, hd]
  split_ifs <;> rfl

lemma steps_deleteUploads {db : Db} {p : String → Upload → Bool} {calls : ℕ → Option Call}
    {id : String} (hp : ∀ u, db.uploads.get id = some u → p id u = true → u.state ≠ .finalizing) :
    Relation.ReflTransGen Life.Step (lifeOf db calls id) (lifeOf (db.deleteUploads p) calls id) := by
  rw [lifeOf_deleteUploads]
  split_ifs with hgone
  · refine .single (.dropped false ?_)
    obtain ⟨u, hu, hpu⟩ := (Option.any_eq_true _ _).mp hgone
    intro hphase
    change (db.uploads.get id).map Upload.state = _ at hphase
    rw [hu] at hphase
    exact hp u hu hpu (Option.some.inj hphase)
  · exact .refl

lemma lives_cancel {device : Device} {id : String} {stuck : List (String × ℕ)} {db : Db}
    (h : s.disk.db.cancelled device id s.clock = .ok db) :
    Lives s (.cancel device id stuck) ⟨andThen Disk.apply (fun _ => [.commit db])
      (drainStagingTrash (some id) 0 stuck) s.disk,none,none⟩ := by
  obtain ⟨u, hu, hown, hstate, hdb⟩ := cancelled_eq_ok h
  have hdrain : Along Disk.apply (fun d => Same db d.db) (written Disk.apply s.disk [.commit db])
      (drainStagingTrash (some id) 0 stuck (written Disk.apply s.disk [.commit db])) :=
    Disk.same_drainStagingTrash (.refl _)
  have hcommit : Along Disk.apply (fun d => Same s.disk.db d.db ∨ Same db d.db) s.disk
      [.commit db] := along_cons.mpr ⟨.inl (.refl _),along_nil.mpr (.inr (.refl _))⟩
  refine ⟨db,?_,?_,fun id' => ?_⟩
  · dsimp only
    exact Along.andThen hcommit fun _ => hdrain.imp fun _ h => .inr h
  · change Same db (written Disk.apply s.disk (_ ++ _)).db
    rw [written_append]
    exact hdrain.finish
  · rw [hdb]
    refine steps_deleteUploads fun u' hu' hp => ?_
    obtain ⟨rfl, -⟩ := of_decide_eq_true hp
    obtain rfl := Option.some.inj (hu.symm.trans hu')
    exact hstate

lemma lives_maintain {clock : ℤ} {held alive objectNames : List String}
    {chunkNames : List (String × ℕ)} {stuckChunks : List (String × ℕ)}
    {stuckObjects : List String} :
    Lives s (.maintain clock held alive objectNames chunkNames stuckChunks stuckObjects)
      ⟨andThen Disk.apply (fun d => [.commit (d.db.maintained s.clock clock held alive)])
        (andThen Disk.apply (reconcileOrphans objectNames chunkNames)
          (drainTrash s.cursors stuckChunks stuckObjects)) s.disk,none,none⟩ := by
  let db := s.disk.db.maintained s.clock clock held alive
  have hrest : Along Disk.apply (fun d => Same db d.db) (written Disk.apply s.disk [.commit db])
      (andThen Disk.apply (reconcileOrphans objectNames chunkNames)
        (drainTrash s.cursors stuckChunks stuckObjects)
        (written Disk.apply s.disk [.commit db])) := by
    refine Along.andThen ?_ fun h => Disk.same_drainTrash h
    exact Disk.same_reconcileOrphans (.refl _)
  have hcommit : Along Disk.apply (fun d => Same s.disk.db d.db ∨ Same db d.db) s.disk
      [.commit db] := along_cons.mpr ⟨.inl (.refl _),along_nil.mpr (.inr (.refl _))⟩
  refine ⟨db,?_,?_,fun id => ?_⟩
  · dsimp only
    exact Along.andThen hcommit fun _ => hrest.imp fun _ h => .inr h
  · change Same db (written Disk.apply s.disk (_ ++ _)).db
    rw [written_append]
    exact hrest.finish
  let done (id : String) := (s.disk.db.uploads.get id).any fun u => decide (u.state = .complete)
  let swept : Db := { s.disk.db with
    uploadDeltas := s.disk.db.uploadDeltas.deleteWhere fun id _ => done id }
  -- the recipe of a complete upload goes first, then the uploads that have run out
  have hswept : Relation.ReflTransGen Life.Step (s.life id) (lifeOf swept s.calls.get id) := by
    have hdelta : swept.uploadDeltas.contains id =
        if done id then false else s.disk.db.uploadDeltas.contains id := by
      unfold Table.contains
      rw [show swept.uploadDeltas.get id = _ from Table.get_deleteWhere _ _ _]
      cases done id <;> cases s.disk.db.uploadDeltas.get id <;> simp
    by_cases hdone : done id = true
    · rw [if_pos hdone] at hdelta
      obtain ⟨u, hu, hstate⟩ := (Option.any_eq_true _ _).mp hdone
      have hphase : (s.life id).phase = some .complete := by
        rw [get_life hu, of_decide_eq_true hstate]
      refine .single ?_
      convert Life.Step.cleared hphase using 1
      exact Life.ext rfl rfl hdelta rfl rfl
    · rw [if_neg hdone] at hdelta
      rw [show lifeOf swept s.calls.get id = s.life id from Life.ext rfl rfl hdelta rfl rfl]
  refine hswept.trans ?_
  have hsame : Same (swept.deleteUploads fun _ u => s.disk.db.dropped s.clock u) db := ⟨rfl,rfl,rfl⟩
  change Relation.ReflTransGen Life.Step _ (lifeOf db s.calls.get id)
  rw [hsame.life]
  refine steps_deleteUploads fun u _ hp => ?_
  exact of_decide_eq_true (Bool.and_eq_true_iff.mp hp).1

/-- Whatever an operation writes comes to steps of each upload's life. -/
theorem lives_of_cases (hc : Called s) (hsound : ∀ id, (s.life id).Sound) {op : Op} {o : Outcome}
    (h : Cases cr s op o) (hfair : UnqueuedOp s op) : Lives s op o := by
  have hnil : Along Disk.apply (fun d => Same s.disk.db d.db) s.disk [] := along_nil.mpr (.refl _)
  have hone : ∀ {db}, Same s.disk.db db →
      Along Disk.apply (fun d => Same s.disk.db d.db) s.disk [.commit db] :=
    fun h => along_cons.mpr ⟨.refl _,along_nil.mpr h⟩
  cases h with
  | idle hw _ hcall =>
    refine lives_quiet (hw ▸ hnil) fun n hop id => ?_
    rw [hcall n hop]
  | ended hop hget hk =>
    refine lives_quiet hnil fun n hop' id => ?_
    obtain rfl := Option.some.inj (hop.symm.trans hop')
    rw [hget]
    rcases hk with hk | ⟨_, _, _, _, _, rfl⟩
    · exact (stage_sifting hk id).symm
    · rfl
  | device hop =>
    refine lives_quiet (hone ⟨rfl,rfl,rfl⟩) fun n hop' id => ?_
    rcases hop with ⟨_, rfl⟩ | ⟨_, rfl⟩ | ⟨_, rfl⟩ <;> cases hop'
  | begin hfresh h => exact lives_begin hc hsound hfresh h
  | sent hfree =>
    refine lives_quiet hnil fun n hop id => ?_
    obtain rfl := Option.some.inj hop
    rw [hfree]
    rfl
  | stored hget h =>
    obtain ⟨_, -, -, ⟨_, -, -, rfl⟩ | ⟨-, rfl⟩⟩ := publishChunk_eq_ok h
    · refine lives_quiet hnil fun n hop id => ?_
      obtain rfl := Option.some.inj hop
      rw [hget]
      rfl
    · refine lives_quiet (along_cons.mpr ⟨.refl _,along_cons.mpr ⟨.refl _,
        along_nil.mpr ⟨rfl,rfl,rfl⟩⟩⟩) fun n hop id => ?_
      obtain rfl := Option.some.inj hop
      rw [hget]
      rfl
  | attached h => exact lives_attach h
  | submitted hfree h => exact lives_submit hfree h
  | finishes hfree h => exact lives_finish hfree h
  | taken hfree h hw => exact lives_take hfree h hw
  | completed hget h => exact lives_complete hget h
  | started hget h => exact lives_start hfair hget h
  | refused hget h => exact lives_refuse hget h
  | read hget h =>
    refine lives_quiet hnil fun n hop id => ?_
    obtain rfl := Option.some.inj hop
    rw [hget]
    rfl
  | unread hget h =>
    refine lives_quiet hnil fun n hop id => ?_
    obtain rfl := Option.some.inj hop
    rw [hget]
    rfl
  | failed hget =>
    refine lives_quiet hnil fun n hop id => ?_
    obtain rfl := Option.some.inj hop
    rw [hget]
    rfl
  | published hget h => exact lives_publish hget h
  | unpublished hget h =>
    refine lives_quiet hnil fun n hop id => ?_
    obtain rfl := Option.some.inj hop
    rw [hget]
    rfl
  | rolledBack hget => exact lives_rollBack hget
  | settled hget => exact lives_settle hget
  | cancelled h => exact lives_cancel h
  | offered hop hfree =>
    refine lives_quiet hnil fun n hop' id => ?_
    obtain rfl := Option.some.inj (hop.symm.trans hop')
    rw [hfree]
    rfl
  | sifted hop hget hk hk' =>
    refine lives_quiet hnil fun n hop' id => ?_
    obtain rfl := Option.some.inj (hop.symm.trans hop')
    rw [hget]
    exact (stage_sifting hk' id).trans (stage_sifting hk id).symm
  | publishedSome hget =>
    refine lives_quiet (Disk.same_publications (.refl _)) fun n hop id => ?_
    obtain rfl := Option.some.inj hop
    rw [hget]
    rfl
  | @storing call device inline filed hget =>
    have hpublished := Disk.same_publications (l := filed) (.refl s.disk.db)
    refine lives_quiet (along_append.mpr ⟨hpublished,?_⟩) fun n hop id => ?_
    · cases hs : s.disk.db.storeObjects cr device inline filed s.clock with
      | error e => exact along_nil.mpr hpublished.finish
      | ok db =>
        obtain ⟨objects, small, leases, rfl, -⟩ := storeObjects_eq_ok hs
        exact along_cons.mpr ⟨hpublished.finish,along_nil.mpr ⟨rfl,rfl,rfl⟩⟩
    · obtain rfl := Option.some.inj hop
      rw [hget]
      rfl
  | pinned h =>
    obtain ⟨leases, hframe, -⟩ := pinned_frame s.disk.db _ _ _
    rw [pinObjects_eq_ok h, hframe]
    exact lives_quiet (hone ⟨rfl,rfl,rfl⟩) fun n hop => by cases hop
  | maintained => exact lives_maintain
  | drained => exact lives_quiet (Disk.same_drainTrash (.refl _)) fun n hop => by cases hop

/-! ### Runs -/

lemma returned_call {writes : List Write} {caller : Caller} {id : String} {outcome : Option Error}
    {c : Call} (h : (Outcome.returned writes caller id outcome).call = some c) :
    c = .settling id outcome := by
  cases caller with
  | request => cases h
  | worker => exact (Option.some.inj h).symm

lemma stage_of_cases {op : Op} {o : Outcome} (h : Cases cr s op o) {n : ℕ} {c : Call} {id : String}
    (hop : op.call = some n) (hcall : o.call = some c) (hstage : c.stage id ≠ none) :
    (∃ c', s.calls.get n = some c' ∧ c'.stage id ≠ none) ∨
      ∃ u, s.disk.db.uploads.get id = some u := by
  have hid : ∀ {g : Stage} {id' : String}, (if id' = id then some g else none) ≠ none → id' = id := by
    intro g id' h
    by_contra hne
    exact h (if_neg hne)
  cases h with
  | idle _ _ hc => exact .inl ⟨c,(hc n hop).symm.trans hcall,hstage⟩
  | ended | device | begin | stored | attached | submitted | settled | cancelled | publishedSome |
    storing | pinned | maintained | drained => cases hcall
  | sent | offered =>
    obtain rfl := Option.some.inj hcall
    exact absurd rfl hstage
  | sifted _ _ _ hk' =>
    obtain rfl := Option.some.inj hcall
    exact absurd (stage_sifting hk' id) hstage
  | finishes _ h =>
    obtain rfl := Option.some.inj hcall
    obtain rfl := hid hstage
    obtain ⟨u, hu, -⟩ := submitUpload_eq_finish h
    exact .inr ⟨u,hu⟩
  | taken _ h =>
    obtain rfl := Option.some.inj hcall
    obtain rfl := hid hstage
    obtain ⟨_, u, -, -, -, hu, -⟩ := pendingJob_eq_some h
    exact .inr ⟨u,hu⟩
  | completed hc | refused hc | published hc | rolledBack hc =>
    obtain rfl := Option.some.inj hop
    obtain rfl := returned_call hcall
    obtain rfl := hid hstage
    exact .inl ⟨_,hc,fun h => Option.some_ne_none _ ((if_pos rfl).symm.trans h)⟩
  | started hc | read hc | unread hc | failed hc | unpublished hc =>
    obtain rfl := Option.some.inj hop
    obtain rfl := Option.some.inj hcall
    obtain rfl := hid hstage
    exact .inl ⟨_,hc,fun h => Option.some_ne_none _ ((if_pos rfl).symm.trans h)⟩

lemma issued_exec (s : System) (e : Event) : ∀ id ∈ s.issued, id ∈ (s.exec cr e).issued := by
  have hop : ∀ op, ∀ id ∈ s.issued, id ∈ s.nextIssued op := by
    intro op id hid
    cases op with
    | beginUpload => exact List.mem_cons_of_mem _ hid
    | _ => exact hid
  cases e with
  | perform op => exact hop op
  | crash op k => exact hop op

theorem Called.exec (hc : Called s) (hh : Honest cr s) (e : Event) : Called (s.exec cr e) := by
  cases e with
  | crash op k => exact fun n c id h => by cases h
  | perform op =>
    intro n c id h hstage
    refine issued_exec s (.perform op) id ?_
    rcases get_nextCalls h with h | ⟨hop, hcall⟩
    · exact hc n c id h hstage
    rcases stage_of_cases (@outcome_cases cr s op) hop hcall hstage with ⟨c', hc', hs'⟩ | ⟨u, hu⟩
    · exact hc n c' id hc' hs'
    · exact hh.filed.issued id u hu

theorem Reachable.called {P : System → Event → Prop} (h : Reachable cr P s) : Called s := by
  induction h with
  | create => exact fun n c id h => by cases h
  | step h _ ih => exact ih.exec h.honest _

/-- A request starts to finish no upload that has a job. -/
def Unqueued (s : System) : Event → Prop
  | .perform op => UnqueuedOp s op
  | .crash op _ => UnqueuedOp s op

lemma step_reopened (db : Db) (calls : ℕ → Option Call) (id : String) :
    Life.Step (lifeOf db calls id) (lifeOf db.reopened (Table.get (.empty)) id) := by
  have hupload := get_reopened db id
  convert Life.Step.stopped (l := lifeOf db calls id) using 1
  refine Life.ext ((congrArg (Option.map Upload.state) hupload).trans ?_) rfl rfl
    ((congrArg (Option.any Upload.small) hupload).trans ?_) rfl
  · change _ = if (db.uploads.get id).map Upload.state = some .finalizing then
      some (if ((db.uploadJobs.get id).map Job.terminal).isSome then .queued else .opened)
      else (db.uploads.get id).map Upload.state
    unfold Table.contains
    cases db.uploads.get id with
    | none => rfl
    | some u =>
      by_cases hs : u.state = .finalizing <;> simp [hs]
  · change _ = (db.uploads.get id).any Upload.small
    cases db.uploads.get id <;> rfl

/-- Whatever happens is a number of steps in the life of each upload. -/
theorem life_exec (hc : Called s) (hsound : ∀ id, (s.life id).Sound) {e : Event}
    (he : Unqueued s e) (id : String) :
    Relation.ReflTransGen Life.Step (s.life id) ((s.exec cr e).life id) := by
  cases e with
  | perform op =>
    obtain ⟨db, -, hdb, hsteps⟩ := lives_of_cases hc hsound (@outcome_cases cr s op) he
    have heq : (s.exec cr (.perform op)).life id = lifeOf db (s.callsAfter op (s.outcome cr op)) id := by
      refine (hdb.life _ id).trans (congrArg (lifeOf db · id) ?_)
      exact funext fun n => get_nextCalls_eq s op n
    rw [heq]
    exact hsteps id
  | crash op k =>
    obtain ⟨db, halong, -, hsteps⟩ := lives_of_cases hc hsound (@outcome_cases cr s op) he
    have hcut : ∀ {db'}, Same db' (written Disk.apply s.disk ((s.outcome cr op).writes.take k)).db →
        (s.exec cr (.crash op k)).life id = lifeOf db'.reopened (Table.get .empty) id := by
      intro db' h
      exact h.reopened.life _ id
    rcases halong k with h | h
    · rw [hcut h]
      exact .single (step_reopened _ _ _)
    · rw [hcut h]
      exact (hsteps id).tail (step_reopened _ _ _)

lemma sound_create (id : String) : (create.life id).Sound := by
  constructor <;> intros <;> simp_all [life, lifeOf, create, Db.create, Table.contains]

theorem Reachable.lives {P : System → Event → Prop} (hP : ∀ s e, P s e → Unqueued s e)
    (h : Reachable cr P s) (id : String) : (s.life id).Sound := by
  induction h generalizing id with
  | create => exact sound_create id
  | step h he ih => exact (ih id).steps (life_exec h.called ih (hP _ _ he) id)

end System
end RisuNest.Transfer
