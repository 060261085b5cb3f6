import RisuNest.Transfer.Jobs

/-! An upload that matches its manifest is completed before its time runs out, whatever happened to
it before. -/
namespace RisuNest.Transfer
open Wire Server Db

namespace Db

lemma Touched.row {db db' : Db} {id k : String} {device : Device} {now : ℤ} {u : Upload}
    (h : Touched db db' k) (hrow : db.uploadRow device id now = .ok u) :
    ∃ state, db'.uploadRow device id now = .ok { u with state := state } ∧
      (id ≠ k → state = u.state) := by
  obtain ⟨hid, hdevice, hu, hown, hnow⟩ := uploadRow_eq_ok hrow
  obtain ⟨state, hu', hstate⟩ := h.uploads id u hu
  refine ⟨state,uploadRow_of_get hid ?_ hu' hown hnow,hstate⟩
  unfold requireDevice at hdevice ⊢
  rw [h.devices, h.level]
  exact hdevice

lemma startFinish_of_opened {db : Db} {device : Device} {id : String} {now : ℤ} {u : Upload}
    (hrow : db.uploadRow device id now = .ok u) (hstate : u.state = .opened)
    (hcount : db.chunkCount id = divCeil u.size uploadChunkBytes) :
    db.startFinish device id now =
      .ok (.finalizing u.hash u.size (db.setState id .finalizing)) := by
  refine bind_eq_ok.mpr ⟨u,hrow,?_⟩
  rw [if_neg (by rw [hstate]; decide)]
  exact bind_eq_ok.mpr ⟨(),require_eq_ok.mpr (.inl hstate),
    bind_eq_ok.mpr ⟨(),require_eq_ok.mpr (.inr hcount),rfl⟩⟩

lemma submitUpload_of_opened {db : Db} {device : Device} {id : String} {now : ℤ} {u : Upload}
    (hrow : db.uploadRow device id now = .ok u) (hstate : u.state = .opened)
    (hnone : db.uploadDeltas.contains id = false)
    (hcount : db.chunkCount id = divCeil u.size uploadChunkBytes) :
    db.submitUpload device id now = if u.size < 64*1024*1024 then .ok .finish
      else .ok (.accepted (moveState { db with
        uploadJobs := db.uploadJobs.insertOrIgnore id ⟨0,false,none,0⟩ } id .opened .queued)) := by
  split_ifs with hsmall
  all_goals
    refine bind_eq_ok.mpr ⟨u,hrow,?_⟩
    rw [if_neg (by rw [hstate]; decide)]
    refine bind_eq_ok.mpr ⟨(),require_eq_ok.mpr (by rw [hstate]; decide),?_⟩
    rw [if_neg (by rw [hnone]; decide)]
  · rw [if_pos hsmall]
    rfl
  · rw [if_neg hsmall]
    exact bind_eq_ok.mpr ⟨(),require_eq_ok.mpr hcount,rfl⟩

/-- The uploads whose jobs are due. -/
def dueIds (db : Db) (now : ℤ) : Finset String :=
  ((db.uploadJobs.rows.filter fun r => !r.2.terminal && decide (r.2.retryAfter ≤ now) &&
    db.uploads.contains r.1).map Prod.fst).toFinset

lemma mem_dueIds {db : Db} {now : ℤ} {id : String} : id ∈ db.dueIds now ↔
    ∃ job, db.uploadJobs.get id = some job ∧ job.terminal = false ∧ job.retryAfter ≤ now ∧
      ∃ u, db.uploads.get id = some u := by
  unfold dueIds
  rw [List.mem_toFinset, List.mem_map]
  constructor
  · rintro ⟨⟨id', job⟩, hmem, rfl⟩
    obtain ⟨hrow, hdue⟩ := List.mem_filter.mp hmem
    simp only [Bool.and_eq_true, Bool.not_eq_true', decide_eq_true_eq] at hdue
    exact ⟨job,Table.get_eq_some.mpr hrow,hdue.1.1,hdue.1.2,Table.contains_iff.mp hdue.2⟩
  · rintro ⟨job, hjob, hterminal, hdue, hu⟩
    refine ⟨(id,job),List.mem_filter.mpr ⟨Table.get_eq_some.mp hjob,?_⟩,rfl⟩
    simp only [Bool.and_eq_true, Bool.not_eq_true', decide_eq_true_eq]
    exact ⟨⟨hterminal,hdue⟩,Table.contains_iff.mpr hu⟩

lemma earliest_cons (job : String × Job) (rest : List (String × Job)) :
    ∃ first, earliest (job :: rest) = some first := by
  unfold earliest
  split
  · exact ⟨_,rfl⟩
  · split_ifs
    · exact ⟨_,rfl⟩
    · exact ⟨_,rfl⟩

lemma pendingJob_of_due {db : Db} {now : ℤ} {id : String} (h : id ∈ db.dueIds now) :
    ∃ k owner, db.pendingJob now = some (k,owner) := by
  obtain ⟨job, hjob, hterminal, hdue, hu⟩ := mem_dueIds.mp h
  have hmem : (id,job) ∈ db.uploadJobs.rows.filter fun r =>
      !r.2.terminal && decide (r.2.retryAfter ≤ now) && db.uploads.contains r.1 := by
    refine List.mem_filter.mpr ⟨Table.get_eq_some.mp hjob,?_⟩
    simp only [Bool.and_eq_true, Bool.not_eq_true', decide_eq_true_eq]
    exact ⟨⟨hterminal,hdue⟩,Table.contains_iff.mpr hu⟩
  obtain ⟨first, hfirst⟩ : ∃ first, earliest (db.uploadJobs.rows.filter fun r =>
      !r.2.terminal && decide (r.2.retryAfter ≤ now) && db.uploads.contains r.1) = some first := by
    cases hl : db.uploadJobs.rows.filter fun r =>
        !r.2.terminal && decide (r.2.retryAfter ≤ now) && db.uploads.contains r.1 with
    | nil =>
      rw [hl] at hmem
      cases hmem
    | cons a l => exact earliest_cons a l
  have hthere := (List.mem_filter.mp (earliest_mem hfirst)).2
  simp only [Bool.and_eq_true] at hthere
  obtain ⟨u, hu⟩ := Table.contains_iff.mp hthere.2
  refine ⟨first.1,u.device,?_⟩
  unfold pendingJob
  dsimp only
  rw [hfirst]
  change ((db.uploads.get first.1).bind fun upload => some (first.1,upload.device)) = _
  rw [hu]
  rfl

end Db

namespace System
variable {cr : Crates} {now : ℤ} {s t : System}

lemma Fits.of_same {id : String} {u : Upload} (h : Fits cr s id u)
    (hdeltas : t.disk.db.uploadDeltas = s.disk.db.uploadDeltas)
    (hchunks : t.disk.db.uploadChunks = s.disk.db.uploadChunks)
    (hseen : ∀ b ∈ s.bodiesSeen, b ∈ t.bodiesSeen) : Fits cr t id u := by
  have hnames : ∀ {b digest}, Names cr s b digest → Names cr t b digest :=
    fun h => ⟨h.1,hseen _ h.2⟩
  unfold Fits at h ⊢
  rw [hdeltas]
  split at h
  · obtain ⟨recipe, found, bytes, hdecode, hsources, happly⟩ := h
    exact ⟨recipe,found,bytes,hdecode,hsources.imp fun _ _ h => hnames h,happly⟩
  · obtain ⟨l, hlength, hpieces, hmatches⟩ := h
    refine ⟨l,hlength,fun i b hb => ?_,hmatches⟩
    obtain ⟨c, hc, hname⟩ := hpieces i b hb
    exact ⟨c,by rw [hchunks]; exact hc,hnames hname⟩

/-- An upload that a device can submit and that fits its manifest. -/
structure Ready (cr : Crates) (s : System) (device : Device) (id : String) (u : Upload) : Prop where
  row : s.disk.db.uploadRow device id s.clock = .ok u
  fits : Fits cr s id u

lemma Ready.get {device : Device} {id : String} {u : Upload} (h : Ready cr s device id u) :
    s.disk.db.uploads.get id = some u := (uploadRow_eq_ok h.row).2.2.1

lemma Ready.alive {device : Device} {id : String} {u : Upload} (h : Ready cr s device id u) :
    ¬ Dead s u := by
  obtain ⟨-, hdevice, -, hown, hnow⟩ := uploadRow_eq_ok h.row
  obtain ⟨_, hactive, -⟩ := bind_eq_ok.mp hdevice
  have hactive := require_eq_ok.mp hactive
  rintro (hdead | hdead)
  · omega
  · rw [hown, hactive] at hdead
    cases hdead

lemma Ready.resumed {device : Device} {id : String} {u : Upload} (h : Ready cr s device id u)
    (ht : Tables s.clock s.disk.db) : Ready cr s (resumed u) id u :=
  ⟨uploadRow_of_alive ht (uploadRow_eq_ok h.row).1 h.get h.alive,h.fits⟩

lemma Driven.ready {device : Device} {id k : String} {u : Upload} {n : ℕ}
    (hd : Driven cr now s t n k) (h : Ready cr s device id u) :
    ∃ state, Ready cr t device id { u with state := state } ∧ (id ≠ k → state = u.state) := by
  obtain ⟨state, hrow, hstate⟩ := hd.touched.row h.row
  refine ⟨state,⟨?_,?_⟩,hstate⟩
  · rw [hd.clock]
    exact hrow
  · exact @Fits.of_same _ _ _ _ { u with state := state } h.fits hd.touched.deltas hd.touched.chunks
      hd.works.bodiesSeen

lemma Ready.no_verdict {device : Device} {id : String} {u : Upload} (h : Ready cr s device id u)
    (hcr : NoCollision cr s.bodiesSeen) : ¬ (Dead s u ∨ Mismatch cr s id u) :=
  fun hv => hv.elim h.alive (not_mismatch_of_fits hcr h.fits)

/-- Submissions and runs of the worker complete the upload, if no two bodies collide by then. -/
def Completes (cr : Crates) (now : ℤ) (s : System) (id : String) : Prop :=
  ∃ t, Works cr now s t ∧ (NoCollision cr t.bodiesSeen →
    ∃ u, t.disk.db.uploads.get id = some u ∧ u.state = .complete)

lemma Completes.of_works {id : String} (h : Completes cr now t id) (hw : Works cr now s t) :
    Completes cr now s id := by
  obtain ⟨r, hworks, hcomplete⟩ := h
  exact ⟨r,hw.trans hworks,hcomplete⟩

lemma Completes.of_noCollision {id : String}
    (h : NoCollision cr s.bodiesSeen → Completes cr now s id) : Completes cr now s id := by
  by_cases hcr : NoCollision cr s.bodiesSeen
  · exact h hcr
  · exact ⟨s,.refl,fun h => absurd h hcr⟩

lemma completes_of_state {id : String} {u : Upload} (hu : s.disk.db.uploads.get id = some u)
    (h : u.state = .complete) : Completes cr now s id := ⟨s,.refl,fun _ => ⟨u,hu,h⟩⟩

lemma complete_of_publishUpload {d : Disk} {device : Device} {id digest : String} {size : ℕ}
    {bytes : Bytes} {writes : List Write} {u : Upload} {time : ℤ}
    (h : d.db.publishUpload cr device id digest size bytes time = .ok writes)
    (hu : d.db.uploads.get id = some u) :
    (written Disk.apply d writes).db.uploads.get id = some { u with state := .complete } := by
  have hget : ∀ small, ({ d.db with
      smallObjects := small
      objects := d.db.objects.insertOrIgnore digest ⟨size,.file⟩ }.setState id .complete).uploads.get
        id = some { u with state := .complete } := by
    intro small
    refine (get_setState _ _ _ _).trans ?_
    change (d.db.uploads.get id).map _ = _
    rw [hu, Option.map_some, if_pos rfl]
  obtain ⟨_, small, -, -, -, -, ⟨-, rfl⟩ | ⟨-, rfl⟩⟩ := publishUpload_eq_ok h
  · exact hget small
  · exact hget small

/-- A call that finishes an upload that is ready completes it. -/
theorem completes_of_finishing (h : Reachable cr Orderly s) {n : ℕ} {caller : Caller}
    {device : Device} {id digest : String} {size : ℕ} {progress : Progress} {u : Upload}
    (hr : Ready cr s device id u)
    (hc : s.calls.get n = some (.finishing caller device id digest size progress)) :
    Completes cr now s id := by
  obtain ⟨t, progress', hdriven, hcall, hstopped⟩ := @reads_end cr now s n _ _ _ _ _ _ hc
  refine Completes.of_works (.of_noCollision fun hcr => ?_) hdriven.works
  have ht := hdriven.works.reachable h
  obtain ⟨state, hready, -⟩ := hdriven.ready hr
  obtain ⟨-, hmanifest, hfor⟩ := ht.honest.finishing n _ _ _ _ _ _ hcall
  obtain ⟨rfl, rfl⟩ := hmanifest _ hready.get
  rcases hstopped with ⟨bytes, rfl⟩ | ⟨e, he⟩
  · have hmem : (u.hash,bytes) ∈
        (Call.finishing caller device id u.hash u.size (.assembled bytes)).objects :=
      List.mem_cons_self
    have hname : Names cr t bytes u.hash :=
      ⟨ht.honest.objects n _ hcall _ hmem,ht.remembered.calls n _ hcall _ hmem⟩
    obtain ⟨writes, hwrites⟩ := publishUpload_of_names ht hcr hready.row hname hfor
    have hpublish := @driven_of_holding cr now t (.publish n) n _ id _ rfl rfl hcall (if_pos rfl)
      fun _ h => (by cases h)
    refine ⟨_,hpublish.works,fun _ => ⟨{ u with state := .complete },?_,rfl⟩⟩
    change (written Disk.apply t.disk (t.outcome cr (.publish n)).writes).db.uploads.get id = _
    rw [outcome_publish hcall, hwrites]
    dsimp only
    rw [returned_writes]
    have hpublished := complete_of_publishUpload hwrites hready.get
    exact hpublished
  · obtain ⟨next, hnext⟩ :=
      readOn_of_fits ht hcr hready.row hready.fits (((ht.judged hcr).reads n _ _ _ _ _ _ hcall))
    rw [hnext] at he
    cases he

/-- A call that has an upload that is ready to start with completes it. -/
theorem completes_of_starting (h : Reachable cr Orderly s) {n : ℕ} {caller : Caller}
    {device : Device} {id : String} {u : Upload} (hr : Ready cr s device id u)
    (hc : s.calls.get n = some (.starting caller device id))
    (hjob : caller = .request → s.disk.db.uploadJobs.get id = none)
    (hok : ∃ started, s.disk.db.startFinish device id s.clock = .ok started) :
    Completes cr now s id := by
  have hstart := @driven_step cr now s (.startFinish n) n _ id rfl rfl hc
    (fun hnone => Option.some_ne_none _ ((if_pos rfl).symm.trans hnone)) fun m d k hm hreq => by
      obtain rfl := Op.startFinish.inj hm
      obtain ⟨rfl, rfl, rfl⟩ := Call.starting.inj (Option.some.inj (hc.symm.trans hreq))
      exact hjob rfl
  have hnext := @call_exec cr s (.startFinish n) n rfl
  have hout : s.outcome cr (.startFinish n) = s.resume cr (.startFinish n)
      (.starting caller device id) := by
    unfold outcome
    dsimp only
    rw [hc]
  rw [hout] at hnext
  unfold resume at hnext
  dsimp only at hnext
  obtain ⟨started, hstarted⟩ := hok
  cases started with
  | complete digest =>
    obtain ⟨w, hrow, hcomplete⟩ := startFinish_eq_complete hstarted
    obtain rfl := Except.ok.inj (hr.row.symm.trans hrow)
    exact completes_of_state hr.get hcomplete
  | finalizing digest size db =>
    rw [hstarted] at hnext
    obtain ⟨state, hready, -⟩ := hstart.ready hr
    exact (completes_of_finishing (hstart.works.reachable h) hready hnext).of_works hstart.works

theorem completes_of_taken (h : Reachable cr Orderly s) {n : ℕ} {device : Device} {id : String}
    {u : Upload} (hr : Ready cr s device id u)
    (hc : s.calls.get n = some (.starting .worker (resumed u) id)) : Completes cr now s id := by
  refine completes_of_starting h (hr.resumed h.tables.2) hc Caller.noConfusion ?_
  cases hstart : s.disk.db.startFinish (resumed u) id s.clock with
  | ok started => exact ⟨_,rfl⟩
  | error e => exact absurd (dead_of_startFinish h hc hr.get hstart) hr.alive

lemma entered {op : Op} {n : ℕ} {c : Call} (hop : op.call = some n) (hw : op.working = true)
    (hu : UnqueuedOp s op) (hout : s.outcome cr op = .next c) :
    Works cr now s (s.exec cr (.perform op)) ∧ (s.exec cr (.perform op)).disk = s.disk ∧
      (s.exec cr (.perform op)).clock = s.clock ∧
      (s.exec cr (.perform op)).calls.get n = some c ∧
      ∀ m, m ≠ n → (s.exec cr (.perform op)).calls.get m = s.calls.get m := by
  refine ⟨.step .refl hw (orderly_of_op (fun m h => ?_) hu (nextClock_of_call hop).ge),?_,
    nextClock_of_call hop,?_,fun m hm => ?_⟩
  · rw [h] at hw
    cases hw
  · change written Disk.apply s.disk (s.outcome cr op).writes = s.disk
    rw [hout]
    rfl
  · rw [call_exec hop, hout]
    rfl
  · refine (get_nextCalls_eq s op m).trans (if_neg fun h => hm ?_)
    exact Option.some.inj (h.symm.trans hop)

lemma Ready.entered {device : Device} {id : String} {u : Upload} (h : Ready cr s device id u)
    (hw : Works cr now s t) (hdisk : t.disk = s.disk) (hclock : t.clock = s.clock) :
    Ready cr t device id u := by
  refine ⟨?_,h.fits.of_same (by rw [hdisk]) (by rw [hdisk]) hw.bodiesSeen⟩
  rw [hdisk, hclock]
  exact h.row

/-- The worker comes to the job of an upload that is ready, after the others that are due. -/
theorem completes_of_job {k : ℕ} (h : Reachable cr Orderly s) {device : Device} {id : String}
    {u : Upload} (hr : Ready cr s device id u) (hq : Quiet s)
    (hdue : id ∈ s.disk.db.dueIds s.clock) (hk : (s.disk.db.dueIds s.clock).card ≤ k) :
    Completes cr now s id := by
  induction k generalizing s with
  | zero => exact absurd hdue (Finset.card_eq_zero.mp (Nat.le_zero.mp hk) ▸ Finset.notMem_empty id)
  | succ k ih =>
    obtain ⟨n, hfree⟩ := exists_free s
    obtain ⟨id', owner, hpending⟩ := pendingJob_of_due hdue
    obtain ⟨job, w, hjob, hterminal, htime, hw, rfl⟩ := pendingJob_eq_some hpending
    have hout : s.outcome cr (.takeJob n) = .next (.starting .worker (resumed w) id') := by
      unfold outcome
      dsimp only
      rw [hfree, hpending]
      refine if_neg fun hany => ?_
      obtain ⟨m, c, hc, hwork⟩ := Table.any_eq_true.mp hany
      rw [hq m c hc] at hwork
      cases hwork
    obtain ⟨hworks, hdisk, hclock, hcall, hcalls⟩ :=
      @entered cr now s (.takeJob n) n _ rfl rfl (fun _ _ _ h => by cases h) hout
    generalize s.exec cr (.perform (.takeJob n)) = t at hworks hdisk hclock hcall hcalls
    have ht := hworks.reachable h
    have hrt := hr.entered hworks hdisk hclock
    refine Completes.of_works ?_ hworks
    by_cases hid : id' = id
    · subst hid
      obtain rfl := Option.some.inj (hw.symm.trans hr.get)
      exact completes_of_taken ht hrt hcall
    -- another upload has its turn first
    obtain ⟨r, hdriven, hend, hidle⟩ := @worker_ends cr now t n _ id' _ hcall (if_pos rfl) rfl
    obtain ⟨state, hready, hstate⟩ := hdriven.ready hrt
    rw [hstate (Ne.symm hid)] at hready
    refine Completes.of_works ?_ hdriven.works
    have hothers : ∀ j, j ∈ r.disk.db.dueIds r.clock → j ∈ s.disk.db.dueIds s.clock ∧ j ≠ id' := by
      intro j hj
      obtain ⟨job', hjob', hterminal', htime', w', hw'⟩ := mem_dueIds.mp hj
      have hne : j ≠ id' := by
        rintro rfl
        rcases hidle job' hjob' with hfinal | hlater
        · rw [hfinal] at hterminal'
          cases hterminal'
        · omega
      rw [hdriven.touched.jobs j hne, hdisk] at hjob'
      rw [hdriven.clock, hclock] at htime'
      have hphase := (h.sound j).job fun hnone => Option.some_ne_none _
        ((congrArg (Option.map Job.terminal) hjob').symm.trans hnone)
      obtain ⟨x, hx⟩ := Option.ne_none_iff_exists'.mp
        fun hnone => hphase (congrArg (Option.map Upload.state) hnone)
      exact ⟨mem_dueIds.mpr ⟨job',hjob',hterminal',htime',x,hx⟩,hne⟩
    refine ih (hdriven.works.reachable ht) hready (hdriven.quiet ht.oneWorker hcall rfl hend) ?_ ?_
    · obtain ⟨job', hjob', hterminal', htime', -⟩ := mem_dueIds.mp hdue
      refine mem_dueIds.mpr ⟨job',?_,hterminal',?_,_,hready.get⟩
      · rw [hdriven.touched.jobs id (Ne.symm hid), hdisk]
        exact hjob'
      · rw [hdriven.clock, hclock]
        exact htime'
    · have hsub : r.disk.db.dueIds r.clock ⊂ s.disk.db.dueIds s.clock := by
        refine Finset.ssubset_iff_subset_ne.mpr ⟨fun j hj => (hothers j hj).1,fun heq => ?_⟩
        have hmem : id' ∈ s.disk.db.dueIds s.clock :=
          mem_dueIds.mpr ⟨job,hjob,hterminal,htime,w,hw⟩
        rw [← heq] at hmem
        exact (hothers id' hmem).2 rfl
      have := Finset.card_lt_card hsub
      omega

/-! ### From any state -/

lemma chunkCount_of_fits (h : Reachable cr Orderly s) {id : String} {u : Upload}
    (hu : s.disk.db.uploads.get id = some u) (hfits : Fits cr s id u)
    (hnone : s.disk.db.uploadDeltas.get id = none) :
    s.disk.db.chunkCount id = divCeil u.size uploadChunkBytes := by
  unfold Fits at hfits
  rw [hnone] at hfits
  obtain ⟨l, hlength, hpieces, -⟩ := hfits
  refine (h.placed.count hu).mpr fun i hi => ?_
  have hi' : i < l.length := by rwa [hlength]
  obtain ⟨c, hc, -⟩ := hpieces i l[i] (List.getElem?_eq_getElem hi')
  exact ⟨c,hc⟩

/-- The job of an upload, if it has one, can be taken by then. -/
def DueBy (s : System) (id : String) (now : ℤ) : Prop :=
  ∀ job, s.disk.db.uploadJobs.get id = some job → job.retryAfter ≤ now

/-- An upload without a job is submitted. -/
theorem completes_of_submission (h : Reachable cr Orderly s) {device : Device} {id : String}
    {u : Upload} (hr : Ready cr s device id u) (hq : Quiet s)
    (hstate : u.state = .opened) (hjob : s.disk.db.uploadJobs.get id = none) :
    Completes cr now s id := by
  obtain ⟨n, hfree⟩ := exists_free s
  have hsound := h.sound id
  have hnone : s.disk.db.uploadDeltas.get id = none := by
    refine Table.contains_eq_false.mp (Bool.eq_false_iff.mpr fun hrecipe => ?_)
    rcases hsound.recipe hrecipe with hcomplete | hqueued
    · rw [get_life hr.get, hstate] at hcomplete
      cases hcomplete
    · exact hqueued (congrArg (Option.map Job.terminal) hjob)
  have hcontains := Table.contains_eq_false.mpr hnone
  have hcount := chunkCount_of_fits h hr.get hr.fits hnone
  have hunqueued : UnqueuedOp s (.submit n device id) := fun _ _ _ h => by cases h
  have hsubmit := submitUpload_of_opened hr.row hstate hcontains hcount
  by_cases hsmall : u.size < 64*1024*1024
  · -- the request finishes it
    rw [if_pos hsmall] at hsubmit
    have hout : s.outcome cr (.submit n device id) = .next (.starting .request device id) := by
      unfold outcome
      dsimp only
      rw [hfree, hsubmit]
    obtain ⟨hworks, hdisk, hclock, hcall, -⟩ := @entered cr now s _ n _ rfl rfl hunqueued hout
    refine Completes.of_works ?_ hworks
    have hready := hr.entered hworks hdisk hclock
    exact completes_of_starting (hworks.reachable h) hready hcall
      (fun _ => by rw [hdisk]; exact hjob)
      ⟨_,startFinish_of_opened hready.row hstate (by rw [hdisk]; exact hcount)⟩
  · -- it is queued
    rw [if_neg hsmall] at hsubmit
    have hout : s.outcome cr (.submit n device id) = ⟨[.commit (moveState { s.disk.db with
          uploadJobs := s.disk.db.uploadJobs.insertOrIgnore id ⟨0,false,none,0⟩ }
        id .opened .queued)],none,none⟩ := by
      unfold outcome
      dsimp only
      rw [hfree, hsubmit]
    have hworks : Works cr now s (s.exec cr (.perform (.submit n device id))) :=
      .step .refl rfl (orderly_of_op (fun m h => by cases h) hunqueued le_rfl)
    have hdb : (s.exec cr (.perform (.submit n device id))).disk.db = moveState { s.disk.db with
        uploadJobs := s.disk.db.uploadJobs.insertOrIgnore id ⟨0,false,none,0⟩ }
        id .opened .queued := by
      change (written Disk.apply s.disk (s.outcome cr (.submit n device id)).writes).db = _
      rw [hout]
      rfl
    refine Completes.of_works ?_ hworks
    have ht := hworks.reachable h
    have hdevices : (s.exec cr (.perform (.submit n device id))).disk.db.requireDevice device =
        .ok () := by
      rw [hdb]
      exact (uploadRow_eq_ok hr.row).2.1
    have hget : (s.exec cr (.perform (.submit n device id))).disk.db.uploads.get id =
        some { u with state := .queued } := by
      rw [hdb]
      refine (get_moveState _ _ _ _ _).trans ?_
      change (s.disk.db.uploads.get id).map _ = _
      rw [hr.get, Option.map_some, if_pos ⟨rfl,hstate⟩]
    obtain ⟨hid, -, -, hown, hnow⟩ := uploadRow_eq_ok hr.row
    have hready : Ready cr (s.exec cr (.perform (.submit n device id))) device id
        { u with state := .queued } :=
      ⟨uploadRow_of_get hid hdevices hget hown hnow,
        @Fits.of_same _ _ _ _ { u with state := .queued } hr.fits (by rw [hdb]; rfl)
          (by rw [hdb]; rfl) hworks.bodiesSeen⟩
    refine completes_of_job ht hready (fun m c hc => ?_) ?_ (le_refl _)
    · by_cases hm : m = n
      · rw [hm, call_exec rfl, hout] at hc
        cases hc
      · refine hq m c ?_
        rw [← hc]
        refine ((get_nextCalls_eq s (.submit n device id) m).trans (if_neg fun h => hm ?_)).symm
        exact (Option.some.inj h).symm
    · refine mem_dueIds.mpr ⟨⟨0,false,none,0⟩,?_,rfl,h.tables.1,_,hready.get⟩
      rw [hdb]
      refine (Table.get_insertOrIgnore _ _ _ _).trans ?_
      rw [if_pos rfl, hjob, Option.getD_none]

/-- The upload is completed while the worker rests and its job is due. -/
theorem completes_of_quiet (h : Reachable cr Orderly s) {device : Device} {id : String} {u : Upload}
    (hr : Ready cr s device id u) (hq : Quiet s) (hdue : DueBy s id s.clock)
    (hheld : u.state ≠ .finalizing) : Completes cr now s id := by
  refine .of_noCollision fun hcr => ?_
  have hsound := h.sound id
  have hphase := get_life hr.get
  have hqueued : ∀ job, s.disk.db.uploadJobs.get id = some job → u.state ≠ .failed →
      Completes cr now s id := by
    intro job hjob hfailed
    have hterminal : job.terminal = false := by
      cases ht : job.terminal with
      | false => rfl
      | true =>
        have hfinal := hsound.terminal.mp
          ((congrArg (Option.map Job.terminal) hjob).trans (congrArg some ht))
        exact absurd (Option.some.inj (hphase.symm.trans hfinal)) hfailed
    exact completes_of_job h hr hq (mem_dueIds.mpr ⟨job,hjob,hterminal,hdue job hjob,_,hr.get⟩) le_rfl
  cases hstate : u.state with
  | complete => exact completes_of_state hr.get hstate
  | finalizing => exact absurd hstate hheld
  | failed => exact absurd ((h.judged hcr).failed id u hr.get hstate) (hr.no_verdict hcr)
  | opened =>
    cases hjob : s.disk.db.uploadJobs.get id with
    | none => exact completes_of_submission h hr hq hstate hjob
    | some job => exact hqueued job hjob (by rw [hstate]; decide)
  | queued =>
    obtain ⟨job, hjob, -⟩ := Option.map_eq_some_iff.mp
      (hsound.queued (hphase.trans (congrArg some hstate)))
    exact hqueued job hjob (by rw [hstate]; decide)

/-- A request that holds the upload ends first. -/
theorem completes_of_due (h : Reachable cr Orderly s) {device : Device} {id : String} {u : Upload}
    (hr : Ready cr s device id u) (hq : Quiet s) (hdue : DueBy s id s.clock) :
    Completes cr now s id := by
  by_cases hheld : u.state = .finalizing
  · have hsound := h.sound id
    obtain ⟨n, caller, hn⟩ := hsound.held ((get_life hr.get).trans (congrArg some hheld))
    obtain ⟨c, hc, hg⟩ := Option.bind_eq_some_iff.mp hn
    cases caller with
    | worker =>
      have hw := (working_of_stage hg).symm.trans (hq n c hc)
      cases hw
    | request =>
      have hnojob := Option.map_eq_none_iff.mp (hsound.unqueued n hn)
      obtain ⟨t, outcome, hdriven, hend⟩ := @holding_ends cr now s n c id .request hc hg
      have ht := hdriven.works.reachable h
      obtain ⟨state, hready, -⟩ := hdriven.ready hr
      refine (completes_of_quiet ht hready (fun m d hd => ?_) (fun job hjob => ?_)
        fun hstate => ?_).of_works hdriven.works
      · by_cases hm : m = n
        · rw [hm, hend] at hd
          cases hd
        · rw [hdriven.calls m hm] at hd
          exact hq m d hd
      · rw [hdriven.touched.unqueued hnojob] at hjob
        cases hjob
      · -- no other call holds it
        obtain ⟨m, caller, hm⟩ := (ht.sound id).held ((get_life hready.get).trans (congrArg some hstate))
        obtain ⟨d, hd, hg'⟩ := Option.bind_eq_some_iff.mp hm
        by_cases hmn : m = n
        · rw [hmn, hend] at hd
          cases hd
        · rw [hdriven.calls m hmn] at hd
          have hm' : (s.life id).stage m = some (.holding caller) := (stage_life hd id).trans hg'
          exact hmn (hsound.holder m n _ _ hm' hn)
  · exact completes_of_quiet h hr hq hdue hheld

theorem completes_of_wait (h : Reachable cr Orderly s) (hnow : s.clock ≤ now) {device : Device}
    {id : String} {u : Upload} (hq : Quiet s) (hrow : s.disk.db.uploadRow device id now = .ok u)
    (hfits : Fits cr s id u) (hdue : DueBy s id now) : Completes cr now s id := by
  have hworks : Works cr now s (s.exec cr (.perform (.setClock now))) := .wait .refl hnow
  have hready : Ready cr (s.exec cr (.perform (.setClock now))) device id u :=
    ⟨hrow,hfits.of_same rfl rfl hworks.bodiesSeen⟩
  exact (completes_of_due (hworks.reachable h) hready hq hdue).of_works hworks

/-- When the worker can take up an upload again: its job is due, also after a try that has failed
but is not recorded yet. -/
structure Due (s : System) (id : String) (now : ℤ) : Prop where
  retry : DueBy s id now
  failed : ∀ job n e, s.disk.db.uploadJobs.get id = some job →
    s.calls.get n = some (.failing .worker id e) ∨ s.calls.get n = some (.settling id (some e)) →
    s.clock + min (2^(min job.attempts 9)) 300 ≤ now

lemma completes_of_settling (h : Reachable cr Orderly s) (hnow : s.clock ≤ now) {n : ℕ}
    {device : Device} {id : String} {u : Upload} {e : Error}
    (hc : s.calls.get n = some (.settling id (some e)))
    (hrow : s.disk.db.uploadRow device id now = .ok u) (hfits : Fits cr s id u)
    (hdue : ∀ job, s.disk.db.uploadJobs.get id = some job →
      s.clock + min (2^(min job.attempts 9)) 300 ≤ now) : Completes cr now s id := by
  obtain ⟨hdriven, hend, -⟩ := @settle_ends cr now s n id (some e) hc
  obtain ⟨state, hrow', -⟩ := hdriven.touched.row hrow
  have hfits' : Fits cr (s.exec cr (.perform (.settle n))) id { u with state := state } :=
    @Fits.of_same _ _ _ _ { u with state := state } hfits hdriven.touched.deltas
      hdriven.touched.chunks hdriven.works.bodiesSeen
  refine (completes_of_wait (hdriven.works.reachable h) (hdriven.clock.trans_le hnow)
    (hdriven.quiet h.oneWorker hc rfl hend) hrow' hfits' fun job hjob => ?_).of_works hdriven.works
  rw [disk_settle hc, get_settleJob_jobs] at hjob
  obtain ⟨job', hjob', rfl⟩ := Option.map_eq_some_iff.mp hjob
  rw [if_pos rfl]
  exact hdue job' hjob'

lemma disk_rollBack {n : ℕ} {caller : Caller} {id : String} {e : Error}
    (hc : s.calls.get n = some (.failing caller id e)) :
    (s.exec cr (.perform (.rollBack n))).disk.db =
      s.disk.db.moveState id .finalizing .opened := by
  have hout : s.outcome cr (.rollBack n) = .returned
      [.commit (s.disk.db.moveState id .finalizing .opened)] caller id (some e) := by
    unfold outcome
    dsimp only
    rw [hc]
    rfl
  change (written Disk.apply s.disk (s.outcome cr (.rollBack n)).writes).db = _
  rw [hout, returned_writes]
  rfl

lemma completes_of_busy (h : Reachable cr Orderly s) (hnow : s.clock ≤ now) {n : ℕ} {c : Call}
    {g : Stage} {device : Device} {id : String} {u : Upload} (hc : s.calls.get n = some c)
    (hg : c.stage id = some g) (hw : g.working = true)
    (hrow : s.disk.db.uploadRow device id now = .ok u) (hr : Ready cr s device id u)
    (hdue : Due s id now) : Completes cr now s id := by
  refine .of_noCollision fun hcr => ?_
  have hjudged := h.judged hcr
  have hstage := hg
  rcases stage_eq_some hg with ⟨caller, device', rfl, rfl⟩ | ⟨caller, device', _, _, _, rfl, rfl⟩ |
    ⟨caller, e, rfl, rfl⟩ | ⟨outcome, rfl, rfl⟩
  · obtain rfl := of_decide_eq_true hw
    obtain rfl := hjudged.starting n device' id u hc hr.get
    exact completes_of_taken h hr hc
  · obtain rfl := of_decide_eq_true hw
    obtain rfl := hjudged.finishing n device' id _ _ _ u hc hr.get
    exact completes_of_finishing h (hr.resumed h.tables.2) hc
  · obtain rfl := of_decide_eq_true hw
    obtain ⟨hdriven, hend⟩ := @rollBack_ends cr now s n .worker id e hc
    obtain ⟨state, hrow', -⟩ := hdriven.touched.row hrow
    have hfits' : Fits cr (s.exec cr (.perform (.rollBack n))) id { u with state := state } :=
      @Fits.of_same _ _ _ _ { u with state := state } hr.fits hdriven.touched.deltas
        hdriven.touched.chunks hdriven.works.bodiesSeen
    refine (completes_of_settling (hdriven.works.reachable h) (hdriven.clock.trans_le hnow) hend
      hrow' hfits' fun job hjob => ?_).of_works hdriven.works
    rw [disk_rollBack hc] at hjob
    rw [hdriven.clock]
    exact hdue.failed job n e hjob (.inl hc)
  · cases outcome with
    | none =>
      rcases (h.sound id).succeeded n ((stage_life hc id).trans hstage) with hcomplete | hnone
      · exact completes_of_state hr.get
          (Option.some.inj ((get_life hr.get).symm.trans hcomplete))
      · rw [get_life hr.get] at hnone
        cases hnone
    | some e =>
      exact completes_of_settling h hnow hc hrow hr.fits fun job hjob =>
        hdue.failed job n e hjob (.inr hc)

/-- From any state an upload that matches its manifest is completed, by the time it can be tried. -/
theorem completes_of_matches (h : Reachable cr Orderly s) (hcr : NoCollision cr s.bodiesSeen)
    (hnow : s.clock ≤ now) {device : Device} {id : String} {u : Upload}
    (hrow : s.disk.db.uploadRow device id now = .ok u) (hdue : Due s id now)
    (hmatches : s.disk.Matches cr id u) : Completes cr now s id := by
  have hfits := fits_of_matches (h.bodiesKept hcr) h.remembered h.chunksKept hmatches
  obtain ⟨hid, hdevice, hu, hown, hexpires⟩ := uploadRow_eq_ok hrow
  have hready : Ready cr s device id u :=
    ⟨uploadRow_of_get hid hdevice hu hown (hnow.trans_lt hexpires),hfits⟩
  by_cases hq : Quiet s
  · exact completes_of_wait h hnow hq hrow hfits hdue.retry
  unfold Quiet at hq
  push Not at hq
  obtain ⟨n, c, hc, hw⟩ := hq
  have hw := Bool.eq_true_of_not_eq_false hw
  obtain ⟨k, g, hg⟩ := stage_of_working hw
  rw [working_of_stage hg] at hw
  by_cases hk : id = k
  · subst hk
    exact completes_of_busy h hnow hc hg hw hrow hready hdue
  · -- another upload is finished first
    obtain ⟨t, hdriven, hend, -⟩ := @worker_ends cr now s n c k g hc hg hw
    obtain ⟨state, hrow', hstate⟩ := hdriven.touched.row hrow
    rw [hstate hk] at hrow'
    refine (completes_of_wait (hdriven.works.reachable h) (hdriven.clock.trans_le hnow)
      (hdriven.quiet h.oneWorker hc ((working_of_stage hg).trans hw) hend) hrow'
      (hfits.of_same hdriven.touched.deltas hdriven.touched.chunks hdriven.works.bodiesSeen)
      fun job hjob => ?_).of_works hdriven.works
    rw [hdriven.touched.jobs id hk] at hjob
    exact hdue.retry job hjob

lemma due_of_later (h : Reachable cr Orderly s) (id : String) (hlater : s.clock + 300 ≤ now) :
    Due s id now := by
  refine ⟨fun job hjob => (h.tables.2.retry id job hjob).trans hlater,fun job _ _ _ _ => ?_⟩
  have := min_le_right ((2 : ℤ)^(min job.attempts 9)) 300
  omega

/-- In every run that is orderly a complete upload has its object with the hash and the size of its
manifest, only a finish that is under way leaves an upload finalizing, what is queued has a job that
is not terminal, neither a chunk nor a recipe is replaced, and what matches its manifest gets
completed. -/
theorem upload_jobs_finish (h : Reachable cr Orderly s) (hcr : NoCollision cr s.bodiesSeen) :
    (∀ id u, s.disk.db.uploads.get id = some u → u.state = .complete →
      ∃ row b, s.disk.db.objects.get u.hash = some row ∧ row.size = u.size ∧
        s.disk.bodyOf row.storage u.hash = some b ∧ b.length = u.size ∧ hash cr b = u.hash) ∧
    (∀ id u, s.disk.db.uploads.get id = some u → u.state = .finalizing →
      ∃ n c caller, s.calls.get n = some c ∧ c.stage id = some (.holding caller)) ∧
    (∀ id u, s.disk.db.uploads.get id = some u → u.state = .queued →
      ∃ job, s.disk.db.uploadJobs.get id = some job ∧ job.terminal = false) ∧
    (∀ k c c', (k,c) ∈ s.chunksSeen → (k,c') ∈ s.chunksSeen → c = c') ∧
    (∀ id b b', (id,b) ∈ s.recipesSeen → (id,b') ∈ s.recipesSeen → b = b') ∧
    ∀ now device id u, s.clock ≤ now → s.disk.db.uploadRow device id now = .ok u → Due s id now →
      s.disk.Matches cr id u → ∃ t, Works cr now s t ∧ (NoCollision cr t.bodiesSeen →
        ∃ u, t.disk.db.uploads.get id = some u ∧ u.state = .complete) := by
  have hkept := h.bodiesKept hcr
  refine ⟨fun id u hu hstate => ?_,fun id u hu hstate => ?_,fun id u hu hstate => ?_,
    h.histories.oneChunk,h.histories.oneRecipe,fun now device id u hnow hrow hdue hmatches =>
      completes_of_matches h hcr hnow hrow hdue hmatches⟩
  · obtain ⟨hsize, -⟩ := h.tables.2.done id u hu hstate
    obtain ⟨row, hrow, hsize⟩ := Option.map_eq_some_iff.mp hsize
    obtain ⟨b, hb, hlength⟩ := hkept.rows u.hash row hrow
    exact ⟨row,b,hrow,hsize,hb,hlength.trans hsize,hkept.body hb⟩
  · obtain ⟨n, caller, hn⟩ := (h.sound id).held ((get_life hu).trans (congrArg some hstate))
    obtain ⟨c, hc, hg⟩ := Option.bind_eq_some_iff.mp hn
    exact ⟨n,c,caller,hc,hg⟩
  · obtain ⟨job, hjob, hterminal⟩ := Option.map_eq_some_iff.mp
      ((h.sound id).queued ((get_life hu).trans (congrArg some hstate)))
    exact ⟨job,hjob,hterminal⟩

/-- What the steps of a small run are checked for: the trash is empty, nothing is started to be
finished, and the clock stands. -/
def plain (s : System) (e : Event) : Bool :=
  decide (s.disk.db.stagingTrash.rows = []) && decide (s.nextClock e.op = s.clock) &&
    (match e.op with
      | .startFinish _ => false
      | _ => true)

lemma orderly_of_plain {s : System} {e : Event} (h : plain s e = true) : Orderly s e := by
  unfold plain at h
  simp only [Bool.and_eq_true, decide_eq_true_eq] at h
  obtain ⟨⟨htrash, hclock⟩, hop⟩ := h
  have hunqueued : UnqueuedOp s e.op := by
    intro n device id hstart
    rw [hstart] at hop
    cases hop
  refine ⟨clear_of_empty (decide_eq_true htrash),?_,hclock.ge⟩
  cases e <;> exact hunqueued

theorem upload_jobs_finish_upload :
    ∃ t, Works sampleCrates 0
      (create.run sampleCrates (sampleUpload ++ [.perform (.storeChunk 0)])) t ∧
      (NoCollision sampleCrates t.bodiesSeen →
        ∃ u, t.disk.db.uploads.get "upload" = some u ∧ u.state = .complete) := by
  have hr : Reachable sampleCrates Orderly
      (create.run sampleCrates (sampleUpload ++ [.perform (.storeChunk 0)])) :=
    .run (fun _ _ => orderly_of_plain) .create (by decide)
  have hcr : NoCollision sampleCrates
      (create.run sampleCrates (sampleUpload ++ [.perform (.storeChunk 0)])).bodiesSeen := by
    unfold NoCollision
    decide
  have hjobs : (create.run sampleCrates (sampleUpload ++ [.perform (.storeChunk 0)])).disk.db.uploadJobs.get
      "upload" = none := by decide
  have hrecipe : (create.run sampleCrates
      (sampleUpload ++ [.perform (.storeChunk 0)])).disk.db.uploadDeltas.get "upload" = none := by
    decide
  refine (upload_jobs_finish hr hcr).2.2.2.2.2 0 sampleDevice "upload"
    ⟨"device",hash sampleCrates [120],1,86400,.opened⟩ (by decide) (by decide)
    ⟨fun job hjob => ?_,fun job _ _ hjob => ?_⟩ ⟨[120],?_,by decide,by decide⟩
  · rw [hjobs] at hjob
    cases hjob
  · rw [hjobs] at hjob
    cases hjob
  · unfold Disk.Yields
    rw [hrecipe]
    refine ⟨[[120]],by decide,rfl,fun i b hb => ?_⟩
    cases i with
    | zero =>
      obtain rfl := Option.some.inj hb
      exact ⟨⟨⟨hash sampleCrates [120],1⟩,by decide⟩,by decide⟩
    | succ i => cases hb

/-! ### Runs that go wrong -/

/-- SHA-256 on two bodies of one byte. -/
def twoBodies : Crates :=
  tabulated [([120],"2d711642b726b04401627ca9fbac32f5c8530fb1903cc4db02258717921a4881"),
    ([121],"a1fce4363854ff888cff4b8e7875d600c2682390412a8cf79b37d0b11148b0fa")] [] []

/-- A chunk is stored under a name that is still in the trash, the next pass drops its row, and the
client stores another chunk in its place. -/
def replacedChunk : System :=
  create.run twoBodies [.perform (.addDevice "device"),
    .perform (.beginUpload sampleDevice ⟨hash twoBodies [120],1⟩ "upload"),
    .perform (.sendChunk 0 sampleDevice "upload" 0 (hash twoBodies [121]) [121]),
    .crash (.storeChunk 0) 1,
    .perform (.maintain 0 [] [] [] [("upload",0)] [("upload",0)] []),
    .perform (.sendChunk 0 sampleDevice "upload" 0 (hash twoBodies [121]) [121]),
    .perform (.storeChunk 0),.perform (.maintain 0 [] [] [] [] [("upload",0)] []),
    .perform (.sendChunk 0 sampleDevice "upload" 0 (hash twoBodies [120]) [120]),
    .perform (.storeChunk 0)]

theorem a_chunk_is_replaced :
    Reachable twoBodies (fun _ _ => True) replacedChunk ∧
    replacedChunk.disk.db.uploads.get "upload" =
      some ⟨"device",hash twoBodies [120],1,86400,.opened⟩ ∧
    replacedChunk.chunksSeen = [(("upload",0),⟨hash twoBodies [121],1⟩),
      (("upload",0),⟨hash twoBodies [120],1⟩)] ∧
    hash twoBodies [121] ≠ hash twoBodies [120] := by
  refine ⟨.run (p := fun _ _ => true) (fun _ _ _ => trivial) .create (by decide),
    ?_,?_,?_⟩ <;> decide +kernel

/-- A recipe that inserts one byte. -/
def sampleRecipe : Bytes :=
  [82,78,83,76,45,113,22,66,183,38,176,68,1,98,124,169,251,172,50,245,200,83,15,177,144,60,196,219,
    2,37,135,23,146,26,72,129,0,0,0,0,0,0,0,1,0,0,0,0,1,0,0,0,0,1,120]

/-- A request starts to finish an upload before its recipe is attached, the worker is refused what
the request holds and gives it up for good, and the request fails to publish it. -/
def racedUpload : System :=
  create.run sampleCrates [.perform (.addDevice "device"),
    .perform (.beginUpload sampleDevice ⟨hash sampleCrates [120],1⟩ "upload"),
    .perform (.submit 0 sampleDevice "upload"),
    .perform (.attach sampleDevice "upload" sampleRecipe),
    .perform (.startFinish 0),.perform (.takeJob 1),.perform (.startFinish 1),.perform (.settle 1),
    .perform (.fail 0),.perform (.rollBack 0)]

/-- An upload that matches its manifest is refused to be submitted, and has no job to be done. -/
theorem a_raced_upload_is_stuck :
    Reachable sampleCrates (fun _ _ => True) racedUpload ∧ racedUpload.calls.rows = [] ∧
    (racedUpload.disk.db.uploadRow sampleDevice "upload" 0).isOk = true ∧
    racedUpload.disk.Matches sampleCrates "upload"
      ⟨"device",hash sampleCrates [120],1,86400,.failed⟩ ∧
    racedUpload.disk.db.uploads.get "upload" =
      some ⟨"device",hash sampleCrates [120],1,86400,.failed⟩ ∧
    (racedUpload.disk.db.submitUpload sampleDevice "upload" 0).isOk = false ∧
    racedUpload.disk.db.pendingJob 1000 = none := by
  have hrecipe : racedUpload.disk.db.uploadDeltas.get "upload" = some sampleRecipe := by
    decide
  refine ⟨.run (p := fun _ _ => true) (fun _ _ _ => trivial) .create (by decide),
    by decide,by decide,⟨[120],?_,by decide,by decide⟩,
    by decide,by decide,by decide⟩
  unfold Disk.Yields
  rw [hrecipe]
  exact ⟨⟨[],hash sampleCrates [120],1,[.insert [120]]⟩,[],by decide,.nil,by decide⟩

end System
end RisuNest.Transfer
