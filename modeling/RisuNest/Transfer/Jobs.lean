import RisuNest.Transfer.Verdicts
import Mathlib.Data.Fintype.EquivFin

/-! Uploads get finished: an upload whose chunks or recipe come to its manifest is completed by
submissions and runs of the worker. -/
namespace RisuNest.Transfer
open Wire Server Db

/-- The parts of a submission and of a run of the worker that succeed. -/
def Op.working : Op → Bool
  | .submit _ _ _ | .takeJob _ | .startFinish _ | .read _ | .publish _ | .rollBack _
  | .settle _ => true
  | _ => false

/-- The reads that are left before a body is put together. -/
def Progress.left (size : ℕ) : Progress → ℕ
  | .bases _ rest _ => rest.length + 1
  | .chunks index _ => divCeil size uploadChunkBytes - index + 1
  | _ => 0

/-- What an operation for one upload leaves of the others. -/
structure Db.Touched (db db' : Db) (id : String) : Prop where
  level : db'.formatLevel = db.formatLevel
  devices : db'.devices = db.devices
  deltas : db'.uploadDeltas = db.uploadDeltas
  chunks : db'.uploadChunks = db.uploadChunks
  jobs : ∀ k, k ≠ id → db'.uploadJobs.get k = db.uploadJobs.get k
  unqueued : db.uploadJobs.get id = none → db'.uploadJobs.get id = none
  uploads : ∀ k u, db.uploads.get k = some u →
    ∃ state, db'.uploads.get k = some { u with state := state } ∧ (k ≠ id → state = u.state)

namespace Db

lemma Touched.refl (db : Db) (id : String) : Touched db db id :=
  ⟨rfl,rfl,rfl,rfl,fun _ _ => rfl,fun h => h,fun _ u hu => ⟨u.state,hu,fun _ => rfl⟩⟩

lemma Touched.trans {db db' db'' : Db} {id : String} (h : Touched db db' id)
    (h' : Touched db' db'' id) : Touched db db'' id where
  level := h'.level.trans h.level
  devices := h'.devices.trans h.devices
  deltas := h'.deltas.trans h.deltas
  chunks := h'.chunks.trans h.chunks
  jobs k hk := (h'.jobs k hk).trans (h.jobs k hk)
  unqueued hnone := h'.unqueued (h.unqueued hnone)
  uploads k u hu := by
    obtain ⟨state, hu', hstate⟩ := h.uploads k u hu
    obtain ⟨state', hu'', hstate'⟩ := h'.uploads k _ hu'
    exact ⟨state',hu'',fun hk => (hstate' hk).trans (hstate hk)⟩

lemma Touched.of_states {db db' : Db} {id : String} {f : String → Upload → UploadState}
    (hlevel : db'.formatLevel = db.formatLevel) (hdevices : db'.devices = db.devices)
    (hdeltas : db'.uploadDeltas = db.uploadDeltas) (hchunks : db'.uploadChunks = db.uploadChunks)
    (hjobs : ∀ k, k ≠ id → db'.uploadJobs.get k = db.uploadJobs.get k)
    (hnone : db.uploadJobs.get id = none → db'.uploadJobs.get id = none)
    (hu : ∀ k, db'.uploads.get k = (db.uploads.get k).map fun u => { u with state := f k u })
    (hf : ∀ k u, k ≠ id → f k u = u.state) : Touched db db' id := by
  refine ⟨hlevel,hdevices,hdeltas,hchunks,hjobs,hnone,fun k u hk => ⟨f k u,?_,hf k u⟩⟩
  rw [hu, hk, Option.map_some]

end Db

namespace Disk

/-- What the recipe or the chunks of an upload come to. -/
def Yields (cr : Crates) (d : Disk) (id : String) (size : ℕ) (bytes : Bytes) : Prop :=
  match d.db.uploadDeltas.get id with
  | some b => ∃ recipe found, Recipe.decode b = .ok recipe ∧
      List.Forall₂ (fun body (base : Base) => d.objectBody base.hash = some body) found
        recipe.bases ∧ recipe.apply cr found = .ok bytes
  | none => ∃ l : List Bytes, l.length = divCeil size uploadChunkBytes ∧ l.flatten = bytes ∧
      ∀ i b, l[i]? = some b → (∃ c, d.db.uploadChunks.get (id,i) = some c) ∧
        d.staging.get (id,i) = some b

/-- All chunks of an upload are there, or the bases of its recipe, and they come to its manifest. -/
def Matches (cr : Crates) (d : Disk) (id : String) (u : Upload) : Prop :=
  ∃ bytes, d.Yields cr id u.size bytes ∧ bytes.length = u.size ∧ hash cr bytes = u.hash

end Disk

namespace System
variable {cr : Crates} {now : ℤ} {s t : System}

lemma touched_of_cases {op : Op} {o : Outcome} (h : Cases cr s op o) {n : ℕ} {c : Call}
    {id : String} (hop : op.call = some n) (hc : s.calls.get n = some c) (hg : c.stage id ≠ none) :
    Touched s.disk.db (written Disk.apply s.disk o.writes).db id := by
  have hsame := Touched.refl s.disk.db id
  have hown : ∀ {m c' id' g}, op.call = some m → s.calls.get m = some c' →
      (c'.stage id = if id' = id then some g else none) → id' = id := by
    intro m c' id' g hop' hc' hstage
    obtain rfl := Option.some.inj (hop.symm.trans hop')
    obtain rfl := Option.some.inj (hc.symm.trans hc')
    by_contra hne
    rw [if_neg hne] at hstage
    exact hg hstage
  cases h with
  | idle hw =>
    rw [hw]
    exact hsame
  | ended | sent | finishes | taken | read | unread | failed | unpublished | offered | sifted =>
    exact hsame
  | device hop' => rcases hop' with ⟨_, rfl⟩ | ⟨_, rfl⟩ | ⟨_, rfl⟩ <;> cases hop
  | begin | attached | cancelled | pinned | maintained | drained => cases hop
  | submitted hfree =>
    obtain rfl := Option.some.inj hop
    rw [hc] at hfree
    cases hfree
  | stored hc' | publishedSome hc' | storing hc' =>
    obtain rfl := Option.some.inj hop
    obtain rfl := Option.some.inj (hc.symm.trans hc')
    exact absurd rfl hg
  | @completed _ caller | @refused _ caller => cases caller <;> exact hsame
  | @started call caller device id' digest size db hc' h =>
    obtain rfl := hown rfl hc' rfl
    obtain ⟨_, -, -, -, -, -, rfl⟩ := startFinish_eq_finalizing h
    exact .of_states rfl rfl rfl rfl (fun _ _ => rfl) (fun h => h) (get_setState _ _ _)
      fun k u hk => if_neg hk
  | @published call caller device id' digest size bytes writes hc' h =>
    obtain rfl := hown rfl hc' rfl
    have hdb : Touched s.disk.db (written Disk.apply s.disk writes).db id' := by
      obtain ⟨_, small, -, -, -, -, ⟨-, rfl⟩ | ⟨-, rfl⟩⟩ := publishUpload_eq_ok h
      all_goals
        refine .of_states (f := fun k u => if k = id' then .complete else u.state) rfl rfl rfl rfl
          (fun _ _ => rfl) (fun h => h) ?_ fun k u hk => if_neg hk
        exact fun k => get_setState { s.disk.db with
          smallObjects := small
          objects := s.disk.db.objects.insertOrIgnore digest ⟨size,.file⟩ } id' .complete k
    cases caller <;> exact hdb
  | @rolledBack call caller id' e hc' =>
    obtain rfl := hown rfl hc' rfl
    have hdb : Touched s.disk.db (s.disk.db.moveState id' .finalizing .opened) id' :=
      .of_states rfl rfl rfl rfl (fun _ _ => rfl) (fun h => h) (get_moveState _ _ _ _)
        fun k u hk => if_neg fun h => hk h.1
    cases caller <;> exact hdb
  | @settled call id' outcome hc' =>
    obtain rfl := hown rfl hc' rfl
    cases outcome with
    | none =>
      refine ⟨rfl,rfl,rfl,rfl,fun k hk => ?_,fun _ => ?_,fun _ u hu => ⟨u.state,hu,fun _ => rfl⟩⟩
      · exact (Table.get_erase _ _ _).trans (if_neg hk)
      · exact (Table.get_erase _ _ _).trans (if_pos rfl)
    | some e =>
      refine .of_states rfl rfl rfl rfl (fun k hk => ?_) (fun hnone => ?_)
        (get_settleJob_uploads _ _ _ _) fun k u hk => if_neg hk
      · refine (get_settleJob_jobs _ _ _ _ _).trans ?_
        cases s.disk.db.uploadJobs.get k with
        | none => rfl
        | some job => rw [Option.map_some, if_neg hk]
      · refine (get_settleJob_jobs _ _ _ _ _).trans ?_
        rw [hnone]
        rfl

/-- Submissions and runs of the worker, in an order in which they go well, and the time going on to
`now`. -/
inductive Works (cr : Crates) (now : ℤ) (s : System) : System → Prop
  | refl : Works cr now s s
  | step {t : System} {op : Op} (h : Works cr now s t) (hop : op.working = true)
      (ho : Orderly t (.perform op)) : Works cr now s (t.exec cr (.perform op))
  | wait {t : System} (h : Works cr now s t) (hle : t.clock ≤ now) :
      Works cr now s (t.exec cr (.perform (.setClock now)))

lemma Works.trans {r : System} (h : Works cr now s t) (h' : Works cr now t r) : Works cr now s r := by
  induction h' with
  | refl => exact h
  | step _ hop ho ih => exact ih.step hop ho
  | wait _ hle ih => exact ih.wait hle

lemma orderly_of_op {op : Op} (hstore : ∀ n, op ≠ .storeChunk n) (hu : UnqueuedOp s op)
    (hclock : s.clock ≤ s.nextClock op) : Orderly s (.perform op) :=
  ⟨fun n _ _ _ _ _ hop => absurd hop (hstore n),hu,hclock⟩

lemma Works.reachable (hs : Reachable cr Orderly s) (h : Works cr now s t) :
    Reachable cr Orderly t := by
  induction h with
  | refl => exact hs
  | step _ _ ho ih => exact ih.step ho
  | wait _ hle ih =>
    exact ih.step (orderly_of_op (fun _ h => by cases h) (fun _ _ _ h => by cases h) hle)

lemma Works.bodiesSeen (h : Works cr now s t) : ∀ b ∈ s.bodiesSeen, b ∈ t.bodiesSeen := by
  induction h with
  | refl => exact fun _ hb => hb
  | step _ _ _ ih | wait _ _ ih => exact fun b hb => bodiesSeen_exec _ _ b (ih b hb)

/-- One call goes on with one upload. -/
structure Driven (cr : Crates) (now : ℤ) (s t : System) (n : ℕ) (id : String) : Prop where
  works : Works cr now s t
  touched : Touched s.disk.db t.disk.db id
  clock : t.clock = s.clock
  calls : ∀ m, m ≠ n → t.calls.get m = s.calls.get m

lemma Driven.refl (s : System) (n : ℕ) (id : String) : Driven cr now s s n id :=
  ⟨.refl,.refl _ _,rfl,fun _ _ => rfl⟩

lemma Driven.trans {r : System} {n : ℕ} {id : String} (h : Driven cr now s t n id)
    (h' : Driven cr now t r n id) : Driven cr now s r n id :=
  ⟨h.works.trans h'.works,h.touched.trans h'.touched,h'.clock.trans h.clock,
    fun m hm => (h'.calls m hm).trans (h.calls m hm)⟩

lemma call_exec {op : Op} {n : ℕ} (hop : op.call = some n) :
    (s.exec cr (.perform op)).calls.get n = (s.outcome cr op).call :=
  (get_nextCalls_eq s op n).trans (if_pos hop)

lemma nextClock_of_call {op : Op} {n : ℕ} (hop : op.call = some n) : s.nextClock op = s.clock := by
  cases op with
  | setClock | maintain => cases hop
  | _ => rfl

lemma driven_step {op : Op} {n : ℕ} {c : Call} {id : String} (hop : op.call = some n)
    (hw : op.working = true) (hc : s.calls.get n = some c) (hg : c.stage id ≠ none)
    (hu : UnqueuedOp s op) : Driven cr now s (s.exec cr (.perform op)) n id := by
  refine ⟨.step .refl hw (orderly_of_op (fun m h => ?_) hu (nextClock_of_call hop).ge),
    touched_of_cases (outcome_cases s op) hop hc hg,nextClock_of_call hop,fun m hm => ?_⟩
  · rw [h] at hw
    cases hw
  · refine (get_nextCalls_eq s op m).trans (if_neg fun h => hm ?_)
    exact Option.some.inj (h.symm.trans hop)

/-! ### Reading on -/

lemma left_of_readOn {d : Disk} {device : Device} {id digest : String} {size : ℕ}
    {progress next : Progress} (hopened : progress ≠ .opened)
    (h : d.readOn cr device id digest size now progress = .ok next) :
    (∃ bytes, progress = .assembled bytes) ∨
      next ≠ .opened ∧ next.left size < progress.left size := by
  cases progress with
  | opened => exact absurd rfl hopened
  | assembled bytes => exact .inl ⟨bytes,rfl⟩
  | bases recipe rest found =>
    right
    cases rest with
    | nil =>
      unfold Disk.readOn at h
      dsimp only at h
      split_ifs at h
      obtain ⟨bytes, -, h⟩ := bind_eq_ok.mp h
      obtain rfl := Except.ok.inj h
      refine ⟨Progress.noConfusion,?_⟩
      change 0 < 0 + 1
      omega
    | cons base rest =>
      obtain ⟨body, -, h⟩ := bind_eq_ok.mp h
      obtain rfl := Except.ok.inj h
      refine ⟨Progress.noConfusion,?_⟩
      change rest.length + 1 < rest.length + 1 + 1
      omega
  | chunks index read =>
    right
    unfold Disk.readOn at h
    dsimp only at h
    split_ifs at h with hlt
    · split at h
      · cases h
      · cases h
      · obtain ⟨_, -, h⟩ := bind_eq_ok.mp h
        obtain rfl := Except.ok.inj h
        refine ⟨Progress.noConfusion,?_⟩
        change divCeil size uploadChunkBytes - (index + 1) + 1 <
          divCeil size uploadChunkBytes - index + 1
        omega
    · obtain ⟨_, -, h⟩ := bind_eq_ok.mp h
      obtain rfl := Except.ok.inj h
      refine ⟨Progress.noConfusion,?_⟩
      change 0 < divCeil size uploadChunkBytes - index + 1
      omega

lemma resume_read {n : ℕ} {caller : Caller} {device : Device} {id digest : String} {size : ℕ}
    {progress : Progress}
    (hc : s.calls.get n = some (.finishing caller device id digest size progress)) :
    s.outcome cr (.read n) = match s.disk.readOn cr device id digest size s.clock progress with
      | .ok next => .next (.finishing caller device id digest size next)
      | .error e => .next (.failing caller id e) := by
  unfold outcome
  dsimp only
  rw [hc]
  rfl

/-- The reads of a call come to a body, or to an error. -/
def Stopped (cr : Crates) (s : System) (device : Device) (id digest : String) (size : ℕ)
    (progress : Progress) : Prop :=
  (∃ bytes, progress = .assembled bytes) ∨
    ∃ e, s.disk.readOn cr device id digest size s.clock progress = .error e

lemma driven_read {n : ℕ} {caller : Caller} {device : Device} {id digest : String} {size : ℕ}
    {progress next : Progress}
    (hc : s.calls.get n = some (.finishing caller device id digest size progress))
    (h : s.disk.readOn cr device id digest size s.clock progress = .ok next) :
    Driven cr now s (s.exec cr (.perform (.read n))) n id ∧
      (s.exec cr (.perform (.read n))).calls.get n =
        some (.finishing caller device id digest size next) := by
  refine ⟨driven_step rfl rfl hc ?_ fun _ _ _ h => (by cases h),?_⟩
  · exact fun hnone => Option.some_ne_none _ ((if_pos rfl).symm.trans hnone)
  · rw [call_exec rfl, resume_read hc, h]
    rfl

lemma reads_end_of_left {k n : ℕ} {caller : Caller} {device : Device} {id digest : String} {size : ℕ}
    {progress : Progress} (hk : progress.left size ≤ k) (hopened : progress ≠ .opened)
    (hc : s.calls.get n = some (.finishing caller device id digest size progress)) :
    ∃ t progress, Driven cr now s t n id ∧
      t.calls.get n = some (.finishing caller device id digest size progress) ∧
      Stopped cr t device id digest size progress := by
  induction k generalizing s progress with
  | zero =>
    cases progress with
    | opened => exact absurd rfl hopened
    | assembled bytes => exact ⟨s,_,.refl _ _ _,hc,.inl ⟨bytes,rfl⟩⟩
    | bases recipe rest found =>
      change rest.length + 1 ≤ 0 at hk
      omega
    | chunks index read =>
      change divCeil size uploadChunkBytes - index + 1 ≤ 0 at hk
      omega
  | succ k ih =>
    cases h : s.disk.readOn cr device id digest size s.clock progress with
    | error e => exact ⟨s,_,.refl _ _ _,hc,.inr ⟨e,h⟩⟩
    | ok next =>
      rcases left_of_readOn hopened h with ⟨bytes, rfl⟩ | ⟨hnext, hleft⟩
      · exact ⟨s,_,.refl _ _ _,hc,.inl ⟨bytes,rfl⟩⟩
      · obtain ⟨hdriven, hcall⟩ := @driven_read cr now s n _ _ _ _ _ _ _ hc h
        obtain ⟨t, final, hdriven', hcall', hstopped⟩ := ih (by omega) hnext hcall
        exact ⟨t,final,hdriven.trans hdriven',hcall',hstopped⟩

theorem reads_end {n : ℕ} {caller : Caller} {device : Device} {id digest : String} {size : ℕ}
    {progress : Progress}
    (hc : s.calls.get n = some (.finishing caller device id digest size progress)) :
    ∃ t progress, Driven cr now s t n id ∧
      t.calls.get n = some (.finishing caller device id digest size progress) ∧
      Stopped cr t device id digest size progress := by
  by_cases hopened : progress = .opened
  · subst hopened
    cases h : s.disk.readOn cr device id digest size s.clock .opened with
    | error e => exact ⟨s,_,.refl _ _ _,hc,.inr ⟨e,h⟩⟩
    | ok next =>
      obtain ⟨hdriven, hcall⟩ := @driven_read cr now s n _ _ _ _ _ _ _ hc h
      have hnext : next ≠ .opened := by
        rintro rfl
        unfold Disk.readOn at h
        dsimp only at h
        split at h
        · obtain ⟨_, -, h⟩ := bind_eq_ok.mp h
          cases h
        · cases h
      obtain ⟨t, final, hdriven', hcall', hstopped⟩ := reads_end_of_left (le_refl _) hnext hcall
      exact ⟨t,final,hdriven.trans hdriven',hcall',hstopped⟩
  · exact reads_end_of_left (le_refl _) hopened hc

/-! ### What matches its manifest -/

/-- The bodies of the recipe or of the chunks of an upload come to its manifest. -/
def Fits (cr : Crates) (s : System) (id : String) (u : Upload) : Prop :=
  match s.disk.db.uploadDeltas.get id with
  | some b => ∃ recipe found bytes, Recipe.decode b = .ok recipe ∧ Sources cr s found recipe.bases ∧
      recipe.apply cr found = .ok bytes
  | none => ∃ l, l.length = divCeil u.size uploadChunkBytes ∧ Pieces cr s id l ∧
      l.flatten.length = u.size ∧ hash cr l.flatten = u.hash

lemma fits_of_matches (hk : BodiesKept cr s.disk) (hr : Remembered s) (hc : ChunksKept cr s.disk)
    {id : String} {u : Upload} (h : s.disk.Matches cr id u) : Fits cr s id u := by
  obtain ⟨bytes, hyields, hlength, hhash⟩ := h
  unfold Disk.Yields at hyields
  unfold Fits
  split at hyields
  · next b hb =>
    obtain ⟨recipe, found, hdecode, hfound, happly⟩ := hyields
    exact ⟨recipe,found,bytes,hdecode,hfound.imp fun _ _ h => names_object hk hr h,happly⟩
  · next hnone =>
    obtain ⟨l, hl, rfl, hpieces⟩ := hyields
    refine ⟨l,hl,fun i b hb => ?_,hlength,hhash⟩
    obtain ⟨⟨c, hrow⟩, hfile⟩ := hpieces i b hb
    obtain ⟨-, b', hfile', hname, -⟩ := hc (id,i) c hrow
    obtain rfl := Option.some.inj (hfile.symm.trans hfile')
    exact ⟨c,hrow,hname ▸ names_file hr hfile⟩

lemma eq_of_names (hcr : NoCollision cr s.bodiesSeen) {b b' : Bytes} {digest : String}
    (h : Names cr s b digest) (h' : Names cr s b' digest) : b = b' :=
  hcr b h.2 b' h'.2 (h.1.trans h'.1.symm)

lemma eq_of_sources (hcr : NoCollision cr s.bodiesSeen) {l l' : List Bytes} {bases : List Base}
    (h : Sources cr s l bases) (h' : Sources cr s l' bases) : l = l' := by
  unfold Sources at h h'
  induction h generalizing l' with
  | nil =>
    cases h'
    rfl
  | cons hb _ ih =>
    cases h' with
    | cons hb' h' => rw [eq_of_names hcr hb hb', ih h']

lemma eq_of_pieces (hcr : NoCollision cr s.bodiesSeen) {id : String} {l l' : List Bytes}
    (hlength : l.length = l'.length) (h : Pieces cr s id l) (h' : Pieces cr s id l') : l = l' := by
  refine List.ext_getElem hlength fun i hi hi' => ?_
  obtain ⟨c, hc, hb⟩ := h i l[i] (List.getElem?_eq_getElem hi)
  obtain ⟨c', hc', hb'⟩ := h' i l'[i] (List.getElem?_eq_getElem hi')
  obtain rfl := Option.some.inj (hc.symm.trans hc')
  exact eq_of_names hcr hb hb'

lemma not_mismatch_of_fits (hcr : NoCollision cr s.bodiesSeen) {id : String} {u : Upload}
    (h : Fits cr s id u) : ¬ Mismatch cr s id u := by
  intro hm
  unfold Fits at h
  unfold Mismatch at hm
  split at h
  · next b hb =>
    rw [hb] at hm
    obtain ⟨recipe, found, bytes, hdecode, hsources, happly⟩ := h
    obtain ⟨recipe', found', hdecode', hsources', hnone⟩ := hm
    obtain rfl := Except.ok.inj (hdecode.symm.trans hdecode')
    obtain rfl := eq_of_sources hcr hsources hsources'
    exact hnone bytes happly
  · next hnone =>
    rw [hnone] at hm
    obtain ⟨l, hlength, hpieces, hsize, hhash⟩ := h
    obtain ⟨l', hlength', hpieces', hother⟩ := hm
    obtain rfl := eq_of_pieces hcr (hlength.trans hlength'.symm) hpieces hpieces'
    exact hother ⟨hsize,hhash⟩

/-- An upload that fits can be read to its end. -/
theorem readOn_of_fits (h : Reachable cr Orderly s) (hcr : NoCollision cr s.bodiesSeen)
    {device : Device} {id : String} {u : Upload} {progress : Progress}
    (hrow : s.disk.db.uploadRow device id s.clock = .ok u) (hfits : Fits cr s id u)
    (hreads : Reads cr s id u.size progress) :
    ∃ next, s.disk.readOn cr device id u.hash u.size s.clock progress = .ok next := by
  have hk := h.bodiesKept hcr
  cases progress with
  | assembled bytes => exact ⟨_,rfl⟩
  | opened =>
    unfold Disk.readOn
    dsimp only
    split
    · next b hb =>
      obtain ⟨_, recipe, -, hdecode, -⟩ := h.honest.filed.recipes id b hb
      exact ⟨_,bind_eq_ok.mpr ⟨recipe,lift_eq_ok.mpr hdecode,rfl⟩⟩
    · exact ⟨_,rfl⟩
  | bases recipe rest found =>
    obtain ⟨b, done, hb, hdecode, hbases, hsources⟩ := hreads
    cases rest with
    | cons base rest =>
      have hmem : base ∈ recipe.bases := by
        rw [hbases]
        exact List.mem_append_right _ List.mem_cons_self
      obtain ⟨body, hbody, -⟩ := openObject_of_base hk h.tables.2 hb hdecode hmem
      exact ⟨_,bind_eq_ok.mpr ⟨body,hbody,rfl⟩⟩
    | nil =>
      unfold Fits at hfits
      rw [hb] at hfits
      obtain ⟨recipe', found', bytes, hdecode', hsources', happly⟩ := hfits
      obtain rfl := Except.ok.inj (hdecode.symm.trans hdecode')
      rw [List.append_nil] at hbases
      rw [← hbases] at hsources
      obtain rfl := eq_of_sources hcr hsources hsources'
      refine ⟨.assembled bytes,?_⟩
      unfold Disk.readOn
      dsimp only
      rw [if_neg fun hlost => ?_]
      · exact bind_eq_ok.mpr ⟨bytes,lift_eq_ok.mpr happly,rfl⟩
      · rw [hrow] at hlost
        cases hlost.2
  | chunks index read =>
    obtain ⟨hnone, l, rfl, hle, hpieces, rfl⟩ := hreads
    unfold Fits at hfits
    rw [hnone] at hfits
    obtain ⟨l', hlength, hpieces', hsize, hhash⟩ := hfits
    unfold Disk.readOn
    dsimp only
    split_ifs with hlt
    · have hlt' : l.length < l'.length := by rwa [hlength]
      obtain ⟨c, hc, -⟩ := hpieces' l.length _ (List.getElem?_eq_getElem hlt')
      obtain ⟨-, file, hfile, hname, hsize'⟩ := h.chunksKept (id,l.length) c hc
      rw [hc, hfile]
      exact ⟨_,bind_eq_ok.mpr ⟨(),require_eq_ok.mpr ⟨hsize',hname⟩,rfl⟩⟩
    · obtain rfl := eq_of_pieces hcr (by omega) hpieces hpieces'
      exact ⟨_,bind_eq_ok.mpr ⟨(),require_eq_ok.mpr ⟨hsize,hhash⟩,rfl⟩⟩

/-- A body that came up under the hash of an upload can be published. -/
theorem publishUpload_of_names (h : Reachable cr Orderly s) (hcr : NoCollision cr s.bodiesSeen)
    {device : Device} {id : String} {u : Upload} {bytes : Bytes}
    (hrow : s.disk.db.uploadRow device id s.clock = .ok u) (hb : Names cr s bytes u.hash)
    (hsize : bytes.length = u.size) :
    ∃ writes, s.disk.db.publishUpload cr device id u.hash u.size bytes s.clock = .ok writes := by
  have hk := h.bodiesKept hcr
  have hhash := h.tables.2.hash id u (uploadRow_eq_ok hrow).2.2.1
  have hbody : ∀ storage b, s.disk.bodyOf storage u.hash = some b → b = bytes := fun storage b hb' =>
    eq_of_names hcr ⟨hk.body hb',h.remembered.disk b (mem_bodies_of_bodyOf hb')⟩ hb
  have hplaced : s.disk.db.placement u.hash = .ok (s.disk.db.objects.get u.hash) :=
    bind_eq_ok.mpr ⟨(),lift_eq_ok.mpr hhash,rfl⟩
  have hrows : ∀ row ∈ s.disk.db.objects.get u.hash, row.size = u.size := by
    intro row hmem
    obtain ⟨b, hb', hlength⟩ := hk.rows u.hash row hmem
    rw [← hlength, hbody _ b hb', hsize]
  have hfill : ∀ inline, ∃ db, s.disk.db.fill cr inline u.hash bytes = .ok db := by
    intro inline
    unfold fill
    split_ifs
    · unfold insertBatch
      cases hsmall : s.disk.db.smallObjects.get u.hash with
      | none => exact ⟨_,bind_eq_ok.mpr ⟨(),require_eq_ok.mpr ⟨hhash,hb.1⟩,rfl⟩⟩
      | some stored =>
        have hstored := hbody .inline stored hsmall
        exact ⟨_,bind_eq_ok.mpr ⟨(),require_eq_ok.mpr ⟨hhash,hb.1⟩,
          bind_eq_ok.mpr ⟨(),require_eq_ok.mpr hstored,rfl⟩⟩⟩
    · exact ⟨_,rfl⟩
  obtain ⟨db, hdb⟩ := hfill ((s.disk.db.objects.get u.hash).any fun row : ObjectRow =>
    decide (row.storage = Storage.inline))
  exact ⟨_,bind_eq_ok.mpr ⟨u,hrow,bind_eq_ok.mpr ⟨_,hplaced,bind_eq_ok.mpr ⟨(),
    require_eq_ok.mpr hrows,bind_eq_ok.mpr ⟨db,hdb,rfl⟩⟩⟩⟩⟩

/-! ### Calls end -/

lemma stage_eq_some {c : Call} {id : String} {g : Stage} (h : c.stage id = some g) :
    (∃ caller device, c = .starting caller device id ∧ g = .starting caller) ∨
    (∃ caller device digest size progress, c = .finishing caller device id digest size progress ∧
      g = .holding caller) ∨
    (∃ caller e, c = .failing caller id e ∧ g = .holding caller) ∨
    ∃ outcome, c = .settling id outcome ∧
      g = .settling (outcome.map fun e => decide (e.status < 500)) := by
  have hid : ∀ {id' : String} {g' : Stage}, (if id' = id then some g' else none) = some g →
      id' = id ∧ g = g' := by
    intro id' g' h
    split_ifs at h with hid
    exact ⟨hid,(Option.some.inj h).symm⟩
  cases c with
  | chunk | placing | sorting | storing => cases h
  | starting caller device id' =>
    obtain ⟨rfl, rfl⟩ := hid h
    exact .inl ⟨caller,device,rfl,rfl⟩
  | finishing caller device id' digest size progress =>
    obtain ⟨rfl, rfl⟩ := hid h
    exact .inr (.inl ⟨caller,device,digest,size,progress,rfl,rfl⟩)
  | failing caller id' e =>
    obtain ⟨rfl, rfl⟩ := hid h
    exact .inr (.inr (.inl ⟨caller,e,rfl,rfl⟩))
  | settling id' outcome =>
    obtain ⟨rfl, rfl⟩ := hid h
    exact .inr (.inr (.inr ⟨outcome,rfl,rfl⟩))

lemma driven_of_holding {op : Op} {n : ℕ} {c : Call} {id : String} {g : Stage}
    (hop : op.call = some n) (hw : op.working = true) (hc : s.calls.get n = some c)
    (hg : c.stage id = some g) (hstart : ∀ m, op ≠ .startFinish m) :
    Driven cr now s (s.exec cr (.perform op)) n id :=
  driven_step hop hw hc (by rw [hg]; exact Option.some_ne_none _)
    fun m _ _ hm => absurd hm (hstart m)

lemma rollBack_ends {n : ℕ} {caller : Caller} {id : String} {e : Error}
    (hc : s.calls.get n = some (.failing caller id e)) :
    Driven cr now s (s.exec cr (.perform (.rollBack n))) n id ∧
      (s.exec cr (.perform (.rollBack n))).calls.get n =
        (Outcome.returned [] caller id (some e)).call := by
  refine ⟨driven_of_holding rfl rfl hc (if_pos rfl) fun _ h => (by cases h),?_⟩
  rw [call_exec rfl]
  unfold outcome
  dsimp only
  rw [hc]
  cases caller <;> rfl

lemma outcome_publish {n : ℕ} {caller : Caller} {device : Device} {id digest : String} {size : ℕ}
    {bytes : Bytes}
    (hc : s.calls.get n = some (.finishing caller device id digest size (.assembled bytes))) :
    s.outcome cr (.publish n) =
      match s.disk.db.publishUpload cr device id digest size bytes s.clock with
      | .ok writes => .returned writes caller id none
      | .error e => .next (.failing caller id e) := by
  unfold outcome
  dsimp only
  rw [hc]
  rfl

/-- A call that holds an upload returns to its caller. -/
theorem holding_ends {n : ℕ} {c : Call} {id : String} {caller : Caller}
    (hc : s.calls.get n = some c) (hg : c.stage id = some (.holding caller)) :
    ∃ t outcome, Driven cr now s t n id ∧
      t.calls.get n = (Outcome.returned [] caller id outcome).call := by
  have hfailing : ∀ {r : System} {e}, Driven cr now s r n id →
      r.calls.get n = some (.failing caller id e) → ∃ t outcome, Driven cr now s t n id ∧
        t.calls.get n = (Outcome.returned [] caller id outcome).call := by
    intro r e hdriven hcall
    obtain ⟨hdriven', hend⟩ := @rollBack_ends cr now r n caller id e hcall
    exact ⟨_,some e,hdriven.trans hdriven',hend⟩
  rcases stage_eq_some hg with ⟨_, _, -, hsame⟩ |
    ⟨caller', device, digest, size, progress, rfl, hsame⟩ | ⟨caller', e, rfl, hsame⟩ | ⟨_, -, hsame⟩
  · cases hsame
  · obtain rfl := Stage.holding.inj hsame
    obtain ⟨t, progress', hdriven, hcall, ⟨bytes, rfl⟩ | ⟨e, he⟩⟩ :=
      @reads_end cr now s n caller device id digest size progress hc
    · have hpublish := @driven_of_holding cr now t (.publish n) n _ id _ rfl rfl hcall (if_pos rfl)
        fun _ h => (by cases h)
      have hnext := @call_exec cr t (.publish n) n rfl
      rw [outcome_publish hcall] at hnext
      cases h : t.disk.db.publishUpload cr device id digest size bytes t.clock with
      | ok writes =>
        rw [h] at hnext
        exact ⟨_,none,hdriven.trans hpublish,hnext.trans (by cases caller <;> rfl)⟩
      | error e =>
        rw [h] at hnext
        exact hfailing (hdriven.trans hpublish) hnext
    · have hread := @driven_of_holding cr now t (.read n) n _ id _ rfl rfl hcall (if_pos rfl)
        fun _ h => (by cases h)
      have hnext := @call_exec cr t (.read n) n rfl
      rw [resume_read hcall, he] at hnext
      exact hfailing (hdriven.trans hread) hnext
  · obtain rfl := Stage.holding.inj hsame
    exact hfailing (.refl _ _ _) hc
  · cases hsame

/-- The job of an upload is not due, unless it is there with a time that has come. -/
def Idle (s : System) (id : String) : Prop :=
  ∀ job, s.disk.db.uploadJobs.get id = some job → job.terminal = true ∨ s.clock < job.retryAfter

lemma disk_settle {n : ℕ} {id : String} {outcome : Option Error}
    (hc : s.calls.get n = some (.settling id outcome)) :
    (s.exec cr (.perform (.settle n))).disk.db = s.disk.db.settleJob id outcome s.clock := by
  have hout : s.outcome cr (.settle n) =
      ⟨[.commit (s.disk.db.settleJob id outcome s.clock)],none,none⟩ := by
    unfold System.outcome
    dsimp only
    rw [hc]
    rfl
  change (written Disk.apply s.disk (s.outcome cr (.settle n)).writes).db = _
  rw [hout]
  rfl

lemma settle_ends {n : ℕ} {id : String} {outcome : Option Error}
    (hc : s.calls.get n = some (.settling id outcome)) :
    Driven cr now s (s.exec cr (.perform (.settle n))) n id ∧
      (s.exec cr (.perform (.settle n))).calls.get n = none ∧
      Idle (s.exec cr (.perform (.settle n))) id := by
  refine ⟨driven_of_holding rfl rfl hc (if_pos rfl) fun _ h => (by cases h),?_,fun job hjob => ?_⟩
  · rw [call_exec rfl]
    unfold System.outcome
    dsimp only
    rw [hc]
    rfl
  · rw [disk_settle hc] at hjob
    cases outcome with
    | none =>
      change (s.disk.db.uploadJobs.erase id).get id = some job at hjob
      rw [Table.get_erase, if_pos rfl] at hjob
      cases hjob
    | some e =>
      rw [get_settleJob_jobs] at hjob
      obtain ⟨job', -, rfl⟩ := Option.map_eq_some_iff.mp hjob
      right
      rw [if_pos rfl]
      change s.clock < s.clock + min (2^(min job'.attempts 9)) 300
      have hpow : (0 : ℤ) < 2^(min job'.attempts 9) := by positivity
      omega

/-- A run of the worker ends, and its job is not due then. -/
theorem worker_ends {n : ℕ} {c : Call} {id : String} {g : Stage} (hc : s.calls.get n = some c)
    (hg : c.stage id = some g) (hw : g.working = true) :
    ∃ t, Driven cr now s t n id ∧ t.calls.get n = none ∧ Idle t id := by
  have hsettling : ∀ {r : System} {outcome}, Driven cr now s r n id →
      r.calls.get n = some (.settling id outcome) →
      ∃ t, Driven cr now s t n id ∧ t.calls.get n = none ∧ Idle t id := by
    intro r outcome hdriven hcall
    obtain ⟨hdriven', hend⟩ := @settle_ends cr now r n id outcome hcall
    exact ⟨_,hdriven.trans hdriven',hend⟩
  have hholding : ∀ {r : System} {c}, Driven cr now s r n id → r.calls.get n = some c →
      c.stage id = some (.holding .worker) →
      ∃ t, Driven cr now s t n id ∧ t.calls.get n = none ∧ Idle t id := by
    intro r c hdriven hcall hstage
    obtain ⟨t, outcome, hdriven', hend⟩ := @holding_ends cr now r n c id .worker hcall hstage
    exact hsettling (hdriven.trans hdriven') hend
  have hstage := hg
  rcases stage_eq_some hg with ⟨caller, device, rfl, rfl⟩ | ⟨caller, _, _, _, _, rfl, rfl⟩ |
    ⟨caller, _, rfl, rfl⟩ | ⟨outcome, rfl, -⟩
  · obtain rfl := of_decide_eq_true hw
    have hstart := @driven_step cr now s (.startFinish n) n _ id rfl rfl hc
      (by rw [hstage]; exact Option.some_ne_none _) fun m d k hm hreq => by
        obtain rfl := Op.startFinish.inj hm
        rw [hc] at hreq
        cases hreq
    have hnext := @call_exec cr s (.startFinish n) n rfl
    have hout : s.outcome cr (.startFinish n) = s.resume cr (.startFinish n)
        (.starting .worker device id) := by
      unfold outcome
      dsimp only
      rw [hc]
    rw [hout] at hnext
    unfold resume at hnext
    dsimp only at hnext
    cases h : s.disk.db.startFinish device id s.clock with
    | error e =>
      rw [h] at hnext
      exact hsettling hstart hnext
    | ok started =>
      rw [h] at hnext
      cases started with
      | complete digest => exact hsettling hstart hnext
      | finalizing digest size db => exact hholding hstart hnext (if_pos rfl)
  · obtain rfl := of_decide_eq_true hw
    exact hholding (.refl _ _ _) hc hstage
  · obtain rfl := of_decide_eq_true hw
    exact hholding (.refl _ _ _) hc hstage
  · exact hsettling (.refl _ _ _) hc

/-! ### One worker -/

/-- `upload_job_gate` has one holder. -/
def OneWorker (s : System) : Prop :=
  ∀ n m c c', s.calls.get n = some c → s.calls.get m = some c' → c.working = true →
    c'.working = true → n = m

lemma caller_of_returned {writes : List Write} {caller : Caller} {id : String}
    {outcome : Option Error} {c : Call}
    (h : (Outcome.returned writes caller id outcome).call = some c) : caller = .worker := by
  cases caller with
  | request => cases h
  | worker => rfl

lemma working_of_cases {op : Op} {o : Outcome} (h : Cases cr s op o) {n : ℕ} {c : Call}
    (hop : op.call = some n) (hcall : o.call = some c) (hw : c.working = true) :
    (∃ c', s.calls.get n = some c' ∧ c'.working = true) ∨
      ∀ m c', s.calls.get m = some c' → c'.working = false := by
  cases h with
  | idle _ _ hc => exact .inl ⟨c,(hc n hop).symm.trans hcall,hw⟩
  | ended | device | begin | stored | attached | submitted | settled | cancelled | publishedSome |
    storing | pinned | maintained | drained => cases hcall
  | sent | offered | finishes =>
    obtain rfl := Option.some.inj hcall
    cases hw
  | @sifted _ _ _ next _ _ _ hk' =>
    obtain rfl := Option.some.inj hcall
    cases next with
    | placing | sorting | storing => cases hw
    | _ => cases hk'
  | taken _ _ hidle => exact .inr hidle
  | started hc | read hc | unread hc | failed hc | unpublished hc =>
    obtain rfl := Option.some.inj hop
    obtain rfl := Option.some.inj hcall
    exact .inl ⟨_,hc,hw⟩
  | completed hc | refused hc | published hc | rolledBack hc =>
    obtain rfl := Option.some.inj hop
    refine .inl ⟨_,hc,?_⟩
    exact decide_eq_true (caller_of_returned hcall)

theorem OneWorker.exec (hs : OneWorker s) (e : Event) : OneWorker (s.exec cr e) := by
  cases e with
  | crash op k => exact fun n m c c' hc => by cases hc
  | perform op =>
    -- a call that comes to work took the gate, or had it
    have hnew : ∀ {n m c c'}, op.call = some n → (s.outcome cr op).call = some c →
        c.working = true → s.calls.get m = some c' → c'.working = true → n = m := by
      intro n m c c' hop hcall hw hc' hw'
      rcases working_of_cases (@outcome_cases cr s op) hop hcall hw with ⟨d, hd, hwd⟩ | hidle
      · exact hs n m d c' hd hc' hwd hw'
      · rw [hidle m c' hc'] at hw'
        cases hw'
    intro n m c c' hc hc' hw hw'
    rcases get_nextCalls hc with hc | ⟨hop, hcall⟩ <;>
      rcases get_nextCalls hc' with hc' | ⟨hop', hcall'⟩
    · exact hs n m c c' hc hc' hw hw'
    · exact (hnew hop' hcall' hw' hc hw).symm
    · exact hnew hop hcall hw hc' hw'
    · exact Option.some.inj (hop.symm.trans hop')

theorem Reachable.oneWorker {P : System → Event → Prop} (h : Reachable cr P s) : OneWorker s := by
  induction h with
  | create => exact fun n m c c' hc => by cases hc
  | step _ _ ih => exact ih.exec _

/-- The worker rests. -/
def Quiet (s : System) : Prop := ∀ n c, s.calls.get n = some c → c.working = false

lemma working_of_stage {c : Call} {id : String} {g : Stage} (h : c.stage id = some g) :
    c.working = g.working := by
  rcases stage_eq_some h with ⟨_, _, rfl, rfl⟩ | ⟨_, _, _, _, _, rfl, rfl⟩ | ⟨_, _, rfl, rfl⟩ |
    ⟨_, rfl, rfl⟩ <;> rfl

lemma stage_of_working {c : Call} (h : c.working = true) : ∃ id g, c.stage id = some g := by
  cases c with
  | starting caller device id => exact ⟨id,_,if_pos rfl⟩
  | finishing caller device id => exact ⟨id,_,if_pos rfl⟩
  | failing caller id => exact ⟨id,_,if_pos rfl⟩
  | settling id => exact ⟨id,_,if_pos rfl⟩
  | _ => cases h

lemma Driven.quiet {n : ℕ} {id : String} (h : Driven cr now s t n id) (hs : OneWorker s) {c : Call}
    (hc : s.calls.get n = some c) (hw : c.working = true) (hend : t.calls.get n = none) :
    Quiet t := by
  intro m d hd
  by_cases hm : m = n
  · rw [hm, hend] at hd
    cases hd
  · rw [h.calls m hm] at hd
    by_contra hwd
    exact hm (hs m n d c hd hc (Bool.not_eq_false _ ▸ hwd) hw)

lemma exists_free (s : System) : ∃ n, s.calls.get n = none := by
  obtain ⟨n, hn⟩ := Infinite.exists_notMem_finset (s.calls.rows.map Prod.fst).toFinset
  exact ⟨n,Table.get_eq_none.mpr fun hmem => hn (List.mem_toFinset.mpr hmem)⟩

end System
end RisuNest.Transfer
