import RisuNest.Transfer.Bodies
import RisuNest.Transfer.Histories

/-! Why an upload fails for good: its time has run out, its device was revoked, or what its chunks
or its recipe come to is not its manifest. -/
namespace RisuNest.Transfer
open Wire Server Db

namespace Disk
variable {cr : Crates} {d : Disk} {digest : String}

/-- The body of an object that is there. -/
def objectBody (d : Disk) (digest : String) : Option Bytes :=
  (d.db.objects.get digest).bind fun row => d.bodyOf row.storage digest

theorem openObject_eq_ok {body : Bytes} (h : d.openObject cr digest = .ok body) :
    d.objectBody digest = some body := by
  obtain ⟨placed, hplaced, h⟩ := bind_eq_ok.mp h
  obtain rfl := placement_eq_ok hplaced
  unfold objectBody
  split at h
  · cases h
  · next size hrow =>
    rw [hrow]
    split at h
    · cases h
    · next body' hbody =>
      obtain ⟨_, -, h⟩ := bind_eq_ok.mp h
      obtain ⟨_, -, h⟩ := bind_eq_ok.mp h
      obtain rfl := Except.ok.inj h
      exact hbody
  · next size hrow =>
    rw [hrow]
    split at h
    · cases h
    · next body' hbody =>
      obtain ⟨_, -, h⟩ := bind_eq_ok.mp h
      obtain rfl := Except.ok.inj h
      exact hbody

/-- An object that has a row can be read. -/
theorem openObject_of_get (hk : BodiesKept cr d) {row : ObjectRow}
    (hrow : d.db.objects.get digest = some row) (hhash : validateHash digest = .ok ())
    (hsmall : row.storage = .inline → row.size ≤ smallObjectBytes) :
    ∃ body, d.openObject cr digest = .ok body ∧ body.length = row.size := by
  obtain ⟨body, hbody, hlength⟩ := hk.rows digest row hrow
  have hplaced : d.db.placement digest = .ok (some row) := by
    refine bind_eq_ok.mpr ⟨(),lift_eq_ok.mpr hhash,?_⟩
    rw [hrow]
    rfl
  refine ⟨body,bind_eq_ok.mpr ⟨some row,hplaced,?_⟩,hlength⟩
  have hown := hk.body hbody
  obtain ⟨size, storage⟩ := row
  cases storage with
  | inline =>
    change d.db.smallObjects.get digest = some body at hbody
    dsimp only
    rw [hbody]
    refine bind_eq_ok.mpr ⟨(),require_eq_ok.mpr (hlength ▸ hsmall rfl),?_⟩
    exact bind_eq_ok.mpr ⟨(),require_eq_ok.mpr ⟨hown,hlength⟩,rfl⟩
  | file =>
    change d.published.get digest = some body at hbody
    dsimp only
    rw [hbody]
    exact bind_eq_ok.mpr ⟨(),require_eq_ok.mpr hlength,rfl⟩

end Disk

namespace System
variable {cr : Crates} {s : System}

/-- A body that came up, under its hash. -/
def Names (cr : Crates) (s : System) (b : Bytes) (digest : String) : Prop :=
  hash cr b = digest ∧ b ∈ s.bodiesSeen

/-- The bodies of the first chunks of an upload. -/
def Pieces (cr : Crates) (s : System) (id : String) (l : List Bytes) : Prop :=
  ∀ i b, l[i]? = some b →
    ∃ c, s.disk.db.uploadChunks.get (id,i) = some c ∧ Names cr s b c.hash

/-- The bodies of bases. -/
def Sources (cr : Crates) (s : System) (found : List Bytes) (bases : List Base) : Prop :=
  List.Forall₂ (fun b (base : Base) => Names cr s b base.hash) found bases

/-- What the recipe or the chunks of an upload come to is not its manifest. -/
def Mismatch (cr : Crates) (s : System) (id : String) (u : Upload) : Prop :=
  match s.disk.db.uploadDeltas.get id with
  | some b => ∃ recipe found, Recipe.decode b = .ok recipe ∧ Sources cr s found recipe.bases ∧
      ∀ bytes, recipe.apply cr found ≠ .ok bytes
  | none => ∃ l, l.length = divCeil u.size uploadChunkBytes ∧ Pieces cr s id l ∧
      ¬ (l.flatten.length = u.size ∧ hash cr l.flatten = u.hash)

/-- The time of an upload has run out, or its device was revoked. -/
def Dead (s : System) (u : Upload) : Prop :=
  u.expires ≤ s.clock ∨ s.disk.db.devices.get u.device = some true

/-- How far a call has read is what it has read of the recipe or of the chunks. -/
def Reads (cr : Crates) (s : System) (id : String) (size : ℕ) : Progress → Prop
  | .bases recipe rest found => ∃ b done, s.disk.db.uploadDeltas.get id = some b ∧
      Recipe.decode b = .ok recipe ∧ recipe.bases = done ++ rest ∧ Sources cr s found done
  | .chunks index read => s.disk.db.uploadDeltas.get id = none ∧ ∃ l, l.length = index ∧
      l.length ≤ divCeil size uploadChunkBytes ∧ Pieces cr s id l ∧ l.flatten = read
  | _ => True

lemma names_file (hr : Remembered s) {k : String × ℕ} {b : Bytes}
    (hb : s.disk.staging.get k = some b) : Names cr s b (hash cr b) := by
  refine ⟨rfl,hr.disk b (List.mem_append_left _ (List.mem_append_left _ ?_))⟩
  exact List.mem_map_of_mem (f := Prod.snd) (Table.get_eq_some.mp hb)

lemma names_object (hk : BodiesKept cr s.disk) (hr : Remembered s) {digest : String} {b : Bytes}
    (hb : s.disk.objectBody digest = some b) : Names cr s b digest := by
  obtain ⟨row, -, hbody⟩ := Option.bind_eq_some_iff.mp hb
  exact ⟨hk.body hbody,hr.disk b (mem_bodies_of_bodyOf hbody)⟩

lemma Pieces.append {id : String} {l : List Bytes} {b : Bytes} {c : Chunk}
    (h : Pieces cr s id l) (hc : s.disk.db.uploadChunks.get (id,l.length) = some c)
    (hb : Names cr s b c.hash) : Pieces cr s id (l ++ [b]) := by
  intro i x hx
  rcases lt_trichotomy i l.length with hlt | heq | hgt
  · rw [List.getElem?_append_left hlt] at hx
    exact h i x hx
  · rw [heq, List.getElem?_concat_length] at hx
    obtain rfl := Option.some.inj hx
    exact heq ▸ ⟨c,hc,hb⟩
  · rw [List.getElem?_eq_none (by rw [List.length_append, List.length_singleton]; omega)] at hx
    cases hx

/-- What a part of a call reads adds to what it has read. -/
theorem reads_next (hk : BodiesKept cr s.disk) (hr : Remembered s) {device : Device}
    {id digest : String} {size : ℕ} {progress next : Progress}
    (hreads : Reads cr s id size progress)
    (h : s.disk.readOn cr device id digest size s.clock progress = .ok next) :
    Reads cr s id size next := by
  cases progress with
  | opened =>
    unfold Disk.readOn at h
    dsimp only at h
    split at h
    · next b hb =>
      obtain ⟨recipe, hdecode, h⟩ := bind_eq_ok.mp h
      obtain rfl := Except.ok.inj h
      exact ⟨b,[],hb,lift_eq_ok.mp hdecode,rfl,.nil⟩
    · next hnone =>
      obtain rfl := Except.ok.inj h
      exact ⟨hnone,[],rfl,Nat.zero_le _,fun i b hb => (by cases hb),rfl⟩
  | bases recipe rest found =>
    obtain ⟨b, done, hb, hdecode, hbases, hsources⟩ := hreads
    cases rest with
    | cons base rest =>
      obtain ⟨body, hbody, h⟩ := bind_eq_ok.mp h
      obtain rfl := Except.ok.inj h
      refine ⟨b,done ++ [base],hb,hdecode,by rw [hbases, List.append_assoc]; rfl,?_⟩
      exact List.rel_append hsources
        (.cons (names_object hk hr (Disk.openObject_eq_ok hbody)) .nil)
    | nil =>
      unfold Disk.readOn at h
      dsimp only at h
      split_ifs at h
      obtain ⟨bytes, -, h⟩ := bind_eq_ok.mp h
      obtain rfl := Except.ok.inj h
      trivial
  | chunks index read =>
    obtain ⟨hnone, l, rfl, hle, hpieces, rfl⟩ := hreads
    unfold Disk.readOn at h
    dsimp only at h
    split_ifs at h with hlt
    · split at h
      · cases h
      · cases h
      · next c file hc hfile =>
        obtain ⟨_, hsame, h⟩ := bind_eq_ok.mp h
        obtain ⟨-, hsame⟩ := require_eq_ok.mp hsame
        obtain rfl := Except.ok.inj h
        refine ⟨hnone,l ++ [file],by simp,by
          rw [List.length_append, List.length_singleton]
          exact hlt,?_,by simp⟩
        exact hpieces.append hc (hsame ▸ names_file hr hfile)
    · obtain ⟨_, -, h⟩ := bind_eq_ok.mp h
      obtain rfl := Except.ok.inj h
      trivial
  | assembled bytes =>
    obtain rfl := Except.ok.inj h
    trivial

/-- The device as the worker presents it (`Device::resumed`). -/
def resumed (u : Upload) : Device := ⟨u.device,some libraryFormatMaxLevel⟩

/-- The worker finds an upload whose time has not run out and whose device was not revoked. -/
theorem uploadRow_of_alive (ht : Tables s.clock s.disk.db) {id : String} {u : Upload}
    (hid : validateId id = .ok ()) (hu : s.disk.db.uploads.get id = some u) (h : ¬ Dead s u) :
    s.disk.db.uploadRow (resumed u) id s.clock = .ok u := by
  unfold Dead at h
  push Not at h
  obtain ⟨revoked, hr⟩ := ht.owner id u hu
  have hactive : s.disk.db.devices.get u.device = some false := by
    cases revoked with
    | false => exact hr
    | true => exact absurd hr h.2
  refine uploadRow_of_get hid (bind_eq_ok.mpr ⟨(),require_eq_ok.mpr hactive,?_⟩) hu rfl h.1
  have hlevel := ht.level
  unfold admitFormat resumed
  split_ifs
  · rfl
  · dsimp only
    rw [if_neg (by omega)]

lemma dead_of_uploadRow (ht : Tables s.clock s.disk.db) {id : String} {u : Upload} {e : Error}
    (hid : validateId id = .ok ()) (hu : s.disk.db.uploads.get id = some u)
    (h : s.disk.db.uploadRow (resumed u) id s.clock = .error e) : Dead s u := by
  by_contra halive
  rw [uploadRow_of_alive ht hid hu halive] at h
  cases h

lemma validateHash_of_bases {limit : ℕ} {bases : List Base} {seen : List String} {sum : ℕ}
    (h : Recipe.validateBases limit bases seen sum = .ok ()) :
    ∀ base ∈ bases, validateHash base.hash = .ok () := by
  induction bases generalizing seen sum with
  | nil => exact List.forall_mem_nil _
  | cons base bases ih =>
    obtain ⟨_, hhash, h⟩ := bind_eq_ok.mp h
    obtain ⟨_, -, h⟩ := bind_eq_ok.mp h
    exact List.forall_mem_cons.mpr ⟨hhash,ih h⟩

lemma validateHash_of_decode {bytes : Bytes} {recipe : Recipe}
    (h : Recipe.decode bytes = .ok recipe) : ∀ base ∈ recipe.bases, validateHash base.hash = .ok () := by
  obtain ⟨_, -, h⟩ := bind_eq_ok.mp (Recipe.validate_of_decode h)
  obtain ⟨_, -, h⟩ := bind_eq_ok.mp h
  obtain ⟨_, hbases, -⟩ := bind_eq_ok.mp h
  exact validateHash_of_bases hbases

lemma openObject_of_base (hk : BodiesKept cr s.disk) (ht : Tables s.clock s.disk.db) {id : String}
    {b : Bytes} {recipe : Recipe} (hb : s.disk.db.uploadDeltas.get id = some b)
    (hdecode : Recipe.decode b = .ok recipe) {base : Base} (hbase : base ∈ recipe.bases) :
    ∃ body, s.disk.openObject cr base.hash = .ok body ∧ body.length = base.size := by
  obtain ⟨row, hrow, hsize⟩ := Option.map_eq_some_iff.mp (ht.bases id b recipe hb hdecode base hbase).2
  rw [← hsize]
  exact Disk.openObject_of_get hk hrow (validateHash_of_decode hdecode base hbase)
    (ht.small base.hash row hrow)

/-- A part of the worker's call that fails for good has a reason. -/
theorem verdict_of_readOn (hk : BodiesKept cr s.disk) (ht : Tables s.clock s.disk.db)
    (hh : Honest cr s) {id digest : String} {size : ℕ} {progress : Progress} {u : Upload} {e : Error}
    (hid : validateId id = .ok ()) (hu : s.disk.db.uploads.get id = some u) (hhash : u.hash = digest)
    (hsize : u.size = size) (hreads : Reads cr s id size progress)
    (h : s.disk.readOn cr (resumed u) id digest size s.clock progress = .error e)
    (he : e.status < 500) : Dead s u ∨ Mismatch cr s id u := by
  subst hhash hsize
  cases progress with
  | opened =>
    unfold Disk.readOn at h
    dsimp only at h
    split at h
    · next b hb =>
      obtain ⟨_, recipe, -, hdecode, -⟩ := hh.filed.recipes id b hb
      rw [hdecode] at h
      cases h
    · cases h
  | bases recipe rest found =>
    obtain ⟨b, done, hb, hdecode, hbases, hsources⟩ := hreads
    cases rest with
    | cons base rest =>
      have hmem : base ∈ recipe.bases := by
        rw [hbases]
        exact List.mem_append_right _ List.mem_cons_self
      obtain ⟨body, hbody, -⟩ := openObject_of_base hk ht hb hdecode hmem
      unfold Disk.readOn at h
      dsimp only at h
      rw [hbody] at h
      cases h
    | nil =>
      unfold Disk.readOn at h
      dsimp only at h
      split_ifs at h with hlost
      · cases hrow : s.disk.db.uploadRow (resumed u) id s.clock with
        | ok row =>
          rw [hrow] at hlost
          cases hlost.2
        | error e' => exact .inl (dead_of_uploadRow ht hid hu hrow)
      · right
        unfold Mismatch
        rw [hb]
        refine ⟨recipe,found,hdecode,?_,fun bytes hbytes => ?_⟩
        · rw [hbases, List.append_nil]
          exact hsources
        · rw [hbytes] at h
          cases h
  | chunks index read =>
    obtain ⟨hnone, l, rfl, hle, hpieces, rfl⟩ := hreads
    unfold Disk.readOn at h
    dsimp only at h
    split_ifs at h with hlt
    · split at h
      · obtain rfl := Except.error.inj h
        exact absurd he (by decide)
      · obtain rfl := Except.error.inj h
        exact absurd he (by decide)
      · rcases bind_eq_error.mp h with h | ⟨_, -, h⟩
        · obtain ⟨-, rfl⟩ := require_eq_error.mp h
          exact absurd he (by decide)
        · cases h
    · rcases bind_eq_error.mp h with h | ⟨_, -, h⟩
      · obtain ⟨hother, -⟩ := require_eq_error.mp h
        right
        unfold Mismatch
        rw [hnone]
        exact ⟨l,by omega,hpieces,hother⟩
      · cases h
  | assembled bytes => cases h

lemma status_of_insertBatch {db : Db} {l : List (String × Bytes)} {e : Error}
    (h : db.insertBatch cr l = .error e) : e.status = 503 := by
  induction l generalizing db with
  | nil => cases h
  | cons o l ih =>
    obtain ⟨digest, bytes⟩ := o
    rcases bind_eq_error.mp h with h | ⟨_, -, h⟩
    · obtain ⟨-, rfl⟩ := require_eq_error.mp h
      rfl
    split at h
    · rcases bind_eq_error.mp h with h | ⟨_, -, h⟩
      · obtain ⟨-, rfl⟩ := require_eq_error.mp h
        rfl
      · exact ih h
    · exact ih h

lemma dead_of_publishUpload (ht : Tables s.clock s.disk.db) {id digest : String} {size : ℕ}
    {bytes : Bytes} {u : Upload} {e : Error} (hid : validateId id = .ok ())
    (hu : s.disk.db.uploads.get id = some u) (hhash : u.hash = digest)
    (h : s.disk.db.publishUpload cr (resumed u) id digest size bytes s.clock = .error e)
    (he : e.status < 500) : Dead s u := by
  rcases bind_eq_error.mp h with h | ⟨_, -, h⟩
  · exact dead_of_uploadRow ht hid hu h
  rcases bind_eq_error.mp h with h | ⟨placed, -, h⟩
  · rcases bind_eq_error.mp h with h | ⟨_, -, h⟩
    · rw [← hhash, ht.hash id u hu] at h
      cases h
    · cases h
  rcases bind_eq_error.mp h with h | ⟨_, -, h⟩
  · obtain ⟨-, rfl⟩ := require_eq_error.mp h
    exact absurd he (by decide)
  rcases bind_eq_error.mp h with h | ⟨_, -, h⟩
  · unfold fill at h
    split_ifs at h
    have := status_of_insertBatch h
    omega
  · cases h

/-! ### Verdicts last -/

lemma Names.exec {b : Bytes} {digest : String} (h : Names cr s b digest) (e : Event) :
    Names cr (s.exec cr e) b digest :=
  ⟨h.1,bodiesSeen_exec s e b h.2⟩

lemma Sources.exec {found : List Bytes} {bases : List Base} (h : Sources cr s found bases)
    (e : Event) : Sources cr (s.exec cr e) found bases :=
  h.imp fun _ _ hb => hb.exec e

lemma Reachable.before (h : Reachable cr Orderly s) {e : Event} {id : String} {u' : Upload}
    (hid : id ∈ s.issued) (hu' : (s.exec cr e).disk.db.uploads.get id = some u') :
    ∃ u, s.disk.db.uploads.get id = some u ∧ u'.hash = u.hash ∧ u'.size = u.size ∧
      u'.device = u.device ∧ u'.expires = u.expires :=
  descends_exec h.honest e id hid u' hu'

lemma Dead.exec {u u' : Upload} {id : String} {e : Event} (hd : Dead s u)
    (h : Reachable cr Orderly s) (he : Orderly s e)
    (hu' : (s.exec cr e).disk.db.uploads.get id = some u') (hdevice : u'.device = u.device)
    (hexpires : u'.expires = u.expires) : Dead (s.exec cr e) u' := by
  rcases hd with hd | hd
  · left
    rw [hexpires, clock_exec]
    exact hd.trans he.onward
  · right
    rw [← hdevice] at hd
    exact (h.kept e).revoked id u' hu' hd

/-- What an upload has in chunks and in recipes stays, while it is not complete and no recipe can be
attached. -/
structure Stays (cr : Crates) (s : System) (e : Event) (id : String) (u' : Upload) : Prop where
  delta : (s.exec cr e).disk.db.uploadDeltas.get id = s.disk.db.uploadDeltas.get id
  chunks : ∀ i c, s.disk.db.uploadChunks.get (id,i) = some c →
    (s.exec cr e).disk.db.uploadChunks.get (id,i) = some c

lemma Reachable.stays (h : Reachable cr Orderly s) {e : Event} (he : Orderly s e) {id : String}
    {u u' : Upload} (hu : s.disk.db.uploads.get id = some u)
    (hu' : (s.exec cr e).disk.db.uploads.get id = some u') (hstate : u.state ≠ .complete)
    (hstate' : u'.state ≠ .complete)
    (hfixed : u.state ≠ .opened ∨ s.disk.db.uploadJobs.get id ≠ none) : Stays cr s e id u' := by
  have hkept := h.kept e
  refine ⟨?_,fun i c hc => h.rowsKept he (id,i) c hc u' hu' hstate'⟩
  cases hd : s.disk.db.uploadDeltas.get id with
  | some b =>
    rcases hkept.recipes id b u' hd hu' with ⟨w, hw, hcomplete⟩ | hb
    · obtain rfl := Option.some.inj (hu.symm.trans hw)
      exact absurd hcomplete hstate
    · exact hb
  | none =>
    cases hd' : (s.exec cr e).disk.db.uploadDeltas.get id with
    | none => rfl
    | some b =>
      rcases hkept.attached id b hd' with hb | ⟨-, hjob, w, hw, hopened⟩
      · rw [hd] at hb
        cases hb
      · obtain rfl := Option.some.inj (hu.symm.trans hw)
        rcases hfixed with hf | hf
        · exact absurd hopened hf
        · exact absurd hjob hf

lemma Pieces.exec {e : Event} {id : String} {l : List Bytes} {u' : Upload}
    (hp : Pieces cr s id l) (hs : Stays cr s e id u') : Pieces cr (s.exec cr e) id l := by
  intro i b hb
  obtain ⟨c, hc, hname⟩ := hp i b hb
  exact ⟨c,hs.chunks i c hc,hname.exec e⟩

lemma Mismatch.exec {e : Event} {id : String} {u u' : Upload} (hm : Mismatch cr s id u)
    (hs : Stays cr s e id u') (hhash : u'.hash = u.hash) (hsize : u'.size = u.size) :
    Mismatch cr (s.exec cr e) id u' := by
  unfold Mismatch at hm ⊢
  rw [hs.delta]
  split at hm
  · next b hb =>
    obtain ⟨recipe, found, hdecode, hsources, hnone⟩ := hm
    exact ⟨recipe,found,hdecode,hsources.exec e,hnone⟩
  · next hb =>
    obtain ⟨l, hlength, hpieces, hother⟩ := hm
    refine ⟨l,hsize ▸ hlength,hpieces.exec hs,?_⟩
    rw [hhash, hsize]
    exact hother

lemma Reads.exec {e : Event} {id : String} {size : ℕ} {progress : Progress} {u' : Upload}
    (hr : Reads cr s id size progress) (hs : Stays cr s e id u') :
    Reads cr (s.exec cr e) id size progress := by
  cases progress with
  | opened | assembled => trivial
  | bases recipe rest found =>
    obtain ⟨b, done, hb, hdecode, hbases, hsources⟩ := hr
    exact ⟨b,done,hs.delta.trans hb,hdecode,hbases,hsources.exec e⟩
  | chunks index read =>
    obtain ⟨hnone, l, hlength, hle, hpieces, hread⟩ := hr
    exact ⟨hs.delta.trans hnone,l,hlength,hle,hpieces.exec hs,hread⟩

/-- The worker's calls have the device of their upload, what a call has read is there, and what has
failed for good has a reason. -/
structure Judged (cr : Crates) (s : System) : Prop where
  starting : ∀ n device id u, s.calls.get n = some (.starting .worker device id) →
    s.disk.db.uploads.get id = some u → device = resumed u
  finishing : ∀ n device id digest size progress u,
    s.calls.get n = some (.finishing .worker device id digest size progress) →
    s.disk.db.uploads.get id = some u → device = resumed u
  reads : ∀ n caller device id digest size progress,
    s.calls.get n = some (.finishing caller device id digest size progress) →
    Reads cr s id size progress
  failing : ∀ n id e u, s.calls.get n = some (.failing .worker id e) → e.status < 500 →
    s.disk.db.uploads.get id = some u → Dead s u ∨ Mismatch cr s id u
  settling : ∀ n id e u, s.calls.get n = some (.settling id (some e)) → e.status < 500 →
    s.disk.db.uploads.get id = some u → Dead s u ∨ u.state ≠ .complete ∧ Mismatch cr s id u
  failed : ∀ id u, s.disk.db.uploads.get id = some u → u.state = .failed →
    Dead s u ∨ Mismatch cr s id u

lemma Reachable.named (h : Reachable cr Orderly s) {n : ℕ} {c : Call} {id : String} {g : Stage}
    {u : Upload} (hc : s.calls.get n = some c) (hg : c.stage id = some g) (hw : g.working = true)
    (hu : s.disk.db.uploads.get id = some u) :
    validateId id = .ok () ∧ s.disk.db.uploadJobs.get id ≠ none ∧ u.state ≠ .failed := by
  have hsound := h.sound id
  have hjob := hsound.working n g ((stage_life hc id).trans hg) hw
    (by rw [get_life hu]; exact Option.some_ne_none _)
  obtain ⟨job, hget, hterminal⟩ := Option.map_eq_some_iff.mp hjob
  refine ⟨h.tables.2.named id job hget,Option.ne_none_iff_exists'.mpr ⟨job,hget⟩,fun hf => ?_⟩
  have hfailed := hsound.terminal.mpr ((get_life hu).trans (congrArg some hf))
  rw [hjob] at hfailed
  cases hfailed

lemma Reachable.held (h : Reachable cr Orderly s) {n : ℕ} {c : Call} {id : String} {caller : Caller}
    {u : Upload} (hc : s.calls.get n = some c) (hg : c.stage id = some (.holding caller))
    (hu : s.disk.db.uploads.get id = some u) : u.state = .finalizing := by
  have hphase := (h.sound id).holding n caller ((stage_life hc id).trans hg)
  exact Option.some.inj ((get_life hu).symm.trans hphase)

lemma dead_of_startFinish (h : Reachable cr Orderly s) {n : ℕ} {id : String} {u : Upload} {e : Error}
    (hc : s.calls.get n = some (.starting .worker (resumed u) id))
    (hu : s.disk.db.uploads.get id = some u)
    (he : s.disk.db.startFinish (resumed u) id s.clock = .error e) : Dead s u := by
  have hstage : (Call.starting .worker (resumed u) id).stage id = some (.starting .worker) :=
    if_pos rfl
  obtain ⟨hid, hjob, hfailed⟩ := h.named hc hstage rfl hu
  rcases startFinish_eq_error he with hrow | ⟨-, w, hrow, hstate⟩
  · exact dead_of_uploadRow h.tables.2 hid hu hrow
  obtain rfl := Option.some.inj (hu.symm.trans (uploadRow_eq_ok hrow).2.2.1)
  exfalso
  have hnotheld : u.state ≠ .finalizing := by
    intro hfinalizing
    obtain ⟨m, caller, hm⟩ := (h.sound id).held ((get_life hu).trans (congrArg some hfinalizing))
    have hn := (stage_life hc id).trans hstage
    cases caller with
    | worker =>
      obtain rfl := (h.sound id).worker n m _ _ hn hm rfl rfl
      rw [hn] at hm
      cases hm
    | request =>
      have hnojob := (h.sound id).unqueued m hm
      exact hjob (Option.map_eq_none_iff.mp hnojob)
  rcases hstate with (hfinalizing | hstate) | ⟨hdelta, hcount⟩
  · exact hnotheld hfinalizing
  · exact hfailed hstate
  by_cases hlive : Db.unfinished u = true
  · obtain ⟨job, hj⟩ := Option.ne_none_iff_exists'.mp hjob
    exact hcount (h.whole id u hu hlive (Table.contains_iff.mpr ⟨job,hj⟩)
      (Table.contains_eq_false.mp hdelta))
  · -- a complete upload is not refused
    have hcomplete : u.state = .complete := by
      unfold Db.unfinished at hlive
      cases hs : u.state <;> simp [hs] at hlive hfailed ⊢
    obtain ⟨row, hrow', hstart⟩ := bind_eq_error.mp he |>.resolve_left (by rw [hrow]; simp)
    obtain rfl := Except.ok.inj (hrow.symm.trans hrow')
    rw [if_pos hcomplete] at hstart
    cases hstart

/-- What a call on its way through `finish_upload` came from. -/
def Origin (cr : Crates) (s : System) (n : ℕ) (writes : List Write) : Call → Prop
  | .starting .worker device id => ∃ u, s.disk.db.uploads.get id = some u ∧ device = resumed u
  | .finishing caller device id digest size progress =>
    s.calls.get n = some (.starting caller device id) ∧ progress = .opened ∨
      ∃ before, s.calls.get n = some (.finishing caller device id digest size before) ∧
        s.disk.readOn cr device id digest size s.clock before = .ok progress
  | .failing caller id e => ∃ device digest size progress,
      s.calls.get n = some (.finishing caller device id digest size progress) ∧
      (s.disk.readOn cr device id digest size s.clock progress = .error e ∨ e = storageIo ∨
        ∃ bytes, progress = .assembled bytes ∧
          s.disk.db.publishUpload cr device id digest size bytes s.clock = .error e)
  | .settling id (some e) =>
    (∃ device, s.calls.get n = some (.starting .worker device id) ∧
      s.disk.db.startFinish device id s.clock = .error e) ∨
    s.calls.get n = some (.failing .worker id e) ∧
      writes = [.commit (s.disk.db.moveState id .finalizing .opened)]
  | _ => True

lemma origin_of_cases {op : Op} {o : Outcome} (h : Cases cr s op o) {n : ℕ} {c : Call}
    (hop : op.call = some n) (hcall : o.call = some c) :
    s.calls.get n = some c ∨ Origin cr s n o.writes c := by
  cases h with
  | idle _ _ hc => exact .inl ((hc n hop).symm.trans hcall)
  | ended | device | begin | stored | attached | submitted | settled | cancelled | publishedSome |
    storing | pinned | maintained | drained => cases hcall
  | sent | offered | finishes =>
    obtain rfl := Option.some.inj hcall
    exact .inr trivial
  | @sifted _ _ _ next _ _ _ hk' =>
    obtain rfl := Option.some.inj hcall
    cases next with
    | placing | sorting | storing => exact .inr trivial
    | _ => cases hk'
  | taken _ h =>
    obtain rfl := Option.some.inj hcall
    obtain ⟨_, u, -, -, -, hu, rfl⟩ := pendingJob_eq_some h
    exact .inr ⟨u,hu,rfl⟩
  | completed | published =>
    obtain rfl := returned_call hcall
    exact .inr trivial
  | started hc =>
    obtain rfl := Option.some.inj hop
    obtain rfl := Option.some.inj hcall
    exact .inr (.inl ⟨hc,rfl⟩)
  | read hc h =>
    obtain rfl := Option.some.inj hop
    obtain rfl := Option.some.inj hcall
    exact .inr (.inr ⟨_,hc,h⟩)
  | unread hc h =>
    obtain rfl := Option.some.inj hop
    obtain rfl := Option.some.inj hcall
    exact .inr ⟨_,_,_,_,hc,.inl h⟩
  | failed hc =>
    obtain rfl := Option.some.inj hop
    obtain rfl := Option.some.inj hcall
    exact .inr ⟨_,_,_,_,hc,.inr (.inl rfl)⟩
  | unpublished hc h =>
    obtain rfl := Option.some.inj hop
    obtain rfl := Option.some.inj hcall
    exact .inr ⟨_,_,_,_,hc,.inr (.inr ⟨_,rfl,h⟩)⟩
  | @refused _ caller _ _ _ hc h =>
    obtain rfl := Option.some.inj hop
    cases caller with
    | request => cases hcall
    | worker =>
      obtain rfl := Option.some.inj hcall
      exact .inr (.inl ⟨_,hc,h⟩)
  | @rolledBack _ caller _ _ hc =>
    obtain rfl := Option.some.inj hop
    cases caller with
    | request => cases hcall
    | worker =>
      obtain rfl := Option.some.inj hcall
      exact .inr (.inr ⟨hc,rfl⟩)

lemma Reachable.carried (h : Reachable cr Orderly s) {e : Event} (he : Orderly s e) {id : String}
    {u u' : Upload} (hu : s.disk.db.uploads.get id = some u)
    (hu' : (s.exec cr e).disk.db.uploads.get id = some u') (hstate : u.state ≠ .complete)
    (hstate' : u'.state ≠ .complete)
    (hfixed : u.state ≠ .opened ∨ s.disk.db.uploadJobs.get id ≠ none)
    (hv : Dead s u ∨ Mismatch cr s id u) :
    Dead (s.exec cr e) u' ∨ Mismatch cr (s.exec cr e) id u' := by
  obtain ⟨w, hw, hhash, hsize, hdevice, hexpires⟩ := h.before (h.honest.filed.issued id u hu) hu'
  obtain rfl := Option.some.inj (hu.symm.trans hw)
  rcases hv with hv | hv
  · exact .inl (hv.exec h he hu' hdevice hexpires)
  · exact .inr (hv.exec (h.stays he hu hu' hstate hstate' hfixed) hhash hsize)

lemma Reachable.holding (h : Reachable cr Orderly s) {n : ℕ} {c : Call} {id : String} {caller : Caller}
    (hc : s.calls.get n = some c) (hg : c.stage id = some (.holding caller)) :
    ∃ u, s.disk.db.uploads.get id = some u ∧ u.state = .finalizing :=
  Option.map_eq_some_iff.mp ((h.sound id).holding n caller ((stage_life hc id).trans hg))

lemma resumed_congr {u u' : Upload} (h : u'.device = u.device) : resumed u = resumed u' := by
  unfold resumed
  rw [h]

lemma Reachable.called_before (h : Reachable cr Orderly s) {e : Event} {n : ℕ} {c : Call} {id : String}
    {g : Stage} {u' : Upload} (hc : s.calls.get n = some c) (hg : c.stage id = some g)
    (hu' : (s.exec cr e).disk.db.uploads.get id = some u') :
    ∃ u, s.disk.db.uploads.get id = some u ∧ u'.device = u.device ∧ u'.expires = u.expires := by
  have hid := h.called n c id hc (by rw [hg]; exact Option.some_ne_none _)
  obtain ⟨u, hu, -, -, hdevice, hexpires⟩ := h.before hid hu'
  exact ⟨u,hu,hdevice,hexpires⟩

lemma starting_exec (hs : Judged cr s) (h : Reachable cr Orderly s) {op : Op} {n : ℕ}
    {device : Device} {id : String} {u' : Upload}
    (hc : (s.exec cr (.perform op)).calls.get n = some (.starting .worker device id))
    (hu' : (s.exec cr (.perform op)).disk.db.uploads.get id = some u') : device = resumed u' := by
  have hold : s.calls.get n = some (.starting .worker device id) → device = resumed u' := by
    intro hc
    obtain ⟨u, hu, hdevice, -⟩ := h.called_before hc (if_pos rfl) hu'
    exact (hs.starting n device id u hc hu).trans (resumed_congr hdevice)
  rcases get_nextCalls hc with hc | ⟨hop, hcall⟩
  · exact hold hc
  rcases origin_of_cases (@outcome_cases cr s op) hop hcall with hc | ⟨u, hu, rfl⟩
  · exact hold hc
  · obtain ⟨w, hw, -, -, hdevice, -⟩ := h.before (h.honest.filed.issued id u hu) hu'
    obtain rfl := Option.some.inj (hu.symm.trans hw)
    exact resumed_congr hdevice

lemma finishing_exec (hs : Judged cr s) (h : Reachable cr Orderly s) {op : Op} {n : ℕ}
    {device : Device} {id digest : String} {size : ℕ} {progress : Progress} {u' : Upload}
    (hc : (s.exec cr (.perform op)).calls.get n =
      some (.finishing .worker device id digest size progress))
    (hu' : (s.exec cr (.perform op)).disk.db.uploads.get id = some u') : device = resumed u' := by
  have hold : ∀ progress, s.calls.get n = some (.finishing .worker device id digest size progress) →
      device = resumed u' := by
    intro progress hc
    obtain ⟨u, hu, hdevice, -⟩ := h.called_before hc (if_pos rfl) hu'
    exact (hs.finishing n _ _ _ _ _ u hc hu).trans (resumed_congr hdevice)
  rcases get_nextCalls hc with hc | ⟨hop, hcall⟩
  · exact hold _ hc
  rcases origin_of_cases (@outcome_cases cr s op) hop hcall with hc | ⟨hc, -⟩ | ⟨_, hc, -⟩
  · exact hold _ hc
  · obtain ⟨u, hu, hdevice, -⟩ := h.called_before hc (if_pos rfl) hu'
    exact (hs.starting n device id u hc hu).trans (resumed_congr hdevice)
  · exact hold _ hc

lemma reads_exec (hs : Judged cr s) (h : Reachable cr Orderly s) (hcr : NoCollision cr s.bodiesSeen)
    {op : Op} (he : Orderly s (.perform op)) {n : ℕ} {caller : Caller} {device : Device}
    {id digest : String} {size : ℕ} {progress : Progress}
    (hc : (s.exec cr (.perform op)).calls.get n =
      some (.finishing caller device id digest size progress)) :
    Reads cr (s.exec cr (.perform op)) id size progress := by
  obtain ⟨u', hu', hstate'⟩ := (h.step he).holding hc (if_pos rfl)
  -- what was read before the operation stays
  have hold : ∀ before, s.calls.get n = some (.finishing caller device id digest size before) →
      Reads cr s id size progress → Reads cr (s.exec cr (.perform op)) id size progress := by
    intro before hc hreads
    obtain ⟨u, hu, hstate⟩ := h.holding hc (if_pos rfl)
    exact hreads.exec (h.stays he hu hu' (by rw [hstate]; decide) (by rw [hstate']; decide)
      (.inl (by rw [hstate]; decide)))
  rcases get_nextCalls hc with hc | ⟨hop, hcall⟩
  · exact hold _ hc (hs.reads n _ _ _ _ _ _ hc)
  rcases origin_of_cases (@outcome_cases cr s op) hop hcall with hc | ⟨hc, rfl⟩ | ⟨before, hc, hread⟩
  · exact hold _ hc (hs.reads n _ _ _ _ _ _ hc)
  · trivial
  · exact hold _ hc (reads_next (h.bodiesKept hcr) h.remembered (hs.reads n _ _ _ _ _ _ hc) hread)

lemma failing_exec (hs : Judged cr s) (h : Reachable cr Orderly s) (hcr : NoCollision cr s.bodiesSeen)
    {op : Op} (he : Orderly s (.perform op)) {n : ℕ} {id : String} {e : Error} {u' : Upload}
    (hc : (s.exec cr (.perform op)).calls.get n = some (.failing .worker id e))
    (hstatus : e.status < 500) (hu' : (s.exec cr (.perform op)).disk.db.uploads.get id = some u') :
    Dead (s.exec cr (.perform op)) u' ∨ Mismatch cr (s.exec cr (.perform op)) id u' := by
  have hstate' := (h.step he).held hc (if_pos rfl) hu'
  have hcarried : ∀ u, s.disk.db.uploads.get id = some u → u.state = .finalizing →
      Dead s u ∨ Mismatch cr s id u →
      Dead (s.exec cr (.perform op)) u' ∨ Mismatch cr (s.exec cr (.perform op)) id u' := by
    intro u hu hstate hv
    exact h.carried he hu hu' (by rw [hstate]; decide) (by rw [hstate']; decide)
      (.inl (by rw [hstate]; decide)) hv
  have hold : s.calls.get n = some (.failing .worker id e) →
      Dead (s.exec cr (.perform op)) u' ∨ Mismatch cr (s.exec cr (.perform op)) id u' := by
    intro hc
    obtain ⟨u, hu, hstate⟩ := h.holding hc (if_pos rfl)
    exact hcarried u hu hstate (hs.failing n id e u hc hstatus hu)
  rcases get_nextCalls hc with hc | ⟨hop, hcall⟩
  · exact hold hc
  rcases origin_of_cases (@outcome_cases cr s op) hop hcall with
    hc | ⟨device, digest, size, progress, hc, hcause⟩
  · exact hold hc
  obtain ⟨u, hu, hstate⟩ := h.holding hc (if_pos rfl)
  have hid := (h.named hc (if_pos rfl) rfl hu).1
  obtain rfl := hs.finishing n _ _ _ _ _ u hc hu
  obtain ⟨hhash, hsize⟩ := (h.honest.finishing n _ _ _ _ _ _ hc).2.1 u hu
  refine hcarried u hu hstate ?_
  rcases hcause with hread | rfl | ⟨bytes, rfl, hpublish⟩
  · exact verdict_of_readOn (h.bodiesKept hcr) h.tables.2 h.honest hid hu hhash hsize
      (hs.reads n _ _ _ _ _ _ hc) hread hstatus
  · exact absurd hstatus (by decide)
  · exact .inl (dead_of_publishUpload h.tables.2 hid hu hhash hpublish hstatus)

lemma settling_exec (hs : Judged cr s) (h : Reachable cr Orderly s) {op : Op}
    (he : Orderly s (.perform op)) {n : ℕ} {id : String} {e : Error} {u' : Upload}
    (hc : (s.exec cr (.perform op)).calls.get n = some (.settling id (some e)))
    (hstatus : e.status < 500) (hu' : (s.exec cr (.perform op)).disk.db.uploads.get id = some u') :
    Dead (s.exec cr (.perform op)) u' ∨
      u'.state ≠ .complete ∧ Mismatch cr (s.exec cr (.perform op)) id u' := by
  have hold : s.calls.get n = some (.settling id (some e)) →
      Dead (s.exec cr (.perform op)) u' ∨
        u'.state ≠ .complete ∧ Mismatch cr (s.exec cr (.perform op)) id u' := by
    intro hc
    have hstage : (Call.settling id (some e)).stage id = some (.settling (some true)) :=
      (if_pos rfl).trans (by rw [Option.map_some, decide_eq_true hstatus])
    obtain ⟨u, hu, hdevice, hexpires⟩ := h.called_before hc hstage hu'
    rcases hs.settling n id e u hc hstatus hu with hdead | ⟨hstate, hmismatch⟩
    · exact .inl (hdead.exec h he hu' hdevice hexpires)
    -- what is not held is not completed
    have hstate' : u'.state ≠ .complete := by
      intro hcomplete
      obtain ⟨w, hw, hw'⟩ := (h.kept (.perform op)).completed id u' hu' hcomplete
      obtain rfl := Option.some.inj (hu.symm.trans hw)
      have hphase := (h.sound id).erred n true ((stage_life hc id).trans hstage)
      rw [get_life hu] at hphase
      rcases hw' with hw' | hw'
      · exact hstate hw'
      · simp [hw'] at hphase
    have hjob := (h.named hc hstage rfl hu).2.1
    rcases h.carried he hu hu' hstate hstate' (.inr hjob) (.inr hmismatch) with hv | hv
    · exact .inl hv
    · exact .inr ⟨hstate',hv⟩
  rcases get_nextCalls hc with hc | ⟨hop, hcall⟩
  · exact hold hc
  rcases origin_of_cases (@outcome_cases cr s op) hop hcall with hc | ⟨device, hc, hrefused⟩ |
    ⟨hc, hwrites⟩
  · exact hold hc
  · obtain ⟨u, hu, hdevice, hexpires⟩ := h.called_before hc (if_pos rfl) hu'
    obtain rfl := hs.starting n device id u hc hu
    exact .inl ((dead_of_startFinish h hc hu hrefused).exec h he hu' hdevice hexpires)
  · obtain ⟨u, hu, hstate⟩ := h.holding hc (if_pos rfl)
    have hstate' : u'.state = .opened := by
      change (written Disk.apply s.disk (s.outcome cr op).writes).db.uploads.get id = some u' at hu'
      rw [hwrites] at hu'
      change (s.disk.db.moveState id .finalizing .opened).uploads.get id = some u' at hu'
      rw [get_moveState, hu] at hu'
      obtain rfl := Option.some.inj hu'
      exact if_pos ⟨rfl,hstate⟩
    rcases h.carried he hu hu' (by rw [hstate]; decide) (by rw [hstate']; decide)
      (.inl (by rw [hstate]; decide)) (hs.failing n id e u hc hstatus hu) with hv | hv
    · exact .inl hv
    · exact .inr ⟨by rw [hstate']; decide,hv⟩

lemma failed_exec (hs : Judged cr s) (h : Reachable cr Orderly s) {e : Event} (he : Orderly s e)
    {id : String} {u' : Upload} (hu' : (s.exec cr e).disk.db.uploads.get id = some u')
    (hfailed : u'.state = .failed) : Dead (s.exec cr e) u' ∨ Mismatch cr (s.exec cr e) id u' := by
  obtain ⟨u, hu, hstate | ⟨n, cause, hc, hstatus⟩⟩ := (h.kept e).failed id u' hu' hfailed
  · exact h.carried he hu hu' (by rw [hstate]; decide) (by rw [hfailed]; decide)
      (.inl (by rw [hstate]; decide)) (hs.failed id u hu hstate)
  · have hjob := (h.named hc (if_pos rfl) rfl hu).2.1
    rcases hs.settling n id cause u hc hstatus hu with hdead | ⟨hstate, hmismatch⟩
    · obtain ⟨w, hw, hdevice, hexpires⟩ := h.called_before hc (if_pos rfl) hu'
      obtain rfl := Option.some.inj (hu.symm.trans hw)
      exact .inl (hdead.exec h he hu' hdevice hexpires)
    · exact h.carried he hu hu' hstate (by rw [hfailed]; decide) (.inr hjob) (.inr hmismatch)

theorem Judged.exec (hs : Judged cr s) (h : Reachable cr Orderly s)
    (hcr : NoCollision cr s.bodiesSeen) {e : Event} (he : Orderly s e) :
    Judged cr (s.exec cr e) := by
  cases e with
  | perform op =>
    exact ⟨fun _ _ _ _ hc hu' => starting_exec hs h hc hu',
      fun _ _ _ _ _ _ _ hc hu' => finishing_exec hs h hc hu',
      fun _ _ _ _ _ _ _ hc => reads_exec hs h hcr he hc,
      fun _ _ _ _ hc hstatus hu' => failing_exec hs h hcr he hc hstatus hu',
      fun _ _ _ _ hc hstatus hu' => settling_exec hs h he hc hstatus hu',
      fun _ _ hu' hfailed => failed_exec hs h he hu' hfailed⟩
  | crash op k =>
    -- no call is left
    refine ⟨?_,?_,?_,?_,?_,fun _ _ hu' hfailed => failed_exec hs h he hu' hfailed⟩ <;>
      intros <;> contradiction

theorem Reachable.judged (h : Reachable cr Orderly s) (hcr : NoCollision cr s.bodiesSeen) :
    Judged cr s := by
  induction h with
  | create => constructor <;> intros <;> contradiction
  | step h he ih => exact (ih hcr.of_exec).exec h hcr.of_exec he

end System
end RisuNest.Transfer
