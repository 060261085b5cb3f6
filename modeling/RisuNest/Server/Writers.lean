import RisuNest.Server.CachedLevel
import RisuNest.Server.ExactlyOnce

/-! Writers and the devices they are bound to. A device is bound by its first accepted push, by the
join that keeps its writer, or by a claim (`lww.rs`, `registration_claims.rs`). -/
namespace RisuNest.Server
open Wire

/-- No two writers are bound to one device. -/
def OneToOne (writers : Table String String) : Prop :=
  ∀ v w d, writers.get v = some d → writers.get w = some d → v = w

/-- A binding that neither the device nor the writer speaks against. -/
structure MayBind (writers : Table String String) (writerId device : String) : Prop where
  mine : ∀ w, writers.get w = some device → w = writerId
  owner : ∀ d, writers.get writerId = some d → d = device

/-- What a step leaves of the writers: all bindings, and at most one more. -/
def Rebound (before after : Table String String) : Prop :=
  after = before ∨ ∃ writerId device, MayBind before writerId device ∧
    after = before.insertOrIgnore writerId device

lemma MayBind.insert {writers : Table String String} {writerId device : String}
    (h : MayBind writers writerId device) (w : String) :
    (writers.insertOrIgnore writerId device).get w =
      if w = writerId then some device else writers.get w := by
  rw [Table.get_insertOrIgnore]
  split_ifs
  · cases ho : writers.get writerId with
    | none => rfl
    | some d => rw [h.owner d ho]; rfl
  · rfl

lemma Rebound.oneToOne {before after : Table String String} (h : Rebound before after)
    (ho : OneToOne before) : OneToOne after := by
  obtain rfl | ⟨writerId,device,hm,rfl⟩ := h
  · exact ho
  · intro v w d hv hw
    rw [hm.insert] at hv hw
    split_ifs at hv hw with h1 h2 h2
    · rw [h1, h2]
    · rw [Option.some.injEq] at hv
      rw [h1, hm.mine w (hv ▸ hw)]
    · rw [Option.some.injEq] at hw
      rw [h2, hm.mine v (hw ▸ hv)]
    · exact ho v w d hv hw

lemma Rebound.keeps {before after : Table String String} (h : Rebound before after)
    {w d : String} (hw : before.get w = some d) : after.get w = some d := by
  obtain rfl | ⟨writerId,device,-,rfl⟩ := h
  · exact hw
  · exact Table.get_insertOrIgnore_of_get hw

namespace Store
variable {cr : Crates} {s : Store} {device : Device}

lemma mine_of_any {writerId : String}
    (h : s.writers.any (fun w d => d = device.id && w ≠ writerId) = false) :
    ∀ w, s.writers.get w = some device.id → w = writerId := by
  intro w hw
  have := Table.any_eq_false.mp h w device.id hw
  simpa using this

lemma mayBind_of_checkWriter {writerId : String} (h : s.checkWriter device writerId = .ok ()) :
    MayBind s.writers writerId device.id := by
  obtain ⟨_,hany,h⟩ := bind_eq_ok.mp h
  refine ⟨mine_of_any (require_eq_ok.mp hany),fun d hd => ?_⟩
  rw [hd] at h
  exact require_eq_ok.mp h

lemma finishPush_rebound {p : Pending} (hp : p.WellFormed cr) (created : ℤ) :
    Rebound s.writers (s.finishPush cr p created).2.writers := by
  unfold finishPush
  dsimp only
  split
  · exact .inl rfl
  · exact .inl rfl
  · split
    · exact .inl rfl
    · next level _ =>
      split_ifs
      · exact .inl rfl
      · split
        · split_ifs
          · exact .inl rfl
          · exact .inl rfl
        · next won hv =>
          split
          · exact .inl rfl
          · next receipt t ha =>
            right
            obtain ⟨_,hprep,-⟩ := bind_eq_ok.mp hv
            have hacc := accept_eq_ok hv (nodup_of_validate (hp.valid hprep)) ha
            obtain ⟨_,-,hv⟩ := bind_eq_ok.mp hv
            have hcheck : s.checkWriter p.device p.request.writerId = .ok () := by
              cases he : p.emptyOnly <;> simp only [he, Bool.false_eq_true, if_false, if_true] at hv
              · obtain ⟨_,hc,-⟩ := bind_eq_ok.mp hv
                exact hc
              · obtain ⟨_,-,hv⟩ := bind_eq_ok.mp hv
                obtain ⟨_,hc,-⟩ := bind_eq_ok.mp hv
                exact hc
            exact ⟨_,_,mayBind_of_checkWriter hcheck,hacc.writers⟩

lemma unbound_of_unused (h : s.registrationUsed device = false) (w : String) :
    s.writers.get w ≠ some device.id := by
  intro hw
  have := Table.any_eq_false.mp (Bool.or_eq_false_iff.mp h).1 w device.id hw
  simp at this

lemma bindDeviceWriter_rebound (writerId : String) :
    Rebound s.writers (s.bindDeviceWriter cr device writerId).2.writers := by
  unfold bindDeviceWriter
  dsimp only
  split
  · exact .inl rfl
  · exact .inl rfl
  · next h =>
    right
    obtain ⟨_,-,h⟩ := bind_eq_ok.mp h
    obtain ⟨_,-,h⟩ := bind_eq_ok.mp h
    obtain ⟨_,hany,h⟩ := bind_eq_ok.mp h
    refine ⟨writerId,device.id,⟨mine_of_any (require_eq_ok.mp hany),fun d hd => ?_⟩,rfl⟩
    rw [hd] at h
    obtain ⟨_,-,h⟩ := bind_eq_ok.mp h
    cases h

/-- The writer of a claim that is answered for the first time is fresh, and so is its device. -/
structure FreshClaim (s : Store) (claims : Table String ClaimRow) (device : Device)
    (r : NewDeviceClaimRequest) (former : Option String) : Prop where
  writer : s.writers.get r.writerId = none
  versions : ∀ k row, s.writerVersions.get k = some row → k.1 ≠ r.writerId
  unbound : ∀ w, s.writers.get w ≠ some device.id
  authorization : ∀ d row, claims.get d = some row → row.authorizationId ≠ r.authorizationId
  former : former ≠ some device.id

lemma freshClaim_of_check {claims : Table String ClaimRow} {r : NewDeviceClaimRequest}
    {former : Option String} (h : s.checkClaim claims device r former = .ok ()) :
    FreshClaim s claims device r former := by
  obtain ⟨_,hu,h⟩ := bind_eq_ok.mp h
  obtain ⟨_,ha,h⟩ := bind_eq_ok.mp h
  obtain ⟨_,hw,h⟩ := bind_eq_ok.mp h
  obtain ⟨hwriter,hversions⟩ := require_eq_ok.mp hw
  refine ⟨Table.contains_eq_false.mp hwriter,fun k row hk => ?_,
    unbound_of_unused (require_eq_ok.mp hu),fun d row hd => ?_,require_eq_ok.mp h⟩
  · have := Table.any_eq_false.mp hversions k row hk
    simpa using this
  · have := Table.any_eq_false.mp (require_eq_ok.mp ha) d row hd
    simpa using this

/-- What a claim does: it is refused, it repeats the answer of the same claim, or it binds. -/
inductive Claimed (cr : Crates) (s : Store) (claims : Table String ClaimRow) (device : Device)
    (r : NewDeviceClaimRequest) (former : Option String) :
    Answer NewDeviceClaimReceipt → Store → Table String ClaimRow → Prop
  | refused (e : Error) : Claimed cr s claims device r former (.error e) s claims
  | repeated {row : ClaimRow} (hr : claims.get device.id = some row)
      (ha : s.requireDevice cr device = .ok ()) (hv : r.validate = .ok ())
      (hd : row.digest = r.digest cr) :
      Claimed cr s claims device r former (.ok row.receipt) s claims
  | claimed {t : Store} (row : ClaimRow) (hn : claims.get device.id = none)
      (ha : s.requireDevice cr device = .ok ()) (hv : r.validate = .ok ())
      (hf : FreshClaim s claims device r former) (hd : row.digest = r.digest cr)
      (ht : t = { s with
        writers := s.writers.insertOrIgnore r.writerId device.id
        devices := s.devices.mapValues fun id row =>
          if former = some id then { row with revoked := true } else row }) :
      Claimed cr s claims device r former (.ok row.receipt) t (claims.insertOrIgnore device.id row)

lemma claim_cases (claims : Table String ClaimRow) (r : NewDeviceClaimRequest)
    (former : Option String) :
    Claimed cr s claims device r former (s.claimNewDeviceWriter cr claims device r former).1
      (s.claimNewDeviceWriter cr claims device r former).2.1
      (s.claimNewDeviceWriter cr claims device r former).2.2 := by
  unfold claimNewDeviceWriter
  dsimp only
  split
  · exact .refused _
  · next prior hl =>
    obtain ⟨_,hv,hl⟩ := bind_eq_ok.mp hl
    obtain ⟨_,ha,hl⟩ := bind_eq_ok.mp hl
    split_ifs with hd
    · exact .refused _
    · exact .repeated (Except.ok.inj hl) ha (lift_eq_ok.mp hv) (not_not.mp hd)
  · next hl =>
    obtain ⟨_,hv,hl⟩ := bind_eq_ok.mp hl
    obtain ⟨_,ha,hl⟩ := bind_eq_ok.mp hl
    split
    · exact .refused _
    · next hc =>
      exact .claimed ⟨r.authorizationId,r.writerId,r.digest cr,_⟩ (Except.ok.inj hl) ha
        (lift_eq_ok.mp hv) (freshClaim_of_check hc) rfl rfl

lemma claim_rebound (claims : Table String ClaimRow) (r : NewDeviceClaimRequest)
    (former : Option String) :
    Rebound s.writers (s.claimNewDeviceWriter cr claims device r former).2.1.writers := by
  have hc := @claim_cases cr s device claims r former
  revert hc
  generalize s.claimNewDeviceWriter cr claims device r former = result
  obtain ⟨answer,t,after⟩ := result
  intro hc
  cases hc with
  | refused e => exact .inl rfl
  | repeated hr ha hv hd => exact .inl rfl
  | claimed row' hn ha hv hf hd ht =>
    subst ht
    refine .inr ⟨_,_,⟨fun w hw => absurd hw (hf.unbound w),fun d hd => ?_⟩,rfl⟩
    rw [hf.writer] at hd
    cases hd

lemma claim_keeps {claims : Table String ClaimRow} {r : NewDeviceClaimRequest}
    {former : Option String} {d : String} {row : ClaimRow} (h : claims.get d = some row) :
    (s.claimNewDeviceWriter cr claims device r former).2.2.get d = some row := by
  have hc := @claim_cases cr s device claims r former
  revert hc
  generalize s.claimNewDeviceWriter cr claims device r former = result
  obtain ⟨answer,t,after⟩ := result
  intro hc
  cases hc with
  | refused e => exact h
  | repeated hr ha hv hd => exact h
  | claimed row' hn ha hv hf hd ht => exact Table.get_insertOrIgnore_of_get h

end Store

namespace Gated
variable {cr : Crates} {g : Gated}

lemma writers_kept {t : Gated} (h : t.library.writers = g.library.writers)
    (hc : t.claims = g.claims) : Rebound g.library.writers t.library.writers ∧
      ∀ d row, g.claims.get d = some row → t.claims.get d = some row :=
  ⟨.inl h,fun _ _ hd => by rw [hc, hd]⟩

lemma beginPush_writers (s : Store) (call : PushCall) :
    (s.beginPush cr call).2.writers = s.writers := by
  have hb := @Store.beginPush_cases cr s call
  revert hb
  generalize s.beginPush cr call = began
  obtain ⟨answer,t⟩ := began
  intro hb
  cases hb with
  | prepared ha hr hv =>
    exact (Store.IndexFrame.untouched
      (Store.prepareChanges_frame s .empty call.request.changes)).1.writers
  | _ => rfl

lemma cancelOperation_writers (s : Store) (device : Device) (id bodyDigest : String)
    (clock : Answer ℕ) (created : ℤ) :
    (s.cancelOperation cr device id bodyDigest clock created).2.writers = s.writers := by
  unfold Store.cancelOperation
  dsimp only
  split
  · rfl
  · split_ifs <;> rfl
  · split <;> rfl

lemma acknowledge_writers (s : Store) (device : Device) (seq : ℕ) (now : ℤ) :
    (s.acknowledge cr device seq now).2.writers = s.writers := by
  unfold Store.acknowledge
  split
  · rfl
  · split
    · rfl
    · split_ifs <;> rfl

lemma revokeDevice_writers (s : Store) (id : String) :
    (s.revokeDevice id).2.writers = s.writers := by
  unfold Store.revokeDevice
  split
  · rfl
  · split <;> rfl

lemma maintainAt_writers {s t : Store} {current clock : ℤ} {n : ℕ}
    (h : s.maintainAt cr current clock = (.ok n,t)) : t.writers = s.writers := by
  unfold Store.maintainAt at h
  dsimp only at h
  split at h
  · cases h
  · obtain ⟨-,rfl⟩ := Prod.mk.inj h
    rfl

/-- Every event leaves the bindings and the claims as they are, or adds one. -/
theorem exec_writers (h : Reachable cr g) (e : Event) :
    Rebound g.library.writers (g.exec cr e).2.library.writers ∧
      ∀ d row, g.claims.get d = some row → (g.exec cr e).2.claims.get d = some row := by
  have hvalid := h.core.pendingValid
  cases e with
  | push call =>
    have hb := @beginPush_writers cr g.library call
    simp only [exec]
    split_ifs
    · exact writers_kept rfl rfl
    · revert hb
      generalize g.library.beginPush cr call = began
      obtain ⟨answer | p,t⟩ := began
      · exact fun hb => writers_kept hb rfl
      · exact fun hb => writers_kept hb rfl
  | commitPush created =>
    simp only [exec]
    cases hp : g.pending with
    | none => exact writers_kept rfl rfl
    | some p =>
      have hr := g.library.finishPush_rebound (hvalid p hp).1 created
      dsimp only
      split
      · exact ⟨hr,fun _ _ => id⟩
      · exact ⟨hr,fun _ _ => id⟩
  | releasePush =>
    simp only [exec]
    split <;> exact writers_kept rfl rfl
  | ask query =>
    simp only [exec]
    split <;> exact writers_kept rfl rfl
  | answer query =>
    simp only [exec]
    split_ifs
    · cases query <;> exact writers_kept rfl rfl
    · exact writers_kept rfl rfl
  | cancelOperation device id bodyDigest clock created =>
    exact writers_kept (cancelOperation_writers ..) rfl
  | changes device after limit => exact writers_kept rfl rfl
  | createStatePin device id now =>
    refine writers_kept ?_ rfl
    change (g.library.createStatePin cr device id now).2.writers = g.library.writers
    unfold Store.createStatePin
    split <;> rfl
  | statePage device id after limit now => exact writers_kept rfl rfl
  | releaseStatePin device pin =>
    refine writers_kept ?_ rfl
    change (g.library.releaseStatePin cr device pin).2.writers = g.library.writers
    unfold Store.releaseStatePin
    split <;> rfl
  | acknowledge device seq now => exact writers_kept (acknowledge_writers ..) rfl
  | retainObjects device epoch objects token =>
    simp only [exec]
    split
    · exact writers_kept rfl rfl
    · next s retained hr =>
      refine writers_kept ?_ rfl
      dsimp only
      rw [Store.retainObjects_only hr]
  | retainedObjects device epoch after => exact writers_kept rfl rfl
  | releaseRetainedObjects device epoch objects =>
    simp only [exec]
    split
    · exact writers_kept rfl rfl
    · next s hr =>
      refine writers_kept ?_ rfl
      dsimp only
      rw [Store.releaseRetainedObjects_only hr]
  | bindDeviceWriter device writerId =>
    exact ⟨Store.bindDeviceWriter_rebound writerId,fun _ _ => id⟩
  | newDeviceWriterClaim device => exact writers_kept rfl rfl
  | claimNewDeviceWriter device request former =>
    exact ⟨Store.claim_rebound g.claims request former,fun _ _ => Store.claim_keeps⟩
  | transfer op =>
    simp only [exec]
    split
    · exact writers_kept rfl rfl
    · split_ifs
      · exact writers_kept rfl rfl
      · exact writers_kept rfl rfl
  | maintain current clock objectNames chunkNames stuckChunks stuckObjects =>
    simp only [exec]
    split_ifs
    · exact writers_kept rfl rfl
    · split
      · next hm =>
        have hw := maintainAt_writers hm
        exact writers_kept hw rfl
      · exact writers_kept rfl rfl
      · exact writers_kept rfl rfl
  | addDevice id => exact writers_kept rfl rfl
  | revokeDevice id => exact writers_kept (revokeDevice_writers ..) rfl
  | restart op writes =>
    simp only [exec]
    split
    · exact writers_kept rfl rfl
    · split_ifs
      · exact writers_kept rfl rfl
      · exact writers_kept rfl rfl

lemma Later.keeps {t : Gated} (h : Reachable cr g) (path : Later cr g t) :
    (∀ w d, g.library.writers.get w = some d → t.library.writers.get w = some d) ∧
      ∀ d row, g.claims.get d = some row → t.claims.get d = some row := by
  induction path with
  | refl => exact ⟨fun _ _ => id,fun _ _ => id⟩
  | step e path ih =>
    obtain ⟨hw,hc⟩ := exec_writers (h.later path) e
    exact ⟨fun w d hd => hw.keeps (ih.1 w d hd),fun d row hd => hc d row (ih.2 d row hd)⟩

lemma Reachable.oneToOne (h : Reachable cr g) : OneToOne g.library.writers := by
  obtain ⟨libraryId,epoch,path⟩ := h
  induction path with
  | refl => exact fun v w d hv _ => nomatch hv
  | step e path ih => exact (exec_writers ⟨libraryId,epoch,path⟩ e).1.oneToOne ih

lemma exec_repeated {device : Device} {request : NewDeviceClaimRequest} {former : Option String}
    {row : ClaimRow} (hr : g.claims.get device.id = some row) (hd : row.digest = request.digest cr)
    (hv : request.validate = .ok ()) :
    g.exec cr (.claimNewDeviceWriter device request former) =
      (.claimed ((g.library.requireDevice cr device).map fun _ => row.receipt),g) := by
  have hclaim : g.library.claimNewDeviceWriter cr g.claims device request former =
      ((g.library.requireDevice cr device).map fun _ => row.receipt,g.library,g.claims) := by
    unfold Store.claimNewDeviceWriter
    dsimp only
    rw [hv]
    cases g.library.requireDevice cr device with
    | error e => rfl
    | ok _ =>
      change (match (Except.ok (g.claims.get device.id) : Answer (Option ClaimRow)) with
        | .error e => _
        | .ok (some prior) => _
        | .ok none => _) = _
      rw [hr]
      dsimp only
      rw [if_neg (not_not.mpr hd)]
      rfl
  simp only [exec, hclaim]

lemma requireDevice_claimed {s : Store} {device : Device} {former : Option String}
    (hf : former ≠ some device.id) (writers : Table String String)
    (h : s.requireDevice cr device = .ok ()) :
    Store.requireDevice cr { s with
      writers := writers
      devices := s.devices.mapValues fun id row =>
        if former = some id then { row with revoked := true } else row } device = .ok () := by
  obtain ⟨_,hactive,h⟩ := bind_eq_ok.mp h
  refine bind_eq_ok.mpr ⟨_,require_eq_ok.mpr ?_,h⟩
  have hactive := require_eq_ok.mp hactive
  simp only [Store.active, Table.get_mapValues] at hactive ⊢
  cases hg : s.devices.get device.id with
  | none =>
    rw [hg] at hactive
    cases hactive
  | some row =>
    rw [hg] at hactive
    simpa [hf] using hactive

lemma exec_claimed {device : Device} {request : NewDeviceClaimRequest} {former : Option String}
    {receipt : NewDeviceClaimReceipt} {t : Gated}
    (ht : g.exec cr (.claimNewDeviceWriter device request former) = (.claimed (.ok receipt),t)) :
    (t = g ∨ g.claims.get device.id = none ∧
      Store.FreshClaim g.library g.claims device request former ∧
      t.library.writers.get request.writerId = some device.id) ∧
    request.validate = .ok () ∧ t.library.requireDevice cr device = .ok () ∧
    ∃ row, t.claims.get device.id = some row ∧ row.digest = request.digest cr ∧
      row.receipt = receipt := by
  have hc := @Store.claim_cases cr g.library device g.claims request former
  simp only [exec] at ht
  revert hc ht
  generalize g.library.claimNewDeviceWriter cr g.claims device request former = result
  obtain ⟨answer,library,claims⟩ := result
  intro ht hc
  obtain ⟨ha,rfl⟩ := Prod.mk.inj ht
  cases hc with
  | refused e => cases ha
  | @repeated row hr hd hv he =>
    cases ha
    exact ⟨.inl rfl,hv,hd,row,hr,he,rfl⟩
  | claimed row hn hd hv hf he hl =>
    cases ha
    subst hl
    refine ⟨.inr ⟨hn,hf,?_⟩,hv,requireDevice_claimed hf.former _ hd,row,?_,he,rfl⟩
    · change (g.library.writers.insertOrIgnore request.writerId device.id).get _ = _
      rw [Table.get_insertOrIgnore, if_pos rfl, hf.writer]
      rfl
    · change (g.claims.insertOrIgnore device.id row).get _ = _
      rw [Table.get_insertOrIgnore, if_pos rfl, hn]
      rfl

/-- The writers of a server, in every state it can be in. They are bound one to one, and a binding
is never replaced. A claim that succeeds repeats an answer and changes nothing, or it binds the
device, which had no writer, to a writer that no device was bound to at any time before and that no
recorded version carries; repeating it later answers the same, as long as the device is admitted,
and changes nothing. -/
theorem writers_one_to_one (h : Reachable cr g) :
    (∀ v w d e, g.library.writers.get v = some d → g.library.writers.get w = some e →
      (v = w ↔ d = e)) ∧
    (∀ (e : Event) w d, g.library.writers.get w = some d →
      (g.exec cr e).2.library.writers.get w = some d) ∧
    ∀ (device : Device) (request : NewDeviceClaimRequest) (former : Option String)
      (receipt : NewDeviceClaimReceipt) (t : Gated),
      g.exec cr (.claimNewDeviceWriter device request former) = (.claimed (.ok receipt),t) →
      (t = g ∨
        (∀ before, Reachable cr before → Later cr before g →
          before.library.writers.get request.writerId = none) ∧
        (∀ k row, g.library.writerVersions.get k = some row → k.1 ≠ request.writerId) ∧
        (∀ w, g.library.writers.get w ≠ some device.id) ∧
        t.library.writers.get request.writerId = some device.id) ∧
      t.library.requireDevice cr device = .ok () ∧
      ∀ (u : Gated) (former' : Option String), Later cr t u →
        u.exec cr (.claimNewDeviceWriter device request former') =
          (.claimed ((u.library.requireDevice cr device).map fun _ => receipt),u) := by
  refine ⟨?_,?_,?_⟩
  · intro v w d e hv hw
    constructor
    · rintro rfl
      exact Option.some.inj (hv.symm.trans hw)
    · rintro rfl
      exact h.oneToOne v w d hv hw
  · intro e w d hd
    exact (exec_writers h e).1.keeps hd
  · intro device request former receipt t ht
    obtain ⟨hcase,hvalid,hadmitted,row,hrow,hdigest,rfl⟩ := exec_claimed ht
    have hnext : Later cr g t := by
      have hstep := (@Later.refl cr g).step (.claimNewDeviceWriter device request former)
      rwa [ht] at hstep
    refine ⟨?_,hadmitted,fun u former' hu => ?_⟩
    · obtain rfl | ⟨-,hf,hbound⟩ := hcase
      · exact .inl rfl
      · refine .inr ⟨fun before hb path => ?_,hf.versions,hf.unbound,hbound⟩
        cases hw : before.library.writers.get request.writerId with
        | none => rfl
        | some d =>
          have hkept := (Later.keeps hb path).1 _ _ hw
          rw [hf.writer] at hkept
          cases hkept
    · exact exec_repeated ((Later.keeps (h.later hnext) hu).2 _ _ hrow) hdigest hvalid

/-- A new device asks for a writer. -/
def sampleClaim : NewDeviceClaimRequest := ⟨sampleWriter,"authorization-1",none⟩

def claimCrates : Crates :=
  tabulated
    [(sampleClaim.toControl.encode,
        "3ed7ccf185c8d1a430b6e806b11c9c8d581615b4e7f9c13854a1cb7627ed3c98"),
      ((Control.strings ["risunest-sync-genesis-v1","library","epoch"]).encode,
        "28d155fb4f569bee695e5dac56bb542f2fb624abdb08dc2686703023ebf31a74")]
    [] []

/-- A new library that one device is registered with. -/
def sampleRegistered : Gated :=
  ((create claimCrates "library" "epoch").exec claimCrates (.addDevice "device-a")).2

/-- The library after the device claims its writer. -/
def sampleClaimed : Gated :=
  (sampleRegistered.exec claimCrates (.claimNewDeviceWriter sampleDevice sampleClaim none)).2

/-- The claim binds the writer, and its repetition is answered alike. -/
theorem writers_one_to_one_sample :
    ∃ receipt, sampleRegistered.exec claimCrates
        (.claimNewDeviceWriter sampleDevice sampleClaim none) =
          (.claimed (.ok receipt),sampleClaimed) ∧
      sampleClaimed.library.writers.get sampleWriter = some "device-a" ∧
      sampleClaimed.exec claimCrates (.claimNewDeviceWriter sampleDevice sampleClaim none) =
        (.claimed (.ok receipt),sampleClaimed) := by
  have hr : Reachable claimCrates sampleRegistered := ⟨"library","epoch",Later.refl.step _⟩
  obtain ⟨receipt,hreceipt⟩ : ∃ receipt,
      (sampleRegistered.library.claimNewDeviceWriter claimCrates sampleRegistered.claims
        sampleDevice sampleClaim none).1 = .ok receipt := exists_eq_ok (by decide +kernel)
  have ht : sampleRegistered.exec claimCrates
      (.claimNewDeviceWriter sampleDevice sampleClaim none) =
        (.claimed (.ok receipt),sampleClaimed) := by
    apply Prod.ext
    · simp only [exec, hreceipt]
    · rfl
  obtain ⟨-,hadmitted,hagain⟩ := (writers_one_to_one hr).2.2 _ _ _ _ _ ht
  have hbound : sampleClaimed.library.writers.get sampleWriter = some "device-a" := by
    decide +kernel
  refine ⟨receipt,ht,hbound,?_⟩
  rw [hagain _ none Later.refl, hadmitted]
  rfl

end Gated
end RisuNest.Server
