import RisuNest.Server.FormatLevel
import RisuNest.Server.Gate

/-! The library of the server is run by its requests as by itself, and the level it caches is the
stored one. -/
namespace RisuNest.Server
open Wire

/-! ### The library of the server -/

lemma Frame.refl (s : Store) : Frame s s where
  head := rfl
  writerVersions := rfl
  units := rfl
  retired := rfl
  unitParents := rfl
  journal := rfl
  operations := rfl
  statePins := rfl
  descriptors := rfl
  referenceNodes := rfl
  referenceChildren := rfl
  referenceObjects := rfl
  referenceRelations := rfl
  writers := fun _ _ h => h
  devices := fun _ row h => ⟨row,h,.inl rfl⟩
  objects := fun _ _ h => h

namespace Store
variable {cr : Crates} {s t : Store} {device : Device}

lemma retainObjects_only {epoch : String} {objects : List ObjectIdentity}
    {token : String → String} {retained : List RetainedObject}
    (h : s.retainObjects cr device epoch objects token = .ok (t,retained)) :
    t = { s with objectCustody := t.objectCustody } := by
  have hrun : ∀ (rest : List ObjectIdentity) (acc next : Store × List RetainedObject),
      rest.foldlM (retainObject device token) acc = .ok next →
      next.1 = { acc.1 with objectCustody := next.1.objectCustody } := by
    intro rest
    induction rest with
    | nil =>
      intro acc next hr
      obtain rfl := Except.ok.inj hr
      rfl
    | cons object rest ih =>
      intro acc next hr
      obtain ⟨mid,hm,hr⟩ := foldlM_cons_eq_ok.mp hr
      obtain ⟨body,-,rfl⟩ := retainObject_eq_ok hm
      have hnext := ih _ _ hr
      exact hnext
  unfold retainObjects at h
  obtain ⟨_,-,h⟩ := bind_eq_ok.mp h
  obtain ⟨_,-,h⟩ := bind_eq_ok.mp h
  obtain ⟨_,-,h⟩ := bind_eq_ok.mp h
  exact hrun objects _ _ h

lemma releaseRetainedObjects_only {epoch : String} {objects : List RetentionRelease}
    (h : s.releaseRetainedObjects cr device epoch objects = .ok t) :
    t = { s with objectCustody := t.objectCustody } := by
  have hrun : ∀ (rest : List RetentionRelease) (acc next : Store),
      rest.foldlM (releaseRetainedObject device) acc = .ok next →
      next = { acc with objectCustody := next.objectCustody } := by
    intro rest
    induction rest with
    | nil =>
      intro acc next hr
      obtain rfl := Except.ok.inj hr
      rfl
    | cons object rest ih =>
      intro acc next hr
      obtain ⟨mid,hm,hr⟩ := foldlM_cons_eq_ok.mp hr
      obtain rfl := releaseRetainedObject_eq_ok hm
      have hnext := ih _ _ hr
      exact hnext
  unfold releaseRetainedObjects at h
  obtain ⟨_,-,h⟩ := bind_eq_ok.mp h
  obtain ⟨_,-,h⟩ := bind_eq_ok.mp h
  obtain ⟨_,-,h⟩ := bind_eq_ok.mp h
  exact hrun objects _ _ h

lemma bindDeviceWriter_frame (writerId : String) :
    Frame s (s.bindDeviceWriter cr device writerId).2 := by
  unfold bindDeviceWriter
  dsimp only
  split
  · exact .refl s
  · exact .refl s
  · exact { Frame.refl s with writers := fun w d h => Table.get_insertOrIgnore_of_get h }

lemma claimNewDeviceWriter_frame (claims : Table String ClaimRow)
    (request : NewDeviceClaimRequest) (former : Option String) :
    Frame s (s.claimNewDeviceWriter cr claims device request former).2.1 := by
  unfold claimNewDeviceWriter
  dsimp only
  split
  · exact .refl s
  · split_ifs
    · exact .refl s
    · exact .refl s
  · split
    · exact .refl s
    · refine { Frame.refl s with
        writers := fun w d h => Table.get_insertOrIgnore_of_get h
        devices := fun d row h => ?_ }
      rw [Table.get_mapValues] at h
      obtain ⟨old,ho,rfl⟩ := Option.map_eq_some_iff.mp h
      refine ⟨old,ho,?_⟩
      split_ifs
      · exact .inr rfl
      · exact .inl rfl

end Store

namespace Gated
variable {cr : Crates} {g : Gated}

lemma not_pushing (h : ¬ g.pushing = true) : g.pending = none ∧ g.committed = none := by
  simp only [pushing,Bool.or_eq_true,not_or,Bool.not_eq_true,Option.isSome_eq_false_iff,
    Option.isNone_iff_eq_none] at h
  exact h

lemma share_frame (s : Store) (d : Transfer.Disk) : Frame s (share s d) := by
  refine { Frame.refl s with objects := fun digest body h => ?_ }
  change (d.db.objects.rows.foldl _ s.objects).get digest = some body
  induction d.db.objects.rows generalizing s with
  | nil => exact h
  | cons r rows ih =>
    refine ih { s with objects := _ } ?_
    dsimp only
    split
    · exact Table.get_insertOrIgnore_of_get h
    · exact h

/-- The library with its push in flight, without its transfers. -/
def core (g : Gated) : System := ⟨g.library,g.pending⟩

/-- Every event is a run of the library. -/
theorem exec_core (g : Gated) (e : Event) :
    Relation.ReflTransGen (Step cr Set.univ) g.core (g.exec cr e).2.core := by
  have hop : ∀ (s : System) (o : Op), Relation.ReflTransGen (Step cr Set.univ) s (s.exec cr o).2 :=
    fun s o => .single (.op o (Set.subset_univ _))
  have hframe : ∀ {t : Store} (p : Option Pending), Frame g.library t →
      Relation.ReflTransGen (Step cr Set.univ) ⟨g.library,p⟩ ⟨t,p⟩ :=
    fun p hf => .single (.frame hf)
  cases e with
  | push call =>
    simp only [exec]
    split_ifs with hp
    · exact .refl
    · have hnone := (not_pushing hp).1
      have h := hop g.core (.beginPush call)
      simp only [core,System.exec,hnone] at h ⊢
      cases hb : g.library.beginPush cr call with
      | mk answer s =>
        rw [hb] at h
        cases answer with
        | inl answer => simpa only [hnone] using h
        | inr p => exact h
  | commitPush created =>
    simp only [exec]
    cases hp : g.pending with
    | none => exact .refl
    | some p =>
      have h := hop g.core (.finishPush created)
      simp only [core,System.exec,hp] at h ⊢
      split
      · exact h
      · exact h
  | releasePush =>
    simp only [exec]
    split <;> exact .refl
  | ask query =>
    simp only [exec]
    split <;> exact .refl
  | answer query =>
    simp only [exec]
    split_ifs
    · cases query <;> exact .refl
    · exact .refl
  | cancelOperation device id bodyDigest clock created =>
    exact hop g.core (.cancelOperation device id bodyDigest clock created)
  | changes device after limit => exact .refl
  | createStatePin device id now => exact hop g.core (.createStatePin device id now)
  | statePage device id after limit now => exact .refl
  | releaseStatePin device pin => exact hop g.core (.releaseStatePin device pin)
  | acknowledge device seq now => exact hop g.core (.acknowledge device seq now)
  | retainObjects device epoch objects token =>
    simp only [exec]
    split
    · exact .refl
    · next s retained h =>
      refine hframe _ ?_
      rw [Store.retainObjects_only h]
      exact { Frame.refl g.library with }
  | retainedObjects device epoch after => exact .refl
  | releaseRetainedObjects device epoch objects =>
    simp only [exec]
    split
    · exact .refl
    · next s h =>
      refine hframe _ ?_
      rw [Store.releaseRetainedObjects_only h]
      exact { Frame.refl g.library with }
  | bindDeviceWriter device writerId => exact hframe _ (Store.bindDeviceWriter_frame writerId)
  | newDeviceWriterClaim device => exact .refl
  | claimNewDeviceWriter device request former =>
    exact hframe _ (Store.claimNewDeviceWriter_frame g.claims request former)
  | transfer op =>
    simp only [exec]
    split
    · exact .refl
    · split_ifs
      · exact hframe _ (share_frame _ _)
      · exact .refl
  | maintain current clock objectNames chunkNames stuckChunks stuckObjects =>
    simp only [exec]
    split_ifs with hp
    · exact .refl
    · have hnone := (not_pushing hp).1
      split
      · next level n s hl hm =>
        have h := hop g.core (.maintain current clock)
        simp only [core,System.exec,hnone,hm] at h ⊢
        exact h.tail (.frame (share_frame _ _))
      · exact .refl
      · exact .refl
  | addDevice id => exact hop g.core (.addDevice id)
  | revokeDevice id => exact hop g.core (.revokeDevice id)
  | restart op writes =>
    simp only [exec]
    split
    · exact .refl
    · next level hl =>
      split_ifs
      · have h := hframe g.pending
          (share_frame g.library ((g.session level).exec cr (.crash op writes)).disk)
        exact h.trans (hop ⟨_,g.pending⟩ .restart)
      · exact hop g.core .restart

theorem Later.core {t : Gated} (h : Later cr g t) :
    Relation.ReflTransGen (Step cr Set.univ) g.core t.core := by
  induction h with
  | refl => exact .refl
  | step e _ ih => exact ih.trans (exec_core _ e)

theorem Reachable.core (h : Reachable cr g) : Server.Reachable cr Set.univ g.core := by
  obtain ⟨libraryId,epoch,path⟩ := h
  exact ⟨libraryId,epoch,path.core⟩

lemma Reachable.later {t : Gated} (h : Reachable cr g) (path : Later cr g t) : Reachable cr t := by
  induction path with
  | refl => exact h
  | step e _ ih =>
    obtain ⟨libraryId,epoch,hp⟩ := ih
    exact ⟨libraryId,epoch,hp.step e⟩

/-! ### The cached level -/

lemma finishPush_raised {s t : Store} {p : Pending} {created : ℤ} {receipt : PushReceipt}
    (hp : p.WellFormed cr) (hs : Retirements s)
    (hr : s.replay p.device p.request.operationId p.digest = .ok none)
    (h : s.finishPush cr p created = (.ok receipt,t)) {level : ℕ}
    (hl : s.storedFormat cr = .ok level) :
    t.storedFormat cr = .ok ((raised cr s p).getD level) := by
  unfold Store.finishPush at h
  dsimp only at h
  split at h
  · exact nomatch (Prod.mk.inj h).1
  · next receipt' hlooked =>
    obtain ⟨_,-,hlooked⟩ := bind_eq_ok.mp hlooked
    exact nomatch hr.symm.trans hlooked
  · rw [hl] at h
    dsimp only at h
    split_ifs at h with hu
    · exact nomatch (Prod.mk.inj h).1
    · have hu := Bool.eq_false_iff.mpr hu
      split at h
      · split_ifs at h
        · exact nomatch (Prod.mk.inj h).1
        · exact nomatch (Prod.mk.inj h).1
      · next won hv =>
        split at h
        · exact nomatch (Prod.mk.inj h).1
        · next receipt' t' hacc =>
          obtain ⟨-,rfl⟩ := Prod.mk.inj h
          obtain ⟨_,hprep,-⟩ := bind_eq_ok.mp hv
          have ha := Store.accept_eq_ok hv (nodup_of_validate (hp.valid hprep)) hacc
          rw [ha.storedFormat hs hl hu]
          unfold raised
          rw [hl]
          simp only [hv]

lemma finishPush_level {s t : Store} {p : Pending} {created : ℤ} {answer : Answer PushReceipt}
    (hp : p.WellFormed cr) (h : s.finishPush cr p created = (answer,t))
    (hn : ∀ receipt, answer = .ok receipt →
      s.replay p.device p.request.operationId p.digest ≠ .ok none) :
    t.storedFormat cr = s.storedFormat cr := by
  have hf := Store.finishPush_cases (s := s) hp created
  rw [h] at hf
  cases hf with
  | refused | denied | repeated | postponed | failed => rfl
  | rejected => exact Store.storedFormat_congr rfl
  | accepted _ hr => exact absurd hr (hn _ rfl)

/-- The level the server caches is the stored one, but for a push that has raised it and has not
told yet. -/
structure Told (cr : Crates) (g : Gated) : Prop where
  level : g.library.storedFormat cr =
    .ok ((g.committed.bind Committed.raised).getD g.cached)
  one : g.pending.isSome = true → g.committed = none

lemma Told.of_units {t : Gated} (h : g.Told cr) (hu : t.library.units = g.library.units)
    (hp : t.pending = g.pending) (hc : t.committed = g.committed) (hl : t.cached = g.cached) :
    t.Told cr := by
  refine ⟨?_,by rw [hp,hc]; exact h.one⟩
  rw [hc,hl,← h.level]
  exact Store.storedFormat_congr (by rw [hu])

lemma beginPush_units (s : Store) (call : PushCall) :
    (s.beginPush cr call).2.units = s.units := by
  have hb : Store.Began cr s call _ _ := Store.beginPush_cases s call
  generalize s.beginPush cr call = began at hb ⊢
  obtain ⟨answer,t⟩ := began
  cases hb with
  | prepared =>
    have hf : (s.prepareChanges cr .empty call.request.changes).2 = _ :=
      Store.prepareChanges_frame s .empty call.request.changes
    change (s.prepareDescriptors cr call.request.changes).2.units = s.units
    unfold Store.prepareDescriptors
    rw [hf]
  | _ => rfl

lemma Reachable.told (h : Reachable cr g) : g.Told cr := by
  obtain ⟨libraryId,epoch,path⟩ := h
  induction path with
  | refl => exact ⟨rfl,fun hp => nomatch hp⟩
  | @step t e hpath ih =>
    have ht : Server.Reachable cr Set.univ t.core := ⟨libraryId,epoch,hpath.core⟩
    cases e with
    | push call =>
      simp only [exec]
      split_ifs with hp
      · exact ih
      · obtain ⟨hnone,hc⟩ := not_pushing hp
        have hu : (t.library.beginPush cr call).2.units = t.library.units :=
          beginPush_units t.library call
        split
        · next answer s hb =>
          rw [hb] at hu
          exact ih.of_units hu rfl rfl rfl
        · next p s hb =>
          rw [hb] at hu
          have hl := (ih.of_units (t := { t with library := s }) hu rfl rfl rfl).level
          exact ⟨hl,fun _ => hc⟩
    | commitPush created =>
      simp only [exec]
      cases hp : t.pending with
      | none => exact ih
      | some p =>
        have hw : p.WellFormed cr := (ht.pendingValid p hp).1
        have hc : t.committed = none := ih.one (by rw [hp]; rfl)
        have hl : t.library.storedFormat cr = .ok t.cached := by
          rw [ih.level,hc]
          rfl
        dsimp only
        cases hf : t.library.finishPush cr p created with
        | mk answer s =>
          dsimp only
          split
          · next receipt hr =>
            have := finishPush_raised hw ht.retirements hr hf hl
            exact ⟨this,fun hn => nomatch hn⟩
          · next hnot =>
            have hsame := finishPush_level hw hf fun receipt ha hr => hnot receipt ha hr
            refine ⟨?_,fun hn => nomatch hn⟩
            change s.storedFormat cr = .ok ((t.committed.bind _).getD _)
            rw [hsame,hc]
            exact hl
    | releasePush =>
      simp only [exec]
      split
      · exact ih
      · next c hc =>
        have hl := ih.level
        rw [hc] at hl
        exact ⟨hl,fun _ => rfl⟩
    | ask query =>
      simp only [exec]
      split
      · exact ih
      · exact ih.of_units rfl rfl rfl rfl
    | answer query =>
      simp only [exec]
      split_ifs
      · cases query <;> exact ih.of_units rfl rfl rfl rfl
      · exact ih
    | cancelOperation device id bodyDigest clock created =>
      exact ih.of_units (Store.cancelOperation_quiet ..).units rfl rfl rfl
    | changes device after limit => exact ih
    | createStatePin device id now =>
      exact ih.of_units (Store.createStatePin_quiet ..).units rfl rfl rfl
    | statePage device id after limit now => exact ih
    | releaseStatePin device pin =>
      exact ih.of_units (Store.releaseStatePin_quiet ..).units rfl rfl rfl
    | acknowledge device seq now =>
      exact ih.of_units (Store.acknowledge_quiet ..).units rfl rfl rfl
    | retainObjects device epoch objects token =>
      simp only [exec]
      split
      · exact ih
      · next s retained hr =>
        exact ih.of_units (by rw [Store.retainObjects_only hr]) rfl rfl rfl
    | retainedObjects device epoch after => exact ih
    | releaseRetainedObjects device epoch objects =>
      simp only [exec]
      split
      · exact ih
      · next s hr => exact ih.of_units (by rw [Store.releaseRetainedObjects_only hr]) rfl rfl rfl
    | bindDeviceWriter device writerId =>
      exact ih.of_units (Store.bindDeviceWriter_frame writerId).units rfl rfl rfl
    | newDeviceWriterClaim device => exact ih
    | claimNewDeviceWriter device request former =>
      exact ih.of_units (Store.claimNewDeviceWriter_frame t.claims request former).units rfl rfl rfl
    | transfer op =>
      simp only [exec]
      split
      · exact ih
      · split_ifs
        · exact ih.of_units rfl rfl rfl rfl
        · exact ih
    | maintain current clock objectNames chunkNames stuckChunks stuckObjects =>
      simp only [exec]
      split_ifs
      · exact ih
      · split
        · next level n s hl hm =>
          have hu : (t.library.maintainAt cr current clock).2.units = t.library.units := by
            unfold Store.maintainAt
            dsimp only
            split <;> rfl
          rw [hm] at hu
          exact ih.of_units hu rfl rfl rfl
        · exact ih
        · exact ih
    | addDevice id => exact ih.of_units rfl rfl rfl rfl
    | revokeDevice id => exact ih.of_units (Store.revokeDevice_quiet ..).units rfl rfl rfl
    | restart op writes =>
      simp only [exec]
      split
      · exact ih
      · next level hl =>
        refine ⟨?_,fun hn => nomatch hn⟩
        split_ifs
        · exact hl
        · exact hl

end Gated
end RisuNest.Server
