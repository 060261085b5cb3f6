import RisuNest.Server.Batch

/-! What one step of the server can do. Every invariant below is proved from the cases listed
here. -/
namespace RisuNest.Server
open Wire

lemma lift_eq_error {α : Type} {r : Wire.Result α} {e : Error} :
    lift r = .error e ↔ ∃ w, r = .error w ∧ e = Error.ofWire w := by
  cases r <;> simp [lift, Except.mapError, eq_comm]

/-- A prepared push carries the digest of its request, and only a valid request is prepared. -/
structure Pending.WellFormed (cr : Crates) (p : Pending) : Prop where
  digest : p.digest = p.request.digest cr
  valid : p.preparation = .ok () → p.request.validate cr = .ok ()

lemma nodup_of_validate {cr : Crates} {r : PushRequest} (h : r.validate cr = .ok ()) :
    (r.changes.map UnitChange.key).Nodup := by
  unfold PushRequest.validate at h
  obtain ⟨_, -, h⟩ := bind_eq_ok.mp h
  obtain ⟨_, -, h⟩ := bind_eq_ok.mp h
  obtain ⟨_, -, h⟩ := bind_eq_ok.mp h
  by_cases he : r.changes = []
  · simp [he]
  · rw [if_neg he] at h
    exact (PushRequest.nodup_of_validateChanges h).1

lemma parents_format {k : UnitKey} (h : LibraryFormat.isKey k = true) : parents k = .ok [] := by
  rw [LibraryFormat.isKey, decide_eq_true_eq] at h
  simp [parents, h, parentComponents, component, lift, Except.mapError, pure, Except.pure]

namespace Store
variable {cr : Crates}

/-! ### The transaction of a push -/

/-- A push whose changes were judged fails only when the sequence runs out. -/
theorem accept_eq_error {s : Store} {p : Pending} {created : ℤ} {level : ℕ}
    {won : List UnitChange} {e : Error} (hv : s.validation cr p level = .ok won)
    (h : s.accept cr p created won = .error e) : e = .new "sequence-overflow" 503 := by
  obtain ⟨_, -, hv⟩ := bind_eq_ok.mp hv
  have hwin : s.winners cr level p.now (retiring p.request.changes) p.request.changes = .ok won := by
    cases he : p.emptyOnly <;> simp only [he, Bool.false_eq_true, if_false, if_true] at hv
    · obtain ⟨_, -, hv⟩ := bind_eq_ok.mp hv
      exact hv
    · obtain ⟨_, -, hv⟩ := bind_eq_ok.mp hv
      obtain ⟨_, -, hv⟩ := bind_eq_ok.mp hv
      exact hv
  obtain ⟨hj, hw⟩ := winners_eq_ok hwin
  have hversions : ∀ (s' : Store) (cs : List UnitChange), (∀ c ∈ cs, c ∈ p.request.changes) →
      ∃ t, s'.recordVersions cr created cs = .ok t := by
    intro s' cs
    induction cs generalizing s' with
    | nil => exact fun _ => ⟨s',rfl⟩
    | cons c cs ih =>
      intro hc
      obtain ⟨i, hi, -⟩ := (hj c (hc c (by simp))).identity
      obtain ⟨t, ht⟩ := ih _ fun d hd => hc d (by simp [hd])
      refine ⟨t,?_⟩
      rw [recordVersions, hi]
      exact ht
  have hwinners : ∀ (s' : Store) (seq : ℕ) (cs : List UnitChange), (∀ c ∈ cs, c ∈ won) →
      ∀ e, s'.applyWinners seq created cs = .error e → e = .new "sequence-overflow" 503 := by
    intro s' seq cs
    induction cs generalizing s' seq with
    | nil =>
      intro _ e he
      cases he
    | cons c cs ih =>
      intro hc e he
      rw [applyWinners] at he
      rcases bind_eq_error.mp he with he | ⟨_, -, he⟩
      · exact (require_eq_error.mp he).2.symm
      · have hparents : ∃ ps, parents c.key = .ok ps := by
          have hm : c ∈ p.request.changes := (List.mem_filter.mp (hw ▸ hc c (by simp))).1
          cases hf : LibraryFormat.isKey c.key with
          | true => exact ⟨[],parents_format hf⟩
          | false =>
            obtain ⟨_, ps, -, hps, -⟩ := (hj c hm).plain hf
            exact ⟨ps,hps⟩
        obtain ⟨ps, hps⟩ := hparents
        rw [hps] at he
        exact ih _ _ (fun d hd => hc d (by simp [hd])) e he
  rcases bind_eq_error.mp h with h | ⟨s1, -, h⟩
  · obtain ⟨t, ht⟩ := hversions { s with
      writers := s.writers.insertOrIgnore p.request.writerId p.device.id } p.request.changes
      fun _ hc => hc
    rw [ht] at h
    cases h
  · rcases bind_eq_error.mp h with h | ⟨_, -, h⟩
    · exact hwinners _ _ won (fun _ hc => hc) e h
    · cases h

lemma storedFormat_of_admission {s : Store} {d : Device} {r : PushRequest}
    (h : s.admission cr d r = .ok ()) : ∃ level, s.storedFormat cr = .ok level := by
  obtain ⟨_, h, -⟩ := bind_eq_ok.mp h
  obtain ⟨_, -, h⟩ := bind_eq_ok.mp h
  obtain ⟨level, h, -⟩ := bind_eq_ok.mp h
  exact ⟨level,h⟩

/-- The outcomes of the transaction of a push. -/
inductive Finished (cr : Crates) (s : Store) (p : Pending) (created : ℤ) :
    Answer PushReceipt → Store → Prop
  | refused {e : Error} (h : s.admission cr p.device p.request = .error e) :
      Finished cr s p created (.error e) s
  | denied {e : Error} (ha : s.admission cr p.device p.request = .ok ())
      (h : s.replay p.device p.request.operationId p.digest = .error e) :
      Finished cr s p created (.error e) s
  | repeated {receipt : PushReceipt} (ha : s.admission cr p.device p.request = .ok ())
      (h : s.replay p.device p.request.operationId p.digest = .ok (some receipt)) :
      Finished cr s p created (.ok receipt) s
  | postponed (ha : s.admission cr p.device p.request = .ok ())
      (hr : s.replay p.device p.request.operationId p.digest = .ok none)
      (h : unknownLevel cr p.request.changes = true) :
      Finished cr s p created (.error (.new "sync-server-update-required" 409)) s
  | failed {e : Error} (ha : s.admission cr p.device p.request = .ok ())
      (hr : s.replay p.device p.request.operationId p.digest = .ok none) (h : 500 ≤ e.status) :
      Finished cr s p created (.error e) s
  | rejected {e : Error} {level : ℕ} (ha : s.admission cr p.device p.request = .ok ())
      (hr : s.replay p.device p.request.operationId p.digest = .ok none)
      (hl : s.storedFormat cr = .ok level) (hv : s.validation cr p level = .error e)
      (h : e.status < 500) :
      Finished cr s p created (.error e) (s.reject p created e).2
  | accepted {level : ℕ} {won : List UnitChange} {receipt : PushReceipt} {t : Store}
      (ha : s.admission cr p.device p.request = .ok ())
      (hr : s.replay p.device p.request.operationId p.digest = .ok none)
      (hl : s.storedFormat cr = .ok level) (hu : unknownLevel cr p.request.changes = false)
      (h : Accepted cr s p created level won receipt t) :
      Finished cr s p created (.ok receipt) t

theorem finishPush_cases {s : Store} {p : Pending} (hp : p.WellFormed cr) (created : ℤ) :
    Finished cr s p created (s.finishPush cr p created).1 (s.finishPush cr p created).2 := by
  unfold finishPush
  cases ha : s.admission cr p.device p.request with
  | error e => exact .refused ha
  | ok u =>
    cases hr : s.replay p.device p.request.operationId p.digest with
    | error e => exact .denied ha hr
    | ok prior =>
      cases prior with
      | some receipt => exact .repeated ha hr
      | none =>
        obtain ⟨level, hl⟩ := storedFormat_of_admission ha
        simp only [bind, Except.bind, hl]
        cases hu : unknownLevel cr p.request.changes with
        | true => exact .postponed ha hr hu
        | false =>
          simp only [Bool.false_eq_true, if_false]
          cases hv : s.validation cr p level with
          | error e =>
            by_cases he : e.status < 500
            · simp only [he, if_true]
              exact .rejected ha hr hl hv he
            · simp only [he, if_false]
              exact .failed ha hr (Nat.le_of_not_lt he)
          | ok won =>
            dsimp only
            cases hacc : s.accept cr p created won with
            | error e =>
              refine .failed ha hr ?_
              rw [accept_eq_error hv hacc]
              decide
            | ok done =>
              obtain ⟨receipt, t⟩ := done
              obtain ⟨_, hprep, -⟩ := bind_eq_ok.mp hv
              exact .accepted ha hr hl hu
                (accept_eq_ok hv (nodup_of_validate (hp.valid hprep)) hacc)

/-! ### The preparation of a push -/

/-- What a flush may change. -/
def IndexFrame (s t : Store) : Prop :=
  t = { s with
    descriptors := t.descriptors
    referenceNodes := t.referenceNodes
    referenceChildren := t.referenceChildren
    referenceObjects := t.referenceObjects
    referenceRelations := t.referenceRelations }

lemma IndexFrame.trans {s t u : Store} (h : IndexFrame s t) (h' : IndexFrame t u) :
    IndexFrame s u := by
  unfold IndexFrame at h h' ⊢
  rw [h', h]

lemma flush_frame (s : Store) (p : PendingIndex) : IndexFrame s (s.flush p) := by
  unfold flush
  induction p.rows generalizing s with
  | nil => rfl
  | cons r rows ih =>
    refine IndexFrame.trans ?_ (ih (s.writeRow r))
    cases r with
    | edge table root value => cases table <;> rfl
    | _ => rfl

lemma prepareChanges_frame (s : Store) (p : PendingIndex) (cs : List UnitChange) :
    IndexFrame s (s.prepareChanges cr p cs).2 := by
  induction cs generalizing s p with
  | nil => exact flush_frame s p
  | cons c cs ih =>
    unfold prepareChanges
    split
    · split
      · rfl
      · split_ifs
        · rfl
        · exact (flush_frame s _).trans (ih _ _)
        · exact ih _ _
    · exact ih _ _

/-- The outcomes of the first half of a push. -/
inductive Began (cr : Crates) (s : Store) (call : PushCall) :
    (Answer PushReceipt ⊕ Pending) → Store → Prop
  | invalid {e : Error} (h : (lift (validateId call.request.operationId) = .error e) ∨
      call.clock = .error e) : Began cr s call (.inl (.error e)) s
  | refused {e : Error} (h : s.admission cr call.device call.request = .error e) :
      Began cr s call (.inl (.error e)) s
  | denied {e : Error} (ha : s.admission cr call.device call.request = .ok ())
      (h : s.replay call.device call.request.operationId (call.request.digest cr) = .error e) :
      Began cr s call (.inl (.error e)) s
  | repeated {receipt : PushReceipt} (ha : s.admission cr call.device call.request = .ok ())
      (h : s.replay call.device call.request.operationId (call.request.digest cr) =
        .ok (some receipt)) : Began cr s call (.inl (.ok receipt)) s
  | invalidRequest {now : ℕ} {e : Error} (ha : s.admission cr call.device call.request = .ok ())
      (hr : s.replay call.device call.request.operationId (call.request.digest cr) = .ok none) :
      Began cr s call
        (.inr ⟨call.device,call.request,call.emptyOnly,now,call.request.digest cr,.error e⟩) s
  | prepared {now : ℕ} (ha : s.admission cr call.device call.request = .ok ())
      (hr : s.replay call.device call.request.operationId (call.request.digest cr) = .ok none)
      (hv : call.request.validate cr = .ok ()) :
      Began cr s call
        (.inr ⟨call.device,call.request,call.emptyOnly,now,call.request.digest cr,
          (s.prepareDescriptors cr call.request.changes).1⟩)
        (s.prepareDescriptors cr call.request.changes).2

theorem beginPush_cases (s : Store) (call : PushCall) :
    Began cr s call (s.beginPush cr call).1 (s.beginPush cr call).2 := by
  simp only [beginPush]
  cases hi : lift (validateId call.request.operationId) with
  | error e => exact .invalid (.inl hi)
  | ok u =>
    cases hc : call.clock with
    | error e => exact .invalid (.inr hc)
    | ok now =>
      cases ha : s.admission cr call.device call.request with
      | error e => exact .refused ha
      | ok u =>
        cases hr : s.replay call.device call.request.operationId (call.request.digest cr) with
        | error e => exact .denied ha hr
        | ok prior =>
          cases prior with
          | some receipt => exact .repeated ha hr
          | none =>
            simp only [bind, Except.bind, pure, Except.pure]
            cases hv : call.request.validate cr with
            | error e => exact .invalidRequest ha hr
            | ok u => exact .prepared ha hr hv

end Store

/-! ### The cases of a step -/

/-- What a step leaves behind that touches neither units nor journal: at most a remembered
refusal, a pin of the present units, and more objects. -/
structure Quiet (s t : Store) : Prop where
  head : t.head = s.head
  units : t.units = s.units
  retired : t.retired = s.retired
  unitParents : t.unitParents = s.unitParents
  journal : t.journal = s.journal
  writerVersions : t.writerVersions = s.writerVersions
  operations : ∀ k row, t.operations.get k = some row → s.operations.get k = some row ∨
    ∃ i d e n, row.receipt = .rejected i d e n
  answered : ∀ k row, s.operations.get k = some row → t.operations.get k = some row
  pins : ∀ id pin, t.statePins.get id = some pin → s.statePins.get id = some pin ∨
    pin.startSeq = s.head.seq ∧ pin.units = s.units
  objects : ∀ h b, s.objects.get h = some b → t.objects.get h = some b
  descriptors : t.descriptors = s.descriptors
  referenceNodes : t.referenceNodes = s.referenceNodes
  referenceChildren : t.referenceChildren = s.referenceChildren
  referenceObjects : t.referenceObjects = s.referenceObjects
  referenceRelations : t.referenceRelations = s.referenceRelations

lemma Quiet.refl (s : Store) : Quiet s s :=
  ⟨rfl,rfl,rfl,rfl,rfl,rfl,fun _ _ h => .inl h,fun _ _ h => h,fun _ _ h => .inl h,fun _ _ h => h,
    rfl,rfl,rfl,rfl,rfl⟩

lemma Frame.quiet {s t : Store} (h : Frame s t) : Quiet s t :=
  ⟨h.head,h.units,h.retired,h.unitParents,h.journal,h.writerVersions,
    fun _ _ ho => .inl (h.operations ▸ ho),fun _ _ ho => h.operations ▸ ho,
    fun _ _ hp => .inl (h.statePins ▸ hp),h.objects,
    h.descriptors,h.referenceNodes,h.referenceChildren,h.referenceObjects,h.referenceRelations⟩

namespace Store
variable {cr : Crates}

lemma saveOperation_quiet (s : Store) (device : Device) (id i d e : String) (n : ℕ)
    (rejection : Option Error) (created : ℤ) :
    Quiet s (s.saveOperation device id (.rejected i d e n) rejection created) := by
  refine { Quiet.refl s with operations := ?_, answered := ?_ }
  · intro k row hk
    change (s.operations.insertOrIgnore (device.id,id) _).get k = some row at hk
    rw [Table.get_insertOrIgnore] at hk
    split_ifs at hk with he
    · cases ho : s.operations.get (device.id,id) with
      | some old =>
        rw [ho, Option.getD_some] at hk
        exact .inl (by rw [he, ho, hk])
      | none =>
        rw [ho, Option.getD_none] at hk
        cases hk
        exact .inr ⟨_,_,_,_,rfl⟩
    · exact .inl hk
  · exact fun k row hk => Table.get_insertOrIgnore_of_get hk

lemma cancelOperation_quiet (s : Store) (device : Device) (id bodyDigest : String)
    (clock : Answer ℕ) (created : ℤ) :
    Quiet s (s.cancelOperation cr device id bodyDigest clock created).2 := by
  unfold cancelOperation
  dsimp only
  split
  · exact .refl s
  · split_ifs <;> exact .refl s
  · split
    · exact .refl s
    · exact saveOperation_quiet s _ _ _ _ _ _ _ _

lemma createStatePin_quiet (s : Store) (device : Device) (id : String) (now : ℤ) :
    Quiet s (s.createStatePin cr device id now).2 := by
  unfold createStatePin
  split
  · exact .refl s
  · refine { Quiet.refl s with pins := ?_ }
    intro k pin hk
    rw [Table.get_insertOrIgnore] at hk
    split_ifs at hk with he
    · subst he
      cases ho : (s.statePins.deleteWhere _).get k with
      | some old =>
        rw [ho, Option.getD_some] at hk
        cases hk
        exact .inl (Table.get_deleteWhere_eq_some.mp ho).1
      | none =>
        rw [ho, Option.getD_none] at hk
        cases hk
        exact .inr ⟨rfl,rfl⟩
    · exact .inl (Table.get_deleteWhere_eq_some.mp hk).1

lemma releaseStatePin_quiet (s : Store) (device : Device) (pin : String) :
    Quiet s (s.releaseStatePin cr device pin).2 := by
  unfold releaseStatePin
  split
  · exact .refl s
  · exact { Quiet.refl s with
      pins := fun _ _ h => .inl (Table.get_deleteWhere_eq_some.mp h).1 }

lemma acknowledge_quiet (s : Store) (device : Device) (seq : ℕ) (now : ℤ) :
    Quiet s (s.acknowledge cr device seq now).2 := by
  unfold acknowledge
  split
  · exact .refl s
  · split
    · exact .refl s
    · split_ifs
      · exact .refl s
      · exact { Quiet.refl s with }

lemma revokeDevice_quiet (s : Store) (id : String) : Quiet s (s.revokeDevice id).2 := by
  unfold revokeDevice
  split
  · exact .refl s
  · split
    · exact .refl s
    · exact { Quiet.refl s with }

lemma putObject_quiet (s : Store) (device : Device) (digest : String) (bytes : List UInt8)
    (now : ℤ) : Quiet s (s.putObject cr device digest bytes now).2 := by
  unfold putObject
  dsimp only
  split
  · exact .refl s
  · refine { Quiet.refl s with objects := ?_ }
    intro h b hb
    change (s.objects.insertOrIgnore digest bytes).get h = some b
    rw [Table.get_insertOrIgnore]
    split_ifs with he
    · rw [← he, hb, Option.getD_some]
    · exact hb

lemma foldl_leaseObject (s : Store) (device : Device) (hashes : List String) (now : ℤ) :
    hashes.foldl (fun s digest => s.leaseObject device digest now) s =
      { s with
        objectLeases :=
          (hashes.foldl (fun s digest => s.leaseObject device digest now) s).objectLeases } := by
  induction hashes generalizing s with
  | nil => rfl
  | cons h hs ih => rw [List.foldl_cons, ih]; rfl

lemma pinObjects_quiet (s : Store) (device : Device) (hashes : List String) (now : ℤ) :
    Quiet s (s.pinObjects cr device hashes now).2 := by
  unfold pinObjects
  dsimp only
  split
  · exact .refl s
  · dsimp only
    rw [foldl_leaseObject]
    exact { Quiet.refl s with }

end Store

/-- The texts of a request that the server hashes. -/
def PushTexts (texts : Set (List UInt8)) (r : PushRequest) : Prop :=
  r.toControl.encode ∈ texts ∧ ∀ c ∈ r.changes, c.value.toControl.encode ∈ texts

section
variable (cr : Crates) (texts : Set (List UInt8))

/-- The push in flight is well formed and its texts are among those that occur. -/
def PendingValid (s : System) : Prop :=
  ∀ p, s.pending = some p → p.WellFormed cr ∧ PushTexts texts p.request

/-- What one step does to the store and to the push in flight. The operation is given unless the
step is one of those outside the model. -/
inductive Moved (o : Option Op) (s t : System) : Prop
  | quiet (h : Quiet s.store t.store) (hp : t.pending = s.pending ∨ t.pending = none)
  | prepared {p : Pending} (hs : s.pending = none) (ht : t.pending = some p)
      (hw : p.WellFormed cr) (hx : PushTexts texts p.request)
      (ha : s.store.admission cr p.device p.request = .ok ())
      (hr : s.store.replay p.device p.request.operationId p.digest = .ok none)
      (hf : Store.IndexFrame s.store t.store)
      (h : (t.store = s.store ∧ ∃ e, p.preparation = .error e) ∨
        (p.preparation,t.store) = s.store.prepareDescriptors cr p.request.changes)
  | accepted {p : Pending} {created : ℤ} {level : ℕ} {won : List UnitChange}
      {receipt : PushReceipt} (hs : s.pending = some p) (ht : t.pending = none)
      (ha : s.store.admission cr p.device p.request = .ok ())
      (hr : s.store.replay p.device p.request.operationId p.digest = .ok none)
      (hl : s.store.storedFormat cr = .ok level)
      (hu : Store.unknownLevel cr p.request.changes = false)
      (h : Store.Accepted cr s.store p created level won receipt t.store)
  | pruned {current clock : ℤ} {roots : List String} (hs : s.pending = none)
      (ht : t.pending = none) (hr : (s.store.pruned current).gcRoots cr clock = .ok roots)
      (h : t.store = (s.store.pruned current).sweep
        (Closure.closure (s.store.pruned current).gcEdges roots))
      (ho : o = some (.maintain current clock))
  | rotated {epoch : String} (hs : s.pending = none) (ht : t.pending = none)
      (h : t.store = s.store.rotateRestoredEpoch cr epoch)
      (ho : o = some (.rotateRestoredEpoch epoch))

end

theorem exec_cases {cr : Crates} {texts : Set (List UInt8)} {s : System}
    (hv : PendingValid cr texts s) {o : Op} (ho : o.texts ⊆ texts) :
    Moved cr texts (some o) s (s.exec cr o).2 := by
  cases o with
  | beginPush call =>
    simp only [System.exec]
    cases hs : s.pending with
    | some p => exact .quiet (.refl _) (.inl rfl)
    | none =>
      have hx : PushTexts texts call.request :=
        ⟨ho (.inl rfl),fun c hc => ho (.inr ⟨c,hc,rfl⟩)⟩
      have hb : Store.Began cr s.store call _ _ := Store.beginPush_cases s.store call
      revert hb
      generalize s.store.beginPush cr call = began
      obtain ⟨answer, t⟩ := began
      intro hb
      cases hb with
      | invalid h => exact .quiet (.refl _) (.inr rfl)
      | refused h => exact .quiet (.refl _) (.inr rfl)
      | denied ha h => exact .quiet (.refl _) (.inr rfl)
      | repeated ha h => exact .quiet (.refl _) (.inr rfl)
      | invalidRequest ha hr =>
        exact .prepared hs rfl ⟨rfl,fun h => by cases h⟩ hx ha hr rfl (.inl ⟨rfl,_,rfl⟩)
      | prepared ha hr hval =>
        exact .prepared hs rfl ⟨rfl,fun _ => hval⟩ hx ha hr
          (Store.prepareChanges_frame s.store .empty call.request.changes) (.inr rfl)
  | finishPush created =>
    simp only [System.exec]
    cases hs : s.pending with
    | none => exact .quiet (.refl _) (.inl (by simp [hs]))
    | some p =>
      dsimp only
      have hf : Store.Finished cr s.store p created _ _ :=
        Store.finishPush_cases (hv p hs).1 created
      revert hf
      generalize s.store.finishPush cr p created = finished
      obtain ⟨answer, t⟩ := finished
      intro hf
      cases hf with
      | rejected ha hr hl hval he => exact .quiet (Store.saveOperation_quiet ..) (.inr rfl)
      | accepted ha hr hl hu h => exact .accepted hs rfl ha hr hl hu h
      | _ => exact .quiet (.refl _) (.inr rfl)
  | cancelOperation device id bodyDigest clock created =>
    exact .quiet (Store.cancelOperation_quiet ..) (.inl rfl)
  | changes device after limit => exact .quiet (.refl _) (.inl rfl)
  | createStatePin device id now => exact .quiet (Store.createStatePin_quiet ..) (.inl rfl)
  | releaseStatePin device pin => exact .quiet (Store.releaseStatePin_quiet ..) (.inl rfl)
  | acknowledge device seq now => exact .quiet (Store.acknowledge_quiet ..) (.inl rfl)
  | maintain current clock =>
    simp only [System.exec]
    cases hs : s.pending with
    | some p => exact .quiet (.refl _) (.inl rfl)
    | none =>
      simp only [Store.maintainAt]
      cases hr : (s.store.pruned current).gcRoots cr clock with
      | error e => exact .quiet (.refl _) (.inl (by simp [hs]))
      | ok roots => exact .pruned hs rfl hr rfl rfl
  | addDevice id => exact .quiet { Quiet.refl s.store with } (.inl rfl)
  | revokeDevice id => exact .quiet (Store.revokeDevice_quiet ..) (.inl rfl)
  | putObject device digest bytes now => exact .quiet (Store.putObject_quiet ..) (.inl rfl)
  | pinObjects device hashes now => exact .quiet (Store.pinObjects_quiet ..) (.inl rfl)
  | rotateRestoredEpoch epoch =>
    simp only [System.exec]
    cases hs : s.pending with
    | some p => exact .quiet (.refl _) (.inl rfl)
    | none => exact .rotated hs rfl rfl rfl
  | restart => exact .quiet (.refl _) (.inr rfl)

theorem step_cases {cr : Crates} {texts : Set (List UInt8)} {s t : System}
    (hv : PendingValid cr texts s) (h : Step cr texts s t) : ∃ o, Moved cr texts o s t := by
  cases h with
  | frame h => exact ⟨none,.quiet h.quiet (.inl rfl)⟩
  | op o ho => exact ⟨some o,exec_cases hv ho⟩

lemma Moved.pendingValid {cr : Crates} {texts : Set (List UInt8)} {o : Option Op} {s t : System}
    (h : Moved cr texts o s t) (hv : PendingValid cr texts s) : PendingValid cr texts t := by
  cases h with
  | quiet h hp =>
    rcases hp with hp | hp
    · exact fun p hs => hv p (hp ▸ hs)
    · exact fun p hs => by rw [hp] at hs; cases hs
  | prepared hs ht hw hx =>
    intro p hp
    rw [ht] at hp
    cases hp
    exact ⟨hw,hx⟩
  | accepted hs ht => exact fun p hp => by rw [ht] at hp; cases hp
  | pruned hs ht => exact fun p hp => by rw [ht] at hp; cases hp
  | rotated hs ht => exact fun p hp => by rw [ht] at hp; cases hp

theorem Reachable.invariant {cr : Crates} {texts : Set (List UInt8)} {I : System → Prop}
    (init : ∀ libraryId epoch, I ⟨Store.genesis cr libraryId epoch,none⟩)
    (step : ∀ s t o, PendingValid cr texts s → I s → Moved cr texts o s t → I t) {s : System}
    (h : Reachable cr texts s) : PendingValid cr texts s ∧ I s := by
  refine Reachable.induct (I := fun s => PendingValid cr texts s ∧ I s) ?_ ?_ h
  · exact fun libraryId epoch => ⟨fun p hp => (by cases hp),init libraryId epoch⟩
  · rintro s t ⟨hv, hi⟩ hst
    obtain ⟨o, hm⟩ := step_cases hv hst
    exact ⟨hm.pendingValid hv,step s t o hv hi hm⟩

theorem Reachable.pendingValid {cr : Crates} {texts : Set (List UInt8)} {s : System}
    (h : Reachable cr texts s) : PendingValid cr texts s :=
  (Reachable.invariant (I := fun _ => True) (fun _ _ => trivial) (fun _ _ _ _ _ _ => trivial) h).1

theorem Reachable.run_induct {cr : Crates} {texts : Set (List UInt8)} {s t : System}
    {I : System → Prop} (h : Reachable cr texts s) (hi : I s)
    (step : ∀ u v o, Reachable cr texts u → I u → Moved cr texts o u v → I v)
    (path : Relation.ReflTransGen (Step cr texts) s t) : Reachable cr texts t ∧ I t := by
  induction path with
  | refl => exact ⟨h,hi⟩
  | tail _ hst ih =>
    obtain ⟨hr, hi⟩ := ih
    obtain ⟨o, hm⟩ := step_cases hr.pendingValid hst
    exact ⟨hr.step hst,step _ _ o hr hi hm⟩

end RisuNest.Server
