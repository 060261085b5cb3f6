import RisuNest.Transfer.Chunks

/-! Objects and their bodies: a row names a body that is there, in a published file or in the
database, and the body is the one the row's hash identifies. -/
namespace RisuNest.Transfer
open Wire Server Db

/-- The body a row places in one of the two stores. -/
def Disk.bodyOf (d : Disk) (storage : Storage) (digest : String) : Option Bytes :=
  match storage with
  | .file => d.published.get digest
  | .inline => d.db.smallObjects.get digest

/-- Every body lies under its hash, and every row has a body of its size. -/
structure BodiesKept (cr : Crates) (d : Disk) : Prop where
  published : ∀ k b, d.published.get k = some b → hash cr b = k
  small : ∀ k b, d.db.smallObjects.get k = some b → hash cr b = k
  rows : ∀ k row, d.db.objects.get k = some row →
    ∃ b, d.bodyOf row.storage k = some b ∧ b.length = row.size

lemma BodiesKept.body {cr : Crates} {d : Disk} (h : BodiesKept cr d) {storage : Storage} {k : String}
    {b : Bytes} (hb : d.bodyOf storage k = some b) : hash cr b = k := by
  cases storage with
  | file => exact h.published k b hb
  | inline => exact h.small k b hb

lemma mem_bodies_of_bodyOf {d : Disk} {storage : Storage} {k : String} {b : Bytes}
    (hb : d.bodyOf storage k = some b) : b ∈ System.bodies d := by
  cases storage with
  | file =>
    refine List.mem_append_left _ (List.mem_append_right _ ?_)
    exact List.mem_map_of_mem (f := Prod.snd) (Table.get_eq_some.mp hb)
  | inline =>
    refine List.mem_append_right _ ?_
    exact List.mem_map_of_mem (f := Prod.snd) (Table.get_eq_some.mp hb)

namespace System
variable {cr : Crates} {s : System}

/-- What holds of the bodies wherever a section stops. -/
structure BodyStep (cr : Crates) (s : System) (d : Disk) : Prop where
  kept : BodiesKept cr d
  seen : ∀ k b, d.published.get k = some b → b ∈ s.bodiesSeen

lemma BodyStep.publish {d : Disk} (h : BodyStep cr s d) (hcr : NoCollision cr s.bodiesSeen)
    {k : String} {b : Bytes} (hb : hash cr b = k) (hseen : b ∈ s.bodiesSeen) :
    BodyStep cr s (d.apply (.publishObject k b)) := by
  have hget : ∀ k', (d.published.upsert k b).get k' = if k' = k then some b else d.published.get k' :=
    fun k' => Table.get_upsert d.published k b k'
  refine ⟨⟨fun k' b' hk => ?_,h.kept.small,fun k' row hrow => ?_⟩,fun k' b' hk => ?_⟩
  · change (d.published.upsert k b).get k' = some b' at hk
    rw [hget] at hk
    split_ifs at hk with hkk
    · rw [hkk, ← Option.some.inj hk, hb]
    · exact h.kept.published k' b' hk
  · obtain ⟨b', hb', hlength⟩ := h.kept.rows k' row hrow
    cases hs : row.storage with
    | inline =>
      rw [hs] at hb'
      exact ⟨b',hb',hlength⟩
    | file =>
      rw [hs] at hb'
      refine ⟨b',?_,hlength⟩
      change (d.published.upsert k b).get k' = some b'
      rw [hget]
      split_ifs with hkk
      · have hsame := h.kept.published k' b' hb'
        rw [hcr b hseen b' (h.seen k' b' hb') (by rw [hb, hsame, hkk])]
      · exact hb'
  · change (d.published.upsert k b).get k' = some b' at hk
    rw [hget] at hk
    split_ifs at hk
    · rw [← Option.some.inj hk]
      exact hseen
    · exact h.seen k' b' hk

lemma BodyStep.commit {d : Disk} (h : BodyStep cr s d) {db : Db}
    (ho : ∀ k row, db.objects.get k = some row → d.db.objects.get k = some row)
    (hs : ∀ k b, db.smallObjects.get k = some b → d.db.smallObjects.get k = some b)
    (hk : ∀ k row b, db.objects.get k = some row → d.db.smallObjects.get k = some b →
      db.smallObjects.get k = some b) : BodyStep cr s (d.apply (.commit db)) := by
  refine ⟨⟨h.kept.published,fun k b hb => h.kept.small k b (hs k b hb),fun k row hrow => ?_⟩,h.seen⟩
  obtain ⟨b, hb, hlength⟩ := h.kept.rows k row (ho k row hrow)
  refine ⟨b,?_,hlength⟩
  cases hst : row.storage with
  | file =>
    rw [hst] at hb
    exact hb
  | inline =>
    rw [hst] at hb
    exact hk k row b hrow hb

lemma BodyStep.same {d : Disk} (h : BodyStep cr s d) {db : Db} (ho : db.objects = d.db.objects)
    (hs : db.smallObjects = d.db.smallObjects) : BodyStep cr s (d.apply (.commit db)) :=
  h.commit (fun _ _ hrow => ho ▸ hrow) (fun _ _ hb => hs ▸ hb) fun _ _ _ _ hb => hs ▸ hb

lemma BodyStep.insert {d : Disk} (h : BodyStep cr s d) {db : Db}
    (hkeep : ∀ k b, d.db.smallObjects.get k = some b → db.smallObjects.get k = some b)
    (hnew : ∀ k b, db.smallObjects.get k = some b →
      d.db.smallObjects.get k = some b ∨ hash cr b = k)
    (hrows : ∀ k row, db.objects.get k = some row → d.db.objects.get k = some row ∨
      ∃ b, (d.apply (.commit db)).bodyOf row.storage k = some b ∧ b.length = row.size) :
    BodyStep cr s (d.apply (.commit db)) := by
  refine ⟨⟨h.kept.published,fun k b hb => ?_,fun k row hrow => ?_⟩,h.seen⟩
  · rcases hnew k b hb with hb | hb
    · exact h.kept.small k b hb
    · exact hb
  · rcases hrows k row hrow with hold | hnew
    · obtain ⟨b, hb, hlength⟩ := h.kept.rows k row hold
      refine ⟨b,?_,hlength⟩
      cases hst : row.storage with
      | file =>
        rw [hst] at hb
        exact hb
      | inline =>
        rw [hst] at hb
        exact hkeep k b hb
    · exact hnew

lemma bodyStep_publications (hcr : NoCollision cr s.bodiesSeen) {l : List (String × Bytes)}
    (hl : ∀ o ∈ l, hash cr o.2 = o.1 ∧ o.2 ∈ s.bodiesSeen) {d : Disk} (h : BodyStep cr s d) :
    Along Disk.apply (BodyStep cr s) d (l.map fun o => .publishObject o.1 o.2) := by
  refine along_of_kept h fun w hw d' h' => ?_
  obtain ⟨o, ho, rfl⟩ := List.mem_map.mp hw
  exact h'.publish hcr (hl o ho).1 (hl o ho).2

lemma published_of_mem {l : List (String × Bytes)} {o : String × Bytes} (ho : o ∈ l) (d : Disk) :
    ∃ b, (written Disk.apply d (l.map fun o => .publishObject o.1 o.2)).published.get o.1 = some b := by
  have hkeep : ∀ (l : List (String × Bytes)) (d : Disk), (∃ b, d.published.get o.1 = some b) →
      ∃ b, (written Disk.apply d (l.map fun o => .publishObject o.1 o.2)).published.get o.1 =
        some b := by
    intro l
    induction l with
    | nil => exact fun _ h => h
    | cons x l ih =>
      rintro d ⟨b, hb⟩
      refine ih (d.apply (.publishObject x.1 x.2)) ?_
      change ∃ b, (d.published.upsert x.1 x.2).get o.1 = some b
      rw [Table.get_upsert]
      split_ifs
      · exact ⟨_,rfl⟩
      · exact ⟨b,hb⟩
  induction l generalizing d with
  | nil => cases ho
  | cons x l ih =>
    rcases List.mem_cons.mp ho with rfl | ho
    · refine hkeep l _ ⟨o.2,?_⟩
      change (d.published.upsert o.1 o.2).get o.1 = some o.2
      rw [Table.get_upsert, if_pos rfl]
    · exact ih ho _

lemma bodyStep_drainTrash {cursors : ℕ × ℕ} {stuckChunks : List (String × ℕ)}
    {stuckObjects : List String} {d : Disk} (h : BodyStep cr s d) :
    Along Disk.apply (BodyStep cr s) d (drainTrash cursors stuckChunks stuckObjects d) := by
  refine Along.andThen (Disk.along_drainStagingTrash (fun d' _ h' _ _ => ⟨⟨h'.kept.published,
    h'.kept.small,h'.kept.rows⟩,h'.seen⟩) (fun d' p h' hdb => h'.same (by rw [hdb]) (by rw [hdb]))
    h) fun h => ?_
  refine Disk.along_drainObjectTrash (fun d' k h' hdb hnone => ?_)
    (fun d' removed p h' hdb hnone => ?_) h
  · -- only a file without a row is removed
    have hget : ∀ k', (d'.published.erase k).get k' = if k' = k then none else d'.published.get k' :=
      fun k' => Table.get_erase d'.published k k'
    have hold : ∀ k' b, (d'.published.erase k).get k' = some b → d'.published.get k' = some b := by
      intro k' b hb
      rw [hget] at hb
      split_ifs at hb
      exact hb
    refine ⟨⟨fun k' b hb => h'.kept.published k' b (hold k' b hb),h'.kept.small,
      fun k' row hrow => ?_⟩,fun k' b hb => h'.seen k' b (hold k' b hb)⟩
    obtain ⟨b, hb, hlength⟩ := h'.kept.rows k' row hrow
    have hne : k' ≠ k := by
      rintro rfl
      rw [← hdb] at hnone
      change d'.db.objects.get k' = some row at hrow
      rw [hnone] at hrow
      cases hrow
    refine ⟨b,?_,hlength⟩
    cases hst : row.storage with
    | file =>
      rw [hst] at hb
      change (d'.published.erase k).get k' = some b
      rw [hget, if_neg hne]
      exact hb
    | inline =>
      rw [hst] at hb
      exact hb
  · rw [← hdb] at hnone ⊢
    refine h'.commit (fun _ _ hrow => hrow)
      (fun k b hb => (Table.get_deleteWhere_eq_some.mp hb).1) fun k row b hrow hb => ?_
    refine Table.get_deleteWhere_eq_some.mpr ⟨hb,decide_eq_false fun hk => ?_⟩
    have := hnone k hk
    change d'.db.objects.get k = some row at hrow
    rw [this] at hrow
    cases hrow

/-- What an operation writes keeps the bodies, wherever it stops. -/
theorem bodies_along (hs : BodiesKept cr s.disk) (hh : Honest cr s) (hr : Remembered s)
    (hcr : NoCollision cr s.bodiesSeen) {op : Op} {o : Outcome} (h : Cases cr s op o) :
    Along Disk.apply (BodyStep cr s) s.disk o.writes := by
  have hstart : BodyStep cr s s.disk :=
    ⟨hs,fun k b hb => hr.disk b (@mem_bodies_of_bodyOf _ .file _ _ hb)⟩
  have hone : ∀ {db : Db}, db.objects = s.disk.db.objects →
      db.smallObjects = s.disk.db.smallObjects →
      Along Disk.apply (BodyStep cr s) s.disk [.commit db] :=
    fun ho hsmall => along_cons.mpr ⟨hstart,along_nil.mpr (hstart.same ho hsmall)⟩
  cases h with
  | idle hw =>
    rw [hw]
    exact along_nil.mpr hstart
  | ended | sent | finishes | taken | read | unread | failed | unpublished | offered | sifted =>
    exact along_nil.mpr hstart
  | device => exact hone rfl rfl
  | begin _ h =>
    obtain ⟨-, -, rfl⟩ := beginUpload_eq_ok h
    exact hone rfl rfl
  | stored _ h =>
    obtain ⟨_, -, -, ⟨_, -, -, rfl⟩ | ⟨-, rfl⟩⟩ := publishChunk_eq_ok h
    · exact along_nil.mpr hstart
    · have hchunk : ∀ (k : String × ℕ) b, BodyStep cr s (s.disk.apply (.publishChunk k.1 k.2 b)) :=
        fun _ _ => ⟨⟨hs.published,hs.small,hs.rows⟩,hstart.seen⟩
      exact along_cons.mpr ⟨hstart,along_cons.mpr ⟨hchunk (_,_) _,
        along_nil.mpr ((hchunk (_,_) _).same rfl rfl)⟩⟩
  | attached h =>
    obtain ⟨_, _, -, -, -, -, ⟨-, rfl⟩ | ⟨-, -, -, -, _, -, -, rfl⟩⟩ := attachUploadDelta_eq_ok h
    · exact hone rfl rfl
    · exact hone rfl rfl
  | submitted _ h =>
    obtain ⟨_, -, -, -, ⟨-, rfl⟩ | ⟨-, -, -, rfl⟩⟩ := submitUpload_eq_accepted h
    · exact hone rfl rfl
    · exact hone rfl rfl
  | @completed _ caller => cases caller <;> exact along_nil.mpr hstart
  | started _ h =>
    obtain ⟨_, -, -, -, -, -, rfl⟩ := startFinish_eq_finalizing h
    exact hone rfl rfl
  | @refused _ caller => cases caller <;> exact along_nil.mpr hstart
  | @published call caller device id digest size bytes writes hc h =>
    have hhash := hh.objects call _ hc (digest,bytes) List.mem_cons_self
    have hseen := hr.calls call _ hc (digest,bytes) List.mem_cons_self
    have hlength : bytes.length = size := (hh.finishing call _ _ _ _ _ _ hc).2.2
    have hw : Along Disk.apply (BodyStep cr s) s.disk writes := by
      obtain ⟨_, small, -, -, hkeep, hnew, ⟨⟨row, hrow, -⟩, rfl⟩ | ⟨-, rfl⟩⟩ := publishUpload_eq_ok h
      · refine along_cons.mpr ⟨hstart,along_nil.mpr (hstart.insert hkeep hnew fun k row' hk => ?_)⟩
        change (s.disk.db.objects.insertOrIgnore digest _).get k = some row' at hk
        rw [Table.get_insertOrIgnore] at hk
        split_ifs at hk with hkd
        · rw [hrow, Option.getD_some] at hk
          rw [hkd, hrow]
          exact .inl hk
        · exact .inl hk
      · have hpublished := hstart.publish hcr hhash hseen
        refine along_cons.mpr ⟨hstart,along_cons.mpr ⟨hpublished,along_nil.mpr
          (hpublished.insert hkeep hnew fun k row' hk => ?_)⟩⟩
        change (s.disk.db.objects.insertOrIgnore digest _).get k = some row' at hk
        rw [Table.get_insertOrIgnore] at hk
        split_ifs at hk with hkd
        · cases hrow : s.disk.db.objects.get digest with
          | some row =>
            rw [hrow, Option.getD_some] at hk
            left
            rw [hkd]
            exact hrow.trans hk
          | none =>
            rw [hrow, Option.getD_none] at hk
            obtain rfl := Option.some.inj hk
            right
            refine ⟨bytes,?_,hlength⟩
            rw [hkd]
            change (s.disk.published.upsert digest bytes).get digest = some bytes
            rw [Table.get_upsert, if_pos rfl]
        · exact .inl hk
    cases caller <;> exact hw
  | @rolledBack _ caller => cases caller <;> exact hone rfl rfl
  | @settled _ _ outcome _ => cases outcome <;> exact hone rfl rfl
  | cancelled h =>
    obtain ⟨_, -, -, -, rfl⟩ := cancelled_eq_ok h
    dsimp only
    refine Along.andThen (hone rfl rfl) fun h => ?_
    exact Disk.along_drainStagingTrash (fun d' _ h' _ _ => ⟨⟨h'.kept.published,h'.kept.small,
      h'.kept.rows⟩,h'.seen⟩) (fun d' p h' hdb => h'.same (by rw [hdb]) (by rw [hdb])) h
  | @publishedSome call device inline filed digests hc =>
    refine bodyStep_publications hcr (fun o ho => ?_) hstart
    have hmem : o ∈ (Call.storing device inline filed).objects :=
      List.mem_append_right _ (List.mem_of_mem_filter ho)
    exact ⟨hh.objects call _ hc o hmem,hr.calls call _ hc o hmem⟩
  | @storing call device inline filed hc =>
    have hfiled : ∀ o ∈ filed, hash cr o.2 = o.1 ∧ o.2 ∈ s.bodiesSeen := fun o ho =>
      ⟨hh.objects call _ hc o (List.mem_append_right _ ho),
        hr.calls call _ hc o (List.mem_append_right _ ho)⟩
    have hpublications := bodyStep_publications hcr hfiled hstart
    refine along_append.mpr ⟨hpublications,?_⟩
    have hpublished := hpublications.finish
    cases hs' : s.disk.db.storeObjects cr device inline filed s.clock with
    | error e => exact along_nil.mpr hpublished
    | ok db =>
      obtain ⟨objects, small, leases, rfl, hrows, -, hkeep, hnew, -⟩ := storeObjects_eq_ok hs'
      have hdb := Disk.written_publications filed s.disk
      refine along_cons.mpr ⟨hpublished,along_nil.mpr (hpublished.insert ?_ ?_ ?_)⟩
      · rw [hdb]
        exact hkeep
      · rw [hdb]
        exact hnew
      · rw [hdb]
        intro k row hk
        rcases hrows k row hk with hold | ⟨bytes, hmem, rfl⟩ | ⟨bytes, -, hsmall, rfl⟩
        · exact .inl hold
        · obtain ⟨b, hb⟩ := published_of_mem hmem s.disk
          refine .inr ⟨b,hb,?_⟩
          have hsame := (hpublished.kept.published k b hb).trans (hfiled _ hmem).1.symm
          rw [hcr b (hpublished.seen k b hb) bytes (hfiled _ hmem).2 hsame]
        · exact .inr ⟨bytes,hsmall,rfl⟩
  | pinned h =>
    obtain ⟨leases, hframe, -⟩ := pinned_frame s.disk.db _ _ _
    rw [pinObjects_eq_ok h, hframe]
    exact hone rfl rfl
  | maintained =>
    dsimp only
    refine Along.andThen (along_cons.mpr ⟨hstart,along_nil.mpr ?_⟩) fun h =>
      Along.andThen ?_ fun h => bodyStep_drainTrash h
    · exact hstart.commit (fun k row hrow => (Table.get_deleteWhere_eq_some.mp hrow).1)
        (fun _ _ hb => hb) fun _ _ _ _ hb => hb
    refine Disk.along_reconcileOrphans (I := BodyStep cr s) (fun d k hd => ?_) (fun d k hd => ?_)
      h _ _
    · unfold orphanObject
      split_ifs
      · exact hd
      · exact hd.same rfl rfl
    · unfold orphanChunk
      split_ifs
      · exact hd
      · exact hd.same rfl rfl
  | drained => exact bodyStep_drainTrash hstart

theorem bodiesKept_exec (hs : BodiesKept cr s.disk) (hh : Honest cr s) (hr : Remembered s)
    (hcr : NoCollision cr s.bodiesSeen) (e : Event) : BodiesKept cr (s.exec cr e).disk := by
  cases e with
  | perform op => exact (bodies_along hs hh hr hcr (outcome_cases s op)).finish.kept
  | crash op k =>
    have hk := (bodies_along hs hh hr hcr (outcome_cases s op) k).kept
    exact ⟨hk.published,hk.small,hk.rows⟩

lemma NoCollision.of_exec {e : Event} (h : NoCollision cr (s.exec cr e).bodiesSeen) :
    NoCollision cr s.bodiesSeen :=
  fun b hb b' hb' => h b (bodiesSeen_exec s e b hb) b' (bodiesSeen_exec s e b' hb')

theorem Reachable.bodiesKept {P : System → Event → Prop} (h : Reachable cr P s)
    (hcr : NoCollision cr s.bodiesSeen) : BodiesKept cr s.disk := by
  induction h with
  | create => exact ⟨fun k b h => (by cases h),fun k b h => (by cases h),fun k row h => (by cases h)⟩
  | step h _ ih => exact bodiesKept_exec (ih hcr.of_exec) h.honest h.remembered hcr.of_exec _

lemma Later.bodiesSeen {t : System} (h : Later cr s t) : ∀ b ∈ s.bodiesSeen, b ∈ t.bodiesSeen := by
  induction h with
  | refl => exact fun _ hb => hb
  | step _ ih => exact fun b hb => bodiesSeen_exec _ _ b (ih b hb)

lemma Later.reachable {t : System} (hs : Reachable cr (fun _ _ => True) s) (h : Later cr s t) :
    Reachable cr (fun _ _ => True) t := by
  induction h with
  | refl => exact hs
  | step _ ih => exact ih.step trivial

/-- In every run each object has its body, in the store its row names, of the size of the row and
under its SHA-256, and it is the same body whenever the object has a row. -/
theorem objects_have_their_bodies {t : System} (hs : Reachable cr (fun _ _ => True) s)
    (hl : Later cr s t) (hcr : NoCollision cr t.bodiesSeen) :
    (∀ digest row, t.disk.db.objects.get digest = some row →
      ∃ b, t.disk.bodyOf row.storage digest = some b ∧ b.length = row.size ∧ hash cr b = digest) ∧
    ∀ digest row row' b, s.disk.db.objects.get digest = some row →
      t.disk.db.objects.get digest = some row' → s.disk.bodyOf row.storage digest = some b →
      t.disk.bodyOf row'.storage digest = some b := by
  have ht := hl.reachable hs
  have hkept := ht.bodiesKept hcr
  refine ⟨fun digest row hrow => ?_,fun digest row row' b hrow hrow' hb => ?_⟩
  · obtain ⟨b, hb, hlength⟩ := hkept.rows digest row hrow
    exact ⟨b,hb,hlength,hkept.body hb⟩
  · have hcr' : NoCollision cr s.bodiesSeen :=
      fun b hb b' hb' => hcr b (hl.bodiesSeen b hb) b' (hl.bodiesSeen b' hb')
    obtain ⟨b', hb', -⟩ := hkept.rows digest row' hrow'
    have hsame : hash cr b' = hash cr b :=
      (hkept.body hb').trans ((hs.bodiesKept hcr').body hb).symm
    rw [hb', hcr b' (ht.remembered.disk b' (mem_bodies_of_bodyOf hb')) b
      (hl.bodiesSeen b (hs.remembered.disk b (mem_bodies_of_bodyOf hb))) hsame]

/-- A device stores a body of one byte. -/
def storedBody : System :=
  create.run sampleCrates [.perform (.addDevice "device"),
    .perform (.putObjects 0 sampleDevice [(hash sampleCrates [120],[120])]),.perform (.place 0),
    .perform (.place 0),.perform (.sort 0),.perform (.sort 0),.perform (.store 0)]

theorem objects_have_their_bodies_drained :
    (storedBody.exec sampleCrates (.crash (.drainTrash [] []) 0)).disk.bodyOf .inline
      (hash sampleCrates [120]) = some [120] := by
  have hr : Reachable sampleCrates (fun _ _ => True) storedBody :=
    .run (p := fun _ _ => true) (fun _ _ _ => trivial) .create (by decide)
  have hcr : NoCollision sampleCrates
      (storedBody.exec sampleCrates (.crash (.drainTrash [] []) 0)).bodiesSeen := by
    unfold NoCollision
    decide
  refine (objects_have_their_bodies hr (.step .refl) hcr).2 (hash sampleCrates [120]) ⟨1,.inline⟩
    ⟨1,.inline⟩ [120] ?_ ?_ ?_ <;> decide

end System
end RisuNest.Transfer
