import RisuNest.Transfer.Steps

/-! What an operation on the transfers can come to. Every invariant is proved from the cases
listed here. -/
namespace RisuNest.Transfer
open Wire Server

namespace System
variable (cr : Crates)

/-- The cases of an operation. -/
inductive Cases (s : System) : Op → Outcome → Prop
  | idle {op : Op} {o : Outcome} (hw : o.writes = []) (ha : o.acknowledged = none)
      (hc : ∀ id, op.call = some id → o.call = s.calls.get id) : Cases s op o
  | ended {op : Op} {id : ℕ} {c : Call} (hop : op.call = some id) (hc : s.calls.get id = some c)
      (hk : c.sifting = true ∨ ∃ device id index digest bytes,
        c = .chunk device id index digest bytes) : Cases s op .ended
  | device {op : Op} (hop : (∃ id, op = .addDevice id) ∨ (∃ id, op = .revokeDevice id) ∨
      ∃ level, op = .setFormat level) {devices : Table String Bool} {level : ℕ}
      (hlevel : level = s.disk.db.formatLevel ∨ level ≤ libraryFormatMaxLevel)
      (hd : ∀ id revoked, s.disk.db.devices.get id = some revoked →
        ∃ revoked', devices.get id = some revoked' ∧ (revoked = true → revoked' = true)) :
      Cases s op ⟨[.commit { s.disk.db with
        devices := devices
        formatLevel := level }],none,none⟩
  | begin {device : Device} {manifest : Db.Manifest} {id : String} {db : Db}
      (hfresh : id ∉ s.issued) (h : s.disk.db.beginUpload device manifest id s.clock = .ok db) :
      Cases s (.beginUpload device manifest id) ⟨[.commit db],none,none⟩
  | sent {call : ℕ} {device : Device} {id : String} {index : ℕ} {digest : String} {bytes : Bytes}
      (hfree : s.calls.get call = none)
      (h : s.disk.db.checkChunk cr device id index digest bytes s.clock = .ok ()) :
      Cases s (.sendChunk call device id index digest bytes)
        (.next (.chunk device id index digest bytes))
  | stored {call : ℕ} {device : Device} {id : String} {index : ℕ} {digest : String} {bytes : Bytes}
      {writes : List Write} (hc : s.calls.get call = some (.chunk device id index digest bytes))
      (h : s.disk.db.publishChunk device id index digest bytes s.clock = .ok writes) :
      Cases s (.storeChunk call) ⟨writes,none,some (id,index,bytes)⟩
  | attached {device : Device} {id : String} {bytes : Bytes} {db : Db}
      (h : s.disk.db.attachUploadDelta device id bytes s.clock = .ok db) :
      Cases s (.attach device id bytes) ⟨[.commit db],none,none⟩
  | submitted {call : ℕ} {device : Device} {id : String} {db : Db} (hfree : s.calls.get call = none)
      (h : s.disk.db.submitUpload device id s.clock = .ok (.accepted db)) :
      Cases s (.submit call device id) ⟨[.commit db],none,none⟩
  | finishes {call : ℕ} {device : Device} {id : String} (hfree : s.calls.get call = none)
      (h : s.disk.db.submitUpload device id s.clock = .ok .finish) :
      Cases s (.submit call device id) (.next (.starting .request device id))
  | taken {call : ℕ} {id device : String} (hfree : s.calls.get call = none)
      (h : s.disk.db.pendingJob s.clock = some (id,device))
      (hw : ∀ n c, s.calls.get n = some c → c.working = false) :
      Cases s (.takeJob call)
        (.next (.starting .worker ⟨device,some libraryFormatMaxLevel⟩ id))
  | completed {call : ℕ} {caller : Caller} {device : Device} {id digest : String}
      (hc : s.calls.get call = some (.starting caller device id))
      (h : s.disk.db.startFinish device id s.clock = .ok (.complete digest)) :
      Cases s (.startFinish call) (.returned [] caller id none)
  | started {call : ℕ} {caller : Caller} {device : Device} {id digest : String} {size : ℕ} {db : Db}
      (hc : s.calls.get call = some (.starting caller device id))
      (h : s.disk.db.startFinish device id s.clock = .ok (.finalizing digest size db)) :
      Cases s (.startFinish call)
        ⟨[.commit db],some (.finishing caller device id digest size .opened),none⟩
  | refused {call : ℕ} {caller : Caller} {device : Device} {id : String} {e : Error}
      (hc : s.calls.get call = some (.starting caller device id))
      (h : s.disk.db.startFinish device id s.clock = .error e) :
      Cases s (.startFinish call) (.returned [] caller id (some e))
  | read {call : ℕ} {caller : Caller} {device : Device} {id digest : String} {size : ℕ}
      {progress next : Progress}
      (hc : s.calls.get call = some (.finishing caller device id digest size progress))
      (h : s.disk.readOn cr device id digest size s.clock progress = .ok next) :
      Cases s (.read call) (.next (.finishing caller device id digest size next))
  | unread {call : ℕ} {caller : Caller} {device : Device} {id digest : String} {size : ℕ}
      {progress : Progress} {e : Error}
      (hc : s.calls.get call = some (.finishing caller device id digest size progress))
      (h : s.disk.readOn cr device id digest size s.clock progress = .error e) :
      Cases s (.read call) (.next (.failing caller id e))
  | failed {call : ℕ} {caller : Caller} {device : Device} {id digest : String} {size : ℕ}
      {progress : Progress}
      (hc : s.calls.get call = some (.finishing caller device id digest size progress)) :
      Cases s (.fail call) (.next (.failing caller id storageIo))
  | published {call : ℕ} {caller : Caller} {device : Device} {id digest : String} {size : ℕ}
      {bytes : Bytes} {writes : List Write}
      (hc : s.calls.get call = some (.finishing caller device id digest size (.assembled bytes)))
      (h : s.disk.db.publishUpload cr device id digest size bytes s.clock = .ok writes) :
      Cases s (.publish call) (.returned writes caller id none)
  | unpublished {call : ℕ} {caller : Caller} {device : Device} {id digest : String} {size : ℕ}
      {bytes : Bytes} {e : Error}
      (hc : s.calls.get call = some (.finishing caller device id digest size (.assembled bytes)))
      (h : s.disk.db.publishUpload cr device id digest size bytes s.clock = .error e) :
      Cases s (.publish call) (.next (.failing caller id e))
  | rolledBack {call : ℕ} {caller : Caller} {id : String} {e : Error}
      (hc : s.calls.get call = some (.failing caller id e)) :
      Cases s (.rollBack call)
        (.returned [.commit (s.disk.db.moveState id .finalizing .opened)] caller id (some e))
  | settled {call : ℕ} {id : String} {outcome : Option Error}
      (hc : s.calls.get call = some (.settling id outcome)) :
      Cases s (.settle call) ⟨[.commit (s.disk.db.settleJob id outcome s.clock)],none,none⟩
  | cancelled {device : Device} {id : String} {stuck : List (String × ℕ)} {db : Db}
      (h : s.disk.db.cancelled device id s.clock = .ok db) :
      Cases s (.cancel device id stuck) ⟨andThen Disk.apply (fun _ => [.commit db])
        (Db.drainStagingTrash (some id) 0 stuck) s.disk,none,none⟩
  | offered {op : Op} {call : ℕ} {device : Device} {objects : List (String × Bytes)}
      (hop : op.call = some call) (hfree : s.calls.get call = none)
      (h : ∀ o ∈ objects, hash cr o.2 = o.1) : Cases s op (.next (.placing device objects objects []))
  | sifted {op : Op} {call : ℕ} {c next : Call} (hop : op.call = some call)
      (hc : s.calls.get call = some c) (hk : c.sifting = true) (hk' : next.sifting = true)
      (hsub : ∀ o ∈ next.objects, o ∈ c.objects)
      (hsmall : ∀ o ∈ next.inline, o ∈ c.inline ∨ o.2.length ≤ smallObjectBytes) :
      Cases s op (.next next)
  | publishedSome {call : ℕ} {device : Device} {inline filed : List (String × Bytes)}
      {digests : List String} (hc : s.calls.get call = some (.storing device inline filed)) :
      Cases s (.publishSome call digests) ⟨(filed.filter fun o => decide (o.1 ∈ digests)).map
        fun o => .publishObject o.1 o.2,none,none⟩
  | storing {call : ℕ} {device : Device} {inline filed : List (String × Bytes)}
      (hc : s.calls.get call = some (.storing device inline filed)) :
      Cases s (.store call) ⟨filed.map (fun o => .publishObject o.1 o.2) ++
        (Outcome.commit (s.disk.db.storeObjects cr device inline filed s.clock)).writes,none,none⟩
  | pinned {device : Device} {hashes : List String} {db : Db}
      (h : s.disk.db.pinObjects device hashes s.clock = .ok db) :
      Cases s (.pin device hashes) ⟨[.commit db],none,none⟩
  | maintained {clock : ℤ} {held alive objectNames : List String} {chunkNames : List (String × ℕ)}
      {stuckChunks : List (String × ℕ)} {stuckObjects : List String} :
      Cases s (.maintain clock held alive objectNames chunkNames stuckChunks stuckObjects)
        ⟨andThen Disk.apply (fun d => [.commit (d.db.maintained s.clock clock held alive)])
          (andThen Disk.apply (Db.reconcileOrphans objectNames chunkNames)
            (Db.drainTrash s.cursors stuckChunks stuckObjects)) s.disk,none,none⟩
  | drained {stuckChunks : List (String × ℕ)} {stuckObjects : List String} :
      Cases s (.drainTrash stuckChunks stuckObjects)
        ⟨Db.drainTrash s.cursors stuckChunks stuckObjects s.disk,none,none⟩

variable {cr} {s : System}

lemma begin_writes {device : Device} {manifest : Db.Manifest} {id : String} {o : Outcome}
    (h : Cases cr s (.beginUpload device manifest id) o) : o.writes = [] ∨ id ∉ s.issued ∧
      ∃ db, s.disk.db.beginUpload device manifest id s.clock = .ok db ∧ o.writes = [.commit db] := by
  cases h with
  | idle hw => exact .inl hw
  | ended hop | offered hop | sifted hop => cases hop
  | device hop => simp at hop
  | begin hfresh h => exact .inr ⟨hfresh,_,h,rfl⟩

lemma attach_writes {device : Device} {id : String} {bytes : Bytes} {o : Outcome}
    (h : Cases cr s (.attach device id bytes) o) : o.writes = [] ∨
      ∃ db, s.disk.db.attachUploadDelta device id bytes s.clock = .ok db ∧
        o.writes = [.commit db] := by
  cases h with
  | idle hw => exact .inl hw
  | ended hop | offered hop | sifted hop => cases hop
  | device hop => simp at hop
  | attached h => exact .inr ⟨_,h,rfl⟩

lemma cases_ended {op : Op} (hop : op.call = none) : Cases cr s op .ended :=
  .idle rfl rfl fun id h => by rw [hop] at h; cases h

/-- The next part of a running call. -/
theorem resume_cases {op : Op} {id : ℕ} {c : Call} (hop : op.call = some id)
    (hc : s.calls.get id = some c) : Cases cr s op (s.resume cr op c) := by
  have hidle : ∀ {o : Outcome}, o = .next c → Cases cr s op o := by
    rintro o rfl
    refine .idle rfl rfl fun id' h => ?_
    rw [hop] at h
    cases h
    exact hc.symm
  unfold resume
  split
  case h_1 device uid index digest bytes =>
    cases hop
    split
    case h_1 writes h => exact .stored hc h
    case h_2 => exact .ended rfl hc (.inr ⟨device,uid,index,digest,bytes,rfl⟩)
  case h_2 =>
    cases hop
    split
    case h_1 h => exact .completed hc h
    case h_2 h => exact .started hc h
    case h_3 h => exact .refused hc h
  case h_3 =>
    cases hop
    split
    case h_1 h => exact .read hc h
    case h_2 h => exact .unread hc h
  case h_4 =>
    cases hop
    exact .failed hc
  case h_5 =>
    cases hop
    split
    case h_1 h => exact .published hc h
    case h_2 h => exact .unpublished hc h
  case h_6 =>
    cases hop
    exact .rolledBack hc
  case h_7 =>
    cases hop
    exact .settled hc
  case h_8 device objects digest bytes todo found =>
    have hsub : ∀ found', ∀ o ∈ (Call.placing device objects todo found').objects,
        o ∈ (Call.placing device objects ((digest,bytes) :: todo) found).objects := by
      intro found' o ho
      change o ∈ objects ++ todo at ho
      change o ∈ objects ++ (digest,bytes) :: todo
      simp only [List.mem_append, List.mem_cons] at ho ⊢
      tauto
    split
    · split
      · exact .ended hop hc (.inl rfl)
      · split
        · exact .sifted hop hc rfl rfl (hsub _) (List.forall_mem_nil _)
        · exact .sifted hop hc rfl rfl (hsub _) (List.forall_mem_nil _)
    · exact .sifted hop hc rfl rfl (hsub _) (List.forall_mem_nil _)
  case h_9 device objects found =>
    refine .sifted hop hc rfl rfl (fun o ho => ?_) (List.forall_mem_nil _)
    change o ∈ objects ++ ([] ++ []) at ho
    change o ∈ objects ++ []
    simpa using ho
  case h_10 device digest bytes todo found inline filed =>
    have hsub : ∀ inline' filed', (∀ o ∈ inline', o ∈ inline ∨ o = (digest,bytes)) →
        (∀ o ∈ filed', o ∈ filed ∨ o = (digest,bytes)) →
        ∀ o ∈ (Call.sorting device todo found inline' filed').objects,
          o ∈ (Call.sorting device ((digest,bytes) :: todo) found inline filed).objects := by
      intro inline' filed' hi hf o ho
      change o ∈ todo ++ (inline' ++ filed') at ho
      change o ∈ (digest,bytes) :: todo ++ (inline ++ filed)
      have hi := hi o
      have hf := hf o
      simp only [List.mem_append, List.mem_cons] at ho hi hf ⊢
      tauto
    have hsame : ∀ l : List (String × Bytes), ∀ o ∈ l, o ∈ l ∨ o = (digest,bytes) :=
      fun l o ho => .inl ho
    have hadd : ∀ l : List (String × Bytes), ∀ o ∈ l ++ [(digest,bytes)], o ∈ l ∨ o = (digest,bytes) := by
      intro l o ho
      simpa using ho
    split
    · split
      · next hsmall =>
        refine .sifted hop hc rfl rfl (hsub _ _ (hadd inline) (hsame filed)) fun o ho => ?_
        rcases hadd inline o ho with hold | rfl
        · exact .inl hold
        · exact .inr hsmall.1
      · split
        · exact .sifted hop hc rfl rfl (hsub _ _ (hsame inline) (hsame filed)) fun _ ho => .inl ho
        · exact .sifted hop hc rfl rfl (hsub _ _ (hsame inline) (hadd filed)) fun _ ho => .inl ho
    · exact .ended hop hc (.inl rfl)
  case h_11 device found inline filed =>
    refine .sifted hop hc rfl rfl (fun o ho => ?_) fun _ ho => .inl ho
    change o ∈ inline ++ filed at ho
    change o ∈ [] ++ (inline ++ filed)
    simpa using ho
  case h_12 =>
    cases hop
    exact .publishedSome hc
  case h_13 =>
    cases hop
    exact .storing hc
  case h_14 => exact hidle rfl

lemma cases_commit {op : Op} (hop : op.call = none) {db : Answer Db}
    (h : ∀ db', db = .ok db' → Cases cr s op ⟨[.commit db'],none,none⟩) :
    Cases cr s op (.commit db) := by
  cases db with
  | error e => exact cases_ended hop
  | ok db' => exact h db' rfl

lemma cases_running {op : Op} {id : ℕ} (hop : op.call = some id) :
    Cases cr s op ⟨[],s.calls.get id,none⟩ := by
  refine .idle rfl rfl fun id' h => ?_
  rw [hop] at h
  cases h
  rfl

theorem outcome_cases (s : System) (op : Op) : Cases cr s op (s.outcome cr op) := by
  unfold outcome
  cases op with
  | setClock time => exact cases_ended rfl
  | addDevice id =>
    exact .device (.inl ⟨id,rfl⟩) (.inl rfl) fun id' revoked h =>
      ⟨revoked,Table.get_insertOrIgnore_of_get h,fun h => h⟩
  | revokeDevice id =>
    refine .device (.inr (.inl ⟨id,rfl⟩)) (.inl rfl) fun id' revoked h =>
      ⟨revoked || decide (id' = id),?_,fun hr => ?_⟩
    · rw [Table.get_mapValues, h, Option.map_some]
    · rw [hr, Bool.true_or]
  | setFormat level =>
    exact .device (.inr (.inr ⟨level,rfl⟩)) (.inr (min_le_right _ _)) fun _ revoked h =>
      ⟨revoked,h,fun h => h⟩
  | beginUpload device manifest id =>
    dsimp only
    split_ifs with hfresh
    · exact cases_ended rfl
    · exact cases_commit rfl fun _ h => .begin hfresh h
  | attach device id bytes => exact cases_commit rfl fun _ h => .attached h
  | pin device hashes => exact cases_commit rfl fun _ h => .pinned h
  | cancel device id stuck =>
    dsimp only
    split
    · exact cases_ended rfl
    · next h => exact .cancelled h
  | maintain => exact .maintained
  | drainTrash => exact .drained
  | sendChunk call device id index digest bytes =>
    dsimp only
    split
    · next hfree h => exact .sent hfree h
    · exact cases_running rfl
  | submit call device id =>
    dsimp only
    split
    · next hfree h => exact .finishes hfree h
    · next hfree h => exact .submitted hfree h
    · exact cases_running rfl
  | takeJob call =>
    dsimp only
    split
    · next id device hfree h =>
      split_ifs with hw
      · refine .idle rfl rfl fun id' h' => ?_
        cases h'
        exact hfree.symm
      · refine .taken hfree h fun n c hc => ?_
        by_contra hn
        exact hw (Table.any_eq_true.mpr ⟨n,c,hc,Bool.not_eq_false _ ▸ hn⟩)
    · exact cases_running rfl
  | putObjects call device objects =>
    dsimp only
    split
    · next hfree h =>
      refine .offered rfl hfree fun o ho => ?_
      obtain ⟨_, -, h⟩ := bind_eq_ok.mp h
      obtain ⟨_, -, h⟩ := bind_eq_ok.mp (forM_eq_ok.mp h o ho)
      exact (require_eq_ok.mp h).2
    · exact cases_running rfl
  | receiveFrames call device bodies =>
    dsimp only
    split
    · next hfree h =>
      refine .offered rfl hfree fun o ho => ?_
      obtain ⟨b, -, rfl⟩ := List.mem_map.mp ho
      rfl
    · exact cases_running rfl
  | storeChunk call | startFinish call | read call | fail call | publish call | rollBack call
  | settle call | place call | sort call | publishSome call | store call =>
    dsimp only
    split
    · next hc =>
      refine .idle rfl rfl fun id h => ?_
      cases h
      exact hc.symm
    · next hc => exact resume_cases rfl hc

end System
end RisuNest.Transfer
