import RisuNest.Server.Backup
import RisuNest.Server.Heads

/-! What a backup holds, and what a restoration makes of it. -/
namespace RisuNest.Server
open Wire

/-! ### Files -/

def FileWrite.path : FileWrite → String
  | .create path => path
  | .append path _ => path

lemma FileWrite.get_apply_of_ne {w : FileWrite} {files : Files} {path : String}
    (h : w.path ≠ path) : (w.apply files).get path = files.get path := by
  cases w with
  | create p => exact (Table.get_upsert ..).trans (if_neg (Ne.symm h))
  | append p byte => exact (Table.get_upsert ..).trans (if_neg (Ne.symm h))

lemma get_after_of_ne {ws : List FileWrite} {files : Files} {path : String}
    (h : ∀ w ∈ ws, w.path ≠ path) : (Disk.after files ws).get path = files.get path := by
  induction ws generalizing files with
  | nil => rfl
  | cons w ws ih =>
    rw [Disk.after,written_cons]
    refine (ih fun v hv => h v (List.mem_cons_of_mem _ hv)).trans ?_
    exact FileWrite.get_apply_of_ne (h w List.mem_cons_self)

lemma path_of_mem_fileWrites {path : String} {bytes : List UInt8} {w : FileWrite}
    (h : w ∈ fileWrites path bytes) : w.path = path := by
  rcases List.mem_cons.mp h with rfl | h
  · rfl
  · obtain ⟨byte,-,rfl⟩ := List.mem_map.mp h
    rfl

lemma get_after_appends {path : String} (bytes : List UInt8) {start : List UInt8} {files : Files}
    (h : files.get path = some start) :
    (Disk.after files (bytes.map (.append path))).get path = some (start ++ bytes) := by
  induction bytes generalizing files start with
  | nil => simpa using h
  | cons byte bytes ih =>
    rw [List.map_cons,Disk.after,written_cons]
    have hs : (FileWrite.apply files (.append path byte)).get path = some (start ++ [byte]) := by
      simp [FileWrite.apply,h]
    simpa using ih hs

theorem get_after_fileWrites (files : Files) (path : String) (bytes : List UInt8)
    (other : String) : (Disk.after files (fileWrites path bytes)).get other =
      if other = path then some bytes else files.get other := by
  by_cases h : other = path
  · subst other
    rw [if_pos rfl,fileWrites,Disk.after,written_cons]
    have hs : (FileWrite.apply files (.create path)).get path = some [] := by
      simp [FileWrite.apply]
    simpa using get_after_appends bytes hs
  · rw [if_neg h]
    exact get_after_of_ne fun w hw he => h (he.symm.trans (path_of_mem_fileWrites hw))

lemma toList_objectPath (digest : String) : (objectPath digest).toList.head? = some 'o' := by
  simp [objectPath]

lemma objectPath_ne_metadata (digest : String) : objectPath digest ≠ metadataPath := by
  intro h
  have := toList_objectPath digest
  rw [h] at this
  exact absurd this (by decide)

lemma objectPath_ne_manifest (digest : String) : objectPath digest ≠ manifestPath := by
  intro h
  have := toList_objectPath digest
  rw [h] at this
  exact absurd this (by decide)

/-! ### Copies -/

section
variable {cr : Crates} {d : Database} {source : Files}

/-- What `copy_objects` checks of a row. -/
def Copied (cr : Crates) (d : Database) (source : Files) (r : String × ObjectRow) : Prop :=
  validateHash r.1 = .ok () ∧ match r.2.storage with
    | .inline => (d.smallObjects.get r.1).map List.length = some r.2.size
    | .file => ∃ body, source.get (objectPath r.1) = some body ∧ body.length = r.2.size ∧
      hash cr body = r.1

/-- The paths of the bodies that are files. -/
def filePaths (rows : List (String × ObjectRow)) : List String :=
  (rows.filter fun r => r.2.storage = .file).map fun r => objectPath r.1

lemma readFile_eq_ok {files : Files} {path : String} {bytes : List UInt8} :
    readFile files path = .ok bytes ↔ files.get path = some bytes := by
  unfold readFile
  cases files.get path <;> simp

lemma copyExact_result {path digest : String} {expected : Option String} :
    (copyExact cr source path expected).result = .ok digest ↔
      ∃ body, source.get path = some body ∧ (∀ h ∈ expected, h = hash cr body) ∧
        hash cr body = digest := by
  unfold copyExact
  simp only [Logged.result_bind,Logged.result_check,Logged.result_write,Logged.result_pure,
    bind_eq_ok,readFile_eq_ok]
  constructor
  · rintro ⟨body,hb,_,-,_,he,hd⟩
    exact ⟨body,hb,require_eq_ok.mp he,Except.ok.inj hd⟩
  · rintro ⟨body,hb,he,rfl⟩
    exact ⟨body,hb,⟨⟩,trivial,⟨⟩,require_eq_ok.mpr he,rfl⟩

lemma copyObject_result (r : String × ObjectRow) :
    (copyObject cr d source r.1 r.2).result = .ok () ↔ Copied cr d source r := by
  unfold copyObject Copied
  simp only [Logged.result_bind,Logged.result_check,bind_eq_ok,lift_eq_ok]
  constructor
  · rintro ⟨_,hv,h⟩
    refine ⟨hv,?_⟩
    cases hs : r.2.storage with
    | inline =>
      rw [hs] at h
      exact require_eq_ok.mp h
    | file =>
      rw [hs] at h
      simp only [Logged.result_bind,Logged.result_check,Logged.result_pure,bind_eq_ok,
        readFile_eq_ok,copyExact_result] at h
      obtain ⟨body,hb,_,hl,digest,⟨body',hb',he,-⟩,-⟩ := h
      obtain rfl := Option.some.inj (hb.symm.trans hb')
      exact ⟨body,hb,require_eq_ok.mp hl,(he _ rfl).symm⟩
  · rintro ⟨hv,h⟩
    refine ⟨⟨⟩,hv,?_⟩
    cases hs : r.2.storage with
    | inline =>
      rw [hs] at h
      exact require_eq_ok.mpr h
    | file =>
      rw [hs] at h
      obtain ⟨body,hb,hl,hh⟩ := h
      simp only [Logged.result_bind,Logged.result_check,Logged.result_pure,bind_eq_ok,
        readFile_eq_ok,copyExact_result]
      refine ⟨body,hb,⟨⟩,require_eq_ok.mpr hl,_,⟨body,hb,?_,rfl⟩,trivial⟩
      rintro _ ⟨⟩
      exact hh.symm

lemma copyRows_result {rows : List (String × ObjectRow)} {n : ℕ} :
    (copyRows cr d source rows).result = .ok n ↔
      n = rows.length ∧ ∀ r ∈ rows, Copied cr d source r := by
  induction rows generalizing n with
  | nil =>
    simp only [copyRows,Logged.result_pure,List.length_nil,List.not_mem_nil,false_implies,
      implies_true,and_true]
    exact ⟨fun h => (Except.ok.inj h).symm,fun h => by rw [h]⟩
  | cons r rows ih =>
    obtain ⟨digest,row⟩ := r
    have hc : (copyObject cr d source digest row).result = .ok () ↔
        Copied cr d source (digest,row) := copyObject_result (digest,row)
    simp only [copyRows,Logged.result_bind,Logged.result_pure,bind_eq_ok,List.forall_mem_cons,
      List.length_cons]
    constructor
    · rintro ⟨_,h1,count,h2,h3⟩
      obtain ⟨rfl,h4⟩ := ih.mp h2
      exact ⟨(Except.ok.inj h3).symm,hc.mp h1,h4⟩
    · rintro ⟨rfl,h1,h2⟩
      exact ⟨⟨⟩,hc.mpr h1,_,ih.mpr ⟨rfl,h2⟩,rfl⟩

lemma mem_orderedRows {r : String × ObjectRow} :
    r ∈ orderedRows d ↔ d.objectRows.get r.1 = some r.2 := by
  rw [orderedRows,List.mem_insertionSort,Table.get_eq_some]

theorem copyObjects_result {n : ℕ} :
    (copyObjects cr d source).result = .ok n ↔
      n = d.objectRows.rows.length ∧
        ∀ r ∈ orderedRows d, Copied cr d source r := by
  rw [copyObjects,copyRows_result,orderedRows,List.length_insertionSort]

/-! ### What is written -/

/-- Copies are written below `objects`. -/
def BelowObjects (w : FileWrite) : Prop := ∃ digest, w.path = objectPath digest

lemma copyObject_below {digest : String} {row : ObjectRow} :
    ∀ w ∈ (copyObject cr d source digest row).writes, BelowObjects w := by
  unfold copyObject
  refine Logged.forall_writes_bind (by simp) fun _ _ => ?_
  split
  · simp
  · refine Logged.forall_writes_bind (by simp) fun body _ => ?_
    refine Logged.forall_writes_bind (by simp) fun _ _ => ?_
    refine Logged.forall_writes_bind ?_ fun _ _ => by simp
    unfold copyExact
    refine Logged.forall_writes_bind (by simp) fun bytes _ => ?_
    refine Logged.forall_writes_bind ?_ fun _ _ => ?_
    · exact fun w hw => ⟨digest,path_of_mem_fileWrites hw⟩
    · exact Logged.forall_writes_bind (by simp) fun _ _ => by simp

lemma copyRows_below {rows : List (String × ObjectRow)} :
    ∀ w ∈ (copyRows cr d source rows).writes, BelowObjects w := by
  induction rows with
  | nil => simp [copyRows]
  | cons r rows ih =>
    obtain ⟨digest,row⟩ := r
    unfold copyRows
    refine Logged.forall_writes_bind copyObject_below fun _ _ => ?_
    exact Logged.forall_writes_bind ih fun _ _ => by simp

lemma copyExact_writes {path digest : String} {expected : Option String} {body : List UInt8}
    (hb : source.get path = some body)
    (h : (copyExact cr source path expected).result = .ok digest) :
    (copyExact cr source path expected).writes = fileWrites path body := by
  obtain ⟨body',hb',he,-⟩ := copyExact_result.mp h
  obtain rfl := Option.some.inj (hb.symm.trans hb')
  unfold copyExact
  rw [Logged.writes_bind_of_ok (a := body) (readFile_eq_ok.mpr hb),
    Logged.writes_bind_of_ok (a := ⟨⟩) rfl,
    Logged.writes_bind_of_ok (a := ⟨⟩) (require_eq_ok.mpr he)]
  simp

lemma get_after_copyObject {r : String × ObjectRow} (h : Copied cr d source r) (files : Files)
    (path : String) :
    (Disk.after files (copyObject cr d source r.1 r.2).writes).get path =
      if r.2.storage = .file ∧ path = objectPath r.1 then source.get path else files.get path := by
  obtain ⟨hv,hs⟩ := h
  cases hst : r.2.storage with
  | inline =>
    rw [if_neg (by simp)]
    unfold copyObject
    rw [Logged.writes_bind_of_ok (a := ⟨⟩) (lift_eq_ok.mpr hv),hst]
    simp
  | file =>
    rw [hst] at hs
    obtain ⟨body,hb,hl,hh⟩ := hs
    have hc : (copyExact cr source (objectPath r.1) (some r.1)).result = .ok (hash cr body) :=
      copyExact_result.mpr ⟨body,hb,by rintro _ ⟨⟩; exact hh.symm,rfl⟩
    have hw : (copyObject cr d source r.1 r.2).writes = fileWrites (objectPath r.1) body := by
      unfold copyObject
      rw [Logged.writes_bind_of_ok (a := ⟨⟩) (lift_eq_ok.mpr hv),hst]
      dsimp only
      rw [Logged.writes_bind_of_ok (a := body) (readFile_eq_ok.mpr hb),
        Logged.writes_bind_of_ok (a := ⟨⟩) (require_eq_ok.mpr hl),
        Logged.writes_bind_of_ok hc,copyExact_writes hb hc]
      simp
    rw [hw,get_after_fileWrites]
    by_cases hp : path = objectPath r.1
    · rw [if_pos hp,if_pos ⟨rfl,hp⟩,hp,hb]
    · rw [if_neg hp,if_neg fun hc => hp hc.2]

lemma get_after_copyRows {rows : List (String × ObjectRow)}
    (h : ∀ r ∈ rows, Copied cr d source r) (files : Files) (path : String) :
    (Disk.after files (copyRows cr d source rows).writes).get path =
      if path ∈ filePaths rows then source.get path else files.get path := by
  induction rows generalizing files with
  | nil => simp [copyRows,filePaths]
  | cons r rows ih =>
    obtain ⟨digest,row⟩ := r
    obtain ⟨hr,hrows⟩ := List.forall_mem_cons.mp h
    have hw : (copyRows cr d source ((digest,row)::rows)).writes =
        (copyObject cr d source digest row).writes ++ (copyRows cr d source rows).writes := by
      change (copyObject cr d source digest row >>= fun _ =>
        copyRows cr d source rows >>= fun count => pure (count+1)).writes = _
      rw [Logged.writes_bind_of_ok ((copyObject_result _).mpr hr),
        Logged.writes_bind_of_ok (copyRows_result.mpr ⟨rfl,hrows⟩)]
      simp
    rw [hw,Disk.after,written_append]
    refine (ih hrows _).trans ?_
    have hone := get_after_copyObject hr files path
    have hmem : path ∈ filePaths ((digest,row)::rows) ↔
        (row.storage = .file ∧ path = objectPath digest) ∨ path ∈ filePaths rows := by
      by_cases hst : row.storage = .file <;> simp [filePaths,hst]
    by_cases hp : path ∈ filePaths rows
    · rw [if_pos hp,if_pos (hmem.mpr (.inr hp))]
    · rw [if_neg hp]
      refine hone.trans ?_
      by_cases hd : row.storage = .file ∧ path = objectPath digest
      · rw [if_pos hd,if_pos (hmem.mpr (.inl hd))]
      · rw [if_neg hd,if_neg fun hc => (hmem.mp hc).elim hd hp]

/-! ### What a restoration makes of a directory -/

/-- The database of a restored directory. -/
def rotated (cr : Crates) (d : Database) (epoch : String) : Database :=
  { d with tables := d.tables.rotateRestoredEpoch cr epoch }

/-- A backup that a restoration accepts: its manifest and its metadata agree, and every body is
there. -/
structure Accepts (cr : Crates) (sq : Sqlite) (source : Files) (manifest : BackupManifest)
    (metadata : List UInt8) (d : Database) : Prop where
  marked : readManifest cr source = .ok manifest
  stored : source.get metadataPath = some metadata
  hashed : hash cr metadata = manifest.metadataHash
  read : sq.read metadata = some d
  head : d.tables.head = manifest.head
  objects : manifest.objects = d.objectRows.rows.length
  copied : ∀ r ∈ orderedRows d, Copied cr d source r
  opens : openDatabase cr sq metadata = .ok d

lemma openDatabase_eq_ok {sq : Sqlite} {bytes : List UInt8} :
    openDatabase cr sq bytes = .ok d ↔ sq.read bytes = some d ∧
      (∃ level, d.tables.storedFormat cr = .ok level) ∧ d.tables.head.validate = .ok () := by
  unfold openDatabase
  cases sq.read bytes with
  | none => simp
  | some found =>
    simp only [bind_eq_ok,Option.some.injEq]
    constructor
    · rintro ⟨level,hl,_,hv,he⟩
      obtain rfl := Except.ok.inj he
      refine ⟨rfl,⟨level,hl⟩,?_⟩
      cases hh : found.tables.head.validate with
      | error e =>
        rw [hh] at hv
        contradiction
      | ok u => rfl
    · rintro ⟨rfl,⟨level,hl⟩,hv⟩
      exact ⟨level,hl,⟨⟩,by rw [hv]; rfl,rfl⟩

lemma stageBackup_accepts {sq : Sqlite} {epoch : String} {result : Database}
    (h : (stageBackup cr sq source epoch).result = .ok result) :
    ∃ manifest metadata d, Accepts cr sq source manifest metadata d ∧
      result = rotated cr d epoch := by
  unfold stageBackup at h
  simp only [Logged.result_bind,Logged.result_check,Logged.result_write,Logged.result_pure,
    bind_eq_ok,readFile_eq_ok,copyExact_result,copyObjects_result] at h
  obtain ⟨manifest,hm,metadata,hmeta,_,hhash,d,hd,_,hhead,n,⟨rfl,hc⟩,_,hn,_,-,opened,ho,_,-,he⟩ := h
  have hread : sq.read metadata = some d := by
    cases hr : sq.read metadata with
    | none =>
      rw [hr] at hd
      contradiction
    | some found =>
      rw [hr] at hd
      rw [Except.ok.inj hd]
  obtain ⟨hread',-,-⟩ := openDatabase_eq_ok.mp ho
  obtain rfl := Option.some.inj (hread.symm.trans hread')
  exact ⟨manifest,metadata,d,⟨hm,hmeta,require_eq_ok.mp hhash,hread,require_eq_ok.mp hhead,
    (require_eq_ok.mp hn).symm,hc,ho⟩,(Except.ok.inj he).symm⟩

lemma Accepts.staged {sq : Sqlite} {manifest : BackupManifest} {metadata : List UInt8}
    (h : Accepts cr sq source manifest metadata d) (epoch : String) :
    (stageBackup cr sq source epoch).result = .ok (rotated cr d epoch) ∧
      ∀ path, (Disk.after .empty (stageBackup cr sq source epoch).writes).get path =
        if path = metadataPath then some (sq.image (rotated cr d epoch))
        else if path ∈ filePaths (orderedRows d) then source.get path else none := by
  have hexact : (copyExact cr source metadataPath (some manifest.metadataHash)).result =
      .ok manifest.metadataHash :=
    copyExact_result.mpr ⟨metadata,h.stored,by rintro _ ⟨⟩; exact h.hashed.symm,h.hashed⟩
  have hcopies : (copyObjects cr d source).result = .ok manifest.objects :=
    copyObjects_result.mpr ⟨h.objects,h.copied⟩
  constructor
  · unfold stageBackup
    simp only [Logged.result_bind,Logged.result_check,Logged.result_write,Logged.result_pure,
      bind_eq_ok,readFile_eq_ok]
    refine ⟨manifest,h.marked,metadata,h.stored,⟨⟩,require_eq_ok.mpr h.hashed,d,?_,⟨⟩,
      require_eq_ok.mpr h.head,_,hcopies,⟨⟩,require_eq_ok.mpr rfl,_,hexact,d,h.opens,⟨⟩,trivial,rfl⟩
    rw [h.read]
  · intro path
    have hw : (stageBackup cr sq source epoch).writes = (copyObjects cr d source).writes ++
        (fileWrites metadataPath metadata ++
          fileWrites metadataPath (sq.image (rotated cr d epoch))) := by
      unfold stageBackup
      rw [Logged.writes_bind_of_ok (a := manifest) h.marked,
        Logged.writes_bind_of_ok (a := metadata) (readFile_eq_ok.mpr h.stored),
        Logged.writes_bind_of_ok (a := ⟨⟩) (require_eq_ok.mpr h.hashed),
        Logged.writes_bind_of_ok (a := d) (by rw [Logged.result_check,h.read]),
        Logged.writes_bind_of_ok (a := ⟨⟩) (require_eq_ok.mpr h.head),
        Logged.writes_bind_of_ok hcopies,
        Logged.writes_bind_of_ok (a := ⟨⟩) (require_eq_ok.mpr rfl),
        Logged.writes_bind_of_ok hexact,copyExact_writes h.stored hexact,
        Logged.writes_bind_of_ok (a := d) h.opens,
        Logged.writes_bind_of_ok (a := ⟨⟩) rfl]
      simp [rotated]
    rw [hw,Disk.after,written_append,written_append]
    refine (get_after_fileWrites ..).trans ?_
    by_cases hp : path = metadataPath
    · rw [if_pos hp,if_pos hp]
    · rw [if_neg hp,if_neg hp]
      refine (get_after_fileWrites ..).trans ?_
      rw [if_neg hp]
      exact get_after_copyRows h.copied .empty path

end
end RisuNest.Server
