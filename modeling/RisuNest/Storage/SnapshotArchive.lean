import Mathlib.Data.Finset.Basic
import Mathlib.Logic.Relation
import RisuNest.Lib.Runs
import RisuNest.Lib.Table
import RisuNest.Storage.StoreError
import RisuNest.Wire.Stamp

/-! The archive of recovery snapshots (`snapshot_archive.rs`): files are kept as chunks that
snapshots share, under their hashes. -/
namespace RisuNest.Storage.Snapshots

abbrev Bytes := List UInt8

def chunkBytes : ℕ := 4096

structure AssetRootSet where
  manifestHashes : Finset String
  objectHashes : Finset String
  legacyAssetKeys : Finset String
  inlayIds : Finset String
  coldKeys : Finset String
  blockers : Finset String
  retainAllObjects : Bool
  deriving DecidableEq

def validRootSet (roots : AssetRootSet) : Prop :=
  ∀ hash ∈ roots.manifestHashes ∪ roots.objectHashes, Wire.validateHash hash = .ok ()

instance (roots : AssetRootSet) : Decidable (validRootSet roots) := by
  unfold validRootSet
  infer_instance

structure Metadata where
  id : String
  reason : String
  revision : ℤ
  bytes : ℕ
  createdAt : ℕ
  fileHash : Bytes
  roots : AssetRootSet
  deriving DecidableEq

/-- The libraries the archive is written with: SHA-256, serde's JSON and the check of a UUID. -/
structure Crates where
  sha256 : Bytes → Bytes
  toVec : Metadata → Option Bytes
  fromSlice : Bytes → Option Metadata
  isUuid : String → Bool

/-- Digests have 32 bytes, and what is written is read back. -/
structure Crates.Lawful (cr : Crates) : Prop where
  length_sha256 : ∀ bytes, (cr.sha256 bytes).length = 32
  fromSlice_toVec : ∀ m bytes, cr.toVec m = some bytes → cr.fromSlice bytes = some m

/-- The tables. A snapshot has its metadata with their checksum. -/
structure Archive where
  chunks : Table Bytes Bytes
  snapshots : Table String (Bytes × Bytes)
  snapshotPages : Table (String × ℕ) Bytes

def Archive.empty : Archive := ⟨.empty,.empty,.empty⟩

def invalid (message : String) : StoreError := .validation message

/-- A file, with the length that its metadata state. -/
structure Source where
  length : ℕ
  content : Bytes

variable (cr : Crates)

/-- `INSERT OR IGNORE`: a row that a check refuses is ignored like one that is there. -/
def insertChunk (chunks : Table Bytes Bytes) (hash data : Bytes) : Table Bytes Bytes :=
  if hash.length = 32 ∧ 1 ≤ data.length ∧ data.length ≤ chunkBytes then
    chunks.insertOrIgnore hash data
  else chunks

/-- The three statements for one chunk. -/
def writeChunk (id : String) (s : Archive × ℕ) (data : Bytes) : StoreResult (Archive × ℕ) := do
  let hash := cr.sha256 data
  let chunks := insertChunk s.1.chunks hash data
  match chunks.get hash with
  | none => .error (.store "Query returned no rows")
  | some existing =>
    require (existing = data) (invalid "snapshot chunk is corrupt or has a hash collision")
    require (s.1.snapshotPages.get (id,s.2) = none) (.store "UNIQUE constraint failed")
    pure ({ s.1 with
      chunks := chunks
      snapshotPages := s.1.snapshotPages.upsert (id,s.2) hash },s.2 + 1)

/-- The loop of `insert` over what is still expected of the input. -/
def copy (id : String) (expected : ℕ) (input : Bytes) (s : Archive × ℕ) :
    StoreResult ((Archive × ℕ) × Bytes) :=
  if _h : expected = 0 then .ok (s,input)
  else do
    let length := min expected chunkBytes
    require (length ≤ input.length) (.store "failed to fill whole buffer")
    let s ← writeChunk cr id s (input.take length)
    copy id (expected - min expected chunkBytes) (input.drop length) s
termination_by expected
decreasing_by
  have : 0 < min expected chunkBytes := by
    rw [lt_min_iff]
    exact ⟨Nat.pos_of_ne_zero _h,by decide⟩
  omega

/-- `insert`, with the identifier and the time that it takes. -/
def Archive.insert (db : Archive) (source : Source) (id : String) (createdAt : ℕ) (revision : ℤ)
    (reason : String) (roots : AssetRootSet) : StoreResult (Metadata × Archive) := do
  require (0 ≤ revision) (invalid "snapshot revision must be nonnegative")
  require (validRootSet roots) (.store "asset root hash is invalid")
  let (s,rest) ← copy cr id source.length source.content (db,0)
  require (source.length ≠ 0 ∧ rest = []) (invalid "snapshot source length changed")
  let metadata : Metadata := ⟨id,String.ofList (reason.toList.take 128),revision,source.length,
    createdAt,cr.sha256 (source.content.take source.length),roots⟩
  match cr.toVec metadata with
  | none => .error (.store "metadata cannot be written")
  | some encoded =>
    let checksum := cr.sha256 encoded
    require (checksum.length = 32) (.store "CHECK constraint failed")
    require (s.1.snapshots.get id = none) (.store "UNIQUE constraint failed")
    pure (metadata,{ s.1 with snapshots := s.1.snapshots.upsert id (encoded,checksum) })

def Archive.metadata (db : Archive) (id : String) : StoreResult Metadata := do
  require (cr.isUuid id = true) (invalid "invalid snapshot ID")
  match db.snapshots.get id with
  | none => .error (invalid "snapshot is not available")
  | some (encoded,checksum) =>
    require (cr.sha256 encoded = checksum) (invalid "snapshot metadata checksum mismatch")
    match cr.fromSlice encoded with
    | none => .error (.store "metadata cannot be read")
    | some metadata =>
      require (metadata.id = id ∧ metadata.bytes ≠ 0 ∧ metadata.fileHash.length = 32 ∧
        0 ≤ metadata.revision) (invalid "invalid snapshot metadata")
      require (validRootSet metadata.roots) (.store "asset root hash is invalid")
      pure metadata

structure SnapshotInfo where
  id : String
  bytes : ℕ
  modifiedAt : ℕ
  reason : String
  reclaimableBytes : ℕ

/-- Whether a page of a snapshot that satisfies the condition has the hash. -/
def Archive.pageOf (db : Archive) (hash : Bytes) (p : String → Bool) : Bool :=
  db.snapshotPages.any fun page h => p page.1 && decide (h = hash)

/-- The chunks of one snapshot that no other one has. -/
def Archive.reclaimable (db : Archive) (id : String) : ℕ :=
  ((db.chunks.rows.filter fun c => db.pageOf c.1 (· = id) && !db.pageOf c.1 (· ≠ id)).map
    fun c => c.2.length).sum

def Archive.info (db : Archive) (id : String) : StoreResult SnapshotInfo := do
  let metadata ← db.metadata cr id
  pure ⟨id,metadata.bytes,metadata.createdAt,metadata.reason,db.reclaimable id⟩

/-- The order of `list`: the newest first, and the greatest identifier among them. -/
def newer (a b : SnapshotInfo) : Bool :=
  decide (b.modifiedAt < a.modifiedAt ∨ b.modifiedAt = a.modifiedAt ∧ b.id ≤ a.id)

def Archive.list (db : Archive) : StoreResult (List SnapshotInfo) := do
  let infos ← (db.snapshots.rows.map Prod.fst).mapM (db.info cr)
  pure (infos.mergeSort newer)

/-- One page of `restore_observed`, after the bytes and the number of pages so far. -/
def restorePage (db : Archive) (metadata : Metadata) (s : Bytes × ℕ) (page : (String × ℕ) × Bytes) :
    StoreResult (Bytes × ℕ) :=
  match db.chunks.get page.2 with
  | none => .error (invalid "snapshot chunk is missing")
  | some data => do
    let length := min (metadata.bytes - s.1.length) chunkBytes
    require (page.1.2 = s.2 ∧ length ≠ 0 ∧ data.length = length ∧ cr.sha256 data = page.2)
      (invalid "snapshot chunk length, order or hash mismatch")
    pure (s.1 ++ data,s.2 + 1)

/-- `restore_observed` where it is not cancelled, with the bytes it writes. -/
def Archive.restore (db : Archive) (id : String) : StoreResult (Metadata × Bytes) := do
  let metadata ← db.metadata cr id
  let pages := (db.snapshotPages.rows.filter (·.1.1 = id)).mergeSort
    fun a b => decide (a.1.2 ≤ b.1.2)
  let (bytes,_) ← pages.foldlM (restorePage cr db metadata) ([],0)
  require (bytes.length = metadata.bytes ∧ cr.sha256 bytes = metadata.fileHash)
    (invalid "snapshot whole-file length or hash mismatch")
  pure (metadata,bytes)

/-- The rows after a snapshot is deleted: its pages go with it, then the chunks without a page. -/
def Archive.without (db : Archive) (id : String) : Archive :=
  let pages := db.snapshotPages.deleteWhere fun page _ => decide (page.1 = id)
  ⟨db.chunks.deleteWhere fun hash _ => !pages.any fun _ h => decide (h = hash),
    db.snapshots.erase id,pages⟩

def Archive.delete (db : Archive) (id : String) : StoreResult Archive := do
  let _ ← db.metadata cr id
  pure (db.without id)

/-! ### Rotation -/

/-- Whether a snapshot is deleted before another one. -/
def sooner (a b : SnapshotInfo) : Bool :=
  decide ((a.reason = "periodic" ∧ b.reason ≠ "periodic") ∨
    (a.reason = "periodic" ↔ b.reason = "periodic") ∧ a.modifiedAt < b.modifiedAt)

/-- `min_by_key`: the first of the least. -/
def least : List SnapshotInfo → Option SnapshotInfo
  | [] => none
  | s :: rest => some (rest.foldl (fun best t => if sooner t best then t else best) s)

def oldest (protectedId : String) (snapshots : List SnapshotInfo) : Option SnapshotInfo :=
  least (snapshots.reverse.filter fun s => decide (s.id ≠ protectedId))

/-- What the outside does in a round: the size that is measured, and a failure before the commit. -/
structure Round where
  bytes : ℕ
  failure : Option StoreError

/-- A round of the loop of `rotate`, which ends the loop where it gives no archive. -/
def Archive.rotateRound (db : Archive) (byteBudget : ℕ) (protectedId : String) (round : Round) :
    StoreResult (Option Archive) :=
  match round.failure with
  | some e => .error e
  | none => do
    let snapshots ← db.list cr
    if snapshots.length ≤ 8 ∧ round.bytes ≤ byteBudget then pure none
    else
      match oldest protectedId snapshots with
      | none => pure none
      | some oldest => some <$> db.delete cr oldest.id

/-- `rotate`, where that many rounds are enough, with the archive that it leaves. -/
def Archive.rotate (byteBudget : ℕ) (protectedId : String) :
    ℕ → (ℕ → Round) → Archive → Option (Archive × StoreResult Unit)
  | 0, _, _ => none
  | fuel + 1, rounds, db =>
    match db.rotateRound cr byteBudget protectedId (rounds 0) with
    | .error e => some (db,.error e)
    | .ok none => some (db,.ok ())
    | .ok (some db) => rotate byteBudget protectedId fuel (fun k => rounds (k + 1)) db

/-! ### Runs -/

/-- Calls that change the archive. A failure anywhere in one rolls its transaction back. -/
inductive Call
  | insert (failure : Option StoreError) (source : Source) (id : String) (createdAt : ℕ)
    (revision : ℤ) (reason : String) (roots : AssetRootSet)
  | delete (failure : Option StoreError) (id : String)
  | rotateRound (byteBudget : ℕ) (protectedId : String) (round : Round)

/-- The archive, and for each identifier the file that was inserted under it last. -/
structure System where
  db : Archive
  files : Table String Bytes

/-- A call is made. One that fails changes nothing. -/
def System.step (s : System) : Call → Option System
  | .insert failure source id createdAt revision reason roots =>
    match failure, s.db.insert cr source id createdAt revision reason roots with
    | none, .ok (_,db) => some ⟨db,s.files.upsert id source.content⟩
    | _, _ => some s
  | .delete failure id =>
    match failure, s.db.delete cr id with
    | none, .ok db => some { s with db := db }
    | _, _ => some s
  | .rotateRound byteBudget protectedId round =>
    match s.db.rotateRound cr byteBudget protectedId round with
    | .ok (some db) => some { s with db := db }
    | _ => some s

/-- The identifiers of new snapshots are UUIDs. -/
def Issued (_ : System) : Call → Prop
  | .insert _ _ id _ _ _ _ => cr.isUuid id = true
  | _ => True

/-! ### Inserting -/

/-- The chunks of a file. -/
def pieces (file : Bytes) : List Bytes :=
  if _h : file = [] then [] else file.take chunkBytes :: pieces (file.drop chunkBytes)
termination_by file.length
decreasing_by
  have := List.length_pos_of_ne_nil _h
  have : 0 < chunkBytes := by decide
  rw [List.length_drop]
  omega

lemma pieces_nil : pieces [] = [] := by
  rw [pieces,dif_pos rfl]

lemma pieces_of_ne_nil {file : Bytes} (h : file ≠ []) :
    pieces file = file.take chunkBytes :: pieces (file.drop chunkBytes) := by
  rw [pieces,dif_neg h]

variable {cr : Crates}

/-- The archive while a snapshot is inserted of which these chunks are written. -/
structure Written (cr : Crates) (db : Archive) (id : String) (done : List Bytes)
    (s : Archive × ℕ) : Prop where
  snapshots : s.1.snapshots = db.snapshots
  seq : s.2 = done.length
  pages : ∀ p, s.1.snapshotPages.get p = if p.1 = id then
    (done[p.2]?.map cr.sha256).or (db.snapshotPages.get p) else db.snapshotPages.get p
  chunks : ∀ hash data, s.1.chunks.get hash = some data ↔
    db.chunks.get hash = some data ∨ data ∈ done ∧ hash = cr.sha256 data

lemma written_nil (db : Archive) (id : String) : Written cr db id [] (db,0) where
  snapshots := rfl
  seq := rfl
  pages p := by simp
  chunks hash data := by simp

lemma get_insertChunk_of_ne {chunks : Table Bytes Bytes} {hash data other : Bytes}
    (h : other ≠ hash) : (insertChunk chunks hash data).get other = chunks.get other := by
  unfold insertChunk
  split_ifs
  · rw [Table.get_insertOrIgnore,if_neg h]
  · rfl

lemma get_insertChunk_of_get {chunks : Table Bytes Bytes} {hash data v : Bytes}
    (h : chunks.get hash = some v) : (insertChunk chunks hash data).get hash = some v := by
  unfold insertChunk
  split_ifs
  · exact Table.get_insertOrIgnore_of_get h
  · exact h

lemma Written.writeChunk {db : Archive} {id : String} {done : List Bytes} {s t : Archive × ℕ}
    {data : Bytes} (h : Written cr db id done s) (hw : writeChunk cr id s data = .ok t) :
    Written cr db id (done ++ [data]) t := by
  unfold Snapshots.writeChunk at hw
  dsimp only at hw
  split at hw
  · cases hw
  next existing hget =>
  obtain ⟨he,hw⟩ := require_bind_eq_ok.mp hw
  obtain ⟨hnew,hw⟩ := require_bind_eq_ok.mp hw
  obtain rfl := Except.ok.inj hw
  subst he
  refine ⟨h.snapshots,?_,fun p => ?_,fun hash d => ?_⟩
  · rw [List.length_append,List.length_singleton,h.seq]
  · dsimp only
    rw [Table.get_upsert,h.pages,List.getElem?_append]
    by_cases hp : p = (id,s.2)
    · rw [if_pos hp,hp,if_pos rfl,h.seq,if_neg (lt_irrefl _),Nat.sub_self]
      rfl
    · rw [if_neg hp]
      split_ifs with hid hlt
      · rfl
      · have hne : p.2 - done.length ≠ 0 := by
          intro h0
          refine hp (Prod.ext hid ?_)
          rw [h.seq]
          omega
        have h1 : done[p.2]? = none := List.getElem?_eq_none (by omega)
        have h2 : [existing][p.2 - done.length]? = none :=
          List.getElem?_eq_none (by rw [List.length_singleton]; omega)
        rw [h1,h2]
      · rfl
  · dsimp only
    rw [List.mem_append,List.mem_singleton]
    by_cases hh : hash = cr.sha256 existing
    · rw [hh,hget]
      constructor
      · intro hd
        exact .inr ⟨.inr (Option.some.inj hd).symm,by rw [Option.some.inj hd]⟩
      · rintro (hd | ⟨hd | rfl,hs⟩)
        · exact hget.symm.trans (get_insertChunk_of_get ((h.chunks _ _).mpr (.inl hd)))
        · exact hget.symm.trans (get_insertChunk_of_get ((h.chunks _ _).mpr (.inr ⟨hd,hs⟩)))
        · rfl
    · rw [get_insertChunk_of_ne hh,h.chunks]
      refine or_congr_right (and_congr_left fun hs => (or_iff_left ?_).symm)
      rintro rfl
      exact hh hs


lemma pieces_take {input : Bytes} {expected : ℕ} (h : expected ≠ 0)
    (hle : min expected chunkBytes ≤ input.length) :
    pieces (input.take expected) = input.take (min expected chunkBytes) ::
      pieces ((input.drop (min expected chunkBytes)).take (expected - min expected chunkBytes)) := by
  have hpos : 0 < min expected chunkBytes :=
    lt_min_iff.mpr ⟨Nat.pos_of_ne_zero h,by decide⟩
  have hne : input.take expected ≠ [] := by
    apply List.ne_nil_of_length_pos
    rw [List.length_take]
    omega
  rw [pieces_of_ne_nil hne,List.take_take,List.drop_take,Nat.min_comm]
  obtain hc | hc := le_total expected chunkBytes
  · rw [min_eq_left hc,Nat.sub_eq_zero_of_le hc,Nat.sub_self,List.take_zero,List.take_zero]
  · rw [min_eq_right hc]

lemma copy_written {db : Archive} {id : String} {expected : ℕ} {input rest : Bytes}
    {done : List Bytes} {s t : Archive × ℕ} (h : Written cr db id done s)
    (hc : copy cr id expected input s = .ok (t,rest)) :
    expected ≤ input.length ∧ rest = input.drop expected ∧
      Written cr db id (done ++ pieces (input.take expected)) t := by
  induction expected using Nat.strong_induction_on generalizing input s done with
  | _ expected ih =>
    unfold copy at hc
    split_ifs at hc with h0
    · cases hc
      rw [h0,List.take_zero,pieces_nil,List.append_nil]
      exact ⟨Nat.zero_le _,rfl,h⟩
    · have hlt : expected - min expected chunkBytes < expected := by
        have : 0 < min expected chunkBytes := lt_min_iff.mpr ⟨Nat.pos_of_ne_zero h0,by decide⟩
        omega
      obtain ⟨hle,hc⟩ := require_bind_eq_ok.mp hc
      obtain ⟨u,hu,hc⟩ := bind_eq_ok.mp hc
      obtain ⟨h1,h2,h3⟩ := ih _ hlt (h.writeChunk hu) hc
      rw [List.length_drop] at h1
      rw [List.append_assoc,List.singleton_append] at h3
      have hmin := min_le_left expected chunkBytes
      refine ⟨by omega,?_,by rwa [pieces_take h0 hle]⟩
      rw [h2,List.drop_drop]
      congr 1
      omega

/-! ### The snapshots of the archive -/

/-- A snapshot of a file, as `insert` leaves it. -/
structure Stored (cr : Crates) (db : Archive) (id : String) (file : Bytes) (m : Metadata) :
    Prop where
  row : ∃ encoded, cr.toVec m = some encoded ∧
    db.snapshots.get id = some (encoded,cr.sha256 encoded)
  id_eq : m.id = id
  isUuid : cr.isUuid id = true
  bytes : m.bytes = file.length
  ne_nil : file ≠ []
  fileHash : m.fileHash = cr.sha256 file
  revision : 0 ≤ m.revision
  roots : validRootSet m.roots
  pages : ∀ k, db.snapshotPages.get (id,k) = (pieces file)[k]?.map cr.sha256
  chunks : ∀ c ∈ pieces file, db.chunks.get (cr.sha256 c) = some c

/-- What every call keeps. -/
structure Kept (cr : Crates) (s : System) : Prop where
  stored : ∀ id, s.db.snapshots.contains id = true →
    ∃ file m, s.files.get id = some file ∧ Stored cr s.db id file m
  pages : ∀ p hash, s.db.snapshotPages.get p = some hash → s.db.snapshots.contains p.1 = true
  chunks : ∀ hash data, s.db.chunks.get hash = some data →
    ∃ p, s.db.snapshotPages.get p = some hash

lemma Kept.insert {s : System} {source : Source} {id : String} {createdAt : ℕ} {revision : ℤ}
    {reason : String} {roots : AssetRootSet} {m : Metadata} {db : Archive} (h : Kept cr s)
    (hid : cr.isUuid id = true)
    (hi : s.db.insert cr source id createdAt revision reason roots = .ok (m,db)) :
    Kept cr ⟨db,s.files.upsert id source.content⟩ := by
  unfold Archive.insert at hi
  obtain ⟨hrevision,hi⟩ := require_bind_eq_ok.mp hi
  obtain ⟨hroots,hi⟩ := require_bind_eq_ok.mp hi
  obtain ⟨⟨t,rest⟩,hcopy,hi⟩ := bind_eq_ok.mp hi
  obtain ⟨hrest,hi⟩ := require_bind_eq_ok.mp hi
  obtain ⟨hle,hr,hw⟩ := copy_written (written_nil s.db id) hcopy
  have hlen : source.content.length ≤ source.length := by
    rw [hrest.2] at hr
    exact List.drop_eq_nil_iff.mp hr.symm
  have htake : source.content.take source.length = source.content := List.take_of_length_le hlen
  rw [htake] at hw hi
  rw [List.nil_append] at hw
  dsimp only at hi
  split at hi
  · cases hi
  next encoded hencoded =>
  obtain ⟨-,hi⟩ := require_bind_eq_ok.mp hi
  obtain ⟨hnew,hi⟩ := require_bind_eq_ok.mp hi
  obtain ⟨rfl,rfl⟩ := Prod.mk.inj (Except.ok.inj hi)
  rw [hw.snapshots] at hnew
  have hpages (p : String × ℕ) : t.1.snapshotPages.get p = if p.1 = id then
      (pieces source.content)[p.2]?.map cr.sha256 else s.db.snapshotPages.get p := by
    rw [hw.pages]
    split_ifs with hp
    · have hnone : s.db.snapshotPages.get p = none := by
        by_contra hne
        obtain ⟨hash,hget⟩ := Option.ne_none_iff_exists'.mp hne
        have := h.pages p hash hget
        rw [Table.contains,hp,hnew] at this
        cases this
      rw [hnone,Option.or_none]
    · rfl
  refine ⟨fun id' hc => ?_,fun p hash hp => ?_,fun hash data hd => ?_⟩
  · dsimp only at hc ⊢
    by_cases he : id' = id
    · subst he
      refine ⟨source.content,_,by rw [Table.get_upsert,if_pos rfl],⟨encoded,hencoded,?_⟩,rfl,hid,?_,
        ?_,rfl,hrevision,hroots,fun k => ?_,fun c hc => ?_⟩
      · rw [Table.get_upsert,if_pos rfl]
      · exact le_antisymm hle hlen
      · apply List.ne_nil_of_length_pos
        have := hrest.1
        omega
      · exact (hpages (id',k)).trans (if_pos rfl)
      · exact (hw.chunks _ _).mpr (.inr ⟨hc,rfl⟩)
    · have hold : s.db.snapshots.contains id' = true := by
        rw [Table.contains,Table.get_upsert,if_neg he,hw.snapshots] at hc
        exact hc
      obtain ⟨file,m,hf,hs⟩ := h.stored id' hold
      refine ⟨file,m,by rw [Table.get_upsert,if_neg he,hf],?_,hs.id_eq,hs.isUuid,hs.bytes,hs.ne_nil,
        hs.fileHash,hs.revision,hs.roots,fun k => ?_,fun c hc => ?_⟩
      · obtain ⟨encoded,he',hrow⟩ := hs.row
        exact ⟨encoded,he',by rw [Table.get_upsert,if_neg he,hw.snapshots,hrow]⟩
      · exact ((hpages (id',k)).trans (if_neg he)).trans (hs.pages k)
      · exact (hw.chunks _ _).mpr (.inl (hs.chunks c hc))
  · dsimp only at hp ⊢
    rw [Table.contains,Table.get_upsert,hw.snapshots]
    split_ifs with he
    · rfl
    · rw [hpages,if_neg he] at hp
      exact h.pages p hash hp
  · dsimp only at hd ⊢
    obtain hold | ⟨hmem,rfl⟩ := (hw.chunks _ _).mp hd
    · obtain ⟨p,hp⟩ := h.chunks hash data hold
      refine ⟨p,?_⟩
      rw [hpages,if_neg,hp]
      intro he
      have := h.pages p hash hp
      rw [Table.contains,he,hnew] at this
      cases this
    · obtain ⟨k,hk⟩ := List.mem_iff_getElem?.mp hmem
      exact ⟨(id,k),by rw [hpages,if_pos rfl,hk]; rfl⟩

lemma Kept.without {s : System} (h : Kept cr s) (id : String) :
    Kept cr { s with db := s.db.without id } := by
  have hpage {p : String × ℕ} {hash : Bytes} :
      (s.db.without id).snapshotPages.get p = some hash ↔
        s.db.snapshotPages.get p = some hash ∧ p.1 ≠ id := by
    unfold Archive.without
    dsimp only
    rw [Table.get_deleteWhere_eq_some,decide_eq_false_iff_not]
  have hchunk {hash data : Bytes} : (s.db.without id).chunks.get hash = some data ↔
      s.db.chunks.get hash = some data ∧
        ∃ p, (s.db.without id).snapshotPages.get p = some hash := by
    unfold Archive.without
    dsimp only
    rw [Table.get_deleteWhere_eq_some,Bool.not_eq_false',Table.any_eq_true]
    simp only [decide_eq_true_eq]
    apply and_congr_right
    rintro -
    constructor
    · rintro ⟨p,_,hp,he⟩
      exact ⟨p,he ▸ hp⟩
    · rintro ⟨p,hp⟩
      exact ⟨p,_,hp,rfl⟩
  have hsnap (id' : String) : (s.db.without id).snapshots.get id' =
      if id' = id then none else s.db.snapshots.get id' := Table.get_erase _ _ _
  refine ⟨fun id' hc => ?_,fun p hash hp => ?_,fun hash data hd => (hchunk.mp hd).2⟩
  · dsimp only at hc ⊢
    rw [Table.contains,hsnap] at hc
    split_ifs at hc with he
    · cases hc
    obtain ⟨file,m,hf,hs⟩ := h.stored id' hc
    have hpages (k : ℕ) : (s.db.without id).snapshotPages.get (id',k) =
        (pieces file)[k]?.map cr.sha256 := by
      ext hash
      rw [hpage,hs.pages]
      exact and_iff_left he
    refine ⟨file,m,hf,?_,hs.id_eq,hs.isUuid,hs.bytes,hs.ne_nil,hs.fileHash,hs.revision,hs.roots,
      hpages,fun c hc => hchunk.mpr ⟨hs.chunks c hc,?_⟩⟩
    · obtain ⟨encoded,he',hrow⟩ := hs.row
      exact ⟨encoded,he',by rw [hsnap,if_neg he,hrow]⟩
    · obtain ⟨k,hk⟩ := List.mem_iff_getElem?.mp hc
      exact ⟨(id',k),by rw [hpages,hk]; rfl⟩
  · dsimp only at hp ⊢
    obtain ⟨hp,hne⟩ := hpage.mp hp
    rw [Table.contains,hsnap,if_neg hne]
    exact h.pages p hash hp


lemma Stored.metadata_eq {db : Archive} {id : String} {file : Bytes} {m : Metadata}
    (hcr : cr.Lawful) (h : Stored cr db id file m) : db.metadata cr id = .ok m := by
  obtain ⟨encoded,he,hrow⟩ := h.row
  have hpos := List.length_pos_of_ne_nil h.ne_nil
  have hm : m.id = id ∧ m.bytes ≠ 0 ∧ m.fileHash.length = 32 ∧ 0 ≤ m.revision := by
    refine ⟨h.id_eq,?_,?_,h.revision⟩
    · rw [h.bytes]
      omega
    · rw [h.fileHash]
      exact hcr.length_sha256 file
  unfold Archive.metadata
  refine require_bind_eq_ok.mpr ⟨h.isUuid,?_⟩
  rw [hrow]
  refine require_bind_eq_ok.mpr ⟨rfl,?_⟩
  rw [hcr.fromSlice_toVec m encoded he]
  exact require_bind_eq_ok.mpr ⟨hm,require_bind_eq_ok.mpr ⟨h.roots,rfl⟩⟩

lemma Kept.metadata {s : System} (hcr : cr.Lawful) (h : Kept cr s) {id : String}
    (hid : s.db.snapshots.contains id = true) : ∃ m, s.db.metadata cr id = .ok m := by
  obtain ⟨file,m,-,hs⟩ := h.stored id hid
  exact ⟨m,hs.metadata_eq hcr⟩

/-! ### Restoring -/

lemma Kept.delete_eq {s : System} (hcr : cr.Lawful) (h : Kept cr s) {id : String}
    (hid : s.db.snapshots.contains id = true) : s.db.delete cr id = .ok (s.db.without id) := by
  obtain ⟨m,hm⟩ := h.metadata hcr hid
  exact bind_eq_ok.mpr ⟨m,hm,rfl⟩

lemma Kept.info {s : System} (hcr : cr.Lawful) (h : Kept cr s) {id : String}
    (hid : s.db.snapshots.contains id = true) : ∃ i, s.db.info cr id = .ok i := by
  obtain ⟨m,hm⟩ := h.metadata hcr hid
  exact ⟨_,bind_eq_ok.mpr ⟨m,hm,rfl⟩⟩

lemma info_eq_ok {db : Archive} {id : String} {i : SnapshotInfo} (h : db.info cr id = .ok i) :
    i.id = id ∧ i.reclaimableBytes = db.reclaimable id := by
  obtain ⟨m,-,h⟩ := bind_eq_ok.mp h
  cases h
  exact ⟨rfl,rfl⟩

lemma contains_iff_mem {db : Archive} {id : String} :
    db.snapshots.contains id = true ↔ id ∈ db.snapshots.rows.map Prod.fst := by
  rw [Table.contains,← not_iff_not,← Table.get_eq_none]
  simp

/-- Every snapshot is listed, and no other. -/
theorem Kept.list_eq {s : System} (hcr : cr.Lawful) (h : Kept cr s) :
    ∃ infos, s.db.list cr = .ok infos ∧
      (∀ id, s.db.snapshots.contains id = true ↔ ∃ i ∈ infos, i.id = id) ∧
      ∀ i ∈ infos, i.reclaimableBytes = s.db.reclaimable i.id := by
  obtain ⟨infos,hi⟩ : ∃ infos, (s.db.snapshots.rows.map Prod.fst).mapM (s.db.info cr) = .ok infos :=
    exists_mapM_eq_ok fun id hid => h.info hcr (contains_iff_mem.mpr hid)
  have hmem := mem_of_mapM_eq_ok hi
  refine ⟨infos.mergeSort newer,bind_eq_ok.mpr ⟨infos,hi,rfl⟩,fun id => ?_,fun i him => ?_⟩
  · rw [contains_iff_mem]
    constructor
    · intro hid
      obtain ⟨i,hok⟩ := h.info hcr (contains_iff_mem.mpr hid)
      exact ⟨i,List.mem_mergeSort.mpr ((hmem i).mpr ⟨id,hid,hok⟩),(info_eq_ok hok).1⟩
    · rintro ⟨i,him,rfl⟩
      obtain ⟨id,hid,hok⟩ := (hmem i).mp (List.mem_mergeSort.mp him)
      rwa [(info_eq_ok hok).1]
  · obtain ⟨id,-,hok⟩ := (hmem i).mp (List.mem_mergeSort.mp him)
    rw [(info_eq_ok hok).2,(info_eq_ok hok).1]

/-! ### Rotating -/

lemma foldl_sooner (best : SnapshotInfo) (rest : List SnapshotInfo) :
    let r := rest.foldl (fun best t => if sooner t best then t else best) best
    (r = best ∨ r ∈ rest) ∧ (r.reason ≠ "periodic" →
      best.reason ≠ "periodic" ∧ ∀ t ∈ rest, t.reason ≠ "periodic") := by
  induction rest generalizing best with
  | nil => exact ⟨.inl rfl,fun h => ⟨h,by simp⟩⟩
  | cons t rest ih =>
    obtain ⟨h1,h2⟩ := ih (if sooner t best then t else best)
    rw [List.foldl_cons]
    refine ⟨?_,fun hr => ?_⟩
    · rw [List.mem_cons]
      obtain h1 | h1 := h1
      · rw [h1]
        split_ifs
        · exact .inr (.inl rfl)
        · exact .inl rfl
      · exact .inr (.inr h1)
    · obtain ⟨hb,hrest⟩ := h2 hr
      rw [List.forall_mem_cons,← and_assoc]
      refine ⟨?_,hrest⟩
      split_ifs at hb with hs
      · rw [sooner,decide_eq_true_iff] at hs
        tauto
      · rw [sooner,decide_eq_true_iff] at hs
        tauto

/-- One snapshot that is not protected is deleted, a periodic one where there is one. -/
lemma oldest_eq_some {protectedId : String} {snapshots : List SnapshotInfo} {i : SnapshotInfo}
    (h : oldest protectedId snapshots = some i) : i ∈ snapshots ∧ i.id ≠ protectedId ∧
      (i.reason ≠ "periodic" → ∀ j ∈ snapshots, j.id ≠ protectedId → j.reason ≠ "periodic") := by
  have hmem (j : SnapshotInfo) : j ∈ snapshots.reverse.filter (fun s => decide (s.id ≠ protectedId)) ↔
      j ∈ snapshots ∧ j.id ≠ protectedId := by
    rw [List.mem_filter,List.mem_reverse,decide_eq_true_iff]
  unfold oldest at h
  generalize snapshots.reverse.filter (fun s => decide (s.id ≠ protectedId)) = l at h hmem
  cases l with
  | nil => cases h
  | cons best rest =>
    obtain rfl := Option.some.inj h
    obtain ⟨h1,h2⟩ := foldl_sooner best rest
    obtain ⟨ha,hb⟩ := (hmem _).mp (List.mem_cons.mpr h1)
    refine ⟨ha,hb,fun hr j hj hne => ?_⟩
    obtain ⟨h3,h4⟩ := h2 hr
    obtain rfl | hj := List.mem_cons.mp ((hmem j).mpr ⟨hj,hne⟩)
    · exact h3
    · exact h4 j hj

/-- A round that goes on deletes one of the snapshots that are listed. -/
theorem Kept.rotateRound {s : System} (hcr : cr.Lawful) (h : Kept cr s) {byteBudget : ℕ}
    {protectedId : String} {round : Round} {db : Archive}
    (hr : s.db.rotateRound cr byteBudget protectedId round = .ok (some db)) :
    ∃ infos, s.db.list cr = .ok infos ∧ ¬ (infos.length ≤ 8 ∧ round.bytes ≤ byteBudget) ∧
      ∃ i ∈ infos, i.id ≠ protectedId ∧
        (i.reason ≠ "periodic" → ∀ j ∈ infos, j.id ≠ protectedId → j.reason ≠ "periodic") ∧
        s.db.snapshots.contains i.id = true ∧ db = s.db.without i.id := by
  unfold Archive.rotateRound at hr
  cases hf : round.failure with
  | some e =>
    rw [hf] at hr
    cases hr
  | none =>
    rw [hf] at hr
    obtain ⟨infos,hl,hr⟩ := bind_eq_ok.mp hr
    refine ⟨infos,hl,?_⟩
    split_ifs at hr with hfit
    · cases hr
    refine ⟨hfit,?_⟩
    split at hr
    · cases hr
    next i hi =>
    obtain ⟨hmem,hne,hper⟩ := oldest_eq_some hi
    obtain ⟨infos',hl',hids,-⟩ := h.list_eq hcr
    obtain rfl := Except.ok.inj (hl.symm.trans hl')
    have hc := (hids i.id).mpr ⟨i,hmem,rfl⟩
    rw [h.delete_eq hcr hc] at hr
    exact ⟨i,hmem,hne,hper,hc,(Option.some.inj (Except.ok.inj hr)).symm⟩

lemma length_without {db : Archive} {id : String} (h : db.snapshots.contains id = true) :
    (db.without id).snapshots.rows.length < db.snapshots.rows.length := by
  obtain ⟨row,hr⟩ := Option.isSome_iff_exists.mp h
  refine List.length_filter_lt_length_iff_exists.mpr ⟨_,Table.get_eq_some.mp hr,?_⟩
  simp

/-- Rotation ends, and its rounds are all that it does. -/
theorem Kept.rotate {s : System} (hcr : cr.Lawful) (h : Kept cr s) (byteBudget : ℕ)
    (protectedId : String) (rounds : ℕ → Round) {fuel : ℕ}
    (hfuel : s.db.snapshots.rows.length < fuel) :
    ∃ db r, s.db.rotate cr byteBudget protectedId fuel rounds = some (db,r) ∧
      Relation.ReflTransGen (fun a b => ∃ round, a.rotateRound cr byteBudget protectedId round =
        .ok (some b)) s.db db := by
  induction fuel generalizing s rounds with
  | zero => cases hfuel
  | succ fuel ih =>
    unfold Archive.rotate
    cases hr : s.db.rotateRound cr byteBudget protectedId (rounds 0) with
    | error e => exact ⟨s.db,.error e,rfl,.refl⟩
    | ok next =>
      cases next with
      | none => exact ⟨s.db,.ok (),rfl,.refl⟩
      | some db =>
        obtain ⟨infos,-,-,i,-,-,-,hc,rfl⟩ := h.rotateRound hcr hr
        have hlen := length_without hc
        obtain ⟨db,r,hrot,hrel⟩ := ih (h.without i.id) (fun k => rounds (k + 1)) (by
          dsimp only
          omega)
        exact ⟨db,r,hrot,.head ⟨_,hr⟩ hrel⟩

/-! ### Runs -/

theorem Kept.step {s t : System} {call : Call} (hcr : cr.Lawful) (h : Kept cr s)
    (hid : Issued cr s call) (hs : s.step cr call = some t) : Kept cr t := by
  unfold System.step at hs
  cases call with
  | insert failure source id createdAt revision reason roots =>
    dsimp only at hs
    split at hs
    next m db hi =>
      obtain rfl := Option.some.inj hs
      exact h.insert hid hi
    · exact Option.some.inj hs ▸ h
  | delete failure id =>
    dsimp only at hs
    split at hs
    next db hd =>
      obtain rfl := Option.some.inj hs
      obtain ⟨m,-,hd⟩ := bind_eq_ok.mp hd
      exact Except.ok.inj hd ▸ h.without id
    · exact Option.some.inj hs ▸ h
  | rotateRound byteBudget protectedId round =>
    dsimp only at hs
    split at hs
    next db hr =>
      obtain rfl := Option.some.inj hs
      obtain ⟨infos,-,-,i,-,-,-,-,rfl⟩ := h.rotateRound hcr hr
      exact h.without i.id
    · exact Option.some.inj hs ▸ h

def sampleId : String := "67e55044-10b1-426f-9247-bb680e5fe0c8"

/-- The SHA-256 of one `x`. -/
def sampleHash : Bytes :=
  [45,113,22,66,183,38,176,68,1,98,124,169,251,172,50,245,200,83,15,177,144,60,196,219,2,37,135,23,
    146,26,72,129]

def sampleRoots : AssetRootSet := ⟨∅,∅,∅,∅,∅,∅,false⟩

def sampleMetadata : Metadata :=
  ⟨sampleId,"periodic",1,1,1760000000000,sampleHash,sampleRoots⟩

/-- The metadata as JSON. -/
def sampleText : Bytes :=
  123 :: ("\"id\":\"67e55044-10b1-426f-9247-bb680e5fe0c8\",\"reason\":\"periodic\",\"revision\":1," ++
    "\"bytes\":1,\"created_at\":1760000000000,\"file_hash\":[45,113,22,66,183,38,176,68,1,98,124," ++
    "169,251,172,50,245,200,83,15,177,144,60,196,219,2,37,135,23,146,26,72,129],\"roots\":" ++
    "\x7b\"manifest_hashes\":[],\"object_hashes\":[],\"legacy_asset_keys\":[],\"inlay_ids\":[]," ++
    "\"cold_keys\":[],\"blockers\":[]\x7d\x7d").toUTF8.toList

/-- The SHA-256 of that text. -/
def sampleChecksum : Bytes :=
  [99,134,173,207,135,11,109,84,104,40,125,241,114,229,28,83,35,45,0,237,42,71,182,253,43,1,136,247,
    11,12,215,85]

/-- The libraries, on what one short snapshot asks of them. -/
def sampleCrates : Crates where
  sha256 bytes := if bytes = [120] then sampleHash else sampleChecksum
  toVec m := if m = sampleMetadata then some sampleText else none
  fromSlice bytes := if bytes = sampleText then some sampleMetadata else none
  isUuid id := decide (id = sampleId)

end RisuNest.Storage.Snapshots
