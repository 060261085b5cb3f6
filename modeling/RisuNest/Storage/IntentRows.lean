import RisuNest.Lib.LittleEndian
import RisuNest.Lib.PrefixCode
import RisuNest.Lib.SortedMap
import RisuNest.Storage.StoreError
import RisuNest.Wire.Unit

/-! The rows of an intent and the digest they are proved by when it is replayed
(`lww_intent_rows.rs`). -/
namespace RisuNest.Storage.Intents
open Wire (Crates CollisionFree utf8)

/-- A text in memory: its length is at most `isize::MAX`. -/
structure Text where
  text : String
  length_lt : (utf8 text.toList).length < 9223372036854775808
  deriving DecidableEq

def Text.asBytes (t : Text) : List UInt8 := utf8 t.text.toList

structure IntentRows where
  rows : ℕ
  digest : String
  deriving DecidableEq

structure RowText where
  key : Text
  /-- Set for received changes only. -/
  stamp : Option Text
  value : Text
  sourceOverride : Bool
  deriving DecidableEq

/-! ### The digest -/

/-- What the hasher was fed, and the rows so far. -/
structure RowDigest where
  hasher : List UInt8
  rows : ℕ
  deriving DecidableEq

namespace RowDigest

def update (d : RowDigest) (bytes : List UInt8) : RowDigest := { d with hasher := d.hasher ++ bytes }

def frame (d : RowDigest) (bytes : List UInt8) : RowDigest :=
  (d.update (toLittleEndian 8 bytes.length)).update bytes

def domain : List UInt8 := utf8 "risunest.lww-intent-rows/v1\x00".toList

def new (kind : Text) : RowDigest := (update ⟨[],0⟩ domain).frame kind.asBytes

def pushStamp (d : RowDigest) : Option Text → RowDigest
  | some stamp => (d.update [1]).frame stamp.asBytes
  | none => d.update [0]

def push (d : RowDigest) (row : RowText) : RowDigest :=
  let d := (((d.frame row.key.asBytes).pushStamp row.stamp).frame row.value.asBytes).update
    [if row.sourceOverride then 1 else 0]
  { d with rows := d.rows + 1 }

def finish (cr : Crates) (d : RowDigest) : IntentRows := ⟨d.rows,cr.sha256 d.hasher⟩

end RowDigest

/-! ### The rows of a device -/

def integrity : StoreError := .validation "request-id-integrity"

/-- `lww_intents`, as whether each request is complete, and `lww_intent_rows` by request and
ordinal. -/
structure Device where
  intents : Table String Bool
  intentRows : Table String (SortedMap ℤ RowText)

def Device.rowsOf (db : Device) (requestId : String) : SortedMap ℤ RowText :=
  (db.intentRows.get requestId).getD .empty

def Device.insert (db : Device) (requestId : String) (ordinal : ℤ) (row : RowText) :
    StoreResult Device := do
  require ((db.rowsOf requestId).get ordinal = none) (.store "UNIQUE constraint failed")
  pure { db with
    intentRows := db.intentRows.upsert requestId ((db.rowsOf requestId).insert ordinal row) }

def batchRows : ℕ := 1024

def writeRow (requestId : String) (s : Device × RowDigest) (row : StoreResult RowText) :
    StoreResult (Device × RowDigest) := do
  let row ← row
  let digest := s.2.push row
  let db ← s.1.insert requestId digest.rows row
  pure (db,digest)

/-- The transactions after the first. One that fails leaves the rows of those before it. -/
def writeBatches (requestId : String) (s : Device × RowDigest) (rows : List (StoreResult RowText)) :
    Device × StoreResult RowDigest :=
  if _h : rows = [] then (s.1,.ok s.2)
  else match (rows.take batchRows).foldlM (writeRow requestId) s with
    | .error e => (s.1,.error e)
    | .ok s => writeBatches requestId s (rows.drop batchRows)
  termination_by rows.length
  decreasing_by
    have := List.length_pos_iff.mpr _h
    simp only [List.length_drop, batchRows]
    omega

def write (cr : Crates) (db : Device) (requestId : String) (kind : Text)
    (rows : List (StoreResult RowText)) : Device × StoreResult IntentRows :=
  if db.intents.contains requestId then (db,.error integrity)
  else
    let cleared := { db with intentRows := db.intentRows.erase requestId }
    match (rows.take batchRows).foldlM (writeRow requestId) (cleared,RowDigest.new kind) with
    | .error e => (db,.error e)
    | .ok s =>
      let (db, digest) := writeBatches requestId s (rows.drop batchRows)
      (db,digest.map (RowDigest.finish cr))

def readRow {σ : Type} (visit : σ → RowText → StoreResult σ) (s : RowDigest × σ)
    (row : ℤ × RowText) : StoreResult (RowDigest × σ) := do
  require (row.1 = s.1.rows + 1) integrity
  let state ← visit s.2 row.2
  pure (s.1.push row.2,state)

def read {σ : Type} (cr : Crates) (db : Device) (requestId : String) (kind : Text)
    (expected : IntentRows) (visit : σ → RowText → StoreResult σ) (state : σ) : StoreResult σ := do
  let s ← (db.rowsOf requestId).rows.foldlM (readRow visit) (RowDigest.new kind,state)
  require (s.1.finish cr = expected) integrity
  pure s.2

def deleteSettled (db : Device) : Device :=
  { db with intentRows := db.intentRows.deleteWhere fun id _ => db.intents.get id != some false }

/-! ### What the digest is of -/

def frameBytes (bytes : List UInt8) : List UInt8 := toLittleEndian 8 bytes.length ++ bytes

def stampBytes : Option Text → List UInt8
  | some stamp => 1 :: frameBytes stamp.asBytes
  | none => [0]

def rowBytes (row : RowText) : List UInt8 :=
  frameBytes row.key.asBytes ++ stampBytes row.stamp ++ frameBytes row.value.asBytes ++
    [if row.sourceOverride then 1 else 0]

/-- Everything that is hashed for a list of rows. -/
def framing (kind : Text) (rows : List RowText) : List UInt8 :=
  RowDigest.domain ++ frameBytes kind.asBytes ++ rows.flatMap rowBytes

lemma new_hasher (kind : Text) :
    RowDigest.new kind = ⟨RowDigest.domain ++ frameBytes kind.asBytes,0⟩ := by
  simp [RowDigest.new, RowDigest.frame, RowDigest.update, frameBytes]

lemma push_eq (d : RowDigest) (row : RowText) :
    d.push row = ⟨d.hasher ++ rowBytes row,d.rows + 1⟩ := by
  unfold RowDigest.push rowBytes
  cases row.stamp <;>
    simp [RowDigest.pushStamp, RowDigest.frame, RowDigest.update, frameBytes, stampBytes]

lemma foldl_push (rows : List RowText) (d : RowDigest) :
    rows.foldl RowDigest.push d = ⟨d.hasher ++ rows.flatMap rowBytes,d.rows + rows.length⟩ := by
  induction rows generalizing d with
  | nil => simp
  | cons row rows ih =>
    rw [List.foldl_cons, ih, push_eq]
    simp only [List.flatMap_cons, List.append_assoc, List.length_cons, RowDigest.mk.injEq, true_and]
    omega

lemma foldl_push_new (kind : Text) (rows : List RowText) :
    rows.foldl RowDigest.push (RowDigest.new kind) = ⟨framing kind rows,rows.length⟩ := by
  rw [foldl_push, new_hasher, Nat.zero_add]
  rfl

lemma asBytes_injective : Function.Injective Text.asBytes := by
  intro s t h
  have ht : s.text = t.text := String.toList_inj.mp (Wire.utf8_injective h)
  cases s
  cases t
  cases ht
  rfl

theorem selfDelimiting_frame : SelfDelimiting fun t : Text => frameBytes t.asBytes := by
  intro s t r r' h
  simp only [frameBytes, List.append_assoc] at h
  have hlengths : (toLittleEndian 8 s.asBytes.length).length =
      (toLittleEndian 8 t.asBytes.length).length := by
    rw [length_toLittleEndian, length_toLittleEndian]
  obtain ⟨hlength,hrest⟩ := List.append_inj h hlengths
  have hs := s.length_lt
  have ht := t.length_lt
  have heq : s.asBytes.length = t.asBytes.length := by
    apply (toLittleEndian_inj _ _).mp hlength
    · exact hs.trans (by decide)
    · exact ht.trans (by decide)
  obtain ⟨hbytes,hrest⟩ := List.append_inj hrest heq
  exact ⟨asBytes_injective hbytes,hrest⟩

theorem selfDelimiting_stamp : SelfDelimiting stampBytes := by
  intro s t r r' h
  cases s with
  | none =>
    cases t with
    | none => exact ⟨rfl,(List.cons.inj h).2⟩
    | some t => exact absurd (List.cons.inj h).1 (by decide)
  | some s =>
    cases t with
    | none => exact absurd (List.cons.inj h).1 (by decide)
    | some t =>
      obtain ⟨rfl,hrest⟩ := selfDelimiting_frame s t r r' (List.cons.inj h).2
      exact ⟨rfl,hrest⟩

theorem selfDelimiting_row : SelfDelimiting rowBytes := by
  intro a b r r' h
  simp only [rowBytes, List.append_assoc] at h
  obtain ⟨hkey,h⟩ := selfDelimiting_frame a.key b.key _ _ h
  obtain ⟨hstamp,h⟩ := selfDelimiting_stamp a.stamp b.stamp _ _ h
  obtain ⟨hvalue,h⟩ := selfDelimiting_frame a.value b.value _ _ h
  obtain ⟨hoverride,hrest⟩ := List.cons.inj h
  have hbool : a.sourceOverride = b.sourceOverride := by
    cases ha : a.sourceOverride <;> cases hb : b.sourceOverride <;> simp_all
  cases a
  cases b
  cases hkey
  cases hstamp
  cases hvalue
  cases hbool
  exact ⟨rfl,hrest⟩

theorem framing_injective {kind kind' : Text} {rows rows' : List RowText}
    (h : framing kind rows = framing kind' rows') : kind = kind' ∧ rows = rows' := by
  simp only [framing, List.append_assoc] at h
  obtain ⟨rfl,hrows⟩ := selfDelimiting_frame kind kind' _ _ (List.append_cancel_left h)
  refine ⟨rfl,selfDelimiting_row.flatMap_injective ?_ hrows⟩
  intro row
  simp [rowBytes]

/-! ### Writing -/

/-- Rows under the ordinals that follow a number. -/
def numbered : ℕ → List RowText → List (ℤ × RowText)
  | _, [] => []
  | n, row :: rows => ((n : ℤ) + 1,row) :: numbered (n+1) rows

lemma numbered_append (n : ℕ) (rows rows' : List RowText) :
    numbered n (rows ++ rows') = numbered n rows ++ numbered (n + rows.length) rows' := by
  induction rows generalizing n with
  | nil => rfl
  | cons row rows ih =>
    rw [List.cons_append, numbered, ih, numbered, List.cons_append, List.length_cons, Nat.add_assoc,
      Nat.add_comm 1]

lemma numbered_le {n : ℕ} {rows : List RowText} {r : ℤ × RowText} (h : r ∈ numbered n rows) :
    r.1 ≤ (n : ℤ) + rows.length := by
  induction rows generalizing n with
  | nil => simp [numbered] at h
  | cons row rows ih =>
    simp only [numbered, List.mem_cons] at h
    rw [List.length_cons]
    cases h with
    | inl h => rw [h]; push_cast; omega
    | inr h => have := ih h; push_cast at this ⊢; omega

lemma map_snd_numbered (n : ℕ) (rows : List RowText) : (numbered n rows).map Prod.snd = rows := by
  induction rows generalizing n with
  | nil => rfl
  | cons row rows ih => rw [numbered, List.map_cons, ih]

lemma rowsOf_upsert (db : Device) (requestId other : String) (m : SortedMap ℤ RowText) :
    Device.rowsOf { db with intentRows := db.intentRows.upsert requestId m } other =
      if other = requestId then m else db.rowsOf other := by
  simp only [Device.rowsOf, Table.get_upsert]
  split_ifs <;> rfl

/-- What the transactions have done when they have stored some rows. -/
structure Written (start : Device) (requestId : String) (kind : Text) (rows : List RowText)
    (s : Device × RowDigest) : Prop where
  stored : (s.1.rowsOf requestId).rows = numbered 0 rows
  digest : s.2 = ⟨framing kind rows,rows.length⟩
  others : ∀ other, other ≠ requestId → s.1.rowsOf other = start.rowsOf other
  intents : s.1.intents = start.intents

namespace Written
variable {start : Device} {requestId : String} {kind : Text} {rows : List RowText}
  {s : Device × RowDigest}

lemma cleared (start : Device) (requestId : String) (kind : Text) :
    Written start requestId kind []
      ({ start with intentRows := start.intentRows.erase requestId },RowDigest.new kind) where
  stored := by simp [Device.rowsOf, SortedMap.empty, numbered]
  digest := foldl_push_new kind []
  others := by
    intro other hne
    simp [Device.rowsOf, hne]
  intents := rfl

lemma push_digest (h : Written start requestId kind rows s) (row : RowText) :
    s.2.push row = ⟨framing kind (rows ++ [row]),(rows ++ [row]).length⟩ := by
  rw [h.digest, push_eq]
  simp [framing]

lemma writeRow_ok (h : Written start requestId kind rows s) (row : RowText) :
    ∃ s', writeRow requestId s (.ok row) = .ok s' ∧
      Written start requestId kind (rows ++ [row]) s' := by
  have hpush := h.push_digest row
  have hlt : ∀ r ∈ (s.1.rowsOf requestId).rows, r.1 < ((s.2.push row).rows : ℤ) := by
    intro r hr
    rw [h.stored] at hr
    have := numbered_le hr
    rw [hpush, List.length_append, List.length_singleton]
    push_cast at this ⊢
    omega
  have hfree : (s.1.rowsOf requestId).get (s.2.push row).rows = none := by
    rw [SortedMap.get_eq_none]
    intro hmem
    obtain ⟨r,hr,hkey⟩ := List.mem_map.mp hmem
    exact absurd hkey (ne_of_lt (hlt r hr))
  refine ⟨_,bind_eq_ok.mpr ⟨row,rfl,bind_eq_ok.mpr ⟨_,bind_eq_ok.mpr ⟨(),
    require_eq_ok.mpr hfree,rfl⟩,rfl⟩⟩,?_⟩
  constructor
  · rw [rowsOf_upsert, if_pos rfl, SortedMap.rows_insert_of_forall_lt hlt, h.stored, hpush,
      numbered_append, List.length_append, List.length_singleton, Nat.zero_add]
    simp [numbered]
  · exact hpush
  · intro other hne
    rw [rowsOf_upsert, if_neg hne]
    exact h.others other hne
  · exact h.intents

lemma foldlM_eq_ok (h : Written start requestId kind rows s) {input : List (StoreResult RowText)}
    {s' : Device × RowDigest} (hs : input.foldlM (writeRow requestId) s = .ok s') :
    ∃ texts, input = texts.map .ok ∧ Written start requestId kind (rows ++ texts) s' := by
  induction input generalizing s rows with
  | nil =>
    cases hs
    exact ⟨[],rfl,by rwa [List.append_nil]⟩
  | cons x input ih =>
    obtain ⟨mid,hmid,hrest⟩ := foldlM_cons_eq_ok.mp hs
    obtain ⟨row,rfl,_⟩ := bind_eq_ok.mp hmid
    obtain ⟨next,hnext,hone⟩ := h.writeRow_ok row
    cases hmid.symm.trans hnext
    obtain ⟨texts,rfl,hall⟩ := ih hone hrest
    exact ⟨row :: texts,rfl,by rwa [List.append_assoc] at hall⟩

lemma exists_foldlM (h : Written start requestId kind rows s) (texts : List RowText) :
    ∃ s', (texts.map .ok).foldlM (writeRow requestId) s = .ok s' := by
  induction texts generalizing s rows with
  | nil => exact ⟨s,rfl⟩
  | cons row texts ih =>
    obtain ⟨next,hnext,hw⟩ := h.writeRow_ok row
    obtain ⟨s',hs'⟩ := ih hw
    exact ⟨s',foldlM_cons_eq_ok.mpr ⟨next,hnext,hs'⟩⟩

lemma batches_eq_ok (h : Written start requestId kind rows s) {input : List (StoreResult RowText)}
    {db : Device} {digest : RowDigest} (hs : writeBatches requestId s input = (db,.ok digest)) :
    ∃ texts, input = texts.map .ok ∧ Written start requestId kind (rows ++ texts) (db,digest) := by
  induction s, input using writeBatches.induct requestId generalizing rows with
  | case1 s =>
    rw [writeBatches, dif_pos rfl] at hs
    cases hs
    exact ⟨[],rfl,by rwa [List.append_nil]⟩
  | case2 s input hne e he =>
    rw [writeBatches, dif_neg hne, he] at hs
    cases hs
  | case3 s input hne mid hmid ih =>
    rw [writeBatches, dif_neg hne, hmid] at hs
    obtain ⟨front,hfront,hw⟩ := h.foldlM_eq_ok hmid
    obtain ⟨back,hback,hall⟩ := ih hw hs
    refine ⟨front ++ back,?_,by rwa [List.append_assoc] at hall⟩
    rw [List.map_append, ← hfront, ← hback, List.take_append_drop]

lemma exists_batches (h : Written start requestId kind rows s) (texts : List RowText) :
    ∃ db digest, writeBatches requestId s (texts.map .ok) = (db,.ok digest) := by
  induction hlen : texts.length using Nat.strongRecOn generalizing texts rows s with
  | ind n ih =>
    rw [writeBatches]
    split_ifs with hnil
    · exact ⟨s.1,s.2,rfl⟩
    · obtain ⟨mid,hmid⟩ := h.exists_foldlM (texts.take batchRows)
      obtain ⟨front,-,hw⟩ := h.foldlM_eq_ok hmid
      rw [← List.map_take, hmid, ← List.map_drop]
      have hpos : 0 < texts.length := by
        rw [List.length_pos_iff]
        exact fun he => hnil (by rw [he]; rfl)
      refine ih (texts.drop batchRows).length ?_ hw (texts.drop batchRows) rfl
      rw [List.length_drop, batchRows]
      omega

end Written

/-- What a write that succeeds was given, and what it leaves. -/
theorem write_eq_ok {cr : Crates} {db db' : Device} {requestId : String} {kind : Text}
    {rows : List (StoreResult RowText)} {expected : IntentRows}
    (h : write cr db requestId kind rows = (db',.ok expected)) :
    ∃ texts, rows = texts.map .ok ∧ expected = ⟨texts.length,cr.sha256 (framing kind texts)⟩ ∧
      (db'.rowsOf requestId).rows = numbered 0 texts ∧
      (∀ other, other ≠ requestId → db'.rowsOf other = db.rowsOf other) ∧
      db'.intents = db.intents := by
  unfold write at h
  split_ifs at h with hissued
  · cases h
  · have hcleared := Written.cleared db requestId kind
    cases hfirst : (rows.take batchRows).foldlM (writeRow requestId)
        ({ db with intentRows := db.intentRows.erase requestId },RowDigest.new kind) with
    | error e =>
      simp only [hfirst] at h
      cases h
    | ok s =>
      simp only [hfirst] at h
      obtain ⟨front,hfront,hw⟩ := hcleared.foldlM_eq_ok hfirst
      cases hrest : writeBatches requestId s (rows.drop batchRows) with
      | mk after digest =>
        rw [hrest] at h
        obtain ⟨rfl,hdigest⟩ := Prod.mk.inj h
        cases digest with
        | error e => cases hdigest
        | ok digest =>
          obtain ⟨back,hback,hall⟩ := hw.batches_eq_ok hrest
          refine ⟨front ++ back,?_,?_,hall.stored,hall.others,hall.intents⟩
          · rw [List.map_append, ← hfront, ← hback, List.take_append_drop]
          · have hlast : digest = _ := hall.digest
            rw [← Except.ok.inj hdigest, hlast]
            rfl

/-- An intent that is not issued takes every list of rows. -/
theorem exists_write (cr : Crates) {db : Device} {requestId : String} (kind : Text)
    (texts : List RowText) (hnew : db.intents.contains requestId = false) :
    ∃ db', write cr db requestId kind (texts.map .ok) =
      (db',.ok ⟨texts.length,cr.sha256 (framing kind texts)⟩) := by
  have hcleared := Written.cleared db requestId kind
  obtain ⟨s,hs⟩ := hcleared.exists_foldlM (texts.take batchRows)
  obtain ⟨front,-,hw⟩ := hcleared.foldlM_eq_ok hs
  obtain ⟨db',digest,hrest⟩ := hw.exists_batches (texts.drop batchRows)
  have hwrite : write cr db requestId kind (texts.map .ok) = (db',.ok (digest.finish cr)) := by
    unfold write
    rw [if_neg (by rw [hnew]; decide), ← List.map_take, ← List.map_drop]
    simp only [hs, hrest]
    rfl
  obtain ⟨found,hfound,hexpected,-⟩ := write_eq_ok hwrite
  have heq : texts = found := List.map_injective_iff.mpr (fun _ _ => Except.ok.inj) hfound
  exact ⟨db',by rw [hwrite, hexpected, heq]⟩

/-! ### Reading -/

section
variable {σ : Type} {visit : σ → RowText → StoreResult σ}

lemma foldlM_numbered (texts : List RowText) (d : RowDigest) (state : σ) :
    (numbered d.rows texts).foldlM (readRow visit) (d,state) =
      (texts.foldlM visit state).map fun s => (texts.foldl RowDigest.push d,s) := by
  induction texts generalizing d state with
  | nil => rfl
  | cons text texts ih =>
    have hstep : readRow visit (d,state) ((d.rows : ℤ) + 1,text) =
        (visit state text).map fun s => (d.push text,s) := by
      unfold readRow
      rw [require, if_pos rfl]
      cases visit state text <;> rfl
    have hrows : d.rows + 1 = (d.push text).rows := by rw [push_eq]
    rw [numbered, List.foldlM_cons, List.foldlM_cons, hstep, hrows]
    cases visit state text with
    | error e => rfl
    | ok next => exact ih (d.push text) next

lemma exists_of_foldlM {stored : List (ℤ × RowText)} {d : RowDigest} {state : σ}
    {out : RowDigest × σ} (h : stored.foldlM (readRow visit) (d,state) = .ok out) :
    ∃ texts, stored = numbered d.rows texts := by
  induction stored generalizing d state with
  | nil => exact ⟨[],rfl⟩
  | cons row stored ih =>
    obtain ⟨mid,hmid,hrest⟩ := foldlM_cons_eq_ok.mp h
    obtain ⟨hordinal,hvisit⟩ := require_bind_eq_ok.mp hmid
    obtain ⟨next,hnext,hpush⟩ := bind_eq_ok.mp hvisit
    cases hpush
    obtain ⟨texts,rfl⟩ := ih hrest
    refine ⟨row.2 :: texts,?_⟩
    rw [push_eq, numbered, ← hordinal]

/-- Rows that are proved are handed over in order, with whatever the visitor answers. -/
theorem read_of_stored {cr : Crates} {db : Device} {requestId : String} {kind : Text}
    {texts : List RowText} (h : (db.rowsOf requestId).rows = numbered 0 texts)
    (expected : IntentRows) (state : σ) :
    read cr db requestId kind expected visit state =
      (texts.foldlM visit state >>= fun s =>
        require (expected = ⟨texts.length,cr.sha256 (framing kind texts)⟩) integrity >>=
          fun _ => pure s) := by
  have hrows : (RowDigest.new kind).rows = 0 := by rw [new_hasher]
  rw [read, h, ← hrows, foldlM_numbered]
  cases texts.foldlM visit state with
  | error e => rfl
  | ok s =>
    change (require (_ = expected) integrity >>= fun _ => pure s) = _
    rw [foldl_push_new]
    simp only [eq_comm]
    rfl

theorem read_eq_ok {cr : Crates} {db : Device} {requestId : String} {kind : Text}
    {expected : IntentRows} {state out : σ}
    (h : read cr db requestId kind expected visit state = .ok out) :
    ∃ texts, (db.rowsOf requestId).rows = numbered 0 texts ∧
      expected = ⟨texts.length,cr.sha256 (framing kind texts)⟩ := by
  obtain ⟨s,hs,-⟩ := bind_eq_ok.mp h
  have hrows : (RowDigest.new kind).rows = 0 := by rw [new_hasher]
  obtain ⟨texts,hstored⟩ := exists_of_foldlM hs
  rw [hrows] at hstored
  rw [read_of_stored hstored] at h
  obtain ⟨_,_,hlast⟩ := bind_eq_ok.mp h
  exact ⟨texts,hstored,(require_bind_eq_ok.mp hlast).1⟩

end

/-- Whatever an intent's rows are, they are replayed in order, and no other rows and no other kind
pass for them: the text that is hashed tells kinds and lists of rows apart. -/
theorem frozen_rows_replay_exactly {cr : Crates} {db db' : Device} {requestId : String} {kind : Text}
    {rows : List (StoreResult RowText)} {expected : IntentRows}
    (hwrite : write cr db requestId kind rows = (db',.ok expected)) :
    ∃ texts, rows = texts.map .ok ∧
      (∀ (σ : Type) (visit : σ → RowText → StoreResult σ) (state : σ),
        read cr db' requestId kind expected visit state = texts.foldlM visit state) ∧
      (∀ (stored : Device) (id : String) (other : Text) (σ : Type)
        (visit : σ → RowText → StoreResult σ) (state out : σ),
        CollisionFree cr
          {framing kind texts,framing other ((stored.rowsOf id).rows.map Prod.snd)} →
        read cr stored id other expected visit state = .ok out →
        other = kind ∧ (stored.rowsOf id).rows = numbered 0 texts) ∧
      ∀ kind₁ kind₂ rows₁ rows₂, framing kind₁ rows₁ = framing kind₂ rows₂ →
        kind₁ = kind₂ ∧ rows₁ = rows₂ := by
  obtain ⟨texts,hrows,rfl,hstored,-,-⟩ := write_eq_ok hwrite
  refine ⟨texts,hrows,?_,?_,fun _ _ _ _ => framing_injective⟩
  · intro σ visit state
    rw [read_of_stored hstored]
    cases texts.foldlM visit state with
    | error e => rfl
    | ok s => exact require_bind_eq_ok.mpr ⟨rfl,rfl⟩
  · intro stored id other σ visit state out free hread
    obtain ⟨found,hfound,hexpected⟩ := read_eq_ok hread
    rw [hfound, map_snd_numbered] at free
    have hdigest : cr.sha256 (framing other found) = cr.sha256 (framing kind texts) :=
      (IntentRows.mk.inj hexpected).2.symm
    obtain ⟨rfl,rfl⟩ := framing_injective (free (by simp) (by simp) hdigest)
    exact ⟨rfl,hfound⟩

def changesKind : Text := ⟨"changes",by decide⟩

/-- A deletion, and a value that a source overrides or not. -/
def sampleRows (sourceOverride : Bool) : List RowText :=
  [⟨⟨"[\"root\",\"a\"]",by decide⟩,none,
      ⟨"\x7b\"kind\":\"deleted\"\x7d",by decide⟩,false⟩,
    ⟨⟨"[\"root\",\"b\"]",by decide⟩,none,
      ⟨"\x7b\"kind\":\"inline\",\"bytes\":\"MQ\"\x7d",by decide⟩,sourceOverride⟩]

def rowCrates : Crates := Wire.tabulated
  [(framing changesKind (sampleRows true),
      "30bf91671ba774fbc546eaa1f753391a8d5cf75e56813588e427ad3edcbab99e"),
    (framing changesKind (sampleRows false),
      "31d2af24081a7afb1cc7df64097a22868f10b3a5f3f703a796e492048bf44ceb")] [] []

/-- A device whose second row lost its mark. -/
def alteredDevice : Device :=
  ⟨.empty,Table.empty.upsert "request" (SortedMap.ofRows (numbered 0 (sampleRows false)))⟩

def collect (rows : List RowText) (row : RowText) : StoreResult (List RowText) :=
  .ok (rows ++ [row])

def sampleExpected : IntentRows :=
  ⟨2,"30bf91671ba774fbc546eaa1f753391a8d5cf75e56813588e427ad3edcbab99e"⟩

/-- Two rows are written and read; with one mark less they are refused. -/
theorem frozen_rows_replay_exactly_sample :
    ∃ db', write rowCrates ⟨.empty,.empty⟩ "request" changesKind ((sampleRows true).map .ok) =
        (db',.ok sampleExpected) ∧
      read rowCrates db' "request" changesKind sampleExpected collect [] = .ok (sampleRows true) ∧
      ∀ out, read rowCrates alteredDevice "request" changesKind sampleExpected collect [] ≠
        .ok out := by
  have hhashes : rowCrates.sha256 (framing changesKind (sampleRows true)) =
        sampleExpected.digest ∧
      rowCrates.sha256 (framing changesKind (sampleRows false)) =
        "31d2af24081a7afb1cc7df64097a22868f10b3a5f3f703a796e492048bf44ceb" ∧
      (alteredDevice.rowsOf "request").rows.map Prod.snd = sampleRows false := by
    decide +kernel
  obtain ⟨htrue,hfalse,hrows⟩ := hhashes
  obtain ⟨db',hwrite⟩ := @exists_write rowCrates ⟨.empty,.empty⟩ "request" changesKind
    (sampleRows true) rfl
  have hexpected : ⟨(sampleRows true).length,
      rowCrates.sha256 (framing changesKind (sampleRows true))⟩ = sampleExpected := by
    rw [htrue]
    rfl
  rw [hexpected] at hwrite
  obtain ⟨texts,htexts,hreads,hrefuses,-⟩ := frozen_rows_replay_exactly hwrite
  have hsame : sampleRows true = texts := List.map_injective_iff.mpr (fun _ _ => Except.ok.inj) htexts
  refine ⟨db',hwrite,?_,?_⟩
  · rw [hreads, ← hsame]
    rfl
  · intro out hout
    have free : CollisionFree rowCrates {framing changesKind texts,
        framing changesKind ((alteredDevice.rowsOf "request").rows.map Prod.snd)} := by
      rw [← hsame, hrows]
      intro a ha b hb hab
      simp only [Set.mem_insert_iff, Set.mem_singleton_iff] at ha hb
      cases ha with
      | inl ha =>
        cases hb with
        | inl hb => rw [ha, hb]
        | inr hb =>
          rw [ha, hb, htrue, hfalse] at hab
          exact absurd hab (by decide)
      | inr ha =>
        cases hb with
        | inl hb =>
          rw [ha, hb, htrue, hfalse] at hab
          exact absurd hab (by decide)
        | inr hb => rw [ha, hb]
    have hstored := (hrefuses alteredDevice "request" changesKind _ collect [] out free hout).2
    have hlast := congrArg (List.map Prod.snd) hstored
    rw [hrows, map_snd_numbered, ← hsame] at hlast
    exact absurd hlast (by decide)

end RisuNest.Storage.Intents
