import RisuNest.Lib.LittleEndian

/-! Framed journals of the asset repository (`journal_frame.rs`) and how `job_pins.rs` opens one
after a crash. -/
namespace RisuNest.Storage.JournalFrame

def maxJournalRecordBytes : ℕ := 64*1024

structure JournalFrameLabels where
  recordTooLarge : String
  lengthInvalid : String
  checksumMismatch : String

/-- `serde_json` for the records of a journal, and SHA-256. -/
structure Codec (T : Type) where
  toVec : T → List UInt8
  fromSlice : List UInt8 → Except String T
  digest : List UInt8 → List UInt8

variable {T σ : Type}

structure Codec.Lawful (c : Codec T) : Prop where
  reads : ∀ r, c.fromSlice (c.toVec r) = .ok r
  digest : ∀ payload, (c.digest payload).length = 32

inductive ExactRead
  | complete (bytes rest : List UInt8)
  | cleanEof
  | short

def readExactOrEof (count : ℕ) (bytes : List UInt8) : ExactRead :=
  if count ≤ bytes.length then .complete (bytes.take count) (bytes.drop count)
  else if bytes = [] then .cleanEof
  else .short

/-- A record comes with the length of its frame and with what is after it. -/
inductive Scanned (T : Type)
  | clean
  | torn
  | record (r : T) (length : ℕ) (rest : List UInt8)

/-- A journal file, and how many of its bytes are on the disk. -/
structure Journal where
  bytes : List UInt8 := []
  synced : ℕ := 0

inductive Event (T : Type)
  | append (r : T) (sync : Bool)
  /-- The host stops, which leaves a first part of the bytes that were not synced, and the journal
  is opened again. An append that does not come to its sync is one without a sync. -/
  | crash (n : ℕ)

def Event.written : Event T → List T
  | .append r _ => [r]
  | .crash _ => []

def Event.acknowledged : Event T → List T
  | .append r true => [r]
  | _ => []

variable (c : Codec T) (labels : JournalFrameLabels)

def frame (record : T) : List UInt8 :=
  let payload := c.toVec record
  toLittleEndian 4 payload.length ++ payload ++ c.digest payload

/-- The bytes that `write_frame` appends. -/
def writeFrame (record : T) : Except String (List UInt8) :=
  if maxJournalRecordBytes < (c.toVec record).length then .error labels.recordTooLarge
  else .ok (frame c record)

/-- One round of the loop of `scan_frames`. -/
def scanFrame (bytes : List UInt8) : Except String (Scanned T) :=
  match readExactOrEof 4 bytes with
  | .cleanEof => .ok .clean
  | .short => .ok .torn
  | .complete lengthBytes rest =>
    let length := littleEndian lengthBytes
    if maxJournalRecordBytes < length then .error labels.lengthInvalid
    else match readExactOrEof length rest with
    | .complete payload rest =>
      match readExactOrEof 32 rest with
      | .complete checksum rest =>
        if c.digest payload ≠ checksum then .error labels.checksumMismatch
        else do
          let record ← c.fromSlice payload
          .ok (.record record (36 + length) rest)
      | _ => .ok .torn
    | _ => .ok .torn

/-- `scan_frames` from a place on; every frame takes some bytes. -/
def scanFrom (visitor : σ → T → Except String σ) :
    ℕ → ℕ → List UInt8 → σ → Except String (σ × Option ℕ)
  | 0, _, _, s => .ok (s,none)
  | fuel+1, validLength, bytes, s => do
    match ← scanFrame c labels bytes with
    | .clean => .ok (s,none)
    | .torn => .ok (s,some validLength)
    | .record r length rest => do
      let s ← visitor s r
      scanFrom visitor fuel (validLength + length) rest s

def scanFrames (visitor : σ → T → Except String σ) (bytes : List UInt8) (s : σ) :
    Except String (σ × Option ℕ) :=
  scanFrom c labels visitor (bytes.length+1) 0 bytes s

def truncateToValidPrefix (j : Journal) (validLength : ℕ) : Journal :=
  ⟨j.bytes.take validLength,validLength⟩

variable (applyRecord : Option σ → T → Except String (Option σ))

/-- The state of a job from its records. -/
def replay (records : List T) : Except String σ := do
  let some state ← records.foldlM applyRecord none | .error "CAS job journal is empty"
  .ok state

def inspectJobState (bytes : List UInt8) : Except String (σ × Option ℕ) := do
  let (some state,incompleteTail) ← scanFrames c labels applyRecord bytes none
    | .error "CAS job journal is empty"
  .ok (state,incompleteTail)

/-- `DurableCasJob::open`. -/
def openJournal (j : Journal) : Except String Journal := do
  let (_,incompleteTail) ← inspectJobState c labels applyRecord j.bytes
  .ok (incompleteTail.elim j (truncateToValidPrefix j))

def Journal.step (j : Journal) : Event T → Except String Journal
  | .append r sync => do
    let bytes := j.bytes ++ (← writeFrame c labels r)
    .ok ⟨bytes,if sync then bytes.length else j.synced⟩
  | .crash n => openJournal c labels applyRecord ⟨j.bytes.take (max n j.synced),j.synced⟩

def FitsFrame (record : T) : Prop := (c.toVec record).length ≤ maxJournalRecordBytes

def frames (records : List T) : List UInt8 := records.flatMap (frame c)

def Torn (tail : List UInt8) : Prop :=
  tail = [] ∨ ∃ r n, FitsFrame c r ∧ n < (frame c r).length ∧ tail = (frame c r).take n

variable {c labels applyRecord}

lemma length_frame (hc : c.Lawful) (r : T) : (frame c r).length = 36 + (c.toVec r).length := by
  simp [frame, hc.digest]
  omega

lemma readExactOrEof_append {count : ℕ} {a b : List UInt8} (h : a.length = count) :
    readExactOrEof count (a ++ b) = .complete a b := by
  subst h
  simp [readExactOrEof]

lemma readExactOrEof_short {count : ℕ} {bytes : List UInt8} (h : bytes.length < count) :
    readExactOrEof count bytes = if bytes = [] then .cleanEof else .short :=
  if_neg (Nat.not_le.mpr h)

lemma littleEndian_length {r : T} (hfits : FitsFrame c r) :
    littleEndian (toLittleEndian 4 (c.toVec r).length) = (c.toVec r).length := by
  unfold FitsFrame maxJournalRecordBytes at hfits
  rw [littleEndian_toLittleEndian, Nat.mod_eq_of_lt (by omega)]

lemma scanFrame_frame (hc : c.Lawful) {r : T} (hfits : FitsFrame c r) (rest : List UInt8) :
    scanFrame c labels (frame c r ++ rest) = .ok (.record r (frame c r).length rest) := by
  rw [scanFrame, length_frame hc, frame, List.append_assoc, List.append_assoc,
    readExactOrEof_append (length_toLittleEndian _ _)]
  dsimp only
  rw [littleEndian_length hfits, if_neg (Nat.not_lt.mpr hfits), readExactOrEof_append rfl]
  dsimp only
  rw [readExactOrEof_append (hc.digest _)]
  dsimp only
  rw [if_neg (not_not.mpr rfl), hc.reads]
  rfl

lemma scanFrame_torn (hc : c.Lawful) {tail : List UInt8} (h : Torn c tail) (hne : tail ≠ []) :
    scanFrame c labels tail = .ok .torn := by
  obtain ⟨r, n, hfits, hn, rfl⟩ := h.resolve_left hne
  rw [length_frame hc] at hn
  have hlength := length_toLittleEndian 4 (c.toVec r).length
  have hdigest := hc.digest (c.toVec r)
  unfold frame at hne ⊢
  unfold scanFrame
  by_cases hfour : n < 4
  · rw [readExactOrEof_short (by rw [List.length_take]; omega), if_neg hne]
  rw [List.append_assoc, List.take_append, List.take_of_length_le (by omega), hlength,
    readExactOrEof_append hlength]
  dsimp only
  rw [littleEndian_length hfits, if_neg (Nat.not_lt.mpr hfits)]
  by_cases hpayload : n - 4 < (c.toVec r).length
  · rw [readExactOrEof_short (by rw [List.length_take]; omega)]
    split_ifs <;> rfl
  · rw [List.take_append, List.take_of_length_le (by omega), readExactOrEof_append rfl]
    dsimp only
    rw [readExactOrEof_short (by rw [List.length_take]; omega)]
    split_ifs <;> rfl

lemma frames_cons (r : T) (records : List T) :
    frames c (r :: records) = frame c r ++ frames c records := List.flatMap_cons

/-- Whole frames are read, and a part of one is not. -/
lemma scanFrom_frames {visitor : σ → T → Except String σ} (hc : c.Lawful) {records : List T}
    (hfits : ∀ r ∈ records, FitsFrame c r) {tail : List UInt8} (ht : Torn c tail) {fuel : ℕ}
    (hfuel : (frames c records ++ tail).length < fuel) (validLength : ℕ) (s : σ) :
    scanFrom c labels visitor fuel validLength (frames c records ++ tail) s =
      (records.foldlM visitor s).map fun s =>
        (s,if tail = [] then none else some (validLength + (frames c records).length)) := by
  induction records generalizing fuel validLength s with
  | nil =>
    obtain _ | fuel := fuel
    · omega
    unfold scanFrom
    change (scanFrame c labels tail >>= _) = Except.ok (s,_)
    by_cases hempty : tail = []
    · rw [hempty, if_pos rfl]
      rfl
    · rw [scanFrame_torn hc ht hempty, if_neg hempty]
      rfl
  | cons r records ih =>
    obtain _ | fuel := fuel
    · omega
    have hframe := length_frame hc r
    rw [frames_cons, List.append_assoc] at hfuel ⊢
    unfold scanFrom
    rw [scanFrame_frame hc (hfits r List.mem_cons_self), List.foldlM_cons]
    change (visitor s r >>= _) = _
    cases hvisit : visitor s r with
    | error e => rfl
    | ok s' =>
      rw [List.length_append] at hfuel ⊢
      rw [← Nat.add_assoc]
      exact ih (fun q hq => hfits q (List.mem_cons_of_mem r hq)) (by omega) _ s'

lemma frames_append (a b : List T) : frames c (a ++ b) = frames c a ++ frames c b :=
  List.flatMap_append

/-- What is left of whole frames are whole frames and a part of one. -/
lemma take_frames {records : List T} (hfits : ∀ r ∈ records, FitsFrame c r) (m : ℕ) :
    ∃ q tail, q <+: records ∧ Torn c tail ∧ (frames c records).take m = frames c q ++ tail := by
  induction records generalizing m with
  | nil => exact ⟨[],[],List.prefix_rfl,.inl rfl,List.take_nil⟩
  | cons r records ih =>
    rw [frames_cons, List.take_append]
    by_cases hlt : m < (frame c r).length
    · rw [Nat.sub_eq_zero_of_le hlt.le, List.take_zero, List.append_nil]
      exact ⟨[],_,List.nil_prefix,.inr ⟨r,m,hfits r List.mem_cons_self,hlt,rfl⟩,rfl⟩
    · obtain ⟨q, tail, hq, ht, heq⟩ := ih (fun q hq => hfits q (List.mem_cons_of_mem r hq))
        (m - (frame c r).length)
      rw [List.take_of_length_le (Nat.le_of_not_lt hlt), heq, ← List.append_assoc, ← frames_cons]
      exact ⟨r :: q,tail,List.cons_prefix_cons.mpr ⟨rfl,hq⟩,ht,rfl⟩

/-- A journal holds what was acknowledged, and nothing that was not written; `p` is on the disk. -/
structure Holds (c : Codec T) (a w : List T) (j : Journal) (p l : List T) : Prop where
  bytes : j.bytes = frames c (p ++ l)
  synced : (frames c p).length ≤ j.synced
  acknowledged : a.Sublist p
  written : (p ++ l).Sublist w

lemma inspectJobState_frames (hc : c.Lawful) {records : List T}
    (hfits : ∀ r ∈ records, FitsFrame c r) {tail : List UInt8} (ht : Torn c tail) :
    inspectJobState c labels applyRecord (frames c records ++ tail) =
      (replay applyRecord records).map fun state =>
        (state,if tail = [] then none else some (frames c records).length) := by
  unfold inspectJobState replay scanFrames
  rw [scanFrom_frames hc hfits ht (Nat.lt_succ_self _), Nat.zero_add]
  cases records.foldlM applyRecord none with
  | error e => rfl
  | ok state => cases state <;> rfl

lemma openJournal_frames (hc : c.Lawful) {records : List T} (hfits : ∀ r ∈ records, FitsFrame c r)
    {tail : List UInt8} (ht : Torn c tail) (synced : ℕ) :
    openJournal c labels applyRecord ⟨frames c records ++ tail,synced⟩ =
      (replay applyRecord records).map fun _ =>
        ⟨frames c records,if tail = [] then synced else (frames c records).length⟩ := by
  unfold openJournal
  rw [inspectJobState_frames hc hfits ht]
  cases replay applyRecord records with
  | error e => rfl
  | ok state =>
    by_cases hempty : tail = []
    · rw [hempty, List.append_nil]
      rfl
    · simp [hempty, truncateToValidPrefix, Except.map, bind, Except.bind]

variable {a w p l : List T} {j : Journal}

lemma Holds.append (h : Holds c a w j p l) {r : T} (hfits : FitsFrame c r) (sync : Bool) :
    ∃ j' p' l', Holds c (a ++ (Event.append r sync).acknowledged) (w ++ [r]) j' p' l' ∧
      j.step c labels applyRecord (.append r sync) = .ok j' := by
  change ∃ j' p' l', _ ∧ (writeFrame c labels r >>= _) = _
  rw [writeFrame, if_neg (Nat.not_lt.mpr hfits)]
  have hbytes : j.bytes ++ frame c r = frames c (p ++ l ++ [r]) := by simp [frames, h.bytes]
  have hwritten := h.written.append (List.Sublist.refl [r])
  cases sync with
  | true =>
    rw [← List.append_nil (p ++ l ++ [r])] at hbytes hwritten
    exact ⟨⟨_,_⟩,p ++ l ++ [r],[],⟨hbytes,by simp [hbytes],
      (h.acknowledged.trans (List.sublist_append_left p l)).append (List.Sublist.refl [r]),
      hwritten⟩,rfl⟩
  | false =>
    rw [List.append_assoc] at hbytes hwritten
    exact ⟨⟨_,_⟩,p,l ++ [r],
      ⟨hbytes,h.synced,(List.append_nil a).symm ▸ h.acknowledged,hwritten⟩,rfl⟩

lemma Holds.crash (hc : c.Lawful) (hfits : ∀ r ∈ w, FitsFrame c r) (h : Holds c a w j p l) (n : ℕ) :
    ∃ j' l', Holds c a w j' p l' ∧
      j.step c labels applyRecord (.crash n) = (replay applyRecord (p ++ l')).map fun _ => j' := by
  have hrest := fun r hr => hfits r (h.written.subset (List.mem_append_right p hr))
  obtain ⟨q, tail, hq, ht, heq⟩ := take_frames hrest (max n j.synced - (frames c p).length)
  have hwritten := ((List.prefix_append_right_inj p).mpr hq).sublist.trans h.written
  change ∃ j' l', _ ∧ openJournal c labels applyRecord ⟨j.bytes.take (max n j.synced),_⟩ = _
  rw [h.bytes, frames_append, List.take_append,
    List.take_of_length_le (h.synced.trans (le_max_right _ _)), heq, ← List.append_assoc,
    ← frames_append, openJournal_frames hc (fun r hr => hfits r (hwritten.subset hr)) ht]
  refine ⟨_,q,⟨rfl,?_,h.acknowledged,hwritten⟩,rfl⟩
  dsimp only
  split_ifs
  · exact h.synced
  · simp [frames]

lemma Holds.run (hc : c.Lawful) {events : List (Event T)}
    (hfits : ∀ r ∈ w ++ events.flatMap Event.written, FitsFrame c r) (h : Holds c a w j p l) :
    (∃ j' p' l', Holds c (a ++ events.flatMap Event.acknowledged)
        (w ++ events.flatMap Event.written) j' p' l' ∧
      events.foldlM (Journal.step c labels applyRecord) j = .ok j') ∨
    ∃ (l' : List T) (e : String), l'.Sublist (w ++ events.flatMap Event.written) ∧
      replay applyRecord l' = .error e ∧
      events.foldlM (Journal.step c labels applyRecord) j = .error e := by
  induction events generalizing a w p l j with
  | nil =>
    simp only [List.flatMap_nil, List.append_nil]
    exact .inl ⟨j,p,l,h,rfl⟩
  | cons e events ih =>
    rw [List.flatMap_cons, ← List.append_assoc] at hfits ⊢
    rw [List.flatMap_cons, List.foldlM_cons, ← List.append_assoc]
    cases e with
    | append r sync =>
      obtain ⟨j', p', l', hholds, hstep⟩ := h.append (hfits r (by simp [Event.written])) sync
      rw [hstep]
      exact ih hfits hholds
    | crash n =>
      simp only [Event.acknowledged, Event.written, List.append_nil] at hfits ⊢
      obtain ⟨j', l', hholds, hstep⟩ :=
        h.crash hc (fun r hr => hfits r (List.mem_append_left _ hr)) n
      rw [hstep]
      cases hfold : replay applyRecord (p ++ l') with
      | ok state => exact ih hfits hholds
      | error e =>
        exact .inr ⟨_,e,hholds.written.trans (List.sublist_append_left _ _),hfold,rfl⟩

end RisuNest.Storage.JournalFrame
