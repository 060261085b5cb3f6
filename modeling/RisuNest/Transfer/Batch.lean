import RisuNest.Transfer.Delta

/-! Batches of objects on the wire (`transfer.rs`). -/
namespace RisuNest.Transfer.Batch
open Wire Recipe

def maxBatchBytes : ℕ := 8*1024*1024
def maxBatchObjects : ℕ := 1024

/-- The reply target: a body of 4 MiB, the 45 bytes of its frame and the header of the batch. -/
def preferredBatchBytes : ℕ := 4*1024*1024 + 53

def maxRestoredBytes : ℕ := 32*1024*1024

inductive Frame
  | full (bytes : Bytes)
  | delta (recipe : Recipe)
  | fullRequired (hash : String) (size : ℕ)
  deriving DecidableEq

/-- The size of a frame that is only announced is a `u64`. -/
def Frame.Typed : Frame → Prop
  | .fullRequired _ size => size < 2^64
  | _ => True

/-- `RNSB` -/
def magic : Bytes := [82,78,83,66]

section
variable (cr : Crates)

/-- The length of a frame without the number in front of it. -/
def payloadLen : Frame → Result ℕ
  | .full bytes => .ok (41 + bytes.length)
  | .delta recipe => do
    let length ← Delta.encodedLen recipe
    pure (length + 1)
  | .fullRequired digest _ => do
    validateHash digest
    pure 41

/-- The loop of `encoded_len`. -/
def framesLen : List Frame → ℕ → Result ℕ
  | [], length => .ok length
  | frame :: frames, length => do
    let payload ← payloadLen frame
    require (length + 4 + payload ≤ maxBatchBytes) ⟨"batch-too-large"⟩
    framesLen frames (length + 4 + payload)

def encodedLen (frames : List Frame) : Result ℕ := do
  require (frames.length ≤ maxBatchObjects) ⟨"too-many-frames"⟩
  framesLen frames 8

/-- A frame without the number in front of it. -/
def putPayload : Frame → Result Bytes
  | .full bytes => .ok (toBigEndian 1 0 ++ (putHash (hash cr bytes).toList ++
      (toBigEndian 8 bytes.length ++ bytes)))
  | .delta recipe => do
    let bytes ← Delta.encode recipe
    pure (toBigEndian 1 1 ++ bytes)
  | .fullRequired digest size => do
    validateHash digest
    pure (toBigEndian 1 2 ++ (putHash digest.toList ++ toBigEndian 8 size))

/-- The loop of `encode`, after the output so far. -/
def putFrames : List Frame → Bytes → Result Bytes
  | [], out => .ok out
  | frame :: frames, out => do
    let payload ← putPayload cr frame
    require (out.length + 4 + payload.length ≤ maxBatchBytes) ⟨"batch-too-large"⟩
    putFrames frames (out ++ (toBigEndian 4 payload.length ++ payload))

def encode (frames : List Frame) : Result Bytes := do
  require (frames.length ≤ maxBatchObjects) ⟨"too-many-frames"⟩
  putFrames cr frames (magic ++ toBigEndian 4 frames.length)

/-- What stands between the codec of a frame and its end. -/
def takePayload (payload : Bytes) : Result Frame := do
  let (codec, payload) ← takeNumber 1 payload
  if codec = 0 ∨ codec = 2 then do
    let (digest, payload) ← takeHash payload
    let (size, payload) ← takeNumber 8 payload
    if codec = 2 then do
      require (payload = []) ⟨"trailing-bytes"⟩
      pure (.fullRequired digest size)
    else do
      require (size ≤ maxBatchBytes) ⟨"frame-too-large"⟩
      let (bytes, payload) ← takeBytes size payload
      require (hash cr bytes = digest) ⟨"hash-mismatch"⟩
      require (payload = []) ⟨"trailing-bytes"⟩
      pure (.full bytes)
  else if codec = 1 then do
    let recipe ← Delta.decode payload
    pure (.delta recipe)
  else .error ⟨"unsupported-codec"⟩

def takeFrame (input : Bytes) : Result (Frame × Bytes) := do
  let (size, input) ← takeNumber 4 input
  let (payload, input) ← takeBytes size input
  let frame ← takePayload cr payload
  pure (frame,input)

/-- What a frame restores. -/
def Frame.restored : Frame → ℕ
  | .full bytes => bytes.length
  | .delta recipe => recipe.targetSize
  | .fullRequired _ _ => 0

/-- The loop of `decode`, with what the frames so far restore. -/
def takeFrames : ℕ → ℕ → Bytes → Result (List Frame × Bytes)
  | 0, _, input => .ok ([],input)
  | count+1, restored, input => do
    let (frame, input) ← takeFrame cr input
    require (restored + frame.restored ≤ maxRestoredBytes) ⟨"batch-materialization-limit"⟩
    let (frames, input) ← takeFrames count (restored + frame.restored) input
    pure (frame :: frames,input)

def decode (bytes : Bytes) : Result (List Frame) := do
  require (bytes.length ≤ maxBatchBytes) ⟨"batch-too-large"⟩
  let (head, input) ← takeBytes 4 bytes
  require (head = magic) ⟨"invalid-magic"⟩
  let (count, input) ← takeNumber 4 input
  require (count ≤ maxBatchObjects) ⟨"too-many-frames"⟩
  let (frames, input) ← takeFrames cr count 0 input
  require (input = []) ⟨"trailing-bytes"⟩
  pure frames

variable {cr}

/-! ### Lengths -/

lemma payloadLen_eq_ok (hhex : ∀ b, validateHash (cr.sha256 b) = .ok ()) {frame : Frame} {n : ℕ} :
    payloadLen frame = .ok n ↔ ∃ payload, putPayload cr frame = .ok payload ∧ payload.length = n := by
  cases frame with
  | full bytes =>
    have hlen := length_putHash (hhex bytes)
    change Except.ok (41 + bytes.length) = .ok n ↔
      ∃ payload, Except.ok (toBigEndian 1 0 ++ (putHash (cr.sha256 bytes).toList ++
        (toBigEndian 8 bytes.length ++ bytes))) = Except.ok payload ∧ _
    have hn : (toBigEndian 1 0 ++ (putHash (cr.sha256 bytes).toList ++
        (toBigEndian 8 bytes.length ++ bytes))).length = 41 + bytes.length := by
      simp only [List.length_append, length_toBigEndian, hlen]
      omega
    constructor
    · intro h
      exact ⟨_,rfl,hn.trans (Except.ok.inj h)⟩
    · rintro ⟨_,h,rfl⟩
      rw [← Except.ok.inj h, hn]
  | delta recipe =>
    simp only [payloadLen, putPayload, bind_eq_ok, Delta.encodedLen_eq_ok, pure, Except.pure, Except.ok.injEq]
    constructor
    · rintro ⟨_,⟨bytes,hb,rfl⟩,rfl⟩
      refine ⟨_,⟨bytes,hb,rfl⟩,?_⟩
      rw [List.length_append, length_toBigEndian, Nat.add_comm]
    · rintro ⟨_,⟨bytes,hb,rfl⟩,rfl⟩
      refine ⟨_,⟨bytes,hb,rfl⟩,?_⟩
      rw [List.length_append, length_toBigEndian, Nat.add_comm]
  | fullRequired digest size =>
    simp only [payloadLen, putPayload, bind_eq_ok, pure, Except.pure, Except.ok.injEq]
    constructor
    · rintro ⟨_,hd,rfl⟩
      refine ⟨_,⟨_,hd,rfl⟩,?_⟩
      simp only [List.length_append, length_toBigEndian, length_putHash hd]
    · rintro ⟨_,⟨_,hd,rfl⟩,rfl⟩
      refine ⟨_,hd,?_⟩
      simp only [List.length_append, length_toBigEndian, length_putHash hd]

lemma framesLen_eq_ok (hhex : ∀ b, validateHash (cr.sha256 b) = .ok ()) {frames : List Frame}
    {out : Bytes} {n : ℕ} : framesLen frames out.length = .ok n ↔
      ∃ bytes, putFrames cr frames out = .ok bytes ∧ bytes.length = n := by
  induction frames generalizing out with
  | nil =>
    simp only [framesLen, putFrames, Except.ok.injEq]
    exact ⟨fun h => ⟨out,rfl,h⟩,fun ⟨bytes,h,hn⟩ => by rw [h, hn]⟩
  | cons frame frames ih =>
    have hlen (payload : Bytes) : (out ++ (toBigEndian 4 payload.length ++ payload)).length =
        out.length + 4 + payload.length := by
      rw [List.length_append, List.length_append, length_toBigEndian, Nat.add_assoc]
    rw [framesLen, putFrames]
    simp only [bind_eq_ok, payloadLen_eq_ok hhex]
    constructor
    · rintro ⟨_,⟨payload,hp,rfl⟩,_,hr,h⟩
      rw [← hlen, ih] at h
      obtain ⟨bytes,hb,hn⟩ := h
      exact ⟨bytes,⟨payload,hp,(),hr,hb⟩,hn⟩
    · rintro ⟨bytes,⟨payload,hp,_,hr,hb⟩,hn⟩
      refine ⟨_,⟨payload,hp,rfl⟩,(),hr,?_⟩
      rw [← hlen, ih]
      exact ⟨bytes,hb,hn⟩

theorem encodedLen_eq_ok (hhex : ∀ b, validateHash (cr.sha256 b) = .ok ()) {frames : List Frame}
    {n : ℕ} : encodedLen frames = .ok n ↔
      ∃ bytes, encode cr frames = .ok bytes ∧ bytes.length = n := by
  have hhead : 8 = (magic ++ toBigEndian 4 frames.length).length := by
    rw [List.length_append, length_toBigEndian]
    rfl
  unfold encodedLen encode
  simp only [bind_eq_ok]
  constructor
  · rintro ⟨_,hr,h⟩
    rw [hhead, framesLen_eq_ok hhex] at h
    obtain ⟨bytes,hb,hn⟩ := h
    exact ⟨bytes,⟨(),hr,hb⟩,hn⟩
  · rintro ⟨bytes,⟨_,hr,hb⟩,hn⟩
    refine ⟨(),hr,?_⟩
    rw [hhead, framesLen_eq_ok hhex]
    exact ⟨bytes,hb,hn⟩

/-! ### Reading what was written -/

lemma takePayload_putPayload (hhex : ∀ b, validateHash (cr.sha256 b) = .ok ()) {frame : Frame}
    (ht : frame.Typed) {payload : Bytes} (hp : putPayload cr frame = .ok payload)
    (hs : payload.length ≤ maxBatchBytes) : takePayload cr payload = .ok frame := by
  cases frame with
  | full bytes =>
    obtain rfl := Except.ok.inj hp
    have hle : bytes.length ≤ maxBatchBytes := by
      refine Nat.le_trans ?_ hs
      simp only [List.length_append]
      omega
    refine bind_eq_ok.mpr ⟨_,(framing_number 1).reads (by decide) _,?_⟩
    refine bind_eq_ok.mpr ⟨_,framing_hash.reads (hhex bytes) _,?_⟩
    have hwide : bytes.length < 256^8 := Nat.lt_of_le_of_lt hle (by decide)
    refine bind_eq_ok.mpr ⟨_,(framing_number 8).reads hwide _,?_⟩
    refine bind_eq_ok.mpr ⟨(),require_eq_ok.mpr hle,?_⟩
    have hread := (framing_bytes bytes.length).reads rfl []
    rw [List.append_nil] at hread
    refine bind_eq_ok.mpr ⟨_,hread,?_⟩
    exact bind_eq_ok.mpr ⟨(),require_eq_ok.mpr rfl,bind_eq_ok.mpr ⟨(),require_eq_ok.mpr rfl,rfl⟩⟩
  | delta recipe =>
    obtain ⟨bytes,hb,h⟩ := bind_eq_ok.mp hp
    obtain rfl := Except.ok.inj h
    refine bind_eq_ok.mpr ⟨_,(framing_number 1).reads (by decide) _,?_⟩
    exact bind_eq_ok.mpr ⟨_,Delta.decode_encode hb,rfl⟩
  | fullRequired digest size =>
    obtain ⟨_,hd,h⟩ := bind_eq_ok.mp hp
    obtain rfl := Except.ok.inj h
    refine bind_eq_ok.mpr ⟨_,(framing_number 1).reads (by decide) _,?_⟩
    refine bind_eq_ok.mpr ⟨_,framing_hash.reads hd _,?_⟩
    have hread := (framing_number 8).reads ht []
    rw [List.append_nil] at hread
    refine bind_eq_ok.mpr ⟨_,hread,?_⟩
    exact bind_eq_ok.mpr ⟨(),require_eq_ok.mpr rfl,rfl⟩

lemma takeFrame_put (hhex : ∀ b, validateHash (cr.sha256 b) = .ok ()) {frame : Frame}
    (ht : frame.Typed) {payload : Bytes} (hp : putPayload cr frame = .ok payload)
    (hs : payload.length ≤ maxBatchBytes) (rest : Bytes) :
    takeFrame cr (toBigEndian 4 payload.length ++ payload ++ rest) = .ok (frame,rest) := by
  rw [List.append_assoc]
  have hwide : payload.length < 256^4 := Nat.lt_of_le_of_lt hs (by decide)
  refine bind_eq_ok.mpr ⟨_,(framing_number 4).reads hwide _,?_⟩
  refine bind_eq_ok.mpr ⟨_,(framing_bytes payload.length).reads rfl _,?_⟩
  exact bind_eq_ok.mpr ⟨_,takePayload_putPayload hhex ht hp hs,rfl⟩

/-- What some frames restore together. -/
def restoredSum (frames : List Frame) : ℕ := (frames.map Frame.restored).sum

lemma takeFrames_putFrames (hhex : ∀ b, validateHash (cr.sha256 b) = .ok ()) {frames : List Frame}
    (ht : ∀ frame ∈ frames, frame.Typed) {out bytes : Bytes}
    (h : putFrames cr frames out = .ok bytes) :
    (frames ≠ [] → bytes.length ≤ maxBatchBytes) ∧ ∃ tail, bytes = out ++ tail ∧
      ∀ restored, restored + restoredSum frames ≤ maxRestoredBytes →
        takeFrames cr frames.length restored tail = .ok (frames,[]) := by
  induction frames generalizing out with
  | nil =>
    obtain rfl := Except.ok.inj h
    exact ⟨fun hne => absurd rfl hne,[],(List.append_nil _).symm,fun _ _ => rfl⟩
  | cons frame frames ih =>
    obtain ⟨ht,hts⟩ := List.forall_mem_cons.mp ht
    obtain ⟨payload,hp,h⟩ := bind_eq_ok.mp h
    obtain ⟨_,hr,h⟩ := bind_eq_ok.mp h
    have hr := require_eq_ok.mp hr
    obtain ⟨hlen,tail,rfl,htail⟩ := ih hts h
    refine ⟨fun _ => ?_,toBigEndian 4 payload.length ++ payload ++ tail,?_,fun restored hle => ?_⟩
    · by_cases hnil : frames = []
      · subst hnil
        rw [← Except.ok.inj h, List.length_append, List.length_append, length_toBigEndian,
          ← Nat.add_assoc]
        exact hr
      · exact hlen hnil
    · simp only [List.append_assoc]
    · rw [restoredSum, List.map_cons, List.sum_cons, ← Nat.add_assoc] at hle
      have hfirst : restored + frame.restored ≤ maxRestoredBytes := by omega
      have hs : payload.length ≤ maxBatchBytes := by omega
      refine bind_eq_ok.mpr ⟨_,takeFrame_put hhex ht hp hs tail,?_⟩
      refine bind_eq_ok.mpr ⟨(),require_eq_ok.mpr hfirst,?_⟩
      exact bind_eq_ok.mpr ⟨_,htail _ hle,rfl⟩

/-- What was encoded is read back as long as it restores no more than the decoder takes. -/
theorem decode_of_encode (hhex : ∀ b, validateHash (cr.sha256 b) = .ok ()) {frames : List Frame}
    {bytes : Bytes} (ht : ∀ frame ∈ frames, frame.Typed) (h : encode cr frames = .ok bytes)
    (hle : restoredSum frames ≤ maxRestoredBytes) : decode cr bytes = .ok frames := by
  obtain ⟨_,hfew,h⟩ := bind_eq_ok.mp h
  have hfew := require_eq_ok.mp hfew
  obtain ⟨hlen,tail,rfl,htail⟩ := takeFrames_putFrames hhex ht h
  have hmax : (magic ++ toBigEndian 4 frames.length ++ tail).length ≤ maxBatchBytes := by
    by_cases hnil : frames = []
    · subst hnil
      rw [← Except.ok.inj h]
      decide
    · exact hlen hnil
  refine bind_eq_ok.mpr ⟨(),require_eq_ok.mpr hmax,?_⟩
  rw [List.append_assoc]
  refine bind_eq_ok.mpr ⟨_,(framing_bytes 4).reads rfl _,?_⟩
  refine bind_eq_ok.mpr ⟨(),require_eq_ok.mpr rfl,?_⟩
  have hcount : frames.length < 256^4 := Nat.lt_of_le_of_lt hfew (by decide)
  refine bind_eq_ok.mpr ⟨_,(framing_number 4).reads hcount _,?_⟩
  refine bind_eq_ok.mpr ⟨(),require_eq_ok.mpr hfew,?_⟩
  refine bind_eq_ok.mpr ⟨_,htail 0 ((Nat.zero_add _).le.trans hle),?_⟩
  exact bind_eq_ok.mpr ⟨(),require_eq_ok.mpr rfl,rfl⟩

end

def sampleDigest : String := "e3b0c44298fc1c149afbf4c8996fb92427ae41e4649b934ca495991b7852b855"

def sampleCrates : Crates := { tabulated [] [] [] with sha256 := fun _ => sampleDigest }

end RisuNest.Transfer.Batch
