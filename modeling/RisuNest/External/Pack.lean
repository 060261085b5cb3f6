import RisuNest.External.Catalog
import RisuNest.Lib.Segments
import RisuNest.Lib.Sources
import Mathlib.Data.Nat.Digits.Defs

/-! Packs: a source is cut into chunks, and each chunk is kept compressed or as it is behind its
lengths and its hash (`pack.rs`). -/
namespace RisuNest.External.Pack
open PublishedCatalog (leBytes)

structure FormatError where
  code : String
  deriving DecidableEq, Repr

abbrev Formatted := Except FormatError

/-- `[u8; 32]` -/
abbrev Hash := {bytes : List UInt8 // bytes.length = 32}

/-- What the formats take from other crates. -/
structure PackCrates where
  /-- `Sha256::digest` -/
  sha256 : List UInt8 → Hash
  /-- `zstd::bulk::Compressor::compress` -/
  compress : List UInt8 → Formatted (List UInt8)
  /-- What `zstd::stream::read::Decoder` gives of a single frame up to so many bytes, and what
  `finish` leaves of the payload. -/
  decode : List UInt8 → ℕ → Formatted (List UInt8 × List UInt8)

/-- The bytes every frame starts with. -/
def magic : List UInt8 := [0x28,0xb5,0x2f,0xfd]

def maxChunkBytes : ℕ := 1024*1024

def entryOverhead : ℕ := 8 + 8 + 32

def rawCodec : UInt8 := 0

def zstdCodec : UInt8 := 1

inductive CompressionPolicy
  | text
  | alreadyCompressed
  deriving DecidableEq, Repr

structure Chunk where
  hash : Hash
  bytes : List UInt8
  deriving DecidableEq

/-- `object-unexpected-eof`, what `read_exact` fails with. -/
def unexpectedEof : FormatError := ⟨"object-unexpected-eof"⟩

/-- A reader whose failures are already those of the formats. -/
abbrev Reader (σ : Type) := Source UInt8 σ FormatError

section
variable (cr : PackCrates)

def encode (bytes : List UInt8) (policy : CompressionPolicy) : Formatted (List UInt8) := do
  require (bytes.length ≤ maxChunkBytes) ⟨"chunk-limit-exceeded"⟩
  match policy with
  | .text => do
    let compressed ← cr.compress bytes
    if compressed.length < bytes.length then pure (zstdCodec :: compressed)
    else pure (rawCodec :: bytes)
  | .alreadyCompressed => pure (rawCodec :: bytes)

/-- What a payload of this codec unpacks to. -/
def unpack (codec : UInt8) (payload : List UInt8) (expectedLength : ℕ) :
    Formatted (List UInt8) :=
  if codec = rawCodec then do
    require (payload.length = expectedLength) ⟨"chunk-length-mismatch"⟩
    pure payload
  else if codec = zstdCodec then do
    require (payload.take 4 = magic) ⟨"invalid-zstd-frame"⟩
    let (output, rest) ← cr.decode payload (expectedLength + 1)
    require (rest = []) ⟨"trailing-compressed-bytes"⟩
    pure output
  else .error ⟨"unsupported-chunk-codec"⟩

def decompress (bytes : List UInt8) (expectedLength : ℕ) (expectedHash : Hash) :
    Formatted (List UInt8) := do
  require (expectedLength ≤ maxChunkBytes ∧ bytes.length ≤ maxChunkBytes + 1)
    ⟨"chunk-limit-exceeded"⟩
  match bytes with
  | [] => .error ⟨"missing-chunk-codec"⟩
  | codec :: payload => do
    let output ← unpack cr codec payload expectedLength
    require (output.length = expectedLength ∧ cr.sha256 output = expectedHash)
      ⟨"compressed-chunk-integrity-failed"⟩
    pure output

/-- The chunk of some bytes. -/
def chunkOf (bytes : List UInt8) : Chunk := ⟨cr.sha256 bytes,bytes⟩

/-- The loop of `chunks`. -/
def cut {σ τ : Type} (r : Reader σ) (chunkBytes : ℕ) (consume : τ → Chunk → Formatted τ) (s : σ)
    (t : τ) : Formatted (τ × σ) :=
  match _ : r.fill s chunkBytes with
  | .error e => .error e
  | .ok (bytes, s') =>
    if _ : bytes = [] then .ok (t,s')
    else consume t (chunkOf cr bytes) >>= cut r chunkBytes consume s'
termination_by (r.left s).length
decreasing_by
  rename_i hfill hbytes
  obtain ⟨rfl, hleft⟩ := Source.fill_eq_ok hfill
  rw [hleft, List.length_drop]
  have := List.length_pos_of_ne_nil hbytes
  rw [List.length_take] at this
  omega

/-- `chunks`, with what the consumer keeps. -/
def chunks {σ τ : Type} (r : Reader σ) (chunkBytes : ℕ) (consume : τ → Chunk → Formatted τ) (s : σ)
    (t : τ) : Formatted (τ × σ) := do
  require (chunkBytes ≠ 0 ∧ chunkBytes ≤ maxChunkBytes) ⟨"invalid-chunk-limit"⟩
  cut cr r chunkBytes consume s t

/-- `write_entry_with` to a writer of bytes. It also gives the number of bytes it wrote. -/
def writeEntryWith (out : List UInt8) (chunk : Chunk) (policy : CompressionPolicy) :
    Formatted (List UInt8 × ℕ) := do
  require (chunk.bytes.length ≤ maxChunkBytes ∧ cr.sha256 chunk.bytes = chunk.hash)
    ⟨"invalid-chunk"⟩
  let encoded ← encode cr chunk.bytes policy
  pure (out ++ leBytes chunk.bytes.length ++ leBytes encoded.length ++ chunk.hash.val ++ encoded,
    entryOverhead + encoded.length)

def writeEntry (out : List UInt8) (chunk : Chunk) : Formatted (List UInt8 × ℕ) :=
  writeEntryWith cr out chunk .text

/-- `u64::from_le_bytes` -/
def ofLeBytes (bytes : List UInt8) : ℕ := Nat.ofDigits 256 (bytes.map UInt8.toNat)

def readEntry {σ : Type} (r : Reader σ) (maxBytes : ℕ) (s : σ) : Formatted (Chunk × σ) := do
  let (length, s) ← r.readExact unexpectedEof s 8
  let length := ofLeBytes length.val
  require (length ≤ min maxBytes maxChunkBytes) ⟨"chunk-limit-exceeded"⟩
  let (encodedLength, s) ← r.readExact unexpectedEof s 8
  let encodedLength := ofLeBytes encodedLength.val
  require (encodedLength ≠ 0 ∧ encodedLength ≤ length + 1) ⟨"chunk-limit-exceeded"⟩
  let (expected, s) ← r.readExact unexpectedEof s 32
  let (encoded, s) ← r.readExact unexpectedEof s encodedLength
  let bytes ← decompress cr encoded.val length expected
  pure (⟨expected,bytes⟩,s)

/-- The entries of a pack, one after the other. -/
def readEntries {σ : Type} (r : Reader σ) (maxBytes : ℕ) : ℕ → σ → Formatted (List Chunk × σ)
  | 0, s => .ok ([],s)
  | count+1, s => do
    let (chunk, s) ← readEntry cr r maxBytes s
    let (rest, s) ← readEntries r maxBytes count s
    pure (chunk :: rest,s)

/-- The chunks of some bytes. -/
def chunksOf (chunkBytes : ℕ) (bytes : List UInt8) : List Chunk :=
  (Segments.segments (fun _ => chunkBytes - 1) bytes).map (chunkOf cr)

/-- Every chunk is written as it is cut, and the number of its bytes kept. -/
def writeTo (policy : CompressionPolicy) (t : List UInt8 × List ℕ) (chunk : Chunk) :
    Formatted (List UInt8 × List ℕ) := do
  let (out, count) ← writeEntryWith cr t.1 chunk policy
  pure (out,t.2 ++ [count])

/-- What zstd is relied on for: a chunk is compressed to a frame, and a decoder that may give a
byte more than the chunk has gives the chunk and leaves nothing of the frame. -/
def RoundTrips : Prop :=
  ∀ bytes : List UInt8, bytes.length ≤ maxChunkBytes → ∃ frame, cr.compress bytes = .ok frame ∧
    frame.take 4 = magic ∧ cr.decode frame (bytes.length + 1) = .ok (bytes,[])

variable {cr}

/-! ### Cutting -/

lemma flatten_chunksOf (chunkBytes : ℕ) (bytes : List UInt8) :
    ((chunksOf cr chunkBytes bytes).map Chunk.bytes).flatten = bytes := by
  have hbytes : Chunk.bytes ∘ chunkOf cr = id := by
    funext bytes
    rfl
  rw [chunksOf, List.map_map, hbytes, List.map_id, Segments.flatten_segments]

lemma chunksOf_cons (k : ℕ) (a : UInt8) (l : List UInt8) :
    chunksOf cr (k+1) (a :: l) = chunkOf cr (a :: l.take k) :: chunksOf cr (k+1) (l.drop k) := by
  rw [chunksOf, Segments.segments_cons]
  rfl

lemma of_mem_chunksOf {chunkBytes : ℕ} (h : 0 < chunkBytes) {bytes : List UInt8} {c : Chunk}
    (hc : c ∈ chunksOf cr chunkBytes bytes) :
    chunkOf cr c.bytes = c ∧ c.bytes.length ≤ chunkBytes := by
  obtain ⟨piece, hpiece, rfl⟩ := List.mem_map.mp hc
  refine ⟨rfl,?_⟩
  apply Segments.forall_mem_segments (P := fun piece => piece.length ≤ chunkBytes) ?_ hpiece
  intro a l
  rw [List.length_cons, List.length_take]
  omega

lemma cut_eq {σ τ : Type} {r : Reader σ} (hr : r.Steady) {chunkBytes : ℕ} (h : 0 < chunkBytes)
    (consume : τ → Chunk → Formatted τ) (s : σ) (t : τ) :
    (cut cr r chunkBytes consume s t).map Prod.fst =
      (chunksOf cr chunkBytes (r.left s)).foldlM consume t := by
  induction hlen : (r.left s).length using Nat.strongRecOn generalizing s t with
  | ind n ih =>
    obtain ⟨s', hfill, hleft⟩ := Source.exists_fill hr s chunkBytes
    rw [cut]
    split
    · rename_i hf
      rw [hfill] at hf
      cases hf
    · rename_i bytes u hf
      rw [hfill] at hf
      obtain ⟨rfl, rfl⟩ := Prod.mk.inj (Except.ok.inj hf)
      cases hs : r.left s with
      | nil =>
        rw [dif_pos List.take_nil, chunksOf, Segments.segments_nil]
        rfl
      | cons a l =>
        obtain ⟨k, rfl⟩ := Nat.exists_eq_add_one_of_ne_zero h.ne'
        rw [hs, List.drop_succ_cons] at hleft
        rw [dif_neg (by simp), chunksOf_cons, List.foldlM_cons, List.take_succ_cons]
        cases consume t (chunkOf cr (a :: l.take k)) with
        | error e => rfl
        | ok t' =>
          change (cut cr r (k+1) consume s' t').map Prod.fst = _
          rw [ih (r.left s').length ?_ s' t' rfl, hleft]
          · rfl
          · rw [hleft, ← hlen, hs, List.length_drop, List.length_cons]
            omega

/-! ### Entries -/

lemma ofLeBytes_range (k n : ℕ) :
    ofLeBytes ((List.range k).map fun i => UInt8.ofNat (n / 256^i)) = n % 256^k := by
  have hbytes : ((List.range k).map fun i => UInt8.ofNat (n / 256^i)).map UInt8.toNat =
      (List.range k).map fun i => n / 256^i % 256 := by
    rw [List.map_map]
    rfl
  rw [ofLeBytes, hbytes]
  clear hbytes
  induction k with
  | zero => simp [Nat.mod_one]
  | succ k ih =>
    rw [List.range_succ, List.map_append, Nat.ofDigits_append, ih, List.length_map,
      List.length_range, Nat.mod_pow_succ]
    simp

lemma ofLeBytes_leBytes {n : ℕ} (h : n < 2^64) : ofLeBytes (leBytes n) = n := by
  have hbytes := ofLeBytes_range 8 n
  rw [Nat.mod_eq_of_lt (by omega)] at hbytes
  exact hbytes

lemma length_leBytes (n : ℕ) : (leBytes n).length = 8 := rfl

lemma decompress_cons {codec : UInt8} {payload bytes : List UInt8}
    (h : bytes.length ≤ maxChunkBytes) (hle : payload.length ≤ bytes.length)
    (hunpack : unpack cr codec payload bytes.length = .ok bytes) :
    decompress cr (codec :: payload) bytes.length (cr.sha256 bytes) = .ok bytes := by
  have hlimit : bytes.length ≤ maxChunkBytes ∧ (codec :: payload).length ≤ maxChunkBytes + 1 := by
    rw [List.length_cons]
    omega
  unfold decompress
  rw [require_eq_ok.mpr hlimit]
  change (unpack cr codec payload bytes.length >>= _) = _
  rw [hunpack]
  change (require _ _ >>= fun _ => _) = _
  rw [require_eq_ok.mpr ⟨rfl,rfl⟩]
  rfl

lemma exists_encode (hz : RoundTrips cr) {bytes : List UInt8} (h : bytes.length ≤ maxChunkBytes)
    (policy : CompressionPolicy) : ∃ encoded, encode cr bytes policy = .ok encoded ∧
      encoded ≠ [] ∧ encoded.length ≤ bytes.length + 1 ∧
      decompress cr encoded bytes.length (cr.sha256 bytes) = .ok bytes := by
  have hunpack : unpack cr rawCodec bytes bytes.length = .ok bytes := by
    simp [unpack, require]
  have hraw := decompress_cons h le_rfl hunpack
  unfold encode
  rw [require_eq_ok.mpr h]
  cases policy with
  | alreadyCompressed => exact ⟨_,rfl,List.cons_ne_nil _ _,le_rfl,hraw⟩
  | text =>
    obtain ⟨frame, hframe, hmagic, hdecode⟩ := hz bytes h
    by_cases hlt : frame.length < bytes.length
    · refine ⟨zstdCodec :: frame,?_,List.cons_ne_nil _ _,?_,decompress_cons h hlt.le ?_⟩
      · change (cr.compress bytes >>= _) = _
        rw [hframe]
        exact if_pos hlt
      · rw [List.length_cons]
        omega
      · simp [unpack, require, hmagic, hdecode, zstdCodec, rawCodec]
        rfl
    · refine ⟨_,?_,List.cons_ne_nil _ _,le_rfl,hraw⟩
      change (cr.compress bytes >>= _) = _
      rw [hframe]
      exact if_neg hlt

lemma exists_entry (hz : RoundTrips cr) {bytes : List UInt8} (h : bytes.length ≤ maxChunkBytes)
    {maxBytes : ℕ} (hmax : bytes.length ≤ maxBytes) (policy : CompressionPolicy) :
    ∃ entry : List UInt8,
      (∀ out, writeEntryWith cr out (chunkOf cr bytes) policy = .ok (out ++ entry,entry.length)) ∧
      ∀ {σ : Type} {r : Reader σ}, r.Steady → ∀ {s : σ} {rest}, r.left s = entry ++ rest →
        ∃ t, readEntry cr r maxBytes s = .ok (chunkOf cr bytes,t) ∧ r.left t = rest := by
  obtain ⟨encoded, hencode, hne, hle, hback⟩ := exists_encode hz h policy
  have hpos := List.length_pos_of_ne_nil hne
  have hsmall : maxChunkBytes + 1 < 2^64 := by decide
  refine ⟨leBytes bytes.length ++ leBytes encoded.length ++ (cr.sha256 bytes).val ++ encoded,?_,?_⟩
  · intro out
    have hvalid : (chunkOf cr bytes).bytes.length ≤ maxChunkBytes ∧
        cr.sha256 (chunkOf cr bytes).bytes = (chunkOf cr bytes).hash := ⟨h,rfl⟩
    unfold writeEntryWith
    rw [require_eq_ok.mpr hvalid]
    change (encode cr bytes policy >>= _) = _
    rw [hencode]
    change Except.ok (_,_) = _
    simp [chunkOf, entryOverhead, length_leBytes, (cr.sha256 bytes).property]
    omega
  · intro σ r hr s rest hs
    have hlength := ofLeBytes_leBytes (n := bytes.length) (by omega)
    have hcount := ofLeBytes_leBytes (n := encoded.length) (by omega)
    simp only [List.append_assoc] at hs
    obtain ⟨s₁, h₁, hs⟩ := Source.exists_readExact hr unexpectedEof (length_leBytes _) hs
    obtain ⟨s₂, h₂, hs⟩ := Source.exists_readExact hr unexpectedEof (length_leBytes _) hs
    obtain ⟨s₃, h₃, hs⟩ :=
      Source.exists_readExact hr unexpectedEof (cr.sha256 bytes).property hs
    obtain ⟨t, h₄, ht⟩ := Source.exists_readExact hr unexpectedEof hcount.symm hs
    have hlimit : ofLeBytes (leBytes bytes.length) ≤ min maxBytes maxChunkBytes := by
      rw [hlength]
      exact le_min hmax h
    have hsized : ofLeBytes (leBytes encoded.length) ≠ 0 ∧
        ofLeBytes (leBytes encoded.length) ≤ ofLeBytes (leBytes bytes.length) + 1 := by
      rw [hlength, hcount]
      exact ⟨hpos.ne',hle⟩
    refine ⟨t,?_,ht⟩
    unfold readEntry
    refine bind_eq_ok.mpr ⟨_,h₁,bind_eq_ok.mpr ⟨(),require_eq_ok.mpr hlimit,?_⟩⟩
    refine bind_eq_ok.mpr ⟨_,h₂,bind_eq_ok.mpr ⟨(),require_eq_ok.mpr hsized,?_⟩⟩
    refine bind_eq_ok.mpr ⟨_,h₃,bind_eq_ok.mpr ⟨_,h₄,bind_eq_ok.mpr ⟨bytes,?_,rfl⟩⟩⟩
    dsimp only
    rw [hlength]
    exact hback

lemma exists_entries (hz : RoundTrips cr) (policy : CompressionPolicy) {maxBytes : ℕ}
    {cs : List Chunk} (hcs : ∀ c ∈ cs, chunkOf cr c.bytes = c ∧ c.bytes.length ≤ maxChunkBytes ∧
      c.bytes.length ≤ maxBytes) :
    ∃ (pack : List UInt8) (counts : List ℕ), counts.sum = pack.length ∧
      (∀ t, cs.foldlM (writeTo cr policy) t = .ok (t.1 ++ pack,t.2 ++ counts)) ∧
      ∀ {σ : Type} {r : Reader σ}, r.Steady → ∀ {s : σ} {rest}, r.left s = pack ++ rest →
        ∃ t, readEntries cr r maxBytes cs.length s = .ok (cs,t) ∧ r.left t = rest := by
  induction cs with
  | nil =>
    refine ⟨[],[],rfl,fun t => ?_,fun _ _ _ hs => ⟨_,rfl,hs⟩⟩
    rw [List.append_nil, List.append_nil]
    rfl
  | cons c cs ih =>
    rw [List.forall_mem_cons] at hcs
    obtain ⟨⟨hc, hlen, hmax⟩, hcs⟩ := hcs
    obtain ⟨entry, hwrite, hread⟩ := exists_entry hz hlen hmax policy
    obtain ⟨pack, counts, hsum, hwrites, hreads⟩ := ih hcs
    rw [hc] at hwrite hread
    refine ⟨entry ++ pack,entry.length :: counts,?_,fun t => ?_,?_⟩
    · rw [List.sum_cons, hsum, List.length_append]
    · have hone : writeTo cr policy t c = .ok (t.1 ++ entry,t.2 ++ [entry.length]) := by
        unfold writeTo
        rw [hwrite]
        rfl
      rw [List.foldlM_cons, hone]
      change cs.foldlM (writeTo cr policy) _ = _
      rw [hwrites, List.append_assoc, List.append_assoc, List.singleton_append]
    · intro σ r hr s rest hs
      rw [List.append_assoc] at hs
      obtain ⟨u, hu, hs⟩ := hread hr hs
      obtain ⟨t, ht, hrest⟩ := hreads hr hs
      refine ⟨t,?_,hrest⟩
      exact bind_eq_ok.mpr ⟨_,hu,bind_eq_ok.mpr ⟨_,ht,rfl⟩⟩

/-- The chunks of some bytes come to these bytes. They are what any reader of the bytes cuts them
into, however it splits its reads, and what any reader of the pack they are written to reads. -/
theorem entries_round_trip (hz : RoundTrips cr) {chunkBytes maxBytes : ℕ} (h : 0 < chunkBytes)
    (hle : chunkBytes ≤ maxChunkBytes) (hmax : chunkBytes ≤ maxBytes) (policy : CompressionPolicy)
    (bytes : List UInt8) :
    ((chunksOf cr chunkBytes bytes).map Chunk.bytes).flatten = bytes ∧
    (∀ {σ τ : Type} (r : Reader σ) (s : σ), r.Steady → r.left s = bytes →
      ∀ (consume : τ → Chunk → Formatted τ) (t : τ),
        (chunks cr r chunkBytes consume s t).map Prod.fst =
          (chunksOf cr chunkBytes bytes).foldlM consume t) ∧
    ∃ (pack : List UInt8) (counts : List ℕ), counts.sum = pack.length ∧
      (∀ {σ : Type} (r : Reader σ) (s : σ), r.Steady → r.left s = bytes →
        (chunks cr r chunkBytes (writeTo cr policy) s ([],[])).map Prod.fst = .ok (pack,counts)) ∧
      ∀ {σ : Type} (r : Reader σ) (s : σ) (rest : List UInt8), r.Steady →
        r.left s = pack ++ rest →
        ∃ t, readEntries cr r maxBytes (chunksOf cr chunkBytes bytes).length s =
          .ok (chunksOf cr chunkBytes bytes,t) ∧ r.left t = rest := by
  have hcut : ∀ {σ τ : Type} (r : Reader σ) (s : σ), r.Steady → r.left s = bytes →
      ∀ (consume : τ → Chunk → Formatted τ) (t : τ),
        (chunks cr r chunkBytes consume s t).map Prod.fst =
          (chunksOf cr chunkBytes bytes).foldlM consume t := by
    intro σ τ r s hr hs consume t
    unfold chunks
    rw [require_eq_ok.mpr ⟨h.ne',hle⟩, ← hs]
    exact cut_eq hr h consume s t
  have hchunks : ∀ c ∈ chunksOf cr chunkBytes bytes, chunkOf cr c.bytes = c ∧
      c.bytes.length ≤ maxChunkBytes ∧ c.bytes.length ≤ maxBytes := by
    intro c hc
    obtain ⟨hchunk,hlen⟩ := of_mem_chunksOf h hc
    exact ⟨hchunk,hlen.trans hle,hlen.trans hmax⟩
  obtain ⟨pack, counts, hsum, hwrites, hreads⟩ := exists_entries hz policy hchunks
  refine ⟨flatten_chunksOf _ _,hcut,pack,counts,hsum,?_,fun r s rest hr hs => hreads hr hs⟩
  intro σ r s hr hs
  rw [hcut r s hr hs]
  exact hwrites ([],[])

/-! A table of two hashes, and zstd as it is on a few bytes: a frame of one raw block. -/

/-- The frame of a few bytes. -/
def rawFrame (bytes : List UInt8) : List UInt8 :=
  magic ++ [0x20,.ofNat bytes.length,.ofNat (8*bytes.length + 1),0,0] ++ bytes

def sampleCrates : PackCrates where
  sha256 bytes :=
    if bytes = [1,2] then
      ⟨[0xa1,0x28,0x71,0xfe,0xe2,0x10,0xfb,0x86,0x19,0x29,0x1e,0xae,0xa1,0x94,0x58,0x1c,0xbd,
        0x25,0x31,0xe4,0xb2,0x37,0x59,0xd2,0x25,0xf6,0x80,0x69,0x23,0xf6,0x32,0x22],
        rfl⟩
    else
      ⟨[0x08,0x4f,0xed,0x08,0xb9,0x78,0xaf,0x4d,0x7d,0x19,0x6a,0x74,0x46,0xa8,0x6b,0x58,0x00,
        0x9e,0x63,0x6b,0x61,0x1d,0xb1,0x62,0x11,0xb6,0x5a,0x9a,0xad,0xff,0x29,0xc5],
        rfl⟩
  compress bytes := .ok (rawFrame bytes)
  decode frame limit := .ok ((frame.drop 9).take limit,[])

lemma sampleCrates_roundTrip : RoundTrips sampleCrates := by
  intro bytes _
  refine ⟨rawFrame bytes,rfl,rfl,?_⟩
  change Except.ok (bytes.take (bytes.length + 1),_) = _
  rw [List.take_of_length_le (Nat.le_succ _)]

/-- Three bytes that are read one by one and in chunks of two. -/
theorem entries_round_trip_three : ∃ pack : List UInt8, ∃ t,
    (chunks sampleCrates (Source.atMost 0) 2 (writeTo sampleCrates .text) [1,2,3] ([],[])).map
      Prod.fst = .ok (pack,[51,50]) ∧
    readEntries sampleCrates (Source.atMost 6) maxChunkBytes 2 pack =
      .ok ([chunkOf sampleCrates [1,2],chunkOf sampleCrates [3]],t) := by
  obtain ⟨-, hcut, pack, counts, -, hwrite, hread⟩ := @entries_round_trip _
    sampleCrates_roundTrip 2 maxChunkBytes Nat.zero_lt_two (by decide) (by decide) .text [1,2,3]
  have hchunks : chunksOf sampleCrates 2 [1,2,3] =
      [chunkOf sampleCrates [1,2],chunkOf sampleCrates [3]] := by
    rw [chunksOf_cons, List.drop_succ_cons, List.drop_zero, chunksOf_cons, List.drop_nil, chunksOf,
      Segments.segments_nil]
    rfl
  have hsteady := @Source.atMost_steady UInt8 FormatError 0
  have hpack := hwrite (Source.atMost 0) [1,2,3] hsteady rfl
  have hrun := (hcut (Source.atMost 0) [1,2,3] hsteady rfl (writeTo sampleCrates .text)
    ([],[])).symm.trans hpack
  obtain ⟨t, ht, -⟩ := hread (Source.atMost 6) pack [] (Source.atMost_steady 6)
    (List.append_nil pack).symm
  rw [hchunks] at hrun ht
  obtain ⟨rfl, rfl⟩ := Prod.mk.inj (Except.ok.inj hrun)
  exact ⟨_,t,hpack,ht⟩

end
end RisuNest.External.Pack
