import RisuNest.External.Objects
import RisuNest.External.Pack
import RisuNest.Lib.Logged
import RisuNest.Lib.StreamCipher

/-! Encrypted objects: the bytes of an object are cut into frames, each sealed in one stream, and
an empty frame of its own tag is the last (`crypto.rs`). -/
namespace RisuNest.External.SecretStream
open Pack (FormatError Formatted Reader unexpectedEof ofLeBytes)
open PublishedCatalog (leBytes)

abbrev Key := {bytes : List UInt8 // bytes.length = 32}

/-- `Header` of a stream -/
abbrev StreamHeader := {bytes : List UInt8 // bytes.length = 24}

/-- `crypto_secretstream_xchacha20poly1305` -/
abbrev Cipher := StreamCipher Key StreamHeader UInt8 UInt8

abbrev Frame := Push UInt8 UInt8

/-- A computation that seals frames. -/
abbrev Sealing := Logged Frame FormatError

/-- `MAGIC`, "RNE1" -/
def magic : List UInt8 := [0x52,0x4e,0x45,0x31]

def frameBytes : ℕ := 64*1024

def maxBinding : ℕ := 16*1024

def tagBytes : ℕ := 17

/-- `TAG_MESSAGE` -/
def message : UInt8 := 0

/-- `TAG_FINAL` -/
def final : UInt8 := 3

/-- `u32::to_le_bytes` -/
def leBytes32 (n : ℕ) : List UInt8 := (List.range 4).map fun i => UInt8.ofNat (n / 256^i)

def aad (binding : List UInt8) (length : ℕ) : Formatted (List UInt8) := do
  require (binding ≠ [] ∧ binding.length ≤ maxBinding) ⟨"invalid-object-binding"⟩
  pure (magic ++ leBytes length ++ leBytes32 binding.length ++ binding)

section
variable (c : Cipher)

/-- A frame is sealed. That fails only for frames longer than any here. -/
def pushFrame (state : c.State) (f : Frame) : Sealing (List UInt8 × c.State) :=
  ⟨[f],.ok (c.push state f)⟩

/-- The loop of `encrypt`: what it writes, and where it leaves the stream and the input. -/
def encryptFrames {σ : Type} (r : Reader σ) (data : List UInt8) (remaining : ℕ) (state : c.State)
    (s : σ) : Sealing (List UInt8 × c.State × σ) :=
  if _ : remaining = 0 then pure ([],state,s)
  else do
    let count := min remaining frameBytes
    let (plaintext, s) ← .check (r.readExact unexpectedEof s count)
    let (ciphertext, state) ← pushFrame c state ⟨data,message,plaintext.val⟩
    let (rest, state, s) ← encryptFrames r data (remaining - count) state s
    pure (leBytes32 (count + tagBytes) ++ ciphertext ++ rest,state,s)
termination_by remaining
decreasing_by
  have : 0 < frameBytes := by decide
  omega

/-- The end of `encrypt`: nothing may be left of the input, and the last frame is sealed. -/
def encryptEnd {σ : Type} (r : Reader σ) (data : List UInt8) (state : c.State) (s : σ) :
    Sealing (List UInt8 × σ) := do
  let (extra, s) ← .check (r.read s 1)
  .check (require (extra = []) ⟨"object-length-mismatch"⟩)
  let (ciphertext, _) ← pushFrame c state ⟨data,final,[]⟩
  pure (leBytes32 tagBytes ++ ciphertext,s)

/-- `encrypt`, with the header of the stream that is drawn. -/
def encrypt {σ : Type} (r : Reader σ) (key : Key) (streamHeader : StreamHeader)
    (binding : List UInt8) (length : ℕ) (s : σ) : Sealing (List UInt8 × σ) := do
  let data ← .check (aad binding length)
  let (frames, state, s) ←
    encryptFrames c r data length (c.start key streamHeader) s
  let (last, s) ← encryptEnd c r data state s
  pure (magic ++ leBytes length ++ streamHeader.val ++ frames ++ last,s)

/-- The next frame as it was written. -/
def readFrame {σ : Type} (r : Reader σ) (s : σ) : Formatted (List UInt8 × σ) := do
  let (frameLength, s) ← r.readExact unexpectedEof s 4
  let frameLength := ofLeBytes frameLength.val
  require (tagBytes ≤ frameLength ∧ frameLength ≤ frameBytes + tagBytes)
    ⟨"invalid-encrypted-frame"⟩
  let (ciphertext, s) ← r.readExact unexpectedEof s frameLength
  pure (ciphertext.val,s)

/-- The frame with the final tag. -/
def decryptEnd {σ : Type} (r : Reader σ) (length total : ℕ) (plaintext : List UInt8) (s : σ) :
    Formatted (ℕ × List UInt8 × σ) := do
  require (plaintext = [] ∧ total = length) ⟨"object-length-mismatch"⟩
  let (extra, s) ← r.read s 1
  require (extra = []) ⟨"trailing-encrypted-bytes"⟩
  pure (total,[],s)

/-- The length so far with a frame of any other tag. -/
def addFrame (length total : ℕ) (tag : UInt8) (plaintext : List UInt8) : Formatted ℕ := do
  require (tag = message ∧ plaintext ≠ []) ⟨"invalid-encrypted-tag"⟩
  require (total + plaintext.length < 2^64) ⟨"length-overflow"⟩
  require (total + plaintext.length ≤ length) ⟨"object-length-mismatch"⟩
  pure (total + plaintext.length)

lemma readExact_eq_ok {σ : Type} {r : Reader σ} {s t : σ} {k : ℕ}
    {items : {items : List UInt8 // items.length = k}}
    (h : r.readExact unexpectedEof s k = .ok (items,t)) : r.left s = items.val ++ r.left t := by
  unfold Source.readExact at h
  obtain ⟨⟨bytes, u⟩, hfill, h⟩ := bind_eq_ok.mp h
  dsimp only at h
  split_ifs at h
  cases h
  obtain ⟨rfl, hleft⟩ := Source.fill_eq_ok hfill
  rw [hleft, List.take_append_drop]

lemma readFrame_left {σ : Type} {r : Reader σ} {s t : σ} {ciphertext : List UInt8}
    (h : readFrame r s = .ok (ciphertext,t)) : (r.left t).length < (r.left s).length := by
  obtain ⟨⟨frameLength, u⟩, hlength, h⟩ := bind_eq_ok.mp h
  obtain ⟨-, -, h⟩ := bind_eq_ok.mp h
  obtain ⟨⟨bytes, v⟩, hbytes, h⟩ := bind_eq_ok.mp h
  cases h
  have hfour := frameLength.property
  rw [readExact_eq_ok hlength, readExact_eq_ok hbytes]
  simp only [List.length_append]
  omega

/-- The loop of `decrypt`: the length and the bytes it gives to `staging`. -/
def decryptFrames {σ : Type} (r : Reader σ) (data : List UInt8) (length total : ℕ)
    (state : c.State) (s : σ) : Formatted (ℕ × List UInt8 × σ) :=
  match _ : readFrame r s with
  | .error e => .error e
  | .ok (ciphertext, t) =>
    match c.pull state data ciphertext with
    | none => .error ⟨"object-authentication-failed"⟩
    | some (plaintext, tag, state) =>
      if tag = final then decryptEnd r length total plaintext t
      else do
        let total ← addFrame length total tag plaintext
        let (total, rest, u) ← decryptFrames r data length total state t
        pure (total,plaintext ++ rest,u)
termination_by (r.left s).length
decreasing_by exact readFrame_left ‹_›

/-- `decrypt`, with what it gives to `staging`. -/
def decrypt {σ : Type} (r : Reader σ) (key : Key) (binding : List UInt8) (maxLength : ℕ) (s : σ) :
    Formatted (ℕ × List UInt8 × σ) := do
  let (start, s) ← r.readExact unexpectedEof s 4
  require (start.val = magic) ⟨"invalid-encrypted-object"⟩
  let (length, s) ← r.readExact unexpectedEof s 8
  let length := ofLeBytes length.val
  require (length ≤ maxLength) ⟨"decoded-limit-exceeded"⟩
  let data ← aad binding length
  let (streamHeader, s) ← r.readExact unexpectedEof s 24
  decryptFrames c r data length 0 (c.start key streamHeader) s

end

/-- A call of `encrypt`. -/
structure Call where
  source : Type
  reader : Reader source
  input : source
  key : Key
  streamHeader : StreamHeader
  binding : List UInt8
  length : UInt64

/-- What the call does. -/
def Call.run (c : Cipher) (call : Call) : Sealing (List UInt8 × call.source) :=
  encrypt c call.reader call.key call.streamHeader call.binding call.length.toNat call.input

/-- What the call sealed, also where it failed in the end. -/
def Call.session (c : Cipher) (call : Call) : Session Key StreamHeader UInt8 UInt8 :=
  ⟨call.key,call.streamHeader,(call.run c).writes⟩

/-! ### Bytes -/

lemma leBytes_ofLeBytes (bytes : List UInt8) :
    ((List.range bytes.length).map fun i => UInt8.ofNat (ofLeBytes bytes / 256^i)) = bytes := by
  induction bytes with
  | nil => rfl
  | cons b bytes ih =>
    have hb := b.toNat_lt
    have hcons : ofLeBytes (b :: bytes) = b.toNat + 256 * ofLeBytes bytes := by
      simp [ofLeBytes, Nat.ofDigits_cons]
    rw [List.length_cons, List.range_succ_eq_map, List.map_cons, List.map_map, hcons]
    congr 1
    · apply UInt8.toNat_inj.mp
      simp only [pow_zero, Nat.div_one, UInt8.toNat_ofNat']
      omega
    · conv_rhs => rw [← ih]
      apply List.map_congr_left
      intro i _
      have hdiv : (b.toNat + 256 * ofLeBytes bytes) / 256^(i + 1) = ofLeBytes bytes / 256^i := by
        rw [pow_succ', ← Nat.div_div_eq_div_mul]
        congr 1
        omega
      exact congrArg UInt8.ofNat hdiv

lemma leBytes_of_length {bytes : List UInt8} (h : bytes.length = 8) :
    leBytes (ofLeBytes bytes) = bytes := by
  have hbytes := leBytes_ofLeBytes bytes
  rw [h] at hbytes
  exact hbytes

lemma leBytes32_of_length {bytes : List UInt8} (h : bytes.length = 4) :
    leBytes32 (ofLeBytes bytes) = bytes := by
  have hbytes := leBytes_ofLeBytes bytes
  rw [h] at hbytes
  exact hbytes

lemma ofLeBytes_leBytes32 {n : ℕ} (h : n < 2^32) : ofLeBytes (leBytes32 n) = n := by
  have hbytes := Pack.ofLeBytes_range 4 n
  rw [Nat.mod_eq_of_lt (by omega)] at hbytes
  exact hbytes

/-! ### What is sealed -/

/-- The frames of an object before the last one. -/
def framesOf (data : List UInt8) (pieces : List (List UInt8)) : List Frame :=
  pieces.map fun piece => ⟨data,message,piece⟩

def lastFrame (data : List UInt8) : Frame := ⟨data,final,[]⟩

/-- Pieces as the loop of `encrypt` cuts them. -/
def Cut (pieces : List (List UInt8)) : Prop :=
  ∀ piece ∈ pieces, piece ≠ [] ∧ piece.length ≤ frameBytes

section
variable (c : Cipher)

/-- The bytes of some frames, each behind its length. -/
def frameText : c.State → List Frame → List UInt8
  | _, [] => []
  | state, f :: fs =>
    leBytes32 (f.message.length + tagBytes) ++ (c.push state f).1 ++
      frameText (c.push state f).2 fs

/-- The bytes of an object with these frames. -/
def objectText (key : Key) (length : ℕ) (streamHeader : StreamHeader) (fs : List Frame) :
    List UInt8 :=
  magic ++ leBytes length ++ streamHeader.val ++ frameText c (c.start key streamHeader) fs

lemma frameText_append (state : c.State) (fs gs : List Frame) :
    frameText c state (fs ++ gs) = frameText c state fs ++ frameText c (c.after state fs) gs := by
  induction fs generalizing state with
  | nil => rfl
  | cons f fs ih =>
    simp only [List.cons_append, frameText, ih, List.append_assoc]
    rfl

end

section
variable {c : Cipher} {sessions : Set (Session Key StreamHeader UInt8 UInt8)} {σ : Type}
  {r : Reader σ}

/-- The loop of `encrypt` seals nothing but frames of the object, and where it goes through it has
sealed all of it. -/
lemma encryptFrames_spec (data : List UInt8) (remaining : ℕ)
    (state : c.State) (s : σ) : ∃ pieces, Cut pieces ∧
      (encryptFrames c r data remaining state s).writes = framesOf data pieces ∧
      ∀ {text state' t}, (encryptFrames c r data remaining state s).result = .ok (text,state',t) →
        text = frameText c state (framesOf data pieces) ∧
        state' = c.after state (framesOf data pieces) ∧
        r.left s = pieces.flatten ++ r.left t ∧ pieces.flatten.length = remaining ∧
        pieces.length = (remaining + (frameBytes - 1)) / frameBytes := by
  induction remaining using Nat.strongRecOn generalizing state s with
  | ind remaining ih =>
    rw [encryptFrames]
    split_ifs with hzero
    · refine ⟨[],List.forall_mem_nil _,rfl,?_⟩
      intro text state' t h
      cases h
      subst hzero
      exact ⟨rfl,rfl,rfl,rfl,rfl⟩
    · dsimp only
      cases hread : r.readExact unexpectedEof s (min remaining frameBytes) with
      | error e =>
        refine ⟨[],List.forall_mem_nil _,rfl,?_⟩
        intro text state' t h
        cases h
      | ok p =>
        obtain ⟨⟨piece, hpiece⟩, u⟩ := p
        have hpos : 0 < frameBytes := by decide
        obtain ⟨pieces, hcut, hwrites, hok⟩ := ih (remaining - min remaining frameBytes) (by omega)
          (c.push state ⟨data,message,piece⟩).2 u
        refine ⟨piece :: pieces,List.forall_mem_cons.mpr ⟨⟨?_,by omega⟩,hcut⟩,?_,?_⟩
        · rintro rfl
          rw [List.length_nil] at hpiece
          omega
        · rw [Logged.writes_bind_of_ok (a := (⟨piece,hpiece⟩,u)) rfl]
          dsimp only
          rw [Logged.writes_bind_of_ok (a := c.push state ⟨data,message,piece⟩) rfl]
          cases hrest : (encryptFrames c r data (remaining - min remaining frameBytes)
              (c.push state ⟨data,message,piece⟩).2 u).result with
          | error e =>
            rw [Logged.writes_bind_of_error hrest, hwrites]
            rfl
          | ok q =>
            rw [Logged.writes_bind_of_ok hrest, hwrites]
            simp only [Logged.writes_pure, List.append_nil]
            rfl
        · intro text state' t h
          simp only [Logged.result_bind, Logged.result_check] at h
          obtain ⟨-, ⟨rfl⟩, h⟩ := bind_eq_ok.mp h
          obtain ⟨-, ⟨rfl⟩, h⟩ := bind_eq_ok.mp h
          obtain ⟨⟨rest, state'', v⟩, hrest, h⟩ := bind_eq_ok.mp h
          cases h
          obtain ⟨rfl, rfl, hleft, hlength, hcount⟩ := hok hrest
          refine ⟨?_,rfl,?_,?_,?_⟩
          · have hcount : leBytes32 (min remaining frameBytes + tagBytes) =
                leBytes32 (piece.length + tagBytes) := by
              rw [hpiece]
            exact congrArg (fun l => l ++ _ ++ _) hcount
          · rw [readExact_eq_ok hread, hleft, List.flatten_cons, List.append_assoc]
          · rw [List.flatten_cons, List.length_append, hlength, hpiece]
            omega
          · have hframe : frameBytes = 65536 := rfl
            rw [List.length_cons, hcount, hframe]
            omega

lemma encryptFrames_total (hr : r.Steady) (data : List UInt8) (remaining : ℕ) (state : c.State)
    (s : σ) (h : remaining ≤ (r.left s).length) :
    ∃ p, (encryptFrames c r data remaining state s).result = .ok p := by
  induction remaining using Nat.strongRecOn generalizing state s with
  | ind remaining ih =>
    rw [encryptFrames]
    split_ifs with hzero
    · exact ⟨_,rfl⟩
    · have hpos : 0 < frameBytes := by decide
      have hlength : ((r.left s).take (min remaining frameBytes)).length =
          min remaining frameBytes := by
        rw [List.length_take]
        omega
      obtain ⟨u, hread, hleft⟩ := Source.exists_readExact hr unexpectedEof hlength
        (List.take_append_drop _ _).symm
      obtain ⟨q, hq⟩ := ih (remaining - min remaining frameBytes) (by omega)
        (c.push state ⟨data,message,_⟩).2 u (by rw [hleft, List.length_drop]; omega)
      dsimp only
      rw [hread]
      simp only [Logged.result_bind, Logged.result_check]
      exact ⟨_,bind_eq_ok.mpr ⟨_,rfl,bind_eq_ok.mpr ⟨_,rfl,bind_eq_ok.mpr ⟨q,hq,rfl⟩⟩⟩⟩

lemma aad_eq_ok {binding data : List UInt8} {length : ℕ} (h : aad binding length = .ok data) :
    data = magic ++ leBytes length ++ leBytes32 binding.length ++ binding ∧
      binding ≠ [] ∧ binding.length ≤ maxBinding := by
  obtain ⟨u, hbinding, h⟩ := bind_eq_ok.mp h
  cases h
  exact ⟨rfl,require_eq_ok.mp hbinding⟩

lemma read_eq_ok {s t : σ} {extra : List UInt8} (h : r.read s 1 = .ok (extra,t)) :
    extra = [] ↔ r.left s = [] := by
  constructor
  · rintro rfl
    exact (r.ends h).resolve_left Nat.one_ne_zero
  · intro hs
    have happend := (r.gives h).1
    rw [hs] at happend
    exact (List.append_eq_nil_iff.mp happend).1

lemma encryptEnd_spec (data : List UInt8) (state : c.State) (s : σ) :
    (r.left s = [] ∧ ∃ t, encryptEnd c r data state s =
      ⟨[lastFrame data],.ok (leBytes32 tagBytes ++ (c.push state (lastFrame data)).1,t)⟩) ∨
    ∃ e, encryptEnd c r data state s = ⟨[],.error e⟩ := by
  unfold encryptEnd
  cases hread : r.read s 1 with
  | error e => exact .inr ⟨e,rfl⟩
  | ok p =>
    obtain ⟨extra, t⟩ := p
    rw [Logged.check_ok_bind]
    cases extra with
    | nil => exact .inl ⟨(read_eq_ok hread).mp rfl,t,rfl⟩
    | cons b bs => exact .inr ⟨_,rfl⟩

/-- Where `encrypt` goes through, it sealed the frames of all that was left of its input, the last
one too, and these are what it wrote. Where it fails, the last frame was not sealed. -/
lemma encrypt_spec (key : Key) (streamHeader : StreamHeader)
    (binding : List UInt8) (length : ℕ) (s : σ) :
    (∃ pieces data t, aad binding length = .ok data ∧ Cut pieces ∧
      r.left s = pieces.flatten ∧ pieces.flatten.length = length ∧
      pieces.length = (length + (frameBytes - 1)) / frameBytes ∧
      encrypt c r key streamHeader binding length s =
        ⟨framesOf data pieces ++ [lastFrame data],.ok (objectText c key length streamHeader
          (framesOf data pieces ++ [lastFrame data]),t)⟩) ∨
    ∃ e, (encrypt c r key streamHeader binding length s).result = .error e ∧
      ∀ f ∈ (encrypt c r key streamHeader binding length s).writes, f.tag = message := by
  unfold encrypt
  cases haad : aad binding length with
  | error e => exact .inr ⟨e,rfl,List.forall_mem_nil _⟩
  | ok data =>
    obtain ⟨pieces, hcut, hwrites, hok⟩ := encryptFrames_spec (c := c) (r := r) data length
      (c.start key streamHeader) s
    have hmessages : ∀ f ∈ framesOf data pieces, f.tag = message := by
      intro f hf
      obtain ⟨piece, -, rfl⟩ := List.mem_map.mp hf
      rfl
    rw [Logged.check_ok_bind]
    cases hframes : (encryptFrames c r data length (c.start key streamHeader) s).result with
    | error e =>
      rw [Logged.bind_of_error hframes, hwrites]
      exact .inr ⟨e,rfl,hmessages⟩
    | ok p =>
      obtain ⟨text, state, t⟩ := p
      obtain ⟨rfl, rfl, hleft, hlength, hcount⟩ := hok hframes
      rw [Logged.bind_of_ok hframes, hwrites]
      dsimp only
      obtain ⟨hend, u, hlast⟩ | ⟨e, hlast⟩ := encryptEnd_spec (r := r) data
        (c.after (c.start key streamHeader) (framesOf data pieces)) t
      · left
        refine ⟨pieces,data,u,rfl,hcut,?_,hlength,hcount,?_⟩
        · rw [hleft, hend, List.append_nil]
        · rw [hlast]
          rw [objectText, frameText_append, frameText, frameText, List.append_nil]
          simp only [List.append_assoc]
          rfl
      · right
        rw [hlast, Logged.bind_of_error rfl, List.append_nil]
        exact ⟨e,rfl,hmessages⟩

/-- With an input that does not fail, `encrypt` goes through exactly where the binding is one and
the length is that of the input. -/
lemma encrypt_total (hr : r.Steady) (key : Key) (streamHeader : StreamHeader) (binding : List UInt8) (length : ℕ) (s : σ) :
    (∃ p, (encrypt c r key streamHeader binding length s).result = .ok p) ↔
      (binding ≠ [] ∧ binding.length ≤ maxBinding) ∧ (r.left s).length = length := by
  constructor
  · rintro ⟨p, hp⟩
    obtain ⟨pieces, data, t, haad, -, hleft, hlength, -, -⟩ | ⟨e, he, -⟩ :=
      encrypt_spec (c := c) (r := r) key streamHeader binding length s
    · exact ⟨(aad_eq_ok haad).2,by rw [hleft, hlength]⟩
    · rw [he] at hp
      cases hp
  · rintro ⟨hbinding, hlength⟩
    have haad : aad binding length =
        .ok (magic ++ leBytes length ++ leBytes32 binding.length ++ binding) := by
      unfold aad
      rw [require_eq_ok.mpr hbinding]
      rfl
    obtain ⟨⟨text, state, t⟩, hframes⟩ := encryptFrames_total (c := c) hr
      (magic ++ leBytes length ++ leBytes32 binding.length ++ binding) length
      (c.start key streamHeader) s hlength.ge
    obtain ⟨pieces, -, -, hok⟩ := encryptFrames_spec (c := c) (r := r)
      (magic ++ leBytes length ++ leBytes32 binding.length ++ binding) length
      (c.start key streamHeader) s
    obtain ⟨-, -, hleft, hpieces, -⟩ := hok hframes
    have hend : r.left t = [] := by
      rw [hleft, List.length_append] at hlength
      exact List.eq_nil_of_length_eq_zero (by omega)
    obtain ⟨⟨extra, u⟩, hread⟩ := hr t 1
    obtain rfl := (read_eq_ok hread).mpr hend
    unfold encrypt encryptEnd
    rw [haad, Logged.check_ok_bind, Logged.bind_of_ok hframes]
    dsimp only
    rw [hread]
    exact ⟨_,rfl⟩

/-! ### What is opened -/

lemma exists_readFrame (hr : r.Steady) {s : σ} {ciphertext rest : List UInt8} {n : ℕ}
    (hsealed : ciphertext.length = n + tagBytes) (hn : n ≤ frameBytes)
    (hs : r.left s = leBytes32 (n + tagBytes) ++ ciphertext ++ rest) :
    ∃ t, readFrame r s = .ok (ciphertext,t) ∧ r.left t = rest := by
  rw [List.append_assoc, ← hsealed] at hs
  have hlimit : frameBytes + tagBytes < 2^32 := by decide
  have hvalue : ofLeBytes (leBytes32 ciphertext.length) = ciphertext.length :=
    ofLeBytes_leBytes32 (by omega)
  obtain ⟨t, ht, hleft⟩ := Source.exists_readExact hr unexpectedEof
    (k := 4) rfl hs
  obtain ⟨u, hu, hrest⟩ := Source.exists_readExact hr unexpectedEof
    (k := ofLeBytes (leBytes32 ciphertext.length)) hvalue.symm hleft
  refine ⟨u,?_,hrest⟩
  unfold readFrame
  rw [ht]
  change (require (_ ∧ _) _ >>= fun _ => _) = _
  rw [require_eq_ok.mpr (by rw [hvalue]; omega)]
  change (r.readExact unexpectedEof t _ >>= _) = _
  rw [hu]
  rfl

lemma readFrame_eq_ok {s t : σ} {ciphertext : List UInt8} (h : readFrame r s = .ok (ciphertext,t)) :
    r.left s = leBytes32 ciphertext.length ++ ciphertext ++ r.left t := by
  obtain ⟨⟨frameLength, u⟩, hlength, h⟩ := bind_eq_ok.mp h
  obtain ⟨-, -, h⟩ := bind_eq_ok.mp h
  obtain ⟨⟨bytes, v⟩, hbytes, h⟩ := bind_eq_ok.mp h
  cases h
  rw [readExact_eq_ok hlength, readExact_eq_ok hbytes, bytes.property,
    leBytes32_of_length frameLength.property, List.append_assoc]

lemma decryptFrames_of_pull {data ciphertext plaintext : List UInt8} {length total : ℕ}
    {state state' : c.State} {tag : UInt8} {s t : σ} (hread : readFrame r s = .ok (ciphertext,t))
    (hpull : c.pull state data ciphertext = some (plaintext,tag,state')) :
    decryptFrames c r data length total state s =
      if tag = final then decryptEnd r length total plaintext t
      else addFrame length total tag plaintext >>= fun total =>
        decryptFrames c r data length total state' t >>= fun p =>
          pure (p.1,plaintext ++ p.2.1,p.2.2) := by
  rw [decryptFrames]
  split
  · rename_i h
    rw [hread] at h
    cases h
  · rename_i h
    rw [hread] at h
    cases h
    rw [hpull]

lemma exists_pull {data : List UInt8} {length total : ℕ} {state : c.State} {s : σ}
    {p : ℕ × List UInt8 × σ} (h : decryptFrames c r data length total state s = .ok p) :
    ∃ ciphertext plaintext tag state' t, readFrame r s = .ok (ciphertext,t) ∧
      c.pull state data ciphertext = some (plaintext,tag,state') := by
  rw [decryptFrames] at h
  split at h
  · cases h
  · rename_i ciphertext t hread
    cases hpull : c.pull state data ciphertext with
    | none =>
      rw [hpull] at h
      cases h
    | some q => exact ⟨ciphertext,q.1,q.2.1,q.2.2,t,hread,hpull⟩

lemma decryptFrames_total (hc : c.Ideal sessions tagBytes) (hr : r.Steady)
    {e : Session Key StreamHeader UInt8 UInt8} (he : e ∈ sessions) {data : List UInt8}
    {length : ℕ} (hlong : length < 2^64) {pieces : List (List UInt8)} (hcut : Cut pieces)
    {done : List Frame} {total : ℕ} {s : σ}
    (hpushes : done ++ (framesOf data pieces ++ [lastFrame data]) <+: e.pushes)
    (hlength : total + pieces.flatten.length = length)
    (hs : r.left s = frameText c (c.after (c.start e.key e.header) done)
      (framesOf data pieces ++ [lastFrame data])) :
    ∃ t, decryptFrames c r data length total (c.after (c.start e.key e.header) done) s =
      .ok (length,pieces.flatten,t) ∧ r.left t = [] := by
  induction pieces generalizing done total s with
  | nil =>
    have hsealed := hc.length (c.after (c.start e.key e.header) done) (lastFrame data)
    obtain ⟨t, ht, hleft⟩ := exists_readFrame hr hsealed (Nat.zero_le _) hs
    obtain ⟨⟨extra, u⟩, hread⟩ := hr t 1
    obtain rfl := (read_eq_ok hread).mpr hleft
    have hend : [] ++ r.left u = r.left t := (r.gives hread).1
    refine ⟨u,?_,hend.trans hleft⟩
    obtain rfl : total = length := hlength
    have hpull : c.pull (c.after (c.start e.key e.header) done) data
        (c.push (c.after (c.start e.key e.header) done) (lastFrame data)).1 = some ([],final,_) :=
      hc.pull_next he hpushes
    rw [decryptFrames_of_pull ht hpull, if_pos rfl]
    unfold decryptEnd
    rw [require_eq_ok.mpr ⟨rfl,rfl⟩, hread]
    rfl
  | cons piece pieces ih =>
    obtain ⟨⟨hne, hle⟩, hcut⟩ := List.forall_mem_cons.mp hcut
    have hnext : done ++ [⟨data,message,piece⟩] <+: e.pushes := by
      refine List.IsPrefix.trans ?_ hpushes
      exact List.prefix_append_right_inj done |>.mpr (List.prefix_append [_] _)
    have hsealed := hc.length (c.after (c.start e.key e.header) done) ⟨data,message,piece⟩
    rw [List.flatten_cons, List.length_append] at hlength
    obtain ⟨t, ht, hleft⟩ := exists_readFrame hr hsealed hle hs
    have hrest : (done ++ [⟨data,message,piece⟩]) ++ (framesOf data pieces ++ [lastFrame data]) <+:
        e.pushes := by
      rw [List.append_assoc]
      exact hpushes
    have hsum : (total + piece.length) + pieces.flatten.length = length := by omega
    obtain ⟨u, hu, hend⟩ := ih hcut hrest hsum (by rw [hleft, StreamCipher.after_append]; rfl)
    refine ⟨u,?_,hend⟩
    have hpull : c.pull (c.after (c.start e.key e.header) done) data
        (c.push (c.after (c.start e.key e.header) done) ⟨data,message,piece⟩).1 =
          some (piece,message,_) := hc.pull_next he hnext
    rw [decryptFrames_of_pull ht hpull, if_neg (by decide)]
    unfold addFrame
    rw [require_eq_ok.mpr ⟨rfl,hne⟩, require_eq_ok.mpr (by omega), require_eq_ok.mpr (by omega)]
    change (decryptFrames c r data length _ _ t >>= _) = _
    rw [hu]
    rfl

/-- A stream that is read to its end was sealed from there on with the same key and the same header,
and its last frame ends the input. -/
lemma decryptFrames_eq_ok (hc : c.Ideal sessions tagBytes) {key : Key}
    {streamHeader : StreamHeader} {data : List UInt8} {length : ℕ} {done : List Frame}
    {total n : ℕ} {s t : σ} {text : List UInt8}
    (h : decryptFrames c r data length total (c.after (c.start key streamHeader) done) s =
      .ok (n,text,t)) :
    ∃ pieces, text = pieces.flatten ∧ n = length ∧ total + text.length = length ∧ r.left t = [] ∧
      r.left s = frameText c (c.after (c.start key streamHeader) done)
        (framesOf data pieces ++ [lastFrame data]) ∧
      ∃ e ∈ sessions, e.key = key ∧ e.header = streamHeader ∧
        done ++ (framesOf data pieces ++ [lastFrame data]) <+: e.pushes := by
  induction hlen : (r.left s).length using Nat.strongRecOn generalizing done total n text s t with
  | ind len ih =>
    obtain ⟨ciphertext, plaintext, tag, state', u, hread, hpull⟩ := exists_pull h
    rw [decryptFrames_of_pull hread hpull] at h
    obtain ⟨rfl, rfl, hsession⟩ := hc.of_pull hpull
    have hframe := readFrame_eq_ok hread
    rw [hc.length] at hframe
    split_ifs at h with hfinal
    · subst hfinal
      obtain ⟨v, hchecks, h⟩ := bind_eq_ok.mp h
      obtain ⟨⟨extra, w⟩, hextra, h⟩ := bind_eq_ok.mp h
      obtain ⟨x, hempty, h⟩ := bind_eq_ok.mp h
      cases h
      obtain ⟨rfl, rfl⟩ := require_eq_ok.mp hchecks
      obtain rfl := require_eq_ok.mp hempty
      have hend : [] ++ r.left t = r.left u := (r.gives hextra).1
      have hnone : r.left u = [] := (read_eq_ok hextra).mp rfl
      refine ⟨[],rfl,rfl,rfl,hend.trans hnone,?_,hsession⟩
      rw [hframe, hnone]
      rfl
    · obtain ⟨m, hadd, h⟩ := bind_eq_ok.mp h
      obtain ⟨⟨n', rest, w⟩, hrest, h⟩ := bind_eq_ok.mp h
      cases h
      obtain ⟨v, hchecks, hadd⟩ := bind_eq_ok.mp hadd
      obtain ⟨v', -, hadd⟩ := bind_eq_ok.mp hadd
      obtain ⟨v'', -, hadd⟩ := bind_eq_ok.mp hadd
      cases hadd
      obtain ⟨rfl, -⟩ := require_eq_ok.mp hchecks
      obtain ⟨pieces, rfl, rfl, hlength, hend, hleft, hpushes⟩ :=
        ih _ (hlen ▸ readFrame_left hread) hrest rfl
      refine ⟨plaintext :: pieces,rfl,rfl,?_,hend,?_,?_⟩
      · simp only [List.length_append]
        omega
      · rw [hframe, hleft, StreamCipher.after_append]
        rfl
      · rw [List.append_assoc] at hpushes
        exact hpushes

/-! ### Whole objects -/

lemma framesOf_of_isPrefix {data data' : List UInt8} {pieces pieces' : List (List UInt8)}
    (h : framesOf data pieces ++ [lastFrame data] <+: framesOf data' pieces' ++ [lastFrame data']) :
    data = data' ∧ pieces = pieces' := by
  induction pieces generalizing pieces' with
  | nil =>
    cases pieces' with
    | nil =>
      have hhead := (List.cons_prefix_cons.mp h).1
      exact ⟨congrArg Push.data hhead,rfl⟩
    | cons piece' pieces' =>
      have htag : final = message := congrArg Push.tag (List.cons_prefix_cons.mp h).1
      cases htag
  | cons piece pieces ih =>
    cases pieces' with
    | nil =>
      have htag : message = final := congrArg Push.tag (List.cons_prefix_cons.mp h).1
      cases htag
    | cons piece' pieces' =>
      obtain ⟨hhead, htail⟩ := List.cons_prefix_cons.mp h
      obtain ⟨hdata, rfl⟩ := ih htail
      obtain rfl : piece = piece' := congrArg Push.message hhead
      exact ⟨hdata,rfl⟩

lemma ofLeBytes_lt (bytes : List UInt8) : ofLeBytes bytes < 256^bytes.length := by
  have hlt := Nat.ofDigits_lt_base_pow_length (b := 256) (l := bytes.map UInt8.toNat)
    (by decide) (by
      intro n hn
      obtain ⟨b, -, rfl⟩ := List.mem_map.mp hn
      exact b.toNat_lt)
  rw [List.length_map] at hlt
  exact hlt

lemma aad_injective {binding binding' data : List UInt8} {length length' : ℕ}
    (h : aad binding length = .ok data) (h' : aad binding' length' = .ok data)
    (hlt : length < 2^64) (hlt' : length' < 2^64) : binding = binding' ∧ length = length' := by
  obtain ⟨rfl, -⟩ := aad_eq_ok h
  have heq := (aad_eq_ok h').1
  simp only [List.append_assoc, List.append_cancel_left_eq] at heq
  obtain ⟨hlength, heq⟩ := List.append_inj heq rfl
  obtain ⟨-, rfl⟩ := List.append_inj heq rfl
  have hvalue := congrArg ofLeBytes hlength
  rw [Pack.ofLeBytes_leBytes hlt, Pack.ofLeBytes_leBytes hlt'] at hvalue
  exact ⟨rfl,hvalue⟩

variable {calls : Set Call}

lemma length_frameText (hc : c.Ideal sessions tagBytes) (state : c.State) (data : List UInt8)
    (pieces : List (List UInt8)) : (frameText c state (framesOf data pieces)).length =
      pieces.length * (4 + 17) + pieces.flatten.length := by
  induction pieces generalizing state with
  | nil => rfl
  | cons piece pieces ih =>
    have hsealed := hc.length state ⟨data,message,piece⟩
    have htag : tagBytes = 17 := rfl
    have hfour : ∀ n, (leBytes32 n).length = 4 := fun _ => rfl
    change (leBytes32 _ ++ (c.push state ⟨data,message,piece⟩).1 ++
      frameText c _ (framesOf data pieces)).length = _
    simp only [List.length_append, ih, hfour, hsealed, List.flatten_cons, List.length_cons]
    omega

lemma checkedU64_bind (a b : ℕ) :
    (checkedU64 a >>= fun n => checkedU64 (n + b)) = checkedU64 (a + b) := by
  unfold checkedU64
  by_cases ha : a < 2^64
  · rw [if_pos ha]
    rfl
  · rw [if_neg ha, if_neg (by omega)]
    rfl

lemma ciphertextLength_eq (hc : c.Ideal sessions tagBytes) {key : Key} {streamHeader : StreamHeader}
    {data : List UInt8} {pieces : List (List UInt8)} {length : ℕ}
    (hlength : pieces.flatten.length = length)
    (hcount : pieces.length = (length + (frameBytes - 1)) / frameBytes) :
    ciphertextLength length = checkedU64
      (objectText c key length streamHeader (framesOf data pieces ++ [lastFrame data])).length := by
  have hlast := hc.length (c.after (c.start key streamHeader) (framesOf data pieces)) (lastFrame data)
  have htext : (objectText c key length streamHeader
      (framesOf data pieces ++ [lastFrame data])).length =
        pieces.length * (4 + 17) + length + (4 + 8 + 24 + 4 + 17) := by
    have htag : (lastFrame data).message.length + tagBytes = 17 := rfl
    have hfour : ∀ n, (leBytes32 n).length = 4 := fun _ => rfl
    have hmagic : magic.length = 4 := rfl
    simp only [objectText, frameText_append, frameText, List.length_append, length_frameText hc,
      hlength, hfour, hlast, htag, hmagic, Pack.length_leBytes, streamHeader.property,
      List.length_nil]
    omega
  have hframe : frameBytes = 64*1024 := rfl
  rw [htext, hcount, hframe, ← checkedU64_bind, ← checkedU64_bind, bind_assoc]
  rfl

lemma ciphertextLength_of_run (hc : c.Ideal sessions tagBytes) {call : Call} {text : List UInt8}
    {u : call.source} (hrun : (call.run c).result = .ok (text,u)) :
    ciphertextLength call.length.toNat = checkedU64 text.length := by
  obtain ⟨pieces, data, v, -, -, -, hlength, hcount, hresult⟩ | ⟨e, he, -⟩ := encrypt_spec
    (c := c) (r := call.reader) call.key call.streamHeader call.binding call.length.toNat call.input
  · unfold Call.run at hrun
    rw [hresult] at hrun
    cases hrun
    exact ciphertextLength_eq hc hlength hcount
  · unfold Call.run at hrun
    rw [he] at hrun
    cases hrun

lemma decrypt_of_read {key : Key} {binding data : List UInt8} {maxLength : ℕ} {s s₁ s₂ s₃ : σ}
    {start : {bytes : List UInt8 // bytes.length = 4}}
    {length : {bytes : List UInt8 // bytes.length = 8}} {streamHeader : StreamHeader}
    (h₁ : r.readExact unexpectedEof s 4 = .ok (start,s₁)) (hstart : start.val = magic)
    (h₂ : r.readExact unexpectedEof s₁ 8 = .ok (length,s₂)) (hmax : ofLeBytes length.val ≤ maxLength)
    (haad : aad binding (ofLeBytes length.val) = .ok data)
    (h₃ : r.readExact unexpectedEof s₂ 24 = .ok (streamHeader,s₃)) :
    decrypt c r key binding maxLength s =
      decryptFrames c r data (ofLeBytes length.val) 0 (c.start key streamHeader) s₃ := by
  unfold decrypt
  rw [h₁]
  change (require (start.val = magic) _ >>= fun _ => r.readExact unexpectedEof s₁ 8 >>= _) = _
  rw [require_eq_ok.mpr hstart]
  change (r.readExact unexpectedEof s₁ 8 >>= _) = _
  rw [h₂]
  change (require (ofLeBytes length.val ≤ maxLength) _ >>= fun _ => _ >>= _) = _
  rw [require_eq_ok.mpr hmax]
  change (aad binding (ofLeBytes length.val) >>= fun _ => r.readExact unexpectedEof s₂ 24 >>= _) = _
  rw [haad]
  change (r.readExact unexpectedEof s₂ 24 >>= _) = _
  rw [h₃]
  rfl

lemma decrypt_total (hc : c.Ideal (Call.session c '' calls) tagBytes) (hr : r.Steady) {call : Call}
    (hcall : call ∈ calls) {out : List UInt8} {u : call.source}
    (hrun : (call.run c).result = .ok (out,u)) {maxLength : ℕ} (hmax : call.length.toNat ≤ maxLength)
    {s : σ} (hs : r.left s = out) :
    ∃ t, decrypt c r call.key call.binding maxLength s =
      .ok (call.length.toNat,call.reader.left call.input,t) ∧ r.left t = [] := by
  obtain ⟨pieces, data, v, haad, hcut, hleft, hlength, -, hresult⟩ | ⟨e, he, -⟩ := encrypt_spec
    (c := c) (r := call.reader) call.key call.streamHeader call.binding call.length.toNat call.input
  · unfold Call.run at hrun
    rw [hresult] at hrun
    cases hrun
    have hlong : call.length.toNat < 2^64 := call.length.toNat_lt
    have hvalue := Pack.ofLeBytes_leBytes hlong
    unfold objectText at hs
    simp only [List.append_assoc] at hs
    obtain ⟨s₁, h₁, hs⟩ := Source.exists_readExact hr unexpectedEof (k := 4) rfl hs
    obtain ⟨s₂, h₂, hs⟩ := Source.exists_readExact hr unexpectedEof (k := 8) rfl hs
    obtain ⟨s₃, h₃, hs⟩ := Source.exists_readExact hr unexpectedEof call.streamHeader.property hs
    have hpushes : [] ++ (framesOf data pieces ++ [lastFrame data]) <+: (call.session c).pushes := by
      unfold Call.session Call.run
      rw [hresult]
      exact List.prefix_rfl
    have hzero : 0 + pieces.flatten.length = call.length.toNat := by rw [Nat.zero_add, hlength]
    obtain ⟨t, ht, hend⟩ :=
      decryptFrames_total hc hr ⟨call,hcall,rfl⟩ hlong hcut hpushes hzero hs
    refine ⟨t,?_,hend⟩
    rw [decrypt_of_read h₁ rfl h₂
      (by rw [hvalue]; exact hmax) (by rw [hvalue]; exact haad) h₃, hvalue, hleft]
    exact ht
  · unfold Call.run at hrun
    rw [he] at hrun
    cases hrun

/-- What is decrypted is the whole output of one call with this key and this binding, and gives what
that call encrypted. -/
lemma decrypt_eq_ok (hc : c.Ideal (Call.session c '' calls) tagBytes) {key : Key}
    {binding : List UInt8} {maxLength n : ℕ} {s t : σ} {text : List UInt8}
    (h : decrypt c r key binding maxLength s = .ok (n,text,t)) :
    ∃ call ∈ calls, call.key = key ∧ call.binding = binding ∧ call.length.toNat = n ∧
      n ≤ maxLength ∧ text = call.reader.left call.input ∧ text.length = n ∧
      (∃ u, (call.run c).result = .ok (r.left s,u)) ∧ r.left t = [] ∧
      ∃ data pieces, (call.session c).pushes = framesOf data pieces ++ [lastFrame data] ∧
        pieces.flatten = text ∧
        r.left s = objectText c key n call.streamHeader (call.session c).pushes := by
  obtain ⟨⟨start, s₁⟩, h₁, h⟩ := bind_eq_ok.mp h
  obtain ⟨v, hmagic, h⟩ := bind_eq_ok.mp h
  obtain ⟨⟨length, s₂⟩, h₂, h⟩ := bind_eq_ok.mp h
  obtain ⟨v', hmax, h⟩ := bind_eq_ok.mp h
  obtain ⟨data, haad, h⟩ := bind_eq_ok.mp h
  obtain ⟨⟨streamHeader, s₃⟩, h₃, h⟩ := bind_eq_ok.mp h
  have hlong : ofLeBytes length.val < 2^64 := by
    have hlt := ofLeBytes_lt length.val
    rw [length.property] at hlt
    exact hlt
  have hframes : decryptFrames c r data (ofLeBytes length.val) 0
      (c.after (c.start key streamHeader) []) s₃ = .ok (n,text,t) := h
  obtain ⟨pieces, rfl, rfl, htotal, hend, hleft, e, ⟨call, hcall, rfl⟩, rfl, rfl, hpushes⟩ :=
    decryptFrames_eq_ok hc hframes
  obtain ⟨pieces', data', u, haad', -, hinput, hlength, -, hresult⟩ | ⟨e, -, hmessages⟩ := encrypt_spec
    (c := c) (r := call.reader) call.key call.streamHeader call.binding call.length.toNat call.input
  · have hwrites : (call.session c).pushes = framesOf data' pieces' ++ [lastFrame data'] := by
      unfold Call.session Call.run
      rw [hresult]
    rw [hwrites, List.nil_append] at hpushes
    obtain ⟨rfl, rfl⟩ := framesOf_of_isPrefix hpushes
    obtain ⟨hbinding, hsame⟩ := aad_injective haad' haad call.length.toNat_lt hlong
    rw [Nat.zero_add] at htotal
    have hstart := require_eq_ok.mp hmagic
    have htext : r.left s = objectText c call.key (ofLeBytes length.val) call.streamHeader
        (framesOf data pieces ++ [lastFrame data]) := by
      rw [readExact_eq_ok h₁, readExact_eq_ok h₂, readExact_eq_ok h₃, hleft, hstart, objectText,
        leBytes_of_length length.property]
      simp only [List.append_assoc]
      rfl
    refine ⟨call,hcall,rfl,hbinding,hsame,require_eq_ok.mp hmax,hinput.symm,htotal,⟨u,?_⟩,hend,
      data,pieces,hwrites,rfl,by rw [hwrites]; exact htext⟩
    unfold Call.run
    rw [hresult, htext, hsame]
  · have hlast : lastFrame data ∈ (call.session c).pushes := by
      apply hpushes.subset
      simp
    have htag : final = message := hmessages _ hlast
    cases htag

end

end RisuNest.External.SecretStream
