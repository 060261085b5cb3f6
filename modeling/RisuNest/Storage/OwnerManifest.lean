import RisuNest.Lib.Framing
import RisuNest.Lib.LittleEndian
import RisuNest.Wire.JsonText

/-! The manifest of an owner's assets as bytes (`owner_manifest_codec.rs`): what is encoded is
decoded, and every accepted text is the one that encodes its entries. -/
namespace RisuNest.Storage.OwnerManifest
open Wire (utf8)

/-- A SHA-256 digest. -/
structure PayloadHash where
  bytes : List UInt8
  length_eq : bytes.length = 32
  deriving DecidableEq

structure OwnerManifestEntry where
  tuple : String × String × String
  payloadHash : Option PayloadHash
  deriving DecidableEq

def OwnerManifestEntry.values (entry : OwnerManifestEntry) : List String :=
  [entry.tuple.1,entry.tuple.2.1,entry.tuple.2.2]

abbrev Result := Except String

def magic : List UInt8 := utf8 "ROMF".toList
def version : UInt8 := 1
def headerBytes : ℕ := 9
def minEntryBytes : ℕ := 13
def u32Max : ℕ := 4294967295
def usizeMax : ℕ := 18446744073709551615

def ownerManifestV1MaxCanonicalBytes : ℕ := u32Max

def tooLarge : String := "owner manifest exceeds V1 size limit"
def stringTooLarge : String := "owner manifest string exceeds V1 size limit"
def tooManyEntries : String := "owner manifest entry count exceeds V1 limit"

def checkedAdd (a b : ℕ) : Option ℕ := if a + b ≤ usizeMax then some (a + b) else none

/-! ### Encoding -/

def asBytes (value : String) : List UInt8 := utf8 value.toList

def writeString (bytes : List UInt8) (value : String) : Result (List UInt8) := do
  require ((asBytes value).length ≤ u32Max) stringTooLarge
  pure (bytes ++ toLittleEndian 4 (asBytes value).length ++ asBytes value)

/-- The size after one more string, computed before anything is written. -/
def addString (size : ℕ) (value : String) : Result ℕ := do
  require ((asBytes value).length ≤ u32Max) stringTooLarge
  match (checkedAdd size 4).bind fun size => checkedAdd size (asBytes value).length with
  | some size => .ok size
  | none => .error tooLarge

def addMarker (size : ℕ) (payloadHash : Option PayloadHash) : Result ℕ :=
  match checkedAdd size (1 + if payloadHash.isSome then 32 else 0) with
  | some size => .ok size
  | none => .error tooLarge

def addEntry (maximumCanonicalBytes size : ℕ) (entry : OwnerManifestEntry) : Result ℕ := do
  let size ← entry.values.foldlM addString size
  let size ← addMarker size entry.payloadHash
  require (size ≤ maximumCanonicalBytes) tooLarge
  pure size

def canonicalBytes (entries : List OwnerManifestEntry) (maximumCanonicalBytes : ℕ) : Result ℕ := do
  let size ← entries.foldlM (addEntry maximumCanonicalBytes) headerBytes
  require (size ≤ maximumCanonicalBytes) tooLarge
  pure size

def markerBytes : Option PayloadHash → List UInt8
  | none => [0]
  | some hash => 1 :: hash.bytes

def writeEntry (bytes : List UInt8) (entry : OwnerManifestEntry) : Result (List UInt8) := do
  let bytes ← entry.values.foldlM writeString bytes
  pure (bytes ++ markerBytes entry.payloadHash)

def header (entryCount : ℕ) : List UInt8 := magic ++ version :: toLittleEndian 4 entryCount

def encodeOwnerManifestWithLimit (entries : List OwnerManifestEntry)
    (maximumCanonicalBytes : ℕ) : Result (List UInt8) := do
  require (entries.length ≤ u32Max) tooManyEntries
  let maximumCanonicalBytes := min maximumCanonicalBytes ownerManifestV1MaxCanonicalBytes
  let _ ← canonicalBytes entries maximumCanonicalBytes
  entries.foldlM writeEntry (header entries.length)

def encodeOwnerManifest (entries : List OwnerManifestEntry) : Result (List UInt8) :=
  encodeOwnerManifestWithLimit entries ownerManifestV1MaxCanonicalBytes

/-! ### Decoding -/

/-- `ByteReader::read_bytes`; a reader is what it has left. -/
def readBytes (length : ℕ) (context : String) (reader : List UInt8) :
    Result (List UInt8 × List UInt8) :=
  if length > reader.length then .error context
  else .ok (reader.take length,reader.drop length)

def readU8 (context : String) (reader : List UInt8) : Result (UInt8 × List UInt8) := do
  let (bytes, reader) ← readBytes 1 context reader
  pure (bytes.headD 0,reader)

def readU32 (context : String) (reader : List UInt8) : Result (ℕ × List UInt8) := do
  let (bytes, reader) ← readBytes 4 context reader
  pure (littleEndian bytes,reader)

def fromUtf8 (bytes : List UInt8) : Result String :=
  match String.fromUTF8? ⟨bytes.toArray⟩ with
  | some value => .ok value
  | none => .error "invalid UTF-8 in owner manifest string"

def readString (reader : List UInt8) : Result (String × List UInt8) := do
  let (length, reader) ← readU32 "truncated string length" reader
  let (bytes, reader) ← readBytes length "truncated string" reader
  let value ← fromUtf8 bytes
  pure (value,reader)

def readHash (reader : List UInt8) : Result (PayloadHash × List UInt8) :=
  if h : 32 > reader.length then .error "truncated payload hash"
  else .ok (⟨reader.take 32,by rw [List.length_take]; omega⟩,reader.drop 32)

def readMarker (reader : List UInt8) : Result (Option PayloadHash × List UInt8) := do
  let (marker, reader) ← readU8 "truncated payload hash marker" reader
  if marker = 0 then pure (none,reader)
  else if marker = 1 then do
    let (hash, reader) ← readHash reader
    pure (some hash,reader)
  else .error "invalid payload hash marker"

def readEntry (reader : List UInt8) : Result (OwnerManifestEntry × List UInt8) := do
  let (first, reader) ← readString reader
  let (second, reader) ← readString reader
  let (third, reader) ← readString reader
  let (payloadHash, reader) ← readMarker reader
  pure (⟨(first,second,third),payloadHash⟩,reader)

/-- The header, and the entries it counts. -/
def readManifest (reader : List UInt8) : Result (List OwnerManifestEntry × List UInt8) := do
  let (start, reader) ← readBytes 4 "truncated owner manifest magic" reader
  require (start = magic) "invalid owner manifest magic"
  let (number, reader) ← readU8 "truncated owner manifest version" reader
  require (number = version) "unsupported owner manifest version"
  let (entryCount, reader) ← readU32 "truncated owner manifest entry count" reader
  require (entryCount ≤ reader.length/minEntryBytes)
    "owner manifest entry count exceeds remaining bytes"
  readMany readEntry entryCount reader

def decodeOwnerManifestWithLimit (bytes : List UInt8) (maximumCanonicalBytes : ℕ) :
    Result (List OwnerManifestEntry) := do
  let maximumCanonicalBytes := min maximumCanonicalBytes ownerManifestV1MaxCanonicalBytes
  require (bytes.length ≤ maximumCanonicalBytes) tooLarge
  let (entries, reader) ← readManifest bytes
  require (reader.length = 0) "trailing bytes after owner manifest"
  pure entries

def decodeOwnerManifest (bytes : List UInt8) : Result (List OwnerManifestEntry) :=
  decodeOwnerManifestWithLimit bytes ownerManifestV1MaxCanonicalBytes

/-! ### The bytes of an entry -/

/-- A text whose length has four bytes. -/
def Fits (value : String) : Prop := (asBytes value).length ≤ u32Max

def OwnerManifestEntry.Fits (entry : OwnerManifestEntry) : Prop :=
  ∀ value ∈ entry.values, OwnerManifest.Fits value

def stringBytes (value : String) : List UInt8 :=
  toLittleEndian 4 (asBytes value).length ++ asBytes value

def entryBytes (entry : OwnerManifestEntry) : List UInt8 :=
  entry.values.flatMap stringBytes ++ markerBytes entry.payloadHash

lemma length_markerBytes (payloadHash : Option PayloadHash) :
    (markerBytes payloadHash).length = 1 + if payloadHash.isSome then 32 else 0 := by
  cases payloadHash with
  | none => rfl
  | some hash => simp [markerBytes, hash.length_eq]

lemma length_entryBytes (entry : OwnerManifestEntry) :
    (entryBytes entry).length = (entry.values.map fun v => (stringBytes v).length).sum +
      (1 + if entry.payloadHash.isSome then 32 else 0) := by
  rw [entryBytes, List.length_append, List.length_flatMap, length_markerBytes]

lemma minEntryBytes_le (entry : OwnerManifestEntry) : minEntryBytes ≤ (entryBytes entry).length := by
  simp only [length_entryBytes, OwnerManifestEntry.values, stringBytes, List.map_cons, List.map_nil,
    List.sum_cons, List.sum_nil, List.length_append, length_toLittleEndian, minEntryBytes]
  omega

lemma length_header (entryCount : ℕ) : (header entryCount).length = headerBytes := by
  rw [header, List.length_append, List.length_cons, length_toLittleEndian]
  rfl

/-! ### What is encoded -/

lemma writeString_eq_ok (bytes : List UInt8) (value : String) (out : List UInt8) :
    writeString bytes value = .ok out ↔ Fits value ∧ out = bytes ++ stringBytes value := by
  simp only [writeString, require_bind_eq_ok, Fits, stringBytes, List.append_assoc]
  simp [pure, Except.pure, eq_comm]

lemma writeEntry_eq_ok (bytes : List UInt8) (entry : OwnerManifestEntry) (out : List UInt8) :
    writeEntry bytes entry = .ok out ↔ entry.Fits ∧ out = bytes ++ entryBytes entry := by
  simp only [writeEntry, bind_eq_ok, foldlM_appends writeString_eq_ok, entryBytes,
    OwnerManifestEntry.Fits]
  constructor
  · rintro ⟨mid,⟨hfits,rfl⟩,hout⟩
    cases hout
    exact ⟨hfits,List.append_assoc ..⟩
  · rintro ⟨hfits,rfl⟩
    exact ⟨_,⟨hfits,rfl⟩,congrArg Except.ok (List.append_assoc ..)⟩

lemma checkedAdd_eq_some {a b n : ℕ} : checkedAdd a b = some n ↔ n = a + b ∧ n ≤ usizeMax := by
  unfold checkedAdd
  split_ifs with h
  · simp only [Option.some.injEq]
    omega
  · simp only [false_iff]
    omega

lemma addString_eq_ok (size : ℕ) (value : String) (out : ℕ) :
    addString size value = .ok out ↔
      Fits value ∧ out = size + (stringBytes value).length ∧ out ≤ usizeMax := by
  have hchecked : (checkedAdd size 4).bind (fun size => checkedAdd size (asBytes value).length) =
      some out ↔ out = size + (stringBytes value).length ∧ out ≤ usizeMax := by
    simp only [Option.bind_eq_some_iff, checkedAdd_eq_some, stringBytes, List.length_append,
      length_toLittleEndian]
    constructor
    · rintro ⟨mid,⟨rfl,_⟩,rfl,hout⟩
      exact ⟨by omega,hout⟩
    · rintro ⟨rfl,hout⟩
      exact ⟨_,⟨rfl,by omega⟩,by omega,hout⟩
  rw [← hchecked, addString, require_bind_eq_ok, Fits]
  cases (checkedAdd size 4).bind fun size => checkedAdd size (asBytes value).length with
  | none => simp
  | some n => simp

lemma addMarker_eq_ok (size : ℕ) (payloadHash : Option PayloadHash) (out : ℕ) :
    addMarker size payloadHash = .ok out ↔
      out = size + (1 + if payloadHash.isSome then 32 else 0) ∧ out ≤ usizeMax := by
  rw [← checkedAdd_eq_some, addMarker]
  cases checkedAdd size (1 + if payloadHash.isSome then 32 else 0) with
  | none => simp
  | some n => simp

lemma addEntry_eq_ok {limit : ℕ} (hlimit : limit ≤ usizeMax) (size : ℕ)
    (entry : OwnerManifestEntry) (out : ℕ) :
    addEntry limit size entry = .ok out ↔
      entry.Fits ∧ out = size + (entryBytes entry).length ∧ out ≤ limit := by
  simp only [addEntry, bind_eq_ok, foldlM_adds addString_eq_ok, addMarker_eq_ok,
    OwnerManifestEntry.Fits, length_entryBytes]
  constructor
  · rintro ⟨texts,⟨hfits,rfl,_⟩,all,⟨rfl,_⟩,_,hcheck,hout⟩
    have hle := require_eq_ok.mp hcheck
    cases hout
    exact ⟨hfits,by omega,hle⟩
  · rintro ⟨hfits,rfl,hle⟩
    exact ⟨_,⟨hfits,rfl,fun _ => by omega⟩,_,⟨rfl,by omega⟩,(),require_eq_ok.mpr (by omega),
      congrArg Except.ok (by omega)⟩

lemma canonicalBytes_eq_ok {limit : ℕ} (hlimit : limit ≤ usizeMax)
    (entries : List OwnerManifestEntry) (out : ℕ) :
    canonicalBytes entries limit = .ok out ↔ (∀ entry ∈ entries, entry.Fits) ∧
      out = headerBytes + (entries.flatMap entryBytes).length ∧ out ≤ limit := by
  simp only [canonicalBytes, bind_eq_ok, foldlM_adds (addEntry_eq_ok hlimit), List.length_flatMap]
  constructor
  · rintro ⟨size,⟨hfits,rfl,_⟩,_,hcheck,hout⟩
    have hle := require_eq_ok.mp hcheck
    cases hout
    exact ⟨hfits,rfl,hle⟩
  · rintro ⟨hfits,rfl,hle⟩
    exact ⟨_,⟨hfits,rfl,fun _ => hle⟩,(),require_eq_ok.mpr hle,rfl⟩

/-- The bytes of a whole manifest. -/
def manifestBytes (entries : List OwnerManifestEntry) : List UInt8 :=
  header entries.length ++ entries.flatMap entryBytes

/-- The entries that have a manifest within a limit. -/
structure Encodable (entries : List OwnerManifestEntry) (limit : ℕ) : Prop where
  count : entries.length ≤ u32Max
  fits : ∀ entry ∈ entries, entry.Fits
  size : (manifestBytes entries).length ≤ min limit ownerManifestV1MaxCanonicalBytes

lemma canonicalBytes_limit_eq_ok {entries : List OwnerManifestEntry} {limit n : ℕ} :
    canonicalBytes entries (min limit ownerManifestV1MaxCanonicalBytes) = .ok n ↔
      (∀ entry ∈ entries, entry.Fits) ∧ n = (manifestBytes entries).length ∧
        n ≤ min limit ownerManifestV1MaxCanonicalBytes := by
  have hle : min limit ownerManifestV1MaxCanonicalBytes ≤ usizeMax :=
    (min_le_right ..).trans (by decide)
  rw [canonicalBytes_eq_ok hle, manifestBytes, List.length_append, length_header]

theorem encode_eq_ok {entries : List OwnerManifestEntry} {limit : ℕ} {bytes : List UInt8} :
    encodeOwnerManifestWithLimit entries limit = .ok bytes ↔
      Encodable entries limit ∧ bytes = manifestBytes entries := by
  rw [encodeOwnerManifestWithLimit, require_bind_eq_ok]
  simp only [bind_eq_ok, canonicalBytes_limit_eq_ok, foldlM_appends writeEntry_eq_ok]
  constructor
  · rintro ⟨hcount,n,⟨hfits,rfl,hsize⟩,_,rfl⟩
    exact ⟨⟨hcount,hfits,hsize⟩,rfl⟩
  · rintro ⟨⟨hcount,hfits,hsize⟩,rfl⟩
    exact ⟨hcount,_,⟨hfits,rfl,hsize⟩,hfits,rfl⟩

/-! ### What is decoded -/

theorem framing_bytes (count : ℕ) (context : String) :
    Framing (fun bytes => bytes.length = count) (readBytes count context) (fun bytes => bytes) where
  reads := by
    intro bytes h rest
    subst h
    simp [readBytes]
  only := by
    intro input bytes rest h
    unfold readBytes at h
    split_ifs at h with hlen
    obtain ⟨rfl,rfl⟩ := Prod.mk.inj (Except.ok.inj h)
    exact ⟨List.length_take_of_le (Nat.le_of_not_lt hlen),(List.take_append_drop count input).symm⟩

theorem framing_u8 (context : String) :
    Framing (fun _ => True) (readU8 context) (fun b => [b]) where
  reads := by
    intro b _ rest
    exact bind_eq_ok.mpr ⟨_,(framing_bytes 1 context).reads rfl rest,rfl⟩
  only := by
    intro input b rest h
    obtain ⟨⟨bytes,tail⟩,hb,h⟩ := bind_eq_ok.mp h
    obtain ⟨rfl,rfl⟩ := Prod.mk.inj (Except.ok.inj h)
    obtain ⟨hlen,rfl⟩ := (framing_bytes 1 context).only hb
    obtain ⟨a,rfl⟩ := List.length_eq_one_iff.mp hlen
    exact ⟨trivial,rfl⟩

theorem framing_u32 (context : String) :
    Framing (fun n => n ≤ u32Max) (readU32 context) (toLittleEndian 4) where
  reads := by
    intro n hn rest
    refine bind_eq_ok.mpr ⟨_,(framing_bytes 4 context).reads (length_toLittleEndian 4 n) rest,?_⟩
    unfold u32Max at hn
    change Except.ok (littleEndian (toLittleEndian 4 n),rest) = _
    rw [littleEndian_toLittleEndian, Nat.mod_eq_of_lt (by omega)]
  only := by
    intro input n rest h
    obtain ⟨⟨bytes,tail⟩,hb,h⟩ := bind_eq_ok.mp h
    obtain ⟨rfl,rfl⟩ := Prod.mk.inj (Except.ok.inj h)
    obtain ⟨hlen,rfl⟩ := (framing_bytes 4 context).only hb
    have hlt := littleEndian_lt bytes
    have hback := toLittleEndian_littleEndian bytes
    rw [hlen] at hlt hback
    unfold u32Max
    exact ⟨by omega,by rw [hback]⟩

lemma fromUtf8_eq_ok {bytes : List UInt8} {value : String} :
    fromUtf8 bytes = .ok value ↔ bytes = asBytes value := by
  rw [asBytes, ← Wire.JsonText.fromUTF8_eq_some, fromUtf8]
  cases String.fromUTF8? ⟨bytes.toArray⟩ with
  | none => simp
  | some s => simp

/-- A text after its length. -/
def readText (length : ℕ) (reader : List UInt8) : Result (String × List UInt8) := do
  let (bytes, reader) ← readBytes length "truncated string" reader
  let value ← fromUtf8 bytes
  pure (value,reader)

theorem framing_text (length : ℕ) :
    Framing (fun value => (asBytes value).length = length ∧ True) (readText length) asBytes := by
  have h : Framing (fun value => (asBytes value).length = length) (readText length) asBytes :=
    (framing_bytes length "truncated string").parsed fromUtf8 asBytes fun _ _ _ => fromUtf8_eq_ok
  simpa only [and_true] using h

theorem framing_string : Framing Fits readString stringBytes := by
  have h : Framing (fun value => (asBytes value).length ≤ u32Max ∧ True)
      (fun input => do
        let (length, input) ← readU32 "truncated string length" input
        readText length input)
      (fun value => toLittleEndian 4 (asBytes value).length ++ asBytes value) :=
    (framing_u32 "truncated string length").tagged (fun value => (asBytes value).length)
      fun length _ => framing_text length
  exact ⟨fun hv rest => h.reads ⟨hv,trivial⟩ rest,fun hr => ⟨(h.only hr).1.1,(h.only hr).2⟩⟩

theorem framing_hash : Framing (fun _ => True) readHash PayloadHash.bytes where
  reads := by
    intro hash _ rest
    have hlen : ¬ 32 > (hash.bytes ++ rest).length := by
      rw [List.length_append, hash.length_eq]
      omega
    rw [readHash, dif_neg hlen]
    simp only [← hash.length_eq, List.take_left, List.drop_left]
  only := by
    intro input hash rest h
    unfold readHash at h
    split_ifs at h with hlen
    obtain ⟨rfl,rfl⟩ := Prod.mk.inj (Except.ok.inj h)
    exact ⟨trivial,(List.take_append_drop 32 input).symm⟩

theorem framing_marker : Framing (fun _ => True) readMarker markerBytes where
  reads := by
    intro payloadHash _ rest
    cases payloadHash with
    | none => exact bind_eq_ok.mpr ⟨_,(framing_u8 _).reads trivial rest,rfl⟩
    | some hash =>
      refine bind_eq_ok.mpr ⟨_,(framing_u8 _).reads trivial (hash.bytes ++ rest),?_⟩
      exact bind_eq_ok.mpr ⟨_,Framing.reads framing_hash trivial rest,rfl⟩
  only := by
    intro input payloadHash rest h
    obtain ⟨⟨marker,mid⟩,hmarker,hrest⟩ := bind_eq_ok.mp h
    obtain ⟨-,rfl⟩ := (framing_u8 _).only hmarker
    dsimp only at hrest
    split_ifs at hrest with hzero hone
    · obtain ⟨rfl,rfl⟩ := Prod.mk.inj (Except.ok.inj hrest)
      exact ⟨trivial,by rw [hzero]; rfl⟩
    · obtain ⟨⟨hash,tail⟩,hhash,hlast⟩ := bind_eq_ok.mp hrest
      obtain ⟨rfl,rfl⟩ := Prod.mk.inj (Except.ok.inj hlast)
      obtain ⟨-,rfl⟩ := Framing.only framing_hash hhash
      exact ⟨trivial,by rw [hone]; rfl⟩

theorem framing_entry : Framing OwnerManifestEntry.Fits readEntry entryBytes where
  reads := by
    rintro ⟨⟨first,second,third⟩,payloadHash⟩ hfits rest
    simp only [OwnerManifestEntry.Fits, OwnerManifestEntry.values, List.forall_mem_cons] at hfits
    obtain ⟨hfirst,hsecond,hthird,-⟩ := hfits
    simp only [entryBytes, OwnerManifestEntry.values, List.flatMap_cons, List.flatMap_nil,
      List.append_nil, List.append_assoc]
    refine bind_eq_ok.mpr ⟨_,Framing.reads framing_string hfirst _,?_⟩
    refine bind_eq_ok.mpr ⟨_,Framing.reads framing_string hsecond _,?_⟩
    refine bind_eq_ok.mpr ⟨_,Framing.reads framing_string hthird _,?_⟩
    exact bind_eq_ok.mpr ⟨_,Framing.reads framing_marker trivial rest,rfl⟩
  only := by
    intro input entry rest h
    obtain ⟨⟨first,input1⟩,hread1,h1⟩ := bind_eq_ok.mp h
    obtain ⟨⟨second,input2⟩,hread2,h2⟩ := bind_eq_ok.mp h1
    obtain ⟨⟨third,input3⟩,hread3,h3⟩ := bind_eq_ok.mp h2
    obtain ⟨⟨payloadHash,input4⟩,hread4,h4⟩ := bind_eq_ok.mp h3
    obtain ⟨rfl,rfl⟩ := Prod.mk.inj (Except.ok.inj h4)
    clear h h1 h2 h3 h4
    obtain ⟨hfirst,rfl⟩ := Framing.only framing_string hread1
    obtain ⟨hsecond,rfl⟩ := Framing.only framing_string hread2
    obtain ⟨hthird,rfl⟩ := Framing.only framing_string hread3
    obtain ⟨-,rfl⟩ := Framing.only framing_marker hread4
    constructor
    · simp [OwnerManifestEntry.Fits, OwnerManifestEntry.values, hfirst, hsecond, hthird]
    · simp [entryBytes, OwnerManifestEntry.values]

lemma minEntryBytes_mul_le (entries : List OwnerManifestEntry) :
    entries.length*minEntryBytes ≤ (entries.flatMap entryBytes).length := by
  induction entries with
  | nil => simp
  | cons entry entries ih =>
    have := minEntryBytes_le entry
    rw [List.flatMap_cons, List.length_append, List.length_cons, Nat.add_mul]
    omega

theorem readManifest_eq_ok {input rest : List UInt8} {entries : List OwnerManifestEntry} :
    readManifest input = .ok (entries,rest) ↔ entries.length ≤ u32Max ∧
      (∀ entry ∈ entries, entry.Fits) ∧ input = manifestBytes entries ++ rest := by
  constructor
  · intro h
    obtain ⟨⟨start,input1⟩,hstart,h1⟩ := bind_eq_ok.mp h
    obtain ⟨hmagic,h2⟩ := require_bind_eq_ok.mp h1
    obtain ⟨⟨number,input2⟩,hnumber,h3⟩ := bind_eq_ok.mp h2
    obtain ⟨hversion,h4⟩ := require_bind_eq_ok.mp h3
    obtain ⟨⟨entryCount,input3⟩,hcount,h5⟩ := bind_eq_ok.mp h4
    obtain ⟨-,hmany⟩ := require_bind_eq_ok.mp h5
    clear h h1 h2 h3 h4 h5
    obtain ⟨-,rfl⟩ := (framing_bytes 4 _).only hstart
    obtain ⟨-,rfl⟩ := (framing_u8 _).only hnumber
    obtain ⟨hmax,rfl⟩ := (framing_u32 _).only hcount
    obtain ⟨⟨rfl,hfits⟩,rfl⟩ := (Framing.many framing_entry entryCount).only hmany
    refine ⟨hmax,hfits,?_⟩
    simp [hmagic, hversion, manifestBytes, header]
  · rintro ⟨hmax,hfits,rfl⟩
    have hmin := minEntryBytes_mul_le entries
    have hlen : entries.length ≤ (entries.flatMap entryBytes ++ rest).length/minEntryBytes := by
      rw [Nat.le_div_iff_mul_le (by decide), List.length_append]
      omega
    simp only [manifestBytes, header, List.append_assoc, List.cons_append]
    refine bind_eq_ok.mpr ⟨_,(framing_bytes 4 _).reads (by decide) _,?_⟩
    refine require_bind_eq_ok.mpr ⟨rfl,?_⟩
    refine bind_eq_ok.mpr ⟨_,(framing_u8 _).reads trivial _,?_⟩
    refine require_bind_eq_ok.mpr ⟨rfl,?_⟩
    refine bind_eq_ok.mpr ⟨_,(framing_u32 _).reads hmax _,?_⟩
    refine require_bind_eq_ok.mpr ⟨hlen,?_⟩
    exact (Framing.many framing_entry entries.length).reads ⟨rfl,hfits⟩ rest

theorem decode_eq_ok {bytes : List UInt8} {limit : ℕ} {entries : List OwnerManifestEntry} :
    decodeOwnerManifestWithLimit bytes limit = .ok entries ↔
      Encodable entries limit ∧ bytes = manifestBytes entries := by
  rw [decodeOwnerManifestWithLimit, require_bind_eq_ok, bind_eq_ok]
  constructor
  · rintro ⟨hsize,⟨found,rest⟩,hread,h⟩
    obtain ⟨hrest,h⟩ := require_bind_eq_ok.mp h
    cases h
    obtain ⟨hcount,hfits,hbytes⟩ := Iff.mp readManifest_eq_ok hread
    rw [List.length_eq_zero_iff.mp hrest, List.append_nil] at hbytes
    rw [hbytes] at hsize
    exact ⟨⟨hcount,hfits,hsize⟩,hbytes⟩
  · rintro ⟨⟨hcount,hfits,hsize⟩,rfl⟩
    refine ⟨hsize,(entries,[]),?_,rfl⟩
    exact Iff.mpr readManifest_eq_ok ⟨hcount,hfits,(List.append_nil _).symm⟩

/-! ### What is refused -/

theorem decode_append {bytes rest : List UInt8} {limit : ℕ} {entries : List OwnerManifestEntry}
    (h : decodeOwnerManifestWithLimit bytes limit = .ok entries) (hrest : rest ≠ [])
    (limit' : ℕ) : ∃ e, decodeOwnerManifestWithLimit (bytes ++ rest) limit' = .error e := by
  cases h' : decodeOwnerManifestWithLimit (bytes ++ rest) limit' with
  | error e => exact ⟨e,rfl⟩
  | ok entries' =>
    obtain ⟨⟨hcount,hfits,-⟩,rfl⟩ := Iff.mp decode_eq_ok h
    obtain ⟨⟨hcount',hfits',-⟩,heq⟩ := Iff.mp decode_eq_ok h'
    have hread := Iff.mpr readManifest_eq_ok ⟨hcount,hfits,heq.symm⟩
    have hread' := Iff.mpr readManifest_eq_ok ⟨hcount',hfits',(List.append_nil _).symm⟩
    rw [hread] at hread'
    exact absurd (Prod.mk.inj (Except.ok.inj hread')).2 hrest

lemma body_of_decode {entryCount limit : ℕ} {body : List UInt8} {entries : List OwnerManifestEntry}
    (hcount : entryCount ≤ u32Max)
    (h : decodeOwnerManifestWithLimit (header entryCount ++ body) limit = .ok entries) :
    entryCount = entries.length ∧ body = entries.flatMap entryBytes ∧
      ∀ entry ∈ entries, entry.Fits := by
  obtain ⟨⟨hlen,hfits,-⟩,heq⟩ := Iff.mp decode_eq_ok h
  have hheads : (header entryCount).length = (header entries.length).length := by
    rw [length_header, length_header]
  obtain ⟨hhead,hbody⟩ := List.append_inj heq hheads
  have hnumber : toLittleEndian 4 entryCount = toLittleEndian 4 entries.length :=
    (List.cons.inj (List.append_cancel_left hhead)).2
  unfold u32Max at hcount hlen
  exact ⟨(toLittleEndian_inj (by omega) (by omega)).mp hnumber,hbody,hfits⟩

theorem decode_of_count {entryCount : ℕ} {rest : List UInt8} (hcount : entryCount ≤ u32Max)
    (hrest : rest.length < entryCount*minEntryBytes) (limit : ℕ) :
    ∃ e, decodeOwnerManifestWithLimit (header entryCount ++ rest) limit = .error e := by
  cases h : decodeOwnerManifestWithLimit (header entryCount ++ rest) limit with
  | error e => exact ⟨e,rfl⟩
  | ok entries =>
    obtain ⟨rfl,rfl,-⟩ := body_of_decode hcount h
    have := minEntryBytes_mul_le entries
    omega

/-- A text that is no UTF-8, in any of the places a text has. -/
theorem decode_of_invalid {entryCount : ℕ} (hcount : entryCount ≤ u32Max)
    {before : List OwnerManifestEntry} (hbefore : ∀ entry ∈ before, entry.Fits)
    (hlt : before.length < entryCount) {values : List String} (hvalues : ∀ v ∈ values, Fits v)
    (hthree : values.length < 3) {bytes : List UInt8} (hbytes : bytes.length ≤ u32Max)
    (hinvalid : String.fromUTF8? ⟨bytes.toArray⟩ = none) (rest : List UInt8) (limit : ℕ) :
    ∃ e, decodeOwnerManifestWithLimit (header entryCount ++ (before.flatMap entryBytes ++
      (values.flatMap stringBytes ++ (toLittleEndian 4 bytes.length ++ (bytes ++ rest))))) limit =
        .error e := by
  cases h : decodeOwnerManifestWithLimit (header entryCount ++ (before.flatMap entryBytes ++
      (values.flatMap stringBytes ++ (toLittleEndian 4 bytes.length ++ (bytes ++ rest))))) limit with
  | error e => exact ⟨e,rfl⟩
  | ok entries =>
    obtain ⟨rfl,hbody,hfits⟩ := body_of_decode hcount h
    rw [← List.append_nil (entries.flatMap entryBytes)] at hbody
    obtain ⟨entry,after,rfl,hentry⟩ := Framing.split_flatMap framing_entry hbefore hfits hlt hbody
    rw [entryBytes, List.append_assoc] at hentry
    have hfit : entry.Fits := hfits entry (by simp)
    obtain ⟨value,others,hsplit,htext⟩ := Framing.split_flatMap framing_string hvalues hfit
      (by simpa [OwnerManifestEntry.values] using hthree) hentry
    have hvalue : Fits value := hfit value (by rw [hsplit]; simp)
    rw [stringBytes, List.append_assoc] at htext
    have hlens : (toLittleEndian 4 bytes.length).length =
        (toLittleEndian 4 (asBytes value).length).length := by
      rw [length_toLittleEndian, length_toLittleEndian]
    obtain ⟨hnumber,htail⟩ := List.append_inj htext hlens
    unfold Fits u32Max at hvalue
    unfold u32Max at hbytes
    have hlen := (toLittleEndian_inj (by omega) (by omega)).mp hnumber
    obtain ⟨rfl,-⟩ := List.append_inj htail hlen
    have hsome : String.fromUTF8? ⟨(asBytes value).toArray⟩ = some value :=
      Wire.JsonText.fromUTF8_eq_some.mpr rfl
    rw [hsome] at hinvalid
    cases hinvalid

/-- What is encoded is decoded, in the size that was computed for it, and what is accepted is
encoded to itself. So no text that is cut, or goes on, or holds a text that is no UTF-8 or a
count that is too large, is accepted. -/
theorem owner_manifest_codec_is_exact :
    (∀ entries limit bytes, encodeOwnerManifestWithLimit entries limit = .ok bytes →
      decodeOwnerManifestWithLimit bytes limit = .ok entries ∧
      decodeOwnerManifest bytes = .ok entries ∧
      canonicalBytes entries (min limit ownerManifestV1MaxCanonicalBytes) = .ok bytes.length) ∧
    (∀ bytes limit entries, decodeOwnerManifestWithLimit bytes limit = .ok entries →
      encodeOwnerManifestWithLimit entries limit = .ok bytes) ∧
    (∀ bytes limit entries rest, decodeOwnerManifestWithLimit bytes limit = .ok entries →
      rest ≠ [] → ∀ limit', ∃ e, decodeOwnerManifestWithLimit (bytes ++ rest) limit' = .error e) ∧
    (∀ entryCount rest limit, entryCount ≤ u32Max → rest.length < entryCount*minEntryBytes →
      ∃ e, decodeOwnerManifestWithLimit (header entryCount ++ rest) limit = .error e) ∧
    ∀ (entryCount : ℕ) (before : List OwnerManifestEntry) (values : List String)
      (bytes rest : List UInt8) (limit : ℕ), entryCount ≤ u32Max →
      (∀ entry ∈ before, entry.Fits) → before.length < entryCount →
      (∀ value ∈ values, Fits value) → values.length < 3 → bytes.length ≤ u32Max →
      String.fromUTF8? ⟨bytes.toArray⟩ = none →
      ∃ e, decodeOwnerManifestWithLimit (header entryCount ++ (before.flatMap entryBytes ++
        (values.flatMap stringBytes ++ (toLittleEndian 4 bytes.length ++ (bytes ++ rest))))) limit =
          .error e := by
  refine ⟨?_,?_,?_,?_,?_⟩
  · intro entries limit bytes h
    obtain ⟨⟨hcount,hfits,hsize⟩,rfl⟩ := Iff.mp encode_eq_ok h
    have hmax := (le_min_iff.mp hsize).2
    refine ⟨Iff.mpr decode_eq_ok ⟨⟨hcount,hfits,hsize⟩,rfl⟩,
      Iff.mpr decode_eq_ok ⟨⟨hcount,hfits,le_min hmax hmax⟩,rfl⟩,?_⟩
    exact Iff.mpr canonicalBytes_limit_eq_ok ⟨hfits,rfl,hsize⟩
  · intro bytes limit entries h
    exact Iff.mpr encode_eq_ok (Iff.mp decode_eq_ok h)
  · intro bytes limit entries rest h hrest limit'
    exact decode_append h hrest limit'
  · intro entryCount rest limit hcount hrest
    exact decode_of_count hcount hrest limit
  · intro entryCount before values bytes rest limit hcount hbefore hlt hvalues hthree hbytes hinvalid
    exact decode_of_invalid hcount hbefore hlt hvalues hthree hbytes hinvalid rest limit

def sampleEntries : List OwnerManifestEntry :=
  [⟨("assets/a.png","a","png"),none⟩,⟨("","b",""),some ⟨List.replicate 32 7,rfl⟩⟩]

/-- Two entries, one of them with a payload; a byte after them, a count too many and a byte that
starts no character. -/
theorem owner_manifest_codec_is_exact_sample :
    (∃ bytes, encodeOwnerManifest sampleEntries = .ok bytes ∧
      decodeOwnerManifest bytes = .ok sampleEntries ∧
      encodeOwnerManifestWithLimit sampleEntries u32Max = .ok bytes ∧
      ∃ e, decodeOwnerManifestWithLimit (bytes ++ [0]) u32Max = .error e) ∧
    (∃ e, decodeOwnerManifestWithLimit (header 1 ++ [0]) u32Max = .error e) ∧
    ∃ e, decodeOwnerManifestWithLimit (header 1 ++ ([] ++ ([] ++ (toLittleEndian 4 1 ++
      ([255] ++ []))))) u32Max = .error e := by
  obtain ⟨hencode,hdecode,hmore,hcount,hinvalid⟩ := owner_manifest_codec_is_exact
  have h : encodeOwnerManifest sampleEntries = .ok (manifestBytes sampleEntries) := by
    decide +kernel
  have hd := (hencode _ _ _ h).2.1
  refine ⟨⟨_,h,hd,hdecode _ _ _ hd,hmore _ _ _ [0] hd (by decide) u32Max⟩,
    hcount 1 [0] u32Max (by decide) (by decide),?_⟩
  exact hinvalid 1 [] [] [255] [] u32Max (by decide) (by simp) (by decide) (by simp) (by decide)
    (by decide) (by decide +kernel)

end RisuNest.Storage.OwnerManifest
