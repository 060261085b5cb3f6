import RisuNest.External.CatalogPages
import RisuNest.External.SecretStream

/-! Envelopes of remote objects: a header that anyone can read, and the encrypted object, which is
bound to the bytes of the header (`snapshot.rs`). -/
namespace RisuNest.External.Envelope
open CatalogPages (fieldsOf integerJson integerOf integerOf_json plainNumbers toVec)
open Pack (FormatError Formatted Reader unexpectedEof ofLeBytes)
open SecretStream (Call Cipher Key Sealing StreamHeader encrypt decrypt leBytes32)
open Wire (Json)
open Wire.Payload (decimal)
open Wire.JsonText (ReadsJson isText_write numbers)

/-- `ENVELOPE_MAGIC`, "RNX1" -/
def magic : List UInt8 := [0x52,0x4e,0x58,0x31]

def headerSchema : String := "risunest.external-object/v1"

def maxPublicHeaderBytes : ℕ := 32*1024

inductive ObjectRole
  | descriptor
  | pack
  | catalog
  | syncState
  | backupBundle
  | backupPoint
  | inventoryPage
  | lease
  | head
  deriving DecidableEq, Repr

def ObjectRole.name : ObjectRole → String
  | descriptor => "descriptor"
  | pack => "pack"
  | catalog => "catalog"
  | syncState => "syncState"
  | backupBundle => "backupBundle"
  | backupPoint => "backupPoint"
  | inventoryPage => "inventoryPage"
  | lease => "lease"
  | head => "head"

def ObjectRole.named : String → Option ObjectRole
  | "descriptor" => some descriptor
  | "pack" => some pack
  | "catalog" => some catalog
  | "syncState" => some syncState
  | "backupBundle" => some backupBundle
  | "backupPoint" => some backupPoint
  | "inventoryPage" => some inventoryPage
  | "lease" => some lease
  | "head" => some head
  | _ => none

structure PublicObjectHeader where
  schema : String
  repositoryId : String
  objectId : String
  role : ObjectRole
  plaintextLength : UInt64
  deriving DecidableEq

namespace PublicObjectHeader

def validate (h : PublicObjectHeader) : Formatted Unit :=
  require (h.schema = headerSchema ∧ h.repositoryId ≠ "" ∧ h.repositoryId.utf8ByteSize ≤ 128 ∧
    h.objectId ≠ "" ∧ h.objectId.utf8ByteSize ≤ 8192 ∧ holdsNul h.objectId = false)
    ⟨"invalid-object-header"⟩

def json (h : PublicObjectHeader) : Json :=
  .obj [("schema",.str h.schema),("repositoryId",.str h.repositoryId),("objectId",.str h.objectId),
    ("role",.str h.role.name),("plaintextLength",integerJson h.plaintextLength)]

def encode (h : PublicObjectHeader) : Formatted (List UInt8) := do
  h.validate
  let encoded := toVec h.json
  require (encoded.length ≤ maxPublicHeaderBytes) ⟨"object-header-limit-exceeded"⟩
  pure encoded

end PublicObjectHeader

/-- A variant without data is read from its name, or from an object of the name alone. -/
def roleOf : Json → Option ObjectRole
  | .str name => ObjectRole.named name
  | .obj [(name, .null)] => ObjectRole.named name
  | _ => none

def headerOf (v : Json) : Option PublicObjectHeader :=
  match fieldsOf ["schema","repositoryId","objectId","role","plaintextLength"] v with
  | some [schema,repositoryId,objectId,role,plaintextLength] => do
    pure ⟨← schema.text?,← repositoryId.text?,← objectId.text?,← roleOf role,
      ← integerOf plaintextLength⟩
  | _ => none

def envelopeLength (h : PublicObjectHeader) : Formatted ℕ := do
  let encoded ← h.encode
  match ciphertextLength h.plaintextLength.toNat with
  | .error _ => .error ⟨"length-overflow"⟩
  | .ok m =>
    if 8 + encoded.length + m < 2^64 then .ok (8 + encoded.length + m)
    else .error ⟨"length-overflow"⟩

section
variable (cr : Wire.Crates) (c : Cipher) {σ : Type} (r : Reader σ)

/-- `seal_envelope`, with the header of the stream that is drawn. -/
def sealEnvelope (key : Key) (streamHeader : StreamHeader) (header : PublicObjectHeader) (s : σ) :
    Sealing (List UInt8 × σ) := do
  let encoded ← .check header.encode
  let (text, s) ← encrypt c r key streamHeader encoded header.plaintextLength.toNat s
  pure (magic ++ leBytes32 encoded.length ++ encoded ++ text,s)

/-- The header with these bytes. -/
def decodeHeader (encoded : List UInt8) : Formatted PublicObjectHeader :=
  match (cr.readJson encoded).bind headerOf with
  | none => .error ⟨"invalid-object-header"⟩
  | some header => do
    header.validate
    let canonical ← header.encode
    require (canonical = encoded) ⟨"non-canonical-object-header"⟩
    pure header

def readPublicHeader (s : σ) : Formatted (PublicObjectHeader × List UInt8 × σ) := do
  let (start, s) ← r.readExact unexpectedEof s 4
  require (start.val = magic) ⟨"invalid-object-envelope"⟩
  let (length, s) ← r.readExact unexpectedEof s 4
  let length := ofLeBytes length.val
  require (length ≠ 0 ∧ length ≤ maxPublicHeaderBytes) ⟨"object-header-limit-exceeded"⟩
  let (encoded, s) ← r.readExact unexpectedEof s length
  let header ← decodeHeader cr encoded.val
  pure (header,encoded.val,s)

/-- `open_envelope`, with what it gives to its output. -/
def openEnvelope (key : Key) (maxPlaintext : ℕ) (s : σ) :
    Formatted (PublicObjectHeader × List UInt8 × σ) := do
  let (header, encoded, s) ← readPublicHeader cr r s
  require (header.plaintextLength.toNat ≤ maxPlaintext) ⟨"decoded-limit-exceeded"⟩
  let (length, text, s) ← decrypt c r key encoded maxPlaintext s
  require (length = header.plaintextLength.toNat) ⟨"plaintext-integrity-failed"⟩
  pure (header,text,s)

/-- The call that seals the object behind this header. -/
def sealCall (key : Key) (streamHeader : StreamHeader) (header : PublicObjectHeader)
    (encoded : List UInt8) (s : σ) : Call :=
  ⟨σ,r,s,key,streamHeader,encoded,header.plaintextLength⟩

end

/-! ### Headers are read back -/

lemma ObjectRole.named_name (role : ObjectRole) : ObjectRole.named role.name = some role := by
  cases role <;> rfl

lemma headerOf_json (h : PublicObjectHeader) : headerOf h.json = some h := by
  have hfields : fieldsOf ["schema","repositoryId","objectId","role","plaintextLength"] h.json =
      some [.str h.schema,.str h.repositoryId,.str h.objectId,.str h.role.name,
        integerJson h.plaintextLength] := by
    rfl
  unfold headerOf
  rw [hfields]
  simp only [Json.text?, roleOf, ObjectRole.named_name, integerOf_json]
  rfl

lemma readJson_header {cr : Wire.Crates} (hread : ReadsJson decimal cr) (h : PublicObjectHeader) :
    (cr.readJson (toVec h.json)).bind headerOf = some h := by
  have hnumbers : ∀ q ∈ numbers h.json, Wire.JsonText.WritesBack decimal plainNumbers q :=
    List.forall_mem_nil _
  have hshallow : Wire.Payload.shallow 0 h.json = true := rfl
  have hjson : cr.readJson (toVec h.json) = some h.json :=
    (hread _ _).mpr ⟨hshallow,_,rfl,isText_write hnumbers⟩
  rw [hjson]
  exact headerOf_json h

lemma encode_eq_ok {h : PublicObjectHeader} {encoded : List UInt8} : h.encode = .ok encoded ↔
    h.validate = .ok () ∧ encoded = toVec h.json ∧ encoded.length ≤ maxPublicHeaderBytes := by
  constructor
  · intro he
    obtain ⟨⟨⟩, hvalid, he⟩ := bind_eq_ok.mp he
    obtain ⟨u, hlength, he⟩ := bind_eq_ok.mp he
    cases he
    exact ⟨hvalid,rfl,require_eq_ok.mp hlength⟩
  · rintro ⟨hvalid, rfl, hlength⟩
    exact bind_eq_ok.mpr ⟨⟨⟩,hvalid,bind_eq_ok.mpr ⟨⟨⟩,require_eq_ok.mpr hlength,rfl⟩⟩

/-! ### Envelopes -/

section
variable {cr : Wire.Crates} {c : Cipher} {calls : Set Call} {σ τ : Type} {r : Reader σ}

lemma sealEnvelope_eq_ok {key : Key} {streamHeader : StreamHeader} {header : PublicObjectHeader}
    {s t : σ} {out : List UInt8} :
    (sealEnvelope c r key streamHeader header s).result = .ok (out,t) ↔
      ∃ encoded text, header.encode = .ok encoded ∧
        ((sealCall r key streamHeader header encoded s).run c).result = .ok (text,t) ∧
        out = magic ++ leBytes32 encoded.length ++ encoded ++ text := by
  unfold sealEnvelope
  rw [Logged.result_bind]
  constructor
  · intro h
    obtain ⟨encoded, hencode, h⟩ := bind_eq_ok.mp h
    rw [Logged.result_bind] at h
    obtain ⟨⟨text, u⟩, hrun, h⟩ := bind_eq_ok.mp h
    cases h
    exact ⟨encoded,text,hencode,hrun,rfl⟩
  · rintro ⟨encoded, text, hencode, hrun, rfl⟩
    refine bind_eq_ok.mpr ⟨encoded,hencode,?_⟩
    rw [Logged.result_bind]
    exact bind_eq_ok.mpr ⟨_,hrun,rfl⟩

lemma readPublicHeader_of_read {s s₁ s₂ s₃ : σ} {start length : {bytes : List UInt8 // bytes.length = 4}}
    {encoded : {bytes : List UInt8 // bytes.length = ofLeBytes length.val}}
    (h₁ : r.readExact unexpectedEof s 4 = .ok (start,s₁)) (hstart : start.val = magic)
    (h₂ : r.readExact unexpectedEof s₁ 4 = .ok (length,s₂))
    (hlength : ofLeBytes length.val ≠ 0 ∧ ofLeBytes length.val ≤ maxPublicHeaderBytes)
    (h₃ : r.readExact unexpectedEof s₂ (ofLeBytes length.val) = .ok (encoded,s₃)) :
    readPublicHeader cr r s =
      (decodeHeader cr encoded.val).map fun header => (header,encoded.val,s₃) := by
  unfold readPublicHeader
  rw [h₁]
  change (require (start.val = magic) _ >>= fun _ => r.readExact unexpectedEof s₁ 4 >>= _) = _
  rw [require_eq_ok.mpr hstart]
  change (r.readExact unexpectedEof s₁ 4 >>= _) = _
  rw [h₂]
  change (require (ofLeBytes length.val ≠ 0 ∧ _) _ >>= fun _ => _ >>= _) = _
  rw [require_eq_ok.mpr hlength]
  change (r.readExact unexpectedEof s₂ (ofLeBytes length.val) >>= _) = _
  rw [h₃]
  change (decodeHeader cr encoded.val >>= _) = _
  cases decodeHeader cr encoded.val <;> rfl

lemma decodeHeader_encode (hread : ReadsJson decimal cr) {header : PublicObjectHeader}
    {encoded : List UInt8} (hencode : header.encode = .ok encoded) :
    decodeHeader cr encoded = .ok header := by
  obtain ⟨hvalid, rfl, -⟩ := Iff.mp encode_eq_ok hencode
  unfold decodeHeader
  rw [readJson_header hread]
  change (header.validate >>= fun _ => header.encode >>= _) = _
  rw [hvalid, hencode]
  change (require (_ = _) _ >>= fun _ => _) = _
  rw [require_eq_ok.mpr rfl]
  rfl

lemma encode_of_decodeHeader {header : PublicObjectHeader} {encoded : List UInt8}
    (h : decodeHeader cr encoded = .ok header) : header.encode = .ok encoded := by
  unfold decodeHeader at h
  cases hjson : (cr.readJson encoded).bind headerOf with
  | none =>
    rw [hjson] at h
    cases h
  | some header' =>
    rw [hjson] at h
    obtain ⟨u, -, h⟩ := bind_eq_ok.mp h
    obtain ⟨canonical, hencode, h⟩ := bind_eq_ok.mp h
    obtain ⟨v, hsame, h⟩ := bind_eq_ok.mp h
    cases h
    rw [hencode, require_eq_ok.mp hsame]

lemma readPublicHeader_total (hread : ReadsJson decimal cr) (hr : r.Steady)
    {header : PublicObjectHeader} {encoded rest : List UInt8} (hencode : header.encode = .ok encoded)
    (hne : encoded ≠ []) {s : σ}
    (hs : r.left s = magic ++ leBytes32 encoded.length ++ encoded ++ rest) :
    ∃ t, readPublicHeader cr r s = .ok (header,encoded,t) ∧ r.left t = rest := by
  obtain ⟨hvalid, hjson, hlength⟩ := Iff.mp encode_eq_ok hencode
  have hlimit : maxPublicHeaderBytes < 2^32 := by decide
  have hvalue := SecretStream.ofLeBytes_leBytes32 (Nat.lt_of_le_of_lt hlength hlimit)
  simp only [List.append_assoc] at hs
  obtain ⟨s₁, h₁, hs⟩ := Source.exists_readExact hr unexpectedEof (k := 4) rfl hs
  obtain ⟨s₂, h₂, hs⟩ := Source.exists_readExact hr unexpectedEof (k := 4) rfl hs
  obtain ⟨s₃, h₃, hs⟩ := Source.exists_readExact hr unexpectedEof hvalue.symm hs
  have hbounds : ofLeBytes (leBytes32 encoded.length) ≠ 0 ∧
      ofLeBytes (leBytes32 encoded.length) ≤ maxPublicHeaderBytes := by
    rw [hvalue]
    exact ⟨fun hzero => hne (List.eq_nil_of_length_eq_zero hzero),hlength⟩
  refine ⟨s₃,?_,hs⟩
  rw [readPublicHeader_of_read h₁ rfl h₂ hbounds h₃, decodeHeader_encode hread hencode]
  rfl

lemma readPublicHeader_eq_ok {header : PublicObjectHeader} {encoded : List UInt8} {s t : σ}
    (h : readPublicHeader cr r s = .ok (header,encoded,t)) : header.encode = .ok encoded ∧
      r.left s = magic ++ leBytes32 encoded.length ++ encoded ++ r.left t := by
  obtain ⟨⟨start, s₁⟩, h₁, h⟩ := bind_eq_ok.mp h
  obtain ⟨u, hstart, h⟩ := bind_eq_ok.mp h
  obtain ⟨⟨length, s₂⟩, h₂, h⟩ := bind_eq_ok.mp h
  obtain ⟨v, -, h⟩ := bind_eq_ok.mp h
  obtain ⟨⟨bytes, s₃⟩, h₃, h⟩ := bind_eq_ok.mp h
  obtain ⟨header', hdecode, h⟩ := bind_eq_ok.mp h
  cases h
  refine ⟨encode_of_decodeHeader hdecode,?_⟩
  rw [SecretStream.readExact_eq_ok h₁, SecretStream.readExact_eq_ok h₂,
    SecretStream.readExact_eq_ok h₃, require_eq_ok.mp hstart, bytes.property,
    SecretStream.leBytes32_of_length length.property]
  simp only [List.append_assoc]

lemma toVec_json_ne_nil (header : PublicObjectHeader) : toVec header.json ≠ [] := by
  have hbrace : toVec header.json = Wire.utf8 ['\x7b'] ++
      Wire.utf8 (Wire.Payload.write plainNumbers header.json).tail := by
    rw [← CatalogPages.utf8_append]
    rfl
  rw [hbrace]
  exact List.cons_ne_nil _ _

lemma sealEnvelope_total (hr : r.Steady) (key : Key) (streamHeader : StreamHeader)
    (header : PublicObjectHeader) (s : σ) :
    (∃ p, (sealEnvelope c r key streamHeader header s).result = .ok p) ↔
      header.validate = .ok () ∧ (toVec header.json).length ≤ SecretStream.maxBinding ∧
        (r.left s).length = header.plaintextLength.toNat := by
  have hbinding : SecretStream.maxBinding ≤ maxPublicHeaderBytes := by decide
  constructor
  · rintro ⟨⟨out, t⟩, h⟩
    obtain ⟨encoded, text, hencode, hrun, -⟩ := sealEnvelope_eq_ok.mp h
    obtain ⟨hvalid, rfl, -⟩ := Iff.mp encode_eq_ok hencode
    obtain ⟨⟨-, hlength⟩, hinput⟩ :=
      (SecretStream.encrypt_total hr key streamHeader _ _ s).mp ⟨_,hrun⟩
    exact ⟨hvalid,hlength,hinput⟩
  · rintro ⟨hvalid, hlength, hinput⟩
    have hencode : header.encode = .ok (toVec header.json) :=
      Iff.mpr encode_eq_ok ⟨hvalid,rfl,hlength.trans hbinding⟩
    obtain ⟨⟨text, t⟩, hrun⟩ := (SecretStream.encrypt_total hr key streamHeader _ _ s).mpr
      ⟨⟨toVec_json_ne_nil header,hlength⟩,hinput⟩
    exact ⟨_,sealEnvelope_eq_ok.mpr ⟨_,text,hencode,hrun,rfl⟩⟩

lemma envelopeLength_of_seal (hc : c.Ideal (Call.session c '' calls) SecretStream.tagBytes)
    {key : Key} {streamHeader : StreamHeader} {header : PublicObjectHeader} {out : List UInt8}
    {s t : σ} (h : (sealEnvelope c r key streamHeader header s).result = .ok (out,t)) :
    envelopeLength header =
      if out.length < 2^64 then .ok out.length else .error ⟨"length-overflow"⟩ := by
  obtain ⟨encoded, text, hencode, hrun, hout⟩ := sealEnvelope_eq_ok.mp h
  have hpredicted : ciphertextLength header.plaintextLength.toNat = checkedU64 text.length :=
    @SecretStream.ciphertextLength_of_run c _ hc (sealCall r key streamHeader header encoded s)
      text t hrun
  have hlength : out.length = 8 + encoded.length + text.length := by
    have hmagic : magic.length = 4 := rfl
    have hfour : ∀ n, (leBytes32 n).length = 4 := fun _ => rfl
    simp only [hout, List.length_append, hmagic, hfour]
  rw [hlength]
  unfold envelopeLength
  rw [hencode, hpredicted]
  change (match checkedU64 text.length with | .error _ => _ | .ok m => _) = _
  unfold checkedU64
  by_cases hlt : text.length < 2^64
  · rw [if_pos hlt]
  · rw [if_neg hlt, if_neg (by omega)]

lemma openEnvelope_total (hread : ReadsJson decimal cr)
    (hc : c.Ideal (Call.session c '' calls) SecretStream.tagBytes) {key : Key}
    {streamHeader : StreamHeader} {header : PublicObjectHeader} {encoded out : List UInt8} {s t : σ}
    (hencode : header.encode = .ok encoded)
    (hseal : (sealEnvelope c r key streamHeader header s).result = .ok (out,t))
    (hcall : sealCall r key streamHeader header encoded s ∈ calls) {q : Reader τ} (hq : q.Steady)
    {u : τ} (hu : q.left u = out) {maxPlaintext : ℕ}
    (hmax : header.plaintextLength.toNat ≤ maxPlaintext) :
    ∃ v, openEnvelope cr c q key maxPlaintext u = .ok (header,r.left s,v) ∧ q.left v = [] := by
  obtain ⟨encoded', text, hencode', hrun, rfl⟩ := sealEnvelope_eq_ok.mp hseal
  rw [hencode] at hencode'
  cases hencode'
  have hne : encoded ≠ [] := by
    obtain ⟨-, rfl, -⟩ := Iff.mp encode_eq_ok hencode
    exact toVec_json_ne_nil header
  obtain ⟨w, hw, hleft⟩ := readPublicHeader_total hread hq hencode hne hu
  obtain ⟨v, hv, hend⟩ := SecretStream.decrypt_total hc hq hcall hrun hmax hleft
  refine ⟨v,?_,hend⟩
  exact bind_eq_ok.mpr ⟨_,hw,bind_eq_ok.mpr ⟨⟨⟩,require_eq_ok.mpr hmax,
    bind_eq_ok.mpr ⟨_,hv,bind_eq_ok.mpr ⟨⟨⟩,require_eq_ok.mpr rfl,rfl⟩⟩⟩⟩

lemma openEnvelope_eq_ok (hc : c.Ideal (Call.session c '' calls) SecretStream.tagBytes) {key : Key}
    {maxPlaintext : ℕ} {header : PublicObjectHeader} {text : List UInt8} {s t : σ}
    (h : openEnvelope cr c r key maxPlaintext s = .ok (header,text,t)) :
    r.left t = [] ∧ ∃ encoded, header.encode = .ok encoded ∧ ∃ call ∈ calls, call.key = key ∧
      call.binding = encoded ∧ call.length = header.plaintextLength ∧
      text = call.reader.left call.input ∧ ∃ out u, (call.run c).result = .ok (out,u) ∧
        r.left s = magic ++ leBytes32 encoded.length ++ encoded ++ out := by
  obtain ⟨⟨header', encoded, s₁⟩, h₁, h⟩ := bind_eq_ok.mp h
  obtain ⟨v, -, h⟩ := bind_eq_ok.mp h
  obtain ⟨⟨n, text', s₂⟩, h₂, h⟩ := bind_eq_ok.mp h
  obtain ⟨w, hsame, h⟩ := bind_eq_ok.mp h
  cases h
  obtain ⟨hencode, hleft⟩ := readPublicHeader_eq_ok h₁
  obtain ⟨call, hcall, hkey, hbinding, hlength, -, htext, -, ⟨u, hrun⟩, hend, -⟩ :=
    SecretStream.decrypt_eq_ok hc h₂
  refine ⟨hend,encoded,hencode,call,hcall,hkey,hbinding,?_,htext,_,u,hrun,hleft⟩
  apply UInt64.toNat_inj.mp
  rw [hlength]
  exact require_eq_ok.mp hsame

end

/-- Where the cipher is ideal: an envelope that was sealed is opened to its header and its object,
with any reader; sealing goes through exactly for a header that is no longer than a binding and the
length of the object; the lengths of envelopes and of ciphertexts are predicted; and what is
decrypted or opened is the whole output of one call, whose frames all but the last carry the object
and whose last is the final one. -/
theorem envelopes_are_exact {cr : Wire.Crates} {c : Cipher} {calls : Set Call}
    (hread : ReadsJson decimal cr)
    (hc : c.Ideal (Call.session c '' calls) SecretStream.tagBytes) :
    (∀ {σ : Type} (r : Reader σ) (key : Key) (streamHeader : StreamHeader)
      (header : PublicObjectHeader) (s : σ),
      (r.Steady → ((∃ p, (sealEnvelope c r key streamHeader header s).result = .ok p) ↔
        header.validate = .ok () ∧ (toVec header.json).length ≤ SecretStream.maxBinding ∧
          (r.left s).length = header.plaintextLength.toNat)) ∧
      ∀ encoded out t, header.encode = .ok encoded →
        (sealEnvelope c r key streamHeader header s).result = .ok (out,t) →
        (envelopeLength header =
          if out.length < 2^64 then .ok out.length else .error ⟨"length-overflow"⟩) ∧
        (sealCall r key streamHeader header encoded s ∈ calls →
          ∀ {τ : Type} (q : Reader τ) (u : τ) (maxPlaintext : ℕ), q.Steady → q.left u = out →
            header.plaintextLength.toNat ≤ maxPlaintext →
            ∃ v, openEnvelope cr c q key maxPlaintext u = .ok (header,r.left s,v) ∧
              q.left v = [])) ∧
    (∀ (call : Call) (text : List UInt8) (u : call.source),
      (call.run c).result = .ok (text,u) →
        ciphertextLength call.length.toNat = checkedU64 text.length) ∧
    (∀ {σ : Type} (r : Reader σ) (key : Key) (binding : List UInt8) (maxLength n : ℕ) (s t : σ)
      (text : List UInt8), decrypt c r key binding maxLength s = .ok (n,text,t) →
        ∃ call ∈ calls, call.key = key ∧ call.binding = binding ∧ call.length.toNat = n ∧
          n ≤ maxLength ∧ text = call.reader.left call.input ∧ text.length = n ∧
          (∃ u, (call.run c).result = .ok (r.left s,u)) ∧ r.left t = [] ∧
          ∃ data pieces, (call.session c).pushes =
              SecretStream.framesOf data pieces ++ [SecretStream.lastFrame data] ∧
            pieces.flatten = text ∧ r.left s =
              SecretStream.objectText c key n call.streamHeader (call.session c).pushes) ∧
    ∀ {σ : Type} (r : Reader σ) (key : Key) (maxPlaintext : ℕ) (header : PublicObjectHeader)
      (text : List UInt8) (s t : σ), openEnvelope cr c r key maxPlaintext s = .ok (header,text,t) →
        r.left t = [] ∧ ∃ encoded, header.encode = .ok encoded ∧ ∃ call ∈ calls, call.key = key ∧
          call.binding = encoded ∧ call.length = header.plaintextLength ∧
          text = call.reader.left call.input ∧ ∃ out u, (call.run c).result = .ok (out,u) ∧
            r.left s = magic ++ leBytes32 encoded.length ++ encoded ++ out := by
  refine ⟨?_,?_,?_,?_⟩
  · intro σ r key streamHeader header s
    refine ⟨fun hr => sealEnvelope_total hr key streamHeader header s,?_⟩
    intro encoded out t hencode hseal
    refine ⟨envelopeLength_of_seal hc hseal,?_⟩
    intro hcall τ q u maxPlaintext hq hu hmax
    exact openEnvelope_total hread hc hencode hseal hcall hq hu hmax
  · intro call text u hrun
    exact SecretStream.ciphertextLength_of_run hc hrun
  · intro σ r key binding maxLength n s t text h
    exact SecretStream.decrypt_eq_ok hc h
  · intro σ r key maxPlaintext header text s t h
    exact openEnvelope_eq_ok hc h

/-! An object of one byte, with the key, the header of the stream and the ciphertexts that these
give. -/

def smallHeader : PublicObjectHeader := ⟨headerSchema,"r","o",.pack,1⟩

lemma length_zeros : (List.replicate 32 (0 : UInt8)).length = 32 := rfl

def zeroKey : Key := ⟨List.replicate 32 0,length_zeros⟩

def zeroStream : StreamHeader := ⟨List.replicate 24 0,rfl⟩

def smallBytes : List UInt8 := toVec smallHeader.json

/-- What the frames of the object are sealed with. -/
def smallData : List UInt8 :=
  SecretStream.magic ++ PublishedCatalog.leBytes 1 ++ leBytes32 smallBytes.length ++ smallBytes

def smallSession : Session Key StreamHeader UInt8 UInt8 :=
  ⟨zeroKey,zeroStream,
    SecretStream.framesOf smallData [[7]] ++ [SecretStream.lastFrame smallData]⟩

def smallTexts : List (List UInt8) :=
  [[0x5d,0x2a,0x96,0xd6,0xb9,0x79,0xea,0xad,0x86,0x33,0x4a,0x41,0x13,0x9d,0x24,0x63,0x85,0x6e],
    [0xca,0x25,0x83,0x1b,0x56,0x7f,0x4e,0x07,0x7a,0xc7,0xf0,0x91,0x92,0x01,0xd8,0x93,0xa6]]

def smallCipher : Cipher :=
  StreamCipher.recorded smallSession smallTexts fun f => f.message ++ List.replicate 17 f.tag

def smallCall : Call := sealCall (Source.atMost 0) zeroKey zeroStream smallHeader smallBytes [7]

lemma smallBytes_length : smallBytes.length ≤ SecretStream.maxBinding := by decide +kernel

lemma smallCall_session : smallCall.session smallCipher = smallSession := by
  obtain ⟨pieces, data, t, haad, -, hinput, hlength, hcount, hresult⟩ | ⟨e, he, -⟩ :=
    SecretStream.encrypt_spec (c := smallCipher) (r := smallCall.reader) zeroKey zeroStream smallBytes
      1 smallCall.input
  · obtain ⟨piece, rfl⟩ : ∃ piece, pieces = [piece] := List.length_eq_one_iff.mp hcount
    obtain rfl : [7] = piece := hinput.trans (List.append_nil piece)
    obtain ⟨rfl, -⟩ := SecretStream.aad_eq_ok haad
    have hpushes : (smallCall.run smallCipher).writes = smallSession.pushes := by
      change (encrypt smallCipher smallCall.reader zeroKey zeroStream smallBytes 1
        smallCall.input).writes = _
      rw [hresult]
      rfl
    unfold Call.session
    rw [hpushes]
    rfl
  · obtain ⟨p, hp⟩ := (SecretStream.encrypt_total (c := smallCipher) (Source.atMost_steady 0) zeroKey
      zeroStream smallBytes 1 smallCall.input).mpr
        ⟨⟨toVec_json_ne_nil smallHeader,smallBytes_length⟩,rfl⟩
    have hboth : Except.ok p = Except.error e := hp.symm.trans he
    cases hboth

lemma smallCipher_ideal :
    smallCipher.Ideal (Call.session smallCipher '' {smallCall}) SecretStream.tagBytes := by
  rw [Set.image_singleton, smallCall_session]
  apply StreamCipher.recorded_ideal
  · intro f
    simp [SecretStream.tagBytes]
  · intro i f hf
    cases i with
    | zero =>
      cases hf
      rfl
    | succ i =>
      cases i with
      | zero =>
        cases hf
        rfl
      | succ i => cases hf

theorem envelopes_are_exact_small : ∃ out t,
    (sealEnvelope smallCipher (Source.atMost 0) zeroKey zeroStream smallHeader [7]).result =
      .ok (out,t) ∧
    ∃ v, openEnvelope Wire.Payload.textCrates smallCipher (Source.atMost 2) zeroKey 1 out =
      .ok (smallHeader,[7],v) := by
  obtain ⟨hseal, -⟩ := envelopes_are_exact Wire.Payload.textCrates_reads smallCipher_ideal
  obtain ⟨htotal, hopen⟩ := hseal (Source.atMost 0) zeroKey zeroStream smallHeader [7]
  have hvalid : smallHeader.validate = .ok () := require_eq_ok.mpr (by decide)
  obtain ⟨⟨out, t⟩, hout⟩ := (htotal (Source.atMost_steady 0)).mpr ⟨hvalid,smallBytes_length,rfl⟩
  have hencode : smallHeader.encode = .ok smallBytes :=
    encode_eq_ok.mpr ⟨hvalid,rfl,smallBytes_length.trans (by decide)⟩
  obtain ⟨v, hv, -⟩ := (hopen smallBytes out t hencode hout).2 rfl (Source.atMost 2) out 1
    (Source.atMost_steady 2) rfl (by decide)
  exact ⟨out,t,hout,v,hv⟩

end RisuNest.External.Envelope
