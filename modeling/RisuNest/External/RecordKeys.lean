import RisuNest.Lib.Base64
import RisuNest.Wire.KeyText

/-! Keys of the logical records: the kind of a record and its identifiers as one text
(`logical_records.rs`). -/
namespace RisuNest.External.RecordKeys
open Wire (Crates Json component keyText maxUnitKeyBytes utf8)
open Wire.JsonText (ReadsJson)

structure LogicalRecordError where
  text : String
  deriving DecidableEq

abbrev Recorded := Except LogicalRecordError

def invalid {α : Type} (text : String) : Recorded α := .error ⟨text⟩

def maxLogicalRecordKeyBytes : ℕ := 64*1024

inductive LogicalRecordLocator
  | root
  | preset (presetId : String)
  | plugin (owner storageKey : String)
  | character (characterId : String)
  | conversation (characterId conversationId : String)
  | asset (logicalKey : String)
  | inlay (logicalKey : String)
  | cold (logicalKey : String)
  deriving DecidableEq

def len (s : String) : ℕ := (utf8 s.toList).length

def validateComponent (value description : String) (allowEmpty : Bool) : Recorded Unit :=
  if (!allowEmpty && value = "") || maxLogicalRecordKeyBytes < len value
    then invalid ("invalid logical record " ++ description) else .ok ()

def validateColdLogicalKey (value : String) : Recorded Unit := do
  validateComponent value "logicalKey" false
  if '\x00' ∈ value.toList then invalid "logical cold record key cannot contain NUL" else .ok ()

def locatorParts : LogicalRecordLocator → Recorded (String × List String)
  | .root => .ok ("root",[])
  | .preset presetId => do
    validateComponent presetId "presetId" false
    .ok ("preset",[presetId])
  | .plugin owner storageKey => do
    validateComponent owner "owner" false
    validateComponent storageKey "storageKey" true
    .ok ("plugin",[owner,storageKey])
  | .character characterId => do
    validateComponent characterId "characterId" false
    .ok ("character",[characterId])
  | .conversation characterId conversationId => do
    validateComponent characterId "characterId" false
    validateComponent conversationId "conversationId" false
    .ok ("conversation",[characterId,conversationId])
  | .asset logicalKey => do
    validateComponent logicalKey "logicalKey" true
    .ok ("asset",[logicalKey])
  | .inlay logicalKey => do
    validateComponent logicalKey "logicalKey" true
    .ok ("inlay",[logicalKey])
  | .cold logicalKey => do
    validateColdLogicalKey logicalKey
    .ok ("cold",[logicalKey])

section
variable (cr : Crates)

/-- The text of a kind and its components, which `serde_json::to_vec` writes as an array. -/
def keyOfParts (kind : String) (components : List String) : String :=
  if components = [] then "r1:" ++ kind
  else "r1:" ++ kind ++ ":" ++ cr.base64Encode (utf8 (keyText components))

def encodeLogicalRecordKey (locator : LogicalRecordLocator) : Recorded String := do
  let (kind,components) ← locatorParts locator
  let encoded := keyOfParts cr kind components
  if maxLogicalRecordKeyBytes < len encoded
    then invalid "logical record key exceeds the encoded key limit" else .ok encoded

/-- `serde_json::from_slice::<Vec<String>>` -/
def componentsOf (bytes : List UInt8) : Option (List String) :=
  match cr.readJson bytes with
  | some (.arr vs) => vs.mapM Json.text?
  | _ => none

/-- The locator of a kind with its components. -/
def locatorOf (kind : String) (components : List String) : Recorded LogicalRecordLocator :=
  match kind, components with
  | "preset", [presetId] => .ok (.preset presetId)
  | "plugin", [owner,storageKey] => .ok (.plugin owner storageKey)
  | "character", [characterId] => .ok (.character characterId)
  | "conversation", [characterId,conversationId] => .ok (.conversation characterId conversationId)
  | "asset", [logicalKey] => .ok (.asset logicalKey)
  | "inlay", [logicalKey] => .ok (.inlay logicalKey)
  | "cold", [logicalKey] => .ok (.cold logicalKey)
  | _, _ => invalid "logical record key kind or component arity is invalid"

/-- The kind and the payload of a key, from its fields. -/
def fieldsOf (fields : List (List Char)) : Recorded (String × String) :=
  match fields with
  | ['r','1'] :: rest =>
    match rest with
    | [] => invalid "logical record key kind is missing"
    | [_] => invalid "logical record key components are missing"
    | kind :: payload :: more =>
      if more ≠ [] ∨ payload = [] then invalid "logical record key format is invalid"
      else .ok (String.ofList kind,String.ofList payload)
  | _ => invalid "logical record key prefix is invalid"

def decodeLogicalRecordKey (encoded : String) : Recorded LogicalRecordLocator :=
  if maxLogicalRecordKeyBytes < len encoded then
    invalid "logical record key exceeds the encoded key limit"
  else if encoded = "r1:root" then .ok .root
  else do
    let (kind,payload) ← fieldsOf (encoded.toList.splitOn ':')
    let some bytes := cr.base64Decode payload
      | invalid "logical record key components are not canonical base64url"
    let some components := componentsOf cr bytes
      | invalid "logical record key components are invalid"
    let locator ← locatorOf kind components
    let canonical ← encodeLogicalRecordKey cr locator
    if canonical ≠ encoded then invalid "logical record key is not canonical" else .ok locator

end

/-! ### What is encoded is decoded -/

/-- The base64 crate, as documented: it reads back what it writes, in letters, digits, `-` and
`_`, four for every three bytes and no padding. -/
structure Base64Codec (cr : Crates) : Prop where
  decodes : ∀ b, cr.base64Decode (cr.base64Encode b) = some b
  alphabet : ∀ b, ∀ c ∈ (cr.base64Encode b).toList, c.isAlphanum = true ∨ c = '-' ∨ c = '_'
  length : ∀ b, (cr.base64Encode b).toList.length = (4*b.length + 2)/3

/-- The identifiers a locator may have. -/
def LogicalRecordLocator.Valid : LogicalRecordLocator → Prop
  | .root => True
  | .preset id | .character id => id ≠ "" ∧ len id ≤ maxLogicalRecordKeyBytes
  | .plugin owner storageKey =>
    (owner ≠ "" ∧ len owner ≤ maxLogicalRecordKeyBytes) ∧ len storageKey ≤ maxLogicalRecordKeyBytes
  | .conversation characterId conversationId =>
    (characterId ≠ "" ∧ len characterId ≤ maxLogicalRecordKeyBytes) ∧
      conversationId ≠ "" ∧ len conversationId ≤ maxLogicalRecordKeyBytes
  | .asset logicalKey | .inlay logicalKey => len logicalKey ≤ maxLogicalRecordKeyBytes
  | .cold logicalKey =>
    (logicalKey ≠ "" ∧ len logicalKey ≤ maxLogicalRecordKeyBytes) ∧ '\x00' ∉ logicalKey.toList

/-- The kind of a locator and its components. -/
def LogicalRecordLocator.parts : LogicalRecordLocator → String × List String
  | .root => ("root",[])
  | .preset presetId => ("preset",[presetId])
  | .plugin owner storageKey => ("plugin",[owner,storageKey])
  | .character characterId => ("character",[characterId])
  | .conversation characterId conversationId => ("conversation",[characterId,conversationId])
  | .asset logicalKey => ("asset",[logicalKey])
  | .inlay logicalKey => ("inlay",[logicalKey])
  | .cold logicalKey => ("cold",[logicalKey])

lemma validateComponent_eq_ok {value description : String} {allowEmpty : Bool} {u : Unit} :
    validateComponent value description allowEmpty = .ok u ↔
      (allowEmpty = true ∨ value ≠ "") ∧ len value ≤ maxLogicalRecordKeyBytes := by
  unfold validateComponent invalid
  split_ifs with h
  · simp only [Bool.or_eq_true, Bool.and_eq_true, Bool.not_eq_true', decide_eq_true_eq] at h
    simp only [false_iff, not_and, not_le]
    intro hv
    obtain ⟨ha, he⟩ | h := h
    · simp [ha, he] at hv
    · exact h
  · simp only [Bool.or_eq_true, Bool.and_eq_true, Bool.not_eq_true', decide_eq_true_eq, not_or,
      not_and, not_lt] at h
    simp only [true_iff]
    refine ⟨?_,h.2⟩
    cases allowEmpty with
    | true => exact .inl rfl
    | false => exact .inr (h.1 rfl)

lemma validateColdLogicalKey_eq_ok {value : String} {u : Unit} :
    validateColdLogicalKey value = .ok u ↔
      (value ≠ "" ∧ len value ≤ maxLogicalRecordKeyBytes) ∧ '\x00' ∉ value.toList := by
  unfold validateColdLogicalKey
  rw [bind_eq_ok]
  simp only [validateComponent_eq_ok, Bool.false_eq_true, false_or]
  split_ifs with h
  · simp [invalid, h]
  · simp [h]

lemma locatorParts_eq_ok {locator : LogicalRecordLocator} {parts : String × List String} :
    locatorParts locator = .ok parts ↔ locator.Valid ∧ locator.parts = parts := by
  cases locator <;>
    simp only [locatorParts, LogicalRecordLocator.Valid, LogicalRecordLocator.parts, bind_eq_ok,
      validateComponent_eq_ok, validateColdLogicalKey_eq_ok, Bool.false_eq_true, false_or, true_or,
      Except.ok.injEq, true_and, exists_const, and_assoc]

lemma kind_of_parts (locator : LogicalRecordLocator) (h : locator ≠ .root) :
    locator.parts.2 ≠ [] ∧ ':' ∉ locator.parts.1.toList ∧
      locatorOf locator.parts.1 locator.parts.2 = .ok locator := by
  cases locator with
  | root => exact absurd rfl h
  | _ => exact ⟨by simp [LogicalRecordLocator.parts],by simp [LogicalRecordLocator.parts],rfl⟩

section
variable {cr : Crates} {numeral : List Char → Option ℚ} {locator : LogicalRecordLocator}
  {encoded : String}

lemma colon_not_mem (hb : Base64Codec cr) (b : List UInt8) :
    ':' ∉ (cr.base64Encode b).toList := by
  intro h
  have := hb.alphabet b ':' h
  revert this
  decide

lemma utf8_keyText_ne_nil (components : List String) : utf8 (keyText components) ≠ [] := by
  obtain ⟨t, ht⟩ : ∃ t, keyText components = '[' :: t := by
    cases components <;> exact ⟨_,rfl⟩
  intro h
  have hlen := congrArg List.length h
  rw [ht, ← List.singleton_append, Wire.length_utf8_append] at hlen
  have hone : (utf8 ['[']).length = 1 := by decide +kernel
  rw [hone, List.length_nil] at hlen
  omega

lemma payload_ne_nil (hb : Base64Codec cr) (components : List String) :
    (cr.base64Encode (utf8 (keyText components))).toList ≠ [] := by
  have hlen := hb.length (utf8 (keyText components))
  have hpos := List.length_pos_of_ne_nil (utf8_keyText_ne_nil components)
  intro h
  rw [h, List.length_nil] at hlen
  omega

lemma toList_keyOfParts {kind : String} {components : List String} (h : components ≠ []) :
    (keyOfParts cr kind components).toList =
      'r' :: '1' :: ':' :: kind.toList ++
        ':' :: (cr.base64Encode (utf8 (keyText components))).toList := by
  rw [keyOfParts, if_neg h]
  simp

lemma fieldsOf_key (hb : Base64Codec cr) {kind : String} {components : List String}
    (h : components ≠ []) (hkind : ':' ∉ kind.toList) :
    fieldsOf ((keyOfParts cr kind components).toList.splitOn ':') =
      .ok (kind,cr.base64Encode (utf8 (keyText components))) := by
  have hfirst : ':' ∉ ['r','1'] := by decide
  have hsplit : (keyOfParts cr kind components).toList.splitOn ':' =
      [['r','1'],kind.toList,(cr.base64Encode (utf8 (keyText components))).toList] := by
    rw [toList_keyOfParts h]
    change (['r','1'] ++ ':' :: (kind.toList ++ ':' :: _)).splitOn ':' = _
    rw [List.splitOn_append_cons_self_of_not_mem hfirst,
      List.splitOn_append_cons_self_of_not_mem hkind,
      List.splitOn_eq_singleton (colon_not_mem hb _)]
  rw [hsplit]
  simp [fieldsOf, payload_ne_nil hb]

lemma key_ne_root {kind : String} {components : List String} (h : components ≠ []) :
    keyOfParts cr kind components ≠ "r1:root" := by
  intro he
  have hroot : ∀ rest : List Char, rest = "root".toList → ':' ∉ rest := by
    rintro rest rfl
    decide
  have htext := congrArg String.toList he
  rw [toList_keyOfParts h] at htext
  have hrest : kind.toList ++ ':' :: (cr.base64Encode (utf8 (keyText components))).toList =
      "root".toList := by simpa using htext
  exact hroot _ hrest (by simp)

lemma componentsOf_keyText (hread : ReadsJson numeral cr) (components : List String) :
    componentsOf cr (utf8 (keyText components)) = some components := by
  have h := Wire.textsOf_keyText hread components
  unfold Wire.textsOf at h
  rwa [String.toList_ofList] at h

lemma encode_eq_ok : encodeLogicalRecordKey cr locator = .ok encoded ↔
    locator.Valid ∧ keyOfParts cr locator.parts.1 locator.parts.2 = encoded ∧
      len encoded ≤ maxLogicalRecordKeyBytes := by
  unfold encodeLogicalRecordKey
  rw [bind_eq_ok]
  constructor
  · rintro ⟨parts, hparts, h⟩
    obtain ⟨hvalid, rfl⟩ := locatorParts_eq_ok.mp hparts
    dsimp only at h
    split_ifs at h with hlen
    · cases h
    · cases h
      exact ⟨hvalid,rfl,not_lt.mp hlen⟩
  · rintro ⟨hvalid, rfl, hlen⟩
    exact ⟨_,locatorParts_eq_ok.mpr ⟨hvalid,rfl⟩,if_neg (not_lt.mpr hlen)⟩

lemma decode_encode (hread : ReadsJson numeral cr) (hb : Base64Codec cr)
    (h : encodeLogicalRecordKey cr locator = .ok encoded) :
    decodeLogicalRecordKey cr encoded = .ok locator := by
  have hkey := h
  obtain ⟨-, rfl, hlen⟩ := encode_eq_ok.mp hkey
  unfold decodeLogicalRecordKey
  rw [if_neg (not_lt.mpr hlen)]
  by_cases hroot : locator = .root
  · subst hroot
    exact if_pos rfl
  · obtain ⟨hne, hkind, hlocator⟩ := kind_of_parts locator hroot
    rw [if_neg (key_ne_root hne), fieldsOf_key hb hne hkind]
    change (match cr.base64Decode (cr.base64Encode (utf8 (keyText locator.parts.2))) with
      | some bytes => _
      | _ => _) = _
    rw [hb.decodes]
    change (match componentsOf cr (utf8 (keyText locator.parts.2)) with
      | some components => _
      | _ => _) = _
    rw [componentsOf_keyText hread]
    exact bind_eq_ok.mpr ⟨_,hlocator,bind_eq_ok.mpr ⟨_,h,if_neg (not_not.mpr rfl)⟩⟩

lemma encode_decode (h : decodeLogicalRecordKey cr encoded = .ok locator) :
    encodeLogicalRecordKey cr locator = .ok encoded := by
  unfold decodeLogicalRecordKey at h
  split_ifs at h with hlen hroot
  · cases h
  · cases h
    rw [hroot]
    exact encode_eq_ok.mpr ⟨trivial,rfl,by decide⟩
  · obtain ⟨fields, -, h⟩ := bind_eq_ok.mp h
    dsimp only at h
    split at h
    · split at h
      · obtain ⟨locator', -, h⟩ := bind_eq_ok.mp h
        obtain ⟨canonical, hc, h⟩ := bind_eq_ok.mp h
        split_ifs at h with hne
        · cases h
        · cases h
          rw [hc, not_not.mp hne]
      · cases h
    · cases h

/-- Exactly the valid locators whose key is short enough have a key; decoding the key of a locator
returns the locator; locators that differ never share a key; and exactly the texts that are the key
of some locator are decoded. -/
theorem record_keys_are_faithful (hread : ReadsJson numeral cr) (hb : Base64Codec cr) :
    (∀ locator, (∃ key, encodeLogicalRecordKey cr locator = .ok key) ↔ locator.Valid ∧
      len (keyOfParts cr locator.parts.1 locator.parts.2) ≤ maxLogicalRecordKeyBytes) ∧
    (∀ locator key, encodeLogicalRecordKey cr locator = .ok key →
      decodeLogicalRecordKey cr key = .ok locator) ∧
    (∀ locator other key, encodeLogicalRecordKey cr locator = .ok key →
      encodeLogicalRecordKey cr other = .ok key → locator = other) ∧
    ∀ text locator, decodeLogicalRecordKey cr text = .ok locator ↔
      encodeLogicalRecordKey cr locator = .ok text := by
  refine ⟨?_,fun _ _ h => decode_encode hread hb h,?_,
    fun _ _ => ⟨encode_decode,decode_encode hread hb⟩⟩
  · intro locator
    simp only [encode_eq_ok]
    constructor
    · rintro ⟨key, hvalid, rfl, hlen⟩
      exact ⟨hvalid,hlen⟩
    · rintro ⟨hvalid, hlen⟩
      exact ⟨_,hvalid,rfl,hlen⟩
  · intro locator other key h h'
    exact Except.ok.inj ((decode_encode hread hb h).symm.trans (decode_encode hread hb h'))

end

/-- `textCrates` with base64 as it is documented. -/
def keyCrates : Crates :=
  { Wire.Payload.textCrates with
    base64Encode := fun b => String.ofList (Base64.encode b)
    base64Decode := fun t => Base64.decode t.toList }

lemma keyCrates_reads : ReadsJson Wire.Payload.decimal keyCrates := Wire.Payload.textCrates_reads

lemma keyCrates_codec : Base64Codec keyCrates where
  decodes b := by
    change Base64.decode (String.ofList (Base64.encode b)).toList = some b
    rw [String.toList_ofList, Base64.decode_encode]
  alphabet b c hc := by
    change c ∈ (String.ofList (Base64.encode b)).toList at hc
    rw [String.toList_ofList] at hc
    have hall : (Base64.alphabet.all fun c => c.isAlphanum || c == '-' || c == '_') = true := by
      decide +kernel
    have hmem := List.all_eq_true.mp hall c (Base64.mem_alphabet hc)
    simpa [or_assoc] using hmem
  length b := by
    change (String.ofList (Base64.encode b)).toList.length = _
    rw [String.toList_ofList, Base64.length_encode]

/-- A conversation whose identifiers hold a colon, a quotation mark and a letter outside ASCII. -/
theorem record_keys_are_faithful_conversation :
    ∃ key, encodeLogicalRecordKey keyCrates (.conversation "a:\"" "ü") = .ok key ∧
      decodeLogicalRecordKey keyCrates key = .ok (.conversation "a:\"" "ü") := by
  obtain ⟨hvalid, hdecodes, -, -⟩ := record_keys_are_faithful keyCrates_reads keyCrates_codec
  have hlens : (len "a:\"" ≤ maxLogicalRecordKeyBytes ∧ len "ü" ≤ maxLogicalRecordKeyBytes) ∧
      len (keyOfParts keyCrates "conversation" ["a:\"","ü"]) ≤ maxLogicalRecordKeyBytes := by
    decide +kernel
  obtain ⟨key, hkey⟩ := (hvalid (.conversation "a:\"" "ü")).mpr
    ⟨⟨⟨by decide,hlens.1.1⟩,by decide,hlens.1.2⟩,hlens.2⟩
  exact ⟨key,hkey,hdecodes _ _ hkey⟩

end RisuNest.External.RecordKeys
