import RisuNest.External.CatalogPages
import RisuNest.External.Objects
import RisuNest.Lib.Base64
import RisuNest.Lib.JsonTree
import RisuNest.Wire.Head

/-! Entries of sections: a key with its value, which may be of a form that only a later build knows
(`section.rs`). -/
namespace RisuNest.External.SectionEntries
open JsonTree (fieldsOf listOf optionOf text? unitOf variantOf)
open Pack (FormatError Formatted Hash)
open Wire (readSequence utf8)
variable {N : Type}

/-- `serde_json`, over the numbers that it tells apart. -/
structure SerdeJson (N : Type) where
  /-- `to_string` -/
  toText : JsonTree N → List Char
  /-- The document that `from_slice` reads records from. -/
  fromSlice : List UInt8 → Option (JsonTree N)
  /-- A number as a `u64`. -/
  whole : N → Option ℕ
  ofWhole : ℕ → N

/-- `serde_json`, as documented: it reads what it writes where arrays and objects nest at most 127
deep and nothing where they nest deeper, and numbers of 64 bits are themselves. -/
structure SerdeJson.Documented (sj : SerdeJson N) : Prop where
  reads : ∀ v : JsonTree N, v.depth ≤ 127 → sj.fromSlice (utf8 (sj.toText v)) = some v
  limit : ∀ v : JsonTree N, 127 < v.depth → sj.fromSlice (utf8 (sj.toText v)) = none
  written : ∀ v, sj.toText v ≠ []
  whole : ∀ n < 2^64, sj.whole (sj.ofWhole n) = some n

def sectionCodec : String := "risunest.section-codec/v1"

def maxInlineValueBytes : ℕ := 4*1024

def maxSectionEntryBytes : ℕ := 64*1024

def maxSectionObjectBytes : ℕ := 8*1024*1024

def maxPluginValueBytes : ℕ := 512*1024*1024

def maxVectorDimensions : ℕ := 16384

/-- `i64::MAX` -/
def maxTime : ℕ := 9223372036854775807

inductive SectionKind
  | hypa
  | localPlugins
  | localSettings
  deriving DecidableEq, Repr

/-- `SectionKind::id`, which is also how the kind is written. -/
def SectionKind.id : SectionKind → String
  | hypa => "hypa"
  | localPlugins => "local-plugins"
  | localSettings => "local-settings"

def SectionKind.named : String → Option SectionKind
  | "hypa" => some hypa
  | "local-plugins" => some localPlugins
  | "local-settings" => some localSettings
  | _ => none

inductive PluginSpace
  | string
  | json
  deriving DecidableEq, Repr

def PluginSpace.name : PluginSpace → String
  | string => "string"
  | json => "json"

def PluginSpace.named : String → Option PluginSpace
  | "string" => some string
  | "json" => some json
  | _ => none

/-- `Sequence`, as the number that its text stands for. -/
abbrev Sequence := {n : ℕ // n < 10^64}

structure ObjectReference where
  contentSha256 : Hash
  byteLength : UInt64
  deriving DecidableEq

inductive InlineOrObject
  | inline (encoded : String)
  | object (reference : ObjectReference)

inductive ValueOrObject (N : Type)
  | inline (value : JsonValue N)
  | object (reference : ObjectReference)

structure HypaValue (N : Type) where
  producer : String
  model : String
  endpoint : Option String
  preprocessVersion : UInt32
  dimensions : UInt32
  vector : InlineOrObject
  metadata : Option (JsonValue N)

inductive StructureText
  | inline (text : String)
  | object (reference : ObjectReference)
  | objects (references : List ObjectReference)

structure StructuredPluginValue where
  text : StructureText
  parts : List ObjectReference

inductive PluginValue (N : Type)
  | inline (value : JsonValue N)
  | object (reference : ObjectReference)
  | objects (references : List ObjectReference)
  | structured (value : StructuredPluginValue)

structure LocalPluginValue (N : Type) where
  space : PluginSpace
  value : PluginValue N

inductive SectionValue (N : Type)
  | hypa (value : HypaValue N)
  | localPlugin (value : LocalPluginValue N)
  | localSetting (value : ValueOrObject N)
  | tombstone (firstPublishedGeneration : Sequence) (firstPublishedAtMs : UInt64)

structure SectionEntryVersion where
  writeClock : Sequence
  writerId : String

structure SectionEntry (N : Type) where
  codec : String
  kind : SectionKind
  key : String
  value : SectionValue N
  version : Option SectionEntryVersion

structure UnknownPluginEntry where
  key : String
  version : Option SectionEntryVersion

/-! ### What is valid -/

def invalidValue : FormatError := ⟨"invalid-section-value"⟩

def ObjectReference.validate (r : ObjectReference) : Formatted Unit :=
  require (r.byteLength ≠ 0 ∧ r.byteLength.toNat ≤ maxSectionObjectBytes) invalidValue

/-- `InlineOrObject::decode_inline` of an inline value. -/
def decodeInline (encoded : String) : Formatted (List UInt8) :=
  match Base64.decode encoded.toList with
  | none => .error invalidValue
  | some bytes => do
    require (bytes.length ≤ maxInlineValueBytes) invalidValue
    pure bytes

def InlineOrObject.validate : InlineOrObject → Formatted Unit
  | .inline encoded => (decodeInline encoded).map fun _ => ()
  | .object reference => reference.validate

def ValueOrObject.validate : ValueOrObject N → Formatted Unit
  | .inline _ => .ok ()
  | .object reference => do
    require (maxInlineValueBytes < reference.byteLength.toNat) invalidValue
    reference.validate

/-- The length so far with one more reference. -/
def addReference (total : ℕ) (reference : ObjectReference) : Formatted ℕ := do
  reference.validate
  require (total + reference.byteLength.toNat < 2^64) invalidValue
  pure (total + reference.byteLength.toNat)

def StructureText.references : StructureText → List ObjectReference
  | .inline _ => []
  | .object reference => [reference]
  | .objects references => references

/-- The length that a structure text starts the count of its value with. -/
def StructureText.start : StructureText → Formatted ℕ
  | .inline text => do
    require (text.utf8ByteSize ≤ maxInlineValueBytes) invalidValue
    pure text.utf8ByteSize
  | .object reference => do
    require (maxInlineValueBytes < reference.byteLength.toNat) invalidValue
    pure 0
  | .objects references => do
    require (2 ≤ references.length) invalidValue
    pure 0

def StructuredPluginValue.validate (v : StructuredPluginValue) : Formatted Unit := do
  let start ← v.text.start
  let total ← (v.text.references ++ v.parts).foldlM addReference start
  require (total ≤ maxPluginValueBytes) invalidValue

def PluginValue.validate : PluginValue N → Formatted Unit
  | .inline _ => .ok ()
  | .object reference => do
    require (maxInlineValueBytes < reference.byteLength.toNat) invalidValue
    reference.validate
  | .objects references => do
    require (2 ≤ references.length) invalidValue
    let total ← references.foldlM addReference 2
    require (total ≤ maxPluginValueBytes) invalidValue
  | .structured value => value.validate

def hypaEntryKey (cacheKey : String) : Formatted String := do
  require (isLowerHex256 cacheKey = true) ⟨"invalid-section-key"⟩
  pure cacheKey

section
variable (sj : SerdeJson N)

def localPluginEntryKey (owner space key : String) : Formatted String := do
  require (owner ≠ "" ∧ space ≠ "") ⟨"invalid-section-key"⟩
  let encoded := sj.toText (.arr [.str owner,.str space,.str key])
  require ((utf8 encoded).length ≤ 64*1024) ⟨"invalid-section-key"⟩
  pure (String.ofList encoded)

def decodeLocalPluginEntryKey (encoded : String) : Formatted (String × String × String) :=
  match (sj.fromSlice (utf8 encoded.toList)).bind (listOf text?) with
  | some [owner,space,key] => do
    let canonical ← localPluginEntryKey sj owner space key
    require (canonical = encoded) ⟨"invalid-section-key"⟩
    pure (owner,space,key)
  | _ => .error ⟨"invalid-section-key"⟩

/-- What `SectionEntry::validate` asks of the key. -/
def validateKey (kind : SectionKind) (key : String) : Formatted Unit :=
  match kind with
  | .hypa => (hypaEntryKey key).map fun _ => ()
  | .localPlugins => (decodeLocalPluginEntryKey sj key).map fun _ => ()
  | .localSettings =>
    require (key ≠ "" ∧ key.utf8ByteSize ≤ 64*1024) ⟨"invalid-section-key"⟩

def SectionValue.kind : SectionValue N → Option SectionKind
  | .hypa _ => some .hypa
  | .localPlugin _ => some .localPlugins
  | .localSetting _ => some .localSettings
  | .tombstone _ _ => none

/-- The length of a vector. -/
def InlineOrObject.byteLength : InlineOrObject → Formatted ℕ
  | .inline encoded => do
    let bytes ← decodeInline encoded
    pure bytes.length
  | .object reference => pure reference.byteLength.toNat

def HypaValue.validate (v : HypaValue N) : Formatted Unit := do
  require (v.producer ≠ "" ∧ v.model ≠ "" ∧ v.dimensions ≠ 0 ∧
    v.dimensions.toNat ≤ maxVectorDimensions ∧ v.endpoint ≠ some "") invalidValue
  v.vector.validate
  let byteLength ← v.vector.byteLength
  require (byteLength = v.dimensions.toNat * 4) ⟨"invalid-section-vector-length"⟩

/-- Only texts and what names objects without structure is in the space of strings. -/
def PluginValue.ofString : PluginValue N → Bool
  | .inline ⟨.str _, _⟩ => true
  | .inline _ => false
  | .structured _ => false
  | .object _ => true
  | .objects _ => true

def LocalPluginValue.validate (key : String) (v : LocalPluginValue N) : Formatted Unit := do
  let (_, space, _) ← decodeLocalPluginEntryKey sj key
  require (space = v.space.name) ⟨"section-plugin-space-mismatch"⟩
  v.value.validate
  require (v.space = .string → v.value.ofString = true) invalidValue

def SectionValue.validate (key : String) : SectionValue N → Formatted Unit
  | .hypa value => value.validate
  | .localPlugin value => value.validate sj key
  | .tombstone firstPublishedGeneration firstPublishedAtMs =>
    require (firstPublishedGeneration.val ≠ 0 ∧ firstPublishedAtMs ≠ 0 ∧
      firstPublishedAtMs.toNat ≤ maxTime) invalidValue
  | .localSetting value => value.validate

/-- The writer that a version names. -/
def validVersion (version : Option SectionEntryVersion) : Prop :=
  ∀ v ∈ version, v.writerId ≠ "" ∧ v.writerId.utf8ByteSize ≤ 1024

instance (version : Option SectionEntryVersion) : Decidable (validVersion version) :=
  inferInstanceAs (Decidable (∀ v ∈ version, v.writerId ≠ "" ∧ v.writerId.utf8ByteSize ≤ 1024))

def SectionEntry.validate (e : SectionEntry N) : Formatted Unit := do
  require (e.codec = sectionCodec) ⟨"unsupported-section-codec"⟩
  validateKey sj e.kind e.key
  require (∀ kind ∈ e.value.kind, kind = e.kind) ⟨"section-value-kind-mismatch"⟩
  e.value.validate sj e.key
  require (validVersion e.version) ⟨"invalid-section-version"⟩

/-! ### Entries as JSON -/

/-- `control_integer::serialize` -/
def integerJson (n : UInt64) : JsonTree N := .str n.toNat.repr

def Sequence.json (n : Sequence) : JsonTree N := .str n.val.repr

def optionJson {α : Type} (f : α → JsonTree N) : Option α → JsonTree N
  | none => .null
  | some a => f a

def hashJson (h : Hash) : JsonTree N := .arr (h.val.map fun b => .num (sj.ofWhole b.toNat))

def ObjectReference.json (r : ObjectReference) : JsonTree N :=
  .obj [("contentSha256",hashJson sj r.contentSha256),("byteLength",integerJson r.byteLength)]

def referencesJson (rs : List ObjectReference) : JsonTree N :=
  .arr (rs.map (ObjectReference.json sj))

def InlineOrObject.json : InlineOrObject → JsonTree N
  | .inline encoded => .obj [("inline",.str encoded)]
  | .object reference => .obj [("object",reference.json sj)]

/-- The variant and its content. -/
def ValueOrObject.member : ValueOrObject N → String × JsonTree N
  | .inline value => ("value",value.val)
  | .object reference => ("object",reference.json sj)

def HypaValue.json (v : HypaValue N) : JsonTree N :=
  .obj [("producer",.str v.producer),("model",.str v.model),
    ("endpoint",optionJson .str v.endpoint),
    ("preprocessVersion",.num (sj.ofWhole v.preprocessVersion.toNat)),
    ("dimensions",.num (sj.ofWhole v.dimensions.toNat)),("vector",v.vector.json sj),
    ("metadata",optionJson Subtype.val v.metadata)]

def StructureText.json : StructureText → JsonTree N
  | .inline text => .obj [("value",.str text)]
  | .object reference => .obj [("object",reference.json sj)]
  | .objects references => .obj [("objects",referencesJson sj references)]

def StructuredPluginValue.json (v : StructuredPluginValue) : JsonTree N :=
  .obj [("text",v.text.json sj),("parts",referencesJson sj v.parts)]

/-- The variant and its content. -/
def PluginValue.member : PluginValue N → String × JsonTree N
  | .inline value => ("value",value.val)
  | .object reference => ("object",reference.json sj)
  | .objects references => ("objects",referencesJson sj references)
  | .structured value => ("structured",value.json sj)

def SectionValue.json : SectionValue N → JsonTree N
  | .hypa value => .obj [("hypa",value.json sj)]
  | .localPlugin value =>
    .obj [("localPlugin",.obj [("space",.str value.space.name),value.value.member sj])]
  | .localSetting value => .obj [("localSetting",.obj [value.member sj])]
  | .tombstone firstPublishedGeneration firstPublishedAtMs =>
    .obj [("tombstone",.obj [("firstPublishedGeneration",firstPublishedGeneration.json),
      ("firstPublishedAtMs",integerJson firstPublishedAtMs)])]

def SectionEntryVersion.json (v : SectionEntryVersion) : JsonTree N :=
  .obj [("writeClock",Sequence.json v.writeClock),("writerId",.str v.writerId)]

def SectionEntry.json (e : SectionEntry N) : JsonTree N :=
  .obj [("codec",.str e.codec),("kind",.str e.kind.id),("key",.str e.key),
    ("value",e.value.json sj),("version",optionJson SectionEntryVersion.json e.version)]

/-! ### Entries from JSON -/

/-- `control_integer::deserialize` of a `u64`. -/
def integerOf (v : JsonTree N) : Option UInt64 :=
  v.text?.bind fun text => CatalogPages.integerOf (.str text)

def sequenceOf (v : JsonTree N) : Option Sequence :=
  (v.text?.bind readSequence).bind fun n => if h : n < 10^64 then some ⟨n,h⟩ else none

def wholeOf : JsonTree N → Option ℕ
  | .num n => sj.whole n
  | _ => none

def byteOf (v : JsonTree N) : Option UInt8 :=
  (wholeOf sj v).bind fun n => if n < 256 then some (.ofNat n) else none

def u32Of (v : JsonTree N) : Option UInt32 :=
  (wholeOf sj v).bind fun n => if n < 2^32 then some (.ofNat n) else none

def hashOf (v : JsonTree N) : Option Hash :=
  (listOf (byteOf sj) v).bind fun bytes => if h : bytes.length = 32 then some ⟨bytes,h⟩ else none

def objectReferenceOf (v : JsonTree N) : Option ObjectReference :=
  match fieldsOf [("contentSha256",false),("byteLength",false)] v with
  | some [contentSha256,byteLength] => do pure ⟨← hashOf sj contentSha256,← integerOf byteLength⟩
  | _ => none

def referencesOf (v : JsonTree N) : Option (List ObjectReference) :=
  listOf (objectReferenceOf sj) v

def inlineOrObjectOf (v : JsonTree N) : Option InlineOrObject :=
  match variantOf v with
  | some ("inline", w) => w.text?.map .inline
  | some ("object", w) => (objectReferenceOf sj w).map .object
  | _ => none

def valueOrObjectOf (v : JsonTree N) : Option (ValueOrObject N) :=
  match variantOf v with
  | some ("value", w) => some (.inline (.ofTree w))
  | some ("object", w) => (objectReferenceOf sj w).map .object
  | _ => none

def hypaValueOf (v : JsonTree N) : Option (HypaValue N) :=
  match fieldsOf [("producer",false),("model",false),("endpoint",true),("preprocessVersion",false),
    ("dimensions",false),("vector",false),("metadata",true)] v with
  | some [producer,model,endpoint,preprocessVersion,dimensions,vector,metadata] => do
    pure ⟨← producer.text?,← model.text?,← optionOf text? endpoint,← u32Of sj preprocessVersion,
      ← u32Of sj dimensions,← inlineOrObjectOf sj vector,
      ← optionOf (fun w => some (.ofTree w)) metadata⟩
  | _ => none

def structureTextOf (v : JsonTree N) : Option StructureText :=
  match variantOf v with
  | some ("value", w) => w.text?.map .inline
  | some ("object", w) => (objectReferenceOf sj w).map .object
  | some ("objects", w) => (referencesOf sj w).map .objects
  | _ => none

def structuredPluginValueOf (v : JsonTree N) : Option StructuredPluginValue :=
  match fieldsOf [("text",false),("parts",false)] v with
  | some [text,parts] => do pure ⟨← structureTextOf sj text,← referencesOf sj parts⟩
  | _ => none

def pluginValueOf : String × JsonTree N → Option (PluginValue N)
  | ("value", w) => some (.inline (.ofTree w))
  | ("object", w) => (objectReferenceOf sj w).map .object
  | ("objects", w) => (referencesOf sj w).map .objects
  | ("structured", w) => (structuredPluginValueOf sj w).map .structured
  | _ => none

/-- The form of a plugin value is a member next to its space, and there may be no other. -/
def localPluginValueOf : JsonTree N → Option (LocalPluginValue N)
  | .obj ms =>
    match ms.filter fun m => m.1 = "space", ms.filter fun m => m.1 ≠ "space" with
    | [space], [m] => do pure ⟨← unitOf PluginSpace.named space.2,← pluginValueOf sj m⟩
    | _, _ => none
  | _ => none

/-- Other members of a tombstone are passed over. -/
def tombstoneOf (v : JsonTree N) : Option (SectionValue N) :=
  let known := match v with
    | .obj ms => .obj (ms.filter fun m =>
        m.1 = "firstPublishedGeneration" ∨ m.1 = "firstPublishedAtMs")
    | v => v
  match fieldsOf [("firstPublishedGeneration",false),("firstPublishedAtMs",false)] known with
  | some [generation,atMs] => do pure (.tombstone (← sequenceOf generation) (← integerOf atMs))
  | _ => none

def sectionValueOf (v : JsonTree N) : Option (SectionValue N) :=
  match variantOf v with
  | some ("hypa", w) => (hypaValueOf sj w).map .hypa
  | some ("localPlugin", w) => (localPluginValueOf sj w).map .localPlugin
  | some ("localSetting", w) => (valueOrObjectOf sj w).map .localSetting
  | some ("tombstone", w) => tombstoneOf w
  | _ => none

def versionOf (v : JsonTree N) : Option SectionEntryVersion :=
  match fieldsOf [("writeClock",false),("writerId",false)] v with
  | some [writeClock,writerId] => do pure ⟨← sequenceOf writeClock,← writerId.text?⟩
  | _ => none

/-- The fields of an entry and of its envelope. -/
def entryFields : List (String × Bool) :=
  [("codec",false),("kind",false),("key",false),("value",false),("version",true)]

def entryOf (v : JsonTree N) : Option (SectionEntry N) :=
  match fieldsOf entryFields v with
  | some [codec,kind,key,value,version] => do
    pure ⟨← codec.text?,← unitOf SectionKind.named kind,← key.text?,← sectionValueOf sj value,
      ← optionOf versionOf version⟩
  | _ => none

def SectionEntry.encode (e : SectionEntry N) : Formatted (List UInt8) := do
  e.validate sj
  let bytes := utf8 (sj.toText (e.json sj))
  require (bytes.length ≤ maxSectionEntryBytes) ⟨"section-entry-limit-exceeded"⟩
  pure bytes

def decode (bytes : List UInt8) : Formatted (SectionEntry N) := do
  require (bytes ≠ [] ∧ bytes.length ≤ maxSectionEntryBytes) ⟨"section-entry-limit-exceeded"⟩
  match (sj.fromSlice bytes).bind (entryOf sj) with
  | none => .error ⟨"invalid-section-entry"⟩
  | some entry => do
    entry.validate sj
    let canonical ← entry.encode sj
    require (canonical = bytes) ⟨"non-canonical-section-entry"⟩
    pure entry

/-! ### Forms that are not known -/

/-- What every plugin entry has, with the members of its value. -/
structure Envelope (N : Type) where
  codec : String
  kind : SectionKind
  key : String
  value : List (String × JsonTree N)
  version : Option SectionEntryVersion

/-- The value of an envelope, as a map. -/
def envelopeValueOf (v : JsonTree N) : Option (List (String × JsonTree N)) :=
  match variantOf v with
  | some ("localPlugin", w) =>
    match w.collapse with
    | .obj ms => some ms
    | _ => none
  | _ => none

def envelopeOf (v : JsonTree N) : Option (Envelope N) :=
  match fieldsOf entryFields v with
  | some [codec,kind,key,value,version] => do
    pure ⟨← codec.text?,← unitOf SectionKind.named kind,← key.text?,← envelopeValueOf value,
      ← optionOf versionOf version⟩
  | _ => none

/-- The forms of a plugin value that this build knows. -/
def knownForms : List String := ["value","object","objects","structured"]

/-- Whether the value has its space and one other member, of no form that is known. -/
def unknownForm (space : String) (value : List (String × JsonTree N)) : Prop :=
  value.length = 2 ∧
    ((value.find? fun m => m.1 = "space").bind fun m => m.2.text?) = some space ∧
    ∀ m ∈ value, m.1 = "space" ∨ m.1 ∉ knownForms

instance (space : String) (value : List (String × JsonTree N)) :
    Decidable (unknownForm space value) :=
  inferInstanceAs (Decidable (_ ∧ _ ∧ ∀ m ∈ value, m.1 = "space" ∨ m.1 ∉ knownForms))

def decodeKnown (bytes : List UInt8) : Formatted (Except UnknownPluginEntry (SectionEntry N)) :=
  match decode sj bytes with
  | .ok entry => .ok (.ok entry)
  | .error error =>
    if bytes = [] ∨ maxSectionEntryBytes < bytes.length then .error error
    else match (sj.fromSlice bytes).bind envelopeOf with
      | none => .error error
      | some e =>
        match decodeLocalPluginEntryKey sj e.key with
        | .error _ => .error error
        | .ok (_, space, _) =>
          if e.codec ≠ sectionCodec ∨ e.kind ≠ .localPlugins ∨ ¬ unknownForm space e.value ∨
              ¬ validVersion e.version then .error error
          else .ok (.error ⟨e.key,e.version⟩)

end

/-! ### Entries are read back -/

section
variable {sj : SerdeJson N}

lemma mapM_map {α β : Type} {f : β → Option α} {g : α → β} (h : ∀ a, f (g a) = some a)
    (l : List α) : (l.map g).mapM f = some l := CatalogPages.mapM_map h l

lemma integerOf_json (n : UInt64) : integerOf (integerJson n : JsonTree N) = some n :=
  CatalogPages.integerOf_json n

lemma sequenceOf_json (n : Sequence) : sequenceOf (n.json : JsonTree N) = some n := by
  have hread : readSequence n.val.repr = some n.val := Wire.readSequence_of_lt n.property
  change (readSequence n.val.repr).bind _ = _
  rw [hread]
  exact dif_pos n.property

lemma optionOf_json {α : Type} {f : JsonTree N → Option α} {g : α → JsonTree N}
    (h : ∀ a, f (g a) = some a) (hnull : ∀ a, g a ≠ .null) (o : Option α) :
    optionOf f (optionJson g o) = some o := by
  cases o with
  | none => rfl
  | some a =>
    have hsome : optionOf f (g a) = (f (g a)).map some := by
      cases hg : g a with
      | null => exact absurd hg (hnull a)
      | _ => rfl
    change optionOf f (g a) = _
    rw [hsome, h]
    rfl

lemma wholeOf_json (hsj : sj.Documented) {n : ℕ} (h : n < 2^64) :
    wholeOf sj (.num (sj.ofWhole n)) = some n := hsj.whole n h

lemma byteOf_json (hsj : sj.Documented) (b : UInt8) :
    byteOf sj (.num (sj.ofWhole b.toNat)) = some b := by
  have hlt := b.toNat_lt
  unfold byteOf
  rw [wholeOf_json hsj (by omega)]
  change (if b.toNat < 256 then _ else _) = _
  rw [if_pos hlt, UInt8.ofNat_toNat]

lemma u32Of_json (hsj : sj.Documented) (n : UInt32) :
    u32Of sj (.num (sj.ofWhole n.toNat)) = some n := by
  have hlt := n.toNat_lt
  unfold u32Of
  rw [wholeOf_json hsj (by omega)]
  change (if n.toNat < 2^32 then _ else _) = _
  rw [if_pos hlt, UInt32.ofNat_toNat]

lemma hashOf_json (hsj : sj.Documented) (h : Hash) : hashOf sj (hashJson sj h) = some h := by
  have hbytes := mapM_map (byteOf_json hsj) h.val
  change ((h.val.map _).mapM (byteOf sj)).bind _ = _
  rw [hbytes]
  exact dif_pos h.property

lemma objectReferenceOf_json (hsj : sj.Documented) (r : ObjectReference) :
    objectReferenceOf sj (r.json sj) = some r := by
  have hfields : fieldsOf [("contentSha256",false),("byteLength",false)] (r.json sj) =
      some [hashJson sj r.contentSha256,integerJson r.byteLength] := by
    rfl
  unfold objectReferenceOf
  rw [hfields]
  simp only [hashOf_json hsj, integerOf_json]
  rfl

lemma referencesOf_json (hsj : sj.Documented) (rs : List ObjectReference) :
    referencesOf sj (referencesJson sj rs) = some rs := mapM_map (objectReferenceOf_json hsj) rs

lemma inlineOrObjectOf_json (hsj : sj.Documented) (v : InlineOrObject) :
    inlineOrObjectOf sj (v.json sj) = some v := by
  cases v with
  | inline encoded => rfl
  | object reference =>
    change (objectReferenceOf sj (reference.json sj)).map _ = _
    rw [objectReferenceOf_json hsj]
    rfl

lemma valueOrObjectOf_json (hsj : sj.Documented) (v : ValueOrObject N) :
    valueOrObjectOf sj (.obj [v.member sj]) = some v := by
  cases v with
  | inline value =>
    change some (ValueOrObject.inline (JsonValue.ofTree value.val)) = _
    rw [JsonValue.ofTree_val]
  | object reference =>
    change (objectReferenceOf sj (reference.json sj)).map _ = _
    rw [objectReferenceOf_json hsj]
    rfl

lemma structureTextOf_json (hsj : sj.Documented) (v : StructureText) :
    structureTextOf sj (v.json sj) = some v := by
  cases v with
  | inline text => rfl
  | object reference =>
    change (objectReferenceOf sj (reference.json sj)).map _ = _
    rw [objectReferenceOf_json hsj]
    rfl
  | objects references =>
    change (referencesOf sj (referencesJson sj references)).map _ = _
    rw [referencesOf_json hsj]
    rfl

lemma structuredPluginValueOf_json (hsj : sj.Documented) (v : StructuredPluginValue) :
    structuredPluginValueOf sj (v.json sj) = some v := by
  have hfields : fieldsOf [("text",false),("parts",false)] (v.json sj) =
      some [v.text.json sj,referencesJson sj v.parts] := by
    rfl
  unfold structuredPluginValueOf
  rw [hfields]
  simp only [structureTextOf_json hsj, referencesOf_json hsj]
  rfl

lemma pluginValueOf_member (hsj : sj.Documented) (v : PluginValue N) :
    pluginValueOf sj (v.member sj) = some v := by
  cases v with
  | inline value =>
    change some (PluginValue.inline (JsonValue.ofTree value.val)) = _
    rw [JsonValue.ofTree_val]
  | object reference =>
    change (objectReferenceOf sj (reference.json sj)).map _ = _
    rw [objectReferenceOf_json hsj]
    rfl
  | objects references =>
    change (referencesOf sj (referencesJson sj references)).map _ = _
    rw [referencesOf_json hsj]
    rfl
  | structured value =>
    change (structuredPluginValueOf sj (value.json sj)).map _ = _
    rw [structuredPluginValueOf_json hsj]
    rfl

lemma member_mem_knownForms (v : PluginValue N) : (v.member sj).1 ∈ knownForms := by
  cases v <;> simp [PluginValue.member, knownForms]

lemma localPluginValueOf_json (hsj : sj.Documented) (v : LocalPluginValue N) :
    localPluginValueOf sj (.obj [("space",.str v.space.name),v.value.member sj]) = some v := by
  have hspace : unitOf PluginSpace.named (.str v.space.name : JsonTree N) = some v.space := by
    cases v.space <;> rfl
  have hmember := @pluginValueOf_member N sj hsj v.value
  have hne : (v.value.member sj).1 ≠ "space" := by
    intro h
    have hmem := @member_mem_knownForms N sj v.value
    rw [h] at hmem
    exact absurd hmem (by decide)
  generalize v.value.member sj = m at hmember hne
  have hspaces : [("space",.str v.space.name),m].filter (fun m => m.1 = "space") =
      [("space",.str v.space.name)] := by
    simp [hne]
  have hothers : [("space",.str v.space.name),m].filter (fun m => m.1 ≠ "space") = [m] := by
    simp [hne]
  unfold localPluginValueOf
  dsimp only
  rw [hspaces, hothers]
  simp only [hspace, hmember]
  rfl

lemma versionOf_json (v : SectionEntryVersion) :
    versionOf (v.json : JsonTree N) = some v := by
  have hfields : fieldsOf [("writeClock",false),("writerId",false)] (v.json : JsonTree N) =
      some [Sequence.json v.writeClock,.str v.writerId] := by
    rfl
  unfold versionOf
  rw [hfields]
  simp only [sequenceOf_json, text?]
  rfl

/-- The JSON null. -/
def nullValue : JsonValue N := ⟨.null,rfl⟩

/-- Metadata as it is read back: null is none. -/
def readMetadata : Option (JsonValue N) → Option (JsonValue N)
  | some ⟨.null, _⟩ => none
  | m => m

/-- A value as it is read back. -/
def SectionValue.readBack : SectionValue N → SectionValue N
  | .hypa value => .hypa { value with metadata := readMetadata value.metadata }
  | value => value

def SectionEntry.readBack (e : SectionEntry N) : SectionEntry N :=
  { e with value := e.value.readBack }

/-- The metadata of an embedding is not the JSON null. -/
def SectionValue.Told (v : SectionValue N) : Prop :=
  ∀ value, v = .hypa value → value.metadata ≠ some nullValue

lemma readMetadata_eq_iff (m : Option (JsonValue N)) :
    readMetadata m = m ↔ m ≠ some nullValue := by
  unfold readMetadata
  split
  · exact iff_of_false (by simp) (fun h => h rfl)
  · rename_i h
    exact iff_of_true rfl fun hm => h _ hm

lemma readBack_eq_iff (v : SectionValue N) : v.readBack = v ↔ v.Told := by
  unfold SectionValue.Told
  cases v with
  | hypa value =>
    have hmetadata := readMetadata_eq_iff value.metadata
    constructor
    · intro h value' hvalue
      cases hvalue
      exact hmetadata.mp (congrArg HypaValue.metadata (SectionValue.hypa.inj h))
    · intro h
      change SectionValue.hypa { value with metadata := readMetadata value.metadata } = _
      rw [hmetadata.mpr (h value rfl)]
  | _ => exact iff_of_true rfl fun _ h => by cases h

lemma metadataOf_json (m : Option (JsonValue N)) :
    optionOf (fun w => some (JsonValue.ofTree w)) (optionJson Subtype.val m) =
      some (readMetadata m) := by
  cases m with
  | none => rfl
  | some v =>
    obtain ⟨v, hv⟩ := v
    have hsame := JsonValue.ofTree_val ⟨v,hv⟩
    cases v with
    | null => rfl
    | _ => exact congrArg (fun w => some (some w)) hsame

lemma hypaValueOf_json (hsj : sj.Documented) (v : HypaValue N) : hypaValueOf sj (v.json sj) =
    some { v with metadata := readMetadata v.metadata } := by
  have hfields : fieldsOf [("producer",false),("model",false),("endpoint",true),
      ("preprocessVersion",false),("dimensions",false),("vector",false),("metadata",true)]
        (v.json sj) =
      some [.str v.producer,.str v.model,optionJson .str v.endpoint,
        .num (sj.ofWhole v.preprocessVersion.toNat),.num (sj.ofWhole v.dimensions.toNat),
        v.vector.json sj,optionJson Subtype.val v.metadata] := by
    rfl
  have hendpoint : optionOf text? (optionJson .str v.endpoint : JsonTree N) = some v.endpoint :=
    optionOf_json (g := JsonTree.str) (fun _ => rfl) (fun _ h => by cases h) v.endpoint
  unfold hypaValueOf
  rw [hfields]
  simp only [text?, hendpoint, u32Of_json hsj, inlineOrObjectOf_json hsj, metadataOf_json]
  rfl

lemma sectionValueOf_json (hsj : sj.Documented) (v : SectionValue N) :
    sectionValueOf sj (v.json sj) = some v.readBack := by
  cases v with
  | hypa value =>
    change (hypaValueOf sj (value.json sj)).map _ = _
    rw [hypaValueOf_json hsj]
    rfl
  | localPlugin value =>
    change (localPluginValueOf sj (.obj [_,_])).map _ = _
    rw [localPluginValueOf_json hsj]
    rfl
  | localSetting value =>
    change (valueOrObjectOf sj (.obj [_])).map _ = _
    rw [valueOrObjectOf_json hsj]
    rfl
  | tombstone generation atMs =>
    change tombstoneOf (.obj [("firstPublishedGeneration",generation.json),
      ("firstPublishedAtMs",integerJson atMs)]) = _
    have hfields : fieldsOf [("firstPublishedGeneration",false),("firstPublishedAtMs",false)]
        (.obj ([("firstPublishedGeneration",generation.json),
          ("firstPublishedAtMs",integerJson atMs)].filter fun m =>
            m.1 = "firstPublishedGeneration" ∨ m.1 = "firstPublishedAtMs")) =
        some [generation.json,(integerJson atMs : JsonTree N)] := by
      rfl
    unfold tombstoneOf
    dsimp only
    rw [hfields]
    simp only [sequenceOf_json, integerOf_json]
    rfl

lemma entryOf_json (hsj : sj.Documented) (e : SectionEntry N) :
    entryOf sj (e.json sj) = some e.readBack := by
  have hfields : fieldsOf entryFields (e.json sj) =
      some [.str e.codec,.str e.kind.id,.str e.key,e.value.json sj,
        optionJson SectionEntryVersion.json e.version] := by
    rfl
  have hkind : unitOf SectionKind.named (.str e.kind.id : JsonTree N) = some e.kind := by
    cases e.kind <;> rfl
  have hversion : optionOf versionOf (optionJson SectionEntryVersion.json e.version : JsonTree N) =
      some e.version :=
    optionOf_json versionOf_json (fun _ h => by cases h) e.version
  unfold entryOf
  rw [hfields]
  simp only [text?, hkind, sectionValueOf_json hsj, hversion]
  rfl

lemma json_readBack (e : SectionEntry N) : e.readBack.json sj = e.json sj := by
  have hvalue : e.value.readBack.json sj = e.value.json sj := by
    cases e.value with
    | hypa value =>
      have hmetadata : ∀ m : Option (JsonValue N),
          optionJson Subtype.val (readMetadata m) = optionJson Subtype.val m := by
        intro m
        cases m with
        | none => rfl
        | some v =>
          obtain ⟨v, hv⟩ := v
          cases v <;> rfl
      change JsonTree.obj [("hypa",_)] = JsonTree.obj [("hypa",_)]
      unfold HypaValue.json
      rw [hmetadata]
    | _ => rfl
  unfold SectionEntry.json
  change JsonTree.obj [_,_,_,("value",e.value.readBack.json sj),_] = _
  rw [hvalue]
  rfl

lemma validate_readBack (e : SectionEntry N) : e.readBack.validate sj = e.validate sj := by
  obtain ⟨codec, kind, key, value, version⟩ := e
  cases value <;> rfl

lemma encode_readBack (e : SectionEntry N) : e.readBack.encode sj = e.encode sj := by
  unfold SectionEntry.encode
  rw [json_readBack, validate_readBack]

lemma encode_eq_ok {e : SectionEntry N} {bytes : List UInt8} : e.encode sj = .ok bytes ↔
    e.validate sj = .ok () ∧ bytes = utf8 (sj.toText (e.json sj)) ∧
      bytes.length ≤ maxSectionEntryBytes := by
  constructor
  · intro h
    obtain ⟨⟨⟩, hvalid, h⟩ := bind_eq_ok.mp h
    obtain ⟨u, hlength, h⟩ := bind_eq_ok.mp h
    cases h
    exact ⟨hvalid,rfl,require_eq_ok.mp hlength⟩
  · rintro ⟨hvalid, rfl, hlength⟩
    exact bind_eq_ok.mpr ⟨⟨⟩,hvalid,bind_eq_ok.mpr ⟨⟨⟩,require_eq_ok.mpr hlength,rfl⟩⟩

lemma decode_encode (hsj : sj.Documented) {e : SectionEntry N} {bytes : List UInt8}
    (h : e.encode sj = .ok bytes) : decode sj bytes =
      if (e.json sj).depth ≤ 127 then .ok e.readBack else .error ⟨"invalid-section-entry"⟩ := by
  have hback := (encode_readBack e).trans h
  obtain ⟨hvalid, rfl, hlength⟩ := encode_eq_ok.mp h
  have hne : utf8 (sj.toText (e.json sj)) ≠ [] :=
    fun hnil => hsj.written _ (Wire.utf8_injective hnil)
  unfold decode
  rw [require_eq_ok.mpr ⟨hne,hlength⟩]
  change (match (sj.fromSlice _).bind (entryOf sj) with | none => _ | some _ => _) = _
  split_ifs with hdepth
  · rw [hsj.reads _ hdepth]
    change (match entryOf sj (e.json sj) with | none => _ | some _ => _) = _
    rw [entryOf_json hsj]
    change (e.readBack.validate sj >>= fun _ => e.readBack.encode sj >>= _) = _
    rw [validate_readBack, hvalid, hback]
    change (require (_ = _) _ >>= fun _ => _) = _
    rw [require_eq_ok.mpr rfl]
    rfl
  · rw [hsj.limit _ (Nat.lt_of_not_le hdepth)]
    rfl

lemma encode_of_decode {bytes : List UInt8} {e : SectionEntry N} (h : decode sj bytes = .ok e) :
    e.encode sj = .ok bytes := by
  obtain ⟨u, -, h⟩ := bind_eq_ok.mp h
  cases hentry : (sj.fromSlice bytes).bind (entryOf sj) with
  | none =>
    rw [hentry] at h
    cases h
  | some e' =>
    rw [hentry] at h
    obtain ⟨v, -, h⟩ := bind_eq_ok.mp h
    obtain ⟨canonical, hencode, h⟩ := bind_eq_ok.mp h
    obtain ⟨w, hsame, h⟩ := bind_eq_ok.mp h
    cases h
    rw [hencode, require_eq_ok.mp hsame]

lemma decodeLocalPluginEntryKey_encode (hsj : sj.Documented) {owner space key encoded : String}
    (h : localPluginEntryKey sj owner space key = .ok encoded) :
    decodeLocalPluginEntryKey sj encoded = .ok (owner,space,key) := by
  have hencoded : encoded = String.ofList (sj.toText (.arr [.str owner,.str space,.str key])) := by
    obtain ⟨u, -, h⟩ := bind_eq_ok.mp h
    obtain ⟨v, -, h⟩ := bind_eq_ok.mp h
    cases h
    rfl
  have hdepth : (JsonTree.arr [.str owner,.str space,.str key] : JsonTree N).depth ≤ 127 := by
    simp [JsonTree.depth, JsonTree.depthItems]
  have hread : (sj.fromSlice (utf8 encoded.toList)).bind (listOf text?) =
      some [owner,space,key] := by
    rw [hencoded, String.toList_ofList, hsj.reads _ hdepth]
    rfl
  unfold decodeLocalPluginEntryKey
  rw [hread]
  change (localPluginEntryKey sj owner space key >>= _) = _
  rw [h]
  change (require (_ = _) _ >>= fun _ => _) = _
  rw [require_eq_ok.mpr rfl]
  rfl

lemma localPluginEntryKey_of_decode {encoded owner space key : String}
    (h : decodeLocalPluginEntryKey sj encoded = .ok (owner,space,key)) :
    localPluginEntryKey sj owner space key = .ok encoded := by
  unfold decodeLocalPluginEntryKey at h
  split at h
  · obtain ⟨canonical, hcanonical, h⟩ := bind_eq_ok.mp h
    obtain ⟨u, hsame, h⟩ := bind_eq_ok.mp h
    cases h
    rw [hcanonical, require_eq_ok.mp hsame]
  · cases h

end

end RisuNest.External.SectionEntries
