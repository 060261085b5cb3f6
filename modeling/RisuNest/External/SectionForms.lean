import RisuNest.External.SectionEntries

/-! Entries of sections that are decoded, passed over or refused. -/
namespace RisuNest.External.SectionEntries
open JsonTree (fieldsOf variantOf)
open Pack (FormatError Formatted)
open Wire (utf8)
open Wire.JsonText (IsText isText_write isText_unique numbers numbersOfItems numbersOfMembers)
open Wire.Payload (decimal shallow shallowItems shallowMembers)

section
variable {N : Type} {sj : SerdeJson N}

/-- A document with the fields of an entry whose value is of a form that is known, well formed or
not: one of the other values, or a plugin value with a member of a known form. -/
def KnownForm (doc : JsonTree N) : Prop :=
  ∃ fields value name w, fieldsOf entryFields doc = some fields ∧ fields[3]? = some value ∧
    variantOf value = some (name,w) ∧
    (name ≠ "localPlugin" ∨ ∃ ms, w = .obj ms ∧ ∃ m ∈ ms, m.1 ∈ knownForms)

lemma decodeKnown_of_decode {bytes : List UInt8} {e : SectionEntry N}
    (h : decode sj bytes = .ok e) : decodeKnown sj bytes = .ok (.ok e) := by
  unfold decodeKnown
  rw [h]

lemma envelopeOf_eq_some {doc : JsonTree N} {env : Envelope N} (h : envelopeOf doc = some env) :
    ∃ codec kind key value version, fieldsOf entryFields doc = some [codec,kind,key,value,version] ∧
      envelopeValueOf value = some env.value := by
  unfold envelopeOf at h
  split at h
  · rename_i codec kind key value version hfields
    obtain ⟨a, ha, h⟩ := Option.bind_eq_some_iff.mp h
    obtain ⟨b, hb, h⟩ := Option.bind_eq_some_iff.mp h
    obtain ⟨c, hc, h⟩ := Option.bind_eq_some_iff.mp h
    obtain ⟨members, hvalue, h⟩ := Option.bind_eq_some_iff.mp h
    obtain ⟨d, hd, h⟩ := Option.bind_eq_some_iff.mp h
    cases h
    exact ⟨codec,kind,key,value,version,hfields,hvalue⟩
  · cases h

lemma not_unknownForm {doc : JsonTree N} {env : Envelope N} (hknown : KnownForm doc)
    (h : envelopeOf doc = some env) (space : String) : ¬ unknownForm space env.value := by
  obtain ⟨codec, kind, key, value, version, hfields, hvalue⟩ := envelopeOf_eq_some h
  obtain ⟨fields, value', name, w, hfields', hat, hvariant, hform⟩ := hknown
  rw [hfields] at hfields'
  cases hfields'
  cases hat
  unfold envelopeValueOf at hvalue
  rw [hvariant] at hvalue
  rintro ⟨-, -, hnames⟩
  split at hvalue
  · rename_i hname
    cases hname
    obtain ⟨ms, rfl, m, hm, hmknown⟩ := hform.resolve_left fun h => h rfl
    rw [← Option.some.inj hvalue] at hnames
    have hkept : m.1 ∈ ((JsonTree.collapseMembers ms).foldl JsonTree.put []).map Prod.fst := by
      rw [JsonTree.names_foldl_put, JsonTree.names_collapseMembers]
      exact .inl (List.mem_map_of_mem hm)
    obtain ⟨m', hm', hsame⟩ := List.mem_map.mp hkept
    have hspace : "space" ∉ knownForms := by decide
    rw [← hsame] at hmknown
    rcases hnames m' hm' with h | h
    · rw [h] at hmknown
      exact hspace hmknown
    · exact h hmknown
  · cases hvalue

lemma decodeKnown_of_knownForm {bytes : List UInt8} {doc : JsonTree N}
    (hdoc : sj.fromSlice bytes = some doc) (hknown : KnownForm doc) :
    decodeKnown sj bytes = (decode sj bytes).map .ok := by
  unfold decodeKnown
  cases decode sj bytes with
  | ok e => rfl
  | error error =>
    rw [hdoc, Option.bind_some]
    change _ = Except.error error
    split_ifs
    · rfl
    · cases henv : envelopeOf doc with
      | none => rfl
      | some env =>
        dsimp only
        split
        · rfl
        · exact if_pos (.inr (.inr (.inl (not_unknownForm hknown henv _))))

lemma decode_of_decodeKnown {bytes : List UInt8} {e : SectionEntry N}
    (h : decodeKnown sj bytes = .ok (.ok e)) : decode sj bytes = .ok e := by
  unfold decodeKnown at h
  cases hdecode : decode sj bytes with
  | ok e' =>
    rw [hdecode] at h
    cases h
    rfl
  | error error =>
    rw [hdecode] at h
    dsimp only at h
    split_ifs at h
    split at h
    · cases h
    · split at h
      · cases h
      · split_ifs at h
        cases h

lemma decode_of_decodeKnown_error {bytes : List UInt8} {error : FormatError}
    (h : decodeKnown sj bytes = .error error) : decode sj bytes = .error error := by
  unfold decodeKnown at h
  cases hdecode : decode sj bytes with
  | ok e' =>
    rw [hdecode] at h
    cases h
  | error error' =>
    rw [hdecode] at h
    dsimp only at h
    split_ifs at h
    · cases h
      rfl
    · split at h
      · cases h
        rfl
      · split at h
        · cases h
          rfl
        · split_ifs at h
          cases h
          rfl

lemma of_unknown {bytes : List UInt8} {u : UnknownPluginEntry}
    (h : decodeKnown sj bytes = .ok (.error u)) : bytes.length ≤ maxSectionEntryBytes ∧
      ∃ doc env owner space key, sj.fromSlice bytes = some doc ∧ envelopeOf doc = some env ∧
        env.codec = sectionCodec ∧ env.kind = .localPlugins ∧
        decodeLocalPluginEntryKey sj env.key = .ok (owner,space,key) ∧
        unknownForm space env.value ∧ validVersion env.version ∧ u = ⟨env.key,env.version⟩ := by
  unfold decodeKnown at h
  cases hdecode : decode sj bytes with
  | ok e' =>
    rw [hdecode] at h
    cases h
  | error error' =>
    rw [hdecode] at h
    dsimp only at h
    split_ifs at h with hlength
    split at h
    · cases h
    · rename_i env henv
      obtain ⟨doc, hdoc, henv⟩ := Option.bind_eq_some_iff.mp henv
      split at h
      · cases h
      · rename_i owner space key hkey
        split_ifs at h with hchecks
        cases h
        simp only [not_or, not_not] at hchecks hlength
        exact ⟨Nat.le_of_not_lt hlength.2,doc,env,owner,space,key,hdoc,henv,hchecks.1,hchecks.2.1,
          hkey,hchecks.2.2.1,hchecks.2.2.2,rfl⟩

end

/-- Decoding the bytes of an entry gives the entry exactly where its metadata is not the JSON null and
its JSON nests as deep as is read; only the bytes of an entry are decoded; keys of plugins are read
back; and `decode_known` does what `decode` does with every entry, every error and every known form,
and passes over nothing but plugin entries with one member of no known form. -/
theorem entries_are_canonical {N : Type} {sj : SerdeJson N} (hsj : sj.Documented) :
    (∀ (e : SectionEntry N) bytes, e.encode sj = .ok bytes →
      (decode sj bytes = .ok e ↔ e.value.Told ∧ (e.json sj).depth ≤ 127)) ∧
    (∀ bytes (e : SectionEntry N), decode sj bytes = .ok e → e.encode sj = .ok bytes) ∧
    (∀ owner space key encoded, localPluginEntryKey sj owner space key = .ok encoded ↔
      decodeLocalPluginEntryKey sj encoded = .ok (owner,space,key)) ∧
    (∀ bytes (e : SectionEntry N),
      decodeKnown sj bytes = .ok (.ok e) ↔ decode sj bytes = .ok e) ∧
    (∀ bytes error, decodeKnown sj bytes = .error error → decode sj bytes = .error error) ∧
    (∀ bytes doc, sj.fromSlice bytes = some doc → KnownForm doc →
      decodeKnown sj bytes = (decode sj bytes).map .ok) ∧
    ∀ bytes u, decodeKnown sj bytes = .ok (.error u) → bytes.length ≤ maxSectionEntryBytes ∧
      ∃ doc env owner space key, sj.fromSlice bytes = some doc ∧ envelopeOf doc = some env ∧
        env.codec = sectionCodec ∧ env.kind = .localPlugins ∧
        decodeLocalPluginEntryKey sj env.key = .ok (owner,space,key) ∧
        unknownForm space env.value ∧ validVersion env.version ∧ u = ⟨env.key,env.version⟩ := by
  refine ⟨?_,fun _ _ => encode_of_decode,?_,?_,fun _ _ => decode_of_decodeKnown_error,
    fun _ _ => decodeKnown_of_knownForm,fun _ _ => of_unknown⟩
  · intro e bytes h
    rw [decode_encode hsj h, ← readBack_eq_iff]
    split_ifs with hdepth
    · simp only [Except.ok.injEq, hdepth, and_true]
      constructor
      · exact congrArg SectionEntry.value
      · intro hvalue
        unfold SectionEntry.readBack
        rw [hvalue]
    · simp [hdepth]
  · intro owner space key encoded
    exact ⟨decodeLocalPluginEntryKey_encode hsj,localPluginEntryKey_of_decode⟩
  · intro bytes e
    exact ⟨decode_of_decodeKnown,decodeKnown_of_decode⟩

/-! ### Documents of natural numbers -/

mutual
def toJson : JsonTree ℕ → Wire.Json
  | .null => .null
  | .bool b => .bool b
  | .num n => .num n
  | .str s => .str s
  | .arr vs => .arr (toJsonItems vs)
  | .obj ms => .obj (toJsonMembers ms)

def toJsonItems : List (JsonTree ℕ) → List Wire.Json
  | [] => []
  | v :: vs => toJson v :: toJsonItems vs

def toJsonMembers : List (String × JsonTree ℕ) → List (String × Wire.Json)
  | [] => []
  | (k,v) :: ms => (k,toJson v) :: toJsonMembers ms
end

mutual
def ofJson : Wire.Json → Option (JsonTree ℕ)
  | .null => some .null
  | .bool b => some (.bool b)
  | .num q => if q.den = 1 ∧ 0 ≤ q.num then some (.num q.num.toNat) else none
  | .str s => some (.str s)
  | .arr vs => (ofJsonItems vs).map .arr
  | .obj ms => (ofJsonMembers ms).map .obj

def ofJsonItems : List Wire.Json → Option (List (JsonTree ℕ))
  | [] => some []
  | v :: vs => do pure ((← ofJson v) :: (← ofJsonItems vs))

def ofJsonMembers : List (String × Wire.Json) → Option (List (String × JsonTree ℕ))
  | [] => some []
  | (k,v) :: ms => do pure ((k,← ofJson v) :: (← ofJsonMembers ms))
end

mutual
theorem ofJson_toJson : (v : JsonTree ℕ) → ofJson (toJson v) = some v
  | .null => rfl
  | .bool _ => rfl
  | .num n => by simp [toJson, ofJson]
  | .str _ => rfl
  | .arr vs => by rw [toJson, ofJson, ofJsonItems_toJson vs]; rfl
  | .obj ms => by rw [toJson, ofJson, ofJsonMembers_toJson ms]; rfl

theorem ofJsonItems_toJson : (vs : List (JsonTree ℕ)) → ofJsonItems (toJsonItems vs) = some vs
  | [] => rfl
  | v :: vs => by rw [toJsonItems, ofJsonItems, ofJson_toJson v, ofJsonItems_toJson vs]; rfl

theorem ofJsonMembers_toJson : (ms : List (String × JsonTree ℕ)) →
    ofJsonMembers (toJsonMembers ms) = some ms
  | [] => rfl
  | (k,v) :: ms => by rw [toJsonMembers, ofJsonMembers, ofJson_toJson v, ofJsonMembers_toJson ms]; rfl
end

mutual
theorem shallow_toJson : (v : JsonTree ℕ) → (depth : ℕ) →
    (shallow depth (toJson v) = true ↔ v.depth = 0 ∨ depth + v.depth ≤ 127)
  | .null, _ => by simp [toJson, shallow, JsonTree.depth]
  | .bool _, _ => by simp [toJson, shallow, JsonTree.depth]
  | .num _, _ => by simp [toJson, shallow, JsonTree.depth]
  | .str _, _ => by simp [toJson, shallow, JsonTree.depth]
  | .arr vs, depth => by
    rw [toJson, shallow, Bool.and_eq_true, decide_eq_true_eq, shallowItems_toJson vs, JsonTree.depth]
    omega
  | .obj ms, depth => by
    rw [toJson, shallow, Bool.and_eq_true, decide_eq_true_eq, shallowMembers_toJson ms,
      JsonTree.depth]
    omega

theorem shallowItems_toJson : (vs : List (JsonTree ℕ)) → (depth : ℕ) →
    (shallowItems depth (toJsonItems vs) = true ↔
      JsonTree.depthItems vs = 0 ∨ depth + JsonTree.depthItems vs ≤ 127)
  | [], _ => by simp [toJsonItems, shallowItems, JsonTree.depthItems]
  | v :: vs, depth => by
    rw [toJsonItems, shallowItems, Bool.and_eq_true, shallow_toJson v, shallowItems_toJson vs,
      JsonTree.depthItems]
    omega

theorem shallowMembers_toJson : (ms : List (String × JsonTree ℕ)) → (depth : ℕ) →
    (shallowMembers depth (toJsonMembers ms) = true ↔
      JsonTree.depthMembers ms = 0 ∨ depth + JsonTree.depthMembers ms ≤ 127)
  | [], _ => by simp [toJsonMembers, shallowMembers, JsonTree.depthMembers]
  | (k,v) :: ms, depth => by
    rw [toJsonMembers, shallowMembers, Bool.and_eq_true, shallow_toJson v, shallowMembers_toJson ms,
      JsonTree.depthMembers]
    omega
end

mutual
theorem numbers_toJson : (v : JsonTree ℕ) → ∀ q ∈ numbers (toJson v), ∃ n : ℕ, q = n
  | .null => List.forall_mem_nil _
  | .bool _ => List.forall_mem_nil _
  | .num n => List.forall_mem_singleton.mpr ⟨n,rfl⟩
  | .str _ => List.forall_mem_nil _
  | .arr vs => numbersOfItems_toJson vs
  | .obj ms => numbersOfMembers_toJson ms

theorem numbersOfItems_toJson : (vs : List (JsonTree ℕ)) →
    ∀ q ∈ numbersOfItems (toJsonItems vs), ∃ n : ℕ, q = n
  | [] => List.forall_mem_nil _
  | v :: vs => List.forall_mem_append.mpr ⟨numbers_toJson v,numbersOfItems_toJson vs⟩

theorem numbersOfMembers_toJson : (ms : List (String × JsonTree ℕ)) →
    ∀ q ∈ numbersOfMembers (toJsonMembers ms), ∃ n : ℕ, q = n
  | [] => List.forall_mem_nil _
  | (_,v) :: ms => List.forall_mem_append.mpr ⟨numbers_toJson v,numbersOfMembers_toJson ms⟩
end

/-- Documents of natural numbers, as they are written and read. -/
def plainSerde : SerdeJson ℕ where
  toText v := Wire.Payload.write CatalogPages.plainNumbers (toJson v)
  fromSlice b := (Wire.Payload.textCrates.readJson b).bind ofJson
  whole := some
  ofWhole := id

lemma isText_plain (v : JsonTree ℕ) : IsText decimal (toJson v) (plainSerde.toText v) := by
  apply isText_write
  intro q hq
  obtain ⟨n, rfl⟩ := numbers_toJson v q hq
  exact CatalogPages.writesBack_natural n

lemma plainSerde_documented : plainSerde.Documented where
  reads := by
    intro v hdepth
    have hshallow : shallow 0 (toJson v) = true := (shallow_toJson v 0).mpr (.inr (by omega))
    have hread : Wire.Payload.textCrates.readJson (utf8 (plainSerde.toText v)) = some (toJson v) :=
      (Wire.Payload.textCrates_reads _ _).mpr ⟨hshallow,_,rfl,isText_plain v⟩
    change (Wire.Payload.textCrates.readJson (utf8 (plainSerde.toText v))).bind ofJson = _
    rw [hread]
    exact ofJson_toJson v
  limit := by
    intro v hdepth
    change (Wire.Payload.textCrates.readJson (utf8 (plainSerde.toText v))).bind ofJson = _
    cases hread : Wire.Payload.textCrates.readJson (utf8 (plainSerde.toText v)) with
    | none => rfl
    | some w =>
      obtain ⟨hshallow, t, ht, htext⟩ := (Wire.Payload.textCrates_reads _ _).mp hread
      rw [← Wire.utf8_injective ht] at htext
      obtain rfl := isText_unique htext (isText_plain v)
      have := (shallow_toJson v 0).mp hshallow
      omega
  written := by
    intro v h
    have htext := isText_plain v
    rw [h] at htext
    have hnone : Wire.JsonText.read decimal [] = none := by rfl
    rw [← Wire.JsonText.read_eq_some, hnone] at htext
    cases htext
  whole := fun _ _ => rfl

/-! A plugin entry with any value, and an embedding whose metadata is the JSON null. -/

def pluginKey : String := String.ofList (plainSerde.toText (.arr [.str "owner",.str "json",.str "k"]))

def pluginEntry (v : JsonValue ℕ) : SectionEntry ℕ :=
  ⟨sectionCodec,.localPlugins,pluginKey,.localPlugin ⟨.json,.inline v⟩,none⟩

lemma pluginEntry_validate (v : JsonValue ℕ) : (pluginEntry v).validate plainSerde = .ok () := by
  have hlength : (utf8 (plainSerde.toText (.arr [.str "owner",.str "json",.str "k"]))).length ≤
      64*1024 :=
    (Wire.length_utf8_le _).trans (by decide)
  have hencode : localPluginEntryKey plainSerde "owner" "json" "k" = .ok pluginKey :=
    bind_eq_ok.mpr ⟨⟨⟩,require_eq_ok.mpr (by decide),
      bind_eq_ok.mpr ⟨⟨⟩,require_eq_ok.mpr hlength,rfl⟩⟩
  have hdecode := decodeLocalPluginEntryKey_encode plainSerde_documented hencode
  have hkey : validateKey plainSerde .localPlugins pluginKey = .ok () := by
    unfold validateKey
    dsimp only
    rw [hdecode]
    rfl
  have hvalue : LocalPluginValue.validate plainSerde pluginKey ⟨.json,.inline v⟩ = .ok () :=
    bind_eq_ok.mpr ⟨_,hdecode,rfl⟩
  have hversion : validVersion none := fun _ h => by cases h
  exact bind_eq_ok.mpr ⟨⟨⟩,require_eq_ok.mpr rfl,bind_eq_ok.mpr ⟨⟨⟩,hkey,
    bind_eq_ok.mpr ⟨⟨⟩,require_eq_ok.mpr (by rintro kind ⟨⟩; rfl),
      bind_eq_ok.mpr ⟨⟨⟩,hvalue,require_eq_ok.mpr hversion⟩⟩⟩⟩

/-- A list with a number and a text. -/
def listValue : JsonValue ℕ := ⟨.arr [.num 1,.str "x"],rfl⟩

theorem entries_are_canonical_list : ∃ bytes, (pluginEntry listValue).encode plainSerde = .ok bytes ∧
    decode plainSerde bytes = .ok (pluginEntry listValue) ∧
    decodeKnown plainSerde bytes = .ok (.ok (pluginEntry listValue)) := by
  have hlength : (utf8 (plainSerde.toText ((pluginEntry listValue).json plainSerde))).length ≤
      maxSectionEntryBytes :=
    (Wire.length_utf8_le _).trans (by decide +kernel)
  have hencode := encode_eq_ok.mpr ⟨pluginEntry_validate listValue,rfl,hlength⟩
  obtain ⟨hdecode, -, -, hknown, -⟩ := entries_are_canonical plainSerde_documented
  have htold : (pluginEntry listValue).value.Told := by
    intro value h
    cases h
  have hdepth : ((pluginEntry listValue).json plainSerde).depth ≤ 127 := by decide
  have hsame := (hdecode _ _ hencode).mpr ⟨htold,hdepth⟩
  exact ⟨_,hencode,hsame,(hknown _ _).mpr hsame⟩

/-- So many arrays in each other. -/
def nested : ℕ → JsonTree ℕ
  | 0 => .arr []
  | n+1 => .arr [nested n]

lemma distinct_nested (n : ℕ) : (nested n).distinct = true := by
  induction n with
  | zero => rfl
  | succ n ih => simp [nested, JsonTree.distinct, JsonTree.distinctItems, ih]

def deepValue : JsonValue ℕ := ⟨nested 124,distinct_nested 124⟩

def nullEntry : SectionEntry ℕ :=
  ⟨sectionCodec,.hypa,"aaaaaaaaaaaaaaaaaaaaaaaaaaaaaaaaaaaaaaaaaaaaaaaaaaaaaaaaaaaaaaaa",
    .hypa ⟨"producer","model",none,1,1,.inline "AAAAAA",some nullValue⟩,none⟩

/-- An embedding with null as its metadata is decoded to one without metadata, and a plugin value of
125 arrays in each other is not decoded. -/
theorem null_and_deep_values : (∃ bytes, nullEntry.encode plainSerde = .ok bytes ∧
      decode plainSerde bytes ≠ .ok nullEntry) ∧
    ∃ bytes, (pluginEntry deepValue).encode plainSerde = .ok bytes ∧
      decode plainSerde bytes = .error ⟨"invalid-section-entry"⟩ := by
  have hvalid : nullEntry.validate plainSerde = .ok () := by decide
  have hnull : (utf8 (plainSerde.toText (nullEntry.json plainSerde))).length ≤
      maxSectionEntryBytes :=
    (Wire.length_utf8_le _).trans (by decide +kernel)
  have hdeep : (utf8 (plainSerde.toText ((pluginEntry deepValue).json plainSerde))).length ≤
      maxSectionEntryBytes :=
    (Wire.length_utf8_le _).trans (by decide +kernel)
  have hdepth : ¬ ((pluginEntry deepValue).json plainSerde).depth ≤ 127 := by decide +kernel
  have hencode := encode_eq_ok.mpr ⟨hvalid,rfl,hnull⟩
  have hencode' := encode_eq_ok.mpr ⟨pluginEntry_validate deepValue,rfl,hdeep⟩
  refine ⟨⟨_,hencode,?_⟩,_,hencode',?_⟩
  · intro h
    rw [decode_encode plainSerde_documented hencode] at h
    split_ifs at h
    have hmetadata := congrArg SectionEntry.value (Except.ok.inj h)
    exact (readBack_eq_iff nullEntry.value).mp hmetadata _ rfl rfl
  · rw [decode_encode plainSerde_documented hencode', if_neg hdepth]

end RisuNest.External.SectionEntries
