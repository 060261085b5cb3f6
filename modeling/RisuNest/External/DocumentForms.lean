import RisuNest.External.Documents
import RisuNest.Wire.KeyText

/-! What is read back of segments and checkpoints. -/
namespace RisuNest.External.Documents
open CatalogPages (hashJson hashOf_json integerJson integerOf integerOf_json listOf)
open Envelope (headerOf)
open Pack (Hash)
open Wire (Control Crates Json KeyText RecordDescriptor Stamp UnitKey UnitValue sortBy
  utf16Le validateHash validateWriterId)
open Wire.JsonText (ReadsJson numbers)
open Wire.Payload (decimal shallow)

/-! ### What a reader of JSON accepts -/

/-- No name repeats in an object, and arrays and objects nest at most so deep. -/
structure Fits (n : ℕ) (v : Json) : Prop where
  distinct : v.distinct = true
  shallow : ∀ depth, depth + n ≤ 127 → shallow depth v = true

lemma Fits.mono {m n : ℕ} {v : Json} (h : Fits m v) (hle : m ≤ n) : Fits n v :=
  ⟨h.distinct,fun depth hdepth => h.shallow depth (by omega)⟩

lemma fits_null : Fits 0 .null := ⟨rfl,fun _ _ => rfl⟩

lemma fits_str (s : String) : Fits 0 (.str s) := ⟨rfl,fun _ _ => rfl⟩

lemma fits_num (q : ℚ) : Fits 0 (.num q) := ⟨rfl,fun _ _ => rfl⟩

lemma fits_arr {n : ℕ} {vs : List Json} (h : ∀ v ∈ vs, Fits n v) : Fits (n+1) (.arr vs) := by
  constructor
  · rw [Json.distinct, Wire.distinctItems_eq, List.all_eq_true]
    exact fun v hv => (h v hv).distinct
  · intro depth hdepth
    rw [Wire.Payload.shallow, Wire.shallowItems_eq, Bool.and_eq_true, List.all_eq_true]
    exact ⟨decide_eq_true (by omega),fun v hv => (h v hv).shallow _ (by omega)⟩

lemma fits_obj {n : ℕ} {ms : List (String × Json)} (hnames : (ms.map Prod.fst).Nodup)
    (h : ∀ m ∈ ms, Fits n m.2) : Fits (n+1) (.obj ms) := by
  constructor
  · rw [Json.distinct, Wire.distinctMembers_eq, Bool.and_eq_true, List.all_eq_true]
    exact ⟨decide_eq_true hnames,fun m hm => (h m hm).distinct⟩
  · intro depth hdepth
    rw [Wire.Payload.shallow, Wire.shallowMembers_eq, Bool.and_eq_true, List.all_eq_true]
    exact ⟨decide_eq_true (by omega),fun m hm => (h m hm).shallow _ (by omega)⟩

lemma fits_map {α : Type} {n : ℕ} {f : α → Json} (h : ∀ a, Fits n (f a)) (l : List α) :
    Fits (n+1) (.arr (l.map f)) := by
  apply fits_arr
  intro v hv
  obtain ⟨a, -, rfl⟩ := List.mem_map.mp hv
  exact h a

lemma fits_option {α : Type} {n : ℕ} {f : α → Json} (h : ∀ a, Fits n (f a)) (o : Option α) :
    Fits n (optionJson f o) := by
  cases o with
  | none => exact fits_null.mono (Nat.zero_le n)
  | some a => exact h a

lemma fits_mapJson {α : Type} {n : ℕ} {f : α → Json} (h : ∀ a, Fits n (f a)) (m : TextMap α) :
    Fits (n+1) (mapJson f m) := by
  apply fits_obj
  · rw [List.map_map]
    exact m.nodup
  · intro e he
    obtain ⟨r, -, rfl⟩ := List.mem_map.mp he
    exact h r.2

lemma numbers_arr {vs : List Json} (h : ∀ v ∈ vs, numbers v = []) : numbers (.arr vs) = [] := by
  rw [numbers, Wire.numbersOfItems_eq, List.flatMap_eq_nil_iff]
  exact h

lemma numbers_obj {ms : List (String × Json)} (h : ∀ m ∈ ms, numbers m.2 = []) :
    numbers (.obj ms) = [] := by
  rw [numbers, Wire.numbersOfMembers_eq, List.flatMap_eq_nil_iff]
  exact h

lemma numbers_map {α : Type} {f : α → Json} (h : ∀ a, numbers (f a) = []) (l : List α) :
    numbers (.arr (l.map f)) = [] := by
  apply numbers_arr
  intro v hv
  obtain ⟨a, -, rfl⟩ := List.mem_map.mp hv
  exact h a

lemma numbers_option {α : Type} {f : α → Json} (h : ∀ a, numbers (f a) = []) (o : Option α) :
    numbers (optionJson f o) = [] := by
  cases o with
  | none => rfl
  | some a => exact h a

lemma numbers_mapJson {α : Type} {f : α → Json} (h : ∀ a, numbers (f a) = []) (m : TextMap α) :
    numbers (mapJson f m) = [] := by
  apply numbers_obj
  intro e he
  obtain ⟨r, -, rfl⟩ := List.mem_map.mp he
  exact h r.2

mutual
lemma numbers_json : ∀ c : Control, numbers c.json = []
  | .null => rfl
  | .bool _ => rfl
  | .str _ => rfl
  | .arr vs => numbers_jsonItems vs
  | .obj ms => numbers_jsonMembers ms

lemma numbers_jsonItems : ∀ vs : List Control,
    Wire.JsonText.numbersOfItems (Control.jsonItems vs) = []
  | [] => rfl
  | v :: vs => by
    rw [Control.jsonItems, Wire.JsonText.numbersOfItems, numbers_json v, numbers_jsonItems vs]
    rfl

lemma numbers_jsonMembers : ∀ ms : List (String × Control),
    Wire.JsonText.numbersOfMembers (Control.jsonMembers ms) = []
  | [] => rfl
  | (k,v) :: ms => by
    rw [Control.jsonMembers, Wire.JsonText.numbersOfMembers, numbers_json v, numbers_jsonMembers ms]
    rfl
end

lemma control_json (c : Control) : c.json.control = some c :=
  Wire.control_eq_some.mpr ⟨rfl,numbers_json c⟩

/-! ### Values whose members stand in order -/

lemma sortBy_of_sorted {ms : List (String × Json)}
    (hnames : (ms.map Prod.fst).Pairwise fun a b => utf16Le a b = true)
    (h : ∀ m ∈ ms, sortBy utf16Le m.2 = m.2) : sortBy utf16Le (.obj ms) = .obj ms := by
  have hsame : ms.map (fun m => (m.1,sortBy utf16Le m.2)) = ms := by
    conv_rhs => rw [← List.map_id ms]
    apply List.map_congr_left
    intro m hm
    rw [h m hm]
    rfl
  rw [sortBy_obj, hsame]
  exact congrArg Json.obj (List.Pairwise.insertionSort_eq (List.pairwise_map.mp hnames))

lemma sortBy_strings (l : List String) :
    sortBy utf16Le (Control.strings l).json = (Control.strings l).json := by
  rw [Wire.json_strings, sortBy, Wire.sortItemsBy_eq, List.map_map]
  rfl

lemma sortBy_optional (o : Option String) :
    sortBy utf16Le (RecordDescriptor.optional o).json = (RecordDescriptor.optional o).json := by
  cases o <;> rfl

lemma sortBy_stamp (s : Stamp) : sortBy utf16Le s.toControl.json = s.toControl.json := by
  change sortBy utf16Le (.obj [("logical",.str _),("physicalMs",.str _),("writerId",.str _)]) = _
  apply sortBy_of_sorted
  · change ["logical","physicalMs","writerId"].Pairwise _
    decide
  · simp only [List.forall_mem_cons]
    exact ⟨rfl,rfl,rfl,List.forall_mem_nil _⟩

lemma descriptor_json (d : RecordDescriptor) : d.toControl.json =
    .obj [("dependencies",(Control.strings d.dependencies).json),
      ("dependencyRoot",(RecordDescriptor.optional d.dependencyRoot).json),
      ("objectHash",.str d.objectHash),
      ("relationRoot",(RecordDescriptor.optional d.relationRoot).json),
      ("relations",(Control.strings d.relations).json),
      ("scopes",(Control.strings d.scopes).json)] := rfl

lemma sortBy_descriptor (d : RecordDescriptor) :
    sortBy utf16Le d.toControl.json = d.toControl.json := by
  rw [descriptor_json]
  apply sortBy_of_sorted
  · change ["dependencies","dependencyRoot","objectHash","relationRoot","relations",
      "scopes"].Pairwise _
    decide
  · simp only [List.forall_mem_cons]
    exact ⟨sortBy_strings _,sortBy_optional _,rfl,sortBy_optional _,sortBy_strings _,
      sortBy_strings _,List.forall_mem_nil _⟩

lemma sortBy_unitValue (v : UnitValue) : sortBy utf16Le v.toControl.json = v.toControl.json := by
  cases v with
  | inline bytes =>
    change sortBy utf16Le (.obj [("bytes",.str bytes),("kind",.str "inline")]) = _
    apply sortBy_of_sorted
    · change ["bytes","kind"].Pairwise _
      decide
    · simp only [List.forall_mem_cons]
      exact ⟨rfl,rfl,List.forall_mem_nil _⟩
  | object descriptorHash descriptor =>
    change sortBy utf16Le (.obj [("descriptor",descriptor.toControl.json),
      ("descriptorHash",.str descriptorHash),("kind",.str "object")]) = _
    apply sortBy_of_sorted
    · change ["descriptor","descriptorHash","kind"].Pairwise _
      decide
    · simp only [List.forall_mem_cons]
      exact ⟨sortBy_descriptor descriptor,rfl,rfl,List.forall_mem_nil _⟩
  | deleted => rfl

/-! ### Every part is read back -/

lemma decimalOf_toString (n : UInt64) : decimalOf (toString n.toNat) = some n := integerOf_json n

lemma stampOf_toControl (s : SizedStamp) (h : s.val.validate = .ok ()) :
    stampOf s.val.toControl = some s := by
  obtain ⟨⟨physicalMs, logical, writerId⟩, hp, hl⟩ := s
  have hphysical : (UInt64.ofNat physicalMs).toNat = physicalMs := UInt64.toNat_ofNat_of_lt' hp
  have hlogical : (UInt64.ofNat logical).toNat = logical :=
    UInt64.toNat_ofNat_of_lt' (hl.trans (by decide))
  have hp' := decimalOf_toString (.ofNat physicalMs)
  have hl' := decimalOf_toString (.ofNat logical)
  rw [hphysical] at hp'
  rw [hlogical] at hl'
  change stampOfFields (toString physicalMs) (toString logical) writerId = _
  unfold stampOfFields
  rw [hp', hl']
  change (if h : (UInt64.ofNat logical).toNat < 2^32 ∧ validateWriterId writerId = .ok () then _
    else none) = _
  rw [dif_pos ⟨by rw [hlogical]; exact hl,h⟩]
  simp only [hphysical, hlogical]

lemma texts?_strings (l : List String) : (Control.strings l).texts? = some l :=
  CatalogPages.mapM_map (f := Control.text?) (g := Control.str) (fun _ => rfl) l

lemma optional?_optional (o : Option String) :
    (RecordDescriptor.optional o).optional? = some o := by
  cases o <;> rfl

lemma read_descriptor (d : RecordDescriptor) : RecordDescriptor.read d.toControl = some d := by
  simp [RecordDescriptor.read, RecordDescriptor.toControl, Control.member?, Control.text?,
    texts?_strings, optional?_optional]

lemma unitValueOf_toControl (v : UnitValue) : unitValueOf v.toControl = some v := by
  cases v with
  | inline bytes => rfl
  | object descriptorHash descriptor =>
    have hread := read_descriptor descriptor
    simp [unitValueOf, taggedValue, UnitValue.toControl, Control.member?, Control.text?, hread]
  | deleted => rfl

section
variable {le : String → String → Bool}

@[simp] lemma sortBy_str (text : String) : sortBy le (.str text) = .str text := rfl

@[simp] lemma sortBy_integerJson (n : UInt64) : sortBy le (integerJson n) = integerJson n := rfl

@[simp] lemma sortBy_hashJson (h : Hash) : sortBy le (hashJson h) = hashJson h := by
  rw [hashJson, sortBy, Wire.sortItemsBy_eq, List.map_map]
  rfl

lemma fieldsOf_eq (names : List String) (v : Json) :
    CatalogPages.fieldsOf names v = recordOf true (names.map fun name => (name,false)) v := by
  cases v with
  | arr vs => simp [CatalogPages.fieldsOf, recordOf]
  | obj ms =>
    have hlookup : ∀ name, (ms.find? fun m => m.1 = name).map Prod.snd = Table.lookup name ms := by
      intro name
      induction ms with
      | nil => rfl
      | cons m ms ih =>
        rw [List.find?_cons, Table.lookup]
        by_cases hm : m.1 = name
        · simp [hm]
        · simp [hm, ih]
    have hmap : ∀ l : List String, (l.mapM fun name => Table.lookup name ms) =
        (l.map fun name => (name,false)).mapM fun name =>
          (Table.lookup name.1 ms).or (if name.2 then some .null else none) := by
      intro l
      induction l with
      | nil => rfl
      | cons name l ih =>
        rw [List.mapM_cons, List.map_cons, List.mapM_cons, ih]
        simp
    have hnames : (∀ m ∈ ms, m.1 ∈ names) ↔ ((true = true) → ∀ k ∈ ms.map Prod.fst,
        k ∈ (names.map fun name => (name,false)).map Prod.fst) := by
      simp
    simp only [CatalogPages.fieldsOf, recordOf, hlookup, hmap, hnames]
  | _ => rfl

lemma headerOf_sortBy (h : Envelope.PublicObjectHeader) : headerOf (sortBy le h.json) = some h := by
  have hfields : recordOf true (["schema","repositoryId","objectId","role","plaintextLength"].map
      fun name => (name,false)) h.json =
      some [.str h.schema,.str h.repositoryId,.str h.objectId,.str h.role.name,
        integerJson h.plaintextLength] := by
    rfl
  have hrole : Envelope.roleOf (.str h.role.name) = some h.role :=
    Envelope.ObjectRole.named_name h.role
  unfold headerOf
  rw [Envelope.PublicObjectHeader.json] at hfields ⊢
  rw [fieldsOf_eq, recordOf_sortBy hfields]
  simp only [List.map_cons, List.map_nil, sortBy_str, sortBy_integerJson, Json.text?, hrole,
    integerOf_json]
  rfl

lemma locatorOf_sortBy (l : RemoteLocator) : locatorOf (sortBy le (locatorJson l)) = some l := by
  have hfields : recordOf true [("connectionIdentity",false),("collection",true),("object",false)]
      (locatorJson l) =
      some [.str l.connectionIdentity,optionJson .str l.collection,.str l.object] := by
    rfl
  have hcollection : optionOf Json.text? (sortBy le (optionJson .str l.collection)) =
      some l.collection :=
    optionOf_sortBy (f := Json.str) (fun _ => rfl) (fun _ h => by cases h) l.collection
  unfold locatorOf
  rw [locatorJson] at hfields ⊢
  rw [recordOf_sortBy hfields]
  simp only [List.map_cons, List.map_nil, sortBy_str, Json.text?, hcollection]
  rfl

lemma largeBodyOf_sortBy (b : LargeBody) : largeBodyOf (sortBy le b.json) = some b := by
  have hfields : recordOf true [("objectId",false),("sha256",false),("byteLength",false),
      ("plaintextByteLength",false),("locator",true)] b.json =
      some [.str b.objectId,.str b.sha256,integerJson b.byteLength,
        integerJson b.plaintextByteLength,optionJson locatorJson b.locator] := by
    rfl
  have hlocator : optionOf locatorOf (sortBy le (optionJson locatorJson b.locator)) =
      some b.locator := by
    apply optionOf_sortBy locatorOf_sortBy
    intro l h
    rw [locatorJson, sortBy_obj] at h
    cases h
  unfold largeBodyOf
  rw [LargeBody.json] at hfields ⊢
  rw [recordOf_sortBy hfields]
  simp only [List.map_cons, List.map_nil, sortBy_str, sortBy_integerJson, Json.text?,
    integerOf_json, hlocator]
  rfl

lemma storedObjectOf_sortBy (o : StoredObject) : storedObjectOf (sortBy le o.json) = some o := by
  have hfields : recordOf true [("header",false),("locator",false),("ciphertextLength",false),
      ("ciphertextSha256",false),("plaintextLength",false),("plaintextSha256",false)] o.json =
      some [o.header.json,locatorJson o.locator,integerJson o.ciphertextLength,
        hashJson o.ciphertextSha256,integerJson o.plaintextLength,
        hashJson o.plaintextSha256] := by
    rfl
  unfold storedObjectOf
  rw [StoredObject.json] at hfields ⊢
  rw [recordOf_sortBy hfields]
  simp only [List.map_cons, List.map_nil, sortBy_integerJson, sortBy_hashJson, integerOf_json,
    hashOf_json, headerOf_sortBy, locatorOf_sortBy]
  rfl

lemma librarySnapshotRefOf_sortBy (l : LibrarySnapshotRef) :
    librarySnapshotRefOf (sortBy le l.json) = some l := by
  have hfields : recordOf true [("recordCatalog",false),("assetCatalog",false),
      ("contentFingerprint",false)] l.json =
      some [l.recordCatalog.json,l.assetCatalog.json,hashJson l.contentFingerprint] := by
    rfl
  unfold librarySnapshotRefOf
  rw [LibrarySnapshotRef.json] at hfields ⊢
  rw [recordOf_sortBy hfields]
  simp only [List.map_cons, List.map_nil, sortBy_hashJson, hashOf_json, storedObjectOf_sortBy]
  rfl

end

section
variable {cr : Crates}

lemma unitKeyOf_asStr (hread : ReadsJson decimal cr) (k : UnitKey) :
    unitKeyOf cr (.str k.asStr) = some k := by
  obtain ⟨key, hkey⟩ := (KeyText.tryFrom_eq_unitKey hread).mpr ⟨k,rfl⟩
  obtain ⟨rfl, -⟩ := (KeyText.tryFrom_eq_ok hread).mp hkey
  have hcomponents : KeyText.components cr ⟨k.asStr⟩ = some k.components :=
    Wire.textsOf_keyText hread k.components
  have hnew : UnitKey.new k.components = .ok k := UnitKey.new_eq_ok.mpr rfl
  simp only [unitKeyOf, Json.text?, Option.bind_eq_bind, Option.bind_some, hkey, hcomponents, hnew]
  rfl

lemma changeOf_sortBy (hread : ReadsJson decimal cr) {c : Change}
    (h : c.stamp.val.validate = .ok ()) : changeOf cr (sortBy utf16Le c.json) = some c := by
  have hfields : recordOf false [("key",false),("stamp",false),("value",false)] c.json =
      some [.str c.key.asStr,c.stamp.val.toControl.json,c.value.toControl.json] := by
    rfl
  unfold changeOf
  rw [Change.json] at hfields ⊢
  rw [recordOf_sortBy hfields]
  simp only [List.map_cons, List.map_nil, sortBy_str, sortBy_stamp, sortBy_unitValue, control_json,
    Option.bind_some, stampOf_toControl c.stamp h, unitValueOf_toControl, unitKeyOf_asStr hread]
  rfl

end

/-! ### Nested metadata -/

lemma byteText_isSome (b : UInt8) : (byteText (b.toNat : ℚ)).isSome = true := by
  have hlt := b.toNat_lt
  have hb : ((b.toNat : ℚ)).den = 1 ∧ 0 ≤ ((b.toNat : ℚ)).num ∧ ((b.toNat : ℚ)).num < 256 := by
    rw [Rat.den_natCast, Rat.num_natCast]
    omega
  rw [byteText, if_pos hb]
  rfl

lemma restorable_hashJson (h : Hash) : restorable (hashJson h) = true := by
  rw [hashJson, restorable]
  induction h.val with
  | nil => rfl
  | cons b bytes ih =>
    rw [List.map_cons, restorableItems, ih, Bool.and_true, Json.asNumber, Option.elim_some]
    exact byteText_isSome b

lemma restorable_locatorJson (l : RemoteLocator) : restorable (locatorJson l) = true := by
  obtain ⟨connectionIdentity, collection, object⟩ := l
  cases collection <;> rfl

lemma restorable_storedObject (o : StoredObject) : restorable o.json = true := by
  simp only [StoredObject.json, Envelope.PublicObjectHeader.json, integerJson, restorable,
    restorableMembers, restorable_hashJson, restorable_locatorJson, Bool.and_true]

lemma restorable_catalogs (catalogs : List StoredObject) :
    restorable (.arr (catalogs.map StoredObject.json)) = true := by
  rw [restorable]
  induction catalogs with
  | nil => rfl
  | cons o catalogs ih =>
    rw [List.map_cons, restorableItems, ih, Bool.and_true]
    exact restorable_storedObject o

lemma restorable_library (l : LibrarySnapshotRef) : restorable l.json = true := by
  simp only [LibrarySnapshotRef.json, restorable, restorableMembers, restorable_storedObject,
    restorable_hashJson, Bool.and_true]

/-! ### Documents fit -/

lemma Nested.fits {n : ℕ} {v w : Json} (h : Nested v w) (hv : Fits n v) : Fits n w := by
  constructor
  · rw [h.distinct]
    exact hv.distinct
  · intro depth hdepth
    rw [h.shallow]
    exact hv.shallow depth hdepth

lemma fits_hashJson (h : Hash) : Fits 1 (hashJson h) := fits_map (fun _ => fits_num _) h.val

lemma fits_locator (l : RemoteLocator) : Fits 1 (locatorJson l) := by
  apply fits_obj (by simp)
  simp only [List.forall_mem_cons]
  exact ⟨fits_str _,fits_option fits_str _,fits_str _,List.forall_mem_nil _⟩

lemma fits_header (h : Envelope.PublicObjectHeader) : Fits 1 h.json := by
  apply fits_obj (by simp)
  simp only [List.forall_mem_cons]
  exact ⟨fits_str _,fits_str _,fits_str _,fits_str _,fits_str _,List.forall_mem_nil _⟩

lemma fits_storedObject (o : StoredObject) : Fits 2 o.json := by
  apply fits_obj (by simp)
  simp only [List.forall_mem_cons]
  exact ⟨fits_header _,fits_locator _,(fits_str _).mono (Nat.zero_le 1),fits_hashJson _,
    (fits_str _).mono (Nat.zero_le 1),fits_hashJson _,List.forall_mem_nil _⟩

lemma fits_library (l : LibrarySnapshotRef) : Fits 3 l.json := by
  apply fits_obj (by simp)
  simp only [List.forall_mem_cons]
  exact ⟨fits_storedObject _,fits_storedObject _,(fits_hashJson _).mono (by omega),
    List.forall_mem_nil _⟩

lemma fits_largeBody (b : LargeBody) : Fits 2 b.json := by
  apply fits_obj (by simp)
  simp only [List.forall_mem_cons]
  have htext : ∀ text, Fits 1 (.str text) := fun text => (fits_str text).mono (Nat.zero_le 1)
  exact ⟨htext _,htext _,htext _,htext _,fits_option fits_locator _,List.forall_mem_nil _⟩

lemma numbers_largeBody (b : LargeBody) : numbers b.json = [] := by
  have hlocator : ∀ l : RemoteLocator, numbers (locatorJson l) = [] := by
    intro l
    apply numbers_obj
    simp only [List.forall_mem_cons]
    exact ⟨rfl,numbers_option (fun _ => rfl) _,rfl,List.forall_mem_nil _⟩
  apply numbers_obj
  simp only [List.forall_mem_cons]
  exact ⟨rfl,rfl,rfl,rfl,numbers_option hlocator _,List.forall_mem_nil _⟩

lemma fits_strings (l : List String) : Fits 1 (Control.strings l).json := by
  rw [Wire.json_strings]
  exact fits_map fits_str l

lemma fits_optional (o : Option String) : Fits 0 (RecordDescriptor.optional o).json := by
  cases o with
  | none => exact fits_null
  | some text => exact fits_str text

lemma fits_descriptor (d : RecordDescriptor) : Fits 2 d.toControl.json := by
  rw [descriptor_json]
  apply fits_obj (by simp)
  simp only [List.forall_mem_cons]
  exact ⟨fits_strings _,(fits_optional _).mono (Nat.zero_le 1),(fits_str _).mono (Nat.zero_le 1),
    (fits_optional _).mono (Nat.zero_le 1),fits_strings _,fits_strings _,List.forall_mem_nil _⟩

lemma fits_unitValue (v : UnitValue) : Fits 3 v.toControl.json := by
  have htext : ∀ text, Fits 2 (.str text) := fun text => (fits_str text).mono (Nat.zero_le 2)
  cases v with
  | inline bytes =>
    change Fits 3 (.obj [("bytes",.str bytes),("kind",.str "inline")])
    apply fits_obj (by simp)
    simp only [List.forall_mem_cons]
    exact ⟨htext _,htext _,List.forall_mem_nil _⟩
  | object descriptorHash descriptor =>
    change Fits 3 (.obj [("descriptor",descriptor.toControl.json),
      ("descriptorHash",.str descriptorHash),("kind",.str "object")])
    apply fits_obj (by simp)
    simp only [List.forall_mem_cons]
    exact ⟨fits_descriptor _,htext _,htext _,List.forall_mem_nil _⟩
  | deleted =>
    change Fits 3 (.obj [("kind",.str "deleted")])
    apply fits_obj (by simp)
    simp only [List.forall_mem_cons]
    exact ⟨htext _,List.forall_mem_nil _⟩

lemma fits_change (c : Change) : Fits 4 c.json := by
  have hstamp : Fits 1 c.stamp.val.toControl.json := by
    change Fits 1 (.obj [("logical",.str _),("physicalMs",.str _),("writerId",.str _)])
    apply fits_obj (by simp)
    simp only [List.forall_mem_cons]
    exact ⟨fits_str _,fits_str _,fits_str _,List.forall_mem_nil _⟩
  apply fits_obj (by simp)
  simp only [List.forall_mem_cons]
  exact ⟨(fits_str _).mono (Nat.zero_le 3),hstamp.mono (by omega),fits_unitValue _,
    List.forall_mem_nil _⟩

lemma numbers_change (c : Change) : numbers c.json = [] := by
  apply numbers_obj
  simp only [List.forall_mem_cons]
  exact ⟨rfl,numbers_json _,numbers_json _,List.forall_mem_nil _⟩

lemma fits_catalogs (catalogs : List StoredObject) :
    Fits 3 (.arr (catalogs.map StoredObject.json)) := fits_map fits_storedObject catalogs

lemma exists_catalogs (catalogs : List StoredObject) : ∃ v, catalogsJson catalogs = some v ∧
    Fits 3 v ∧ numbers v = [] ∧ catalogsOf (sortBy utf16Le v) = some catalogs := by
  obtain ⟨v, hv⟩ := exists_nested _ (restorable_catalogs catalogs)
  refine ⟨v,hv.written,hv.fits (fits_catalogs catalogs),hv.numbers,?_⟩
  unfold catalogsOf
  rw [unnest_sortBy hv.read]
  exact listOf_sortBy fun o _ => storedObjectOf_sortBy o

lemma exists_library (l : LibrarySnapshotRef) : ∃ v, nest l.json = some v ∧ Fits 3 v ∧
    numbers v = [] ∧ (unnest (sortBy utf16Le v)).bind librarySnapshotRefOf = some l := by
  obtain ⟨v, hv⟩ := exists_nested _ (restorable_library l)
  refine ⟨v,hv.written,hv.fits (fits_library l),hv.numbers,?_⟩
  rw [unnest_sortBy hv.read]
  exact librarySnapshotRefOf_sortBy l

section
variable {cr : Crates}

lemma mapOf_texts (m : TextMap String) :
    mapOf Json.text? (sortBy utf16Le (mapJson .str m)) = some m :=
  mapOf_sortBy (f := Json.str) (fun _ => rfl) m

lemma segment_fields (s : Segment) (d a : Json) : recordOf true segmentFields
    (.obj [("schema",.str s.schema),("libraryId",.str s.libraryId),("writerId",.str s.writerId),
      ("seq",integerJson s.seq),("changes",.arr (s.changes.map Change.json)),
      ("messagePages",mapJson .str s.messagePages),("dataCatalogs",d),("assetCatalogs",a),
      ("largeBodies",mapJson LargeBody.json s.largeBodies)]) =
    some [.str s.schema,.str s.libraryId,.str s.writerId,integerJson s.seq,
      .arr (s.changes.map Change.json),mapJson .str s.messagePages,d,a,
      mapJson LargeBody.json s.largeBodies] := rfl

lemma checkpoint_fields (c : Checkpoint) (l a : Json) : recordOf true checkpointFields
    (.obj [("schema",.str c.schema),("snapshotId",.str c.snapshotId),
      ("repositoryId",.str c.repositoryId),("libraryId",.str c.libraryId),
      ("coveredPrefixes",mapJson integerJson c.coveredPrefixes),
      ("stateIdentity",.str c.stateIdentity),("library",l),("assetCatalogs",a),
      ("standaloneBodies",mapJson LargeBody.json c.standaloneBodies)]) =
    some [.str c.schema,.str c.snapshotId,.str c.repositoryId,.str c.libraryId,
      mapJson integerJson c.coveredPrefixes,.str c.stateIdentity,l,a,
      mapJson LargeBody.json c.standaloneBodies] := rfl

/-- A segment as it is serialized. -/
def segmentJson (s : Segment) (d a : Json) : Json :=
  .obj [("schema",.str s.schema),("libraryId",.str s.libraryId),("writerId",.str s.writerId),
    ("seq",integerJson s.seq),("changes",.arr (s.changes.map Change.json)),
    ("messagePages",mapJson .str s.messagePages),("dataCatalogs",d),("assetCatalogs",a),
    ("largeBodies",mapJson LargeBody.json s.largeBodies)]

lemma segment_json (s : Segment) {d a : Json} (hd : catalogsJson s.dataCatalogs = some d)
    (ha : catalogsJson s.assetCatalogs = some a) : s.json = some (segmentJson s d a) := by
  simp only [Segment.json, hd, ha]
  rfl

lemma segment_numbers (s : Segment) {d a : Json} (hd : numbers d = []) (ha : numbers a = []) :
    numbers (segmentJson s d a) = [] := by
  apply numbers_obj
  simp only [List.forall_mem_cons]
  exact ⟨rfl,rfl,rfl,rfl,numbers_map numbers_change _,numbers_mapJson (fun _ => rfl) _,hd,ha,
    numbers_mapJson numbers_largeBody _,List.forall_mem_nil _⟩

lemma Segment.exists_json (hread : ReadsJson decimal cr) (s : Segment)
    (hstamps : ∀ c ∈ s.changes, c.stamp.val.validate = .ok ()) :
    ∃ v, s.json = some v ∧ Fits 6 v ∧ numbers v = [] ∧
      segmentOf cr (sortBy utf16Le v) = some s := by
  obtain ⟨d, hd, hdfits, hdnumbers, hdback⟩ := exists_catalogs s.dataCatalogs
  obtain ⟨a, ha, hafits, hanumbers, haback⟩ := exists_catalogs s.assetCatalogs
  have htext : ∀ text, Fits 5 (.str text) := fun text => (fits_str text).mono (Nat.zero_le 5)
  have hchanges : listOf (changeOf cr) (sortBy utf16Le (.arr (s.changes.map Change.json))) =
      some s.changes := listOf_sortBy fun c hc => changeOf_sortBy hread (hstamps c hc)
  have hbodies := @mapOf_sortBy utf16Le _ _ _ largeBodyOf_sortBy s.largeBodies
  refine ⟨segmentJson s d a,segment_json s hd ha,?_,segment_numbers s hdnumbers hanumbers,?_⟩
  · apply fits_obj (by simp)
    simp only [List.forall_mem_cons]
    exact ⟨htext _,htext _,htext _,htext _,fits_map fits_change _,
      (fits_mapJson fits_str _).mono (by omega),hdfits.mono (by omega),hafits.mono (by omega),
      (fits_mapJson fits_largeBody _).mono (by omega),List.forall_mem_nil _⟩
  · unfold segmentOf segmentJson
    rw [recordOf_sortBy (segment_fields s d a)]
    simp only [List.map_cons, List.map_nil, sortBy_str, sortBy_integerJson, Json.text?,
      integerOf_json, hchanges, mapOf_texts, hdback, haback, hbodies]
    rfl

lemma Checkpoint.exists_json (c : Checkpoint) : ∃ v, c.json = some v ∧ Fits 4 v ∧
    numbers v = [] ∧ checkpointOf (sortBy utf16Le v) = some c := by
  obtain ⟨l, hl, hlfits, hlnumbers, hlback⟩ := exists_library c.library
  obtain ⟨a, ha, hafits, hanumbers, haback⟩ := exists_catalogs c.assetCatalogs
  have htext : ∀ text, Fits 3 (.str text) := fun text => (fits_str text).mono (Nat.zero_le 3)
  have hcovered : mapOf integerOf (sortBy utf16Le (mapJson integerJson c.coveredPrefixes)) =
      some c.coveredPrefixes := mapOf_sortBy (fun n => integerOf_json n) c.coveredPrefixes
  have hbodies := @mapOf_sortBy utf16Le _ _ _ largeBodyOf_sortBy c.standaloneBodies
  refine ⟨.obj [("schema",.str c.schema),("snapshotId",.str c.snapshotId),
    ("repositoryId",.str c.repositoryId),("libraryId",.str c.libraryId),
    ("coveredPrefixes",mapJson integerJson c.coveredPrefixes),
    ("stateIdentity",.str c.stateIdentity),("library",l),("assetCatalogs",a),
    ("standaloneBodies",mapJson LargeBody.json c.standaloneBodies)],?_,?_,?_,?_⟩
  · simp only [Checkpoint.json, hl, ha]
    rfl
  · apply fits_obj (by simp)
    simp only [List.forall_mem_cons]
    exact ⟨htext _,htext _,htext _,htext _,
      (fits_mapJson (f := integerJson) (fun _ => fits_str _) _).mono (by omega),htext _,hlfits,
      hafits,fits_mapJson fits_largeBody _,List.forall_mem_nil _⟩
  · apply numbers_obj
    simp only [List.forall_mem_cons]
    exact ⟨rfl,rfl,rfl,rfl,numbers_mapJson (f := integerJson) (fun _ => rfl) _,rfl,hlnumbers,
      hanumbers,numbers_mapJson numbers_largeBody _,List.forall_mem_nil _⟩
  · unfold checkpointOf
    rw [recordOf_sortBy (checkpoint_fields c l a)]
    simp only [List.map_cons, List.map_nil, sortBy_str, Json.text?, hcovered, hlback, haback,
      hbodies]
    rfl

/-! ### Documents are read back -/

lemma stamps_of_checkChange {l : List Change} {keys keys' : List String}
    (h : l.foldlM (checkChange cr) keys = .ok keys') :
    ∀ c ∈ l, c.stamp.val.validate = .ok () := by
  induction l generalizing keys with
  | nil => exact List.forall_mem_nil _
  | cons c l ih =>
    obtain ⟨next, hc, h⟩ := foldlM_cons_eq_ok.mp h
    obtain ⟨u, hstamp, -⟩ := bind_eq_ok.mp hc
    rw [List.forall_mem_cons]
    exact ⟨corrupting_eq_ok.mp hstamp,ih h⟩

lemma Segment.stamps_of_validate {s : Segment} {prepared : Bool}
    (h : s.validateInner cr prepared = .ok ()) :
    ∀ c ∈ s.changes, c.stamp.val.validate = .ok () := by
  obtain ⟨u, -, h⟩ := bind_eq_ok.mp h
  obtain ⟨u', -, h⟩ := bind_eq_ok.mp h
  obtain ⟨keys, hchanges, -⟩ := bind_eq_ok.mp h
  exact stamps_of_checkChange hchanges

lemma decodeDocument_of_json {α : Type} {read : Json → Option α}
    (encode : α → Provided (List UInt8)) {a : α} {v : Json} {n : ℕ} (hread : ReadsJson decimal cr)
    (hfits : Fits n v) (hn : n ≤ 127) (hnumbers : numbers v = [])
    (hback : read (sortBy utf16Le v) = some a) :
    ∃ bytes, canonical (some v) = .ok bytes ∧
      (encode a = .ok bytes → decodeDocument cr read encode bytes = .ok a) := by
  obtain ⟨bytes, hbytes, hdecode⟩ :=
    Wire.CanonicalJson.exists_decode hread hfits.distinct hnumbers
  have hv := (hdecode bytes.length le_rfl (hfits.shallow 0 (by omega))).1
  refine ⟨bytes,corrupting_eq_ok.mpr hbytes,fun hencode => ?_⟩
  unfold decodeDocument
  rw [hv]
  refine bind_eq_ok.mpr ⟨sortBy utf16Le v,rfl,?_⟩
  rw [hback]
  change (encode a >>= fun again => require (again = bytes) .corrupt >>= fun _ => pure a) = _
  rw [hencode]
  exact bind_eq_ok.mpr ⟨bytes,rfl,bind_eq_ok.mpr ⟨⟨⟩,require_eq_ok.mpr rfl,rfl⟩⟩

lemma encode_of_decodeDocument {α : Type} {read : Json → Option α}
    {encode : α → Provided (List UInt8)} {a : α} {bytes : List UInt8}
    (h : decodeDocument cr read encode bytes = .ok a) : encode a = .ok bytes := by
  obtain ⟨v, -, h⟩ := bind_eq_ok.mp h
  cases hv : read v with
  | none =>
    rw [hv] at h
    cases h
  | some b =>
    rw [hv] at h
    obtain ⟨again, hencode, h⟩ := bind_eq_ok.mp h
    obtain ⟨u, hsame, h⟩ := bind_eq_ok.mp h
    cases h
    rw [hencode, require_eq_ok.mp hsame]

/-- A segment that passes its checks is encoded, and decoded from the bytes with everything nested
in it; so is a checkpoint that passes its checks and is not too long; and whatever is decoded is
encoded as the very bytes that it was decoded from. -/
theorem codecs_are_exact (hread : ReadsJson decimal cr) :
    (∀ s : Segment, s.validate cr = .ok () →
      ∃ bytes, s.encode cr = .ok bytes ∧ Segment.decode cr bytes = .ok s) ∧
    (∀ bytes s, Segment.decode cr bytes = .ok s →
      s.validate cr = .ok () ∧ s.encode cr = .ok bytes) ∧
    (∀ c : Checkpoint, c.validate = .ok () → ∃ bytes, canonical c.json = .ok bytes ∧
      (bytes.length ≤ maxMetadataBytes →
        c.encode = .ok bytes ∧ Checkpoint.decode cr bytes = .ok c) ∧
      (maxMetadataBytes < bytes.length → c.encode = .error .corrupt)) ∧
    ∀ bytes c, Checkpoint.decode cr bytes = .ok c →
      c.validate = .ok () ∧ c.encode = .ok bytes := by
  refine ⟨?_,?_,?_,?_⟩
  · intro s h
    obtain ⟨v, hjson, hfits, hnumbers, hback⟩ :=
      s.exists_json hread (Segment.stamps_of_validate h)
    obtain ⟨bytes, hbytes, hdecode⟩ :=
      decodeDocument_of_json (Segment.encode cr) hread hfits (by omega) hnumbers hback
    have hencode : s.encode cr = .ok bytes := by
      rw [Segment.encode, h, hjson]
      exact hbytes
    exact ⟨bytes,hencode,hdecode hencode⟩
  · intro bytes s h
    have hencode : s.encode cr = .ok bytes := encode_of_decodeDocument h
    obtain ⟨u, hvalid, -⟩ := bind_eq_ok.mp hencode
    exact ⟨hvalid,hencode⟩
  · intro c h
    obtain ⟨v, hjson, hfits, hnumbers, hback⟩ := c.exists_json
    obtain ⟨bytes, hbytes, hdecode⟩ :=
      decodeDocument_of_json Checkpoint.encode hread hfits (by omega) hnumbers hback
    have hencode : c.encode = require (bytes.length ≤ maxMetadataBytes) .corrupt >>=
        fun _ => pure bytes := by
      rw [Checkpoint.encode, h, hjson, hbytes]
      rfl
    refine ⟨bytes,by rw [hjson]; exact hbytes,fun hle => ?_,fun hlt => ?_⟩
    · have hok : c.encode = .ok bytes := by
        rw [hencode, require_eq_ok.mpr hle]
        rfl
      refine ⟨hok,?_⟩
      rw [Checkpoint.decode, require_eq_ok.mpr hle]
      exact hdecode hok
    · rw [hencode, require_eq_error.mpr ⟨Nat.not_le_of_lt hlt,rfl⟩]
      rfl
  · intro bytes c h
    obtain ⟨u, -, h⟩ := bind_eq_ok.mp h
    have hencode : c.encode = .ok bytes := encode_of_decodeDocument h
    obtain ⟨u', hvalid, -⟩ := bind_eq_ok.mp hencode
    exact ⟨hvalid,hencode⟩

end

def sampleHash : String := "44136fa355b3678a1146ad16f7e8649e94fb4fc21fe77e8310c060f61caaff8a"

/-- Third-party functions that know an empty object. -/
def sampleCrates : Crates :=
  { Wire.tabulated [(Wire.utf8 "\x7b\x7d".toList,sampleHash)] [("\x7b\x7d","e30")] [] with
    readJson := Wire.JsonText.readBytes decimal }

def sampleWriter : String := "00000000-0000-4000-8000-000000000001"

lemma length_sevens : (List.replicate 32 (7 : UInt8)).length = 32 := rfl

def sampleCatalog : StoredObject where
  header := ⟨Envelope.headerSchema,"r","catalog-1",.catalog,1⟩
  locator := ⟨"c",none,"o"⟩
  ciphertextLength := 208
  ciphertextSha256 := ⟨List.replicate 32 7,length_sevens⟩
  plaintextLength := 1
  plaintextSha256 := ⟨List.replicate 32 255,rfl⟩

/-- A segment of one change, with its page, a catalog and a large body. -/
def sampleSegment : Segment where
  schema := segmentSchema
  libraryId := "l"
  writerId := sampleWriter
  seq := 1
  changes := [⟨⟨["root","x"],by decide⟩,⟨⟨5,0,sampleWriter⟩,by decide⟩,.inline "e30"⟩]
  messagePages := ⟨[(sampleHash,"e30")],List.pairwise_singleton _ _⟩
  dataCatalogs := [sampleCatalog]
  assetCatalogs := []
  largeBodies := ⟨[(sampleHash,⟨"b",sampleHash,4194400,4194305,some ⟨"c",some "","x"⟩⟩)],
    List.pairwise_singleton _ _⟩

theorem codecs_are_exact_sample : ∃ bytes, sampleSegment.encode sampleCrates = .ok bytes ∧
    Segment.decode sampleCrates bytes = .ok sampleSegment := by
  have hread : ReadsJson decimal sampleCrates := fun _ _ => Wire.JsonText.readBytes_eq_some
  have hvalid : sampleSegment.validate sampleCrates = .ok () := by decide +kernel
  exact (codecs_are_exact hread).1 sampleSegment hvalid

end RisuNest.External.Documents
