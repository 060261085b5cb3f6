import RisuNest.External.DocumentForms
import RisuNest.Wire.Sizes

/-! The number of bytes that a document takes, part by part. -/
namespace RisuNest.External.Documents
open CatalogPages (hashJson integerJson)
open Pack (Hash)
open Wire (Control Json byteLength sortBy utf16Le writeString)

/-! ### Parts with commas between them -/

/-- The length of some parts that are joined by commas. -/
def joinedLength (lengths : List ℕ) : ℕ := (lengths.map (· + 1)).sum - 1

/-- The comma between what is there and what is added. -/
def joined (count added : ℕ) : ℕ := if 0 < count ∧ 0 < added then 1 else 0

lemma joinedLength_nil : joinedLength [] = 0 := rfl

lemma sum_succ_pos {lengths : List ℕ} (h : lengths ≠ []) : 0 < (lengths.map (· + 1)).sum := by
  cases lengths with
  | nil => exact absurd rfl h
  | cons n lengths =>
    rw [List.map_cons, List.sum_cons]
    omega

theorem joinedLength_append (a b : List ℕ) :
    joinedLength (a ++ b) = joinedLength a + joinedLength b + joined a.length b.length := by
  unfold joinedLength joined
  rw [List.map_append, List.sum_append]
  by_cases ha : a = []
  · simp [ha]
  by_cases hb : b = []
  · simp [hb]
  have hapos := sum_succ_pos ha
  have hbpos := sum_succ_pos hb
  rw [if_pos ⟨List.length_pos_iff.mpr ha,List.length_pos_iff.mpr hb⟩]
  omega

lemma joinedLength_perm {a b : List ℕ} (h : a.Perm b) : joinedLength a = joinedLength b := by
  unfold joinedLength
  rw [(h.map _).sum_nat]

/-- A text with its quotes. -/
def textLength (text : String) : ℕ := byteLength (writeString text)

mutual
/-- The length of the canonical text of a value, in which bytes are told as texts. -/
def jsonLength : Json → ℕ
  | .null => 4
  | .bool true => 4
  | .bool false => 5
  | .num q => ((byteText q).map textLength).getD 0
  | .str text => textLength text
  | .arr vs => 2 + (itemsLength vs - 1)
  | .obj ms => 2 + (membersLength ms - 1)

/-- Each item with a comma. -/
def itemsLength : List Json → ℕ
  | [] => 0
  | v :: vs => jsonLength v + 1 + itemsLength vs

/-- Each member with its name and a comma. -/
def membersLength : List (String × Json) → ℕ
  | [] => 0
  | (k,v) :: ms => textLength k + 1 + jsonLength v + 1 + membersLength ms
end

lemma itemsLength_eq (vs : List Json) :
    itemsLength vs = (vs.map fun v => jsonLength v + 1).sum := by
  induction vs with
  | nil => rfl
  | cons v vs ih => rw [itemsLength, ih, List.map_cons, List.sum_cons]

lemma membersLength_eq (ms : List (String × Json)) :
    membersLength ms = (ms.map fun m => textLength m.1 + 1 + jsonLength m.2 + 1).sum := by
  induction ms with
  | nil => rfl
  | cons m ms ih => rw [membersLength, ih, List.map_cons, List.sum_cons]

lemma jsonLength_map {α : Type} (f : α → Json) (l : List α) :
    jsonLength (.arr (l.map f)) = 2 + joinedLength (l.map fun a => jsonLength (f a)) := by
  rw [jsonLength, itemsLength_eq, joinedLength, List.map_map, List.map_map]
  rfl

/-- A row of a map. -/
def rowLength {α : Type} (f : α → Json) (row : String × α) : ℕ :=
  textLength row.1 + 1 + jsonLength (f row.2)

/-- The rows of a map. -/
def mapLength {α : Type} (f : α → Json) (m : TextMap α) : ℕ :=
  joinedLength (m.rows.map (rowLength f))

lemma jsonLength_mapJson {α : Type} (f : α → Json) (m : TextMap α) :
    jsonLength (mapJson f m) = 2 + mapLength f m := by
  rw [mapJson, jsonLength, membersLength_eq, mapLength, joinedLength, List.map_map, List.map_map]
  rfl

mutual
lemma byteLength_write : ∀ c : Control, byteLength c.write = jsonLength c.json
  | .null => by rfl
  | .bool true => by rfl
  | .bool false => by rfl
  | .str _ => rfl
  | .arr [] => by rfl
  | .arr (v :: vs) => by
    have hv := byteLength_write v
    have hvs := byteLength_writeItems vs
    rw [Control.write, Wire.byteLength_cons, Wire.byteLength_append, hv, hvs, Control.json,
      Control.jsonItems, jsonLength, itemsLength]
    change 1 + _ = _
    omega
  | .obj [] => by rfl
  | .obj ((k,v) :: ms) => by
    have hv := byteLength_write v
    have hms := byteLength_writeMembers ms
    rw [Control.write, Wire.byteLength_cons, Wire.byteLength_append, Wire.byteLength_cons,
      Wire.byteLength_append, hv, hms, Control.json, Control.jsonMembers, jsonLength,
      membersLength, textLength]
    change 1 + (_ + (1 + _)) = _
    omega

lemma byteLength_writeItems : ∀ vs : List Control,
    byteLength (Control.writeItems vs) = itemsLength (Control.jsonItems vs) + 1
  | [] => by rfl
  | v :: vs => by
    have hv := byteLength_write v
    have hvs := byteLength_writeItems vs
    rw [Control.writeItems, Wire.byteLength_cons, Wire.byteLength_append, hv, hvs,
      Control.jsonItems, itemsLength]
    change 1 + _ = _
    omega

lemma byteLength_writeMembers : ∀ ms : List (String × Control),
    byteLength (Control.writeMembers ms) = membersLength (Control.jsonMembers ms) + 1
  | [] => by rfl
  | (k,v) :: ms => by
    have hv := byteLength_write v
    have hms := byteLength_writeMembers ms
    rw [Wire.byteLength_writeMembers, hv, hms, Control.jsonMembers, membersLength, textLength]
    omega
end

lemma jsonLength_reordered {v w : Json} (h : Wire.Reordered v w) : jsonLength v = jsonLength w := by
  induction h with
  | refl => rfl
  | symm _ ih => exact ih.symm
  | trans _ _ ih ih' => exact ih.trans ih'
  | item pre post _ ih =>
    simp only [jsonLength, itemsLength_eq, List.map_append, List.map_cons, ih]
  | member pre k post _ ih =>
    simp only [jsonLength, membersLength_eq, List.map_append, List.map_cons, ih]
  | swap h => simp only [jsonLength, membersLength_eq, (h.map _).sum_nat]

theorem length_encode {v : Json} {bytes : List UInt8}
    (h : Wire.CanonicalJson.encode v = .ok bytes) : bytes.length = jsonLength v := by
  obtain ⟨c, hc, rfl⟩ := Wire.CanonicalJson.encode_eq_ok.mp h
  have hjson := (Wire.control_eq_some.mp hc).1
  calc c.encode.length = byteLength c.write := Wire.length_encode c
    _ = jsonLength c.json := byteLength_write c
    _ = jsonLength (sortBy utf16Le v) := by rw [hjson]
    _ = jsonLength v := (jsonLength_reordered (Wire.reordered_sortBy utf16Le v)).symm

mutual
lemma jsonLength_nest : ∀ {v w : Json}, nest v = some w → jsonLength w = jsonLength v
  | .null, w, h => by
    obtain rfl := Option.some.inj h
    rfl
  | .bool b, w, h => by
    obtain rfl := Option.some.inj h
    rfl
  | .str text, w, h => by
    obtain rfl := Option.some.inj h
    rfl
  | .num q, w, h => by simp [nest] at h
  | .arr vs, w, h => by
    rw [nest, Option.map_eq_some_iff] at h
    obtain ⟨ws, hws, rfl⟩ := h
    rw [jsonLength, jsonLength, itemsLength_nest hws]
  | .obj ms, w, h => by
    rw [nest, Option.map_eq_some_iff] at h
    obtain ⟨ns, hns, rfl⟩ := h
    rw [jsonLength, jsonLength, membersLength_nest hns]

lemma itemsLength_nest : ∀ {vs ws : List Json}, nestItems vs = some ws →
    itemsLength ws = itemsLength vs
  | [], ws, h => by
    obtain rfl := Option.some.inj h
    rfl
  | v :: vs, ws, h => by
    have hcons : ∃ w, (v.asNumber.elim (nest v) fun q => (byteText q).map .str) = some w ∧
        ∃ l, nestItems vs = some l ∧ w :: l = ws := by
      simpa [nestItems, Option.bind_eq_some_iff] using h
    obtain ⟨w, hw, l, hl, rfl⟩ := hcons
    have hlength : jsonLength w = jsonLength v := by
      cases v with
      | num q =>
        obtain ⟨text, htext, rfl⟩ := Option.map_eq_some_iff.mp hw
        rw [jsonLength, jsonLength, htext]
        rfl
      | _ => exact jsonLength_nest hw
    rw [itemsLength, itemsLength, hlength, itemsLength_nest hl]

lemma membersLength_nest : ∀ {ms ns : List (String × Json)}, nestMembers ms = some ns →
    membersLength ns = membersLength ms
  | [], ns, h => by
    obtain rfl := Option.some.inj h
    rfl
  | (k,v) :: ms, ns, h => by
    have hcons : ∃ w, nest v = some w ∧ ∃ l, nestMembers ms = some l ∧ (k,w) :: l = ns := by
      simpa [nestMembers, Option.bind_eq_some_iff] using h
    obtain ⟨w, hw, l, hl, rfl⟩ := hcons
    rw [membersLength, membersLength, jsonLength_nest hw, membersLength_nest hl]
end

/-! ### Segments -/

def catalogsLength (catalogs : List StoredObject) : ℕ :=
  joinedLength (catalogs.map fun o => jsonLength o.json)

def changesLength (changes : List Change) : ℕ := joinedLength (changes.map fun c => jsonLength c.json)

def pagesLength (pages : TextMap String) : ℕ := mapLength .str pages

def bodiesLength (bodies : TextMap LargeBody) : ℕ := mapLength LargeBody.json bodies

/-- A segment without changes and what they refer to. -/
def frameLength (schema library writer : String) (seq : UInt64) : ℕ :=
  jsonLength (.obj [("schema",.str schema),("libraryId",.str library),("writerId",.str writer),
    ("seq",integerJson seq),("changes",.arr []),("messagePages",.obj []),("dataCatalogs",.arr []),
    ("assetCatalogs",.arr []),("largeBodies",.obj [])])

/-- The length of a segment as it is encoded. -/
def Segment.length (s : Segment) : ℕ :=
  frameLength s.schema s.libraryId s.writerId s.seq + changesLength s.changes +
    pagesLength s.messagePages + catalogsLength s.dataCatalogs + catalogsLength s.assetCatalogs +
    bodiesLength s.largeBodies

lemma catalogsLength_eq {catalogs : List StoredObject} {v : Json}
    (h : catalogsJson catalogs = some v) : jsonLength v = 2 + catalogsLength catalogs := by
  rw [jsonLength_nest h, jsonLength_map]
  rfl

/-- The canonical bytes of a segment. -/
theorem Segment.exists_canonical (s : Segment) :
    ∃ bytes, canonical s.json = .ok bytes ∧ bytes.length = s.length := by
  obtain ⟨d, hd, -, hdnumbers, -⟩ := exists_catalogs s.dataCatalogs
  obtain ⟨a, ha, -, hanumbers, -⟩ := exists_catalogs s.assetCatalogs
  have hdlength := catalogsLength_eq hd
  have halength := catalogsLength_eq ha
  have hnumbers := segment_numbers s hdnumbers hanumbers
  obtain ⟨bytes, hbytes⟩ := Wire.CanonicalJson.exists_encode hnumbers
  have hchanges := jsonLength_map Change.json s.changes
  have hpages := jsonLength_mapJson .str s.messagePages
  have hbodies := jsonLength_mapJson LargeBody.json s.largeBodies
  refine ⟨bytes,?_,?_⟩
  · rw [segment_json s hd ha]
    exact corrupting_eq_ok.mpr hbytes
  · rw [length_encode hbytes, segmentJson, jsonLength, Segment.length, frameLength, jsonLength]
    simp only [membersLength, hdlength, halength, hchanges, hpages, hbodies]
    simp only [jsonLength, itemsLength, membersLength]
    unfold changesLength pagesLength bodiesLength
    omega

end RisuNest.External.Documents
