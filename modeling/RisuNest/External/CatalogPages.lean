import RisuNest.External.Pack
import RisuNest.Wire.Head
import RisuNest.Wire.KeyText

/-! Catalog pages: the entries of a catalog in the order of their keys, cut into pages of a bounded
number of bytes (`catalog.rs`). -/
namespace RisuNest.External.CatalogPages
open Pack (FormatError Formatted Hash)
open Wire (Json utf8 writeString)
open Wire.Payload (decimal decimal_repr isToken_repr shallow shallowItems shallowMembers)
open Wire.JsonText (IsText ReadsJson WritesBack isText_write numbers numbersOfItems)

structure ChunkReference where
  packId : String
  offset : UInt64
  length : UInt64
  hash : Hash
  deriving DecidableEq

structure Entry where
  key : String
  contentHash : Hash
  byteLength : UInt64
  chunks : List ChunkReference
  deriving DecidableEq

structure CatalogPage where
  firstKey : String
  lastKey : String
  bytes : List UInt8
  hash : Hash

/-- `BTreeMap<String, Entry>` -/
structure EntryMap where
  rows : List (String × Entry)
  ascending : (rows.map Prod.fst).Pairwise (· < ·)

def maxKeyBytes : ℕ := 64*1024

def maxPageBytes : ℕ := 16*1024*1024

/-! ### Entries as JSON -/

/-- Numbers are whole and written in decimal. -/
def plainNumbers : Wire.Crates :=
  { Wire.tabulated [] [] [] with formatNumber := fun n => n.num.toNat.repr }

/-- `serde_json::to_vec` of a value. -/
def toVec (v : Json) : List UInt8 := utf8 (Wire.Payload.write plainNumbers v)

/-- `control_integer::serialize` -/
def integerJson (n : UInt64) : Json := .str n.toNat.repr

def hashJson (h : Hash) : Json := .arr (h.val.map fun b => .num b.toNat)

def ChunkReference.json (c : ChunkReference) : Json :=
  .obj [("packId",.str c.packId),("offset",integerJson c.offset),("length",integerJson c.length),
    ("hash",hashJson c.hash)]

def Entry.json (e : Entry) : Json :=
  .obj [("key",.str e.key),("contentHash",hashJson e.contentHash),
    ("byteLength",integerJson e.byteLength),("chunks",.arr (e.chunks.map ChunkReference.json))]

/-- The fields of a struct that admits no others: each once and by name, or all of them as an
array. -/
def fieldsOf (names : List String) : Json → Option (List Json)
  | .arr vs => if vs.length = names.length then some vs else none
  | .obj ms =>
    if (ms.map Prod.fst).Nodup ∧ ∀ m ∈ ms, m.1 ∈ names then
      names.mapM fun name => (ms.find? fun m => m.1 = name).map Prod.snd
    else none
  | _ => none

/-- `control_integer::deserialize` of a `u64`. -/
def integerOf (v : Json) : Option UInt64 := do
  let text ← v.text?
  let digits := text.toList
  if digits ≠ [] ∧ (digits.length = 1 ∨ digits.head? ≠ some '0') ∧
      digits.all Char.isDigit = true ∧ Decimal.value digits < 2^64 then
    some (.ofNat (Decimal.value digits))
  else none

def byteOf : Json → Option UInt8
  | .num q => if q.den = 1 ∧ 0 ≤ q.num ∧ q.num < 256 then some (.ofNat q.num.toNat) else none
  | _ => none

def hashOf : Json → Option Hash
  | .arr vs => do
    let bytes ← vs.mapM byteOf
    if h : bytes.length = 32 then some ⟨bytes,h⟩ else none
  | _ => none

def chunkReferenceOf (v : Json) : Option ChunkReference :=
  match fieldsOf ["packId","offset","length","hash"] v with
  | some [packId,offset,length,hash] => do
    pure ⟨← packId.text?,← integerOf offset,← integerOf length,← hashOf hash⟩
  | _ => none

def listOf {α : Type} (item : Json → Option α) : Json → Option (List α)
  | .arr vs => vs.mapM item
  | _ => none

def entryOf (v : Json) : Option Entry :=
  match fieldsOf ["key","contentHash","byteLength","chunks"] v with
  | some [key,contentHash,byteLength,chunks] => do
    pure ⟨← key.text?,← hashOf contentHash,← integerOf byteLength,
      ← listOf chunkReferenceOf chunks⟩
  | _ => none

/-! ### Writing and reading pages -/

section
variable (sha256 : List UInt8 → Hash)

/-- What `pages` has written so far: whole pages, the page it writes on, and the keys of the first
and the last entry there. -/
structure Writing where
  result : List CatalogPage
  page : List UInt8
  first : String
  last : String

def Writing.start : Writing := ⟨[],utf8 ['['],"",""⟩

/-- The page ends here. -/
def Writing.close (w : Writing) : Writing :=
  let bytes := w.page ++ utf8 [']']
  { w with
    result := w.result ++ [⟨w.first,w.last,bytes,sha256 bytes⟩]
    page := utf8 ['[']
    first := "" }

/-- An entry goes on the page. -/
def Writing.put (w : Writing) (key : String) (bytes : List UInt8) : Writing :=
  if w.page.length = 1 then { w with page := w.page ++ bytes, first := key, last := key }
  else { w with page := w.page ++ utf8 [','] ++ bytes, last := key }

/-- The body of the loop of `pages`. -/
def addEntry (maxBytes : ℕ) (w : Writing) (row : String × Entry) : Formatted Writing := do
  require (row.2.key = row.1 ∧ row.1 ≠ "" ∧ (utf8 row.1.toList).length ≤ maxKeyBytes)
    ⟨"invalid-catalog-key"⟩
  let bytes := toVec row.2.json
  require (bytes.length + 2 ≤ maxBytes) ⟨"catalog-entry-requires-fragmentation"⟩
  if 1 < w.page.length ∧ maxBytes < w.page.length + bytes.length + 2 then
    pure ((w.close sha256).put row.1 bytes)
  else pure (w.put row.1 bytes)

def pages (entries : EntryMap) (maxBytes : ℕ) : Formatted (List CatalogPage) := do
  require (128 ≤ maxBytes ∧ maxBytes ≤ maxPageBytes) ⟨"invalid-catalog-limit"⟩
  let w ← entries.rows.foldlM (addEntry sha256 maxBytes) .start
  pure (w.close sha256).result

/-- The checks of one chunk, with the length before it. -/
def checkChunk (length : ℕ) (c : ChunkReference) : Formatted ℕ := do
  require (length + c.length.toNat < 2^64) ⟨"length-overflow"⟩
  require (c.packId ≠ "" ∧ c.offset.toNat + c.length.toNat < 2^64) ⟨"invalid-chunk-reference"⟩
  pure (length + c.length.toNat)

/-- The checks of one entry, with the key before it. -/
def checkEntry (previous : Option String) (e : Entry) : Formatted (Option String) := do
  require (e.key ≠ "" ∧ ∀ key ∈ previous, key < e.key) ⟨"invalid-catalog-order"⟩
  let length ← e.chunks.foldlM checkChunk 0
  require (length = e.byteLength.toNat) ⟨"catalog-length-mismatch"⟩
  pure (some e.key)

/-- `read_page`. Its reader knows that numbers are whole. -/
def readPage (cr : Wire.Crates) (bytes : List UInt8) (expectedHash : Hash) (maxBytes : ℕ) :
    Formatted (List Entry) := do
  require (bytes.length ≤ maxBytes ∧ sha256 bytes = expectedHash) ⟨"catalog-integrity-failed"⟩
  match (cr.readJson bytes).bind (listOf entryOf) with
  | none => .error ⟨"invalid-catalog-page"⟩
  | some entries => do
    let _ ← entries.foldlM checkEntry none
    pure entries

end

/-! ### Entries are read back -/

lemma mapM_map {α β : Type} {f : β → Option α} {g : α → β} (h : ∀ a, f (g a) = some a)
    (l : List α) : (l.map g).mapM f = some l := by
  induction l with
  | nil => rfl
  | cons a l ih =>
    rw [List.map_cons, List.mapM_cons, h, ih]
    rfl

lemma integerOf_json (n : UInt64) : integerOf (integerJson n) = some n := by
  have hvalue := Decimal.value_repr n.toNat
  have hdigits : n.toNat.repr.toList.all Char.isDigit = true :=
    List.all_eq_true.mpr (Decimal.digits_repr n.toNat)
  have hne : n.toNat.repr.toList ≠ [] := by
    have := Decimal.length_repr_pos n.toNat
    intro h
    rw [h] at this
    cases this
  have hzero := Decidable.or_iff_not_imp_left.mpr (@Wire.head_repr_ne_zero n.toNat)
  have hlt : Decimal.value n.toNat.repr.toList < 2^64 := by
    rw [hvalue]
    exact n.toNat_lt
  change (if n.toNat.repr.toList ≠ [] ∧ _ then _ else _) = _
  rw [if_pos ⟨hne,hzero,hdigits,hlt⟩, hvalue, UInt64.ofNat_toNat]

lemma byteOf_json (b : UInt8) : byteOf (.num b.toNat) = some b := by
  have hlt := b.toNat_lt
  simp only [byteOf, Rat.den_natCast, Rat.num_natCast, Int.toNat_natCast, UInt8.ofNat_toNat]
  rw [if_pos ⟨trivial,by omega,by omega⟩]

lemma hashOf_json (h : Hash) : hashOf (hashJson h) = some h := by
  change ((h.val.map fun b => Json.num b.toNat).mapM byteOf >>= _) = _
  rw [mapM_map byteOf_json]
  exact dif_pos h.property

lemma chunkReferenceOf_json (c : ChunkReference) : chunkReferenceOf c.json = some c := by
  have hfields : fieldsOf ["packId","offset","length","hash"] c.json =
      some [.str c.packId,integerJson c.offset,integerJson c.length,hashJson c.hash] := by
    rfl
  unfold chunkReferenceOf
  rw [hfields]
  simp only [Json.text?, integerOf_json, hashOf_json]
  rfl

lemma entryOf_json (e : Entry) : entryOf e.json = some e := by
  have hfields : fieldsOf ["key","contentHash","byteLength","chunks"] e.json =
      some [.str e.key,hashJson e.contentHash,integerJson e.byteLength,
        .arr (e.chunks.map ChunkReference.json)] := by
    rfl
  have hchunks := mapM_map chunkReferenceOf_json e.chunks
  unfold entryOf
  rw [hfields]
  simp only [Json.text?, integerOf_json, hashOf_json, listOf, hchunks]
  rfl

/-- The entries of a page as JSON. -/
def pageJson (entries : List Entry) : Json := .arr (entries.map Entry.json)

lemma writesBack_natural (n : ℕ) : WritesBack decimal plainNumbers n :=
  ⟨isToken_repr n,decimal_repr n⟩

lemma utf8_append (a b : List Char) : utf8 (a ++ b) = utf8 a ++ utf8 b := by
  simp [utf8, String.ofList_append, String.toByteArray_append]

/-- A page with these entries that is not closed yet. -/
def openPage : List Entry → List UInt8
  | [] => utf8 ['[']
  | e :: es => utf8 ['['] ++ toVec e.json ++ es.flatMap fun e => utf8 [','] ++ toVec e.json

lemma openPage_close (es : List Entry) : openPage es ++ utf8 [']'] = toVec (pageJson es) := by
  have hitems : ∀ es : List Entry,
      utf8 (Wire.Payload.writeItems plainNumbers (es.map Entry.json)) =
        (es.flatMap fun e => utf8 [','] ++ toVec e.json) ++ utf8 [']'] := by
    intro es
    induction es with
    | nil => rfl
    | cons e es ih =>
      rw [List.map_cons, Wire.Payload.writeItems, ← List.singleton_append, utf8_append, utf8_append,
        ih]
      simp [toVec]
  cases es with
  | nil => rfl
  | cons e es =>
    have hwrite : Wire.Payload.write plainNumbers (pageJson (e :: es)) = ['['] ++
        (Wire.Payload.write plainNumbers e.json ++
          Wire.Payload.writeItems plainNumbers (es.map Entry.json)) := rfl
    rw [openPage, toVec, toVec, hwrite, utf8_append, utf8_append, hitems]
    simp only [List.append_assoc]

lemma openPage_concat (es : List Entry) (e : Entry) : openPage (es ++ [e]) =
    (if es = [] then openPage es else openPage es ++ utf8 [',']) ++ toVec e.json := by
  cases es with
  | nil => simp [openPage]
  | cons e' es => simp [openPage]

lemma openPage_pos (es : List Entry) : 0 < (openPage es).length := by
  have hbracket : (utf8 ['[']).length = 1 := rfl
  cases es with
  | nil => exact Nat.zero_lt_one
  | cons e es =>
    simp only [openPage, List.length_append]
    omega

lemma openPage_length_eq_one {es : List Entry} : (openPage es).length = 1 ↔ es = [] := by
  cases es with
  | nil => exact iff_of_true rfl rfl
  | cons e es =>
    have hentry : toVec e.json ≠ [] := by
      have hbrace : toVec e.json = utf8 ['\x7b'] ++
          utf8 (Wire.Payload.write plainNumbers e.json).tail := by
        rw [← utf8_append]
        rfl
      rw [hbrace]
      exact List.cons_ne_nil _ _
    have := List.length_pos_of_ne_nil hentry
    have hbracket : (utf8 ['[']).length = 1 := rfl
    apply iff_of_false
    · simp only [openPage, List.length_append]
      omega
    · exact List.cons_ne_nil _ _

/-! ### Pages are accepted -/

/-- The references of an entry are ones that a reader accepts, and its chunks make up its length. -/
structure Entry.Sound (e : Entry) : Prop where
  references : ∀ c ∈ e.chunks, c.packId ≠ "" ∧ c.offset.toNat + c.length.toNat < 2^64
  length : (e.chunks.map fun c => c.length.toNat).sum = e.byteLength.toNat

def keyOf (e : Option Entry) : String := (e.map Entry.key).getD ""

/-- A page of some entries within the limit. -/
structure IsPage (sha256 : List UInt8 → Hash) (maxBytes : ℕ) (p : CatalogPage) (es : List Entry) :
    Prop where
  bytes : p.bytes = toVec (pageJson es)
  hash : p.hash = sha256 p.bytes
  bounded : p.bytes.length ≤ maxBytes
  firstKey : p.firstKey = keyOf es.head?
  lastKey : p.lastKey = keyOf es.getLast?

/-- The entries so far are those of the whole pages and of the open one, which has room for its
closing bracket. -/
structure Written (sha256 : List UInt8 → Hash) (maxBytes : ℕ) (done : List Entry) (w : Writing)
    (parts : List (List Entry)) (pending : List Entry) : Prop where
  entries : parts.flatten ++ pending = done
  result : List.Forall₂ (IsPage sha256 maxBytes) w.result parts
  page : w.page = openPage pending
  room : w.page.length + 1 ≤ maxBytes
  first : w.first = keyOf pending.head?
  last : w.last = keyOf done.getLast?

section
variable {sha256 : List UInt8 → Hash} {maxBytes : ℕ} {done pending : List Entry} {w : Writing}
  {parts : List (List Entry)}

lemma Written.start (h : 128 ≤ maxBytes) : Written sha256 maxBytes [] .start [] [] where
  entries := rfl
  result := .nil
  page := rfl
  room := by
    have hbracket : Writing.start.page.length = 1 := rfl
    omega
  first := rfl
  last := rfl

lemma Written.isPage (h : Written sha256 maxBytes done w parts pending)
    (hpending : pending = [] → done = []) :
    IsPage sha256 maxBytes ⟨w.first,w.last,w.page ++ utf8 [']'],sha256 (w.page ++ utf8 [']'])⟩
      pending where
  bytes := by rw [h.page, openPage_close]
  hash := rfl
  bounded := by
    rw [List.length_append]
    exact h.room
  firstKey := h.first
  lastKey := by
    change w.last = _
    rw [h.last, ← h.entries]
    cases pending with
    | nil =>
      have hnil := hpending rfl
      rw [← h.entries] at hnil
      rw [hnil]
    | cons e es => rw [List.getLast?_append_cons]

lemma Written.close (h : Written sha256 maxBytes done w parts pending) (hpending : pending ≠ []) :
    Written sha256 maxBytes done (w.close sha256) (parts ++ [pending]) [] where
  entries := by rw [List.flatten_append, List.flatten_singleton, List.append_nil, h.entries]
  result := by
    apply PageTree.forall₂_append.mpr
    exact ⟨_,_,rfl,h.result,.cons (h.isPage fun hnil => absurd hnil hpending) .nil⟩
  page := rfl
  room := by
    have hpos := openPage_pos pending
    rw [← h.page] at hpos
    have hbracket : (w.close sha256).page.length = 1 := rfl
    have := h.room
    omega
  first := rfl
  last := h.last

lemma Written.put (h : Written sha256 maxBytes done w parts pending) {e : Entry}
    (hroom : pending = [] ∨ w.page.length + (toVec e.json).length + 2 ≤ maxBytes)
    (hfits : (toVec e.json).length + 2 ≤ maxBytes) :
    Written sha256 maxBytes (done ++ [e]) (w.put e.key (toVec e.json)) parts (pending ++ [e]) := by
  have hlast : keyOf (done ++ [e]).getLast? = e.key := by
    rw [List.getLast?_concat]
    rfl
  have hentries : parts.flatten ++ (pending ++ [e]) = done ++ [e] := by
    rw [← List.append_assoc, h.entries]
  have hpage := openPage_concat pending e
  have hone := @openPage_length_eq_one pending
  have hcomma : (utf8 [',']).length = 1 := rfl
  rw [← h.page] at hpage hone
  unfold Writing.put
  by_cases hnil : pending = []
  · rw [if_pos hnil] at hpage
    have hbracket := hone.mpr hnil
    rw [if_pos hbracket]
    refine ⟨hentries,h.result,hpage.symm,?_,?_,hlast.symm⟩
    · simp only [List.length_append]
      omega
    · rw [hnil]
      rfl
  · rw [if_neg hnil] at hpage
    rw [if_neg fun hbracket => hnil (hone.mp hbracket)]
    refine ⟨hentries,h.result,hpage.symm,?_,?_,hlast.symm⟩
    · have := hroom.resolve_left hnil
      simp only [List.length_append]
      omega
    · change w.first = _
      rw [h.first, List.head?_append_of_ne_nil _ hnil]

lemma Written.add (h : Written sha256 maxBytes done w parts pending) {row : String × Entry}
    (hrow : row.2.key = row.1 ∧ row.1 ≠ "" ∧ (utf8 row.1.toList).length ≤ maxKeyBytes)
    (hfits : (toVec row.2.json).length + 2 ≤ maxBytes) : ∃ w' parts' pending',
      addEntry sha256 maxBytes w row = .ok w' ∧
      Written sha256 maxBytes (done ++ [row.2]) w' parts' pending' ∧ pending' ≠ [] := by
  have hopen : 1 < w.page.length ↔ pending ≠ [] := by
    have hpos := openPage_pos pending
    have hone := @openPage_length_eq_one pending
    rw [← h.page] at hpos hone
    rw [Ne, ← hone]
    omega
  unfold addEntry
  rw [require_eq_ok.mpr hrow, ← hrow.1]
  by_cases hcut : 1 < w.page.length ∧ maxBytes < w.page.length + (toVec row.2.json).length + 2
  · have hclosed := h.close (hopen.mp hcut.1)
    refine ⟨_,_,_,?_,hclosed.put (.inl rfl) hfits,by simp⟩
    change (require _ _ >>= fun _ => _) = _
    rw [require_eq_ok.mpr hfits]
    exact if_pos hcut
  · have hroom : pending = [] ∨ w.page.length + (toVec row.2.json).length + 2 ≤ maxBytes := by
      by_cases hnil : pending = []
      · exact .inl hnil
      · have := hopen.mpr hnil
        omega
    refine ⟨_,_,_,?_,h.put hroom hfits,by simp⟩
    change (require _ _ >>= fun _ => _) = _
    rw [require_eq_ok.mpr hfits]
    exact if_neg hcut

end

def zeroHash : Hash := ⟨List.replicate 32 0,rfl⟩

end RisuNest.External.CatalogPages
