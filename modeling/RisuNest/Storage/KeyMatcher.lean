import RisuNest.Lib.SortedMap
import RisuNest.Lib.Utf8
import RisuNest.Wire.Canonical
import Mathlib.Data.Prod.Lex
import Mathlib.Data.String.Basic

/-! The search for asset keys in stored text (`asset_alias_orphans.rs`): every form of a key that
a reader still resolves is found, and nothing else is. -/
namespace RisuNest.Storage.Orphans
open Wire (utf8 escape)

/-! ### Forms of a key -/

/-- `str::replace` of one character. -/
def replaceChar (c : Char) (by' : List Char) (text : List Char) : List Char :=
  text.flatMap fun d => if d = c then by' else [d]

/-- The digits of a `u16`. -/
def hex4 (uppercase : Bool) (unit : ℕ) : List Char :=
  [unit/4096%16,unit/256%16,unit/16%16,unit%16].map fun n =>
    if uppercase then (Wire.hexDigit n).toUpper else Wire.hexDigit n

/-- `char::encode_utf16` -/
def utf16Units (c : Char) : List ℕ :=
  if c.toNat < 65536 then [c.toNat]
  else [55296 + (c.toNat - 65536)/1024,56320 + (c.toNat - 65536)%1024]

def asciiEscapedChar (uppercase : Bool) (c : Char) : List Char :=
  if c.toNat < 128 then [c]
  else (utf16Units c).flatMap fun unit => '\\' :: 'u' :: hex4 uppercase unit

def asciiEscaped (text : List Char) (uppercase : Bool) : List Char :=
  text.flatMap (asciiEscapedChar uppercase)

/-- The forms without a slash that is escaped. -/
def jsonForms (text : List Char) : List (List Char) :=
  let json := text.flatMap escape
  if text.all fun c => c.toNat < 128 then [json]
  else [json,asciiEscaped json false,asciiEscaped json true]

/-- `escaped_forms`, without the order of the set. -/
def escapedForms (text : List Char) : List (List Char) :=
  text :: (jsonForms text).flatMap fun form => [replaceChar '/' ['\\','/'] form,form]

/-! ### The matcher -/

def anchor : List UInt8 := utf8 "assets".toList

def ownedAssetKeyPrefix : List Char := "assets/".toList

/-- The forms of some keys. -/
structure KeyIndex where
  keys : List String
  forms : Table (List UInt8) ℕ
  bare : Table (List UInt8) ℕ
  /-- The extra keys of a form two keys share. -/
  shared : Table (List UInt8) (List ℕ)
  lengths : List ℕ
  /-- The offset of the last `.` and the length of each prefixless form. -/
  bareShapes : List (ℕ × ℕ)
  longest : ℕ

structure AssetKeyMatcher extends KeyIndex where
  found : List Bool
  remaining : ℕ

namespace KeyIndex

def table (m : KeyIndex) (bare : Bool) : Table (List UInt8) ℕ := if bare then m.bare else m.forms

def sharing (m : KeyIndex) (form : List UInt8) : List ℕ := (m.shared.get form).getD []

def insert (m : KeyIndex) (bare : Bool) (form : List UInt8) (index : ℕ) : KeyIndex :=
  match (m.table bare).get form with
  | some first =>
    if first = index ∨ index ∈ m.sharing form then m
    else { m with shared := m.shared.upsert form (m.sharing form ++ [index]) }
  | none =>
    if bare then { m with bare := m.bare.upsert form index }
    else { m with forms := m.forms.upsert form index }

/-- `str::rfind` of a byte. -/
def rfind (b : UInt8) : List UInt8 → Option ℕ
  | [] => none
  | a :: bytes =>
    match rfind b bytes with
    | some i => some (i+1)
    | none => if a = b then some 0 else none

def dot : UInt8 := 46

/-- The forms a text is searched for. -/
def keyForms (key : String) : List (List UInt8) :=
  (escapedForms key.toList ++ escapedForms (replaceChar '/' ['\\'] key.toList)).map utf8

/-- The forms plugin text is searched for, with the offset of their last dot. -/
def bareForms (key : String) : List (List UInt8 × ℕ) :=
  if ownedAssetKeyPrefix.isPrefixOf key.toList then
    ((escapedForms (key.toList.drop ownedAssetKeyPrefix.length)).map utf8).filterMap fun form =>
      (rfind dot form).map fun i => (form,i)
  else []

def insertKey (m : KeyIndex) (entry : String × ℕ) : KeyIndex :=
  let m := (keyForms entry.1).foldl
    (fun m form => insert { m with lengths := m.lengths ++ [form.length] } false form entry.2) m
  (bareForms entry.1).foldl
    (fun m form => insert { m with bareShapes := m.bareShapes ++ [(form.2,form.1.length)] } true
      form.1 entry.2) m

/-- A set in its order. -/
def ordered {κ : Type} [LinearOrder κ] (l : List κ) : List κ :=
  (SortedMap.ofRows (l.map fun k => (k,()))).rows.map Prod.fst

def ofKeys (keys : List String) : KeyIndex :=
  let keys := ordered keys
  let m := keys.zipIdx.foldl insertKey ⟨keys,.empty,.empty,.empty,[],[],0⟩
  { m with
    longest := (m.lengths ++ m.bareShapes.map Prod.snd).foldl max 0
    lengths := ordered m.lengths
    bareShapes := (ordered (m.bareShapes.map toLex)).map ofLex }

end KeyIndex

namespace AssetKeyMatcher

def new (keys : List String) : AssetKeyMatcher :=
  let index := KeyIndex.ofKeys keys
  { index with found := List.replicate index.keys.length false, remaining := index.keys.length }

def isComplete (m : AssetKeyMatcher) : Bool := m.remaining = 0

def markOne (m : AssetKeyMatcher) (index : ℕ) : AssetKeyMatcher :=
  if m.found[index]? = some false then
    { m with found := m.found.set index true, remaining := m.remaining - 1 }
  else m

def mark (m : AssetKeyMatcher) (key : ℕ) (form : List UInt8) : AssetKeyMatcher :=
  (key :: m.sharing form).foldl markOne m

end AssetKeyMatcher

/-- `str::match_indices`: the places of a needle from a position on, where each match skips the
rest of itself. -/
def matchIndices (needle : List UInt8) : ℕ → ℕ → List UInt8 → List ℕ
  | _, _, [] => []
  | skip+1, position, _ :: bytes => matchIndices needle skip (position+1) bytes
  | 0, position, b :: bytes =>
    if needle.isPrefixOf (b :: bytes) then
      position :: matchIndices needle (needle.length-1) (position+1) bytes
    else matchIndices needle 0 (position+1) bytes

/-- `slice::get` of a range. -/
def getRange (bytes : List UInt8) (start stop : ℕ) : Option (List UInt8) :=
  if start ≤ stop ∧ stop ≤ bytes.length then some ((bytes.drop start).take (stop - start)) else none

namespace AssetKeyMatcher

def lookUp (m : AssetKeyMatcher) (bare : Bool) (candidate : List UInt8) : AssetKeyMatcher :=
  match (m.table bare).get candidate with
  | some key => m.mark key candidate
  | none => m

/-- The lengths at one place, until one does not fit. -/
def scanLengths (text : List UInt8) (start : ℕ) : List ℕ → AssetKeyMatcher → AssetKeyMatcher
  | [], m => m
  | length :: lengths, m =>
    match getRange text start (start + length) with
    | none => m
    | some candidate => scanLengths text start lengths (m.lookUp false candidate)

/-- The places of the anchor, until one is not before the cut. -/
def scanAnchors (text : List UInt8) (cut : ℕ) : List ℕ → AssetKeyMatcher → AssetKeyMatcher
  | [], m => m
  | start :: starts, m =>
    if cut ≤ start then m
    else scanAnchors text cut starts (scanLengths text start m.lengths m)

/-- The shapes around one dot. -/
def scanShapes (text : List UInt8) (cut dot : ℕ) : List (ℕ × ℕ) → AssetKeyMatcher → AssetKeyMatcher
  | [], m => m
  | (offset,length) :: shapes, m =>
    let m :=
      if offset ≤ dot ∧ dot - offset < cut then
        match getRange text (dot - offset) (dot - offset + length) with
        | some candidate => m.lookUp true candidate
        | none => m
      else m
    scanShapes text cut dot shapes m

/-- The dots, until one is out of reach. -/
def scanDots (text : List UInt8) (cut reach : ℕ) : List ℕ → AssetKeyMatcher → AssetKeyMatcher
  | [], m => m
  | dot :: dots, m =>
    if reach ≤ dot then m
    else scanDots text cut reach dots (scanShapes text cut dot m.bareShapes m)

/-- Looks up every form that starts before `cut` and fits in `text`. -/
def scan (m : AssetKeyMatcher) (text : List UInt8) (cut : ℕ) (plugin : Bool) : AssetKeyMatcher :=
  if m.remaining = 0 then m
  else
    let m := scanAnchors text cut (matchIndices anchor 0 0 text) m
    if !plugin || m.bareShapes.isEmpty then m
    else
      let reach := cut + (m.bareShapes.map Prod.fst).foldl max 0
      scanDots text cut reach (matchIndices [KeyIndex.dot] 0 0 text) m

def observe (m : AssetKeyMatcher) (text : List UInt8) (plugin : Bool) : AssetKeyMatcher :=
  m.scan text text.length plugin

def unreferenced (m : AssetKeyMatcher) : List String :=
  ((m.keys.zip m.found).filter fun p => !p.2).map Prod.fst

end AssetKeyMatcher

/-! ### Streams -/

/-- Text read in pieces, keeping the tail a form could still be starting in. -/
structure KeyStream where
  matcher : AssetKeyMatcher
  pending : List UInt8
  plugin : Bool

def AssetKeyMatcher.stream (m : AssetKeyMatcher) (plugin : Bool) : KeyStream := ⟨m,[],plugin⟩

def isCharBoundary (text : List UInt8) (i : ℕ) : Bool :=
  i = 0 || i = text.length || (text[i]?).any fun b => !(128 ≤ b.toNat && b.toNat < 192)

def floorBoundary (text : List UInt8) : ℕ → ℕ
  | 0 => 0
  | cut+1 => if isCharBoundary text (cut+1) then cut+1 else floorBoundary text cut

namespace KeyStream

def push (s : KeyStream) (text : List UInt8) : KeyStream :=
  if s.matcher.isComplete then s
  else
    let pending := s.pending ++ text
    let keep := s.matcher.longest - 1
    if pending.length ≤ keep then { s with pending := pending }
    else
      let cut := floorBoundary pending (pending.length - keep)
      { s with matcher := s.matcher.scan pending cut s.plugin, pending := pending.drop cut }

def finish (s : KeyStream) : AssetKeyMatcher := s.matcher.scan s.pending s.pending.length s.plugin

end KeyStream

/-! ### Sets in their order -/

namespace KeyIndex

lemma ordered_eq_foldl {κ : Type} [LinearOrder κ] (l : List κ) :
    ordered l = ((l.foldl (fun m k => m.insert k ()) (.empty : SortedMap κ Unit)).rows).map Prod.fst := by
  unfold ordered SortedMap.ofRows
  rw [List.foldl_map]

@[simp] lemma mem_ordered {κ : Type} [LinearOrder κ] {l : List κ} {k : κ} : k ∈ ordered l ↔ k ∈ l := by
  have key : ∀ m : SortedMap κ Unit, k ∈ (l.foldl (fun m k => m.insert k ()) m).rows.map Prod.fst ↔
      k ∈ m.rows.map Prod.fst ∨ k ∈ l := by
    induction l with
    | nil => simp
    | cons a l ih =>
      intro m
      have hinsert : k ∈ (m.insert a ()).rows.map Prod.fst ↔ k = a ∨ k ∈ m.rows.map Prod.fst :=
        SortedMap.names_insertRow a () m.rows k
      rw [List.foldl_cons, ih, hinsert, List.mem_cons]
      tauto
  rw [ordered_eq_foldl, key]
  simp [SortedMap.empty]

lemma ordered_ascending {κ : Type} [LinearOrder κ] (l : List κ) : (ordered l).Pairwise (· < ·) :=
  (SortedMap.ofRows (l.map fun k => (k,()))).ascending

/-! ### What the tables hold -/

/-- The keys that are marked when a form is found. -/
def Holds (m : KeyIndex) (bare : Bool) (form : List UInt8) (i : ℕ) : Prop :=
  ∃ first, (m.table bare).get form = some first ∧ (i = first ∨ i ∈ m.sharing form)

/-- The keys that have a form of either kind. -/
def Owns (m : KeyIndex) (form : List UInt8) (i : ℕ) : Prop :=
  (∃ bare, (m.table bare).get form = some i) ∨ i ∈ m.sharing form

lemma Holds.owns {m : KeyIndex} {bare : Bool} {form : List UInt8} {i : ℕ}
    (h : m.Holds bare form i) : m.Owns form i := by
  obtain ⟨first,hfirst,hi⟩ := h
  cases hi with
  | inl hi => exact .inl ⟨bare,hi ▸ hfirst⟩
  | inr hi => exact .inr hi

/-- A form that is inserted: whether it has no prefix, its last dot, and its key. -/
structure Entry where
  bare : Bool
  form : List UInt8
  dot : ℕ
  index : ℕ

def insertEntry (m : KeyIndex) (e : Entry) : KeyIndex :=
  insert (if e.bare then { m with bareShapes := m.bareShapes ++ [(e.dot,e.form.length)] }
    else { m with lengths := m.lengths ++ [e.form.length] }) e.bare e.form e.index

def entriesOf (key : String × ℕ) : List Entry :=
  (keyForms key.1).map (fun form => ⟨false,form,0,key.2⟩) ++
    (bareForms key.1).map fun form => ⟨true,form.1,form.2,key.2⟩

lemma insertKey_eq (m : KeyIndex) (key : String × ℕ) :
    insertKey m key = (entriesOf key).foldl insertEntry m := by
  rw [entriesOf, List.foldl_append, List.foldl_map, List.foldl_map]
  rfl

lemma table_insert (m : KeyIndex) (bare : Bool) (form : List UInt8) (i : ℕ) (b : Bool)
    (f : List UInt8) : ((m.insert bare form i).table b).get f =
      if b = bare ∧ f = form then some (((m.table b).get f).getD i) else (m.table b).get f := by
  unfold insert
  cases hget : (m.table bare).get form with
  | none =>
    dsimp only
    by_cases hf : f = form
    · subst hf
      cases bare <;> cases b <;> simp_all [table]
    · cases bare <;> cases b <;> simp [table, hf]
  | some first =>
    dsimp only
    have hsame : (m.table b).get f =
        if b = bare ∧ f = form then some (((m.table b).get f).getD i) else (m.table b).get f := by
      split_ifs with h
      · rw [h.1, h.2, hget]
        rfl
      · rfl
    split_ifs at hsame ⊢ with h1 h2 <;> exact hsame

lemma mem_sharing_insert (m : KeyIndex) (bare : Bool) (form : List UInt8) (i : ℕ)
    (f : List UInt8) (j : ℕ) : j ∈ (m.insert bare form i).sharing f ↔ j ∈ m.sharing f ∨
      (f = form ∧ j = i ∧ ∃ first, (m.table bare).get form = some first ∧ first ≠ i) := by
  unfold insert
  cases hget : (m.table bare).get form with
  | none =>
    dsimp only
    cases bare <;> simp [sharing]
  | some first =>
    dsimp only
    by_cases hfirst : first = i
    · simp [hfirst]
    · by_cases hmem : i ∈ m.sharing form
      · rw [if_pos (.inr hmem)]
        constructor
        · exact .inl
        · rintro (h | ⟨rfl,rfl,_⟩)
          · exact h
          · exact hmem
      · rw [if_neg (not_or.mpr ⟨hfirst,hmem⟩)]
        by_cases hf : f = form
        · subst hf
          simp [sharing, hfirst]
        · simp [sharing, hf]

lemma holds_insert_self (m : KeyIndex) (bare : Bool) (form : List UInt8) (i : ℕ) :
    (m.insert bare form i).Holds bare form i := by
  refine ⟨_,by rw [table_insert, if_pos ⟨rfl,rfl⟩],?_⟩
  cases hget : (m.table bare).get form with
  | none => exact .inl rfl
  | some first =>
    by_cases hfirst : first = i
    · exact .inl hfirst.symm
    · exact .inr ((mem_sharing_insert ..).mpr (.inr ⟨rfl,rfl,first,hget,hfirst⟩))

lemma Holds.insert {m : KeyIndex} {b : Bool} {f : List UInt8} {j : ℕ} (h : m.Holds b f j)
    (bare : Bool) (form : List UInt8) (i : ℕ) : (m.insert bare form i).Holds b f j := by
  obtain ⟨first,hfirst,hj⟩ := h
  refine ⟨first,?_,hj.imp_right fun hj => (mem_sharing_insert ..).mpr (.inl hj)⟩
  rw [table_insert, hfirst]
  split_ifs <;> rfl

lemma owns_of_insert {m : KeyIndex} {bare : Bool} {form f : List UInt8} {i j : ℕ}
    (h : (m.insert bare form i).Owns f j) : m.Owns f j ∨ f = form ∧ j = i := by
  cases h with
  | inl h =>
    obtain ⟨b,hget⟩ := h
    rw [table_insert] at hget
    split_ifs at hget with hb
    · cases hold : (m.table b).get f with
      | none =>
        rw [hold] at hget
        exact .inr ⟨hb.2,(Option.some.inj hget).symm⟩
      | some first =>
        rw [hold] at hget
        exact .inl (.inl ⟨b,hold.trans hget⟩)
    · exact .inl (.inl ⟨b,hget⟩)
  | inr h =>
    cases (mem_sharing_insert ..).mp h with
    | inl h => exact .inl (.inr h)
    | inr h => exact .inr ⟨h.1,h.2.1⟩

/-- What a list of insertions has built. -/
structure Built (m : KeyIndex) (entries : List Entry) : Prop where
  holds : ∀ e ∈ entries, m.Holds e.bare e.form e.index
  owned : ∀ f j, m.Owns f j → ∃ e ∈ entries, e.form = f ∧ e.index = j
  listed : ∀ b f first, (m.table b).get f = some first → ∃ e ∈ entries, e.bare = b ∧ e.form = f
  lengths : ∀ l, l ∈ m.lengths ↔ ∃ e ∈ entries, e.bare = false ∧ e.form.length = l
  shapes : ∀ s, s ∈ m.bareShapes ↔ ∃ e ∈ entries, e.bare = true ∧ (e.dot,e.form.length) = s

lemma insert_lists (m : KeyIndex) (bare : Bool) (form : List UInt8) (i : ℕ) :
    (m.insert bare form i).keys = m.keys ∧ (m.insert bare form i).lengths = m.lengths ∧
      (m.insert bare form i).bareShapes = m.bareShapes ∧
      (m.insert bare form i).longest = m.longest := by
  unfold insert
  split
  · split_ifs <;> exact ⟨rfl,rfl,rfl,rfl⟩
  · split_ifs <;> exact ⟨rfl,rfl,rfl,rfl⟩

/-- Lists that take in the size of one more form. -/
def noted (m : KeyIndex) (e : Entry) : KeyIndex :=
  if e.bare then { m with bareShapes := m.bareShapes ++ [(e.dot,e.form.length)] }
  else { m with lengths := m.lengths ++ [e.form.length] }

lemma table_noted (m : KeyIndex) (e : Entry) : (m.noted e).table = m.table := by
  unfold noted
  split_ifs <;> rfl

lemma sharing_noted (m : KeyIndex) (e : Entry) : (m.noted e).sharing = m.sharing := by
  unfold noted
  split_ifs <;> rfl

lemma mem_lengths_noted (m : KeyIndex) (e : Entry) (l : ℕ) :
    l ∈ (m.noted e).lengths ↔ l ∈ m.lengths ∨ e.bare = false ∧ e.form.length = l := by
  unfold noted
  split_ifs with h <;> simp [h, eq_comm]

lemma mem_bareShapes_noted (m : KeyIndex) (e : Entry) (s : ℕ × ℕ) :
    s ∈ (m.noted e).bareShapes ↔ s ∈ m.bareShapes ∨ e.bare = true ∧ (e.dot,e.form.length) = s := by
  unfold noted
  split_ifs with h <;> simp [h, eq_comm]

lemma Built.insertEntry {m : KeyIndex} {entries : List Entry} (h : Built m entries) (e : Entry) :
    Built (m.insertEntry e) (entries ++ [e]) := by
  have hlists := insert_lists (m.noted e) e.bare e.form e.index
  change Built ((m.noted e).insert e.bare e.form e.index) _
  constructor
  · intro e' he'
    cases List.mem_append.mp he' with
    | inl he' =>
      have hold := h.holds e' he'
      unfold Holds at hold
      rw [← table_noted m e, ← sharing_noted m e] at hold
      exact Holds.insert hold ..
    | inr he' =>
      obtain rfl := List.mem_singleton.mp he'
      exact holds_insert_self ..
  · intro f j hown
    cases owns_of_insert hown with
    | inl hold =>
      unfold Owns at hold
      rw [table_noted, sharing_noted] at hold
      obtain ⟨e',he',hf⟩ := h.owned f j hold
      exact ⟨e',List.mem_append_left _ he',hf⟩
    | inr hnew => exact ⟨e,by simp,hnew.1.symm,hnew.2.symm⟩
  · intro b f first hget
    rw [table_insert, table_noted] at hget
    split_ifs at hget with hb
    · exact ⟨e,by simp,hb.1.symm,hb.2.symm⟩
    · obtain ⟨e',he',hf⟩ := h.listed b f first hget
      exact ⟨e',List.mem_append_left _ he',hf⟩
  · intro l
    rw [hlists.2.1, mem_lengths_noted, h.lengths]
    simp [or_and_right, exists_or]
  · intro s
    rw [hlists.2.2.1, mem_bareShapes_noted, h.shapes]
    simp [or_and_right, exists_or]

lemma keys_insertEntry (m : KeyIndex) (e : Entry) : (m.insertEntry e).keys = m.keys := by
  change ((m.noted e).insert e.bare e.form e.index).keys = _
  rw [(insert_lists ..).1]
  unfold noted
  split_ifs <;> rfl

lemma Built.foldl {m : KeyIndex} {entries : List Entry} (h : Built m entries) (more : List Entry) :
    Built (more.foldl KeyIndex.insertEntry m) (entries ++ more) ∧
      (more.foldl KeyIndex.insertEntry m).keys = m.keys := by
  induction more generalizing m entries with
  | nil => exact ⟨by rwa [List.append_nil],rfl⟩
  | cons e more ih =>
    obtain ⟨hbuilt,hkeys⟩ := ih (h.insertEntry e)
    rw [List.append_assoc] at hbuilt
    exact ⟨hbuilt,hkeys.trans (keys_insertEntry m e)⟩

lemma foldl_insertKey (keys : List (String × ℕ)) (m : KeyIndex) :
    keys.foldl insertKey m = (keys.flatMap entriesOf).foldl KeyIndex.insertEntry m := by
  induction keys generalizing m with
  | nil => rfl
  | cons key keys ih => rw [List.foldl_cons, ih, List.flatMap_cons, List.foldl_append, insertKey_eq]

lemma le_foldl_max {l : List ℕ} {n k : ℕ} : n ≤ l.foldl max k ↔ n ≤ k ∨ ∃ a ∈ l, n ≤ a := by
  induction l generalizing k with
  | nil => simp
  | cons a l ih =>
    rw [List.foldl_cons, ih, le_max_iff]
    simp [or_assoc]

/-- What the index of some keys knows: which key a form belongs to, and where each form can be
looked for. -/
structure Exact (m : KeyIndex) : Prop where
  forms : ∀ i key, m.keys[i]? = some key → ∀ f ∈ keyForms key, m.Holds false f i
  bare : ∀ i key, m.keys[i]? = some key → ∀ f ∈ bareForms key, m.Holds true f.1 i
  owned : ∀ f i, m.Owns f i → ∃ key, m.keys[i]? = some key ∧
    (f ∈ keyForms key ∨ ∃ d, (f,d) ∈ bareForms key)
  anchored : ∀ f first, m.forms.get f = some first → anchor <+: f ∧ f.length ∈ m.lengths
  dotted : ∀ f first, m.bare.get f = some first →
    ∃ d, f[d]? = some KeyIndex.dot ∧ (d,f.length) ∈ m.bareShapes
  ascending : m.lengths.Pairwise (· < ·)
  longest : (∀ l ∈ m.lengths, l ≤ m.longest) ∧ ∀ s ∈ m.bareShapes, s.2 ≤ m.longest

/-! ### Every form starts with the anchor -/

def letters : List Char := "assets".toList

lemma flatMap_letters {g : Char → List Char} (hg : letters.flatMap g = letters) {t : List Char}
    (h : letters <+: t) : letters <+: t.flatMap g := by
  obtain ⟨rest,rfl⟩ := h
  rw [List.flatMap_append, hg]
  exact List.prefix_append ..

lemma letters_escapedForms {t f : List Char} (h : letters <+: t) (hf : f ∈ escapedForms t) :
    letters <+: f := by
  have hjson : letters <+: t.flatMap escape := flatMap_letters (by decide) h
  have hforms : ∀ form ∈ jsonForms t, letters <+: form := by
    intro form hform
    unfold jsonForms at hform
    have hescaped : ∀ uppercase, letters <+: asciiEscaped (t.flatMap escape) uppercase := by
      intro uppercase
      cases uppercase
      · exact flatMap_letters (by decide) hjson
      · exact flatMap_letters (by decide) hjson
    dsimp only at hform
    split_ifs at hform
    · rw [List.mem_singleton.mp hform]
      exact hjson
    · simp only [List.mem_cons, List.not_mem_nil, or_false] at hform
      rcases hform with rfl | rfl | rfl
      · exact hjson
      · exact hescaped false
      · exact hescaped true
  simp only [escapedForms, List.mem_cons, List.mem_flatMap, List.not_mem_nil, or_false] at hf
  rcases hf with rfl | ⟨form,hform,rfl | rfl⟩
  · exact h
  · exact flatMap_letters (by decide) (hforms form hform)
  · exact hforms f hform

lemma utf8_eq_encode (t : List Char) : utf8 t = Utf8.encode t := by
  unfold utf8 Utf8.encode
  rw [String.toByteArray_ofList]
  simp [List.utf8Encode]

lemma anchor_keyForms {key : String} (h : ownedAssetKeyPrefix <+: key.toList) {f : List UInt8}
    (hf : f ∈ keyForms key) : anchor <+: f := by
  obtain ⟨form,hform,rfl⟩ := List.mem_map.mp hf
  have hkey : letters <+: key.toList := List.IsPrefix.trans (by decide) h
  have hletters : letters <+: form := by
    cases List.mem_append.mp hform with
    | inl hform => exact letters_escapedForms hkey hform
    | inr hform => exact letters_escapedForms (flatMap_letters (by decide) hkey) hform
  obtain ⟨rest,rfl⟩ := hletters
  rw [anchor, utf8_eq_encode, utf8_eq_encode, Utf8.encode_append]
  exact List.prefix_append ..

lemma rfind_eq_some {b : UInt8} {bytes : List UInt8} {i : ℕ} (h : rfind b bytes = some i) :
    bytes[i]? = some b := by
  induction bytes generalizing i with
  | nil => cases h
  | cons a bytes ih =>
    unfold rfind at h
    cases hrest : rfind b bytes with
    | some j =>
      rw [hrest] at h
      obtain rfl := Option.some.inj h
      exact ih hrest
    | none =>
      rw [hrest] at h
      dsimp only at h
      split_ifs at h with hb
      obtain rfl := Option.some.inj h
      rw [hb]
      rfl

lemma dot_bareForms {key : String} {f : List UInt8 × ℕ} (h : f ∈ bareForms key) :
    f.1[f.2]? = some KeyIndex.dot := by
  unfold bareForms at h
  split_ifs at h
  · obtain ⟨form,-,hmap⟩ := List.mem_filterMap.mp h
    obtain ⟨i,hi,rfl⟩ := Option.map_eq_some_iff.mp hmap
    exact rfind_eq_some hi
  · cases h

lemma mem_entries {keys : List String} {e : Entry} : e ∈ keys.zipIdx.flatMap entriesOf ↔
    ∃ key, keys[e.index]? = some key ∧
      (e.bare = false ∧ e.dot = 0 ∧ e.form ∈ keyForms key ∨
        e.bare = true ∧ (e.form,e.dot) ∈ bareForms key) := by
  obtain ⟨bare,form,d,i⟩ := e
  simp only [List.mem_flatMap, Prod.exists, List.mem_zipIdx_iff_getElem?, entriesOf,
    List.mem_append, List.mem_map]
  constructor
  · rintro ⟨key,j,hkey,h⟩
    rcases h with ⟨f,hf,he⟩ | ⟨f,c,hf,he⟩
    · cases he
      exact ⟨key,hkey,.inl ⟨rfl,rfl,hf⟩⟩
    · cases he
      exact ⟨key,hkey,.inr ⟨rfl,hf⟩⟩
  · rintro ⟨key,hkey,h⟩
    refine ⟨key,i,hkey,?_⟩
    rcases h with ⟨rfl,rfl,hf⟩ | ⟨rfl,hf⟩
    · exact .inl ⟨form,hf,rfl⟩
    · exact .inr ⟨form,d,hf,rfl⟩

theorem exact_ofKeys {keys : List String} (hkeys : ∀ k ∈ keys, ownedAssetKeyPrefix <+: k.toList) :
    Exact (ofKeys keys) ∧ (ofKeys keys).keys = ordered keys := by
  have hempty : Built ⟨ordered keys,.empty,.empty,.empty,[],[],0⟩ [] := by
    constructor
    · simp
    · rintro f j (⟨b,h⟩ | h)
      · cases b <;> cases h
      · cases h
    · intro b f first h
      cases b <;> cases h
    · simp
    · simp
  obtain ⟨hbuilt,hnames⟩ := hempty.foldl ((ordered keys).zipIdx.flatMap entriesOf)
  rw [← foldl_insertKey, List.nil_append] at hbuilt
  rw [← foldl_insertKey] at hnames
  have hk : (ofKeys keys).keys = ordered keys := hnames
  have howned : ∀ (i : ℕ) (key : String), (ordered keys)[i]? = some key → ownedAssetKeyPrefix <+: key.toList := by
    intro i key h
    exact hkeys key (mem_ordered.mp (List.mem_of_getElem? h))
  refine ⟨⟨?_,?_,?_,?_,?_,ordered_ascending _,?_⟩,hk⟩
  · intro i key hkey f hf
    rw [hk] at hkey
    exact hbuilt.holds ⟨false,f,0,i⟩ (mem_entries.mpr ⟨key,hkey,.inl ⟨rfl,rfl,hf⟩⟩)
  · intro i key hkey f hf
    rw [hk] at hkey
    exact hbuilt.holds ⟨true,f.1,f.2,i⟩ (mem_entries.mpr ⟨key,hkey,.inr ⟨rfl,hf⟩⟩)
  · intro f i hown
    obtain ⟨e,he,rfl,rfl⟩ := hbuilt.owned f i hown
    obtain ⟨key,hkey,h⟩ := mem_entries.mp he
    rw [hk]
    refine ⟨key,hkey,?_⟩
    cases h with
    | inl h => exact .inl h.2.2
    | inr h => exact .inr ⟨e.dot,h.2⟩
  · intro f first hget
    obtain ⟨e,he,hb,rfl⟩ := hbuilt.listed false f first hget
    obtain ⟨key,hkey,h⟩ := mem_entries.mp he
    refine ⟨?_,mem_ordered.mpr ((hbuilt.lengths _).mpr ⟨e,he,hb,rfl⟩)⟩
    cases h with
    | inl h => exact anchor_keyForms (howned _ _ hkey) h.2.2
    | inr h => rw [hb] at h; cases h.1
  · intro f first hget
    obtain ⟨e,he,hb,rfl⟩ := hbuilt.listed true f first hget
    obtain ⟨key,hkey,h⟩ := mem_entries.mp he
    refine ⟨e.dot,?_,?_⟩
    · cases h with
      | inl h => rw [hb] at h; cases h.1
      | inr h => exact dot_bareForms h.2
    · have hshape := (hbuilt.shapes (e.dot,e.form.length)).mpr ⟨e,he,hb,rfl⟩
      exact List.mem_map.mpr ⟨toLex (e.dot,e.form.length),
        mem_ordered.mpr (List.mem_map.mpr ⟨_,hshape,rfl⟩),rfl⟩
  · constructor
    · intro l hl
      refine le_foldl_max.mpr (.inr ⟨l,List.mem_append_left _ (mem_ordered.mp hl),le_rfl⟩)
    · intro s hs
      obtain ⟨t,ht,rfl⟩ := List.mem_map.mp hs
      obtain ⟨u,hu,rfl⟩ := List.mem_map.mp (mem_ordered.mp ht)
      exact le_foldl_max.mpr (.inr ⟨u.2,
        List.mem_append_right _ (List.mem_map.mpr ⟨u,hu,rfl⟩),le_rfl⟩)

end KeyIndex

end RisuNest.Storage.Orphans
