import RisuNest.Wire.SegmentTree

/-! How many indexes a stream can have. Where one chunk is repeated and every index has the fewest
parts, `build` makes more than `restore` visits (`payload.rs`). -/
namespace RisuNest.Wire.Segments

/-! ### Equal parts -/

lemma foldl_addPart_short (groups : List (List Part)) {current rest : List Part}
    (h : current.length + rest.length < 16) :
    rest.foldl addPart (groups,current) = (groups,current ++ rest) := by
  induction rest generalizing current with
  | nil => rw [List.append_nil]; rfl
  | cons part rest ih =>
    rw [List.length_cons] at h
    have hlen : (current ++ [part]).length = current.length + 1 := List.length_append
    have hopen : addPart (groups,current) part = (groups,current ++ [part]) := by
      unfold addPart
      dsimp only
      rw [if_neg]
      rintro (hc | ⟨hc,-⟩)
      · omega
      · omega
    rw [List.foldl_cons, hopen, ih (by omega), List.append_assoc]
    rfl

lemma foldl_addPart_sixteen {p : Part} (hp : indexBoundary p.hash = true)
    (groups : List (List Part)) :
    (List.replicate 16 p).foldl addPart (groups,[]) = (groups ++ [List.replicate 16 p],[]) := by
  have hsplit : List.replicate 16 p = List.replicate 15 p ++ [p] := List.replicate_succ'
  have hclose : addPart (groups,List.replicate 15 p) p = (groups ++ [List.replicate 16 p],[]) := by
    unfold addPart
    dsimp only
    rw [← hsplit, if_pos]
    exact .inr ⟨by simp,hp⟩
  rw [hsplit, List.foldl_append, foldl_addPart_short groups (by simp), List.nil_append]
  rw [← hsplit]
  exact hclose

lemma foldl_addPart_replicate {p : Part} (hp : indexBoundary p.hash = true) (n : ℕ) :
    (List.replicate (16*n) p).foldl addPart ([],[]) =
      (List.replicate n (List.replicate 16 p),[]) := by
  induction n with
  | zero => rfl
  | succ n ih =>
    rw [Nat.mul_succ, List.replicate_add, List.foldl_append, ih, foldl_addPart_sixteen hp,
      ← List.replicate_succ']

lemma groupParts_replicate {p : Part} (hp : indexBoundary p.hash = true) (n : ℕ)
    {rest : List Part} (h : rest.length < 16) :
    groupParts (List.replicate (16*n) p ++ rest) =
      List.replicate n (List.replicate 16 p) ++ if rest = [] then [] else [rest] := by
  unfold groupParts
  rw [List.foldl_append, foldl_addPart_replicate hp, foldl_addPart_short _ (by simpa using h)]
  dsimp only
  rw [List.nil_append]
  split_ifs
  · rw [List.append_nil]
  · rfl

lemma groupParts_of_length_le {parts : List Part} (hne : parts ≠ []) (h : parts.length ≤ 16) :
    groupParts parts = [parts] := by
  obtain ⟨init,last,rfl⟩ := (List.eq_nil_or_concat' parts).resolve_left hne
  rw [List.length_append, List.length_singleton] at h
  have hinit : ([] : List Part).length + init.length < 16 := by
    rw [List.length_nil]
    omega
  unfold groupParts
  rw [List.foldl_append, foldl_addPart_short [] hinit, List.nil_append, List.foldl_cons,
    List.foldl_nil, addPart]
  by_cases hfull : (init ++ [last]).length = 64 ∨
      16 ≤ (init ++ [last]).length ∧ indexBoundary last.hash = true
  · dsimp only
    rw [List.nil_append, if_pos hfull]
    rfl
  · dsimp only
    rw [if_neg hfull]
    exact if_neg (by simp)

section
variable {cr : Crates} {levels : ℕ} {branches : Bool} {parts : List Part}

lemma indexesOver_of_groups {groups : List (List Part)} (h : groupParts parts = groups)
    (hmany : groups.length ≠ 1) : indexesOver cr (levels+1) branches parts =
      groups.map (indexBytes branches) ++
        indexesOver cr levels true (groups.map (indexPart cr branches)) := by
  rw [indexesOver, h, if_neg hmany]

lemma indexesOver_of_length_le (hne : parts ≠ []) (h : parts.length ≤ 16) :
    indexesOver cr (levels+1) branches parts = [indexBytes branches parts] := by
  rw [indexesOver, groupParts_of_length_le hne h, if_pos List.length_singleton]
  rfl

lemma indexesOver_replicate {p : Part} (hp : indexBoundary p.hash = true) {n : ℕ} (hn : 2 ≤ n) :
    indexesOver cr (levels+1) branches (List.replicate (16*n) p) =
      List.replicate n (indexBytes branches (List.replicate 16 p)) ++
        indexesOver cr levels true (List.replicate n (indexPart cr branches (List.replicate 16 p))) := by
  have hg := @groupParts_replicate p hp n [] (Nat.zero_lt_succ _)
  rw [List.append_nil, if_pos rfl, List.append_nil] at hg
  rw [indexesOver_of_groups hg (by rw [List.length_replicate]; omega), List.map_replicate,
    List.map_replicate]

lemma indexesOver_replicate_append {p : Part} (hp : indexBoundary p.hash = true) {n : ℕ}
    (hn : 1 ≤ n) {rest : List Part} (hne : rest ≠ []) (hshort : rest.length < 16) :
    indexesOver cr (levels+1) branches (List.replicate (16*n) p ++ rest) =
      (List.replicate n (indexBytes branches (List.replicate 16 p)) ++ [indexBytes branches rest]) ++
        indexesOver cr levels true (List.replicate n (indexPart cr branches (List.replicate 16 p)) ++
          [indexPart cr branches rest]) := by
  have hg := groupParts_replicate hp n hshort
  rw [if_neg hne] at hg
  rw [indexesOver_of_groups hg (by
    rw [List.length_append, List.length_replicate, List.length_singleton]
    omega), List.map_append, List.map_append, List.map_replicate, List.map_replicate]
  rfl

end

/-! ### Equal chunks -/

namespace Scanner

/-- What is left of a scanner between two chunks. -/
def rest (s : Scanner) : Scanner := { s with bytes := [] }

lemma bytes_foldl_push (s : Scanner) (l : List UInt8) : (l.foldl push s).bytes = s.bytes ++ l := by
  induction l generalizing s with
  | nil => rw [List.append_nil]; rfl
  | cons b l ih =>
    rw [List.foldl_cons, ih, bytes_push, List.append_assoc]
    rfl

lemma rest_foldl_push (s : Scanner) (l : List UInt8) :
    (l.foldl push s).rest = (l.foldl push s.rest).rest := by
  induction l generalizing s with
  | nil => rfl
  | cons b l ih =>
    rw [List.foldl_cons, List.foldl_cons, ih, ih (s.rest.push b)]
    rfl

end Scanner

lemma foldl_cutByte_short (chunks : List (List UInt8)) {s : Scanner} {l : List UInt8}
    (h : s.bytes.length + l.length < minChunk) :
    l.foldl cutByte (chunks,s) = (chunks,l.foldl Scanner.push s) := by
  induction l generalizing s with
  | nil => rfl
  | cons b l ih =>
    rw [List.length_cons] at h
    have hlen : (s.push b).bytes.length = s.bytes.length + 1 := by
      rw [bytes_push, List.length_append, List.length_singleton]
    have hopen : (s.push b).full = false := by
      change _ < 256*1024 at h
      unfold Scanner.full
      rw [Bool.or_eq_false_iff, Bool.and_eq_false_iff, decide_eq_false_iff_not,
        decide_eq_false_iff_not]
      change ¬ _ = 4*1024*1024 ∧ (¬ 256*1024 ≤ _ ∨ _)
      exact ⟨by omega,.inl (by omega)⟩
    have hcut : cutByte (chunks,s) b = (chunks,s.push b) := by
      rw [cutByte, hopen]
      rfl
    rw [List.foldl_cons, hcut, ih (by omega)]
    rfl

/-- A chunk of the least length that ends itself. -/
structure Ends (chunk : List UInt8) (s t : Scanner) : Prop where
  length : chunk.length = minChunk
  started : s.bytes = []
  left : (chunk.foldl Scanner.push s).rest = t
  rolled : t.rolling &&& 0x1fffff = 0x123456

lemma Ends.cut {chunk : List UInt8} {s t : Scanner} (h : Ends chunk s t)
    (chunks : List (List UInt8)) : chunk.foldl cutByte (chunks,s) = (chunks ++ [chunk],t) := by
  have hlen := h.length
  have hne : chunk ≠ [] := by
    rintro rfl
    exact absurd hlen (by decide)
  have hbytes := Scanner.bytes_foldl_push s chunk
  rw [h.started, List.nil_append] at hbytes
  have hrolling : (chunk.foldl Scanner.push s).rolling = t.rolling := by
    rw [← h.left]
    rfl
  have hfull : (chunk.foldl Scanner.push s).full = true := by
    unfold Scanner.full
    rw [hbytes, hlen, hrolling, h.rolled]
    decide
  obtain ⟨init,last,rfl⟩ := (List.eq_nil_or_concat' chunk).resolve_left hne
  rw [List.length_append, List.length_singleton] at hlen
  have hinit : s.bytes.length + init.length < minChunk := by
    rw [h.started, List.length_nil]
    omega
  rw [List.foldl_append, List.foldl_cons, List.foldl_nil] at hfull hbytes
  have hleft := h.left
  rw [List.foldl_append, List.foldl_cons, List.foldl_nil] at hleft
  rw [List.foldl_append, foldl_cutByte_short chunks hinit, List.foldl_cons, List.foldl_nil, cutByte]
  dsimp only
  rw [hfull, if_pos rfl, hbytes]
  exact congrArg (Prod.mk _) hleft

/-- A stream that repeats such a chunk is cut into it. -/
theorem segments_replicate {chunk : List UInt8} {t : Scanner} (h : Ends chunk .start t)
    (hnext : Ends chunk t t) {n : ℕ} (hn : n ≠ 0) :
    (cut (List.replicate n chunk).flatten).1 = List.replicate n chunk ∧
      segments (List.replicate n chunk).flatten = List.replicate n chunk := by
  have hcut : ∀ n, cut (List.replicate (n+1) chunk).flatten = (List.replicate (n+1) chunk,t) := by
    intro n
    induction n with
    | zero =>
      change cut (chunk ++ []) = _
      rw [List.append_nil]
      exact h.cut []
    | succ n ih =>
      rw [List.replicate_succ', List.flatten_concat]
      unfold cut at ih ⊢
      rw [List.foldl_append, ih, hnext.cut]
  obtain ⟨n, rfl⟩ := Nat.exists_eq_succ_of_ne_zero hn
  unfold segments
  dsimp only
  rw [hcut, hnext.started]
  refine ⟨rfl,if_neg ?_⟩
  simp

/-! ### Known texts -/

namespace Index

/-- An index as the reader of JSON gives it. -/
def asJson (i : Index) : Json :=
  .obj [("kind",.str (if i.isChunks then "chunks" else "branches")),
    ("parts",.arr (i.parts.map fun p => .obj [("hash",.str p.hash),("size",.str p.size.repr)]))]

lemma strict_asJson (i : Index) : Json.strict i.asJson = some i.toControl := by
  have hpart : ∀ p : Part, Json.strict (.obj [("hash",.str p.hash),("size",.str p.size.repr)]) =
      some p.toControl := by
    intro p
    simp [Json.strict, Json.strictMembers, Part.toControl]
  have hparts : ∀ l : List Part, Json.strictItems (l.map fun p =>
      .obj [("hash",.str p.hash),("size",.str p.size.repr)]) = some (l.map Part.toControl) := by
    intro l
    induction l with
    | nil => rfl
    | cons p l ih =>
      rw [List.map_cons, Json.strictItems, hpart, ih]
      rfl
  simp [asJson, toControl, Json.strict, Json.strictMembers, hparts]

lemma toControl_injective : Function.Injective toControl := by
  have hpart : Function.Injective Part.toControl := by
    intro p q h
    have hh := congrArg Part.read h
    cases p
    cases q
    simp only [Part.toControl, Control.obj.injEq, List.cons.injEq, Prod.mk.injEq, Control.str.injEq,
      true_and, and_true] at h
    rw [h.1, Decimal.repr_injective h.2]
  intro i j h
  cases i <;> cases j <;>
    simp [toControl, isChunks, parts, List.map_inj_right hpart] at h ⊢ <;> exact h

lemma head_encode (i : Index) : i.toControl.encode.head? = some 123 := by
  change (utf8 (['{'] ++ _)).head? = some 123
  unfold utf8
  rw [String.ofList_append, String.toByteArray_append, ByteArray.data_append, Array.toList_append]
  rfl

end Index

/-- Third-party functions on some chunks and indexes, with their hashes. -/
def known (chunks : List (List UInt8 × String)) (indexes : List (Index × String)) : Crates where
  sha256 := fun b =>
    (((chunks ++ indexes.map fun e => (e.1.toControl.encode,e.2)).find? fun e => e.1 = b).map
      Prod.snd).getD "0000000000000000000000000000000000000000000000000000000000000000"
  base64Encode := fun _ => ""
  base64Decode := fun _ => none
  readJson := fun b => (indexes.find? fun e => e.1.toControl.encode = b).map fun e => e.1.asJson
  formatNumber := fun n => toString n.num

/-- The texts have hashes of their own. -/
structure Known (chunks : List (List UInt8 × String)) (indexes : List (Index × String)) : Prop where
  distinctChunks : (chunks.map Prod.fst).Nodup
  distinctIndexes : (indexes.map Prod.fst).Nodup
  plain : ∀ c ∈ chunks, c.1.head? ≠ some 123
  hashes : (chunks.map Prod.snd ++ indexes.map Prod.snd).Nodup
  valid : ∀ h ∈ chunks.map Prod.snd ++ indexes.map Prod.snd, validateHash h = .ok ()

namespace Known
variable {chunks : List (List UInt8 × String)} {indexes : List (Index × String)}

/-- All texts with their hashes. -/
def texts (chunks : List (List UInt8 × String)) (indexes : List (Index × String)) :
    List (List UInt8 × String) :=
  chunks ++ indexes.map fun e => (e.1.toControl.encode,e.2)

lemma nodup_texts (h : Known chunks indexes) : ((texts chunks indexes).map Prod.fst).Nodup := by
  unfold texts
  rw [List.map_append, List.map_map]
  change (_ ++ indexes.map ((fun i => i.toControl.encode) ∘ Prod.fst)).Nodup
  rw [← List.map_map, List.nodup_append']
  refine ⟨h.distinctChunks,h.distinctIndexes.map fun i j hij =>
    Index.toControl_injective (Control.encode_injective hij),fun b hb hb' => ?_⟩
  obtain ⟨c,hc,rfl⟩ := List.mem_map.mp hb
  obtain ⟨i,-,hi⟩ := List.mem_map.mp hb'
  exact h.plain c hc (hi ▸ i.head_encode)

lemma sha256_eq (h : Known chunks indexes) {e : List UInt8 × String}
    (he : e ∈ texts chunks indexes) : (known chunks indexes).sha256 e.1 = e.2 := by
  change (((texts chunks indexes).find? fun d => d.1 = e.1).map Prod.snd).getD _ = e.2
  cases hf : (texts chunks indexes).find? fun d => d.1 = e.1 with
  | none => exact absurd (List.find?_eq_none.mp hf e he) (by simp)
  | some d =>
    have hd : d.1 = e.1 := by simpa using List.find?_some hf
    rw [List.inj_on_of_nodup_map h.nodup_texts (List.mem_of_find?_eq_some hf) he hd]
    rfl

lemma hashes_texts (h : Known chunks indexes) : ((texts chunks indexes).map Prod.snd).Nodup := by
  unfold texts
  rw [List.map_append, List.map_map]
  exact h.hashes

lemma validateHash_sha256 (h : Known chunks indexes) (b : List UInt8) :
    validateHash ((known chunks indexes).sha256 b) = .ok () := by
  change validateHash ((((texts chunks indexes).find? fun d => d.1 = b).map Prod.snd).getD _) = _
  cases hf : (texts chunks indexes).find? fun d => d.1 = b with
  | none => exact validateHash_ofList (by decide)
  | some d =>
    have hd := List.mem_map_of_mem (f := Prod.snd) (List.mem_of_find?_eq_some hf)
    unfold texts at hd
    rw [List.map_append, List.map_map] at hd
    exact h.valid _ hd

lemma collisionFree (h : Known chunks indexes) :
    CollisionFree (known chunks indexes) {b | b ∈ (texts chunks indexes).map Prod.fst} := by
  intro b hb c hc hbc
  obtain ⟨d,hd,rfl⟩ := List.mem_map.mp hb
  obtain ⟨e,he,rfl⟩ := List.mem_map.mp hc
  rw [h.sha256_eq hd, h.sha256_eq he] at hbc
  rw [List.inj_on_of_nodup_map h.hashes_texts hd he hbc]

lemma reads (h : Known chunks indexes) {i : Index}
    (hi : i.toControl.encode ∈ (texts chunks indexes).map Prod.fst) :
    ((known chunks indexes).readJson i.toControl.encode).bind Json.strict = some i.toControl := by
  have hmem : ∃ e ∈ indexes, e.1 = i := by
    unfold texts at hi
    rw [List.map_append, List.mem_append, List.map_map] at hi
    obtain hi | hi := hi
    · obtain ⟨c,hc,he⟩ := List.mem_map.mp hi
      exact absurd (he ▸ i.head_encode) (h.plain c hc)
    · obtain ⟨e,he,heq⟩ := List.mem_map.mp hi
      exact ⟨e,he,Index.toControl_injective (Control.encode_injective heq)⟩
  obtain ⟨e,he,rfl⟩ := hmem
  unfold known
  dsimp only
  cases hf : indexes.find? fun d => d.1.toControl.encode = e.1.toControl.encode with
  | none => exact absurd (List.find?_eq_none.mp hf e he) (by simp)
  | some d =>
    have hd : d.1.toControl.encode = e.1.toControl.encode := by simpa using List.find?_some hf
    rw [← Index.toControl_injective (Control.encode_injective hd)]
    exact d.1.strict_asJson

lemma chunkPart_eq (h : Known chunks indexes) {c : List UInt8} {p : Part}
    (hm : (c,p.hash) ∈ chunks) (hs : c.length = p.size) :
    chunkPart (known chunks indexes) c = p ∧ c ∈ (texts chunks indexes).map Prod.fst := by
  have hmem : (c,p.hash) ∈ texts chunks indexes := List.mem_append_left _ hm
  refine ⟨?_,List.mem_map.mpr ⟨_,hmem,rfl⟩⟩
  unfold chunkPart
  rw [hs, hash, h.sha256_eq hmem]

lemma indexPart_eq (h : Known chunks indexes) {branches : Bool} {parts : List Part} {p : Part}
    (hm : (Index.ofParts branches parts,p.hash) ∈ indexes)
    (hs : (parts.map Part.size).sum = p.size) :
    indexPart (known chunks indexes) branches parts = p ∧
      indexBytes branches parts ∈ (texts chunks indexes).map Prod.fst := by
  have hmem : (indexBytes branches parts,p.hash) ∈ texts chunks indexes :=
    List.mem_append_right _ (List.mem_map.mpr ⟨_,hm,rfl⟩)
  refine ⟨?_,List.mem_map.mpr ⟨_,hmem,rfl⟩⟩
  unfold indexPart
  rw [hs, hash, h.sha256_eq hmem]

end Known

/-- A payload that was built is restored from what was saved, unless its chunks and indexes are
more than `restore` visits. -/
theorem restore_undoes_build {cr : Crates} {texts : Set (List UInt8)}
    (hhex : ∀ b, validateHash (cr.sha256 b) = .ok ()) (free : CollisionFree cr texts)
    (hread : ∀ i : Index, i.toControl.encode ∈ texts →
      (cr.readJson i.toControl.encode).bind Json.strict = some i.toControl)
    {save : Saver} {reads : List (Option (List UInt8))} {payload : Payload}
    {saved : List (List UInt8)} (h : build cr save reads = .ok (payload,saved))
    (htexts : ∀ b ∈ saved, b ∈ texts) :
    restore cr (loadSaved cr saved) (fun _ => .ok ()) payload = .ok (stream reads) ↔
      (objects cr (stream reads)).length ≤ maxVisits := by
  obtain ⟨-,root,-,hroot⟩ := build_eq_ok h
  have hsaved : saved = objects cr (stream reads) := buildIndex_saved hroot
  rw [hsaved] at htexts
  rw [(restore_built hhex free hread h htexts).2]
  split_ifs with hv
  · exact iff_of_true rfl hv
  · exact iff_of_false (fun he => by cases he) hv

def sampleText : List UInt8 := [104,105]

def sampleTextHash : String := "8f434346648f6b96df89dda901c5176b10a6d83961dd3c1ac88b59b2dc327aa4"

def sampleTextIndex : Index := .chunks [⟨sampleTextHash,2⟩]

def sampleTextRoot : String := "e002aa9f625de9b9691e6a75404d6e4376f851a3e90a881bd9b79972df9d52c5"

lemma known_sampleText :
    Known [(sampleText,sampleTextHash)] [(sampleTextIndex,sampleTextRoot)] where
  distinctChunks := List.nodup_singleton _
  distinctIndexes := List.nodup_singleton _
  plain := by
    intro c hc
    rw [List.mem_singleton.mp hc]
    decide
  hashes := by decide
  valid := by
    intro h hh
    obtain rfl | hh := List.mem_cons.mp hh
    · exact validateHash_ofList (by decide)
    · rw [List.mem_singleton.mp hh]
      exact validateHash_ofList (by decide)

theorem restore_undoes_build_text :
    restore (known [(sampleText,sampleTextHash)] [(sampleTextIndex,sampleTextRoot)])
      (loadSaved (known [(sampleText,sampleTextHash)] [(sampleTextIndex,sampleTextRoot)])
        [sampleText,sampleTextIndex.toControl.encode])
      (fun _ => .ok ()) ⟨sampleTextHash,2,sampleTextRoot⟩ = .ok sampleText := by
  have built : build (known [(sampleText,sampleTextHash)] [(sampleTextIndex,sampleTextRoot)])
      (fun _ => .ok ()) [some sampleText] = .ok (⟨sampleTextHash,2,sampleTextRoot⟩,
        [sampleText,sampleTextIndex.toControl.encode]) := by decide +kernel
  have hk := known_sampleText
  exact (restore_undoes_build hk.validateHash_sha256 hk.collisionFree (fun _ => hk.reads) built
    (fun _ hb => hb)).mpr (by decide)

/-! ### A stream that is built and not restored -/

/-- The last bytes of a chunk of zeros, on which the rolling hash ends it. -/
def lastBytes : List UInt8 := [22,227,192,176,237]

def zeroChunk : List UInt8 := List.replicate 262139 0 ++ lastBytes

/-- A scanner that has only seen zeros for a while. -/
def quiet (offset : ℕ) : Scanner := ⟨[],0,List.replicate 64 0,offset⟩

/-- The scanner behind such a chunk. -/
def rolled : Scanner := ⟨[],0x173ef23456,List.replicate 59 0 ++ lastBytes,0⟩

lemma rest_push_zero {offset : ℕ} (h : offset < 64) :
    ((quiet offset).push 0).rest = quiet ((offset + 1) % 64) := by
  have hold : (List.replicate 64 (0 : UInt8)).getD offset 0 = 0 := by
    rw [List.getD_eq_getElem?_getD, List.getElem?_replicate, if_pos h]
    rfl
  unfold quiet Scanner.push Scanner.rest
  dsimp only
  rw [hold, List.set_replicate_self]
  simp

lemma rest_zeros (n : ℕ) {offset : ℕ} (h : offset < 64) :
    ((List.replicate n 0).foldl Scanner.push (quiet offset)).rest = quiet ((offset + n) % 64) := by
  induction n generalizing offset with
  | zero =>
    rw [Nat.add_zero, Nat.mod_eq_of_lt h]
    rfl
  | succ n ih =>
    rw [List.replicate_succ, List.foldl_cons, Scanner.rest_foldl_push, rest_push_zero h,
      ih (Nat.mod_lt _ (by decide)), Nat.mod_add_mod, Nat.add_right_comm]
    rfl

lemma rest_zeroChunk {s : Scanner}
    (h : ((List.replicate 64 0).foldl Scanner.push s).rest = quiet 0) :
    (zeroChunk.foldl Scanner.push s).rest = rolled := by
  have hsplit : zeroChunk = List.replicate 64 0 ++ (List.replicate 262075 0 ++ lastBytes) := by
    rw [← List.append_assoc, ← List.replicate_add]
    rfl
  have hlast : (lastBytes.foldl Scanner.push (quiet 59)).rest = rolled := by decide +kernel
  rw [hsplit, List.foldl_append, Scanner.rest_foldl_push, h, List.foldl_append,
    Scanner.rest_foldl_push, rest_zeros 262075 (by decide)]
  exact hlast

lemma length_zeroChunk : zeroChunk.length = 262144 := by
  rw [zeroChunk, List.length_append, List.length_replicate]
  rfl

lemma ends_zeroChunk : Ends zeroChunk .start rolled ∧ Ends zeroChunk rolled rolled := by
  have hrolled : rolled.rolling &&& 0x1fffff = 0x123456 := by decide
  refine ⟨⟨length_zeroChunk,rfl,rest_zeroChunk ?_,hrolled⟩,
    ⟨length_zeroChunk,rfl,rest_zeroChunk ?_,hrolled⟩⟩
  · exact rest_zeros 64 (by decide)
  · decide +kernel

lemma indexBoundary_ofList {l : List Char}
    (h : ((hexByte? (l.take 2)).any fun byte => byte % 32 = 0) = true) :
    indexBoundary (String.ofList l) = true := by
  rw [indexBoundary, String.toList_ofList]
  exact h

def part0 : Part := ⟨"2093ebbc6b074f2cf8b9889110cfd53a44d4b7c7af0c25ff7a39e216056afa72",262144⟩
def part1 : Part := ⟨"e0dda759ef26c71a39035542dbdcdf2a34693e4bb56428783715045949c95c33",4194304⟩
def part2 : Part := ⟨"a011da7ce4f8bfbe5fe7a23ea0020ec868b161f07fd28ddba2226b9c3d75679a",67108864⟩
def last2 : Part := ⟨"1283f46da979a42dc8bf9a2d720c1442af80fd578fc5118cba4d5058972feb0a",16777216⟩
def part3 : Part := ⟨"c055dda9ec59d0ad8e389a93efab695ed7c3108bc7fdb236f332d731be192798",1073741824⟩
def last3 : Part := ⟨"859c2d165000beb6dbe960acb1fff0ac24d9a70b1e2f3aabdde5418b5ca85d50",150994944⟩
def part4 : Part := ⟨"3de54926c0dbd6ca3f174c03af3d146d61618031a26e40e71a95256193e106c5",17179869184⟩
def last4 : Part := ⟨"0569b0600b076d76e497a350b429b83c2489f27367815188d7d4c6b73d72540e",4445962240⟩
def topHash : String := "d6a4e5c94250eab9e78c9273dfd3302cf318a9de5489f799f4c367e926d150ec"

/-- The indexes over a million such chunks, with their hashes. -/
def zeroIndexes : List (Index × String) := [
  (.chunks (List.replicate 16 part0),part1.hash),
  (.branches (List.replicate 16 part1),part2.hash),
  (.branches (List.replicate 4 part1),last2.hash),
  (.branches (List.replicate 16 part2),part3.hash),
  (.branches (List.replicate 2 part2 ++ [last2]),last3.hash),
  (.branches (List.replicate 16 part3),part4.hash),
  (.branches (List.replicate 4 part3 ++ [last3]),last4.hash),
  (.branches (List.replicate 15 part4 ++ [last4]),topHash)]

def zeroStream : List UInt8 := (List.replicate 1000000 zeroChunk).flatten

def zeroChunks : List (List UInt8 × String) := [(zeroChunk,part0.hash),
  (zeroStream,"3b47079486c6cb57640d6471178229d79f18c540e0ca0d212265e8223c97c806")]

lemma length_zeroStream : zeroStream.length = 262144000000 := by
  rw [zeroStream, List.length_flatten, List.map_replicate, List.sum_replicate_nat, length_zeroChunk]

lemma known_zeros : Known zeroChunks zeroIndexes where
  distinctChunks := by
    change [zeroChunk,zeroStream].Nodup
    rw [List.nodup_cons, List.mem_singleton]
    refine ⟨fun h => ?_,List.nodup_singleton _⟩
    have hlen := congrArg List.length h
    rw [length_zeroChunk, length_zeroStream] at hlen
    omega
  distinctIndexes := by decide
  plain := by
    have hhead : zeroChunk.head? = some 0 := by
      rw [zeroChunk, List.replicate_succ]
      rfl
    intro c hc
    obtain rfl | hc := List.mem_cons.mp hc
    · change zeroChunk.head? ≠ _
      rw [hhead]
      decide
    · rw [List.mem_singleton.mp hc]
      change zeroStream.head? ≠ _
      rw [zeroStream, List.replicate_succ, List.flatten_cons, List.head?_append, hhead]
      decide
  hashes := by decide
  valid := by
    change ∀ h ∈ [part0.hash,"3b47079486c6cb57640d6471178229d79f18c540e0ca0d212265e8223c97c806",
      part1.hash,part2.hash,last2.hash,part3.hash,last3.hash,part4.hash,last4.hash,topHash],
        validateHash h = .ok ()
    simp only [List.forall_mem_cons]
    refine ⟨?_,?_,?_,?_,?_,?_,?_,?_,?_,?_,List.forall_mem_nil _⟩
    all_goals exact validateHash_ofList (by decide)

lemma boundaries_zeros : indexBoundary part0.hash = true ∧ indexBoundary part1.hash = true ∧
    indexBoundary part2.hash = true ∧ indexBoundary part3.hash = true := by
  refine ⟨?_,?_,?_,?_⟩
  all_goals exact indexBoundary_ofList (by decide)

/-- The stream in pieces that fit the buffer. -/
def zeroPieces : List (List UInt8) := (List.replicate 1000000
  (List.replicate 3 (List.replicate 65536 0) ++ [List.replicate 65531 0 ++ lastBytes])).flatten

lemma stream_map_some {pieces : List (List UInt8)} (h : ∀ p ∈ pieces, p ≠ []) :
    stream (pieces.map some) = pieces.flatten := by
  induction pieces with
  | nil => rfl
  | cons piece pieces ih =>
    rw [List.forall_mem_cons] at h
    obtain ⟨byte, piece, rfl⟩ := List.exists_cons_of_ne_nil h.1
    rw [List.map_cons, List.flatten_cons, ← ih h.2]
    rfl

lemma stream_zeroPieces : stream (zeroPieces.map some) = zeroStream ∧
    ∀ p ∈ zeroPieces, p.length ≤ 64*1024 := by
  have hlen : ∀ p ∈ zeroPieces, p.length = 65536 := by
    intro p hp
    obtain ⟨l, hl, hp⟩ := List.mem_flatten.mp hp
    rw [List.eq_of_mem_replicate hl, List.mem_append, List.mem_singleton] at hp
    obtain hp | rfl := hp
    · rw [List.eq_of_mem_replicate hp, List.length_replicate]
    · rw [List.length_append, List.length_replicate]
      rfl
  have hchunk : (List.replicate 3 (List.replicate 65536 (0 : UInt8)) ++
      [List.replicate 65531 0 ++ lastBytes]).flatten = zeroChunk := by
    rw [List.flatten_append, List.flatten_replicate_replicate, List.flatten_singleton,
      ← List.append_assoc, ← List.replicate_add]
    rfl
  refine ⟨?_,fun p hp => (hlen p hp).le⟩
  rw [stream_map_some fun p hp => List.ne_nil_of_length_pos (by rw [hlen p hp]; decide), zeroStream,
    ← hchunk, zeroPieces, List.flatten_flatten, List.map_replicate]

lemma replicate_split {n m k : ℕ} (h : n = 16*m + k) (p : Part) :
    List.replicate n p = List.replicate (16*m) p ++ List.replicate k p := by
  rw [h, List.replicate_add]

lemma objects_zeroStream : (objects (known zeroChunks zeroIndexes) zeroStream).length = 1066669 ∧
    ∀ b ∈ objects (known zeroChunks zeroIndexes) zeroStream,
      b ∈ (Known.texts zeroChunks zeroIndexes).map Prod.fst := by
  have hk := known_zeros
  have hsegments : segments zeroStream = List.replicate 1000000 zeroChunk :=
    (segments_replicate ends_zeroChunk.1 ends_zeroChunk.2 (by decide)).2
  obtain ⟨hchunk, hmem⟩ := @Known.chunkPart_eq _ _ hk zeroChunk part0 (.head _) length_zeroChunk
  obtain ⟨h1, m1⟩ := @Known.indexPart_eq _ _ hk false (List.replicate 16 part0) part1
    (.head _) rfl
  obtain ⟨h2, m2⟩ := @Known.indexPart_eq _ _ hk true (List.replicate 16 part1) part2
    (.tail _ (.head _)) rfl
  obtain ⟨l2, n2⟩ := @Known.indexPart_eq _ _ hk true (List.replicate 4 part1) last2
    (.tail _ (.tail _ (.head _))) rfl
  obtain ⟨h3, m3⟩ := @Known.indexPart_eq _ _ hk true (List.replicate 16 part2) part3
    (.tail _ (.tail _ (.tail _ (.head _)))) rfl
  obtain ⟨l3, n3⟩ := @Known.indexPart_eq _ _ hk true (List.replicate 2 part2 ++ [last2]) last3
    (.tail _ (.tail _ (.tail _ (.tail _ (.head _))))) rfl
  obtain ⟨h4, m4⟩ := @Known.indexPart_eq _ _ hk true (List.replicate 16 part3) part4
    (.tail _ (.tail _ (.tail _ (.tail _ (.tail _ (.head _)))))) rfl
  obtain ⟨l4, n4⟩ := @Known.indexPart_eq _ _ hk true (List.replicate 4 part3 ++ [last3]) last4
    (.tail _ (.tail _ (.tail _ (.tail _ (.tail _ (.tail _ (.head _))))))) rfl
  obtain ⟨-, m5⟩ := @Known.indexPart_eq _ _ hk true (List.replicate 15 part4 ++ [last4])
    ⟨topHash,262144000000⟩
    (.tail _ (.tail _ (.tail _ (.tail _ (.tail _ (.tail _ (.tail _ (.head _)))))))) rfl
  obtain ⟨b0, b1, b2, b3⟩ := boundaries_zeros
  -- the levels, from the chunks up
  have hlevels : indexesOver (known zeroChunks zeroIndexes) maxDepth false
      (List.replicate (16*62500) part0) =
        List.replicate 62500 (indexBytes false (List.replicate 16 part0)) ++
        ((List.replicate 3906 (indexBytes true (List.replicate 16 part1)) ++
            [indexBytes true (List.replicate 4 part1)]) ++
          ((List.replicate 244 (indexBytes true (List.replicate 16 part2)) ++
              [indexBytes true (List.replicate 2 part2 ++ [last2])]) ++
            ((List.replicate 15 (indexBytes true (List.replicate 16 part3)) ++
                [indexBytes true (List.replicate 4 part3 ++ [last3])]) ++
              [indexBytes true (List.replicate 15 part4 ++ [last4])]))) := by
    have r1 := @replicate_split 62500 3906 4 (by decide) part1
    have r2 := congrArg (· ++ [last2]) (@replicate_split 3906 244 2 (by decide) part2)
    have r3 := congrArg (· ++ [last3]) (@replicate_split 244 15 4 (by decide) part3)
    rw [List.append_assoc] at r2 r3
    change indexesOver _ (7+1) false _ = _
    rw [indexesOver_replicate b0 (by decide), h1, r1, indexesOver_replicate_append b1 (by decide)
      (by decide) (by decide), h2, l2, r2, indexesOver_replicate_append b2 (by decide) (by simp)
      (by decide), h3, l3, r3, indexesOver_replicate_append b3 (by decide) (by simp) (by decide),
      h4, l4, indexesOver_of_length_le (by simp) (by decide)]
  have hobjects : objects (known zeroChunks zeroIndexes) zeroStream =
      List.replicate 1000000 zeroChunk ++ indexesOver (known zeroChunks zeroIndexes) maxDepth false
        (List.replicate (16*62500) part0) := by
    rw [objects, hsegments, List.map_replicate, hchunk]
  rw [hobjects, hlevels]
  constructor
  · simp only [List.length_append, List.length_replicate, List.length_singleton]
  · have hall : ∀ {n b}, b ∈ (Known.texts zeroChunks zeroIndexes).map Prod.fst →
        ∀ c ∈ List.replicate n b, c ∈ (Known.texts zeroChunks zeroIndexes).map Prod.fst :=
      fun hb => List.forall_mem_replicate.mpr (.inr hb)
    simp only [List.forall_mem_append, List.forall_mem_singleton]
    exact ⟨hall hmem,hall m1,⟨hall m2,n2⟩,⟨hall m3,n3⟩,⟨hall m4,n4⟩,m5⟩

/-- A million chunks are built, and their indexes with them are more than `restore` visits. -/
theorem a_long_stream_is_not_restored :
    (∀ p ∈ zeroPieces, p.length ≤ 64*1024) ∧
    ∃ payload saved, build (known zeroChunks zeroIndexes) (fun _ => .ok ())
        (zeroPieces.map some) = .ok (payload,saved) ∧
      restore (known zeroChunks zeroIndexes) (loadSaved (known zeroChunks zeroIndexes) saved)
        (fun _ => .ok ()) payload = .error ⟨"payload-tree-too-deep"⟩ := by
  have hk := known_zeros
  obtain ⟨hstream, hshort⟩ := stream_zeroPieces
  obtain ⟨hlen, htexts⟩ := objects_zeroStream
  have hcut : (cut zeroStream).1.length ≤ maxParts := by
    rw [zeroStream, (segments_replicate ends_zeroChunk.1 ends_zeroChunk.2 (by decide)).1,
      List.length_replicate]
    decide
  rw [← hstream] at hcut htexts hlen
  obtain ⟨payload, saved, hbuild⟩ := exists_build hk.validateHash_sha256 (by simp) (by
    rw [hstream, length_zeroStream]
    decide) hcut
  refine ⟨hshort,payload,saved,hbuild,?_⟩
  rw [(restore_built hk.validateHash_sha256 hk.collisionFree (fun _ => hk.reads) hbuild htexts).2,
    hlen, if_neg (by decide)]

end RisuNest.Wire.Segments
