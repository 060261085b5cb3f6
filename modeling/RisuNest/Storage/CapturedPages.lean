import RisuNest.Storage.Capture
import RisuNest.Storage.Repaging

/-! What one page of a capture reads and writes: the messages that the rows hold, and page objects
that are written once. -/
namespace RisuNest.Storage
open Wire (Crates utf8 isHexLower)
open Segments

section
variable (cr : Crates)

/-- Every hash is a lower-case SHA-256. -/
def HexDigests : Prop := ∀ bytes, isHash (cr.sha256 bytes) = true

/-- A row holds a message, and its hash unless it was not computed yet. -/
structure RowHolds (index : ℕ) (body : Body) (row : MessageRow) : Prop where
  index_eq : row.messageIndex = index
  canonical : Wire.Payload.canonicalize cr row.value = .ok body
  cached : row.canonicalHash = "" ∨
    (⟨row.canonicalHash,row.canonicalSize⟩ : MessageHash) = .fromBytes cr body
  size : body.length < 2^63

/-- Rows hold messages from a position on. -/
def RowsAt : ℕ → List Body → List MessageRow → Prop
  | _, [], rows => rows = []
  | index, body :: bodies, rows => ∃ row rest, rows = row :: rest ∧ RowHolds cr index body row ∧
      RowsAt (index + 1) bodies rest

/-- A cursor that read ahead to a position. -/
def CursorAt (position : ℕ) : List Body → Cursor → Prop
  | [], c => c.next = none ∧ c.rest = []
  | body :: bodies, c => c.next = some (position,.fromBytes cr body) ∧
      RowsAt cr (position + 1) bodies c.rest

/-- What a read of messages leaves: rows whose hashes may have been filled in. -/
def ReadOnly (bodies : List Body) (db db' : PageDb) : Prop :=
  ∃ rows, RowsAt cr 0 bodies rows ∧ db' = { db with messages := rows }

end

section
variable {cr : Crates} {bodies : List Body} {db : PageDb}

/-! ### Reading messages -/

lemma wireCodec_eq_ok {α : Type} {x : Wire.Result α} {a : α} : wireCodec x = .ok a ↔ x = .ok a := by
  cases x <;> simp [wireCodec, Except.mapError]

lemma recordCodec_eq_ok {α : Type} {x : Result α} {a : α} : recordCodec x = .ok a ↔ x = .ok a := by
  cases x <;> simp [recordCodec, Except.mapError]

lemma RowsAt.get {index : ℕ} {rows : List MessageRow} (h : RowsAt cr index bodies rows) {i : ℕ}
    {body : Body} (hb : bodies[i]? = some body) :
    ∃ row, (rows.find? fun row => row.messageIndex = index + i) = some row ∧
      RowHolds cr (index + i) body row := by
  induction bodies generalizing index rows i with
  | nil => simp at hb
  | cons b bodies ih =>
    obtain ⟨row, rest, rfl, hrow, hrest⟩ := h
    cases i with
    | zero =>
      rw [List.getElem?_cons_zero] at hb
      cases hb
      exact ⟨row,by simp [hrow.index_eq],hrow⟩
    | succ i =>
      rw [List.getElem?_cons_succ] at hb
      obtain ⟨found, hf, hfound⟩ := ih hrest hb
      rw [Nat.add_assoc, Nat.add_comm 1] at hf hfound
      refine ⟨found,?_,hfound⟩
      rw [List.find?_cons_of_neg, hf]
      rw [hrow.index_eq]
      simp

lemma RowsAt.fill {index j : ℕ} {rows : List MessageRow} {hash : MessageHash}
    (h : RowsAt cr index bodies rows)
    (hh : ∀ i b, bodies[i]? = some b → index + i = j → hash = .fromBytes cr b) :
    RowsAt cr index bodies (rows.map fun row =>
      if row.messageIndex = j
        then { row with canonicalHash := hash.hash, canonicalSize := hash.byteLength }
      else row) := by
  induction bodies generalizing index rows with
  | nil =>
    rw [RowsAt] at h ⊢
    rw [h]
    rfl
  | cons b bodies ih =>
    obtain ⟨row, rest, rfl, hrow, hrest⟩ := h
    refine ⟨_,_,List.map_cons,?_,ih hrest fun i c hc he => hh (i+1) c hc (by omega)⟩
    split_ifs with hj
    · exact ⟨hrow.index_eq,hrow.canonical,
        .inr (hh 0 b rfl (by rw [hrow.index_eq] at hj; omega)),hrow.size⟩
    · exact hrow

lemma RowsAt.filter {index : ℕ} (position : ℕ) {rows : List MessageRow}
    (h : RowsAt cr index bodies rows) :
    RowsAt cr (max index position) (bodies.drop (position - index))
      (rows.filter fun row => decide (position ≤ row.messageIndex)) := by
  induction bodies generalizing index rows with
  | nil =>
    rw [RowsAt] at h
    rw [List.drop_nil, RowsAt, h, List.filter_nil]
  | cons b bodies ih =>
    obtain ⟨row, rest, rfl, hrow, hrest⟩ := h
    have ht := ih hrest
    by_cases hp : position ≤ index
    · rw [List.filter_cons_of_pos (by rw [hrow.index_eq]; exact decide_eq_true hp),
        Nat.sub_eq_zero_of_le hp, List.drop_zero, Nat.max_eq_left hp]
      rw [Nat.sub_eq_zero_of_le (by omega), List.drop_zero, Nat.max_eq_left (by omega)] at ht
      exact ⟨_,_,rfl,hrow,ht⟩
    · rw [List.filter_cons_of_neg (by rw [hrow.index_eq]; simpa using hp)]
      rw [show position - index = position - (index + 1) + 1 by omega, List.drop_succ_cons]
      rwa [Nat.max_eq_right (by omega)] at ht ⊢

lemma ReadOnly.refl (h : RowsAt cr 0 bodies db.messages) : ReadOnly cr bodies db db :=
  ⟨db.messages,h,rfl⟩

lemma ReadOnly.rows {db' : PageDb} (h : ReadOnly cr bodies db db') :
    RowsAt cr 0 bodies db'.messages := by
  obtain ⟨rows, hr, rfl⟩ := h
  exact hr

lemma ReadOnly.trans {db' db'' : PageDb} (h : ReadOnly cr bodies db db')
    (h' : ReadOnly cr bodies db' db'') : ReadOnly cr bodies db db'' := by
  obtain ⟨rows, -, rfl⟩ := h
  obtain ⟨rows', hr, rfl⟩ := h'
  exact ⟨rows',hr,rfl⟩

lemma messageValue_eq {i : ℕ} {body : Body} (h : RowsAt cr 0 bodies db.messages)
    (hb : bodies[i]? = some body) :
    ∃ value, messageValue db i = .ok value ∧ Wire.Payload.canonicalize cr value = .ok body := by
  obtain ⟨row, hf, hrow⟩ := h.get hb
  rw [Nat.zero_add] at hf
  exact ⟨row.value,by rw [messageValue, hf],hrow.canonical⟩

lemma messageBody_eq {i : ℕ} {body : Body} (h : RowsAt cr 0 bodies db.messages)
    (hb : bodies[i]? = some body) :
    messageBody cr db i (i,.fromBytes cr body) = .ok body := by
  obtain ⟨value, hv, hc⟩ := messageValue_eq h hb
  refine bind_eq_ok.mpr ⟨(),require_eq_ok.mpr rfl,bind_eq_ok.mpr ⟨value,hv,bind_eq_ok.mpr
    ⟨body,wireCodec_eq_ok.mpr hc,bind_eq_ok.mpr ⟨(),require_eq_ok.mpr rfl,rfl⟩⟩⟩⟩

lemma rowHash_eq {i : ℕ} {body : Body} {row : MessageRow} (h : RowsAt cr 0 bodies db.messages)
    (hb : bodies[i]? = some body) (hrow : RowHolds cr i body row) :
    ∃ db', rowHash cr db row = .ok (db',.fromBytes cr body) ∧ ReadOnly cr bodies db db' := by
  unfold rowHash
  split_ifs with he
  · exact ⟨db,by rw [hrow.cached.resolve_left he],ReadOnly.refl h⟩
  · obtain ⟨value, hv, hc⟩ := messageValue_eq h hb
    refine ⟨fillHash db i (.fromBytes cr body),?_,_,?_,rfl⟩
    · rw [hrow.index_eq]
      exact bind_eq_ok.mpr ⟨value,hv,bind_eq_ok.mpr ⟨body,wireCodec_eq_ok.mpr hc,
        bind_eq_ok.mpr ⟨(),require_eq_ok.mpr hrow.size,rfl⟩⟩⟩
    · refine h.fill fun j b hj he => ?_
      rw [Nat.zero_add] at he
      subst he
      rw [hb] at hj
      rw [Option.some.inj hj]

lemma queryMessages_eq {position : ℕ} (h : RowsAt cr 0 bodies db.messages) :
    ∃ db' c, queryMessages cr db position = .ok (db',c) ∧ ReadOnly cr bodies db db' ∧
      CursorAt cr position (bodies.drop position) c := by
  have hrows := h.filter position
  rw [Nat.sub_zero, Nat.zero_max] at hrows
  unfold queryMessages
  generalize (db.messages.filter fun row => decide (position ≤ row.messageIndex)) = rows at hrows
  cases hd : bodies.drop position with
  | nil =>
    rw [hd, RowsAt] at hrows
    subst hrows
    exact ⟨db,_,rfl,ReadOnly.refl h,rfl,rfl⟩
  | cons b rest =>
    rw [hd] at hrows
    obtain ⟨row, rest', rfl, hrow, hrest⟩ := hrows
    have hb : bodies[position]? = some b := by
      have := congrArg (fun l => l[0]?) hd
      simpa [List.getElem?_drop] using this
    obtain ⟨db', hh, hread⟩ := rowHash_eq h hb hrow
    refine ⟨db',⟨some (position,.fromBytes cr b),rest'⟩,?_,hread,rfl,hrest⟩
    rw [nextHash, hrow.index_eq]
    exact bind_eq_ok.mpr ⟨_,hh,rfl⟩

/-! ### One page -/

lemma fillCaptured_eq (hh : HexDigests cr) {start position count : ℕ} {bytes bytes' : List UInt8}
    {done : List MessageHash} {b : Body} {rest : List Body} {rows : List MessageRow}
    (hdb : RowsAt cr 0 bodies db.messages) (hd : bodies.drop position = b :: rest)
    (hrows : RowsAt cr (position + 1) rest rows) (hc : position + 1 = start + count)
    (hs : start ≤ position)
    (hb : (if start < position then bytes ++ utf8 [','] else bytes) ++ b = bytes') :
    ∃ db' c, fillCaptured cr db start position bytes done (position,.fromBytes cr b) rows =
        .ok ⟨db',position + 1 + more cr count bytes'.length b rest,
          bytes' ++ appended (rest.take (more cr count bytes'.length b rest)),
          done ++ hashes cr (b :: rest.take (more cr count bytes'.length b rest)),c⟩ ∧
      ReadOnly cr bodies db db' ∧
      CursorAt cr (position + 1 + more cr count bytes'.length b rest)
        (rest.drop (more cr count bytes'.length b rest)) c := by
  have hat : bodies[position]? = some b := by
    have := congrArg (fun l => l[0]?) hd
    simpa [List.getElem?_drop] using this
  have hbody := messageBody_eq hdb hat
  induction rest generalizing b position count bytes bytes' done rows db with
  | nil =>
    rw [RowsAt] at hrows
    subst hrows
    have hcut := @cutAfter_eq cr count bytes'.length b [] (hh b)
    rw [show count = position + 1 - start by omega] at hcut
    refine ⟨db,⟨none,[]⟩,?_,ReadOnly.refl hdb,rfl,rfl⟩
    rw [fillCaptured]
    refine bind_eq_ok.mpr ⟨b,hbody,?_⟩
    simp only [hb]
    refine bind_eq_ok.mpr ⟨true,recordCodec_eq_ok.mpr hcut,?_⟩
    simp [more, appended, hashes, pure, Except.pure]
  | cons next rest ih =>
    obtain ⟨row, rows, rfl, hrow, hrest⟩ := hrows
    have hd' : bodies.drop (position + 1) = next :: rest := by
      rw [← List.drop_drop, hd, List.drop_one, List.tail_cons]
    have hat' : bodies[position + 1]? = some next := by
      have := congrArg (fun l => l[0]?) hd'
      simpa [List.getElem?_drop] using this
    obtain ⟨db₁, hhash, hread⟩ := rowHash_eq hdb hat' hrow
    have hcut := @cutAfter_eq cr count bytes'.length b [next] (hh b)
    rw [show count = position + 1 - start by omega] at hcut
    rw [show count = position + 1 - start by omega, more]
    by_cases hcuts : cuts cr (position + 1 - start) bytes'.length b next = true
    · rw [if_pos hcuts, fillCaptured]
      refine ⟨db₁,⟨some (position + 1,.fromBytes cr next),rows⟩,?_,hread,rfl,hrest⟩
      refine bind_eq_ok.mpr ⟨b,hbody,bind_eq_ok.mpr ⟨_,hhash,?_⟩⟩
      simp only [hb]
      refine bind_eq_ok.mpr ⟨true,recordCodec_eq_ok.mpr (hcut.trans (by simp only [hcuts])),?_⟩
      rw [if_pos rfl, hrow.index_eq]
      simp [appended, hashes, pure, Except.pure]
    · rw [if_neg hcuts, fillCaptured]
      obtain ⟨db₂, c, hfill, hread₂, hcursor⟩ := @ih db₁ (position + 1) (count + 1) bytes'
        (bytes' ++ utf8 [','] ++ next) (done ++ [.fromBytes cr b]) next rows hread.rows hd' hrest
        (by omega) (by omega) (by rw [if_pos (by omega)]) hat' (messageBody_eq hread.rows hat')
      have hlen : (bytes' ++ utf8 [','] ++ next).length = bytes'.length + 1 + next.length := by
        rw [List.length_append, List.length_append, show (utf8 [',']).length = 1 by decide]
      rw [show count = position + 1 - start by omega, hlen] at hfill hcursor
      refine ⟨db₂,c,?_,hread.trans hread₂,?_⟩
      · refine bind_eq_ok.mpr ⟨b,hbody,bind_eq_ok.mpr ⟨_,hhash,?_⟩⟩
        simp only [hb]
        refine bind_eq_ok.mpr ⟨false,recordCodec_eq_ok.mpr (hcut.trans (by
          simp only [hcuts])),?_⟩
        rw [if_neg (by decide), hrow.index_eq, hfill]
        simp only [List.take_succ_cons, appended, List.flatMap_cons, List.append_assoc, hashes,
          List.map_cons, Except.ok.injEq, Filled.mk.injEq, true_and, List.singleton_append,
          and_true]
        omega
      · rw [List.drop_succ_cons]
        convert hcursor using 1
        omega

lemma fillCaptured_page (hh : HexDigests cr) {start : ℕ} {b : Body} {rest : List Body}
    {c : Cursor} (hdb : RowsAt cr 0 bodies db.messages) (hd : bodies.drop start = b :: rest)
    (hc : CursorAt cr start (b :: rest) c) :
    ∃ db' c', fillCaptured cr db start start pagePrefix [] (start,.fromBytes cr b) c.rest =
        .ok ⟨db',start + (b :: rest.take (following cr (b :: rest))).length,
          pagePrefix ++ b ++ appended (rest.take (following cr (b :: rest))),
          hashes cr (b :: rest.take (following cr (b :: rest))),c'⟩ ∧
      ReadOnly cr bodies db db' ∧
      CursorAt cr (start + (b :: rest.take (following cr (b :: rest))).length)
        (rest.drop (following cr (b :: rest))) c' := by
  obtain ⟨db', c', hfill, hread, hcursor⟩ := @fillCaptured_eq cr bodies db hh start start 1
    pagePrefix (pagePrefix ++ b) [] b rest c.rest hdb hd hc.2 rfl le_rfl (by simp)
  have hlen : (pagePrefix ++ b).length = pagePrefix.length + b.length := List.length_append
  have hend : start + 1 + more cr 1 (pagePrefix ++ b).length b rest =
      start + (b :: rest.take (following cr (b :: rest))).length := by
    rw [List.length_cons, List.length_take, following, hlen, Nat.min_eq_left (more_le ..)]
    omega
  rw [hend] at hfill hcursor
  rw [hlen] at hfill hcursor
  exact ⟨db',c',by rw [hfill, List.nil_append]; rfl,hread,hcursor⟩

/-! ### Proofs of pages -/

/-- The bytes a page has once a message is in it. -/
def sizeWith (count length : ℕ) (b : Body) : ℕ :=
  length + b.length + (if count = 1 then 0 else 1)

/-- Whether a page ends with a message however it goes on. -/
def endsCut (cr : Crates) (count length : ℕ) (b : Body) : Bool :=
  count = logicalMessagePageSize ||
    (decide (minPageMessages ≤ count) && (MessageHash.fromBytes cr b).ends) ||
    decide (maxPageBytes < length)

lemma proofStep_eq (hh : HexDigests cr) {count length : ℕ} {b : Body}
    (hb : sizeWith count length b < 2^64) :
    proofStep count length (.fromBytes cr b) =
      .ok (sizeWith count length b,endsCut cr count (sizeWith count length b) b) := by
  refine bind_eq_ok.mpr ⟨(),require_eq_ok.mpr hb,?_⟩
  have hboundary : (if count = logicalMessagePageSize then .ok true
      else endsPage count (.fromBytes cr b)) = (.ok (decide (count = logicalMessagePageSize) ||
        (decide (minPageMessages ≤ count) && (MessageHash.fromBytes cr b).ends)) : Result Bool) := by
    split_ifs with hc
    · simp [hc]
    · unfold endsPage
      split_ifs with hm
      · rw [boundary_of_isHash (hh b)]
        simp [hc, hm]
      · simp [hc, hm]
  refine bind_eq_ok.mpr ⟨_,recordCodec_eq_ok.mpr hboundary,rfl⟩

lemma length_appended (bodies : List Body) :
    (appended bodies).length = (bodies.map fun b => b.length + 1).sum := by
  induction bodies with
  | nil => rfl
  | cons b bodies ih =>
    rw [appended, List.flatMap_cons, List.length_append, List.length_append, ← appended, ih,
      List.map_cons, List.sum_cons, show (utf8 [',']).length = 1 by decide]
    omega

lemma proofFrom_eq (hh : HexDigests cr) {count length size : ℕ} {b : Body} {rest : List Body}
    (hs : sizeWith count length b = size + pageSuffix.length) (hc : 1 ≤ count)
    (hb : size + pageSuffix.length +
      (appended (rest.take (more cr count size b rest))).length < 2^64) :
    ∃ flag, proofFrom count length (.fromBytes cr b)
        (hashes cr (rest.take (more cr count size b rest))) =
      .ok (size + pageSuffix.length +
        (appended (rest.take (more cr count size b rest))).length,flag) := by
  induction rest generalizing count length size b with
  | nil =>
    refine ⟨endsCut cr count (sizeWith count length b) b,?_⟩
    have hstep := @proofStep_eq cr hh count length b (by rw [hs]; omega)
    simpa [more, hashes, appended, proofFrom, hs] using hstep
  | cons next rest ih =>
    have hstep := @proofStep_eq cr hh count length b (by rw [hs]; omega)
    rw [more] at hb ⊢
    by_cases hcuts : cuts cr count size b next = true
    · rw [if_pos hcuts] at hb ⊢
      refine ⟨endsCut cr count (sizeWith count length b) b,?_⟩
      simpa [hashes, appended, proofFrom, hs] using hstep
    · rw [if_neg hcuts, List.take_succ_cons] at hb ⊢
      have hopen : endsCut cr count (size + pageSuffix.length) b = false ∧
          size + pageSuffix.length + 1 + next.length ≤ maxPageBytes := by
        simp only [cuts, Bool.or_eq_true, decide_eq_true_eq, not_or, Nat.not_lt] at hcuts
        refine ⟨?_,by omega⟩
        simp only [endsCut, Bool.or_eq_false_iff, decide_eq_false_iff_not, Nat.not_lt]
        exact ⟨⟨hcuts.1.1.1,by simpa using hcuts.1.1.2⟩,hcuts.1.2⟩
      have hlen : ∀ l : List Body, (appended (next :: l)).length =
          1 + next.length + (appended l).length := by
        intro l
        rw [length_appended, length_appended, List.map_cons, List.sum_cons]
        omega
      rw [hlen] at hb
      obtain ⟨flag, hflag⟩ := @ih (count + 1) (size + pageSuffix.length) (size + 1 + next.length)
        next (by rw [sizeWith, if_neg (by omega)]; omega) (by omega) (by omega)
      refine ⟨flag,?_⟩
      rw [hs] at hstep
      refine bind_eq_ok.mpr ⟨_,hstep,bind_eq_ok.mpr ⟨(),require_eq_ok.mpr ⟨hopen.1,?_⟩,?_⟩⟩
      · exact hopen.2
      · rw [hlen]
        refine hflag.trans ?_
        congr 2
        omega

/-- The proof of a page, which depends on its messages only. -/
def proofOf (cr : Crates) (page : List Body) : StoreResult PageProof :=
  derivePageProof (manifestPage cr page) (hashes cr page)

lemma proofOf_eq_ok (hh : HexDigests cr) {b : Body} {rest : List Body}
    (he : (pageBytes (b :: rest.take (following cr (b :: rest)))).length ≤
      javascriptMaxSafeInteger) :
    ∃ proof, proofOf cr (b :: rest.take (following cr (b :: rest))) = .ok proof ∧
      proof.byteLength < 2^63 ∧ proof.firstLength < 2^63 := by
  have hsize : (pageBytes (b :: rest.take (following cr (b :: rest)))).length =
      pagePrefix.length + b.length + pageSuffix.length +
        (appended (rest.take (following cr (b :: rest)))).length := by
    rw [pageBytes]
    simp only [List.length_append]
    omega
  have hmax : javascriptMaxSafeInteger < 2^63 := by decide
  obtain ⟨flag, hflag⟩ := @proofFrom_eq cr hh 1 (pagePrefix.length + pageSuffix.length)
    (pagePrefix.length + b.length) b rest (by rw [sizeWith, if_pos rfl]; omega) le_rfl (by
      change _ + (appended (rest.take (following cr (b :: rest)))).length < _
      omega)
  refine ⟨⟨(b :: rest.take (following cr (b :: rest))).length,
    (pageBytes (b :: rest.take (following cr (b :: rest)))).length,b.length,flag⟩,?_,?_,?_⟩
  · rw [proofOf, hashes, List.map_cons, derivePageProof, ← hashes]
    refine bind_eq_ok.mpr ⟨(),require_eq_ok.mpr ?_,bind_eq_ok.mpr ⟨_,hflag,bind_eq_ok.mpr
      ⟨(),require_eq_ok.mpr ?_,?_⟩⟩⟩
    · simp [manifestPage, hashes]
    · exact hsize.symm
    · rw [hsize]
      rfl
  · change (pageBytes _).length < 2^63
    omega
  · change b.length < 2^63
    omega

/-! ### Writing pages -/

/-- The object and the proof of a page are there. -/
structure Stored (cr : Crates) (db : PageDb) (page : List Body) : Prop where
  object : db.objects.get (manifestPage cr page).hash = some (pageBytes page)
  verified : db.verified.contains (manifestPage cr page).hash = true
  proof : ∃ proof hashes, proofOf cr page = .ok proof ∧
    db.proofs.get (manifestPage cr page).hash = some (proof,hashes)

/-- Nothing else is there under the hash of a page. -/
structure Admits (cr : Crates) (db : PageDb) (page : List Body) : Prop where
  object : ∀ body, db.objects.get (manifestPage cr page).hash = some body → body = pageBytes page
  proof : ∀ proof hashes, db.proofs.get (manifestPage cr page).hash = some (proof,hashes) →
    proofOf cr page = .ok proof

/-- The database once a page is written. -/
def write (cr : Crates) (db : PageDb) (page : List Body) : PageDb :=
  { db with
    objects := db.objects.insertOrIgnore (manifestPage cr page).hash (pageBytes page)
    verified := db.verified.insertOrIgnore (manifestPage cr page).hash ()
    marks := db.marks.erase (manifestPage cr page).hash
    proofs := match proofOf cr page with
      | .ok proof => db.proofs.insertOrIgnore (manifestPage cr page).hash (proof,hashes cr page)
      | .error _ => db.proofs }

lemma validateHash_of_isHash {h : String} (hh : isHash h = true) :
    Wire.validateHash h = .ok () := by
  unfold Wire.validateHash
  rw [isHash] at hh
  rw [hh]
  rfl

/-- The database once an object is put. -/
def withObject (db : PageDb) (hash : String) (body : List UInt8) : PageDb :=
  { db with
    objects := db.objects.insertOrIgnore hash body
    verified := db.verified.insertOrIgnore hash ()
    marks := db.marks.erase hash }

lemma putObject_eq_ok {hash : String} {body : List UInt8} {db' : PageDb} :
    putObject cr db hash body = .ok db' ↔ Wire.validateHash hash = .ok () ∧
      Wire.hash cr body = hash ∧ (∀ b, db.objects.get hash = some b → b = body) ∧
        db' = withObject db hash body := by
  have hget : (db.objects.insertOrIgnore hash body).get hash =
      some ((db.objects.get hash).getD body) := by simp
  constructor
  · intro h
    obtain ⟨⟨⟩, hvalid, h⟩ := bind_eq_ok.mp h
    obtain ⟨_, hhash, h⟩ := bind_eq_ok.mp h
    obtain ⟨stored, hs, h⟩ := bind_eq_ok.mp h
    obtain ⟨_, hstored, hdb⟩ := bind_eq_ok.mp h
    rw [objectBody, hget, require_eq_ok.mp hstored] at hs
    obtain ⟨_, -, hs⟩ := bind_eq_ok.mp hs
    refine ⟨wireCodec_eq_ok.mp hvalid,require_eq_ok.mp hhash,fun b hb => ?_,
      (Except.ok.inj hdb).symm⟩
    rw [hb, Option.getD_some] at hs
    exact Option.some.inj (Except.ok.inj hs)
  · rintro ⟨hvalid, hhash, hsame, rfl⟩
    have hbody : (db.objects.get hash).getD body = body := by
      cases hb : db.objects.get hash with
      | none => rfl
      | some b => exact hsame b hb
    refine bind_eq_ok.mpr ⟨(),wireCodec_eq_ok.mpr hvalid,
      bind_eq_ok.mpr ⟨(),require_eq_ok.mpr hhash,bind_eq_ok.mpr ⟨some body,?_,
        bind_eq_ok.mpr ⟨(),require_eq_ok.mpr rfl,rfl⟩⟩⟩⟩
    rw [objectBody, hget, hbody]
    exact bind_eq_ok.mpr ⟨(),require_eq_ok.mpr hhash,rfl⟩

/-- The first page of a list, once it may be an object. -/
structure PageOf (cr : Crates) (page : List Body) : Prop where
  first : ∃ (b : Body) (rest : List Body), page = b :: rest.take (following cr (b :: rest))
  encodable : (pageBytes page).length ≤ javascriptMaxSafeInteger

lemma storePage_eq_ok (hh : HexDigests cr) {page : List Body} (hp : PageOf cr page)
    {db' : PageDb} :
    (putObject cr db (manifestPage cr page).hash (pageBytes page) >>= fun db =>
        storePageProof db (manifestPage cr page) (hashes cr page)) = .ok db' ↔
      Admits cr db page ∧ db' = write cr db page := by
  obtain ⟨⟨b, rest, rfl⟩, he⟩ := hp
  obtain ⟨proof, hproof, hbytes, hfirst⟩ := proofOf_eq_ok hh he
  generalize hpage : b :: rest.take (following cr (b :: rest)) = page at he hproof ⊢
  have hvalid := validateHash_of_isHash (hh (pageBytes page))
  -- behind the object, the proof is stored unless another one is there
  have hstore : ∀ put : PageDb, put.verified.contains (manifestPage cr page).hash = true →
      put.objects.contains (manifestPage cr page).hash = true → ∀ db',
      storePageProof put (manifestPage cr page) (hashes cr page) = .ok db' ↔
        (∀ q hs, put.proofs.get (manifestPage cr page).hash = some (q,hs) → q = proof) ∧
          db' = { put with
            proofs := put.proofs.insertOrIgnore (manifestPage cr page).hash
              (proof,hashes cr page) } := by
    intro put hv ho db'
    have hpresent : verifiedObjectPresent put (manifestPage cr page).hash = .ok true := by
      refine bind_eq_ok.mpr ⟨(),wireCodec_eq_ok.mpr hvalid,?_⟩
      rw [hv, ho]
      rfl
    have hcached : cachedPageProof put (manifestPage cr page).hash =
        (put.proofs.get (manifestPage cr page).hash).map Prod.fst := by
      rw [cachedPageProof, hv, ho]
      rfl
    have hrun : storePageProof put (manifestPage cr page) (hashes cr page) =
        ((put.proofs.get (manifestPage cr page).hash).map Prod.fst).elim
          (insertPageProof put (manifestPage cr page) proof (hashes cr page)) (fun existing => do
            require (existing = proof) (codecError "message page proof mismatch")
            pure put) := by
      rw [← hcached]
      have hderive : derivePageProof (manifestPage cr page) (hashes cr page) = .ok proof := hproof
      unfold storePageProof
      rw [hderive, hpresent]
      cases cachedPageProof put (manifestPage cr page).hash <;> rfl
    rw [hrun]
    cases hrow : put.proofs.get (manifestPage cr page).hash with
    | none =>
      dsimp only [Option.map_none, Option.elim_none]
      constructor
      · intro h
        obtain ⟨_, -, h⟩ := bind_eq_ok.mp h
        obtain ⟨_, -, h⟩ := bind_eq_ok.mp h
        exact ⟨fun _ _ h => (by cases h),(Except.ok.inj h).symm⟩
      · rintro ⟨-, rfl⟩
        exact bind_eq_ok.mpr ⟨(),require_eq_ok.mpr ⟨hbytes,hfirst⟩,bind_eq_ok.mpr
          ⟨(),require_eq_ok.mpr hrow,rfl⟩⟩
    | some row =>
      have hkeep : put.proofs.insertOrIgnore (manifestPage cr page).hash
          (proof,hashes cr page) = put.proofs := by
        rw [Table.insertOrIgnore, dif_pos]
        by_contra hn
        rw [← Table.get_eq_none, hrow] at hn
        cases hn
      dsimp only [Option.map_some, Option.elim_some]
      rw [hkeep]
      constructor
      · intro h
        obtain ⟨_, hq, h⟩ := bind_eq_ok.mp h
        refine ⟨fun q hs hs' => ?_,(Except.ok.inj h).symm⟩
        rw [← require_eq_ok.mp hq, Option.some.inj hs']
      · rintro ⟨hq, rfl⟩
        exact bind_eq_ok.mpr ⟨(),require_eq_ok.mpr (hq row.1 row.2 rfl),rfl⟩
  constructor
  · intro h
    obtain ⟨put, hput, h⟩ := bind_eq_ok.mp h
    obtain ⟨-, -, hobject, rfl⟩ := putObject_eq_ok.mp hput
    obtain ⟨hproofs, rfl⟩ := (hstore _ (by simp [Table.contains, withObject])
      (by simp [Table.contains, withObject]) db').mp h
    refine ⟨⟨hobject,fun q hs hq => by rw [hproof, hproofs q hs hq]⟩,?_⟩
    rw [write, hproof]
    rfl
  · rintro ⟨hadmits, rfl⟩
    refine bind_eq_ok.mpr ⟨_,putObject_eq_ok.mpr ⟨hvalid,rfl,hadmits.object,rfl⟩,?_⟩
    refine (hstore _ (by simp [Table.contains, withObject])
      (by simp [Table.contains, withObject]) _).mpr ⟨?_,?_⟩
    · intro q hs hq
      exact Except.ok.inj ((hadmits.proof q hs hq).symm.trans hproof)
    · rw [write, hproof]
      rfl

/-! ### Writing many pages -/

/-- Two pages that share a hash are the same object with the same proof. -/
def Agree (cr : Crates) (s t : List Body) : Prop :=
  (manifestPage cr s).hash = (manifestPage cr t).hash →
    pageBytes s = pageBytes t ∧ proofOf cr s = proofOf cr t

/-- Every page of a list can be written behind those before it. -/
def AdmitsAll (cr : Crates) : PageDb → List (List Body) → Prop
  | _, [] => True
  | db, page :: pages => Admits cr db page ∧ AdmitsAll cr (write cr db page) pages

lemma Stored.admits {page : List Body} (h : Stored cr db page) : Admits cr db page := by
  obtain ⟨proof, hs, hp, hg⟩ := h.proof
  refine ⟨fun body hb => ?_,fun q hs' hq => ?_⟩
  · rw [h.object] at hb
    exact (Option.some.inj hb).symm
  · rw [hg] at hq
    cases hq
    exact hp

lemma write_objects (db : PageDb) (page : List Body) (h : String) :
    (write cr db page).objects.get h = if h = (manifestPage cr page).hash
      then some ((db.objects.get h).getD (pageBytes page)) else db.objects.get h := by
  rw [write]
  dsimp only
  rw [Table.get_insertOrIgnore]
  split_ifs with he
  · rw [he]
  · rfl

lemma write_proofs {page : List Body} {proof : PageProof} (hp : proofOf cr page = .ok proof)
    (db : PageDb) (h : String) :
    (write cr db page).proofs.get h = if h = (manifestPage cr page).hash
      then some ((db.proofs.get h).getD (proof,hashes cr page)) else db.proofs.get h := by
  rw [write]
  dsimp only
  rw [hp, Table.get_insertOrIgnore]
  split_ifs with he
  · rw [he]
  · rfl

lemma admits_write {s t : List Body} {proof : PageProof} (hp : proofOf cr s = .ok proof)
    (hs : Admits cr db s) : Admits cr (write cr db s) t ↔ Admits cr db t ∧ Agree cr s t := by
  constructor
  · intro h
    refine ⟨⟨fun body hb => h.object body ?_,fun q l hq => h.proof q l ?_⟩,fun he => ?_⟩
    · rw [write_objects]
      split_ifs with he
      · rw [hb, Option.getD_some]
      · exact hb
    · rw [write_proofs hp]
      split_ifs with he
      · rw [hq, Option.getD_some]
      · exact hq
    · have hobject := h.object
      have hproof := h.proof
      rw [← he, write_objects, if_pos rfl] at hobject
      rw [← he, write_proofs hp, if_pos rfl] at hproof
      constructor
      · rw [← hobject _ rfl]
        cases hb : db.objects.get (manifestPage cr s).hash with
        | none => rfl
        | some body => rw [Option.getD_some, hs.object body hb]
      · rw [hproof _ _ rfl]
        cases hb : db.proofs.get (manifestPage cr s).hash with
        | none => exact hp
        | some row => exact hs.proof row.1 row.2 hb
  · rintro ⟨ht, hagree⟩
    refine ⟨fun body hb => ?_,fun q l hq => ?_⟩
    · rw [write_objects] at hb
      split_ifs at hb with he
      · cases hg : db.objects.get (manifestPage cr t).hash with
        | none =>
          rw [hg, Option.getD_none] at hb
          rw [← Option.some.inj hb]
          exact (hagree he.symm).1
        | some b =>
          rw [hg, Option.getD_some] at hb
          rw [← Option.some.inj hb]
          exact ht.object b hg
      · exact ht.object body hb
    · rw [write_proofs hp] at hq
      split_ifs at hq with he
      · cases hg : db.proofs.get (manifestPage cr t).hash with
        | none =>
          rw [hg, Option.getD_none] at hq
          cases hq
          rw [← (hagree he.symm).2]
          exact hp
        | some row =>
          rw [hg, Option.getD_some] at hq
          cases hq
          exact ht.proof q l hg
      · exact ht.proof q l hq

lemma admitsAll_iff {pages : List (List Body)}
    (hp : ∀ page ∈ pages, ∃ proof, proofOf cr page = .ok proof) :
    AdmitsAll cr db pages ↔ (∀ page ∈ pages, Admits cr db page) ∧ pages.Pairwise (Agree cr) := by
  induction pages generalizing db with
  | nil => simp [AdmitsAll]
  | cons page pages ih =>
    obtain ⟨proof, hproof⟩ := hp page List.mem_cons_self
    rw [AdmitsAll, ih fun q hq => hp q (List.mem_cons_of_mem _ hq), List.pairwise_cons]
    constructor
    · rintro ⟨hpage, hpages, hagree⟩
      have hall : ∀ q ∈ pages, Admits cr db q ∧ Agree cr page q := fun q hq =>
        (admits_write hproof hpage).mp (hpages q hq)
      refine ⟨fun q hq => ?_,fun q hq => (hall q hq).2,hagree⟩
      rcases List.mem_cons.mp hq with rfl | hq
      · exact hpage
      · exact (hall q hq).1
    · rintro ⟨hall, hagree, hrest⟩
      have hpage := hall page List.mem_cons_self
      exact ⟨hpage,fun q hq => (admits_write hproof hpage).mpr
        ⟨hall q (List.mem_cons_of_mem _ hq),hagree q hq⟩,hrest⟩

/-- The database once some pages are written. -/
def writeAll (cr : Crates) (db : PageDb) (pages : List (List Body)) : PageDb :=
  pages.foldl (write cr) db

lemma Stored.write {s t : List Body} (h : Stored cr db t) : Stored cr (write cr db s) t := by
  refine ⟨?_,?_,?_⟩
  · rw [write_objects, h.object]
    split_ifs <;> rfl
  · rw [Storage.write]
    have := h.verified
    rw [Table.contains_iff] at this ⊢
    obtain ⟨u, hu⟩ := this
    exact ⟨u,Table.get_insertOrIgnore_of_get hu⟩
  · obtain ⟨proof, hs, hp, hg⟩ := h.proof
    refine ⟨proof,hs,hp,?_⟩
    rw [Storage.write]
    dsimp only
    split
    · exact Table.get_insertOrIgnore_of_get hg
    · exact hg

lemma stored_write {s : List Body} {proof : PageProof} (hp : proofOf cr s = .ok proof)
    (h : Admits cr db s) : Stored cr (write cr db s) s := by
  refine ⟨?_,?_,?_⟩
  · rw [write_objects, if_pos rfl]
    cases hb : db.objects.get (manifestPage cr s).hash with
    | none => rfl
    | some body => rw [Option.getD_some, h.object body hb]
  · rw [write]
    simp [Table.contains]
  · rw [write_proofs hp, if_pos rfl]
    cases hb : db.proofs.get (manifestPage cr s).hash with
    | none => exact ⟨_,_,hp,rfl⟩
    | some row => exact ⟨row.1,row.2,h.proof row.1 row.2 hb,rfl⟩

lemma Stored.writeAll {pages : List (List Body)} {t : List Body} (h : Stored cr db t) :
    Stored cr (writeAll cr db pages) t := by
  induction pages generalizing db with
  | nil => exact h
  | cons page pages ih => exact ih h.write

lemma stored_writeAll {pages : List (List Body)}
    (hp : ∀ page ∈ pages, ∃ proof, proofOf cr page = .ok proof) (h : AdmitsAll cr db pages) :
    ∀ page ∈ pages, Stored cr (writeAll cr db pages) page := by
  induction pages generalizing db with
  | nil => simp
  | cons page pages ih =>
    obtain ⟨proof, hproof⟩ := hp page List.mem_cons_self
    intro q hq
    rcases List.mem_cons.mp hq with rfl | hq
    · exact (stored_write hproof h.1).writeAll
    · exact ih (fun q hq => hp q (List.mem_cons_of_mem _ hq)) h.2 q hq

lemma writeAll_objects_of_ne {pages : List (List Body)} {h : String}
    (hn : ∀ page ∈ pages, (manifestPage cr page).hash ≠ h) :
    (writeAll cr db pages).objects.get h = db.objects.get h ∧
      (writeAll cr db pages).verified.get h = db.verified.get h := by
  induction pages generalizing db with
  | nil => exact ⟨rfl,rfl⟩
  | cons page pages ih =>
    have hne := hn page List.mem_cons_self
    obtain ⟨ho, hv⟩ := @ih (Storage.write cr db page) fun q hq => hn q (List.mem_cons_of_mem _ hq)
    rw [writeAll, List.foldl_cons, ← writeAll, ho, hv, write_objects, if_neg hne.symm]
    refine ⟨rfl,?_⟩
    rw [Storage.write]
    dsimp only
    rw [Table.get_insertOrIgnore, if_neg hne.symm]

/-- Two databases with the same objects. -/
structure SameObjects (db db' : PageDb) : Prop where
  objects : ∀ h, db.objects.get h = db'.objects.get h
  verified : ∀ h, db.verified.get h = db'.verified.get h

lemma sameObjects_writeAll {pages built : List (List Body)}
    (hp : ∀ page ∈ pages, ∃ proof, proofOf cr page = .ok proof) (h : AdmitsAll cr db pages)
    (hb : AdmitsAll cr db built) (hsub : ∀ page ∈ built, page ∈ pages)
    (hold : ∀ page ∈ pages, page ∈ built ∨ Stored cr db page) :
    SameObjects (writeAll cr db pages) (writeAll cr db built) := by
  have hpages := stored_writeAll hp h
  have hbuilt : ∀ page ∈ pages, Stored cr (writeAll cr db built) page := by
    intro page hm
    rcases hold page hm with hm | hs
    · exact stored_writeAll (fun q hq => hp q (hsub q hq)) hb page hm
    · exact hs.writeAll
  have unit : ∀ {t u : Option Unit}, t.isSome = true → u.isSome = true → t = u := by
    intro t u ht hu
    obtain ⟨⟨⟩, rfl⟩ := Option.isSome_iff_exists.mp ht
    obtain ⟨⟨⟩, rfl⟩ := Option.isSome_iff_exists.mp hu
    rfl
  constructor <;> intro k
  · by_cases hk : ∃ page ∈ pages, (manifestPage cr page).hash = k
    · obtain ⟨page, hm, rfl⟩ := hk
      rw [(hpages page hm).object, (hbuilt page hm).object]
    · have hne : ∀ page ∈ pages, (manifestPage cr page).hash ≠ k := fun page hm he =>
        hk ⟨page,hm,he⟩
      rw [(writeAll_objects_of_ne hne).1,
        (writeAll_objects_of_ne fun page hm => hne page (hsub page hm)).1]
  · by_cases hk : ∃ page ∈ pages, (manifestPage cr page).hash = k
    · obtain ⟨page, hm, rfl⟩ := hk
      exact unit (hpages page hm).verified (hbuilt page hm).verified
    · have hne : ∀ page ∈ pages, (manifestPage cr page).hash ≠ k := fun page hm he =>
        hk ⟨page,hm,he⟩
      rw [(writeAll_objects_of_ne hne).2,
        (writeAll_objects_of_ne fun page hm => hne page (hsub page hm)).2]

end
end RisuNest.Storage
