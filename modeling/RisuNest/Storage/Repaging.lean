import RisuNest.Lib.Segments
import RisuNest.Storage.MessagePages
import Mathlib.Data.List.TakeWhile

/-! An edit through `repage` gives the index that paging the edited list from nothing gives: a
page is cut by looking at its messages and the length of the next one, so the pages before the
edit and those behind the first common boundary after it are segments of both lists. -/
namespace RisuNest.Storage
open Wire (Crates utf8 isHexLower)
open Segments

abbrev Body := List UInt8

/-- The bytes that a page takes up after its first message. -/
def appended (bodies : List Body) : List UInt8 := bodies.flatMap fun b => utf8 [','] ++ b

/-- The bytes of a page that holds the given messages. -/
def pageBytes : List Body → List UInt8
  | [] => pagePrefix ++ pageSuffix
  | b :: rest => pagePrefix ++ b ++ appended rest ++ pageSuffix

section
variable (cr : Crates)

/-- Whether a page of `count` messages and `size` bytes that ends with `b` is cut before the next
message. -/
def cuts (count size : ℕ) (b next : Body) : Bool :=
  count = logicalMessagePageSize ||
    (decide (minPageMessages ≤ count) && (MessageHash.fromBytes cr b).ends) ||
    maxPageBytes < size + pageSuffix.length ||
    maxPageBytes < size + 1 + next.length + pageSuffix.length

/-- How many of the following messages the page takes up. -/
def more (count size : ℕ) (b : Body) : List Body → ℕ
  | [] => 0
  | next :: rest =>
    if cuts cr count size b next then 0
    else more (count + 1) (size + 1 + next.length) next rest + 1

/-- How many messages follow the first one in the first page of a list. -/
def following : List Body → ℕ
  | [] => 0
  | b :: rest => more cr 1 (pagePrefix.length + b.length) b rest

/-- The messages of each page. -/
abbrev pageSegments (bodies : List Body) : List (List Body) := segments (following cr) bodies

def manifestPage (page : List Body) : ManifestPage :=
  ⟨cr.sha256 (pageBytes page),page.length,(pageBytes page).length⟩

def pageObject (page : List Body) : EncodedLogicalObject :=
  ⟨cr.sha256 (pageBytes page),(pageBytes page).length,pageBytes page⟩

/-- The pages of a list that starts at a position. -/
def boundaries (start : ℕ) : List (List Body) → List PageBoundary
  | [] => []
  | page :: pages => ⟨start,manifestPage cr page⟩ :: boundaries (start + page.length) pages

def hashes (bodies : List Body) : List MessageHash := bodies.map (MessageHash.fromBytes cr)

/-- The index that paging a list from nothing aims at. -/
def indexOf (bodies : List Body) : PageIndex :=
  ⟨hashes cr bodies,boundaries cr 0 (pageSegments cr bodies)⟩

end

/-- Pages whose bytes are not too many for an object. -/
def Encodable (pages : List (List Body)) : Prop :=
  ∀ page ∈ pages, (pageBytes page).length ≤ javascriptMaxSafeInteger

/-- Bodies whose hashes are well formed. -/
def HashesValid (cr : Crates) (bodies : List Body) : Prop :=
  ∀ b ∈ bodies, isHash (cr.sha256 b) = true

/-- A reader that returns the bodies of a list. -/
def Reads {ε : Type} (read : ℕ → Except ε Body) (bodies : List Body) : Prop :=
  ∀ i b, bodies[i]? = some b → read i = .ok b

section
variable {cr : Crates}

lemma more_append {count size : ℕ} {b : Body} {l r r' : List Body}
    (h : more cr count size b (l ++ r) < l.length) :
    more cr count size b (l ++ r') = more cr count size b (l ++ r) := by
  induction l generalizing count size b with
  | nil => cases h
  | cons next l ih =>
    simp only [List.cons_append, more] at h ⊢
    split_ifs with hc
    · rfl
    · rw [if_neg hc, List.length_cons] at h
      rw [ih (Nat.lt_of_succ_lt_succ h)]

lemma following_local : Local (following cr) := by
  intro l r r' h
  cases l with
  | nil => cases h
  | cons b l => exact more_append (Nat.lt_of_succ_lt_succ h)

/-! ### The loops -/

lemma mapError_eq_ok {ε α : Type} {into : LogicalRecordError → ε} {x : Result α} {a : α} :
    x.mapError into = .ok a ↔ x = .ok a := by
  cases x <;> simp [Except.mapError]

lemma boundary_of_isHash {m : MessageHash} (h : isHash m.hash = true) : m.boundary = .ok m.ends := by
  simp [MessageHash.boundary, validateHash, require, h, bind, Except.bind, pure, Except.pure]

lemma cutAfter_eq {count size : ℕ} {b : Body} {rest : List Body}
    (h : isHash (cr.sha256 b) = true) :
    cutAfter count size (.fromBytes cr b) (hashes cr rest) =
      .ok (match rest with
        | [] => true
        | next :: _ => cuts cr count size b next) := by
  unfold cutAfter
  by_cases hc : count = logicalMessagePageSize
  · cases rest <;> simp [hc, cuts]
  · have hb : endsPage count (.fromBytes cr b) =
        .ok (decide (minPageMessages ≤ count) && (MessageHash.fromBytes cr b).ends) := by
      unfold endsPage
      split_ifs with hm
      · simp [boundary_of_isHash (m := .fromBytes cr b) h, hm]
      · simp [hm]
    rw [if_neg hc, hb]
    cases rest with
    | nil => simp [bind, Except.bind, pure, Except.pure, hashes]
    | cons next rest =>
      simp [bind, Except.bind, pure, Except.pure, hashes, cuts, hc, MessageHash.fromBytes]

variable {ε : Type} {into : LogicalRecordError → ε} {read : ℕ → Except ε Body}

lemma fillPage_cons {start position : ℕ} {bytes bytes' : List UInt8} {b : Body}
    {rest : List MessageHash} {cut : Bool} (hr : read position = .ok b)
    (hb : (if start < position then bytes ++ utf8 [','] else bytes) ++ b = bytes')
    (hc : cutAfter (position + 1 - start) bytes'.length (.fromBytes cr b) rest = .ok cut) :
    fillPage cr into read start position bytes (.fromBytes cr b :: rest) =
      if cut then .ok (position + 1,bytes')
      else fillPage cr into read start (position + 1) bytes' rest := by
  rw [fillPage, hr]
  simp only [bind, Except.bind, require, if_true, hb, hc, Except.mapError, pure, Except.pure]

lemma fillPage_eq {start position count : ℕ} {bytes bytes' : List UInt8} {b : Body}
    {rest : List Body} (hv : HashesValid cr (b :: rest))
    (hr : ∀ i x, (b :: rest)[i]? = some x → read (position + i) = .ok x)
    (hc : position + 1 = start + count) (hs : start ≤ position)
    (hb : (if start < position then bytes ++ utf8 [','] else bytes) ++ b = bytes') :
    fillPage cr into read start position bytes (hashes cr (b :: rest)) =
      .ok (position + 1 + more cr count bytes'.length b rest,
        bytes' ++ appended (rest.take (more cr count bytes'.length b rest))) := by
  have hread : read position = .ok b := hr 0 b rfl
  induction rest generalizing b position count bytes bytes' with
  | nil =>
    have hcut := @cutAfter_eq cr count bytes'.length b [] (hv b (by simp))
    rw [show count = position + 1 - start by omega] at hcut
    have hround := @fillPage_cons cr _ into _ _ _ _ _ _ _ _ hread hb hcut
    simp only [hashes, List.map_cons, List.map_nil] at hround ⊢
    simp [hround, more, appended]
  | cons next rest ih =>
    have hcut := @cutAfter_eq cr count bytes'.length b (next :: rest) (hv b (by simp))
    rw [show count = position + 1 - start by omega] at hcut
    have hround := @fillPage_cons cr _ into _ _ _ _ _ _ _ _ hread hb hcut
    have hnext := @ih (position + 1) (count + 1) bytes' (bytes' ++ utf8 [','] ++ next) next
      (fun x hx => hv x (List.mem_cons_of_mem _ hx))
      (fun i x hx => by rw [Nat.add_assoc, Nat.add_comm 1]; exact hr (i+1) x hx) (by omega)
      (by omega) (by rw [if_pos (by omega)]) (hr 1 next rfl)
    have hlen : (bytes' ++ utf8 [','] ++ next).length = bytes'.length + 1 + next.length := by
      rw [List.length_append, List.length_append, show (utf8 [',']).length = 1 by decide]
    rw [show count = position + 1 - start by omega, hlen] at hnext
    dsimp only at hround
    rw [show count = position + 1 - start by omega]
    rw [show hashes cr (b :: next :: rest) = .fromBytes cr b :: hashes cr (next :: rest) from rfl,
      hround, more]
    split_ifs with hcuts
    · simp [appended]
    · simp only [hnext, List.take_succ_cons, appended, List.flatMap_cons, List.append_assoc,
        Except.ok.injEq, Prod.mk.injEq, and_true]
      omega

lemma more_le (count size : ℕ) (b : Body) (rest : List Body) :
    more cr count size b rest ≤ rest.length := by
  induction rest generalizing count size b with
  | nil => exact le_rfl
  | cons next rest ih =>
    rw [more]
    split_ifs
    · exact Nat.zero_le _
    · exact Nat.succ_le_succ (ih ..)

lemma fillPage_page {start : ℕ} {b : Body} {rest : List Body} (hv : HashesValid cr (b :: rest))
    (hr : ∀ i x, (b :: rest)[i]? = some x → read (start + i) = .ok x) :
    fillPage cr into read start start pagePrefix (hashes cr (b :: rest)) =
      .ok (start + (b :: rest.take (following cr (b :: rest))).length,
        pagePrefix ++ b ++ appended (rest.take (following cr (b :: rest)))) := by
  rw [@fillPage_eq _ _ _ _ _ _ 1 _ (pagePrefix ++ b) _ _ hv hr rfl le_rfl (by simp)]
  rw [List.length_append, List.length_cons, List.length_take, following,
    Nat.min_eq_left (more_le ..)]
  congr 2
  omega

lemma encodedObject_pageBytes {b : Body} {rest : List Body} :
    (encodedObject cr (pagePrefix ++ b ++ appended rest ++ pageSuffix)).mapError into =
      if (pageBytes (b :: rest)).length ≤ javascriptMaxSafeInteger then
        .ok (pageObject cr (b :: rest))
      else .error (into (invalid "logical object size exceeds the JavaScript safe integer limit")) := by
  unfold encodedObject validateSafeInteger require
  change Except.mapError into ((if (pageBytes (b :: rest)).length ≤ _ then _ else _ : Result Unit)
    >>= fun _ => _) = _
  split_ifs <;> rfl

/-- The pages that are built before the outer loop stops at a page of the previous index. -/
def rebuilt (stop : ℕ → Bool) (position : ℕ) : List (List Body) → List (List Body)
  | [] => []
  | page :: pages => if stop position then [] else page :: rebuilt stop (position + page.length) pages

lemma encodable_cons {page : List Body} {pages : List (List Body)} :
    Encodable (page :: pages) ↔
      (pageBytes page).length ≤ javascriptMaxSafeInteger ∧ Encodable pages := by
  simp [Encodable]

/-- When the pages that are reused are those of the rest of the list, the outer loop gives the
pages of the rest of the list. -/
lemma rebuild_eq_ok {previous : PageIndex} {replacedEnd replacementEnd : ℕ} {bodies : List Body}
    (hv : HashesValid cr bodies) (hr : Reads read bodies)
    (hreuse : ∀ p pages, p < bodies.length →
      reusable previous replacedEnd replacementEnd p = some pages →
        pages = boundaries cr p (pageSegments cr (bodies.drop p)))
    {rounds position : ℕ} (hrounds : bodies.length ≤ position + rounds)
    {x : List PageBoundary × List EncodedLogicalObject} :
    rebuild cr into previous (hashes cr bodies) replacedEnd replacementEnd read rounds position =
        .ok x ↔
      Encodable (rebuilt (fun p => (reusable previous replacedEnd replacementEnd p).isSome) position
          (pageSegments cr (bodies.drop position))) ∧
        x = (boundaries cr position (pageSegments cr (bodies.drop position)),
          (rebuilt (fun p => (reusable previous replacedEnd replacementEnd p).isSome) position
            (pageSegments cr (bodies.drop position))).map (pageObject cr)) := by
  have hend : ∀ p, bodies.length ≤ p → pageSegments cr (bodies.drop p) = [] := by
    intro p hp
    rw [List.drop_eq_nil_of_le hp, pageSegments, segments_nil]
  induction rounds generalizing position x with
  | zero =>
    rw [rebuild, hend position hrounds]
    simp [rebuilt, boundaries, Encodable, eq_comm]
  | succ rounds ih =>
    rw [rebuild, show (hashes cr bodies).length = bodies.length by simp [hashes]]
    split_ifs with hp
    · rw [hend position hp]
      simp [rebuilt, boundaries, Encodable, eq_comm]
    · rw [Nat.not_le] at hp
      cases hu : reusable previous replacedEnd replacementEnd position with
      | some pages =>
        dsimp only
        have hnone : rebuilt (fun p => (reusable previous replacedEnd replacementEnd p).isSome)
            position (pageSegments cr (bodies.drop position)) = [] := by
          cases pageSegments cr (bodies.drop position) with
          | nil => rfl
          | cons page pages => simp [rebuilt, hu]
        rw [hnone, hreuse position pages hp hu]
        simp [Encodable, eq_comm]
      | none =>
        obtain ⟨b, rest, hdrop⟩ := List.exists_cons_of_ne_nil
          (List.drop_eq_nil_iff.not.mpr (Nat.not_le.mpr hp))
        have hv' : HashesValid cr (b :: rest) := fun c hc =>
          hv c (List.mem_of_mem_drop (hdrop ▸ hc))
        have hr' : ∀ i c, (b :: rest)[i]? = some c → read (position + i) = .ok c := by
          intro i c hc
          rw [← hdrop, List.getElem?_drop] at hc
          exact hr _ c hc
        generalize hn : following cr (b :: rest) = n
        have hnext : bodies.drop (position + (b :: rest.take n).length) = rest.drop n := by
          have hle : n ≤ rest.length := hn ▸ more_le ..
          rw [← List.drop_drop, hdrop, List.length_cons, List.length_take, Nat.min_eq_left hle,
            List.drop_succ_cons]
        have hsegments : pageSegments cr (bodies.drop position) = (b :: rest.take n) ::
            pageSegments cr (bodies.drop (position + (b :: rest.take n).length)) := by
          rw [hnext, hdrop, pageSegments, segments_cons, hn]
        have hfill := @fillPage_page _ _ into _ _ _ _ hv' hr'
        rw [hn] at hfill
        have htail := @ih (position + (b :: rest.take n).length)
          (by simp only [List.length_cons]; omega)
        rw [hsegments, rebuilt, hu, if_neg (by simp), encodable_cons]
        rw [show (hashes cr bodies).drop position = hashes cr (b :: rest) by
          rw [hashes, ← List.map_drop, hdrop, hashes]]
        dsimp only
        rw [hfill]
        simp only [bind, Except.bind]
        rw [encodedObject_pageBytes]
        split_ifs with hsize
        · dsimp only
          constructor
          · intro h
            obtain ⟨⟨pages, objects⟩, hpages, h⟩ := bind_eq_ok.mp h
            obtain ⟨he, hpair⟩ := htail.mp hpages
            cases hpair
            cases h
            exact ⟨⟨hsize,he⟩,by simp [boundaries, manifestPage, pageObject]⟩
          · rintro ⟨⟨-, he⟩, rfl⟩
            refine bind_eq_ok.mpr ⟨_,htail.mpr ⟨he,rfl⟩,?_⟩
            simp [boundaries, manifestPage, pageObject, pure, Except.pure]
        · simp [hsize]

/-! ### The pages that stay -/

lemma boundaries_append (start : ℕ) (P Q : List (List Body)) :
    boundaries cr start (P ++ Q) =
      boundaries cr start P ++ boundaries cr (start + P.flatten.length) Q := by
  induction P generalizing start with
  | nil => simp [boundaries]
  | cons page P ih =>
    simp only [List.cons_append, boundaries, ih, List.flatten_cons, List.length_append,
      Nat.add_assoc]

@[simp] lemma length_boundaries (start : ℕ) (P : List (List Body)) :
    (boundaries cr start P).length = P.length := by
  induction P generalizing start with
  | nil => rfl
  | cons page P ih => rw [boundaries, List.length_cons, ih, List.length_cons]

lemma boundaries_shift (a c d : ℕ) (Q : List (List Body)) :
    (boundaries cr (a + d) Q).map (fun b => { b with start := c + (b.start - a) }) =
      boundaries cr (c + d) Q := by
  induction Q generalizing d with
  | nil => rfl
  | cons page Q ih =>
    rw [boundaries, boundaries, List.map_cons, Nat.add_assoc, Nat.add_assoc, ih]
    simp

lemma boundaries_dropWhile (start : ℕ) (f : PageBoundary → Bool) (segs : List (List Body)) :
    ∃ P Q, segs = P ++ Q ∧
      (boundaries cr start segs).dropWhile f = boundaries cr (start + P.flatten.length) Q := by
  induction segs generalizing start with
  | nil => exact ⟨[],[],rfl,rfl⟩
  | cons page segs ih =>
    rw [boundaries, List.dropWhile_cons]
    split_ifs with h
    · obtain ⟨P, Q, rfl, hq⟩ := ih (start + page.length)
      refine ⟨page :: P,Q,rfl,?_⟩
      rw [hq, List.flatten_cons, List.length_append, Nat.add_assoc]
    · exact ⟨[],page :: segs,rfl,by simp [boundaries]⟩

lemma pagesFrom_indexOf {bodies : List Body} {start : ℕ} {pages : List PageBoundary}
    (h : (indexOf cr bodies).pagesFrom start = some pages) :
    ∃ P Q, pageSegments cr bodies = P ++ Q ∧ P.flatten.length = start ∧
      pages = boundaries cr start Q := by
  obtain ⟨P, Q, hs, hq⟩ := @boundaries_dropWhile cr 0 (fun b => decide (b.start ≠ start))
    (pageSegments cr bodies)
  unfold PageIndex.pagesFrom at h
  rw [show (indexOf cr bodies).pages = boundaries cr 0 (pageSegments cr bodies) from rfl, hq] at h
  refine ⟨P,Q,hs,?_⟩
  cases Q with
  | nil => cases h
  | cons page Q =>
    have hfirst := List.head?_dropWhile_not (fun b => decide (b.start ≠ start))
      (boundaries cr 0 (pageSegments cr bodies))
    rw [hq] at hfirst
    have hstart : P.flatten.length = start := by simpa [boundaries] using hfirst
    simp only [boundaries, Option.some.injEq] at h
    rw [← h, Nat.zero_add, hstart]
    exact ⟨rfl,rfl⟩

lemma kept_indexOf (bodies : List Body) (a : ℕ) :
    ∃ P Q, pageSegments cr bodies = P ++ Q ∧
      (indexOf cr bodies).pages.take (keptPages (indexOf cr bodies) a) = boundaries cr 0 P ∧
      (((indexOf cr bodies).pages.drop (keptPages (indexOf cr bodies) a)).head?.map
        PageBoundary.start).getD 0 = P.flatten.length ∧ (P = [] ∨ P.flatten.length < a) := by
  have hpages : (indexOf cr bodies).pages = boundaries cr 0 (pageSegments cr bodies) := rfl
  generalize hn : keptPages (indexOf cr bodies) a = n
  unfold keptPages at hn
  generalize pageSegments cr bodies = segs at hpages ⊢
  rw [hpages] at hn ⊢
  have hlen : ((boundaries cr 0 segs).takeWhile fun b => b.start < a).length ≤ segs.length := by
    rw [← @length_boundaries cr 0 segs]
    exact (List.takeWhile_prefix _).length_le
  have hP : (segs.take n).length = n := by
    rw [List.length_take]
    omega
  have hsplit : boundaries cr 0 segs = boundaries cr 0 (segs.take n) ++
      boundaries cr (segs.take n).flatten.length (segs.drop n) := by
    conv_lhs => rw [← List.take_append_drop n segs, boundaries_append, Nat.zero_add]
  have hdrop : (boundaries cr 0 segs).drop n =
      boundaries cr (segs.take n).flatten.length (segs.drop n) := by
    rw [hsplit, List.drop_left' (by rw [length_boundaries, hP])]
  refine ⟨segs.take n,segs.drop n,(List.take_append_drop n segs).symm,?_,?_,?_⟩
  · rw [hsplit, List.take_left' (by rw [length_boundaries, hP])]
  · rw [hdrop]
    cases hq : segs.drop n with
    | nil =>
      have : segs.length ≤ n := List.drop_eq_nil_iff.mp hq
      rw [show n = 0 by omega]
      rfl
    | cons page Q => simp [boundaries]
  · by_cases h0 : n = 0
    · exact .inl (by rw [h0, List.take_zero])
    · right
      -- the page after the kept ones still starts before the range
      generalize hw : (boundaries cr 0 segs).takeWhile (fun b => b.start < a) = w at hn hlen
      have happ := List.takeWhile_append_dropWhile (p := fun b => decide (b.start < a))
        (l := boundaries cr 0 segs)
      rw [hw] at happ
      have hwdrop : (boundaries cr 0 segs).drop n = w.drop n ++
          (boundaries cr 0 segs).dropWhile (fun b => decide (b.start < a)) := by
        conv_lhs => rw [← happ]
        exact List.drop_append_of_le_length (by omega)
      cases hq : segs.drop n with
      | nil =>
        have : segs.length ≤ n := List.drop_eq_nil_iff.mp hq
        omega
      | cons page Q =>
        rw [hdrop, hq, boundaries] at hwdrop
        cases hwn : w.drop n with
        | nil =>
          have : w.length ≤ n := List.drop_eq_nil_iff.mp hwn
          omega
        | cons first rest =>
          rw [hwn, List.cons_append] at hwdrop
          have hmem : first ∈ w := List.mem_of_mem_drop (hwn ▸ List.mem_cons_self)
          rw [← hw] at hmem
          have hlt := List.mem_takeWhile_imp hmem
          rw [← (List.cons.inj hwdrop).1] at hlt
          simpa using hlt

/-! ### An edit -/

/-- A range of a list and what it is replaced with. -/
structure Edit where
  pre : List Body
  replaced : List Body
  replacement : List Body
  post : List Body

namespace Edit

def before (e : Edit) : List Body := e.pre ++ e.replaced ++ e.post

def after (e : Edit) : List Body := e.pre ++ e.replacement ++ e.post

def start (e : Edit) : ℕ := e.pre.length

def replacedEnd (e : Edit) : ℕ := (e.pre ++ e.replaced).length

def replacementEnd (e : Edit) : ℕ := (e.pre ++ e.replacement).length

/-- The call of `repage` for an edit. -/
def repage (cr : Crates) (into : LogicalRecordError → ε) (read : ℕ → Except ε Body) (e : Edit)
    (previous : PageIndex) : Except ε Repaged :=
  Storage.repage cr into previous (hashes cr e.after) e.start e.replacedEnd e.replacementEnd read

lemma drop_after (e : Edit) (d : ℕ) :
    e.after.drop (e.replacementEnd + d) = e.before.drop (e.replacedEnd + d) := by
  rw [← List.drop_drop, ← List.drop_drop]
  unfold before after replacedEnd replacementEnd
  rw [List.drop_left, List.drop_left]

lemma range (e : Edit) : e.start ≤ e.replacedEnd ∧
    e.replacedEnd ≤ (indexOf cr e.before).messages.length ∧
    e.start ≤ e.replacementEnd ∧ e.replacementEnd ≤ (hashes cr e.after).length ∧
    (indexOf cr e.before).messages.take e.start = (hashes cr e.after).take e.start ∧
    (indexOf cr e.before).messages.drop e.replacedEnd =
      (hashes cr e.after).drop e.replacementEnd := by
  have hdrop := e.drop_after 0
  rw [Nat.add_zero, Nat.add_zero] at hdrop
  refine ⟨by simp [start, replacedEnd],by simp [replacedEnd, before, indexOf, hashes],
    by simp [start, replacementEnd],by simp [replacementEnd, after, hashes],?_,?_⟩
  · simp [indexOf, hashes, before, after, start, List.append_assoc]
  · change (hashes cr e.before).drop _ = _
    rw [hashes, hashes, ← List.map_drop, ← List.map_drop, hdrop]

end Edit

lemma reusable_indexOf {e : Edit} {p : ℕ} {pages : List PageBoundary}
    (h : reusable (indexOf cr e.before) e.replacedEnd e.replacementEnd p = some pages) :
    pages = boundaries cr p (pageSegments cr (e.after.drop p)) ∧
      ∀ page ∈ pageSegments cr (e.after.drop p), page ∈ pageSegments cr e.before := by
  unfold reusable at h
  split_ifs at h with hp
  obtain ⟨found, hfound, rfl⟩ := Option.map_eq_some_iff.mp h
  obtain ⟨P, Q, hs, hlen, rfl⟩ := pagesFrom_indexOf hfound
  obtain ⟨d, rfl⟩ := Nat.exists_eq_add_of_le hp
  rw [Nat.add_sub_cancel_left] at hlen ⊢
  have hQ : pageSegments cr (e.after.drop (e.replacementEnd + d)) = Q := by
    rw [e.drop_after, ← hlen]
    exact segments_drop hs
  refine ⟨?_,?_⟩
  · rw [hQ, boundaries_shift]
  · rw [hQ, hs]
    exact fun page hm => List.mem_append_right _ hm

lemma rebuilt_append (stop : ℕ → Bool) (position : ℕ) (segs : List (List Body)) :
    ∃ rest, segs = rebuilt stop position segs ++ rest ∧
      (rest = [] ∨ stop (position + (rebuilt stop position segs).flatten.length) = true) := by
  induction segs generalizing position with
  | nil => exact ⟨[],rfl,.inl rfl⟩
  | cons page segs ih =>
    rw [rebuilt]
    split_ifs with h
    · exact ⟨page :: segs,rfl,.inr h⟩
    · obtain ⟨rest, hs, hr⟩ := ih (position + page.length)
      refine ⟨rest,by rw [List.cons_append, ← hs],?_⟩
      rw [List.flatten_cons, List.length_append, ← Nat.add_assoc]
      exact hr

lemma isHash_of_validateMessages {ms : List MessageHash}
    (h : PageIndex.validateMessages ms = .ok ()) : ∀ m ∈ ms, isHash m.hash = true := by
  induction ms with
  | nil => simp
  | cons m ms ih =>
    obtain ⟨ends, hm, h⟩ := bind_eq_ok.mp h
    obtain ⟨_, hv, -⟩ := bind_eq_ok.mp hm
    intro m' hmem
    rcases List.mem_cons.mp hmem with rfl | hmem
    · exact require_eq_ok.mp hv
    · exact ih h m' hmem

lemma hashesValid_of_validate {bodies : List Body} {pages : List PageBoundary}
    (h : PageIndex.validate ⟨hashes cr bodies,pages⟩ = .ok ()) : HashesValid cr bodies := by
  obtain ⟨_, -, h⟩ := bind_eq_ok.mp h
  obtain ⟨_, -, h⟩ := bind_eq_ok.mp h
  intro b hb
  exact isHash_of_validateMessages h _ (List.mem_map.mpr ⟨b,hb,rfl⟩)

/-- The positions at which the outer loop stops. -/
abbrev Edit.stops (e : Edit) (previous : PageIndex) (p : ℕ) : Bool :=
  (reusable previous e.replacedEnd e.replacementEnd p).isSome

/-- The pages that an edit of a freshly paged list builds after those that stay. -/
abbrev Edit.built (cr : Crates) (e : Edit) (position : ℕ) : List (List Body) :=
  rebuilt (e.stops (indexOf cr e.before)) position (pageSegments cr (e.after.drop position))

/-- An edit of a freshly paged list builds some pages between pages that stay, and succeeds
exactly when these can be encoded and the index of the edited list is valid. -/
lemma Edit.repage_indexOf {e : Edit} (hf : (indexOf cr e.before).validate = .ok ())
    (hr : Reads read e.after) : ∃ P,
      (indexOf cr e.before).pages.take (keptPages (indexOf cr e.before) e.start) =
        boundaries cr 0 P ∧
      (∀ page ∈ P, page ∈ pageSegments cr e.before) ∧
      pageSegments cr e.after = P ++ pageSegments cr (e.after.drop P.flatten.length) ∧
      ∀ r, e.repage cr into read (indexOf cr e.before) = .ok r ↔
        Encodable (e.built cr P.flatten.length) ∧ (indexOf cr e.after).validate = .ok () ∧
          r = ⟨indexOf cr e.after,(e.built cr P.flatten.length).map (pageObject cr)⟩ := by
  obtain ⟨P, Q, hs, htake, hposition, hP⟩ := @kept_indexOf cr e.before e.start
  have hsegments : pageSegments cr e.after =
      P ++ pageSegments cr (e.after.drop P.flatten.length) := by
    rcases hP with rfl | hP
    · simp
    · rw [Edit.before, List.append_assoc] at hs
      rw [Edit.after, List.append_assoc]
      exact segments_append following_local hs hP
  refine ⟨P,htake,fun page hm => hs ▸ List.mem_append_left _ hm,hsegments,fun r => ?_⟩
  have hloop := fun (hv : HashesValid cr e.after) => @rebuild_eq_ok cr _ into read
    (indexOf cr e.before) e.replacedEnd e.replacementEnd e.after hv hr
    (fun p pages _ h => (reusable_indexOf h).1) (hashes cr e.after).length P.flatten.length
    (by rw [hashes, List.length_map]; omega)
  have hindex : boundaries cr 0 P ++ boundaries cr P.flatten.length
      (pageSegments cr (e.after.drop P.flatten.length)) = (indexOf cr e.after).pages := by
    change _ = boundaries cr 0 (pageSegments cr e.after)
    rw [hsegments, boundaries_append, Nat.zero_add]
  have hrepage : e.repage cr into read (indexOf cr e.before) =
      (rebuild cr into (indexOf cr e.before) (hashes cr e.after) e.replacedEnd e.replacementEnd read
        (hashes cr e.after).length P.flatten.length >>= fun x =>
          (PageIndex.validate ⟨hashes cr e.after,boundaries cr 0 P ++ x.1⟩).mapError into >>=
            fun _ => .ok ⟨⟨hashes cr e.after,boundaries cr 0 P ++ x.1⟩,x.2⟩) := by
    unfold Edit.repage Storage.repage
    rw [hf]
    dsimp only
    rw [htake, hposition, require_eq_ok.mpr e.range]
    rfl
  rw [hrepage]
  constructor
  · intro h
    obtain ⟨x, hx, h⟩ := bind_eq_ok.mp h
    obtain ⟨_, hvalid, h⟩ := bind_eq_ok.mp h
    cases h
    rw [mapError_eq_ok] at hvalid
    obtain ⟨he, rfl⟩ := (hloop (hashesValid_of_validate hvalid)).mp hx
    rw [hindex] at hvalid ⊢
    exact ⟨he,hvalid,rfl⟩
  · rintro ⟨he, hvalid, rfl⟩
    refine bind_eq_ok.mpr ⟨_,(hloop (hashesValid_of_validate hvalid)).mpr ⟨he,rfl⟩,?_⟩
    rw [hindex]
    exact bind_eq_ok.mpr ⟨(),mapError_eq_ok.mpr hvalid,rfl⟩

/-! ### Every edit -/

/-- What paging a list from nothing gives: the index aimed at, when its objects are not too large
and it passes its checks. -/
structure Fresh (cr : Crates) (bodies : List Body) (index : PageIndex) : Prop where
  index_eq : index = indexOf cr bodies
  encodable : Encodable (pageSegments cr bodies)
  valid : (indexOf cr bodies).validate = .ok ()

lemma pageSegments_drop {bodies : List Body} {P Q R : List (List Body)}
    (hs : pageSegments cr bodies = P ++ pageSegments cr (bodies.drop P.flatten.length))
    (hq : pageSegments cr (bodies.drop P.flatten.length) = Q ++ R) :
    pageSegments cr (bodies.drop (P.flatten.length + Q.flatten.length)) = R := by
  rw [hq, ← List.append_assoc] at hs
  have h := segments_drop hs
  rwa [List.flatten_append, List.length_append] at h

lemma Edit.encodable_built {e : Edit} {P : List (List Body)}
    (he : Encodable (pageSegments cr e.before))
    (hP : ∀ page ∈ P, page ∈ pageSegments cr e.before)
    (hs : pageSegments cr e.after = P ++ pageSegments cr (e.after.drop P.flatten.length)) :
    Encodable (e.built cr P.flatten.length) ↔ Encodable (pageSegments cr e.after) := by
  obtain ⟨rest, hr, hstop⟩ := rebuilt_append (e.stops (indexOf cr e.before)) P.flatten.length
    (pageSegments cr (e.after.drop P.flatten.length))
  have hrest : ∀ page ∈ rest, page ∈ pageSegments cr e.before := by
    rcases hstop with rfl | hstop
    · simp
    · obtain ⟨pages, hpages⟩ := Option.isSome_iff_exists.mp hstop
      have hold := (reusable_indexOf hpages).2
      rw [pageSegments_drop hs hr] at hold
      exact hold
  constructor
  · intro h page hm
    rw [hs, hr, List.mem_append, List.mem_append] at hm
    rcases hm with hm | hm | hm
    · exact he page (hP page hm)
    · exact h page hm
    · exact he page (hrest page hm)
  · intro h page hm
    apply h page
    rw [hs, hr]
    exact List.mem_append_right _ (List.mem_append_left _ hm)

theorem Edit.repage_fresh {e : Edit} {index index' : PageIndex} (hf : Fresh cr e.before index)
    (hr : Reads read e.after) :
    (∃ r, e.repage cr into read index = .ok r ∧ r.index = index') ↔ Fresh cr e.after index' := by
  obtain rfl := hf.index_eq
  obtain ⟨P, -, hP, hs, hrepage⟩ := @Edit.repage_indexOf cr _ into _ e hf.valid hr
  have hbuilt := Edit.encodable_built hf.encodable hP hs
  constructor
  · rintro ⟨r, h, rfl⟩
    obtain ⟨he, hv, rfl⟩ := (hrepage r).mp h
    exact ⟨rfl,hbuilt.mp he,hv⟩
  · intro h
    exact ⟨_,(hrepage _).mpr ⟨hbuilt.mpr h.encodable,h.valid,rfl⟩,h.index_eq.symm⟩

/-- Paging a list from nothing: `repage` of the default index. -/
def paginate (cr : Crates) (into : LogicalRecordError → ε) (read : ℕ → Except ε Body)
    (bodies : List Body) : Except ε Repaged :=
  Storage.repage cr into .empty (hashes cr bodies) 0 0 bodies.length read

lemma fresh_empty (cr : Crates) : Fresh cr [] .empty := by
  refine ⟨by simp [indexOf, hashes, boundaries, PageIndex.empty],by simp [Encodable],?_⟩
  simp [indexOf, hashes, boundaries, PageIndex.validate, PageIndex.manifest,
    MessageManifest.validate, MessageManifest.countMessages, PageIndex.contiguous,
    PageIndex.validateMessages, require, bind, Except.bind]

theorem paginate_fresh {bodies : List Body} {index : PageIndex} (hr : Reads read bodies) :
    (∃ r, paginate cr into read bodies = .ok r ∧ r.index = index) ↔ Fresh cr bodies index := by
  have hafter : Edit.after ⟨[],[],bodies,[]⟩ = bodies := by simp [Edit.after]
  have h := @Edit.repage_fresh cr _ into read ⟨[],[],bodies,[]⟩ _ index (fresh_empty cr) (hafter.symm ▸ hr)
  rw [hafter] at h
  rw [← h, Edit.repage, hafter]
  rfl

/-- The indexes that paging a list and then editing it any number of times goes through. -/
inductive Paged (cr : Crates) : List Body → PageIndex → Prop
  | fresh {ε : Type} {into : LogicalRecordError → ε} {read : ℕ → Except ε Body}
      {bodies : List Body} {r : Repaged} (hr : Reads read bodies)
      (h : paginate cr into read bodies = .ok r) : Paged cr bodies r.index
  | edit {ε : Type} {into : LogicalRecordError → ε} {read : ℕ → Except ε Body} {e : Edit}
      {index : PageIndex} {r : Repaged} (h : Paged cr e.before index) (hr : Reads read e.after)
      (hs : e.repage cr into read index = .ok r) : Paged cr e.after r.index

theorem Paged.fresh_index {bodies : List Body} {index : PageIndex} (h : Paged cr bodies index) :
    Fresh cr bodies index := by
  induction h with
  | fresh hr h => exact (paginate_fresh hr).mp ⟨_,h,rfl⟩
  | edit h hr hs ih => exact (Edit.repage_fresh ih hr).mp ⟨_,hs,rfl⟩

/-! ### The limits of a page -/

lemma more_count {count size : ℕ} {b : Body} {rest : List Body}
    (h : count ≤ logicalMessagePageSize) :
    count + more cr count size b rest ≤ logicalMessagePageSize := by
  induction rest generalizing count size b with
  | nil => exact h
  | cons next rest ih =>
    rw [more]
    split_ifs with hc
    · exact h
    · have hne : count ≠ logicalMessagePageSize := by
        rintro rfl
        simp [cuts] at hc
      have := @ih (count + 1) (size + 1 + next.length) next (by omega)
      omega

lemma more_bytes (count size : ℕ) (b : Body) (rest : List Body) :
    more cr count size b rest = 0 ∨
      size + (appended (rest.take (more cr count size b rest))).length + pageSuffix.length ≤
        maxPageBytes := by
  induction rest generalizing count size b with
  | nil => exact .inl rfl
  | cons next rest ih =>
    rw [more]
    split_ifs with hc
    · exact .inl rfl
    · right
      have hroom : size + 1 + next.length + pageSuffix.length ≤ maxPageBytes := by
        simp only [cuts, Bool.or_eq_true, decide_eq_true_eq, not_or, Nat.not_lt] at hc
        exact hc.2
      have hsep : (utf8 [',']).length = 1 := by decide
      rcases ih (count + 1) (size + 1 + next.length) next with h0 | h
      · rw [h0]
        simp only [List.take_succ_cons, List.take_zero, appended, List.flatMap_cons,
          List.flatMap_nil, List.length_append, hsep, List.length_nil]
        omega
      · simp only [List.take_succ_cons, appended, List.flatMap_cons, List.length_append, hsep] at h ⊢
        omega

theorem page_limits {bodies page : List Body} (h : page ∈ pageSegments cr bodies) :
    0 < page.length ∧ page.length ≤ logicalMessagePageSize ∧
      ((pageBytes page).length ≤ maxPageBytes ∨ page.length = 1) := by
  refine forall_mem_segments (P := fun page => 0 < page.length ∧
    page.length ≤ logicalMessagePageSize ∧
      ((pageBytes page).length ≤ maxPageBytes ∨ page.length = 1)) ?_ h
  intro b rest
  have hle : more cr 1 (pagePrefix.length + b.length) b rest ≤ rest.length := more_le ..
  have hcount : 1 + more cr 1 (pagePrefix.length + b.length) b rest ≤ logicalMessagePageSize :=
    more_count (by decide)
  have hlength : (b :: rest.take (following cr (b :: rest))).length =
      more cr 1 (pagePrefix.length + b.length) b rest + 1 := by
    rw [List.length_cons, List.length_take, following, Nat.min_eq_left hle]
  refine ⟨by omega,by omega,?_⟩
  rcases @more_bytes cr 1 (pagePrefix.length + b.length) b rest with h0 | h
  · exact .inr (by omega)
  · left
    simpa [pageBytes, following, Nat.add_assoc] using h

lemma mem_boundaries {start : ℕ} {segs : List (List Body)} {b : PageBoundary}
    (h : b ∈ boundaries cr start segs) : ∃ page ∈ segs, b.page = manifestPage cr page := by
  induction segs generalizing start with
  | nil => cases h
  | cons page segs ih =>
    rcases List.mem_cons.mp h with rfl | h
    · exact ⟨page,List.mem_cons_self,rfl⟩
    · obtain ⟨page', hm, hp⟩ := ih h
      exact ⟨page',List.mem_cons_of_mem _ hm,hp⟩

/-! ### Paging succeeds -/

lemma pageInvalid_eq_false {page : ManifestPage} : MessageManifest.pageInvalid page = false ↔
    page.messageCount ≠ 0 ∧ page.messageCount ≤ logicalMessagePageSize ∧
      pagePrefix.length + pageSuffix.length ≤ page.byteLength ∧
        (page.byteLength ≤ maxPageBytes ∨ page.messageCount = 1) := by
  unfold MessageManifest.pageInvalid
  rw [← Bool.not_eq_true]
  simp only [Bool.or_eq_true, Bool.and_eq_true, decide_eq_true_eq]
  omega

lemma countMessages_boundaries (hh : ∀ bytes, isHash (cr.sha256 bytes) = true) {start count : ℕ}
    {segs : List (List Body)} (hl : ∀ page ∈ segs, 0 < page.length ∧
      page.length ≤ logicalMessagePageSize ∧
        ((pageBytes page).length ≤ maxPageBytes ∨ page.length = 1))
    (hc : count + segs.flatten.length < 2^64) :
    MessageManifest.countMessages count ((boundaries cr start segs).map PageBoundary.page) =
      .ok (count + segs.flatten.length) := by
  induction segs generalizing start count with
  | nil => rfl
  | cons page segs ih =>
    obtain ⟨hpos, hle, hbytes⟩ := hl page List.mem_cons_self
    have hpage : MessageManifest.pageInvalid (manifestPage cr page) = false := by
      have hmin : pagePrefix.length + pageSuffix.length ≤ (pageBytes page).length := by
        cases page with
        | nil => simp [pageBytes]
        | cons b rest => simp only [pageBytes, List.length_append]; omega
      exact pageInvalid_eq_false.mpr ⟨Nat.ne_of_gt hpos,hle,hmin,hbytes⟩
    rw [List.flatten_cons, List.length_append] at hc ⊢
    rw [boundaries, List.map_cons, MessageManifest.countMessages]
    simp only [bind, Except.bind]
    rw [show validateHash (manifestPage cr page).hash "message page hash" = .ok () from
        require_eq_ok.mpr (hh _), require_eq_ok.mpr hpage]
    dsimp only
    rw [show (manifestPage cr page).messageCount = page.length from rfl,
      require_eq_ok.mpr (by omega)]
    dsimp only
    rw [ih (fun page' hm => hl page' (List.mem_cons_of_mem _ hm)) (by omega), Nat.add_assoc]

lemma contiguous_boundaries (start : ℕ) (segs : List (List Body)) :
    PageIndex.contiguous start (boundaries cr start segs) = true := by
  induction segs generalizing start with
  | nil => rfl
  | cons page segs ih => simp [boundaries, PageIndex.contiguous, manifestPage, ih]

lemma validateMessages_hashes {bodies : List Body} (h : HashesValid cr bodies) :
    PageIndex.validateMessages (hashes cr bodies) = .ok () := by
  induction bodies with
  | nil => rfl
  | cons b bodies ih =>
    have hb := boundary_of_isHash (m := .fromBytes cr b) (h b (by simp))
    rw [hashes, List.map_cons, PageIndex.validateMessages, hb]
    exact ih fun c hc => h c (List.mem_cons_of_mem _ hc)

/-- With well-formed hashes a list of messages that fit into objects is paged. -/
theorem fresh_indexOf {bodies : List Body} (hh : ∀ bytes, isHash (cr.sha256 bytes) = true)
    (hl : bodies.length < 2^64)
    (hb : ∀ b ∈ bodies, pagePrefix.length + b.length + pageSuffix.length ≤
      javascriptMaxSafeInteger) : Fresh cr bodies (indexOf cr bodies) := by
  refine ⟨rfl,?_,?_⟩
  · intro page hm
    obtain ⟨hpos, -, hsize⟩ := page_limits hm
    rcases hsize with hsize | hone
    · exact hsize.trans (by decide)
    · obtain ⟨b, rfl⟩ := List.length_eq_one_iff.mp hone
      have hmem : b ∈ bodies := by
        rw [← flatten_segments (following cr) bodies]
        exact List.mem_flatten.mpr ⟨[b],hm,List.mem_singleton.mpr rfl⟩
      have := hb b hmem
      simpa [pageBytes, appended, Nat.add_assoc] using this
  · have hcount := @countMessages_boundaries cr hh 0 0 (pageSegments cr bodies)
      (fun page hm => page_limits hm)
      (by rw [flatten_segments]; omega)
    rw [flatten_segments, Nat.zero_add] at hcount
    have hmanifest : (indexOf cr bodies).manifest.validate = .ok () := by
      unfold MessageManifest.validate
      rw [show (indexOf cr bodies).manifest.pages =
        (boundaries cr 0 (pageSegments cr bodies)).map PageBoundary.page from rfl, hcount]
      simp [PageIndex.manifest, indexOf, hashes, require, bind, Except.bind]
    unfold PageIndex.validate
    rw [hmanifest]
    simp only [bind, Except.bind]
    rw [show (indexOf cr bodies).pages = boundaries cr 0 (pageSegments cr bodies) from rfl,
      contiguous_boundaries]
    exact validateMessages_hashes fun b _ => hh b

/-! ### What an edit emits -/

/-- The objects of an edit are the pages it builds: from the last page that starts before the
range up to the first behind it that starts where a previous page did. -/
structure Emitted (previous : PageIndex) (e : Edit) (r : Repaged) (built reused : List PageBoundary) :
    Prop where
  pages : r.index.pages =
    previous.pages.take (keptPages previous e.start) ++ built ++ reused
  objects : r.objects.map (fun o => (o.hash,o.size)) =
    built.map fun b => (b.page.hash,b.page.byteLength)
  moved : ∃ j, reused = (previous.pages.drop j).map fun b =>
    { b with start := e.replacementEnd + (b.start - e.replacedEnd) }
  first : ∀ b ∈ built, e.replacementEnd ≤ b.start →
    ∀ p ∈ previous.pages, p.start ≠ e.replacedEnd + (b.start - e.replacementEnd)

lemma pagesFrom_eq_none {index : PageIndex} {start : ℕ} (h : index.pagesFrom start = none) :
    ∀ p ∈ index.pages, p.start ≠ start := by
  unfold PageIndex.pagesFrom at h
  cases hd : index.pages.dropWhile fun b => decide (b.start ≠ start) with
  | cons b pages =>
    rw [hd] at h
    cases h
  | nil =>
    intro p hp
    simpa using List.dropWhile_eq_nil_iff.mp hd p hp

lemma pagesFrom_drop {index : PageIndex} {start : ℕ} {pages : List PageBoundary}
    (h : index.pagesFrom start = some pages) : ∃ j, pages = index.pages.drop j := by
  have hs := List.dropWhile_suffix (l := index.pages) fun b => decide (b.start ≠ start)
  refine ⟨index.pages.length - pages.length,?_⟩
  unfold PageIndex.pagesFrom at h
  cases hd : index.pages.dropWhile fun b => decide (b.start ≠ start) with
  | nil =>
    rw [hd] at h
    cases h
  | cons b found =>
    rw [hd] at h hs
    cases h
    exact List.suffix_iff_eq_drop.mp hs

lemma boundaries_rebuilt {stop : ℕ → Bool} {position : ℕ} {segs : List (List Body)}
    {b : PageBoundary} (h : b ∈ boundaries cr position (rebuilt stop position segs)) :
    stop b.start = false := by
  induction segs generalizing position with
  | nil => cases h
  | cons page segs ih =>
    rw [rebuilt] at h
    split_ifs at h with hs
    · cases h
    · rcases List.mem_cons.mp h with rfl | h
      · simpa using hs
      · exact ih h

/-- The objects of an edit of a freshly paged list. -/
theorem Edit.emitted {e : Edit} {index : PageIndex} {r : Repaged}
    (hf : Fresh cr e.before index) (hr : Reads read e.after)
    (h : e.repage cr into read index = .ok r) :
    ∃ built reused, Emitted index e r built reused := by
  obtain rfl := hf.index_eq
  obtain ⟨P, htake, hP, hs, hrepage⟩ := @Edit.repage_indexOf cr _ into _ e hf.valid hr
  obtain ⟨-, -, rfl⟩ := (hrepage r).mp h
  obtain ⟨rest, hrest, hstop⟩ := rebuilt_append (e.stops (indexOf cr e.before)) P.flatten.length
    (pageSegments cr (e.after.drop P.flatten.length))
  have hpages : (indexOf cr e.after).pages = boundaries cr 0 P ++
      boundaries cr P.flatten.length (e.built cr P.flatten.length) ++
        boundaries cr (P.flatten.length + (e.built cr P.flatten.length).flatten.length) rest := by
    change boundaries cr 0 (pageSegments cr e.after) = _
    rw [hs, hrest, boundaries_append, boundaries_append, Nat.zero_add, List.append_assoc]
  refine ⟨boundaries cr P.flatten.length (e.built cr P.flatten.length),
    boundaries cr (P.flatten.length + (e.built cr P.flatten.length).flatten.length) rest,?_,?_,?_,?_⟩
  · rw [htake]
    exact hpages
  · dsimp only
    generalize e.built cr P.flatten.length = built
    generalize P.flatten.length = position
    induction built generalizing position with
    | nil => rfl
    | cons page built ih => simp [boundaries, manifestPage, pageObject, ih (position + page.length)]
  · rcases hstop with rfl | hstop
    · exact ⟨(indexOf cr e.before).pages.length,by simp [boundaries]⟩
    · obtain ⟨pages, hreuse⟩ := Option.isSome_iff_exists.mp hstop
      have hsame := (reusable_indexOf hreuse).1
      rw [pageSegments_drop hs hrest] at hsame
      unfold reusable at hreuse
      split_ifs at hreuse
      obtain ⟨found, hfound, hmoved⟩ := Option.map_eq_some_iff.mp hreuse
      obtain ⟨j, rfl⟩ := pagesFrom_drop hfound
      exact ⟨j,hsame.symm.trans hmoved.symm⟩
  · intro b hb hle p hp
    have hnone := boundaries_rebuilt hb
    simp only [Option.isSome_eq_false_iff, Option.isNone_iff_eq_none, reusable, if_pos hle,
      Option.map_eq_none_iff] at hnone
    exact pagesFrom_eq_none hnone p hp

lemma Emitted.covers {previous : PageIndex} {e : Edit} {r : Repaged} {built reused : List PageBoundary}
    (h : Emitted previous e r built reused) {b : PageBoundary} (hb : b ∈ r.index.pages) :
    (∃ p ∈ previous.pages, p.page = b.page) ∨
      ∃ o ∈ r.objects, o.hash = b.page.hash ∧ o.size = b.page.byteLength := by
  rw [h.pages, List.mem_append, List.mem_append] at hb
  rcases hb with (hb | hb) | hb
  · exact .inl ⟨b,List.mem_of_mem_take hb,rfl⟩
  · right
    have hm : (b.page.hash,b.page.byteLength) ∈
        built.map fun b => (b.page.hash,b.page.byteLength) := List.mem_map.mpr ⟨b,hb,rfl⟩
    rw [← h.objects] at hm
    obtain ⟨o, ho, he⟩ := List.mem_map.mp hm
    exact ⟨o,ho,(Prod.mk.inj he).1,(Prod.mk.inj he).2⟩
  · obtain ⟨j, hj⟩ := h.moved
    rw [hj] at hb
    obtain ⟨p, hp, rfl⟩ := List.mem_map.mp hb
    exact .inl ⟨p,List.mem_of_mem_drop hp,rfl⟩

end

/-- However a list was paged and edited, its index is the one that paging it from nothing gives,
its pages keep the limits, and a further edit succeeds when paging the edited list does. It emits
the pages it builds, and every page that the previous index did not have is one of them. -/
theorem incremental_paging_agrees {cr : Crates} {bodies : List Body} {index : PageIndex}
    (h : Paged cr bodies index) :
    (∀ (ε : Type) (into : LogicalRecordError → ε) (read : ℕ → Except ε Body), Reads read bodies →
      ∃ r, paginate cr into read bodies = .ok r ∧ r.index = index) ∧
    (∀ b ∈ index.pages, b.page.messageCount ≤ 128 ∧
      (b.page.byteLength ≤ 256*1024 ∨ b.page.messageCount = 1)) ∧
    ∀ (e : Edit) (ε : Type) (into : LogicalRecordError → ε) (read : ℕ → Except ε Body),
      e.before = bodies → Reads read e.after →
        ((∀ bytes, isHash (cr.sha256 bytes) = true) → e.after.length < 2^64 →
          (∀ b ∈ e.after, pagePrefix.length + b.length + pageSuffix.length ≤
            javascriptMaxSafeInteger) → ∃ r, e.repage cr into read index = .ok r) ∧
        ((∃ r, e.repage cr into read index = .ok r) ↔
          ∃ r, paginate cr into read e.after = .ok r) ∧
        ∀ r, e.repage cr into read index = .ok r →
          (∃ built reused, Emitted index e r built reused) ∧
          ∀ b ∈ r.index.pages, (∃ p ∈ index.pages, p.page = b.page) ∨
            ∃ o ∈ r.objects, o.hash = b.page.hash ∧ o.size = b.page.byteLength := by
  have hf := h.fresh_index
  refine ⟨?_,?_,?_⟩
  · exact fun ε into read hr => (paginate_fresh hr).mpr hf
  · intro b hb
    obtain rfl := hf.index_eq
    obtain ⟨page, hm, hp⟩ := mem_boundaries hb
    rw [hp]
    exact ⟨(page_limits hm).2.1,(page_limits hm).2.2⟩
  · rintro e ε into read rfl hr
    refine ⟨?_,?_,?_⟩
    · intro hh hl hb
      obtain ⟨r, hok, -⟩ := (@Edit.repage_fresh _ _ into _ _ _ _ hf hr).mpr (fresh_indexOf hh hl hb)
      exact ⟨r,hok⟩
    · constructor
      · rintro ⟨r, hok⟩
        obtain ⟨r', hok', -⟩ := (@paginate_fresh _ _ into _ _ _ hr).mpr
          ((Edit.repage_fresh hf hr).mp ⟨r,hok,rfl⟩)
        exact ⟨r',hok'⟩
      · rintro ⟨r, hok⟩
        obtain ⟨r', hok', -⟩ := (@Edit.repage_fresh _ _ into _ _ _ _ hf hr).mpr
          ((paginate_fresh hr).mp ⟨r,hok,rfl⟩)
        exact ⟨r',hok'⟩
    · intro r hok
      obtain ⟨built, reused, he⟩ := Edit.emitted hf hr hok
      exact ⟨⟨built,reused,he⟩,fun b hb => he.covers hb⟩

/-- The reader of a list of bodies. -/
def readFrom (bodies : List Body) (i : ℕ) : Result Body :=
  match bodies[i]? with
  | some b => .ok b
  | none => .error (invalid "missing message")

lemma reads_readFrom (bodies : List Body) : Reads (readFrom bodies) bodies := by
  intro i b h
  simp [readFrom, h]

/-- Sixteen messages whose hash ends a page, and a last one that is replaced. -/
def sampleEdit : Edit where
  pre := List.replicate 16 (utf8 "19".toList)
  replaced := [utf8 "1".toList]
  replacement := [utf8 "2".toList]
  post := []

def fullPage : String := "b8f72060f7ec56447ac6d70ee146be3254efd97bcc8f465efd24e2715a07a667"

def sampleCrates : Crates :=
  Wire.tabulated
    [(utf8 "19".toList,"9400f1b21cb527d7fa3d3eabba93557a18ebe7a2ca4e471cfe5e4c5b4ca7f767"),
      (utf8 "1".toList,"6b86b273ff34fce19d6b804eff5a3f5747ada4eaa22f1d49c01e52ddb7875b4b"),
      (utf8 "2".toList,"d4735e3a265e16eee03f59718b9b5d03019c07d8b6c51f90da3a666eec13ab35"),
      (pageBytes sampleEdit.pre,fullPage),
      (pageBytes sampleEdit.replaced,
        "fc2bacaef9d01b25b5cf2a1189036f9caa6a28a5138cac799a200d9b4e089738"),
      (pageBytes sampleEdit.replacement,
        "b6a496fb9d6f98530b6fc6b1df36e005c3397575d36c5e646b43af27479910a2")] [] []

/-- The index of the list before the edit. -/
def samplePrevious : PageIndex where
  messages := hashes sampleCrates sampleEdit.before
  pages := [⟨0,⟨fullPage,16,106⟩⟩,
    ⟨16,⟨"fc2bacaef9d01b25b5cf2a1189036f9caa6a28a5138cac799a200d9b4e089738",1,60⟩⟩]

lemma paged_samplePrevious : Paged sampleCrates sampleEdit.before samplePrevious := by
  have h : (paginate sampleCrates id (readFrom sampleEdit.before) sampleEdit.before).map
      Repaged.index = .ok samplePrevious := by decide
  cases hr : paginate sampleCrates id (readFrom sampleEdit.before) sampleEdit.before with
  | error e =>
    rw [hr] at h
    cases h
  | ok r =>
    rw [hr] at h
    rw [← Except.ok.inj h]
    exact .fresh (reads_readFrom _) hr

lemma repage_sampleEdit :
    (sampleEdit.repage sampleCrates id (readFrom sampleEdit.after) samplePrevious).map
      (fun r => r.objects.map EncodedLogicalObject.hash) = .ok [fullPage,
        "b6a496fb9d6f98530b6fc6b1df36e005c3397575d36c5e646b43af27479910a2"] := by
  decide

/-- The index after the last message was replaced is the one of paging the new list. -/
theorem incremental_paging_agrees_replaced :
    ∃ r, sampleEdit.repage sampleCrates id (readFrom sampleEdit.after) samplePrevious = .ok r ∧
      ∃ r', paginate sampleCrates id (readFrom sampleEdit.after) sampleEdit.after = .ok r' ∧
        r'.index = r.index := by
  obtain ⟨r, hr⟩ : ∃ r, sampleEdit.repage sampleCrates id (readFrom sampleEdit.after)
      samplePrevious = .ok r := by
    have h := repage_sampleEdit
    cases hr : sampleEdit.repage sampleCrates id (readFrom sampleEdit.after) samplePrevious with
    | error e =>
      rw [hr] at h
      cases h
    | ok r => exact ⟨r,rfl⟩
  obtain ⟨agrees, -⟩ := incremental_paging_agrees
    (paged_samplePrevious.edit (reads_readFrom sampleEdit.after) hr)
  exact ⟨r,hr,agrees _ id _ (reads_readFrom sampleEdit.after)⟩

/-- An edit right behind a page emits that page again, although the previous index has it. -/
theorem repage_emits_again :
    Paged sampleCrates sampleEdit.before samplePrevious ∧
    (samplePrevious.pages.map fun b => b.page.hash).head? = some fullPage ∧
    (sampleEdit.repage sampleCrates id (readFrom sampleEdit.after) samplePrevious).map
      (fun r => r.objects.map EncodedLogicalObject.hash) = .ok [fullPage,
        "b6a496fb9d6f98530b6fc6b1df36e005c3397575d36c5e646b43af27479910a2"] :=
  ⟨paged_samplePrevious,rfl,repage_sampleEdit⟩

end RisuNest.Storage
