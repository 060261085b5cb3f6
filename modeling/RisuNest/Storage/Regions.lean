import RisuNest.Storage.StoreError
import Mathlib.Algebra.GroupWithZero.Nat
import Mathlib.Data.List.Range
import Mathlib.Tactic.Common

/-! The spans of a message list that a list of edits changes (`dirty_regions` of
`message_pages.rs`). An edit keeps track of where every kept message came from, so the regions it
leaves line the old list up with the new one. -/
namespace RisuNest.Storage

/-- One edit of a message list. The numbers are 64 bits wide and signed. -/
structure MessageEdit where
  start : ℤ
  deleteCount : ℤ
  insertCount : ℤ
  deriving DecidableEq, Repr

/-- A changed span, in old and new message positions. -/
structure DirtyRegion where
  oldStart : ℕ
  oldEnd : ℕ
  newStart : ℕ
  newEnd : ℕ
  deriving DecidableEq, Repr

inductive Piece
  | old (start len : ℕ)
  | new (len : ℕ)
  deriving DecidableEq, Repr

namespace Piece

def len : Piece → ℕ
  | old _ len => len
  | new len => len

def slice (offset len : ℕ) : Piece → Piece
  | old start _ => .old (start + offset) len
  | new _ => .new len

end Piece

/-- The sum of two `usize`. -/
def addUsize (a b : ℕ) : ℕ := (a + b) % 2^64

lemma addUsize_eq {a b : ℕ} (h : a + b < 2^64) : addUsize a b = a + b := Nat.mod_eq_of_lt h

/-- The loop of `pieces_between`. -/
def piecesBetweenFrom (lower upper position : ℕ) : List Piece → List Piece
  | [] => []
  | piece :: pieces =>
    let stop := addUsize position piece.len
    let low := max lower position
    let high := min upper stop
    (if low < high then [piece.slice (low - position) (high - low)] else []) ++
      piecesBetweenFrom lower upper stop pieces

def piecesBetween (pieces : List Piece) (lower upper : ℕ) : List Piece :=
  piecesBetweenFrom lower upper 0 pieces

def invalidRange : StoreError := codecError "invalid message page edit range"

/-- `usize::try_from` of an edit's number. -/
def usizeOf (n : ℤ) : StoreResult ℕ := if 0 ≤ n then .ok n.toNat else .error invalidRange

/-- One round of the first loop of `dirty_regions`. -/
def applyEdit (s : List Piece × ℕ) (edit : MessageEdit) : StoreResult (List Piece × ℕ) := do
  let start ← usizeOf edit.start
  let deleted ← usizeOf edit.deleteCount
  let inserted ← usizeOf edit.insertCount
  require (start ≤ s.2 ∧ deleted ≤ s.2 - start) invalidRange
  pure (piecesBetween s.1 0 start ++ Piece.new inserted ::
    piecesBetween s.1 (addUsize start deleted) s.2,addUsize (s.2 - deleted) inserted)

/-- One round of the loop that merges neighbours. -/
def mergePiece (merged : List Piece) (piece : Piece) : List Piece :=
  match merged.getLast?, piece with
  | some (.new len), .new more => merged.dropLast ++ [.new (addUsize len more)]
  | some (.old start len), .old next more =>
    if start + len = next then merged.dropLast ++ [.old start (addUsize len more)]
    else merged ++ [piece]
  | _, _ => merged ++ [piece]

/-- The state of the last loop: a region is a run of new pieces, or a gap between kept old
pieces. -/
structure Spans where
  regions : List DirtyRegion
  oldPosition : ℕ
  newPosition : ℕ
  openAt : Option (ℕ × ℕ)

/-- Where the region starts that is open, or would open here. -/
def Spans.opened (s : Spans) : ℕ × ℕ := s.openAt.getD (s.oldPosition,s.newPosition)

/-- One round of the last loop. -/
def spanPiece (s : Spans) : Piece → Spans
  | .old start len =>
    { regions :=
        if start ≠ s.opened.1 ∨ s.newPosition ≠ s.opened.2 then
          s.regions ++ [⟨s.opened.1,start,s.opened.2,s.newPosition⟩]
        else s.regions
      oldPosition := start + len
      newPosition := addUsize s.newPosition len
      openAt := none }
  | .new len =>
    { s with
      newPosition := addUsize s.newPosition len
      openAt := some s.opened }

def dirtyRegions (oldCount count : ℕ) (edits : List MessageEdit) :
    StoreResult (List DirtyRegion) := do
  let edited ← edits.foldlM applyEdit ([.old 0 oldCount],oldCount)
  require (edited.2 = count) invalidRange
  let merged := edited.1.foldl mergePiece []
  pure ((merged ++ [Piece.old oldCount 0]).foldl spanPiece ⟨[],0,0,none⟩).regions

/-! ### Edits of a list -/

section
variable {α : Type}

/-- Two lists from two positions on: the regions are where they differ. -/
def Aligned (before after : List α) : ℕ → ℕ → List DirtyRegion → Prop
  | o, n, [] => before.drop o = after.drop n
  | o, n, r :: rs => ∃ k, r.oldStart = o + k ∧ r.newStart = n + k ∧
      (before.drop o).take k = (after.drop n).take k ∧ r.oldStart ≤ r.oldEnd ∧
      r.newStart ≤ r.newEnd ∧ r.oldEnd ≤ before.length ∧ r.newEnd ≤ after.length ∧
      Aligned before after r.oldEnd r.newEnd rs

/-- A list after some edits of it, none of which leaves more messages than a count holds. -/
inductive Edited : List α → List MessageEdit → List α → Prop
  | nil (l : List α) : Edited l [] l
  | cons {pre replaced replacement post l : List α} {edits : List MessageEdit}
      (hb : (pre ++ replacement ++ post).length < 2^63)
      (h : Edited (pre ++ replacement ++ post) edits l) :
      Edited (pre ++ replaced ++ post)
        (⟨pre.length,replaced.length,replacement.length⟩ :: edits) l

end

/-! ### Where messages come from -/

/-- The old position of every message of a piece, unless it is new. -/
def Piece.origins : Piece → List (Option ℕ)
  | .old start len => (List.range' start len).map some
  | .new len => List.replicate len none

def origins (pieces : List Piece) : List (Option ℕ) := pieces.flatMap Piece.origins

@[simp] lemma Piece.length_origins (p : Piece) : p.origins.length = p.len := by
  cases p <;> simp [origins, len]

lemma Piece.origins_slice {p : Piece} {a n : ℕ} (h : a + n ≤ p.len) :
    (p.slice a n).origins = (p.origins.drop a).take n := by
  cases p with
  | old start len =>
    change a + n ≤ len at h
    simp only [slice, origins, ← List.map_drop, ← List.map_take, List.drop_range']
    rw [Nat.mul_one, List.take_range'_of_length_ge (by omega)]
  | new len =>
    change a + n ≤ len at h
    simp only [slice, origins, List.drop_replicate, List.take_replicate]
    rw [Nat.min_eq_left (by omega)]

lemma origins_cons (p : Piece) (ps : List Piece) : origins (p :: ps) = p.origins ++ origins ps :=
  rfl

lemma origins_append (ps qs : List Piece) : origins (ps ++ qs) = origins ps ++ origins qs :=
  List.flatMap_append ..

lemma origins_piecesBetweenFrom {lower upper position : ℕ} {ps : List Piece}
    (hb : position + (origins ps).length < 2^64) :
    origins (piecesBetweenFrom lower upper position ps) =
      ((origins ps).drop (lower - position)).take (upper - max lower position) := by
  induction ps generalizing position with
  | nil => simp [piecesBetweenFrom, origins]
  | cons p ps ih =>
    rw [origins_cons, List.length_append, p.length_origins] at hb
    have hstop : addUsize position p.len = position + p.len := addUsize_eq (by omega)
    have hpiece : origins (if max lower position < min upper (position + p.len) then
        [p.slice (max lower position - position)
          (min upper (position + p.len) - max lower position)] else []) =
        (p.origins.drop (lower - position)).take (upper - max lower position) := by
      split_ifs with h
      · rw [origins_cons, Piece.origins_slice (by omega), origins, List.flatMap_nil,
          List.append_nil]
        rw [show max lower position - position = lower - position by omega]
        rw [List.take_eq_take_iff, List.length_drop, p.length_origins]
        omega
      · rw [origins, List.flatMap_nil, eq_comm, List.take_eq_nil_iff, List.drop_eq_nil_iff,
          p.length_origins]
        omega
    rw [piecesBetweenFrom, hstop, origins_append, hpiece, ih (by omega), origins_cons,
      List.drop_append, List.take_append, List.length_drop, p.length_origins]
    congr 2
    · omega
    · congr 1
      omega

lemma origins_piecesBetween {ps : List Piece} {lower upper : ℕ}
    (hb : (origins ps).length < 2^64) :
    origins (piecesBetween ps lower upper) = ((origins ps).drop lower).take (upper - lower) := by
  rw [piecesBetween, origins_piecesBetweenFrom (by omega)]
  simp

lemma origins_mergePiece {merged : List Piece} {p : Piece}
    (hb : (origins merged).length + p.len < 2^64) :
    origins (mergePiece merged p) = origins merged ++ p.origins := by
  have hsnoc : origins (merged ++ [p]) = origins merged ++ p.origins := by
    rw [origins_append, origins_cons]
    simp [origins]
  unfold mergePiece
  cases hl : merged.getLast? with
  | none => exact hsnoc
  | some last =>
    obtain ⟨rest, rfl⟩ := List.getLast?_eq_some_iff.mp hl
    have hlast : origins (rest ++ [last]) = origins rest ++ last.origins := by
      rw [origins_append, origins_cons]
      simp [origins]
    rw [hlast, List.length_append, last.length_origins] at hb
    cases last with
    | old start len =>
      cases p with
      | new more => exact hsnoc
      | old next more =>
        simp only [Piece.len] at hb
        dsimp only
        split_ifs with h
        · subst h
          rw [List.dropLast_concat, addUsize_eq (by omega), origins_append, hlast,
            List.append_assoc]
          simp only [origins, List.flatMap_cons, List.flatMap_nil, Piece.origins,
            List.append_nil, ← List.map_append]
          rw [← List.range'_append, Nat.one_mul]
        · exact hsnoc
    | new len =>
      cases p with
      | old next more => exact hsnoc
      | new more =>
        simp only [Piece.len] at hb
        dsimp only
        rw [List.dropLast_concat, addUsize_eq (by omega), origins_append, hlast,
          List.append_assoc]
        simp only [origins, List.flatMap_cons, List.flatMap_nil, Piece.origins, List.append_nil,
          List.replicate_append_replicate]

lemma origins_merged {merged ps : List Piece}
    (hb : (origins merged).length + (origins ps).length < 2^64) :
    origins (ps.foldl mergePiece merged) = origins merged ++ origins ps := by
  induction ps generalizing merged with
  | nil => simp [origins]
  | cons p ps ih =>
    rw [origins_cons, List.length_append, p.length_origins] at hb
    have hp : origins (mergePiece merged p) = origins merged ++ p.origins :=
      origins_mergePiece (by omega)
    rw [List.foldl_cons, ih, hp, origins_cons, List.append_assoc]
    rw [hp, List.length_append, p.length_origins]
    omega

section
variable {α : Type}

/-- Every kept message is the old one it comes from, and kept messages stay in order. -/
structure Traced (before : List α) (origin : List (Option ℕ)) (after : List α) : Prop where
  kept : List.Forall₂ (fun o x => ∀ i, o = some i → before[i]? = some x) origin after
  ordered : (origin.filterMap id).Pairwise (· < ·)

variable {before after : List α}

lemma Traced.start (l : List α) : Traced l (origins [.old 0 l.length]) l := by
  have he : origins [.old 0 l.length] = (List.range l.length).map some := by
    simp [origins, Piece.origins, List.range_eq_range']
  rw [he]
  refine ⟨List.forall₂_iff_get.mpr ⟨by simp,?_⟩,?_⟩
  · intro i hi hl j hj
    simp only [List.get_eq_getElem, List.getElem_map, List.getElem_range, Option.some.injEq] at hj
    subst hj
    simp
  · rw [List.filterMap_map]
    simpa using List.pairwise_lt_range

lemma Traced.edit {origin : List (Option ℕ)} {pre replaced replacement post : List α}
    (h : Traced before origin (pre ++ replaced ++ post)) :
    Traced before (origin.take pre.length ++ List.replicate replacement.length none ++
      origin.drop (pre.length + replaced.length)) (pre ++ replacement ++ post) := by
  have htake := List.forall₂_take pre.length h.kept
  have hdrop := List.forall₂_drop (pre.length + replaced.length) h.kept
  rw [List.append_assoc, List.take_left] at htake
  rw [← List.length_append, List.drop_left] at hdrop
  rw [← List.length_append]
  constructor
  · refine List.rel_append (List.rel_append htake ?_) hdrop
    rw [List.forall₂_iff_get]
    refine ⟨by simp,?_⟩
    intro i hi _ j hj
    simp at hj
  · have hsub : ((origin.take pre.length ++ List.replicate replacement.length none ++
        origin.drop (pre ++ replaced).length).filterMap id).Sublist (origin.filterMap id) := by
      rw [List.filterMap_append, List.filterMap_append]
      have hnone : (List.replicate replacement.length (none : Option ℕ)).filterMap id = [] := by
        simp
      rw [hnone, List.append_nil, ← List.filterMap_append]
      apply List.Sublist.filterMap
      conv_rhs => rw [← List.take_append_drop pre.length origin]
      apply List.Sublist.append_left
      exact List.drop_sublist_drop_left origin (by simp)
    exact h.ordered.sublist hsub

/-- The pieces of old messages are not empty. -/
def Solid (ps : List Piece) : Prop := ∀ start len, Piece.old start len ∈ ps → 0 < len

lemma Solid.append {ps qs : List Piece} (hp : Solid ps) (hq : Solid qs) : Solid (ps ++ qs) := by
  intro start len h
  rcases List.mem_append.mp h with h | h
  · exact hp start len h
  · exact hq start len h

lemma solid_piecesBetweenFrom {lower upper position : ℕ} (ps : List Piece) :
    Solid (piecesBetweenFrom lower upper position ps) := by
  induction ps generalizing position with
  | nil => intro start len h; cases h
  | cons p ps ih =>
    rw [piecesBetweenFrom]
    refine Solid.append ?_ ih
    intro start len h
    split_ifs at h with hlt
    · rw [List.mem_singleton] at h
      cases p with
      | new n => cases h
      | old s n =>
        obtain ⟨-, rfl⟩ := Piece.old.inj h
        omega
    · cases h

lemma solid_mergePiece {merged : List Piece} {p : Piece} (hm : Solid merged) (hp : Solid [p])
    (hb : (origins merged).length + p.len < 2^64) : Solid (mergePiece merged p) := by
  unfold mergePiece
  cases hl : merged.getLast? with
  | none => exact hm.append hp
  | some last =>
    obtain ⟨rest, rfl⟩ := List.getLast?_eq_some_iff.mp hl
    rw [origins_append, List.length_append, origins_cons, List.length_append,
      last.length_origins] at hb
    have hrest : Solid rest := fun start len h => hm start len (List.mem_append_left _ h)
    cases last with
    | old start len =>
      cases p with
      | new more => exact hm.append hp
      | old next more =>
        simp only [Piece.len] at hb
        dsimp only
        split_ifs with h
        · rw [List.dropLast_concat, addUsize_eq (by omega)]
          refine hrest.append fun s n hn => ?_
          obtain ⟨-, rfl⟩ := Piece.old.inj (List.mem_singleton.mp hn)
          have := hp next more (List.mem_singleton_self _)
          omega
        · exact hm.append hp
    | new len =>
      cases p with
      | old next more => exact hm.append hp
      | new more =>
        dsimp only
        rw [List.dropLast_concat]
        exact hrest.append fun s n hn => by cases List.mem_singleton.mp hn

lemma solid_merged {merged ps : List Piece} (hm : Solid merged) (hp : Solid ps)
    (hb : (origins merged).length + (origins ps).length < 2^64) :
    Solid (ps.foldl mergePiece merged) := by
  induction ps generalizing merged with
  | nil => exact hm
  | cons p ps ih =>
    rw [origins_cons, List.length_append, p.length_origins] at hb
    rw [List.foldl_cons]
    apply ih
    · refine solid_mergePiece hm (fun start len h => ?_) (by omega)
      exact hp start len (List.mem_singleton.mp h ▸ List.mem_cons_self)
    · exact fun start len h => hp start len (List.mem_cons_of_mem _ h)
    · rw [origins_mergePiece (by omega), List.length_append, p.length_origins]
      omega

lemma usizeOf_cast (n : ℕ) : usizeOf n = .ok n := by simp [usizeOf]

lemma applyEdit_eq {ps : List Piece} {length start deleted inserted : ℕ} (hs : start ≤ length)
    (hd : deleted ≤ length - start) (hl : length < 2^64)
    (hb : length - deleted + inserted < 2^64) :
    applyEdit (ps,length) ⟨start,deleted,inserted⟩ =
      .ok (piecesBetween ps 0 start ++ Piece.new inserted ::
        piecesBetween ps (start + deleted) length,length - deleted + inserted) := by
  have hstop : addUsize start deleted = start + deleted := addUsize_eq (by omega)
  have hlength : addUsize (length - deleted) inserted = length - deleted + inserted :=
    addUsize_eq hb
  simp only [applyEdit, usizeOf_cast, ← hstop, ← hlength]
  exact bind_eq_ok.mpr ⟨_,rfl,bind_eq_ok.mpr ⟨_,rfl,bind_eq_ok.mpr ⟨_,rfl,
    bind_eq_ok.mpr ⟨(),require_eq_ok.mpr ⟨hs,hd⟩,rfl⟩⟩⟩⟩

lemma edits_eq_ok {edits : List MessageEdit} {ps : List Piece} {l : List α}
    (he : Edited l edits after) (ht : Traced before (origins ps) l) (hs : Solid ps)
    (hb : l.length < 2^63) :
    ∃ ps', edits.foldlM applyEdit (ps,l.length) = .ok (ps',after.length) ∧
      Traced before (origins ps') after ∧ Solid ps' ∧ after.length < 2^63 := by
  induction he generalizing ps with
  | nil l => exact ⟨ps,rfl,ht,hs,hb⟩
  | @cons pre replaced replacement post l edits hb' h ih =>
    have hlen : (origins ps).length = (pre ++ replaced ++ post).length := ht.kept.length_eq
    simp only [List.length_append] at hlen hb hb'
    have hedit : applyEdit (ps,(pre ++ replaced ++ post).length)
        ⟨pre.length,replaced.length,replacement.length⟩ =
          .ok (piecesBetween ps 0 pre.length ++ Piece.new replacement.length ::
            piecesBetween ps (pre.length + replaced.length) (pre ++ replaced ++ post).length,
            (pre ++ replacement ++ post).length) := by
      have hresult := @applyEdit_eq ps (pre.length + replaced.length + post.length) pre.length
        replaced.length replacement.length (by omega) (by omega) (by omega) (by omega)
      rw [show pre.length + replaced.length + post.length - replaced.length + replacement.length =
        pre.length + replacement.length + post.length by omega] at hresult
      simp only [List.length_append]
      exact hresult
    rw [List.foldlM_cons, hedit]
    apply ih
    · have horigins : origins (piecesBetween ps 0 pre.length ++ Piece.new replacement.length ::
          piecesBetween ps (pre.length + replaced.length) (pre ++ replaced ++ post).length) =
          (origins ps).take pre.length ++ List.replicate replacement.length none ++
            (origins ps).drop (pre.length + replaced.length) := by
        rw [origins_append, origins_cons, origins_piecesBetween (by omega),
          origins_piecesBetween (by omega), List.drop_zero, Nat.sub_zero, Piece.origins, @List.take_of_length_le _ _ ((origins ps).drop _) (by
            simp only [List.length_drop, hlen, List.length_append]
            omega), List.append_assoc]
      rw [horigins]
      exact ht.edit
    · refine (solid_piecesBetweenFrom ps).append fun start len h => ?_
      rcases List.mem_cons.mp h with h | h
      · cases h
      · exact solid_piecesBetweenFrom ps start len h
    · rwa [List.length_append, List.length_append]

/-! ### Regions -/

lemma Aligned.extend {o n k : ℕ} {rs : List DirtyRegion}
    (h : Aligned before after (o + k) (n + k) rs)
    (he : (before.drop o).take k = (after.drop n).take k) : Aligned before after o n rs := by
  have hmore : ∀ j, (before.drop (o + k)).take j = (after.drop (n + k)).take j →
      (before.drop o).take (k + j) = (after.drop n).take (k + j) := by
    intro j hj
    rw [List.take_add, List.take_add, he, List.drop_drop, List.drop_drop, hj]
  cases rs with
  | nil =>
    rw [Aligned] at h ⊢
    rw [← List.take_append_drop k (before.drop o), ← List.take_append_drop k (after.drop n), he,
      List.drop_drop, List.drop_drop, h]
  | cons r rs =>
    obtain ⟨j, ho, hn, hj, hrest⟩ := h
    exact ⟨k + j,by omega,by omega,hmore j hj,hrest⟩

lemma kept_old {start len position : ℕ} {rest : List (Option ℕ)} (hlen : 0 < len)
    (h : List.Forall₂ (fun o x => ∀ i, o = some i → before[i]? = some x)
      ((Piece.old start len).origins ++ rest) (after.drop position)) :
    start + len ≤ before.length ∧
      (before.drop start).take len = (after.drop position).take len ∧
      List.Forall₂ (fun o x => ∀ i, o = some i → before[i]? = some x) rest
        (after.drop (position + len)) := by
  have hl := h.length_eq
  rw [List.length_append, Piece.length_origins, List.length_drop, Piece.len] at hl
  have hat : ∀ j, j < len → before[start + j]? = after[position + j]? := by
    intro j hj
    have hget := (List.forall₂_iff_get.mp h).2 j
      (by rw [List.length_append, Piece.length_origins, Piece.len]; omega)
      (by rw [List.length_drop]; omega) (start + j)
      (by simp [Piece.origins, hj])
    rw [hget, List.getElem?_eq_getElem (by omega)]
    simp
  refine ⟨?_,?_,?_⟩
  · have := hat (len - 1) (by omega)
    rw [List.getElem?_eq_getElem (l := after) (by omega)] at this
    obtain ⟨hlt, -⟩ := List.getElem?_eq_some_iff.mp this
    omega
  · apply List.ext_getElem?
    intro j
    rw [List.getElem?_take, List.getElem?_take, List.getElem?_drop, List.getElem?_drop]
    split_ifs with hj
    · exact hat j hj
    · rfl
  · have hdrop := List.forall₂_drop len h
    rwa [List.drop_left' (by simp [Piece.len]), List.drop_drop] at hdrop

lemma spans_aligned {ps : List Piece} {s : Spans}
    (hk : List.Forall₂ (fun o x => ∀ i, o = some i → before[i]? = some x) (origins ps)
      (after.drop s.newPosition))
    (ho : ((origins ps).filterMap id).Pairwise (· < ·)) (hs : Solid ps)
    (hlow : ∀ i ∈ (origins ps).filterMap id, s.oldPosition ≤ i)
    (hn : s.newPosition ≤ after.length) (hb : after.length < 2^64)
    (hold : s.oldPosition ≤ before.length) (hopen : s.opened.1 = s.oldPosition)
    (hopened : s.opened.2 ≤ s.newPosition) :
    ∃ rs, ((ps ++ [Piece.old before.length 0]).foldl spanPiece s).regions = s.regions ++ rs ∧
      Aligned before after s.opened.1 s.opened.2 rs := by
  induction ps generalizing s with
  | nil =>
    have hend : s.newPosition = after.length := by
      have := hk.length_eq
      rw [List.length_drop] at this
      simp only [origins, List.flatMap_nil, List.length_nil] at this
      omega
    rw [List.nil_append, List.foldl_cons, List.foldl_nil, spanPiece]
    dsimp only
    split_ifs with hc
    · refine ⟨[⟨s.opened.1,before.length,s.opened.2,s.newPosition⟩],rfl,0,rfl,rfl,rfl,?_,hopened,
        le_rfl,hn,?_⟩
      · rw [hopen]
        exact hold
      · rw [Aligned, hend, List.drop_length, List.drop_length]
    · rw [not_or, not_not, not_not] at hc
      refine ⟨[],by rw [List.append_nil],?_⟩
      rw [Aligned, ← hc.1, ← hc.2, hend, List.drop_length, List.drop_length]
  | cons p ps ih =>
    have hsolid : Solid ps := fun start len h => hs start len (List.mem_cons_of_mem _ h)
    rw [origins_cons] at hk
    rw [origins_cons, List.filterMap_append] at ho
    have hl := hk.length_eq
    rw [List.length_append, p.length_origins, List.length_drop] at hl
    rw [List.cons_append, List.foldl_cons]
    cases p with
    | new len =>
      rw [Piece.len] at hl
      have hrest := List.forall₂_drop len hk
      rw [List.drop_left' (by simp [Piece.len]), List.drop_drop] at hrest
      have hnew : addUsize s.newPosition len = s.newPosition + len := addUsize_eq (by omega)
      refine @ih (spanPiece s (.new len)) ?_ ?_ hsolid ?_ ?_ hold hopen ?_
      · rw [spanPiece, hnew]
        exact hrest
      · exact (List.pairwise_append.mp ho).2.1
      · intro i hi
        apply hlow
        rw [origins_cons, List.filterMap_append]
        exact List.mem_append_right _ hi
      · rw [spanPiece, hnew]
        change s.newPosition + len ≤ _
        omega
      · rw [spanPiece, hnew]
        change s.opened.2 ≤ s.newPosition + len
        omega
    | old start len =>
      rw [Piece.len] at hl
      have hlen : 0 < len := hs start len List.mem_cons_self
      obtain ⟨hstop, hsame, hrest⟩ := kept_old hlen hk
      have hnew : addUsize s.newPosition len = s.newPosition + len := addUsize_eq (by omega)
      have hfilter : (Piece.old start len).origins.filterMap id = List.range' start len := by
        simp [Piece.origins, List.filterMap_map]
      rw [hfilter, List.pairwise_append] at ho
      have hstart : s.oldPosition ≤ start := by
        apply hlow
        rw [origins_cons, List.filterMap_append, hfilter]
        exact List.mem_append_left _ (List.mem_range'_1.mpr ⟨le_rfl,by omega⟩)
      obtain ⟨rs, hrs, haligned⟩ := @ih (spanPiece s (.old start len)) (by
        rw [spanPiece, hnew]
        exact hrest) ho.2.1 hsolid (by
          intro i hi
          have := ho.2.2 (start + len - 1) (List.mem_range'_1.mpr ⟨by omega,by omega⟩) i hi
          change start + len ≤ i
          omega) (by
          rw [spanPiece, hnew]
          change s.newPosition + len ≤ _
          omega) hstop rfl le_rfl
      have hfrom : Aligned before after start s.newPosition rs := by
        rw [spanPiece, hnew] at haligned
        exact Aligned.extend haligned hsame
      rw [hrs, spanPiece]
      dsimp only
      split_ifs with hc
      · refine ⟨⟨s.opened.1,start,s.opened.2,s.newPosition⟩ :: rs,
          by rw [List.append_assoc, List.singleton_append],0,rfl,rfl,rfl,?_,hopened,?_,hn,hfrom⟩
        · rw [hopen]
          exact hstart
        · change start ≤ _
          omega
      · rw [not_or, not_not, not_not] at hc
        refine ⟨rs,rfl,?_⟩
        rw [← hc.1, ← hc.2]
        exact hfrom

/-- The regions of an edited list line it up with the list before. -/
theorem dirtyRegions_aligned {edits : List MessageEdit} (he : Edited before edits after)
    (hpos : 0 < before.length) (hb : before.length < 2^63) :
    ∃ rs, dirtyRegions before.length after.length edits = .ok rs ∧
      Aligned before after 0 0 rs := by
  obtain ⟨ps, hps, ht, hs, hlt⟩ := edits_eq_ok he (Traced.start before)
    (fun start len h => by
      obtain ⟨-, rfl⟩ := Piece.old.inj (List.mem_singleton.mp h)
      exact hpos) hb
  have hlen : (origins ps).length = after.length := ht.kept.length_eq
  have hbound : (origins []).length + (origins ps).length < 2^64 := by
    rw [hlen]
    simp only [origins, List.flatMap_nil, List.length_nil]
    omega
  have hmerged : origins (ps.foldl mergePiece []) = origins ps := origins_merged hbound
  have hsolid : Solid (ps.foldl mergePiece []) :=
    solid_merged (fun _ _ h => by cases h) hs hbound
  obtain ⟨rs, hrs, haligned⟩ := @spans_aligned α before after (ps.foldl mergePiece [])
    ⟨[],0,0,none⟩ (by rw [hmerged]; exact ht.kept) (by rw [hmerged]; exact ht.ordered) hsolid
    (fun _ _ => Nat.zero_le _) (Nat.zero_le _) (by omega) (Nat.zero_le _) rfl le_rfl
  refine ⟨rs,?_,haligned⟩
  rw [dirtyRegions, hps]
  change (require (after.length = after.length) invalidRange >>= fun _ => _) = _
  refine bind_eq_ok.mpr ⟨(),require_eq_ok.mpr rfl,?_⟩
  rw [hrs]
  rfl

end

/-! ### Edits that do not fit -/

/-- Each edit lies within the list that the ones before it leave, and the last leaves the count. -/
def Fits (count : ℤ) : ℤ → List MessageEdit → Prop
  | length, [] => length = count
  | length, edit :: edits => 0 ≤ edit.start ∧ 0 ≤ edit.deleteCount ∧ 0 ≤ edit.insertCount ∧
      edit.start + edit.deleteCount ≤ length ∧
      Fits count (length - edit.deleteCount + edit.insertCount) edits

/-- How many messages some edits insert. -/
def insertedCount (edits : List MessageEdit) : ℕ :=
  (edits.map fun edit => edit.insertCount.toNat).sum

lemma usizeOf_eq_ok {n : ℤ} {m : ℕ} : usizeOf n = .ok m ↔ n = m := by
  unfold usizeOf
  split_ifs with h
  · rw [Except.ok.injEq]
    omega
  · exact ⟨fun h => (by cases h),fun he => (by omega)⟩

lemma applyEdit_eq_ok {ps ps' : List Piece} {length length' : ℕ} {edit : MessageEdit}
    (hb : length + edit.insertCount.toNat < 2^64)
    (h : applyEdit (ps,length) edit = .ok (ps',length')) :
    0 ≤ edit.start ∧ 0 ≤ edit.deleteCount ∧ 0 ≤ edit.insertCount ∧
      edit.start + edit.deleteCount ≤ length ∧
      (length' : ℤ) = length - edit.deleteCount + edit.insertCount := by
  obtain ⟨start, hs, h⟩ := bind_eq_ok.mp h
  obtain ⟨deleted, hd, h⟩ := bind_eq_ok.mp h
  obtain ⟨inserted, hi, h⟩ := bind_eq_ok.mp h
  obtain ⟨_, hr, h⟩ := bind_eq_ok.mp h
  rw [usizeOf_eq_ok] at hs hd hi
  have hfit := require_eq_ok.mp hr
  dsimp only at hfit
  have hlength : addUsize (length - deleted) inserted = length' :=
    (Prod.mk.inj (Except.ok.inj h)).2
  rw [addUsize_eq (by omega)] at hlength
  omega

lemma fits_of_edits {edits : List MessageEdit} {ps ps' : List Piece} {length count : ℕ}
    (hb : length + insertedCount edits < 2^64)
    (h : edits.foldlM applyEdit (ps,length) = .ok (ps',count)) : Fits count length edits := by
  induction edits generalizing ps length with
  | nil =>
    rw [List.foldlM_nil] at h
    rw [Fits, (Prod.mk.inj (Except.ok.inj h)).2]
  | cons edit edits ih =>
    obtain ⟨⟨ps₁, length₁⟩, he, h⟩ := foldlM_cons_eq_ok.mp h
    rw [insertedCount, List.map_cons, List.sum_cons] at hb
    obtain ⟨hs, hd, hi, hle, hlength⟩ := applyEdit_eq_ok (by omega) he
    refine ⟨hs,hd,hi,hle,?_⟩
    rw [← hlength]
    exact ih (by rw [insertedCount]; omega) h

lemma usizeOf_eq_error {n : ℤ} {e : StoreError} (h : usizeOf n = .error e) : e = invalidRange := by
  unfold usizeOf at h
  split_ifs at h
  exact (Except.error.inj h).symm

lemma applyEdit_eq_error {s : List Piece × ℕ} {edit : MessageEdit} {e : StoreError}
    (h : applyEdit s edit = .error e) : e = invalidRange := by
  rcases bind_eq_error.mp h with h | ⟨start, -, h⟩
  · exact usizeOf_eq_error h
  rcases bind_eq_error.mp h with h | ⟨deleted, -, h⟩
  · exact usizeOf_eq_error h
  rcases bind_eq_error.mp h with h | ⟨inserted, -, h⟩
  · exact usizeOf_eq_error h
  rcases bind_eq_error.mp h with h | ⟨-, -, h⟩
  · exact (require_eq_error.mp h).2.symm
  · cases h

lemma edits_eq_error {edits : List MessageEdit} {s : List Piece × ℕ} {e : StoreError}
    (h : edits.foldlM applyEdit s = .error e) : e = invalidRange := by
  induction edits generalizing s with
  | nil => cases h
  | cons edit edits ih =>
    rw [List.foldlM_cons] at h
    rcases bind_eq_error.mp h with h | ⟨s', -, h⟩
    · exact applyEdit_eq_error h
    · exact ih h

theorem dirtyRegions_refuses {oldCount count : ℕ} {edits : List MessageEdit}
    (hb : oldCount + insertedCount edits < 2^64) (hf : ¬ Fits count oldCount edits) :
    dirtyRegions oldCount count edits = .error invalidRange := by
  cases h : dirtyRegions oldCount count edits with
  | ok rs =>
    obtain ⟨⟨ps, length⟩, he, h⟩ := bind_eq_ok.mp h
    obtain ⟨_, hc, -⟩ := bind_eq_ok.mp h
    obtain rfl : length = count := require_eq_ok.mp hc
    exact absurd (fits_of_edits hb he) hf
  | error e =>
    rcases bind_eq_error.mp h with h | ⟨s, -, h⟩
    · rw [edits_eq_error h]
    · rcases bind_eq_error.mp h with h | ⟨-, -, h⟩
      · rw [(require_eq_error.mp h).2]
      · cases h

end RisuNest.Storage
