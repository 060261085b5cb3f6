import RisuNest.Storage.KeyMatcher
import Mathlib.Data.List.Infix

/-! What a scan marks, and the same for a text that is read in pieces. -/
namespace RisuNest.Storage.Orphans
open Wire (utf8)

/-! ### The places of a needle -/

/-- No proper end of a needle is a start of it, so no two of its places overlap. -/
def NoBorder (needle : List UInt8) : Prop :=
  needle ≠ [] ∧ ∀ k < needle.length, 0 < k → ¬ needle.drop k <+: needle

lemma le_of_mem_matchIndices {needle bytes : List UInt8} {skip position p : ℕ}
    (h : p ∈ matchIndices needle skip position bytes) : position ≤ p := by
  induction bytes generalizing skip position with
  | nil =>
    unfold matchIndices at h
    cases h
  | cons b bytes ih =>
    cases skip with
    | succ skip => exact Nat.le_of_succ_le (ih h)
    | zero =>
      unfold matchIndices at h
      split_ifs at h
      · cases List.mem_cons.mp h with
        | inl h => omega
        | inr h => exact Nat.le_of_succ_le (ih h)
      · exact Nat.le_of_succ_le (ih h)

lemma lt_of_mem_matchIndices {needle bytes : List UInt8} {skip position p : ℕ}
    (h : p ∈ matchIndices needle skip position bytes) : p < position + bytes.length := by
  induction bytes generalizing skip position with
  | nil =>
    unfold matchIndices at h
    cases h
  | cons b bytes ih =>
    have hnext : ∀ {skip' : ℕ}, p ∈ matchIndices needle skip' (position+1) bytes →
        p < position + (bytes.length + 1) := by
      intro skip' h
      have := ih h
      omega
    cases skip with
    | succ skip => exact hnext h
    | zero =>
      unfold matchIndices at h
      split_ifs at h
      · cases List.mem_cons.mp h with
        | inl h => rw [h, List.length_cons]; omega
        | inr h => exact hnext h
      · exact hnext h

lemma matchIndices_ascending (needle : List UInt8) (skip position : ℕ) (bytes : List UInt8) :
    (matchIndices needle skip position bytes).Pairwise (· < ·) := by
  induction bytes generalizing skip position with
  | nil => simp [matchIndices]
  | cons b bytes ih =>
    cases skip with
    | succ skip => exact ih ..
    | zero =>
      unfold matchIndices
      split_ifs
      · exact List.pairwise_cons.mpr ⟨fun _ h => le_of_mem_matchIndices h,ih ..⟩
      · exact ih ..

/-- Every place of a needle without a border is found. -/
theorem mem_matchIndices {needle : List UInt8} (hneedle : NoBorder needle) {bytes : List UInt8}
    {skip j : ℕ} (position : ℕ) (hj : skip ≤ j) (h : needle <+: bytes.drop j) :
    position + j ∈ matchIndices needle skip position bytes := by
  induction bytes generalizing skip position j with
  | nil =>
    rw [List.drop_nil, List.prefix_nil] at h
    exact absurd h hneedle.1
  | cons b bytes ih =>
    have hnext : ∀ {skip' : ℕ}, 0 < j → skip' + 1 ≤ j →
        position + j ∈ matchIndices needle skip' (position+1) bytes := by
      intro skip' hpos hskip
      have hdrop : (b :: bytes).drop j = bytes.drop (j-1) := by
        conv_lhs => rw [← Nat.sub_add_cancel hpos]
        rw [List.drop_succ_cons]
      rw [hdrop] at h
      have := ih (position + 1) (Nat.le_sub_of_add_le hskip) h
      rwa [Nat.add_assoc, Nat.add_sub_cancel' hpos] at this
    cases skip with
    | succ skip => exact hnext (by omega) hj
    | zero =>
      unfold matchIndices
      by_cases hzero : j = 0
      · subst hzero
        rw [List.drop_zero] at h
        rw [if_pos (List.isPrefixOf_iff_prefix.mpr h)]
        exact List.mem_cons_self
      · split_ifs with hhere
        · -- the two places do not overlap
          have hfar : needle.length ≤ j := by
            by_contra hnear
            have hends : needle.drop j <+: (b :: bytes).drop j :=
              List.IsPrefix.drop (List.isPrefixOf_iff_prefix.mp hhere) j
            refine hneedle.2 j (by omega) (by omega) ?_
            exact List.prefix_of_prefix_length_le hends h (by rw [List.length_drop]; omega)
          have hpos := List.length_pos_iff.mpr hneedle.1
          exact List.mem_cons_of_mem _ (hnext (by omega) (by omega))
        · exact hnext (by omega) (by omega)

lemma noBorder_anchor : NoBorder anchor := by
  unfold NoBorder
  decide

lemma noBorder_dot : NoBorder [KeyIndex.dot] := by
  unfold NoBorder
  decide

/-! ### What a step marks -/

namespace AssetKeyMatcher

/-- The steps from a matcher to another mark the keys with a property, and nothing else. -/
structure Marks (m m' : AssetKeyMatcher) (P : ℕ → Prop) : Prop where
  index : m'.toKeyIndex = m.toKeyIndex
  length : m'.found.length = m.found.length
  counted : m.remaining = m.found.count false → m'.remaining = m'.found.count false
  found : ∀ i, m'.found[i]? = some true ↔ m.found[i]? = some true ∨ i < m.found.length ∧ P i

namespace Marks
variable {m m' m'' : AssetKeyMatcher} {P Q : ℕ → Prop}

lemma refl (m : AssetKeyMatcher) : Marks m m (fun _ => False) := by
  refine ⟨rfl,rfl,id,?_⟩
  simp

lemma trans (h : Marks m m' P) (h' : Marks m' m'' Q) : Marks m m'' (fun i => P i ∨ Q i) := by
  refine ⟨h'.index.trans h.index,h'.length.trans h.length,fun hc => h'.counted (h.counted hc),?_⟩
  intro i
  rw [h'.found, h.found, h.length]
  tauto

lemma congr (h : Marks m m' P) (hPQ : ∀ i, P i ↔ Q i) : Marks m m' Q := by
  refine ⟨h.index,h.length,h.counted,?_⟩
  intro i
  rw [h.found, hPQ]

lemma unique (hm : m.remaining = m.found.count false) (h : Marks m m' P) (h' : Marks m m'' Q)
    (hPQ : ∀ i < m.found.length, m.found[i]? ≠ some true → (P i ↔ Q i)) : m' = m'' := by
  have hfound : m'.found = m''.found := by
    apply List.ext_getElem (h.length.trans h'.length.symm)
    intro i hi hi'
    have hiff : m'.found[i]? = some true ↔ m''.found[i]? = some true := by
      rw [h.found, h'.found]
      by_cases hold : m.found[i]? = some true
      · simp only [hold, true_or]
      · have hlt : i < m.found.length := h.length ▸ hi
        rw [hPQ i hlt hold]
    rw [List.getElem?_eq_getElem hi, List.getElem?_eq_getElem hi', Option.some_inj,
      Option.some_inj] at hiff
    exact Bool.eq_iff_iff.mpr hiff
  have hremaining : m'.remaining = m''.remaining := by
    rw [h.counted hm, h'.counted hm, hfound]
  have hindex : m'.toKeyIndex = m''.toKeyIndex := h.index.trans h'.index.symm
  cases m'
  cases m''
  simp only at hfound hremaining hindex
  rw [hfound, hremaining, hindex]

end Marks

lemma marks_markOne (m : AssetKeyMatcher) (index : ℕ) :
    Marks m (m.markOne index) (fun i => i = index) := by
  unfold markOne
  split_ifs with h
  · obtain ⟨hlt,hget⟩ := List.getElem?_eq_some_iff.mp h
    refine ⟨rfl,List.length_set,?_,?_⟩
    · intro hcount
      dsimp only
      rw [List.count_set hlt, hget, hcount]
      simp
    · intro i
      dsimp only
      rw [List.getElem?_set]
      by_cases hi : index = i
      · subst hi
        simp [hlt]
      · simp [hi, Ne.symm hi]
  · refine ⟨rfl,rfl,id,?_⟩
    intro i
    constructor
    · exact .inl
    · rintro (hi | ⟨hlt,rfl⟩)
      · exact hi
      · rw [List.getElem?_eq_getElem hlt] at h ⊢
        cases hb : m.found[i] with
        | true => rfl
        | false => rw [hb] at h; exact absurd rfl h

lemma marks_foldl (indices : List ℕ) (m : AssetKeyMatcher) :
    Marks m (indices.foldl markOne m) (fun i => i ∈ indices) := by
  induction indices generalizing m with
  | nil => exact (Marks.refl m).congr (by simp)
  | cons index indices ih =>
    refine ((marks_markOne m index).trans (ih _)).congr ?_
    simp

lemma marks_lookUp (m : AssetKeyMatcher) (bare : Bool) (candidate : List UInt8) :
    Marks m (m.lookUp bare candidate) (m.toKeyIndex.Holds bare candidate) := by
  unfold lookUp
  cases hget : (m.table bare).get candidate with
  | none =>
    refine (Marks.refl m).congr ?_
    intro i
    simp [KeyIndex.Holds, hget]
  | some key =>
    refine (marks_foldl _ m).congr ?_
    intro i
    simp [KeyIndex.Holds, hget]

lemma getRange_iff {bytes f : List UInt8} {start length : ℕ} (hstart : start ≤ bytes.length) :
    getRange bytes start (start + length) = some f ↔
      f <+: bytes.drop start ∧ f.length = length := by
  unfold getRange
  rw [Nat.add_sub_cancel_left]
  constructor
  · intro h
    split_ifs at h with hle
    obtain rfl := Option.some.inj h
    refine ⟨List.take_prefix ..,?_⟩
    rw [List.length_take, List.length_drop]
    omega
  · rintro ⟨hf,rfl⟩
    have hlen := hf.length_le
    rw [List.length_drop] at hlen
    rw [if_pos ⟨by omega,by omega⟩, ← List.prefix_iff_eq_take.mp hf]

lemma marks_candidate (m : AssetKeyMatcher) (bare : Bool) {text : List UInt8} {start : ℕ}
    (hstart : start ≤ text.length) (length : ℕ) :
    Marks m (match getRange text start (start + length) with
      | some candidate => m.lookUp bare candidate
      | none => m) fun i => ∃ f, f <+: text.drop start ∧ f.length = length ∧
        m.toKeyIndex.Holds bare f i := by
  cases hget : getRange text start (start + length) with
  | none =>
    refine (Marks.refl m).congr ?_
    intro i
    simp only [false_iff]
    rintro ⟨f,hf,hlen,-⟩
    rw [(getRange_iff hstart).mpr ⟨hf,hlen⟩] at hget
    cases hget
  | some candidate =>
    refine (marks_lookUp m bare candidate).congr ?_
    intro i
    constructor
    · intro h
      exact ⟨candidate,((getRange_iff hstart).mp hget).1,((getRange_iff hstart).mp hget).2,h⟩
    · rintro ⟨f,hf,hlen,h⟩
      rw [(getRange_iff hstart).mpr ⟨hf,hlen⟩] at hget
      rwa [← Option.some.inj hget]

lemma marks_scanLengths {text : List UInt8} {start : ℕ} (hstart : start ≤ text.length)
    {lengths : List ℕ} (hlengths : lengths.Pairwise (· < ·)) (m : AssetKeyMatcher) :
    Marks m (scanLengths text start lengths m) fun i => ∃ f, f <+: text.drop start ∧
      f.length ∈ lengths ∧ m.toKeyIndex.Holds false f i := by
  induction lengths generalizing m with
  | nil => exact (Marks.refl m).congr (by simp)
  | cons length lengths ih =>
    rw [List.pairwise_cons] at hlengths
    have hone := marks_candidate m false hstart length
    unfold scanLengths
    cases hget : getRange text start (start + length) with
    | none =>
      refine (Marks.refl m).congr ?_
      intro i
      simp only [false_iff]
      rintro ⟨f,hf,hlen,-⟩
      have hle : length ≤ f.length := by
        cases List.mem_cons.mp hlen with
        | inl hlen => exact hlen.ge
        | inr hlen => exact (hlengths.1 _ hlen).le
      have hshort : f.take length <+: text.drop start := (List.take_prefix ..).trans hf
      rw [(getRange_iff hstart).mpr ⟨hshort,List.length_take_of_le hle⟩] at hget
      cases hget
    | some candidate =>
      rw [hget] at hone
      dsimp only at hone ⊢
      refine (hone.trans (ih hlengths.2 _)).congr ?_
      intro i
      rw [hone.index]
      simp only [List.mem_cons]
      constructor
      · rintro (⟨f,hf,hlen,h⟩ | ⟨f,hf,hlen,h⟩)
        · exact ⟨f,hf,.inl hlen,h⟩
        · exact ⟨f,hf,.inr hlen,h⟩
      · rintro ⟨f,hf,hlen | hlen,h⟩
        · exact .inl ⟨f,hf,hlen,h⟩
        · exact .inr ⟨f,hf,hlen,h⟩

lemma marks_scanAnchors {text : List UInt8} (cut : ℕ) {starts : List ℕ}
    (hstarts : starts.Pairwise (· < ·)) (hbound : ∀ start ∈ starts, start ≤ text.length)
    (m : AssetKeyMatcher) (hlengths : m.lengths.Pairwise (· < ·)) :
    Marks m (scanAnchors text cut starts m) fun i => ∃ start ∈ starts, start < cut ∧
      ∃ f, f <+: text.drop start ∧ f.length ∈ m.lengths ∧ m.toKeyIndex.Holds false f i := by
  induction starts generalizing m with
  | nil => exact (Marks.refl m).congr (by simp)
  | cons start starts ih =>
    rw [List.pairwise_cons] at hstarts
    rw [List.forall_mem_cons] at hbound
    unfold scanAnchors
    split_ifs with hcut
    · refine (Marks.refl m).congr ?_
      intro i
      simp only [false_iff]
      rintro ⟨start',hmem,hlt,-⟩
      cases List.mem_cons.mp hmem with
      | inl h => omega
      | inr h =>
        have := hstarts.1 _ h
        omega
    · have hone := marks_scanLengths hbound.1 hlengths m
      refine (hone.trans (ih hstarts.2 hbound.2 _ (by rwa [hone.index]))).congr ?_
      intro i
      rw [hone.index]
      simp only [List.mem_cons, exists_eq_or_imp]
      simp only [not_le.mp hcut, true_and]

lemma marks_scanShapes {text : List UInt8} (cut : ℕ) {dot : ℕ} (hdot : dot ≤ text.length)
    (shapes : List (ℕ × ℕ)) (m : AssetKeyMatcher) :
    Marks m (scanShapes text cut dot shapes m) fun i => ∃ s ∈ shapes, s.1 ≤ dot ∧
      dot - s.1 < cut ∧ ∃ f, f <+: text.drop (dot - s.1) ∧ f.length = s.2 ∧
        m.toKeyIndex.Holds true f i := by
  induction shapes generalizing m with
  | nil => exact (Marks.refl m).congr (by simp)
  | cons s shapes ih =>
    obtain ⟨offset,length⟩ := s
    unfold scanShapes
    dsimp only
    by_cases hfits : offset ≤ dot ∧ dot - offset < cut
    · rw [if_pos hfits]
      have hstart : dot - offset ≤ text.length := by omega
      have hone := marks_candidate m true hstart length
      refine (hone.trans (ih _)).congr ?_
      intro i
      rw [hone.index]
      simp only [List.mem_cons, exists_eq_or_imp]
      simp only [hfits.1, hfits.2, true_and]
    · rw [if_neg hfits]
      refine (ih m).congr ?_
      intro i
      simp only [List.mem_cons, exists_eq_or_imp]
      tauto

lemma marks_scanDots {text : List UInt8} (cut reach : ℕ) {dots : List ℕ}
    (hdots : dots.Pairwise (· < ·)) (hbound : ∀ dot ∈ dots, dot ≤ text.length)
    (m : AssetKeyMatcher) :
    Marks m (scanDots text cut reach dots m) fun i => ∃ dot ∈ dots, dot < reach ∧
      ∃ s ∈ m.bareShapes, s.1 ≤ dot ∧ dot - s.1 < cut ∧
        ∃ f, f <+: text.drop (dot - s.1) ∧ f.length = s.2 ∧ m.toKeyIndex.Holds true f i := by
  induction dots generalizing m with
  | nil => exact (Marks.refl m).congr (by simp)
  | cons dot dots ih =>
    rw [List.pairwise_cons] at hdots
    rw [List.forall_mem_cons] at hbound
    unfold scanDots
    split_ifs with hreach
    · refine (Marks.refl m).congr ?_
      intro i
      simp only [false_iff]
      rintro ⟨dot',hmem,hlt,-⟩
      cases List.mem_cons.mp hmem with
      | inl h => omega
      | inr h =>
        have := hdots.1 _ h
        omega
    · have hone := marks_scanShapes cut hbound.1 m.bareShapes m
      refine (hone.trans (ih hdots.2 hbound.2 _)).congr ?_
      intro i
      rw [hone.index]
      simp only [List.mem_cons, exists_eq_or_imp]
      simp only [not_le.mp hreach, true_and]

/-! ### A scan -/

end AssetKeyMatcher

/-- A key that has a form of the text's kind that starts before the cut. -/
def Hit (x : KeyIndex) (text : List UInt8) (cut : ℕ) (plugin : Bool) (i : ℕ) : Prop :=
  ∃ start f, start < cut ∧ f <+: text.drop start ∧
    (x.Holds false f i ∨ plugin = true ∧ x.Holds true f i)

namespace AssetKeyMatcher

/-- The matcher of some keys after any number of texts. -/
structure Sound (m : AssetKeyMatcher) : Prop where
  exact : m.toKeyIndex.Exact
  length : m.found.length = m.keys.length
  counted : m.remaining = m.found.count false

lemma Sound.marks {m m' : AssetKeyMatcher} {P : ℕ → Prop} (hm : m.Sound) (h : Marks m m' P) :
    m'.Sound := by
  refine ⟨h.index ▸ hm.exact,?_,h.counted hm.counted⟩
  rw [h.length, hm.length, h.index]

lemma marks_of_complete {m : AssetKeyMatcher} (hm : m.Sound) (hzero : m.remaining = 0)
    (P : ℕ → Prop) : Marks m m P := by
  refine ⟨rfl,rfl,id,?_⟩
  intro i
  constructor
  · exact .inl
  · intro h
    cases h with
    | inl h => exact h
    | inr h =>
      have hall : ∀ b ∈ m.found, b = true := by
        intro b hb
        rw [hm.counted, List.count_eq_zero] at hzero
        cases b with
        | true => rfl
        | false => exact absurd hb hzero
      rw [List.getElem?_eq_getElem h.1, hall _ (List.getElem_mem h.1)]

lemma hit_anchors {x : KeyIndex} (hx : x.Exact) {text : List UInt8} {cut i : ℕ} :
    (∃ start ∈ matchIndices anchor 0 0 text, start < cut ∧
      ∃ f, f <+: text.drop start ∧ f.length ∈ x.lengths ∧ x.Holds false f i) ↔
    ∃ start f, start < cut ∧ f <+: text.drop start ∧ x.Holds false f i := by
  constructor
  · rintro ⟨start,-,hcut,f,hf,-,h⟩
    exact ⟨start,f,hcut,hf,h⟩
  · rintro ⟨start,f,hcut,hf,h⟩
    have hholds := h
    obtain ⟨first,hfirst,-⟩ := hholds
    obtain ⟨hanchor,hlength⟩ := hx.anchored f first hfirst
    have hplace := mem_matchIndices noBorder_anchor 0 (Nat.zero_le start)
      (hanchor.trans hf)
    rw [Nat.zero_add] at hplace
    exact ⟨start,hplace,hcut,f,hf,hlength,h⟩

lemma hit_dots {x : KeyIndex} (hx : x.Exact) {text : List UInt8} {cut i : ℕ} :
    (∃ dot ∈ matchIndices [KeyIndex.dot] 0 0 text,
      dot < cut + (x.bareShapes.map Prod.fst).foldl max 0 ∧ ∃ s ∈ x.bareShapes, s.1 ≤ dot ∧
        dot - s.1 < cut ∧ ∃ f, f <+: text.drop (dot - s.1) ∧ f.length = s.2 ∧
          x.Holds true f i) ↔
    ∃ start f, start < cut ∧ f <+: text.drop start ∧ x.Holds true f i := by
  constructor
  · rintro ⟨dot,-,-,s,-,-,hcut,f,hf,-,h⟩
    exact ⟨dot - s.1,f,hcut,hf,h⟩
  · rintro ⟨start,f,hcut,hf,h⟩
    have hholds := h
    obtain ⟨first,hfirst,-⟩ := hholds
    obtain ⟨d,hdot,hshape⟩ := hx.dotted f first hfirst
    have hreach : d ≤ (x.bareShapes.map Prod.fst).foldl max 0 :=
      KeyIndex.le_foldl_max.mpr (.inr ⟨d,List.mem_map.mpr ⟨_,hshape,rfl⟩,le_rfl⟩)
    have hthere : [KeyIndex.dot] <+: text.drop (start + d) := by
      obtain ⟨rest,hrest⟩ := hf
      obtain ⟨hd,hget⟩ := List.getElem?_eq_some_iff.mp hdot
      rw [← List.drop_drop, ← hrest, List.drop_append_of_le_length hd.le,
        List.drop_eq_getElem_cons hd, hget]
      exact ⟨_,rfl⟩
    have hplace := mem_matchIndices noBorder_dot 0 (Nat.zero_le (start + d)) hthere
    rw [Nat.zero_add] at hplace
    refine ⟨start + d,hplace,by omega,(d,f.length),hshape,by simp,?_,f,?_,rfl,h⟩
    · simpa using hcut
    · simpa using hf

/-- A scan marks the keys of the forms that start before the cut. -/
theorem marks_scan {m : AssetKeyMatcher} (hm : m.Sound) (text : List UInt8) (cut : ℕ)
    (plugin : Bool) : Marks m (m.scan text cut plugin) (Hit m.toKeyIndex text cut plugin) := by
  unfold scan
  by_cases hzero : m.remaining = 0
  · rw [if_pos hzero]
    exact marks_of_complete hm hzero _
  · rw [if_neg hzero]
    dsimp only
    have hbound : ∀ (needle : List UInt8), ∀ p ∈ matchIndices needle 0 0 text,
        p ≤ text.length := by
      intro needle p hp
      have := lt_of_mem_matchIndices hp
      omega
    have hanchors := (marks_scanAnchors cut (matchIndices_ascending anchor 0 0 text)
      (hbound anchor) m hm.exact.ascending).congr (fun _ => hit_anchors hm.exact)
    split_ifs with hplain
    · refine hanchors.congr ?_
      intro i
      rw [Bool.or_eq_true, Bool.not_eq_true', List.isEmpty_iff, hanchors.index] at hplain
      constructor
      · rintro ⟨start,f,hcut,hf,h⟩
        exact ⟨start,f,hcut,hf,.inl h⟩
      · rintro ⟨start,f,hcut,hf,h⟩
        refine ⟨start,f,hcut,hf,?_⟩
        cases h with
        | inl h => exact h
        | inr h =>
          cases hplain with
          | inl hoff =>
            rw [hoff] at h
            cases h.1
          | inr hnone =>
            obtain ⟨first,hfirst,-⟩ := h.2
            obtain ⟨d,-,hshape⟩ := hm.exact.dotted f first hfirst
            rw [hnone] at hshape
            cases hshape
    · simp only [Bool.or_eq_true, Bool.not_eq_true', not_or, Bool.not_eq_false] at hplain
      have hdots := (marks_scanDots cut
        (cut + (m.bareShapes.map Prod.fst).foldl max 0)
        (matchIndices_ascending [KeyIndex.dot] 0 0 text) (hbound _)
        (scanAnchors text cut (matchIndices anchor 0 0 text) m))
      rw [hanchors.index] at hdots ⊢
      refine (hanchors.trans (hdots.congr (fun _ => hit_dots hm.exact))).congr ?_
      intro i
      constructor
      · rintro (⟨start,f,hcut,hf,h⟩ | ⟨start,f,hcut,hf,h⟩)
        · exact ⟨start,f,hcut,hf,.inl h⟩
        · exact ⟨start,f,hcut,hf,.inr ⟨hplain.1,h⟩⟩
      · rintro ⟨start,f,hcut,hf,h | ⟨-,h⟩⟩
        · exact .inl ⟨start,f,hcut,hf,h⟩
        · exact .inr ⟨start,f,hcut,hf,h⟩

lemma sound_new {keys : List String}
    (hkeys : ∀ k ∈ keys, ownedAssetKeyPrefix <+: k.toList) : (new keys).Sound := by
  refine ⟨(KeyIndex.exact_ofKeys hkeys).1,?_,?_⟩
  · exact List.length_replicate
  · exact List.count_replicate_self.symm

end AssetKeyMatcher
end RisuNest.Storage.Orphans
