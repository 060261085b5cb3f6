import RisuNest.Storage.KeyScan

/-! A text that arrives in pieces marks the keys it would mark as one. -/
namespace RisuNest.Storage.Orphans
open Wire (utf8)

/-! ### Bytes -/

/-- Decoded text arrives in arbitrary byte pieces, so a character split between two is held. -/
structure TextWriter where
  stream : KeyStream
  held : List UInt8

def AssetKeyMatcher.writer (m : AssetKeyMatcher) (plugin : Bool) : TextWriter :=
  ⟨m.stream plugin,[]⟩

namespace TextWriter

def write (w : TextWriter) (bytes : List UInt8) : Except String TextWriter := do
  let held := w.held ++ bytes
  let valid ← match Utf8.check 0 held with
    | .valid => pure held.length
    | .invalid validUpTo none => pure validUpTo
    | .invalid _ (some _) => .error "plugin text is invalid"
  if Utf8.check 0 (held.take valid) = .valid then
    .ok ⟨w.stream.push (held.take valid),held.drop valid⟩
  else .error "invalid data"

/-- The end of `observe_asset_key_references` for one large value. -/
def finish (w : TextWriter) : Except String AssetKeyMatcher :=
  if w.held ≠ [] then .error "plugin object hash mismatch" else .ok w.stream.finish

end TextWriter

/-! ### Hits of a text that goes on -/

variable {x : KeyIndex} {text more : List UInt8} {cut : ℕ} {plugin : Bool} {i : ℕ}

lemma Hit.append (h : Hit x text cut plugin i) (more : List UInt8) {cut' : ℕ} (hcut : cut ≤ cut') :
    Hit x (text ++ more) cut' plugin i := by
  obtain ⟨start,f,hstart,hf,h⟩ := h
  refine ⟨start,f,by omega,hf.trans ?_,h⟩
  rw [List.drop_append]
  exact List.prefix_append ..

lemma Hit.mono (h : Hit x text cut plugin i) {cut' : ℕ} (hcut : cut ≤ cut') :
    Hit x text cut' plugin i := by
  obtain ⟨start,f,hstart,hf⟩ := h
  exact ⟨start,f,hstart.trans_le hcut,hf⟩

lemma hit_append (hx : x.Exact) (hfits : cut = 0 ∨ cut + (x.longest - 1) ≤ text.length) :
    Hit x (text ++ more) cut plugin i ↔ Hit x text cut plugin i := by
  constructor
  · rintro ⟨start,f,hstart,hf,h⟩
    refine ⟨start,f,hstart,?_,h⟩
    have hlongest : f.length ≤ x.longest := by
      cases h with
      | inl h =>
        obtain ⟨first,hfirst,-⟩ := h
        exact hx.longest.1 _ (hx.anchored f first hfirst).2
      | inr h =>
        obtain ⟨first,hfirst,-⟩ := h.2
        obtain ⟨d,-,hshape⟩ := hx.dotted f first hfirst
        exact hx.longest.2 _ hshape
    rw [List.drop_append_of_le_length (by omega)] at hf
    apply List.prefix_of_prefix_length_le hf (List.prefix_append ..)
    rw [List.length_drop]
    omega
  · intro h
    exact h.append more le_rfl

lemma hit_split (dropped pending : List UInt8) (cut : ℕ) :
    Hit x (dropped ++ pending) (dropped.length + cut) plugin i ↔
      Hit x (dropped ++ pending) dropped.length plugin i ∨ Hit x pending cut plugin i := by
  constructor
  · rintro ⟨start,f,hstart,hf,h⟩
    by_cases hbefore : start < dropped.length
    · exact .inl ⟨start,f,hbefore,hf,h⟩
    · refine .inr ⟨start - dropped.length,f,by omega,?_,h⟩
      rwa [List.drop_append, List.drop_eq_nil_of_le (not_lt.mp hbefore), List.nil_append] at hf
  · rintro (⟨start,f,hstart,hf,h⟩ | ⟨start,f,hstart,hf,h⟩)
    · exact ⟨start,f,by omega,hf,h⟩
    · refine ⟨dropped.length + start,f,by omega,?_,h⟩
      rwa [← List.drop_drop, List.drop_left]

lemma hit_whole (hx : x.Exact) : Hit x text text.length plugin i ↔ ∃ f, f <:+: text ∧
    (x.Holds false f i ∨ plugin = true ∧ x.Holds true f i) := by
  constructor
  · rintro ⟨start,f,-,hf,h⟩
    exact ⟨f,hf.isInfix.trans (List.drop_suffix ..).isInfix,h⟩
  · rintro ⟨f,⟨before,after,rfl⟩,h⟩
    refine ⟨before.length,f,?_,?_,h⟩
    · have hpos : 0 < f.length := by
        cases h with
        | inl h =>
          obtain ⟨first,hfirst,-⟩ := h
          exact (hx.anchored f first hfirst).1.length_le.trans_lt' (by decide)
        | inr h =>
          obtain ⟨first,hfirst,-⟩ := h.2
          obtain ⟨d,hdot,-⟩ := hx.dotted f first hfirst
          exact Nat.zero_lt_of_lt (List.getElem?_eq_some_iff.mp hdot).1
      simp only [List.length_append]
      omega
    · rw [List.append_assoc, List.drop_left]
      exact List.prefix_append ..

/-! ### Streams -/

lemma floorBoundary_le (text : List UInt8) (cut : ℕ) : floorBoundary text cut ≤ cut := by
  induction cut with
  | zero => exact le_rfl
  | succ cut ih =>
    unfold floorBoundary
    split_ifs
    · exact le_rfl
    · omega

namespace KeyStream
open AssetKeyMatcher (Marks Sound)

/-- What a stream has marked of the text it was given, and what it still holds of it. -/
structure Follows (m : AssetKeyMatcher) (plugin : Bool) (text : List UInt8) (s : KeyStream)
    (P : ℕ → Prop) : Prop where
  kind : s.plugin = plugin
  marks : Marks m s.matcher P
  sound : ∀ i, P i → Hit m.toKeyIndex text text.length plugin i
  complete : s.matcher.remaining = 0 ∨ ∃ dropped, text = dropped ++ s.pending ∧
    (dropped.length = 0 ∨ dropped.length + (m.longest - 1) ≤ text.length) ∧
    ∀ i, Hit m.toKeyIndex text dropped.length plugin i → P i

variable {m : AssetKeyMatcher} {s : KeyStream} {P : ℕ → Prop}

lemma follows_stream (m : AssetKeyMatcher) (plugin : Bool) :
    Follows m plugin [] (m.stream plugin) (fun _ => False) := by
  refine ⟨rfl,Marks.refl m,fun _ h => h.elim,.inr ⟨[],rfl,.inl rfl,?_⟩⟩
  rintro i ⟨start,f,hstart,-⟩
  cases hstart

theorem follows_push (hm : m.Sound) (h : Follows m plugin text s P) (more : List UInt8) :
    ∃ Q, Follows m plugin (text ++ more) (s.push more) Q := by
  have hgrows : ∀ i, P i → Hit m.toKeyIndex (text ++ more) (text ++ more).length plugin i := by
    intro i hi
    apply (h.sound i hi).append more
    rw [List.length_append]
    omega
  unfold push
  by_cases hdone : s.matcher.isComplete
  · rw [if_pos hdone]
    exact ⟨P,h.kind,h.marks,hgrows,.inl (of_decide_eq_true hdone)⟩
  · rw [if_neg hdone]
    have hnot : s.matcher.remaining ≠ 0 := fun hz => hdone (decide_eq_true hz)
    obtain ⟨dropped,htext,hfits,hall⟩ := h.complete.resolve_left hnot
    have hindex : s.matcher.toKeyIndex = m.toKeyIndex := h.marks.index
    have htext' : text ++ more = dropped ++ (s.pending ++ more) := by
      rw [htext, List.append_assoc]
    have hall' : ∀ i, Hit m.toKeyIndex (text ++ more) dropped.length plugin i → P i := by
      intro i hi
      exact hall i ((hit_append hm.exact hfits).mp hi)
    dsimp only
    rw [hindex]
    split_ifs with hkeep
    · refine ⟨P,h.kind,h.marks,hgrows,.inr ⟨dropped,htext',?_,hall'⟩⟩
      rw [List.length_append]
      omega
    · -- the scan of what starts before the cut
      have hcut := floorBoundary_le (s.pending ++ more)
        ((s.pending ++ more).length - (m.longest - 1))
      generalize floorBoundary (s.pending ++ more)
        ((s.pending ++ more).length - (m.longest - 1)) = cut at hcut
      have hscan := AssetKeyMatcher.marks_scan (hm.marks h.marks) (s.pending ++ more) cut s.plugin
      rw [hindex, h.kind] at hscan
      rw [← h.kind] at hall' ⊢
      rw [← h.kind] at hscan hgrows
      refine ⟨_,rfl,h.marks.trans hscan,?_,.inr
        ⟨dropped ++ (s.pending ++ more).take cut,?_,.inr ?_,?_⟩⟩
      · rintro i (hi | hi)
        · exact hgrows i hi
        · rw [htext']
          apply ((hit_split dropped _ _).mpr (.inr hi)).mono
          rw [List.length_append]
          omega
      · rw [List.append_assoc, List.take_append_drop, htext']
      · rw [htext', List.length_append, List.length_append, List.length_take]
        omega
      · intro i hi
        have hlen : (dropped ++ (s.pending ++ more).take cut).length = dropped.length + cut := by
          rw [List.length_append, List.length_take]
          omega
        rw [hlen, htext'] at hi
        cases (hit_split dropped _ _).mp hi with
        | inl hi => exact .inl (hall' i (htext' ▸ hi))
        | inr hi => exact .inr hi

/-- The end of a stream marks what one look at the whole text marks. -/
theorem finish_eq (hm : m.Sound) (h : Follows m plugin text s P) :
    s.finish = m.observe text plugin := by
  have hwhole := AssetKeyMatcher.marks_scan hm text text.length plugin
  have hend := AssetKeyMatcher.marks_scan (hm.marks h.marks) s.pending s.pending.length s.plugin
  rw [h.marks.index, h.kind] at hend
  unfold finish AssetKeyMatcher.observe
  rw [h.kind]
  cases h.complete with
  | inl hdone =>
    -- everything is found already
    have hsame : s.matcher.scan s.pending s.pending.length plugin = s.matcher := by
      unfold AssetKeyMatcher.scan
      rw [if_pos hdone]
    rw [hsame]
    apply Marks.unique hm.counted h.marks hwhole
    intro i hi hnew
    constructor
    · exact h.sound i
    · intro _
      have hall := (AssetKeyMatcher.marks_of_complete (hm.marks h.marks) hdone
        (fun _ => True)).found i
      have hnow := hall.mpr (.inr ⟨h.marks.length.symm ▸ hi,trivial⟩)
      exact (((h.marks.found i).mp hnow).resolve_left hnew).2
  | inr hrest =>
    obtain ⟨dropped,htext,hfits,hall⟩ := hrest
    apply Marks.unique hm.counted (h.marks.trans hend) hwhole
    intro i _ _
    have hlen : text.length = dropped.length + s.pending.length := by
      rw [htext, List.length_append]
    constructor
    · rintro (hi | hi)
      · exact h.sound i hi
      · rw [hlen, htext]
        exact (hit_split ..).mpr (.inr hi)
    · intro hi
      rw [hlen, htext] at hi
      cases (hit_split ..).mp hi with
      | inl hi => exact .inl (hall i (htext ▸ hi))
      | inr hi => exact .inr hi

theorem follows_pieces (hm : m.Sound) (h : Follows m plugin text s P)
    (pieces : List (List UInt8)) :
    ∃ Q, Follows m plugin (text ++ pieces.flatten) (pieces.foldl push s) Q := by
  induction pieces generalizing text s P with
  | nil => exact ⟨P,by rwa [List.flatten_nil, List.append_nil]⟩
  | cons piece pieces ih =>
    obtain ⟨Q,hQ⟩ := follows_push hm h piece
    rw [List.flatten_cons, ← List.append_assoc]
    exact ih hQ

theorem pieces_eq (hm : m.Sound) (plugin : Bool) (pieces : List (List UInt8)) :
    (pieces.foldl push (m.stream plugin)).finish = m.observe pieces.flatten plugin := by
  obtain ⟨P,hP⟩ := follows_pieces hm (follows_stream m plugin) pieces
  exact finish_eq hm hP

end KeyStream

/-! ### Writers -/

namespace TextWriter

/-- What a writer has given on of a text, and what it holds of it. -/
structure Follows (m : AssetKeyMatcher) (plugin : Bool) (text : List Char) (done : List UInt8)
    (w : TextWriter) : Prop where
  pushed : ∃ pieces : List (List UInt8), w.stream = pieces.foldl KeyStream.push (m.stream plugin) ∧
    done = pieces.flatten ++ w.held
  held : ∃ s u, text = s ++ u ∧ done = Utf8.encode s ++ w.held ∧ Utf8.Cut w.held u

variable {m : AssetKeyMatcher} {plugin : Bool} {text : List Char} {done : List UInt8}
  {w : TextWriter}

theorem follows_write (h : Follows m plugin text done w) {bytes : List UInt8}
    (hbytes : done ++ bytes <+: Utf8.encode text) :
    ∃ w', w.write bytes = .ok w' ∧ Follows m plugin text (done ++ bytes) w' := by
  obtain ⟨⟨pieces,hstream,hdone⟩,s,u,rfl,hs,-⟩ := h
  rw [hs, List.append_assoc, Utf8.encode_append, List.prefix_append_right_inj] at hbytes
  obtain ⟨s',u',p,rfl,hheld,hcut⟩ := Utf8.exists_cut hbytes
  have hvalid : (w.held ++ bytes).take (Utf8.encode s').length = Utf8.encode s' := by
    rw [hheld, List.take_left]
  have hrest : (w.held ++ bytes).drop (Utf8.encode s').length = p := by
    rw [hheld, List.drop_left]
  have hchecked : Utf8.check 0 (Utf8.encode s') = .valid := by
    have := Utf8.check_encode 0 s' []
    rwa [List.append_nil] at this
  refine ⟨⟨w.stream.push (Utf8.encode s'),p⟩,?_,⟨pieces ++ [Utf8.encode s'],?_,?_⟩,
    s ++ s',u',by rw [List.append_assoc],?_,hcut⟩
  · have hcheck : Utf8.check 0 (w.held ++ bytes) = Utf8.check (Utf8.encode s').length p := by
      rw [hheld, Utf8.check_encode, Nat.zero_add]
    unfold write
    dsimp only
    rw [hcheck]
    cases Utf8.check_of_cut hcut (Utf8.encode s').length with
    | inl hall =>
      have hlen : (w.held ++ bytes).length = (Utf8.encode s').length := by
        rw [hheld, hall.2, List.append_nil]
      rw [hall.1]
      dsimp only
      rw [hlen, pure_bind, hvalid, if_pos hchecked, hrest]
    | inr hpart =>
      rw [hpart]
      dsimp only
      rw [pure_bind, hvalid, if_pos hchecked, hrest]
  · rw [hstream, List.foldl_append]
    rfl
  · rw [hdone, List.append_assoc, hheld, List.flatten_append, List.flatten_singleton,
      List.append_assoc]
  · rw [hs, List.append_assoc, hheld, Utf8.encode_append, List.append_assoc]

theorem follows_writes (h : Follows m plugin text done w) {pieces : List (List UInt8)}
    (hpieces : done ++ pieces.flatten = Utf8.encode text) :
    ∃ w', pieces.foldlM write w = .ok w' ∧ Follows m plugin text (Utf8.encode text) w' := by
  induction pieces generalizing done w with
  | nil =>
    rw [List.flatten_nil, List.append_nil] at hpieces
    exact ⟨w,rfl,hpieces ▸ h⟩
  | cons piece pieces ih =>
    rw [List.flatten_cons, ← List.append_assoc] at hpieces
    obtain ⟨w',hw,h'⟩ := follows_write h (hpieces ▸ List.prefix_append ..)
    obtain ⟨w'',hrun,h''⟩ := ih h' hpieces
    refine ⟨w'',?_,h''⟩
    rw [List.foldlM_cons, hw]
    exact hrun

lemma held_eq_nil (h : Follows m plugin text (Utf8.encode text) w) : w.held = [] := by
  obtain ⟨-,s,u,rfl,hs,hcut⟩ := h
  rw [Utf8.encode_append, List.append_cancel_left_eq] at hs
  cases hcut with
  | inl h => exact h
  | inr h =>
    obtain ⟨c,u',rfl,hp,-,hne⟩ := h
    rw [← hs, Utf8.encode_cons] at hp hne
    have hnil : Utf8.encode u' = [] := by
      have hlen := hp.length_le
      rw [List.length_append] at hlen
      exact List.length_eq_zero_iff.mp (by omega)
    rw [hnil, List.append_nil] at hne
    exact absurd rfl hne

theorem writes_eq (hm : m.Sound) (plugin : Bool) (text : List Char) {pieces : List (List UInt8)}
    (hpieces : pieces.flatten = Utf8.encode text) :
    pieces.foldlM write (m.writer plugin) >>= finish =
      .ok (m.observe (Utf8.encode text) plugin) := by
  have hstart : Follows m plugin text [] (m.writer plugin) :=
    ⟨⟨[],rfl,rfl⟩,[],text,rfl,rfl,.inl rfl⟩
  obtain ⟨w,hrun,h⟩ := follows_writes hstart (by rwa [List.nil_append])
  have hheld := held_eq_nil h
  obtain ⟨pushed,hstream,hdone⟩ := h.pushed
  rw [hheld, List.append_nil] at hdone
  rw [hrun]
  change finish w = _
  unfold finish
  rw [if_neg (not_not.mpr hheld), hstream, KeyStream.pieces_eq hm, ← hdone]

end TextWriter

lemma AssetKeyMatcher.sound_observes {m : AssetKeyMatcher} (hm : m.Sound)
    (texts : List (List Char × Bool)) :
    (texts.foldl (fun m t => m.observe (utf8 t.1) t.2) m).Sound ∧
      (texts.foldl (fun m t => m.observe (utf8 t.1) t.2) m).toKeyIndex = m.toKeyIndex := by
  induction texts generalizing m with
  | nil => exact ⟨hm,rfl⟩
  | cons t texts ih =>
    have hmarks := marks_scan hm (utf8 t.1) (utf8 t.1).length t.2
    obtain ⟨hsound,hindex⟩ := ih (hm.marks hmarks)
    exact ⟨hsound,hindex.trans hmarks.index⟩

lemma utf8_flatten (pieces : List (List Char)) :
    (pieces.map utf8).flatten = utf8 pieces.flatten := by
  induction pieces with
  | nil => rfl
  | cons piece pieces ih =>
    rw [List.map_cons, List.flatten_cons, ih, List.flatten_cons, KeyIndex.utf8_eq_encode,
      KeyIndex.utf8_eq_encode, KeyIndex.utf8_eq_encode, Utf8.encode_append]

/-- After any texts, a text marks every key with a form of its kind in it, and no key without one;
and it marks the same keys in any pieces. -/
theorem matching_is_complete_in_any_pieces (keys : List String)
    (hkeys : ∀ k ∈ keys, ownedAssetKeyPrefix <+: k.toList)
    (earlier : List (List Char × Bool)) (text : List Char) (plugin : Bool) :
    let m := earlier.foldl (fun m t => m.observe (utf8 t.1) t.2) (AssetKeyMatcher.new keys)
    let m' := m.observe (utf8 text) plugin
    (∀ k, k ∈ m.keys ↔ k ∈ keys) ∧ m'.keys = m.keys ∧
    (∀ (i : ℕ) (key : String), m.keys[i]? = some key →
      (∀ f ∈ KeyIndex.keyForms key, f <:+: utf8 text → m'.found[i]? = some true) ∧
      (plugin = true → ∀ f ∈ KeyIndex.bareForms key, f.1 <:+: utf8 text →
        m'.found[i]? = some true) ∧
      (m'.found[i]? = some true → m.found[i]? = some true ∨ ∃ f, f <:+: utf8 text ∧
        (f ∈ KeyIndex.keyForms key ∨ ∃ d, (f,d) ∈ KeyIndex.bareForms key))) ∧
    (∀ pieces : List (List Char), pieces.flatten = text →
      ((pieces.map utf8).foldl KeyStream.push (m.stream plugin)).finish = m') ∧
    ∀ pieces : List (List UInt8), pieces.flatten = utf8 text →
      pieces.foldlM TextWriter.write (m.writer plugin) >>= TextWriter.finish = .ok m' := by
  intro m m'
  obtain ⟨hm,hindex⟩ :=
    AssetKeyMatcher.sound_observes (AssetKeyMatcher.sound_new hkeys) earlier
  have hmarks := AssetKeyMatcher.marks_scan hm (utf8 text) (utf8 text).length plugin
  refine ⟨?_,congrArg KeyIndex.keys hmarks.index,?_,?_,?_⟩
  · intro k
    have hnames : m.keys = KeyIndex.ordered keys :=
      (congrArg KeyIndex.keys hindex).trans (KeyIndex.exact_ofKeys hkeys).2
    rw [hnames, KeyIndex.mem_ordered]
  · intro i key hkey
    have hi : i < m.found.length := by
      rw [hm.length]
      exact (List.getElem?_eq_some_iff.mp hkey).1
    have hfound := hmarks.found i
    rw [hit_whole hm.exact] at hfound
    refine ⟨?_,?_,?_⟩
    · intro f hf hin
      exact hfound.mpr (.inr ⟨hi,f,hin,.inl (hm.exact.forms i key hkey f hf)⟩)
    · intro hplugin f hf hin
      exact hfound.mpr (.inr ⟨hi,f.1,hin,.inr ⟨hplugin,hm.exact.bare i key hkey f hf⟩⟩)
    · intro hmarked
      refine (hfound.mp hmarked).imp_right ?_
      rintro ⟨-,f,hin,h⟩
      have howns : m.toKeyIndex.Owns f i := by
        cases h with
        | inl h => exact h.owns
        | inr h => exact h.2.owns
      obtain ⟨key',hkey',hf⟩ := hm.exact.owned f i howns
      rw [hkey] at hkey'
      obtain rfl := Option.some.inj hkey'
      exact ⟨f,hin,hf⟩
  · rintro pieces rfl
    rw [KeyStream.pieces_eq hm, utf8_flatten]
  · intro pieces hpieces
    have hwrites := TextWriter.writes_eq hm plugin text
      (hpieces.trans (KeyIndex.utf8_eq_encode text))
    rwa [← KeyIndex.utf8_eq_encode] at hwrites

/-- A key with escaped separators, after another text. -/
theorem matching_is_complete_in_any_pieces_sample :
    ((AssetKeyMatcher.new ["assets/a.png"]).observe (utf8 "no".toList) true).observe
      (utf8 "x assets\\a.png".toList) false |>.found[0]? = some true := by
  have h := matching_is_complete_in_any_pieces ["assets/a.png"] (by decide) [("no".toList,true)]
    "x assets\\a.png".toList false
  refine (h.2.2.1 0 "assets/a.png" ?_).1 (utf8 "assets\\a.png".toList) ?_ ?_
  · rfl
  · decide
  · exact ⟨utf8 "x ".toList,[],by decide⟩

end RisuNest.Storage.Orphans
