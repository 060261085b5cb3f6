import RisuNest.Wire.Reordering
import RisuNest.Wire.Sizes

/-! The canonical form of unit payloads (`payload_value.rs`), and the inline values that are in
it (`unit.rs`). -/
namespace RisuNest.Wire.Payload
open JsonText

section
variable {numeral : List Char → Option ℚ} {cr : Crates}

lemma parse_eq_ok {b : List UInt8} {v : Json} :
    parse cr b = .ok v ↔ cr.readJson b = some v ∧ v.distinct = true := by
  unfold parse
  cases cr.readJson b with
  | none => exact ⟨nofun,fun h => nomatch h.1⟩
  | some w =>
    dsimp only
    split_ifs with hd
    · rw [Except.ok.injEq, Option.some.injEq]
      exact ⟨fun h => ⟨h,h ▸ hd⟩,And.left⟩
    · rw [Option.some.injEq]
      exact ⟨nofun,fun ⟨h,hw⟩ => absurd (h ▸ hw) hd⟩

lemma encode_eq_ok {v : Json} {c : List UInt8} : encode cr v = .ok c ↔
    shallow 0 v = true ∧ c = utf8 (write cr (sortBy keyLe v)) := by
  unfold encode
  rw [sortMembers_eq]
  split_ifs with hs
  · rw [Except.ok.injEq]
    exact ⟨fun h => ⟨hs,h.symm⟩,fun h => h.2.symm⟩
  · exact ⟨nofun,fun h => absurd h.1 hs⟩

lemma canonicalize_eq_ok {b c : List UInt8} : canonicalize cr b = .ok c ↔
    ∃ v, cr.readJson b = some v ∧ v.distinct = true ∧ shallow 0 v = true ∧
      c = utf8 (write cr (sortBy keyLe v)) := by
  unfold canonicalize
  simp only [bind_eq_ok, parse_eq_ok, encode_eq_ok]
  exact ⟨fun ⟨v,⟨hr,hd⟩,hs,hc⟩ => ⟨v,hr,hd,hs,hc⟩,fun ⟨v,hr,hd,hs,hc⟩ => ⟨v,⟨hr,hd⟩,hs,hc⟩⟩

lemma read_written (hread : ReadsJson numeral cr) (hfmt : RoundTrips numeral cr) {b : List UInt8}
    {v : Json} (hv : cr.readJson b = some v) :
    cr.readJson (utf8 (write cr (sortBy keyLe v))) = some (sortBy keyLe v) := by
  obtain ⟨hs,t,-,_,_,-,hspell,-⟩ := (hread b v).mp hv
  have hsame := reordered_sortBy keyLe v
  refine (hread _ _).mpr ⟨hsame.shallow_eq 0 ▸ hs,_,rfl,isText_write fun n hn => ?_⟩
  obtain ⟨d,hd⟩ := hspell.numbers_named n ((hsame.numbers_iff n).mpr hn)
  exact hfmt d n hd

lemma canonicalize_idem (hread : ReadsJson numeral cr) (hfmt : RoundTrips numeral cr)
    {b c : List UInt8} (h : canonicalize cr b = .ok c) : canonicalize cr c = .ok c := by
  obtain ⟨v,hv,hd,hs,rfl⟩ := canonicalize_eq_ok.mp h
  have hsame := reordered_sortBy keyLe v
  refine canonicalize_eq_ok.mpr ⟨_,read_written hread hfmt hv,hsame.distinct_eq ▸ hd,
    hsame.shallow_eq 0 ▸ hs,?_⟩
  rw [sortBy_idem keyOrder_keyLe hd]

lemma canonicalize_reordered (hread : ReadsJson numeral cr) {v w : Json} {s t : List Char}
    (hs : IsText numeral v s) (ht : IsText numeral w t) (h : Reordered v w) {c : List UInt8}
    (hc : canonicalize cr (utf8 s) = .ok c) : canonicalize cr (utf8 t) = .ok c := by
  obtain ⟨v',hv,hd,hsh,rfl⟩ := canonicalize_eq_ok.mp hc
  obtain ⟨-,s',hs',htext⟩ := (hread _ _).mp hv
  obtain rfl := isText_unique hs (utf8_injective hs' ▸ htext)
  have hw := (hread _ _).mpr ⟨h.shallow_eq 0 ▸ hsh,t,rfl,ht⟩
  refine canonicalize_eq_ok.mpr ⟨w,hw,h.distinct_eq ▸ hd,h.shallow_eq 0 ▸ hsh,?_⟩
  rw [h.sortBy_eq keyOrder_keyLe hd]

lemma canonicalize_error {b : List UInt8} {e : WireError} (h : canonicalize cr b = .error e) :
    e = ⟨"invalid-payload-json"⟩ := by
  rcases bind_eq_error.mp h with h | ⟨v,-,h⟩
  · unfold parse at h
    split at h
    · split_ifs at h
      exact (Except.error.inj h).symm
    · exact (Except.error.inj h).symm
  · unfold encode at h
    split_ifs at h
    exact (Except.error.inj h).symm

lemma validate_inline_eq_ok {text : String} : (UnitValue.inline text).validate cr = .ok () ↔
    ∃ b, cr.base64Decode text = some b ∧ cr.base64Encode b = text ∧
      canonicalize cr b = .ok b ∧ b.length ≤ maxInlineUnitBytes := by
  have hvalid : (UnitValue.inline text).validate cr = .ok () ↔
      ∃ x, (UnitValue.inline text).validatedInline cr = .ok x := by
    unfold UnitValue.validate
    rw [bind_eq_ok]
    exact ⟨fun ⟨x,h,_⟩ => ⟨x,h⟩,fun ⟨x,h⟩ => ⟨x,h,rfl⟩⟩
  rw [hvalid, UnitValue.validatedInline]
  cases cr.base64Decode text with
  | none => exact ⟨fun ⟨_,h⟩ => (nomatch h),fun ⟨_,h,_⟩ => (nomatch h)⟩
  | some b =>
    constructor
    · rintro ⟨x,h⟩
      dsimp only at h
      by_cases hlong : maxInlineUnitBytes < b.length
      · rw [if_pos hlong] at h
        cases h
      rw [if_neg hlong] at h
      by_cases hbase : cr.base64Encode b = text
      · rw [if_neg (not_not.mpr hbase)] at h
        obtain ⟨v,hv,h⟩ := bind_eq_ok.mp h
        obtain ⟨c,hc,h⟩ := bind_eq_ok.mp h
        by_cases heq : c = b
        · refine ⟨b,rfl,hbase,bind_eq_ok.mpr ⟨v,hv,?_⟩,Nat.le_of_not_lt hlong⟩
          rw [hc, heq]
        · rw [if_pos heq] at h
          cases h
      · rw [if_pos hbase] at h
        cases h
    · rintro ⟨b',hb,hbase,hc,hle⟩
      obtain rfl := Option.some.inj hb
      obtain ⟨v,hv,hc⟩ := bind_eq_ok.mp hc
      refine ⟨some (b,v),?_⟩
      dsimp only
      rw [if_neg (Nat.not_lt_of_le hle), if_neg (not_not.mpr hbase)]
      refine bind_eq_ok.mpr ⟨v,hv,bind_eq_ok.mpr ⟨b,hc,?_⟩⟩
      rw [if_neg (not_not.mpr rfl)]
      rfl

/-- A canonical form is its own canonical form, texts that differ in the order of members, in
blanks or in escapes have the same one, and an inline value is valid exactly when it is its own
canonical form and no longer than such values may be. -/
theorem canonical_form (hread : ReadsJson numeral cr) (hfmt : RoundTrips numeral cr) :
    (∀ b c, canonicalize cr b = .ok c → canonicalize cr c = .ok c) ∧
    (∀ v w s t, IsText numeral v s → IsText numeral w t → Reordered v w →
      canonicalize cr (utf8 s) = canonicalize cr (utf8 t)) ∧
    ∀ b, cr.base64Decode (cr.base64Encode b) = some b →
      ((UnitValue.inline (cr.base64Encode b)).validate cr = .ok () ↔
        canonicalize cr b = .ok b ∧ b.length ≤ maxInlineUnitBytes) := by
  refine ⟨fun b c => canonicalize_idem hread hfmt,fun v w s t hs ht h => ?_,fun b hb => ?_⟩
  · cases hcs : canonicalize cr (utf8 s) with
    | ok c => exact (canonicalize_reordered hread hs ht h hcs).symm
    | error e =>
      cases hct : canonicalize cr (utf8 t) with
      | ok c =>
        rw [canonicalize_reordered hread ht hs h.symm hct] at hcs
        cases hcs
      | error e' => rw [canonicalize_error hcs, canonicalize_error hct]
  · rw [validate_inline_eq_ok, hb]
    constructor
    · rintro ⟨b',hb',-,h⟩
      rw [Option.some.inj hb']
      exact h
    · exact fun h => ⟨b,rfl,rfl,h⟩

end

/-- The decimal texts of natural numbers, as tokens. -/
def decimal (d : List Char) : Option ℚ :=
  if (Decimal.value d).repr.toList = d then some (Decimal.value d) else none

/-- Crates that read every JSON text whose numbers are natural ones in plain decimal. -/
def textCrates : Crates :=
  { tabulated [] [("\x7b\x7d","e30")] [] with
    readJson := readBytes decimal
    formatNumber := fun n => n.num.toNat.repr }

lemma textCrates_reads : ReadsJson decimal textCrates := fun _ _ => readBytes_eq_some

lemma decimal_repr (n : ℕ) : decimal n.repr.toList = some (n : ℚ) := by
  unfold decimal
  rw [Decimal.value_repr, if_pos rfl]

lemma isToken_repr (n : ℕ) : isToken n.repr.toList = true := by
  have hdigits := Decimal.digits_repr n
  have hpos := Decimal.length_repr_pos n
  cases h : n.repr.toList with
  | nil =>
    rw [h] at hpos
    cases hpos
  | cons c d =>
    rw [h] at hdigits
    have hc : c.isDigit = true := hdigits c List.mem_cons_self
    simp only [isToken, hc, Bool.true_or, Bool.true_and, List.all_eq_true]
    intro x hx
    simp only [isNumeric, hdigits x hx, Bool.true_or]

lemma textCrates_roundTrips : RoundTrips decimal textCrates := by
  intro d n h
  unfold decimal at h
  split_ifs at h
  obtain rfl := Option.some.inj h
  exact ⟨isToken_repr _,decimal_repr _⟩

/-- `[1,{"b":"A","a":true}]` -/
def sampleValue : Json := .arr [.num 1,.obj [("b",.str "A"),("a",.bool true)]]
def sortedSample : Json := .arr [.num 1,.obj [("a",.bool true),("b",.str "A")]]

def sampleText : List Char := write textCrates sampleValue
def sortedText : List Char := write textCrates sortedSample

/-- The form of a text whose names are out of order is the sorted one, which stays as it is; a
blank and an escape make no difference; the empty object is a valid inline value. -/
theorem canonical_form_sample :
    canonicalize textCrates (utf8 sampleText) = .ok (utf8 sortedText) ∧
    canonicalize textCrates (utf8 sortedText) = .ok (utf8 sortedText) ∧
    canonicalize textCrates (utf8 " \"\\u0041\"".toList) =
      canonicalize textCrates (utf8 "\"A\"".toList) ∧
    (UnitValue.inline "e30").validate textCrates = .ok () := by
  obtain ⟨hidem,hsame,hvalid⟩ := canonical_form textCrates_reads textCrates_roundTrips
  have hone : WritesBack decimal textCrates 1 := textCrates_roundTrips ['1'] 1 (by decide)
  have htext : IsText decimal sampleValue sampleText := isText_write fun n hn => by
    rwa [List.mem_singleton.mp hn]
  have hread := (textCrates_reads (utf8 sampleText) sampleValue).mpr ⟨rfl,_,rfl,htext⟩
  have hform : canonicalize textCrates (utf8 sampleText) = .ok (utf8 sortedText) :=
    canonicalize_eq_ok.mpr ⟨sampleValue,hread,rfl,rfl,congrArg utf8 (by decide)⟩
  have hescape : IsText decimal (.str "A") " \"\\u0041\"".toList := read_eq_some.mp (by rfl)
  have hplain : IsText decimal (.str "A") "\"A\"".toList := read_eq_some.mp (by rfl)
  have hempty : IsText decimal (.obj []) "\x7b\x7d".toList := read_eq_some.mp (by rfl)
  have hbase : textCrates.base64Encode (utf8 "\x7b\x7d".toList) = "e30" := by decide
  refine ⟨hform,hidem _ _ hform,hsame _ _ _ _ hescape hplain (.refl _),?_⟩
  have hread := (textCrates_reads (utf8 "\x7b\x7d".toList) (.obj [])).mpr ⟨rfl,_,rfl,hempty⟩
  rw [← hbase]
  refine (hvalid _ (by decide)).mpr ⟨canonicalize_eq_ok.mpr ⟨_,hread,rfl,rfl,?_⟩,?_⟩
  · exact congrArg utf8 (by decide)
  · decide

lemma canonicalize_writeString {numeral : List Char → Option ℚ} {cr : Crates}
    (hread : ReadsJson numeral cr) (s : String) :
    canonicalize cr (utf8 (writeString s)) = .ok (utf8 (writeString s)) := by
  have htext : IsText numeral (.str s) (write cr (.str s)) := isText_write nofun
  have hv := (hread (utf8 (writeString s)) (.str s)).mpr ⟨rfl,_,rfl,htext⟩
  exact canonicalize_eq_ok.mpr ⟨_,hv,rfl,rfl,rfl⟩

/-- `textCrates` with the base64 of one payload. -/
def inlineCrates (payload : List UInt8) (text : String) : Crates :=
  { textCrates with
    base64Encode := fun b => if b = payload then text else ""
    base64Decode := fun t => if t = text then some payload else none }

lemma inlineCrates_base64 (payload : List UInt8) (text : String) :
    (inlineCrates payload text).base64Decode ((inlineCrates payload text).base64Encode payload) =
      some payload := by
  simp only [inlineCrates, if_true]

lemma long_not_valid {cr : Crates} {payload : List UInt8}
    (hbase : cr.base64Decode (cr.base64Encode payload) = some payload)
    (hlong : maxInlineUnitBytes < payload.length) :
    (UnitValue.inline (cr.base64Encode payload)).validate cr ≠ .ok () := by
  rw [ne_eq, validate_inline_eq_ok]
  rintro ⟨b,hb,-,-,hle⟩
  obtain rfl := Option.some.inj (hbase.symm.trans hb)
  exact Nat.not_lt_of_le hle hlong

/-- A string of so many letters. -/
def letters (n : ℕ) : String := String.ofList (List.replicate n 'a')

/-- The base64 of 262143 letters in their quotes. -/
def longBase64 : String := String.ofList
  (['I','m','F','h'] ++ (List.replicate 87380 ['Y','W','F','h']).flatten ++ ['Y','S','I'])

lemma length_quoted (n : ℕ) : (utf8 (writeString (letters n))).length = n+2 := by
  have htext : (letters n).toList = List.replicate n 'a' := String.toList_ofList
  have hplain : ∀ c ∈ (letters n).toList, c = 'a' := fun c hc => List.eq_of_mem_replicate (htext ▸ hc)
  change byteLength (writeString (letters n)) = n+2
  rw [byteLength_writeString_plain fun c hc => hplain c hc ▸ rfl,
    byteLength_ascii fun c hc => hplain c hc ▸ (by decide), htext, List.length_replicate]

/-- A canonical form that is too long for an inline value. -/
theorem long_inline_refused : ∃ cr payload, ReadsJson decimal cr ∧ RoundTrips decimal cr ∧
    cr.base64Decode (cr.base64Encode payload) = some payload ∧
    canonicalize cr payload = .ok payload ∧
    (UnitValue.inline (cr.base64Encode payload)).validate cr ≠ .ok () := by
  have hbase := inlineCrates_base64 (utf8 (writeString (letters 262143))) longBase64
  have hreads : ReadsJson decimal (inlineCrates (utf8 (writeString (letters 262143))) longBase64) :=
    textCrates_reads
  refine ⟨_,_,hreads,textCrates_roundTrips,hbase,canonicalize_writeString hreads (letters 262143),
    long_not_valid hbase ?_⟩
  rw [length_quoted]
  decide

end RisuNest.Wire.Payload
