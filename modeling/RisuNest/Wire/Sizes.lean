import RisuNest.Wire.Head

/-! The number of bytes a text takes, and what control JSON adds to it. -/
namespace RisuNest.Wire

lemma length_utf8_append (a b : List Char) :
    (utf8 (a ++ b)).length = (utf8 a).length + (utf8 b).length := by
  simp [utf8, String.ofList_append]

lemma validateHash_ofList {l : List Char}
    (h : (l.length = 64 && l.all isHexLower) = true) : validateHash (String.ofList l) = .ok () := by
  rw [validateHash, String.toList_ofList, if_pos h]

lemma utf8_isPrefix {p t : List Char} (h : p <+: t) : utf8 p <+: utf8 t := by
  obtain ⟨rest, rfl⟩ := h
  refine ⟨utf8 rest,?_⟩
  simp [utf8, String.ofList_append]

/-- The number of UTF-8 bytes of some characters. -/
def byteLength (t : List Char) : ℕ := (utf8 t).length

@[simp] lemma byteLength_nil : byteLength [] = 0 := rfl

@[simp] lemma byteLength_append (a b : List Char) :
    byteLength (a ++ b) = byteLength a + byteLength b := length_utf8_append a b

lemma byteLength_singleton (c : Char) : byteLength [c] = c.utf8Size := by
  unfold byteLength utf8
  rw [String.toByteArray_ofList, List.utf8Encode_singleton]
  simp

lemma byteLength_cons (c : Char) (t : List Char) :
    byteLength (c :: t) = c.utf8Size + byteLength t := by
  rw [← List.singleton_append, byteLength_append, byteLength_singleton]

lemma byteLength_ascii {t : List Char} (h : ∀ c ∈ t, c.toNat < 128) : byteLength t = t.length := by
  induction t with
  | nil => rfl
  | cons c t ih =>
    rw [List.forall_mem_cons] at h
    have hc : c.utf8Size = 1 := Char.utf8Size_eq_one_iff.mpr (by
      have := h.1
      change c.val.toNat < 128 at this
      rw [UInt32.le_iff_toNat_le]
      change _ ≤ 127
      omega)
    rw [byteLength_cons, ih h.2, hc, List.length_cons, Nat.add_comm]

lemma toNat_hexDigit_lt {n : ℕ} (h : n < 16) : (hexDigit n).toNat < 128 := by
  revert n
  decide

lemma byteLength_escape_le (c : Char) : byteLength (escape c) ≤ 6*c.utf8Size := by
  have hpos : 0 < c.utf8Size := c.utf8Size_pos
  unfold escape
  split_ifs with h1 h2 h3 h4 h5 h6 h7 h8
  · rw [byteLength_ascii (by simp)]; simp; omega
  · rw [byteLength_ascii (by simp)]; simp; omega
  · rw [byteLength_ascii (by simp)]; simp; omega
  · rw [byteLength_ascii (by simp)]; simp; omega
  · rw [byteLength_ascii (by simp)]; simp; omega
  · rw [byteLength_ascii (by simp)]; simp; omega
  · rw [byteLength_ascii (by simp)]; simp; omega
  · have hhigh := toNat_hexDigit_lt (n := c.toNat/16) (by omega)
    have hlow := toNat_hexDigit_lt (n := c.toNat%16) (by omega)
    rw [byteLength_ascii (by simp [hhigh, hlow])]
    simp
    omega
  · rw [byteLength_singleton]
    omega

lemma byteLength_flatMap_escape_le (t : List Char) :
    byteLength (t.flatMap escape) ≤ 6*byteLength t := by
  induction t with
  | nil => simp
  | cons c t ih =>
    have hc := byteLength_escape_le c
    rw [List.flatMap_cons, byteLength_append, byteLength_cons]
    omega

lemma byteLength_writeString (s : String) :
    byteLength (writeString s) = byteLength (s.toList.flatMap escape) + 2 := by
  unfold writeString stringTail
  rw [byteLength_cons, byteLength_append, byteLength_singleton]
  change 1 + (_ + 1) = _
  omega

lemma byteLength_writeString_le (s : String) :
    byteLength (writeString s) ≤ 6*byteLength s.toList + 2 := by
  have := byteLength_flatMap_escape_le s.toList
  rw [byteLength_writeString]
  omega

lemma byteLength_writeString_plain {s : String} (h : ∀ c ∈ s.toList, escape c = [c]) :
    byteLength (writeString s) = byteLength s.toList + 2 := by
  rw [byteLength_writeString]
  congr 1
  generalize s.toList = t at h
  induction t with
  | nil => rfl
  | cons c t ih =>
    rw [List.forall_mem_cons] at h
    rw [List.flatMap_cons, byteLength_append, h.1, ih h.2, ← byteLength_append, List.singleton_append]

lemma escape_isHexLower {c : Char} (h : isHexLower c = true) : escape c = [c] ∧ c.toNat < 128 := by
  simp only [isHexLower, Bool.or_eq_true, Bool.and_eq_true, decide_eq_true_eq, Char.le_def,
    UInt32.le_iff_toNat_le] at h
  change 48 ≤ c.toNat ∧ c.toNat ≤ 57 ∨ 97 ≤ c.toNat ∧ c.toNat ≤ 102 at h
  have hc : Char.ofNat c.toNat = c := Char.ofNat_toNat c
  refine ⟨?_,by omega⟩
  rw [← hc]
  obtain ⟨hlow,hhigh⟩ | ⟨hlow,hhigh⟩ := h
  · interval_cases c.toNat <;> decide
  · interval_cases c.toNat <;> decide

lemma byteLength_hash {s : String} (h : validateHash s = .ok ()) :
    byteLength s.toList = 64 ∧ byteLength (writeString s) = 66 := by
  have hlen := length_of_validateHash h
  unfold validateHash at h
  split_ifs at h with hc
  rw [Bool.and_eq_true, List.all_eq_true] at hc
  have hplain := fun c hmem => escape_isHexLower (hc.2 c hmem)
  have hbytes : byteLength s.toList = 64 := by
    rw [byteLength_ascii fun c hmem => (hplain c hmem).2, hlen]
  exact ⟨hbytes,by rw [byteLength_writeString_plain fun c hmem => (hplain c hmem).1, hbytes]⟩

lemma length_utf8 (t : List Char) : (utf8 t).length = byteLength t := rfl

lemma length_encode (v : Control) : v.encode.length = byteLength v.write := rfl

lemma write_str (s : String) : (Control.str s).write = writeString s := rfl

lemma byteLength_writeMembers (name : String) (v : Control) (ms : List (String × Control)) :
    byteLength (Control.writeMembers ((name,v) :: ms)) = byteLength (writeString name) + 2 +
      byteLength v.write + byteLength (Control.writeMembers ms) := by
  rw [Control.writeMembers, byteLength_cons, byteLength_append, byteLength_cons, byteLength_append]
  change 1 + (_ + (1 + _)) = _
  omega

lemma byteLength_writeMembers_nil : byteLength (Control.writeMembers []) = 1 := by decide +kernel

lemma byteLength_obj (name : String) (v : Control) (ms : List (String × Control)) :
    byteLength (Control.obj ((name,v) :: ms)).write = byteLength (writeString name) + 2 +
      byteLength v.write + byteLength (Control.writeMembers ms) := by
  rw [Control.write, byteLength_cons, byteLength_append, byteLength_cons, byteLength_append]
  change 1 + (_ + (1 + _)) = _
  omega

lemma byteLength_writeItems (vs : List Control) :
    byteLength (Control.writeItems vs) = (vs.map fun v => byteLength v.write + 1).sum + 1 := by
  induction vs with
  | nil => rfl
  | cons v vs ih =>
    rw [Control.writeItems, byteLength_cons, byteLength_append, ih, List.map_cons, List.sum_cons]
    change 1 + _ = _
    omega

lemma byteLength_arr {vs : List Control} (h : vs ≠ []) :
    byteLength (Control.arr vs).write = (vs.map fun v => byteLength v.write + 1).sum + 1 := by
  cases vs with
  | nil => exact absurd rfl h
  | cons v vs =>
    rw [Control.write, byteLength_cons, byteLength_append, byteLength_writeItems, List.map_cons,
      List.sum_cons]
    change 1 + _ = _
    omega

/-- The bytes of a list of texts, each with the comma or bracket after it. -/
def itemBytes (values : List String) : ℕ :=
  (values.map fun v => byteLength (writeString v) + 1).sum

lemma byteLength_strings {values : List String} (h : values ≠ []) :
    byteLength (Control.strings values).write = itemBytes values + 1 := by
  rw [Control.strings, byteLength_arr (by simpa using h), List.map_map]
  rfl

end RisuNest.Wire
