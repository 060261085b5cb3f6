import RisuNest.Wire.Lww
import RisuNest.Wire.Sizes

/-! Versions that pass their checks are short: what the checks of keys, inline values and
descriptors leave of the size of their control JSON. -/
namespace RisuNest.Wire

/-- A stamp in the types of the code, a `u64` and a `u32`. -/
def Stamp.Typed (s : Stamp) : Prop := s.physicalMs < 2^64 ∧ s.logical < 2^32

/-- `URL_SAFE_NO_PAD.encode` writes four characters of its alphabet for three bytes. -/
def Base64Url (cr : Crates) : Prop := ∀ b : List UInt8,
  (cr.base64Encode b).toList.length ≤ (4*b.length + 2)/3 ∧
    ∀ c ∈ (cr.base64Encode b).toList, c.isAlphanum = true ∨ c = '-' ∨ c = '_'

lemma byteLength_le (t : List Char) : byteLength t ≤ 4*t.length := length_utf8 t ▸ length_utf8_le t

lemma UnitKey.byteLength_asStr (k : UnitKey) : byteLength k.asStr.toList ≤ 65536 := by
  have h := k.valid
  unfold checkKey at h
  split_ifs at h with hlen
  rw [UnitKey.asStr, String.toList_ofList]
  rw [length_utf8] at hlen
  exact Nat.le_of_not_lt hlen

lemma length_of_validateWriterId {s : String} (h : validateWriterId s = .ok ()) :
    s.toList.length = 36 := by
  unfold validateWriterId at h
  split_ifs at h with hc
  simp only [Bool.and_eq_true, decide_eq_true_eq] at hc
  exact hc.1

lemma Stamp.byteLength_write_le {s : Stamp} (h : s.validate = .ok ()) (ht : s.Typed) :
    byteLength s.toControl.write ≤ 2000 := by
  have k1 : byteLength (writeString "logical") = 9 := by decide
  have k2 : byteLength (writeString "physicalMs") = 12 := by decide
  have k3 : byteLength (writeString "writerId") = 10 := by decide
  have h1 := byteLength_writeString_le (toString s.logical)
  have h2 := byteLength_writeString_le (toString s.physicalMs)
  have h3 := byteLength_writeString_le s.writerId
  have h4 := byteLength_le (toString s.logical).toList
  have h5 := byteLength_le (toString s.physicalMs).toList
  have h6 := byteLength_le s.writerId.toList
  have h7 : (toString s.logical).toList.length ≤ 20 := length_repr_le (ht.2.trans (by decide))
  have h8 : (toString s.physicalMs).toList.length ≤ 20 := length_repr_le ht.1
  have h9 := length_of_validateWriterId h
  rw [toControl, byteLength_obj, byteLength_writeMembers, byteLength_writeMembers,
    byteLength_writeMembers_nil, write_str, write_str, write_str, k1, k2, k3]
  clear k1 k2 k3
  omega

/-- What `RecordDescriptor::validate` leaves of the size of a descriptor. -/
structure RecordDescriptor.Short (d : RecordDescriptor) : Prop where
  object : validateHash d.objectHash = .ok ()
  roots : ∀ root ∈ d.dependencyRoot.toList ++ d.relationRoot.toList, validateHash root = .ok ()
  dependencies : d.dependencies = [] ∨ (Control.strings d.dependencies).encode.length ≤ 16*1024
  relations : d.relations = [] ∨ (Control.strings d.relations).encode.length ≤ 16*1024
  scopes : d.scopes.length ≤ 16
  scope : ∀ s ∈ d.scopes, byteLength s.toList ≤ 1024

lemma short_of_validateInline {root : Option String} {values : List String}
    {page : List String → ReferencePage}
    (h : RecordDescriptor.validateInline root values page = .ok ()) :
    values = [] ∨ (Control.strings values).encode.length ≤ 16*1024 := by
  unfold RecordDescriptor.validateInline at h
  split_ifs at h with h1 h2
  · exact .inl h1
  · right
    simp only [Bool.or_eq_true, Bool.not_eq_true', not_or, inlineReferences, Bool.and_eq_false_iff,
      decide_eq_false_iff_not, not_or, not_not] at h2
    exact h2.2.2

lemma RecordDescriptor.short {d : RecordDescriptor} (h : d.validate = .ok ()) : d.Short := by
  unfold validate at h
  obtain ⟨_,hobject,h⟩ := bind_eq_ok.mp h
  rw [forIn_eq_forM] at h
  obtain ⟨_,hroots,h⟩ := bind_eq_ok.mp h
  obtain ⟨_,hdeps,h⟩ := bind_eq_ok.mp h
  obtain ⟨_,hrels,h⟩ := bind_eq_ok.mp h
  dsimp only at h
  split_ifs at h with hs
  · cases h
  · rw [forIn_eq_forM] at h
    obtain ⟨_,hscope,-⟩ := bind_eq_ok.mp h
    simp only [Bool.or_eq_true, decide_eq_true_eq, not_or] at hs
    refine ⟨hobject,forM_eq_ok.mp hroots,short_of_validateInline hdeps,
      short_of_validateInline hrels,Nat.le_of_not_lt hs.1,fun s hm => ?_⟩
    have := forM_eq_ok.mp hscope s hm
    unfold validateScope at this
    split_ifs at this with hlen
    rw [length_utf8] at hlen
    exact Nat.le_of_not_lt (not_or.mp hlen).2

lemma byteLength_inline {values : List String}
    (h : values = [] ∨ (Control.strings values).encode.length ≤ 16*1024) :
    byteLength (Control.strings values).write ≤ 16*1024 := by
  obtain rfl | h := h
  · decide
  · rwa [← length_encode]

lemma byteLength_scopes {scopes : List String} (hl : scopes.length ≤ 16)
    (hs : ∀ s ∈ scopes, byteLength s.toList ≤ 1024) :
    byteLength (Control.strings scopes).write ≤ 16*(6*1024 + 3) + 1 := by
  by_cases hn : scopes = []
  · subst hn
    decide
  · have hitems : itemBytes scopes ≤ scopes.length*(6*1024 + 3) := by
      clear hl hn
      induction scopes with
      | nil => exact Nat.zero_le _
      | cons s scopes ih =>
        rw [List.forall_mem_cons] at hs
        have h1 := byteLength_writeString_le s
        have h2 := ih hs.2
        have h3 := hs.1
        unfold itemBytes at h2 ⊢
        rw [List.map_cons, List.sum_cons, List.length_cons]
        omega
    rw [byteLength_strings hn]
    omega

lemma byteLength_optional {root : Option String}
    (h : ∀ r ∈ root.toList, validateHash r = .ok ()) :
    byteLength (RecordDescriptor.optional root).write ≤ 66 := by
  cases root with
  | none => decide
  | some r => exact Nat.le_of_eq (byteLength_hash (h r List.mem_cons_self)).2

lemma RecordDescriptor.byteLength_write_le {d : RecordDescriptor} (h : d.Short) :
    byteLength d.toControl.write ≤ 132000 := by
  have k1 : byteLength (writeString "dependencies") = 14 := by decide
  have k2 : byteLength (writeString "dependencyRoot") = 16 := by decide
  have k3 : byteLength (writeString "objectHash") = 12 := by decide
  have k4 : byteLength (writeString "relationRoot") = 14 := by decide
  have k5 : byteLength (writeString "relations") = 11 := by decide
  have k6 : byteLength (writeString "scopes") = 8 := by decide
  have h1 := byteLength_inline h.dependencies
  have h2 := byteLength_inline h.relations
  have h3 := byteLength_scopes h.scopes h.scope
  have h4 := byteLength_optional fun r hr => h.roots r (List.mem_append_left _ hr)
  have h5 := byteLength_optional fun r hr => h.roots r (List.mem_append_right _ hr)
  have h6 := (byteLength_hash h.object).2
  rw [toControl, byteLength_obj, byteLength_writeMembers, byteLength_writeMembers,
    byteLength_writeMembers, byteLength_writeMembers, byteLength_writeMembers,
    byteLength_writeMembers_nil, write_str, k1, k2, k3, k4, k5, k6]
  clear k1 k2 k3 k4 k5 k6
  omega

lemma escape_base64 {c : Char} (h : c.isAlphanum = true ∨ c = '-' ∨ c = '_') :
    escape c = [c] ∧ c.toNat < 128 := by
  obtain h | rfl | rfl := h
  · have hc : Char.ofNat c.toNat = c := Char.ofNat_toNat c
    change ((decide (65 ≤ c.val ∧ c.val ≤ 90) ||
      (decide (97 ≤ c.val) && decide (c.val ≤ 122))) ||
        (decide (48 ≤ c.val) && decide (c.val ≤ 57))) = true at h
    simp only [Bool.or_eq_true, Bool.and_eq_true, decide_eq_true_eq, UInt32.le_iff_toNat_le] at h
    change ((65 ≤ c.toNat ∧ c.toNat ≤ 90) ∨ (97 ≤ c.toNat ∧ c.toNat ≤ 122)) ∨
      (48 ≤ c.toNat ∧ c.toNat ≤ 57) at h
    refine ⟨?_,by omega⟩
    rw [← hc]
    obtain (⟨hlow,hhigh⟩ | ⟨hlow,hhigh⟩) | ⟨hlow,hhigh⟩ := h
    · interval_cases c.toNat <;> decide
    · interval_cases c.toNat <;> decide
    · interval_cases c.toNat <;> decide
  · decide
  · decide

lemma byteLength_base64 {cr : Crates} (h64 : Base64Url cr) {b : List UInt8}
    (hb : b.length ≤ maxInlineUnitBytes) :
    byteLength (writeString (cr.base64Encode b)) ≤ 349528 := by
  obtain ⟨hlen,hchars⟩ := h64 b
  have hplain := fun c hc => escape_base64 (hchars c hc)
  rw [byteLength_writeString_plain fun c hc => (hplain c hc).1,
    byteLength_ascii fun c hc => (hplain c hc).2]
  change b.length ≤ 262144 at hb
  omega

lemma UnitValue.byteLength_write_le {cr : Crates} (h64 : Base64Url cr) {v : UnitValue}
    (h : v.validate cr = .ok ()) : byteLength v.toControl.write ≤ 350000 := by
  have k1 : byteLength (writeString "bytes") = 7 := by decide
  have k2 : byteLength (writeString "kind") = 6 := by decide
  have k3 : byteLength (writeString "inline") = 8 := by decide
  have k4 : byteLength (writeString "descriptor") = 12 := by decide
  have k5 : byteLength (writeString "descriptorHash") = 16 := by decide
  have k6 : byteLength (writeString "object") = 8 := by decide
  have k7 : byteLength (writeString "deleted") = 9 := by decide
  obtain ⟨found,hv,-⟩ := bind_eq_ok.mp h
  cases v with
  | deleted =>
    rw [toControl, byteLength_obj, byteLength_writeMembers_nil, write_str, k2, k7]
    decide
  | object descriptorHash descriptor =>
    unfold validatedInline at hv
    obtain ⟨_,hhash,hv⟩ := bind_eq_ok.mp hv
    obtain ⟨_,hd,hv⟩ := bind_eq_ok.mp hv
    have h1 := RecordDescriptor.byteLength_write_le (RecordDescriptor.short hd)
    rw [toControl, byteLength_obj, byteLength_writeMembers, byteLength_writeMembers,
      byteLength_writeMembers_nil, write_str, write_str, (byteLength_hash hhash).2, k2, k4, k5, k6]
    clear k1 k2 k3 k4 k5 k6 k7
    omega
  | inline bytes =>
    have hbytes : byteLength (writeString bytes) ≤ 349528 := by
      unfold validatedInline at hv
      dsimp only at hv
      cases hb : cr.base64Decode bytes with
      | none =>
        rw [hb] at hv
        cases hv
      | some decoded =>
        rw [hb] at hv
        dsimp only at hv
        by_cases h1 : maxInlineUnitBytes < decoded.length
        · rw [if_pos h1] at hv
          cases hv
        · rw [if_neg h1] at hv
          by_cases h2 : cr.base64Encode decoded = bytes
          · rw [← h2]
            exact byteLength_base64 h64 (Nat.le_of_not_lt h1)
          · rw [if_pos h2] at hv
            cases hv
    rw [toControl, byteLength_obj, byteLength_writeMembers, byteLength_writeMembers_nil, write_str,
      write_str, k1, k2, k3]
    clear k1 k2 k3 k4 k5 k6 k7
    omega

/-- The largest a stored version gets. -/
def maxStoredBytes : ℕ := 746000

/-- A version that passes its checks fits in a page. -/
theorem UnitChange.length_encode_le {cr : Crates} (h64 : Base64Url cr) {c : UnitChange}
    (h : c.validate cr = .ok ()) (ht : c.stamp.Typed) :
    c.toControl.encode.length ≤ maxStoredBytes := by
  have k1 : byteLength (writeString "key") = 5 := by decide
  have k2 : byteLength (writeString "stamp") = 7 := by decide
  have k3 : byteLength (writeString "value") = 7 := by decide
  obtain ⟨_,hs,hv⟩ := bind_eq_ok.mp h
  have h1 := byteLength_writeString_le c.key.asStr
  have h2 := c.key.byteLength_asStr
  have h3 := Stamp.byteLength_write_le hs ht
  have h4 := UnitValue.byteLength_write_le h64 hv
  rw [length_encode, toControl]
  rw [byteLength_obj, byteLength_writeMembers, byteLength_writeMembers,
    byteLength_writeMembers_nil, write_str, k1, k2, k3]
  clear k1 k2 k3
  change _ ≤ 746000
  omega

/-- A journal item adds its sequence number. -/
theorem JournalItem.length_encode_le {cr : Crates} (h64 : Base64Url cr) {i : JournalItem}
    (h : i.change.validate cr = .ok ()) (ht : i.stamp.Typed) (hs : i.seq < 2^64) :
    i.toControl.encode.length ≤ maxStoredBytes := by
  have k1 : byteLength (writeString "key") = 5 := by decide
  have k2 : byteLength (writeString "stamp") = 7 := by decide
  have k3 : byteLength (writeString "value") = 7 := by decide
  have k4 : byteLength (writeString "seq") = 5 := by decide
  obtain ⟨_,hstamp,hv⟩ := bind_eq_ok.mp h
  have h1 := byteLength_writeString_le i.key.asStr
  have h2 := i.key.byteLength_asStr
  have h3 := Stamp.byteLength_write_le hstamp ht
  have h4 := UnitValue.byteLength_write_le h64 hv
  have h5 := byteLength_writeString_le i.seq.repr
  have h6 := byteLength_le i.seq.repr.toList
  have h7 := length_repr_le hs
  change byteLength i.stamp.toControl.write ≤ 2000 at h3
  change byteLength i.value.toControl.write ≤ 350000 at h4
  rw [length_encode, toControl, byteLength_obj, byteLength_writeMembers, byteLength_writeMembers,
    byteLength_writeMembers, byteLength_writeMembers_nil, write_str, write_str, k1, k2, k3, k4]
  clear k1 k2 k3 k4
  change _ ≤ 746000
  omega

end RisuNest.Wire
