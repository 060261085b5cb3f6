import RisuNest.Wire.PayloadForm

/-! The canonical form of control values (`canonical.rs`), against what its reader accepts. -/
namespace RisuNest.Wire
open JsonText Payload

mutual
/-- A value without numbers, as control JSON. -/
def Json.control : Json → Option Control
  | .null => some .null
  | .bool b => some (.bool b)
  | .num _ => none
  | .str s => some (.str s)
  | .arr vs => (Json.controlItems vs).map .arr
  | .obj ms => (Json.controlMembers ms).map .obj

def Json.controlItems : List Json → Option (List Control)
  | [] => some []
  | v :: vs => do pure ((← v.control) :: (← Json.controlItems vs))

def Json.controlMembers : List (String × Json) → Option (List (String × Control))
  | [] => some []
  | (k,v) :: ms => do pure ((k,← v.control) :: (← Json.controlMembers ms))
end

mutual
/-- Control JSON as a value. -/
def Control.json : Control → Json
  | .null => .null
  | .bool b => .bool b
  | .str s => .str s
  | .arr vs => .arr (Control.jsonItems vs)
  | .obj ms => .obj (Control.jsonMembers ms)

def Control.jsonItems : List Control → List Json
  | [] => []
  | v :: vs => v.json :: Control.jsonItems vs

def Control.jsonMembers : List (String × Control) → List (String × Json)
  | [] => []
  | (k,v) :: ms => (k,v.json) :: Control.jsonMembers ms
end

namespace CanonicalJson

/-- `canonical::encode` of a `serde_json::Value`. -/
def encode (v : Json) : Result (List UInt8) :=
  match (sortBy utf16Le v).control with
  | some c => .ok c.encode
  | none => .error ⟨"numbers-forbidden"⟩

/-- `canonical::decode` into a `serde_json::Value`. -/
def decode (cr : Crates) (bytes : List UInt8) (limit : ℕ) : Result Json :=
  decodeControl cr (fun c => some c.json) bytes limit

end CanonicalJson

/-! ### Values without numbers -/

mutual
lemma control_eq_some : ∀ {v : Json} {c : Control}, v.control = some c ↔ c.json = v ∧ numbers v = []
  | .null, c => by
    cases c <;> simp [Json.control, Control.json, numbers]
  | .bool b, c => by
    cases c <;> simp [Json.control, Control.json, numbers, eq_comm]
  | .num n, c => by
    simp [Json.control, numbers]
  | .str s, c => by
    cases c <;> simp [Json.control, Control.json, numbers, eq_comm]
  | .arr vs, c => by
    cases c <;> simp [Json.control, Control.json, numbers, controlItems_eq_some]
  | .obj ms, c => by
    cases c <;> simp [Json.control, Control.json, numbers, controlMembers_eq_some]

lemma controlItems_eq_some : ∀ {vs : List Json} {cs : List Control},
    Json.controlItems vs = some cs ↔ Control.jsonItems cs = vs ∧ numbersOfItems vs = []
  | [], cs => by
    cases cs <;> simp [Json.controlItems, Control.jsonItems, numbersOfItems]
  | v :: vs, cs => by
    have hbind : Json.controlItems (v :: vs) = some cs ↔
        ∃ c, v.control = some c ∧ ∃ l, Json.controlItems vs = some l ∧ c :: l = cs := by
      simp [Json.controlItems, Option.bind_eq_some_iff]
    rw [hbind, numbersOfItems, List.append_eq_nil_iff]
    constructor
    · rintro ⟨c,hc,l,hl,rfl⟩
      obtain ⟨rfl,hn⟩ := control_eq_some.mp hc
      obtain ⟨rfl,hns⟩ := controlItems_eq_some.mp hl
      exact ⟨rfl,hn,hns⟩
    · rintro ⟨h,hn,hns⟩
      cases cs with
      | nil => cases h
      | cons c l =>
        obtain ⟨hc,hl⟩ := List.cons.inj h
        exact ⟨c,control_eq_some.mpr ⟨hc,hn⟩,l,controlItems_eq_some.mpr ⟨hl,hns⟩,rfl⟩

lemma controlMembers_eq_some : ∀ {ms : List (String × Json)} {cs : List (String × Control)},
    Json.controlMembers ms = some cs ↔ Control.jsonMembers cs = ms ∧ numbersOfMembers ms = []
  | [], cs => by
    cases cs <;> simp [Json.controlMembers, Control.jsonMembers, numbersOfMembers]
  | (k,v) :: ms, cs => by
    have hbind : Json.controlMembers ((k,v) :: ms) = some cs ↔
        ∃ c, v.control = some c ∧ ∃ l, Json.controlMembers ms = some l ∧ (k,c) :: l = cs := by
      simp [Json.controlMembers, Option.bind_eq_some_iff]
    rw [hbind, numbersOfMembers, List.append_eq_nil_iff]
    constructor
    · rintro ⟨c,hc,l,hl,rfl⟩
      obtain ⟨rfl,hn⟩ := control_eq_some.mp hc
      obtain ⟨rfl,hns⟩ := controlMembers_eq_some.mp hl
      exact ⟨rfl,hn,hns⟩
    · rintro ⟨h,hn,hns⟩
      cases cs with
      | nil => cases h
      | cons m l =>
        obtain ⟨k',c⟩ := m
        obtain ⟨hm,hl⟩ := List.cons.inj h
        obtain ⟨rfl,hc⟩ := Prod.mk.inj hm
        exact ⟨c,control_eq_some.mpr ⟨hc,hn⟩,l,controlMembers_eq_some.mpr ⟨hl,hns⟩,rfl⟩
end

mutual
lemma strict_eq_some : ∀ {v : Json} {c : Control},
    v.strict = some c ↔ v.control = some c ∧ v.distinct = true
  | .null, c => by simp [Json.strict, Json.control, Json.distinct]
  | .bool b, c => by simp [Json.strict, Json.control, Json.distinct]
  | .num n, c => by simp [Json.strict, Json.control]
  | .str s, c => by simp [Json.strict, Json.control, Json.distinct]
  | .arr vs, c => by
    rw [Json.strict, Json.control, Json.distinct, Option.map_eq_some_iff, Option.map_eq_some_iff]
    simp only [strictItems_eq_some]
    exact ⟨fun ⟨l,⟨hl,hd⟩,h⟩ => ⟨⟨l,hl,h⟩,hd⟩,fun ⟨⟨l,hl,h⟩,hd⟩ => ⟨l,⟨hl,hd⟩,h⟩⟩
  | .obj ms, c => by
    rw [Json.strict, Json.control, Json.distinct, Option.map_eq_some_iff, Bool.and_eq_true,
      decide_eq_true_eq]
    split_ifs with hn
    · rw [Option.map_eq_some_iff]
      simp only [strictMembers_eq_some]
      exact ⟨fun ⟨l,⟨hl,hd⟩,h⟩ => ⟨⟨l,hl,h⟩,hn,hd⟩,fun ⟨⟨l,hl,h⟩,_,hd⟩ => ⟨l,⟨hl,hd⟩,h⟩⟩
    · exact ⟨nofun,fun h => absurd h.2.1 hn⟩

lemma strictItems_eq_some : ∀ {vs : List Json} {cs : List Control},
    Json.strictItems vs = some cs ↔ Json.controlItems vs = some cs ∧ Json.distinctItems vs = true
  | [], cs => by simp [Json.strictItems, Json.controlItems, Json.distinctItems]
  | v :: vs, cs => by
    have hs : Json.strictItems (v :: vs) = some cs ↔
        ∃ c, v.strict = some c ∧ ∃ l, Json.strictItems vs = some l ∧ c :: l = cs := by
      simp [Json.strictItems, Option.bind_eq_some_iff]
    have hc : Json.controlItems (v :: vs) = some cs ↔
        ∃ c, v.control = some c ∧ ∃ l, Json.controlItems vs = some l ∧ c :: l = cs := by
      simp [Json.controlItems, Option.bind_eq_some_iff]
    rw [hs, hc, Json.distinctItems, Bool.and_eq_true]
    simp only [strict_eq_some, strictItems_eq_some]
    exact ⟨fun ⟨c,⟨h,hd⟩,l,⟨hl,hds⟩,e⟩ => ⟨⟨c,h,l,hl,e⟩,hd,hds⟩,
      fun ⟨⟨c,h,l,hl,e⟩,hd,hds⟩ => ⟨c,⟨h,hd⟩,l,⟨hl,hds⟩,e⟩⟩

lemma strictMembers_eq_some : ∀ {ms : List (String × Json)} {cs : List (String × Control)},
    Json.strictMembers ms = some cs ↔
      Json.controlMembers ms = some cs ∧ Json.distinctMembers ms = true
  | [], cs => by simp [Json.strictMembers, Json.controlMembers, Json.distinctMembers]
  | (k,v) :: ms, cs => by
    have hs : Json.strictMembers ((k,v) :: ms) = some cs ↔
        ∃ c, v.strict = some c ∧ ∃ l, Json.strictMembers ms = some l ∧ (k,c) :: l = cs := by
      simp [Json.strictMembers, Option.bind_eq_some_iff]
    have hc : Json.controlMembers ((k,v) :: ms) = some cs ↔
        ∃ c, v.control = some c ∧ ∃ l, Json.controlMembers ms = some l ∧ (k,c) :: l = cs := by
      simp [Json.controlMembers, Option.bind_eq_some_iff]
    rw [hs, hc, Json.distinctMembers, Bool.and_eq_true]
    simp only [strict_eq_some, strictMembers_eq_some]
    exact ⟨fun ⟨c,⟨h,hd⟩,l,⟨hl,hds⟩,e⟩ => ⟨⟨c,h,l,hl,e⟩,hd,hds⟩,
      fun ⟨⟨c,h,l,hl,e⟩,hd,hds⟩ => ⟨c,⟨h,hd⟩,l,⟨hl,hds⟩,e⟩⟩
end

mutual
lemma write_json (cr : Crates) : ∀ c : Control, Payload.write cr c.json = c.write
  | .null => rfl
  | .bool true => rfl
  | .bool false => rfl
  | .str _ => rfl
  | .arr [] => rfl
  | .arr (v :: vs) => by
    simp only [Control.json, Control.jsonItems, Payload.write, Control.write, write_json cr v,
      writeItems_json cr vs]
  | .obj [] => rfl
  | .obj ((k,v) :: ms) => by
    simp only [Control.json, Control.jsonMembers, Payload.write, Control.write, write_json cr v,
      writeMembers_json cr ms]

lemma writeItems_json (cr : Crates) : ∀ vs : List Control,
    Payload.writeItems cr (Control.jsonItems vs) = Control.writeItems vs
  | [] => rfl
  | v :: vs => by
    simp only [Control.jsonItems, Payload.writeItems, Control.writeItems, write_json cr v,
      writeItems_json cr vs]

lemma writeMembers_json (cr : Crates) : ∀ ms : List (String × Control),
    Payload.writeMembers cr (Control.jsonMembers ms) = Control.writeMembers ms
  | [] => rfl
  | (k,v) :: ms => by
    simp only [Control.jsonMembers, Payload.writeMembers, Control.writeMembers, write_json cr v,
      writeMembers_json cr ms]
end

mutual
lemma exists_control : ∀ v : Json, numbers v = [] → ∃ c, v.control = some c
  | .null, _ => ⟨_,rfl⟩
  | .bool _, _ => ⟨_,rfl⟩
  | .str _, _ => ⟨_,rfl⟩
  | .arr vs, h => by
    obtain ⟨l,hl⟩ := exists_controlItems vs h
    exact ⟨.arr l,Option.map_eq_some_iff.mpr ⟨l,hl,rfl⟩⟩
  | .obj ms, h => by
    obtain ⟨l,hl⟩ := exists_controlMembers ms h
    exact ⟨.obj l,Option.map_eq_some_iff.mpr ⟨l,hl,rfl⟩⟩

lemma exists_controlItems : ∀ vs : List Json, numbersOfItems vs = [] →
    ∃ l, Json.controlItems vs = some l
  | [], _ => ⟨_,rfl⟩
  | v :: vs, h => by
    obtain ⟨hv,hvs⟩ := List.append_eq_nil_iff.mp h
    obtain ⟨c,hc⟩ := exists_control v hv
    obtain ⟨l,hl⟩ := exists_controlItems vs hvs
    refine ⟨c :: l,?_⟩
    rw [Json.controlItems, hc, hl]
    rfl

lemma exists_controlMembers : ∀ ms : List (String × Json), numbersOfMembers ms = [] →
    ∃ l, Json.controlMembers ms = some l
  | [], _ => ⟨_,rfl⟩
  | (k,v) :: ms, h => by
    obtain ⟨hv,hms⟩ := List.append_eq_nil_iff.mp h
    obtain ⟨c,hc⟩ := exists_control v hv
    obtain ⟨l,hl⟩ := exists_controlMembers ms hms
    refine ⟨(k,c) :: l,?_⟩
    rw [Json.controlMembers, hc, hl]
    rfl
end

namespace CanonicalJson
variable {numeral : List Char → Option ℚ} {cr : Crates}

lemma numbers_sortBy {v : Json} (le : String → String → Bool) :
    numbers (sortBy le v) = [] ↔ numbers v = [] := by
  simp only [List.eq_nil_iff_forall_not_mem, (reordered_sortBy le v).numbers_iff]

lemma encode_eq_ok {v : Json} {b : List UInt8} :
    encode v = .ok b ↔ ∃ c, (sortBy utf16Le v).control = some c ∧ c.encode = b := by
  unfold encode
  cases (sortBy utf16Le v).control with
  | none => exact ⟨nofun,fun ⟨_,h,_⟩ => nomatch h⟩
  | some c =>
    dsimp only
    rw [Except.ok.injEq]
    exact ⟨fun h => ⟨c,rfl,h⟩,fun ⟨d,hd,h⟩ => Option.some.inj hd ▸ h⟩

lemma exists_encode {v : Json} (hn : numbers v = []) : ∃ b, encode v = .ok b := by
  obtain ⟨c,hc⟩ := exists_control _ ((numbers_sortBy utf16Le).mpr hn)
  exact ⟨_,encode_eq_ok.mpr ⟨c,hc,rfl⟩⟩

lemma decode_eq_ok {b : List UInt8} {limit : ℕ} {v : Json} : decode cr b limit = .ok v ↔
    b.length ≤ limit ∧ cr.readJson b = some v ∧ numbers v = [] ∧ v.distinct = true := by
  unfold decode decodeControl
  split_ifs with hl
  · exact ⟨nofun,fun h => absurd h.1 (Nat.not_le_of_lt hl)⟩
  have hle := Nat.le_of_not_lt hl
  cases hr : cr.readJson b with
  | none => exact ⟨nofun,fun h => nomatch h.2.1⟩
  | some w =>
    rw [Option.bind_some]
    cases hw : w.strict with
    | none =>
      refine ⟨nofun,fun ⟨_,h,hn,hd⟩ => ?_⟩
      obtain rfl := Option.some.inj h
      obtain ⟨c,hc⟩ := exists_control w hn
      rw [strict_eq_some.mpr ⟨hc,hd⟩] at hw
      cases hw
    | some c =>
      obtain ⟨hc,hd⟩ := strict_eq_some.mp hw
      obtain ⟨rfl,hn⟩ := control_eq_some.mp hc
      dsimp only
      rw [Except.ok.injEq, Option.some.injEq]
      exact ⟨fun h => ⟨hle,h,h ▸ hn,h ▸ hd⟩,fun h => h.2.1⟩

lemma isText_encode {v : Json} {b : List UInt8} (h : encode v = .ok b) :
    ∃ t, b = utf8 t ∧ IsText numeral (sortBy utf16Le v) t := by
  obtain ⟨c,hc,rfl⟩ := encode_eq_ok.mp h
  obtain ⟨hj,hn⟩ := control_eq_some.mp hc
  have htext : IsText numeral (sortBy utf16Le v) (Payload.write textCrates (sortBy utf16Le v)) :=
    isText_write fun n h => by
      rw [hn] at h
      cases h
  rw [← hj, write_json] at htext
  exact ⟨c.write,rfl,hj ▸ htext⟩

/-- What a value without numbers is encoded as is decoded as far as the reader goes. -/
lemma exists_decode (hread : ReadsJson numeral cr) {v : Json} (hd : v.distinct = true)
    (hn : numbers v = []) : ∃ b, encode v = .ok b ∧
      ∀ limit, b.length ≤ limit → shallow 0 v = true →
        decode cr b limit = .ok (sortBy utf16Le v) ∧ Reordered v (sortBy utf16Le v) := by
  obtain ⟨b,hb⟩ := exists_encode hn
  have hsame := reordered_sortBy utf16Le v
  refine ⟨b,hb,fun limit hle hs => ⟨decode_eq_ok.mpr ⟨hle,?_,?_,?_⟩,hsame⟩⟩
  · exact (hread _ _).mpr ⟨hsame.shallow_eq 0 ▸ hs,isText_encode hb⟩
  · exact (numbers_sortBy utf16Le).mpr hn
  · exact hsame.distinct_eq ▸ hd

/-- A value without numbers has an encoding, and as far as the reader goes it is decoded to the
value again, its members sorted; values that differ in more than the order of members have
different encodings; and what is decoded is any text of such a value, whatever its spelling. -/
theorem control_form (hread : ReadsJson numeral cr) :
    (∀ v, v.distinct = true → numbers v = [] → ∃ b, encode v = .ok b ∧
      ∀ limit, b.length ≤ limit → shallow 0 v = true →
        decode cr b limit = .ok (sortBy utf16Le v) ∧ Reordered v (sortBy utf16Le v)) ∧
    (∀ v w, v.distinct = true → numbers v = [] → numbers w = [] →
      (encode v = encode w ↔ Reordered v w)) ∧
    ∀ b limit v, decode cr b limit = .ok v ↔ b.length ≤ limit ∧ v.distinct = true ∧
      numbers v = [] ∧ shallow 0 v = true ∧ ∃ t, b = utf8 t ∧ IsText numeral v t := by
  refine ⟨fun _ hd hn => exists_decode hread hd hn,fun v w hd hn hn' => ?_,fun b limit v => ?_⟩
  · rw [← sortBy_eq_iff keyOrder_utf16Le hd]
    constructor
    · intro h
      obtain ⟨b,hb⟩ := exists_encode hn
      obtain ⟨c,hc,rfl⟩ := encode_eq_ok.mp hb
      obtain ⟨d,hw,hdc⟩ := encode_eq_ok.mp (h ▸ hb)
      obtain rfl := Control.encode_injective hdc
      rw [← (control_eq_some.mp hc).1, ← (control_eq_some.mp hw).1]
    · intro h
      unfold encode
      rw [h]
  · rw [decode_eq_ok, hread]
    exact ⟨fun ⟨hle,⟨hs,ht⟩,hn,hd⟩ => ⟨hle,hd,hn,hs,ht⟩,
      fun ⟨hle,hd,hn,hs,ht⟩ => ⟨hle,⟨hs,ht⟩,hn,hd⟩⟩

def sample : Json := .obj [("b",.null),("a",.arr [.str "x"])]

/-- An object is decoded with its names in order, from a text of 20 bytes. -/
theorem control_form_sample : ∃ b, encode sample = .ok b ∧
    decode textCrates b 20 = .ok (.obj [("a",.arr [.str "x"]),("b",.null)]) := by
  obtain ⟨b,hb,hdecode⟩ := (control_form textCrates_reads).1 sample rfl rfl
  have hlen : b.length ≤ 20 := by
    have hb' : encode sample = .ok (utf8 "\x7b\"a\":[\"x\"],\"b\":null\x7d".toList) := by
      refine encode_eq_ok.mpr ⟨.obj [("a",.arr [.str "x"]),("b",.null)],rfl,congrArg utf8 ?_⟩
      decide
    rw [← Except.ok.inj (hb'.symm.trans hb)]
    decide
  exact ⟨b,hb,(hdecode 20 hlen rfl).1⟩

/-- An array in an array and so on. -/
def nested : ℕ → Json
  | 0 => .arr []
  | n+1 => .arr [nested n]

lemma numbers_nested (n : ℕ) : numbers (nested n) = [] := by
  induction n with
  | zero => rfl
  | succ n ih => simp [nested, numbers, numbersOfItems, ih]

/-- A blank in front of a value is no matter, though no encoding has one; and 128 arrays in each
other have an encoding that is not decoded. -/
theorem blank_and_deep :
    (decode textCrates (utf8 " null".toList) 5 = .ok .null ∧
      encode .null ≠ .ok (utf8 " null".toList)) ∧
    ∃ b, encode (nested 127) = .ok b ∧ ∀ limit, decode textCrates b limit ≠ .ok (nested 127) := by
  have htext : IsText decimal .null " null".toList := read_eq_some.mp (by rfl)
  have hread := (textCrates_reads (utf8 " null".toList) .null).mpr ⟨rfl,_,rfl,htext⟩
  refine ⟨⟨decode_eq_ok.mpr ⟨by decide,hread,rfl,rfl⟩,fun h => ?_⟩,?_⟩
  · obtain ⟨c,hc,he⟩ := encode_eq_ok.mp h
    obtain rfl := Option.some.inj hc
    exact absurd (utf8_injective he) (by decide)
  · obtain ⟨b,hb⟩ := exists_encode (numbers_nested 127)
    refine ⟨b,hb,fun limit h => ?_⟩
    have hs := ((textCrates_reads _ _).mp (decode_eq_ok.mp h).2.1).1
    exact absurd hs (by decide +kernel)

end CanonicalJson
end RisuNest.Wire
