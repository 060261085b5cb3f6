import RisuNest.Lib.Fallible
import RisuNest.Wire.Descriptor

/-! Unit keys and unit values (`unit.rs`), and the library format unit (`library_format.rs`). -/
namespace RisuNest.Wire

def maxUnitKeyBytes : ℕ := 64*1024
def maxInlineUnitBytes : ℕ := 262144

/-- `serde_json::to_string` of the components of a key. -/
def keyText (components : List String) : List Char := (Control.strings components).write

/-- The component at a position, empty past the end. -/
def component (c : List String) (i : ℕ) : String := c.getD i ""

/-- The number of components each kind of key takes. -/
def keyArity (c : List String) : Bool :=
  let n := c.length
  let kind := component c 0
  let scope := component c 1
  if kind ∈ ["root","toggle","variable","preset-protected","archive","asset","inlay","hypa"] then
    n = 2
  else if kind ∈ ["character","preset","persona","messages","record","plugin"] then n = 3
  else if kind ∈ ["conversation","plugin-local"] then n = 4
  else if kind = "exists" then
    -- Record kinds this build does not know stay opaque.
    if scope = "conversation" then n = 4
    else if scope ∈ ["character","preset","persona","modules","loadouts","customModels"] then n = 3
    else if scope = "plugins" ∨ scope = "" then false
    else 3 ≤ n
  else if kind = "order" then
    if scope = "conversations" ∨ scope = "plugin-storage" then n = 3
    else if scope ∈ ["characters","presets","personas","modules","plugins","loadouts",
      "customModels"] then n = 2
    else scope ≠ ""
  else true

/-- The rules on the second component of records, toggles and variables. -/
def keyScope (c : List String) : Bool :=
  let kind := component c 0
  let scope := component c 1
  if kind = "record" then scope ∈ ["modules","plugins","loadouts","customModels"]
  else if kind = "toggle" then "toggle_".toList.isPrefixOf scope.toList
  else if kind = "variable" then !"toggle_".toList.isPrefixOf scope.toList
  else true

/-- The components that name records and so may not be empty. -/
def structuralIds (c : List String) : List String :=
  let kind := component c 0
  if kind ∈ ["character","preset","persona","archive"] then (c.drop 1).take 1
  else if kind = "conversation" ∨ kind = "messages" then (c.drop 1).take 2
  else if kind = "exists" then c.drop 2
  else if kind = "record" ∧ component c 1 ≠ "plugins" then (c.drop 2).take 1
  else if kind = "order" ∧ component c 1 = "conversations" then (c.drop 2).take 1
  else []

/-- The checks of `UnitKey::try_from` on the text of these components. -/
def checkKey (c : List String) : Result Unit :=
  if maxUnitKeyBytes < (utf8 (keyText c)).length then .error ⟨"unit-key-too-large"⟩
  else if component c 0 = "" then .error ⟨"invalid-unit-key"⟩
  else if !keyArity c || !keyScope c then .error ⟨"invalid-unit-key-shape"⟩
  else if (structuralIds c).any fun id => id = "" then .error ⟨"invalid-unit-key-shape"⟩
  else .ok ()

/-- A key that passed its checks. -/
structure UnitKey where
  components : List String
  valid : checkKey components = .ok ()
  deriving DecidableEq

namespace UnitKey

def new (c : List String) : Result UnitKey :=
  match h : checkKey c with
  | .ok () => .ok ⟨c,h⟩
  | .error e => .error e

def asStr (k : UnitKey) : String := String.ofList (keyText k.components)

def component (k : UnitKey) (i : ℕ) : String := Wire.component k.components i

theorem new_eq_ok {c : List String} {k : UnitKey} : new c = .ok k ↔ k.components = c := by
  unfold new
  split
  · rename_i h
    rw [Except.ok.injEq]
    constructor
    · rintro rfl; rfl
    · rintro rfl; rfl
  · rename_i e h
    constructor
    · intro hk; cases hk
    · rintro rfl
      rw [k.valid] at h
      cases h

@[ext] theorem ext {k l : UnitKey} (h : k.components = l.components) : k = l := by
  cases k; cases l; simp_all

theorem asStr_injective : Function.Injective asStr := by
  intro k l h
  have ht : keyText k.components = keyText l.components := String.ofList_injective h
  exact ext (Control.strings_injective
    (SelfDelimiting.injective Control.write_selfDelimiting ht))

lemma empty_lt_asStr (k : UnitKey) : "" < k.asStr := by
  have ht : k.asStr.toList = keyText k.components := String.toList_ofList
  obtain ⟨c,t,hc⟩ : ∃ c t, keyText k.components = c :: t := by
    cases k.components <;> exact ⟨'[',_,rfl⟩
  rw [String.lt_iff, ht, hc, String.toList_empty]
  exact List.nil_lt_cons c t

lemma after_lt_iff {after : Option UnitKey} {k : UnitKey} :
    (after.map asStr).getD "" < k.asStr ↔ ∀ c ∈ after, c.asStr < k.asStr := by
  cases after with
  | none => exact ⟨fun _ _ hc => absurd hc (Option.not_mem_none _),fun _ => empty_lt_asStr k⟩
  | some c => exact ⟨fun h d hd => Option.some.inj hd ▸ h,fun h => h c rfl⟩

lemma map_components_of_mapM_new {l : List (List String)} {ps : List UnitKey}
    (h : l.mapM UnitKey.new = .ok ps) : ps.map UnitKey.components = l := by
  induction l generalizing ps with
  | nil =>
    rw [List.mapM_nil] at h
    cases h
    rfl
  | cons c l ih =>
    rw [List.mapM_cons, bind_eq_ok] at h
    obtain ⟨p, hp, h⟩ := h
    obtain ⟨qs, hq, h⟩ := bind_eq_ok.mp h
    cases h
    rw [List.map_cons, UnitKey.new_eq_ok.mp hp, ih hq]

end UnitKey

/-- What a unit holds. -/
inductive UnitValue
  | inline (bytes : String)
  | object (descriptorHash : String) (descriptor : RecordDescriptor)
  | deleted
  deriving DecidableEq, Repr

namespace UnitValue

def toControl : UnitValue → Control
  | .inline bytes => .obj [("bytes",.str bytes),("kind",.str "inline")]
  | .object descriptorHash descriptor => .obj [("descriptor",descriptor.toControl),
      ("descriptorHash",.str descriptorHash),("kind",.str "object")]
  | .deleted => .obj [("kind",.str "deleted")]

theorem toControl_injective : Function.Injective toControl := by
  intro v w h
  cases v <;> cases w <;> simp only [toControl, Control.obj.injEq, List.cons.injEq,
    Prod.mk.injEq, Control.str.injEq, true_and, and_true, reduceCtorEq, and_false, false_and,
    String.reduceEq] at h
  · rw [h]
  · rw [RecordDescriptor.toControl_injective h.1, h.2]
  · rfl

/-- `UnitValue::inline` -/
def ofPayload (cr : Crates) (bytes : List UInt8) : Result UnitValue := do
  let canonical ← Payload.canonicalize cr bytes
  if maxInlineUnitBytes < canonical.length then throw ⟨"inline-unit-too-large"⟩
  pure (.inline (cr.base64Encode canonical))

def validatedInline (cr : Crates) : UnitValue → Result (Option (List UInt8 × Json))
  | .inline bytes =>
    match cr.base64Decode bytes with
    | none => .error ⟨"invalid-inline-value"⟩
    | some decoded => do
      if maxInlineUnitBytes < decoded.length then throw ⟨"inline-unit-too-large"⟩
      if cr.base64Encode decoded ≠ bytes then throw ⟨"noncanonical-inline-value"⟩
      let value ← Payload.parse cr decoded
      let canonical ← Payload.encode cr value
      if canonical ≠ decoded then throw ⟨"noncanonical-inline-value"⟩
      pure (some (decoded,value))
  | .object descriptorHash descriptor => do
    validateHash descriptorHash
    descriptor.validate
    let digest ← descriptor.hash cr
    if digest ≠ descriptorHash then throw ⟨"descriptor-hash-mismatch"⟩
    pure none
  | .deleted => .ok none

def validate (cr : Crates) (v : UnitValue) : Result Unit := do
  let _ ← v.validatedInline cr
  pure ()

def identity (cr : Crates) (v : UnitValue) : Result String := do
  v.validate cr
  pure (hash cr v.toControl.encode)

end UnitValue

inductive LwwDecision
  | keepLocal
  | applyRemote
  | identical
  deriving DecidableEq, Repr

def compareVersion (cr : Crates) (localStamp : Stamp) (localValue : UnitValue)
    (remoteStamp : Stamp) (remoteValue : UnitValue) : Result LwwDecision := do
  localStamp.validate
  remoteStamp.validate
  let localIdentity ← localValue.identity cr
  let remoteIdentity ← remoteValue.identity cr
  match compare remoteStamp localStamp with
  | .lt => pure .keepLocal
  | .gt => pure .applyRemote
  | .eq =>
    if localIdentity = remoteIdentity then pure .identical
    else throw ⟨"equal-stamp-integrity"⟩

lemma compareVersion_eq_ok {cr : Crates} {ls rs : Stamp} {lv rv : UnitValue} {d : LwwDecision}
    (h : compareVersion cr ls lv rs rv = .ok d) :
    (d = .applyRemote ∧ ls < rs) ∨ (d = .keepLocal ∧ rs < ls) ∨
      (d = .identical ∧ rs = ls ∧ ∃ i, lv.identity cr = .ok i ∧ rv.identity cr = .ok i) := by
  unfold compareVersion at h
  obtain ⟨_, -, h⟩ := bind_eq_ok.mp h
  obtain ⟨_, -, h⟩ := bind_eq_ok.mp h
  obtain ⟨i, hi, h⟩ := bind_eq_ok.mp h
  obtain ⟨j, hj, h⟩ := bind_eq_ok.mp h
  cases hc : compare rs ls with
  | lt =>
    rw [hc] at h
    cases h
    exact .inr (.inl ⟨rfl,compare_lt_iff_lt.mp hc⟩)
  | gt =>
    rw [hc] at h
    cases h
    exact .inl ⟨rfl,compare_gt_iff_gt.mp hc⟩
  | eq =>
    simp only [hc] at h
    split_ifs at h with he
    cases h
    exact .inr (.inr ⟨rfl,compare_eq_iff_eq.mp hc,i,hi,he ▸ hj⟩)

namespace LibraryFormat

def maxLevel : ℕ := 2^53 - 1

def isKey (key : UnitKey) : Bool := key.components = ["library-format"]

/-- The level a JSON number names. -/
def levelOf (n : ℚ) : Option ℕ :=
  if n.den = 1 ∧ 2 ≤ n ∧ n ≤ maxLevel then some n.num.toNat else none

def level (cr : Crates) (v : UnitValue) : Option ℕ :=
  match v.validatedInline cr with
  | .ok (some (_,value)) => ((value.get? "level").bind Json.asNumber).bind levelOf
  | _ => none

def value (cr : Crates) (level : ℕ) : Result UnitValue :=
  if 2 ≤ level ∧ level ≤ maxLevel then
    UnitValue.ofPayload cr (utf8 ("\x7b\"level\":".toList ++ level.repr.toList ++ "\x7d".toList))
  else .error ⟨"invalid-library-format"⟩

def isCanonical (cr : Crates) (v : UnitValue) : Bool :=
  match level cr v with
  | none => false
  | some l =>
    match value cr l with
    | .ok expected => expected = v
    | .error _ => false

end LibraryFormat

/-- The hash tells apart the texts of a set. For SHA-256 this is what makes an identity stand
for a value. -/
def CollisionFree (cr : Crates) (texts : Set (List UInt8)) : Prop := Set.InjOn cr.sha256 texts

theorem UnitValue.eq_of_identity {cr : Crates} {texts : Set (List UInt8)} {v w : UnitValue}
    {i : String} (free : CollisionFree cr texts) (hv : v.toControl.encode ∈ texts)
    (hw : w.toControl.encode ∈ texts) (iv : v.identity cr = .ok i) (iw : w.identity cr = .ok i) :
    v = w := by
  have key {u : UnitValue} (h : u.identity cr = .ok i) : cr.sha256 u.toControl.encode = i := by
    unfold identity at h
    cases hu : u.validate cr with
    | error e => rw [hu] at h; cases h
    | ok _ => rw [hu] at h; exact Except.ok.inj h
  exact toControl_injective (Control.encode_injective
    (free hv hw ((key iv).trans (key iw).symm)))

end RisuNest.Wire
