import RisuNest.Wire.Unit
import RisuNest.Lib.PageTree
import RisuNest.Wire.ControlForm

/-! Unit keys as the texts they are kept as (`UnitKey` of `unit.rs`), and the grammar of their
components. -/
namespace RisuNest.Wire
open JsonText

/-! ### The text of a key -/

def Json.text? : Json → Option String
  | .str s => some s
  | _ => none

/-- `serde_json::from_str::<Vec<String>>` -/
def textsOf (cr : Crates) (value : String) : Option (List String) :=
  match cr.readJson (utf8 value.toList) with
  | some (.arr vs) => vs.mapM Json.text?
  | _ => none

/-- `UnitKey`, the text of its components. -/
structure KeyText where
  text : String
  deriving DecidableEq

namespace KeyText
variable (cr : Crates)

def tryFrom (value : String) : Result KeyText :=
  if maxUnitKeyBytes < (utf8 value.toList).length then .error ⟨"unit-key-too-large"⟩
  else match textsOf cr value with
    | none => .error ⟨"invalid-unit-key"⟩
    | some c =>
      if c = [] ∨ component c 0 = "" ∨ String.ofList (keyText c) ≠ value then
        .error ⟨"invalid-unit-key"⟩
      else if !keyArity c || !keyScope c then .error ⟨"invalid-unit-key-shape"⟩
      else if (structuralIds c).any fun id => id = "" then .error ⟨"invalid-unit-key-shape"⟩
      else .ok ⟨value⟩

def new (c : List String) : Result KeyText := tryFrom cr (String.ofList (keyText c))

/-- `UnitKey::components`. Its `unwrap` panics where there are none. -/
def components (k : KeyText) : Option (List String) := textsOf cr k.text

end KeyText

/-! ### The grammar -/

/-- The first components this build knows. -/
def knownKinds : List String :=
  ["root","toggle","variable","preset-protected","archive","asset","inlay","hypa","character",
    "preset","persona","messages","record","plugin","conversation","plugin-local","exists","order"]

/-- What may exist besides conversations, plugins excepted. -/
def knownRecords : List String :=
  ["character","preset","persona","modules","loadouts","customModels"]

/-- What has one order. -/
def knownOrders : List String :=
  ["characters","presets","personas","modules","plugins","loadouts","customModels"]

/-- The components keys are made of. -/
inductive KeyShape : List String → Prop
  | single {kind name} (h : kind ∈ ["root","preset-protected","asset","inlay","hypa"]) :
    KeyShape [kind,name]
  | archive {id} (h : id ≠ "") : KeyShape ["archive",id]
  | toggle {name} (h : "toggle_".toList <+: name.toList) : KeyShape ["toggle",name]
  | globalVariable {name} (h : ¬ "toggle_".toList <+: name.toList) : KeyShape ["variable",name]
  | field {kind id name} (h : kind ∈ ["character","preset","persona"]) (hid : id ≠ "") :
    KeyShape [kind,id,name]
  | messages {character chat} (h : character ≠ "") (h' : chat ≠ "") :
    KeyShape ["messages",character,chat]
  | record {collection id} (h : collection ∈ ["modules","loadouts","customModels"])
    (hid : id ≠ "") : KeyShape ["record",collection,id]
  | plugin {name} : KeyShape ["record","plugins",name]
  | pluginField {id name} : KeyShape ["plugin",id,name]
  | conversation {character chat name} (h : character ≠ "") (h' : chat ≠ "") :
    KeyShape ["conversation",character,chat,name]
  | pluginLocal {a b c} : KeyShape ["plugin-local",a,b,c]
  | conversationExists {character chat} (h : character ≠ "") (h' : chat ≠ "") :
    KeyShape ["exists","conversation",character,chat]
  | recordExists {record id} (h : record ∈ knownRecords) (hid : id ≠ "") :
    KeyShape ["exists",record,id]
  | otherExists {record id ids} (h : record ∉ "conversation" :: "plugins" :: "" :: knownRecords)
    (hids : ∀ i ∈ id :: ids, i ≠ "") : KeyShape ("exists" :: record :: id :: ids)
  | conversationOrder {id} (h : id ≠ "") : KeyShape ["order","conversations",id]
  | storageOrder {id} : KeyShape ["order","plugin-storage",id]
  | order {scope} (h : scope ∈ knownOrders) : KeyShape ["order",scope]
  | otherOrder {scope rest} (h : scope ∉ "conversations" :: "plugin-storage" :: "" :: knownOrders) :
    KeyShape ("order" :: scope :: rest)
  | other {kind rest} (h : kind ∉ "" :: knownKinds) : KeyShape (kind :: rest)

/-- The checks on the components of a key, without the one on its length. -/
def wellShaped (c : List String) : Bool :=
  component c 0 ≠ "" && keyArity c && keyScope c && (structuralIds c).all fun id => id ≠ ""

lemma wellShaped_of_shape {c : List String} (h : KeyShape c) : wellShaped c = true := by
  cases h with
  | single h =>
    simp only [List.mem_cons, List.not_mem_nil, or_false] at h
    obtain rfl | rfl | rfl | rfl | rfl := h <;>
      simp [wellShaped, component, keyArity, keyScope, structuralIds]
  | field h hid =>
    simp only [List.mem_cons, List.not_mem_nil, or_false] at h
    obtain rfl | rfl | rfl := h <;>
      simp [wellShaped, component, keyArity, keyScope, structuralIds, hid]
  | record h hid =>
    simp only [List.mem_cons, List.not_mem_nil, or_false] at h
    obtain rfl | rfl | rfl := h <;>
      simp [wellShaped, component, keyArity, keyScope, structuralIds, hid]
  | recordExists h hid =>
    simp only [knownRecords, List.mem_cons, List.not_mem_nil, or_false] at h
    obtain rfl | rfl | rfl | rfl | rfl | rfl := h <;>
      simp [wellShaped, component, keyArity, keyScope, structuralIds, hid]
  | order h =>
    simp only [knownOrders, List.mem_cons, List.not_mem_nil, or_false] at h
    obtain rfl | rfl | rfl | rfl | rfl | rfl | rfl := h <;>
      simp [wellShaped, component, keyArity, keyScope, structuralIds]
  | otherExists h hids =>
    simp only [knownRecords, List.mem_cons, List.not_mem_nil, or_false, not_or] at h
    simp only [List.mem_cons] at hids
    simp [wellShaped, component, keyArity, keyScope, structuralIds, h]
    simpa using hids
  | otherOrder h =>
    simp only [knownOrders, List.mem_cons, List.not_mem_nil, or_false, not_or] at h
    simp [wellShaped, component, keyArity, keyScope, structuralIds, h]
  | other h =>
    simp only [knownKinds, List.mem_cons, List.not_mem_nil, or_false, not_or] at h
    simp [wellShaped, component, keyArity, keyScope, structuralIds, h]
  | globalVariable h =>
    have h' := Bool.eq_false_iff.mpr (mt List.isPrefixOf_iff_prefix.mp h)
    simp_all [wellShaped, component, keyArity, keyScope, structuralIds]
  | _ => simp_all [wellShaped, component, keyArity, keyScope, structuralIds]

lemma shape_of_exists {rest : List String} (h : wellShaped ("exists" :: rest) = true) :
    KeyShape ("exists" :: rest) := by
  simp [wellShaped, component, keyArity, keyScope, structuralIds] at h
  obtain ⟨harity, hids⟩ := h
  cases rest with
  | nil => simp at harity
  | cons scope ids =>
    simp only [List.length_cons, List.getElem?_cons_zero, Option.getD_some] at harity
    rw [List.tail_cons] at hids
    split_ifs at harity with hc hr
    · obtain ⟨a, b, rfl⟩ := List.length_eq_two.mp (Nat.succ.inj harity)
      subst hc
      exact .conversationExists (hids a (by simp)) (hids b (by simp))
    · obtain ⟨a, rfl⟩ := List.length_eq_one_iff.mp (Nat.succ.inj harity)
      exact .recordExists (by simpa [knownRecords] using hr) (hids a (by simp))
    · cases ids with
      | nil => simp at harity
      | cons id ids =>
        exact .otherExists (by simp [knownRecords, hc, harity, not_or.mp hr]) hids

lemma shape_of_order {rest : List String} (h : wellShaped ("order" :: rest) = true) :
    KeyShape ("order" :: rest) := by
  simp [wellShaped, component, keyArity, keyScope, structuralIds] at h
  obtain ⟨harity, hids⟩ := h
  cases rest with
  | nil => simp at harity
  | cons scope ids =>
    simp only [List.length_cons, List.getElem?_cons_zero, Option.getD_some] at harity hids
    rw [List.tail_cons] at hids
    split_ifs at harity with hc hr
    · obtain ⟨a, rfl⟩ := List.length_eq_one_iff.mp (Nat.succ.inj harity)
      obtain rfl | rfl := hc
      · exact .conversationOrder (hids a rfl (by simp))
      · exact .storageOrder
    · obtain rfl := List.length_eq_zero_iff.mp (Nat.succ.inj harity)
      exact .order (by simpa [knownOrders] using hr)
    · rw [not_or] at hc
      exact .otherOrder (by simp [knownOrders, hc, harity, hr])

lemma shape_of_wellShaped {c : List String} (h : wellShaped c = true) : KeyShape c := by
  cases c with
  | nil => simp [wellShaped, component] at h
  | cons kind rest =>
    by_cases hk : kind ∈ "" :: knownKinds
    · simp only [knownKinds, List.mem_cons, List.not_mem_nil, or_false] at hk
      have hw := h
      obtain rfl | rfl | rfl | rfl | rfl | rfl | rfl | rfl | rfl | rfl | rfl | rfl | rfl | rfl |
        rfl | rfl | rfl | rfl | rfl := hk
      all_goals simp [wellShaped, component, keyArity, keyScope, structuralIds] at h
      · obtain ⟨x, rfl⟩ := List.length_eq_one_iff.mp h
        exact .single (by simp)
      · obtain ⟨x, rfl⟩ := List.length_eq_one_iff.mp h.1
        exact .toggle (by simpa using h)
      · obtain ⟨x, rfl⟩ := List.length_eq_one_iff.mp h.1
        refine .globalVariable fun hp => ?_
        have := List.isPrefixOf_iff_prefix.mpr hp
        simp_all
      · obtain ⟨x, rfl⟩ := List.length_eq_one_iff.mp h
        exact .single (by simp)
      · obtain ⟨x, rfl⟩ := List.length_eq_one_iff.mp h.1
        exact .archive (by simpa using h)
      · obtain ⟨x, rfl⟩ := List.length_eq_one_iff.mp h
        exact .single (by simp)
      · obtain ⟨x, rfl⟩ := List.length_eq_one_iff.mp h
        exact .single (by simp)
      · obtain ⟨x, rfl⟩ := List.length_eq_one_iff.mp h
        exact .single (by simp)
      · obtain ⟨x, y, rfl⟩ := List.length_eq_two.mp h.1
        exact .field (by simp) (by simpa using h)
      · obtain ⟨x, y, rfl⟩ := List.length_eq_two.mp h.1
        exact .field (by simp) (by simpa using h)
      · obtain ⟨x, y, rfl⟩ := List.length_eq_two.mp h.1
        exact .field (by simp) (by simpa using h)
      · obtain ⟨x, y, rfl⟩ := List.length_eq_two.mp h.1
        exact .messages (h.2 x (by simp)) (h.2 y (by simp))
      · obtain ⟨x, y, rfl⟩ := List.length_eq_two.mp h.1.1
        obtain ⟨⟨-, hscope⟩, hid⟩ := h
        simp only [List.getElem?_cons_zero, Option.getD_some] at hscope hid
        by_cases hp : x = "plugins"
        · subst hp
          exact .plugin
        · exact .record (by simpa [hp] using hscope) (hid y hp (by simp))
      · obtain ⟨x, y, rfl⟩ := List.length_eq_two.mp h
        exact .pluginField
      · obtain ⟨x, y, z, rfl⟩ := List.length_eq_three.mp h.1
        exact .conversation (h.2 x (by simp)) (h.2 y (by simp))
      · obtain ⟨x, y, z, rfl⟩ := List.length_eq_three.mp h
        exact .pluginLocal
      · exact shape_of_exists hw
      · exact shape_of_order hw
    · exact .other hk

theorem wellShaped_iff {c : List String} : wellShaped c = true ↔ KeyShape c :=
  ⟨shape_of_wellShaped,wellShaped_of_shape⟩

lemma checks_eq (c : List String) :
    (if component c 0 = "" then .error ⟨"invalid-unit-key"⟩
      else if !keyArity c || !keyScope c then .error ⟨"invalid-unit-key-shape"⟩
      else if (structuralIds c).any fun id => id = "" then .error ⟨"invalid-unit-key-shape"⟩
      else .ok () : Result Unit) = .ok () ↔ KeyShape c := by
  have hids : ((structuralIds c).any fun id => decide (id = "")) = false ↔
      ((structuralIds c).all fun id => decide (id ≠ "")) = true := by
    simp [List.any_eq_false]
  rw [← wellShaped_iff, wellShaped, Bool.and_eq_true, ← hids]
  split_ifs with hkind hshape hempty
  · simp [hkind]
  · rw [Bool.or_eq_true, Bool.not_eq_true', Bool.not_eq_true'] at hshape
    obtain hshape | hshape := hshape <;> simp [hshape]
  · simp [hempty]
  · simp_all

/-! ### Texts and components -/

section
variable {numeral : List Char → Option ℚ} {cr : Crates}

lemma json_strings (c : List String) : (Control.strings c).json = .arr (c.map .str) := by
  rw [Control.strings, Control.json]
  congr 1
  induction c with
  | nil => rfl
  | cons s c ih =>
    rw [List.map_cons, List.map_cons, Control.jsonItems, ih]
    rfl

lemma isText_keyText (c : List String) : IsText numeral (.arr (c.map .str)) (keyText c) := by
  rw [← json_strings, keyText, ← write_json (tabulated [] [] [])]
  apply isText_write
  rw [json_strings]
  intro n hn
  have hnone : numbersOfItems (c.map Json.str) = [] := by
    clear hn
    induction c with
    | nil => rfl
    | cons s c ih =>
      rw [List.map_cons, numbersOfItems, ih]
      rfl
  rw [numbers, hnone] at hn
  cases hn

lemma mapM_text? {vs : List Json} {c : List String} :
    vs.mapM Json.text? = some c ↔ vs = c.map .str := by
  have htext : ∀ v s, Json.text? v = some s ↔ v = .str s := by
    intro v s
    cases v <;> simp [Json.text?, eq_comm]
  rw [PageTree.mapM_eq_some]
  simp only [htext]
  constructor
  · intro h
    induction h with
    | nil => rfl
    | cons hv _ ih => rw [hv, ih, List.map_cons]
  · rintro rfl
    rw [List.forall₂_map_left_iff]
    exact List.forall₂_same.mpr fun _ _ => rfl

lemma textsOf_eq_some (hread : ReadsJson numeral cr) {value : String} {c : List String} :
    textsOf cr value = some c ↔ IsText numeral (.arr (c.map .str)) value.toList := by
  have hshallow : Payload.shallow 0 (.arr (c.map .str)) = true := by
    have hitems : Payload.shallowItems 1 (c.map Json.str) = true := by
      induction c with
      | nil => rfl
      | cons s c ih =>
        rw [List.map_cons, Payload.shallowItems, ih]
        rfl
    rw [Payload.shallow, hitems]
    rfl
  have hjson : textsOf cr value = some c ↔
      cr.readJson (utf8 value.toList) = some (.arr (c.map .str)) := by
    unfold textsOf
    constructor
    · intro h
      split at h
      · rename_i vs hv
        rw [hv, mapM_text?.mp h]
      · cases h
    · intro h
      rw [h]
      exact mapM_text?.mpr rfl
  rw [hjson, hread]
  constructor
  · rintro ⟨-, t, ht, htext⟩
    rw [utf8_injective ht]
    exact htext
  · exact fun h => ⟨hshallow,_,rfl,h⟩

lemma textsOf_keyText (hread : ReadsJson numeral cr) (c : List String) :
    textsOf cr (String.ofList (keyText c)) = some c := by
  rw [textsOf_eq_some hread, String.toList_ofList]
  exact isText_keyText c

namespace KeyText

lemma tryFrom_eq_ok (hread : ReadsJson numeral cr) {value : String} {k : KeyText} :
    tryFrom cr value = .ok k ↔ k = ⟨value⟩ ∧ (utf8 value.toList).length ≤ maxUnitKeyBytes ∧
      ∃ c, value = String.ofList (keyText c) ∧ KeyShape c := by
  have hrun : ∀ c, textsOf cr value = some c → (tryFrom cr value = .ok k ↔
      ⟨value⟩ = k ∧ (utf8 value.toList).length ≤ maxUnitKeyBytes ∧
        String.ofList (keyText c) = value ∧ KeyShape c) := by
    intro c hc
    -- a key without components has an empty kind
    have hnil : (c = [] ∨ component c 0 = "" ∨ String.ofList (keyText c) ≠ value) ↔
        component c 0 = "" ∨ String.ofList (keyText c) ≠ value := by
      apply or_iff_right_of_imp
      intro h
      rw [h]
      exact .inl rfl
    rw [← checks_eq]
    unfold tryFrom
    rw [hc]
    simp only [hnil]
    split_ifs <;> simp_all
  constructor
  · intro h
    cases hc : textsOf cr value with
    | none =>
      unfold tryFrom at h
      rw [hc] at h
      split_ifs at h
    | some c =>
      obtain ⟨hk, hlen, hvalue, hshape⟩ := (hrun c hc).mp h
      exact ⟨hk.symm,hlen,c,hvalue.symm,hshape⟩
  · rintro ⟨hk, hlen, c, hvalue, hshape⟩
    have hc : textsOf cr value = some c := by
      rw [hvalue]
      exact textsOf_keyText hread c
    exact (hrun c hc).mpr ⟨hk.symm,hlen,hvalue.symm,hshape⟩

/-- The keys of this text are the keys of these components. -/
theorem tryFrom_eq_unitKey (hread : ReadsJson numeral cr) {value : String} :
    (∃ k, tryFrom cr value = .ok k) ↔ ∃ u : UnitKey, u.asStr = value := by
  have hcheck : ∀ c, checkKey c = .ok () ↔
      (utf8 (keyText c)).length ≤ maxUnitKeyBytes ∧ KeyShape c := by
    intro c
    rw [← checks_eq]
    unfold checkKey
    split_ifs <;> simp_all
  simp only [tryFrom_eq_ok hread]
  constructor
  · rintro ⟨k, -, hlen, c, rfl, hshape⟩
    rw [String.toList_ofList] at hlen
    exact ⟨⟨c,(hcheck c).mpr ⟨hlen,hshape⟩⟩,rfl⟩
  · rintro ⟨u, rfl⟩
    obtain ⟨hlen, hshape⟩ := (hcheck _).mp u.valid
    refine ⟨_,rfl,?_,u.components,rfl,hshape⟩
    rw [UnitKey.asStr, String.toList_ofList]
    exact hlen

/-- The components of a key are those it was made of, keys of different components differ, and
exactly the texts of well-shaped components that are not too long are keys. -/
theorem keys_are_faithful (hread : ReadsJson numeral cr) :
    (∀ c k, new cr c = .ok k → k.components cr = some c) ∧
    (∀ c d k, new cr c = .ok k → new cr d = .ok k → c = d) ∧
    ∀ value, (∃ k, tryFrom cr value = .ok k) ↔
      ∃ c, value = String.ofList (keyText c) ∧ KeyShape c ∧
        (utf8 value.toList).length ≤ 64*1024 := by
  have hcomponents : ∀ c k, new cr c = .ok k → k.components cr = some c := by
    intro c k h
    rw [((tryFrom_eq_ok hread).mp h).1]
    exact textsOf_keyText hread c
  refine ⟨hcomponents,fun c d k hc hd => ?_,fun value => ?_⟩
  · exact Option.some.inj ((hcomponents c k hc).symm.trans (hcomponents d k hd))
  · simp only [tryFrom_eq_ok hread]
    constructor
    · rintro ⟨k, -, hlen, c, hc, hshape⟩
      exact ⟨c,hc,hshape,hlen⟩
    · rintro ⟨c, hc, hshape, hlen⟩
      exact ⟨_,rfl,hlen,c,hc,hshape⟩

/-- A key of an identifier with a quotation mark and a line break, read back. -/
theorem keys_are_faithful_escaped :
    (∃ k, new Payload.textCrates ["persona","a\"\n",""] = .ok k ∧
      k.components Payload.textCrates = some ["persona","a\"\n",""]) ∧
    ¬ ∃ k, tryFrom Payload.textCrates "[\"persona\",\"\\u0061\",\"\"]" = .ok k := by
  obtain ⟨hcomponents, -, haccepts⟩ := keys_are_faithful Payload.textCrates_reads
  have hshape : KeyShape ["persona","a\"\n",""] := .field (by decide) (by decide)
  have hkey := (haccepts (String.ofList (keyText ["persona","a\"\n",""]))).mpr
    ⟨_,rfl,hshape,by decide +kernel⟩
  obtain ⟨k, hk⟩ := hkey
  refine ⟨⟨k,hk,hcomponents _ k hk⟩,fun h => ?_⟩
  -- an escape that is not needed
  obtain ⟨c, hc, -⟩ := (haccepts _).mp h
  have hread : textsOf Payload.textCrates "[\"persona\",\"\\u0061\",\"\"]" =
      some ["persona","a",""] := by
    decide +kernel
  have hsame : textsOf Payload.textCrates "[\"persona\",\"\\u0061\",\"\"]" = some c := by
    rw [hc]
    exact textsOf_keyText Payload.textCrates_reads c
  obtain rfl := Option.some.inj (hread.symm.trans hsame)
  revert hc
  decide +kernel

end KeyText

end
end RisuNest.Wire
