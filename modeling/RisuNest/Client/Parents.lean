import RisuNest.Storage.StoreError
import RisuNest.Server.Lww
import RisuNest.Wire.Sizes

/-! What a retirement takes with it on a device (`persistent_store/lww.rs`), against the rule of the
server. -/
namespace RisuNest.Client
open Wire

/-- `wire`: a wire error as an error of the store. -/
def stored {α : Type} (r : Wire.Result α) : Storage.StoreResult α :=
  r.mapError fun e => .validation e.code

/-- The components of the keys that `parent_keys` makes. -/
def parentComponents (p : List String) : List (List String) :=
  let kind := component p 0
  if kind = "character" ∨ kind = "archive" then [["exists","character",component p 1]]
  else if kind = "conversation" ∨ kind = "messages" then
    [["exists","character",component p 1],["exists","conversation",component p 1,component p 2]]
  else if kind = "exists" ∧ component p 1 = "conversation" then
    [["exists","character",component p 2]]
  else if kind = "preset" ∨ kind = "persona" then [["exists",kind,component p 1]]
  else if kind = "record" ∧ component p 1 ≠ "plugins" then
    [["exists",component p 1,component p 2]]
  else if kind = "order" ∧ component p 1 = "conversations" then
    [["exists","character",component p 2]]
  else []

def parentKeys (key : UnitKey) : Storage.StoreResult (List UnitKey) :=
  stored ((parentComponents key.components).mapM UnitKey.new)

/-- `json_extract` of one position of a key, which is null past its end. -/
def extract (key : UnitKey) (i : ℕ) : Option String := key.components[i]?

/-- The condition of `suppress_retired` on the key of a row. -/
def suppresses (parent key : UnitKey) : Bool :=
  let scope := parent.component 1
  let first := some (parent.component 2)
  if scope = "character" then
    (extract key 0 ∈ ["character","archive","conversation","messages"].map some ∧
        extract key 1 = first) ∨
      (extract key 0 = some "exists" ∧ extract key 1 = some "conversation" ∧
        extract key 2 = first) ∨
      (extract key 0 = some "order" ∧ extract key 1 = some "conversations" ∧
        extract key 2 = first)
  else if scope = "conversation" then
    extract key 0 ∈ ["conversation","messages"].map some ∧ extract key 1 = first ∧
      extract key 2 = some (parent.component 3)
  else if scope = "preset" ∨ scope = "persona" then
    extract key 0 = some scope ∧ extract key 1 = first
  else extract key 0 = some "record" ∧ extract key 1 = some scope ∧ extract key 2 = first

/-! ### The shapes of keys -/

/-- What the checks of a key found. -/
structure SoundKey (c : List String) : Prop where
  short : (utf8 (keyText c)).length ≤ maxUnitKeyBytes
  kind : component c 0 ≠ ""
  arity : keyArity c = true
  scope : keyScope c = true
  ids : ∀ id ∈ structuralIds c, id ≠ ""

lemma checkKey_eq_ok {c : List String} : checkKey c = .ok () ↔ SoundKey c := by
  unfold checkKey
  split_ifs with h1 h2 h3 h4
  · exact ⟨nofun,fun h => absurd h.short (Nat.not_le_of_lt h1)⟩
  · exact ⟨nofun,fun h => absurd h2 h.kind⟩
  · refine ⟨nofun,fun h => ?_⟩
    rw [h.arity, h.scope] at h3
    cases h3
  · refine ⟨nofun,fun h => ?_⟩
    obtain ⟨id,hid,he⟩ := List.any_eq_true.mp h4
    exact absurd (of_decide_eq_true he) (h.ids id hid)
  · refine ⟨fun _ => ⟨Nat.le_of_not_lt h1,h2,?_,?_,fun id hid he => h4 ?_⟩,fun _ => rfl⟩
    · cases ha : keyArity c <;> simp [ha] at h3 ⊢
    · cases hs : keyScope c <;> simp [hs] at h3 ⊢
    · exact List.any_eq_true.mpr ⟨id,hid,decide_eq_true he⟩

lemma checkKey_of_long {c : List String} (h : maxUnitKeyBytes < (utf8 (keyText c)).length) :
    checkKey c = .error ⟨"unit-key-too-large"⟩ := by
  unfold checkKey
  rw [if_pos h]

lemma new_of_error {c : List String} {e : WireError} (h : checkKey c = .error e) :
    UnitKey.new c = .error e := by
  unfold UnitKey.new
  split
  · rename_i hok
    rw [h] at hok
    cases hok
  · rename_i e' he'
    rw [h] at he'
    rw [Except.error.inj he']

lemma checkKey_of_shape {c : List String} (hk : component c 0 ≠ "") (ha : keyArity c = true)
    (hs : keyScope c = true) (hi : ∀ id ∈ structuralIds c, id ≠ "") :
    checkKey c = .ok () ∨ checkKey c = .error ⟨"unit-key-too-large"⟩ := by
  by_cases hl : (utf8 (keyText c)).length ≤ maxUnitKeyBytes
  · exact .inl (checkKey_eq_ok.mpr ⟨hl,hk,ha,hs,hi⟩)
  · exact .inr (checkKey_of_long (Nat.lt_of_not_le hl))

lemma of_length_three {c : List String} (h : c.length = 3) :
    c = [component c 0,component c 1,component c 2] := by
  obtain ⟨a,b,d,rfl⟩ := List.length_eq_three.mp h
  rfl

lemma of_length_four {c : List String} (h : c.length = 4) :
    c = [component c 0,component c 1,component c 2,component c 3] := by
  match c, h with
  | [_,_,_,_], _ => rfl

/-- The record kinds whose existence keys have one id. -/
abbrev namedScopes : List String :=
  ["character","preset","persona","modules","loadouts","customModels"]

lemma exists_arity {d : List String} (h : SoundKey d) (he : component d 0 = "exists") :
    (component d 1 = "conversation" ∧ d.length = 4) ∨
    (component d 1 ∈ namedScopes ∧ d.length = 3) ∨
    (component d 1 ≠ "conversation" ∧ component d 1 ∉ namedScopes ∧ component d 1 ≠ "plugins") := by
  have ha := h.arity
  unfold keyArity at ha
  simp only [he] at ha
  by_cases h1 : component d 1 = "conversation"
  · simp [h1] at ha
    exact .inl ⟨h1,ha⟩
  by_cases h2 : component d 1 ∈ namedScopes
  · rw [if_neg (by decide), if_neg (by decide), if_neg (by decide), if_pos trivial, if_neg h1,
      if_pos h2, decide_eq_true_eq] at ha
    exact .inr (.inl ⟨h2,ha⟩)
  · refine .inr (.inr ⟨h1,h2,fun h3 => ?_⟩)
    simp [h3] at ha

lemma child_arity {c : List String} (h : SoundKey c) :
    (component c 0 ∈ ["character","preset","persona","messages","record"] → c.length = 3) ∧
    (component c 0 = "archive" → c.length = 2) ∧
    (component c 0 = "conversation" → c.length = 4) ∧
    (component c 0 = "order" → component c 1 = "conversations" → c.length = 3) ∧
    (component c 0 = "exists" → component c 1 = "conversation" → c.length = 4) ∧
    (component c 0 = "record" → component c 1 ∈ ["modules","plugins","loadouts","customModels"]) := by
  have ha := h.arity
  have hs := h.scope
  unfold keyArity at ha
  unfold keyScope at hs
  refine ⟨fun hk => ?_,fun hk => ?_,fun hk => ?_,fun hk h1 => ?_,fun hk h1 => ?_,fun hk => ?_⟩
  · simp only [List.mem_cons, List.not_mem_nil, or_false] at hk
    obtain hk | hk | hk | hk | hk := hk <;> simpa [hk] using ha
  · simpa [hk] using ha
  · simpa [hk] using ha
  · simpa [hk, h1] using ha
  · simpa [hk, h1] using ha
  · simpa [hk] using hs

lemma extract_eq_some {key : UnitKey} {i : ℕ} {s : String} :
    extract key i = some s ↔ i < key.components.length ∧ key.component i = s := by
  unfold extract UnitKey.component component
  rw [List.getElem?_eq_some_iff, List.getD_eq_getElem?_getD]
  constructor
  · rintro ⟨hi,rfl⟩
    exact ⟨hi,by rw [List.getElem?_eq_getElem hi, Option.getD_some]⟩
  · rintro ⟨hi,rfl⟩
    exact ⟨hi,by rw [List.getElem?_eq_getElem hi, Option.getD_some]⟩

lemma parentComponents_eq (c : List String) : parentComponents c = Server.parentComponents c := by
  unfold parentComponents Server.parentComponents
  by_cases h1 : component c 0 = "preset" ∨ component c 0 = "persona"
  · obtain h | h := h1 <;> simp [h]
  · simp only [h1, if_false]

lemma mem_parentComponents {c d : List String} : d ∈ parentComponents c ↔
    (component c 0 ∈ ["character","archive","conversation","messages"] ∧
      d = ["exists","character",component c 1]) ∨
    (component c 0 = "exists" ∧ component c 1 = "conversation" ∧
      d = ["exists","character",component c 2]) ∨
    (component c 0 = "order" ∧ component c 1 = "conversations" ∧
      d = ["exists","character",component c 2]) ∨
    (component c 0 ∈ ["conversation","messages"] ∧
      d = ["exists","conversation",component c 1,component c 2]) ∨
    (component c 0 ∈ ["preset","persona"] ∧ d = ["exists",component c 0,component c 1]) ∨
    (component c 0 = "record" ∧ component c 1 ≠ "plugins" ∧
      d = ["exists",component c 1,component c 2]) := by
  unfold parentComponents
  by_cases h1 : component c 0 = "character" ∨ component c 0 = "archive"
  · obtain h | h := h1 <;> simp [h]
  by_cases h2 : component c 0 = "conversation" ∨ component c 0 = "messages"
  · obtain h | h := h2 <;> simp [h]
  by_cases h3 : component c 0 = "exists"
  · by_cases h : component c 1 = "conversation" <;> simp [h3, h]
  by_cases h4 : component c 0 = "preset" ∨ component c 0 = "persona"
  · obtain h | h := h4 <;> simp [h]
  by_cases h5 : component c 0 = "record"
  · by_cases h : component c 1 = "plugins" <;> simp [h5, h]
  by_cases h6 : component c 0 = "order"
  · by_cases h : component c 1 = "conversations" <;> simp [h6, h]
  · simp only [not_or] at h1 h2 h4
    simp [h1, h2, h3, h4, h5, h6]

lemma child_long {k : UnitKey} :
    (k.component 0 ∈ ["character","archive","conversation","messages","preset","persona"] →
      1 < k.components.length) ∧
    (k.component 0 ∈ ["conversation","messages","record"] → 2 < k.components.length) ∧
    (k.component 0 = "order" → k.component 1 = "conversations" → 2 < k.components.length) ∧
    (k.component 0 = "exists" → k.component 1 = "conversation" → 2 < k.components.length) := by
  obtain ⟨h3,harchive,hconv,horder,hex,-⟩ := child_arity (checkKey_eq_ok.mp k.valid)
  refine ⟨fun h => ?_,fun h => ?_,fun h h' => ?_,fun h h' => ?_⟩
  · simp only [List.mem_cons, List.not_mem_nil, or_false] at h
    obtain h | h | h | h | h | h := h
    · rw [h3 (by rw [← UnitKey.component, h]; decide)]
      decide
    · rw [harchive h]
      decide
    · rw [hconv h]
      decide
    · rw [h3 (by rw [← UnitKey.component, h]; decide)]
      decide
    · rw [h3 (by rw [← UnitKey.component, h]; decide)]
      decide
    · rw [h3 (by rw [← UnitKey.component, h]; decide)]
      decide
  · simp only [List.mem_cons, List.not_mem_nil, or_false] at h
    obtain h | h | h := h
    · rw [hconv h]
      decide
    · rw [h3 (by rw [← UnitKey.component, h]; decide)]
      decide
    · rw [h3 (by rw [← UnitKey.component, h]; decide)]
      decide
  · rw [horder h h']
    decide
  · rw [hex h h']
    decide

lemma extract_component (k : UnitKey) :
    (∀ s, extract k 0 = some s ↔ k.component 0 = s) ∧
    (∀ l : List String, extract k 0 ∈ l.map some ↔ k.component 0 ∈ l) ∧
    (1 < k.components.length → ∀ s, extract k 1 = some s ↔ k.component 1 = s) ∧
    (2 < k.components.length → ∀ s, extract k 2 = some s ↔ k.component 2 = s) := by
  have hzero : 0 < k.components.length := by
    by_contra hz
    have hnil := List.eq_nil_of_length_eq_zero (Nat.le_zero.mp (Nat.le_of_not_lt hz))
    exact (checkKey_eq_ok.mp k.valid).kind (by rw [hnil]; rfl)
  have h0 : ∀ s, extract k 0 = some s ↔ k.component 0 = s :=
    fun s => extract_eq_some.trans (and_iff_right hzero)
  refine ⟨h0,fun l => ?_,fun hk s => extract_eq_some.trans (and_iff_right hk),
    fun hk s => extract_eq_some.trans (and_iff_right hk)⟩
  rw [List.mem_map]
  constructor
  · rintro ⟨s,hs,he⟩
    exact (h0 s).mp he.symm ▸ hs
  · exact fun hs => ⟨_,hs,((h0 _).mpr rfl).symm⟩

lemma extract_pair {k : UnitKey} {s a b : String}
    (h : k.component 0 = s → k.component 1 = a → 2 < k.components.length) :
    (extract k 0 = some s ∧ extract k 1 = some a ∧ extract k 2 = some b) ↔
      k.component 0 = s ∧ k.component 1 = a ∧ k.component 2 = b := by
  obtain ⟨h0,-,h1,h2⟩ := extract_component k
  constructor
  · rintro ⟨hs,ha,hb⟩
    exact ⟨(h0 s).mp hs,(extract_eq_some.mp ha).2,(extract_eq_some.mp hb).2⟩
  · rintro ⟨hs,ha,hb⟩
    have hlen := h hs ha
    exact ⟨(h0 s).mpr hs,(h1 (Nat.lt_of_succ_lt hlen) a).mpr ha,(h2 hlen b).mpr hb⟩

section
variable {p k : UnitKey}

lemma suppresses_character (hs : p.component 1 = "character") : suppresses p k = true ↔
    (k.component 0 ∈ ["character","archive","conversation","messages"] ∧
        k.component 1 = p.component 2) ∨
      (k.component 0 = "exists" ∧ k.component 1 = "conversation" ∧
        k.component 2 = p.component 2) ∨
      (k.component 0 = "order" ∧ k.component 1 = "conversations" ∧
        k.component 2 = p.component 2) := by
  obtain ⟨hone,-,horder,hex⟩ := @child_long k
  obtain ⟨-,hin,h1,-⟩ := extract_component k
  unfold suppresses
  rw [if_pos hs, decide_eq_true_eq, hin, extract_pair hex, extract_pair horder]
  refine or_congr_left (and_congr_right fun hk => h1 (hone ?_) _)
  exact (by decide : ∀ s ∈ ["character","archive","conversation","messages"],
    s ∈ ["character","archive","conversation","messages","preset","persona"]) _ hk

lemma suppresses_conversation (hs : p.component 1 = "conversation") : suppresses p k = true ↔
    k.component 0 ∈ ["conversation","messages"] ∧ k.component 1 = p.component 2 ∧
      k.component 2 = p.component 3 := by
  obtain ⟨-,htwo,-⟩ := @child_long k
  obtain ⟨-,hin,h1,h2⟩ := extract_component k
  unfold suppresses
  rw [if_neg (by rw [hs]; decide), if_pos hs, decide_eq_true_eq, hin]
  refine and_congr_right fun hk => ?_
  have hlen := htwo ((by decide : ∀ s ∈ ["conversation","messages"],
    s ∈ ["conversation","messages","record"]) _ hk)
  exact and_congr (h1 (Nat.lt_of_succ_lt hlen) _) (h2 hlen _)

lemma suppresses_preset (hs : p.component 1 ∈ ["preset","persona"]) : suppresses p k = true ↔
    k.component 0 = p.component 1 ∧ k.component 1 = p.component 2 := by
  obtain ⟨hone,-⟩ := @child_long k
  obtain ⟨h0,-,h1,-⟩ := extract_component k
  have hne := (by decide : ∀ s ∈ ["preset","persona"], s ≠ "character" ∧ s ≠ "conversation" ∧
    s ∈ ["character","archive","conversation","messages","preset","persona"]) _ hs
  unfold suppresses
  rw [if_neg hne.1, if_neg hne.2.1, if_pos (by simpa using hs), decide_eq_true_eq, h0]
  exact and_congr_right fun hk => h1 (hone (by rw [hk]; exact hne.2.2)) _

lemma suppresses_record
    (hs : p.component 1 ∉ ["character","conversation","preset","persona"]) :
    suppresses p k = true ↔ k.component 0 = "record" ∧ k.component 1 = p.component 1 ∧
      k.component 2 = p.component 2 := by
  obtain ⟨-,htwo,-⟩ := @child_long k
  simp only [List.mem_cons, List.not_mem_nil, or_false, not_or] at hs
  unfold suppresses
  rw [if_neg hs.1, if_neg hs.2.1, if_neg (by tauto), decide_eq_true_eq]
  exact extract_pair fun hk _ => htwo (by rw [hk]; decide)

lemma exists_eq (hp : p.component 0 = "exists") (hs : p.component 1 ∈ namedScopes) :
    p.components = ["exists",p.component 1,p.component 2] := by
  obtain ⟨h,-⟩ | ⟨-,hlen⟩ | ⟨-,h,-⟩ := exists_arity (checkKey_eq_ok.mp p.valid) hp
  · change p.component 1 = _ at h
    rw [h] at hs
    exact absurd hs (by decide)
  · exact hp ▸ of_length_three hlen
  · exact absurd hs h

lemma exists_conversation_eq (hp : p.component 0 = "exists")
    (hs : p.component 1 = "conversation") :
    p.components = ["exists","conversation",p.component 2,p.component 3] := by
  obtain ⟨-,hlen⟩ | ⟨h,-⟩ | ⟨h,-⟩ := exists_arity (checkKey_eq_ok.mp p.valid) hp
  · have := of_length_four hlen
    change _ = [p.component 0,p.component 1,p.component 2,p.component 3] at this
    rw [hp, hs] at this
    exact this
  · change p.component 1 ∈ _ at h
    rw [hs] at h
    exact absurd h (by decide)
  · exact absurd hs h

lemma of_exists_eq {s a : String} (h : p.components = ["exists",s,a]) :
    p.component 1 = s ∧ p.component 2 = a := by
  unfold UnitKey.component
  rw [h]
  exact ⟨rfl,rfl⟩

lemma mem_of_suppresses (hp : p.component 0 = "exists") (h : suppresses p k = true) :
    p.components ∈ parentComponents k.components := by
  rw [mem_parentComponents]
  by_cases hc : p.component 1 = "character"
  · have he := exists_eq hp (by rw [hc]; decide)
    rw [hc] at he
    obtain ⟨hk,h1⟩ | ⟨hk,h1,h2⟩ | ⟨hk,h1,h2⟩ := (suppresses_character hc).mp h
    · exact .inl ⟨hk,by rw [he, ← h1]; rfl⟩
    · exact .inr (.inl ⟨hk,h1,by rw [he, ← h2]; rfl⟩)
    · exact .inr (.inr (.inl ⟨hk,h1,by rw [he, ← h2]; rfl⟩))
  by_cases hv : p.component 1 = "conversation"
  · have he := exists_conversation_eq hp hv
    obtain ⟨hk,h1,h2⟩ := (suppresses_conversation hv).mp h
    exact .inr (.inr (.inr (.inl ⟨hk,by rw [he, ← h1, ← h2]; rfl⟩)))
  by_cases hs : p.component 1 ∈ ["preset","persona"]
  · have he := exists_eq hp ((by decide : ∀ s ∈ ["preset","persona"], s ∈ namedScopes) _ hs)
    obtain ⟨hk,h1⟩ := (suppresses_preset hs).mp h
    rw [← hk] at hs he
    exact .inr (.inr (.inr (.inr (.inl ⟨hs,by rw [he, ← h1]; rfl⟩))))
  · obtain ⟨hk,h1,h2⟩ := (suppresses_record (by simp at hs ⊢; tauto)).mp h
    have hrecord := (child_arity (checkKey_eq_ok.mp k.valid)).2.2.2.2.2 hk
    change k.component 1 ∈ _ at hrecord
    have hplugins : k.component 1 ≠ "plugins" := by
      intro hpl
      rw [h1] at hpl
      obtain ⟨h,-⟩ | ⟨h,-⟩ | ⟨-,-,h⟩ := exists_arity (checkKey_eq_ok.mp p.valid) hp
      · exact absurd h hv
      · change p.component 1 ∈ _ at h
        rw [hpl] at h
        exact absurd h (by decide)
      · exact h hpl
    have he := exists_eq hp (by
      rw [← h1]
      exact (by decide : ∀ s ∈ ["modules","plugins","loadouts","customModels"],
        s ≠ "plugins" → s ∈ namedScopes) _ hrecord hplugins)
    rw [← h1] at he
    exact .inr (.inr (.inr (.inr (.inr ⟨hk,hplugins,by rw [he, ← h2]; rfl⟩))))

lemma suppresses_of_mem (h : p.components ∈ parentComponents k.components) :
    suppresses p k = true := by
  rw [mem_parentComponents] at h
  obtain ⟨hk,h⟩ | ⟨hk,hk',h⟩ | ⟨hk,hk',h⟩ | ⟨hk,h⟩ | ⟨hk,h⟩ | ⟨hk,hk',h⟩ := h
  · exact (suppresses_character (of_exists_eq h).1).mpr (.inl ⟨hk,(of_exists_eq h).2.symm⟩)
  · exact (suppresses_character (of_exists_eq h).1).mpr
      (.inr (.inl ⟨hk,hk',(of_exists_eq h).2.symm⟩))
  · exact (suppresses_character (of_exists_eq h).1).mpr
      (.inr (.inr ⟨hk,hk',(of_exists_eq h).2.symm⟩))
  · have hall : p.component 1 = "conversation" ∧ p.component 2 = component k.components 1 ∧
        p.component 3 = component k.components 2 := by
      unfold UnitKey.component
      rw [h]
      exact ⟨rfl,rfl,rfl⟩
    exact (suppresses_conversation hall.1).mpr ⟨hk,hall.2.1.symm,hall.2.2.symm⟩
  · exact (suppresses_preset (by rw [(of_exists_eq h).1]; exact hk)).mpr
      ⟨(of_exists_eq h).1.symm,(of_exists_eq h).2.symm⟩
  · have hr := (child_arity (checkKey_eq_ok.mp k.valid)).2.2.2.2.2 hk
    refine (suppresses_record ?_).mpr ⟨hk,(of_exists_eq h).1.symm,(of_exists_eq h).2.symm⟩
    rw [(of_exists_eq h).1]
    exact (by decide : ∀ s ∈ ["modules","plugins","loadouts","customModels"],
      s ∉ ["character","conversation","preset","persona"]) _ hr

theorem suppresses_iff (hp : p.component 0 = "exists") :
    suppresses p k = true ↔ p.components ∈ parentComponents k.components :=
  ⟨mem_of_suppresses hp,suppresses_of_mem⟩

lemma component_mem {c : List String} {i n m : ℕ} (hi : i < c.length) (hn : n ≤ i)
    (hm : i < n + m) : component c i ∈ (c.drop n).take m := by
  refine List.mem_of_getElem? (i := i - n) ?_
  rw [List.getElem?_take_of_lt (by omega), List.getElem?_drop, Nat.add_sub_cancel' hn]
  unfold component
  rw [List.getD_eq_getElem?_getD, List.getElem?_eq_getElem hi, Option.getD_some]

lemma parent_ids (k : UnitKey) :
    (k.component 0 ∈ ["character","archive","conversation","messages","preset","persona"] →
      k.component 1 ≠ "") ∧
    (k.component 0 ∈ ["conversation","messages"] → k.component 2 ≠ "") ∧
    (k.component 0 = "record" → k.component 1 ≠ "plugins" → k.component 2 ≠ "") ∧
    (k.component 0 = "order" → k.component 1 = "conversations" → k.component 2 ≠ "") ∧
    (k.component 0 = "exists" → k.component 1 = "conversation" → k.component 2 ≠ "") := by
  obtain ⟨hone,htwo,horder,hex⟩ := @child_long k
  have hids := (checkKey_eq_ok.mp k.valid).ids
  unfold structuralIds at hids
  dsimp only at hids
  unfold UnitKey.component at *
  refine ⟨fun hk => ?_,fun hk => ?_,fun hk h1 => ?_,fun hk h1 => ?_,fun hk h1 => ?_⟩
  · have hlen := hone hk
    refine hids _ ?_
    by_cases hs : component k.components 0 ∈ ["character","preset","persona","archive"]
    · rw [if_pos hs]
      exact component_mem hlen (Nat.le_refl 1) (by decide)
    · have hc : component k.components 0 = "conversation" ∨
          component k.components 0 = "messages" := by
        simp at hk hs ⊢
        tauto
      rw [if_neg hs, if_pos hc]
      exact component_mem hlen (Nat.le_refl 1) (by decide)
  · have hlen := htwo ((by decide : ∀ s ∈ ["conversation","messages"],
      s ∈ ["conversation","messages","record"]) _ hk)
    refine hids _ ?_
    have hne := (by decide : ∀ s ∈ ["conversation","messages"],
      s ∉ ["character","preset","persona","archive"]) _ hk
    rw [if_neg hne, if_pos (by simpa using hk)]
    exact component_mem hlen (by decide) (by decide)
  · refine hids _ ?_
    rw [if_neg (by rw [hk]; decide), if_neg (by rw [hk]; decide), if_neg (by rw [hk]; decide),
      if_pos ⟨hk,h1⟩]
    exact component_mem (htwo (by rw [hk]; decide)) (Nat.le_refl 2) (by decide)
  · refine hids _ ?_
    rw [if_neg (by rw [hk]; decide), if_neg (by rw [hk]; decide), if_neg (by rw [hk]; decide),
      if_neg (by rw [hk]; exact fun h => absurd h.1 (by decide)), if_pos ⟨hk,h1⟩]
    exact component_mem (horder hk h1) (Nat.le_refl 2) (by decide)
  · refine hids _ ?_
    rw [if_neg (by rw [hk]; decide), if_neg (by rw [hk]; decide), if_pos hk]
    exact List.mem_of_mem_take (component_mem (m := 1) (hex hk h1) (Nat.le_refl 2) (by decide))

lemma checkKey_parent (k : UnitKey) {d : List String} (h : d ∈ parentComponents k.components) :
    checkKey d = .ok () ∨ checkKey d = .error ⟨"unit-key-too-large"⟩ := by
  obtain ⟨hone,htwo,hrecord,horder,hex⟩ := parent_ids k
  have hthree : ∀ s ∈ namedScopes, ∀ a, a ≠ "" →
      checkKey ["exists",s,a] = .ok () ∨
        checkKey ["exists",s,a] = .error ⟨"unit-key-too-large"⟩ := by
    intro s hs a ha
    refine checkKey_of_shape (by change "exists" ≠ ""; decide) ?_ rfl ?_
    · simp only [List.mem_cons, List.not_mem_nil, or_false] at hs
      obtain rfl | rfl | rfl | rfl | rfl | rfl := hs <;> rfl
    · intro id hid
      obtain rfl : id = a := List.mem_singleton.mp hid
      exact ha
  rw [mem_parentComponents] at h
  obtain ⟨hk,rfl⟩ | ⟨hk,hk',rfl⟩ | ⟨hk,hk',rfl⟩ | ⟨hk,rfl⟩ | ⟨hk,rfl⟩ | ⟨hk,hk',rfl⟩ := h
  · exact hthree _ (by decide) _ (hone ((by decide :
      ∀ s ∈ ["character","archive","conversation","messages"],
        s ∈ ["character","archive","conversation","messages","preset","persona"]) _ hk))
  · exact hthree _ (by decide) _ (hex hk hk')
  · exact hthree _ (by decide) _ (horder hk hk')
  · refine checkKey_of_shape (by change "exists" ≠ ""; decide) rfl rfl fun id hid => ?_
    have hid : id = component k.components 1 ∨ id = component k.components 2 := by
      simpa [structuralIds, component] using hid
    obtain rfl | rfl := hid
    · exact hone ((by decide : ∀ s ∈ ["conversation","messages"],
        s ∈ ["character","archive","conversation","messages","preset","persona"]) _ hk)
    · exact htwo hk
  · exact hthree _ ((by decide : ∀ s ∈ ["preset","persona"], s ∈ namedScopes) _ hk) _
      (hone ((by decide : ∀ s ∈ ["preset","persona"],
        s ∈ ["character","archive","conversation","messages","preset","persona"]) _ hk))
  · have hr := (child_arity (checkKey_eq_ok.mp k.valid)).2.2.2.2.2 hk
    exact hthree _ ((by decide : ∀ s ∈ ["modules","plugins","loadouts","customModels"],
      s ≠ "plugins" → s ∈ namedScopes) _ hr hk') _ (hrecord hk hk')

lemma mapM_new_cases {l : List (List String)}
    (h : ∀ d ∈ l, checkKey d = .ok () ∨ checkKey d = .error ⟨"unit-key-too-large"⟩) :
    (∃ ps, l.mapM UnitKey.new = .ok ps ∧ ∀ d ∈ l, checkKey d = .ok ()) ∨
      (l.mapM UnitKey.new = .error ⟨"unit-key-too-large"⟩ ∧ ∃ d ∈ l, checkKey d ≠ .ok ()) := by
  induction l with
  | nil => exact .inl ⟨[],rfl,List.forall_mem_nil _⟩
  | cons d l ih =>
    obtain ⟨hd,hl⟩ := List.forall_mem_cons.mp h
    rw [List.mapM_cons]
    obtain hd | hd := hd
    · have hk : UnitKey.new d = .ok ⟨d,hd⟩ := UnitKey.new_eq_ok.mpr rfl
      rw [hk]
      obtain ⟨ps,hps,hall⟩ | ⟨he,x,hx,hne⟩ := ih hl
      · exact .inl ⟨⟨d,hd⟩ :: ps,by rw [hps]; rfl,List.forall_mem_cons.mpr ⟨hd,hall⟩⟩
      · exact .inr ⟨by rw [he]; rfl,x,List.mem_cons_of_mem d hx,hne⟩
    · refine .inr ⟨by rw [new_of_error hd]; rfl,d,List.mem_cons_self,?_⟩
      rw [hd]
      nofun

end

/-- The device and the server name the same parents of a key, or both refuse a key whose parents
take more than the 64 KiB of a key. Where they are named, the condition of `suppress_retired`
selects the key exactly for its parents. -/
theorem parents_agree (k : UnitKey) :
    (∃ r : Wire.Result (List UnitKey), parentKeys k = stored r ∧
      Server.parents k = Server.lift r ∧ ∀ e, r = .error e → e = ⟨"unit-key-too-large"⟩) ∧
    ((∀ d ∈ parentComponents k.components, (utf8 (keyText d)).length ≤ maxUnitKeyBytes) ↔
      (parentKeys k).isOk = true) ∧
    ∀ ps, parentKeys k = .ok ps → ∀ p : UnitKey, p.component 0 = "exists" →
      (suppresses p k = true ↔ p ∈ ps) := by
  have hcases := mapM_new_cases fun d hd => checkKey_parent k hd
  refine ⟨⟨_,rfl,?_,?_⟩,?_,?_⟩
  · rw [parentComponents_eq]
    rfl
  · intro e he
    obtain ⟨ps,hps,-⟩ | ⟨he',-⟩ := hcases
    · rw [hps] at he
      cases he
    · exact Except.error.inj (he.symm.trans he')
  · unfold parentKeys
    obtain ⟨ps,hps,hall⟩ | ⟨he,d,hd,hne⟩ := hcases
    · rw [hps]
      exact ⟨fun _ => rfl,fun _ d hd => (checkKey_eq_ok.mp (hall d hd)).short⟩
    · rw [he]
      refine ⟨fun h => absurd ?_ hne,nofun⟩
      obtain hok | hlong := checkKey_parent k hd
      · exact hok
      · unfold checkKey at hlong ⊢
        rw [if_neg (Nat.not_lt.mpr (h d hd))] at hlong ⊢
        split_ifs at hlong ⊢
        all_goals simp at hlong
  · intro ps hps p hp
    have hmap : ps.map UnitKey.components = parentComponents k.components := by
      unfold parentKeys stored at hps
      cases hm : (parentComponents k.components).mapM UnitKey.new with
      | error e =>
        rw [hm] at hps
        cases hps
      | ok l =>
        rw [hm] at hps
        exact Except.ok.inj hps ▸ UnitKey.map_components_of_mapM_new hm
    rw [suppresses_iff hp, ← hmap, List.mem_map]
    constructor
    · rintro ⟨q,hq,he⟩
      exact UnitKey.ext he ▸ hq
    · exact fun h => ⟨p,h,rfl⟩

def sampleName : UnitKey := ⟨["character","c","name"],by decide⟩
def sampleCharacter : UnitKey := ⟨["exists","character","c"],by decide⟩

theorem parents_agree_character : ∀ ps, parentKeys sampleName = .ok ps → sampleCharacter ∈ ps := by
  intro ps hps
  exact ((parents_agree sampleName).2.2 ps hps sampleCharacter rfl).mp
    ((suppresses_iff rfl).mpr List.mem_cons_self)

/-! ### A key whose parents do not fit -/

/-- The id of a character, as long as the keys of its messages allow. -/
def longId : String := String.ofList (List.replicate 65510 'c')

lemma byteLength_longId : byteLength (writeString longId) = 65512 := by
  have hescape : escape 'c' = ['c'] := by decide
  have hlist : longId.toList = List.replicate 65510 'c' := String.toList_ofList
  rw [byteLength_writeString_plain, hlist, byteLength_ascii, List.length_replicate]
  · intro c hc
    rw [List.eq_of_mem_replicate hc]
    decide
  · intro c hc
    rw [hlist] at hc
    rw [List.eq_of_mem_replicate hc, hescape]

lemma longId_ne : longId ≠ "" := by
  intro h
  have := byteLength_longId
  rw [h] at this
  exact absurd this (by decide)

lemma length_keyText {c : List String} (h : c ≠ []) : (utf8 (keyText c)).length = itemBytes c + 1 :=
  byteLength_strings h

lemma itemBytes_cons (v : String) (values : List String) :
    itemBytes (v :: values) = byteLength (writeString v) + 1 + itemBytes values := by
  unfold itemBytes
  rw [List.map_cons, List.sum_cons]

lemma itemBytes_nil : itemBytes [] = 0 := rfl

lemma byteLength_words : byteLength (writeString "messages") = 10 ∧
    byteLength (writeString "exists") = 8 ∧ byteLength (writeString "character") = 11 ∧
    byteLength (writeString "conversation") = 14 ∧ byteLength (writeString "a") = 3 := by
  decide

lemma longMessages_valid : checkKey ["messages",longId,"a"] = .ok () := by
  refine checkKey_eq_ok.mpr ⟨?_,by change "messages" ≠ ""; decide,rfl,rfl,?_⟩
  · rw [length_keyText (by simp)]
    simp only [itemBytes_cons, itemBytes_nil, byteLength_longId, byteLength_words]
    change _ ≤ 65536
    omega
  · intro id hid
    have hid : id = longId ∨ id = "a" := by simpa [structuralIds, component] using hid
    obtain rfl | rfl := hid
    · exact longId_ne
    · decide

lemma longCharacter_valid : checkKey ["exists","character",longId] = .ok () := by
  refine checkKey_eq_ok.mpr ⟨?_,by change "exists" ≠ ""; decide,rfl,rfl,?_⟩
  · rw [length_keyText (by simp)]
    rw [itemBytes_cons, itemBytes_cons, itemBytes_cons, itemBytes_nil, byteLength_longId,
      byteLength_words.2.1, byteLength_words.2.2.1]
    exact (by decide : 8+1+(11+1+(65512+1+0))+1 ≤ 65536)
  · intro id hid
    have hid : id = longId := by simpa [structuralIds, component] using hid
    exact hid ▸ longId_ne

lemma longConversation_long :
    maxUnitKeyBytes < (utf8 (keyText ["exists","conversation",longId,"a"])).length := by
  rw [length_keyText (by simp)]
  rw [itemBytes_cons, itemBytes_cons, itemBytes_cons, itemBytes_cons, itemBytes_nil,
    byteLength_longId, byteLength_words.2.1, byteLength_words.2.2.2.1, byteLength_words.2.2.2.2]
  exact (by decide : 65536 < 8+1+(14+1+(65512+1+(3+1+0)))+1)

lemma longConversation_refused :
    UnitKey.new ["exists","conversation",longId,"a"] = .error ⟨"unit-key-too-large"⟩ :=
  new_of_error (checkKey_of_long longConversation_long)

/-- The retirement of a character takes these messages with it, but neither side can name their
parents: the key of the conversation would be too long. -/
theorem long_parent_unnamed : ∃ p k : UnitKey, p.components = ["exists","character",longId] ∧
    k.components = ["messages",longId,"a"] ∧ suppresses p k = true ∧
    parentKeys k = .error (.validation "unit-key-too-large") := by
  refine ⟨⟨_,longCharacter_valid⟩,⟨_,longMessages_valid⟩,rfl,rfl,?_,?_⟩
  · exact (suppresses_iff rfl).mpr (List.mem_cons_self)
  · have hmap : [["exists","character",longId],["exists","conversation",longId,"a"]].mapM
        UnitKey.new = .error ⟨"unit-key-too-large"⟩ := by
      rw [List.mapM_cons, List.mapM_cons, longConversation_refused]
      rw [UnitKey.new_eq_ok.mpr (rfl : (⟨_,longCharacter_valid⟩ : UnitKey).components = _)]
      rfl
    change stored ([["exists","character",longId],["exists","conversation",longId,"a"]].mapM
      UnitKey.new) = _
    rw [hmap]
    rfl

end RisuNest.Client
