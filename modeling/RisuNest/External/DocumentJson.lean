import RisuNest.External.Envelope
import RisuNest.Lib.SortedMap
import RisuNest.Wire.ControlForm

/-! Control documents as JSON: structs, maps, and metadata of the storage format nested in them,
whose numbers are told as texts (`lww_checkpoint.rs`). -/
namespace RisuNest.External.Documents
open Wire (Json sortBy sortEachBy sortItemsBy sortedMembers)
open Wire.JsonText (numbers numbersOfItems numbersOfMembers)
open Wire.Payload (shallow shallowItems shallowMembers)

/-! ### Structs and maps -/

/-- The fields of a struct, by their names or all of them in an array. The ones marked may be left
out, and are null then; a closed struct admits no others. -/
def recordOf (closed : Bool) (names : List (String × Bool)) : Json → Option (List Json)
  | .arr vs => if vs.length = names.length then some vs else none
  | .obj ms =>
    if (ms.map Prod.fst).Nodup ∧ (closed = true → ∀ k ∈ ms.map Prod.fst, k ∈ names.map Prod.fst) then
      names.mapM fun name =>
        (Table.lookup name.1 ms).or (if name.2 then some .null else none)
    else none
  | _ => none

/-- Null is none. -/
def optionOf {α : Type} (item : Json → Option α) : Json → Option (Option α)
  | .null => some none
  | v => (item v).map some

def optionJson {α : Type} (f : α → Json) : Option α → Json
  | none => .null
  | some a => f a

/-- A `BTreeMap<String, _>`. -/
abbrev TextMap (α : Type) := SortedMap String α

def mapJson {α : Type} (f : α → Json) (m : TextMap α) : Json :=
  .obj (m.rows.map fun r => (r.1,f r.2))

def mapOf {α : Type} (item : Json → Option α) : Json → Option (TextMap α)
  | .obj ms => (ms.mapM fun m => (item m.2).map fun a => (m.1,a)).map SortedMap.ofRows
  | _ => none

/-! ### Nested metadata -/

/-- The text of a byte. -/
def byteText (q : ℚ) : Option String :=
  if q.den = 1 ∧ 0 ≤ q.num ∧ q.num < 256 then some q.num.toNat.repr else none

/-- `integer` in `nested_metadata::deserialize`. -/
def textByte (text : String) : Option ℚ :=
  let digits := text.toList
  if digits ≠ [] ∧ (digits.length = 1 ∨ digits.head? ≠ some '0') ∧
      digits.all Char.isDigit = true ∧ Decimal.value digits < 256 then
    some (Decimal.value digits : ℕ)
  else none

mutual
/-- `convert` in `nested_metadata::serialize`: the bytes in arrays become texts. -/
def nest : Json → Option Json
  | .num _ => none
  | .arr vs => (nestItems vs).map .arr
  | .obj ms => (nestMembers ms).map .obj
  | v => some v

def nestItems : List Json → Option (List Json)
  | [] => some []
  | v :: vs => do
    let w ← v.asNumber.elim (nest v) fun q => (byteText q).map .str
    pure (w :: (← nestItems vs))

def nestMembers : List (String × Json) → Option (List (String × Json))
  | [] => some []
  | (k,v) :: ms => do pure ((k,← nest v) :: (← nestMembers ms))
end

mutual
/-- `convert` in `nested_metadata::deserialize`: the texts in arrays become bytes. -/
def unnest : Json → Option Json
  | .num _ => none
  | .arr vs => (unnestItems vs).map .arr
  | .obj ms => (unnestMembers ms).map .obj
  | v => some v

def unnestItems : List Json → Option (List Json)
  | [] => some []
  | v :: vs => do
    let w ← v.text?.elim (unnest v) fun text => (textByte text).map .num
    pure (w :: (← unnestItems vs))

def unnestMembers : List (String × Json) → Option (List (String × Json))
  | [] => some []
  | (k,v) :: ms => do pure ((k,← unnest v) :: (← unnestMembers ms))
end

mutual
/-- Whether numbers are bytes in arrays, and arrays hold no texts. -/
def restorable : Json → Bool
  | .num _ => false
  | .arr vs => restorableItems vs
  | .obj ms => restorableMembers ms
  | _ => true

def restorableItems : List Json → Bool
  | [] => true
  | v :: vs => v.asNumber.elim (v.text?.isNone && restorable v) (fun q => (byteText q).isSome) &&
      restorableItems vs

def restorableMembers : List (String × Json) → Bool
  | [] => true
  | (_,v) :: ms => restorable v && restorableMembers ms
end

/-! ### Sorted members -/

section
variable {le : String → String → Bool}

lemma sortBy_obj (ms : List (String × Json)) :
    sortBy le (.obj ms) = .obj (sortedMembers le (ms.map fun m => (m.1,sortBy le m.2))) := by
  rw [sortBy, Wire.sortEachBy_eq]
  rfl

lemma sortedMembers_perm_self (ms : List (String × Json)) : (sortedMembers le ms).Perm ms :=
  List.perm_insertionSort _ ms

lemma names_sortedMembers (ms : List (String × Json)) :
    ((sortedMembers le (ms.map fun m => (m.1,sortBy le m.2))).map Prod.fst).Perm
      (ms.map Prod.fst) := by
  have h := (@sortedMembers_perm_self le (ms.map fun m => (m.1,sortBy le m.2))).map Prod.fst
  rw [Wire.names_sorted] at h
  exact h

lemma lookup_sortedMembers {ms : List (String × Json)} (h : (ms.map Prod.fst).Nodup)
    (name : String) :
    Table.lookup name (sortedMembers le (ms.map fun m => (m.1,sortBy le m.2))) =
      (Table.lookup name ms).map (sortBy le) := by
  have hsorted := (@names_sortedMembers le ms).nodup_iff.mpr h
  apply Option.ext
  intro v
  rw [Table.lookup_eq_some hsorted, (sortedMembers_perm_self _).mem_iff, Option.map_eq_some_iff]
  simp only [Table.lookup_eq_some h, List.mem_map, Prod.mk.injEq]
  constructor
  · rintro ⟨⟨k, w⟩, hm, rfl, rfl⟩
    exact ⟨w,hm,rfl⟩
  · rintro ⟨w, hm, rfl⟩
    exact ⟨(name,w),hm,rfl,rfl⟩

lemma mapM_option_map {α β γ : Type} (g : α → Option β) (f : β → γ) (l : List α) :
    l.mapM (fun x => (g x).map f) = (l.mapM g).map (List.map f) := by
  induction l with
  | nil => rfl
  | cons x l ih =>
    rw [List.mapM_cons, List.mapM_cons, ih]
    cases g x with
    | none => rfl
    | some y => cases l.mapM g <;> rfl

/-- The fields of a struct are found in any order of its members. -/
theorem recordOf_sortBy {closed : Bool} {names : List (String × Bool)} {ms : List (String × Json)}
    {vs : List Json} (h : recordOf closed names (.obj ms) = some vs) :
    recordOf closed names (sortBy le (.obj ms)) = some (vs.map (sortBy le)) := by
  rw [sortBy_obj]
  simp only [recordOf] at h ⊢
  split_ifs at h with hnames
  have hperm := @names_sortedMembers le ms
  rw [if_pos ⟨hperm.nodup_iff.mpr hnames.1,
    fun hclosed k hk => hnames.2 hclosed k (hperm.mem_iff.mp hk)⟩]
  have hfields : (fun name : String × Bool =>
      (Table.lookup name.1 (sortedMembers le (ms.map fun m => (m.1,sortBy le m.2)))).or
        (if name.2 then some .null else none)) = fun name =>
      ((Table.lookup name.1 ms).or (if name.2 then some .null else none)).map (sortBy le) := by
    funext name
    rw [lookup_sortedMembers hnames.1]
    cases Table.lookup name.1 ms with
    | none => cases name.2 <;> rfl
    | some v => rfl
  rw [hfields, mapM_option_map, h]
  rfl

lemma listOf_sortBy {α : Type} {item : Json → Option α} {f : α → Json} {l : List α}
    (h : ∀ a ∈ l, item (sortBy le (f a)) = some a) :
    CatalogPages.listOf item (sortBy le (.arr (l.map f))) = some l := by
  rw [sortBy, Wire.sortItemsBy_eq]
  change ((l.map f).map (sortBy le)).mapM item = some l
  induction l with
  | nil => rfl
  | cons a l ih =>
    rw [List.forall_mem_cons] at h
    rw [List.map_cons, List.map_cons, List.mapM_cons, h.1, ih h.2]
    rfl

lemma optionOf_sortBy {α : Type} {item : Json → Option α} {f : α → Json}
    (h : ∀ a, item (sortBy le (f a)) = some a) (hnull : ∀ a, sortBy le (f a) ≠ .null)
    (o : Option α) : optionOf item (sortBy le (optionJson f o)) = some o := by
  cases o with
  | none => rfl
  | some a =>
    have ha := h a
    have hne := hnull a
    change optionOf item (sortBy le (f a)) = _
    generalize sortBy le (f a) = v at ha hne
    cases v with
    | null => exact absurd rfl hne
    | _ => exact congrArg (Option.map some) ha

/-- A map is read from its members in any order. -/
theorem mapOf_sortBy {α : Type} {item : Json → Option α} {f : α → Json}
    (h : ∀ a, item (sortBy le (f a)) = some a) (m : TextMap α) :
    mapOf item (sortBy le (mapJson f m)) = some m := by
  have hrows : sortedMembers le ((m.rows.map fun r => (r.1,f r.2)).map fun r => (r.1,sortBy le r.2)) =
      (m.rows.insertionSort fun a b => le a.1 b.1).map fun r => (r.1,sortBy le (f r.2)) := by
    rw [List.map_map]
    exact (List.map_insertionSort (r := fun a b : String × α => le a.1 b.1)
      (s := fun a b : String × Json => le a.1 b.1) _ m.rows fun _ _ _ _ => Iff.rfl).symm
  have hread : ((m.rows.insertionSort fun a b => le a.1 b.1).map fun r =>
      (r.1,sortBy le (f r.2))).mapM (fun r => (item r.2).map fun a => (r.1,a)) =
        some (m.rows.insertionSort fun a b => le a.1 b.1) := by
    apply CatalogPages.mapM_map
    intro r
    rw [h]
    rfl
  unfold mapJson
  rw [sortBy_obj, hrows]
  change Option.map SortedMap.ofRows (List.mapM _ _) = _
  rw [hread]
  exact congrArg some (SortedMap.ofRows_of_perm (List.perm_insertionSort _ _))

end

/-! ### Nested metadata is read back -/

lemma textByte_byteText {q : ℚ} {text : String} (h : byteText q = some text) :
    textByte text = some q := by
  unfold byteText at h
  split_ifs at h with hq
  cases h
  have hvalue := Decimal.value_repr q.num.toNat
  have hdigits : q.num.toNat.repr.toList.all Char.isDigit = true :=
    List.all_eq_true.mpr (Decimal.digits_repr _)
  have hpos := Decimal.length_repr_pos q.num.toNat
  have hne : q.num.toNat.repr.toList ≠ [] := List.ne_nil_of_length_pos hpos
  have hzero := Decidable.or_iff_not_imp_left.mpr (@Wire.head_repr_ne_zero q.num.toNat)
  have hlt : Decimal.value q.num.toNat.repr.toList < 256 := by
    rw [hvalue]
    omega
  have hcast : ((q.num.toNat : ℕ) : ℚ) = q := by
    have hnum : ((q.num.toNat : ℕ) : ℤ) = q.num := Int.toNat_of_nonneg hq.2.1
    rw [← Int.cast_natCast, hnum]
    exact Rat.coe_int_num_of_den_eq_one hq.1
  simp only [textByte]
  rw [if_pos ⟨hne,hzero,hdigits,hlt⟩, hvalue, hcast]

/-- What metadata is told as, where it is nested. -/
structure Nested (v w : Json) : Prop where
  written : nest v = some w
  read : unnest w = some v
  numbers : numbers w = []
  distinct : w.distinct = v.distinct
  shallow : ∀ depth, shallow depth w = shallow depth v

mutual
/-- Metadata whose arrays hold no texts is read back from what is told. -/
theorem exists_nested : ∀ v : Json, restorable v = true → ∃ w, Nested v w
  | .null, _ => ⟨.null,rfl,rfl,rfl,rfl,fun _ => rfl⟩
  | .bool b, _ => ⟨.bool b,rfl,rfl,rfl,rfl,fun _ => rfl⟩
  | .str s, _ => ⟨.str s,rfl,rfl,rfl,rfl,fun _ => rfl⟩
  | .num q, h => by simp [restorable] at h
  | .arr vs, h => by
    obtain ⟨ws, hwritten, hread, hnumbers, hdistinct, hshallow⟩ :=
      exists_nestedItems vs (by simpa only [restorable] using h)
    refine ⟨.arr ws,?_,?_,hnumbers,hdistinct,?_⟩
    · simp only [nest, hwritten, Option.map_some]
    · simp only [unnest, hread, Option.map_some]
    · intro depth
      simp only [Wire.Payload.shallow, hshallow]
  | .obj ms, h => by
    obtain ⟨ns, hwritten, hread, hnumbers, hdistinct, hshallow, hnames⟩ :=
      exists_nestedMembers ms (by simpa only [restorable] using h)
    refine ⟨.obj ns,?_,?_,hnumbers,?_,?_⟩
    · simp only [nest, hwritten, Option.map_some]
    · simp only [unnest, hread, Option.map_some]
    · simp only [Json.distinct, hdistinct, hnames]
    · intro depth
      simp only [Wire.Payload.shallow, hshallow]

theorem exists_nestedItems : ∀ vs : List Json, restorableItems vs = true →
    ∃ ws, nestItems vs = some ws ∧ unnestItems ws = some vs ∧ numbersOfItems ws = [] ∧
      Json.distinctItems ws = Json.distinctItems vs ∧
      ∀ depth, shallowItems depth ws = shallowItems depth vs
  | [], _ => ⟨[],rfl,rfl,rfl,rfl,fun _ => rfl⟩
  | v :: vs, h => by
    rw [restorableItems, Bool.and_eq_true] at h
    obtain ⟨ws, hwritten, hread, hnumbers, hdistinct, hshallow⟩ := exists_nestedItems vs h.2
    cases hv : v.asNumber with
    | some q =>
      -- a byte is told as its text
      have hnum : v = .num q := by
        cases v with
        | num q' => exact congrArg Json.num (Option.some.inj hv)
        | _ => cases hv
      subst hnum
      obtain ⟨text, htext⟩ := Option.isSome_iff_exists.mp h.1
      refine ⟨.str text :: ws,?_,?_,hnumbers,?_,?_⟩
      · simp only [nestItems, Json.asNumber, Option.elim_some, htext, hwritten]
        rfl
      · simp only [unnestItems, Json.text?, Option.elim_some, textByte_byteText htext, hread]
        rfl
      · simp only [Json.distinctItems, Json.distinct, hdistinct]
      · intro depth
        simp only [shallowItems, Wire.Payload.shallow, hshallow]
    | none =>
      rw [hv] at h
      obtain ⟨htext, hrestorable⟩ := Bool.and_eq_true_iff.mp h.1
      obtain ⟨w, hw⟩ := exists_nested v hrestorable
      have hwtext : w.text? = none := by
        cases v with
        | str s => cases htext
        | num q => cases hv
        | null =>
          obtain rfl := Option.some.inj hw.written
          rfl
        | bool b =>
          obtain rfl := Option.some.inj hw.written
          rfl
        | arr vs =>
          obtain ⟨l, -, rfl⟩ := Option.map_eq_some_iff.mp (by simpa only [nest] using hw.written)
          rfl
        | obj ms =>
          obtain ⟨l, -, rfl⟩ := Option.map_eq_some_iff.mp (by simpa only [nest] using hw.written)
          rfl
      refine ⟨w :: ws,?_,?_,?_,?_,?_⟩
      · simp only [nestItems, hv, Option.elim_none, hw.written, hwritten]
        rfl
      · simp only [unnestItems, hwtext, Option.elim_none, hw.read, hread]
        rfl
      · rw [numbersOfItems, hw.numbers, hnumbers, List.append_nil]
      · simp only [Json.distinctItems, hw.distinct, hdistinct]
      · intro depth
        simp only [shallowItems, hw.shallow, hshallow]

theorem exists_nestedMembers : ∀ ms : List (String × Json), restorableMembers ms = true →
    ∃ ns, nestMembers ms = some ns ∧ unnestMembers ns = some ms ∧ numbersOfMembers ns = [] ∧
      Json.distinctMembers ns = Json.distinctMembers ms ∧
      (∀ depth, shallowMembers depth ns = shallowMembers depth ms) ∧
      ns.map Prod.fst = ms.map Prod.fst
  | [], _ => ⟨[],rfl,rfl,rfl,rfl,fun _ => rfl,rfl⟩
  | (k,v) :: ms, h => by
    rw [restorableMembers, Bool.and_eq_true] at h
    obtain ⟨w, hw⟩ := exists_nested v h.1
    obtain ⟨ns, hwritten, hread, hnumbers, hdistinct, hshallow, hnames⟩ :=
      exists_nestedMembers ms h.2
    refine ⟨(k,w) :: ns,?_,?_,?_,?_,?_,?_⟩
    · simp only [nestMembers, hw.written, hwritten]
      rfl
    · simp only [unnestMembers, hw.read, hread]
      rfl
    · rw [numbersOfMembers, hw.numbers, hnumbers, List.append_nil]
    · simp only [Json.distinctMembers, hw.distinct, hdistinct]
    · intro depth
      simp only [shallowMembers, hw.shallow, hshallow]
    · rw [List.map_cons, List.map_cons, hnames]
end

section
variable {le : String → String → Bool}

lemma text?_sortBy (v : Json) : (sortBy le v).text? = v.text? := by
  cases v <;> rfl

lemma unnestMembers_cons {k : String} {w : Json} {ms ns : List (String × Json)} :
    unnestMembers ((k,w) :: ms) = some ns ↔
      ∃ v, unnest w = some v ∧ ∃ l, unnestMembers ms = some l ∧ (k,v) :: l = ns := by
  simp [unnestMembers, Option.bind_eq_some_iff]

lemma unnestMembers_orderedInsert {k : String} {w v : Json} {ms ns : List (String × Json)}
    (hw : unnest w = some v) (h : unnestMembers ms = some ns) :
    unnestMembers (ms.orderedInsert (fun a b => le a.1 b.1) (k,w)) =
      some (ns.orderedInsert (fun a b => le a.1 b.1) (k,v)) := by
  induction ms generalizing ns with
  | nil =>
    cases h
    exact unnestMembers_cons.mpr ⟨v,hw,[],rfl,rfl⟩
  | cons m ms ih =>
    obtain ⟨k', w'⟩ := m
    obtain ⟨v', hw', l, hl, rfl⟩ := unnestMembers_cons.mp h
    rw [List.orderedInsert_cons, List.orderedInsert_cons]
    split_ifs
    · exact unnestMembers_cons.mpr ⟨v,hw,_,h,rfl⟩
    · exact unnestMembers_cons.mpr ⟨v',hw',_,ih hl,rfl⟩

lemma unnestMembers_sorted {ms ns : List (String × Json)} (h : unnestMembers ms = some ns) :
    unnestMembers (ms.insertionSort fun a b => le a.1 b.1) =
      some (ns.insertionSort fun a b => le a.1 b.1) := by
  induction ms generalizing ns with
  | nil =>
    cases h
    rfl
  | cons m ms ih =>
    obtain ⟨k, w⟩ := m
    obtain ⟨v, hw, l, hl, rfl⟩ := unnestMembers_cons.mp h
    exact unnestMembers_orderedInsert hw (ih hl)

mutual
/-- What is told may be sorted before it is read back. -/
theorem unnest_sortBy : ∀ {w v : Json}, unnest w = some v → unnest (sortBy le w) = some (sortBy le v)
  | .null, v, h => by
    obtain rfl := Option.some.inj h
    rfl
  | .bool b, v, h => by
    obtain rfl := Option.some.inj h
    rfl
  | .str s, v, h => by
    obtain rfl := Option.some.inj h
    rfl
  | .num q, v, h => by simp [unnest] at h
  | .arr ws, v, h => by
    rw [unnest, Option.map_eq_some_iff] at h
    obtain ⟨vs, hvs, rfl⟩ := h
    simp only [sortBy, unnest, unnestItems_sortBy hvs, Option.map_some]
  | .obj ms, v, h => by
    rw [unnest, Option.map_eq_some_iff] at h
    obtain ⟨ns, hns, rfl⟩ := h
    simp only [sortBy, unnest, unnestMembers_sorted (unnestMembers_sortBy hns), Option.map_some]

theorem unnestItems_sortBy : ∀ {ws vs : List Json}, unnestItems ws = some vs →
    unnestItems (sortItemsBy le ws) = some (sortItemsBy le vs)
  | [], vs, h => by
    obtain rfl := Option.some.inj h
    rfl
  | w :: ws, vs, h => by
    have hcons : ∃ v, (w.text?.elim (unnest w) fun text => (textByte text).map .num) = some v ∧
        ∃ l, unnestItems ws = some l ∧ v :: l = vs := by
      simpa [unnestItems, Option.bind_eq_some_iff] using h
    obtain ⟨v, hv, l, hl, rfl⟩ := hcons
    have hw : ((sortBy le w).text?.elim (unnest (sortBy le w)) fun text =>
        (textByte text).map .num) = some (sortBy le v) := by
      rw [text?_sortBy]
      cases htext : w.text? with
      | some text =>
        rw [htext] at hv
        obtain ⟨q, hq, rfl⟩ := Option.map_eq_some_iff.mp hv
        exact Option.map_eq_some_iff.mpr ⟨q,hq,rfl⟩
      | none =>
        rw [htext] at hv
        exact unnest_sortBy hv
    rw [sortItemsBy, unnestItems, hw, unnestItems_sortBy hl]
    rfl

theorem unnestMembers_sortBy : ∀ {ms ns : List (String × Json)}, unnestMembers ms = some ns →
    unnestMembers (sortEachBy le ms) = some (sortEachBy le ns)
  | [], ns, h => by
    obtain rfl := Option.some.inj h
    rfl
  | (k,w) :: ms, ns, h => by
    obtain ⟨v, hw, l, hl, rfl⟩ := unnestMembers_cons.mp h
    exact unnestMembers_cons.mpr ⟨sortBy le v,unnest_sortBy hw,_,unnestMembers_sortBy hl,rfl⟩
end

end

end RisuNest.External.Documents
