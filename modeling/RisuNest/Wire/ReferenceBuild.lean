import RisuNest.Wire.ReferenceWalk
import RisuNest.Wire.Sizes
import Mathlib.Data.List.Induction

/-! What `build_reference_tree` makes is what `visit_reference_tree` walks (`descriptor.rs`). -/
namespace RisuNest.Wire
open PageTree

/-! ### Pages that pass their checks -/

/-- What `ReferencePage::validate` checks. -/
structure ReferencePage.Valid (page : ReferencePage) : Prop where
  nonempty : page.values ≠ []
  short : page.values.length ≤ pageFanout
  ordered : page.isBranches = false → ascending page.values = true
  values : ∀ v ∈ page.values, page.validateValue v = .ok ()
  bytes : page.toControl.encode.length ≤ maxMetadataBytes

lemma ReferencePage.validate_eq (page : ReferencePage) : page.validate = (do
    require (¬ (page.values = [] ∨ pageFanout < page.values.length)) ⟨"invalid-reference-page"⟩
    require ((!page.isBranches && !ascending page.values) = false) ⟨"unordered-references"⟩
    page.values.forM page.validateValue
    require (¬ maxMetadataBytes < page.toControl.encode.length) ⟨"metadata-too-large"⟩) := by
  unfold validate
  dsimp only
  rw [forIn_eq_forM]
  by_cases h1 : page.values = [] ∨ pageFanout < page.values.length
  · rw [if_pos h1, require, if_neg (not_not.mpr h1)]
    rfl
  · rw [if_neg h1, require, if_pos h1]
    cases h2 : !page.isBranches && !ascending page.values with
    | true => rfl
    | false =>
      change (page.values.forM page.validateValue >>= _) = (page.values.forM page.validateValue >>= _)
      congr 1
      funext _
      by_cases h3 : maxMetadataBytes < page.toControl.encode.length
      · rw [if_pos h3, require, if_neg (not_not.mpr h3)]
        rfl
      · rw [if_neg h3, require, if_pos h3]
        rfl

theorem ReferencePage.validate_eq_ok {page : ReferencePage} :
    page.validate = .ok () ↔ page.Valid := by
  rw [validate_eq]
  constructor
  · intro h
    obtain ⟨_,h1,h⟩ := bind_eq_ok.mp h
    obtain ⟨_,h2,h⟩ := bind_eq_ok.mp h
    obtain ⟨_,h3,h4⟩ := bind_eq_ok.mp h
    have h1 := not_or.mp (require_eq_ok.mp h1)
    refine ⟨h1.1,Nat.le_of_not_lt h1.2,fun hb => ?_,forM_eq_ok.mp h3,
      Nat.le_of_not_lt (require_eq_ok.mp h4)⟩
    simpa [hb] using require_eq_ok.mp h2
  · intro h
    refine bind_eq_ok.mpr ⟨_,require_eq_ok.mpr (not_or.mpr ⟨h.nonempty,Nat.not_lt.mpr h.short⟩),
      bind_eq_ok.mpr ⟨_,require_eq_ok.mpr ?_,bind_eq_ok.mpr ⟨_,forM_eq_ok.mpr h.values,
        require_eq_ok.mpr (Nat.not_lt.mpr h.bytes)⟩⟩⟩
    cases hb : page.isBranches with
    | true => rfl
    | false => simp [h.ordered hb]

lemma ascending_eq_true {values : List String} :
    ascending values = true ↔ values.Pairwise (· < ·) := by
  rw [← List.isChain_iff_pairwise]
  fun_induction ascending values with
  | case1 a b rest ih => rw [List.isChain_cons_cons, Bool.and_eq_true, ih, decide_eq_true_eq]
  | case2 values hv =>
    cases values with
    | nil => simp
    | cons a rest =>
      cases rest with
      | nil => simp
      | cons b rest => exact absurd rfl (hv a b rest)

lemma full_of_pageOf {cr : Crates} {relations : Bool} {load : String → Result (List UInt8)}
    (key : String) (p : Page String String) (h : pageOf cr relations load key = some p) :
    p.Full := by
  obtain ⟨page,hpage⟩ := exists_open h
  have hne := (ReferencePage.validate_eq_ok.mp (openPage_validate hpage)).nonempty
  cases page with
  | branches children =>
    rw [pageOf_branches _ hpage] at h
    cases h
    exact hne
  | objects hashes =>
    rw [pageOf_leaf _ hpage (by simp)] at h
    split_ifs at h
    cases h
    exact hne
  | relations keys =>
    rw [pageOf_leaf _ hpage (by simp)] at h
    split_ifs at h
    cases h
    exact hne

/-! ### Sizes of pages -/

lemma length_encode_page (page : ReferencePage) (h : page.values ≠ []) :
    page.toControl.encode.length ≤ itemBytes page.values + 32 := by
  have k1 : byteLength (writeString "hashes") = 8 := by decide
  have k2 : byteLength (writeString "kind") = 6 := by decide
  have k3 : byteLength (writeString "objects") = 9 := by decide
  have k4 : byteLength (writeString "keys") = 6 := by decide
  have k5 : byteLength (writeString "relations") = 11 := by decide
  have k6 : byteLength (writeString "children") = 10 := by decide
  have k7 : byteLength (writeString "branches") = 10 := by decide
  rw [length_encode]
  have c1 : ('\x7b').utf8Size = 1 := by decide
  have c2 : (':').utf8Size = 1 := by decide
  have c3 : (',').utf8Size = 1 := by decide
  have c4 : ('\x7d').utf8Size = 1 := by decide
  have hs := byteLength_strings h
  cases page <;>
  · simp only [ReferencePage.toControl, ReferencePage.values, Control.write, Control.writeMembers,
      byteLength_cons, byteLength_append, byteLength_nil, k1, k2, k3, k4, k5, k6, k7, c1, c2, c3,
      c4] at hs ⊢
    omega

/-! ### The leaves -/

/-- A value that may be referred to: a hash, or a key that is not too long. -/
def ValidReference (relations : Bool) (value : String) : Prop :=
  if relations then value ≠ "" ∧ byteLength value.toList ≤ maxKeyBytes
  else validateHash value = .ok ()

def leafPage (relations : Bool) (values : List String) : ReferencePage :=
  if relations then .relations values else .objects values

@[simp] lemma values_leafPage (relations : Bool) (values : List String) :
    (leafPage relations values).values = values := by cases relations <;> rfl

@[simp] lemma isRelations_leafPage (relations : Bool) (values : List String) :
    (leafPage relations values).isRelations = relations := by cases relations <;> rfl

@[simp] lemma isBranches_leafPage (relations : Bool) (values : List String) :
    (leafPage relations values).isBranches = false := by cases relations <;> rfl

section
variable {cr : Crates} {relations : Bool}

lemma ValidReference.validateValue {value : String} (h : ValidReference relations value)
    (values : List String) : (leafPage relations values).validateValue value = .ok () := by
  unfold ReferencePage.validateValue
  rw [isRelations_leafPage]
  cases relations with
  | true =>
    obtain ⟨hne,hlen⟩ := h
    rw [if_pos rfl, length_utf8, if_neg (not_or.mpr ⟨hne,Nat.not_lt.mpr hlen⟩)]
  | false => exact h

lemma ValidReference.bytes {value : String} (h : ValidReference relations value) :
    byteLength (writeString value) + 1 ≤ 6*65536 + 3 := by
  cases relations with
  | true =>
    have hlen : byteLength value.toList ≤ 65536 := h.2
    have := byteLength_writeString_le value
    omega
  | false =>
    rw [(byteLength_hash h).2]
    omega

variable (cr) in
/-- A page under its hash. -/
def pageEntry (page : ReferencePage) : String × List UInt8 :=
  (hash cr page.toControl.encode,page.toControl.encode)

lemma publishPage_eq {page : ReferencePage} (h : page.validate = .ok ()) :
    publishPage cr page = .ok (pageEntry cr page) := by
  simp only [publishPage, h]
  rfl

lemma publishLeaf_eq {values : List String} (h : (leafPage relations values).validate = .ok ()) :
    publishLeaf cr values relations = .ok (pageEntry cr (leafPage relations values)) :=
  publishPage_eq h

/-- The values of a leaf that may be published. -/
structure LeafFits (relations : Bool) (values : List String) : Prop where
  nonempty : values ≠ []
  short : values.length ≤ pageFanout
  bytes : itemBytes values ≤ maxMetadataBytes - 128
  ordered : values.Pairwise (· < ·)
  valid : ∀ v ∈ values, ValidReference relations v

lemma LeafFits.validate {values : List String} (h : LeafFits relations values) :
    (leafPage relations values).validate = .ok () := by
  have hbytes := length_encode_page (leafPage relations values) (by simpa using h.nonempty)
  have hb := h.bytes
  rw [values_leafPage] at hbytes
  refine ReferencePage.validate_eq_ok.mpr ⟨?_,?_,?_,?_,?_⟩
  · simpa using h.nonempty
  · simpa using h.short
  · intro _
    simpa using ascending_eq_true.mpr h.ordered
  · intro v hv
    exact (h.valid v (by simpa using hv)).validateValue values
  · change _ ≤ 1024*1024
    change _ ≤ 1024*1024 - 128 at hb
    omega

/-- What the leaves and the leaf that is filled make of the values so far. -/
structure Filled (cr : Crates) (relations : Bool) (groups : List (List String)) (s : LeafState)
    (done : List String) : Prop where
  leaves : s.leaves = groups.map fun g => pageEntry cr (leafPage relations g)
  values : groups.flatten ++ s.current = done
  fits : ∀ g ∈ groups, LeafFits relations g ∧ 2 ≤ g.length
  used : s.used = itemBytes s.current
  short : s.current.length ≤ pageFanout
  bytes : s.used ≤ maxMetadataBytes - 128
  started : s.current = [] → done = []

lemma two_le_of_leafFull {s : LeafState} {value : String} {bytes : ℕ}
    (hu : s.used = itemBytes s.current) (hv : ∀ v ∈ s.current, ValidReference relations v)
    (hb : bytes ≤ 6*65536 + 3) (h : leafFull cr s value relations bytes = true) :
    2 ≤ s.current.length := by
  obtain ⟨leaves,current,used⟩ := s
  simp only [leafFull, Bool.and_eq_true, Bool.or_eq_true, decide_eq_true_eq] at h
  obtain ⟨hne,h⟩ := h
  cases current with
  | nil => simp at hne
  | cons v current =>
    cases current with
    | cons w current => simp
    | nil =>
      have hbytes := (hv v List.mem_cons_self).bytes
      have hused : used ≤ 6*65536 + 3 := by
        change used = _ at hu
        rw [hu]
        simpa [itemBytes] using hbytes
      obtain (h | h) | h := h
      · change 1 = 1024 at h
        omega
      · change 1024*1024 - 128 < used + bytes at h
        omega
      · have := h.1
        change 64 ≤ 1 at this
        omega

lemma room_of_not_leafFull {s : LeafState} {value : String} {bytes : ℕ}
    (h : ¬ leafFull cr s value relations bytes = true) (hs : s.current.length ≤ pageFanout)
    (hu : s.used = itemBytes s.current) (hb : bytes ≤ 6*65536 + 3) :
    s.current.length < pageFanout ∧ s.used + bytes ≤ maxMetadataBytes - 128 := by
  by_cases hc : s.current = []
  · rw [hu, hc]
    change 0 < 1024 ∧ 0 + bytes ≤ 1024*1024 - 128
    omega
  · have hnot : ¬ (s.current.length = pageFanout ∨ maxMetadataBytes - 128 < s.used + bytes) := by
      intro hor
      apply h
      simp only [leafFull, Bool.and_eq_true, Bool.or_eq_true, decide_eq_true_eq]
      exact ⟨hc,.inl hor⟩
    omega

lemma itemBytes_append_singleton (values : List String) (value : String) :
    itemBytes (values ++ [value]) = itemBytes values + (byteLength (writeString value) + 1) := by
  simp [itemBytes]

lemma addReference_filled {groups : List (List String)} {s : LeafState} {done : List String}
    {value : String} (h : Filled cr relations groups s done) (ho : done.Pairwise (· < ·))
    (hv : ∀ v ∈ done, ValidReference relations v) (hvalue : ValidReference relations value) :
    ∃ groups' t, addReference cr relations s value = .ok t ∧
      Filled cr relations groups' t (done ++ [value]) := by
  have hbytes := hvalue.bytes
  have hcurrent : s.current <:+ done := ⟨_,h.values⟩
  have hvcurrent := fun v hm => hv v (hcurrent.subset hm)
  unfold addReference
  change ∃ groups' t, (if leafFull cr s value relations (byteLength (writeString value) + 1) then _
    else _) = _ ∧ _
  split_ifs with hfull
  · have htwo := two_le_of_leafFull h.used hvcurrent hbytes hfull
    have hfits : LeafFits relations s.current :=
      ⟨List.ne_nil_of_length_pos (by omega),h.short,h.used ▸ h.bytes,ho.sublist hcurrent.sublist,
        hvcurrent⟩
    refine ⟨groups ++ [s.current],_,bind_eq_ok.mpr ⟨_,publishLeaf_eq hfits.validate,rfl⟩,?_⟩
    refine ⟨?_,?_,?_,?_,?_,?_,?_⟩
    · simp [h.leaves]
    · simp [← h.values]
    · intro g hg
      obtain hg | hg := List.mem_append.mp hg
      · exact h.fits g hg
      · rw [List.mem_singleton.mp hg]
        exact ⟨hfits,htwo⟩
    · change byteLength (writeString value) + 1 = itemBytes [value]
      simp [itemBytes]
    · change 1 ≤ 1024
      omega
    · change byteLength (writeString value) + 1 ≤ 1024*1024 - 128
      omega
    · intro hc
      cases hc
  · have hroom := room_of_not_leafFull hfull h.short h.used hbytes
    refine ⟨groups,_,rfl,h.leaves,?_,h.fits,?_,?_,?_,?_⟩
    · rw [← h.values, List.append_assoc]
    · change s.used + _ = itemBytes (s.current ++ [value])
      rw [itemBytes_append_singleton, h.used]
      rfl
    · rw [List.length_append]
      exact hroom.1
    · exact hroom.2
    · intro hc
      simp at hc

lemma mul_length_le_flatten {n : ℕ} {groups : List (List String)}
    (h : ∀ g ∈ groups, n ≤ g.length) : n*groups.length ≤ groups.flatten.length := by
  induction groups with
  | nil => exact Nat.zero_le _
  | cons g groups ih =>
    rw [List.forall_mem_cons] at h
    have := ih h.2
    rw [List.flatten_cons, List.length_append, List.length_cons, Nat.mul_succ]
    omega

variable (cr) in
/-- Every list of valid values in strict order is cut into leaves. -/
theorem buildLeaves_eq_ok {values : List String} (ho : values.Pairwise (· < ·))
    (hv : ∀ v ∈ values, ValidReference relations v) :
    ∃ groups : List (List String), buildLeaves cr values relations =
        .ok (groups.map fun g => pageEntry cr (leafPage relations g)) ∧
      groups.flatten = values ∧ (∀ g ∈ groups, LeafFits relations g) ∧
      2*groups.length ≤ values.length + 1 := by
  obtain ⟨s,hs,groups,hf⟩ := foldlM_total (f := addReference cr relations)
    (I := fun done s => ∃ groups, Filled cr relations groups s done) (l := values)
    (s := ⟨[],[],0⟩) (fun done x rest s hl h => by
      obtain ⟨groups,h⟩ := h
      subst hl
      have hdone := List.sublist_append_left done (x :: rest)
      obtain ⟨groups',t,ht,hf⟩ := addReference_filled h (ho.sublist hdone)
        (fun v hm => hv v (hdone.subset hm)) (hv x (by simp))
      exact ⟨t,ht,groups',hf⟩)
    ⟨[],rfl,rfl,List.forall_mem_nil _,rfl,Nat.zero_le _,Nat.zero_le _,fun _ => rfl⟩
  have htwo := mul_length_le_flatten fun g hg => (hf.fits g hg).2
  have hlen : groups.flatten.length + s.current.length = values.length := by
    rw [← List.length_append, hf.values]
  unfold buildLeaves
  by_cases hc : s.current = []
  · refine ⟨groups,bind_eq_ok.mpr ⟨s,hs,?_⟩,?_,fun g hg => (hf.fits g hg).1,by omega⟩
    · rw [if_pos hc, hf.leaves]
      rfl
    · rw [← hf.values, hc, List.append_nil]
  · have hcurrent : s.current <:+ values := ⟨_,hf.values⟩
    have hfits : LeafFits relations s.current := ⟨hc,hf.short,hf.used ▸ hf.bytes,
      ho.sublist hcurrent.sublist,fun v hm => hv v (hcurrent.subset hm)⟩
    have hpos := List.length_pos_of_ne_nil hc
    refine ⟨groups ++ [s.current],bind_eq_ok.mpr ⟨s,hs,?_⟩,?_,fun g hg => ?_,?_⟩
    · rw [if_neg hc]
      refine bind_eq_ok.mpr ⟨_,publishLeaf_eq hfits.validate,?_⟩
      rw [hf.leaves, List.map_append]
      rfl
    · rw [List.flatten_concat, hf.values]
    · obtain hg | hg := List.mem_append.mp hg
      · exact (hf.fits g hg).1
      · exact List.mem_singleton.mp hg ▸ hfits
    · rw [List.length_append, List.length_singleton]
      omega

/-! ### The branches -/

/-- The groups of children so far, and the group that is filled. -/
structure Grouped (s : List (List String) × List String) (done : List String) : Prop where
  values : s.1.flatten ++ s.2 = done
  long : ∀ g ∈ s.1, 64 ≤ g.length ∧ g.length ≤ pageFanout
  short : s.2.length ≤ pageFanout
  started : s.2 = [] → done = []

lemma addChild_grouped {s : List (List String) × List String} {done : List String} {child : String}
    (h : Grouped s done) : Grouped (addChild cr s child) (done ++ [child]) := by
  obtain ⟨groups,current⟩ := s
  obtain ⟨hvalues,hlong,hshort,hstarted⟩ := h
  have hfan : (pageFanout : ℕ) = 1024 := rfl
  unfold addChild
  split_ifs with hfull
  · simp only [Bool.and_eq_true, Bool.or_eq_true, decide_eq_true_eq] at hfull
    refine ⟨?_,?_,?_,fun hc => nomatch hc⟩
    · simp [← hvalues]
    · intro g hg
      obtain hg | hg := List.mem_append.mp hg
      · exact hlong g hg
      · rw [List.mem_singleton.mp hg]
        refine ⟨?_,hshort⟩
        change 64 ≤ current.length
        obtain ⟨-,hfull | hfull⟩ := hfull
        · change current.length = pageFanout at hfull
          omega
        · exact hfull.1
    · change 1 ≤ 1024
      omega
  · refine ⟨?_,hlong,?_,?_⟩
    · simp [← hvalues]
    · by_cases hc : current = []
      · rw [hc]
        change 1 ≤ 1024
        omega
      · have hne : current.length ≠ pageFanout := by
          intro he
          apply hfull
          simp only [Bool.and_eq_true, Bool.or_eq_true, decide_eq_true_eq]
          exact ⟨hc,.inl he⟩
        change (current ++ [child]).length ≤ _
        change current.length ≤ _ at hshort
        rw [List.length_append, List.length_singleton]
        omega
    · intro hc
      simp at hc

variable (cr) in
/-- The groups of a level. All but the last have 64 children at least. -/
theorem branchGroups_spec {children : List String} (h : children ≠ []) :
    (branchGroups cr children).flatten = children ∧
      (∀ g ∈ branchGroups cr children, g ≠ [] ∧ g.length ≤ pageFanout) ∧
      64*(branchGroups cr children).length ≤ children.length + 63 := by
  have grouped : ∀ l : List String, Grouped (l.foldl (addChild cr) ([],[])) l := by
    intro l
    induction l using List.reverseRecOn with
    | nil => exact ⟨rfl,List.forall_mem_nil _,Nat.zero_le _,fun _ => rfl⟩
    | append_singleton l child ih =>
      rw [List.foldl_append]
      exact addChild_grouped ih
  obtain ⟨hvalues,hlong,hshort,hstarted⟩ := grouped children
  unfold branchGroups
  dsimp only
  generalize children.foldl (addChild cr) ([],[]) = s at hvalues hlong hshort hstarted ⊢
  have hne : s.2 ≠ [] := fun hc => h (hstarted hc)
  have hpos := List.length_pos_of_ne_nil hne
  have hlen := mul_length_le_flatten fun g hg => (hlong g hg).1
  have hsum : s.1.flatten.length + s.2.length = children.length := by
    rw [← List.length_append, hvalues]
  rw [if_neg hne]
  refine ⟨by rw [List.flatten_concat, hvalues],fun g hg => ?_,?_⟩
  · obtain hg | hg := List.mem_append.mp hg
    · have := hlong g hg
      exact ⟨List.ne_nil_of_length_pos (by omega),this.2⟩
    · exact List.mem_singleton.mp hg ▸ ⟨hne,hshort⟩
  · rw [List.length_append, List.length_singleton]
    omega

lemma validate_branches {children : List String} (hne : children ≠ [])
    (hs : children.length ≤ pageFanout) (hv : ∀ d ∈ children, validateHash d = .ok ()) :
    (ReferencePage.branches children).validate = .ok () := by
  have hbytes := length_encode_page (.branches children) hne
  have hitems : itemBytes children = children.length*67 := by
    unfold itemBytes
    have : children.map (fun v => byteLength (writeString v) + 1) = children.map fun _ => 67 :=
      List.map_congr_left fun d hd => by rw [(byteLength_hash (hv d hd)).2]
    rw [this]
    simp
  change children.length ≤ 1024 at hs
  refine ReferencePage.validate_eq_ok.mpr ⟨hne,hs,(fun hb => nomatch hb),hv,?_⟩
  change _ ≤ 1024*1024
  change _ ≤ itemBytes children + 32 at hbytes
  omega

section
variable {load : String → Result (List UInt8)}

lemma walk_groups {h : ℕ} {groups : List (List String)} {cs : List (Contents String String)}
    (hw : List.Forall₂ (fun d c => walk (pageOf cr relations load) h d = some c) groups.flatten cs)
    (hp : ∀ g ∈ groups, openPage cr load (pageEntry cr (.branches g)).1 = .ok (.branches g)) :
    ∃ cs', List.Forall₂ (fun d c => walk (pageOf cr relations load) (h+1) d = some c)
        (groups.map fun g => (pageEntry cr (.branches g)).1) cs' ∧
      cs'.flatMap Contents.values = cs.flatMap Contents.values ∧
      (cs'.flatMap Contents.pages).length = (cs.flatMap Contents.pages).length + groups.length := by
  induction groups generalizing cs with
  | nil =>
    obtain rfl := List.forall₂_nil_left_iff.mp hw
    exact ⟨[],.nil,rfl,rfl⟩
  | cons g groups ih =>
    rw [List.flatten_cons, forall₂_append] at hw
    obtain ⟨below,rest,rfl,hbelow,hrest⟩ := hw
    rw [List.forall_mem_cons] at hp
    obtain ⟨cs',hcs,hvalues,hpages⟩ := ih hrest hp.2
    have hwalk := (walk_branch (pageOf_branches relations hp.1)).mpr ⟨below,rfl,hbelow⟩
    refine ⟨_ :: cs',.cons hwalk hcs,?_,?_⟩
    · rw [flatMap_values_branch, List.flatMap_append, List.flatMap_append, hvalues]
    · rw [flatMap_pages_branch, List.length_cons, List.flatMap_append, List.flatMap_append,
        List.length_append, List.length_append, hpages, List.length_cons]
      omega

end

/-- The levels above some pages end in one root, which leads to what these pages lead to. -/
structure Topped (cr : Crates) (relations : Bool) (levels : ℕ) (leaves : List String)
    (root : String) (pages : List (String × List UInt8)) : Prop where
  built : buildLevels cr levels leaves = .ok (some root,pages)
  fewer : pages.length + 1 ≤ leaves.length
  hash : validateHash root = .ok ()
  entries : ∀ e ∈ pages, ∃ page : ReferencePage, page.validate = .ok () ∧ e = pageEntry cr page
  walk : ∀ load h cs, (∀ page, pageEntry cr page ∈ pages →
      openPage cr load (pageEntry cr page).1 = .ok page) →
    List.Forall₂ (fun d c => walk (pageOf cr relations load) h d = some c) leaves cs →
    ∃ c, walk (pageOf cr relations load) (h+levels) root = some c ∧
      c.values = cs.flatMap Contents.values ∧
      c.pages.length = (cs.flatMap Contents.pages).length + pages.length

lemma topped_single (levels : ℕ) {d : String} (hd : validateHash d = .ok ()) :
    Topped cr relations levels [d] d [] := by
  refine ⟨?_,Nat.le_refl 1,hd,List.forall_mem_nil _,fun load h cs _ hw => ?_⟩
  · cases levels <;> simp [buildLevels]
  · obtain ⟨c,rest,hc,hrest,rfl⟩ := List.forall₂_cons_left_iff.mp hw
    obtain rfl := List.forall₂_nil_left_iff.mp hrest
    exact ⟨c,walk_mono hc (Nat.le_add_right_of_le (depth_le hc)),by simp,by simp⟩

variable (cr relations) in
/-- Enough levels lead to a root. -/
theorem exists_topped (hhex : ∀ b, validateHash (cr.sha256 b) = .ok ()) {levels : ℕ}
    {leaves : List String} (hne : leaves ≠ []) (hl : leaves.length ≤ 64^levels)
    (hv : ∀ d ∈ leaves, validateHash d = .ok ()) :
    ∃ root pages, Topped cr relations levels leaves root pages := by
  induction levels generalizing leaves with
  | zero =>
    rw [Nat.pow_zero] at hl
    obtain ⟨d,rfl⟩ := List.length_eq_one_iff.mp
      (Nat.le_antisymm hl (List.length_pos_of_ne_nil hne))
    exact ⟨d,[],topped_single 0 (hv d List.mem_cons_self)⟩
  | succ levels ih =>
    by_cases hone : leaves.length ≤ 1
    · obtain ⟨d,rfl⟩ := List.length_eq_one_iff.mp
        (Nat.le_antisymm hone (List.length_pos_of_ne_nil hne))
      exact ⟨d,[],topped_single _ (hv d List.mem_cons_self)⟩
    · obtain ⟨hflat,hgroups,hcount⟩ := branchGroups_spec cr hne
      generalize hg : branchGroups cr leaves = groups at hflat hgroups hcount
      have hvalid : ∀ g ∈ groups, (ReferencePage.branches g).validate = .ok () := fun g hmem =>
        validate_branches (hgroups g hmem).1 (hgroups g hmem).2 fun d hd =>
          hv d (hflat ▸ List.mem_flatten.mpr ⟨g,hmem,hd⟩)
      have hpublish : groups.mapM (fun children => publishPage cr (.branches children)) =
          .ok (groups.map fun g => pageEntry cr (.branches g)) :=
        mapM_eq_ok.mpr (List.forall₂_map_right_iff.mpr
          (List.forall₂_same.mpr fun g hmem => publishPage_eq (hvalid g hmem)))
      obtain ⟨root,pages,htop⟩ := @ih (groups.map fun g => (pageEntry cr (.branches g)).1)
        (fun hnil => by
          rw [List.map_eq_nil_iff] at hnil
          rw [hnil] at hflat
          exact hne hflat.symm) (by
          rw [Nat.pow_succ] at hl
          rw [List.length_map]
          omega) (fun d hd => by
          obtain ⟨g,-,rfl⟩ := List.mem_map.mp hd
          exact hhex _)
      have hfewer := htop.fewer
      rw [List.length_map] at hfewer
      refine ⟨root,groups.map (fun g => pageEntry cr (.branches g)) ++ pages,?_,?_,htop.hash,?_,?_⟩
      · rw [buildLevels, if_neg hone, hg]
        refine bind_eq_ok.mpr ⟨_,hpublish,bind_eq_ok.mpr ⟨(some root,pages),?_,rfl⟩⟩
        rw [List.map_map]
        exact htop.built
      · rw [List.length_append, List.length_map]
        omega
      · intro e he
        obtain he | he := List.mem_append.mp he
        · obtain ⟨g,hmem,rfl⟩ := List.mem_map.mp he
          exact ⟨_,hvalid g hmem,rfl⟩
        · exact htop.entries e he
      · intro load h cs hopen hw
        rw [← hflat] at hw
        obtain ⟨cs',hw',hvalues,hlength⟩ := walk_groups hw fun g hmem =>
          hopen _ (List.mem_append_left _ (List.mem_map_of_mem hmem))
        obtain ⟨c,hc,hcv,hcp⟩ := htop.walk load (h+1) cs'
          (fun page hp => hopen page (List.mem_append_right _ hp)) hw'
        refine ⟨c,?_,hcv.trans hvalues,?_⟩
        · rwa [Nat.add_assoc, Nat.add_comm 1] at hc
        · rw [hcp, hlength, List.length_append, List.length_map]
          omega

/-! ### The round trip -/

/-- The pages of a built tree, by their hashes. -/
def loadBuilt (objects : List (String × List UInt8)) (digest : String) : Result (List UInt8) :=
  match objects.find? fun e => e.1 = digest with
  | some e => .ok e.2
  | none => .error ⟨"object-not-found"⟩

lemma texts?_strings (values : List String) : (Control.strings values).texts? = some values := by
  change (values.map Control.str).mapM Control.text? = some values
  rw [mapM_eq_some, List.forall₂_map_left_iff]
  exact List.forall₂_same.mpr fun v _ => rfl

theorem ReferencePage.read_toControl (page : ReferencePage) :
    ReferencePage.read page.toControl = some page := by
  cases page <;>
  simp [read, toControl, Control.member?, Control.text?, texts?_strings, memberName, tagged]

lemma openPage_published {texts : Set (List UInt8)} (free : CollisionFree cr texts)
    (hread : ∀ page : ReferencePage, page.toControl.encode ∈ texts →
      (cr.readJson page.toControl.encode).bind Json.strict = some page.toControl)
    {objects : List (String × List UInt8)} (htexts : ∀ e ∈ objects, e.2 ∈ texts)
    (hentries : ∀ e ∈ objects, ∃ page : ReferencePage, page.validate = .ok () ∧
      e = pageEntry cr page)
    {page : ReferencePage} (hmem : pageEntry cr page ∈ objects) :
    openPage cr (loadBuilt objects) (pageEntry cr page).1 = .ok page := by
  have hbytes : loadBuilt objects (pageEntry cr page).1 = .ok page.toControl.encode := by
    unfold loadBuilt
    cases hf : objects.find? fun e => e.1 = (pageEntry cr page).1 with
    | none => exact absurd (List.find?_eq_none.mp hf _ hmem) (by simp)
    | some e =>
      have hdigest : e.1 = (pageEntry cr page).1 := by simpa using List.find?_some hf
      have he := List.mem_of_find?_eq_some hf
      obtain ⟨page',-,rfl⟩ := hentries e he
      exact congrArg Except.ok (free (htexts _ he) (htexts _ hmem) hdigest)
  obtain ⟨page',hv,heq⟩ := hentries _ hmem
  have hpage : page'.toControl.encode = page.toControl.encode := (congrArg Prod.snd heq).symm
  have hv : page.validate = .ok () := by
    have hcontrol := Control.encode_injective hpage
    have : some page' = some page := by
      rw [← ReferencePage.read_toControl page', hcontrol, ReferencePage.read_toControl]
    exact Option.some.inj this ▸ hv
  have hdecode : decodeControl cr ReferencePage.read page.toControl.encode maxMetadataBytes =
      .ok page := by
    have hlen := (ReferencePage.validate_eq_ok.mp hv).bytes
    unfold decodeControl
    rw [if_neg (Nat.not_lt.mpr hlen), hread page (htexts _ hmem)]
    dsimp only
    rw [ReferencePage.read_toControl]
  exact bind_eq_ok.mpr ⟨_,hbytes,bind_eq_ok.mpr ⟨_,require_eq_ok.mpr rfl,
    bind_eq_ok.mpr ⟨_,hdecode,bind_eq_ok.mpr ⟨_,hv,rfl⟩⟩⟩⟩

lemma walk_leaves {load : String → Result (List UInt8)} {groups : List (List String)}
    (hp : ∀ g ∈ groups, openPage cr load (pageEntry cr (leafPage relations g)).1 =
      .ok (leafPage relations g)) :
    ∃ cs, List.Forall₂ (fun d c => walk (pageOf cr relations load) 1 d = some c)
        (groups.map fun g => (pageEntry cr (leafPage relations g)).1) cs ∧
      cs.flatMap Contents.values = groups.flatten ∧
      (cs.flatMap Contents.pages).length = groups.length := by
  induction groups with
  | nil => exact ⟨[],.nil,rfl,rfl⟩
  | cons g groups ih =>
    rw [List.forall_mem_cons] at hp
    obtain ⟨cs,hcs,hvalues,hpages⟩ := ih hp.2
    have hleaf := pageOf_leaf relations hp.1 (by cases relations <;> simp [leafPage])
    rw [isRelations_leafPage, if_pos rfl, values_leafPage] at hleaf
    refine ⟨_ :: cs,.cons ((walk_leaf hleaf).mpr ⟨Nat.one_pos,rfl⟩) hcs,?_,?_⟩
    · rw [List.flatMap_cons, Contents.values_ofLeaf, hvalues, List.flatten_cons]
    · rw [List.flatMap_cons, Contents.pages_ofLeaf, List.length_append, hpages, List.length_cons]
      exact Nat.add_comm ..

/-- A walk over a root is the callback on what the root leads to. -/
theorem visitReferenceTree_eq {load : String → Result (List UInt8)} {root : String}
    {c : Contents String String} (hroot : validateHash root = .ok ())
    (hw : walk (pageOf cr relations load) maxTreeDepth root = some c)
    (ho : c.values.Pairwise (· < ·)) (hc : c.values.length ≤ maxDescriptorReferences)
    (hp : c.pages.length ≤ maxDescriptorReferences) {σ : Type}
    (visit : String → Bool → σ → Result σ) (s : σ) :
    visitReferenceTree cr relations load visit root s = visitAll visit c.visits s := by
  have hadmits : Admits cr relations load [(root,0)] [] 0 none [c] := by
    refine ⟨.cons hw .nil,?_,(fun _ _ hm => nomatch hm),?_,?_,?_⟩
    · simpa using nodup_pages full_of_pageOf hw ho
    · simpa using hp
    · simpa using ho
    · simpa using hc
  unfold visitReferenceTree
  rw [hroot]
  change visitPages cr relations load visit [(root,0)] [] ⟨0,none,s⟩ = _
  rw [visitPages_eq hadmits]
  simp

lemma visitAll_record (visits : List (String ⊕ String)) (log : List String) :
    visitAll (fun v page log => .ok (if page then log else log ++ [v])) visits log =
      .ok (log ++ visits.filterMap Sum.getRight?) := by
  induction visits generalizing log with
  | nil =>
    rw [List.filterMap_nil, List.append_nil]
    rfl
  | cons v visits ih =>
    cases v with
    | inl digest => exact ih log
    | inr value =>
      refine (ih (log ++ [value])).trans ?_
      rw [List.append_assoc]
      rfl

/-- The tree that is built over references in strict order holds them: building it succeeds, its
pages pass their checks, and a walk from its root visits exactly the references as leaves, in their
order, with nothing but the callback to stop it. -/
theorem reference_tree_round_trip {texts : Set (List UInt8)} {values : List String}
    (hhex : ∀ b, validateHash (cr.sha256 b) = .ok ()) (free : CollisionFree cr texts)
    (hread : ∀ page : ReferencePage, page.toControl.encode ∈ texts →
      (cr.readJson page.toControl.encode).bind Json.strict = some page.toControl)
    (htexts : ∀ built, buildReferenceTree cr values relations = .ok built →
      ∀ e ∈ built.2, e.2 ∈ texts)
    (ho : values.Pairwise (· < ·)) (hc : values.length ≤ maxDescriptorReferences)
    (hv : ∀ v ∈ values, ValidReference relations v) :
    ∃ root objects, buildReferenceTree cr values relations = .ok (root,objects) ∧
      (∀ e ∈ objects, ∃ page : ReferencePage, page.validate = .ok () ∧ e = pageEntry cr page) ∧
      (root = none ↔ values = []) ∧
      ∀ digest, root = some digest →
        visitReferenceTree cr relations (loadBuilt objects)
            (fun v page log => .ok (if page then log else log ++ [v])) digest [] = .ok values ∧
        ∃ visits, visits.filterMap Sum.getRight? = values ∧
          ∀ (σ : Type) (visit : String → Bool → σ → Result σ) (s : σ),
            visitReferenceTree cr relations (loadBuilt objects) visit digest s =
              visitAll visit visits s := by
  obtain ⟨groups,hleaves,hflat,hfits,htwo⟩ := buildLeaves_eq_ok cr ho hv
  have hsorted : ¬ (maxDescriptorReferences < values.length || !ascending values) = true := by
    simp [ascending_eq_true.mpr ho, hc]
  by_cases hnil : groups = []
  · subst hnil
    refine ⟨none,[],?_,List.forall_mem_nil _,by simpa using hflat.symm,fun _ h => nomatch h⟩
    unfold buildReferenceTree
    rw [if_neg hsorted]
    exact bind_eq_ok.mpr ⟨_,hleaves,bind_eq_ok.mpr ⟨(none,[]),rfl,rfl⟩⟩
  · have hpos := List.length_pos_of_ne_nil hnil
    change values.length ≤ 1000000 at hc
    obtain ⟨root,pages,htop⟩ := @exists_topped cr relations hhex 7
      (groups.map fun g => (pageEntry cr (leafPage relations g)).1) (by simpa using hnil)
      (by rw [List.length_map]; omega) (fun d hd => by
        obtain ⟨g,-,rfl⟩ := List.mem_map.mp hd
        exact hhex _)
    have hfewer := htop.fewer
    rw [List.length_map] at hfewer
    have hbuilt : buildReferenceTree cr values relations =
        .ok (some root,groups.map (fun g => pageEntry cr (leafPage relations g)) ++ pages) := by
      unfold buildReferenceTree
      rw [if_neg hsorted]
      refine bind_eq_ok.mpr ⟨_,hleaves,bind_eq_ok.mpr ⟨(some root,pages),?_,rfl⟩⟩
      rw [List.map_map]
      exact htop.built
    have hentries : ∀ e ∈ groups.map (fun g => pageEntry cr (leafPage relations g)) ++ pages,
        ∃ page : ReferencePage, page.validate = .ok () ∧ e = pageEntry cr page := by
      intro e he
      obtain he | he := List.mem_append.mp he
      · obtain ⟨g,hg,rfl⟩ := List.mem_map.mp he
        exact ⟨_,(hfits g hg).validate,rfl⟩
      · exact htop.entries e he
    have hopen : ∀ page, pageEntry cr page ∈ _ → _ := fun page =>
      openPage_published free hread (htexts _ hbuilt) hentries
    obtain ⟨cs,hcs,hvalues,hpages⟩ := @walk_leaves cr relations _ groups fun g hg => hopen _ (List.mem_append_left _ (List.mem_map_of_mem hg))
    obtain ⟨c,hw,hcv,hcp⟩ := htop.walk _ 1 cs
      (fun page hp => hopen page (List.mem_append_right _ hp)) hcs
    have hall : c.values = values := by rw [hcv, hvalues, hflat]
    have hvisit := fun {σ : Type} => visitReferenceTree_eq (σ := σ) htop.hash hw (hall ▸ ho)
      (by rw [hall]; exact hc) (by
        change _ ≤ 1000000
        omega)
    refine ⟨some root,_,hbuilt,hentries,?_,?_⟩
    · refine ⟨(fun h => nomatch h),fun h => ?_⟩
      rw [h, List.flatten_eq_nil_iff] at hflat
      exact absurd (hflat _ (List.getLast_mem hnil)) (hfits _ (List.getLast_mem hnil)).nonempty
    · rintro digest ⟨⟩
      refine ⟨?_,c.visits,hall,fun σ => hvisit⟩
      rw [hvisit, visitAll_record, List.nil_append]
      exact congrArg Except.ok hall

end

/-- A page of two relations. -/
def samplePage : ReferencePage := .relations ["a","b"]

def samplePageHash : String := "c6966c03b57b925fa6a2e07c7c5f445e396f814eedfb4f10decc55fc501d06c8"

def pageCrates : Crates :=
  { tabulated [] [] [] with
    sha256 := fun b => if b = samplePage.toControl.encode then samplePageHash else
      "e3b0c44298fc1c149afbf4c8996fb92427ae41e4649b934ca495991b7852b855"
    readJson := fun b => if b = samplePage.toControl.encode then
      some (.obj [("keys",.arr [.str "a",.str "b"]),("kind",.str "relations")]) else none }

/-- Two relations are visited as they were listed. -/
theorem reference_tree_round_trip_sample :
    ∃ root objects, buildReferenceTree pageCrates ["a","b"] true = .ok (some root,objects) ∧
      visitReferenceTree pageCrates true (loadBuilt objects)
        (fun v page log => .ok (if page then log else log ++ [v])) root [] = .ok ["a","b"] := by
  have hbuilt : buildReferenceTree pageCrates ["a","b"] true =
      .ok (some samplePageHash,[(samplePageHash,samplePage.toControl.encode)]) := by decide
  have hpage : ∀ page : ReferencePage,
      page.toControl.encode ∈ ({samplePage.toControl.encode} : Set (List UInt8)) →
        page.toControl = samplePage.toControl :=
    fun page hm => Control.encode_injective hm
  obtain ⟨root,objects,hb,-,-,hv⟩ := @reference_tree_round_trip pageCrates true
    {samplePage.toControl.encode} ["a","b"]
    (fun b => by
      simp only [pageCrates]
      split_ifs <;> decide)
    (fun a ha b hb _ => ha.trans hb.symm)
    (fun page hm => by
      rw [hpage page hm]
      simp only [pageCrates, if_true]
      rfl)
    (fun built h e he => by
      rw [hbuilt] at h
      obtain rfl := Except.ok.inj h
      rw [List.mem_singleton.mp he]
      rfl)
    (by decide) (by decide) (by
      intro v hm
      have : v = "a" ∨ v = "b" := by simpa using hm
      obtain rfl | rfl := this
      · exact ⟨by decide,by decide⟩
      · exact ⟨by decide,by decide⟩)
  rw [hbuilt] at hb
  obtain ⟨rfl,rfl⟩ := Prod.mk.inj (Except.ok.inj hb)
  exact ⟨_,_,hbuilt,(hv _ rfl).1⟩

end RisuNest.Wire
