import RisuNest.Lib.PageTree
import RisuNest.Wire.ReferenceTree

/-! Walking a reference tree (`visit_reference_tree` of `descriptor.rs`). -/
namespace RisuNest.Wire
open PageTree

section
variable (cr : Crates) (load : String → Result (List UInt8))

/-- A page is loaded by its hash and read. -/
def openPage (digest : String) : Result ReferencePage := do
  let bytes ← load digest
  require (hash cr bytes = digest) ⟨"hash-mismatch"⟩
  let page ← decodeControl cr ReferencePage.read bytes maxMetadataBytes
  page.validate
  pure page

end

/-- What the walk carries from leaf to leaf: how many values it visited, the last of them, and the
state of the callback. -/
structure VisitState (σ : Type) where
  count : ℕ
  prior : Option String
  state : σ

section
variable {σ : Type} (cr : Crates) (relations : Bool) (load : String → Result (List UInt8))
  (visit : String → Bool → σ → Result σ)

/-- One value of a leaf. -/
def visitValue (w : VisitState σ) (value : String) : Result (VisitState σ) := do
  require (w.prior.any (fun p => value ≤ p) = false) ⟨"unordered-references"⟩
  require (w.count + 1 ≤ maxDescriptorReferences) ⟨"too-many-references"⟩
  let s ← visit value false w.state
  pure ⟨w.count + 1,some value,s⟩

def visitLeaf (w : VisitState σ) (page : ReferencePage) : Result (VisitState σ) := do
  require (page.isRelations = relations) ⟨"reference-kind-mismatch"⟩
  page.values.foldlM (visitValue visit) w

/-- A page that is popped: it is opened and visited. -/
def visitPage (digest : String) (w : VisitState σ) : Result (ReferencePage × VisitState σ) := do
  let page ← openPage cr load digest
  let s ← visit digest true w.state
  pure (page,{ w with state := s })

/-- The loop of `visit_reference_tree` over the pages still to be visited, each with its depth. -/
def visitPages (pending : List (String × ℕ)) (pages : List String) (w : VisitState σ) : Result σ :=
  match pending with
  | [] => .ok w.state
  | (digest,depth) :: pending =>
    if _h : maxTreeDepth ≤ depth ∨ digest ∈ pages ∨ maxDescriptorReferences < pages.length + 1 then
      .error ⟨"invalid-reference-tree"⟩
    else
      match visitPage cr load visit digest w with
      | .error e => .error e
      | .ok (.branches children,w) =>
        visitPages (children.map (fun child => (child,depth+1)) ++ pending) (digest :: pages) w
      | .ok (leaf,w) =>
        match visitLeaf relations visit w leaf with
        | .error e => .error e
        | .ok w => visitPages pending (digest :: pages) w
  termination_by maxDescriptorReferences + 1 - pages.length
  decreasing_by
    all_goals
      rw [List.length_cons]
      omega

def visitReferenceTree (root : String) (s : σ) : Result σ := do
  validateHash root
  visitPages cr relations load visit [(root,0)] [] ⟨0,none,s⟩

end

/-! ### What the walk does -/

section
variable {σ : Type} {cr : Crates} {relations : Bool} {load : String → Result (List UInt8)}
  {visit : String → Bool → σ → Result σ}

variable (cr relations load) in
/-- A page as the walk takes it: leaves of the other kind do not count. -/
def pageOf (digest : String) : Option (Page String String) :=
  match openPage cr load digest with
  | .error _ => none
  | .ok (.branches children) => some (.branch children)
  | .ok leaf => if leaf.isRelations = relations then some (.leaf leaf.values) else none

/-- The callback on what a walk meets. -/
def visitAll (visit : String → Bool → σ → Result σ) (visits : List (String ⊕ String)) (s : σ) :
    Result σ :=
  visits.foldlM (fun s v => v.elim (fun digest => visit digest true s)
    fun value => visit value false s) s

lemma visitAll_append (a b : List (String ⊕ String)) (s : σ) :
    visitAll visit (a ++ b) s = visitAll visit a s >>= visitAll visit b := List.foldlM_append

lemma visitValues_eq {values : List String} {w : VisitState σ}
    (hs : (w.prior.toList ++ values).Pairwise (· < ·))
    (hc : w.count + values.length ≤ maxDescriptorReferences) :
    values.foldlM (visitValue visit) w = (visitAll visit (values.map .inr) w.state).map fun s =>
      ⟨w.count + values.length,values.getLast?.or w.prior,s⟩ := by
  induction values generalizing w with
  | nil => rfl
  | cons value values ih =>
    obtain ⟨count,prior,s⟩ := w
    change count + (values.length + 1) ≤ _ at hc
    have horder : prior.any (fun p => value ≤ p) = false := by
      cases prior with
      | none => rfl
      | some p => simpa using (List.pairwise_cons.mp hs).1 value List.mem_cons_self
    have hrest : ((some value).toList ++ values).Pairwise (· < ·) :=
      hs.sublist (List.sublist_append_right ..)
    have hcount : count + 1 ≤ maxDescriptorReferences := by omega
    rw [List.foldlM_cons, List.map_cons, visitAll, List.foldlM_cons]
    simp only [visitValue, horder, hcount, require, if_true, Sum.elim_inr]
    cases hv : visit value false s with
    | error e => rfl
    | ok t =>
      change values.foldlM (visitValue visit) ⟨count + 1,some value,t⟩ =
        (visitAll visit (values.map .inr) t).map _
      rw [ih hrest (by change count + 1 + _ ≤ _; omega)]
      congr 1
      funext u
      rw [List.length_cons, List.getLast?_cons]
      cases values.getLast? <;> simp [Nat.add_assoc, Nat.add_comm 1]

lemma openPage_validate {digest : String} {page : ReferencePage}
    (h : openPage cr load digest = .ok page) : page.validate = .ok () := by
  obtain ⟨_,-,h⟩ := bind_eq_ok.mp h
  obtain ⟨_,-,h⟩ := bind_eq_ok.mp h
  obtain ⟨_,-,h⟩ := bind_eq_ok.mp h
  obtain ⟨_,hv,h⟩ := bind_eq_ok.mp h
  cases h
  exact hv

variable (relations) in
lemma pageOf_branches {digest : String} {children : List String}
    (h : openPage cr load digest = .ok (.branches children)) :
    pageOf cr relations load digest = some (.branch children) := by
  simp only [pageOf, h]

variable (relations) in
lemma pageOf_leaf {digest : String} {leaf : ReferencePage} (h : openPage cr load digest = .ok leaf)
    (hb : ∀ children, leaf ≠ .branches children) :
    pageOf cr relations load digest =
      if leaf.isRelations = relations then some (.leaf leaf.values) else none := by
  cases leaf with
  | branches children => exact absurd rfl (hb children)
  | objects hashes => simp only [pageOf, h]
  | relations keys => simp only [pageOf, h]

lemma exists_open {digest : String} {p : Page String String}
    (h : pageOf cr relations load digest = some p) : ∃ page, openPage cr load digest = .ok page := by
  unfold pageOf at h
  cases ho : openPage cr load digest with
  | error e =>
    rw [ho] at h
    cases h
  | ok page => exact ⟨page,rfl⟩

lemma leaf_of_open {digest : String} {leaf : ReferencePage}
    (h : ∃ p, pageOf cr relations load digest = some p) (ho : openPage cr load digest = .ok leaf)
    (hb : ∀ children, leaf ≠ .branches children) :
    leaf.isRelations = relations ∧
      pageOf cr relations load digest = some (.leaf leaf.values) := by
  obtain ⟨p,hp⟩ := h
  have hleaf := pageOf_leaf relations ho hb
  split_ifs at hleaf with hk
  · exact ⟨hk,hleaf⟩
  · rw [hleaf] at hp
    cases hp

/-- What the pages that are still to be visited lead to, when the walk goes through. -/
structure Admits (cr : Crates) (relations : Bool) (load : String → Result (List UInt8))
    (pending : List (String × ℕ)) (pages : List String) (count : ℕ) (prior : Option String)
    (below : List (Contents String String)) : Prop where
  walked : List.Forall₂ (fun e c => walk (pageOf cr relations load) (maxTreeDepth - e.2) e.1 =
    some c) pending below
  nodup : (below.flatMap Contents.pages).Nodup
  fresh : ∀ d ∈ below.flatMap Contents.pages, d ∉ pages
  few : (below.flatMap Contents.pages).length + pages.length ≤ maxDescriptorReferences
  sorted : (prior.toList ++ below.flatMap Contents.values).Pairwise (· < ·)
  counted : count + (below.flatMap Contents.values).length ≤ maxDescriptorReferences

section
variable {digest : String} {depth count : ℕ} {pending : List (String × ℕ)} {pages : List String}
  {prior : Option String} {below : List (Contents String String)}

lemma Admits.open
    (h : Admits cr relations load ((digest,depth) :: pending) pages count prior below) :
    ¬ (maxTreeDepth ≤ depth ∨ digest ∈ pages ∨ maxDescriptorReferences < pages.length + 1) ∧
      (∃ p, pageOf cr relations load digest = some p) ∧
      ∃ visits, below.flatMap Contents.visits = .inl digest :: visits := by
  obtain ⟨c,rest,hc,-,rfl⟩ := List.forall₂_cons_left_iff.mp h.walked
  obtain ⟨m,p,visits,hm,hp,hv⟩ := exists_page hc
  have hmem : digest ∈ (c :: rest).flatMap Contents.pages := by
    refine List.mem_flatMap.mpr ⟨c,List.mem_cons_self,?_⟩
    rw [Contents.pages, hv]
    exact List.mem_cons_self
  have hfew := h.few
  have hpos := List.length_pos_of_mem hmem
  refine ⟨?_,⟨p,hp⟩,by rw [List.flatMap_cons, hv]; exact ⟨_,rfl⟩⟩
  rintro (hd | hd | hd)
  · change maxTreeDepth - depth = m + 1 at hm
    omega
  · exact h.fresh _ hmem hd
  · omega

lemma flatMap_pages_branch (bs rest : List (Contents String String)) :
    (Contents.ofBranch digest bs :: rest).flatMap Contents.pages =
      digest :: (bs ++ rest).flatMap Contents.pages := by simp

lemma flatMap_values_branch (bs rest : List (Contents String String)) :
    (Contents.ofBranch digest bs :: rest).flatMap Contents.values =
      (bs ++ rest).flatMap Contents.values := by simp

lemma Admits.children {children : List String}
    (h : Admits cr relations load ((digest,depth) :: pending) pages count prior below)
    (hp : pageOf cr relations load digest = some (.branch children)) :
    ∃ bs rest, below = .ofBranch digest bs :: rest ∧
      Admits cr relations load (children.map (fun child => (child,depth+1)) ++ pending)
        (digest :: pages) count prior (bs ++ rest) := by
  obtain ⟨hopen,-,-⟩ := h.open
  obtain ⟨n,hdepth⟩ : ∃ n, maxTreeDepth - depth = n + 1 := ⟨maxTreeDepth - depth - 1,by omega⟩
  have hnext : maxTreeDepth - (depth + 1) = n := by omega
  obtain ⟨c,rest,hc,hrest,rfl⟩ := List.forall₂_cons_left_iff.mp h.walked
  rw [hdepth, walk_branch hp] at hc
  obtain ⟨bs,rfl,hbs⟩ := hc
  obtain ⟨-,hnodup,hfresh,hfew,hsorted,hcount⟩ := h
  rw [flatMap_pages_branch] at hnodup hfresh hfew
  rw [flatMap_values_branch] at hsorted hcount
  rw [List.nodup_cons] at hnodup
  refine ⟨bs,rest,rfl,forall₂_append.mpr ⟨_,_,rfl,?_,hrest⟩,hnodup.2,fun d hd hm => ?_,?_,hsorted,
    hcount⟩
  · rw [List.forall₂_map_left_iff]
    change List.Forall₂ (fun e c => walk _ (maxTreeDepth - (depth + 1)) e = some c) _ _
    rwa [hnext]
  · obtain rfl | hm := List.mem_cons.mp hm
    · exact hnodup.1 hd
    · exact hfresh d (List.mem_cons_of_mem _ hd) hm
  · rw [List.length_cons] at hfew ⊢
    omega

lemma getLast?_prior (prior : Option String) (values : List String) :
    (prior.toList ++ values).getLast? = values.getLast?.or prior := by
  cases prior <;> simp [List.getLast?_cons]

lemma Admits.rest {values : List String}
    (h : Admits cr relations load ((digest,depth) :: pending) pages count prior below)
    (hp : pageOf cr relations load digest = some (.leaf values)) :
    ∃ rest, below = .ofLeaf digest values :: rest ∧
      (prior.toList ++ values).Pairwise (· < ·) ∧
      Admits cr relations load pending (digest :: pages) (count + values.length)
        (values.getLast?.or prior) rest := by
  obtain ⟨c,rest,hc,hrest,rfl⟩ := List.forall₂_cons_left_iff.mp h.walked
  obtain ⟨-,rfl⟩ := (walk_leaf hp).mp hc
  obtain ⟨-,hnodup,hfresh,hfew,hsorted,hcount⟩ := h
  simp only [List.flatMap_cons, Contents.pages_ofLeaf, Contents.values_ofLeaf,
    List.singleton_append, List.nodup_cons, List.length_cons, List.length_append,
    List.forall_mem_cons] at hnodup hfresh hfew hsorted hcount
  rw [← List.append_assoc, pairwise_append_getLast, getLast?_prior] at hsorted
  refine ⟨rest,rfl,hsorted.1,hrest,hnodup.2,fun d hd hm => ?_,?_,hsorted.2,by omega⟩
  · obtain rfl | hm := List.mem_cons.mp hm
    · exact hnodup.1 hd
    · exact hfresh.2 d hd hm
  · rw [List.length_cons]
    omega

end

lemma flatMap_visits_branch (digest : String) (bs rest : List (Contents String String)) :
    (Contents.ofBranch digest bs :: rest).flatMap Contents.visits =
      .inl digest :: (bs ++ rest).flatMap Contents.visits := by
  simp [Contents.ofBranch]

lemma flatMap_visits_leaf (digest : String) (values : List String)
    (rest : List (Contents String String)) :
    (Contents.ofLeaf digest values :: rest).flatMap Contents.visits =
      .inl digest :: (values.map .inr ++ rest.flatMap Contents.visits) := by
  simp [Contents.ofLeaf]

lemma visitPage_of_open {digest : String} {w : VisitState σ} {page : ReferencePage}
    (h : openPage cr load digest = .ok page) :
    visitPage cr load visit digest w =
      (visit digest true w.state).map fun s => (page,{ w with state := s }) := by
  simp only [visitPage, h]
  rfl

lemma visitPage_eq_ok {digest : String} {w w' : VisitState σ} {page : ReferencePage}
    (h : visitPage cr load visit digest w = .ok (page,w')) :
    openPage cr load digest = .ok page ∧ ∃ s, visit digest true w.state = .ok s ∧
      w' = { w with state := s } := by
  obtain ⟨found,hf,h⟩ := bind_eq_ok.mp h
  obtain ⟨s,hs,h⟩ := bind_eq_ok.mp h
  cases h
  exact ⟨hf,s,hs,rfl⟩

lemma visitLeaf_eq {leaf : ReferencePage} {count : ℕ} {prior : Option String} {s : σ}
    (hk : leaf.isRelations = relations) (hs : (prior.toList ++ leaf.values).Pairwise (· < ·))
    (hc : count + leaf.values.length ≤ maxDescriptorReferences) :
    visitLeaf relations visit ⟨count,prior,s⟩ leaf =
      (visitAll visit (leaf.values.map .inr) s).map fun t =>
        ⟨count + leaf.values.length,leaf.values.getLast?.or prior,t⟩ := by
  have hvalues := @visitValues_eq σ visit leaf.values ⟨count,prior,s⟩ hs hc
  rw [← hvalues]
  simp only [visitLeaf, require, if_pos hk]
  rfl

/-- The walk visits what it is admitted to, and nothing stops it but the callback. -/
theorem visitPages_eq {pending : List (String × ℕ)} {pages : List String} {w : VisitState σ}
    {below : List (Contents String String)}
    (h : Admits cr relations load pending pages w.count w.prior below) :
    visitPages cr relations load visit pending pages w =
      visitAll visit (below.flatMap Contents.visits) w.state := by
  fun_induction visitPages cr relations load visit pending pages w generalizing below with
  | case1 pages w =>
    obtain rfl := List.forall₂_nil_left_iff.mp h.walked
    rfl
  | case2 pages w digest depth pending hstop => exact absurd hstop h.open.1
  | case3 pages w digest depth pending _ e he =>
    obtain ⟨-,⟨p,hp⟩,visits,hvisits⟩ := h.open
    obtain ⟨page,hpage⟩ := exists_open hp
    rw [visitPage_of_open hpage] at he
    rw [hvisits, visitAll, List.foldlM_cons]
    change _ = visit digest true w.state >>= _
    cases hv : visit digest true w.state with
    | ok s =>
      rw [hv] at he
      cases he
    | error e' =>
      rw [hv] at he
      cases he
      rfl
  | case4 pages w digest depth pending _ children w' hv ih =>
    obtain ⟨hpage,s,hs,rfl⟩ := visitPage_eq_ok hv
    obtain ⟨bs,rest,rfl,hnext⟩ := h.children (pageOf_branches relations hpage)
    rw [ih hnext, flatMap_visits_branch, visitAll, visitAll, List.foldlM_cons]
    change _ = visit digest true w.state >>= _
    rw [hs]
    rfl
  | case5 pages w digest depth pending _ leaf w' hb hv e he =>
    obtain ⟨hpage,s,hs,rfl⟩ := visitPage_eq_ok hv
    obtain ⟨hk,hp⟩ := leaf_of_open h.open.2.1 hpage hb
    obtain ⟨rest,rfl,hsorted,hnext⟩ := h.rest hp
    rw [visitLeaf_eq hk hsorted (Nat.le_of_add_right_le hnext.counted)] at he
    rw [flatMap_visits_leaf, visitAll, List.foldlM_cons]
    change _ = visit digest true w.state >>= visitAll visit _
    rw [hs]
    change _ = visitAll visit _ s
    rw [visitAll_append]
    cases hl : visitAll visit (leaf.values.map .inr) s with
    | ok t =>
      rw [hl] at he
      cases he
    | error e' =>
      rw [hl] at he
      cases he
      rfl
  | case6 pages w digest depth pending _ leaf w' hb hv w'' he ih =>
    obtain ⟨hpage,s,hs,rfl⟩ := visitPage_eq_ok hv
    obtain ⟨hk,hp⟩ := leaf_of_open h.open.2.1 hpage hb
    obtain ⟨rest,rfl,hsorted,hnext⟩ := h.rest hp
    rw [visitLeaf_eq hk hsorted (Nat.le_of_add_right_le hnext.counted)] at he
    rw [flatMap_visits_leaf, visitAll, List.foldlM_cons]
    change _ = visit digest true w.state >>= visitAll visit _
    rw [hs]
    change _ = visitAll visit _ s
    rw [visitAll_append]
    cases hl : visitAll visit (leaf.values.map .inr) s with
    | ok t =>
      rw [hl] at he
      obtain rfl := Except.ok.inj he
      exact ih hnext
    | error e' =>
      rw [hl] at he
      cases he

end
end RisuNest.Wire
