import RisuNest.External.Cleanup
import RisuNest.Lib.Sweep

/-! The order of a cleanup: native bodies go first, and what leads to an object goes before it. -/
namespace RisuNest.External
open Wire

/-! ### The keys that are not reachable -/

namespace MarkRequest.Surveyed
variable (s : Surveyed)

/-- The keys of the last loop. -/
def inactive : List String :=
  (s.candidates.nodes.rows.map Prod.fst).filter fun key => key ∉ s.reachable

/-- The keys this device may remove. -/
def managed : List String := unreachableOf s.reachable s.authorized s.candidates

/-- One inactive key names another. -/
def Parent (a b : String) : Prop :=
  a ∈ s.inactive ∧ b ∈ s.inactive ∧ b ∈ s.candidates.childrenOf a

/-- An inactive key leads to another through inactive ones. -/
def Ancestor : String → String → Prop := Relation.TransGen s.Parent

end MarkRequest.Surveyed

/-- A key has the object it is the key of. -/
def Graph.Keyed (g : Graph) : Prop := ∀ k n, g.nodes.get k = some n → keyOf n.object = k

section
variable {cr : Crates} {source : DocumentSource} {repository : RepositoryHandle}
  {formatRepositoryId : String} {tolerateMissing : Bool}

lemma keyed_empty : Graph.empty.Keyed := by
  intro k n h
  cases h

lemma Graph.Keyed.record {g : Graph} (h : g.Keyed) (o : RemoteObject) (identity : String)
    (found : Option (List RemoteObject)) : (g.record o identity found).Keyed := by
  cases found with
  | none => exact h
  | some children =>
    intro k n hn
    change (g.nodes.upsert (keyOf o) _).get k = some n at hn
    rw [Table.get_upsert] at hn
    split_ifs at hn with hk
    · cases hn
      exact hk.symm
    · exact h k n hn

lemma keyed_of_walkFrom {fuel : ℕ} {objects : List RemoteObject} {s t : Graph × Memo}
    (hs : s.1.Keyed) (h : walkFrom cr source repository formatRepositoryId tolerateMissing fuel
      objects s = .ok t) : t.1.Keyed := by
  induction fuel generalizing objects s with
  | zero =>
    cases objects with
    | nil =>
      cases h
      exact hs
    | cons o pending => cases h
  | succ fuel ih =>
    cases objects with
    | nil =>
      cases h
      exact hs
    | cons o pending =>
      obtain ⟨identity, -, h⟩ := bind_eq_ok.mp h
      cases hi : s.1.identities.get (keyOf o) with
      | some previous =>
        rw [hi] at h
        obtain ⟨_, -, h⟩ := bind_eq_ok.mp h
        exact ih hs h
      | none =>
        rw [hi] at h
        obtain ⟨visited, -, h⟩ := bind_eq_ok.mp h
        obtain ⟨_, -, h⟩ := bind_eq_ok.mp h
        exact ih (hs.record o identity visited.1) h

lemma keyed_of_walk {fuel : ℕ} {objects : List RemoteObject} {memo : Memo} {t : Graph × Memo}
    (h : walk cr source repository formatRepositoryId fuel objects tolerateMissing memo = .ok t) :
    t.1.Keyed := by
  obtain ⟨walked, hw, h⟩ := bind_eq_ok.mp h
  obtain ⟨_, -, h⟩ := bind_eq_ok.mp h
  cases h
  exact keyed_of_walkFrom keyed_empty hw

end

namespace MarkRequest
variable {cr : Crates} {source : DocumentSource} {request : MarkRequest}

lemma keyed_attachBundles {g : Graph} (h : g.Keyed) : (request.attachBundles g).Keyed := by
  intro k n hn
  have ho := @attachBundles_nodes request g k
  rw [hn] at ho
  obtain ⟨m, hm, hobject⟩ := Option.map_eq_some_iff.mp ho.symm
  rw [← hobject]
  exact h k m hm

lemma keyed_of_survey {fuel : ℕ} {s : Surveyed} (h : request.survey cr source fuel = .ok s) :
    s.candidates.Keyed := by
  unfold survey at h
  obtain ⟨listed, -, h⟩ := bind_eq_ok.mp h
  obtain ⟨known, -, h⟩ := bind_eq_ok.mp h
  obtain ⟨objects, -, h⟩ := bind_eq_ok.mp h
  obtain ⟨live, -, h⟩ := bind_eq_ok.mp h
  obtain ⟨reachable, -, h⟩ := bind_eq_ok.mp h
  obtain ⟨expired, hexpired, h⟩ := bind_eq_ok.mp h
  obtain ⟨_, -, h⟩ := bind_eq_ok.mp h
  obtain ⟨candidates, hcandidates, h⟩ := bind_eq_ok.mp h
  obtain ⟨merged, hmerged, h⟩ := bind_eq_ok.mp h
  obtain ⟨_, -, h⟩ := bind_eq_ok.mp h
  cases h
  intro k n hn
  rcases (merge_eq_ok_graph hmerged).nodes k n hn with hn | hn
  · exact keyed_attachBundles (keyed_of_walk hcandidates) k n hn
  · exact keyed_attachBundles (keyed_of_walk hexpired) k n hn

/-! ### The last loop -/

lemma nodup_insertKey {k : String} {keys : List String} (h : keys.Nodup) :
    (insertKey k keys).Nodup := by
  unfold insertKey
  split_ifs with hk
  · exact h
  · exact (List.perm_orderedInsert _ k keys).nodup_iff.mpr (List.nodup_cons.mpr ⟨hk,h⟩)

/-- What a key of the last loop does to its children. -/
structure Delayed (delays : Bool) (children : List String) (c c' : Collection) : Prop where
  incoming : ∀ k, c'.incoming.get k = (c.incoming.get k).map (· - children.count k)
  enough : ∀ k n, c.incoming.get k = some n → children.count k ≤ n
  ready : ∀ k, k ∈ c'.ready ↔
    k ∈ c.ready ∨ ∃ n, c.incoming.get k = some n ∧ n ≠ 0 ∧ n = children.count k
  nodup : c.ready.Nodup → c'.ready.Nodup
  blocked : ∀ k, k ∈ c'.blocked ↔
    k ∈ c.blocked ∨ delays = true ∧ k ∈ children ∧ (c.incoming.get k).isSome
  eligible : c'.eligible = c.eligible

lemma Delayed.cons_skip {delays : Bool} {child : String} {children : List String}
    {c c' : Collection} (hn : c.incoming.get child = none) (h : Delayed delays children c c') :
    Delayed delays (child :: children) c c' := by
  have hcount : ∀ k n, c.incoming.get k = some n →
      (child :: children).count k = children.count k := by
    intro k n hk
    apply List.count_cons_of_ne
    rintro rfl
    rw [hn] at hk
    cases hk
  refine ⟨fun k => ?_,fun k n hk => ?_,fun k => ?_,h.nodup,fun k => ?_,h.eligible⟩
  · rw [h.incoming]
    cases hk : c.incoming.get k with
    | none => rfl
    | some n => rw [Option.map_some, Option.map_some, hcount k n hk]
  · rw [hcount k n hk]
    exact h.enough k n hk
  · rw [h.ready]
    refine or_congr Iff.rfl (exists_congr fun n => and_congr_right fun hk => ?_)
    rw [hcount k n hk]
  · rw [h.blocked]
    refine or_congr Iff.rfl (and_congr_right fun _ => ?_)
    constructor
    · exact fun ⟨hk, hsome⟩ => ⟨List.mem_cons_of_mem _ hk,hsome⟩
    · rintro ⟨hk, hsome⟩
      refine ⟨(List.mem_cons.mp hk).resolve_left ?_,hsome⟩
      rintro rfl
      rw [hn] at hsome
      cases hsome

lemma Delayed.cons {delays : Bool} {child : String} {children : List String}
    {c c' : Collection} {n : ℕ} (hn : c.incoming.get child = some n) (hne : n ≠ 0)
    (h : Delayed delays children { c with
      incoming := c.incoming.upsert child (n-1)
      ready := if n = 1 then insertKey child c.ready else c.ready
      blocked := if delays then insertKey child c.blocked else c.blocked } c') :
    Delayed delays (child :: children) c c' := by
  have hget : ∀ k, (c.incoming.upsert child (n-1)).get k =
      if k = child then some (n-1) else c.incoming.get k := fun k => Table.get_upsert ..
  have hchild := h.enough child (n-1) (by rw [hget, if_pos rfl])
  refine ⟨fun k => ?_,fun k m hk => ?_,fun k => ?_,fun hready => ?_,fun k => ?_,h.eligible⟩
  · rw [h.incoming, hget]
    by_cases hk : k = child
    · subst hk
      rw [if_pos rfl, hn, Option.map_some, Option.map_some, List.count_cons_self]
      congr 1
      omega
    · rw [if_neg hk, List.count_cons_of_ne (Ne.symm hk)]
  · by_cases hkc : k = child
    · subst hkc
      rw [hn] at hk
      cases hk
      rw [List.count_cons_self]
      omega
    · rw [List.count_cons_of_ne (Ne.symm hkc)]
      refine h.enough k m ?_
      rw [hget, if_neg hkc, hk]
  · rw [h.ready, hget]
    dsimp only
    by_cases hk : k = child
    · subst hk
      rw [if_pos rfl, hn, List.count_cons_self]
      simp only [Option.some.injEq, exists_eq_left']
      split_ifs with h1
      · rw [mem_insertKey]
        simp only [true_or, true_iff]
        right
        omega
      · refine or_congr Iff.rfl ?_
        omega
    · rw [if_neg hk, List.count_cons_of_ne (Ne.symm hk)]
      split_ifs with h1
      · rw [mem_insertKey, or_iff_right hk]
      · rfl
  · apply h.nodup
    dsimp only
    split_ifs
    · exact nodup_insertKey hready
    · exact hready
  · rw [h.blocked, hget]
    dsimp only
    by_cases hk : k = child
    · subst hk
      rw [if_pos rfl, hn]
      cases delays <;> simp [mem_insertKey]
    · rw [if_neg hk]
      cases delays <;> simp [mem_insertKey, hk]

lemma delayed_of_foldlM {delays : Bool} {children : List String} {c c' : Collection}
    (h : children.foldlM (delayChild delays) c = .ok c') : Delayed delays children c c' := by
  induction children generalizing c with
  | nil =>
    cases h
    refine ⟨fun k => ?_,fun _ _ _ => Nat.zero_le _,fun k => ?_,id,fun k => ?_,rfl⟩
    · cases c'.incoming.get k <;> rfl
    · simp
    · simp
  | cons child children ih =>
    obtain ⟨d, hd, h⟩ := foldlM_cons_eq_ok.mp h
    unfold delayChild at hd
    cases hn : c.incoming.get child with
    | none =>
      rw [hn] at hd
      cases hd
      exact .cons_skip hn (ih h)
    | some n =>
      rw [hn] at hd
      obtain ⟨_, hne, hd⟩ := bind_eq_ok.mp hd
      cases hd
      exact .cons hn (require_eq_ok.mp hne) (ih h)

/-- The number of edges into a key from some keys. -/
def edgesFrom (g : Graph) (keys : List String) (key : String) : ℕ :=
  (keys.map fun a => (g.childrenOf a).count key).sum

/-- Whether a key goes, when no younger ancestor delays it. -/
def mayGo (request : MarkRequest) (s : Surveyed) (observed : Table String ℕ)
    (blocked : List String) (key : String) : Bool :=
  decide (key ∈ s.managed) && request.oldEnough observed key && !decide (key ∈ blocked)

/-- The objects of some keys. -/
def objectsOf (g : Graph) (keys : List String) : List RemoteObject :=
  keys.filterMap fun key => (g.nodes.get key).map Node.object

/-- The last loop after some keys: each came after the inactive keys that name it, a count is what is
left of the edges into a key, and what a younger ancestor delays is blocked. -/
structure Collecting (request : MarkRequest) (s : Surveyed) (observed : Table String ℕ)
    (done : List String) (c : Collection) : Prop where
  sweep : Sweep s.Parent done
  inactive : done ⊆ s.inactive
  counts : ∀ k ∈ s.inactive, ∃ n, c.incoming.get k = some n ∧
    n + edgesFrom s.candidates done k = edgesFrom s.candidates s.inactive k
  counted : ∀ k n, c.incoming.get k = some n → k ∈ s.inactive
  ready : ∀ k, k ∈ c.ready ↔ k ∉ done ∧ c.incoming.get k = some 0
  nodup : c.ready.Nodup
  delays : ∀ a ∈ done, a ∈ c.blocked ∨ a ∈ s.managed ∧ request.oldEnough observed a = false →
    ∀ b, s.Parent a b → b ∈ c.blocked
  eligible : c.eligible =
    objectsOf s.candidates (done.filter (mayGo request s observed c.blocked))

section
variable {s : Surveyed} {observed : Table String ℕ} {done : List String} {c : Collection}

lemma Collecting.parents_done (h : Collecting request s observed done c) {k : String}
    (hk : c.incoming.get k = some 0) {a : String} (ha : s.Parent a k) : a ∈ done := by
  obtain ⟨n, hn, hsum⟩ := h.counts k (h.counted k 0 hk)
  rw [hk] at hn
  obtain rfl := Option.some.inj hn
  rw [Nat.zero_add] at hsum
  apply mem_of_sum_eq h.sweep.nodup h.inactive hsum ha.1
  exact (List.count_pos_iff.mpr ha.2.2).ne'

lemma Collecting.step (h : Collecting request s observed done c) {key : String}
    {rest : List String} (hready : c.ready = key :: rest) {node : Node}
    (hnode : s.candidates.nodes.get key = some node) {c' : Collection}
    (hc : Delayed (decide (key ∈ c.blocked) || decide (key ∈ s.managed) &&
        !request.oldEnough observed key) node.children
      (collectNode { c with ready := rest } (mayGo request s observed c.blocked key) node) c') :
    Collecting request s observed (done ++ [key]) c' := by
  have hmem : key ∈ c.ready := by
    rw [hready]
    exact List.mem_cons_self
  obtain ⟨hfresh, hzero⟩ := (h.ready key).mp hmem
  have hinactive := h.counted key 0 hzero
  have hchildren : s.candidates.childrenOf key = node.children := by
    unfold Graph.childrenOf
    rw [hnode]
    rfl
  have hnodup := h.nodup
  rw [hready, List.nodup_cons] at hnodup
  have hsweep : Sweep s.Parent (done ++ [key]) :=
    h.sweep.snoc hfresh fun a ha => h.parents_done hzero ha
  -- a child of this key is neither done nor the key itself
  have hlater : ∀ k ∈ s.inactive, k ∈ node.children → k ∉ done ++ [key] := by
    intro k hk hchild hdone
    have hparent : s.Parent key k := ⟨hinactive,hk,hchildren ▸ hchild⟩
    rcases List.mem_append.mp hdone with hdone | hdone
    · exact hfresh (h.sweep.closed hdone hparent)
    · obtain rfl := List.mem_singleton.mp hdone
      exact hfresh (h.parents_done hzero hparent)
  have hblocked : ∀ k ∈ done ++ [key], (k ∈ c'.blocked ↔ k ∈ c.blocked) := by
    intro k hk
    rw [hc.blocked]
    apply or_iff_left
    rintro ⟨-, hchild, hsome⟩
    obtain ⟨n, hn⟩ := Option.isSome_iff_exists.mp hsome
    exact hlater k (h.counted k n hn) hchild hk
  have hedges : ∀ k, edgesFrom s.candidates (done ++ [key]) k =
      edgesFrom s.candidates done k + node.children.count k := by
    intro k
    simp [edgesFrom, hchildren]
  refine ⟨hsweep,?_,?_,?_,?_,hc.nodup hnodup.2,?_,?_⟩
  · exact List.append_subset.mpr ⟨h.inactive,fun k hk => List.mem_singleton.mp hk ▸ hinactive⟩
  · intro k hk
    obtain ⟨n, hn, hsum⟩ := h.counts k hk
    have hle := hc.enough k n hn
    refine ⟨n - node.children.count k,?_,?_⟩
    · rw [hc.incoming]
      change Option.map _ (c.incoming.get k) = _
      rw [hn]
      rfl
    · rw [hedges]
      omega
  · intro k n hn
    rw [hc.incoming] at hn
    obtain ⟨m, hm, -⟩ := Option.map_eq_some_iff.mp hn
    exact h.counted k m hm
  · intro k
    have hrest : k ∈ rest ↔ k ≠ key ∧ k ∉ done ∧ c.incoming.get k = some 0 := by
      rw [← h.ready, hready, List.mem_cons]
      constructor
      · exact fun hk => ⟨fun he => hnodup.1 (he ▸ hk),.inr hk⟩
      · exact fun ⟨hne, hk⟩ => hk.resolve_left hne
    rw [hc.ready, hc.incoming]
    change (k ∈ rest ∨ ∃ n, c.incoming.get k = some n ∧ n ≠ 0 ∧ n = node.children.count k) ↔
      k ∉ done ++ [key] ∧ (c.incoming.get k).map (· - node.children.count k) = some 0
    constructor
    · rintro (hk | ⟨n, hn, hne, hcount⟩)
      · obtain ⟨hne, hnot, hget⟩ := hrest.mp hk
        rw [hget]
        simp [hne, hnot]
      · have hchild : k ∈ node.children := by
          rw [← List.count_pos_iff]
          omega
        refine ⟨hlater k (h.counted k n hn) hchild,?_⟩
        rw [hn, Option.map_some, hcount, Nat.sub_self]
    · rintro ⟨hk, hget⟩
      obtain ⟨n, hn, hsub⟩ := Option.map_eq_some_iff.mp hget
      have hle := hc.enough k n hn
      by_cases hzero : n = 0
      · rw [List.mem_append, List.mem_singleton, not_or] at hk
        exact .inl (hrest.mpr ⟨hk.2,hk.1,hzero ▸ hn⟩)
      · exact .inr ⟨n,hn,hzero,by omega⟩
  · intro a ha hdelay b hparent
    rw [hblocked a ha] at hdelay
    rw [hc.blocked]
    rcases List.mem_append.mp ha with ha | ha
    · exact .inl (h.delays a ha hdelay b hparent)
    · obtain rfl := List.mem_singleton.mp ha
      right
      refine ⟨?_,hchildren ▸ hparent.2.2,?_⟩
      · simpa using hdelay
      · obtain ⟨n, hn, -⟩ := h.counts b hparent.2.1
        exact Option.isSome_iff_exists.mpr ⟨n,hn⟩
  · have hfilter : (done ++ [key]).filter (mayGo request s observed c'.blocked) =
        (done ++ [key]).filter (mayGo request s observed c.blocked) := by
      apply List.filter_congr
      intro k hk
      unfold mayGo
      rw [decide_eq_decide.mpr (hblocked k hk)]
    rw [hc.eligible, hfilter, List.filter_append, objectsOf, List.filterMap_append, ← objectsOf,
      ← h.eligible]
    cases hgo : mayGo request s observed c.blocked key with
    | true => simp [collectNode, hgo, hnode]
    | false => simp [collectNode, hgo]

lemma Collecting.run (h : Collecting request s observed done c) {fuel : ℕ} {c' : Collection}
    (hc : request.collect s.candidates s.managed observed fuel c = .ok c') :
    ∃ done', Collecting request s observed done' c' := by
  induction fuel generalizing done c with
  | zero =>
    unfold collect at hc
    cases hready : c.ready with
    | nil =>
      rw [hready] at hc
      cases hc
      exact ⟨done,h⟩
    | cons key rest =>
      rw [hready] at hc
      cases hc
  | succ fuel ih =>
    unfold collect at hc
    cases hready : c.ready with
    | nil =>
      rw [hready] at hc
      cases hc
      exact ⟨done,h⟩
    | cons key rest =>
      simp only [hready] at hc
      cases hnode : s.candidates.nodes.get key with
      | none =>
        rw [hnode] at hc
        cases hc
      | some node =>
        simp only [hnode] at hc
        obtain ⟨released, hreleased, hc⟩ := bind_eq_ok.mp hc
        rw [run_eq_ok] at hreleased
        exact ih (h.step hready hnode (delayed_of_foldlM hreleased)) hc

end

/-! ### Counting edges -/

lemma countChildren_get {allowed : String → Bool} {children : List String} {t t' : Table String ℕ}
    (h : children.foldlM (Graph.countChild allowed) t = .ok t') (k : String) :
    t'.get k = (t.get k).map (· + children.count k) := by
  induction children generalizing t with
  | nil =>
    cases h
    cases t'.get k <;> rfl
  | cons child children ih =>
    obtain ⟨u, hu, h⟩ := foldlM_cons_eq_ok.mp h
    rw [ih h]
    unfold Graph.countChild at hu
    cases hn : t.get child with
    | none =>
      rw [hn] at hu
      obtain ⟨_, -, hu⟩ := bind_eq_ok.mp hu
      cases hu
      by_cases hk : k = child
      · rw [hk, hn]
        rfl
      · rw [List.count_cons_of_ne (Ne.symm hk)]
    | some n =>
      rw [hn] at hu
      cases hu
      rw [Table.get_upsert]
      by_cases hk : k = child
      · rw [if_pos hk, hk, hn, List.count_cons_self, Option.map_some, Option.map_some]
        congr 1
        omega
      · rw [if_neg hk, List.count_cons_of_ne (Ne.symm hk)]

lemma countIncoming_get {g : Graph} {keys : List String} {allowed : String → Bool}
    {incoming : Table String ℕ} (h : g.countIncoming keys allowed = .ok incoming) {k : String}
    (hk : k ∈ keys) : incoming.get k = some (edgesFrom g keys k) := by
  have hzero : ∀ (ks : List String) (t : Table String ℕ), (t.get k = some 0 ∨ t.get k = none ∧ k ∈ ks) →
      (ks.foldl (fun t key => t.insertOrIgnore key 0) t).get k = some 0 := by
    intro ks
    induction ks with
    | nil => exact fun t ht => ht.resolve_right fun h => by cases h.2
    | cons l ks ih =>
      intro t ht
      apply ih
      rw [Table.get_insertOrIgnore]
      split_ifs with hl
      · subst hl
        rcases ht with ht | ht
        · rw [ht]
          exact .inl rfl
        · rw [ht.1]
          exact .inl rfl
      · exact ht.imp id fun h => ⟨h.1,(List.mem_cons.mp h.2).resolve_left hl⟩
  have hstart := hzero keys .empty (.inr ⟨rfl,hk⟩)
  unfold Graph.countIncoming at h
  refine foldlM_induct (I := fun (done : List String) (t : Table String ℕ) =>
    t.get k = some (edgesFrom g done k)) ?_ hstart h
  intro done t key t' ht hkey
  rw [countChildren_get hkey, ht, Option.map_some]
  simp [edgesFrom]

lemma Collecting.start {s : Surveyed} {observed : Table String ℕ} {incoming : Table String ℕ}
    (h : s.candidates.countIncoming s.inactive (fun _ => true) = .ok incoming) :
    Collecting request s observed []
      ⟨incoming,keySet (s.inactive.filter fun key => incoming.get key = some 0),[],[],0⟩ := by
  have hkeys := Graph.countIncoming_keys h
  refine ⟨.nil,List.nil_subset _,?_,hkeys,?_,?_,?_,rfl⟩
  · exact fun k hk => ⟨_,countIncoming_get h hk,rfl⟩
  · intro k
    rw [mem_keySet, List.mem_filter, decide_eq_true_eq]
    exact ⟨fun hk => ⟨List.not_mem_nil,hk.2⟩,fun hk => ⟨hkeys k 0 hk.2,hk.2⟩⟩
  · dsimp only
    unfold keySet
    generalize s.inactive.filter _ = keys
    induction keys with
    | nil => exact List.nodup_nil
    | cons k keys ih => exact nodup_insertKey ih
  · intro a ha
    cases ha

/-! ### What goes and in which order -/

lemma keepWhere_eq_ok {α : Type} {p : α → Provided Bool} {l l' : List α}
    (h : keepWhere p l = .ok l') : l'.Sublist l ∧ ∀ a ∈ l, a ∈ l' ∨ p a = .ok false := by
  induction l generalizing l' with
  | nil =>
    cases h
    exact ⟨.refl _,List.forall_mem_nil _⟩
  | cons a l ih =>
    obtain ⟨keep, hkeep, h⟩ := bind_eq_ok.mp h
    obtain ⟨kept, hkept, h⟩ := bind_eq_ok.mp h
    cases h
    obtain ⟨hsub, hall⟩ := ih hkept
    rw [List.forall_mem_cons]
    cases keep with
    | true => exact ⟨hsub.cons_cons a,.inl List.mem_cons_self,
        fun b hb => (hall b hb).imp_left (List.mem_cons_of_mem _)⟩
    | false => exact ⟨hsub.cons a,.inr hkeep,hall⟩

lemma exists_of_defers {reachable eligible children : List String} {candidates : Graph}
    (h : defers source reachable candidates eligible children = .ok true) :
    ∃ child ∈ children, child ∉ reachable ∧ child ∉ eligible ∧ ∃ node,
      candidates.nodes.get child = some node ∧ source.nativeBody node.object = .ok true := by
  induction children with
  | nil => cases h
  | cons child children ih =>
    obtain ⟨keeps, hkeeps, h⟩ := bind_eq_ok.mp h
    cases keeps with
    | false =>
      obtain ⟨other, hmem, hother⟩ := ih h
      exact ⟨other,List.mem_cons_of_mem _ hmem,hother⟩
    | true =>
      unfold keepsParent at hkeeps
      split_ifs at hkeeps with hreachable
      · cases hkeeps
      · cases hnode : candidates.nodes.get child with
        | none =>
          rw [hnode] at hkeeps
          cases hkeeps
        | some node =>
          rw [hnode] at hkeeps
          obtain ⟨native, hnative, hkeeps⟩ := bind_eq_ok.mp hkeeps
          have hboth := Except.ok.inj hkeeps
          rw [Bool.and_eq_true, Bool.not_eq_true', decide_eq_false_iff_not] at hboth
          exact ⟨child,List.mem_cons_self,hreachable,hboth.2,node,hnode,hboth.1 ▸ hnative⟩

/-- A key stays because it names a native body that stays: it is how the body is found. -/
def Surveyed.Waits (s : Surveyed) (source : DocumentSource) (candidates : List RemoteObject)
    (key : String) : Prop :=
  ∃ node child body, s.candidates.nodes.get key = some node ∧
    source.nativeBody node.object = .ok false ∧ child ∈ node.children ∧ child ∉ s.reachable ∧
    s.candidates.nodes.get child = some body ∧ source.nativeBody body.object = .ok true ∧
    child ∉ candidates.map keyOf

/-- Native bodies go first, an object goes after what leads to it, and what leads to it is old
enough and goes too, unless it waits for a native body. -/
structure InOrder (source : DocumentSource) (request : MarkRequest) (s : Surveyed)
    (observed : Table String ℕ) (candidates : List RemoteObject) : Prop where
  nodup : (candidates.map keyOf).Nodup
  nativeFirst : candidates.Pairwise fun o p =>
    source.nativeBody p = .ok true → source.nativeBody o = .ok true
  ancestorsFirst : candidates.Pairwise fun o p =>
    source.nativeBody o = .ok false → ¬ s.Ancestor (keyOf p) (keyOf o)
  ancestors : ∀ o ∈ candidates, ∀ a, s.Ancestor a (keyOf o) → a ∈ s.managed →
    request.oldEnough observed a = true ∧
      (a ∈ candidates.map keyOf ∨ s.Waits source candidates a)

section
variable {s : Surveyed} {observed : Table String ℕ} {done : List String} {c : Collection}

lemma Collecting.free (h : Collecting request s observed done c) {a k : String} (hk : k ∈ done)
    (hfree : k ∉ c.blocked) (path : s.Ancestor a k) :
    a ∈ done ∧ a ∉ c.blocked ∧ (a ∈ s.managed → request.oldEnough observed a = true) := by
  have hparent : ∀ {a b}, b ∈ done → b ∉ c.blocked → s.Parent a b →
      a ∈ done ∧ a ∉ c.blocked ∧ (a ∈ s.managed → request.oldEnough observed a = true) := by
    intro a b hb hfree he
    have ha := h.sweep.closed hb he
    have hnot : ¬ (a ∈ c.blocked ∨ a ∈ s.managed ∧ request.oldEnough observed a = false) :=
      fun hdelay => hfree (h.delays a ha hdelay b he)
    rw [not_or, not_and, Bool.not_eq_false] at hnot
    exact ⟨ha,hnot⟩
  induction path using Relation.TransGen.head_induction_on with
  | single he => exact hparent hk hfree he
  | head he _ ih => exact hparent ih.1 ih.2.1 he

lemma Collecting.mem_inactive (h : Collecting request s observed done c) :
    ∀ k ∈ done, ∃ n, s.candidates.nodes.get k = some n := by
  intro k hk
  obtain ⟨⟨k', n⟩, hrow, rfl⟩ := List.mem_map.mp (List.mem_filter.mp (h.inactive hk)).1
  exact ⟨n,Table.get_eq_some.mpr hrow⟩

lemma Collecting.keys (h : Collecting request s observed done c) (hkeyed : s.candidates.Keyed) :
    c.eligible.map keyOf = done.filter (mayGo request s observed c.blocked) := by
  have hkeys : ∀ keys : List String, (∀ k ∈ keys, ∃ n, s.candidates.nodes.get k = some n) →
      (objectsOf s.candidates keys).map keyOf = keys := by
    intro keys hall
    induction keys with
    | nil => rfl
    | cons k keys ih =>
      rw [List.forall_mem_cons] at hall
      obtain ⟨⟨n, hn⟩, hall⟩ := hall
      rw [objectsOf, List.filterMap_cons, hn]
      change keyOf n.object :: (objectsOf s.candidates keys).map keyOf = _
      rw [hkeyed k n hn, ih hall]
  rw [h.eligible]
  exact hkeys _ fun k hk => h.mem_inactive k (List.mem_filter.mp hk).1

lemma Collecting.node_of_mem (h : Collecting request s observed done c)
    (hkeyed : s.candidates.Keyed) {o : RemoteObject} (ho : o ∈ c.eligible) :
    ∃ node, s.candidates.nodes.get (keyOf o) = some node ∧ node.object = o := by
  rw [h.eligible] at ho
  obtain ⟨k, -, hk⟩ := List.mem_filterMap.mp ho
  obtain ⟨node, hnode, rfl⟩ := Option.map_eq_some_iff.mp hk
  refine ⟨node,?_,rfl⟩
  rw [hkeyed k node hnode]
  exact hnode

end

lemma nativeBodies_eq_ok {objects : List RemoteObject} {eligible : List (RemoteObject × Bool)}
    (h : nativeBodies source objects = .ok eligible) :
    eligible.map Prod.fst = objects ∧ ∀ e ∈ eligible, source.nativeBody e.1 = .ok e.2 := by
  unfold nativeBodies at h
  rw [mapM_eq_ok] at h
  induction h with
  | nil => exact ⟨rfl,List.forall_mem_nil _⟩
  | cons hone _ ih =>
    obtain ⟨native, hnative, hone⟩ := bind_eq_ok.mp hone
    cases hone
    rw [List.map_cons, ih.1, List.forall_mem_cons]
    exact ⟨rfl,hnative,ih.2⟩

/-- Native bodies first, and of the parents those that wait for none. -/
structure Arranged (source : DocumentSource) (s : Surveyed) (eligible : List (RemoteObject × Bool))
    (candidates : List RemoteObject) (parents : List (RemoteObject × Bool)) : Prop where
  parts : candidates = (eligible.filter fun e => e.2).map Prod.fst ++ parents.map Prod.fst
  sublist : parents.Sublist (eligible.filter fun e => !e.2)
  waits : ∀ e ∈ eligible, e.2 = false → e ∈ parents ∨ ∃ child ∈ s.candidates.childrenOf (keyOf e.1),
    child ∉ s.reachable ∧ child ∉ eligible.map (fun e => keyOf e.1) ∧ ∃ node,
      s.candidates.nodes.get child = some node ∧ source.nativeBody node.object = .ok true

lemma arranged_of_ordered {s : Surveyed} {eligible : List (RemoteObject × Bool)}
    {candidates : List RemoteObject}
    (h : ordered source s.reachable s.candidates eligible = .ok candidates) :
    ∃ parents, Arranged source s eligible candidates parents := by
  obtain ⟨parents, hparents, h⟩ := bind_eq_ok.mp h
  cases h
  obtain ⟨hsub, hall⟩ := keepWhere_eq_ok hparents
  refine ⟨parents,rfl,hsub,?_⟩
  intro e he hnative
  refine (hall e (List.mem_filter.mpr ⟨he,by rw [hnative]; rfl⟩)).imp_right fun hkeep => ?_
  obtain ⟨deferred, hdefers, hkeep⟩ := bind_eq_ok.mp hkeep
  cases deferred with
  | false => cases hkeep
  | true => exact exists_of_defers hdefers

lemma inOrder_of_select {s : Surveyed} {observed : Table String ℕ} {fuel : ℕ} {m : Mark}
    (hkeyed : s.candidates.Keyed) (h : request.select source s observed fuel = .ok m) :
    InOrder source request s observed m.candidates := by
  unfold select at h
  obtain ⟨incoming, hincoming, h⟩ := bind_eq_ok.mp h
  obtain ⟨c, hc, h⟩ := bind_eq_ok.mp h
  obtain ⟨_, -, h⟩ := bind_eq_ok.mp h
  obtain ⟨eligible, heligible, h⟩ := bind_eq_ok.mp h
  obtain ⟨candidates, hcandidates, h⟩ := bind_eq_ok.mp h
  cases h
  rw [run_eq_ok] at hincoming heligible hcandidates
  obtain ⟨done, hdone⟩ := (Collecting.start hincoming).run hc
  obtain ⟨hobjects, hnative⟩ := nativeBodies_eq_ok heligible
  obtain ⟨parents, harranged⟩ := arranged_of_ordered hcandidates
  have hkeys : eligible.map (fun e => keyOf e.1) =
      done.filter (mayGo request s observed c.blocked) := by
    rw [← hdone.keys hkeyed, ← hobjects, List.map_map]
    rfl
  have hnodup : (eligible.map fun e => keyOf e.1).Nodup := by
    rw [hkeys]
    exact hdone.sweep.nodup.filter _
  have horder : eligible.Pairwise fun e f => ¬ s.Ancestor (keyOf f.1) (keyOf e.1) := by
    rw [← List.pairwise_map (f := fun e : RemoteObject × Bool => keyOf e.1)
      (R := fun k l => ¬ s.Ancestor l k), hkeys]
    exact hdone.sweep.pairwise.filter _
  have hnatives : ∀ o ∈ (eligible.filter fun e => e.2).map Prod.fst,
      source.nativeBody o = .ok true := by
    intro o ho
    obtain ⟨e, he, rfl⟩ := List.mem_map.mp ho
    rw [List.mem_filter] at he
    rw [hnative e he.1, he.2]
  have hparents : ∀ o ∈ parents.map Prod.fst, source.nativeBody o = .ok false := by
    intro o ho
    obtain ⟨e, he, rfl⟩ := List.mem_map.mp ho
    have he := List.mem_filter.mp (harranged.sublist.subset he)
    have hn : e.2 = false := by simpa using he.2
    rw [hnative e he.1, hn]
  have hmem : ∀ o ∈ candidates, keyOf o ∈ eligible.map fun e => keyOf e.1 := by
    intro o ho
    rw [harranged.parts, ← List.map_append] at ho
    obtain ⟨e, he, rfl⟩ := List.mem_map.mp ho
    apply List.mem_map.mpr
    rcases List.mem_append.mp he with he | he
    · exact ⟨e,(List.mem_filter.mp he).1,rfl⟩
    · exact ⟨e,(List.mem_filter.mp (harranged.sublist.subset he)).1,rfl⟩
  dsimp only
  refine ⟨?_,?_,?_,?_⟩
  · have hsub := (List.Sublist.refl (eligible.filter fun e => e.2)).append harranged.sublist
    have hperm := List.filter_append_perm (fun e : RemoteObject × Bool => e.2) eligible
    rw [harranged.parts, ← List.map_append, List.map_map]
    exact ((hperm.map _).nodup_iff.mpr hnodup).sublist (hsub.map _)
  · rw [harranged.parts, List.pairwise_append]
    refine ⟨List.pairwise_of_forall_mem_list fun o ho _ _ _ => hnatives o ho,
      List.pairwise_of_forall_mem_list fun o _ p hp hn => ?_,fun o ho _ _ _ => hnatives o ho⟩
    rw [hparents p hp] at hn
    cases hn
  · rw [harranged.parts, List.pairwise_append]
    refine ⟨List.pairwise_of_forall_mem_list fun o ho _ _ hn => ?_,?_,fun o ho _ _ hn => ?_⟩
    · rw [hnatives o ho] at hn
      cases hn
    · rw [List.pairwise_map]
      apply (horder.sublist (harranged.sublist.trans List.filter_sublist)).imp
      exact fun hef _ => hef
    · rw [hnatives o ho] at hn
      cases hn
  · intro o ho a path hmanaged
    have ho := hmem o ho
    rw [hkeys, List.mem_filter, mayGo, Bool.and_eq_true, Bool.not_eq_true',
      decide_eq_false_iff_not] at ho
    obtain ⟨ha, hfree, hold⟩ := hdone.free ho.1 ho.2.2 path
    refine ⟨hold hmanaged,?_⟩
    have hgo : a ∈ done.filter (mayGo request s observed c.blocked) := by
      rw [List.mem_filter]
      refine ⟨ha,?_⟩
      simp [mayGo, hmanaged, hold hmanaged, hfree]
    rw [← hkeys] at hgo
    obtain ⟨f, hf, rfl⟩ := List.mem_map.mp hgo
    have hcandidate : ∀ l : List (RemoteObject × Bool), f ∈ l →
        keyOf f.1 ∈ (l.map Prod.fst).map keyOf :=
      fun l hl => List.mem_map_of_mem (List.mem_map_of_mem hl)
    cases hfn : f.2 with
    | true =>
      left
      rw [harranged.parts, List.map_append]
      exact List.mem_append_left _ (hcandidate _ (List.mem_filter.mpr ⟨hf,hfn⟩))
    | false =>
      rcases harranged.waits f hf hfn with hparent | ⟨child, hchild, hreachable, hstays, body, hbody, hn⟩
      · left
        rw [harranged.parts, List.map_append]
        exact List.mem_append_right _ (hcandidate _ hparent)
      · right
        have hobject : f.1 ∈ c.eligible := hobjects ▸ List.mem_map_of_mem hf
        obtain ⟨node, hnode, hfirst⟩ := hdone.node_of_mem hkeyed hobject
        refine ⟨node,child,body,hnode,?_,?_,hreachable,hbody,hn,fun hgoes => hstays ?_⟩
        · rw [hfirst, hnative f hf, hfn]
        · unfold Graph.childrenOf at hchild
          rw [hnode] at hchild
          exact hchild
        · obtain ⟨o, ho, rfl⟩ := List.mem_map.mp hgoes
          exact hmem o ho

/-- What a mark that succeeds selects is in order. -/
theorem cleanup_keeps_discovery {store after : GcStore} {fuel : ℕ} {m : Mark}
    (h : request.mark cr source store fuel = (.ok m,after)) :
    ∃ s recorded, request.survey cr source fuel = .ok s ∧
      store.recordObservations request.connectionId (identitiesOf s.candidates s.managed)
        request.nowMs = .ok recorded ∧
      InOrder source request s recorded.2 m.candidates := by
  unfold mark at h
  cases hs : request.survey cr source fuel with
  | error e =>
    rw [hs] at h
    cases h
  | ok s =>
    rw [hs] at h
    dsimp only at h
    split at h
    · cases h
    · rename_i recorded hrecorded
      have hselect := congrArg Prod.fst h
      exact ⟨s,recorded,rfl,hrecorded,inOrder_of_select (keyed_of_survey hs) hselect⟩

/-! ### A catalog that names a native body which stays and a pack which goes -/

def sharedCatalog : RemoteObject := sampleObject .catalog "shared" 205

def leafPack : RemoteObject := sampleObject .pack "leaf" 200

def orderSource : DocumentSource where
  document := fun o => .ok ⟨o.objectId,[]⟩
  listed := fun _ => .error .notFound
  catalog := fun _ => .ok [samplePack,leafPack]
  probe := fun o => .ok (some o.receipt)
  metadata := fun o => .ok (some o.receipt)
  nativeBody := fun o => .ok (decide (o = samplePack))
  formatRepositoryId := fun _ => none

def sharedIdentity : String :=
  "d846636c4fcdb136b51ac6a3159b48974b837855183e0ccdd1b2e6285f974bbe"

def leafIdentity : String :=
  "4662f85d521c417a9877b71ef3e18752417d71210d7af0e48caa09af3522cee1"

/-- How the text of a stored object begins whose identifier begins like this. -/
def storedStart (name : String) : List Char :=
  ("\x7b\"header\":\x7b\"schema\":\"risunest.external-object/v1\",\"repositoryId\":\"r\"," ++
    "\"objectId\":\"").toList ++ name.toList

/-- The hashes of the texts that are hashed here. -/
def orderCrates : Crates :=
  { tabulated [] [] [] with
    sha256 := fun b =>
      if utf8 (storedStart "shar") <+: b then sharedIdentity
      else if utf8 (storedStart "leaf") <+: b then leafIdentity
      else samplePackIdentity }

/-- A run that sees the catalog and the pack it names, both a grace period after another did. The
body is not known here, so it stays. -/
def orderRequest : MarkRequest :=
  sampleRequest ⟨none,[],[],[],[],[]⟩ [sharedCatalog,leafPack]

def orderRun : List GcOp :=
  [GcOp.record "c" ((Table.empty.insertOrIgnore (keyOf sharedCatalog) sharedIdentity).insertOrIgnore
    (keyOf leafPack) leafIdentity) 1000]

lemma exists_stored {o : RemoteObject} {p : List Char}
    (h : ((o.stored sampleRepository).toOption.any fun s => p.isPrefixOf s.text) = true) :
    ∃ s, o.stored sampleRepository = .ok s ∧ p <+: s.text := by
  cases hs : o.stored sampleRepository with
  | error e =>
    rw [hs] at h
    cases h
  | ok s =>
    rw [hs] at h
    exact ⟨s,rfl,List.isPrefixOf_iff_prefix.mp h⟩

lemma sha256_order (t : List Char) : orderCrates.sha256 (utf8 t) =
    if utf8 (storedStart "shar") <+: utf8 t then sharedIdentity
    else if utf8 (storedStart "leaf") <+: utf8 t then leafIdentity
    else samplePackIdentity := rfl

/-- The text of the identity of the native body. -/
def bodyText : List Char :=
  ({ samplePack with
    receipt := { samplePack.receipt with version := none, checksum := none } } : RemoteObject).text

lemma identityOf_order :
    identityOf orderCrates orderSource sampleRepository "r" sharedCatalog = .ok sharedIdentity ∧
    identityOf orderCrates orderSource sampleRepository "r" leafPack = .ok leafIdentity ∧
    identityOf orderCrates orderSource sampleRepository "r" samplePack = .ok samplePackIdentity := by
  obtain ⟨shared, hshared, hsharedText⟩ :=
    @exists_stored sharedCatalog (storedStart "shar") (by decide +kernel)
  obtain ⟨leaf, hleaf, hleafText⟩ := @exists_stored leafPack (storedStart "leaf") (by decide +kernel)
  have hbodyText := List.take_prefix (storedStart "leaf").length bodyText
  have hlength : (utf8 (storedStart "leaf")).length = (utf8 (storedStart "shar")).length ∧
      (utf8 (bodyText.take (storedStart "leaf").length)).length =
        (utf8 (storedStart "leaf")).length ∧
      storedStart "shar" ≠ storedStart "leaf" ∧
      storedStart "shar" ≠ bodyText.take (storedStart "leaf").length ∧
      storedStart "leaf" ≠ bodyText.take (storedStart "leaf").length := by
    decide
  obtain ⟨hlen, hbody, hne, hneShared, hneLeaf⟩ := hlength
  refine ⟨?_,?_,?_⟩
  · rw [identityOf_of_stored (by decide) (by decide) hshared (by decide), Wire.hash,
      sha256_order, if_pos (utf8_isPrefix hsharedText)]
  · rw [identityOf_of_stored (by decide) (by decide) hleaf (by decide), Wire.hash,
      sha256_order, if_neg (not_utf8_isPrefix hleafText hlen hne),
      if_pos (utf8_isPrefix hleafText)]
  · rw [identityOf_of_native (by decide) (by decide) (by decide), Wire.hash]
    change Except.ok (orderCrates.sha256 (utf8 bodyText)) = _
    rw [sha256_order, if_neg (not_utf8_isPrefix hbodyText (hbody.trans hlen) hneShared),
      if_neg (not_utf8_isPrefix hbodyText hbody hneLeaf)]

lemma walkFrom_again {cr : Crates} {source : DocumentSource} {repository : RepositoryHandle}
    {formatRepositoryId identity : String} {tolerateMissing : Bool} {fuel : ℕ} {o : RemoteObject}
    {pending : List RemoteObject} {s : Graph × Memo}
    (hi : identityOf cr source repository formatRepositoryId o = .ok identity)
    (hg : s.1.identities.get (keyOf o) = some identity) :
    walkFrom cr source repository formatRepositoryId tolerateMissing (fuel+1) (o :: pending) s =
      walkFrom cr source repository formatRepositoryId tolerateMissing fuel pending s := by
  rw [walkFrom, hi]
  dsimp only [run, Except.mapError, bind, Except.bind]
  rw [hg]
  dsimp only
  rw [require_eq_ok.mpr rfl]

/-- The graph and the memo of the walk from what is known. -/
def orderVisited : Graph × Memo :=
  (((Graph.empty.record sharedCatalog sharedIdentity (some [samplePack,leafPack])).record leafPack
      leafIdentity (some [])).record samplePack samplePackIdentity (some []),
    ((Table.empty.upsert (keyOf sharedCatalog,sharedIdentity) (some [samplePack,leafPack])).upsert
      (keyOf leafPack,leafIdentity) (some [])).upsert (keyOf samplePack,samplePackIdentity)
        (some []))

def orderSurveyed : Surveyed :=
  ⟨.empty,[],0,orderVisited.1,[keyOf sharedCatalog,keyOf leafPack]⟩

lemma survey_order : orderRequest.survey orderCrates orderSource 10 = .ok orderSurveyed := by
  obtain ⟨hshared, hleaf, hpack⟩ := identityOf_order
  have hvisit : visit orderSource sharedCatalog = .ok (some [samplePack,leafPack]) ∧
      visit orderSource leafPack = .ok (some []) ∧ visit orderSource samplePack = .ok (some []) := by
    decide
  have hwalk : walk orderCrates orderSource sampleRepository "r" 10 [sharedCatalog,leafPack] true
      .empty = .ok orderVisited := by
    refine @walk_of_walkFrom _ _ _ _ _ _ orderVisited _ _ ?_ (by decide)
    rw [walkFrom_first hshared (by decide) (by decide) hvisit.1,
      List.singleton_append, walkFrom_first hleaf (by decide) (by decide) hvisit.2.1,
      List.append_nil, walkFrom_first hpack (by decide) (by decide) hvisit.2.2,
      List.append_nil, walkFrom_again hleaf (by decide)]
    rfl
  have hnone : walk orderCrates orderSource sampleRepository "r" 10 [] false .empty =
      .ok (.empty,.empty) := walk_of_walkFrom rfl rfl
  have hretired : walk orderCrates orderSource sampleRepository "r" 10 [] true .empty =
      .ok (.empty,.empty) := walk_of_walkFrom rfl rfl
  have hshared : orderRequest.readKnown orderCrates orderSource .empty sharedCatalog =
      .ok (Table.empty.upsert (keyOf sharedCatalog) sharedCatalog) :=
    @readKnown_first _ _ orderRequest _ _ false (by decide +kernel) (by decide +kernel) rfl
  have hleaf : orderRequest.readKnown orderCrates orderSource
      (Table.empty.upsert (keyOf sharedCatalog) sharedCatalog) leafPack =
        .ok ((Table.empty.upsert (keyOf sharedCatalog) sharedCatalog).upsert (keyOf leafPack)
          leafPack) :=
    @readKnown_first _ _ orderRequest _ _ false (by decide +kernel) (by decide +kernel)
      (by decide)
  have hall : orderRequest.knownObjects.foldlM (orderRequest.readKnown orderCrates orderSource)
      .empty = .ok _ :=
    foldlM_cons_eq_ok.mpr ⟨_,hshared,foldlM_cons_eq_ok.mpr ⟨_,hleaf,rfl⟩⟩
  have hattach : ∀ g, orderRequest.attachBundles g = g := fun _ => rfl
  have hacyclic : orderVisited.1.checkAcyclic 10 = .ok () := by decide
  have hmerge : (orderRequest.attachBundles orderVisited.1).merge
      (orderRequest.attachBundles Graph.empty) 10 = .ok orderVisited.1 := by
    rw [hattach, hattach]
    exact merge_empty hacyclic rfl
  unfold survey
  refine bind_eq_ok.mpr ⟨(.empty,[]),rfl,?_⟩
  refine bind_eq_ok.mpr ⟨_,congrArg run hall,?_⟩
  refine bind_eq_ok.mpr ⟨[],by decide,?_⟩
  refine bind_eq_ok.mpr ⟨_,hnone,?_⟩
  refine bind_eq_ok.mpr ⟨([],0),by decide,?_⟩
  refine bind_eq_ok.mpr ⟨_,hretired,?_⟩
  refine bind_eq_ok.mpr ⟨(),by decide,?_⟩
  refine bind_eq_ok.mpr ⟨_,hwalk,?_⟩
  refine bind_eq_ok.mpr ⟨_,hmerge,?_⟩
  exact bind_eq_ok.mpr ⟨(),by decide,rfl⟩

lemma mark_order : ∃ m store, orderRequest.mark orderCrates orderSource
    (orderRun.foldl GcStore.after .empty) 10 = (.ok m,store) ∧ m.candidates = [leafPack] := by
  apply exists_of_candidates
  rw [mark, survey_order]
  decide

/-- The catalog stays for the native body it names; the pack it names goes. -/
theorem catalog_stays_behind : ∃ s m store, orderRequest.survey orderCrates orderSource 10 = .ok s ∧
    orderRequest.mark orderCrates orderSource (orderRun.foldl GcStore.after .empty) 10 =
      (.ok m,store) ∧ m.candidates = [leafPack] ∧ orderSource.nativeBody leafPack = .ok false ∧
    s.Ancestor (keyOf sharedCatalog) (keyOf leafPack) ∧ keyOf sharedCatalog ∈ s.managed := by
  obtain ⟨m, store, hmark, hm⟩ := mark_order
  have hgraph : keyOf sharedCatalog ∈ orderSurveyed.inactive ∧
      keyOf leafPack ∈ orderSurveyed.inactive ∧
      keyOf leafPack ∈ orderSurveyed.candidates.childrenOf (keyOf sharedCatalog) ∧
      keyOf sharedCatalog ∈ orderSurveyed.managed := by
    decide
  exact ⟨_,m,store,survey_order,hmark,hm,by decide,
    .single ⟨hgraph.1,hgraph.2.1,hgraph.2.2.1⟩,hgraph.2.2.2⟩

theorem cleanup_keeps_discovery_catalog : ∃ s recorded m store,
    orderRequest.mark orderCrates orderSource (orderRun.foldl GcStore.after .empty) 10 =
      (.ok m,store) ∧ m.candidates = [leafPack] ∧
    InOrder orderSource orderRequest s recorded m.candidates := by
  obtain ⟨m, store, hmark, hm⟩ := mark_order
  obtain ⟨s, recorded, -, -, horder⟩ := cleanup_keeps_discovery hmark
  exact ⟨s,recorded.2,m,store,hmark,hm,horder⟩

end MarkRequest
end RisuNest.External
