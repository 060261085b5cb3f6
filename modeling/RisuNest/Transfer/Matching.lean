import RisuNest.Transfer.Delta

/-! Making a recipe by searching the target for blocks of the bases (`create` of `delta.rs`). -/
namespace RisuNest.Transfer
open Wire Recipe

/-! ### Operations that build a text -/

/-- A copy stays inside its base, and no operation is empty. -/
def OpSound (sources : List Bytes) : DeltaOp → Prop
  | .insert bytes => bytes ≠ []
  | .copy base offset length =>
    base < sources.length ∧ offset + length ≤ (sources.getD base []).length ∧ length ≠ 0

/-- Operations that write a text from the bases. -/
structure Builds (sources : List Bytes) (ops : List DeltaOp) (out : Bytes) : Prop where
  output : ops.flatMap (opOutput sources) = out
  sound : ∀ op ∈ ops, OpSound sources op

namespace Builds
variable {sources : List Bytes} {ops : List DeltaOp} {out : Bytes}

lemma nil (sources : List Bytes) : Builds sources [] [] := ⟨rfl,List.forall_mem_nil _⟩

lemma push (h : Builds sources ops out) {op : DeltaOp} (hop : OpSound sources op) :
    Builds sources (ops ++ [op]) (out ++ opOutput sources op) where
  output := by rw [List.flatMap_append, h.output, List.flatMap_singleton]
  sound := by
    intro o ho
    obtain ho | ho := List.mem_append.mp ho
    · exact h.sound o ho
    · rw [List.mem_singleton.mp ho]
      exact hop

end Builds

lemma length_of_opSound {sources : List Bytes} {op : DeltaOp} (h : OpSound sources op) :
    (opOutput sources op).length = opSize op ∧ opSize op ≠ 0 := by
  cases op with
  | insert bytes => exact ⟨rfl,fun hn => h (List.length_eq_zero_iff.mp hn)⟩
  | copy base offset length =>
    refine ⟨?_,h.2.2⟩
    change (((sources.getD base []).drop offset).take length).length = length
    rw [List.length_take, List.length_drop]
    have := h.2.1
    omega

lemma Builds.sizes {sources : List Bytes} {ops : List DeltaOp} {out : Bytes}
    (h : Builds sources ops out) : (ops.map opSize).sum = out.length := by
  rw [← h.output]
  have hs := h.sound
  clear h
  induction ops with
  | nil => rfl
  | cons op ops ih =>
    obtain ⟨hop,hops⟩ := List.forall_mem_cons.mp hs
    rw [List.map_cons, List.sum_cons, List.flatMap_cons, List.length_append,
      (length_of_opSound hop).1, ih hops]

lemma opLength_of_opSound {sources : List Bytes} {bases : List Base}
    (hb : bases.map Base.size = sources.map List.length) {op : DeltaOp} (h : OpSound sources op) :
    opLength bases op = .ok (opSize op) := by
  cases op with
  | insert bytes => rfl
  | copy base offset length =>
    obtain ⟨hlt,hle,-⟩ := h
    have hlen : base < bases.length := by
      have := congrArg List.length hb
      rw [List.length_map, List.length_map] at this
      omega
    have hsize : bases[base].size = sources[base].length := by
      have := congrArg (fun l : List ℕ => l[base]?) hb
      simp only [List.getElem?_map, List.getElem?_eq_getElem hlen, List.getElem?_eq_getElem hlt,
        Option.map_some, Option.some.injEq] at this
      exact this
    rw [List.getD_eq_getElem?_getD, List.getElem?_eq_getElem hlt, Option.getD_some] at hle
    unfold opLength
    dsimp only
    rw [List.getElem?_eq_getElem hlen]
    dsimp only
    rw [if_pos (by omega)]
    rfl

lemma literal_le_size (op : DeltaOp) : literalLength op ≤ opSize op := by
  cases op with
  | insert bytes => exact Nat.le_refl _
  | copy base offset length => exact Nat.zero_le _

lemma sum_literal_le (ops : List DeltaOp) :
    (ops.map literalLength).sum ≤ (ops.map opSize).sum := by
  induction ops with
  | nil => exact Nat.le_refl 0
  | cons op ops ih => exact Nat.add_le_add (literal_le_size op) ih

/-! ### The index of the bases -/

/-- `BLOCK` -/
def blockSize : ℕ := 64

def maxSearchBytes : ℕ := 256*1024

/-- A block of a base, by its fingerprint. -/
structure Anchor where
  fingerprint : UInt64
  base : ℕ
  offset : ℕ
  deriving DecidableEq, Repr

def fingerprint (bytes : Bytes) : UInt64 := bytes.foldl (fun h b => h*257 + (b.toUInt64 + 1)) 0

/-- The bytes of a block. -/
def block (bytes : Bytes) (position : ℕ) : Bytes := (bytes.drop position).take blockSize

/-- The blocks of a base, side by side: as many as end inside it. -/
def anchorsOf (id : ℕ) (base : Bytes) : List Anchor :=
  (List.range (base.length/blockSize)).map fun i =>
    ⟨fingerprint (block base (i*blockSize)),id,i*blockSize⟩

/-- The order of the index: the key is unique. -/
def anchorLe (a b : Anchor) : Bool :=
  a.fingerprint < b.fingerprint || (a.fingerprint == b.fingerprint &&
    (a.base < b.base || (a.base == b.base && a.offset ≤ b.offset)))

/-- `retain`: two anchors of one fingerprint and base, next to each other, are enough. -/
def retainTwo : Option (UInt64 × ℕ) → ℕ → List Anchor → List Anchor
  | _, _, [] => []
  | previous, occurrences, anchor :: rest =>
    let key := (anchor.fingerprint,anchor.base)
    let occurrences := if previous = some key then occurrences + 1 else 1
    let kept := retainTwo (some key) occurrences rest
    if occurrences ≤ 2 then anchor :: kept else kept

def indexOf (anchors : List Anchor) : List Anchor := retainTwo none 0 (anchors.mergeSort anchorLe)

/-- The anchors with a fingerprint, which stand together in the index. -/
def candidates (index : List Anchor) (key : UInt64) : List Anchor :=
  (index.dropWhile fun a => a.fingerprint < key).takeWhile fun a => a.fingerprint == key

lemma retainTwo_sublist (anchors : List Anchor) (previous : Option (UInt64 × ℕ))
    (occurrences : ℕ) : (retainTwo previous occurrences anchors).Sublist anchors := by
  induction anchors generalizing previous occurrences with
  | nil => exact List.Sublist.refl _
  | cons anchor rest ih =>
    unfold retainTwo
    dsimp only
    split_ifs
    all_goals first
      | exact (ih _ _).cons_cons anchor
      | exact (ih _ _).cons anchor

lemma mem_of_mem_candidates {anchors : List Anchor} {key : UInt64} {a : Anchor}
    (h : a ∈ candidates (indexOf anchors) key) : a ∈ anchors := by
  have h := (List.dropWhile_sublist _).mem ((List.takeWhile_sublist _).mem h)
  exact List.mem_mergeSort.mp ((retainTwo_sublist _ _ _).mem h)

/-! ### Matching at one position -/

/-- How far two texts agree. -/
def commonLength : Bytes → Bytes → ℕ
  | a :: as, b :: bs => if a = b then commonLength as bs + 1 else 0
  | _, _ => 0

/-- The longest match so far. -/
structure Match where
  base : ℕ
  offset : ℕ
  length : ℕ
  deriving DecidableEq, Repr

/-- One candidate against the best so far. -/
def better (bases : List Bytes) (target : Bytes) (position : ℕ) (best : Match) (a : Anchor) :
    Match :=
  let source := bases.getD a.base []
  if block source a.offset = block target position then
    let length := blockSize + commonLength (source.drop (a.offset + blockSize))
      (target.drop (position + blockSize))
    if best.length < length then ⟨a.base,a.offset,length⟩ else best
  else best

def bestMatch (index : List Anchor) (bases : List Bytes) (target : Bytes) (position : ℕ)
    (key : UInt64) : Match :=
  (candidates index key).foldl (better bases target position) ⟨0,0,0⟩

/-- A match whose bytes were compared. -/
structure Matches (bases : List Bytes) (target : Bytes) (position : ℕ) (m : Match) : Prop where
  base : m.base < bases.length
  inBase : m.offset + m.length ≤ (bases.getD m.base []).length
  inTarget : position + m.length ≤ target.length
  same : ((bases.getD m.base []).drop m.offset).take m.length = (target.drop position).take m.length

lemma commonLength_spec (as bs : Bytes) : commonLength as bs ≤ as.length ∧
    commonLength as bs ≤ bs.length ∧
      as.take (commonLength as bs) = bs.take (commonLength as bs) := by
  induction as generalizing bs with
  | nil => exact ⟨Nat.le_refl 0,Nat.zero_le _,rfl⟩
  | cons a as ih =>
    cases bs with
    | nil => exact ⟨Nat.zero_le _,Nat.le_refl 0,rfl⟩
    | cons b bs =>
      unfold commonLength
      split_ifs with h
      · subst h
        obtain ⟨ha,hb,he⟩ := ih bs
        exact ⟨Nat.succ_le_succ ha,Nat.succ_le_succ hb,by rw [List.take_succ_cons, he,
          List.take_succ_cons]⟩
      · exact ⟨Nat.zero_le _,Nat.zero_le _,rfl⟩

/-- Anchors that lie inside their bases. -/
def Inside (bases : List Bytes) (a : Anchor) : Prop :=
  a.base < bases.length ∧ a.offset + blockSize ≤ (bases.getD a.base []).length

lemma matches_of_block {bases : List Bytes} {target : Bytes} {position : ℕ} {a : Anchor}
    (ha : Inside bases a) (ht : position + blockSize ≤ target.length)
    (hb : block (bases.getD a.base []) a.offset = block target position) :
    Matches bases target position ⟨a.base,a.offset,blockSize +
      commonLength ((bases.getD a.base []).drop (a.offset + blockSize))
        (target.drop (position + blockSize))⟩ := by
  obtain ⟨hs,ht',he⟩ := commonLength_spec ((bases.getD a.base []).drop (a.offset + blockSize))
    (target.drop (position + blockSize))
  have hin := ha.2
  rw [List.length_drop] at hs ht'
  refine ⟨ha.1,?_,?_,?_⟩
  · dsimp only
    omega
  · dsimp only
    omega
  · dsimp only
    rw [List.take_add, List.take_add, List.drop_drop, List.drop_drop, he]
    exact congrArg (· ++ _) hb

lemma bestMatch_spec {anchors : List Anchor} {bases : List Bytes} {target : Bytes} {position : ℕ}
    (ha : ∀ a ∈ anchors, Inside bases a) (ht : position + blockSize ≤ target.length)
    (key : UInt64) :
    let best := bestMatch (indexOf anchors) bases target position key
    best.length = 0 ∨ Matches bases target position best := by
  have hc : ∀ a ∈ candidates (indexOf anchors) key, Inside bases a :=
    fun a h => ha a (mem_of_mem_candidates h)
  have step : ∀ (l : List Anchor) (best : Match), (∀ a ∈ l, Inside bases a) →
      (best.length = 0 ∨ Matches bases target position best) →
      (l.foldl (better bases target position) best).length = 0 ∨
        Matches bases target position (l.foldl (better bases target position) best) := by
    intro l
    induction l with
    | nil => exact fun _ _ h => h
    | cons a l ih =>
      intro best hl hbest
      obtain ⟨hin,hl⟩ := List.forall_mem_cons.mp hl
      refine ih _ hl ?_
      unfold better
      dsimp only
      split_ifs with hb hlt
      · exact .inr (matches_of_block hin ht hb)
      · exact hbest
      · exact hbest
  exact step _ _ hc (.inl rfl)

/-! ### Pieces of the target -/
section
variable {bases : List Bytes} {target : Bytes}

lemma take_literal {literal position : ℕ} (h : literal ≤ position) :
    target.take literal ++ (target.drop literal).take (position - literal) = target.take position := by
  rw [← List.take_add]
  congr 1
  omega

lemma Builds.literal {ops : List DeltaOp} {literal position : ℕ}
    (h : Builds bases ops (target.take literal)) (hlt : literal < position)
    (hin : position ≤ target.length) :
    Builds bases (ops ++ [.insert ((target.drop literal).take (position - literal))])
      (target.take position) := by
  have hop : OpSound bases (.insert ((target.drop literal).take (position - literal))) := by
    intro hn
    have := congrArg List.length hn
    rw [List.length_take, List.length_drop, List.length_nil] at this
    omega
  have := h.push hop
  rwa [opOutput, take_literal (Nat.le_of_lt hlt)] at this

lemma Builds.copy {ops : List DeltaOp} {position : ℕ} {best : Match}
    (h : Builds bases ops (target.take position)) (hm : Matches bases target position best)
    (hne : best.length ≠ 0) :
    Builds bases (ops ++ [.copy best.base best.offset best.length])
      (target.take (position + best.length)) := by
  have hop : OpSound bases (.copy best.base best.offset best.length) := ⟨hm.base,hm.inBase,hne⟩
  have := h.push hop
  rwa [opOutput, hm.same, ← List.take_add] at this

end

/-! ### The search -/
namespace Delta

/-- The state of the search loop. -/
structure Search where
  position : ℕ
  literal : ℕ
  ops : List DeltaOp
  rolling : Option UInt64
  searched : ℕ

/-- `257.wrapping_pow(BLOCK - 1)` -/
def factor : UInt64 := 257^(blockSize - 1)

/-- The key one byte further on. -/
def roll (target : Bytes) (position : ℕ) (key : UInt64) : Option UInt64 :=
  target[position + blockSize]?.map fun next =>
    (key - ((target.getD position 0).toUInt64 + 1)*factor)*257 + (next.toUInt64 + 1)

/-- What an iteration of the loop does at a position without a match: whether it goes on. -/
def skip (target : Bytes) (key : UInt64) (s : Search) : Result (Search × Bool) :=
  let searched := s.searched + 1
  if maxSearchBytes < searched then
    if maxPatchBytes < target.length - s.literal then .error ⟨"delta-search-limit"⟩
    -- the copies found so far are kept, the tail that was not searched is sent as it is
    else .ok ({ s with searched := searched },false)
  else .ok ({ s with
    searched := searched
    rolling := roll target s.position key
    position := s.position + 1 },true)

/-- What an iteration of the loop does with a match. -/
def take (target : Bytes) (best : Match) (s : Search) : Search :=
  let ops := if s.literal < s.position
    then s.ops ++ [.insert ((target.drop s.literal).take (s.position - s.literal))] else s.ops
  let position := s.position + best.length
  { s with
    ops := ops ++ [.copy best.base best.offset best.length]
    position := position
    literal := position
    rolling := none }

/-- What an iteration of the loop does, and whether it goes on. -/
def probe (index : List Anchor) (bases : List Bytes) (target : Bytes) (s : Search) :
    Result (Search × Bool) :=
  let key := s.rolling.getD (fingerprint (block target s.position))
  let best := bestMatch index bases target s.position key
  if blockSize ≤ best.length then .ok (take target best s,true) else skip target key s

/-- One iteration of the loop. -/
def iteration (index : List Anchor) (bases : List Bytes) (target : Bytes) (s : Search) :
    Result (Search × Bool) := do
  let (s, more) ← probe index bases target s
  require (¬ more ∨ s.ops.length ≤ maxOps) ⟨"delta-limit"⟩
  pure (s,more)

lemma iteration_eq_ok {index : List Anchor} {bases : List Bytes} {target : Bytes} {s t : Search}
    {more : Bool} : iteration index bases target s = .ok (t,more) ↔
      probe index bases target s = .ok (t,more) ∧ (more = true → t.ops.length ≤ maxOps) := by
  unfold iteration
  rw [bind_eq_ok]
  constructor
  · rintro ⟨⟨u,go⟩,hu,h⟩
    obtain ⟨_,hr,h⟩ := bind_eq_ok.mp h
    obtain ⟨rfl,rfl⟩ := Prod.mk.inj (Except.ok.inj h)
    refine ⟨hu,fun hm => ?_⟩
    obtain hn | hle := require_eq_ok.mp hr
    · exact absurd hm hn
    · exact hle
  · rintro ⟨hu,hle⟩
    refine ⟨(t,more),hu,bind_eq_ok.mpr ⟨(),require_eq_ok.mpr ?_,rfl⟩⟩
    cases more with
    | false => exact .inl nofun
    | true => exact .inr (hle rfl)

lemma probe_cases {index : List Anchor} {bases : List Bytes} {target : Bytes} {s t : Search}
    {more : Bool} (h : probe index bases target s = .ok (t,more)) :
    (∃ key, blockSize ≤ (bestMatch index bases target s.position key).length ∧ more = true ∧
      t = take target (bestMatch index bases target s.position key) s) ∨
    (more = true ∧ t.position = s.position + 1 ∧ t.literal = s.literal ∧ t.ops = s.ops) ∨
    (more = false ∧ t.position = s.position ∧ t.literal = s.literal ∧ t.ops = s.ops) := by
  unfold probe at h
  dsimp only at h
  split_ifs at h with hb
  · obtain ⟨rfl,rfl⟩ := Prod.mk.inj (Except.ok.inj h)
    exact .inl ⟨_,hb,rfl,rfl⟩
  · unfold skip at h
    dsimp only at h
    split_ifs at h
    · obtain ⟨rfl,rfl⟩ := Prod.mk.inj (Except.ok.inj h)
      exact .inr (.inr ⟨rfl,rfl,rfl,rfl⟩)
    · obtain ⟨rfl,rfl⟩ := Prod.mk.inj (Except.ok.inj h)
      exact .inr (.inl ⟨rfl,rfl,rfl,rfl⟩)

lemma position_lt_of_iteration {index : List Anchor} {bases : List Bytes} {target : Bytes}
    {s t : Search} (h : iteration index bases target s = .ok (t,true)) : s.position < t.position := by
  obtain ⟨key,hb,-,rfl⟩ | ⟨-,hp,-⟩ | ⟨hm,-⟩ := probe_cases (iteration_eq_ok.mp h).1
  · exact Nat.lt_add_of_pos_right (Nat.lt_of_lt_of_le (by decide) hb)
  · omega
  · cases hm

/-- The search loop. -/
def search (index : List Anchor) (bases : List Bytes) (target : Bytes) (s : Search) :
    Result Search :=
  if _hs : index ≠ [] ∧ s.position + blockSize ≤ target.length then
    match _h : iteration index bases target s with
    | .error e => .error e
    | .ok (t,true) => search index bases target t
    | .ok (t,false) => .ok t
  else .ok s
termination_by target.length - s.position
decreasing_by
  have hlt := position_lt_of_iteration _h
  have hblock : 0 < blockSize := by decide
  omega

lemma search_eq (index : List Anchor) (bases : List Bytes) (target : Bytes) (s : Search) :
    search index bases target s =
      if index ≠ [] ∧ s.position + blockSize ≤ target.length then
        iteration index bases target s >>= fun r =>
          if r.2 then search index bases target r.1 else .ok r.1
      else .ok s := by
  rw [search]
  split_ifs with hloop
  · split
    · rename_i e hi
      rw [hi]
      rfl
    · rename_i t hi
      rw [hi]
      rfl
    · rename_i t hi
      rw [hi]
      rfl
  · rfl

/-- `Base` of a body. -/
def describe (cr : Crates) (body : Bytes) : Base := ⟨hash cr body,body.length⟩

/-- The anchors of all bases. -/
def anchors (bases : List Bytes) : List Anchor :=
  bases.zipIdx.flatMap fun (base,id) => anchorsOf id base

/-- The operations with the tail of the target. -/
def finish (target : Bytes) (s : Search) : List DeltaOp :=
  if s.literal < target.length then s.ops ++ [.insert (target.drop s.literal)] else s.ops

def create (cr : Crates) (bases : List Bytes) (target : Bytes) : Result Recipe := do
  require (bases.length ≤ maxBases ∧ target.length ≤ maxTargetBytes ∧
    (bases.map List.length).sum ≤ maxBaseBytes) ⟨"delta-limit"⟩
  let s ← search (indexOf (anchors bases)) bases target ⟨0,0,[],none,0⟩
  let recipe : Recipe :=
    ⟨bases.map (describe cr),hash cr target,target.length,finish target s⟩
  validate recipe
  pure recipe

/-- The check of one base. -/
def checkBase (cr : Crates) (bytes : Bytes) (base : Base) : Result Unit :=
  require (bytes.length = base.size ∧ hash cr bytes = base.hash) ⟨"base-hash-mismatch"⟩

def checkBases (cr : Crates) : List Bytes → List Base → Result Unit
  | bytes :: sources, base :: bases => do
    checkBase cr bytes base
    checkBases cr sources bases
  | _, _ => .ok ()

def apply (cr : Crates) (r : Recipe) (bases : List Bytes) : Result Bytes := do
  validate r
  require (bases.length = r.bases.length) ⟨"missing-base"⟩
  checkBases cr bases r.bases
  let output := r.ops.flatMap (opOutput bases)
  require (hash cr output = r.targetHash) ⟨"target-hash-mismatch"⟩
  pure output

/-! ### The loop -/

/-- The operations write the target up to the literal bytes, and each pair of them has cost 65
bytes of it. -/
structure Covers (bases : List Bytes) (target : Bytes) (s : Search) : Prop where
  builds : Builds bases s.ops (target.take s.literal)
  before : s.literal ≤ s.position
  inside : s.position ≤ target.length
  few : 65*s.ops.length ≤ 2*s.literal

section
variable {anchors : List Anchor} {bases : List Bytes} {target : Bytes}

lemma Covers.take {s : Search} (h : Covers bases target s) {best : Match}
    (hm : Matches bases target s.position best) (hb : blockSize ≤ best.length) :
    Covers bases target (take target best s) := by
  have hlen : 64 ≤ best.length := hb
  have hbefore := h.before
  have hfew := h.few
  unfold Delta.take
  dsimp only
  split_ifs with hlt
  · refine ⟨(h.builds.literal hlt h.inside).copy hm (by omega),Nat.le_refl _,hm.inTarget,?_⟩
    simp only [List.length_append, List.length_singleton]
    omega
  · have heq : s.literal = s.position := by omega
    have hbuilds := h.builds
    rw [heq] at hbuilds
    refine ⟨hbuilds.copy hm (by omega),Nat.le_refl _,hm.inTarget,?_⟩
    simp only [List.length_append, List.length_singleton]
    omega

lemma Covers.probe (ha : ∀ a ∈ anchors, Inside bases a) {s t : Search} {more : Bool}
    (h : Covers bases target s) (hpos : s.position + blockSize ≤ target.length)
    (hi : probe (indexOf anchors) bases target s = .ok (t,more)) : Covers bases target t := by
  obtain ⟨key,hb,-,rfl⟩ | ⟨-,hp,hl,ho⟩ | ⟨-,hp,hl,ho⟩ := probe_cases hi
  · have hblock : 0 < blockSize := by decide
    obtain hz | hm := bestMatch_spec ha hpos key
    · omega
    · exact h.take hm hb
  · have hblock : 0 < blockSize := by decide
    have := h.before
    refine ⟨?_,by omega,by omega,?_⟩
    · rw [ho, hl]
      exact h.builds
    · rw [ho, hl]
      exact h.few
  · refine ⟨?_,?_,?_,?_⟩
    · rw [ho, hl]
      exact h.builds
    · rw [hp, hl]
      exact h.before
    · rw [hp]
      exact h.inside
    · rw [ho, hl]
      exact h.few

theorem Covers.search (ha : ∀ a ∈ anchors, Inside bases a) {s t : Search}
    (h : Covers bases target s) (hs : search (indexOf anchors) bases target s = .ok t) :
    Covers bases target t := by
  induction s using search.induct (indexOf anchors) bases target with
  | case1 s hloop e hi =>
    rw [search_eq, if_pos hloop, hi] at hs
    cases hs
  | case2 s hloop u hi ih =>
    rw [search_eq, if_pos hloop, hi] at hs
    exact ih (h.probe ha hloop.2 (iteration_eq_ok.mp hi).1) hs
  | case3 s hloop u hi =>
    rw [search_eq, if_pos hloop, hi] at hs
    rw [← Except.ok.inj hs]
    exact h.probe ha hloop.2 (iteration_eq_ok.mp hi).1
  | case4 s hloop =>
    rw [search_eq, if_neg hloop] at hs
    rw [← Except.ok.inj hs]
    exact h

lemma iteration_ok (ha : ∀ a ∈ anchors, Inside bases a) (ht : target.length ≤ maxPatchBytes)
    {s : Search} (h : Covers bases target s) (hpos : s.position + blockSize ≤ target.length) :
    ∃ r, iteration (indexOf anchors) bases target s = .ok r := by
  have hp : ∃ r, probe (indexOf anchors) bases target s = .ok r := by
    unfold Delta.probe
    dsimp only
    split_ifs
    · exact ⟨_,rfl⟩
    · unfold skip
      dsimp only
      split_ifs
      · omega
      · exact ⟨_,rfl⟩
      · exact ⟨_,rfl⟩
  obtain ⟨⟨t,more⟩,hp⟩ := hp
  refine ⟨(t,more),iteration_eq_ok.mpr ⟨hp,fun _ => ?_⟩⟩
  have hc := h.probe ha hpos hp
  have hfew := hc.few
  have hbefore := hc.before
  have hinside := hc.inside
  unfold maxPatchBytes at ht
  unfold maxOps
  omega

/-- A target of at most 8 MiB is searched to an end. -/
theorem search_ok (ha : ∀ a ∈ anchors, Inside bases a) (ht : target.length ≤ maxPatchBytes)
    {s : Search} (h : Covers bases target s) :
    ∃ t, search (indexOf anchors) bases target s = .ok t := by
  induction s using search.induct (indexOf anchors) bases target with
  | case1 s hloop e hi =>
    obtain ⟨r,hr⟩ := iteration_ok ha ht h hloop.2
    rw [hi] at hr
    cases hr
  | case2 s hloop u hi ih =>
    rw [search_eq, if_pos hloop, hi]
    exact ih (h.probe ha hloop.2 (iteration_eq_ok.mp hi).1)
  | case3 s hloop u hi =>
    rw [search_eq, if_pos hloop, hi]
    exact ⟨u,rfl⟩
  | case4 s hloop =>
    rw [search_eq, if_neg hloop]
    exact ⟨s,rfl⟩

end

/-! ### The recipe -/

lemma anchors_inside (bases : List Bytes) : ∀ a ∈ anchors bases, Inside bases a := by
  intro a ha
  obtain ⟨⟨base,id⟩,hb,ha⟩ := List.mem_flatMap.mp ha
  obtain ⟨i,hi,rfl⟩ := List.mem_map.mp ha
  have hget := List.mem_zipIdx_iff_getElem?.mp hb
  have hlt := (List.getElem?_eq_some_iff.mp hget).1
  have hi := List.mem_range.mp hi
  refine ⟨hlt,?_⟩
  dsimp only
  rw [List.getD_eq_getElem?_getD, hget, Option.getD_some]
  have := Nat.div_mul_le_self base.length blockSize
  have := Nat.mul_le_mul_right blockSize hi
  rw [Nat.succ_mul] at this
  dsimp only
  omega

lemma Covers.finish {bases : List Bytes} {target : Bytes} {s : Search}
    (h : Covers bases target s) : Builds bases (finish target s) target ∧
      (finish target s).length ≤ s.ops.length + 1 := by
  have hle := Nat.le_trans h.before h.inside
  unfold Delta.finish
  split_ifs with hlt
  · have := h.builds.literal hlt (Nat.le_refl _)
    rw [List.take_length, ← List.length_drop, List.take_length] at this
    exact ⟨this,by simp⟩
  · have heq : s.literal = target.length := by omega
    have := h.builds
    rw [heq, List.take_length] at this
    exact ⟨this,Nat.le_succ _⟩

lemma covers_start (bases : List Bytes) (target : Bytes) :
    Covers bases target ⟨0,0,[],none,0⟩ :=
  ⟨Builds.nil bases,Nat.le_refl _,Nat.zero_le _,Nat.le_refl _⟩

lemma checkBases_describe (cr : Crates) (bases : List Bytes) :
    checkBases cr bases (bases.map (describe cr)) = .ok () := by
  induction bases with
  | nil => rfl
  | cons base bases ih =>
    exact bind_eq_ok.mpr ⟨(),require_eq_ok.mpr ⟨rfl,rfl⟩,ih⟩

theorem apply_create {cr : Crates} {bases : List Bytes} {target : Bytes} {r : Recipe}
    (h : create cr bases target = .ok r) : apply cr r bases = .ok target := by
  obtain ⟨_,-,h⟩ := bind_eq_ok.mp h
  obtain ⟨s,hs,h⟩ := bind_eq_ok.mp h
  obtain ⟨_,hv,h⟩ := bind_eq_ok.mp h
  obtain rfl := Except.ok.inj h
  have hb := ((covers_start bases target).search (anchors_inside bases) hs).finish.1
  refine bind_eq_ok.mpr ⟨(),hv,bind_eq_ok.mpr ⟨(),?_,bind_eq_ok.mpr ⟨(),?_,?_⟩⟩⟩
  · rw [require_eq_ok, List.length_map]
  · exact checkBases_describe cr bases
  · dsimp only
    rw [hb.output]
    exact bind_eq_ok.mpr ⟨(),require_eq_ok.mpr rfl,rfl⟩

lemma validate_ok {cr : Crates} (hx : ∀ bytes, validateHash (cr.sha256 bytes) = .ok ())
    {bases : List Bytes} {target : Bytes} (hfew : bases.length ≤ maxBases) (hn : bases.Nodup)
    (hsum : (bases.map List.length).sum ≤ maxBaseBytes) (ht : target.length ≤ maxPatchBytes)
    (hc : CollisionFree cr {base | base ∈ bases}) {s : Search} (h : Covers bases target s) :
    validate ⟨bases.map (describe cr),hash cr target,target.length,finish target s⟩ = .ok () := by
  obtain ⟨hb,hlen⟩ := h.finish
  have hsizes : (bases.map (describe cr)).map Base.size = bases.map List.length := by
    rw [List.map_map]
    rfl
  have hops : s.ops.length + 1 ≤ maxOps := by
    have hfew := h.few
    have hbefore := h.before
    have hinside := h.inside
    unfold maxPatchBytes at ht
    unfold maxOps
    omega
  refine validateLimits_eq_ok.mpr
    ⟨hx target,?_,?_,Nat.le_trans hlen hops,?_,?_,?_,?_,hb.sizes,?_⟩
  · rw [List.length_map]
    exact hfew
  · exact Nat.le_trans ht (by decide)
  · intro b hm
    obtain ⟨body,-,rfl⟩ := List.mem_map.mp hm
    exact hx body
  · rw [List.map_map]
    exact hn.map_on fun a ha b hb => hc ha hb
  · rw [hsizes]
    exact hsum
  · intro op hop
    have hsound := hb.sound op hop
    exact ⟨opLength_of_opSound hsizes hsound,(length_of_opSound hsound).2⟩
  · refine Nat.le_trans (sum_literal_le _) ?_
    rw [hb.sizes]
    exact ht

/-- Making a recipe succeeds on a few distinct bases and a target of at most 8 MiB, and every recipe
that is made yields exactly its target. -/
theorem create_exact (cr : Crates) (hx : ∀ bytes, validateHash (cr.sha256 bytes) = .ok ())
    (bases : List Bytes) (target : Bytes) :
    (bases.length ≤ 4 → bases.Nodup → (bases.map List.length).sum ≤ 32*1024*1024 →
      target.length ≤ 8*1024*1024 → CollisionFree cr {base | base ∈ bases} →
      ∃ r, create cr bases target = .ok r ∧ apply cr r bases = .ok target) ∧
    ∀ r, create cr bases target = .ok r → apply cr r bases = .ok target := by
  refine ⟨?_,fun r => apply_create⟩
  intro hfew hn hsum ht hc
  have ha := anchors_inside bases
  have hstart := covers_start bases target
  obtain ⟨s,hs⟩ := search_ok ha ht hstart
  have hv := validate_ok hx hfew hn hsum ht hc (hstart.search ha hs)
  have hcreate : create cr bases target =
      .ok ⟨bases.map (describe cr),hash cr target,target.length,finish target s⟩ := by
    refine bind_eq_ok.mpr ⟨(),require_eq_ok.mpr ⟨hfew,Nat.le_trans ht (by decide),hsum⟩,?_⟩
    exact bind_eq_ok.mpr ⟨s,hs,bind_eq_ok.mpr ⟨(),hv,rfl⟩⟩
  exact ⟨_,hcreate,apply_create hcreate⟩

def sampleBase : Bytes := List.replicate 64 7
def sampleTarget : Bytes := 9 :: sampleBase

/-- The digests of a small run. -/
def sampleCrates : Crates :=
  { tabulated [] [] [] with
    sha256 := fun bytes =>
      if bytes = sampleBase then
        "6cfeeb3aa25d3f411dae5eec17d7369ca7153e72dcf54bcf4c3daec0f5b21fc7"
      else if bytes = sampleTarget then
        "00445a19e1b1af5f1f88a2b8e7ec9967959ca586ee7a1f03472a10aab66b1386"
      else "e3b0c44298fc1c149afbf4c8996fb92427ae41e4649b934ca495991b7852b855" }

lemma sampleCrates_hash (bytes : Bytes) : validateHash (sampleCrates.sha256 bytes) = .ok () := by
  unfold sampleCrates
  dsimp only
  split_ifs
  all_goals decide +kernel

/-- A byte put before a base is sent, the base is copied. -/
theorem create_exact_sample : ∃ r, create sampleCrates [sampleBase] sampleTarget = .ok r ∧
    apply sampleCrates r [sampleBase] = .ok sampleTarget := by
  have hc : CollisionFree sampleCrates {base | base ∈ [sampleBase]} := by
    intro a ha b hb _
    rw [List.mem_singleton.mp ha, List.mem_singleton.mp hb]
  exact (create_exact sampleCrates sampleCrates_hash [sampleBase] sampleTarget).1 (by decide)
    (by decide) (by decide) (by decide) hc

end Delta
end RisuNest.Transfer
