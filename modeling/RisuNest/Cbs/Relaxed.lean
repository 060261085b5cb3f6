import RisuNest.Cbs.Taped
import RisuNest.Lib.Doubles
import RisuNest.Lib.Fallible

/-! Scripts whose random choices are made afterwards: a tree of all outputs (`relaxed.rs`). -/
namespace RisuNest.Cbs

inductive Tree
  | output (text : Units)
  | choice (branches : List Tree)

structure Program where
  tree : Tree
  nodes : ℕ
  leaves : ℕ
  retainedBytes : ℕ

structure Limits where
  nodes : ℕ
  leaves : ℕ
  bytes : ℕ

/-- How much memory is taken, which the machine and the allocator decide. -/
structure Layout where
  /-- `size_of::<Tree>()` -/
  tree : ℕ
  /-- The capacity of the output of a run. -/
  output : List ℕ → Units → ℕ
  /-- The capacity that is reserved for some branches. -/
  branches : ℕ → ℕ

/-- A script at the start of a tape. -/
def onTape (c : Context) (tape : List ℕ) (budget : Budget) : Machine :=
  ⟨{ c with temp := .empty, choices := some ⟨tape,0,none⟩ },budget⟩

def treeBound : Except String (Tree × Limits × Budget) := .error "rng-tree-bound"

section
variable {F : Type} (f : Floats F) (layout : Layout) (nodes : List Node) (c : Context)

/-- The branches of a choice from an index on. -/
def branchesFrom (expand : List ℕ → Limits × Budget → Except String (Tree × Limits × Budget))
    (tape : List ℕ) : ℕ → ℕ → Limits × Budget → Except String (List Tree × Limits × Budget)
  | _, 0, s => .ok ([],s)
  | index, n+1, s => do
    let (branch, s) ← expand (tape ++ [index]) s
    let (branches, s) ← branchesFrom expand tape (index+1) n s
    .ok (branch :: branches,s)

/-- `expand`, where the first number is what a tape of 12 choices has left. -/
def expandTree : ℕ → List ℕ → Limits × Budget → Except String (Tree × Limits × Budget)
  | 0, _, _ => treeBound
  | room+1, tape, (limits,budget) =>
    let limits := { limits with nodes := limits.nodes + 1 }
    if 512 < limits.nodes then treeBound
    else match evaluate f nodes (onTape c tape budget) with
    | .ok output m =>
      let limits := { limits with
        leaves := limits.leaves + 1
        bytes := limits.bytes + layout.output tape output*2 + layout.tree }
      if 256 < limits.leaves ∨ 2097152 < limits.bytes then treeBound
      else .ok (.output output,limits,m.budget)
    | .error e m =>
      if e = "rng-choice-needed" then
        match m.context.choices.bind ChoiceTape.nextArity with
        | none => .error "rng-choice-state"
        | some arity => do
          let limits := { limits with
            bytes := limits.bytes + layout.branches arity*layout.tree }
          let (branches, s) ← branchesFrom (expandTree room) tape 0 arity (limits,m.budget)
          .ok (.choice branches,s)
      else .error e

/-- The budget of all runs together. -/
def Budget.relaxed : Budget := ⟨1000000,262144,false⟩

end

section
variable {F : Type} (f : Floats F) (layout : Layout)

def prepare (source : Units) (c : Context) : Except String Program :=
  if 65536 < source.length then .error "rng-source-bound"
  else do
    let nodes ← compile source
    let (tree, limits, _) ← expandTree f layout nodes c 13 [] (⟨0,0,0⟩,.relaxed)
    if 2097152 < limits.bytes then .error "rng-tree-bound"
    else .ok ⟨tree,limits.nodes,limits.leaves,limits.bytes⟩

end

/-! ### Samples -/

structure Choice where
  arity : ℕ
  index : ℕ

structure Sample where
  output : Units
  choices : List Choice
  entropyWords : ℕ

/-- `uniform_index`: the words that are drawn until one is not left over. The generator fails where
it has no more. -/
def uniformIndex (arity : ℕ) : List UInt64 → ℕ → Except String (ℕ × List UInt64 × ℕ)
  | [], _ => .error "rng-entropy"
  | value :: entropy, words =>
    if (2^64 - arity) % arity ≤ value.toNat then .ok (value.toNat % arity,entropy,words + 1)
    else uniformIndex arity entropy (words + 1)

/-- The index of the next choice. -/
def pick (tape : Option (List Double)) (arity made : ℕ) (entropy : List UInt64) (words : ℕ) :
    Except String (ℕ × List UInt64 × ℕ) :=
  match tape with
  | some units =>
    match units[made]? with
    | some unit =>
      .ok (Doubles.floorToNat (Doubles.mul unit.value (Doubles.ofNat arity)),entropy,words)
    | none => .error "rng-tape-exhausted"
  | none => uniformIndex arity entropy words

mutual
def sampleFrom (tape : Option (List Double)) :
    Tree → List Choice → List UInt64 → ℕ → Except String Sample
  | .output output, choices, _, words => .ok ⟨output,choices,words⟩
  | .choice branches, choices, entropy, words => do
    let (index, entropy, words) ← pick tape branches.length choices.length entropy words
    sampleAt tape branches index (choices ++ [⟨branches.length,index⟩]) entropy words

/-- The branch of an index; one that is out of range stops the program. -/
def sampleAt (tape : Option (List Double)) :
    List Tree → ℕ → List Choice → List UInt64 → ℕ → Except String Sample
  | [], _, _, _, _ => .error "index out of bounds"
  | branch :: _, 0, choices, entropy, words => sampleFrom tape branch choices entropy words
  | _ :: branches, index+1, choices, entropy, words =>
    sampleAt tape branches index choices entropy words
end

def sample (program : Program) (tape : Option (List Double)) (entropy : List UInt64) :
    Except String Sample :=
  if tape.any fun units => units.any fun unit => !Doubles.isUnit unit.value then
    .error "rng-tape-domain"
  else sampleFrom tape program.tree [] entropy 0

/-! ### Walks -/

namespace Tree

/-- Where a sequence of indices leads. -/
def walk : List ℕ → Tree → Option Tree
  | [], t => some t
  | index :: path, .choice branches => branches[index]?.bind (walk path)
  | _ :: _, .output _ => none

end Tree

/-! ### Runs at the start of a tape -/

section
variable {F : Type} (f : Floats F) (nodes : List Node) (c : Context)

/-- The run with a tape ends, with the whole tape read. -/
def Ends (tape : List ℕ) (text : Units) : Prop :=
  ∃ m, evaluate f nodes (onTape c tape .relaxed) = .ok text m ∧
    m.context.choices = some ⟨tape,tape.length,none⟩

/-- The run with a tape needs a choice after the tape. -/
def Asks (tape : List ℕ) (arity : ℕ) : Prop :=
  (∃ m, evaluate f nodes (onTape c tape .relaxed) = .error "rng-choice-needed" m ∧
    m.context.choices = some ⟨tape,tape.length,some arity⟩) ∧ 0 < arity ∧ arity ≤ 16

/-- What a place of the tree says about the run with the tape that leads there. -/
def Shows (tape : List ℕ) : Tree → Prop
  | .output text => Ends f nodes c tape text
  | .choice branches => Asks f nodes c tape branches.length

variable {f nodes c}

lemma onTape_on {tape tape' : List ℕ} {b b' : Budget} (h : Spent b' b) :
    (onTape c tape b).on ⟨tape',0,none⟩ (b'.remaining - b.remaining) = onTape c tape' b' := by
  have hremaining : b.remaining + (b'.remaining - b.remaining) = b'.remaining :=
    Nat.add_sub_cancel' h.remaining
  unfold Machine.on onTape
  dsimp only
  rw [hremaining, h.maxOutput, h.cancel]

lemma replays_evaluate : Replays (evaluate f nodes) := Replays.evaluateFrom f [] nodes

lemma evaluate_relaxed {tape : List ℕ} {b : Budget} (hb : Spent .relaxed b) {out : Units}
    {m : Machine} (h : evaluate f nodes (onTape c tape b) = .ok out m) : ∃ m' k,
      evaluate f nodes (onTape c tape .relaxed) = .ok out m' ∧ k ≤ tape.length ∧
        m'.context.choices = some ⟨tape,k,none⟩ := by
  obtain ⟨k, -, hk, -, hon⟩ := replays_evaluate.ok rfl (Nat.zero_le _) h
  have hsame := hon [] (Budget.relaxed.remaining - b.remaining)
  rw [List.append_nil, onTape_on hb] at hsame
  exact ⟨_,k,hsame,hk,rfl⟩

lemma whole_tape_read {p : List ℕ} {i arity : ℕ} (hp : Asks f nodes c p arity) {b : Budget} (hb : Spent .relaxed b) {out : Units}
    {m : Machine} (h : evaluate f nodes (onTape c (p ++ [i]) b) = .ok out m) :
    Ends f nodes c (p ++ [i]) out := by
  obtain ⟨⟨m₀, hasked, hchoices⟩, -⟩ := hp
  obtain ⟨m', k, hrun, hk, hm'⟩ := evaluate_relaxed hb h
  obtain ⟨-, -, -, -, -, hnext⟩ :=
    replays_evaluate.asks rfl (Nat.zero_le _) hasked hchoices rfl
  have hlong : (onTape c p .relaxed).on ⟨p ++ [i],0,none⟩
      (Budget.relaxed.remaining - Budget.relaxed.remaining) = onTape c (p ++ [i]) .relaxed :=
    onTape_on (.refl _)
  rw [Nat.sub_self] at hlong
  obtain ⟨k', hlt, hk'⟩ := hnext i [] out m' (hlong ▸ hrun)
  rw [hm'] at hk'
  cases hk'
  rw [List.length_append, List.length_singleton] at hk
  have hall : k = (p ++ [i]).length := by
    rw [List.length_append, List.length_singleton]
    omega
  exact ⟨m',hrun,hall ▸ hm'⟩

lemma asks_of_error {tape : List ℕ} {b : Budget} (hb : Spent .relaxed b) {e : String} {m : Machine}
    (h : evaluate f nodes (onTape c tape b) = .error e m) {arity : ℕ}
    (harity : m.context.choices.bind ChoiceTape.nextArity = some arity) :
    Asks f nodes c tape arity := by
  obtain ⟨tape', htape, hn⟩ := Option.bind_eq_some_iff.mp harity
  obtain ⟨rfl, rfl, hpos, hle, hmore, -⟩ :=
    replays_evaluate.asks rfl (Nat.zero_le _) h htape hn
  have hsame := hmore (Budget.relaxed.remaining - b.remaining)
  rw [onTape_on hb] at hsame
  exact ⟨⟨_,hsame,rfl⟩,hpos,hle⟩

/-- All places of a tree after a tape. -/
def Good (f : Floats F) (nodes : List Node) (c : Context) (tape : List ℕ) (t : Tree) : Prop :=
  ∀ path u, t.walk path = some u → (tape ++ path).length ≤ 12 ∧ Shows f nodes c (tape ++ path) u

lemma walk_output {text : Units} {path : List ℕ} {u : Tree}
    (h : (Tree.output text).walk path = some u) : path = [] ∧ u = .output text := by
  cases path with
  | nil => exact ⟨rfl,(Option.some.inj h).symm⟩
  | cons index path => cases h

/-- The tape is empty, or its last index answers a choice. -/
def Asked (f : Floats F) (nodes : List Node) (c : Context) (tape : List ℕ) : Prop :=
  tape = [] ∨ ∃ p i arity, tape = p ++ [i] ∧ Asks f nodes c p arity

lemma ends_of_ok {tape : List ℕ} (hasked : Asked f nodes c tape) {b : Budget}
    (hb : Spent .relaxed b) {out : Units} {m : Machine}
    (h : evaluate f nodes (onTape c tape b) = .ok out m) : Ends f nodes c tape out := by
  cases hasked with
  | inl hnil =>
    subst hnil
    obtain ⟨m', k, hrun, hk, hm'⟩ := evaluate_relaxed hb h
    obtain rfl : k = 0 := Nat.le_zero.mp hk
    exact ⟨m',hrun,hm'⟩
  | inr hlast =>
    obtain ⟨p, i, arity, rfl, hp⟩ := hlast
    exact whole_tape_read hp hb h

lemma spent_of_run {tape : List ℕ} {b : Budget} (hb : Spent .relaxed b) :
    Spent .relaxed (left (evaluate f nodes (onTape c tape b))).budget := by
  have hrun : Spent (onTape c tape b).budget (left (evaluate f nodes (onTape c tape b))).budget :=
    replays_evaluate.spends rfl (Nat.zero_le tape.length)
  exact hb.trans hrun

/-! ### The tree -/

abbrev Expansion := List ℕ → Limits × Budget → Except String (Tree × Limits × Budget)

/-- An expansion at a tape gives the tree of what comes after the tape. -/
def Expands (f : Floats F) (nodes : List Node) (c : Context) (expand : Expansion)
    (tape : List ℕ) : Prop :=
  ∀ s t s', Spent .relaxed s.2 → expand tape s = .ok (t,s') →
    Spent .relaxed s'.2 ∧ Good f nodes c tape t

lemma branchesFrom_good {expand : Expansion} {tape : List ℕ}
    (hexpand : ∀ i, Expands f nodes c expand (tape ++ [i])) {n index : ℕ}
    {s s' : Limits × Budget} {branches : List Tree} (hs : Spent .relaxed s.2)
    (h : branchesFrom expand tape index n s = .ok (branches,s')) :
    branches.length = n ∧ Spent .relaxed s'.2 ∧
      ∀ j t, branches[j]? = some t → Good f nodes c (tape ++ [index + j]) t := by
  induction n generalizing index s branches with
  | zero =>
    cases h
    refine ⟨rfl,hs,?_⟩
    intro j t ht
    cases ht
  | succ n ih =>
    obtain ⟨⟨t, s₁⟩, hfirst, hrest⟩ := bind_eq_ok.mp h
    obtain ⟨⟨ts, s₂⟩, hbranches, hlast⟩ := bind_eq_ok.mp hrest
    cases hlast
    obtain ⟨hs₁, ht⟩ := hexpand index s t s₁ hs hfirst
    obtain ⟨hlength, hs₂, hgood⟩ := ih hs₁ hbranches
    refine ⟨by rw [List.length_cons, hlength],hs₂,?_⟩
    intro j u hu
    cases j with
    | zero =>
      cases hu
      exact ht
    | succ j =>
      have := hgood j u hu
      rwa [Nat.add_assoc, Nat.add_comm 1] at this

lemma good_output {tape : List ℕ} {text : Units} (hlength : tape.length ≤ 12)
    (h : Ends f nodes c tape text) : Good f nodes c tape (.output text) := by
  intro path u hu
  obtain ⟨rfl, rfl⟩ := walk_output hu
  rw [List.append_nil]
  exact ⟨hlength,h⟩

lemma good_choice {tape : List ℕ} {branches : List Tree} (hlength : tape.length ≤ 12)
    (h : Asks f nodes c tape branches.length)
    (hbranches : ∀ j t, branches[j]? = some t → Good f nodes c (tape ++ [j]) t) :
    Good f nodes c tape (.choice branches) := by
  intro path u hu
  cases path with
  | nil =>
    cases hu
    rw [List.append_nil]
    exact ⟨hlength,h⟩
  | cons index path =>
    obtain ⟨t, ht, hwalk⟩ := Option.bind_eq_some_iff.mp hu
    have := hbranches index t ht path u hwalk
    rwa [List.append_assoc] at this

/-- Every place of an expanded tree shows its run. -/
theorem expandTree_expands {layout : Layout} {room : ℕ} {tape : List ℕ}
    (hroom : room + tape.length = 13) (hasked : Asked f nodes c tape) :
    Expands f nodes c (expandTree f layout nodes c room) tape := by
  induction room generalizing tape with
  | zero =>
    intro s t s' _ h
    cases h
  | succ room ih =>
    intro s t s' hs h
    obtain ⟨limits, b⟩ := s
    unfold expandTree at h
    dsimp only at h
    have hspent : Spent .relaxed (left (evaluate f nodes (onTape c tape b))).budget :=
      spent_of_run hs
    split_ifs at h
    · cases h
    · cases hrun : evaluate f nodes (onTape c tape b) with
      | ok output m =>
        rw [hrun] at h hspent
        dsimp only at h
        split_ifs at h
        · cases h
        · cases h
          exact ⟨hspent,good_output (by omega) (ends_of_ok hasked hs hrun)⟩
      | error e m =>
        rw [hrun] at h hspent
        dsimp only at h
        split_ifs at h
        cases harity : m.context.choices.bind ChoiceTape.nextArity with
        | none =>
          rw [harity] at h
          cases h
        | some arity =>
          rw [harity] at h
          obtain ⟨⟨branches, s₁⟩, hbranches, hlast⟩ := bind_eq_ok.mp h
          cases hlast
          have hasks := asks_of_error hs hrun harity
          obtain ⟨rfl, hs₁, hgood⟩ := branchesFrom_good (fun i => ih
            (by rw [List.length_append, List.length_singleton]; omega)
            (.inr ⟨tape,i,arity,rfl,hasks⟩)) hspent hbranches
          refine ⟨hs₁,good_choice (by omega) hasks ?_⟩
          intro j t ht
          have := hgood j t ht
          rwa [Nat.zero_add] at this

lemma prepare_good {layout : Layout} {source : Units} {program : Program}
    (h : prepare f layout source c = .ok program) :
    ∃ nodes, compile source = .ok nodes ∧ Good f nodes c [] program.tree := by
  unfold prepare at h
  split_ifs at h
  obtain ⟨nodes, hnodes, h⟩ := bind_eq_ok.mp h
  obtain ⟨⟨tree, limits, b⟩, htree, h⟩ := bind_eq_ok.mp h
  dsimp only at h
  split_ifs at h
  cases h
  exact ⟨nodes,hnodes,(expandTree_expands rfl (.inl rfl) _ _ _ (.refl _) htree).2⟩

/-! ### Walks to a leaf -/

lemma walk_append (t : Tree) (p q : List ℕ) : t.walk (p ++ q) = (t.walk p).bind (Tree.walk q) := by
  induction p generalizing t with
  | nil => rfl
  | cons index p ih =>
    cases t with
    | output text => rfl
    | choice branches =>
      change (branches[index]?.bind fun t => t.walk (p ++ q)) =
        (branches[index]?.bind (Tree.walk p)).bind (Tree.walk q)
      cases branches[index]? with
      | none => rfl
      | some t => exact ih t

lemma walk_step {t : Tree} {p : List ℕ} {branches : List Tree} (h : t.walk p = some (.choice branches))
    (i : ℕ) : t.walk (p ++ [i]) = branches[i]? := by
  rw [walk_append, h]
  change branches[i]?.bind (Tree.walk []) = _
  cases branches[i]? <;> rfl

/-- Indices in range lead to a leaf. -/
theorem exists_leaf {t : Tree} (h : Good f nodes c [] t) {s : ℕ → ℕ}
    (hs : ∀ k branches, t.walk ((List.range k).map s) = some (.choice branches) →
      s k < branches.length) :
    ∃ k ≤ 12, ∃ text, t.walk ((List.range k).map s) = some (.output text) := by
  have hreach : ∀ k, (∃ j ≤ 12, ∃ text, t.walk ((List.range j).map s) = some (.output text)) ∨
      ∃ u, t.walk ((List.range k).map s) = some u := by
    intro k
    induction k with
    | zero => exact .inr ⟨t,rfl⟩
    | succ k ih =>
      cases ih with
      | inl hleaf => exact .inl hleaf
      | inr hplace =>
        obtain ⟨u, hu⟩ := hplace
        cases u with
        | output text =>
          have hlength := (h _ _ hu).1
          rw [List.nil_append, List.length_map, List.length_range] at hlength
          exact .inl ⟨k,hlength,text,hu⟩
        | choice branches =>
          have hlt := hs k branches hu
          right
          rw [List.range_succ, List.map_append, List.map_singleton, walk_step hu,
            List.getElem?_eq_getElem hlt]
          exact ⟨_,rfl⟩
  cases hreach 13 with
  | inl hleaf => exact hleaf
  | inr hplace =>
    obtain ⟨u, hu⟩ := hplace
    have hlength := (h _ _ hu).1
    rw [List.nil_append, List.length_map, List.length_range] at hlength
    omega

/-! ### Samples -/

lemma sampleAt_eq {tape : Option (List Double)} {branches : List Tree} {index : ℕ} {t : Tree}
    (h : branches[index]? = some t) (choices : List Choice) (entropy : List UInt64) (words : ℕ) :
    sampleAt tape branches index choices entropy words =
      sampleFrom tape t choices entropy words := by
  induction branches generalizing index with
  | nil => cases h
  | cons branch branches ih =>
    cases index with
    | zero =>
      cases h
      rw [sampleAt]
    | succ index =>
      rw [sampleAt]
      exact ih h

/-- The choices of a sample are those of the places that they lead through. -/
def Traced (t : Tree) (choices : List Choice) : Prop :=
  ∀ k choice, choices[k]? = some choice → ∃ branches,
    t.walk ((choices.take k).map Choice.index) = some (.choice branches) ∧
      choice.arity = branches.length

lemma Traced.snoc {t : Tree} {choices : List Choice} (h : Traced t choices) {branches : List Tree}
    (hplace : t.walk (choices.map Choice.index) = some (.choice branches)) (index : ℕ) :
    Traced t (choices ++ [⟨branches.length,index⟩]) := by
  intro k choice hchoice
  by_cases hk : k < choices.length
  · rw [List.getElem?_append_left hk] at hchoice
    rw [List.take_append_of_le_length hk.le]
    exact h k choice hchoice
  · have hlt := (List.getElem?_eq_some_iff.mp hchoice).1
    rw [List.length_append, List.length_singleton] at hlt
    obtain rfl : k = choices.length := by omega
    rw [List.getElem?_append_right le_rfl, Nat.sub_self] at hchoice
    cases hchoice
    rw [List.take_left]
    exact ⟨branches,hplace,rfl⟩

/-- A sample with a tape of units ends at a leaf, or at a choice after the end of the tape. -/
def Sampled (t : Tree) (units : List Double) : Except String Sample → Prop
  | .ok s => t.walk (s.choices.map Choice.index) = some (.output s.output) ∧
      Traced t s.choices ∧ s.entropyWords = 0
  | .error e => e = "rng-tape-exhausted" ∧ ∃ path branches, path.length = units.length ∧
      t.walk path = some (.choice branches)

theorem sampled_sampleFrom {t : Tree} (h : Good f nodes c [] t) {units : List Double}
    (hunits : ∀ unit ∈ units, Doubles.isUnit unit.value = true) (entropy : List UInt64) {u : Tree}
    {choices : List Choice} (hplace : t.walk (choices.map Choice.index) = some u)
    (hmade : choices.length ≤ units.length) (htraced : Traced t choices) :
    Sampled t units (sampleFrom (some units) u choices entropy 0) := by
  have hbound : ∀ {cs : List Choice} {v : Tree}, t.walk (cs.map Choice.index) = some v →
      cs.length ≤ 12 := by
    intro cs v hv
    have hlength := (h _ _ hv).1
    rwa [List.nil_append, List.length_map] at hlength
  obtain ⟨room, hroom⟩ : ∃ room, room + choices.length = 13 := by
    have := hbound hplace
    exact ⟨13 - choices.length,by omega⟩
  induction room generalizing u choices with
  | zero =>
    have := hbound hplace
    omega
  | succ room ih =>
    cases u with
    | output text =>
      rw [sampleFrom]
      exact ⟨hplace,htraced,rfl⟩
    | choice branches =>
      rw [sampleFrom]
      cases hunit : units[choices.length]? with
      | none =>
        have hend : choices.length = units.length :=
          hmade.antisymm (List.getElem?_eq_none_iff.mp hunit)
        have hpick : pick (some units) branches.length choices.length entropy 0 =
            .error "rng-tape-exhausted" := by
          unfold pick
          dsimp only
          rw [hunit]
        rw [hpick]
        refine ⟨rfl,choices.map Choice.index,branches,?_,hplace⟩
        rw [List.length_map, hend]
      | some unit =>
        obtain ⟨hlt, hget⟩ := List.getElem?_eq_some_iff.mp hunit
        have hpick : pick (some units) branches.length choices.length entropy 0 =
            .ok (Doubles.floorToNat (Doubles.mul unit.value (Doubles.ofNat branches.length)),
              entropy,0) := by
          unfold pick
          dsimp only
          rw [hunit]
        obtain ⟨-, hpos, hle⟩ := (h _ _ hplace).2
        have hindex := Doubles.place_lt (hunits unit (hget ▸ List.getElem_mem hlt)) hpos
          (hle.trans_lt (by decide))
        rw [hpick]
        change Sampled t units (sampleAt (some units) branches
          (Doubles.floorToNat (Doubles.mul unit.value (Doubles.ofNat branches.length)))
          (choices ++ [⟨branches.length,_⟩]) entropy 0)
        generalize Doubles.floorToNat (Doubles.mul unit.value (Doubles.ofNat branches.length)) =
          index at hindex ⊢
        have hbranch := List.getElem?_eq_getElem hindex
        rw [sampleAt_eq hbranch]
        apply ih
        · rw [List.map_append, List.map_singleton, walk_step hplace, hbranch]
        · rw [List.length_append, List.length_singleton]
          omega
        · exact htraced.snoc hplace index
        · rw [List.length_append, List.length_singleton]
          omega

/-- A prepared tree is what its script evaluates to with every tape of choices: a leaf gives the
output of the run with the tape that leads to it, which the run reads as a whole, a choice has the
arity that the run with its tape needs next, indices in range always lead to a leaf, and a tape of
units is sampled to a leaf unless it ends before one. -/
theorem choice_tree_is_exact {layout : Layout} {source : Units} {program : Program}
    (h : prepare f layout source c = .ok program) : ∃ nodes, compile source = .ok nodes ∧
    (∀ path text, program.tree.walk path = some (.output text) →
      ∃ m, evaluate f nodes (onTape c path .relaxed) = .ok text m ∧
        m.context.choices = some ⟨path,path.length,none⟩) ∧
    (∀ path branches, program.tree.walk path = some (.choice branches) →
      ∃ m, evaluate f nodes (onTape c path .relaxed) = .error "rng-choice-needed" m ∧
        m.context.choices = some ⟨path,path.length,some branches.length⟩) ∧
    (∀ s : ℕ → ℕ, (∀ k branches, program.tree.walk ((List.range k).map s) =
        some (.choice branches) → s k < branches.length) →
      ∃ k ≤ 12, ∃ text, program.tree.walk ((List.range k).map s) = some (.output text)) ∧
    ∀ (units : List Double) (entropy : List UInt64),
      (∀ unit ∈ units, Doubles.isUnit unit.value = true) →
        Sampled program.tree units (sample program (some units) entropy) ∧
        (12 ≤ units.length → ∃ s, sample program (some units) entropy = .ok s) := by
  obtain ⟨nodes, hnodes, hgood⟩ := prepare_good h
  refine ⟨nodes,hnodes,?_,?_,fun s hs => exists_leaf hgood hs,?_⟩
  · intro path text hpath
    exact (hgood path _ hpath).2
  · intro path branches hpath
    exact (hgood path _ hpath).2.1
  · intro units entropy hunits
    have hdomain : (units.any fun unit => !Doubles.isUnit unit.value) = false := by
      rw [List.any_eq_false]
      intro unit hunit
      rw [hunits unit hunit]
      decide
    have hrun : sample program (some units) entropy =
        sampleFrom (some units) program.tree [] entropy 0 := by
      unfold sample
      rw [Option.any_some, hdomain]
      rfl
    have htraced : Traced program.tree [] := by
      intro k choice hk
      cases hk
    have hsampled : Sampled program.tree units
        (sampleFrom (some units) program.tree [] entropy 0) :=
      sampled_sampleFrom hgood hunits entropy rfl (Nat.zero_le _) htraced
    rw [hrun]
    refine ⟨hsampled,?_⟩
    intro hlong
    cases hs : sampleFrom (some units) program.tree [] entropy 0 with
    | ok s => exact ⟨s,rfl⟩
    | error e =>
      rw [hs] at hsampled
      obtain ⟨-, path, branches, hlength, hpath⟩ := hsampled
      obtain ⟨hbound, -, hpos, -⟩ := hgood path _ hpath
      -- the choice has a branch, which is within the bound
      have hbranch := walk_step hpath 0
      rw [List.getElem?_eq_getElem hpos] at hbranch
      have hdeeper := (hgood _ _ hbranch).1
      rw [List.nil_append, List.length_append, List.length_singleton] at hdeeper
      omega

end

/-- Two outputs to choose from. -/
def sampleProgram : Program :=
  ⟨.choice [.output (units "A"),.output (units "B")],3,2,148⟩

def sampleLayout : Layout := ⟨24,fun _ text => text.length + 12,id⟩

theorem choice_tree_is_exact_sample : ∃ nodes m,
    compile (units "\x7b\x7brandom::A::B\x7d\x7d") = .ok nodes ∧
    evaluate wholeFloats nodes (onTape .initial [1] .relaxed) = .ok (units "B") m := by
  have hprepare : prepare wholeFloats sampleLayout (units "\x7b\x7brandom::A::B\x7d\x7d")
      .initial = .ok sampleProgram := by
    rfl
  obtain ⟨nodes, hnodes, hleaf, -⟩ := choice_tree_is_exact hprepare
  obtain ⟨m, hm, -⟩ := hleaf [1] (units "B") rfl
  exact ⟨nodes,m,hnodes,hm⟩

end RisuNest.Cbs
