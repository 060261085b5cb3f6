import Mathlib.Data.Finset.Sort
import RisuNest.Storage.ReferencePaths
import RisuNest.Storage.StoreError

/-! Taking broken references out of a record (`drop_references` of `persistent_store/repair.rs`,
`root_entry` of `data_health/repair.rs`, `inlay_token_spans` of `lossless_f0.rs`). -/
namespace RisuNest.Storage.ReferenceRemoval
open PathTree PathStep ReferencePaths
variable {N Text : Type}

/-- The values that hold no others; the numbers are `N`. -/
inductive Scalar (N : Type)
  | null
  | bool (b : Bool)
  | number (n : N)
  | string (text : String)

/-- A JSON value. `serde_json` compares objects without their order. -/
abbrev Value (N : Type) := PathTree String (Scalar N)

namespace Value

def get (name : String) : Value N → Option (Value N)
  | .obj member => member name
  | _ => none

def asArray : Value N → Option (List (Value N))
  | .arr items => some items
  | _ => none

def asStr : Value N → Option String
  | .leaf (.string text) => some text
  | _ => none

end Value

/-! ### Inlay tokens -/

/-- Where a text begins in another one: `str::find`. -/
def find (pattern : List Char) : List Char → Option ℕ
  | [] => if pattern = [] then some 0 else none
  | c :: rest =>
    if pattern.isPrefixOf (c :: rest) then some 0 else (find pattern rest).map (· + 1)

def isJsDotLineTerminator (c : Char) : Bool :=
  c = '\n' || c = '\r' || c = '\u2028' || c = '\u2029'

def tokenPrefixes : List (List Char) :=
  ["inlay::".toList,"inlayed::".toList,"inlayeddata::".toList]

/-- The key of a token and the positions of its whole text. -/
structure Token where
  key : List Char
  start : ℕ
  stop : ℕ

/-- The loop of `inlay_token_spans`; each turn moves the cursor on. -/
def scanTokens (value : List Char) : ℕ → ℕ → List Token
  | 0, _ => []
  | n+1, cursor =>
    match find "\x7b\x7b".toList (value.drop cursor) with
    | none => []
    | some relativeStart =>
      let start := cursor + relativeStart
      let afterOpen := start + 2
      match tokenPrefixes.find? fun p => p.isPrefixOf (value.drop afterOpen) with
      | none => scanTokens value n afterOpen
      | some p =>
        let keyStart := afterOpen + p.length
        match find "\x7d\x7d".toList (value.drop keyStart) with
        | none => scanTokens value n afterOpen
        | some relativeEnd =>
          let keyEnd := keyStart + relativeEnd
          let key := (value.drop keyStart).take relativeEnd
          if key ≠ [] ∧ ¬ key.any isJsDotLineTerminator then
            ⟨key,start,keyEnd + 2⟩ :: scanTokens value n (keyEnd + 2)
          else scanTokens value n afterOpen

def inlayTokenSpans (value : List Char) : List Token := scanTokens value value.length 0

/-- The loop of `cut_tokens` from a cursor and a token's number on. -/
def keep (text : List Char) (tokens : ℕ → Bool) : ℕ → ℕ → List Token → List Char
  | cursor, _, [] => text.drop cursor
  | cursor, n, t :: rest =>
    if tokens n then
      (text.drop cursor).take (t.start - cursor) ++ keep text tokens t.stop (n+1) rest
    else keep text tokens cursor (n+1) rest

def cutText (tokens : ℕ → Bool) : Scalar N → Scalar N
  | .string text =>
    .string (String.ofList (keep text.toList tokens 0 0 (inlayTokenSpans text.toList)))
  | v => v

def cutTokens (steps : List Step) (tokens : ℕ → Bool) (value : Value N) : Value N :=
  modifyAt (onLeaf (cutText tokens)) steps value

/-! ### Entries of the root -/

structure Owner where
  kind : String
  id : String
  deriving DecidableEq

/-- The collection of the root for a kind of owner, and the field that names its entries. -/
def rootCollection (ownerKind : String) : Option (String × String) :=
  if ownerKind = "persona" then some ("personas","id")
  else if ownerKind = "module" then some ("modules","id")
  else if ownerKind = "loadout" then some ("loadouts","name")
  else none

def named (field : String) (entry : Value N) : Option String := (entry.get field).bind Value.asStr

def carries (owner : Owner) (field : String) (position : ℕ) (entry : Value N) : Bool :=
  match named field entry with
  | some identity => identity = owner.id
  | none => owner.kind = "persona" && owner.id = "#" ++ position.repr

/-- The loop of `root_entry`: the entry found so far, and whether it has a name of its own. -/
def searchEntry (owner : Owner) (field : String) :
    ℕ → Option (ℕ × Bool) → List (Value N) → Option (ℕ × Bool)
  | _, found, [] => found
  | position, found, entry :: rest =>
    if carries owner field position entry then
      if found.isSome then none
      else searchEntry owner field (position+1) (some (position,(named field entry).isSome)) rest
    else searchEntry owner field (position+1) found rest

def rootEntry (root : Value N) (owner : Owner) : Option (String × ℕ) := do
  let (collection,field) ← rootCollection owner.kind
  if owner.id = "" then none
  else
    let entries ← (← root.get collection).asArray
    match searchEntry owner field 0 none entries with
    | some (position,true) => some (collection,position)
    | _ => none

/-! ### The edits of one record -/

/-- What is at a path is removed, or one token of the text there. -/
abbrev Edit := List Step × Option ℕ

/-- The edits that do something, from the top of the record on. -/
def placed (entry : List Step) (edits : List Edit) : List Edit :=
  (edits.filter fun e => ¬(e.1 = [] ∧ e.2 = none)).map fun e => (entry ++ e.1,e.2)

/-- The paths of the tokens to cut, once each and in order, as a map has them. -/
def cutPaths (edits : List Edit) : List (List Step) :=
  ((edits.filter fun e => e.2.isSome).map Prod.fst).toFinset.sort

def removalPaths (edits : List Edit) : List (List Step) :=
  ((edits.filter fun e => e.2.isNone).map Prod.fst).toFinset.sort

/-- The value after all edits, below the entry. A cut keeps its text in place, so every cut runs
before a removal can shift an item. -/
def applyEdits (entry : List Step) (edits : List Edit) (value : Value N) : Value N :=
  let edits := placed entry edits
  let value := (cutPaths edits).foldl
    (fun v steps => cutTokens steps (fun n => decide ((steps,some n) ∈ edits)) v) value
  (removalPaths edits).reverse.foldl (fun v steps => removeAt steps v) value

def notOneEntry (owner : Owner) : StoreError :=
  .validation ("the " ++ owner.kind ++ " the diagnosis named is no longer one entry")

/-- `drop_references` on the text in the record's column, which stays as it is when it is gone or
no JSON. -/
def dropReferences (fromStr : Text → Option (Value N)) (toString : Value N → Text)
    (serialized : Option Text) (located : Option Owner) (edits : List Edit) :
    StoreResult (Option Text) :=
  match serialized.map fun t => (t,fromStr t) with
  | some (_,some value) =>
    match located with
    | none => .ok (some (toString (applyEdits [] edits value)))
    | some owner =>
      match rootEntry value owner with
      | none => .error (notOneEntry owner)
      | some (collection,position) =>
        .ok (some (toString (applyEdits [key collection,index position] edits value)))
  | _ => .ok serialized

/-! ### What the edits name -/

/-- A position outside of the tokens with the given numbers, which count from `n`. -/
def outside (tokens : ℕ → Bool) (ts : List Token) (n i : ℕ) : Bool :=
  !(ts.zipIdx n).any fun (t,m) => tokens m && decide (t.start ≤ i) && decide (i < t.stop)

/-- The characters of a text outside of the tokens with the given numbers. -/
def withoutTokens (tokens : ℕ → Bool) (text : List Char) : List Char :=
  (text.zipIdx.filter fun c => outside tokens (inlayTokenSpans text) 0 c.2).map Prod.fst

/-- A value without the tokens with the given numbers. -/
def withoutTokensOf (tokens : ℕ → Bool) : Scalar N → Scalar N
  | .string text => .string (String.ofList (withoutTokens tokens text.toList))
  | v => v

/-- The record without the places and the tokens its edits name; the paths, positions and numbers
are those of the record as it was. -/
def expected (edits : List Edit) : Value N → Value N :=
  edited (fun p => decide ((p,none) ∈ edits))
    fun p => withoutTokensOf fun n => decide ((p,some n) ∈ edits)

/-! ### Tokens follow one another -/

/-- Tokens from a cursor on, none of which begins inside of another. -/
def Spaced : ℕ → List Token → Prop
  | _, [] => True
  | cursor, t :: rest => cursor ≤ t.start ∧ t.start ≤ t.stop ∧ Spaced t.stop rest

lemma Spaced.mono {c d : ℕ} (h : c ≤ d) {ts : List Token} (hs : Spaced d ts) : Spaced c ts := by
  cases ts with
  | nil => trivial
  | cons t rest => exact ⟨h.trans hs.1,hs.2⟩

lemma spaced_scanTokens (value : List Char) (n cursor : ℕ) :
    Spaced cursor (scanTokens value n cursor) := by
  induction n generalizing cursor with
  | zero => trivial
  | succ n ih =>
    unfold scanTokens
    split
    · trivial
    · rename_i start _
      dsimp only
      have hskip := (ih (cursor + start + 2)).mono (c := cursor) (by omega)
      split
      · exact hskip
      · split
        · exact hskip
        · split_ifs
          · exact ⟨Nat.le_add_right ..,by dsimp only; omega,ih _⟩
          · exact hskip

lemma outside_cons (tokens : ℕ → Bool) (t : Token) (ts : List Token) (n i : ℕ) :
    outside tokens (t :: ts) n i = (!(tokens n && decide (t.start ≤ i) && decide (i < t.stop)) &&
      outside tokens ts (n+1) i) := by
  rw [outside, outside, List.zipIdx_cons, List.any_cons, Bool.not_or]

lemma Spaced.outside {tokens : ℕ → Bool} {ts : List Token} {c n i : ℕ} (h : Spaced c ts)
    (hi : i < c) : outside tokens ts n i = true := by
  induction ts generalizing c n with
  | nil => rfl
  | cons t ts ih =>
    obtain ⟨hc,hle,hs⟩ := h
    rw [outside_cons, ih hs (by omega), decide_eq_false (p := t.start ≤ i) (by omega),
      Bool.and_false, Bool.false_and]
    rfl

lemma zipIdx_split (l : List Char) {c b : ℕ} (h : c ≤ b) :
    l.zipIdx c = (l.take (b-c)).zipIdx c ++ (l.drop (b-c)).zipIdx b := by
  obtain hle | hlt := Nat.lt_or_ge l.length (b-c)
  · rw [List.take_of_length_le hle.le, List.drop_of_length_le hle.le]
    exact (List.append_nil _).symm
  · have hb : c + (l.take (b-c)).length = b := by
      rw [List.length_take_of_le hlt]
      omega
    conv_lhs => rw [← List.take_append_drop (b-c) l, List.zipIdx_append, hb]

lemma index_lt {l : List Char} {c b : ℕ} (h : c ≤ b) {x : Char × ℕ}
    (hx : x ∈ (l.take (b-c)).zipIdx c) : c ≤ x.2 ∧ x.2 < b := by
  have hle := List.le_snd_of_mem_zipIdx hx
  have hlt := List.snd_lt_add_of_mem_zipIdx hx
  have hlen := List.length_take_le (b-c) l
  omega

/-- Cutting token after token leaves the characters outside of all of them. -/
theorem keep_eq {text : List Char} {tokens : ℕ → Bool} {cursor n : ℕ} {ts : List Token}
    (h : Spaced cursor ts) :
    keep text tokens cursor n ts = (((text.drop cursor).zipIdx cursor).filter fun c =>
      outside tokens ts n c.2).map Prod.fst := by
  induction ts generalizing cursor n with
  | nil =>
    have : ∀ c : Char × ℕ, outside tokens [] n c.2 = true := fun _ => rfl
    simp only [keep, this, List.filter_true, List.zipIdx_map_fst]
  | cons t ts ih =>
    obtain ⟨hc,hle,hs⟩ := h
    unfold keep
    split_ifs with hn
    · have hrest : (((text.drop cursor).drop (t.start-cursor)).drop (t.stop-t.start)) =
          text.drop t.stop := by
        rw [List.drop_drop, List.drop_drop]
        congr 1
        omega
      rw [zipIdx_split _ hc, zipIdx_split (List.drop _ _) hle, hrest, List.filter_append,
        List.filter_append, List.map_append, List.map_append, ih hs]
      have hbefore : (((text.drop cursor).take (t.start-cursor)).zipIdx cursor).filter
          (fun c => outside tokens (t :: ts) n c.2) =
            ((text.drop cursor).take (t.start-cursor)).zipIdx cursor :=
        List.filter_eq_self.mpr fun c hmem => by
          have hlt := (index_lt hc hmem).2
          exact Spaced.outside (c := t.start) ⟨le_rfl,hle,hs⟩ hlt
      have hinside : ((((text.drop cursor).drop (t.start-cursor)).take
          (t.stop-t.start)).zipIdx t.start).filter (fun c => outside tokens (t :: ts) n c.2) = [] :=
        List.filter_eq_nil_iff.mpr fun c hmem => by
          obtain ⟨hge,hlt⟩ := index_lt hle hmem
          rw [outside_cons, hn, decide_eq_true hge, decide_eq_true hlt]
          exact Bool.false_ne_true
      have hafter : ((text.drop t.stop).zipIdx t.stop).filter
          (fun c => outside tokens (t :: ts) n c.2) =
            ((text.drop t.stop).zipIdx t.stop).filter fun c => outside tokens ts (n+1) c.2 :=
        List.filter_congr fun c hmem => by
          have hge := List.le_snd_of_mem_zipIdx hmem
          rw [outside_cons, decide_eq_false (p := c.2 < t.stop) (by omega), Bool.and_false]
          rfl
      rw [hbefore, hinside, hafter, List.zipIdx_map_fst, List.map_nil, List.nil_append]
    · rw [ih (hs.mono (by omega))]
      congr 2
      funext c
      rw [outside_cons, Bool.eq_false_iff.mpr hn, Bool.false_and, Bool.false_and]
      rfl

lemma cutText_eq (tokens : ℕ → Bool) : cutText (N := N) tokens = withoutTokensOf tokens := by
  funext v
  cases v with
  | string text =>
    rw [cutText, withoutTokensOf, withoutTokens, inlayTokenSpans,
      keep_eq (spaced_scanTokens _ _ _), List.drop_zero]
  | null => rfl
  | bool b => rfl
  | number n => rfl

lemma withoutTokensOf_none : withoutTokensOf (N := N) (fun _ => false) = fun v => v := by
  funext v
  cases v with
  | string text =>
    have : ∀ i, outside (fun _ => false) (inlayTokenSpans text.toList) 0 i = true := fun i => by
      simp [outside]
    simp only [withoutTokensOf, withoutTokens, this, List.filter_true, List.zipIdx_map_fst,
      String.ofList_toList]
  | null => rfl
  | bool b => rfl
  | number n => rfl

/-! ### The edits as a whole -/

lemma edited_congr {P P' : List Step → Bool} {f : List Step → Scalar N → Scalar N}
    (h : ∀ p, p ≠ [] → P p = P' p) (t : Value N) : edited P f t = edited P' f t := by
  cases t with
  | leaf l => rfl
  | arr ts => exact (edited_arr_congr fun i p => ⟨(h _ (List.cons_ne_nil _ _)).symm,rfl⟩).symm
  | obj m => exact (edited_obj_congr fun k p => ⟨(h _ (List.cons_ne_nil _ _)).symm,rfl⟩).symm

lemma mem_cutPaths {edits : List Edit} {q : List Step} :
    q ∈ cutPaths edits ↔ ∃ n, (q,some n) ∈ edits := by
  simp only [cutPaths, Finset.mem_sort, List.mem_toFinset, List.mem_map, List.mem_filter]
  constructor
  · rintro ⟨⟨p,x⟩,⟨hmem,hsome⟩,rfl⟩
    obtain ⟨n,rfl⟩ := Option.isSome_iff_exists.mp hsome
    exact ⟨n,hmem⟩
  · rintro ⟨n,hmem⟩
    exact ⟨_,⟨hmem,rfl⟩,rfl⟩

lemma mem_removalPaths {edits : List Edit} {q : List Step} :
    q ∈ removalPaths edits ↔ (q,none) ∈ edits := by
  simp only [removalPaths, Finset.mem_sort, List.mem_toFinset, List.mem_map, List.mem_filter]
  constructor
  · rintro ⟨⟨p,x⟩,⟨hmem,hnone⟩,rfl⟩
    obtain rfl : x = none := Option.isNone_iff_eq_none.mp hnone
    exact hmem
  · intro hmem
    exact ⟨_,⟨hmem,rfl⟩,rfl⟩

lemma nodup_cutPaths (edits : List Edit) : (cutPaths edits).Nodup := Finset.sort_nodup _ _

lemma sorted_removalPaths (edits : List Edit) : (removalPaths edits).reverse.Pairwise (· > ·) :=
  List.pairwise_reverse.mpr (Finset.sortedLT_sort _).pairwise

lemma mem_placed {entry : List Step} {edits : List Edit} {q : List Step} {x : Option ℕ} :
    (q,x) ∈ placed entry edits ↔ ∃ p, entry ++ p = q ∧ (p,x) ∈ edits ∧ ¬(p = [] ∧ x = none) := by
  simp only [placed, List.mem_map, List.mem_filter, Prod.exists, Prod.mk.injEq, decide_eq_true_eq]
  constructor
  · rintro ⟨p,_,⟨hmem,hne⟩,hq,rfl⟩
    exact ⟨p,hq,hmem,hne⟩
  · rintro ⟨p,hq,hmem,hne⟩
    exact ⟨p,x,⟨hmem,hne⟩,hq,rfl⟩

lemma applyEdits_placed (entry : List Step) (edits : List Edit) (value : Value N) :
    applyEdits entry edits value = expected (placed entry edits) value := by
  have hne : ∀ q ∈ (removalPaths (placed entry edits)).reverse, q ≠ [] := fun q hq he => by
    obtain ⟨p,hp,-,hnot⟩ := mem_placed.mp (mem_removalPaths.mp (List.mem_reverse.mp hq))
    exact hnot ⟨(List.append_eq_nil_iff.mp (hp.trans he)).2,rfl⟩
  have hruns := runs_eq_edited (t := value)
    (h := fun q => cutText fun n => decide ((q,some n) ∈ placed entry edits))
    (nodup_cutPaths (placed entry edits)) (sorted_removalPaths (placed entry edits)) hne
  refine hruns.trans ?_
  unfold expected
  congr 1
  · funext p
    exact decide_eq_decide.mpr (List.mem_reverse.trans mem_removalPaths)
  · funext p v
    change (if p ∈ cutPaths (placed entry edits) then _ else _) = _
    split_ifs with hp
    · rw [cutText_eq]
    · have hnone : (fun n => decide ((p,some n) ∈ placed entry edits)) = fun _ => false :=
        funext fun n => decide_eq_false fun hn => hp (mem_cutPaths.mpr ⟨n,hn⟩)
      rw [hnone, withoutTokensOf_none]

/-- All edits together change the entry as its own edits say, whatever their order. -/
theorem applyEdits_eq (entry : List Step) (edits : List Edit) (value : Value N) :
    applyEdits entry edits value = modifyAt (expected edits) entry value := by
  rw [applyEdits_placed, expected, edited_below (q := entry)]
  · congr 1
    funext t
    have hmem : ∀ p x, ¬(p = [] ∧ x = none) →
        ((entry ++ p,x) ∈ placed entry edits ↔ (p,x) ∈ edits) := fun p x hne => by
      rw [mem_placed]
      constructor
      · rintro ⟨p',hp,hmem,-⟩
        rwa [List.append_cancel_left hp] at hmem
      · exact fun h => ⟨p,rfl,h,hne⟩
    rw [edited_congr fun p hp => decide_eq_decide.mpr (hmem p none fun h => hp h.1)]
    unfold expected
    congr 1
    funext p
    congr 1
    funext n
    exact decide_eq_decide.mpr (hmem p (some n) nofun)
  · refine decide_eq_false fun h => ?_
    obtain ⟨p,hp,-,hnot⟩ := mem_placed.mp h
    exact hnot ⟨List.append_cancel_left (hp.trans (List.append_nil entry).symm),rfl⟩
  · intro p hp
    have hnone : ∀ x, (p,x) ∉ placed entry edits := fun x h => by
      obtain ⟨p',rfl,-⟩ := mem_placed.mp h
      exact hp (List.prefix_append ..)
    refine ⟨decide_eq_false (hnone none),?_⟩
    have : (fun n => decide ((p,some n) ∈ placed entry edits)) = fun _ => false :=
      funext fun n => decide_eq_false (hnone _)
    rw [this, withoutTokensOf_none]

lemma expected_congr {edits edits' : List Edit} (h : ∀ e, e ∈ edits ↔ e ∈ edits') :
    expected (N := N) edits = expected edits' := by
  funext t
  unfold expected
  congr 1
  · funext p
    exact decide_eq_decide.mpr (h _)
  · funext p
    congr 1
    funext n
    exact decide_eq_decide.mpr (h _)

/-! ### The entry of an owner -/

lemma searchEntry_some {owner : Owner} {field : String} {b : ℕ} {f g : ℕ × Bool}
    {es : List (Value N)} : searchEntry owner field b (some f) es = some g ↔
      g = f ∧ ∀ k e, es[k]? = some e → carries owner field (b+k) e = false := by
  induction es generalizing b with
  | nil =>
    refine ⟨fun h => ⟨(Option.some.inj h).symm,fun k e he => ?_⟩,fun h => congrArg some h.1.symm⟩
    cases he
  | cons e es ih =>
    have hshift : ∀ k, b + 1 + k = b + (k+1) := fun k => by omega
    unfold searchEntry
    split_ifs with hc hf
    · refine ⟨fun h => h.elim,fun h => ?_⟩
      have h0 := h.2 0 e rfl
      rw [Nat.add_zero, hc] at h0
      cases h0
    · exact absurd rfl hf
    · rw [ih]
      refine and_congr_right fun _ => ⟨fun h k e' hk => ?_,fun h k e' hk => ?_⟩
      · cases k with
        | zero =>
          cases hk
          exact Bool.eq_false_iff.mpr hc
        | succ k => exact hshift k ▸ h k e' hk
      · exact hshift k ▸ h (k+1) e' hk

lemma searchEntry_none {owner : Owner} {field : String} {b i : ℕ} {n : Bool}
    {es : List (Value N)} : searchEntry owner field b none es = some (i,n) ↔
      ∃ j e, i = b + j ∧ es[j]? = some e ∧ n = (named field e).isSome ∧
        ∀ k e', es[k]? = some e' → (carries owner field (b+k) e' = true ↔ k = j) := by
  induction es generalizing b with
  | nil => exact ⟨nofun,fun ⟨_,_,_,h,_⟩ => nomatch h⟩
  | cons e es ih =>
    have hshift : ∀ k, b + 1 + k = b + (k+1) := fun k => by omega
    unfold searchEntry
    by_cases hc : carries owner field b e = true
    · have hfirst : ¬ (none : Option (ℕ × Bool)).isSome = true := Bool.false_ne_true
      rw [if_pos hc, if_neg hfirst, searchEntry_some]
      constructor
      · rintro ⟨hg,h⟩
        obtain ⟨rfl,rfl⟩ := Prod.mk.inj hg
        refine ⟨0,e,rfl,rfl,rfl,fun k e' hk => ?_⟩
        cases k with
        | zero =>
          cases hk
          exact ⟨fun _ => rfl,fun _ => hc⟩
        | succ k =>
          rw [← hshift k, h k e' hk]
          exact ⟨nofun,nofun⟩
      · rintro ⟨j,e',rfl,hj,rfl,h⟩
        obtain rfl : 0 = j := (h 0 e rfl).mp hc
        cases hj
        refine ⟨rfl,fun k e' hk => Bool.eq_false_iff.mpr fun ht => ?_⟩
        rw [hshift k] at ht
        exact absurd ((h (k+1) e' hk).mp ht) (Nat.succ_ne_zero k)
    · rw [if_neg hc, ih]
      constructor
      · rintro ⟨j,e',rfl,hj,rfl,h⟩
        refine ⟨j+1,e',hshift j,hj,rfl,fun k x hk => ?_⟩
        cases k with
        | zero =>
          cases hk
          exact ⟨fun ht => absurd ht hc,nofun⟩
        | succ k =>
          rw [← hshift k, h k x hk]
          exact ⟨congrArg _,Nat.succ.inj⟩
      · rintro ⟨j,e',rfl,hj,rfl,h⟩
        cases j with
        | zero =>
          cases hj
          exact absurd ((h 0 e rfl).mpr rfl) hc
        | succ j =>
          refine ⟨j,e',(hshift j).symm,hj,rfl,fun k x hk => ?_⟩
          rw [hshift k, h (k+1) x hk]
          exact ⟨Nat.succ.inj,congrArg _⟩

/-- The only entry that carries the identity, which has it as its name. -/
theorem rootEntry_eq_some {root : Value N} {owner : Owner} {collection : String} {i : ℕ} :
    rootEntry root owner = some (collection,i) ↔
      ∃ field entries e, rootCollection owner.kind = some (collection,field) ∧ owner.id ≠ "" ∧
        root.get collection = some (.arr entries) ∧ entries[i]? = some e ∧
        named field e = some owner.id ∧
        ∀ k e', entries[k]? = some e' → (carries owner field k e' = true ↔ k = i) := by
  have hzero : ∀ field k e', carries owner field (0+k) e' = carries (N := N) owner field k e' :=
    fun field k e' => by rw [Nat.zero_add]
  constructor
  · intro h
    obtain ⟨⟨c,field⟩,hc,h⟩ := Option.bind_eq_some_iff.mp h
    dsimp only at h
    split_ifs at h with hid
    obtain ⟨v,hv,h⟩ := Option.bind_eq_some_iff.mp h
    obtain ⟨entries,hentries,h⟩ := Option.bind_eq_some_iff.mp h
    split at h
    · rename_i position hs
      obtain ⟨rfl,rfl⟩ := Prod.mk.inj (Option.some.inj h)
      obtain ⟨j,e,hj,he,hnamed,hall⟩ := searchEntry_none.mp hs
      rw [Nat.zero_add] at hj
      subst hj
      have hcarries := (hall position e he).mpr rfl
      obtain ⟨identity,hidentity⟩ := Option.isSome_iff_exists.mp hnamed.symm
      have hsame : named field e = some owner.id := by
        simp only [carries, hidentity, decide_eq_true_eq] at hcarries
        rw [hidentity, hcarries]
      refine ⟨field,entries,e,hc,hid,?_,he,hsame,fun k e' hk => hzero field k e' ▸ hall k e' hk⟩
      rw [hv]
      cases v with
      | arr items =>
        cases hentries
        rfl
      | leaf l => cases hentries
      | obj m => cases hentries
    · cases h
  · rintro ⟨field,entries,e,hc,hid,hv,he,hnamed,hall⟩
    refine Option.bind_eq_some_iff.mpr ⟨_,hc,?_⟩
    dsimp only
    rw [if_neg hid]
    refine Option.bind_eq_some_iff.mpr ⟨_,hv,Option.bind_eq_some_iff.mpr ⟨_,rfl,?_⟩⟩
    have hs : searchEntry owner field 0 none entries = some (i,true) :=
      searchEntry_none.mpr ⟨i,e,(Nat.zero_add i).symm,he,by rw [hnamed]; rfl,
        fun k e' hk => (hzero field k e').symm ▸ hall k e' hk⟩
    rw [hs]

/-- Taking references out of a record leaves the record without the places and the tokens that
the edits name, in whatever order and however often they name them; in the root only the entry
of the owner changes. Paths are read back as they were written. -/
theorem reference_removal_is_exact :
    (∀ (fromStr : Text → Option (Value N)) (toString : Value N → Text) text value edits,
      fromStr text = some value →
      dropReferences fromStr toString (some text) none edits =
          .ok (some (toString (expected edits value))) ∧
        ∀ owner, match rootEntry value owner with
          | none => dropReferences fromStr toString (some text) (some owner) edits =
              .error (notOneEntry owner)
          | some (collection,position) =>
            dropReferences fromStr toString (some text) (some owner) edits =
              .ok (some (toString
                (modifyAt (expected edits) [key collection,index position] value)))) ∧
    (∀ (fromStr : Text → Option (Value N)) (toString : Value N → Text) serialized located
      (edits edits' : List Edit), (∀ e, e ∈ edits ↔ e ∈ edits') →
      dropReferences fromStr toString serialized located edits =
        dropReferences fromStr toString serialized located edits') ∧
    (∀ (root : Value N) owner collection i, rootEntry root owner = some (collection,i) →
      ∃ field entries e, rootCollection owner.kind = some (collection,field) ∧
        root.get collection = some (.arr entries) ∧ entries[i]? = some e ∧
        named field e = some owner.id ∧
        ∀ k e', entries[k]? = some e' → (carries owner field k e' = true ↔ k = i)) ∧
    ∀ steps : List Step, (∀ n, index n ∈ steps → n < 2^64) →
      parsePath (pathText steps) = some steps := by
  have happly : ∀ entry (edits : List Edit) (value : Value N),
      applyEdits entry edits value = modifyAt (expected edits) entry value := applyEdits_eq
  refine ⟨fun fromStr toString text value edits hv => ⟨?_,fun owner => ?_⟩,?_,?_,?_⟩
  · simp only [dropReferences, Option.map_some, hv, happly]
    rfl
  · cases hr : rootEntry value owner with
    | none => simp only [dropReferences, Option.map_some, hv, hr]
    | some found => simp only [dropReferences, Option.map_some, hv, hr, happly]
  · intro fromStr toString serialized located edits edits' h
    simp only [dropReferences, happly, expected_congr h]
  · intro root owner collection i h
    obtain ⟨field,entries,e,hc,-,hv,he,hnamed,hall⟩ := rootEntry_eq_some.mp h
    exact ⟨field,entries,e,hc,hv,he,hnamed,hall⟩
  · exact fun steps => parsePath_pathText

/-- A module of a root, with an asset and a text. -/
def sampleModule (id : String) : Value ℕ :=
  .obj fun k =>
    if k = "id" then some (.leaf (.string id))
    else if k = "assets" then some (.arr [.leaf (.number 1),.leaf (.number 2)])
    else if k = "text" then some (.leaf (.string "a{{inlay::x}}b"))
    else none

def sampleRoot : Value ℕ :=
  .obj fun k => if k = "modules" then some (.arr [sampleModule "m",sampleModule "n"]) else none

def sampleEdits : List Edit :=
  [([key "assets",index 0],none),([key "text"],some 0),([key "assets",index 1],none)]

/-- The second module loses both assets and the token of its text. -/
theorem reference_removal_is_exact_sample :
    dropReferences some id (some (sampleModule "n")) none sampleEdits =
        .ok (some (expected sampleEdits (sampleModule "n"))) ∧
    dropReferences some id (some sampleRoot) (some ⟨"module","n"⟩) sampleEdits.reverse =
        dropReferences some id (some sampleRoot) (some ⟨"module","n"⟩) sampleEdits ∧
    (∃ field entries e, rootCollection "module" = some ("modules",field) ∧
      sampleRoot.get "modules" = some (.arr entries) ∧ entries[1]? = some e ∧
      named field e = some "n" ∧
      ∀ k e', entries[k]? = some e' → (carries ⟨"module","n"⟩ field k e' = true ↔ k = 1)) ∧
    parsePath (pathText [key "a]\"",index 7]) = some [key "a]\"",index 7] := by
  obtain ⟨hdrop,horder,hroot,hparse⟩ := @reference_removal_is_exact ℕ (Value ℕ)
  refine ⟨(hdrop some id _ _ sampleEdits rfl).1,horder some id _ _ _ _ fun _ => List.mem_reverse,
    hroot sampleRoot ⟨"module","n"⟩ "modules" 1 ?_,hparse _ fun n hn => ?_⟩
  · rfl
  · obtain h | h := List.mem_cons.mp hn
    · cases h
    · obtain rfl := PathStep.index.inj (List.mem_singleton.mp h)
      decide

end RisuNest.Storage.ReferenceRemoval
