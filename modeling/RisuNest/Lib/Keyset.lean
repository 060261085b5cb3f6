import Mathlib.Data.List.Sort
import Mathlib.Tactic.Common

/-! Reading a sorted list in pages. Each page starts behind the key of the last item of the page
before, so that no position in the list has to be kept between two pages. -/
namespace Keyset
variable {α γ κ : Type*} [LinearOrder κ] (rank : γ → κ) (key : α → γ)

/-- Every key occurs once, in order. -/
abbrev Ascending (l : List α) : Prop := l.Pairwise fun a b => rank (key a) < rank (key b)

variable {rank key}

lemma Ascending.eq_of_mem_iff {l m : List α} (hl : Ascending rank key l)
    (hm : Ascending rank key m) (h : ∀ a, a ∈ l ↔ a ∈ m) : l = m := by
  have : Std.Irrefl fun a b : α => rank (key a) < rank (key b) := ⟨fun _ => lt_irrefl _⟩
  have : Std.Antisymm fun a b : α => rank (key a) < rank (key b) :=
    ⟨fun _ _ h h' => absurd h' h.asymm⟩
  exact List.Pairwise.eq_of_mem_iff hl hm h

lemma ascending_of_sorted (hr : Function.Injective rank) {l : List α}
    (hs : l.Pairwise fun a b => rank (key a) ≤ rank (key b)) (hn : (l.map key).Nodup) :
    Ascending rank key l := by
  refine (hs.and (List.pairwise_map.mp hn)).imp ?_
  rintro a b ⟨hle,hne⟩
  exact lt_of_le_of_ne hle fun he => hne (hr he)

lemma ascending_insertionSort (hr : Function.Injective rank) {l : List α}
    (hn : (l.map key).Nodup) :
    Ascending rank key (l.insertionSort fun a b => rank (key a) ≤ rank (key b)) := by
  have : Std.Total fun a b : α => rank (key a) ≤ rank (key b) := ⟨fun _ _ => le_total _ _⟩
  have : IsTrans α fun a b => rank (key a) ≤ rank (key b) := ⟨fun _ _ _ => le_trans⟩
  refine ascending_of_sorted hr (List.pairwise_insertionSort _ l) ?_
  exact ((List.perm_insertionSort _ l).map key).nodup_iff.mpr hn

variable (rank key)

/-- The items behind a cursor. -/
def behind (after : Option γ) (l : List α) : List α :=
  l.filter fun a => after.all fun c => decide (rank c < rank (key a))

/-- A page: items that follow a cursor, and the cursor of the next page if something is left. -/
structure PageBehind (l : List α) (after : Option γ) (items : List α) (next : Option γ) : Prop where
  first : items <+: behind rank key after l
  last : ∀ c ∈ next, items.getLast?.map key = some c
  whole : next = none → items = behind rank key after l

variable {rank key}

lemma mem_behind {after : Option γ} {l : List α} {a : α} :
    a ∈ behind rank key after l ↔ a ∈ l ∧ ∀ c ∈ after, rank c < rank (key a) := by
  rw [behind, List.mem_filter]
  cases after <;> simp

@[simp] lemma behind_none (l : List α) : behind rank key none l = l :=
  List.filter_eq_self.mpr fun _ _ => rfl

lemma Ascending.behind {l : List α} (h : Ascending rank key l) (after : Option γ) :
    Ascending rank key (behind rank key after l) := h.filter _

lemma behind_append {l m : List α} (h : Ascending rank key (l ++ m)) {a : α}
    (ha : l.getLast? = some a) : behind rank key (some (key a)) (l ++ m) = m := by
  obtain ⟨_,hm,hlm⟩ := List.pairwise_append.mp h
  refine Ascending.eq_of_mem_iff (h.behind _) hm fun b => ?_
  rw [mem_behind, List.mem_append]
  constructor
  · rintro ⟨hb | hb,hlt⟩
    · -- an item of the first part is the last one or lies before it
      obtain ⟨l,rfl⟩ := List.getLast?_eq_some_iff.mp ha
      have hlt := hlt _ rfl
      obtain hb | hb := List.mem_append.mp hb
      · obtain ⟨hl,-,-⟩ := List.pairwise_append.mp h
        have hb := (List.pairwise_append.mp hl).2.2 b hb a (by simp)
        exact absurd hlt hb.asymm
      · rw [List.mem_singleton.mp hb] at hlt
        exact absurd hlt (lt_irrefl _)
    · exact hb
  · intro hb
    refine ⟨.inr hb,fun c hc => ?_⟩
    cases hc
    exact hlm a (List.mem_of_getLast? ha) b hb

lemma PageBehind.moves {l : List α} {after : Option γ} {items : List α} {next : Option γ}
    (h : PageBehind rank key l after items next) : items ≠ [] ∨ next = none := by
  cases next with
  | none => exact .inr rfl
  | some c =>
    refine .inl fun he => ?_
    have hl := h.last c rfl
    rw [he] at hl
    cases hl

lemma behind_behind {after : Option γ} {c : γ} (h : ∀ d ∈ after, rank d ≤ rank c) (l : List α) :
    behind rank key (some c) (behind rank key after l) = behind rank key (some c) l := by
  unfold behind
  rw [List.filter_filter]
  refine List.filter_congr fun a _ => ?_
  cases after with
  | none => simp
  | some d =>
    have hd := h d rfl
    simp only [Option.all_some, Bool.and_eq_left_iff_imp, decide_eq_true_eq]
    exact hd.trans_lt

lemma behind_take {l : List α} (h : Ascending rank key l) {after : Option γ} {n : ℕ} {a : α}
    (ha : ((behind rank key after l).take n).getLast? = some a) :
    behind rank key (some (key a)) l = (behind rank key after l).drop n := by
  have hm := mem_behind.mp (List.mem_of_mem_take (List.mem_of_getLast? ha))
  rw [← behind_behind (fun d hd => le_of_lt (hm.2 d hd)) l]
  have hb := h.behind after
  rw [← List.take_append_drop n (behind rank key after l)] at hb
  have hd := behind_append hb ha
  rwa [List.take_append_drop] at hd

/-! ### Filled pages -/

/-- The first items of a list, up to a number of them and a sum of their sizes. The flag says that
some were left. -/
def fill (size : α → ℕ) (limit room : ℕ) : ℕ → ℕ → List α → List α × Bool
  | _, _, [] => ([],false)
  | count, used, a :: rest =>
    if count = limit ∨ room < used + size a then ([],true)
    else
      let (items,more) := fill size limit room (count+1) (used + size a) rest
      (a :: items,more)

section Fill
variable {size : α → ℕ} {limit room : ℕ}

lemma fill_prefix (count used : ℕ) (l : List α) : (fill size limit room count used l).1 <+: l := by
  induction l generalizing count used with
  | nil => exact List.prefix_rfl
  | cons a l ih =>
    rw [fill]
    split_ifs
    · exact List.nil_prefix
    · exact (List.prefix_cons_inj a).mpr (ih _ _)

lemma fill_complete {count used : ℕ} {l : List α}
    (h : (fill size limit room count used l).2 = false) (hc : count ≤ limit) :
    (fill size limit room count used l).1 = l ∧ count + l.length ≤ limit := by
  induction l generalizing count used with
  | nil => exact ⟨rfl,hc⟩
  | cons a l ih =>
    rw [fill] at h ⊢
    split_ifs at h ⊢ with hfull
    push Not at hfull
    obtain ⟨he,hl⟩ := ih h (by omega)
    refine ⟨congrArg (a :: ·) he,?_⟩
    rw [List.length_cons]
    omega

lemma fill_head {used : ℕ} {l : List α} (hlimit : 1 ≤ limit)
    (hl : ∀ a ∈ l, used + size a ≤ room) :
    (fill size limit room 0 used l).1.head? = l.head? := by
  cases l with
  | nil => rfl
  | cons a l =>
    have ha := hl a List.mem_cons_self
    rw [fill, if_neg (by omega)]
    rfl

end Fill

/-! ### Two sources -/

lemma take_merge (le : α → α → Bool) {m n k : ℕ} (hn : m ≤ n) (hk : m ≤ k) (l l' : List α) :
    ((l.take n).merge (l'.take k) le).take m = (l.merge l' le).take m := by
  induction m generalizing n k l l' with
  | zero => rfl
  | succ m ih =>
    obtain ⟨n,rfl⟩ := Nat.exists_eq_add_of_le' hn
    obtain ⟨k,rfl⟩ := Nat.exists_eq_add_of_le' hk
    cases l with
    | nil => rw [List.take_nil, List.nil_merge, List.nil_merge, List.take_take, min_eq_left hk]
    | cons a l =>
      cases l' with
      | nil =>
        rw [List.take_nil, List.merge_right, List.merge_right, List.take_take, min_eq_left hn]
      | cons b l' =>
        rw [← Nat.add_assoc, ← Nat.add_assoc, List.take_succ_cons, List.take_succ_cons]
        have hm : m ≤ n+m := Nat.le_add_left m n
        have hm' : m ≤ k+m := Nat.le_add_left m k
        by_cases h : le a b = true
        · have hi := ih hm (Nat.le_succ_of_le hm') l (b :: l')
          rw [List.take_succ_cons] at hi
          rw [List.cons_merge_cons_pos _ _ _ h, List.cons_merge_cons_pos _ _ _ h,
            List.take_succ_cons, List.take_succ_cons, hi]
        · have hi := ih (Nat.le_succ_of_le hm) hm' (a :: l) l'
          rw [List.take_succ_cons] at hi
          rw [List.cons_merge_cons_neg _ _ _ h, List.cons_merge_cons_neg _ _ _ h,
            List.take_succ_cons, List.take_succ_cons, hi]

lemma insertionSort_append (hr : Function.Injective rank) {l l' : List α}
    (hl : Ascending rank key l) (hl' : Ascending rank key l')
    (hn : ((l ++ l').map key).Nodup) :
    (l ++ l').insertionSort (fun a b => rank (key a) ≤ rank (key b)) =
      l.merge l' fun a b => decide (rank (key a) ≤ rank (key b)) := by
  have : Std.Total fun a b : α => rank (key a) ≤ rank (key b) := ⟨fun _ _ => le_total _ _⟩
  have : IsTrans α fun a b => rank (key a) ≤ rank (key b) := ⟨fun _ _ _ => le_trans⟩
  have hm := List.Pairwise.merge (hl.imp le_of_lt) (hl'.imp le_of_lt)
  have hp : (l.merge l' fun a b => decide (rank (key a) ≤ rank (key b))).Perm (l ++ l') :=
    List.merge_perm_append _
  refine Ascending.eq_of_mem_iff (ascending_insertionSort hr hn)
    (ascending_of_sorted hr hm ((hp.map key).nodup_iff.mpr hn)) fun a => ?_
  rw [List.mem_insertionSort, hp.mem_iff]

/-- A page over two sources takes one item more than it holds from each of them. -/
theorem pageBehind_merged (hr : Function.Injective rank) {l l' : List α}
    (hl : Ascending rank key l) (hl' : Ascending rank key l') (hn : ((l ++ l').map key).Nodup)
    (after : Option γ) {limit : ℕ} (h1 : 1 ≤ limit) {sorted : List α}
    (hs : sorted = ((behind rank key after l).take (limit+1) ++
      (behind rank key after l').take (limit+1)).insertionSort
        fun a b => rank (key a) ≤ rank (key b)) :
    PageBehind rank key ((l ++ l').insertionSort fun a b => rank (key a) ≤ rank (key b)) after
      (sorted.take limit)
      (if limit < sorted.length then (sorted.take limit).getLast?.map key else none) := by
  have hlb := hl.behind after
  have hlb' := hl'.behind after
  have hsub : ∀ n, ((behind rank key after l).take n ++ (behind rank key after l').take n).Sublist
      (l ++ l') := fun n =>
    ((List.take_sublist _ _).trans List.filter_sublist).append
      ((List.take_sublist _ _).trans List.filter_sublist)
  have hmerged := insertionSort_append hr (hlb.sublist (List.take_sublist (limit+1) _))
    (hlb'.sublist (List.take_sublist (limit+1) _)) (hn.sublist ((hsub _).map key))
  rw [← hs] at hmerged
  -- what lies behind the cursor in both sources
  have hall : behind rank key after
      ((l ++ l').insertionSort fun a b => rank (key a) ≤ rank (key b)) =
      (behind rank key after l).merge (behind rank key after l')
        fun a b => decide (rank (key a) ≤ rank (key b)) := by
    have hb : ((behind rank key after l ++ behind rank key after l').map key).Nodup :=
      hn.sublist ((List.filter_sublist.append List.filter_sublist).map key)
    rw [← insertionSort_append hr hlb hlb' hb]
    refine Ascending.eq_of_mem_iff ((ascending_insertionSort hr hn).behind after)
      (ascending_insertionSort hr hb) fun a => ?_
    simp only [mem_behind, List.mem_insertionSort, List.mem_append]
    tauto
  have htake : sorted.take limit = (behind rank key after
      ((l ++ l').insertionSort fun a b => rank (key a) ≤ rank (key b))).take limit := by
    rw [hmerged, hall]
    exact take_merge _ (Nat.le_succ limit) (Nat.le_succ limit) _ _
  refine ⟨?_,?_,?_⟩
  · rw [htake]
    exact List.take_prefix _ _
  · intro c hc
    split_ifs at hc
    · exact hc
    · cases hc
  · intro hnone
    split_ifs at hnone with hmore
    · -- a full page has a last item
      have hempty := List.getLast?_eq_none_iff.mp (Option.map_eq_none_iff.mp hnone)
      have hlen := congrArg List.length hempty
      rw [List.length_take, List.length_nil] at hlen
      omega
    · have hlen : sorted.length ≤ limit := Nat.le_of_not_lt hmore
      rw [htake]
      apply List.take_of_length_le
      rw [hall, List.length_merge]
      rw [hmerged, List.length_merge, List.length_take, List.length_take] at hlen
      omega

/-! ### Whole readings -/

/-- What was read, the cursor to go on from, and whether the last page came. -/
structure Walk (α γ : Type*) where
  items : List α
  after : Option γ
  finished : Bool
  deriving DecidableEq

namespace Walk

def start : Walk α γ := ⟨[],none,false⟩

/-- A page was answered. -/
def turn (w : Walk α γ) (items : List α) (next : Option γ) : Walk α γ :=
  ⟨w.items ++ items,next,next.isNone⟩

variable (rank key) in
/-- What a reader has and what its cursor leaves make up the list. -/
structure Covers (l : List α) (w : Walk α γ) : Prop where
  going : w.finished = false → w.items ++ behind rank key w.after l = l
  done : w.finished = true → w.items = l

lemma Covers.start (l : List α) : Covers rank key l start :=
  ⟨fun _ => behind_none l,nofun⟩

lemma Covers.turn {l : List α} (hl : Ascending rank key l) {w : Walk α γ}
    (h : Covers rank key l w) (hw : w.finished = false) {items : List α} {next : Option γ}
    (hp : PageBehind rank key l w.after items next) : Covers rank key l (w.turn items next) := by
  have hgoing := h.going hw
  cases next with
  | none =>
    refine ⟨nofun,fun _ => ?_⟩
    change w.items ++ items = l
    rw [hp.whole rfl, hgoing]
  | some c =>
    refine ⟨fun _ => ?_,nofun⟩
    change (w.items ++ items) ++ behind rank key (some c) l = l
    obtain ⟨rest,hrest⟩ := hp.first
    rw [← hrest, ← List.append_assoc] at hgoing
    obtain ⟨a,ha,rfl⟩ := Option.map_eq_some_iff.mp (hp.last c rfl)
    have hlast : (w.items ++ items).getLast? = some a := by
      rw [List.getLast?_append, ha]
      rfl
    rw [← hgoing] at hl
    have hb := behind_append hl hlast
    rw [hgoing] at hb
    rw [hb, hgoing]

lemma Covers.first {l : List α} {w : Walk α γ} (h : Covers rank key l w) : w.items <+: l := by
  cases hw : w.finished with
  | false => exact ⟨_,h.going hw⟩
  | true => exact h.done hw ▸ List.prefix_rfl

lemma Covers.ascending {l : List α} (hl : Ascending rank key l) {w : Walk α γ}
    (h : Covers rank key l w) : Ascending rank key w.items :=
  hl.sublist h.first.sublist

lemma Covers.remaining {l : List α} (hl : Ascending rank key l) {w : Walk α γ}
    (h : Covers rank key l w) {a : α} (ha : a ∈ l) :
    a ∈ w.items ∨ w.finished = false ∧ ∀ b ∈ w.items, rank (key b) < rank (key a) := by
  cases hw : w.finished with
  | true => exact .inl (h.done hw ▸ ha)
  | false =>
    rw [← h.going hw] at ha hl
    obtain ha | ha := List.mem_append.mp ha
    · exact .inl ha
    · exact .inr ⟨rfl,fun b hb => (List.pairwise_append.mp hl).2.2 b hb a ha⟩

end Walk
end Keyset
