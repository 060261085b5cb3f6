import RisuNest.Lib.Fallible
import Mathlib.Algebra.GroupWithZero.Nat

/-! Readers that take off the front of an input what a writer put there. -/
namespace RisuNest
universe u
variable {ε : Type} {α σ : Type u}

/-- What is written is read back whatever follows, and nothing but what is written is read. -/
structure Framing (valid : α → Prop) (read : List σ → Except ε (α × List σ))
    (write : α → List σ) : Prop where
  reads : ∀ {x}, valid x → ∀ rest, read (write x ++ rest) = .ok (x,rest)
  only : ∀ {input x rest}, read input = .ok (x,rest) → valid x ∧ input = write x ++ rest

/-- A counted run of frames. -/
def readMany (read : List σ → Except ε (α × List σ)) : ℕ → List σ → Except ε (List α × List σ)
  | 0, input => .ok ([],input)
  | count+1, input => do
    let (x, input) ← read input
    let (xs, input) ← readMany read count input
    pure (x :: xs,input)

/-! ### Writers that go over a list -/

theorem foldlM_appends {ε : Type u} {f : List σ → α → Except ε (List σ)} {fits : α → Prop}
    {write : α → List σ}
    (h : ∀ bytes x out, f bytes x = .ok out ↔ fits x ∧ out = bytes ++ write x) (xs : List α)
    (bytes out : List σ) :
    xs.foldlM f bytes = .ok out ↔ (∀ x ∈ xs, fits x) ∧ out = bytes ++ xs.flatMap write := by
  induction xs generalizing bytes with
  | nil => simp [pure, Except.pure, eq_comm]
  | cons x xs ih =>
    rw [List.foldlM_cons, bind_eq_ok]
    simp only [h, ih, List.forall_mem_cons, List.flatMap_cons]
    constructor
    · rintro ⟨mid,⟨hx,rfl⟩,hxs,rfl⟩
      exact ⟨⟨hx,hxs⟩,List.append_assoc ..⟩
    · rintro ⟨⟨hx,hxs⟩,rfl⟩
      exact ⟨_,⟨hx,rfl⟩,hxs,(List.append_assoc ..).symm⟩

/-- What each element adds to a size that has a limit. -/
theorem foldlM_adds {α ε : Type*} {f : ℕ → α → Except ε ℕ} {fits : α → Prop} {size : α → ℕ}
    {limit : ℕ}
    (h : ∀ n x out, f n x = .ok out ↔ fits x ∧ out = n + size x ∧ out ≤ limit) (xs : List α)
    (n out : ℕ) :
    xs.foldlM f n = .ok out ↔
      (∀ x ∈ xs, fits x) ∧ out = n + (xs.map size).sum ∧ (xs ≠ [] → out ≤ limit) := by
  induction xs generalizing n with
  | nil => simp [pure, Except.pure, eq_comm]
  | cons x xs ih =>
    rw [List.foldlM_cons, bind_eq_ok]
    simp only [h, ih, List.forall_mem_cons, List.map_cons, List.sum_cons]
    constructor
    · rintro ⟨mid,⟨hx,rfl,hmid⟩,hxs,rfl,hout⟩
      refine ⟨⟨hx,hxs⟩,by omega,fun _ => ?_⟩
      by_cases he : xs = []
      · simpa [he] using hmid
      · exact hout he
    · rintro ⟨⟨hx,hxs⟩,rfl,hout⟩
      have hle := hout (List.cons_ne_nil x xs)
      exact ⟨_,⟨hx,rfl,by omega⟩,hxs,by omega,fun _ => hle⟩

namespace Framing
variable {valid : α → Prop} {read : List σ → Except ε (α × List σ)} {write : α → List σ}

/-- A run of frames in front of a longer one is the start of it. -/
theorem split_flatMap (h : Framing valid read write) {xs ys : List α} {rest tail : List σ}
    (hx : ∀ x ∈ xs, valid x) (hy : ∀ y ∈ ys, valid y) (hlt : xs.length < ys.length)
    (heq : xs.flatMap write ++ rest = ys.flatMap write ++ tail) :
    ∃ y zs, ys = xs ++ y :: zs ∧ rest = write y ++ (zs.flatMap write ++ tail) := by
  induction xs generalizing ys with
  | nil =>
    cases ys with
    | nil => simp at hlt
    | cons y zs => exact ⟨y,zs,rfl,by simpa using heq⟩
  | cons x xs ih =>
    cases ys with
    | nil => simp at hlt
    | cons y ys =>
      simp only [List.forall_mem_cons, List.length_cons, List.flatMap_cons,
        List.append_assoc] at hx hy hlt heq
      have hread := h.reads hx.1 (xs.flatMap write ++ rest)
      rw [heq, h.reads hy.1] at hread
      obtain ⟨rfl,hrest⟩ := Prod.mk.inj (Except.ok.inj hread)
      obtain ⟨z,zs,rfl,hsplit⟩ := ih hx.2 hy.2 (by omega) hrest.symm
      exact ⟨z,zs,rfl,hsplit⟩

/-- A frame whose content is read in a second form, which may refuse it. -/
theorem parsed {β : Type u} (h : Framing valid read write) (parse : α → Except ε β) (form : β → α)
    (hparse : ∀ x y, valid x → (parse x = .ok y ↔ x = form y)) :
    Framing (fun y => valid (form y))
      (fun input => do let (x, input) ← read input; let y ← parse x; pure (y,input))
      (fun y => write (form y)) where
  reads := by
    intro y hy rest
    rw [h.reads hy]
    change (parse (form y) >>= fun y => pure (y,rest)) = _
    rw [(hparse (form y) y hy).mpr rfl]
    rfl
  only := by
    intro input y rest hr
    obtain ⟨⟨x,mid⟩,hx,hr⟩ := bind_eq_ok.mp hr
    obtain ⟨z,hz,hr⟩ := bind_eq_ok.mp hr
    obtain ⟨rfl,rfl⟩ := Prod.mk.inj (Except.ok.inj hr)
    obtain ⟨hv,rfl⟩ := h.only hx
    obtain rfl := (hparse x z hv).mp hz
    exact ⟨hv,rfl⟩

/-- A frame in front of which stands what its form depends on. -/
theorem tagged {β : Type u} {valid' : β → Prop} {read' : α → List σ → Except ε (β × List σ)}
    {write' : β → List σ} (h : Framing valid read write) (tag : β → α)
    (h' : ∀ x, valid x → Framing (fun y => tag y = x ∧ valid' y) (read' x) write') :
    Framing (fun y => valid (tag y) ∧ valid' y)
      (fun input => do let (x, input) ← read input; read' x input)
      (fun y => write (tag y) ++ write' y) where
  reads := by
    intro y hy rest
    rw [List.append_assoc, h.reads hy.1]
    exact (h' _ hy.1).reads ⟨rfl,hy.2⟩ rest
  only := by
    intro input y rest hr
    obtain ⟨⟨x,mid⟩,hx,hmid⟩ := bind_eq_ok.mp hr
    obtain ⟨hv,rfl⟩ := h.only hx
    obtain ⟨⟨rfl,hy⟩,rfl⟩ := (h' x hv).only hmid
    exact ⟨⟨hv,hy⟩,by rw [List.append_assoc]⟩

theorem many (h : Framing valid read write) (count : ℕ) :
    Framing (fun xs => xs.length = count ∧ ∀ x ∈ xs, valid x) (readMany read count)
      (fun xs => xs.flatMap write) where
  reads := by
    intro xs hx rest
    induction xs generalizing count with
    | nil =>
      obtain rfl : 0 = count := hx.1
      rfl
    | cons x xs ih =>
      obtain rfl : xs.length + 1 = count := hx.1
      have hv := List.forall_mem_cons.mp hx.2
      rw [List.flatMap_cons, List.append_assoc]
      simp only [readMany]
      rw [h.reads hv.1]
      change (readMany read xs.length (xs.flatMap write ++ rest) >>= fun p => _) = _
      rw [ih xs.length ⟨rfl,hv.2⟩]
      rfl
  only := by
    intro input xs rest hr
    induction count generalizing input xs with
    | zero =>
      obtain ⟨rfl,rfl⟩ := Prod.mk.inj (Except.ok.inj hr)
      exact ⟨⟨rfl,List.forall_mem_nil _⟩,rfl⟩
    | succ count ih =>
      obtain ⟨⟨x,mid⟩,hx,hr⟩ := bind_eq_ok.mp hr
      obtain ⟨⟨ys,tail⟩,hy,hr⟩ := bind_eq_ok.mp hr
      obtain ⟨rfl,rfl⟩ := Prod.mk.inj (Except.ok.inj hr)
      obtain ⟨hv,rfl⟩ := h.only hx
      obtain ⟨⟨rfl,hvs⟩,rfl⟩ := ih hy
      refine ⟨⟨rfl,List.forall_mem_cons.mpr ⟨hv,hvs⟩⟩,?_⟩
      rw [List.flatMap_cons, List.append_assoc]

end Framing
end RisuNest
