import RisuNest.Wire.Payload

/-! The JSON texts `serde_json` reads: a grammar that relates a value to a text and to what is
left of it, and a reader that decides it. -/
namespace RisuNest.Wire.JsonText
open Payload

/-- The characters blanks are made of. -/
def isBlank (c : Char) : Bool := c = ' ' || c = '\n' || c = '\t' || c = '\r'

/-- The characters numbers are written with. -/
def isNumeric (c : Char) : Bool :=
  c.isDigit || c = '-' || c = '+' || c = '.' || c = 'e' || c = 'E'

/-- What a number looks like to the reader; which tokens are numbers is for its parser to say. -/
def isToken : List Char → Bool
  | [] => false
  | c :: d => (c.isDigit || c = '-') && (c :: d).all isNumeric

/-- A number token goes no further. -/
def Ended (r : List Char) : Prop := ∀ c s, r = c :: s → isNumeric c = false

/-- A hexadecimal digit in either case. -/
def hexValue (c : Char) : Option ℕ :=
  if c.isDigit then some (c.toNat-48)
  else if 97 ≤ c.toNat ∧ c.toNat ≤ 102 then some (c.toNat-87)
  else if 65 ≤ c.toNat ∧ c.toNat ≤ 70 then some (c.toNat-55)
  else none

/-- The code unit of the four digits after `\u`. -/
def hexUnit (a b c d : Char) : Option ℕ := do
  pure ((((← hexValue a)*16 + (← hexValue b))*16 + (← hexValue c))*16 + (← hexValue d))

/-- What a letter after a backslash stands for. -/
def shortEscape : Char → Option Char
  | '"' => some '"'
  | '\\' => some '\\'
  | '/' => some '/'
  | 'b' => some '\x08'
  | 'f' => some '\x0c'
  | 'n' => some '\n'
  | 'r' => some '\r'
  | 't' => some '\t'
  | _ => none

/-- The text begins with a spelling of the character. -/
inductive SpellsChar : Char → List Char → List Char → Prop
  | plain {c r} (hc : 32 ≤ c.toNat ∧ c ≠ '"' ∧ c ≠ '\\') : SpellsChar c (c :: r) r
  | short {c e r} (h : shortEscape e = some c) : SpellsChar c ('\\' :: e :: r) r
  | unit {c i j k l n r} (h : hexUnit i j k l = some n) (hc : utf16Units c = [n]) :
    SpellsChar c ('\\' :: 'u' :: i :: j :: k :: l :: r) r
  | pair {c i j k l i' j' k' l' n m r} (h : hexUnit i j k l = some n)
    (h' : hexUnit i' j' k' l' = some m) (hc : utf16Units c = [n,m]) :
    SpellsChar c ('\\' :: 'u' :: i :: j :: k :: l :: '\\' :: 'u' :: i' :: j' :: k' :: l' :: r) r

/-- The text begins with a spelling of the characters and a closing quote. -/
inductive SpellsTail : List Char → List Char → List Char → Prop
  | quote {r} : SpellsTail [] ('"' :: r) r
  | cons {c cs t s r} (h : SpellsChar c t s) (hs : SpellsTail cs s r) : SpellsTail (c :: cs) t r

/-- Blanks lead from one text to the other. -/
def Gap (t r : List Char) : Prop := ∃ b, b.all isBlank = true ∧ t = b ++ r

variable (numeral : List Char → Option ℚ)

mutual
/-- The text begins with a spelling of the value. The number a token stands for is `numeral`'s to
say; members may come in any order and names may come back. -/
inductive Spells : Json → List Char → List Char → Prop
  | null {r} : Spells .null ('n' :: 'u' :: 'l' :: 'l' :: r) r
  | yes {r} : Spells (.bool true) ('t' :: 'r' :: 'u' :: 'e' :: r) r
  | no {r} : Spells (.bool false) ('f' :: 'a' :: 'l' :: 's' :: 'e' :: r) r
  | num {d n r} (hd : isToken d = true) (hr : Ended r) (hn : numeral d = some n) :
    Spells (.num n) (d ++ r) r
  | str {cs t r} (h : SpellsTail cs t r) : Spells (.str (String.ofList cs)) ('"' :: t) r
  | arrNil {t r} (h : Gap t (']' :: r)) : Spells (.arr []) ('[' :: t) r
  | arr {v vs t s u r} (hg : Gap t s) (hv : Spells v s u) (hs : SpellsItems vs u r) :
    Spells (.arr (v :: vs)) ('[' :: t) r
  | objNil {t r} (h : Gap t ('}' :: r)) : Spells (.obj []) ('{' :: t) r
  | obj {m ms t s u r} (hg : Gap t s) (hm : SpellsMember m s u) (hs : SpellsMembers ms u r) :
    Spells (.obj (m :: ms)) ('{' :: t) r

/-- The items after the first one, and the closing bracket. -/
inductive SpellsItems : List Json → List Char → List Char → Prop
  | nil {t r} (h : Gap t (']' :: r)) : SpellsItems [] t r
  | cons {v vs t s s' u r} (hc : Gap t (',' :: s)) (hg : Gap s s') (hv : Spells v s' u)
    (hs : SpellsItems vs u r) : SpellsItems (v :: vs) t r

/-- A name, a colon and a value. -/
inductive SpellsMember : String × Json → List Char → List Char → Prop
  | mk {cs v t s u u' r} (hk : SpellsTail cs t s) (hc : Gap s (':' :: u)) (hg : Gap u u')
    (hv : Spells v u' r) : SpellsMember (String.ofList cs,v) ('"' :: t) r

/-- The members after the first one, and the closing brace. -/
inductive SpellsMembers : List (String × Json) → List Char → List Char → Prop
  | nil {t r} (h : Gap t ('}' :: r)) : SpellsMembers [] t r
  | cons {m ms t s s' u r} (hc : Gap t (',' :: s)) (hg : Gap s s') (hm : SpellsMember m s' u)
    (hs : SpellsMembers ms u r) : SpellsMembers (m :: ms) t r
end

/-- The whole text spells the value, with blanks around it. -/
def IsText (v : Json) (t : List Char) : Prop :=
  ∃ s r, Gap t s ∧ Spells numeral v s r ∧ Gap r []

/-- `serde_json::from_slice`, as documented: it reads exactly the UTF-8 JSON texts whose arrays
and objects nest at most 127 deep. -/
def ReadsJson (cr : Crates) : Prop := ∀ b v, cr.readJson b = some v ↔
  shallow 0 v = true ∧ ∃ t, b = utf8 t ∧ IsText numeral v t

/-- The character of one or two UTF-16 code units; lone surrogates are none. -/
def charOf : List ℕ → Option Char
  | [n] => if n < 0xD800 ∨ 0xDFFF < n ∧ n < 0x10000 then some (Char.ofNat n) else none
  | [n,m] =>
    if 0xD800 ≤ n ∧ n < 0xDC00 ∧ 0xDC00 ≤ m ∧ m < 0xE000 then
      some (Char.ofNat (0x10000 + (n-0xD800)*1024 + (m-0xDC00)))
    else none
  | _ => none

lemma toNat_valid (c : Char) : c.toNat < 0xD800 ∨ 0xDFFF < c.toNat ∧ c.toNat < 0x110000 := c.valid

lemma toNat_ofNat_valid {n : ℕ} (h : n < 0xD800 ∨ 0xDFFF < n ∧ n < 0x110000) :
    (Char.ofNat n).toNat = n := by
  rw [Char.ofNat, dif_pos h]
  rfl

lemma charOf_single {n : ℕ} {c : Char} : charOf [n] = some c ↔ utf16Units c = [n] := by
  have hc := toNat_valid c
  unfold utf16Units
  constructor
  · intro h
    have hn := (Option.ite_none_right_eq_some.mp h).1
    obtain rfl := Option.some.inj (Option.ite_none_right_eq_some.mp h).2
    rw [toNat_ofNat_valid (by omega), if_pos (by omega)]
  · intro h
    split_ifs at h with hlt
    · obtain rfl := List.singleton_inj.mp h
      refine Option.ite_none_right_eq_some.mpr ⟨by omega,?_⟩
      rw [Char.ofNat_toNat]
    · cases (List.cons.inj h).2

lemma charOf_pair {n m : ℕ} {c : Char} : charOf [n,m] = some c ↔ utf16Units c = [n,m] := by
  have hc := toNat_valid c
  unfold utf16Units
  constructor
  · intro h
    have hn := (Option.ite_none_right_eq_some.mp h).1
    obtain rfl := Option.some.inj (Option.ite_none_right_eq_some.mp h).2
    rw [toNat_ofNat_valid (by omega), if_neg (by omega)]
    simp only [List.cons.injEq, and_true]
    omega
  · intro h
    split_ifs at h with hlt
    · cases (List.cons.inj h).2
    · simp only [List.cons.injEq, and_true] at h
      obtain ⟨rfl,rfl⟩ := h
      refine Option.ite_none_right_eq_some.mpr ⟨by omega,?_⟩
      have hc : 0x10000 + (55296 + (c.toNat-65536)/1024-0xD800)*1024 +
          (56320 + (c.toNat-65536)%1024-0xDC00) = c.toNat := by omega
      rw [hc, Char.ofNat_toNat]

lemma length_utf16Units (c : Char) :
    (utf16Units c).length = 1 ∨ (utf16Units c).length = 2 := by
  unfold utf16Units
  split_ifs
  · exact .inl rfl
  · exact .inr rfl

lemma charOf_eq_some {us : List ℕ} {c : Char} : charOf us = some c ↔ utf16Units c = us := by
  have hlength := length_utf16Units c
  rcases us with _ | ⟨n, _ | ⟨m, _ | ⟨k, us⟩⟩⟩
  · refine ⟨fun h => absurd h.symm (Option.some_ne_none c),fun h => ?_⟩
    rw [h, List.length_nil] at hlength
    omega
  · exact charOf_single
  · exact charOf_pair
  · refine ⟨fun h => absurd h.symm (Option.some_ne_none c),fun h => ?_⟩
    rw [h, List.length_cons, List.length_cons, List.length_cons] at hlength
    omega

lemma charOf_high {c : Char} {n m : ℕ} (h : utf16Units c = [n,m]) : charOf [n] = none := by
  have h := charOf_eq_some.mpr h
  simp only [charOf] at h ⊢
  split_ifs at h with hn
  rw [if_neg (by omega)]

/-! ### The reader -/

/-- The second half of a surrogate pair. -/
def readPair (n : ℕ) : List Char → Option (Char × List Char)
  | '\\' :: 'u' :: i :: j :: k :: l :: r => do
    let m ← hexUnit i j k l
    let c ← charOf [n,m]
    some (c,r)
  | _ => none

/-- What a code unit begins. -/
def readUnit (n : ℕ) (r : List Char) : Option (Char × List Char) :=
  match charOf [n] with
  | some c => some (c,r)
  | none => readPair n r

/-- One character of a string. -/
def readChar : List Char → Option (Char × List Char)
  | '\\' :: 'u' :: i :: j :: k :: l :: r => do
    let n ← hexUnit i j k l
    readUnit n r
  | '\\' :: e :: r => (shortEscape e).map fun c => (c,r)
  | c :: r => if 32 ≤ c.toNat ∧ c ≠ '"' ∧ c ≠ '\\' then some (c,r) else none
  | [] => none

/-- What follows the opening quote of a string. -/
def readTail : ℕ → List Char → Option (List Char × List Char)
  | 0, _ => none
  | n+1, t =>
    match t with
    | '"' :: r => some ([],r)
    | t => do
      let (c,s) ← readChar t
      let (cs,r) ← readTail n s
      some (c :: cs,r)

lemma spells_of_readUnit {i j k l c : Char} {n : ℕ} {s r : List Char}
    (hn : hexUnit i j k l = some n) (h : readUnit n s = some (c,r)) :
    SpellsChar c ('\\' :: 'u' :: i :: j :: k :: l :: s) r := by
  unfold readUnit at h
  split at h
  · rename_i d hd
    obtain ⟨rfl,rfl⟩ := Prod.mk.inj (Option.some.inj h)
    exact .unit hn (charOf_eq_some.mp hd)
  · unfold readPair at h
    split at h
    · obtain ⟨m,hm,h⟩ := Option.bind_eq_some_iff.mp h
      obtain ⟨d,hd,h⟩ := Option.bind_eq_some_iff.mp h
      obtain ⟨rfl,rfl⟩ := Prod.mk.inj (Option.some.inj h)
      exact .pair hn hm (charOf_eq_some.mp hd)
    · cases h

lemma readChar_eq_some {c : Char} {t r : List Char} : readChar t = some (c,r) ↔ SpellsChar c t r := by
  constructor
  · intro h
    unfold readChar at h
    split at h
    · rename_i i j k l s
      obtain ⟨n,hn,h⟩ := Option.bind_eq_some_iff.mp h
      exact spells_of_readUnit hn h
    · rename_i e s _
      obtain ⟨d,hd,h⟩ := Option.map_eq_some_iff.mp h
      obtain ⟨rfl,rfl⟩ := Prod.mk.inj h
      exact .short hd
    · split_ifs at h with hc
      obtain ⟨rfl,rfl⟩ := Prod.mk.inj (Option.some.inj h)
      exact .plain hc
    · cases h
  · intro h
    cases h with
    | plain hc =>
      unfold readChar
      split
      · rename_i h
        exact absurd (List.cons.inj h).1 hc.2.2
      · rename_i h
        exact absurd (List.cons.inj h).1 hc.2.2
      · rename_i h
        obtain ⟨rfl,rfl⟩ := List.cons.inj h
        rw [if_pos hc]
      · rename_i h
        cases h
    | @short _ e h =>
      unfold readChar
      split
      · rename_i heq
        obtain ⟨-,heq⟩ := List.cons.inj heq
        obtain ⟨rfl,-⟩ := List.cons.inj heq
        cases h
      · rename_i heq
        obtain ⟨-,heq⟩ := List.cons.inj heq
        obtain ⟨rfl,rfl⟩ := List.cons.inj heq
        rw [h]
        rfl
      · rename_i hne heq
        obtain ⟨rfl,rfl⟩ := List.cons.inj heq
        exact absurd rfl (hne _ _ rfl)
      · rename_i heq
        cases heq
    | unit hn hc =>
      have hc := charOf_eq_some.mpr hc
      refine Option.bind_eq_some_iff.mpr ⟨_,hn,?_⟩
      rw [readUnit, hc]
    | pair hn hm hc =>
      have hhigh := charOf_high hc
      refine Option.bind_eq_some_iff.mpr ⟨_,hn,?_⟩
      rw [readUnit, hhigh]
      refine Option.bind_eq_some_iff.mpr ⟨_,hm,?_⟩
      exact Option.bind_eq_some_iff.mpr ⟨_,charOf_eq_some.mpr hc,rfl⟩

lemma SpellsChar.shorter {c : Char} {t r : List Char} (h : SpellsChar c t r) :
    r.length < t.length := by
  cases h <;> simp only [List.length_cons] <;> omega

lemma SpellsChar.ne_quote {c : Char} {t r s : List Char} (h : SpellsChar c t r) : t ≠ '"' :: s := by
  intro heq
  cases h with
  | plain hc => exact hc.2.1 (List.cons.inj heq).1
  | _ => exact absurd (List.cons.inj heq).1 (by decide)

lemma SpellsTail.shorter {cs t r : List Char} (h : SpellsTail cs t r) : r.length < t.length := by
  induction h with
  | quote => simp
  | cons h hs ih => exact ih.trans h.shorter

lemma spells_of_readTail {n : ℕ} {cs t r : List Char} (h : readTail n t = some (cs,r)) :
    SpellsTail cs t r := by
  induction n generalizing cs t with
  | zero => cases h
  | succ n ih =>
    unfold readTail at h
    split at h
    · obtain ⟨rfl,rfl⟩ := Prod.mk.inj (Option.some.inj h)
      exact .quote
    · obtain ⟨⟨c,s⟩,hc,h⟩ := Option.bind_eq_some_iff.mp h
      obtain ⟨⟨ds,r'⟩,hs,h⟩ := Option.bind_eq_some_iff.mp h
      obtain ⟨rfl,rfl⟩ := Prod.mk.inj (Option.some.inj h)
      exact .cons (readChar_eq_some.mp hc) (ih hs)

lemma readTail_of_spells {cs t r : List Char} (h : SpellsTail cs t r) {n : ℕ} (hn : t.length ≤ n) :
    readTail n t = some (cs,r) := by
  induction h generalizing n with
  | quote =>
    cases n with
    | zero => cases hn
    | succ n => rfl
  | @cons c cs t s r h hs ih =>
    have hlt := h.shorter
    cases n with
    | zero => omega
    | succ n =>
      have hs := ih (n := n) (by omega)
      unfold readTail
      split
      · exact absurd rfl h.ne_quote
      · refine Option.bind_eq_some_iff.mpr ⟨_,readChar_eq_some.mpr h,?_⟩
        exact Option.bind_eq_some_iff.mpr ⟨_,hs,rfl⟩

/-- `t` without the blanks it begins with. -/
def skip (t : List Char) : List Char := t.dropWhile isBlank

lemma gap_skip (t : List Char) : Gap t (skip t) :=
  ⟨t.takeWhile isBlank,List.all_takeWhile,List.takeWhile_append_dropWhile.symm⟩

lemma skip_cons {c : Char} (t : List Char) (hc : isBlank c = false) : skip (c :: t) = c :: t := by
  rw [skip, List.dropWhile_cons_of_neg]
  rw [hc]
  decide

lemma Gap.skip_eq {t r : List Char} (h : Gap t r) (hr : ∀ c s, r = c :: s → isBlank c = false) :
    skip t = r := by
  obtain ⟨b,hb,rfl⟩ := h
  rw [skip, List.dropWhile_append_of_pos fun c hc => List.all_eq_true.mp hb c hc]
  cases r with
  | nil => rfl
  | cons c s => exact skip_cons s (hr c s rfl)

lemma Gap.length_le {t r : List Char} (h : Gap t r) : r.length ≤ t.length := by
  obtain ⟨b,-,rfl⟩ := h
  rw [List.length_append]
  omega

/-- A number, as far as its characters go. -/
def readNumber (t : List Char) : Option (Json × List Char) :=
  if isToken (t.takeWhile isNumeric) then
    (numeral (t.takeWhile isNumeric)).map fun n => (.num n,t.dropWhile isNumeric)
  else none

/-- What follows an opening bracket. -/
def readFirst {α : Type} (close : Char) (item : List Char → Option (α × List Char))
    (rest : List Char → Option (List α × List Char)) (t : List Char) :
    Option (List α × List Char) :=
  match skip t with
  | [] => none
  | c :: s =>
    if c = close then some ([],s)
    else do
      let (a,u) ← item (c :: s)
      let (l,r) ← rest u
      some (a :: l,r)

/-- What follows the first item. -/
def readNext {α : Type} (close : Char) (item : List Char → Option (α × List Char))
    (rest : List Char → Option (List α × List Char)) (t : List Char) :
    Option (List α × List Char) :=
  match skip t with
  | [] => none
  | c :: s =>
    if c = close then some ([],s)
    else if c = ',' then do
      let (a,u) ← item (skip s)
      let (l,r) ← rest u
      some (a :: l,r)
    else none

mutual
/-- The value a text begins with, and what follows it. -/
def readValue : ℕ → List Char → Option (Json × List Char)
  | 0, _ => none
  | n+1, t =>
    match t with
    | 'n' :: 'u' :: 'l' :: 'l' :: r => some (.null,r)
    | 't' :: 'r' :: 'u' :: 'e' :: r => some (.bool true,r)
    | 'f' :: 'a' :: 'l' :: 's' :: 'e' :: r => some (.bool false,r)
    | '"' :: t => (readTail n t).map fun (cs,r) => (.str (String.ofList cs),r)
    | '[' :: t => (readFirst ']' (readValue n) (readItems n) t).map fun (vs,r) => (.arr vs,r)
    | '{' :: t => (readFirst '}' (readMember n) (readMembers n) t).map fun (ms,r) => (.obj ms,r)
    | t => readNumber numeral t

def readItems : ℕ → List Char → Option (List Json × List Char)
  | 0, _ => none
  | n+1, t => readNext ']' (readValue n) (readItems n) t

def readMember : ℕ → List Char → Option ((String × Json) × List Char)
  | 0, _ => none
  | n+1, t =>
    match t with
    | '"' :: t => do
      let (cs,s) ← readTail n t
      match skip s with
      | ':' :: u => do
        let (v,r) ← readValue n (skip u)
        some ((String.ofList cs,v),r)
      | _ => none
    | _ => none

def readMembers : ℕ → List Char → Option (List (String × Json) × List Char)
  | 0, _ => none
  | n+1, t => readNext '}' (readMember n) (readMembers n) t
end

/-- The value of a whole text. -/
def read (t : List Char) : Option Json :=
  match readValue numeral t.length (skip t) with
  | some (v,r) => if skip r = [] then some v else none
  | none => none

variable {numeral}

lemma spells_of_readNumber {t r : List Char} {v : Json} (h : readNumber numeral t = some (v,r)) :
    Spells numeral v t r := by
  unfold readNumber at h
  split_ifs at h with hd
  obtain ⟨n,hn,h⟩ := Option.map_eq_some_iff.mp h
  obtain ⟨rfl,rfl⟩ := Prod.mk.inj h
  have hend : Ended (t.dropWhile isNumeric) := by
    intro c s hs
    have hne : t.dropWhile isNumeric ≠ [] := by rw [hs]; simp
    have hhead := List.head_dropWhile_not isNumeric hne
    simp only [hs, List.head_cons] at hhead
    exact hhead
  have hspell := Spells.num hd hend hn
  rwa [List.takeWhile_append_dropWhile] at hspell

section
variable {α : Type} {close : Char} {item : List Char → Option (α × List Char)}
  {rest : List Char → Option (List α × List Char)} {t r : List Char} {l : List α}

lemma readFirst_eq_some : readFirst close item rest t = some (l,r) ↔
    (skip t = close :: r ∧ l = []) ∨ ∃ c s a u l', skip t = c :: s ∧ c ≠ close ∧
      item (c :: s) = some (a,u) ∧ rest u = some (l',r) ∧ l = a :: l' := by
  unfold readFirst
  cases ht : skip t with
  | nil => simp
  | cons c s =>
    dsimp only
    constructor
    · intro h
      split_ifs at h with hc
      · obtain ⟨rfl,rfl⟩ := Prod.mk.inj (Option.some.inj h)
        exact .inl ⟨by rw [hc],rfl⟩
      · obtain ⟨⟨a,u⟩,ha,h⟩ := Option.bind_eq_some_iff.mp h
        obtain ⟨⟨l',r'⟩,hl,h⟩ := Option.bind_eq_some_iff.mp h
        obtain ⟨rfl,rfl⟩ := Prod.mk.inj (Option.some.inj h)
        exact .inr ⟨c,s,a,u,l',rfl,hc,ha,hl,rfl⟩
    · rintro (⟨h,rfl⟩ | ⟨c',s',a,u,l',h,hc,ha,hl,rfl⟩)
      · obtain ⟨rfl,rfl⟩ := List.cons.inj h
        exact if_pos rfl
      · obtain ⟨rfl,rfl⟩ := List.cons.inj h
        rw [if_neg hc]
        refine Option.bind_eq_some_iff.mpr ⟨_,ha,?_⟩
        exact Option.bind_eq_some_iff.mpr ⟨_,hl,rfl⟩

lemma readNext_eq_some (hclose : close ≠ ',') : readNext close item rest t = some (l,r) ↔
    (skip t = close :: r ∧ l = []) ∨ ∃ s a u l', skip t = ',' :: s ∧
      item (skip s) = some (a,u) ∧ rest u = some (l',r) ∧ l = a :: l' := by
  unfold readNext
  cases ht : skip t with
  | nil => simp
  | cons c s =>
    dsimp only
    constructor
    · intro h
      split_ifs at h with hc hcomma
      · obtain ⟨rfl,rfl⟩ := Prod.mk.inj (Option.some.inj h)
        exact .inl ⟨by rw [hc],rfl⟩
      · obtain ⟨⟨a,u⟩,ha,h⟩ := Option.bind_eq_some_iff.mp h
        obtain ⟨⟨l',r'⟩,hl,h⟩ := Option.bind_eq_some_iff.mp h
        obtain ⟨rfl,rfl⟩ := Prod.mk.inj (Option.some.inj h)
        exact .inr ⟨s,a,u,l',by rw [hcomma],ha,hl,rfl⟩
    · rintro (⟨h,rfl⟩ | ⟨s',a,u,l',h,ha,hl,rfl⟩)
      · obtain ⟨rfl,rfl⟩ := List.cons.inj h
        exact if_pos rfl
      · obtain ⟨rfl,rfl⟩ := List.cons.inj h
        rw [if_neg hclose.symm, if_pos rfl]
        refine Option.bind_eq_some_iff.mpr ⟨_,ha,?_⟩
        exact Option.bind_eq_some_iff.mpr ⟨_,hl,rfl⟩

end

/-- What the reader makes of a text is what the text spells. The induction is on the steps left. -/
theorem spells_of_read (n : ℕ) :
    (∀ t v r, readValue numeral n t = some (v,r) → Spells numeral v t r) ∧
    (∀ t vs r, readItems numeral n t = some (vs,r) → SpellsItems numeral vs t r) ∧
    (∀ t m r, readMember numeral n t = some (m,r) → SpellsMember numeral m t r) ∧
    ∀ t ms r, readMembers numeral n t = some (ms,r) → SpellsMembers numeral ms t r := by
  induction n with
  | zero => exact ⟨nofun,nofun,nofun,nofun⟩
  | succ n ih =>
    obtain ⟨hvalue,hitems,hmember,hmembers⟩ := ih
    refine ⟨fun t v r h => ?_,fun t vs r h => ?_,fun t m r h => ?_,fun t ms r h => ?_⟩
    · unfold readValue at h
      split at h
      · obtain ⟨rfl,rfl⟩ := Prod.mk.inj (Option.some.inj h)
        exact .null
      · obtain ⟨rfl,rfl⟩ := Prod.mk.inj (Option.some.inj h)
        exact .yes
      · obtain ⟨rfl,rfl⟩ := Prod.mk.inj (Option.some.inj h)
        exact .no
      · obtain ⟨⟨cs,s⟩,hs,h⟩ := Option.map_eq_some_iff.mp h
        obtain ⟨rfl,rfl⟩ := Prod.mk.inj h
        exact .str (spells_of_readTail hs)
      · rename_i t
        obtain ⟨⟨vs,s⟩,hs,h⟩ := Option.map_eq_some_iff.mp h
        obtain ⟨rfl,rfl⟩ := Prod.mk.inj h
        have hgap := gap_skip t
        rcases readFirst_eq_some.mp hs with ⟨ht,rfl⟩ | ⟨c,s',v,u,vs',ht,-,hv,hvs,rfl⟩ <;>
          rw [ht] at hgap
        · exact .arrNil hgap
        · exact .arr hgap (hvalue _ _ _ hv) (hitems _ _ _ hvs)
      · rename_i t
        obtain ⟨⟨ms,s⟩,hs,h⟩ := Option.map_eq_some_iff.mp h
        obtain ⟨rfl,rfl⟩ := Prod.mk.inj h
        have hgap := gap_skip t
        rcases readFirst_eq_some.mp hs with ⟨ht,rfl⟩ | ⟨c,s',m,u,ms',ht,-,hm,hms,rfl⟩ <;>
          rw [ht] at hgap
        · exact .objNil hgap
        · exact .obj hgap (hmember _ _ _ hm) (hmembers _ _ _ hms)
      · exact spells_of_readNumber h
    · have hgap := gap_skip t
      rcases (readNext_eq_some (by decide)).mp h with ⟨ht,rfl⟩ | ⟨s,v,u,vs',ht,hv,hvs,rfl⟩ <;>
        rw [ht] at hgap
      · exact .nil hgap
      · exact .cons hgap (gap_skip s) (hvalue _ _ _ hv) (hitems _ _ _ hvs)
    · unfold readMember at h
      split at h
      · obtain ⟨⟨cs,s⟩,hk,h⟩ := Option.bind_eq_some_iff.mp h
        have hgap := gap_skip s
        dsimp only at h
        split at h
        · rename_i u hu
          obtain ⟨⟨v,r'⟩,hv,h⟩ := Option.bind_eq_some_iff.mp h
          obtain ⟨rfl,rfl⟩ := Prod.mk.inj (Option.some.inj h)
          rw [hu] at hgap
          exact .mk (spells_of_readTail hk) hgap (gap_skip u) (hvalue _ _ _ hv)
        · cases h
      · cases h
    · have hgap := gap_skip t
      rcases (readNext_eq_some (by decide)).mp h with ⟨ht,rfl⟩ | ⟨s,m,u,ms',ht,hm,hms,rfl⟩ <;>
        rw [ht] at hgap
      · exact .nil hgap
      · exact .cons hgap (gap_skip s) (hmember _ _ _ hm) (hmembers _ _ _ hms)

/-- What a spelling of a value may begin with. -/
def Opens (t : List Char) : Prop :=
  ∃ c s, t = c :: s ∧ isBlank c = false ∧ c ≠ ']' ∧ c ≠ '}'

lemma opens_of_isToken {d r : List Char} (hd : isToken d = true) : Opens (d ++ r) := by
  match d with
  | c :: d =>
    have hc : c.isDigit = true ∨ c = '-' := by
      simp only [isToken, Bool.and_eq_true, Bool.or_eq_true, decide_eq_true_eq] at hd
      exact hd.1
    refine ⟨c,d ++ r,rfl,?_,?_,?_⟩
    · rcases hc with hc | rfl
      · simp only [isBlank, Bool.or_eq_false_iff, decide_eq_false_iff_not]
        refine ⟨⟨⟨?_,?_⟩,?_⟩,?_⟩ <;> rintro rfl <;> exact absurd hc (by decide)
      · decide
    · rintro rfl
      exact absurd hc (by decide)
    · rintro rfl
      exact absurd hc (by decide)

lemma Spells.opens {v : Json} {t r : List Char} (h : Spells numeral v t r) : Opens t := by
  cases h with
  | num hd _ _ => exact opens_of_isToken hd
  | _ => exact ⟨_,_,rfl,by decide,by decide,by decide⟩

lemma SpellsMember.opens {m : String × Json} {t r : List Char} (h : SpellsMember numeral m t r) :
    Opens t := by
  cases h
  exact ⟨_,_,rfl,by decide,by decide,by decide⟩

lemma Gap.skip_opens {t r : List Char} (h : Gap t r) (hr : Opens r) : skip t = r := by
  obtain ⟨c,s,rfl,hc,-⟩ := hr
  refine h.skip_eq fun d u hd => ?_
  rw [← (List.cons.inj hd).1]
  exact hc

lemma Gap.skip_char {c : Char} {t r : List Char} (h : Gap t (c :: r)) (hc : isBlank c = false) :
    skip t = c :: r :=
  h.skip_eq fun _ _ hd => (List.cons.inj hd).1 ▸ hc

mutual
theorem Spells.shorter : ∀ {v : Json} {t r : List Char}, Spells numeral v t r → r.length < t.length
  | _, _, _, .null => by
    simp only [List.length_cons]
    omega
  | _, _, _, .yes => by
    simp only [List.length_cons]
    omega
  | _, _, _, .no => by
    simp only [List.length_cons]
    omega
  | _, _, _, .num (d := d) hd _ _ => by
    cases d with
    | nil => cases hd
    | cons c d =>
      simp only [List.cons_append, List.length_cons, List.length_append]
      omega
  | _, _, _, .str h => by
    have := h.shorter
    simp only [List.length_cons]
    omega
  | _, _, _, .arrNil h => by
    have := h.length_le
    simp only [List.length_cons] at this ⊢
    omega
  | _, _, _, .arr hg hv hs => by
    have := hg.length_le
    have := hv.shorter
    have := hs.shorter
    simp only [List.length_cons]
    omega
  | _, _, _, .objNil h => by
    have := h.length_le
    simp only [List.length_cons] at this ⊢
    omega
  | _, _, _, .obj hg hm hs => by
    have := hg.length_le
    have := hm.shorter
    have := hs.shorter
    simp only [List.length_cons]
    omega

theorem SpellsItems.shorter : ∀ {vs : List Json} {t r : List Char}, SpellsItems numeral vs t r →
    r.length < t.length
  | _, _, _, .nil h => by
    have := h.length_le
    simp only [List.length_cons] at this
    omega
  | _, _, _, .cons hc hg hv hs => by
    have := hc.length_le
    have := hg.length_le
    have := hv.shorter
    have := hs.shorter
    simp only [List.length_cons] at *
    omega

theorem SpellsMember.shorter : ∀ {m : String × Json} {t r : List Char},
    SpellsMember numeral m t r → r.length < t.length
  | _, _, _, .mk hk hc hg hv => by
    have := hk.shorter
    have := hc.length_le
    have := hg.length_le
    have := hv.shorter
    simp only [List.length_cons] at *
    omega

theorem SpellsMembers.shorter : ∀ {ms : List (String × Json)} {t r : List Char},
    SpellsMembers numeral ms t r → r.length < t.length
  | _, _, _, .nil h => by
    have := h.length_le
    simp only [List.length_cons] at this
    omega
  | _, _, _, .cons hc hg hm hs => by
    have := hc.length_le
    have := hg.length_le
    have := hm.shorter
    have := hs.shorter
    simp only [List.length_cons] at *
    omega
end

lemma all_of_isToken {d : List Char} (hd : isToken d = true) : ∀ c ∈ d, isNumeric c = true := by
  cases d with
  | nil => cases hd
  | cons c d =>
    simp only [isToken, Bool.and_eq_true] at hd
    exact List.all_eq_true.mp hd.2

lemma takeWhile_token {d r : List Char} (hd : isToken d = true) (hr : Ended r) :
    (d ++ r).takeWhile isNumeric = d ∧ (d ++ r).dropWhile isNumeric = r := by
  have hall := all_of_isToken hd
  rw [List.takeWhile_append_of_pos hall, List.dropWhile_append_of_pos hall]
  cases r with
  | nil => exact ⟨List.append_nil d,rfl⟩
  | cons c s =>
    have hc := hr c s rfl
    rw [List.takeWhile_cons_of_neg (by rw [hc]; decide), List.dropWhile_cons_of_neg (by rw [hc]; decide)]
    exact ⟨List.append_nil d,rfl⟩

lemma readNumber_token {d r : List Char} {n : ℚ} (hd : isToken d = true) (hr : Ended r)
    (hn : numeral d = some n) : readNumber numeral (d ++ r) = some (.num n,r) := by
  obtain ⟨ht,hdrop⟩ := takeWhile_token hd hr
  rw [readNumber, ht, hdrop, if_pos hd, hn]
  rfl

lemma readValue_token {d r : List Char} {n : ℕ} (hd : isToken d = true) :
    readValue numeral (n+1) (d ++ r) = readNumber numeral (d ++ r) := by
  cases d with
  | nil => cases hd
  | cons c d =>
    unfold readValue
    split
    all_goals first
      | rfl
      | rename_i heq
        obtain ⟨rfl,-⟩ := List.cons.inj heq
        cases hd

mutual
/-- Whatever the text spells is what the reader makes of it, in as many steps as it has
characters. -/
theorem readValue_of_spells : ∀ {v : Json} {t r : List Char}, Spells numeral v t r →
    ∀ {n : ℕ}, t.length ≤ n → readValue numeral n t = some (v,r)
  | _, _, _, .null, n+1, _ => rfl
  | _, _, _, .yes, n+1, _ => rfl
  | _, _, _, .no, n+1, _ => rfl
  | _, _, _, .num hd hr hn, n, hle => by
    have hlt := (Spells.num hd hr hn).shorter
    cases n with
    | zero => omega
    | succ n => rw [readValue_token hd, readNumber_token hd hr hn]
  | _, _, _, .str h, n+1, hle => by
    have hs := readTail_of_spells h (Nat.le_of_succ_le_succ hle)
    exact Option.map_eq_some_iff.mpr ⟨_,hs,rfl⟩
  | _, _, _, .arrNil h, n+1, _ => by
    refine Option.map_eq_some_iff.mpr ⟨([],_),readFirst_eq_some.mpr ?_,rfl⟩
    exact .inl ⟨h.skip_char (by decide),rfl⟩
  | _, _, _, .arr hg hv hs, n+1, hle => by
    have hlen := hg.length_le
    have hlt := hv.shorter
    have hskip := hg.skip_opens hv.opens
    obtain ⟨c,s,rfl,-,hc,-⟩ := hv.opens
    have hle := Nat.le_of_succ_le_succ hle
    have hv := readValue_of_spells hv (hlen.trans hle)
    have hs := readItems_of_spells hs (n := n) (by omega)
    have h := readFirst_eq_some.mpr (.inr ⟨c,s,_,_,_,hskip,hc,hv,hs,rfl⟩)
    exact Option.map_eq_some_iff.mpr ⟨_,h,rfl⟩
  | _, _, _, .objNil h, n+1, _ => by
    refine Option.map_eq_some_iff.mpr ⟨([],_),readFirst_eq_some.mpr ?_,rfl⟩
    exact .inl ⟨h.skip_char (by decide),rfl⟩
  | _, _, _, .obj hg hm hs, n+1, hle => by
    have hlen := hg.length_le
    have hlt := hm.shorter
    have hskip := hg.skip_opens hm.opens
    obtain ⟨c,s,rfl,-,-,hc⟩ := hm.opens
    have hle := Nat.le_of_succ_le_succ hle
    have hm := readMember_of_spells hm (hlen.trans hle)
    have hs := readMembers_of_spells hs (n := n) (by omega)
    have h := readFirst_eq_some.mpr (.inr ⟨c,s,_,_,_,hskip,hc,hm,hs,rfl⟩)
    exact Option.map_eq_some_iff.mpr ⟨_,h,rfl⟩

theorem readItems_of_spells : ∀ {vs : List Json} {t r : List Char}, SpellsItems numeral vs t r →
    ∀ {n : ℕ}, t.length ≤ n → readItems numeral n t = some (vs,r)
  | _, _, _, .nil h, n, hle => by
    have hlen := h.length_le
    simp only [List.length_cons] at hlen
    cases n with
    | zero => omega
    | succ n => exact (readNext_eq_some (by decide)).mpr (.inl ⟨h.skip_char (by decide),rfl⟩)
  | _, _, _, .cons hc hg hv hs, n, hle => by
    have hlen := hc.length_le
    have hlen' := hg.length_le
    have hlt := hv.shorter
    simp only [List.length_cons] at hlen
    cases n with
    | zero => omega
    | succ n =>
      have hskip := hg.skip_opens hv.opens
      have hv := readValue_of_spells hv (n := n) (by omega)
      have hs := readItems_of_spells hs (n := n) (by omega)
      rw [← hskip] at hv
      exact (readNext_eq_some (by decide)).mpr
        (.inr ⟨_,_,_,_,hc.skip_char (by decide),hv,hs,rfl⟩)

theorem readMember_of_spells : ∀ {m : String × Json} {t r : List Char},
    SpellsMember numeral m t r → ∀ {n : ℕ}, t.length ≤ n → readMember numeral n t = some (m,r)
  | _, _, _, .mk hk hc hg hv, n+1, hle => by
    have hlt := hk.shorter
    have hlen := hc.length_le
    have hlen' := hg.length_le
    simp only [List.length_cons] at hle hlen
    have hskip := hg.skip_opens hv.opens
    have hk := readTail_of_spells hk (n := n) (by omega)
    have hv := readValue_of_spells hv (n := n) (by omega)
    rw [← hskip] at hv
    refine Option.bind_eq_some_iff.mpr ⟨_,hk,?_⟩
    dsimp only
    rw [hc.skip_char (by decide)]
    exact Option.bind_eq_some_iff.mpr ⟨_,hv,rfl⟩

theorem readMembers_of_spells : ∀ {ms : List (String × Json)} {t r : List Char},
    SpellsMembers numeral ms t r → ∀ {n : ℕ}, t.length ≤ n → readMembers numeral n t = some (ms,r)
  | _, _, _, .nil h, n, hle => by
    have hlen := h.length_le
    simp only [List.length_cons] at hlen
    cases n with
    | zero => omega
    | succ n => exact (readNext_eq_some (by decide)).mpr (.inl ⟨h.skip_char (by decide),rfl⟩)
  | _, _, _, .cons hc hg hm hs, n, hle => by
    have hlen := hc.length_le
    have hlen' := hg.length_le
    have hlt := hm.shorter
    simp only [List.length_cons] at hlen
    cases n with
    | zero => omega
    | succ n =>
      have hskip := hg.skip_opens hm.opens
      have hm := readMember_of_spells hm (n := n) (by omega)
      have hs := readMembers_of_spells hs (n := n) (by omega)
      rw [← hskip] at hm
      exact (readNext_eq_some (by decide)).mpr
        (.inr ⟨_,_,_,_,hc.skip_char (by decide),hm,hs,rfl⟩)
end

/-- The reader takes exactly the texts of the grammar. -/
theorem read_eq_some {v : Json} {t : List Char} : read numeral t = some v ↔ IsText numeral v t := by
  unfold read
  constructor
  · intro h
    split at h
    · rename_i w r hr
      split_ifs at h with hend
      obtain rfl := Option.some.inj h
      have hgap := gap_skip r
      rw [hend] at hgap
      exact ⟨skip t,r,gap_skip t,(spells_of_read _).1 _ _ _ hr,hgap⟩
    · cases h
  · rintro ⟨s,r,hg,hv,hend⟩
    have hlen := hg.length_le
    rw [hg.skip_opens hv.opens, readValue_of_spells hv hlen]
    exact if_pos (hend.skip_eq nofun)

theorem isText_unique {v w : Json} {t : List Char} (hv : IsText numeral v t)
    (hw : IsText numeral w t) : v = w := by
  rw [← read_eq_some] at hv hw
  exact Option.some.inj (hv.symm.trans hw)

variable (numeral)

/-- A reader of bytes with the depth limit of `serde_json`. -/
def readBytes (b : List UInt8) : Option Json :=
  ((String.fromUTF8? ⟨b.toArray⟩).bind fun s => read numeral s.toList).filter (shallow 0)

variable {numeral}

lemma fromUTF8_eq_some {b : List UInt8} {s : String} :
    String.fromUTF8? ⟨b.toArray⟩ = some s ↔ b = utf8 s.toList := by
  unfold String.fromUTF8? utf8
  rw [String.ofList_toList]
  constructor
  · intro h
    split_ifs at h
    rw [← Option.some.inj h]
    rfl
  · intro h
    have hb : (⟨b.toArray⟩ : ByteArray) = s.toByteArray := by
      apply ByteArray.ext
      rw [h]
    rw [dif_pos (hb ▸ s.isValidUTF8)]
    exact congrArg some (String.toByteArray_inj.mp hb)

theorem readBytes_eq_some {b : List UInt8} {v : Json} : readBytes numeral b = some v ↔
    shallow 0 v = true ∧ ∃ t, b = utf8 t ∧ IsText numeral v t := by
  unfold readBytes
  rw [Option.filter_eq_some_iff, Option.bind_eq_some_iff, and_comm]
  refine and_congr_right fun _ => ⟨?_,?_⟩
  · rintro ⟨s,hs,hv⟩
    exact ⟨s.toList,fromUTF8_eq_some.mp hs,read_eq_some.mp hv⟩
  · rintro ⟨t,rfl,ht⟩
    refine ⟨String.ofList t,fromUTF8_eq_some.mpr ?_,?_⟩
    · rw [String.toList_ofList]
    · rw [String.toList_ofList]
      exact read_eq_some.mpr ht

/-! ### What is written -/

mutual
/-- The numbers in a value. -/
def numbers : Json → List ℚ
  | .num n => [n]
  | .arr vs => numbersOfItems vs
  | .obj ms => numbersOfMembers ms
  | _ => []

def numbersOfItems : List Json → List ℚ
  | [] => []
  | v :: vs => numbers v ++ numbersOfItems vs

def numbersOfMembers : List (String × Json) → List ℚ
  | [] => []
  | (_,v) :: ms => numbers v ++ numbersOfMembers ms
end

/-- The number is written as a token that stands for it. -/
def WritesBack (numeral : List Char → Option ℚ) (cr : Crates) (n : ℚ) : Prop :=
  isToken (cr.formatNumber n).toList = true ∧ numeral (cr.formatNumber n).toList = some n

/-- Formatting round-trips: every number that some token stands for is written back. -/
def RoundTrips (numeral : List Char → Option ℚ) (cr : Crates) : Prop :=
  ∀ d n, numeral d = some n → WritesBack numeral cr n

lemma hexUnit_hexDigit : ∀ n < 32, hexUnit '0' '0' (hexDigit (n/16)) (hexDigit (n%16)) = some n := by
  decide

lemma spellsChar_escape (c : Char) (r : List Char) : SpellsChar c (escape c ++ r) r := by
  unfold escape
  split_ifs with h1 h2 h3 h4 h5 h6 h7 h8
  iterate 7 subst c; exact .short rfl
  · refine .unit (hexUnit_hexDigit _ h8) ?_
    unfold utf16Units
    rw [if_pos (by omega)]
  · exact .plain ⟨Nat.le_of_not_lt h8,h1,h2⟩

lemma spellsTail_escape (cs r : List Char) :
    SpellsTail cs (cs.flatMap escape ++ ['"'] ++ r) r := by
  induction cs with
  | nil => exact .quote
  | cons c cs ih =>
    simp only [List.flatMap_cons, List.append_assoc] at ih ⊢
    exact .cons (spellsChar_escape c _) ih

lemma Gap.refl (t : List Char) : Gap t t := ⟨[],rfl,rfl⟩

lemma ended_of_char {c : Char} {t : List Char} (hc : isNumeric c = false) : Ended (c :: t) :=
  fun _ _ h => (List.cons.inj h).1 ▸ hc

lemma ended_writeItems (cr : Crates) (vs : List Json) (r : List Char) :
    Ended (writeItems cr vs ++ r) := by
  cases vs <;> exact ended_of_char (by decide)

lemma ended_writeMembers (cr : Crates) (ms : List (String × Json)) (r : List Char) :
    Ended (writeMembers cr ms ++ r) := by
  cases ms with
  | nil => exact ended_of_char (by decide)
  | cons m ms => exact ended_of_char (by decide)

mutual
/-- What `write` writes spells the value, as long as its numbers are written back. -/
theorem spells_write (cr : Crates) : ∀ v : Json, (∀ n ∈ numbers v, WritesBack numeral cr n) →
    ∀ r, Ended r → Spells numeral v (write cr v ++ r) r
  | .null, _, _, _ => .null
  | .bool true, _, _, _ => .yes
  | .bool false, _, _, _ => .no
  | .num n, h, r, hr => by
    obtain ⟨hd,hn⟩ := h n (List.mem_singleton_self n)
    exact .num hd hr hn
  | .str s, _, r, _ => by
    have hs : Spells numeral (.str (String.ofList s.toList)) (writeString s ++ r) r :=
      .str (spellsTail_escape s.toList r)
    rwa [String.ofList_toList] at hs
  | .arr [], _, _, _ => .arrNil (.refl _)
  | .arr (v :: vs), h, r, _ => by
    obtain ⟨hv,hvs⟩ := List.forall_mem_append.mp h
    simp only [write, List.cons_append, List.append_assoc]
    exact .arr (.refl _) (spells_write cr v hv _ (ended_writeItems cr vs r))
      (spells_writeItems cr vs hvs r)
  | .obj [], _, _, _ => .objNil (.refl _)
  | .obj ((k,v) :: ms), h, r, _ => by
    obtain ⟨hv,hms⟩ := List.forall_mem_append.mp h
    simp only [write, List.cons_append, List.append_assoc]
    exact .obj (.refl _) (spells_writeMember cr k v hv _ (ended_writeMembers cr ms r))
      (spells_writeMembers cr ms hms r)

theorem spells_writeItems (cr : Crates) : ∀ vs : List Json,
    (∀ n ∈ numbersOfItems vs, WritesBack numeral cr n) →
    ∀ r, SpellsItems numeral vs (writeItems cr vs ++ r) r
  | [], _, _ => .nil (.refl _)
  | v :: vs, h, r => by
    obtain ⟨hv,hvs⟩ := List.forall_mem_append.mp h
    simp only [writeItems, List.cons_append, List.append_assoc]
    exact .cons (.refl _) (.refl _) (spells_write cr v hv _ (ended_writeItems cr vs r))
      (spells_writeItems cr vs hvs r)

theorem spells_writeMember (cr : Crates) (k : String) : ∀ v : Json,
    (∀ n ∈ numbers v, WritesBack numeral cr n) → ∀ r, Ended r →
    SpellsMember numeral (k,v) (writeString k ++ ':' :: (write cr v ++ r)) r
  | v, h, r, hr => by
    have hk := spellsTail_escape k.toList (':' :: (write cr v ++ r))
    have hm := SpellsMember.mk hk (.refl _) (.refl _) (spells_write cr v h r hr)
    rwa [String.ofList_toList] at hm

theorem spells_writeMembers (cr : Crates) : ∀ ms : List (String × Json),
    (∀ n ∈ numbersOfMembers ms, WritesBack numeral cr n) →
    ∀ r, SpellsMembers numeral ms (writeMembers cr ms ++ r) r
  | [], _, _ => .nil (.refl _)
  | (k,v) :: ms, h, r => by
    obtain ⟨hv,hms⟩ := List.forall_mem_append.mp h
    simp only [writeMembers, List.cons_append, List.append_assoc]
    exact .cons (.refl _) (.refl _) (spells_writeMember cr k v hv _ (ended_writeMembers cr ms r))
      (spells_writeMembers cr ms hms r)
end

mutual
theorem Spells.numbers_named : ∀ {v : Json} {t r : List Char}, Spells numeral v t r →
    ∀ n ∈ numbers v, ∃ d, numeral d = some n
  | _, _, _, .null => nofun
  | _, _, _, .yes => nofun
  | _, _, _, .no => nofun
  | _, _, _, .num _ _ hn => fun _ h => ⟨_,List.mem_singleton.mp h ▸ hn⟩
  | _, _, _, .str _ => nofun
  | _, _, _, .arrNil _ => nofun
  | _, _, _, .arr _ hv hs =>
    fun n h => (List.mem_append.mp h).elim (hv.numbers_named n) (hs.numbers_named n)
  | _, _, _, .objNil _ => nofun
  | _, _, _, .obj _ hm hs =>
    fun n h => (List.mem_append.mp h).elim (hm.numbers_named n) (hs.numbers_named n)

theorem SpellsItems.numbers_named : ∀ {vs : List Json} {t r : List Char},
    SpellsItems numeral vs t r → ∀ n ∈ numbersOfItems vs, ∃ d, numeral d = some n
  | _, _, _, .nil _ => nofun
  | _, _, _, .cons _ _ hv hs =>
    fun n h => (List.mem_append.mp h).elim (hv.numbers_named n) (hs.numbers_named n)

theorem SpellsMember.numbers_named : ∀ {m : String × Json} {t r : List Char},
    SpellsMember numeral m t r → ∀ n ∈ numbers m.2, ∃ d, numeral d = some n
  | _, _, _, .mk _ _ _ hv => hv.numbers_named

theorem SpellsMembers.numbers_named : ∀ {ms : List (String × Json)} {t r : List Char},
    SpellsMembers numeral ms t r → ∀ n ∈ numbersOfMembers ms, ∃ d, numeral d = some n
  | _, _, _, .nil _ => nofun
  | _, _, _, .cons _ _ hm hs =>
    fun n h => (List.mem_append.mp h).elim (hm.numbers_named n) (hs.numbers_named n)
end

theorem isText_write {cr : Crates} {v : Json} (h : ∀ n ∈ numbers v, WritesBack numeral cr n) :
    IsText numeral v (write cr v) := by
  have hs := spells_write cr v h [] nofun
  rw [List.append_nil] at hs
  exact ⟨_,_,.refl _,hs,.refl _⟩

end RisuNest.Wire.JsonText
