import RisuNest.Lib.PrefixCode
import Mathlib.Data.Char
import Mathlib.Tactic.IntervalCases

/-! The restricted canonical JSON of the protocol (`canonical.rs`): strings, booleans, null,
arrays and objects, written without blanks. Its text determines the value. -/
namespace RisuNest.Wire

/-- A number-free control value. An object lists its members in the UTF-16 order of their
names, which is the order `write` sorts them into; every member name of the protocol is fixed. -/
inductive Control
  | null
  | bool (b : Bool)
  | str (s : String)
  | arr (values : List Control)
  | obj (members : List (String × Control))
  deriving Repr

/-- One lower-case hexadecimal digit. -/
def hexDigit (n : ℕ) : Char := if n < 10 then Char.ofNat (48+n) else Char.ofNat (87+n)

/-- The escapes `serde_json` writes inside a string. -/
def escape (c : Char) : List Char :=
  if c = '"' then ['\\','"']
  else if c = '\\' then ['\\','\\']
  else if c = '\x08' then ['\\','b']
  else if c = '\x0c' then ['\\','f']
  else if c = '\n' then ['\\','n']
  else if c = '\r' then ['\\','r']
  else if c = '\t' then ['\\','t']
  else if c.toNat < 32 then ['\\','u','0','0',hexDigit (c.toNat/16),hexDigit (c.toNat%16)]
  else [c]

/-- A JSON string without its opening quote. -/
def stringTail (s : String) : List Char := s.toList.flatMap escape ++ ['"']

def writeString (s : String) : List Char := '"' :: stringTail s

mutual
def Control.write : Control → List Char
  | .null => ['n','u','l','l']
  | .bool true => ['t','r','u','e']
  | .bool false => ['f','a','l','s','e']
  | .str s => writeString s
  | .arr [] => ['[',']']
  | .arr (v :: vs) => '[' :: (v.write ++ Control.writeItems vs)
  | .obj [] => ['{','}']
  | .obj ((k,v) :: ms) => '{' :: (writeString k ++ ':' :: (v.write ++ Control.writeMembers ms))

/-- The items after the first one, and the closing bracket. -/
def Control.writeItems : List Control → List Char
  | [] => [']']
  | v :: vs => ',' :: (v.write ++ Control.writeItems vs)

/-- The members after the first one, and the closing brace. -/
def Control.writeMembers : List (String × Control) → List Char
  | [] => ['}']
  | (k,v) :: ms => ',' :: (writeString k ++ ':' :: (v.write ++ Control.writeMembers ms))
end

/-- UTF-8 bytes of a text. -/
def utf8 (t : List Char) : List UInt8 := (String.ofList t).toByteArray.data.toList

/-- `canonical::encode` of a value already turned into control JSON. -/
def Control.encode (v : Control) : List UInt8 := utf8 v.write

/-- `canonical::encode(&values)` of a list of strings. -/
def Control.strings (values : List String) : Control := .arr (values.map .str)

private def unescape : List Char → Option (Char × List Char)
  | '\\' :: '"' :: r => some ('"',r)
  | '\\' :: '\\' :: r => some ('\\',r)
  | '\\' :: 'b' :: r => some ('\x08',r)
  | '\\' :: 'f' :: r => some ('\x0c',r)
  | '\\' :: 'n' :: r => some ('\n',r)
  | '\\' :: 'r' :: r => some ('\r',r)
  | '\\' :: 't' :: r => some ('\t',r)
  | '\\' :: 'u' :: '0' :: '0' :: h :: l :: r =>
    (List.range 32).findSome? fun n =>
      if hexDigit (n/16) = h ∧ hexDigit (n%16) = l then some (Char.ofNat n,r) else none
  | c :: r => some (c,r)
  | [] => none

private lemma unescape_control {n : ℕ} (hn : n < 32) (r : List Char) :
    unescape ('\\' :: 'u' :: '0' :: '0' :: hexDigit (n/16) :: hexDigit (n%16) :: r) =
      some (Char.ofNat n,r) := by
  interval_cases n <;> rfl

private lemma unescape_escape (c : Char) (r : List Char) :
    unescape (escape c ++ r) = some (c,r) := by
  unfold escape
  split_ifs with h1 h2 h3 h4 h5 h6 h7 h8
  iterate 7 subst c; rfl
  · simpa using unescape_control h8 r
  · change unescape (c :: r) = _
    unfold unescape
    split <;> simp_all

lemma escape_selfDelimiting : SelfDelimiting escape :=
  SelfDelimiting.of_decoder unescape unescape_escape

lemma quote_neverStarts_escape : NeverStarts '"' escape := by
  intro c r s e
  unfold escape at e
  split_ifs at e <;> simp_all

lemma stringTail_selfDelimiting : SelfDelimiting stringTail := by
  intro a b r s e
  obtain ⟨h, hr⟩ := escape_selfDelimiting.many quote_neverStarts_escape a.toList b.toList r s e
  exact ⟨String.toList_inj.mp h,hr⟩

lemma writeString_selfDelimiting : SelfDelimiting writeString :=
  stringTail_selfDelimiting.cons '"'

/-- The first character of a value tells its kind. -/
def Control.head : Control → Char
  | .null => 'n'
  | .bool true => 't'
  | .bool false => 'f'
  | .str _ => '"'
  | .arr _ => '['
  | .obj _ => '{'

lemma Control.write_head (v : Control) : ∃ r, v.write = v.head :: r := by
  cases v with
  | null => exact ⟨_,rfl⟩
  | bool b => cases b <;> exact ⟨_,rfl⟩
  | str s => exact ⟨_,rfl⟩
  | arr vs => cases vs <;> exact ⟨_,rfl⟩
  | obj ms => cases ms <;> exact ⟨_,rfl⟩

lemma Control.head_eq_of_write {v w : Control} {r s : List Char}
    (e : v.write ++ r = w.write ++ s) : v.head = w.head := by
  obtain ⟨x, hx⟩ := v.write_head
  obtain ⟨y, hy⟩ := w.write_head
  rw [hx, hy, List.cons_append, List.cons_append] at e
  exact (List.cons.inj e).1

lemma Control.write_ne_cons (v : Control) {t : Char} (ht : v.head ≠ t) (r s : List Char) :
    v.write ++ r ≠ t :: s := by
  obtain ⟨x, hx⟩ := v.write_head
  intro e
  rw [hx, List.cons_append] at e
  exact ht (List.cons.inj e).1

lemma Control.head_ne_bracket (v : Control) : v.head ≠ ']' := by
  cases v with
  | bool b => cases b <;> decide
  | _ => simp [Control.head]

mutual
/-- The canonical text of a value determines it, whatever follows. The recursion is the one of
`write`: the first character fixes the constructor, then the parts are peeled off in order. -/
theorem Control.write_selfDelimiting : ∀ (v w : Control) (r s : List Char),
    v.write ++ r = w.write ++ s → v = w ∧ r = s
  | .null, w, r, s, e => by
    have hh := Control.head_eq_of_write e
    cases w with
    | null => exact ⟨rfl,by simpa [Control.write] using e⟩
    | bool b => cases b <;> exact absurd hh (by decide)
    | _ => exact absurd hh (by simp [Control.head])
  | .bool b, w, r, s, e => by
    have hh := Control.head_eq_of_write e
    cases w with
    | bool b' =>
      cases b <;> cases b' <;> first
        | exact ⟨rfl,by simpa [Control.write] using e⟩
        | exact absurd hh (by decide)
    | _ => cases b <;> exact absurd hh (by simp [Control.head])
  | .str a, w, r, s, e => by
    have hh := Control.head_eq_of_write e
    cases w with
    | str b =>
      obtain ⟨rfl, h⟩ := writeString_selfDelimiting a b r s (by simpa [Control.write] using e)
      exact ⟨rfl,h⟩
    | bool b => cases b <;> exact absurd hh (by simp [Control.head])
    | _ => exact absurd hh (by simp [Control.head])
  | .arr vs, w, r, s, e => by
    have hh := Control.head_eq_of_write e
    cases w with
    | arr ws =>
      cases vs with
      | nil =>
        cases ws with
        | nil => exact ⟨rfl,by simpa [Control.write] using e⟩
        | cons w ws =>
          simp only [Control.write, List.cons_append, List.nil_append, List.append_assoc,
            List.cons.injEq, true_and] at e
          exact absurd e.symm (w.write_ne_cons w.head_ne_bracket _ _)
      | cons v vs =>
        cases ws with
        | nil =>
          simp only [Control.write, List.cons_append, List.nil_append, List.append_assoc,
            List.cons.injEq, true_and] at e
          exact absurd e (v.write_ne_cons v.head_ne_bracket _ _)
        | cons w ws =>
          simp only [Control.write, List.cons_append, List.append_assoc, List.cons.injEq,
            true_and] at e
          obtain ⟨rfl, h1⟩ := Control.write_selfDelimiting v w _ _ e
          obtain ⟨rfl, h2⟩ := Control.writeItems_selfDelimiting vs ws _ _ h1
          exact ⟨rfl,h2⟩
    | bool b => cases b <;> exact absurd hh (by simp [Control.head])
    | _ => exact absurd hh (by simp [Control.head])
  | .obj ms, w, r, s, e => by
    have hh := Control.head_eq_of_write e
    cases w with
    | obj ns =>
      cases ms with
      | nil =>
        cases ns with
        | nil => exact ⟨rfl,by simpa [Control.write] using e⟩
        | cons n ns =>
          obtain ⟨k, v⟩ := n
          simp [Control.write, writeString] at e
      | cons m ms =>
        obtain ⟨k, v⟩ := m
        cases ns with
        | nil => simp [Control.write, writeString] at e
        | cons n ns =>
          obtain ⟨l, w⟩ := n
          simp only [Control.write, List.cons_append, List.append_assoc, List.cons.injEq,
            true_and] at e
          obtain ⟨rfl, h1⟩ := writeString_selfDelimiting k l _ _ e
          obtain ⟨rfl, h2⟩ := Control.write_selfDelimiting v w _ _ (List.cons.inj h1).2
          obtain ⟨rfl, h3⟩ := Control.writeMembers_selfDelimiting ms ns _ _ h2
          exact ⟨rfl,h3⟩
    | bool b => cases b <;> exact absurd hh (by simp [Control.head])
    | _ => exact absurd hh (by simp [Control.head])

theorem Control.writeItems_selfDelimiting : ∀ (vs ws : List Control) (r s : List Char),
    Control.writeItems vs ++ r = Control.writeItems ws ++ s → vs = ws ∧ r = s
  | [], [], r, s, e => ⟨rfl,by simpa [Control.writeItems] using e⟩
  | [], _ :: _, r, s, e => by simp [Control.writeItems] at e
  | _ :: _, [], r, s, e => by simp [Control.writeItems] at e
  | v :: vs, w :: ws, r, s, e => by
    simp only [Control.writeItems, List.cons_append, List.append_assoc, List.cons.injEq,
      true_and] at e
    obtain ⟨rfl, h1⟩ := Control.write_selfDelimiting v w _ _ e
    obtain ⟨rfl, h2⟩ := Control.writeItems_selfDelimiting vs ws _ _ h1
    exact ⟨rfl,h2⟩

theorem Control.writeMembers_selfDelimiting : ∀ (ms ns : List (String × Control))
    (r s : List Char),
    Control.writeMembers ms ++ r = Control.writeMembers ns ++ s → ms = ns ∧ r = s
  | [], [], r, s, e => ⟨rfl,by simpa [Control.writeMembers] using e⟩
  | [], _ :: _, r, s, e => by simp [Control.writeMembers] at e
  | _ :: _, [], r, s, e => by simp [Control.writeMembers] at e
  | (k,v) :: ms, (l,w) :: ns, r, s, e => by
    simp only [Control.writeMembers, List.cons_append, List.append_assoc, List.cons.injEq,
      true_and] at e
    obtain ⟨rfl, h1⟩ := writeString_selfDelimiting k l _ _ e
    obtain ⟨rfl, h2⟩ := Control.write_selfDelimiting v w _ _ (List.cons.inj h1).2
    obtain ⟨rfl, h3⟩ := Control.writeMembers_selfDelimiting ms ns _ _ h2
    exact ⟨rfl,h3⟩
end

theorem utf8_injective : Function.Injective utf8 := by
  intro a b e
  have h : (String.ofList a).toByteArray = (String.ofList b).toByteArray :=
    ByteArray.ext (Array.toList_inj.mp e)
  exact String.ofList_injective (String.toByteArray_inj.mp h)

theorem Control.encode_injective : Function.Injective Control.encode := by
  intro a b e
  exact SelfDelimiting.injective Control.write_selfDelimiting (utf8_injective e)

end RisuNest.Wire
