import RisuNest.Cbs.Arithmetic
import Mathlib.Data.List.Sort

/-! JSON as scripts read and write it (`cbs.rs`). -/
namespace RisuNest.Cbs

inductive Json (F : Type)
  | null
  | bool (b : Bool)
  | num (n : F)
  | str (s : Units)
  | arr (items : List (Json F))
  | obj (members : List (Units × Json F))

instance {F : Type} : Inhabited (Json F) := ⟨.null⟩

variable {F : Type} (f : Floats F)

/-! ### Reading -/

def wsJson (s : Units) : Units := s.dropWhile fun c => c == 9 || c == 10 || c == 13 || c == 32

/-- Four hexadecimal digits, or three after a plus sign: `u16::from_str_radix`. -/
def escaped (h : Units) : Option UInt16 :=
  match ascii h with
  | .error _ => none
  | .ok text =>
    let digits := if text.toList.head? = some '+' then text.toList.tail else text.toList
    if digits = [] ∨ digits.any fun c => (digit 16 c).isNone then none
    else some (.ofNat (digits.foldl (fun n c => n*16 + (digit 16 c).getD 0) 0))

/-- An escape by one letter. -/
def escapeLetter (e : UInt16) : Option UInt16 :=
  if e == 34 || e == 92 || e == 47 then some e
  else if e == 98 then some 8
  else if e == 102 then some 12
  else if e == 110 then some 10
  else if e == 114 then some 13
  else if e == 116 then some 9
  else none

/-- The rest of a text after its opening quote, with what was read so far. -/
def stringTail (o : Units) : Units → Option (Units × Units)
  | [] => none
  | 34 :: s => some (o,s)
  | 92 :: 117 :: a :: b :: c :: d :: s => do stringTail (o ++ [← escaped [a,b,c,d]]) s
  | 92 :: e :: s => do stringTail (o ++ [← escapeLetter e]) s
  | c :: s => if c < 32 ∨ c = 92 then none else stringTail (o ++ [c]) s

def isDigitUnit (c : UInt16) : Bool := 48 ≤ c && c ≤ 57

/-- Digits, at least one, and what comes after them. -/
def someDigits (s : Units) : Option Units :=
  if s.head?.any isDigitUnit then some (s.dropWhile isDigitUnit) else none

/-- What comes after the whole part of a number: a zero, or digits that do not start with one. -/
def wholeTail (s : Units) : Option Units :=
  if s.head? = some 48 then some s.tail else someDigits s

def fractionTail (s : Units) : Option Units :=
  if s.head? = some 46 then someDigits s.tail else some s

def exponentTail (s : Units) : Option Units :=
  if s.head? = some 101 ∨ s.head? = some 69 then
    if s.tail.head? = some 43 ∨ s.tail.head? = some 45 then someDigits s.tail.tail
    else someDigits s.tail
  else some s

def numberValue (s : Units) : Option (Json F × Units) := do
  let rest ← wholeTail (if s.head? = some 45 then s.tail else s)
  let rest ← fractionTail rest
  let rest ← exponentTail rest
  match ascii (s.take (s.length - rest.length)) with
  | .error _ => none
  | .ok text => do pure (.num (← f.parse text),rest)

/-- A word, or a number. -/
def wordValue (s : Units) : Option (Json F × Units) :=
  if (units "null").isPrefixOf s then some (.null,s.drop 4)
  else if (units "true").isPrefixOf s then some (.bool true,s.drop 4)
  else if (units "false").isPrefixOf s then some (.bool false,s.drop 5)
  else numberValue f s

/-- A later value takes the place of the one before with the same name. -/
def putMember (k : Units) (v : Json F) : List (Units × Json F) → List (Units × Json F)
  | [] => [(k,v)]
  | m :: o => if m.1 = k then (k,v) :: o else m :: putMember k v o

section
variable (value : Units → Option (Json F × Units))

/-- The items of an array, up to the bracket; every one takes a unit at least. -/
def itemsFrom (o : List (Json F)) : ℕ → Units → Option (Json F × Units)
  | 0, _ => none
  | n + 1, s => do
    let (v, s) ← value s
    match wsJson s with
    | 93 :: s => some (.arr (o ++ [v]),s)
    | 44 :: s => itemsFrom (o ++ [v]) n s
    | _ => none

/-- The members of an object, up to the brace. -/
def membersFrom (o : List (Units × Json F)) : ℕ → Units → Option (Json F × Units)
  | 0, _ => none
  | n + 1, s => do
    let (k, s) ← value s
    match k, wsJson s with
    | .str k, 58 :: s => do
      let (v, s) ← value s
      match wsJson s with
      | 125 :: s => some (.obj (putMember k v o),s)
      | 44 :: s => membersFrom (putMember k v o) n s
      | _ => none
    | _, _ => none

end

/-- A value, nested in no more than the given number of others. -/
def valueAt : ℕ → Units → Option (Json F × Units)
  | 0, _ => none
  | d + 1, s =>
    match wsJson s with
    | [] => none
    | 34 :: s => (stringTail [] s).map fun r => (.str r.1,r.2)
    | 91 :: s =>
      match wsJson s with
      | 93 :: s => some (.arr [],s)
      | s => itemsFrom (valueAt d) [] (s.length + 1) s
    | 123 :: s =>
      match wsJson s with
      | 125 :: s => some (.obj [],s)
      | s => membersFrom (valueAt d) [] (s.length + 1) s
    | s => wordValue f s

def jsonParse (s : Units) : Option (Json F) := do
  let (v, rest) ← valueAt f 65 s
  if wsJson rest = [] then some v else none

/-! ### Writing -/

def hexDigit (n : ℕ) : UInt16 := .ofNat (if n < 10 then 48 + n else 87 + n)

/-- `\u` with four digits -/
def escapeUnit (c : UInt16) : Units :=
  let n := c.toNat
  units "\\u" ++ [hexDigit (n/4096),hexDigit (n/256%16),hexDigit (n/16%16),hexDigit (n%16)]

/-- A unit that does not start a surrogate pair. -/
def quoteUnit (c : UInt16) : Units :=
  if c == 34 then units "\\\""
  else if c == 92 then units "\\\\"
  else if c == 8 then units "\\b"
  else if c == 12 then units "\\f"
  else if c == 10 then units "\\n"
  else if c == 13 then units "\\r"
  else if c == 9 then units "\\t"
  else if c < 32 then escapeUnit c
  else if 0xd800 ≤ c && c ≤ 0xdfff then escapeUnit c
  else [c]

def quoteUnits : Units → Units
  | [] => []
  | c :: d :: s =>
    if 0xd800 ≤ c ∧ c ≤ 0xdbff ∧ 0xdc00 ≤ d ∧ d ≤ 0xdfff then c :: d :: quoteUnits s
    else quoteUnit c ++ quoteUnits (d :: s)
  | [c] => quoteUnit c

def quote (s : Units) : Units := [34] ++ quoteUnits s ++ [34]

/-- A name that is an index of an array: `u32::parse`, written as it is. -/
def indexOf (k : Units) : Option ℕ :=
  match ascii k with
  | .error _ => none
  | .ok text =>
    let digits := text.toList
    let n := digits.foldl (fun n c => n*10 + (c.toNat - '0'.toNat)) 0
    if digits ≠ [] ∧ digits.all Char.isDigit ∧ n < 2^32 - 1 ∧ toString n = text then some n else none

/-- Indices go first, in their order; the other names stay in theirs. -/
def before (a b : (ℕ × Units) × Units) : Bool :=
  match indexOf a.1.2, indexOf b.1.2 with
  | some m, some n => m ≤ n
  | some _, none => true
  | none, some _ => false
  | none, none => a.1.1 ≤ b.1.1

/-- The members in the order that they are written in. -/
def ordered (members : List (Units × Units)) : List Units :=
  let rows := members.zipIdx.map fun r => ((r.2,r.1.1),r.1.2)
  (rows.insertionSort fun a b => before a b = true).map fun r => quote r.1.2 ++ [58] ++ r.2

mutual
def jsonString : Json F → Units
  | .null => units "null"
  | .bool b => units (if b then "true" else "false")
  | .num n => if f.isFinite n then numberString f n else units "null"
  | .str s => quote s
  | .arr items => units "[" ++ join (itemStrings items) (units ",") ++ [93]
  | .obj members => units "\x7b" ++ join (ordered (memberStrings members)) (units ",") ++ [125]

def itemStrings : List (Json F) → List Units
  | [] => []
  | v :: items => jsonString v :: itemStrings items

def memberStrings : List (Units × Json F) → List (Units × Units)
  | [] => []
  | (k,v) :: members => (k,jsonString v) :: memberStrings members
end

mutual
def toText : Json F → Units
  | .str s => s
  | .null => units "null"
  | .bool v => units (if v then "true" else "false")
  | .num n => numberString f n
  | .obj _ => units "[object Object]"
  | .arr items => join (joinedItems items) [44]

/-- The items as they are joined: nothing for `null`. -/
def joinedItems : List (Json F) → List Units
  | [] => []
  | .null :: items => [] :: joinedItems items
  | v :: items => toText v :: joinedItems items
end

def arrayJoin (items : List (Json F)) (sep : Units) : Units := join (joinedItems f items) sep

/-! ### Arrays -/

/-- The array that a text is, or its parts. -/
def array (s : Units) : List (Json F) :=
  match jsonParse f s with
  | some (.arr items) => items
  | _ => (split s [167]).map .str

def makeArray (items : List Units) : Units :=
  jsonString f (.arr (items.map fun s =>
    .str (replaceLiteral s (units "::") (units "\\u003A\\u003A"))))

/-- `json_depth_exceeds`, from within a text or not. -/
def depthExceeds (limit : ℕ) : ℕ → Bool → Bool → Units → Bool
  | _, _, _, [] => false
  | depth, true, escaped, c :: s =>
    if escaped then depthExceeds limit depth true false s
    else if c == 92 then depthExceeds limit depth true true s
    else depthExceeds limit depth (c != 34) false s
  | depth, false, escaped, c :: s =>
    if c == 34 then depthExceeds limit depth true escaped s
    else if c == 91 || c == 123 then
      decide (limit < depth + 1) || depthExceeds limit (depth + 1) false escaped s
    else if c == 93 || c == 125 then depthExceeds limit (depth - 1) false escaped s
    else depthExceeds limit depth false escaped s

def jsonDepthExceeds (s : Units) (limit : ℕ) : Bool := depthExceeds limit 0 false false s

end RisuNest.Cbs
