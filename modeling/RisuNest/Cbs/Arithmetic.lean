import RisuNest.Cbs.Text
import Mathlib.Algebra.Group.Nat.Defs

/-! Numbers of scripts, and the arithmetic that scripts write down (`cbs.rs`, `arithmetic.rs`). -/
namespace RisuNest.Cbs

/-- What is taken from the `f64` of the language and from the crate that writes its numbers. -/
structure Floats (F : Type) where
  /-- `str::parse` -/
  parse : String → Option F
  /-- `ryu_js::Buffer::format` -/
  format : F → String
  nan : F
  infinity : F
  negInfinity : F
  /-- `as f64` -/
  ofNat : ℕ → F
  /-- `as usize` -/
  toNat : F → ℕ
  isNan : F → Bool
  isFinite : F → Bool
  fract : F → F
  trunc : F → F
  eq : F → F → Bool
  lt : F → F → Bool
  le : F → F → Bool
  neg : F → F
  add : F → F → F
  sub : F → F → F
  mul : F → F → F
  div : F → F → F
  rem : F → F → F
  powf : F → F → F

variable {F : Type} (f : Floats F)

/-- `is_ascii_digit`, or one of the other characters of a decimal number. -/
def isNumberChar (c : Char) : Bool := c.isDigit || "+-.eE".toList.contains c

namespace Arithmetic

def isWhitespace (c : Char) : Bool :=
  let n := c.toNat
  (9 ≤ n && n ≤ 13) || n == 0x20 || n == 0x85 || n == 0xa0 || n == 0x1680 ||
    (0x2000 ≤ n && n ≤ 0x200a) || n == 0x2028 || n == 0x2029 || n == 0x202f || n == 0x205f ||
    n == 0x3000

def precedence (c : Char) : ℕ :=
  if "+-".toList.contains c then 2
  else if "*/%".toList.contains c then 3
  else if c = '^' then 4
  else if "<>|&≤≥=≠".toList.contains c then 1
  else if c = '!' then 5
  else 0

/-- The number that a text starts with, as far as it goes. -/
def parse (s : String) : F :=
  (s.toList.inits.reverse.findSome? fun text => f.parse (String.ofList text)).getD f.nan

def truth (x : F) : Bool := !f.eq x (f.ofNat 0) && !f.isNan x

def replace (s : List Char) (old new : String) : List Char := replaceLiteral s old.toList new.toList

/-- Two characters of a comparison or of a connective become one. -/
def shorten (text : List Char) : List Char :=
  [("&&","&"),("||","|"),("<=","≤"),(">=","≥"),("==","="),("!=","≠")].foldl
    (fun text r => replace text r.1 r.2) text

/-- An operand that is left out is a zero. -/
def operand (last : List Char) : String := if last = [] then "0" else String.ofList last

/-- Operands and operators; `last` is the operand so far. A minus is a sign where no operand goes
before it. -/
def tokensFrom (before : Option Char) (last : List Char) : List Char → List String
  | [] => [operand last]
  | c :: chars =>
    if c = '-' && before.all fun p => 0 < precedence p then tokensFrom (some c) (last ++ [c]) chars
    else if 0 < precedence c then
      operand last :: String.ofList [c] :: tokensFrom (some c) [] chars
    else tokensFrom (some c) (last ++ [c]) chars

/-- Whether a text counts as a number. -/
def isNumber (t : String) : Bool := truth f (parse f t) || t == "0"

/-- Whether an operator that waits is applied before another one. -/
def goesFirst (c p : Char) : Bool :=
  if c = '!' then precedence c < precedence p else precedence c ≤ precedence p

/-- Operands in their order with each operator after its operands; `ops` are those that wait. -/
def postfixFrom (ops : List Char) : List String → List String
  | [] => ops.map fun c => String.ofList [c]
  | t :: tokens =>
    if isNumber f t then t :: postfixFrom ops tokens
    else match t.toList with
      | [c] =>
        if 0 < precedence c then
          (ops.takeWhile (goesFirst c)).map (fun p => String.ofList [p]) ++
            postfixFrom (c :: ops.dropWhile (goesFirst c)) tokens
        else postfixFrom ops tokens
      | _ => postfixFrom ops tokens

def bit (v : Bool) : F := f.ofNat v.toNat

/-- An operator on its operands. -/
def apply (t : String) (a b : F) : Option F :=
  match t with
  | "+" => some (f.add a b)
  | "-" => some (f.sub a b)
  | "*" => some (f.mul a b)
  | "/" => some (f.div a b)
  | "%" => some (f.rem a b)
  | "^" => some (f.powf a b)
  | "<" => some (bit f (f.lt a b))
  | ">" => some (bit f (f.lt b a))
  | "≤" => some (bit f (f.le a b))
  | "≥" => some (bit f (f.le b a))
  | "=" => some (bit f (f.eq a b))
  | "≠" => some (bit f (!f.eq a b))
  | "|" => some (if truth f a then a else b)
  | "&" => some (if truth f a then b else a)
  | "!" => some (bit f (!truth f b))
  | _ => none

/-- What is on top of a stack, and the rest. -/
def pop (stack : List F) : F × List F := (stack.headD f.nan,stack.tail)

/-- The stack after one text in postfix order. -/
def reduce (stack : List F) (t : String) : List F :=
  if isNumber f t then parse f t :: stack
  else
    let (b, stack) := pop f stack
    let (a, stack) := pop f stack
    match apply f t a b with
    | some value => value :: stack
    | none => stack

/-- An expression without parentheses. -/
def flat (text : List Char) : F :=
  let tokens := tokensFrom none [] (shorten (text.filter fun c => !isWhitespace c))
  ((postfixFrom f [] tokens).foldl (reduce f) []).headD (f.ofNat 0)

def number (x : F) : String :=
  if f.isNan x then "NaN"
  else if f.eq x f.infinity then "Infinity"
  else if f.eq x f.negInfinity then "-Infinity"
  else if f.eq x (f.ofNat 0) then "0"
  else f.format x

/-- Parentheses that are open, the innermost first; one that is closed becomes its number. -/
def step (stack : List (List Char)) (c : Char) : List (List Char) :=
  if c = '(' then [] :: stack
  else match stack with
    | s :: outer :: rest =>
      if c = ')' then (outer ++ (number f (flat f s)).toList) :: rest
      else (s ++ [c]) :: outer :: rest
    | [s] => [s ++ [c]]
    | [] => []

def evaluate (text : String) : Except String String :=
  let text := replace (text.toList.map Char.toLower) "null" "0"
  if text.any fun c => !c.isDigit && !isWhitespace c && !".+*/%^<>=!&|()-".toList.contains c then
    .error "math-domain"
  else .ok (number f (flat f (text.foldl (step f) [[]]).reverse.flatten))

end Arithmetic

/-! ### Numbers -/

def numberString (n : F) : Units := units (f.format n)

/-- `to_digit`, in a radix up to 16. -/
def digit (radix : ℕ) (c : Char) : Option ℕ :=
  let n :=
    if c.isDigit then c.toNat - '0'.toNat
    else if 'a' ≤ c && c ≤ 'f' then c.toNat - 'a'.toNat + 10
    else if 'A' ≤ c && c ≤ 'F' then c.toNat - 'A'.toNat + 10
    else radix
  if n < radix then some n else none

/-- Digits after a radix, up to the greatest integer that is exact. -/
def radixNumber (radix : ℕ) (digits : List Char) : Except String F :=
  if digits = [] ∨ digits.any fun c => (digit radix c).isNone then .ok f.nan
  else
    let n := digits.foldl (fun n c => n*radix + (digit radix c).getD 0) 0
    if 9007199254740991 < n then .error "number-radix-range" else .ok (f.ofNat n)

/-- `number`, of a text in ASCII. -/
def asciiNumber (s : String) : Except String F :=
  match s.toList with
  | '0' :: 'x' :: digits => radixNumber f 16 digits
  | '0' :: 'X' :: digits => radixNumber f 16 digits
  | '0' :: 'b' :: digits => radixNumber f 2 digits
  | '0' :: 'B' :: digits => radixNumber f 2 digits
  | '0' :: 'o' :: digits => radixNumber f 8 digits
  | '0' :: 'O' :: digits => radixNumber f 8 digits
  | chars =>
    if s = "Infinity" ∨ s = "+Infinity" then .ok f.infinity
    else if s = "-Infinity" then .ok f.negInfinity
    else if chars.all isNumberChar then .ok ((f.parse s).getD f.nan)
    else .ok f.nan

def number (s : Option Units) : Except String F :=
  match s with
  | none => .ok f.nan
  | some s =>
    if trim s = [] then .ok (f.ofNat 0)
    else match ascii (trim s) with
      | .error _ => .ok f.nan
      | .ok text => asciiNumber f text

/-- `float`: the longest start that is a number. -/
def float (s : Units) : F :=
  let text := ((trim s).takeWhile (· ≤ 127)).map fun c => Char.ofNat c.toNat
  if "Infinity".toList.isPrefixOf text || "+Infinity".toList.isPrefixOf text then f.infinity
  else if "-Infinity".toList.isPrefixOf text then f.negInfinity
  else (text.inits.tail.reverse.findSome? fun start =>
    if start.all isNumberChar then f.parse (String.ofList start) else none).getD f.nan

/-- Floats as they are for whole numbers from zero on, and `NaN` for everything else. -/
def wholeFloats : Floats (Option ℕ) where
  parse s :=
    if s.toList ≠ [] ∧ s.toList.all Char.isDigit then
      some (some (s.toList.foldl (fun n c => n*10 + (c.toNat - '0'.toNat)) 0))
    else none
  format x := x.elim "NaN" toString
  nan := none
  infinity := none
  negInfinity := none
  ofNat := some
  toNat x := x.getD 0
  isNan := Option.isNone
  isFinite := Option.isSome
  fract x := x.map fun _ => 0
  trunc := id
  eq x y := x.isSome && x == y
  lt x y := x.any fun a => y.any fun b => a < b
  le x y := x.any fun a => y.any fun b => a ≤ b
  neg _ := none
  add x y := x.bind fun a => y.map fun b => a + b
  sub x y := x.bind fun a => y.bind fun b => if b ≤ a then some (a - b) else none
  mul x y := x.bind fun a => y.map fun b => a * b
  div x y := x.bind fun a => y.bind fun b => if 0 < b ∧ b ∣ a then some (a / b) else none
  rem x y := x.bind fun a => y.bind fun b => if 0 < b then some (a % b) else none
  powf x y := x.bind fun a => y.map fun b => a ^ b

end RisuNest.Cbs
