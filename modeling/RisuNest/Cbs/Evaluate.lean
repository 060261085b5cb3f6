import RisuNest.Cbs.Values
import RisuNest.Lib.Table

/-! Scripts as trees, and what they evaluate to (`cbs.rs`). -/
namespace RisuNest.Cbs

inductive Node
  | text (s : Units)
  | macroCall (children : List Node)
  | block (kind : UInt8) (condition body : List Node)

/-- Choices that were made before, of which the next one counts. -/
structure ChoiceTape where
  indices : List ℕ
  position : ℕ
  nextArity : Option ℕ
  deriving DecidableEq

structure Context where
  vars : Table Units Units
  globals : Table Units Units
  temp : Table Units Units
  index : ℤ
  user : Units
  state : UInt32
  draws : ℕ
  choices : Option ChoiceTape

/-- `Context::default` -/
def Context.initial : Context := ⟨.empty,.empty,.empty,0,[],0,0,none⟩

structure Budget where
  remaining : ℕ
  maxOutput : ℕ
  cancel : Bool
  deriving DecidableEq

/-- `Budget::default` -/
def Budget.initial : Budget := ⟨1000000,4194304,false⟩

/-- What an evaluation changes. -/
structure Machine where
  context : Context
  budget : Budget

/-- An evaluation; what it changed before an error stays changed. -/
abbrev Eval (α : Type) := EStateM String Machine α

def fail {α : Type} (message : String) : Eval α := fun m => .error message m

def lift {α : Type} : Except String α → Eval α
  | .ok a => pure a
  | .error message => fail message

def context : Eval Context := fun m => .ok m.context m

def setContext (c : Context) : Eval Unit := fun m => .ok () { m with context := c }

def tick : Eval Unit := fun m =>
  if m.budget.cancel then .error "cancelled" m
  else if m.budget.remaining = 0 then .error "budget" m
  else .ok () { m with budget := { m.budget with remaining := m.budget.remaining - 1 } }

def checkOutput (out : Units) : Eval Unit := fun m =>
  if m.budget.maxOutput < out.length then .error "output-limit" m else .ok () m

/-! ### Operators -/

/-- The names that a call can start with. -/
inductive Operator
  | getvar
  | getglobalvar
  | chatindex
  | user
  | tempvar
  | gettempvar
  | settempvar
  | equal
  | notequal
  | greater
  | less
  | greaterequal
  | lessequal
  | and
  | or
  | not
  | length
  | trim
  | contains
  | startswith
  | endswith
  | split
  | array
  | makearray
  | join
  | spread
  | arraylength
  | arrayelement
  | calculate
  | random
  | randint
  | dice
  | roll
  | blank
  | br
  | replace
  deriving DecidableEq

namespace Operator

def named : String → Option Operator
  | "getvar" => some getvar
  | "getglobalvar" => some getglobalvar
  | "chatindex" => some chatindex
  | "user" => some user
  | "tempvar" => some tempvar
  | "gettempvar" => some gettempvar
  | "settempvar" => some settempvar
  | "equal" => some equal
  | "notequal" => some notequal
  | "greater" => some greater
  | "less" => some less
  | "greaterequal" => some greaterequal
  | "lessequal" => some lessequal
  | "and" => some and
  | "or" => some or
  | "not" => some not
  | "length" => some length
  | "trim" => some trim
  | "contains" => some contains
  | "startswith" => some startswith
  | "endswith" => some endswith
  | "split" => some split
  | "array" => some array
  | "makearray" => some makearray
  | "join" => some join
  | "spread" => some spread
  | "arraylength" => some arraylength
  | "arrayelement" => some arrayelement
  | "calc" => some calculate
  | "random" => some random
  | "randint" => some randint
  | "dice" => some dice
  | "roll" => some roll
  | "blank" => some blank
  | "br" => some br
  | "replace" => some replace
  | _ => none

/-- The first argument is read as JSON. -/
def readsJson : Operator → Bool
  | join | spread | arraylength | arrayelement | random => true
  | _ => false

/-- Without an argument the call is kept as it is. -/
def needsFirst : Operator → Bool
  | length | trim | startswith | endswith | contains | split | join | arraylength | arrayelement
  | replace | spread | calculate => true
  | _ => false

/-- What `fold_constants` tries to fold. -/
def isConstant : Operator → Bool
  | calculate | equal | notequal | greater | less | greaterequal | lessequal | and | or | not | length
  | trim | contains | startswith | endswith | split | array | makearray | join | spread
  | arraylength | arrayelement | blank | br => true
  | _ => false

end Operator

def prototypeKeys : List String :=
  ["__proto__","constructor","toString","valueOf","toLocaleString","hasOwnProperty","isPrototypeOf",
    "propertyIsEnumerable","__defineGetter__","__defineSetter__","__lookupGetter__",
    "__lookupSetter__"]

def reservedKeys : List String :=
  ["__proto__","constructor","prototype","__force_return__","__return__","__defineGetter__",
    "__defineSetter__","__lookupGetter__","__lookupSetter__","hasOwnProperty","isPrototypeOf",
    "propertyIsEnumerable","toLocaleString","toString","valueOf"]

def isKeyOf (keys : List String) (key : Units) : Bool := keys.any fun k => key == units k

/-- `variable` -/
def valueOf (m : Table Units Units) (key : Units) : Units := (m.get key).getD (units "null")

/-- An argument, or `undefined`. -/
def argument (a : List Units) (i : ℕ) : Units := a.getD i (units "undefined")

def bit (v : Bool) : Units := units (if v then "1" else "0")

/-! ### Random choices -/

def withTape (m : Machine) (tape : ChoiceTape) : Machine :=
  { m with context := { m.context with choices := some tape } }

def finiteChoice (arity : ℕ) : Eval ℕ := fun m =>
  if arity = 0 then .ok 0 m
  else if 16 < arity then .error "rng-choice-arity" m
  else match m.context.choices with
    | none => .error "rng-mode" m
    | some tape =>
      match tape.indices[tape.position]? with
      | none => .error "rng-choice-needed" (withTape m { tape with nextArity := some arity })
      | some index =>
        if arity ≤ index then .error "rng-choice-index" m
        else .ok index (withTape m { tape with position := tape.position + 1 })

section
variable {F : Type} (f : Floats F)

/-- A number of the generator, where choices are not taken from a tape. -/
def draw : Eval (Option F) := do
  let c ← context
  match c.choices with
  | some _ => pure none
  | none => do
    let state := c.state*1664525 + 1013904223
    setContext { c with state := state, draws := c.draws + 1 }
    pure (some (f.div (f.ofNat state.toNat) (f.ofNat 4294967296)))

def choose (rand : Option F) (n : ℕ) : Eval ℕ :=
  match rand with
  | some r => pure (f.toNat (f.mul r (f.ofNat n)))
  | none => finiteChoice n

def randomItems (a : List Units) : List (Json F) :=
  let first := argument a 0
  if 1 < a.length then a.map .str
  else if [91].isPrefixOf first && [93].isSuffixOf first then array f first
  else
    let v := replaceLiteral first (units "\\,") (units "§X")
    (split (replaceLiteral v [58] [44]) [44]).map .str

def randomItem (item : Option (Json F)) : Units :=
  match item with
  | some (.str s) => replaceLiteral s (units "§X") [44]
  | some v => jsonString f v
  | none => []

def random (a : List Units) : Eval Units := do
  let rand ← draw f
  if a = [] then
    match rand with
    | none => fail "rng-continuous-domain"
    | some r => pure (numberString f r)
  else do
    let items := randomItems f a
    let i ← choose f rand items.length
    pure (randomItem f items[i]?)

def integerDomain (n low high : F) : Bool :=
  f.isFinite n && f.eq (f.fract n) (f.ofNat 0) && f.le low n && f.le n high

def randint (args : List Units) : Eval Units := do
  if args.length ≠ 2 then fail "rng-integer-domain"
  else do
    let lo ← lift (number f args[0]?)
    let hi ← lift (number f args[1]?)
    let greatest := f.ofNat 9007199254740991
    let count := f.add (f.sub hi lo) (f.ofNat 1)
    if !integerDomain f lo (f.neg greatest) greatest || !integerDomain f hi lo greatest ||
        f.lt (f.ofNat 16) count then fail "rng-integer-domain"
    else do
      let i ← finiteChoice (f.toNat count)
      pure (numberString f (f.add lo (f.ofNat i)))

/-- How many dice with how many sides. -/
def diceOf (roll : Bool) (parts : List Units) : Except String (F × F) :=
  match roll, parts with
  | true, [sides] => do pure (f.ofNat 1,← number f (some sides))
  | true, [count,sides] => do
    let count ← if count = [] then .ok (f.ofNat 1) else number f (some count)
    let sides ← if sides = [] then .ok (f.ofNat 6) else number f (some sides)
    pure (count,sides)
  | false, [count,sides] => do
    let count ← number f (some count)
    let sides ← number f (some sides)
    pure (count,sides)
  | _, _ => .error "rng-dice-domain"

/-- The sum of some dice. -/
def throwDice (sides : ℕ) : ℕ → ℕ → Eval ℕ
  | 0, total => pure total
  | n + 1, total => do
    let i ← finiteChoice sides
    throwDice sides n (total + (i + 1))

def throwNotation (roll : Bool) (args : List Units) : Eval Units :=
  match args with
  | [] => if roll then pure (units "1") else fail "rng-dice-domain"
  | text :: _ => do
    let (count, sides) ← lift (diceOf f roll (split text [100]))
    if !integerDomain f count (f.ofNat roll.toNat) (f.ofNat 8) ||
        !integerDomain f sides (f.ofNat 1) (f.ofNat 16) then fail "rng-dice-domain"
    else do
      let total ← throwDice (f.toNat sides) (f.toNat count) 0
      pure (numberString f (f.ofNat total))

def finiteRng (op : Operator) (args : List Units) : Eval Units := do
  let c ← context
  if c.choices = none then fail "unsupported-operator"
  else if op = .randint then randint f args
  else throwNotation f (decide (op = .roll)) args

/-! ### Calls -/

/-- An element of an array, from its end where the index is negative. -/
def arrayElement (a : List Units) : Except String Units := do
  let items := array f (argument a 0)
  let n ← number f a[1]?
  let n := if f.isNan n then f.ofNat 0 else f.trunc n
  let i := if f.lt n (f.ofNat 0) then f.add (f.ofNat items.length) n else n
  if f.lt i (f.ofNat 0) || f.le (f.ofNat items.length) i then pure (units "null")
  else match items.getD (f.toNat i) .null with
    | .null => pure (units "null")
    | .arr items => pure (jsonString f (.arr items))
    | .obj members => pure (jsonString f (.obj members))
    | v => pure (toText f v)

/-- Two numbers are compared. -/
def compared (rel : F → F → Bool) (a : List Units) : Except String Units := do
  let left ← number f a[0]?
  let right ← number f a[1]?
  pure (bit (rel left right))

/-- `calc` -/
def calculated (text : Units) : Except String Units := do
  let s ← ascii text
  let result ← Arithmetic.evaluate f s
  pure (units result)

/-- Temporary variables, with reserved names. -/
def temporary (op : Operator) (a : List Units) : Eval Units := do
  let c ← context
  let key := argument a 0
  if isKeyOf reservedKeys key then fail "temp-reserved-key"
  else if op = .settempvar then do
    let temp := match a[1]? with
      | some v => c.temp.upsert key v
      | none => c.temp.erase key
    setContext { c with temp := temp }
    pure []
  else pure ((c.temp.get key).getD [])

/-- What an operator gives for its arguments. -/
def operate (op : Operator) (a : List Units) : Eval Units :=
  let first := argument a 0
  let second := argument a 1
  match op with
  | .getvar => do pure (valueOf (← context).vars first)
  | .getglobalvar => do pure (valueOf (← context).globals first)
  | .chatindex => do pure (units (toString (← context).index))
  | .user => do pure (← context).user
  | .tempvar | .gettempvar | .settempvar => temporary op a
  | .equal => pure (bit (a[0]? == a[1]?))
  | .notequal => pure (bit (a[0]? != a[1]?))
  | .greater => lift (compared f (fun x y => f.lt y x) a)
  | .less => lift (compared f f.lt a)
  | .greaterequal => lift (compared f (fun x y => f.le y x) a)
  | .lessequal => lift (compared f f.le a)
  | .and => pure (bit (first == units "1" && second == units "1"))
  | .or => pure (bit (first == units "1" || second == units "1"))
  | .not => pure (bit (first != units "1"))
  | .length => pure (units (toString first.length))
  | .trim => pure (Cbs.trim first)
  | .contains => pure (bit (second.isEmpty || holds first second))
  | .startswith => pure (bit (second.isPrefixOf first))
  | .endswith => pure (bit (second.isSuffixOf first))
  | .split => pure (makeArray f (if a.length < 2 then [first] else Cbs.split first second))
  | .array | .makearray => pure (makeArray f a)
  | .join => pure (arrayJoin f (Cbs.array f first) (if a.length < 2 then [44] else second))
  | .spread => pure (arrayJoin f (Cbs.array f first) [58,58])
  | .arraylength => pure (units (toString (Cbs.array f first).length))
  | .arrayelement => lift (arrayElement f a)
  | .calculate => lift (calculated f first)
  | .random => Cbs.random f a
  | .randint | .dice | .roll => finiteRng f op a
  | .blank => pure []
  | .br => pure [10]
  | .replace => fail "replace-substitution"

/-- A call that is kept as it is. -/
def preserve (value : Units) : Units := units "\x7b\x7b" ++ value ++ units "\x7d\x7d"

def dispatch (value : Units) (name : String) (a : List Units) : Eval Units :=
  match Operator.named name with
  | none => fail "unsupported-operator"
  | some op =>
    if op.readsJson && a.head?.any fun s => jsonDepthExceeds s 64 then fail "json-depth"
    else if (op == .getvar || op == .getglobalvar) && isKeyOf prototypeKeys (argument a 0) then
      fail "variable-prototype-key"
    else if op.needsFirst && a.isEmpty then pure (preserve value)
    else operate f op a

/-- Arguments stand after double colons where the first colon is one. -/
def separator (value : Units) : Units :=
  if [58,58].isPrefixOf (value.dropWhile (· != 58)) then units "::" else units ":"

/-- A name without what does not count in it. -/
def nameUnits (s : Units) : Units := s.filter fun c => !ws c && c != 95 && c != 45

def lowerName (s : String) : String := String.ofList (s.toList.map Char.toLower)

/-- A call of a text, and whether the loop goes on with the next node at once. -/
def expand (value : Units) : Eval (Units × Bool) :=
  if value.head?.any fun c => c == 35 || c == 47 || c == 58 then fail "dynamic-block"
  else if (units "? ").isPrefixOf value then do
    let result ← lift (calculated f (value.drop 2))
    pure (result,true)
  else do
    let parts := split value (separator value)
    let name ← lift (ascii (nameUnits (parts.headD [])))
    let result ← dispatch f value (lowerName name) parts.tail
    pure (result,false)

/-! ### Blocks -/

/-- An operator of a condition with its right side. -/
def conditionBit (c : Context) (op : String) (b : Units) : Option (Except String Bool) :=
  match op with
  | "not" => some (.ok (!truth b))
  | "var" => some (if isKeyOf prototypeKeys b then .error "variable-prototype-key"
      else .ok (truth (valueOf c.vars b)))
  | "toggle" => some (.ok (truth (valueOf c.globals (units "toggle_" ++ b))))
  | _ => none

/-- An operator of a condition with both sides. -/
def conditionPair (op : String) (left b : Units) : Except String Bool :=
  match op with
  | "and" => .ok (truth left && truth b)
  | "or" => .ok (truth left || truth b)
  | "is" => .ok (left == b)
  | "isnot" => .ok (left != b)
  | ">" => .ok (f.lt (float f b) (float f left))
  | "<" => .ok (f.lt (float f left) (float f b))
  | ">=" => .ok (f.le (float f b) (float f left))
  | "<=" => .ok (f.le (float f left) (float f b))
  | _ => .error "when-mode"

/-- The stack of a condition, with its top apart. -/
def whenFrom (c : Context) (keep : Bool) (b : Units) : List Units → Except String (Bool × Bool)
  | [] => .ok (truth b,keep)
  | op :: stack =>
    match ascii op with
    | .error e => .error e
    | .ok "keep" => whenFrom c true b stack
    | .ok op =>
      match conditionBit c op b, stack with
      | some (.error e), _ => .error e
      | some (.ok yes), stack => whenFrom c keep (bit yes) stack
      | none, [] => .error "when-args"
      | none, left :: stack =>
        match conditionPair f op left b with
        | .error e => .error e
        | .ok yes => whenFrom c keep (bit yes) stack

/-- `when`: whether a condition holds, and whether blank lines are kept. -/
def whenOf (c : Context) (value : Units) (kind : UInt8) : Except String (Bool × Bool) :=
  if kind = 2 then .ok (truth ((split value [32]).headD []),false)
  else match (split value (units "::")).reverse with
    | [] => .ok (false,false)
    | b :: stack => whenFrom f c false b stack

end

def elseToken : Units := units "\x7b\x7b:else\x7d\x7d"

/-- What stands before a token and after it, where it is first. -/
def cut (token : Units) : Units → Option (Units × Units)
  | [] => none
  | c :: s =>
    if token.isPrefixOf (c :: s) then some ([],(c :: s).drop token.length)
    else (cut token s).map fun r => (c :: r.1,r.2)

def isBlank (line : Units) : Bool := (trim line).isEmpty

def isElse (line : Units) : Bool := trim line == elseToken

def blockOutput (body : Units) (yes keep : Bool) : Units :=
  let lines := split body [10]
  if lines.length = 1 then
    match cut elseToken body with
    | some (first, second) => if yes then first else second
    | none => if yes then body else []
  else if lines.any isElse || yes then
    let lines :=
      if lines.any isElse then
        if yes then lines.takeWhile fun line => !isElse line
        else (lines.dropWhile fun line => !isElse line).tail
      else lines
    let lines := if keep then lines else (lines.dropWhile isBlank).rdropWhile isBlank
    join lines [10]
  else []

/-- The lines of a body without what they start with. -/
def dedent (body : Units) : Units :=
  join ((split (trim body) [10]).map fun line => line.dropWhile ws) [10]

/-! ### Evaluation -/

section
variable {F : Type} (f : Floats F)

mutual
/-- The loop over some nodes, with what they gave so far. -/
def evaluateFrom (out : Units) : List Node → Eval Units
  | [] => do
    tick
    pure out
  | node :: nodes => do
    tick
    let (v, next) ← nodeOutput node
    unless next do checkOutput (out ++ v)
    evaluateFrom (out ++ v) nodes

/-- What one node gives, and whether the loop goes on without a check. -/
def nodeOutput : Node → Eval (Units × Bool)
  | .text v => pure (v,false)
  | .block kind condition body => do
    let v ← evaluateFrom [] condition
    if kind < 2 then
      if truth ((split v [32]).headD []) then do
        let body ← evaluateFrom [] body
        pure (if kind = 0 then body else dedent body,false)
      else pure ([],false)
    else do
      let c ← context
      let (yes, keep) ← lift (whenOf f c v kind)
      let body ← evaluateFrom [] body
      pure (blockOutput body yes keep,false)
  | .macroCall children => do
    let value ← evaluateFrom [] children
    expand f value
end

def evaluate (nodes : List Node) : Eval Units := evaluateFrom f [] nodes

end

end RisuNest.Cbs
