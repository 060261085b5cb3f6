import RisuNest.Cbs.Evaluate

/-! Scripts are read as trees (`cbs.rs`). -/
namespace RisuNest.Cbs

/-! ### What a body may hold that is not always evaluated -/

/-- `lazy_body_admitted`: the operators that are. -/
def Operator.isLazy : Operator → Bool
  | randint | dice | roll | replace => false
  | _ => true

/-- The name that a call starts with, if that is settled by its first text. -/
def lazyName (first : Units) (alone : Bool) : Option Units :=
  if first.contains 58 then some (nameUnits (first.takeWhile (· != 58)))
  else if alone then some (nameUnits first)
  else none

/-- Whether the first text of a call is one of a call that may not be evaluated. -/
def lazyStart (first : Units) (alone : Bool) : Bool :=
  (units "? ").isPrefixOf first ||
    match lazyName first alone with
    | none => false
    | some name =>
      match ascii name with
      | .error _ => false
      | .ok name => (Operator.named (lowerName name)).any Operator.isLazy

def lazyCall : List Node → Bool
  | [.text first] => lazyStart first true
  | .text first :: _ => lazyStart first false
  | _ => false

mutual
def lazyBodyAdmitted : List Node → Bool
  | [] => true
  | node :: nodes => lazyNodeAdmitted node && lazyBodyAdmitted nodes

def lazyNodeAdmitted : Node → Bool
  | .text _ => true
  | .block _ condition body => lazyBodyAdmitted condition && lazyBodyAdmitted body
  | .macroCall children => lazyBodyAdmitted children && lazyCall children
end

/-! ### Reading -/

def openBraces : Units := [123,123]

def closeBraces : Units := [125,125]

/-- A comment where no call starts. -/
def holdsComment : Option UInt16 → Units → Bool
  | before, c :: d :: s =>
    (c == 35 && d == 125) || (c == 123 && d == 35 && before != some 123) ||
      holdsComment (some c) (d :: s)
  | _, _ => false

/-- A token in any case. -/
def holdsToken (token : String) (s : Units) : Bool :=
  s.tails.any fun rest => token.toList.length ≤ rest.length &&
    (rest.zip (units token)).all fun p =>
      p.1 == p.2 || (65 ≤ p.1 && p.1 ≤ 90 && p.1 + 32 == p.2)

def isLegacy (text : Units) : Bool :=
  holdsComment none text || ["<user>","<char>","<bot>"].any fun token => holdsToken token text

def blockStarts : List (String × UInt8) := [("#if_pure ",0),("#if ",1),("#when ",2),("#when::",3)]

/-- What a call that was read is: a block of some kind, whose name is taken off, or a call. -/
def openBlock : List Node → Except String (List Node × Option UInt8)
  | .text first :: v =>
    match blockStarts.find? fun start => (units start.1).isPrefixOf first with
    | some start => .ok (.text (first.drop (units start.1).length) :: v,some start.2)
    | none =>
      if first.head?.any fun c => c == 35 || c == 47 || c == 58 then .error "block-form"
      else .ok (.text first :: v,none)
  | v => .ok (v,none)

/-- The end of a block, up to the braces after it. -/
def blockEnd (s : Units) : Except String Units :=
  match cut closeBraces s with
  | none => .error "unclosed-block"
  | some (name, rest) => if (name.drop 3).contains 123 then .error "dynamic-block-close" else .ok rest

/-- How many units belong to a text. -/
def textEnd (close : ℕ) : Units → ℕ
  | [] => 0
  | c :: s =>
    if openBraces.isPrefixOf (c :: s) || (close == 1 && closeBraces.isPrefixOf (c :: s)) then 0
    else textEnd close s + 1

section
variable (inner : ℕ → Units → Except String (List Node × Units))

/-- A call, with the body of a block. -/
def callAt (s : Units) : Except String (Node × Units) := do
  let (v, s) ← inner 1 s
  match ← openBlock v with
  | (v, none) => pure (.macroCall v,s)
  | (v, some kind) => do
    let (body, s) ← inner 2 s
    if kind < 2 && !lazyBodyAdmitted body then .error "lazy-body-domain"
    else pure (.block kind v body,s)

/-- The loop over a text; every round takes a unit at least. -/
def seqFrom (close : ℕ) : ℕ → List Node → Units → Except String (List Node × Units)
  | 0, _, _ => .error "unbalanced"
  | n + 1, out, s =>
    if s = [] then if 0 < close then .error "unbalanced" else .ok (out,[])
    else if close = 1 ∧ closeBraces.isPrefixOf s then .ok (out,s.drop 2)
    else if close = 2 ∧ [123,123,47].isPrefixOf s ∧ s[3]? ≠ some 47 then
      (blockEnd s).map fun rest => (out,rest)
    else if elseToken.isPrefixOf s then seqFrom close n (out ++ [.text elseToken]) (s.drop 9)
    else if openBraces.isPrefixOf s then do
      let (node, s) ← callAt inner (s.drop 2)
      seqFrom close n (out ++ [node]) s
    else
      let length := textEnd close (s.drop 1) + 1
      seqFrom close n (out ++ [.text (s.take length)]) (s.drop length)

end

/-- Nodes up to what closes them: nothing, the end of a call or that of a block. -/
def seqAt : ℕ → ℕ → Units → Except String (List Node × Units)
  | 0, _, _ => .error "depth-limit"
  | d + 1, close, s => seqFrom (seqAt d) close (s.length + 1) [] s

def compile (text : Units) : Except String (List Node) :=
  if 2097152 < text.length then .error "source-limit"
  else if isLegacy text then .error "legacy"
  else (seqAt 129 0 text).map Prod.fst

end RisuNest.Cbs
