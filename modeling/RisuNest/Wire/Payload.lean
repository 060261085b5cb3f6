import RisuNest.Wire.Canonical
import Mathlib.Data.List.Lex
import Mathlib.Data.List.Sort
import Mathlib.Data.Rat.Defs

/-! JavaScript JSON payloads (`payload_value.rs`) and the third-party code the protocol calls. -/
namespace RisuNest.Wire

/-- A JSON text as `serde_json` reads it: members in the order of the text, repeated names
included. A finite number is the rational its `f64` denotes; both zeros are 0, as `write`
prints them. -/
inductive Json
  | null
  | bool (b : Bool)
  | num (n : ℚ)
  | str (s : String)
  | arr (values : List Json)
  | obj (members : List (String × Json))
  deriving Repr

/-- The third-party functions the protocol is built on. -/
structure Crates where
  /-- `hex::encode(Sha256::digest(bytes))` -/
  sha256 : List UInt8 → String
  /-- `URL_SAFE_NO_PAD.encode` -/
  base64Encode : List UInt8 → String
  /-- `URL_SAFE_NO_PAD.decode` -/
  base64Decode : String → Option (List UInt8)
  /-- The reader of `serde_json::from_slice`. -/
  readJson : List UInt8 → Option Json
  /-- `ryu_js::Buffer::format` -/
  formatNumber : ℚ → String

/-- Third-party functions on the texts that occur in a small run: hashes, payloads with their
base64, and JSON texts with their values. -/
def tabulated (hashes : List (List UInt8 × String)) (payloads : List (String × String))
    (jsons : List (String × Json)) : Crates where
  sha256 := fun b => ((hashes.find? fun e => e.1 = b).map Prod.snd).getD ""
  base64Encode := fun b => ((payloads.find? fun e => utf8 e.1.toList = b).map Prod.snd).getD ""
  base64Decode := fun t => (payloads.find? fun e => e.2 = t).map fun e => utf8 e.1.toList
  readJson := fun b => (jsons.find? fun e => utf8 e.1.toList = b).map Prod.snd
  formatNumber := fun n => toString n.num

/-- A protocol error, named by its code. -/
structure WireError where
  code : String
  deriving DecidableEq, Repr

abbrev Result := Except WireError

def maxMetadataBytes : ℕ := 1024*1024

mutual
/-- Whether no object repeats a member name, which the strict readers insist on. -/
def Json.distinct : Json → Bool
  | .arr vs => Json.distinctItems vs
  | .obj ms => decide ((ms.map Prod.fst).Nodup) && Json.distinctMembers ms
  | _ => true

def Json.distinctItems : List Json → Bool
  | [] => true
  | v :: vs => v.distinct && Json.distinctItems vs

def Json.distinctMembers : List (String × Json) → Bool
  | [] => true
  | (_,v) :: ms => v.distinct && Json.distinctMembers ms
end

/-- `Value::get` of a name. -/
def Json.get? (name : String) : Json → Option Json
  | .obj ms => (ms.find? fun m => m.1 = name).map Prod.snd
  | _ => none

def Json.asNumber : Json → Option ℚ
  | .num n => some n
  | _ => none

namespace Payload

def parse (cr : Crates) (bytes : List UInt8) : Result Json :=
  match cr.readJson bytes with
  | some v => if v.distinct then .ok v else .error ⟨"invalid-payload-json"⟩
  | none => .error ⟨"invalid-payload-json"⟩

/-- `array_index`: the names JavaScript orders as numbers. -/
def arrayIndex (key : String) : Option ℕ :=
  if key.toList.all Char.isDigit then
    some (Nat.ofDigitChars 10 key.toList 0) |>.filter fun v =>
      decide (v < 4294967295) && decide (toString v = key)
  else none

/-- The UTF-16 code units of a character. -/
def utf16Units (c : Char) : List ℕ :=
  if c.toNat < 65536 then [c.toNat]
  else [55296 + (c.toNat-65536)/1024,56320 + (c.toNat-65536)%1024]

def encodeUtf16 (s : String) : List ℕ := s.toList.flatMap utf16Units

/-- `key_order`: the first name is not after the second. -/
def keyLe (a b : String) : Bool :=
  match arrayIndex a, arrayIndex b with
  | some i, some j => decide (i ≤ j)
  | some _, none => true
  | none, some _ => false
  | none, none => decide (encodeUtf16 a ≤ encodeUtf16 b)

mutual
/-- The value with the members of every object in the order `write` gives them. -/
def sortMembers : Json → Json
  | .arr vs => .arr (sortItems vs)
  | .obj ms => .obj ((sortEach ms).insertionSort fun a b => keyLe a.1 b.1)
  | v => v

def sortItems : List Json → List Json
  | [] => []
  | v :: vs => sortMembers v :: sortItems vs

def sortEach : List (String × Json) → List (String × Json)
  | [] => []
  | (k,v) :: ms => (k,sortMembers v) :: sortEach ms
end

mutual
/-- Whether no array or object opens at depth 127 or below. -/
def shallow (depth : ℕ) : Json → Bool
  | .arr vs => decide (depth < 127) && shallowItems (depth+1) vs
  | .obj ms => decide (depth < 127) && shallowMembers (depth+1) ms
  | _ => true

def shallowItems (depth : ℕ) : List Json → Bool
  | [] => true
  | v :: vs => shallow depth v && shallowItems depth vs

def shallowMembers (depth : ℕ) : List (String × Json) → Bool
  | [] => true
  | (_,v) :: ms => shallow depth v && shallowMembers depth ms
end

mutual
/-- `write` of a value whose members are in order. -/
def write (cr : Crates) : Json → List Char
  | .null => ['n','u','l','l']
  | .bool true => ['t','r','u','e']
  | .bool false => ['f','a','l','s','e']
  | .num n => (cr.formatNumber n).toList
  | .str s => writeString s
  | .arr [] => ['[',']']
  | .arr (v :: vs) => '[' :: (write cr v ++ writeItems cr vs)
  | .obj [] => ['{','}']
  | .obj ((k,v) :: ms) => '{' :: (writeString k ++ ':' :: (write cr v ++ writeMembers cr ms))

def writeItems (cr : Crates) : List Json → List Char
  | [] => [']']
  | v :: vs => ',' :: (write cr v ++ writeItems cr vs)

def writeMembers (cr : Crates) : List (String × Json) → List Char
  | [] => ['}']
  | (k,v) :: ms => ',' :: (writeString k ++ ':' :: (write cr v ++ writeMembers cr ms))
end

def encode (cr : Crates) (v : Json) : Result (List UInt8) :=
  if shallow 0 v then .ok (utf8 (write cr (sortMembers v)))
  else .error ⟨"invalid-payload-json"⟩

def canonicalize (cr : Crates) (bytes : List UInt8) : Result (List UInt8) := do
  encode cr (← parse cr bytes)

end Payload

mutual
/-- The number-free reading of a JSON text, `canonical::Strict`. -/
def Json.strict : Json → Option Control
  | .null => some .null
  | .bool b => some (.bool b)
  | .num _ => none
  | .str s => some (.str s)
  | .arr vs => (Json.strictItems vs).map .arr
  | .obj ms => if (ms.map Prod.fst).Nodup then (Json.strictMembers ms).map .obj else none

def Json.strictItems : List Json → Option (List Control)
  | [] => some []
  | v :: vs => do pure ((← v.strict) :: (← Json.strictItems vs))

def Json.strictMembers : List (String × Json) → Option (List (String × Control))
  | [] => some []
  | (k,v) :: ms => do pure ((k,← v.strict) :: (← Json.strictMembers ms))
end

/-- `canonical::decode` into a type read from control JSON by `read`. -/
def decodeControl {α : Type} (cr : Crates) (read : Control → Option α) (bytes : List UInt8)
    (limit : ℕ) : Result α :=
  if limit < bytes.length then .error ⟨"metadata-too-large"⟩
  else match (cr.readJson bytes).bind Json.strict with
    | none => .error ⟨"invalid-control-json"⟩
    | some v =>
      match read v with
      | none => .error ⟨"invalid-control-schema"⟩
      | some a => .ok a

end RisuNest.Wire
