import Mathlib.Data.List.DropRight
import Mathlib.Data.Nat.Notation

/-! Texts of scripts as UTF-16 code units, and what is done with them (`cbs.rs`). -/
namespace RisuNest.Cbs

abbrev Units := List UInt16

/-- The UTF-16 code units of a character. -/
def unitsOf (c : Char) : Units :=
  if c.toNat < 0x10000 then [.ofNat c.toNat]
  else [.ofNat (0xd800 + (c.toNat - 0x10000)/0x400),.ofNat (0xdc00 + (c.toNat - 0x10000)%0x400)]

def units (s : String) : Units := s.toList.flatMap unitsOf

/-- Texts that decide what is done have to be ASCII. -/
def ascii (s : Units) : Except String String :=
  if s.any (127 < ·) then .error "non-ascii-dispatch"
  else .ok (String.ofList (s.map fun c => Char.ofNat c.toNat))

def ws (c : UInt16) : Bool :=
  (9 ≤ c && c ≤ 13) || c == 32 || c == 160 || c == 5760 || (8192 ≤ c && c ≤ 8202) || c == 8232 ||
    c == 8233 || c == 8239 || c == 8287 || c == 12288 || c == 65279

def trim (s : Units) : Units := (s.dropWhile ws).rdropWhile ws

section
variable {α : Type} [DecidableEq α]

/-- The parts between separators that do not overlap, the first found counting. The rest of a
separator that was found is skipped, and `part` is what is read since, backwards. -/
def splitFrom (sep : List α) : ℕ → List α → List α → List (List α)
  | _, part, [] => [part.reverse]
  | skip + 1, part, _ :: s => splitFrom sep skip part s
  | 0, part, c :: s =>
    if sep.isPrefixOf (c :: s) then part.reverse :: splitFrom sep (sep.length - 1) [] s
    else splitFrom sep 0 (c :: part) s

def split (s sep : List α) : List (List α) :=
  if sep = [] then s.map fun c => [c] else splitFrom sep 0 [] s

def join (parts : List (List α)) (sep : List α) : List α := sep.intercalate parts

def replaceLiteral (s old new : List α) : List α := join (split s old) new

/-- `windows(n).any(|w| w == part)` -/
def holds (s part : List α) : Bool := s.tails.any fun rest => part.isPrefixOf rest

end

def truth (s : Units) : Bool := s == units "1" || s == units "true"

example : split (units "a::b:::c") (units "::") = [units "a",units "b",units ":c"] := by decide

end RisuNest.Cbs
