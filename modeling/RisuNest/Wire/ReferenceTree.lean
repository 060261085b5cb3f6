import RisuNest.Wire.Unit

/-! Building the control pages of a reference tree (`build_reference_tree` of `descriptor.rs`). -/
namespace RisuNest.Wire

def hexDigit? (c : Char) : Option ℕ :=
  if c.isDigit then some (c.toNat - 48)
  else if 'a' ≤ c ∧ c ≤ 'f' then some (c.toNat - 87)
  else if 'A' ≤ c ∧ c ≤ 'F' then some (c.toNat - 55)
  else none

/-- `u8::from_str_radix` of two digits. -/
def hexByte? : List Char → Option ℕ
  | [a,b] => do pure (16 * (← hexDigit? a) + (← hexDigit? b))
  | _ => none

section
variable (cr : Crates)

/-- `reference_boundary`: the end of the digest decides, since a sorted list clusters at its
start. -/
def referenceBoundary (value : String) (relations : Bool) : Bool :=
  let digest := if relations then hash cr (utf8 value.toList) else value
  (hexByte? ((digest.toList.drop 62).take 2)).any fun byte => byte % 128 = 0

/-- A page, under its hash. -/
def publishPage (page : ReferencePage) : Result (String × List UInt8) := do
  page.validate
  pure (hash cr page.toControl.encode,page.toControl.encode)

def publishLeaf (values : List String) (relations : Bool) : Result (String × List UInt8) :=
  publishPage cr (if relations then .relations values else .objects values)

/-- The leaves so far, and the values of the leaf that is filled, with their bytes. -/
structure LeafState where
  leaves : List (String × List UInt8)
  current : List String
  used : ℕ

/-- Whether a leaf is full before a value that takes some bytes. -/
def leafFull (s : LeafState) (value : String) (relations : Bool) (bytes : ℕ) : Bool :=
  s.current ≠ [] && (s.current.length = pageFanout || maxMetadataBytes - 128 < s.used + bytes ||
    (64 ≤ s.current.length && referenceBoundary cr value relations))

/-- One value of `build_reference_tree`. -/
def addReference (relations : Bool) (s : LeafState) (value : String) : Result LeafState := do
  let bytes := (Control.str value).encode.length + 1
  if leafFull cr s value relations bytes then
    let leaf ← publishLeaf cr s.current relations
    pure ⟨s.leaves ++ [leaf],[value],bytes⟩
  else pure ⟨s.leaves,s.current ++ [value],s.used + bytes⟩

/-- One child of a level of branches, with the groups so far and the group that is filled. -/
def addChild (s : List (List String) × List String) (child : String) :
    List (List String) × List String :=
  if s.2 ≠ [] && (s.2.length = pageFanout ||
      (64 ≤ s.2.length && referenceBoundary cr child false)) then (s.1 ++ [s.2],[child])
  else (s.1,s.2 ++ [child])

def branchGroups (leaves : List String) : List (List String) :=
  let s := leaves.foldl (addChild cr) ([],[])
  if s.2 = [] then s.1 else s.1 ++ [s.2]

/-- The loop over the levels of branches: the last page, and the pages of all levels. -/
def buildLevels : ℕ → List String → Result (Option String × List (String × List UInt8))
  | levels, leaves =>
    if leaves.length ≤ 1 then .ok (leaves.getLast?,[])
    else match levels with
      | 0 => .error ⟨"reference-tree-too-deep"⟩
      | levels+1 => do
        let pages ← (branchGroups cr leaves).mapM fun children =>
          publishPage cr (.branches children)
        let built ← buildLevels levels (pages.map Prod.fst)
        pure (built.1,pages ++ built.2)

/-- The leaves of `build_reference_tree`. -/
def buildLeaves (values : List String) (relations : Bool) : Result (List (String × List UInt8)) :=
  do
  let s ← values.foldlM (addReference cr relations) ⟨[],[],0⟩
  if s.current = [] then pure s.leaves
  else
    let leaf ← publishLeaf cr s.current relations
    pure (s.leaves ++ [leaf])

def buildReferenceTree (values : List String) (relations : Bool) :
    Result (Option String × List (String × List UInt8)) := do
  if maxDescriptorReferences < values.length || !ascending values then
    throw ⟨"invalid-reference-list"⟩
  let leaves ← buildLeaves cr values relations
  let built ← buildLevels cr (maxTreeDepth - 1) (leaves.map Prod.fst)
  pure (built.1,leaves ++ built.2)

end
end RisuNest.Wire
