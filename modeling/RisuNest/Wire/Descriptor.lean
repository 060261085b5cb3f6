import RisuNest.Wire.Stamp

/-! Record descriptors and reference pages (`descriptor.rs`). -/
namespace RisuNest.Wire

def pageFanout : ℕ := 1024
def maxTreeDepth : ℕ := 8
def maxDescriptorReferences : ℕ := 1000000
def maxKeyBytes : ℕ := 64*1024

/-- `hash`: the identity of a byte string. -/
def hash (cr : Crates) (bytes : List UInt8) : String := cr.sha256 bytes

/-- A record's object and what the object refers to. -/
structure RecordDescriptor where
  objectHash : String
  dependencyRoot : Option String
  relationRoot : Option String
  dependencies : List String
  relations : List String
  scopes : List String
  deriving DecidableEq, Repr

/-- A control page of a reference tree. -/
inductive ReferencePage
  | objects (hashes : List String)
  | relations (keys : List String)
  | branches (children : List String)
  deriving DecidableEq, Repr

/-- Whether no neighbouring pair is out of order: `!windows(2).any(|w| w[0] >= w[1])`. -/
def ascending : List String → Bool
  | a :: b :: rest => decide (a < b) && ascending (b :: rest)
  | _ => true

namespace ReferencePage

def values : ReferencePage → List String
  | .objects hashes => hashes
  | .relations keys => keys
  | .branches children => children

def toControl : ReferencePage → Control
  | .objects hashes => .obj [("hashes",Control.strings hashes),("kind",.str "objects")]
  | .relations keys => .obj [("keys",Control.strings keys),("kind",.str "relations")]
  | .branches children => .obj [("children",Control.strings children),("kind",.str "branches")]

def isBranches : ReferencePage → Bool
  | .branches _ => true
  | _ => false

def isRelations : ReferencePage → Bool
  | .relations _ => true
  | _ => false

/-- The test one value of a page has to pass. -/
def validateValue (page : ReferencePage) (value : String) : Result Unit :=
  if page.isRelations then
    if value = "" ∨ maxKeyBytes < (utf8 value.toList).length then .error ⟨"invalid-key"⟩
    else .ok ()
  else validateHash value

def validate (page : ReferencePage) : Result Unit := do
  if page.values = [] ∨ pageFanout < page.values.length then
    throw ⟨"invalid-reference-page"⟩
  if !page.isBranches && !ascending page.values then throw ⟨"unordered-references"⟩
  for value in page.values do page.validateValue value
  if maxMetadataBytes < page.toControl.encode.length then throw ⟨"metadata-too-large"⟩

end ReferencePage

def inlineReferences (values : List String) : Bool :=
  decide (values.length ≤ 64) && decide ((Control.strings values).encode.length ≤ 16*1024)

def validateScope (scope : String) : Result Unit :=
  if scope = "" ∨ 1024 < (utf8 scope.toList).length then .error ⟨"invalid-scope"⟩ else .ok ()

namespace RecordDescriptor

/-- A list held inline instead of in a tree of its own. -/
def validateInline (root : Option String) (values : List String)
    (page : List String → ReferencePage) : Result Unit :=
  if values = [] then .ok ()
  else if root.isSome || !inlineReferences values then .error ⟨"invalid-inline-references"⟩
  else (page values).validate

def validate (d : RecordDescriptor) : Result Unit := do
  validateHash d.objectHash
  for root in d.dependencyRoot.toList ++ d.relationRoot.toList do validateHash root
  validateInline d.dependencyRoot d.dependencies .objects
  validateInline d.relationRoot d.relations .relations
  if 16 < d.scopes.length || !ascending d.scopes then throw ⟨"invalid-scopes"⟩
  for scope in d.scopes do validateScope scope

def optional : Option String → Control
  | none => .null
  | some s => .str s

def toControl (d : RecordDescriptor) : Control :=
  .obj [("dependencies",Control.strings d.dependencies),
    ("dependencyRoot",optional d.dependencyRoot),("objectHash",.str d.objectHash),
    ("relationRoot",optional d.relationRoot),("relations",Control.strings d.relations),
    ("scopes",Control.strings d.scopes)]

def bytes (d : RecordDescriptor) : Result (List UInt8) := do
  d.validate
  pure d.toControl.encode

def hash (cr : Crates) (d : RecordDescriptor) : Result String := do
  pure (Wire.hash cr (← d.bytes))

end RecordDescriptor

theorem Control.strings_injective : Function.Injective Control.strings := by
  intro a b h
  have hm : a.map Control.str = b.map Control.str := by simpa [Control.strings] using h
  exact List.map_injective_iff.mpr (fun _ _ e => Control.str.inj e) hm

theorem RecordDescriptor.optional_injective : Function.Injective RecordDescriptor.optional := by
  intro a b h
  cases a <;> cases b <;> simp_all [RecordDescriptor.optional]

theorem RecordDescriptor.toControl_injective : Function.Injective RecordDescriptor.toControl := by
  rintro ⟨o, dr, rr, ds, rs, ss⟩ ⟨o', dr', rr', ds', rs', ss'⟩ h
  simp only [toControl, Control.obj.injEq, List.cons.injEq, Prod.mk.injEq, Control.str.injEq,
    true_and, and_true] at h
  obtain ⟨h1, h2, h3, h4, h5, h6⟩ := h
  rw [Control.strings_injective h1, optional_injective h2, h3, optional_injective h4,
    Control.strings_injective h5, Control.strings_injective h6]

/-- A text item of control JSON. -/
def Control.text? : Control → Option String
  | .str s => some s
  | _ => none

def Control.texts? : Control → Option (List String)
  | .arr vs => vs.mapM Control.text?
  | _ => none

/-- An `Option<String>` member. -/
def Control.optional? : Control → Option (Option String)
  | .null => some none
  | .str s => some (some s)
  | _ => none

def Control.member? (name : String) (ms : List (String × Control)) : Option Control :=
  (ms.find? fun m => m.1 = name).map Prod.snd

/-- The derived reader of a descriptor: an object without other members, in which an absent
root is none, or an array of the six fields in their declared order. -/
def RecordDescriptor.read : Control → Option RecordDescriptor
  | .obj ms => do
    if ms.all (fun m => m.1 ∈ ["objectHash","dependencyRoot","relationRoot","dependencies",
      "relations","scopes"]) then
      pure ⟨← (Control.member? "objectHash" ms).bind Control.text?,
        ← ((Control.member? "dependencyRoot" ms).getD .null).optional?,
        ← ((Control.member? "relationRoot" ms).getD .null).optional?,
        ← (Control.member? "dependencies" ms).bind Control.texts?,
        ← (Control.member? "relations" ms).bind Control.texts?,
        ← (Control.member? "scopes" ms).bind Control.texts?⟩
    else none
  | .arr [o,dr,rr,ds,rs,ss] => do
    pure ⟨← o.text?,← dr.optional?,← rr.optional?,← ds.texts?,← rs.texts?,← ss.texts?⟩
  | _ => none

/-- The page one tag and its values make. -/
def ReferencePage.tagged (kind : String) (values : List String) : Option ReferencePage :=
  if kind = "objects" then some (.objects values)
  else if kind = "relations" then some (.relations values)
  else if kind = "branches" then some (.branches values)
  else none

/-- The member that holds the values of a page of this kind. -/
def ReferencePage.memberName (kind : String) : String :=
  if kind = "objects" then "hashes" else if kind = "relations" then "keys" else "children"

/-- The derived reader of a page: an object of its tag and one list, or an array of the two. -/
def ReferencePage.read : Control → Option ReferencePage
  | .obj ms => do
    let kind ← (Control.member? "kind" ms).bind Control.text?
    if ms.all (fun m => m.1 = "kind" ∨ m.1 = memberName kind) then
      tagged kind (← (Control.member? (memberName kind) ms).bind Control.texts?)
    else none
  | .arr [kind,values] => do tagged (← kind.text?) (← values.texts?)
  | _ => none

end RisuNest.Wire
