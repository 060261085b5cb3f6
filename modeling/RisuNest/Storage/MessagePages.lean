import RisuNest.Lib.Fallible
import RisuNest.Wire.Stamp

/-! Pages of a message list, cut by the hashes of the messages, and their update after an edit
(`message_pages.rs`). -/
namespace RisuNest.Storage
open Wire (Crates utf8 isHexLower)

structure LogicalRecordError where
  message : String
  deriving DecidableEq, Repr

def invalid (message : String) : LogicalRecordError := ⟨message⟩

abbrev Result := Except LogicalRecordError

def javascriptMaxSafeInteger : ℕ := 9007199254740991

def validateSafeInteger (value : ℕ) (description : String) : Result Unit :=
  require (value ≤ javascriptMaxSafeInteger)
    (invalid (description ++ " exceeds the JavaScript safe integer limit"))

def isHash (value : String) : Bool :=
  value.toList.length = 64 && value.toList.all isHexLower

def validateHash (value description : String) : Result Unit :=
  require (isHash value = true) (invalid (description ++ " must be a lowercase SHA-256"))

def maxPageBytes : ℕ := 256*1024
def minPageMessages : ℕ := 16
def logicalMessagePageSize : ℕ := 128
def manifestSchema : String := "risunest.message-manifest/v1"

def pagePrefix : List UInt8 :=
  utf8 "\x7b\"schema\":\"risunest.logical-message-page/v1\",\"messages\":[".toList

def pageSuffix : List UInt8 := utf8 "]\x7d".toList

structure MessageHash where
  hash : String
  byteLength : ℕ
  deriving DecidableEq, Repr

/-- The value of lower-case hexadecimal digits. -/
def hexValue (digits : List Char) : ℕ :=
  digits.foldl (fun n c => 16*n + (if c.isDigit then c.toNat - 48 else c.toNat - 87)) 0

namespace MessageHash

def fromBytes (cr : Crates) (bytes : List UInt8) : MessageHash := ⟨cr.sha256 bytes,bytes.length⟩

/-- Whether the first 16 bits of the hash end in five zeros. -/
def ends (m : MessageHash) : Bool := hexValue (m.hash.toList.take 4) &&& 31 = 0

def boundary (m : MessageHash) : Result Bool := do
  validateHash m.hash "message hash"
  pure m.ends

end MessageHash

structure ManifestPage where
  hash : String
  messageCount : ℕ
  byteLength : ℕ
  deriving DecidableEq, Repr

structure MessageManifest where
  schema : String
  messageCount : ℕ
  pages : List ManifestPage

namespace MessageManifest

/-- The checks on one page. -/
def pageInvalid (page : ManifestPage) : Bool :=
  page.messageCount = 0 || logicalMessagePageSize < page.messageCount ||
    page.byteLength < pagePrefix.length + pageSuffix.length ||
    (maxPageBytes < page.byteLength && page.messageCount ≠ 1)

/-- The loop of `MessageManifest::validate`. -/
def countMessages (count : ℕ) : List ManifestPage → Result ℕ
  | [] => .ok count
  | page :: pages => do
    validateHash page.hash "message page hash"
    require (pageInvalid page = false) (invalid "invalid message manifest page")
    require (count + page.messageCount < 2^64) (invalid "message count overflow")
    countMessages (count + page.messageCount) pages

def validate (m : MessageManifest) : Result Unit := do
  require (m.schema = manifestSchema) (invalid "unsupported message manifest schema")
  let count ← countMessages 0 m.pages
  require (count = m.messageCount) (invalid "message manifest count mismatch")

end MessageManifest

structure PageBoundary where
  start : ℕ
  page : ManifestPage
  deriving DecidableEq, Repr

structure PageIndex where
  messages : List MessageHash
  pages : List PageBoundary
  deriving DecidableEq, Repr

namespace PageIndex

/-- `PageIndex::default` -/
def empty : PageIndex := ⟨[],[]⟩

def manifest (index : PageIndex) : MessageManifest :=
  ⟨manifestSchema,index.messages.length,index.pages.map PageBoundary.page⟩

/-- Whether every page starts where the one before it ends. -/
def contiguous (start : ℕ) : List PageBoundary → Bool
  | [] => true
  | b :: pages => b.start = start && contiguous (start + b.page.messageCount) pages

/-- The check of every message in `validate`. -/
def validateMessages : List MessageHash → Result Unit
  | [] => .ok ()
  | m :: ms => do
    let _ ← m.boundary
    validateMessages ms

def validate (index : PageIndex) : Result Unit := do
  index.manifest.validate
  require (contiguous 0 index.pages = true) (invalid "noncontiguous message page index")
  validateMessages index.messages

/-- The pages from the one that starts at a position on, as `binary_search_by_key` finds them:
starts ascend, so at most one page matches. -/
def pagesFrom (index : PageIndex) (start : ℕ) : Option (List PageBoundary) :=
  match index.pages.dropWhile fun b => b.start ≠ start with
  | [] => none
  | pages => some pages

end PageIndex

structure EncodedLogicalObject where
  hash : String
  size : ℕ
  bytes : List UInt8
  deriving DecidableEq

def encodedObject (cr : Crates) (bytes : List UInt8) : Result EncodedLogicalObject := do
  validateSafeInteger bytes.length "logical object size"
  pure ⟨cr.sha256 bytes,bytes.length,bytes⟩

structure Repaged where
  index : PageIndex
  objects : List EncodedLogicalObject
  deriving DecidableEq

/-- Whether a message ends a page that has enough messages. -/
def endsPage (count : ℕ) (m : MessageHash) : Result Bool :=
  if minPageMessages ≤ count then m.boundary else .ok false

/-- The condition that ends a page after a message: `count` messages and `size` bytes are in it,
and `rest` follows. -/
def cutAfter (count size : ℕ) (m : MessageHash) (rest : List MessageHash) : Result Bool :=
  if count = logicalMessagePageSize then .ok true
  else do
    let boundary ← endsPage count m
    pure (boundary || maxPageBytes < size + pageSuffix.length ||
      match rest with
      | [] => true
      | next :: _ => maxPageBytes < size + 1 + next.byteLength + pageSuffix.length)

section
variable {ε : Type} (cr : Crates) (into : LogicalRecordError → ε)

/-- The inner loop of `repage`: messages from a position on are added to a page until a cut. -/
def fillPage (read : ℕ → Except ε (List UInt8)) (start position : ℕ) (bytes : List UInt8) :
    List MessageHash → Except ε (ℕ × List UInt8)
  | [] => .ok (position,bytes)
  | m :: rest => do
    let body ← read position
    require (MessageHash.fromBytes cr body = m) (into (invalid "message body hash mismatch"))
    let bytes := (if start < position then bytes ++ utf8 [','] else bytes) ++ body
    let cut ← (cutAfter (position + 1 - start) bytes.length m rest).mapError into
    if cut then pure (position + 1,bytes) else fillPage read start (position + 1) bytes rest

/-- The pages of the previous index that follow a position behind the replaced range, moved to
where they start now. -/
def reusable (previous : PageIndex) (replacedEnd replacementEnd position : ℕ) :
    Option (List PageBoundary) :=
  if replacementEnd ≤ position then
    (previous.pagesFrom (replacedEnd + (position - replacementEnd))).map fun pages =>
      pages.map fun b => { b with start := replacementEnd + (b.start - replacedEnd) }
  else none

/-- The outer loop of `repage`. Every round adds a message at least, so as many rounds as
messages are enough. -/
def rebuild (previous : PageIndex) (messages : List MessageHash)
    (replacedEnd replacementEnd : ℕ) (read : ℕ → Except ε (List UInt8)) :
    ℕ → ℕ → Except ε (List PageBoundary × List EncodedLogicalObject)
  | 0, _ => .ok ([],[])
  | rounds+1, position =>
    if messages.length ≤ position then .ok ([],[])
    else match reusable previous replacedEnd replacementEnd position with
      | some pages => .ok (pages,[])
      | none => do
        let (next,bytes) ←
          fillPage cr into read position position pagePrefix (messages.drop position)
        let object ← (encodedObject cr (bytes ++ pageSuffix)).mapError into
        let (pages,objects) ← rebuild previous messages replacedEnd replacementEnd read rounds next
        pure (⟨position,⟨object.hash,next - position,object.size⟩⟩ :: pages,object :: objects)

/-- The number of pages before the last one that starts before the replaced range. -/
def keptPages (previous : PageIndex) (replacedStart : ℕ) : ℕ :=
  (previous.pages.takeWhile fun b => b.start < replacedStart).length - 1

def repage (previous : PageIndex) (messages : List MessageHash)
    (replacedStart replacedEnd replacementEnd : ℕ) (read : ℕ → Except ε (List UInt8)) :
    Except ε Repaged := do
  previous.validate.mapError into
  require (replacedStart ≤ replacedEnd ∧ replacedEnd ≤ previous.messages.length ∧
      replacedStart ≤ replacementEnd ∧ replacementEnd ≤ messages.length ∧
      previous.messages.take replacedStart = messages.take replacedStart ∧
      previous.messages.drop replacedEnd = messages.drop replacementEnd)
    (into (invalid "message page affected range does not match unchanged regions"))
  let kept := keptPages previous replacedStart
  let position := ((previous.pages.drop kept).head?.map PageBoundary.start).getD 0
  let (pages,objects) ←
    rebuild cr into previous messages replacedEnd replacementEnd read messages.length position
  let index : PageIndex := ⟨messages,previous.pages.take kept ++ pages⟩
  index.validate.mapError into
  pure ⟨index,objects⟩

end
end RisuNest.Storage
