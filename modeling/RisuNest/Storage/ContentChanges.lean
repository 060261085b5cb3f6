import RisuNest.Lib.Table
import RisuNest.Storage.StoreError
import Mathlib.Data.List.Sort
import Mathlib.Data.Prod.Lex
import Mathlib.Data.String.Basic
import Mathlib.Algebra.Order.Ring.Int

/-! The content change index (`content_change_index.rs`, `content_locators.rs`): one row for each
locator, with the last revision that changed it, read by consumers at their own cursors. -/
namespace RisuNest.Storage

/-! ### Locators -/

structure ContentKey where
  kind : String
  key1 : String
  key2 : String
  deriving DecidableEq

namespace ContentKey

def tuple (k : ContentKey) : String ×ₗ String ×ₗ String := toLex (k.kind,toLex (k.key1,k.key2))

lemma tuple_injective : Function.Injective tuple := by
  rintro ⟨kind,key1,key2⟩ ⟨kind',key1',key2'⟩ h
  cases h
  rfl

/-- `ORDER BY kind,key1,key2` -/
instance : LinearOrder ContentKey := LinearOrder.lift' tuple tuple_injective

end ContentKey

/-- A tracking expression: a text, or a column of the row. -/
inductive LocatorPart
  | text (value : String)
  | column (name : String)
  deriving DecidableEq

structure TrackedTable where
  table : String
  kind : LocatorPart
  key1 : LocatorPart
  key2 : LocatorPart
  deriving DecidableEq

def trackedTables : List TrackedTable :=
  [⟨"root",.text "root",.text "",.text ""⟩,
    ⟨"bot_presets",.text "preset",.column "preset_id",.text ""⟩,
    ⟨"characters",.text "character",.column "character_id",.text ""⟩,
    ⟨"conversations",.text "conversation",.column "character_id",.column "conversation_id"⟩,
    ⟨"messages",.text "conversation",.column "character_id",.column "conversation_id"⟩,
    ⟨"plugin_storage",.text "plugin",.column "owner",.column "storage_key"⟩,
    ⟨"asset_aliases",.column "kind",.column "logical_key",.text ""⟩,
    ⟨"asset_owner_heads",.text "owner",.column "owner_kind",.column "owner_locator"⟩]

/-- A row of a tracked table. -/
structure ContentRow where
  generation : String
  column : String → String

def LocatorPart.of (row : ContentRow) : LocatorPart → String
  | .text value => value
  | .column name => row.column name

def TrackedTable.locator (t : TrackedTable) (row : ContentRow) : ContentKey :=
  ⟨t.kind.of row,t.key1.of row,t.key2.of row⟩

inductive RowEvent
  | insert (new : ContentRow)
  | update (old new : ContentRow)
  | delete (old : ContentRow)

/-- The rows a trigger may read. -/
def RowEvent.rows : RowEvent → List ContentRow
  | .insert new => [new]
  | .update old new => [old,new]
  | .delete old => [old]

/-- The row in a trigger's expressions: `OLD` of a deletion, `NEW` of the others. -/
def RowEvent.row : RowEvent → ContentRow
  | .insert new => new
  | .update _ new => new
  | .delete old => old

/-- A change of a row. No statement sets a column that locates a row: a move is a deletion and an
insertion. The schema checks the kind of an alias. -/
structure RowChange where
  table : TrackedTable
  event : RowEvent
  tracked : table ∈ trackedTables
  located : ∀ row ∈ event.rows, row.generation = event.row.generation ∧
    table.locator row = table.locator event.row
  checked : table.table = "asset_aliases" → event.row.column "kind" ∈ ["asset","inlay"]

/-- The locators of the rows a change touches, in a generation. -/
def RowChange.touches (c : RowChange) (generation : String) (key : ContentKey) : Prop :=
  ∃ row ∈ c.event.rows, row.generation = generation ∧ c.table.locator row = key

/-! ### The database -/

structure ChangeContext where
  generation : String
  revision : ℤ
  origin : String

structure ContentConsumer where
  generation : String
  revision : ℤ
  rebuildRequired : Bool
  deriving DecidableEq

structure ChangeFloor where
  generation : String
  revision : ℤ
  deriving DecidableEq

structure ContentDb where
  /-- `activeGeneration` -/
  generation : String
  /-- `currentRevision` -/
  revision : ℤ
  context : Option ChangeContext
  changes : Table (String × ContentKey) ℤ
  consumers : Table String ContentConsumer
  floor : ChangeFloor

inductive ChangeWindow
  | rebuild
  | incremental (afterRevision : ℤ)
  deriving DecidableEq

namespace ContentDb

/-- A new store. -/
def create : ContentDb := ⟨"revision-0",0,none,.empty,.empty,⟨"revision-0",0⟩⟩

def invalidChange (message : String) : StoreError := .validation message

/-- The triggers of `trigger_sql`, on one changed row. -/
def fire (db : ContentDb) (c : RowChange) : ContentDb :=
  match db.context with
  | none => db
  | some context =>
    if context.generation = c.event.row.generation then
      { db with
        changes := db.changes.upsert (context.generation,c.table.locator c.event.row)
          context.revision }
    else db

def beginMutation (db : ContentDb) (generation : String) (revision : ℤ) (origin : String) :
    StoreResult ContentDb := do
  require (db.context.isNone = true ∧ 0 ≤ revision ∧ origin ∈ ["local","server","external"])
    (.store "constraint failed")
  pure { db with context := some ⟨generation,revision,origin⟩ }

def finishMutation (db : ContentDb) : ContentDb := { db with context := none }

def setActive (db : ContentDb) (revision : ℤ) (generation : String) : ContentDb :=
  { db with
    revision := revision
    generation := generation }

def fullReplacement (db : ContentDb) (generation : String) (revision : ℤ) :
    StoreResult ContentDb := do
  require (0 ≤ revision) (.store "constraint failed")
  pure { db with
    changes := .empty
    consumers := db.consumers.mapValues fun _ c => { c with rebuildRequired := true }
    floor := ⟨generation,revision⟩ }

def window (db : ContentDb) (consumer : String) : ChangeWindow :=
  match db.consumers.get consumer with
  | some ⟨g,r,false⟩ =>
    if g = db.generation ∧ db.floor.generation = db.generation ∧ db.floor.revision ≤ r ∧
        r ≤ db.revision then
      .incremental r
    else .rebuild
  | _ => .rebuild

/-- The key that stands for the start of a listing. -/
def noKey : ContentKey := ⟨"","",""⟩

/-- The locators a page chooses from, in order. -/
def changedKeys (db : ContentDb) (afterRevision : ℤ) : List ContentKey :=
  ((db.changes.rows.filter fun e => decide (e.1.1 = db.generation ∧ afterRevision < e.2 ∧
    e.2 ≤ db.revision)).map fun e => e.1.2).insertionSort (· ≤ ·)

def page (db : ContentDb) (afterRevision : ℤ) (afterKey : Option ContentKey) (limit : ℕ) :
    StoreResult (List ContentKey) := do
  require (limit ≠ 0 ∧ limit ≤ 1024 ∧ 0 ≤ afterRevision)
    (invalidChange "Invalid content change page")
  require (db.floor.generation = db.generation ∧ db.floor.revision ≤ afterRevision ∧
    afterRevision ≤ db.revision) (invalidChange "Content index rebuild required")
  pure (((db.changedKeys afterRevision).filter fun k => decide (afterKey.getD noKey < k)).take limit)

def commitCursor (db : ContentDb) (consumer generation : String) (revision : ℤ) :
    StoreResult ContentDb := do
  require (consumer ≠ "" ∧ 0 ≤ revision ∧ generation = db.generation ∧ revision ≤ db.revision)
    (invalidChange "Invalid content cursor identity")
  require (db.floor.revision ≤ revision) (invalidChange "Content index rebuild required")
  require (∀ old ∈ db.consumers.get consumer, old.generation = generation →
    old.rebuildRequired = false → old.revision ≤ revision)
    (invalidChange "Content cursor cannot move backwards")
  pure { db with consumers := db.consumers.upsert consumer ⟨generation,revision,false⟩ }

def requireRebuild (db : ContentDb) (consumer : String) : ContentDb :=
  { db with
    consumers := db.consumers.mapValues fun id c =>
      if id = consumer then { c with rebuildRequired := true } else c }

/-- The candidates for the new floor: the current revision and the cursors that are kept. -/
def cutoffs (db : ContentDb) : List ℤ :=
  (db.consumers.rows.filter fun e => decide (e.2.generation = db.generation ∧
    e.2.rebuildRequired = false)).map fun e => e.2.revision

/-- `prune`. The consumers behind the floor already need a rebuild. -/
def prune (db : ContentDb) : StoreResult (ℤ × ContentDb) := do
  require (db.floor.generation = db.generation ∧ db.floor.revision ≤ db.revision)
    (invalidChange "Content index floor is inconsistent")
  let marked := { db with
    consumers := db.consumers.mapValues fun _ c =>
      if c.generation = db.generation ∧ c.revision < db.floor.revision
        then { c with rebuildRequired := true } else c }
  let cutoff := marked.cutoffs.foldl min db.revision
  require (db.floor.revision ≤ cutoff ∧ cutoff ≤ db.revision)
    (invalidChange "Content index prune boundary is inconsistent")
  pure (cutoff,{ marked with
    changes := db.changes.deleteWhere fun k r => decide (k.1 = db.generation ∧ r ≤ cutoff)
    floor := ⟨db.floor.generation,cutoff⟩ })

def workingSetConsumer : String := "ui-working-set"

def removeConnectionConsumer (db : ContentDb) (connection : String) : StoreResult ContentDb := do
  require (connection ≠ "" ∧ connection ≠ workingSetConsumer)
    (invalidChange "Invalid content consumer connection")
  let pruned ← ContentDb.prune { db with consumers := db.consumers.erase connection }
  pure pruned.2

def commitWorkingSetChangeCursor (db : ContentDb) (revision : ℤ) : StoreResult ContentDb := do
  let db ← db.commitCursor workingSetConsumer db.generation revision
  let pruned ← db.prune
  pure pruned.2

/-- A mutation of the active generation, from its beginning to its commit. -/
def mutate (db : ContentDb) (revision : ℤ) (origin : String) (rows : List RowChange) :
    StoreResult ContentDb := do
  let begun ← db.beginMutation db.generation revision origin
  pure ((rows.foldl fire begun).finishMutation.setActive revision db.generation)

/-- A staged generation takes the place of the active one. -/
def replace (db : ContentDb) (generation : String) (revision : ℤ) : StoreResult ContentDb := do
  let replaced ← db.fullReplacement generation revision
  pure (replaced.setActive revision generation)

end ContentDb
end RisuNest.Storage
