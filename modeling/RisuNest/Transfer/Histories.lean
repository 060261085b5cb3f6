import RisuNest.Transfer.Tables
import Mathlib.Data.Finset.Card

/-! The history of an upload: a chunk or a recipe that it has had is the one it has while it is
unfinished, and no other takes its place. -/
namespace RisuNest.Transfer
open Wire Server Db

namespace System
variable {cr : Crates} {s : System}

lemma ne_complete {u : Upload} (h : Db.unfinished u = true) : u.state ≠ .complete := by
  intro hcomplete
  unfold Db.unfinished at h
  rw [hcomplete] at h
  cases h

lemma rowsKept_reopened {db db' : Db} (h : RowsKept db db') : RowsKept db db'.reopened := by
  intro k c hk u' hu' hstate
  rw [get_reopened] at hu'
  obtain ⟨u, hu, rfl⟩ := Option.map_eq_some_iff.mp hu'
  refine h k c hk u hu fun hcomplete => hstate ?_
  dsimp only
  rw [if_neg (by rw [hcomplete]; decide), hcomplete]

theorem Reachable.chunksKept (h : Reachable cr Orderly s) : ChunksKept cr s.disk := by
  have hclear : Reachable cr Clear s := by
    induction h with
    | create => exact .create
    | step _ he ih => exact ih.step he.clear
  exact hclear.chunksSound.kept

theorem Reachable.rowsKept (h : Reachable cr Orderly s) {e : Event} (he : Orderly s e) :
    RowsKept s.disk.db (s.exec cr e).disk.db := by
  have halong : ∀ op, ClearOp s op → Along Disk.apply (ChunkStep cr s) s.disk
      (s.outcome cr op).writes :=
    fun op hop => chunks_along h.chunksKept h.honest (outcome_cases s op) hop
  cases e with
  | perform op => exact (halong op he.clear).finish.2
  | crash op k => exact rowsKept_reopened (halong op he.clear k).2

lemma Reachable.unfinished (h : Reachable cr Orderly s) {e : Event} {id : String} {u u' : Upload}
    (hu : s.disk.db.uploads.get id = some u)
    (hu' : (s.exec cr e).disk.db.uploads.get id = some u') (hlive : Db.unfinished u' = true) :
    Db.unfinished u = true := by
  rcases (h.kept e).unfinished id u' hu' hlive with hnone | ⟨w, hw, hlive⟩
  · rw [hu] at hnone
    cases hnone
  · obtain rfl := Option.some.inj (hu.symm.trans hw)
    exact hlive

/-- What present uploads have had. -/
structure Histories (s : System) : Prop where
  chunkUploads : ∀ k c, (k,c) ∈ s.chunksSeen → ∃ u, s.disk.db.uploads.get k.1 = some u
  recipeUploads : ∀ id b, (id,b) ∈ s.recipesSeen → ∃ u, s.disk.db.uploads.get id = some u
  chunkRows : ∀ k c u, s.disk.db.uploadChunks.get k = some c → s.disk.db.uploads.get k.1 = some u →
    (k,c) ∈ s.chunksSeen
  recipeRows : ∀ id b u, s.disk.db.uploadDeltas.get id = some b →
    s.disk.db.uploads.get id = some u → (id,b) ∈ s.recipesSeen
  chunks : ∀ k c u, (k,c) ∈ s.chunksSeen → s.disk.db.uploads.get k.1 = some u →
    Db.unfinished u = true → s.disk.db.uploadChunks.get k = some c
  recipes : ∀ id b u, (id,b) ∈ s.recipesSeen → s.disk.db.uploads.get id = some u →
    Db.unfinished u = true → s.disk.db.uploadDeltas.get id = some b
  oneChunk : ∀ k c c', (k,c) ∈ s.chunksSeen → (k,c') ∈ s.chunksSeen → c = c'
  oneRecipe : ∀ id b b', (id,b) ∈ s.recipesSeen → (id,b') ∈ s.recipesSeen → b = b'

lemma chunksSeen_exec (s : System) (e : Event) (k : String × ℕ) (c : Chunk) :
    (k,c) ∈ (s.exec cr e).chunksSeen ↔ ((k,c) ∈ s.chunksSeen ∨
      (s.exec cr e).disk.db.uploadChunks.get k = some c) ∧
      ∃ u, (s.exec cr e).disk.db.uploads.get k.1 = some u := by
  have hmem : ∀ d call ack, (k,c) ∈ (s.remember d call ack).chunksSeen ↔ ((k,c) ∈ s.chunksSeen ∨
      d.db.uploadChunks.get k = some c) ∧ ∃ u, d.db.uploads.get k.1 = some u := by
    intro d call ack
    unfold remember
    rw [List.mem_filter, List.mem_append, Table.get_eq_some, Table.contains_iff]
  cases e with
  | perform op => exact hmem _ none []
  | crash op n => exact hmem _ none []

lemma recipesSeen_exec (s : System) (e : Event) (id : String) (b : Bytes) :
    (id,b) ∈ (s.exec cr e).recipesSeen ↔ ((id,b) ∈ s.recipesSeen ∨
      (s.exec cr e).disk.db.uploadDeltas.get id = some b) ∧
      ∃ u, (s.exec cr e).disk.db.uploads.get id = some u := by
  have hmem : ∀ d call ack, (id,b) ∈ (s.remember d call ack).recipesSeen ↔ ((id,b) ∈ s.recipesSeen ∨
      d.db.uploadDeltas.get id = some b) ∧ ∃ u, d.db.uploads.get id = some u := by
    intro d call ack
    unfold remember
    rw [List.mem_filter, List.mem_append, Table.get_eq_some, Table.contains_iff]
  cases e with
  | perform op => exact hmem _ none []
  | crash op n => exact hmem _ none []

theorem Histories.exec (hs : Histories s) (h : Reachable cr Orderly s) {e : Event}
    (he : Orderly s e) : Histories (s.exec cr e) := by
  have hkept := h.kept e
  have hrows := h.rowsKept he
  have hchunks : ∀ k c u, (k,c) ∈ (s.exec cr e).chunksSeen →
      (s.exec cr e).disk.db.uploads.get k.1 = some u → Db.unfinished u = true →
      (s.exec cr e).disk.db.uploadChunks.get k = some c := by
    intro k c u' hk hu' hlive
    obtain ⟨hold | hnew, -⟩ := (chunksSeen_exec s e k c).mp hk
    · obtain ⟨u, hu⟩ := hs.chunkUploads k c hold
      exact hrows k c (hs.chunks k c u hold hu (h.unfinished hu hu' hlive)) u' hu' (ne_complete hlive)
    · exact hnew
  have hrecipes : ∀ id b u, (id,b) ∈ (s.exec cr e).recipesSeen →
      (s.exec cr e).disk.db.uploads.get id = some u → Db.unfinished u = true →
      (s.exec cr e).disk.db.uploadDeltas.get id = some b := by
    intro id b u' hb hu' hlive
    obtain ⟨hold | hnew, -⟩ := (recipesSeen_exec s e id b).mp hb
    · obtain ⟨u, hu⟩ := hs.recipeUploads id b hold
      have hlive := h.unfinished hu hu' hlive
      rcases hkept.recipes id b u' (hs.recipes id b u hold hu hlive) hu' with ⟨w, hw, hcomplete⟩ | hb
      · obtain rfl := Option.some.inj (hu.symm.trans hw)
        exact absurd hcomplete (ne_complete hlive)
      · exact hb
    · exact hnew
  refine ⟨fun k c hk => ((chunksSeen_exec s e k c).mp hk).2,
    fun id b hb => ((recipesSeen_exec s e id b).mp hb).2,
    fun k c u hk hu => (chunksSeen_exec s e k c).mpr ⟨.inr hk,u,hu⟩,
    fun id b u hb hu => (recipesSeen_exec s e id b).mpr ⟨.inr hb,u,hu⟩,hchunks,hrecipes,?_,?_⟩
  · -- a chunk that is stored now was not had before
    have hcross : ∀ k c c', (k,c) ∈ s.chunksSeen →
        (s.exec cr e).disk.db.uploadChunks.get k = some c' → c = c' := by
      intro k c c' hold hnew
      obtain ⟨u, hu⟩ := hs.chunkUploads k c hold
      rcases hkept.chunks k c' hnew with hrow | ⟨hnone, -, w, hw, hstate⟩
      · exact hs.oneChunk k c c' hold (hs.chunkRows k c' u hrow hu)
      · have hrow := hs.chunks k c w hold hw (by unfold Db.unfinished; rw [hstate]; rfl)
        rw [hnone] at hrow
        cases hrow
    intro k c c' hk hk'
    obtain ⟨hk | hk, -⟩ := (chunksSeen_exec s e k c).mp hk <;>
      obtain ⟨hk' | hk', -⟩ := (chunksSeen_exec s e k c').mp hk'
    · exact hs.oneChunk k c c' hk hk'
    · exact hcross k c c' hk hk'
    · exact (hcross k c' c hk' hk).symm
    · exact Option.some.inj (hk.symm.trans hk')
  · have hcross : ∀ id b b', (id,b) ∈ s.recipesSeen →
        (s.exec cr e).disk.db.uploadDeltas.get id = some b' → b = b' := by
      intro id b b' hold hnew
      obtain ⟨u, hu⟩ := hs.recipeUploads id b hold
      rcases hkept.attached id b' hnew with hrow | ⟨hnone, -, w, hw, hstate⟩
      · exact hs.oneRecipe id b b' hold (hs.recipeRows id b' u hrow hu)
      · have hrow := hs.recipes id b w hold hw (by unfold Db.unfinished; rw [hstate]; rfl)
        rw [hnone] at hrow
        cases hrow
    intro id b b' hb hb'
    obtain ⟨hb | hb, -⟩ := (recipesSeen_exec s e id b).mp hb <;>
      obtain ⟨hb' | hb', -⟩ := (recipesSeen_exec s e id b').mp hb'
    · exact hs.oneRecipe id b b' hb hb'
    · exact hcross id b b' hb hb'
    · exact (hcross id b' b hb' hb).symm
    · exact Option.some.inj (hb.symm.trans hb')

theorem Reachable.histories (h : Reachable cr Orderly s) : Histories s := by
  induction h with
  | create => constructor <;> intros <;> contradiction
  | step h he ih => exact ih.exec h he

end System

/-! ### All chunks of an upload -/

lemma lt_divCeil {i size : ℕ} : i < divCeil size uploadChunkBytes ↔ i*uploadChunkBytes < size := by
  unfold divCeil uploadChunkBytes
  omega

namespace Db

/-- The ordinals of the chunks that an upload has. -/
def ordinals (db : Db) (id : String) : List ℕ :=
  (db.uploadChunks.rows.filter fun r => decide (r.1.1 = id)).map fun r => r.1.2

lemma mem_ordinals {db : Db} {id : String} {i : ℕ} :
    i ∈ db.ordinals id ↔ ∃ c, db.uploadChunks.get (id,i) = some c := by
  unfold ordinals
  rw [List.mem_map]
  constructor
  · rintro ⟨⟨⟨id', i'⟩, c⟩, hmem, rfl⟩
    obtain ⟨hrow, hid⟩ := List.mem_filter.mp hmem
    obtain rfl := of_decide_eq_true hid
    exact ⟨c,Table.get_eq_some.mpr hrow⟩
  · rintro ⟨c, hc⟩
    exact ⟨((id,i),c),List.mem_filter.mpr ⟨Table.get_eq_some.mp hc,decide_eq_true rfl⟩,rfl⟩

lemma nodup_ordinals (db : Db) (id : String) : (db.ordinals id).Nodup := by
  have hkeys : ((db.uploadChunks.rows.filter fun r => decide (r.1.1 = id)).map Prod.fst).Nodup :=
    db.uploadChunks.nodup.sublist (List.filter_sublist.map _)
  have hord : db.ordinals id = ((db.uploadChunks.rows.filter fun r =>
      decide (r.1.1 = id)).map Prod.fst).map Prod.snd := (List.map_map ..).symm
  rw [hord]
  refine hkeys.map_on fun k hk k' hk' heq => ?_
  obtain ⟨r, hr, rfl⟩ := List.mem_map.mp hk
  obtain ⟨r', hr', rfl⟩ := List.mem_map.mp hk'
  have hid := of_decide_eq_true (List.mem_filter.mp hr).2
  have hid' := of_decide_eq_true (List.mem_filter.mp hr').2
  exact Prod.ext (hid.trans hid'.symm) heq

/-- An upload has as many chunks as it has room for just when it has each of them. -/
theorem chunkCount_eq_iff {db : Db} {id : String} {n : ℕ}
    (h : ∀ i c, db.uploadChunks.get (id,i) = some c → i < n) :
    db.chunkCount id = n ↔ ∀ i < n, ∃ c, db.uploadChunks.get (id,i) = some c := by
  have hcount : db.chunkCount id = (db.ordinals id).toFinset.card := by
    rw [List.toFinset_card_of_nodup (nodup_ordinals db id)]
    exact (List.length_map _).symm
  have hsub : (db.ordinals id).toFinset ⊆ Finset.range n := by
    intro i hi
    obtain ⟨c, hc⟩ := mem_ordinals.mp (List.mem_toFinset.mp hi)
    exact Finset.mem_range.mpr (h i c hc)
  rw [hcount]
  constructor
  · intro hn i hi
    have heq := Finset.eq_of_subset_of_card_le hsub (by rw [Finset.card_range, hn])
    have hmem : i ∈ (db.ordinals id).toFinset := by
      rw [heq]
      exact Finset.mem_range.mpr hi
    exact mem_ordinals.mp (List.mem_toFinset.mp hmem)
  · intro hall
    have heq : (db.ordinals id).toFinset = Finset.range n := by
      refine hsub.antisymm fun i hi => List.mem_toFinset.mpr ?_
      exact mem_ordinals.mpr (hall i (Finset.mem_range.mp hi))
    rw [heq, Finset.card_range]

end Db

namespace System
variable {cr : Crates} {s : System}

lemma descends_exec (hh : Honest cr s) (e : Event) :
    Descends s.issued s.disk.db (s.exec cr e).disk.db := by
  cases e with
  | perform op => exact (filed_along hh.filed (@outcome_cases cr s op)).finish.2
  | crash op k =>
    intro id hid u'' hu''
    obtain ⟨u', hu', a, b, c, d⟩ := (frame_reopened _).uploads id u'' hu''
    obtain ⟨u, hu, a', b', c', d'⟩ := (filed_along hh.filed (@outcome_cases cr s op) k).2 id hid u' hu'
    exact ⟨u,hu,a.trans a',b.trans b',c.trans c',d.trans d'⟩

/-- Chunks lie within their upload, those that are there and those that are on their way. -/
structure Placed (s : System) : Prop where
  calls : ∀ n device id index digest bytes,
    s.calls.get n = some (.chunk device id index digest bytes) → id ∈ s.issued ∧
      ∀ u, s.disk.db.uploads.get id = some u → index*uploadChunkBytes < u.size
  rows : ∀ k c, s.disk.db.uploadChunks.get k = some c → k.1 ∈ s.issued ∧
    ∀ u, s.disk.db.uploads.get k.1 = some u → k.2*uploadChunkBytes < u.size

lemma chunk_of_cases {op : Op} {o : Outcome} (h : Cases cr s op o) {n : ℕ} {device : Device}
    {id : String} {index : ℕ} {digest : String} {bytes : Bytes} (hop : op.call = some n)
    (hcall : o.call = some (.chunk device id index digest bytes)) :
    s.calls.get n = some (.chunk device id index digest bytes) ∨
      ∃ u, s.disk.db.uploads.get id = some u ∧ index*uploadChunkBytes < u.size := by
  cases h with
  | idle _ _ hc => exact .inl ((hc n hop).symm.trans hcall)
  | ended | device | begin | stored | attached | submitted | settled | cancelled | publishedSome |
    storing | pinned | maintained | drained => cases hcall
  | finishes | taken | started | read | unread | failed | unpublished | offered => cases hcall
  | completed | refused | published | rolledBack => cases returned_call hcall
  | sent _ h =>
    cases hcall
    exact .inr (checkChunk_eq_ok h).2
  | sifted _ _ _ hk =>
    cases hcall
    cases hk

theorem Placed.exec (hs : Placed s) (h : Reachable cr Orderly s) (e : Event) :
    Placed (s.exec cr e) := by
  have hstay : ∀ id i, id ∈ s.issued ∧ (∀ u, s.disk.db.uploads.get id = some u →
      i*uploadChunkBytes < u.size) → id ∈ (s.exec cr e).issued ∧
      ∀ u, (s.exec cr e).disk.db.uploads.get id = some u → i*uploadChunkBytes < u.size := by
    rintro id i ⟨hid, hi⟩
    refine ⟨issued_exec s e id hid,fun u' hu' => ?_⟩
    obtain ⟨u, hu, -, hsize, -⟩ := descends_exec h.honest e id hid u' hu'
    rw [hsize]
    exact hi u hu
  refine ⟨?_,fun k c hk => hstay k.1 k.2 ?_⟩
  · cases e with
    | crash op k => exact fun n device id index digest bytes hc => by cases hc
    | perform op =>
      intro n device id index digest bytes hc
      refine hstay id index ?_
      rcases get_nextCalls hc with hc | ⟨hop, hcall⟩
      · exact hs.calls n _ _ _ _ _ hc
      rcases chunk_of_cases (@outcome_cases cr s op) hop hcall with hc | ⟨u, hu, hlt⟩
      · exact hs.calls n _ _ _ _ _ hc
      · refine ⟨h.honest.filed.issued id u hu,fun w hw => ?_⟩
        obtain rfl := Option.some.inj (hu.symm.trans hw)
        exact hlt
  · rcases (h.kept e).chunks k c hk with hrow | ⟨-, ⟨n, device, digest, bytes, hc⟩, -⟩
    · exact hs.rows k c hrow
    · exact hs.calls n _ _ _ _ _ hc

theorem Reachable.placed (h : Reachable cr Orderly s) : Placed s := by
  induction h with
  | create => constructor <;> intros <;> contradiction
  | step h _ ih => exact ih.exec h _

lemma Placed.count (hs : Placed s) {id : String} {u : Upload}
    (hu : s.disk.db.uploads.get id = some u) :
    s.disk.db.chunkCount id = divCeil u.size uploadChunkBytes ↔
      ∀ i < divCeil u.size uploadChunkBytes, ∃ c, s.disk.db.uploadChunks.get (id,i) = some c :=
  chunkCount_eq_iff fun i c hc => lt_divCeil.mpr ((hs.rows (id,i) c hc).2 u hu)

/-- An unfinished upload with a job has a recipe or all of its chunks. -/
def Whole (s : System) : Prop :=
  ∀ id u, s.disk.db.uploads.get id = some u → Db.unfinished u = true →
    s.disk.db.uploadJobs.contains id = true → s.disk.db.uploadDeltas.get id = none →
    s.disk.db.chunkCount id = divCeil u.size uploadChunkBytes

theorem Reachable.whole (h : Reachable cr Orderly s) : Whole s := by
  induction h with
  | create => exact fun id u hu => by cases hu
  | @step s e h he ih =>
    intro id u' hu' hlive hjob hdelta
    have hkept := h.kept e
    -- what was there before the operation, and all of its chunks
    have hbefore : ∃ u, s.disk.db.uploads.get id = some u ∧
        s.disk.db.chunkCount id = divCeil u.size uploadChunkBytes := by
      rcases hkept.queued id hjob with hold | hnew | hcount
      · obtain ⟨job, hj⟩ := Table.contains_iff.mp hold
        have hphase := (h.sound id).job
          (fun hnone => Option.some_ne_none _ ((congrArg (Option.map Job.terminal) hj).symm.trans hnone))
        obtain ⟨u, hu⟩ := Option.ne_none_iff_exists'.mp
          (fun hnone => hphase (congrArg (Option.map Upload.state) hnone))
        have hold' := h.unfinished hu hu' hlive
        refine ⟨u,hu,ih id u hu hold' hold ?_⟩
        cases hd : s.disk.db.uploadDeltas.get id with
        | none => rfl
        | some b =>
          rcases hkept.recipes id b u' hd hu' with ⟨w, hw, hcomplete⟩ | hb
          · obtain rfl := Option.some.inj (hu.symm.trans hw)
            exact absurd hcomplete (ne_complete hold')
          · rw [hdelta] at hb
            cases hb
      · obtain ⟨b, hb⟩ := Table.contains_iff.mp hnew
        rw [hdelta] at hb
        cases hb
      · exact hcount
    obtain ⟨u, hu, hcount⟩ := hbefore
    obtain ⟨w, hw, -, hsize, -⟩ :=
      descends_exec h.honest e id (h.honest.filed.issued id u hu) u' hu'
    obtain rfl := Option.some.inj (hu.symm.trans hw)
    refine ((h.step he).placed.count hu').mpr fun i hi => ?_
    obtain ⟨c, hc⟩ := (h.placed.count hu).mp hcount i (hsize ▸ hi)
    exact ⟨c,h.rowsKept he (id,i) c hc u' hu' (ne_complete hlive)⟩

end System
end RisuNest.Transfer
