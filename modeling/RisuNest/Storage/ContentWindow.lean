import RisuNest.Storage.ContentChanges

/-! What the consumers of the content change index read: a window that answers with a cursor lists
every row that was changed behind it. -/
namespace RisuNest.Storage
namespace ContentDb

/-! ### Pages of a listing -/

/-- A consumer follows the pages of a listing until one is empty. Each page has its own limit. -/
def follow (db : ContentDb) (afterRevision : ℤ) :
    Option ContentKey → List ℕ → StoreResult (List ContentKey × Bool)
  | _, [] => .ok ([],false)
  | afterKey, limit :: limits => do
    let keys ← db.page afterRevision afterKey limit
    if keys = [] then pure ([],true)
    else do
      let rest ← follow db afterRevision keys.getLast? limits
      pure (keys ++ rest.1,rest.2)

section
variable {α : Type} [LinearOrder α]

lemma filter_lt_of_sorted {l m : List α} {b : α} (h : (l ++ b :: m).Pairwise (· < ·)) :
    (l ++ b :: m).filter (fun k => decide (b < k)) = m := by
  obtain ⟨-, hm, hlm⟩ := List.pairwise_append.mp h
  rw [List.filter_append, List.filter_cons_of_neg (by simp)]
  have hl : l.filter (fun k => decide (b < k)) = [] := by
    apply List.filter_eq_nil_iff.mpr
    intro k hk
    simpa using (hlm k hk b List.mem_cons_self).le
  have hr : m.filter (fun k => decide (b < k)) = m := by
    apply List.filter_eq_self.mpr
    intro k hk
    simpa using List.rel_of_pairwise_cons hm hk
  rw [hl, hr, List.nil_append]

lemma filter_getLast {keys rest page : List α} {n : ℕ} (hs : keys.Pairwise (· < ·))
    (hr : rest <:+ keys) (hp : rest.take n = page) (hne : page ≠ []) :
    keys.filter (fun k => decide (page.getLast hne < k)) = rest.drop n := by
  obtain ⟨before, rfl⟩ := hr
  have hsplit : before ++ rest = (before ++ page.dropLast) ++ page.getLast hne :: rest.drop n := by
    rw [List.append_assoc, ← List.singleton_append, ← List.append_assoc page.dropLast,
      List.dropLast_append_getLast, ← hp, List.take_append_drop]
  rw [hsplit] at hs ⊢
  exact filter_lt_of_sorted hs

end

/-- The keys of an index are told apart within a generation, and each of them has a kind. -/
def Keyed (db : ContentDb) : Prop := ∀ k r, db.changes.get k = some r → k.2.kind ≠ ""

lemma mem_changedKeys {db : ContentDb} {after : ℤ} {key : ContentKey} :
    key ∈ db.changedKeys after ↔
      ∃ r, db.changes.get (db.generation,key) = some r ∧ after < r ∧ r ≤ db.revision := by
  unfold changedKeys
  rw [List.mem_insertionSort, List.mem_map]
  constructor
  · rintro ⟨⟨⟨g,k⟩,r⟩, he, rfl⟩
    obtain ⟨hm, hd⟩ := List.mem_filter.mp he
    obtain ⟨rfl, hafter, hle⟩ := of_decide_eq_true hd
    exact ⟨r,Table.get_eq_some.mpr hm,hafter,hle⟩
  · rintro ⟨r, hget, hafter, hle⟩
    exact ⟨((db.generation,key),r),List.mem_filter.mpr ⟨Table.get_eq_some.mp hget,by simp [hafter, hle]⟩,
      rfl⟩

lemma nodup_changedKeys (db : ContentDb) (after : ℤ) : (db.changedKeys after).Nodup := by
  unfold changedKeys
  rw [(List.perm_insertionSort _ _).nodup_iff]
  generalize hp : (fun e : (String × ContentKey) × ℤ =>
    decide (e.1.1 = db.generation ∧ after < e.2 ∧ e.2 ≤ db.revision)) = p
  have hkeys : ((db.changes.rows.filter p).map Prod.fst).Nodup :=
    db.changes.nodup.sublist (List.filter_sublist.map Prod.fst)
  have hsnd : (db.changes.rows.filter p).map (fun e => e.1.2) =
      ((db.changes.rows.filter p).map Prod.fst).map Prod.snd := by rw [List.map_map]; rfl
  rw [hsnd]
  refine hkeys.map_on ?_
  -- the generation is the same, so the keys differ
  have hgeneration : ∀ k ∈ (db.changes.rows.filter p).map Prod.fst, k.1 = db.generation := by
    intro k hk
    obtain ⟨e, he, rfl⟩ := List.mem_map.mp hk
    have hd := (List.mem_filter.mp he).2
    rw [← hp] at hd
    exact (of_decide_eq_true hd).1
  intro a ha b hb hab
  exact Prod.ext ((hgeneration a ha).trans (hgeneration b hb).symm) hab

lemma sorted_changedKeys (db : ContentDb) (after : ℤ) :
    (db.changedKeys after).Pairwise (· < ·) := by
  have hle : (db.changedKeys after).Pairwise (· ≤ ·) := List.pairwise_insertionSort _ _
  exact (hle.and (db.nodup_changedKeys after)).imp fun h => lt_of_le_of_ne h.1 h.2

lemma noKey_lt {k : ContentKey} (h : k.kind ≠ "") : noKey < k := by
  change noKey.tuple < k.tuple
  rw [ContentKey.tuple, ContentKey.tuple, Prod.Lex.toLex_lt_toLex]
  left
  change "" < k.kind
  rw [String.lt_iff_toList_lt]
  cases hl : k.kind.toList with
  | nil => exact absurd (String.toList_eq_nil_iff.mp hl) h
  | cons c cs => exact List.nil_lt_cons c cs

/-- The pages of a window list all of its keys, whatever the limits are. -/
theorem follow_eq_ok {db : ContentDb} {after : ℤ}
    (hwindow : db.floor.generation = db.generation ∧ db.floor.revision ≤ after ∧
      after ≤ db.revision) (hafter : 0 ≤ after) {limits : List ℕ}
    (hlimits : ∀ limit ∈ limits, limit ≠ 0 ∧ limit ≤ 1024) {rest : List ContentKey}
    {afterKey : Option ContentKey} (hrest : rest <:+ db.changedKeys after)
    (hkey : (db.changedKeys after).filter (fun k => decide (afterKey.getD noKey < k)) = rest) :
    ∃ keys ended, db.follow after afterKey limits = .ok (keys,ended) ∧ (ended = true → keys = rest) ∧
      (rest.length < limits.length → ended = true) := by
  induction limits generalizing rest afterKey with
  | nil => exact ⟨[],false,rfl,by simp,by simp⟩
  | cons limit limits ih =>
    obtain ⟨hlimit, hlimits⟩ := List.forall_mem_cons.mp hlimits
    have hpage : db.page after afterKey limit = .ok (rest.take limit) := by
      unfold page
      refine bind_eq_ok.mpr ⟨(),require_eq_ok.mpr ⟨hlimit.1,hlimit.2,hafter⟩,?_⟩
      refine bind_eq_ok.mpr ⟨(),require_eq_ok.mpr hwindow,?_⟩
      rw [hkey]
      rfl
    rw [follow]
    by_cases hne : rest.take limit = []
    · have hnil : rest = [] := (List.take_eq_nil_iff.mp hne).resolve_left hlimit.1
      refine ⟨[],true,bind_eq_ok.mpr ⟨_,hpage,?_⟩,fun _ => hnil.symm,fun _ => rfl⟩
      rw [if_pos hne]
      rfl
    · have hlast : (rest.take limit).getLast? = some ((rest.take limit).getLast hne) :=
        List.getLast?_eq_some_getLast hne
      have hdrop := filter_getLast (db.sorted_changedKeys after) hrest rfl hne
      obtain ⟨keys, ended, hfollow, hall, hend⟩ := @ih hlimits (rest.drop limit)
        (rest.take limit).getLast? ((List.drop_suffix limit rest).trans hrest)
        (by rw [hlast]; exact hdrop)
      refine ⟨rest.take limit ++ keys,ended,bind_eq_ok.mpr ⟨_,hpage,?_⟩,fun he => ?_,fun hlen => ?_⟩
      · rw [if_neg hne]
        exact bind_eq_ok.mpr ⟨_,hfollow,rfl⟩
      · rw [hall he, List.take_append_drop]
      · apply hend
        rw [List.length_drop]
        rw [List.length_cons] at hlen
        have hpos : 0 < rest.length := by
          apply List.length_pos_iff.mpr
          rintro rfl
          exact hne List.take_nil
        have := hlimit.1
        omega

/-! ### One operation -/

/-- What the index keeps of the mutations of a store, newest revision last. -/
structure Tracks (db : ContentDb) (history : List (ℤ × List RowChange)) : Prop where
  closed : db.context = none
  floor_generation : db.floor.generation = db.generation
  floor_nonneg : 0 ≤ db.floor.revision
  floor_le : db.floor.revision ≤ db.revision
  past : ∀ e ∈ history, e.1 ≤ db.revision
  rows : ∀ k r, db.changes.get k = some r → r ≤ db.revision ∧ k.2.kind ≠ ""
  kept : ∀ e ∈ history, db.floor.revision < e.1 → ∀ c ∈ e.2, ∀ key,
    c.touches db.generation key → ∃ r, db.changes.get (db.generation,key) = some r ∧ e.1 ≤ r
  consumers : ∀ id c, db.consumers.get id = some c → c.rebuildRequired = false →
    c.generation = db.generation ∧ db.floor.revision ≤ c.revision

lemma tracks_create : Tracks create [] where
  closed := rfl
  floor_generation := rfl
  floor_nonneg := le_rfl
  floor_le := le_rfl
  past := by simp
  rows := fun k r h => by cases h
  kept := by simp
  consumers := fun id c h => by cases h

lemma window_eq_incremental {db : ContentDb} {consumer : String} {r : ℤ}
    (h : db.window consumer = .incremental r) : db.floor.generation = db.generation ∧
      db.floor.revision ≤ r ∧ r ≤ db.revision := by
  unfold window at h
  split at h
  · split_ifs at h with hw
    cases h
    exact hw.2
  · cases h

/-- The pages of a window list every row that was changed behind its cursor. -/
theorem Tracks.follow {db : ContentDb} {history : List (ℤ × List RowChange)}
    (ht : Tracks db history) {consumer : String} {after : ℤ}
    (hw : db.window consumer = .incremental after) {limits : List ℕ}
    (hlimits : ∀ limit ∈ limits, limit ≠ 0 ∧ limit ≤ 1024) :
    ∃ keys ended, db.follow after none limits = .ok (keys,ended) ∧
      ((db.changedKeys after).length < limits.length → ended = true) ∧
      (ended = true → ∀ e ∈ history, after < e.1 → ∀ c ∈ e.2, ∀ key,
        c.touches db.generation key → key ∈ keys) := by
  have hwindow := window_eq_incremental hw
  have hall : (db.changedKeys after).filter (fun k => decide ((none : Option ContentKey).getD noKey < k)) =
      db.changedKeys after := by
    apply List.filter_eq_self.mpr
    intro k hk
    obtain ⟨r, hget, -⟩ := mem_changedKeys.mp hk
    exact decide_eq_true (noKey_lt (ht.rows _ _ hget).2)
  obtain ⟨keys, ended, hfollow, hkeys, hend⟩ := follow_eq_ok hwindow
    (ht.floor_nonneg.trans hwindow.2.1) hlimits List.suffix_rfl hall
  refine ⟨keys,ended,hfollow,hend,fun he e hmem hafter c hc key htouch => ?_⟩
  obtain ⟨r, hget, hle⟩ := ht.kept e hmem (hwindow.2.1.trans_lt hafter) c hc key htouch
  rw [hkeys he, mem_changedKeys]
  exact ⟨r,hget,hafter.trans_le hle,(ht.rows _ _ hget).1⟩

/-! #### A mutation -/

lemma kinds_of_trackedTables : ∀ t ∈ trackedTables,
    (t.table = "asset_aliases" ∧ t.kind = .column "kind") ∨
      t.kind ∈ ["root","preset","character","conversation","plugin","owner"].map .text := by
  decide

lemma kind_ne_nil (c : RowChange) : (c.table.locator c.event.row).kind ≠ "" := by
  intro he
  change c.table.kind.of c.event.row = "" at he
  rcases kinds_of_trackedTables _ c.tracked with ⟨halias, hkind⟩ | hkind
  · have hchecked := c.checked halias
    rw [hkind] at he
    change c.event.row.column "kind" = "" at he
    rw [he] at hchecked
    revert hchecked
    decide
  · obtain ⟨kind, hmem, hkind⟩ := List.mem_map.mp hkind
    rw [← hkind] at he
    change kind = "" at he
    rw [he] at hmem
    revert hmem
    decide

lemma fire_frame (db : ContentDb) (c : RowChange) :
    ∃ changes, db.fire c = { db with changes := changes } := by
  unfold fire
  split
  · exact ⟨db.changes,rfl⟩
  · split_ifs
    · exact ⟨_,rfl⟩
    · exact ⟨db.changes,rfl⟩

lemma foldl_fire_frame (db : ContentDb) (rows : List RowChange) :
    ∃ changes, rows.foldl fire db = { db with changes := changes } := by
  induction rows generalizing db with
  | nil => exact ⟨db.changes,rfl⟩
  | cons c rows ih =>
    obtain ⟨changes, hc⟩ := db.fire_frame c
    rw [List.foldl_cons, hc]
    exact ih { db with changes := changes }

lemma get_foldl_fire {db : ContentDb} {context : ChangeContext} (hc : db.context = some context)
    (rows : List RowChange) (k : String × ContentKey) : (rows.foldl fire db).changes.get k =
      if ∃ c ∈ rows, c.event.row.generation = context.generation ∧
          (context.generation,c.table.locator c.event.row) = k then some context.revision
      else db.changes.get k := by
  induction rows generalizing db with
  | nil => simp
  | cons c rows ih =>
    obtain ⟨changes, hfire⟩ := db.fire_frame c
    have hcontext : (db.fire c).context = some context := by rw [hfire]; exact hc
    rw [List.foldl_cons, ih hcontext]
    have hget : (db.fire c).changes.get k =
        if c.event.row.generation = context.generation ∧
          (context.generation,c.table.locator c.event.row) = k then some context.revision
        else db.changes.get k := by
      unfold fire
      rw [hc]
      dsimp only
      by_cases hg : context.generation = c.event.row.generation
      · rw [if_pos hg, Table.get_upsert]
        simp only [hg, true_and, eq_comm]
      · rw [if_neg hg, if_neg fun h => hg h.1.symm]
    rw [hget]
    simp only [List.exists_mem_cons_iff]
    by_cases hrest : ∃ c ∈ rows, c.event.row.generation = context.generation ∧
        (context.generation,c.table.locator c.event.row) = k
    · rw [if_pos hrest, if_pos (.inr hrest)]
    · simp only [hrest, if_false, or_false]

theorem Tracks.mutate {db db' : ContentDb} {history : List (ℤ × List RowChange)}
    (ht : Tracks db history) {revision : ℤ} {origin : String} {rows : List RowChange}
    (hrev : db.revision < revision) (h : db.mutate revision origin rows = .ok db') :
    Tracks db' (history ++ [(revision,rows)]) ∧ db'.revision = revision ∧
      db'.consumers = db.consumers := by
  unfold ContentDb.mutate beginMutation at h
  obtain ⟨begun, hbegin, h⟩ := bind_eq_ok.mp h
  obtain ⟨_, -, hbegun⟩ := bind_eq_ok.mp hbegin
  obtain rfl := Except.ok.inj hbegun
  have hget := fun k => @get_foldl_fire
    { db with context := some ⟨db.generation,revision,origin⟩ } _ rfl rows k
  obtain ⟨changes, hframe⟩ := foldl_fire_frame
    { db with context := some ⟨db.generation,revision,origin⟩ } rows
  rw [hframe] at hget
  rw [hframe] at h
  obtain rfl := Except.ok.inj h
  refine ⟨⟨rfl,ht.floor_generation,ht.floor_nonneg,ht.floor_le.trans hrev.le,?_,?_,?_,
    ht.consumers⟩,rfl,rfl⟩
  · intro e he
    rcases List.mem_append.mp he with he | he
    · exact (ht.past e he).trans hrev.le
    · rw [List.mem_singleton.mp he]
      exact le_rfl
  · intro k r hk
    have hk' := (hget k).symm.trans hk
    split_ifs at hk' with hc
    · obtain ⟨c, -, -, rfl⟩ := hc
      exact ⟨(Option.some.inj hk').ge,kind_ne_nil c⟩
    · exact ⟨(ht.rows k r hk').1.trans hrev.le,(ht.rows k r hk').2⟩
  · intro e he hfloor c hc key htouch
    rcases List.mem_append.mp he with he | he
    · obtain ⟨r, hr, hle⟩ := ht.kept e he hfloor c hc key htouch
      by_cases hnew : ∃ c ∈ rows, c.event.row.generation = db.generation ∧
          (db.generation,c.table.locator c.event.row) = (db.generation,key)
      · exact ⟨revision,(hget (db.generation,key)).trans (if_pos hnew),(ht.past e he).trans hrev.le⟩
      · exact ⟨r,(hget (db.generation,key)).trans ((if_neg hnew).trans hr),hle⟩
    · obtain rfl := List.mem_singleton.mp he
      obtain ⟨row, hrow, hgeneration, hkey⟩ := htouch
      obtain ⟨hg, hl⟩ := c.located row hrow
      refine ⟨revision,(hget (db.generation,key)).trans (if_pos ⟨c,hc,?_,?_⟩),le_rfl⟩
      · exact hg.symm.trans hgeneration
      · rw [← hl, hkey]

/-! #### The other operations -/

theorem Tracks.replace {db db' : ContentDb} {history : List (ℤ × List RowChange)}
    (ht : Tracks db history) {generation : String} {revision : ℤ} (hrev : db.revision < revision)
    (h : db.replace generation revision = .ok db') :
    Tracks db' history ∧ db'.revision = revision ∧
      db'.consumers = db.consumers.mapValues fun _ c => { c with rebuildRequired := true } := by
  unfold ContentDb.replace fullReplacement at h
  obtain ⟨replaced, hreplaced, h⟩ := bind_eq_ok.mp h
  obtain ⟨_, hnonneg, hreplaced⟩ := bind_eq_ok.mp hreplaced
  obtain rfl := Except.ok.inj hreplaced
  obtain rfl := Except.ok.inj h
  refine ⟨⟨ht.closed,rfl,require_eq_ok.mp hnonneg,le_rfl,fun e he => (ht.past e he).trans hrev.le,
    (fun k r hk => by cases hk),?_,?_⟩,rfl,rfl⟩
  · intro e he hfloor
    exact absurd ((ht.past e he).trans hrev.le) (not_le.mpr hfloor)
  · intro id c hc hrebuild
    have hc' := (Table.get_mapValues db.consumers (fun _ c => { c with rebuildRequired := true })
      id).symm.trans hc
    obtain ⟨c', -, rfl⟩ := Option.map_eq_some_iff.mp hc'
    cases hrebuild

theorem Tracks.commitCursor {db db' : ContentDb} {history : List (ℤ × List RowChange)}
    (ht : Tracks db history) {consumer generation : String} {revision : ℤ}
    (h : db.commitCursor consumer generation revision = .ok db') : Tracks db' history ∧
      db' = { db with consumers := db.consumers.upsert consumer ⟨db.generation,revision,false⟩ } ∧
      ∀ c, db.consumers.get consumer = some c → c.rebuildRequired = false →
        c.revision ≤ revision := by
  unfold ContentDb.commitCursor at h
  obtain ⟨_, hvalid, hrest⟩ := bind_eq_ok.mp h
  obtain ⟨_, hfloor, hrest⟩ := bind_eq_ok.mp hrest
  obtain ⟨_, hback, hdb⟩ := bind_eq_ok.mp hrest
  obtain ⟨-, -, rfl, -⟩ := require_eq_ok.mp hvalid
  have hold := require_eq_ok.mp hback
  obtain rfl := Except.ok.inj hdb
  refine ⟨⟨ht.closed,ht.floor_generation,ht.floor_nonneg,ht.floor_le,ht.past,ht.rows,ht.kept,?_⟩,
    rfl,fun c hc hrebuild => hold c hc (ht.consumers _ c hc hrebuild).1 hrebuild⟩
  intro id c hc hrebuild
  have hc' := (Table.get_upsert db.consumers consumer ⟨db.generation,revision,false⟩ id).symm.trans hc
  split_ifs at hc' with hid
  · rw [← Option.some.inj hc']
    exact ⟨rfl,require_eq_ok.mp hfloor⟩
  · exact ht.consumers id c hc' hrebuild

theorem Tracks.requireRebuild {db : ContentDb} {history : List (ℤ × List RowChange)}
    (ht : Tracks db history) (consumer : String) : Tracks (db.requireRebuild consumer) history := by
  refine ⟨ht.closed,ht.floor_generation,ht.floor_nonneg,ht.floor_le,ht.past,ht.rows,ht.kept,?_⟩
  intro id c hc hrebuild
  have hc' := (Table.get_mapValues db.consumers (fun id c =>
    if id = consumer then { c with rebuildRequired := true } else c) id).symm.trans hc
  obtain ⟨c', hget, rfl⟩ := Option.map_eq_some_iff.mp hc'
  split_ifs at hrebuild ⊢ with hid
  exact ht.consumers id c' hget hrebuild

theorem Tracks.erase {db : ContentDb} {history : List (ℤ × List RowChange)}
    (ht : Tracks db history) (consumer : String) :
    Tracks { db with consumers := db.consumers.erase consumer } history := by
  refine ⟨ht.closed,ht.floor_generation,ht.floor_nonneg,ht.floor_le,ht.past,ht.rows,ht.kept,?_⟩
  intro id c hc hrebuild
  have hc' := (Table.get_erase db.consumers consumer id).symm.trans hc
  split_ifs at hc' with hid
  exact ht.consumers id c hc' hrebuild

lemma foldl_min_le (r : ℤ) (l : List ℤ) : l.foldl min r ≤ r ∧ ∀ x ∈ l, l.foldl min r ≤ x := by
  induction l generalizing r with
  | nil => simp
  | cons x l ih =>
    obtain ⟨hr, hl⟩ := ih (min r x)
    refine ⟨hr.trans (min_le_left r x),fun y hy => ?_⟩
    rcases List.mem_cons.mp hy with rfl | hy
    · exact hr.trans (min_le_right r y)
    · exact hl y hy

/-- A prune leaves every cursor that needs no rebuild as it is, and the floor at or below it. -/
theorem Tracks.prune {db db' : ContentDb} {history : List (ℤ × List RowChange)}
    (ht : Tracks db history) {cutoff : ℤ} (h : db.prune = .ok (cutoff,db')) : Tracks db' history ∧
      db'.revision = db.revision ∧
      (∀ id, db.consumers.get id = none → db'.consumers.get id = none) ∧
      ∀ id c, db.consumers.get id = some c → ∃ c', db'.consumers.get id = some c' ∧
        c'.revision = c.revision ∧
        (c.rebuildRequired = false → c'.rebuildRequired = false ∧ db'.floor.revision ≤ c.revision) := by
  unfold ContentDb.prune at h
  obtain ⟨_, -, hrest⟩ := bind_eq_ok.mp h
  obtain ⟨_, hcutoff, hdb⟩ := bind_eq_ok.mp hrest
  have hbounds := require_eq_ok.mp hcutoff
  have hleast := (foldl_min_le db.revision (cutoffs { db with
    consumers := db.consumers.mapValues fun _ c =>
      if c.generation = db.generation ∧ c.revision < db.floor.revision
        then { c with rebuildRequired := true } else c })).2
  obtain ⟨rfl, rfl⟩ := Prod.mk.inj (Except.ok.inj hdb)
  have hget := Table.get_mapValues db.consumers fun _ c =>
    if c.generation = db.generation ∧ c.revision < db.floor.revision
      then { c with rebuildRequired := true } else c
  -- no consumer that needs no rebuild is behind the floor
  have hsame : ∀ id c, db.consumers.get id = some c → c.rebuildRequired = false →
      ¬ (c.generation = db.generation ∧ c.revision < db.floor.revision) :=
    fun id c hc hrebuild hn => absurd (ht.consumers id c hc hrebuild).2 (not_le.mpr hn.2)
  have hbelow : ∀ id c, db.consumers.get id = some c → c.rebuildRequired = false →
      (cutoffs { db with
        consumers := db.consumers.mapValues fun _ c =>
          if c.generation = db.generation ∧ c.revision < db.floor.revision
            then { c with rebuildRequired := true } else c }).foldl min db.revision ≤ c.revision := by
    intro id c hc hrebuild
    apply hleast
    refine List.mem_map.mpr ⟨(id,c),List.mem_filter.mpr ⟨Table.get_eq_some.mp ?_,?_⟩,rfl⟩
    · rw [hget, hc, Option.map_some, if_neg (hsame id c hc hrebuild)]
    · exact decide_eq_true ⟨(ht.consumers id c hc hrebuild).1,hrebuild⟩
  refine ⟨⟨ht.closed,ht.floor_generation,ht.floor_nonneg.trans hbounds.1,hbounds.2,ht.past,?_,?_,?_⟩,
    rfl,fun id hid => (hget id).trans (by rw [hid, Option.map_none]),fun id c hc => ?_⟩
  · intro k r hk
    exact ht.rows k r (Table.get_deleteWhere_eq_some.mp hk).1
  · intro e he hfloor c hc key htouch
    obtain ⟨r, hr, hle⟩ := ht.kept e he (hbounds.1.trans_lt hfloor) c hc key htouch
    refine ⟨r,Table.get_deleteWhere_eq_some.mpr ⟨hr,?_⟩,hle⟩
    exact decide_eq_false fun hn => absurd (hfloor.trans_le hle) (not_lt.mpr hn.2)
  · intro id c hc hrebuild
    obtain ⟨c', hc', rfl⟩ := Option.map_eq_some_iff.mp ((hget id).symm.trans hc)
    split_ifs at hrebuild ⊢ with hn
    exact ⟨(ht.consumers id c' hc' hrebuild).1,hbelow id c' hc' hrebuild⟩
  · refine ⟨_,(hget id).trans (by rw [hc, Option.map_some]),?_,fun hrebuild => ?_⟩
    · split_ifs <;> rfl
    · rw [if_neg (hsame id c hc hrebuild)]
      exact ⟨hrebuild,hbelow id c hc hrebuild⟩

lemma Tracks.prune_succeeds {db : ContentDb} {history : List (ℤ × List RowChange)}
    (ht : Tracks db history) : ∃ cutoff db', db.prune = .ok (cutoff,db') := by
  have hle : ∀ (l : List ℤ) (r : ℤ), db.floor.revision ≤ r → (∀ x ∈ l, db.floor.revision ≤ x) →
      db.floor.revision ≤ l.foldl min r := by
    intro l
    induction l with
    | nil => exact fun r hr _ => hr
    | cons x l ih =>
      intro r hr hl
      obtain ⟨hx, hl⟩ := List.forall_mem_cons.mp hl
      exact ih (min r x) (le_min hr hx) hl
  cases hp : db.prune with
  | ok pruned => exact ⟨pruned.1,pruned.2,rfl⟩
  | error e =>
  exfalso
  unfold ContentDb.prune at hp
  rcases bind_eq_error.mp hp with hp | ⟨_, -, hp⟩
  · exact (require_eq_error.mp hp).1 ⟨ht.floor_generation,ht.floor_le⟩
  rcases bind_eq_error.mp hp with hp | ⟨_, -, hp⟩
  · refine (require_eq_error.mp hp).1 ⟨hle _ _ ht.floor_le fun x hx => ?_,(foldl_min_le _ _).1⟩
    obtain ⟨⟨id, c⟩, hmem, rfl⟩ := List.mem_map.mp hx
    obtain ⟨hrow, hkept⟩ := List.mem_filter.mp hmem
    obtain ⟨-, hrebuild⟩ := of_decide_eq_true hkept
    have hc := (Table.get_mapValues db.consumers (fun _ c =>
      if c.generation = db.generation ∧ c.revision < db.floor.revision
        then { c with rebuildRequired := true } else c) id).symm.trans (Table.get_eq_some.mpr hrow)
    obtain ⟨c', hget, rfl⟩ := Option.map_eq_some_iff.mp hc
    split_ifs at hrebuild ⊢
    exact (ht.consumers id c' hget hrebuild).2
  · cases hp

end ContentDb

/-! ### Runs -/

inductive ContentOp
  | mutate (revision : ℤ) (origin : String) (rows : List RowChange)
  | replace (generation : String) (revision : ℤ)
  | commitCursor (consumer generation : String) (revision : ℤ)
  | acknowledge (revision : ℤ)
  | requireRebuild (consumer : String)
  | prune
  | removeConsumer (connection : String)
  | acquire (lease : String)
  | release (lease : String)

/-- A store with its leases and the mutations it committed. A lease reads the database as it was. -/
structure ContentSystem where
  db : ContentDb
  leases : Table String ContentDb
  history : List (ℤ × List RowChange)

namespace ContentSystem

def create : ContentSystem := ⟨.create,.empty,[]⟩

/-- The database after an operation. A transaction that fails changes nothing. -/
def transact (db : ContentDb) : ContentOp → StoreResult ContentDb
  | .mutate revision origin rows => db.mutate revision origin rows
  | .replace generation revision => db.replace generation revision
  | .commitCursor consumer generation revision => db.commitCursor consumer generation revision
  | .acknowledge revision => db.commitWorkingSetChangeCursor revision
  | .requireRebuild consumer => .ok (db.requireRebuild consumer)
  | .prune => db.prune.map Prod.snd
  | .removeConsumer connection => db.removeConnectionConsumer connection
  | .acquire _ => .ok db
  | .release _ => .ok db

/-- What an operation commits. -/
def committed : ContentOp → List (ℤ × List RowChange)
  | .mutate revision _ rows => [(revision,rows)]
  | _ => []

def exec (s : ContentSystem) (op : ContentOp) : ContentSystem :=
  match transact s.db op with
  | .error _ => s
  | .ok db =>
    { db := db
      leases := match op with
        | .acquire lease => s.leases.upsert lease s.db
        | .release lease => s.leases.erase lease
        | _ => s.leases
      history := s.history ++ committed op }

/-- Every mutation and replacement has a higher revision than the one before. -/
def Increasing (s : ContentSystem) : ContentOp → Prop
  | .mutate revision _ _ => s.db.revision < revision
  | .replace _ revision => s.db.revision < revision
  | _ => True

inductive Reachable : ContentSystem → Prop
  | create : Reachable create
  | step {s : ContentSystem} {op : ContentOp} (h : Reachable s) (hi : s.Increasing op) :
      Reachable (s.exec op)

open ContentDb

/-- An operation keeps track of the mutations, and no cursor that needs no rebuild moves back. -/
structure Follows (db db' : ContentDb) (op : ContentOp) (history : List (ℤ × List RowChange)) :
    Prop where
  tracks : Tracks db' (history ++ committed op)
  revision_le : db.revision ≤ db'.revision
  committed : ∀ e ∈ committed op, db.revision < e.1
  cursor : ∀ id c c', db.consumers.get id = some c → db'.consumers.get id = some c' →
    c.rebuildRequired = false → c.revision ≤ c'.revision

lemma follows_commitCursor {db db' : ContentDb} {history : List (ℤ × List RowChange)}
    (ht : Tracks db history) {consumer generation : String} {revision : ℤ}
    (h : db.commitCursor consumer generation revision = .ok db') : ∀ id c c',
      db.consumers.get id = some c → db'.consumers.get id = some c' →
      c.rebuildRequired = false → c.revision ≤ c'.revision := by
  obtain ⟨-, rfl, hforward⟩ := ht.commitCursor h
  intro id c c' hc hc' hrebuild
  have hget := (Table.get_upsert db.consumers consumer ⟨db.generation,revision,false⟩ id).symm.trans hc'
  split_ifs at hget with hid
  · rw [← Option.some.inj hget]
    rw [hid] at hc
    exact hforward c hc hrebuild
  · rw [hc] at hget
    exact (congrArg ContentConsumer.revision (Option.some.inj hget)).le

lemma follows_prune {db db' : ContentDb} {history : List (ℤ × List RowChange)}
    (ht : Tracks db history) {cutoff : ℤ} (h : db.prune = .ok (cutoff,db')) : ∀ id c c',
      db.consumers.get id = some c → db'.consumers.get id = some c' →
      c'.revision = c.revision := by
  intro id c c' hc hc'
  obtain ⟨c'', hget, hrev, -⟩ := (ht.prune h).2.2.2 id c hc
  rw [hget] at hc'
  rw [← Option.some.inj hc', hrev]

theorem transact_follows {s : ContentSystem} {op : ContentOp} {db : ContentDb}
    (ht : Tracks s.db s.history) (hi : s.Increasing op) (h : transact s.db op = .ok db) :
    Follows s.db db op s.history := by
  have hnone : s.history ++ [] = s.history := List.append_nil _
  cases op with
  | mutate revision origin rows =>
    obtain ⟨htracks, hrev, hconsumers⟩ := ht.mutate hi h
    refine ⟨htracks,hrev ▸ hi.le,fun e he => ?_,fun id c c' hc hc' _ => ?_⟩
    · rw [List.mem_singleton.mp he]
      exact hi
    · rw [hconsumers, hc] at hc'
      exact (congrArg ContentConsumer.revision (Option.some.inj hc')).le
  | replace generation revision =>
    obtain ⟨htracks, hrev, hconsumers⟩ := ht.replace hi h
    refine ⟨hnone.symm ▸ htracks,hrev ▸ hi.le,List.forall_mem_nil _,fun id c c' hc hc' _ => ?_⟩
    rw [hconsumers, Table.get_mapValues, hc, Option.map_some] at hc'
    rw [← Option.some.inj hc']
  | commitCursor consumer generation revision =>
    obtain ⟨htracks, hdb, -⟩ := ht.commitCursor h
    exact ⟨hnone.symm ▸ htracks,by rw [hdb],List.forall_mem_nil _,follows_commitCursor ht h⟩
  | acknowledge revision =>
    obtain ⟨advanced, hadvanced, hrest⟩ := bind_eq_ok.mp h
    obtain ⟨⟨cutoff, pruned⟩, hpruned, hdb⟩ := bind_eq_ok.mp hrest
    obtain rfl := Except.ok.inj hdb
    obtain ⟨htracks, hsame, -⟩ := ht.commitCursor hadvanced
    obtain ⟨htracks', hrev, hkept⟩ := htracks.prune hpruned
    refine ⟨hnone.symm ▸ htracks',(by rw [hrev, hsame]),List.forall_mem_nil _,fun id c c' hc hc' hr => ?_⟩
    have hmid : ∃ m, advanced.consumers.get id = some m := by
      rw [hsame, Table.get_upsert]
      split_ifs
      · exact ⟨_,rfl⟩
      · exact ⟨c,hc⟩
    obtain ⟨m, hm⟩ := hmid
    exact (follows_commitCursor ht hadvanced id c m hc hm hr).trans
      (follows_prune htracks hpruned id m c' hm hc').ge
  | requireRebuild consumer =>
    obtain rfl := Except.ok.inj h
    refine ⟨hnone.symm ▸ ht.requireRebuild consumer,le_rfl,List.forall_mem_nil _,
      fun id c c' hc hc' _ => ?_⟩
    have hget := (Table.get_mapValues s.db.consumers (fun id c =>
      if id = consumer then { c with rebuildRequired := true } else c) id).symm.trans hc'
    rw [hc, Option.map_some] at hget
    rw [← Option.some.inj hget]
    split_ifs <;> exact le_rfl
  | prune =>
    change (s.db.prune.map Prod.snd) = .ok db at h
    cases hp : s.db.prune with
    | error e =>
      rw [hp] at h
      cases h
    | ok pruned =>
      rw [hp] at h
      obtain rfl := Except.ok.inj h
      obtain ⟨htracks, hrev, -⟩ := ht.prune hp
      exact ⟨hnone.symm ▸ htracks,hrev.ge,List.forall_mem_nil _,
        fun id c c' hc hc' _ => (follows_prune ht hp id c c' hc hc').ge⟩
  | removeConsumer connection =>
    obtain ⟨_, -, hrest⟩ := bind_eq_ok.mp h
    obtain ⟨⟨cutoff, pruned⟩, hpruned, hdb⟩ := bind_eq_ok.mp hrest
    obtain rfl := Except.ok.inj hdb
    have herased := ht.erase connection
    obtain ⟨htracks, hrev, hnew, -⟩ := herased.prune hpruned
    refine ⟨hnone.symm ▸ htracks,hrev.ge,List.forall_mem_nil _,fun id c c' hc hc' _ => ?_⟩
    by_cases hid : id = connection
    · -- a prune does not bring a removed consumer back
      have hgone : (s.db.consumers.erase connection).get id = none := by
        rw [Table.get_erase, if_pos hid]
      rw [hnew id hgone] at hc'
      cases hc'
    · have hget : (s.db.consumers.erase connection).get id = some c := by
        rw [Table.get_erase, if_neg hid, hc]
      exact (follows_prune herased hpruned id c c' hget hc').ge
  | acquire lease =>
    obtain rfl := Except.ok.inj h
    refine ⟨hnone.symm ▸ ht,le_rfl,List.forall_mem_nil _,fun id c c' hc hc' _ => ?_⟩
    rw [hc] at hc'
    exact (congrArg ContentConsumer.revision (Option.some.inj hc')).le
  | release lease =>
    obtain rfl := Except.ok.inj h
    refine ⟨hnone.symm ▸ ht,le_rfl,List.forall_mem_nil _,fun id c c' hc hc' _ => ?_⟩
    rw [hc] at hc'
    exact (congrArg ContentConsumer.revision (Option.some.inj hc')).le

/-! ### What holds in every run -/

/-- The store and each of its leases keep track of the mutations they can read. -/
structure Sound (s : ContentSystem) : Prop where
  tracks : Tracks s.db s.history
  leases : ∀ lease db, s.leases.get lease = some db → db.revision ≤ s.db.revision ∧
    ∃ history, Tracks db history ∧ ∀ e ∈ s.history, e.1 ≤ db.revision → e ∈ history

lemma sound_create : Sound create where
  tracks := tracks_create
  leases := fun lease db h => by cases h

lemma get_exec_leases {s : ContentSystem} {op : ContentOp} {lease : String} {db : ContentDb}
    (h : (s.exec op).leases.get lease = some db) : s.leases.get lease = some db ∨ db = s.db := by
  unfold exec at h
  split at h
  · exact .inl h
  · cases op with
    | acquire lease' =>
      change (s.leases.upsert lease' s.db).get lease = some db at h
      rw [Table.get_upsert] at h
      split_ifs at h
      · exact .inr (Option.some.inj h).symm
      · exact .inl h
    | release lease' =>
      change (s.leases.erase lease').get lease = some db at h
      rw [Table.get_erase] at h
      split_ifs at h
      exact .inl h
    | mutate | replace | commitCursor | acknowledge | requireRebuild | prune | removeConsumer =>
      exact .inl h

theorem Sound.exec {s : ContentSystem} (hs : Sound s) {op : ContentOp} (hi : s.Increasing op) :
    Sound (s.exec op) := by
  cases hop : transact s.db op with
  | error e =>
    have : s.exec op = s := by unfold ContentSystem.exec; rw [hop]
    rwa [this]
  | ok db =>
    have hf := transact_follows hs.tracks hi hop
    have hdb : (s.exec op).db = db := by unfold ContentSystem.exec; rw [hop]
    have hhistory : (s.exec op).history = s.history ++ committed op := by
      unfold ContentSystem.exec; rw [hop]
    refine ⟨by rw [hdb, hhistory]; exact hf.tracks,fun lease leased hget => ?_⟩
    rw [hdb, hhistory]
    -- what the operation commits is newer than every lease
    have hnew : ∀ history : List (ℤ × List RowChange), leased.revision ≤ s.db.revision →
        (∀ e ∈ s.history, e.1 ≤ leased.revision → e ∈ history) →
        ∀ e ∈ s.history ++ committed op, e.1 ≤ leased.revision → e ∈ history := by
      intro history hle hold e he hrev
      rcases List.mem_append.mp he with he | he
      · exact hold e he hrev
      · exact absurd (hrev.trans hle) (not_le.mpr (hf.committed e he))
    rcases get_exec_leases hget with hget | rfl
    · obtain ⟨hle, history, htracks, hold⟩ := hs.leases lease leased hget
      exact ⟨hle.trans hf.revision_le,history,htracks,hnew history hle hold⟩
    · exact ⟨hf.revision_le,s.history,hs.tracks,hnew s.history le_rfl fun e he _ => he⟩

theorem Reachable.sound {s : ContentSystem} (h : Reachable s) : Sound s := by
  induction h with
  | create => exact sound_create
  | step _ hi ih => exact ih.exec hi

/-- In every run the pages of a lease's window list each row that a mutation the lease can read
changed behind the cursor. A prune succeeds, keeps the cursors that need no rebuild and leaves the
floor at or below them, and no operation moves such a cursor back. -/
theorem content_changes_lose_nothing {s : ContentSystem} (h : Reachable s) :
    (∀ lease db consumer after limits, s.leases.get lease = some db →
      db.window consumer = .incremental after →
      (∀ limit ∈ limits, limit ≠ 0 ∧ limit ≤ 1024) →
      ∃ keys ended, db.follow after none limits = .ok (keys,ended) ∧
        ((db.changedKeys after).length < limits.length → ended = true) ∧
        (ended = true → ∀ e ∈ s.history, after < e.1 → e.1 ≤ db.revision → ∀ c ∈ e.2, ∀ key,
          c.touches db.generation key → key ∈ keys)) ∧
    (∃ cutoff db, s.db.prune = .ok (cutoff,db) ∧ ∀ id (c : ContentConsumer), s.db.consumers.get id = some c →
      c.rebuildRequired = false → ∃ c', db.consumers.get id = some c' ∧ c'.revision = c.revision ∧
        c'.rebuildRequired = false ∧ db.floor.revision ≤ c.revision) ∧
    ∀ op, s.Increasing op → ∀ id c c', s.db.consumers.get id = some c →
      (s.exec op).db.consumers.get id = some c' → c.rebuildRequired = false →
      c.revision ≤ c'.revision := by
  have hs := h.sound
  refine ⟨fun lease db consumer after limits hlease hw hlimits => ?_,?_,?_⟩
  · obtain ⟨-, history, htracks, hold⟩ := hs.leases lease db hlease
    obtain ⟨keys, ended, hfollow, hend, hall⟩ := htracks.follow hw hlimits
    exact ⟨keys,ended,hfollow,hend,fun he e hmem hafter hle => hall he e (hold e hmem hle) hafter⟩
  · obtain ⟨cutoff, db, hprune⟩ := hs.tracks.prune_succeeds
    refine ⟨cutoff,db,hprune,fun id c hc hrebuild => ?_⟩
    obtain ⟨c', hget, hrev, hkept⟩ := (hs.tracks.prune hprune).2.2.2 id c hc
    exact ⟨c',hget,hrev,hkept hrebuild⟩
  · intro op hi id c c' hc hc' hrebuild
    cases hop : transact s.db op with
    | error e =>
      have hdb : (s.exec op).db = s.db := by unfold ContentSystem.exec; rw [hop]
      rw [hdb, hc] at hc'
      exact (congrArg ContentConsumer.revision (Option.some.inj hc')).le
    | ok db =>
      have hdb : (s.exec op).db = db := by unfold ContentSystem.exec; rw [hop]
      rw [hdb] at hc'
      exact (transact_follows hs.tracks hi hop).cursor id c c' hc hc' hrebuild

/-! #### A store with two characters -/

/-- The insertion of a character. -/
def characterChange (id : String) : RowChange where
  table := ⟨"characters",.text "character",.column "character_id",.text ""⟩
  event := .insert ⟨"revision-0",fun name => if name = "character_id" then id else ""⟩
  tracked := by decide
  located := fun row hrow => by
    obtain rfl := List.mem_singleton.mp hrow
    exact ⟨rfl,rfl⟩
  checked := fun h => absurd h (by decide)

def run (ops : List ContentOp) : ContentSystem := ops.foldl exec create

instance (s : ContentSystem) : (op : ContentOp) → Decidable (s.Increasing op)
  | .mutate _ _ _ | .replace _ _ => Int.decLt _ _
  | .commitCursor _ _ _ | .acknowledge _ | .requireRebuild _ | .prune | .removeConsumer _
  | .acquire _ | .release _ => inferInstanceAs (Decidable True)

/-- The revisions of a run increase. -/
def Increases : ContentSystem → List ContentOp → Bool
  | _, [] => true
  | s, op :: ops => decide (s.Increasing op) && Increases (s.exec op) ops

lemma reachable_run {s : ContentSystem} (hs : Reachable s) {ops : List ContentOp}
    (h : Increases s ops = true) : Reachable (ops.foldl exec s) := by
  induction ops generalizing s with
  | nil => exact hs
  | cons op ops ih =>
    obtain ⟨hop, hops⟩ := Bool.and_eq_true_iff.mp h
    exact ih (hs.step (of_decide_eq_true hop)) hops

/-- The interface has read the first revision when a lease is taken at the third. -/
def leasedRun : ContentSystem :=
  run [.mutate 1 "local" [characterChange "alice"],.commitCursor "ui-working-set" "revision-0" 1,
    .mutate 2 "server" [characterChange "bob"],.mutate 3 "local" [characterChange "alice"],
    .acquire "lease",.mutate 4 "local" [characterChange "bob"]]

lemma reachable_leasedRun : Reachable leasedRun := reachable_run .create (by decide)

lemma leasedRun_window : ∃ db, leasedRun.leases.get "lease" = some db ∧
    db.window workingSetConsumer = .incremental 1 := by
  refine ⟨_,rfl,?_⟩
  decide

theorem content_changes_lose_nothing_lease : ∃ db, leasedRun.leases.get "lease" = some db ∧
    ∃ keys, db.follow 1 none [1,1,1] = .ok (keys,true) ∧
      ∀ e ∈ leasedRun.history, 1 < e.1 → e.1 ≤ db.revision → ∀ c ∈ e.2, ∀ key,
        c.touches db.generation key → key ∈ keys := by
  obtain ⟨db, hget, hw⟩ := leasedRun_window
  obtain ⟨keys, ended, hfollow, hend, hall⟩ := (content_changes_lose_nothing reachable_leasedRun).1
    "lease" db workingSetConsumer 1 [1,1,1] hget hw (by decide)
  have hlength : (db.changedKeys 1).length < 3 := by
    obtain rfl := Option.some.inj hget
    decide
  obtain rfl := hend hlength
  exact ⟨db,hget,keys,hfollow,hall rfl⟩

/-- A consumer that needs a rebuild reads nothing until it has rebuilt. -/
def markedRun : ContentSystem :=
  run [.mutate 1 "local" [characterChange "alice"],.mutate 2 "local" [characterChange "bob"],
    .mutate 3 "local" [characterChange "alice"],.commitCursor "drive" "revision-0" 2,
    .requireRebuild "drive"]

/-- A prune passes the cursor of a consumer that needs a rebuild, and that cursor may move back. -/
theorem marked_cursors_are_not_held : Reachable markedRun ∧
    markedRun.db.consumers.get "drive" = some ⟨"revision-0",2,true⟩ ∧
    ((markedRun.exec .prune).db.consumers.get "drive" = some ⟨"revision-0",2,true⟩ ∧
      (markedRun.exec .prune).db.floor.revision = 3) ∧
    (markedRun.exec (.commitCursor "drive" "revision-0" 1)).db.consumers.get "drive" =
      some ⟨"revision-0",1,false⟩ := by
  refine ⟨reachable_run .create (by decide),by decide,⟨?_,?_⟩,?_⟩ <;>
    decide

end ContentSystem
end RisuNest.Storage
