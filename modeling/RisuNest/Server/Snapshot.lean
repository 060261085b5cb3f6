import RisuNest.Lib.Keyset
import RisuNest.Server.Paging

/-! A pin is a snapshot. Its pages are the units of the moment it was taken, whatever is pushed or
pruned between two pages, and the journal leads on from there (`create_state_pin`, `state_page` and
`changes` of `lww.rs`). -/
namespace RisuNest.Server
open Wire Keyset

/-! ### The rows of a pin -/

/-- The units of a table, in the order of their keys. -/
def snapshot (units : Table UnitKey UnitChange) : List UnitChange :=
  (units.rows.insertionSort fun a b => a.1.asStr ≤ b.1.asStr).map Prod.snd

/-- Every unit is stored under its own key. -/
def Keyed (units : Table UnitKey UnitChange) : Prop := ∀ k c, units.get k = some c → c.key = k

lemma ascending_rows {rows : List (UnitKey × UnitChange)} (hn : (rows.map Prod.fst).Nodup)
    (hk : ∀ r ∈ rows, r.2.key = r.1) :
    Ascending UnitKey.asStr UnitChange.key
      ((rows.insertionSort fun a b => a.1.asStr ≤ b.1.asStr).map Prod.snd) := by
  have hs : Ascending UnitKey.asStr Prod.fst
      (rows.insertionSort fun a b => a.1.asStr ≤ b.1.asStr) :=
    ascending_insertionSort UnitKey.asStr_injective hn
  refine List.pairwise_map.mpr (hs.imp_of_mem fun {a b} ha hb hab => ?_)
  rw [hk a ((List.mem_insertionSort _).mp ha), hk b ((List.mem_insertionSort _).mp hb)]
  exact hab

lemma ascending_snapshot {units : Table UnitKey UnitChange} (hk : Keyed units) :
    Ascending UnitKey.asStr UnitChange.key (snapshot units) :=
  ascending_rows units.nodup fun r hr => hk r.1 r.2 (Table.get_eq_some.mpr hr)

lemma mem_snapshot {units : Table UnitKey UnitChange} (hk : Keyed units) {c : UnitChange} :
    c ∈ snapshot units ↔ units.get c.key = some c := by
  simp only [snapshot, List.mem_map, List.mem_insertionSort, Prod.exists, exists_eq_right]
  constructor
  · rintro ⟨k,hr⟩
    have hr := Table.get_eq_some.mpr hr
    rwa [hk k c hr]
  · exact fun h => ⟨_,Table.get_eq_some.mp h⟩

lemma find_snapshot {units : Table UnitKey UnitChange} (hk : Keyed units) (k : UnitKey) :
    (snapshot units).find? (fun c => c.key = k) = units.get k := by
  cases hu : units.get k with
  | none =>
    refine List.find?_eq_none.mpr fun c hc he => ?_
    rw [← of_decide_eq_true he, (mem_snapshot hk).mp hc] at hu
    cases hu
  | some c =>
    cases hf : (snapshot units).find? fun c => c.key = k with
    | none =>
      have hc := hk k c hu
      have hm : c ∈ snapshot units := (mem_snapshot hk).mpr (hc ▸ hu)
      exact absurd (decide_eq_true hc) (List.find?_eq_none.mp hf c hm)
    | some d =>
      have hd := (mem_snapshot hk).mp (List.mem_of_find?_eq_some hf)
      have hk : d.key = k := by simpa using List.find?_some hf
      rw [hk, hu] at hd
      exact hd.symm

namespace Store
variable {cr : Crates} {s : Store} {device : Device} {limit : ℕ}

lemma pinRange_eq_behind {pin : PinRow} (hk : Keyed pin.units) (after : Option UnitKey) :
    pinRange pin after = behind UnitKey.asStr UnitChange.key after (snapshot pin.units) := by
  have hrange : Ascending UnitKey.asStr UnitChange.key (pinRange pin after) :=
    ascending_rows (pin.units.nodup.sublist (List.filter_sublist.map _)) fun r hr =>
      hk r.1 r.2 (Table.get_eq_some.mpr (List.mem_of_mem_filter hr))
  refine hrange.eq_of_mem_iff ((ascending_snapshot hk).behind after) fun c => ?_
  rw [mem_pinRange, mem_behind, mem_snapshot hk]
  constructor
  · rintro ⟨k,hu,hlt⟩
    rw [hk k c hu]
    exact ⟨hu,UnitKey.after_lt_iff.mp hlt⟩
  · rintro ⟨hu,hlt⟩
    exact ⟨_,hu,UnitKey.after_lt_iff.mpr hlt⟩

lemma fillUnits_prefix (limit count bytes : ℕ) (l : List UnitChange) :
    (fillUnits limit count bytes l).1 <+: l := by
  rw [fillUnits_eq_fill]
  exact fill_prefix count bytes l

lemma fillUnits_complete {limit count bytes : ℕ} {l : List UnitChange}
    (h : (fillUnits limit count bytes l).2 = false) (hc : count ≤ limit) :
    (fillUnits limit count bytes l).1 = l ∧ count + l.length ≤ limit := by
  rw [fillUnits_eq_fill] at h ⊢
  exact fill_complete h hc

lemma statePage_eq_ok {id : String} {after : Option UnitKey} {now : ℤ} {page : StatePage}
    (h : s.statePage cr device id after limit now = .ok page) :
    ∃ pin, s.statePins.get id = some pin ∧ page.startSeq = pin.startSeq ∧
      (Keyed pin.units → PageBehind UnitKey.asStr UnitChange.key (snapshot pin.units) after page.items
        page.nextKey) := by
  unfold statePage at h
  obtain ⟨_,-,h⟩ := bind_eq_ok.mp h
  obtain ⟨_,-,h⟩ := bind_eq_ok.mp h
  obtain ⟨_,-,h⟩ := bind_eq_ok.mp h
  cases hpin : s.statePins.get id with
  | none =>
    rw [hpin] at h
    cases h
  | some pin =>
    rw [hpin] at h
    obtain ⟨_,-,h⟩ := bind_eq_ok.mp h
    have hfirst := fillUnits_prefix limit 0 512 ((pinRange pin after).take (limit+1))
    have hcomplete := @fillUnits_complete limit 0 512 ((pinRange pin after).take (limit+1))
    revert h hfirst hcomplete
    generalize fillUnits limit 0 512 ((pinRange pin after).take (limit+1)) = filled
    obtain ⟨items,more⟩ := filled
    intro h hfirst hcomplete
    obtain ⟨_,hsome,h⟩ := bind_eq_ok.mp h
    have hsome := require_eq_ok.mp hsome
    cases h
    refine ⟨pin,rfl,rfl,fun hk => ?_⟩
    refine ⟨?_,?_,?_⟩
    · rw [← pinRange_eq_behind hk]
      exact hfirst.trans (List.take_prefix _ _)
    · intro c hc
      cases more with
      | false => cases hc
      | true => exact hc
    · intro hnext
      cases more with
      | true => exact absurd ⟨rfl,by simpa using hnext⟩ hsome
      | false =>
        obtain ⟨he,hlen⟩ := hcomplete rfl (Nat.zero_le _)
        -- nothing was left out, so the items are all that lies behind the cursor
        change items = _ at he
        rw [← pinRange_eq_behind hk, he]
        rw [List.length_take] at hlen
        exact List.take_of_length_le (by omega)

end Store

/-! ### Pins stay as they were taken -/

namespace Store
variable {cr : Crates}

lemma cancelOperation_pins (s : Store) (device : Device) (id bodyDigest : String)
    (clock : Answer ℕ) (created : ℤ) :
    (s.cancelOperation cr device id bodyDigest clock created).2.statePins = s.statePins := by
  unfold cancelOperation
  dsimp only
  split
  · rfl
  · split_ifs <;> rfl
  · split <;> rfl

lemma acknowledge_pins (s : Store) (device : Device) (seq : ℕ) (now : ℤ) :
    (s.acknowledge cr device seq now).2.statePins = s.statePins := by
  unfold acknowledge
  split
  · rfl
  · split
    · rfl
    · split_ifs <;> rfl

lemma revokeDevice_pins (s : Store) (id : String) :
    (s.revokeDevice id).2.statePins = s.statePins := by
  unfold revokeDevice
  split
  · rfl
  · split <;> rfl

lemma putObject_pins (s : Store) (device : Device) (digest : String) (bytes : List UInt8)
    (now : ℤ) : (s.putObject cr device digest bytes now).2.statePins = s.statePins := by
  unfold putObject
  dsimp only
  split <;> rfl

lemma pinObjects_pins (s : Store) (device : Device) (hashes : List String) (now : ℤ) :
    (s.pinObjects cr device hashes now).2.statePins = s.statePins := by
  unfold pinObjects
  dsimp only
  split
  · rfl
  · dsimp only
    rw [foldl_leaseObject]

lemma createStatePin_other (s : Store) (device : Device) {id other : String} (hne : id ≠ other)
    (now : ℤ) {pin : PinRow}
    (h : (s.createStatePin cr device other now).2.statePins.get id = some pin) :
    s.statePins.get id = some pin := by
  unfold createStatePin at h
  split at h
  · exact h
  · rw [Table.get_insertOrIgnore, if_neg hne] at h
    exact (Table.get_deleteWhere_eq_some.mp h).1

lemma releaseStatePin_pins (s : Store) (device : Device) (released : String) {id : String}
    {pin : PinRow} (h : (s.releaseStatePin cr device released).2.statePins.get id = some pin) :
    s.statePins.get id = some pin := by
  unfold releaseStatePin at h
  split at h
  · exact h
  · exact (Table.get_deleteWhere_eq_some.mp h).1

end Store

lemma exec_pins {cr : Crates} {texts : Set (List UInt8)} {s : System}
    (hv : PendingValid cr texts s) {o : Op} {id : String}
    (ho : ∀ device now, o ≠ .createStatePin device id now) {pin : PinRow}
    (h : (s.exec cr o).2.store.statePins.get id = some pin) :
    s.store.statePins.get id = some pin := by
  cases o with
  | beginPush call =>
    simp only [System.exec] at h
    cases hs : s.pending with
    | some p => rwa [hs] at h
    | none =>
      rw [hs] at h
      have hb : Store.Began cr s.store call _ _ := Store.beginPush_cases s.store call
      revert hb h
      generalize s.store.beginPush cr call = began
      obtain ⟨answer,t⟩ := began
      intro h hb
      cases hb with
      | prepared ha hr hval =>
        have hf : Store.IndexFrame s.store (s.store.prepareDescriptors cr _).2 :=
          Store.prepareChanges_frame s.store .empty call.request.changes
        change (s.store.prepareDescriptors cr _).2.statePins.get id = some pin at h
        rw [hf] at h
        exact h
      | _ => exact h
  | finishPush created =>
    simp only [System.exec] at h
    cases hs : s.pending with
    | none => rwa [hs] at h
    | some p =>
      rw [hs] at h
      dsimp only at h
      have hf : Store.Finished cr s.store p created _ _ :=
        Store.finishPush_cases (hv p hs).1 created
      revert hf h
      generalize s.store.finishPush cr p created = finished
      obtain ⟨answer,t⟩ := finished
      intro h hf
      cases hf with
      | accepted ha hr hl hu hacc =>
        rw [hacc.frame] at h
        exact h
      | _ => exact h
  | cancelOperation device op bodyDigest clock created =>
    exact (Store.cancelOperation_pins s.store device op bodyDigest clock created) ▸ h
  | createStatePin device other now =>
    refine Store.createStatePin_other s.store device (fun he => ?_) now h
    exact ho device now (by rw [he])
  | releaseStatePin device released => exact Store.releaseStatePin_pins s.store device released h
  | acknowledge device seq now => exact Store.acknowledge_pins s.store device seq now ▸ h
  | maintain current clock =>
    simp only [System.exec] at h
    cases hs : s.pending with
    | some p => rwa [hs] at h
    | none =>
      rw [hs] at h
      simp only [Store.maintainAt] at h
      cases hr : (s.store.pruned current).gcRoots cr clock with
      | error e => rwa [hr] at h
      | ok roots =>
        rw [hr] at h
        exact (Store.pruned_pins h).2
  | revokeDevice device => exact Store.revokeDevice_pins s.store device ▸ h
  | putObject device digest bytes now =>
    exact Store.putObject_pins s.store device digest bytes now ▸ h
  | pinObjects device hashes now =>
    exact Store.pinObjects_pins s.store device hashes now ▸ h
  | rotateRestoredEpoch epoch =>
    simp only [System.exec] at h
    cases hs : s.pending with
    | some p => rwa [hs] at h
    | none =>
      rw [hs] at h
      cases h
  | changes | addDevice | restart => exact h

/-! ### Reading a pin -/

/-- What a reader of a pin has read, and the replica it follows the journal with. -/
structure PinReader where
  read : Walk UnitChange UnitKey
  level : Reader

namespace PinReader

def start : PinReader := ⟨.start,⟨fun _ => none,0⟩⟩

/-- A page of the pin was answered. The replica is what was read so far. -/
def turn (r : PinReader) (page : StatePage) : PinReader :=
  ⟨r.read.turn page.items page.nextKey,
    ⟨fun k => (r.read.items ++ page.items).find? fun c => c.key = k,page.startSeq⟩⟩

/-- A page of the journal was answered. -/
def follow (r : PinReader) (page : ChangesPage) : PinReader :=
  { r with level := ⟨page.items.foldl applyItem r.level.replica,page.nextAfter⟩ }

end PinReader

/-- The server moves, or it answers the next page: of the pin, and behind its last page of the
journal. Ids of pins are random, so no other pin is taken under this one. -/
inductive PinReading (cr : Crates) (texts : Set (List UInt8)) (id : String) :
    System × PinReader → System × PinReader → Prop
  | op {s : System} {r : PinReader} (o : Op) (h : o.texts ⊆ texts)
      (fresh : ∀ device now, o ≠ .createStatePin device id now) :
      PinReading cr texts id (s,r) ((s.exec cr o).2,r)
  | frame {s : System} {t : Store} {r : PinReader} (h : Frame s.store t) :
      PinReading cr texts id (s,r) ({ s with store := t },r)
  | page {s : System} {r : PinReader} {device : Device} {limit : ℕ} {now : ℤ} {page : StatePage}
      (going : r.read.finished = false)
      (h : s.store.statePage cr device id r.read.after limit now = .ok page) :
      PinReading cr texts id (s,r) (s,r.turn page)
  | changes {s : System} {r : PinReader} {device : Device} {limit : ℕ} {page : ChangesPage}
      (done : r.read.finished = true)
      (h : s.store.changes cr device r.level.cursor limit = .ok page) :
      PinReading cr texts id (s,r) (s,r.follow page)

/-- How far a reader of a pin is: the pin is as it was taken, the pages add up to the units of that
moment, and the replica can be brought level. -/
structure PinFollowed (cr : Crates) (texts : Set (List UInt8)) (id : String) (pin : PinRow)
    (x : System × PinReader) : Prop where
  reachable : Reachable cr texts x.1
  kept : ∀ row, x.1.store.statePins.get id = some row → row = pin
  read : Walk.Covers UnitKey.asStr UnitChange.key (snapshot pin.units) x.2.read
  going : x.2.read.finished = false → InStep x.1.store pin.units.get pin.startSeq
  done : x.2.read.finished = true →
    InStep x.1.store x.2.level.replica x.2.level.cursor ∧ pin.startSeq ≤ x.2.level.cursor

section
variable {cr : Crates} {texts : Set (List UInt8)} {id : String} {pin : PinRow}

lemma PinFollowed.moved {s t : System} {r : PinReader} {o : Option Op}
    (h : PinFollowed cr texts id pin (s,r)) (hr : Reachable cr texts t) (hm : Moved cr texts o s t)
    (hpins : ∀ row, t.store.statePins.get id = some row → s.store.statePins.get id = some row) :
    PinFollowed cr texts id pin (t,r) := by
  have hret := h.reachable.retirements
  have hl := h.reachable.ledger
  refine ⟨hr,fun row hrow => h.kept row (hpins row hrow),h.read,?_,?_⟩
  · exact fun hg => hm.inStep hret hl (h.going hg)
  · exact fun hd => ⟨hm.inStep hret hl (h.done hd).1,(h.done hd).2⟩

lemma PinFollowed.step (hk : Keyed pin.units) {x y : System × PinReader}
    (h : PinFollowed cr texts id pin x) (hst : PinReading cr texts id x y) :
    PinFollowed cr texts id pin y := by
  have hret := h.reachable.retirements
  have hl := h.reachable.ledger
  cases hst with
  | op o ho fresh =>
    refine h.moved (h.reachable.step (.op o ho)) (exec_cases h.reachable.pendingValid ho) ?_
    exact fun row => exec_pins h.reachable.pendingValid fresh
  | frame hf =>
    refine h.moved (o := none) (h.reachable.step (.frame hf)) (.quiet hf.quiet (.inl rfl)) ?_
    exact fun row hrow => hf.statePins ▸ hrow
  | @page s r device limit now page going hpage =>
    obtain ⟨row,hrow,hseq,hp⟩ := Store.statePage_eq_ok hpage
    obtain rfl := h.kept row hrow
    have hread := h.read.turn (ascending_snapshot hk) going (hp hk)
    refine ⟨h.reachable,h.kept,hread,fun _ => h.going going,fun hd => ?_⟩
    -- all was read, so the replica is the table of the pin
    have hall : r.read.items ++ page.items = snapshot row.units := hread.done hd
    have hreplica : (r.turn page).level = ⟨row.units.get,row.startSeq⟩ := by
      unfold PinReader.turn
      rw [hseq, hall]
      exact congrArg (Reader.mk · row.startSeq) (funext (find_snapshot hk))
    dsimp only
    rw [hreplica]
    exact ⟨h.going going,le_rfl⟩
  | changes done hc =>
    have hp := Store.changes_eq_ok hl hc
    refine ⟨h.reachable,h.kept,h.read,fun hg => ?_,fun _ => ?_⟩
    · exact absurd (done.symm.trans hg) nofun
    · obtain ⟨hin,hle⟩ := h.done done
      refine ⟨hin.page hret hl hp,hle.trans ?_⟩
      obtain he | ⟨he,-⟩ := hp.next
      · exact (Store.cursorAfter_of_follows hp.follows).trans he.ge
      · exact hp.within.trans he.ge

lemma createStatePin_pin {s : Store} {device : Device} {now : ℤ} {startSeq : ℕ} {t : Store}
    (fresh : s.statePins.get id = none)
    (h : s.createStatePin cr device id now = (.ok startSeq,t)) :
    startSeq = s.head.seq ∧ t.statePins.get id =
      some ⟨device.id,s.head.seq,now + Store.statePinLifetimeSeconds,s.units⟩ := by
  unfold Store.createStatePin at h
  split at h
  · cases h
  · cases h
    refine ⟨rfl,?_⟩
    change (Table.insertOrIgnore _ id _).get id = _
    rw [Table.get_insertOrIgnore, if_pos rfl]
    cases ho : (s.statePins.deleteWhere _).get id with
    | none => rfl
    | some row =>
      have hold := (Table.get_deleteWhere_eq_some.mp ho).1
      rw [fresh] at hold
      cases hold

lemma Reachable.pinned {s t : System} (h : Reachable cr texts s) {device : Device} {now : ℤ}
    {startSeq : ℕ} (fresh : s.store.statePins.get id = none)
    (pinned : s.exec cr (.createStatePin device id now) = (.pinned (.ok startSeq),t)) :
    startSeq = s.store.head.seq ∧ PinFollowed cr texts id
      ⟨device.id,s.store.head.seq,now + Store.statePinLifetimeSeconds,s.store.units⟩
      (t,.start) := by
  have ho : (Op.createStatePin device id now).texts ⊆ texts := Set.empty_subset _
  have hm := exec_cases h.pendingValid ho
  have hr := h.step (.op _ ho)
  rw [pinned] at hm hr
  have hcreated : s.store.createStatePin cr device id now = (.ok startSeq,t.store) := by
    simp only [System.exec] at pinned
    cases hc : s.store.createStatePin cr device id now with
    | mk answer store =>
      rw [hc] at pinned
      cases pinned
      rfl
  obtain ⟨hseq,hpin⟩ := createStatePin_pin fresh hcreated
  refine ⟨hseq,hr,fun row hrow => ?_,Walk.Covers.start _,fun _ => ?_,fun h => absurd h Bool.false_ne_true⟩
  · exact Option.some.inj (hrow.symm.trans hpin)
  · exact hm.inStep h.retirements h.ledger (.start h.retirements)

lemma PinFollowed.path (hk : Keyed pin.units) {x y : System × PinReader}
    (h : PinFollowed cr texts id pin x)
    (path : Relation.ReflTransGen (PinReading cr texts id) x y) :
    PinFollowed cr texts id pin y := by
  induction path with
  | refl => exact h
  | tail _ hst ih => exact ih.step hk hst

lemma PinFollowed.remaining (hk : Keyed pin.units) {x : System × PinReader}
    (h : PinFollowed cr texts id pin x) {k : UnitKey} {c : UnitChange}
    (hc : pin.units.get k = some c) : c ∈ x.2.read.items ∨
      x.2.read.finished = false ∧ ∀ d ∈ x.2.read.items, d.key.asStr < k.asStr := by
  have hkey := hk k c hc
  subst hkey
  exact h.read.remaining (ascending_snapshot hk) ((mem_snapshot hk).mpr hc)

lemma PinFollowed.answers (hk : Keyed pin.units) {u : System} {r : PinReader}
    (h : PinFollowed cr texts id pin (u,r)) (hs : u.store.Short)
    (hpin : u.store.statePins.get id = some pin) {device : Device} {limit : ℕ} {now : ℤ}
    (hid : validateId id = .ok ()) (h1 : 1 ≤ limit) (h2 : limit ≤ 1024)
    (hd : u.store.requireDevice cr device = .ok ()) (hown : pin.device = device.id)
    (hnow : now < pin.expires) :
    ∃ page, u.store.statePage cr device id r.read.after limit now = .ok page ∧
      page.startSeq = pin.startSeq ∧ (page.items ≠ [] ∨ page.nextKey = none) := by
  obtain ⟨page,hpage,-⟩ := Store.statePage_answers hs h1 h2 hd hid hpin hown hnow r.read.after
  obtain ⟨row,hrow,hseq,hp⟩ := Store.statePage_eq_ok hpage
  obtain rfl := h.kept row hrow
  exact ⟨page,hpage,hseq,(hp hk).moves⟩

end

/-- Reading a pin, whatever the server does meanwhile. What was read are the units of the moment
the pin was taken, the lowest keys first and each once, and all of them behind the last page. As
long as the pin is there, its device gets a next page, which brings units or is the last one, and
the journal is open behind the pin. A reader that followed the journal to its head holds the units
of the present. -/
theorem pinned_pages_are_a_snapshot {cr : Crates} (h64 : Base64Url cr) {texts : Set (List UInt8)}
    (typed : TypedPushes texts) {s t : System} (h : Reachable cr texts s) {device : Device}
    {id : String} {now : ℤ} {startSeq : ℕ} (fresh : s.store.statePins.get id = none)
    (pinned : s.exec cr (.createStatePin device id now) = (.pinned (.ok startSeq),t))
    {u : System} {r : PinReader}
    (path : Relation.ReflTransGen (PinReading cr texts id) (t,.start) (u,r)) :
    startSeq = s.store.head.seq ∧
    (r.read.items.Pairwise fun a b => a.key.asStr < b.key.asStr) ∧
    (∀ c ∈ r.read.items, s.store.units.get c.key = some c) ∧
    (∀ k c, s.store.units.get k = some c → c ∈ r.read.items ∨
      r.read.finished = false ∧ ∀ d ∈ r.read.items, d.key.asStr < k.asStr) ∧
    (u.store.statePins.contains id = true →
      (∀ limit current, validateId id = .ok () → 1 ≤ limit → limit ≤ 1024 →
        u.store.requireDevice cr device = .ok () →
        current < now + Store.statePinLifetimeSeconds → r.read.finished = false →
        ∃ page, u.store.statePage cr device id r.read.after limit current = .ok page ∧
          page.startSeq = startSeq ∧ (page.items ≠ [] ∨ page.nextKey = none)) ∧
      ∀ reader limit e, r.read.finished = true →
        u.store.changes cr reader r.level.cursor limit = .error e → e.code ≠ "journal-floor") ∧
    ∀ reader limit page, r.read.finished = true →
      u.store.changes cr reader r.level.cursor limit = .ok page →
      page.nextAfter = page.throughSeq →
      ∀ k, page.items.foldl applyItem r.level.replica k = u.store.units.get k := by
  obtain ⟨hseq,hstart⟩ := h.pinned fresh pinned
  have hk : Keyed s.store.units := h.retirements.keyed
  have hf := hstart.path hk path
  have hl := hf.reachable.ledger
  refine ⟨hseq,hf.read.ascending (ascending_snapshot hk),?_,?_,?_,?_⟩
  · exact fun c hc => (mem_snapshot hk).mp (hf.read.first.subset hc)
  · exact fun k c hc => hf.remaining hk hc
  · intro hthere
    obtain ⟨row,hrow⟩ := Table.contains_iff.mp hthere
    have hpin := hrow
    obtain rfl := hf.kept row hrow
    refine ⟨?_,fun reader limit e hdone he => ?_⟩
    · intro limit current hid h1 h2 hd hcurrent _
      rw [hseq]
      exact hf.answers hk (hf.reachable.short h64 typed) hpin hid h1 h2 hd rfl hcurrent
    · obtain ⟨hin,hle⟩ := hf.done hdone
      exact changes_of_floor_le ((hl.pinned id _ hpin).1.trans hle) hin.cursor he
  · intro reader limit page hdone hpage hfinal
    have hp := Store.changes_eq_ok hl hpage
    have hin := (hf.done hdone).1.page hf.reachable.retirements hl hp
    rw [hfinal, hp.through] at hin
    exact hin.level hl

/-- The sample library with a name, and a pin of it. -/
def sampleTaken : System :=
  (sampleNamed.exec sampleCrates (.createStatePin sampleDevice "pin-1" 1000)).2

/-- The character is deleted while the pin is read. -/
def sampleOverwritten : System :=
  System.run sampleCrates sampleTaken [.beginPush pushDeletion,.finishPush 1001]

/-- The name that the deletion took away is read from the pin, and the journal takes it away. -/
theorem pinned_pages_are_a_snapshot_named :
    sampleOverwritten.store.units.get sampleName = none ∧
      sampleOverwritten.store.statePage sampleCrates sampleDevice "pin-1" none 1 1002 =
        .ok ⟨"pin-1",1,[deletionAt sampleName 3],none⟩ ∧
      ∀ k, applyItem (fun k => [deletionAt sampleName 3].find? fun c => c.key = k) deletionItem k =
        sampleOverwritten.store.units.get k := by
  have gone : sampleOverwritten.store.units.get sampleName = none := by decide
  have fresh : sampleNamed.store.statePins.get "pin-1" = none := by decide
  have answer : (sampleNamed.store.createStatePin sampleCrates sampleDevice "pin-1" 1000).1 =
      .ok 1 := by decide
  have pinned : sampleNamed.exec sampleCrates (.createStatePin sampleDevice "pin-1" 1000) =
      (.pinned (.ok 1),sampleTaken) := Prod.ext (congrArg Output.pinned answer) rfl
  have page : sampleOverwritten.store.statePage sampleCrates sampleDevice "pin-1" none 1 1002 =
      .ok ⟨"pin-1",1,[deletionAt sampleName 3],none⟩ := by decide +kernel
  have changes : sampleOverwritten.store.changes sampleCrates sampleDevice 1 5 =
      .ok ⟨2,0,[deletionItem],2⟩ := by decide +kernel
  have hdeletion : (Op.beginPush pushDeletion).texts ⊆ sampleTexts :=
    texts_samplePushes (by simp)
  have path : Relation.ReflTransGen (PinReading sampleCrates sampleTexts "pin-1")
      (sampleTaken,.start)
      (sampleOverwritten,PinReader.start.turn ⟨"pin-1",1,[deletionAt sampleName 3],none⟩) :=
    ((Relation.ReflTransGen.single (.op (.beginPush pushDeletion) hdeletion nofun)).tail
      (.op (.finishPush 1001) (Set.empty_subset _) nofun)).tail (.page rfl page)
  obtain ⟨-,-,-,-,-,level⟩ := pinned_pages_are_a_snapshot base64Url_sample typed_sample
    reachable_sampleNamed fresh pinned path
  exact ⟨gone,page,level sampleDevice 5 _ rfl changes rfl⟩

/-- A page of more than 1024 units is refused, however few there are. -/
theorem long_state_pages_refused : Reachable sampleCrates sampleTexts sampleTaken ∧
    sampleTaken.store.statePins.contains "pin-1" = true ∧
    sampleTaken.store.requireDevice sampleCrates sampleDevice = .ok () ∧
    sampleTaken.store.statePage sampleCrates sampleDevice "pin-1" none 1025 1002 =
      .error (.new "invalid-limit" 400) := by
  refine ⟨reachable_sampleNamed.step (.op _ (Set.empty_subset _)),?_,?_,?_⟩
  · decide
  · decide
  · decide

end RisuNest.Server
