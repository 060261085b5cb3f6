import RisuNest.Server.Ledger
import RisuNest.Server.Retired
import RisuNest.Wire.Head

/-! Reachable stores have heads and format levels that an opening accepts. -/
namespace RisuNest.Server
open Wire

namespace Store
variable {cr : Crates} {s t : Store} {p : Pending} {created : ℤ}

lemma applyWinners_head {seq seq' : ℕ} {won : List UnitChange}
    (h : s.applyWinners seq created won = .ok (t,seq')) (hs : seq < 2^64) :
    t.head = s.head ∧ seq' < 2^64 := by
  induction won generalizing s seq with
  | nil =>
    obtain ⟨rfl,rfl⟩ := Prod.mk.inj (Except.ok.inj h)
    exact ⟨rfl,hs⟩
  | cons c cs ih =>
    rw [applyWinners] at h
    obtain ⟨_,hb,h⟩ := bind_eq_ok.mp h
    obtain ⟨ps,-,h⟩ := bind_eq_ok.mp h
    obtain ⟨hh,hq⟩ := ih h (require_eq_ok.mp hb)
    refine ⟨hh.trans ?_,hq⟩
    rw [applyWinner_frame]

/-- A head keeps its id or gets a hash, and its sequence number stays within its type. -/
def HeadMoves (cr : Crates) (s t : Store) : Prop :=
  (t.head.headId = s.head.headId ∨ ∃ bytes, t.head.headId = cr.sha256 bytes) ∧
    (s.head.seq < 2^64 → t.head.seq < 2^64)

lemma HeadMoves.of_eq (h : t.head = s.head) : HeadMoves cr s t := by
  unfold HeadMoves
  rw [h]
  exact ⟨.inl rfl,id⟩

lemma accept_headMoves {won : List UnitChange} {receipt : PushReceipt}
    (h : s.accept cr p created won = .ok (receipt,t)) : HeadMoves cr s t := by
  obtain ⟨s1,h1,h⟩ := bind_eq_ok.mp h
  obtain ⟨⟨s2,seq⟩,h2,h⟩ := bind_eq_ok.mp h
  have hh1 : s1.head = s.head := by rw [(recordVersions_eq_ok h1).2]
  obtain ⟨-,rfl⟩ := Prod.mk.inj (Except.ok.inj h)
  constructor
  · change (if won = [] then s2.head.headId else nextHeadId cr s2.head.headId p.digest seq) =
      s.head.headId ∨ ∃ bytes, (if won = [] then s2.head.headId
        else nextHeadId cr s2.head.headId p.digest seq) = cr.sha256 bytes
    by_cases hw : won = []
    · subst won
      obtain ⟨rfl,-⟩ := Prod.mk.inj (Except.ok.inj h2)
      rw [if_pos rfl,hh1]
      exact .inl rfl
    · rw [if_neg hw]
      exact .inr ⟨_,rfl⟩
  · intro hs
    exact (applyWinners_head h2 (by rwa [hh1])).2

lemma finishPush_headMoves : HeadMoves cr s (s.finishPush cr p created).2 := by
  unfold finishPush
  dsimp only
  split
  · exact .of_eq rfl
  · exact .of_eq rfl
  · split
    · exact .of_eq rfl
    · split
      · exact .of_eq rfl
      · split
        · split
          · exact .of_eq rfl
          · exact .of_eq rfl
        · split
          · exact .of_eq rfl
          · next h => exact accept_headMoves h

end Store

/-- What an opening asks of the store: that its head and its format level can be read. -/
structure Openable (cr : Crates) (s : Store) : Prop where
  headId : ∃ bytes, s.head.headId = cr.sha256 bytes
  seq : s.head.seq < 2^64
  format : ∀ c, s.units.get formatKey = some c → ∃ level, LibraryFormat.level cr c.value = some level

lemma Openable.storedFormat {cr : Crates} {s : Store} (h : Openable cr s) :
    ∃ level, s.storedFormat cr = .ok level := by
  unfold Store.storedFormat
  cases hu : s.units.get formatKey with
  | none => exact ⟨1,rfl⟩
  | some c =>
    obtain ⟨level,hl⟩ := h.format c hu
    exact ⟨level,by simp [hl]⟩

lemma Moved.format {cr : Crates} {texts : Set (List UInt8)} {o : Option Op} {s t : System}
    (hm : Moved cr texts o s t)
    (h : ∀ c, s.store.units.get formatKey = some c →
      ∃ level, LibraryFormat.level cr c.value = some level) :
    ∀ c, t.store.units.get formatKey = some c →
      ∃ level, LibraryFormat.level cr c.value = some level := by
  intro c hc
  cases hm with
  | quiet hq => exact h c (by rwa [hq.units] at hc)
  | prepared _ _ _ _ _ _ hf => exact h c (by rwa [hf] at hc)
  | @accepted p created level won receipt _ _ _ _ _ _ ha =>
    by_cases hk : formatKey ∈ won.map UnitChange.key
    · obtain ⟨d,hd,hdk⟩ := List.mem_map.mp hk
      have hu := ha.applied.unit d hd
      rw [hdk,hc] at hu
      obtain rfl := Option.some.inj hu
      rw [ha.won_eq] at hd
      obtain ⟨hmem,-⟩ := List.mem_filter.mp hd
      have hj := (ha.judged c hmem).format (isKey_iff.mpr hdk)
      unfold raisesLevel at hj
      split at hj
      · contradiction
      · split at hj
        · contradiction
        · next level hl => exact ⟨level,(Option.filter_eq_some_iff.mp hl).1⟩
    · by_cases hd : Store.Dropped s.store won formatKey
      · rw [(ha.applied.dropped _ hk hd).1] at hc
        contradiction
      · rw [(ha.applied.kept _ hk hd).1] at hc
        exact h c hc
  | pruned _ _ _ hp => exact h c (by rwa [hp] at hc)
  | rotated _ _ hr => exact h c (by rwa [hr] at hc)

lemma exec_headMoves (cr : Crates) (s : System) (o : Op) :
    Store.HeadMoves cr s.store (s.exec cr o).2.store := by
  cases o with
  | beginPush call =>
    simp only [System.exec]
    split
    · exact .of_eq rfl
    · have hb : (s.store.beginPush cr call).2.head = s.store.head := by
        unfold Store.beginPush
        dsimp only
        split
        · rfl
        · rfl
        · split
          · rfl
          · have hf : (s.store.prepareChanges cr .empty call.request.changes).2 = _ :=
              Store.prepareChanges_frame s.store .empty call.request.changes
            change (s.store.prepareDescriptors cr call.request.changes).2.head = _
            unfold Store.prepareDescriptors
            rw [hf]
      split <;> next h => exact .of_eq (by rw [← hb,h])
  | finishPush created =>
    simp only [System.exec]
    split
    · exact .of_eq rfl
    · exact Store.finishPush_headMoves
  | cancelOperation device id bodyDigest clock created =>
    exact .of_eq (Store.cancelOperation_quiet ..).head
  | changes device after limit => exact .of_eq rfl
  | createStatePin device id now => exact .of_eq (Store.createStatePin_quiet ..).head
  | releaseStatePin device pin => exact .of_eq (Store.releaseStatePin_quiet ..).head
  | acknowledge device seq now => exact .of_eq (Store.acknowledge_quiet ..).head
  | maintain current clock =>
    simp only [System.exec]
    split
    · exact .of_eq rfl
    · unfold Store.maintainAt
      dsimp only
      split
      · exact .of_eq rfl
      · exact ⟨.inl rfl,id⟩
  | addDevice id => exact .of_eq rfl
  | revokeDevice id => exact .of_eq (Store.revokeDevice_quiet ..).head
  | putObject device digest bytes now => exact .of_eq (Store.putObject_quiet ..).head
  | pinObjects device hashes now => exact .of_eq (Store.pinObjects_quiet ..).head
  | rotateRestoredEpoch epoch =>
    simp only [System.exec]
    split
    · exact .of_eq rfl
    · exact ⟨.inr ⟨_,rfl⟩,id⟩
  | restart => exact .of_eq rfl

theorem Reachable.openable {cr : Crates} {texts : Set (List UInt8)} {s : System}
    (h : Reachable cr texts s) : Openable cr s.store := by
  have hformat := (Reachable.invariant
    (I := fun s => ∀ c, s.store.units.get formatKey = some c →
      ∃ level, LibraryFormat.level cr c.value = some level)
    (fun libraryId epoch c hc => by cases hc) (fun _ _ _ _ hi hm => hm.format hi) h).2
  have hhead : (∃ bytes, s.store.head.headId = cr.sha256 bytes) ∧ s.store.head.seq < 2^64 := by
    refine Reachable.induct
      (I := fun s => (∃ bytes, s.store.head.headId = cr.sha256 bytes) ∧ s.store.head.seq < 2^64)
      ?_ ?_ h
    · exact fun libraryId epoch => ⟨⟨_,rfl⟩,Nat.two_pow_pos 64⟩
    · rintro s t ⟨⟨bytes,hb⟩,hs⟩ hst
      have hm : Store.HeadMoves cr s.store t.store := by
        cases hst with
        | op o _ => exact exec_headMoves cr s o
        | frame hf => exact .of_eq hf.head
      refine ⟨?_,hm.2 hs⟩
      rcases hm.1 with he | he
      · exact ⟨bytes,he.trans hb⟩
      · exact he
  exact ⟨hhead.1,hhead.2,hformat⟩

end RisuNest.Server
