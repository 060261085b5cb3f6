import RisuNest.Server.Convergence
import RisuNest.Server.Paging

/-! What a push was told to be accepted stays in the units (`lww.rs`, `maintenance.rs`). -/
namespace RisuNest.Server
open Wire

lemma Moved.reflects {cr : Crates} {texts : Set (List UInt8)} {o : Option Op} {s t : System}
    (free : CollisionFree cr texts) (hs : Reachable cr texts s) (hm : Moved cr texts o s t)
    {c : UnitChange} (hf : c.key ≠ formatKey) (hc : Reflects s.store c) : Reflects t.store c := by
  cases hm with
  | quiet hq => exact hc.congr hq.units hq.retired
  | prepared _ _ _ _ _ _ hframe =>
    rw [hframe]
    exact hc.congr rfl rfl
  | accepted hp _ _ _ _ _ ha =>
    exact ha.reflects_mono hs.retirements free (hs.reflection free).known
      (hs.pendingValid _ hp).2 hf hc
  | pruned _ _ _ hp =>
    rw [hp]
    exact hc.congr rfl rfl
  | rotated _ _ he =>
    rw [he]
    exact hc.congr rfl rfl

/-- No accepted change is lost. When the server remembers that it accepted a request, then from
there on, also when that is forgotten, every change of the request is held or a newer version of its
key is, and a change that is no retirement may instead lie at or below a retired key. -/
theorem accepted_changes_are_kept {cr : Crates} {texts : Set (List UInt8)}
    (free : CollisionFree cr texts) {s t : System} (h : Reachable cr texts s)
    {k : String × String} {row : OperationRow} (hk : s.store.operations.get k = some row)
    {digest : String} {receipt : PushReceipt} (hr : row.receipt = .accepted digest receipt)
    (later : Relation.ReflTransGen (Step cr texts) s t) :
    ∃ r : PushRequest, r.digest cr = digest ∧ ∀ c ∈ r.changes, c.key ≠ formatKey →
      (∃ w, t.store.units.get c.key = some w ∧ (c.stamp < w.stamp ∨ c = w)) ∨
      isRetirement c = false ∧ (t.store.retired.contains c.key = true ∨
        ∃ q, IsParent q c.key ∧ t.store.retired.contains q = true) := by
  obtain ⟨r,hdigest,-,-,hc⟩ := (h.reflection free).reflected k row digest receipt hk hr
  refine ⟨r,hdigest,fun c hm hf => ?_⟩
  have hkept : Reflects t.store c :=
    (h.run_induct (hc c hm hf) (fun _ _ _ hu hi hm => hm.reflects free hu hf hi) later).2
  cases hcr : isRetirement c with
  | true =>
    obtain ⟨w,hw,-,hle⟩ := hkept.1 hcr
    exact .inl ⟨w,hw,hle⟩
  | false =>
    obtain hself | hparent | hheld := hkept.2 hcr
    · exact .inr ⟨rfl,.inl hself⟩
    · exact .inr ⟨rfl,.inr hparent⟩
    · exact .inl hheld

/-- A name goes when its character is deleted. -/
theorem accepted_changes_are_kept_named : ∃ r : PushRequest,
    r.digest sampleCrates = pushName.request.digest sampleCrates ∧
      ∀ c ∈ r.changes, c.key ≠ formatKey → sampleGone.store.units.get c.key = none →
        ∃ k, sampleGone.store.retired.contains k = true := by
  have accepted : sampleNamed.store.operations.get ("device-a","op-1") =
      some ⟨.accepted (pushName.request.digest sampleCrates) ⟨"op-1",1,[sampleName],100⟩,none,
        none,0⟩ := by decide +kernel
  obtain ⟨r,hr,hc⟩ := accepted_changes_are_kept collisionFree_sample reachable_sampleNamed accepted
    rfl ((Relation.ReflTransGen.single (.op (.beginPush pushDeletion)
      (texts_samplePushes (by simp)))).tail (.op (.finishPush 0) (Set.empty_subset _)))
  refine ⟨r,hr,fun c hm hf hnone => ?_⟩
  obtain ⟨w,hw,-⟩ | ⟨-,hself | ⟨q,-,hq⟩⟩ := hc c hm hf
  · cases hnone.symm.trans hw
  · exact ⟨_,hself⟩
  · exact ⟨q,hq⟩

end RisuNest.Server
