import RisuNest.Update.Layout

/-! Saving and removing: the parts that all phases of an install transaction share. -/
namespace RisuNest.Update
open Faulty Act InstallTransaction

variable {t₀ : Tree} {tx₀ : InstallTransaction}

lemma notLinked_eq_ok {t : Tree} {ps : List Path} : notLinked t ps = .ok () ↔
    ∀ p ∈ ps, ¬ (t.existsAt p = true ∧ t.isLink p = true) := require_eq_ok

lemma Derived.paths {tx : InstallTransaction} (h : Derived tx₀ tx) :
    tx.fileStates.map FileTransaction.path = tx₀.fileStates.map FileTransaction.path := by
  have hf := congrArg (List.map Prod.fst) h.files
  rwa [List.map_map, List.map_map] at hf

lemma Derived.origin {tx : InstallTransaction} (h : Derived tx₀ tx) {f : FileTransaction}
    (hf : f ∈ tx.fileStates) :
    ∃ g ∈ tx₀.fileStates, g.path = f.path ∧ g.desiredPresent = f.desiredPresent := by
  have hm : (f.path,f.desiredPresent) ∈ tx₀.fileStates.map fun f => (f.path,f.desiredPresent) := by
    rw [← h.files]
    exact List.mem_map.mpr ⟨f,hf,rfl⟩
  obtain ⟨g,hg,he⟩ := List.mem_map.mp hm
  exact ⟨g,hg,(Prod.mk.inj he).1,(Prod.mk.inj he).2⟩

lemma Derived.later {tx : InstallTransaction} (h : Derived tx₀ tx) {g : FileTransaction}
    (hg : g ∈ tx₀.fileStates) :
    ∃ f ∈ tx.fileStates, f.path = g.path ∧ f.desiredPresent = g.desiredPresent := by
  have hm : (g.path,g.desiredPresent) ∈ tx.fileStates.map fun f => (f.path,f.desiredPresent) := by
    rw [h.files]
    exact List.mem_map.mpr ⟨g,hg,rfl⟩
  obtain ⟨f,hf,he⟩ := List.mem_map.mp hm
  exact ⟨f,hf,(Prod.mk.inj he).1,(Prod.mk.inj he).2⟩

/-- What is right about the disk can be loaded. -/
theorem Sound.accepts (set : Setting t₀ tx₀) {t : Tree} (hb : Base t₀ tx₀ t)
    {tx : InstallTransaction} (h : Sound t₀ tx₀ t tx) : tx.accepts t tx₀.installPath = .ok () := by
  have hd := h.derived
  unfold InstallTransaction.accepts
  refine bind_eq_ok.mpr ⟨(),require_eq_ok.mpr ⟨hd.schema.trans set.schema,hd.install⟩,?_⟩
  rw [hd.install, hd.staged, hd.backup]
  refine bind_eq_ok.mpr ⟨(),set.staged,bind_eq_ok.mpr ⟨(),set.backup,?_⟩⟩
  refine bind_eq_ok.mpr ⟨(),require_eq_ok.mpr set.distinct,bind_eq_ok.mpr ⟨(),hb.unlinked,?_⟩⟩
  refine bind_eq_ok.mpr ⟨(),forM_eq_ok.mpr fun f hf => ?_,?_⟩
  · obtain ⟨g,hg,hp,-⟩ := hd.origin hf
    refine bind_eq_ok.mpr ⟨(),require_eq_ok.mpr (hp ▸ set.relative g hg),?_⟩
    exact require_eq_ok.mpr (h.consistent f hf)
  · refine bind_eq_ok.mpr ⟨(),require_eq_ok.mpr (hd.paths ▸ set.nodup),?_⟩
    rw [hd.kind]
    refine bind_eq_ok.mpr ⟨(),require_eq_ok.mpr ?_,require_eq_ok.mpr h.directory⟩
    rintro ⟨hk,hi⟩
    obtain ⟨h1,h2⟩ := h.files hk
    rw [h1, h2] at hi
    simp at hi

/-! ### Single steps -/

section
variable {sure : Prop} {w : World}

lemma leaves_atomic_of {check : World → Bool} {e : String} {f : World → World}
    {Q : Unit → World → Prop} {E : World → Prop} (hw : E w) (hsafe : Safe t₀ tx₀ w)
    (hf : check w = true → Q () (f w) ∧ E (f w) ∧ Safe t₀ tx₀ (f w))
    (hn : check w = false → ¬ sure) : Leaves (Safe t₀ tx₀) sure (atomic check e f) Q E w := by
  refine Leaves.step (fun hok => (hf (require_eq_ok.mp hok)).1) (fun hok k => ?_) fun e' he => ?_
  · have h := (hf (require_eq_ok.mp hok)).2
    split_ifs
    · exact h
    · exact ⟨hw,hsafe⟩
  · exact ⟨hw,hsafe,hn (Bool.eq_false_iff.mpr (require_eq_error.mp he).1)⟩

lemma leaves_atomic {check : World → Bool} {e : String} {f : World → World}
    {Q : Unit → World → Prop} (hw : Held t₀ tx₀ w)
    (hf : check w = true → Q () (f w) ∧ Held t₀ tx₀ (f w)) (hn : check w = false → ¬ sure) :
    Leaves (Safe t₀ tx₀) sure (atomic check e f) Q (Held t₀ tx₀) w :=
  leaves_atomic_of hw hw.safe (fun hc => ⟨(hf hc).1,(hf hc).2,(hf hc).2.safe⟩) hn

lemma leaves_call_of {e : String} {Q : Unit → World → Prop} {E : World → Prop} (hw : E w)
    (hsafe : Safe t₀ tx₀ w) (hq : Q () w) : Leaves (Safe t₀ tx₀) sure (call e) Q E w :=
  leaves_atomic_of hw hsafe (fun _ => ⟨hq,hw,hsafe⟩) fun h => nomatch h

lemma leaves_call {e : String} {Q : Unit → World → Prop} (hw : Held t₀ tx₀ w) (hq : Q () w) :
    Leaves (Safe t₀ tx₀) sure (call e) Q (Held t₀ tx₀) w :=
  leaves_call_of hw hw.safe hq

/-- The disk after the transaction in hand was saved. -/
def saved (w : World) : World :=
  { w with
    stored := some w.hand
    completed := w.completed || decide (w.hand.phase = .completed) }

lemma held_saved (hw : Held t₀ tx₀ w) (hs : Sound t₀ tx₀ w.tree w.hand) :
    Held t₀ tx₀ (saved w) := by
  have hc : (saved w).completed = true ↔ w.hand.phase = .completed := by
    change (w.completed || decide (w.hand.phase = .completed)) = true ↔ _
    rw [Bool.or_eq_true, decide_eq_true_eq]
    exact ⟨fun h => h.elim hw.completed id,.inr⟩
  refine ⟨⟨hw.safe.base,?_,fun h => nomatch h⟩,hw.derived,.inr hs,hc.mp,?_⟩
  · intro tx htx
    obtain rfl := Option.some.inj htx
    exact ⟨hs,hc⟩
  · intro hp tx htx
    obtain rfl := Option.some.inj htx
    exact hp

lemma leaves_save (set : Setting t₀ tx₀) {Q : Unit → World → Prop} (hw : Held t₀ tx₀ w)
    (hs : Sound t₀ tx₀ w.tree w.hand) (hq : Q () (saved w)) :
    Leaves (Safe t₀ tx₀) sure save Q (Held t₀ tx₀) w := by
  refine Leaves.bind (Leaves.look ?_)
  refine Leaves.bind (Leaves.demand (fun _ => ?_) fun hn => ?_)
  · exact leaves_atomic hw (fun _ => ⟨hq,held_saved hw hs⟩) fun h => nomatch h
  · exact absurd (hs.derived.schema.trans set.schema) hn

lemma Safe.anyHand (h : Safe t₀ tx₀ w) (tx : InstallTransaction) :
    Safe t₀ tx₀ { w with hand := tx } := ⟨h.base,h.stored,h.gone⟩

def World.held (w : World) (f : InstallTransaction → InstallTransaction) : World :=
  { w with hand := f w.hand }

lemma leaves_enter (set : Setting t₀ tx₀) {phase : TransactionPhase} {Q : Unit → World → Prop}
    (hw : Held t₀ tx₀ w) (hs : Sound t₀ tx₀ w.tree { w.hand with phase })
    (hc : w.completed = true → phase = .completed)
    (hp : phase = .prepared → ∀ tx, w.stored = some tx → tx.phase = .prepared)
    (hq : Q () (saved (w.held fun tx => { tx with phase }))) :
    Leaves (Safe t₀ tx₀) sure (enter phase) Q (Held t₀ tx₀) w := by
  refine Leaves.bind (Leaves.modify ?_)
  exact leaves_save set ⟨hw.safe.anyHand _,hs.derived,.inr hs,hc,hp⟩ hs hq

end

/-! ### Removing the stage and the backup -/

/-- A tree after something beneath the stage or the backup was removed. -/
structure Pruned (tx₀ : InstallTransaction) (t t' : Tree) : Prop where
  same : ∀ p, ¬ tx₀.stagedPath <+: p → ¬ tx₀.backupPath <+: p → t'.get p = t.get p
  less : ∀ p, t'.get p = none ∨ t'.get p = t.get p

lemma Setting.length_staged (set : Setting t₀ tx₀) :
    tx₀.installPath.length = tx₀.stagedPath.length := by
  obtain ⟨h1,h2,h3,-⟩ := require_eq_ok.mp set.staged
  have := congrArg List.length h3
  rw [List.length_dropLast, List.length_dropLast] at this
  have := List.length_pos_iff.mpr h1
  have := List.length_pos_iff.mpr h2
  omega

lemma Setting.length_backup (set : Setting t₀ tx₀) :
    tx₀.installPath.length = tx₀.backupPath.length := by
  obtain ⟨h1,h2,h3,-⟩ := require_eq_ok.mp set.backup
  have := congrArg List.length h3
  rw [List.length_dropLast, List.length_dropLast] at this
  have := List.length_pos_iff.mpr h1
  have := List.length_pos_iff.mpr h2
  omega

lemma Setting.not_staged (set : Setting t₀ tx₀) (p : Path) : ¬ tx₀.stagedPath <+: tx₀.target p :=
  fun h => set.distinct.1 (prefix_append_of_length set.length_staged.symm h).symm

lemma Setting.not_backup (set : Setting t₀ tx₀) (p : Path) : ¬ tx₀.backupPath <+: tx₀.target p :=
  fun h => set.distinct.2.1 (prefix_append_of_length set.length_backup.symm h).symm

lemma Pruned.target (set : Setting t₀ tx₀) {t t' : Tree} (h : Pruned tx₀ t t') (p : Path) :
    t'.get (tx₀.target p) = t.get (tx₀.target p) :=
  h.same _ (set.not_staged p) (set.not_backup p)

lemma Pruned.live {t t' : Tree} (h : Pruned tx₀ t t') {p : Path}
    (hp : t'.existsAt p = true ∧ t'.isLink p = true) : t.existsAt p = true ∧ t.isLink p = true := by
  obtain hn | he := h.less p
  · unfold Tree.existsAt at hp
    rw [hn] at hp
    exact nomatch hp.1
  · unfold Tree.existsAt Tree.isLink at hp ⊢
    rwa [he] at hp

lemma Base.pruned {t t' : Tree} (hb : Base t₀ tx₀ t) (h : Pruned tx₀ t t') :
    Base t₀ tx₀ t' := by
  refine ⟨fun p h1 h2 h3 => ?_,notLinked_eq_ok.mpr fun p hp hl => ?_,fun p => ?_⟩
  · rw [h.same p h1 h2]
    exact hb.kept p h1 h2 h3
  · exact notLinked_eq_ok.mp hb.unlinked p hp (h.live hl)
  · have hp := hb.plain p
    unfold Tree.isLink at hp ⊢
    obtain hn | he := h.less (tx₀.backup p)
    · rw [hn]
    · rwa [he]

lemma Old.pruned (set : Setting t₀ tx₀) {t t' : Tree} (ho : Old t₀ tx₀ t)
    (h : Pruned tx₀ t t') : Old t₀ tx₀ t' := by
  unfold Old at ho ⊢
  split at ho
  · exact fun f hf => (h.target set _).trans (ho f hf)
  · exact fun p => (h.target set _).trans (ho p)

lemma New.pruned (set : Setting t₀ tx₀) {t t' : Tree} (hn : New t₀ tx₀ t)
    (h : Pruned tx₀ t t') : New t₀ tx₀ t' := by
  unfold New at hn ⊢
  split at hn
  · intro f hf
    have hf := hn f hf
    unfold Placed Tree.isRegular at hf ⊢
    rwa [h.target set]
  · exact fun p => (h.target set _).trans (hn p)

/-- Phases in which neither the stage nor the backup is needed any more. -/
def Ended (phase : TransactionPhase) : Prop :=
  phase = .prepared ∨ phase = .completed ∨ phase = .rolledBack

lemma Sound.pruned (set : Setting t₀ tx₀) {t t' : Tree} {tx : InstallTransaction}
    (hs : Sound t₀ tx₀ t tx) (he : Ended tx.phase) (h : Pruned tx₀ t t') :
    Sound t₀ tx₀ t' tx := by
  refine ⟨hs.derived,hs.consistent,hs.files,hs.directory,?_⟩
  have hp := hs.phased
  unfold Phased at hp ⊢
  obtain he | he | he := he
  · rw [he] at hp ⊢
    exact ⟨hp.1.pruned set h,hp.2⟩
  · rw [he] at hp ⊢
    exact New.pruned set hp h
  · rw [he] at hp ⊢
    refine ⟨hp.1.pruned set h,hp.2.1,fun hk => ⟨(hp.2.2 hk).1,?_⟩⟩
    obtain hn | he' := h.less tx₀.stagedPath
    · exact .inl hn
    · rw [he']
      exact (hp.2.2 hk).2

/-- The transaction is over, on the disk and in hand. -/
structure Over (t₀ : Tree) (tx₀ : InstallTransaction) (w : World) : Prop where
  held : Held t₀ tx₀ w
  hand : Ended w.hand.phase
  stored : ∀ tx, w.stored = some tx → Ended tx.phase

lemma Over.pruned (set : Setting t₀ tx₀) {w : World} {t' : Tree} (h : Over t₀ tx₀ w)
    (hp : Pruned tx₀ w.tree t') :
    Over t₀ tx₀ { w with tree := t' } := by
  have hh := h.held
  refine ⟨⟨⟨hh.safe.base.pruned hp,fun tx htx => ?_,fun hn => ?_⟩,hh.derived,?_,hh.completed,
    hh.prepared⟩,h.hand,h.stored⟩
  · obtain ⟨hs,hc⟩ := hh.safe.stored tx htx
    exact ⟨hs.pruned set (h.stored tx htx) hp,hc⟩
  · have hg := hh.safe.gone hn
    dsimp only
    split_ifs at hg ⊢
    · exact hg.pruned set hp
    · exact hg.pruned set hp
  · exact hh.hand.imp id fun hs => hs.pruned set h.hand hp

lemma pruned_prune {t : Tree} {p : Path} (hp : p ∈ [tx₀.stagedPath,tx₀.backupPath])
    (gone : Path → Bool) : Pruned tx₀ t (t.prune p gone) := by
  refine ⟨fun q h1 h2 => ?_,fun q => ?_⟩
  · rw [Tree.get_prune, if_neg]
    rintro ⟨hq,-⟩
    simp only [List.mem_cons, List.not_mem_nil, or_false] at hp
    obtain rfl | rfl := hp
    · exact h1 hq
    · exact h2 hq
  · rw [Tree.get_prune]
    split_ifs
    · exact .inl rfl
    · exact .inr rfl

lemma pruned_erase {t : Tree} {p : Path} (hp : p ∈ [tx₀.stagedPath,tx₀.backupPath]) :
    Pruned tx₀ t (t.erase p) := by
  refine ⟨fun q h1 h2 => ?_,fun q => ?_⟩
  · rw [Table.get_erase, if_neg]
    rintro rfl
    simp only [List.mem_cons, List.not_mem_nil, or_false] at hp
    obtain rfl | rfl := hp
    · exact h1 List.prefix_rfl
    · exact h2 List.prefix_rfl
  · rw [Table.get_erase]
    split_ifs
    · exact .inl rfl
    · exact .inr rfl

lemma contains_of_existsAt {t : Tree} {p : Path} (h : t.existsAt p = true) :
    t.contains p = true := by
  unfold Tree.existsAt at h
  rw [Table.contains]
  cases hp : t.get p with
  | none =>
    rw [hp] at h
    cases h
  | some n => rfl

/-- A world with another tree, and everything else the same. -/
def Later (w w' : World) : Prop :=
  w'.hand = w.hand ∧ w'.stored = w.stored ∧ w'.completed = w.completed

section
variable {sure : Prop} {w : World}

lemma leaves_remove (set : Setting t₀ tx₀) {p : Path} (hp : p ∈ [tx₀.stagedPath,tx₀.backupPath])
    {e : String} (hw : Over t₀ tx₀ w) (he : w.tree.existsAt p = true) :
    Leaves (Safe t₀ tx₀) sure (remove p e)
      (fun _ w' => Over t₀ tx₀ w' ∧ Later w w')
      (fun w' => Over t₀ tx₀ w' ∧ Later w w') w := by
  have hcontains := contains_of_existsAt he
  have hcall {u : World} (hu : Over t₀ tx₀ u ∧ Later w u) :
      Leaves (Safe t₀ tx₀) sure (call e : Act Unit) (fun _ w' => Over t₀ tx₀ w' ∧ Later w w')
        (fun w' => Over t₀ tx₀ w' ∧ Later w w') u := leaves_call_of hu hu.1.held.safe hu
  have hprune (gone : Path → Bool) : Over t₀ tx₀
      { w with tree := w.tree.prune p gone } := hw.pruned set (pruned_prune hp gone)
  refine Leaves.bind (Leaves.look ?_)
  refine Leaves.ite (fun _ => Leaves.bind ?_) fun hd => Leaves.bind ?_
  · refine Leaves.step (fun _ => hcall ⟨hprune _,rfl,rfl,rfl⟩) (fun _ k => ?_) fun _ h => ?_
    · exact ⟨⟨hprune k.gone,rfl,rfl,rfl⟩,(hprune k.gone).held.safe⟩
    · exact absurd hcontains (require_eq_error.mp h).1
  · have herase : Over t₀ tx₀ { w with tree := w.tree.erase p } :=
      hw.pruned set (pruned_erase hp)
    refine Leaves.step (fun _ => hcall ⟨herase,rfl,rfl,rfl⟩) (fun _ k => ?_) fun _ h => ?_
    · split_ifs
      · exact ⟨⟨herase,rfl,rfl,rfl⟩,herase.held.safe⟩
      · exact ⟨⟨hw,rfl,rfl,rfl⟩,hw.held.safe⟩
    · refine absurd ?_ (require_eq_error.mp h).1
      simp [hcontains, hd]

end
end RisuNest.Update
