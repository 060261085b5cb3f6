import RisuNest.Update.Saves

/-! The ends of an install transaction: it is completed, cancelled before it began, or discarded
after a rollback. -/
namespace RisuNest.Update
open Faulty Act InstallTransaction

variable {t₀ : Tree} {tx₀ : InstallTransaction} {sure : Prop} {w : World}

lemma Later.trans {u v : World} (h : Later w u) (h' : Later u v) : Later w v :=
  ⟨h'.1.trans h.1,h'.2.1.trans h.2.1,h'.2.2.trans h.2.2⟩

lemma leaves_discardOne (set : Setting t₀ tx₀) {p : Path}
    (hp : p ∈ [tx₀.stagedPath,tx₀.backupPath]) {e : String}
    (hw : Over t₀ tx₀ w) :
    Leaves (Safe t₀ tx₀) sure (do if ← look (·.tree.existsAt p) then remove p e : Act Unit)
      (fun _ w' => Over t₀ tx₀ w' ∧ Later w w')
      (fun w' => Over t₀ tx₀ w' ∧ Later w w') w := by
  refine Leaves.bind (Leaves.look ?_)
  exact Leaves.ite (fun he => leaves_remove set hp hw he) fun _ => Leaves.pure ⟨hw,rfl,rfl,rfl⟩

lemma leaves_discard (set : Setting t₀ tx₀) (hw : Over t₀ tx₀ w) :
    Leaves (Safe t₀ tx₀) sure (discard [tx₀.stagedPath,tx₀.backupPath])
      (fun _ w' => Over t₀ tx₀ w' ∧ Later w w')
      (fun w' => Over t₀ tx₀ w' ∧ Later w w') w := by
  refine Leaves.forM (fun _ w' => Over t₀ tx₀ w' ∧ Later w w') ?_
    ⟨hw,rfl,rfl,rfl⟩
  intro done p rest u hl hu
  have hp : p ∈ [tx₀.stagedPath,tx₀.backupPath] := by
    rw [hl]
    simp
  refine (leaves_discardOne set hp hu.1).mono ?_ ?_
  · exact fun _ v hv => ⟨hv.1,hu.2.trans hv.2⟩
  · exact fun v hv => ⟨hv.1,hu.2.trans hv.2⟩

lemma leaves_removeState {Q : Unit → World → Prop} (hw : Over t₀ tx₀ w)
    (hs : sure → w.stored.isSome = true)
    (hq : Held t₀ tx₀ { w with stored := none } → Q () { w with stored := none }) :
    Leaves (Safe t₀ tx₀) sure removeState Q (Held t₀ tx₀) w := by
  have hh := hw.held
  have hgone (hc : w.stored.isSome = true) : Held t₀ tx₀ { w with stored := none } := by
    obtain ⟨tx,htx⟩ := Option.isSome_iff_exists.mp hc
    obtain ⟨hsound,hc⟩ := hh.safe.stored tx htx
    refine ⟨⟨hh.safe.base,(fun _ h => nomatch h),fun _ => ?_⟩,hh.derived,hh.hand,hh.completed,
      fun _ _ h => nomatch h⟩
    have hp := hsound.phased
    unfold Phased at hp
    dsimp only
    obtain he | he | he := hw.stored tx htx
    · rw [he] at hp
      rw [if_neg fun h => by rw [hc, he] at h; cases h]
      exact hp.1
    · rw [he] at hp
      rw [if_pos (hc.mpr he)]
      exact hp
    · rw [he] at hp
      rw [if_neg fun h => by rw [hc, he] at h; cases h]
      exact hp.1
  refine Leaves.bind (leaves_atomic hh (fun hc => ⟨?_,hgone hc⟩) fun h hsure => ?_)
  · exact leaves_call (hgone hc) (hq (hgone hc))
  · rw [hs hsure] at h
    cases h

/-- The transaction in hand is the one on the disk, and it is over. -/
structure Closing (t₀ : Tree) (tx₀ : InstallTransaction) (phase : TransactionPhase) (w : World) :
    Prop where
  held : Held t₀ tx₀ w
  hand : w.hand.phase = phase
  stored : ∀ tx, w.stored = some tx → tx.phase = phase

lemma Closing.over {phase : TransactionPhase} (h : Closing t₀ tx₀ phase w)
    (he : Ended phase) : Over t₀ tx₀ w :=
  ⟨h.held,h.hand ▸ he,fun tx htx => (h.stored tx htx).symm ▸ he⟩

lemma leaves_discarded (set : Setting t₀ tx₀) {phase : TransactionPhase} (he : Ended phase)
    (hw : Held t₀ tx₀ w)
    (hs : w.hand.phase = phase → ∀ tx, w.stored = some tx → tx.phase = phase)
    (hj : sure → w.hand.phase = phase ∧ w.stored.isSome = true) :
    Leaves (Safe t₀ tx₀) sure (do
        let tx ← look (·.hand)
        demand (tx.phase = phase) "update-transaction-invalid"
        discard [tx.stagedPath,tx.backupPath]
        removeState : Act Unit)
      (fun _ w' => Held t₀ tx₀ w' ∧ w'.stored = none ∧ w'.completed = w.completed)
      (Held t₀ tx₀) w := by
  refine Leaves.bind (Leaves.look ?_)
  refine Leaves.bind (Leaves.demand (fun hp => ?_) fun hn => ⟨hw,fun h => hn (hj h).1⟩)
  have hc : Closing t₀ tx₀ phase w := ⟨hw,hp,hs hp⟩
  rw [hw.derived.staged, hw.derived.backup]
  refine Leaves.bind ((leaves_discard set (hc.over he)).mono ?_ fun v hv => hv.1.held)
  rintro - u ⟨hu,hl⟩
  exact leaves_removeState hu (fun h => hl.2.1 ▸ (hj h).2) fun h => ⟨h,rfl,hl.2.2⟩

lemma leaves_discardRolledBack (set : Setting t₀ tx₀) (hw : Held t₀ tx₀ w)
    (hs : w.stored = some w.hand) (hj : sure → w.hand.phase = .rolledBack) :
    Leaves (Safe t₀ tx₀) sure discardRolledBack
      (fun _ w' => Held t₀ tx₀ w' ∧ w'.stored = none ∧ w'.completed = w.completed)
      (Held t₀ tx₀) w :=
  leaves_discarded set (.inr (.inr rfl)) hw
    (fun hp tx htx => Option.some.inj (hs.symm.trans htx) ▸ hp) fun h => ⟨hj h,by rw [hs]; rfl⟩

lemma leaves_cancelPrepared (set : Setting t₀ tx₀) (hw : Held t₀ tx₀ w) :
    Leaves (Safe t₀ tx₀) False cancelPrepared (fun _ => Held t₀ tx₀) (Held t₀ tx₀) w :=
  (leaves_discarded set (.inl rfl) hw hw.prepared False.elim).mono (fun _ _ h => h.1) fun _ => id

/-! ### Completing -/

lemma leaves_retire (set : Setting t₀ tx₀) {ps : List Path}
    (hps : ∀ p ∈ ps, p ∈ [tx₀.stagedPath,tx₀.backupPath])
    (hw : Over t₀ tx₀ w) :
    Leaves (Safe t₀ tx₀) sure (retire ps)
      (fun _ w' => Over t₀ tx₀ w' ∧ Later w w') (Held t₀ tx₀) w := by
  induction ps generalizing w with
  | nil => exact Leaves.pure ⟨hw,rfl,rfl,rfl⟩
  | cons p ps ih =>
    obtain ⟨hp,hps⟩ := List.forall_mem_cons.mp hps
    refine Leaves.bind (Leaves.look ?_)
    refine Leaves.ite (fun he => ?_) fun _ => ih hps hw
    refine Leaves.bind (Leaves.attempt ((leaves_remove set hp hw he).mono ?_ ?_))
    · rintro - u ⟨hu,hl⟩
      exact (ih hps hu).mono (fun _ v hv => ⟨hv.1,hl.trans hv.2⟩) fun _ => id
    · rintro u ⟨hu,hl⟩ e
      exact Leaves.pure ⟨hu,hl⟩

lemma retire_ends (set : Setting t₀ tx₀) {ps : List Path}
    (hps : ∀ p ∈ ps, p ∈ [tx₀.stagedPath,tx₀.backupPath])
    (hw : Over t₀ tx₀ w) :
    ∃ w', retire ps [] w = (.ok true,w',[]) ∧ Over t₀ tx₀ w' ∧ Later w w' := by
  induction ps generalizing w with
  | nil => exact ⟨w,rfl,hw,rfl,rfl,rfl⟩
  | cons p ps ih =>
    obtain ⟨hp,hps⟩ := List.forall_mem_cons.mp hps
    unfold retire
    rw [bind_ended (t := w) rfl]
    split_ifs with he
    · obtain ⟨_,u,hu,huo,hul⟩ := (leaves_remove set hp hw he).ends trivial
      obtain ⟨v,hv,hvo,hvl⟩ := ih hps huo
      exact ⟨v,(bind_ended (attempt_ended hu)).trans hv,hvo,hul.trans hvl⟩
    · exact ih hps hw

lemma retired_mem {tx : InstallTransaction} (hd : Derived tx₀ tx) :
    ∀ p ∈ tx.retired, p ∈ [tx₀.stagedPath,tx₀.backupPath] := by
  intro p hp
  unfold retired at hp
  rw [hd.staged, hd.backup] at hp
  split at hp
  · simp_all
  · simp_all [or_comm]

lemma closing_completed (hw : Held t₀ tx₀ w)
    (hs : Sound t₀ tx₀ w.tree { w.hand with phase := .completed }) :
    Closing t₀ tx₀ .completed
      (saved (w.held fun tx => { tx with phase := .completed })) := by
  refine ⟨held_saved ⟨hw.safe.anyHand _,hs.derived,.inr hs,fun _ => rfl,fun h => nomatch h⟩ hs,
    rfl,fun tx htx => ?_⟩
  obtain rfl := Option.some.inj htx
  rfl

lemma leaves_complete (set : Setting t₀ tx₀) (hw : Held t₀ tx₀ w)
    (hs : Sound t₀ tx₀ w.tree { w.hand with phase := .completed }) :
    Leaves (Safe t₀ tx₀) sure complete (fun _ => Held t₀ tx₀) (Held t₀ tx₀) w := by
  have hc := closing_completed hw hs
  refine Leaves.bind (leaves_enter set hw hs (fun _ => rfl) (fun h => nomatch h) ?_)
  refine Leaves.bind (Leaves.look ?_)
  refine Leaves.bind ((leaves_retire set (retired_mem hc.held.derived)
    (hc.over (.inr (.inl rfl)))).mono ?_ fun _ => id)
  rintro b u ⟨hu,hl⟩
  refine Leaves.ite (fun _ => ?_) fun _ => Leaves.pure hu.held
  have hremove : Leaves (Safe t₀ tx₀) False removeState (fun _ => Held t₀ tx₀) (Held t₀ tx₀) u :=
    leaves_removeState hu (fun _ => hl.2.1 ▸ rfl) id
  refine Leaves.bind (Leaves.attempt (hremove.mono ?_ ?_))
  · exact fun _ v hv => Leaves.pure hv
  · exact fun v hv _ => Leaves.pure hv

lemma complete_ends (set : Setting t₀ tx₀) (hw : Held t₀ tx₀ w)
    (hs : Sound t₀ tx₀ w.tree { w.hand with phase := .completed }) :
    ∃ w', complete [] w = (.ok (),w',[]) ∧ Held t₀ tx₀ w' ∧ w'.stored = none ∧
      w'.completed = true := by
  have hc := closing_completed hw hs
  have henter : Leaves (Safe t₀ tx₀) True (enter .completed)
      (fun _ u => u = saved (w.held fun tx => { tx with phase := .completed }))
      (Held t₀ tx₀) w := leaves_enter set hw hs (fun _ => rfl) (fun h => nomatch h) rfl
  obtain ⟨_,u,hu,rfl⟩ := henter.ends trivial
  obtain ⟨v,hv,hvo,hvl⟩ := retire_ends set (retired_mem hc.held.derived)
    (hc.over (.inr (.inl rfl)))
  have hremove : Leaves (Safe t₀ tx₀) True removeState
      (fun _ x => Held t₀ tx₀ x ∧ x.stored = none ∧ x.completed = v.completed)
      (Held t₀ tx₀) v := leaves_removeState hvo (fun _ => hvl.2.1 ▸ rfl) fun h => ⟨h,rfl,rfl⟩
  obtain ⟨_,x,hx,hxh,hxs,hxc⟩ := hremove.ends trivial
  refine ⟨x,?_,hxh,hxs,?_⟩
  · exact (bind_ended hu).trans ((bind_ended rfl).trans ((bind_ended hv).trans
      (bind_ended (attempt_ended hx))))
  · rw [hxc, hvl.2.2]
    exact Bool.or_true _

/-! ### Rolling back before anything began -/

lemma existsAt_isLink (hb : Base t₀ tx₀ w.tree) {p : Path}
    (hp : p ∈ [tx₀.stagedPath,tx₀.backupPath]) (he : w.tree.existsAt p = true) :
    w.tree.isLink p = false := by
  have hn := notLinked_eq_ok.mp hb.unlinked p (List.mem_cons_of_mem _ hp)
  exact Bool.eq_false_iff.mpr fun hl => hn ⟨he,hl⟩

lemma Sound.rolledBack {t : Tree} {tx : InstallTransaction} (hs : Sound t₀ tx₀ t tx)
    (hk : tx₀.kind = .files) (hp : tx.phase = .prepared) :
    Sound t₀ tx₀ t { tx with phase := .rolledBack } := by
  have hd := hs.derived
  have hphased := hs.phased
  unfold Phased at hphased
  rw [hp] at hphased
  refine ⟨⟨hd.schema,hd.kind,hd.install,hd.staged,hd.backup,hd.files⟩,hs.consistent,hs.files,
    fun h => absurd (hk.symm.trans h) (by decide),hphased.1,fun f hf => .inl (hphased.2 f hf),
    fun h => absurd (hk.symm.trans h) (by decide)⟩

lemma leaves_rollbackPrepared (set : Setting t₀ tx₀) (hk : tx₀.kind = .files)
    (hw : Closing t₀ tx₀ .prepared w) :
    Leaves (Safe t₀ tx₀) sure (rollbackPrepared w.hand)
      (fun _ w' => Closing t₀ tx₀ .rolledBack w' ∧ w'.stored = some w'.hand ∧
        w'.completed = w.completed)
      (Held t₀ tx₀) w := by
  unfold rollbackPrepared
  rw [hw.held.derived.staged, hw.held.derived.backup]
  refine Leaves.bind ((Leaves.forM
    (fun _ w' => Over t₀ tx₀ w' ∧ Later w w') ?_ ?_).mono ?_ fun _ => id)
  · intro done p rest u hl hu
    have hp : p ∈ [tx₀.stagedPath,tx₀.backupPath] := by
      rw [hl]
      simp
    refine Leaves.bind (Leaves.look ?_)
    refine Leaves.ite (fun he => ?_) fun _ => Leaves.pure hu
    refine Leaves.bind (Leaves.look ?_)
    refine Leaves.bind (Leaves.demand (fun _ => ?_) fun hn => ?_)
    · refine (leaves_remove set hp hu.1 he).mono ?_ fun v hv => hv.1.held
      exact fun _ v hv => ⟨hv.1,hu.2.trans hv.2⟩
    · exact absurd (existsAt_isLink hu.1.held.safe.base hp he) hn
  · exact ⟨hw.over (.inl rfl),rfl,rfl,rfl⟩
  · rintro - u ⟨hu,hl⟩
    have hhand : u.hand.phase = .prepared := hl.1 ▸ hw.hand
    have hsound : Sound t₀ tx₀ u.tree u.hand :=
      hu.held.hand.resolve_left fun h => absurd (hk.symm.trans h.1) (by decide)
    have hrolled := hsound.rolledBack hk hhand
    have hc : u.completed = true → TransactionPhase.rolledBack = .completed := fun h =>
      absurd (hhand.symm.trans (hu.held.completed h)) (by decide)
    refine leaves_enter set hu.held hrolled hc (fun h => nomatch h) ⟨⟨?_,rfl,?_⟩,rfl,?_⟩
    · exact held_saved ⟨hu.held.safe.anyHand _,hrolled.derived,.inr hrolled,hc,
        fun h => nomatch h⟩ hrolled
    · intro tx htx
      obtain rfl := Option.some.inj htx
      rfl
    · change (u.completed || false) = w.completed
      rw [Bool.or_false, hl.2.2]

end RisuNest.Update
