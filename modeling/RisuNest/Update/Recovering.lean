import RisuNest.Update.Installing
import RisuNest.Lib.Runs

/-! The updater over any number of crashes and errors: what is called on an install transaction,
and what recovery leaves of it. -/
namespace RisuNest.Update
open Faulty Act InstallTransaction

variable {t₀ : Tree} {tx₀ : InstallTransaction} {sure : Prop} {w : World}

/-! ### Loading -/

section
variable (set : Setting t₀ tx₀)
include set

lemma leaves_load {Q : Option InstallTransaction → World → Prop} (hw : Safe t₀ tx₀ w)
    (hq : Q w.stored w) :
    Leaves (Safe t₀ tx₀) sure (load tx₀.installPath) Q (Safe t₀ tx₀) w := by
  refine Leaves.bind (leaves_call_of hw hw (Leaves.bind (Leaves.look ?_)))
  cases hs : w.stored with
  | none => exact Leaves.pure (hs ▸ hq)
  | some tx =>
    refine Leaves.bind (Leaves.look (Leaves.bind (Leaves.ofExcept (fun _ _ => ?_) fun e he => ?_)))
    · exact Leaves.pure (hs ▸ hq)
    · rw [(hw.stored tx hs).1.accepts set hw.base] at he
      cases he

omit set in
lemma held_loaded (hw : Safe t₀ tx₀ w) {tx : InstallTransaction} (hs : w.stored = some tx) :
    Held t₀ tx₀ { w with hand := tx } := by
  obtain ⟨hsound,hc⟩ := hw.stored tx hs
  refine ⟨hw.anyHand tx,hsound.derived,.inr hsound,hc.mp,fun hp u hu => ?_⟩
  exact Option.some.inj (hs.symm.trans hu) ▸ hp

/-- A transaction over a directory that is not under way yet. -/
def Unbegun (tx : InstallTransaction) : Prop := tx.kind = .directory ∧ tx.phase = .prepared

instance (tx : InstallTransaction) : Decidable (Unbegun tx) := inferInstanceAs (Decidable (_ ∧ _))

omit set in
lemma Sound.completed {t : Tree} {tx : InstallTransaction} (hs : Sound t₀ tx₀ t tx)
    (hp : tx.phase ≠ .prepared) (hn : New t₀ tx₀ t) :
    Sound t₀ tx₀ t { tx with phase := .completed } := by
  have hd := hs.derived
  refine ⟨⟨hd.schema,hd.kind,hd.install,hd.staged,hd.backup,hd.files⟩,hs.consistent,hs.files,
    (fun hk h => ?_),hn⟩
  exact hs.directory hk (iff_of_false hp fun hi => nomatch h.mpr hi)

omit set in
lemma recoverLoaded_of_other {tx : InstallTransaction} (hc : tx.phase ≠ .completed)
    (hr : tx.phase ≠ .rolledBack) : recoverLoaded tx = (do
      rollback
      pure tx.rolledBackOutcome : Act RecoveryOutcome) := by
  unfold recoverLoaded
  split
  · exact absurd ‹_› hc
  · exact absurd ‹_› hr
  · rfl

omit set in
lemma mayRollBack_of_loaded {t : Tree} {tx : InstallTransaction} (hc : tx.phase ≠ .completed)
    (hr : tx.phase ≠ .rolledBack) (hu : ¬ Unbegun tx) : MayRollBack t tx :=
  ⟨hc,fun hk => ⟨fun hp => hu ⟨hk,hp⟩,fun h => absurd h hr⟩⟩

omit set in
lemma Sound.new {t : Tree} {tx : InstallTransaction} (hs : Sound t₀ tx₀ t tx)
    (hp : tx.phase = .completed) : New t₀ tx₀ t := by
  have hphased := hs.phased
  unfold Phased at hphased
  rwa [hp] at hphased

lemma leaves_recoverTransaction (hw : Safe t₀ tx₀ w)
    (hm : ∀ tx, w.stored = some tx → ¬ Unbegun tx) :
    Leaves (Safe t₀ tx₀) False (recoverTransaction tx₀.installPath) (fun _ => Safe t₀ tx₀)
      (Safe t₀ tx₀) w := by
  refine Leaves.bind (leaves_load set hw ?_)
  cases hs : w.stored with
  | none => exact Leaves.pure hw
  | some tx =>
    have hheld := held_loaded hw hs
    have hsound := (hw.stored tx hs).1
    refine Leaves.bind (Leaves.modify (Leaves.bind ?_))
    by_cases hc : tx.phase = .completed
    · have hdone := hsound.completed (by rw [hc]; decide) (hsound.new hc)
      unfold recoverLoaded
      rw [hc]
      refine Leaves.bind ((leaves_complete set hheld hdone).mono ?_ fun _ h => h.safe)
      exact fun _ u hu => Leaves.pure (Leaves.pure hu.safe)
    by_cases hr : tx.phase = .rolledBack
    · unfold recoverLoaded
      rw [hr]
      exact Leaves.pure (Leaves.pure hheld.safe)
    · rw [recoverLoaded_of_other hc hr]
      refine Leaves.bind ((leaves_rollback set hheld
        (mayRollBack_of_loaded hc hr (hm tx hs))).mono ?_ fun _ h => h.safe)
      exact fun _ u hu => Leaves.pure (Leaves.pure hu.1.held.safe)

lemma leaves_finishRollbackRecovery (hw : Safe t₀ tx₀ w)
    (hs : sure → ∃ tx, w.stored = some tx ∧ tx.phase = .rolledBack) :
    Leaves (Safe t₀ tx₀) sure (finishRollbackRecovery tx₀.installPath)
      (fun _ u => Safe t₀ tx₀ u ∧ u.stored = none ∧ u.completed = w.completed)
      (Safe t₀ tx₀) w := by
  refine Leaves.bind (leaves_load set hw ?_)
  cases hstored : w.stored with
  | none =>
    refine Leaves.fail hw fun h => ?_
    obtain ⟨tx,htx,-⟩ := hs h
    rw [hstored] at htx
    cases htx
  | some tx =>
    refine Leaves.bind (Leaves.modify ?_)
    refine (leaves_discardRolledBack set (held_loaded hw hstored) hstored fun h => ?_).mono
      (fun _ u hu => ⟨hu.1.safe,hu.2⟩) fun _ h => h.safe
    obtain ⟨tx',htx,hp⟩ := hs h
    exact Option.some.inj (hstored.symm.trans htx) ▸ hp

end

/-! ### Recovery -/

/-- `recover_transaction`, and `finish_rollback_recovery` after a rollback. -/
def recovery (install : Path) : Act Unit := do
  match ← recoverTransaction install with
  | some (.rolledBack _ _ _ _) => finishRollbackRecovery install
  | _ => pure ()

/-- Recovery ends, and leaves no transaction and the right files. -/
def Recovers (t₀ : Tree) (tx₀ : InstallTransaction) (w : World) : Prop :=
  ∃ u, recovery tx₀.installPath [] w = (.ok (),u,[]) ∧ u.stored = none ∧
    Kept t₀ tx₀ u.tree ∧ if w.completed then New t₀ tx₀ u.tree else Old t₀ tx₀ u.tree

section
variable (set : Setting t₀ tx₀)
include set

lemma load_ends (hw : Safe t₀ tx₀ w) : load tx₀.installPath [] w = (.ok w.stored,w,[]) := by
  have h : Leaves (Safe t₀ tx₀) True (load tx₀.installPath) (fun r u => r = w.stored ∧ u = w)
      (Safe t₀ tx₀) w := leaves_load set hw ⟨rfl,rfl⟩
  obtain ⟨r,u,hload,rfl,rfl⟩ := h.ends trivial
  exact hload

lemma finish_ends (hw : Safe t₀ tx₀ w)
    (hs : ∃ tx, w.stored = some tx ∧ tx.phase = .rolledBack) :
    ∃ u, finishRollbackRecovery tx₀.installPath [] w = (.ok (),u,[]) ∧ u.stored = none ∧
      Kept t₀ tx₀ u.tree ∧ if w.completed then New t₀ tx₀ u.tree else Old t₀ tx₀ u.tree := by
  have h : Leaves (Safe t₀ tx₀) True (finishRollbackRecovery tx₀.installPath) _ _ w :=
    leaves_finishRollbackRecovery set hw fun _ => hs
  obtain ⟨_,u,hu,hsafe,hnone,hc⟩ := h.ends trivial
  exact ⟨u,hu,hnone,hsafe.base.kept,hc ▸ hsafe.gone hnone⟩

/-- Recovery ends from wherever a crash left the disk, unless that is a directory that was not
begun. -/
theorem recovery_ends (hw : Safe t₀ tx₀ w) (hm : ∀ tx, w.stored = some tx → ¬ Unbegun tx) :
    Recovers t₀ tx₀ w := by
  have hload := load_ends set hw
  cases hs : w.stored with
  | none =>
    rw [hs] at hload
    exact ⟨w,(bind_ended (bind_ended hload)).trans rfl,hs,hw.base.kept,hw.gone hs⟩
  | some tx =>
    rw [hs] at hload
    have hheld := held_loaded hw hs
    obtain ⟨hsound,hc⟩ := hw.stored tx hs
    have hrecover {r : RecoveryOutcome} {u : World}
        (h : recoverLoaded tx [] { w with hand := tx } = (.ok r,u,[])) :
        recoverTransaction tx₀.installPath [] w = (.ok (some r),u,[]) :=
      (bind_ended hload).trans ((bind_ended rfl).trans (bind_ended h))
    by_cases hcompleted : tx.phase = .completed
    · have hdone := hsound.completed (by rw [hcompleted]; decide) (hsound.new hcompleted)
      obtain ⟨u,hu,huh,hnone,huc⟩ := complete_ends set hheld hdone
      have hr : recoverTransaction tx₀.installPath [] w =
          (.ok (some (.completed tx.targetVersion)),u,[]) := by
        refine hrecover ?_
        unfold recoverLoaded
        rw [hcompleted]
        exact bind_ended hu
      refine ⟨u,(bind_ended hr).trans rfl,hnone,huh.safe.base.kept,?_⟩
      rw [hc.mpr hcompleted]
      exact huc ▸ huh.safe.gone hnone
    by_cases hrolled : tx.phase = .rolledBack
    · obtain ⟨u,hu,hend⟩ := finish_ends set hheld.safe ⟨tx,hs,hrolled⟩
      have hr : recoverTransaction tx₀.installPath [] w =
          (.ok (some tx.rolledBackOutcome),{ w with hand := tx },[]) := by
        refine hrecover ?_
        unfold recoverLoaded
        rw [hrolled]
        rfl
      exact ⟨u,(bind_ended hr).trans hu,hend⟩
    · have hmay := mayRollBack_of_loaded (t := w.tree) hcompleted hrolled (hm tx hs)
      have h : Leaves (Safe t₀ tx₀) True rollback _ _ _ := leaves_rollback set hheld hmay
      obtain ⟨_,v,hv,hclosing,hstored,hvc⟩ := h.ends trivial
      obtain ⟨u,hu,hend⟩ := finish_ends set hclosing.held.safe ⟨v.hand,hstored,hclosing.hand⟩
      rw [hvc] at hend
      have hr : recoverTransaction tx₀.installPath [] w =
          (.ok (some tx.rolledBackOutcome),v,[]) := by
        refine hrecover ?_
        rw [recoverLoaded_of_other hcompleted hrolled]
        exact bind_ended hv
      exact ⟨u,(bind_ended hr).trans hu,hend⟩

end

/-! ### A directory that was not begun -/

lemma leaves_anyAtomic {check : World → Bool} {e : String} {f : World → World}
    {Q : Unit → World → Prop} (h : Q () (f w)) :
    Leaves (fun _ => True) False (atomic check e f) Q (fun _ => True) w :=
  Leaves.step (fun _ => h) (fun _ _ => ⟨trivial,trivial⟩) fun _ _ => ⟨trivial,trivial,not_false⟩

lemma leaves_removeAny {p : Path} {e : String} :
    Leaves (fun _ => True) False (remove p e) (fun _ u => u.hand = w.hand) (fun _ => True) w := by
  refine Leaves.bind (Leaves.look ?_)
  refine Leaves.ite (fun _ => Leaves.bind ?_) fun _ => Leaves.bind ?_
  · exact Leaves.step (fun _ => leaves_anyAtomic rfl) (fun _ _ => ⟨trivial,trivial⟩)
      fun _ _ => ⟨trivial,trivial,not_false⟩
  · exact leaves_anyAtomic (leaves_anyAtomic rfl)

lemma accepts_unbegun {t : Tree} {tx : InstallTransaction} {install : Path}
    (hk : tx.kind = .directory) (hp : tx.phase = .rolledBack)
    (hi : ¬ (tx.directoryInstallIdentity.isSome ∧ tx.directoryStagedIdentity.isSome)) :
    tx.accepts t install ≠ .ok () := by
  intro h
  simp only [InstallTransaction.accepts, bind_eq_ok, require_eq_ok] at h
  obtain ⟨-,-,-,-,-,-,-,-,-,-,-,-,-,-,-,-,h⟩ := h
  exact h hk (iff_of_false (by rw [hp]; decide) hi)

lemma leaves_refused {tx : InstallTransaction} {install : Path} (hs : w.stored = some tx)
    (h : ∀ t, tx.accepts t install ≠ .ok ()) :
    Leaves (fun _ => True) False (load install) (fun _ _ => False) (fun _ => True) w := by
  refine Leaves.bind (leaves_anyAtomic ?_)
  change Leaves _ _ _ _ _ w
  refine Leaves.bind (Leaves.look ?_)
  cases hw : w.stored with
  | none =>
    rw [hs] at hw
    cases hw
  | some tx' =>
    obtain rfl := Option.some.inj (hs.symm.trans hw)
    refine Leaves.bind (Leaves.look (Leaves.bind (Leaves.ofExcept (fun _ ht => ?_)
      fun _ _ => ?_)))
    · exact absurd ht (h w.tree)
    · exact ⟨trivial,not_false⟩

/-- Where such a directory was saved, recovery fails for good. -/
theorem not_recovers_unbegun (set : Setting t₀ tx₀) (hw : Safe t₀ tx₀ w)
    {tx : InstallTransaction} (hs : w.stored = some tx) (hu : Unbegun tx) :
    ¬ Recovers t₀ tx₀ w := by
  obtain ⟨hk,hp⟩ := hu
  have hi : ¬ (tx.directoryInstallIdentity.isSome ∧ tx.directoryStagedIdentity.isSome) := by
    have hsound := (hw.stored tx hs).1
    exact fun h => hsound.directory (hsound.derived.kind.symm.trans hk) (iff_of_true hp h)
  have hrollback : Leaves (fun _ => True) False (rollbackPrepared tx)
      (fun _ u => u.stored = some { tx with phase := .rolledBack }) (fun _ => True)
      { w with hand := tx } := by
    refine Leaves.bind ((Leaves.forM (fun _ u => u.hand = tx) ?_ rfl).mono ?_ fun _ => id)
    · rintro done p rest u - hu
      refine Leaves.bind (Leaves.look (Leaves.ite (fun _ => ?_) fun _ => Leaves.pure hu))
      refine Leaves.bind (Leaves.look (Leaves.bind (Leaves.demand (fun _ => ?_)
        fun _ => ⟨trivial,not_false⟩)))
      exact leaves_removeAny.mono (fun _ v hv => hv.trans hu) fun _ => id
    · rintro - u rfl
      refine Leaves.bind (Leaves.modify (Leaves.bind (Leaves.look (Leaves.bind ?_))))
      exact Leaves.demand (fun _ => leaves_anyAtomic rfl) fun _ => ⟨trivial,not_false⟩
  have hrecovery : Leaves (fun _ => True) False (recovery tx₀.installPath) (fun _ _ => False)
      (fun _ => True) w := by
    have hload {Q : Option InstallTransaction → World → Prop} (hq : Q (some tx) w) :
        Leaves (fun _ => True) False (load tx₀.installPath) Q (fun _ => True) w :=
      ((leaves_load set hw (hs ▸ hq)).widen fun _ _ => trivial).mono (fun _ _ => id)
        fun _ _ => trivial
    refine Leaves.bind (Leaves.bind (hload ?_))
    refine Leaves.bind (Leaves.modify (Leaves.bind ?_))
    rw [recoverLoaded_of_other (by rw [hp]; decide) (by rw [hp]; decide)]
    refine Leaves.bind (Leaves.bind (Leaves.look ?_))
    rw [if_pos hp]
    refine hrollback.mono (fun _ u hu => Leaves.pure (Leaves.pure ?_)) fun _ => id
    -- what was saved is not loaded again
    have hrefused : Leaves (fun _ => True) False (load tx₀.installPath) _ _ u :=
      leaves_refused hu fun _ => accepts_unbegun hk rfl hi
    exact Leaves.bind (hrefused.mono (fun _ _ h => h.elim) fun _ => id)
  rintro ⟨u,hend,-⟩
  have h := hrecovery []
  rw [hend] at h
  exact h.1

end RisuNest.Update
