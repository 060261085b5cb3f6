import RisuNest.Update.Recovering

/-! The updater as a machine: what it calls on an install transaction, each time with other crashes
and errors. -/
namespace RisuNest.Update
open Faulty Act InstallTransaction

/-- What is called: a method on the transaction in hand, or a function that loads it first. -/
inductive Call
  | setPriorStartupEnabled (enabled : Bool)
  | apply
  | markRestarting
  | complete
  | cancelPrepared
  | rollback
  | load
  | recoverTransaction
  | finishRollbackRecovery

namespace Call

def isMethod : Call → Bool
  | .load => false
  | .recoverTransaction => false
  | .finishRollbackRecovery => false
  | _ => true

/-- A call, and whether there is a transaction in hand after it. -/
def act (install : Path) : Call → Act Bool
  | .setPriorStartupEnabled enabled => do
    inHand fun tx => { tx with priorStartupEnabled := some enabled }
    pure true
  | .apply => do
    InstallTransaction.apply
    pure true
  | .markRestarting => do
    InstallTransaction.markRestarting
    pure true
  | .complete => do
    InstallTransaction.complete
    pure true
  | .cancelPrepared => do
    InstallTransaction.cancelPrepared
    pure true
  | .rollback => do
    InstallTransaction.rollback
    pure true
  | .load => do
    match ← InstallTransaction.load install with
    | none => pure false
    | some tx => do
      inHand fun _ => tx
      pure true
  | .recoverTransaction => do
    let _ ← Update.recoverTransaction install
    pure false
  | .finishRollbackRecovery => do
    Update.finishRollbackRecovery install
    pure false

end Call

/-- The disk, and whether the updater has a transaction in hand. -/
structure Updater where
  world : World
  holding : Bool

/-- A call, and what happens to its steps. -/
structure Event where
  call : Call
  faults : List (Option (Fault Part))

/-- After a crash the updater starts anew; after an error it still has what it had. -/
def Updater.step (install : Path) (s : Updater) (e : Event) : Option Updater :=
  if e.call.isMethod = true ∧ s.holding = false then none
  else
    match e.call.act install e.faults s.world with
    | (.ok holding,w,_) => some ⟨w,holding⟩
    | (.error _,w,_) => some ⟨w,e.call.isMethod⟩
    | (.crashed,w,_) => some ⟨w,false⟩

/-- The updater after a transaction was made and saved. -/
def Updater.start (t₀ : Tree) (made : Path → DirectoryIdentity) (tx₀ : InstallTransaction) :
    Updater :=
  ⟨{ tree := t₀, made, stored := some tx₀, completed := false, hand := tx₀ },true⟩

/-- Where a call may start: a transaction is applied as it was made, it goes on once it is
installed, and neither a rollback nor a recovery starts from a directory that was not begun. -/
def Allowed (t₀ : Tree) (tx₀ : InstallTransaction) (s : Updater) (e : Event) : Prop :=
  match e.call with
  | .apply => s.world.tree = t₀ ∧ s.world.hand = tx₀
  | .markRestarting => s.world.hand.phase = .installed ∨ s.world.hand.phase = .restarting
  | .complete => s.world.hand.phase = .installed ∨ s.world.hand.phase = .restarting ∨
      s.world.hand.phase = .completed
  | .rollback => MayRollBack s.world.tree s.world.hand
  | .recoverTransaction => ∀ tx ∈ s.world.stored, ¬ Unbegun tx
  | _ => True

section
variable {t₀ : Tree} {tx₀ : InstallTransaction}

lemma Sound.startup {t : Tree} {tx : InstallTransaction} (hs : Sound t₀ tx₀ t tx) (b : Bool) :
    Sound t₀ tx₀ t { tx with priorStartupEnabled := some b } := by
  have hd := hs.derived
  have hphased := hs.phased
  refine ⟨⟨hd.schema,hd.kind,hd.install,hd.staged,hd.backup,hd.files⟩,hs.consistent,hs.files,
    hs.directory,?_⟩
  have hwork (h : Work t₀ tx₀ t tx) : Work t₀ tx₀ t { tx with priorStartupEnabled := some b } := by
    unfold Work at h ⊢
    split at h
    · exact h
    · exact ⟨h.files,h.identities,h.places⟩
  unfold Phased at hphased ⊢
  dsimp only
  split at hphased
  · exact hphased
  · exact hphased
  · exact hphased
  · exact ⟨hwork hphased.1,hphased.2⟩
  · exact ⟨hwork hphased.1,hphased.2⟩
  · exact hwork hphased

lemma Setting.sound (set : Setting t₀ tx₀) : Sound t₀ tx₀ t₀ tx₀ := by
  obtain ⟨hi,hj⟩ := set.identities
  refine ⟨⟨rfl,rfl,rfl,rfl,rfl,rfl⟩,fun f hf => ?_,fun _ => ⟨hi,hj⟩,fun _ h => ?_,?_⟩
  · exact iff_of_true (set.pending f hf).1 (set.pending f hf).2
  · have := (h.mp set.phase).1
    rw [hi] at this
    cases this
  · unfold Phased Old
    rw [set.phase]
    refine ⟨?_,fun f hf => (set.pending f hf).1⟩
    split
    · exact fun _ _ => rfl
    · exact fun _ => rfl

/-- What every call keeps: what every crash leaves, and more while a transaction is in hand. -/
structure Tracked (t₀ : Tree) (tx₀ : InstallTransaction) (s : Updater) : Prop where
  safe : Safe t₀ tx₀ s.world
  held : s.holding = true → Held t₀ tx₀ s.world

lemma tracked_of_held {w : World} {b : Bool} (h : Held t₀ tx₀ w) : Tracked t₀ tx₀ ⟨w,b⟩ :=
  ⟨h.safe,fun _ => h⟩

lemma tracked_of_safe {w : World} (h : Safe t₀ tx₀ w) : Tracked t₀ tx₀ ⟨w,false⟩ :=
  ⟨h,fun hn => nomatch hn⟩

lemma Sound.installed {t : Tree} {tx : InstallTransaction} (hs : Sound t₀ tx₀ t tx)
    (hp : tx.phase = .installed ∨ tx.phase = .restarting) :
    Work t₀ tx₀ t tx ∧ New t₀ tx₀ t := by
  have hphased := hs.phased
  unfold Phased at hphased
  obtain hp | hp := hp
  · rwa [hp] at hphased
  · rwa [hp] at hphased

lemma Sound.restarting {t : Tree} {tx : InstallTransaction} (hs : Sound t₀ tx₀ t tx)
    (hp : tx.phase = .installed ∨ tx.phase = .restarting) :
    Sound t₀ tx₀ t { tx with phase := .restarting } := by
  have hd := hs.derived
  obtain ⟨hwork,hnew⟩ := hs.installed hp
  refine ⟨⟨hd.schema,hd.kind,hd.install,hd.staged,hd.backup,hd.files⟩,hs.consistent,hs.files,
    fun hk h => hs.directory hk (iff_of_false ?_ fun hi => nomatch h.mpr hi),?_,hnew⟩
  · obtain hp | hp := hp
    · rw [hp]
      decide
    · rw [hp]
      decide
  · unfold Work at hwork ⊢
    split at hwork
    · exact hwork
    · exact ⟨hwork.files,hwork.identities,hwork.places⟩

lemma leaves_method {w : World} {x : Act Unit}
    (h : Leaves (Safe t₀ tx₀) False x (fun _ => Held t₀ tx₀) (Held t₀ tx₀) w) {b : Bool} :
    Leaves (Safe t₀ tx₀) False (do x; pure true : Act Bool) (fun b u => Tracked t₀ tx₀ ⟨u,b⟩)
      (fun u => Tracked t₀ tx₀ ⟨u,b⟩) w :=
  Leaves.bind (h.mono (fun _ _ hu => Leaves.pure (tracked_of_held hu)) fun _ => tracked_of_held)

lemma leaves_function {w : World} {α : Type} {x : Act α}
    (h : Leaves (Safe t₀ tx₀) False x (fun _ => Safe t₀ tx₀) (Safe t₀ tx₀) w) :
    Leaves (Safe t₀ tx₀) False (do let _ ← x; pure false : Act Bool)
      (fun b u => Tracked t₀ tx₀ ⟨u,b⟩) (fun u => Tracked t₀ tx₀ ⟨u,false⟩) w :=
  Leaves.bind (h.mono (fun _ _ hu => Leaves.pure (tracked_of_safe hu)) fun _ => tracked_of_safe)

section
variable (set : Setting t₀ tx₀) {s : Updater} {e : Event}
include set

lemma leaves_act (hs : Tracked t₀ tx₀ s) (hm : e.call.isMethod = true → s.holding = true)
    (ok : Allowed t₀ tx₀ s e) :
    Leaves (Safe t₀ tx₀) False (e.call.act tx₀.installPath)
      (fun b u => Tracked t₀ tx₀ ⟨u,b⟩) (fun u => Tracked t₀ tx₀ ⟨u,e.call.isMethod⟩) s.world := by
  unfold Allowed at ok
  obtain ⟨call,faults⟩ := e
  -- a transaction that is past its beginning is right about the disk
  have hsound (hw : Held t₀ tx₀ s.world) (hp : s.world.hand.phase ≠ .prepared) :
      Sound t₀ tx₀ s.world.tree s.world.hand := hw.hand.resolve_left fun h => hp h.2
  cases call with
  | setPriorStartupEnabled enabled =>
    have hw := hs.held (hm rfl)
    have hd := hw.derived
    refine leaves_method (Leaves.modify ?_)
    exact ⟨hw.safe.anyHand _,⟨hd.schema,hd.kind,hd.install,hd.staged,hd.backup,hd.files⟩,
      hw.hand.imp id fun h => h.startup enabled,hw.completed,hw.prepared⟩
  | apply =>
    have hw := hs.held (hm rfl)
    obtain ⟨htree,hhand⟩ := ok
    refine leaves_method (leaves_apply set hw htree hhand ?_)
    rw [htree, hhand]
    exact set.sound
  | markRestarting =>
    have hw := hs.held (hm rfl)
    have hp : s.world.hand.phase ≠ .prepared := by
      obtain ok | ok := ok <;> rw [ok] <;> decide
    have hc (h : s.world.completed = true) : TransactionPhase.restarting = .completed := by
      have := hw.completed h
      obtain ok | ok := ok <;> rw [ok] at this <;> cases this
    have hrestarting := (hsound hw hp).restarting ok
    exact leaves_method (leaves_enter set hw hrestarting hc (fun h => nomatch h)
      (held_saved ⟨hw.safe.anyHand _,hrestarting.derived,.inr hrestarting,hc,
        fun h => nomatch h⟩ hrestarting))
  | complete =>
    have hw := hs.held (hm rfl)
    have hp : s.world.hand.phase ≠ .prepared := by
      obtain ok | ok | ok := ok <;> rw [ok] <;> decide
    have hnew : New t₀ tx₀ s.world.tree := by
      obtain ok | ok | ok := ok
      · exact ((hsound hw hp).installed (.inl ok)).2
      · exact ((hsound hw hp).installed (.inr ok)).2
      · exact (hsound hw hp).new ok
    exact leaves_method (leaves_complete set hw ((hsound hw hp).completed hp hnew))
  | cancelPrepared => exact leaves_method (leaves_cancelPrepared set (hs.held (hm rfl)))
  | rollback =>
    refine leaves_method ((leaves_rollback set (hs.held (hm rfl)) ok).mono ?_ fun _ => id)
    exact fun _ u hu => hu.1.held
  | load =>
    refine Leaves.bind ((leaves_load set hs.safe ?_).mono (fun _ _ => id) fun _ => tracked_of_safe)
    cases hstored : s.world.stored with
    | none => exact Leaves.pure (tracked_of_safe hs.safe)
    | some tx =>
      exact Leaves.bind (Leaves.modify (Leaves.pure (tracked_of_held (held_loaded hs.safe hstored))))
  | recoverTransaction => exact leaves_function (leaves_recoverTransaction set hs.safe ok)
  | finishRollbackRecovery =>
    refine leaves_function ((leaves_finishRollbackRecovery set hs.safe False.elim).mono ?_
      fun _ => id)
    exact fun _ u hu => hu.1

/-- One call keeps what is tracked, whatever goes wrong in it. -/
theorem Tracked.step {s' : Updater} (hs : Tracked t₀ tx₀ s) (ok : Allowed t₀ tx₀ s e)
    (h : s.step tx₀.installPath e = some s') : Tracked t₀ tx₀ s' := by
  unfold Updater.step at h
  split_ifs at h with hm
  have hleaves := leaves_act set hs (fun hc => by
    rw [← Bool.not_eq_false]
    exact fun hn => hm ⟨hc,hn⟩) ok e.faults
  revert h hleaves
  generalize e.call.act tx₀.installPath e.faults s.world = r
  obtain ⟨outcome,w,rest⟩ := r
  cases outcome with
  | ok b =>
    rintro h ⟨hw,-⟩
    exact Option.some.inj h ▸ hw
  | error message =>
    rintro h ⟨hw,-⟩
    exact Option.some.inj h ▸ hw
  | crashed =>
    rintro h ⟨hw,-⟩
    exact Option.some.inj h ▸ tracked_of_safe hw

end
end
end RisuNest.Update
