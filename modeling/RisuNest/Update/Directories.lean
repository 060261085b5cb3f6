import RisuNest.Update.Endings

/-! Install transactions over whole directories, which change places as one step. -/
namespace RisuNest.Update
open Faulty Act InstallTransaction

variable {t₀ : Tree} {tx₀ : InstallTransaction} {sure : Prop} {w : World}

lemma Held.withTree (hw : Held t₀ tx₀ w) (hj : w.stored.isSome = true) {t : Tree}
    (hb : Base t₀ tx₀ t) (hs : ∀ tx, w.stored = some tx → Sound t₀ tx₀ t tx)
    (hh : tx₀.kind = .directory ∧ w.hand.phase = .prepared ∨ Sound t₀ tx₀ t w.hand) :
    Held t₀ tx₀ { w with tree := t } := by
  refine ⟨⟨hb,fun tx htx => ⟨hs tx htx,(hw.safe.stored tx htx).2⟩,fun hn => ?_⟩,hw.derived,hh,
    hw.completed,hw.prepared⟩
  rw [show w.stored = none from hn] at hj
  cases hj

/-- The transaction in hand is the one on the disk, under way. -/
structure Running (t₀ : Tree) (tx₀ : InstallTransaction) (phase : TransactionPhase) (w : World) :
    Prop where
  held : Held t₀ tx₀ w
  phase : w.hand.phase = phase
  stored : w.stored = some w.hand
  sound : Sound t₀ tx₀ w.tree w.hand

lemma running_saved (hw : Held t₀ tx₀ w) {phase : TransactionPhase}
    (hs : Sound t₀ tx₀ w.tree { w.hand with phase })
    (hc : w.completed = true → phase = .completed) (hp : phase ≠ .prepared) :
    Running t₀ tx₀ phase (saved (w.held fun tx => { tx with phase })) := by
  refine ⟨held_saved ⟨hw.safe.anyHand _,hs.derived,.inr hs,hc,fun h => absurd h hp⟩ hs,rfl,rfl,hs⟩

lemma Running.withTree {phase : TransactionPhase} (hw : Running t₀ tx₀ phase w) {t : Tree}
    (hb : Base t₀ tx₀ t) (hs : Sound t₀ tx₀ t w.hand) :
    Running t₀ tx₀ phase { w with tree := t } := by
  refine ⟨hw.held.withTree (by rw [hw.stored]; rfl) hb (fun tx htx => ?_) (.inr hs),hw.phase,
    hw.stored,hs⟩
  rw [hw.stored] at htx
  exact Option.some.inj htx ▸ hs

section
variable (set : Setting t₀ tx₀) (hk : tx₀.kind = .directory)
include set

lemma Setting.apart_staged :
    ¬ tx₀.installPath <+: tx₀.stagedPath ∧ ¬ tx₀.stagedPath <+: tx₀.installPath := by
  have h1 : tx₀.installPath ≠ tx₀.stagedPath := set.distinct.1
  exact ⟨fun h => h1 (h.eq_of_length set.length_staged),
    fun h => h1 (h.eq_of_length set.length_staged.symm).symm⟩

lemma Setting.backup_apart (p : Path) :
    ¬ tx₀.installPath <+: tx₀.backup p ∧ ¬ tx₀.stagedPath <+: tx₀.backup p := by
  have hl := set.length_staged
  have hb := set.length_backup
  exact ⟨fun h => set.distinct.2.1 (prefix_append_of_length hb h),
    fun h => set.distinct.2.2 (prefix_append_of_length (hl.symm.trans hb) h)⟩

lemma get_exchanged_target (t : Tree) (p : Path) :
    (t.exchanged tx₀.installPath tx₀.stagedPath).get (tx₀.target p) = t.get (tx₀.stage p) := by
  rw [Tree.get_exchanged set.apart_staged.1 set.apart_staged.2, swapped_left]

lemma get_exchanged_stage (t : Tree) (p : Path) :
    (t.exchanged tx₀.installPath tx₀.stagedPath).get (tx₀.stage p) = t.get (tx₀.target p) := by
  rw [Tree.get_exchanged set.apart_staged.1 set.apart_staged.2,
    swapped_right set.apart_staged.1 set.apart_staged.2]

lemma get_exchanged_other (t : Tree) {p : Path} (h1 : ¬ tx₀.installPath <+: p)
    (h2 : ¬ tx₀.stagedPath <+: p) :
    (t.exchanged tx₀.installPath tx₀.stagedPath).get p = t.get p := by
  rw [Tree.get_exchanged set.apart_staged.1 set.apart_staged.2, swapped, if_neg h1, if_neg h2]

include hk

lemma Base.exchanged {t : Tree} (hb : Base t₀ tx₀ t) {i j : DirectoryIdentity}
    (hi : t.get tx₀.installPath = some (.dir i)) (hj : t.get tx₀.stagedPath = some (.dir j)) :
    Base t₀ tx₀ (t.exchanged tx₀.installPath tx₀.stagedPath) := by
  have htarget := get_exchanged_target set t []
  have hstage := get_exchanged_stage set t []
  rw [target, stage, List.append_nil, List.append_nil] at htarget hstage
  have hbackup (p : Path) : (t.exchanged tx₀.installPath tx₀.stagedPath).get (tx₀.backup p) =
      t.get (tx₀.backup p) :=
    get_exchanged_other set t (set.backup_apart p).1 (set.backup_apart p).2
  refine ⟨fun p h1 h2 h3 => ?_,notLinked_eq_ok.mpr fun p hp => ?_,fun p => ?_⟩
  · have h3' := h3
    unfold Touched at h3'
    rw [hk] at h3'
    rw [get_exchanged_other set t h3' h1]
    exact hb.kept p h1 h2 h3
  · rintro ⟨-,hlink⟩
    obtain ⟨target,hlink⟩ := Tree.isLink_iff.mp hlink
    simp only [List.mem_cons, List.not_mem_nil, or_false] at hp
    obtain rfl | rfl | rfl := hp
    · rw [htarget, hj] at hlink
      cases hlink
    · rw [hstage, hi] at hlink
      cases hlink
    · have h := hbackup []
      have hplain := hb.plain []
      rw [backup, List.append_nil] at h hplain
      rw [h] at hlink
      rw [Tree.isLink_iff.mpr ⟨target,hlink⟩] at hplain
      cases hplain
  · have hplain := hb.plain p
    unfold Tree.isLink at hplain ⊢
    rwa [hbackup]

lemma Exchanged.cases {t : Tree} {tx : InstallTransaction} (h : Exchanged t₀ tx₀ t tx) :
    ∃ i j, i ≠ j ∧ tx.directoryInstallIdentity = some i ∧ tx.directoryStagedIdentity = some j ∧
      ((t.get tx₀.installPath = some (.dir i) ∧ t.get tx₀.stagedPath = some (.dir j) ∧
        ∀ p, t.get (tx₀.target p) = t₀.get (tx₀.target p)) ∨
        (t.get tx₀.installPath = some (.dir j) ∧ t.get tx₀.stagedPath = some (.dir i) ∧
          ∀ p, t.get (tx₀.target p) = t₀.get (tx₀.stage p) ∧
            t.get (tx₀.stage p) = t₀.get (tx₀.target p))) := by
  obtain ⟨i,j,h1,h2,hi,hj⟩ := h.identities
  refine ⟨i,j,set.directories hk i j hi hj,h1,h2,?_⟩
  obtain ⟨hp,hs⟩ | hp := h.places
  · have hroot := hp []
    rw [target, List.append_nil, hi] at hroot
    exact .inl ⟨hroot,hs.trans hj,hp⟩
  · have hroot := hp []
    rw [target, stage, List.append_nil, List.append_nil, hi, hj] at hroot
    exact .inr ⟨hroot.1,hroot.2,hp⟩

omit hk in
lemma Exchanged.back {t : Tree} {tx : InstallTransaction} (h : Exchanged t₀ tx₀ t tx)
    (hp : ∀ p, t.get (tx₀.target p) = t₀.get (tx₀.stage p) ∧
      t.get (tx₀.stage p) = t₀.get (tx₀.target p)) :
    Exchanged t₀ tx₀ (t.exchanged tx₀.installPath tx₀.stagedPath) tx := by
  refine ⟨h.files,h.identities,.inl ⟨fun p => ?_,?_⟩⟩
  · rw [get_exchanged_target set]
    exact (hp p).2
  · have hroot := get_exchanged_stage set t []
    have hp := (hp []).1
    rw [target, stage, List.append_nil, List.append_nil] at hroot hp
    exact hroot.trans hp

omit hk in
lemma exchanged_of_original {tx : InstallTransaction} (hf : Settled tx)
    (hr : Recorded t₀ tx₀ tx) :
    Exchanged t₀ tx₀ (t₀.exchanged tx₀.installPath tx₀.stagedPath) tx :=
  ⟨hf,hr,.inr fun p => ⟨get_exchanged_target set t₀ p,get_exchanged_stage set t₀ p⟩⟩

omit set in
lemma Sound.ofExchanged {t : Tree} {tx : InstallTransaction} (hd : Derived tx₀ tx)
    (hc : ∀ f ∈ tx.fileStates, f.phase = .pending ↔ f.originalExisted = none)
    (h : Exchanged t₀ tx₀ t tx) (hp : tx.phase = .installing ∨ tx.phase = .rollingBack) :
    Sound t₀ tx₀ t tx := by
  obtain ⟨i,j,h1,h2,-⟩ := h.identities
  have hne : tx.phase ≠ .prepared := by
    intro h
    rw [h] at hp
    simp at hp
  refine ⟨hd,hc,fun h => absurd (hk.symm.trans h) (by decide),fun _ hi => ?_,?_⟩
  · exact hne (hi.mpr (by rw [h1, h2]; exact ⟨rfl,rfl⟩))
  · unfold Phased Work
    obtain hp | hp := hp
    · rw [hp, hk]
      exact h
    · rw [hp, hk]
      exact h

lemma leaves_exchange {phase : TransactionPhase} (hp : phase = .installing ∨ phase = .rollingBack)
    (hw : Running t₀ tx₀ phase w) (he : Exchanged t₀ tx₀ w.tree w.hand)
    (he' : Exchanged t₀ tx₀ (w.tree.exchanged tx₀.installPath tx₀.stagedPath) w.hand)
    {e : String} :
    Leaves (Safe t₀ tx₀) sure (durableExchange tx₀.installPath tx₀.stagedPath e)
      (fun _ w' => w' = { w with tree := w.tree.exchanged tx₀.installPath tx₀.stagedPath } ∧
        Running t₀ tx₀ phase w') (Held t₀ tx₀) w := by
  obtain ⟨i,j,-,-,-,hplaces⟩ := Exchanged.cases set hk he
  have hroots : ∃ i j, w.tree.get tx₀.installPath = some (.dir i) ∧
      w.tree.get tx₀.stagedPath = some (.dir j) := by
    obtain ⟨h1,h2,-⟩ | ⟨h1,h2,-⟩ := hplaces
    · exact ⟨i,j,h1,h2⟩
    · exact ⟨j,i,h1,h2⟩
  obtain ⟨a,b,ha,hb⟩ := hroots
  have hrun := hw.withTree (Base.exchanged set hk hw.held.safe.base ha hb)
    (Sound.ofExchanged hk hw.held.derived hw.sound.consistent he' (hw.phase.symm ▸ hp))
  refine Leaves.bind (leaves_atomic hw.held (fun _ => ⟨?_,hrun.held⟩) fun hn => ?_)
  · refine Leaves.bind (leaves_call hrun.held ?_)
    refine Leaves.ite (fun _ => leaves_call hrun.held ⟨rfl,hrun⟩) fun _ => Leaves.pure ⟨rfl,hrun⟩
  · have h1 := contains_of_existsAt (t := w.tree) (p := tx₀.installPath) (by
      unfold Tree.existsAt; rw [ha])
    have h2 := contains_of_existsAt (t := w.tree) (p := tx₀.stagedPath) (by
      unfold Tree.existsAt; rw [hb])
    simp [h1, h2, set.apart_staged.1, set.apart_staged.2] at hn

lemma leaves_rollbackDirectory (hw : Running t₀ tx₀ .rollingBack w)
    (he : Exchanged t₀ tx₀ w.tree w.hand) :
    Leaves (Safe t₀ tx₀) sure (rollbackDirectory w.hand)
      (fun _ w' => Running t₀ tx₀ .rollingBack w' ∧ w'.hand = w.hand ∧
        w'.completed = w.completed ∧ Old t₀ tx₀ w'.tree ∧
        w'.tree.get tx₀.stagedPath = t₀.get tx₀.stagedPath) (Held t₀ tx₀) w := by
  have hd := hw.held.derived
  obtain ⟨a,b,ha,hb,-,hstage⟩ := he.identities
  have hold {t : Tree} (h : ∀ p, t.get (tx₀.target p) = t₀.get (tx₀.target p)) :
      Old t₀ tx₀ t := by
    unfold Old
    rw [hk]
    exact h
  unfold rollbackDirectory
  refine Leaves.bind (Leaves.look ?_)
  rw [hd.install, hd.staged, hd.backup]
  refine Leaves.bind (Leaves.demand (fun _ => ?_) fun hn => ?_)
  · obtain ⟨i,j,hij,h1,h2,hplaces⟩ := Exchanged.cases set hk he
    rw [h1, h2]
    have hdir {p : Path} {k : DirectoryIdentity} (h : w.tree.get p = some (.dir k)) :
        w.tree.directoryIdentity p = .ok k := by
      unfold Tree.directoryIdentity
      rw [h]
    refine Leaves.bind (leaves_call hw.held ?_)
    obtain ⟨hi,hj,hp⟩ | ⟨hi,hj,hp⟩ := hplaces
    · rw [hdir hi, hdir hj]
      refine Leaves.bind (Leaves.pure (Leaves.bind (leaves_call hw.held ?_)))
      refine Leaves.bind (Leaves.pure ?_)
      rw [if_neg fun h => hij h.1, if_neg fun h => h.elim (fun h => h rfl) fun h => h rfl]
      refine Leaves.pure ⟨hw,rfl,rfl,hold hp,hj.trans ?_⟩
      rw [hstage, ← Option.some.inj (h2.symm.trans hb)]
    · rw [hdir hi, hdir hj]
      refine Leaves.bind (Leaves.pure (Leaves.bind (leaves_call hw.held ?_)))
      refine Leaves.bind (Leaves.pure ?_)
      rw [if_pos ⟨rfl,rfl⟩]
      refine (leaves_exchange set hk (.inr rfl) hw he (he.back set hp)).mono ?_ fun _ => id
      rintro - u ⟨rfl,hu⟩
      refine ⟨hu,rfl,rfl,hold fun p => ?_,?_⟩
      · rw [get_exchanged_target set]
        exact (hp p).2
      · have hroot := get_exchanged_stage set w.tree []
        rw [target, stage, List.append_nil, List.append_nil] at hroot
        exact hroot.trans (hi.trans (by rw [hstage, ← Option.some.inj (h2.symm.trans hb)]))
  · exact absurd (notLinked_eq_ok.mp hw.held.safe.base.unlinked) hn

/-- A transaction over a directory as it begins. -/
structure Beginning (t₀ : Tree) (tx₀ : InstallTransaction) (w : World) : Prop where
  held : Held t₀ tx₀ w
  tree : w.tree = t₀
  phase : w.hand.phase = .prepared
  pending : ∀ f ∈ w.hand.fileStates, f.phase = .pending ∧ f.originalExisted = none
  journal : w.stored.isSome = true

omit set in
lemma Beginning.inHand (hw : Beginning t₀ tx₀ w) {tx : InstallTransaction}
    (hd : Derived tx₀ tx) (hp : tx.phase = .prepared)
    (hf : tx.fileStates = w.hand.fileStates) : Beginning t₀ tx₀ { w with hand := tx } := by
  have hh := hw.held
  refine ⟨⟨hh.safe.anyHand _,hd,.inl ⟨hk,hp⟩,fun h => ?_,fun _ => hh.prepared hw.phase⟩,hw.tree,
    hp,fun f h => hw.pending f (hf ▸ h),hw.journal⟩
  exact absurd ((hh.completed h).symm.trans hw.phase) (by decide)

lemma leaves_applyDirectory (hw : Beginning t₀ tx₀ w) :
    Leaves (Safe t₀ tx₀) False applyDirectory (fun _ => Held t₀ tx₀) (Held t₀ tx₀) w := by
  have hd := hw.held.derived
  refine Leaves.bind (Leaves.look ?_)
  refine Leaves.bind (Leaves.look ?_)
  refine Leaves.bind (Leaves.demand (fun _ => ?_) fun _ => ⟨hw.held,not_false⟩)
  refine Leaves.bind (leaves_call hw.held ?_)
  refine Leaves.bind (Leaves.ofExcept (fun i hi => ?_) fun _ _ => ⟨hw.held,not_false⟩)
  have hw1 : Beginning t₀ tx₀
      { w with hand := { w.hand with directoryInstallIdentity := some i } } := hw.inHand hk
    ⟨hd.schema,hd.kind,hd.install,hd.staged,hd.backup,hd.files⟩ hw.phase rfl
  refine Leaves.bind (Leaves.modify ?_)
  refine Leaves.bind (leaves_call hw1.held ?_)
  refine Leaves.bind (Leaves.ofExcept (fun j hj => ?_) fun _ _ => ⟨hw1.held,not_false⟩)
  have hw2 : Beginning t₀ tx₀ { w with hand := { w.hand with
      directoryInstallIdentity := some i
      directoryStagedIdentity := some j } } := hw1.inHand hk
    ⟨hd.schema,hd.kind,hd.install,hd.staged,hd.backup,hd.files⟩ hw.phase rfl
  refine Leaves.bind (Leaves.modify ?_)
  have hget {p : Path} {k : DirectoryIdentity} (h : w.tree.directoryIdentity p = .ok k) :
      t₀.get p = some (.dir k) := by
    unfold Tree.directoryIdentity at h
    split at h
    · rename_i k' hk'
      cases h
      exact hw.tree ▸ hk'
    · cases h
  have he : Exchanged t₀ tx₀ w.tree { w.hand with
      phase := .installing
      directoryInstallIdentity := some i
      directoryStagedIdentity := some j } := by
    refine ⟨fun f hf => .inl (hw.pending f hf).1,⟨i,j,rfl,rfl,?_,?_⟩,.inl ⟨fun p => ?_,?_⟩⟩
    · exact hget (hd.install ▸ hi)
    · exact hget (hd.staged ▸ hj)
    · rw [hw.tree]
    · rw [hw.tree]
  have hconsistent : ∀ f ∈ w.hand.fileStates, f.phase = .pending ↔ f.originalExisted = none :=
    fun f hf => iff_of_true (hw.pending f hf).1 (hw.pending f hf).2
  have hs : Sound t₀ tx₀ w.tree { w.hand with
      phase := .installing
      directoryInstallIdentity := some i
      directoryStagedIdentity := some j } := Sound.ofExchanged hk
    ⟨hd.schema,hd.kind,hd.install,hd.staged,hd.backup,hd.files⟩ hconsistent he (.inl rfl)
  have hc : w.completed = true → TransactionPhase.installing = .completed := fun h =>
    absurd ((hw.held.completed h).symm.trans hw.phase) (by decide)
  refine Leaves.bind (leaves_enter set hw2.held hs hc (fun h => by cases h) ?_)
  have hrun := running_saved hw2.held hs hc (by decide)
  rw [hd.install, hd.staged]
  have he' := exchanged_of_original set he.files he.identities
  rw [show t₀.exchanged tx₀.installPath tx₀.stagedPath =
    w.tree.exchanged tx₀.installPath tx₀.stagedPath by rw [hw.tree]] at he'
  refine Leaves.bind ((leaves_exchange set hk (.inl rfl) hrun he he').mono ?_ fun _ => id)
  rintro - u ⟨hu,hur⟩
  have hue : Exchanged t₀ tx₀ u.tree u.hand := by
    rw [hu]
    exact he'
  have hinstalled : Sound t₀ tx₀ u.tree { u.hand with phase := .installed } := by
    obtain ⟨hd',hc',hf',-,-⟩ := hur.sound
    obtain ⟨a,b,ha,hb,-⟩ := hue.identities
    refine ⟨⟨hd'.schema,hd'.kind,hd'.install,hd'.staged,hd'.backup,hd'.files⟩,hc',hf',
      (fun _ h => by cases h.mpr ⟨by rw [ha]; rfl,by rw [hb]; rfl⟩),?_⟩
    unfold Phased Work New
    dsimp only
    rw [hk]
    refine ⟨⟨hue.files,hue.identities,hue.places⟩,fun p => ?_⟩
    rw [hu]
    exact (get_exchanged_target set _ p).trans (congrArg (fun t : Tree => t.get _) hw.tree)
  refine leaves_enter set hur.held hinstalled (fun h => ?_) (fun h => by cases h) ?_
  · exact absurd ((hur.held.completed h).symm.trans hur.phase) (by decide)
  · exact (running_saved hur.held hinstalled
      (fun h => absurd ((hur.held.completed h).symm.trans hur.phase) (by decide)) (by decide)).held

end
end RisuNest.Update
