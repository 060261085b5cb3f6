import RisuNest.Update.Inventories

/-! A rollback gives every file of the inventory back. -/
namespace RisuNest.Update
open Faulty Act InstallTransaction

variable {t₀ : Tree} {tx₀ : InstallTransaction} {sure : Prop} {w : World}

lemma leaves_rejectLinkedPath {C E : World → Prop} {root p : Path} {Q : Unit → World → Prop}
    (h : ∀ q ∈ p.inits.tail, ¬ (w.tree.existsAt (root ++ q) = true ∧
      w.tree.isLink (root ++ q) = true)) (hq : Q () w) :
    Leaves C sure (rejectLinkedPath root p) Q E w :=
  Leaves.bind (Leaves.look (Leaves.demand (fun _ => hq) fun hn => absurd h hn))

lemma get_eq_none_of_noted (hs : Separate t₀ tx₀) {f g : FileTransaction}
    (hg : g ∈ tx₀.fileStates) (hpath : g.path = f.path)
    (h : t₀.existsAt (tx₀.target f.path) = false) : t₀.get (tx₀.target f.path) = none := by
  obtain hn | hl := Tree.existsAt_eq_false.mp h
  · exact hn
  · exact absurd (hpath ▸ hl) (hs.lost g hg)

lemma existsAt_congr {t t' : Tree} {p q : Path} (h : t.get p = t'.get q) :
    t.existsAt p = t'.existsAt q := by
  unfold Tree.existsAt
  rw [h]

lemma isLink_congr {t t' : Tree} {p q : Path} (h : t.get p = t'.get q) :
    t.isLink p = t'.isLink q := by
  unfold Tree.isLink
  rw [h]

lemma isRegular_congr {t t' : Tree} {p q : Path} (h : t.get p = t'.get q) :
    t.isRegular p = t'.isRegular q := by
  unfold Tree.isRegular
  rw [h]

lemma existsAt_of_isRegular {t : Tree} {p : Path} (h : t.isRegular p = true) :
    t.existsAt p = true := by
  obtain ⟨bytes,hb⟩ := Tree.isRegular_iff.mp h
  unfold Tree.existsAt
  rw [hb]

lemma existsAt_of_none {t : Tree} {p : Path} (h : t.get p = none) : t.existsAt p = false :=
  Tree.existsAt_eq_false.mpr (.inl h)

lemma isLink_of_isRegular {t : Tree} {p : Path} (h : t.isRegular p = true) :
    t.isLink p = false := by
  obtain ⟨bytes,hb⟩ := Tree.isRegular_iff.mp h
  unfold Tree.isLink
  rw [hb]

section
variable (set : Setting t₀ tx₀) (hk : tx₀.kind = .files) {f g : FileTransaction}
include set hk

lemma Base.above {t : Tree} (hb : Base t₀ tx₀ t) (hg : g ∈ tx₀.fileStates)
    (hpath : g.path = f.path) {q : Path} (hq : q <+: f.path) (hne : q ≠ f.path) :
    t.get (tx₀.target q) = t₀.get (tx₀.target q) ∨
      t₀.get (tx₀.target q) = none ∧ ∃ identity, t.get (tx₀.target q) = some (.dir identity) := by
  refine hb.kept _ (set.not_staged q) (set.not_backup q) fun ht => ?_
  unfold Touched at ht
  rw [hk] at ht
  obtain ⟨h,hh,he⟩ := ht
  have he : q = h.path := List.append_cancel_left he
  subst he
  exact hne (((set.separate hk).apart h hh g hg (hpath ▸ hq)).trans hpath)

lemma FileOk.unlinked {t : Tree} (hb : Base t₀ tx₀ t) (hg : g ∈ tx₀.fileStates)
    (hpath : g.path = f.path) (hn : Noted t₀ tx₀ f)
    (hf : t.get (tx₀.target f.path) = t₀.get (tx₀.target f.path) ∨
      t.get (tx₀.target f.path) = none ∨ t.isRegular (tx₀.target f.path) = true) :
    ∀ q ∈ f.path.inits.tail, ¬ (t.existsAt (tx₀.target q) = true ∧
      t.isLink (tx₀.target q) = true) := by
  intro q hq hl
  obtain ⟨hinit,-⟩ := mem_prefixes.mp hq
  have hsame (he : t.get (tx₀.target q) = t₀.get (tx₀.target q)) : False := by
    rw [existsAt_congr he, isLink_congr he] at hl
    exact hn.unlinked q hq hl
  by_cases hne : q = f.path
  · subst hne
    obtain he | he | he := hf
    · exact hsame he
    · rw [existsAt_of_none he] at hl
      cases hl.1
    · rw [isLink_of_isRegular he] at hl
      cases hl.2
  · obtain he | ⟨-,identity,he⟩ := hb.above set hk hg hpath hinit hne
    · exact hsame he
    · obtain ⟨target,hlink⟩ := Tree.isLink_iff.mp hl.2
      rw [he] at hlink
      cases hlink

lemma Base.dirs_above {t : Tree} (hb : Base t₀ tx₀ t) (hg : g ∈ tx₀.fileStates)
    (hpath : g.path = f.path) (h : t₀.isRegular (tx₀.target f.path) = true) {q : Path}
    (hq : q <+: (tx₀.target f.path).dropLast) : t.isDir q = true := by
  have hne := hpath ▸ set.relative g hg
  obtain ⟨bytes,hbytes⟩ := Tree.isRegular_iff.mp h
  have hinit : q <+: tx₀.target f.path := prefix_of_prefix_dropLast hq
  obtain ⟨s,hs⟩ := hinit
  have hsne : s ≠ [] := by
    rintro rfl
    rw [List.append_nil] at hs
    exact ne_of_prefix_dropLast (by simp [hne]) hq hs
  obtain ⟨identity,hdir⟩ := set.dirs_above hsne (by rw [hs, hbytes]; exact Option.some_ne_none _)
  have hstage : ¬ tx₀.stagedPath <+: q := fun h' =>
    set.not_staged f.path (h'.trans (prefix_of_prefix_dropLast hq))
  have hbackup : ¬ tx₀.backupPath <+: q := fun h' =>
    set.not_backup f.path (h'.trans (prefix_of_prefix_dropLast hq))
  have htouched : ¬ Touched tx₀ q := by
    unfold Touched
    rw [hk]
    rintro ⟨h',hh',rfl⟩
    have hp := prefix_append_dropLast hne hq
    have he := (set.separate hk).apart h' hh' g hg (hpath ▸ prefix_of_prefix_dropLast hp)
    exact ne_of_prefix_dropLast hne hp (he.trans hpath)
  obtain he | ⟨hn,-⟩ := hb.kept q hstage hbackup htouched
  · exact Tree.isDir_of_get (he.trans hdir)
  · rw [hdir] at hn
    cases hn

lemma leaves_restoreFile {i : ℕ} (hw : Running t₀ tx₀ .rollingBack w)
    (hi : w.hand.fileStates[i]? = some f) (hrestored : f.phase ≠ .restored)
    (hexisted : f.originalExisted ≠ none) :
    Leaves (Safe t₀ tx₀) sure (restoreFile w.hand f)
      (fun _ w' => Running t₀ tx₀ .rollingBack w' ∧ w'.hand = w.hand ∧
        w'.completed = w.completed ∧
        w'.tree.get (tx₀.target f.path) = t₀.get (tx₀.target f.path)) (Held t₀ tx₀) w := by
  have hd := hw.held.derived
  have hb := hw.held.safe.base
  have hmem := List.mem_of_getElem? hi
  obtain ⟨g,hg,hpath,-⟩ := hd.origin hmem
  have hne : f.path ≠ [] := hpath ▸ set.relative g hg
  have hplain (q : Path) (hl : w.tree.existsAt (tx₀.backup q) = true ∧
      w.tree.isLink (tx₀.backup q) = true) : False := by
    rw [hb.plain q] at hl
    cases hl.2
  have hreject {tail : Act Unit} {Q : Unit → World → Prop} (hn : Noted t₀ tx₀ f)
      (hf : w.tree.get (tx₀.target f.path) = t₀.get (tx₀.target f.path) ∨
        w.tree.get (tx₀.target f.path) = none ∨ w.tree.isRegular (tx₀.target f.path) = true)
      (h : Leaves (Safe t₀ tx₀) sure tail Q (Held t₀ tx₀) w) :
      Leaves (Safe t₀ tx₀) sure (do
        rejectLinkedPath tx₀.installPath f.path
        rejectLinkedPath tx₀.backupPath f.path
        tail) Q (Held t₀ tx₀) w :=
    Leaves.bind (leaves_rejectLinkedPath (FileOk.unlinked set hk hb hg hpath hn hf)
      (Leaves.bind (leaves_rejectLinkedPath (fun q _ => hplain q) h)))
  unfold restoreFile
  rw [hd.install, hd.staged, hd.backup]
  cases hw.work hk (.inr rfl) f hmem with
  | pending hp ho => exact absurd ho hexisted
  | restored hp => exact absurd hp hrestored
  | unchanged hn hs hback =>
    refine hreject hn (.inl hs) (Leaves.bind (Leaves.look ?_))
    rw [hn.existed, existsAt_congr hs]
    cases he : t₀.existsAt (tx₀.target f.path) with
    | false =>
      rw [if_pos rfl]
      refine Leaves.ite (fun _ => ?_) fun _ => Leaves.ite (fun h => nomatch h.1) fun _ => ?_
      · exact Leaves.demand (fun _ => ⟨hw,rfl,rfl,hs⟩) fun h => absurd rfl h
      · exact Leaves.pure ⟨hw,rfl,rfl,hs⟩
    | true =>
      rw [if_neg (by decide), existsAt_of_none (hback he), if_neg (by decide),
        if_neg fun h => nomatch h.2]
      exact Leaves.pure ⟨hw,rfl,rfl,hs⟩
  | saved hn hr hback hs =>
    refine hreject hn (.inr hs) (Leaves.bind (Leaves.look ?_))
    obtain ⟨bytes,hbytes⟩ := Tree.isRegular_iff.mp hr
    have hback' := hback.trans hbytes
    have hdir := fun q hq => hb.dirs_above set hk hg hpath hr (q := q) hq
    have hafter : (w.tree.renamed (tx₀.backup f.path) (tx₀.target f.path)).get
        (tx₀.target f.path) = t₀.get (tx₀.target f.path) := by
      rw [Tree.get_renamed hback', if_pos rfl, hbytes]
    rw [hn.existed, existsAt_of_isRegular hr, if_neg (by decide),
      existsAt_of_isRegular (isRegular_congr hback |>.trans hr), if_pos rfl]
    refine Leaves.bind (leaves_createDirAll_of_dirs (fun q hq _ => hdir q hq) ?_)
    have hrename {e : String} : Leaves (Safe t₀ tx₀) sure
        (durableRename (tx₀.backup f.path) (tx₀.target f.path) e)
        (fun _ w' => Running t₀ tx₀ .rollingBack w' ∧ w'.hand = w.hand ∧
          w'.completed = w.completed ∧
          w'.tree.get (tx₀.target f.path) = t₀.get (tx₀.target f.path)) (Held t₀ tx₀) w := by
      refine leaves_rename set hk (.inr rfl) hw hi hw.held (by simp) (by simp) hback'
        (.unchanged hn hafter fun _ => ?_) (fun hmay => ?_)
        fun _ hrun => ⟨⟨hrun,rfl,rfl,hafter⟩,hrun.held⟩
      · rw [Tree.get_renamed hback', if_neg (set.target_ne_backup _ _).symm, if_pos rfl]
      · rw [Tree.mayRename_of_regular (Tree.isRegular_iff.mpr ⟨bytes,hback'⟩)
          (hdir _ List.prefix_rfl) hs] at hmay
        cases hmay
    refine Leaves.bind (Leaves.look ?_)
    exact Leaves.ite (fun _ => hrename) fun _ => hrename
  | added hn ho hs hback hstage hdir =>
    refine hreject hn (.inr (.inr hs)) (Leaves.bind (Leaves.look ?_))
    obtain ⟨bytes,hbytes⟩ := Tree.isRegular_iff.mp hs
    have hnone := get_eq_none_of_noted (set.separate hk) hg hpath ho
    have hafter : (w.tree.renamed (tx₀.target f.path) (tx₀.backup f.path)).get
        (tx₀.target f.path) = t₀.get (tx₀.target f.path) := by
      rw [Tree.get_renamed hbytes, if_neg (set.target_ne_backup _ _), if_pos rfl, hnone]
    rw [hn.existed, ho, if_pos rfl, existsAt_of_none hback, if_neg (by decide),
      if_pos ⟨existsAt_of_isRegular hs,existsAt_of_none hstage⟩]
    refine leaves_rename set hk (.inr rfl) hw hi hw.held (by simp) (by simp) hbytes
      (.unchanged hn hafter fun he => ?_) (fun hmay => ?_) fun _ hrun => ⟨⟨hrun,rfl,rfl,hafter⟩,hrun.held⟩
    · rw [ho] at he
      cases he
    · rw [Tree.mayRename_of_regular hs hdir (.inl hback)] at hmay
      cases hmay

lemma leaves_rollbackFile {i : ℕ} (hw : Running t₀ tx₀ .rollingBack w) :
    Leaves (Safe t₀ tx₀) sure (rollbackFile i)
      (fun _ w' => Running t₀ tx₀ .rollingBack w' ∧ w'.completed = w.completed ∧
        (∀ f, w'.hand.fileStates[i]? = some f → f.phase = .pending ∨ f.phase = .restored) ∧
        (∀ j, j ≠ i → w'.hand.fileStates[j]? = w.hand.fileStates[j]?) ∧
        w'.hand.fileStates.length = w.hand.fileStates.length) (Held t₀ tx₀) w := by
  refine Leaves.bind (Leaves.look ?_)
  cases hi : w.hand.fileStates[i]? with
  | none =>
    refine Leaves.pure ⟨hw,rfl,fun f hf => ?_,fun _ _ => rfl,rfl⟩
    rw [hi] at hf
    cases hf
  | some f =>
    have hok := hw.work hk (.inr rfl) f (List.mem_of_getElem? hi)
    refine Leaves.ite (fun hdone => Leaves.pure ⟨hw,rfl,fun g hg => ?_,fun _ _ => rfl,rfl⟩)
      fun hopen => ?_
    · rw [hi] at hg
      obtain rfl := Option.some.inj hg
      exact hdone.symm.imp_left hok.consistent.mpr
    · obtain ⟨hrestored,hexisted⟩ := not_or.mp hopen
      refine Leaves.bind ((leaves_restoreFile set hk hw hi hrestored hexisted).mono ?_ fun _ => id)
      rintro - u ⟨hu,hhand,hc,hafter⟩
      have hui : u.hand.fileStates[i]? = some f := hhand ▸ hi
      refine leaves_noteFile set hk (.inr rfl) hu hui ⟨rfl,rfl⟩ (.restored rfl hexisted hafter) ?_
      intro v hv htree hvc hfiles
      refine ⟨hv,hvc.trans hc,fun g hg => ?_,fun j hj => ?_,?_⟩
      · rw [hfiles, List.getElem?_modify, hui] at hg
        simp only [if_true] at hg
        obtain rfl := Option.some.inj hg
        exact .inr rfl
      · rw [hfiles, List.getElem?_modify, hhand]
        simp [hj.symm]
      · rw [hfiles, List.length_modify, hhand]

lemma leaves_rollbackFiles (hw : Running t₀ tx₀ .rollingBack w) :
    Leaves (Safe t₀ tx₀) sure
      ((List.range w.hand.fileStates.length).reverse.forM rollbackFile)
      (fun _ w' => Running t₀ tx₀ .rollingBack w' ∧ w'.completed = w.completed ∧
        Settled w'.hand) (Held t₀ tx₀) w := by
  refine (Leaves.forM (fun done w' => Running t₀ tx₀ .rollingBack w' ∧
    w'.completed = w.completed ∧ w'.hand.fileStates.length = w.hand.fileStates.length ∧
    ∀ j ∈ done, ∀ f, w'.hand.fileStates[j]? = some f →
      f.phase = .pending ∨ f.phase = .restored) ?_ ?_).mono ?_ fun _ => id
  · rintro done i rest u - ⟨hu,hc,hlen,hdone⟩
    refine (leaves_rollbackFile set hk hu).mono ?_ fun _ => id
    rintro - v ⟨hv,hvc,hi,hothers,hvl⟩
    refine ⟨hv,hvc.trans hc,hvl.trans hlen,fun j hj f hf => ?_⟩
    by_cases hij : j = i
    · subst hij
      exact hi f hf
    · rw [hothers j hij] at hf
      refine hdone j ?_ f hf
      simpa [hij] using hj
  · exact ⟨hw,rfl,rfl,fun j hj => nomatch hj⟩
  · rintro - u ⟨hu,hc,hlen,hdone⟩
    refine ⟨hu,hc,fun f hf => ?_⟩
    obtain ⟨j,hj⟩ := List.mem_iff_getElem?.mp hf
    refine hdone j ?_ f hj
    have := (List.getElem?_eq_some_iff.mp hj).1
    simp only [List.mem_reverse, List.mem_range]
    omega

omit set hk in
lemma FileOk.old {t : Tree} (h : FileOk t₀ tx₀ t f)
    (hs : f.phase = .pending ∨ f.phase = .restored) :
    t.get (tx₀.target f.path) = t₀.get (tx₀.target f.path) := by
  cases h with
  | pending _ _ h => exact h
  | restored _ _ h => exact h
  | unchanged _ h => exact h
  | saved hn => exact absurd hs (not_or.mpr ⟨hn.phase,hn.active⟩)
  | added hn => exact absurd hs (not_or.mpr ⟨hn.phase,hn.active⟩)

end

/-! ### Rollbacks of both kinds -/

/-- Where a rollback may start: for a directory neither before anything was noted nor after a
rollback whose stage was discarded, and never after the transaction was completed. -/
def MayRollBack (t : Tree) (tx : InstallTransaction) : Prop :=
  tx.phase ≠ .completed ∧ (tx.kind = .directory →
    tx.phase ≠ .prepared ∧ (tx.phase = .rolledBack → t.existsAt tx.stagedPath = true))

instance (t : Tree) (tx : InstallTransaction) : Decidable (MayRollBack t tx) :=
  inferInstanceAs (Decidable (_ ∧ _))

lemma Sound.rollingBack {t : Tree} {tx : InstallTransaction} (hs : Sound t₀ tx₀ t tx)
    (hp : tx.phase ≠ .prepared) (hm : MayRollBack t tx) :
    Sound t₀ tx₀ t { tx with phase := .rollingBack } := by
  have hd := hs.derived
  have hphased := hs.phased
  refine ⟨⟨hd.schema,hd.kind,hd.install,hd.staged,hd.backup,hd.files⟩,hs.consistent,hs.files,
    fun hk h => ?_,?_⟩
  · exact hs.directory hk (iff_of_false hp fun hi => nomatch h.mpr hi)
  · change Work t₀ tx₀ t { tx with phase := .rollingBack }
    have hwork (hw : Work t₀ tx₀ t tx) : Work t₀ tx₀ t { tx with phase := .rollingBack } := by
      unfold Work at hw ⊢
      split at hw
      · exact hw
      · exact ⟨hw.files,hw.identities,hw.places⟩
    unfold Phased at hphased
    split at hphased
    · rename_i hphase
      exact absurd hphase hp
    · rename_i hphase
      exact absurd hphase hm.1
    · rename_i hphase
      obtain ⟨hold,hsettled,hstage⟩ := hphased
      unfold Work
      unfold Old at hold
      cases hk : tx₀.kind with
      | directory =>
        rw [hk] at hold
        obtain ⟨hr,hgone | hsame⟩ := hstage hk
        · have hthere := (hm.2 (hd.kind.trans hk)).2 hphase
          rw [hd.staged, existsAt_of_none hgone] at hthere
          cases hthere
        · exact ⟨hsettled,hr,.inl ⟨hold,hsame⟩⟩
      | files =>
        rw [hk] at hold
        intro f hf
        obtain ⟨g,hg,hpath,-⟩ := hd.origin hf
        have hold := hold g hg
        rw [hpath] at hold
        obtain hpending | hrestored := hsettled f hf
        · exact .pending hpending ((hs.consistent f hf).mp hpending) hold
        · exact .restored hrestored (fun ho => by
            have := (hs.consistent f hf).mpr ho
            rw [hrestored] at this
            cases this) hold
    · exact hwork hphased.1
    · exact hwork hphased.1
    · exact hwork hphased

/-- What `rollback` leaves: the original files, under a transaction that is rolled back. -/
theorem leaves_rollback (set : Setting t₀ tx₀) (hw : Held t₀ tx₀ w)
    (hm : MayRollBack w.tree w.hand) :
    Leaves (Safe t₀ tx₀) sure rollback (fun _ w' => Closing t₀ tx₀ .rolledBack w' ∧
      w'.stored = some w'.hand ∧ w'.completed = w.completed) (Held t₀ tx₀) w := by
  have hc : w.completed = false :=
    Bool.eq_false_iff.mpr fun h => hm.1 (hw.completed h)
  refine Leaves.bind (Leaves.look ?_)
  refine Leaves.ite (fun hp => ?_) fun hp => ?_
  · -- only a transaction over files is rolled back before it began
    have hk : tx₀.kind = .files := by
      cases hk : tx₀.kind with
      | files => rfl
      | directory => exact absurd hp (hm.2 (hw.derived.kind.trans hk)).1
    exact leaves_rollbackPrepared set hk ⟨hw,hp,hw.prepared hp⟩
  · have hs := (hw.hand.resolve_left fun h => hp h.2).rollingBack hp hm
    have hcompleted {phase : TransactionPhase} : w.completed = true → phase = .completed :=
      fun h => absurd (hc.symm.trans h) (by decide)
    refine Leaves.bind (leaves_enter set hw hs hcompleted (fun h => by cases h) ?_)
    have hrun := running_saved hw hs hcompleted (by decide)
    have hcs : (saved (w.held fun tx => { tx with phase := .rollingBack })).completed =
        w.completed := Bool.or_false _
    have hfinish {u : World} (hu : Running t₀ tx₀ .rollingBack u)
        (huc : u.completed = w.completed) (hold : Old t₀ tx₀ u.tree) (hsettled : Settled u.hand)
        (hstage : Discarding t₀ tx₀ u.tree u.hand) :
        Leaves (Safe t₀ tx₀) sure (enter .rolledBack) (fun _ w' =>
          Closing t₀ tx₀ .rolledBack w' ∧ w'.stored = some w'.hand ∧
            w'.completed = w.completed) (Held t₀ tx₀) u := by
      have hud := hu.sound.derived
      have hrolled : Sound t₀ tx₀ u.tree { u.hand with phase := .rolledBack } := by
        refine ⟨⟨hud.schema,hud.kind,hud.install,hud.staged,hud.backup,hud.files⟩,
          hu.sound.consistent,hu.sound.files,fun hk h => ?_,hold,hsettled,hstage⟩
        refine hu.sound.directory hk (iff_of_false (by rw [hu.phase]; decide) fun hi => ?_)
        cases h.mpr hi
      have huc' {phase : TransactionPhase} : u.completed = true → phase = .completed :=
        fun h => hcompleted (huc ▸ h)
      refine leaves_enter set hu.held hrolled huc' (fun h => by cases h) ⟨⟨?_,rfl,?_⟩,rfl,?_⟩
      · exact (running_saved hu.held hrolled huc' (by decide)).held
      · intro tx htx
        obtain rfl := Option.some.inj htx
        rfl
      · exact (Bool.or_false _).trans huc
    have hkind := hw.derived.kind
    cases hk : w.hand.kind with
    | directory =>
      have hk₀ := hkind.symm.trans hk
      have he : Exchanged t₀ tx₀ w.tree { w.hand with phase := .rollingBack } := by
        have hphased := hs.phased
        unfold Phased Work at hphased
        rw [hk₀] at hphased
        exact hphased
      refine Leaves.bind ((leaves_rollbackDirectory set hk₀ hrun he).mono ?_ fun _ => id)
      rintro - u ⟨hu,hhand,huc,hold,hstage⟩
      exact hfinish hu (huc.trans hcs) hold (hhand ▸ he.files)
        fun _ => ⟨hhand ▸ he.identities,.inr hstage⟩
    | files =>
      have hk₀ := hkind.symm.trans hk
      refine Leaves.bind ((leaves_rollbackFiles set hk₀ hrun).mono ?_ fun _ => id)
      rintro - u ⟨hu,huc,hsettled⟩
      refine hfinish hu (huc.trans hcs) ?_ hsettled fun h => absurd (hk₀.symm.trans h) (by decide)
      unfold Old
      rw [hk₀]
      intro g hg
      obtain ⟨f,hf,hpath,-⟩ := hu.sound.derived.later hg
      rw [← hpath]
      exact (hu.work hk₀ (.inr rfl) f hf).old (hsettled f hf)

end RisuNest.Update
