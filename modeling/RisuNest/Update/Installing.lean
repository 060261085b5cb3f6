import RisuNest.Update.Applying

/-! An install transaction is applied: the loop over its files, and both kinds. -/
namespace RisuNest.Update
open Faulty Act InstallTransaction

variable {t₀ : Tree} {tx₀ : InstallTransaction} {w : World}

section
variable (set : Setting t₀ tx₀) (hk : tx₀.kind = .files) {i : ℕ}
include set hk

lemma leaves_applyFile {f : FileTransaction} (hw : Running t₀ tx₀ .installing w)
    (hi : w.hand.fileStates[i]? = some f) (hu : Untouched t₀ tx₀ w.tree f)
    {Q : Unit → World → Prop}
    (hq : ∀ v g, Round t₀ tx₀ i g w v → g.path = f.path → Placed t₀ tx₀ v.tree g → Q () v) :
    Leaves (Safe t₀ tx₀) False (applyFile i) Q (Held t₀ tx₀) w := by
  have htarget := (hw.work hk (.inl rfl) f (List.mem_of_getElem? hi)).old (.inl hu.phase)
  refine Leaves.bind (Leaves.look ?_)
  rw [hi]
  refine Leaves.bind (leaves_prepareFile set hk hw hi hu fun v hv htree hl => ?_)
  rw [← htree] at hl htarget
  refine Leaves.bind (leaves_prepareDirectories set hk hw.held.derived (by exact ⟨rfl,rfl⟩) hv
    htarget (htree ▸ hu.stage) (htree ▸ hu.backup) hl fun x hx hready => ?_)
  refine Leaves.bind (leaves_placeFile set hk hw.held.derived (by exact ⟨rfl,rfl⟩) hx hready
    fun y phase hy hplaced => ?_)
  refine leaves_phase set hk hy (by decide) (by decide) fun z hz hzt => ?_
  exact hq z _ hz rfl (by rw [hzt]; exact hplaced)

/-- The files that the loop came to are in their places, the others as they were. -/
structure Midway (t₀ : Tree) (tx₀ : InstallTransaction) (n : ℕ) (done : List ℕ) (w : World) :
    Prop where
  run : Running t₀ tx₀ .installing w
  length : w.hand.fileStates.length = n
  placed : ∀ j f, w.hand.fileStates[j]? = some f → j ∈ done → Placed t₀ tx₀ w.tree f
  untouched : ∀ j f, w.hand.fileStates[j]? = some f → j ∉ done → Untouched t₀ tx₀ w.tree f

lemma Midway.next {n : ℕ} {done : List ℕ} {g f : FileTransaction} {v : World}
    (hw : Midway t₀ tx₀ n done w) (hi : w.hand.fileStates[i]? = some f)
    (hv : Round t₀ tx₀ i g w v) (hpath : g.path = f.path) (hp : Placed t₀ tx₀ v.tree g) :
    Midway t₀ tx₀ n (done ++ [i]) v := by
  have hothers {j : ℕ} {h : FileTransaction} (hj : v.hand.fileStates[j]? = some h) (hji : j ≠ i) :
      w.hand.fileStates[j]? = some h ∧ Distant tx₀ g.path h.path := by
    rw [hv.others j hji] at hj
    exact ⟨hj,hpath ▸ hw.run.distant set hk hi hj hji⟩
  refine ⟨hv.run,hv.length.trans hw.length,fun j h hj hm => ?_,fun j h hj hm => ?_⟩
  · by_cases hji : j = i
    · subst hji
      rw [hv.file] at hj
      exact Option.some.inj hj ▸ hp
    · obtain ⟨hjw,hd⟩ := hothers hj hji
      refine hv.apart.placed set hd (hw.placed j h hjw ?_)
      simpa [hji] using hm
  · rw [List.mem_append, List.mem_singleton, not_or] at hm
    obtain ⟨hjw,hd⟩ := hothers hj hm.2
    obtain ⟨hphase,hstage,hbackup⟩ := hw.untouched j h hjw hm.1
    exact ⟨hphase,(hv.apart.stage set hd).trans hstage,(hv.apart.backup set hd).trans hbackup⟩

lemma leaves_applyLoop (hw : Midway t₀ tx₀ w.hand.fileStates.length [] w) :
    Leaves (Safe t₀ tx₀) False ((List.range w.hand.fileStates.length).forM applyFile)
      (fun _ u => Running t₀ tx₀ .installing u ∧
        ∀ f ∈ u.hand.fileStates, Placed t₀ tx₀ u.tree f) (Held t₀ tx₀) w := by
  refine (Leaves.forM (Midway t₀ tx₀ w.hand.fileStates.length) ?_ hw).mono ?_ fun _ => id
  · intro done i rest u hl hu
    have hnew : i ∉ done := by
      have hnodup := List.nodup_range (n := w.hand.fileStates.length)
      rw [hl] at hnodup
      intro hm
      exact List.disjoint_of_nodup_append hnodup hm (by simp)
    have hlt : i < w.hand.fileStates.length := by
      rw [← List.mem_range, hl]
      simp
    obtain ⟨f,hi⟩ : ∃ f, u.hand.fileStates[i]? = some f :=
      ⟨_,List.getElem?_eq_getElem (by rw [hu.length]; exact hlt)⟩
    exact leaves_applyFile set hk hu.run hi (hu.untouched i f hi hnew)
      fun v g hv hpath hp => hu.next set hk hi hv hpath hp
  · intro _ u hu
    refine ⟨hu.run,fun f hf => ?_⟩
    obtain ⟨j,hj⟩ := List.mem_iff_getElem?.mp hf
    refine hu.placed j f hj (List.mem_range.mpr ?_)
    rw [← hu.length]
    exact (List.getElem?_eq_some_iff.mp hj).1

end
/-! ### From the first step on -/

lemma Base.withDir {u : World} (hb : Base t₀ tx₀ u.tree) {q : Path} (hn : u.tree.get q = none) :
    Base t₀ tx₀ (u.withDir q).tree := by
  have hlink {r : Path} (hl : (u.withDir q).tree.isLink r = true) :
      (u.withDir q).tree.get r = u.tree.get r := by
    refine (get_withDir u q r).trans (if_neg ?_)
    rintro rfl
    obtain ⟨target,ht⟩ := Tree.isLink_iff.mp hl
    rw [get_withDir, if_pos rfl] at ht
    cases ht
  refine ⟨fun r h1 h2 h3 => ?_,notLinked_eq_ok.mpr fun r hr hl => ?_,fun r => ?_⟩
  · by_cases hr : r = q
    · subst hr
      refine .inr ⟨?_,_,(get_withDir u r r).trans (if_pos rfl)⟩
      obtain he | ⟨h0,-⟩ := hb.kept r h1 h2 h3
      · exact he.symm.trans hn
      · exact h0
    · rw [get_withDir, if_neg hr]
      exact hb.kept r h1 h2 h3
  · refine notLinked_eq_ok.mp hb.unlinked r hr ?_
    rwa [existsAt_congr (hlink hl.2), isLink_congr (hlink hl.2)] at hl
  · refine Bool.eq_false_iff.mpr fun hl => ?_
    rw [isLink_congr (hlink hl), hb.plain r] at hl
    cases hl

lemma Sound.preparing {t t' : Tree} {tx : InstallTransaction} (hs : Sound t₀ tx₀ t tx)
    (hp : tx.phase = .prepared) (ho : Old t₀ tx₀ t') : Sound t₀ tx₀ t' tx := by
  refine ⟨hs.derived,hs.consistent,hs.files,hs.directory,?_⟩
  have hphased := hs.phased
  unfold Phased at hphased ⊢
  rw [hp] at hphased ⊢
  exact ⟨ho,hphased.2⟩

section
variable (set : Setting t₀ tx₀) (hk : tx₀.kind = .files)
include set hk

/-- The backup's directory is made before the transaction begins. -/
structure Opening (t₀ : Tree) (tx₀ : InstallTransaction) (w u : World) : Prop where
  held : Held t₀ tx₀ u
  hand : u.hand = w.hand
  journal : u.stored.isSome = true
  same : ∀ p, p ≠ [] → u.tree.get (tx₀.target p) = t₀.get (tx₀.target p) ∧
    u.tree.get (tx₀.stage p) = t₀.get (tx₀.stage p) ∧ u.tree.get (tx₀.backup p) = none

lemma Opening.withDir {u : World} (hw : w.hand.phase = .prepared) (hu : Opening t₀ tx₀ w u)
    {q : Path} (hq : q <+: tx₀.backupPath) (hn : u.tree.get q = none) :
    Opening t₀ tx₀ w (u.withDir q) := by
  have hl := set.length_staged.symm.trans set.length_backup
  have hback : tx₀.backupPath = tx₀.backup [] := (List.append_nil _).symm
  have hsame : ∀ p, p ≠ [] →
      (u.withDir q).tree.get (tx₀.target p) = t₀.get (tx₀.target p) ∧
      (u.withDir q).tree.get (tx₀.stage p) = t₀.get (tx₀.stage p) ∧
      (u.withDir q).tree.get (tx₀.backup p) = none := by
    intro p hp
    obtain ⟨h1,h2,h3⟩ := hu.same p hp
    refine ⟨?_,?_,?_⟩
    · refine (get_withDir u q _).trans ((if_neg ?_).trans h1)
      rintro rfl
      exact not_prefix_of_roots set.length_backup set.distinct.2.1 (hback ▸ hq)
    · refine (get_withDir u q _).trans ((if_neg ?_).trans h2)
      rintro rfl
      exact not_prefix_of_roots hl set.distinct.2.2 (hback ▸ hq)
    · refine (get_withDir u q _).trans ((if_neg ?_).trans h3)
      rintro rfl
      have hlen := hq.length_le
      rw [List.length_append] at hlen
      have := List.length_pos_iff.mpr hp
      omega
  have hold : Old t₀ tx₀ (u.withDir q).tree := by
    unfold Old
    rw [hk]
    exact fun f hf => (hsame f.path (set.relative f hf)).1
  have hphase := hu.hand ▸ hw
  refine ⟨hu.held.withTree hu.journal (hu.held.safe.base.withDir hn) (fun tx htx => ?_) (.inr ?_),
    hu.hand,hu.journal,hsame⟩
  · exact (hu.held.safe.stored tx htx).1.preparing (hu.held.prepared hphase tx htx) hold
  · refine Sound.preparing (hu.held.hand.resolve_left fun h => ?_) hphase hold
    exact absurd (hk.symm.trans h.1) (by decide)

lemma leaves_applyFiles (hw : Beginning t₀ tx₀ w) :
    Leaves (Safe t₀ tx₀) False applyFiles (fun _ => Held t₀ tx₀) (Held t₀ tx₀) w := by
  refine Leaves.bind (Leaves.look ?_)
  rw [hw.held.derived.backup]
  have hopening : Opening t₀ tx₀ w w := by
    refine ⟨hw.held,rfl,hw.journal,fun p _ => ?_⟩
    rw [hw.tree]
    exact ⟨rfl,rfl,set.unused p⟩
  refine Leaves.bind ((leaves_createDirAll (Opening t₀ tx₀ w)
    (fun u hu => ⟨hu.held,hu.held.safe⟩)
    (fun u q hu hq hn => hu.withDir set hk hw.phase hq hn) hopening).mono ?_ fun _ => id)
  rintro - u ⟨hu,-⟩
  refine Leaves.bind (leaves_call hu.held ?_)
  have hd := hu.held.derived
  have hphase := hu.hand ▸ hw.phase
  have hsound := hu.held.hand.resolve_left fun h => absurd (hk.symm.trans h.1) (by decide)
  have hpending : ∀ f ∈ u.hand.fileStates, f.phase = .pending ∧ f.originalExisted = none :=
    hu.hand ▸ hw.pending
  have hrelative : ∀ f ∈ u.hand.fileStates, f.path ≠ [] := by
    intro f hf
    obtain ⟨g,hg,hpath,-⟩ := hd.origin hf
    exact hpath ▸ set.relative g hg
  have hs : Sound t₀ tx₀ u.tree { u.hand with phase := .installing } := by
    refine Sound.ofFiles hk (.inl rfl)
      ⟨hd.schema,hd.kind,hd.install,hd.staged,hd.backup,hd.files⟩ (fun f hf => ?_)
      (hsound.files hk).1 (hsound.files hk).2 rfl
    exact .pending (hpending f hf).1 (hpending f hf).2 (hu.same f.path (hrelative f hf)).1
  have hc : u.completed = true → TransactionPhase.installing = .completed := fun h =>
    absurd ((hu.held.completed h).symm.trans hphase) (by decide)
  have hrun := running_saved hu.held hs hc (by decide)
  refine Leaves.bind (leaves_enter set hu.held hs hc (fun h => nomatch h) ?_)
  have hlength : w.hand.fileStates.length = u.hand.fileStates.length := by rw [hu.hand]
  rw [hlength]
  refine Leaves.bind ((leaves_applyLoop set hk ⟨hrun,rfl,(fun _ _ _ h => nomatch h),?_⟩).mono ?_
    fun _ => id)
  · intro j f hj _
    have hf : f ∈ u.hand.fileStates := List.mem_of_getElem? hj
    have hsame := hu.same f.path (hrelative f hf)
    exact ⟨(hpending f hf).1,hsame.2.1,hsame.2.2⟩
  · rintro - x ⟨hx,hplaced⟩
    have hdx := hx.sound.derived
    have hsx : Sound t₀ tx₀ x.tree { x.hand with phase := .installed } := by
      refine ⟨⟨hdx.schema,hdx.kind,hdx.install,hdx.staged,hdx.backup,hdx.files⟩,
        hx.sound.consistent,hx.sound.files,(fun h => absurd (hk.symm.trans h) (by decide)),?_⟩
      unfold Phased Work New
      dsimp only
      rw [hk]
      refine ⟨hx.work hk (.inl rfl),fun g hg => ?_⟩
      obtain ⟨f,hf,hpath,hdesired⟩ := hdx.later hg
      have hp := hplaced f hf
      unfold Placed at hp ⊢
      rwa [hpath, hdesired] at hp
    have hcx : x.completed = true → TransactionPhase.installed = .completed := fun h =>
      absurd ((hx.held.completed h).symm.trans hx.phase) (by decide)
    exact leaves_enter set hx.held hsx hcx (fun h => nomatch h)
      (running_saved hx.held hsx hcx (by decide)).held

omit hk in
/-- What `apply` leaves, over the trees as they were. -/
theorem leaves_apply (hw : Held t₀ tx₀ w) (htree : w.tree = t₀) (hhand : w.hand = tx₀)
    (hs : Sound t₀ tx₀ w.tree w.hand) :
    Leaves (Safe t₀ tx₀) False InstallTransaction.apply (fun _ => Held t₀ tx₀) (Held t₀ tx₀) w := by
  have hphase : w.hand.phase = .prepared := hhand ▸ set.phase
  have hs' : Sound t₀ tx₀ w.tree { w.hand with phase := .prepared } := hphase ▸ hs
  have hc : w.completed = true → TransactionPhase.prepared = .completed := fun h =>
    absurd ((hw.completed h).symm.trans hphase) (by decide)
  refine Leaves.bind (leaves_enter set hw hs' hc (fun _ => hw.prepared hphase) ?_)
  refine Leaves.bind (Leaves.look ?_)
  have hbegin : Beginning t₀ tx₀ (saved (w.held fun tx => { tx with phase := .prepared })) := by
    refine ⟨held_saved ⟨hw.safe.anyHand _,hs'.derived,.inr hs',hc,
      fun _ => hw.prepared hphase⟩ hs',htree,rfl,?_,rfl⟩
    change ∀ f ∈ w.hand.fileStates, _
    rw [hhand]
    exact set.pending
  have hkind := hw.derived.kind
  have hsame : (saved (w.held fun tx => { tx with phase := .prepared })).hand.kind = w.hand.kind :=
    rfl
  rw [hsame]
  cases hk : w.hand.kind with
  | directory => exact leaves_applyDirectory set (hkind.symm.trans hk) hbegin
  | files => exact leaves_applyFiles set (hkind.symm.trans hk) hbegin

end
end RisuNest.Update
