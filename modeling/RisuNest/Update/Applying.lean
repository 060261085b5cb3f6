import RisuNest.Update.Restoring

/-! Applying a transaction over an inventory of files. -/
namespace RisuNest.Update
open Faulty Act InstallTransaction

variable {t₀ : Tree} {tx₀ : InstallTransaction} {w : World}

/-! ### New directories -/

/-- A world with a new directory. -/
def World.withDir (w : World) (q : Path) : World := onTree (·.upsert q (.dir (w.made q))) w

lemma get_withDir (w : World) (q r : Path) :
    (w.withDir q).tree.get r = if r = q then some (.dir (w.made q)) else w.tree.get r :=
  Table.get_upsert _ _ _ _

lemma isDir_withDir {q r : Path} (h : w.tree.isDir r = true) : (w.withDir q).tree.isDir r = true := by
  by_cases hr : r = q
  · exact Tree.isDir_of_get ((get_withDir w q r).trans (if_pos hr))
  · unfold Tree.isDir at h ⊢
    rwa [get_withDir, if_neg hr]

lemma leaves_createDirAll {E : World → Prop} {d : Path} {e : String} (J : World → Prop)
    (hJ : ∀ u, J u → E u ∧ Safe t₀ tx₀ u)
    (hmake : ∀ u q, J u → q <+: d → u.tree.get q = none → J (u.withDir q)) (hw : J w) :
    Leaves (Safe t₀ tx₀) False (createDirAll d e)
      (fun _ u => J u ∧ ∀ q, q <+: d → q ≠ [] → u.tree.isDir q = true) E w := by
  refine (Leaves.forM (fun done u => J u ∧ ∀ q ∈ done, u.tree.isDir q = true) ?_
    ⟨hw,fun q hq => nomatch hq⟩).mono ?_ fun _ => id
  · rintro done q rest u hl ⟨hu,hdone⟩
    have hq : q <+: d := (mem_prefixes.mp (by rw [hl]; simp)).1
    have hnext {v : World} (hv : J v) (hkept : ∀ r ∈ done, v.tree.isDir r = true)
        (hdir : v.tree.isDir q = true) : J v ∧ ∀ r ∈ done ++ [q], v.tree.isDir r = true := by
      refine ⟨hv,fun r hr => ?_⟩
      obtain hr | hr := List.mem_append.mp hr
      · exact hkept r hr
      · obtain rfl := List.mem_singleton.mp hr
        exact hdir
    refine Leaves.bind (Leaves.look ?_)
    refine Leaves.ite (fun hdir => Leaves.pure (hnext hu hdone hdir)) fun _ => ?_
    refine leaves_atomic_of (hJ u hu).1 (hJ u hu).2 (fun hnone => ?_) fun _ => not_false
    have hv := hmake u q hu hq (Option.isNone_iff_eq_none.mp hnone)
    refine ⟨hnext hv (fun r hr => isDir_withDir (hdone r hr)) ?_,hJ _ hv⟩
    exact Tree.isDir_of_get ((get_withDir u q q).trans (if_pos rfl))
  · rintro - u ⟨hu,hdirs⟩
    exact ⟨hu,fun q hq hne => hdirs q (mem_prefixes.mpr ⟨hq,hne⟩)⟩

section
variable {p q : Path}

lemma apart_withDir (hq : q <+: (tx₀.target p).dropLast ∨ q <+: (tx₀.backup p).dropLast)
    (h : w.tree.get q = none) : Apart tx₀ p w.tree (w.withDir q).tree := by
  refine ⟨fun r _ _ _ _ => ?_,fun hd => ?_,fun r hr => ?_⟩
  · by_cases hr : r = q
    · subst hr
      exact .inr ⟨h,⟨_,(get_withDir w r r).trans (if_pos rfl)⟩,hq⟩
    · exact .inl ((get_withDir w q r).trans (if_neg hr))
  · rw [get_withDir, if_neg]
    rintro rfl
    unfold Tree.isDir at hd
    rw [h] at hd
    cases hd
  · obtain ⟨link,hlink⟩ := Tree.isLink_iff.mp hr
    rw [get_withDir] at hlink
    split_ifs at hlink
    · cases hlink
    · exact Tree.isLink_iff.mpr ⟨link,hlink⟩

lemma ne_place_of_above (set : Setting t₀ tx₀) (hp : p ≠ [])
    (hq : q <+: (tx₀.target p).dropLast ∨ q <+: (tx₀.backup p).dropLast) :
    tx₀.target p ≠ q ∧ tx₀.backup p ≠ q ∧ tx₀.stage p ≠ q := by
  have hl := set.length_staged.symm.trans set.length_backup
  obtain hq | hq := hq
  · refine ⟨(ne_of_prefix_dropLast (by simp [hp]) hq).symm,?_,?_⟩
    · rintro rfl
      exact not_prefix_of_roots set.length_backup.symm set.distinct.2.1.symm
        (prefix_of_prefix_dropLast hq)
    · rintro rfl
      exact not_prefix_of_roots set.length_staged.symm set.distinct.1.symm
        (prefix_of_prefix_dropLast hq)
  · refine ⟨?_,(ne_of_prefix_dropLast (by simp [hp]) hq).symm,?_⟩
    · rintro rfl
      exact not_prefix_of_roots set.length_backup set.distinct.2.1 (prefix_of_prefix_dropLast hq)
    · rintro rfl
      exact not_prefix_of_roots hl set.distinct.2.2 (prefix_of_prefix_dropLast hq)

end

/-! ### Notes and copies -/

lemma isDir_of_none {t : Tree} {p : Path} (h : t.get p = none) : t.isDir p = false := by
  unfold Tree.isDir
  rw [h]

lemma isLink_of_none {t : Tree} {p : Path} (h : t.get p = none) : t.isLink p = false := by
  unfold Tree.isLink
  rw [h]

lemma isDir_of_isRegular {t : Tree} {p : Path} (h : t.isRegular p = true) :
    t.isDir p = false := by
  obtain ⟨bytes,hb⟩ := Tree.isRegular_iff.mp h
  unfold Tree.isDir
  rw [hb]

section
variable {t t' : Tree} {f : FileTransaction}

lemma FileOk.renote (h : FileOk t₀ tx₀ t f) (hn : Noted t₀ tx₀ f) {phase : FilePhase}
    (hp : phase ≠ .pending) (hr : phase ≠ .restored) : FileOk t₀ tx₀ t { f with phase } := by
  have hn' : Noted t₀ tx₀ { f with phase } := ⟨hp,hr,hn.existed,hn.unlinked⟩
  cases h with
  | pending hp => exact absurd hp hn.phase
  | restored hp => exact absurd hp hn.active
  | unchanged _ h hb => exact .unchanged hn' h hb
  | saved _ hr hb h => exact .saved hn' hr hb h
  | added _ ho h hb hs hd => exact .added hn' ho h hb hs hd

/-- Nothing but the copy that a backup is written to changed. -/
def Copying (tx₀ : InstallTransaction) (p : Path) (t t' : Tree) : Prop :=
  ∀ r, r ≠ pendingPath (tx₀.backup p) → t'.get r = t.get r

lemma pendingPath_ne {p : Path} (hp : p ≠ []) : pendingPath p ≠ p := by
  intro he
  have hl := congrArg List.getLast? he
  rw [pendingPath, List.getLast?_concat, List.getLast?_eq_some_getLast hp,
    Option.some.injEq] at hl
  have := congrArg String.length hl
  simp at this

section
variable (set : Setting t₀ tx₀) {p : Path} (hp : p ≠ []) (h : Copying tx₀ p t t')
include set hp h

lemma Copying.target : t'.get (tx₀.target p) = t.get (tx₀.target p) :=
  h _ (pendingPath_append (a := tx₀.backupPath) hp ▸ set.target_ne_backup p _)

lemma Copying.stage : t'.get (tx₀.stage p) = t.get (tx₀.stage p) :=
  h _ (pendingPath_append (a := tx₀.backupPath) hp ▸ set.stage_ne_backup p _)

omit set in
lemma Copying.backup : t'.get (tx₀.backup p) = t.get (tx₀.backup p) :=
  h _ (pendingPath_ne (by simp [hp])).symm

omit set hp in
lemma Copying.backupDir : t'.get (tx₀.backup p).dropLast = t.get (tx₀.backup p).dropLast := by
  refine h _ fun he => ?_
  have hl := congrArg List.length he
  rw [pendingPath, List.length_append, List.length_singleton] at hl
  omega

omit set hp in
lemma Copying.apart (hd : t.isDir (pendingPath (tx₀.backup p)) = false)
    (hl : t'.isLink (pendingPath (tx₀.backup p)) = false) : Apart tx₀ p t t' := by
  refine ⟨fun r _ _ _ h4 => .inl (h r h4),fun hd' => ?_,fun r hr => ?_⟩
  · rw [hd] at hd'
    cases hd'
  · by_cases hrt : r = pendingPath (tx₀.backup p)
    · rw [hrt, hl] at hr
      cases hr
    · rwa [isLink_congr (h r hrt)] at hr

end

lemma Copying.fileOk (set : Setting t₀ tx₀) (hp : f.path ≠ []) (h : Copying tx₀ f.path t t')
    (hf : FileOk t₀ tx₀ t f) : FileOk t₀ tx₀ t' f := by
  have htarget := h.target set hp
  have hbackup := h.backup hp
  cases hf with
  | pending hp ho hs => exact .pending hp ho (htarget.trans hs)
  | restored hp ho hs => exact .restored hp ho (htarget.trans hs)
  | unchanged hn hs hb => exact .unchanged hn (htarget.trans hs) fun he => hbackup.trans (hb he)
  | saved hn hr hb hs =>
    exact .saved hn hr (hbackup.trans hb) (hs.imp htarget.trans (isRegular_congr htarget).trans)
  | added hn ho hs hb hst hdir =>
    refine .added hn ho ((isRegular_congr htarget).trans hs) (hbackup.trans hb)
      ((h.stage set hp).trans hst) ?_
    unfold Tree.isDir at hdir ⊢
    rwa [h.backupDir]

end

/-! ### One file -/

/-- The work on one file of the inventory, from where its round began. -/
structure Round (t₀ : Tree) (tx₀ : InstallTransaction) (i : ℕ) (f : FileTransaction)
    (w v : World) : Prop where
  run : Running t₀ tx₀ .installing v
  file : v.hand.fileStates[i]? = some f
  noted : Noted t₀ tx₀ f
  apart : Apart tx₀ f.path w.tree v.tree
  others : ∀ j, j ≠ i → v.hand.fileStates[j]? = w.hand.fileStates[j]?
  length : v.hand.fileStates.length = w.hand.fileStates.length

section
variable (set : Setting t₀ tx₀) (hk : tx₀.kind = .files) {i : ℕ} {f : FileTransaction}
  {v : World} (hv : Round t₀ tx₀ i f w v)
include set hv

lemma Round.relative : f.path ≠ [] := by
  obtain ⟨g,hg,hpath,-⟩ := hv.run.held.derived.origin (List.mem_of_getElem? hv.file)
  exact hpath ▸ set.relative g hg

include hk

omit set in
lemma Round.fileOk : FileOk t₀ tx₀ v.tree f :=
  hv.run.work hk (.inl rfl) f (List.mem_of_getElem? hv.file)

lemma Round.withTree {t : Tree} (ha : Apart tx₀ f.path v.tree t) (hf : FileOk t₀ tx₀ t f) :
    Round t₀ tx₀ i f w { v with tree := t } :=
  ⟨hv.run.atFile set hk (.inl rfl) hv.file ha hf,hv.file,hv.noted,hv.apart.trans ha,hv.others,
    hv.length⟩

lemma Round.copying {t : Tree} (h : Copying tx₀ f.path v.tree t)
    (hd : v.tree.isDir (pendingPath (tx₀.backup f.path)) = false)
    (hl : t.isLink (pendingPath (tx₀.backup f.path)) = false) :
    Round t₀ tx₀ i f w { v with tree := t } :=
  hv.withTree set hk (h.apart hd hl) (h.fileOk set (hv.relative set) (hv.fileOk hk))

lemma leaves_move {source target : Path} {bytes : List UInt8} {e : String}
    {Q : Unit → World → Prop} {E : World → Prop} (hE : ∀ u, Round t₀ tx₀ i f w u → E u)
    (hs : source ∈ [tx₀.target f.path,tx₀.backup f.path,tx₀.stage f.path,
      pendingPath (tx₀.backup f.path)])
    (ht : target ∈ [tx₀.target f.path,tx₀.backup f.path])
    (h : v.tree.get source = some (.file bytes))
    (hf : FileOk t₀ tx₀ (v.tree.renamed source target) f)
    (hq : ∀ u, Round t₀ tx₀ i f w u → u.tree = v.tree.renamed source target → Q () u) :
    Leaves (Safe t₀ tx₀) False (durableRename source target e) Q E v := by
  refine leaves_rename set hk (.inl rfl) hv.run hv.file (hE v hv) hs ht h hf
    (fun _ => not_false) fun ha _ => ?_
  have hu := hv.withTree set hk ha hf
  exact ⟨hq _ hu rfl,hE _ hu⟩

lemma leaves_published {bytes : List UInt8} {e : String} {Q : Unit → World → Prop}
    (hold : v.tree.get (tx₀.target f.path) = t₀.get (tx₀.target f.path))
    (hb : v.tree.get (tx₀.target f.path) = some (.file bytes))
    (hcopy : v.tree.get (pendingPath (tx₀.backup f.path)) = some (.file bytes))
    (hq : ∀ u, Round t₀ tx₀ i f w u →
      u.tree.get (tx₀.target f.path) = t₀.get (tx₀.target f.path) →
      u.tree.get (tx₀.stage f.path) = v.tree.get (tx₀.stage f.path) →
      u.tree.get (tx₀.backup f.path) = t₀.get (tx₀.target f.path) →
      t₀.isRegular (tx₀.target f.path) = true → Q () u) :
    Leaves (Safe t₀ tx₀) False
      (durableRename (pendingPath (tx₀.backup f.path)) (tx₀.backup f.path) e) Q
      (Round t₀ tx₀ i f w) v := by
  have hne := hv.relative set
  have hregular : t₀.isRegular (tx₀.target f.path) = true :=
    Tree.isRegular_iff.mpr ⟨bytes,hold.symm.trans hb⟩
  have hpending := pendingPath_append (a := tx₀.backupPath) hne
  have htarget : (v.tree.renamed (pendingPath (tx₀.backup f.path)) (tx₀.backup f.path)).get
      (tx₀.target f.path) = t₀.get (tx₀.target f.path) := by
    rw [Tree.get_renamed hcopy, if_neg (set.target_ne_backup _ _),
      if_neg (hpending ▸ set.target_ne_backup _ _), hold]
  have hstage : (v.tree.renamed (pendingPath (tx₀.backup f.path)) (tx₀.backup f.path)).get
      (tx₀.stage f.path) = v.tree.get (tx₀.stage f.path) := by
    rw [Tree.get_renamed hcopy, if_neg (set.stage_ne_backup _ _),
      if_neg (hpending ▸ set.stage_ne_backup _ _)]
  have hbackup : (v.tree.renamed (pendingPath (tx₀.backup f.path)) (tx₀.backup f.path)).get
      (tx₀.backup f.path) = t₀.get (tx₀.target f.path) := by
    rw [Tree.get_renamed hcopy, if_pos rfl, ← hold, hb]
  refine leaves_move set hk hv (fun _ => id) (by simp) (by simp) hcopy
    (.saved hv.noted hregular hbackup (.inr ((isRegular_congr htarget).trans hregular)))
    fun u hu htree => ?_
  exact hq u hu (htree ▸ htarget) (htree ▸ hstage) (htree ▸ hbackup) hregular

lemma leaves_written {e : String} {Q : Unit → World → Prop}
    (hbegun : v.tree.isRegular (pendingPath (tx₀.backup f.path)) = true)
    (hq : ∀ u bytes, Round t₀ tx₀ i f w u → Copying tx₀ f.path v.tree u.tree →
      v.tree.get (tx₀.target f.path) = some (.file bytes) →
      u.tree.get (pendingPath (tx₀.backup f.path)) = some (.file bytes) → Q () u) :
    Leaves (Safe t₀ tx₀) False
      (step (fun w => require (w.tree.isRegular (tx₀.target f.path) = true) e) e
        (fun k : Part => onTree (·.copied (tx₀.target f.path) (pendingPath (tx₀.backup f.path))
          (some k.written)))
        (onTree (·.copied (tx₀.target f.path) (pendingPath (tx₀.backup f.path)) none)))
      Q (Round t₀ tx₀ i f w) v := by
  have hcopying {bytes : List UInt8} (hb : v.tree.get (tx₀.target f.path) = some (.file bytes))
      (written : Option ℕ) : Copying tx₀ f.path v.tree
        (v.tree.copied (tx₀.target f.path) (pendingPath (tx₀.backup f.path)) written) :=
    fun r hr => (Tree.get_copied hb r).trans (if_neg hr)
  -- whatever is written so far, the three places of the file are left alone
  have hwritten {bytes : List UInt8} (hb : v.tree.get (tx₀.target f.path) = some (.file bytes))
      (written : Option ℕ) : Round t₀ tx₀ i f w
        (onTree (·.copied (tx₀.target f.path) (pendingPath (tx₀.backup f.path)) written) v) := by
    refine hv.copying set hk (hcopying hb written) (isDir_of_isRegular hbegun)
      (isLink_of_isRegular ?_)
    exact Tree.isRegular_iff.mpr ⟨_,(Tree.get_copied hb _).trans (if_pos rfl)⟩
  refine Leaves.step (fun hok => ?_) (fun hok k => ?_)
    fun _ _ => ⟨hv,hv.run.held.safe,not_false⟩
  · obtain ⟨bytes,hb⟩ := Tree.isRegular_iff.mp (require_eq_ok.mp hok)
    refine hq _ bytes (hwritten hb none) (hcopying hb none) hb ?_
    change (v.tree.copied _ _ none).get _ = _
    rw [Tree.get_copied hb, if_pos rfl, Option.getD_none, List.take_length]
  · obtain ⟨bytes,hb⟩ := Tree.isRegular_iff.mp (require_eq_ok.mp hok)
    exact ⟨hwritten hb _,(hwritten hb _).run.held.safe⟩

lemma leaves_durableBackupCopy {e : String} {Q : Unit → World → Prop}
    (hold : v.tree.get (tx₀.target f.path) = t₀.get (tx₀.target f.path))
    (hq : ∀ u, Round t₀ tx₀ i f w u →
      u.tree.get (tx₀.target f.path) = t₀.get (tx₀.target f.path) →
      u.tree.get (tx₀.stage f.path) = v.tree.get (tx₀.stage f.path) →
      u.tree.get (tx₀.backup f.path) = t₀.get (tx₀.target f.path) →
      t₀.isRegular (tx₀.target f.path) = true → Q () u) :
    Leaves (Safe t₀ tx₀) False
      (durableBackupCopy (tx₀.target f.path) (tx₀.backup f.path) e) Q (Held t₀ tx₀) v := by
  have hne := hv.relative set
  have hsafe := hv.run.held.safe
  refine Leaves.bind (Leaves.attempt (Leaves.mono
    (R := fun _ => Q ()) (F := Round t₀ tx₀ i f w) ?_ ?_ ?_))
  · refine Leaves.bind (leaves_atomic_of hv hsafe (fun _ => ⟨?_,hv,hsafe⟩) fun _ => not_false)
    refine Leaves.bind (leaves_atomic_of hv hsafe (fun hc => ?_) fun _ => not_false)
    have hnone := Option.isNone_iff_eq_none.mp (Bool.and_eq_true_iff.mp hc).1
    have hempty : Copying tx₀ f.path v.tree
        (v.tree.upsert (pendingPath (tx₀.backup f.path)) (.file [])) :=
      fun r hr => (Table.get_upsert _ _ _ _).trans (if_neg hr)
    have hbegun := Tree.isRegular_iff.mpr ⟨[],(Table.get_upsert v.tree
      (pendingPath (tx₀.backup f.path)) (.file []) _).trans (if_pos rfl)⟩
    have hu := hv.copying set hk hempty (isDir_of_none hnone) (isLink_of_isRegular hbegun)
    refine ⟨Leaves.bind (leaves_written set hk hu hbegun ?_),hu,hu.run.held.safe⟩
    intro x bytes hx hcopy hb htemporary
    have htarget := (hcopy.target set hne).trans (hempty.target set hne)
    refine Leaves.bind (leaves_call_of hx hx.run.held.safe ?_)
    refine leaves_published set hk hx (htarget.trans hold)
      ((hcopy.target set hne).trans hb) htemporary fun y hy hyt hys => ?_
    exact hq y hy hyt (hys.trans ((hcopy.stage set hne).trans (hempty.stage set hne)))
  · exact fun _ u hu => Leaves.pure hu
  · -- the copy that failed is removed, where that succeeds
    intro u hu _
    refine Leaves.bind (Leaves.attempt (Leaves.mono (R := fun _ => Held t₀ tx₀)
      (F := Held t₀ tx₀) ?_ ?_ ?_))
    · refine leaves_atomic hu.run.held (fun hc => ?_) fun _ => not_false
      have hplain := hu.run.held.safe.base.plain (pendingPath f.path)
      rw [InstallTransaction.backup, ← pendingPath_append hne] at hplain
      have hdir : u.tree.isDir (pendingPath (tx₀.backup f.path)) = false := by
        simpa [hplain] using (Bool.and_eq_true_iff.mp hc).2
      have hgone := Table.get_erase u.tree (pendingPath (tx₀.backup f.path))
      have hx := hu.copying set hk (fun r hr => (hgone r).trans (if_neg hr)) hdir
        (isLink_of_none ((hgone _).trans (if_pos rfl)))
      exact ⟨hx.run.held,hx.run.held⟩
    · exact fun _ x hx => Leaves.fail hx not_false
    · exact fun x hx _ => Leaves.fail hx not_false

lemma leaves_note {g : FileTransaction → FileTransaction} {Q : Unit → World → Prop}
    (hg : (g f).path = f.path ∧ (g f).desiredPresent = f.desiredPresent)
    (hn : Noted t₀ tx₀ (g f)) (hf : FileOk t₀ tx₀ v.tree (g f))
    (hq : ∀ u, Round t₀ tx₀ i (g f) w u → u.tree = v.tree → Q () u) :
    Leaves (Safe t₀ tx₀) False (noteFile i g) Q (Held t₀ tx₀) v := by
  refine leaves_noteFile set hk (.inl rfl) hv.run hv.file hg hf fun u hu htree _ hfiles => ?_
  refine hq u ⟨hu,?_,hn,hg.1 ▸ htree ▸ hv.apart,fun j hj => ?_,?_⟩ htree
  · rw [hfiles, List.getElem?_modify, hv.file]
    simp
  · rw [hfiles, List.getElem?_modify, ← hv.others j hj]
    simp [hj.symm]
  · rw [hfiles, List.length_modify, hv.length]

lemma leaves_phase {phase : FilePhase} (hp : phase ≠ .pending) (hr : phase ≠ .restored)
    {Q : Unit → World → Prop}
    (hq : ∀ u, Round t₀ tx₀ i { f with phase } w u → u.tree = v.tree → Q () u) :
    Leaves (Safe t₀ tx₀) False (noteFile i fun f => { f with phase }) Q (Held t₀ tx₀) v :=
  leaves_note set hk hv ⟨rfl,rfl⟩ ⟨hp,hr,hv.noted.existed,hv.noted.unlinked⟩
    ((hv.fileOk hk).renote hv.noted hp hr) hq

lemma leaves_staged {bytes : List UInt8} {e : String} {Q : Unit → World → Prop}
    (hf : FileOk t₀ tx₀ (v.tree.renamed (tx₀.stage f.path) (tx₀.target f.path)) f)
    (hd : f.desiredPresent = true) (hb : v.tree.get (tx₀.stage f.path) = some (.file bytes))
    (hs : v.tree.get (tx₀.stage f.path) = t₀.get (tx₀.stage f.path))
    (hq : ∀ u, Round t₀ tx₀ i f w u → Placed t₀ tx₀ u.tree f → Q () u) :
    Leaves (Safe t₀ tx₀) False
      (durableRename (tx₀.stage f.path) (tx₀.target f.path) e) Q (Held t₀ tx₀) v := by
  refine leaves_move set hk hv (fun u hu => hu.run.held) (by simp) (by simp) hb hf
    fun u hu htree => hq u hu ?_
  have hplaced : u.tree.get (tx₀.target f.path) = some (.file bytes) := by
    rw [htree, Tree.get_renamed hb, if_pos rfl]
  unfold Placed
  rw [if_pos hd]
  exact ⟨hplaced.trans (hb.symm.trans hs),Tree.isRegular_iff.mpr ⟨bytes,hplaced⟩⟩

end

/-- What stands before a file is put in its place. -/
structure Ready (t₀ : Tree) (tx₀ : InstallTransaction) (f : FileTransaction) (t : Tree) : Prop where
  target : t.get (tx₀.target f.path) = t₀.get (tx₀.target f.path)
  stage : t.get (tx₀.stage f.path) = t₀.get (tx₀.stage f.path)
  backup : t.get (tx₀.backup f.path) = none
  dir : t.isDir (tx₀.backup f.path).dropLast = true
  unlinked : ¬ (t.existsAt (tx₀.stage f.path) = true ∧ t.isLink (tx₀.stage f.path) = true)
  staged : f.desiredPresent = true → t.isFile (tx₀.stage f.path) = true

lemma isRegular_of_isFile {t : Tree} {p : Path} (h : t.isFile p = true)
    (hl : ¬ (t.existsAt p = true ∧ t.isLink p = true)) : t.isRegular p = true := by
  unfold Tree.isFile Tree.existsAt Tree.isLink Tree.isRegular at *
  cases ht : t.get p with
  | none => simp [ht] at h
  | some n => cases n <;> simp_all

lemma isRegular_of_existsAt {t : Tree} {p : Path} (h : t.existsAt p = true)
    (hl : ¬ (t.existsAt p = true ∧ t.isLink p = true))
    (hd : ∀ identity, t.get p ≠ some (.dir identity)) : t.isRegular p = true := by
  unfold Tree.existsAt Tree.isLink Tree.isRegular at *
  cases ht : t.get p with
  | none => simp [ht] at h
  | some n => cases n <;> simp_all

section
variable (set : Setting t₀ tx₀) (hk : tx₀.kind = .files) {tx : InstallTransaction}
  (htx : Derived tx₀ tx) {i : ℕ} {f₀ f : FileTransaction}
  (hf₀ : f₀.path = f.path ∧ f₀.desiredPresent = f.desiredPresent) {v : World}
  (hv : Round t₀ tx₀ i f w v)
include set hk htx hf₀ hv

/-- The three ways to put a file in its place: over the original, where it was moved away, or where
nothing was. -/
lemma leaves_placeFile (hr : Ready t₀ tx₀ f v.tree) {Q : Unit → World → Prop}
    (hq : ∀ u phase, Round t₀ tx₀ i { f with phase } w u → Placed t₀ tx₀ u.tree f → Q () u) :
    Leaves (Safe t₀ tx₀) False (placeFile i tx f₀) Q (Held t₀ tx₀) v := by
  obtain ⟨g,hg,hpath,hdesired⟩ := hv.run.held.derived.origin (List.mem_of_getElem? hv.file)
  have hsep := set.separate hk
  have hheld (u : World) (hu : Round t₀ tx₀ i f w u) : Held t₀ tx₀ u := hu.run.held
  unfold placeFile
  rw [htx.install, htx.staged, htx.backup, hf₀.1, hf₀.2]
  refine Leaves.bind (Leaves.look ?_)
  have hnew {u : World} (hu : Round t₀ tx₀ i f w u) (hp : Placed t₀ tx₀ u.tree f) : Q () u :=
    hq u f.phase hu hp
  cases he : v.tree.existsAt (tx₀.target f.path) with
  | true =>
    cases hd : f.desiredPresent with
    | true =>
      rw [if_pos ⟨rfl,rfl⟩]
      refine Leaves.bind (leaves_durableBackupCopy set hk hv hr.target ?_)
      intro u hu htarget hstage hbackup hregular
      obtain ⟨bytes,hb⟩ := Tree.isRegular_iff.mp (isRegular_of_isFile (hr.staged hd) hr.unlinked)
      have hb' := hstage.trans hb
      refine leaves_staged set hk hu (.saved hu.noted hregular ?_ (.inr ?_)) hd hb'
        (hstage.trans hr.stage) fun x hx hp => hnew hx hp
      · rw [Tree.get_renamed hb', if_neg (set.target_ne_backup _ _).symm,
          if_neg (set.stage_ne_backup _ _).symm, hbackup]
      · exact Tree.isRegular_iff.mpr ⟨bytes,(Tree.get_renamed hb' _).trans (if_pos rfl)⟩
    | false =>
      rw [if_neg (fun h => nomatch h.2), if_pos rfl]
      have hregular : t₀.isRegular (tx₀.target f.path) = true := by
        rw [existsAt_congr hr.target] at he
        refine isRegular_of_existsAt he (hv.noted.unlinked f.path ?_) fun identity => ?_
        · exact mem_prefixes.mpr ⟨List.prefix_rfl,hv.relative set⟩
        · exact hpath ▸ hsep.removed g hg (hdesired.trans hd) identity
      obtain ⟨bytes,hb⟩ := Tree.isRegular_iff.mp hregular
      have hb' := hr.target.trans hb
      have hgone : (v.tree.renamed (tx₀.target f.path) (tx₀.backup f.path)).get
          (tx₀.target f.path) = none := by
        rw [Tree.get_renamed hb', if_neg (set.target_ne_backup _ _), if_pos rfl]
      have hsaved : FileOk t₀ tx₀ (v.tree.renamed (tx₀.target f.path) (tx₀.backup f.path)) f := by
        refine .saved hv.noted hregular ?_ (.inl hgone)
        rw [Tree.get_renamed hb', if_pos rfl, hb]
      refine Leaves.bind (leaves_move set hk hv hheld (by simp) (by simp) hb' hsaved
        fun u hu htree => ?_)
      refine Leaves.bind (leaves_phase set hk hu (by decide) (by decide) fun x hx hxt => ?_)
      rw [if_neg Bool.false_ne_true]
      refine Leaves.pure (hq x .backedUp hx ?_)
      unfold Placed
      rw [if_neg (by rw [hd]; decide), hxt, htree]
      exact hgone
  | false =>
    rw [if_neg (fun h => nomatch h.1), if_neg Bool.false_ne_true]
    have hnot : t₀.existsAt (tx₀.target f.path) = false := existsAt_congr hr.target ▸ he
    have hnone := hr.target.trans (get_eq_none_of_noted hsep hg hpath hnot)
    cases hd : f.desiredPresent with
    | true =>
      rw [if_pos rfl]
      obtain ⟨bytes,hb⟩ := Tree.isRegular_iff.mp (isRegular_of_isFile (hr.staged hd) hr.unlinked)
      have hmoved (q : Path) : (v.tree.renamed (tx₀.stage f.path) (tx₀.target f.path)).get q =
          if q = tx₀.target f.path then some (.file bytes) else
            if q = tx₀.stage f.path then none else v.tree.get q := Tree.get_renamed hb q
      refine leaves_staged set hk hv (.added hv.noted hnot ?_ ?_ ?_ ?_) hd hb hr.stage
        fun x hx hp => hnew hx hp
      · exact Tree.isRegular_iff.mpr ⟨bytes,(hmoved _).trans (if_pos rfl)⟩
      · rw [hmoved, if_neg (set.target_ne_backup _ _).symm, if_neg (set.stage_ne_backup _ _).symm,
          hr.backup]
      · rw [hmoved, if_neg (set.target_ne_stage _ _).symm, if_pos rfl]
      · have hroot : (tx₀.backup f.path).dropLast = tx₀.backup f.path.dropLast :=
          List.dropLast_append_of_ne_nil (hv.relative set)
        have hdir := hr.dir
        rw [hroot] at hdir ⊢
        unfold Tree.isDir at hdir ⊢
        rwa [hmoved, if_neg (set.target_ne_backup _ _).symm,
          if_neg (set.stage_ne_backup _ _).symm]
    | false =>
      rw [if_neg Bool.false_ne_true]
      refine Leaves.pure (hnew hv ?_)
      unfold Placed
      rw [if_neg (by rw [hd]; decide)]
      exact hnone

end
/-- The places of a file that the loop did not come to. -/
structure Untouched (t₀ : Tree) (tx₀ : InstallTransaction) (t : Tree) (f : FileTransaction) :
    Prop where
  phase : f.phase = .pending
  stage : t.get (tx₀.stage f.path) = t₀.get (tx₀.stage f.path)
  backup : t.get (tx₀.backup f.path) = none

section
variable (set : Setting t₀ tx₀) (hk : tx₀.kind = .files) {i : ℕ} {f : FileTransaction}
include set hk

lemma leaves_prepareFile (hw : Running t₀ tx₀ .installing w)
    (hi : w.hand.fileStates[i]? = some f) (hu : Untouched t₀ tx₀ w.tree f)
    {Q : Unit → World → Prop}
    (hq : ∀ v, Round t₀ tx₀ i { f with
        originalExisted := some (w.tree.existsAt (tx₀.target f.path))
        phase := .prepared } w v → v.tree = w.tree →
      ¬ (w.tree.existsAt (tx₀.stage f.path) = true ∧ w.tree.isLink (tx₀.stage f.path) = true) →
      Q () v) :
    Leaves (Safe t₀ tx₀) False (prepareFile i w.hand f) Q (Held t₀ tx₀) w := by
  have hd := hw.held.derived
  have hmem := List.mem_of_getElem? hi
  obtain ⟨g,hg,hpath,-⟩ := hd.origin hmem
  have htarget := (hw.work hk (.inl rfl) f hmem).old (.inl hu.phase)
  unfold prepareFile
  rw [hd.install, hd.staged]
  refine Leaves.bind (Leaves.bind (Leaves.look (Leaves.demand (fun hinstall => ?_)
    fun _ => ⟨hw.held,not_false⟩)))
  refine Leaves.bind (Leaves.bind (Leaves.look (Leaves.demand (fun hstaged => ?_)
    fun _ => ⟨hw.held,not_false⟩)))
  refine Leaves.bind (Leaves.look ?_)
  have hn : Noted t₀ tx₀ { f with
      originalExisted := some (w.tree.existsAt (tx₀.target f.path))
      phase := .prepared } := by
    refine ⟨(fun h => nomatch h),(fun h => nomatch h),?_,fun q hq hl => hinstall q hq ?_⟩
    · exact congrArg some (existsAt_congr htarget)
    · by_cases hne : q = f.path
      · subst hne
        rwa [existsAt_congr htarget, isLink_congr htarget]
      · obtain he | ⟨hnone,-⟩ := hw.held.safe.base.above set hk hg hpath (mem_prefixes.mp hq).1 hne
        · rwa [existsAt_congr he, isLink_congr he]
        · rw [existsAt_of_none hnone] at hl
          cases hl.1
  refine leaves_noteFile set hk (.inl rfl) hw hi ⟨rfl,rfl⟩
    (.unchanged hn htarget fun _ => hu.backup) fun v hv htree _ hfiles => ?_
  refine hq v ⟨hv,?_,hn,?_,fun j hj => ?_,?_⟩ htree (hstaged f.path ?_)
  · rw [hfiles, List.getElem?_modify, hi]
    simp
  · rw [htree]
    exact .refl _ _
  · rw [hfiles, List.getElem?_modify]
    simp [hj.symm]
  · rw [hfiles, List.length_modify]
  · exact mem_prefixes.mpr ⟨List.prefix_rfl,hpath ▸ set.relative g hg⟩

end

section
variable (set : Setting t₀ tx₀) (hk : tx₀.kind = .files) {tx : InstallTransaction}
  (htx : Derived tx₀ tx) {i : ℕ} {f₀ f : FileTransaction}
  (hf₀ : f₀.path = f.path ∧ f₀.desiredPresent = f.desiredPresent) {v : World}
  (hv : Round t₀ tx₀ i f w v)
include set hk htx hf₀ hv

lemma leaves_prepareDirectories {Q : Unit → World → Prop}
    (htarget : v.tree.get (tx₀.target f.path) = t₀.get (tx₀.target f.path))
    (hstage : v.tree.get (tx₀.stage f.path) = t₀.get (tx₀.stage f.path))
    (hbackup : v.tree.get (tx₀.backup f.path) = none)
    (hl : ¬ (v.tree.existsAt (tx₀.stage f.path) = true ∧ v.tree.isLink (tx₀.stage f.path) = true))
    (hq : ∀ u, Round t₀ tx₀ i f w u → Ready t₀ tx₀ f u.tree → Q () u) :
    Leaves (Safe t₀ tx₀) False (prepareDirectories tx f₀) Q (Held t₀ tx₀) v := by
  have hne := hv.relative set
  unfold prepareDirectories
  rw [htx.install, htx.staged, htx.backup, hf₀.1, hf₀.2]
  refine Leaves.bind (Leaves.look ?_)
  refine Leaves.bind (Leaves.demand (fun hfile => ?_) fun _ => ⟨hv.run.held,not_false⟩)
  refine Leaves.bind (Leaves.demand (fun _ => ?_) fun _ => ⟨hv.run.held,not_false⟩)
  -- a directory that is made is none of the three places
  have hmake (u : World) (q : Path) (hu : Round t₀ tx₀ i f w u ∧
      u.tree.get (tx₀.target f.path) = t₀.get (tx₀.target f.path) ∧
      u.tree.get (tx₀.stage f.path) = t₀.get (tx₀.stage f.path) ∧
      u.tree.get (tx₀.backup f.path) = none)
      (hq : q <+: (tx₀.target f.path).dropLast ∨ q <+: (tx₀.backup f.path).dropLast)
      (hn : u.tree.get q = none) : Round t₀ tx₀ i f w (u.withDir q) ∧
      (u.withDir q).tree.get (tx₀.target f.path) = t₀.get (tx₀.target f.path) ∧
      (u.withDir q).tree.get (tx₀.stage f.path) = t₀.get (tx₀.stage f.path) ∧
      (u.withDir q).tree.get (tx₀.backup f.path) = none := by
    obtain ⟨hu,h1,h2,h3⟩ := hu
    obtain ⟨n1,n2,n3⟩ := ne_place_of_above set hne hq
    have h1' := (get_withDir u q _).trans ((if_neg n1).trans h1)
    have h3' := (get_withDir u q _).trans ((if_neg n2).trans h3)
    refine ⟨hu.withTree set hk (apart_withDir hq hn) ?_,h1',?_,h3'⟩
    · exact .unchanged hu.noted h1' fun _ => h3'
    · exact (get_withDir u q _).trans ((if_neg n3).trans h2)
  refine Leaves.bind ((leaves_createDirAll (fun u => Round t₀ tx₀ i f w u ∧
    u.tree.get (tx₀.target f.path) = t₀.get (tx₀.target f.path) ∧
    u.tree.get (tx₀.stage f.path) = t₀.get (tx₀.stage f.path) ∧
    u.tree.get (tx₀.backup f.path) = none) (fun u hu => ⟨hu.1.run.held,hu.1.run.held.safe⟩)
    (fun u q hu hq hn => hmake u q hu (.inl hq) hn)
    ⟨hv,htarget,hstage,hbackup⟩).mono ?_ fun _ => id)
  rintro - u ⟨hu,-⟩
  refine (leaves_createDirAll (fun u => Round t₀ tx₀ i f w u ∧
    u.tree.get (tx₀.target f.path) = t₀.get (tx₀.target f.path) ∧
    u.tree.get (tx₀.stage f.path) = t₀.get (tx₀.stage f.path) ∧
    u.tree.get (tx₀.backup f.path) = none) (fun u hu => ⟨hu.1.run.held,hu.1.run.held.safe⟩)
    (fun u q hu hq hn => hmake u q hu (.inr hq) hn) hu).mono ?_ fun _ => id
  rintro - x ⟨⟨hx,h1,h2,h3⟩,hdirs⟩
  have hsame := h2.trans hstage.symm
  refine hq x hx ⟨h1,h2,h3,hdirs _ List.prefix_rfl ?_,?_,fun hd => ?_⟩
  · rw [InstallTransaction.backup, List.dropLast_append_of_ne_nil hne]
    exact List.append_ne_nil_of_left_ne_nil (require_eq_ok.mp set.backup).2.1 _
  · rwa [existsAt_congr hsame, isLink_congr hsame]
  · have hthere : v.tree.isFile (tx₀.stage f.path) = true := by
      rw [← Bool.not_eq_false]
      exact fun h => hfile ⟨hd,h⟩
    unfold Tree.isFile at hthere ⊢
    rwa [hsame]

end
end RisuNest.Update
