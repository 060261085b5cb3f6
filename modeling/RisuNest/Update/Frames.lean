import RisuNest.Update.Directories

/-! What the work on one file of an inventory leaves of the others. -/
namespace RisuNest.Update
open InstallTransaction

variable {t₀ : Tree} {tx₀ : InstallTransaction}

/-! ### Paths -/

lemma pendingPath_append {a p : Path} (hp : p ≠ []) :
    pendingPath (a ++ p) = a ++ pendingPath p := by
  unfold pendingPath
  rw [List.dropLast_append_of_ne_nil hp, List.getLast?_append_of_ne_nil _ hp, List.append_assoc]

lemma prefix_of_prefix_dropLast {p q : Path} (h : q <+: p.dropLast) : q <+: p :=
  h.trans (List.dropLast_prefix p)

lemma ne_of_prefix_dropLast {p q : Path} (hp : p ≠ []) (h : q <+: p.dropLast) : q ≠ p := by
  rintro rfl
  have := h.length_le
  rw [List.length_dropLast] at this
  have := List.length_pos_iff.mpr hp
  omega

lemma prefix_append_dropLast {a p q : Path} (hp : p ≠ []) (h : a ++ q <+: (a ++ p).dropLast) :
    q <+: p.dropLast := by
  rw [List.dropLast_append_of_ne_nil hp] at h
  exact (List.prefix_append_right_inj a).mp h

lemma not_prefix_of_roots {a b p q : Path} (hl : a.length = b.length) (hn : a ≠ b) :
    ¬ a ++ p <+: b ++ q := fun h =>
  hn (prefix_append_of_length hl ((List.prefix_append a p).trans h))

section
variable (set : Setting t₀ tx₀)
include set

lemma Setting.target_ne_stage (p q : Path) : tx₀.target p ≠ tx₀.stage q :=
  append_ne_of_length set.length_staged set.distinct.1

lemma Setting.target_ne_backup (p q : Path) : tx₀.target p ≠ tx₀.backup q :=
  append_ne_of_length set.length_backup set.distinct.2.1

lemma Setting.stage_ne_backup (p q : Path) : tx₀.stage p ≠ tx₀.backup q :=
  append_ne_of_length (set.length_staged.symm.trans set.length_backup) set.distinct.2.2

end

/-! ### The frame of one file -/

/-- Between two trees only the places of one file changed, and directories above them are new. -/
structure Apart (tx₀ : InstallTransaction) (p : Path) (t t' : Tree) : Prop where
  same : ∀ r, r ≠ tx₀.target p → r ≠ tx₀.backup p → r ≠ tx₀.stage p →
    r ≠ pendingPath (tx₀.backup p) → t'.get r = t.get r ∨ t.get r = none ∧
      (∃ identity, t'.get r = some (.dir identity)) ∧
      (r <+: (tx₀.target p).dropLast ∨ r <+: (tx₀.backup p).dropLast)
  temporary : t.isDir (pendingPath (tx₀.backup p)) = true →
    t'.get (pendingPath (tx₀.backup p)) = t.get (pendingPath (tx₀.backup p))
  links : ∀ r, t'.isLink r = true → t.isLink r = true

lemma Apart.refl (p : Path) (t : Tree) : Apart tx₀ p t t :=
  ⟨fun _ _ _ _ _ => .inl rfl,fun _ => rfl,fun _ => id⟩

lemma Apart.trans {p : Path} {t t' t'' : Tree} (h : Apart tx₀ p t t') (h' : Apart tx₀ p t' t'') :
    Apart tx₀ p t t'' := by
  refine ⟨fun r h1 h2 h3 h4 => ?_,fun hd => ?_,fun r hr => h.links r (h'.links r hr)⟩
  · obtain he | ⟨hn,hdir,hp⟩ := h.same r h1 h2 h3 h4
    · rw [← he]
      exact h'.same r h1 h2 h3 h4
    · obtain he' | ⟨hn',-,-⟩ := h'.same r h1 h2 h3 h4
      · exact .inr ⟨hn,he' ▸ hdir,hp⟩
      · obtain ⟨identity,hdir⟩ := hdir
        rw [hn'] at hdir
        cases hdir
  · have he := h.temporary hd
    have hd' : t'.isDir (pendingPath (tx₀.backup p)) = true := by
      unfold Tree.isDir at hd ⊢
      rwa [he]
    rw [h'.temporary hd', he]

section
variable (set : Setting t₀ tx₀) {t t' : Tree} {p q : Path}

/-- The places of another file of the inventory. -/
structure Distant (tx₀ : InstallTransaction) (p q : Path) : Prop where
  relative : p ≠ [] ∧ q ≠ []
  apart : ¬ p <+: q ∧ ¬ q <+: p
  pending : q ≠ pendingPath p

include set

lemma distant (hs : Separate t₀ tx₀) {f g : FileTransaction} (hf : f ∈ tx₀.fileStates)
    (hg : g ∈ tx₀.fileStates) (hne : g.path ≠ f.path) : Distant tx₀ f.path g.path :=
  ⟨⟨set.relative f hf,set.relative g hg⟩,
    ⟨fun h => hne (hs.apart f hf g hg h).symm,fun h => hne (hs.apart g hg f hf h)⟩,
    hs.pending f hf g hg⟩

lemma Apart.target (h : Apart tx₀ p t t') (hd : Distant tx₀ p q) :
    t'.get (tx₀.target q) = t.get (tx₀.target q) := by
  obtain he | ⟨-,-,hp⟩ := h.same (tx₀.target q)
    (fun he => hd.apart.1 (List.append_cancel_left he ▸ List.prefix_rfl))
    (set.target_ne_backup q p) (set.target_ne_stage q p)
    (pendingPath_append (a := tx₀.backupPath) hd.relative.1 ▸ set.target_ne_backup q _)
  · exact he
  · exfalso
    obtain hp | hp := hp
    · exact hd.apart.2 (prefix_of_prefix_dropLast (prefix_append_dropLast hd.relative.1 hp))
    · rw [InstallTransaction.backup, List.dropLast_append_of_ne_nil hd.relative.1] at hp
      exact not_prefix_of_roots set.length_backup set.distinct.2.1 hp

lemma Apart.backup (h : Apart tx₀ p t t') (hd : Distant tx₀ p q) :
    t'.get (tx₀.backup q) = t.get (tx₀.backup q) := by
  obtain he | ⟨-,-,hp⟩ := h.same (tx₀.backup q) (set.target_ne_backup p q).symm
    (fun he => hd.apart.1 (List.append_cancel_left he ▸ List.prefix_rfl))
    (set.stage_ne_backup p q).symm (fun he => hd.pending (by
      rw [pendingPath_append (a := tx₀.backupPath) hd.relative.1] at he
      exact List.append_cancel_left he))
  · exact he
  · exfalso
    obtain hp | hp := hp
    · rw [InstallTransaction.target, List.dropLast_append_of_ne_nil hd.relative.1] at hp
      exact not_prefix_of_roots set.length_backup.symm set.distinct.2.1.symm hp
    · exact hd.apart.2 (prefix_of_prefix_dropLast (prefix_append_dropLast hd.relative.1 hp))

lemma Apart.stage (h : Apart tx₀ p t t') (hd : Distant tx₀ p q) :
    t'.get (tx₀.stage q) = t.get (tx₀.stage q) := by
  have hl := set.length_staged.symm.trans set.length_backup
  obtain he | ⟨-,-,hp⟩ := h.same (tx₀.stage q) (set.target_ne_stage p q).symm
    (set.stage_ne_backup q p)
    (fun he => hd.apart.1 (List.append_cancel_left he ▸ List.prefix_rfl))
    (pendingPath_append (a := tx₀.backupPath) hd.relative.1 ▸ set.stage_ne_backup q _)
  · exact he
  · exfalso
    obtain hp | hp := hp
    · rw [InstallTransaction.target, List.dropLast_append_of_ne_nil hd.relative.1] at hp
      exact not_prefix_of_roots set.length_staged.symm set.distinct.1.symm hp
    · rw [InstallTransaction.backup, List.dropLast_append_of_ne_nil hd.relative.1] at hp
      exact not_prefix_of_roots hl set.distinct.2.2 hp

lemma Apart.backupDir (h : Apart tx₀ p t t') (hd : Distant tx₀ p q)
    (hdir : t.isDir (tx₀.backup q).dropLast = true) :
    t'.isDir (tx₀.backup q).dropLast = true := by
  have hq : (tx₀.backup q).dropLast = tx₀.backup q.dropLast :=
    List.dropLast_append_of_ne_nil hd.relative.2
  rw [hq] at hdir ⊢
  have hsame : t'.get (tx₀.backup q.dropLast) = t.get (tx₀.backup q.dropLast) := by
    by_cases hpending : tx₀.backup q.dropLast = pendingPath (tx₀.backup p)
    · rw [hpending] at hdir ⊢
      exact h.temporary hdir
    · obtain he | ⟨hn,-,-⟩ := h.same (tx₀.backup q.dropLast) (set.target_ne_backup _ _).symm
        (fun he => hd.apart.1 (List.append_cancel_left he ▸ List.dropLast_prefix q))
        (set.stage_ne_backup _ _).symm hpending
      · exact he
      · unfold Tree.isDir at hdir
        rw [hn] at hdir
        cases hdir
  unfold Tree.isDir at hdir ⊢
  rwa [hsame]

lemma Apart.fileOk (h : Apart tx₀ p t t') {f : FileTransaction} (hd : Distant tx₀ p f.path)
    (hf : FileOk t₀ tx₀ t f) : FileOk t₀ tx₀ t' f := by
  have htarget := h.target set hd
  have hbackup := h.backup set hd
  have hregular : t'.isRegular (tx₀.target f.path) = t.isRegular (tx₀.target f.path) := by
    unfold Tree.isRegular
    rw [htarget]
  cases hf with
  | pending hp ho hs => exact .pending hp ho (htarget.trans hs)
  | restored hp ho hs => exact .restored hp ho (htarget.trans hs)
  | unchanged hn hs hb => exact .unchanged hn (htarget.trans hs) fun he => hbackup.trans (hb he)
  | saved hn hr hb hs =>
    exact .saved hn hr (hbackup.trans hb) (hs.imp htarget.trans hregular.trans)
  | added hn ho hs hb hst hdir =>
    exact .added hn ho (hregular.trans hs) (hbackup.trans hb) ((h.stage set hd).trans hst)
      (h.backupDir set hd hdir)

lemma Apart.placed (h : Apart tx₀ p t t') {f : FileTransaction} (hd : Distant tx₀ p f.path)
    (hf : Placed t₀ tx₀ t f) : Placed t₀ tx₀ t' f := by
  unfold Placed Tree.isRegular at hf ⊢
  rwa [h.target set hd]

lemma Apart.base (hk : tx₀.kind = .files) (hp : ∃ f ∈ tx₀.fileStates, f.path = p)
    (h : Apart tx₀ p t t') (hb : Base t₀ tx₀ t) : Base t₀ tx₀ t' := by
  obtain ⟨f,hf,rfl⟩ := hp
  have hne := set.relative f hf
  have hpending : pendingPath (tx₀.backup f.path) = tx₀.backup (pendingPath f.path) :=
    pendingPath_append hne
  refine ⟨fun r h1 h2 h3 => ?_,notLinked_eq_ok.mpr fun r hr hl => ?_,fun r => ?_⟩
  · have htouched : r ≠ tx₀.target f.path := by
      rintro rfl
      unfold Touched at h3
      rw [hk] at h3
      exact h3 ⟨f,hf,rfl⟩
    have hkept := hb.kept r h1 h2 h3
    obtain he | ⟨hn,hdir,-⟩ := h.same r htouched
      (fun he => h2 (he ▸ List.prefix_append _ _)) (fun he => h1 (he ▸ List.prefix_append _ _))
      (fun he => h2 (by rw [he, hpending]; exact List.prefix_append _ _))
    · rwa [he]
    · obtain he | ⟨-,identity,hd⟩ := hkept
      · exact .inr ⟨he.symm.trans hn,hdir⟩
      · rw [hn] at hd
        cases hd
  · -- none of the three roots is a place of a file
    have hroot : ∀ a : Path, a.length = tx₀.installPath.length → ∀ b : Path, ∀ q : Path, q ≠ [] →
        b.length = tx₀.installPath.length → a ≠ b ++ q := by
      intro a ha b q hq hb' he
      have := congrArg List.length he
      rw [List.length_append, ha, hb'] at this
      have := List.length_pos_iff.mpr hq
      omega
    have hlen : r.length = tx₀.installPath.length := by
      simp only [List.mem_cons, List.not_mem_nil, or_false] at hr
      obtain rfl | rfl | rfl := hr
      · rfl
      · exact set.length_staged.symm
      · exact set.length_backup.symm
    have hpne : pendingPath f.path ≠ [] := by simp [pendingPath]
    obtain he | ⟨hn,⟨identity,hdir⟩,-⟩ := h.same r (hroot r hlen _ _ hne rfl)
      (hroot r hlen _ _ hne set.length_backup.symm) (hroot r hlen _ _ hne set.length_staged.symm)
      (hpending ▸ hroot r hlen _ _ hpne set.length_backup.symm)
    · refine notLinked_eq_ok.mp hb.unlinked r hr ?_
      unfold Tree.existsAt Tree.isLink at hl ⊢
      rwa [he] at hl
    · obtain ⟨target,hlink⟩ := Tree.isLink_iff.mp hl.2
      rw [hdir] at hlink
      cases hlink
  · exact Bool.eq_false_iff.mpr fun hl => by
      have := h.links _ hl
      rw [hb.plain r] at this
      cases this

end
end RisuNest.Update
