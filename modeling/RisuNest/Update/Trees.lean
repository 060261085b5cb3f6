import RisuNest.Update.Files

/-! What the calls leave at each path of a tree. -/
namespace RisuNest.Update

lemma prefix_append_of_length {a b r : Path} (hl : a.length = b.length) (h : a <+: b ++ r) : a = b := by
  have hb : b <+: b ++ r := List.prefix_append b r
  exact (List.prefix_of_prefix_length_le h hb hl.le).eq_of_length hl

lemma append_ne_of_length {a b p q : Path} (hl : a.length = b.length) (hn : a ≠ b) :
    a ++ p ≠ b ++ q := fun he =>
  hn (prefix_append_of_length hl (he ▸ List.prefix_append a p))

section
variable {a b : Path}

lemma swapped_left (r : Path) : swapped a b (a ++ r) = b ++ r := by
  rw [swapped, if_pos (List.prefix_append a r), List.drop_left]

lemma swapped_right (hab : ¬ a <+: b) (hba : ¬ b <+: a) (r : Path) :
    swapped a b (b ++ r) = a ++ r := by
  have hn : ¬ a <+: b ++ r := by
    intro h
    obtain hl | hl := Nat.le_total a.length b.length
    · exact hab (List.prefix_of_prefix_length_le h (List.prefix_append b r) hl)
    · exact hba (List.prefix_of_prefix_length_le (List.prefix_append b r) h hl)
  rw [swapped, if_neg hn, if_pos (List.prefix_append b r), List.drop_left]

lemma swapped_swapped (hab : ¬ a <+: b) (hba : ¬ b <+: a) (p : Path) :
    swapped a b (swapped a b p) = p := by
  by_cases ha : a <+: p
  · obtain ⟨r,rfl⟩ := ha
    rw [swapped_left, swapped_right hab hba]
  by_cases hb : b <+: p
  · obtain ⟨r,rfl⟩ := hb
    rw [swapped_right hab hba, swapped_left]
  have hp : swapped a b p = p := by rw [swapped, if_neg ha, if_neg hb]
  rw [hp, hp]

end

namespace Tree
variable {t : Tree}

lemma get_prune (p : Path) (gone : Path → Bool) (q : Path) :
    (t.prune p gone).get q = if p <+: q ∧ gone q = true then none else t.get q := by
  rw [prune, Table.get_deleteWhere]
  split_ifs with h
  · cases t.get q <;> simp [h]
  · have hkeep : (!(decide (p <+: q) && gone q)) = true := by
      by_cases hp : p <+: q <;> simp_all
    rw [hkeep]
    cases t.get q <;> rfl

lemma get_exchanged {a b : Path} (hab : ¬ a <+: b) (hba : ¬ b <+: a) (q : Path) :
    (t.exchanged a b).get q = t.get (swapped a b q) := by
  have hinj : Function.Injective (swapped a b) :=
    Function.LeftInverse.injective (swapped_swapped hab hba)
  rw [exchanged]
  conv_lhs => rw [← swapped_swapped hab hba q]
  exact Table.get_rekey hinj t _

lemma get_renamed {source target : Path} {bytes : List UInt8}
    (h : t.get source = some (.file bytes)) (q : Path) :
    (t.renamed source target).get q =
      if q = target then some (.file bytes) else if q = source then none else t.get q := by
  unfold renamed
  rw [h]
  exact (Table.get_upsert _ _ _ _).trans (by rw [Table.get_erase])

lemma get_copied {source target : Path} {bytes : List UInt8} {written : Option ℕ}
    (h : t.get source = some (.file bytes)) (q : Path) :
    (t.copied source target written).get q =
      if q = target then some (.file (bytes.take (written.getD bytes.length))) else t.get q := by
  unfold copied
  rw [h]
  exact Table.get_upsert _ _ _ _

lemma isRegular_iff {p : Path} : t.isRegular p = true ↔ ∃ bytes, t.get p = some (.file bytes) := by
  unfold isRegular
  split
  · simp_all
  · simp_all

lemma existsAt_eq_false {p : Path} :
    t.existsAt p = false ↔ t.get p = none ∨ t.get p = some (.link none) := by
  unfold existsAt
  split
  · simp_all
  · rename_i target h
    cases target <;> simp_all
  · simp_all

lemma isLink_iff {p : Path} : t.isLink p = true ↔ ∃ target, t.get p = some (.link target) := by
  unfold isLink
  split
  · simp_all
  · simp_all

lemma isDir_of_get {p : Path} {identity : DirectoryIdentity} (h : t.get p = some (.dir identity)) :
    t.isDir p = true := by
  unfold isDir
  rw [h]

lemma mayRename_of_regular {source target : Path} (h : t.isRegular source = true)
    (hd : t.isDir target.dropLast = true)
    (ht : t.get target = none ∨ t.isRegular target = true) : t.mayRename source target = true := by
  obtain ⟨bytes,hb⟩ := isRegular_iff.mp h
  unfold mayRename
  rw [hd, hb]
  obtain ht | ht := ht
  · rw [ht]
    rfl
  · obtain ⟨old,ho⟩ := isRegular_iff.mp ht
    rw [ho]
    rfl

end Tree
end RisuNest.Update
