import RisuNest.Update.Frames
import Mathlib.Data.List.Induction

/-! The steps of an install transaction at one file of its inventory. -/
namespace RisuNest.Update
open Faulty Act InstallTransaction

variable {t₀ : Tree} {tx₀ : InstallTransaction} {sure : Prop} {w : World}

lemma FileOk.consistent {t : Tree} {f : FileTransaction} (h : FileOk t₀ tx₀ t f) :
    f.phase = .pending ↔ f.originalExisted = none := by
  have hnoted (hn : Noted t₀ tx₀ f) : f.phase = .pending ↔ f.originalExisted = none :=
    iff_of_false hn.phase (by rw [hn.existed]; exact Option.some_ne_none _)
  cases h with
  | pending hp ho => exact iff_of_true hp ho
  | restored hp ho => exact iff_of_false (by rw [hp]; decide) ho
  | unchanged hn => exact hnoted hn
  | saved hn => exact hnoted hn
  | added hn => exact hnoted hn

lemma map_modify {α β : Type} {g : α → α} {h : α → β} {l : List α} {i : ℕ}
    (hg : ∀ a, l[i]? = some a → h (g a) = h a) : (l.modify i g).map h = l.map h := by
  apply List.ext_getElem?
  intro j
  rw [List.getElem?_map, List.getElem?_map, List.getElem?_modify]
  cases hj : l[j]? with
  | none => rfl
  | some a =>
    by_cases hi : i = j
    · subst hi
      simp [hg a hj]
    · simp [hi]

section
variable (set : Setting t₀ tx₀) (hk : tx₀.kind = .files) {phase : TransactionPhase}
  (hp : phase = .installing ∨ phase = .rollingBack) {i : ℕ} {f : FileTransaction}
include hk hp

lemma Sound.ofFiles {t : Tree} {tx : InstallTransaction} (hd : Derived tx₀ tx)
    (hf : ∀ f ∈ tx.fileStates, FileOk t₀ tx₀ t f) (hi : tx.directoryInstallIdentity = none)
    (hs : tx.directoryStagedIdentity = none) (hphase : tx.phase = phase) :
    Sound t₀ tx₀ t tx := by
  refine ⟨hd,fun f h => (hf f h).consistent,fun _ => ⟨hi,hs⟩,
    fun h => absurd (hk.symm.trans h) (by decide),?_⟩
  unfold Phased Work
  rw [hphase, hk]
  obtain rfl | rfl := hp
  · exact hf
  · exact hf

lemma Running.work (hw : Running t₀ tx₀ phase w) :
    ∀ f ∈ w.hand.fileStates, FileOk t₀ tx₀ w.tree f := by
  have h := hw.sound.phased
  unfold Phased Work at h
  rw [hw.phase, hk] at h
  obtain rfl | rfl := hp
  · exact h
  · exact h

include set

omit hp in
lemma Running.distant (hw : Running t₀ tx₀ phase w) (hi : w.hand.fileStates[i]? = some f) {j : ℕ}
    {g : FileTransaction} (hj : w.hand.fileStates[j]? = some g) (hne : j ≠ i) :
    Distant tx₀ f.path g.path := by
  have hpaths : (w.hand.fileStates.map FileTransaction.path).Nodup :=
    hw.held.derived.paths ▸ set.nodup
  obtain ⟨f',hf',hpf,-⟩ := hw.held.derived.origin (List.mem_of_getElem? hi)
  obtain ⟨g',hg',hpg,-⟩ := hw.held.derived.origin (List.mem_of_getElem? hj)
  rw [← hpf, ← hpg]
  refine Update.distant set (set.separate hk) hf' hg' fun he => hne ?_
  rw [hpf, hpg] at he
  have hpi : (w.hand.fileStates.map FileTransaction.path)[i]? = some f.path := by
    rw [List.getElem?_map, hi, Option.map_some]
  have hpj : (w.hand.fileStates.map FileTransaction.path)[j]? = some f.path := by
    rw [List.getElem?_map, hj, Option.map_some, he]
  exact (List.getElem?_inj (List.getElem?_eq_some_iff.mp hpj).1 hpaths).mp (hpj.trans hpi.symm)

lemma Running.atFile (hw : Running t₀ tx₀ phase w) (hi : w.hand.fileStates[i]? = some f)
    {t : Tree} (ha : Apart tx₀ f.path w.tree t) (hf : FileOk t₀ tx₀ t f) :
    Running t₀ tx₀ phase { w with tree := t } := by
  obtain ⟨g,hg,hpath,-⟩ := hw.held.derived.origin (List.mem_of_getElem? hi)
  obtain ⟨hids,hids'⟩ := hw.sound.files hk
  refine hw.withTree (ha.base set hk ⟨g,hg,hpath⟩ hw.held.safe.base)
    (Sound.ofFiles hk hp hw.held.derived (fun g hg => ?_) hids hids' hw.phase)
  obtain ⟨j,hj⟩ := List.mem_iff_getElem?.mp hg
  by_cases hij : j = i
  · subst hij
    rw [hi] at hj
    exact Option.some.inj hj ▸ hf
  · exact ha.fileOk set (hw.distant set hk hi hj hij) (hw.work hk hp g hg)

lemma leaves_noteFile {g : FileTransaction → FileTransaction} {Q : Unit → World → Prop}
    (hw : Running t₀ tx₀ phase w) (hi : w.hand.fileStates[i]? = some f)
    (hpath : (g f).path = f.path ∧ (g f).desiredPresent = f.desiredPresent)
    (hf : FileOk t₀ tx₀ w.tree (g f))
    (hq : ∀ w', Running t₀ tx₀ phase w' → w'.tree = w.tree → w'.completed = w.completed →
      w'.hand.fileStates = w.hand.fileStates.modify i g → Q () w') :
    Leaves (Safe t₀ tx₀) sure (noteFile i g) Q (Held t₀ tx₀) w := by
  have hd := hw.held.derived
  obtain ⟨hids,hids'⟩ := hw.sound.files hk
  have hd' : Derived tx₀ { w.hand with fileStates := w.hand.fileStates.modify i g } := by
    refine ⟨hd.schema,hd.kind,hd.install,hd.staged,hd.backup,(map_modify fun a ha => ?_).trans
      hd.files⟩
    rw [hi] at ha
    obtain rfl := Option.some.inj ha
    rw [hpath.1, hpath.2]
  have hs : Sound t₀ tx₀ w.tree { w.hand with fileStates := w.hand.fileStates.modify i g } := by
    refine Sound.ofFiles hk hp hd' (fun h hh => ?_) hids hids' hw.phase
    obtain ⟨j,hj⟩ := List.mem_iff_getElem?.mp hh
    rw [List.getElem?_modify] at hj
    obtain ⟨a,ha,rfl⟩ := Option.map_eq_some_iff.mp hj
    by_cases hij : i = j
    · subst hij
      rw [hi] at ha
      obtain rfl := Option.some.inj ha
      rw [if_pos rfl]
      exact hf
    · rw [if_neg hij]
      exact hw.work hk hp a (List.mem_of_getElem? ha)
  have hc : w.completed = true → phase = .completed := fun h =>
    hw.phase.symm.trans (hw.held.completed h)
  have hne : phase ≠ .prepared ∧ phase ≠ .completed := by
    obtain rfl | rfl := hp <;> decide
  have hheld : Held t₀ tx₀
      { w with hand := { w.hand with fileStates := w.hand.fileStates.modify i g } } :=
    ⟨hw.held.safe.anyHand _,hd',.inr hs,hw.held.completed,
      fun h => absurd (hw.phase.symm.trans h) hne.1⟩
  refine Leaves.bind (Leaves.modify ?_)
  refine leaves_save set hheld hs (hq _ ⟨held_saved hheld hs,hw.phase,rfl,hs⟩ rfl ?_ rfl)
  change (w.completed || decide (w.hand.phase = .completed)) = w.completed
  rw [hw.phase, decide_eq_false hne.2, Bool.or_false]

lemma leaves_atFile {check : World → Bool} {e : String} {g : Tree → Tree}
    {Q : Unit → World → Prop} {E : World → Prop} (hw : Running t₀ tx₀ phase w)
    (hi : w.hand.fileStates[i]? = some f) (hE : E w)
    (hg : check w = true → Apart tx₀ f.path w.tree (g w.tree) ∧ FileOk t₀ tx₀ (g w.tree) f)
    (hn : check w = false → ¬ sure)
    (hq : check w = true → Running t₀ tx₀ phase { w with tree := g w.tree } →
      Q () { w with tree := g w.tree } ∧ E { w with tree := g w.tree }) :
    Leaves (Safe t₀ tx₀) sure (atomic check e (onTree g)) Q E w := by
  refine leaves_atomic_of hE hw.held.safe (fun hc => ?_) hn
  obtain ⟨ha,hf⟩ := hg hc
  have hrun := hw.atFile set hk hp hi ha hf
  exact ⟨(hq hc hrun).1,(hq hc hrun).2,hrun.held.safe⟩

end

/-! ### Renames between the places of a file -/

section
variable {t : Tree} {p source target : Path} {bytes : List UInt8}

lemma apart_renamed (set : Setting t₀ tx₀) (hp : p ≠ [])
    (hs : source ∈ [tx₀.target p,tx₀.backup p,tx₀.stage p,pendingPath (tx₀.backup p)])
    (ht : target ∈ [tx₀.target p,tx₀.backup p]) (h : t.get source = some (.file bytes)) :
    Apart tx₀ p t (t.renamed source target) := by
  simp only [List.mem_cons, List.not_mem_nil, or_false] at hs ht
  have hpending : pendingPath (tx₀.backup p) ≠ target := by
    rw [pendingPath_append (a := tx₀.backupPath) hp]
    obtain rfl | rfl := ht
    · exact (set.target_ne_backup p _).symm
    · intro he
      have he : pendingPath p = p := List.append_cancel_left he
      have hl := congrArg List.getLast? he
      rw [pendingPath, List.getLast?_concat, List.getLast?_eq_some_getLast hp,
        Option.some.injEq] at hl
      have := congrArg String.length hl
      simp at this
  refine ⟨fun r h1 h2 h3 h4 => .inl ?_,fun hd => ?_,fun r hr => ?_⟩
  · have hrt : r ≠ target := by
      rintro rfl
      exact ht.elim h1 h2
    have hrs : r ≠ source := by
      rintro rfl
      obtain h | h | h | h := hs
      · exact h1 h
      · exact h2 h
      · exact h3 h
      · exact h4 h
    rw [Tree.get_renamed h, if_neg hrt, if_neg hrs]
  · have hsource : pendingPath (tx₀.backup p) ≠ source := by
      rintro rfl
      unfold Tree.isDir at hd
      rw [h] at hd
      cases hd
    rw [Tree.get_renamed h, if_neg hpending, if_neg hsource]
  · obtain ⟨link,hlink⟩ := Tree.isLink_iff.mp hr
    rw [Tree.get_renamed h] at hlink
    split_ifs at hlink
    · cases hlink
    · exact Tree.isLink_iff.mpr ⟨link,hlink⟩

lemma leaves_rename (set : Setting t₀ tx₀) (hk : tx₀.kind = .files) {phase : TransactionPhase}
    (hp : phase = .installing ∨ phase = .rollingBack) {i : ℕ} {f : FileTransaction}
    {e : String} {Q : Unit → World → Prop} {E : World → Prop} (hw : Running t₀ tx₀ phase w)
    (hi : w.hand.fileStates[i]? = some f) (hE : E w)
    (hs : source ∈ [tx₀.target f.path,tx₀.backup f.path,tx₀.stage f.path,
      pendingPath (tx₀.backup f.path)])
    (ht : target ∈ [tx₀.target f.path,tx₀.backup f.path])
    (h : w.tree.get source = some (.file bytes))
    (hf : FileOk t₀ tx₀ (w.tree.renamed source target) f)
    (hmay : w.tree.mayRename source target = false → ¬ sure)
    (hq : Apart tx₀ f.path w.tree (w.tree.renamed source target) →
      Running t₀ tx₀ phase { w with tree := w.tree.renamed source target } →
      Q () { w with tree := w.tree.renamed source target } ∧
        E { w with tree := w.tree.renamed source target }) :
    Leaves (Safe t₀ tx₀) sure (durableRename source target e) Q E w := by
  obtain ⟨g,hg,hpath,-⟩ := hw.held.derived.origin (List.mem_of_getElem? hi)
  have ha := apart_renamed set (hpath ▸ set.relative g hg) hs ht h
  refine Leaves.bind (leaves_atFile (g := (·.renamed source target)) set hk hp hw hi hE
    (fun _ => ⟨ha,hf⟩) hmay fun hc hrun => ?_)
  obtain ⟨hq,hE⟩ := hq ha hrun
  refine ⟨Leaves.bind (leaves_call_of hE hrun.held.safe ?_),hE⟩
  exact Leaves.ite (fun _ => leaves_call_of hE hrun.held.safe hq) fun _ => Leaves.pure hq

end

/-! ### Directories -/

lemma mem_prefixes {p q : Path} : q ∈ p.inits.tail ↔ q <+: p ∧ q ≠ [] := by
  cases p with
  | nil => simp +contextual
  | cons a p =>
    rw [List.inits_cons, List.tail_cons, List.mem_map]
    constructor
    · rintro ⟨r,hr,rfl⟩
      exact ⟨List.cons_prefix_cons.mpr ⟨rfl,(List.mem_inits r p).mp hr⟩,List.cons_ne_nil _ _⟩
    · rintro ⟨h,hn⟩
      cases q with
      | nil => exact absurd rfl hn
      | cons b q =>
        obtain ⟨rfl,hqp⟩ := List.cons_prefix_cons.mp h
        exact ⟨q,(List.mem_inits q p).mpr hqp,rfl⟩

lemma leaves_createDirAll_of_dirs {C E : World → Prop} {d : Path} {e : String}
    {Q : Unit → World → Prop} (hd : ∀ q, q <+: d → q ≠ [] → w.tree.isDir q = true)
    (hq : Q () w) : Leaves C sure (createDirAll d e) Q E w := by
  refine (Leaves.forM (fun _ w' => w' = w) ?_ rfl).mono (fun _ _ h => h ▸ hq) fun _ => id
  rintro done q rest u hl rfl
  have hm : q ∈ d.inits.tail := by
    rw [hl]
    simp
  obtain ⟨hinit,hne⟩ := mem_prefixes.mp hm
  refine Leaves.bind (Leaves.look ?_)
  rw [if_pos (hd q hinit hne)]
  exact Leaves.pure rfl

lemma Setting.dirs_above (set : Setting t₀ tx₀) {r s : Path} (hs : s ≠ [])
    (h : t₀.get (r ++ s) ≠ none) : ∃ identity, t₀.get r = some (.dir identity) := by
  induction s using List.reverseRecOn with
  | nil => exact absurd rfl hs
  | append_singleton s name ih =>
    rw [← List.append_assoc] at h
    obtain ⟨identity,hd⟩ := set.tree _ _ h
    by_cases hne : s = []
    · subst hne
      rw [List.append_nil] at hd
      exact ⟨identity,hd⟩
    · exact ih hne (by rw [hd]; exact Option.some_ne_none _)

end RisuNest.Update
