import RisuNest.Update.Updater

/-! An install transaction is atomic: whatever goes wrong and however often, recovery gives the
original files back, or the staged ones once the transaction was completed. -/
namespace RisuNest.Update
open Faulty Act InstallTransaction

variable {t₀ : Tree} {tx₀ : InstallTransaction}

lemma setting_of_new {sourceVersion targetVersion : String} {kind : TransactionKind}
    {install staged backup : Path} {files removedFiles : List Path} {wasRunning : Bool}
    (hnew : newWithRemoved t₀ sourceVersion targetVersion kind install staged backup files
      removedFiles wasRunning = .ok { tx₀ with priorStartupEnabled := none })
    (hground : Ground t₀ tx₀) : Setting t₀ tx₀ := by
  obtain ⟨_,hstaged,h⟩ := bind_eq_ok.mp hnew
  obtain ⟨_,hbackup,h⟩ := bind_eq_ok.mp h
  obtain ⟨_,hdistinct,h⟩ := bind_eq_ok.mp h
  obtain ⟨_,hunlinked,h⟩ := bind_eq_ok.mp h
  obtain ⟨_,hrelative,h⟩ := bind_eq_ok.mp h
  obtain ⟨_,-,h⟩ := bind_eq_ok.mp h
  obtain ⟨_,hnodup,h⟩ := bind_eq_ok.mp h
  have hmade := InstallTransaction.mk.inj (Except.ok.inj h)
  obtain ⟨hschema,-,-,-,hphase,hi,hs,hb,hfiles,-,-,hii,hsi⟩ := hmade
  have hpaths : tx₀.fileStates.map FileTransaction.path = files ++ removedFiles := by
    rw [← hfiles, List.map_append, List.map_map, List.map_map]
    exact congrArg₂ (· ++ ·) (List.map_id _) (List.map_id _)
  rw [hi, hs] at hstaged
  rw [hi, hb] at hbackup
  rw [hi, hs, hb] at hdistinct hunlinked
  refine {
    toGround := hground
    schema := hschema.symm
    staged := hstaged
    backup := hbackup
    distinct := require_eq_ok.mp hdistinct
    unlinked := hunlinked
    relative := fun f hf => ?_
    nodup := hpaths ▸ require_eq_ok.mp hnodup
    phase := hphase.symm
    pending := fun f hf => ?_
    identities := ⟨hii.symm,hsi.symm⟩ }
  · have hm : f.path ∈ files ++ removedFiles := hpaths ▸ List.mem_map.mpr ⟨f,hf,rfl⟩
    exact require_eq_ok.mp (forM_eq_ok.mp hrelative f.path hm)
  · rw [← hfiles] at hf
    obtain hf | hf := List.mem_append.mp hf
    · obtain ⟨p,-,rfl⟩ := List.mem_map.mp hf
      exact ⟨rfl,rfl⟩
    · obtain ⟨p,-,rfl⟩ := List.mem_map.mp hf
      exact ⟨rfl,rfl⟩

lemma tracked_start (set : Setting t₀ tx₀) (made : Path → DirectoryIdentity) :
    Tracked t₀ tx₀ (Updater.start t₀ made tx₀) := by
  have hbase : Base t₀ tx₀ t₀ := by
    refine ⟨fun _ _ _ _ => .inl rfl,set.unlinked,fun p => isLink_of_none (set.unused p)⟩
  have hphase : tx₀.phase ≠ .completed := by
    rw [set.phase]
    decide
  have hsafe : Safe t₀ tx₀ (Updater.start t₀ made tx₀).world := by
    refine ⟨hbase,fun tx htx => ?_,fun h => nomatch h⟩
    obtain rfl := Option.some.inj htx
    exact ⟨set.sound,iff_of_false Bool.false_ne_true hphase⟩
  refine ⟨hsafe,fun _ => ⟨hsafe,set.sound.derived,.inr set.sound,(fun h => nomatch h),?_⟩⟩
  intro hp tx htx
  exact Option.some.inj htx ▸ hp

/-! ### Samples -/

def samplePath (name : String) : Path := ["srv",name]

/-- An install directory and a stage beside it, with a file in each. -/
def sampleTree : Tree := .ofRows [
  ([],.dir ⟨1,1⟩),
  (["srv"],.dir ⟨1,2⟩),
  (samplePath "app",.dir ⟨1,3⟩),
  (samplePath "app" ++ ["bin"],.file [1]),
  (samplePath ".risunest-sync-update-s",.dir ⟨1,4⟩),
  (samplePath ".risunest-sync-update-s" ++ ["bin"],.file [2])]

def sampleTransaction (kind : TransactionKind) (files : List Path) : InstallTransaction where
  schema := transactionSchema
  sourceVersion := "1"
  targetVersion := "2"
  kind := kind
  phase := .prepared
  installPath := samplePath "app"
  stagedPath := samplePath ".risunest-sync-update-s"
  backupPath := samplePath ".risunest-sync-update-b"
  fileStates := files.map (⟨·,true,none,.pending⟩)
  wasRunning := true
  priorStartupEnabled := none
  directoryInstallIdentity := none
  directoryStagedIdentity := none

def sampleStart (kind : TransactionKind) (files : List Path) : Updater :=
  .start sampleTree (fun p => ⟨2,p.length⟩) (sampleTransaction kind files)

def sampleStep : Updater → Event → Option Updater := Updater.step (samplePath "app")

/-- A crash after some steps. -/
def crashAfter (n : ℕ) : List (Option (Fault Part)) :=
  List.replicate n none ++ [some (.crash ⟨true,fun _ => true,1⟩)]

lemma sample_parents : ∀ r ∈ sampleTree.rows, r.1 = [] ∨ sampleTree.isDir r.1.dropLast = true ∧
    sampleTree.isLink r.1.dropLast = false := by decide

lemma sample_ground (kind : TransactionKind) {files : List Path}
    (hfiles : kind = .files → files = [["bin"]]) :
    Ground sampleTree (sampleTransaction kind files) := by
  refine ⟨fun p name h => ?_,fun p => ?_,fun hk => ?_,fun _ i j hi hj => ?_⟩
  · obtain ⟨node,hnode⟩ := Option.ne_none_iff_exists'.mp h
    obtain hnil | ⟨hdir,hlink⟩ := sample_parents _ (Table.get_eq_some.mp hnode)
    · exact absurd hnil (by simp)
    · rw [List.dropLast_concat] at hdir hlink
      unfold Tree.isDir Tree.isLink at *
      split at hdir
      · exact ⟨_,‹_›⟩
      · simp_all
      · cases hdir
  · refine Table.get_eq_none.mpr fun hm => ?_
    obtain ⟨r,hr,he⟩ := List.mem_map.mp hm
    have hrows : ∀ r ∈ sampleTree.rows, ¬ samplePath ".risunest-sync-update-b" <+: r.1 := by
      decide
    exact hrows r hr (he ▸ List.prefix_append _ _)
  · obtain rfl : kind = .files := hk
    obtain rfl := hfiles rfl
    refine ⟨?_,?_,?_,fun f hf hd => ?_⟩
    · decide
    · decide
    · decide
    · obtain ⟨p,-,rfl⟩ := List.mem_map.mp hf
      cases hd
  · have hi' : sampleTree.get (samplePath "app") = some (.dir ⟨1,3⟩) := by decide
    have hj' : sampleTree.get (samplePath ".risunest-sync-update-s") = some (.dir ⟨1,4⟩) := by
      decide
    obtain rfl := Node.dir.inj (Option.some.inj (hi'.symm.trans hi))
    obtain rfl := Node.dir.inj (Option.some.inj (hj'.symm.trans hj))
    decide

/-! ### Runs -/

/-- Over every run of the updater, whatever goes wrong in it: what is saved is loaded again, the
files around the transaction stay as they are, and recovery leaves no transaction and the files of
one side, unless what is saved is a directory that was not begun. -/
theorem install_recoverable {sourceVersion targetVersion : String} {kind : TransactionKind}
    {install staged backup : Path} {files removedFiles : List Path} {wasRunning : Bool}
    (hnew : newWithRemoved t₀ sourceVersion targetVersion kind install staged backup files
      removedFiles wasRunning = .ok { tx₀ with priorStartupEnabled := none })
    (hground : Ground t₀ tx₀) (made : Path → DirectoryIdentity) {s : Updater}
    (hrun : Runs.Run (Updater.step tx₀.installPath) (Allowed t₀ tx₀)
      (Updater.start t₀ made tx₀) s) :
    load tx₀.installPath [] s.world = (.ok s.world.stored,s.world,[]) ∧
      Kept t₀ tx₀ s.world.tree ∧
      (Recovers t₀ tx₀ s.world ↔ ∀ tx ∈ s.world.stored, ¬ Unbegun tx) := by
  have set := setting_of_new hnew hground
  have hs : Tracked t₀ tx₀ s :=
    hrun.keeps (fun _ _ _ ht ok hstep => ht.step set ok hstep) (tracked_start set made)
  refine ⟨load_ends set hs.safe,hs.safe.base.kept,fun hr tx htx hu => ?_,fun hm => ?_⟩
  · exact not_recovers_unbegun set hs.safe htx hu hr
  · exact recovery_ends set hs.safe hm

/-- Two crashes, one of them in the recovery from the other. -/
theorem install_recoverable_crashed : ∃ s, Runs.steps sampleStep (sampleStart .files [["bin"]])
      [⟨.apply,crashAfter 11⟩,⟨.recoverTransaction,crashAfter 2⟩] = some s ∧
    s.world.stored.isSome = true ∧
    Recovers sampleTree (sampleTransaction .files [["bin"]]) s.world := by
  have hnew : newWithRemoved sampleTree "1" "2" .files (samplePath "app")
      (samplePath ".risunest-sync-update-s") (samplePath ".risunest-sync-update-b") [["bin"]] []
        true = .ok (sampleTransaction .files [["bin"]]) := by decide +kernel
  have hcheck : (Runs.steps sampleStep (sampleStart .files [["bin"]])
      [⟨.apply,crashAfter 11⟩,⟨.recoverTransaction,crashAfter 2⟩]).any (fun s =>
        s.world.stored.any fun tx => decide (tx.kind = .files)) = true := by decide +kernel
  have hbegun : ∀ t ∈ sampleStep (sampleStart .files [["bin"]]) ⟨.apply,crashAfter 11⟩,
      ∀ tx ∈ t.world.stored, ¬ Unbegun tx := by decide
  obtain ⟨s,hs,hstored⟩ := (Option.any_eq_true _ _).mp hcheck
  obtain ⟨tx,htx,hkind⟩ := (Option.any_eq_true _ _).mp hstored
  refine ⟨s,hs,by rw [htx]; rfl,?_⟩
  have hrun : Runs.Run sampleStep (Allowed sampleTree (sampleTransaction .files [["bin"]]))
      (sampleStart .files [["bin"]]) s :=
    .of_steps hs ⟨⟨rfl,rfl⟩,fun t ht => ⟨hbegun t ht,fun _ _ => trivial⟩⟩
  refine (install_recoverable hnew (sample_ground .files fun _ => rfl) _ hrun).2.2.mpr ?_
  intro tx' htx' hu
  obtain rfl := Option.some.inj (htx.symm.trans htx')
  rw [hu.1] at hkind
  cases hkind

/-- A directory that a crash left before it was begun is rolled back, and what that saves is not
loaded again. -/
theorem unbegun_directory_locked : ∃ s,
    newWithRemoved sampleTree "1" "2" .directory (samplePath "app")
      (samplePath ".risunest-sync-update-s") (samplePath ".risunest-sync-update-b") [] [] true =
        .ok (sampleTransaction .directory []) ∧
    Ground sampleTree (sampleTransaction .directory []) ∧
    Runs.steps sampleStep (sampleStart .directory []) [⟨.recoverTransaction,[]⟩] = some s ∧
    (load (samplePath "app") [] s.world).1 = .error "update-transaction-invalid" ∧
    (finishRollbackRecovery (samplePath "app") [] s.world).1 =
      .error "update-transaction-invalid" := by
  have hcheck : (Runs.steps sampleStep (sampleStart .directory [])
      [⟨.recoverTransaction,[]⟩]).any (fun s =>
        decide ((load (samplePath "app") [] s.world).1 = .error "update-transaction-invalid") &&
        decide ((finishRollbackRecovery (samplePath "app") [] s.world).1 =
          .error "update-transaction-invalid")) = true := by decide +kernel
  obtain ⟨s,hs,hlocked⟩ := (Option.any_eq_true _ _).mp hcheck
  obtain ⟨hload,hfinish⟩ := Bool.and_eq_true_iff.mp hlocked
  exact ⟨s,by decide +kernel,sample_ground .directory (fun h => nomatch h),hs,
    of_decide_eq_true hload,of_decide_eq_true hfinish⟩

end RisuNest.Update
