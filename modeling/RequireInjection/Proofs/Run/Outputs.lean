import Mathlib.Data.List.Pairwise
import RequireInjection.Proofs.FileTree.Files
import RequireInjection.Run

/-!
Where the injectable forms of modules go. The names of an output are those of the output directory
and then those of the module below its argument, so two modules share an output exactly if they have
the same names there. One argument never names two such modules, but two arguments can.
-/
namespace RequireInjection

def FileTree.modulesAt (t : FileTree) (config : Config) (path : Text) : List ModuleFile :=
  if t.isDirectory path then Run.modulesAmong config path (t.filesBelow path)
  else [⟨path, (FilePath.fileName? path).toList⟩]

namespace Run

variable {t : FileTree} {config : Config} {path outDir : Text} {i j : ModuleFile}

theorem inputsAt_eq (t : FileTree) (config : Config) (path : Text) :
    (inputsAt FileTree.host config path).run t = (.ok (t.modulesAt config path), t) := by
  have asked : (FileTree.host.isDirectory path).run t = pure (t.isDirectory path, t) := rfl
  have walked : (FileTree.host.filesBelow path).run t = pure (.ok (t.filesBelow path), t) := rfl
  unfold inputsAt FileTree.modulesAt
  rw [StateT.run_bind, asked, pure_bind]
  cases t.isDirectory path with
  | true =>
    simp only [if_true]
    rw [StateT.run_bind, walked, pure_bind]
    rfl
  | false => rfl

theorem inputs_eq (t : FileTree) (config : Config) (paths : List Text) :
    (inputs FileTree.host config paths).run t =
      (.ok (paths.map (t.modulesAt config)).flatten, t) := by
  induction paths with
  | nil => rfl
  | cons path rest ih =>
    unfold inputs
    rw [StateT.run_bind, inputsAt_eq]
    change StateT.run (do
      let more ← inputs FileTree.host config rest
      pure (more.map (t.modulesAt config path ++ ·))) t = _
    rw [StateT.run_bind, ih]
    rfl

theorem mem_modulesAmong {directory : Text} {files : List Location}
    (member : i ∈ modulesAmong config directory files) :
    i.relative ∈ files ∧ i.path = FilePath.join directory (Text.join ['/'] i.relative) := by
  obtain ⟨f, among, rfl⟩ := List.mem_map.mp (List.mem_filter.mp member).1
  exact ⟨among, rfl⟩

theorem relatives_sublist (config : Config) (directory : Text) (files : List Location) :
    ((modulesAmong config directory files).map ModuleFile.relative).Sublist files := by
  refine (List.filter_sublist.map _).trans ?_
  rw [List.map_map]
  change (files.map id).Sublist files
  rw [List.map_id]

/-- The names of a module below its argument stand for themselves, and there are some unless the
argument is a path without a last name. -/
theorem named_relative (member : i ∈ t.modulesAt config path) :
    Named i.relative ∧ (i.relative = [] → FilePath.fileName? i.path = none) := by
  unfold FileTree.modulesAt at member
  split at member
  · obtain ⟨named, proper⟩ := FileTree.named_filesBelow (mem_modulesAmong member).1
    exact ⟨named, fun nothing => absurd nothing proper⟩
  · obtain rfl := List.mem_singleton.mp member
    cases last : FilePath.fileName? path with
    | none => exact ⟨by simp [Named], fun _ => rfl⟩
    | some n => exact ⟨by simpa [Named] using FilePath.isName_of_fileName last, by simp⟩

theorem names_outputPath (named : Named i.relative) (outDir : Text) :
    FilePath.names (outputPath outDir i) = FilePath.names outDir ++ i.relative := by
  rw [outputPath, FilePath.names_join _ (FilePath.not_isAbsolute_join named),
    FilePath.names_join_names named]

theorem outputPath_eq_iff (named : Named i.relative) (named' : Named j.relative) (outDir : Text) :
    outputPath outDir i = outputPath outDir j ↔ i.relative = j.relative := by
  constructor
  · intro same
    have names := congrArg FilePath.names same
    rw [names_outputPath named, names_outputPath named'] at names
    exact List.append_cancel_left names
  · intro same
    rw [outputPath, outputPath, same]

theorem outputs_apart (t : FileTree) (config : Config) (path outDir : Text) :
    ((t.modulesAt config path).map (outputPath outDir)).Nodup := by
  have relatives : ((t.modulesAt config path).map ModuleFile.relative).Nodup := by
    unfold FileTree.modulesAt
    split
    · exact (relatives_sublist config path _).nodup (t.nodup_filesBelow path)
    · simp
  rw [List.Nodup, List.pairwise_map] at relatives ⊢
  refine relatives.imp_of_mem fun {i j} hi hj differ same => differ ?_
  exact (outputPath_eq_iff (named_relative hi).1 (named_relative hj).1 outDir).mp same

/-- The modules of one argument have outputs of their own. Modules of all arguments that have
different paths have different outputs exactly if no two arguments name different modules by the
same names below them. -/
theorem outputs_apart_iff (t : FileTree) (config : Config) (paths : List Text) (outDir : Text) :
    let groups := paths.map (t.modulesAt config)
    (inputs FileTree.host config paths).run t = (.ok groups.flatten, t) ∧
      (∀ group ∈ groups, (group.map (outputPath outDir)).Nodup) ∧
      ((∀ i ∈ groups.flatten, ∀ j ∈ groups.flatten, i.path ≠ j.path →
          outputPath outDir i ≠ outputPath outDir j) ↔
        groups.Pairwise fun group later => ∀ i ∈ group, ∀ j ∈ later,
          i.relative = j.relative → i.path = j.path) := by
  intro groups
  have apart : ∀ group ∈ groups, (group.map (outputPath outDir)).Nodup := by
    intro group member
    obtain ⟨path, -, rfl⟩ := List.mem_map.mp member
    exact outputs_apart t config path outDir
  have named : ∀ i ∈ groups.flatten, Named i.relative := by
    intro i member
    obtain ⟨group, among, member⟩ := List.mem_flatten.mp member
    obtain ⟨path, -, rfl⟩ := List.mem_map.mp among
    exact (named_relative member).1
  have share {i j : ModuleFile} (hi : i ∈ groups.flatten) (hj : j ∈ groups.flatten) :=
    outputPath_eq_iff (named i hi) (named j hj) outDir
  refine ⟨inputs_eq t config paths, apart, fun differ => ?_, fun across i hi j hj => ?_⟩
  · refine List.pairwise_of_forall_mem_list fun group member later among i hi j hj same => ?_
    by_contra other
    have hi := List.mem_flatten.mpr ⟨group, member, hi⟩
    have hj := List.mem_flatten.mpr ⟨later, among, hj⟩
    exact differ i hi j hj other ((share hi hj).mpr same)
  · -- modules that share an output come from one argument, or the arguments are compared
    have within : ∀ group ∈ groups,
        group.Pairwise fun i j => i.relative = j.relative → i.path = j.path := by
      intro group member
      have differ := List.pairwise_map.mp (apart group member)
      refine differ.imp_of_mem fun {i j} hi hj differ same => ?_
      have hi := List.mem_flatten.mpr ⟨group, member, hi⟩
      have hj := List.mem_flatten.mpr ⟨group, member, hj⟩
      exact absurd ((share hi hj).mpr same) differ
    have all : groups.flatten.Pairwise fun i j => i.relative = j.relative → i.path = j.path :=
      List.pairwise_flatten.mpr ⟨within, across⟩
    have symmetric : Std.Symm fun i j : ModuleFile => i.relative = j.relative → i.path = j.path :=
      ⟨fun _ _ h same => (h same.symm).symm⟩
    have every := all.forall_of_forall (fun _ _ _ => rfl) hi hj
    exact fun other same => other (every ((share hi hj).mp same))

/-- Two files of one name in different directories are reported as rewritten, and one is left. -/
theorem second_output_lost :
    let tree := FileTree.ofList [(["a".toList, "index.js".toList], .file (Utf8.encode "x = 1")),
      (["b".toList, "index.js".toList], .file (Utf8.encode "x = 2"))]
    let first : ModuleFile := ⟨"a/index.js", ["index.js".toList]⟩
    let second : ModuleFile := ⟨"b/index.js", ["index.js".toList]⟩
    let ended := (RequireInjection.run FileTree.host
      (["a/index.js", "b/index.js", "--out-dir", "out"].map String.toList)).run tree
    [first, second] = ([first.path, second.path].map (tree.modulesAt Config.default)).flatten ∧
      first.path ≠ second.path ∧ outputPath "out" first = outputPath "out" second ∧
      ended.1.code = 0 ∧ tree.changedFrom ended.2 =
        [(["out".toList, "index.js".toList], Utf8.encode (injectableModule "x = 2"))] := by
  decide +kernel

end Run
end RequireInjection
