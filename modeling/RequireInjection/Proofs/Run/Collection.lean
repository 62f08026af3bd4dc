import Mathlib.Data.List.Forall2
import RequireInjection.Proofs.FilePath.Components
import RequireInjection.Proofs.FileTree.Listing
import RequireInjection.Proofs.Run.Outputs

/-!
The modules that the paths of a run name. A path that leads to no directory names itself. A
directory names the files below it that have a configured extension and lie in no directory of
installed packages, in the order of their names. What a module is called below its path consists of
names only, so its output lies in the output directory.
-/
namespace RequireInjection

open FilePath (components)

/-- A module below the directory that a path leads to. Since every item lies in a directory, no link
is on the way from there to the file. -/
structure ModuleBelow (t : FileTree) (config : Config) (path : Text) (l : Location)
    (i : ModuleFile) : Prop where
  path : i.path = FilePath.join path (Text.join ['/'] i.relative)
  file : ∃ c, t.item? (l ++ i.relative) = some (.file c)
  extension : ∃ n e, i.relative.getLast? = some n ∧ FilePath.HasExtension n e ∧
    e ∈ config.extensions
  outside : .name Run.skippedDirectory ∉ components i.path

/-- What one path contributes to the modules of a run: itself, or what lies below it, each once. In
the order of the names what lies in a directory comes in the place of the directory. -/
inductive Contributes (t : FileTree) (config : Config) (path : Text) : List ModuleFile → Prop where
  | alone : (∀ l, t.find path ≠ .ok (.item l .directory)) →
      Contributes t config path [⟨path, FilePath.lastName path⟩]
  | below {l : Location} {modules : List ModuleFile} :
      t.find path = .ok (.item l .directory) →
      (∀ i, i ∈ modules ↔ ModuleBelow t config path l i) →
      modules.Pairwise (fun i j => i.relative.map Utf8.encode < j.relative.map Utf8.encode) →
      (∀ i ∈ modules, FilePath.below? path i.path = some (i.relative.map .name)) →
      Contributes t config path modules

theorem Config.matchesExtension_iff {config : Config} {path n : Text}
    (last : FilePath.fileName? path = some n) : config.matchesExtension path ↔
      ∃ e, FilePath.HasExtension n e ∧ e ∈ config.extensions := by
  rw [matchesExtension, FilePath.extension?, last, Option.bind_some]
  simp only [← FilePath.extensionOf?_eq_some]
  cases FilePath.extensionOf? n <;> simp

namespace Run

variable {t : FileTree} {config : Config} {path : Text} {l f : Location} {i : ModuleFile}

theorem isModule_iff (named : Named f) (proper : f ≠ []) :
    (config.matchesExtension (FilePath.join path (Text.join ['/'] f)) &&
      !(FilePath.names (FilePath.join path (Text.join ['/'] f))).contains skippedDirectory) ↔
    (∃ n e, f.getLast? = some n ∧ FilePath.HasExtension n e ∧ e ∈ config.extensions) ∧
      .name skippedDirectory ∉ components (FilePath.join path (Text.join ['/'] f)) := by
  obtain ⟨above, n, rfl⟩ : ∃ above n, f = above ++ [n] := by
    rcases List.eq_nil_or_concat f with nothing | ⟨above, n, whole⟩
    · exact absurd nothing proper
    · exact ⟨above, n, by rw [whole, List.concat_eq_append]⟩
  have last := (FilePath.endsIn_join path named).fileName_eq
  rw [Bool.and_eq_true, Config.matchesExtension_iff last,
    FilePath.name_mem_components (by decide)]
  simp

theorem mem_modulesAmong_iff (found : t.find path = .ok (.item l .directory)) :
    i ∈ modulesAmong config path (t.filesBelow path) ↔ ModuleBelow t config path l i := by
  rw [modulesAmong, List.mem_filter, List.mem_map]
  constructor
  · rintro ⟨⟨f, listed, rfl⟩, isModule⟩
    obtain ⟨named, proper⟩ := FileTree.named_filesBelow listed
    obtain ⟨extension, outside⟩ := (isModule_iff named proper).mp isModule
    exact ⟨rfl, ((FileTree.mem_filesBelow found).mp listed).2, extension, outside⟩
  · rintro ⟨whole, file, extension, outside⟩
    have proper : i.relative ≠ [] := by
      obtain ⟨n, e, last, -⟩ := extension
      rintro nothing
      simp [nothing] at last
    have listed := (FileTree.mem_filesBelow found).mpr ⟨proper, file⟩
    have named := (FileTree.named_filesBelow listed).1
    refine ⟨⟨i.relative, listed, by rw [← whole]⟩, ?_⟩
    rw [whole] at outside ⊢
    exact (isModule_iff named proper).mpr ⟨extension, outside⟩

theorem modulesAmong_sorted (found : t.find path = .ok (.item l .directory)) :
    (modulesAmong config path (t.filesBelow path)).Pairwise fun i j =>
      i.relative.map Utf8.encode < j.relative.map Utf8.encode := by
  refine List.Pairwise.filter _ (List.pairwise_map.mpr ?_)
  rw [FileTree.filesBelow, found]
  exact FileTree.filesFrom_sorted _ l

theorem below?_module (named : Named i.relative)
    (whole : i.path = FilePath.join path (Text.join ['/'] i.relative)) :
    FilePath.below? path i.path = some (i.relative.map .name) := by
  rw [whole]
  exact FilePath.below?_eq_some (FilePath.components_join named)

theorem contributes (t : FileTree) (config : Config) (path : Text) :
    Contributes t config path (t.modulesAt config path) := by
  unfold FileTree.modulesAt FileTree.isDirectory
  split
  · rename_i l found
    refine .below found (fun i => mem_modulesAmong_iff found) (modulesAmong_sorted found) ?_
    intro i member
    obtain ⟨listed, whole⟩ := mem_modulesAmong member
    exact below?_module (FileTree.named_filesBelow listed).1 whole
  · rename_i other
    rw [if_neg (by decide), ← FilePath.lastName_eq]
    exact .alone other

/-- Every path contributes its modules, in the order of the paths. The names of a module below its
path stand for themselves and are what its output has below the output directory. -/
theorem inputs_contribute (t : FileTree) (config : Config) (paths : List Text) (outDir : Text) :
    ∃ groups : List (List ModuleFile),
      (inputs FileTree.host config paths).run t = (.ok groups.flatten, t) ∧
      List.Forall₂ (Contributes t config) paths groups ∧
      ∀ i ∈ groups.flatten, Named i.relative ∧
        components (outputPath outDir i) = components outDir ++ i.relative.map .name := by
  refine ⟨paths.map (t.modulesAt config), inputs_eq t config paths, ?_, ?_⟩
  · rw [List.forall₂_map_right_iff]
    exact List.forall₂_same.mpr fun path _ => contributes t config path
  · intro i member
    obtain ⟨group, among, member⟩ := List.mem_flatten.mp member
    obtain ⟨path, -, rfl⟩ := List.mem_map.mp among
    have named := (named_relative member).1
    exact ⟨named, FilePath.components_join named⟩

/-- The directory comes before the files whose names begin with its own; the link, what has another
extension and the installed package are left out. -/
example :
    let tree := FileTree.ofList [(["lib".toList, "b.js".toList], .file []),
      (["lib".toList, "a.js".toList], .file []), (["lib".toList, "a.ts".toList], .file []),
      (["lib".toList, "a".toList, "x.mjs".toList], .file []),
      (["lib".toList, "l.js".toList], .link "b.js".toList),
      (["lib".toList, "node_modules".toList, "m.js".toList], .file [])]
    ((inputs FileTree.host Config.default ["./lib/", "main.ts"]).run tree).1.toOption =
      some [⟨"./lib/a/x.mjs", ["a".toList, "x.mjs".toList]⟩, ⟨"./lib/a.js", ["a.js".toList]⟩,
        ⟨"./lib/b.js", ["b.js".toList]⟩, ⟨"main.ts", ["main.ts".toList]⟩] := by
  cbv

end Run
end RequireInjection
