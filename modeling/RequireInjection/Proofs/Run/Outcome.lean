import RequireInjection.Proofs.Run.Outputs
import RequireInjection.Proofs.Run.Store

/-!
What a run leaves behind, in whatever order its jobs take their steps. A run that cannot begin
leaves everything as it was. One that stores its outputs apart from its inputs and from each other
changes no other file, and each output ends up with the injectable form of its own module.
-/
namespace RequireInjection

open FileTree (storing)

def Job.Quiet {σ α : Type} (job : Job σ α) : Prop := ∀ s, (job.run s).2 = s

theorem Job.Quiet.bind {σ α β : Type} {job : Job σ α} {f : α → Job σ β} (quiet : job.Quiet)
    (rest : ∀ a, (f a).Quiet) : (job >>= f).Quiet := by
  intro s
  rw [Job.run_bind, rest, quiet]

theorem Job.quiet_pure {σ α : Type} (a : α) : (pure a : Job σ α).Quiet := fun _ => rfl

namespace Run

variable (barred : Text → Option FileFault) (schedule : List Nat) {t : FileTree}
  {filters : FilterSet} {outDir path : Text} {inputs : List ModuleFile}

section Beginning

theorem quiet_readText (path : Text) :
    ((FileTree.sharedHost barred schedule).readText path).Quiet := by
  refine Job.Quiet.bind (fun _ => rfl) fun result => ?_
  cases result <;> exact Job.quiet_pure _

theorem quiet_load (path : Text) :
    (Config.load (FileTree.sharedHost barred schedule) path).Quiet := by
  refine (quiet_readText barred schedule path).bind fun result => ?_
  cases result <;> exact Job.quiet_pure _

theorem quiet_config (c : Command) : (config (FileTree.sharedHost barred schedule) c).Quiet := by
  unfold config
  cases c.project with
  | some path => exact (quiet_load barred schedule path).bind fun _ => Job.quiet_pure _
  | none =>
    refine Job.Quiet.bind (fun _ => rfl) fun there => ?_
    cases there with
    | true => exact (quiet_load barred schedule _).bind fun _ => Job.quiet_pure _
    | false => exact Job.quiet_pure _

theorem run_filesBelow (t : FileTree) (path : Text) :
    ((FileTree.sharedHost barred schedule).filesBelow path).run t =
      ((barred path).elim (.ok (t.filesBelow path)) .error, t) := by
  simp only [FileTree.sharedHost]
  cases barred path <;> rfl

theorem inputsAt_shared (t : FileTree) (config : Config) (path : Text) :
    ∃ found, (inputsAt (FileTree.sharedHost barred schedule) config path).run t = (found, t) ∧
      ∀ modules, found = .ok modules → modules = t.modulesAt config path := by
  unfold inputsAt FileTree.modulesAt
  rw [Job.run_bind]
  change ∃ found, Job.run (if t.isDirectory path then _ else _) t = _ ∧ _
  cases t.isDirectory path with
  | false =>
    refine ⟨_, rfl, ?_⟩
    rintro _ ⟨⟩
    rfl
  | true =>
    simp only [if_true]
    rw [Job.run_bind, run_filesBelow]
    cases barred path with
    | some f =>
      refine ⟨_, rfl, ?_⟩
      rintro _ ⟨⟩
    | none =>
      refine ⟨_, rfl, ?_⟩
      rintro _ ⟨⟩
      rfl

theorem inputs_shared (t : FileTree) (config : Config) (paths : List Text) :
    ∃ found, (Run.inputs (FileTree.sharedHost barred schedule) config paths).run t = (found, t) ∧
      ∀ modules, found = .ok modules → modules = (paths.map (t.modulesAt config)).flatten := by
  induction paths with
  | nil =>
    refine ⟨_, rfl, ?_⟩
    rintro _ ⟨⟩
    rfl
  | cons path rest ih =>
    obtain ⟨first, here, first_eq⟩ := inputsAt_shared barred schedule t config path
    obtain ⟨others, later, others_eq⟩ := ih
    unfold Run.inputs
    rw [Job.run_bind, here]
    cases first with
    | error f =>
      refine ⟨_, rfl, ?_⟩
      rintro _ ⟨⟩
    | ok modules =>
      simp only
      rw [Job.run_bind, later]
      refine ⟨_, rfl, fun whole same => ?_⟩
      cases others with
      | error f => cases same
      | ok more =>
        cases same
        rw [first_eq _ rfl, others_eq _ rfl]
        rfl

end Beginning

section Storing

def outputPlaces (t : FileTree) (outDir : Text) (inputs : List ModuleFile) : List Location :=
  inputs.map fun i => t.placeOf (outputPath outDir i)

/-- The outputs of a run keep apart: from each other, from the modules of the others, and from what
is on the way to them. -/
structure Separate (t : FileTree) (outDir : Text) (inputs : List ModuleFile) : Prop where
  unlinked : t.Unlinked
  distinct : (inputs.map (outputPath outDir)).Nodup
  way : ∀ i ∈ inputs, t.Open (outputPlaces t outDir inputs) (t.origin (outputPath outDir i))
    (FilePath.names (outputPath outDir i)).dropLast
  vacant : ∀ l ∈ outputPlaces t outDir inputs, t.item? l ≠ some .directory
  apart : ∀ i ∈ inputs, FileTree.Foreign (outputPlaces t outDir inputs)
    (t.placeOf (outputPath outDir i)) (t.placeOf i.path) → t.content? (t.placeOf i.path) = none

theorem placeOf_outputPath {i : ModuleFile} (named : Named i.relative) (t : FileTree)
    (outDir : Text) : t.placeOf (outputPath outDir i) = t.placeOf outDir ++ i.relative := by
  have start : t.origin (outputPath outDir i) = t.origin outDir := by
    rw [FileTree.origin, FileTree.origin, outputPath,
      FilePath.isAbsolute_join _ (FilePath.not_isAbsolute_join named)]
  rw [FileTree.placeOf, names_outputPath named, start, FileTree.place_append,
    FileTree.place_append_named named]
  rfl

/-- The modules have names below their arguments that stand for themselves, and some unless the path
has no last name. -/
def Collected (inputs : List ModuleFile) : Prop :=
  ∀ i ∈ inputs, Named i.relative ∧ (i.relative = [] → FilePath.fileName? i.path = none)

theorem collected_modulesAt (t : FileTree) (config : Config) (paths : List Text) :
    Collected (paths.map (t.modulesAt config)).flatten := by
  intro i member
  obtain ⟨group, among, member⟩ := List.mem_flatten.mp member
  obtain ⟨path, -, rfl⟩ := List.mem_map.mp among
  exact named_relative member

theorem Separate.places_inj (separate : Separate t outDir inputs) (collected : Collected inputs)
    {i j : ModuleFile} (hi : i ∈ inputs) (hj : j ∈ inputs)
    (same : t.placeOf (outputPath outDir i) = t.placeOf (outputPath outDir j)) : i = j := by
  rw [placeOf_outputPath (collected i hi).1, placeOf_outputPath (collected j hj).1] at same
  have paths := (outputPath_eq_iff (collected i hi).1 (collected j hj).1 outDir).mpr
    (List.append_cancel_left same)
  exact List.inj_on_of_nodup_map separate.distinct hi hj paths

def conduct (t : FileTree) (outDir : Text) (inputs : List ModuleFile) (i : ModuleFile) :
    Conduct FileTree := storing (outputPlaces t outDir inputs) (t.placeOf (outputPath outDir i))

theorem Separate.fit (separate : Separate t outDir inputs) (collected : Collected inputs) :
    Job.Fit (conduct t outDir inputs) inputs := by
  intro i hi j hj differ s s' own
  -- the one file that a step of this job may change is not the other's output
  refine ⟨own.1, own.2 _ fun same => differ ?_⟩
  exact (separate.places_inj collected hj hi same).symm

theorem Separate.together (separate : Separate t outDir inputs) (collected : Collected inputs)
    (filters : FilterSet) : Job.Together (conduct t outDir inputs)
      (fun i result s => ∃ source,
        Leaves (outputPlaces t outDir inputs) t filters outDir i source result.1 s) inputs
      (inputs.map (transformInto (FileTree.sharedHost barred schedule) filters outDir)) t := by
  refine List.forall₂_map_right_iff.mpr (List.forall₂_same.mpr fun i member => ?_)
  have output : t.placeOf (outputPath outDir i) ∈ outputPlaces t outDir inputs :=
    List.mem_map.mpr ⟨i, member, rfl⟩
  exact transformInto_meets separate.unlinked (collected i member).1 (collected i member).2 output
    (separate.vacant _ output) (separate.way i member) (separate.apart i member) filters

theorem grows_of_ownSteps {s : FileTree}
    (steps : Relation.ReflTransGen (Job.OwnStep (conduct t outDir inputs) inputs) t s) :
    FileTree.Grows (outputPlaces t outDir inputs) t s := by
  induction steps with
  | refl => exact .refl _ _
  | tail _ step ih =>
    obtain ⟨i, -, own⟩ := step
    exact ih.trans own.1

theorem forall₂_choose {ι α β : Type} [DecidableEq ι] [Nonempty β] {r : ι → α → β → Prop}
    {labels : List ι} {results : List α} (distinct : labels.Nodup)
    (each : List.Forall₂ (fun i a => ∃ b, r i a b) labels results) :
    ∃ f : ι → β, List.Forall₂ (fun i a => r i a (f i)) labels results := by
  induction each with
  | nil => exact ⟨fun _ => Classical.ofNonempty, .nil⟩
  | @cons i a labels results here _ ih =>
    obtain ⟨other, distinct⟩ := List.nodup_cons.mp distinct
    obtain ⟨b, holds⟩ := here
    obtain ⟨f, later⟩ := ih distinct
    refine ⟨Function.update f i b, .cons (by simpa using holds) ?_⟩
    have among : List.Forall₂ (fun j c => j ∈ labels ∧ r j c (f j)) labels results :=
      (List.forall₂_and_left _ _).mpr ⟨fun _ h => h, later⟩
    refine among.imp fun j c ⟨member, holds⟩ => ?_
    rwa [Function.update_of_ne fun same : j = i => other (same ▸ member)]

/-- What a run has written: the injectable form of what each module gives, and nothing else. -/
structure Written (t : FileTree) (filters : FilterSet) (outDir : Text) (inputs : List ModuleFile)
    (source : ModuleFile → Option Text) (ended : FileTree) : Prop where
  gives : ∀ i ∈ inputs, FileTree.Gives (outputPlaces t outDir inputs)
    (t.placeOf (outputPath outDir i)) t i.path (source i)
  stored : ∀ i ∈ inputs, ∀ content, injectable filters (source i) = some content →
    ended.read (outputPath outDir i) = .ok (Utf8.encode content)
  kept : ∀ l, (∀ i ∈ inputs, injectable filters (source i) ≠ none →
    l ≠ t.placeOf (outputPath outDir i)) → ended.content? l = t.content? l

section Leaving

variable {source : ModuleFile → Option Text} {results : List (Bool × List Report)} {s : FileTree}
  (each : List.Forall₂ (fun i result => Leaves (outputPlaces t outDir inputs) t filters outDir i
    (source i) result.1 s) inputs results)
include each

theorem leaves_of_mem {i : ModuleFile} (member : i ∈ inputs) : ∃ failed,
    Leaves (outputPlaces t outDir inputs) t filters outDir i (source i) failed s := by
  obtain ⟨same, leaves⟩ := List.forall₂_iff_get.mp each
  obtain ⟨n, inside, rfl⟩ := List.getElem_of_mem member
  exact ⟨_, leaves n inside (same ▸ inside)⟩

theorem written_of_leaves (grows : FileTree.Grows (outputPlaces t outDir inputs) t s) :
    Written t filters outDir inputs source s where
  gives i member := by
    obtain ⟨_, leaves⟩ := leaves_of_mem each member
    exact leaves.gives
  stored i member := by
    obtain ⟨_, leaves⟩ := leaves_of_mem each member
    exact leaves.stored
  kept l other := by
    by_cases output : l ∈ outputPlaces t outDir inputs
    · obtain ⟨i, member, rfl⟩ := List.mem_map.mp output
      obtain ⟨_, leaves⟩ := leaves_of_mem each member
      by_cases nothing : injectable filters (source i) = none
      · exact leaves.untouched nothing
      · exact absurd rfl (other i member nothing)
    · exact grows.files l output

theorem failures_eq_zero_iff :
    results.countP Prod.fst = 0 ↔ ∀ i ∈ inputs, injectable filters (source i) ≠ none := by
  have flags : inputs.map (fun i => (injectable filters (source i)).isNone) =
      results.map Prod.fst := by
    rw [← List.forall₂_eq_eq_eq, List.forall₂_map_left_iff, List.forall₂_map_right_iff]
    exact each.imp fun i result leaves => leaves.failed_eq.symm
  have counted := congrArg (List.countP id) flags
  rw [List.countP_map, List.countP_map] at counted
  change _ = results.countP Prod.fst at counted
  rw [← counted, List.countP_eq_zero]
  simp

end Leaving

theorem transformAll_outcome (separate : Separate t outDir inputs) (collected : Collected inputs)
    (filters : FilterSet) :
    let ended := (transformAll (FileTree.sharedHost barred schedule) filters outDir inputs).run t
    ∃ source, Written t filters outDir inputs source ended.2 ∧
      (ended.1.1 = 0 ↔ ∀ i ∈ inputs, injectable filters (source i) ≠ none) := by
  intro ended
  have distinct : inputs.Nodup := separate.distinct.of_map _
  have together := separate.together barred schedule collected filters
  obtain ⟨outcomes, steps⟩ := together.interleave distinct (separate.fit collected) schedule
  obtain ⟨source, each⟩ := forall₂_choose distinct outcomes
  have run : ended = _ := Job.run_bind _ _ t
  rw [run]
  exact ⟨source, written_of_leaves each (grows_of_ownSteps steps), failures_eq_zero_iff each⟩

end Storing

section Printing

theorem readText_shared (t : FileTree) (path : Text) :
    (((FileTree.sharedHost barred schedule).readText path).run t).1.toOption = t.text? path := by
  unfold Host.readText FileTree.text?
  have read : ((FileTree.sharedHost barred schedule).read path).run t = (t.read path, t) := rfl
  rw [Job.run_bind, read]
  cases t.read path with
  | error f => rfl
  | ok bytes =>
    change ((Utf8.decode bytes).mapError fun _ => FileFault.notText).toOption =
      (Utf8.decode bytes).toOption
    cases Utf8.decode bytes <;> rfl

theorem transformFile_shared (t : FileTree) (filters : FilterSet) (path : Text) :
    let ended := (transformFile (FileTree.sharedHost barred schedule) filters path).run t
    ended.1.1.toOption = injectable filters (t.text? path) ∧ ended.2 = t := by
  have read := readText_shared barred schedule t path
  have quiet := quiet_readText barred schedule path t
  unfold transformFile
  rw [Job.run_bind, quiet, ← read]
  cases (((FileTree.sharedHost barred schedule).readText path).run t).1 with
  | error f => exact ⟨rfl, rfl⟩
  | ok source =>
    refine ⟨?_, rfl⟩
    change ((transform filters source).mapError _).toOption = (transform filters source).toOption
    cases transform filters source <;> rfl

end Printing

def Refused (t : FileTree) (ended : Outcome × FileTree) : Prop :=
  ended.1.code = 1 ∧ ended.1.output = [] ∧ ended.2 = t

def Printed (t : FileTree) (form : Option Text) (ended : Outcome × FileTree) : Prop :=
  ended.1.code = (if form.isSome then 0 else 1) ∧ ended.1.output = form.getD [] ∧ ended.2 = t

def Stored (t : FileTree) (filters : FilterSet) (outDir : Text) (inputs : List ModuleFile)
    (ended : Outcome × FileTree) : Prop :=
  ∃ source, Written t filters outDir inputs source ended.2 ∧ ended.1.output = [] ∧
    ended.1.code = if inputs.all fun i => (injectable filters (source i)).isSome then 0 else 1

theorem transformInputs_printed (t : FileTree) (config : Config) (i : ModuleFile)
    (alone : config.outDir = none) : Printed t (injectable config.filters (t.text? i.path))
      ((transformInputs (FileTree.sharedHost barred schedule) config [i]).run t) := by
  obtain ⟨form, quiet⟩ := transformFile_shared barred schedule t config.filters i.path
  unfold transformInputs
  simp only [alone]
  rw [Job.run_bind, quiet, ← form]
  rcases ((transformFile (FileTree.sharedHost barred schedule) config.filters i.path).run t).1 with
    ⟨result | result, records⟩
  · exact ⟨rfl, rfl, rfl⟩
  · exact ⟨rfl, rfl, rfl⟩

theorem transformInputs_refused (t : FileTree) (config : Config) (i j : ModuleFile)
    (more : List ModuleFile) (directory : config.outDir = none) : Refused t
      ((transformInputs (FileTree.sharedHost barred schedule) config (i :: j :: more)).run t) := by
  unfold transformInputs
  simp only [directory]
  exact ⟨rfl, rfl, rfl⟩

theorem transformInputs_stored (config : Config) (directory : config.outDir = some outDir)
    (collected : Collected inputs) (separate : Separate t outDir inputs) :
    Stored t config.filters outDir inputs
      ((transformInputs (FileTree.sharedHost barred schedule) config inputs).run t) := by
  obtain ⟨source, written, failures⟩ := transformAll_outcome barred schedule separate collected
    config.filters
  unfold transformInputs
  simp only [directory]
  rw [Job.run_bind]
  generalize (transformAll (FileTree.sharedHost barred schedule) config.filters outDir inputs).run
    t = ended at written failures
  obtain ⟨⟨count, reports⟩, s⟩ := ended
  refine ⟨source, ?_⟩
  by_cases all : inputs.all fun i => (injectable config.filters (source i)).isSome
  · have none_failed : count = 0 := failures.mpr fun i member =>
      Option.isSome_iff_ne_none.mp (List.all_eq_true.mp all i member)
    simp only [none_failed, all, if_true]
    exact ⟨written, rfl, rfl⟩
  · have some_failed : count ≠ 0 := fun zero => all (List.all_eq_true.mpr fun i member =>
      Option.isSome_iff_ne_none.mpr (failures.mp zero i member))
    simp only [some_failed, all, if_false]
    exact ⟨written, rfl, rfl⟩

/-- The outcome of a run: it fails without a trace, or prints the form of the only module, or stores
the forms of all modules. -/
theorem run_outcome (barred : Text → Option FileFault) (schedule : List Nat) (t : FileTree)
    {arguments : List Text} {c : Command} (accepted : Invocation.ofArguments arguments = .run c)
    (plain : c.init = false) :
    let host := FileTree.sharedHost barred schedule
    let ended := (run host arguments).run t
    match ((config host c).run t).1 with
    | .error _ => Refused t ended
    | .ok config =>
      match ((Run.inputs host config c.files).run t).1 with
      | .error _ | .ok [] => Refused t ended
      | .ok (i :: more) =>
        match config.outDir, more with
        | none, [] => Printed t (injectable config.filters (t.text? i.path)) ended
        | none, _ => Refused t ended
        | some outDir, more =>
          Separate t outDir (i :: more) → Stored t config.filters outDir (i :: more) ended := by
  intro host ended
  have start : ended = (command host c).run t := by
    change (run host arguments).run t = _
    rw [run, accepted]
  unfold command at start
  rw [if_neg (by simp [plain]), Job.run_bind, quiet_config barred schedule c t] at start
  cases loaded : ((config host c).run t).1 with
  | error f =>
    rw [loaded] at start
    rw [start]
    exact ⟨rfl, rfl, rfl⟩
  | ok config =>
    -- Neither the configuration nor the walk changes the tree, so all that follows starts from `t`.
    obtain ⟨found, walked, collected⟩ := inputs_shared barred schedule t config c.files
    change (Run.inputs host config c.files).run t = (found, t) at walked
    rw [loaded] at start
    simp only at start ⊢
    rw [Job.run_bind, walked] at start
    rw [walked, start]
    rcases found with f | (_ | ⟨i, more⟩)
    · exact ⟨rfl, rfl, rfl⟩
    · exact ⟨rfl, rfl, rfl⟩
    · simp only
      cases directory : config.outDir with
      | none =>
        cases more with
        | nil => exact transformInputs_printed barred schedule t config i directory
        | cons j more => exact transformInputs_refused barred schedule t config i j more directory
      | some outDir =>
        intro separate
        refine transformInputs_stored barred schedule config directory ?_ separate
        rw [collected _ rfl]
        exact collected_modulesAt t config c.files

/-- One of two modules cannot be transformed; the other one is stored all the same. -/
theorem modules_stored_in_turn :
    let tree := FileTree.ofList [(["m".toList, "a.js".toList], .file (Utf8.encode "x = 1")),
      (["m".toList, "b.js".toList], .file (Utf8.encode "require.context("))]
    let modules : List ModuleFile := [⟨"m/a.js", ["a.js".toList]⟩, ⟨"m/b.js", ["b.js".toList]⟩]
    let arguments := ["m/a.js", "m/b.js", "--out-dir", "out"].map String.toList
    let c : Command := ⟨["m/a.js", "m/b.js"].map String.toList, none, none, some "out", false⟩
    let host := FileTree.sharedHost (fun _ => none) [1, 0, 0, 1]
    let ended := (RequireInjection.run host arguments).run tree
    Invocation.ofArguments arguments = .run c ∧ c.init = false ∧ Separate tree "out" modules ∧
      Stored tree Config.default.filters "out" modules ended := by
  intro tree modules arguments c host ended
  have accepted : Invocation.ofArguments arguments = .run c := by decide +kernel
  have separate : Separate tree "out" modules :=
    ⟨FileTree.unlinked_of_isLink (by decide +kernel), by decide +kernel, by decide +kernel,
      by decide +kernel, by decide +kernel⟩
  have loaded : ((config host c).run tree).1 = .ok (Config.default.merge none c.outDir) := rfl
  have found : ((Run.inputs host (Config.default.merge none c.outDir) c.files).run tree).1 =
      .ok modules := by decide +kernel
  have outcome := run_outcome (fun _ => none) [1, 0, 0, 1] tree accepted rfl
  simp only at outcome
  rw [loaded] at outcome
  simp only at outcome
  rw [found] at outcome
  exact ⟨accepted, rfl, separate, outcome separate⟩

/-- Making the directories on the way to an output may take the output's own place. -/
theorem output_in_own_way :
    let tree := FileTree.ofList [(["x.js".toList], .file (Utf8.encode "x = 1"))]
    let i : ModuleFile := ⟨"x.js", ["x.js".toList]⟩
    let output := outputPath "out/x.js/.." i
    let ended := (RequireInjection.run (FileTree.sharedHost (fun _ => none) [])
      (["x.js", "--out-dir", "out/x.js/.."].map String.toList)).run tree
    tree.modulesAt Config.default i.path = [i] ∧
      injectable Config.default.filters (tree.text? i.path) = some (injectableModule "x = 1") ∧
      (∀ e ∈ tree.items, e.2.isLink = false) ∧ tree.item? (tree.placeOf output) = none ∧
      tree.placeOf output ≠ tree.placeOf i.path ∧
      (∀ above ∈ (FilePath.names output).dropLast.inits,
        tree.content? (FileTree.place (tree.origin output) above) = none) ∧
      ended.1.code = 1 ∧ ended.2.read output = .error .isDirectory := by
  decide +kernel

end Run
end RequireInjection
