import Mathlib.Data.List.Forall2
import RequireInjection.Proofs.Job.Interleaving
import RequireInjection.Run

namespace RequireInjection

namespace Job

variable {σ α β : Type}

def Agrees (job : Job σ α) (action : StateM σ α) : Prop := ∀ s, job.run s = action.run s

theorem agrees_pure (a : α) : Agrees (pure a : Job σ α) (pure a) := fun _ => rfl

theorem agrees_once (operation : StateM σ α) : Agrees (once operation) operation := fun _ => rfl

theorem Agrees.bind {job : Job σ α} {action : StateM σ α} {f : α → Job σ β} {g : α → StateM σ β}
    (agrees : Agrees job action) (rest : ∀ a, Agrees (f a) (g a)) :
    Agrees (job >>= f) (action >>= g) := by
  intro s
  rw [run_bind, agrees s, rest]
  rfl

theorem agrees_mapM {jobs : List (Job σ α)} {actions : List (StateM σ α)}
    (agrees : List.Forall₂ Agrees jobs actions) : Agrees (jobs.mapM id) (actions.mapM id) := by
  induction agrees with
  | nil => exact agrees_pure []
  | cons first _ ih =>
    rw [List.mapM_cons, List.mapM_cons]
    exact first.bind fun a => ih.bind fun as => agrees_pure (a :: as)

end Job

open Job (Agrees agrees_pure agrees_once)

/-- The shared tree on which nothing is barred and every job runs to its end. -/
def FileTree.aloneHost : Host (Job FileTree) := sharedHost (fun _ => none) []

theorem agrees_readText (path : Text) :
    Agrees (FileTree.aloneHost.readText path) (FileTree.host.readText path) := by
  refine (agrees_once (FileTree.host.read path)).bind fun result => ?_
  cases result <;> exact agrees_pure _

theorem agrees_load (path : Text) :
    Agrees (Config.load FileTree.aloneHost path) (Config.load FileTree.host path) := by
  refine (agrees_readText path).bind fun result => ?_
  cases result <;> exact agrees_pure _

theorem agrees_made (result : Except FileFault Unit) (path : Text) :
    Agrees (Host.makeWithParents.made FileTree.aloneHost result path)
      (Host.makeWithParents.made FileTree.host result path) := by
  cases result with
  | ok => exact agrees_pure _
  | error f => exact (agrees_once (FileTree.host.isDirectory path)).bind fun _ => agrees_pure _

theorem agrees_makeWithParents (n : Nat) (path : Text) :
    Agrees (FileTree.aloneHost.makeWithParents n path) (FileTree.host.makeWithParents n path) := by
  have making (path : Text) := agrees_once (FileTree.host.makeDirectory path)
  induction n generalizing path with
  | zero => exact making path
  | succ n ih =>
    unfold Host.makeWithParents
    split
    · exact agrees_pure _
    · refine (making path).bind fun result => ?_
      cases result with
      | ok => exact agrees_pure _
      | error f =>
        cases f with
        | notFound =>
          cases FilePath.parent? path with
          | none => exact agrees_pure _
          | some parent =>
            refine (ih parent).bind fun result => ?_
            cases result with
            | error f => exact agrees_pure _
            | ok => exact (making path).bind fun result => agrees_made result path
        | _ => exact agrees_made _ _

namespace Run

theorem agrees_config (c : Command) :
    Agrees (config FileTree.aloneHost c) (config FileTree.host c) := by
  unfold config
  cases c.project with
  | some path => exact (agrees_load path).bind fun _ => agrees_pure _
  | none =>
    refine (agrees_once (FileTree.host.has Config.fileName)).bind fun there => ?_
    cases there with
    | true => exact (agrees_load _).bind fun _ => agrees_pure _
    | false => exact agrees_pure _

theorem agrees_inputsAt (config : Config) (path : Text) :
    Agrees (inputsAt FileTree.aloneHost config path) (inputsAt FileTree.host config path) := by
  refine (agrees_once (FileTree.host.isDirectory path)).bind fun there => ?_
  cases there with
  | false => exact agrees_pure _
  | true =>
    refine (agrees_once (FileTree.host.filesBelow path)).bind fun result => ?_
    cases result <;> exact agrees_pure _

theorem agrees_inputs (config : Config) (paths : List Text) :
    Agrees (inputs FileTree.aloneHost config paths) (inputs FileTree.host config paths) := by
  induction paths with
  | nil => exact agrees_pure _
  | cons path rest ih =>
    refine (agrees_inputsAt config path).bind fun result => ?_
    cases result with
    | error f => exact agrees_pure _
    | ok first => exact ih.bind fun _ => agrees_pure _

theorem agrees_transformFile (filters : FilterSet) (path : Text) :
    Agrees (transformFile FileTree.aloneHost filters path)
      (transformFile FileTree.host filters path) := by
  refine (agrees_readText path).bind fun result => ?_
  cases result <;> exact agrees_pure _

theorem agrees_store (path content : Text) :
    Agrees (store FileTree.aloneHost path content) (store FileTree.host path content) := by
  have writing := agrees_once (FileTree.host.write path (Utf8.encode content))
  unfold store
  cases FilePath.parent? path with
  | none => exact writing.bind fun _ => agrees_pure _
  | some parent =>
    refine (agrees_makeWithParents _ parent).bind fun result => ?_
    cases result with
    | error f => exact agrees_pure _
    | ok => exact writing.bind fun _ => agrees_pure _

theorem agrees_transformInto (filters : FilterSet) (outDir : Text) (i : ModuleFile) :
    Agrees (transformInto FileTree.aloneHost filters outDir i)
      (transformInto FileTree.host filters outDir i) := by
  refine (agrees_transformFile filters i.path).bind fun (result, records) => ?_
  cases result with
  | error f => exact agrees_pure _
  | ok content =>
    refine (agrees_store _ content).bind fun stored => ?_
    cases stored <;> exact agrees_pure _

theorem agrees_transformAll (filters : FilterSet) (outDir : Text) (inputs : List ModuleFile) :
    Agrees (transformAll FileTree.aloneHost filters outDir inputs)
      (transformAll FileTree.host filters outDir inputs) := by
  refine Agrees.bind (Job.agrees_mapM ?_) fun _ => agrees_pure _
  rw [List.forall₂_map_left_iff, List.forall₂_map_right_iff, List.forall₂_same]
  exact fun i _ => agrees_transformInto filters outDir i

theorem agrees_transformInputs (config : Config) (inputs : List ModuleFile) :
    Agrees (transformInputs FileTree.aloneHost config inputs)
      (transformInputs FileTree.host config inputs) := by
  unfold transformInputs
  cases config.outDir with
  | some outDir =>
    refine (agrees_transformAll config.filters outDir inputs).bind fun (failures, reports) => ?_
    cases failures <;> exact agrees_pure _
  | none =>
    rcases inputs with _ | ⟨i, _ | ⟨j, more⟩⟩
    · exact agrees_pure _
    · refine (agrees_transformFile config.filters i.path).bind fun (result, records) => ?_
      cases result <;> exact agrees_pure _
    · exact agrees_pure _

theorem agrees_command (c : Command) :
    Agrees (command FileTree.aloneHost c) (command FileTree.host c) := by
  unfold command
  split
  · have writing :=
      agrees_once (FileTree.host.write Config.fileName (Utf8.encode Config.defaultYaml))
    refine Agrees.bind (writing.bind fun _ => agrees_pure _) fun result => ?_
    cases result <;> exact agrees_pure _
  · refine (agrees_config c).bind fun result => ?_
    cases result with
    | error f => exact agrees_pure _
    | ok config =>
      refine (agrees_inputs config c.files).bind fun found => ?_
      rcases found with f | (_ | ⟨i, more⟩)
      · exact agrees_pure _
      · exact agrees_pure _
      · exact agrees_transformInputs config (i :: more)

theorem run_alone (t : FileTree) (arguments : List Text) :
    (run (FileTree.sharedHost (fun _ => none) []) arguments).run t =
      (run FileTree.host arguments).run t := by
  unfold run
  cases Invocation.ofArguments arguments with
  | run c => exact agrees_command c t
  | _ => rfl

end Run
end RequireInjection
