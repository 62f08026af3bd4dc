import RequireInjection.Proofs.FileTree.Growth
import RequireInjection.Run

namespace RequireInjection

open FileTree (storing)
open Job (Meets meets_once_bind meets_pure)

variable {barred : Text → Option FileFault} {schedule : List Nat} {outputs : List Location}
  {p : Location} {t s s' : FileTree} {path : Text}

theorem FileTree.run_update (operation : FileTree → Except FileFault FileTree) (s : FileTree) :
    (FileTree.update operation).run s = match operation s with
      | .ok t => (.ok (), t)
      | .error f => (.error f, s) := by
  unfold FileTree.update
  change (match operation s with
    | .ok t => (do set t; return .ok () : StateM FileTree (Except FileFault Unit))
    | .error f => return .error f).run s = _
  cases operation s <;> rfl

namespace Host

/-- The directories of a path are there, and nothing else has changed for the job that made them. -/
def Laid (outputs : List Location) (p : Location) (t : FileTree) (path : Text)
    (result : Except FileFault Unit) (s : FileTree) : Prop :=
  result = .ok () ∧ (storing outputs p).others t s ∧
    s.Passes (s.origin path) (FilePath.names path)

theorem Laid.later {result : Except FileFault Unit} (laid : Laid outputs p t path result s)
    (between : (storing outputs p).others s s') : Laid outputs p t path result s' := by
  obtain ⟨rfl, since, passes⟩ := laid
  refine ⟨rfl, (storing outputs p).onward since between, ?_⟩
  rw [between.1.origin]
  exact between.1.passes passes

theorem made_meets (proper : path ≠ []) (laid : Laid outputs p t path (.ok ()) s)
    (result : Except FileFault Unit) : Meets (storing outputs p) (Laid outputs p t path)
      (makeWithParents.made (FileTree.sharedHost barred schedule) result path) s := by
  cases result with
  | ok => exact meets_pure fun s' between => laid.later between
  | error f =>
    refine meets_once_bind fun s' between => ?_
    have there := laid.later between
    have found : s'.isDirectory path = true := FileTree.isDirectory_of_passes proper there.2.2
    change (storing outputs p).own s' s' ∧ Meets (storing outputs p) (Laid outputs p t path)
      (pure (if s'.isDirectory path then .ok () else .error f)) s'
    rw [found]
    exact ⟨⟨.refl _ _, fun _ _ => rfl⟩, meets_pure fun s'' more => there.later more⟩

theorem makeDirectory_step (unlinked : t.Unlinked) (proper : path ≠ [])
    (way : t.Open outputs (t.origin path) (FilePath.names path))
    (since : (storing outputs p).others t s) :
    let made := (FileTree.host.makeDirectory path).run s
    (storing outputs p).own s made.2 ∧
      (made.1 ≠ .error .notFound ∧ Laid outputs p t path (.ok ()) made.2 ∨
        made = (.error .notFound, s) ∧ ¬ s.Reaches path) := by
  intro made
  have run : made = (FileTree.update fun s => s.makeDirectory path).run s := rfl
  rw [FileTree.run_update] at run
  have clear : s.Clear (s.origin path) (FilePath.names path) := by
    rw [since.1.origin]
    exact since.1.clear unlinked way
  have unchanged : (storing outputs p).own s s := ⟨.refl _ _, fun _ _ => rfl⟩
  have making := FileTree.making proper clear
  generalize s.makeDirectory path = result at run making
  cases making with
  | there passes =>
    rw [run]
    exact ⟨unchanged, Or.inl ⟨by simp, rfl, since, passes⟩⟩
  | missing unreached =>
    rw [run]
    exact ⟨unchanged, Or.inr ⟨rfl, unreached⟩⟩
  | @made s' reaches free sets =>
    have apart : s.placeOf path ∉ outputs := by
      rw [since.1.placeOf]
      exact way.end.1
    obtain ⟨grows, contents⟩ := sets.grows_directory free apart
    have here : s'.item? (s.placeOf path) = some .directory := by rw [sets.item, if_pos rfl]
    rw [run]
    refine ⟨⟨grows, fun l _ => contents l⟩, Or.inl ⟨by simp, rfl, ?_, ?_⟩⟩
    · exact (storing outputs p).onward since ⟨grows, contents p⟩
    · rw [grows.origin]
      exact FileTree.along_of_dropLast (grows.passes reaches) here

theorem makeDirectory_bind {α : Type} {final : α → FileTree → Prop}
    {rest : Except FileFault Unit → Job FileTree α} (unlinked : t.Unlinked) (proper : path ≠ [])
    (way : t.Open outputs (t.origin path) (FilePath.names path))
    (since : (storing outputs p).others t s)
    (ready : ∀ result s', result ≠ .error .notFound → Laid outputs p t path (.ok ()) s' →
      Meets (storing outputs p) final (rest result) s')
    (missing : ∀ s', (storing outputs p).others s s' → ¬ s'.Reaches path →
      Meets (storing outputs p) final (rest (.error .notFound)) s') :
    Meets (storing outputs p) final
      ((FileTree.sharedHost barred schedule).makeDirectory path >>= rest) s := by
  refine meets_once_bind fun s' between => ?_
  have since' := (storing outputs p).onward since between
  obtain ⟨own, ended⟩ := makeDirectory_step unlinked proper way since'
  refine ⟨own, ?_⟩
  rcases ended with ⟨found, laid⟩ | ⟨nothing, unreached⟩
  · exact ready _ _ found laid
  · rw [nothing]
    exact missing s' between unreached

theorem makeWithParents_meets (unlinked : t.Unlinked) {n : Nat} (short : path.length < n)
    (way : t.Open outputs (t.origin path) (FilePath.names path))
    (since : (storing outputs p).others t s) :
    Meets (storing outputs p) (Laid outputs p t path)
      ((FileTree.sharedHost barred schedule).makeWithParents n path) s := by
  induction n generalizing path s with
  | zero => omega
  | succ n ih =>
    unfold makeWithParents
    split
    · rename_i empty
      obtain rfl : path = [] := by simpa using empty
      refine meets_pure fun s' between => ⟨rfl, (storing outputs p).onward since between, ?_⟩
      exact FileTree.along_nil.mpr (s'.item?_origin [])
    · rename_i proper
      have proper : path ≠ [] := by simpa using proper
      -- the first attempt may fail for want of a parent, the one after the parent is made cannot
      refine makeDirectory_bind unlinked proper way since (fun result s' found laid => ?_)
        (fun s' between unreached => ?_)
      · rcases result with result | result
        · cases result with
          | notFound => exact absurd rfl found
          | _ => exact made_meets proper laid _
        · exact meets_pure fun _ more => laid.later more
      · cases upper : FilePath.parent? path with
        | none =>
          -- a path without names leads to where it starts
          refine absurd ?_ unreached
          rw [FileTree.Reaches, FilePath.names_of_parent_none upper]
          exact FileTree.along_nil.mpr (s'.item?_origin path)
        | some parent =>
          have shorter := (FilePath.names_of_parent upper).2.2
          have way_above := (FileTree.along_parent upper).mpr way.dropLast
          have since' := (storing outputs p).onward since between
          refine (ih (by omega) way_above since').bind fun result s₁ laid => ?_
          obtain rfl := laid.1
          refine makeDirectory_bind unlinked proper way laid.2.1
            (fun result s₂ _ here => made_meets proper here result) fun s₂ more unreached => ?_
          exact absurd ((FileTree.along_parent upper).mp (laid.later more).2.2) unreached

theorem makeDirectories_meets (unlinked : t.Unlinked)
    (way : t.Open outputs (t.origin path) (FilePath.names path))
    (since : (storing outputs p).others t s) : Meets (storing outputs p) (Laid outputs p t path)
      ((FileTree.sharedHost barred schedule).makeDirectories path) s :=
  makeWithParents_meets unlinked (Nat.lt_succ_self _) way since

end Host

namespace Run

variable {filters : FilterSet} {n : Text}

structure Holds (s : FileTree) (p : Location) (path content : Text) : Prop where
  place : s.placeOf path = p
  reaches : s.Reaches path
  file : s.content? p = some (Utf8.encode content)

theorem Holds.read_eq {content : Text} (holds : Holds s p path content)
    (ends : FilePath.EndsIn path n) : s.read path = .ok (Utf8.encode content) := by
  rw [FileTree.read, FileTree.find_endsIn ends holds.reaches, holds.place,
    FileTree.content?_eq_some.mp holds.file]

theorem Holds.later {content : Text} (holds : Holds s p path content)
    (between : (storing outputs p).others s s') : Holds s' p path content where
  place := (between.1.placeOf path).trans holds.place
  reaches := between.1.reaches holds.reaches
  file := between.2.trans holds.file

theorem write_step (unlinked : s.Unlinked) (ends : FilePath.EndsIn path n)
    (reaches : s.Reaches path) (at_place : s.placeOf path = p) (output : p ∈ outputs)
    (free : s.item? p ≠ some .directory) (content : Text) :
    let written := (FileTree.host.write path (Utf8.encode content)).run s
    (storing outputs p).own s written.2 ∧ written.1 = .ok () ∧ Holds written.2 p path content := by
  intro written
  subst at_place
  have run : written =
      (FileTree.update fun s => s.write path (Utf8.encode content)).run s := rfl
  rw [FileTree.run_update] at run
  have replaceable : ∀ x, s.item? (s.placeOf path) = some x → ∃ b, x = .file b := by
    intro x here
    cases x with
    | directory => exact absurd here free
    | file b => exact ⟨b, rfl⟩
    | link target => exact absurd here (unlinked _ _)
  obtain ⟨s', stored, sets⟩ := FileTree.write_eq_ok ends reaches replaceable (Utf8.encode content)
  rw [stored] at run
  have grows := sets.grows_file free output
  rw [run]
  refine ⟨⟨grows, fun l other => sets.content? other⟩, rfl, grows.placeOf path,
    grows.reaches reaches, ?_⟩
  rw [FileTree.content?_eq_some, sets.item, if_pos rfl]

theorem store_meets (unlinked : t.Unlinked) (ends : FilePath.EndsIn path n)
    (at_place : t.placeOf path = p) (output : p ∈ outputs) (free : t.item? p ≠ some .directory)
    (way : t.Open outputs (t.origin path) (FilePath.names path).dropLast)
    (since : (storing outputs p).others t s) (content : Text) :
    Meets (storing outputs p) (fun result s' => result = .ok () ∧ Holds s' p path content)
      (store (FileTree.sharedHost barred schedule) path content) s := by
  unfold store
  cases upper : FilePath.parent? path with
  | none =>
    have whole := ends.names_eq
    rw [FilePath.names_of_parent_none upper] at whole
    cases whole
  | some parent =>
    have way_above := (FileTree.along_parent upper).mpr way
    refine (Host.makeDirectories_meets unlinked way_above since).bind fun result s₁ laid => ?_
    obtain rfl := laid.1
    refine meets_once_bind fun s₂ between => ?_
    obtain ⟨-, since₂, passes⟩ := laid.later between
    have reaches : s₂.Reaches path := (FileTree.along_parent upper).mp passes
    obtain ⟨own, written, holds⟩ := write_step (since₂.1.links unlinked) ends reaches
      ((since₂.1.placeOf path).trans at_place) output
      (fun there => free (since₂.1.places p output there)) content
    refine ⟨own, ?_⟩
    rw [written]
    exact meets_pure fun s' more => ⟨rfl, holds.later more⟩

section Transforming

variable {i : ModuleFile} {outDir : Text}

def injectable (filters : FilterSet) (source : Option Text) : Option Text :=
  source.bind fun text => (transform filters text).toOption

theorem readText_meets (unlinked : t.Unlinked)
    (free : FileTree.Foreign outputs p (t.placeOf path) → t.content? (t.placeOf path) = none)
    (since : (storing outputs p).others t s) :
    Meets (storing outputs p)
      (fun result s' => (storing outputs p).others t s' ∧
        FileTree.Gives outputs p t path result.toOption ∧
        (result.toOption ≠ none → FilePath.fileName? path ≠ none))
      ((FileTree.sharedHost barred schedule).readText path) s := by
  unfold Host.readText
  refine meets_once_bind fun s' between => ⟨⟨.refl _ _, fun _ _ => rfl⟩, ?_⟩
  have since' := (storing outputs p).onward since between
  have gives := FileTree.gives_of_others since' unlinked free
  have read : (FileTree.host.read path).run s' = (s'.read path, s') := rfl
  rw [read]
  have named (c : List UInt8) (reads : s'.read path = .ok c) : FilePath.fileName? path ≠ none := by
    obtain ⟨n, ends, -, -⟩ := (FileTree.read_eq_ok_iff (since'.1.links unlinked)).mp reads
    simp [ends.fileName_eq]
  rw [FileTree.text?] at gives
  cases reads : s'.read path with
  | error f =>
    rw [reads] at gives
    refine meets_pure fun s'' more => ⟨(storing outputs p).onward since' more, gives, ?_⟩
    simp [Except.toOption]
  | ok c =>
    rw [reads] at gives
    refine meets_pure fun s'' more =>
      ⟨(storing outputs p).onward since' more, ?_, fun _ => named c reads⟩
    cases decoded : Utf8.decode c <;> simpa [Except.toOption, Except.mapError, decoded] using gives

theorem transformFile_meets (unlinked : t.Unlinked)
    (free : FileTree.Foreign outputs p (t.placeOf path) → t.content? (t.placeOf path) = none)
    (since : (storing outputs p).others t s) (filters : FilterSet) :
    Meets (storing outputs p)
      (fun result s' => (storing outputs p).others t s' ∧ ∃ source,
        FileTree.Gives outputs p t path source ∧ result.1.toOption = injectable filters source ∧
        (source ≠ none → FilePath.fileName? path ≠ none))
      (transformFile (FileTree.sharedHost barred schedule) filters path) s := by
  unfold transformFile
  refine (readText_meets unlinked free since).bind fun result s' ⟨since', gives, named⟩ => ?_
  cases result with
  | error f =>
    refine meets_pure fun s'' more => ⟨(storing outputs p).onward since' more, none, gives, rfl, ?_⟩
    simp
  | ok text =>
    refine meets_pure fun s'' more =>
      ⟨(storing outputs p).onward since' more, some text, gives, ?_, named⟩
    cases transformed : transform filters text <;>
      simp [injectable, transformed, Except.toOption, Except.mapError]

/-- What the job of one module leaves: its injectable form at its output, or there is none and the
output is as it was at the start. -/
structure Leaves (outputs : List Location) (t : FileTree) (filters : FilterSet) (outDir : Text)
    (i : ModuleFile) (source : Option Text) (failed : Bool) (s : FileTree) : Prop where
  gives : FileTree.Gives outputs (t.placeOf (outputPath outDir i)) t i.path source
  failed_eq : failed = (injectable filters source).isNone
  stored : ∀ content, injectable filters source = some content →
    s.read (outputPath outDir i) = .ok (Utf8.encode content)
  untouched : injectable filters source = none →
    s.content? (t.placeOf (outputPath outDir i)) = t.content? (t.placeOf (outputPath outDir i))

theorem transformInto_meets (unlinked : t.Unlinked) (named : Named i.relative)
    (last : i.relative = [] → FilePath.fileName? i.path = none)
    (output : t.placeOf (outputPath outDir i) ∈ outputs)
    (vacant : t.item? (t.placeOf (outputPath outDir i)) ≠ some .directory)
    (way : t.Open outputs (t.origin (outputPath outDir i))
      (FilePath.names (outputPath outDir i)).dropLast)
    (free : FileTree.Foreign outputs (t.placeOf (outputPath outDir i)) (t.placeOf i.path) →
      t.content? (t.placeOf i.path) = none)
    (filters : FilterSet) : Meets (storing outputs (t.placeOf (outputPath outDir i)))
      (fun result s => ∃ source, Leaves outputs t filters outDir i source result.1 s)
      (transformInto (FileTree.sharedHost barred schedule) filters outDir i) t := by
  unfold transformInto
  refine (transformFile_meets unlinked free ((storing _ _).still t) filters).bind
    fun result s ⟨since, source, gives, transformed, proper⟩ => ?_
  obtain ⟨result, records⟩ := result
  -- Without a form nothing is written, so what the job has found since is what it leaves.
  cases result with
  | error f =>
    have nothing : injectable filters source = none := transformed.symm
    refine meets_pure fun s' more => ⟨source, gives, by rw [nothing]; rfl, ?_, fun _ => ?_⟩
    · simp [nothing]
    · exact more.2.trans since.2
  | ok content =>
    have something : injectable filters source = some content := transformed.symm
    have present : source ≠ none := by
      rintro rfl
      cases something
    obtain ⟨front, n, whole⟩ := (List.eq_nil_or_concat i.relative).resolve_left
      fun nothing => proper present (last nothing)
    rw [List.concat_eq_append] at whole
    have ends : FilePath.EndsIn (outputPath outDir i) n := by
      rw [outputPath, whole]
      exact FilePath.endsIn_join outDir (whole ▸ named)
    refine (store_meets unlinked ends rfl output vacant way since content).bind
      fun result s' ⟨done, holds⟩ => ?_
    subst done
    refine meets_pure fun s'' more => ⟨source, gives, by rw [something]; rfl, ?_, ?_⟩
    · intro content' same
      obtain rfl := Option.some.inj (something.symm.trans same)
      exact (holds.later more).read_eq ends
    · simp [something]

end Transforming
end Run
end RequireInjection
