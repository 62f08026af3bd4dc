import Mathlib.Logic.Relation
import RequireInjection.Job

namespace RequireInjection.Job

variable {σ α β : Type} {s s' : σ} {jobs : List (Job σ α)}

instance : LawfulMonad (Job σ) := LawfulMonad.mk' (Job σ)
  (fun job => by
    induction job with
    | done a => rfl
    | act change rest ih => exact congrArg (act change) (funext ih))
  (fun _ _ => rfl)
  (fun job f g => by
    induction job with
    | done a => rfl
    | act change rest ih => exact congrArg (act change) (funext ih))

theorem run_bind (job : Job σ α) (f : α → Job σ β) (s : σ) :
    (job >>= f).run s = (f (job.run s).1).run (job.run s).2 := by
  induction job generalizing s with
  | done a => rfl
  | act change rest ih => exact ih s (change s)

abbrev Steps : σ × List (Job σ α) → σ × List (Job σ α) → Prop := Relation.ReflTransGen Step

theorem step_turn {front back : List (Job σ α)} {change : σ → σ} {rest : σ → Job σ α} :
    Step (s, front ++ Job.act change rest :: back) (change s, front ++ rest s :: back) := by
  have turn : (front ++ Job.act change rest :: back)[front.length]? =
      some (Job.act change rest) := by simp
  have step := Step.act (s := s) turn
  rwa [List.set_append_right _ _ (Nat.le_refl _), Nat.sub_self, List.set_cons_zero] at step

theorem steps_run (job : Job σ α) (s : σ) (front back : List (Job σ α)) :
    Steps (s, front ++ job :: back) ((job.run s).2, front ++ done (job.run s).1 :: back) := by
  induction job generalizing s with
  | done a => exact .refl
  | act change rest ih => exact .head step_turn (ih s (change s))

theorem run_mapM_cons (job : Job σ α) (jobs : List (Job σ α)) (s : σ) :
    ((job :: jobs).mapM id).run s =
      ((job.run s).1 :: ((jobs.mapM id).run (job.run s).2).1,
        ((jobs.mapM id).run (job.run s).2).2) := by
  rw [List.mapM_cons, run_bind, run_bind]
  rfl

theorem run_mapM_done (results : List α) (s : σ) :
    (((results.map done).mapM id : Job σ (List α))).run s = (results, s) := by
  induction results with
  | nil => rfl
  | cons a results ih =>
    rw [List.map_cons, run_mapM_cons]
    simp only [run, ih]

theorem steps_inOrder (jobs : List (Job σ α)) (s : σ) (finished : List α) :
    Steps (s, finished.map done ++ jobs)
      (((jobs.mapM id).run s).2, (finished ++ ((jobs.mapM id).run s).1).map done) := by
  induction jobs generalizing s finished with
  | nil =>
    rw [List.append_nil]
    change Steps _ (s, (finished ++ []).map done)
    rw [List.append_nil]
  | cons job jobs ih =>
    have later := ih (job.run s).2 (finished ++ [(job.run s).1])
    rw [run_mapM_cons]
    refine (steps_run job s (finished.map done) jobs).trans ?_
    simpa using later

theorem steps_interleave (schedule : List Nat) (jobs : List (Job σ α)) (s : σ) :
    Steps (s, jobs) (((interleave schedule jobs).run s).2,
      ((interleave schedule jobs).run s).1.map done) := by
  induction schedule generalizing jobs s with
  | nil => exact steps_inOrder jobs s []
  | cons n schedule ih =>
    unfold interleave
    split
    · rename_i change rest turn
      exact .head (.act turn) (ih _ _)
    · exact ih jobs s

theorem interleave_of_steps {results : List α} (steps : Steps (s, jobs) (s', results.map done)) :
    ∃ schedule, (interleave schedule jobs).run s = (results, s') := by
  generalize start : (s, jobs) = state at steps
  induction steps using Relation.ReflTransGen.head_induction_on generalizing s jobs with
  | refl =>
    obtain ⟨rfl, rfl⟩ := Prod.mk.inj start
    exact ⟨[], run_mapM_done results s⟩
  | head step _ ih =>
    subst start
    cases step with
    | @act _ _ n change rest turn =>
      obtain ⟨schedule, whole⟩ := ih rfl
      refine ⟨n :: schedule, ?_⟩
      rw [interleave, turn]
      exact whole

/-- Schedules give exactly the orders in which the steps of the jobs can come. -/
theorem steps_iff_schedule {results : List α} : Steps (s, jobs) (s', results.map done) ↔
    ∃ schedule, (interleave schedule jobs).run s = (results, s') := by
  constructor
  · exact interleave_of_steps
  · rintro ⟨schedule, whole⟩
    have steps := steps_interleave schedule jobs s
    rwa [whole] at steps

end RequireInjection.Job
