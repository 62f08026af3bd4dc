import Mathlib.Data.List.Forall2
import Mathlib.Data.List.Nodup
import RequireInjection.Proofs.Job.Interleaving

/-!
Jobs that respect one another. A job is given what it may rely on between its steps and what each of
its steps has to keep; where every job keeps what the others rely on, each one ends as if it had
only those others to put up with, whatever the order of the steps.
-/
namespace RequireInjection

structure Conduct (σ : Type) where
  others : σ → σ → Prop
  own : σ → σ → Prop
  still : ∀ s, others s s
  onward : ∀ {s s' s''}, others s s' → others s' s'' → others s s''

namespace Job

variable {σ α β ι : Type} {r : Conduct σ} {s s' : σ} {a : α} {post : α → σ → Prop}
  {job : Job σ α} {jobs jobs' : List (Job σ α)}

/-- From a state on, each step of the job keeps what it has to, and its result is as said, as long
as the other jobs do only what it relies on. -/
def Meets (r : Conduct σ) (post : α → σ → Prop) : Job σ α → σ → Prop
  | done a, s => ∀ s', r.others s s' → post a s'
  | act change rest, s =>
    ∀ s', r.others s s' → r.own s' (change s') ∧ Meets r post (rest s') (change s')

theorem Meets.later (meets : Meets r post job s) (between : r.others s s') :
    Meets r post job s' := by
  cases job with
  | done a => exact fun s'' more => meets s'' (r.onward between more)
  | act change rest => exact fun s'' more => meets s'' (r.onward between more)

theorem meets_pure (stays : ∀ s', r.others s s' → post a s') :
    Meets r post (pure a : Job σ α) s := stays

theorem Meets.bind {f : α → Job σ β} {final : β → σ → Prop} (meets : Meets r post job s)
    (rest : ∀ a s', post a s' → Meets r final (f a) s') : Meets r final (job >>= f) s := by
  induction job generalizing s with
  | done a => exact rest a s (meets s (r.still s))
  | act change next ih =>
    intro s' between
    obtain ⟨kept, onward⟩ := meets s' between
    exact ⟨kept, ih s' onward⟩

theorem meets_once_bind {operation : StateM σ α} {f : α → Job σ β} {final : β → σ → Prop}
    (step : ∀ s', r.others s s' → r.own s' (operation.run s').2 ∧
      Meets r final (f (operation.run s').1) (operation.run s').2) :
    Meets r final (once operation >>= f) s := step

section Together

variable {labels : List ι} {conduct : ι → Conduct σ} {outcome : ι → α → σ → Prop}

def Together (conduct : ι → Conduct σ) (outcome : ι → α → σ → Prop) (labels : List ι)
    (jobs : List (Job σ α)) (s : σ) : Prop :=
  List.Forall₂ (fun i job => Meets (conduct i) (outcome i) job s) labels jobs

/-- Jobs fit if each of them keeps what the others rely on. -/
def Fit (conduct : ι → Conduct σ) (labels : List ι) : Prop :=
  ∀ i ∈ labels, ∀ j ∈ labels, i ≠ j → ∀ s s', (conduct i).own s s' → (conduct j).others s s'

def OwnStep (conduct : ι → Conduct σ) (labels : List ι) (s s' : σ) : Prop :=
  ∃ i ∈ labels, (conduct i).own s s'

theorem Together.step (distinct : labels.Nodup) (fit : Fit conduct labels)
    (together : Together conduct outcome labels jobs s) (step : Step (s, jobs) (s', jobs')) :
    Together conduct outcome labels jobs' s' ∧ OwnStep conduct labels s s' := by
  cases step with
  | @act _ _ n change rest turn =>
    obtain ⟨same, each⟩ := List.forall₂_iff_get.mp together
    obtain ⟨inside, here⟩ := List.getElem?_eq_some_iff.mp turn
    have labelled : n < labels.length := same ▸ inside
    have own := each n labelled inside
    simp only [List.get_eq_getElem, here] at own
    obtain ⟨kept, onward⟩ := own s ((conduct labels[n]).still s)
    refine ⟨List.forall₂_iff_get.mpr ⟨by simpa using same, fun m hm hm' => ?_⟩,
      labels[n], List.getElem_mem labelled, kept⟩
    -- the job whose turn it was has gone on; for any other one this was a step between its own
    simp only [List.get_eq_getElem, List.getElem_set]
    split
    · rename_i turned
      subst turned
      exact onward
    · rename_i other
      have differ : labels[n] ≠ labels[m] := fun h => other (distinct.getElem_inj_iff.mp h)
      have hm' : m < jobs.length := by simpa using hm'
      exact (each m hm hm').later (fit _ (List.getElem_mem labelled) _ (List.getElem_mem hm) differ
        _ _ kept)

theorem Together.steps (distinct : labels.Nodup) (fit : Fit conduct labels)
    (together : Together conduct outcome labels jobs s) (steps : Steps (s, jobs) (s', jobs')) :
    Together conduct outcome labels jobs' s' ∧
      Relation.ReflTransGen (OwnStep conduct labels) s s' := by
  generalize final : (s', jobs') = state at steps
  induction steps generalizing s' jobs' with
  | refl =>
    cases final
    exact ⟨together, .refl⟩
  | @tail middle _ _ step ih =>
    subst final
    obtain ⟨half, before⟩ := ih rfl
    obtain ⟨whole, last⟩ := half.step distinct fit step
    exact ⟨whole, before.tail last⟩

theorem Together.interleave (distinct : labels.Nodup) (fit : Fit conduct labels)
    (together : Together conduct outcome labels jobs s) (schedule : List Nat) :
    let ended := (interleave schedule jobs).run s
    List.Forall₂ (fun i a => outcome i a ended.2) labels ended.1 ∧
      Relation.ReflTransGen (OwnStep conduct labels) s ended.2 := by
  intro ended
  obtain ⟨final, onward⟩ := together.steps distinct fit (steps_interleave schedule jobs s)
  refine ⟨(List.forall₂_map_right_iff.mp final).imp fun i a met => ?_, onward⟩
  exact met _ ((conduct i).still _)

end Together
end Job
end RequireInjection
