import RequireInjection.Host

/-!
Jobs over a shared state. A job takes steps, each of which changes the state at once and goes on
with what it found there; the steps of several jobs may come in any order.
-/
namespace RequireInjection

inductive Job (σ α : Type) where
  | done (result : α)
  | act (change : σ → σ) (rest : σ → Job σ α)

namespace Job

variable {σ α β : Type}

def bind : Job σ α → (α → Job σ β) → Job σ β
  | done a, f => f a
  | act change rest, f => act change fun s => (rest s).bind f

instance : Monad (Job σ) where
  pure := done
  bind := bind

def once (operation : StateM σ α) : Job σ α :=
  act (fun s => (operation.run s).2) fun s => done (operation.run s).1

def run : Job σ α → σ → α × σ
  | done a, s => (a, s)
  | act change rest, s => (rest s).run (change s)

/-- Does several jobs in one. The schedule names the job for each step; a job that is done or
missing is passed over. What is left when the schedule ends is done in order. -/
def interleave : List Nat → List (Job σ α) → Job σ (List α)
  | [], jobs => jobs.mapM id
  | n :: schedule, jobs =>
    match jobs[n]? with
    | some (act change rest) => act change fun s => interleave schedule (jobs.set n (rest s))
    | _ => interleave schedule jobs

inductive Step : σ × List (Job σ α) → σ × List (Job σ α) → Prop where
  | act {s : σ} {jobs : List (Job σ α)} {n : Nat} {change : σ → σ} {rest : σ → Job σ α}
      (turn : jobs[n]? = some (act change rest)) : Step (s, jobs) (change s, jobs.set n (rest s))

end Job

/-- A file tree on which several jobs work. Walks below barred directories fail. -/
def FileTree.sharedHost (barred : Text → Option FileFault) (schedule : List Nat) :
    Host (Job FileTree) where
  has path := .once (host.has path)
  isDirectory path := .once (host.isDirectory path)
  filesBelow path :=
    match barred path with
    | some f => .done (.error f)
    | none => .once (host.filesBelow path)
  read path := .once (host.read path)
  makeDirectory path := .once (host.makeDirectory path)
  write path content := .once (host.write path content)
  each jobs := .interleave schedule jobs

end RequireInjection
