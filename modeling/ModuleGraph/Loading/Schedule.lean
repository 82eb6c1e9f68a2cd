import ModuleGraph.Loading.Step
/-!
# Schedules

Load tasks advance in any order. `follow` runs the tasks in a given order, one step for each
place; `run` takes them in turn, in rounds over all tasks that there are when the round begins,
until every task has ended or one of those that are awaited has failed. Every run is one of the
orders that `follow` can be given, and so is the order in which an event loop takes the tasks.
-/

namespace ModuleGraph.Loading.State

variable {σ : Type}

/-- The tasks advance in the order of these places. -/
def follow (c : Setting σ) (s : State σ) (places : List Nat) : State σ :=
  places.foldl (fun s i => s.step c i) s

/-- Every task advances once. -/
def round (c : Setting σ) (s : State σ) : State σ := s.follow c (List.range s.tasks.length)

/-- No task can advance. -/
def isQuiet (s : State σ) : Bool := (List.range s.tasks.length).all fun i => !s.isAwake i

/-- At most so many rounds, until nothing can advance or one of the awaited tasks has failed. -/
def runFor (c : Setting σ) (awaited : List Nat) : Nat → State σ → State σ
  | 0, s => s
  | n + 1, s =>
    if s.isQuiet || (s.failure? awaited).isSome then s
    else runFor c awaited n (s.round c)

/-- A number of rounds that no finite graph of sources reaches in practice. -/
def roundLimit : Nat := 1000000

/-- Runs the tasks until they have ended or one of those that are awaited has failed. -/
def run (c : Setting σ) (awaited : List Nat) (s : State σ) : State σ :=
  runFor c awaited roundLimit s

/-- The paths of the awaited tasks, or the first fault among them. -/
def results (s : State σ) (awaited : List Nat) : Except Fault (List (Option String)) :=
  match s.failure? awaited with
  | some e => .error e
  | none => .ok (awaited.map fun i =>
      match s.outcome? i with
      | some (.loaded path) => some path
      | _ => none)

end ModuleGraph.Loading.State
