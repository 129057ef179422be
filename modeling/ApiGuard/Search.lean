/-
  ApiGuard.Search
  ───────────────
  Breadth-first search in a finite graph.

  The places that the search has not met yet are kept in a list, from which
  `discover` takes those that a step reaches.  Each round moves the head of the
  queue to the answer and what is discovered from it to the queue, so the places
  not met and the queue together lose one in every round.
-/

namespace ApiGuard.Search

universe u

variable {α : Type u} [DecidableEq α]

/-- Take the given places out of `unseen`: those that were in it, in order, each
once, and what is left of `unseen`. -/
def discover : List α → List α → List α × List α
  | unseen, [] => ([], unseen)
  | unseen, a :: rest =>
    if a ∈ unseen then
      (a :: (discover (unseen.erase a) rest).1, (discover (unseen.erase a) rest).2)
    else discover unseen rest

/-- No place is lost. -/
theorem length_discover :
    ∀ (unseen places : List α),
      (discover unseen places).1.length + (discover unseen places).2.length = unseen.length
  | unseen, [] => by simp [discover]
  | unseen, a :: rest => by
    rw [discover]
    split
    next h =>
      have := length_discover (unseen.erase a) rest
      have hlen := List.length_erase_of_mem h
      have hpos := List.length_pos_of_mem h
      simp only [List.length_cons]
      omega
    next => exact length_discover unseen rest

/-- The places of the queue and all those of `unseen` that steps lead to from
there, nearest first. -/
def breadthFirst (step : α → List α) (unseen : List α) : List α → List α
  | [] => []
  | a :: queue =>
    a :: breadthFirst step (discover unseen (step a)).2 (queue ++ (discover unseen (step a)).1)
termination_by queue => unseen.length + queue.length
decreasing_by
  have := length_discover unseen (step a)
  simp only [List.length_append, List.length_cons]
  omega

/-- The places of `graph` that steps lead to from the starting places, these
included, nearest first. -/
def search (step : α → List α) (graph starts : List α) : List α :=
  breadthFirst step (discover graph starts).2 (discover graph starts).1

end ApiGuard.Search
