/-
Workers that take items from one queue.

Items arrive at the end of a queue; an idle worker takes the first one and
finishes it at any later time, in any order with the others.  Whatever the
order, every item is finished once or still on its way, and what was made of it
is what the work makes of it.
-/
import Mathlib

set_option autoImplicit false

namespace WorkerPool

/-- `arrived` keeps all items for the account; `finished` has the items with
their results, in the order of their completion. -/
structure Pool (Worker Item Result : Type) where
  arrived : List Item := []
  queue : List Item := []
  hands : List (Worker × Item) := []
  finished : List (Item × Result) := []

namespace Pool

section model

variable {Worker Item Result Fault : Type}

def arrive (item : Item) (pool : Pool Worker Item Result) : Pool Worker Item Result :=
  { pool with arrived := pool.arrived ++ [item], queue := pool.queue ++ [item] }

variable [DecidableEq Worker]

/-- Nothing happens to a busy worker, and an idle one waits at an empty queue. -/
def take (worker : Worker) (pool : Pool Worker Item Result) : Pool Worker Item Result :=
  if worker ∈ pool.hands.map Prod.fst then pool
  else
    match pool.queue with
    | [] => pool
    | item :: rest => { pool with queue := rest, hands := (worker, item) :: pool.hands }

def finish (work : Item → Except Fault Result) (worker : Worker)
    (pool : Pool Worker Item Result) : Except Fault (Pool Worker Item Result) :=
  match pool.hands.find? (fun held => held.1 = worker) with
  | none => .ok pool
  | some held =>
      match work held.2 with
      | .error fault => .error fault
      | .ok result =>
          .ok { pool with
            hands := pool.hands.eraseP (fun other => other.1 = worker)
            finished := pool.finished ++ [(held.2, result)] }

end model

variable {Worker Item Result Fault : Type}

def pending (pool : Pool Worker Item Result) : List Item :=
  pool.hands.map Prod.snd ++ pool.queue

/-- Every item that arrived is finished or pending, each as often as it arrived,
and the finished ones have the result of the work. -/
structure Accounted (work : Item → Except Fault Result) (pool : Pool Worker Item Result) :
    Prop where
  each : (pool.finished.map Prod.fst ++ pool.pending).Perm pool.arrived
  result : ∀ done ∈ pool.finished, work done.1 = .ok done.2

variable {work : Item → Except Fault Result} {pool next : Pool Worker Item Result}

theorem accounted_empty : Accounted work ({} : Pool Worker Item Result) where
  each := List.Perm.nil
  result := by
    intro done member
    cases member

theorem Accounted.mem_arrived (accounted : Accounted work pool) {item : Item}
    (pending : item ∈ pool.pending) : item ∈ pool.arrived :=
  accounted.each.subset (List.mem_append_right _ pending)

theorem Accounted.finished_arrived (accounted : Accounted work pool) {done : Item × Result}
    (member : done ∈ pool.finished) : done.1 ∈ pool.arrived :=
  accounted.each.subset (List.mem_append_left _ (List.mem_map_of_mem member))

theorem Accounted.arrive (accounted : Accounted work pool) (item : Item) :
    Accounted work (pool.arrive item) where
  each := by
    have more := accounted.each.append_right [item]
    unfold pending at more
    simp only [List.append_assoc] at more
    unfold Pool.arrive pending
    simp only
    exact more
  result := accounted.result

section steps

variable [DecidableEq Worker]

theorem Accounted.take (accounted : Accounted work pool) (worker : Worker) :
    Accounted work (pool.take worker) := by
  unfold Pool.take
  split
  · exact accounted
  · cases front : pool.queue with
    | nil => exact accounted
    | cons item rest =>
        refine ⟨?_, accounted.result⟩
        have each := accounted.each
        unfold pending at each ⊢
        rw [front] at each
        refine List.Perm.trans ?_ each
        apply List.Perm.append_left
        exact List.perm_middle.symm

theorem take_arrived (worker : Worker) : (pool.take worker).arrived = pool.arrived := by
  unfold take
  split
  · rfl
  · split <;> rfl

theorem take_finished (worker : Worker) : (pool.take worker).finished = pool.finished := by
  unfold take
  split
  · rfl
  · split <;> rfl

theorem finish_held {worker : Worker} {item : Item} {rest : List (Worker × Item)}
    {result : Result} (held : pool.hands = (worker, item) :: rest)
    (worked : work item = .ok result) :
    pool.finish work worker =
      .ok { pool with hands := rest, finished := pool.finished ++ [(item, result)] } := by
  unfold finish
  rw [held, List.find?_cons_of_pos (by simp), List.eraseP_cons_of_pos (by simp)]
  simp only [worked]

theorem finish_cases {worker : Worker} (finished : pool.finish work worker = .ok next) :
    next = pool ∨ ∃ before after item result, pool.hands = before ++ (worker, item) :: after ∧
      work item = .ok result ∧
      next = { pool with
        hands := before ++ after
        finished := pool.finished ++ [(item, result)] } := by
  unfold finish at finished
  cases found : pool.hands.find? (fun held => held.1 = worker) with
  | none =>
      simp only [found] at finished
      exact Or.inl (Except.ok.inj finished).symm
  | some held =>
      simp only [found] at finished
      cases worked : work held.2 with
      | error fault =>
          simp only [worked] at finished
          cases finished
      | ok result =>
          simp only [worked] at finished
          right
          obtain ⟨own, before, after, split, earlier⟩ := List.find?_eq_some_iff_append.mp found
          have owner : held.1 = worker := of_decide_eq_true own
          refine ⟨before, after, held.2, result, ?_, worked, ?_⟩
          · rw [split, ← owner]
          · have erased : pool.hands.eraseP (fun other => other.1 = worker) = before ++ after := by
              have others : ∀ other ∈ before, ¬ decide (other.1 = worker) = true := by
                intro other member
                simpa using earlier other member
              rw [split, List.eraseP_append_right _ others, List.eraseP_cons, owner]
              simp only [decide_true, cond_true]
            rw [← Except.ok.inj finished, erased]

theorem finish_of_mem {worker : Worker} {item : Item} {result : Result}
    (once : (pool.hands.map Prod.fst).Nodup) (held : (worker, item) ∈ pool.hands)
    (worked : work item = .ok result) :
    ∃ before after, pool.hands = before ++ (worker, item) :: after ∧
      pool.finish work worker = .ok { pool with
        hands := before ++ after
        finished := pool.finished ++ [(item, result)] } := by
  obtain ⟨before, after, split⟩ := List.append_of_mem held
  have others : ∀ other ∈ before, ¬ decide (other.1 = worker) = true := by
    intro other member
    rw [decide_eq_true_eq]
    intro same
    rw [split, List.map_append, List.map_cons, List.nodup_append] at once
    exact once.2.2 other.1 (List.mem_map_of_mem member) worker List.mem_cons_self same
  have found : pool.hands.find? (fun held => held.1 = worker) = some (worker, item) := by
    rw [split, List.find?_append, List.find?_eq_none.mpr others, Option.none_or,
      List.find?_cons_of_pos (by simp)]
  refine ⟨before, after, split, ?_⟩
  unfold finish
  simp only [found, worked]
  rw [split, List.eraseP_append_right _ others, List.eraseP_cons_of_pos (by simp)]

theorem finish_keeps {worker : Worker} (finished : pool.finish work worker = .ok next)
    {done : Item × Result} (member : done ∈ pool.finished) : done ∈ next.finished := by
  rcases finish_cases finished with rfl | ⟨_before, _after, _item, _result, _split, _worked, rfl⟩
  · exact member
  · exact List.mem_append_left _ member

theorem Accounted.finish (accounted : Accounted work pool) {worker : Worker}
    (finished : pool.finish work worker = .ok next) :
    Accounted work next ∧ next.arrived = pool.arrived := by
  rcases finish_cases finished with rfl | ⟨before, after, item, result, split, worked, rfl⟩
  · exact ⟨accounted, rfl⟩
  · refine ⟨⟨?_, ?_⟩, rfl⟩
    · have each := accounted.each
      unfold pending at each ⊢
      rw [split] at each
      refine List.Perm.trans ?_ each
      simp only [List.map_append, List.map_cons, List.map_nil, List.append_assoc,
        List.cons_append, List.nil_append]
      apply List.Perm.append_left
      exact List.perm_middle.symm
    · intro done member
      rcases List.mem_append.mp member with earlier | last
      · exact accounted.result done earlier
      · rw [List.mem_singleton.mp last]
        exact worked

/-! ### Progress -/

/-- An item in the queue has two steps before it, one in a hand has one. -/
def rank (pool : Pool Worker Item Result) : Nat := 2 * pool.queue.length + pool.hands.length

def CanTake (worker : Worker) (pool : Pool Worker Item Result) : Prop :=
  worker ∉ pool.hands.map Prod.fst ∧ pool.queue ≠ []

def CanFinish (worker : Worker) (pool : Pool Worker Item Result) : Prop :=
  worker ∈ pool.hands.map Prod.fst

theorem take_rank {worker : Worker} (can : pool.CanTake worker) :
    (pool.take worker).rank < pool.rank := by
  obtain ⟨idle, some⟩ := can
  unfold take
  rw [if_neg idle]
  cases front : pool.queue with
  | nil => exact absurd front some
  | cons item rest =>
      unfold rank
      rw [front]
      simp only [List.length_cons]
      omega

theorem finish_rank {worker : Worker} (can : pool.CanFinish worker)
    (finished : pool.finish work worker = .ok next) : next.rank < pool.rank := by
  rcases finish_cases finished with rfl | ⟨before, after, item, result, split, _worked, rfl⟩
  · -- A busy worker does not idle.
    unfold finish at finished
    cases found : next.hands.find? (fun held => held.1 = worker) with
    | none =>
        obtain ⟨held, member, owner⟩ := List.mem_map.mp can
        exact absurd owner (of_decide_eq_false (by
          simpa using List.find?_eq_none.mp found held member))
    | some held =>
        simp only [found] at finished
        cases worked : work held.2 with
        | error fault =>
            simp only [worked] at finished
            cases finished
        | ok result =>
            simp only [worked] at finished
            have lengths := congrArg (fun pool => pool.finished.length) (Except.ok.inj finished)
            simp only [List.length_append, List.length_singleton] at lengths
            omega
  · unfold rank
    rw [split]
    simp only [List.length_append, List.length_cons]
    omega

/-- No item makes a worker fail whose work succeeds on all that arrived. -/
theorem Accounted.finish_ok (accounted : Accounted work pool)
    (works : ∀ item ∈ pool.arrived, ∃ result, work item = .ok result) (worker : Worker) :
    ∃ next, pool.finish work worker = .ok next := by
  unfold Pool.finish
  cases found : pool.hands.find? (fun held => held.1 = worker) with
  | none => exact ⟨pool, rfl⟩
  | some held =>
      have member := List.mem_of_find?_eq_some found
      have arrived := accounted.mem_arrived
        (List.mem_append_left _ (List.mem_map_of_mem member))
      obtain ⟨result, worked⟩ := works held.2 arrived
      simp only [worked]
      exact ⟨_, rfl⟩

end steps

/-- While an item is pending, some worker can take or finish one. -/
theorem can_proceed (worker : Worker) (some : pool.pending ≠ []) :
    (∃ worker, pool.CanTake worker) ∨ ∃ worker, pool.CanFinish worker := by
  cases held : pool.hands with
  | nil =>
      left
      refine ⟨worker, ?_, ?_⟩
      · rw [held]
        exact List.not_mem_nil
      · intro empty
        apply some
        unfold pending
        rw [held, empty]
        rfl
  | cons first rest =>
      right
      refine ⟨first.1, ?_⟩
      unfold CanFinish
      rw [held]
      exact List.mem_cons_self

end Pool

end WorkerPool
