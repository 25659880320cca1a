/-
The queue between the threads of the proxy, `safe_queue`.

`push` and `pop` wait on one condition variable and wake one waiter after they
have let go of the mutex, so that the wake-up of a `pop` can reach a consumer.
-/
import LDPlayer.Foundation.ConditionVariable

set_option autoImplicit false

namespace LDPlayer

open ConditionVariable

structure safe_queue (T : Type) where
  max_len : Nat
  q : List T
  deriving DecidableEq

namespace safe_queue

variable {T : Type}

/-- The constructor stores an `int` in an `unsigned int`. -/
def new (m : Int) : safe_queue T :=
  { max_len := (m % 2 ^ 32).toNat, q := [] }

/-- One turn of the loop of `push`, under the mutex: `none` waits on `cv`. -/
def push (queue : safe_queue T) (x : T) : Option (safe_queue T) :=
  if queue.q.length ≥ queue.max_len then none
  else some { queue with q := queue.q ++ [x] }

def pop (queue : safe_queue T) : Option (T × safe_queue T) :=
  match queue.q with
  | [] => none
  | item :: rest => some (item, { queue with q := rest })

/-- Where a thread is.  It is `locking` before each turn of its loop, the first
and those after it was woken, and `notifying` from `unlock` to `notify_one`. -/
inductive Phase (Call : Type) where
  | running
  | locking (call : Call)
  | waiting (call : Call)
  | notifying
  deriving DecidableEq

/-- `pushed` and `popped` keep the items for the account. -/
structure State (Producer Consumer T : Type) where
  queue : safe_queue T
  producers : Producer → Phase T := fun _ => .running
  consumers : Consumer → Phase Unit := fun _ => .running
  pushed : List T := []
  popped : List T := []

section model

variable {Producer Consumer : Type} [DecidableEq Producer] [DecidableEq Consumer]

def State.setProducer (s : State Producer Consumer T) (p : Producer) (phase : Phase T) :
    State Producer Consumer T :=
  { s with producers := Function.update s.producers p phase }

def State.setConsumer (s : State Producer Consumer T) (c : Consumer) (phase : Phase Unit) :
    State Producer Consumer T :=
  { s with consumers := Function.update s.consumers c phase }

inductive Wakes (s : State Producer Consumer T) : State Producer Consumer T → Prop
  | producer (p : Producer) (x : T) (waits : s.producers p = .waiting x) :
      Wakes s (s.setProducer p (.locking x))
  | consumer (c : Consumer) (waits : s.consumers c = .waiting ()) :
      Wakes s (s.setConsumer c (.locking ()))

inductive Notifies (s : State Producer Consumer T) : State Producer Consumer T → Prop
  | one (next : State Producer Consumer T) (wakes : Wakes s next) : Notifies s next
  | nobody (no_producer : ∀ p x, s.producers p ≠ .waiting x)
      (no_consumer : ∀ c, s.consumers c ≠ .waiting ()) : Notifies s s

inductive Step (spurious : Prop) (s : State Producer Consumer T) :
    State Producer Consumer T → Prop
  | call_push (p : Producer) (x : T) (runs : s.producers p = .running) :
      Step spurious s (s.setProducer p (.locking x))
  | push (p : Producer) (x : T) (queue : safe_queue T) (locks : s.producers p = .locking x)
      (pushes : s.queue.push x = some queue) :
      Step spurious s
        { s.setProducer p .notifying with queue := queue, pushed := s.pushed ++ [x] }
  | push_waits (p : Producer) (x : T) (locks : s.producers p = .locking x)
      (full : s.queue.push x = none) : Step spurious s (s.setProducer p (.waiting x))
  | push_notifies (p : Producer) (next : State Producer Consumer T)
      (notifying : s.producers p = .notifying)
      (notifies : Notifies (s.setProducer p .running) next) :
      Step spurious s next
  | call_pop (c : Consumer) (runs : s.consumers c = .running) :
      Step spurious s (s.setConsumer c (.locking ()))
  | pop (c : Consumer) (item : T) (queue : safe_queue T) (locks : s.consumers c = .locking ())
      (pops : s.queue.pop = some (item, queue)) :
      Step spurious s
        { s.setConsumer c .notifying with queue := queue, popped := s.popped ++ [item] }
  | pop_waits (c : Consumer) (locks : s.consumers c = .locking ())
      (empty : s.queue.pop = none) : Step spurious s (s.setConsumer c (.waiting ()))
  | pop_notifies (c : Consumer) (next : State Producer Consumer T)
      (notifying : s.consumers c = .notifying)
      (notifies : Notifies (s.setConsumer c .running) next) :
      Step spurious s next
  | wakes (allowed : spurious) (next : State Producer Consumer T) (wakes : Wakes s next) :
      Step spurious s next

def Reached (spurious : Prop) (m : Int) (s : State Producer Consumer T) : Prop :=
  Relation.ReflTransGen (Step spurious) { queue := new m } s

end model

variable {Producer Consumer : Type}

structure Ordered (s : State Producer Consumer T) : Prop where
  fifo : s.popped ++ s.queue.q = s.pushed
  bounded : s.queue.q.length ≤ s.queue.max_len

structure Stranded (s : State Producer Consumer T) : Prop where
  producers : ∀ p, ∃ x, s.producers p = .waiting x
  consumers : ∀ c, s.consumers c = .waiting ()
  could : (s.queue.q ≠ [] ∧ ∃ c, s.consumers c = .waiting ()) ∨
    (s.queue.q.length < s.queue.max_len ∧ ∃ p x, s.producers p = .waiting x)

section tally

variable {Call Thread : Type} [Fintype Thread]

def Phase.side : Phase Call → Side
  | .running => ⟨1, 0, 0⟩
  | .locking _ => ⟨1, 0, 0⟩
  | .waiting _ => ⟨0, 1, 0⟩
  | .notifying => ⟨0, 0, 1⟩

def side (phases : Thread → Phase Call) : Side where
  free := ∑ t, (phases t).side.free
  waiting := ∑ t, (phases t).side.waiting
  notifying := ∑ t, (phases t).side.notifying

theorem side_running : side (fun _ : Thread => (Phase.running : Phase Call)) =
    ⟨Fintype.card Thread, 0, 0⟩ := by
  unfold side Phase.side
  simp

theorem exists_of_free {phases : Thread → Phase Call} {free waiting notifying : Nat}
    (some_free : side phases = ⟨free + 1, waiting, notifying⟩) :
    ∃ t, phases t = .running ∨ ∃ call, phases t = .locking call := by
  have positive := congrArg Side.free some_free
  obtain ⟨t, _member, counts⟩ := Finset.exists_ne_zero_of_sum_ne_zero
    (positive.trans_ne (Nat.succ_ne_zero free))
  refine ⟨t, ?_⟩
  cases phase : phases t with
  | running => exact Or.inl rfl
  | locking call => exact Or.inr ⟨call, rfl⟩
  | waiting call => exact absurd (by rw [phase]; rfl) counts
  | notifying => exact absurd (by rw [phase]; rfl) counts

theorem exists_of_waiting {phases : Thread → Phase Call} (waits : (side phases).waiting ≠ 0) :
    ∃ t call, phases t = .waiting call := by
  obtain ⟨t, _member, counts⟩ := Finset.exists_ne_zero_of_sum_ne_zero waits
  refine ⟨t, ?_⟩
  cases phase : phases t with
  | waiting call => exact ⟨call, rfl⟩
  | running => exact absurd (by rw [phase]; rfl) counts
  | locking call => exact absurd (by rw [phase]; rfl) counts
  | notifying => exact absurd (by rw [phase]; rfl) counts

theorem exists_of_notifying {phases : Thread → Phase Call}
    (notifies : (side phases).notifying ≠ 0) : ∃ t, phases t = .notifying := by
  obtain ⟨t, _member, counts⟩ := Finset.exists_ne_zero_of_sum_ne_zero notifies
  refine ⟨t, ?_⟩
  cases phase : phases t with
  | notifying => rfl
  | running => exact absurd (by rw [phase]; rfl) counts
  | locking call => exact absurd (by rw [phase]; rfl) counts
  | waiting call => exact absurd (by rw [phase]; rfl) counts

theorem all_waiting_iff {phases : Thread → Phase Call} :
    ((side phases).free = 0 ∧ (side phases).notifying = 0) ↔
      ∀ t, ∃ call, phases t = .waiting call := by
  unfold side
  simp only [Finset.sum_eq_zero_iff, Finset.mem_univ, forall_const, ← forall_and]
  refine forall_congr' fun t => ?_
  cases phases t with
  | running => simp [Phase.side]
  | locking call => simp [Phase.side]
  | waiting call => simp [Phase.side]
  | notifying => simp [Phase.side]

theorem side_waiting_eq_zero_iff {phases : Thread → Phase Call} :
    (side phases).waiting = 0 ↔ ∀ t call, phases t ≠ .waiting call := by
  constructor
  · intro zero t call waits
    have counts := Finset.sum_eq_zero_iff.mp zero t (Finset.mem_univ t)
    rw [waits] at counts
    exact Nat.one_ne_zero counts
  · intro nobody
    by_contra waits
    obtain ⟨t, call, waiting⟩ := exists_of_waiting waits
    exact nobody t call waiting

variable [DecidableEq Thread]

theorem side_split (phases : Thread → Phase Call) (t : Thread) :
    ∃ f w n, side phases = ⟨f + (phases t).side.free, w + (phases t).side.waiting,
        n + (phases t).side.notifying⟩ ∧
      ∀ new, side (Function.update phases t new) =
        ⟨f + new.side.free, w + new.side.waiting, n + new.side.notifying⟩ := by
  have split (count : Phase Call → Nat) (changed : Thread → Phase Call) :
      ∑ u, count (changed u) = ∑ u ∈ Finset.univ.erase t, count (changed u) + count (changed t) :=
    (Finset.sum_erase_add _ _ (Finset.mem_univ t)).symm
  have others (count : Phase Call → Nat) (new : Phase Call) :
      ∑ u, count (Function.update phases t new u) =
        ∑ u ∈ Finset.univ.erase t, count (phases u) + count new := by
    rw [split count, Function.update_self]
    congr 1
    refine Finset.sum_congr rfl fun u member => ?_
    rw [Function.update_of_ne (Finset.ne_of_mem_erase member)]
  refine ⟨∑ u ∈ Finset.univ.erase t, (phases u).side.free,
    ∑ u ∈ Finset.univ.erase t, (phases u).side.waiting,
    ∑ u ∈ Finset.univ.erase t, (phases u).side.notifying, ?_, ?_⟩
  · unfold side
    rw [split (fun p => p.side.free), split (fun p => p.side.waiting),
      split (fun p => p.side.notifying)]
  · intro new
    unfold side
    rw [others (fun p => p.side.free), others (fun p => p.side.waiting),
      others (fun p => p.side.notifying)]

theorem side_update {phases : Thread → Phase Call} {t : Thread} {old : Phase Call}
    (phase : phases t = old) (new : Phase Call) {f w n : Nat}
    (before : side phases =
      ⟨f + old.side.free, w + old.side.waiting, n + old.side.notifying⟩) :
    side (Function.update phases t new) =
      ⟨f + new.side.free, w + new.side.waiting, n + new.side.notifying⟩ := by
  obtain ⟨f', w', n', split, updated⟩ := side_split phases t
  rw [phase, before] at split
  obtain ⟨rfl, rfl, rfl⟩ : f = f' ∧ w = w' ∧ n = n' := by
    injection split with hf hw hn
    omega
  exact updated new

end tally

/-! ### The steps by the numbers of threads -/

theorem push_eq_some_iff {queue pushed : safe_queue T} {x : T} :
    queue.push x = some pushed ↔
      queue.q.length < queue.max_len ∧ pushed = { queue with q := queue.q ++ [x] } := by
  unfold push
  split
  · constructor
    · intro none
      cases none
    · intro both
      omega
  · rw [Option.some.injEq, eq_comm]
    constructor
    · exact fun same => ⟨by omega, same⟩
    · exact fun both => both.2

theorem push_eq_none_iff {queue : safe_queue T} {x : T} :
    queue.push x = none ↔ queue.max_len ≤ queue.q.length := by
  unfold push
  split
  · simp only [true_iff]
    assumption
  · simp only [reduceCtorEq, false_iff]
    assumption

theorem pop_eq_some {queue rest : safe_queue T} {item : T}
    (pops : queue.pop = some (item, rest)) :
    queue.q = item :: rest.q ∧ rest.max_len = queue.max_len := by
  unfold pop at pops
  cases q : queue.q with
  | nil =>
      rw [q] at pops
      cases pops
  | cons head tail =>
      rw [q] at pops
      cases pops
      exact ⟨rfl, rfl⟩

private theorem pop_cons {queue : safe_queue T} {item : T} {rest : List T}
    (front : queue.q = item :: rest) :
    queue.pop = some (item, { queue with q := rest }) := by
  unfold pop
  rw [front]

theorem pop_eq_none_iff {queue : safe_queue T} : queue.pop = none ↔ queue.q = [] := by
  unfold pop
  cases queue.q <;> simp

variable {s next : State Producer Consumer T} {spurious : Prop}

theorem Ordered.of_frame (ordered : Ordered s)
    (frame : next.queue = s.queue ∧ next.pushed = s.pushed ∧ next.popped = s.popped) :
    Ordered next := by
  obtain ⟨queue, pushed, popped⟩ := frame
  constructor
  · rw [queue, pushed, popped]
    exact ordered.fifo
  · rw [queue]
    exact ordered.bounded

section frame

variable [DecidableEq Producer] [DecidableEq Consumer]

theorem Wakes.frame (wakes : Wakes s next) :
    next.queue = s.queue ∧ next.pushed = s.pushed ∧ next.popped = s.popped := by
  cases wakes <;> exact ⟨rfl, rfl, rfl⟩

theorem Notifies.frame (notifies : Notifies s next) :
    next.queue = s.queue ∧ next.pushed = s.pushed ∧ next.popped = s.popped := by
  cases notifies with
  | one _ wakes => exact wakes.frame
  | nobody => exact ⟨rfl, rfl, rfl⟩

theorem Ordered.step (ordered : Ordered s) (step : Step spurious s next) : Ordered next := by
  cases step with
  | call_push p x runs => exact ordered.of_frame ⟨rfl, rfl, rfl⟩
  | push p x queue locks pushes =>
      obtain ⟨room, rfl⟩ := push_eq_some_iff.mp pushes
      constructor
      · exact (List.append_assoc _ _ _).symm.trans (congrArg (· ++ [x]) ordered.fifo)
      · simp only [List.length_append, List.length_singleton]
        omega
  | push_waits p x locks full => exact ordered.of_frame ⟨rfl, rfl, rfl⟩
  | push_notifies p _ notifying notifies => exact ordered.of_frame notifies.frame
  | call_pop c runs => exact ordered.of_frame ⟨rfl, rfl, rfl⟩
  | pop c item queue locks pops =>
      obtain ⟨front, same⟩ := pop_eq_some pops
      have fifo := ordered.fifo
      have bounded := ordered.bounded
      rw [front] at fifo bounded
      constructor
      · exact (List.append_assoc _ _ _).trans fifo
      · rw [← same] at bounded
        exact Nat.le_of_succ_le bounded
  | pop_waits c locks empty => exact ordered.of_frame ⟨rfl, rfl, rfl⟩
  | pop_notifies c _ notifying notifies => exact ordered.of_frame notifies.frame
  | wakes allowed _ wakes => exact ordered.of_frame wakes.frame

end frame

section simulation

variable [Fintype Producer] [Fintype Consumer]

/-- Producers use up the free places of the queue, consumers its items. -/
def State.tally (s : State Producer Consumer T) : Tally where
  mine := side s.producers
  theirs := side s.consumers
  room := s.queue.max_len - s.queue.q.length
  theirRoom := s.queue.q.length

theorem stranded_iff : Stranded s ↔ ConditionVariable.Stranded s.tally := by
  have some_producer : (∃ p x, s.producers p = .waiting x) ↔ 0 < s.tally.mine.waiting := by
    rw [Nat.pos_iff_ne_zero, ne_eq, State.tally, side_waiting_eq_zero_iff]
    push Not
    rfl
  have some_consumer : (∃ c, s.consumers c = .waiting ()) ↔ 0 < s.tally.theirs.waiting := by
    rw [Nat.pos_iff_ne_zero, ne_eq, State.tally, side_waiting_eq_zero_iff]
    push Not
    exact exists_congr fun c => ⟨fun waits => ⟨(), waits⟩, fun ⟨_, waits⟩ => waits⟩
  have items : s.queue.q ≠ [] ↔ 0 < s.tally.theirRoom := List.length_pos_iff.symm
  have places : s.queue.q.length < s.queue.max_len ↔ 0 < s.tally.room := Nat.sub_pos_iff_lt.symm
  constructor
  · rintro ⟨producers, consumers, could⟩
    rw [some_producer, some_consumer, items, places] at could
    have mine := all_waiting_iff.mpr producers
    have theirs := all_waiting_iff.mpr fun c => ⟨(), consumers c⟩
    exact ⟨⟨mine.1, mine.2, theirs.1, theirs.2⟩, could.symm⟩
  · rintro ⟨⟨mine_free, mine_notifying, theirs_free, theirs_notifying⟩, could⟩
    refine ⟨all_waiting_iff.mp ⟨mine_free, mine_notifying⟩, ?_, ?_⟩
    · intro c
      obtain ⟨_, waits⟩ := all_waiting_iff.mp ⟨theirs_free, theirs_notifying⟩ c
      exact waits
    · rw [some_producer, some_consumer, items, places]
      exact could.symm

section changes

variable [DecidableEq Producer]

theorem tally_setProducer {p : Producer} {old : Phase T} (phase : s.producers p = old) :
    ∃ f w n, s.tally = ⟨⟨f + old.side.free, w + old.side.waiting, n + old.side.notifying⟩,
        s.tally.theirs, s.tally.room, s.tally.theirRoom⟩ ∧
      ∀ new, (s.setProducer p new).tally =
        ⟨⟨f + new.side.free, w + new.side.waiting, n + new.side.notifying⟩,
          s.tally.theirs, s.tally.room, s.tally.theirRoom⟩ := by
  obtain ⟨f, w, n, before, after⟩ := side_split s.producers p
  rw [phase] at before
  refine ⟨f, w, n, ?_, ?_⟩
  · unfold State.tally
    rw [before]
  · intro new
    unfold State.tally State.setProducer
    rw [after]

theorem tally_setProducer_of {p : Producer} {old : Phase T} (phase : s.producers p = old)
    (new : Phase T) {f w n room theirRoom : Nat} {theirs : Side}
    (before : s.tally = ⟨⟨f + old.side.free, w + old.side.waiting, n + old.side.notifying⟩,
      theirs, room, theirRoom⟩) :
    (s.setProducer p new).tally =
      ⟨⟨f + new.side.free, w + new.side.waiting, n + new.side.notifying⟩,
        theirs, room, theirRoom⟩ := by
  injection before with mine theirs_eq room_eq theirRoom_eq
  unfold State.tally State.setProducer
  simp only
  rw [side_update phase new mine, theirs_eq, room_eq, theirRoom_eq]

theorem tally_push {p : Producer} {queue : safe_queue T} {x : T} (items : List T)
    (locks : s.producers p = .locking x) (pushes : s.queue.push x = some queue) :
    ∃ f w n room, s.tally = ⟨⟨f + 1, w, n⟩, s.tally.theirs, room + 1, s.tally.theirRoom⟩ ∧
      State.tally { s.setProducer p .notifying with queue := queue, pushed := items } =
        ⟨⟨f, w, n + 1⟩, s.tally.theirs, room, s.tally.theirRoom + 1⟩ := by
  obtain ⟨free, rfl⟩ := push_eq_some_iff.mp pushes
  obtain ⟨f, w, n, before, after⟩ := side_split s.producers p
  rw [locks] at before
  have room : s.queue.max_len - s.queue.q.length =
      s.queue.max_len - (s.queue.q.length + 1) + 1 := by omega
  refine ⟨f, w, n, s.queue.max_len - (s.queue.q.length + 1), ?_, ?_⟩
  · unfold State.tally
    rw [before, room]
    rfl
  · unfold State.tally State.setProducer
    simp only [List.length_append, List.length_singleton]
    rw [after]
    rfl

end changes

section changes

variable [DecidableEq Consumer]

theorem tally_setConsumer {c : Consumer} {old : Phase Unit} (phase : s.consumers c = old) :
    ∃ f w n, s.tally = ⟨s.tally.mine,
        ⟨f + old.side.free, w + old.side.waiting, n + old.side.notifying⟩,
        s.tally.room, s.tally.theirRoom⟩ ∧
      ∀ new, (s.setConsumer c new).tally =
        ⟨s.tally.mine, ⟨f + new.side.free, w + new.side.waiting, n + new.side.notifying⟩,
          s.tally.room, s.tally.theirRoom⟩ := by
  obtain ⟨f, w, n, before, after⟩ := side_split s.consumers c
  rw [phase] at before
  refine ⟨f, w, n, ?_, ?_⟩
  · unfold State.tally
    rw [before]
  · intro new
    unfold State.tally State.setConsumer
    rw [after]

theorem tally_setConsumer_of {c : Consumer} {old : Phase Unit} (phase : s.consumers c = old)
    (new : Phase Unit) {f w n room theirRoom : Nat} {mine : Side}
    (before : s.tally = ⟨mine,
      ⟨f + old.side.free, w + old.side.waiting, n + old.side.notifying⟩, room, theirRoom⟩) :
    (s.setConsumer c new).tally =
      ⟨mine, ⟨f + new.side.free, w + new.side.waiting, n + new.side.notifying⟩,
        room, theirRoom⟩ := by
  injection before with mine_eq theirs room_eq theirRoom_eq
  unfold State.tally State.setConsumer
  simp only
  rw [side_update phase new theirs, mine_eq, room_eq, theirRoom_eq]

theorem tally_pop {c : Consumer} {queue : safe_queue T} {item : T} (items : List T)
    (ordered : Ordered s) (locks : s.consumers c = .locking ())
    (pops : s.queue.pop = some (item, queue)) :
    ∃ f w n theirRoom,
      s.tally = ⟨s.tally.mine, ⟨f + 1, w, n⟩, s.tally.room, theirRoom + 1⟩ ∧
      State.tally { s.setConsumer c .notifying with queue := queue, popped := items } =
        ⟨s.tally.mine, ⟨f, w, n + 1⟩, s.tally.room + 1, theirRoom⟩ := by
  obtain ⟨front, same⟩ := pop_eq_some pops
  obtain ⟨f, w, n, before, after⟩ := side_split s.consumers c
  rw [locks] at before
  have length : s.queue.q.length = queue.q.length + 1 := congrArg List.length front
  have bounded := ordered.bounded
  have room : queue.max_len - queue.q.length = s.queue.max_len - (queue.q.length + 1) + 1 := by
    omega
  refine ⟨f, w, n, queue.q.length, ?_, ?_⟩
  · unfold State.tally
    rw [before, length]
    rfl
  · unfold State.tally State.setConsumer
    simp only
    rw [after, length, room]
    rfl

end changes

variable [DecidableEq Producer] [DecidableEq Consumer]

theorem Wakes.woken (wakes : Wakes s next) : Woken s.tally next.tally := by
  cases wakes with
  | producer p x waits =>
      obtain ⟨f, w, n, before, after⟩ := tally_setProducer waits
      rw [before, after]
      exact .mine f w n _ _ _
  | consumer c waits =>
      obtain ⟨f, w, n, before, after⟩ := tally_setConsumer waits
      rw [before, after]
      exact .theirs f w n _ _ _

theorem Notifies.notified (notifies : Notifies s next) : Notified s.tally next.tally := by
  cases notifies with
  | one _ wakes => exact Or.inl wakes.woken
  | nobody no_producer no_consumer =>
      exact Or.inr ⟨rfl, side_waiting_eq_zero_iff.mpr no_producer,
        side_waiting_eq_zero_iff.mpr fun c _ => no_consumer c⟩

/-- A step is a move of the numbers, or a call begins and they stay the same. -/
theorem Step.move (ordered : Ordered s) (step : Step spurious s next) :
    next.tally = s.tally ∨ Move spurious s.tally next.tally := by
  cases step with
  | call_push p x runs =>
      obtain ⟨f, w, n, before, after⟩ := tally_setProducer runs
      rw [after]
      exact Or.inl before.symm
  | push p x queue locks pushes =>
      obtain ⟨f, w, n, room, before, after⟩ := tally_push (s.pushed ++ [x]) locks pushes
      rw [before, after]
      exact Or.inr (Or.inl (.operate f w n room _ _))
  | push_waits p x locks full =>
      obtain ⟨f, w, n, before, after⟩ := tally_setProducer locks
      have no_room : s.tally.room = 0 := Nat.sub_eq_zero_of_le (push_eq_none_iff.mp full)
      rw [before, after, no_room]
      exact Or.inr (Or.inl (.wait f w n _ _))
  | push_notifies p _ notifying notifies =>
      obtain ⟨f, w, n, before, after⟩ := tally_setProducer notifying
      have notified := notifies.notified
      rw [after] at notified
      rw [before]
      exact Or.inr notified.move
  | call_pop c runs =>
      obtain ⟨f, w, n, before, after⟩ := tally_setConsumer runs
      rw [after]
      exact Or.inl before.symm
  | pop c item queue locks pops =>
      obtain ⟨f, w, n, room, before, after⟩ :=
        tally_pop (s.popped ++ [item]) ordered locks pops
      rw [before, after]
      exact Or.inr (Or.inr (.operate f w n room _ _))
  | pop_waits c locks empty =>
      obtain ⟨f, w, n, before, after⟩ := tally_setConsumer locks
      have no_room : s.tally.theirRoom = 0 := List.length_eq_zero_iff.mpr (pop_eq_none_iff.mp empty)
      rw [before, after, no_room]
      exact Or.inr (Or.inr (.wait f w n _ _))
  | pop_notifies c _ notifying notifies =>
      obtain ⟨f, w, n, before, after⟩ := tally_setConsumer notifying
      have notified := notifies.notified
      rw [after] at notified
      rw [before]
      exact Or.inr notified.swap.move.swap
  | wakes allowed _ wakes => exact Or.inr (wakes.woken.move_of_spurious allowed)

abbrev Steps (spurious : Prop) : State Producer Consumer T → State Producer Consumer T → Prop :=
  Relation.ReflTransGen (Step spurious)

omit [Fintype Producer] [Fintype Consumer] in
theorem Ordered.steps (ordered : Ordered s) (steps : Steps spurious s next) : Ordered next := by
  induction steps with
  | refl => exact ordered
  | tail _earlier step ih => exact ih.step step

theorem Steps.reaches (ordered : Ordered s) (steps : Steps spurious s next) :
    Reaches spurious s.tally next.tally := by
  induction steps with
  | refl => exact .refl
  | tail earlier step ih =>
      rcases step.move (ordered.steps earlier) with same | move
      · rw [same]
        exact ih
      · exact ih.tail move

variable (spurious) in
private theorem can_push [Inhabited T] {p : Producer}
    (free : s.producers p = .running ∨ ∃ x, s.producers p = .locking x) :
    ∃ next x, Steps spurious s next ∧ next.tally = s.tally ∧ next.producers p = .locking x := by
  rcases free with runs | ⟨x, locks⟩
  · obtain ⟨f, w, n, before, after⟩ := tally_setProducer runs
    refine ⟨s.setProducer p (.locking default), default, .single (.call_push p default runs), ?_,
      Function.update_self _ _ _⟩
    rw [after]
    exact before.symm
  · exact ⟨s, x, .refl, rfl, locks⟩

variable (spurious) in
private theorem can_pop {c : Consumer}
    (free : s.consumers c = .running ∨ ∃ x, s.consumers c = .locking x) :
    ∃ next, Steps spurious s next ∧ next.tally = s.tally ∧ next.consumers c = .locking () := by
  rcases free with runs | ⟨_, locks⟩
  · obtain ⟨f, w, n, before, after⟩ := tally_setConsumer runs
    refine ⟨s.setConsumer c (.locking ()), .single (.call_pop c runs), ?_,
      Function.update_self _ _ _⟩
    rw [after]
    exact before.symm
  · exact ⟨s, .refl, rfl, locks⟩

private theorem can_wake {tally : Tally} (woken : Woken s.tally tally) :
    ∃ next, Wakes s next ∧ next.tally = tally := by
  generalize now : s.tally = start at woken
  cases woken with
  | mine f w n room theirRoom theirs =>
      have some_waiting : (side s.producers).waiting = w + 1 := congrArg (·.mine.waiting) now
      obtain ⟨p, x, waits⟩ := exists_of_waiting (some_waiting.trans_ne (Nat.succ_ne_zero w))
      exact ⟨_, .producer p x waits, tally_setProducer_of waits (.locking x) now⟩
  | theirs f w n room theirRoom mine =>
      have some_waiting : (side s.consumers).waiting = w + 1 := congrArg (·.theirs.waiting) now
      obtain ⟨c, _, waits⟩ := exists_of_waiting (some_waiting.trans_ne (Nat.succ_ne_zero w))
      exact ⟨_, .consumer c waits, tally_setConsumer_of waits (.locking ()) now⟩

theorem can_notify {tally : Tally} (notified : Notified s.tally tally) :
    ∃ next, Notifies s next ∧ next.tally = tally := by
  rcases notified with woken | ⟨rfl, no_mine, no_theirs⟩
  · obtain ⟨next, wakes, reached⟩ := can_wake woken
    exact ⟨next, .one next wakes, reached⟩
  · exact ⟨s, .nobody (side_waiting_eq_zero_iff.mp no_mine)
      (fun c => side_waiting_eq_zero_iff.mp no_theirs c ()), rfl⟩

private theorem can_notify_push {tally : Tally} {f w n room theirRoom : Nat} {theirs : Side}
    (now : s.tally = ⟨⟨f, w, n + 1⟩, theirs, room, theirRoom⟩)
    (notified : Notified ⟨⟨f + 1, w, n⟩, theirs, room, theirRoom⟩ tally) :
    ∃ next, Step spurious s next ∧ next.tally = tally := by
  have some_notifying : (side s.producers).notifying = n + 1 := congrArg (·.mine.notifying) now
  obtain ⟨p, notifying⟩ := exists_of_notifying (some_notifying.trans_ne (Nat.succ_ne_zero n))
  have unlocked : (s.setProducer p .running).tally = ⟨⟨f + 1, w, n⟩, theirs, room, theirRoom⟩ :=
    tally_setProducer_of notifying .running now
  rw [← unlocked] at notified
  obtain ⟨next, notifies, reached⟩ := can_notify notified
  exact ⟨next, .push_notifies p next notifying notifies, reached⟩

private theorem can_notify_pop {tally : Tally} {f w n room theirRoom : Nat} {mine : Side}
    (now : s.tally = ⟨mine, ⟨f, w, n + 1⟩, room, theirRoom⟩)
    (notified : Notified ⟨mine, ⟨f + 1, w, n⟩, room, theirRoom⟩ tally) :
    ∃ next, Step spurious s next ∧ next.tally = tally := by
  have some_notifying : (side s.consumers).notifying = n + 1 := congrArg (·.theirs.notifying) now
  obtain ⟨c, notifying⟩ := exists_of_notifying (some_notifying.trans_ne (Nat.succ_ne_zero n))
  have unlocked : (s.setConsumer c .running).tally = ⟨mine, ⟨f + 1, w, n⟩, room, theirRoom⟩ :=
    tally_setConsumer_of notifying .running now
  rw [← unlocked] at notified
  obtain ⟨next, notifies, reached⟩ := can_notify notified
  exact ⟨next, .pop_notifies c next notifying notifies, reached⟩

private theorem can_act_producer [Inhabited T] {tally : Tally} (acts : Acts False s.tally tally) :
    ∃ next, Steps spurious s next ∧ next.tally = tally := by
  generalize now : s.tally = start at acts
  cases acts with
  | operate f w n room theirRoom theirs =>
      obtain ⟨p, free⟩ := exists_of_free (congrArg Tally.mine now)
      obtain ⟨ready, x, steps, same, locks⟩ := can_push spurious free
      rw [← same] at now
      have places : ready.queue.q.length < ready.queue.max_len := by
        have some_room : ready.queue.max_len - ready.queue.q.length = room + 1 :=
          congrArg Tally.room now
        omega
      have pushes : ready.queue.push x = some { ready.queue with q := ready.queue.q ++ [x] } :=
        push_eq_some_iff.mpr ⟨places, rfl⟩
      obtain ⟨f', w', n', room', before, after⟩ := tally_push (ready.pushed ++ [x]) locks pushes
      rw [now] at before after
      obtain ⟨rfl, rfl, rfl, rfl⟩ : f = f' ∧ w = w' ∧ n = n' ∧ room = room' := by
        simpa [and_assoc] using before
      exact ⟨_, steps.tail (.push p x _ locks pushes), after⟩
  | wait f w n theirRoom theirs =>
      obtain ⟨p, free⟩ := exists_of_free (congrArg Tally.mine now)
      obtain ⟨ready, x, steps, same, locks⟩ := can_push spurious free
      rw [← same] at now
      have no_room : ready.queue.max_len - ready.queue.q.length = 0 := congrArg Tally.room now
      have full : ready.queue.push x = none :=
        push_eq_none_iff.mpr (Nat.sub_eq_zero_iff_le.mp no_room)
      exact ⟨_, steps.tail (.push_waits p x locks full),
        tally_setProducer_of locks (.waiting x) now⟩
  | wakeNobody f n f' n' room theirRoom =>
      obtain ⟨next, step, reached⟩ := can_notify_push now (Or.inr ⟨rfl, rfl, rfl⟩)
      exact ⟨next, .single step, reached⟩
  | wakeMine f w n room theirRoom theirs =>
      obtain ⟨next, step, reached⟩ := can_notify_push now (Or.inl (.mine (f + 1) w n _ _ _))
      exact ⟨next, .single step, reached⟩
  | wakeTheirs f w n f' w' n' room theirRoom =>
      obtain ⟨next, step, reached⟩ := can_notify_push now (Or.inl (.theirs f' w' n' _ _ _))
      exact ⟨next, .single step, reached⟩
  | wake allowed => exact allowed.elim

private theorem can_act_consumer {tally : Tally} (ordered : Ordered s)
    (acts : Acts False s.tally.swap tally.swap) :
    ∃ next, Steps spurious s next ∧ next.tally = tally := by
  generalize now : s.tally.swap = start at acts
  generalize later : tally.swap = finish at acts
  replace now := congrArg Tally.swap now
  replace later := congrArg Tally.swap later
  rw [Tally.swap_swap] at now later
  rw [later]
  cases acts with
  | operate f w n room theirRoom theirs =>
      obtain ⟨c, free⟩ := exists_of_free (congrArg Tally.theirs now)
      obtain ⟨ready, steps, same, locks⟩ := can_pop spurious free
      rw [← same] at now
      obtain ⟨item, rest, front⟩ : ∃ item rest, ready.queue.q = item :: rest :=
        List.exists_cons_of_length_eq_add_one (congrArg Tally.theirRoom now)
      have pops := pop_cons front
      obtain ⟨f', w', n', room', before, after⟩ :=
        tally_pop (ready.popped ++ [item]) (ordered.steps steps) locks pops
      rw [now] at before after
      obtain ⟨rfl, rfl, rfl, rfl⟩ : f = f' ∧ w = w' ∧ n = n' ∧ room = room' := by
        simpa [Tally.swap, and_assoc] using before
      exact ⟨_, steps.tail (.pop c item _ locks pops), after⟩
  | wait f w n theirRoom theirs =>
      obtain ⟨c, free⟩ := exists_of_free (congrArg Tally.theirs now)
      obtain ⟨ready, steps, same, locks⟩ := can_pop spurious free
      rw [← same] at now
      have empty : ready.queue.pop = none :=
        pop_eq_none_iff.mpr (List.length_eq_zero_iff.mp (congrArg Tally.theirRoom now))
      exact ⟨_, steps.tail (.pop_waits c locks empty),
        tally_setConsumer_of locks (.waiting ()) now⟩
  | wakeNobody f n f' n' room theirRoom =>
      obtain ⟨next, step, reached⟩ := can_notify_pop now (Or.inr ⟨rfl, rfl, rfl⟩)
      exact ⟨next, .single step, reached⟩
  | wakeMine f w n room theirRoom theirs =>
      obtain ⟨next, step, reached⟩ := can_notify_pop now (Or.inl (.theirs (f + 1) w n _ _ _))
      exact ⟨next, .single step, reached⟩
  | wakeTheirs f w n f' w' n' room theirRoom =>
      obtain ⟨next, step, reached⟩ := can_notify_pop now (Or.inl (.mine f' w' n' _ _ _))
      exact ⟨next, .single step, reached⟩
  | wake allowed => exact allowed.elim

/-- Every sequence of moves of the numbers is one of steps of threads. -/
theorem Steps.of_reaches [Inhabited T] {tally : Tally} (ordered : Ordered s)
    (reaches : Reaches False s.tally tally) :
    ∃ next, Steps spurious s next ∧ next.tally = tally := by
  induction reaches with
  | refl => exact ⟨s, .refl, rfl⟩
  | tail _earlier move ih =>
      obtain ⟨middle, steps, rfl⟩ := ih
      have stepped : ∃ next, Steps spurious middle next ∧ next.tally = _ :=
        move.elim can_act_producer (can_act_consumer (ordered.steps steps))
      obtain ⟨next, more, reached⟩ := stepped
      exact ⟨next, steps.trans more, reached⟩

end simulation

/-! ### All runs of a queue -/

structure Safe (s : State Producer Consumer T) : Prop extends Ordered s where
  not_stranded : ¬ Stranded s

theorem ordered_new (m : Int) : Ordered ({ queue := new m } : State Producer Consumer T) :=
  ⟨rfl, Nat.zero_le _⟩

section runs

variable [DecidableEq Producer] [DecidableEq Consumer] {m : Int}

theorem Reached.ordered (reached : Reached spurious m s) : Ordered s :=
  (ordered_new m).steps reached

theorem Step.max_len (step : Step spurious s next) : next.queue.max_len = s.queue.max_len := by
  cases step with
  | call_push p x runs => rfl
  | push p x queue locks pushes =>
      obtain ⟨_, rfl⟩ := push_eq_some_iff.mp pushes
      rfl
  | push_waits p x locks full => rfl
  | push_notifies p _ notifying notifies => exact congrArg safe_queue.max_len notifies.frame.1
  | call_pop c runs => rfl
  | pop c item queue locks pops => exact (pop_eq_some pops).2
  | pop_waits c locks empty => rfl
  | pop_notifies c _ notifying notifies => exact congrArg safe_queue.max_len notifies.frame.1
  | wakes allowed _ wakes => exact congrArg safe_queue.max_len wakes.frame.1

theorem Reached.max_len (reached : Reached spurious m s) :
    s.queue.max_len = (new m : safe_queue T).max_len := by
  induction reached with
  | refl => rfl
  | tail _earlier step ih => exact step.max_len.trans ih

variable [Fintype Producer] [Fintype Consumer]

omit [DecidableEq Producer] [DecidableEq Consumer] in
private theorem tally_new (m : Int) : ({ queue := new m } : State Producer Consumer T).tally =
    start (Fintype.card Producer) (Fintype.card Consumer) (new m : safe_queue T).max_len := by
  unfold State.tally start
  rw [side_running, side_running]
  rfl

/-- Stranded threads can be reached exactly if producers and consumers are at
least two more than the queue has places. -/
theorem stranded_reached_iff [Inhabited T] (some_places : 0 < (new m : safe_queue T).max_len) :
    (∃ s : State Producer Consumer T, Reached spurious m s ∧ Stranded s) ↔
      0 < Fintype.card Producer ∧ 0 < Fintype.card Consumer ∧
        (new m : safe_queue T).max_len + 2 ≤ Fintype.card Producer + Fintype.card Consumer := by
  constructor
  · rintro ⟨s, reached, stranded⟩
    have reaches := Steps.reaches (ordered_new m) reached
    rw [tally_new] at reaches
    exact (strands_iff spurious some_places).mp ⟨s.tally, reaches, stranded_iff.mp stranded⟩
  · intro many
    obtain ⟨tally, reaches, stranded⟩ := (strands_iff False some_places).mpr many
    rw [← tally_new (T := T)] at reaches
    obtain ⟨s, steps, rfl⟩ := Steps.of_reaches (ordered_new m) reaches
    exact ⟨s, steps, stranded_iff.mpr stranded⟩

/-- Whatever the order of the steps and of the wake-ups, the queue gives the items
in order and within its bound; it keeps its threads going exactly if there are
only producers, only consumers, or at most one thread more than places. -/
theorem safe_iff [Inhabited T] (some_places : 0 < (new m : safe_queue T).max_len) :
    (∀ s : State Producer Consumer T, Reached spurious m s →
      Ordered s ∧ s.queue.max_len = (new m : safe_queue T).max_len) ∧
    ((∀ s : State Producer Consumer T, Reached spurious m s → Safe s) ↔
      Fintype.card Producer = 0 ∨ Fintype.card Consumer = 0 ∨
        Fintype.card Producer + Fintype.card Consumer ≤ (new m : safe_queue T).max_len + 1) := by
  refine ⟨fun s reached => ⟨reached.ordered, reached.max_len⟩, ?_⟩
  have strands : (∃ s : State Producer Consumer T, Reached spurious m s ∧ Stranded s) ↔ _ :=
    stranded_reached_iff some_places
  constructor
  · intro safe
    by_contra few
    obtain ⟨s, reached, stranded⟩ := strands.mpr (by omega)
    exact (safe s reached).not_stranded stranded
  · intro few s reached
    refine ⟨reached.ordered, fun stranded => ?_⟩
    have many := strands.mp ⟨s, reached, stranded⟩
    omega

/-- With the unlimited queue of the proxy. -/
theorem safe_iff_unlimited :
    0 < (new (-1) : safe_queue (List Nat × Int)).max_len ∧
    (∀ s : State Unit (Fin 4) (List Nat × Int), Reached True (-1) s →
      Ordered s ∧ s.queue.max_len = (new (-1) : safe_queue (List Nat × Int)).max_len) ∧
    ((∀ s : State Unit (Fin 4) (List Nat × Int), Reached True (-1) s → Safe s) ↔
      Fintype.card Unit = 0 ∨ Fintype.card (Fin 4) = 0 ∨
        Fintype.card Unit + Fintype.card (Fin 4) ≤
          (new (-1) : safe_queue (List Nat × Int)).max_len + 1) :=
  ⟨by decide, safe_iff (by decide)⟩

/-- One producer, two consumers and one place: both consumers wait, the first item
wakes one of them, the producer waits at the second item, and the `pop` of the
first wakes the other consumer. -/
theorem one_place_strands :
    ∃ s : State Unit Bool Nat, Reached False 1 s ∧ Stranded s := by
  have consumers_wait : Steps False ({ queue := new 1 } : State Unit Bool Nat) _ :=
    .tail (.tail (.tail (.single (.call_pop false rfl)) (.pop_waits false rfl rfl))
      (.call_pop true rfl)) (.pop_waits true rfl rfl)
  have pushed := (consumers_wait.tail (.call_push () 0 rfl)).tail (.push () 0 _ rfl rfl)
  have woken := pushed.tail (.push_notifies () _ rfl (.one _ (.consumer false rfl)))
  have producer_waits := (woken.tail (.call_push () 1 rfl)).tail (.push_waits () 1 rfl rfl)
  have popped := producer_waits.tail (.pop false 0 _ rfl rfl)
  have wrong_wake := popped.tail (.pop_notifies false _ rfl (.one _ (.consumer true rfl)))
  have all_wait := ((wrong_wake.tail (.pop_waits true rfl rfl)).tail (.call_pop false rfl)).tail
    (.pop_waits false rfl rfl)
  refine ⟨_, all_wait, ⟨fun p => ⟨1, rfl⟩, ?_, Or.inr ⟨Nat.zero_lt_one, (), 1, rfl⟩⟩⟩
  intro c
  cases c <;> rfl

end runs

end safe_queue

end LDPlayer
