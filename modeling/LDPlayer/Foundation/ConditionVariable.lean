/-
Two kinds of threads that wait on one condition variable, by their numbers.

An operation of one kind uses up a unit of room and makes one for the other
kind; without room it waits.  After an operation the thread wakes one waiter, of
either kind, and a waiter that is woken tries again.
-/
import Mathlib

set_option autoImplicit false

namespace ConditionVariable

/-- The threads of one kind: those that may try their operation, those that wait,
and those with a wake-up still to send. -/
structure Side where
  free : Nat
  waiting : Nat
  notifying : Nat

def Side.total (side : Side) : Nat := side.free + side.waiting + side.notifying

/-- `room` is for the operations of `mine`, `theirRoom` for those of `theirs`. -/
structure Tally where
  mine : Side
  theirs : Side
  room : Nat
  theirRoom : Nat

def Tally.swap (tally : Tally) : Tally :=
  { mine := tally.theirs, theirs := tally.mine, room := tally.theirRoom, theirRoom := tally.room }

@[simp] theorem Tally.swap_swap (tally : Tally) : tally.swap.swap = tally := rfl

/-- What a thread of `mine` does.  `spurious` says if a waiter may wake by itself. -/
inductive Acts (spurious : Prop) : Tally → Tally → Prop
  | operate (f w n room theirRoom : Nat) (theirs : Side) :
      Acts spurious ⟨⟨f + 1, w, n⟩, theirs, room + 1, theirRoom⟩
        ⟨⟨f, w, n + 1⟩, theirs, room, theirRoom + 1⟩
  | wait (f w n theirRoom : Nat) (theirs : Side) :
      Acts spurious ⟨⟨f + 1, w, n⟩, theirs, 0, theirRoom⟩ ⟨⟨f, w + 1, n⟩, theirs, 0, theirRoom⟩
  | wakeNobody (f n f' n' room theirRoom : Nat) :
      Acts spurious ⟨⟨f, 0, n + 1⟩, ⟨f', 0, n'⟩, room, theirRoom⟩
        ⟨⟨f + 1, 0, n⟩, ⟨f', 0, n'⟩, room, theirRoom⟩
  | wakeMine (f w n room theirRoom : Nat) (theirs : Side) :
      Acts spurious ⟨⟨f, w + 1, n + 1⟩, theirs, room, theirRoom⟩
        ⟨⟨f + 2, w, n⟩, theirs, room, theirRoom⟩
  | wakeTheirs (f w n f' w' n' room theirRoom : Nat) :
      Acts spurious ⟨⟨f, w, n + 1⟩, ⟨f', w' + 1, n'⟩, room, theirRoom⟩
        ⟨⟨f + 1, w, n⟩, ⟨f' + 1, w', n'⟩, room, theirRoom⟩
  | wake (allowed : spurious) (f w n room theirRoom : Nat) (theirs : Side) :
      Acts spurious ⟨⟨f, w + 1, n⟩, theirs, room, theirRoom⟩
        ⟨⟨f + 1, w, n⟩, theirs, room, theirRoom⟩

def Move (spurious : Prop) (tally next : Tally) : Prop :=
  Acts spurious tally next ∨ Acts spurious tally.swap next.swap

inductive Woken : Tally → Tally → Prop
  | mine (f w n room theirRoom : Nat) (theirs : Side) :
      Woken ⟨⟨f, w + 1, n⟩, theirs, room, theirRoom⟩ ⟨⟨f + 1, w, n⟩, theirs, room, theirRoom⟩
  | theirs (f w n room theirRoom : Nat) (mine : Side) :
      Woken ⟨mine, ⟨f, w + 1, n⟩, room, theirRoom⟩ ⟨mine, ⟨f + 1, w, n⟩, room, theirRoom⟩

def Notified (tally next : Tally) : Prop :=
  Woken tally next ∨ (next = tally ∧ tally.mine.waiting = 0 ∧ tally.theirs.waiting = 0)

abbrev Reaches (spurious : Prop) : Tally → Tally → Prop :=
  Relation.ReflTransGen (Move spurious)

/-- No thread is left to take a step, and one of them waits although it has room. -/
def Stranded (tally : Tally) : Prop :=
  (tally.mine.free = 0 ∧ tally.mine.notifying = 0 ∧
    tally.theirs.free = 0 ∧ tally.theirs.notifying = 0) ∧
  ((0 < tally.room ∧ 0 < tally.mine.waiting) ∨ (0 < tally.theirRoom ∧ 0 < tally.theirs.waiting))

def start (mine theirs room : Nat) : Tally :=
  ⟨⟨mine, 0, 0⟩, ⟨theirs, 0, 0⟩, room, 0⟩

variable {spurious : Prop} {tally next : Tally}

theorem Move.swap (move : Move spurious tally next) : Move spurious tally.swap next.swap :=
  Or.symm move

theorem Woken.swap (woken : Woken tally next) : Woken tally.swap next.swap := by
  cases woken with
  | mine f w n room theirRoom theirs => exact .theirs f w n theirRoom room theirs
  | theirs f w n room theirRoom mine => exact .mine f w n theirRoom room mine

theorem Woken.move_of_spurious (allowed : spurious) (woken : Woken tally next) :
    Move spurious tally next := by
  cases woken with
  | mine f w n room theirRoom theirs => exact Or.inl (.wake allowed f w n room theirRoom theirs)
  | theirs f w n room theirRoom mine => exact Or.inr (.wake allowed f w n theirRoom room mine)

theorem Notified.swap (notified : Notified tally next) : Notified tally.swap next.swap := by
  rcases notified with woken | ⟨rfl, no_mine, no_theirs⟩
  · exact Or.inl woken.swap
  · exact Or.inr ⟨rfl, no_theirs, no_mine⟩

theorem Notified.move {f w n room theirRoom : Nat} {theirs : Side}
    (notified : Notified ⟨⟨f + 1, w, n⟩, theirs, room, theirRoom⟩ next) :
    Move spurious ⟨⟨f, w, n + 1⟩, theirs, room, theirRoom⟩ next := by
  rcases notified with woken | ⟨rfl, no_mine, no_theirs⟩
  · cases woken with
    | mine => exact Or.inl (.wakeMine f _ n room theirRoom theirs)
    | theirs => exact Or.inl (.wakeTheirs f w n _ _ _ room theirRoom)
  · obtain ⟨f', w', n'⟩ := theirs
    obtain rfl : w = 0 := no_mine
    obtain rfl : w' = 0 := no_theirs
    exact Or.inl (.wakeNobody f n f' n' room theirRoom)

theorem Reaches.swap (reaches : Reaches spurious tally next) :
    Reaches spurious tally.swap next.swap := by
  induction reaches with
  | refl => exact .refl
  | tail _earlier move ih => exact ih.tail move.swap

theorem stranded_swap : Stranded tally.swap ↔ Stranded tally := by
  unfold Stranded Tally.swap
  constructor
  · rintro ⟨⟨h1, h2, h3, h4⟩, rest⟩
    exact ⟨⟨h3, h4, h1, h2⟩, rest.symm⟩
  · rintro ⟨⟨h1, h2, h3, h4⟩, rest⟩
    exact ⟨⟨h3, h4, h1, h2⟩, rest.symm⟩

/-- What no move changes: the numbers of threads and the whole room. -/
structure Sized (mine theirs room : Nat) (tally : Tally) : Prop where
  mine : tally.mine.total = mine
  theirs : tally.theirs.total = theirs
  room : tally.room + tally.theirRoom = room

private theorem sized_start (mine theirs room : Nat) :
    Sized mine theirs room (start mine theirs room) :=
  ⟨rfl, rfl, rfl⟩

variable {mine theirs room : Nat}

theorem Sized.swap (sized : Sized mine theirs room tally) :
    Sized theirs mine room tally.swap :=
  ⟨sized.theirs, sized.mine, (Nat.add_comm _ _).trans sized.room⟩

theorem Sized.acts (sized : Sized mine theirs room tally) (acts : Acts spurious tally next) :
    Sized mine theirs room next := by
  obtain ⟨hmine, htheirs, hroom⟩ := sized
  cases acts <;> simp only [Side.total] at hmine htheirs hroom <;>
    constructor <;> simp only [Side.total] <;> omega

theorem Sized.move (sized : Sized mine theirs room tally) (move : Move spurious tally next) :
    Sized mine theirs room next := by
  rcases move with acts | acts
  · exact sized.acts acts
  · exact (sized.swap.acts acts).swap

/-! ### Few threads -/

/-- The invariant that keeps a thread of `mine` from waiting.  Its cases: fewer
threads than room in all, enough wake-ups on their way when all of `theirs` wait,
and as many of them as threads of `mine` when there is no room. -/
structure Lively (tally : Tally) : Prop where
  awake : 0 < tally.mine.free + tally.mine.notifying
  few : tally.mine.total + tally.mine.waiting ≤ tally.room + tally.theirRoom
  asleep : tally.theirs.free + tally.theirs.notifying = 0 →
    tally.mine.total + tally.mine.waiting + tally.theirRoom ≤
      tally.room + tally.theirRoom + tally.mine.notifying
  turn : tally.theirs.total + tally.theirs.waiting ≤ tally.room + tally.theirRoom ∨
    tally.mine.waiting + tally.theirs.waiting + tally.theirRoom +
        (tally.mine.total + tally.theirs.total) ≤
      2 * (tally.room + tally.theirRoom) + 1 + tally.mine.notifying
  full : tally.room = 0 → tally.mine.notifying = tally.mine.total

theorem Lively.acts_swap (lively : Lively tally.swap) (acts : Acts spurious tally next)
    (some_theirs : 0 < tally.theirs.total)
    (few : tally.mine.total + tally.theirs.total ≤ tally.room + tally.theirRoom + 1) :
    Lively next.swap := by
  obtain ⟨h1, h2, h3, h4, h5⟩ := lively
  cases acts <;> simp only [Side.total, Tally.swap] at * <;>
    constructor <;> simp only [Side.total] <;> omega

/-- A step of `mine` keeps it, or the two kinds change their parts: this is so
when it has used up the room before all threads of `mine` had a wake-up to send. -/
theorem Lively.acts (lively : Lively tally) (acts : Acts spurious tally next)
    (some_theirs : 0 < tally.theirs.total)
    (few : tally.mine.total + tally.theirs.total ≤ tally.room + tally.theirRoom + 1) :
    Lively next ∨ Lively next.swap := by
  obtain ⟨h1, h2, h3, h4, h5⟩ := lively
  by_cases turned : next.room = 0 ∧ next.mine.notifying < next.mine.total
  · right
    cases acts <;> simp only [Side.total, Tally.swap, true_imp_iff, true_and] at * <;>
      constructor <;> simp only [Side.total] <;> omega
  · left
    cases acts <;> simp only [Side.total, true_imp_iff, true_and] at * <;>
      constructor <;> simp only [Side.total] <;> omega

theorem Lively.not_stranded (lively : Lively tally) : ¬ Stranded tally := by
  intro stranded
  have awake := lively.awake
  have asleep := stranded.1
  omega

private theorem lively_start (some_theirs : 0 < theirs) (some_room : 0 < room)
    (few : mine + theirs ≤ room + 1) (some_mine : 0 < mine) :
    Lively (start mine theirs room) := by
  constructor <;> simp only [start, Side.total] <;> omega

theorem Lively.move (lively : Lively tally ∨ Lively tally.swap)
    (sized : Sized mine theirs room tally) (some_mine : 0 < mine) (some_theirs : 0 < theirs)
    (few : mine + theirs ≤ room + 1) (move : Move spurious tally next) :
    Lively next ∨ Lively next.swap := by
  obtain ⟨rfl, rfl, rfl⟩ := sized
  have few' : tally.swap.mine.total + tally.swap.theirs.total ≤
      tally.swap.room + tally.swap.theirRoom + 1 := by
    simp only [Tally.swap]
    omega
  rcases lively with lively | lively
  · rcases move with acts | acts
    · exact lively.acts acts some_theirs few
    · have twice : Lively tally.swap.swap := lively
      exact Or.inl (twice.acts_swap acts some_mine few')
  · rcases move with acts | acts
    · exact Or.inr (lively.acts_swap acts some_theirs few)
    · exact (lively.acts acts some_mine few').symm

/-- Threads of one kind alone wait only where they have no room. -/
structure Alone (tally : Tally) : Prop where
  none : tally.mine.total = 0
  waits : 0 < tally.theirs.waiting → tally.theirRoom = 0

theorem Alone.acts_swap (alone : Alone tally.swap) (acts : Acts spurious tally next) :
    Alone next.swap := by
  obtain ⟨none, waits⟩ := alone
  cases acts <;> simp only [Side.total, Tally.swap] at none waits <;>
    constructor <;> simp only [Side.total, Tally.swap, implies_true] <;> omega

theorem Alone.move (alone : Alone tally) (move : Move spurious tally next) : Alone next := by
  rcases move with acts | acts
  · have none := alone.none
    cases acts <;> simp only [Side.total] at none <;> omega
  · have twice : Alone tally.swap.swap := alone
    exact twice.acts_swap acts

theorem Alone.not_stranded (alone : Alone tally) : ¬ Stranded tally := by
  intro stranded
  have none := alone.none
  have waits := alone.waits
  unfold Side.total at none
  have rest := stranded.2
  omega

/-- With threads of one kind only, or no more than one thread over the room,
there is always a thread that can go on. -/
theorem not_stranded_of_few (some_room : 0 < room)
    (few : mine = 0 ∨ theirs = 0 ∨ mine + theirs ≤ room + 1)
    (reaches : Reaches spurious (start mine theirs room) tally) : ¬ Stranded tally := by
  by_cases no_mine : mine = 0
  · have alone : Alone tally := by
      induction reaches with
      | refl => exact ⟨no_mine, fun waits => rfl⟩
      | tail _earlier move ih => exact ih.move move
    exact alone.not_stranded
  by_cases no_theirs : theirs = 0
  · have alone : Alone tally.swap := by
      induction reaches with
      | refl => exact ⟨no_theirs, fun waits => absurd waits (Nat.lt_irrefl 0)⟩
      | tail _earlier move ih => exact ih.move move.swap
    exact fun stranded => alone.not_stranded (stranded_swap.mpr stranded)
  have few' : mine + theirs ≤ room + 1 := by omega
  have both : Sized mine theirs room tally ∧ (Lively tally ∨ Lively tally.swap) := by
    induction reaches with
    | refl =>
        exact ⟨sized_start mine theirs room, Or.inl (lively_start (Nat.pos_of_ne_zero no_theirs)
          some_room few' (Nat.pos_of_ne_zero no_mine))⟩
    | tail _earlier move ih =>
        exact ⟨ih.1.move move, Lively.move ih.2 ih.1 (Nat.pos_of_ne_zero no_mine)
          (Nat.pos_of_ne_zero no_theirs) few' move⟩
  rcases both.2 with lively | lively
  · exact lively.not_stranded
  · exact fun stranded => lively.not_stranded (stranded_swap.mpr stranded)

/-! ### Many threads -/

section schedule

variable (spurious)

theorem reaches_wait (k f w n theirRoom : Nat) (theirs : Side) :
    Reaches spurious ⟨⟨f + k, w, n⟩, theirs, 0, theirRoom⟩
      ⟨⟨f, w + k, n⟩, theirs, 0, theirRoom⟩ := by
  induction k generalizing w with
  | zero => exact .refl
  | succ k ih =>
      have rest := ih (w + 1)
      rw [show w + 1 + k = w + (k + 1) by omega] at rest
      exact .head (Or.inl (.wait (f + k) w n theirRoom theirs)) rest

private theorem reaches_operate (k f w n room theirRoom : Nat) (theirs : Side) :
    Reaches spurious ⟨⟨f + k, w, n⟩, theirs, room + k, theirRoom⟩
      ⟨⟨f, w, n + k⟩, theirs, room, theirRoom + k⟩ := by
  induction k generalizing n theirRoom with
  | zero => exact .refl
  | succ k ih =>
      have rest := ih (n + 1) (theirRoom + 1)
      rw [show n + 1 + k = n + (k + 1) by omega,
        show theirRoom + 1 + k = theirRoom + (k + 1) by omega] at rest
      exact .head (Or.inl (.operate (f + k) w n (room + k) theirRoom theirs)) rest

private theorem reaches_wake_theirs (k f w f' w' room theirRoom : Nat) :
    Reaches spurious ⟨⟨f + 1, w, 0⟩, ⟨f', w' + k, 0⟩, room + k, theirRoom⟩
      ⟨⟨f + 1, w, 0⟩, ⟨f' + k, w', 0⟩, room, theirRoom + k⟩ := by
  induction k generalizing f' theirRoom with
  | zero => exact .refl
  | succ k ih =>
      have rest := ih (f' + 1) (theirRoom + 1)
      rw [show f' + 1 + k = f' + (k + 1) by omega,
        show theirRoom + 1 + k = theirRoom + (k + 1) by omega] at rest
      have operated : Move spurious
          ⟨⟨f + 1, w, 0⟩, ⟨f', w' + k + 1, 0⟩, room + k + 1, theirRoom⟩
          ⟨⟨f, w, 1⟩, ⟨f', w' + k + 1, 0⟩, room + k, theirRoom + 1⟩ :=
        Or.inl (.operate f w 0 (room + k) theirRoom ⟨f', w' + k + 1, 0⟩)
      have woken : Move spurious
          ⟨⟨f, w, 1⟩, ⟨f', w' + k + 1, 0⟩, room + k, theirRoom + 1⟩
          ⟨⟨f + 1, w, 0⟩, ⟨f' + 1, w' + k, 0⟩, room + k, theirRoom + 1⟩ :=
        Or.inl (.wakeTheirs f w 0 f' (w' + k) 0 (room + k) (theirRoom + 1))
      exact .head operated (.head woken rest)

private theorem reaches_wake_mine (k f w room theirRoom : Nat) (theirs : Side) :
    Reaches spurious ⟨⟨f + 1, w + k, 0⟩, theirs, room + k, theirRoom⟩
      ⟨⟨f + 1 + k, w, 0⟩, theirs, room, theirRoom + k⟩ := by
  induction k generalizing f theirRoom with
  | zero => exact .refl
  | succ k ih =>
      have rest := ih (f + 1) (theirRoom + 1)
      rw [show f + 1 + 1 + k = f + 1 + (k + 1) by omega,
        show theirRoom + 1 + k = theirRoom + (k + 1) by omega] at rest
      have operated : Move spurious ⟨⟨f + 1, w + k + 1, 0⟩, theirs, room + k + 1, theirRoom⟩
          ⟨⟨f, w + k + 1, 1⟩, theirs, room + k, theirRoom + 1⟩ :=
        Or.inl (.operate f (w + k + 1) 0 (room + k) theirRoom theirs)
      have woken : Move spurious ⟨⟨f, w + k + 1, 1⟩, theirs, room + k, theirRoom + 1⟩
          ⟨⟨f + 2, w + k, 0⟩, theirs, room + k, theirRoom + 1⟩ :=
        Or.inl (.wakeMine f (w + k) 0 (room + k) (theirRoom + 1) theirs)
      exact .head operated (.head woken rest)

/-- Without room a wake-up that goes to the same kind is lost: both threads wait again. -/
theorem reaches_wait_again (k w theirRoom : Nat) (theirs : Side) :
    Reaches spurious ⟨⟨0, w + 1, k⟩, theirs, 0, theirRoom⟩
      ⟨⟨0, w + 1 + k, 0⟩, theirs, 0, theirRoom⟩ := by
  induction k generalizing w with
  | zero => exact .refl
  | succ k ih =>
      have rest := ih (w + 1)
      rw [show w + 1 + 1 + k = w + 1 + (k + 1) by omega] at rest
      have woken : Move spurious ⟨⟨0, w + 1, k + 1⟩, theirs, 0, theirRoom⟩
          ⟨⟨0 + 2, w, k⟩, theirs, 0, theirRoom⟩ :=
        Or.inl (.wakeMine 0 w k 0 theirRoom theirs)
      exact .head woken ((reaches_wait spurious 2 0 w k theirRoom theirs).trans rest)

/-- A round from all of `theirs` waiting to all of `mine` waiting.  The room is used
up in three parts: `x` wake-ups reach the other kind, `a` reach waiters of the
same kind, and `z` are held back until there is no room. -/
theorem reaches_round (f w a z x c : Nat) (enough : z ≤ f + a) :
    Reaches spurious ⟨⟨f + 1, w + a, 0⟩, ⟨0, c + x, 0⟩, z + a + x, 0⟩
      ⟨⟨0, w + a + (f + 1), 0⟩, ⟨x, c, 0⟩, 0, z + a + x⟩ := by
  obtain ⟨g, spare⟩ : ∃ g, f + 1 + a = g + 1 + z := ⟨f + a - z, by omega⟩
  have first := reaches_wake_theirs spurious x f (w + a) 0 c (z + a) 0
  have second := reaches_wake_mine spurious a f w z (0 + x) ⟨0 + x, c, 0⟩
  have third := reaches_operate spurious z (g + 1) w 0 0 (0 + x + a) ⟨0 + x, c, 0⟩
  have fourth := reaches_wait spurious (g + 1) 0 w (0 + z) (0 + x + a + z) ⟨0 + x, c, 0⟩
  have fifth := reaches_wait_again spurious z (w + g) (0 + x + a + z) ⟨0 + x, c, 0⟩
  rw [← spare, Nat.zero_add z] at third
  rw [Nat.zero_add (g + 1), Nat.zero_add z, ← Nat.add_assoc w g 1] at fourth
  have all := first.trans (second.trans (third.trans (fourth.trans fifth)))
  rw [show w + g + 1 + z = w + a + (f + 1) by omega, show 0 + x + a + z = z + a + x by omega,
    show 0 + x = x by omega] at all
  exact all

/-- From round to round more threads wait, until all of them do. -/
theorem strands_of_waiting (f w c : Nat) (some_room : 0 < room) (some_theirs : 0 < c)
    (many : room + 2 ≤ f + 1 + w + c) :
    ∃ tally, Reaches spurious ⟨⟨f + 1, w, 0⟩, ⟨0, c, 0⟩, room, 0⟩ tally ∧ Stranded tally := by
  induction measure : f + 1 + c using Nat.strongRecOn generalizing f w c with
  | ind size ih =>
      obtain ⟨a, w', x, z, rfl, rfl, enough, fewer⟩ : ∃ a w' x z, w = w' + a ∧
          room = z + a + x ∧ z ≤ f + a ∧ (x = 0 ∨ x + w' + a < c) := by
        by_cases short : room ≤ w
        · exact ⟨room, w - room, 0, 0, by omega, by omega, by omega, Or.inl rfl⟩
        by_cases middle : room ≤ w + (f + w)
        · exact ⟨w, 0, 0, room - w, by omega, by omega, by omega, Or.inl rfl⟩
        · exact ⟨w, 0, room - w - (f + w), f + w, by omega, by omega, by omega,
            Or.inr (by omega)⟩
      obtain ⟨c', rfl⟩ : ∃ c', c = c' + x := ⟨c - x, by omega⟩
      have round := reaches_round spurious f w' a z x c' enough
      cases x with
      | zero =>
          refine ⟨_, round, ⟨rfl, rfl, rfl, rfl⟩, Or.inr ⟨some_room, ?_⟩⟩
          exact some_theirs
      | succ x =>
          obtain ⟨tally, reached, stranded⟩ := ih (x + 1 + (w' + a + (f + 1))) (by omega)
            x c' (w' + a + (f + 1)) (by omega) (by omega) rfl
          exact ⟨tally.swap, round.trans reached.swap, stranded_swap.mpr stranded⟩

private theorem strands_of_many (some_room : 0 < room) (some_mine : 0 < mine)
    (some_theirs : 0 < theirs)
    (many : room + 2 ≤ mine + theirs) :
    ∃ tally, Reaches spurious (start mine theirs room) tally ∧ Stranded tally := by
  obtain ⟨f, rfl⟩ : ∃ f, mine = f + 1 := ⟨mine - 1, by omega⟩
  have waits := (reaches_wait spurious theirs 0 0 0 room ⟨f + 1, 0, 0⟩).swap
  rw [Nat.zero_add] at waits
  obtain ⟨tally, reached, stranded⟩ := strands_of_waiting spurious f 0 theirs some_room some_theirs
    (by omega)
  exact ⟨tally, waits.trans reached, stranded⟩

/-- Threads can be stranded exactly if there are both kinds and at least two
threads more than room. -/
theorem strands_iff (some_room : 0 < room) :
    (∃ tally, Reaches spurious (start mine theirs room) tally ∧ Stranded tally) ↔
      0 < mine ∧ 0 < theirs ∧ room + 2 ≤ mine + theirs := by
  constructor
  · rintro ⟨tally, reaches, stranded⟩
    by_contra few
    exact not_stranded_of_few some_room (by omega) reaches stranded
  · rintro ⟨some_mine, some_theirs, many⟩
    exact strands_of_many spurious some_room some_mine some_theirs many

end schedule

end ConditionVariable
