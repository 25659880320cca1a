/-
Handles with a lifetime.

The history of a program lists what it does to its handles, oldest first.  A
handle is live from its creation until it is freed, and every use and every
freeing has to find it live.
-/
import Mathlib

set_option autoImplicit false

namespace Handles

inductive Op (Handle : Type) where
  | create (handle : Handle)
  | use (handle : Handle)
  | free (handle : Handle)
  deriving DecidableEq, Repr

section lifetimes

variable {Handle : Type}

def Live (history : List (Op Handle)) (handle : Handle) : Prop :=
  .create handle ∈ history ∧ .free handle ∉ history

instance [DecidableEq Handle] (history : List (Op Handle)) (handle : Handle) :
    Decidable (Live history handle) :=
  inferInstanceAs (Decidable (_ ∧ _))

def Op.Allowed (history : List (Op Handle)) : Op Handle → Prop
  | .create _ => True
  | .use handle => Live history handle
  | .free handle => Live history handle

def Allows : List (Op Handle) → List (Op Handle) → Prop
  | _, [] => True
  | history, op :: rest => op.Allowed history ∧ Allows (history ++ [op]) rest

/-- No handle is freed twice, and none is used or freed that is not live. -/
structure ReleasedOnce [DecidableEq Handle] (history : List (Op Handle)) : Prop where
  once : ∀ handle, history.count (.free handle) ≤ 1
  used : ∀ front handle rest, history = front ++ .use handle :: rest → Live front handle
  freed : ∀ front handle rest, history = front ++ .free handle :: rest → Live front handle

/-! ### Liveness -/

theorem live_append {history ops : List (Op Handle)} {handle : Handle} :
    Live (history ++ ops) handle ↔
      (.create handle ∈ history ∨ .create handle ∈ ops) ∧
        .free handle ∉ history ∧ .free handle ∉ ops := by
  unfold Live
  rw [List.mem_append, List.mem_append, not_or]

theorem Live.append {history ops : List (Op Handle)} {handle : Handle} (live : Live history handle)
    (kept : .free handle ∉ ops) : Live (history ++ ops) handle :=
  live_append.mpr ⟨Or.inl live.1, live.2, kept⟩

theorem live_append_use {history : List (Op Handle)} {used : List Handle} {handle : Handle} :
    Live (history ++ used.map .use) handle ↔ Live history handle := by
  rw [live_append]
  unfold Live
  simp

theorem live_append_free {history : List (Op Handle)} {freed : List Handle} {handle : Handle} :
    Live (history ++ freed.map .free) handle ↔ Live history handle ∧ handle ∉ freed := by
  rw [live_append]
  unfold Live
  simp [and_assoc]

/-! ### What is allowed -/

theorem allows_create {history : List (Op Handle)} (created : List Handle) :
    Allows history (created.map .create) := by
  induction created generalizing history with
  | nil => trivial
  | cons handle rest ih => exact ⟨trivial, ih⟩

theorem allows_use {history : List (Op Handle)} {used : List Handle} :
    Allows history (used.map .use) ↔ ∀ handle ∈ used, Live history handle := by
  induction used generalizing history with
  | nil => simp [Allows]
  | cons handle rest ih =>
      rw [List.map_cons, Allows, ih, List.forall_mem_cons]
      apply and_congr_right
      intro _first
      apply forall₂_congr
      intro other _member
      have used : Live (history ++ [handle].map .use) other ↔ Live history other := live_append_use
      exact used

/-- A list of handles may be freed if it repeats none and all are live. -/
theorem allows_free {history : List (Op Handle)} {freed : List Handle} :
    Allows history (freed.map .free) ↔ freed.Nodup ∧ ∀ handle ∈ freed, Live history handle := by
  induction freed generalizing history with
  | nil => simp [Allows]
  | cons handle rest ih =>
      have later : ∀ other, Live (history ++ [.free handle]) other ↔
          Live history other ∧ other ≠ handle := by
        intro other
        have freed : Live (history ++ [handle].map .free) other ↔
            Live history other ∧ other ∉ [handle] := live_append_free
        rw [List.mem_singleton] at freed
        exact freed
      rw [List.map_cons, Allows, ih, List.forall_mem_cons, List.nodup_cons]
      simp only [later]
      constructor
      · intro all
        obtain ⟨first, distinct, others⟩ := all
        refine ⟨⟨?_, distinct⟩, first, fun other member => (others other member).1⟩
        intro repeated
        exact (others handle repeated).2 rfl
      · intro all
        obtain ⟨⟨once, distinct⟩, first, others⟩ := all
        refine ⟨first, distinct, ?_⟩
        intro other member
        refine ⟨others other member, ?_⟩
        intro same
        rw [same] at member
        exact once member

section histories

variable [DecidableEq Handle]

theorem releasedOnce_nil : ReleasedOnce ([] : List (Op Handle)) where
  once := by intro handle; simp
  used := by intro front handle rest impossible; simp at impossible
  freed := by intro front handle rest impossible; simp at impossible

theorem releasedOnce_concat {history : List (Op Handle)} {op : Op Handle} :
    ReleasedOnce (history ++ [op]) ↔ ReleasedOnce history ∧ op.Allowed history := by
  constructor
  · intro released
    refine ⟨?_, ?_⟩
    · exact
        { once := by
            intro handle
            exact (List.Sublist.count_le _ (List.sublist_append_left history [op])).trans
              (released.once handle)
          used := by
            intro front handle rest same
            apply released.used front handle (rest ++ [op])
            rw [same, List.append_assoc, List.cons_append]
          freed := by
            intro front handle rest same
            apply released.freed front handle (rest ++ [op])
            rw [same, List.append_assoc, List.cons_append] }
    · cases op with
      | create handle => trivial
      | use handle => exact released.used history handle [] rfl
      | free handle => exact released.freed history handle [] rfl
  · intro both
    obtain ⟨released, allowed⟩ := both
    have split : ∀ {front rest : List (Op Handle)} {other : Op Handle},
        history ++ [op] = front ++ other :: rest →
          (front = history ∧ other = op) ∨ ∃ less, history = front ++ other :: less := by
      intro front rest other same
      rcases List.eq_nil_or_concat rest with rfl | ⟨less, last, rfl⟩
      · obtain ⟨fronts, ops⟩ := List.append_inj' same rfl
        exact Or.inl ⟨fronts.symm, (List.cons.inj ops).1.symm⟩
      · rw [List.concat_eq_append, ← List.cons_append, ← List.append_assoc] at same
        exact Or.inr ⟨less, (List.append_inj' same rfl).1⟩
    refine ⟨?_, ?_, ?_⟩
    · intro handle
      rw [List.count_append, List.count_singleton]
      by_cases again : op = .free handle
      · subst again
        rw [List.count_eq_zero_of_not_mem allowed.2]
        simp
      · rw [if_neg (by simpa using again)]
        exact released.once handle
    · intro front handle rest same
      rcases split same with ⟨rfl, rfl⟩ | ⟨less, earlier⟩
      · exact allowed
      · exact released.used front handle less earlier
    · intro front handle rest same
      rcases split same with ⟨rfl, rfl⟩ | ⟨less, earlier⟩
      · exact allowed
      · exact released.freed front handle less earlier

/-- The rule for the operations of a step. -/
theorem releasedOnce_append {history ops : List (Op Handle)} :
    ReleasedOnce (history ++ ops) ↔ ReleasedOnce history ∧ Allows history ops := by
  induction ops generalizing history with
  | nil =>
      rw [List.append_nil]
      exact (and_iff_left trivial).symm
  | cons op rest ih =>
      have longer : history ++ op :: rest = history ++ [op] ++ rest := by
        rw [List.append_assoc, List.singleton_append]
      rw [longer, ih, releasedOnce_concat, Allows, and_assoc]

theorem ReleasedOnce.created {history : List (Op Handle)} (released : ReleasedOnce history)
    {handle : Handle} (freed : .free handle ∈ history) : .create handle ∈ history := by
  obtain ⟨front, rest, rfl⟩ := List.append_of_mem freed
  exact List.mem_append_left _ (released.freed front handle rest rfl).1

theorem ReleasedOnce.live_create {history ops : List (Op Handle)}
    (released : ReleasedOnce history) {handle : Handle} (fresh : .create handle ∉ history)
    (created : .create handle ∈ ops) (kept : .free handle ∉ ops) :
    Live (history ++ ops) handle :=
  live_append.mpr ⟨Or.inr created, fun freed => fresh (released.created freed), kept⟩

end histories

end lifetimes

end Handles
