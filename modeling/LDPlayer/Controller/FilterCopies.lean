/-
The ways of duplicating a filter: Set, Copy and the copy constructor.

Set and Copy run Init on an object that may have read a weight file before, and
whose stream is then still open.  The copy constructor sets up a second object
and drops it.
-/
import LDPlayer.Controller.Filter
import LDPlayer.Message

set_option autoImplicit false

namespace LDPlayer

open Text

namespace Filter

def new (files : Files) (input : Bytes) (num : Int) : Filter :=
  Init files { num_clients := num, filter_input := input }

def Copy (files : Files) (t f : Filter) : Filter :=
  Init files
    { t with
      num_clients := f.GetNumClients
      filter_input := f.GetFilterInput
      total_weight := 0 }

/-- The copy constructor.  The filter that it sets up is a temporary object; its own
two numbers keep whatever the memory holds, and its own vectors stay empty. -/
def copied (files : Files) (num_clients total_weight : Int) (f : Filter) : Filter :=
  let _temporary := new files f.GetFilterInput f.GetNumClients
  { num_clients := num_clients, total_weight := total_weight }

/-- `GetClientIndex` on a vector that may be shorter than the table should be. -/
def client_index_at (f : Filter) (i : Int) : Except Fault Int :=
  if i < 0 ∨ i ≥ kFilterTotalWeight then .ok (-1)
  else
    match f.client_index[i.toNat]? with
    | none => .error .outOfBounds
    | some client => .ok client

structure Agree (t f : Filter) : Prop where
  clients : t.GetNumClients = f.GetNumClients
  valid : t.Valid = f.Valid
  weights : ∀ i, t.GetWeight i = f.GetWeight i
  indexes : ∀ j, t.client_index_at j = f.client_index_at j

theorem Agree.refl (f : Filter) : f.Agree f := ⟨rfl, rfl, fun _i => rfl, fun _j => rfl⟩

theorem Agree.symm {t f : Filter} (agree : t.Agree f) : f.Agree t :=
  ⟨agree.clients.symm, agree.valid.symm, fun i => (agree.weights i).symm,
    fun j => (agree.indexes j).symm⟩

private theorem client_index_at_full {f : Filter}
    (full : f.client_index.length = kFilterTotalWeight)
    (j : Int) : f.client_index_at j = .ok (f.GetClientIndex j) := by
  unfold client_index_at GetClientIndex
  split
  · rfl
  · have within : j.toNat < f.client_index.length := by omega
    rw [List.getElem?_eq_getElem within, List.getD_eq_getElem _ _ within]

section setUp

variable {files : Files} {input : Bytes} {n : Nat}

private theorem Copy_eq_setUp (t f : Filter) :
    Copy files t f = setUp files f.filter_input f.num_clients t.ifs_open := rfl

private theorem new_eq_setUp (num : Int) : new files input num = setUp files input num false := rfl

private theorem setUp_open (nonempty : input ≠ []) :
    (setUp files input n true).weight = List.replicate n (-1) := by
  unfold setUp Init GetWeightByFile
  simp only [if_neg nonempty, if_true]
  rfl

private theorem not_valid_of_unset {f : Filter} (unset : -1 ∈ f.weight) : f.Valid = false := by
  unfold Valid ValidateWeight
  rw [Bool.and_eq_false_iff]
  left
  rw [List.all_eq_false]
  exact ⟨-1, unset, by simp⟩

private theorem GetWeight_eq {f : Filter} {i : Nat} (within : i < f.weight.length) :
    f.GetWeight i = f.weight[i] := by
  unfold GetWeight
  rw [if_neg (by omega), Int.toNat_natCast, List.getD_eq_getElem _ _ within]

private theorem setUp_full (nonempty : input ≠ []) (ifs_open : Bool) :
    (setUp files input n ifs_open).client_index.length = kFilterTotalWeight := by
  obtain ⟨_clients, _input, _length, filled, _open⟩ := setUp_cases files n nonempty ifs_open
  rw [filled, fillSlots_length, List.length_replicate]

private theorem agree_of_unset (positive : 0 < n) (nonempty : input ≠ []) {left right : Bool}
    (unset : (setUp files input n left).weight = List.replicate n (-1))
    (same : (setUp files input n right).weight = List.replicate n (-1)) :
    (setUp files input n left).Agree (setUp files input n right) := by
  obtain ⟨clients, _, _, filled, _⟩ := setUp_cases files n nonempty left
  obtain ⟨clients', _, _, filled', _⟩ := setUp_cases files n nonempty right
  have member : (-1 : Int) ∈ List.replicate n (-1) :=
    List.mem_replicate.mpr ⟨positive.ne', rfl⟩
  refine ⟨clients.trans clients'.symm, ?_, ?_, ?_⟩
  · rw [not_valid_of_unset (by rw [unset]; exact member),
      not_valid_of_unset (by rw [same]; exact member)]
  · intro i
    unfold GetWeight
    rw [unset, same]
  · intro j
    unfold client_index_at
    rw [filled, filled', unset, same]

/-- Set-ups agree exactly when both begin with the stream as it was, or there is
nothing to read but weights that are not set. -/
theorem setUp_agree_iff (positive : 0 < n) (nonempty : input ≠ []) (left right : Bool) :
    (setUp files input n left).Agree (setUp files input n right) ↔
      left = right ∨ ∀ w ∈ (new files input n).weight, w = -1 := by
  have length := (setUp_cases files n nonempty false).2.2.1
  have read_none : (∀ w ∈ (new files input n).weight, w = -1) ↔
      (setUp files input n false).weight = List.replicate n (-1) := by
    rw [← new_eq_setUp] at length ⊢
    rw [List.eq_replicate_iff, and_iff_right length]
  -- a filter that read weights agrees with none that read nothing
  have unset (agree : (setUp files input n true).Agree (setUp files input n false)) :
      ∀ w ∈ (new files input n).weight, w = -1 := by
    intro w member
    rw [new_eq_setUp] at member
    obtain ⟨i, within, rfl⟩ := List.getElem_of_mem member
    have open_weight : (setUp files input n true).GetWeight i = -1 := by
      have count : i < (setUp files input n true).weight.length := by
        rw [setUp_open nonempty, List.length_replicate, ← length]
        exact within
      rw [GetWeight_eq count]
      simp only [setUp_open nonempty, List.getElem_replicate]
    rw [← GetWeight_eq within, ← agree.weights i, open_weight]
  constructor
  · intro agree
    cases left with
    | false =>
        cases right with
        | false => exact Or.inl rfl
        | true => exact Or.inr (unset agree.symm)
    | true =>
        cases right with
        | false => exact Or.inr (unset agree)
        | true => exact Or.inl rfl
  · intro either
    rcases either with rfl | none
    · exact Agree.refl _
    · have each (ifs_open : Bool) :
          (setUp files input n ifs_open).weight = List.replicate n (-1) := by
        cases ifs_open with
        | false => exact read_none.mp none
        | true => exact setUp_open nonempty
      exact agree_of_unset positive nonempty (each left) (each right)

end setUp

/-- Duplicating a filter that was set up, whatever the states before were.

Set and Copy agree with the filter exactly when its stream and that of the target
were both closed or both open, or the input sets no weight.  So repeating them
changes nothing exactly when the input is no file, or the stream was open from
the start, or the input sets no weight.  The copy constructor never agrees. -/
theorem copies_agree_iff (files : Files) (input : Bytes) (n : Nat) (positive : 0 < n)
    (nonempty : input ≠ []) (g f t : Filter) (set_up : f = Set files g input n) :
    (Agree (Set files t f.GetFilterInput f.GetNumClients) f ↔
      t.ifs_open = g.ifs_open ∨ ∀ w ∈ (new files input n).weight, w = -1) ∧
    (Agree (Copy files t f) f ↔
      t.ifs_open = g.ifs_open ∨ ∀ w ∈ (new files input n).weight, w = -1) ∧
    (∀ num_clients total_weight, ¬ Agree (copied files num_clients total_weight f) f) ∧
    (Agree (Set files f f.GetFilterInput f.GetNumClients) f ↔
      (g.ifs_open = true ∨ files input = none) ∨ ∀ w ∈ (new files input n).weight, w = -1) ∧
    (Agree (Copy files f f) f ↔
      (g.ifs_open = true ∨ files input = none) ∨ ∀ w ∈ (new files input n).weight, w = -1) := by
  rw [Set_eq_setUp positive nonempty] at set_up
  obtain ⟨clients, text, _length, _filled, opened⟩ :=
    setUp_cases files n nonempty g.ifs_open
  rw [← set_up] at clients text opened
  have again (target : Filter) : Set files target f.GetFilterInput f.GetNumClients =
      setUp files input n target.ifs_open := by
    unfold GetFilterInput GetNumClients
    rw [text, clients]
    exact Set_eq_setUp positive nonempty target
  have copy (target : Filter) : Copy files target f = setUp files input n target.ifs_open := by
    rw [Copy_eq_setUp, text, clients]
  have repeats : f.ifs_open = g.ifs_open ↔ g.ifs_open = true ∨ files input = none := by
    rw [opened]
    cases g.ifs_open with
    | false =>
        rw [Bool.false_or, Option.isSome_eq_false_iff, Option.isNone_iff_eq_none]
        simp
    | true => simp
  refine ⟨?_, ?_, ?_, ?_, ?_⟩
  · rw [again t]
    nth_rewrite 1 [set_up]
    exact setUp_agree_iff positive nonempty _ _
  · rw [copy t]
    nth_rewrite 1 [set_up]
    exact setUp_agree_iff positive nonempty _ _
  · intro num_clients total_weight agree
    have full : f.client_index.length = kFilterTotalWeight := by
      rw [set_up]
      exact setUp_full nonempty _
    have read := agree.indexes 0
    rw [client_index_at_full full] at read
    cases read
  · rw [again f, ← repeats]
    nth_rewrite 2 [set_up]
    exact setUp_agree_iff positive nonempty _ _
  · rw [copy f, ← repeats]
    nth_rewrite 2 [set_up]
    exact setUp_agree_iff positive nonempty _ _

def two_weights : Files := fun name =>
  if name = ascii "weights" then some [ascii "40", ascii "60"] else none

/-- A filter read from a file, over one that a string had set up for three clients. -/
theorem copies_agree_string :
    (Set two_weights {} (ascii "30,30,40") 3).GetNumClients = 3 ∧
      Agree (Set two_weights (Set two_weights {} (ascii "30,30,40") 3) (ascii "weights") 2)
        (Set two_weights {} (ascii "weights") 2) ∧
      Agree (Copy two_weights (Set two_weights {} (ascii "30,30,40") 3)
          (Set two_weights {} (ascii "weights") 2))
        (Set two_weights {} (ascii "weights") 2) := by
  have agree := copies_agree_iff two_weights (ascii "weights") 2 (by decide) (by decide) {}
    (Set two_weights {} (ascii "weights") 2) (Set two_weights {} (ascii "30,30,40") 3) rfl
  have closed : (Set two_weights {} (ascii "30,30,40") 3).ifs_open = false := by decide +kernel
  exact ⟨by decide +kernel, agree.1.mpr (Or.inl closed), agree.2.1.mpr (Or.inl closed)⟩

/-- A filter that is set up from a file again loses its weights, and its copy has no
table. -/
theorem repeated_set_loses_weights :
    ¬ Agree (Set two_weights (Set two_weights {} (ascii "weights") 2) (ascii "weights") 2)
        (Set two_weights {} (ascii "weights") 2) ∧
      ¬ Agree (copied two_weights 2 100 (Set two_weights {} (ascii "weights") 2))
        (Set two_weights {} (ascii "weights") 2) := by
  constructor
  · intro agree
    have valid : (Set two_weights (Set two_weights {} (ascii "weights") 2)
        (ascii "weights") 2).Valid ≠ (Set two_weights {} (ascii "weights") 2).Valid := by
      decide +kernel
    exact valid agree.valid
  · intro agree
    have read : (copied two_weights 2 100
        (Set two_weights {} (ascii "weights") 2)).client_index_at 0 ≠
          (Set two_weights {} (ascii "weights") 2).client_index_at 0 := by
      decide +kernel
    exact read (agree.indexes 0)

end Filter

end LDPlayer
