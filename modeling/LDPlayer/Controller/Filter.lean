/-
The client filter of filter.cc: weights read from a file or a string, and the
table of one hundred slots that a random draw selects a client from.

The file system is a parameter that gives the lines of a file, or nothing when
the file cannot be opened.
-/
import LDPlayer.Utility

set_option autoImplicit false

namespace LDPlayer

def kFilterTotalWeight : Nat := 100

abbrev Files : Type := Bytes → Option (List Bytes)

structure Filter where
  num_clients : Int := 0
  total_weight : Int := 0
  filter_input : Bytes := []
  ifs_open : Bool := false
  weight : List Int := []
  client_index : List Int := []
  deriving DecidableEq, Repr

namespace Filter

def GetNumClients (f : Filter) : Int := f.num_clients

def GetFilterInput (f : Filter) : Bytes := f.filter_input

def GetWeight (f : Filter) (i : Int) : Int :=
  if i < 0 ∨ i ≥ f.weight.length then -1 else f.weight.getD i.toNat 0

def GetClientIndex (f : Filter) (i : Int) : Int :=
  if i < 0 ∨ i ≥ kFilterTotalWeight then -1 else f.client_index.getD i.toNat 0

/-- The body of both readers: item after item into the weights from position
`i` on, until the weights are full or a number cannot be read.  The total is an
`int` and wraps around. -/
def setWeights : List Bytes → Nat → List Int → Int → Bool × List Int × Int
  | [], _, weight, total => (true, weight, total)
  | item :: rest, i, weight, total =>
      if i ≥ weight.length then (true, weight, total)
      else
        match stoi item with
        | none => (false, weight, total)
        | some value => setWeights rest (i + 1) (weight.set i value) ((total + value).bmod (2 ^ 32))

/-- The stream is a member and is not closed after reading.  Opening it again
fails, `is_open` still holds, and nothing is read. -/
def GetWeightByFile (files : Files) (f : Filter) : Bool × Filter :=
  if f.ifs_open then (true, f)
  else
    match files f.filter_input with
    | none => (false, f)
    | some lines =>
        let result := setWeights lines 0 f.weight f.total_weight
        (result.1, { f with ifs_open := true, weight := result.2.1, total_weight := result.2.2 })

def GetWeightByString (f : Filter) : Bool × Filter :=
  if f.filter_input = [] then (false, f)
  else
    let result := setWeights (str_split_at f.filter_input 44 true) 0 f.weight f.total_weight
    (result.1, { f with weight := result.2.1, total_weight := result.2.2 })

/-- The slots from `start` up to the end of each client's share; the bounds are
unsigned 32-bit numbers. -/
def fillSlots : Nat → Nat → List Int → List Int → List Int
  | _, _, [], index => index
  | i, start, weight :: rest, index =>
      let stop := (((start : Int) + weight) % 2 ^ 32).toNat
      fillSlots (i + 1) stop rest
        (index.mapIdx (fun j slot => if start ≤ j ∧ j < stop then (i : Int) else slot))

def Init (files : Files) (f : Filter) : Filter :=
  let cleared :=
    { f with
      weight := List.replicate f.num_clients.toNat (-1)
      client_index := List.replicate kFilterTotalWeight (-1) }
  let read :=
    if cleared.filter_input = [] then cleared
    else
      let byFile := cleared.GetWeightByFile files
      if byFile.1 then byFile.2 else byFile.2.GetWeightByString.2
  { read with client_index := fillSlots 0 0 read.weight read.client_index }

def ValidateWeight (f : Filter) : Bool :=
  f.weight.all (fun w => w ≠ -1) && f.total_weight == kFilterTotalWeight

def Valid (f : Filter) : Bool := f.ValidateWeight

def Set (files : Files) (f : Filter) (input : Bytes) (num : Int) : Filter :=
  let assigned := { f with num_clients := num, filter_input := input, total_weight := 0 }
  if num > 0 ∧ input ≠ [] then assigned.Init files else assigned

/-! ### Reading a list of numbers -/

def readable (items : List Bytes) : Bool := items.all (fun item => (stoi item).isSome)

def numbers : List Bytes → List Int
  | [] => []
  | item :: rest =>
      match stoi item with
      | none => []
      | some value => value :: numbers rest

private theorem setWeights_behind (items : List Bytes) (front old : List Int) (total : Int) :
    setWeights items front.length (front ++ old) ((total + front.sum).bmod (2 ^ 32)) =
      (readable (items.take old.length),
        front ++ numbers (items.take old.length) ++
          old.drop (numbers (items.take old.length)).length,
        (total + (front ++ numbers (items.take old.length)).sum).bmod (2 ^ 32)) := by
  induction items generalizing front old with
  | nil => simp [setWeights, readable, numbers]
  | cons item rest ih =>
      cases old with
      | nil => simp [setWeights, readable, numbers]
      | cons head later =>
          rw [setWeights, if_neg (by simp), List.length_cons, List.take_succ_cons]
          cases parsed : stoi item with
          | none => simp [readable, numbers, parsed]
          | some value =>
              have placed : (front ++ head :: later).set front.length value =
                  (front ++ [value]) ++ later := by
                rw [List.set_append_right _ _ (Nat.le_refl _), Nat.sub_self,
                  List.set_cons_zero, List.append_assoc]
                rfl
              have added : ((total + front.sum).bmod (2 ^ 32) + value).bmod (2 ^ 32) =
                  (total + (front ++ [value]).sum).bmod (2 ^ 32) := by
                rw [Int.bmod_add_bmod, List.sum_append, List.sum_singleton, Int.add_assoc]
              have behind := ih (front ++ [value]) later
              rw [List.length_append, List.length_singleton] at behind
              simp only [placed, added, behind, numbers, parsed]
              simp [readable, parsed]

theorem setWeights_eq (items : List Bytes) (old : List Int) (total : Int)
    (wrapped : total.bmod (2 ^ 32) = total) :
    setWeights items 0 old total =
      (readable (items.take old.length),
        numbers (items.take old.length) ++ old.drop (numbers (items.take old.length)).length,
        (total + (numbers (items.take old.length)).sum).bmod (2 ^ 32)) := by
  have behind := setWeights_behind items [] old total
  rw [List.sum_nil, Int.add_zero, wrapped] at behind
  exact behind

theorem setWeights_length (items : List Bytes) (i : Nat) (weight : List Int) (total : Int) :
    (setWeights items i weight total).2.1.length = weight.length := by
  induction items generalizing i weight total with
  | nil => rfl
  | cons item rest ih =>
      unfold setWeights
      split
      · rfl
      · cases stoi item with
        | none => rfl
        | some value =>
            simp only
            rw [ih, List.length_set]

/-! ### Setting a filter up -/

def setUp (files : Files) (input : Bytes) (num : Int) (ifs_open : Bool) : Filter :=
  Init files { num_clients := num, filter_input := input, ifs_open := ifs_open }

section setUp

variable {files : Files} {input : Bytes} {n : Nat}

theorem Set_eq_setUp (positive : 0 < n) (nonempty : input ≠ []) (g : Filter) :
    Set files g input n = setUp files input n g.ifs_open :=
  if_pos ⟨by omega, nonempty⟩

variable (files n) in
/-- Every set-up assigns the weights once and then fills the table from them. -/
theorem setUp_cases (nonempty : input ≠ []) (ifs_open : Bool) :
    (setUp files input n ifs_open).num_clients = n ∧
      (setUp files input n ifs_open).filter_input = input ∧
      (setUp files input n ifs_open).weight.length = n ∧
      (setUp files input n ifs_open).client_index =
        fillSlots 0 0 (setUp files input n ifs_open).weight
          (List.replicate kFilterTotalWeight (-1)) ∧
      (setUp files input n ifs_open).ifs_open = (ifs_open || (files input).isSome) := by
  unfold setUp Init GetWeightByFile GetWeightByString
  simp only [if_neg nonempty, Int.toNat_natCast]
  cases ifs_open with
  | true => exact ⟨rfl, rfl, List.length_replicate, rfl, rfl⟩
  | false =>
      cases file : files input with
      | none =>
          simp only [Bool.false_eq_true, if_false, if_neg nonempty, true_and]
          refine ⟨?_, rfl⟩
          exact (setWeights_length _ _ _ _).trans List.length_replicate
      | some lines =>
          simp only [Bool.false_eq_true, if_false, if_neg nonempty]
          split
          · refine ⟨rfl, rfl, ?_, rfl, rfl⟩
            exact (setWeights_length _ _ _ _).trans List.length_replicate
          · refine ⟨rfl, rfl, ?_, rfl, rfl⟩
            exact (setWeights_length _ _ _ _).trans
              ((setWeights_length _ _ _ _).trans List.length_replicate)

/-- The numbers that a file leaves behind when one of its lines is none: the string
is then read over them. -/
def left_behind (files : Files) (input : Bytes) (n : Nat) : List Int :=
  match files input with
  | none => []
  | some lines => if readable (lines.take n) then [] else numbers (lines.take n)

theorem setUp_of_file {lines : List Bytes} (nonempty : input ≠ [])
    (file : files input = some lines) (whole : readable (lines.take n) = true) :
    (setUp files input n false).weight = numbers (lines.take n) ++
        List.replicate (n - (numbers (lines.take n)).length) (-1) ∧
      (setUp files input n false).total_weight = (numbers (lines.take n)).sum.bmod (2 ^ 32) := by
  have read := setWeights_eq lines (List.replicate n (-1)) 0 rfl
  rw [List.length_replicate, List.drop_replicate, whole, Int.zero_add] at read
  unfold setUp Init GetWeightByFile
  simp only [if_neg nonempty, Bool.false_eq_true, if_false, Int.toNat_natCast, file, read, if_true]
  exact ⟨trivial, trivial⟩

theorem setUp_of_string (nonempty : input ≠ [])
    (broken : ∀ lines, files input = some lines → readable (lines.take n) = false) :
    (setUp files input n false).weight =
        numbers ((str_split_at input 44 true).take n) ++
          (left_behind files input n ++
            List.replicate (n - (left_behind files input n).length) (-1)).drop
              (numbers ((str_split_at input 44 true).take n)).length ∧
      (setUp files input n false).total_weight =
        ((left_behind files input n).sum +
          (numbers ((str_split_at input 44 true).take n)).sum).bmod (2 ^ 32) := by
  unfold setUp Init GetWeightByFile
  simp only [if_neg nonempty, Bool.false_eq_true, if_false, Int.toNat_natCast]
  cases file : files input with
  | none =>
      have read := setWeights_eq (str_split_at input 44 true) (List.replicate n (-1))
        0 rfl
      rw [List.length_replicate] at read
      have none_left : left_behind files input n = [] := by
        unfold left_behind
        rw [file]
      simp only [GetWeightByString, if_neg nonempty, Bool.false_eq_true, if_false, read, none_left,
        List.nil_append, List.length_nil, Nat.sub_zero, List.sum_nil]
      exact ⟨trivial, trivial⟩
  | some lines =>
      have stops := broken lines file
      have left : left_behind files input n = numbers (lines.take n) := by
        unfold left_behind
        simp only [file, stops, Bool.false_eq_true, if_false]
      have read := setWeights_eq lines (List.replicate n (-1)) 0 rfl
      rw [List.length_replicate, List.drop_replicate, stops, Int.zero_add, ← left] at read
      have short : (left_behind files input n).length ≤ n := by
        have size := setWeights_length lines 0 (List.replicate n (-1)) 0
        rw [read, List.length_append, List.length_replicate, List.length_replicate] at size
        exact Nat.le_of_add_right_le (Nat.le_of_eq size)
      have size : (left_behind files input n ++
          List.replicate (n - (left_behind files input n).length) (-1 : Int)).length = n := by
        rw [List.length_append, List.length_replicate]
        omega
      have again := setWeights_eq (str_split_at input 44 true)
        (left_behind files input n ++
          List.replicate (n - (left_behind files input n).length) (-1))
        ((left_behind files input n).sum.bmod (2 ^ 32)) Int.bmod_bmod
      rw [size, Int.bmod_add_bmod] at again
      simp only [read, Bool.false_eq_true, if_false, GetWeightByString, if_neg nonempty, again]
      exact ⟨trivial, trivial⟩

end setUp

/-! ### The slots -/

theorem fillSlots_length (i start : Nat) (weights index : List Int) :
    (fillSlots i start weights index).length = index.length := by
  induction weights generalizing i start index with
  | nil => rfl
  | cons weight rest ih => rw [fillSlots, ih, List.length_mapIdx]

private theorem slot_after_turn (i start : Nat) (weight : Int) {index : List Int} {j : Nat}
    {old : Int} (before : index[j]? = some old) :
    (index.mapIdx (fun k slot => if start ≤ k ∧
        k < (((start : Int) + weight) % 2 ^ 32).toNat then (i : Int) else slot))[j]? =
      some (if start ≤ j ∧ j < (((start : Int) + weight) % 2 ^ 32).toNat then (i : Int)
        else old) := by
  rw [List.getElem?_mapIdx, before, Option.map_some]

/-- A slot keeps its value or is given to one of the clients that follow. -/
private theorem fillSlots_old_or_new (i start : Nat) (weights index : List Int)
    {j : Nat} {old new : Int} (before : index[j]? = some old)
    (after : (fillSlots i start weights index)[j]? = some new) :
    new = old ∨ ((i : Int) ≤ new ∧ new < i + weights.length) := by
  induction weights generalizing i start index old with
  | nil =>
      rw [fillSlots, before] at after
      exact Or.inl (Option.some.inj after).symm
  | cons weight rest ih =>
      rw [fillSlots] at after
      have stepped := slot_after_turn i start weight before
      rcases ih _ _ _ stepped after with kept | given
      · by_cases inside : start ≤ j ∧ j < (((start : Int) + weight) % 2 ^ 32).toNat
        · rw [if_pos inside] at kept
          right
          rw [kept, List.length_cons]
          constructor <;> omega
        · rw [if_neg inside] at kept
          exact Or.inl kept
      · right
        rw [List.length_cons]
        constructor <;> omega

/-- An empty slot behind the start is given to a client exactly if the share of one
of them, where the shares before it are laid end to end, ends behind the slot. -/
private theorem fillSlots_given_iff (i start : Nat) (weights index : List Int) {j : Nat}
    (fromStart : start ≤ j) {new : Int} (before : index[j]? = some (-1))
    (after : (fillSlots i start weights index)[j]? = some new) :
    0 ≤ new ↔ ∃ front, front <+: weights ∧ (j : Int) < ((start : Int) + front.sum) % 2 ^ 32 := by
  induction weights generalizing i start index with
  | nil =>
      rw [fillSlots, before] at after
      rw [← Option.some.inj after]
      apply iff_of_false (by omega)
      intro reaches
      obtain ⟨front, isFront, past⟩ := reaches
      rw [List.prefix_nil.mp isFront, List.sum_nil] at past
      omega
  | cons weight rest ih =>
      rw [fillSlots] at after
      have stepped := slot_after_turn i start weight before
      by_cases inside : start ≤ j ∧ j < (((start : Int) + weight) % 2 ^ 32).toNat
      · rw [if_pos inside] at stepped
        apply iff_of_true
        · rcases fillSlots_old_or_new _ _ _ _ stepped after with kept | given
          · omega
          · omega
        · refine ⟨[weight], List.prefix_iff_eq_take.mpr rfl, ?_⟩
          rw [List.sum_singleton]
          omega
      · -- the share ends at or below slot `j`, which is left to the clients behind
        rw [if_neg inside] at stepped
        rw [ih (i + 1) _ _ (by omega) stepped after]
        constructor
        · intro reaches
          obtain ⟨front, isFront, past⟩ := reaches
          refine ⟨weight :: front, (List.prefix_cons_inj weight).mpr isFront, ?_⟩
          rw [List.sum_cons]
          omega
        · intro reaches
          obtain ⟨front, isFront, past⟩ := reaches
          rcases List.prefix_cons_iff.mp isFront with rfl | ⟨later, rfl, isLater⟩
          · rw [List.sum_nil] at past
            omega
          · refine ⟨later, isLater, ?_⟩
            rw [List.sum_cons] at past
            omega

/-- The shares of some first clients, laid end to end, reach behind the last slot. -/
def Covers (weights : List Int) : Prop :=
  ∃ front, front <+: weights ∧ (kFilterTotalWeight : Int) ≤ front.sum % 2 ^ 32

instance (weights : List Int) : Decidable (Covers weights) :=
  decidable_of_iff (∃ front ∈ weights.inits, (kFilterTotalWeight : Int) ≤ front.sum % 2 ^ 32)
    (by simp only [List.mem_inits]; exact Iff.rfl)

section slots

variable {f : Filter}
variable (filled : f.client_index = fillSlots 0 0 f.weight (List.replicate kFilterTotalWeight (-1)))

include filled

private theorem slot_eq {j : Nat} (slot : j < kFilterTotalWeight) :
    (fillSlots 0 0 f.weight (List.replicate kFilterTotalWeight (-1)))[j]? =
      some (f.GetClientIndex j) := by
  have long : j < f.client_index.length := by
    rw [filled, fillSlots_length, List.length_replicate]
    exact slot
  unfold GetClientIndex
  rw [← filled, if_neg (by omega), Int.toNat_natCast, List.getD_eq_getElem?_getD,
    List.getElem?_eq_getElem long, Option.getD_some]

theorem GetClientIndex_cases {j : Nat} (slot : j < kFilterTotalWeight) :
    f.GetClientIndex j = -1 ∨ 0 ≤ f.GetClientIndex j ∧ f.GetClientIndex j < f.weight.length := by
  have before : (List.replicate kFilterTotalWeight (-1 : Int))[j]? = some (-1) := by
    rw [List.getElem?_replicate, if_pos slot]
  have either := fillSlots_old_or_new 0 0 f.weight _ before (slot_eq filled slot)
  rw [Nat.cast_zero, Int.zero_add] at either
  exact either

theorem slots_given_iff :
    (∀ j : Nat, j < kFilterTotalWeight → 0 ≤ f.GetClientIndex j) ↔ Covers f.weight := by
  have given : ∀ j : Nat, j < kFilterTotalWeight →
      (0 ≤ f.GetClientIndex j ↔ ∃ front, front <+: f.weight ∧ (j : Int) < front.sum % 2 ^ 32) := by
    intro j slot
    have before : (List.replicate kFilterTotalWeight (-1 : Int))[j]? = some (-1) := by
      rw [List.getElem?_replicate, if_pos slot]
    have iff := fillSlots_given_iff 0 0 f.weight _ (Nat.zero_le j) before (slot_eq filled slot)
    simp only [Nat.cast_zero, Int.zero_add] at iff
    exact iff
  constructor
  · intro all
    obtain ⟨front, isFront, past⟩ := (given 99 (by decide)).mp (all 99 (by decide))
    refine ⟨front, isFront, ?_⟩
    unfold kFilterTotalWeight
    omega
  · intro covers j slot
    obtain ⟨front, isFront, past⟩ := covers
    exact (given j slot).mpr ⟨front, isFront, by omega⟩

end slots

/-- Weights that were accepted cover all slots, unless they are a string that was
read over the numbers of a file. -/
theorem covers_of_valid {files : Files} {input : Bytes} {n : Nat} (positive : 0 < n)
    (nonempty : input ≠ []) (nothing : left_behind files input n = [])
    (valid : (Set files {} input n).Valid = true) : Covers (Set files {} input n).weight := by
  rw [Set_eq_setUp positive nonempty] at valid ⊢
  have one_place : ∃ read unset,
      (setUp files input n false).weight = read ++ List.replicate unset (-1) ∧
        (setUp files input n false).total_weight = read.sum.bmod (2 ^ 32) := by
    by_cases whole : ∃ lines, files input = some lines ∧ readable (lines.take n) = true
    · obtain ⟨lines, file, whole⟩ := whole
      obtain ⟨weight, total⟩ := setUp_of_file nonempty file whole
      exact ⟨_, _, weight, total⟩
    · have broken : ∀ lines, files input = some lines → readable (lines.take n) = false := by
        intro lines file
        by_contra complete
        exact whole ⟨lines, file, Bool.eq_true_of_not_eq_false complete⟩
      obtain ⟨weight, total⟩ := setUp_of_string nonempty broken
      rw [nothing, List.nil_append, List.length_nil, Nat.sub_zero, List.drop_replicate] at weight
      rw [nothing, List.sum_nil, Int.zero_add] at total
      exact ⟨_, _, weight, total⟩
  obtain ⟨read, unset, weight, total⟩ := one_place
  change ((setUp files input n false).weight.all _ && _) = true at valid
  rw [Bool.and_eq_true, beq_iff_eq, total, Int.bmod_def] at valid
  refine ⟨read, by rw [weight]; exact List.prefix_append _ _, ?_⟩
  have sum := valid.2
  unfold kFilterTotalWeight at sum ⊢
  omega

theorem Set_assigned (files : Files) (f : Filter) (input : Bytes) (num : Int) :
    (Set files f input num).GetNumClients = num ∧
      (Set files f input num).GetFilterInput = input := by
  unfold Set GetNumClients GetFilterInput
  simp only
  split
  · unfold Init GetWeightByFile GetWeightByString
    simp only
    repeat' split
    all_goals exact ⟨rfl, rfl⟩
  · exact ⟨rfl, rfl⟩

theorem not_valid_of_nonpositive (files : Files) (input : Bytes) {num : Int}
    (nonpositive : ¬ num > 0) : (Set files {} input num).Valid = false := by
  unfold Set
  rw [if_neg (fun both => nonpositive both.1)]
  rfl

end Filter

end LDPlayer
