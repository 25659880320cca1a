/-
How a filter splits the draws: the shares of the hundred slots that the clients
get for their weights.
-/
import LDPlayer.Controller.Filter

set_option autoImplicit false

namespace LDPlayer

namespace Filter

open Text

/-! ### Reading a list of numbers -/

/-- The filter is given by these weights, as the lines of a file or as a string; the
string counts where no file of its name opens, or one with a line that is no number. -/
def Gives (files : Files) (input : Bytes) (weights : List Int) : Prop :=
  input ≠ [] ∧
    ((∃ lines, files input = some lines ∧
        (lines.take weights.length).map stoi = weights.map some) ∨
      (∀ lines, files input = some lines → readable (lines.take weights.length) = false) ∧
        ((str_split_at input 44 true).take weights.length).map stoi = weights.map some)

private theorem numbers_of_parsed {items : List Bytes} {weights : List Int}
    (parsed : items.map stoi = weights.map some) :
    readable items = true ∧ numbers items = weights := by
  induction items generalizing weights with
  | nil =>
      rw [List.map_nil, eq_comm, List.map_eq_nil_iff] at parsed
      rw [parsed]
      exact ⟨rfl, rfl⟩
  | cons item later ih =>
      cases weights with
      | nil => cases parsed
      | cons weight rest =>
          rw [List.map_cons, List.map_cons] at parsed
          obtain ⟨first, others⟩ := List.cons.inj parsed
          obtain ⟨readable_later, numbers_later⟩ := ih others
          unfold readable at readable_later ⊢
          rw [List.all_cons, readable_later, numbers, first, numbers_later]
          exact ⟨rfl, rfl⟩

theorem Set_gives {files : Files} {input : Bytes} {weights : List Int} (some : weights ≠ [])
    (given : Gives files input weights) :
    (Set files {} input weights.length).weight = weights ∧
      (Set files {} input weights.length).total_weight =
        ((left_behind files input weights.length).sum + weights.sum).bmod (2 ^ 32) := by
  obtain ⟨nonempty, source⟩ := given
  rw [Set_eq_setUp (List.length_pos_of_ne_nil some) nonempty]
  rcases source with ⟨lines, file, parsed⟩ | ⟨broken, parsed⟩
  · obtain ⟨whole, same⟩ := numbers_of_parsed parsed
    have none_left : left_behind files input weights.length = [] := by
      unfold left_behind
      simp only [file, whole, if_true]
    obtain ⟨weight, total⟩ := setUp_of_file nonempty file whole
    rw [weight, total, none_left, same, Nat.sub_self, List.replicate_zero, List.append_nil,
      List.sum_nil, Int.zero_add]
    exact ⟨rfl, rfl⟩
  · obtain ⟨_whole, same⟩ := numbers_of_parsed parsed
    obtain ⟨weight, total⟩ := setUp_of_string nonempty broken
    have count := (setUp_cases files weights.length nonempty false).2.2.1
    rw [weight, same, List.length_append] at count
    rw [weight, total, same, List.eq_nil_of_length_eq_zero (Nat.add_eq_left.mp count),
      List.append_nil]
    exact ⟨rfl, rfl⟩

theorem Set_valid_iff {files : Files} {input : Bytes} {weights : List Int} (some : weights ≠ [])
    (given : Gives files input weights) :
    (Set files {} input weights.length).Valid = true ↔
      (∀ w ∈ weights, w ≠ -1) ∧
        ((left_behind files input weights.length).sum + weights.sum).bmod (2 ^ 32) =
          kFilterTotalWeight := by
  obtain ⟨weight, total⟩ := Set_gives some given
  unfold Valid ValidateWeight
  rw [weight, total, Bool.and_eq_true, List.all_eq_true, beq_iff_eq]
  simp only [decide_eq_true_eq]

/-! ### The shares -/

def shares : Nat → List Int → List Int
  | _, [] => []
  | i, weight :: rest => List.replicate weight.toNat (i : Int) ++ shares (i + 1) rest

private theorem shares_length {weights : List Int} (nonnegative : ∀ w ∈ weights, 0 ≤ w) (i : Nat) :
    ((shares i weights).length : Int) = weights.sum := by
  induction weights generalizing i with
  | nil => rfl
  | cons weight rest ih =>
      obtain ⟨first, others⟩ := List.forall_mem_cons.mp nonnegative
      have tail := ih others (i + 1)
      rw [shares, List.length_append, List.length_replicate, List.sum_cons]
      omega

theorem mem_shares {weights : List Int} {i : Nat} {slot : Int} (member : slot ∈ shares i weights) :
    (i : Int) ≤ slot ∧ slot < i + weights.length := by
  induction weights generalizing i with
  | nil => cases member
  | cons weight rest ih =>
      rw [List.length_cons]
      rcases List.mem_append.mp member with own | later
      · rw [List.eq_of_mem_replicate own]
        omega
      · have bounds := ih later
        omega

private theorem count_shares {weights : List Int} (i : Nat) {k : Nat}
    (client : k < weights.length) :
    (shares i weights).count ((i + k : Nat) : Int) = (weights[k]).toNat := by
  induction weights generalizing i k with
  | nil => cases client
  | cons weight rest ih =>
      rw [shares, List.count_append]
      cases k with
      | zero =>
          have others : ((i : Nat) : Int) ∉ shares (i + 1) rest := by
            intro member
            have bounds := (mem_shares member).1
            omega
          rw [Nat.add_zero, List.count_replicate_self, List.count_eq_zero.mpr others]
          rfl
      | succ k =>
          have own : ((i + (k + 1) : Nat) : Int) ∉ List.replicate weight.toNat (i : Int) := by
            intro member
            have same := List.eq_of_mem_replicate member
            omega
          have next : i + (k + 1) = i + 1 + k := by omega
          rw [List.count_eq_zero.mpr own, Nat.zero_add, next,
            ih (i + 1) (Nat.lt_of_succ_lt_succ client)]
          rfl

private theorem fill_share {index : List Int} {start stop : Nat} (client : Int)
    (order : start ≤ stop)
    (within : stop ≤ index.length) :
    index.mapIdx (fun j slot => if start ≤ j ∧ j < stop then client else slot) =
      index.take start ++ List.replicate (stop - start) client ++ index.drop stop := by
  have front : (index.take start).length = start := List.length_take_of_le (by omega)
  have middle : (index.take start ++ List.replicate (stop - start) client).length = stop := by
    rw [List.length_append, front, List.length_replicate]
    omega
  apply List.ext_getElem?
  intro j
  rw [List.getElem?_mapIdx]
  rcases Nat.lt_or_ge j start with before | behind
  · rw [List.getElem?_append_left (by omega), List.getElem?_append_left (by omega),
      List.getElem?_take_of_lt before]
    simp [Nat.not_le.mpr before]
  · rcases Nat.lt_or_ge j stop with inside | past
    · rw [List.getElem?_append_left (by omega), List.getElem?_append_right (by omega), front,
        List.getElem?_replicate, if_pos (by omega), List.getElem?_eq_getElem (by omega),
        Option.map_some, if_pos ⟨behind, inside⟩]
    · rw [List.getElem?_append_right (by omega), middle, List.getElem?_drop,
        Nat.add_sub_cancel' past]
      simp [Nat.not_lt.mpr past]

/-- The slots that non-negative weights fill are the shares of the clients. -/
theorem fillSlots_shares {weights : List Int} (nonnegative : ∀ w ∈ weights, 0 ≤ w) (i start : Nat)
    {index : List Int} (fits : (start : Int) + weights.sum ≤ index.length)
    (small : index.length < 2 ^ 32) :
    fillSlots i start weights index =
      index.take start ++ shares i weights ++ index.drop (start + weights.sum.toNat) := by
  induction weights generalizing i start index with
  | nil =>
      rw [fillSlots, shares, List.append_nil, List.sum_nil, Int.toNat_zero, Nat.add_zero,
        List.take_append_drop]
  | cons weight rest ih =>
      obtain ⟨first, others⟩ := List.forall_mem_cons.mp nonnegative
      have sumRest : 0 ≤ rest.sum := List.sum_nonneg others
      rw [List.sum_cons] at fits
      have stop : (((start : Int) + weight) % 2 ^ 32).toNat = start + weight.toNat := by omega
      have within : start + weight.toNat ≤ index.length := by omega
      have front : (index.take start).length = start := List.length_take_of_le (by omega)
      have filled : (index.take start ++ List.replicate weight.toNat (i : Int)).length =
          start + weight.toNat := by
        rw [List.length_append, front, List.length_replicate]
      have behind : start + (weight + rest.sum).toNat =
          start + weight.toNat + rest.sum.toNat := by omega
      rw [fillSlots, stop, fill_share _ (Nat.le_add_right start _) within, Nat.add_sub_cancel_left,
        ih others (i + 1) (start + weight.toNat), List.take_left' filled, shares, List.sum_cons,
        behind]
      · rw [List.drop_append, filled, List.drop_of_length_le (by omega), List.nil_append,
          List.drop_drop, Nat.add_sub_cancel_left]
        simp only [List.append_assoc]
      · rw [List.length_append, filled, List.length_drop]
        omega
      · rw [List.length_append, filled, List.length_drop]
        omega

private theorem sum_of_counts {weights slots : List Int} {i : Nat}
    (range : ∀ slot ∈ slots, (i : Int) ≤ slot ∧ slot < i + weights.length)
    (counts : ∀ (k : Nat) (client : k < weights.length),
      (slots.count ((i + k : Nat) : Int) : Int) = weights[k]) :
    weights.sum = slots.length := by
  induction weights generalizing i slots with
  | nil =>
      have none : slots = [] := by
        apply List.eq_nil_iff_forall_not_mem.mpr
        intro slot member
        have bounds := range slot member
        rw [List.length_nil] at bounds
        omega
      rw [none]
      rfl
  | cons weight rest ih =>
      have own := counts 0 (by simp)
      rw [Nat.add_zero, List.getElem_cons_zero] at own
      have later : rest.sum = (slots.filter (fun slot => slot ≠ (i : Int))).length := by
        apply @ih _ (i + 1)
        · intro slot member
          obtain ⟨listed, other⟩ := List.mem_filter.mp member
          have bounds := range slot listed
          have apart := of_decide_eq_true other
          rw [List.length_cons] at bounds
          omega
        · intro k client
          have next := counts (k + 1) (by simpa using client)
          have apart : ((i + 1 + k : Nat) : Int) ≠ (i : Int) := by omega
          have position : i + (k + 1) = i + 1 + k := by omega
          rw [position, List.getElem_cons_succ] at next
          have kept : (slots.filter (fun slot => slot ≠ (i : Int))).count ((i + 1 + k : Nat) : Int) =
              slots.count ((i + 1 + k : Nat) : Int) := List.count_filter (decide_eq_true apart)
          rw [kept]
          exact next
      have parts := slots.length_eq_length_filter_add (fun slot => decide (slot ≠ (i : Int)))
      have same : slots.filter (fun slot => !decide (slot ≠ (i : Int))) =
          slots.filter (fun slot => slot == (i : Int)) := by
        apply List.filter_congr
        intro slot _member
        by_cases own : slot = (i : Int)
        · simp [own]
        · simp [own]
      rw [same, ← List.count_eq_length_filter] at parts
      rw [List.sum_cons, later, parts]
      omega

/-! ### The draws -/

def slots (f : Filter) : List Int :=
  (List.range kFilterTotalWeight).map (fun j : Nat => f.GetClientIndex (j : Int))

structure SplitsBy (f : Filter) (weights : List Int) : Prop where
  nonnegative : ∀ w ∈ weights, 0 ≤ w
  range : ∀ j < kFilterTotalWeight,
    0 ≤ f.GetClientIndex j ∧ f.GetClientIndex j < weights.length
  count : ∀ (i : Nat) (client : i < weights.length), (f.slots.count (i : Int) : Int) = weights[i]

private theorem slots_eq {f : Filter} (full : f.client_index.length = kFilterTotalWeight) :
    f.slots = f.client_index := by
  unfold slots
  apply List.ext_getElem
  · rw [List.length_map, List.length_range, full]
  · intro j before after
    have slot : j < kFilterTotalWeight := by
      rw [← full]
      exact after
    rw [List.getElem_map, List.getElem_range]
    unfold GetClientIndex
    rw [if_neg (by omega), Int.toNat_natCast, List.getD_eq_getElem _ _ after]

private theorem Set_slots {files : Files} {input : Bytes} {weights : List Int} (some : weights ≠ [])
    (given : Gives files input weights) (nonnegative : ∀ w ∈ weights, 0 ≤ w)
    (total : weights.sum = kFilterTotalWeight) :
    (Set files {} input weights.length).slots = shares 0 weights := by
  have weight := (Set_gives some given).1
  rw [Set_eq_setUp (List.length_pos_of_ne_nil some) given.1] at weight ⊢
  have filled := (setUp_cases files weights.length given.1 false).2.2.2.1
  have whole : (setUp files input weights.length false).client_index = shares 0 weights := by
    rw [filled, weight, fillSlots_shares nonnegative 0 0]
    · rw [List.take_zero, List.nil_append, List.drop_of_length_le, List.append_nil]
      rw [List.length_replicate, total]
      decide
    · rw [List.length_replicate, total]
      decide
    · rw [List.length_replicate]
      decide
  rw [slots_eq, whole]
  have length := shares_length nonnegative 0
  rw [whole]
  omega

/-- A valid filter splits the draws by its weights exactly where these are not
negative and add up to one hundred by themselves: not modulo 2^32, and without the
numbers that a file left behind. -/
theorem valid_splits_iff (files : Files) (input : Bytes) (weights : List Int)
    (some : weights ≠ []) (given : Gives files input weights) :
    ((Set files {} input weights.length).Valid = true →
      (Set files {} input weights.length).SplitsBy weights) ↔
      ((∀ w ∈ weights, w ≠ -1) →
        ((left_behind files input weights.length).sum + weights.sum).bmod (2 ^ 32) =
          kFilterTotalWeight →
        (∀ w ∈ weights, 0 ≤ w) ∧ weights.sum = kFilterTotalWeight) := by
  have validIff := Set_valid_iff some given
  constructor
  · intro splits unset total
    have split := splits (validIff.mpr ⟨unset, total⟩)
    refine ⟨split.nonnegative, ?_⟩
    have range : ∀ slot ∈ (Set files {} input weights.length).slots,
        ((0 : Nat) : Int) ≤ slot ∧ slot < ((0 : Nat) : Int) + weights.length := by
      intro slot member
      obtain ⟨j, listed, rfl⟩ := List.mem_map.mp member
      have bounds := split.range j (List.mem_range.mp listed)
      omega
    have counts : ∀ (k : Nat) (client : k < weights.length),
        ((Set files {} input weights.length).slots.count ((0 + k : Nat) : Int) : Int) =
          weights[k] := by
      intro k client
      rw [Nat.zero_add]
      exact split.count k client
    rw [sum_of_counts range counts]
    unfold slots
    rw [List.length_map, List.length_range]
  · intro condition valid
    obtain ⟨unset, total⟩ := validIff.mp valid
    obtain ⟨nonnegative, sum⟩ := condition unset total
    have shared := Set_slots some given nonnegative sum
    refine ⟨nonnegative, ?_, ?_⟩
    · intro j slot
      have member : (Set files {} input weights.length).GetClientIndex j ∈ shares 0 weights := by
        rw [← shared]
        exact List.mem_map.mpr ⟨j, List.mem_range.mpr slot, rfl⟩
      have bounds := mem_shares member
      omega
    · intro i client
      have count := count_shares 0 client
      rw [Nat.zero_add] at count
      rw [shared, count]
      exact Int.toNat_of_nonneg (nonnegative _ (List.getElem_mem client))

def spoilt_file : Files := fun name =>
  if name = ascii "10,30,60" then some [ascii "0", ascii "ten"] else none

/-- The weights of the manual, read over what that file left. -/
theorem valid_splits_three :
    (Set spoilt_file {} (ascii "10,30,60") 3).SplitsBy [10, 30, 60] := by
  have broken : ∀ lines, spoilt_file (ascii "10,30,60") = some lines →
      readable (lines.take 3) = false := by
    intro lines file
    obtain rfl : [ascii "0", ascii "ten"] = lines := Option.some.inj file
    decide +kernel
  have given : Gives spoilt_file (ascii "10,30,60") [10, 30, 60] :=
    ⟨by decide, Or.inr ⟨broken, by decide +kernel⟩⟩
  have valid : (Set spoilt_file {} (ascii "10,30,60") 3).Valid = true := by decide +kernel
  exact (valid_splits_iff spoilt_file (ascii "10,30,60") [10, 30, 60] (List.cons_ne_nil _ _)
    given).mpr (fun _ _ => by decide) valid

def no_files : Files := fun _ => none

/-- One weight is negative, and all draws select the first client. -/
theorem negative_weight_valid :
    (Set no_files {} (ascii "150,-50") 2).Valid = true ∧
      (Set no_files {} (ascii "150,-50") 2).GetWeight 1 = -50 ∧
      (Set no_files {} (ascii "150,-50") 2).slots.count 0 = 100 := by
  decide +kernel

end Filter

end LDPlayer
