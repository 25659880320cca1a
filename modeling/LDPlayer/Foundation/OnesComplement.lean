/-
One's-complement sums of 16-bit words, as Internet checksums use them.

The carries of a sum are folded back until 16 bits are left.  Folding keeps the
value modulo 65535, and a sum folds to all ones exactly when it is a positive
multiple of 65535; so the complement of a folded sum completes it.  Words are
read from bytes in either order, and it does not depend on the order whether a
sum is complete.
-/
import LDPlayer.Foundation.LengthPrefix

set_option autoImplicit false

namespace OnesComplement

/-! ### Folding -/

/-- The carries of a sum, added back until there are none. -/
def fold (sum : Nat) : Nat :=
  if carries : sum / 65536 = 0 then sum else fold (sum % 65536 + sum / 65536)
termination_by sum
decreasing_by omega

def ones : Nat := 65535

theorem fold_lt (sum : Nat) : fold sum < 65536 := by
  induction sum using fold.induct with
  | case1 sum carries =>
      rw [fold, dif_pos carries]
      omega
  | case2 sum carries ih =>
      rw [fold, dif_neg carries]
      exact ih

theorem fold_mod (sum : Nat) : fold sum % ones = sum % ones := by
  induction sum using fold.induct with
  | case1 sum carries => rw [fold, dif_pos carries]
  | case2 sum carries ih =>
      rw [fold, dif_neg carries, ih]
      unfold ones
      omega

theorem fold_pos_iff (sum : Nat) : 0 < fold sum ↔ 0 < sum := by
  induction sum using fold.induct with
  | case1 sum carries => rw [fold, dif_pos carries]
  | case2 sum carries ih =>
      rw [fold, dif_neg carries, ih]
      omega

theorem fold_eq_ones_iff (sum : Nat) : fold sum = ones ↔ 0 < sum ∧ sum % ones = 0 := by
  have below := fold_lt sum
  have kept := fold_mod sum
  have positive := fold_pos_iff sum
  unfold ones at kept ⊢
  constructor
  · intro all
    rw [all] at kept positive
    omega
  · intro multiple
    have some := positive.mpr multiple.1
    omega

private theorem fold_add_complement (sum : Nat) : fold (sum + (ones - fold sum)) = ones := by
  rw [fold_eq_ones_iff]
  have below := fold_lt sum
  have kept := fold_mod sum
  have positive := fold_pos_iff sum
  unfold ones at kept ⊢
  omega

private theorem eq_complement_of_fold {sum word : Nat} (positive : 0 < sum) (small : word < ones)
    (complete : fold (sum + word) = ones) : word = ones - fold sum := by
  have multiple := (fold_eq_ones_iff _).mp complete
  have below := fold_lt sum
  have kept := fold_mod sum
  have some := (fold_pos_iff sum).mpr positive
  unfold ones at kept multiple small ⊢
  omega

/-! ### Words of bytes -/

inductive ByteOrder where
  | little
  | big
  deriving DecidableEq, Repr

namespace ByteOrder

def word : ByteOrder → UInt8 → UInt8 → Nat
  | .little, first, second => second.toNat * 256 + first.toNat
  | .big, first, second => first.toNat * 256 + second.toNat

def store : ByteOrder → Nat → Bytes
  | .little, value => [UInt8.ofNat (value % 256), UInt8.ofNat (value / 256)]
  | .big, value => [UInt8.ofNat (value / 256), UInt8.ofNat (value % 256)]

theorem word_little (first second : UInt8) :
    word .little first second = second.toNat * 256 + first.toNat := rfl

theorem word_big (first second : UInt8) :
    word .big first second = first.toNat * 256 + second.toNat := rfl

theorem word_lt (order : ByteOrder) (first second : UInt8) : order.word first second < 65536 := by
  have one := first.toNat_lt
  have two := second.toNat_lt
  cases order with
  | little =>
      rw [word_little]
      omega
  | big =>
      rw [word_big]
      omega

@[simp] theorem word_zero (order : ByteOrder) : order.word 0 0 = 0 := by
  cases order with
  | little => rfl
  | big => rfl

@[simp] theorem store_length (order : ByteOrder) (value : Nat) :
    (order.store value).length = 2 := by
  cases order with
  | little => rfl
  | big => rfl

theorem store_eq (order : ByteOrder) {value : Nat} (fits : value < 65536) :
    ∃ first second, order.store value = [first, second] ∧ order.word first second = value := by
  have low : (UInt8.ofNat (value % 256)).toNat = value % 256 := by
    rw [UInt8.toNat_ofNat']
    omega
  have high : (UInt8.ofNat (value / 256)).toNat = value / 256 := by
    rw [UInt8.toNat_ofNat']
    omega
  cases order with
  | little =>
      refine ⟨_, _, rfl, ?_⟩
      rw [word_little, low, high]
      omega
  | big =>
      refine ⟨_, _, rfl, ?_⟩
      rw [word_big, low, high]
      omega

private theorem store_word (order : ByteOrder) (first second : UInt8) :
    order.store (order.word first second) = [first, second] := by
  have one := first.toNat_lt
  have two := second.toNat_lt
  cases order with
  | little =>
      have low : (second.toNat * 256 + first.toNat) % 256 = first.toNat := by omega
      have high : (second.toNat * 256 + first.toNat) / 256 = second.toNat := by omega
      rw [word_little]
      change [UInt8.ofNat _, UInt8.ofNat _] = _
      rw [low, high, UInt8.ofNat_toNat, UInt8.ofNat_toNat]
  | big =>
      have low : (first.toNat * 256 + second.toNat) % 256 = second.toNat := by omega
      have high : (first.toNat * 256 + second.toNat) / 256 = first.toNat := by omega
      rw [word_big]
      change [UInt8.ofNat _, UInt8.ofNat _] = _
      rw [low, high, UInt8.ofNat_toNat, UInt8.ofNat_toNat]

end ByteOrder

/-- The sum of the words of some bytes; a zero byte follows a last single one. -/
def total (order : ByteOrder) : Bytes → Nat
  | [] => 0
  | [last] => order.word last 0
  | first :: second :: rest => order.word first second + total order rest

def pad (bytes : Bytes) : Bytes := if bytes.length % 2 = 0 then bytes else bytes ++ [0]

theorem total_append {order : ByteOrder} (front back : Bytes) (even : front.length % 2 = 0) :
    total order (front ++ back) = total order front + total order back := by
  induction front using total.induct with
  | case1 => exact (Nat.zero_add _).symm
  | case2 last => simp at even
  | case3 first second rest ih =>
      simp only [List.length_cons] at even
      have inner := ih (by omega)
      change order.word first second + total order (rest ++ back) =
        order.word first second + total order rest + total order back
      rw [inner, Nat.add_assoc]

theorem total_pad (order : ByteOrder) (bytes : Bytes) :
    total order (pad bytes) = total order bytes := by
  induction bytes using total.induct with
  | case1 => rfl
  | case2 last => rfl
  | case3 first second rest ih =>
      have same : pad (first :: second :: rest) = first :: second :: pad rest := by
        unfold pad
        simp only [List.length_cons]
        by_cases even : rest.length % 2 = 0
        · rw [if_pos even, if_pos (by omega)]
        · rw [if_neg even, if_neg (by omega)]
          rfl
      rw [same]
      change order.word first second + total order (pad rest) = _
      rw [ih]
      rfl

theorem total_le (order : ByteOrder) (bytes : Bytes) :
    total order bytes ≤ 65535 * ((bytes.length + 1) / 2) := by
  induction bytes using total.induct with
  | case1 => exact Nat.zero_le _
  | case2 last =>
      have small := order.word_lt last 0
      unfold total
      simp only [List.length_cons, List.length_nil]
      omega
  | case3 first second rest ih =>
      have small := order.word_lt first second
      unfold total
      simp only [List.length_cons]
      omega

/-- In the other order the sum is the same up to a factor of 256. -/
theorem total_swap (bytes : Bytes) :
    total .big bytes % ones = 256 * total .little bytes % ones ∧
      (0 < total .big bytes ↔ 0 < total .little bytes) := by
  induction bytes using total.induct with
  | case1 => exact ⟨rfl, Iff.rfl⟩
  | case2 last =>
      unfold total ones
      rw [ByteOrder.word_big, ByteOrder.word_little, UInt8.toNat_zero]
      omega
  | case3 first second rest ih =>
      unfold ones at ih ⊢
      unfold total
      rw [ByteOrder.word_big, ByteOrder.word_little]
      omega

/-- The words of these bytes, padded, sum up to all ones. -/
def Complete (order : ByteOrder) (bytes : Bytes) : Prop := fold (total order bytes) = ones

instance (order : ByteOrder) (bytes : Bytes) : Decidable (Complete order bytes) :=
  decidable_of_iff (0 < total order bytes ∧ total order bytes % ones = 0)
    (fold_eq_ones_iff _).symm

/-- It does not depend on the order of the bytes whether a sum is complete. -/
theorem complete_congr (order other : ByteOrder) (bytes : Bytes) :
    Complete order bytes ↔ Complete other bytes := by
  have swapped := total_swap bytes
  unfold ones at swapped
  have same : Complete .big bytes ↔ Complete .little bytes := by
    unfold Complete
    rw [fold_eq_ones_iff, fold_eq_ones_iff]
    unfold ones
    omega
  cases order with
  | little =>
      cases other with
      | little => exact Iff.rfl
      | big => exact same.symm
  | big =>
      cases other with
      | little => exact same
      | big => exact Iff.rfl

theorem total_replace_zero {order : ByteOrder} (front back : Bytes) (first second : UInt8)
    (even : front.length % 2 = 0) :
    total order (front ++ [first, second] ++ back) =
      total order (front ++ [0, 0] ++ back) + order.word first second := by
  rw [List.append_assoc, List.append_assoc, total_append _ _ even, total_append _ _ even]
  change total order front + (order.word first second + total order back) =
    total order front + (order.word 0 0 + total order back) + order.word first second
  rw [ByteOrder.word_zero]
  omega

/-- Storing the complement of the sum into two zero bytes at an even offset
completes the sum, in whatever order it is read again. -/
theorem complete_store (order : ByteOrder) (front back : Bytes) (even : front.length % 2 = 0)
    (other : ByteOrder) :
    Complete other
      (front ++ order.store (ones - fold (total order (front ++ [0, 0] ++ back))) ++ back) := by
  rw [complete_congr other order]
  have fits : ones - fold (total order (front ++ [0, 0] ++ back)) < 65536 := by
    unfold ones
    omega
  obtain ⟨first, second, stored, loaded⟩ := order.store_eq fits
  unfold Complete
  rw [stored, total_replace_zero front back first second even, loaded]
  exact fold_add_complement _

/-- Two bytes that complete a sum are its complement, all ones aside. -/
theorem store_of_complete {order : ByteOrder} (front back : Bytes) (first second : UInt8)
    (even : front.length % 2 = 0) (positive : 0 < total order (front ++ [0, 0] ++ back)) :
    order.store (ones - fold (total order (front ++ [0, 0] ++ back))) = [first, second] ↔
      Complete order (front ++ [first, second] ++ back) ∧ [first, second] ≠ [255, 255] := by
  have below := fold_lt (total order (front ++ [0, 0] ++ back))
  have some := (fold_pos_iff _).mpr positive
  have fits : ones - fold (total order (front ++ [0, 0] ++ back)) < ones := by
    unfold ones
    omega
  obtain ⟨low, high, stored, loaded⟩ := order.store_eq (Nat.lt_succ_of_lt fits)
  constructor
  · intro same
    constructor
    · rw [← same]
      exact complete_store order front back even order
    · intro all
      rw [stored] at same
      have bytes := same.trans all
      obtain ⟨rfl, tail⟩ := List.cons.inj bytes
      obtain ⟨rfl, _nil⟩ := List.cons.inj tail
      have full : order.word 255 255 = ones := by
        cases order with
        | little => rfl
        | big => rfl
      omega
  · intro both
    obtain ⟨complete, partly⟩ := both
    unfold Complete at complete
    rw [total_replace_zero front back first second even] at complete
    have small : order.word first second < ones := by
      have bound := order.word_lt first second
      have other : order.word first second ≠ ones := by
        intro full
        apply partly
        rw [← order.store_word, full]
        cases order with
        | little => rfl
        | big => rfl
      unfold ones at other ⊢
      omega
    rw [← eq_complement_of_fold positive small complete, order.store_word]

/-! ### Behind a header -/

theorem complete_store_behind (order : ByteOrder) (header front back : Bytes)
    (evenHeader : header.length % 2 = 0) (even : front.length % 2 = 0) (other : ByteOrder) :
    Complete other (header ++ (front ++
      order.store (ones - fold (total order (header ++ (front ++ [0, 0] ++ back)))) ++ back)) := by
  have both : (header ++ front).length % 2 = 0 := by
    rw [List.length_append]
    omega
  have stored := complete_store order (header ++ front) back both other
  simp only [List.append_assoc] at stored ⊢
  exact stored

theorem store_of_complete_behind {order : ByteOrder} (header front back : Bytes)
    (first second : UInt8) (evenHeader : header.length % 2 = 0) (even : front.length % 2 = 0)
    (positive : 0 < total order header) :
    order.store (ones - fold (total order (header ++ (front ++ [0, 0] ++ back)))) =
        [first, second] ↔
      Complete order (header ++ (front ++ [first, second] ++ back)) ∧
        [first, second] ≠ [255, 255] := by
  have both : (header ++ front).length % 2 = 0 := by
    rw [List.length_append]
    omega
  have some : 0 < total order (header ++ front ++ [0, 0] ++ back) := by
    rw [List.append_assoc, List.append_assoc, total_append _ _ evenHeader]
    omega
  have decides := store_of_complete (header ++ front) back first second both some
  simp only [List.append_assoc] at decides ⊢
  exact decides

end OnesComplement
