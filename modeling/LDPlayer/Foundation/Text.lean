/-
Byte text: blank-separated words, decimal numbers and C strings.

Words are what formatted extraction reads one at a time.  Joining words with
single blanks and splitting again gives the same words, so text in that normal
form is determined by its words.
-/
import Mathlib
import LDPlayer.Foundation.LengthPrefix

set_option autoImplicit false

namespace Text

def ascii (literal : String) : Bytes :=
  literal.toList.map (fun character => UInt8.ofNat character.toNat)

/-- The bytes `isspace` accepts in the C locale: blank and the codes 9 to 13. -/
def isSpace (byte : UInt8) : Bool := byte == 32 || (9 ≤ byte && byte ≤ 13)

def words (text : Bytes) : List Bytes :=
  (text.splitOnP isSpace).filter (fun word => word ≠ [])

/-- A non-empty run of bytes without a blank. -/
structure IsWord (word : Bytes) : Prop where
  nonempty : word ≠ []
  solid : ∀ byte ∈ word, isSpace byte = false

theorem isWord_of_all {word : Bytes} (nonempty : word ≠ [])
    (solid : word.all (fun byte => isSpace byte == false) = true) : IsWord word where
  nonempty := nonempty
  solid := by
    intro byte member
    exact beq_iff_eq.mp (List.all_eq_true.mp solid byte member)

def join (blank : Bytes) (items : List Bytes) : Bytes := blank.intercalate items

@[simp] theorem words_nil : words [] = [] := rfl

theorem words_isWord {text word : Bytes} (member : word ∈ words text) : IsWord word := by
  obtain ⟨piece, kept⟩ := List.mem_filter.mp member
  refine ⟨of_decide_eq_true kept, ?_⟩
  clear member kept
  induction text generalizing word with
  | nil =>
      rw [List.splitOnP_nil, List.mem_singleton] at piece
      subst piece
      intro byte absent
      cases absent
  | cons head rest ih =>
      rw [List.splitOnP_cons_eq_if_modifyHead] at piece
      cases blank : isSpace head with
      | true =>
          rw [blank, if_pos rfl] at piece
          rcases List.mem_cons.mp piece with same | later
          · subst same
            intro byte absent
            cases absent
          · exact ih later
      | false =>
          rw [blank, if_neg Bool.false_ne_true] at piece
          cases pieces : rest.splitOnP isSpace with
          | nil => exact absurd pieces (List.splitOnP_ne_nil isSpace rest)
          | cons first others =>
              rw [pieces, List.modifyHead_cons] at piece
              rcases List.mem_cons.mp piece with same | later
              · subst same
                intro byte member
                rcases List.mem_cons.mp member with atHead | inFirst
                · rw [atHead]
                  exact blank
                · exact ih (by rw [pieces]; exact List.mem_cons_self) byte inFirst
              · exact ih (by rw [pieces]; exact List.mem_cons_of_mem first later)

theorem words_append_space {word : Bytes} (isWord : IsWord word) {blank : UInt8}
    (space : isSpace blank = true) (rest : Bytes) :
    words (word ++ blank :: rest) = word :: words rest := by
  unfold words
  rw [List.splitOnP_append_cons_of_forall_mem isWord.solid blank space,
    List.filter_cons_of_pos (by simpa using isWord.nonempty)]

theorem words_of_isWord {word : Bytes} (isWord : IsWord word) : words word = [word] := by
  unfold words
  rw [List.splitOnP_eq_singleton isWord.solid]
  simp [isWord.nonempty]

theorem words_cons_space {blank : UInt8} (space : isSpace blank = true) (rest : Bytes) :
    words (blank :: rest) = words rest := by
  unfold words
  rw [List.splitOnP_cons_eq_if_modifyHead, if_pos space, List.filter_cons_of_neg (by simp)]

theorem words_dropWhile (text : Bytes) : words (text.dropWhile isSpace) = words text := by
  induction text with
  | nil => rfl
  | cons head rest ih =>
      cases blank : isSpace head with
      | true => rw [List.dropWhile_cons_of_pos blank, ih, words_cons_space blank]
      | false => rw [List.dropWhile_cons_of_neg (by rw [blank]; exact Bool.false_ne_true)]

theorem words_eq_cons {text rest word : Bytes} (isWord : IsWord word)
    (front : text.dropWhile isSpace = word ++ rest)
    (ends : rest = [] ∨ ∃ blank later, rest = blank :: later ∧ isSpace blank = true) :
    words text = word :: words rest := by
  rw [← words_dropWhile, front]
  rcases ends with empty | ⟨blank, later, split, space⟩
  · rw [empty, List.append_nil, words_of_isWord isWord, words_nil]
  · rw [split, words_append_space isWord space, words_cons_space space]

theorem join_cons_cons (head next : Bytes) (later : List Bytes) :
    join [32] (head :: next :: later) = head ++ 32 :: join [32] (next :: later) := by
  simp [join, List.intercalate_cons_cons]

theorem words_join {items : List Bytes} (areWords : ∀ item ∈ items, IsWord item) :
    words (join [32] items) = items := by
  induction items with
  | nil => rfl
  | cons head rest ih =>
      have headWord := areWords head List.mem_cons_self
      have restWords : ∀ item ∈ rest, IsWord item :=
        fun item member => areWords item (List.mem_cons_of_mem head member)
      cases rest with
      | nil =>
          have single : join [32] [head] = head := by simp [join]
          rw [single, words_of_isWord headWord]
      | cons next later =>
          rw [join_cons_cons, words_append_space headWord (by decide), ih restWords]

/-- The only blanks in joined text are the joining ones. -/
theorem mem_join {items : List Bytes} (areWords : ∀ item ∈ items, IsWord item) {byte : UInt8}
    (member : byte ∈ join [32] items) : byte = 32 ∨ isSpace byte = false := by
  induction items with
  | nil => cases member
  | cons head rest ih =>
      have headWord := areWords head List.mem_cons_self
      have restWords : ∀ item ∈ rest, IsWord item :=
        fun item present => areWords item (List.mem_cons_of_mem head present)
      cases rest with
      | nil =>
          have single : join [32] [head] = head := by simp [join]
          rw [single] at member
          exact Or.inr (headWord.solid byte member)
      | cons next later =>
          rw [join_cons_cons] at member
          rcases List.mem_append.mp member with inHead | behind
          · exact Or.inr (headWord.solid byte inHead)
          · rcases List.mem_cons.mp behind with blank | inRest
            · exact Or.inl blank
            · exact ih restWords inRest

/-! ### Decimal numbers -/

def decimal (value : Nat) : Bytes :=
  (Nat.toDigits 10 value).map (fun character => UInt8.ofNat character.toNat)

def signedDecimal (value : Int) : Bytes :=
  if value < 0 then 45 :: decimal value.natAbs else decimal value.natAbs

private theorem digit_code {character : Char} (digit : character.isDigit = true) :
    48 ≤ character.toNat ∧ character.toNat ≤ 57 := by
  simp only [Char.isDigit, ge_iff_le, Bool.and_eq_true, decide_eq_true_eq] at digit
  exact ⟨digit.1, digit.2⟩

private theorem toDigits_digit {value : Nat} {character : Char}
    (member : character ∈ Nat.toDigits 10 value) : character.isDigit = true :=
  Nat.isDigit_of_mem_toDigits (by decide) (by decide) member

theorem mem_decimal {value : Nat} {byte : UInt8} (member : byte ∈ decimal value) :
    48 ≤ byte.toNat ∧ byte.toNat ≤ 57 := by
  obtain ⟨character, present, rfl⟩ := List.mem_map.mp member
  have code := digit_code (toDigits_digit present)
  rw [UInt8.toNat_ofNat']
  omega

theorem decimal_isWord (value : Nat) : IsWord (decimal value) where
  nonempty := by
    intro empty
    exact Nat.toDigits_ne_nil (List.map_eq_nil_iff.mp empty)
  solid := by
    intro byte member
    obtain ⟨low, high⟩ := mem_decimal member
    have notBlank : byte ≠ 32 := by
      intro same
      rw [same] at low
      exact absurd low (by decide)
    have above : ¬ byte ≤ 13 := by
      rw [UInt8.le_iff_toNat_le]
      have bound : (13 : UInt8).toNat = 13 := rfl
      omega
    simp [isSpace, notBlank, above]

private theorem characters_decimal (value : Nat) :
    (decimal value).map (fun byte => Char.ofNat byte.toNat) = Nat.toDigits 10 value := by
  unfold decimal
  rw [List.map_map]
  conv => rhs; rw [← List.map_id (Nat.toDigits 10 value)]
  apply List.map_congr_left
  intro character present
  have code := digit_code (toDigits_digit present)
  have small : character.toNat % 2 ^ 8 = character.toNat := Nat.mod_eq_of_lt (by omega)
  rw [Function.comp_apply, UInt8.toNat_ofNat', small, Char.ofNat_toNat]
  rfl

theorem decimal_injective : Function.Injective decimal := by
  intro left right same
  have characters : Nat.toDigits 10 left = Nat.toDigits 10 right := by
    rw [← characters_decimal left, same, characters_decimal right]
  have values := congrArg (fun digits => Nat.ofDigitChars 10 digits 0) characters
  simpa only [Nat.ofDigitChars_ten_toDigits] using values

/-! ### C strings -/

/-- What is left of a byte string once it is passed as a C string. -/
def cString (text : Bytes) : Bytes := text.takeWhile (fun byte => byte ≠ 0)

def withoutZeros (text : Bytes) : Bytes := text.filter (fun byte => byte ≠ 0)

/-- Nothing but NUL bytes follows the first of them. -/
def ZerosAtEnd (text : Bytes) : Prop :=
  ∀ before after, text = before ++ 0 :: after → ∀ byte ∈ after, byte = 0

@[simp] theorem withoutZeros_append (first second : Bytes) :
    withoutZeros (first ++ second) = withoutZeros first ++ withoutZeros second :=
  List.filter_append _ _

theorem withoutZeros_cons (byte : UInt8) (rest : Bytes) :
    withoutZeros (byte :: rest) =
      if byte = 0 then withoutZeros rest else byte :: withoutZeros rest := by
  unfold withoutZeros
  rw [List.filter_cons]
  by_cases zero : byte = 0 <;> simp [zero]

theorem cString_cons (byte : UInt8) (rest : Bytes) :
    cString (byte :: rest) = if byte = 0 then [] else byte :: cString rest := by
  unfold cString
  rw [List.takeWhile_cons]
  by_cases zero : byte = 0 <;> simp [zero]

private theorem withoutZeros_eq_nil {text : Bytes} :
    withoutZeros text = [] ↔ ∀ byte ∈ text, byte = 0 := by
  unfold withoutZeros
  rw [List.filter_eq_nil_iff]
  simp

theorem withoutZeros_of_notMem {text : Bytes} (zeroFree : 0 ∉ text) :
    withoutZeros text = text := by
  apply List.filter_eq_self.mpr
  intro byte member
  simp only [ne_eq, decide_eq_true_eq]
  intro same
  rw [same] at member
  exact zeroFree member

theorem zero_notMem_cString (text : Bytes) : 0 ∉ cString text := by
  induction text with
  | nil => exact List.not_mem_nil
  | cons byte rest ih =>
      rw [cString_cons]
      by_cases zero : byte = 0
      · rw [if_pos zero]
        exact List.not_mem_nil
      · rw [if_neg zero, List.mem_cons, not_or]
        exact ⟨Ne.symm zero, ih⟩

theorem cString_front (text : Bytes) : cString text <+: withoutZeros text := by
  induction text with
  | nil => exact List.prefix_refl []
  | cons byte rest ih =>
      rw [cString_cons, withoutZeros_cons]
      by_cases zero : byte = 0
      · rw [if_pos zero, if_pos zero]
        exact List.nil_prefix
      · rw [if_neg zero, if_neg zero]
        exact (List.prefix_cons_inj byte).mpr ih

theorem cString_append_zero (front rest : Bytes) :
    cString (front ++ 0 :: rest) = cString front := by
  induction front with
  | nil => rfl
  | cons byte front ih =>
      rw [List.cons_append, cString_cons, cString_cons, ih]

private theorem zerosAtEnd_cons_zero (rest : Bytes) :
    ZerosAtEnd (0 :: rest) ↔ ∀ byte ∈ rest, byte = 0 := by
  constructor
  · intro atEnd
    exact atEnd [] rest rfl
  · intro zeros before after split byte member
    cases before with
    | nil =>
        obtain ⟨_, rfl⟩ := List.cons.inj split
        exact zeros byte member
    | cons head tail =>
        obtain ⟨_, rfl⟩ := List.cons.inj split
        exact zeros byte (List.mem_append_right _ (List.mem_cons_of_mem _ member))

private theorem zerosAtEnd_cons {byte : UInt8} (nonzero : byte ≠ 0) (rest : Bytes) :
    ZerosAtEnd (byte :: rest) ↔ ZerosAtEnd rest := by
  constructor
  · intro atEnd before after split
    exact atEnd (byte :: before) after (by rw [split]; rfl)
  · intro atEnd before after split
    cases before with
    | nil => exact absurd (List.cons.inj split).1 nonzero
    | cons head tail => exact atEnd tail after (List.cons.inj split).2

/-- A C string keeps all but the NUL bytes exactly when they stand at the end. -/
theorem cString_eq_withoutZeros_iff (text : Bytes) :
    cString text = withoutZeros text ↔ ZerosAtEnd text := by
  induction text with
  | nil =>
      refine iff_of_true rfl ?_
      intro before after split
      exact absurd split.symm (List.append_ne_nil_of_right_ne_nil _ (List.cons_ne_nil _ _))
  | cons byte rest ih =>
      rw [cString_cons, withoutZeros_cons]
      by_cases zero : byte = 0
      · rw [if_pos zero, if_pos zero, zero, zerosAtEnd_cons_zero, ← withoutZeros_eq_nil]
        exact eq_comm
      · rw [if_neg zero, if_neg zero, zerosAtEnd_cons zero, ← ih, List.cons_inj_right]

@[simp] theorem withoutZeros_flatten_cons (head : Bytes) (later : List Bytes) :
    withoutZeros (head :: later).flatten = withoutZeros head ++ withoutZeros later.flatten := by
  rw [List.flatten_cons, withoutZeros_append]

private theorem flatMap_cString_length_le (chunks : List Bytes) :
    (chunks.flatMap cString).length ≤ (withoutZeros chunks.flatten).length := by
  induction chunks with
  | nil => exact Nat.le_refl 0
  | cons head later ih =>
      have front := (cString_front head).length_le
      rw [List.flatMap_cons, withoutZeros_flatten_cons, List.length_append, List.length_append]
      omega

/-- Printing a stream chunk by chunk as C strings loses only its NUL bytes
exactly when no chunk goes on behind one. -/
theorem flatMap_cString_iff (chunks : List Bytes) :
    chunks.flatMap cString = withoutZeros chunks.flatten ↔ ∀ chunk ∈ chunks, ZerosAtEnd chunk := by
  induction chunks with
  | nil => simp [withoutZeros]
  | cons head later ih =>
      rw [List.flatMap_cons, withoutZeros_flatten_cons, List.forall_mem_cons, ← ih,
        ← cString_eq_withoutZeros_iff]
      constructor
      · intro same
        have lengths := congrArg List.length same
        rw [List.length_append, List.length_append] at lengths
        have front := (cString_front head).length_le
        have back := flatMap_cString_length_le later
        exact List.append_inj same (by omega)
      · intro both
        rw [both.1, both.2]

/-! ### Parting at one byte -/

theorem splitOn_join (byte : UInt8) {items : List Bytes} (some : items ≠ []) :
    (join [byte] items).splitOn byte = items.flatMap (fun item => item.splitOn byte) := by
  induction items with
  | nil => exact absurd rfl some
  | cons head rest ih =>
      cases rest with
      | nil =>
          rw [List.flatMap_singleton]
          unfold join
          rw [List.intercalate_singleton]
      | cons next later =>
          have split : join [byte] (head :: next :: later) =
              head ++ byte :: join [byte] (next :: later) := by
            simp [join, List.intercalate_cons_cons]
          rw [split, List.splitOn_append_cons_self, ih (List.cons_ne_nil _ _)]
          exact List.flatMap_cons.symm

/-! ### Case and blanks at the ends -/

def lowerByte (byte : UInt8) : UInt8 := if 65 ≤ byte ∧ byte ≤ 90 then byte + 32 else byte

def upperByte (byte : UInt8) : UInt8 := if 97 ≤ byte ∧ byte ≤ 122 then byte - 32 else byte

def lower (text : Bytes) : Bytes := text.map lowerByte

def upper (text : Bytes) : Bytes := text.map upperByte

def strip (text : Bytes) : Bytes := (text.dropWhile isSpace).rdropWhile isSpace

private theorem lowerByte_lowerByte (byte : UInt8) :
    lowerByte (lowerByte byte) = lowerByte byte := by
  unfold lowerByte
  split
  · rename_i upper
    rw [if_neg]
    intro again
    have low := UInt8.le_iff_toNat_le.mp upper.1
    have high := UInt8.le_iff_toNat_le.mp upper.2
    have small := UInt8.le_iff_toNat_le.mp again.2
    rw [UInt8.toNat_add] at small
    change 65 ≤ byte.toNat at low
    change byte.toNat ≤ 90 at high
    change (byte.toNat + 32) % 256 ≤ 90 at small
    omega
  · rfl

theorem lower_lower (text : Bytes) : lower (lower text) = lower text := by
  unfold lower
  rw [List.map_map]
  apply List.map_congr_left
  intro byte _member
  exact lowerByte_lowerByte byte

private theorem isSpace_lowerByte (byte : UInt8) : isSpace (lowerByte byte) = isSpace byte := by
  unfold lowerByte
  split
  · rename_i upper
    have all : ∀ byte : UInt8, 65 ≤ byte ∧ byte ≤ 90 → isSpace (byte + 32) = isSpace byte := by
      decide +kernel
    exact all byte upper
  · rfl

theorem IsWord.lower {word : Bytes} (isWord : IsWord word) : IsWord (lower word) where
  nonempty := by
    intro empty
    exact isWord.nonempty (List.map_eq_nil_iff.mp empty)
  solid := by
    intro byte member
    obtain ⟨before, within, rfl⟩ := List.mem_map.mp member
    rw [isSpace_lowerByte]
    exact isWord.solid before within

theorem words_append (text : Bytes) {blank : UInt8} (space : isSpace blank = true) (rest : Bytes) :
    words (text ++ blank :: rest) = words text ++ words rest := by
  unfold words
  rw [List.splitOnP_append_cons text rest space, List.filter_append]

theorem words_strip (text : Bytes) : words (strip text) = words text := by
  rw [← words_dropWhile text]
  unfold strip
  generalize text.dropWhile isSpace = front
  induction front using List.reverseRecOn with
  | nil => rfl
  | append_singleton rest last ih =>
      cases blank : isSpace last with
      | true =>
          rw [List.rdropWhile_concat_pos _ _ _ blank, ih, words_append rest blank, words_nil,
            List.append_nil]
      | false => rw [List.rdropWhile_concat_neg _ _ _ (by rw [blank]; exact Bool.false_ne_true)]

end Text
