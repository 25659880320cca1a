/-
The string helpers of utility.cc.

Strings are byte strings.  Extraction with `>>` skips blanks and reads up to
the next one; the stream is at its end once nothing is left behind the word.
-/
import LDPlayer.Foundation.Text

set_option autoImplicit false

namespace LDPlayer

open Text

def to_string (value : Int) : Bytes := signedDecimal value

/-- `ss >> x`: the word and what the stream still holds. -/
def extract (text : Bytes) : Bytes × Bytes :=
  let front := text.dropWhile isSpace
  (front.takeWhile (fun byte => !isSpace byte), front.dropWhile (fun byte => !isSpace byte))

theorem extract_append (text : Bytes) :
    (extract text).1 ++ (extract text).2 = text.dropWhile isSpace :=
  List.takeWhile_append_dropWhile

private theorem head_dropWhile {stops : UInt8 → Bool} {text rest : Bytes} {head : UInt8}
    (front : text.dropWhile stops = head :: rest) : stops head = false := by
  have first := List.head?_dropWhile_not stops text
  rw [front] at first
  simpa using first

theorem extract_rest_length {text : Bytes} (more : (extract text).2 ≠ []) :
    (extract text).2.length < text.length := by
  have whole := congrArg List.length (extract_append text)
  rw [List.length_append] at whole
  have shorter : (text.dropWhile isSpace).length ≤ text.length :=
    (List.dropWhile_sublist isSpace).length_le
  cases front : text.dropWhile isSpace with
  | nil => simp [extract, front] at more
  | cons head rest =>
      have solid := head_dropWhile front
      have positive : 0 < (extract text).1.length := by
        simp [extract, front, solid]
      omega

/-- The body runs once more than there are words when blanks end the string:
the last extraction then yields the empty string. -/
def str_split_loop (text : Bytes) : List Bytes :=
  if _more : (extract text).2 ≠ [] then (extract text).1 :: str_split_loop (extract text).2
  else [(extract text).1]
termination_by text.length
decreasing_by exact extract_rest_length _more

def str_split (text : Bytes) : List Bytes :=
  if text = [] then [] else str_split_loop text

def trim_spaces (text : Bytes) : Bytes := (extract text).1

/-- The form with a separator: every piece, the empty ones included. -/
def str_split_at (text : Bytes) (separator : UInt8) (do_trim : Bool) : List Bytes :=
  (text.splitOn separator).map (fun piece => if do_trim then trim_spaces piece else piece)

def fmt_str (text separator : Bytes) : Bytes :=
  join separator ((str_split text).filter (fun item => item ≠ [] ∧ item ≠ ascii "\n"))

theorem extract_first_solid (text : Bytes) :
    ∀ byte ∈ (extract text).1, isSpace byte = false := by
  intro byte member
  simpa using List.mem_takeWhile_imp member

theorem extract_rest_blank (text : Bytes) :
    (extract text).2 = [] ∨
      ∃ blank later, (extract text).2 = blank :: later ∧ isSpace blank = true := by
  cases rest : (extract text).2 with
  | nil => exact Or.inl rfl
  | cons blank later =>
      have stopped := head_dropWhile rest
      exact Or.inr ⟨blank, later, rfl, by simpa using stopped⟩

theorem extract_first_nonempty {text : Bytes} (more : (extract text).2 ≠ []) :
    (extract text).1 ≠ [] := by
  intro empty
  have whole := extract_append text
  rw [empty, List.nil_append] at whole
  rcases extract_rest_blank text with none | ⟨blank, later, split, space⟩
  · exact more none
  · have kept := head_dropWhile (whole.symm.trans split)
    rw [space] at kept
    cases kept

theorem words_extract {text : Bytes} (nonempty : (extract text).1 ≠ []) :
    words text = (extract text).1 :: words (extract text).2 :=
  words_eq_cons ⟨nonempty, extract_first_solid text⟩ (extract_append text).symm
    (extract_rest_blank text)

theorem words_extract_blank {text : Bytes} (blank : (extract text).1 = [])
    (ended : (extract text).2 = []) : words text = [] := by
  have whole := extract_append text
  rw [blank, ended, List.append_nil] at whole
  rw [← words_dropWhile, ← whole, words_nil]

theorem str_split_loop_words (text : Bytes) :
    (str_split_loop text).filter (fun item => item ≠ []) = words text := by
  induction text using str_split_loop.induct with
  | case1 text more ih =>
      have nonempty := extract_first_nonempty more
      rw [str_split_loop, dif_pos more, List.filter_cons_of_pos (by simpa using nonempty), ih]
      exact (words_extract nonempty).symm
  | case2 text ended =>
      have rest : (extract text).2 = [] := not_not.mp ended
      rw [str_split_loop, dif_neg ended]
      by_cases empty : (extract text).1 = []
      · rw [words_extract_blank empty rest, empty]
        rfl
      · rw [List.filter_cons_of_pos (by simpa using empty), List.filter_nil, words_extract empty,
          rest, words_nil]

def EndsInSpace (text : Bytes) : Prop := text.getLast?.any isSpace = true

instance (text : Bytes) : Decidable (EndsInSpace text) := inferInstanceAs (Decidable (_ = true))

private theorem getLast?_extract {text : Bytes}
    (nonempty : (extract text).1 ++ (extract text).2 ≠ []) :
    text.getLast? = ((extract text).1 ++ (extract text).2).getLast? := by
  have split := @List.takeWhile_append_dropWhile _ isSpace text
  rw [← extract_append] at split
  calc text.getLast?
      = (text.takeWhile isSpace ++ ((extract text).1 ++ (extract text).2)).getLast? := by rw [split]
    _ = ((extract text).1 ++ (extract text).2).getLast? :=
        List.getLast?_append_of_ne_nil _ nonempty

/-- The pieces are the words, and the empty one behind a blank at the end. -/
theorem str_split_loop_eq {text : Bytes} (some : text ≠ []) :
    str_split_loop text = words text ++ if EndsInSpace text then [[]] else [] := by
  induction text using str_split_loop.induct with
  | case1 text more ih =>
      have nonempty := extract_first_nonempty more
      have last : EndsInSpace text ↔ EndsInSpace (extract text).2 := by
        unfold EndsInSpace
        rw [getLast?_extract (List.append_ne_nil_of_right_ne_nil _ more),
          List.getLast?_append_of_ne_nil _ more]
      rw [str_split_loop, dif_pos more, ih more, words_extract nonempty, List.cons_append]
      simp only [last]
  | case2 text ended =>
      have rest : (extract text).2 = [] := not_not.mp ended
      rw [str_split_loop, dif_neg ended]
      by_cases empty : (extract text).1 = []
      · have blank : EndsInSpace text := by
          have skipped := extract_append text
          rw [empty, rest, List.append_nil] at skipped
          have all : ∀ byte ∈ text, isSpace byte = true := List.dropWhile_eq_nil_iff.mp skipped.symm
          unfold EndsInSpace
          rw [List.getLast?_eq_getLast_of_ne_nil some]
          exact all _ (List.getLast_mem some)
        rw [words_extract_blank empty rest, if_pos blank, empty, List.nil_append]
      · have solid : ¬ EndsInSpace text := by
          unfold EndsInSpace
          rw [getLast?_extract (List.append_ne_nil_of_left_ne_nil empty _), rest, List.append_nil,
            List.getLast?_eq_getLast_of_ne_nil empty]
          intro blank
          have last := extract_first_solid text _ (List.getLast_mem empty)
          rw [Option.any_some, last] at blank
          cases blank
        rw [words_extract empty, rest, words_nil, if_neg solid, List.append_nil]

theorem fmt_str_blank (text : Bytes) : fmt_str text [32] = join [32] (words text) := by
  by_cases empty : text = []
  · subst empty
    rfl
  · unfold fmt_str str_split
    rw [if_neg empty, ← str_split_loop_words]
    congr 1
    apply List.filter_congr
    intro item member
    by_cases blank : item = []
    · simp [blank]
    · have isWord : IsWord item := by
        have listed : item ∈ words text := by
          rw [← str_split_loop_words]
          exact List.mem_filter.mpr ⟨member, by simpa using blank⟩
        exact words_isWord listed
      have notNewline : item ≠ ascii "\n" := by
        intro same
        have solid := isWord.solid 10 (by rw [same]; decide)
        cases solid
      simp [blank, notNewline]

/-! ### Numbers in text -/

def isDigit (byte : UInt8) : Bool := 48 ≤ byte && byte ≤ 57

def digitsValue (digits : Bytes) : Nat :=
  digits.foldl (fun total digit => total * 10 + (digit.toNat - 48)) 0

/-- `std::stoi`: blanks, a sign and as many digits as follow; the exceptions
for text without a number and for a value outside `int` both give nothing. -/
def stoi (text : Bytes) : Option Int :=
  let unsigned (negative : Bool) (rest : Bytes) : Option Int :=
    let digits := rest.takeWhile isDigit
    let value : Int := if negative then -(digitsValue digits) else digitsValue digits
    if digits ≠ [] ∧ -2 ^ 31 ≤ value ∧ value < 2 ^ 31 then some value else none
  match text.dropWhile isSpace with
  | 45 :: rest => unsigned true rest
  | 43 :: rest => unsigned false rest
  | rest => unsigned false rest

theorem to_string_natCast (value : Nat) : to_string value = decimal value := by
  unfold to_string signedDecimal
  rw [if_neg (by omega), Int.natAbs_natCast]

/-! ### Digits -/

private theorem digitsValue_append (front back : Bytes) :
    digitsValue (front ++ back) = digitsValue front * 10 ^ back.length + digitsValue back := by
  induction back using List.reverseRecOn with
  | nil => simp [digitsValue]
  | append_singleton rest digit ih =>
      have step : ∀ digits : Bytes,
          digitsValue (digits ++ [digit]) = digitsValue digits * 10 + (digit.toNat - 48) := by
        intro digits
        unfold digitsValue
        rw [List.foldl_append, List.foldl_cons, List.foldl_nil]
      rw [← List.append_assoc, step, ih, step, List.length_append, List.length_singleton,
        Nat.pow_succ, Nat.add_mul, Nat.mul_assoc, Nat.add_assoc]

private theorem isDigit_code {byte : UInt8} (digit : isDigit byte = true) :
    48 ≤ byte.toNat ∧ byte.toNat ≤ 57 := by
  unfold isDigit at digit
  rw [Bool.and_eq_true, decide_eq_true_eq, decide_eq_true_eq] at digit
  exact ⟨UInt8.le_iff_toNat_le.mp digit.1, UInt8.le_iff_toNat_le.mp digit.2⟩

theorem digitsValue_lt {digits : Bytes} (all : ∀ byte ∈ digits, isDigit byte = true) :
    digitsValue digits < 10 ^ digits.length := by
  induction digits using List.reverseRecOn with
  | nil => exact Nat.one_pos
  | append_singleton rest digit ih =>
      obtain ⟨others, last⟩ := List.forall_mem_append.mp all
      have bound := ih others
      have code := isDigit_code (last digit List.mem_cons_self)
      have single : digitsValue [digit] = digit.toNat - 48 := by simp [digitsValue]
      rw [digitsValue_append, single, List.length_append, List.length_singleton, Nat.pow_one,
        Nat.pow_succ]
      omega

theorem digitsValue_zeros (count : Nat) (digits : Bytes) :
    digitsValue (List.replicate count 48 ++ digits) = digitsValue digits := by
  induction count with
  | zero => rfl
  | succ count ih =>
      rw [List.replicate_succ, List.cons_append, ← ih]
      unfold digitsValue
      rw [List.foldl_cons]
      rfl

theorem digitsValue_decimal (value : Nat) : digitsValue (decimal value) = value := by
  have characters : ∀ (digits : List Char) (start : Nat), (∀ digit ∈ digits, digit.isDigit = true) →
      (digits.map (fun digit => UInt8.ofNat digit.toNat)).foldl
          (fun total digit => total * 10 + (digit.toNat - 48)) start =
        Nat.ofDigitChars 10 digits start := by
    intro digits
    induction digits with
    | nil => intro start _all; rw [Nat.ofDigitChars_nil]; rfl
    | cons digit rest ih =>
        intro start all
        obtain ⟨first, others⟩ := List.forall_mem_cons.mp all
        have code : digit.toNat ≤ 57 := by
          simp only [Char.isDigit, ge_iff_le, Bool.and_eq_true, decide_eq_true_eq] at first
          exact first.2
        have byte : (UInt8.ofNat digit.toNat).toNat = digit.toNat := by
          rw [UInt8.toNat_ofNat', Nat.mod_eq_of_lt (by omega)]
        rw [List.map_cons, List.foldl_cons, ih _ others, Nat.ofDigitChars_cons, byte, Nat.mul_comm]
        rfl
  unfold digitsValue decimal
  rw [characters _ _ (fun digit member => Nat.isDigit_of_mem_toDigits (by decide) (by decide) member)]
  exact Nat.ofDigitChars_ten_toDigits

private theorem isDigit_of_code {byte : UInt8} (code : 48 ≤ byte.toNat ∧ byte.toNat ≤ 57) :
    isDigit byte = true := by
  unfold isDigit
  rw [Bool.and_eq_true, decide_eq_true_eq, decide_eq_true_eq]
  exact ⟨UInt8.le_iff_toNat_le.mpr code.1, UInt8.le_iff_toNat_le.mpr code.2⟩

theorem decimal_isDigit (value : Nat) : ∀ byte ∈ decimal value, isDigit byte = true :=
  fun _ member => isDigit_of_code (mem_decimal member)

theorem decimal_length_le_iff {value count : Nat} (positive : 0 < count) :
    (decimal value).length ≤ count ↔ value < 10 ^ count := by
  unfold decimal
  rw [List.length_map]
  exact Nat.length_toDigits_le_iff (by decide) positive

theorem decimal_length_le {value count : Nat} (positive : 0 < count)
    (small : value < 10 ^ count) : (decimal value).length ≤ count :=
  (decimal_length_le_iff positive).mpr small

def size_t_sub (size count : Nat) : Nat :=
  if size < count then 2 ^ 64 + size - count else size - count

theorem isDigit_solid {byte : UInt8} (digit : isDigit byte = true) : isSpace byte = false := by
  have all : ∀ byte : UInt8, isDigit byte = true → isSpace byte = false := by decide +kernel
  exact all byte digit

theorem stoi_digits {digits : Bytes} (some : digits ≠ [])
    (all : ∀ byte ∈ digits, isDigit byte = true) :
    stoi digits =
      if digitsValue digits < 2 ^ 31 then .some (digitsValue digits : Int) else none := by
  have taken : digits.takeWhile isDigit = digits := List.takeWhile_eq_self_iff.mpr all
  have unsigned : (if digits ≠ [] ∧ -2 ^ 31 ≤ (digitsValue digits : Int) ∧
      (digitsValue digits : Int) < 2 ^ 31 then Option.some (digitsValue digits : Int) else none) =
      if digitsValue digits < 2 ^ 31 then .some (digitsValue digits : Int) else none := by
    by_cases small : digitsValue digits < 2 ^ 31
    · rw [if_pos small, if_pos ⟨some, by omega, by omega⟩]
    · rw [if_neg small, if_neg (fun three => small (by omega))]
  cases digits with
  | nil => exact absurd rfl some
  | cons head rest =>
      have first := all head List.mem_cons_self
      have front : (head :: rest).dropWhile isSpace = head :: rest := by
        rw [List.dropWhile_cons_of_neg]
        rw [isDigit_solid first]
        exact Bool.false_ne_true
      unfold stoi
      rw [front]
      split
      · rename_i same
        obtain ⟨rfl, _⟩ := List.cons.inj same
        cases first
      · rename_i same
        obtain ⟨rfl, _⟩ := List.cons.inj same
        cases first
      · simp only [taken, Bool.false_eq_true, if_false]
        exact unsigned

/-! ### Checks of numbers -/

def shown (text : Bytes) : String :=
  String.ofList (text.map (fun byte => Char.ofNat byte.toNat))

def is_number (s : Bytes) (positive : Bool) : Bool :=
  match trim_spaces s with
  | [] => false
  | first :: rest =>
      if positive then
        if first = 45 then false
        else if first = 43 then rest.all isDigit
        else (first :: rest).all isDigit
      else if first = 45 then rest.all isDigit
      else false

def unsigned : Bytes → Bytes
  | 43 :: rest => rest
  | word => word

theorem extract_solid {text : Bytes} (solid : ∀ byte ∈ text, isSpace byte = false) :
    extract text = (text, []) := by
  have front : text.dropWhile isSpace = text := by
    cases text with
    | nil => rfl
    | cons head rest =>
        rw [List.dropWhile_cons_of_neg]
        rw [solid head List.mem_cons_self]
        exact Bool.false_ne_true
  have all : ∀ byte ∈ text, (!isSpace byte) = true := by
    intro byte member
    rw [solid byte member]
    rfl
  unfold extract
  simp only [front, List.takeWhile_eq_self_iff.mpr all, List.dropWhile_eq_nil_iff.mpr all]

theorem unsigned_of_ne {first : UInt8} (no_plus : first ≠ 43) (rest : Bytes) :
    unsigned (first :: rest) = first :: rest := by
  unfold unsigned
  split
  · rename_i same
    exact absurd (List.cons.inj same).1 no_plus
  · rfl

theorem unsigned_digits {digits : Bytes} (some : digits ≠ [])
    (all : ∀ byte ∈ digits, isDigit byte = true) : unsigned digits = digits := by
  cases digits with
  | nil => exact absurd rfl some
  | cons first rest =>
      apply unsigned_of_ne
      intro same
      have digit := all first List.mem_cons_self
      rw [same] at digit
      cases digit

/-- The test reads the first word: digits behind an optional plus, or a plus alone. -/
theorem is_number_iff (s : Bytes) :
    is_number s true = true ↔
      (extract s).1 ≠ [] ∧ ∀ byte ∈ unsigned (extract s).1, isDigit byte = true := by
  unfold is_number trim_spaces
  cases word : (extract s).1 with
  | nil => simp
  | cons first rest =>
      have nonempty : first :: rest ≠ [] := List.cons_ne_nil _ _
      simp only [if_true, nonempty, ne_eq, not_false_eq_true, true_and]
      by_cases plus : first = 43
      · subst plus
        rw [if_neg (by decide), if_pos rfl, List.all_eq_true]
        rfl
      · rw [unsigned_of_ne plus, ← List.all_eq_true]
        by_cases minus : first = 45
        · subst minus
          simp [isDigit]
        · rw [if_neg minus, if_neg plus]

/-! ### Conversion with `atoi` -/

/-- The value saturates at the bounds of 64 bits. -/
def strtol (text : Bytes) : Int :=
  match text.dropWhile isSpace with
  | 45 :: rest => max (-(digitsValue (rest.takeWhile isDigit) : Int)) (-2 ^ 63)
  | 43 :: rest => min (digitsValue (rest.takeWhile isDigit) : Int) (2 ^ 63 - 1)
  | rest => min (digitsValue (rest.takeWhile isDigit) : Int) (2 ^ 63 - 1)

/-- The low 32 bits of what `strtol` returns. -/
def atoi (text : Bytes) : Int := (strtol text).bmod (2 ^ 32)

private theorem takeWhile_isDigit_blank {rest : Bytes}
    (stops : rest = [] ∨ ∃ blank later, rest = blank :: later ∧ isSpace blank = true) :
    rest.takeWhile isDigit = [] := by
  rcases stops with rfl | ⟨blank, later, rfl, space⟩
  · rfl
  · apply List.takeWhile_cons_of_neg
    intro digit
    rw [isDigit_solid digit] at space
    cases space

theorem strtol_of_is_number {s : Bytes} (accepted : is_number s true = true) :
    strtol s = min (digitsValue (unsigned (extract s).1) : Int) (2 ^ 63 - 1) := by
  obtain ⟨some, digits⟩ := (is_number_iff s).mp accepted
  have front := extract_append s
  have stops := takeWhile_isDigit_blank (extract_rest_blank s)
  have taken : ∀ word : Bytes, (∀ byte ∈ word, isDigit byte = true) →
      (word ++ (extract s).2).takeWhile isDigit = word := by
    intro word all
    rw [List.takeWhile_append_of_pos all, stops, List.append_nil]
  cases word : (extract s).1 with
  | nil => exact absurd word some
  | cons first rest =>
      rw [word] at digits front
      by_cases plus : first = 43
      · subst plus
        unfold strtol
        rw [← front]
        simp only [List.cons_append, taken rest digits, unsigned]
      · rw [unsigned_of_ne plus] at digits ⊢
        have minus : first ≠ 45 := by
          intro same
          have digit := digits first List.mem_cons_self
          rw [same] at digit
          cases digit
        unfold strtol
        rw [← front]
        split
        · rename_i same
          exact absurd (List.cons.inj same).1 minus
        · rename_i same
          exact absurd (List.cons.inj same).1 plus
        · rw [taken _ digits]

end LDPlayer
