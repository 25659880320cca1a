/-
Time stamps in text files: what the readers make of the first field of a line,
and that they read back what the mutator writes.

The readers take the digits behind the dot for a number of microseconds, however
many they are.
-/
import LDPlayer.Input.TextLine

set_option autoImplicit false

namespace LDPlayer

open Text

/-! ### Reading -/

theorem stoi_or_exit_digits {digits : Bytes} (some : digits ≠ [])
    (all : ∀ byte ∈ digits, isDigit byte = true) :
    stoi_or_exit digits =
      if digitsValue digits < 2 ^ 31 then .ok (digitsValue digits : Int)
      else .error (.exit "stoi") := by
  unfold stoi_or_exit
  rw [stoi_digits some all]
  by_cases small : digitsValue digits < 2 ^ 31
  · rw [if_pos small, if_pos small]
  · rw [if_neg small, if_neg small]

private theorem dot_notMem {digits : Bytes} (all : ∀ byte ∈ digits, isDigit byte = true) :
    46 ∉ digits := by
  intro member
  have digit := all 46 member
  cases digit

private theorem time_stamp_undotted {field : Bytes} (noDot : 46 ∉ field) :
    time_stamp field = (stoi_or_exit field).map (fun seconds => (seconds, 0)) := by
  unfold time_stamp
  simp only [List.count_eq_zero.mpr noDot, gt_iff_lt, Nat.not_lt_zero, if_false, if_true]
  cases stoi_or_exit field <;> rfl

/-- Both parts of a field with one dot are read as numbers of their own. -/
theorem time_stamp_dotted {t1 t2 : Bytes} (some : t1 ≠ []) (someBehind : t2 ≠ [])
    (noDot : 46 ∉ t1) (noDotBehind : 46 ∉ t2) :
    time_stamp (t1 ++ 46 :: t2) =
      (stoi_or_exit t1).bind fun seconds =>
        (stoi_or_exit t2).map (fun microseconds => (seconds, microseconds)) := by
  have count : (t1 ++ 46 :: t2).count 46 = 1 := by
    rw [List.count_append, List.count_eq_zero.mpr noDot, List.count_cons_self,
      List.count_eq_zero.mpr noDotBehind]
  have before : ∀ byte ∈ t1, decide (byte ≠ 46) = true := by
    intro byte member
    exact decide_eq_true (fun same => noDot (same ▸ member))
  have parts : str_split_two (t1 ++ 46 :: t2) 46 = .ok (t1, t2) := by
    unfold str_split_two
    rw [if_pos (List.mem_append_right _ List.mem_cons_self),
      List.takeWhile_append_of_pos before, List.dropWhile_append_of_pos before]
    simp
  unfold time_stamp
  simp only [count, gt_iff_lt, Nat.lt_irrefl, if_false, Nat.one_ne_zero, parts, if_neg some,
    if_neg someBehind]
  cases stoi_or_exit t1 with
  | error fault => rfl
  | ok seconds => cases stoi_or_exit t2 <;> rfl

/-- A time field: digits, and where there is a fraction a dot and at most six
digits more. -/
structure Stamp where
  whole : Bytes
  fraction : Bytes
  whole_some : whole ≠ []
  whole_digits : ∀ byte ∈ whole, isDigit byte = true
  fraction_digits : ∀ byte ∈ fraction, isDigit byte = true
  fraction_length : fraction.length ≤ 6

namespace Stamp

def text (stamp : Stamp) : Bytes :=
  if stamp.fraction = [] then stamp.whole else stamp.whole ++ 46 :: stamp.fraction

def micros (stamp : Stamp) : Nat :=
  digitsValue stamp.whole * 10 ^ 6 +
    digitsValue stamp.fraction * 10 ^ (6 - stamp.fraction.length)

/-- The seconds are an `int`, and the fraction has all six digits or is zero. -/
def Exact (stamp : Stamp) : Prop :=
  digitsValue stamp.whole < 2 ^ 31 ∧
    (stamp.fraction.length = 6 ∨ digitsValue stamp.fraction = 0)

instance (stamp : Stamp) : Decidable stamp.Exact := inferInstanceAs (Decidable (_ ∧ _))

theorem fraction_lt (stamp : Stamp) : digitsValue stamp.fraction < 10 ^ 6 :=
  Nat.lt_of_lt_of_le (digitsValue_lt stamp.fraction_digits)
    (Nat.pow_le_pow_right (by decide) stamp.fraction_length)

theorem time_stamp_text (stamp : Stamp) :
    time_stamp stamp.text =
      if digitsValue stamp.whole < 2 ^ 31 then
        .ok ((digitsValue stamp.whole : Int), (digitsValue stamp.fraction : Int))
      else .error (.exit "stoi") := by
  have noDot := dot_notMem stamp.whole_digits
  have parsed := stoi_or_exit_digits stamp.whole_some stamp.whole_digits
  unfold text
  by_cases none : stamp.fraction = []
  · rw [if_pos none, none, time_stamp_undotted noDot, parsed]
    by_cases small : digitsValue stamp.whole < 2 ^ 31
    · rw [if_pos small, if_pos small]
      rfl
    · rw [if_neg small, if_neg small]
      rfl
  · have parsedBehind : stoi_or_exit stamp.fraction = .ok (digitsValue stamp.fraction : Int) := by
      rw [stoi_or_exit_digits none stamp.fraction_digits,
        if_pos (Nat.lt_trans stamp.fraction_lt (by decide))]
    rw [if_neg none,
      time_stamp_dotted stamp.whole_some none noDot (dot_notMem stamp.fraction_digits), parsed,
      parsedBehind]
    by_cases small : digitsValue stamp.whole < 2 ^ 31
    · rw [if_pos small, if_pos small]
      rfl
    · rw [if_neg small, if_neg small]
      rfl

/-- The value read is the value written exactly for exact stamps. -/
theorem value_iff (stamp : Stamp) :
    digitsValue stamp.whole * 10 ^ 6 + digitsValue stamp.fraction = stamp.micros ↔
      stamp.fraction.length = 6 ∨ digitsValue stamp.fraction = 0 := by
  unfold micros
  rw [Nat.add_left_cancel_iff]
  constructor
  · intro same
    by_contra neither
    obtain ⟨other, positive⟩ := not_or.mp neither
    have short := stamp.fraction_length
    have factor : 10 ^ 1 ≤ 10 ^ (6 - stamp.fraction.length) :=
      Nat.pow_le_pow_right (by decide) (by omega)
    have grows := Nat.mul_le_mul_left (digitsValue stamp.fraction) factor
    omega
  · intro exact
    rcases exact with whole | zero
    · rw [whole, Nat.sub_self, Nat.pow_zero, Nat.mul_one]
    · rw [zero, Nat.zero_mul]

end Stamp

def Decodes (read : Except Fault DNSMsg) (micros : Nat) : Prop :=
  ∃ msg seconds microseconds, read = .ok msg ∧
    msg.seconds? = some seconds ∧ msg.microseconds? = some microseconds ∧
    0 ≤ microseconds ∧ microseconds < 10 ^ 6 ∧
    seconds * 10 ^ 6 + microseconds = (micros : Int)

theorem InputClass.process_line_time (ldns : Ldns) {input : InputClass} {line time : Bytes}
    (timed : input.TimeOf line time) :
    ∃ rest : Int × Int → DNSMsg,
      (∀ stamp, (rest stamp).seconds? = some stamp.1 ∧
        (rest stamp).microseconds? = some stamp.2) ∧
      input.process_line ldns line = (time_stamp time).map rest := by
  obtain ⟨read, src_ip, qname, qclass, qtype, protocol, fields⟩ := timed
  refine ⟨fun stamp =>
    { raw? := some (input.build ldns qname qclass qtype)
      src_ip? := some src_ip
      seconds? := some stamp.1
      microseconds? := some stamp.2
      tcp? := some (protocol = ascii "tcp")
      ipv4? := some true }, fun stamp => ⟨rfl, rfl⟩, ?_⟩
  rw [process_line_eq]
  unfold LDPlayer.process_line
  rw [if_neg read, fields]
  simp only
  cases time_stamp time <;> rfl

/-- Both readers decode a stamp to its value exactly when the stamp is exact,
and exact stamps keep their order. -/
theorem process_line_decodes_time_iff (ldns : Ldns) (input : InputClass) (stamp : Stamp)
    (line : Bytes) (timed : input.TimeOf line stamp.text) :
    (Decodes (input.process_line ldns line) stamp.micros ↔
      digitsValue stamp.whole < 2 ^ 31 ∧
        (stamp.fraction.length = 6 ∨ digitsValue stamp.fraction = 0)) ∧
    (stamp.Exact → ∀ (later : Stamp) (behind : Bytes),
      input.TimeOf behind later.text → later.Exact →
      ∃ msg next, input.process_line ldns line = .ok msg ∧
        input.process_line ldns behind = .ok next ∧
        (stamp.micros < later.micros ↔
          msg.seconds < next.seconds ∨
            msg.seconds = next.seconds ∧ msg.microseconds < next.microseconds)) := by
  obtain ⟨rest, fields, read⟩ := InputClass.process_line_time ldns timed
  constructor
  · rw [read, stamp.time_stamp_text, ← stamp.value_iff]
    by_cases small : digitsValue stamp.whole < 2 ^ 31
    · rw [if_pos small, and_iff_right small]
      have bound := stamp.fraction_lt
      obtain ⟨seconds, microseconds⟩ :=
        fields ((digitsValue stamp.whole : Int), (digitsValue stamp.fraction : Int))
      constructor
      · intro decodes
        obtain ⟨msg, _, _, decoded, known, knownMicro, _, _, value⟩ := decodes
        obtain rfl := Except.ok.inj decoded
        obtain rfl := Option.some.inj (seconds.symm.trans known)
        obtain rfl := Option.some.inj (microseconds.symm.trans knownMicro)
        omega
      · intro value
        refine ⟨_, _, _, rfl, seconds, microseconds, ?_, ?_, ?_⟩ <;> simp only <;> omega
    · rw [if_neg small]
      refine iff_of_false ?_ (fun both => small both.1)
      intro decodes
      obtain ⟨msg, _, _, faulted, _⟩ := decodes
      cases faulted
  · intro exact later behind timedLater exactLater
    obtain ⟨restLater, fieldsLater, readLater⟩ := InputClass.process_line_time ldns timedLater
    rw [stamp.time_stamp_text, if_pos exact.1] at read
    rw [later.time_stamp_text, if_pos exactLater.1] at readLater
    refine ⟨_, _, read, readLater, ?_⟩
    obtain ⟨seconds, microseconds⟩ :=
      fields ((digitsValue stamp.whole : Int), (digitsValue stamp.fraction : Int))
    obtain ⟨secondsLater, microsecondsLater⟩ :=
      fieldsLater ((digitsValue later.whole : Int), (digitsValue later.fraction : Int))
    have value := stamp.value_iff.mpr exact.2
    have valueLater := later.value_iff.mpr exactLater.2
    have bound := stamp.fraction_lt
    have boundLater := later.fraction_lt
    unfold DNSMsg.seconds DNSMsg.microseconds
    rw [seconds, microseconds, secondsLater, microsecondsLater]
    simp only [Option.getD_some]
    omega

theorem InputClass.timeOf_of_words {line time src_ip qname qclass qtype protocol : Bytes}
    (read : ¬ Skipped line) (solid : ¬ EndsInSpace line)
    (six : words line = [time, src_ip, qname, qclass, qtype, protocol]) (input : InputClass) :
    input.TimeOf line time := by
  refine ⟨read, src_ip, qname, qclass, qtype, protocol, ?_⟩
  rw [← six]
  have some : line ≠ [] := fun empty => read (Or.inl empty)
  cases input with
  | inputSource =>
      change LDPlayer.str_split line = _
      rw [str_split_eq some, if_neg solid, List.append_nil]
  | inputStream => exact InputStream.str_split_eq line

def sample_ldns : Ldns where
  build_dns_pkt := [0]
  build_dns_query _ _ _ := [1]
  build_dns_pkt_query _ _ _ _ := [1]

def half_with_zeros : Stamp where
  whole := ascii "1"
  fraction := ascii "500000"
  whole_some := by decide
  whole_digits := by decide +kernel
  fraction_digits := by decide +kernel
  fraction_length := by decide +kernel

def half : Stamp where
  whole := ascii "1"
  fraction := ascii "5"
  whole_some := by decide
  whole_digits := by decide +kernel
  fraction_digits := by decide +kernel
  fraction_length := by decide +kernel

private theorem half_with_zeros_read (input : InputClass) :
    input.TimeOf (ascii "1.500000 10.0.0.1 a. IN A udp") half_with_zeros.text := by
  have six : words (ascii "1.500000 10.0.0.1 a. IN A udp") =
      [half_with_zeros.text, ascii "10.0.0.1", ascii "a.", ascii "IN", ascii "A", ascii "udp"] := by
    decide +kernel
  exact InputClass.timeOf_of_words (by decide +kernel) (by decide +kernel) six input

private theorem half_read (input : InputClass) :
    input.TimeOf (ascii "1.5 10.0.0.1 a. IN A udp") half.text := by
  have six : words (ascii "1.5 10.0.0.1 a. IN A udp") =
      [half.text, ascii "10.0.0.1", ascii "a.", ascii "IN", ascii "A", ascii "udp"] := by
    decide +kernel
  exact InputClass.timeOf_of_words (by decide +kernel) (by decide +kernel) six input

/-- With the zeros it is read as 1500000 microseconds. -/
theorem process_line_decodes_time_half :
    Decodes (InputClass.inputSource.process_line sample_ldns
      (ascii "1.500000 10.0.0.1 a. IN A udp")) 1500000 := by
  have value : half_with_zeros.micros = 1500000 := by decide +kernel
  rw [← value]
  exact (process_line_decodes_time_iff sample_ldns .inputSource half_with_zeros _
    (half_with_zeros_read .inputSource)).1.mpr (by decide +kernel)

/-- Without them both readers make it 1 second and 5 microseconds. -/
theorem half_second_lost :
    half.micros = 1500000 ∧
    (InputClass.inputSource.process_line sample_ldns (ascii "1.5 10.0.0.1 a. IN A udp")).map
        DNSMsg.q_ts = .ok { tv_sec := 1, tv_usec := 5 } ∧
    (InputClass.inputStream.process_line sample_ldns (ascii "1.5 10.0.0.1 a. IN A udp")).map
        DNSMsg.q_ts = .ok { tv_sec := 1, tv_usec := 5 } := by
  have both : ∀ input : InputClass,
      (input.process_line sample_ldns (ascii "1.5 10.0.0.1 a. IN A udp")).map DNSMsg.q_ts =
        .ok { tv_sec := 1, tv_usec := 5 } := by
    intro input
    obtain ⟨rest, fields, read⟩ := input.process_line_time sample_ldns (half_read input)
    have stamp : time_stamp half.text = .ok (1, 5) := by decide +kernel
    obtain ⟨seconds, microseconds⟩ := fields (1, 5)
    rw [read, stamp]
    change Except.ok (DNSMsg.q_ts (rest (1, 5))) = _
    unfold DNSMsg.q_ts DNSMsg.seconds DNSMsg.microseconds
    rw [seconds, microseconds]
    rfl
  exact ⟨by decide +kernel, both .inputSource, both .inputStream⟩

/-! ### Writing -/

def Stamp.ofTime (seconds : Nat) {microseconds : Nat} (within : microseconds < 10 ^ 6) : Stamp where
  whole := decimal seconds
  fraction := List.replicate (6 - (decimal microseconds).length) 48 ++ decimal microseconds
  whole_some := (decimal_isWord seconds).nonempty
  whole_digits := decimal_isDigit seconds
  fraction_digits := by
    intro byte member
    rcases List.mem_append.mp member with zero | digit
    · rw [List.eq_of_mem_replicate zero]
      rfl
    · exact decimal_isDigit microseconds byte digit
  fraction_length := by
    have short := decimal_length_le (by decide) within
    rw [List.length_append, List.length_replicate]
    omega

namespace Stamp

variable (seconds : Nat) {microseconds : Nat} (within : microseconds < 10 ^ 6)

theorem ofTime_six : (ofTime seconds within).fraction.length = 6 := by
  have short := decimal_length_le (by decide) within
  change (List.replicate _ 48 ++ decimal microseconds).length = 6
  rw [List.length_append, List.length_replicate]
  omega

theorem ofTime_text :
    (ofTime seconds within).text = decimal seconds ++ 46 :: (ofTime seconds within).fraction := by
  have six := ofTime_six seconds within
  unfold text
  rw [if_neg]
  · rfl
  · intro none
    rw [none] at six
    cases six

private theorem ofTime_value :
    digitsValue (ofTime seconds within).whole = seconds ∧
      digitsValue (ofTime seconds within).fraction = microseconds := by
  constructor
  · exact digitsValue_decimal seconds
  · change digitsValue (List.replicate _ 48 ++ decimal microseconds) = microseconds
    rw [digitsValue_zeros, digitsValue_decimal]

variable {seconds} in
private theorem time_column_eq {msg : DNSMsg} (whole : msg.seconds = (seconds : Int))
    (micro : msg.microseconds = (microseconds : Int)) :
    time_column msg = .ok (ofTime seconds within).text := by
  have short := decimal_length_le (by decide) within
  unfold time_column
  rw [ofTime_text, whole, micro, to_string_natCast, to_string_natCast]
  simp only [if_neg (Nat.not_lt.mpr short), List.append_assoc]
  rfl

private theorem text_isWord (stamp : Stamp) : IsWord stamp.text := by
  have solidWhole : ∀ byte ∈ stamp.whole, isSpace byte = false :=
    fun byte member => isDigit_solid (stamp.whole_digits byte member)
  unfold text
  split
  · exact ⟨stamp.whole_some, solidWhole⟩
  · refine ⟨List.append_ne_nil_of_left_ne_nil stamp.whole_some _, ?_⟩
    intro byte member
    rcases List.mem_append.mp member with front | back
    · exact solidWhole byte front
    · rcases List.mem_cons.mp back with rfl | digit
      · rfl
      · exact isDigit_solid (stamp.fraction_digits byte digit)

end Stamp

private theorem write_text_eq (dns_msg_str : Bytes → Option Bytes) {msg : DNSMsg} {time : Bytes}
    (column : time_column msg = .ok time) :
    write_text dns_msg_str msg = .ok ((dns_msg_str msg.raw).map (fun msg_str =>
      time ++ 9 :: (msg.src_ip ++ ascii "\t" ++
        (if msg.tcp then ascii "tcp\t" else ascii "udp\t") ++ msg_str ++ ascii "\n"))) := by
  unfold write_text
  rw [column]
  simp only [List.append_assoc]
  rfl

theorem InputClass.str_split_front (input : InputClass) {time : Bytes} (isWord : IsWord time)
    {blank : UInt8} (space : isSpace blank = true) (rest : Bytes) :
    (input.str_split (time ++ blank :: rest)).head? = some time := by
  have some : time ++ blank :: rest ≠ [] := List.append_ne_nil_of_left_ne_nil isWord.nonempty _
  cases input with
  | inputSource =>
      change (LDPlayer.str_split _).head? = _
      rw [str_split_eq some, words_append_space isWord space, List.cons_append, List.head?_cons]
  | inputStream =>
      change (InputStream.str_split _).head? = _
      rw [InputStream.str_split_eq, words_append_space isWord space, List.head?_cons]

end LDPlayer
