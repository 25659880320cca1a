/-
Lines of a text file: the readers of the replay programs and of the mutator,
and the writer of the mutator.

The two readers differ in how they split a line and in the packet they build.
ldns, which builds packets and prints them, is a parameter.
-/
import LDPlayer.Message
import LDPlayer.Utility

set_option autoImplicit false

namespace LDPlayer

open Text

/-- The packets that ldns builds; none is the empty text. -/
structure Ldns where
  build_dns_pkt : Bytes
  build_dns_query : Bytes → Bytes → Bytes → Bytes
  build_dns_pkt_query : Bool → Bytes → Bytes → Bytes → Bytes

/-! ### Splitting -/

def InputStream.str_split_loop (text : Bytes) : List Bytes :=
  let x := trim_spaces (extract text).1
  let pushed := if x ≠ [] then [x] else []
  if _more : (extract text).2 ≠ [] then pushed ++ InputStream.str_split_loop (extract text).2
  else pushed
termination_by text.length
decreasing_by exact extract_rest_length _more

def InputStream.str_split (text : Bytes) : List Bytes :=
  if text = [] then [] else InputStream.str_split_loop text

def str_split_two (text : Bytes) (separator : UInt8) : Except Fault (Bytes × Bytes) :=
  if separator ∈ text then
    .ok (text.takeWhile (fun byte => byte ≠ separator),
      (text.dropWhile (fun byte => byte ≠ separator)).drop 1)
  else .error (.exit "[error] the string does not contain the separator!")

def stoi_or_exit (text : Bytes) : Except Fault Int :=
  match stoi text with
  | none => .error (.exit "stoi")
  | some value => .ok value

/-! ### Reading -/

def time_stamp (field : Bytes) : Except Fault (Int × Int) :=
  let dot_c := field.count 46
  if dot_c > 1 then .error (.exit "[error] wrong timestamp format")
  else if dot_c = 0 then
    match stoi_or_exit field with
    | .error fault => .error fault
    | .ok seconds => .ok (seconds, 0)
  else
    match str_split_two field 46 with
    | .error fault => .error fault
    | .ok (t1, t2) =>
        match (if t1 = [] then .ok 0 else stoi_or_exit t1) with
        | .error fault => .error fault
        | .ok seconds =>
            match (if t2 = [] then .ok 0 else stoi_or_exit t2) with
            | .error fault => .error fault
            | .ok microseconds => .ok (seconds, microseconds)

def Skipped (line : Bytes) : Prop := line = [] ∨ line = [10] ∨ line.head? = some 35

instance (line : Bytes) : Decidable (Skipped line) := inferInstanceAs (Decidable (_ ∨ _ ∨ _))

/-- The body of both readers: time, ip, qname, qclass, qtype, protocol. -/
def process_line (str_split : Bytes → List Bytes) (build : Bytes → Bytes → Bytes → Bytes)
    (line : Bytes) : Except Fault DNSMsg :=
  if Skipped line then .ok {}
  else
    match str_split line with
    | [time, src_ip, qname, qclass, qtype, protocol] =>
        match time_stamp time with
        | .error fault => .error fault
        | .ok (seconds, microseconds) =>
            .ok { raw? := some (build qname qclass qtype)
                  src_ip? := some src_ip
                  seconds? := some seconds
                  microseconds? := some microseconds
                  tcp? := some (protocol = ascii "tcp")
                  ipv4? := some true }
    | _ => .ok {}

/-- The query, with its three parts as C strings. -/
def InputSource.build (ldns : Ldns) (qname qclass qtype : Bytes) : Bytes :=
  if cString qname = ascii "-" ∧ cString qclass = ascii "-" ∧ cString qtype = ascii "-" then
    ldns.build_dns_pkt
  else ldns.build_dns_query (cString qname) (cString qclass) (cString qtype)

def InputSource.process_line (ldns : Ldns) (line : Bytes) : Except Fault DNSMsg :=
  LDPlayer.process_line str_split (InputSource.build ldns) line

/-- The name is a C string only once it gets to ldns. -/
def InputStream.build (ldns : Ldns) (qname qclass qtype : Bytes) : Bytes :=
  if qname = ascii "-" ∧ cString qclass = ascii "-" ∧ cString qtype = ascii "-" then
    ldns.build_dns_pkt
  else ldns.build_dns_pkt_query false (cString qname) (cString qclass) (cString qtype)

def InputStream.process_line (ldns : Ldns) (line : Bytes) : Except Fault DNSMsg :=
  LDPlayer.process_line InputStream.str_split (InputStream.build ldns) line

inductive InputClass where
  | inputSource
  | inputStream
  deriving DecidableEq, Repr

namespace InputClass

def str_split : InputClass → Bytes → List Bytes
  | .inputSource => LDPlayer.str_split
  | .inputStream => InputStream.str_split

def build (ldns : Ldns) : InputClass → Bytes → Bytes → Bytes → Bytes
  | .inputSource => InputSource.build ldns
  | .inputStream => InputStream.build ldns

def process_line (ldns : Ldns) : InputClass → Bytes → Except Fault DNSMsg
  | .inputSource => InputSource.process_line ldns
  | .inputStream => InputStream.process_line ldns

theorem process_line_eq (ldns : Ldns) (input : InputClass) (line : Bytes) :
    input.process_line ldns line =
      LDPlayer.process_line input.str_split (input.build ldns) line := by
  cases input <;> rfl

/-- The line has six fields, the first of them its time. -/
def TimeOf (input : InputClass) (line time : Bytes) : Prop :=
  ¬ Skipped line ∧ ∃ src_ip qname qclass qtype protocol,
    input.str_split line = [time, src_ip, qname, qclass, qtype, protocol]

end InputClass

/-! ### Writing -/

/-- The time column.  From seven characters on the padding loop never ends, and
the text grows until there is no memory left. -/
def time_column (msg : DNSMsg) : Except Fault Bytes :=
  let usec := to_string msg.microseconds
  if usec.length > 6 then .error (.exit "std::bad_alloc")
  else
    .ok (to_string msg.seconds ++ ascii "." ++ List.replicate (6 - usec.length) 48 ++ usec)

def write_text (dns_msg_str : Bytes → Option Bytes) (msg : DNSMsg) :
    Except Fault (Option Bytes) :=
  match time_column msg with
  | .error fault => .error fault
  | .ok time =>
      let l := time ++ ascii "\t" ++ msg.src_ip ++ ascii "\t" ++
        (if msg.tcp then ascii "tcp\t" else ascii "udp\t")
      .ok ((dns_msg_str msg.raw).map (fun msg_str => l ++ msg_str ++ ascii "\n"))

/-! ### What the two readers split off -/

theorem str_split_eq {text : Bytes} (some : text ≠ []) :
    str_split text = words text ++ if EndsInSpace text then [[]] else [] := by
  unfold str_split
  rw [if_neg some, str_split_loop_eq some]

private theorem trim_spaces_extract (text : Bytes) :
    trim_spaces (extract text).1 = (extract text).1 := by
  have solid := extract_first_solid text
  generalize (extract text).1 = word at solid ⊢
  have front : word.dropWhile isSpace = word := by
    cases word with
    | nil => rfl
    | cons head rest =>
        apply List.dropWhile_cons_of_neg
        rw [solid head List.mem_cons_self]
        exact Bool.false_ne_true
  unfold trim_spaces extract
  simp only [front]
  apply List.takeWhile_eq_self_iff.mpr
  intro byte member
  rw [solid byte member]
  rfl

theorem InputStream.str_split_loop_eq (text : Bytes) :
    InputStream.str_split_loop text =
      (LDPlayer.str_split_loop text).filter (fun item => item ≠ []) := by
  induction text using LDPlayer.str_split_loop.induct with
  | case1 text more ih =>
      have nonempty := extract_first_nonempty more
      have filtered : (LDPlayer.str_split_loop text).filter (fun item => item ≠ []) =
          (extract text).1 ::
            (LDPlayer.str_split_loop (extract text).2).filter (fun item => item ≠ []) := by
        rw [LDPlayer.str_split_loop, dif_pos more,
          List.filter_cons_of_pos (by simpa using nonempty)]
      rw [InputStream.str_split_loop, dif_pos more, trim_spaces_extract, if_pos nonempty, ih,
        filtered]
      rfl
  | case2 text ended =>
      rw [InputStream.str_split_loop, dif_neg ended, trim_spaces_extract,
        LDPlayer.str_split_loop, dif_neg ended]
      by_cases empty : (extract text).1 = []
      · simp [empty]
      · simp [empty]

theorem InputStream.str_split_eq (text : Bytes) : InputStream.str_split text = words text := by
  unfold InputStream.str_split
  by_cases empty : text = []
  · subst empty
    rfl
  · rw [if_neg empty, InputStream.str_split_loop_eq, str_split_loop_words]

/-- The two splits are the same exactly on the texts that do not end in a blank. -/
theorem str_split_agree_iff {text : Bytes} (some : text ≠ []) :
    str_split text = InputStream.str_split text ↔ ¬ EndsInSpace text := by
  rw [str_split_eq some, InputStream.str_split_eq]
  by_cases blank : EndsInSpace text
  · rw [if_pos blank]
    simp [blank]
  · rw [if_neg blank, List.append_nil]
    simp [blank]

/-! ### What the two readers make of a line -/

def InputClass.Rejects (input : InputClass) (line : Bytes) : Prop :=
  ¬ Skipped line ∧ (input.str_split line).length ≠ 6

def view (read : Except Fault DNSMsg) :
    Except Fault (Option Bytes × Option Int × Option Int × Option Bool) :=
  read.map (fun msg => (msg.src_ip?, msg.seconds?, msg.microseconds?, msg.tcp?))

private theorem view_process_line {first second : Bytes → List Bytes}
    {build other : Bytes → Bytes → Bytes → Bytes} {line : Bytes}
    (same : ¬ Skipped line → first line = second line) :
    view (process_line first build line) = view (process_line second other line) := by
  unfold process_line
  by_cases skipped : Skipped line
  · rw [if_pos skipped, if_pos skipped]
  · rw [if_neg skipped, if_neg skipped, same skipped]
    split
    · split <;> rfl
    · rfl

structure ReadAlike (ldns : Ldns) (line : Bytes) : Prop where
  fields : ¬ Skipped line → str_split line = InputStream.str_split line
  rejected : InputClass.inputSource.Rejects line ↔ InputClass.inputStream.Rejects line
  accepted : view (InputSource.process_line ldns line) = view (InputStream.process_line ldns line)

theorem rejects_iff {line : Bytes} (read : ¬ Skipped line) :
    (InputClass.inputSource.Rejects line ↔
        (words line).length + (if EndsInSpace line then 1 else 0) ≠ 6) ∧
      (InputClass.inputStream.Rejects line ↔ (words line).length ≠ 6) := by
  have some : line ≠ [] := fun empty => read (Or.inl empty)
  unfold InputClass.Rejects
  rw [and_iff_right read, and_iff_right read]
  change ((str_split line).length ≠ 6 ↔ _) ∧ ((InputStream.str_split line).length ≠ 6 ↔ _)
  rw [InputStream.str_split_eq, str_split_eq some, List.length_append]
  refine ⟨?_, Iff.rfl⟩
  split <;> rfl

/-- The two readers read a line alike exactly when it is skipped or does not end
in white space; they reject it alike also where the words are other than five
or six. -/
theorem text_readers_agree_iff (ldns : Ldns) (line : Bytes) :
    (ReadAlike ldns line ↔ Skipped line ∨ ¬ EndsInSpace line) ∧
    ((InputClass.inputSource.Rejects line ↔ InputClass.inputStream.Rejects line) ↔
      Skipped line ∨ ¬ EndsInSpace line ∨
        (words line).length ≠ 5 ∧ (words line).length ≠ 6) := by
  by_cases skipped : Skipped line
  · have neither : ∀ input : InputClass, ¬ input.Rejects line :=
      fun input rejected => rejected.1 skipped
    have rejected : InputClass.inputSource.Rejects line ↔ InputClass.inputStream.Rejects line :=
      iff_of_false (neither _) (neither _)
    refine ⟨iff_of_true ?_ (Or.inl skipped), iff_of_true rejected (Or.inl skipped)⟩
    refine ⟨fun read => absurd skipped read, rejected, ?_⟩
    exact view_process_line (fun read => absurd skipped read)
  · have some : line ≠ [] := fun empty => skipped (Or.inl empty)
    obtain ⟨source, stream⟩ := rejects_iff skipped
    constructor
    · constructor
      · intro alike
        exact Or.inr ((str_split_agree_iff some).mp (alike.fields skipped))
      · intro solid
        have same := (str_split_agree_iff some).mpr (solid.resolve_left skipped)
        refine ⟨fun _read => same, ?_, view_process_line (fun _read => same)⟩
        change _ ∧ (str_split line).length ≠ 6 ↔ _ ∧ (InputStream.str_split line).length ≠ 6
        rw [same]
    · rw [source, stream]
      by_cases blank : EndsInSpace line
      · rw [if_pos blank, or_iff_right skipped, or_iff_right (not_not.mpr blank)]
        omega
      · simp [blank]

/-- A line with a carriage return at its end, and one of five fields with a blank. -/
theorem trailing_blank_differs :
    (words (ascii "1.0 a b c d udp\r")).length = 6 ∧
      InputClass.inputSource.Rejects (ascii "1.0 a b c d udp\r") ∧
      ¬ InputClass.inputStream.Rejects (ascii "1.0 a b c d udp\r") ∧
    ¬ InputClass.inputSource.Rejects (ascii "1.0 a b c d ") ∧
      InputClass.inputStream.Rejects (ascii "1.0 a b c d ") := by
  have long : ¬ Skipped (ascii "1.0 a b c d udp\r") := by decide +kernel
  have short : ¬ Skipped (ascii "1.0 a b c d ") := by decide +kernel
  rw [(rejects_iff long).1, (rejects_iff long).2, (rejects_iff short).1, (rejects_iff short).2]
  decide +kernel

end LDPlayer
