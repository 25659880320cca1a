/-
The result lines of a worker and what the manager logs of them.

A latency line is sent with the NUL byte that ends it, a timing line without
one.  The manager logs what it reads as a C string, one read at a time.
-/
import LDPlayer.Client.Manager
import LDPlayer.Utility

set_option autoImplicit false

namespace LDPlayer

open Text

def raw_key (id : Nat) (rr : Bytes) : Bytes := to_string id ++ ascii " " ++ rr

def message_key (id : Nat) (rr : Bytes) : Bytes := fmt_str (raw_key id rr) (ascii " ")

/-- The lines of `sendto_manager` and of `record_message_time`. -/
inductive ResultLine where
  | latency (id : Nat) (rr : Bytes) (lat : Timeval)
  | timing (is_query : Bool) (id : Nat) (rr : Bytes) (t : Timeval) (addr : Bytes)
  deriving DecidableEq, Repr

namespace ResultLine

/-- The latency, then the words of the key behind the id. -/
def sendto_manager (id : Nat) (rr : Bytes) (lat : Timeval) : Bytes :=
  let tmp := to_string lat.tv_sec ++ ascii " " ++ to_string lat.tv_usec
  ((str_split (message_key id rr)).drop 1).foldl (fun tmp e => tmp ++ (ascii " " ++ e)) tmp ++
    ascii "\n"

def record_message_time (is_query : Bool) (id : Nat) (rr : Bytes) (t : Timeval) (addr : Bytes) :
    Bytes :=
  let msg_type := if is_query then ascii "Q" else ascii "R"
  let qname := if rr.length = 0 then ascii "-" else rr
  let key := fmt_str (msg_type ++ ascii " " ++ to_string id ++ ascii " " ++ qname) (ascii " ")
  let tms := to_string t.tv_usec
  let tms_full := List.replicate (6 - tms.length) 48 ++ tms
  addr ++ ascii " " ++ to_string t.tv_sec ++ ascii " " ++ tms_full ++ ascii " " ++ key ++
    ascii "\n"

def text : ResultLine → Bytes
  | .latency id rr lat => sendto_manager id rr lat
  | .timing is_query id rr t addr => record_message_time is_query id rr t addr

/-- What `bufferevent_write` is given. -/
def written : ResultLine → Bytes
  | .latency id rr lat => sendto_manager id rr lat ++ [0]
  | .timing is_query id rr t addr => record_message_time is_query id rr t addr

theorem text_ne_nil (line : ResultLine) : line.text ≠ [] := by
  cases line with
  | latency id rr lat =>
      exact List.append_ne_nil_of_right_ne_nil _ (by decide)
  | timing is_query id rr t addr =>
      exact List.append_ne_nil_of_right_ne_nil _ (by decide)

private theorem withoutZeros_written {line : ResultLine} (zeroFree : 0 ∉ line.text) :
    withoutZeros line.written = line.text := by
  cases line with
  | latency id rr lat =>
      change withoutZeros (sendto_manager id rr lat ++ [0]) = _
      rw [withoutZeros_append]
      change withoutZeros (ResultLine.latency id rr lat).text ++ [] = _
      rw [withoutZeros_of_notMem zeroFree, List.append_nil]
  | timing is_query id rr t addr => exact withoutZeros_of_notMem zeroFree

private theorem withoutZeros_lines {lines : List ResultLine}
    (zeroFree : ∀ line ∈ lines, 0 ∉ line.text) :
    withoutZeros (lines.flatMap written) = lines.flatMap text := by
  induction lines with
  | nil => rfl
  | cons line later ih =>
      rw [List.flatMap_cons, List.flatMap_cons, withoutZeros_append,
        withoutZeros_written (zeroFree line List.mem_cons_self),
        ih (fun other member => zeroFree other (List.mem_cons_of_mem line member))]

end ResultLine

theorem read_client_cb_output {output_file : Bytes} (named : output_file ≠ []) (data : Bytes) :
    Manager.read_client_cb output_file data = cString data := by
  unfold Manager.read_client_cb
  by_cases empty : data = []
  · rw [if_neg (fun both => both.1 empty), empty]
    rfl
  · rw [if_pos ⟨empty, named⟩]

private theorem read_client_cb_no_output (data : Bytes) : Manager.read_client_cb [] data = [] :=
  if_neg (fun both => both.2 rfl)

/-- The log is the text of the lines exactly when there is a log, no text
contains a NUL byte and no read goes on behind one. -/
theorem read_client_cb_keeps_lines_iff (output_file : Bytes) {lines : List ResultLine}
    {chunks : List Bytes} (stream : chunks.flatten = lines.flatMap ResultLine.written) :
    chunks.flatMap (Manager.read_client_cb output_file) = lines.flatMap ResultLine.text ↔
      (output_file = [] → lines = []) ∧ (∀ line ∈ lines, 0 ∉ line.text) ∧
        ∀ chunk ∈ chunks, ZerosAtEnd chunk := by
  by_cases unnamed : output_file = []
  · rw [unnamed]
    have nothing : chunks.flatMap (Manager.read_client_cb []) = [] :=
      List.flatMap_eq_nil_iff.mpr (fun data _ => read_client_cb_no_output data)
    rw [nothing]
    constructor
    · intro same
      have none_sent : lines = [] := by
        cases lines with
        | nil => rfl
        | cons line later =>
            have first := List.flatMap_eq_nil_iff.mp same.symm line List.mem_cons_self
            exact absurd first line.text_ne_nil
      subst none_sent
      refine ⟨fun _ => rfl, List.forall_mem_nil _, ?_⟩
      intro chunk member before after split
      have empty := List.flatten_eq_nil_iff.mp stream chunk member
      rw [empty] at split
      exact absurd split.symm (List.append_ne_nil_of_right_ne_nil _ (List.cons_ne_nil _ _))
    · intro conditions
      rw [conditions.1 rfl]
      rfl
  · have output : chunks.flatMap (Manager.read_client_cb output_file) = chunks.flatMap cString := by
      congr 1
      funext data
      exact read_client_cb_output unnamed data
    rw [output]
    constructor
    · intro same
      have zeroFree : ∀ line ∈ lines, 0 ∉ line.text := by
        intro line member zero
        have inOutput : 0 ∈ chunks.flatMap cString := by
          rw [same]
          exact List.mem_flatMap.mpr ⟨line, member, zero⟩
        obtain ⟨chunk, _inChunks, inChunk⟩ := List.mem_flatMap.mp inOutput
        exact zero_notMem_cString chunk inChunk
      refine ⟨fun empty => absurd empty unnamed, zeroFree, ?_⟩
      rw [← flatMap_cString_iff, same, stream, ResultLine.withoutZeros_lines zeroFree]
    · intro conditions
      rw [(flatMap_cString_iff chunks).mpr conditions.2.2, stream,
        ResultLine.withoutZeros_lines conditions.2.1]

def ResultLine.sample : ResultLine :=
  .latency 4660 (ascii "a.\tIN\tA\n") { tv_sec := 0, tv_usec := 1500 }

/-- Two lines in three reads, the first line in two of them. -/
theorem read_client_cb_keeps_lines_sample :
    [ascii "0 1500 a.", ascii " IN A\n" ++ [0], ascii "0 1500 a. IN A\n" ++ [0]].flatMap
        (Manager.read_client_cb (ascii "-")) =
      [ResultLine.sample, ResultLine.sample].flatMap ResultLine.text := by
  have text : ResultLine.sample.text = ascii "0 1500 a. IN A\n" := by decide +kernel
  have stream :
      [ascii "0 1500 a.", ascii " IN A\n" ++ [0], ascii "0 1500 a. IN A\n" ++ [0]].flatten =
        [ResultLine.sample, ResultLine.sample].flatMap ResultLine.written := by
    decide +kernel
  refine (read_client_cb_keeps_lines_iff (ascii "-") stream).mpr ⟨?_, ?_, ?_⟩
  · intro unnamed
    exact absurd unnamed (by decide)
  · intro line member
    have same : line = ResultLine.sample := by simpa using member
    rw [same, text]
    decide
  · intro chunk member
    rw [← cString_eq_withoutZeros_iff]
    revert chunk
    decide +kernel

/-- Of two latency lines that arrive in one read the second is lost. -/
theorem read_client_cb_loses_line :
    [ResultLine.sample.written ++ ResultLine.sample.written].flatten =
        [ResultLine.sample, ResultLine.sample].flatMap ResultLine.written ∧
      [ResultLine.sample.written ++ ResultLine.sample.written].flatMap
          (Manager.read_client_cb (ascii "-")) ≠
        [ResultLine.sample, ResultLine.sample].flatMap ResultLine.text := by
  have named : ascii "-" ≠ [] := by decide
  have positive := List.length_pos_of_ne_nil ResultLine.sample.text_ne_nil
  refine ⟨by simp, ?_⟩
  intro same
  have lengths := congrArg List.length same
  have split : ResultLine.sample.written ++ ResultLine.sample.written =
      ResultLine.sample.text ++ 0 :: ResultLine.sample.written := by
    change (ResultLine.sample.text ++ [0]) ++ _ = _
    rw [List.append_assoc]
    rfl
  have printed := (cString_front ResultLine.sample.text).length_le
  have kept := List.length_filter_le (fun byte => byte ≠ 0) ResultLine.sample.text
  simp only [List.flatMap_cons, List.flatMap_nil, List.append_nil, read_client_cb_output named,
    split, cString_append_zero, List.length_append] at lengths
  unfold withoutZeros at printed
  omega

end LDPlayer
