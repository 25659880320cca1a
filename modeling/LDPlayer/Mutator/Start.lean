/-
start(): queries from the input through the mutation to the output.

A message with an empty packet is passed over.  The others are mutated and written
one after another, or collected and then written over and over: the counter of that
loop is an `unsigned int`, so that it goes around all of them, or the first 2^32.
-/
import LDPlayer.Mutator.Conversion
import LDPlayer.Mutator.Main
import LDPlayer.Mutator.MutateQuery

set_option autoImplicit false

namespace LDPlayer

open Text LengthPrefix

section input

variable {Packet : Type} {codec : Codec} {build : Ldns} {trace : Libtrace Packet}

def Stream.left : Stream Packet → Nat
  | .text rest => rest.length
  | .trace packets _ => packets.length
  | .raw source => source.bytes.length

private theorem get_from_text_shorter {process_line : Bytes → Except Fault DNSMsg}
    {text rest : Bytes}
    {msg : DNSMsg} (read : get_from_text process_line text = .ok (some msg, rest)) :
    rest.length < text.length := by
  induction text using get_from_text.induct with
  | case1 text ended =>
      unfold get_from_text at read
      split at read
      · cases read
      · rename_i found
        rw [ended] at found
        cases found
  | case2 text line behind front skipped ih =>
      rw [get_from_text_eq process_line front, if_pos skipped] at read
      exact (ih read).trans (getline_length front)
  | case3 text line behind front some =>
      rw [get_from_text_eq process_line front, if_neg some] at read
      obtain ⟨parsed, _line, same⟩ := of_map_eq_ok read
      rw [← (Prod.mk.inj same).2]
      exact getline_length front

private theorem get_left {stream next : Stream Packet} {msg : DNSMsg}
    (read : InputStream.get codec build trace stream = .ok (some msg, next)) :
    next.left < stream.left := by
  cases stream with
  | text rest =>
      obtain ⟨found, inner, same⟩ := of_map_eq_ok read
      obtain ⟨message, rfl⟩ := Prod.mk.inj same
      rw [show found = (some msg, found.2) from Prod.ext message rfl] at inner
      exact get_from_text_shorter inner
  | trace packets trace_is_err =>
      obtain ⟨found, inner, same⟩ := of_map_eq_ok read
      obtain ⟨message, rfl⟩ := Prod.mk.inj same
      cases packets with
      | nil =>
          cases trace_is_err with
          | true => cases inner
          | false =>
              rw [← Except.ok.inj inner] at message
              cases message
      | cons packet later =>
          rw [← Except.ok.inj inner]
          exact Nat.lt_succ_self _
  | raw source =>
      obtain ⟨found, inner, same⟩ := of_map_eq_ok read
      obtain ⟨message, rfl⟩ := Prod.mk.inj same
      rw [show found = (some msg, found.2) from Prod.ext message rfl] at inner
      exact Source.get_raw_shorter inner

/-- Successive calls return these messages, and then none. -/
inductive Reads (codec : Codec) (build : Ldns) (trace : Libtrace Packet) :
    Stream Packet → List DNSMsg → Prop
  | done {stream rest : Stream Packet}
      (ended : InputStream.get codec build trace stream = .ok (none, rest)) :
      Reads codec build trace stream []
  | next {stream rest : Stream Packet} {msg : DNSMsg} {later : List DNSMsg}
      (read : InputStream.get codec build trace stream = .ok (some msg, rest))
      (others : Reads codec build trace rest later) :
      Reads codec build trace stream (msg :: later)

def Ldns.WholeHeaders (build : Ldns) : Prop :=
  (build.build_dns_pkt = [] ∨ 12 ≤ build.build_dns_pkt.length) ∧
    ∀ edns qname qclass qtype, build.build_dns_pkt_query edns qname qclass qtype = [] ∨
      12 ≤ (build.build_dns_pkt_query edns qname qclass qtype).length

private theorem process_line_header (whole : build.WholeHeaders) {line : Bytes} {msg : DNSMsg}
    (read : InputStream.process_line build line = .ok msg) : msg.raw = [] ∨ 12 ≤ msg.raw.length := by
  unfold InputStream.process_line process_line at read
  split at read
  · rw [← Except.ok.inj read]
    exact Or.inl rfl
  · split at read
    · split at read
      · cases read
      · rename_i qname qclass qtype _ _ _ _ _ _ _
        rw [← Except.ok.inj read]
        change InputStream.build build _ _ _ = [] ∨ 12 ≤ (InputStream.build build _ _ _).length
        unfold InputStream.build
        split
        · exact whole.1
        · exact whole.2 false _ _ _
    · rw [← Except.ok.inj read]
      exact Or.inl rfl

private theorem get_header (whole : build.WholeHeaders) {stream next : Stream Packet} {msg : DNSMsg}
    (read : InputStream.get codec build trace stream = .ok (some msg, next))
    (no_raw : ∀ source, stream ≠ .raw source) :
    (msg.raw = [] ∨ 12 ≤ msg.raw.length) ∧ ∀ source, next ≠ .raw source := by
  cases stream with
  | text rest =>
      obtain ⟨found, inner, same⟩ := of_map_eq_ok read
      obtain ⟨message, rfl⟩ := Prod.mk.inj same
      rw [show found = (some msg, found.2) from Prod.ext message rfl] at inner
      obtain ⟨line, _kept, parsed⟩ := get_from_text_some inner
      exact ⟨process_line_header whole parsed, fun _source => nofun⟩
  | trace packets trace_is_err =>
      obtain ⟨found, inner, same⟩ := of_map_eq_ok read
      obtain ⟨message, rfl⟩ := Prod.mk.inj same
      refine ⟨?_, fun _source => nofun⟩
      cases packets with
      | nil =>
          cases trace_is_err with
          | true => cases inner
          | false =>
              rw [← Except.ok.inj inner] at message
              cases message
      | cons packet later =>
          rw [← Except.ok.inj inner] at message
          rw [← Option.some.inj message]
          rcases process_packet_cases trace packet with empty | ⟨_all, _, _, _, _, long, raw⟩
          · exact Or.inl empty
          · refine Or.inr ?_
            change 12 ≤ (LDPlayer.process_packet trace packet).raw.length
            rw [raw, List.length_drop]
            omega
  | raw source => exact absurd rfl (no_raw source)

theorem Reads.header (whole : build.WholeHeaders) {stream : Stream Packet} {msgs : List DNSMsg}
    (reads : Reads codec build trace stream msgs) (no_raw : ∀ source, stream ≠ .raw source) :
    ∀ msg ∈ msgs, msg.raw = [] ∨ 12 ≤ msg.raw.length := by
  induction reads with
  | done _ended => exact fun msg impossible => absurd impossible List.not_mem_nil
  | next read _others ih =>
      obtain ⟨long, kept⟩ := get_header whole read no_raw
      intro msg member
      rcases List.mem_cons.mp member with rfl | later
      · exact long
      · exact ih kept msg later

end input

namespace Mutator

structure Libraries (Packet Rest : Type) where
  codec : Codec
  build : LDPlayer.Ldns
  trace : Libtrace Packet
  ldns : Ldns Rest
  dns_msg_str : Bytes → Option Bytes
  orders : Orders
  rand : Nat → Nat

structure Output where
  warehouse : List DNSMsg := []
  ofs : Bytes := []

structure State (Packet : Type) where
  ins : Stream Packet
  calls : Nat := 0
  out : Output := {}

variable {Packet Rest : Type} (lib : Libraries Packet Rest) (mutator : Mutator)

def write_output (ofs : Bytes) (msg : DNSMsg) : Except Fault Bytes :=
  if mutator.output_format = OUTPUT_FORMAT_RAW then write_raw lib.codec ofs msg
  else if mutator.output_format = OUTPUT_FORMAT_TEXT then
    (write_text lib.dns_msg_str msg).map (fun line => ofs ++ line.getD [])
  else .error (.exit "unknown output format!")

def mutate (calls : Nat) (msg : DNSMsg) : Except Fault (Nat × DNSMsg) :=
  if mutator.opt.size = 0 then .ok (calls, msg)
  else mutate_query lib.ldns lib.orders lib.rand mutator.opt calls msg

def store (out : Output) (msg : DNSMsg) : Except Fault Output :=
  if mutator.infinite then .ok { out with warehouse := out.warehouse ++ [msg] }
  else (write_output lib mutator out.ofs msg).map (fun ofs => { out with ofs := ofs })

def turn (s : State Packet) : Except Fault (Option (State Packet)) :=
  match InputStream.get lib.codec lib.build lib.trace s.ins with
  | .error fault => .error fault
  | .ok (none, _) => .ok none
  | .ok (some msg, ins) =>
      if msg.raw = [] then .ok (some { s with ins := ins })
      else
        match mutate lib mutator s.calls msg with
        | .error fault => .error fault
        | .ok (calls, msg) =>
            if mutator.opt.size ≠ 0 ∧ msg.raw = [] then
              .ok (some { s with ins := ins, calls := calls })
            else
              (store lib mutator s.out msg).map
                (fun out => some { ins := ins, calls := calls, out := out })

private theorem turn_left {s next : State Packet} (turned : turn lib mutator s = .ok (some next)) :
    next.ins.left < s.ins.left := by
  unfold turn at turned
  split at turned
  · cases turned
  · cases turned
  · rename_i msg ins read
    have shorter := get_left read
    split at turned
    · rw [← Option.some.inj (Except.ok.inj turned)]
      exact shorter
    · split at turned
      · cases turned
      · split at turned
        · rw [← Option.some.inj (Except.ok.inj turned)]
          exact shorter
        · obtain ⟨out, _stored, same⟩ := of_map_eq_ok turned
          rw [← Option.some.inj same]
          exact shorter

def first_loop (s : State Packet) : Except Fault Output :=
  match _turned : turn lib mutator s with
  | .error fault => .error fault
  | .ok none => .ok s.out
  | .ok (some next) => first_loop next
termination_by s.ins.left
decreasing_by exact turn_left lib mutator _turned

def second_turn (warehouse : List DNSMsg) (loop : UInt32 × Bytes) :
    Except Fault (Option (UInt32 × Bytes)) :=
  match warehouse[loop.1.toNat]? with
  | none => .ok none
  | some msg =>
      (write_output lib mutator loop.2 msg).map (fun ofs =>
        let i := if loop.1.toNat = size_t_sub warehouse.length 1 then 0xFFFFFFFF else loop.1
        some (i + 1, ofs))

def second_loop (warehouse : List DNSMsg) :
    Nat → UInt32 × Bytes → Except Fault (Option (UInt32 × Bytes))
  | 0, loop => .ok (some loop)
  | turns + 1, loop =>
      match second_turn lib mutator warehouse loop with
      | .error fault => .error fault
      | .ok none => .ok none
      | .ok (some next) => second_loop warehouse turns next

/-! ### The first loop -/

def valid (msgs : List DNSMsg) : List DNSMsg := msgs.filter (fun msg => msg.raw ≠ [])

/-- Each message with another packet, for which the draws behind those of the
messages before it are used. -/
structure Mutants (calls : Nat) (msgs outs : List DNSMsg) : Prop where
  length : outs.length = msgs.length
  each : ∀ k msg, msgs[k]? = some msg → ∃ packet, outs[k]? = some (msg.set_raw packet) ∧
    Mutated lib.ldns.bits mutator.opt
      (drawn lib.orders lib.rand (calls + k * mutator.opt.size) mutator.opt) msg.raw packet

variable {lib mutator}

private theorem mutants_nil (calls : Nat) : Mutants lib mutator calls [] [] where
  length := rfl
  each := by
    intro k msg found
    cases found

theorem Mutants.cons {calls : Nat} {msg : DNSMsg} {packet : Bytes} {msgs outs : List DNSMsg}
    (first : Mutated lib.ldns.bits mutator.opt (drawn lib.orders lib.rand calls mutator.opt)
      msg.raw packet)
    (later : Mutants lib mutator (calls + mutator.opt.size) msgs outs) :
    Mutants lib mutator calls (msg :: msgs) (msg.set_raw packet :: outs) where
  length := congrArg (· + 1) later.length
  each := by
    intro k other found
    cases k with
    | zero =>
        obtain rfl := Option.some.inj found
        refine ⟨packet, rfl, ?_⟩
        rw [Nat.zero_mul, Nat.add_zero]
        exact first
    | succ k =>
        obtain ⟨changed, same, mutated⟩ := later.each k other found
        refine ⟨changed, same, ?_⟩
        rw [Nat.succ_mul, Nat.add_comm (k * mutator.opt.size), ← Nat.add_assoc]
        exact mutated

private theorem mutated_unasked {bits : HeaderBits} {opt : Requests} (empty : opt.size = 0)
    (drawn : UInt32 → Bool) (raw : Bytes) : Mutated bits opt drawn raw raw := by
  have none : ∀ part, opt.lookup part = none := HashTable.size_eq_zero.mp empty
  refine ⟨rfl, ?_, ?_, fun _ _ _ _ _ => rfl⟩
  · intro flag prob val asked
    rw [none] at asked
    cases asked
  · intro prob val asked
    rw [none] at asked
    cases asked

variable (lib) in
private theorem mutate_header (calls : Nat) {msg : DNSMsg} (header : HeaderRequests mutator.opt)
    (small : SmallOpcode mutator.opt) (some : msg.raw ≠ []) (long : 12 ≤ msg.raw.length) :
    ∃ packet, mutate lib mutator calls msg =
        .ok (calls + mutator.opt.size, msg.set_raw packet) ∧
      Mutated lib.ldns.bits mutator.opt (drawn lib.orders lib.rand calls mutator.opt) msg.raw
        packet := by
  unfold mutate
  by_cases empty : mutator.opt.size = 0
  · have same : msg.set_raw msg.raw = msg := by
      cases raw : msg.raw? with
      | none =>
          unfold DNSMsg.raw at some
          rw [raw] at some
          exact absurd rfl some
      | some packet =>
          unfold DNSMsg.set_raw DNSMsg.raw
          rw [raw, Option.getD_some, ← raw]
    refine ⟨msg.raw, ?_, mutated_unasked empty _ msg.raw⟩
    rw [if_pos empty, empty, same, Nat.add_zero]
  · rw [if_neg empty]
    exact mutate_query_header lib.orders lib.rand calls lib.ldns (by omega) header small

private theorem first_loop_ended {s : State Packet} (ended : turn lib mutator s = .ok none) :
    first_loop lib mutator s = .ok s.out := by
  unfold first_loop
  split
  · rename_i turned
    cases ended.symm.trans turned
  · rfl
  · rename_i turned
    cases ended.symm.trans turned

private theorem first_loop_next {s next : State Packet}
    (turned : turn lib mutator s = .ok (some next)) :
    first_loop lib mutator s = first_loop lib mutator next := by
  rw [first_loop]
  split
  · rename_i other
    cases turned.symm.trans other
  · rename_i other
    cases turned.symm.trans other
  · rename_i other
    rw [Option.some.inj (Except.ok.inj (turned.symm.trans other))]

private theorem first_loop_error {s : State Packet} {fault : Fault}
    (turned : turn lib mutator s = .error fault) :
    first_loop lib mutator s = .error fault := by
  rw [first_loop]
  split
  · rename_i other
    rw [Except.error.inj (turned.symm.trans other)]
  · rename_i other
    cases turned.symm.trans other
  · rename_i other
    cases turned.symm.trans other

/-- The loop stores the mutants of the messages that it does not pass over. -/
theorem first_loop_reads {stream : Stream Packet} {msgs : List DNSMsg}
    (reads : Reads lib.codec lib.build lib.trace stream msgs)
    (long : ∀ msg ∈ msgs, msg.raw = [] ∨ 12 ≤ msg.raw.length)
    (header : HeaderRequests mutator.opt) (small : SmallOpcode mutator.opt) (calls : Nat)
    (out : Output) :
    ∃ outs, Mutants lib mutator calls (valid msgs) outs ∧
      first_loop lib mutator { ins := stream, calls := calls, out := out } =
        outs.foldlM (store lib mutator) out := by
  induction reads generalizing calls out with
  | done ended =>
      refine ⟨[], mutants_nil calls, first_loop_ended ?_⟩
      unfold turn
      simp only [ended]
  | @next stream rest msg later read _others ih =>
      have behind := ih fun other member => long other (List.mem_cons_of_mem msg member)
      by_cases empty : msg.raw = []
      · obtain ⟨outs, mutants, stored⟩ := behind calls out
        have passed : valid (msg :: later) = valid later := by
          unfold valid
          exact List.filter_cons_of_neg (by rw [decide_eq_true_eq, not_not]; exact empty)
        refine ⟨outs, ?_, ?_⟩
        · rw [passed]
          exact mutants
        · refine (first_loop_next ?_).trans stored
          unfold turn
          simp only [read, if_pos empty]
      · have whole := (long msg List.mem_cons_self).resolve_left empty
        obtain ⟨packet, made, mutated⟩ := mutate_header lib calls header small empty whole
        have kept : valid (msg :: later) = msg :: valid later := by
          unfold valid
          exact List.filter_cons_of_pos (decide_eq_true empty)
        have filled : (msg.set_raw packet).raw ≠ [] := by
          intro none
          have length := mutated.length
          rw [show packet = [] from none] at length
          exact empty (List.length_eq_zero_iff.mp length.symm)
        have turned : turn lib mutator { ins := stream, calls := calls, out := out } =
            (store lib mutator out (msg.set_raw packet)).map (fun out =>
              some { ins := rest, calls := calls + mutator.opt.size, out := out }) := by
          unfold turn
          simp only [read, if_neg empty, made, if_neg (fun both => filled (And.right both))]
        rw [kept]
        cases stored : store lib mutator out (msg.set_raw packet) with
        | error fault =>
            obtain ⟨outs, mutants, _all⟩ := behind (calls + mutator.opt.size) out
            refine ⟨msg.set_raw packet :: outs, mutants.cons mutated, ?_⟩
            rw [stored] at turned
            rw [first_loop_error turned, List.foldlM_cons, stored]
            rfl
        | ok after =>
            obtain ⟨outs, mutants, all⟩ := behind (calls + mutator.opt.size) after
            refine ⟨msg.set_raw packet :: outs, mutants.cons mutated, ?_⟩
            rw [stored] at turned
            rw [first_loop_next turned, all, List.foldlM_cons, stored]
            rfl

private theorem store_all_infinite (infinite : mutator.infinite = true) (outs : List DNSMsg)
    (out : Output) :
    outs.foldlM (store lib mutator) out =
      .ok { out with warehouse := out.warehouse ++ outs } := by
  induction outs generalizing out with
  | nil =>
      rw [List.append_nil]
      rfl
  | cons msg later ih =>
      have stored : store lib mutator out msg =
          .ok { out with warehouse := out.warehouse ++ [msg] } := by
        unfold store
        rw [if_pos infinite]
      rw [List.foldlM_cons, stored]
      refine (ih _).trans ?_
      simp only [List.append_assoc, List.singleton_append]

private theorem store_all_raw (finite : mutator.infinite = false)
    (raw : mutator.output_format = OUTPUT_FORMAT_RAW) (outs : List DNSMsg) (out : Output) :
    outs.foldlM (store lib mutator) out =
      (outs.foldlM (write_raw lib.codec) out.ofs).map (fun ofs => { out with ofs := ofs }) := by
  induction outs generalizing out with
  | nil => rfl
  | cons msg later ih =>
      have stored : store lib mutator out msg =
          (write_raw lib.codec out.ofs msg).map (fun ofs => { out with ofs := ofs }) := by
        unfold store write_output
        rw [finite, if_neg Bool.false_ne_true, if_pos raw]
      rw [List.foldlM_cons, stored, List.foldlM_cons]
      cases written : write_raw lib.codec out.ofs msg with
      | error fault => rfl
      | ok ofs => exact ih _

/-! ### The second loop -/

def around (warehouse : List DNSMsg) : Nat := min warehouse.length (2 ^ 32)

theorem around_step {warehouse : List DNSMsg} (some : warehouse ≠ []) {i : UInt32} {turns : Nat}
    (at_turn : i.toNat = turns % around warehouse) :
    ((if i.toNat = size_t_sub warehouse.length 1 then 0xFFFFFFFF else i) + 1).toNat =
      (turns + 1) % around warehouse := by
  have positive := List.length_pos_iff.mpr some
  have last : size_t_sub warehouse.length 1 = warehouse.length - 1 := if_neg (by omega)
  have bound := i.toNat_lt
  have below : turns % around warehouse < around warehouse :=
    Nat.mod_lt _ (by unfold around; omega)
  have next : (turns + 1) % around warehouse =
      if i.toNat + 1 = around warehouse then 0 else i.toNat + 1 := by
    rw [← at_turn] at below
    rw [← Nat.mod_add_mod, ← at_turn]
    by_cases full : i.toNat + 1 = around warehouse
    · rw [if_pos full, full, Nat.mod_self]
    · rw [if_neg full, Nat.mod_eq_of_lt (by omega)]
  rw [last, next]
  unfold around at at_turn below ⊢
  by_cases at_end : i.toNat = warehouse.length - 1
  · rw [if_pos at_end, if_pos (by omega)]
    rfl
  · rw [if_neg at_end, UInt32.toNat_add]
    change (i.toNat + 1) % 2 ^ 32 = _
    by_cases wraps : i.toNat + 1 = 2 ^ 32
    · rw [if_pos (by omega), wraps, Nat.mod_self]
    · rw [if_neg (by omega), Nat.mod_eq_of_lt (by omega)]

def written (warehouse : List DNSMsg) (turns : Nat) : List DNSMsg :=
  (List.range turns).filterMap (fun k => warehouse[k % around warehouse]?)

theorem written_succ {warehouse : List DNSMsg} {turns : Nat} {msg : DNSMsg}
    (found : warehouse[turns % around warehouse]? = some msg) :
    written warehouse (turns + 1) = written warehouse turns ++ [msg] := by
  unfold written
  rw [List.range_succ, List.filterMap_append, List.filterMap_cons, found]
  rfl

theorem around_found {warehouse : List DNSMsg} (some : warehouse ≠ []) (turns : Nat) :
    ∃ msg, warehouse[turns % around warehouse]? = Option.some msg := by
  have positive := List.length_pos_iff.mpr some
  have below : turns % around warehouse < around warehouse :=
    Nat.mod_lt _ (by unfold around; omega)
  have within : turns % around warehouse < warehouse.length :=
    Nat.lt_of_lt_of_le below (Nat.min_le_left _ _)
  exact ⟨_, List.getElem?_eq_getElem within⟩

private theorem written_length {warehouse : List DNSMsg} (some : warehouse ≠ []) (turns : Nat) :
    (written warehouse turns).length = turns := by
  induction turns with
  | zero => rfl
  | succ turns ih =>
      obtain ⟨msg, found⟩ := around_found some turns
      rw [written_succ found, List.length_append, ih, List.length_singleton]

private theorem second_loop_succ (warehouse : List DNSMsg) (turns : Nat)
    {loop next : UInt32 × Bytes}
    (earlier : second_loop lib mutator warehouse turns loop = .ok (some next)) :
    second_loop lib mutator warehouse (turns + 1) loop =
      second_turn lib mutator warehouse next := by
  induction turns generalizing loop with
  | zero =>
      obtain rfl := Option.some.inj (Except.ok.inj earlier)
      unfold second_loop
      cases second_turn lib mutator warehouse loop with
      | error fault => rfl
      | ok after =>
          cases after with
          | none => rfl
          | some after => rfl
  | succ turns ih =>
      unfold second_loop at earlier
      rw [second_loop]
      split at earlier
      · cases earlier
      · cases earlier
      · exact ih earlier

/-- The loop goes on and on, and the messages are written in turn. -/
theorem second_loop_writes (raw : mutator.output_format = OUTPUT_FORMAT_RAW)
    {warehouse : List DNSMsg} (some_message : warehouse ≠ [])
    (trips : ∀ msg ∈ warehouse, Source.RoundTrips lib.codec msg) (turns : Nat) :
    ∃ i file, second_loop lib mutator warehouse turns (0, []) = .ok (some (i, file)) ∧
      i.toNat = turns % around warehouse ∧
      (written warehouse turns).foldlM (write_raw lib.codec) [] = .ok file := by
  induction turns with
  | zero => exact ⟨0, [], rfl, (Nat.zero_mod _).symm, rfl⟩
  | succ turns ih =>
      obtain ⟨i, file, looped, at_turn, folded⟩ := ih
      obtain ⟨msg, found⟩ := around_found some_message turns
      obtain ⟨msg_str, serialized, _parsed, _short⟩ := trips msg (List.mem_of_getElem? found)
      have wrote : write_raw lib.codec file msg =
          .ok (file ++ encodeLength lengthWidth msg_str.length ++ msg_str) := by
        unfold write_raw
        rw [serialized]
      refine ⟨_, file ++ encodeLength lengthWidth msg_str.length ++ msg_str, ?_,
        around_step some_message at_turn, ?_⟩
      · rw [second_loop_succ warehouse turns looped]
        unfold second_turn write_output
        simp only [at_turn, found, if_pos raw, wrote]
        rfl
      · rw [written_succ found, List.foldlM_append, folded]
        change [msg].foldlM (write_raw lib.codec) file = _
        rw [List.foldlM_cons, wrote]
        rfl

/-- What the readers of the replay programs get out of a file. -/
def ReadBack (codec : Codec) (msgs : List DNSMsg) (file : Bytes) : Prop :=
  ∀ is_stdin, Source.calls (InputSource.get_from_raw codec) (msgs.length + 1)
      { bytes := file, is_stdin := is_stdin } = .ok (msgs.map some ++ [none]) ↔
    ∀ msg ∈ msgs, Source.FitsBuffer codec msg

private theorem written_back {codec : Codec} {msgs : List DNSMsg}
    (trips : ∀ msg ∈ msgs, Source.RoundTrips codec msg) :
    ∃ file, msgs.foldlM (write_raw codec) [] = .ok file ∧ ReadBack codec msgs file := by
  obtain ⟨texts, serialized, folded⟩ := Source.write_raw_all codec trips []
  exact ⟨_, folded, fun is_stdin => Source.calls_get_raw_iff codec trips serialized is_stdin⟩

variable (lib mutator)

def Serializable (msgs : List DNSMsg) : Prop :=
  ∀ msg ∈ msgs, ∀ packet, packet.length = msg.raw.length →
    Source.RoundTrips lib.codec (msg.set_raw packet)

variable {lib mutator}

theorem Mutants.trips {calls : Nat} {msgs outs : List DNSMsg}
    (mutants : Mutants lib mutator calls msgs outs) (serializable : Serializable lib msgs) :
    ∀ out ∈ outs, Source.RoundTrips lib.codec out := by
  intro out member
  obtain ⟨k, within, rfl⟩ := List.getElem_of_mem member
  have there : k < msgs.length := mutants.length ▸ within
  obtain ⟨packet, found, mutated⟩ := mutants.each k msgs[k] (List.getElem?_eq_getElem there)
  rw [List.getElem?_eq_getElem within] at found
  rw [Option.some.inj found]
  exact serializable msgs[k] (List.getElem_mem there) packet mutated.length

def udp_query : Bytes :=
  [0x45, 0, 0, 41, 0, 0, 0, 0, 64, 17, 0, 0, 10, 0, 0, 1, 10, 0, 0, 2] ++
    [4, 0, 0, 53, 0, 21, 0, 0] ++ [0, 7, 1, 0, 0, 0, 0, 0, 0, 0, 0, 0, 0]

def captured : DNSMsg :=
  { seconds? := some 1, microseconds? := some 0, tcp? := some false, ipv4? := some true
    src_ip? := some (ascii "10.0.0.1"), dst_ip? := some (ascii "10.0.0.2")
    raw? := some [0, 7, 1, 0, 0, 0, 0, 0, 0, 0, 0, 0, 0] }

/-- Protobuf on that message and its mutants, whose last 13 bytes are the packet. -/
def capture_codec : Codec where
  SerializeToString msg := if msg.IsInitialized then some (wire_text msg) else none
  ParseFromArray bytes := captured.set_raw (bytes.drop (bytes.length - 13))

def capture_libraries : Libraries Bytes Bytes where
  codec := capture_codec
  build := { build_dns_pkt := [], build_dns_query := fun _ _ _ => []
             build_dns_pkt_query := fun _ _ _ _ => [] }
  trace := ipv4_trace
  ldns := header_ldns
  dns_msg_str _ := none
  orders := ⟨.stored, .stored, .stored⟩
  rand _ := 0

def authoritative_writer : Mutator where
  input_file := ascii "trace.erf"
  input_format := ascii "trace"
  output_file := ascii "-"
  output_format := OUTPUT_FORMAT_RAW
  is_stdout := true
  infinite := false
  opt := AList.insert DNS_AA (100, 1) ∅

private theorem captured_text {packet : Bytes} (length : packet.length = 13) :
    wire_text (captured.set_raw packet) =
      wire_text { captured with raw? := none } ++ [66, 13] ++ packet := by
  have size : varint 10 packet.length = [13] := by
    rw [length]
    rfl
  unfold wire_text DNSMsg.set_raw captured
  simp only [Option.map_some, Option.map_none, Option.getD_some, Option.getD_none, size,
    List.append_assoc, List.append_nil, List.nil_append, List.cons_append]

private theorem captured_serializable : Serializable capture_libraries (valid [captured]) := by
  have kept : valid [captured] = [captured] := by decide
  rw [kept]
  intro msg member packet length
  rw [List.mem_singleton.mp member] at length ⊢
  obtain ⟨front, text, size⟩ : ∃ front, wire_text (captured.set_raw packet) = front ++ packet ∧
      front.length = 30 :=
    ⟨_, captured_text length, by decide +kernel⟩
  have thirteen : packet.length = 13 := length
  have initialized : (captured.set_raw packet).IsInitialized := ⟨rfl, rfl, rfl, rfl, rfl, rfl⟩
  refine ⟨wire_text (captured.set_raw packet), ?_, ?_, ?_⟩
  · change (if (captured.set_raw packet).IsInitialized then some _ else none) = _
    exact if_pos initialized
  · have place : (front ++ packet).length - 13 = front.length := by
      rw [List.length_append, thirteen]
      exact Nat.add_sub_cancel _ _
    change captured.set_raw _ = captured.set_raw packet
    rw [text, place, List.drop_left]
  · rw [text, List.length_append, size, thirteen]
    decide

end Mutator

end LDPlayer
