/-
What server_read_cb makes of the responses of a connection.

Over TCP each response has its length in two bytes in front.  Where timing is
on, the callback collects the bytes of the connection and takes complete
responses off their front; the number of bytes left is kept in 16 bits.  Where
latency is on, it takes each read for one response.
-/
import LDPlayer.Client.WorkerHandles

set_option autoImplicit false

namespace LDPlayer

open LengthPrefix HashTable

def tcpWidth : Nat := 2

/-! ### The loop of the timing part -/

section loop

variable {State : Type} (handle : State → Bytes → Except Fault State)

/-- The loop, with whatever is done to a response. -/
def serverLoop (buffer : Bytes) (state : State) : Except Fault (Bytes × State) :=
  if _more : buffer.length > 2 then
    let sz := get_id buffer
    if sz > (buffer.length - 2) % 2 ^ 16 then .ok (buffer, state)
    else
      match handle state ((buffer.drop 2).take sz) with
      | .error fault => .error fault
      | .ok next => serverLoop (buffer.drop (sz + 2)) next
  else .ok (buffer, state)
termination_by buffer.length
decreasing_by
  rw [List.length_drop]
  omega

/-- The response does not exceed what 16 bits hold of the number of bytes left. -/
def ServerFits (payload rest : Bytes) : Prop :=
  payload.length ≤ (payload.length + rest.length) % 2 ^ 16

instance (payload rest : Bytes) : Decidable (ServerFits payload rest) :=
  inferInstanceAs (Decidable (_ ≤ _))

theorem get_id_eq {buffer : Bytes} (header : tcpWidth ≤ buffer.length) :
    get_id buffer = decodeLength (buffer.take tcpWidth) := by
  unfold tcpWidth at header ⊢
  cases buffer with
  | nil => simp at header
  | cons first rest =>
      cases rest with
      | nil => simp at header
      | cons second rest =>
          unfold get_id decodeLength
          simp

theorem serverLoop_short {buffer : Bytes} (short : ¬ buffer.length > 2) (state : State) :
    serverLoop handle buffer state = .ok (buffer, state) := by
  rw [serverLoop, dif_neg short]

theorem serverLoop_stops {buffer : Bytes} (stops : get_id buffer > (buffer.length - 2) % 2 ^ 16)
    (state : State) : serverLoop handle buffer state = .ok (buffer, state) := by
  rw [serverLoop]
  by_cases more : buffer.length > 2
  · rw [dif_pos more, if_pos stops]
  · rw [dif_neg more]

private theorem serverLoop_partial {buffer : Bytes} {state : State}
    (incomplete : Partial tcpWidth buffer) :
    serverLoop handle buffer state = .ok (buffer, state) := by
  by_cases more : buffer.length > 2
  · have missing := incomplete.payload_missing (Nat.le_of_lt more)
    rw [← get_id_eq (Nat.le_of_lt more)] at missing
    exact serverLoop_stops handle (Nat.lt_of_le_of_lt (Nat.mod_le _ _) missing) state
  · exact serverLoop_short handle more state

theorem get_id_frame {payload : Bytes} (small : payload.length < 256 ^ tcpWidth) (rest : Bytes) :
    get_id (LengthPrefix.frame tcpWidth payload ++ rest) = payload.length := by
  rw [get_id_eq (by rw [frame_append_length]; omega)]
  exact decodeLength_take_of_fits small rest

theorem serverLoop_frame {payload rest : Bytes} {state : State}
    (carried : Carried tcpWidth payload) (fits : ServerFits payload rest) :
    serverLoop handle (LengthPrefix.frame tcpWidth payload ++ rest) state =
      handle state payload >>= serverLoop handle rest := by
  have size : (LengthPrefix.frame tcpWidth payload ++ rest).length =
      2 + (payload.length + rest.length) := frame_append_length payload rest
  have positive := carried.length_pos
  have enough : ¬ get_id (LengthPrefix.frame tcpWidth payload ++ rest) >
      ((LengthPrefix.frame tcpWidth payload ++ rest).length - 2) % 2 ^ 16 := by
    unfold ServerFits at fits
    rw [get_id_frame carried.fits, size, Nat.add_sub_cancel_left]
    exact Nat.not_lt.mpr fits
  have taken : ((LengthPrefix.frame tcpWidth payload ++ rest).drop 2).take payload.length =
      payload := payload_of_frame payload rest
  have behind : (LengthPrefix.frame tcpWidth payload ++ rest).drop (payload.length + 2) = rest :=
    drop_frame payload rest
  rw [serverLoop, dif_pos (by omega), if_neg enough]
  simp only [get_id_frame carried.fits, taken, behind]
  cases handle state payload <;> rfl

theorem serverLoop_frame_stops {payload rest : Bytes} {state : State}
    (carried : Carried tcpWidth payload) (exceeds : ¬ ServerFits payload rest) :
    serverLoop handle (LengthPrefix.frame tcpWidth payload ++ rest) state =
      .ok (LengthPrefix.frame tcpWidth payload ++ rest, state) := by
  apply serverLoop_stops
  have size : (LengthPrefix.frame tcpWidth payload ++ rest).length =
      2 + (payload.length + rest.length) := frame_append_length payload rest
  rw [get_id_frame carried.fits, size, Nat.add_sub_cancel_left]
  exact Nat.not_le.mp exceeds

private theorem serverLoop_drains :
    Drains tcpWidth (EachFits tcpWidth ServerFits) handle (serverLoop handle) :=
  drains_of_steps (fun _ _ incomplete => serverLoop_partial handle incomplete)
    (fun _ _ _ carried fits => serverLoop_frame handle carried fits)

private theorem serverLoop_exact (complete : List Bytes) (tail : Bytes) (state final : State)
    (carried : ∀ payload ∈ complete, Carried tcpWidth payload)
    (drained : serverLoop handle (frames tcpWidth complete ++ tail) state = .ok (tail, final)) :
    EachFits tcpWidth ServerFits complete tail :=
  exact_of_steps (fun _ _ _ carried fits => serverLoop_frame handle carried fits)
    (fun _ _ _ carried exceeds => serverLoop_frame_stops handle carried exceeds)
    complete tail state final carried drained

end loop

/-- The loop hands over payloads one by one and neither makes nor drops bytes;
which ones does not depend on what is done with them. -/
theorem serverLoop_hands_over (buffer : Bytes) :
    ∃ rest handed, buffer = frames tcpWidth handed ++ rest ∧
      (∀ payload ∈ handed, payload.length < 256 ^ tcpWidth) ∧
      ∀ (State : Type) (handle : State → Bytes → Except Fault State) (state : State),
        serverLoop handle buffer state =
          (handed.foldlM handle state).map (fun final => (rest, final)) := by
  induction size : buffer.length using Nat.strongRecOn generalizing buffer with
  | ind count ih =>
      by_cases more : buffer.length > 2
      · by_cases stops : get_id buffer > (buffer.length - 2) % 2 ^ 16
        · exact ⟨buffer, [], rfl, List.forall_mem_nil _,
            fun State handle state => serverLoop_stops handle stops state⟩
        · have within : get_id buffer ≤ buffer.length - 2 :=
            (Nat.not_lt.mp stops).trans (Nat.mod_le _ _)
          have shorter : (buffer.drop (get_id buffer + 2)).length < count := by
            rw [List.length_drop]
            omega
          obtain ⟨rest, handed, cut, small, loops⟩ :=
            ih _ shorter (buffer.drop (get_id buffer + 2)) rfl
          have taken : ((buffer.drop 2).take (get_id buffer)).length = get_id buffer := by
            rw [List.length_take, List.length_drop]
            exact Nat.min_eq_left within
          have width : (buffer.take tcpWidth).length = tcpWidth := by
            rw [List.length_take]
            exact Nat.min_eq_left (Nat.le_of_lt more)
          have lengthBytes := encodeLength_decodeLength (buffer.take tcpWidth)
          rw [width, ← get_id_eq (Nat.le_of_lt more)] at lengthBytes
          refine ⟨rest, (buffer.drop 2).take (get_id buffer) :: handed, ?_, ?_, ?_⟩
          · rw [frames_cons, List.append_assoc, ← cut]
            unfold LengthPrefix.frame
            rw [taken, lengthBytes, Nat.add_comm, ← List.drop_drop, List.append_assoc,
              List.take_append_drop]
            exact (List.take_append_drop tcpWidth buffer).symm
          · rw [List.forall_mem_cons, taken]
            refine ⟨?_, small⟩
            have first := (buffer.getD 0 0).toNat_lt
            have second := (buffer.getD 1 0).toNat_lt
            change (buffer.getD 0 0).toNat * 256 + (buffer.getD 1 0).toNat < 256 ^ 2
            omega
          · intro State handle state
            rw [serverLoop, dif_pos more, List.foldlM_cons]
            simp only [if_neg stops]
            cases handle state ((buffer.drop 2).take (get_id buffer)) with
            | error fault => rfl
            | ok next => exact loops State handle next
      · exact ⟨buffer, [], rfl, List.forall_mem_nil _,
          fun State handle state => serverLoop_short handle more state⟩

/-! ### The callback where timing is on -/

namespace DNSClient

section timing

variable {get_query_rr_str : Bytes → Bytes}

theorem server_messages_eq (addr : Bytes) (now : Timeval) (buffer : Bytes) (c : DNSClient) :
    server_messages get_query_rr_str addr now buffer c =
      serverLoop (fun c data => c.record_message_time get_query_rr_str data addr now) buffer c := by
  induction buffer, c using server_messages.induct get_query_rr_str addr now with
  | case1 buffer c more sz stops =>
      rw [server_messages, serverLoop, dif_pos more, dif_pos more]
      simp only [sz] at stops
      simp only [if_pos stops]
  | case2 buffer c more sz enough fault recorded =>
      rw [server_messages, serverLoop, dif_pos more, dif_pos more]
      simp only [sz] at enough recorded
      simp only [if_neg enough, recorded]
  | case3 buffer c more sz enough next recorded ih =>
      rw [server_messages, serverLoop, dif_pos more, dif_pos more]
      simp only [sz] at enough recorded ih
      simp only [if_neg enough, recorded, ih]
  | case4 buffer c ended =>
      rw [server_messages, serverLoop, dif_neg ended, dif_neg ended]

def timing_line (get_query_rr_str : Bytes → Bytes) (addr : Bytes) (now : Timeval)
    (data : Bytes) : ResultLine :=
  .timing (is_query data) (get_id data) (get_query_rr_str data) now addr

private theorem record_all {addr : Bytes} {now : Timeval} {handed : List Bytes} {c : DNSClient}
    (long : ∀ data ∈ handed, 4 ≤ data.length) :
    handed.foldlM (fun c data => c.record_message_time get_query_rr_str data addr now) c =
      .ok { c with
            results := c.results ++ handed.map (timing_line get_query_rr_str addr now) } := by
  induction handed generalizing c with
  | nil =>
      rw [List.map_nil, List.append_nil]
      rfl
  | cons data later ih =>
      obtain ⟨first, others⟩ := List.forall_mem_cons.mp long
      have recorded : c.record_message_time get_query_rr_str data addr now =
          .ok { c with results := c.results ++ [timing_line get_query_rr_str addr now data] } := by
        unfold record_message_time
        rw [if_neg (Nat.not_lt.mpr first)]
        rfl
      rw [List.foldlM_cons, recorded]
      change later.foldlM _ _ = _
      rw [ih others, List.append_assoc]
      rfl

def buffered (c : DNSClient) (bev : Ptr) : Bytes := (c.server_msg_buffer.lookup bev).getD []

def source (c : DNSClient) (bev : Ptr) : Bytes := (c.bev2src.lookup bev).getD (Text.ascii "0")

variable (get_query_rr_str) in
/-- A read where only timing is on: the responses that the loop hands over are
recorded, and the rest is buffered. -/
theorem server_read_cb_timing {c : DNSClient} (timing : c.output_timing = true)
    (latency : c.output_latency = false) {bev : Ptr} {data rest : Bytes} (now : Timeval)
    {handed : List Bytes} (long : ∀ data ∈ handed, 4 ≤ data.length)
    (loops : ∀ (State : Type) (handle : State → Bytes → Except Fault State) (state : State),
      serverLoop handle (c.buffered bev ++ data) state =
        (handed.foldlM handle state).map (fun final => (rest, final))) :
    c.server_read_cb get_query_rr_str bev data now =
      .ok { c with
            results := c.results ++
              handed.map (timing_line get_query_rr_str (c.source bev) now)
            server_msg_buffer := c.server_msg_buffer.insert bev rest } := by
  have before : (c.server_msg_buffer.subscript [] bev).1 = c.buffered bev :=
    subscript_value _ [] bev
  unfold server_read_cb server_timing
  simp only [timing, latency, if_true, Bool.false_eq_true, if_false, before, server_messages_eq,
    loops, record_all long]
  change Except.ok _ = _
  rw [← subscript_insert c.server_msg_buffer [] rest bev]
  rfl

def read_server (get_query_rr_str : Bytes → Bytes) (bev : Ptr) (c : DNSClient)
    (read : Bytes × Timeval) : Except Fault DNSClient :=
  c.server_read_cb get_query_rr_str bev read.1 read.2

def Records (get_query_rr_str : Bytes → Bytes) (addr data : Bytes) (line : ResultLine) : Prop :=
  ∃ now, line = timing_line get_query_rr_str addr now data

private theorem records_map (addr : Bytes) (now : Timeval) (handed : List Bytes) :
    List.Forall₂ (Records get_query_rr_str addr) handed
      (handed.map (timing_line get_query_rr_str addr now)) := by
  rw [List.forall₂_map_right_iff, List.forall₂_same]
  intro data _member
  exact ⟨now, rfl⟩

variable (get_query_rr_str) in
/-- Any number of reads: they do to the worker what they do to a reader that
only keeps the responses. -/
theorem read_server_all (addr : Bytes) (bev : Ptr) (reads : List (Bytes × Timeval))
    (buffer : Bytes) (log : List Bytes) :
    ∃ rest handed,
      buffer ++ (reads.map Prod.fst).flatten = frames tcpWidth handed ++ rest ∧
      (∀ payload ∈ handed, payload.length < 256 ^ tcpWidth) ∧
      (reads.map Prod.fst).foldlM (readChunk (serverLoop record)) (buffer, log) =
        .ok (rest, log ++ handed) ∧
      ∀ c : DNSClient, c.output_timing = true → c.output_latency = false →
        c.buffered bev = buffer → c.source bev = addr → (∀ data ∈ handed, 4 ≤ data.length) →
        ∃ d lines, reads.foldlM (read_server get_query_rr_str bev) c = .ok d ∧
          d.results = c.results ++ lines ∧
          List.Forall₂ (Records get_query_rr_str addr) handed lines ∧ d.buffered bev = rest := by
  induction reads generalizing buffer log with
  | nil =>
      refine ⟨buffer, [], List.append_nil buffer, List.forall_mem_nil _, ?_, ?_⟩
      · rw [List.append_nil]
        rfl
      · intro c _timing _latency known _addr _long
        exact ⟨c, [], rfl, (List.append_nil _).symm, .nil, known⟩
  | cons read later ih =>
      obtain ⟨middle, first, cut, small, loops⟩ := serverLoop_hands_over (buffer ++ read.1)
      obtain ⟨rest, others, cutLater, smallLater, looped, recorded⟩ := ih middle (log ++ first)
      refine ⟨rest, first ++ others, ?_, ?_, ?_, ?_⟩
      · rw [List.map_cons, List.flatten_cons, ← List.append_assoc, cut, List.append_assoc, cutLater,
          frames_append, List.append_assoc]
      · exact List.forall_mem_append.mpr ⟨small, smallLater⟩
      · have once : readChunk (serverLoop record) (buffer, log) read.1 =
            .ok (middle, log ++ first) := by
          unfold readChunk
          rw [loops, foldlM_record]
          rfl
        rw [List.map_cons, List.foldlM_cons, once, ← List.append_assoc]
        exact looped
      · intro c timing latency known addrKnown long
        obtain ⟨longFirst, longOthers⟩ := List.forall_mem_append.mp long
        rw [← known] at loops
        have once := server_read_cb_timing get_query_rr_str timing latency read.2 longFirst loops
        rw [addrKnown] at once
        have kept : ∀ results, buffered { c with
            results := results
            server_msg_buffer := c.server_msg_buffer.insert bev middle } bev = middle := by
          intro results
          unfold buffered
          rw [AList.lookup_insert]
          rfl
        obtain ⟨d, lines, ran, added, all, left⟩ :=
          recorded { c with
            results := c.results ++ first.map (timing_line get_query_rr_str addr read.2)
            server_msg_buffer := c.server_msg_buffer.insert bev middle }
            timing latency (kept _) addrKnown longOthers
        refine ⟨d, first.map (timing_line get_query_rr_str addr read.2) ++ lines, ?_, ?_, ?_, left⟩
        · rw [List.foldlM_cons]
          unfold read_server at ran ⊢
          rw [once]
          exact ran
        · rw [added, List.append_assoc]
        · exact List.rel_append (records_map addr read.2 first) all

/-- The worker is in step with a connection: after every read it has recorded
the complete responses, in order, and buffers the bytes behind them, which are
no complete response. -/
def InStepWith (get_query_rr_str : Bytes → Bytes) (bev : Ptr) (c : DNSClient)
    (payloads : List Bytes) (reads : List (Bytes × Timeval)) : Prop :=
  ∀ front back, reads = front ++ back → ∀ complete pending tail,
    Cut tcpWidth payloads (front.map Prod.fst).flatten complete pending tail →
    ∃ d lines, front.foldlM (read_server get_query_rr_str bev) c = .ok d ∧
      d.results = c.results ++ lines ∧
      List.Forall₂ (Records get_query_rr_str (c.source bev)) complete lines ∧
      d.buffered bev = tail ∧ Partial tcpWidth (d.buffered bev)

theorem inStepWith_iff {payloads : List Bytes} {reads : List (Bytes × Timeval)}
    (carried : ∀ payload ∈ payloads, Carried tcpWidth payload)
    (stream : (reads.map Prod.fst).flatten = frames tcpWidth payloads)
    (long : ∀ payload ∈ payloads, 4 ≤ payload.length) {c : DNSClient} {bev : Ptr}
    (timing : c.output_timing = true) (latency : c.output_latency = false)
    (empty : c.buffered bev = []) :
    InStepWith get_query_rr_str bev c payloads reads ↔
      InStep tcpWidth record (serverLoop record) [] payloads (reads.map Prod.fst) := by
  have small : ∀ payload ∈ payloads, payload.length < 256 ^ tcpWidth :=
    fun payload member => (carried payload member).fits
  -- What the two have read is the same, response for response.
  have both : ∀ front back, reads = front ++ back → ∃ rest handed, handed <+: payloads ∧
      (front.map Prod.fst).foldlM (readChunk (serverLoop record)) ([], []) = .ok (rest, handed) ∧
      ∃ d lines, front.foldlM (read_server get_query_rr_str bev) c = .ok d ∧
        d.results = c.results ++ lines ∧
        List.Forall₂ (Records get_query_rr_str (c.source bev)) handed lines ∧
        d.buffered bev = rest := by
    intro front back same
    obtain ⟨rest, handed, cut, smallHanded, looped, ran⟩ :=
      read_server_all get_query_rr_str (c.source bev) bev front [] []
    rw [List.nil_append] at cut looped
    have listed : handed <+: payloads := by
      have streamed : frames tcpWidth handed ++ (rest ++ (back.map Prod.fst).flatten) =
          frames tcpWidth payloads := by
        rw [← List.append_assoc, ← cut, ← stream, same, List.map_append, List.flatten_append]
      exact prefix_of_frames (by decide) smallHanded small streamed
    refine ⟨rest, handed, listed, looped, ran c timing latency empty rfl ?_⟩
    intro data member
    exact long data (listed.subset member)
  constructor
  · intro inStep front back same complete pending tail cut
    obtain ⟨frontReads, backReads, rfl, rfl, rfl⟩ := List.map_eq_append_iff.mp same
    obtain ⟨rest, handed, listed, looped, d, lines, ran, added, all, left⟩ :=
      both frontReads backReads rfl
    obtain ⟨d', lines', ran', added', all', left', _incomplete⟩ :=
      inStep frontReads backReads rfl complete pending tail cut
    obtain rfl := Except.ok.inj (ran.symm.trans ran')
    obtain rfl := List.append_cancel_left (added.symm.trans added')
    have sameLength : handed.length = complete.length :=
      all.length_eq.trans all'.length_eq.symm
    have completeListed : complete <+: payloads := ⟨pending, cut.split.symm⟩
    have handedIs : handed = complete :=
      (List.prefix_of_prefix_length_le listed completeListed (Nat.le_of_eq sameLength)).eq_of_length
        sameLength
    rw [looped, foldlM_record, handedIs, ← left, left']
    rfl
  · intro inStep front back same complete pending tail cut
    obtain ⟨rest, handed, _listed, looped, d, lines, ran, added, all, left⟩ := both front back same
    have stepped := inStep (front.map Prod.fst) (back.map Prod.fst)
      (by rw [same, List.map_append]) complete pending tail cut
    rw [looped, foldlM_record] at stepped
    obtain ⟨rfl, rfl⟩ := Prod.mk.inj (Except.ok.inj stepped)
    refine ⟨d, lines, ran, added, all, left, ?_⟩
    have streamed : (front.map Prod.fst).flatten ++ (back.map Prod.fst).flatten =
        frames tcpWidth payloads := by
      rw [← stream, same, List.map_append, List.flatten_append]
    obtain ⟨_, pending', tail', cut', behind⟩ := cut_front payloads streamed
    obtain ⟨_, _, rfl⟩ := cut.unique cut'
    rw [left]
    exact cut'.incomplete (by decide) carried behind

/-- The timing part is in step exactly on the streams that never make it meet a
complete response that is longer than the low 16 bits of the number of bytes
left: with every treatment of the responses, and for the worker that records
them. -/
theorem server_read_cb_in_step_iff {payloads chunks : List Bytes}
    (carried : ∀ payload ∈ payloads, Carried tcpWidth payload)
    (stream : chunks.flatten = frames tcpWidth payloads) :
    ((∀ (State : Type) (handle : State → Bytes → Except Fault State) (state : State),
      InStep tcpWidth handle (serverLoop handle) state payloads chunks) ↔
      EachBuffered tcpWidth payloads (EachFits tcpWidth ServerFits) chunks) ∧
    ∀ (get_query_rr_str : Bytes → Bytes) (bev : Ptr) (c : DNSClient)
      (reads : List (Bytes × Timeval)),
      c.output_timing = true → c.output_latency = false → c.buffered bev = [] →
      reads.map Prod.fst = chunks → (∀ payload ∈ payloads, 4 ≤ payload.length) →
      (InStepWith get_query_rr_str bev c payloads reads ↔
        EachBuffered tcpWidth payloads (EachFits tcpWidth ServerFits) chunks) := by
  have ended : chunks.flatten ++ [] = frames tcpWidth payloads := by
    rw [List.append_nil, stream]
  have logged : InStep tcpWidth record (serverLoop record) [] payloads chunks ↔
      EachBuffered tcpWidth payloads (EachFits tcpWidth ServerFits) chunks :=
    (serverLoop_drains record).inStep_iff (by decide) (serverLoop_exact record) carried ended
      (foldlM_record payloads [])
  refine ⟨⟨?_, ?_⟩, ?_⟩
  · intro inStep
    exact logged.mp (inStep (List Bytes) record [])
  · intro each State handle state
    exact (serverLoop_drains handle).inStep (by decide) carried ended each state
  · intro get_query_rr_str bev c reads timing latency empty same long
    subst same
    exact (inStepWith_iff carried stream long timing latency empty).trans logged

end timing

private theorem carried_one : ∀ payload ∈ [[1, 2, 3, 4]], Carried tcpWidth payload := by
  intro payload member
  rw [List.mem_singleton] at member
  subst member
  exact { nonempty := by decide, fits := by decide }

/-- One response in two reads. -/
theorem server_read_cb_in_step_one :
    (∀ (State : Type) (handle : State → Bytes → Except Fault State) (state : State),
      InStep tcpWidth handle (serverLoop handle) state [[1, 2, 3, 4]] [[0], [4, 1, 2, 3, 4]]) ↔
      EachBuffered tcpWidth [[1, 2, 3, 4]] (EachFits tcpWidth ServerFits)
        [[0], [4, 1, 2, 3, 4]] :=
  (server_read_cb_in_step_iff carried_one (by decide)).1

def large_response : Bytes := List.replicate 65535 7

def timing_worker : DNSClient :=
  { output_timing := true, live_bevs := [1], server_msg_buffer := (∅ : HashTable Ptr Bytes) }

/-- A read that brings a response of 65535 bytes and a short one. -/
theorem two_responses_wait {response : Bytes} (size : response.length = 65535) :
    (∀ payload ∈ [response, [1, 2, 3, 4]], Carried tcpWidth payload) ∧
    ¬ Partial tcpWidth (frames tcpWidth [response, [1, 2, 3, 4]]) ∧
    ∃ d, timing_worker.server_read_cb (fun _ => []) 1
        (frames tcpWidth [response, [1, 2, 3, 4]]) Timeval.zero = .ok d ∧
      d.results = [] ∧ d.buffered 1 = frames tcpWidth [response, [1, 2, 3, 4]] := by
  have carried : Carried tcpWidth response := by
    refine ⟨?_, by rw [size]; decide⟩
    intro none
    rw [none] at size
    cases size
  have exceeds : ¬ ServerFits response (frames tcpWidth [[1, 2, 3, 4]]) := by
    unfold ServerFits
    rw [size]
    decide
  refine ⟨?_, ?_, ?_⟩
  · intro payload member
    rcases List.mem_cons.mp member with rfl | short
    · exact carried
    · exact carried_one payload short
  · intro incomplete
    have long : (frames tcpWidth [response, [1, 2, 3, 4]]).length = 65543 := by
      rw [frames_cons, List.length_append, frame_length, size]
      rfl
    rcases incomplete with short | missing
    · rw [long] at short
      exact absurd short (by decide)
    · rw [long, frames_cons, decodeLength_take_of_fits carried.fits, size] at missing
      exact absurd missing (by decide)
  · have loops : ∀ (State : Type) (handle : State → Bytes → Except Fault State) (state : State),
        serverLoop handle (timing_worker.buffered 1 ++ frames tcpWidth [response, [1, 2, 3, 4]])
          state =
        (([] : List Bytes).foldlM handle state).map
          (fun final => (frames tcpWidth [response, [1, 2, 3, 4]], final)) := by
      intro State handle state
      have empty : timing_worker.buffered 1 = [] := rfl
      rw [empty, List.nil_append, frames_cons, serverLoop_frame_stops handle carried exceeds]
      rfl
    have read := server_read_cb_timing (fun _ => []) (c := timing_worker) rfl rfl Timeval.zero
      (List.forall_mem_nil _) loops
    refine ⟨_, read, rfl, ?_⟩
    unfold buffered
    rw [AList.lookup_insert]
    rfl

/-- The longest response and a short one behind it, in one read: of the 65541
bytes left 16 bits hold 5, the loop stops, and both responses wait. -/
theorem pipelined_responses_wait :
    (∀ payload ∈ [large_response, [1, 2, 3, 4]], Carried tcpWidth payload) ∧
    ¬ Partial tcpWidth (frames tcpWidth [large_response, [1, 2, 3, 4]]) ∧
    ∃ d, timing_worker.server_read_cb (fun _ => []) 1
        (frames tcpWidth [large_response, [1, 2, 3, 4]]) Timeval.zero = .ok d ∧
      d.results = [] ∧ d.buffered 1 = frames tcpWidth [large_response, [1, 2, 3, 4]] :=
  two_responses_wait List.length_replicate

/-! ### The callback where latency is on -/

/-- What a read gives to `sendto_manager`: `len - 2` bytes behind the first two.
Below two bytes the length wraps around. -/
def latency_buf (data : Bytes) : Except Fault Bytes :=
  if data.length < 2 then .error .outOfBounds else .ok (data.drop 2)

private theorem server_read_cb_latency {get_query_rr_str : Bytes → Bytes} {c : DNSClient}
    (timing : c.output_timing = false) (latency : c.output_latency = true) (bev : Ptr)
    (data : Bytes) (now : Timeval) :
    c.server_read_cb get_query_rr_str bev data now =
      latency_buf data >>= fun buf =>
        if buf.length < 2 then .error .outOfBounds
        else .ok (c.sendto_manager get_query_rr_str buf now) := by
  unfold server_read_cb latency_buf
  simp only [timing, latency, Bool.false_eq_true, if_false, if_true]
  by_cases none : data.length < 2
  · rw [if_pos none, if_pos (by omega)]
    rfl
  · rw [if_neg none]
    change _ = if (data.drop 2).length < 2 then _ else _
    rw [List.length_drop]
    by_cases short : data.length < 4
    · rw [if_pos short, if_pos (by omega)]
    · rw [if_neg short, if_neg (by omega)]

/-- The messages of the reads are what stands behind their first two bytes, if all
have them. -/
theorem latency_bufs_iff {payloads chunks : List Bytes} :
    chunks.mapM latency_buf = .ok payloads ↔
      (∀ data ∈ chunks, tcpWidth ≤ data.length) ∧ chunks.map (List.drop tcpWidth) = payloads := by
  induction chunks generalizing payloads with
  | nil =>
      rw [List.mapM_nil, List.map_nil]
      constructor
      · intro none
        exact ⟨List.forall_mem_nil _, Except.ok.inj none⟩
      · intro none
        rw [← none.2]
        rfl
  | cons data later ih =>
      rw [List.mapM_cons, List.forall_mem_cons, List.map_cons]
      by_cases short : data.length < 2
      · have fault : latency_buf data = .error .outOfBounds := if_pos short
        rw [fault]
        refine iff_of_false (fun read => by cases read) ?_
        intro both
        exact Nat.not_le.mpr short both.1.1
      · have taken : latency_buf data = .ok (data.drop tcpWidth) := if_neg short
        have long : tcpWidth ≤ data.length := Nat.not_lt.mp short
        rw [taken, and_iff_right long]
        constructor
        · intro read
          obtain ⟨first, known, bound⟩ := of_bind_eq_ok read
          obtain rfl := Except.ok.inj known
          obtain ⟨others, rest, same⟩ := of_bind_eq_ok bound
          obtain ⟨longLater, dropped⟩ := ih.mp rest
          refine ⟨longLater, ?_⟩
          rw [dropped]
          exact Except.ok.inj same
        · intro dropped
          have rest := ih.mpr ⟨dropped.1, rfl⟩
          rw [← dropped.2, rest]
          rfl

/-- The messages of the reads are the responses of the connection, and no length
wraps around, exactly when every read is one response with its length. -/
theorem latency_messages_iff {payloads chunks : List Bytes}
    (stream : chunks.flatten = frames tcpWidth payloads) :
    (chunks.mapM latency_buf = .ok payloads ↔
      chunks = payloads.map (LengthPrefix.frame tcpWidth)) ∧
    ∀ (get_query_rr_str : Bytes → Bytes) (bev : Ptr) (c : DNSClient) (data : Bytes)
      (now : Timeval), c.output_timing = false → c.output_latency = true →
      c.server_read_cb get_query_rr_str bev data now =
        latency_buf data >>= fun buf =>
          if buf.length < 2 then .error .outOfBounds
          else .ok (c.sendto_manager get_query_rr_str buf now) := by
  refine ⟨?_, ?_⟩
  · rw [latency_bufs_iff]
    constructor
    · intro messages
      exact (map_drop_eq_iff messages.1 stream).mp messages.2
    · intro whole
      have long : ∀ data ∈ chunks, tcpWidth ≤ data.length := by
        rw [whole]
        intro data member
        obtain ⟨payload, _listed, rfl⟩ := List.mem_map.mp member
        rw [frame_length]
        exact Nat.le_add_right tcpWidth _
      exact ⟨long, (map_drop_eq_iff long stream).mpr whole⟩
  · intro get_query_rr_str bev c data now timing latency
    exact server_read_cb_latency timing latency bev data now

/-- Two responses, one read each. -/
theorem latency_messages_two :
    [[0, 4, 1, 2, 3, 4], [0, 2, 5, 6]].mapM latency_buf = .ok [[1, 2, 3, 4], [5, 6]] := by
  apply (latency_messages_iff (by decide)).1.mpr
  decide

/-- The same two responses in one read are one message; where the first byte is
read alone, the length wraps around. -/
theorem latency_reads_differ :
    frames tcpWidth [[1, 2, 3, 4], [5, 6]] = [0, 4, 1, 2, 3, 4, 0, 2, 5, 6] ∧
    [[0, 4, 1, 2, 3, 4, 0, 2, 5, 6]].mapM latency_buf = .ok [[1, 2, 3, 4, 0, 2, 5, 6]] ∧
    [[0, 4, 1], [2, 3, 4, 0, 2, 5, 6]].mapM latency_buf = .ok [[1], [4, 0, 2, 5, 6]] ∧
    [[0], [4, 1, 2, 3, 4, 0, 2, 5, 6]].mapM latency_buf = .error .outOfBounds := by
  decide

end DNSClient

end LDPlayer
