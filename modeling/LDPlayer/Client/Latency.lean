/-
The table of queries that wait for a response, in latency mode.

Sending draws a random id until the id and the question, as ldns prints them,
are not a key of the table.  The keys of the table are formatted, and no text
with tabs is one, so the first id is always taken.  The table agrees with the
queries that wait as long as that id is not the one of a query that waits with
the same question.
-/
import LDPlayer.Client.Tables

set_option autoImplicit false

namespace LDPlayer

open Text HashTable

/-! ### Keys -/

/-- A question as ldns prints it: name, class and type behind each other, with
tabs between them and a newline at the end. -/
def Printed (rr : Bytes) : Prop :=
  ∃ name cls type, IsWord name ∧ IsWord cls ∧ IsWord type ∧
    rr = name ++ 9 :: (cls ++ 9 :: (type ++ [10]))

theorem words_printed {name cls type : Bytes} (isName : IsWord name) (isCls : IsWord cls)
    (isType : IsWord type) :
    words (name ++ 9 :: (cls ++ 9 :: (type ++ [10]))) = [name, cls, type] := by
  rw [words_append_space isName (by decide), words_append_space isCls (by decide),
    words_append_space isType (by decide), words_nil]

theorem Printed.eq_of_words {rr other : Bytes} (printed : Printed rr) (printed' : Printed other)
    (same : words rr = words other) : rr = other := by
  obtain ⟨name, cls, type, isName, isCls, isType, rfl⟩ := printed
  obtain ⟨name', cls', type', isName', isCls', isType', rfl⟩ := printed'
  rw [words_printed isName isCls isType, words_printed isName' isCls' isType'] at same
  have parts : name = name' ∧ cls = cls' ∧ type = type' := by simpa using same
  rw [parts.1, parts.2.1, parts.2.2]

theorem Printed.ne_nil {rr : Bytes} (printed : Printed rr) : rr ≠ [] := by
  obtain ⟨name, cls, type, _, _, _, rfl⟩ := printed
  exact List.append_ne_nil_of_right_ne_nil _ (List.cons_ne_nil _ _)

theorem words_raw_key (id : Nat) (rr : Bytes) : words (raw_key id rr) = decimal id :: words rr := by
  unfold raw_key
  rw [to_string_natCast, List.append_assoc]
  exact words_append_space (decimal_isWord id) (by decide) rr

theorem message_key_eq_join (id : Nat) (rr : Bytes) :
    message_key id rr = join [32] (decimal id :: words rr) := by
  unfold message_key
  rw [← words_raw_key]
  exact fmt_str_blank (raw_key id rr)

private theorem key_words (id : Nat) (rr : Bytes) :
    ∀ item ∈ decimal id :: words rr, IsWord item := by
  intro item member
  rcases List.mem_cons.mp member with same | inside
  · rw [same]
    exact decimal_isWord id
  · exact words_isWord inside

theorem words_message_key (id : Nat) (rr : Bytes) :
    words (message_key id rr) = decimal id :: words rr := by
  rw [message_key_eq_join, words_join (key_words id rr)]

theorem message_key_injective {id id' : Nat} {rr rr' : Bytes} (printed : Printed rr)
    (printed' : Printed rr') (same : message_key id rr = message_key id' rr') :
    id = id' ∧ rr = rr' := by
  have parts := congrArg words same
  rw [words_message_key, words_message_key] at parts
  obtain ⟨ids, questions⟩ := List.cons.inj parts
  exact ⟨decimal_injective ids, printed.eq_of_words printed' questions⟩

/-- The text that the loop looks up is no formatted key. -/
theorem raw_key_ne_message_key {id id' : Nat} {rr rr' : Bytes} (question : rr = [] ∨ Printed rr)
    (printed' : Printed rr') : raw_key id rr ≠ message_key id' rr' := by
  intro same
  rcases question with empty | printed
  · have parts := congrArg words same
    rw [words_raw_key, words_message_key, empty, words_nil] at parts
    obtain ⟨name, cls, type, isName, isCls, isType, rfl⟩ := printed'
    rw [words_printed isName isCls isType] at parts
    exact absurd (congrArg List.length parts) (by simp)
  · have tab : (9 : UInt8) ∈ raw_key id rr := by
      obtain ⟨name, cls, type, _, _, _, rfl⟩ := printed
      unfold raw_key
      simp
    rw [same, message_key_eq_join] at tab
    rcases mem_join (key_words id' rr') tab with blank | solid
    · exact absurd blank (by decide)
    · exact absurd solid (by decide)

/-! ### The table and the queries that wait -/

/-- The table holds the send times of the queries that wait, under keys that
tell them apart. -/
structure Accounts (table : HashTable Bytes Timeval) (waiting : List Waiting) : Prop where
  printed : ∀ q ∈ waiting, Printed q.rr
  entries : ∀ key t, table.lookup key = some t ↔
    ∃ q ∈ waiting, message_key q.id q.rr = key ∧ q.sent = t
  unique : ∀ p ∈ waiting, ∀ q ∈ waiting, p.id = q.id → p.rr = q.rr → p = q

theorem Accounts.mem_table {table : HashTable Bytes Timeval} {waiting : List Waiting}
    (accounts : Accounts table waiting) {id : Nat} {rr : Bytes} (printed : Printed rr) :
    message_key id rr ∈ table ↔ ∃ q ∈ waiting, q.id = id ∧ q.rr = rr := by
  rw [mem_iff_lookup]
  constructor
  · intro stored
    obtain ⟨t, found⟩ := stored
    obtain ⟨q, member, same, _sent⟩ := (accounts.entries _ t).mp found
    exact ⟨q, member, message_key_injective (accounts.printed q member) printed same⟩
  · intro waits
    obtain ⟨q, member, rfl, rfl⟩ := waits
    exact ⟨q.sent, (accounts.entries _ _).mpr ⟨q, member, rfl, rfl⟩⟩

theorem Accounts.raw_key_absent {table : HashTable Bytes Timeval} {waiting : List Waiting}
    (accounts : Accounts table waiting) {rr : Bytes} (question : rr = [] ∨ Printed rr) (id : Nat) :
    raw_key id rr ∉ table := by
  intro present
  obtain ⟨t, found⟩ := mem_iff_lookup.mp present
  obtain ⟨q, member, same, _sent⟩ := (accounts.entries _ t).mp found
  exact raw_key_ne_message_key question (accounts.printed q member) same.symm

theorem Accounts.send {table : HashTable Bytes Timeval} {waiting : List Waiting}
    (accounts : Accounts table waiting) {id : Nat} {rr : Bytes} (printed : Printed rr)
    (now : Timeval) (unused : ∀ q ∈ waiting, ¬ (q.id = id ∧ q.rr = rr)) :
    Accounts (table.insert (message_key id rr) now)
      (waiting ++ [{ id := id, rr := rr, sent := now }]) where
  printed := by
    intro q member
    rcases List.mem_append.mp member with old | new
    · exact accounts.printed q old
    · rw [List.mem_singleton] at new
      subst new
      exact printed
  entries := by
    intro key t
    rw [lookup_insert_eq]
    by_cases same : key = message_key id rr
    · rw [if_pos same, Option.some.injEq]
      constructor
      · intro time
        exact ⟨_, List.mem_append_right _ List.mem_cons_self, same.symm, time⟩
      · intro waits
        obtain ⟨q, member, sameKey, sent⟩ := waits
        rcases List.mem_append.mp member with old | new
        · have both := message_key_injective (accounts.printed q old) printed (sameKey.trans same)
          exact absurd both (unused q old)
        · rw [List.mem_singleton] at new
          rw [new] at sent
          exact sent
    · rw [if_neg same, accounts.entries]
      constructor
      · intro waits
        obtain ⟨q, member, rest⟩ := waits
        exact ⟨q, List.mem_append_left _ member, rest⟩
      · intro waits
        obtain ⟨q, member, sameKey, sent⟩ := waits
        rcases List.mem_append.mp member with old | new
        · exact ⟨q, old, sameKey, sent⟩
        · rw [List.mem_singleton] at new
          rw [new] at sameKey
          exact absurd sameKey.symm same
  unique := by
    intro p inP q inQ ids questions
    rcases List.mem_append.mp inP with oldP | newP
    · rcases List.mem_append.mp inQ with oldQ | newQ
      · exact accounts.unique p oldP q oldQ ids questions
      · rw [List.mem_singleton] at newQ
        rw [newQ] at ids questions
        exact absurd ⟨ids, questions⟩ (unused p oldP)
    · rcases List.mem_append.mp inQ with oldQ | newQ
      · rw [List.mem_singleton] at newP
        rw [newP] at ids questions
        exact absurd ⟨ids.symm, questions.symm⟩ (unused q oldQ)
      · rw [List.mem_singleton] at newP newQ
        rw [newP, newQ]

theorem Accounts.answer {table : HashTable Bytes Timeval} {waiting : List Waiting}
    (accounts : Accounts table waiting) (key : Bytes) :
    Accounts (table.erase key) (waiting.filter (fun q => message_key q.id q.rr ≠ key)) where
  printed := by
    intro q member
    exact accounts.printed q (List.mem_filter.mp member).1
  entries := by
    intro other t
    rw [lookup_erase_eq]
    by_cases same : other = key
    · rw [if_pos same]
      refine iff_of_false (by simp) ?_
      intro waits
      obtain ⟨q, member, sameKey, _sent⟩ := waits
      have kept := (List.mem_filter.mp member).2
      simp only [ne_eq, decide_eq_true_eq] at kept
      exact kept (sameKey.trans same)
    · rw [if_neg same, accounts.entries]
      constructor
      · intro waits
        obtain ⟨q, member, sameKey, sent⟩ := waits
        refine ⟨q, List.mem_filter.mpr ⟨member, ?_⟩, sameKey, sent⟩
        simp only [ne_eq, decide_eq_true_eq, sameKey]
        exact same
      · intro waits
        obtain ⟨q, member, rest⟩ := waits
        exact ⟨q, (List.mem_filter.mp member).1, rest⟩
  unique := by
    intro p inP q inQ
    exact accounts.unique p (List.mem_filter.mp inP).1 q (List.mem_filter.mp inQ).1

namespace DNSClient

variable {get_query_rr_str : Bytes → Bytes}

/-! ### What a step does to them -/

def sending : Event → Option (DNSMsg × List Nat)
  | .send_query_udp msg ids _ _ _ => some (msg, ids)
  | .send_query_tcp msg ids _ _ => some (msg, ids)
  | _ => none

/-- The id and the question that a send records in the table. -/
def recorded (get_query_rr_str : Bytes → Bytes) (c : DNSClient) (event : Event) :
    Option (Nat × Bytes) :=
  match sending event with
  | none => none
  | some (msg, ids) =>
      let rr := get_query_rr_str (raw_copy msg)
      if 2 ≤ (raw_copy msg).length ∧ rr.length ≠ 0 then
        (draw_id rr c ids).map (fun id => (id, rr))
      else none

def Overwrites (get_query_rr_str : Bytes → Bytes) (c : DNSClient) (event : Event) : Prop :=
  ∃ id rr, recorded get_query_rr_str c event = some (id, rr) ∧ message_key id rr ∈ c.query_table

/-- The first id that the send of a packet draws is not the one of a query that
waits with the same question. -/
def DrawsUnused (get_query_rr_str : Bytes → Bytes) (c : DNSClient) (event : Event) : Prop :=
  ∀ msg id rest, sending event = some (msg, id :: rest) → 2 ≤ (raw_copy msg).length →
    ∀ q ∈ c.waiting, ¬ (q.id = id ∧ q.rr = get_query_rr_str (raw_copy msg))

def response : Event → Option (Bytes × Timeval)
  | .server_udp_read_cb _ data now => some (data, now)
  | .server_read_cb _ data now => some (data.drop 2, now)
  | _ => none

def Accounted (c : DNSClient) : Prop := Accounts c.query_table c.waiting

theorem Accounted.draw_id {c : DNSClient} (accounted : c.Accounted) {rr : Bytes}
    (question : rr = [] ∨ Printed rr) (id : Nat) (rest : List Nat) :
    DNSClient.draw_id rr c (id :: rest) = some id :=
  if_neg (accounted.raw_key_absent question id)

theorem Accounted.drawn {c : DNSClient} (accounted : c.Accounted) {rr : Bytes}
    (question : rr = [] ∨ Printed rr) {id : Nat} {ids : List Nat}
    (drawn : DNSClient.draw_id rr c ids = some id) : ∃ rest, ids = id :: rest := by
  cases ids with
  | nil => cases drawn
  | cons first rest =>
      rw [accounted.draw_id question first rest] at drawn
      exact ⟨rest, by rw [Option.some.inj drawn]⟩

/-- In a state whose table agrees with the waiting queries, a send overwrites
exactly when it draws the id of one with the same question. -/
theorem Accounted.overwrites_iff {c : DNSClient} (accounted : c.Accounted)
    (ldns : ∀ buf, get_query_rr_str buf = [] ∨ Printed (get_query_rr_str buf)) (event : Event) :
    ¬ c.Overwrites get_query_rr_str event ↔ c.DrawsUnused get_query_rr_str event := by
  constructor
  · intro kept msg id rest isSend packet q member clash
    have printed : Printed (get_query_rr_str (raw_copy msg)) := by
      rw [← clash.2]
      exact accounted.printed q member
    apply kept
    refine ⟨id, get_query_rr_str (raw_copy msg), ?_, ?_⟩
    · unfold recorded
      simp only [isSend]
      rw [if_pos ⟨packet, fun empty => printed.ne_nil (List.length_eq_zero_iff.mp empty)⟩,
        accounted.draw_id (Or.inr printed), Option.map_some]
    · exact (accounted.mem_table printed).mpr ⟨q, member, clash⟩
  · intro unused overwrites
    obtain ⟨id, rr, isRecorded, present⟩ := overwrites
    unfold recorded at isRecorded
    cases isSend : sending event with
    | none =>
        simp only [isSend] at isRecorded
        cases isRecorded
    | some sent =>
        simp only [isSend, Option.ite_none_right_eq_some, Option.map_eq_some_iff] at isRecorded
        obtain ⟨⟨packet, nonempty⟩, first, drawn, same⟩ := isRecorded
        obtain ⟨rfl, rfl⟩ := Prod.mk.inj same
        have printed : Printed (get_query_rr_str (raw_copy sent.1)) :=
          (ldns _).resolve_left (fun empty => nonempty (by rw [empty]; rfl))
        obtain ⟨rest, ids⟩ := accounted.drawn (Or.inr printed) drawn
        obtain ⟨q, member, clash⟩ := (accounted.mem_table printed).mp present
        have isSend' : sending event = some (sent.1, first :: rest) := by rw [isSend, ← ids]
        exact unused sent.1 first rest isSend' packet q member clash

theorem log_query_timing_accounted {c : DNSClient} (accounted : c.Accounted) {id : Nat}
    {rr : Bytes} (question : rr = [] ∨ Printed rr) (now : Timeval)
    (unused : ∀ q ∈ c.waiting, ¬ (q.id = id ∧ q.rr = rr)) :
    (c.log_query_timing id rr now).Accounted := by
  unfold log_query_timing
  by_cases logged : rr.length ≠ 0 ∧ c.output_latency = true
  · rw [if_pos logged]
    have printed := question.resolve_left (fun empty => logged.1 (by rw [empty]; rfl))
    exact accounted.send printed now unused
  · rw [if_neg logged]
    exact accounted

private theorem sendto_manager_accounted {c : DNSClient} (accounted : c.Accounted) (buf : Bytes)
    (now : Timeval) : (c.sendto_manager get_query_rr_str buf now).Accounted := by
  unfold sendto_manager
  simp only
  cases found : c.query_table.lookup (message_key (get_id buf) (get_query_rr_str buf)) with
  | some qt => exact accounted.answer _
  | none =>
      have all : c.waiting.filter (fun q => message_key q.id q.rr ≠
          message_key (get_id buf) (get_query_rr_str buf)) = c.waiting := by
        apply List.filter_eq_self.mpr
        intro q member
        simp only [ne_eq, decide_eq_true_eq]
        intro same
        have stored := (accounted.entries _ q.sent).mpr ⟨q, member, same, rfl⟩
        rw [found] at stored
        cases stored
      unfold Accounted
      simp only [all]
      exact accounted

private theorem send_query_udp_accounted {c d : DNSClient} {msg : DNSMsg} {ids : List Nat}
    {now : Timeval}
    {new_fd : Fd} {read_ev : Ptr}
    (ldns : ∀ buf, get_query_rr_str buf = [] ∨ Printed (get_query_rr_str buf))
    (accounted : c.Accounted)
    (unused : c.DrawsUnused get_query_rr_str (.send_query_udp msg ids now new_fd read_ev))
    (ran : c.send_query_udp get_query_rr_str msg ids now new_fd read_ev = .ok d) :
    d.Accounted := by
  rcases send_query_udp_cases ran with rfl | ⟨id, fd, ready, packet, drawn, socket, rfl⟩
  · exact accounted
  · obtain ⟨rest, same⟩ := accounted.drawn (ldns _) drawn
    have free := unused msg id rest (by rw [same]; rfl) packet
    have kept : ready.query_table = c.query_table ∧ ready.waiting = c.waiting := by
      rcases udp_socket_cases socket with
        ⟨_unified, _fd, rfl⟩ | ⟨_each, _found, rfl⟩ | ⟨_each, _none, _fd, rfl⟩ <;> exact ⟨rfl, rfl⟩
    have ready_accounted : ready.Accounted := by
      unfold Accounted
      rw [kept.1, kept.2]
      exact accounted
    rw [← kept.2] at free
    exact log_query_timing_accounted ready_accounted (ldns _) now free

private theorem send_query_tcp_accounted {c d : DNSClient} {msg : DNSMsg} {ids : List Nat}
    {now : Timeval}
    {new_bev : Ptr} (ldns : ∀ buf, get_query_rr_str buf = [] ∨ Printed (get_query_rr_str buf))
    (accounted : c.Accounted)
    (unused : c.DrawsUnused get_query_rr_str (.send_query_tcp msg ids now new_bev))
    (ran : c.send_query_tcp get_query_rr_str msg ids now new_bev = .ok d) : d.Accounted := by
  rcases send_query_tcp_cases ran with rfl | ⟨id, results, bev, packet, drawn, connection⟩
  · exact accounted
  · obtain ⟨rest, same⟩ := accounted.drawn (ldns _) drawn
    have free := unused msg id rest (by rw [same]; rfl) packet
    have logged := log_query_timing_accounted accounted (ldns _) now free
    rcases tcp_connection_cases connection with ⟨_found, rfl⟩ | ⟨_none, _bev, _live, rfl⟩
    · exact logged
    · exact logged

theorem step_response {c d : DNSClient} {event : Event} {payload : Bytes} {now : Timeval}
    (latency : c.output_latency = true) (timing : c.output_timing = false)
    (arrives : response event = some (payload, now))
    (stepped : c.step get_query_rr_str event = .ok d) :
    d = c.sendto_manager get_query_rr_str payload now := by
  cases event with
  | server_udp_read_cb fd data time =>
      obtain ⟨rfl, rfl⟩ := Prod.mk.inj (Option.some.inj arrives)
      rcases server_udp_read_cb_cases stepped with ⟨_latency, same⟩ | ⟨off, _⟩
      · exact same
      · rw [latency] at off
        cases off
  | server_read_cb bev data time =>
      obtain ⟨rfl, rfl⟩ := Prod.mk.inj (Option.some.inj arrives)
      obtain ⟨ready, reached, outcome⟩ := server_read_cb_cases stepped
      have same : ready = c := by
        rcases reached with same | ⟨on, _⟩
        · exact same
        · rw [timing] at on
          cases on
      subst same
      rcases outcome with ⟨_latency, _long, same⟩ | ⟨off, _⟩
      · exact same
      · rw [latency] at off
        cases off
  | send_query_udp _ _ _ _ _ => cases arrives
  | send_query_tcp _ _ _ _ => cases arrives
  | server_udp_write_cb _ _ _ => cases arrives
  | server_udp_read_timeout_cb _ => cases arrives
  | server_event_cb _ _ => cases arrives

theorem server_udp_read_timeout_cb_table (fd : Fd) (c : DNSClient) :
    (c.server_udp_read_timeout_cb fd).query_table = c.query_table ∧
      (c.server_udp_read_timeout_cb fd).waiting = c.waiting := by
  unfold server_udp_read_timeout_cb
  simp only
  repeat' split
  all_goals exact ⟨rfl, rfl⟩

theorem server_event_cb_table (bev : Ptr) (which : Which) (c : DNSClient) :
    (c.server_event_cb bev which).query_table = c.query_table ∧
      (c.server_event_cb bev which).waiting = c.waiting := by
  unfold server_event_cb
  split <;> exact ⟨rfl, rfl⟩

/-- What the steps of a good run keep in latency mode. -/
structure InLatencyMode (c : DNSClient) : Prop where
  latency : c.output_latency = true
  timing : c.output_timing = false
  accounted : c.Accounted

theorem InLatencyMode.step {c d : DNSClient} {event : Event} (mode : c.InLatencyMode)
    (ldns : ∀ buf, get_query_rr_str buf = [] ∨ Printed (get_query_rr_str buf))
    (unused : c.DrawsUnused get_query_rr_str event)
    (stepped : c.step get_query_rr_str event = .ok d) : d.InLatencyMode := by
  have options := step_toOptions stepped
  refine ⟨?_, ?_, ?_⟩
  · exact (congrArg Options.output_latency options).trans mode.latency
  · exact (congrArg Options.output_timing options).trans mode.timing
  · have accounted := mode.accounted
    cases event with
    | send_query_udp msg ids now new_fd read_ev =>
        exact send_query_udp_accounted ldns accounted unused stepped
    | send_query_tcp msg ids now new_bev =>
        exact send_query_tcp_accounted ldns accounted unused stepped
    | server_udp_write_cb fd msg now =>
        obtain ⟨_isOpen, results, rfl⟩ := server_udp_write_cb_cases stepped
        exact accounted
    | server_udp_read_cb fd data now =>
        rw [step_response mode.latency mode.timing rfl stepped]
        exact sendto_manager_accounted accounted data now
    | server_udp_read_timeout_cb fd =>
        rw [← Except.ok.inj stepped]
        obtain ⟨table, waiting⟩ := server_udp_read_timeout_cb_table fd c
        unfold Accounted
        rw [table, waiting]
        exact accounted
    | server_read_cb bev data now =>
        rw [step_response mode.latency mode.timing rfl stepped]
        exact sendto_manager_accounted accounted (data.drop 2) now
    | server_event_cb bev which =>
        rw [← Except.ok.inj stepped]
        obtain ⟨table, waiting⟩ := server_event_cb_table bev which c
        unfold Accounted
        rw [table, waiting]
        exact accounted

/-! ### What is reported -/

/-- A response to a waiting query is reported with the time since its sending,
and no other query is done. -/
theorem Accounted.answers {c : DNSClient} (accounted : c.Accounted) {payload : Bytes}
    (now : Timeval) {q : Waiting} (member : q ∈ c.waiting) (sameId : q.id = get_id payload)
    (sameRr : q.rr = get_query_rr_str payload) :
    (c.sendto_manager get_query_rr_str payload now).results =
        c.results ++ [.latency q.id q.rr (now.evutil_timersub q.sent)] ∧
      ∀ p, p ∈ (c.sendto_manager get_query_rr_str payload now).waiting ↔
        p ∈ c.waiting ∧ p ≠ q := by
  have found : c.query_table.lookup (message_key (get_id payload) (get_query_rr_str payload)) =
      some q.sent := by
    rw [← sameId, ← sameRr]
    exact (accounted.entries _ q.sent).mpr ⟨q, member, rfl, rfl⟩
  unfold sendto_manager
  simp only [found]
  refine ⟨by rw [sameId, sameRr], ?_⟩
  intro p
  rw [List.mem_filter, ← sameId, ← sameRr]
  simp only [ne_eq, decide_eq_true_eq]
  apply and_congr_right
  intro inP
  apply not_congr
  constructor
  · intro same
    have both := message_key_injective (accounted.printed p inP) (accounted.printed q member) same
    exact accounted.unique p inP q member both.1 both.2
  · intro same
    rw [same]

theorem Accounted.ignores {c : DNSClient} (accounted : c.Accounted) {payload : Bytes}
    (ldns : ∀ buf, get_query_rr_str buf = [] ∨ Printed (get_query_rr_str buf)) (now : Timeval)
    (unknown : ∀ q ∈ c.waiting, ¬ (q.id = get_id payload ∧ q.rr = get_query_rr_str payload)) :
    (c.sendto_manager get_query_rr_str payload now).results = c.results := by
  have missing : c.query_table.lookup (message_key (get_id payload) (get_query_rr_str payload)) =
      none := by
    apply notMem_iff_lookup.mp
    intro present
    rcases ldns payload with empty | printed
    · obtain ⟨t, found⟩ := mem_iff_lookup.mp present
      obtain ⟨q, member, same, _sent⟩ := (accounted.entries _ t).mp found
      obtain ⟨name, cls, type, isName, isCls, isType, isRr⟩ := accounted.printed q member
      have parts := congrArg words same
      rw [words_message_key, words_message_key, empty, isRr,
        words_printed isName isCls isType, words_nil] at parts
      exact absurd (congrArg List.length parts) (by simp)
    · obtain ⟨q, member, clash⟩ := (accounted.mem_table printed).mp present
      exact unknown q member clash
  unfold sendto_manager
  simp only [missing]

theorem Initial.accounted {c : DNSClient} (initial : c.Initial) : c.Accounted := by
  obtain ⟨options, open_fds, rfl⟩ := initial
  refine ⟨?_, ?_, ?_⟩
  · intro q member
    cases member
  · intro key t
    refine iff_of_false (by simp) ?_
    intro waits
    obtain ⟨q, member, _⟩ := waits
    cases member
  · intro p inP
    cases inP

/-- A run in latency mode never overwrites an entry exactly when each send
draws first an id that no query with the same question waits with.  Every
response in such a run is reported once, with the latency of its own query. -/
theorem query_table_keeps_waiting_iff {start c : DNSClient} {events : List Event}
    (ldns : ∀ buf, get_query_rr_str buf = [] ∨ Printed (get_query_rr_str buf))
    (initial : start.Initial) (latency : start.output_latency = true)
    (timing : start.output_timing = false) (run : Run get_query_rr_str start events c) :
    (Runs.AllSteps (step get_query_rr_str)
        (fun state event => ¬ state.Overwrites get_query_rr_str event) start events ↔
      Runs.AllSteps (step get_query_rr_str) (DrawsUnused get_query_rr_str) start events) ∧
    (Runs.AllSteps (step get_query_rr_str) (DrawsUnused get_query_rr_str) start events →
      ∀ event payload now d, response event = some (payload, now) →
        c.step get_query_rr_str event = .ok d →
        (∀ q ∈ c.waiting, q.id = get_id payload → q.rr = get_query_rr_str payload →
          d.results = c.results ++ [.latency q.id q.rr (now.evutil_timersub q.sent)] ∧
          ∀ p, p ∈ d.waiting ↔ p ∈ c.waiting ∧ p ≠ q) ∧
        ((∀ q ∈ c.waiting, ¬ (q.id = get_id payload ∧ q.rr = get_query_rr_str payload)) →
          d.results = c.results)) := by
  have mode : start.InLatencyMode := ⟨latency, timing, initial.accounted⟩
  have keeps : ∀ state event next, InLatencyMode state → admits state event →
      state.step get_query_rr_str event = .ok next → DrawsUnused get_query_rr_str state event →
      InLatencyMode next :=
    fun _ _ _ holds _ stepped unused => holds.step ldns unused stepped
  constructor
  · refine Runs.Run.allSteps_congr ?_ keeps run mode
    intro state event next holds _admitted _stepped
    exact holds.accounted.overwrites_iff ldns event
  · intro unused event payload now d arrives stepped
    have reached := Runs.Run.invariant_of_allSteps keeps run mode unused
    rw [step_response reached.latency reached.timing arrives stepped]
    constructor
    · intro q member sameId sameRr
      exact reached.accounted.answers now member sameId sameRr
    · intro unknown
      exact reached.accounted.ignores ldns now unknown

/-! ### Two queries for the same name -/

def printed_a : Bytes := ascii "a.\tIN\tA\n"

theorem asks_for_a_printed (buf : Bytes) : asks_for_a buf = [] ∨ Printed (asks_for_a buf) := by
  unfold asks_for_a
  split
  · right
    exact ⟨ascii "a.", ascii "IN", ascii "A", isWord_of_all (by decide) (by decide),
      isWord_of_all (by decide) (by decide), isWord_of_all (by decide) (by decide), rfl⟩
  · exact Or.inl rfl

private theorem sends_query_for_a {c : DNSClient} (mode : c.InLatencyMode)
    (each : c.socket_unify_udp = false) {ip : Bytes} (unmapped : c.src2udpfd.lookup ip = none)
    (id : Nat) (now : Timeval) {new_fd : Fd} (valid : new_fd ≠ -1) (read_ev : Ptr) :
    ∃ d, c.step asks_for_a (.send_query_udp (sample_query ip) [id] now new_fd read_ev) = .ok d ∧
      d.waiting = c.waiting ++ [{ id := id, rr := printed_a, sent := now }] ∧
      d.query_table = c.query_table.insert (message_key id printed_a) now ∧
      d.src2udpfd = c.src2udpfd.emplace ip new_fd ∧ d.open_fds = new_fd :: c.open_fds ∧
      d.socket_unify_udp = false ∧ d.results = c.results := by
  have drawn : draw_id printed_a c [id] = some id :=
    mode.accounted.draw_id (asks_for_a_printed (raw_copy (sample_query ip))) id []
  have logged : printed_a.length ≠ 0 ∧ c.output_latency = true := ⟨by decide, mode.latency⟩
  have copied : raw_copy (sample_query ip) = [0, 0] ++ query_for_a := rfl
  have question : asks_for_a ([0, 0] ++ query_for_a) = printed_a := rfl
  have source : (sample_query ip).src_ip = ip := rfl
  have socket := udp_socket_new each unmapped valid read_ev
  simp only [step, send_query_udp, copied]
  rw [if_neg (by decide), if_neg (by decide)]
  simp only [question, drawn, source, socket, log_query_timing, if_pos logged]
  exact ⟨_, rfl, rfl, rfl, rfl, rfl, each, rfl⟩

private theorem draws_unused {c : DNSClient} {ip : Bytes} {id : Nat} {now : Timeval} {new_fd : Fd}
    {read_ev : Ptr} (unused : ∀ q ∈ c.waiting, ¬ (q.id = id ∧ q.rr = printed_a)) :
    c.DrawsUnused asks_for_a (.send_query_udp (sample_query ip) [id] now new_fd read_ev) := by
  intro msg first rest isSend _packet q member
  obtain ⟨rfl, ids⟩ := Prod.mk.inj (Option.some.inj isSend)
  obtain ⟨rfl, _rest⟩ := List.cons.inj ids
  exact unused q member

/-- Two sources ask for the address of `a.` under different ids, and the first one is
answered. -/
theorem query_table_keeps_waiting_answered :
    ∃ c, Run asks_for_a { output_latency := true }
        [.send_query_udp (sample_query (ascii "10.0.0.1")) [7] Timeval.zero 5 1000,
          .send_query_udp (sample_query (ascii "10.0.0.2")) [8] ⟨1, 0⟩ 6 1001] c ∧
      Runs.AllSteps (step asks_for_a) (fun state event => ¬ state.Overwrites asks_for_a event)
        { output_latency := true }
        [.send_query_udp (sample_query (ascii "10.0.0.1")) [7] Timeval.zero 5 1000,
          .send_query_udp (sample_query (ascii "10.0.0.2")) [8] ⟨1, 0⟩ 6 1001] ∧
      ∃ d, c.step asks_for_a
          (.server_udp_read_cb 5 ([0, 7, 129, 131] ++ query_for_a.drop 2) ⟨2, 500⟩) = .ok d ∧
        d.results = [.latency 7 printed_a ⟨2, 500⟩] ∧
        ∀ p, p ∈ d.waiting ↔ p = { id := 8, rr := printed_a, sent := ⟨1, 0⟩ } := by
  have initial : Initial { output_latency := true } := ⟨{ output_latency := true }, [], rfl⟩
  have mode : InLatencyMode { output_latency := true } := ⟨rfl, rfl, initial.accounted⟩
  obtain ⟨b, first, waiting, _table, sockets, opened, each, results⟩ :=
    sends_query_for_a mode rfl (AList.lookup_empty (ascii "10.0.0.1")) 7 Timeval.zero
      (show (5 : Fd) ≠ -1 by decide) 1000
  have unused : DrawsUnused asks_for_a { output_latency := true }
      (.send_query_udp (sample_query (ascii "10.0.0.1")) [7] Timeval.zero 5 1000) :=
    draws_unused (List.forall_mem_nil _)
  have unmapped : b.src2udpfd.lookup (ascii "10.0.0.2") = none := by
    rw [sockets]
    rfl
  obtain ⟨c, second, waiting', _table', _sockets', _opened', _each', results'⟩ :=
    sends_query_for_a (mode.step asks_for_a_printed unused first) each unmapped 8 ⟨1, 0⟩
      (show (6 : Fd) ≠ -1 by decide) 1001
  have unused' : b.DrawsUnused asks_for_a
      (.send_query_udp (sample_query (ascii "10.0.0.2")) [8] ⟨1, 0⟩ 6 1001) := by
    apply draws_unused
    rw [waiting]
    decide
  have free : (6 : Fd) ∉ b.open_fds := by
    rw [opened]
    decide
  have reached : Run asks_for_a { output_latency := true }
      [.send_query_udp (sample_query (ascii "10.0.0.1")) [7] Timeval.zero 5 1000,
        .send_query_udp (sample_query (ascii "10.0.0.2")) [8] ⟨1, 0⟩ 6 1001] c :=
    .next (by decide) first (.next free second (.done c))
  have different : Runs.AllSteps (step asks_for_a) (DrawsUnused asks_for_a)
      { output_latency := true }
      [.send_query_udp (sample_query (ascii "10.0.0.1")) [7] Timeval.zero 5 1000,
        .send_query_udp (sample_query (ascii "10.0.0.2")) [8] ⟨1, 0⟩ 6 1001] :=
    (Runs.allSteps_cons first).mpr ⟨unused, (Runs.allSteps_cons second).mpr
      ⟨unused', Runs.allSteps_nil _ c⟩⟩
  obtain ⟨kept, reported⟩ :=
    query_table_keeps_waiting_iff asks_for_a_printed initial rfl rfl reached
  have latency : c.output_latency = true :=
    ((mode.step asks_for_a_printed unused first).step asks_for_a_printed unused' second).latency
  have arrives : c.step asks_for_a
      (.server_udp_read_cb 5 ([0, 7, 129, 131] ++ query_for_a.drop 2) ⟨2, 500⟩) =
      .ok (c.sendto_manager asks_for_a ([0, 7, 129, 131] ++ query_for_a.drop 2) ⟨2, 500⟩) := by
    simp only [step, server_udp_read_cb, latency, if_true]
  have both : c.waiting = [{ id := 7, rr := printed_a, sent := Timeval.zero },
      { id := 8, rr := printed_a, sent := ⟨1, 0⟩ }] := by
    rw [waiting', waiting]
    rfl
  have answered := (reported different _ _ _ _ rfl arrives).1
    { id := 7, rr := printed_a, sent := Timeval.zero } (by rw [both]; exact List.mem_cons_self)
    rfl rfl
  refine ⟨c, reached, kept.mpr different, _, arrives, ?_, ?_⟩
  · rw [answered.1, results', results]
    rfl
  · intro p
    rw [answered.2, both]
    constructor
    · intro left
      rcases List.mem_cons.mp left.1 with same | later
      · exact absurd same left.2
      · exact List.mem_singleton.mp later
    · intro same
      rw [same]
      exact ⟨List.mem_cons_of_mem _ List.mem_cons_self, by decide⟩

/-- The second source draws the id of the first, and its entry replaces the one of the first. -/
theorem second_query_overwrites :
    Initial { output_latency := true } ∧
    (∀ buf, asks_for_a buf = [] ∨ Printed (asks_for_a buf)) ∧
    ∃ c, Run asks_for_a { output_latency := true }
        [.send_query_udp (sample_query (ascii "10.0.0.1")) [7] Timeval.zero 5 1000] c ∧
      c.admits (.send_query_udp (sample_query (ascii "10.0.0.2")) [7] ⟨1, 0⟩ 6 1001) ∧
      c.Overwrites asks_for_a
        (.send_query_udp (sample_query (ascii "10.0.0.2")) [7] ⟨1, 0⟩ 6 1001) ∧
      c.waiting = [{ id := 7, rr := printed_a, sent := Timeval.zero }] ∧
      ∃ d, c.step asks_for_a
          (.send_query_udp (sample_query (ascii "10.0.0.2")) [7] ⟨1, 0⟩ 6 1001) = .ok d ∧
        d.query_table.lookup (message_key 7 printed_a) = some ⟨1, 0⟩ := by
  have initial : Initial { output_latency := true } := ⟨{ output_latency := true }, [], rfl⟩
  have mode : InLatencyMode { output_latency := true } := ⟨rfl, rfl, initial.accounted⟩
  obtain ⟨c, first, waiting, _table, sockets, opened, each, _results⟩ :=
    sends_query_for_a mode rfl (AList.lookup_empty (ascii "10.0.0.1")) 7 Timeval.zero
      (show (5 : Fd) ≠ -1 by decide) 1000
  have unused : DrawsUnused asks_for_a { output_latency := true }
      (.send_query_udp (sample_query (ascii "10.0.0.1")) [7] Timeval.zero 5 1000) :=
    draws_unused (List.forall_mem_nil _)
  have reached := mode.step asks_for_a_printed unused first
  have unmapped : c.src2udpfd.lookup (ascii "10.0.0.2") = none := by
    rw [sockets]
    rfl
  obtain ⟨d, second, _waiting, table, _sockets, _opened, _each, _results⟩ :=
    sends_query_for_a reached each unmapped 7 ⟨1, 0⟩ (show (6 : Fd) ≠ -1 by decide) 1001
  refine ⟨initial, asks_for_a_printed, c, .next (by decide) first (.done c), ?_, ?_, waiting, d,
    second, ?_⟩
  · change (6 : Fd) ∉ c.open_fds
    rw [opened]
    decide
  · by_contra kept
    have free := (reached.accounted.overwrites_iff asks_for_a_printed _).mp kept
    refine free (sample_query (ascii "10.0.0.2")) 7 [] rfl (by decide)
      { id := 7, rr := printed_a, sent := Timeval.zero } ?_ ⟨rfl, rfl⟩
    rw [waiting]
    exact List.mem_singleton.mpr rfl
  · rw [table]
    exact AList.lookup_insert _

end DNSClient

end LDPlayer
