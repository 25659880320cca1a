/-
The manager as a distributor among its workers.

It announces the first trace time to all workers and hands every later message
to the worker of its source.  The two loops that do this, over the controller's
connection and over a local input, keep the same invariant.
-/
import LDPlayer.Client.Manager
import LDPlayer.Foundation.Sharing

set_option autoImplicit false

namespace LDPlayer

open Text HashTable Sharing

namespace Manager

def worker_of (m : Manager) (src_ip : Bytes) : Option Fd := m.client_src2fd.lookup (cString src_ip)

/-! ### A manager that can route -/

structure Ready (m : Manager) : Prop where
  mapping : m.disable_mapping = false
  count : m.num_clients = m.client_fd.length
  some_worker : m.client_fd ≠ []
  distinct : m.client_fd.Nodup
  opened : ∀ fd ∈ m.client_fd, 0 ≤ fd
  indexed : ∀ (idx : Nat) (fd : Fd), m.client_fd[idx]? = some fd →
    m.client_idx2fd.lookup (idx : Int) = some fd
  mapped : ∀ ip fd, m.client_src2fd.lookup ip = some fd → fd ∈ m.client_fd

private theorem indexFrom_keeps (i : Int) (fds : List Fd) (table : HashTable Int Fd) {j : Int}
    {fd : Fd} (found : table.lookup j = some fd) : (indexFrom i fds table).lookup j = some fd := by
  induction fds generalizing i table with
  | nil => exact found
  | cons head rest ih =>
      rw [indexFrom]
      apply ih
      unfold emplace
      by_cases present : i ∈ table
      · rw [if_pos present]
        exact found
      · rw [if_neg present, lookup_insert_eq, if_neg]
        · exact found
        · intro same
          subst same
          exact present (mem_iff_lookup.mpr ⟨fd, found⟩)

private theorem indexFrom_lookup (i : Int) (fds : List Fd) (table : HashTable Int Fd)
    (fresh : ∀ j, i ≤ j → j ∉ table) {idx : Nat} {fd : Fd} (listed : fds[idx]? = some fd) :
    (indexFrom i fds table).lookup (i + idx) = some fd := by
  induction fds generalizing i table idx with
  | nil =>
      rw [List.getElem?_nil] at listed
      cases listed
  | cons head rest ih =>
      rw [indexFrom, emplace_of_absent (fresh i (Int.le_refl i))]
      cases idx with
      | zero =>
          rw [List.getElem?_cons_zero] at listed
          obtain rfl := Option.some.inj listed
          apply indexFrom_keeps
          rw [lookup_insert_eq, if_pos]
          omega
      | succ idx =>
          rw [List.getElem?_cons_succ] at listed
          have freshRest : ∀ j, i + 1 ≤ j → j ∉ table.insert i head := by
            intro j above
            rw [AList.mem_insert, not_or]
            exact ⟨by omega, fresh j (by omega)⟩
          have found := ih (i + 1) _ freshRest listed
          have shifted : i + ((idx + 1 : Nat) : Int) = i + 1 + idx := by omega
          rw [shifted]
          exact found

/-- The number of workers and the table by index are those of this list. -/
structure Numbered (m : Manager) (fds : List Fd) : Prop where
  count : m.num_clients = fds.length
  indexed : ∀ (idx : Nat) (fd : Fd), fds[idx]? = some fd →
    m.client_idx2fd.lookup (idx : Int) = some fd

theorem new_numbered (clt_fd : List Fd) (no_map : Bool) :
    (Manager.new clt_fd.length clt_fd no_map).Numbered clt_fd where
  count := rfl
  indexed := by
    intro idx fd listed
    have found := indexFrom_lookup 0 clt_fd ∅ (fun _ _ => AList.notMem_empty _) listed
    rw [Int.zero_add] at found
    exact found

theorem Numbered.drawn {m : Manager} {fds : List Fd} (numbered : m.Numbered fds)
    (some_worker : fds ≠ []) (draw : Nat) :
    ∃ fd ∈ fds, m.client_idx2fd.lookup (Int.tmod draw m.num_clients) = some fd := by
  have below : draw % fds.length < fds.length :=
    Nat.mod_lt _ (List.length_pos_iff.mpr some_worker)
  refine ⟨fds[draw % fds.length], List.getElem_mem below, ?_⟩
  rw [numbered.count, ← Int.ofNat_tmod]
  exact numbered.indexed _ _ (List.getElem?_eq_getElem below)

theorem Numbered.draw_fd {m : Manager} {fds : List Fd} (numbered : m.Numbered fds)
    (some_worker : fds ≠ []) (draw : Nat) :
    ∃ fd ∈ fds, m.draw_fd draw = .ok (fd, { m with rand_calls := m.rand_calls + 1 }) := by
  have positive : 0 < fds.length := List.length_pos_iff.mpr some_worker
  obtain ⟨fd, member, found⟩ := numbered.drawn some_worker draw
  refine ⟨fd, member, ?_⟩
  unfold Manager.draw_fd
  rw [if_neg (by rw [numbered.count]; omega)]
  simp only [subscript_of_lookup found]

private theorem new_ready {clt_fd : List Fd} (some_worker : clt_fd ≠ []) (distinct : clt_fd.Nodup)
    (opened : ∀ fd ∈ clt_fd, 0 ≤ fd) : (Manager.new clt_fd.length clt_fd false).Ready where
  mapping := rfl
  count := rfl
  some_worker := some_worker
  distinct := distinct
  opened := opened
  indexed := (new_numbered clt_fd false).indexed
  mapped := by
    intro ip fd found
    cases found

/-- A draw names one of the workers, and drawing it changes the count only. -/
theorem Ready.draw_fd {m : Manager} (ready : m.Ready) (draw : Nat) :
    ∃ fd, fd ∈ m.client_fd ∧
      m.draw_fd draw = .ok (fd, { m with rand_calls := m.rand_calls + 1 }) := by
  have numbered : m.Numbered m.client_fd := ⟨ready.count, ready.indexed⟩
  exact numbered.draw_fd ready.some_worker draw

/-- A normal message goes to one worker, that of its source from then on. -/
theorem Ready.send_normal {m : Manager} (ready : m.Ready) (src_ip : Bytes) (draws : Nat → Nat)
    (msg_str : Bytes) :
    ∃ fd routed, m.send_normal src_ip draws msg_str = .ok (routed, [(fd, msg_str)]) ∧
      fd ∈ m.client_fd ∧ routed.worker_of src_ip = some fd ∧
      (∀ key target, m.worker_of key = some target → routed.worker_of key = some target) ∧
      routed.Ready ∧ routed.client_fd = m.client_fd ∧
      routed.done_sync_time = m.done_sync_time := by
  have live : ∀ fd ∈ m.client_fd, fd ≠ -1 := by
    intro fd member none
    have nonneg := ready.opened fd member
    rw [none] at nonneg
    exact absurd nonneg (by decide)
  cases mapped : m.client_src2fd.lookup (cString src_ip) with
  | some fd =>
      have member := ready.mapped _ _ mapped
      refine ⟨fd, m, ?_, member, mapped, fun _ _ found => found, ready, rfl, rfl⟩
      unfold Manager.send_normal rand_client_fd
      simp only [ready.mapping, Bool.false_eq_true, if_false, mapped, if_neg (live fd member)]
  | none =>
      obtain ⟨fd, member, drawn⟩ := ready.draw_fd (draws m.rand_calls)
      have absent := notMem_iff_lookup.mpr mapped
      refine ⟨fd, { m with
          client_src2fd := m.client_src2fd.insert (cString src_ip) fd
          rand_calls := m.rand_calls + 1 }, ?_, member, AList.lookup_insert _, ?_, ?_, rfl, rfl⟩
      · unfold Manager.send_normal rand_client_fd
        simp only [ready.mapping, Bool.false_eq_true, if_false, mapped, drawn,
          emplace_of_absent absent, if_neg (live fd member)]
      · intro key target found
        unfold worker_of at found ⊢
        rw [lookup_insert_eq, if_neg]
        · exact found
        · intro same
          rw [same, mapped] at found
          cases found
      · exact
          { ready with
            mapped := by
              intro ip other found
              rcases lookup_insert_cases found with ⟨_same, stored⟩ | before
              · rw [stored]
                exact member
              · exact ready.mapped ip other before }

/-! ### What the workers were handed -/

/-- The manager has handed out these messages, after this announcement. -/
structure Distributes (m : Manager) (announced : Option DNSMsg) (taken : List DNSMsg)
    (handed : Fd → List DNSMsg) : Prop where
  ready : m.Ready
  flag : m.done_sync_time = announced.isSome
  shared : Shared DNSMsg.src_ip m.worker_of announced taken handed
  heard : announced ≠ none → ∀ fd ∈ m.client_fd, handed fd ≠ []
  quiet : ∀ fd, fd ∉ m.client_fd → handed fd = []

variable {m : Manager} {announced : Option DNSMsg} {first : DNSMsg} {taken : List DNSMsg}
variable {handed : Fd → List DNSMsg}

theorem new_distributes {clt_fd : List Fd} (some_worker : clt_fd ≠ []) (distinct : clt_fd.Nodup)
    (opened : ∀ fd ∈ clt_fd, 0 ≤ fd) :
    (Manager.new clt_fd.length clt_fd false).Distributes none [] (fun _ => []) where
  ready := new_ready some_worker distinct opened
  flag := rfl
  shared := Shared.start
  heard := fun none => absurd rfl none
  quiet := fun _ _ => rfl

theorem Distributes.unsynced (distributes : m.Distributes none taken handed) :
    ¬ m.done_sync_time = true := by
  rw [distributes.flag]
  simp

theorem Distributes.synced (distributes : m.Distributes (some first) taken handed) :
    m.done_sync_time = true :=
  distributes.flag

theorem Distributes.announce (distributes : m.Distributes none taken handed) (codec : Codec)
    {msg_str : Bytes} (parsed : codec.ParseFromArray msg_str = first) :
    Distributes { m with done_sync_time := true } (some first) taken
      (fun fd => handed fd ++ (addressed fd
        (m.client_fd.map (fun cfd => (cfd, msg_str)))).map codec.ParseFromArray) := by
  simp only [map_addressed_broadcast distributes.ready.distinct, parsed]
  exact
    { ready := { distributes.ready with }
      flag := rfl
      shared := distributes.shared.announce first m.client_fd
      heard := by
        intro _some fd member
        rw [if_pos member]
        exact List.append_ne_nil_of_right_ne_nil _ (List.cons_ne_nil _ _)
      quiet := by
        intro fd foreign
        rw [if_neg foreign, distributes.quiet fd foreign, List.nil_append] }

theorem Distributes.send_normal (distributes : m.Distributes (some first) taken handed)
    (codec : Codec) (draws : Nat → Nat) {msg : DNSMsg} {msg_str : Bytes}
    (parsed : codec.ParseFromArray msg_str = msg) :
    ∃ routed sent, m.send_normal msg.src_ip draws msg_str = .ok (routed, sent) ∧
      routed.client_fd = m.client_fd ∧
      routed.Distributes (some first) (taken ++ [msg])
        (fun fd => handed fd ++ (addressed fd sent).map codec.ParseFromArray) := by
  obtain ⟨fd, routed, ran, member, chosen, extends_route, ready, sameWorkers, sameFlag⟩ :=
    distributes.ready.send_normal msg.src_ip draws msg_str
  have heardBefore := distributes.heard (Option.some_ne_none first)
  refine ⟨routed, [(fd, msg_str)], ran, sameWorkers, ?_⟩
  simp only [map_addressed_single, parsed]
  exact
    { ready := ready
      flag := by rw [sameFlag, distributes.flag]
      shared := distributes.shared.assign extends_route chosen (heardBefore fd member)
      heard := by
        intro _some other isWorker
        rw [sameWorkers] at isWorker
        exact List.append_ne_nil_of_left_ne_nil (heardBefore other isWorker) _
      quiet := by
        intro other foreign
        rw [sameWorkers] at foreign
        have different : fd ≠ other := fun same => foreign (by rw [← same]; exact member)
        rw [if_neg different, List.append_nil]
        exact distributes.quiet other foreign }

/-! ### The two loops -/

theorem Distributes.com_message_first (distributes : m.Distributes none taken handed)
    (codec : Codec) (draws : Nat → Nat) {payload : Bytes}
    (parsed : codec.ParseFromArray payload = first) (sync : first.sync_time = true) :
    ∃ next sent, m.com_message codec draws payload = .ok (next, sent) ∧
      next.client_fd = m.client_fd ∧
      next.Distributes (some first) taken
        (fun fd => handed fd ++ (addressed fd sent).map codec.ParseFromArray) := by
  have waiting : ¬ m.done_sync_time ∧ (codec.ParseFromArray payload).sync_time = true := by
    rw [parsed]
    exact ⟨distributes.unsynced, sync⟩
  refine ⟨{ m with done_sync_time := true }, m.client_fd.map (fun cfd => (cfd, payload)), ?_, rfl,
    distributes.announce codec parsed⟩
  unfold com_message
  rw [if_pos waiting]

theorem Distributes.com_message_later (distributes : m.Distributes (some first) taken handed)
    (codec : Codec) (draws : Nat → Nat) (payload : Bytes) :
    ∃ next sent, m.com_message codec draws payload = .ok (next, sent) ∧
      next.client_fd = m.client_fd ∧
      next.Distributes (some first) (taken ++ [codec.ParseFromArray payload])
        (fun fd => handed fd ++ (addressed fd sent).map codec.ParseFromArray) := by
  have synced : ¬ (¬ m.done_sync_time ∧ (codec.ParseFromArray payload).sync_time = true) :=
    fun waiting => waiting.1 distributes.synced
  obtain ⟨next, sent, ran, sameWorkers, after⟩ := distributes.send_normal codec draws rfl
  refine ⟨next, sent, ?_, sameWorkers, after⟩
  unfold com_message
  rw [if_neg synced]
  exact ran

theorem Distributes.read_input_message (distributes : m.Distributes announced taken handed)
    {codec : Codec} (draws : Nat → Nat) {msg : DNSMsg} (valid : msg.Valid)
    (inverts : ∀ value, codec.Inverts (msg.set_sync_time value)) :
    ∃ next sent, m.read_input_message codec draws msg = .ok (next, sent) ∧
      next.client_fd = m.client_fd ∧
      next.Distributes (some (announced.getD (msg.set_sync_time true)))
        (taken ++ [msg.set_sync_time false])
        (fun fd => handed fd ++ (addressed fd sent).map codec.ParseFromArray) := by
  obtain ⟨msg_str, written, parsed⟩ := (inverts false).serialize "serialize message fails"
  unfold Manager.read_input_message
  rw [if_neg valid]
  cases announced with
  | some first =>
      have synced : m.sync_clients codec msg = .ok (m, []) := by
        unfold sync_clients
        rw [if_pos distributes.synced]
      obtain ⟨next, sent, ran, sameWorkers, after⟩ :=
        distributes.send_normal codec draws parsed
      rw [DNSMsg.src_ip_set_sync_time] at ran
      refine ⟨next, sent, ?_, sameWorkers, after⟩
      simp only [synced, written, ran, List.nil_append]
  | none =>
      obtain ⟨sync_str, syncWritten, syncParsed⟩ :=
        (inverts true).serialize "serialize message fails"
      have synced : m.sync_clients codec msg = .ok ({ m with done_sync_time := true },
          m.client_fd.map (fun cfd => (cfd, sync_str))) := by
        unfold sync_clients
        rw [if_neg distributes.unsynced]
        simp only [syncWritten]
      obtain ⟨next, sent, ran, sameWorkers, after⟩ :=
        (distributes.announce codec syncParsed).send_normal codec draws parsed
      rw [DNSMsg.src_ip_set_sync_time] at ran
      refine ⟨next, m.client_fd.map (fun cfd => (cfd, sync_str)) ++ sent, ?_, sameWorkers, ?_⟩
      · simp only [synced, written, ran]
      · simp only [addressed_append, List.map_append, ← List.append_assoc]
        exact after

end Manager

end LDPlayer
