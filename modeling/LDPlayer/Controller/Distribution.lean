/-
The postman as a distributor among its clients, none of which leaves.

The draws name the clients that connected first, and reading starts once these
are there.  They all hear the announcement, whatever connects later.
-/
import LDPlayer.Controller.Routing
import LDPlayer.Foundation.Sharing

set_option autoImplicit false

namespace LDPlayer

open Text HashTable Sharing

namespace Postman

def DrawsClients (p : Postman) (draws : Nat → Nat) : Prop :=
  ∀ count, 0 ≤ p.client_idx (draws count) ∧ p.client_idx (draws count) < p.num_clients

/-- A draw may name no client, but none behind those that the postman waits for. -/
def DrawsBelow (p : Postman) (draws : Nat → Nat) : Prop :=
  ∀ count, p.client_idx (draws count) < p.num_clients

theorem DrawsClients.of_same {p q : Postman} {draws : Nat → Nat} (within : p.DrawsClients draws)
    (sameFilter : q.client_filter = p.client_filter) (sameCount : q.num_clients = p.num_clients) :
    q.DrawsClients draws := by
  intro count
  have bounds := within count
  unfold client_idx at bounds ⊢
  rw [sameFilter, sameCount]
  exact bounds

theorem DrawsBelow.of_same {p q : Postman} {draws : Nat → Nat} (below : p.DrawsBelow draws)
    (sameFilter : q.client_filter = p.client_filter) (sameCount : q.num_clients = p.num_clients) :
    q.DrawsBelow draws := by
  intro count
  have bound := below count
  unfold client_idx at bound ⊢
  rw [sameFilter, sameCount]
  exact bound

/-- The random generator draws a slot where a filter is set and a client otherwise. -/
def DrawsInRange (p : Postman) (draws : Nat → Nat) : Prop :=
  ∀ count, draws count <
    if p.client_filter.GetNumClients ≠ 0 then kFilterTotalWeight else p.num_clients

section constructor

variable {files : Files} {listen_ip : Bytes} {listen_port n : Int} {f : Filter} {p : Postman}

/-- What the constructor has checked of its filter.  The caller sets a filter for a
number of clients from a text that is not empty. -/
private theorem new_filter (made : Postman.new files listen_ip listen_port n f = .ok p)
    (set : f.GetNumClients ≠ 0 → f.GetFilterInput ≠ []) :
    p.num_clients = (n % 2 ^ 32).toNat ∧ p.client_filter.GetNumClients = f.GetNumClients ∧
      (f.GetNumClients ≠ 0 → ∃ count : Nat, 0 < count ∧ n = count ∧
        p.client_filter = Filter.Set files {} f.GetFilterInput count ∧
        p.client_filter.Valid = true) := by
  obtain ⟨sameNum, sameInput⟩ :=
    Filter.Set_assigned files {} f.GetFilterInput f.GetNumClients
  have kept : p.client_filter = Filter.Set files {} f.GetFilterInput f.GetNumClients ∧
      p.num_clients = (n % 2 ^ 32).toNat ∧
      (f.GetNumClients ≠ 0 → f.GetFilterInput ≠ [] → p.client_filter.Valid = true ∧
        n = f.GetNumClients) := by
    unfold Postman.new at made
    simp only [sameNum, sameInput] at made
    split at made
    · cases made
    next accepted =>
      split at made
      · cases made
      · split at made
        · cases made
        · split at made
          · cases made
          · rw [← Except.ok.inj made]
            refine ⟨rfl, rfl, ?_⟩
            intro set nonempty
            simp only
            by_contra rejected
            apply accepted
            refine ⟨set, nonempty, ?_⟩
            rw [not_and_or] at rejected
            exact rejected
  obtain ⟨sameFilter, sameCount, valid⟩ := kept
  refine ⟨sameCount, by rw [sameFilter, sameNum], ?_⟩
  intro some_client
  obtain ⟨accepted, sameN⟩ := valid some_client (set some_client)
  have positive : f.GetNumClients > 0 := by
    by_contra nonpositive
    rw [sameFilter, Filter.not_valid_of_nonpositive files _ nonpositive] at accepted
    cases accepted
  have natural : f.GetNumClients = f.GetNumClients.toNat := by omega
  refine ⟨f.GetNumClients.toNat, by omega, by omega, ?_, accepted⟩
  rw [sameFilter, ← natural]

/-- Numbers from one place cover all slots, as the constructor has checked their sum. -/
theorem new_covers (made : Postman.new files listen_ip listen_port n f = .ok p)
    (set : f.GetNumClients ≠ 0 → f.GetFilterInput ≠ []) (some_client : f.GetNumClients ≠ 0)
    (nothing : Filter.left_behind files f.GetFilterInput n.toNat = []) :
    Filter.Covers p.client_filter.weight := by
  obtain ⟨_sameCount, _numClients, checked⟩ := new_filter made set
  obtain ⟨count, positive, rfl, filter, valid⟩ := checked some_client
  rw [Int.toNat_natCast] at nothing
  rw [filter] at valid ⊢
  exact Filter.covers_of_valid positive (set some_client) nothing valid

private theorem new_set_up (made : Postman.new files listen_ip listen_port n f = .ok p)
    (set : f.GetNumClients ≠ 0 → f.GetFilterInput ≠ []) (some_client : f.GetNumClients ≠ 0) :
    ∃ count : Nat, n = count ∧
      p.client_filter = Filter.setUp files f.GetFilterInput count false := by
  obtain ⟨_sameCount, _numClients, checked⟩ := new_filter made set
  obtain ⟨count, positive, natural, filter, _valid⟩ := checked some_client
  exact ⟨count, natural, filter.trans (Filter.Set_eq_setUp positive (set some_client) {})⟩

theorem new_drawsBelow (made : Postman.new files listen_ip listen_port n f = .ok p)
    (size : n < 2 ^ 31) (set : f.GetNumClients ≠ 0 → f.GetFilterInput ≠ [])
    {draws : Nat → Nat} (inRange : p.DrawsInRange draws) : p.DrawsBelow draws := by
  obtain ⟨sameCount, numClients, -⟩ := new_filter made set
  intro count
  have bound := inRange count
  unfold client_idx
  by_cases some_client : f.GetNumClients = 0
  · rw [numClients, if_neg (not_not.mpr some_client)] at bound ⊢
    omega
  · obtain ⟨clients, sameN, filter⟩ := new_set_up made set some_client
    rw [numClients, if_pos some_client] at bound ⊢
    obtain ⟨_num, _input, length, filled, _open⟩ :=
      Filter.setUp_cases files clients (set some_client) false
    rw [← filter] at length filled
    have either := Filter.GetClientIndex_cases filled bound
    omega

/-- Every draw names a client exactly if none of the slots that it may fall on is
left over by the shares of the clients. -/
theorem new_drawsClients_iff (made : Postman.new files listen_ip listen_port n f = .ok p)
    (size : n < 2 ^ 31) (set : f.GetNumClients ≠ 0 → f.GetFilterInput ≠ []) :
    (∀ draws, p.DrawsInRange draws → p.DrawsClients draws) ↔
      (f.GetNumClients ≠ 0 → Filter.Covers p.client_filter.weight) := by
  obtain ⟨_sameCount, numClients, _checked⟩ := new_filter made set
  constructor
  · intro named some_client
    obtain ⟨clients, _sameN, filter⟩ := new_set_up made set some_client
    have filled := (Filter.setUp_cases files clients (set some_client) false).2.2.2.1
    rw [← filter] at filled
    rw [← Filter.slots_given_iff filled]
    intro j slot
    have inRange : p.DrawsInRange (fun _ => j) := by
      intro _count
      rw [numClients, if_pos some_client]
      exact slot
    have bounds := (named _ inRange 0).1
    unfold client_idx at bounds
    rw [numClients, if_pos some_client] at bounds
    exact bounds
  · intro covers draws inRange count
    refine ⟨?_, new_drawsBelow made size set inRange count⟩
    have bound := inRange count
    unfold client_idx
    by_cases some_client : f.GetNumClients = 0
    · rw [numClients, if_neg (not_not.mpr some_client)]
      exact Int.natCast_nonneg _
    · obtain ⟨clients, _sameN, filter⟩ := new_set_up made set some_client
      have filled := (Filter.setUp_cases files clients (set some_client) false).2.2.2.1
      rw [← filter] at filled
      rw [numClients, if_pos some_client] at bound ⊢
      exact (Filter.slots_given_iff filled).mpr (covers some_client) _ bound

end constructor

end Postman

namespace Controller

def client_of (c : Controller) (src_ip : Bytes) : Option Ptr :=
  (c.postman.client_src2fd.lookup (cString src_ip)).bind (fun fd => c.open_conns.lookup fd)

private theorem client_of_mapped {c : Controller} {src_ip : Bytes} {fd : Fd}
    (mapped : c.postman.client_src2fd.lookup (cString src_ip) = some fd) :
    c.client_of src_ip = c.open_conns.lookup fd := by
  rw [client_of, mapped, Option.bind_some]

def first_clients (c : Controller) : List Fd := c.postman.client_fds.take c.postman.num_clients

/-! ### A postman that lost no client -/

structure Complete (c : Controller) : Prop where
  consistent : c.Consistent
  distinct : c.open_conns.OneKey
  listed : ∀ fd ∈ c.postman.client_fds, fd ∈ c.open_conns
  recorded : c.postman.client_fd2bev.size = c.postman.client_fds.length
  counted : c.open_conns.size = c.postman.client_fds.length
  started : c.postman.start_read_input = true ↔
    c.postman.num_clients ≤ c.postman.client_fds.length
  early : ∀ ip fd, c.postman.client_src2fd.lookup ip = some fd → fd ∈ c.first_clients

theorem Initial.complete {c : Controller} (initial : c.Initial) : c.Complete := by
  obtain ⟨none_open, files, listen_ip, listen_port, n, f, made⟩ := initial
  obtain ⟨bevs, owners, _lists, fds, waiting, _unsynced, some_client⟩ :=
    Postman.new_members made
  exact
    { consistent := Initial.consistent ⟨none_open, files, listen_ip, listen_port, n, f, made⟩
      distinct := by
        intro key other value found
        rw [none_open] at found
        cases found
      listed := by
        intro fd member
        rw [fds] at member
        cases member
      recorded := by
        rw [bevs, fds]
        rfl
      counted := by
        rw [none_open, fds]
        rfl
      started := by
        rw [waiting, fds, List.length_nil]
        refine iff_of_false Bool.false_ne_true ?_
        omega
      early := by
        intro ip fd found
        rw [owners] at found
        cases found }

theorem accept_conn_cb_members (fd : Fd) (bev : Ptr) (p : Postman) :
    (p.accept_conn_cb fd bev).client_fds = p.client_fds ++ [fd] ∧
      (p.accept_conn_cb fd bev).num_clients = p.num_clients ∧
      (p.accept_conn_cb fd bev).client_filter = p.client_filter ∧
      (p.accept_conn_cb fd bev).done_sync_time = p.done_sync_time ∧
      ((p.accept_conn_cb fd bev).start_read_input = true ↔
        p.start_read_input = true ∨ size (p.client_fd2bev.insert fd bev) = p.num_clients) := by
  unfold Postman.accept_conn_cb
  simp only
  split
  next starts => exact ⟨rfl, rfl, rfl, rfl, iff_of_true rfl (Or.inr starts.2)⟩
  next stays =>
    refine ⟨rfl, rfl, rfl, rfl, Iff.symm (or_iff_left_of_imp ?_)⟩
    intro reached
    by_contra waiting
    exact stays ⟨waiting, reached⟩

/-- An accept after the start does not change who the first clients are. -/
theorem Complete.first_clients_accept {c : Controller} (complete : c.Complete) (fd : Fd)
    (bev : Ptr) (conns : HashTable Fd Ptr) (begun : c.postman.start_read_input = true) :
    first_clients { postman := c.postman.accept_conn_cb fd bev, open_conns := conns } =
      c.first_clients := by
  obtain ⟨fds, count, _filter, _flag, _start⟩ := accept_conn_cb_members fd bev c.postman
  unfold first_clients
  rw [fds, count, List.take_append_of_le_length (complete.started.mp begun)]

theorem Complete.accept {c : Controller} (complete : c.Complete) {fd : Fd} {bev : Ptr}
    (closed : fd ∉ c.open_conns) (live : bev ≠ NULL)
    (unused : ∀ other, c.open_conns.lookup other ≠ some bev) :
    Complete { postman := c.postman.accept_conn_cb fd bev
               open_conns := c.open_conns.insert fd bev } := by
  obtain ⟨bevs, _lists, owners⟩ := accept_conn_cb_tables fd bev c.postman
  obtain ⟨fds, count, _filter, _flag, start⟩ := accept_conn_cb_members fd bev c.postman
  have unrecorded : fd ∉ c.postman.client_fd2bev :=
    fun present => closed (complete.consistent.mem_client_fd2bev.mp present)
  have recorded : size (c.postman.client_fd2bev.insert fd bev) =
      (c.postman.client_fds ++ [fd]).length := by
    rw [size_insert unrecorded, complete.recorded, List.length_append, List.length_singleton]
  exact
    { consistent := complete.consistent.accept closed live
      distinct := complete.distinct.insert unused
      listed := by
        intro other member
        simp only [fds, List.mem_append, List.mem_singleton] at member
        rw [AList.mem_insert]
        rcases member with old | same
        · exact Or.inr (complete.listed other old)
        · exact Or.inl same
      recorded := by
        simp only [bevs, fds]
        exact recorded
      counted := by
        simp only [fds]
        rw [size_insert closed, complete.counted, List.length_append, List.length_singleton]
      started := by
        simp only [fds, count]
        rw [start, recorded, complete.started, List.length_append, List.length_singleton]
        omega
      early := by
        intro ip other mapped
        simp only [owners] at mapped
        have member := complete.early ip other mapped
        unfold first_clients at member ⊢
        simp only [fds, count]
        rw [List.take_append]
        exact List.mem_append_left _ member }

theorem Complete.map_source {c : Controller} (complete : c.Complete) {ip : Bytes} {fd : Fd}
    (fresh : ip ∉ c.postman.client_src2fd) (member : fd ∈ c.first_clients) :
    Complete { c with postman := c.postman.map_source ip fd } where
  consistent :=
    complete.consistent.map_source fresh (complete.listed fd (List.mem_of_mem_take member))
  distinct := complete.distinct
  listed := complete.listed
  recorded := complete.recorded
  counted := complete.counted
  started := complete.started
  early := by
    intro other client found
    rcases lookup_insert_cases found with ⟨_same, stored⟩ | before
    · rw [stored]
      exact member
    · exact complete.early other client before

def Names (c : Controller) (draws : Nat → Nat) (src_ip : Bytes) : Prop :=
  cString src_ip ∈ c.postman.client_src2fd ∨
    0 ≤ c.postman.client_idx (draws c.postman.mt_generator)

private theorem route_unnamed {c : Controller} {draws : Nat → Nat} {src_ip : Bytes}
    (unnamed : ¬ c.Names draws src_ip) :
    ∃ fault, c.postman.route src_ip (draws c.postman.mt_generator) = .error fault := by
  cases routed : c.postman.route src_ip (draws c.postman.mt_generator) with
  | error fault => exact ⟨fault, rfl⟩
  | ok result =>
      exfalso
      apply unnamed
      have ran := (Postman.rand_client_of_route routed).1
      unfold Postman.rand_client at ran
      cases selected : c.postman.select_client (cString src_ip)
          (draws c.postman.mt_generator) with
      | error fault =>
          simp only [selected] at ran
          cases ran
      | ok p =>
          rcases Postman.select_client_cases selected with ⟨mapped, _same⟩ | ⟨_, _, nonneg, _⟩
          · exact Or.inl mapped
          · exact Or.inr nonneg

/-- With all of its clients there, the postman routes every message whose source has
a client, or is given one by the draw, to one of the first, that of its source from
then on. -/
theorem Complete.route {c : Controller} (complete : c.Complete) {draws : Nat → Nat}
    (begun : c.postman.start_read_input = true) (below : c.postman.DrawsBelow draws)
    {src_ip : Bytes} (named : c.Names draws src_ip) :
    ∃ fd bev routed,
      c.postman.route src_ip (draws c.postman.mt_generator) = .ok (bev, routed) ∧
      fd ∈ c.first_clients ∧ c.open_conns.lookup fd = some bev ∧
      client_of { c with postman := routed } src_ip = some bev ∧
      (∀ key target, c.client_of key = some target →
        client_of { c with postman := routed } key = some target) ∧
      Complete { c with postman := routed } ∧
      routed.client_fds = c.postman.client_fds ∧ routed.num_clients = c.postman.num_clients ∧
      routed.client_filter = c.postman.client_filter ∧
      routed.done_sync_time = c.postman.done_sync_time ∧
      routed.start_read_input = c.postman.start_read_input := by
  have consistent := complete.consistent
  cases mapped : c.postman.client_src2fd.lookup (cString src_ip) with
  | some fd =>
      obtain ⟨bev, found, ran⟩ :=
        consistent.rand_client_mapped (draws c.postman.mt_generator) mapped
      exact ⟨fd, bev, c.postman, consistent.route_of_live ran found, complete.early _ _ mapped,
        found, (client_of_mapped mapped).trans found, fun _ _ old => old, complete,
        rfl, rfl, rfl, rfl, rfl⟩
  | none =>
      -- Since the start there are as many clients as a draw can name.
      have bound := below c.postman.mt_generator
      have nonneg := named.resolve_left (notMem_iff_lookup.mpr mapped)
      have enough := complete.started.mp begun
      have inList : (c.postman.client_idx (draws c.postman.mt_generator)).toNat <
          c.postman.client_fds.length := by omega
      have drawn := List.getElem?_eq_getElem inList
      have early : c.postman.client_fds[(c.postman.client_idx
          (draws c.postman.mt_generator)).toNat] ∈ c.first_clients := by
        apply List.mem_take_iff_getElem.mpr
        exact ⟨_, by omega, rfl⟩
      obtain ⟨bev, found⟩ :=
        mem_iff_lookup.mp (complete.listed _ (List.mem_of_mem_take early))
      have fresh := notMem_iff_lookup.mpr mapped
      have ran := consistent.rand_client_fresh fresh nonneg drawn found
      refine ⟨_, bev, _, consistent.route_of_live ran found, early, found,
        (client_of_mapped (AList.lookup_insert _)).trans found, ?_,
        complete.map_source fresh early, rfl, rfl, rfl, rfl, rfl⟩
      intro key target old
      have different : cString key ≠ cString src_ip := by
        intro same
        rw [client_of, same, mapped] at old
        cases old
      unfold client_of at old ⊢
      simp only [Postman.map_source]
      rw [lookup_insert_eq, if_neg different]
      exact old

/-! ### What the clients were handed -/

structure Distributes (c : Controller) (announced : Option DNSMsg) (taken : List DNSMsg)
    (handed : Ptr → List DNSMsg) : Prop where
  complete : c.Complete
  flag : c.postman.done_sync_time = announced.isSome
  begun : announced ≠ none → c.postman.start_read_input = true
  shared : Shared DNSMsg.src_ip c.client_of announced taken handed
  heard : announced ≠ none → ∀ fd ∈ c.first_clients, ∀ bev,
    c.open_conns.lookup fd = some bev → handed bev ≠ []
  quiet : ∀ bev, (∀ fd, c.open_conns.lookup fd ≠ some bev) → handed bev = []

variable {c : Controller} {announced : Option DNSMsg} {first : DNSMsg} {taken : List DNSMsg}
variable {handed : Ptr → List DNSMsg}

theorem Distributes.unsynced (distributes : c.Distributes none taken handed) :
    ¬ c.postman.done_sync_time = true := by
  rw [distributes.flag]
  simp

theorem Distributes.synced (distributes : c.Distributes (some first) taken handed) :
    c.postman.done_sync_time = true :=
  distributes.flag

theorem Initial.distributes (initial : c.Initial) :
    c.Distributes none [] (fun _ => []) where
  complete := initial.complete
  flag := by
    obtain ⟨_none_open, files, listen_ip, listen_port, n, f, made⟩ := initial
    rw [(Postman.new_members made).2.2.2.2.2.1]
    rfl
  begun := fun none => absurd rfl none
  shared := Shared.start
  heard := fun none => absurd rfl none
  quiet := fun _ _ => rfl

/-- A client that connects takes no part in what is announced or routed already. -/
theorem Distributes.accept (distributes : c.Distributes announced taken handed) {fd : Fd}
    {bev : Ptr} (closed : fd ∉ c.open_conns) (live : bev ≠ NULL)
    (unused : ∀ other, c.open_conns.lookup other ≠ some bev) :
    Distributes { postman := c.postman.accept_conn_cb fd bev
                  open_conns := c.open_conns.insert fd bev } announced taken handed := by
  have complete := distributes.complete
  obtain ⟨_bevs, _lists, owners⟩ := accept_conn_cb_tables fd bev c.postman
  obtain ⟨_fds, _count, _filter, flag, start⟩ := accept_conn_cb_members fd bev c.postman
  have other_of_open : ∀ other image, c.open_conns.lookup other = some image → other ≠ fd := by
    intro other image found same
    rw [same] at found
    exact closed (mem_iff_lookup.mpr ⟨image, found⟩)
  exact
    { complete := complete.accept closed live unused
      flag := by
        simp only [flag]
        exact distributes.flag
      begun := fun some => start.mpr (Or.inl (distributes.begun some))
      shared := by
        apply distributes.shared.extend
        intro key target found
        unfold client_of at found ⊢
        simp only [owners]
        obtain ⟨client, mapped, isOpen⟩ := Option.bind_eq_some_iff.mp found
        rw [mapped, Option.bind_some, AList.lookup_insert_ne (other_of_open client _ isOpen)]
        exact isOpen
      heard := by
        intro some client member image found
        rw [complete.first_clients_accept fd bev _ (distributes.begun some)] at member
        obtain ⟨old, isOpen⟩ :=
          mem_iff_lookup.mp (complete.listed client (List.mem_of_mem_take member))
        have heardOld := distributes.heard some client member old isOpen
        simp only [AList.lookup_insert_ne (other_of_open client old isOpen)] at found
        rw [isOpen] at found
        rw [← Option.some.inj found]
        exact heardOld
      quiet := by
        intro image absent
        apply distributes.quiet
        intro other found
        exact absent other ((AList.lookup_insert_ne (other_of_open other image found)).trans
          found) }

theorem Distributes.announce (distributes : c.Distributes none taken handed)
    (begun : c.postman.start_read_input = true) (codec : Codec) {msg_str : Bytes}
    (parsed : codec.ParseFromArray msg_str = first) :
    Distributes { c with postman := { c.postman with done_sync_time := true } } (some first) taken
      (fun bev => handed bev ++ (addressed bev
        (c.postman.client_fd2bev.values.map (fun other => (other, msg_str)))).map
          codec.ParseFromArray) := by
  have complete := distributes.complete
  have once : c.postman.client_fd2bev.values.Nodup := by
    apply OneKey.values_nodup
    intro fd other bev found otherFound
    rw [complete.consistent.bevs] at found otherFound
    exact complete.distinct fd other bev found otherFound
  simp only [map_addressed_broadcast once, parsed]
  exact
    { complete := { complete with consistent := { complete.consistent with } }
      flag := rfl
      begun := fun _some => begun
      shared := distributes.shared.announce first c.postman.client_fd2bev.values
      heard := by
        intro _some fd _member bev found
        have connected : bev ∈ c.postman.client_fd2bev.values :=
          mem_values.mpr ⟨fd, (complete.consistent.bevs fd).trans found⟩
        rw [if_pos connected]
        exact List.append_ne_nil_of_right_ne_nil _ (List.cons_ne_nil _ _)
      quiet := by
        intro bev absent
        have unconnected : bev ∉ c.postman.client_fd2bev.values := by
          intro connected
          obtain ⟨fd, found⟩ := mem_values.mp connected
          exact absent fd ((complete.consistent.bevs fd).symm.trans found)
        rw [if_neg unconnected, distributes.quiet bev absent, List.nil_append] }

theorem Distributes.send (distributes : c.Distributes (some first) taken handed) (codec : Codec)
    {draws : Nat → Nat} (below : c.postman.DrawsBelow draws) {msg : DNSMsg} {msg_str : Bytes}
    (parsed : codec.ParseFromArray msg_str = msg) (named : c.Names draws msg.src_ip) :
    ∃ bev routed,
      c.postman.route msg.src_ip (draws c.postman.mt_generator) = .ok (bev, routed) ∧
      routed.client_filter = c.postman.client_filter ∧
      routed.num_clients = c.postman.num_clients ∧
      Distributes { c with postman := routed } (some first) (taken ++ [msg])
        (fun other => handed other ++
          (addressed other [(bev, msg_str)]).map codec.ParseFromArray) := by
  have some := Option.some_ne_none first
  obtain ⟨fd, bev, routed, ran, member, found, chosen, extends_route, complete, sameFds,
    sameCount, sameFilter, sameFlag, sameStart⟩ :=
      distributes.complete.route (distributes.begun some) below named
  refine ⟨bev, routed, ran, sameFilter, sameCount, ?_⟩
  simp only [map_addressed_single, parsed]
  exact
    { complete := complete
      flag := sameFlag.trans distributes.flag
      begun := fun _some => sameStart.trans (distributes.begun some)
      shared := distributes.shared.assign extends_route chosen
        (distributes.heard some fd member bev found)
      heard := by
        intro _some other isFirst image isOpen
        unfold first_clients at isFirst
        simp only [sameFds, sameCount] at isFirst
        exact List.append_ne_nil_of_left_ne_nil
          (distributes.heard some other isFirst image isOpen) _
      quiet := by
        intro other absent
        have different : bev ≠ other := by
          intro same
          rw [same] at found
          exact absent fd found
        rw [if_neg different, List.append_nil]
        exact distributes.quiet other absent }

theorem Distributes.skt_message (distributes : c.Distributes announced taken handed)
    {codec : Codec} {draws : Nat → Nat} (begun : c.postman.start_read_input = true)
    (below : c.postman.DrawsBelow draws) {msg : DNSMsg} {payload : Bytes}
    (parsed : codec.ParseFromArray payload = msg) (valid : msg.Valid)
    (inverts : ∀ value, codec.Inverts (msg.set_sync_time value))
    (named : c.Names draws msg.src_ip) :
    ∃ next written, c.postman.skt_message codec draws payload = .ok (next, written) ∧
      next.client_filter = c.postman.client_filter ∧
      next.num_clients = c.postman.num_clients ∧
      Distributes { c with postman := next } (some (announced.getD (msg.set_sync_time true)))
        (taken ++ [msg.set_sync_time false])
        (fun bev => handed bev ++ (addressed bev written).map codec.ParseFromArray) := by
  obtain ⟨msg_str, serialized, reparsed⟩ :=
    (inverts false).serialize "[error] serialize message fails"
  unfold Postman.skt_message
  simp only [parsed, if_neg valid]
  cases announced with
  | some first =>
      have synced : c.postman.sync_clients codec msg = .ok (c.postman, []) := by
        unfold Postman.sync_clients
        rw [if_pos distributes.synced]
      obtain ⟨bev, routed, ran, sameFilter, sameCount, after⟩ :=
        distributes.send codec below reparsed (by rw [DNSMsg.src_ip_set_sync_time]; exact named)
      rw [DNSMsg.src_ip_set_sync_time] at ran
      refine ⟨routed, [(bev, msg_str)], ?_, sameFilter, sameCount, after⟩
      simp only [synced, serialized, ran, List.nil_append]
  | none =>
      obtain ⟨sync_str, syncSerialized, syncParsed⟩ :=
        (inverts true).serialize "[error] serialize message fails"
      have synced : c.postman.sync_clients codec msg =
          .ok ({ c.postman with done_sync_time := true },
            c.postman.client_fd2bev.values.map (fun bev => (bev, sync_str))) := by
        unfold Postman.sync_clients
        rw [if_neg distributes.unsynced]
        simp only [syncSerialized]
      obtain ⟨bev, routed, ran, sameFilter, sameCount, after⟩ :=
        (distributes.announce begun codec syncParsed).send codec
          (below.of_same rfl rfl) reparsed (by rw [DNSMsg.src_ip_set_sync_time]; exact named)
      rw [DNSMsg.src_ip_set_sync_time] at ran
      refine ⟨routed,
        c.postman.client_fd2bev.values.map (fun other => (other, sync_str)) ++ [(bev, msg_str)],
        ?_, sameFilter, sameCount, ?_⟩
      · simp only [synced, serialized, ran]
      · simp only [addressed_append, List.map_append, ← List.append_assoc]
        exact after

/-- A message of a source without a client, for which the draw names none, ends the
postman. -/
theorem skt_message_unnamed {c : Controller} {codec : Codec} {draws : Nat → Nat} {payload : Bytes}
    (valid : (codec.ParseFromArray payload).Valid)
    (unnamed : ¬ c.Names draws (codec.ParseFromArray payload).src_ip) :
    ∃ fault, c.postman.skt_message codec draws payload = .error fault := by
  unfold Postman.skt_message
  simp only [if_neg valid]
  cases synced : c.postman.sync_clients codec (codec.ParseFromArray payload) with
  | error fault => exact ⟨fault, rfl⟩
  | ok announced =>
      obtain ⟨p, broadcast⟩ := announced
      cases serialized : codec.serialize "[error] serialize message fails"
          ((codec.ParseFromArray payload).set_sync_time false) with
      | error fault => exact ⟨fault, rfl⟩
      | ok msg_str =>
          -- the announcement leaves the mapping and the draws as they were
          have same : p.client_src2fd = c.postman.client_src2fd ∧
              p.client_filter = c.postman.client_filter ∧
              p.mt_generator = c.postman.mt_generator := by
            unfold Postman.sync_clients at synced
            split at synced
            · rw [← (Prod.mk.inj (Except.ok.inj synced)).1]
              exact ⟨rfl, rfl, rfl⟩
            · split at synced
              · cases synced
              · rw [← (Prod.mk.inj (Except.ok.inj synced)).1]
                exact ⟨rfl, rfl, rfl⟩
          obtain ⟨sameSources, sameFilter, sameDraws⟩ := same
          have still : ¬ Names { c with postman := p } draws
              (codec.ParseFromArray payload).src_ip := by
            unfold Names Postman.client_idx at unnamed ⊢
            simp only [sameSources, sameFilter, sameDraws]
            exact unnamed
          obtain ⟨fault, stops⟩ := route_unnamed still
          simp only [stops]
          exact ⟨fault, rfl⟩

end Controller

end LDPlayer
