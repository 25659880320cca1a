/-
Where the postman sends the queries of a source.

A mapped source stays with its client for as long as that client is connected,
and a disconnect takes exactly its own sources along.  A source that is seen
first gets the client that a draw names, whether that client is still there or
not.
-/
import LDPlayer.Controller.Connections

set_option autoImplicit false

namespace LDPlayer

open Text HashTable

namespace Controller

/-! ### Sources stay with their client -/

theorem Consistent.keeps_mapping {c next : Controller} {event : Event}
    (consistent : c.Consistent) (admitted : c.admits event)
    (stepped : c.step event = .ok next) {ip : Bytes} {fd : Fd} {bev : Ptr}
    (mapped : c.postman.client_src2fd.lookup ip = some fd)
    (found : c.open_conns.lookup fd = some bev) (stays : event ≠ .disconnect fd) :
    next.postman.client_src2fd.lookup ip = some fd ∧ next.open_conns.lookup fd = some bev := by
  cases event with
  | accept other otherBev =>
      rw [← Except.ok.inj stepped]
      have different : fd ≠ other := by
        intro same
        rw [same] at found
        exact admitted.1 (mem_iff_lookup.mpr ⟨bev, found⟩)
      obtain ⟨_bevs, _lists, owners⟩ := accept_conn_cb_tables other otherBev c.postman
      constructor
      · rw [owners]
        exact mapped
      · rw [AList.lookup_insert_ne different]
        exact found
  | disconnect other =>
      have different : fd ≠ other := fun same => stays (by rw [same])
      obtain ⟨ips, listed, left⟩ := consistent.client_bevent_cb admitted
      simp only [Controller.step, left] at stepped
      rw [← Except.ok.inj stepped]
      constructor
      · rw [consistent.grouped.lookup_leave listed, mapped, if_neg]
        intro same
        exact different (Option.some.inj same)
      · rw [AList.lookup_erase_ne different]
        exact found
  | query src_ip draw =>
      simp only [Controller.step] at stepped
      cases routed : c.postman.route src_ip draw with
      | error fault =>
          rw [routed] at stepped
          cases stepped
      | ok result =>
          rw [routed] at stepped
          rw [← Except.ok.inj stepped]
          refine ⟨?_, found⟩
          obtain ⟨other, _isOpen, ⟨_mapped, same⟩ | ⟨fresh, _nonneg, _drawn, same⟩⟩ :=
            consistent.route_cases routed
          · rw [same]
            exact mapped
          · have different : ip ≠ cString src_ip := by
              intro equal
              rw [equal] at mapped
              exact fresh (mem_iff_lookup.mpr ⟨fd, mapped⟩)
            rw [same]
            exact (AList.lookup_insert_ne different).trans mapped

theorem Consistent.keeps_mapping_run {c final : Controller} {events : List Event}
    (run : Run c events final) (consistent : c.Consistent) {ip : Bytes} {fd : Fd} {bev : Ptr}
    (mapped : c.postman.client_src2fd.lookup ip = some fd)
    (found : c.open_conns.lookup fd = some bev) (stays : .disconnect fd ∉ events) :
    final.postman.client_src2fd.lookup ip = some fd ∧
      final.open_conns.lookup fd = some bev := by
  induction run with
  | done state => exact ⟨mapped, found⟩
  | next admitted stepped _rest ih =>
      rw [List.mem_cons, not_or] at stays
      obtain ⟨mappedNext, foundNext⟩ :=
        consistent.keeps_mapping admitted stepped mapped found (Ne.symm stays.1)
      exact ih (consistent.step admitted stepped) mappedNext foundNext stays.2

theorem Consistent.route_maps {c : Controller} (consistent : c.Consistent) {src_ip : Bytes}
    {draw : Nat} {bev : Ptr} {q : Postman} (routed : c.postman.route src_ip draw = .ok (bev, q)) :
    ∃ fd, c.open_conns.lookup fd = some bev ∧
      q.client_src2fd.lookup (cString src_ip) = some fd := by
  obtain ⟨fd, found, ⟨mapped, same⟩ | ⟨_fresh, _nonneg, _drawn, same⟩⟩ :=
    consistent.route_cases routed
  · exact ⟨fd, found, by rw [same]; exact mapped⟩
  · exact ⟨fd, found, by rw [same]; exact AList.lookup_insert _⟩

/-- The next query of the source goes the same way, and changes nothing. -/
theorem Consistent.sticky {c final : Controller} (consistent : c.Consistent) {src_ip : Bytes}
    {draw : Nat} {fd : Fd} {bev : Ptr} {q : Postman}
    (routed : c.postman.route src_ip draw = .ok (bev, q))
    (mapped : q.client_src2fd.lookup (cString src_ip) = some fd) {events : List Event}
    (run : Run { c with postman := q } events final) (stays : .disconnect fd ∉ events)
    (again : Nat) : final.postman.route src_ip again = .ok (bev, final.postman) := by
  obtain ⟨other, found, stored⟩ := consistent.route_maps routed
  rw [mapped] at stored
  obtain rfl := Option.some.inj stored
  have stepped : c.step (.query src_ip draw) = .ok { c with postman := q } := by
    simp only [Controller.step, routed]
  have admitted : c.admits (.query src_ip draw) := trivial
  have after : Consistent { c with postman := q } := consistent.step admitted stepped
  obtain ⟨stillMapped, stillOpen⟩ := after.keeps_mapping_run run mapped found stays
  have reached := after.run run
  obtain ⟨sameBev, isOpen, ran⟩ := reached.rand_client_mapped again stillMapped
  rw [stillOpen] at isOpen
  obtain rfl := Option.some.inj isOpen
  exact reached.route_of_live ran stillOpen

/-- A disconnect goes through and unmaps the sources of that client only. -/
theorem Consistent.disconnect_unmaps {c : Controller} (consistent : c.Consistent) {fd : Fd}
    (connected : fd ∈ c.open_conns) :
    ∃ next, c.step (.disconnect fd) = .ok next ∧
      (∀ ip, next.postman.client_src2fd.lookup ip =
        if c.postman.client_src2fd.lookup ip = some fd then none
        else c.postman.client_src2fd.lookup ip) ∧
      (∀ other, next.postman.client_fd2src.lookup other =
        if other = fd then none else c.postman.client_fd2src.lookup other) := by
  obtain ⟨ips, listed, left⟩ := consistent.client_bevent_cb connected
  simp only [Controller.step, left]
  refine ⟨_, rfl, ?_, ?_⟩
  · intro ip
    exact consistent.grouped.lookup_leave listed ip
  · intro other
    exact lookup_erase_eq

def twoClients : Controller := { postman := { num_clients := 2, client_filter := {} } }

theorem twoClients_initial : twoClients.Initial :=
  ⟨rfl, fun _ => none, ascii "127.0.0.1", 10053, 2, {}, rfl⟩

private theorem twoClients_departed :
    ∃ c, Run twoClients [.accept 5 100, .accept 6 101, .disconnect 5] c :=
  ⟨_, .next ⟨by decide, by decide⟩ rfl (.next ⟨by decide, by decide⟩ rfl
    (.next (by decide) rfl (.done _)))⟩

/-- The source maps in every state that is reached: the two maps list the same
pairs, each once, for connected clients only; a source stays with its client
until that one disconnects, which removes its sources and no others. -/
theorem source_maps_consistent_and_sticky {start c : Controller} {events : List Event}
    (initial : start.Initial) (run : Run start events c) :
    (∀ ip fd, c.postman.client_src2fd.lookup ip = some fd ↔
      ∃ ips, c.postman.client_fd2src.lookup fd = some ips ∧ ip ∈ ips) ∧
    (∀ fd ips ip, c.postman.client_fd2src.lookup fd = some ips → ip ∈ ips →
      ips.count ip = 1 ∧
      ∀ other others, c.postman.client_fd2src.lookup other = some others → ip ∈ others →
        other = fd) ∧
    (∀ ip fd, c.postman.client_src2fd.lookup ip = some fd → fd ∈ c.postman.client_fd2bev) ∧
    (∀ src_ip draw bev q, c.postman.route src_ip draw = .ok (bev, q) →
      ∃ fd, c.open_conns.lookup fd = some bev ∧
        ∀ later final, Run { c with postman := q } later final → .disconnect fd ∉ later →
          ∀ again, final.postman.route src_ip again = .ok (bev, final.postman)) ∧
    (∀ fd, fd ∈ c.open_conns → ∃ next, c.step (.disconnect fd) = .ok next ∧
      (∀ ip, next.postman.client_src2fd.lookup ip =
        if c.postman.client_src2fd.lookup ip = some fd then none
        else c.postman.client_src2fd.lookup ip) ∧
      (∀ other, next.postman.client_fd2src.lookup other =
        if other = fd then none else c.postman.client_fd2src.lookup other)) := by
  have consistent := initial.consistent.run run
  refine ⟨consistent.grouped.listed, ?_, ?_, ?_, ?_⟩
  · intro fd ips ip listed member
    refine ⟨List.count_eq_one_of_mem (consistent.grouped.once fd ips listed) member, ?_⟩
    intro other others otherListed otherMember
    exact consistent.grouped.unique otherListed otherMember listed member
  · intro ip fd mapped
    obtain ⟨bev, found⟩ := consistent.mapped_open mapped
    exact consistent.mem_client_fd2bev.mpr (mem_iff_lookup.mpr ⟨bev, found⟩)
  · intro src_ip draw bev q routed
    obtain ⟨fd, found, mapped⟩ := consistent.route_maps routed
    exact ⟨fd, found, fun later final after stays again =>
      consistent.sticky routed mapped after stays again⟩
  · intro fd connected
    exact consistent.disconnect_unmaps connected

/-- Two sources are given a client each, and the client of the first one leaves. -/
theorem source_maps_departed :
    ∃ b c, Run twoClients [.accept 5 100, .accept 6 101, .query (ascii "10.0.0.1") 0,
        .query (ascii "10.0.0.2") 1] b ∧
      b.postman.client_src2fd.lookup (ascii "10.0.0.1") = some 5 ∧
      b.postman.client_src2fd.lookup (ascii "10.0.0.2") = some 6 ∧
      b.step (.disconnect 5) = .ok c ∧
      c.postman.client_src2fd.lookup (ascii "10.0.0.1") = none ∧
      c.postman.client_src2fd.lookup (ascii "10.0.0.2") = some 6 ∧
      c.postman.client_fd2src.lookup 6 = some [ascii "10.0.0.2"] ∧
      ∀ ip fd, c.postman.client_src2fd.lookup ip = some fd ↔
        ∃ ips, c.postman.client_fd2src.lookup fd = some ips ∧ ip ∈ ips := by
  have run : ∃ b, Run twoClients [.accept 5 100, .accept 6 101, .query (ascii "10.0.0.1") 0,
        .query (ascii "10.0.0.2") 1] b ∧
      b.postman.client_src2fd.lookup (ascii "10.0.0.1") = some 5 ∧
      b.postman.client_src2fd.lookup (ascii "10.0.0.2") = some 6 ∧
      b.postman.client_fd2src.lookup 6 = some [ascii "10.0.0.2"] ∧
      b.admits (.disconnect 5) ∧ 5 ∈ b.open_conns := by
    refine ⟨_, .next ⟨by decide, by decide⟩ rfl (.next ⟨by decide, by decide⟩ rfl
      (.next (by decide) rfl (.next (by decide) rfl (.done _)))), ?_, ?_, ?_, ?_, ?_⟩
    · decide
    · decide
    · decide
    · decide
    · decide
  obtain ⟨b, reached, first, second, sources, admitted, connected⟩ := run
  obtain ⟨c, left, unmapped, dropped⟩ :=
    (source_maps_consistent_and_sticky twoClients_initial reached).2.2.2.2 5 connected
  refine ⟨b, c, reached, first, second, left, ?_, ?_, ?_, ?_⟩
  · rw [unmapped, if_pos first]
  · rw [unmapped, if_neg (by rw [second]; decide), second]
  · rw [dropped, if_neg (by decide), sources]
  · exact (source_maps_consistent_and_sticky twoClients_initial
      (reached.append (.next admitted left (.done c)))).1

/-! ### Draws of clients that left -/

/-- In every state that is reached, a query gets a connected client exactly
when its source is mapped or the draw names one, and no other step aborts. -/
theorem rand_client_live_iff {start c : Controller} {events : List Event}
    (initial : start.Initial) (run : Run start events c) :
    (∀ src_ip draw, c.RoutesLive src_ip draw ↔
      cString src_ip ∈ c.postman.client_src2fd ∨ c.DrawnOpen draw) ∧
    (∀ event, c.admits event →
      ((∃ next, c.step event = .ok next) ↔
        ∀ src_ip draw, event = .query src_ip draw →
          cString src_ip ∈ c.postman.client_src2fd ∨ c.DrawnOpen draw)) := by
  have consistent := initial.consistent.run run
  refine ⟨consistent.routesLive_iff, ?_⟩
  intro event admitted
  cases event with
  | accept fd bev =>
      refine iff_of_true ⟨_, rfl⟩ ?_
      intro src_ip draw impossible
      cases impossible
  | disconnect fd =>
      obtain ⟨next, stepped, _unmapped⟩ := consistent.disconnect_unmaps admitted
      refine iff_of_true ⟨next, stepped⟩ ?_
      intro src_ip draw impossible
      cases impossible
  | query src_ip draw =>
      rw [consistent.query_ok_iff, consistent.routesLive_iff]
      constructor
      · intro good other otherDraw same
        obtain ⟨rfl, rfl⟩ := Event.query.inj same
        exact good
      · intro good
        exact good src_ip draw rfl

theorem rand_client_live_iff_departed :
    ∃ c, Run twoClients [.accept 5 100, .accept 6 101, .disconnect 5] c ∧
      (c.RoutesLive (ascii "10.0.0.1") 1 ↔
        cString (ascii "10.0.0.1") ∈ c.postman.client_src2fd ∨ c.DrawnOpen 1) := by
  obtain ⟨c, run⟩ := twoClients_departed
  exact ⟨c, run, (rand_client_live_iff twoClients_initial run).1 (ascii "10.0.0.1") 1⟩

/-- Two clients, of which the first has left: a query whose draw is 0 stops at
the assertion, with the second client connected. -/
theorem rand_client_departed :
    ∃ start c, start.Initial ∧
      Run start [.accept 5 100, .accept 6 101, .disconnect 5] c ∧
      c.postman.start_read_input = true ∧ c.open_conns.lookup 6 = some 101 ∧
      c.postman.client_filter.GetNumClients = 0 ∧ 0 < c.postman.num_clients ∧
      ¬ c.RoutesLive (ascii "10.0.0.1") 0 ∧
      c.step (.query (ascii "10.0.0.1") 0) = .error (.assertion "bev") := by
  refine ⟨twoClients, _, twoClients_initial, .next ⟨by decide, by decide⟩ rfl
    (.next ⟨by decide, by decide⟩ rfl (.next (by decide) rfl (.done _))),
    rfl, rfl, rfl, by decide, ?_, rfl⟩
  intro live
  obtain ⟨fd, bev, q, ran, found⟩ := live
  have null : NULL = bev := congrArg (fun result => result.toOption.elim bev Prod.fst) ran
  rw [← null] at found
  have listed := mem_values.mpr ⟨fd, found⟩
  revert listed
  decide

end Controller

end LDPlayer
