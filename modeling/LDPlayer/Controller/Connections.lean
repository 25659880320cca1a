/-
The postman among its clients, under any order of accepts, disconnects and
queries.

Beside the postman stands what is really connected: the descriptors that the
kernel has open and the bufferevents that belong to them.  The source maps stay
consistent with each other and with the connections.  The list of client
descriptors does not: it keeps those of clients that left, and a draw may pick
one.
-/
import LDPlayer.Controller.Postman
import LDPlayer.Foundation.Runs

set_option autoImplicit false

namespace LDPlayer

open Text HashTable

structure Controller where
  postman : Postman
  open_conns : HashTable Fd Ptr := ∅

namespace Controller

inductive Event where
  | accept (fd : Fd) (bev : Ptr)
  | disconnect (fd : Fd)
  | query (src_ip : Bytes) (draw : Nat)
  deriving DecidableEq, Repr

/-- A disconnect is an error, timeout or end of file on the connection. -/
def step (c : Controller) (event : Event) : Except Fault Controller :=
  match event with
  | .accept fd bev =>
      .ok { postman := c.postman.accept_conn_cb fd bev
            open_conns := c.open_conns.insert fd bev }
  | .disconnect fd =>
      match c.postman.client_bevent_cb fd with
      | .error fault => .error fault
      | .ok p => .ok { postman := p, open_conns := c.open_conns.erase fd }
  | .query src_ip draw =>
      match c.postman.route src_ip draw with
      | .error fault => .error fault
      | .ok (_, p) => .ok { c with postman := p }

/-- The kernel accepts on a descriptor that is not open; events come from open
connections only. -/
def admits (c : Controller) (event : Event) : Prop :=
  match event with
  | .accept fd bev => fd ∉ c.open_conns ∧ bev ≠ NULL
  | .disconnect fd => fd ∈ c.open_conns
  | .query _ _ => True

instance (c : Controller) (event : Event) : Decidable (c.admits event) :=
  match event with
  | .accept fd bev => inferInstanceAs (Decidable (fd ∉ c.open_conns ∧ bev ≠ NULL))
  | .disconnect fd => inferInstanceAs (Decidable (fd ∈ c.open_conns))
  | .query _ _ => inferInstanceAs (Decidable True)

def Initial (c : Controller) : Prop :=
  c.open_conns = ∅ ∧
    ∃ files listen_ip listen_port n f,
      Postman.new files listen_ip listen_port n f = .ok c.postman

abbrev Run : Controller → List Event → Controller → Prop := Runs.Run step admits

/-! ### The invariant -/

structure Consistent (c : Controller) : Prop where
  bevs : ∀ fd, c.postman.client_fd2bev.lookup fd = c.open_conns.lookup fd
  live : ∀ fd, c.open_conns.lookup fd ≠ some NULL
  grouped : Grouped c.postman.client_src2fd c.postman.client_fd2src
  sources : SameKeys c.postman.client_fd2src c.postman.client_fd2bev

theorem Consistent.mem_client_fd2bev {c : Controller} (consistent : c.Consistent) {fd : Fd} :
    fd ∈ c.postman.client_fd2bev ↔ fd ∈ c.open_conns := by
  rw [mem_iff_lookup, mem_iff_lookup, consistent.bevs fd]

theorem Consistent.client_fd2bev_size {c : Controller} (consistent : c.Consistent) :
    c.postman.client_fd2bev.size = 0 ↔ c.open_conns.size = 0 := by
  rw [size_eq_zero, size_eq_zero]
  constructor
  · intro empty fd
    rw [← consistent.bevs fd]
    exact empty fd
  · intro empty fd
    rw [consistent.bevs fd]
    exact empty fd

theorem Consistent.mapped_open {c : Controller} (consistent : c.Consistent) {ip : Bytes} {fd : Fd}
    (mapped : c.postman.client_src2fd.lookup ip = some fd) :
    ∃ bev, c.open_conns.lookup fd = some bev := by
  obtain ⟨ips, listed, _member⟩ := (consistent.grouped.listed ip fd).mp mapped
  have present : fd ∈ c.postman.client_fd2src := mem_iff_lookup.mpr ⟨ips, listed⟩
  exact mem_iff_lookup.mp (consistent.mem_client_fd2bev.mp ((consistent.sources fd).mp present))

theorem Initial.consistent {c : Controller} (initial : c.Initial) : c.Consistent := by
  obtain ⟨none_open, files, listen_ip, listen_port, n, f, made⟩ := initial
  obtain ⟨bevs, owners, lists, _rest⟩ := Postman.new_members made
  exact
    { bevs := by intro fd; rw [bevs, none_open]
      live := by intro fd; rw [none_open]; simp
      grouped := by rw [owners, lists]; exact Grouped.empty
      sources := by intro fd; rw [lists, bevs]; rfl }

/-! ### What one query does -/

def DrawnOpen (c : Controller) (draw : Nat) : Prop :=
  0 ≤ c.postman.client_idx draw ∧
    ∃ fd, c.postman.client_fds[(c.postman.client_idx draw).toNat]? = some fd ∧ fd ∈ c.open_conns

def RoutesLive (c : Controller) (src_ip : Bytes) (draw : Nat) : Prop :=
  ∃ fd bev p, c.postman.rand_client src_ip draw = .ok (bev, p) ∧
    c.open_conns.lookup fd = some bev

theorem Consistent.rand_client_mapped {c : Controller} (consistent : c.Consistent)
    {src_ip : Bytes} {fd : Fd} (draw : Nat)
    (mapped : c.postman.client_src2fd.lookup (cString src_ip) = some fd) :
    ∃ bev, c.open_conns.lookup fd = some bev ∧
      c.postman.rand_client src_ip draw = .ok (bev, c.postman) := by
  obtain ⟨bev, found⟩ := consistent.mapped_open mapped
  refine ⟨bev, found, ?_⟩
  rw [← consistent.bevs fd] at found
  exact Postman.rand_client_mapped draw mapped found

theorem Consistent.rand_client_fresh {c : Controller} (consistent : c.Consistent)
    {src_ip : Bytes} {draw : Nat} {fd : Fd} {bev : Ptr}
    (fresh : cString src_ip ∉ c.postman.client_src2fd)
    (nonneg : 0 ≤ c.postman.client_idx draw)
    (drawn : c.postman.client_fds[(c.postman.client_idx draw).toNat]? = some fd)
    (found : c.open_conns.lookup fd = some bev) :
    c.postman.rand_client src_ip draw =
      .ok (bev, c.postman.map_source (cString src_ip) fd) := by
  have some_client : c.postman.client_fd2bev.size ≠ 0 := by
    intro empty
    rw [size_eq_zero.mp (consistent.client_fd2bev_size.mp empty) fd] at found
    cases found
  have stored : (c.postman.map_source (cString src_ip) fd).client_src2fd.lookup
      (cString src_ip) = some fd := AList.lookup_insert _
  have bevFound : (c.postman.map_source (cString src_ip) fd).client_fd2bev.lookup fd =
      some bev := (consistent.bevs fd).trans found
  rw [Postman.rand_client_of_select
    (Postman.select_client_fresh fresh some_client nonneg drawn) stored,
    subscript_of_lookup bevFound]

theorem Consistent.route_cases {c : Controller} (consistent : c.Consistent) {src_ip : Bytes}
    {draw : Nat} {bev : Ptr} {q : Postman} (routed : c.postman.route src_ip draw = .ok (bev, q)) :
    ∃ fd, c.open_conns.lookup fd = some bev ∧
      ((c.postman.client_src2fd.lookup (cString src_ip) = some fd ∧ q = c.postman) ∨
        (cString src_ip ∉ c.postman.client_src2fd ∧ 0 ≤ c.postman.client_idx draw ∧
          c.postman.client_fds[(c.postman.client_idx draw).toNat]? = some fd ∧
          q = c.postman.map_source (cString src_ip) fd)) := by
  obtain ⟨ran, live⟩ := Postman.rand_client_of_route routed
  cases mapped : c.postman.client_src2fd.lookup (cString src_ip) with
  | some fd =>
      obtain ⟨found, isOpen, result⟩ := consistent.rand_client_mapped draw mapped
      rw [result] at ran
      obtain ⟨rfl, rfl⟩ := Prod.mk.inj (Except.ok.inj ran)
      exact ⟨fd, isOpen, Or.inl ⟨rfl, rfl⟩⟩
  | none =>
      have fresh := notMem_iff_lookup.mpr mapped
      cases selection : c.postman.select_client (cString src_ip) draw with
      | error fault =>
          unfold Postman.rand_client at ran
          simp only [selection] at ran
          cases ran
      | ok selected =>
          rcases Postman.select_client_cases selection with
            ⟨present, _same⟩ | ⟨_fresh, _some_client, nonneg, fd, drawn, rfl⟩
          · exact absurd present fresh
          · have stored : (c.postman.map_source (cString src_ip) fd).client_src2fd.lookup
                (cString src_ip) = some fd := AList.lookup_insert _
            rw [Postman.rand_client_of_select selection stored] at ran
            cases found : c.open_conns.lookup fd with
            | none =>
                have gone : (c.postman.map_source (cString src_ip) fd).client_fd2bev.lookup fd =
                    none := (consistent.bevs fd).trans found
                have null := (Prod.mk.inj (Except.ok.inj ran)).1
                simp only [subscript, gone] at null
                exact absurd null.symm live
            | some stored_bev =>
                have bevFound :
                    (c.postman.map_source (cString src_ip) fd).client_fd2bev.lookup fd =
                      some stored_bev := (consistent.bevs fd).trans found
                rw [subscript_of_lookup bevFound] at ran
                obtain ⟨rfl, rfl⟩ := Prod.mk.inj (Except.ok.inj ran)
                exact ⟨fd, found, Or.inr ⟨fresh, nonneg, drawn, rfl⟩⟩

theorem Consistent.route_of_live {c : Controller} (consistent : c.Consistent) {src_ip : Bytes}
    {draw : Nat} {fd : Fd} {bev : Ptr} {q : Postman}
    (ran : c.postman.rand_client src_ip draw = .ok (bev, q))
    (found : c.open_conns.lookup fd = some bev) : c.postman.route src_ip draw = .ok (bev, q) := by
  apply Postman.route_of_rand_client ran
  intro null
  rw [null] at found
  exact consistent.live fd found

/-- A lookup is live exactly for mapped sources and for draws of connected clients. -/
theorem Consistent.routesLive_iff {c : Controller} (consistent : c.Consistent) (src_ip : Bytes)
    (draw : Nat) :
    c.RoutesLive src_ip draw ↔
      cString src_ip ∈ c.postman.client_src2fd ∨ c.DrawnOpen draw := by
  constructor
  · intro live
    obtain ⟨fd, bev, q, ran, found⟩ := live
    obtain ⟨other, isOpen, ⟨mapped, _same⟩ | ⟨_fresh, nonneg, drawn, _same⟩⟩ :=
      consistent.route_cases (consistent.route_of_live ran found)
    · exact Or.inl (mem_iff_lookup.mpr ⟨other, mapped⟩)
    · exact Or.inr ⟨nonneg, other, drawn, mem_iff_lookup.mpr ⟨bev, isOpen⟩⟩
  · intro good
    rcases good with mapped | ⟨nonneg, fd, drawn, connected⟩
    · obtain ⟨fd, stored⟩ := mem_iff_lookup.mp mapped
      obtain ⟨bev, found, ran⟩ := consistent.rand_client_mapped draw stored
      exact ⟨fd, bev, c.postman, ran, found⟩
    · cases mapped : c.postman.client_src2fd.lookup (cString src_ip) with
      | some other =>
          obtain ⟨bev, found, ran⟩ := consistent.rand_client_mapped draw mapped
          exact ⟨other, bev, c.postman, ran, found⟩
      | none =>
          obtain ⟨bev, found⟩ := mem_iff_lookup.mp connected
          exact ⟨fd, bev, _, consistent.rand_client_fresh (notMem_iff_lookup.mpr mapped)
            nonneg drawn found, found⟩

/-- The assertion behind the lookup holds exactly when the lookup is live. -/
theorem Consistent.query_ok_iff {c : Controller} (consistent : c.Consistent) (src_ip : Bytes)
    (draw : Nat) :
    (∃ next, c.step (.query src_ip draw) = .ok next) ↔ c.RoutesLive src_ip draw := by
  constructor
  · intro went
    obtain ⟨next, stepped⟩ := went
    simp only [step] at stepped
    cases routed : c.postman.route src_ip draw with
    | error fault =>
        rw [routed] at stepped
        cases stepped
    | ok result =>
        obtain ⟨ran, _live⟩ := Postman.rand_client_of_route routed
        obtain ⟨fd, found, _how⟩ := consistent.route_cases routed
        exact ⟨fd, result.1, result.2, ran, found⟩
  · intro live
    obtain ⟨fd, bev, q, ran, found⟩ := live
    simp only [step, consistent.route_of_live ran found]
    exact ⟨_, rfl⟩

/-! ### What every step keeps -/

theorem accept_conn_cb_tables (fd : Fd) (bev : Ptr) (p : Postman) :
    (p.accept_conn_cb fd bev).client_fd2bev = p.client_fd2bev.insert fd bev ∧
      (p.accept_conn_cb fd bev).client_fd2src = p.client_fd2src.insert fd [] ∧
      (p.accept_conn_cb fd bev).client_src2fd = p.client_src2fd := by
  unfold Postman.accept_conn_cb
  simp only
  split <;> exact ⟨rfl, rfl, rfl⟩

theorem Consistent.accept {c : Controller} (consistent : c.Consistent) {fd : Fd} {bev : Ptr}
    (closed : fd ∉ c.open_conns) (live : bev ≠ NULL) :
    Consistent { postman := c.postman.accept_conn_cb fd bev
                 open_conns := c.open_conns.insert fd bev } := by
  obtain ⟨bevs, lists, owners⟩ := accept_conn_cb_tables fd bev c.postman
  have unlisted : c.postman.client_fd2src.lookup fd = none := by
    apply notMem_iff_lookup.mp
    intro present
    exact closed (consistent.mem_client_fd2bev.mp ((consistent.sources fd).mp present))
  exact
    { bevs := by
        intro other
        simp only [bevs, lookup_insert_eq, consistent.bevs other]
      live := by
        intro other
        simp only [lookup_insert_eq]
        by_cases same : other = fd
        · rw [if_pos same]
          intro null
          exact live (Option.some.inj null)
        · rw [if_neg same]
          exact consistent.live other
      grouped := by
        simp only [owners, lists]
        exact consistent.grouped.addGroup (Or.inl unlisted)
      sources := by
        simp only [bevs, lists]
        exact consistent.sources.insert fd [] bev }

/-- What a disconnect leaves: everything but the entries of that client. -/
theorem Consistent.client_bevent_cb {c : Controller} (consistent : c.Consistent) {fd : Fd}
    (connected : fd ∈ c.open_conns) :
    ∃ ips, c.postman.client_fd2src.lookup fd = some ips ∧
      c.postman.client_bevent_cb fd =
        .ok { c.postman with
              client_fd2bev := c.postman.client_fd2bev.erase fd
              client_src2fd := c.postman.client_src2fd.eraseAll ips
              client_fd2src := c.postman.client_fd2src.erase fd } := by
  have present := consistent.mem_client_fd2bev.mpr connected
  obtain ⟨ips, listed⟩ := mem_iff_lookup.mp ((consistent.sources fd).mpr present)
  refine ⟨ips, listed, ?_⟩
  unfold Postman.client_bevent_cb
  simp only [not_not.mpr present, if_false, listed]

theorem Consistent.disconnect {c next : Controller} (consistent : c.Consistent) {fd : Fd}
    (connected : fd ∈ c.open_conns) (stepped : c.step (.disconnect fd) = .ok next) :
    next.Consistent := by
  obtain ⟨ips, listed, left⟩ := consistent.client_bevent_cb connected
  simp only [step, left] at stepped
  rw [← Except.ok.inj stepped]
  exact
    { bevs := by
        intro other
        simp only [lookup_erase_eq, consistent.bevs other]
      live := by
        intro other
        simp only [lookup_erase_eq]
        by_cases same : other = fd
        · rw [if_pos same]
          intro impossible
          cases impossible
        · rw [if_neg same]
          exact consistent.live other
      grouped := consistent.grouped.leave listed
      sources := consistent.sources.erase fd }

theorem Consistent.map_source {c : Controller} (consistent : c.Consistent) {ip : Bytes} {fd : Fd}
    (fresh : ip ∉ c.postman.client_src2fd) (connected : fd ∈ c.open_conns) :
    Consistent { c with postman := c.postman.map_source ip fd } := by
  have present := (consistent.sources fd).mpr (consistent.mem_client_fd2bev.mpr connected)
  obtain ⟨ips, listed⟩ := mem_iff_lookup.mp present
  exact
    { bevs := consistent.bevs
      live := consistent.live
      grouped := by
        simp only [Postman.map_source, subscript_of_lookup listed]
        exact consistent.grouped.join (notMem_iff_lookup.mp fresh) listed
      sources := by
        intro other
        simp only [Postman.map_source, AList.mem_insert]
        rw [← consistent.sources other]
        constructor
        · intro listed
          rcases listed with rfl | member
          · exact present
          · exact member
        · exact Or.inr }

theorem Consistent.step {c next : Controller} {event : Event} (consistent : c.Consistent)
    (admitted : c.admits event) (stepped : c.step event = .ok next) : next.Consistent := by
  cases event with
  | accept fd bev =>
      rw [← Except.ok.inj stepped]
      exact consistent.accept admitted.1 admitted.2
  | disconnect fd => exact consistent.disconnect admitted stepped
  | query src_ip draw =>
      simp only [Controller.step] at stepped
      cases routed : c.postman.route src_ip draw with
      | error fault =>
          rw [routed] at stepped
          cases stepped
      | ok result =>
          rw [routed] at stepped
          rw [← Except.ok.inj stepped]
          obtain ⟨fd, found, ⟨_mapped, same⟩ | ⟨fresh, _nonneg, _drawn, same⟩⟩ :=
            consistent.route_cases routed
          · rw [same]
            exact consistent
          · rw [same]
            exact consistent.map_source fresh (mem_iff_lookup.mpr ⟨_, found⟩)

theorem Consistent.run {c final : Controller} {events : List Event} (consistent : c.Consistent)
    (run : Run c events final) : final.Consistent :=
  Runs.Run.invariant (fun _ _ _ holds admitted stepped => holds.step admitted stepped)
    run consistent

end Controller

end LDPlayer
