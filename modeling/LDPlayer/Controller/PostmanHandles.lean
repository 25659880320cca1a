/-
The bufferevents of the postman: who writes to them and who frees them.

That of a client leaves the table with the client, and a table entry is live.
That of the input socket is freed in its event callback, and the member still
refers to it when the loop returns.
-/
import LDPlayer.Client.Commander
import LDPlayer.Controller.Connections
import LDPlayer.Foundation.Handles

set_option autoImplicit false

namespace LDPlayer

open Text HashTable Handles Runs

/-! ### Messages of the input socket -/

namespace Controller

variable {c : Controller} {codec : Codec} {draws : Nat → Nat}

def Connected (c : Controller) (written : Written) : Prop :=
  ∀ entry ∈ written, ∃ fd, c.open_conns.lookup fd = some entry.1

theorem Consistent.sync_clients (consistent : c.Consistent) {msg : DNSMsg} {p : Postman}
    {written : Written} (ran : c.postman.sync_clients codec msg = .ok (p, written)) :
    Consistent { c with postman := p } ∧ c.Connected written := by
  unfold Postman.sync_clients at ran
  split at ran
  · obtain ⟨rfl, rfl⟩ := Prod.mk.inj (Except.ok.inj ran)
    exact ⟨consistent, fun entry impossible => by cases impossible⟩
  · split at ran
    · cases ran
    · obtain ⟨rfl, rfl⟩ := Prod.mk.inj (Except.ok.inj ran)
      refine ⟨⟨consistent.bevs, consistent.live, consistent.grouped, consistent.sources⟩, ?_⟩
      intro entry member
      obtain ⟨bev, stored, rfl⟩ := List.mem_map.mp member
      obtain ⟨fd, found⟩ := mem_values.mp stored
      exact ⟨fd, (consistent.bevs fd).symm.trans found⟩

theorem Consistent.route (consistent : c.Consistent) {src_ip : Bytes} {draw : Nat} {bev : Ptr}
    {p : Postman} (routed : c.postman.route src_ip draw = .ok (bev, p)) :
    Consistent { c with postman := p } ∧ ∃ fd, c.open_conns.lookup fd = some bev := by
  obtain ⟨fd, found, ⟨_mapped, same⟩ | ⟨fresh, _nonneg, _drawn, same⟩⟩ :=
    consistent.route_cases routed
  · rw [same]
    exact ⟨consistent, fd, found⟩
  · rw [same]
    exact ⟨consistent.map_source fresh (mem_iff_lookup.mpr ⟨bev, found⟩), fd, found⟩

theorem Consistent.skt_message (consistent : c.Consistent) {payload : Bytes} {p : Postman}
    {written : Written} (ran : c.postman.skt_message codec draws payload = .ok (p, written)) :
    Consistent { c with postman := p } ∧ c.Connected written := by
  unfold Postman.skt_message at ran
  simp only at ran
  split at ran
  · obtain ⟨rfl, rfl⟩ := Prod.mk.inj (Except.ok.inj ran)
    exact ⟨consistent, fun entry impossible => by cases impossible⟩
  · split at ran
    · cases ran
    · rename_i synced broadcast announced
      obtain ⟨stillConsistent, heard⟩ := consistent.sync_clients announced
      split at ran
      · cases ran
      · split at ran
        · cases ran
        · rename_i bev routed route
          obtain ⟨after, fd, found⟩ := stillConsistent.route route
          obtain ⟨rfl, rfl⟩ := Prod.mk.inj (Except.ok.inj ran)
          refine ⟨after, ?_⟩
          intro entry member
          rcases List.mem_append.mp member with member | last
          · exact heard entry member
          · rw [List.mem_singleton.mp last]
            exact ⟨fd, found⟩

theorem Consistent.skt_read_cb (consistent : c.Consistent) {buffer data rest : Bytes} {p : Postman}
    {written : Written}
    (ran : Postman.skt_read_cb codec draws (buffer, (c.postman, [])) data =
      .ok (rest, (p, written))) :
    Consistent { c with postman := p } ∧ c.Connected written := by
  have keeps : ∀ state payload next,
      (Consistent { c with postman := state.1 } ∧ c.Connected state.2) →
      Postman.skt_handle codec draws state payload = .ok next →
      (Consistent { c with postman := next.1 } ∧ c.Connected next.2) := by
    intro state payload next before handled
    obtain ⟨still, earlier⟩ := before
    unfold Postman.skt_handle at handled
    split at handled
    · cases handled
    · rename_i q more message
      obtain ⟨after, connected⟩ := still.skt_message message
      rw [← Except.ok.inj handled]
      refine ⟨after, ?_⟩
      intro entry member
      rcases List.mem_append.mp member with member | member
      · exact earlier entry member
      · exact connected entry member
  have start : Consistent { c with postman := c.postman } ∧ c.Connected [] :=
    ⟨consistent, fun entry impossible => by cases impossible⟩
  exact doWhileLoop_keeps keeps start ran

end Controller

/-! ### The loop -/

/-- The postman among its clients, with its bufferevent for the input socket.
Nothing reads `history` and `lost`. -/
structure PostmanBevs extends Controller where
  skt_bev : Ptr
  skt_buffer : Bytes := []
  looping : Bool := true
  history : List (Op Ptr)
  lost : Bool := false

namespace PostmanBevs

/-- A callback of a client comes with its descriptor and its bufferevent. -/
inductive Event where
  | accept_conn_cb (fd : Fd) (bev : Ptr)
  | client_read_cb (fd : Fd) (bev : Ptr)
  | client_bevent_cb_helper (fd : Fd) (bev : Ptr) (which : Which)
  | skt_read_cb (data : Bytes)
  | skt_event_cb (which : Which)
  | dispatch_returns
  deriving DecidableEq, Repr

def start (controller : Controller) (skt_bev : Ptr) : PostmanBevs :=
  { toController := controller, skt_bev := skt_bev, history := [.create skt_bev] }

def accept_conn_cb (fd : Fd) (bev : Ptr) (p : PostmanBevs) : PostmanBevs :=
  { p with
    postman := p.postman.accept_conn_cb fd bev
    open_conns := p.open_conns.insert fd bev
    history := p.history ++ [.create bev] }

def client_bevent_cb_helper (fd : Fd) (bev : Ptr) (which : Which) (p : PostmanBevs) :
    Except Fault PostmanBevs :=
  if which.closes then
    match p.postman.client_bevent_cb fd with
    | .error fault => .error fault
    | .ok postman =>
        .ok { p with
              postman := postman
              open_conns := p.open_conns.erase fd
              history := p.history ++ [.free bev] }
  else .ok p

def skt_read_cb (codec : Codec) (draws : Nat → Nat) (data : Bytes) (p : PostmanBevs) :
    Except Fault PostmanBevs :=
  match Postman.skt_read_cb codec draws (p.skt_buffer, (p.postman, [])) data with
  | .error fault => .error fault
  | .ok (skt_buffer, (postman, written)) =>
      .ok { p with
            postman := postman
            skt_buffer := skt_buffer
            history := p.history ++ (p.skt_bev :: written.map Prod.fst).map .use }

def skt_event_cb (which : Which) (p : PostmanBevs) : PostmanBevs :=
  if which.closes then { p with history := p.history ++ [.free p.skt_bev], lost := true }
  else p

def dispatch_returns (p : PostmanBevs) : PostmanBevs :=
  { p with
    looping := false
    history := p.history ++ (p.skt_bev :: p.postman.client_fd2bev.values).map .free }

def step (codec : Codec) (draws : Nat → Nat) (p : PostmanBevs) :
    Event → Except Fault PostmanBevs
  | .accept_conn_cb fd bev => .ok (p.accept_conn_cb fd bev)
  | .client_read_cb _ bev => .ok { p with history := p.history ++ [.use bev] }
  | .client_bevent_cb_helper fd bev which => p.client_bevent_cb_helper fd bev which
  | .skt_read_cb data => p.skt_read_cb codec draws data
  | .skt_event_cb which => .ok (p.skt_event_cb which)
  | .dispatch_returns => .ok p.dispatch_returns

/-- A client that is accepted has a new descriptor and a new bufferevent.  Callbacks
of clients come from open connections, those of skt_bev while it is live. -/
def admits (p : PostmanBevs) : Event → Prop
  | .accept_conn_cb fd bev =>
      p.looping = true ∧ fd ∉ p.open_conns ∧ bev ≠ NULL ∧ .create bev ∉ p.history
  | .client_read_cb fd bev => p.looping = true ∧ p.open_conns.lookup fd = some bev
  | .client_bevent_cb_helper fd bev _ => p.looping = true ∧ p.open_conns.lookup fd = some bev
  | .skt_read_cb _ => p.looping = true ∧ Live p.history p.skt_bev
  | .skt_event_cb _ => p.looping = true ∧ Live p.history p.skt_bev
  | .dispatch_returns => p.looping = true

instance (p : PostmanBevs) (event : Event) : Decidable (p.admits event) :=
  match event with
  | .accept_conn_cb fd bev =>
      inferInstanceAs (Decidable (p.looping = true ∧ fd ∉ p.open_conns ∧ bev ≠ NULL ∧
        .create bev ∉ p.history))
  | .client_read_cb fd bev =>
      inferInstanceAs (Decidable (p.looping = true ∧ p.open_conns.lookup fd = some bev))
  | .client_bevent_cb_helper fd bev _ =>
      inferInstanceAs (Decidable (p.looping = true ∧ p.open_conns.lookup fd = some bev))
  | .skt_read_cb _ => inferInstanceAs (Decidable (p.looping = true ∧ Live p.history p.skt_bev))
  | .skt_event_cb _ => inferInstanceAs (Decidable (p.looping = true ∧ Live p.history p.skt_bev))
  | .dispatch_returns => inferInstanceAs (Decidable (p.looping = true))

abbrev Run (codec : Codec) (draws : Nat → Nat) : PostmanBevs → List Event → PostmanBevs → Prop :=
  Runs.Run (step codec draws) admits

def ReturnsUnlost (p : PostmanBevs) (event : Event) : Prop :=
  event = .dispatch_returns → p.lost = false

structure Sound (p : PostmanBevs) : Prop where
  released : ReleasedOnce p.history
  consistent : p.toController.Consistent
  distinct : p.open_conns.OneKey
  clients : p.looping = true → ∀ fd bev, p.open_conns.lookup fd = some bev → Live p.history bev
  apart : ∀ fd, p.open_conns.lookup fd ≠ some p.skt_bev
  created : .create p.skt_bev ∈ p.history
  live : p.looping = true → (Live p.history p.skt_bev ↔ p.lost = false)

section steps

variable {codec : Codec} {draws : Nat → Nat} {p : PostmanBevs}

theorem start_sound {c : Controller} (initial : c.Initial) (skt_bev : Ptr) :
    (start c skt_bev).Sound := by
  have none_open : ∀ fd, c.open_conns.lookup fd = none := by
    intro fd
    rw [initial.1]
    rfl
  have unconnected : ∀ fd bev, c.open_conns.lookup fd ≠ some bev := by
    intro fd bev found
    rw [none_open fd] at found
    cases found
  have allowed : Op.Allowed [] (.create skt_bev) := trivial
  exact
    { released := releasedOnce_concat.mpr ⟨releasedOnce_nil, allowed⟩
      consistent := initial.consistent
      distinct := fun key _other value found => absurd found (unconnected key value)
      clients := fun _looping fd bev found => absurd found (unconnected fd bev)
      apart := fun fd => unconnected fd skt_bev
      created := List.mem_cons_self
      live := by simp [start, Live] }

theorem Sound.accept_conn_cb (sound : p.Sound) {fd : Fd} {bev : Ptr} (looping : p.looping = true)
    (closed : fd ∉ p.open_conns) (nonnull : bev ≠ NULL) (fresh : .create bev ∉ p.history) :
    (p.accept_conn_cb fd bev).Sound := by
  have unused : ∀ other, p.open_conns.lookup other ≠ some bev := by
    intro other found
    exact fresh (sound.clients looping other bev found).1
  have different : bev ≠ p.skt_bev := by
    intro same
    rw [same] at fresh
    exact fresh sound.created
  exact
    { released := releasedOnce_append.mpr ⟨sound.released, allows_create [bev]⟩
      consistent := sound.consistent.accept closed nonnull
      distinct := sound.distinct.insert unused
      clients := by
        intro _looping other image found
        rcases lookup_insert_cases found with ⟨_same, stored⟩ | before
        · rw [stored]
          exact sound.released.live_create fresh List.mem_cons_self (by simp)
        · exact (sound.clients looping other image before).append (by simp)
      apart := by
        intro other found
        rcases lookup_insert_cases found with ⟨_same, stored⟩ | before
        · exact different stored.symm
        · exact sound.apart other before
      created := List.mem_append_left _ sound.created
      live := by
        intro _looping
        change Live (p.history ++ [.create bev]) p.skt_bev ↔ p.lost = false
        rw [← sound.live looping]
        simp [Live, different.symm] }

theorem Sound.client_bevent_cb_helper (sound : p.Sound) {fd : Fd} {bev : Ptr} {which : Which}
    {next : PostmanBevs} (looping : p.looping = true) (found : p.open_conns.lookup fd = some bev)
    (ran : p.client_bevent_cb_helper fd bev which = .ok next) : next.Sound := by
  unfold PostmanBevs.client_bevent_cb_helper at ran
  split at ran
  · have connected : fd ∈ p.open_conns := mem_iff_lookup.mpr ⟨bev, found⟩
    split at ran
    · cases ran
    · rename_i postman left
      have stepped : p.toController.step (.disconnect fd) =
          .ok { postman := postman, open_conns := p.open_conns.erase fd } := by
        simp only [Controller.step, left]
      have different : bev ≠ p.skt_bev := by
        intro same
        rw [same] at found
        exact sound.apart fd found
      rw [← Except.ok.inj ran]
      exact
        { released := releasedOnce_concat.mpr ⟨sound.released, sound.clients looping fd bev found⟩
          consistent := sound.consistent.disconnect connected stepped
          distinct := sound.distinct.erase fd
          clients := by
            intro _looping other image otherFound
            change (p.open_conns.erase fd).lookup other = some image at otherFound
            rw [lookup_erase_eq] at otherFound
            split at otherFound
            · cases otherFound
            · rename_i apart
              apply (sound.clients looping other image otherFound).append
              intro freed
              have same : image = bev := by simpa using freed
              rw [same] at otherFound
              exact apart (sound.distinct other fd bev otherFound found)
          apart := by
            intro other otherFound
            change (p.open_conns.erase fd).lookup other = some p.skt_bev at otherFound
            rw [lookup_erase_eq] at otherFound
            split at otherFound
            · cases otherFound
            · exact sound.apart other otherFound
          created := List.mem_append_left _ sound.created
          live := by
            intro _looping
            rw [← sound.live looping]
            simp [Live, different.symm] }
  · rw [← Except.ok.inj ran]
    exact sound

theorem Sound.use (sound : p.Sound) {postman : Postman} {used : List Ptr} (skt_buffer : Bytes)
    (consistent : Controller.Consistent { p.toController with postman := postman })
    (live : ∀ bev ∈ used, Live p.history bev) :
    Sound { p with
            postman := postman
            skt_buffer := skt_buffer
            history := p.history ++ used.map .use } where
  released := releasedOnce_append.mpr ⟨sound.released, allows_use.mpr live⟩
  consistent := consistent
  distinct := sound.distinct
  clients := by
    intro looping fd bev found
    exact live_append_use.mpr (sound.clients looping fd bev found)
  apart := sound.apart
  created := List.mem_append_left _ sound.created
  live := by
    intro looping
    rw [live_append_use]
    exact sound.live looping

theorem Sound.skt_read_cb (sound : p.Sound) {data : Bytes} {next : PostmanBevs}
    (looping : p.looping = true) (live : Live p.history p.skt_bev)
    (ran : p.skt_read_cb codec draws data = .ok next) : next.Sound := by
  unfold PostmanBevs.skt_read_cb at ran
  split at ran
  · cases ran
  · rename_i skt_buffer postman written read
    obtain ⟨consistent, connected⟩ := sound.consistent.skt_read_cb read
    rw [← Except.ok.inj ran]
    apply sound.use skt_buffer consistent
    intro bev member
    rcases List.mem_cons.mp member with rfl | member
    · exact live
    · obtain ⟨entry, own, rfl⟩ := List.mem_map.mp member
      obtain ⟨fd, found⟩ := connected entry own
      exact sound.clients looping fd entry.1 found

theorem Sound.skt_event_cb (sound : p.Sound) (live : Live p.history p.skt_bev) (which : Which) :
    (p.skt_event_cb which).Sound := by
  unfold PostmanBevs.skt_event_cb
  split
  · exact
      { released := releasedOnce_concat.mpr ⟨sound.released, live⟩
        consistent := sound.consistent
        distinct := sound.distinct
        clients := by
          intro looping fd bev found
          apply (sound.clients looping fd bev found).append
          intro freed
          have same : bev = p.skt_bev := by simpa using freed
          rw [same] at found
          exact sound.apart fd found
        apart := sound.apart
        created := List.mem_append_left _ sound.created
        live := by simp [Live] }
  · exact sound

theorem Sound.dispatch_returns (sound : p.Sound) (looping : p.looping = true) :
    (ReleasedOnce p.dispatch_returns.history ↔ p.lost = false) ∧
      (p.lost = false → p.dispatch_returns.Sound) := by
  have stored : ∀ bev ∈ p.postman.client_fd2bev.values, ∃ fd, p.open_conns.lookup fd = some bev := by
    intro bev member
    obtain ⟨fd, found⟩ := mem_values.mp member
    exact ⟨fd, (sound.consistent.bevs fd).symm.trans found⟩
  have others : ∀ bev ∈ p.postman.client_fd2bev.values, Live p.history bev := by
    intro bev member
    obtain ⟨fd, found⟩ := stored bev member
    exact sound.clients looping fd bev found
  have apart : p.skt_bev ∉ p.postman.client_fd2bev.values := by
    intro member
    obtain ⟨fd, found⟩ := stored _ member
    exact sound.apart fd found
  have distinct : p.postman.client_fd2bev.values.Nodup := by
    apply OneKey.values_nodup
    intro key other value found otherFound
    rw [sound.consistent.bevs] at found otherFound
    exact sound.distinct key other value found otherFound
  have released : ReleasedOnce p.dispatch_returns.history ↔ p.lost = false := by
    unfold PostmanBevs.dispatch_returns
    rw [releasedOnce_append, and_iff_right sound.released, allows_free, List.nodup_cons,
      List.forall_mem_cons, sound.live looping]
    exact ⟨fun all => all.2.1, fun unlost => ⟨⟨apart, distinct⟩, unlost, others⟩⟩
  refine ⟨released, fun unlost => ?_⟩
  exact
    { released := released.mpr unlost
      consistent := sound.consistent
      distinct := sound.distinct
      clients := by intro looping; cases looping
      apart := sound.apart
      created := List.mem_append_left _ sound.created
      live := by intro looping; cases looping }

/-- The step lemma: only the clean-up behind the loop depends on what was lost. -/
theorem Sound.step (sound : p.Sound) {event : Event} {next : PostmanBevs}
    (admitted : p.admits event) (stepped : p.step codec draws event = .ok next) :
    (ReleasedOnce next.history ↔ p.ReturnsUnlost event) ∧ (p.ReturnsUnlost event → next.Sound) := by
  have keeps : next.Sound → event ≠ .dispatch_returns →
      (ReleasedOnce next.history ↔ p.ReturnsUnlost event) ∧
        (p.ReturnsUnlost event → next.Sound) := by
    intro kept other
    exact ⟨⟨fun _released returns => absurd returns other, fun _unlost => kept.released⟩,
      fun _unlost => kept⟩
  cases event with
  | accept_conn_cb fd bev =>
      obtain ⟨looping, closed, nonnull, fresh⟩ := admitted
      rw [← Except.ok.inj stepped] at keeps ⊢
      exact keeps (sound.accept_conn_cb looping closed nonnull fresh) (by simp)
  | client_read_cb fd bev =>
      obtain ⟨looping, found⟩ := admitted
      have read : Sound { p with history := p.history ++ [bev].map .use } := by
        apply sound.use p.skt_buffer sound.consistent
        intro other member
        rw [List.mem_singleton.mp member]
        exact sound.clients looping fd bev found
      rw [← Except.ok.inj stepped] at keeps ⊢
      exact keeps read (by simp)
  | client_bevent_cb_helper fd bev which =>
      exact keeps (sound.client_bevent_cb_helper admitted.1 admitted.2 stepped) (by simp)
  | skt_read_cb data => exact keeps (sound.skt_read_cb admitted.1 admitted.2 stepped) (by simp)
  | skt_event_cb which =>
      rw [← Except.ok.inj stepped] at keeps ⊢
      exact keeps (sound.skt_event_cb admitted.2 which) (by simp)
  | dispatch_returns =>
      rw [← Except.ok.inj stepped]
      obtain ⟨decides, kept⟩ := sound.dispatch_returns admitted
      exact ⟨decides.trans (imp_iff_right rfl).symm, fun unlost => kept (unlost rfl)⟩

/-- The input socket is lost where a closing event was reported. -/
theorem lost_iff {final : PostmanBevs} {events : List Event}
    (run : Run codec draws p events final) :
    final.lost = true ↔
      p.lost = true ∨ ∃ event ∈ events, ∃ which, event = .skt_event_cb which ∧
        which.closes = true := by
  apply Runs.Run.marked_iff (fun p => p.lost = true)
    (fun event => ∃ which, event = .skt_event_cb which ∧ which.closes = true) _ run
  intro p event next stepped
  cases event with
  | accept_conn_cb fd bev =>
      rw [← Except.ok.inj stepped]
      simp [accept_conn_cb]
  | client_read_cb fd bev =>
      rw [← Except.ok.inj stepped]
      simp
  | client_bevent_cb_helper fd bev which =>
      simp only [PostmanBevs.step, client_bevent_cb_helper] at stepped
      split at stepped
      · split at stepped
        · cases stepped
        · rw [← Except.ok.inj stepped]
          simp
      · rw [← Except.ok.inj stepped]
        simp
  | skt_read_cb data =>
      simp only [PostmanBevs.step, skt_read_cb] at stepped
      split at stepped
      · cases stepped
      · rw [← Except.ok.inj stepped]
        simp
  | skt_event_cb which =>
      rw [← Except.ok.inj stepped]
      unfold skt_event_cb
      by_cases closes : which.closes = true
      · simp [closes]
      · simp [closes]
  | dispatch_returns =>
      rw [← Except.ok.inj stepped]
      simp [dispatch_returns]

theorem Sound.allStates_iff (sound : p.Sound) {final : PostmanBevs} {events : List Event}
    (run : Run codec draws p events final) :
    AllStates (PostmanBevs.step codec draws) (fun p => ReleasedOnce p.history) p events ↔
      AllSteps (PostmanBevs.step codec draws) ReturnsUnlost p events := by
  refine run.allStates_iff_allSteps (fun _ sound => sound.released) ?_ ?_ sound
  · intro p event next sound admitted stepped
    exact (sound.step admitted stepped).1
  · intro p event next sound admitted stepped good
    exact (sound.step admitted stepped).2 good

end steps

end PostmanBevs

end LDPlayer
