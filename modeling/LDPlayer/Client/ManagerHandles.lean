/-
The bufferevents of the manager: who frees them and when.

A worker's bufferevent is freed in its event callback, and the entry of the
worker still refers to it.  What is done to bufferevents is written down in a
history, and beside it the connections that were lost.  One callback runs at a
time, and a failing write of the thread that reads the input stands between two
of them.
-/
import LDPlayer.Client.Commander
import LDPlayer.Foundation.Handles
import LDPlayer.Foundation.Runs

set_option autoImplicit false

namespace LDPlayer

open Handles Runs

inductive Phase where
  | constructed
  | looping
  | returned
  | ended
  deriving DecidableEq, Repr

/-- The members of the manager that refer to bufferevents: `bev` of every `client_t`
and `com_bev`.  Nothing reads `history` and `lost`. -/
structure ManagerBevs where
  dist : Bool
  client_vec : List Ptr
  com_bev : Ptr := NULL
  com_fail_retry : Nat := 0
  phase : Phase := .constructed
  history : List (Op Ptr) := []
  lost : List Ptr := []
  deriving DecidableEq, Repr

namespace ManagerBevs

/-- New bufferevents are arguments, and so is whether a write to the workers or a
connect succeeds. -/
inductive Event where
  | main_event_loop (bevs : List Ptr) (com_bev : Ptr) (connects : Bool)
  | buf_ev_cb (bev : Ptr) (which : Which)
  | read_client_cb (bev : Ptr)
  | com_read_cb (writes : Bool)
  | com_bevent_cb_helper (which : Which) (com_bev : Ptr) (connects : Bool)
  | read_input_file_fails
  | dispatch_returns
  | destructor
  deriving DecidableEq, Repr

def clean_up (m : ManagerBevs) : ManagerBevs :=
  { m with
    client_vec := []
    history := m.history ++ (m.client_vec.filter (fun bev => bev ≠ NULL)).map .free }

def log_err (m : ManagerBevs) : ManagerBevs := { m.clean_up with phase := .ended }

def connect_commander (com_bev : Ptr) (connects : Bool) (m : ManagerBevs) : ManagerBevs :=
  if connects then { m with com_bev := com_bev, history := m.history ++ [.create com_bev] }
  else
    log_err { m with
              com_bev := com_bev
              history := m.history ++ [.create com_bev, .free com_bev] }

def main_event_loop (bevs : List Ptr) (com_bev : Ptr) (connects : Bool) (m : ManagerBevs) :
    ManagerBevs :=
  let watched :=
    { m with client_vec := bevs, phase := .looping, history := m.history ++ bevs.map .create }
  if m.dist then watched.connect_commander com_bev connects else watched

def buf_ev_cb (bev : Ptr) (which : Which) (m : ManagerBevs) : ManagerBevs :=
  if which.closes then { m with history := m.history ++ [.free bev], lost := bev :: m.lost }
  else m

def read_client_cb (bev : Ptr) (m : ManagerBevs) : ManagerBevs :=
  { m with history := m.history ++ [.use bev] }

/-- Writes to the workers go to their descriptors, not to their bufferevents. -/
def com_read_cb (writes : Bool) (m : ManagerBevs) : ManagerBevs :=
  let read := { m with history := m.history ++ [.use m.com_bev] }
  if writes then read else read.log_err

def com_bevent_cb (com_bev : Ptr) (connects : Bool) (m : ManagerBevs) : ManagerBevs :=
  let counted := { m with com_fail_retry := m.com_fail_retry + 1 }
  if counted.com_fail_retry ≥ Commander.FAIL_RETRY_LIMIT then counted.log_err
  else counted.connect_commander com_bev connects

def com_bevent_cb_helper (which : Which) (com_bev : Ptr) (connects : Bool) (m : ManagerBevs) :
    ManagerBevs :=
  if which.closes then
    com_bevent_cb com_bev connects { m with history := m.history ++ [.free m.com_bev] }
  else m

def dispatch_returns (m : ManagerBevs) : ManagerBevs :=
  { m with
    client_vec := m.client_vec.map (fun _bev => NULL)
    phase := .returned
    history := m.history ++ ((if m.dist then [m.com_bev] else []) ++ m.client_vec).map .free }

def next (m : ManagerBevs) : Event → ManagerBevs
  | .main_event_loop bevs com_bev connects => m.main_event_loop bevs com_bev connects
  | .buf_ev_cb bev which => m.buf_ev_cb bev which
  | .read_client_cb bev => m.read_client_cb bev
  | .com_read_cb writes => m.com_read_cb writes
  | .com_bevent_cb_helper which com_bev connects => m.com_bevent_cb_helper which com_bev connects
  | .read_input_file_fails => m.log_err
  | .dispatch_returns => m.dispatch_returns
  | .destructor => { m.clean_up with phase := .ended }

def step (m : ManagerBevs) (event : Event) : Except Fault ManagerBevs := .ok (m.next event)

def Fresh (bev : Ptr) (m : ManagerBevs) : Prop := bev ≠ NULL ∧ .create bev ∉ m.history

instance (bev : Ptr) (m : ManagerBevs) : Decidable (m.Fresh bev) :=
  inferInstanceAs (Decidable (_ ∧ _))

/-- Callbacks come from live bufferevents while the loop runs.  In distributed mode
no thread reads an input. -/
def admits (m : ManagerBevs) : Event → Prop
  | .main_event_loop bevs com_bev _ =>
      m.phase = .constructed ∧ bevs.length = m.client_vec.length ∧ (com_bev :: bevs).Nodup ∧
        ∀ bev ∈ com_bev :: bevs, m.Fresh bev
  | .buf_ev_cb bev _ => m.phase = .looping ∧ bev ∈ m.client_vec ∧ Live m.history bev
  | .read_client_cb bev => m.phase = .looping ∧ bev ∈ m.client_vec ∧ Live m.history bev
  | .com_read_cb _ => m.phase = .looping ∧ m.dist = true ∧ Live m.history m.com_bev
  | .com_bevent_cb_helper _ com_bev _ =>
      m.phase = .looping ∧ m.dist = true ∧ Live m.history m.com_bev ∧ m.Fresh com_bev
  | .read_input_file_fails => m.phase ≠ .ended ∧ m.dist = false
  | .dispatch_returns => m.phase = .looping
  | .destructor => m.phase = .returned

instance (m : ManagerBevs) (event : Event) : Decidable (m.admits event) :=
  match event with
  | .main_event_loop bevs com_bev _ =>
      inferInstanceAs (Decidable (m.phase = .constructed ∧ bevs.length = m.client_vec.length ∧
        (com_bev :: bevs).Nodup ∧ ∀ bev ∈ com_bev :: bevs, m.Fresh bev))
  | .buf_ev_cb bev _ =>
      inferInstanceAs (Decidable (m.phase = .looping ∧ bev ∈ m.client_vec ∧ Live m.history bev))
  | .read_client_cb bev =>
      inferInstanceAs (Decidable (m.phase = .looping ∧ bev ∈ m.client_vec ∧ Live m.history bev))
  | .com_read_cb _ =>
      inferInstanceAs (Decidable (m.phase = .looping ∧ m.dist = true ∧ Live m.history m.com_bev))
  | .com_bevent_cb_helper _ com_bev _ =>
      inferInstanceAs (Decidable (m.phase = .looping ∧ m.dist = true ∧
        Live m.history m.com_bev ∧ m.Fresh com_bev))
  | .read_input_file_fails => inferInstanceAs (Decidable (m.phase ≠ .ended ∧ m.dist = false))
  | .dispatch_returns => inferInstanceAs (Decidable (m.phase = .looping))
  | .destructor => inferInstanceAs (Decidable (m.phase = .returned))

structure Initial (m : ManagerBevs) : Prop where
  bevs : ∀ bev ∈ m.client_vec, bev = NULL
  phase : m.phase = .constructed
  history : m.history = []
  lost : m.lost = []

abbrev Run : ManagerBevs → List Event → ManagerBevs → Prop := Runs.Run step admits

/-- The step frees the bufferevents of the workers: the loop has returned, or an
error ends the process. -/
def CleansUp (m : ManagerBevs) : Event → Prop
  | .com_read_cb writes => writes = false
  | .com_bevent_cb_helper which _ connects =>
      which.closes = true ∧
        (m.com_fail_retry + 1 ≥ Commander.FAIL_RETRY_LIMIT ∨ connects = false)
  | .read_input_file_fails => True
  | .dispatch_returns => True
  | .destructor => True
  | _ => False

/-- No `client_t` refers to the bufferevent of a connection that was lost. -/
def NoneLost (m : ManagerBevs) : Prop := ∀ bev ∈ m.client_vec, bev ≠ NULL → bev ∉ m.lost

def CleansUpUnlost (m : ManagerBevs) (event : Event) : Prop := m.CleansUp event → m.NoneLost

/-! What every step keeps. -/

/-- The bufferevents that the workers' entries refer to: created once for each, and
freed where the connection was lost. -/
structure WorkersSound (m : ManagerBevs) : Prop where
  released : ReleasedOnce m.history
  distinct : (m.client_vec.filter (fun bev => bev ≠ NULL)).Nodup
  created : ∀ bev ∈ m.client_vec, bev ≠ NULL → .create bev ∈ m.history
  freed : ∀ bev ∈ m.client_vec, bev ≠ NULL → (.free bev ∈ m.history ↔ bev ∈ m.lost)

structure Sound (m : ManagerBevs) : Prop extends WorkersSound m where
  set : m.phase = .looping → NULL ∉ m.client_vec
  commander : m.phase = .looping → m.dist = true →
    Live m.history m.com_bev ∧ m.com_bev ∉ m.client_vec
  start : m.phase = .constructed → m.lost = []

section steps

variable {m : ManagerBevs}

theorem Initial.sound (initial : m.Initial) : m.Sound := by
  have unset : ∀ bev ∈ m.client_vec, bev ≠ NULL → False := fun bev member set =>
    set (initial.bevs bev member)
  have later : m.phase = .looping → False := by
    intro looping
    rw [initial.phase] at looping
    cases looping
  exact
    { released := by rw [initial.history]; exact releasedOnce_nil
      distinct := by
        rw [List.filter_eq_nil_iff.mpr]
        · exact List.nodup_nil
        · intro bev member
          simpa using initial.bevs bev member
      created := fun bev member set => (unset bev member set).elim
      freed := fun bev member set => (unset bev member set).elim
      set := fun looping => (later looping).elim
      commander := fun looping => (later looping).elim
      start := fun _constructed => initial.lost }

theorem WorkersSound.live_iff (sound : m.WorkersSound) {bev : Ptr} (member : bev ∈ m.client_vec)
    (set : bev ≠ NULL) : Live m.history bev ↔ bev ∉ m.lost := by
  unfold Live
  rw [and_iff_right (sound.created bev member set), sound.freed bev member set]

theorem WorkersSound.notMem (sound : m.WorkersSound) {bev : Ptr} (fresh : m.Fresh bev) :
    bev ∉ m.client_vec := by
  intro member
  exact fresh.2 (sound.created bev member fresh.1)

theorem WorkersSound.append (sound : m.WorkersSound) {ops : List (Op Ptr)}
    (allowed : Allows m.history ops) (kept : ∀ bev ∈ m.client_vec, .free bev ∉ ops) :
    WorkersSound { m with history := m.history ++ ops } where
  released := releasedOnce_append.mpr ⟨sound.released, allowed⟩
  distinct := sound.distinct
  created := by
    intro bev member set
    exact List.mem_append_left _ (sound.created bev member set)
  freed := by
    intro bev member set
    rw [← sound.freed bev member set, List.mem_append, or_iff_left (kept bev member)]

theorem WorkersSound.clean_up_iff (sound : m.WorkersSound) :
    ReleasedOnce m.clean_up.history ↔ m.NoneLost := by
  unfold clean_up
  rw [releasedOnce_append, and_iff_right sound.released, allows_free,
    and_iff_right sound.distinct]
  unfold NoneLost
  constructor
  · intro live bev member set
    have still := live bev (List.mem_filter.mpr ⟨member, decide_eq_true set⟩)
    exact (sound.live_iff member set).mp still
  · intro unlost bev member
    obtain ⟨own, set⟩ := List.mem_filter.mp member
    have nonnull : bev ≠ NULL := of_decide_eq_true set
    exact (sound.live_iff own nonnull).mpr (unlost bev own nonnull)

private theorem log_err_sound (released : ReleasedOnce m.clean_up.history) : m.log_err.Sound where
  released := released
  distinct := List.nodup_nil
  created := by intro bev member; cases member
  freed := by intro bev member; cases member
  set := by intro looping; cases looping
  commander := by intro looping; cases looping
  start := by intro constructed; cases constructed

/-- What is to be shown of a step: it decides the property, and keeps the rest. -/
def Decides (next : ManagerBevs) (condition : Prop) : Prop :=
  (ReleasedOnce next.history ↔ condition) ∧ (condition → next.Sound)

theorem Sound.decides (sound : m.Sound) {condition : Prop} (met : condition) :
    Decides m condition :=
  ⟨⟨fun _released => met, fun _met => sound.released⟩, fun _met => sound⟩

theorem Decides.congr {condition other : Prop} (decides : Decides m condition)
    (same : condition ↔ other) : Decides m other := by
  rw [← same]
  exact decides

theorem WorkersSound.log_err_decides (sound : m.WorkersSound) : Decides m.log_err m.NoneLost :=
  ⟨sound.clean_up_iff, fun unlost => log_err_sound (sound.clean_up_iff.mpr unlost)⟩

theorem Sound.buf_ev_cb (sound : m.Sound) {bev : Ptr} (which : Which)
    (looping : m.phase = .looping) (member : bev ∈ m.client_vec) (live : Live m.history bev) :
    (m.buf_ev_cb bev which).Sound := by
  unfold ManagerBevs.buf_ev_cb
  split
  · have other : ∀ watched, .free watched ∈ m.history ++ [.free bev] ↔
        .free watched ∈ m.history ∨ watched = bev := by
      intro watched
      simp
    exact
      { released := releasedOnce_concat.mpr ⟨sound.released, live⟩
        distinct := sound.distinct
        created := by
          intro watched own set
          exact List.mem_append_left _ (sound.created watched own set)
        freed := by
          intro watched own set
          rw [other, List.mem_cons, sound.freed watched own set, or_comm]
        set := sound.set
        commander := by
          intro looping dist
          obtain ⟨still, apart⟩ := sound.commander looping dist
          refine ⟨still.append ?_, apart⟩
          intro freed
          have same : m.com_bev = bev := by simpa using freed
          rw [same] at apart
          exact apart member
        start := by
          intro constructed
          rw [looping] at constructed
          cases constructed }
  · exact sound

theorem Sound.use (sound : m.Sound) {bev : Ptr} (live : Live m.history bev) :
    Sound { m with history := m.history ++ [.use bev] } where
  toWorkersSound := sound.append ⟨live, trivial⟩ (by intro other _member; simp)
  set := sound.set
  commander := by
    intro looping dist
    obtain ⟨still, apart⟩ := sound.commander looping dist
    exact ⟨still.append (by simp), apart⟩
  start := sound.start

theorem WorkersSound.connect_commander (sound : m.WorkersSound) (looping : m.phase = .looping)
    (set : NULL ∉ m.client_vec) {com_bev : Ptr} (fresh : m.Fresh com_bev) (connects : Bool) :
    Decides (m.connect_commander com_bev connects) (connects = false → m.NoneLost) := by
  have apart := sound.notMem fresh
  have live : ∀ {ops : List (Op Ptr)}, .create com_bev ∈ ops → .free com_bev ∉ ops →
      Live (m.history ++ ops) com_bev := fun created kept =>
    sound.released.live_create fresh.2 created kept
  unfold ManagerBevs.connect_commander
  cases connects with
  | true =>
      have allowed : Allows m.history [.create com_bev] := ⟨trivial, trivial⟩
      have opened := sound.append allowed (by intro other _member; simp)
      refine Sound.decides ?_ (fun impossible => by cases impossible)
      exact
        { released := opened.released
          distinct := opened.distinct
          created := opened.created
          freed := opened.freed
          set := fun _looping => set
          commander := fun _looping _dist => ⟨live (by simp) (by simp), apart⟩
          start := by
            intro constructed
            change m.phase = _ at constructed
            rw [looping] at constructed
            cases constructed }
  | false =>
      have allowed : Allows m.history [.create com_bev, .free com_bev] :=
        ⟨trivial, live (by simp) (by simp), trivial⟩
      have closed := sound.append allowed (by
        intro other member freed
        have same : other = com_bev := by simpa using freed
        rw [same] at member
        exact apart member)
      have failed : WorkersSound
          { m with
            com_bev := com_bev
            history := m.history ++ [.create com_bev, .free com_bev] } :=
        ⟨closed.released, closed.distinct, closed.created, closed.freed⟩
      have decided : Decides (log_err
          { m with
            com_bev := com_bev
            history := m.history ++ [.create com_bev, .free com_bev] }) m.NoneLost :=
        failed.log_err_decides
      apply decided.congr
      simp

theorem Sound.com_read_cb (sound : m.Sound) (live : Live m.history m.com_bev) (writes : Bool) :
    Decides (m.com_read_cb writes) (writes = false → m.NoneLost) := by
  have read := sound.use live
  unfold ManagerBevs.com_read_cb
  cases writes with
  | true => exact read.decides (fun impossible => by cases impossible)
  | false =>
      apply read.toWorkersSound.log_err_decides.congr
      rw [imp_iff_right rfl]
      exact Iff.rfl

theorem Sound.com_bevent_cb_helper (sound : m.Sound) (looping : m.phase = .looping)
    (dist : m.dist = true) {com_bev : Ptr} (fresh : m.Fresh com_bev) (which : Which)
    (connects : Bool) :
    Decides (m.com_bevent_cb_helper which com_bev connects)
      (m.CleansUpUnlost (.com_bevent_cb_helper which com_bev connects)) := by
  obtain ⟨live, apart⟩ := sound.commander looping dist
  have allowed : Allows m.history [.free m.com_bev] := ⟨live, trivial⟩
  have freed := sound.append allowed (by
    intro other member freed
    have same : other = m.com_bev := by simpa using freed
    rw [same] at member
    exact apart member)
  have counted : WorkersSound
      { m with
        history := m.history ++ [.free m.com_bev]
        com_fail_retry := m.com_fail_retry + 1 } :=
    ⟨freed.released, freed.distinct, freed.created, freed.freed⟩
  unfold ManagerBevs.com_bevent_cb_helper CleansUpUnlost CleansUp
  by_cases closes : which.closes = true
  · rw [if_pos closes]
    unfold com_bevent_cb
    simp only
    by_cases given_up : m.com_fail_retry + 1 ≥ Commander.FAIL_RETRY_LIMIT
    · rw [if_pos given_up]
      apply counted.log_err_decides.congr
      rw [imp_iff_right ⟨closes, Or.inl given_up⟩]
      exact Iff.rfl
    · rw [if_neg given_up]
      have unused : Fresh com_bev
          { m with
            history := m.history ++ [.free m.com_bev]
            com_fail_retry := m.com_fail_retry + 1 } :=
        ⟨fresh.1, by simpa using fresh.2⟩
      apply (counted.connect_commander looping (sound.set looping) unused connects).congr
      simp only [closes, given_up, true_and, false_or]
      exact Iff.rfl
  · rw [if_neg closes]
    exact sound.decides (fun cleans => absurd cleans.1 closes)

theorem Sound.main_event_loop (sound : m.Sound) {bevs : List Ptr} {com_bev : Ptr}
    (constructed : m.phase = .constructed) (distinct : (com_bev :: bevs).Nodup)
    (fresh : ∀ bev ∈ com_bev :: bevs, m.Fresh bev) (connects : Bool) :
    (m.main_event_loop bevs com_bev connects).Sound := by
  obtain ⟨apart, distinct⟩ := List.nodup_cons.mp distinct
  have set : NULL ∉ bevs := fun member => (fresh NULL (List.mem_cons_of_mem _ member)).1 rfl
  have none_lost := sound.start constructed
  have watched : WorkersSound
      { m with
        client_vec := bevs
        phase := .looping
        history := m.history ++ bevs.map .create } :=
    { released := releasedOnce_append.mpr ⟨sound.released, allows_create bevs⟩
      distinct := distinct.filter _
      created := by
        intro bev member _set
        exact List.mem_append_right _ (List.mem_map_of_mem member)
      freed := by
        intro bev member _set
        have new : .free bev ∉ m.history := fun freed =>
          (fresh bev (List.mem_cons_of_mem _ member)).2 (sound.released.created freed)
        rw [none_lost, List.mem_append]
        simp [new] }
  have unused : Fresh com_bev
      { m with
        client_vec := bevs
        phase := .looping
        history := m.history ++ bevs.map .create } := by
    obtain ⟨nonnull, new⟩ := fresh com_bev List.mem_cons_self
    exact ⟨nonnull, by simp [new, apart]⟩
  unfold ManagerBevs.main_event_loop
  simp only
  by_cases dist : m.dist = true
  · rw [if_pos dist]
    apply (watched.connect_commander rfl set unused connects).2
    intro _failed bev _member _set
    change bev ∉ m.lost
    rw [none_lost]
    exact List.not_mem_nil
  · rw [if_neg dist]
    exact
      { toWorkersSound := watched
        set := fun _looping => set
        commander := fun _looping distributed => absurd distributed dist
        start := fun _looping => none_lost }

theorem Sound.dispatch_returns (sound : m.Sound) (looping : m.phase = .looping) :
    Decides m.dispatch_returns m.NoneLost := by
  have set := sound.set looping
  have nonnull : ∀ bev ∈ m.client_vec, bev ≠ NULL := by
    intro bev member null
    rw [null] at member
    exact set member
  have all : m.client_vec.filter (fun bev => bev ≠ NULL) = m.client_vec := by
    rw [List.filter_eq_self]
    intro bev member
    exact decide_eq_true (nonnull bev member)
  have distinct : m.client_vec.Nodup := all ▸ sound.distinct
  have workers : (∀ bev ∈ m.client_vec, Live m.history bev) ↔ m.NoneLost := by
    unfold NoneLost
    constructor
    · intro live bev member set
      exact (sound.live_iff member set).mp (live bev member)
    · intro unlost bev member
      exact (sound.live_iff member (nonnull bev member)).mpr
        (unlost bev member (nonnull bev member))
  have released : ReleasedOnce m.dispatch_returns.history ↔ m.NoneLost := by
    unfold ManagerBevs.dispatch_returns
    rw [releasedOnce_append, and_iff_right sound.released, allows_free]
    by_cases dist : m.dist = true
    · obtain ⟨live, apart⟩ := sound.commander looping dist
      rw [if_pos dist, List.singleton_append, List.nodup_cons, List.forall_mem_cons, workers]
      exact ⟨fun both => both.2.2, fun unlost => ⟨⟨apart, distinct⟩, live, unlost⟩⟩
    · rw [if_neg dist, List.nil_append, and_iff_right distinct, workers]
  refine ⟨released, fun unlost => ?_⟩
  have unset : ∀ bev ∈ m.dispatch_returns.client_vec, bev = NULL := by
    intro bev member
    obtain ⟨_old, _own, null⟩ := List.mem_map.mp member
    exact null.symm
  exact
    { released := released.mpr unlost
      distinct := by
        rw [List.filter_eq_nil_iff.mpr]
        · exact List.nodup_nil
        · intro bev member
          simpa using unset bev member
      created := fun bev member set => absurd (unset bev member) set
      freed := fun bev member set => absurd (unset bev member) set
      set := by intro looping; cases looping
      commander := by intro looping; cases looping
      start := by intro constructed; cases constructed }

/-- The step lemma: the property is kept by every step but a clean-up behind a lost
connection. -/
theorem Sound.next (sound : m.Sound) {event : Event} (admitted : m.admits event) :
    Decides (m.next event) (m.CleansUpUnlost event) := by
  cases event with
  | main_event_loop bevs com_bev connects =>
      obtain ⟨constructed, _length, distinct, fresh⟩ := admitted
      exact (sound.main_event_loop constructed distinct fresh connects).decides
        (fun impossible => impossible.elim)
  | buf_ev_cb bev which =>
      obtain ⟨looping, member, live⟩ := admitted
      exact (sound.buf_ev_cb which looping member live).decides
        (fun impossible => impossible.elim)
  | read_client_cb bev => exact (sound.use admitted.2.2).decides (fun impossible => impossible.elim)
  | com_read_cb writes => exact sound.com_read_cb admitted.2.2 writes
  | com_bevent_cb_helper which com_bev connects =>
      obtain ⟨looping, dist, _live, fresh⟩ := admitted
      exact sound.com_bevent_cb_helper looping dist fresh which connects
  | read_input_file_fails => exact sound.log_err_decides.congr (imp_iff_right trivial).symm
  | dispatch_returns => exact (sound.dispatch_returns admitted).congr (imp_iff_right trivial).symm
  | destructor => exact sound.log_err_decides.congr (imp_iff_right trivial).symm

private theorem connect_commander_lost (com_bev : Ptr) (connects : Bool) (m : ManagerBevs) :
    (m.connect_commander com_bev connects).lost = m.lost := by
  unfold connect_commander
  split <;> rfl

/-- The connections that are lost, and no others, are those of the closing events. -/
theorem next_lost_iff (bev : Ptr) (m : ManagerBevs) (event : Event) :
    bev ∈ (m.next event).lost ↔
      bev ∈ m.lost ∨ ∃ which, event = .buf_ev_cb bev which ∧ which.closes = true := by
  have same : (m.next event).lost = m.lost → (∀ other which, event ≠ .buf_ev_cb other which) →
      (bev ∈ (m.next event).lost ↔
        bev ∈ m.lost ∨ ∃ which, event = .buf_ev_cb bev which ∧ which.closes = true) := by
    intro kept other
    rw [kept, or_iff_left]
    intro closing
    obtain ⟨which, is, _closes⟩ := closing
    exact other bev which is
  cases event with
  | main_event_loop bevs com_bev connects =>
      refine same ?_ (by simp)
      change (m.main_event_loop bevs com_bev connects).lost = m.lost
      unfold main_event_loop
      simp only
      split
      · exact connect_commander_lost com_bev connects _
      · rfl
  | buf_ev_cb other which =>
      change bev ∈ (m.buf_ev_cb other which).lost ↔ _
      unfold buf_ev_cb
      by_cases closes : which.closes = true
      · rw [if_pos closes, List.mem_cons, or_comm]
        apply or_congr_right
        constructor
        · intro is
          exact ⟨which, by rw [is], closes⟩
        · intro closing
          obtain ⟨_which, is, _closes⟩ := closing
          cases is
          rfl
      · rw [if_neg closes, or_iff_left]
        intro closing
        obtain ⟨_which, is, closes'⟩ := closing
        cases is
        exact closes closes'
  | read_client_cb other => exact same rfl (by simp)
  | com_read_cb writes =>
      refine same ?_ (by simp)
      change (m.com_read_cb writes).lost = m.lost
      unfold com_read_cb
      cases writes <;> rfl
  | com_bevent_cb_helper which com_bev connects =>
      refine same ?_ (by simp)
      change (m.com_bevent_cb_helper which com_bev connects).lost = m.lost
      unfold com_bevent_cb_helper
      split
      · unfold com_bevent_cb
        simp only
        split
        · rfl
        · exact connect_commander_lost com_bev connects _
      · rfl
  | read_input_file_fails => exact same rfl (by simp)
  | dispatch_returns => exact same rfl (by simp)
  | destructor => exact same rfl (by simp)

theorem lost_iff {final : ManagerBevs} {events : List Event} (run : Run m events final)
    (bev : Ptr) :
    bev ∈ final.lost ↔
      bev ∈ m.lost ∨ ∃ event ∈ events, ∃ which, event = .buf_ev_cb bev which ∧
        which.closes = true := by
  apply Runs.Run.marked_iff (fun m => bev ∈ m.lost)
    (fun event => ∃ which, event = .buf_ev_cb bev which ∧ which.closes = true) _ run
  intro m event next stepped
  rw [← Except.ok.inj stepped]
  exact next_lost_iff bev m event

theorem Sound.allStates_iff (sound : m.Sound) {final : ManagerBevs} {events : List Event}
    (run : Run m events final) :
    AllStates step (fun m => ReleasedOnce m.history) m events ↔
      AllSteps step CleansUpUnlost m events := by
  refine run.allStates_iff_allSteps (fun _ sound => sound.released) ?_ ?_ sound
  · intro m event next sound admitted stepped
    rw [← Except.ok.inj stepped]
    exact (sound.next admitted).1
  · intro m event next sound admitted stepped good
    rw [← Except.ok.inj stepped]
    exact (sound.next admitted).2 good

end steps

end ManagerBevs

end LDPlayer
