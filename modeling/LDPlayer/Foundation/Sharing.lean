/-
Distribution of messages among targets over first-in first-out channels.

A distributor first announces itself to its targets and then hands every message
to the one target that a partial route gives its source.  The route grows while
it works.  What a target was handed is the announcement and then its share of
the messages, in their order.  A share of a share is again a share, so two
distributors in a row are one.
-/
import Mathlib

set_option autoImplicit false

namespace Sharing

variable {Source Middle Target Message Frame : Type}

/-! ### Channels -/

structure Channel (Frame : Type) where
  received : List Frame := []
  inFlight : List Frame := []

namespace Channel

def sent (channel : Channel Frame) : List Frame := channel.received ++ channel.inFlight

def send (frames : List Frame) (channel : Channel Frame) : Channel Frame :=
  { channel with inFlight := channel.inFlight ++ frames }

def receive (channel : Channel Frame) : Channel Frame :=
  match channel.inFlight with
  | [] => channel
  | frame :: rest => { received := channel.received ++ [frame], inFlight := rest }

@[simp] theorem sent_send (frames : List Frame) (channel : Channel Frame) :
    (channel.send frames).sent = channel.sent ++ frames := by
  simp only [sent, send, List.append_assoc]

@[simp] theorem sent_receive (channel : Channel Frame) : channel.receive.sent = channel.sent := by
  unfold receive
  split
  · rfl
  next frame rest waiting =>
    simp only [sent, waiting, List.append_assoc, List.singleton_append]

theorem receive_cons {channel : Channel Frame} {frame : Frame} {rest : List Frame}
    (waiting : channel.inFlight = frame :: rest) :
    channel.receive = { received := channel.received ++ [frame], inFlight := rest } := by
  unfold receive
  rw [waiting]

theorem received_front (channel : Channel Frame) : channel.received <+: channel.sent :=
  List.prefix_append _ _

theorem received_of_empty {channel : Channel Frame} (empty : channel.inFlight = []) :
    channel.received = channel.sent := by
  rw [sent, empty, List.append_nil]

end Channel

def addressed [DecidableEq Target] (target : Target) (writes : List (Target × Frame)) :
    List Frame :=
  writes.filterMap (fun write => if write.1 = target then some write.2 else none)

def sendAll [DecidableEq Target] (writes : List (Target × Frame))
    (channels : Target → Channel Frame) (target : Target) : Channel Frame :=
  (channels target).send (addressed target writes)

def receiveAt [DecidableEq Target] (target : Target) (channels : Target → Channel Frame) :
    Target → Channel Frame :=
  Function.update channels target (channels target).receive

def waiting (targets : Finset Target) (channels : Target → Channel Frame) : Nat :=
  ∑ target ∈ targets, (channels target).inFlight.length

section Addressed

variable [DecidableEq Target]

@[simp] theorem sent_sendAll (writes : List (Target × Frame)) (channels : Target → Channel Frame)
    (target : Target) :
    (sendAll writes channels target).sent = (channels target).sent ++ addressed target writes :=
  Channel.sent_send _ _

@[simp] theorem sent_receiveAt (target : Target) (channels : Target → Channel Frame)
    (other : Target) : (receiveAt target channels other).sent = (channels other).sent := by
  unfold receiveAt
  by_cases same : other = target
  · subst same
    rw [Function.update_self, Channel.sent_receive]
  · rw [Function.update_of_ne same]

theorem receiveAt_of_ne {target other : Target} (different : other ≠ target)
    (channels : Target → Channel Frame) : receiveAt target channels other = channels other :=
  Function.update_of_ne different _ _

theorem received_receiveAt {target : Target} {channels : Target → Channel Frame} {frame : Frame}
    {rest : List Frame} (next : (channels target).inFlight = frame :: rest) :
    (receiveAt target channels target).received = (channels target).received ++ [frame] := by
  rw [receiveAt, Function.update_self, Channel.receive_cons next]

theorem waiting_receiveAt {targets : Finset Target} {channels : Target → Channel Frame}
    {target : Target} (member : target ∈ targets) (some_frame : (channels target).inFlight ≠ []) :
    waiting targets (receiveAt target channels) < waiting targets channels := by
  obtain ⟨frame, rest, next⟩ := List.exists_cons_of_ne_nil some_frame
  have shorter : (receiveAt target channels target).inFlight.length <
      (channels target).inFlight.length := by
    rw [receiveAt, Function.update_self, Channel.receive_cons next, next, List.length_cons]
    exact Nat.lt_succ_self _
  apply Finset.sum_lt_sum
  · intro other _member
    by_cases same : other = target
    · subst same
      exact Nat.le_of_lt shorter
    · rw [receiveAt_of_ne same]
  · exact ⟨target, member, shorter⟩

theorem addressed_append (target : Target) (first second : List (Target × Frame)) :
    addressed target (first ++ second) = addressed target first ++ addressed target second :=
  List.filterMap_append

theorem addressed_single (target other : Target) (frame : Frame) :
    addressed target [(other, frame)] = if other = target then [frame] else [] := by
  unfold addressed
  by_cases same : other = target
  · simp only [List.filterMap_cons, List.filterMap_nil, if_pos same]
  · simp only [List.filterMap_cons, List.filterMap_nil, if_neg same]

theorem addressed_broadcast {targets : List Target} (distinct : targets.Nodup) (frame : Frame)
    (target : Target) :
    addressed target (targets.map (fun other => (other, frame))) =
      if target ∈ targets then [frame] else [] := by
  induction targets with
  | nil => rfl
  | cons head rest ih =>
      obtain ⟨notInRest, distinctRest⟩ := List.nodup_cons.mp distinct
      rw [List.map_cons, ← List.singleton_append, addressed_append, addressed_single,
        ih distinctRest]
      by_cases same : head = target
      · subst same
        rw [if_pos rfl, if_neg notInRest, if_pos List.mem_cons_self]
        rfl
      · rw [if_neg same, List.nil_append]
        have iff : target ∈ head :: rest ↔ target ∈ rest := by
          rw [List.mem_cons]
          exact or_iff_right (fun equal => same equal.symm)
        simp only [iff]

theorem map_addressed_single (parse : Frame → Message) (target other : Target) (frame : Frame) :
    (addressed target [(other, frame)]).map parse =
      if other = target then [parse frame] else [] := by
  rw [addressed_single]
  by_cases same : other = target
  · rw [if_pos same, if_pos same, List.map_cons, List.map_nil]
  · rw [if_neg same, if_neg same, List.map_nil]

theorem map_addressed_broadcast {targets : List Target} (distinct : targets.Nodup)
    (parse : Frame → Message) (frame : Frame) (target : Target) :
    (addressed target (targets.map (fun other => (other, frame)))).map parse =
      if target ∈ targets then [parse frame] else [] := by
  rw [addressed_broadcast distinct]
  by_cases member : target ∈ targets
  · rw [if_pos member, if_pos member, List.map_cons, List.map_nil]
  · rw [if_neg member, if_neg member, List.map_nil]

/-- The writes of one distributor of many reach its own targets. -/
theorem addressed_at [DecidableEq Middle] (middle other : Middle) (target : Target)
    (writes : List (Target × Frame)) :
    addressed (other, target) (writes.map (fun write => ((middle, write.1), write.2))) =
      if other = middle then addressed target writes else [] := by
  unfold addressed
  rw [List.filterMap_map]
  by_cases same : other = middle
  · subst same
    rw [if_pos rfl]
    apply List.filterMap_congr
    intro write _member
    simp only [Function.comp_apply, Prod.mk.injEq, true_and]
  · rw [if_neg same]
    apply List.filterMap_eq_nil_iff.mpr
    intro write _member
    simp only [Function.comp_apply, Prod.mk.injEq, Ne.symm same, false_and, if_false]

end Addressed

/-! ### Shares -/

def through (outer : Source → Option Middle) (inner : Middle → Source → Option Target)
    (key : Source) : Option (Middle × Target) :=
  match outer key with
  | none => none
  | some middle => (inner middle key).map (fun target => (middle, target))

theorem through_eq_some {outer : Source → Option Middle}
    {inner : Middle → Source → Option Target} {key : Source} {middle : Middle}
    {target : Target} :
    through outer inner key = some (middle, target) ↔
      outer key = some middle ∧ inner middle key = some target := by
  unfold through
  cases chosen : outer key with
  | none => simp
  | some other =>
      rw [Option.map_eq_some_iff]
      constructor
      · intro mapped
        obtain ⟨image, found, same⟩ := mapped
        obtain ⟨rfl, rfl⟩ := Prod.mk.inj same
        exact ⟨rfl, found⟩
      · intro both
        obtain ⟨same, found⟩ := both
        obtain rfl := Option.some.inj same
        exact ⟨target, found, rfl⟩

section Shares

variable [DecidableEq Target]

/-- The messages whose source has this target. -/
def share (source : Message → Source) (route : Source → Option Target) (target : Target)
    (messages : List Message) : List Message :=
  messages.filter (fun message => route (source message) = some target)

variable {source : Message → Source} {route later : Source → Option Target}

theorem mem_share {target : Target} {messages : List Message} {message : Message} :
    message ∈ share source route target messages ↔
      message ∈ messages ∧ route (source message) = some target := by
  rw [share, List.mem_filter, decide_eq_true_eq]

private theorem share_append (target : Target) (first second : List Message) :
    share source route target (first ++ second) =
      share source route target first ++ share source route target second :=
  List.filter_append _ _

theorem share_front {first messages : List Message} (isPrefix : first <+: messages)
    (target : Target) :
    share source route target first <+: share source route target messages :=
  isPrefix.filter _

private theorem share_congr {target : Target} {messages : List Message}
    (agree : ∀ message ∈ messages, later (source message) = route (source message)) :
    share source later target messages = share source route target messages := by
  apply List.filter_congr
  intro message member
  rw [agree message member]

theorem share_share [DecidableEq Middle] (outer : Source → Option Middle)
    (inner : Middle → Source → Option Target) (middle : Middle) (target : Target)
    (messages : List Message) :
    share source (inner middle) target (share source outer middle messages) =
      share source (through outer inner) (middle, target) messages := by
  unfold share
  rw [List.filter_filter]
  apply List.filter_congr
  intro message _member
  rw [← Bool.decide_and, decide_eq_decide, through_eq_some, and_comm]

end Shares

/-! ### What a distributor has handed out -/

section Handed

variable [DecidableEq Target]

/-- What the targets were handed for the messages taken so far. -/
structure Shared (source : Message → Source) (route : Source → Option Target)
    (announced : Option Message) (taken : List Message) (handed : Target → List Message) :
    Prop where
  silent : announced = none → taken = []
  routed : ∀ message ∈ taken, ∃ target, route (source message) = some target
  each : ∀ target, (handed target = [] ∧ share source route target taken = []) ∨
    ∃ first, announced = some first ∧ handed target = first :: share source route target taken

variable {source : Message → Source} {route later : Source → Option Target}
variable {announced : Option Message} {taken : List Message} {handed : Target → List Message}

theorem Shared.start : Shared source route none ([] : List Message) (fun _ : Target => []) where
  silent := fun _ => rfl
  routed := by intro message member; cases member
  each := fun _ => Or.inl ⟨rfl, rfl⟩

theorem Shared.handed_nil (shared : Shared source route none taken handed) (target : Target) :
    handed target = [] := by
  rcases shared.each target with ⟨empty, _nothing⟩ | ⟨first, impossible, _rest⟩
  · exact empty
  · cases impossible

theorem Shared.announce (shared : Shared source route none taken handed) (first : Message)
    (targets : List Target) :
    Shared source route (some first) taken
      (fun target => handed target ++ if target ∈ targets then [first] else []) := by
  obtain rfl := shared.silent rfl
  refine ⟨?_, ?_, ?_⟩
  · intro impossible
    cases impossible
  · intro message member
    cases member
  · intro target
    rw [shared.handed_nil target, List.nil_append]
    by_cases member : target ∈ targets
    · exact Or.inr ⟨first, rfl, if_pos member⟩
    · exact Or.inl ⟨if_neg member, rfl⟩

theorem Shared.extend (shared : Shared source route announced taken handed)
    (extends_route : ∀ key target, route key = some target → later key = some target) :
    Shared source later announced taken handed := by
  have agree : ∀ message ∈ taken, later (source message) = route (source message) := by
    intro message member
    obtain ⟨target, found⟩ := shared.routed message member
    rw [found, extends_route _ _ found]
  refine ⟨shared.silent, ?_, ?_⟩
  · intro message member
    obtain ⟨target, found⟩ := shared.routed message member
    exact ⟨target, extends_route _ _ found⟩
  · intro target
    rw [share_congr agree]
    exact shared.each target

theorem Shared.assign (shared : Shared source route announced taken handed)
    (extends_route : ∀ key target, route key = some target → later key = some target)
    {message : Message} {target : Target} (chosen : later (source message) = some target)
    (heard : handed target ≠ []) :
    Shared source later announced (taken ++ [message])
      (fun other => handed other ++ if target = other then [message] else []) := by
  have extended := shared.extend extends_route
  refine ⟨?_, ?_, ?_⟩
  · intro none
    rcases shared.each target with ⟨empty, _nothing⟩ | ⟨first, same, _rest⟩
    · exact absurd empty heard
    · rw [none] at same
      cases same
  · intro other member
    rcases List.mem_append.mp member with old | last
    · exact extended.routed other old
    · rw [List.mem_singleton.mp last]
      exact ⟨target, chosen⟩
  · intro other
    rw [share_append]
    by_cases same : target = other
    · subst same
      have own : share source later target [message] = [message] := by
        simp only [share, chosen, decide_true, List.filter_cons_of_pos, List.filter_nil]
      rw [own, if_pos rfl]
      rcases extended.each target with ⟨empty, _nothing⟩ | ⟨first, told, rest⟩
      · exact absurd empty heard
      · exact Or.inr ⟨first, told, by rw [rest, List.cons_append]⟩
    · have foreign : share source later other [message] = [] := by
        simp only [share, chosen, Option.some.injEq, same, decide_false,
          Bool.false_eq_true, not_false_eq_true, List.filter_cons_of_neg, List.filter_nil]
      rw [foreign, if_neg same, List.append_nil, List.append_nil]
      exact extended.each other

/-- What a target has received begins with the announcement, and goes on with
the front of its share. -/
theorem Shared.received (shared : Shared source route announced taken handed) {target : Target}
    {log : List Message} (isPrefix : log <+: handed target) :
    log = [] ∨ ∃ first rest, announced = some first ∧ log = first :: rest ∧
      rest <+: share source route target taken := by
  rcases shared.each target with ⟨empty, _nothing⟩ | ⟨first, told, whole⟩
  · rw [empty, List.prefix_nil] at isPrefix
    exact Or.inl isPrefix
  · rw [whole] at isPrefix
    rcases List.prefix_cons_iff.mp isPrefix with nothing | ⟨rest, same, front⟩
    · exact Or.inl nothing
    · exact Or.inr ⟨first, rest, told, same, front⟩

end Handed

end Sharing
