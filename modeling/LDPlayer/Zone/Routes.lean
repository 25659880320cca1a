/-
Where the records of a capture go.

Each record of a response goes to one zone of the server it came from: the one that
encloses its owner with the most labels.  It goes nowhere exactly if no zone of that
server encloses it.  The messages of a directory are taken in the order of their
numbers, when all zones of the directory have been made.
-/
import LDPlayer.Zone.Delegations
import LDPlayer.Zone.Directories
import LDPlayer.Zone.Enclosing
import LDPlayer.Zone.Views

set_option autoImplicit false

namespace LDPlayer

open Text DomainName Actions HashTable

namespace Converter

variable {Data : Type} {dns : Dnspython Data} {order : Order}

/-! ### The closest zone -/

/-- Of the zones of a server, the one that encloses the owner with the most labels. -/
def Closest (serves : Bytes → Bytes → Prop) (src_ip owner : Bytes) : Option Bytes → Prop
  | none => ∀ n, serves src_ip n → ¬ Below n (lower owner)
  | some n => serves src_ip n ∧ Below n (lower owner) ∧
      ∀ m, serves src_ip m → Below m (lower owner) → count m ≤ count n

/-- Records with their servers, and the calls that they make. -/
inductive Routed (serves : Bytes → Bytes → Prop) :
    List (Bytes × Bytes) → List (Bytes × Bytes) → Prop
  | done : Routed serves [] []
  | next {src_ip line owner : Bytes} {found : Option Bytes} {rest calls : List (Bytes × Bytes)}
      (begins : (words line)[0]? = some owner) (closest : Closest serves src_ip owner found)
      (others : Routed serves rest calls) :
      Routed serves ((src_ip, line) :: rest)
        ((found.map (fun n => (n, line))).toList ++ calls)

theorem Routed.append {serves : Bytes → Bytes → Prop}
    {front rest calls later : List (Bytes × Bytes)}
    (first : Routed serves front calls) (second : Routed serves rest later) :
    Routed serves (front ++ rest) (calls ++ later) := by
  induction first with
  | done => exact second
  | next begins closest _others ih =>
      rw [List.append_assoc]
      exact .next begins closest ih

def AbsoluteNames (c : Converter Data) : Prop := ∀ a z, Serves c a z → Absolute z

def AbsoluteOwner (line : Bytes) : Prop :=
  ∀ owner, (words line)[0]? = some owner → Absolute owner

theorem serves_of_same {c next : Converter Data} (same : next.addr2name = c.addr2name) :
    Serves next = Serves c := by
  unfold Serves
  rw [same]

private theorem find_zone_closest_to {c next : Converter Data} {src_ip owner : Bytes}
    {found : Option Bytes} (indexed : Indexed c) (names : AbsoluteNames c)
    (absolute : Absolute owner) (ended : find_zone order src_ip owner c = .ok found next) :
    next = c ∧ Closest (Serves c) src_ip owner found := by
  unfold find_zone at ended
  cases listed : c.addr2name.lookup src_ip with
  | none =>
      rw [listed] at ended
      cases ended
  | some all =>
      rw [listed] at ended
      have through : ∀ n, n ∈ order.through all ↔ Serves c src_ip n := by
        intro n
        rw [(order.perm all).mem_iff]
        constructor
        · exact fun member => ⟨all, listed, member⟩
        · rintro ⟨others, same, member⟩
          rw [Option.some.inj (listed.symm.trans same)]
          exact member
      have known : ∀ n ∈ order.through all, n ∈ c.name2zone := by
        intro n member
        obtain ⟨zone, is, _own⟩ := (indexed.agree src_ip n).mp ((through n).mp member)
        exact mem_iff_lookup.mpr ⟨zone, is⟩
      have start : Longest (lower owner) [] none :=
        fun m member => absurd member List.not_mem_nil
      obtain ⟨longest, finds, is_longest⟩ := find_zone_loop_longest absolute.lower known start
      rw [List.nil_append] at is_longest
      obtain ⟨same, stays⟩ := ok_of_value ended
      obtain rfl : longest = found := Except.ok.inj (finds.symm.trans same)
      refine ⟨stays, ?_⟩
      cases longest with
      | none =>
          intro n serves
          exact is_longest n ((through n).mpr serves)
      | some n =>
          obtain ⟨member, below, most⟩ := (is_longest.closest_iff
            (fun m member => names src_ip m ((through m).mp member)) n).mp rfl
          exact ⟨(through n).mp member, below,
            fun m serves => most m ((through m).mpr serves)⟩

/-! ### What is pushed -/

structure Ready (c : Converter Data) : Prop where
  built : Built [] c
  names : AbsoluteNames c

structure Pushes (lines : List (Bytes × Bytes)) (c next : Converter Data) : Prop where
  ready : Ready next
  zones : ∀ z, z ∈ next.name2zone ↔ z ∈ c.name2zone
  same : next.addr2name = c.addr2name
  calls : ∃ pushed, next.calls = c.calls ++ pushed ∧ Routed (Serves c) lines pushed

theorem Pushes.refl {c : Converter Data} (ready : Ready c) : Pushes [] c c :=
  ⟨ready, fun _z => Iff.rfl, rfl, [], (List.append_nil c.calls).symm, .done⟩

theorem Pushes.trans {front rest : List (Bytes × Bytes)} {c middle next : Converter Data}
    (first : Pushes front c middle) (second : Pushes rest middle next) :
    Pushes (front ++ rest) c next := by
  obtain ⟨pushed, calls, routed⟩ := first.calls
  obtain ⟨later, calls', routed'⟩ := second.calls
  rw [serves_of_same first.same] at routed'
  refine ⟨second.ready, fun z => (second.zones z).trans (first.zones z),
    second.same.trans first.same, pushed ++ later, ?_, routed.append routed'⟩
  rw [calls', calls, List.append_assoc]

theorem Pushes.each {Item : Type} {body : Item → Action Data Unit}
    {lines : Item → List (Bytes × Bytes)} {items : List Item}
    (step : ∀ item ∈ items, ∀ c next, Ready c → body item c = .ok () next →
      Pushes (lines item) c next)
    {c next : Converter Data} (ready : Ready c) (ended : Actions.each body items c = .ok () next) :
    Pushes (items.flatMap lines) c next := by
  induction items generalizing c with
  | nil =>
      cases ended
      exact Pushes.refl ready
  | cons item rest ih =>
      rw [each_cons] at ended
      cases result : body item c with
      | error stop middle =>
          rw [result] at ended
          cases ended
      | ok done middle =>
          rw [result] at ended
          have first := step item List.mem_cons_self c middle ready result
          rw [List.flatMap_cons]
          exact first.trans (ih (fun other member => step other (List.mem_cons_of_mem item member))
            first.ready ended)

theorem add_record_calls {has_class : Bool} {z l : Bytes} {c next : Converter Data}
    (ended : add_record dns has_class z l c = .ok () next) :
    next.calls = c.calls ++ [(z, l)] ∧ next.addr2name = c.addr2name := by
  unfold add_record at ended
  split at ended
  · cases ended
  · simp only at ended
    split at ended
    · cases ended
    · cases ended
      exact ⟨rfl, rfl⟩

private theorem push_record_pushes {src_ip line : Bytes} (absolute : AbsoluteOwner line)
    {c next : Converter Data} (ready : Ready c)
    (ended : push_record dns order src_ip line c = .ok () next) :
    Pushes [(src_ip, line)] c next := by
  have built : Built [] next :=
    ((push_record_built c ready.built).1 () next ended : Built [] next)
  obtain ⟨owner, c1, first, rest⟩ := ok_of_bind ended
  obtain ⟨begins, rfl⟩ := ok_of_value first
  obtain ⟨found, c2, finds, last⟩ := ok_of_bind rest
  have is_owner := DNSZone.word_ok begins
  obtain ⟨rfl, closest⟩ := find_zone_closest_to ready.built.indexed ready.names
    (absolute owner is_owner) finds
  have route := Routed.next is_owner closest .done
  rw [List.append_nil] at route
  cases found with
  | none =>
      cases last
      exact ⟨ready, fun _z => Iff.rfl, rfl, [], (List.append_nil _).symm, route⟩
  | some n =>
      obtain ⟨calls, same⟩ := add_record_calls last
      refine ⟨⟨built, ?_⟩, fun z => ((add_record_grows last).zones z).trans (iff_of_eq (or_false _)), same,
        [(n, line)], calls, route⟩
      intro a z serves
      rw [serves_of_same same] at serves
      exact ready.names a z serves

def DNSMessage.lines (msg : DNSMessage) : List (Bytes × Bytes) :=
  (msg.answer ++ msg.authority ++ msg.additional).flatMap
    (fun rrset => rrset.to_text.map (fun line => (msg.src_ip, line)))

def AbsoluteOwners (msg : DNSMessage) : Prop :=
  ∀ entry ∈ DNSMessage.lines msg, AbsoluteOwner entry.2

private theorem push_zone_pushes {src_ip : Bytes} {rrsets : List RRset}
    (absolute : ∀ rrset ∈ rrsets, ∀ line ∈ rrset.to_text, AbsoluteOwner line)
    {c next : Converter Data} (ready : Ready c)
    (ended : push_zone dns order src_ip rrsets c = .ok () next) :
    Pushes (rrsets.flatMap (fun rrset => rrset.to_text.map (fun line => (src_ip, line))))
      c next := by
  refine Pushes.each ?_ ready ended
  intro rrset member c next ready ended
  have lines : rrset.to_text.flatMap (fun line => [(src_ip, line)]) =
      rrset.to_text.map (fun line => (src_ip, line)) := List.map_eq_flatMap.symm
  rw [← lines]
  refine Pushes.each ?_ ready ended
  intro line within c next ready ended
  exact push_record_pushes (absolute rrset member line within) ready ended

private theorem push_zones_pushes {msg : DNSMessage} (absolute : AbsoluteOwners msg)
    {c next : Converter Data} (ready : Ready c)
    (ended : push_zones dns order msg c = .ok () next) :
    Pushes (DNSMessage.lines msg) c next := by
  have owners : ∀ rrset ∈ msg.answer ++ msg.authority ++ msg.additional,
      ∀ line ∈ rrset.to_text, AbsoluteOwner line := by
    intro rrset member line within
    exact absolute (msg.src_ip, line)
      (List.mem_flatMap.mpr ⟨rrset, member, List.mem_map_of_mem within⟩)
  obtain ⟨_, c1, answer, then1⟩ := ok_of_bind ended
  obtain ⟨_, c2, authority, additional⟩ := ok_of_bind then1
  have first := push_zone_pushes (fun rrset member => owners rrset
    (List.mem_append_left _ (List.mem_append_left _ member))) ready answer
  have second := push_zone_pushes (fun rrset member => owners rrset
    (List.mem_append_left _ (List.mem_append_right _ member))) first.ready authority
  have third := push_zone_pushes (fun rrset member => owners rrset
    (List.mem_append_right _ member)) second.ready additional
  unfold DNSMessage.lines
  rw [List.flatMap_append, List.flatMap_append]
  exact (first.trans second).trans third

/-! ### What is created -/

/-- The calls of `next` are those of `c` and then others, which are these. -/
def Gains (made : Bytes × Bytes → Prop) (c next : Converter Data) : Prop :=
  ∃ added, next.calls = c.calls ++ added ∧ ∀ call, call ∈ added ↔ made call

section gains

variable {made made' : Bytes × Bytes → Prop} {c middle next : Converter Data}

theorem Gains.of_same (same : next.calls = c.calls) : Gains (fun _call => False) c next :=
  ⟨[], same.trans (List.append_nil c.calls).symm, fun _call =>
    ⟨fun member => absurd member List.not_mem_nil, False.elim⟩⟩

theorem Gains.trans (first : Gains made c middle) (second : Gains made' middle next) :
    Gains (fun call => made call ∨ made' call) c next := by
  obtain ⟨added, calls, are⟩ := first
  obtain ⟨later, calls', are'⟩ := second
  refine ⟨added ++ later, ?_, ?_⟩
  · rw [calls', calls, List.append_assoc]
  · intro call
    rw [List.mem_append, are, are']

theorem Gains.congr (gains : Gains made c next) (same : ∀ call, made call ↔ made' call) :
    Gains made' c next := by
  obtain ⟨added, calls, are⟩ := gains
  exact ⟨added, calls, fun call => (are call).trans (same call)⟩

theorem Gains.each {Item : Type} {body : Item → Action Data Unit}
    {made : Item → Bytes × Bytes → Prop} {items : List Item}
    (step : ∀ item ∈ items, ∀ c next, body item c = .ok () next → Gains (made item) c next)
    (ended : Actions.each body items c = .ok () next) :
    Gains (fun call => ∃ item ∈ items, made item call) c next := by
  induction items generalizing c with
  | nil =>
      cases ended
      exact (Gains.of_same rfl).congr (by simp)
  | cons item rest ih =>
      rw [each_cons] at ended
      cases result : body item c with
      | error stop middle =>
          rw [result] at ended
          cases ended
      | ok done middle =>
          rw [result] at ended
          have first := step item List.mem_cons_self c middle result
          have later := ih (fun other member => step other (List.mem_cons_of_mem item member)) ended
          exact (first.trans later).congr (by simp)

end gains

section created

variable {rrs : DNSZone Data} {c next : Converter Data}

private theorem add_name2zone_calls {name : Bytes}
    (ended : add_name2zone dns name c = .ok () next) :
    next.calls = c.calls := by
  unfold add_name2zone at ended
  split at ended
  · cases ended
    rfl
  · split at ended
    · cases ended
    · cases ended
      rfl

private theorem zone_address_calls {z a : Bytes} (ended : zone_address z a c = .ok () next) :
    next.calls = c.calls := by
  obtain ⟨_, middle, first, second⟩ := ok_of_bind ended
  cases second
  unfold add_address at first
  split at first
  · cases first
  · cases first
    rfl

private theorem addresses_gain {z : Bytes} {records : List Bytes}
    (ended : each (zone_address z) records c = .ok () next) :
    Gains (fun _call => False) c next :=
  (Gains.each (fun _a _member _c _next ended => Gains.of_same (zone_address_calls ended))
    ended).congr (by simp)

private theorem add_records_gain {z : Bytes} {records : List Bytes}
    (ended : each (add_record dns true z) (order.through records) c = .ok () next) :
    Gains (fun call => call.1 = z ∧ call.2 ∈ records) c next := by
  have step : ∀ l ∈ order.through records, ∀ c next : Converter Data,
      add_record dns true z l c = .ok () next → Gains (fun call => call = (z, l)) c next := by
    intro l _member c next ended
    exact ⟨[(z, l)], (add_record_calls ended).1, fun call => List.mem_singleton⟩
  refine (Gains.each step ended).congr ?_
  intro call
  constructor
  · rintro ⟨l, member, rfl⟩
    exact ⟨rfl, (order.perm records).subset member⟩
  · rintro ⟨rfl, member⟩
    exact ⟨call.2, (order.perm records).symm.subset member, rfl⟩

def HasLine (dns : Dnspython Data) (rrs : DNSZone Data) (name rt line : Bytes) : Prop :=
  ∃ records, rrs.get_rrset_str dns name rt = .ok records ∧ line ∈ records

/-- A server of a zone adds the NS records of the zone, and its own addresses if it is
in the zone. -/
def CreatesAt (dns : Dnspython Data) (rrs : DNSZone Data) (name rd : Bytes)
    (call : Bytes × Bytes) : Prop :=
  call.1 = lower name ∧ (HasLine dns rrs (lower name) (ascii "NS") call.2 ∨
    (lower rd = lower name ∨ endswith (lower rd) (lower name) = true) ∧
      (HasLine dns rrs (lower rd) (ascii "A") call.2 ∨
        HasLine dns rrs (lower rd) (ascii "AAAA") call.2))

private theorem lines_gain {z name rt : Bytes} {records : List Bytes}
    (given : rrs.get_rrset_str dns name rt = .ok records)
    (ended : each (add_record dns true z) (order.through records) c = .ok () next) :
    Gains (fun call => call.1 = z ∧ HasLine dns rrs name rt call.2) c next := by
  refine (add_records_gain ended).congr ?_
  intro call
  unfold HasLine
  rw [given]
  constructor
  · rintro ⟨same, member⟩
    exact ⟨same, records, rfl, member⟩
  · rintro ⟨same, others, is, member⟩
    rw [Except.ok.inj is]
    exact ⟨same, member⟩

private theorem create_zone_server_gains {name rd : Bytes}
    (ended : create_zone_server dns order rrs name rd c = .ok () next) :
    Gains (CreatesAt dns rrs name rd) c next := by
  obtain ⟨_, c1, zone, then1⟩ := ok_of_bind ended
  obtain ⟨a_records, c2, read_a, then2⟩ := ok_of_bind then1
  obtain ⟨_given_a, same2⟩ := ok_of_value read_a
  obtain ⟨_, c3, first, then3⟩ := ok_of_bind then2
  obtain ⟨aaaa_records, c4, read_aaaa, then4⟩ := ok_of_bind then3
  obtain ⟨_given_aaaa, same4⟩ := ok_of_value read_aaaa
  obtain ⟨_, c5, second, then5⟩ := ok_of_bind then4
  obtain ⟨ns_records, c6, read_ns, then6⟩ := ok_of_bind then5
  obtain ⟨given_ns, same6⟩ := ok_of_value read_ns
  obtain ⟨_, c7, third, then7⟩ := ok_of_bind then6
  rw [same2] at first
  rw [same4] at second
  rw [same6] at third
  have made := (((Gains.of_same (add_name2zone_calls zone)).trans (addresses_gain first)).trans
    (addresses_gain second)).trans (lines_gain given_ns third)
  split at then7
  · rename_i own
    obtain ⟨a_lines, c8, read_lines, then8⟩ := ok_of_bind then7
    obtain ⟨given, same8⟩ := ok_of_value read_lines
    obtain ⟨_, c9, fourth, then9⟩ := ok_of_bind then8
    obtain ⟨aaaa_lines, c10, read_lines', fifth⟩ := ok_of_bind then9
    obtain ⟨given', same10⟩ := ok_of_value read_lines'
    rw [same8] at fourth
    rw [same10] at fifth
    refine ((made.trans (lines_gain given fourth)).trans (lines_gain given' fifth)).congr ?_
    intro call
    unfold CreatesAt
    simp only [own, true_and, false_or, and_or_left, or_assoc]
  · rename_i foreign
    cases then7
    refine made.congr ?_
    intro call
    unfold CreatesAt
    simp only [foreign, false_and, false_or, or_false]

/-- What the NS records of the answer and authority sections add to their zones. -/
def Creates (dns : Dnspython Data) (directory : Directory Data) (call : Bytes × Bytes) : Prop :=
  ∃ entry ∈ directory.dns_msg, ∃ rrset ∈ entry.2.answer ++ entry.2.authority,
    rrset.rdtype = RRset.NS ∧ ∃ rd ∈ rrset.rds, CreatesAt dns directory.rrs rrset.name rd call

private theorem create_zone_gains {rrsets : List RRset}
    (ended : create_zone dns order rrs rrsets c = .ok () next) :
    Gains (fun call => ∃ rrset ∈ rrsets, rrset.rdtype = RRset.NS ∧
      ∃ rd ∈ rrset.rds, CreatesAt dns rrs rrset.name rd call) c next := by
  refine Gains.each ?_ ended
  intro rrset _member c next ended
  split at ended
  · rename_i delegates
    refine (Gains.each (fun rd _within c next => create_zone_server_gains) ended).congr ?_
    exact fun call => (and_iff_right delegates).symm
  · rename_i other
    cases ended
    exact (Gains.of_same rfl).congr fun call => ⟨False.elim, fun both => other both.1⟩

private theorem create_zones_gain {directory : Directory Data}
    (ended : each (fun entry => create_zones dns order directory.rrs entry.2) directory.dns_msg c =
      .ok () next) : Gains (Creates dns directory) c next := by
  refine Gains.each ?_ ended
  intro entry _member c next ended
  obtain ⟨_, c1, answer, then1⟩ := ok_of_bind ended
  obtain ⟨_, c2, authority, again⟩ := ok_of_bind then1
  refine (((create_zone_gains answer).trans (create_zone_gains authority)).trans
    (create_zone_gains again)).congr ?_
  intro call
  simp only [List.mem_append, or_and_right, exists_or]
  exact or_iff_left_of_imp Or.inl

end created

/-! ### Directories -/

structure InOrder (dns_msg : List (Bytes × DNSMessage)) (ks : List (Int × DNSMessage)) : Prop where
  sorted : ks.Pairwise (fun left right => left.1 ≤ right.1)
  messages : ∃ keyed, List.Forall₂
      (fun entry key => int entry.1 = .ok key.1 ∧ key.2 = entry.2) dns_msg keyed ∧ ks.Perm keyed

private theorem sort_messages_ok {dns_msg : List (Bytes × DNSMessage)}
    {ks : List (Int × DNSMessage)}
    (ended : sort_messages dns_msg = .ok ks) : InOrder dns_msg ks := by
  have total : Std.Total (fun left right : Int × DNSMessage => left.1 ≤ right.1) :=
    ⟨fun left right => le_total left.1 right.1⟩
  have transitive : IsTrans (Int × DNSMessage) (fun left right => left.1 ≤ right.1) :=
    ⟨fun _left _middle _right => le_trans⟩
  obtain ⟨keyed, mapped, rfl⟩ := Folds.map_ok ended
  refine ⟨List.pairwise_insertionSort _ keyed, keyed, ?_, List.perm_insertionSort _ keyed⟩
  refine (Folds.mapM_ok_iff.mp mapped).imp ?_
  intro entry key found
  obtain ⟨number, is, rfl⟩ := Folds.map_ok found
  exact ⟨is, rfl⟩

/-- The zones and the records of a directory are absolute names without escaped dots. -/
structure Directory.Absolute (directory : Directory Data) : Prop where
  names : ∀ entry ∈ directory.dns_msg, ∀ rrset ∈ entry.2.answer ++ entry.2.authority,
    rrset.rdtype = RRset.NS → DomainName.Absolute (lower rrset.name)
  owners : ∀ entry ∈ directory.dns_msg, AbsoluteOwners entry.2

/-- What a directory adds: zones and servers for the NS records of its answer and
authority sections, and with the servers known then every record in its zone. -/
structure Processed (dns : Dnspython Data) (directory : Directory Data) (c next : Converter Data) :
    Prop where
  zones : Grows
    (fun z => ∃ entry ∈ directory.dns_msg, ∃ rrset ∈ entry.2.answer ++ entry.2.authority,
      Makes rrset z)
    (fun a z => ∃ entry ∈ directory.dns_msg, ∃ rrset ∈ entry.2.answer ++ entry.2.authority,
      MakesServe dns directory.rrs rrset a z) c next
  calls : ∃ created ks pushed, next.calls = c.calls ++ created ++ pushed ∧
    (∀ call, call ∈ created ↔ Creates dns directory call) ∧ InOrder directory.dns_msg ks ∧
    Routed (Serves next) (ks.flatMap (fun entry => DNSMessage.lines entry.2)) pushed

private theorem process_dir_processed {directory : Directory Data} (absolute : directory.Absolute)
    {c next : Converter Data} (ready : Ready c)
    (ended : process_dir dns order directory c = .ok () next) :
    Ready next ∧ Processed dns directory c next := by
  obtain ⟨_, middle, creates, rest⟩ := ok_of_bind ended
  obtain ⟨ks, same_state, sorts, pushes⟩ := ok_of_bind rest
  obtain ⟨sorted, same⟩ := ok_of_value sorts
  rw [same] at pushes
  have in_order := sort_messages_ok sorted
  have grows := create_zones_grows creates
  obtain ⟨created, calls, are⟩ := create_zones_gain creates
  have start : Built [] { c with total_processed_dir := c.total_processed_dir + 1 } :=
    ⟨⟨ready.built.indexed.agree, ready.built.indexed.lower_key, ready.built.indexed.some_name⟩,
      ready.built.has⟩
  have keeps : Keeps (Built []) (BuiltStop [])
      (each (fun entry : Bytes × DNSMessage => create_zones dns order directory.rrs entry.2)
        directory.dns_msg) :=
    Keeps.each fun _entry _member => Keeps.bind create_zone_built fun _done =>
      Keeps.bind create_zone_built fun _done => create_zone_built
  have built : Built [] middle := (keeps _ start).1 () middle creates
  have names : AbsoluteNames middle := by
    intro a z serves
    rcases (grows.serves a z).mp serves with earlier | ⟨entry, member, rrset, within, made⟩
    · exact ready.names a z earlier
    · obtain ⟨delegates, rfl, _rd⟩ := made
      exact absolute.names entry member rrset within delegates
  have pushed : Pushes (ks.flatMap (fun entry => DNSMessage.lines entry.2)) middle next := by
    refine Pushes.each ?_ ⟨built, names⟩ pushes
    intro entry member c next ready ended
    obtain ⟨other, within, is⟩ := sort_messages_mem sorted member
    have owners := absolute.owners other within
    rw [is] at owners
    exact push_zones_pushes owners ready ended
  obtain ⟨lines, calls', routed⟩ := pushed.calls
  refine ⟨pushed.ready, ⟨?_, ?_⟩, created, ks, lines, ?_, are, in_order, ?_⟩
  · exact fun z => (pushed.zones z).trans (grows.zones z)
  · intro a z
    rw [serves_of_same pushed.same]
    exact grows.serves a z
  · rw [calls', calls]
  · rw [serves_of_same pushed.same]
    exact routed

/-! ### The root hint file -/

def RootServed (c : Converter Data) : Prop :=
  ∀ a z, Serves c a z → z = root ∨ z = root_servers_ns

private theorem rootServed_free : OfZonesFree (RootServed : Converter Data → Prop) :=
  fun _c _calls _name2zone served => served

private theorem zone_address_served {z a : Bytes}
    (known : lower z = root ∨ lower z = root_servers_ns) :
    Keeps RootServed (fun _stop => RootServed) (zone_address z a : Action Data Unit) := by
  apply Keeps.bind
  · apply Keeps.of_left
    intro c served
    unfold add_address
    split
    · exact served
    · exact served
  · intro _done
    apply Keeps.of_left
    intro c served addr name serves
    rcases (serves_insert rfl addr name).mp serves with earlier | ⟨_own, rfl⟩
    · exact served addr name earlier
    · exact known

private theorem process_root_hint_served (lines : List Bytes) :
    Keeps RootServed (fun _stop => RootServed) (process_root_hint dns order lines) := by
  have addresses (records : List Bytes) :
      Keeps RootServed (fun _stop => RootServed) (each hint_address records : Action Data Unit) :=
    Keeps.each fun _a _member => Keeps.bind (zone_address_served (Or.inl (by decide)))
      fun _done => zone_address_served (Or.inr (by decide +kernel))
  have line (l : Bytes) : Keeps RootServed (fun _stop => RootServed) (hint_line dns l) := by
    unfold hint_line
    simp only
    split
    · exact Keeps.pure
    · apply Keeps.bind (add_record_keeps rootServed_free _ _ _)
      intro _done
      apply Keeps.bind (value_keeps _)
      intro rt
      split
      · exact add_record_keeps rootServed_free _ _ _
      · exact Keeps.pure
  have server (ns : Bytes) :
      Keeps RootServed (fun _stop => RootServed) (hint_server dns order ns) := by
    apply Keeps.bind (zone_at_keeps root)
    intro zone
    apply Keeps.bind (value_keeps _)
    intro a_records
    apply Keeps.bind (addresses _)
    intro _done
    apply Keeps.bind (zone_at_keeps root)
    intro zone'
    apply Keeps.bind (value_keeps _)
    intro aaaa_records
    exact addresses _
  have rest : Keeps RootServed (fun _stop => RootServed) (do
      add_name2zone dns root
      add_name2zone dns root_servers_ns
      each (hint_line dns) lines
      let zone ← zone_at root
      let ns_records ← value (zone.get_record_rdata dns root (ascii "NS"))
      each (hint_server dns order) (order.through ns_records) : Action Data Unit) := by
    apply Keeps.bind (add_name2zone_keeps rootServed_free root)
    intro _done
    apply Keeps.bind (add_name2zone_keeps rootServed_free root_servers_ns)
    intro _done
    apply Keeps.bind (Keeps.each fun l _member => line l)
    intro _done
    apply Keeps.bind (zone_at_keeps root)
    intro zone
    apply Keeps.bind (value_keeps _)
    intro ns_records
    exact Keeps.each fun ns _member => server ns
  apply Keeps.of_left
  intro c served
  unfold process_root_hint
  split
  · exact served
  · exact rest.left (fun _c served => served) (fun _stop _c served => served) served

theorem absolute_root : Absolute root := ⟨by decide, Or.inl rfl⟩

theorem absolute_root_servers : Absolute root_servers_ns :=
  ⟨by decide +kernel, Or.inr ⟨[ascii "root-servers", ascii "net"], by decide +kernel⟩⟩

theorem process_root_hint_ready {lines : List Bytes} {c : Converter Data}
    (ended : process_root_hint dns order lines {} = .ok () c) : Ready c := by
  have built : Built [root] c := (process_root_hint_built lines {} rfl).1 () c ended
  have nothing : RootServed ({} : Converter Data) := by
    rintro a z ⟨names, impossible, _member⟩
    cases impossible
  have served : RootServed c := (process_root_hint_served lines {} nothing).1 () c ended
  refine ⟨built.of_cons, ?_⟩
  intro a z serves
  rcases served a z serves with rfl | rfl
  · exact absolute_root
  · exact absolute_root_servers

/-! ### A capture -/

inductive Processes (dns : Dnspython Data) :
    Converter Data → List (Directory Data) → Converter Data → Prop
  | done (c : Converter Data) : Processes dns c [] c
  | next {c middle last : Converter Data} {directory : Directory Data}
      {rest : List (Directory Data)} (processed : Processed dns directory c middle)
      (later : Processes dns middle rest last) : Processes dns c (directory :: rest) last

theorem process_dirs_processed {directories : List (Directory Data)}
    (absolute : ∀ directory ∈ directories, directory.Absolute) {c last : Converter Data}
    (ready : Ready c) (ended : each (process_dir dns order) directories c = .ok () last) :
    Processes dns c directories last := by
  induction directories generalizing c with
  | nil =>
      cases ended
      exact .done _
  | cons directory rest ih =>
      rw [each_cons] at ended
      cases first : process_dir dns order directory c with
      | error stop middle =>
          rw [first] at ended
          cases ended
      | ok done middle =>
          rw [first] at ended
          obtain ⟨ready', processed⟩ :=
            process_dir_processed (absolute directory List.mem_cons_self) ready first
          exact .next processed
            (ih (fun other member => absolute other (List.mem_cons_of_mem directory member))
              ready' ended)

/-- From the tables of a capture to the zones: the messages are the responses that the
tables join, and every record of them goes to the closest zone of the server that
sent it, or nowhere if there is none. -/
theorem records_reach_zones {reader : MessageReader} {capture : Capture}
    {root_hint sub_dir : List Bytes} {tables : Bytes → Tables}
    (captured : ∀ d ∈ sub_dir, Captured capture d (tables d))
    (absolute : ∀ d ∈ sub_dir, ∀ directory,
      read_dir dns order reader capture d = .ok directory → directory.Absolute)
    {c : Converter Data}
    (ended : init_files dns order reader capture root_hint sub_dir {} = .ok () c) :
    ∃ directories start,
      List.Forall₂ (fun d => FromTables dns reader capture.rec_addr (tables d)) sub_dir
        directories ∧
      process_root_hint dns order root_hint {} = .ok () start ∧
      Processes dns start directories c := by
  obtain ⟨directories, reads, ended⟩ := init_files_ok.mp ended
  obtain ⟨_, start, hint, processes⟩ := ok_of_bind ended
  refine ⟨directories, start, read_dirs_from_tables captured reads, hint, ?_⟩
  refine process_dirs_processed ?_ (process_root_hint_ready hint) processes
  intro directory member
  obtain ⟨d, own, read⟩ := mapM_mem (Folds.mapM_ok_iff.mpr reads) member
  exact absolute d own directory read

/-! ### A delegation and an answer -/

def two_sections : List (MessageText × Sections) := [
  ({ header := [ascii "id 7", ascii "flags QR "]
     question := [join SPT [ascii "a.com.", ascii "IN", ascii "A"]]
     authority := [join SPT [ascii "com.", ascii "60", ascii "IN", ascii "NS", ascii "ns.com."]]
     additional :=
       [join SPT [ascii "ns.com.", ascii "60", ascii "IN", ascii "A", ascii "192.0.2.1"]] },
   { answer := []
     authority := [{
       name := ascii "com.", rdtype := RRset.NS, rds := [ascii "ns.com."]
       to_text := [ascii "com. 60 IN NS ns.com."] }]
     additional := [{
       name := ascii "ns.com.", rdtype := 1, rds := [ascii "192.0.2.1"]
       to_text := [ascii "ns.com. 60 IN A 192.0.2.1"] }] }),
  ({ header := [ascii "id 8", ascii "flags QR AA "]
     question := [join SPT [ascii "a.com.", ascii "IN", ascii "A"]]
     answer := [join SPT [ascii "a.com.", ascii "60", ascii "IN", ascii "A", ascii "192.0.2.7"]] },
   { answer := [{
       name := ascii "a.com.", rdtype := 1, rds := [ascii "192.0.2.7"]
       to_text := [ascii "a.com. 60 IN A 192.0.2.7"] }]
     authority := []
     additional := [] })]

def two_messages : MessageReader where
  from_text := fun text =>
    match two_sections.find? (fun known => known.1.text = text) with
    | some known => .ok known.2
    | none => .error "SyntaxError"
  set_rcode := fun _rcode => .ok ()
  set_opcode := fun _opcode => .ok ()

def one_root_hint : List Bytes :=
  [ascii ". 60 NS a.root-servers.net.", ascii "a.root-servers.net. 60 A 198.41.0.4"]

def convert_one_capture : Action Listed Unit :=
  init_files Listed.dnspython in_order two_messages one_capture one_root_hint [ascii "d"]

deriving instance DecidableEq for RRset
deriving instance DecidableEq for DNSMessage

def two_responses : List (Bytes × DNSMessage) :=
  (two_sections.zipWith (fun known from_server => (from_server.1, {
      src_ip := from_server.2, answer := known.2.answer, authority := known.2.authority
      additional := known.2.additional }))
    [(ascii "2", ascii "198.41.0.4"), (ascii "3", ascii "192.0.2.1")]).reverse

def three_names : List Bytes := [ascii "com.", ascii "ns.com.", ascii "a.com."]

private theorem three_names_absolute {name : Bytes} (member : name ∈ three_names) :
    Absolute name := by
  have plain : ∀ name ∈ three_names, escapedDot name = false := by decide +kernel
  have parts : ∀ name ∈ three_names, (labels name).dropLast ≠ [] ∧ [] ∉ (labels name).dropLast ∧
      labels name = (labels name).dropLast ++ [[]] := by
    decide +kernel
  exact ⟨plain name member, Or.inr ⟨_, parts name member⟩⟩

theorem one_capture_messages {directory : Directory Listed}
    (read : read_dir Listed.dnspython in_order two_messages one_capture (ascii "d") =
      .ok directory) : directory.dns_msg = two_responses := by
  have messages : (read_dir Listed.dnspython in_order two_messages one_capture
      (ascii "d")).toOption.map Directory.dns_msg = some two_responses := by
    decide +kernel
  rw [read] at messages
  exact Option.some.inj messages

theorem absolute_of_two_responses {directory : Directory Listed}
    (is : directory.dns_msg = two_responses) : directory.Absolute := by
  have names : ∀ entry ∈ two_responses, ∀ rrset ∈ entry.2.answer ++ entry.2.authority,
      lower rrset.name ∈ three_names := by
    decide +kernel
  have owners : ∀ entry ∈ two_responses, ∀ line ∈ DNSMessage.lines entry.2,
      ∀ owner ∈ (words line.2)[0]?, owner ∈ three_names := by
    decide +kernel
  constructor
  · rw [is]
    exact fun entry member rrset within _ns =>
      three_names_absolute (names entry member rrset within)
  · rw [is]
    exact fun entry member line within owner begins =>
      three_names_absolute (owners entry member line within owner begins)

/-- The delegation goes to the root zone, and the answer to the zone that was delegated. -/
theorem records_reach_zones_one_capture :
    ∃ c directories start, convert_one_capture {} = .ok () c ∧
      List.Forall₂ (fun _d => FromTables Listed.dnspython two_messages (ascii "10.0.0.1")
        capture_tables) [ascii "d"] directories ∧
      process_root_hint Listed.dnspython in_order one_root_hint {} = .ok () start ∧
      Processes Listed.dnspython start directories c := by
  have ends : halt (convert_one_capture {}) = none := by decide +kernel
  have captured : ∀ d ∈ [ascii "d"], Captured one_capture d capture_tables := by
    intro d member
    rw [List.mem_singleton.mp member]
    exact one_captured
  have absolute : ∀ d ∈ [ascii "d"], ∀ directory : Directory Listed,
      read_dir Listed.dnspython in_order two_messages one_capture d = .ok directory →
        directory.Absolute := by
    intro d member directory read
    rw [List.mem_singleton.mp member] at read
    exact absolute_of_two_responses (one_capture_messages read)
  obtain ⟨directories, start, tables, hint, processes⟩ :=
    records_reach_zones captured absolute (Actions.ended ends)
  exact ⟨_, directories, start, Actions.ended ends, tables, hint, processes⟩

end Converter

end LDPlayer
