/-
One server for a hierarchy: the zones of a capture behind the two proxies.

The recursive proxy lets a query arrive from the address of the server that was
asked, and the views of the configuration are told apart by just these addresses.
So a query meets the zones of the server it was sent to, with what that server said
in the capture, and the answer comes back as if from there.
-/
import LDPlayer.Proxy.Delivery
import LDPlayer.Zone.Files

set_option autoImplicit false

namespace LDPlayer

open Text DomainName Actions HashTable

def InAddr.text (addr : InAddr) : Bytes :=
  join (ascii ".") [decimal addr.first.toNat, decimal addr.second.toNat,
    decimal addr.third.toNat, decimal addr.fourth.toNat]

example : InAddr.text ⟨192, 0, 2, 1⟩ = ascii "192.0.2.1" := by decide +kernel

namespace Converter

variable {Data : Type} {dns : Dnspython Data} {order : Order}

/-! ### What a server said -/

/-- The zone was served by this address at the start or as these directories say. -/
def ServedBy (dns : Dnspython Data) (start : Converter Data) (directories : List (Directory Data))
    (a z : Bytes) : Prop :=
  Serves start a z ∨ ∃ directory ∈ directories, ∃ entry ∈ directory.dns_msg,
    ∃ rrset ∈ entry.2.answer ++ entry.2.authority, MakesServe dns directory.rrs rrset a z

/-- A line of a server that has gone to the closest zone of the server, if there is one. -/
def Said (serves : Bytes → Bytes → Prop) (added : List (Bytes × Bytes)) (src_ip line : Bytes) :
    Prop :=
  ∃ owner found, (words line)[0]? = some owner ∧ Closest serves src_ip owner found ∧
    ∀ z, found = some z → (z, line) ∈ added

variable {start middle last : Converter Data} {directories front rest : List (Directory Data)}
variable {directory : Directory Data}

theorem Said.mono {serves : Bytes → Bytes → Prop} {added more : List (Bytes × Bytes)}
    {src_ip line : Bytes} (said : Said serves added src_ip line) (within : added ⊆ more) :
    Said serves more src_ip line := by
  obtain ⟨owner, found, begins, closest, goes⟩ := said
  exact ⟨owner, found, begins, closest, fun z is => within (goes z is)⟩

theorem Routed.said {serves : Bytes → Bytes → Prop} {lines calls : List (Bytes × Bytes)}
    (routed : Routed serves lines calls) {src_ip line : Bytes} (member : (src_ip, line) ∈ lines) :
    Said serves calls src_ip line := by
  induction routed with
  | done => cases member
  | next begins closest _others ih =>
      rcases List.mem_cons.mp member with same | later
      · obtain ⟨rfl, rfl⟩ := Prod.mk.inj same
        refine ⟨_, _, begins, closest, ?_⟩
        rintro z rfl
        exact List.mem_append_left _ List.mem_cons_self
      · exact (ih later).mono (List.subset_append_right _ _)

theorem InOrder.mem {dns_msg : List (Bytes × DNSMessage)} {ks : List (Int × DNSMessage)}
    (in_order : InOrder dns_msg ks) {entry : Bytes × DNSMessage} (member : entry ∈ dns_msg) :
    ∃ key ∈ ks, key.2 = entry.2 := by
  obtain ⟨keyed, numbered, perm⟩ := in_order.messages
  obtain ⟨key, listed, _number, same⟩ := Folds.exists_pair numbered member
  exact ⟨key, perm.mem_iff.mpr listed, same⟩

theorem Processed.served (processed : Processed dns directory start middle) :
    ServedBy dns middle rest = ServedBy dns start (directory :: rest) := by
  funext a z
  unfold ServedBy
  rw [processed.zones.serves, or_assoc]
  simp only [List.mem_cons, exists_eq_or_imp]

theorem Processed.said (processed : Processed dns directory start middle)
    {entry : Bytes × DNSMessage} (own : entry ∈ directory.dns_msg) {src_ip line : Bytes}
    (member : (src_ip, line) ∈ DNSMessage.lines entry.2) :
    ∃ added, middle.calls = start.calls ++ added ∧
      Said (ServedBy dns start [directory]) added src_ip line := by
  obtain ⟨created, ks, pushed, calls, _created, in_order, routed⟩ := processed.calls
  obtain ⟨key, listed, same⟩ := in_order.mem own
  have within : (src_ip, line) ∈ ks.flatMap (fun entry => DNSMessage.lines entry.2) :=
    List.mem_flatMap.mpr ⟨key, listed, same ▸ member⟩
  have now : ServedBy dns middle [] = Serves middle := by
    funext a z
    unfold ServedBy
    simp only [List.not_mem_nil, false_and, exists_false, or_false]
  refine ⟨created ++ pushed, by rw [calls, List.append_assoc], ?_⟩
  rw [← processed.served, now]
  exact (routed.said within).mono (List.subset_append_right _ _)

theorem Processes.calls (processes : Processes dns start directories last) :
    ∃ added, last.calls = start.calls ++ added := by
  induction processes with
  | done c => exact ⟨[], (List.append_nil _).symm⟩
  | next processed _later ih =>
      obtain ⟨created, _ks, pushed, calls, _rest⟩ := processed.calls
      obtain ⟨added, more⟩ := ih
      exact ⟨created ++ (pushed ++ added), by
        rw [more, calls, List.append_assoc, List.append_assoc]⟩

theorem Processes.serves (processes : Processes dns start directories last) (a z : Bytes) :
    Serves last a z ↔ ServedBy dns start directories a z := by
  induction processes with
  | done c =>
      unfold ServedBy
      simp only [List.not_mem_nil, false_and, exists_false, or_false]
  | next processed _later ih =>
      rw [ih, processed.served]

theorem Processes.said (processes : Processes dns start directories last)
    (split : directories = front ++ directory :: rest) {entry : Bytes × DNSMessage}
    (own : entry ∈ directory.dns_msg) {src_ip line : Bytes}
    (member : (src_ip, line) ∈ DNSMessage.lines entry.2) :
    ∃ added, last.calls = start.calls ++ added ∧
      Said (ServedBy dns start (front ++ [directory])) added src_ip line := by
  induction processes generalizing front with
  | done c => exact absurd split.symm (List.append_ne_nil_of_right_ne_nil _ (List.cons_ne_nil _ _))
  | next processed later ih =>
      cases front with
      | nil =>
          obtain ⟨rfl, rfl⟩ := List.cons.inj split
          obtain ⟨added, calls, said⟩ := processed.said own member
          obtain ⟨more, behind⟩ := later.calls
          refine ⟨added ++ more, by rw [behind, calls, List.append_assoc], ?_⟩
          exact said.mono (List.subset_append_left _ _)
      | cons first others =>
          obtain ⟨rfl, same⟩ := List.cons.inj split
          obtain ⟨created, _ks, pushed, calls, _rest⟩ := processed.calls
          obtain ⟨added, behind, said⟩ := ih same
          refine ⟨created ++ (pushed ++ added), by
            rw [behind, calls, List.append_assoc, List.append_assoc], ?_⟩
          rw [processed.served] at said
          exact said.mono (fun call within =>
            List.mem_append_right _ (List.mem_append_right _ within))

/-! ### The zones of a view -/

variable {out : OutputFiles} {hints : List (Bytes × Bytes)} {c next : Converter Data}

/-- The view has this zone under the path of its file, and in the file the line. -/
def Holds (dns : Dnspython Data) (out : OutputFiles) (hints : List (Bytes × Bytes))
    (next : Converter Data) (view : View) (z line : Bytes) : Prop :=
  (z, out.zone_path ++ zone_file z) ∈ view.zones ∧ ∃ later zone, next.calls = hints ++ later ∧
    line ∈ lines_of z later ∧ remade dns hints later z = .ok zone ∧
    content out next (zone_fn out z) = some (dns.to_text zone.data)

theorem Partitions.listing {config : List View} (partitions : Partitions c config)
    (client : Bytes) : config.countP (fun view => client ∈ view.match_clients) =
      if client ∈ c.addr2name then 1 else 0 := by
  by_cases known : client ∈ c.addr2name
  · rw [if_pos known]
    exact partitions.once client known
  · rw [if_neg known]
    apply List.countP_eq_zero.mpr
    intro view member
    rw [decide_eq_true_eq]
    exact fun lists => known ((partitions.clients view member).2.2 client lists)

/-- A line that was added to a zone of a server is in its file, which a view for the
server has. -/
theorem Written.holds (written : Written dns out hints c next) {client z line : Bytes}
    {added : List (Bytes × Bytes)} (calls : c.calls = hints ++ added) (goes : (z, line) ∈ added)
    (serves : Serves c client z) :
    ∃ view ∈ next.config, client ∈ view.match_clients ∧
      Holds dns out hints next view z line := by
  obtain ⟨moved, moves, _delegations⟩ := written.moves
  obtain ⟨later, since, texts⟩ := written.files
  have known : client ∈ c.addr2name := by
    obtain ⟨names, found, _member⟩ := serves
    exact mem_iff_lookup.mpr ⟨names, found⟩
  have some_view : 0 < next.config.countP (fun view => client ∈ view.match_clients) := by
    rw [written.views.listing, if_pos known]
    exact Nat.one_pos
  obtain ⟨view, member, lists⟩ := List.countP_pos_iff.mp some_view
  rw [decide_eq_true_eq] at lists
  have own := ((written.views.zones view member).2 client lists z).mpr serves
  obtain ⟨zone, listed, rfl⟩ := List.mem_map.mp own
  obtain ⟨path, known_zone⟩ := written.paths view member zone listed
  -- what was added after the root hint file was added to a zone with a class
  have after : later = added ++ moved := by
    rw [moves, calls, List.append_assoc] at since
    exact (List.append_cancel_left since).symm
  have line_of : line ∈ lines_of zone.1 later := by
    rw [after]
    refine List.mem_map.mpr ⟨(zone.1, line), List.mem_filter.mpr ⟨?_, decide_eq_true rfl⟩, rfl⟩
    exact List.mem_append_left _ goes
  obtain ⟨made, remakes, stored⟩ := texts zone.1 known_zone
  exact ⟨view, member, lists, path ▸ listed, later, made, since, line_of, remakes, stored⟩

end Converter

namespace Emulation

open Packet Hierarchy ThreadedHierarchy Converter

/-- What was asked behind the proxies is answered from the zones of the server that was
asked, with what it said in the capture, and in the name of that server. -/
structure Emulates {Data Worker Worker' : Type} (dns : Dnspython Data) (out : OutputFiles)
    (start : Converter Data) (directories : List (Directory Data)) (middle c : Converter Data)
    (r : InAddr) (t : ThreadedHierarchy Worker Worker') : Prop where
  client : ∀ asked ∈ t.recursive.sent, Query r asked.1 ∧ source asked.2 = destination asked.1
  config : ∀ file ∈ c.files, out.file file.1 ≠ out.file out.config_file
  view : ∀ asked ∈ t.recursive.sent,
    c.config.countP (fun view => (source asked.2).text ∈ view.match_clients) =
      if (destination asked.1).text ∈ middle.addr2name then 1 else 0
  zones : ∀ asked ∈ t.recursive.sent, ∀ view ∈ c.config,
    (source asked.2).text ∈ view.match_clients →
      ∀ z, z ∈ view.zones.map Prod.fst ↔ Serves middle (destination asked.1).text z
  said : ∀ asked ∈ t.recursive.sent, ∀ front directory rest,
    directories = front ++ directory :: rest → ∀ entry ∈ directory.dns_msg, ∀ line,
      ((destination asked.1).text, line) ∈ DNSMessage.lines entry.2 →
        ∃ owner found, (words line)[0]? = some owner ∧
          Closest (ServedBy dns start (front ++ [directory])) (destination asked.1).text owner
            found ∧
          ∀ z, found = some z → ∃ view ∈ c.config, (source asked.2).text ∈ view.match_clients ∧
            Holds dns out start.calls c view z line
  answers : ∀ done ∈ t.authoritative.sent, ∃ asked ∈ t.recursive.sent,
    tuple done.1 = (tuple asked.2).reverse ∧ tuple done.2 = (tuple asked.1).reverse

variable {Data Worker Worker' : Type} [DecidableEq Worker] [DecidableEq Worker']
variable {dns : Dnspython Data} {order : Order}
variable {byte_order byte_order' : OnesComplement.ByteOrder} {a r : InAddr} {spurious : Prop}

private theorem emulates {out : OutputFiles} {start middle c : Converter Data}
    {directories : List (Directory Data)} (processes : Processes dns start directories middle)
    (written : Converter.Written dns out start.calls middle c) {t : ThreadedHierarchy Worker Worker'}
    (reached : Reached byte_order byte_order' a r spurious t) :
    Emulates dns out start directories middle c r t := by
  obtain ⟨h, implements, flows⟩ := reached.flows
  have transparent := flows.transparent
  have out := implements.recursive.finished
  have back := implements.authoritative.finished
  have client : ∀ asked ∈ t.recursive.sent,
      Query r asked.1 ∧ source asked.2 = destination asked.1 := by
    intro asked member
    obtain ⟨query, _forwarded, seen⟩ := transparent.query asked (out ▸ member)
    exact ⟨query, congrArg Tuple.src seen⟩
  exact
    { client := client
      config := fun file member => (written.only file member).1
      view := by
        intro asked member
        rw [(client asked member).2]
        exact written.views.listing _
      zones := by
        intro asked member view own lists z
        rw [(client asked member).2] at lists
        exact (written.views.zones view own).2 _ lists z
      said := by
        intro asked member front directory rest split entry own line within
        rw [(client asked member).2]
        obtain ⟨added, calls, owner, found, begins, closest, goes⟩ :=
          processes.said split own within
        refine ⟨owner, found, begins, closest, ?_⟩
        rintro z rfl
        have served : ServedBy dns start directories (destination asked.1).text z := by
          rw [split]
          rcases closest.1 with first | ⟨earlier, listed, makes⟩
          · exact Or.inl first
          · refine Or.inr ⟨earlier, ?_, makes⟩
            rcases List.mem_append.mp listed with before | last
            · exact List.mem_append_left _ before
            · rw [List.mem_singleton.mp last]
              exact List.mem_append_right _ List.mem_cons_self
        exact written.holds calls (goes z rfl) ((processes.serves _ z).mpr served)
      answers := by
        intro done member
        obtain ⟨_forwarded, asked, finished, answers, returned⟩ :=
          transparent.answer done (back ▸ member)
        exact ⟨asked, out ▸ finished, answers, returned⟩ }

/-- One server stands in for the servers of a capture.

The configuration and the zone files are made from the tables of the capture, and the
proxies run with any number of threads.  A query of the recursive server arrives from
the address that it was sent to.  One view lists this address if it is that of a server
in the capture, and none otherwise; that view has the zones of this server and no
others.  Each record that the server sent in the capture was added to the closest zone
that it served by then, and the file of this zone in the view is made with it.  The
answer comes back to the port that asked, from the address that was asked. -/
theorem hierarchy_emulated {reader : MessageReader} {capture : Capture}
    {root_hint sub_dir : List Bytes} {tables : Bytes → Tables} {out : OutputFiles}
    (separate : out.Separate) (captured : ∀ d ∈ sub_dir, Captured capture d (tables d))
    (absolute : ∀ d ∈ sub_dir, ∀ directory,
      read_dir dns order reader capture d = .ok directory → directory.Absolute)
    (plain : ∀ d ∈ sub_dir, ∀ directory,
      read_dir dns order reader capture d = .ok directory → directory.Plain)
    {c : Converter Data}
    (ended : convert_files dns order reader capture root_hint sub_dir out {} = .ok () c)
    {t : ThreadedHierarchy Worker Worker'} (reached : Reached byte_order byte_order' a r spurious t) :
    ∃ directories start middle,
      List.Forall₂ (fun d => FromTables dns reader capture.rec_addr (tables d)) sub_dir
        directories ∧
      process_root_hint dns order root_hint {} = .ok () start ∧
      Processes dns start directories middle ∧
      Emulates dns out start directories middle c r t := by
  obtain ⟨directories, start, middle, reads, hint, processes, written⟩ :=
    convert_files_written separate absolute plain ended
  exact ⟨directories, start, middle, read_dirs_from_tables captured reads, hint, processes,
    emulates processes written reached⟩

private theorem plain_query_sent : ∃ t : ThreadedHierarchy Unit Unit,
    Reached .little .little ⟨10, 0, 0, 9⟩ ⟨10, 0, 0, 2⟩ False t ∧
      t.recursive.sent.map Prod.fst = [plain_query] := by
  have query : Query ⟨10, 0, 0, 2⟩ plain_query :=
    ⟨⟨by decide, rfl, ⟨rfl, rfl⟩, 6, rfl, rfl, by decide⟩, rfl, rfl⟩
  obtain ⟨sent, processed, _forwarded⟩ := query.plain.forwarded .little ⟨10, 0, 0, 9⟩
  have moves {t : ThreadedHierarchy Unit Unit} {proxy : ProxyThreads Unit}
      (reached : Reached .little .little ⟨10, 0, 0, 9⟩ ⟨10, 0, 0, 2⟩ False t)
      (step : ProxyThreads.Step .little ⟨10, 0, 0, 9⟩ False
        (fun pkt => True ∧ Query ⟨10, 0, 0, 2⟩ pkt) t.recursive proxy) :
      Reached .little .little ⟨10, 0, 0, 9⟩ ⟨10, 0, 0, 2⟩ False { t with recursive := proxy } :=
    reached.tail (.recursive proxy step)
  have pushed := moves (moves .refl (.read_packet plain_query ⟨trivial, query⟩ rfl))
    (.queue _ (.push () plain_query _ rfl rfl) ⟨nofun, fun _worker runs => runs, rfl⟩)
  have popped := moves (moves pushed (.call_pop () rfl rfl)) (.pop () plain_query _ rfl rfl)
  have running := moves popped
    (.queue _ (.pop_notifies () _ rfl (.nobody nofun nofun)) ⟨nofun, fun _worker _runs => rfl, rfl⟩)
  exact ⟨_, moves running (.process_packet () plain_query sent rfl rfl processed), rfl⟩

theorem hierarchy_emulated_one_capture :
    ∃ c directories start middle, convert_one_capture_files {} = .ok () c ∧
      List.Forall₂ (fun _d => FromTables Listed.dnspython two_messages (ascii "10.0.0.1")
        capture_tables) [ascii "d"] directories ∧
      process_root_hint Listed.dnspython in_order one_root_hint {} = .ok () start ∧
      Processes Listed.dnspython start directories middle ∧
      ∃ t : ThreadedHierarchy Unit Unit, t.recursive.sent.map Prod.fst = [plain_query] ∧
        Emulates Listed.dnspython flat start directories middle c ⟨10, 0, 0, 2⟩ t := by
  have ends : halt (convert_one_capture_files {}) = none := by decide +kernel
  have captured : ∀ d ∈ [ascii "d"], Captured one_capture d capture_tables := by
    intro d member
    rw [List.mem_singleton.mp member]
    exact one_captured
  have messages : ∀ d ∈ [ascii "d"], ∀ directory : Directory Listed,
      read_dir Listed.dnspython in_order two_messages one_capture d = .ok directory →
        directory.dns_msg = two_responses := by
    intro d member directory read
    rw [List.mem_singleton.mp member] at read
    exact one_capture_messages read
  obtain ⟨t, reached, sent⟩ := plain_query_sent
  obtain ⟨directories, start, middle, tables, hint, processes, emulates⟩ :=
    hierarchy_emulated flat_separate captured
      (fun d member directory read => absolute_of_two_responses (messages d member directory read))
      (fun d member directory read => plain_of_two_responses (messages d member directory read))
      (Actions.ended ends) reached
  exact ⟨_, directories, start, middle, Actions.ended ends, tables, hint, processes, t, sent,
    emulates⟩

end Emulation

end LDPlayer
