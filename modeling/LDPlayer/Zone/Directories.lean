/-
The constructor on the files of a capture.

dnspython reads the text of each message, and a directory is processed with what it
has read.  A capture is converted to the end exactly if every directory can be read and
the converter gets to the end on the directories that are read.
-/
import LDPlayer.Zone.InZone
import LDPlayer.Zone.Join

set_option autoImplicit false

namespace LDPlayer

open Text HashTable Folds Actions

structure Sections where
  answer : List RRset
  authority : List RRset
  additional : List RRset

/-- The reader of messages, `dns.message`, and the two setters, which change flags only. -/
structure MessageReader where
  from_text : Bytes → Except String Sections
  set_rcode : Int → Except String Unit
  set_opcode : Int → Except String Unit

namespace Converter

variable {Data : Type} (dns : Dnspython Data) (order : Order) (reader : MessageReader)

def to_dnsmsg (msg : MessageText) : Except Stop DNSMessage := do
  let data ← raising (reader.from_text msg.text)
  let rcode ← int msg.rcode
  raising (reader.set_rcode rcode)
  let opcode ← int msg.opcode
  raising (reader.set_opcode opcode)
  pure {
    src_ip := msg.src_ip, answer := data.answer, authority := data.authority
    additional := data.additional }

def convert_dns_message (dns_msg : HashTable Bytes MessageText) :
    Except Stop (List (Bytes × DNSMessage)) :=
  (order.through dns_msg.keys).mapM (fun id =>
    (to_dnsmsg reader ((dns_msg.lookup id).getD {})).map (fun msg => (id, msg)))

def read_dir (capture : Capture) (d : Bytes) : Except Stop (Directory Data) := do
  let rrs ← DNSZone.new dns DomainName.root
  let read ← read_dns_message dns capture d rrs
  let dns_msg ← convert_dns_message order reader read.1
  pure { dns_msg := dns_msg, rrs := read.2 }

def process_sub_dir (capture : Capture) (d : Bytes) : Action Data Unit := fun c =>
  (do
    let directory ← value (read_dir dns order reader capture d)
    process_dns_message dns order directory.dns_msg directory.rrs : Action Data Unit)
    { c with total_processed_dir := c.total_processed_dir + 1 }

def init_files (capture : Capture) (root_hint sub_dir : List Bytes) : Action Data Unit := do
  process_root_hint dns order root_hint
  each (process_sub_dir dns order reader capture) sub_dir

variable {dns order reader}

private theorem process_sub_dir_ok {capture : Capture} {d : Bytes} {c next : Converter Data} :
    process_sub_dir dns order reader capture d c = .ok () next ↔
      ∃ directory, read_dir dns order reader capture d = .ok directory ∧
        process_dir dns order directory c = .ok () next := by
  unfold process_sub_dir process_dir
  cases read : read_dir dns order reader capture d with
  | error stop =>
      rw [bind_of_error (value_error rfl _)]
      constructor
      · intro impossible
        cases impossible
      · rintro ⟨directory, impossible, _ended⟩
        cases impossible
  | ok directory =>
      rw [bind_of_ok (value_ok rfl _)]
      constructor
      · intro ended
        exact ⟨directory, rfl, ended⟩
      · rintro ⟨other, same, ended⟩
        rw [Except.ok.inj same]
        exact ended

private theorem sub_dirs_ok {capture : Capture} {sub_dir : List Bytes} {c next : Converter Data} :
    each (process_sub_dir dns order reader capture) sub_dir c = .ok () next ↔
      ∃ directories, List.Forall₂
          (fun d directory => read_dir dns order reader capture d = .ok directory)
          sub_dir directories ∧
        each (process_dir dns order) directories c = .ok () next := by
  induction sub_dir generalizing c with
  | nil =>
      constructor
      · intro ended
        exact ⟨[], .nil, ended⟩
      · rintro ⟨directories, none, ended⟩
        cases none
        exact ended
  | cons d rest ih =>
      rw [each_cons]
      constructor
      · intro ended
        split at ended
        · rename_i middle first
          obtain ⟨directory, read, processed⟩ := process_sub_dir_ok.mp first
          obtain ⟨directories, all, later⟩ := ih.mp ended
          refine ⟨directory :: directories, .cons read all, ?_⟩
          rw [each_cons, processed]
          exact later
        · cases ended
      · rintro ⟨directories, all, ended⟩
        cases all with
        | cons read later =>
            rw [each_cons] at ended
            split at ended
            · rename_i middle processed
              rw [process_sub_dir_ok.mpr ⟨_, read, processed⟩]
              exact ih.mpr ⟨_, later, ended⟩
            · cases ended

/-- The constructor gets to the end on files exactly if all directories can be read and
it gets there on what is read. -/
theorem init_files_ok {capture : Capture} {root_hint sub_dir : List Bytes}
    {c next : Converter Data} :
    init_files dns order reader capture root_hint sub_dir c = .ok () next ↔
      ∃ directories, List.Forall₂
          (fun d directory => read_dir dns order reader capture d = .ok directory)
          sub_dir directories ∧
        init dns order root_hint directories c = .ok () next := by
  unfold init_files init
  cases hint : process_root_hint dns order root_hint c with
  | error stop middle =>
      simp only [bind_of_error hint]
      constructor
      · intro impossible
        cases impossible
      · rintro ⟨directories, _all, impossible⟩
        cases impossible
  | ok done middle =>
      simp only [bind_of_ok hint]
      exact sub_dirs_ok

/-! ### What is read -/

structure Converted (reader : MessageReader) (texts : Bytes → Option MessageText)
    (dns_msg : List (Bytes × DNSMessage)) : Prop where
  nodup : (dns_msg.map Prod.fst).Nodup
  numbers : ∀ id, id ∈ dns_msg.map Prod.fst ↔ texts id ≠ none
  messages : ∀ entry ∈ dns_msg, ∃ text, texts entry.1 = some text ∧
    to_dnsmsg reader text = .ok entry.2

private theorem converted {texts : HashTable Bytes MessageText}
    {dns_msg : List (Bytes × DNSMessage)}
    (ended : convert_dns_message order reader texts = .ok dns_msg) :
    Converted reader (fun id => texts.lookup id) dns_msg := by
  have perm := order.perm texts.keys
  have numbers : dns_msg.map Prod.fst = order.through texts.keys := by
    unfold convert_dns_message at ended
    generalize order.through texts.keys = ids at ended
    have all := mapM_ok_iff.mp ended
    clear ended perm
    induction all with
    | nil => rfl
    | cons own _rest ih =>
        obtain ⟨msg, _read, same⟩ := map_ok own
        rw [List.map_cons, ih, ← same]
  refine ⟨?_, ?_, ?_⟩
  · rw [numbers]
    exact perm.nodup_iff.mpr texts.nodupKeys
  · intro id
    rw [numbers, perm.mem_iff, ← AList.mem_keys, mem_iff_lookup, Option.ne_none_iff_exists']
  · intro entry member
    obtain ⟨id, own, converts⟩ := mapM_mem ended member
    obtain ⟨msg, read, rfl⟩ := map_ok converts
    obtain ⟨text, found⟩ := mem_iff_lookup.mp (AList.mem_keys.mp (perm.subset own))
    refine ⟨text, found, ?_⟩
    rw [found] at read
    exact read

/-- A directory as its tables give it: the messages are read from the texts of the
join, and all their records are in one zone under the root. -/
structure FromTables (dns : Dnspython Data) (reader : MessageReader) (rec_addr : Bytes)
    (tables : Tables) (directory : Directory Data) : Prop where
  joined : ∃ ms qs rs, RowsRead tables ms qs rs ∧
    Converted reader (joined rec_addr ms qs rs) directory.dns_msg ∧
    ∃ start, DNSZone.new dns DomainName.root = .ok start ∧
      add_records dns start (all_records rec_addr ms rs) = .ok directory.rrs

private theorem read_dir_from_tables {capture : Capture} {d : Bytes} {tables : Tables}
    (captured : Captured capture d tables) {directory : Directory Data}
    (read : read_dir dns order reader capture d = .ok directory) :
    FromTables dns reader capture.rec_addr tables directory := by
  obtain ⟨start, made, rest⟩ := bind_ok read
  obtain ⟨found, reads, later⟩ := bind_ok rest
  obtain ⟨dns_msg, converts, same⟩ := bind_ok later
  obtain ⟨ms, qs, rs, t, rows, messages, _all, loop⟩ := read_dns_message_loop captured
  have joins := records_read messages ((loop start).symm.trans reads)
  rw [← Except.ok.inj same]
  refine ⟨ms, qs, rs, rows, ?_, start, made, joins.zone⟩
  have texts : (fun id => found.1.lookup id) = joined capture.rec_addr ms qs rs :=
    funext joins.messages
  rw [← texts]
  exact converted converts

theorem read_dirs_from_tables {capture : Capture} {sub_dir : List Bytes} {tables : Bytes → Tables}
    (captured : ∀ d ∈ sub_dir, Captured capture d (tables d)) {directories : List (Directory Data)}
    (reads : List.Forall₂ (fun d directory => read_dir dns order reader capture d = .ok directory)
      sub_dir directories) :
    List.Forall₂ (fun d => FromTables dns reader capture.rec_addr (tables d)) sub_dir
      directories := by
  induction reads with
  | nil => exact .nil
  | cons read _rest ih =>
      refine .cons (read_dir_from_tables (captured _ List.mem_cons_self) read) (ih ?_)
      exact fun d member => captured d (List.mem_cons_of_mem _ member)

end Converter

end LDPlayer
