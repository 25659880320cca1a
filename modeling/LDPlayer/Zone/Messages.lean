/-
The messages of a directory: read_dns_message and dns_message.py.

Three tables are joined by the number of the message.  Only responses count that
come from other servers than the recursive one; a row of another message is passed
over, and so is a record that dnspython cannot handle.  A row without a field ends
a table, as its end does.
-/
import LDPlayer.Foundation.Folds
import LDPlayer.Zone.Converter
import LDPlayer.Zone.FsdbReader

set_option autoImplicit false

namespace LDPlayer

open Text HashTable Folds

abbrev Row : Type := HashTable Bytes Bytes

namespace FsdbReader

private theorem next_line_list_shorter {f : Bytes} (some : (next_line_list f).1 ≠ []) :
    (next_line_list f).2.length < f.length := by
  induction f using next_line_list.induct with
  | case1 f comment ih =>
      rw [next_line_list, dif_pos comment] at some ⊢
      exact (ih some).trans (next_line_shorter comment)
  | case2 f other =>
      rw [next_line_list, dif_neg other] at some ⊢
      have length := readline_length f
      have read : (readline f).1 ≠ [] := by
        intro none
        unfold next_line at some
        rw [none] at some
        exact some rfl
      have positive := List.length_pos_iff.mpr read
      change (readline f).2.length < f.length
      omega

private theorem next_line_map_shorter {reader rest : FsdbReader} {l : Row}
    (read : reader.next_line_map ∅ = .ok (l, rest)) (some : l.size ≠ 0) :
    rest.f.length < reader.f.length := by
  obtain ⟨m, filled, same⟩ := map_ok read
  obtain ⟨rfl, rfl⟩ := Prod.mk.inj same
  refine next_line_list_shorter ?_
  intro none
  rw [none] at filled
  rw [← Except.ok.inj filled] at some
  exact some rfl

/-- The loops of `read_dns_message`: a body for one row after the other. -/
def each_row {State : Type} (body : State → Row → Except Stop State) (reader : FsdbReader)
    (state : State) : Except Stop State :=
  match _read : reader.next_line_map ∅ with
  | .error idx => .error (.keyError (decimal idx))
  | .ok (l, rest) =>
      if _some : l.size = 0 then .ok state
      else
        match body state l with
        | .error stop => .error stop
        | .ok next => each_row body rest next
termination_by reader.f.length
decreasing_by exact next_line_map_shorter _read _some

variable {State : Type} (body : State → Row → Except Stop State)

private theorem each_row_next {reader rest : FsdbReader} {l : Row}
    (read : reader.next_line_map ∅ = .ok (l, rest)) (some : l ≠ ∅) (state : State) :
    each_row body reader state = body state l >>= each_row body rest := by
  have fields : l.size ≠ 0 := by
    intro none
    apply some
    apply AList.ext
    exact List.length_eq_zero_iff.mp none
  rw [each_row]
  split
  · rename_i other
    cases read.symm.trans other
  · rename_i other
    obtain ⟨rfl, rfl⟩ := Prod.mk.inj (Except.ok.inj (read.symm.trans other))
    rw [dif_neg fields]
    cases body state l with
    | error stop => rfl
    | ok next => rfl

private theorem each_row_last {reader rest : FsdbReader}
    (read : reader.next_line_map ∅ = .ok (∅, rest)) (state : State) :
    each_row body reader state = .ok state := by
  rw [each_row]
  split
  · rename_i other
    cases read.symm.trans other
  · rename_i other
    obtain ⟨rfl, rfl⟩ := Prod.mk.inj (Except.ok.inj (read.symm.trans other))
    exact dif_pos rfl

theorem each_row_rows {table : Table} {rows : List (List Bytes)}
    (part : ∀ row ∈ rows, row ∈ table.rows) {reader : FsdbReader} {lines : List Bytes}
    (names : ∀ i, reader.idx2name.lookup i = table.columns[i]?) (written : Lines rows lines)
    (file : FileText lines reader.f) :
    ∃ maps : List Row, List.Forall₂ (IsRow table.columns) rows maps ∧
      ∀ state, each_row body reader state = maps.foldlM body state := by
  induction rows generalizing reader lines with
  | nil =>
      have read : reader.next_line_map ∅ = .ok (∅, { reader with f := [] }) := by
        unfold next_line_map
        simp only [next_line_list_end written file]
        rfl
      exact ⟨[], .nil, each_row_last body read⟩
  | cons row rows ih =>
      have own := part row List.mem_cons_self
      obtain ⟨m, lines', rest, reads, isRow, later, file'⟩ :=
        next_line_map_row names own written file
      have names' : ∀ i, ({ reader with f := rest } : FsdbReader).idx2name.lookup i =
          table.columns[i]? := names
      obtain ⟨maps, all, loops⟩ := ih
        (fun other member => part other (List.mem_cons_of_mem row member)) names' later file'
      have some_field := isRow.ne_empty (table.nonempty row own) (table.short row own)
      refine ⟨m :: maps, .cons isRow all, ?_⟩
      intro state
      rw [each_row_next body reads some_field, List.foldlM_cons]
      congr 1
      exact funext loops

end FsdbReader

/-! ### Messages -/

structure MessageText where
  src_ip : Bytes := []
  src_port : Bytes := []
  dst_ip : Bytes := []
  dst_port : Bytes := []
  dns_id : Bytes := []
  rcode : Bytes := []
  opcode : Bytes := []
  header : List Bytes := []
  question : List Bytes := []
  answer : List Bytes := []
  authority : List Bytes := []
  additional : List Bytes := []

namespace MessageText

def titled (title : Bytes) (lines : List Bytes) : Bytes :=
  if lines.length > 0 then title ++ [10] ++ join [10] lines ++ [10] else []

def text (msg : MessageText) : Bytes :=
  titled (ascii ";HEADER") msg.header ++ titled (ascii ";QUESTION") msg.question ++
    titled (ascii ";ANSWER") msg.answer ++ titled (ascii ";AUTHORITY") msg.authority ++
    titled (ascii ";ADDITIONAL") msg.additional

end MessageText

namespace Converter

/-- `l[name]` -/
def field (l : Row) (name : Bytes) : Except Stop Bytes :=
  match l.lookup name with
  | none => .error (.keyError name)
  | some text => .ok text

def SPT : Bytes := [9]

def flags : List (Bytes × Bytes) :=
  [(ascii "qr", ascii "QR "), (ascii "aa", ascii "AA "), (ascii "tc", ascii "TC "),
    (ascii "rd", ascii "RD "), (ascii "ra", ascii "RA "), (ascii "ad", ascii "AD "),
    (ascii "cd", ascii "CD ")]

def add_flag (l : Row) (flag_list : Bytes) (flag : Bytes × Bytes) : Except Stop Bytes := do
  let bit ← field l flag.1
  pure (if bit = ascii "1" then flag_list ++ flag.2 else flag_list)

/-- One row of the messages: queries and what the recursive server sends are discarded. -/
def message_row (rec_addr : Bytes) (dns_msg : HashTable Bytes MessageText) (l : Row) :
    Except Stop (HashTable Bytes MessageText) :=
  if ascii "msgid" ∉ l ∨ ascii "id" ∉ l then
    .error (.exit (ascii "[error] msgid or id not found"))
  else do
    let qr ← field l (ascii "qr")
    if qr = ascii "0" then pure dns_msg
    else do
      let srcip ← field l (ascii "srcip")
      if srcip = rec_addr then pure dns_msg
      else do
        let msgid ← field l (ascii "msgid")
        let msg := (dns_msg.lookup msgid).getD {}
        let dstip ← field l (ascii "dstip")
        let srcport ← field l (ascii "srcport")
        let dstport ← field l (ascii "dstport")
        let id ← field l (ascii "id")
        let rcode ← field l (ascii "rcode")
        let opcode ← field l (ascii "opcode")
        let flag_list ← flags.foldlM (add_flag l) []
        let flag_line := if flag_list.length > 0 then [ascii "flags " ++ flag_list] else []
        pure (dns_msg.insert msgid { msg with
          src_ip := srcip, dst_ip := dstip, src_port := srcport, dst_port := dstport
          dns_id := id, rcode := rcode, opcode := opcode
          header := msg.header ++ [ascii "id " ++ id] ++ flag_line })

def question_row (dns_msg : HashTable Bytes MessageText) (l : Row) :
    Except Stop (HashTable Bytes MessageText) :=
  match l.lookup (ascii "msgid") with
  | none => .error (.exit (ascii "[error] msgid is not found in question fsdb"))
  | some msgid =>
      match dns_msg.lookup msgid with
      | none => .ok dns_msg
      | some msg => do
          let name ← field l (ascii "name")
          let rdclass ← field l (ascii "class")
          let rdtype ← field l (ascii "type")
          pure (dns_msg.insert msgid { msg with
            question := msg.question ++ [name ++ SPT ++ rdclass ++ SPT ++ rdtype] })

/-- `replace('%20', ' ')` -/
def unescape : Bytes → Bytes
  | 37 :: 50 :: 48 :: rest => 32 :: unescape rest
  | byte :: rest => byte :: unescape rest
  | [] => []

def put (section_name record : Bytes) (msg : MessageText) : Except Stop MessageText :=
  if section_name = ascii "ANS" then .ok { msg with answer := msg.answer ++ [record] }
  else if section_name = ascii "AUT" then .ok { msg with authority := msg.authority ++ [record] }
  else if section_name = ascii "ADD" then .ok { msg with additional := msg.additional ++ [record] }
  else .error (.exit (ascii "unknow section name:" ++ section_name))

variable {Data : Type} (dns : Dnspython Data)

def rr_row (s : HashTable Bytes MessageText × DNSZone Data) (l : Row) :
    Except Stop (HashTable Bytes MessageText × DNSZone Data) :=
  match l.lookup (ascii "msgid") with
  | none => .error (.exit (ascii "[error] msgid is not found in question fsdb"))
  | some msgid =>
      match s.1.lookup msgid with
      | none => .ok s
      | some msg => do
          let rdata ← field l (ascii "rdata")
          if ascii "TYPE65534" <:+: upper rdata then pure s
          else do
            let rdtype ← field l (ascii "type")
            if rdtype = ascii "TYPE0" then pure s
            else do
              let rdclass ← field l (ascii "class")
              if rdclass = ascii "CLASS0" then pure s
              else do
                let name ← field l (ascii "name")
                let ttl ← field l (ascii "ttl")
                let record := name ++ SPT ++ ttl ++ SPT ++ rdclass ++ SPT ++ rdtype ++ SPT ++
                  unescape rdata
                let rrs ← s.2.add_record dns true record
                let section_name ← field l (ascii "section_name")
                let msg ← put section_name record msg
                pure (s.1.insert msgid msg, rrs)

def fmt_path (input_dir d s : Bytes) : Bytes :=
  input_dir ++ ascii "/" ++ d ++ ascii "/" ++ d ++ s

structure Capture where
  files : Bytes → Option Bytes
  input_dir : Bytes
  rec_addr : Bytes

def read_dns_message (capture : Capture) (d : Bytes) (rrs : DNSZone Data) :
    Except Stop (HashTable Bytes MessageText × DNSZone Data) := do
  let path := fmt_path capture.input_dir d
  let msg_db ← FsdbReader.new capture.files (path (ascii ".message.fsdb"))
  let dns_msg ← FsdbReader.each_row (message_row capture.rec_addr) msg_db ∅
  let q_db ← FsdbReader.new capture.files (path (ascii ".question.fsdb"))
  let dns_msg ← FsdbReader.each_row question_row q_db dns_msg
  let rr_db ← FsdbReader.new capture.files (path (ascii ".rr.fsdb"))
  FsdbReader.each_row (rr_row dns) rr_db (dns_msg, rrs)

/-! ### The join -/

def cell (l : Row) (name : Bytes) : Bytes := (l.lookup name).getD []

def msgid (l : Row) : Bytes := cell l (ascii "msgid")

def response (rec_addr : Bytes) (l : Row) : Bool :=
  cell l (ascii "qr") ≠ ascii "0" ∧ cell l (ascii "srcip") ≠ rec_addr

def flag_texts (l : Row) : Bytes :=
  flags.flatMap (fun flag => if cell l flag.1 = ascii "1" then flag.2 else [])

def header_lines (l : Row) : List Bytes :=
  [ascii "id " ++ cell l (ascii "id")] ++
    if (flag_texts l).length > 0 then [ascii "flags " ++ flag_texts l] else []

def headed (l : Row) (msg : MessageText) : MessageText :=
  { msg with
    src_ip := cell l (ascii "srcip"), dst_ip := cell l (ascii "dstip")
    src_port := cell l (ascii "srcport"), dst_port := cell l (ascii "dstport")
    dns_id := cell l (ascii "id"), rcode := cell l (ascii "rcode")
    opcode := cell l (ascii "opcode"), header := msg.header ++ header_lines l }

def question_text (l : Row) : Bytes :=
  cell l (ascii "name") ++ SPT ++ cell l (ascii "class") ++ SPT ++ cell l (ascii "type")

def record (l : Row) : Bytes :=
  cell l (ascii "name") ++ SPT ++ cell l (ascii "ttl") ++ SPT ++ cell l (ascii "class") ++ SPT ++
    cell l (ascii "type") ++ SPT ++ unescape (cell l (ascii "rdata"))

/-- A record that dnspython can handle. -/
def usable (l : Row) : Bool :=
  ¬ ascii "TYPE65534" <:+: upper (cell l (ascii "rdata")) ∧
    cell l (ascii "type") ≠ ascii "TYPE0" ∧ cell l (ascii "class") ≠ ascii "CLASS0"

def of_message (id : Bytes) (rows : List Row) : List Row := rows.filter (fun l => msgid l = id)

def responses (rec_addr : Bytes) (rows : List Row) (id : Bytes) : List Row :=
  (of_message id rows).filter (response rec_addr)

def records (section_name : Bytes) (rows : List Row) (id : Bytes) : List Bytes :=
  (((of_message id rows).filter usable).filter
    (fun l => cell l (ascii "section_name") = section_name)).map record

/-- A message is made of the rows with its number, in their order. -/
def joined (rec_addr : Bytes) (ms qs rs : List Row) (id : Bytes) : Option MessageText :=
  if responses rec_addr ms id = [] then none
  else some { (responses rec_addr ms id).foldl (fun msg l => headed l msg) {} with
    question := (of_message id qs).map question_text
    answer := records (ascii "ANS") rs id
    authority := records (ascii "AUT") rs id
    additional := records (ascii "ADD") rs id }

def used (rec_addr : Bytes) (ms : List Row) (l : Row) : Bool :=
  usable l && responses rec_addr ms (msgid l) ≠ []

def all_records (rec_addr : Bytes) (ms rs : List Row) : List Bytes :=
  (rs.filter (used rec_addr ms)).map record

def add_records (rrs : DNSZone Data) (lines : List Bytes) : Except Stop (DNSZone Data) :=
  lines.foldlM (fun rrs l => rrs.add_record dns true l) rrs

/-! ### Rows -/

theorem field_ok {l : Row} {name text : Bytes} (read : field l name = .ok text) :
    text = cell l name := by
  unfold field at read
  unfold cell
  split at read
  · cases read
  · rename_i found
    rw [found]
    exact (Except.ok.inj read).symm

theorem field_of_mem {l : Row} {name : Bytes} (present : name ∈ l) :
    field l name = .ok (cell l name) := by
  obtain ⟨text, found⟩ := mem_iff_lookup.mp present
  unfold field cell
  rw [found]
  rfl

theorem cell_of_lookup {l : Row} {name text : Bytes} (found : l.lookup name = some text) :
    cell l name = text := by
  unfold cell
  rw [found]
  rfl

private theorem add_flags_ok {l : Row} {fs : List (Bytes × Bytes)} {start flag_list : Bytes}
    (read : fs.foldlM (add_flag l) start = .ok flag_list) :
    flag_list = start ++ fs.flatMap
      (fun flag => if cell l flag.1 = ascii "1" then flag.2 else []) := by
  induction fs generalizing start with
  | nil =>
      rw [List.flatMap_nil, List.append_nil]
      exact (Except.ok.inj read).symm
  | cons flag rest ih =>
      rw [List.foldlM_cons] at read
      obtain ⟨next, first, later⟩ := bind_ok read
      obtain ⟨bit, found, same⟩ := bind_ok first
      rw [ih later, List.flatMap_cons, ← Except.ok.inj same, field_ok found]
      split
      · rw [List.append_assoc]
      · rw [List.nil_append]

private theorem add_flags_of_mem {l : Row} {fs : List (Bytes × Bytes)}
    (present : ∀ flag ∈ fs, flag.1 ∈ l) (start : Bytes) :
    ∃ flag_list, fs.foldlM (add_flag l) start = .ok flag_list := by
  induction fs generalizing start with
  | nil => exact ⟨start, rfl⟩
  | cons flag rest ih =>
      have own : add_flag l start flag =
          .ok (if cell l flag.1 = ascii "1" then start ++ flag.2 else start) := by
        unfold add_flag
        rw [field_of_mem (present flag List.mem_cons_self)]
        rfl
      rw [List.foldlM_cons, own]
      exact ih (fun other member => present other (List.mem_cons_of_mem flag member)) _

theorem message_row_ok {rec_addr : Bytes} {t next : HashTable Bytes MessageText} {l : Row}
    (read : message_row rec_addr t l = .ok next) :
    next = if response rec_addr l then
      t.insert (msgid l) (headed l ((t.lookup (msgid l)).getD {})) else t := by
  unfold message_row at read
  split at read
  · cases read
  · obtain ⟨qr, isQr, read⟩ := bind_ok read
    obtain rfl := field_ok isQr
    unfold response
    split at read
    · rename_i query
      rw [← Except.ok.inj read, if_neg (by simp [query])]
    · rename_i not_query
      obtain ⟨srcip, isSrcip, read⟩ := bind_ok read
      obtain rfl := field_ok isSrcip
      split at read
      · rename_i own
        rw [← Except.ok.inj read, if_neg (by simp [own])]
      · rename_i foreign
        obtain ⟨id, isId, read⟩ := bind_ok read
        obtain ⟨dstip, isDstip, read⟩ := bind_ok read
        obtain ⟨srcport, isSrcport, read⟩ := bind_ok read
        obtain ⟨dstport, isDstport, read⟩ := bind_ok read
        obtain ⟨dns_id, isDnsId, read⟩ := bind_ok read
        obtain ⟨rcode, isRcode, read⟩ := bind_ok read
        obtain ⟨opcode, isOpcode, read⟩ := bind_ok read
        obtain ⟨flag_list, isFlags, read⟩ := bind_ok read
        obtain rfl := field_ok isId
        obtain rfl := field_ok isDstip
        obtain rfl := field_ok isSrcport
        obtain rfl := field_ok isDstport
        obtain rfl := field_ok isDnsId
        obtain rfl := field_ok isRcode
        obtain rfl := field_ok isOpcode
        obtain rfl : flag_list = flag_texts l := by
          rw [add_flags_ok isFlags]
          exact List.nil_append _
        rw [← Except.ok.inj read, if_pos (decide_eq_true ⟨not_query, foreign⟩)]
        unfold headed header_lines msgid
        simp only [List.append_assoc]

def message_columns : List Bytes :=
  [ascii "msgid", ascii "id", ascii "srcip", ascii "dstip", ascii "srcport", ascii "dstport",
    ascii "rcode", ascii "opcode"] ++ flags.map Prod.fst

theorem message_row_of_mem (rec_addr : Bytes) (t : HashTable Bytes MessageText) {l : Row}
    (present : ∀ name ∈ message_columns, name ∈ l) :
    ∃ next, message_row rec_addr t l = .ok next := by
  have reads : ∀ name ∈ message_columns, field l name = .ok (cell l name) :=
    fun name member => field_of_mem (present name member)
  have flagged : ∀ flag ∈ flags, flag.1 ∈ l := fun flag member =>
    present flag.1 (List.mem_append_right _ (List.mem_map_of_mem member))
  obtain ⟨flag_list, isFlags⟩ := add_flags_of_mem flagged []
  simp only [message_columns, flags, List.map_cons, List.map_nil, List.cons_append,
    List.nil_append, List.forall_mem_cons] at present reads
  obtain ⟨isMsgid, isId, isSrcip, isDstip, isSrcport, isDstport, isRcode, isOpcode, isQr, _⟩ :=
    reads
  unfold message_row
  rw [if_neg (by simp [present.1, present.2.1]), isQr]
  change ∃ next, (if cell l (ascii "qr") = ascii "0" then _ else _) = _
  split
  · exact ⟨t, rfl⟩
  · rw [isSrcip]
    change ∃ next, (if cell l (ascii "srcip") = rec_addr then _ else _) = _
    split
    · exact ⟨t, rfl⟩
    · rw [isMsgid, isDstip, isSrcport, isDstport, isId, isRcode, isOpcode, isFlags]
      exact ⟨_, rfl⟩

theorem question_row_ok {t next : HashTable Bytes MessageText} {l : Row}
    (read : question_row t l = .ok next) :
    next = match t.lookup (msgid l) with
      | none => t
      | some msg =>
          t.insert (msgid l) { msg with question := msg.question ++ [question_text l] } := by
  unfold question_row at read
  split at read
  · cases read
  · rename_i id is
    obtain rfl : msgid l = id := cell_of_lookup is
    split at read
    · exact (Except.ok.inj read).symm
    · rename_i msg found
      obtain ⟨name, isName, read⟩ := bind_ok read
      obtain ⟨rdclass, isClass, read⟩ := bind_ok read
      obtain ⟨rdtype, isType, read⟩ := bind_ok read
      obtain rfl := field_ok isName
      obtain rfl := field_ok isClass
      obtain rfl := field_ok isType
      rw [← Except.ok.inj read]
      rfl

def question_columns : List Bytes := [ascii "msgid", ascii "name", ascii "class", ascii "type"]

theorem question_row_of_mem (t : HashTable Bytes MessageText) {l : Row}
    (present : ∀ name ∈ question_columns, name ∈ l) : ∃ next, question_row t l = .ok next := by
  have reads : ∀ name ∈ question_columns, field l name = .ok (cell l name) :=
    fun name member => field_of_mem (present name member)
  simp only [question_columns, List.forall_mem_cons] at present reads
  obtain ⟨id, found⟩ := mem_iff_lookup.mp present.1
  obtain ⟨_isMsgid, isName, isClass, isType, _⟩ := reads
  unfold question_row
  simp only [found]
  cases t.lookup id with
  | none => exact ⟨t, rfl⟩
  | some msg =>
      simp only [isName, isClass, isType]
      exact ⟨_, rfl⟩

def placed (section_name line : Bytes) (msg : MessageText) : MessageText :=
  { msg with
    answer := if section_name = ascii "ANS" then msg.answer ++ [line] else msg.answer
    authority := if section_name = ascii "AUT" then msg.authority ++ [line] else msg.authority
    additional := if section_name = ascii "ADD" then msg.additional ++ [line] else msg.additional }

private theorem put_ok {section_name line : Bytes} {msg next : MessageText}
    (ended : put section_name line msg = .ok next) : next = placed section_name line msg := by
  have answer_authority : ascii "ANS" ≠ ascii "AUT" := by decide
  have answer_additional : ascii "ANS" ≠ ascii "ADD" := by decide
  have authority_additional : ascii "AUT" ≠ ascii "ADD" := by decide
  unfold put at ended
  unfold placed
  split at ended
  · rename_i answer
    rw [← Except.ok.inj ended, answer, if_pos rfl, if_neg answer_authority,
      if_neg answer_additional]
  · rename_i no_answer
    split at ended
    · rename_i authority
      rw [← Except.ok.inj ended, authority, if_neg answer_authority.symm, if_pos rfl,
        if_neg authority_additional]
    · rename_i no_authority
      split at ended
      · rename_i additional
        rw [← Except.ok.inj ended, if_neg no_answer, if_neg no_authority, if_pos additional]
      · cases ended

def sections : List Bytes := [ascii "ANS", ascii "AUT", ascii "ADD"]

private theorem put_of_mem {section_name : Bytes} (known : section_name ∈ sections) (line : Bytes)
    (msg : MessageText) : ∃ next, put section_name line msg = .ok next := by
  simp only [sections, List.mem_cons, List.not_mem_nil, or_false] at known
  unfold put
  split
  · exact ⟨_, rfl⟩
  · rename_i no_answer
    split
    · exact ⟨_, rfl⟩
    · rename_i no_authority
      rw [if_pos ((known.resolve_left no_answer).resolve_left no_authority)]
      exact ⟨_, rfl⟩

private theorem put_section {section_name line : Bytes} {msg next : MessageText}
    (ended : put section_name line msg = .ok next) : section_name ∈ sections := by
  simp only [sections, List.mem_cons, List.not_mem_nil, or_false]
  unfold put at ended
  split at ended
  · rename_i answer
    exact Or.inl answer
  · split at ended
    · rename_i authority
      exact Or.inr (Or.inl authority)
    · split at ended
      · rename_i additional
        exact Or.inr (Or.inr additional)
      · cases ended

variable {dns}

/-- A row is passed over, or its record goes to the zone and to its message. -/
theorem rr_row_ok {s next : HashTable Bytes MessageText × DNSZone Data} {l : Row}
    (read : rr_row dns s l = .ok next) :
    ((s.1.lookup (msgid l) = none ∨ usable l = false) ∧ next = s) ∨
      ∃ msg, s.1.lookup (msgid l) = some msg ∧ usable l = true ∧
        s.2.add_record dns true (record l) = .ok next.2 ∧
        cell l (ascii "section_name") ∈ sections ∧
        next.1 = s.1.insert (msgid l) (placed (cell l (ascii "section_name")) (record l) msg) := by
  unfold rr_row at read
  split at read
  · cases read
  · rename_i id is
    obtain rfl : msgid l = id := cell_of_lookup is
    split at read
    · rename_i absent
      exact Or.inl ⟨Or.inl absent, (Except.ok.inj read).symm⟩
    · rename_i msg found
      unfold usable
      obtain ⟨rdata, isRdata, read⟩ := bind_ok read
      obtain rfl := field_ok isRdata
      split at read
      · rename_i unknown
        exact Or.inl ⟨Or.inr (decide_eq_false fun all => all.1 unknown), (Except.ok.inj read).symm⟩
      · rename_i no_65534
        obtain ⟨rdtype, isType, read⟩ := bind_ok read
        obtain rfl := field_ok isType
        split at read
        · rename_i abnormal
          exact Or.inl ⟨Or.inr (decide_eq_false fun all => all.2.1 abnormal),
            (Except.ok.inj read).symm⟩
        · rename_i no_0
          obtain ⟨rdclass, isClass, read⟩ := bind_ok read
          obtain rfl := field_ok isClass
          split at read
          · rename_i abnormal
            exact Or.inl ⟨Or.inr (decide_eq_false fun all => all.2.2 abnormal),
              (Except.ok.inj read).symm⟩
          · rename_i no_class_0
            obtain ⟨name, isName, read⟩ := bind_ok read
            obtain ⟨ttl, isTtl, read⟩ := bind_ok read
            obtain ⟨rrs, added, read⟩ := bind_ok read
            obtain ⟨section_name, isSection, read⟩ := bind_ok read
            obtain ⟨after, placed, last⟩ := bind_ok read
            obtain rfl := field_ok isName
            obtain rfl := field_ok isTtl
            obtain rfl := field_ok isSection
            rw [← Except.ok.inj last]
            refine Or.inr ⟨msg, found, decide_eq_true ⟨no_65534, no_0, no_class_0⟩, added,
              put_section placed, ?_⟩
            rw [put_ok placed]
            rfl

def rr_columns : List Bytes :=
  [ascii "msgid", ascii "name", ascii "ttl", ascii "class", ascii "type", ascii "rdata",
    ascii "section_name"]

theorem rr_row_of_mem {s : HashTable Bytes MessageText × DNSZone Data} {l : Row}
    (present : ∀ name ∈ rr_columns, name ∈ l)
    (placed : ∀ msg, s.1.lookup (msgid l) = some msg → usable l = true →
      cell l (ascii "section_name") ∈ sections ∧
        ∃ rrs, s.2.add_record dns true (record l) = .ok rrs) :
    ∃ next, rr_row dns s l = .ok next := by
  have reads : ∀ name ∈ rr_columns, field l name = .ok (cell l name) :=
    fun name member => field_of_mem (present name member)
  simp only [rr_columns, List.forall_mem_cons] at present reads
  obtain ⟨id, is⟩ := mem_iff_lookup.mp present.1
  obtain ⟨_isMsgid, isName, isTtl, isClass, isType, isRdata, isSection, _⟩ := reads
  obtain rfl : msgid l = id := cell_of_lookup is
  unfold rr_row
  simp only [is]
  cases found : s.1.lookup (msgid l) with
  | none => exact ⟨s, rfl⟩
  | some msg =>
      simp only [isRdata]
      change ∃ next, (if ascii "TYPE65534" <:+: upper (cell l (ascii "rdata")) then _ else _) = _
      split
      · exact ⟨s, rfl⟩
      · rename_i no_65534
        rw [isType]
        change ∃ next, (if cell l (ascii "type") = ascii "TYPE0" then _ else _) = _
        split
        · exact ⟨s, rfl⟩
        · rename_i no_0
          rw [isClass]
          change ∃ next, (if cell l (ascii "class") = ascii "CLASS0" then _ else _) = _
          split
          · exact ⟨s, rfl⟩
          · rename_i no_class_0
            have handled : usable l = true := decide_eq_true ⟨no_65534, no_0, no_class_0⟩
            obtain ⟨known, rrs, added⟩ := placed msg found handled
            obtain ⟨after, ends⟩ := put_of_mem known (record l) msg
            unfold record at added ends
            rw [isName, isTtl]
            simp only [isSection]
            change ∃ next, (s.2.add_record dns true _ >>= _) = _
            rw [added]
            change ∃ next, (put _ _ msg >>= _) = _
            rw [ends]
            exact ⟨_, rfl⟩

end Converter

end LDPlayer
