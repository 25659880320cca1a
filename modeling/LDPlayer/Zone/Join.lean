/-
The join of the tables of a directory.

Each loop of read_dns_message keeps that the messages so far are the join of the rows
so far.  A full capture is read exactly if each record that is used has a section and
is taken by the zone of all records.
-/
import LDPlayer.Zone.Messages

set_option autoImplicit false

namespace LDPlayer

open Text HashTable Folds

namespace Converter

variable {Data : Type} {dns : Dnspython Data}

/-! ### Loops -/

section loops

variable {rec_addr id : Bytes} {ms qs rs : List Row} {l : Row}

theorem filter_append_one (p : Row → Bool) (rows : List Row) (l : Row) :
    (rows ++ [l]).filter p = rows.filter p ++ if p l = true then [l] else [] := by
  rw [List.filter_append, List.filter_cons, List.filter_nil]

theorem of_message_append (id : Bytes) (rows : List Row) (l : Row) :
    of_message id (rows ++ [l]) = of_message id rows ++ if msgid l = id then [l] else [] := by
  unfold of_message
  rw [filter_append_one]
  simp only [decide_eq_true_eq]

private theorem responses_append (rec_addr : Bytes) (rows : List Row) (l : Row) (id : Bytes) :
    responses rec_addr (rows ++ [l]) id = responses rec_addr rows id ++
      if msgid l = id ∧ response rec_addr l = true then [l] else [] := by
  unfold responses
  rw [of_message_append]
  by_cases own : msgid l = id
  · rw [if_pos own, filter_append_one]
    simp only [own, true_and]
  · rw [if_neg own, List.append_nil, if_neg fun both => own both.1, List.append_nil]

private theorem records_append (section_name : Bytes) (rows : List Row) (l : Row) (id : Bytes) :
    records section_name (rows ++ [l]) id = records section_name rows id ++
      if (msgid l = id ∧ usable l = true) ∧ cell l (ascii "section_name") = section_name
      then [record l] else [] := by
  unfold records
  rw [of_message_append]
  by_cases own : msgid l = id
  · rw [if_pos own, filter_append_one]
    by_cases handled : usable l = true
    · rw [if_pos handled, filter_append_one, List.map_append]
      congr 1
      by_cases here : cell l (ascii "section_name") = section_name
      · rw [if_pos (decide_eq_true here), if_pos ⟨⟨own, handled⟩, here⟩]
        rfl
      · rw [if_neg (by rw [decide_eq_true_eq]; exact here), if_neg fun all => here all.2]
        rfl
    · rw [if_neg handled, List.append_nil, if_neg fun all => handled all.1.2, List.append_nil]
  · rw [if_neg own, List.append_nil, if_neg fun all => own all.1.1, List.append_nil]

private theorem joined_message :
    joined rec_addr (ms ++ [l]) [] [] id =
      if msgid l = id ∧ response rec_addr l = true then
        some (headed l ((joined rec_addr ms [] [] id).getD {}))
      else joined rec_addr ms [] [] id := by
  unfold joined
  rw [responses_append]
  by_cases own : msgid l = id ∧ response rec_addr l = true
  · rw [if_pos own, if_pos own, if_neg (List.append_ne_nil_of_right_ne_nil _ (List.cons_ne_nil l _)),
      List.foldl_append]
    by_cases none : responses rec_addr ms id = []
    · rw [none, if_pos rfl]
      rfl
    · rw [if_neg none]
      rfl
  · rw [if_neg own, if_neg own, List.append_nil]

private theorem joined_question :
    joined rec_addr ms (qs ++ [l]) [] id = (joined rec_addr ms qs [] id).map (fun msg =>
      if msgid l = id then { msg with question := msg.question ++ [question_text l] } else msg) := by
  unfold joined
  rw [of_message_append]
  by_cases none : responses rec_addr ms id = []
  · rw [if_pos none, if_pos none]
    rfl
  · rw [if_neg none, if_neg none, Option.map_some, List.map_append]
    by_cases own : msgid l = id
    · rw [if_pos own, if_pos own]
      rfl
    · rw [if_neg own, if_neg own, List.map_nil, List.append_nil]

private theorem joined_record :
    joined rec_addr ms qs (rs ++ [l]) id = (joined rec_addr ms qs rs id).map (fun msg =>
      if msgid l = id ∧ usable l = true then
        placed (cell l (ascii "section_name")) (record l) msg
      else msg) := by
  have appended {condition : Prop} [Decidable condition] (front : List Bytes) :
      front ++ (if condition then [record l] else []) =
        if condition then front ++ [record l] else front := by
    split
    · rfl
    · exact List.append_nil front
  unfold joined placed
  by_cases none : responses rec_addr ms id = []
  · rw [if_pos none, if_pos none]
    rfl
  · rw [if_neg none, if_neg none, Option.map_some, records_append, records_append, records_append,
      appended, appended, appended]
    by_cases own : msgid l = id ∧ usable l = true
    · simp only [own, and_self, true_and, if_true]
    · simp only [own, false_and, if_false]

private theorem messages_joined {t : HashTable Bytes MessageText}
    (ended : ms.foldlM (message_row rec_addr) ∅ = .ok t) :
    ∀ id, t.lookup id = joined rec_addr ms [] [] id := by
  have steps : ∀ (done : List Row) (l : Row) (t next : HashTable Bytes MessageText),
      (∀ id, t.lookup id = joined rec_addr done [] [] id) → message_row rec_addr t l = .ok next →
        ∀ id, next.lookup id = joined rec_addr (done ++ [l]) [] [] id := by
    intro done l t next holds read id
    rw [message_row_ok read, joined_message]
    by_cases foreign : response rec_addr l = true
    · rw [if_pos foreign, lookup_insert_eq]
      by_cases own : id = msgid l
      · rw [if_pos own, if_pos ⟨own.symm, foreign⟩, ← own, holds]
      · rw [if_neg own, if_neg fun both => own both.1.symm, holds]
    · rw [if_neg foreign, if_neg fun both => foreign both.2, holds]
  exact invariant_of_ended steps (fun id => rfl) ended

private theorem questions_joined {t last : HashTable Bytes MessageText}
    (messages : ∀ id, t.lookup id = joined rec_addr ms [] [] id)
    (ended : qs.foldlM question_row t = .ok last) :
    ∀ id, last.lookup id = joined rec_addr ms qs [] id := by
  have steps : ∀ (done : List Row) (l : Row) (t next : HashTable Bytes MessageText),
      (∀ id, t.lookup id = joined rec_addr ms done [] id) → question_row t l = .ok next →
        ∀ id, next.lookup id = joined rec_addr ms (done ++ [l]) [] id := by
    intro done l t next holds read id
    rw [question_row_ok read, joined_question, ← holds]
    cases found : t.lookup (msgid l) with
    | none =>
        by_cases own : msgid l = id
        · rw [← own]
          simp only [found, Option.map_none]
        · simp only [if_neg own, Option.map_id']
    | some msg =>
        simp only
        rw [lookup_insert_eq]
        by_cases own : id = msgid l
        · rw [if_pos own, own, found, Option.map_some, if_pos rfl]
        · simp only [if_neg own, if_neg (Ne.symm own), Option.map_id']
  exact invariant_of_ended steps messages ended

theorem used_iff : used rec_addr ms l = true ↔
    usable l = true ∧ joined rec_addr ms qs rs (msgid l) ≠ none := by
  unfold used joined
  rw [Bool.and_eq_true, decide_eq_true_eq]
  by_cases none : responses rec_addr ms (msgid l) = []
  · rw [if_pos none]
    simp [none]
  · rw [if_neg none]
    simp [none]

theorem all_records_append (rows : List Row) (l : Row) :
    all_records rec_addr ms (rows ++ [l]) = all_records rec_addr ms rows ++
      if used rec_addr ms l = true then [record l] else [] := by
  unfold all_records
  rw [filter_append_one, List.map_append]
  congr 1
  split
  · rfl
  · rfl

theorem add_records_append {rrs : DNSZone Data} (front : List Bytes) (line : Bytes) :
    add_records dns rrs (front ++ [line]) =
      add_records dns rrs front >>= fun rrs => rrs.add_record dns true line := by
  unfold add_records
  rw [List.foldlM_append]
  congr 1
  funext middle
  rw [List.foldlM_cons]
  cases middle.add_record dns true line with
  | error stop => rfl
  | ok next => rfl

structure RecordsRead (dns : Dnspython Data) (rec_addr : Bytes) (ms qs : List Row)
    (start : DNSZone Data) (done : List Row) (s : HashTable Bytes MessageText × DNSZone Data) :
    Prop where
  messages : ∀ id, s.1.lookup id = joined rec_addr ms qs done id
  zone : add_records dns start (all_records rec_addr ms done) = .ok s.2
  known : ∀ l ∈ done, used rec_addr ms l = true → cell l (ascii "section_name") ∈ sections

theorem RecordsRead.step {start : DNSZone Data} {done : List Row}
    {s next : HashTable Bytes MessageText × DNSZone Data}
    (holds : RecordsRead dns rec_addr ms qs start done s) (read : rr_row dns s l = .ok next) :
    RecordsRead dns rec_addr ms qs start (done ++ [l]) next := by
  rcases rr_row_ok read with ⟨passed, rfl⟩ | ⟨msg, found, handled, added, section_name, same⟩
  · have unused : ¬ used rec_addr ms l = true := by
      rw [used_iff, ← holds.messages]
      rintro ⟨handled, present⟩
      rcases passed with absent | unusable
      · exact present absent
      · rw [unusable] at handled
        cases handled
    refine ⟨?_, ?_, ?_⟩
    · intro id
      rw [joined_record, ← holds.messages]
      by_cases own : msgid l = id ∧ usable l = true
      · have absent := passed.resolve_right (by rw [own.2]; exact Bool.noConfusion)
        rw [← own.1, absent, Option.map_none]
      · simp only [if_neg own, Option.map_id']
    · rw [all_records_append, if_neg unused, List.append_nil]
      exact holds.zone
    · intro other member isUsed
      rcases List.mem_append.mp member with earlier | own
      · exact holds.known other earlier isUsed
      · rw [List.mem_singleton.mp own] at isUsed
        exact absurd isUsed unused
  · have isUsed : used rec_addr ms l = true := by
      rw [used_iff, ← holds.messages, found]
      exact ⟨handled, Option.some_ne_none msg⟩
    refine ⟨?_, ?_, ?_⟩
    · intro id
      rw [same, joined_record, ← holds.messages, lookup_insert_eq]
      by_cases own : id = msgid l
      · rw [if_pos own, own, found, Option.map_some, if_pos ⟨rfl, handled⟩]
      · have other : ¬ (msgid l = id ∧ usable l = true) := fun both => own both.1.symm
        simp only [if_neg own, if_neg other, Option.map_id']
    · rw [all_records_append, if_pos isUsed, add_records_append, holds.zone]
      exact added
    · intro other member isUsed'
      rcases List.mem_append.mp member with earlier | own
      · exact holds.known other earlier isUsed'
      · rw [List.mem_singleton.mp own]
        exact section_name

/-- The third loop gives them their records, which all go into one zone. -/
theorem records_read {rrs : DNSZone Data} {t : HashTable Bytes MessageText}
    (messages : ∀ id, t.lookup id = joined rec_addr ms qs [] id)
    {last : HashTable Bytes MessageText × DNSZone Data}
    (ended : rs.foldlM (rr_row dns) (t, rrs) = .ok last) :
    RecordsRead dns rec_addr ms qs rrs rs last :=
  invariant_of_ended (fun _done _l _s _next holds read => holds.step read)
    ⟨messages, rfl, fun _l impossible => absurd impossible List.not_mem_nil⟩ ended

private theorem records_read_ends {rrs last : DNSZone Data} {t : HashTable Bytes MessageText}
    (messages : ∀ id, t.lookup id = joined rec_addr ms qs [] id)
    (present : ∀ l ∈ rs, ∀ name ∈ rr_columns, name ∈ l)
    (known : ∀ l ∈ rs, used rec_addr ms l = true → cell l (ascii "section_name") ∈ sections)
    (added : add_records dns rrs (all_records rec_addr ms rs) = .ok last) :
    ∃ result, rs.foldlM (rr_row dns) (t, rrs) = .ok result := by
  have start : RecordsRead dns rec_addr ms qs rrs [] (t, rrs) :=
    ⟨messages, rfl, fun _l impossible => absurd impossible List.not_mem_nil⟩
  have steps : ∀ (done : List Row) (l : Row) (rest : List Row)
      (s : HashTable Bytes MessageText × DNSZone Data), rs = done ++ l :: rest →
      RecordsRead dns rec_addr ms qs rrs done s →
        ∃ next, rr_row dns s l = .ok next ∧
          RecordsRead dns rec_addr ms qs rrs (done ++ [l]) next := by
    intro done l rest s whole holds
    have own : l ∈ rs := by
      rw [whole]
      exact List.mem_append_right done List.mem_cons_self
    obtain ⟨next, read⟩ : ∃ next, rr_row dns s l = .ok next := by
      refine rr_row_of_mem (present l own) fun msg found handled => ?_
      have isUsed : used rec_addr ms l = true := by
        rw [used_iff, ← holds.messages, found]
        exact ⟨handled, Option.some_ne_none msg⟩
      refine ⟨known l own isUsed, ?_⟩
      have split : all_records rec_addr ms rs =
          all_records rec_addr ms (done ++ [l]) ++ all_records rec_addr ms rest := by
        rw [whole]
        unfold all_records
        rw [← List.map_append, ← List.filter_append, List.append_assoc]
        rfl
      rw [split] at added
      obtain ⟨middle, front, _later⟩ := front_ends added
      have ends : add_records dns rrs (all_records rec_addr ms (done ++ [l])) = .ok middle := front
      rw [all_records_append, if_pos isUsed, add_records_append, holds.zone] at ends
      exact ⟨middle, ends⟩
    exact ⟨next, read, holds.step read⟩
  obtain ⟨result, ended, _read⟩ := ends_of_steps steps start
  exact ⟨result, ended⟩

end loops

end Converter

/-! ### Writing a table -/

namespace FsdbReader

def Table.print (table : Table) : Bytes :=
  ((ascii "#fsdb" :: ascii "-F" :: ascii "t" :: table.columns) :: table.rows).flatMap
    (fun row => join [9] row ++ [10])

theorem spaced_join {fields : List Bytes} (some : fields ≠ []) :
    Spaced fields (join [9] fields) := by
  induction fields with
  | nil => exact absurd rfl some
  | cons field rest ih =>
      cases rest with
      | nil =>
          have alone : join [9] [field] = field := by
            unfold join
            exact List.intercalate_singleton
          rw [alone]
          exact .last field
      | cons next later =>
          have split : join [9] (field :: next :: later) =
              field ++ [9] ++ join [9] (next :: later) := by
            unfold join
            rw [List.intercalate_cons_cons]
          rw [split]
          refine .more _ _ _ _ (List.cons_ne_nil 9 []) ?_ (ih (List.cons_ne_nil next later))
          intro byte member
          exact Or.inl (List.mem_singleton.mp member)

private theorem fileText_ended (lines : List Bytes) :
    FileText lines (lines.flatMap (fun line => line ++ [10])) := by
  induction lines with
  | nil => exact .empty
  | cons line rest ih =>
      rw [List.flatMap_cons, List.append_assoc]
      exact .ended line _ rest ih

private theorem lines_join {rows : List (List Bytes)} (some : ∀ row ∈ rows, row ≠ []) :
    Lines rows (rows.map (join [9])) := by
  induction rows with
  | nil => exact .done
  | cons row rest ih =>
      exact .row row _ rest _ (spaced_join (some row List.mem_cons_self))
        (ih fun other member => some other (List.mem_cons_of_mem row member))

def solid (field : Bytes) : Bool :=
  field ≠ [] && field.all (fun byte => isSpace byte == false)

theorem solid_isWord {field : Bytes} (is_solid : solid field = true) : IsWord field := by
  unfold solid at is_solid
  rw [Bool.and_eq_true, decide_eq_true_eq] at is_solid
  exact isWord_of_all is_solid.1 is_solid.2

structure Tidy (columns : List Bytes) (rows : List (List Bytes)) : Prop where
  distinct : columns.Nodup
  names : ∀ name ∈ columns, solid name = true ∧ name ∉ filter_list
  fields : ∀ row ∈ rows, ∀ field ∈ row, solid field = true
  long : ∀ row ∈ rows, row ≠ [] ∧ row.length ≤ columns.length
  no_comment : ∀ row ∈ rows, ∀ field ∈ row.head?, field.head? ≠ some 35

def Tidy.table {columns : List Bytes} {rows : List (List Bytes)} (tidy : Tidy columns rows) :
    Table where
  columns := columns
  rows := rows
  distinct := tidy.distinct
  names := fun name member => ⟨solid_isWord (tidy.names name member).1, (tidy.names name member).2⟩
  fields := fun row member field within => solid_isWord (tidy.fields row member field within)
  nonempty := fun row member => (tidy.long row member).1
  short := fun row member => (tidy.long row member).2
  no_comment := tidy.no_comment

private theorem print_written (table : Table) : table.Written table.print := by
  refine ⟨[ascii "-F", ascii "t"], join [9] (ascii "#fsdb" :: ascii "-F" :: ascii "t" :: table.columns),
    table.rows.map (join [9]), ?_, spaced_join (List.cons_ne_nil _ _), lines_join table.nonempty, ?_⟩
  · decide +kernel
  · have ended := fileText_ended
      (((ascii "#fsdb" :: ascii "-F" :: ascii "t" :: table.columns) :: table.rows).map (join [9]))
    rw [List.flatMap_map] at ended
    exact ended

end FsdbReader

namespace Converter

variable {Data : Type} {dns : Dnspython Data}

/-! ### The tables of a directory -/

structure Full (columns : List Bytes) (table : FsdbReader.Table) : Prop where
  columns : ∀ name ∈ columns, name ∈ table.columns
  rows : ∀ row ∈ table.rows, row.length = table.columns.length

def RowsOf (table : FsdbReader.Table) (rows : List Row) : Prop :=
  List.Forall₂ (FsdbReader.IsRow table.columns) table.rows rows

theorem Full.present {columns : List Bytes} {table : FsdbReader.Table} (full : Full columns table)
    {rows : List Row} (isRows : RowsOf table rows) : ∀ l ∈ rows, ∀ name ∈ columns, name ∈ l := by
  intro l member name column
  obtain ⟨i, within, rfl⟩ := List.getElem_of_mem member
  have there : i < table.rows.length := by
    rw [isRows.length_eq]
    exact within
  have isRow := List.Forall₂.get isRows there within
  obtain ⟨place, inside, rfl⟩ := List.getElem_of_mem (full.columns name column)
  have long := full.rows table.rows[i] (List.getElem_mem there)
  have field : table.rows[i][place]? = some table.rows[i][place] :=
    List.getElem?_eq_getElem (by omega)
  exact mem_iff_lookup.mpr ⟨_, (isRow _ _).mpr ⟨place, List.getElem?_eq_getElem inside, field⟩⟩

structure Tables where
  messages : FsdbReader.Table
  questions : FsdbReader.Table
  rrs : FsdbReader.Table

/-- The file with this suffix has the table, with all columns that are used. -/
def HasTable (capture : Capture) (d suffix : Bytes) (columns : List Bytes)
    (table : FsdbReader.Table) : Prop :=
  Full columns table ∧ ∃ text, capture.files (fmt_path capture.input_dir d suffix) = some text ∧
    table.Written text

structure Captured (capture : Capture) (d : Bytes) (tables : Tables) : Prop where
  messages : HasTable capture d (ascii ".message.fsdb") message_columns tables.messages
  questions : HasTable capture d (ascii ".question.fsdb") question_columns tables.questions
  rrs : HasTable capture d (ascii ".rr.fsdb") rr_columns tables.rrs

theorem HasTable.rows {capture : Capture} {d suffix : Bytes} {columns : List Bytes}
    {table : FsdbReader.Table} (has : HasTable capture d suffix columns table) {State : Type}
    (body : State → Row → Except Stop State) :
    ∃ db rows, FsdbReader.new capture.files (fmt_path capture.input_dir d suffix) = .ok db ∧
      RowsOf table rows ∧ (∀ l ∈ rows, ∀ name ∈ columns, name ∈ l) ∧
      ∀ state, FsdbReader.each_row body db state = rows.foldlM body state := by
  obtain ⟨full, text, file, written⟩ := has
  obtain ⟨names, lines, areLines, whole⟩ :=
    FsdbReader.process_header_columns written (fmt_path capture.input_dir d suffix)
  obtain ⟨rows, isRows, loops⟩ :=
    FsdbReader.each_row_rows body (fun _row member => member) names areLines whole
  refine ⟨_, rows, ?_, isRows, full.present isRows, loops⟩
  unfold FsdbReader.new
  rw [file]

structure RowsRead (tables : Tables) (ms qs rs : List Row) : Prop where
  messages : RowsOf tables.messages ms
  questions : RowsOf tables.questions qs
  rrs : RowsOf tables.rrs rs

/-- The messages that are read are the join of the tables, and all their records are
in the zone that looks them up. -/
structure Joined (dns : Dnspython Data) (rec_addr : Bytes) (ms qs rs : List Row)
    (start : DNSZone Data) (dns_msg : HashTable Bytes MessageText) (rrs : DNSZone Data) : Prop where
  messages : ∀ id, dns_msg.lookup id = joined rec_addr ms qs rs id
  zone : add_records dns start (all_records rec_addr ms rs) = .ok rrs

/-- The first two loops end, and the third goes over the rows of the records. -/
theorem read_dns_message_loop {capture : Capture} {d : Bytes} {tables : Tables}
    (captured : Captured capture d tables) :
    ∃ ms qs rs t, RowsRead tables ms qs rs ∧
      (∀ id, t.lookup id = joined capture.rec_addr ms qs [] id) ∧
      (∀ l ∈ rs, ∀ name ∈ rr_columns, name ∈ l) ∧
      ∀ start : DNSZone Data,
        read_dns_message dns capture d start = rs.foldlM (rr_row dns) (t, start) := by
  obtain ⟨msg_db, ms, opens, isMs, allMs, loopMs⟩ :=
    captured.messages.rows (message_row capture.rec_addr)
  obtain ⟨q_db, qs, opensQs, isQs, allQs, loopQs⟩ := captured.questions.rows question_row
  obtain ⟨rr_db, rs, opensRs, isRs, allRs, loopRs⟩ := captured.rrs.rows (rr_row dns)
  obtain ⟨heads, headed⟩ := ends_of_each
    (fun l member t => message_row_of_mem capture.rec_addr t (allMs l member)) ∅
  obtain ⟨asked, questioned⟩ := ends_of_each
    (fun l member t => question_row_of_mem t (allQs l member)) heads
  refine ⟨ms, qs, rs, asked, ⟨isMs, isQs, isRs⟩,
    questions_joined (messages_joined headed) questioned, allRs, ?_⟩
  intro start
  unfold read_dns_message
  simp only [opens, opensQs, opensRs]
  rw [← loopRs]
  change FsdbReader.each_row _ msg_db ∅ >>= _ = _
  rw [loopMs, headed]
  change FsdbReader.each_row _ q_db heads >>= _ = _
  rw [loopQs, questioned]
  rfl

/-- A full capture is read exactly if every record that is used has a section and is
taken by the zone; what is read is the join of its tables. -/
theorem read_dns_message_joins {capture : Capture} {d : Bytes} {tables : Tables}
    (captured : Captured capture d tables) (start : DNSZone Data) :
    ∃ ms qs rs, RowsRead tables ms qs rs ∧
      (∀ dns_msg rrs, read_dns_message dns capture d start = .ok (dns_msg, rrs) →
        Joined dns capture.rec_addr ms qs rs start dns_msg rrs) ∧
      ((∃ result, read_dns_message dns capture d start = .ok result) ↔
        (∀ l ∈ rs, used capture.rec_addr ms l = true →
          cell l (ascii "section_name") ∈ sections) ∧
        ∃ rrs, add_records dns start (all_records capture.rec_addr ms rs) = .ok rrs) := by
  obtain ⟨ms, qs, rs, t, rows, messages, all, loop⟩ := read_dns_message_loop captured
  refine ⟨ms, qs, rs, rows, ?_, ?_⟩
  · intro dns_msg rrs ended
    have read := records_read messages ((loop start).symm.trans ended)
    exact ⟨read.messages, read.zone⟩
  · rw [loop]
    constructor
    · rintro ⟨result, ended⟩
      have read := records_read messages ended
      exact ⟨read.known, result.2, read.zone⟩
    · rintro ⟨known, rrs, added⟩
      exact records_read_ends messages all known added

def capture_messages : List (List Bytes) := [
  [ascii "1", ascii "7", ascii "10.0.0.1", ascii "198.41.0.4", ascii "2000", ascii "53"] ++
    List.replicate 9 (ascii "0"),
  [ascii "2", ascii "7", ascii "198.41.0.4", ascii "10.0.0.1", ascii "53", ascii "2000",
    ascii "0", ascii "0", ascii "1"] ++ List.replicate 6 (ascii "0"),
  [ascii "3", ascii "8", ascii "192.0.2.1", ascii "10.0.0.1", ascii "53", ascii "2000",
    ascii "0", ascii "0", ascii "1", ascii "1"] ++ List.replicate 5 (ascii "0")]

def capture_questions : List (List Bytes) := [
  [ascii "2", ascii "a.com.", ascii "IN", ascii "A"],
  [ascii "3", ascii "a.com.", ascii "IN", ascii "A"]]

def capture_rrs : List (List Bytes) := [
  [ascii "2", ascii "com.", ascii "60", ascii "IN", ascii "NS", ascii "ns.com.", ascii "AUT"],
  [ascii "2", ascii "ns.com.", ascii "60", ascii "IN", ascii "A", ascii "192.0.2.1", ascii "ADD"],
  [ascii "3", ascii "a.com.", ascii "60", ascii "IN", ascii "A", ascii "192.0.2.7", ascii "ANS"]]

theorem messages_tidy : FsdbReader.Tidy message_columns capture_messages :=
  ⟨by decide +kernel, by decide +kernel, by decide +kernel, by decide +kernel, by decide +kernel⟩

theorem questions_tidy : FsdbReader.Tidy question_columns capture_questions :=
  ⟨by decide +kernel, by decide +kernel, by decide +kernel, by decide +kernel, by decide +kernel⟩

theorem rrs_tidy : FsdbReader.Tidy rr_columns capture_rrs :=
  ⟨by decide +kernel, by decide +kernel, by decide +kernel, by decide +kernel, by decide +kernel⟩

def capture_tables : Tables :=
  ⟨messages_tidy.table, questions_tidy.table, rrs_tidy.table⟩

def one_capture : Capture where
  files := fun path =>
    if path = ascii "in/d/d.message.fsdb" then some messages_tidy.table.print
    else if path = ascii "in/d/d.question.fsdb" then some questions_tidy.table.print
    else if path = ascii "in/d/d.rr.fsdb" then some rrs_tidy.table.print
    else none
  input_dir := ascii "in"
  rec_addr := ascii "10.0.0.1"

theorem one_captured : Captured one_capture (ascii "d") capture_tables where
  messages := ⟨⟨fun _name member => member, by decide⟩, messages_tidy.table.print,
    by decide +kernel, FsdbReader.print_written _⟩
  questions := ⟨⟨fun _name member => member, by decide⟩, questions_tidy.table.print,
    by decide +kernel, FsdbReader.print_written _⟩
  rrs := ⟨⟨fun _name member => member, by decide⟩, rrs_tidy.table.print,
    by decide +kernel, FsdbReader.print_written _⟩

/-- Two messages are read, and the query is not. -/
theorem read_one_capture :
    ∃ ms qs rs dns_msg rrs, RowsRead capture_tables ms qs rs ∧
      read_dns_message Listed.dnspython one_capture (ascii "d")
        { data := ⟨DomainName.root, []⟩ } = .ok (dns_msg, rrs) ∧
      Joined Listed.dnspython (ascii "10.0.0.1") ms qs rs { data := ⟨DomainName.root, []⟩ }
        dns_msg rrs ∧
      (∀ l ∈ rs, used (ascii "10.0.0.1") ms l = true →
        cell l (ascii "section_name") ∈ sections) ∧
      dns_msg.lookup (ascii "1") = none ∧ (dns_msg.lookup (ascii "2")).isSome ∧
      (dns_msg.lookup (ascii "3")).isSome := by
  have read : ∃ result, read_dns_message Listed.dnspython one_capture (ascii "d")
        { data := ⟨DomainName.root, []⟩ } = .ok result ∧ result.1.lookup (ascii "1") = none ∧
      (result.1.lookup (ascii "2")).isSome ∧ (result.1.lookup (ascii "3")).isSome := by
    have reads : (read_dns_message Listed.dnspython one_capture (ascii "d")
        { data := ⟨DomainName.root, []⟩ }).toOption.any (fun result =>
          (result.1.lookup (ascii "1")).isNone && (result.1.lookup (ascii "2")).isSome &&
            (result.1.lookup (ascii "3")).isSome) = true := by decide +kernel
    cases ended : read_dns_message Listed.dnspython one_capture (ascii "d")
        { data := ⟨DomainName.root, []⟩ } with
    | error stop =>
        rw [ended] at reads
        cases reads
    | ok result =>
        rw [ended] at reads
        refine ⟨result, rfl, ?_⟩
        simpa [Except.toOption, and_assoc] using reads
  obtain ⟨⟨dns_msg, rrs⟩, ended, query, delegation, answer⟩ := read
  obtain ⟨ms, qs, rs, rows, joined, reads⟩ := @read_dns_message_joins _ Listed.dnspython _ _ _ one_captured
    { data := ⟨DomainName.root, []⟩ }
  exact ⟨ms, qs, rs, dns_msg, rrs, rows, ended, joined dns_msg rrs ended,
    (reads.mp ⟨_, ended⟩).1, query, delegation, answer⟩

end Converter

end LDPlayer
