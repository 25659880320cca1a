/-
The reader of tables, fsdb_reader.py.

The first line names the columns; every other line is a comment or a row.  The
end of the file reads as an empty row.
-/
import LDPlayer.Foundation.HashTable
import LDPlayer.Zone.DNSZone

set_option autoImplicit false

namespace LDPlayer

open Text HashTable

/-- `f` is what is left of the file. -/
structure FsdbReader where
  idx2name : HashTable Nat Bytes := ∅
  fn : Bytes
  f : Bytes

namespace FsdbReader

/-- `readline`: a line with its line feed, and what is left. -/
def readline : Bytes → Bytes × Bytes
  | [] => ([], [])
  | byte :: rest =>
      if byte = 10 then ([10], rest) else (byte :: (readline rest).1, (readline rest).2)

def next_line (f : Bytes) : Bytes × Bytes := (strip (readline f).1, (readline f).2)

def filter_list : List Bytes := [ascii "#fsdb", ascii "-F", ascii "t"]

def name_columns : List Bytes → (i : Nat) → HashTable Nat Bytes → HashTable Nat Bytes
  | [], _, idx2name => idx2name
  | p :: rest, i, idx2name =>
      if p ∉ filter_list then name_columns rest (i + 1) (idx2name.insert i p)
      else name_columns rest i idx2name

def process_header (reader : FsdbReader) : FsdbReader :=
  let line := next_line reader.f
  { reader with idx2name := name_columns (words line.1) 0 reader.idx2name, f := line.2 }

def new (files : Bytes → Option Bytes) (file_name : Bytes) : Except Stop FsdbReader :=
  match files file_name with
  | none => .error (.exit (ascii "[error] file [" ++ file_name ++ ascii "] does not exist"))
  | some f => .ok (process_header { fn := file_name, f := f })

theorem readline_length (f : Bytes) : (readline f).1.length + (readline f).2.length = f.length := by
  induction f with
  | nil => rfl
  | cons byte rest ih =>
      unfold readline
      split
      · exact Nat.add_comm 1 rest.length
      · simp only [List.length_cons]
        omega

theorem next_line_shorter {f : Bytes} (comment : (next_line f).1.head? = some 35) :
    (next_line f).2.length < f.length := by
  have length := readline_length f
  have some : (readline f).1 ≠ [] := by
    intro none
    unfold next_line at comment
    rw [none] at comment
    cases comment
  have positive := List.length_pos_iff.mpr some
  change (readline f).2.length < f.length
  omega

def next_line_list (f : Bytes) : List Bytes × Bytes :=
  if _comment : (next_line f).1.head? = some 35 then next_line_list (next_line f).2
  else (words (next_line f).1, (next_line f).2)
termination_by f.length
decreasing_by exact next_line_shorter _comment

/-- The loop of `next_line_map`; a column without a name is a `KeyError`. -/
def fill (idx2name : HashTable Nat Bytes) :
    List Bytes → (idx : Nat) → HashTable Bytes Bytes → Except Nat (HashTable Bytes Bytes)
  | [], _, m => .ok m
  | val :: rest, idx, m =>
      match idx2name.lookup idx with
      | none => .error idx
      | some name => fill idx2name rest (idx + 1) (m.insert name val)

def next_line_map (reader : FsdbReader) (m : HashTable Bytes Bytes) :
    Except Nat (HashTable Bytes Bytes × FsdbReader) :=
  let line := next_line_list reader.f
  (fill reader.idx2name line.1 0 m).map (fun m => (m, { reader with f := line.2 }))

def next_line_maps : Nat → FsdbReader → Except Nat (List (HashTable Bytes Bytes) × FsdbReader)
  | 0, reader => .ok ([], reader)
  | n + 1, reader =>
      match reader.next_line_map ∅ with
      | .error idx => .error idx
      | .ok first =>
          (next_line_maps n first.2).map (fun later => (first.1 :: later.1, later.2))

/-! ### Tables -/

structure Table where
  columns : List Bytes
  rows : List (List Bytes)
  distinct : columns.Nodup
  names : ∀ name ∈ columns, IsWord name ∧ name ∉ filter_list
  fields : ∀ row ∈ rows, ∀ field ∈ row, IsWord field
  nonempty : ∀ row ∈ rows, row ≠ []
  short : ∀ row ∈ rows, row.length ≤ columns.length
  no_comment : ∀ row ∈ rows, ∀ field ∈ row.head?, field.head? ≠ some 35

/-- The words of a line, parted by tabs and blanks. -/
inductive Spaced : List Bytes → Bytes → Prop
  | last (word : Bytes) : Spaced [word] word
  | more (word gap line : Bytes) (rest : List Bytes) (nonempty : gap ≠ [])
      (blank : ∀ byte ∈ gap, byte = 9 ∨ byte = 32) (spaced : Spaced rest line) :
      Spaced (word :: rest) (word ++ gap ++ line)

/-- The lines of rows, with comments anywhere. -/
inductive Lines : List (List Bytes) → List Bytes → Prop
  | done : Lines [] []
  | comment (text : Bytes) (rows : List (List Bytes)) (lines : List Bytes) (one_line : 10 ∉ text)
      (rest : Lines rows lines) : Lines rows ((35 :: text) :: lines)
  | row (row : List Bytes) (line : Bytes) (rows : List (List Bytes)) (lines : List Bytes)
      (spaced : Spaced row line) (rest : Lines rows lines) : Lines (row :: rows) (line :: lines)

/-- The text of a file of lines; the last line feed may be missing. -/
inductive FileText : List Bytes → Bytes → Prop
  | empty : FileText [] []
  | unended (line : Bytes) : FileText [line] line
  | ended (line text : Bytes) (lines : List Bytes) (rest : FileText lines text) :
      FileText (line :: lines) (line ++ 10 :: text)

/-- The text is the table: a header with options and the names of the columns, and
the lines of the rows. -/
structure Table.Written (table : Table) (text : Bytes) : Prop where
  file : ∃ options header lines, (∀ option ∈ options, option ∈ filter_list) ∧
    Spaced (ascii "#fsdb" :: (options ++ table.columns)) header ∧ Lines table.rows lines ∧
      FileText (header :: lines) text

def IsRow (columns row : List Bytes) (m : HashTable Bytes Bytes) : Prop :=
  ∀ name field, m.lookup name = some field ↔
    ∃ i : Nat, columns[i]? = some name ∧ row[i]? = some field

/-! ### Lines -/

private theorem readline_ended {line : Bytes} (one_line : 10 ∉ line) (rest : Bytes) :
    readline (line ++ 10 :: rest) = (line ++ [10], rest) := by
  induction line with
  | nil => rfl
  | cons byte line ih =>
      obtain ⟨other, later⟩ := not_or.mp (mt List.mem_cons.mpr one_line)
      rw [List.cons_append]
      unfold readline
      rw [if_neg (Ne.symm other), ih later]
      rfl

private theorem readline_unended {line : Bytes} (one_line : 10 ∉ line) :
    readline line = (line, []) := by
  induction line with
  | nil => rfl
  | cons byte line ih =>
      obtain ⟨other, later⟩ := not_or.mp (mt List.mem_cons.mpr one_line)
      unfold readline
      rw [if_neg (Ne.symm other), ih later]

theorem next_line_first {line text : Bytes} {lines : List Bytes} (one_line : 10 ∉ line)
    (file : FileText (line :: lines) text) :
    ∃ tail rest, next_line text = (strip (line ++ tail), rest) ∧ words (line ++ tail) = words line ∧
      FileText lines rest := by
  cases file with
  | unended =>
      refine ⟨[], [], ?_, by rw [List.append_nil], .empty⟩
      unfold next_line
      rw [readline_unended one_line, List.append_nil]
  | ended _ rest _ later =>
      refine ⟨[10], rest, ?_, ?_, later⟩
      · unfold next_line
        rw [readline_ended one_line]
      · rw [words_append line (by decide) [], words_nil, List.append_nil]

theorem strip_head {byte : UInt8} (solid : isSpace byte = false) (rest : Bytes) :
    (strip (byte :: rest)).head? = some byte := by
  unfold strip
  rw [List.dropWhile_cons_of_neg (by rw [solid]; exact Bool.false_ne_true)]
  have kept : (byte :: rest).rdropWhile isSpace ≠ [] := by
    intro none
    have all := List.rdropWhile_eq_nil_iff.mp none byte List.mem_cons_self
    rw [solid] at all
    exact Bool.false_ne_true all
  obtain ⟨tail, whole⟩ := List.rdropWhile_prefix isSpace (byte :: rest)
  cases front : (byte :: rest).rdropWhile isSpace with
  | nil => exact absurd front kept
  | cons first later =>
      rw [front, List.cons_append] at whole
      rw [List.head?_cons, (List.cons.inj whole).1]

private theorem words_gap {gap : Bytes} (blank : ∀ byte ∈ gap, byte = 9 ∨ byte = 32)
    (line : Bytes) :
    words (gap ++ line) = words line := by
  induction gap with
  | nil => rfl
  | cons byte rest ih =>
      have space : isSpace byte = true := by
        rcases blank byte List.mem_cons_self with rfl | rfl <;> rfl
      rw [List.cons_append, words_cons_space space]
      exact ih fun other member => blank other (List.mem_cons_of_mem byte member)

theorem Spaced.words_eq {fields : List Bytes} {line : Bytes} (spaced : Spaced fields line)
    (areWords : ∀ field ∈ fields, IsWord field) : words line = fields := by
  induction spaced with
  | last word => exact words_of_isWord (areWords word List.mem_cons_self)
  | more word gap line rest nonempty blank spaced ih =>
      have own := areWords word List.mem_cons_self
      cases gap with
      | nil => exact absurd rfl nonempty
      | cons byte gap =>
          have space : isSpace byte = true := by
            rcases blank byte List.mem_cons_self with rfl | rfl <;> rfl
          rw [List.append_assoc, List.cons_append, words_append_space own space,
            words_gap (fun other member => blank other (List.mem_cons_of_mem byte member)),
            ih fun field member => areWords field (List.mem_cons_of_mem word member)]

theorem Spaced.one_line {fields : List Bytes} {line : Bytes} (spaced : Spaced fields line)
    (areWords : ∀ field ∈ fields, IsWord field) : 10 ∉ line := by
  have solid {word : Bytes} (isWord : IsWord word) : 10 ∉ word := fun member =>
    absurd (isWord.solid 10 member) (by decide)
  induction spaced with
  | last word => exact solid (areWords word List.mem_cons_self)
  | more word gap line rest nonempty blank spaced ih =>
      simp only [List.mem_append, not_or]
      refine ⟨⟨solid (areWords word List.mem_cons_self), ?_⟩, ?_⟩
      · intro member
        rcases blank 10 member with impossible | impossible <;> cases impossible
      · exact ih fun field member => areWords field (List.mem_cons_of_mem word member)

theorem Spaced.head {fields : List Bytes} {line : Bytes} (spaced : Spaced fields line)
    (areWords : ∀ field ∈ fields, IsWord field) :
    ∃ field ∈ fields.head?, ∃ byte more, field.head? = some byte ∧ isSpace byte = false ∧
      line = byte :: more := by
  have first {word : Bytes} (isWord : IsWord word) (after : Bytes) :
      ∃ byte more, word.head? = some byte ∧ isSpace byte = false ∧ word ++ after = byte :: more := by
    cases word with
    | nil => exact absurd rfl isWord.nonempty
    | cons byte more => exact ⟨byte, more ++ after, rfl, isWord.solid byte List.mem_cons_self, rfl⟩
  cases spaced with
  | last word =>
      have own := first (areWords _ List.mem_cons_self) []
      rw [List.append_nil] at own
      exact ⟨_, rfl, own⟩
  | more word gap line rest =>
      have own := first (areWords _ List.mem_cons_self) (gap ++ line)
      rw [← List.append_assoc] at own
      exact ⟨_, rfl, own⟩

theorem next_line_list_comment {comment text : Bytes} {lines : List Bytes}
    (one_line : 10 ∉ comment) (file : FileText ((35 :: comment) :: lines) text) :
    ∃ rest, next_line_list text = next_line_list rest ∧ FileText lines rest := by
  have one : 10 ∉ 35 :: comment := by
    rw [List.mem_cons, not_or]
    exact ⟨by decide, one_line⟩
  obtain ⟨tail, rest, next, _words, later⟩ := next_line_first one file
  have head : (next_line text).1.head? = some 35 := by
    rw [next]
    exact strip_head (by decide) (comment ++ tail)
  refine ⟨rest, ?_, later⟩
  rw [next_line_list, dif_pos head, next]

private theorem next_line_list_line {row : List Bytes} {line text : Bytes} {lines : List Bytes}
    (spaced : Spaced row line) (file : FileText (line :: lines) text)
    (areWords : ∀ field ∈ row, IsWord field)
    (no_comment : ∀ field ∈ row.head?, field.head? ≠ some 35) :
    ∃ rest, next_line_list text = (row, rest) ∧ FileText lines rest := by
  obtain ⟨tail, rest, next, same, later⟩ := next_line_first (spaced.one_line areWords) file
  obtain ⟨field, first, byte, more, head, solid, rfl⟩ := spaced.head areWords
  have other : (next_line text).1.head? ≠ some 35 := by
    rw [next]
    exact (strip_head solid (more ++ tail)).trans_ne (head ▸ no_comment field first)
  refine ⟨rest, ?_, later⟩
  rw [next_line_list, dif_neg other, next]
  simp only
  rw [words_strip, same, spaced.words_eq areWords]

private theorem next_line_list_row {rows : List (List Bytes)} {lines : List Bytes} {text : Bytes}
    {row : List Bytes} (written : Lines (row :: rows) lines) (file : FileText lines text)
    (areWords : ∀ field ∈ row, IsWord field)
    (no_comment : ∀ field ∈ row.head?, field.head? ≠ some 35) :
    ∃ lines' rest, next_line_list text = (row, rest) ∧ Lines rows lines' ∧ FileText lines' rest := by
  induction lines generalizing text with
  | nil => cases written
  | cons line lines ih =>
      cases written with
      | comment comment _ _ one_line later =>
          obtain ⟨rest, same, file'⟩ := next_line_list_comment one_line file
          rw [same]
          exact ih later file'
      | row _ _ _ _ spaced later =>
          obtain ⟨rest, same, file'⟩ := next_line_list_line spaced file areWords no_comment
          exact ⟨lines, rest, same, later, file'⟩

theorem next_line_list_end {lines : List Bytes} {text : Bytes} (written : Lines [] lines)
    (file : FileText lines text) : next_line_list text = ([], []) := by
  induction lines generalizing text with
  | nil =>
      cases file
      rw [next_line_list, dif_neg (by decide)]
      rfl
  | cons line lines ih =>
      cases written with
      | comment comment _ _ one_line later =>
          obtain ⟨rest, same, file'⟩ := next_line_list_comment one_line file
          rw [same]
          exact ih later file'

/-! ### The header and the maps -/

private theorem lookup_name_columns {before : List Bytes} {idx2name : HashTable Nat Bytes}
    (named : ∀ i, idx2name.lookup i = before[i]?) (w : List Bytes) (i : Nat) :
    (name_columns w before.length idx2name).lookup i =
      (before ++ w.filter (fun p => p ∉ filter_list))[i]? := by
  induction w generalizing before idx2name with
  | nil =>
      rw [List.filter_nil, List.append_nil]
      exact named i
  | cons p rest ih =>
      change (if p ∉ filter_list then
        name_columns rest (before.length + 1) (idx2name.insert before.length p)
        else name_columns rest before.length idx2name).lookup i = _
      by_cases option : p ∈ filter_list
      · rw [if_neg (not_not.mpr option), List.filter_cons_of_neg (by simpa using option)]
        exact ih named
      · have more : ∀ i, (idx2name.insert before.length p).lookup i = (before ++ [p])[i]? := by
          intro j
          rw [lookup_insert_eq, named j]
          by_cases last : j = before.length
          · rw [if_pos last, last, List.getElem?_concat_length]
          · rw [if_neg last]
            by_cases earlier : j < before.length
            · rw [List.getElem?_append_left earlier]
            · rw [List.getElem?_eq_none (not_lt.mp earlier), List.getElem?_eq_none]
              rw [List.length_append, List.length_singleton]
              omega
        have counted : before.length + 1 = (before ++ [p]).length := by
          rw [List.length_append, List.length_singleton]
        rw [if_pos option, List.filter_cons_of_pos (by simpa using option), counted, ih more,
          List.append_assoc]
        rfl

private theorem isRow_empty (columns : List Bytes) : IsRow columns [] ∅ := by
  intro name field
  constructor
  · intro impossible
    cases impossible
  · rintro ⟨i, _, impossible⟩
    cases impossible

theorem IsRow.insert {columns done : List Bytes} (distinct : columns.Nodup)
    {m : HashTable Bytes Bytes} (isRow : IsRow columns done m) {name : Bytes}
    (own : columns[done.length]? = some name) (val : Bytes) :
    IsRow columns (done ++ [val]) (m.insert name val) := by
  intro other field
  rw [lookup_insert_eq]
  by_cases same : other = name
  · rw [if_pos same, same]
    constructor
    · intro is
      exact ⟨done.length, own, by rw [List.getElem?_concat_length, is]⟩
    · rintro ⟨i, column, value⟩
      obtain ⟨within, _is⟩ := List.getElem?_eq_some_iff.mp column
      have place : i = done.length :=
        (List.getElem?_inj within distinct).mp (column.trans own.symm)
      rw [place, List.getElem?_concat_length] at value
      exact value
  · rw [if_neg same, isRow other field]
    constructor
    · rintro ⟨i, column, value⟩
      obtain ⟨within, _is⟩ := List.getElem?_eq_some_iff.mp value
      exact ⟨i, column, (List.getElem?_append_left within).trans value⟩
    · rintro ⟨i, column, value⟩
      refine ⟨i, column, ?_⟩
      by_cases earlier : i < done.length
      · rw [List.getElem?_append_left earlier] at value
        exact value
      · obtain ⟨within, _is⟩ := List.getElem?_eq_some_iff.mp value
        rw [List.length_append, List.length_singleton] at within
        obtain rfl : i = done.length := by omega
        exact absurd (Option.some.inj (column.symm.trans own)) same

private theorem fill_ok {columns : List Bytes} (distinct : columns.Nodup)
    {idx2name : HashTable Nat Bytes}
    (names : ∀ i, idx2name.lookup i = columns[i]?) {row done : List Bytes}
    {m : HashTable Bytes Bytes} (isRow : IsRow columns done m)
    (short : done.length + row.length ≤ columns.length) :
    ∃ filled, fill idx2name row done.length m = .ok filled ∧
      IsRow columns (done ++ row) filled := by
  induction row generalizing done m with
  | nil =>
      rw [List.append_nil]
      exact ⟨m, rfl, isRow⟩
  | cons val rest ih =>
      rw [List.length_cons] at short
      have own := List.getElem?_eq_getElem (show done.length < columns.length by omega)
      have counted : done.length + 1 = (done ++ [val]).length := by
        rw [List.length_append, List.length_singleton]
      obtain ⟨filled, ends, all⟩ := ih (isRow.insert distinct own val) (by omega)
      rw [List.append_assoc] at all
      refine ⟨filled, ?_, all⟩
      unfold fill
      rw [names, own]
      simp only
      rw [counted]
      exact ends

/-! ### Reading a table back -/

theorem next_line_map_row {table : Table} {reader : FsdbReader} {row : List Bytes}
    {rows : List (List Bytes)} {lines : List Bytes}
    (names : ∀ i, reader.idx2name.lookup i = table.columns[i]?) (own : row ∈ table.rows)
    (written : Lines (row :: rows) lines) (file : FileText lines reader.f) :
    ∃ m lines' rest, reader.next_line_map ∅ = .ok (m, { reader with f := rest }) ∧
      IsRow table.columns row m ∧ Lines rows lines' ∧ FileText lines' rest := by
  obtain ⟨lines', rest, reads, later, file'⟩ :=
    next_line_list_row written file (table.fields row own) (table.no_comment row own)
  have short := table.short row own
  obtain ⟨m, fills, isRow⟩ := fill_ok table.distinct names (isRow_empty table.columns)
    (show ([] : List Bytes).length + row.length ≤ table.columns.length by
      rw [List.length_nil, Nat.zero_add]
      exact short)
  refine ⟨m, lines', rest, ?_, isRow, later, file'⟩
  unfold next_line_map
  simp only [reads]
  rw [List.length_nil] at fills
  rw [fills]
  rfl

theorem IsRow.ne_empty {columns row : List Bytes} {m : HashTable Bytes Bytes}
    (isRow : IsRow columns row m) (nonempty : row ≠ []) (short : row.length ≤ columns.length) :
    m ≠ ∅ := by
  rintro rfl
  have some_row := List.length_pos_iff.mpr nonempty
  have place : columns[0]? = some columns[0] := List.getElem?_eq_getElem (by omega)
  have field : row[0]? = some row[0] := List.getElem?_eq_getElem some_row
  have found := (isRow columns[0] row[0]).mpr ⟨0, place, field⟩
  cases found

private theorem next_line_maps_rows {table : Table} {reader : FsdbReader} {rows : List (List Bytes)}
    {lines : List Bytes} (names : ∀ i, reader.idx2name.lookup i = table.columns[i]?)
    (part : ∀ row ∈ rows, row ∈ table.rows) (written : Lines rows lines)
    (file : FileText lines reader.f) :
    ∃ maps, next_line_maps (rows.length + 1) reader = .ok (maps ++ [∅], { reader with f := [] }) ∧
      List.Forall₂ (fun row m => IsRow table.columns row m ∧ m ≠ ∅) rows maps := by
  induction rows generalizing reader lines with
  | nil =>
      refine ⟨[], ?_, .nil⟩
      unfold next_line_maps next_line_map
      simp only [next_line_list_end written file]
      rfl
  | cons row rows ih =>
      have own := part row List.mem_cons_self
      obtain ⟨m, lines', rest, reads, isRow, later, file'⟩ :=
        next_line_map_row names own written file
      have names' : ∀ i, ({ reader with f := rest } : FsdbReader).idx2name.lookup i =
          table.columns[i]? := names
      obtain ⟨maps, ends, all⟩ := ih names'
        (fun other member => part other (List.mem_cons_of_mem row member)) later file'
      have some_field := isRow.ne_empty (table.nonempty row own) (table.short row own)
      refine ⟨m :: maps, ?_, .cons ⟨isRow, some_field⟩ all⟩
      unfold next_line_maps
      simp only [reads]
      rw [List.length_cons, ends]
      rfl

private theorem isWord_filter_list {p : Bytes} (option : p ∈ filter_list) : IsWord p := by
  have all : ∀ p ∈ filter_list, p ≠ [] ∧ p.all (fun byte => isSpace byte == false) = true := by
    decide +kernel
  exact isWord_of_all (all p option).1 (all p option).2

theorem process_header_columns {table : Table} {text : Bytes} (written : table.Written text)
    (fn : Bytes) :
    (∀ i, (process_header { fn := fn, f := text }).idx2name.lookup i = table.columns[i]?) ∧
      ∃ lines, Lines table.rows lines ∧
        FileText lines (process_header { fn := fn, f := text }).f := by
  obtain ⟨options, header, lines, filtered, spaced, rows, whole⟩ := written.file
  have first : ascii "#fsdb" ∈ filter_list := List.mem_cons_self
  have areWords : ∀ word ∈ ascii "#fsdb" :: (options ++ table.columns), IsWord word := by
    intro word member
    rcases List.mem_cons.mp member with rfl | other
    · exact isWord_filter_list first
    · rcases List.mem_append.mp other with option | name
      · exact isWord_filter_list (filtered word option)
      · exact (table.names word name).1
  have columns : (ascii "#fsdb" :: (options ++ table.columns)).filter (fun p => p ∉ filter_list) =
      table.columns := by
    rw [List.filter_cons_of_neg (by simpa using first), List.filter_append,
      List.filter_eq_nil_iff.mpr (by simpa using filtered), List.nil_append]
    exact List.filter_eq_self.mpr fun name member => by simpa using (table.names name member).2
  obtain ⟨tail, rest, next, same, later⟩ := next_line_first (spaced.one_line areWords) whole
  unfold process_header
  simp only [next]
  rw [words_strip, same, spaced.words_eq areWords]
  refine ⟨?_, lines, rows, later⟩
  intro i
  have empty : ∀ i, (∅ : HashTable Nat Bytes).lookup i = ([] : List Bytes)[i]? := fun i => rfl
  have named := lookup_name_columns empty (ascii "#fsdb" :: (options ++ table.columns)) i
  rw [columns] at named
  exact named

/-- A reader of a file with a table has the names of its columns; calls of
`next_line_map` give the rows in order, and then the empty map. -/
theorem reads_table {table : Table} {text : Bytes} (written : table.Written text)
    {files : Bytes → Option Bytes} {file_name : Bytes} (file : files file_name = some text) :
    ∃ reader, new files file_name = .ok reader ∧
      (∀ i, reader.idx2name.lookup i = table.columns[i]?) ∧
      ∃ maps last, next_line_maps (table.rows.length + 1) reader = .ok (maps ++ [∅], last) ∧
        List.Forall₂ (fun row m => IsRow table.columns row m ∧ m ≠ ∅) table.rows maps := by
  obtain ⟨names, lines, rows, whole⟩ := process_header_columns written file_name
  obtain ⟨maps, reads, all⟩ := next_line_maps_rows names (fun _row member => member) rows whole
  refine ⟨_, ?_, names, maps, _, reads, all⟩
  unfold new
  rw [file]

def messages : Table where
  columns := [ascii "msgid", ascii "time"]
  rows := [[ascii "1", ascii "0.1"], [ascii "2"]]
  distinct := by decide +kernel
  names := by
    have all : ∀ name ∈ [ascii "msgid", ascii "time"], name ≠ [] ∧
        name.all (fun byte => isSpace byte == false) = true ∧ name ∉ filter_list := by
      decide +kernel
    exact fun name member =>
      ⟨isWord_of_all (all name member).1 (all name member).2.1, (all name member).2.2⟩
  fields := by
    have all : ∀ row ∈ [[ascii "1", ascii "0.1"], [ascii "2"]], ∀ field ∈ row, field ≠ [] ∧
        field.all (fun byte => isSpace byte == false) = true := by
      decide +kernel
    exact fun row own field member =>
      isWord_of_all (all row own field member).1 (all row own field member).2
  nonempty := by decide +kernel
  short := by decide +kernel
  no_comment := by decide +kernel

def messages_text : Bytes :=
  (ascii "#fsdb" ++ [32] ++ (ascii "-F" ++ [32] ++
    (ascii "t" ++ [32] ++ (ascii "msgid" ++ [32] ++ ascii "time")))) ++ 10 ::
  ((ascii "1" ++ [9] ++ ascii "0.1") ++ 10 :: ((35 :: ascii " a comment") ++ 10 :: ascii "2"))

theorem reads_messages :
    messages.Written messages_text ∧
    ∃ reader, new (fun _name => some messages_text) (ascii "a.fsdb") = .ok reader ∧
      (∀ i, reader.idx2name.lookup i = messages.columns[i]?) ∧
      ∃ maps last, next_line_maps (messages.rows.length + 1) reader = .ok (maps ++ [∅], last) ∧
        List.Forall₂ (fun row m => IsRow messages.columns row m ∧ m ≠ ∅) messages.rows maps := by
  have blank : ∀ byte ∈ ([32] : Bytes), byte = 9 ∨ byte = 32 := by simp
  have tab : ∀ byte ∈ ([9] : Bytes), byte = 9 ∨ byte = 32 := by simp
  have first : Spaced [ascii "1", ascii "0.1"] (ascii "1" ++ [9] ++ ascii "0.1") :=
    .more _ _ _ _ (by decide) tab (.last _)
  have second : Spaced [ascii "2"] (ascii "2") := .last _
  have comment : 10 ∉ ascii " a comment" := by decide +kernel
  have written : messages.Written messages_text := by
    refine ⟨[ascii "-F", ascii "t"], _, _, by decide +kernel, ?_,
      .row _ _ _ _ first (.comment _ _ _ comment (.row _ _ _ _ second .done)),
      .ended _ _ _ (.ended _ _ _ (.ended _ _ _ (.unended _)))⟩
    exact .more _ _ _ _ (by decide) blank (.more _ _ _ _ (by decide) blank
      (.more _ _ _ _ (by decide) blank (.more _ _ _ _ (by decide) blank (.last _))))
  exact ⟨written, reads_table written rfl⟩

end FsdbReader

end LDPlayer
