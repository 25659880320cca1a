/-
Domain names as they are written, and their labels.

Dots part the labels, but not a dot behind a backslash.  One name is at or below
another where its last labels are those of the other; with names that have no
escaped dot this is a matter of the text alone.
-/
import LDPlayer.Foundation.Text

set_option autoImplicit false

namespace DomainName

def root : Bytes := [46]

/-- The labels, with an empty one behind the last dot of an absolute name. -/
def labels : Bytes → List Bytes
  | [] => [[]]
  | byte :: rest =>
      if byte = 46 then [] :: labels rest
      else if byte = 92 then
        match rest with
        | [] => [[92]]
        | next :: behind => (labels behind).modifyHead (fun label => 92 :: next :: label)
      else (labels rest).modifyHead (fun label => byte :: label)

def escapedDot : Bytes → Bool
  | [] => false
  | byte :: rest =>
      if byte = 92 then
        match rest with
        | [] => false
        | next :: behind => next = 46 || escapedDot behind
      else escapedDot rest

/-- `owner` is `origin` or lies below it, and every name lies below the root. -/
def Below (origin owner : Bytes) : Prop := origin = root ∨ labels origin <:+ labels owner

instance (origin owner : Bytes) : Decidable (Below origin owner) :=
  inferInstanceAs (Decidable (_ ∨ _))

theorem below_root (owner : Bytes) : Below root owner := Or.inl rfl

theorem below_refl (name : Bytes) : Below name name := Or.inr (List.suffix_refl _)

theorem labels_dot (rest : Bytes) : labels (46 :: rest) = [] :: labels rest :=
  (labels.eq_def _).trans (if_pos rfl)

theorem labels_escape (next : UInt8) (behind : Bytes) :
    labels (92 :: next :: behind) =
      (labels behind).modifyHead (fun label => 92 :: next :: label) :=
  (labels.eq_def _).trans ((if_neg (by decide)).trans (if_pos rfl))

theorem labels_byte {byte : UInt8} (dot : byte ≠ 46) (escape : byte ≠ 92) (rest : Bytes) :
    labels (byte :: rest) = (labels rest).modifyHead (fun label => byte :: label) :=
  (labels.eq_def _).trans ((if_neg dot).trans (if_neg escape))

private theorem escapedDot_escape {next : UInt8} {behind : Bytes}
    (plain : escapedDot (92 :: next :: behind) = false) :
    next ≠ 46 ∧ escapedDot behind = false := by
  have both : (next = 46 || escapedDot behind) = false := plain
  simpa using both

theorem escapedDot_byte {byte : UInt8} (escape : byte ≠ 92) (rest : Bytes) :
    escapedDot (byte :: rest) = escapedDot rest :=
  (escapedDot.eq_def _).trans (if_neg escape)

private theorem modifyHead_append {first last : List Bytes} (some : first ≠ [])
    (f : Bytes → Bytes) :
    (first ++ last).modifyHead f = first.modifyHead f ++ last := by
  cases first with
  | nil => exact absurd rfl some
  | cons head tail => rfl

private theorem labels_behind_dot {front name : Bytes}
    (plain : escapedDot (front ++ 46 :: name) = false) :
    ∃ first, first ≠ [] ∧ labels (front ++ 46 :: name) = first ++ labels name := by
  fun_induction escapedDot front with
  | case1 => exact ⟨[[]], List.cons_ne_nil _ _, labels_dot name⟩
  | case2 => exact absurd rfl (escapedDot_escape plain).1
  | case3 next behind ih =>
      obtain ⟨first, some, split⟩ := ih (escapedDot_escape plain).2
      refine ⟨first.modifyHead (fun label => 92 :: next :: label), ?_, ?_⟩
      · intro empty
        exact some (List.modifyHead_eq_nil_iff.mp empty)
      · rw [← modifyHead_append some, ← split]
        exact labels_escape next _
  | case4 byte rest escape ih =>
      obtain ⟨first, some, split⟩ := ih ((escapedDot_byte escape _).symm.trans plain)
      by_cases dot : byte = 46
      · refine ⟨[] :: first, List.cons_ne_nil _ _, ?_⟩
        rw [dot, List.cons_append, labels_dot, split]
        rfl
      · refine ⟨first.modifyHead (fun label => byte :: label), ?_, ?_⟩
        · intro empty
          exact some (List.modifyHead_eq_nil_iff.mp empty)
        · rw [← modifyHead_append some, ← split]
          exact labels_byte dot escape _

/-- The test of the text: equal, or the other name behind a dot. -/
theorem below_of_suffix {origin owner : Bytes} (plain : escapedDot owner = false)
    (suffix : owner = origin ∨ (46 :: origin) <:+ owner) : Below origin owner := by
  rcases suffix with rfl | behind
  · exact below_refl owner
  · obtain ⟨front, rfl⟩ := behind
    obtain ⟨first, _some, split⟩ := labels_behind_dot plain
    exact Or.inr ⟨first, split.symm⟩

/-! ### The text of the labels -/

theorem labels_ne_nil (name : Bytes) : labels name ≠ [] := by
  fun_induction labels name with
  | case1 => exact List.cons_ne_nil _ _
  | case2 => exact List.cons_ne_nil _ _
  | case3 => exact List.cons_ne_nil _ _
  | case4 next behind _dot ih => exact fun empty => ih (List.modifyHead_eq_nil_iff.mp empty)
  | case5 byte rest _dot _escape ih => exact fun empty => ih (List.modifyHead_eq_nil_iff.mp empty)

theorem join_cons {rest : List Bytes} (some : rest ≠ []) (label : Bytes) :
    Text.join [46] (label :: rest) = label ++ 46 :: Text.join [46] rest := by
  cases rest with
  | nil => exact absurd rfl some
  | cons next later => simp [Text.join, List.intercalate_cons_cons]

private theorem join_modifyHead {ls : List Bytes} (some : ls ≠ []) (front : Bytes) :
    Text.join [46] (ls.modifyHead (fun label => front ++ label)) =
      front ++ Text.join [46] ls := by
  cases ls with
  | nil => exact absurd rfl some
  | cons head tail =>
      cases tail with
      | nil => simp [Text.join]
      | cons next rest => simp [Text.join, List.intercalate_cons_cons]

theorem join_append {first last : List Bytes} (some_first : first ≠ []) (some_last : last ≠ []) :
    Text.join [46] (first ++ last) = Text.join [46] first ++ 46 :: Text.join [46] last := by
  induction first with
  | nil => exact absurd rfl some_first
  | cons head rest ih =>
      by_cases single : rest = []
      · rw [single]
        exact (join_cons some_last head).trans (congrArg (· ++ _) (List.append_nil head).symm)
      · rw [List.cons_append, join_cons (List.append_ne_nil_of_left_ne_nil single last),
          ih single, join_cons single, List.append_assoc]
        rfl

theorem join_labels (name : Bytes) : Text.join [46] (labels name) = name := by
  fun_induction labels name with
  | case1 => rfl
  | case2 rest ih =>
      rw [join_cons (labels_ne_nil rest), ih]
      rfl
  | case3 => rfl
  | case4 next behind _dot ih =>
      exact (join_modifyHead (labels_ne_nil behind) [92, next]).trans
        (congrArg ([92, next] ++ ·) ih)
  | case5 byte rest _dot _escape ih =>
      exact (join_modifyHead (labels_ne_nil rest) [byte]).trans (congrArg ([byte] ++ ·) ih)

theorem labels_injective {name other : Bytes} (same : labels name = labels other) :
    name = other := by
  rw [← join_labels name, same, join_labels other]

theorem suffix_of_labels {origin owner : Bytes} (suffix : labels origin <:+ labels owner) :
    owner = origin ∨ (46 :: origin) <:+ owner := by
  obtain ⟨front, split⟩ := suffix
  by_cases none : front = []
  · rw [none] at split
    exact Or.inl (labels_injective split.symm)
  · have text := congrArg (Text.join [46]) split
    rw [join_append none (labels_ne_nil origin), join_labels, join_labels] at text
    exact Or.inr ⟨Text.join [46] front, text⟩

/-! ### Absolute names -/

/-- The root, or labels that are not empty and end with a dot each; no dot is escaped. -/
structure Absolute (name : Bytes) : Prop where
  plain : escapedDot name = false
  parts : name = root ∨ ∃ ls, ls ≠ [] ∧ [] ∉ ls ∧ labels name = ls ++ [[]]

def count (name : Bytes) : Nat := (labels name).countP (fun label => label ≠ [])

private theorem count_of_parts {name : Bytes} {ls : List Bytes} (nonempty : [] ∉ ls)
    (parts : labels name = ls ++ [[]]) : count name = ls.length := by
  unfold count
  rw [parts, List.countP_append, List.countP_eq_length.mpr]
  · rfl
  · intro label member
    rw [decide_eq_true_iff]
    intro empty
    exact nonempty (empty ▸ member)

theorem Absolute.ends {name : Bytes} (absolute : Absolute name) : root <:+ name := by
  rcases absolute.parts with rfl | ⟨ls, some, _nonempty, parts⟩
  · exact List.suffix_refl root
  · have text := congrArg (Text.join [46]) parts
    rw [join_labels, join_append some (List.cons_ne_nil _ _)] at text
    exact ⟨Text.join [46] ls, text.symm⟩

/-- At a name that is not the root, a proper suffix of labels has fewer of them and
a shorter text. -/
theorem Absolute.count_lt {name other : Bytes} (absolute : Absolute name) (not_root : name ≠ root)
    (absolute_other : Absolute other) (below : Below other name) (differ : name ≠ other) :
    count other < count name ∧ other.length < name.length := by
  obtain ⟨ls, some, nonempty, parts⟩ := absolute.parts.resolve_left not_root
  rw [count_of_parts nonempty parts]
  rcases absolute_other.parts with rfl | ⟨ls', some', nonempty', parts'⟩
  · refine ⟨List.length_pos_iff.mpr some, ?_⟩
    obtain ⟨front, rfl⟩ := absolute.ends
    have longer : front ≠ [] := fun none => differ (by rw [none]; rfl)
    rw [List.length_append]
    exact Nat.lt_add_of_pos_left (List.length_pos_iff.mpr longer)
  · have other_not_root : other ≠ root := by
      rintro rfl
      have split : [[]] ++ [[]] = ls' ++ [[]] := parts'
      have only : [[]] = ls' := List.append_cancel_right split
      exact nonempty' (only ▸ List.mem_singleton_self [])
    have suffix := below.resolve_left other_not_root
    obtain ⟨front, split⟩ := suffix
    rw [count_of_parts nonempty' parts']
    constructor
    · rw [parts, parts', ← List.append_assoc] at split
      rw [← List.append_cancel_right split, List.length_append]
      refine Nat.lt_add_of_pos_left (List.length_pos_iff.mpr fun none => differ ?_)
      apply labels_injective
      rw [parts, parts', ← List.append_cancel_right split, none]
      rfl
    · obtain behind := (suffix_of_labels ⟨front, split⟩).resolve_left differ
      exact Nat.lt_of_succ_le behind.length_le

/-- Of two names above the same name one has more labels, and the longer text. -/
theorem count_lt_or_lt {name origin other : Bytes} (absolute_origin : Absolute origin)
    (absolute_other : Absolute other) (below : Below origin name) (below_other : Below other name)
    (differ : origin ≠ other) :
    (count other < count origin ∧ other.length < origin.length) ∨
      (count origin < count other ∧ origin.length < other.length) := by
  by_cases at_root : origin = root
  · have not_root : other ≠ root := fun same => differ (at_root.trans same.symm)
    exact Or.inr (absolute_other.count_lt not_root absolute_origin (Or.inl at_root) differ.symm)
  by_cases other_at_root : other = root
  · exact Or.inl (absolute_origin.count_lt at_root absolute_other (Or.inl other_at_root) differ)
  rcases List.suffix_or_suffix_of_suffix (below.resolve_left at_root)
    (below_other.resolve_left other_at_root) with above | above
  · exact Or.inr (absolute_other.count_lt other_at_root absolute_origin (Or.inr above) differ.symm)
  · exact Or.inl (absolute_origin.count_lt at_root absolute_other (Or.inr above) differ)

theorem lowerByte_eq_dot (byte : UInt8) : Text.lowerByte byte = 46 ↔ byte = 46 := by
  have all : ∀ byte : UInt8, Text.lowerByte byte = 46 ↔ byte = 46 := by decide +kernel
  exact all byte

theorem lowerByte_eq_escape (byte : UInt8) : Text.lowerByte byte = 92 ↔ byte = 92 := by
  have all : ∀ byte : UInt8, Text.lowerByte byte = 92 ↔ byte = 92 := by decide +kernel
  exact all byte

private theorem map_lower_modifyHead (front : Bytes) (ls : List Bytes) :
    (ls.modifyHead (fun label => front ++ label)).map Text.lower =
      (ls.map Text.lower).modifyHead (fun label => Text.lower front ++ label) := by
  cases ls with
  | nil => rfl
  | cons head tail => exact congrArg (· :: _) List.map_append

private theorem labels_lower (name : Bytes) :
    labels (Text.lower name) = (labels name).map Text.lower := by
  fun_induction labels name with
  | case1 => rfl
  | case2 rest ih => exact (labels_dot _).trans (congrArg ([] :: ·) ih)
  | case3 => rfl
  | case4 next behind _dot ih =>
      refine (labels_escape (Text.lowerByte next) (Text.lower behind)).trans ?_
      rw [ih]
      exact (map_lower_modifyHead [92, next] _).symm
  | case5 byte rest dot escape ih =>
      refine (labels_byte (mt (lowerByte_eq_dot byte).mp dot)
        (mt (lowerByte_eq_escape byte).mp escape) (Text.lower rest)).trans ?_
      rw [ih]
      exact (map_lower_modifyHead [byte] _).symm

private theorem escapedDot_lower (name : Bytes) :
    escapedDot (Text.lower name) = escapedDot name := by
  fun_induction escapedDot name with
  | case1 => rfl
  | case2 => rfl
  | case3 next behind ih =>
      change (decide (Text.lowerByte next = 46) || escapedDot (Text.lower behind)) = _
      rw [ih, decide_eq_decide.mpr (lowerByte_eq_dot next)]
  | case4 byte rest escape ih =>
      exact (escapedDot_byte (mt (lowerByte_eq_escape byte).mp escape) _).trans ih

theorem Absolute.lower {name : Bytes} (absolute : Absolute name) : Absolute (Text.lower name) where
  plain := (escapedDot_lower name).trans absolute.plain
  parts := by
    rcases absolute.parts with rfl | ⟨ls, some, nonempty, parts⟩
    · exact Or.inl rfl
    · refine Or.inr ⟨ls.map Text.lower, ?_, ?_, ?_⟩
      · exact fun empty => some (List.map_eq_nil_iff.mp empty)
      · intro member
        obtain ⟨label, within, lowered⟩ := List.mem_map.mp member
        rw [List.map_eq_nil_iff.mp lowered] at within
        exact nonempty within
      · rw [labels_lower, parts, List.map_append]
        rfl

end DomainName
