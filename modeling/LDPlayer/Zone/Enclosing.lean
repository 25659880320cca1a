/-
The closest zone, `find_zone`.

The loop compares the lengths of texts.  For names that enclose the same owner
the longer text is the one with more labels, so the loop finds the closest zone
in whatever order it goes through the names.
-/
import LDPlayer.Zone.InZone

set_option autoImplicit false

namespace LDPlayer

open Text DomainName Actions HashTable

namespace Converter

variable {Data : Type} {name2zone : HashTable Bytes (DNSZone Data)} {name : Bytes}

/-- The two tests of `find_zone` are for the names above the owner. -/
theorem encloses_iff (absolute : Absolute name) (n : Bytes) :
    name = n ∨ endswith name n = true ↔ Below n name := by
  refine ⟨below_of_endswith absolute.plain, ?_⟩
  intro below
  unfold endswith
  by_cases atRoot : n = root
  · rw [if_pos atRoot, atRoot]
    exact Or.inr (List.isSuffixOf_iff_suffix.mpr absolute.ends)
  · rw [if_neg atRoot, List.isSuffixOf_iff_suffix]
    exact suffix_of_labels (below.resolve_left atRoot)

private theorem length_le_of_below (absolute : Absolute name) {n : Bytes} (below : Below n name) :
    n.length ≤ name.length := by
  rcases below with rfl | above
  · exact absolute.ends.length_le
  · rcases suffix_of_labels above with same | behind
    · rw [same]
    · exact Nat.le_of_succ_le behind.length_le

/-- The longest of these names that encloses the owner, if one does. -/
def Longest (name : Bytes) (seen : List Bytes) : Option Bytes → Prop
  | none => ∀ m ∈ seen, ¬ Below m name
  | some n => n ∈ seen ∧ Below n name ∧ ∀ m ∈ seen, Below m name → m.length ≤ n.length

def name_len (z : Option Bytes) : Int := z.elim (-1) (fun n => n.length)

theorem Longest.skip {seen : List Bytes} {z : Option Bytes} (longest : Longest name seen z)
    {n : Bytes} (skipped : Below n name → (n.length : Int) ≤ name_len z) :
    Longest name (seen ++ [n]) z := by
  cases z with
  | none =>
      intro m member below
      rcases List.mem_append.mp member with earlier | own
      · exact longest m earlier below
      · rw [List.mem_singleton.mp own] at below
        have negative : (n.length : Int) ≤ -1 := skipped below
        omega
  | some found =>
      obtain ⟨within, encloses, most⟩ := longest
      refine ⟨List.mem_append_left [n] within, encloses, ?_⟩
      intro m member below
      rcases List.mem_append.mp member with earlier | own
      · exact most m earlier below
      · rw [List.mem_singleton.mp own] at below ⊢
        exact Int.ofNat_le.mp (skipped below)

theorem Longest.take {seen : List Bytes} {z : Option Bytes} (longest : Longest name seen z)
    {n : Bytes} (below : Below n name) (longer : (n.length : Int) > name_len z) :
    Longest name (seen ++ [n]) (some n) := by
  refine ⟨List.mem_append_right seen (List.mem_singleton_self n), below, ?_⟩
  intro m member encloses
  rcases List.mem_append.mp member with earlier | own
  · cases z with
    | none => exact absurd encloses (longest m earlier)
    | some found =>
        have most := longest.2.2 m earlier encloses
        have more : (n.length : Int) > found.length := longer
        omega
  · rw [List.mem_singleton.mp own]

/-- The loop finds the longest name, whatever it has seen before. -/
theorem find_zone_loop_longest (absolute : Absolute name) {names seen : List Bytes}
    {z : Option Bytes} (known : ∀ n ∈ names, n ∈ name2zone) (longest : Longest name seen z) :
    ∃ found, find_zone_loop name2zone name names (name_len z) z = .ok found ∧
      Longest name (seen ++ names) found := by
  induction names generalizing seen z with
  | nil =>
      rw [List.append_nil]
      exact ⟨z, rfl, longest⟩
  | cons n rest ih =>
      have own := known n List.mem_cons_self
      have others : ∀ m ∈ rest, m ∈ name2zone := fun m member =>
        known m (List.mem_cons_of_mem n member)
      have split : seen ++ n :: rest = seen ++ [n] ++ rest := by
        rw [List.append_assoc]
        rfl
      unfold find_zone_loop
      by_cases same : name = n
      · -- the loop ends here; no name that encloses the owner is longer than the owner
        rw [if_pos same, if_pos own]
        refine ⟨some n, rfl, List.mem_append_right seen List.mem_cons_self, ?_, ?_⟩
        · rw [same]
          exact below_refl n
        · intro m _member below
          rw [← same]
          exact length_le_of_below absolute below
      · rw [if_neg same, split]
        by_cases closer : endswith name n = true ∧ (n.length : Int) > name_len z
        · rw [if_pos closer, if_pos own]
          exact ih others
            (longest.take ((encloses_iff absolute n).mp (Or.inr closer.1)) closer.2)
        · rw [if_neg closer]
          refine ih others (longest.skip fun below => ?_)
          by_contra longer
          have suffix := ((encloses_iff absolute n).mpr below).resolve_left same
          exact closer ⟨suffix, not_le.mp longer⟩

/-- The longest name has the most labels, and it is the only one. -/
theorem Longest.closest_iff {names : List Bytes} {found : Option Bytes}
    (longest : Longest name names found) (all : ∀ n ∈ names, Absolute n) (n : Bytes) :
    found = some n ↔
      n ∈ names ∧ Below n name ∧ ∀ m ∈ names, Below m name → count m ≤ count n := by
  constructor
  · rintro rfl
    obtain ⟨within, encloses, most⟩ := longest
    refine ⟨within, encloses, ?_⟩
    intro m member below
    by_cases same : m = n
    · rw [same]
    · rcases count_lt_or_lt (all m member) (all n within) below encloses same with more | fewer
      · exact absurd (most m member below) (not_le.mpr more.2)
      · exact fewer.1.le
  · rintro ⟨within, encloses, most⟩
    cases found with
    | none => exact absurd encloses (longest n within)
    | some other =>
        obtain ⟨within_other, encloses_other, longer⟩ := longest
        by_contra differ
        have differ' : n ≠ other := fun same => differ (congrArg some same.symm)
        rcases count_lt_or_lt (all n within) (all other within_other) encloses encloses_other
          differ' with more | fewer
        · exact absurd (longer n within encloses) (not_le.mpr more.2)
        · exact absurd (most other within_other encloses_other) (not_le.mpr fewer.1)

theorem Longest.none_iff {names : List Bytes} {found : Option Bytes}
    (longest : Longest name names found) : found = none ↔ ∀ n ∈ names, ¬ Below n name := by
  constructor
  · rintro rfl
    exact longest
  · intro none
    cases found with
    | none => rfl
    | some n => exact absurd longest.2.1 (none n longest.1)

/-- `find_zone` gives the zone of the address that encloses the lower-cased owner and
has the most labels, and none exactly if no zone of the address encloses it. -/
theorem find_zone_closest {c : Converter Data} (order : Order) {src_ip owner : Bytes}
    {names : List Bytes} (listed : c.addr2name.lookup src_ip = some names)
    (known : ∀ n ∈ names, n ∈ c.name2zone) (all : ∀ n ∈ names, Absolute n)
    (absolute : Absolute owner) :
    ∃ found, find_zone order src_ip owner c = .ok found c ∧
      (∀ n, found = some n ↔ n ∈ names ∧ Below n (lower owner) ∧
        ∀ m ∈ names, Below m (lower owner) → count m ≤ count n) ∧
      (found = none ↔ ∀ n ∈ names, ¬ Below n (lower owner)) := by
  have through : ∀ n, n ∈ order.through names ↔ n ∈ names := fun n => (order.perm names).mem_iff
  have start : Longest (lower owner) [] none := fun m member => absurd member List.not_mem_nil
  obtain ⟨found, finds, longest⟩ := find_zone_loop_longest absolute.lower
    (fun n member => known n ((through n).mp member)) start
  rw [List.nil_append] at longest
  refine ⟨found, ?_, ?_, ?_⟩
  · unfold find_zone
    rw [listed]
    exact value_ok finds c
  · intro n
    rw [longest.closest_iff (fun n member => all n ((through n).mp member))]
    simp only [through]
  · rw [longest.none_iff]
    simp only [through]

/-- An address with the zones `com.`, `example.com.` and the root. -/
def three_zones : Converter Unit where
  name2zone := [ascii "com.", ascii "example.com.", root].foldl
    (fun zones n => zones.insert n { data := () }) ∅
  addr2name := (∅ : HashTable Bytes (List Bytes)).insert (ascii "192.0.2.1")
    [ascii "com.", ascii "example.com.", root]

theorem find_zone_closest_example :
    ∃ found, find_zone in_order (ascii "192.0.2.1") (ascii "WWW.Example.COM.") three_zones =
        .ok found three_zones ∧
      (∀ n, found = some n ↔ n ∈ [ascii "com.", ascii "example.com.", root] ∧
        Below n (lower (ascii "WWW.Example.COM.")) ∧
        ∀ m ∈ [ascii "com.", ascii "example.com.", root],
          Below m (lower (ascii "WWW.Example.COM.")) → count m ≤ count n) ∧
      (found = none ↔ ∀ n ∈ [ascii "com.", ascii "example.com.", root],
        ¬ Below n (lower (ascii "WWW.Example.COM."))) := by
  have com : Absolute (ascii "com.") :=
    ⟨by decide +kernel, Or.inr ⟨[ascii "com"], by decide +kernel⟩⟩
  have example_com : Absolute (ascii "example.com.") :=
    ⟨by decide +kernel, Or.inr ⟨[ascii "example", ascii "com"], by decide +kernel⟩⟩
  have owner : Absolute (ascii "WWW.Example.COM.") :=
    ⟨by decide +kernel, Or.inr ⟨[ascii "WWW", ascii "Example", ascii "COM"], by decide +kernel⟩⟩
  refine find_zone_closest in_order (AList.lookup_insert _) (by decide +kernel) ?_ owner
  intro n member
  simp only [List.mem_cons, List.not_mem_nil, or_false] at member
  rcases member with rfl | rfl | rfl
  · exact com
  · exact example_com
  · exact ⟨by decide, Or.inl rfl⟩

end Converter

end LDPlayer
